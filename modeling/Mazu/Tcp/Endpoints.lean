import Mazu.Tcp.Slots

/-!
# The ends of a connection

The two addresses and ports of a connection, its listener, and whether it is a listener itself are
fixed when it is created. Two invariants of the table rest on that. A slot is linked into the hash
bucket of its 4-tuple and no other, unless it is free or a listener. And no two connections share
a 4-tuple, listeners aside: an active open takes a port that is not in use, and a listener answers a
SYN only when the lookup has found no connection of the same 4-tuple.
-/

namespace Mazu.Tcp

variable {c d : TcpConn} {st : TcpConnState} {k : Cause} {hashSeed : U32} {F : TcpConn → Prop}
  {a b : Slot}

/-- The fields that are fixed when a connection is created. -/
structure SameEnds (c d : TcpConn) : Prop where
  hostAddr : d.hostAddr = c.hostAddr
  hostPort : d.hostPort = c.hostPort
  peerAddr : d.peerAddr = c.peerAddr
  peerPort : d.peerPort = c.peerPort
  listener : d.listener = c.listener
  listens : d.state = .listen ↔ c.state = .listen

theorem SameEnds.refl (c : TcpConn) : SameEnds c c := ⟨rfl, rfl, rfl, rfl, rfl, Iff.rfl⟩

theorem SameEnds.trans {e : TcpConn} (h : SameEnds c d) (h' : SameEnds d e) : SameEnds c e where
  hostAddr := h'.hostAddr.trans h.hostAddr
  hostPort := h'.hostPort.trans h.hostPort
  peerAddr := h'.peerAddr.trans h.peerAddr
  peerPort := h'.peerPort.trans h.peerPort
  listener := h'.listener.trans h.listener
  listens := h'.listens.trans h.listens

/-- A move between two states that are not LISTEN. -/
theorem sameEnds_of_move (hc : c.state ≠ .listen)
    (hst : st ≠ .listen) : SameEnds c { c with state := st } :=
  ⟨rfl, rfl, rfl, rfl, rfl, iff_of_false hst hc⟩

theorem Moves.not_listen {st' : TcpConnState} (h : Moves st st') :
    st ≠ .listen ∧ st' ≠ .listen := by
  cases h with
  | timeWait h => rcases h with rfl | rfl | rfl <;> exact ⟨nofun, nofun⟩
  | _ => exact ⟨nofun, nofun⟩

/-- The states around our FIN. -/
theorem finStates_not_listen {st' : TcpConnState}
    (h : (st = .established ∧ st' = .finWait1) ∨ (st = .closeWait ∧ st' = .lastAck)) :
    st ≠ .listen ∧ st' ≠ .listen := by
  rcases h with ⟨rfl, rfl⟩ | ⟨rfl, rfl⟩ <;> exact ⟨nofun, nofun⟩

/-- **No update changes the ends.** -/
theorem Micro.sameEnds (h : Micro k c d) : SameEnds c d := by
  cases h with
  | options _ flags opts =>
    obtain ⟨mss, scale, use, heq, -⟩ := tcpHandleOptions_update c flags opts
    rw [heq]
    exact ⟨rfl, rfl, rfl, rfl, rfl, Iff.rfl⟩
  | move _ h => exact sameEnds_of_move h.not_listen.1 h.not_listen.2
  | reset _ h =>
    refine sameEnds_of_move ?_ nofun
    rcases h with h | h | h <;> rw [h] <;> exact nofun
  | sendState env _ g seg tsopt =>
    obtain ⟨f, hf, -⟩ := tcpConnUpdateSendState_spec env c g seg tsopt
    rw [hf]
    exact ⟨rfl, rfl, rfl, rfl, rfl, Iff.rfl⟩
  | recvState _ seg tsopt =>
    obtain ⟨f, hf⟩ := tcpConnUpdateRecvState_same c seg tsopt
    rw [hf]
    exact ⟨rfl, rfl, rfl, rfl, rfl, Iff.rfl⟩
  | handshake env _ g seg tsopt st₀ st buf recvNext h hack hnum hst hbuf =>
    obtain ⟨f, hf, -⟩ := tcpConnUpdateSendState_spec env { c with state := st₀ } g seg tsopt
    rw [hf]
    refine ⟨rfl, rfl, rfl, rfl, rfl, iff_of_false ?_ ?_⟩
    · rcases hst with rfl | rfl <;> exact nofun
    · rcases h with h | h <;> rw [h] <;> exact nofun
  | queueFin env _ h =>
    obtain ⟨hc, hst⟩ := finStates_not_listen h
    exact ⟨rfl, rfl, rfl, rfl, rfl, iff_of_false hst hc⟩
  | finUnsent _ h =>
    obtain ⟨hc, hst⟩ := finStates_not_listen h
    exact sameEnds_of_move hc hst
  | _ => exact ⟨rfl, rfl, rfl, rfl, rfl, Iff.rfl⟩

theorem Evolves.sameEnds (h : Evolves k c d) : SameEnds c d :=
  h.invariant (fun _ _ hends hm ↦ hends.trans hm.sameEnds) (SameEnds.refl c)

/-- The ways the state of a connection changes while it stays in its slot. -/
inductive StateMove : TcpConnState → TcpConnState → Prop
  | peer {st st' : TcpConnState} (h : Moves st st') : StateMove st st'
  | reset {st : TcpConnState} (h : st = .synSent ∨ st = .established ∨ st = .closeWait) :
      StateMove st .reset
  | handshake {st st' : TcpConnState} (h : st = .synSent ∨ st = .synRcvd)
      (hst : st' = .established ∨ st' = .reset) : StateMove st st'
  | fin {st st' : TcpConnState}
      (h : (st = .established ∧ st' = .finWait1) ∨ (st = .closeWait ∧ st' = .lastAck)) :
      StateMove st st'

theorem Micro.state_cases (h : Micro k c d) : d.state = c.state ∨ StateMove c.state d.state := by
  cases h with
  | options _ flags opts =>
    obtain ⟨mss, scale, use, heq, -⟩ := tcpHandleOptions_update c flags opts
    rw [heq]
    exact .inl rfl
  | move _ h => exact .inr (.peer h)
  | reset _ h => exact .inr (.reset h)
  | sendState env _ g seg tsopt =>
    obtain ⟨f, hf, -⟩ := tcpConnUpdateSendState_spec env c g seg tsopt
    rw [hf]
    exact .inl rfl
  | recvState _ seg tsopt =>
    obtain ⟨f, hf⟩ := tcpConnUpdateRecvState_same c seg tsopt
    rw [hf]
    exact .inl rfl
  | handshake env _ g seg tsopt st₀ st buf recvNext h hack hnum hst hbuf =>
    exact .inr (.handshake h hst)
  | queueFin env _ h | finUnsent _ h => exact .inr (.fin h)
  | _ => exact .inl rfl

/-- A connection of a slot was there before, or was put there as `F` admits; its ends are the ones
it had. -/
theorem SlotEvolves.origin (h : SlotEvolves hashSeed k F a b) (hd : b.conn = some d) :
    (∃ c, a.conn = some c ∧ SameEnds c d) ∨ ∃ c, F c ∧ SameEnds c d := by
  refine h.all (P := fun d ↦ (∃ c, a.conn = some c ∧ SameEnds c d) ∨ ∃ c, F c ∧ SameEnds c d)
    ?_ ?_ ?_ d hd
  · rintro c c' (⟨c₀, hc₀, hends⟩ | ⟨c₀, hc₀, hends⟩) hm
    · exact .inl ⟨c₀, hc₀, hends.trans hm.sameEnds⟩
    · exact .inr ⟨c₀, hc₀, hends.trans hm.sameEnds⟩
  · exact fun c hc ↦ .inr ⟨c, hc, SameEnds.refl c⟩
  · exact fun c hc ↦ .inl ⟨c, hc, SameEnds.refl c⟩

/-! ## The hash chains -/

/-- A slot is in the buckets it belongs in, and a listener has no peer. -/
structure SlotOk (hashSeed : U32) (a : Slot) : Prop where
  free : a.conn = none → a.buckets = ∅
  used : ∀ c, a.conn = some c → a.buckets = freshBuckets hashSeed c
  listens : ∀ c, a.conn = some c → c.state = .listen →
    c.peerAddr = ipv4AddrAny ∧ c.peerPort = 0

theorem SameEnds.freshBuckets_eq (h : SameEnds c d) (hashSeed : U32) :
    freshBuckets hashSeed d = freshBuckets hashSeed c := by
  have hbucket : d.bucket hashSeed = c.bucket hashSeed := by
    rw [TcpConn.bucket, TcpConn.bucket, h.hostAddr, h.hostPort, h.peerAddr, h.peerPort]
  rw [freshBuckets, hbucket]
  ext b
  exact and_congr_left fun _ ↦ not_congr h.listens

theorem Creates.listens {env : NetEnv} {s : TcpStack} {e : Event} (h : Creates env s e c)
    (hc : c.state = .listen) :
    c.peerAddr = ipv4AddrAny ∧ c.peerPort = 0 := by
  cases h with
  | listen => exact ⟨rfl, rfl⟩
  | connect | packet => cases hc

theorem SlotOk.step (ha : SlotOk hashSeed a) (h : SlotStep hashSeed k F a b)
    (hF : ∀ c, F c → c.state = .listen → c.peerAddr = ipv4AddrAny ∧ c.peerPort = 0) :
    SlotOk hashSeed b := by
  cases h with
  | @micro c d n B hm =>
    have hends := hm.sameEnds
    refine ⟨fun hnone ↦ absurd hnone (Option.some_ne_none d), ?_, ?_⟩
    · rintro _ ⟨⟩
      exact (ha.used c rfl).trans (hends.freshBuckets_eq hashSeed).symm
    · rintro _ ⟨⟩ hst
      rw [hends.peerAddr, hends.peerPort]
      exact ha.listens c rfl (hends.listens.mp hst)
  | free =>
    refine ⟨fun _ ↦ rfl, ?_, ?_⟩ <;> rintro _ ⟨⟩
  | @fresh c n B hf =>
    refine ⟨fun hnone ↦ absurd hnone (Option.some_ne_none c), ?_, ?_⟩
    · rintro _ ⟨⟩
      have hB : B = ∅ := ha.free rfl
      rw [hB, Set.empty_union]
    · rintro _ ⟨⟩ hst
      exact hF _ hf hst

theorem SlotOk.evolves (ha : SlotOk hashSeed a) (h : SlotEvolves hashSeed k F a b)
    (hF : ∀ c, F c → c.state = .listen → c.peerAddr = ipv4AddrAny ∧ c.peerPort = 0) :
    SlotOk hashSeed b := by
  induction h with
  | refl => exact ha
  | tail _ hstep ih => exact ih.step hstep hF

/-- **The hash chains of a reachable table** hold every connection with a peer once, in the bucket of
its 4-tuple, and nothing else. -/
theorem Reachable.slotOk {s : TcpStack} (h : Reachable s) (i : ConnIdx) :
    SlotOk s.hashSeed (s.slot i) := by
  refine h.invariant (P := fun s ↦ ∀ i, SlotOk s.hashSeed (s.slot i)) ?_ ?_ i
  · intro seed i
    refine ⟨fun _ ↦ ?_, ?_, ?_⟩
    · ext b
      exact ⟨fun hb ↦ absurd hb List.not_mem_nil, fun hb ↦ absurd hb id⟩
    · rintro _ ⟨⟩
    · rintro _ ⟨⟩
  · intro env s e s' hs he hstep i
    obtain ⟨f, hev⟩ := step_evolves he hstep
    rw [hev.seed]
    exact (hs i).evolves (hev.slots i) fun c hc ↦ hc.2.listens

end Mazu.Tcp
