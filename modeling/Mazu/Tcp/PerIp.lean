import Mazu.Tcp.Endpoints

/-!
# The limit on connections from one address

A listener answers a SYN when fewer than sixteen connections from its sender are half open and fewer
than thirty-two are not internal. SYN_RCVD counts as internal, so the second test does not see the
half-open ones, and each of them becomes open by an ACK that no limit looks at.
-/

namespace Mazu.Tcp

open List

/-- Half open or open. -/
def TcpConnState.Open (st : TcpConnState) : Prop :=
  st = .synRcvd ∨ st = .established ∨ st = .closeWait

instance (st : TcpConnState) : Decidable st.Open := inferInstanceAs (Decidable (_ ∨ _))

/-- A passively opened connection of an address that is half open or open. -/
def TcpConn.PassiveFrom (addr : Ipv4Addr) (c : TcpConn) : Prop :=
  c.listener ≠ none ∧ c.peerAddr = addr ∧ c.state.Open

instance (addr : Ipv4Addr) (c : TcpConn) : Decidable (c.PassiveFrom addr) :=
  inferInstanceAs (Decidable (_ ∧ _))

def passiveFromPeer (s : TcpStack) (addr : Ipv4Addr) : ℕ :=
  s.countConns fun c ↦ decide (c.PassiveFrom addr)

/-! ## Where open connections come from -/

/-- A connection in SYN_SENT was opened actively. -/
def TcpConn.ActiveSent (c : TcpConn) : Prop := c.state = .synSent → c.listener = none

/-- A move does not lead into SYN_SENT, and into an open state only from an open one or from
SYN_SENT. -/
theorem StateMove.open_cases {st st' : TcpConnState} (h : StateMove st st') :
    st' ≠ .synSent ∧ (st'.Open → st = .synSent ∨ st.Open) := by
  cases h with
  | peer h =>
    cases h with
    | closeWait => exact ⟨nofun, fun _ ↦ .inr (by decide)⟩
    | timeWait | closing | finWait2 => exact ⟨nofun, fun hopen ↦ absurd hopen (by decide)⟩
  | reset => exact ⟨nofun, fun hopen ↦ absurd hopen (by decide)⟩
  | handshake h hst =>
    refine ⟨?_, fun _ ↦ h.imp_right .inl⟩
    rcases hst with rfl | rfl <;> exact nofun
  | fin h =>
    rcases h with ⟨-, rfl⟩ | ⟨-, rfl⟩ <;> exact ⟨nofun, fun hopen ↦ absurd hopen (by decide)⟩

variable {c : TcpConn} {env : NetEnv} {s : TcpStack} {e : Event}

theorem Micro.passiveFrom {k : Cause} {d : TcpConn} (h : Micro k c d) (hc : c.ActiveSent) :
    d.ActiveSent ∧ ∀ addr, d.PassiveFrom addr → c.PassiveFrom addr := by
  have hends := h.sameEnds
  rcases h.state_cases with hst | hmove
  · refine ⟨fun hsent ↦ ?_, fun addr hd ↦ ?_⟩
    · rw [hends.listener]
      exact hc (hst ▸ hsent)
    · rw [TcpConn.PassiveFrom, hends.listener, hends.peerAddr, hst] at hd
      exact hd
  · obtain ⟨hne, hopen⟩ := hmove.open_cases
    refine ⟨fun hsent ↦ absurd hsent hne, fun addr hd ↦ ?_⟩
    rw [TcpConn.PassiveFrom, hends.listener, hends.peerAddr] at hd
    exact ⟨hd.1, hd.2.1, (hopen hd.2.2).resolve_left fun hsent ↦ hd.1 (hc hsent)⟩

theorem Creates.activeSent (h : Creates env s e c) : c.ActiveSent := by
  intro hsent
  cases h with
  | listen | connect => rfl
  | packet => cases hsent

theorem Reachable.activeSent (h : Reachable s) : s.All TcpConn.ActiveSent := by
  refine h.invariant (P := fun s ↦ s.All TcpConn.ActiveSent) ?_ ?_
  · intro seed i c hc
    cases hc
  · intro env s e s' hs he hstep
    obtain ⟨f, hev⟩ := step_evolves he hstep
    exact hs.of_evolves (fun k c c' hc hm ↦ (hm.passiveFrom hc).1)
      (fun i c hc ↦ hc.2.activeSent) hev

/-- A passive connection of a slot that is open was open before, or is fresh. -/
theorem SlotEvolves.passiveFrom {hashSeed : U32} {k : Cause} {F : TcpConn → Prop} {a b : Slot}
    {addr : Ipv4Addr} (h : SlotEvolves hashSeed k F a b) (hF : ∀ c, F c → c.ActiveSent)
    (ha : ∀ c, a.conn = some c → c.ActiveSent) {d : TcpConn} (hd : b.conn = some d)
    (hfrom : d.PassiveFrom addr) :
    (∃ c, a.conn = some c ∧ c.PassiveFrom addr) ∨ ∃ c, F c ∧ c.PassiveFrom addr := by
  refine (h.all (P := fun x ↦ x.ActiveSent ∧ (x.PassiveFrom addr →
    (∃ c, a.conn = some c ∧ c.PassiveFrom addr) ∨ ∃ c, F c ∧ c.PassiveFrom addr))
    ?_ ?_ ?_ d hd).2 hfrom
  · intro c c' hc hm
    obtain ⟨hsent, hback⟩ := hm.passiveFrom hc.1
    exact ⟨hsent, fun hc' ↦ hc.2 (hback addr hc')⟩
  · exact fun c hc ↦ ⟨hF c hc, fun hp ↦ .inr ⟨c, hc, hp⟩⟩
  · exact fun c hc ↦ ⟨ha c hc, fun hp ↦ .inl ⟨c, hc, hp⟩⟩

/-! ## Counting -/

/-- A test that one more element may pass counts at most one more. -/
theorem countP_le_succ {α : Type} [DecidableEq α] {l : List α} (hl : l.Nodup) {p q : α → Bool}
    {i : α} (h : ∀ j, q j = true → p j = true ∨ j = i) : l.countP q ≤ l.countP p + 1 := by
  have hle : l.countP q ≤ l.countP p + l.count i := by
    induction l with
    | nil => exact Nat.zero_le _
    | cons j l ih =>
      have ih := ih (nodup_cons.mp hl).2
      rw [countP_cons, countP_cons, count_cons]
      by_cases hq : q j = true
      · rcases h j hq with hp | rfl
        · rw [if_pos hq, if_pos hp]
          omega
        · rw [if_pos hq, if_pos (beq_self_eq_true j)]
          omega
      · rw [if_neg hq]
        omega
  have hone := nodup_iff_count_le_one.mp hl i
  omega

/-- A SYN that a listener admits finds room for its sender. -/
def RoomForSyn (s : TcpStack) (e : Event) : Prop :=
  ∀ hostAddr peerAddr seg, e = .packet hostAddr peerAddr seg → ListenAdmits s peerAddr seg →
    ∀ l lc, tcpLookupConn s hostAddr peerAddr seg.destPort seg.srcPort = some l →
      s.connTable l = some lc → lc.state = .listen → passiveFromPeer s peerAddr < tcpMaxConnsPerIp

theorem Creates.passiveFrom {addr : Ipv4Addr} (h : Creates env s e c) (hc : c.PassiveFrom addr)
    (hroom : RoomForSyn s e) :
    passiveFromPeer s addr < tcpMaxConnsPerIp := by
  cases h with
  | listen | connect => exact absurd rfl hc.1
  | packet hlook hl hst hadm =>
    have hpeer : _ = addr := hc.2.1
    rw [← hpeer]
    exact hroom _ _ _ rfl hadm _ _ hlook hl hst

/-- One call keeps the limit. -/
theorem passiveFromPeer_step {s' : TcpStack} (hs : Reachable s) (he : e.Allowed s)
    (hstep : step env s e = some s') (hroom : RoomForSyn s e) (addr : Ipv4Addr)
    (hle : passiveFromPeer s addr ≤ tcpMaxConnsPerIp) :
    passiveFromPeer s' addr ≤ tcpMaxConnsPerIp := by
  obtain ⟨i, hev⟩ := step_evolves he hstep
  have hback : ∀ j, (s'.connTable j).any (fun c ↦ decide (c.PassiveFrom addr)) = true →
      (s.connTable j).any (fun c ↦ decide (c.PassiveFrom addr)) = true ∨
        j = i ∧ passiveFromPeer s addr < tcpMaxConnsPerIp := by
    intro j hj
    obtain ⟨d, hd, hfrom⟩ := (Option.any_eq_true _ _).mp hj
    rcases (hev.slots j).passiveFrom (fun c hc ↦ hc.2.activeSent) (hs.activeSent j) hd
      (of_decide_eq_true hfrom) with ⟨c, hc, hp⟩ | ⟨c, ⟨hji, hcreate⟩, hp⟩
    · exact .inl ((Option.any_eq_true _ _).mpr ⟨c, hc, decide_eq_true hp⟩)
    · exact .inr ⟨hji, hcreate.passiveFrom hp hroom⟩
  by_cases hlt : passiveFromPeer s addr < tcpMaxConnsPerIp
  · have hsucc := countP_le_succ (nodup_finRange tcpConnMaxNum)
      (fun j hj ↦ (hback j hj).imp_right And.left)
    exact hsucc.trans hlt
  · have hmono : passiveFromPeer s' addr ≤ passiveFromPeer s addr :=
      countP_mono_left fun j _ hj ↦ (hback j hj).resolve_right fun h ↦ hlt h.2
    exact hmono.trans hle

/-- **The limit holds when every admitted SYN finds room.** In every run in which no SYN is admitted
while thirty-two passive connections of its sender are half open or open, no address ever has more. -/
theorem passiveFromPeer_le {calls : List (TcpStack × Event × TcpStack)} {s : TcpStack}
    (h : Run calls s) (hroom : ∀ t e t', (t, e, t') ∈ calls → RoomForSyn t e) (addr : Ipv4Addr) :
    passiveFromPeer s addr ≤ tcpMaxConnsPerIp := by
  induction h with
  | init seed =>
    exact Nat.zero_le _
  | step env e hrun he hstep ih =>
    exact passiveFromPeer_step hrun.reachable he hstep (hroom _ _ _ mem_cons_self) addr
      (ih fun t e t' hmem ↦ hroom t e t' (mem_cons_of_mem _ hmem))

/-- One handshake: one passive connection, and room for more. -/
theorem passiveFromPeer_le_handshake :
    ∃ calls s, Run calls s ∧ passiveFromPeer s peerA = 1 ∧
      ∀ addr, passiveFromPeer s addr ≤ tcpMaxConnsPerIp := by
  obtain ⟨calls, s, hrun, hp⟩ := exists_run_of_traceCalls 0 serverHandshake
    (fun r ↦ decide (passiveFromPeer r.2 peerA = 1) && r.1.all fun call ↦
      call.2.1.packetAll fun _ peerAddr _ ↦
        decide (passiveFromPeer call.1 peerAddr < tcpMaxConnsPerIp)) (by decide +kernel)
  obtain ⟨hone, hall⟩ := Bool.and_eq_true_iff.mp hp
  refine ⟨calls, s, hrun, of_decide_eq_true hone, passiveFromPeer_le hrun ?_⟩
  rintro t e t' hmem hostAddr peerAddr seg rfl - l lc - - -
  exact of_decide_eq_true (all_eq_true.mp hall _ hmem)

/-- A SYN of the peer from its `k`th port, and the ACK that completes the handshake. -/
def synOf (k : ℕ) : NetEnv × Event :=
  (.sending 0 hostA 1000,
    .packet hostA peerA (.bare (BitVec.ofNat 16 (5000 + k)) 80 1 0 tcpHdrFlagSyn 1000))

def ackOf (k : ℕ) : NetEnv × Event :=
  (.sending 0 hostA 1000,
    .packet hostA peerA (.bare (BitVec.ofNat 16 (5000 + k)) 80 2 1001 tcpHdrFlagAck 1000))

/-- Seventeen handshakes and sixteen SYNs. -/
def manyOpens : List (NetEnv × Event) :=
  (.sending 0 hostA 1000, .listen hostA 80) ::
    ((List.range 17).flatMap fun k ↦ [synOf k, ackOf k]) ++
      (List.range 16).map fun k ↦ synOf (17 + k)

/-- **Thirty-three passive connections of one address.** -/
theorem not_passiveFromPeer_le : ∃ s, Reachable s ∧
    ¬passiveFromPeer s peerA ≤ tcpMaxConnsPerIp := by
  obtain ⟨s, hs, hp⟩ := exists_reachable_of_runCalls 0 manyOpens
    (fun s ↦ decide (passiveFromPeer s peerA = 33)) (by decide +kernel)
  refine ⟨s, hs, ?_⟩
  rw [of_decide_eq_true hp]
  decide

end Mazu.Tcp
