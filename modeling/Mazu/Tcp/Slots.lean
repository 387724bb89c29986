import Mazu.Tcp.Actions

/-!
# What a call can do to the connection table

A slot of the table is a connection, or nothing, with the number of times the slot was freed and the
hash buckets it is linked into. A call changes each slot by a chain of three kinds of steps: an
update of the connection, its release, and the arrival of a fresh connection in a free slot. So an
invariant of connections holds in every reachable state once it holds of fresh connections and is
kept by the updates.
-/

namespace Mazu.Tcp

open Function

variable {hashSeed : U32} {i j : ConnIdx} {k : Cause}

/-- A slot: its connection, how often it was freed, and the buckets that hold it. -/
structure Slot where
  conn : Option TcpConn
  generation : ℕ
  buckets : Set U32

def TcpStack.slot (s : TcpStack) (i : ConnIdx) : Slot :=
  ⟨s.connTable i, s.generation i, { b | i ∈ s.hashTable b }⟩

/-- The bucket of the 4-tuple of a connection. -/
def TcpConn.bucket (hashSeed : U32) (c : TcpConn) : U32 :=
  tcpHashBucket hashSeed c.hostAddr c.hostPort c.peerAddr c.peerPort

/-- The buckets a fresh connection is put into: listeners are not hashed. -/
def freshBuckets (hashSeed : U32) (c : TcpConn) : Set U32 :=
  { b | c.state ≠ .listen ∧ b = c.bucket hashSeed }

/-- The connection a listener creates for a SYN. -/
def tcpListenFresh (env : NetEnv) (lc : TcpConn) (l : ConnIdx) (peerAddr : Ipv4Addr)
    (seg : Segment) : TcpConn :=
  tcpListenChild lc (tcpConnInit env lc.hostAddr lc.hostPort lc.mss .synRcvd) l peerAddr seg

/-- One change of a slot. A connection that arrives in a free slot is one that `F` admits. -/
inductive SlotStep (hashSeed : U32) (k : Cause) (F : TcpConn → Prop) : Slot → Slot → Prop
  | micro {c c' : TcpConn} {n : ℕ} {B : Set U32} (h : Micro k c c') :
      SlotStep hashSeed k F ⟨some c, n, B⟩ ⟨some c', n, B⟩
  | free (c : TcpConn) (n : ℕ) (B : Set U32) :
      SlotStep hashSeed k F ⟨some c, n, B⟩ ⟨none, n + 1, ∅⟩
  | fresh {c : TcpConn} {n : ℕ} {B : Set U32} (h : F c) :
      SlotStep hashSeed k F ⟨none, n, B⟩ ⟨some c, n, B ∪ freshBuckets hashSeed c⟩

def SlotEvolves (hashSeed : U32) (k : Cause) (F : TcpConn → Prop) : Slot → Slot → Prop :=
  Relation.ReflTransGen (SlotStep hashSeed k F)

/-- Every slot of the table changes by such a chain, each for its own cause and with its own fresh
connections. -/
structure StackEvolves (K : ConnIdx → Cause) (F : ConnIdx → TcpConn → Prop)
    (s s' : TcpStack) : Prop where
  seed : s'.hashSeed = s.hashSeed
  slots : ∀ i, SlotEvolves s.hashSeed (K i) (F i) (s.slot i) (s'.slot i)

section

variable {K : ConnIdx → Cause} {F : ConnIdx → TcpConn → Prop} {s s' s'' : TcpStack}
  {i : ConnIdx} {k : Cause} {c c' : TcpConn}

theorem StackEvolves.refl (s : TcpStack) : StackEvolves K F s s :=
  ⟨rfl, fun _ ↦ Relation.ReflTransGen.refl⟩

theorem StackEvolves.trans (h : StackEvolves K F s s') (h' : StackEvolves K F s' s'') :
    StackEvolves K F s s'' :=
  ⟨h'.seed.trans h.seed, fun i ↦ (h.slots i).trans (h.seed ▸ h'.slots i)⟩

theorem StackEvolves.mono {F' : ConnIdx → TcpConn → Prop} (h : StackEvolves K F s s')
    (hF : ∀ j c, F j c → F' j c) : StackEvolves K F' s s' := by
  refine ⟨h.seed, fun i ↦ Relation.ReflTransGen.mono (fun a b hab ↦ ?_) _ _ (h.slots i)⟩
  cases hab with
  | micro hm => exact .micro hm
  | free c n B => exact .free c n B
  | fresh hf => exact .fresh (hF i _ hf)

/-- A call that leaves the connections, the generations and the buckets alone. -/
theorem StackEvolves.of_eq (hc : s'.connTable = s.connTable)
    (hg : s'.generation = s.generation) (hh : s'.hashTable = s.hashTable)
    (hs : s'.hashSeed = s.hashSeed) : StackEvolves K F s s' := by
  refine ⟨hs, fun i ↦ ?_⟩
  rw [TcpStack.slot, TcpStack.slot, hc, hg, hh]
  exact Relation.ReflTransGen.refl

theorem slotEvolves_of_evolves {N : TcpConn → Prop} (h : Evolves k c c') (n : ℕ)
    (B : Set U32) : SlotEvolves hashSeed k N ⟨some c, n, B⟩ ⟨some c', n, B⟩ := by
  induction h with
  | refl => exact Relation.ReflTransGen.refl
  | tail _ hm ih => exact Relation.ReflTransGen.tail ih (.micro hm)

/-- A change of one slot only. -/
theorem stackEvolves_of_slot (hs : s'.hashSeed = s.hashSeed)
    (hother : ∀ j, j ≠ i → s'.slot j = s.slot j)
    (hi : SlotEvolves s.hashSeed (K i) (F i) (s.slot i) (s'.slot i)) : StackEvolves K F s s' := by
  refine ⟨hs, fun j ↦ ?_⟩
  by_cases hj : j = i
  · rw [hj]
    exact hi
  · rw [hother j hj]
    exact Relation.ReflTransGen.refl

theorem setConn_slot_of_ne (s : TcpStack) (x : Option TcpConn) (hj : j ≠ i) :
    (s.setConn i x).slot j = s.slot j := by
  rw [TcpStack.slot, setConn_connTable_of_ne s _ hj]
  rfl

theorem setConn_evolves (h : s.connTable i = some c) (hev : Evolves (K i) c c') :
    StackEvolves K F s (s.setConn i (some c')) := by
  refine stackEvolves_of_slot rfl (fun j hj ↦ setConn_slot_of_ne s _ hj) ?_
  rw [TcpStack.slot, TcpStack.slot, h, setConn_connTable_self]
  exact slotEvolves_of_evolves hev _ _

theorem modifyAcceptReady_evolves (s : TcpStack) (l : ConnIdx) (f : U32 → U32) :
    StackEvolves K F s (modifyAcceptReady s l f) := by
  rw [modifyAcceptReady]
  cases h : s.connTable l with
  | none => exact StackEvolves.refl s
  | some lc =>
    refine setConn_evolves h (Micro.evolves ?_)
    exact .inert ..

/-- What holds with and without one ready connection less holds after `dropAcceptReady`. -/
theorem dropAcceptReady_induct {P : TcpStack → Prop} (hs : P s)
    (hready : ∀ l f, P (modifyAcceptReady s l f)) : P (dropAcceptReady s i c) := by
  rw [dropAcceptReady]
  split
  · exact hs
  · split_ifs
    · exact hready _ _
    · exact hs

/-- The slot is the same but for the count of ready connections. -/
def SameSlot (a b : Option TcpConn) : Prop :=
  ∃ f : U32 → U32, b = a.map fun c ↦ { c with acceptReady := f c.acceptReady }

theorem SameSlot.refl (a : Option TcpConn) : SameSlot a a := by
  refine ⟨id, ?_⟩
  cases a <;> rfl

theorem SameSlot.trans {a b c : Option TcpConn} (h : SameSlot a b) (h' : SameSlot b c) :
    SameSlot a c := by
  obtain ⟨f, rfl⟩ := h
  obtain ⟨f', rfl⟩ := h'
  exact ⟨f' ∘ f, by rw [Option.map_map]; rfl⟩

theorem modifyAcceptReady_sameSlot (s : TcpStack) (l j : ConnIdx) (f : U32 → U32) :
    SameSlot (s.connTable j) ((modifyAcceptReady s l f).connTable j) := by
  rw [modifyAcceptReady]
  cases h : s.connTable l with
  | none => exact SameSlot.refl _
  | some lc =>
    by_cases hj : j = l
    · rw [hj, h]
      exact ⟨f, setConn_connTable_self _ _ _⟩
    · rw [setConn_connTable_of_ne s _ hj]
      exact SameSlot.refl _

theorem dropAcceptReady_sameSlot (s : TcpStack) (i j : ConnIdx) (c : TcpConn) :
    SameSlot (s.connTable j) ((dropAcceptReady s i c).connTable j) :=
  dropAcceptReady_induct (P := fun t ↦ SameSlot _ (t.connTable j))
    (SameSlot.refl _) fun l f ↦ modifyAcceptReady_sameSlot s l j f

/-- Unlinking a node takes it out of every bucket, and no other node out of any. -/
theorem mem_tcpHashRemove (s : TcpStack) (i j : ConnIdx) (b : U32) :
    j ∈ (tcpHashRemove s i).hashTable b ↔ j ∈ s.hashTable b ∧ j ≠ i := by
  simp [tcpHashRemove]

/-- Releasing a connection that is in use: its slot is free and in no bucket. -/
theorem freeSlot_evolves (h : s.connTable i = some c) (hs : s'.hashSeed = s.hashSeed)
    (hc : s'.connTable = update s.connTable i none)
    (hg : s'.generation = update s.generation i (s.generation i + 1))
    (hh : ∀ j b, j ∈ s'.hashTable b ↔ j ∈ s.hashTable b ∧ j ≠ i) : StackEvolves K F s s' := by
  refine stackEvolves_of_slot (i := i) hs (fun j hj ↦ ?_) ?_
  · have hb : { b | j ∈ s'.hashTable b } = { b | j ∈ s.hashTable b } := by
      ext b
      exact (hh j b).trans (and_iff_left hj)
    rw [TcpStack.slot, TcpStack.slot, hb, hc, hg, update_of_ne hj,
      update_of_ne hj]
  · have hb : { b | i ∈ s'.hashTable b } = ∅ := by
      ext b
      exact (hh i b).trans ⟨fun hm ↦ absurd rfl hm.2, fun hm ↦ absurd hm id⟩
    rw [TcpStack.slot, TcpStack.slot, h, hb, hc, hg, update_self, update_self]
    exact Relation.ReflTransGen.single (.free c _ _)

theorem tcpFreeConn_evolves (s : TcpStack) (i : ConnIdx) :
    StackEvolves K F s (tcpFreeConn s i) := by
  rw [tcpFreeConn]
  cases h : s.connTable i with
  | none => exact StackEvolves.refl s
  | some c =>
    have hdrop : StackEvolves K F s (dropAcceptReady s i c) :=
      dropAcceptReady_induct (StackEvolves.refl s) (modifyAcceptReady_evolves s)
    obtain ⟨f, hf⟩ := dropAcceptReady_sameSlot s i i c
    rw [h] at hf
    exact hdrop.trans (freeSlot_evolves hf rfl rfl rfl fun j b ↦ mem_tcpHashRemove _ i j b)

/-- Unlinking before the release makes no difference. -/
theorem unlinkFree_evolves (h : s.connTable i = some c) (hl : c.listener = none) :
    StackEvolves K F s (tcpFreeConn (tcpHashRemove s i) i) := by
  have hc : (tcpHashRemove s i).connTable i = some c := h
  simp only [tcpFreeConn, hc, dropAcceptReady, hl]
  refine freeSlot_evolves h rfl rfl rfl fun j b ↦ ?_
  refine (mem_tcpHashRemove _ i j b).trans ?_
  rw [mem_tcpHashRemove, and_assoc, and_self]

/-- What the caller of a routine does: it writes the connection back, counts one more ready
connection at its listener when the handshake is complete, and frees the slot if it is told to. -/
theorem settle_induct {o : Outcome} {P : TcpStack → Prop}
    (hset : P { s.setConn i (some o.conn) with glob := o.glob })
    (hready : ∀ t l f, P t → P (modifyAcceptReady t l f))
    (hfree : o.freed = true → ∀ t, P t → P (tcpFreeConn t i)) : P (settle s i o) := by
  have hcounted : ∃ t, P t ∧ settle s i o = if o.freed then tcpFreeConn t i else t := by
    refine ⟨_, ?_, rfl⟩
    split
    · exact hready _ _ _ hset
    · exact hset
  obtain ⟨t, ht, heq⟩ := hcounted
  rw [heq]
  split_ifs with hf
  · exact hfree hf t ht
  · exact ht

theorem settle_evolves {o : Outcome} (h : s.connTable i = some c) (hev : Evolves (K i) c o.conn) :
    StackEvolves K F s (settle s i o) :=
  settle_induct ((setConn_evolves h hev).trans (StackEvolves.of_eq rfl rfl rfl rfl))
    (fun t l f ht ↦ ht.trans (modifyAcceptReady_evolves t l f))
    fun _ t ht ↦ ht.trans (tcpFreeConn_evolves t i)

/-! ## The slots a call on another connection leaves -/

theorem tcpFreeConn_self (s : TcpStack) (i : ConnIdx) : (tcpFreeConn s i).connTable i = none := by
  rw [tcpFreeConn]
  cases h : s.connTable i with
  | none => exact h
  | some c => exact update_self _ _ _

theorem tcpFreeConn_sameSlot (s : TcpStack) (hj : j ≠ i) :
    SameSlot (s.connTable j) ((tcpFreeConn s i).connTable j) := by
  rw [tcpFreeConn]
  cases h : s.connTable i with
  | none => exact SameSlot.refl _
  | some c =>
    have hother : (update (tcpHashRemove (dropAcceptReady s i c) i).connTable i none) j
        = (dropAcceptReady s i c).connTable j := update_of_ne hj _ _
    show SameSlot _ ((update (tcpHashRemove (dropAcceptReady s i c) i).connTable i none) j)
    rw [hother]
    exact dropAcceptReady_sameSlot s i j c

/-- The caller of a routine on connection `i` leaves the others. -/
theorem settle_sameSlot (s : TcpStack) (o : Outcome) (hj : j ≠ i) :
    SameSlot (s.connTable j) ((settle s i o).connTable j) := by
  refine settle_induct (P := fun t ↦ SameSlot _ (t.connTable j)) ?_
    (fun t l f ht ↦ ht.trans (modifyAcceptReady_sameSlot t l j f))
    fun _ t ht ↦ ht.trans (tcpFreeConn_sameSlot t hj)
  rw [setConn_connTable_of_ne s _ hj]
  exact SameSlot.refl _

/-- What it leaves of connection `i` itself. -/
theorem settle_self (s : TcpStack) (i : ConnIdx) (o : Outcome) :
    SameSlot (if o.freed then none else some o.conn) ((settle s i o).connTable i) := by
  split_ifs with hf
  · rw [settle, if_pos hf, tcpFreeConn_self]
    exact SameSlot.refl none
  · refine settle_induct (P := fun t ↦ SameSlot (some o.conn) (t.connTable i)) ?_
      (fun t l f ht ↦ ht.trans (modifyAcceptReady_sameSlot t l i f)) fun h ↦ absurd h hf
    rw [setConn_connTable_self]
    exact SameSlot.refl _

/-! ## Allocation -/

theorem evolves_purgeClosed : PurgeClosed (StackEvolves K F) where
  refl := StackEvolves.refl
  trans := StackEvolves.trans
  expire _ _ := tcpFreeConn_evolves _ _
  giveUp hc hst := setConn_evolves hc (Micro.reset _ (.inl hst)).evolves

variable (env : NetEnv)

variable {p : TcpStack}

/-- An allocation purges, and then either finds no free slot or fills one. -/
theorem tcpConnAllocAndInit_cases (s : TcpStack) (addr : Ipv4Addr) (port : U16) (mss : ℕ)
    (st : TcpConnState) (hp : tcpPurgeOldConn env s = p) :
    tcpConnAllocAndInit env s addr port mss st = (none, p) ∨
      ∃ i, p.connTable i = none ∧ tcpConnAllocAndInit env s addr port mss st =
        (some i,
          { p.setConn i (some (tcpConnInit env addr port mss st)) with
            acceptLinks := p.acceptLinks.init i
            glob := tcpTimerHint p.glob (env.now + tcpConnKeepaliveIdleMs) }) := by
  unfold tcpConnAllocAndInit tcpAllocConn
  simp only [hp]
  generalize List.finRange tcpConnMaxNum = slots
  cases hf : slots.find? fun i ↦ (p.connTable i).isNone with
  | none => exact .inl rfl
  | some i =>
    have hi := List.find?_some hf
    exact .inr ⟨i, Option.isNone_iff_eq_none.mp hi, rfl⟩

/-- The stack after the question for a local address. -/
abbrev asked (s : TcpStack) : TcpStack :=
  { s with glob := { s.glob with txTries := s.glob.txTries + 1 } }

/-- **How an active open ends**: without an address, a port or a free slot, or with what is made of
the slot that it filled. -/
inductive Connects (env : NetEnv) (s : TcpStack) (remoteAddr : Ipv4Addr) (remotePort : U16) :
    Option ConnIdx × TcpStack → Prop
  | unrouted : Connects env s remoteAddr remotePort (none, asked s)
  | noPort : Connects env s remoteAddr remotePort (none, (tcpAllocEphemeralPort (asked s)).2)
  | full : Connects env s remoteAddr remotePort
      (none, tcpPurgeOldConn env (tcpAllocEphemeralPort (asked s)).2)
  | start (addr : Ipv4Addr) {i : ConnIdx} {p : TcpStack}
      (hport : (tcpAllocEphemeralPort (asked s)).1 ≠ 0)
      (hp : tcpPurgeOldConn env (tcpAllocEphemeralPort (asked s)).2 = p)
      (hfree : p.connTable i = none) :
      Connects env s remoteAddr remotePort (tcpConnectStart env
        { p.setConn i (some (tcpConnInit env addr (tcpAllocEphemeralPort (asked s)).1
            tcpConnDefaultMss .synSent)) with
          acceptLinks := p.acceptLinks.init i
          glob := tcpTimerHint p.glob (env.now + tcpConnKeepaliveIdleMs) } i
        (tcpConnInit env addr (tcpAllocEphemeralPort (asked s)).1 tcpConnDefaultMss .synSent)
        remoteAddr remotePort)

theorem tcpConnConnect_connects (s : TcpStack) (remoteAddr : Ipv4Addr) (remotePort : U16) :
    Connects env s remoteAddr remotePort (tcpConnConnect env s remoteAddr remotePort) := by
  unfold tcpConnConnect
  dsimp only
  cases env.routeAddr s.glob.txTries with
  | error e => exact .unrouted
  | ok addr =>
    split_ifs with hzero
    · exact .noPort
    · rcases tcpConnAllocAndInit_cases env (tcpAllocEphemeralPort (asked s)).2 addr
        (tcpAllocEphemeralPort (asked s)).1 tcpConnDefaultMss .synSent rfl with heq | ⟨i, hfree, heq⟩
      · simp only [heq]
        exact .full
      · simp only [heq, setConn_connTable_self]
        exact .start addr hzero rfl hfree

/-- **How a call ends.** Nothing happens, the slots are purged, or the call comes to a routine on
one connection. -/
inductive Called (env : NetEnv) (s : TcpStack) : Event → TcpStack → Prop
  | idle (e : Event) : Called env s e s
  | purged (addr : Ipv4Addr) (port : U16) :
      Called env s (.listen addr port) (tcpPurgeOldConn env s)
  | listen (addr : Ipv4Addr) (port : U16) {i : ConnIdx} {p : TcpStack}
      (hp : tcpPurgeOldConn env s = p) (hfree : p.connTable i = none) :
      Called env s (.listen addr port)
        { p.setConn i (some (tcpConnInit env addr port tcpConnDefaultMss .listen)) with
          acceptLinks := p.acceptLinks.init i
          glob := tcpTimerHint p.glob (env.now + tcpConnKeepaliveIdleMs) }
  | connect {remoteAddr : Ipv4Addr} {remotePort : U16} {r : Option ConnIdx × TcpStack}
      (h : Connects env s remoteAddr remotePort r) :
      Called env s (.connect remoteAddr remotePort) r.2
  | accept (l : ConnIdx) : Called env s (.accept l)
      (modifyAcceptReady { s with acceptLinks := s.acceptLinks.delInit (s.acceptLinks.next l) } l
        fun n ↦ if n > 0 then n - 1 else n)
  | send {i : ConnIdx} {c : TcpConn} (payload : List U8) (n : ℕ) (h : s.connTable i = some c) :
      Called env s (.send i payload (.ok n))
        { s.setConn i (some (tcpConnSendLocked env c s.glob payload n).2.1) with
          glob := (tcpConnSendLocked env c s.glob payload n).2.2 }
  | recv {i : ConnIdx} {c : TcpConn} (buf : ByteBuf) (h : s.connTable i = some c) :
      Called env s (.recv i buf)
        (s.setConn i (some { c with recvBuf := (recvBufRead c.recvBuf buf).2.1 }))
  | close {i : ConnIdx} {c : TcpConn} (h : s.connTable i = some c) :
      Called env s (.close i) (settle s i (tcpConnCloseLocked env c s.glob))
  | pmtu (dest : Ipv4Addr) (newMtu : U16) :
      Called env s (.pmtu dest newMtu) (tcpPmtuUpdate s dest newMtu)
  | poll {fuel : ℕ} {r : Result × TcpStack} (h : tcpPollRetransmit env s fuel = some r) :
      Called env s (.poll fuel) r.2
  | refuse (hostAddr peerAddr : Ipv4Addr) (seg : Segment) :
      Called env s (.packet hostAddr peerAddr seg)
        (tcpRefuseUnknown env s hostAddr peerAddr seg).2
  | knock {hostAddr peerAddr : Ipv4Addr} {seg : Segment} {l : ConnIdx} {lc : TcpConn}
      (hlook : tcpLookupConn s hostAddr peerAddr seg.destPort seg.srcPort = some l)
      (h : s.connTable l = some lc) (hst : lc.state = .listen) :
      Called env s (.packet hostAddr peerAddr seg)
        (tcpHandleReceiveListen env (s.setConn l (some (tcpConnParse env lc seg).1)) l
          (tcpConnParse env lc seg).1 peerAddr seg (tcpConnParse env lc seg).2).2
  | segment {hostAddr peerAddr : Ipv4Addr} {seg : Segment} {i : ConnIdx} {c : TcpConn}
      (hlook : tcpLookupConn s hostAddr peerAddr seg.destPort seg.srcPort = some i)
      (h : s.connTable i = some c) (hst : c.state ≠ .listen) :
      Called env s (.packet hostAddr peerAddr seg)
        (settle s i (tcpDispatch env (tcpConnParse env c seg).1 s.glob seg
          (tcpConnParse env c seg).2))

theorem tcpConnParse_state (c : TcpConn) (seg : Segment) :
    (tcpConnParse env c seg).1.state = c.state := by
  obtain ⟨mss, scale, use, heq⟩ := tcpConnParse_eq env c seg
  rw [heq]
  rfl

theorem step_called {env : NetEnv} {e : Event} (h : step env s e = some s') :
    Called env s e s' := by
  cases e with
  | poll fuel =>
    obtain ⟨r, hr, rfl⟩ := Option.map_eq_some_iff.mp h
    exact .poll hr
  | listen addr port =>
    cases h
    simp only [tcpConnListen]
    split
    · exact .idle _
    · rcases tcpConnAllocAndInit_cases env s addr port tcpConnDefaultMss .listen rfl
        with heq | ⟨i, hfree, heq⟩
      · rw [heq]
        exact .purged addr port
      · rw [heq]
        exact .listen addr port rfl hfree
  | connect addr port =>
    cases h
    exact .connect (tcpConnConnect_connects env s addr port)
  | accept l =>
    cases h
    simp only [tcpConnAccept]
    split_ifs
    · exact .idle _
    · exact .idle _
    · exact .accept l
  | send i payload ipMtu =>
    cases h
    unfold tcpConnSend
    cases hc : s.connTable i with
    | none => exact .idle _
    | some c =>
      cases ipMtu with
      | error e => exact .idle _
      | ok n => exact .send payload n hc
  | recv i buf =>
    cases h
    unfold tcpConnRecv
    cases hc : s.connTable i with
    | none => exact .idle _
    | some c =>
      dsimp only
      split_ifs
      · exact .idle _
      · exact .recv buf hc
  | close i =>
    cases h
    unfold tcpConnClose
    cases hc : s.connTable i with
    | none => exact .idle _
    | some c => exact .close hc
  | packet hostAddr peerAddr seg =>
    cases h
    unfold tcpHandlePacketLocked
    cases hlook : tcpLookupConn s hostAddr peerAddr seg.destPort seg.srcPort with
    | none => exact .refuse ..
    | some i =>
      dsimp only
      cases hc : s.connTable i with
      | none => exact .idle _
      | some c =>
        dsimp only
        rw [if_neg (options_fit seg), tcpConnParse_state]
        split_ifs with hst
        · exact .knock hlook hc hst
        · exact .segment hlook hc hst
  | pmtu dest newMtu =>
    cases h
    exact .pmtu dest newMtu

/-- The chains after a fresh connection was put where it belongs. -/
def Hashed (s : TcpStack) (i : ConnIdx) (c : TcpConn) (s' : TcpStack) : Prop :=
  ∀ j b, j ∈ s'.hashTable b ↔ j ∈ s.hashTable b ∨ (j = i ∧ b ∈ freshBuckets s.hashSeed c)

theorem hashed_of_listen (hc : c.state = .listen) (hh : s'.hashTable = s.hashTable) :
    Hashed s i c s' := by
  intro j b
  rw [hh]
  exact ⟨.inl, fun hm ↦ hm.resolve_right fun hb ↦ hb.2.1 hc⟩

theorem hashed_of_insert (hc : c.state ≠ .listen)
    (hh : s'.hashTable = (tcpHashInsert s i c).hashTable) : Hashed s i c s' := by
  intro j b
  rw [hh]
  by_cases hb : b = c.bucket s.hashSeed
  · subst hb
    show j ∈ update s.hashTable (c.bucket s.hashSeed)
      (i :: s.hashTable _) _ ↔ _
    rw [update_self, List.mem_cons, or_comm]
    exact or_congr_right (and_iff_left ⟨hc, rfl⟩).symm
  · show j ∈ update s.hashTable (c.bucket s.hashSeed) _ b ↔ _
    rw [update_of_ne hb]
    exact ⟨.inl, fun hm ↦ hm.resolve_right fun hi ↦ hb hi.2.2⟩

/-- A free slot that ends with a connection evolved from a fresh one. -/
theorem fillSlot_evolves (h : s.connTable i = none) (hfresh : F i c)
    (hev : Evolves (K i) c c') (hs : s'.hashSeed = s.hashSeed)
    (hc : s'.connTable = update s.connTable i (some c'))
    (hg : s'.generation = s.generation) (hh : Hashed s i c s') : StackEvolves K F s s' := by
  refine stackEvolves_of_slot (i := i) hs (fun j hj ↦ ?_) ?_
  · have hb : { b | j ∈ s'.hashTable b } = { b | j ∈ s.hashTable b } := by
      ext b
      exact (hh j b).trans ⟨fun hm ↦ hm.resolve_right fun hi ↦ hj hi.1, .inl⟩
    rw [TcpStack.slot, TcpStack.slot, hb, hc, hg, update_of_ne hj]
  · have hb : { b | i ∈ s'.hashTable b }
        = { b | i ∈ s.hashTable b } ∪ freshBuckets s.hashSeed c := by
      ext b
      exact (hh i b).trans (or_congr_right (and_iff_right rfl))
    rw [TcpStack.slot, TcpStack.slot, h, hb, hc, hg, update_self]
    exact Relation.ReflTransGen.head (.fresh hfresh) (slotEvolves_of_evolves hev _ _)

theorem tcpListenReply_evolves (g : Globals) (tsopt : TsOpt) (hst : c.state = .synRcvd)
    (hiss : c.sendNext = c.iss) : Evolves k c (tcpListenReply env c g tsopt).2.1 := by
  rw [tcpListenReply]
  obtain ⟨useTs, tsRecent, hts⟩ := negotiateTs_eq (tcpConnSetInternalTimeout env c g).1 tsopt
  dsimp only
  rw [hts]
  refine Evolves.trans ?_ (Turns.evolves
    (tcpSendSegment_turns (.syn (.inr hst) hiss (by decide))))
  exact (timeout_ts_micro c _ useTs tsRecent).evolves

/-- An accepted SYN finds no free slot after the purge, or its answer fills one. -/
theorem tcpListenAccept_cases (s : TcpStack) (l : ConnIdx) (lc : TcpConn) (peerAddr : Ipv4Addr)
    (seg : Segment) (tsopt : TsOpt) (hp : tcpPurgeOldConn env s = p) :
    (tcpListenAccept env s l lc peerAddr seg tsopt).2 = p ∨ ∃ i d g, p.connTable i = none ∧
      (tcpListenReply env (tcpListenFresh env lc l peerAddr seg)
        (tcpTimerHint p.glob (env.now + tcpConnKeepaliveIdleMs)) tsopt).2 = (d, g) ∧
      (tcpListenAccept env s l lc peerAddr seg tsopt).2 =
        { (tcpHashInsert p i (tcpListenFresh env lc l peerAddr seg)).setConn i (some d) with
          acceptLinks := (p.acceptLinks.init i).add l i, glob := g } := by
  unfold tcpListenAccept
  rcases tcpConnAllocAndInit_cases env s lc.hostAddr lc.hostPort lc.mss .synRcvd hp
    with heq | ⟨i, hfree, heq⟩
  · simp only [heq]
    exact .inl trivial
  · simp only [heq, setConn_connTable_self]
    refine .inr ⟨i, _, _, hfree, rfl, ?_⟩
    simp only [TcpStack.setConn, tcpHashInsert, update_idem]
    rfl

theorem tcpListenAccept_evolves (s : TcpStack) (l : ConnIdx) (lc : TcpConn) (peerAddr : Ipv4Addr)
    (seg : Segment) (tsopt : TsOpt) :
    ∃ i, StackEvolves K (fun j c ↦ j = i ∧ c = tcpListenFresh env lc l peerAddr seg) s
      (tcpListenAccept env s l lc peerAddr seg tsopt).2 := by
  have hpurge : ∀ {F}, StackEvolves K F s (tcpPurgeOldConn env s) := evolves_purgeClosed.purge env s
  rcases tcpListenAccept_cases env s l lc peerAddr seg tsopt rfl
    with heq | ⟨i, d, g, hfree, hreply, heq⟩
  · rw [heq]
    exact ⟨l, hpurge⟩
  · have hev := tcpListenReply_evolves (k := K i) (c := tcpListenFresh env lc l peerAddr seg) env
      (tcpTimerHint (tcpPurgeOldConn env s).glob (env.now + tcpConnKeepaliveIdleMs)) tsopt rfl rfl
    rw [hreply] at hev
    rw [heq]
    exact ⟨i, hpurge.trans (fillSlot_evolves hfree ⟨rfl, rfl⟩ hev rfl rfl rfl
      (hashed_of_insert nofun rfl))⟩

/-! ## The calls -/

/-- The SYN is one that `tcp_handle_receive_listen` answers. -/
def ListenAdmits (s : TcpStack) (peerAddr : Ipv4Addr) (seg : Segment) : Prop :=
  seg.rst = false ∧ seg.syn = true ∧ synRcvdFromPeer s peerAddr < tcpMaxSynRcvdPerIp
    ∧ totalConnsFromPeer s peerAddr < tcpMaxConnsPerIp

/-- **What a call creates.** A listener, an active connection on a port that is not in use, or the
answer of a listener to a SYN for which the table holds nothing better. -/
inductive Creates (env : NetEnv) (s : TcpStack) : Event → TcpConn → Prop
  | listen (addr : Ipv4Addr) (port : U16) :
      Creates env s (.listen addr port) (tcpConnInit env addr port tcpConnDefaultMss .listen)
  | connect (addr : Ipv4Addr) {port : U16} (remoteAddr : Ipv4Addr) (remotePort : U16)
      (h : portInUse s port = false) :
      Creates env s (.connect remoteAddr remotePort)
        (tcpConnectInit env (tcpConnInit env addr port tcpConnDefaultMss .synSent) remoteAddr
          remotePort)
  | packet {hostAddr peerAddr : Ipv4Addr} {seg : Segment} {l : ConnIdx} {lc : TcpConn}
      (hlook : tcpLookupConn s hostAddr peerAddr seg.destPort seg.srcPort = some l)
      (hl : s.connTable l = some lc) (hst : lc.state = .listen)
      (hadm : ListenAdmits s peerAddr seg) :
      Creates env s (.packet hostAddr peerAddr seg)
        (tcpListenFresh env (tcpConnParse env lc seg).1 l peerAddr seg)

/-- What an active open leaves when its SYN was sent, and when it was not. -/
theorem tcpConnectStart_state {env : NetEnv} {res : Result} {f d : TcpConn} {g : Globals}
    {remoteAddr : Ipv4Addr} {remotePort : U16}
    (hf : tcpConnectInit env c remoteAddr remotePort = f)
    (hsend : tcpSendSegmentEmpty env f s.glob tcpHdrFlagSyn = (res, d, g)) {w : TcpStack}
    (hw : w = { (tcpHashInsert s i f).setConn i (some d) with glob := g }) :
    (tcpConnectStart env s i c remoteAddr remotePort).2 =
      if res.isOk then w else tcpFreeConn (tcpHashRemove w i) i := by
  have hglob : (tcpHashInsert s i f).glob = s.glob := rfl
  simp only [tcpConnectStart, hf, hglob, hsend, hw]
  cases res <;> rfl

/-- An active open, from the table with the free slot to the end. -/
theorem tcpConnectStart_evolves {q : TcpStack} {f : TcpConn} {remoteAddr : Ipv4Addr}
    {remotePort : U16} (hf : tcpConnectInit env c remoteAddr remotePort = f)
    (hst : f.state = .synSent) (hiss : f.sendNext = f.iss) (hl : f.listener = none)
    (hfree : p.connTable i = none) (hq : q.connTable = update p.connTable i (some c))
    (hg : q.generation = p.generation) (hh : q.hashTable = p.hashTable)
    (hs : q.hashSeed = p.hashSeed) (hfresh : F i f) :
    StackEvolves K F p (tcpConnectStart env q i c remoteAddr remotePort).2 := by
  have hsyn : Evolves (K i) f (tcpSendSegmentEmpty env f q.glob tcpHdrFlagSyn).2.1 :=
    Turns.evolves (tcpSendSegment_turns (.syn (.inl hst) hiss (by decide)))
  have hconn := tcpSendSegment_conn env f q.glob tcpHdrFlagSyn []
  rw [← tcpSendSegmentEmpty] at hconn
  rcases hsend : tcpSendSegmentEmpty env f q.glob tcpHdrFlagSyn with ⟨res, d, g⟩
  rw [hsend] at hsyn hconn
  have hlistener : d.listener = none := by
    rcases hconn with rfl | ⟨window, ackSent, rfl⟩
    · exact hl
    · exact hl
  obtain ⟨w, hw⟩ : ∃ w, w = _ := ⟨_, rfl⟩
  rw [tcpConnectStart_state hf hsend hw]
  have hfill : StackEvolves K F p w := by
    rw [hw]
    refine fillSlot_evolves hfree hfresh hsyn hs ?_ hg (hashed_of_insert ?_ ?_)
    · show update q.connTable i _ = _
      rw [hq]
      exact update_idem _ _ _
    · rw [hst]
      decide
    · show (tcpHashInsert q i _).hashTable = _
      rw [tcpHashInsert, tcpHashInsert, hh, hs]
  have hself : w.connTable i = some d := by
    rw [hw]
    exact setConn_connTable_self _ _ _
  split_ifs
  · exact hfill
  · exact hfill.trans (unlinkFree_evolves hself hlistener)

/-- The search for a port ends at one that no connection is bound to, or at zero. -/
theorem ephemeralSearch_unused (s : TcpStack) (start : U16) (fuel : ℕ) (next : U16)
    (h : (ephemeralSearch s start fuel next).1 ≠ 0) :
    portInUse s (ephemeralSearch s start fuel next).1 = false := by
  induction fuel generalizing next with
  | zero => exact absurd rfl h
  | succ fuel ih =>
    simp only [ephemeralSearch] at h ⊢
    split_ifs at h ⊢ with hfree _ hwrap
    · simpa using hfree
    · simpa using hfree
    · exact absurd rfl h
    · exact ih _ h
    · exact absurd rfl h
    · exact ih _ h

theorem tcpAllocEphemeralPort_unused (s : TcpStack) (h : (tcpAllocEphemeralPort s).1 ≠ 0) :
    portInUse s (tcpAllocEphemeralPort s).1 = false := by
  rw [tcpAllocEphemeralPort] at h ⊢
  exact ephemeralSearch_unused s _ _ _ h

theorem tcpPmtuUpdate_evolves (s : TcpStack) (dest : Ipv4Addr) (newMtu : U16) :
    StackEvolves K F s (tcpPmtuUpdate s dest newMtu) := by
  refine ⟨rfl, fun i ↦ ?_⟩
  simp only [TcpStack.slot, tcpPmtuUpdate]
  cases s.connTable i with
  | none => exact Relation.ReflTransGen.refl
  | some c =>
    simp only [Option.map_some]
    split_ifs
    · exact Relation.ReflTransGen.single (.micro (.inert ..))
    · exact Relation.ReflTransGen.refl

theorem evolves_pollClosed : PollClosed env (StackEvolves K F) where
  toPurgeClosed := evolves_purgeClosed
  rebuild _ := .of_eq rfl rfl rfl rfl
  serve hc hst := settle_evolves hc (tcpPollRetransmitConn_does env _ _ hst).evolves_timer

end

/-- The segment that a call brings to the connection of a slot. -/
def Event.segmentFor (s : TcpStack) (e : Event) (i : ConnIdx) : Option Segment :=
  match e with
  | .packet hostAddr peerAddr seg =>
    if tcpLookupConn s hostAddr peerAddr seg.destPort seg.srcPort = some i then some seg else none
  | _ => none

/-- Why a call updates the connection of a slot. -/
def Event.cause (s : TcpStack) (e : Event) (i : ConnIdx) : Cause :=
  match e with
  | .packet hostAddr peerAddr seg =>
    if tcpLookupConn s hostAddr peerAddr seg.destPort seg.srcPort = some i then .segment else .other
  | .recv j _ => if j = i then .read else .other
  | _ => .other

variable {e : Event} {d : TcpConn} {P : TcpConn → Prop} {b : Slot}

theorem Event.cause_ne_segment {s : TcpStack}
    (h : e.segmentFor s i = none) : e.cause s i ≠ .segment := by
  cases e with
  | packet hostAddr peerAddr seg =>
    simp only [segmentFor] at h
    simp only [cause]
    split_ifs at h ⊢ with hlook
    exact fun hk ↦ by cases hk
  | recv j buf =>
    simp only [cause]
    split_ifs <;> exact fun hk ↦ by cases hk
  | _ => exact fun hk ↦ by cases hk

/-- A call that brings a segment is a packet that the lookup sends to the slot. -/
theorem Event.exists_packet_of_segmentFor {s : TcpStack} {seg : Segment}
    (h : e.segmentFor s i = some seg) : ∃ hostAddr peerAddr, e = .packet hostAddr peerAddr seg ∧
      tcpLookupConn s hostAddr peerAddr seg.destPort seg.srcPort = some i := by
  cases e with
  | packet hostAddr peerAddr seg' =>
    simp only [segmentFor] at h
    split_ifs at h with hlook
    cases h
    exact ⟨hostAddr, peerAddr, rfl, hlook⟩
  | _ => cases h

theorem tcpHandleReceiveListen_evolves {K : ConnIdx → Cause} (env : NetEnv) (s : TcpStack)
    (l : ConnIdx) (lc : TcpConn) (peerAddr : Ipv4Addr) (seg : Segment) (tsopt : TsOpt) :
    ∃ i, StackEvolves K (fun j c ↦ j = i ∧ ListenAdmits s peerAddr seg ∧
      c = tcpListenFresh env lc l peerAddr seg) s
      (tcpHandleReceiveListen env s l lc peerAddr seg tsopt).2 := by
  unfold tcpHandleReceiveListen
  split_ifs with hrst hsyn hhalf htotal
  · exact ⟨l, StackEvolves.refl s⟩
  · exact ⟨l, StackEvolves.refl s⟩
  · exact ⟨l, StackEvolves.refl s⟩
  · exact ⟨l, StackEvolves.of_eq rfl rfl rfl rfl⟩
  · have hadm : ListenAdmits s peerAddr seg :=
      ⟨by simpa using hrst, by simpa using hsyn, not_le.mp hhalf, not_le.mp htotal⟩
    obtain ⟨i, hi⟩ := tcpListenAccept_evolves env s l lc peerAddr seg tsopt
    exact ⟨i, hi.mono fun j c hc ↦ ⟨hc.1, hadm, hc.2⟩⟩

/-- A change that the test does not see keeps the count. -/
theorem countConns_setConn {s : TcpStack} {c : TcpConn} {p : TcpConn → Bool}
    (h : s.connTable i = some c) (hp : p d = p c) :
    (s.setConn i (some d)).countConns p = s.countConns p := by
  refine List.countP_congr fun j _ ↦ ?_
  by_cases hj : j = i
  · rw [hj, setConn_connTable_self, h, Option.any_some, Option.any_some, hp]
  · rw [setConn_connTable_of_ne s _ hj]

theorem listenAdmits_parse (env : NetEnv) {s : TcpStack} {c : TcpConn}
    {peerAddr : Ipv4Addr} {seg : Segment} (h : s.connTable i = some c) :
    ListenAdmits (s.setConn i (some (tcpConnParse env c seg).1)) peerAddr seg ↔
      ListenAdmits s peerAddr seg := by
  obtain ⟨mss, scale, use, hparse⟩ := tcpConnParse_eq env c seg
  have hcount : ∀ p : TcpConn → Bool, p (tcpConnParse env c seg).1 = p c →
      (s.setConn i _).countConns p = s.countConns p :=
    fun p hp ↦ countConns_setConn h hp
  rw [ListenAdmits, synRcvdFromPeer, totalConnsFromPeer,
    hcount _ (by rw [hparse]; rfl), hcount _ (by rw [hparse]; rfl)]
  rfl

/-- **What a call can do.** It changes every slot by a chain of updates and releases, and puts a
fresh connection into one slot at most. -/
theorem Called.evolves {env : NetEnv} {s s' : TcpStack} (h : Called env s e s')
    (he : ∀ i payload ipMtu, e = .send i payload ipMtu → s.userHolds i = true) :
    ∃ i, StackEvolves (e.cause s) (fun j c ↦ j = i ∧ Creates env s e c) s s' := by
  have hport : ∀ {K F}, StackEvolves K F s (tcpAllocEphemeralPort (asked s)).2 :=
    .of_eq rfl rfl rfl rfl
  cases h with
  | idle => exact ⟨⟨0, by decide⟩, .refl s⟩
  | purged => exact ⟨⟨0, by decide⟩, evolves_purgeClosed.purge env s⟩
  | @listen addr port i p hp hfree =>
    refine ⟨i, (hp ▸ evolves_purgeClosed.purge env s).trans ?_⟩
    exact fillSlot_evolves hfree ⟨rfl, .listen addr port⟩ (Evolves.refl _) rfl rfl rfl
      (hashed_of_listen rfl rfl)
  | connect hconn =>
    cases hconn with
    | unrouted => exact ⟨⟨0, by decide⟩, .of_eq rfl rfl rfl rfl⟩
    | noPort => exact ⟨⟨0, by decide⟩, hport⟩
    | full => exact ⟨⟨0, by decide⟩, hport.trans (evolves_purgeClosed.purge env _)⟩
    | @start addr i _ hne hp hfree =>
      refine ⟨i, (hport.trans (hp ▸ evolves_purgeClosed.purge env _)).trans ?_⟩
      exact tcpConnectStart_evolves env rfl rfl rfl rfl hfree rfl rfl rfl rfl
        ⟨rfl, .connect addr _ _ (tcpAllocEphemeralPort_unused (asked s) hne)⟩
  | accept l =>
    have hlinks : ∀ {K F}, StackEvolves K F s
        { s with acceptLinks := s.acceptLinks.delInit (s.acceptLinks.next l) } :=
      .of_eq rfl rfl rfl rfl
    exact ⟨l, hlinks.trans (modifyAcceptReady_evolves _ l _)⟩
  | @send i c payload n hc =>
    have huser : tcpConnNeedsUserClose c = true := by
      simpa [TcpStack.userHolds, hc] using he i payload _ rfl
    refine ⟨i, (setConn_evolves hc ?_).trans (.of_eq rfl rfl rfl rfl)⟩
    exact (tcpConnSendLocked_turns env c s.glob payload n huser).evolves
  | @recv i c buf hc =>
    have hk : Event.cause s (.recv i buf) i = .read := if_pos rfl
    exact ⟨i, setConn_evolves hc (hk ▸ (Micro.read c buf).evolves)⟩
  | @close i c hc => exact ⟨i, settle_evolves hc (tcpConnCloseLocked_turns env c s.glob).evolves⟩
  | pmtu dest newMtu => exact ⟨⟨0, by decide⟩, tcpPmtuUpdate_evolves s dest newMtu⟩
  | poll hr => exact ⟨⟨0, by decide⟩, (evolves_pollClosed env).poll hr⟩
  | refuse hostAddr peerAddr seg =>
    refine ⟨⟨0, by decide⟩, ?_⟩
    simp only [tcpRefuseUnknown]
    split_ifs <;> exact .of_eq rfl rfl rfl rfl
  | @knock hostAddr peerAddr seg l lc hlook hc hst =>
    have hk : Event.cause s (.packet hostAddr peerAddr seg) l = .segment := if_pos hlook
    obtain ⟨f, hf⟩ := tcpHandleReceiveListen_evolves env
      (s.setConn l _) l (tcpConnParse env lc seg).1 peerAddr seg
      (tcpConnParse env lc seg).2
    refine ⟨f, (setConn_evolves hc ?_).trans (hf.mono fun j d hd ↦ ⟨hd.1, ?_⟩)⟩
    · exact hk ▸ (tcpConnParse_turns env lc s.glob seg).evolves
    · rw [hd.2.2]
      exact .packet hlook hc hst ((listenAdmits_parse env hc).mp hd.2.1)
  | @segment hostAddr peerAddr seg i c hlook hc hst =>
    have hk : Event.cause s (.packet hostAddr peerAddr seg) i = .segment := if_pos hlook
    refine ⟨i, settle_evolves hc ?_⟩
    rw [hk]
    have hparse := (tcpConnParse_turns env c s.glob seg).evolves
    exact hparse.trans (tcpDispatch_handles env _ s.glob seg _).evolves

theorem step_evolves {env : NetEnv} {s s' : TcpStack} (he : e.Allowed s)
    (h : step env s e = some s') :
    ∃ i, StackEvolves (e.cause s) (fun j c ↦ j = i ∧ Creates env s e c) s s' := by
  refine (step_called h).evolves ?_
  rintro i payload ipMtu rfl
  exact he.1

/-! ## Invariants of connections -/

/-- Every connection of the table has a property. -/
def TcpStack.All (s : TcpStack) (P : TcpConn → Prop) : Prop :=
  ∀ i c, s.connTable i = some c → P c

/-- What holds of a slot's connection, if it has one, is kept by updates and fresh connections. -/
theorem SlotEvolves.all {F : TcpConn → Prop} {a : Slot} (h : SlotEvolves hashSeed k F a b)
    (hmicro : ∀ c c', P c → Micro k c c' → P c') (hfresh : ∀ c, F c → P c)
    (ha : ∀ c, a.conn = some c → P c) : ∀ c, b.conn = some c → P c := by
  induction h with
  | refl => exact ha
  | tail _ hstep ih =>
    intro c hc
    cases hstep with
    | micro hm =>
      cases hc
      exact hmicro _ _ (ih _ rfl) hm
    | free => cases hc
    | fresh hf =>
      cases hc
      exact hfresh _ hf

theorem TcpStack.All.of_evolves {K : ConnIdx → Cause} {F : ConnIdx → TcpConn → Prop}
    {s s' : TcpStack} (hs : s.All P) (hmicro : ∀ k c c', P c → Micro k c c' → P c')
    (hfresh : ∀ i c, F i c → P c) (h : StackEvolves K F s s') : s'.All P :=
  fun i ↦ (h.slots i).all (hmicro _) (hfresh i) (hs i)

/-- A slot that was not freed holds the connection it held, updated. -/
theorem SlotEvolves.evolves {F : TcpConn → Prop} {c : TcpConn} {n : ℕ} {B : Set U32}
    (h : SlotEvolves hashSeed k F ⟨some c, n, B⟩ b)
    (hb : b.generation = n) : ∃ d, b.conn = some d ∧ Evolves k c d := by
  -- the generation only grows, and a chain through a free slot makes it grow
  have key : n < b.generation ∨
      b.generation = n ∧ ∃ d, b.conn = some d ∧ Evolves k c d := by
    clear hb
    induction h with
    | refl => exact .inr ⟨rfl, c, rfl, Evolves.refl c⟩
    | tail _ hstep ih =>
      cases hstep with
      | micro hm =>
        rcases ih with hlt | ⟨hn, d, hd, hev⟩
        · exact .inl hlt
        · cases hd
          exact .inr ⟨hn, _, rfl, hev.then hm⟩
      | free d m =>
        rcases ih with hlt | ⟨hn, -⟩
        · exact .inl (Nat.lt_succ_of_lt hlt)
        · exact .inl (Nat.lt_succ_of_le hn.ge)
      | fresh hf =>
        rcases ih with hlt | ⟨-, d, hd, -⟩
        · exact .inl hlt
        · cases hd
  rcases key with hlt | ⟨-, hd⟩
  · exact absurd hb (Nat.ne_of_gt hlt)
  · exact hd

/-- A state that only a segment for the connection leads into. -/
def TcpConnState.Settled (st : TcpConnState) : Prop :=
  st = .established ∨ st = .closeWait ∨ st = .finWait2 ∨ st = .closing ∨ st = .timeWait

instance (st : TcpConnState) : Decidable st.Settled := inferInstanceAs (Decidable (_ ∨ _))

theorem Micro.state_of_settled (hk : k ≠ .segment) {c : TcpConn} (h : Micro k c d)
    (hd : d.state.Settled) : d.state = c.state := by
  have hfin : ∀ {st st' : TcpConnState}, st'.Settled →
      ¬((st = .established ∧ st' = .finWait1) ∨ (st = .closeWait ∧ st' = .lastAck)) := by
    rintro st st' hst (⟨-, rfl⟩ | ⟨-, rfl⟩) <;> exact absurd hst (by decide)
  cases h with
  | options | move | sendState | recvState | handshake => exact absurd rfl hk
  | reset => exact absurd hd (show ¬TcpConnState.reset.Settled by decide)
  | queueFin env _ h | finUnsent _ h => exact absurd h (hfin hd)
  | _ => rfl

theorem SlotEvolves.exists_state {F : TcpConn → Prop} {a : Slot} (hk : k ≠ .segment)
    (h : SlotEvolves hashSeed k F a b) (hF : ∀ c, F c → c.state ≠ d.state) (hd : b.conn = some d)
    (hst : d.state.Settled) :
    ∃ c, a.conn = some c ∧ c.state = d.state := by
  refine h.all (P := fun x ↦ x.state = d.state → ∃ c, a.conn = some c ∧ c.state = d.state)
    ?_ ?_ ?_ d hd rfl
  · intro c c' hc hm hc'
    exact hc ((hm.state_of_settled hk (hc' ▸ hst)).symm.trans hc')
  · exact fun c hc heq ↦ absurd heq (hF c hc)
  · exact fun c hc heq ↦ ⟨c, hc, heq⟩

theorem Creates.not_settled {env : NetEnv} {s : TcpStack} {c : TcpConn} (h : Creates env s e c)
    {st : TcpConnState} (hst : st.Settled) : c.state ≠ st := by
  rintro rfl
  cases h with
  | listen => exact absurd hst (show ¬TcpConnState.listen.Settled by decide)
  | connect => exact absurd hst (show ¬TcpConnState.synSent.Settled by decide)
  | packet => exact absurd hst (show ¬TcpConnState.synRcvd.Settled by decide)

/-- The connections that appear in a run. A passive one takes after a listener that satisfies `Q`. -/
inductive Fresh (Q : TcpConn → Prop) : TcpConn → Prop
  | listen (env : NetEnv) (addr : Ipv4Addr) (port : U16) :
      Fresh Q (tcpConnInit env addr port tcpConnDefaultMss .listen)
  | active (env : NetEnv) (addr remoteAddr : Ipv4Addr) (port remotePort : U16) :
      Fresh Q (tcpConnectInit env (tcpConnInit env addr port tcpConnDefaultMss .synSent)
        remoteAddr remotePort)
  | passive (env : NetEnv) (lc : TcpConn) (l : ConnIdx) (peerAddr : Ipv4Addr) (seg : Segment)
      (hp : Q lc) (hl : lc.state = .listen) : Fresh Q (tcpListenFresh env lc l peerAddr seg)

theorem Fresh.mono {Q Q' : TcpConn → Prop} {c : TcpConn} (h : Fresh Q c) (hQ : ∀ c, Q c → Q' c) :
    Fresh Q' c := by
  cases h with
  | listen env addr port => exact .listen env addr port
  | active env addr remoteAddr port remotePort =>
    exact .active env addr remoteAddr port remotePort
  | passive env lc l peerAddr seg hp hl => exact .passive env lc l peerAddr seg (hQ lc hp) hl

/-- A listener has parsed the options of the SYN it answers. -/
theorem Creates.fresh {env : NetEnv} {s : TcpStack} {c : TcpConn} (h : Creates env s e c)
    (hmicro : ∀ k c c', P c → Micro k c c' → P c') (hs : s.All P) :
    Fresh P c := by
  cases h with
  | listen addr port => exact .listen env addr port
  | connect addr remoteAddr remotePort => exact .active env addr remoteAddr _ remotePort
  | packet hlook hl hst =>
    refine .passive env _ _ _ _ ((tcpConnParse_turns env _ s.glob _).evolves.invariant (hmicro _) (hs _ _ hl)) ?_
    obtain ⟨mss, scale, use, heq⟩ := tcpConnParse_eq env _ _
    rw [heq]
    exact hst

/-- **The invariant rule for connections of reachable states.** -/
theorem Reachable.all (hmicro : ∀ k c c', P c → Micro k c c' → P c') (hfresh : ∀ c, Fresh P c → P c)
    {s : TcpStack} (h : Reachable s) : s.All P := by
  have hinit : ∀ seed, (tcpInit seed).All P := by
    intro seed i c hc
    cases hc
  refine h.invariant (P := fun s ↦ s.All P) hinit ?_
  intro env s e s' hs he hstep
  obtain ⟨f, hev⟩ := step_evolves he hstep
  exact hs.of_evolves hmicro (fun i c hc ↦ hfresh c (hc.2.fresh hmicro hs)) hev

end Mazu.Tcp
