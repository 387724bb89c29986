import Mazu.Tcp.Books
import Mazu.Tcp.Lookup

/-!
# The hash chains and the ephemeral ports

The pool, the hash chains and the port allocator agree with one another. A connection is linked when
it is given its peer and unlinked when it is freed, so each chain holds a connection once and a free
slot is on none. The port counter never leaves the dynamic range.
-/

namespace Mazu.Tcp

open Function List

variable {i : ConnIdx} {d : TcpConn} {env : NetEnv} {port : U16}

variable {s s' : TcpStack}

/-! ## The chains -/

/-- No chain holds a slot twice, and only slots in use are on chains. -/
structure ChainsOk (s : TcpStack) : Prop where
  nodup : ∀ b, (s.hashTable b).Nodup
  used : ∀ b, ∀ i ∈ s.hashTable b, (s.connTable i).isSome = true

theorem ChainsOk.not_mem (h : ChainsOk s) (hfree : s.connTable i = none) (b : U32) :
    i ∉ s.hashTable b := by
  intro hi
  have hsome := h.used b i hi
  rw [hfree] at hsome
  cases hsome

/-- The chains stay, and no slot on them becomes free. -/
theorem ChainsOk.congr (h : ChainsOk s) (hb : s'.hashTable = s.hashTable)
    (hc : ∀ i, (s.connTable i).isSome = true → (s'.connTable i).isSome = true) : ChainsOk s' := by
  refine ⟨?_, ?_⟩
  · rw [hb]
    exact h.nodup
  · rw [hb]
    exact fun b i hi ↦ hc i (h.used b i hi)

/-- Unlinking a slot, whether it is then freed or was free. -/
theorem ChainsOk.unlink (h : ChainsOk s)
    (hb : s'.hashTable = fun b ↦ (s.hashTable b).filter (· ≠ i))
    (hc : ∀ j, j ≠ i → s'.connTable j = s.connTable j) : ChainsOk s' := by
  refine ⟨?_, ?_⟩
  · intro b
    rw [hb]
    exact (h.nodup b).filter _
  · intro b j hj
    rw [hb] at hj
    obtain ⟨hmem, hne⟩ := mem_filter.mp hj
    rw [hc j (of_decide_eq_true hne)]
    exact h.used b j hmem

/-- Linking a connection that arrives in a free slot. -/
theorem ChainsOk.insert (h : ChainsOk s) (hfree : s.connTable i = none)
    {c : TcpConn} (hb : s'.hashTable = (tcpHashInsert s i c).hashTable)
    (hc : s'.connTable = update s.connTable i (some d)) : ChainsOk s' := by
  have hchain : ∀ b, s'.hashTable b = s.hashTable b ∨ s'.hashTable b = i :: s.hashTable b := by
    intro b
    rw [hb, tcpHashInsert]
    dsimp only
    by_cases hbucket : b = tcpHashBucket s.hashSeed c.hostAddr c.hostPort c.peerAddr c.peerPort
    · rw [hbucket, update_self]
      exact .inr rfl
    · rw [update_of_ne hbucket]
      exact .inl rfl
  have hold : ∀ b, ∀ j ∈ s.hashTable b, (s'.connTable j).isSome = true := by
    intro b j hj
    have hji : j ≠ i := by
      rintro rfl
      exact h.not_mem hfree b hj
    rw [hc, update_of_ne hji]
    exact h.used b j hj
  refine ⟨?_, ?_⟩
  · intro b
    rcases hchain b with heq | heq
    · rw [heq]
      exact h.nodup b
    · rw [heq]
      exact nodup_cons.mpr ⟨h.not_mem hfree b, h.nodup b⟩
  · intro b j hj
    rcases hchain b with heq | heq
    · rw [heq] at hj
      exact hold b j hj
    · rw [heq] at hj
      rcases mem_cons.mp hj with rfl | hj
      · rw [hc, update_self]
        rfl
      · exact hold b j hj

theorem isSome_update {j : ConnIdx} (h : (s.connTable j).isSome = true) :
    (update s.connTable i (some d) j).isSome = true := by
  by_cases hji : j = i
  · rw [hji, update_self]
    rfl
  · rw [update_of_ne hji]
    exact h

theorem Prim.chainsOk {p : Phase} {new : List Emission} (hp : Prim env p s new s')
    (h : ChainsOk s) : ChainsOk s' := by
  cases hp with
  | act | send | listen => exact h.congr rfl fun _ ↦ isSome_update
  | free => exact h.unlink rfl fun j hj ↦ update_of_ne hj _ _
  | pmtu =>
    refine h.congr rfl fun j hj ↦ ?_
    rw [tcpPmtuUpdate, Option.isSome_map]
    exact hj
  | child hfree | dial hfree => exact h.insert hfree rfl rfl
  | spend => exact h.unlink rfl fun _ _ ↦ rfl
  | _ => exact h.congr rfl fun _ ↦ id

theorem Reachable.chainsOk (h : Reachable s) : ChainsOk s := by
  refine h.prims (fun seed ↦ ⟨fun _ ↦ nodup_nil, ?_⟩) fun _ hs hp ↦ hp.chainsOk hs
  intro b i hi
  cases hi

/-! ## The ports -/

/-- The search stays in the dynamic range. -/
theorem ephemeralSearch_range (s : TcpStack) (start : U16) (fuel : ℕ) {next : U16}
    (h : 49152 ≤ next) :
    ((ephemeralSearch s start fuel next).1 ≠ 0 → 49152 ≤ (ephemeralSearch s start fuel next).1) ∧
      49152 ≤ (ephemeralSearch s start fuel next).2 := by
  induction fuel generalizing next with
  | zero => exact ⟨absurd rfl, h⟩
  | succ fuel ih =>
    have hnext : 49152 ≤ if next + 1 < 49152 then 49152 else next + 1 := by
      split_ifs with hlt
      · exact BitVec.le_refl _
      · exact BitVec.not_lt.mp hlt
    simp only [ephemeralSearch]
    generalize (if next + 1 < 49152 then 49152 else next + 1) = following at hnext ⊢
    by_cases hfree : (!portInUse s next) = true
    · rw [if_pos hfree]
      exact ⟨fun _ ↦ h, hnext⟩
    · rw [if_neg hfree]
      by_cases hwrap : following = start
      · rw [if_pos hwrap]
        exact ⟨absurd rfl, hnext⟩
      · rw [if_neg hwrap]
        exact ih hnext

theorem Prim.ports {p : Phase} {new : List Emission} (hp : Prim env p s new s')
    (h : 49152 ≤ s.glob.ephemeralPortNext) : 49152 ≤ s'.glob.ephemeralPortNext := by
  obtain ⟨next₀, halloc⟩ := allocHint_eq env s.glob
  cases hp with
  | act hc ha =>
    obtain ⟨next, sbq, buf, rfl⟩ := ha.globals
    exact h
  | @send _ _ i c _ _ _ _ flags seqNum cksum payload hc hd =>
    obtain ⟨_, window, ackSent, log, hspec, -⟩ :=
      tcpSendSegmentNoqueue_spec env c s.glob flags seqNum cksum payload
    cases hspec.symm.trans hd
    exact h
  | port =>
    rw [tcpAllocEphemeralPort]
    exact (ephemeralSearch_range s _ _ h).2
  | listen | spend =>
    rw [halloc]
    exact h
  | child hfree lc l peerAddr seg links hopts hd =>
    rw [halloc] at hd
    obtain ⟨next, rfl⟩ := tcpConnSetInternalTimeout_globals hd
    exact h
  | dial hfree addr remoteAddr port remotePort links hg hd =>
    rw [halloc] at hd
    obtain ⟨next, heq⟩ := tcpQueueSegment_globals env
      (tcpConnectFresh env addr port remoteAddr remotePort) { s.glob with nextTimerMs := next₀ }
      tcpHdrFlagSyn []
    rw [hd] at heq
    obtain rfl : _ = _ := heq
    exact h
  | _ => exact h

theorem Reachable.ports (h : Reachable s) : 49152 ≤ s.glob.ephemeralPortNext :=
  h.prims (fun _ ↦ BitVec.le_refl _) fun _ hs hp ↦ hp.ports hs

theorem portInUse_eq_false (h : portInUse s port = false) {j : ConnIdx}
    (hd : s.connTable j = some d) : d.hostPort ≠ port := by
  have hnone := Option.isNone_iff_eq_none.mp (Option.isSome_eq_false_iff.mp h)
  have hne := find?_conn_eq_none.mp hnone j (mem_finRange j) d hd
  rintro rfl
  exact hne (beq_self_eq_true _)

/-- The connection of an active open is bound to the port that was handed out for it. -/
theorem tcpConnConnect_port {remoteAddr : Ipv4Addr} {remotePort : U16}
    (h : tcpConnConnect env s remoteAddr remotePort = (some i, s')) {s₁ : TcpStack}
    (halloc : tcpAllocEphemeralPort (asked s) = (port, s₁)) :
    port ≠ 0 ∧ ∃ c, s'.connTable i = some c ∧ c.hostPort = port := by
  have hconn := tcpConnConnect_connects env s remoteAddr remotePort
  rw [h] at hconn
  generalize hr : (some i, s') = r at hconn
  cases hconn with
  | start addr hne hp hfree =>
    rw [halloc] at hne hr
    refine ⟨hne, ?_⟩
    simp only [tcpConnectStart] at hr
    split at hr
    · cases hr
    · cases hr
      refine ⟨_, setConn_connTable_self _ _ _, ?_⟩
      rw [tcpSendSegmentEmpty]
      rcases tcpSendSegment_conn env _ _ tcpHdrFlagSyn [] with hconn | ⟨window, ackSent, hconn⟩
      · rw [hconn]
        rfl
      · rw [hconn]
        rfl
  | _ => cases hr

/-- A port that is handed out is a dynamic one that nothing is bound to. -/
theorem Reachable.portHandedOut (hs : Reachable s) (n : ℕ)
    (halloc : tcpAllocEphemeralPort { s with glob := { s.glob with txTries := n } } = (port, s'))
    (hne : port ≠ 0) : 49152 ≤ port.toNat ∧ port.toNat ≤ 65535 ∧
      ∀ j d, s.connTable j = some d → d.hostPort ≠ port := by
  have hrange := ephemeralSearch_range { s with glob := { s.glob with txTries := n } }
    s.glob.ephemeralPortNext 16384 hs.ports
  have hunused := tcpAllocEphemeralPort_unused { s with glob := { s.glob with txTries := n } }
  rw [halloc] at hunused
  have hport := congrArg Prod.fst halloc
  rw [tcpAllocEphemeralPort] at hport
  rw [hport] at hrange
  refine ⟨BitVec.le_def.mp (hrange.1 hne), Nat.le_of_lt_succ port.isLt, ?_⟩
  exact fun j d hd ↦ portInUse_eq_false (hunused hne) hd

/-- The connection of an active open is the only one on its port. -/
theorem Reachable.connect_alone (hs : Reachable s) {remoteAddr : Ipv4Addr}
    {remotePort : U16} (hconn : tcpConnConnect env s remoteAddr remotePort = (some i, s')) :
    ∃ c, s'.connTable i = some c ∧ 49152 ≤ c.hostPort.toNat ∧ c.hostPort.toNat ≤ 65535 ∧
      ∀ j d, s'.connTable j = some d → d.hostPort = c.hostPort → j = i := by
  obtain ⟨⟨port, s₁⟩, halloc⟩ : ∃ r, tcpAllocEphemeralPort
    { s with glob := { s.glob with txTries := s.glob.txTries + 1 } } = r := ⟨_, rfl⟩
  obtain ⟨hne, c, hc, rfl⟩ := tcpConnConnect_port hconn halloc
  obtain ⟨hlow, hhigh, hunused⟩ := hs.portHandedOut _ halloc hne
  refine ⟨c, hc, hlow, hhigh, ?_⟩
  -- no connection on this port was there before, so it is the one that the call created
  have hstep : Tcp.step env s (.connect remoteAddr remotePort) = some s' := by
    rw [Tcp.step, hconn]
  obtain ⟨f, hev⟩ := step_evolves (e := .connect remoteAddr remotePort) trivial hstep
  have hfresh : ∀ j d, s'.connTable j = some d → d.hostPort = c.hostPort → j = f := by
    intro j d hd hport
    rcases (hev.slots j).origin hd with ⟨d₀, hd₀, hends⟩ | ⟨d₀, ⟨hjf, -⟩, -⟩
    · exact absurd (hends.hostPort.symm.trans hport) (hunused j d₀ hd₀)
    · exact hjf
  intro j d hd hport
  rw [hfresh j d hd hport, hfresh i c hc rfl]

/-! ## The table -/

/-- How often a connection with a peer is on a chain. -/
theorem Reachable.count_chain (hs : Reachable s) {c : TcpConn}
    (hc : s.connTable i = some c) (hst : c.state ≠ .listen) (b : U32) :
    (s.hashTable b).count i = if b = c.bucket s.hashSeed then 1 else 0 := by
  have hmem : i ∈ s.hashTable b ↔ b = c.bucket s.hashSeed := by
    have hset := Set.ext_iff.mp ((hs.slotOk i).used c hc) b
    exact hset.trans ⟨fun h ↦ h.2, fun h ↦ ⟨hst, h⟩⟩
  split_ifs with hb
  · exact count_eq_one_of_mem (hs.chainsOk.nodup b) (hmem.mpr hb)
  · exact count_eq_zero.mpr fun h ↦ hb (hmem.mp h)

/-- **The pool, the chains and the ports agree.** No two connections with a peer share a 4-tuple,
each is on the chain of its 4-tuple once and on no other, a free slot is on none, and a port that is
handed out is a dynamic one that no connection has, so that the connection of an active open is the
only one on its port. -/
theorem table_consistent (hs : Reachable s) :
    (∀ i j c d, s.connTable i = some c → s.connTable j = some d → c.state ≠ .listen →
      d.state ≠ .listen → c.hostAddr = d.hostAddr → c.hostPort = d.hostPort →
      c.peerAddr = d.peerAddr → c.peerPort = d.peerPort → i = j) ∧
    (∀ i c, s.connTable i = some c → c.state ≠ .listen → ∀ b,
      (s.hashTable b).count i = if b = c.bucket s.hashSeed then 1 else 0) ∧
    (∀ i, s.connTable i = none → ∀ b, i ∉ s.hashTable b) ∧
    (∀ n port s', tcpAllocEphemeralPort { s with glob := { s.glob with txTries := n } } = (port, s') →
      port ≠ 0 → 49152 ≤ port.toNat ∧ port.toNat ≤ 65535 ∧
        ∀ j d, s.connTable j = some d → d.hostPort ≠ port) ∧
    ∀ env remoteAddr remotePort i s',
      tcpConnConnect env s remoteAddr remotePort = (some i, s') →
        ∃ c, s'.connTable i = some c ∧ 49152 ≤ c.hostPort.toNat ∧ c.hostPort.toNat ≤ 65535 ∧
          ∀ j d, s'.connTable j = some d → d.hostPort = c.hostPort → j = i := by
  refine ⟨?_, fun i c hc hst b ↦ hs.count_chain hc hst b, fun i hfree ↦ hs.chainsOk.not_mem hfree,
    fun n port s' halloc hne ↦ hs.portHandedOut n halloc hne,
    fun env remoteAddr remotePort i s' hconn ↦ hs.connect_alone hconn⟩
  intro i j c d hc hd hcl hdl haddr hport hpeer hpport
  have hcc : c.Connects c.hostAddr c.peerAddr c.hostPort c.peerPort :=
    ⟨hcl, exactMatch_iff.mpr ⟨rfl, rfl, rfl, rfl⟩⟩
  have hdc : d.Connects c.hostAddr c.peerAddr c.hostPort c.peerPort :=
    ⟨hdl, exactMatch_iff.mpr ⟨haddr.symm, hport.symm, hpeer.symm, hpport.symm⟩⟩
  exact hs.unique hc hd hcc hdc

/-- After an active open the connection is on the chain of its 4-tuple, and its port is not handed
out again. -/
theorem table_consistent_activeOpen : ∃ s c, Reachable s ∧
    s.connTable ⟨0, zero_lt_tcpConnMaxNum⟩ = some c ∧ c.state ≠ .listen ∧
    (s.hashTable (c.bucket s.hashSeed)).count ⟨0, zero_lt_tcpConnMaxNum⟩ = 1 ∧
    ∀ n port s', tcpAllocEphemeralPort { s with glob := { s.glob with txTries := n } } = (port, s') →
      port ≠ 0 → c.hostPort ≠ port := by
  obtain ⟨s, c, hs, hc, hp⟩ := exists_conn_of_runCalls 0 activeOpen ⟨0, zero_lt_tcpConnMaxNum⟩
    (fun _ c ↦ decide (c.state ≠ .listen)) (by decide +kernel)
  have hst : c.state ≠ .listen := of_decide_eq_true hp
  obtain ⟨-, hcount, -, hports, -⟩ := table_consistent hs
  refine ⟨s, c, hs, hc, hst, ?_, fun n port s' halloc hne ↦ (hports n port s' halloc hne).2.2 _ c hc⟩
  rw [hcount _ c hc hst, if_pos rfl]

end Mazu.Tcp
