import Mathlib.Algebra.BigOperators.Fin
import Mazu.Lib.Tally
import Mazu.Tcp.Coverage
import Mazu.Tcp.Prims
import Mazu.Tcp.RecvWindow

/-!
# The pools balance

The receive buffers and the queue entries that connections hold, together with those left in the
pools, are as many as there are. A connection that is not open holds no buffer, and there are as
many buffers as slots, so a handshake always finds one. No entry of a send queue is longer than a
segment, so the whole queue of a connection spans much less than half the sequence space.
-/

namespace Mazu.Tcp

open Serial Function List

/-! ## Actions as updates -/

section

variable {env : NetEnv} {p : Phase} {c d : TcpConn} {g g' : Globals}

/-- **An action is a chain of updates** of its connection. -/
theorem Act.evolves (h : Act env p c g d g') : ∃ k, Evolves k c d := by
  cases p with
  | timer => exact ⟨.other, h.evolves_timer⟩
  | call =>
    cases h with
    | note => exact ⟨.segment, (tcpConnNote_micro env c).evolves⟩
    | options _ _ flags opts => exact ⟨.segment, (Micro.options c flags opts).evolves⟩
    | negotiate _ _ tsopt => exact ⟨.segment, (negotiateTs_micro c tsopt).evolves⟩
    | arm => exact ⟨.segment, (internalTimeout_micro env c g).evolves⟩
    | ready _ _ n =>
      have ha : Act env .timer c g { c with acceptReady := n } g := .ready c g n
      exact ⟨.other, ha.evolves_timer⟩
    | move _ _ h => exact ⟨.segment, (Micro.move c h).evolves⟩
    | reset _ _ h => exact ⟨.segment, (Micro.reset c h).evolves⟩
    | sendState _ _ seg tsopt h => exact ⟨.segment, (Micro.sendState env c g seg tsopt h).evolves⟩
    | recvState _ _ seg tsopt h => exact ⟨.segment, (Micro.recvState c seg tsopt h).evolves⟩
    | openActive _ _ seg tsopt h hack hnum => exact ⟨.segment, tcpOpenActive_evolves h hack hnum⟩
    | openPassive _ _ seg tsopt h hack hnum => exact ⟨.segment, tcpOpenPassive_evolves h hack hnum⟩
    | queue _ _ hg h => exact ⟨.segment, h.micro.evolves⟩
    | fin _ _ hg h hd =>
      obtain ⟨rfl, rfl⟩ := Prod.mk.inj hd
      exact ⟨.segment, (Micro.queueFin env c h).evolves.then (internalTimeout_micro env _ g)⟩
    | finUnsent _ _ h =>
      exact ⟨.segment, (Micro.finUnsent c h).evolves.then (internalTimeout_micro env _ g)⟩
    | read _ _ dest => exact ⟨.read, (Micro.read c dest).evolves⟩

theorem tcpQueueSegment_globals (env : NetEnv) (c : TcpConn) (g : Globals) (flags : U8)
    (fragment : List U8) : ∃ next, (tcpQueueSegment env c g flags fragment).2 =
      { g with nextTimerMs := next, sbqAvail := g.sbqAvail - 1 } :=
  tcpTimerHint_eq { g with sbqAvail := g.sbqAvail - 1 } _

theorem tcpConnSetInternalTimeout_globals (hd : tcpConnSetInternalTimeout env c g = (d, g')) :
    ∃ next, g' = { g with nextTimerMs := next } := by
  obtain ⟨-, rfl⟩ := Prod.mk.inj hd
  exact tcpTimerHint_eq g _

/-- **What an action does to the globals**: the cached timer and the pools may change. -/
theorem Act.globals (h : Act env p c g d g') :
    ∃ next sbq buf, g' = { g with nextTimerMs := next, sbqAvail := sbq, recvBufAvail := buf } := by
  have hhint : ∀ t, ∃ next sbq buf, tcpTimerHint g t
      = { g with nextTimerMs := next, sbqAvail := sbq, recvBufAvail := buf } := by
    intro t
    obtain ⟨next, heq⟩ := tcpTimerHint_eq g t
    exact ⟨next, g.sbqAvail, g.recvBufAvail, heq⟩
  have hsend : ∀ x seg tsopt, ∃ next,
      (tcpConnUpdateSendState env x g seg tsopt).2 = { g with nextTimerMs := next } := by
    intro x seg tsopt
    rcases sendState_glob env x g seg tsopt with heq | heq
    · exact ⟨g.nextTimerMs, heq⟩
    · exact heq ▸ tcpTimerHint_eq g _
  cases h with
  | arm | finUnsent | resend => exact hhint _
  | sendState _ _ seg tsopt =>
    obtain ⟨next, heq⟩ := hsend c seg tsopt
    exact ⟨next, g.sbqAvail, g.recvBufAvail, heq⟩
  | openActive _ _ seg tsopt =>
    obtain ⟨next, heq⟩ := hsend c seg tsopt
    refine ⟨next, g.sbqAvail, g.recvBufAvail - 1, ?_⟩
    simp only [tcpOpenActive, heq]
  | openPassive _ _ seg tsopt =>
    obtain ⟨next, heq⟩ := hsend { c with state := .established } seg tsopt
    refine ⟨next, g.sbqAvail, g.recvBufAvail - 1, ?_⟩
    simp only [tcpOpenPassive, heq]
  | queue _ _ hg hq =>
    obtain ⟨next, heq⟩ := tcpQueueSegment_globals env c g _ _
    exact ⟨next, g.sbqAvail - 1, g.recvBufAvail, heq⟩
  | @fin _ _ _ _ _ d g' hd =>
    obtain ⟨next, rfl⟩ := tcpConnSetInternalTimeout_globals hd
    obtain ⟨next', heq⟩ := tcpQueueSegment_globals env d { g with nextTimerMs := next }
      (tcpHdrFlagFin ||| tcpHdrFlagAck) []
    exact ⟨next', g.sbqAvail - 1, g.recvBufAvail, heq⟩
  | release => exact ⟨g.nextTimerMs, g.sbqAvail + 1, g.recvBufAvail, rfl⟩
  | _ => exact ⟨g.nextTimerMs, g.sbqAvail, g.recvBufAvail, rfl⟩

/-! ## Connections -/

/-- What holds of a connection at every moment of a call. -/
structure Sound (c : TcpConn) : Prop where
  inv : ConnInv c
  covered : Covered c
  mss : c.mss ≤ 65535
  short : ∀ sbq ∈ c.sendQueue, dist sbq.seqNum sbq.requiredAck ≤ 65535
  closed : ¬c.state.Synchronized → c.recvBuf.len = 0

theorem Evolves.keeps {k : Cause} (h : Evolves k c d) (hinv : ConnInv c) (hcov : Covered c) :
    ConnInv d ∧ Covered d :=
  h.invariant (P := fun x ↦ ConnInv x ∧ Covered x)
    (fun _ _ hc hm ↦ ⟨micro_connInv hc.1 hm, hc.2.micro hc.1 hm⟩) ⟨hinv, hcov⟩

/-- The MSS of an option fits sixteen bits. -/
theorem tcpHandleOptionsLoop_mss (allow : Bool) (fuel : ℕ) (c : TcpConn) (t : TsOpt)
    (opts : List U8) (h : c.mss ≤ 65535) :
    (tcpHandleOptionsLoop allow fuel c t opts).1.mss ≤ 65535 := by
  fun_induction tcpHandleOptionsLoop allow fuel c t opts with
  | case5 _ c _ _ b2 b3 _ mss c' _ _ ih =>
    refine ih ?_
    have hlt := (u16OfBe b2 b3).isLt
    simp only [c']
    split_ifs
    · exact (by decide : tcpConnDefaultMss ≤ 65535)
    · exact Nat.le_of_lt_succ hlt
    · exact h
  | case7 _ c _ _ _ _ c' _ _ _ ih =>
    refine ih ?_
    simp only [c']
    split_ifs <;> exact h
  | _ => first | assumption | (rename_i ih; exact ih h)

theorem tcpNewSbq_dist (env : NetEnv) (c : TcpConn) {flags : U8} {fragment : List U8} {n : ℕ}
    (h : tcpSegmentAdvance flags fragment = BitVec.ofNat 32 n) (hn : n < 2 ^ 32) :
    dist (tcpNewSbq env c flags fragment).seqNum (tcpNewSbq env c flags fragment).requiredAck
      = n := by
  rw [newSbq_requiredAck, h]
  exact dist_add_ofNat hn

theorem Queues.dist_le {flags : U8} {fragment : List U8} (h : Queues c flags fragment)
    (hmss : c.mss ≤ 65535) : dist (tcpNewSbq env c flags fragment).seqNum
      (tcpNewSbq env c flags fragment).requiredAck ≤ 65535 := by
  cases h with
  | empty hadv =>
    rw [tcpNewSbq_dist env c hadv (by decide)]
    exact Nat.zero_le _
  | syn hst hiss hadv =>
    rw [tcpNewSbq_dist env c hadv (by decide)]
    decide
  | data havail huser hlen =>
    rw [tcpNewSbq_dist env c rfl (by omega)]
    exact hlen.trans hmss

/-- A longer queue whose new entry is short. -/
theorem short_append {q : List SendBufQueue} {sbq : SendBufQueue}
    (hq : ∀ x ∈ q, dist x.seqNum x.requiredAck ≤ 65535)
    (h : dist sbq.seqNum sbq.requiredAck ≤ 65535) :
    ∀ x ∈ q ++ [sbq], dist x.seqNum x.requiredAck ≤ 65535 := by
  intro x hx
  rcases mem_append.mp hx with hx | hx
  · exact hq x hx
  · rw [mem_singleton.mp hx]
    exact h

/-- **Every action keeps a connection sound.** -/
theorem Act.sound (ha : Act env p c g d g') (h : Sound c) : Sound d := by
  obtain ⟨k, hev⟩ := ha.evolves
  obtain ⟨hinv, hcov⟩ := hev.keeps h.inv h.covered
  have hopen : ∀ {st : TcpConnState} {b : ℕ}, st.Synchronized → (¬st.Synchronized → b = 0) :=
    fun hst hn ↦ absurd hst hn
  have hrest : d.mss ≤ 65535 ∧ (∀ sbq ∈ d.sendQueue, dist sbq.seqNum sbq.requiredAck ≤ 65535) ∧
      (¬d.state.Synchronized → d.recvBuf.len = 0) := by
    cases ha with
    | options _ _ flags opts =>
      have hmss := tcpHandleOptionsLoop_mss (hasFlag flags tcpHdrFlagSyn &&
        tcpConnAcceptsSynOptions c) opts.length c tsOptNone opts h.mss
      obtain ⟨mss, scale, use, heq, -⟩ := tcpHandleOptions_update c flags opts
      rw [tcpHandleOptions] at heq ⊢
      rw [heq] at hmss ⊢
      exact ⟨hmss, h.short, h.closed⟩
    | negotiate _ _ tsopt =>
      obtain ⟨useTs, tsRecent, heq⟩ := negotiateTs_eq c tsopt
      rw [heq]
      exact ⟨h.mss, h.short, h.closed⟩
    | move _ _ hst => exact ⟨h.mss, h.short, hopen hst.synchronized⟩
    | reset => exact ⟨h.mss, h.short, hopen synchronized_reset⟩
    | sendState _ _ seg tsopt =>
      obtain ⟨f, hf, -⟩ := tcpConnUpdateSendState_spec env c g seg tsopt
      rw [hf]
      exact ⟨h.mss, h.short, h.closed⟩
    | recvState _ _ seg tsopt hst =>
      obtain ⟨f, hf⟩ := tcpConnUpdateRecvState_same c seg tsopt
      rw [hf]
      exact ⟨h.mss, h.short, hopen hst⟩
    | openActive _ _ seg tsopt =>
      obtain ⟨f, useTs, tsRecent, -, heq⟩ := tcpOpenActive_spec env c g seg tsopt
      rw [heq]
      exact ⟨h.mss, h.short, hopen synchronized_established⟩
    | openPassive _ _ seg tsopt =>
      obtain ⟨f, -, heq⟩ := tcpOpenPassive_spec env c g seg tsopt
      rw [heq]
      exact ⟨h.mss, h.short, hopen synchronized_established⟩
    | queue _ _ hg hq => exact ⟨h.mss, short_append h.short (hq.dist_le h.mss), h.closed⟩
    | fin _ _ hg hst hd =>
      obtain ⟨rfl, rfl⟩ := Prod.mk.inj hd
      refine ⟨h.mss, short_append h.short ?_, hopen (finStates hst).2.2⟩
      rw [tcpNewSbq_dist env _ rfl (by decide)]
      decide
    | finUnsent _ _ hst => exact ⟨h.mss, h.short, hopen (finStates hst).2.2⟩
    | read _ _ dest =>
      refine ⟨h.mss, h.short, fun hn ↦ ?_⟩
      rw [(recvBufRead_space h.inv.recv.buf dest).1]
      exact h.closed hn
    | release _ _ sbq rest hq =>
      exact ⟨h.mss, fun x hx ↦ h.short x (by rw [hq]; exact mem_cons_of_mem _ hx), h.closed⟩
    | resend _ _ sbq rest hq =>
      refine ⟨h.mss, fun x hx ↦ ?_, h.closed⟩
      rcases mem_cons.mp hx with rfl | hx
      · exact h.short sbq (by rw [hq]; exact mem_cons_self)
      · exact h.short x (by rw [hq]; exact mem_cons_of_mem _ hx)
    | _ => exact ⟨h.mss, h.short, h.closed⟩
  exact ⟨hinv, hcov, hrest.1, hrest.2.1, hrest.2.2⟩

end

/-! ## The pools -/

/-- The receive buffers a slot holds. -/
def bufsHeld : Option TcpConn → ℕ
  | none => 0
  | some c => if c.recvBuf.len = 0 then 0 else 1

/-- The queue entries a slot holds. -/
def entriesHeld : Option TcpConn → ℕ
  | none => 0
  | some c => c.sendQueue.length

/-- A sum over the slots of the table. -/
def TcpStack.total (s : TcpStack) (f : Option TcpConn → ℕ) : ℕ := ∑ i, f (s.connTable i)

/-- Overwriting a slot changes one summand. -/
theorem total_update {s s' : TcpStack} {i : ConnIdx} {x : Option TcpConn}
    (h : s'.connTable = update s.connTable i x) (f : Option TcpConn → ℕ) :
    s'.total f + f (s.connTable i) = s.total f + f x := by
  have hsum := Tally.sum_add_of_eq_off (f := fun j ↦ f (s'.connTable j))
    fun j hj ↦ by rw [h, update_of_ne hj]
  rwa [h, update_self, ← h] at hsum

/-- **The books of the module.** -/
structure Booked (s : TcpStack) : Prop where
  conns : s.All Sound
  bufs : s.total bufsHeld + s.glob.recvBufAvail = tcpConnMaxNum
  entries : s.total entriesHeld + s.glob.sbqAvail = tcpSbqNum

section

variable {env : NetEnv} {p : Phase} {c d : TcpConn} {g g' : Globals} {s s' : TcpStack}
  {i : ConnIdx}

theorem TcpStack.All.update {P : TcpConn → Prop} (h : s.All P) {x : Option TcpConn}
    (hc : s'.connTable = update s.connTable i x) (hx : ∀ c, x = some c → P c) :
    s'.All P := by
  intro j c hj
  rw [hc, update_apply] at hj
  split_ifs at hj
  · exact hx c hj
  · exact h j c hj

/-- A slot that takes from the pools what it holds more, and gives back what it holds less. -/
theorem Booked.update (h : Booked s) {x : Option TcpConn}
    (hc : s'.connTable = update s.connTable i x) (hx : ∀ c, x = some c → Sound c)
    (hbuf : bufsHeld x + s'.glob.recvBufAvail = bufsHeld (s.connTable i) + s.glob.recvBufAvail)
    (hent : entriesHeld x + s'.glob.sbqAvail = entriesHeld (s.connTable i) + s.glob.sbqAvail) :
    Booked s' where
  conns := h.conns.update hc hx
  bufs := by
    have hsum := total_update hc bufsHeld
    have hs := h.bufs
    omega
  entries := by
    have hsum := total_update hc entriesHeld
    have hs := h.entries
    omega

/-- The connection and the pools balance between two moments. -/
structure Balanced (c : TcpConn) (g : Globals) (d : TcpConn) (g' : Globals) : Prop where
  bufs : bufsHeld (some d) + g'.recvBufAvail = bufsHeld (some c) + g.recvBufAvail
  entries : entriesHeld (some d) + g'.sbqAvail = entriesHeld (some c) + g.sbqAvail

theorem balanced_of_eq (hb : d.recvBuf.len = c.recvBuf.len) (hq : d.sendQueue = c.sendQueue)
    (hg : g'.recvBufAvail = g.recvBufAvail) (hs : g'.sbqAvail = g.sbqAvail) :
    Balanced c g d g' := by
  refine ⟨?_, ?_⟩
  · rw [bufsHeld, bufsHeld, hb, hg]
  · rw [entriesHeld, entriesHeld, hq, hs]

/-- An open takes the one buffer the connection then holds. -/
theorem balanced_of_open (hc : c.recvBuf.len = 0) (hd : d.recvBuf = recvBufNew)
    (hq : d.sendQueue = c.sendQueue) (hpos : g.recvBufAvail ≠ 0)
    (hg : g'.recvBufAvail = g.recvBufAvail - 1) (hs : g'.sbqAvail = g.sbqAvail) :
    Balanced c g d g' := by
  refine ⟨?_, by rw [entriesHeld, entriesHeld, hq, hs]⟩
  have hnew : ¬recvBufNew.len = 0 := by decide
  rw [bufsHeld, bufsHeld, hd, if_neg hnew, if_pos hc]
  omega

/-- A queued segment takes the one entry the connection then holds more. -/
theorem balanced_of_queue (env : NetEnv) (flags : U8) (fragment : List U8)
    (hg : g.sbqAvail ≠ 0) :
    Balanced c g (tcpQueueSegment env c g flags fragment).1
      (tcpQueueSegment env c g flags fragment).2 := by
  refine ⟨?_, ?_⟩
  · simp only [tcpQueueSegment, tcpTimerHint_recvBufAvail]
    rfl
  · simp only [tcpQueueSegment, entriesHeld, tcpTimerHint_sbqAvail, length_append,
      length_singleton]
    omega

theorem Balanced.trans {e : TcpConn} {g'' : Globals} (h : Balanced c g d g')
    (h' : Balanced d g' e g'') : Balanced c g e g'' :=
  ⟨h'.bufs.trans h.bufs, h'.entries.trans h.entries⟩

theorem balanced_of_timeout {st : TcpConnState}
    (hd : tcpConnSetInternalTimeout env { c with state := st } g = (d, g')) :
    Balanced c g d g' ∧ g'.sbqAvail = g.sbqAvail := by
  obtain ⟨rfl, rfl⟩ := Prod.mk.inj hd
  have hsbq : ∀ t : U64, (tcpTimerHint g t).sbqAvail = g.sbqAvail := tcpTimerHint_sbqAvail g
  exact ⟨balanced_of_eq rfl rfl (tcpTimerHint_recvBufAvail g _) (hsbq _), hsbq _⟩

theorem sendState_pools (env : NetEnv) (c : TcpConn) (g : Globals) (seg : Segment)
    (tsopt : TsOpt) :
    (tcpConnUpdateSendState env c g seg tsopt).2.recvBufAvail = g.recvBufAvail ∧
      (tcpConnUpdateSendState env c g seg tsopt).2.sbqAvail = g.sbqAvail := by
  rcases sendState_glob env c g seg tsopt with heq | heq <;> rw [heq]
  · exact ⟨rfl, rfl⟩
  · exact ⟨tcpTimerHint_recvBufAvail _ _, tcpTimerHint_sbqAvail _ _⟩

/-- **What an action takes from the pools is held by the connection.** -/
theorem Act.balanced (ha : Act env p c g d g') (h : Sound c) : Balanced c g d g' := by
  have hhint : ∀ t : U64, (tcpTimerHint g t).recvBufAvail = g.recvBufAvail ∧
      (tcpTimerHint g t).sbqAvail = g.sbqAvail :=
    fun t ↦ ⟨tcpTimerHint_recvBufAvail g t, tcpTimerHint_sbqAvail g t⟩
  cases ha with
  | options _ _ flags opts =>
    obtain ⟨mss, scale, use, heq, -⟩ := tcpHandleOptions_update c flags opts
    rw [heq]
    exact balanced_of_eq rfl rfl rfl rfl
  | negotiate _ _ tsopt =>
    obtain ⟨useTs, tsRecent, heq⟩ := negotiateTs_eq c tsopt
    rw [heq]
    exact balanced_of_eq rfl rfl rfl rfl
  | arm | finUnsent => exact balanced_of_eq rfl rfl (hhint _).1 (hhint _).2
  | sendState _ _ seg tsopt =>
    obtain ⟨hbuf, hsbq⟩ := sendState_pools env c g seg tsopt
    obtain ⟨f, hf, -⟩ := tcpConnUpdateSendState_spec env c g seg tsopt
    rw [hf]
    exact balanced_of_eq rfl rfl hbuf hsbq
  | recvState _ _ seg tsopt =>
    obtain ⟨n, -, htakes⟩ := tcpConnUpdateRecvState_takes h.inv.recv seg tsopt
    obtain ⟨f, hf⟩ := tcpConnUpdateRecvState_same c seg tsopt
    refine balanced_of_eq htakes.len ?_ rfl rfl
    rw [hf]
    rfl
  | openActive _ _ seg tsopt hst hack hnum hbuf =>
    obtain ⟨havail, hsbq⟩ := sendState_pools env c g seg tsopt
    obtain ⟨f, useTs, tsRecent, -, heq⟩ := tcpOpenActive_spec env c g seg tsopt
    rw [heq]
    refine balanced_of_open (h.closed (by rw [hst]; decide)) rfl rfl hbuf ?_ hsbq
    exact congrArg (· - 1) havail
  | openPassive _ _ seg tsopt hst hack hnum hbuf =>
    obtain ⟨havail, hsbq⟩ := sendState_pools env { c with state := .established } g seg tsopt
    obtain ⟨f, -, heq⟩ := tcpOpenPassive_spec env c g seg tsopt
    rw [heq]
    refine balanced_of_open (h.closed (by rw [hst]; decide)) rfl rfl hbuf ?_ hsbq
    exact congrArg (· - 1) havail
  | queue _ _ hg hq => exact balanced_of_queue env _ _ hg
  | fin _ _ hg hst hd =>
    obtain ⟨hset, havail⟩ := balanced_of_timeout hd
    exact hset.trans (balanced_of_queue env _ _ (havail.trans_ne hg))
  | read _ _ dest =>
    exact balanced_of_eq (recvBufRead_space h.inv.recv.buf dest).1 rfl rfl rfl
  | release _ _ sbq rest hq =>
    refine ⟨rfl, ?_⟩
    simp only [entriesHeld, hq, length_cons]
    omega
  | resend _ _ sbq rest hq =>
    refine ⟨?_, ?_⟩
    · rw [bufsHeld, bufsHeld, (hhint _).1]
    · rw [entriesHeld, entriesHeld, (hhint _).2, hq]
      rfl
  | _ => exact balanced_of_eq rfl rfl rfl rfl

/-- A transmission takes nothing. -/
theorem noqueue_balanced {res : Result} {flags : U8} {seqNum : U32} {cksum : U16}
    {payload : List U8}
    (hd : tcpSendSegmentNoqueue env c g flags seqNum cksum payload = (res, d, g')) :
    Balanced c g d g' := by
  obtain ⟨_, window, ackSent, log, hspec, -⟩ :=
    tcpSendSegmentNoqueue_spec env c g flags seqNum cksum payload
  cases hspec.symm.trans hd
  exact balanced_of_eq rfl rfl rfl rfl

theorem noqueue_sound {res : Result} {flags : U8} {seqNum : U32} {cksum : U16}
    {payload : List U8}
    (hd : tcpSendSegmentNoqueue env c g flags seqNum cksum payload = (res, d, g'))
    (h : Sound c) : Sound d := by
  obtain ⟨_, window, ackSent, log, hspec, -⟩ :=
    tcpSendSegmentNoqueue_spec env c g flags seqNum cksum payload
  cases hspec.symm.trans hd
  obtain ⟨hinv, hcov⟩ := (window_micro (k := .other) c window ackSent).evolves.keeps h.inv h.covered
  exact ⟨hinv, hcov, h.mss, h.short, h.closed⟩

/-! ## Primitive steps -/

/-- The same table and the same pools. -/
theorem Booked.congr (h : Booked s) (hc : s'.connTable = s.connTable)
    (hbuf : s'.glob.recvBufAvail = s.glob.recvBufAvail)
    (hent : s'.glob.sbqAvail = s.glob.sbqAvail) : Booked s' := by
  refine ⟨fun i c hi ↦ h.conns i c (hc ▸ hi), ?_, ?_⟩
  · rw [TcpStack.total, hc, hbuf]
    exact h.bufs
  · rw [TcpStack.total, hc, hent]
    exact h.entries

/-- A connection that has sent nothing. -/
theorem sound_of_unsent (hinv : ConnInv c) (hq : c.sendQueue = []) (hn : c.sendNext = c.sendUnack)
    (hmss : c.mss ≤ 65535) (hbuf : c.recvBuf.len = 0) : Sound c where
  inv := hinv
  covered := covered_of_unsent hq hn
  mss := hmss
  short := fun sbq hsbq ↦ by
    rw [hq] at hsbq
    cases hsbq
  closed := fun _ ↦ hbuf

theorem tcpListenFresh_sound (env : NetEnv) {lc : TcpConn} (h : OptionsOk lc) (l : ConnIdx)
    (peerAddr : Ipv4Addr) (seg : Segment) : Sound (tcpListenFresh env lc l peerAddr seg) :=
  sound_of_unsent (connInv_of_unsent h.scale rfl rfl rfl rfl rfl rfl rfl) rfl rfl h.mss rfl

theorem tcpConnectFresh_sound (env : NetEnv) (addr remoteAddr : Ipv4Addr) (port remotePort : U16) :
    Sound (tcpConnectFresh env addr port remoteAddr remotePort) :=
  sound_of_unsent (connInv_of_unsent (Nat.zero_le _) rfl rfl rfl rfl rfl rfl rfl) rfl rfl
    (by decide : tcpConnDefaultMss ≤ 65535) rfl

/-- A slot that held what `c` holds is left with a connection that balances with it. -/
theorem Booked.settle (h : Booked s) (hbuf : bufsHeld (s.connTable i) = bufsHeld (some c))
    (hent : entriesHeld (s.connTable i) = entriesHeld (some c))
    (hc : s'.connTable = Function.update s.connTable i (some d)) (hsound : Sound d)
    (hbal : Balanced c s.glob d s'.glob) : Booked s' :=
  h.update hc (fun _ he ↦ Option.some.inj he ▸ hsound) (hbuf ▸ hbal.bufs) (hent ▸ hbal.entries)

/-- An arrival in a free slot that has taken from the pools what it holds. -/
theorem Booked.arrive (h : Booked s) (hfree : s.connTable i = none)
    (hc : s'.connTable = Function.update s.connTable i (some d)) (hsound : Sound d)
    (hempty : c.recvBuf.len = 0) (hqueue : c.sendQueue = [])
    (hbal : Balanced c s.glob d s'.glob) : Booked s' := by
  refine h.settle ?_ ?_ hc hsound hbal <;> rw [hfree]
  · exact (if_pos hempty).symm
  · exact (congrArg List.length hqueue).symm

theorem allocHint_balanced (env : NetEnv) (c : TcpConn) (g : Globals) :
    Balanced c g c (allocHint env g) :=
  balanced_of_eq rfl rfl (tcpTimerHint_recvBufAvail g _) (tcpTimerHint_sbqAvail g _)

/-- A path MTU changes nothing but segment sizes, which stay in their range. -/
theorem Booked.pmtu (h : Booked s) (dest : Ipv4Addr) (newMtu : U16) :
    Booked (tcpPmtuUpdate s dest newMtu) := by
  have hmss : pmtuMss newMtu ≤ 65535 := by
    rw [pmtuMss]
    split_ifs <;> omega
  have hslot : ∀ i, (tcpPmtuUpdate s dest newMtu).connTable i = (s.connTable i).map fun c ↦
      if c.peerAddr = dest ∧ c.mss > pmtuMss newMtu then { c with mss := pmtuMss newMtu } else c :=
    fun _ ↦ rfl
  have htotal : ∀ f, (∀ c mss, f (some { c with mss := mss }) = f (some c)) →
      (tcpPmtuUpdate s dest newMtu).total f = s.total f := by
    refine fun f hf ↦ Finset.sum_congr rfl fun i _ ↦ ?_
    rw [hslot]
    cases s.connTable i with
    | none => rfl
    | some c =>
      rw [Option.map_some]
      split_ifs
      · exact hf c _
      · rfl
  refine ⟨fun i d hd ↦ ?_, ?_, ?_⟩
  · rw [hslot, Option.map_eq_some_iff] at hd
    obtain ⟨c, hc, rfl⟩ := hd
    have hsound := h.conns i c hc
    split_ifs
    · have hm : Micro .other c { c with mss := pmtuMss newMtu } := .inert ..
      obtain ⟨hinv, hcov⟩ := hm.evolves.keeps hsound.inv hsound.covered
      exact ⟨hinv, hcov, hmss, hsound.short, hsound.closed⟩
    · exact hsound
  · rw [htotal bufsHeld fun _ _ ↦ rfl]
    exact h.bufs
  · rw [htotal entriesHeld fun _ _ ↦ rfl]
    exact h.entries

/-- **Every primitive step keeps the books.** -/
theorem Prim.booked {new : List Emission} (hp : Prim env p s new s') (h : Booked s) :
    Booked s' := by
  cases hp with
  | act hc ha =>
    have hsound := h.conns _ _ hc
    exact h.settle (congrArg _ hc) (congrArg _ hc) rfl (ha.sound hsound) (ha.balanced hsound)
  | send hc hd hout =>
    exact h.settle (congrArg _ hc) (congrArg _ hc) rfl (noqueue_sound hd (h.conns _ _ hc))
      (noqueue_balanced hd)
  | @free _ _ i c hc links =>
    refine h.update rfl (fun _ he ↦ by cases he) ?_ ?_
    · rw [hc]
      simp only [releaseSlot, bufsHeld]
      split_ifs <;> omega
    · rw [hc]
      simp only [releaseSlot, entriesHeld]
      omega
  | links | ask | port | refuse | rebuild => exact h.congr rfl rfl rfl
  | pmtu _ dest newMtu => exact h.pmtu dest newMtu
  | listen hfree addr port links =>
    refine h.arrive hfree rfl ?_ rfl rfl (allocHint_balanced env _ s.glob)
    exact sound_of_unsent (connInv_of_unsent (Nat.zero_le _) rfl rfl rfl rfl rfl rfl rfl) rfl rfl
      (by decide : tcpConnDefaultMss ≤ 65535) rfl
  | child hfree lc l peerAddr seg links hopts hd =>
    have hsound := tcpListenFresh_sound env hopts l peerAddr seg
    have harm : Act env .call _ (allocHint env s.glob) _ _ :=
      .arm (tcpListenFresh env lc l peerAddr seg) _
    rw [hd] at harm
    exact h.arrive hfree rfl (harm.sound hsound) rfl rfl
      ((allocHint_balanced env _ s.glob).trans (harm.balanced hsound))
  | dial hfree addr remoteAddr port remotePort links hg hd =>
    have hsound := tcpConnectFresh_sound env addr remoteAddr port remotePort
    have hsyn : Queues (tcpConnectFresh env addr port remoteAddr remotePort) tcpHdrFlagSyn [] :=
      .syn (.inl rfl) rfl rfl
    have hqueue : Act env .call _ (allocHint env s.glob) _ _ :=
      .queue _ _ ((tcpTimerHint_sbqAvail s.glob _).trans_ne hg) hsyn
    rw [hd] at hqueue
    exact h.arrive hfree rfl (hqueue.sound hsound) rfl rfl
      ((allocHint_balanced env _ s.glob).trans (hqueue.balanced hsound))
  | spend hfree links =>
    exact h.congr rfl (tcpTimerHint_recvBufAvail s.glob _) (tcpTimerHint_sbqAvail s.glob _)

/-- A handshake in progress finds a buffer: there are as many buffers as slots. -/
theorem Booked.recvBufAvail_ne_zero (h : Booked s) (hc : s.connTable i = some c)
    (hst : ¬c.state.Synchronized) : s.glob.recvBufAvail ≠ 0 := by
  have hzero : bufsHeld (s.connTable i) = 0 := by
    rw [hc, bufsHeld, if_pos ((h.conns i c hc).closed hst)]
  have hle : ∀ x, bufsHeld x ≤ 1 := by
    rintro (_ | c) <;> rw [bufsHeld]
    · exact Nat.zero_le 1
    · split_ifs <;> decide
  have htotal : s.total bufsHeld < tcpConnMaxNum := by
    calc s.total bufsHeld < ∑ _i : ConnIdx, 1 :=
          Finset.sum_lt_sum (fun j _ ↦ hle _) ⟨i, Finset.mem_univ i, by rw [hzero]; exact one_pos⟩
      _ = tcpConnMaxNum := by simp
  have hs := h.bufs
  omega

/-! ## Runs -/

theorem Does.sound (hd : Does env p c g d g') (h : Sound c) : Sound d := by
  obtain ⟨sent, hacts⟩ := hd
  induction hacts with
  | refl => exact h
  | act _ ha ih => exact ha.sound ih
  | send _ hd _ ih => exact noqueue_sound hd ih

/-- Only the timer service acts as such. -/
def Event.phase : Event → Phase
  | .poll _ => .timer
  | _ => .call

/-- **Every call is a sequence of primitive steps.** -/
theorem step_steps {e : Event} (hs : Booked s) (he : e.Allowed s) (h : step env s e = some s') :
    Steps env e.phase s s' := by
  have hport : Steps env .call s (tcpAllocEphemeralPort (asked s)).2 :=
    (Prim.ask s _).steps.trans (Prim.port _).steps
  have hcalled := step_called h
  clear h
  cases hcalled with
  | idle => exact Steps.refl s
  | purged => exact (steps_purgeClosed env).purge env s
  | listen addr port hp hfree =>
    exact (hp ▸ (steps_purgeClosed env).purge env s).trans (Prim.listen hfree addr port _).steps
  | connect hconn =>
    cases hconn with
    | unrouted => exact (Prim.ask s _).steps
    | noPort => exact hport
    | full => exact hport.trans ((steps_purgeClosed env).purge env _)
    | start addr _ hp hfree =>
      have hpurge := hport.trans ((steps_purgeClosed env).purge env _)
      rw [hp] at hpurge
      exact hpurge.trans (tcpConnectStart_steps env hfree addr _ _ _ _)
  | accept l => exact (Prim.links s _).steps.trans (modifyAcceptReady_steps _ l _)
  | @send i c payload n hc =>
    have huser : tcpConnNeedsUserClose c = true := by
      simpa [TcpStack.userHolds, hc] using he.1
    exact (tcpConnSendLocked_turns (k := .other) env c s.glob payload n huser).does.steps hc
  | @recv _ c buf hc => exact (Act.read c s.glob buf).does.steps hc
  | @close _ c hc => exact settle_steps hc (tcpConnCloseLocked_turns (k := .other) env c s.glob).does
  | pmtu dest newMtu => exact (Prim.pmtu s dest newMtu).steps
  | poll hr => exact (steps_pollClosed env).poll hr
  | refuse hostAddr peerAddr seg => exact tcpRefuseUnknown_steps env s hostAddr peerAddr seg
  | @knock _ peerAddr seg l lc hlook hc hst =>
    have hparse := (tcpConnParse_turns env lc s.glob seg).does
    have hsound := hparse.sound (hs.conns l lc hc)
    exact (hparse.steps hc).trans (tcpHandleReceiveListen_steps env _ l _ peerAddr seg _
      ⟨hsound.mss, hsound.inv.scale⟩)
  | @segment _ _ seg i c hlook hc hst =>
    have hparse := (tcpConnParse_turns env c s.glob seg).does
    obtain ⟨mss, scale, use, heq⟩ := tcpConnParse_eq env c seg
    refine settle_steps hc (hparse.trans ((tcpDispatch_handles env _ s.glob seg _).does ?_ ?_))
    · rw [heq]
      exact fun hst ↦ hs.recvBufAvail_ne_zero hc hst
    · rw [heq]
      rfl

theorem tcpInit_booked (seed : U32) : Booked (tcpInit seed) := by
  have hnone : ∀ f, f none = 0 → (tcpInit seed).total f = 0 := fun f hf ↦
    Finset.sum_eq_zero fun _ _ ↦ hf
  refine ⟨fun i c hc ↦ ?_, ?_, ?_⟩
  · cases hc
  · rw [hnone bufsHeld rfl]
    rfl
  · rw [hnone entriesHeld rfl]
    rfl

/-- **The books are balanced in every reachable state.** -/
theorem Reachable.booked (h : Reachable s) : Booked s :=
  h.invariant tcpInit_booked fun _ _ _ _ hs he hstep ↦
    (step_steps hs he hstep).invariant hs fun hb hp ↦ hp.booked hb

/-- **The invariant rule for runs, by primitive steps.** -/
theorem Reachable.prims {P : TcpStack → Prop} (h : Reachable s) (hinit : ∀ seed, P (tcpInit seed))
    (hprim : ∀ {env p s new s'}, Booked s → P s → Prim env p s new s' → P s') : P s := by
  have hboth : Booked s ∧ P s := by
    refine h.invariant (P := fun s ↦ Booked s ∧ P s) (fun seed ↦ ⟨tcpInit_booked seed, hinit seed⟩)
      ?_
    intro env s e s' hs he hstep
    exact (step_steps hs.1 he hstep).invariant (P := fun s ↦ Booked s ∧ P s) hs
      fun hb hp ↦ ⟨hp.booked hb.1, hprim hb.1 hb.2 hp⟩
  exact hboth.2

/-- **Nothing is lost from the pools.** In every reachable state each receive buffer and each queue
entry is free or held by one connection. -/
theorem pools_conserved {s : TcpStack} (h : Reachable s) :
    (∑ i, bufsHeld (s.connTable i)) + s.glob.recvBufAvail = tcpConnMaxNum ∧
    (∑ i, entriesHeld (s.connTable i)) + s.glob.sbqAvail = tcpSbqNum :=
  ⟨h.booked.bufs, h.booked.entries⟩

/-- After a handshake one buffer is taken. -/
theorem pools_conserved_handshake : ∃ s, Reachable s ∧ s.glob.recvBufAvail = 63 ∧
    (∑ i, bufsHeld (s.connTable i)) + s.glob.recvBufAvail = tcpConnMaxNum := by
  obtain ⟨s, hs, hp⟩ := exists_reachable_of_runCalls 0 serverHandshake
    (fun s ↦ s.glob.recvBufAvail == 63) (by decide +kernel)
  exact ⟨s, hs, beq_iff_eq.mp hp, (pools_conserved hs).1⟩

end

end Mazu.Tcp
