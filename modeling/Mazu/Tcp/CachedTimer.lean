import Mazu.Tcp.Books
import Mazu.Tcp.PollLoop
import Mazu.Time.Clock

/-!
# The cached timer

`tcp_poll_retransmit` returns at once while the cached time of the next timer lies ahead, so the
cache must never be later than a timer of the table. Whatever arms a timer passes its time to
`tcp_timer_hint`, with two exceptions: the timeout of an active open, which the retransmission of
its SYN precedes, and the keep-alive timer, which only moves on. The second needs a clock that does
not go back. The cache is exact after a poll, which ends with a fresh heap.
-/

namespace Mazu.Tcp

open Serial Time List BitVec

/-! ## Timers from a given time on -/

/-- No timer of the connection fires before `k`. -/
structure TimersAfter (k : U64) (c : TcpConn) : Prop where
  internal : k ≤ c.internalTimeout
  keepalive : c.state = .established → k ≤ fireTime c.lastActivityMs (keepaliveIdle c)
  persist : c.state = .established → c.zeroWindowSinceMs ≠ 0 →
    k ≤ fireTime c.zeroWindowSinceMs tcpConnPersistRtoMs
  retransmit : ∀ sbq ∈ c.sendQueue, seqGeq c.sendUnack sbq.requiredAck = false →
    k ≤ fireTime sbq.lastTry sbq.retryAfter

theorem le_nextEvent_iff {k : U64} {c : TcpConn} :
    k ≤ tcpConnNextEventMs c ↔ TimersAfter k c := by
  rw [tcpConnNextEventMs, foldl_min_iff fun hxy hx ↦ BitVec.le_trans hx hxy,
    forall_timers_iff]
  constructor
  · rintro ⟨-, hint, hest, hqueue⟩
    exact ⟨hint, fun h ↦ (hest h).1, fun h ↦ (hest h).2, hqueue⟩
  · intro h
    exact ⟨le_timeMsMax k, h.internal, fun hst ↦ ⟨h.keepalive hst, h.persist hst⟩, h.retransmit⟩

/-- What relates a connection to the clock, apart from its timers. -/
structure Dated (now : U64) (c : TcpConn) : Prop where
  activity : c.lastActivityMs ≤ now
  opening : c.state = .synSent ∨ c.state = .synRcvd → c.internalTimeout.toNat ≤ now.toNat + 30000
  quiet : ¬c.state.Synchronized → c.zeroWindowSinceMs = 0

section

variable {env : NetEnv} {p : Phase} {c d : TcpConn} {g g' : Globals} {k k' now : U64}

theorem toNat_fireTime {base delta : U64} (h : base.toNat + delta.toNat < 2 ^ 64) :
    (fireTime base delta).toNat = base.toNat + delta.toNat := by
  have hsum : (base + delta).toNat = base.toNat + delta.toNat := by
    exact Nat.mod_eq_of_lt h
  rw [fireTime, if_neg, hsum]
  rw [lt_def]
  omega

theorem keepaliveIdle_le (c : TcpConn) : (keepaliveIdle c).toNat ≤ 30000 := by
  rw [keepaliveIdle]
  split_ifs <;> decide

theorem tcpTimerHint_le (g : Globals) (t : U64) :
    (tcpTimerHint g t).nextTimerMs ≤ g.nextTimerMs := by
  rw [tcpTimerHint]
  split_ifs with h
  · exact BitVec.le_of_lt h
  · exact BitVec.le_refl _

theorem tcpTimerHint_le_deadline (g : Globals) (t : U64) : (tcpTimerHint g t).nextTimerMs ≤ t := by
  rw [tcpTimerHint]
  split_ifs with h
  · exact BitVec.le_refl _
  · exact BitVec.not_lt.mp h

theorem TimersAfter.mono (h : TimersAfter k c) (hk : k' ≤ k) : TimersAfter k' c :=
  ⟨BitVec.le_trans hk h.internal, fun hst ↦ BitVec.le_trans hk (h.keepalive hst),
    fun hst hz ↦ BitVec.le_trans hk (h.persist hst hz),
    fun sbq hs hu ↦ BitVec.le_trans hk (h.retransmit sbq hs hu)⟩

/-- The same fields that the timers read. -/
theorem TimersAfter.congr (h : TimersAfter k c) (hs : SameTimers c d)
    (hq : d.sendQueue = c.sendQueue) : TimersAfter k d := by
  refine ⟨?_, ?_, ?_, ?_⟩
  · rw [hs.internalTimeout]
    exact h.internal
  · rw [hs.state, hs.lastActivityMs, keepaliveIdle, hs.keepaliveProbes]
    exact h.keepalive
  · rw [hs.state, hs.zeroWindowSinceMs]
    exact h.persist
  · rw [hq, hs.sendUnack]
    exact h.retransmit

/-- In any other state than ESTABLISHED there are fewer timers. -/
theorem TimersAfter.leave (h : TimersAfter k c) (hst : d.state ≠ .established)
    (hi : k' ≤ d.internalTimeout) (hk : k' ≤ k) (hq : d.sendQueue = c.sendQueue)
    (hu : d.sendUnack = c.sendUnack) : TimersAfter k' d := by
  refine ⟨hi, fun he ↦ absurd he hst, fun he ↦ absurd he hst, ?_⟩
  rw [hq, hu]
  exact (h.mono hk).retransmit

theorem Dated.congr (h : Dated now c) (hs : SameTimers c d) : Dated now d := by
  refine ⟨?_, ?_, ?_⟩
  · rw [hs.lastActivityMs]
    exact h.activity
  · rw [hs.state, hs.internalTimeout]
    exact h.opening
  · rw [hs.state, hs.zeroWindowSinceMs]
    exact h.quiet

/-- Past the handshake only the time of activity matters. -/
theorem dated_of_synchronized (hst : d.state.Synchronized) (ha : d.lastActivityMs ≤ now) :
    Dated now d := by
  refine ⟨ha, fun hopen ↦ ?_, absurd hst⟩
  have hno : ¬d.state.Synchronized := by rcases hopen with h | h <;> rw [h] <;> decide
  exact absurd hst hno

theorem Dated.mono (h : Dated now c) {now' : U64} (hle : now ≤ now') : Dated now' c where
  activity := BitVec.le_trans h.activity hle
  opening := fun hst ↦ (h.opening hst).trans (Nat.add_le_add_right (le_def.mp hle) _)
  quiet := h.quiet

/-! ## Arming -/

theorem toNat_now_add (hnow : env.now.toNat + 30000 < 2 ^ 64) {delta : U64}
    (hd : delta.toNat ≤ 30000) : (env.now + delta).toNat = env.now.toNat + delta.toNat :=
  Nat.mod_eq_of_lt (by omega)

theorem fireTime_now (hnow : env.now.toNat + 30000 < 2 ^ 64) {delta : U64}
    (hd : delta.toNat ≤ 30000) : fireTime env.now delta = env.now + delta := by
  apply eq_of_toNat_eq
  rw [toNat_fireTime (by omega), toNat_now_add hnow hd]

/-- The internal timeout is armed, in a state that may be new. -/
theorem setTimeout_after (st : TcpConnState) (h : TimersAfter g.nextTimerMs c)
    (hst : st = c.state ∨ st ≠ .established)
    (hd : tcpConnSetInternalTimeout env { c with state := st } g = (d, g')) :
    TimersAfter g'.nextTimerMs d := by
  obtain ⟨rfl, rfl⟩ := Prod.mk.inj hd
  rcases hst with rfl | hst
  · have hk := h.mono (tcpTimerHint_le g (tcpConnSetInternalTimeout env c g).1.internalTimeout)
    exact ⟨tcpTimerHint_le_deadline g _, hk.keepalive, hk.persist, hk.retransmit⟩
  · exact h.leave hst (tcpTimerHint_le_deadline g _) (tcpTimerHint_le g _) rfl rfl

/-- The same for a connection that stays in its state. With the connection a variable no record
has to be compared with its own update. -/
theorem setTimeout_after_self (h : TimersAfter g.nextTimerMs c)
    (hd : tcpConnSetInternalTimeout env c g = (d, g')) : TimersAfter g'.nextTimerMs d :=
  setTimeout_after c.state h (.inl rfl) hd

theorem setTimeout_dated (st : TcpConnState) (hnow : env.now.toNat + 30000 < 2 ^ 64)
    (ha : c.lastActivityMs ≤ env.now) (hq : ¬st.Synchronized → c.zeroWindowSinceMs = 0) :
    Dated env.now (tcpConnSetInternalTimeout env { c with state := st } g).1 := by
  refine ⟨ha, fun _ ↦ ?_, hq⟩
  have hle : ∀ delta : U64, delta.toNat ≤ 30000 →
      (env.now + delta).toNat ≤ env.now.toNat + 30000 := fun delta hd ↦ by
    rw [toNat_now_add hnow hd]
    exact Nat.add_le_add_left hd _
  simp only [tcpConnSetInternalTimeout]
  split_ifs <;> exact hle _ (by decide)

theorem setTimeout_dated_self (hnow : env.now.toNat + 30000 < 2 ^ 64)
    (ha : c.lastActivityMs ≤ env.now) (hq : ¬c.state.Synchronized → c.zeroWindowSinceMs = 0) :
    Dated env.now (tcpConnSetInternalTimeout env c g).1 :=
  setTimeout_dated c.state hnow ha hq

/-- A new entry of the send queue fires when the cache was told it would. -/
theorem queueSegment_after (hnow : env.now.toNat + 30000 < 2 ^ 64) (hrto : c.rto.toNat ≤ 30000)
    (h : TimersAfter g.nextTimerMs c) (flags : U8) (fragment : List U8) :
    TimersAfter (tcpQueueSegment env c g flags fragment).2.nextTimerMs
      (tcpQueueSegment env c g flags fragment).1 := by
  have hk : TimersAfter (tcpQueueSegment env c g flags fragment).2.nextTimerMs c :=
    h.mono (tcpTimerHint_le _ _)
  refine ⟨hk.internal, hk.keepalive, hk.persist, ?_⟩
  intro sbq hsbq hun
  rcases mem_append.mp hsbq with hold | hnew
  · exact hk.retransmit sbq hold hun
  · rw [mem_singleton.mp hnew]
    have hwidth : (c.rto.setWidth 64).toNat = c.rto.toNat := by
      rw [toNat_setWidth]
      exact Nat.mod_eq_of_lt (by omega)
    have hle : (tcpQueueSegment env c g flags fragment).2.nextTimerMs
        ≤ env.now + c.rto.setWidth 64 := tcpTimerHint_le_deadline _ _
    rwa [← fireTime_now hnow (by omega)] at hle

/-! ## Acknowledgements and windows -/

/-- **An entry that is acknowledged stays so** while `send_unack` moves on. The queue is far too
short to wind round the circle of sequence numbers. -/
theorem acked_stays (hs : Sound c) (hlen : c.sendQueue.length ≤ tcpSbqNum) {sbq : SendBufQueue}
    (hsbq : sbq ∈ c.sendQueue) (hacked : seqGeq c.sendUnack sbq.requiredAck = true) {unack : U32}
    (hle : dist unack c.sendNext ≤ c.inFlight) : seqGeq unack sbq.requiredAck = true := by
  obtain ⟨front, post, hq⟩ := append_of_mem hsbq
  have hlaid := hs.covered.laid
  rw [hq] at hlaid
  have hspan : span SendBufQueue.seqNum SendBufQueue.requiredAck post < 2 ^ 31 := by
    have hshort : ∀ x ∈ post, dist x.seqNum x.requiredAck ≤ 65535 := fun x hx ↦
      hs.short x (hq ▸ mem_append_right _ (mem_cons_of_mem _ hx))
    rw [hq, length_append, length_cons, tcpSbqNum] at hlen
    have hle := span_le hshort
    omega
  exact decide_eq_true (passed_of_closer (hlaid.of_append _).stop_add_span hspan
    (of_decide_eq_true hacked) hs.inv.inFlight_lt hle)

/-- What an arriving segment leaves unacknowledged was so before it. -/
theorem sendState_unacked (hs : Sound c) (hlen : c.sendQueue.length ≤ tcpSbqNum) (env : NetEnv)
    (st : TcpConnState) (g : Globals) (seg : Segment) (tsopt : TsOpt) {sbq : SendBufQueue}
    (hsbq : sbq ∈ c.sendQueue)
    (hun : seqGeq (tcpConnUpdateSendState env { c with state := st } g seg tsopt).1.sendUnack
      sbq.requiredAck = false) : seqGeq c.sendUnack sbq.requiredAck = false := by
  have hle := sendState_inFlight_le hs.inv env st g seg tsopt
  obtain ⟨f, hf, -⟩ := tcpConnUpdateSendState_spec env { c with state := st } g seg tsopt
  rw [hf] at hle hun
  by_contra hacked
  rw [Bool.not_eq_false] at hacked
  rw [acked_stays hs hlen hsbq hacked hle] at hun
  cases hun

/-- The persist timer stops, goes on, or starts now and the cache is told. -/
theorem sendState_zeroWindow (env : NetEnv) (c : TcpConn) (g : Globals) (seg : Segment)
    (tsopt : TsOpt) {d : TcpConn} {g' : Globals}
    (hd : tcpConnUpdateSendState env c g seg tsopt = (d, g')) :
    (g' = g ∧ (d.zeroWindowSinceMs = 0 ∨ d.zeroWindowSinceMs = c.zeroWindowSinceMs)) ∨
      (g' = tcpTimerHint g (env.now + tcpConnPersistRtoMs) ∧ d.zeroWindowSinceMs = env.now) := by
  have hkept : (if seg.ack = true then tcpConnTakeAck env c seg.ackNum tsopt
      else c).zeroWindowSinceMs = c.zeroWindowSinceMs := by
    split_ifs
    · obtain ⟨f, hf, -, -, hz⟩ := tcpConnTakeAck_spec env c seg.ackNum tsopt
      rw [hf]
      exact hz
    · rfl
  simp only [tcpConnUpdateSendState] at hd
  generalize (if seg.ack = true then tcpConnTakeAck env c seg.ackNum tsopt else c) = e at hd hkept
  split_ifs at hd <;> obtain ⟨rfl, rfl⟩ := Prod.mk.inj hd
  · exact .inl ⟨rfl, .inl rfl⟩
  · exact .inr ⟨rfl, rfl⟩
  · exact .inl ⟨rfl, .inr hkept⟩

theorem sendState_cached (env : NetEnv) (c : TcpConn) (g : Globals) (seg : Segment)
    (tsopt : TsOpt) :
    (tcpConnUpdateSendState env c g seg tsopt).2.nextTimerMs ≤ g.nextTimerMs := by
  rcases sendState_glob env c g seg tsopt with h | h <;> rw [h]
  · exact BitVec.le_refl _
  · exact tcpTimerHint_le _ _

/-- The cache knows the persist timer if it knew the old one. -/
theorem sendState_persist (hnow : env.now.toNat + 30000 < 2 ^ 64) {seg : Segment} {tsopt : TsOpt}
    (hd : tcpConnUpdateSendState env c g seg tsopt = (d, g'))
    (h : c.zeroWindowSinceMs ≠ 0 →
      g.nextTimerMs ≤ fireTime c.zeroWindowSinceMs tcpConnPersistRtoMs)
    (hne : d.zeroWindowSinceMs ≠ 0) :
    g'.nextTimerMs ≤ fireTime d.zeroWindowSinceMs tcpConnPersistRtoMs := by
  rcases sendState_zeroWindow env c g seg tsopt hd with ⟨rfl, hz⟩ | ⟨rfl, hz⟩
  · rcases hz with hz | hz
    · exact absurd hz hne
    · rw [hz] at hne ⊢
      exact h hne
  · rw [hz, fireTime_now hnow (by decide)]
    exact tcpTimerHint_le_deadline _ _

theorem sendState_after (hs : Sound c) (hlen : c.sendQueue.length ≤ tcpSbqNum)
    (hnow : env.now.toNat + 30000 < 2 ^ 64) (h : TimersAfter g.nextTimerMs c) (seg : Segment)
    (tsopt : TsOpt) :
    TimersAfter (tcpConnUpdateSendState env c g seg tsopt).2.nextTimerMs
      (tcpConnUpdateSendState env c g seg tsopt).1 := by
  have hk := h.mono (sendState_cached env c g seg tsopt)
  have hunacked := @sendState_unacked c hs hlen env c.state g seg tsopt
  obtain ⟨f, hf, -⟩ := tcpConnUpdateSendState_spec env c g seg tsopt
  obtain ⟨g', hg⟩ : ∃ g', g' = (tcpConnUpdateSendState env c g seg tsopt).2 := ⟨_, rfl⟩
  have hpersist := @sendState_persist env c (c.withSend f) g g' hnow seg tsopt
    (Prod.ext hf hg.symm)
  rw [← hg] at hk ⊢
  rw [hf] at hunacked
  rw [hf]
  exact ⟨hk.internal, hk.keepalive, fun hst ↦ hpersist (h.persist hst),
    fun sbq hsbq hun ↦ hk.retransmit sbq hsbq (hunacked hsbq hun)⟩

/-- **A handshake that ends.** The keep-alive timer starts now, and fires no earlier than the
timeout of the handshake could. -/
theorem open_after (hs : Sound c) (hlen : c.sendQueue.length ≤ tcpSbqNum)
    (hnow : env.now.toNat + 30000 < 2 ^ 64) (hdate : Dated env.now c)
    (h : TimersAfter g.nextTimerMs c) (hst : c.state = .synSent ∨ c.state = .synRcvd)
    (hnote : tcpConnNote env c = c) {st : TcpConnState} {seg : Segment} {tsopt : TsOpt}
    {e : TcpConn}
    (he : tcpConnUpdateSendState env { c with state := st } g seg tsopt = (e, g'))
    (hi : k ≤ d.internalTimeout) (hk : k = g'.nextTimerMs)
    (ha : d.lastActivityMs = c.lastActivityMs) (hp : d.keepaliveProbes = c.keepaliveProbes)
    (hz : d.zeroWindowSinceMs = e.zeroWindowSinceMs) (hq : d.sendQueue = c.sendQueue)
    (hu : d.sendUnack = e.sendUnack) : TimersAfter k d := by
  subst hk
  have hle : g'.nextTimerMs ≤ g.nextTimerMs := by
    simpa only [he] using sendState_cached env { c with state := st } g seg tsopt
  refine ⟨hi, fun _ ↦ ?_, fun _ hne ↦ ?_, fun sbq hsbq hun ↦ ?_⟩
  · have hact : c.lastActivityMs = env.now := (congrArg TcpConn.lastActivityMs hnote).symm
    have hprobes : c.keepaliveProbes = 0 := (congrArg TcpConn.keepaliveProbes hnote).symm
    have hidle : keepaliveIdle d = tcpConnKeepaliveIdleMs := by
      rw [keepaliveIdle, hp, hprobes]
      rfl
    have hlong : tcpConnKeepaliveIdleMs.toNat = 30000 := by decide
    rw [ha, hact, hidle, le_def, toNat_fireTime (by omega)]
    have hint := BitVec.le_def.mp (BitVec.le_trans hle h.internal)
    have hopening := hdate.opening hst
    omega
  · have hquiet : c.zeroWindowSinceMs = 0 := by
      refine hdate.quiet ?_
      rcases hst with hst | hst <;> rw [hst] <;> decide
    rw [hz] at hne ⊢
    exact sendState_persist hnow he (absurd hquiet) hne
  · rw [hq] at hsbq
    rw [hu] at hun
    have hunacked := @sendState_unacked c hs hlen env st g seg tsopt sbq hsbq
    rw [he] at hunacked
    exact (h.mono hle).retransmit sbq hsbq (hunacked hun)

/-! ## Every action -/

theorem Moves.live {st st' : TcpConnState} (h : Moves st st') :
    st ≠ .reset ∧ st' ≠ .established := by
  cases h with
  | timeWait h => rcases h with rfl | rfl | rfl <;> decide
  | _ => decide

theorem finStates_live {st : TcpConnState}
    (h : (c.state = .established ∧ st = .finWait1) ∨ (c.state = .closeWait ∧ st = .lastAck)) :
    c.state ≠ .reset ∧ st ≠ .established := by
  rcases h with ⟨h, rfl⟩ | ⟨h, rfl⟩ <;> rw [h] <;> decide

/-- **Every action keeps the dates.** -/
theorem Act.dated (ha : Act env p c g d g') (hnow : env.now.toNat + 30000 < 2 ^ 64)
    (h : Dated env.now c) : Dated env.now d := by
  cases ha with
  | note | probe => exact ⟨BitVec.le_refl _, h.opening, h.quiet⟩
  | options _ _ flags opts =>
    obtain ⟨mss, scale, use, heq, -⟩ := tcpHandleOptions_update c flags opts
    rw [heq]
    exact ⟨h.activity, h.opening, h.quiet⟩
  | negotiate _ _ tsopt =>
    obtain ⟨useTs, tsRecent, heq⟩ := negotiateTs_eq c tsopt
    rw [heq]
    exact ⟨h.activity, h.opening, h.quiet⟩
  | arm => exact setTimeout_dated c.state hnow h.activity h.quiet
  | move _ _ hst => exact dated_of_synchronized hst.synchronized h.activity
  | reset => exact dated_of_synchronized synchronized_reset h.activity
  | sendState _ _ seg tsopt hst =>
    obtain ⟨f, hf, -⟩ := tcpConnUpdateSendState_spec env c g seg tsopt
    rw [hf]
    exact dated_of_synchronized hst h.activity
  | recvState _ _ seg tsopt hst =>
    obtain ⟨f, hf⟩ := tcpConnUpdateRecvState_same c seg tsopt
    rw [hf]
    exact dated_of_synchronized hst h.activity
  | openActive _ _ seg tsopt =>
    obtain ⟨f, useTs, tsRecent, -, heq⟩ := tcpOpenActive_spec env c g seg tsopt
    rw [heq]
    exact dated_of_synchronized synchronized_established h.activity
  | openPassive _ _ seg tsopt =>
    obtain ⟨f, -, heq⟩ := tcpOpenPassive_spec env c g seg tsopt
    rw [heq]
    exact dated_of_synchronized synchronized_established h.activity
  | fin _ _ hg hst hd =>
    obtain ⟨rfl, rfl⟩ := Prod.mk.inj hd
    exact dated_of_synchronized (finStates hst).2.2 h.activity
  | finUnsent _ _ hst => exact dated_of_synchronized (finStates hst).2.2 h.activity
  | persist _ _ hwin hst =>
    exact dated_of_synchronized (hst ▸ synchronized_established) h.activity
  | _ => exact ⟨h.activity, h.opening, h.quiet⟩

/-- No action of a call moves the cache up. -/
theorem Act.cached_le (ha : Act env p c g d g') : g'.nextTimerMs ≤ g.nextTimerMs := by
  cases ha with
  | arm | queue | finUnsent | resend => exact tcpTimerHint_le _ _
  | sendState _ _ seg tsopt | openActive _ _ seg tsopt => exact sendState_cached env c g seg tsopt
  | openPassive _ _ seg tsopt => exact sendState_cached env _ g seg tsopt
  | fin _ _ _ _ hd =>
    obtain ⟨-, rfl⟩ := Prod.mk.inj hd
    exact BitVec.le_trans (tcpTimerHint_le _ _) (tcpTimerHint_le g _)
  | _ => exact BitVec.le_refl _

theorem noqueue_cached {res : Result} {flags : U8} {seqNum : U32} {cksum : U16}
    {payload : List U8}
    (hd : tcpSendSegmentNoqueue env c g flags seqNum cksum payload = (res, d, g')) :
    g'.nextTimerMs = g.nextTimerMs := by
  obtain ⟨_, window, ackSent, log, hspec, -⟩ :=
    tcpSendSegmentNoqueue_spec env c g flags seqNum cksum payload
  cases hspec.symm.trans hd
  rfl

/-- **Whatever a call does to a connection, the cache learns of its timers.** -/
theorem Act.after (ha : Act env .call c g d g') (hs : Sound c)
    (hlen : c.sendQueue.length ≤ tcpSbqNum) (hnow : env.now.toNat + 30000 < 2 ^ 64)
    (hdate : Dated env.now c) (h : c.state ≠ .reset → TimersAfter g.nextTimerMs c)
    (hd : d.state ≠ .reset) : TimersAfter g'.nextTimerMs d := by
  cases ha with
  | note =>
    have hc := h hd
    refine ⟨hc.internal, fun hst ↦ ?_, hc.persist, hc.retransmit⟩
    -- the timer moves on: from the last activity to now, and back to the long interval
    have hkeep := le_def.mp (hc.keepalive hst)
    have hact := le_def.mp hdate.activity
    have hidle := keepaliveIdle_le c
    have hlong : (keepaliveIdle (tcpConnNote env c)).toNat = 30000 := rfl
    rw [toNat_fireTime (by omega)] at hkeep
    rw [le_def, toNat_fireTime (by rw [hlong]; exact hnow)]
    show _ ≤ env.now.toNat + 30000
    omega
  | options _ _ flags opts =>
    obtain ⟨mss, scale, use, heq, -⟩ := tcpHandleOptions_update c flags opts
    rw [heq] at hd ⊢
    exact (h hd).congr ⟨rfl, rfl, rfl, rfl, rfl, rfl, rfl⟩ rfl
  | negotiate _ _ tsopt =>
    obtain ⟨useTs, tsRecent, heq⟩ := negotiateTs_eq c tsopt
    rw [heq] at hd ⊢
    exact (h hd).congr ⟨rfl, rfl, rfl, rfl, rfl, rfl, rfl⟩ rfl
  | arm => exact setTimeout_after c.state (h hd) (.inl rfl) rfl
  | ready | read => exact (h hd).congr ⟨rfl, rfl, rfl, rfl, rfl, rfl, rfl⟩ rfl
  | move _ _ hst =>
    have hc := h hst.live.1
    exact hc.leave hst.live.2 hc.internal (BitVec.le_refl _) rfl rfl
  | reset => exact absurd rfl hd
  | sendState _ _ seg tsopt =>
    rw [sendState_state] at hd
    exact sendState_after hs hlen hnow (h hd) seg tsopt
  | recvState _ _ seg tsopt =>
    obtain ⟨f, hf⟩ := tcpConnUpdateRecvState_same c seg tsopt
    rw [hf] at hd ⊢
    exact (h hd).congr ⟨rfl, rfl, rfl, rfl, rfl, rfl, rfl⟩ rfl
  | openActive _ _ seg tsopt hst _ _ _ hnote =>
    obtain ⟨f, useTs, tsRecent, hf, heq⟩ := tcpOpenActive_spec env c g seg tsopt
    have hc := h (by rw [hst]; decide)
    rw [heq]
    exact open_after hs hlen hnow hdate hc (.inl hst) hnote (Prod.ext hf rfl)
      (le_timeMsMax _) rfl rfl rfl rfl rfl rfl
  | openPassive _ _ seg tsopt hst _ _ _ hnote =>
    obtain ⟨f, hf, heq⟩ := tcpOpenPassive_spec env c g seg tsopt
    have hc := h (by rw [hst]; decide)
    rw [heq]
    refine open_after hs hlen hnow hdate hc (.inr hst) hnote (Prod.ext hf rfl) ?_ rfl rfl
      rfl rfl rfl rfl
    exact BitVec.le_trans (sendState_cached env _ g seg tsopt) hc.internal
  | queue _ _ hg hq => exact queueSegment_after hnow hs.inv.rto_le (h hd) _ _
  | @fin _ _ st hg hst e g₁ he =>
    have hlive := finStates_live hst
    have hrto : e.rto = c.rto := by
      obtain ⟨rfl, -⟩ := Prod.mk.inj he
      rfl
    refine queueSegment_after hnow (hrto ▸ hs.inv.rto_le) ?_ _ _
    exact setTimeout_after st (h hlive.1) (.inr hlive.2) he
  | @finUnsent _ _ st hst =>
    have hlive := finStates_live hst
    exact setTimeout_after st (h hlive.1) (.inr hlive.2) rfl

end

/-! ## Calls and polls -/

/-- The cache is no later than a timer of the table. -/
def TcpStack.Cached (s : TcpStack) : Prop :=
  s.All fun c ↦ c.state ≠ .reset → TimersAfter s.glob.nextTimerMs c

section

variable {env : NetEnv} {p : Phase} {c d : TcpConn} {g : Globals} {s s' : TcpStack} {i : ConnIdx}
  {now : U64}

/-- A path MTU touches no field of a timer. -/
theorem tcpPmtuUpdate_conn {dest : Ipv4Addr} {newMtu : U16}
    (h : (tcpPmtuUpdate s dest newMtu).connTable i = some d) :
    ∃ c mss, s.connTable i = some c ∧ d = { c with mss := mss } := by
  obtain ⟨c, hc, rfl⟩ := Option.map_eq_some_iff.mp h
  split_ifs
  · exact ⟨c, pmtuMss newMtu, hc, rfl⟩
  · exact ⟨c, c.mss, hc, rfl⟩

/-- **Every primitive step keeps the dates.** -/
theorem Prim.dated {new : List Emission} (hp : Prim env p s new s')
    (hnow : env.now.toNat + 30000 < 2 ^ 64) (h : s.All (Dated env.now)) :
    s'.All (Dated env.now) := by
  cases hp with
  | act hc ha =>
    refine h.update rfl ?_
    rintro _ ⟨rfl⟩
    exact ha.dated hnow (h _ _ hc)
  | @send _ _ _ c d g res _ flags seqNum cksum payload hc hd =>
    refine h.update rfl ?_
    rintro _ ⟨rfl⟩
    have hsame := (noqueue_sameTimers env c s.glob flags seqNum cksum payload).1
    rw [hd] at hsame
    exact (h _ _ hc).congr hsame
  | free => exact h.update rfl fun _ hd ↦ by cases hd
  | pmtu _ dest newMtu =>
    intro j d hd
    obtain ⟨c, mss, hc, rfl⟩ := tcpPmtuUpdate_conn hd
    exact (h _ _ hc).congr ⟨rfl, rfl, rfl, rfl, rfl, rfl, rfl⟩
  | listen =>
    refine h.update rfl ?_
    rintro _ ⟨rfl⟩
    exact ⟨BitVec.le_refl _, nofun, fun _ ↦ rfl⟩
  | child _ lc l peerAddr seg _ _ hd =>
    refine h.update rfl ?_
    rintro _ ⟨rfl⟩
    obtain ⟨rfl, -⟩ := Prod.mk.inj hd
    exact setTimeout_dated_self (g := allocHint env s.glob) hnow (BitVec.le_refl _) fun _ ↦ rfl
  | dial _ addr remoteAddr port remotePort _ _ hd =>
    refine h.update rfl ?_
    rintro _ ⟨rfl⟩
    obtain ⟨rfl, -⟩ := Prod.mk.inj hd
    refine ⟨BitVec.le_refl _, fun _ ↦ ?_, fun _ ↦ rfl⟩
    show (env.now + tcpConnSynSentTimeout).toNat ≤ _
    rw [toNat_now_add hnow (by decide)]
    exact Nat.add_le_add_left (by decide) _
  | _ => exact h

theorem Booked.queue_le (h : Booked s) (hc : s.connTable i = some c) :
    c.sendQueue.length ≤ tcpSbqNum := by
  have hle : entriesHeld (s.connTable i) ≤ s.total entriesHeld :=
    Tally.le_sum (fun i ↦ entriesHeld _) i
  rw [hc] at hle
  exact (hle.trans (Nat.le_add_right _ _)).trans h.entries.le

/-- A slot changes, and the cache does not move up. -/
theorem TcpStack.Cached.update (h : s.Cached) {x : Option TcpConn}
    (hc : s'.connTable = Function.update s.connTable i x)
    (hle : s'.glob.nextTimerMs ≤ s.glob.nextTimerMs)
    (hx : ∀ c, x = some c → c.state ≠ .reset → TimersAfter s'.glob.nextTimerMs c) : s'.Cached :=
  TcpStack.All.update (fun j c hj hst ↦ (h j c hj hst).mono hle) hc hx

theorem allocHint_le (env : NetEnv) (g : Globals) :
    (allocHint env g).nextTimerMs ≤ g.nextTimerMs := tcpTimerHint_le g _

/-- The timeout of an active open is not passed to the cache, but its SYN comes first. -/
theorem dial_after (hnow : env.now.toNat + 30000 < 2 ^ 64) (addr remoteAddr : Ipv4Addr)
    (port remotePort : U16) {g₀ : Globals}
    (hd : tcpQueueSegment env (tcpConnectFresh env addr port remoteAddr remotePort) g₀
      tcpHdrFlagSyn [] = (d, g)) : TimersAfter g.nextTimerMs d := by
  have hsyn : g.nextTimerMs ≤ env.now + tcpConnRtoMin.setWidth 64 := by
    obtain ⟨-, rfl⟩ := Prod.mk.inj hd
    exact tcpTimerHint_le_deadline _ _
  have hle := le_def.mp hsyn
  have hrto : (tcpConnRtoMin.setWidth 64).toNat = 200 := by decide
  rw [toNat_now_add hnow (by decide)] at hle
  obtain ⟨rfl, -⟩ := Prod.mk.inj hd
  refine ⟨?_, nofun, nofun, ?_⟩
  · show g.nextTimerMs ≤ env.now + tcpConnSynSentTimeout
    have hlong : tcpConnSynSentTimeout.toNat = 10000 := by decide
    rw [le_def, toNat_now_add hnow (by omega)]
    omega
  · intro sbq hsbq _
    rw [mem_singleton.mp hsbq]
    rwa [← fireTime_now hnow (by decide)] at hsyn

/-- **Every primitive step of a call keeps the cache.** -/
theorem Prim.cached {new : List Emission} (hp : Prim env .call s new s') (hb : Booked s)
    (hnow : env.now.toNat + 30000 < 2 ^ 64) (hdate : s.All (Dated env.now)) (h : s.Cached) :
    s'.Cached := by
  cases hp with
  | act hc ha =>
    refine h.update rfl ha.cached_le ?_
    rintro _ ⟨rfl⟩
    exact ha.after (hb.conns _ _ hc) (hb.queue_le hc) hnow (hdate _ _ hc) (h _ _ hc)
  | @send _ _ _ c d g res _ flags seqNum cksum payload hc hd =>
    obtain ⟨hsame, hqueue⟩ := noqueue_sameTimers env c s.glob flags seqNum cksum payload
    rw [hd] at hsame hqueue
    have hg : g.nextTimerMs = s.glob.nextTimerMs := noqueue_cached hd
    refine h.update rfl (Nat.le_of_eq (congrArg BitVec.toNat hg)) ?_
    rintro _ ⟨rfl⟩ hst
    rw [hg]
    exact (h _ _ hc (hsame.state ▸ hst)).congr hsame hqueue
  | free => exact h.update rfl (BitVec.le_refl _) fun _ hd ↦ by cases hd
  | pmtu _ dest newMtu =>
    intro j d hd hst
    obtain ⟨c, mss, hc, rfl⟩ := tcpPmtuUpdate_conn hd
    exact (h _ _ hc hst).congr ⟨rfl, rfl, rfl, rfl, rfl, rfl, rfl⟩ rfl
  | listen =>
    refine h.update rfl (allocHint_le env s.glob) ?_
    rintro _ ⟨rfl⟩ -
    exact ⟨le_timeMsMax _, nofun, nofun, nofun⟩
  | @child _ _ _ lc l peerAddr seg _ _ d g hd =>
    have hle : g.nextTimerMs ≤ s.glob.nextTimerMs := by
      obtain ⟨-, rfl⟩ := Prod.mk.inj hd
      exact BitVec.le_trans (tcpTimerHint_le _ _) (allocHint_le env s.glob)
    refine h.update rfl hle ?_
    rintro _ ⟨rfl⟩ -
    have hfresh : TimersAfter (allocHint env s.glob).nextTimerMs
        (tcpListenFresh env lc l peerAddr seg) := ⟨le_timeMsMax _, nofun, nofun, nofun⟩
    exact setTimeout_after_self hfresh hd
  | @dial _ _ _ addr remoteAddr port remotePort _ _ d g hd =>
    have hle : g.nextTimerMs ≤ s.glob.nextTimerMs := by
      obtain ⟨-, rfl⟩ := Prod.mk.inj hd
      exact BitVec.le_trans (tcpTimerHint_le _ _) (allocHint_le env s.glob)
    refine h.update rfl hle ?_
    rintro _ ⟨rfl⟩ -
    exact dial_after hnow addr remoteAddr port remotePort hd
  | spend => exact fun j c hj hst ↦ (h j c hj hst).mono (allocHint_le env s.glob)
  | _ => exact h

/-- The heap holds every armed timer of the table, and the cache its root. -/
theorem HeapFresh.cached (h : HeapFresh s) : s.Cached := by
  intro i c hc hst
  rw [← le_nextEvent_iff]
  by_cases hmax : tcpConnNextEventMs c = timeMsMax
  · rw [hmax]
    exact le_timeMsMax _
  · obtain ⟨hsize, hle⟩ := h.root_le hc hst hmax
    obtain ⟨s₀, rfl⟩ := h
    show (if (tcpHeapRebuild s₀).timerHeapSize = 0 then timeMsMax
      else ((tcpHeapRebuild s₀).timerHeap 0).fireMs) ≤ _
    rw [if_neg hsize]
    exact hle

/-- A trip of the service loop starts and ends with a fresh heap. -/
theorem HeapFresh.pass (h : HeapFresh s) (env : NetEnv) :
    HeapFresh ((tcpPollPass env s).elim Prod.snd id) := by
  unfold tcpPollPass
  split_ifs
  · exact h
  dsimp only
  split_ifs
  · exact h
  cases s.connTable (s.timerHeap 0).conn with
  | none => exact ⟨_, rfl⟩
  | some c =>
    dsimp only
    split_ifs <;> try split
    all_goals exact ⟨_, rfl⟩

/-- **A poll** does nothing or leaves a fresh heap. -/
theorem tcpPollRetransmit_heap {fuel : ℕ} {r : Result × TcpStack}
    (h : tcpPollRetransmit env s fuel = some r) : r.2 = s ∨ HeapFresh r.2 := by
  simp only [tcpPollRetransmit] at h
  split_ifs at h
  · cases h
    exact .inl rfl
  · obtain ⟨t, hvisit, hleave⟩ := Loop.exists_visits_of_run h
    have ht : HeapFresh t := by
      refine hvisit.invariant ⟨s, rfl⟩ ?_
      intro u u' hu hpass
      have hstep := hu.pass env
      rwa [hpass] at hstep
    have hstep := ht.pass env
    rw [hleave] at hstep
    exact .inr hstep

/-- **Every call and every poll** keeps the dates and the cache. -/
theorem step_cached {e : Event} (hb : Booked s) (hnow : env.now.toNat + 30000 < 2 ^ 64)
    (hdate : s.All (Dated env.now)) (h : s.Cached) (he : e.Allowed s)
    (hstep : step env s e = some s') : s'.All (Dated env.now) ∧ s'.Cached := by
  have hsteps := step_steps hb he hstep
  have hdate' : s'.All (Dated env.now) :=
    hsteps.invariant hdate fun hd hp ↦ hp.dated hnow hd
  refine ⟨hdate', ?_⟩
  cases e with
  | poll fuel =>
    obtain ⟨r, hr, rfl⟩ := Option.map_eq_some_iff.mp hstep
    rcases tcpPollRetransmit_heap hr with heq | hfresh
    · rw [heq]
      exact h
    · exact hfresh.cached
  | _ =>
    have hall : Booked s' ∧ s'.All (Dated env.now) ∧ s'.Cached :=
      hsteps.invariant (P := fun s ↦ Booked s ∧ s.All _ ∧ s.Cached) ⟨hb, hdate, h⟩
        fun hs hp ↦ ⟨hp.booked hs.1, hp.dated hnow hs.2.1, hp.cached hs.1 hnow hs.2.1 hs.2.2⟩
    exact hall.2.2

end

/-! ## Runs in time -/

/-- The states reached by the time the timebase has counted so far. Calls read the clock of the
board, and the counter does not go back. -/
inductive Timed (boardFreq : U64) : U64 → TcpStack → Prop
  | init (hashSeed : U32) (elapsed : U64) : Timed boardFreq elapsed (tcpInit hashSeed)
  | step {elapsed elapsed' : U64} {s s' : TcpStack} {env : NetEnv} {e : Event}
      (h : Timed boardFreq elapsed s) (hle : elapsed ≤ elapsed')
      (hnow : env.now = timeCurrentMs boardFreq elapsed') (he : e.Allowed s)
      (hstep : Tcp.step env s e = some s') : Timed boardFreq elapsed' s'

section

variable {boardFreq elapsed : U64} {s : TcpStack}

theorem Timed.reachable (h : Timed boardFreq elapsed s) : Reachable s := by
  induction h with
  | init hashSeed => exact .init hashSeed
  | step _ _ _ he hstep ih => exact .step _ _ ih he hstep

/-- **Every timed run keeps the dates and the cache.** -/
theorem Timed.cached (h : Timed boardFreq elapsed s)
    (hclock : (timeCurrentMs boardFreq elapsed).toNat + 30000 < 2 ^ 64) :
    s.All (Dated (timeCurrentMs boardFreq elapsed)) ∧ s.Cached := by
  induction h with
  | init => constructor <;> intro i c hc <;> cases hc
  | @step elapsed elapsed' s s' env e h hle hnow he hstep ih =>
    have hmono := timeCurrentMs_mono boardFreq hle
    have hprev := Nat.add_le_add_right (le_def.mp hmono) 30000
    obtain ⟨hdate, hcached⟩ := ih (hprev.trans_lt hclock)
    rw [← hnow] at hmono hclock ⊢
    exact step_cached h.reachable.booked hclock (fun i c hc ↦ (hdate i c hc).mono hmono) hcached he
      hstep

/-- **The cached timer.** In every state that the module reaches on a clock that has not come to its
end, the cached time is `TIME_MS_MAX` or no later than the next event of any connection that is not
in RESET. Whenever a poll returns without looking at the table, no connection is due. -/
theorem nextTimer_le_nextEvent (h : Timed boardFreq elapsed s)
    (hclock : (timeCurrentMs boardFreq elapsed).toNat + 30000 < 2 ^ 64) :
    (s.glob.nextTimerMs = timeMsMax ∨ ∀ i c, s.connTable i = some c → c.state ≠ .reset →
      s.glob.nextTimerMs ≤ tcpConnNextEventMs c) ∧
    ∀ env : NetEnv, s.glob.nextTimerMs ≠ timeMsMax → env.now < s.glob.nextTimerMs →
      (∀ fuel, tcpPollRetransmit env s fuel = some (resultOk, s)) ∧
        ∀ i c, s.connTable i = some c → ¬c.Due env.now := by
  have hcached : ∀ i c, s.connTable i = some c → c.state ≠ .reset →
      s.glob.nextTimerMs ≤ tcpConnNextEventMs c :=
    fun i c hc hst ↦ le_nextEvent_iff.mpr ((h.cached hclock).2 i c hc hst)
  refine ⟨.inr hcached, fun env hmax hlt ↦ ⟨fun fuel ↦ ?_, ?_⟩⟩
  · exact if_pos ⟨hmax, hlt⟩
  · intro i c hc hdue
    exact not_due_of_lt (Nat.lt_of_lt_of_le hlt (hcached i c hc hdue.1)) hdue

/-- An active open that is answered after 50 ms, on the default clock. The cache still holds the
time at which the SYN would have been sent again. -/
theorem nextTimer_le_nextEvent_handshake : ∃ s c, Timed 0 500000 s ∧
    s.connTable ⟨0, zero_lt_tcpConnMaxNum⟩ = some c ∧ c.state = .established ∧
    s.glob.nextTimerMs = 200 ∧ 200 ≤ tcpConnNextEventMs c ∧ ¬c.Due 199 := by
  let syn : NetEnv := .sending (timeCurrentMs 0 0) hostA 1000
  let synAck : NetEnv := .sending (timeCurrentMs 0 500000) hostA 1000
  let answer : Event := .packet hostA peerA
    (.bare 443 49152 5000 1001 (tcpHdrFlagSyn ||| tcpHdrFlagAck) 1000)
  let t := (tcpConnConnect syn (tcpInit 0) peerA 443).2
  have ht : Timed 0 0 t :=
    .step (.init 0 0) (BitVec.le_refl _) rfl (e := .connect peerA 443) trivial rfl
  obtain ⟨s, hs, hp⟩ : ∃ s, Tcp.step synAck t answer = some s ∧
      s.glob.nextTimerMs = 200 ∧ (s.connTable ⟨0, zero_lt_tcpConnMaxNum⟩).any
        (fun c ↦ c.state == .established) = true := ⟨_, rfl, by decide +kernel⟩
  obtain ⟨c, hc, hst⟩ := (Option.any_eq_true _ _).mp hp.2
  have hst : c.state = .established := beq_iff_eq.mp hst
  have hrun : Timed 0 500000 s := ht.step (by decide) rfl (by decide) hs
  obtain ⟨hle, hfast⟩ := nextTimer_le_nextEvent hrun (timeCurrentMs_lt (by decide) _)
  rw [hp.1] at hle hfast
  refine ⟨s, c, hrun, hc, hst, hp.1, ?_, ?_⟩
  · exact hle.resolve_left (by decide) _ c hc (by rw [hst]; decide)
  · exact (hfast (.sending 199 hostA 1000) (by decide) (by decide)).2 _ c hc

end

end Mazu.Tcp
