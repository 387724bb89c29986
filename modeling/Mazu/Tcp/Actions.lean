import Mazu.Tcp.Evolve

/-!
# Actions on a connection and the globals

`Micro` says what an update does to a connection and forgets the rest. Some properties join the
connection to the pools, to the cached timer, or to what was put on the wire: `Act` is one update
with its effect on the globals, and `Acts` a sequence of them with the segments that were handed to
the IP layer on the way, each with the connection as it was at that moment. A poll takes other
actions than the calls do. A routine is gone through once: `Turns` says what it does and, of the
connection alone, by which updates.
-/

namespace Mazu.Tcp

/-- Who acts on a connection: the timer service, or any other call. -/
inductive Phase
  | call
  | timer

/-- The segments that go through the send queue, our FIN aside. -/
inductive Queues (c : TcpConn) : U8 → List U8 → Prop
  | empty {flags : U8} (h : tcpSegmentAdvance flags [] = 0) : Queues c flags []
  | syn {flags : U8} (h : c.state = .synSent ∨ c.state = .synRcvd) (hiss : c.sendNext = c.iss)
      (hadv : tcpSegmentAdvance flags [] = 1) : Queues c flags []
  | data {fragment : List U8} (h : fragment.length ≤ tcpSendWindowAvail c)
      (huser : tcpConnNeedsUserClose c) (hmss : fragment.length ≤ c.mss) :
      Queues c tcpHdrFlagAck fragment

/-- The part of `tcp_send_segment` before the transmission. -/
def tcpQueueSegment (env : NetEnv) (c : TcpConn) (g : Globals) (flags : U8) (fragment : List U8) :
    TcpConn × Globals :=
  let sbq := tcpNewSbq env c flags fragment
  ({ c with sendNext := sbq.requiredAck, sendQueue := c.sendQueue ++ [sbq] },
    tcpTimerHint { g with sbqAvail := g.sbqAvail - 1 } (sbq.lastTry + sbq.retryAfter))

/-- The entry after it was sent again. -/
def SendBufQueue.resent (sbq : SendBufQueue) (now : U64) : SendBufQueue :=
  { sbq with
    nTransmissions := sbq.nTransmissions + 1
    retryAfter := sbq.retryAfter * 2
    lastTry := now }

/-- The end of a handshake we began, with a buffer taken from the pool. -/
def tcpOpenActive (env : NetEnv) (c : TcpConn) (g : Globals) (seg : Segment) (tsopt : TsOpt) :
    TcpConn × Globals :=
  let (c, g) := tcpConnUpdateSendState env c g seg tsopt
  ({ negotiateTs { c with recvNext := seg.seqNum + 1 } tsopt with
      recvBuf := recvBufNew, state := .established, internalTimeout := timeMsMax },
    { g with recvBufAvail := g.recvBufAvail - 1 })

/-- The end of a handshake the peer began. -/
def tcpOpenPassive (env : NetEnv) (c : TcpConn) (g : Globals) (seg : Segment) (tsopt : TsOpt) :
    TcpConn × Globals :=
  let (c, g) := tcpConnUpdateSendState env { c with state := .established } g seg tsopt
  ({ c with recvBuf := recvBufNew }, { g with recvBufAvail := g.recvBufAvail - 1 })

section

variable (env : NetEnv) (c : TcpConn) (g : Globals) (seg : Segment) (tsopt : TsOpt)

/-- The end of a handshake, field by field. -/
theorem tcpOpenActive_spec :
    ∃ (f : SendFields) (useTs : Bool) (tsRecent : U32),
      (tcpConnUpdateSendState env c g seg tsopt).1 = c.withSend f ∧
      tcpOpenActive env c g seg tsopt =
        ({ c.withSend f with
            recvNext := seg.seqNum + 1, useTimeStamps := useTs, tsRecent := tsRecent
            recvBuf := recvBufNew, state := .established, internalTimeout := timeMsMax },
          { (tcpConnUpdateSendState env c g seg tsopt).2 with
            recvBufAvail := (tcpConnUpdateSendState env c g seg tsopt).2.recvBufAvail - 1 }) := by
  obtain ⟨f, hf, -⟩ := tcpConnUpdateSendState_spec env c g seg tsopt
  obtain ⟨useTs, tsRecent, hts⟩ := negotiateTs_eq
    { (tcpConnUpdateSendState env c g seg tsopt).1 with recvNext := seg.seqNum + 1 } tsopt
  refine ⟨f, useTs, tsRecent, hf, ?_⟩
  simp only [tcpOpenActive]
  rw [hts, hf]

theorem tcpOpenPassive_spec :
    ∃ f : SendFields,
      (tcpConnUpdateSendState env { c with state := .established } g seg tsopt).1
        = { c.withSend f with state := .established } ∧
      tcpOpenPassive env c g seg tsopt =
        ({ c.withSend f with state := .established, recvBuf := recvBufNew },
          { (tcpConnUpdateSendState env { c with state := .established } g seg tsopt).2 with
            recvBufAvail := (tcpConnUpdateSendState env { c with state := .established } g seg
              tsopt).2.recvBufAvail - 1 }) := by
  obtain ⟨f, hf, -⟩ :=
    tcpConnUpdateSendState_spec env { c with state := .established } g seg tsopt
  refine ⟨f, hf, ?_⟩
  simp only [tcpOpenPassive]
  rw [hf]
  rfl

end

/-- One update of a connection and of the globals that hands nothing to the IP layer. -/
inductive Act (env : NetEnv) : Phase → TcpConn → Globals → TcpConn → Globals → Prop
  | note (c : TcpConn) (g : Globals) : Act env .call c g (tcpConnNote env c) g
  | options (c : TcpConn) (g : Globals) (flags : U8) (opts : List U8) :
      Act env .call c g (tcpHandleOptions c flags opts).1 g
  | negotiate (c : TcpConn) (g : Globals) (tsopt : TsOpt) :
      Act env .call c g (negotiateTs c tsopt) g
  | arm (c : TcpConn) (g : Globals) : Act env .call c g (tcpConnSetInternalTimeout env c g).1
      (tcpConnSetInternalTimeout env c g).2
  | ready {p : Phase} (c : TcpConn) (g : Globals) (n : U32) :
      Act env p c g { c with acceptReady := n } g
  | move (c : TcpConn) (g : Globals) {st : TcpConnState} (h : Moves c.state st) :
      Act env .call c g { c with state := st } g
  | reset {p : Phase} (c : TcpConn) (g : Globals)
      (h : c.state = .synSent ∨ c.state = .established ∨ c.state = .closeWait) :
      Act env p c g { c with state := .reset } g
  | sendState (c : TcpConn) (g : Globals) (seg : Segment) (tsopt : TsOpt)
      (h : c.state.Synchronized) :
      Act env .call c g (tcpConnUpdateSendState env c g seg tsopt).1
        (tcpConnUpdateSendState env c g seg tsopt).2
  | recvState (c : TcpConn) (g : Globals) (seg : Segment) (tsopt : TsOpt)
      (h : c.state.Synchronized) : Act env .call c g (tcpConnUpdateRecvState c seg tsopt).2 g
  | openActive (c : TcpConn) (g : Globals) (seg : Segment) (tsopt : TsOpt)
      (h : c.state = .synSent) (hack : seg.ack = true) (hnum : seg.ackNum = c.iss + 1)
      (hbuf : g.recvBufAvail ≠ 0) (hnote : tcpConnNote env c = c) :
      Act env .call c g (tcpOpenActive env c g seg tsopt).1 (tcpOpenActive env c g seg tsopt).2
  | openPassive (c : TcpConn) (g : Globals) (seg : Segment) (tsopt : TsOpt)
      (h : c.state = .synRcvd) (hack : seg.ack = true) (hnum : seg.ackNum = c.iss + 1)
      (hbuf : g.recvBufAvail ≠ 0) (hnote : tcpConnNote env c = c) :
      Act env .call c g (tcpOpenPassive env c g seg tsopt).1 (tcpOpenPassive env c g seg tsopt).2
  | queue (c : TcpConn) (g : Globals) {flags : U8} {fragment : List U8} (hg : g.sbqAvail ≠ 0)
      (h : Queues c flags fragment) :
      Act env .call c g (tcpQueueSegment env c g flags fragment).1
        (tcpQueueSegment env c g flags fragment).2
  /-- Our FIN, in the state that goes with it. -/
  | fin (c : TcpConn) (g : Globals) {st : TcpConnState} (hg : g.sbqAvail ≠ 0)
      (h : (c.state = .established ∧ st = .finWait1) ∨ (c.state = .closeWait ∧ st = .lastAck))
      {d : TcpConn} {g' : Globals}
      (hd : tcpConnSetInternalTimeout env { c with state := st } g = (d, g')) :
      Act env .call c g (tcpQueueSegment env d g' (tcpHdrFlagFin ||| tcpHdrFlagAck) []).1
        (tcpQueueSegment env d g' (tcpHdrFlagFin ||| tcpHdrFlagAck) []).2
  | finUnsent (c : TcpConn) (g : Globals) {st : TcpConnState}
      (h : (c.state = .established ∧ st = .finWait1) ∨ (c.state = .closeWait ∧ st = .lastAck)) :
      Act env .call c g (tcpConnSetInternalTimeout env { c with state := st } g).1
        (tcpConnSetInternalTimeout env { c with state := st } g).2
  | read (c : TcpConn) (g : Globals) (dest : ByteBuf) :
      Act env .call c g { c with recvBuf := (recvBufRead c.recvBuf dest).2.1 } g
  | release (c : TcpConn) (g : Globals) (sbq : SendBufQueue) (rest : List SendBufQueue)
      (h : c.sendQueue = sbq :: rest) (hack : seqGeq c.sendUnack sbq.requiredAck = true) :
      Act env .timer c g { c with sendQueue := rest } { g with sbqAvail := g.sbqAvail + 1 }
  | resend (c : TcpConn) (g : Globals) (sbq : SendBufQueue) (rest : List SendBufQueue)
      (h : c.sendQueue = sbq :: rest) (hn : sbq.nTransmissions ≤ 8) :
      Act env .timer c g { c with sendQueue := sbq.resent env.now :: rest }
        (tcpTimerHint g (env.now + (sbq.resent env.now).retryAfter))
  | collapse (c : TcpConn) (g : Globals) : Act env .timer c g (tcpCcRenoOnTimeout c) g
  | persist (c : TcpConn) (g : Globals) (h : c.sendWindowReal = 0) (hst : c.state = .established) :
      Act env .timer c g { c with zeroWindowSinceMs := env.now } g
  | probe (c : TcpConn) (g : Globals) :
      Act env .timer c g
        { c with keepaliveProbes := c.keepaliveProbes + 1, lastActivityMs := env.now } g

/-- A sequence of updates and transmissions. The segments that went out are listed newest first,
each with the connection right after it. -/
inductive Acts (env : NetEnv) (p : Phase) (c : TcpConn) (g : Globals) :
    List (TcpConn × TxSegment) → TcpConn → Globals → Prop
  | refl : Acts env p c g [] c g
  | act {sent : List (TcpConn × TxSegment)} {d d' : TcpConn} {g₁ g₂ : Globals}
      (h : Acts env p c g sent d g₁) (ha : Act env p d g₁ d' g₂) : Acts env p c g sent d' g₂
  | send {sent : List (TcpConn × TxSegment)} {d d' : TcpConn} {g₁ g₂ : Globals} {res : Result}
      {out : List TxSegment} (h : Acts env p c g sent d g₁) {flags : U8} {seqNum : U32}
      {cksum : U16} {payload : List U8}
      (hd : tcpSendSegmentNoqueue env d g₁ flags seqNum cksum payload = (res, d', g₂))
      (hout : g₂.txLog = out ++ g₁.txLog) :
      Acts env p c g (out.map (d', ·) ++ sent) d' g₂

/-- The globals and the connection change by such a sequence. -/
def Does (env : NetEnv) (p : Phase) (c : TcpConn) (g : Globals) (d : TcpConn) (g' : Globals) :
    Prop :=
  ∃ sent, Acts env p c g sent d g'

section

variable {env : NetEnv} {p : Phase} {k : Cause} {c d e : TcpConn} {g g₁ g₂ : Globals}

theorem Does.refl (c : TcpConn) (g : Globals) : Does env p c g c g := ⟨[], .refl⟩

theorem Acts.trans {sent sent' : List (TcpConn × TxSegment)} (h : Acts env p c g sent d g₁)
    (h' : Acts env p d g₁ sent' e g₂) : Acts env p c g (sent' ++ sent) e g₂ := by
  induction h' with
  | refl => exact h
  | act _ ha ih => exact ih.act ha
  | send _ hd hout ih =>
    rw [List.append_assoc]
    exact ih.send hd hout

theorem Does.trans (h : Does env p c g d g₁) (h' : Does env p d g₁ e g₂) :
    Does env p c g e g₂ := by
  obtain ⟨sent, h⟩ := h
  obtain ⟨sent', h'⟩ := h'
  exact ⟨_, h.trans h'⟩

theorem Act.does (h : Act env p c g d g₁) : Does env p c g d g₁ := ⟨[], Acts.refl.act h⟩

theorem Does.then (h : Does env p c g d g₁) (h' : Act env p d g₁ e g₂) : Does env p c g e g₂ :=
  h.trans h'.does

/-- What a routine does, and the updates of the connection alone. -/
structure Turns (env : NetEnv) (p : Phase) (k : Cause) (c : TcpConn) (g : Globals) (d : TcpConn)
    (g' : Globals) : Prop where
  does : Does env p c g d g'
  evolves : Evolves k c d

theorem Turns.refl (c : TcpConn) (g : Globals) : Turns env p k c g c g :=
  ⟨Does.refl c g, Evolves.refl c⟩

theorem Turns.trans (h : Turns env p k c g d g₁) (h' : Turns env p k d g₁ e g₂) :
    Turns env p k c g e g₂ :=
  ⟨h.does.trans h'.does, h.evolves.trans h'.evolves⟩

theorem Act.turns (h : Act env p c g d g₁) (hm : Micro k c d) : Turns env p k c g d g₁ :=
  ⟨h.does, hm.evolves⟩

section

variable (env : NetEnv) (c : TcpConn) (g : Globals) (flags : U8) (seqNum : U32) (cksum : U16)
  (payload : List U8)

/-- A transmission adds at most one segment to the log. -/
theorem noqueue_txLog : ∃ out, (tcpSendSegmentNoqueue env c g flags seqNum cksum payload).2.2.txLog
    = out ++ g.txLog := by
  simp only [tcpSendSegmentNoqueue, tcpSendSegmentNoqueueRaw]
  cases env.routeAddr g.txTries with
  | error e => exact ⟨[], rfl⟩
  | ok iface => exact ⟨[_], rfl⟩

theorem noqueue_does :
    Does env p c g (tcpSendSegmentNoqueue env c g flags seqNum cksum payload).2.1
      (tcpSendSegmentNoqueue env c g flags seqNum cksum payload).2.2 := by
  obtain ⟨out, hout⟩ := noqueue_txLog env c g flags seqNum cksum payload
  exact ⟨_, Acts.refl.send rfl hout⟩

theorem noqueue_turns :
    Turns env p k c g (tcpSendSegmentNoqueue env c g flags seqNum cksum payload).2.1
      (tcpSendSegmentNoqueue env c g flags seqNum cksum payload).2.2 :=
  ⟨noqueue_does .., (tcpSendSegmentNoqueue_micro ..).evolves⟩

end

/-- The timer service acts for no cause of its own. -/
theorem Act.evolves_timer (h : Act env .timer c g d g₁) : Evolves k c d := by
  cases h with
  | ready => exact Micro.evolves (.inert ..)
  | reset _ _ h => exact (Micro.reset c h).evolves
  | release _ _ sbq rest h hack =>
    refine (Micro.release c [sbq] rest h ?_).evolves
    simpa using hack
  | resend _ _ sbq rest h hn => exact (Micro.retransmit env c sbq rest h hn).evolves
  | collapse => exact (Micro.timeout c).evolves
  | persist _ _ h => exact (Micro.probe c env.now h).evolves
  | probe => exact (activity_micro c env.now _).evolves

theorem Does.evolves_timer (h : Does env .timer c g d g₁) : Evolves k c d := by
  obtain ⟨sent, h⟩ := h
  induction h with
  | refl => exact Evolves.refl c
  | act _ ha ih => exact ih.trans ha.evolves_timer
  | @send _ d _ g₁ _ _ _ _ flags seqNum cksum payload hd _ ih =>
    have hm := tcpSendSegmentNoqueue_micro (k := k) env d g₁ flags seqNum cksum payload
    rw [hd] at hm
    exact ih.then hm

/-! ## Sending -/

theorem tcpSendSegment_eq (hg : g.sbqAvail ≠ 0) (flags : U8) (fragment : List U8) :
    tcpSendSegment env c g flags fragment =
      tcpSendSegmentNoqueue env (tcpQueueSegment env c g flags fragment).1
        (tcpQueueSegment env c g flags fragment).2 flags c.sendNext
        (Net.internetChecksumIterate 0 fragment) fragment := by
  rw [tcpSendSegment, if_neg hg]
  rfl

theorem Queues.micro {flags : U8} {fragment : List U8} (h : Queues c flags fragment) :
    Micro k c (tcpQueueSegment env c g flags fragment).1 := by
  cases h with
  | empty hadv =>
    have hnext : (tcpNewSbq env c flags []).requiredAck = c.sendNext := by simp [tcpNewSbq, hadv]
    simp only [tcpQueueSegment, hnext]
    exact .queueEmpty env c flags hadv
  | syn hst hiss hadv =>
    have hnext : (tcpNewSbq env c flags []).requiredAck = c.sendNext + 1 := by
      simp [tcpNewSbq, hadv]
    simp only [tcpQueueSegment, hnext]
    exact .queueSyn env c flags hst hiss hadv
  | data havail huser hmss => exact .queueData env c fragment havail huser

theorem tcpSendSegment_turns {flags : U8} {fragment : List U8} (h : Queues c flags fragment) :
    Turns env .call k c g (tcpSendSegment env c g flags fragment).2.1
      (tcpSendSegment env c g flags fragment).2.2 := by
  by_cases hg : g.sbqAvail = 0
  · rw [tcpSendSegment, if_pos hg]
    exact Turns.refl c g
  · rw [tcpSendSegment_eq hg]
    exact ((Act.queue c g hg h).turns h.micro).trans (noqueue_turns env _ _ _ _ _ _)

theorem replyAck_turns (env : NetEnv) (c : TcpConn) (g : Globals) :
    Turns env .call k c g (replyEmpty env c g tcpHdrFlagAck).conn
      (replyEmpty env c g tcpHdrFlagAck).glob :=
  tcpSendSegment_turns (.empty advance_ack)

/-- An empty segment without SYN or FIN, sent before the state changes. -/
theorem sendEmptyThenState_evolves (env : NetEnv) (c : TcpConn) (g : Globals) {flags : U8}
    (h : tcpSegmentAdvance flags [] = 0) (st : TcpConnState) :
    Evolves k { c with state := st }
      { (tcpSendSegmentEmpty env c g flags).2.1 with state := st } := by
  rw [tcpSendSegmentEmpty]
  rcases tcpSendSegment_conn env c g flags [] with heq | ⟨window, ackSent, heq⟩
  · rw [heq]
    exact Evolves.refl _
  · have hnext : (tcpNewSbq env c flags []).requiredAck = c.sendNext := by
      simp [tcpNewSbq, h]
    rw [heq, hnext]
    exact (Micro.queueEmpty env { c with state := st } flags h).evolves.then
      (window_micro _ window ackSent)

theorem negotiateTs_micro {k : Cause} (c : TcpConn) (tsopt : TsOpt) :
    Micro k c (negotiateTs c tsopt) := by
  obtain ⟨useTs, tsRecent, h⟩ := negotiateTs_eq c tsopt
  rw [h]
  exact timeout_ts_micro c c.internalTimeout useTs tsRecent

theorem tcpOpenActive_evolves {seg : Segment} {tsopt : TsOpt} (h : c.state = .synSent)
    (hack : seg.ack = true) (hnum : seg.ackNum = c.iss + 1) :
    Evolves .segment c (tcpOpenActive env c g seg tsopt).1 := by
  have hm := Micro.handshake env c g seg tsopt c.state .established recvBufNew (seg.seqNum + 1)
    (.inl h) hack hnum (.inl rfl) (.inl rfl)
  obtain ⟨f, useTs, tsRecent, hf, heq⟩ := tcpOpenActive_spec env c g seg tsopt
  rw [hf] at hm
  rw [heq]
  exact hm.evolves.then (timeout_ts_micro _ timeMsMax useTs tsRecent)

theorem tcpOpenPassive_evolves {seg : Segment} {tsopt : TsOpt} (h : c.state = .synRcvd)
    (hack : seg.ack = true) (hnum : seg.ackNum = c.iss + 1) :
    Evolves .segment c (tcpOpenPassive env c g seg tsopt).1 := by
  have hm := Micro.handshake env c g seg tsopt .established .established recvBufNew c.recvNext
    (.inr h) hack hnum (.inl rfl) (.inl rfl)
  obtain ⟨f, hf, heq⟩ := tcpOpenPassive_spec env c g seg tsopt
  rw [hf] at hm
  rw [heq]
  exact hm.evolves

end

/-! ## The handlers -/

section

variable {k : Cause} (env : NetEnv) (c : TcpConn) (g : Globals) (seg : Segment) (tsopt : TsOpt)

/-- Both sides of a synchronized connection take the segment in. -/
theorem bothStates_turns (h : c.state.Synchronized) :
    Turns env .call .segment c g
      (tcpConnUpdateRecvState (tcpConnUpdateSendState env c g seg tsopt).1 seg tsopt).2
      (tcpConnUpdateSendState env c g seg tsopt).2 := by
  have h' : (tcpConnUpdateSendState env c g seg tsopt).1.state.Synchronized := by
    rwa [sendState_state]
  exact ((Act.sendState c g seg tsopt h).turns (.sendState env c g seg tsopt h)).trans
    ((Act.recvState _ _ seg tsopt h').turns (.recvState _ seg tsopt h'))

/-- A move into a closing state, with its timeout. -/
theorem moveTimeout_turns {st : TcpConnState} (h : Moves c.state st) :
    Turns env .call .segment c g (tcpConnSetInternalTimeout env { c with state := st } g).1
      (tcpConnSetInternalTimeout env { c with state := st } g).2 :=
  ((Act.move c g h).turns (.move c h)).trans ((Act.arm _ g).turns (internalTimeout_micro env _ g))

theorem handleEstablished_turns (h : c.state = .established) :
    Turns env .call .segment c g (tcpHandleReceiveEstablished env c g seg tsopt).conn
      (tcpHandleReceiveEstablished env c g seg tsopt).glob := by
  have hboth := bothStates_turns env c g seg tsopt (by rw [h]; decide)
  simp only [tcpHandleReceiveEstablished]
  split_ifs
  · exact (Act.reset c g (.inr (.inl h))).turns (.reset c (.inr (.inl h)))
  · have hmove : Moves (tcpConnUpdateRecvState (tcpConnUpdateSendState env c g seg tsopt).1 seg
        tsopt).2.state .closeWait := by
      rw [bothStates_state, h]
      exact Moves.closeWait
    exact (hboth.trans ((Act.move _ _ hmove).turns (.move _ hmove))).trans (replyAck_turns env _ _)
  · exact hboth.trans (replyAck_turns env _ _)
  · exact hboth

theorem handleFinWait2_turns (h : c.state = .finWait2) :
    Turns env .call .segment c g (tcpHandleReceiveFinWait2 env c g seg tsopt).conn
      (tcpHandleReceiveFinWait2 env c g seg tsopt).glob := by
  have hboth := bothStates_turns env c g seg tsopt (by rw [h]; decide)
  simp only [tcpHandleReceiveFinWait2]
  split_ifs
  · exact Turns.refl c g
  · exact hboth
  · refine (hboth.trans (moveTimeout_turns env _ _ ?_)).trans (replyAck_turns env _ _)
    rw [bothStates_state, h]
    exact Moves.timeWait (.inr (.inl rfl))

theorem handleTimeWait_turns (h : c.state = .timeWait) :
    Turns env .call .segment c g (tcpHandleReceiveTimeWait env c g seg tsopt).conn
      (tcpHandleReceiveTimeWait env c g seg tsopt).glob := by
  have hboth := bothStates_turns env c g seg tsopt (by rw [h]; decide)
  simp only [tcpHandleReceiveTimeWait]
  split_ifs
  · exact Turns.refl c g
  · exact hboth
  · exact hboth.trans (replyAck_turns env _ _)

/-- FIN_WAIT_1 moves first and takes the segment in afterwards. -/
theorem moveThenBoth_turns {st : TcpConnState} (h : Moves c.state st) (hst : st.Synchronized) :
    Turns env .call .segment c g (tcpConnUpdateRecvState (tcpConnUpdateSendState env
        (tcpConnSetInternalTimeout env { c with state := st } g).1
        (tcpConnSetInternalTimeout env { c with state := st } g).2 seg tsopt).1 seg tsopt).2
      (tcpConnUpdateSendState env (tcpConnSetInternalTimeout env { c with state := st } g).1
        (tcpConnSetInternalTimeout env { c with state := st } g).2 seg tsopt).2 :=
  (moveTimeout_turns env c g h).trans (bothStates_turns env _ _ seg tsopt hst)

theorem handleFinWait1_turns (h : c.state = .finWait1) :
    Turns env .call .segment c g (tcpHandleReceiveFinWait1 env c g seg tsopt).conn
      (tcpHandleReceiveFinWait1 env c g seg tsopt).glob := by
  simp only [tcpHandleReceiveFinWait1]
  split_ifs
  · exact Turns.refl c g
  · exact (moveThenBoth_turns env c g seg tsopt (h ▸ Moves.timeWait (.inl rfl))
      (by decide)).trans (replyAck_turns env _ _)
  · exact (moveThenBoth_turns env c g seg tsopt (h ▸ Moves.closing) (by decide)).trans
      (replyAck_turns env _ _)
  · exact moveThenBoth_turns env c g seg tsopt (h ▸ Moves.finWait2) (by decide)
  · exact Turns.refl c g

theorem handleClosing_turns (h : c.state = .closing) :
    Turns env .call .segment c g (tcpHandleReceiveClosing env c g seg tsopt).conn
      (tcpHandleReceiveClosing env c g seg tsopt).glob := by
  simp only [tcpHandleReceiveClosing]
  split_ifs
  · exact Turns.refl c g
  · exact Turns.refl c g
  · have hst : TcpConnState.timeWait.Synchronized := by decide
    exact (moveTimeout_turns env c g (h ▸ Moves.timeWait (.inr (.inr rfl)))).trans
      ((Act.sendState _ _ seg tsopt hst).turns (.sendState env _ _ seg tsopt hst))

/-- The send side touches nothing of the globals but the cached timer. -/
theorem sendState_glob : (tcpConnUpdateSendState env c g seg tsopt).2 = g ∨
    (tcpConnUpdateSendState env c g seg tsopt).2 =
      tcpTimerHint g (env.now + tcpConnPersistRtoMs) := by
  simp only [tcpConnUpdateSendState]
  generalize (if seg.ack = true then tcpConnTakeAck env c seg.ackNum tsopt else c) = d
  split_ifs
  · exact .inl rfl
  · exact .inr rfl
  · exact .inl rfl

theorem sendState_recvBufAvail :
    (tcpConnUpdateSendState env c g seg tsopt).2.recvBufAvail = g.recvBufAvail := by
  rcases sendState_glob env c g seg tsopt with h | h
  · rw [h]
  · rw [h, tcpTimerHint_recvBufAvail]

/-- An arriving segment is handled by updates of the connection. What is done besides is known where
a buffer is left for a connection that is not open yet, and the time of the segment is noted. -/
structure Handles (o : Outcome) : Prop where
  evolves : Evolves .segment c o.conn
  does : (¬c.state.Synchronized → g.recvBufAvail ≠ 0) → tcpConnNote env c = c →
    Does env .call c g o.conn o.glob

variable {env c g}

theorem Turns.handles {o : Outcome} (h : Turns env .call .segment c g o.conn o.glob) :
    Handles env c g o :=
  ⟨h.evolves, fun _ _ ↦ h.does⟩

variable (env c g)

theorem handleSynRcvd_handles (h : c.state = .synRcvd) :
    Handles env c g (tcpHandleReceiveSynRcvd env c g seg tsopt) := by
  simp only [tcpHandleReceiveSynRcvd]
  split_ifs with hr ha hn hbuf
  · exact (Turns.refl c g).handles
  · exact (Turns.refl c g).handles
  · exact (Turns.refl c g).handles
  all_goals rw [sendState_recvBufAvail] at hbuf
  all_goals have hack : seg.ack = true := by simpa using ha
  all_goals have hnum : seg.ackNum = c.iss + 1 := not_not.mp hn
  · refine ⟨?_, fun hleft ↦ absurd hbuf (hleft (by rw [h]; decide))⟩
    obtain ⟨f, hf, -⟩ :=
      tcpConnUpdateSendState_spec env { c with state := .established } g seg tsopt
    have hm := Micro.handshake env c g seg tsopt .established .established c.recvBuf
      c.recvNext (.inr h) hack hnum (.inl rfl) (.inr rfl)
    rw [hf] at hm ⊢
    exact hm.evolves.trans (tcpSendSegment_turns (.empty advance_rst)).evolves
  · exact ⟨tcpOpenPassive_evolves h hack hnum, fun _ hnote ↦
      (Act.openPassive c g seg tsopt h hack hnum hbuf hnote).does⟩

theorem handleSynSent_handles (h : c.state = .synSent) :
    Handles env c g (tcpHandleReceiveSynSent env c g seg tsopt) := by
  simp only [tcpHandleReceiveSynSent, tcpSynSentOpen]
  split_ifs with hr ha hn hbuf
  · exact ((Act.reset c g (.inl h)).turns (.reset c (.inl h))).handles
  · exact (Turns.refl c g).handles
  · exact (tcpSendSegment_turns (.empty advance_rst)).handles
  all_goals rw [sendState_recvBufAvail] at hbuf
  all_goals have hack : seg.ack = true := by grind
  all_goals have hnum : seg.ackNum = c.iss + 1 := not_not.mp hn
  · refine ⟨?_, fun hleft ↦ absurd hbuf (hleft (by rw [h]; decide))⟩
    obtain ⟨f, hf, -⟩ := tcpConnUpdateSendState_spec env c g seg tsopt
    obtain ⟨useTs, tsRecent, hts⟩ := negotiateTs_eq
      { (tcpConnUpdateSendState env c g seg tsopt).1 with recvNext := seg.seqNum + 1 } tsopt
    have hm := Micro.handshake env c g seg tsopt c.state .reset c.recvBuf (seg.seqNum + 1)
      (.inl h) hack hnum (.inr rfl) (.inr rfl)
    rw [hts]
    rw [hf] at hm ⊢
    refine Evolves.trans ?_ (sendEmptyThenState_evolves env _ _ advance_rst .reset)
    exact hm.evolves.then (timeout_ts_micro _ c.internalTimeout useTs tsRecent)
  · have hreply := replyAck_turns (k := .segment) env (tcpOpenActive env c g seg tsopt).1
      (tcpOpenActive env c g seg tsopt).2
    exact ⟨(tcpOpenActive_evolves h hack hnum).trans hreply.evolves, fun _ hnote ↦
      (Act.openActive c g seg tsopt h hack hnum hbuf hnote).does.trans hreply.does⟩

/-- **Arriving segments.** Whatever the state, the handler is a chain of updates. -/
theorem tcpDispatch_handles : Handles env c g (tcpDispatch env c g seg tsopt) := by
  rw [tcpDispatch]
  cases h : c.state with
  | listen | reset => exact (Turns.refl c g).handles
  | synSent => exact handleSynSent_handles env c g seg tsopt h
  | synRcvd => exact handleSynRcvd_handles env c g seg tsopt h
  | established => exact (handleEstablished_turns env c g seg tsopt h).handles
  | closeWait => exact (noqueue_turns env c g tcpHdrFlagAck c.sendNext 0 []).handles
  | lastAck =>
    simp only [tcpHandleReceiveLastAck]
    split_ifs <;> exact (Turns.refl c g).handles
  | finWait1 => exact (handleFinWait1_turns env c g seg tsopt h).handles
  | finWait2 => exact (handleFinWait2_turns env c g seg tsopt h).handles
  | closing => exact (handleClosing_turns env c g seg tsopt h).handles
  | timeWait => exact (handleTimeWait_turns env c g seg tsopt h).handles

theorem tcpConnParse_turns : Turns env .call .segment c g (tcpConnParse env c seg).1 g := by
  have hnote := (Act.note c g).turns (tcpConnNote_micro (k := .segment) env c)
  simp only [tcpConnParse]
  split_ifs
  · exact hnote.trans ((Act.options _ g seg.flags seg.options).turns (.options ..))
  · exact hnote

/-- The SYN-ACK, once the timeout is set. -/
theorem tcpListenReply_does (hst : c.state = .synRcvd) (hiss : c.sendNext = c.iss) :
    Does env .call (tcpConnSetInternalTimeout env c g).1 (tcpConnSetInternalTimeout env c g).2
      (tcpListenReply env c g tsopt).2.1 (tcpListenReply env c g tsopt).2.2 := by
  have hnego : Does env .call (tcpConnSetInternalTimeout env c g).1 _
      (negotiateTs (tcpConnSetInternalTimeout env c g).1 tsopt) _ :=
    (Act.negotiate _ (tcpConnSetInternalTimeout env c g).2 tsopt).does
  obtain ⟨useTs, tsRecent, hts⟩ := negotiateTs_eq (tcpConnSetInternalTimeout env c g).1 tsopt
  rw [tcpListenReply]
  dsimp only
  rw [hts] at hnego ⊢
  exact hnego.trans (Turns.does (k := .other)
    (tcpSendSegment_turns (.syn (.inr hst) hiss (by decide))))

/-! ## The timer service -/

/-- What a transmission without an entry leaves. -/
structure Handed (env : NetEnv) (c : TcpConn) (g : Globals) (d : TcpConn) (g' : Globals) :
    Prop where
  conn : ∃ window ackSent, d = { c with recvWindowSizeReal := window, lastAckSent := ackSent }
  pool : g'.sbqAvail = g.sbqAvail
  does : ∀ p, Does env p c g d g'

theorem noqueue_handed (flags : U8) (seqNum : U32) (cksum : U16) (payload : List U8) :
    Handed env c g (tcpSendSegmentNoqueue env c g flags seqNum cksum payload).2.1
      (tcpSendSegmentNoqueue env c g flags seqNum cksum payload).2.2 :=
  ⟨tcpSendSegmentNoqueue_conn env c g flags seqNum cksum payload,
    tcpSendSegmentNoqueue_sbqAvail env c g flags seqNum cksum payload,
    fun _ ↦ noqueue_does env c g flags seqNum cksum payload⟩

/-- **The walk over a queue**, entry by entry. -/
inductive Retransmits (env : NetEnv) (c : TcpConn) :
    Globals → List SendBufQueue → Outcome → Prop
  | done (g : Globals) : Retransmits env c g []
      { res := resultOk, conn := { c with sendQueue := [] }, glob := g }
  | giveUp {g g' : Globals} {sbq : SendBufQueue} {rest : List SendBufQueue} {d : TcpConn}
      (hn : sbq.nTransmissions > 8) (hu : tcpConnNeedsUserClose c = true)
      (h : Handed env { c with state := .reset, sendQueue := sbq :: rest } g d g') :
      Retransmits env c g (sbq :: rest) { res := resultOk, conn := d, glob := g' }
  | free {g : Globals} {sbq : SendBufQueue} {rest : List SendBufQueue}
      (hn : sbq.nTransmissions > 8) (hu : ¬tcpConnNeedsUserClose c = true) :
      Retransmits env c g (sbq :: rest)
        { res := resultOk, conn := { c with sendQueue := sbq :: rest }, glob := g, freed := true }
  | acked {g : Globals} {sbq : SendBufQueue} {rest : List SendBufQueue} {o : Outcome}
      (hn : ¬sbq.nTransmissions > 8) (ha : seqGeq c.sendUnack sbq.requiredAck = true)
      (h : Retransmits env c { g with sbqAvail := g.sbqAvail + 1 } rest o) :
      Retransmits env c g (sbq :: rest) o
  | failed {g g' : Globals} {sbq : SendBufQueue} {rest : List SendBufQueue} {d : TcpConn}
      (hn : ¬sbq.nTransmissions > 8) (ha : ¬seqGeq c.sendUnack sbq.requiredAck = true) (e : Errno)
      (h : Handed env { c with sendQueue := sbq :: rest } g d g') (hsends : ¬env.Sends) :
      Retransmits env c g (sbq :: rest) { res := .error e, conn := d, glob := g' }
  | resent {g g' : Globals} {sbq : SendBufQueue} {rest : List SendBufQueue} {d x : TcpConn}
      (hn : ¬sbq.nTransmissions > 8) (ha : ¬seqGeq c.sendUnack sbq.requiredAck = true)
      (h : Handed env { c with sendQueue := sbq :: rest } g d g')
      (hx : x = { d with sendQueue := sbq.resent env.now :: rest } ∨
        x = tcpCcRenoOnTimeout { d with sendQueue := sbq.resent env.now :: rest }) :
      Retransmits env c g (sbq :: rest)
        { res := resultOk
          conn := x
          glob := tcpTimerHint g' (env.now + (sbq.resent env.now).retryAfter) }
  | wait {g : Globals} {sbq : SendBufQueue} {rest : List SendBufQueue}
      (hn : ¬sbq.nTransmissions > 8) (ha : ¬seqGeq c.sendUnack sbq.requiredAck = true)
      (hd : ¬env.now ≥ sbq.lastTry + sbq.retryAfter) :
      Retransmits env c g (sbq :: rest)
        { res := resultOk, conn := { c with sendQueue := sbq :: rest }, glob := g }

theorem tcpPollRetransmitQueue_retransmits (q : List SendBufQueue) :
    Retransmits env c g q (tcpPollRetransmitQueue env c g q) := by
  induction q generalizing g with
  | nil => exact .done g
  | cons sbq rest ih =>
    rw [tcpPollRetransmitQueue]
    split_ifs with hn hu ha hd
    · have hsent := noqueue_handed env { c with state := .reset, sendQueue := sbq :: rest } g
        tcpHdrFlagRst sbq.seqNum sbq.checksum sbq.payload
      exact .giveUp hn hu hsent
    · exact .free hn hu
    · exact .acked hn ha (ih _)
    · have hsent := noqueue_handed env { c with sendQueue := sbq :: rest } g sbq.flags sbq.seqNum
        sbq.checksum sbq.payload
      have hsends : env.Sends → _ := fun hs ↦ hs.noqueue { c with sendQueue := sbq :: rest } g
        sbq.flags sbq.seqNum sbq.checksum sbq.payload
      dsimp only
      generalize tcpSendSegmentNoqueue env { c with sendQueue := sbq :: rest } g sbq.flags
        sbq.seqNum sbq.checksum sbq.payload = sent at hsent hsends ⊢
      obtain ⟨res, d, g'⟩ := sent
      cases res with
      | error e => exact .failed hn ha e hsent fun hs ↦ by cases hsends hs
      | ok u =>
        refine .resent hn ha hsent ?_
        split_ifs
        · exact .inr rfl
        · exact .inl rfl
    · exact .wait hn ha hd

theorem Retransmits.does {env : NetEnv} {c : TcpConn} {g : Globals} {q : List SendBufQueue}
    {o : Outcome} (h : Retransmits env c g q o) (hr : c.state ≠ .reset) :
    Does env .timer { c with sendQueue := q } g o.conn o.glob := by
  induction h with
  | done g => exact Does.refl _ g
  | @giveUp g g' sbq rest d hn hu h =>
    have hst : c.state = .synSent ∨ c.state = .established ∨ c.state = .closeWait := by
      simp only [tcpConnNeedsUserClose, Bool.or_eq_true, beq_iff_eq] at hu
      tauto
    exact (Act.reset { c with sendQueue := sbq :: rest } g hst).does.trans (h.does _)
  | free | wait => exact Does.refl _ _
  | @acked g sbq rest o hn ha _ ih =>
    exact (Act.release { c with sendQueue := sbq :: rest } g sbq rest rfl ha).does.trans ih
  | failed _ _ e h => exact h.does _
  | @resent g g' sbq rest d x hn _ h hx =>
    obtain ⟨window, ackSent, hconn⟩ := h.conn
    have hre := (h.does .timer).then
      (.resend d g' sbq rest (congrArg TcpConn.sendQueue hconn) (not_lt.mp hn))
    rcases hx with rfl | rfl
    · exact hre
    · exact hre.then (.collapse _ _)

/-- The probes of a service call leave the queue as it is, and what decides about its entries. -/
structure Probes (env : NetEnv) (c : TcpConn) (g : Globals) (d : TcpConn) (g' : Globals) :
    Prop where
  state : d.state = c.state
  sendQueue : d.sendQueue = c.sendQueue
  sendUnack : d.sendUnack = c.sendUnack
  internalTimeout : d.internalTimeout = c.internalTimeout
  sendWindowReal : d.sendWindowReal = c.sendWindowReal
  pool : g'.sbqAvail = g.sbqAvail
  does : Does env .timer c g d g'

theorem Probes.send {d e : TcpConn} {g' g'' : Globals} (h : Probes env c g d g')
    (hsent : Handed env d g' e g'') : Probes env c g e g'' := by
  have hdoes := h.does.trans (hsent.does _)
  have hpool := hsent.pool.trans h.pool
  obtain ⟨window, ackSent, rfl⟩ := hsent.conn
  exact ⟨h.state, h.sendQueue, h.sendUnack, h.internalTimeout, h.sendWindowReal, hpool, hdoes⟩

/-- **The service of one connection.** Keep-alive gives up, or a probe cannot be sent, or the probes
that are due are sent and the queue is walked. -/
inductive Served (env : NetEnv) (c : TcpConn) (g : Globals) : Outcome → Prop
  | dead (hst : c.state = .established) (hidle : env.now - c.lastActivityMs ≥ keepaliveIdle c)
      (hcnt : c.keepaliveProbes ≥ tcpConnKeepaliveCnt) :
      Served env c g { res := resultOk, conn := { c with state := .reset }, glob := g }
  | failed {d : TcpConn} {g' : Globals} (e : Errno) (h : Probes env c g d g')
      (hsends : ¬env.Sends) : Served env c g { res := .error e, conn := d, glob := g' }
  | walk {d : TcpConn} {g' : Globals} (h : Probes env c g d g')
      (hdead : ¬(c.state = .established ∧ env.now - c.lastActivityMs ≥ keepaliveIdle c ∧
        c.keepaliveProbes ≥ tcpConnKeepaliveCnt))
      (halive : d.state = .established → d.lastActivityMs = env.now ∨
        ¬env.now - d.lastActivityMs ≥ keepaliveIdle d)
      (hpersist : d.state = .established → d.zeroWindowSinceMs ≠ 0 →
        d.zeroWindowSinceMs = env.now ∨ d.zeroWindowSinceMs = c.zeroWindowSinceMs ∧
          ¬(c.sendWindowReal = 0 ∧ env.now - d.zeroWindowSinceMs ≥ tcpConnPersistRtoMs)) :
      Served env c g (tcpPollRetransmitQueue env d g' d.sendQueue)

/-- The zero-window probe, after the keep-alive check has made `d` of the connection. -/
theorem tcpPollPersist_served {d : TcpConn} {g' : Globals} (h : Probes env c g d g')
    (hdead : ¬(c.state = .established ∧ env.now - c.lastActivityMs ≥ keepaliveIdle c ∧
      c.keepaliveProbes ≥ tcpConnKeepaliveCnt))
    (halive : d.state = .established → d.lastActivityMs = env.now ∨
      ¬env.now - d.lastActivityMs ≥ keepaliveIdle d)
    (hzero : d.zeroWindowSinceMs = c.zeroWindowSinceMs) :
    Served env c g (tcpPollPersist env d g') := by
  rw [tcpPollPersist]
  split_ifs with hp
  · obtain ⟨hst, -, hwin, -⟩ := hp
    split
    · exact .walk
        { h with does := h.does.then (.persist d g' hwin hst) } hdead halive fun _ _ ↦ .inl rfl
    · rename_i first rest _
      have hsent := noqueue_handed env d g' first.flags first.seqNum first.checksum first.payload
      have hsends : env.Sends → _ := fun hs ↦
        hs.noqueue d g' first.flags first.seqNum first.checksum first.payload
      generalize tcpSendSegmentNoqueue env d g' first.flags first.seqNum first.checksum
        first.payload = sent at hsent hsends ⊢
      obtain ⟨res, x, g''⟩ := sent
      have hprobes := Probes.send env c g h hsent
      obtain ⟨window, ackSent, rfl⟩ := hsent.conn
      cases res with
      | error e => exact .failed e hprobes fun hs ↦ by cases hsends hs
      | ok u =>
        exact .walk { hprobes with does := hprobes.does.then (.persist _ g'' hwin hst) } hdead
          halive fun _ _ ↦ .inl rfl
  · refine .walk h hdead halive fun hst hz ↦ .inr ⟨hzero, ?_⟩
    rintro ⟨hwin, hle⟩
    exact hp ⟨hst, hz, h.sendWindowReal.trans hwin, hle⟩

theorem tcpPollRetransmitConn_served : Served env c g (tcpPollRetransmitConn env c g) := by
  have hself : Probes env c g c g := ⟨rfl, rfl, rfl, rfl, rfl, rfl, Does.refl c g⟩
  rw [tcpPollRetransmitConn]
  split_ifs with hk hcnt
  · exact .dead hk.1 hk.2 hcnt
  · have hsent := noqueue_handed env c g tcpHdrFlagAck (c.sendNext - 1) 0 []
    have hsends : env.Sends → _ := fun hs ↦ hs.noqueue c g tcpHdrFlagAck (c.sendNext - 1) 0 []
    generalize tcpSendSegmentNoqueue env c g tcpHdrFlagAck (c.sendNext - 1) 0 [] = sent
      at hsent hsends ⊢
    obtain ⟨res, x, g'⟩ := sent
    have hprobes := Probes.send env c g hself hsent
    obtain ⟨window, ackSent, rfl⟩ := hsent.conn
    cases res with
    | error e => exact .failed e hprobes fun hs ↦ by cases hsends hs
    | ok u =>
      exact tcpPollPersist_served env c g { hprobes with does := hprobes.does.then (.probe _ g') }
        (fun hd ↦ hcnt hd.2.2) (fun _ ↦ .inl rfl) rfl
  · exact tcpPollPersist_served env c g hself (fun hd ↦ hk ⟨hd.1, hd.2.1⟩)
      (fun hst ↦ .inr fun hle ↦ hk ⟨hst, hle⟩) rfl

/-- **The timer service.** -/
theorem tcpPollRetransmitConn_does (hr : c.state ≠ .reset) :
    Does env .timer c g (tcpPollRetransmitConn env c g).conn
      (tcpPollRetransmitConn env c g).glob := by
  have hserved := tcpPollRetransmitConn_served env c g
  generalize tcpPollRetransmitConn env c g = o at hserved ⊢
  cases hserved with
  | dead hst => exact (Act.reset c g (.inr (.inl hst))).does
  | failed e h => exact h.does
  | walk h =>
    have hwalk := tcpPollRetransmitQueue_retransmits env
    exact h.does.trans ((hwalk _ _ _).does fun hd ↦ hr (h.state.symm.trans hd))

/-! ## The user calls -/

theorem tcpConnSendLoop_turns (len fuel : ℕ) (c : TcpConn) (g : Globals) (rest : List U8)
    (nSent : ℕ) (hu : tcpConnNeedsUserClose c = true) (hlen : len ≤ c.mss) :
    Turns env .call k c g (tcpConnSendLoop env len fuel c g rest nSent).2.1
      (tcpConnSendLoop env len fuel c g rest nSent).2.2 := by
  have hdata : ∀ {c : TcpConn} {g : Globals} {rest : List U8},
      tcpConnNeedsUserClose c = true → len ≤ c.mss →
      ¬tcpSendWindowAvail c < min rest.length len →
      Turns env .call k c g (tcpSendSegment env c g tcpHdrFlagAck (rest.take len)).2.1
        (tcpSendSegment env c g tcpHdrFlagAck (rest.take len)).2.2 := by
    intro c g rest hu hlen havail
    refine tcpSendSegment_turns (.data ?_ hu ((List.length_take_le _ _).trans hlen))
    rw [List.length_take, min_comm]
    exact not_lt.mp havail
  fun_induction tcpConnSendLoop env len fuel c g rest nSent with
  | case1 | case2 | case3 => exact Turns.refl _ _
  | case4 fuel c g rest nSent _ havail fragment e c' g' hs =>
    have h := hdata (g := g) hu hlen havail
    rwa [show rest.take len = fragment from rfl, hs] at h
  | case5 fuel c g rest nSent _ havail fragment u c' g' hs ih =>
    have h := hdata (g := g) hu hlen havail
    rw [hs] at h
    have hkeep : tcpConnNeedsUserClose c' = true ∧ len ≤ c'.mss := by
      rcases tcpSendSegment_conn env c g tcpHdrFlagAck fragment with heq | ⟨window, ackSent, heq⟩
      · rw [hs] at heq
        exact (show c' = c from heq) ▸ ⟨hu, hlen⟩
      · rw [hs] at heq
        rw [show c' = _ from heq]
        exact ⟨hu, hlen⟩
    exact h.trans (ih hkeep.1 hkeep.2)

theorem tcpConnSendLocked_turns (payload : List U8) (ipMtu : ℕ)
    (hu : tcpConnNeedsUserClose c = true) :
    Turns env .call k c g (tcpConnSendLocked env c g payload ipMtu).2.1
      (tcpConnSendLocked env c g payload ipMtu).2.2 := by
  simp only [tcpConnSendLocked]
  split_ifs
  · exact Turns.refl c g
  · exact tcpConnSendLoop_turns env _ _ c g _ _ hu
      ((min_le_left _ _).trans (min_le_right _ _))

theorem tcpConnSendFin_turns {st : TcpConnState}
    (h : (c.state = .established ∧ st = .finWait1) ∨ (c.state = .closeWait ∧ st = .lastAck)) :
    Turns env .call k c g (tcpConnSendFin env c g st).conn (tcpConnSendFin env c g st).glob := by
  simp only [tcpConnSendFin, replyEmpty, tcpSendSegmentEmpty]
  have hsbq : (tcpConnSetInternalTimeout env { c with state := st } g).2.sbqAvail = g.sbqAvail :=
    tcpTimerHint_sbqAvail g _
  by_cases hg : g.sbqAvail = 0
  · rw [tcpSendSegment, if_pos (hsbq.trans hg)]
    exact ⟨(Act.finUnsent c g h).does,
      (Micro.finUnsent c h).evolves.then (internalTimeout_micro env _ g)⟩
  · rw [tcpSendSegment_eq (by rwa [hsbq])]
    refine Turns.trans ⟨(Act.fin c g hg h rfl).does, ?_⟩ (noqueue_turns env _ _ _ _ _ _)
    exact (Micro.queueFin env c h).evolves.then (internalTimeout_micro env _ g)

theorem tcpConnCloseLocked_turns :
    Turns env .call k c g (tcpConnCloseLocked env c g).conn (tcpConnCloseLocked env c g).glob := by
  rw [tcpConnCloseLocked]
  split
  · exact Turns.refl c g
  · exact Turns.refl c g
  · exact Turns.refl c g
  · exact Turns.refl c g
  · exact tcpConnSendFin_turns env c g (.inl ⟨‹_›, rfl⟩)
  · exact tcpConnSendFin_turns env c g (.inr ⟨‹_›, rfl⟩)
  · exact Turns.refl c g

end

end Mazu.Tcp
