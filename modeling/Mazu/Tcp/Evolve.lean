import Mathlib.Logic.Relation
import Mazu.Tcp.Step

/-!
# What a call can do to a connection

`Micro` lists the updates the module makes to a connection it keeps. Every handler, the timer
service and the user calls are chains of them, so an invariant of a connection is checked once per
update and not once per handler. The guards are what the callers have tested at that point.
-/

namespace Mazu.Tcp

/-- The handshake is over, so that windows and acknowledgements are processed. -/
def TcpConnState.Synchronized (st : TcpConnState) : Prop :=
  st ≠ .listen ∧ st ≠ .synSent ∧ st ≠ .synRcvd

instance (st : TcpConnState) : Decidable st.Synchronized := inferInstanceAs (Decidable (_ ∧ _))

theorem synchronized_established : TcpConnState.established.Synchronized := by decide

theorem synchronized_reset : TcpConnState.reset.Synchronized := by decide

/-- The moves between states that an arriving segment makes after the handshake. -/
inductive Moves : TcpConnState → TcpConnState → Prop
  | closeWait : Moves .established .closeWait
  | timeWait {st : TcpConnState} (h : st = .finWait1 ∨ st = .finWait2 ∨ st = .closing) :
      Moves st .timeWait
  | closing : Moves .finWait1 .closing
  | finWait2 : Moves .finWait1 .finWait2

/-- Why a connection is updated: a segment arrived for it, the user reads from it, or neither. -/
inductive Cause
  | segment
  | read
  | other

/-- One update of a connection that stays in its slot. What the acknowledgements and the data of the
peer do has the cause `segment`, and taking bytes out has the cause `read`; the rest may happen in
any call. -/
inductive Micro : Cause → TcpConn → TcpConn → Prop
  /-- Fields that no invariant of the send or receive side speaks about. -/
  | inert {k : Cause} (c : TcpConn) (mss window : ℕ) (timeout activity : U64)
      (probes ackSent tsRecent : U32) (useTs : Bool) (ready : U32) :
      Micro k c { c with
        mss := mss, recvWindowSizeReal := window, internalTimeout := timeout
        lastActivityMs := activity, keepaliveProbes := probes, lastAckSent := ackSent
        tsRecent := tsRecent, useTimeStamps := useTs, acceptReady := ready }
  | options (c : TcpConn) (flags : U8) (opts : List U8) :
      Micro .segment c (tcpHandleOptions c flags opts).1
  | move (c : TcpConn) {st : TcpConnState} (h : Moves c.state st) :
      Micro .segment c { c with state := st }
  | reset {k : Cause} (c : TcpConn)
      (h : c.state = .synSent ∨ c.state = .established ∨ c.state = .closeWait) :
      Micro k c { c with state := .reset }
  | sendState (env : NetEnv) (c : TcpConn) (g : Globals) (seg : Segment) (tsopt : TsOpt)
      (h : c.state.Synchronized) :
      Micro .segment c (tcpConnUpdateSendState env c g seg tsopt).1
  | recvState (c : TcpConn) (seg : Segment) (tsopt : TsOpt) (h : c.state.Synchronized) :
      Micro .segment c (tcpConnUpdateRecvState c seg tsopt).2
  /-- The peer's acknowledgement of our SYN ends the handshake. One handler sets the state before
  the send side is updated, the other after it. -/
  | handshake (env : NetEnv) (c : TcpConn) (g : Globals) (seg : Segment) (tsopt : TsOpt)
      (st₀ st : TcpConnState) (buf : RecvBuf) (recvNext : U32)
      (h : c.state = .synSent ∨ c.state = .synRcvd) (hack : seg.ack = true)
      (hnum : seg.ackNum = c.iss + 1) (hst : st = .established ∨ st = .reset)
      (hbuf : buf = recvBufNew ∨ buf = c.recvBuf) :
      Micro .segment c { (tcpConnUpdateSendState env { c with state := st₀ } g seg tsopt).1 with
        state := st, recvBuf := buf, recvNext := recvNext }
  /-- A queued segment that takes no sequence number. -/
  | queueEmpty {k : Cause} (env : NetEnv) (c : TcpConn) (flags : U8)
      (h : tcpSegmentAdvance flags [] = 0) :
      Micro k c { c with sendQueue := c.sendQueue ++ [tcpNewSbq env c flags []] }
  /-- Our SYN. -/
  | queueSyn {k : Cause} (env : NetEnv) (c : TcpConn) (flags : U8)
      (h : c.state = .synSent ∨ c.state = .synRcvd) (hiss : c.sendNext = c.iss)
      (hadv : tcpSegmentAdvance flags [] = 1) :
      Micro k c { c with
        sendNext := c.sendNext + 1
        sendQueue := c.sendQueue ++ [tcpNewSbq env c flags []] }
  /-- Data within the window. -/
  | queueData {k : Cause} (env : NetEnv) (c : TcpConn) (fragment : List U8)
      (h : fragment.length ≤ tcpSendWindowAvail c) (huser : tcpConnNeedsUserClose c) :
      Micro k c { c with
        sendNext := (tcpNewSbq env c tcpHdrFlagAck fragment).requiredAck
        sendQueue := c.sendQueue ++ [tcpNewSbq env c tcpHdrFlagAck fragment] }
  /-- Our FIN, and the state that goes with it. -/
  | queueFin {k : Cause} (env : NetEnv) (c : TcpConn) {st : TcpConnState}
      (h : (c.state = .established ∧ st = .finWait1) ∨ (c.state = .closeWait ∧ st = .lastAck)) :
      Micro k c { c with
        state := st
        sendNext := c.sendNext + 1
        sendQueue := c.sendQueue ++ [tcpNewSbq env c (tcpHdrFlagFin ||| tcpHdrFlagAck) []] }
  /-- The state of our FIN, when no queue entry was left for it. -/
  | finUnsent {k : Cause} (c : TcpConn) {st : TcpConnState}
      (h : (c.state = .established ∧ st = .finWait1) ∨ (c.state = .closeWait ∧ st = .lastAck)) :
      Micro k c { c with state := st }
  /-- The walk releases a front part of the queue, all of it acknowledged. -/
  | release {k : Cause} (c : TcpConn) (done rest : List SendBufQueue)
      (h : c.sendQueue = done ++ rest)
      (hdone : ∀ sbq ∈ done, seqGeq c.sendUnack sbq.requiredAck = true) :
      Micro k c { c with sendQueue := rest }
  /-- The first entry was sent again. -/
  | retransmit {k : Cause} (env : NetEnv) (c : TcpConn) (sbq : SendBufQueue)
      (rest : List SendBufQueue) (h : c.sendQueue = sbq :: rest) (hn : sbq.nTransmissions ≤ 8) :
      Micro k c { c with sendQueue := { sbq with
        nTransmissions := sbq.nTransmissions + 1
        retryAfter := sbq.retryAfter * 2
        lastTry := env.now } :: rest }
  | timeout {k : Cause} (c : TcpConn) : Micro k c (tcpCcRenoOnTimeout c)
  | probe {k : Cause} (c : TcpConn) (now : U64) (h : c.sendWindowReal = 0) :
      Micro k c { c with zeroWindowSinceMs := now }
  | read (c : TcpConn) (dest : ByteBuf) :
      Micro .read c { c with recvBuf := (recvBufRead c.recvBuf dest).2.1 }

/-- Any number of updates with one cause. -/
def Evolves (k : Cause) : TcpConn → TcpConn → Prop := Relation.ReflTransGen (Micro k)

section

variable {k : Cause} {c c' c'' : TcpConn}

theorem Evolves.refl (c : TcpConn) : Evolves k c c := Relation.ReflTransGen.refl

theorem Evolves.trans (h : Evolves k c c') (h' : Evolves k c' c'') : Evolves k c c'' :=
  Relation.ReflTransGen.trans h h'

theorem Micro.evolves (h : Micro k c c') : Evolves k c c' := Relation.ReflTransGen.single h

theorem Evolves.then (h : Evolves k c c') (h' : Micro k c' c'') : Evolves k c c'' :=
  Relation.ReflTransGen.tail h h'

/-- **The invariant rule for connections.** -/
theorem Evolves.invariant {P : TcpConn → Prop} (hmicro : ∀ c c', P c → Micro k c c' → P c')
    (h : Evolves k c c') (hc : P c) : P c' := by
  induction h with
  | refl => exact hc
  | tail _ hm ih => exact hmicro _ _ ih hm

end

variable {k : Cause}

/-! ## Sending -/

/-- The time of the last activity and the keep-alive probes since. -/
theorem activity_micro (c : TcpConn) (activity : U64) (probes : U32) :
    Micro k c { c with keepaliveProbes := probes, lastActivityMs := activity } :=
  .inert ..

/-- The window and the last acknowledgement sent. -/
theorem window_micro (c : TcpConn) (window : ℕ) (ackSent : U32) :
    Micro k c { c with recvWindowSizeReal := window, lastAckSent := ackSent } :=
  .inert ..

section

variable (env : NetEnv) (c : TcpConn) (g : Globals) (flags : U8) (seqNum : U32) (cksum : U16)
  (payload : List U8)

/-- A transmission changes the window and the last acknowledgement sent, and nothing else. -/
theorem tcpSendSegmentNoqueue_conn :
    ∃ window ackSent, (tcpSendSegmentNoqueue env c g flags seqNum cksum payload).2.1 =
      { c with recvWindowSizeReal := window, lastAckSent := ackSent } := by
  have hopen : ∃ window, tcpConnOpenWindow c = { c with recvWindowSizeReal := window } := by
    simp only [tcpConnOpenWindow]
    split_ifs <;> exact ⟨_, rfl⟩
  obtain ⟨window, hw⟩ := hopen
  by_cases hf : hasFlag flags tcpHdrFlagAck = true
  · exact ⟨window, c.recvNext, by simp [tcpSendSegmentNoqueue, hw, hf]⟩
  · exact ⟨window, c.lastAckSent, by simp [tcpSendSegmentNoqueue, hw, hf]⟩

theorem tcpSendSegmentNoqueue_spec :
    ∃ res window ackSent log, tcpSendSegmentNoqueue env c g flags seqNum cksum payload =
      (res, { c with recvWindowSizeReal := window, lastAckSent := ackSent },
        { g with txTries := g.txTries + 1, txLog := log }) ∧
      Except.isOk res = env.sendsAt g.txTries := by
  obtain ⟨window, ackSent, hconn⟩ := tcpSendSegmentNoqueue_conn env c g flags seqNum cksum payload
  simp only [tcpSendSegmentNoqueue] at hconn ⊢
  generalize (if hasFlag flags tcpHdrFlagAck = true then
    { tcpConnOpenWindow c with lastAckSent := (tcpConnOpenWindow c).recvNext }
    else tcpConnOpenWindow c) = d at hconn ⊢
  obtain ⟨res, log, heq, hok⟩ := tcpSendSegmentNoqueueRaw_spec env g d.hostAddr d.peerAddr d.hostPort
    d.peerPort seqNum d.recvNext d.recvWindowSizeReal 0 d.useWindowScale flags cksum payload
    d.tsRecent d.useTimeStamps
  rw [heq]
  exact ⟨res, window, ackSent, log, by rw [hconn], hok⟩

theorem tcpSendSegmentNoqueue_micro :
    Micro k c (tcpSendSegmentNoqueue env c g flags seqNum cksum payload).2.1 := by
  obtain ⟨window, ackSent, h⟩ := tcpSendSegmentNoqueue_conn env c g flags seqNum cksum payload
  rw [h]
  exact window_micro c window ackSent

end

/-- A segment that goes through the queue is queued and then sent, or refused without a trace. -/
theorem tcpSendSegment_conn (env : NetEnv) (c : TcpConn) (g : Globals) (flags : U8)
    (fragment : List U8) :
    (tcpSendSegment env c g flags fragment).2.1 = c ∨
      ∃ window ackSent, (tcpSendSegment env c g flags fragment).2.1 =
        { c with
          sendNext := (tcpNewSbq env c flags fragment).requiredAck
          sendQueue := c.sendQueue ++ [tcpNewSbq env c flags fragment]
          recvWindowSizeReal := window
          lastAckSent := ackSent } := by
  by_cases hg : g.sbqAvail = 0
  · exact .inl (by simp [tcpSendSegment, hg])
  · rw [tcpSendSegment, if_neg hg]
    exact .inr (tcpSendSegmentNoqueue_conn env _ _ _ _ _ _)

theorem advance_ack : tcpSegmentAdvance tcpHdrFlagAck [] = 0 := by decide

theorem advance_rst : tcpSegmentAdvance tcpHdrFlagRst [] = 0 := by decide

/-! ## What the handlers do first -/

section

variable (env : NetEnv) (c : TcpConn) (g : Globals) (seg : Segment) (tsopt : TsOpt)

theorem sendState_state :
    (tcpConnUpdateSendState env c g seg tsopt).1.state = c.state := by
  obtain ⟨f, hf, -⟩ := tcpConnUpdateSendState_spec env c g seg tsopt
  rw [hf]
  rfl

theorem recvState_state : (tcpConnUpdateRecvState c seg tsopt).2.state = c.state := by
  obtain ⟨f, hf⟩ := tcpConnUpdateRecvState_same c seg tsopt
  rw [hf]
  rfl

theorem bothStates_state :
    (tcpConnUpdateRecvState (tcpConnUpdateSendState env c g seg tsopt).1 seg tsopt).2.state
      = c.state := by
  rw [recvState_state, sendState_state]

theorem internalTimeout_micro : Micro k c (tcpConnSetInternalTimeout env c g).1 :=
  .inert ..

theorem negotiateTs_eq : ∃ useTs tsRecent,
    negotiateTs c tsopt = { c with useTimeStamps := useTs, tsRecent := tsRecent } := by
  rw [negotiateTs]
  split_ifs <;> exact ⟨_, _, rfl⟩

/-- The timeout and the timestamps. -/
theorem timeout_ts_micro (timeout : U64) (useTs : Bool) (tsRecent : U32) :
    Micro k c { c with
      internalTimeout := timeout, useTimeStamps := useTs, tsRecent := tsRecent } :=
  .inert ..

theorem tcpConnNote_micro : Micro k c (tcpConnNote env c) := activity_micro c env.now 0

end

end Mazu.Tcp
