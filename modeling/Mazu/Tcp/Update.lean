import Mazu.Lib.Serial
import Mazu.Tcp.Basic

/-!
# Updating a connection from an arriving segment

The sequence number comparisons, the round-trip estimate, Reno congestion control, and the two
helpers `tcp_conn_update_send_state` and `tcp_conn_update_recv_state` that the state handlers share.
-/

namespace Mazu.Tcp

/-! ## Sequence numbers -/

def seqLt (a b : U32) : Bool := decide ((a - b).toInt < 0)

def seqLe (a b : U32) : Bool := decide ((a - b).toInt ≤ 0)

def seqGt (a b : U32) : Bool := decide ((a - b).toInt > 0)

def seqGeq (a b : U32) : Bool := decide ((a - b).toInt ≥ 0)

def absDiff (a b : U32) : U32 := if a > b then a - b else b - a

/-! ## Round-trip time and congestion control -/

variable (env : NetEnv) (c : TcpConn) (ackNum : U32) (g : Globals) (seg : Segment) (tsopt : TsOpt)

def tcpConnUpdateRtt (rttSample : U32) : TcpConn :=
  let c :=
    if c.srtt = 0 then { c with srtt := rttSample, rttvar := rttSample / 2 }
    else
      { c with
        rttvar := (3 * c.rttvar + absDiff rttSample c.srtt) / 4
        srtt := (7 * c.srtt + rttSample) / 8 }
  let rto := c.srtt + maxWord 50 (4 * c.rttvar)
  { c with rto := minWord tcpConnRtoMax (maxWord tcpConnRtoMin rto) }

def tcpCcMss : U32 := BitVec.ofNat 32 (if c.mss > 0 then c.mss else tcpConnDefaultMss)

/-- `cwnd + inc`, capped. -/
def cwndGrow (cwnd inc : U32) : U32 := if cwnd + inc > tcpCwndMax then tcpCwndMax else cwnd + inc

def tcpCcRenoOnAck (bytesAcked : U32) : TcpConn :=
  let mss := tcpCcMss c
  let c := if c.inFastRecovery then { c with cwnd := c.ssthresh, inFastRecovery := false } else c
  if c.cwnd < c.ssthresh then { c with cwnd := cwndGrow c.cwnd (minWord bytesAcked mss) }
  else
    let inc : U32 := ((mss.setWidth 64 * bytesAcked.setWidth 64) / c.cwnd.setWidth 64).setWidth 32
    let inc := if inc = 0 then 1 else inc
    { c with cwnd := cwndGrow c.cwnd inc }

def tcpCcRenoOnDupAck : TcpConn :=
  let mss := tcpCcMss c
  if c.dupAckCount = tcpConnDupackThresh then
    let inFlight := c.sendNext - c.sendUnack
    let ssthresh := maxWord (inFlight / 2) (2 * mss)
    { c with ssthresh := ssthresh, cwnd := ssthresh + 3 * mss, inFastRecovery := true }
  else if c.dupAckCount > tcpConnDupackThresh ∧ c.inFastRecovery then
    { c with cwnd := cwndGrow c.cwnd mss }
  else c

def tcpCcRenoOnTimeout : TcpConn :=
  let mss := tcpCcMss c
  let inFlight := c.sendNext - c.sendUnack
  { c with
    ssthresh := maxWord (inFlight / 2) (2 * mss)
    cwnd := mss
    dupAckCount := 0
    inFastRecovery := false }

/-! ## The send side -/

/-- The part of `tcp_conn_update_send_state` under the ACK flag. -/
def tcpConnTakeAck : TcpConn :=
  -- an ACK for data not yet sent is ignored
  if seqGt ackNum c.sendUnack && seqLe ackNum c.sendNext then
    let bytesAcked := ackNum - c.sendUnack
    let c := tcpCcRenoOnAck { c with sendUnack := ackNum, dupAckCount := 0 } bytesAcked
    if c.useTimeStamps && tsopt.haveTs && tsopt.tsecr != 0 then
      let rttSample := env.now.setWidth 32 - tsopt.tsecr
      if rttSample ≤ 60000 then tcpConnUpdateRtt c rttSample else c
    else c
  else if ackNum = c.sendUnack ∧ c.sendUnack ≠ c.sendNext then
    tcpCcRenoOnDupAck { c with dupAckCount := c.dupAckCount + 1 }
  else c

def tcpConnUpdateSendState : TcpConn × Globals :=
  let c := if seg.ack then tcpConnTakeAck env c seg.ackNum tsopt else c
  let prevWindow := c.sendWindowReal
  let c := { c with sendWindowReal := seg.windowSize.toNat <<< c.sendWindowScale.toNat }
  if c.sendWindowReal > 0 ∧ prevWindow = 0 then
    ({ c with zeroWindowSinceMs := 0 }, g)
  else if c.sendWindowReal = 0 ∧ prevWindow > 0 then
    ({ c with zeroWindowSinceMs := env.now }, tcpTimerHint g (env.now + tcpConnPersistRtoMs))
  else (c, g)

/-! ## The receive side -/

/-- Flush or invalidate the single out-of-order slot after `recv_next` has advanced. -/
def tcpConnFlushOoo : TcpConn :=
  if c.oooLen > 0 then
    if c.oooSeqNum = c.recvNext then
      match recvBufWrite c.recvBuf (c.oooBuf.take c.oooLen) with
      | .ok buf =>
        { c with
          recvBuf := buf
          recvNext := c.recvNext + BitVec.ofNat 32 c.oooLen
          recvWindowSizeReal := c.recvWindowSizeReal - min c.recvWindowSizeReal c.oooLen
          oooLen := 0 }
      | .error _ => { c with oooLen := 0 }
    else if seqGeq c.recvNext (c.oooSeqNum + BitVec.ofNat 32 c.oooLen) then { c with oooLen := 0 }
    else c
  else c

/-- The end of `tcp_conn_update_recv_state`. The position of the FIN is the sum of a `u32` and a
64-bit length, which does not wrap, while `recv_next` does. -/
def tcpConnTakeFin : ℕ × TcpConn :=
  if seg.fin then
    if seg.seqNum.toNat + seg.payload.length ≠ c.recvNext.toNat then (seg.payload.length, c)
    else
      (seg.payload.length,
        { c with recvNext := c.recvNext + 1, recvWindowSizeReal := c.recvWindowSizeReal - 1 })
  else (seg.payload.length, c)

/-- An in-order payload goes to the receive buffer. -/
def tcpConnDeliver (payload : List U8) (buf : RecvBuf) : TcpConn :=
  { c with
    recvBuf := buf
    recvNext := c.recvNext + BitVec.ofNat 32 payload.length
    recvWindowSizeReal := c.recvWindowSizeReal - min c.recvWindowSizeReal payload.length }

def tcpConnUpdateRecvState : ℕ × TcpConn :=
  let payload := seg.payload
  let c :=
    if c.useTimeStamps && tsopt.haveTs && seqGeq c.lastAckSent seg.seqNum
        && seqGt (seg.seqNum + BitVec.ofNat 32 payload.length) c.lastAckSent then
      { c with tsRecent := tsopt.tsval }
    else c
  if payload.length > 0 then
    if seg.seqNum = c.recvNext then
      match recvBufWrite c.recvBuf payload with
      | .error _ => (0, c)
      | .ok buf => tcpConnTakeFin (tcpConnFlushOoo (tcpConnDeliver c payload buf)) seg
    else if seqGt seg.seqNum c.recvNext ∧ c.oooLen = 0 ∧ payload.length ≤ 1500 ∧ !seg.fin then
      (0, { c with oooBuf := payload, oooSeqNum := seg.seqNum, oooLen := payload.length })
    else (0, c)
  else tcpConnTakeFin c seg

/-- `conn->internal_timeout` and the timer hint that goes with it. -/
def tcpConnSetInternalTimeout : TcpConn × Globals :=
  let timeout :=
    if c.state = .timeWait then env.now + tcpConnTimeWait
    else if c.state = .synRcvd then env.now + tcpConnSynRcvdTimeout
    else env.now + tcpConnInternalTimeout
  ({ c with internalTimeout := timeout }, tcpTimerHint g timeout)

/-! ## What the send side may change -/

/-- The fields of a connection that `tcp_conn_update_send_state` may write. -/
structure SendFields where
  sendUnack : U32
  cwnd : U32
  ssthresh : U32
  dupAckCount : U32
  inFastRecovery : Bool
  srtt : U32
  rttvar : U32
  rto : U32
  sendWindowReal : ℕ
  zeroWindowSinceMs : U64

def TcpConn.sendFields : SendFields where
  sendUnack := c.sendUnack
  cwnd := c.cwnd
  ssthresh := c.ssthresh
  dupAckCount := c.dupAckCount
  inFastRecovery := c.inFastRecovery
  srtt := c.srtt
  rttvar := c.rttvar
  rto := c.rto
  sendWindowReal := c.sendWindowReal
  zeroWindowSinceMs := c.zeroWindowSinceMs

def TcpConn.withSend (f : SendFields) : TcpConn :=
  { c with
    sendUnack := f.sendUnack, cwnd := f.cwnd, ssthresh := f.ssthresh
    dupAckCount := f.dupAckCount, inFastRecovery := f.inFastRecovery, srtt := f.srtt
    rttvar := f.rttvar, rto := f.rto, sendWindowReal := f.sendWindowReal
    zeroWindowSinceMs := f.zeroWindowSinceMs }

/-- An ACK number the connection takes: new, and for data that was sent. -/
def ackAcceptable : Bool :=
  seqGt ackNum c.sendUnack && seqLe ackNum c.sendNext

/-- The number of duplicate acknowledgements after one more ACK number. -/
def dupAcksAfter : U32 :=
  if ackAcceptable c ackNum then 0
  else if ackNum = c.sendUnack ∧ c.sendUnack ≠ c.sendNext then c.dupAckCount + 1
  else c.dupAckCount

/-- What an ACK number, if there is one, makes of the send side. -/
structure AckTaken (ack : Bool) (f : SendFields) : Prop where
  sendUnack : f.sendUnack = if ack && ackAcceptable c ackNum then ackNum else c.sendUnack
  dupAcks : f.dupAckCount = if ack then dupAcksAfter c ackNum else c.dupAckCount
  rto : f.rto = c.rto ∨ (tcpConnRtoMin ≤ f.rto ∧ f.rto ≤ tcpConnRtoMax)

theorem tcpConnUpdateRtt_spec (x : U32) :
    ∃ srtt rttvar rto, tcpConnUpdateRtt c x = { c with srtt := srtt, rttvar := rttvar, rto := rto }
      ∧ tcpConnRtoMin ≤ rto ∧ rto ≤ tcpConnRtoMax := by
  have hclamp : ∀ r : U32, tcpConnRtoMin ≤ minWord tcpConnRtoMax (maxWord tcpConnRtoMin r) ∧
      minWord tcpConnRtoMax (maxWord tcpConnRtoMin r) ≤ tcpConnRtoMax := by
    intro r
    simp only [minWord, maxWord, tcpConnRtoMin, tcpConnRtoMax, BitVec.lt_def, BitVec.le_def]
    split_ifs <;> simp_all
  by_cases hs : c.srtt = 0
  · exact ⟨_, _, _, by rw [tcpConnUpdateRtt, if_pos hs], hclamp _⟩
  · exact ⟨_, _, _, by rw [tcpConnUpdateRtt, if_neg hs], hclamp _⟩

theorem tcpCcRenoOnAck_spec (x : U32) :
    ∃ cwnd fast, tcpCcRenoOnAck c x = { c with cwnd := cwnd, inFastRecovery := fast } := by
  simp only [tcpCcRenoOnAck]
  split_ifs <;> exact ⟨_, _, rfl⟩

theorem tcpCcRenoOnDupAck_spec :
    ∃ cwnd ssthresh fast, tcpCcRenoOnDupAck c =
      { c with cwnd := cwnd, ssthresh := ssthresh, inFastRecovery := fast } := by
  simp only [tcpCcRenoOnDupAck]
  split_ifs <;> exact ⟨_, _, _, rfl⟩

/-- What an arriving ACK number does: congestion control aside, it moves `send_unack` exactly when
it is acceptable, and keeps the retransmission timeout in its range. -/
theorem tcpConnTakeAck_spec :
    ∃ f : SendFields, tcpConnTakeAck env c ackNum tsopt = c.withSend f ∧ AckTaken c ackNum true f
      ∧ f.sendWindowReal = c.sendWindowReal ∧ f.zeroWindowSinceMs = c.zeroWindowSinceMs := by
  by_cases ha : ackAcceptable c ackNum = true
  · have ha' : (seqGt ackNum c.sendUnack && seqLe ackNum c.sendNext) = true := ha
    obtain ⟨cwnd, fast, hcc⟩ := tcpCcRenoOnAck_spec
      { c with sendUnack := ackNum, dupAckCount := 0 } (ackNum - c.sendUnack)
    have hrtt : ∃ srtt rttvar rto, tcpConnTakeAck env c ackNum tsopt =
        { c with
          sendUnack := ackNum, dupAckCount := 0, cwnd := cwnd, inFastRecovery := fast
          srtt := srtt, rttvar := rttvar, rto := rto } ∧
        (rto = c.rto ∨ (tcpConnRtoMin ≤ rto ∧ rto ≤ tcpConnRtoMax)) := by
      simp only [tcpConnTakeAck, hcc]
      split_ifs
      · obtain ⟨srtt, rttvar, rto, hrtt, hrange⟩ := tcpConnUpdateRtt_spec
          { c with sendUnack := ackNum, dupAckCount := 0, cwnd := cwnd, inFastRecovery := fast }
          (env.now.setWidth 32 - tsopt.tsecr)
        exact ⟨srtt, rttvar, rto, hrtt, .inr hrange⟩
      · exact ⟨_, _, _, rfl, .inl rfl⟩
      · exact ⟨_, _, _, rfl, .inl rfl⟩
    obtain ⟨srtt, rttvar, rto, heq, hrto⟩ := hrtt
    refine ⟨⟨ackNum, cwnd, c.ssthresh, 0, fast, srtt, rttvar, rto, _, _⟩, heq, ⟨?_, ?_, hrto⟩,
      rfl, rfl⟩
    · rw [ha]
      rfl
    · rw [dupAcksAfter, if_pos ha]
      rfl
  · have ha' : ¬ (seqGt ackNum c.sendUnack && seqLe ackNum c.sendNext) = true := ha
    have hold : c.sendUnack = if true && ackAcceptable c ackNum then ackNum else c.sendUnack :=
      (if_neg ha).symm
    simp only [tcpConnTakeAck]
    split_ifs with hd
    · obtain ⟨cwnd, ssthresh, fast, hcc⟩ :=
        tcpCcRenoOnDupAck_spec { c with dupAckCount := c.dupAckCount + 1 }
      refine ⟨{ c.sendFields with
          dupAckCount := c.dupAckCount + 1, cwnd := cwnd, ssthresh := ssthresh
          inFastRecovery := fast }, hcc, ⟨hold, ?_, .inl rfl⟩, rfl, rfl⟩
      rw [dupAcksAfter, if_neg ha, if_pos hd, if_pos rfl]
    · refine ⟨c.sendFields, rfl, ⟨hold, ?_, .inl rfl⟩, rfl, rfl⟩
      rw [dupAcksAfter, if_neg ha, if_neg hd]
      rfl

/-- **The send side.** An arriving segment moves `send_unack` exactly to an acceptable ACK number,
sets the window to the one it advertises, and keeps a persist timer armed only while that window is
zero. -/
theorem tcpConnUpdateSendState_spec :
    ∃ f : SendFields, (tcpConnUpdateSendState env c g seg tsopt).1 = c.withSend f
      ∧ AckTaken c seg.ackNum seg.ack f
      ∧ f.sendWindowReal = seg.windowSize.toNat <<< c.sendWindowScale.toNat
      ∧ ((c.zeroWindowSinceMs ≠ 0 → c.sendWindowReal = 0) →
          f.zeroWindowSinceMs ≠ 0 → f.sendWindowReal = 0) := by
  have hack : ∃ f : SendFields,
      (if seg.ack then tcpConnTakeAck env c seg.ackNum tsopt else c) = c.withSend f
      ∧ AckTaken c seg.ackNum seg.ack f
      ∧ f.sendWindowReal = c.sendWindowReal ∧ f.zeroWindowSinceMs = c.zeroWindowSinceMs := by
    by_cases ha : seg.ack = true
    · rw [ha]
      exact tcpConnTakeAck_spec env c seg.ackNum tsopt
    · rw [Bool.eq_false_iff.mpr ha]
      exact ⟨c.sendFields, rfl, ⟨rfl, rfl, .inl rfl⟩, rfl, rfl⟩
  obtain ⟨f, hf, htaken, hwin, hzero⟩ := hack
  have hw : (c.withSend f).sendWindowReal = c.sendWindowReal := hwin
  simp only [tcpConnUpdateSendState, hf, hw]
  split_ifs with hopen hclose
  · exact ⟨{ f with sendWindowReal := _, zeroWindowSinceMs := 0 }, rfl, { htaken with }, rfl,
      fun _ h ↦ absurd rfl h⟩
  · exact ⟨{ f with sendWindowReal := _, zeroWindowSinceMs := env.now }, rfl, { htaken with }, rfl,
      fun _ _ ↦ hclose.1⟩
  · refine ⟨{ f with sendWindowReal := _ }, rfl, { htaken with }, rfl, fun hc hz ↦ ?_⟩
    by_contra hne
    exact hopen ⟨Nat.pos_of_ne_zero hne, hc (hzero ▸ hz)⟩

/-! ## What the receive side may change -/

/-- The fields of a connection that `tcp_conn_update_recv_state` may write. -/
structure RecvFields where
  recvBuf : RecvBuf
  recvNext : U32
  recvWindowSizeReal : ℕ
  tsRecent : U32
  oooLen : ℕ
  oooSeqNum : U32
  oooBuf : List U8

def TcpConn.withRecv (f : RecvFields) : TcpConn :=
  { c with
    recvBuf := f.recvBuf, recvNext := f.recvNext, recvWindowSizeReal := f.recvWindowSizeReal
    tsRecent := f.tsRecent, oooLen := f.oooLen, oooSeqNum := f.oooSeqNum, oooBuf := f.oooBuf }

/-- The connection `d` agrees with `c` outside the receive side. -/
def SameButRecv (c d : TcpConn) : Prop := ∃ f : RecvFields, d = c.withRecv f

theorem SameButRecv.refl (c : TcpConn) : SameButRecv c c :=
  ⟨⟨c.recvBuf, c.recvNext, c.recvWindowSizeReal, c.tsRecent, c.oooLen, c.oooSeqNum, c.oooBuf⟩, rfl⟩

theorem SameButRecv.trans {c d e : TcpConn} (h : SameButRecv c d) (h' : SameButRecv d e) :
    SameButRecv c e := by
  obtain ⟨f, rfl⟩ := h
  obtain ⟨f', rfl⟩ := h'
  exact ⟨f', rfl⟩

theorem tcpConnFlushOoo_same : SameButRecv c (tcpConnFlushOoo c) := by
  rw [tcpConnFlushOoo]
  split_ifs
  · cases recvBufWrite c.recvBuf (c.oooBuf.take c.oooLen) <;> exact ⟨⟨_, _, _, _, _, _, _⟩, rfl⟩
  · exact ⟨⟨_, _, _, _, _, _, _⟩, rfl⟩
  · exact SameButRecv.refl c
  · exact SameButRecv.refl c

theorem tcpConnTakeFin_same : SameButRecv c (tcpConnTakeFin c seg).2 := by
  rw [tcpConnTakeFin]
  split_ifs
  · exact SameButRecv.refl c
  · exact ⟨⟨_, _, _, _, _, _, _⟩, rfl⟩
  · exact SameButRecv.refl c

theorem tcpConnDeliver_same (payload : List U8) (buf : RecvBuf) :
    SameButRecv c (tcpConnDeliver c payload buf) :=
  ⟨⟨_, _, _, _, _, _, _⟩, rfl⟩

/-- **The receive side** leaves every other field alone. -/
theorem tcpConnUpdateRecvState_same : SameButRecv c (tcpConnUpdateRecvState c seg tsopt).2 := by
  unfold tcpConnUpdateRecvState
  extract_lets payload d
  have hd : SameButRecv c d := by
    unfold d
    split_ifs
    · exact ⟨⟨_, _, _, _, _, _, _⟩, rfl⟩
    · exact SameButRecv.refl c
  clear_value d
  split_ifs
  · cases recvBufWrite d.recvBuf payload with
    | error e => exact hd
    | ok buf =>
      exact hd.trans ((tcpConnDeliver_same d payload buf).trans
        ((tcpConnFlushOoo_same _).trans (tcpConnTakeFin_same _ seg)))
  · exact hd.trans ⟨⟨_, _, _, _, _, _, _⟩, rfl⟩
  · exact hd
  · exact hd.trans (tcpConnTakeFin_same d seg)

end Mazu.Tcp
