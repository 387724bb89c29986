import Mazu.Tcp.Update

/-!
# The receive side

The fields that decide which bytes of the peer are taken in: the buffer, `recv_next` and the single
out-of-order slot. What `tcp_conn_update_recv_state` makes of them depends on nothing else of the
connection, so the handlers may update the other fields before or after it.
-/

namespace Mazu.Tcp

structure RecvSide where
  buf : RecvBuf
  next : U32
  oooLen : ℕ
  oooSeqNum : U32
  oooBuf : List U8

def TcpConn.recvSide (c : TcpConn) : RecvSide :=
  ⟨c.recvBuf, c.recvNext, c.oooLen, c.oooSeqNum, c.oooBuf⟩

/-- The connection after the data of a segment. -/
def tcpConnTakeData (c : TcpConn) (seg : Segment) : TcpConn :=
  (tcpConnUpdateRecvState c seg tsOptNone).2

section

variable {c d : TcpConn}

theorem recvSide_eq_iff : c.recvSide = d.recvSide ↔
    c.recvBuf = d.recvBuf ∧ c.recvNext = d.recvNext ∧ c.oooLen = d.oooLen ∧
      c.oooSeqNum = d.oooSeqNum ∧ c.oooBuf = d.oooBuf := by
  rw [TcpConn.recvSide, TcpConn.recvSide, RecvSide.mk.injEq]

variable (h : c.recvSide = d.recvSide)

include h

private theorem flushOoo_congr : (tcpConnFlushOoo c).recvSide = (tcpConnFlushOoo d).recvSide := by
  obtain ⟨hbuf, hnext, hlen, hseq, hooo⟩ := recvSide_eq_iff.mp h
  simp only [tcpConnFlushOoo, hbuf, hnext, hlen, hseq, hooo]
  split_ifs
  · cases recvBufWrite d.recvBuf (d.oooBuf.take d.oooLen) <;> rfl
  · rfl
  · exact h
  · exact h

private theorem takeFin_congr (seg : Segment) :
    (tcpConnTakeFin c seg).2.recvSide = (tcpConnTakeFin d seg).2.recvSide := by
  obtain ⟨hbuf, hnext, hlen, hseq, hooo⟩ := recvSide_eq_iff.mp h
  simp only [tcpConnTakeFin, hnext]
  split_ifs
  · exact h
  · exact recvSide_eq_iff.mpr ⟨hbuf, rfl, hlen, hseq, hooo⟩
  · exact h

private theorem deliver_congr (payload : List U8) (buf : RecvBuf) :
    (tcpConnDeliver c payload buf).recvSide = (tcpConnDeliver d payload buf).recvSide := by
  obtain ⟨-, hnext, hlen, hseq, hooo⟩ := recvSide_eq_iff.mp h
  exact recvSide_eq_iff.mpr ⟨rfl, by simp only [tcpConnDeliver, hnext], hlen, hseq, hooo⟩

omit h in
/-- The update without its timestamp part, by the place of the segment. -/
theorem tcpConnTakeData_eq (c : TcpConn) (seg : Segment) :
    tcpConnTakeData c seg =
      if seg.payload.length > 0 then
        if seg.seqNum = c.recvNext then
          match recvBufWrite c.recvBuf seg.payload with
          | .error _ => c
          | .ok buf =>
            (tcpConnTakeFin (tcpConnFlushOoo (tcpConnDeliver c seg.payload buf)) seg).2
        else if seqGt seg.seqNum c.recvNext ∧ c.oooLen = 0 ∧ seg.payload.length ≤ 1500
            ∧ !seg.fin then
          { c with oooBuf := seg.payload, oooSeqNum := seg.seqNum, oooLen := seg.payload.length }
        else c
      else (tcpConnTakeFin c seg).2 := by
  have hts : (c.useTimeStamps && tsOptNone.haveTs && seqGeq c.lastAckSent seg.seqNum
      && seqGt (seg.seqNum + BitVec.ofNat 32 seg.payload.length) c.lastAckSent) = false := by
    simp [tsOptNone]
  simp only [tcpConnTakeData, tcpConnUpdateRecvState, hts, Bool.false_eq_true, if_false]
  split_ifs
  · cases recvBufWrite c.recvBuf seg.payload <;> rfl
  · rfl
  · rfl
  · rfl

theorem tcpConnTakeData_congr (seg : Segment) :
    (tcpConnTakeData c seg).recvSide = (tcpConnTakeData d seg).recvSide := by
  obtain ⟨hbuf, hnext, hlen, hseq, hooo⟩ := recvSide_eq_iff.mp h
  rw [tcpConnTakeData_eq, tcpConnTakeData_eq, hbuf, hnext, hlen]
  split_ifs
  · cases recvBufWrite d.recvBuf seg.payload with
    | error e => exact h
    | ok buf => exact takeFin_congr (flushOoo_congr (deliver_congr h seg.payload buf)) seg
  · rfl
  · exact h
  · exact takeFin_congr h seg

omit h in
/-- The timestamp is stored before the data is taken. -/
theorem tcpConnUpdateRecvState_takeData (c : TcpConn) (seg : Segment) (tsopt : TsOpt) :
    ∃ d, (d = { c with tsRecent := tsopt.tsval } ∨ d = c) ∧
      (tcpConnUpdateRecvState c seg tsopt).2 = tcpConnTakeData d seg := by
  unfold tcpConnUpdateRecvState
  extract_lets payload d
  refine ⟨d, ite_eq_or_eq _ _ _, ?_⟩
  rw [tcpConnTakeData_eq]
  split_ifs
  · cases recvBufWrite d.recvBuf seg.payload <;> rfl
  · rfl
  · rfl
  · rfl

/-- **The receive side of an update** is that of the bare update, whatever the other fields are and
whatever the timestamp option says. -/
theorem tcpConnUpdateRecvState_recvSide (seg : Segment) (tsopt : TsOpt) :
    (tcpConnUpdateRecvState c seg tsopt).2.recvSide = (tcpConnTakeData d seg).recvSide := by
  obtain ⟨e, he, heq⟩ := tcpConnUpdateRecvState_takeData c seg tsopt
  rw [heq]
  apply tcpConnTakeData_congr
  rcases he with rfl | rfl <;> exact h

end

end Mazu.Tcp
