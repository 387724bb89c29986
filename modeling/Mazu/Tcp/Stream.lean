import Mazu.Tcp.Transition

/-!
# The stream of the peer

The receive side rebuilds the byte stream of the peer from segments that arrive in any order, through
a ring buffer and one slot for a segment that came early. This file says what each part of
`tcp_conn_update_recv_state` does to the bytes and to `recv_next`, when a FIN is taken, and that what
the user reads is a prefix of the stream.
-/

namespace Mazu.Tcp

open Serial List

/-! ## The parts of the update -/

/-- The early segment is next, and fits. -/
def TcpConn.Flushes (c : TcpConn) : Prop :=
  0 < c.oooLen ∧ c.oooSeqNum = c.recvNext ∧ c.oooLen ≤ recvBufSpace c.recvBuf

/-- The slot is empty, or as it was. -/
def SlotKept (c d : TcpConn) : Prop :=
  d.oooLen = 0 ∨ d.oooLen = c.oooLen ∧ d.oooSeqNum = c.oooSeqNum ∧ d.oooBuf = c.oooBuf

theorem tcpConnFlushOoo_flush {c : TcpConn} (h : RecvOk c) (hf : c.Flushes) :
    recvBufContents (tcpConnFlushOoo c).recvBuf
        = recvBufContents c.recvBuf ++ c.oooBuf.take c.oooLen ∧
      (tcpConnFlushOoo c).recvNext = c.recvNext + BitVec.ofNat 32 c.oooLen ∧
      (tcpConnFlushOoo c).oooLen = 0 := by
  obtain ⟨hpos, hseq, hfit⟩ := hf
  have hlen : (c.oooBuf.take c.oooLen).length = c.oooLen := by
    rw [length_take, Nat.min_eq_left h.ooo.1]
  have hne : c.oooBuf.take c.oooLen ≠ [] := ne_nil_of_length_pos (by rw [hlen]; exact hpos)
  rcases recvBufWrite_cases h.buf (.inl hne) with ⟨hlt, -⟩ | ⟨-, buf, hw, -, -, hcont⟩
  · rw [hlen] at hlt
    exact absurd hfit (Nat.not_le.mpr hlt)
  · rw [tcpConnFlushOoo, if_pos hpos, if_pos hseq, hw]
    exact ⟨hcont, rfl, rfl⟩

theorem tcpConnFlushOoo_keep {c : TcpConn} (h : RecvOk c) (hf : ¬ c.Flushes) :
    (tcpConnFlushOoo c).recvBuf = c.recvBuf ∧ (tcpConnFlushOoo c).recvNext = c.recvNext ∧
      SlotKept c (tcpConnFlushOoo c) := by
  rw [tcpConnFlushOoo]
  split_ifs with hpos hseq hold
  · have hlen : (c.oooBuf.take c.oooLen).length = c.oooLen := by
      rw [length_take, Nat.min_eq_left h.ooo.1]
    have hlt : recvBufSpace c.recvBuf < c.oooLen := by
      by_contra hle
      exact hf ⟨hpos, hseq, Nat.not_lt.mp hle⟩
    have hw : recvBufWrite c.recvBuf (c.oooBuf.take c.oooLen) = .error eagain := by
      rw [recvBufWrite, if_pos (by rw [hlen]; exact hlt)]
    rw [hw]
    exact ⟨rfl, rfl, .inl rfl⟩
  · exact ⟨rfl, rfl, .inl rfl⟩
  · exact ⟨rfl, rfl, .inr ⟨rfl, rfl, rfl⟩⟩
  · exact ⟨rfl, rfl, .inr ⟨rfl, rfl, rfl⟩⟩

/-- The FIN of a segment is at `recv_next`, by the comparison of the source. -/
def TcpConn.FinNext (c : TcpConn) (seg : Segment) : Prop :=
  seg.fin = true ∧ seg.seqNum.toNat + seg.payload.length = c.recvNext.toNat

theorem tcpConnTakeFin_spec (c : TcpConn) (seg : Segment) :
    (c.FinNext seg → (tcpConnTakeFin c seg).2.recvNext = c.recvNext + 1) ∧
      (¬ c.FinNext seg → (tcpConnTakeFin c seg).2.recvNext = c.recvNext) ∧
      (tcpConnTakeFin c seg).2.recvBuf = c.recvBuf ∧
      (tcpConnTakeFin c seg).2.oooLen = c.oooLen ∧
      (tcpConnTakeFin c seg).2.oooSeqNum = c.oooSeqNum ∧
      (tcpConnTakeFin c seg).2.oooBuf = c.oooBuf := by
  rw [tcpConnTakeFin]
  split_ifs with hf hs
  · exact ⟨fun h ↦ absurd h.2 hs, fun _ ↦ rfl, rfl, rfl, rfl, rfl⟩
  · exact ⟨fun _ ↦ rfl, absurd ⟨hf, not_not.mp hs⟩, rfl, rfl, rfl, rfl⟩
  · exact ⟨fun h ↦ absurd h.1 hf, fun _ ↦ rfl, rfl, rfl, rfl, rfl⟩

/-! ## When a FIN is taken -/

/-- The call that makes `d` of `c` accepts the FIN of the segment in order: the segment starts at
`recv_next`, its payload is delivered, and `recv_next` ends one past the FIN. -/
structure FinAccepted (c : TcpConn) (seg : Segment) (d : TcpConn) : Prop where
  start : seg.seqNum = c.recvNext
  payload : recvBufContents d.recvBuf = recvBufContents c.recvBuf ++ seg.payload
  next : d.recvNext = seg.seqNum + BitVec.ofNat 32 seg.payload.length + 1

/-- The segment starts at `recv_next`, and its payload, if any, fits the buffer, does not reach past
the end of the sequence space, and does not meet an early segment that is flushed behind it. -/
def FinInOrder (c : TcpConn) (seg : Segment) : Prop :=
  seg.seqNum = c.recvNext ∧ (seg.payload = [] ∨
    seg.payload.length ≤ recvBufSpace c.recvBuf ∧
    seg.seqNum.toNat + seg.payload.length < 2 ^ 32 ∧
    ¬(0 < c.oooLen ∧ c.oooSeqNum = seg.seqNum + BitVec.ofNat 32 seg.payload.length ∧
      c.oooLen ≤ recvBufSpace c.recvBuf - seg.payload.length))

/-- A payload delivered at `recv_next` puts its FIN at the new `recv_next`, unless the sum passes the
end of the sequence space. -/
theorem finNext_deliver_iff {c : TcpConn} {seg : Segment} (buf : RecvBuf) (hf : seg.fin = true)
    (hseq : seg.seqNum = c.recvNext) : (tcpConnDeliver c seg.payload buf).FinNext seg ↔
      seg.seqNum.toNat + seg.payload.length < 2 ^ 32 := by
  have hnext : (tcpConnDeliver c seg.payload buf).recvNext
      = seg.seqNum + BitVec.ofNat 32 seg.payload.length := by rw [hseq]; rfl
  rw [TcpConn.FinNext, hnext, BitVec.toNat_add, BitVec.toNat_ofNat, Nat.add_mod_mod]
  constructor
  · rintro ⟨-, heq⟩
    rw [heq]
    exact Nat.mod_lt _ (by decide)
  · intro hlt
    exact ⟨hf, (Nat.mod_eq_of_lt hlt).symm⟩

/-- The payload of a segment is at `recv_next` and fits: it is delivered, then the early segment is
looked at, then the FIN. -/
theorem tcpConnTakeData_deliver {c : TcpConn} {seg : Segment} (h : RecvOk c)
    (hne : seg.payload ≠ []) (hseq : seg.seqNum = c.recvNext)
    (hfit : seg.payload.length ≤ recvBufSpace c.recvBuf) :
    ∃ buf, tcpConnTakeData c seg
        = (tcpConnTakeFin (tcpConnFlushOoo (tcpConnDeliver c seg.payload buf)) seg).2 ∧
      RecvOk (tcpConnDeliver c seg.payload buf) ∧
      recvBufContents buf = recvBufContents c.recvBuf ++ seg.payload ∧
      recvBufSpace buf = recvBufSpace c.recvBuf - seg.payload.length := by
  rcases recvBufWrite_cases h.buf (.inl hne) with ⟨hlt, -⟩ | ⟨-, buf, hw, hwf, hlen, hcont⟩
  · exact absurd hfit (Nat.not_le.mpr hlt)
  · refine ⟨buf, ?_, ⟨hwf, h.ooo⟩, hcont, recvBufSpace_of_append hlen hcont⟩
    rw [tcpConnTakeData_eq, if_pos (length_pos_iff.mpr hne), if_pos hseq, hw]

/-- A payload that is not at `recv_next`, or does not fit, leaves the buffer and `recv_next`. -/
theorem tcpConnTakeData_drop {c : TcpConn} {seg : Segment} (hne : seg.payload ≠ [])
    (hdrop : seg.seqNum ≠ c.recvNext ∨ recvBufSpace c.recvBuf < seg.payload.length) :
    (tcpConnTakeData c seg).recvBuf = c.recvBuf ∧
      (tcpConnTakeData c seg).recvNext = c.recvNext ∧
      (tcpConnTakeData c seg = c ∨ seg.seqNum ≠ c.recvNext ∧
        (tcpConnTakeData c seg).oooSeqNum = seg.seqNum ∧
        (tcpConnTakeData c seg).oooBuf = seg.payload ∧
        (tcpConnTakeData c seg).oooLen = seg.payload.length ∧ seqGt seg.seqNum c.recvNext = true) := by
  rw [tcpConnTakeData_eq, if_pos (length_pos_iff.mpr hne)]
  by_cases hseq : seg.seqNum = c.recvNext
  · have hlt : recvBufSpace c.recvBuf < seg.payload.length := hdrop.resolve_left (not_not.mpr hseq)
    have hw : recvBufWrite c.recvBuf seg.payload = .error eagain := by
      rw [recvBufWrite, if_pos hlt]
    rw [if_pos hseq, hw]
    exact ⟨rfl, rfl, .inl rfl⟩
  · split_ifs with hgt
    · exact ⟨rfl, rfl, .inr ⟨hseq, rfl, rfl, rfl, hgt.1⟩⟩
    · exact ⟨rfl, rfl, .inl rfl⟩

theorem tcpConnTakeData_empty {c : TcpConn} {seg : Segment} (hnil : seg.payload = []) :
    tcpConnTakeData c seg = (tcpConnTakeFin c seg).2 := by
  rw [tcpConnTakeData_eq, if_neg (by rw [hnil]; exact Nat.lt_irrefl 0)]

/-- **When the receive side takes a FIN.** -/
theorem finAccepted_takeData_iff {c : TcpConn} {seg : Segment} (h : RecvOk c)
    (hf : seg.fin = true) : FinAccepted c seg (tcpConnTakeData c seg) ↔ FinInOrder c seg := by
  by_cases hseq : seg.seqNum = c.recvNext
  swap
  · exact ⟨fun hacc ↦ absurd hacc.start hseq, fun hord ↦ absurd hord.1 hseq⟩
  by_cases hnil : seg.payload = []
  · have hfin : c.FinNext seg := ⟨hf, by rw [hseq, hnil]; rfl⟩
    obtain ⟨htake, -, hbuf, -⟩ := tcpConnTakeFin_spec c seg
    refine ⟨fun _ ↦ ⟨hseq, .inl hnil⟩, fun _ ↦ ⟨hseq, ?_, ?_⟩⟩
    · rw [tcpConnTakeData_empty hnil, hbuf, hnil, append_nil]
    · rw [tcpConnTakeData_empty hnil, htake hfin, hseq, hnil, length_nil, BitVec.add_zero]
  by_cases hfit : seg.payload.length ≤ recvBufSpace c.recvBuf
  swap
  · -- dropped: the payload is not in the buffer
    refine ⟨fun hacc ↦ ?_, fun hord ↦ ?_⟩
    · have hpay := hacc.payload
      rw [(tcpConnTakeData_drop hnil (.inr (Nat.not_le.mp hfit))).1] at hpay
      exact absurd (self_eq_append_right.mp hpay) hnil
    · rcases hord.2 with hnil' | ⟨hfit', -⟩
      · exact absurd hnil' hnil
      · exact absurd hfit' hfit
  obtain ⟨buf, heq, hok, hcont, hspace⟩ := tcpConnTakeData_deliver h hnil hseq hfit
  have hflush : (tcpConnDeliver c seg.payload buf).Flushes ↔
      0 < c.oooLen ∧ c.oooSeqNum = seg.seqNum + BitVec.ofNat 32 seg.payload.length ∧
        c.oooLen ≤ recvBufSpace c.recvBuf - seg.payload.length := by
    rw [hseq, ← hspace]
    rfl
  have hnext := finNext_deliver_iff buf hf hseq
  obtain ⟨htake, hleave, hbuf, -⟩ :=
    tcpConnTakeFin_spec _ seg
  by_cases hfl : (tcpConnDeliver c seg.payload buf).Flushes
  · -- the early segment follows the payload in the buffer
    refine ⟨fun hacc ↦ ?_, fun hord ↦ ?_⟩
    · have hpay := hacc.payload
      rw [heq, hbuf, (tcpConnFlushOoo_flush hok hfl).1] at hpay
      have hooo : (c.oooBuf.take c.oooLen).length = c.oooLen := by
        rw [length_take, Nat.min_eq_left h.ooo.1]
      have hz : c.oooLen = 0 := by
        have hl := congrArg List.length hpay
        have hb := congrArg List.length hcont
        simp only [tcpConnDeliver, length_append] at hl hb
        omega
      exact absurd hz (Nat.pos_iff_ne_zero.mp hfl.1)
    · rcases hord.2 with hnil' | ⟨-, -, hno⟩
      · exact absurd hnil' hnil
      · exact absurd (hflush.mp hfl) hno
  · obtain ⟨hkbuf, hknext, -⟩ := tcpConnFlushOoo_keep hok hfl
    have hfin : (tcpConnFlushOoo (tcpConnDeliver c seg.payload buf)).FinNext seg ↔
        seg.seqNum.toNat + seg.payload.length < 2 ^ 32 := by
      rw [TcpConn.FinNext, hknext]
      exact hnext
    refine ⟨fun hacc ↦ ⟨hseq, .inr ⟨hfit, ?_, fun hfl' ↦ hfl (hflush.mpr hfl')⟩⟩, fun hord ↦ ?_⟩
    · by_contra hwrap
      have hn := hacc.next
      rw [heq, hleave (fun hh ↦ hwrap (hfin.mp hh)), hknext] at hn
      have hsame : seg.seqNum + BitVec.ofNat 32 seg.payload.length
          = seg.seqNum + BitVec.ofNat 32 seg.payload.length + 1 := by
        rw [← hn, hseq]
        rfl
      exact absurd hsame (by bv_omega)
    · rcases hord.2 with hnil' | ⟨-, hlt, -⟩
      · exact absurd hnil' hnil
      · refine ⟨hseq, ?_, ?_⟩
        · rw [heq, hbuf, hkbuf]
          exact hcont
        · rw [heq, htake (hfin.mpr hlt), hknext, hseq]
          rfl

/-- A FIN moves the connection only if the call accepted it. -/
def FinMovesLaw (c : TcpConn) (seg : Segment) (after : Option TcpConn) : Prop :=
  ∀ d, after = some d → d.state = .closeWait ∨ d.state = .closing ∨ d.state = .timeWait →
    FinAccepted c seg d

/-- With a FIN and no RST, all three handlers move on. -/
theorem transition_of_fin {st : TcpConnState} {seg : Segment}
    (hst : st = .established ∨ st = .finWait1 ∨ st = .finWait2) (hf : seg.fin = true)
    (hr : seg.rst = false) : ∃ st', transition st seg = some st' ∧
      (st' = .closeWait ∨ st' = .closing ∨ st' = .timeWait) ∧ updatesRecv st seg = true := by
  rcases hst with rfl | rfl | rfl
  · exact ⟨.closeWait, by simp [transition, hf, hr], by simp, by simp [updatesRecv, hr]⟩
  · cases ha : seg.ack with
    | false => exact ⟨.closing, by simp [transition, hf, hr, ha], by simp,
        by simp [updatesRecv, hr, hf]⟩
    | true => exact ⟨.timeWait, by simp [transition, hf, hr, ha], by simp,
        by simp [updatesRecv, hr, hf]⟩
  · exact ⟨.timeWait, by simp [transition, hf, hr], by simp, by simp [updatesRecv, hr]⟩

/-- With a RST, none of them does. -/
theorem transition_of_rst_ne {st st' : TcpConnState} {seg : Segment}
    (hst : st = .established ∨ st = .finWait1 ∨ st = .finWait2) (hr : seg.rst = true)
    (h : transition st seg = some st') : st' = .reset := by
  rcases hst with rfl | rfl | rfl
  · simp only [transition, hr] at h
    exact (Option.some.inj h).symm
  · simp [transition, hr] at h
  · simp [transition, hr] at h

section

variable {s : TcpStack} {hostAddr peerAddr : Ipv4Addr} {seg : Segment} {i : ConnIdx} {c : TcpConn}

/-- Acceptance shows in the receive side alone. -/
theorem finAccepted_congr {d d' : TcpConn} (h : d.recvSide = d'.recvSide) :
    FinAccepted c seg d ↔ FinAccepted c seg d' := by
  obtain ⟨hbuf, hnext, -⟩ := recvSide_eq_iff.mp h
  constructor
  · rintro ⟨hs, hp, hn⟩
    exact ⟨hs, hbuf ▸ hp, hnext ▸ hn⟩
  · rintro ⟨hs, hp, hn⟩
    exact ⟨hs, hbuf ▸ hp, hnext ▸ hn⟩

/-- **When a FIN moves the connection only if it was accepted.** The handlers look at the FIN flag and
not at what the receive side made of the FIN, so without a RST this is exactly the condition under
which the receive side takes it. -/
theorem finMovesLaw_iff (hs : Reachable s) (env : NetEnv)
    (hlook : tcpLookupConn s hostAddr peerAddr seg.destPort seg.srcPort = some i)
    (hc : s.connTable i = some c)
    (hst : c.state = .established ∨ c.state = .finWait1 ∨ c.state = .finWait2)
    (hf : seg.fin = true) :
    FinMovesLaw c seg ((tcpHandlePacketLocked env s hostAddr peerAddr seg).2.connTable i) ↔
      seg.rst = true ∨ FinInOrder c seg := by
  have hok := (hs.connInv i c hc).recv
  have hsync : c.state.Synchronized := by
    rcases hst with hst | hst | hst <;> rw [hst] <;> decide
  have hslot := tcpHandlePacketLocked_slot env hlook hc hsync
  cases hr : seg.rst with
  | true =>
    refine ⟨fun _ ↦ .inl rfl, fun _ d hd hdst ↦ ?_⟩
    rcases hslot with ⟨-, hnone⟩ | ⟨st, d', hsome, hd', hst', -⟩
    · rw [hnone] at hd
      cases hd
    · cases hd'.symm.trans hd
      rw [hst', transition_of_rst_ne hst hr hsome] at hdst
      rcases hdst with h | h | h <;> cases h
  | false =>
    obtain ⟨st, htrans, hmoved, hrecv⟩ := transition_of_fin hst hf hr
    rcases hslot with ⟨hnone, -⟩ | ⟨st', d, hsome, hd, hst', htook⟩
    · rw [htrans] at hnone
      cases hnone
    cases htrans.symm.trans hsome
    have hside : d.recvSide = (tcpConnTakeData c seg).recvSide := by
      rw [htook.recvSide, hrecv]
      rfl
    have hiff := (finAccepted_congr hside).trans (finAccepted_takeData_iff hok hf)
    constructor
    · intro hlaw
      exact .inr (hiff.mp (hlaw d hd (hst' ▸ hmoved)))
    · rintro (h | hord) d' hd' -
      · cases h
      · cases hd.symm.trans hd'
        exact hiff.mpr hord

end

/-- The peer closes in order. -/
theorem finMovesLaw_inOrder :
    ∃ s c, Reachable s ∧ s.connTable ⟨1, by decide⟩ = some c ∧ c.state = .established ∧
      FinMovesLaw c (.bare 5000 80 2 1001 (tcpHdrFlagFin ||| tcpHdrFlagAck) 1000)
        ((tcpHandlePacketLocked (.sending 2 hostA 1000) s hostA peerA
          (.bare 5000 80 2 1001 (tcpHdrFlagFin ||| tcpHdrFlagAck) 1000)).2.connTable
            ⟨1, by decide⟩) := by
  obtain ⟨s, c, hs, hc, hp⟩ := exists_conn_of_runCalls 0 serverHandshake ⟨1, by decide⟩
    (fun s c ↦ decide (c.state = .established ∧ c.recvNext = 2 ∧
      tcpLookupConn s hostA peerA 80 5000 = some ⟨1, by decide⟩)) (by decide +kernel)
  obtain ⟨hst, hnext, hlook⟩ := of_decide_eq_true hp
  refine ⟨s, c, hs, hc, hst, (finMovesLaw_iff hs _ hlook hc (.inl hst) rfl).mpr (.inr ?_)⟩
  exact ⟨hnext.symm, .inl rfl⟩

/-- A FIN far ahead of `recv_next` moves the connection to CLOSE_WAIT all the same. -/
theorem not_finMovesLaw_ahead :
    ∃ s c, Reachable s ∧ s.connTable ⟨1, by decide⟩ = some c ∧ c.state = .established ∧
      c.recvNext = 2 ∧
      ¬ FinMovesLaw c (.bare 5000 80 100 1001 (tcpHdrFlagFin ||| tcpHdrFlagAck) 1000)
        ((tcpHandlePacketLocked (.sending 2 hostA 1000) s hostA peerA
          (.bare 5000 80 100 1001 (tcpHdrFlagFin ||| tcpHdrFlagAck) 1000)).2.connTable
            ⟨1, by decide⟩) := by
  obtain ⟨s, c, hs, hc, hp⟩ := exists_conn_of_runCalls 0 serverHandshake ⟨1, by decide⟩
    (fun s c ↦ decide (c.state = .established ∧ c.recvNext = 2) &&
      ((tcpHandlePacketLocked (.sending 2 hostA 1000) s hostA peerA
        (.bare 5000 80 100 1001 (tcpHdrFlagFin ||| tcpHdrFlagAck) 1000)).2.connTable
          ⟨1, by decide⟩).any fun d ↦ d.state == .closeWait) (by decide +kernel)
  rw [Bool.and_eq_true, Option.any_eq_true] at hp
  obtain ⟨hc', d, hd, hdst⟩ := hp
  obtain ⟨hst, hnext⟩ := of_decide_eq_true hc'
  refine ⟨s, c, hs, hc, hst, hnext, fun hlaw ↦ ?_⟩
  have hstart := (hlaw d hd (.inl (beq_iff_eq.mp hdst))).start
  rw [hnext] at hstart
  exact absurd hstart (by decide)

end Mazu.Tcp
