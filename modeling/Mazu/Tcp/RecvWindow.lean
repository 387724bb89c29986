import Mazu.Tcp.Invariant

/-!
# The receive window against the receive buffer

Taking bytes of the peer in lowers the window by as many and moves `recv_next` up by as many, so the
right edge of the window stays where it was, or moves up when more came than the window admitted. A
window that fits the free space of the buffer still fits it afterwards. Reading makes room, and a
transmission may open the window up to the free space.
-/

namespace Mazu.Tcp

/-- `n` sequence numbers of the peer were taken in. -/
structure Takes (n : ℕ) (c d : TcpConn) : Prop where
  next : d.recvNext = c.recvNext + BitVec.ofNat 32 n
  len : d.recvBuf.len = c.recvBuf.len
  edge : c.recvWindowSizeReal ≤ n + d.recvWindowSizeReal
  fits : c.recvWindowSizeReal ≤ recvBufSpace c.recvBuf →
    d.recvWindowSizeReal ≤ recvBufSpace d.recvBuf

section

variable {c d e : TcpConn} {m n : ℕ}

theorem Takes.refl (c : TcpConn) : Takes 0 c c :=
  ⟨(BitVec.add_zero _).symm, rfl, by omega, id⟩

theorem Takes.trans (h : Takes m c d) (h' : Takes n d e) : Takes (m + n) c e where
  next := by rw [h'.next, h.next, BitVec.ofNat_add, BitVec.add_assoc]
  len := h'.len.trans h.len
  edge := by
    have h₁ := h.edge
    have h₂ := h'.edge
    omega
  fits := fun hc ↦ h'.fits (h.fits hc)

/-- Fields outside the receive side do not matter. -/
theorem Takes.of_eq (hn : d.recvNext = c.recvNext) (hb : d.recvBuf = c.recvBuf)
    (hw : d.recvWindowSizeReal = c.recvWindowSizeReal) : Takes 0 c d where
  next := by rw [hn, BitVec.add_zero]
  len := by rw [hb]
  edge := by omega
  fits := by
    rw [hb, hw]
    exact id

/-- Bytes written to the buffer, with `recv_next` and the window moved by as many. -/
theorem takes_of_write (hwf : c.recvBuf.WF) {data : List U8} (hne : data ≠ []) {buf : RecvBuf}
    (hw : recvBufWrite c.recvBuf data = .ok buf) (hn : n = data.length)
    (hnext : d.recvNext = c.recvNext + BitVec.ofNat 32 n) (hbuf : d.recvBuf = buf)
    (hwin : d.recvWindowSizeReal = c.recvWindowSizeReal - min c.recvWindowSizeReal n) :
    Takes n c d := by
  rcases recvBufWrite_cases hwf (.inl hne) with ⟨-, herr⟩ | ⟨hle, buf', hok, -, hlen, hdata⟩
  · cases herr.symm.trans hw
  · cases hok.symm.trans hw
    refine ⟨hnext, by rw [hbuf, hlen], by omega, fun hfit ↦ ?_⟩
    rw [hbuf, recvBufSpace_of_append hlen hdata]
    omega

theorem tcpConnFlushOoo_takes (h : RecvOk c) : ∃ n ≤ 1500, Takes n c (tcpConnFlushOoo c) := by
  unfold tcpConnFlushOoo
  split_ifs with h0 h1 h2
  · have htake : (c.oooBuf.take c.oooLen).length = c.oooLen := by
      rw [List.length_take, Nat.min_eq_left h.ooo.1]
    cases hw : recvBufWrite c.recvBuf (c.oooBuf.take c.oooLen) with
    | error e => exact ⟨0, Nat.zero_le _, Takes.of_eq rfl rfl rfl⟩
    | ok buf =>
      have hne : c.oooBuf.take c.oooLen ≠ [] := List.ne_nil_of_length_pos (by rwa [htake])
      exact ⟨c.oooLen, h.ooo.2, takes_of_write h.buf hne hw htake.symm rfl rfl rfl⟩
  · exact ⟨0, Nat.zero_le _, Takes.of_eq rfl rfl rfl⟩
  · exact ⟨0, Nat.zero_le _, Takes.refl c⟩
  · exact ⟨0, Nat.zero_le _, Takes.refl c⟩

theorem tcpConnTakeFin_takes (c : TcpConn) (seg : Segment) :
    ∃ n ≤ 1, Takes n c (tcpConnTakeFin c seg).2 := by
  unfold tcpConnTakeFin
  split_ifs
  · exact ⟨0, Nat.zero_le _, Takes.refl c⟩
  · refine ⟨1, le_refl _, rfl, rfl, ?_, fun hfit ↦ ?_⟩
    · show c.recvWindowSizeReal ≤ 1 + (c.recvWindowSizeReal - 1)
      omega
    · exact (Nat.sub_le _ _).trans hfit
  · exact ⟨0, Nat.zero_le _, Takes.refl c⟩

/-- **A segment moves the right edge up or not at all.** -/
theorem tcpConnUpdateRecvState_takes (h : RecvOk c) (seg : Segment) (tsopt : TsOpt) :
    ∃ n < 2 ^ 17, Takes n c (tcpConnUpdateRecvState c seg tsopt).2 := by
  have hpayload : seg.payload.length ≤ 65515 := by
    have hlen := seg.length_le
    rw [Segment.payload, List.length_drop]
    omega
  obtain ⟨d, hd, heq⟩ := tcpConnUpdateRecvState_takeData c seg tsopt
  rw [heq, tcpConnTakeData_eq]
  -- the timestamp does not touch the receive side
  have hts : RecvOk d ∧ Takes 0 c d := by
    rcases hd with rfl | rfl
    · exact ⟨⟨h.buf, h.ooo⟩, Takes.of_eq rfl rfl rfl⟩
    · exact ⟨h, Takes.refl _⟩
  obtain ⟨hok, htakes⟩ := hts
  split_ifs with h0 h1 h2
  · have hne : seg.payload ≠ [] := List.length_pos_iff.mp h0
    cases hw : recvBufWrite d.recvBuf seg.payload with
    | error e => exact ⟨0, by decide, htakes⟩
    | ok buf =>
      have hdeliver : Takes seg.payload.length d (tcpConnDeliver d seg.payload buf) :=
        takes_of_write hok.buf hne hw rfl rfl rfl rfl
      have hwf : RecvOk (tcpConnDeliver d seg.payload buf) := by
        rcases recvBufWrite_cases hok.buf (.inl hne) with ⟨-, herr⟩ | ⟨-, buf', hok', hwf, -⟩
        · cases herr.symm.trans hw
        · cases hok'.symm.trans hw
          exact ⟨hwf, hok.ooo⟩
      obtain ⟨m, hm, hflush⟩ := tcpConnFlushOoo_takes hwf
      obtain ⟨k, hk, hfin⟩ := tcpConnTakeFin_takes
        (tcpConnFlushOoo _) seg
      exact ⟨_, by omega, ((htakes.trans hdeliver).trans hflush).trans hfin⟩
  · refine ⟨0, by decide, htakes.trans (n := 0) ?_⟩
    exact Takes.of_eq rfl rfl rfl
  · exact ⟨0, by decide, htakes⟩
  · obtain ⟨k, hk, hfin⟩ := tcpConnTakeFin_takes d seg
    exact ⟨_, by omega, htakes.trans hfin⟩

/-- Reading makes room. -/
theorem recvBufRead_space {buf : RecvBuf} (h : buf.WF) (dest : ByteBuf) :
    (recvBufRead buf dest).2.1.len = buf.len ∧
      recvBufSpace buf ≤ recvBufSpace (recvBufRead buf dest).2.1 := by
  obtain ⟨bytes, buf', hread, -, hlen, hdata, -⟩ := recvBufRead_spec h dest
  have hcount := congrArg List.length hdata
  rw [List.length_append, length_recvBufContents, length_recvBufContents] at hcount
  rw [hread]
  refine ⟨hlen, ?_⟩
  show recvBufSpace buf ≤ recvBufSpace buf'
  rw [recvBufSpace, recvBufSpace, hlen]
  split_ifs
  · exact le_refl _
  · omega

end

end Mazu.Tcp
