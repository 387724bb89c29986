import Mazu.Tcp.Stream

/-!
# In-order delivery

What the user reads is a prefix of the byte stream of the peer, whatever the order in which the
segments arrive. The invariant counts the bytes delivered so far: they are the first `n` bytes of the
stream, `recv_next` is `n` past the first byte, and the slot holds a piece of the stream.
-/

namespace Mazu.Tcp

open Serial List BitVec

/-! ## The stream and its segments -/

/-- The sequence number of byte `n` of the stream: the SYN of the peer took the initial one. -/
def streamSeq (irs : U32) (n : ℕ) : U32 := irs + 1 + BitVec.ofNat 32 n

/-- The sequence number of the first byte of a segment. -/
def firstByteSeq (seg : Segment) : U32 := if seg.syn then seg.seqNum + 1 else seg.seqNum

/-- A segment that a peer with this stream may send, now or earlier: its payload is a piece of the
stream at its place, its SYN is at the initial sequence number and its FIN at the end of the stream.
An empty segment without FIN may have any sequence number. -/
def Consistent (stream : List U8) (irs : U32) (seg : Segment) : Prop :=
  (seg.payload = [] ∧ seg.fin = false) ∨
    ∃ k, k + seg.payload.length ≤ stream.length ∧ firstByteSeq seg = streamSeq irs k ∧
      seg.payload = (stream.drop k).take seg.payload.length ∧
      (seg.syn = true → k = 0) ∧ (seg.fin = true → k + seg.payload.length = stream.length)

theorem streamSeq_add (irs : U32) (n m : ℕ) :
    streamSeq irs n + BitVec.ofNat 32 m = streamSeq irs (n + m) := by
  rw [streamSeq, streamSeq, add_assoc, ← ofNat_add]

theorem streamSeq_succ (irs : U32) (n : ℕ) : streamSeq irs n + 1 = streamSeq irs (n + 1) :=
  streamSeq_add irs n 1

theorem streamSeq_inj {irs : U32} {n m : ℕ} (hn : n < 2 ^ 32) (hm : m < 2 ^ 32) :
    streamSeq irs n = streamSeq irs m ↔ n = m := add_ofNat_inj hn hm

/-- The initial sequence number lies one before the stream. -/
theorem streamSeq_ne_irs (irs : U32) {n : ℕ} (hn : n < 2 ^ 32 - 1) : streamSeq irs n ≠ irs := by
  intro h
  have hoff : irs + BitVec.ofNat 32 (1 + n) = irs + BitVec.ofNat 32 0 := by
    rw [BitVec.ofNat_add, ← BitVec.add_assoc, BitVec.add_zero]
    exact h
  rw [add_ofNat_inj (by omega) (by decide)] at hoff
  omega

/-! ## The invariant -/

/-- The first `n` bytes of the stream were delivered: `read` to the user and the rest to the buffer.
`fin` says that the FIN was taken. -/
structure DeliveredAt (stream : List U8) (irs : U32) (read : List U8) (fin : Bool) (n : ℕ)
    (c : TcpConn) : Prop where
  le : n ≤ stream.length
  bytes : read ++ recvBufContents c.recvBuf = stream.take n
  next : c.recvNext = streamSeq irs (n + fin.toNat)
  fin_end : fin = true → n = stream.length
  slot : c.oooLen = 0 ∨ c.oooSeqNum = irs ∨ ∃ k, k + c.oooLen ≤ stream.length ∧
    c.oooSeqNum = streamSeq irs k ∧ c.oooBuf.take c.oooLen = (stream.drop k).take c.oooLen

/-- The FIN of a segment was taken by the call that left `d`: `recv_next` is one past it. -/
def finTaken (seg : Segment) (d : TcpConn) : Bool :=
  seg.fin && d.recvNext == firstByteSeq seg + BitVec.ofNat 32 seg.payload.length + 1

section

variable {stream : List U8} {irs : U32} {read : List U8} {fin : Bool} {n : ℕ} {c d : TcpConn}
  {seg : Segment}

variable (h : DeliveredAt stream irs read fin n c)

include h

/-- The invariant is about the receive side alone. -/
theorem DeliveredAt.congr (hside : d.recvSide = c.recvSide)
    : DeliveredAt stream irs read fin n d := by
  obtain ⟨hbuf, hnext, hlen, hseq, hooo⟩ := recvSide_eq_iff.mp hside
  refine ⟨h.le, ?_, ?_, h.fin_end, ?_⟩
  · rw [hbuf]
    exact h.bytes
  · rw [hnext]
    exact h.next
  · rw [hlen, hseq, hooo]
    exact h.slot

theorem DeliveredAt.offset_lt (hlen : stream.length < 2 ^ 31) : n + fin.toNat < 2 ^ 32 - 1 := by
  have := h.le
  have := Bool.toNat_le fin
  omega

/-- A segment that leaves `recv_next` where it was has had no FIN taken, unless it was taken before. -/
theorem DeliveredAt.finTaken_le (hlen : stream.length < 2 ^ 31) (hseg : Consistent stream irs seg)
    (hd : d.recvNext = c.recvNext) : (fin || finTaken seg d) = fin := by
  cases hfin : fin with
  | true => rfl
  | false =>
    rw [Bool.false_or, finTaken, hd, h.next]
    by_contra htaken
    rw [Bool.not_eq_false, Bool.and_eq_true, beq_iff_eq] at htaken
    obtain ⟨hf, hnext⟩ := htaken
    rcases hseg with ⟨-, hnf⟩ | ⟨k, hk, hfirst, -, -, hend⟩
    · rw [hf] at hnf
      cases hnf
    rw [hfirst, streamSeq_add, streamSeq_succ, hend hf,
      streamSeq_inj (by have := h.offset_lt hlen; omega) (by omega), hfin] at hnext
    have := h.le
    simp only [Bool.toNat_false] at hnext
    omega

/-- Nothing happened to the receive side. -/
theorem DeliveredAt.unchanged (hlen : stream.length < 2 ^ 31) (hseg : Consistent stream irs seg)
    (hside : d.recvSide = c.recvSide) :
    DeliveredAt stream irs read (fin || finTaken seg d) n d := by
  rw [h.finTaken_le hlen hseg (recvSide_eq_iff.mp hside).2.1]
  exact h.congr hside

omit h in
/-- The FIN comes after `m` bytes of the stream were delivered. -/
theorem DeliveredAt.takeFin (h : DeliveredAt stream irs read false n c)
    (hlen : stream.length < 2 ^ 31)
    (hpos : seg.seqNum + BitVec.ofNat 32 seg.payload.length = c.recvNext)
    (hfirst : firstByteSeq seg = seg.seqNum) (hend : seg.fin = true → n = stream.length) :
    DeliveredAt stream irs read (finTaken seg (tcpConnTakeFin c seg).2) n
      (tcpConnTakeFin c seg).2 := by
  obtain ⟨htake, hleave, hbuf, hoool, hooos, hooob⟩ := tcpConnTakeFin_spec c seg
  have hn := h.next
  rw [Bool.toNat_false, Nat.add_zero] at hn
  by_cases hfin : c.FinNext seg
  · have htaken : finTaken seg (tcpConnTakeFin c seg).2 = true := by
      rw [finTaken, hfin.1, htake hfin, hfirst, hpos, Bool.true_and, beq_self_eq_true]
    rw [htaken]
    refine ⟨h.le, ?_, ?_, fun _ ↦ hend hfin.1, ?_⟩
    · rw [hbuf]
      exact h.bytes
    · rw [htake hfin, hn, streamSeq_succ]
      rfl
    · rw [hoool, hooos, hooob]
      exact h.slot
  · have htaken : finTaken seg (tcpConnTakeFin c seg).2 = false := by
      rw [finTaken, hleave hfin, hfirst, hpos, hn, streamSeq_succ]
      have hne : streamSeq irs n ≠ streamSeq irs (n + 1) := by
        have := h.le
        rw [ne_eq, streamSeq_inj (by omega) (by omega)]
        omega
      rw [beq_eq_false_iff_ne.mpr hne, Bool.and_false]
    rw [htaken]
    refine h.congr (recvSide_eq_iff.mpr ⟨hbuf, hleave hfin, hoool, hooos, hooob⟩)

omit h in
/-- An early segment that is next extends the prefix too. -/
theorem DeliveredAt.flush (h : DeliveredAt stream irs read false n c)
    (hlen : stream.length < 2 ^ 31) (hok : RecvOk c) (hfl : c.Flushes) :
    DeliveredAt stream irs read false (n + c.oooLen) (tcpConnFlushOoo c) := by
  obtain ⟨hcont, hnext, hempty⟩ := tcpConnFlushOoo_flush hok hfl
  obtain ⟨hpos, hseq, -⟩ := hfl
  have hle := h.le
  have hn := h.next
  rw [Bool.toNat_false] at hn
  rcases h.slot with hz | hirs | ⟨k, hk, hkseq, hbytes⟩
  · exact absurd hz (Nat.pos_iff_ne_zero.mp hpos)
  · rw [hseq, hn] at hirs
    exact absurd hirs (streamSeq_ne_irs irs (by omega))
  · have hkn : k = n := by
      rw [hseq, hn, streamSeq_inj (by omega) (by omega)] at hkseq
      exact hkseq.symm
    subst hkn
    refine ⟨hk, ?_, ?_, fun hf ↦ absurd hf Bool.false_ne_true, .inl hempty⟩
    · rw [hcont, ← List.append_assoc, h.bytes, hbytes, List.take_add]
    · rw [hnext, hn, streamSeq_add]
      rfl

theorem DeliveredAt.keepSlot (hok : RecvOk c) (hfl : ¬ c.Flushes)
    : DeliveredAt stream irs read fin n (tcpConnFlushOoo c) := by
  obtain ⟨hbuf, hnext, hslot⟩ := tcpConnFlushOoo_keep hok hfl
  refine ⟨h.le, ?_, ?_, h.fin_end, ?_⟩
  · rw [hbuf]
    exact h.bytes
  · rw [hnext]
    exact h.next
  · rcases hslot with hz | ⟨hl, hs, hb⟩
    · exact .inl hz
    · rw [hl, hs, hb]
      exact h.slot

omit h in
/-- The payload at `recv_next` extends the prefix. -/
theorem DeliveredAt.deliver (h : DeliveredAt stream irs read false n c)
    (hle : n + seg.payload.length ≤ stream.length)
    (hpay : seg.payload = (stream.drop n).take seg.payload.length) {buf : RecvBuf}
    (hcont : recvBufContents buf = recvBufContents c.recvBuf ++ seg.payload) :
    DeliveredAt stream irs read false (n + seg.payload.length)
      (tcpConnDeliver c seg.payload buf) := by
  refine ⟨hle, ?_, ?_, fun hf ↦ absurd hf Bool.false_ne_true, h.slot⟩
  · show read ++ recvBufContents buf = _
    rw [hcont, ← List.append_assoc, h.bytes, List.take_add, ← hpay]
  · show c.recvNext + BitVec.ofNat 32 seg.payload.length = _
    rw [h.next, streamSeq_add]
    rfl

/-- A segment that starts at `recv_next` carries the byte after the prefix, and no SYN. -/
theorem DeliveredAt.start (hlen : stream.length < 2 ^ 31) (hseq : seg.seqNum = c.recvNext) {k : ℕ}
    (hk : k ≤ stream.length) (hfirst : firstByteSeq seg = streamSeq irs k)
    (hsyn : seg.syn = true → k = 0) : firstByteSeq seg = seg.seqNum ∧ k = n + fin.toNat := by
  have hoff := h.offset_lt hlen
  cases hs : seg.syn with
  | true =>
    rw [firstByteSeq, hs, if_pos rfl, hsyn hs, hseq, h.next, streamSeq_succ] at hfirst
    rw [streamSeq_inj (by omega) (by decide)] at hfirst
    exact absurd hfirst (Nat.succ_ne_zero _)
  | false =>
    have hsame : firstByteSeq seg = seg.seqNum := by
      rw [firstByteSeq, hs]
      rfl
    refine ⟨hsame, ?_⟩
    rw [hsame, hseq, h.next, streamSeq_inj (by omega) (by omega)] at hfirst
    exact hfirst.symm

/-- A segment that starts at `recv_next` before the end of the stream finds no FIN taken. -/
theorem DeliveredAt.not_fin (hk : n + fin.toNat ≤ stream.length) : fin = false := by
  cases hf : fin with
  | false => rfl
  | true =>
    rw [hf, h.fin_end hf] at hk
    exact absurd hk (Nat.not_succ_le_self _)

/-- An empty segment may have its FIN taken, and changes nothing else. -/
theorem DeliveredAt.takeData_empty (hlen : stream.length < 2 ^ 31)
    (hseg : Consistent stream irs seg) (hnil : seg.payload = []) :
    DeliveredAt stream irs read (fin || finTaken seg (tcpConnTakeData c seg)) n
      (tcpConnTakeData c seg) := by
  rw [tcpConnTakeData_empty hnil]
  by_cases hfin : c.FinNext seg
  · rcases hseg with ⟨-, hnf⟩ | ⟨k, hk, hfirst, -, hsyn, hend⟩
    · exact absurd (hfin.1.symm.trans hnf) (by decide)
    have hseq : seg.seqNum = c.recvNext := by
      have hnat := hfin.2
      rw [hnil] at hnat
      exact eq_of_toNat_eq hnat
    rw [hnil] at hk hend
    obtain ⟨hsame, hkn⟩ := h.start hlen hseq hk hfirst hsyn
    have hnofin := h.not_fin (hkn ▸ hk)
    subst hnofin
    refine h.takeFin hlen ?_ hsame fun hf ↦ ?_
    · rw [hnil, List.length_nil, BitVec.add_zero, hseq]
    · rw [← hend hf, hkn]
      rfl
  · obtain ⟨-, hleave, hbuf, hoool, hooos, hooob⟩ := tcpConnTakeFin_spec c seg
    exact h.unchanged hlen hseg
      (recvSide_eq_iff.mpr ⟨hbuf, hleave hfin, hoool, hooos, hooob⟩)

/-- A payload that is not delivered is dropped, or kept in the slot. -/
theorem DeliveredAt.takeData_drop (hlen : stream.length < 2 ^ 31)
    (hseg : Consistent stream irs seg) (hne : seg.payload ≠ [])
    (hdrop : seg.seqNum ≠ c.recvNext ∨ recvBufSpace c.recvBuf < seg.payload.length) :
    DeliveredAt stream irs read (fin || finTaken seg (tcpConnTakeData c seg)) n
      (tcpConnTakeData c seg) := by
  obtain ⟨hbuf, hnext, hslot⟩ := tcpConnTakeData_drop hne hdrop
  rw [h.finTaken_le hlen hseg hnext]
  rcases hslot with heq | ⟨-, hooos, hooob, hoool, -⟩
  · rw [heq]
    exact h
  · refine ⟨h.le, ?_, ?_, h.fin_end, .inr ?_⟩
    · rw [hbuf]
      exact h.bytes
    · rw [hnext]
      exact h.next
    · rcases hseg with ⟨hnil, -⟩ | ⟨k, hk, hfirst, hpay, hsyn, -⟩
      · exact absurd hnil hne
      rw [hooos, hooob, hoool]
      cases hs : seg.syn with
      | true =>
        -- its place in the slot is one byte early, where nothing will ever ask for it
        rw [firstByteSeq, hs, hsyn hs, streamSeq, BitVec.add_zero] at hfirst
        exact .inl (add_right_cancel hfirst)
      | false =>
        rw [firstByteSeq, hs] at hfirst
        exact .inr ⟨k, hk, hfirst, by rw [take_length]; exact hpay⟩

/-- **The data of one segment** keeps the invariant. -/
theorem DeliveredAt.takeData (hlen : stream.length < 2 ^ 31) (hok : RecvOk c)
    (hseg : Consistent stream irs seg) :
    ∃ m, DeliveredAt stream irs read (fin || finTaken seg (tcpConnTakeData c seg)) m
      (tcpConnTakeData c seg) := by
  by_cases hnil : seg.payload = []
  · exact ⟨n, h.takeData_empty hlen hseg hnil⟩
  by_cases hdrop : seg.seqNum ≠ c.recvNext ∨ recvBufSpace c.recvBuf < seg.payload.length
  · exact ⟨n, h.takeData_drop hlen hseg hnil hdrop⟩
  obtain ⟨hseq, hfit⟩ := not_or.mp hdrop
  rcases hseg with ⟨hnil', -⟩ | ⟨k, hk, hfirst, hpay, hsyn, hend⟩
  · exact absurd hnil' hnil
  obtain ⟨hsame, hkn⟩ := h.start hlen (not_not.mp hseq)
    (Nat.le_trans (Nat.le_add_right _ _) hk) hfirst hsyn
  have hnofin := h.not_fin (Nat.le_trans (hkn ▸ Nat.le_add_right _ _) hk)
  subst hnofin
  subst hkn
  obtain ⟨buf, heq, hok', hcont, -⟩ :=
    tcpConnTakeData_deliver hok hnil (not_not.mp hseq) (Nat.not_lt.mp hfit)
  have hdel := h.deliver hk hpay hcont
  rw [heq]
  by_cases hfl : (tcpConnDeliver c seg.payload buf).Flushes
  · -- the stream goes on behind this segment, so it has no FIN
    have hflush := hdel.flush hlen hok' hfl
    have hnf : seg.fin = false := by
      rw [← Bool.not_eq_true]
      intro hf
      have hle := hflush.le
      have hpos : 0 < c.oooLen := hfl.1
      have hdo : (tcpConnDeliver c seg.payload buf).oooLen = c.oooLen := rfl
      rw [hend hf] at hle
      omega
    obtain ⟨-, hleave, hbuf, hoool, hooos, hooob⟩ :=
      tcpConnTakeFin_spec _ seg
    refine ⟨k + seg.payload.length + c.oooLen, ?_⟩
    rw [finTaken, hnf]
    refine hflush.congr (recvSide_eq_iff.mpr ⟨hbuf, hleave fun hh ↦ ?_, hoool, hooos, hooob⟩)
    exact absurd (hh.1.symm.trans hnf) (by decide)
  · refine ⟨_, (hdel.keepSlot hok' hfl).takeFin hlen ?_ hsame hend⟩
    rw [(tcpConnFlushOoo_keep hok' hfl).2.1, not_not.mp hseq]
    rfl

end

/-! ## Runs -/

/-- The bytes a call hands to the user of a connection: what it appends to the caller's buffer. -/
def Event.bytesRead (s : TcpStack) (e : Event) (i : ConnIdx) : List U8 :=
  match e with
  | .recv j buf => if j = i then (tcpConnRecv s i buf).2.2.1.dat.drop buf.dat.length else []
  | _ => []

/-- A call takes the FIN of the segment it brings. -/
def Event.takesFin (s : TcpStack) (e : Event) (s' : TcpStack) (i : ConnIdx) : Bool :=
  match e.segmentFor s i, s'.connTable i with
  | some seg, some d => finTaken seg d
  | _, _ => false

/-- The calls from `s₀` on while the connection of slot `i` lives: any calls at all, as long as the
segments for this connection are consistent with the stream. Along them go the bytes the user has
read and whether the FIN was taken. -/
inductive Receives (stream : List U8) (irs : U32) (i : ConnIdx) (s₀ : TcpStack) :
    List U8 → Bool → TcpStack → Prop
  | start : Receives stream irs i s₀ [] false s₀
  | step {read : List U8} {fin : Bool} {s s' : TcpStack} (env : NetEnv) (e : Event)
      (hrun : Receives stream irs i s₀ read fin s) (he : e.Allowed s)
      (h : Tcp.step env s e = some s')
      (hseg : ∀ seg, e.segmentFor s i = some seg → Consistent stream irs seg)
      (hlive : s'.generation i = s.generation i) :
      Receives stream irs i s₀ (read ++ e.bytesRead s i) (fin || e.takesFin s s' i) s'

/-- The connection has seen the SYN of the peer, and the invariant holds of it. Before the handshake
is over its buffer is empty, because it gets a fresh one then. -/
structure Receiving (stream : List U8) (irs : U32) (read : List U8) (fin : Bool) (c : TcpConn) :
    Prop where
  state : c.state ≠ .listen ∧ c.state ≠ .synSent
  synRcvd : c.state = .synRcvd → recvBufContents c.recvBuf = []
  delivered : ∃ n, DeliveredAt stream irs read fin n c

section

variable {stream : List U8} {irs : U32} {read : List U8} {fin : Bool} {c d : TcpConn}

/-- What is neither a segment nor a read leaves the receive side. -/
theorem Micro.recvSide_of_other (h : Micro .other c d) :
    d.recvSide = c.recvSide ∧ (d.state = c.state ∨ d.state.Synchronized) := by
  cases h with
  | inert | queueEmpty | queueSyn | queueData | release | retransmit | timeout
  | probe => exact ⟨rfl, .inl rfl⟩
  | reset => exact ⟨rfl, .inr (show TcpConnState.reset.Synchronized by decide)⟩
  | queueFin env _ h | finUnsent _ h => exact ⟨rfl, .inr (finStates h).2.2⟩

variable (h : Receiving stream irs read fin c)

include h

theorem Receiving.congr (hside : d.recvSide = c.recvSide)
    (hst : d.state = c.state ∨ d.state.Synchronized) : Receiving stream irs read fin d := by
  obtain ⟨n, hn⟩ := h.delivered
  refine ⟨?_, fun hd ↦ ?_, n, hn.congr hside⟩
  · rcases hst with hst | hst
    · rw [hst]
      exact h.state
    · exact ⟨hst.1, hst.2.1⟩
  · rcases hst with hst | hst
    · rw [(recvSide_eq_iff.mp hside).1]
      exact h.synRcvd (hst.symm.trans hd)
    · exact absurd hd hst.2.2

theorem Receiving.other (hev : Evolves .other c d) : Receiving stream irs read fin d :=
  hev.invariant (fun _ _ hc hm ↦ hc.congr hm.recvSide_of_other.1 hm.recvSide_of_other.2) h

/-- Reading moves bytes from the buffer to the user. -/
theorem Receiving.handOver (hok : RecvOk c) (dest : ByteBuf) :
    Receiving stream irs
      (read ++ (recvBufRead c.recvBuf dest).2.2.dat.drop dest.dat.length) fin
      { c with recvBuf := (recvBufRead c.recvBuf dest).2.1 } := by
  obtain ⟨bytes, buf', hread, -, -, hcont, -⟩ := recvBufRead_spec hok.buf dest
  obtain ⟨n, hn⟩ := h.delivered
  rw [hread]
  refine ⟨h.state, fun hst ↦ ?_, n, hn.le, ?_, hn.next, hn.fin_end, hn.slot⟩
  · have hnil := h.synRcvd hst
    rw [hcont] at hnil
    exact (append_eq_nil_iff.mp hnil).2
  · rw [List.drop_left, List.append_assoc, ← hcont]
    exact hn.bytes

/-- The handshake gives the connection its buffer. -/
theorem Receiving.open (hst : c.state = .synRcvd) (hside : d.recvSide = opened c.recvSide)
    (hd : d.state = .established) : Receiving stream irs read fin d := by
  obtain ⟨n, hn⟩ := h.delivered
  have hbytes := hn.bytes
  rw [h.synRcvd hst] at hbytes
  have hconn : DeliveredAt stream irs read fin n { c with recvBuf := recvBufNew } :=
    ⟨hn.le, by rw [recvBufContents_new]; exact hbytes, hn.next, hn.fin_end, hn.slot⟩
  refine ⟨?_, fun hd' ↦ ?_, n, hconn.congr hside⟩
  · rw [hd]
    decide
  · rw [hd] at hd'
    cases hd'

omit h

section

variable {env : NetEnv} {s s' : TcpStack} {e : Event} {i : ConnIdx} {seg : Segment}

/-- A segment for the connection. -/
theorem Receiving.segment (hrec : Receiving stream irs read fin c)
    (hlen : stream.length < 2 ^ 31) (hok : RecvOk c) (h : step env s e = some s')
    (hc : s.connTable i = some c) (hd : s'.connTable i = some d)
    (hsf : e.segmentFor s i = some seg) (hseg : Consistent stream irs seg) :
    Receiving stream irs read (fin || finTaken seg d) d := by
  obtain ⟨n, hn⟩ := hrec.delivered
  by_cases hst : c.state = .synRcvd
  · obtain ⟨hostAddr, peerAddr, rfl, hlook⟩ := Event.exists_packet_of_segmentFor hsf
    cases h
    rcases tcpHandlePacketLocked_synRcvd env hlook hc hst
      with ⟨hnone, -⟩ | ⟨d', hd', ⟨-, -, hdst, hside⟩ | ⟨-, hdst, hside⟩⟩
    · rw [hnone] at hd
      cases hd
    · cases hd'.symm.trans hd
      rw [hn.finTaken_le hlen hseg (recvSide_eq_iff.mp hside).2.1]
      exact hrec.congr hside (.inl (hdst.trans hst.symm))
    · cases hd'.symm.trans hd
      have hnext : d.recvNext = c.recvNext := congrArg RecvSide.next hside
      rw [hn.finTaken_le hlen hseg hnext]
      exact hrec.open hst hside hdst
  · have hsync : c.state.Synchronized := ⟨hrec.state.1, hrec.state.2, hst⟩
    rcases step_slot_of_segmentFor h hsf hc hsync with ⟨-, hnone⟩ | ⟨st, d', htrans, hd', hdst, htook⟩
    · rw [hnone] at hd
      cases hd
    cases hd'.symm.trans hd
    have hdsync : d.state.Synchronized := by
      rw [hdst]
      exact transition_synchronized hsync htrans
    refine ⟨⟨hdsync.1, hdsync.2.1⟩, fun hd' ↦ absurd hd' hdsync.2.2, ?_⟩
    cases hup : updatesRecv c.state seg with
    | false =>
      have hside := htook.recvSide
      rw [hup] at hside
      exact ⟨n, hn.unchanged hlen hseg hside⟩
    | true =>
      have hside := htook.recvSide
      rw [hup] at hside
      obtain ⟨m, hm⟩ := hn.takeData hlen hok hseg
      have hfin : finTaken seg d = finTaken seg (tcpConnTakeData c seg) := by
        rw [finTaken, finTaken, (recvSide_eq_iff.mp hside).2.1]
      rw [hfin]
      exact ⟨m, hm.congr hside⟩

/-- A call without a segment for the connection reads from it, or leaves its receive side. -/
theorem Event.read_or_other (hsf : e.segmentFor s i = none) :
    (∃ buf, e = .recv i buf) ∨ e.cause s i = .other ∧ e.bytesRead s i = [] := by
  cases e with
  | packet hostAddr peerAddr seg =>
    refine .inr ⟨?_, rfl⟩
    simp only [segmentFor] at hsf
    simp only [cause]
    split_ifs at hsf ⊢
    rfl
  | recv j buf =>
    by_cases hj : j = i
    · subst hj
      exact .inl ⟨buf, rfl⟩
    · exact .inr ⟨if_neg hj, if_neg hj⟩
  | _ => exact .inr ⟨rfl, rfl⟩

/-- Reading, as a call. -/
theorem Receiving.recv (hrec : Receiving stream irs read fin c) (hok : RecvOk c)
    (hc : s.connTable i = some c) (buf : ByteBuf) :
    ∃ d, (tcpConnRecv s i buf).2.2.2.connTable i = some d ∧
      Receiving stream irs (read ++ Event.bytesRead s (.recv i buf) i) fin d := by
  have hbytes : Event.bytesRead s (.recv i buf) i
      = (tcpConnRecv s i buf).2.2.1.dat.drop buf.dat.length := if_pos rfl
  rw [hbytes]
  simp only [tcpConnRecv, hc]
  split_ifs
  · refine ⟨c, hc, ?_⟩
    rw [drop_length, append_nil]
    exact hrec
  · exact ⟨_, setConn_connTable_self _ _ _, hrec.handOver hok buf⟩

/-- **One call** keeps the invariant. -/
theorem Receiving.step (hrec : Receiving stream irs read fin c) (hlen : stream.length < 2 ^ 31)
    (hs : Reachable s) (he : e.Allowed s) (h : Tcp.step env s e = some s')
    (hc : s.connTable i = some c)
    (hseg : ∀ seg, e.segmentFor s i = some seg → Consistent stream irs seg)
    (hlive : s'.generation i = s.generation i) :
    ∃ d, s'.connTable i = some d ∧
      Receiving stream irs (read ++ e.bytesRead s i) (fin || e.takesFin s s' i) d := by
  have hok := (hs.connInv i c hc).recv
  obtain ⟨f, hstack⟩ := step_evolves he h
  have hslot := hstack.slots i
  rw [TcpStack.slot, hc] at hslot
  obtain ⟨d, hd, hev⟩ := hslot.evolves hlive
  cases hsf : e.segmentFor s i with
  | some seg =>
    have hfin : e.takesFin s s' i = finTaken seg d := by
      simp only [Event.takesFin, hsf]
      rw [show s'.connTable i = some d from hd]
    have hnone : e.bytesRead s i = [] := by
      obtain ⟨hostAddr, peerAddr, rfl, -⟩ := Event.exists_packet_of_segmentFor hsf
      rfl
    rw [hfin, hnone, append_nil]
    exact ⟨d, hd, hrec.segment hlen hok h hc hd hsf (hseg seg hsf)⟩
  | none =>
    have hfin : e.takesFin s s' i = false := by simp only [Event.takesFin, hsf]
    rw [hfin, Bool.or_false]
    rcases Event.read_or_other hsf with ⟨buf, rfl⟩ | ⟨hother, hnone⟩
    · cases h
      exact hrec.recv hok hc buf
    · rw [hnone, append_nil]
      rw [hother] at hev
      exact ⟨d, hd, hrec.other hev⟩

end

/-- The connection at the beginning: it knows the initial sequence number of the peer and has
received nothing. -/
structure Untouched (irs : U32) (c : TcpConn) : Prop where
  state : c.state ≠ .listen ∧ c.state ≠ .synSent
  next : c.recvNext = irs + 1
  empty : recvBufContents c.recvBuf = []
  slot : c.oooLen = 0

theorem Untouched.receiving {irs : U32} {c : TcpConn} (h : Untouched irs c) (stream : List U8) :
    Receiving stream irs [] false c := by
  refine ⟨h.state, fun _ ↦ h.empty, 0, Nat.zero_le _, ?_, ?_, fun hf ↦ ?_, .inl h.slot⟩
  · rw [h.empty, take_zero, append_nil]
  · rw [h.next]
    exact (add_zero _).symm
  · cases hf

/-- The calls of such a run lead from reachable states to reachable states, and keep the invariant. -/
theorem Receives.receiving {i : ConnIdx} {s₀ : TcpStack} (hs : Reachable s₀)
    (hlen : stream.length < 2 ^ 31) {c₀ : TcpConn} (hc₀ : s₀.connTable i = some c₀)
    (h₀ : Untouched irs c₀) {s : TcpStack} (hrun : Receives stream irs i s₀ read fin s) :
    Reachable s ∧ ∃ c, s.connTable i = some c ∧ Receiving stream irs read fin c := by
  induction hrun with
  | start => exact ⟨hs, c₀, hc₀, h₀.receiving stream⟩
  | step env e _ he h hseg hlive ih =>
    obtain ⟨hreach, c, hc, hrec⟩ := ih
    exact ⟨hreach.step env e he h, hrec.step hlen hreach he h hc hseg hlive⟩

/-- **In-order delivery.** For every stream of the peer and every run in which the segments for the
connection are consistent with it, what the user has read followed by the bytes in the buffer is a
prefix of the stream, and `recv_next` is as far behind the initial sequence number, one more once
the FIN was taken, which is at the end of the stream. -/
theorem delivered_in_order {i : ConnIdx} {s₀ s : TcpStack} (hs : Reachable s₀)
    (hlen : stream.length < 2 ^ 31) {c₀ : TcpConn} (hc₀ : s₀.connTable i = some c₀)
    (h₀ : Untouched irs c₀) (hrun : Receives stream irs i s₀ read fin s)
    (hc : s.connTable i = some c) :
    read ++ recvBufContents c.recvBuf <+: stream ∧
      c.recvNext = irs + 1
        + BitVec.ofNat 32 ((read ++ recvBufContents c.recvBuf).length + fin.toNat) ∧
      (fin = true → read ++ recvBufContents c.recvBuf = stream) := by
  obtain ⟨-, c', hc', hrec⟩ := hrun.receiving hs hlen hc₀ h₀
  cases hc.symm.trans hc'
  obtain ⟨n, hn⟩ := hrec.delivered
  rw [hn.bytes, length_take, Nat.min_eq_left hn.le]
  refine ⟨ take_prefix _ _, hn.next, fun hf ↦ ?_⟩
  rw [hn.fin_end hf, take_length]

end

/-- Consistency, evaluated: the place in the stream is one of finitely many. -/
instance (stream : List U8) (irs : U32) (seg : Segment) : Decidable (Consistent stream irs seg) :=
  decidable_of_iff ((seg.payload = [] ∧ seg.fin = false) ∨
    ∃ k, k < stream.length + 1 ∧ (k + seg.payload.length ≤ stream.length ∧
      firstByteSeq seg = streamSeq irs k ∧
      seg.payload = (stream.drop k).take seg.payload.length ∧
      (seg.syn = true → k = 0) ∧ (seg.fin = true → k + seg.payload.length = stream.length))) (by
    refine or_congr_right ⟨fun ⟨k, _, h⟩ ↦ ⟨k, h⟩, fun ⟨k, h⟩ ↦ ⟨k, ?_, h⟩⟩
    exact Nat.lt_succ_of_le (Nat.le_trans (Nat.le_add_right _ _) h.1))

/-- A run with a given stream, evaluated. -/
def receiveCalls (stream : List U8) (irs : U32) (i : ConnIdx) :
    List (NetEnv × Event) → List U8 → Bool → TcpStack → Option (List U8 × Bool × TcpStack)
  | [], read, fin, s => some (read, fin, s)
  | (env, e) :: calls, read, fin, s =>
    if e.Allowed s ∧ (e.segmentFor s i).all (fun seg ↦ decide (Consistent stream irs seg)) then
      (step env s e).bind fun s' ↦
        if s'.generation i = s.generation i then
          receiveCalls stream irs i calls (read ++ e.bytesRead s i) (fin || e.takesFin s s' i) s'
        else none
    else none

theorem Receives.receiveCalls {stream : List U8} {irs : U32} {i : ConnIdx} {s₀ : TcpStack}
    {calls : List (NetEnv × Event)} :
    ∀ {read read' : List U8} {fin fin' : Bool} {s s' : TcpStack},
      Receives stream irs i s₀ read fin s →
      Tcp.receiveCalls stream irs i calls read fin s = some (read', fin', s') →
      Receives stream irs i s₀ read' fin' s' := by
  induction calls with
  | nil =>
    intro read read' fin fin' s s' hrun h
    cases h
    exact hrun
  | cons call calls ih =>
    intro read read' fin fin' s s' hrun h
    obtain ⟨env, e⟩ := call
    rw [Tcp.receiveCalls] at h
    split_ifs at h with hok
    obtain ⟨t, ht, h⟩ := Option.bind_eq_some_iff.mp h
    split_ifs at h with hlive
    refine ih (hrun.step env e hok.1 ht (fun seg hsf ↦ ?_) hlive) h
    have hall := hok.2
    rw [hsf] at hall
    exact of_decide_eq_true hall

/-- The five bytes of the run below. -/
def fiveBytes : List U8 := [10, 20, 30, 40, 50]

/-- The last three bytes arrive first, then the first two, the user reads four, and the FIN comes. -/
def earlyThenRead : List (NetEnv × Event) :=
  [(.sending 2 hostA 1000, .packet hostA peerA
      (.data 5000 80 4 1001 tcpHdrFlagAck 1000 [30, 40, 50] (by decide))),
    (.sending 3 hostA 1000, .packet hostA peerA
      (.data 5000 80 2 1001 tcpHdrFlagAck 1000 [10, 20] (by decide))),
    (.sending 4 hostA 1000, .recv ⟨1, one_lt_tcpConnMaxNum⟩ ⟨[], 4⟩),
    (.sending 5 hostA 1000, .packet hostA peerA
      (.bare 5000 80 7 1001 (tcpHdrFlagFin ||| tcpHdrFlagAck) 1000))]

theorem delivered_in_order_early : ∃ s₀ c₀ s c, Reachable s₀ ∧
    s₀.connTable ⟨1, by decide⟩ = some c₀ ∧ Untouched 1 c₀ ∧ s.connTable ⟨1, by decide⟩ = some c ∧
    Receives fiveBytes 1 ⟨1, by decide⟩ s₀ [10, 20, 30, 40] true s ∧
    [10, 20, 30, 40] ++ recvBufContents c.recvBuf = fiveBytes := by
  obtain ⟨s₀, c₀, hs, hc₀, hp⟩ := exists_conn_of_runCalls 0 serverHandshake ⟨1, by decide⟩
    (fun s c ↦ decide (c.state = .established ∧ c.recvNext = 2 ∧
        recvBufContents c.recvBuf = [] ∧ c.oooLen = 0) &&
      (receiveCalls fiveBytes 1 ⟨1, by decide⟩ earlyThenRead [] false s).any
        fun r : List U8 × Bool × TcpStack ↦ decide (r.1 = [10, 20, 30, 40] ∧ r.2.1 = true) &&
          (r.2.2.connTable ⟨1, by decide⟩).isSome)
    (by decide +kernel)
  rw [Bool.and_eq_true, Option.any_eq_true] at hp
  obtain ⟨hstart, ⟨read, fin, s⟩, hcalls, hend⟩ := hp
  obtain ⟨hst, hnext, hempty, hslot⟩ := of_decide_eq_true hstart
  rw [Bool.and_eq_true, Option.isSome_iff_exists] at hend
  obtain ⟨hread, c, hc⟩ := hend
  obtain ⟨rfl, rfl⟩ := of_decide_eq_true hread
  have h₀ : Untouched 1 c₀ := ⟨by rw [hst]; decide, hnext, hempty, hslot⟩
  have hrun := Receives.start.receiveCalls hcalls
  exact ⟨s₀, c₀, s, c, hs, hc₀, h₀, hc, hrun,
    (delivered_in_order hs (by decide) hc₀ h₀ hrun hc).2.2 rfl⟩

end Mazu.Tcp
