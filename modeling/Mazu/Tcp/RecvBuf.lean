import Mazu.Base
import Mazu.Lib.RingMem

/-!
# The circular receive buffer

`struct recv_buf` of `kernel/net/tcp.c` with its five operations. The buffer holds at most
`len - 1` bytes, so that `head = tail` means empty. Wrapping is by `& (len - 1)`, which is the
remainder only for a power of two; `RecvBuf.WF` carries that, and `recvBufContents` is what the
buffer means. Nothing after this file looks at `head`, `tail` or the masking again.
-/

namespace Mazu.Tcp

open RingMem List

/-- The capacity of a receive buffer. -/
def tcpConnRecvBufSize : ℕ := 0x4000

/-- `struct recv_buf`. The region is a function of the offset and `len` its size; a buffer that is
not allocated has `len = 0`. -/
structure RecvBuf where
  data : ℕ → U8
  len : ℕ
  head : ℕ
  tail : ℕ

/-- `struct byte_buf`: the bytes appended so far, and how many the buffer can hold. -/
structure ByteBuf where
  dat : List U8
  cap : ℕ

def isPowerOf2 (n : ℕ) : Bool := decide (n > 0) && (n &&& (n - 1)) == 0

/-- The buffer before it is allocated. -/
def recvBufNone : RecvBuf := ⟨fun _ ↦ 0, 0, 0, 0⟩

/-- A block fresh from the pool, which hands out zeroed memory. -/
def recvBufNew : RecvBuf := ⟨fun _ ↦ 0, tcpConnRecvBufSize, 0, 0⟩

def recvBufCount (buf : RecvBuf) : ℕ :=
  if buf.len = 0 then 0 else (buf.head + buf.len - buf.tail) &&& (buf.len - 1)

def recvBufSpace (buf : RecvBuf) : ℕ :=
  if buf.len = 0 then 0 else buf.len - 1 - recvBufCount buf

def recvBufWrite (buf : RecvBuf) (data : List U8) : Except Errno RecvBuf :=
  if data.length > recvBufSpace buf then .error eagain
  else
    let cap := buf.len
    if cap = 0 ∨ !isPowerOf2 cap then .error einval
    else if buf.head ≥ cap then .error einval
    else
      let tailSpace := cap - buf.head
      if data.length ≤ tailSpace then
        if buf.head + data.length > cap then .error einval
        else .ok { buf with
          data := copyIn buf.data buf.head data
          head := (buf.head + data.length) &&& (cap - 1) }
      else if tailSpace > cap then .error einval
      else if data.length - tailSpace = 0 ∨ data.length - tailSpace > cap then .error einval
      else .ok { buf with
        data := copyIn (copyIn buf.data buf.head (data.take tailSpace)) 0 (data.drop tailSpace)
        head := (buf.head + data.length) &&& (cap - 1) }

/-- Returns the number of bytes read, with the buffer and the destination after the call. -/
def recvBufRead (buf : RecvBuf) (dest : ByteBuf) : ℕ × RecvBuf × ByteBuf :=
  if dest.cap = 0 then (0, buf, dest)
  else if dest.cap < dest.dat.length then (0, buf, dest)
  else
    let toRead := min (recvBufCount buf) (dest.cap - dest.dat.length)
    if toRead = 0 then (0, buf, dest)
    else
      let cap := buf.len
      if cap = 0 ∨ !isPowerOf2 cap then (0, buf, dest)
      else if buf.tail ≥ cap then (0, buf, dest)
      else
        let tailAvail := cap - buf.tail
        let tail := (buf.tail + toRead) &&& (cap - 1)
        if toRead ≤ tailAvail then
          if buf.tail + toRead > cap ∨ dest.dat.length + toRead > dest.cap then (0, buf, dest)
          else (toRead, { buf with tail := tail },
            { dest with dat := dest.dat ++ copyOut buf.data buf.tail toRead })
        else
          let remaining := toRead - tailAvail
          if tailAvail = 0 ∨ buf.tail + tailAvail > cap then (0, buf, dest)
          else if dest.dat.length + tailAvail > dest.cap then (0, buf, dest)
          else if remaining = 0 ∨ remaining > cap then (0, buf, dest)
          else if dest.dat.length + tailAvail + remaining > dest.cap then (0, buf, dest)
          else (toRead, { buf with tail := tail },
            { dest with
              dat := dest.dat ++ copyOut buf.data buf.tail tailAvail
                ++ copyOut buf.data 0 remaining })

/-! ## What a well-formed buffer holds -/

/-- Either not allocated, or a power of two in size with both positions inside. -/
structure RecvBuf.WF (buf : RecvBuf) : Prop where
  pow : buf.len = 0 ∨ ∃ k, buf.len = 2 ^ k
  head_lt : buf.len ≠ 0 → buf.head < buf.len
  tail_lt : buf.len ≠ 0 → buf.tail < buf.len

/-- The bytes in the buffer, oldest first. -/
def recvBufContents (buf : RecvBuf) : List U8 :=
  contents buf.data buf.len buf.tail (recvBufCount buf)

theorem isPowerOf2_two_pow (k : ℕ) : isPowerOf2 (2 ^ k) = true := by
  have hpos : 2 ^ k > 0 := Nat.two_pow_pos k
  rw [isPowerOf2, decide_eq_true hpos, Nat.and_two_pow_sub_one_eq_mod, Nat.mod_self]
  rfl

theorem recvBufNone_wf : recvBufNone.WF :=
  ⟨.inl rfl, absurd rfl, absurd rfl⟩

theorem recvBufNew_wf : recvBufNew.WF :=
  ⟨.inr ⟨14, rfl⟩, fun _ ↦ by decide, fun _ ↦ by decide⟩

@[simp] theorem recvBufContents_new : recvBufContents recvBufNew = [] := by
  have h : recvBufCount recvBufNew = 0 := by decide
  rw [recvBufContents, h, contents_zero]

@[simp] theorem length_recvBufContents (buf : RecvBuf) :
    (recvBufContents buf).length = recvBufCount buf := length_contents

namespace RecvBuf.WF

variable {buf : RecvBuf} (h : buf.WF)
include h

theorem and_mask (hlen : buf.len ≠ 0) (x : ℕ) : x &&& (buf.len - 1) = x % buf.len := by
  obtain h0 | ⟨k, hk⟩ := h.pow
  · exact absurd h0 hlen
  · rw [hk, Nat.and_two_pow_sub_one_eq_mod]

theorem isPowerOf2 (hlen : buf.len ≠ 0) : Tcp.isPowerOf2 buf.len = true := by
  obtain h0 | ⟨k, hk⟩ := h.pow
  · exact absurd h0 hlen
  · rw [hk, isPowerOf2_two_pow]

theorem count_eq (hlen : buf.len ≠ 0) :
    recvBufCount buf = (buf.head + buf.len - buf.tail) % buf.len := by
  rw [recvBufCount, if_neg hlen, h.and_mask hlen]

theorem count_lt (hlen : buf.len ≠ 0) : recvBufCount buf < buf.len := by
  rw [h.count_eq hlen]
  exact Nat.mod_lt _ (Nat.pos_of_ne_zero hlen)

/-- The head is where the contents end. -/
theorem head_eq (hlen : buf.len ≠ 0) :
    buf.head = (buf.tail + recvBufCount buf) % buf.len := by
  have hh := h.head_lt hlen
  have ht := h.tail_lt hlen
  rw [h.count_eq hlen, Nat.add_mod_mod, show buf.tail + (buf.head + buf.len - buf.tail)
    = buf.head + buf.len by omega, Nat.add_mod_right, Nat.mod_eq_of_lt hh]

/-- A count is determined by the positions it leads to. -/
theorem count_of_head_eq {n : ℕ} (hlen : buf.len ≠ 0) (hn : n < buf.len)
    (hhead : buf.head = (buf.tail + n) % buf.len) : recvBufCount buf = n := by
  have ht := h.tail_lt hlen
  have hmod : (buf.head + buf.len - buf.tail) % buf.len = n := by
    rw [hhead]
    rcases Nat.lt_or_ge (buf.tail + n) buf.len with hlt | hge
    · rw [Nat.mod_eq_of_lt hlt, show buf.tail + n + buf.len - buf.tail = n + buf.len by omega,
        Nat.add_mod_right, Nat.mod_eq_of_lt hn]
    · rw [Nat.mod_eq_sub_mod hge, Nat.mod_eq_of_lt (by omega : buf.tail + n - buf.len < buf.len),
        show buf.tail + n - buf.len + buf.len - buf.tail = n by omega, Nat.mod_eq_of_lt hn]
  rw [h.count_eq hlen, hmod]

theorem of_len_eq {buf' : RecvBuf} (hlen : buf'.len = buf.len)
    (hhead : buf'.len ≠ 0 → buf'.head < buf'.len) (htail : buf'.len ≠ 0 → buf'.tail < buf'.len) :
    buf'.WF :=
  ⟨by rw [hlen]; exact h.pow, hhead, htail⟩

end RecvBuf.WF

theorem len_ne_zero_of_lt_recvBufSpace {buf : RecvBuf} {n : ℕ} (h : n < recvBufSpace buf) :
    buf.len ≠ 0 := by
  intro h0
  rw [recvBufSpace, if_pos h0] at h
  omega

/-! ## Writing -/

/-- The two branches of the copy are one write of the ring. -/
private theorem recvBufWrite_of_le {buf : RecvBuf} {data : List U8} (h : buf.WF)
    (hlen : buf.len ≠ 0) (hle : data.length ≤ recvBufSpace buf) :
    recvBufWrite buf data = .ok { buf with
      data := write buf.data buf.len buf.head data
      head := (buf.head + data.length) % buf.len } := by
  have hspace : recvBufSpace buf < buf.len := by
    rw [recvBufSpace, if_neg hlen]
    omega
  have hhead := h.head_lt hlen
  have hp2 : ¬(buf.len = 0 ∨ (!isPowerOf2 buf.len) = true) := by
    rw [h.isPowerOf2 hlen]
    simp [hlen]
  rw [recvBufWrite, if_neg (by omega), if_neg hp2, if_neg (by omega), h.and_mask hlen, write]
  by_cases hfit : data.length ≤ buf.len - buf.head
  · rw [if_pos hfit, if_pos hfit, if_neg (by omega)]
  · rw [if_neg hfit, if_neg hfit, if_neg (by omega), if_neg (by omega)]

/-- **A write appends, or changes nothing.** It fails exactly when the bytes do not fit. -/
theorem recvBufWrite_cases {buf : RecvBuf} (h : buf.WF) {data : List U8}
    (hne : data ≠ [] ∨ buf.len ≠ 0) :
    (recvBufSpace buf < data.length ∧ recvBufWrite buf data = .error eagain) ∨
      (data.length ≤ recvBufSpace buf ∧ ∃ buf', recvBufWrite buf data = .ok buf' ∧ buf'.WF ∧
        buf'.len = buf.len ∧ recvBufContents buf' = recvBufContents buf ++ data) := by
  rcases Nat.lt_or_ge (recvBufSpace buf) data.length with hlt | hle
  · left
    exact ⟨hlt, by rw [recvBufWrite, if_pos hlt]⟩
  · right
    have hlen : buf.len ≠ 0 := hne.elim (fun hne ↦ len_ne_zero_of_lt_recvBufSpace
      (Nat.lt_of_lt_of_le (length_pos_iff.mpr hne) hle)) id
    have hroom : recvBufCount buf + data.length < buf.len := by
      have hc := h.count_lt hlen
      rw [recvBufSpace, if_neg hlen] at hle
      omega
    refine ⟨hle, _, recvBufWrite_of_le h hlen hle, ?_, rfl, ?_⟩
    · exact h.of_len_eq rfl (fun _ ↦ Nat.mod_lt _ (Nat.pos_of_ne_zero hlen)) h.tail_lt
    · have hwf' : RecvBuf.WF { buf with
          data := write buf.data buf.len buf.head data
          head := (buf.head + data.length) % buf.len } :=
        h.of_len_eq rfl (fun _ ↦ Nat.mod_lt _ (Nat.pos_of_ne_zero hlen)) h.tail_lt
      have hcount := hwf'.count_of_head_eq hlen hroom (by
        rw [h.head_eq hlen, Nat.mod_add_mod, Nat.add_assoc])
      rw [recvBufContents, hcount]
      rw [h.head_eq hlen]
      exact contents_write (h.tail_lt hlen) (by omega)

/-- What a write leaves of the space. -/
theorem recvBufSpace_of_append {buf buf' : RecvBuf} {data : List U8} (hlen : buf'.len = buf.len)
    (h : recvBufContents buf' = recvBufContents buf ++ data) :
    recvBufSpace buf' = recvBufSpace buf - data.length := by
  have hcount : recvBufCount buf' = recvBufCount buf + data.length := by
    rw [← length_recvBufContents, h, length_append, length_recvBufContents]
  rw [recvBufSpace, recvBufSpace, hlen, hcount]
  split_ifs
  · exact (Nat.zero_sub _).symm
  · exact (Nat.sub_sub _ _ _).symm

/-! ## Reading -/

/-- The two branches of the copy both read a stretch of the ring that starts at the tail. -/
private theorem recvBufRead_eq {buf : RecvBuf} (h : buf.WF) (hlen : buf.len ≠ 0) (dest : ByteBuf)
    {n : ℕ} (hmin : min (recvBufCount buf) (dest.cap - dest.dat.length) = n) :
    recvBufRead buf dest = (n, { buf with tail := (buf.tail + n) % buf.len },
      { dest with dat := dest.dat ++ contents buf.data buf.len buf.tail n }) := by
  have hc := h.count_lt hlen
  have ht := h.tail_lt hlen
  have hp2 : ¬(buf.len = 0 ∨ (!isPowerOf2 buf.len) = true) := by
    rw [h.isPowerOf2 hlen]
    simp [hlen]
  rw [recvBufRead, hmin]
  by_cases hzero : n = 0
  · rw [if_pos hzero, ite_self, ite_self, hzero, Nat.add_zero, Nat.mod_eq_of_lt ht, contents_zero,
      append_nil]
  rw [if_neg (by omega), if_neg (by omega), if_neg hzero, if_neg hp2, if_neg (by omega),
    h.and_mask hlen]
  by_cases hfit : n ≤ buf.len - buf.tail
  · rw [if_pos hfit, if_neg (by omega), contents_eq_copyOut (by omega)]
  · rw [if_neg hfit, if_neg (by omega), if_neg (by omega), if_neg (by omega), if_neg (by omega),
      contents_eq_copyOut_append (by omega) (by omega) (by omega), append_assoc]

/-- **A read takes from the front.** The bytes it returns followed by what is left are what the
buffer held, and they are as many as the destination can take. -/
theorem recvBufRead_spec {buf : RecvBuf} (h : buf.WF) (dest : ByteBuf) :
    ∃ bytes buf', recvBufRead buf dest
        = (bytes.length, buf', { dest with dat := dest.dat ++ bytes }) ∧
      buf'.WF ∧ buf'.len = buf.len ∧ recvBufContents buf = bytes ++ recvBufContents buf' ∧
      bytes.length = min (recvBufCount buf) (dest.cap - dest.dat.length) := by
  by_cases hlen : buf.len = 0
  · refine ⟨[], buf, ?_, h, rfl, rfl, ?_⟩ <;> simp [recvBufRead, recvBufCount, hlen]
  obtain ⟨n, hmin⟩ : ∃ n, min (recvBufCount buf) (dest.cap - dest.dat.length) = n := ⟨_, rfl⟩
  have hn : n ≤ recvBufCount buf := hmin ▸ Nat.min_le_left _ _
  have hwf : RecvBuf.WF { buf with tail := (buf.tail + n) % buf.len } :=
    h.of_len_eq rfl h.head_lt fun _ ↦ Nat.mod_lt _ (Nat.pos_of_ne_zero hlen)
  have hlt : recvBufCount buf - n < buf.len := by
    have := h.count_lt hlen
    omega
  have hhead : buf.head = ((buf.tail + n) % buf.len + (recvBufCount buf - n)) % buf.len := by
    rw [Nat.mod_add_mod, show buf.tail + n + (recvBufCount buf - n)
      = buf.tail + recvBufCount buf by omega]
    exact h.head_eq hlen
  refine ⟨contents buf.data buf.len buf.tail n, _, ?_, hwf, rfl, ?_, ?_⟩
  · rw [recvBufRead_eq h hlen dest hmin, length_contents]
  · rw [recvBufContents, recvBufContents, hwf.count_of_head_eq hlen hlt hhead,
      contents_mod_tail, ← contents_add, Nat.add_sub_cancel' hn]
  · rw [length_contents, hmin]

/-! ## The buffer as a bounded queue -/

/-- A call on the buffer. -/
inductive BufCall
  | write (data : List U8)
  | read (dest : ByteBuf)

/-- What a call returns: the error of a write, if any, or the count and the destination of a
read. -/
inductive BufAnswer
  | wrote (error : Option Errno)
  | got (n : ℕ) (dest : ByteBuf)

def RecvBuf.call (buf : RecvBuf) : BufCall → BufAnswer × RecvBuf
  | .write data => match recvBufWrite buf data with
    | .ok buf' => (.wrote none, buf')
    | .error e => (.wrote (some e), buf)
  | .read dest => match recvBufRead buf dest with
    | (n, buf', dest') => (.got n dest', buf')

/-- The queue the buffer is meant to be: at most `cap` bytes, oldest first. A write is all or
nothing, and a read takes as many of the oldest bytes as there is room for. -/
def fifoCall (cap : ℕ) (q : List U8) : BufCall → BufAnswer × List U8
  | .write data => if q.length + data.length ≤ cap then (.wrote none, q ++ data)
    else (.wrote (some eagain), q)
  | .read dest =>
    let bytes := q.take (dest.cap - dest.dat.length)
    (.got bytes.length { dest with dat := dest.dat ++ bytes }, q.drop bytes.length)

/-- The answers to a sequence of calls, and the state they leave. -/
def answers {σ : Type} (call : σ → BufCall → BufAnswer × σ) : σ → List BufCall → List BufAnswer × σ
  | s, [] => ([], s)
  | s, c :: cs =>
    let rest := answers call (call s c).2 cs
    ((call s c).1 :: rest.1, rest.2)

/-- One call on the buffer is the same call on the queue of its bytes. -/
theorem RecvBuf.WF.call {buf : RecvBuf} (h : buf.WF) (hlen : buf.len ≠ 0) (c : BufCall) :
    (buf.call c).2.WF ∧ (buf.call c).2.len = buf.len ∧
      fifoCall (buf.len - 1) (recvBufContents buf) c
        = ((buf.call c).1, recvBufContents (buf.call c).2) := by
  cases c with
  | write data =>
    have hc := h.count_lt hlen
    have hspace : recvBufSpace buf = buf.len - 1 - recvBufCount buf := if_neg hlen
    rw [fifoCall, length_recvBufContents, RecvBuf.call]
    rcases recvBufWrite_cases h (.inr hlen) with ⟨hlt, hw⟩ | ⟨hle, buf', hw, hwf, hlen', hcont⟩
    · rw [hw, if_neg (by omega)]
      exact ⟨h, rfl, rfl⟩
    · rw [hw, if_pos (by omega)]
      exact ⟨hwf, hlen', by rw [hcont]⟩
  | read dest =>
    obtain ⟨bytes, buf', hread, hwf, hlen', hcont, hn⟩ := recvBufRead_spec h dest
    have htake : (recvBufContents buf).take (dest.cap - dest.dat.length) = bytes := by
      rw [← length_recvBufContents] at hn
      rw [take_eq_take_min, Nat.min_comm, ← hn, hcont, take_left]
    rw [fifoCall, RecvBuf.call, hread, htake]
    refine ⟨hwf, hlen', ?_⟩
    rw [hcont, drop_left]

/-- **The receive buffer is a bounded queue.** Whatever is written and read, in whatever sizes and
however often the positions wrap, every call is answered as by a queue of capacity one less than
the size of the buffer, and the buffer holds at the end what the queue holds. -/
theorem recvBuf_refines_fifo {buf : RecvBuf} (h : buf.WF) (hlen : buf.len ≠ 0)
    (cs : List BufCall) :
    answers (fifoCall (buf.len - 1)) (recvBufContents buf) cs
      = ((answers RecvBuf.call buf cs).1, recvBufContents (answers RecvBuf.call buf cs).2) := by
  induction cs generalizing buf with
  | nil => rfl
  | cons c cs ih =>
    obtain ⟨hwf, hlen', hcall⟩ := h.call hlen c
    have hrest := ih hwf (hlen' ▸ hlen)
    rw [hlen'] at hrest
    rw [answers, hcall, hrest]
    rfl

/-- Eight bytes of memory: five of seven are taken out, and the next five go round the end. -/
theorem recvBuf_refines_fifo_wrapped :
    (answers (fifoCall 7) [] [.write [1, 2, 3, 4, 5, 6, 7], .read ⟨[], 5⟩,
        .write [8, 9, 10, 11, 12], .write [13], .read ⟨[], 9⟩]).1
      = (answers RecvBuf.call ⟨fun _ ↦ 0, 8, 0, 0⟩ [.write [1, 2, 3, 4, 5, 6, 7], .read ⟨[], 5⟩,
        .write [8, 9, 10, 11, 12], .write [13], .read ⟨[], 9⟩]).1 :=
  congrArg Prod.fst (@recvBuf_refines_fifo ⟨fun _ ↦ 0, 8, 0, 0⟩
    ⟨.inr ⟨3, rfl⟩, fun _ ↦ by decide, fun _ ↦ by decide⟩ (by decide) _)

end Mazu.Tcp
