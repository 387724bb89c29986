import Mazu.Base

/-!
# WebSocket frames out of a byte stream

`ws_serve` reads one frame after the other into a buffer that it empties before each frame. A read
takes what the connection has, so the buffer may hold the beginning of the next frame as well, and
that beginning is lost; so are frames that came with the upgrade request. A read for a frame is also
repeated at most fifty times, however little each of them brings.
-/

namespace Mazu.Web

open List

/-! ## Receiving -/

def eio : Errno := 5
def emsgsize : Errno := 90

/-- What the reads of a connection find, one after the other. -/
abbrev Chunks := List (List UInt8)

def wsMaxFramePayload : ℕ := 4096

/-- The size of the receive buffer in `ws_serve`. -/
def wsFrameBufCap : ℕ := 10 + wsMaxFramePayload + 4

/-- `web_recv_retry`: what is there, as far as it fits. The rest stays for the next read. -/
def webRecvRetry (room : ℕ) : Chunks → List UInt8 × Chunks
  | [] => ([], [])
  | c :: cs => (c.take room, if c.length ≤ room then cs else c.drop room :: cs)

def wsRecvAtLeast (needed : ℕ) : ℕ → List UInt8 → Chunks → Except Errno (List UInt8 × Chunks)
  | 0, buf, cs => if needed ≤ buf.length then .ok (buf, cs) else .error eio
  | retry + 1, buf, cs =>
    if needed ≤ buf.length then .ok (buf, cs)
    else
      let (bytes, cs) := webRecvRetry (wsFrameBufCap - buf.length) cs
      wsRecvAtLeast needed retry (buf ++ bytes) cs

/-- `struct ws_frame`, with the payload unmasked. -/
structure WsFrame where
  fin : Bool
  opcode : ℕ
  payload : List UInt8
deriving DecidableEq

def byteAt (buf : List UInt8) (i : ℕ) : ℕ := (buf.getD i 0).toNat

/-- The payload length and the end of the header before the mask. -/
def wsLength (buf : List UInt8) (cs : Chunks) : Except Errno (ℕ × ℕ × List UInt8 × Chunks) :=
  let len7 := byteAt buf 1 % 128
  if len7 < 126 then .ok (len7, 2, buf, cs)
  else if len7 = 126 then
    (wsRecvAtLeast 4 50 buf cs).map fun (buf, cs) ↦
      (byteAt buf 2 * 256 + byteAt buf 3, 4, buf, cs)
  else
    (wsRecvAtLeast 10 50 buf cs).map fun (buf, cs) ↦
      ((List.range 8).foldl (fun len i ↦ len * 256 + byteAt buf (2 + i)) 0, 10, buf, cs)

/-- The exclusive or with the mask, which is its own inverse. -/
def unmask (mask bytes : List UInt8) : List UInt8 :=
  bytes.mapIdx fun i b ↦ b ^^^ mask.getD (i % 4) 0

def wsFrameRecv (cs : Chunks) : Except Errno (WsFrame × Chunks) := do
  let (buf, cs) ← wsRecvAtLeast 2 50 [] cs
  let (len, hdrEnd, buf, cs) ← wsLength buf cs
  if byteAt buf 1 / 128 ≠ 1 then .error einval
  else
    let (buf, cs) ← wsRecvAtLeast (hdrEnd + 4) 50 buf cs
    if len > wsMaxFramePayload then .error emsgsize
    else
      let (buf, cs) ← wsRecvAtLeast (hdrEnd + 4 + len) 50 buf cs
      let mask := (buf.drop hdrEnd).take 4
      .ok (⟨byteAt buf 0 / 128 = 1, byteAt buf 0 % 16,
        unmask mask ((buf.drop (hdrEnd + 4)).take len)⟩, cs)

/-! ## Serving -/

/-- The answer to a frame, an opcode and a payload, and whether the loop goes on after it. -/
def wsReply (f : WsFrame) : (ℕ × List UInt8) × Bool :=
  if f.opcode = 0x9 then ((0xA, f.payload), true)
  else if f.opcode = 0x8 then ((0x8, f.payload), false)
  else if f.opcode = 0x1 ∨ f.opcode = 0x2 then
    if f.fin then ((f.opcode, f.payload), true) else ((0x8, [0x03, 0xEB]), false)
  else if f.opcode = 0x0 then ((0x8, [0x03, 0xEB]), false)
  else ((0x8, [0x03, 0xEA]), false)

/-- The frames that the loop of `ws_serve` comes to answer, in at most `fuel` trips. -/
def wsServe : ℕ → Chunks → List WsFrame
  | 0, _ => []
  | fuel + 1, cs =>
    match wsFrameRecv cs with
    | .error _ => []
    | .ok (f, cs) => f :: if (wsReply f).2 then wsServe fuel cs else []

/-- A connection whose upgrade request was answered: what stands in its buffer behind the header of
the request, and what comes later. -/
structure WebConn where
  early : List UInt8
  tcp : Chunks

/-- The step of `web_step_conn` in `WCS_WS_ACTIVE`. -/
def WebConn.wsActive (wc : WebConn) (fuel : ℕ) : List WsFrame := wsServe fuel wc.tcp

/-! ## Frames on the wire -/

/-- A frame of a client that fits the receive buffer, with the four bytes of its mask. -/
structure ClientFrame where
  fin : Bool
  opcode : Fin 16
  payload : List UInt8
  mask : List UInt8
  mask_len : mask.length = 4
  fits : payload.length ≤ wsMaxFramePayload

namespace ClientFrame

variable (w : ClientFrame)

def frame : WsFrame := ⟨w.fin, w.opcode, w.payload⟩

/-- The first bytes, with the length in as few of them as possible. -/
def header : List UInt8 :=
  let first := UInt8.ofNat (w.fin.toNat * 128 + w.opcode)
  let len := w.payload.length
  if len < 126 then [first, .ofNat (128 + len)]
  else [first, 254, .ofNat (len / 256), .ofNat len]

def encode : List UInt8 := w.header ++ w.mask ++ unmask w.mask w.payload

end ClientFrame

variable {n r : ℕ} {buf buf' : List UInt8} {cs cs' rest : Chunks}

/-! ## Reads -/

theorem eq_nil_of_flatten (hne : ∀ c ∈ cs, c ≠ []) (h : cs.flatten = []) : cs = [] :=
  eq_nil_iff_forall_not_mem.mpr fun c hc ↦ hne c hc (flatten_eq_nil_iff.mp h c hc)

/-- **What a read does with the chunks.** No byte is lost. Unless it fills the buffer, it takes
whole chunks, one at a time as long as it needs more, and no more than it may. -/
structure Reads (n r : ℕ) (buf : List UInt8) (cs : Chunks) (buf' : List UInt8) (cs' : Chunks) :
    Prop where
  enough : n ≤ buf'.length
  same : buf' ++ cs'.flatten = buf ++ cs.flatten
  whole : buf'.length < wsFrameBufCap → ∃ l, cs = l ++ cs' ∧ buf' = buf ++ l.flatten ∧
    l.length ≤ r ∧ ∀ m < l.length, (buf ++ (l.take m).flatten).length < n

theorem Reads.done (hn : n ≤ buf.length) : Reads n r buf cs buf cs :=
  ⟨hn, rfl, fun _ ↦ ⟨[], rfl, (append_nil _).symm, Nat.zero_le _, nofun⟩⟩

theorem Reads.trans {n' r' : ℕ} {buf₁ : List UInt8} {cs₁ : Chunks} (h : Reads n r buf cs buf₁ cs₁)
    (h' : Reads n' r' buf₁ cs₁ buf' cs') (hn : n ≤ n') : Reads n' (r + r') buf cs buf' cs' := by
  refine ⟨h'.enough, h'.same.trans h.same, fun hlt ↦ ?_⟩
  obtain ⟨l', rfl, rfl, hr', hm'⟩ := h'.whole hlt
  rw [length_append] at hlt
  obtain ⟨l, rfl, rfl, hr, hm⟩ := h.whole (by omega)
  refine ⟨l ++ l', by simp, by simp, by rw [length_append]; omega, fun m hlen ↦ ?_⟩
  by_cases hlm : m < l.length
  · rw [take_append_of_le_length hlm.le]
    exact (hm m hlm).trans_le hn
  · obtain ⟨k, rfl⟩ := Nat.exists_eq_add_of_le (not_lt.mp hlm)
    rw [length_append] at hlen
    rw [take_append, take_of_length_le (Nat.le_add_right _ k), Nat.add_sub_cancel_left,
      flatten_append, ← append_assoc]
    exact hm' k (by omega)

theorem wsRecvAtLeast_ok (h : wsRecvAtLeast n r buf cs = .ok (buf', cs')) :
    Reads n r buf cs buf' cs' := by
  induction r generalizing buf cs with
  | zero =>
    rw [wsRecvAtLeast] at h
    split_ifs at h with hn
    cases h
    exact .done hn
  | succ r ih =>
    rw [wsRecvAtLeast] at h
    split_ifs at h with hn
    · cases h
      exact .done hn
    cases cs with
    | nil =>
      simp only [webRecvRetry, append_nil] at h
      obtain ⟨henough, hsame, hwhole⟩ := ih h
      refine ⟨henough, hsame, fun hlt ↦ ?_⟩
      obtain ⟨l, hl, hbuf, hr, hm⟩ := hwhole hlt
      exact ⟨l, hl, hbuf, hr.trans (Nat.le_succ r), hm⟩
    | cons c cs =>
      simp only [webRecvRetry] at h
      split_ifs at h with hc
      · rw [take_of_length_le hc] at h
        obtain ⟨henough, hsame, hwhole⟩ := ih h
        refine ⟨henough, by rw [hsame, flatten_cons, append_assoc], fun hlt ↦ ?_⟩
        obtain ⟨l, rfl, rfl, hr, hm⟩ := hwhole hlt
        refine ⟨c :: l, rfl, by rw [flatten_cons, append_assoc], Nat.succ_le_succ hr, ?_⟩
        intro m hlen
        cases m with
        | zero => simpa using hn
        | succ m =>
          rw [take_succ_cons, flatten_cons, ← append_assoc]
          exact hm m (Nat.lt_of_succ_lt_succ hlen)
      · -- the buffer is full now
        obtain ⟨henough, hsame, hwhole⟩ := ih h
        refine ⟨henough, ?_, fun hlt ↦ ?_⟩
        · rw [hsame, flatten_cons, flatten_cons, append_assoc,
            ← append_assoc (c.take _), take_append_drop]
        · obtain ⟨l, -, rfl, -⟩ := hwhole hlt
          simp only [length_append, length_take] at hlt
          omega

/-- A read of whole chunks that fit the buffer. -/
theorem wsRecvAtLeast_run (rest : Chunks) (hne : ∀ c ∈ cs, c ≠ [])
    (hn : n ≤ (buf ++ cs.flatten).length) (hcap : (buf ++ cs.flatten).length ≤ wsFrameBufCap)
    (hr : n ≤ buf.length + r ∨ cs.length ≤ r) :
    ∃ l later, cs = l ++ later ∧ n ≤ (buf ++ l.flatten).length ∧
      wsRecvAtLeast n r buf (cs ++ rest) = .ok (buf ++ l.flatten, later ++ rest) := by
  induction r generalizing buf cs with
  | zero =>
    have hbuf : n ≤ buf.length := by
      rcases hr with hr | hr
      · exact hr
      · rwa [length_eq_zero_iff.mp (Nat.le_zero.mp hr), flatten_nil,
          append_nil] at hn
    refine ⟨[], cs, rfl, by simpa using hbuf, ?_⟩
    rw [wsRecvAtLeast, if_pos hbuf, flatten_nil, append_nil]
  | succ r ih =>
    by_cases hbuf : n ≤ buf.length
    · refine ⟨[], cs, rfl, by simpa using hbuf, ?_⟩
      rw [wsRecvAtLeast, if_pos hbuf, flatten_nil, append_nil]
    cases cs with
    | nil => exact absurd (by simpa using hn) hbuf
    | cons c cs =>
      have hassoc : buf ++ (c :: cs).flatten = buf ++ c ++ cs.flatten := by
        rw [flatten_cons, append_assoc]
      have hpos := length_pos_of_ne_nil (hne c mem_cons_self)
      rw [hassoc] at hn hcap
      have hr' : n ≤ (buf ++ c).length + r ∨ cs.length ≤ r := by
        rw [length_append]
        rw [length_cons] at hr
        omega
      obtain ⟨l, later, rfl, hlen, hrun⟩ :=
        ih (fun x hx ↦ hne x (mem_cons_of_mem c hx)) hn hcap hr'
      have hroom : c.length ≤ wsFrameBufCap - buf.length := by
        rw [length_append, length_append] at hcap
        omega
      refine ⟨c :: l, later, rfl, by rwa [flatten_cons, ← append_assoc], ?_⟩
      rw [wsRecvAtLeast, if_neg hbuf, cons_append, webRecvRetry, if_pos hroom]
      dsimp only
      rw [take_of_length_le hroom, hrun, flatten_cons, append_assoc]

/-! ## Frames -/

theorem length_unmask (mask bytes : List UInt8) : (unmask mask bytes).length = bytes.length :=
  length_mapIdx

theorem unmask_unmask (mask bytes : List UInt8) : unmask mask (unmask mask bytes) = bytes := by
  refine ext_getElem (by rw [length_unmask, length_unmask]) fun i _ _ ↦ ?_
  simp [unmask, UInt8.xor_assoc]

section

variable (w : ClientFrame)

theorem ClientFrame.mask_of_encode : (w.encode.drop w.header.length).take 4 = w.mask := by
  rw [encode, append_assoc, drop_left, ← w.mask_len, take_left]

theorem ClientFrame.payload_of_encode :
    (w.encode.drop (w.header.length + 4)).take w.payload.length = unmask w.mask w.payload := by
  rw [encode, ← w.mask_len, ← length_append, drop_left, ← length_unmask w.mask w.payload,
    take_length]

/-- The length of a header without the mask. -/
def headerLen (len : ℕ) : ℕ := if len < 126 then 2 else 4

theorem headerLen_le (len : ℕ) : headerLen len ≤ 4 := by
  rw [headerLen]
  split_ifs <;> omega

theorem ClientFrame.length_header : w.header.length = headerLen w.payload.length := by
  simp only [header, headerLen]
  split_ifs <;> simp

theorem ClientFrame.length_encode :
    w.encode.length = headerLen w.payload.length + 4 + w.payload.length := by
  rw [encode, length_append, length_append, w.length_header, w.mask_len, length_unmask]

theorem ClientFrame.length_encode_le : w.encode.length ≤ 4104 := by
  have hfits := w.fits
  have hhdr := headerLen_le w.payload.length
  rw [wsMaxFramePayload] at hfits
  rw [w.length_encode]
  omega

/-- The header of a frame, as it is read. -/
theorem ClientFrame.byteAt_encode : byteAt w.encode 0 = w.fin.toNat * 128 + w.opcode ∧
    byteAt w.encode 1 = 128 + min w.payload.length 126 ∧
    (126 ≤ w.payload.length → byteAt w.encode 2 * 256 + byteAt w.encode 3 = w.payload.length) := by
  have hfin := w.fin.toNat_le
  have hfits := w.fits
  rw [wsMaxFramePayload] at hfits
  simp only [encode, header]
  split_ifs with hshort
  · simp [byteAt]
    omega
  · simp [byteAt]
    omega

end

/-- The bytes of the length are read, in as many reads as two stages may make. -/
theorem wsLength_ok {len hdrEnd : ℕ} (h₁ : Reads 2 50 [] cs buf rest)
    (h : wsLength buf rest = .ok (len, hdrEnd, buf', cs')) :
    headerLen len ≤ hdrEnd ∧ Reads hdrEnd 100 [] cs buf' cs' := by
  simp only [wsLength] at h
  split_ifs at h with hshort hmid
  · cases h
    exact ⟨by rw [headerLen, if_pos hshort], h₁.trans (.done (r := 50) h₁.enough) (le_refl 2)⟩
  · cases hread : wsRecvAtLeast 4 50 buf rest with
    | error e =>
      rw [hread] at h
      cases h
    | ok p =>
      rw [hread] at h
      cases h
      exact ⟨headerLen_le _, h₁.trans (wsRecvAtLeast_ok hread) (by omega)⟩
  · cases hread : wsRecvAtLeast 10 50 buf rest with
    | error e =>
      rw [hread] at h
      cases h
    | ok p =>
      rw [hread] at h
      cases h
      exact ⟨(headerLen_le _).trans (by omega), h₁.trans (wsRecvAtLeast_ok hread) (by omega)⟩

theorem exists_of_bind_eq_ok {α β : Type} {x : Except Errno α} {f : α → Except Errno β} {b : β}
    (h : (x >>= f) = .ok b) : ∃ a, x = .ok a ∧ f a = .ok b := by
  cases x with
  | error e => cases h
  | ok a => exact ⟨a, rfl, h⟩

/-- **What a frame takes**: the reads up to the mask, and the read of the payload. -/
theorem wsFrameRecv_ok {f : WsFrame} (h : wsFrameRecv cs = .ok (f, cs')) :
    ∃ hdrEnd buf₁ cs₁ buf, headerLen f.payload.length ≤ hdrEnd ∧
      Reads (hdrEnd + 4) 150 [] cs buf₁ cs₁ ∧
      Reads (hdrEnd + 4 + f.payload.length) 50 buf₁ cs₁ buf cs' := by
  obtain ⟨⟨buf₁, cs₁⟩, hread₁, h⟩ := exists_of_bind_eq_ok h
  obtain ⟨⟨len, hdrEnd, buf₂, cs₂⟩, hlen, h⟩ := exists_of_bind_eq_ok h
  obtain ⟨hhdr, hread₂⟩ := wsLength_ok (wsRecvAtLeast_ok hread₁) hlen
  dsimp only at h
  by_cases hmask : byteAt buf₂ 1 / 128 ≠ 1
  · rw [if_pos hmask] at h
    cases h
  rw [if_neg hmask] at h
  obtain ⟨⟨buf₃, cs₃⟩, hread₃, h⟩ := exists_of_bind_eq_ok h
  split_ifs at h
  obtain ⟨⟨buf₄, cs₄⟩, hread₄, h⟩ := exists_of_bind_eq_ok h
  cases h
  have h₃ := wsRecvAtLeast_ok hread₃
  have h₄ := wsRecvAtLeast_ok hread₄
  have hpay : ((buf₄.drop (hdrEnd + 4)).take len).length = len := by
    have henough := h₄.enough
    rw [length_take, length_drop]
    omega
  rw [length_unmask, hpay]
  exact ⟨hdrEnd, buf₃, _, buf₄, hhdr, hread₂.trans h₃ (Nat.le_add_right _ 4), h₄⟩

/-- **How a frame may be cut**: into whole chunks of which at most fifty start behind its mask. -/
structure ClientFrame.Delivered (w : ClientFrame) (cs : Chunks) : Prop where
  bytes : cs.flatten = w.encode
  few : 50 < cs.length → (cs.take (cs.length - 51)).flatten.length < w.header.length + 4

/-- The chunks `cs` of a frame are in the buffer up to some place, with `n` bytes at least. -/
structure Held (cs rest : Chunks) (n : ℕ) (buf : List UInt8) (cs' : Chunks) : Prop where
  enough : n ≤ buf.length
  cut : ∃ l later, cs = l ++ later ∧ buf = l.flatten ∧ cs' = later ++ rest

section Delivered

variable {w : ClientFrame} (h : w.Delivered cs)
include h

/-- A stage of the receiving succeeds: the header is short, and few chunks are left behind it. -/
theorem Held.read {m : ℕ} (hh : Held cs rest m buf cs') (hne : ∀ c ∈ cs, c ≠ [])
    (hn : n ≤ w.encode.length) (hr : n ≤ 50 ∨ w.header.length + 4 ≤ m) :
    ∃ buf₁ cs₁, wsRecvAtLeast n 50 buf cs' = .ok (buf₁, cs₁) ∧ Held cs rest n buf₁ cs₁ := by
  obtain ⟨hm, l, later, rfl, rfl, rfl⟩ := hh
  have hall : l.flatten ++ later.flatten = w.encode := by rw [← flatten_append, h.bytes]
  have hcap := w.length_encode_le
  have hreads : n ≤ l.flatten.length + 50 ∨ later.length ≤ 50 := by
    rcases hr with hr | hr
    · exact .inl (by omega)
    · refine .inr (not_lt.mp fun hmany ↦ ?_)
      have hlen : (l ++ later).length = l.length + later.length := length_append
      have hfew := h.few (by omega)
      rw [show (l ++ later).length - 51 = l.length + (later.length - 51) by omega,
        take_append, take_of_length_le (Nat.le_add_right _ _), flatten_append,
        length_append] at hfew
      omega
  obtain ⟨l', later', rfl, henough, hrun⟩ := wsRecvAtLeast_run rest
    (fun c hc ↦ hne c (mem_append_right l hc)) (by rwa [hall])
    (by rw [hall, wsFrameBufCap, wsMaxFramePayload]; omega) hreads
  exact ⟨_, _, hrun, henough, l ++ l', later', by simp, by simp, rfl⟩

/-- The first bytes are those of the frame. -/
theorem Held.byteAt_eq {i : ℕ} (hh : Held cs rest n buf cs') (hi : i < n) :
    byteAt buf i = byteAt w.encode i := by
  obtain ⟨hn, l, later, rfl, rfl, rfl⟩ := hh
  rw [← h.bytes, flatten_append, byteAt, byteAt, getD_eq_getElem?_getD,
    getD_eq_getElem?_getD, getElem?_append_left (hi.trans_le hn)]

/-- Once all bytes of the frame are in the buffer, nothing else is. -/
theorem Held.all (hh : Held cs rest w.encode.length buf cs') (hne : ∀ c ∈ cs, c ≠ []) :
    buf = w.encode ∧ cs' = rest := by
  obtain ⟨hn, l, later, rfl, rfl, rfl⟩ := hh
  have hall : l.flatten ++ later.flatten = w.encode := by rw [← flatten_append, h.bytes]
  have hlater : later.flatten = [] := by
    rw [← hall, length_append] at hn
    exact length_eq_zero_iff.mp (by omega)
  have hnil := eq_nil_of_flatten (fun c hc ↦ hne c (mem_append_right l hc)) hlater
  exact ⟨by rw [← hall, hlater, append_nil], by rw [hnil, nil_append]⟩

end Delivered

theorem wsLength_run {w : ClientFrame} (h : w.Delivered cs) (hne : ∀ c ∈ cs, c ≠ [])
    (hh : Held cs rest 2 buf cs') :
    ∃ buf₁ cs₁, wsLength buf cs' = .ok (w.payload.length, w.header.length, buf₁, cs₁) ∧
      Held cs rest w.header.length buf₁ cs₁ := by
  obtain ⟨-, hlen7, hlen⟩ := w.byteAt_encode
  rw [w.length_header, headerLen]
  simp only [wsLength, hh.byteAt_eq h (Nat.lt_succ_self 1), hlen7]
  by_cases hshort : w.payload.length < 126
  · rw [if_pos hshort, if_pos (by omega), show (128 + min w.payload.length 126) % 128 =
      w.payload.length by omega]
    exact ⟨_, _, rfl, hh⟩
  · have htotal := w.length_encode
    obtain ⟨buf₁, cs₁, hrun, hh₁⟩ := hh.read h hne (n := 4) (by omega) (.inl (by omega))
    rw [if_neg hshort, if_neg (by omega), if_pos (by omega), hrun]
    refine ⟨buf₁, cs₁, ?_, hh₁⟩
    rw [← hlen (not_lt.mp hshort), ← hh₁.byteAt_eq h (by omega), ← hh₁.byteAt_eq h (by omega)]
    rfl

theorem wsFrameRecv_run {w : ClientFrame} (h : w.Delivered cs) (hne : ∀ c ∈ cs, c ≠ []) :
    wsFrameRecv (cs ++ rest) = .ok (w.frame, rest) := by
  have htotal := w.length_encode
  have hhdr := w.length_header
  have hle := headerLen_le w.payload.length
  have hstart : Held cs rest 0 [] (cs ++ rest) := ⟨le_refl 0, [], cs, rfl, rfl, rfl⟩
  obtain ⟨buf₁, cs₁, hrun₁, hh₁⟩ := hstart.read h hne (n := 2) (by omega) (.inl (by omega))
  obtain ⟨buf₂, cs₂, hrun₂, hh₂⟩ := wsLength_run h hne hh₁
  obtain ⟨buf₃, cs₃, hrun₃, hh₃⟩ := hh₂.read h hne (n := w.header.length + 4) (by omega)
    (.inl (by omega))
  obtain ⟨buf₄, cs₄, hrun₄, hh₄⟩ := hh₃.read h hne (n := w.header.length + 4 + w.payload.length)
    (by omega) (.inr le_rfl)
  obtain ⟨rfl, rfl⟩ := Held.all h (by rwa [hhdr, ← htotal] at hh₄) hne
  obtain ⟨hfirst, hsecond, -⟩ := w.byteAt_encode
  have hmask : byteAt buf₂ 1 / 128 = 1 := by
    have htwo : 1 < w.header.length := by
      rw [hhdr, headerLen]
      split_ifs <;> omega
    rw [hh₂.byteAt_eq h htwo]
    omega
  rw [wsFrameRecv, hrun₁]
  dsimp only [Bind.bind, Except.bind]
  rw [hrun₂]
  dsimp only
  rw [if_neg (not_not.mpr hmask), hrun₃]
  dsimp only
  rw [if_neg (not_lt.mpr w.fits), hrun₄]
  dsimp only
  rw [hfirst, w.mask_of_encode, w.payload_of_encode, unmask_unmask]
  congr
  · cases w.fin
    · simp
      omega
    · simp
      omega
  · omega

/-! ## Streams of frames -/

/-- **Chunks that end with the frames**: no chunk holds bytes of two frames, and a frame that ends
the conversation is the last one. -/
inductive Aligned : List ClientFrame → Chunks → Prop
  | nil : Aligned [] []
  | cons {w : ClientFrame} {ws : List ClientFrame} {cs rest : Chunks} (here : w.Delivered cs)
      (goesOn : (wsReply w.frame).2 ∨ ws = []) (later : Aligned ws rest) :
      Aligned (w :: ws) (cs ++ rest)

theorem Aligned.serve {ws : List ClientFrame} {fuel : ℕ} (h : Aligned ws cs)
    (hne : ∀ c ∈ cs, c ≠ []) (hfuel : ws.length < fuel) : wsServe fuel cs = ws.map (·.frame) := by
  induction h generalizing fuel with
  | nil =>
    obtain ⟨fuel, rfl⟩ := Nat.exists_eq_add_of_lt hfuel
    rfl
  | @cons w ws cs rest here goesOn later ih =>
    obtain ⟨fuel, rfl⟩ := Nat.exists_eq_succ_of_ne_zero (Nat.ne_zero_of_lt hfuel)
    rw [wsServe, wsFrameRecv_run here fun c hc ↦ hne c (mem_append_left rest hc)]
    dsimp only
    rw [map_cons, ih (fun c hc ↦ hne c (mem_append_right cs hc))
      (Nat.lt_of_succ_lt_succ hfuel)]
    rcases goesOn with hgo | rfl
    · rw [if_pos hgo]
    · rw [map_nil, ite_self]

/-- The bytes that a frame takes at least. -/
def WsFrame.size (f : WsFrame) : ℕ := headerLen f.payload.length + 4 + f.payload.length

/-- **No frame is made up**: what is served was in the stream. -/
theorem wsServe_size_le (fuel : ℕ) (cs : Chunks) :
    ((wsServe fuel cs).map WsFrame.size).sum ≤ cs.flatten.length := by
  induction fuel generalizing cs with
  | zero => exact Nat.zero_le _
  | succ fuel ih =>
    rw [wsServe]
    split
    · exact Nat.zero_le _
    · next f cs' hrecv =>
      obtain ⟨hdrEnd, buf₁, cs₁, buf, hhdr, hread₁, hread₂⟩ := wsFrameRecv_ok hrecv
      have hsame := congrArg List.length (hread₂.same.trans hread₁.same)
      have henough := hread₂.enough
      have hlater := ih cs'
      rw [length_append, nil_append] at hsame
      rw [map_cons, sum_cons, WsFrame.size]
      split_ifs
      · omega
      · rw [map_nil, sum_nil]
        omega

theorem length_encode_flatten (ws : List ClientFrame) :
    (ws.map (·.encode)).flatten.length = ((ws.map (·.frame)).map WsFrame.size).sum := by
  rw [length_flatten, map_map, map_map]
  exact congrArg List.sum (map_congr_left fun w _ ↦ w.length_encode)

/-- The chunks that were read for a frame, when the buffer held this frame and no more. -/
theorem wsFrameRecv_delivered {w : ClientFrame} (h : wsFrameRecv cs = .ok (w.frame, cs'))
    (hlen : cs.flatten.length ≤ w.encode.length + cs'.flatten.length) :
    ∃ l, cs = l ++ cs' ∧ w.encode.length ≤ l.flatten.length ∧
      (l.flatten = w.encode → w.Delivered l) := by
  obtain ⟨hdrEnd, buf₁, cs₁, buf, hhdr, hread₁, hread₂⟩ := wsFrameRecv_ok h
  have hsame := congrArg List.length (hread₂.same.trans hread₁.same)
  rw [length_append, nil_append] at hsame
  have henough := hread₂.enough
  have htotal := w.length_encode
  have hle := w.length_encode_le
  rw [show w.frame.payload = w.payload from rfl] at hhdr henough
  obtain ⟨l₂, rfl, rfl, hr, -⟩ := hread₂.whole (by rw [wsFrameBufCap, wsMaxFramePayload]; omega)
  rw [length_append] at hsame henough
  obtain ⟨l₁, rfl, rfl, -, hm⟩ := hread₁.whole (by rw [wsFrameBufCap, wsMaxFramePayload]; omega)
  refine ⟨l₁ ++ l₂, (append_assoc ..).symm, ?_, fun hbytes ↦ ⟨hbytes, fun hmany ↦ ?_⟩⟩
  · rw [flatten_append, length_append]
    rw [nil_append] at henough
    omega
  rw [length_append] at hmany ⊢
  -- at most fifty of the chunks came with the last stage
  have hfirst : l₁.length + l₂.length - 51 < l₁.length := by omega
  have hshort := hm _ hfirst
  rw [take_append_of_le_length hfirst.le, w.length_header]
  rw [nil_append] at hshort
  omega

theorem Aligned.of_serve {ws : List ClientFrame} (hne : ∀ c ∈ cs, c ≠ [])
    (hstream : cs.flatten = (ws.map (·.encode)).flatten)
    (h : wsServe (ws.length + 1) cs = ws.map (·.frame)) : Aligned ws cs := by
  induction ws generalizing cs with
  | nil =>
    rw [eq_nil_of_flatten hne hstream]
    exact .nil
  | cons w ws ih =>
    rw [wsServe] at h
    split at h
    · cases h
    next f cs' hrecv =>
    obtain ⟨rfl, hlater⟩ := List.cons.inj h
    rw [map_cons, flatten_cons] at hstream
    -- the frames behind this one need all bytes behind it
    have hrest : (ws.map (·.encode)).flatten.length ≤ cs'.flatten.length := by
      rw [length_encode_flatten, ← hlater]
      split_ifs
      · exact wsServe_size_le _ cs'
      · exact Nat.zero_le _
    have hlen := congrArg List.length hstream
    rw [length_append] at hlen
    obtain ⟨l, rfl, hlong, hdelivered⟩ := wsFrameRecv_delivered hrecv (by omega)
    rw [flatten_append] at hstream
    rw [flatten_append, length_append] at hlen
    obtain ⟨hhere, htail⟩ := append_inj hstream (by omega)
    have hne' : ∀ c ∈ cs', c ≠ [] := fun c hc ↦ hne c (mem_append_right l hc)
    by_cases hgo : (wsReply w.frame).2
    · rw [if_pos hgo] at hlater
      exact .cons (hdelivered hhere) (.inl hgo) (ih hne' htail hlater)
    · rw [if_neg hgo] at hlater
      have hnil : ws = [] := map_eq_nil_iff.mp hlater.symm
      rw [hnil] at htail ⊢
      rw [eq_nil_of_flatten hne' htail]
      exact .cons (hdelivered hhere) (.inr rfl) .nil

/-- **The frames that are served.** All frames of a stream are, each once, exactly if none came with
the upgrade request and the chunks end with the frames. -/
theorem wsActive_eq_frames_iff (wc : WebConn) (ws : List ClientFrame) (hne : ∀ c ∈ wc.tcp, c ≠ [])
    (hstream : wc.early ++ wc.tcp.flatten = (ws.map (·.encode)).flatten) :
    (∀ fuel, ws.length < fuel → wc.wsActive fuel = ws.map (·.frame)) ↔
      wc.early = [] ∧ Aligned ws wc.tcp := by
  constructor
  · intro h
    have hserve := h (ws.length + 1) (Nat.lt_succ_self _)
    have hsize := wsServe_size_le (ws.length + 1) wc.tcp
    rw [WebConn.wsActive] at hserve
    rw [hserve, ← length_encode_flatten, ← hstream, length_append] at hsize
    have hearly : wc.early = [] := length_eq_zero_iff.mp (by omega)
    rw [hearly] at hstream
    exact ⟨hearly, .of_serve hne hstream hserve⟩
  · rintro ⟨-, haligned⟩ fuel hfuel
    exact haligned.serve hne hfuel

/-- A text of one letter. -/
def letter (b : UInt8) : ClientFrame := ⟨true, 1, [b], [1, 2, 3, 4], rfl, Nat.le_add_left 1 4095⟩

theorem wsActive_letters :
    Aligned [letter 65, letter 66] [(letter 65).encode, (letter 66).encode] ∧ ∀ fuel, 2 < fuel →
      (WebConn.mk [] [(letter 65).encode, (letter 66).encode]).wsActive fuel =
        [(letter 65).frame, (letter 66).frame] := by
  have hdelivered : ∀ b, (letter b).Delivered [(letter b).encode] := fun b ↦
    ⟨append_nil _, fun h ↦ absurd (show 50 < 1 from h) (by decide)⟩
  have haligned : Aligned [letter 65, letter 66] [(letter 65).encode, (letter 66).encode] :=
    .cons (hdelivered 65) (.inl rfl) (.cons (hdelivered 66) (.inl rfl) .nil)
  exact ⟨haligned, (wsActive_eq_frames_iff ⟨[], [(letter 65).encode, (letter 66).encode]⟩
    [letter 65, letter 66] (by decide) (by decide)).mpr ⟨rfl, haligned⟩⟩

/-- Two texts in one chunk: the second one is lost. -/
theorem wsActive_two_in_one : let wc := WebConn.mk [] [(letter 65).encode ++ (letter 66).encode]
    (∀ c ∈ wc.tcp, c ≠ []) ∧
      wc.early ++ wc.tcp.flatten = ([letter 65, letter 66].map (·.encode)).flatten ∧
      wc.wsActive 3 = [(letter 65).frame] := by
  decide

/-- A text that came with the upgrade request is lost. -/
example : (WebConn.mk (letter 65).encode []).wsActive 2 = [] := by decide

end Mazu.Web
