import Mazu.Fs.Sfs
import Mathlib

/-!
# Space of the simple file system

The bitmap and the directory table are read off the sectors as functions, `bit` and `ent`, and each
step of an operation is described by what it does to them. `Layout` says that the extents of the
files are disjoint and that the bitmap marks them and the reserved sectors, and nothing else.
-/

namespace Mazu.Fs.Sfs

open Function List

variable (su : Super) (d : ℕ → Sector)

def bit (s : ℕ) : Bool := getBit (d (su.bitmapSector s) (bitmapByte s)) (s % 8)

def ent (i : ℕ) : Entry := entryOf (d (su.direntSector i)) i

/-! ## Bytes and bits -/

theorem getBit_putBit {b : UInt8} {i j : ℕ} (hi : i < 8) (hj : j < 8) (v : Bool) :
    getBit (putBit b i v) j = if j = i then v else getBit b j := by
  have hmod : ∀ x : ℕ, (UInt8.ofNat x).toNat.testBit j = x.testBit j := by
    intro x
    rw [UInt8.toNat_ofNat', Nat.testBit_mod_two_pow]
    simp [hj]
  rw [getBit, putBit, hmod, getBit]
  cases v with
  | true =>
    by_cases h : j = i
    · simp [h]
    · simp [h, Ne.symm h]
  | false =>
    rw [if_neg Bool.false_ne_true, Nat.testBit_and, Nat.testBit_xor,
      show 255 = 2 ^ 8 - 1 from rfl, Nat.testBit_two_pow_sub_one]
    by_cases h : j = i
    · simp [h, hi]
    · simp [h, hj, Ne.symm h]

theorem le32_putLe32 (e : ℕ → UInt8) (o v : ℕ) : le32 (putLe32 e o v) o = v % 2 ^ 32 := by
  simp [le32, putLe32]
  omega

variable {o k a start size : ℕ}

theorem le32_putLe32_ne (e : ℕ → UInt8) {p : ℕ} (v : ℕ) (h : p + 4 ≤ o ∨ o + 4 ≤ p) :
    le32 (putLe32 e o v) p = le32 e p := by
  have hb : ∀ k < 4, putLe32 e o v (p + k) = e (p + k) := fun k hk ↦ if_neg (by omega)
  rw [le32, hb 1 (by omega), hb 2 (by omega), hb 3 (by omega), ← Nat.add_zero p, hb 0 (by omega)]
  rfl

theorem le32_lt (e : ℕ → UInt8) (o : ℕ) : le32 e o < 2 ^ 32 := by
  have h := fun b ↦ (e b).toNat_lt
  have h0 := h o
  have h1 := h (o + 1)
  have h2 := h (o + 2)
  have h3 := h (o + 3)
  rw [le32]
  omega

/-! ## Writes and what is read off -/

variable {su d}

theorem bit_setBit (s x : ℕ) (v : Bool) :
    bit su (update d (su.bitmapSector s) (setSectorBit s v (d (su.bitmapSector s)))) x =
      if x = s then v else bit su d x := by
  rw [bit, bit]
  by_cases hsec : su.bitmapSector x = su.bitmapSector s
  · rw [hsec, update_self, setSectorBit]
    have hdiv : x / 4096 = s / 4096 := Nat.add_left_cancel hsec
    by_cases hbyte : bitmapByte x = bitmapByte s
    · rw [hbyte, update_self, getBit_putBit (Nat.mod_lt _ (by decide)) (Nat.mod_lt _ (by decide))]
      rw [bitmapByte, bitmapByte] at hbyte
      exact if_congr (by omega) rfl rfl
    · rw [update_of_ne hbyte, if_neg fun h : x = s ↦ hbyte (h ▸ rfl)]
  · rw [update_of_ne hsec, if_neg fun h : x = s ↦ hsec (h ▸ rfl)]

theorem entryOf_setEntry (e : Sector) (f : Entry → Entry) (i j : ℕ) : entryOf (setEntry i f e) j =
      if j % 8 = i % 8 then fun b ↦ f (entryOf e i) (b % 64) else entryOf e j := by
  funext b
  have hb : (64 * (j % 8) + b % 64) / 64 = j % 8 := by omega
  have hm : (64 * (j % 8) + b % 64) % 64 = b % 64 := by omega
  rw [entryOf, setEntry, hb, hm]
  split_ifs <;> rfl

theorem ent_setEntry (f : Entry → Entry) (i j : ℕ) :
    ent su (update d (su.direntSector i) (setEntry i f (d (su.direntSector i)))) j =
      if j = i then fun b ↦ f (ent su d i) (b % 64) else ent su d j := by
  rw [ent, ent, ent]
  by_cases hsec : su.direntSector j = su.direntSector i
  · rw [hsec, update_self, entryOf_setEntry]
    have hdiv : j / 8 = i / 8 := Nat.add_left_cancel hsec
    exact if_congr (by omega) rfl rfl
  · rw [update_of_ne hsec, if_neg fun h : j = i ↦ hsec (h ▸ rfl)]

theorem bit_congr {d' : ℕ → Sector} {s : ℕ} (h : d' (su.bitmapSector s) = d (su.bitmapSector s)) :
    bit su d' s = bit su d s := by
  rw [bit, bit, h]

theorem ent_congr {d' : ℕ → Sector} {i : ℕ} (h : d' (su.direntSector i) = d (su.direntSector i)) :
    ent su d' i = ent su d i := by
  rw [ent, ent, h]

/-- The regions as a format lays them out. -/
structure Geometry (su : Super) : Prop where
  bitmap : su.bitmapStart = 1
  dir : su.dirStart = 1 + su.bitmapSectors
  data : su.dataStart = su.dirStart + 32
  dirents : su.nDirents = maxDirents
  covers : su.totalSectors ≤ 4096 * su.bitmapSectors
  fits : su.dataStart ≤ su.totalSectors
  word : su.totalSectors < 2 ^ 32

namespace Geometry

variable (hg : Geometry su)

include hg

theorem setFree (f : ℕ) : Geometry { su with freeSectors := f } :=
  ⟨hg.bitmap, hg.dir, hg.data, hg.dirents, hg.covers, hg.fits, hg.word⟩

theorem bitmapSector_lt {s : ℕ} (hs : s < su.totalSectors) :
    1 ≤ su.bitmapSector s ∧ su.bitmapSector s < su.dirStart := by
  have := hg.covers
  rw [Super.bitmapSector, hg.bitmap, hg.dir]
  omega

theorem direntSector_lt {i : ℕ} (hi : i < maxDirents) :
    su.dirStart ≤ su.direntSector i ∧ su.direntSector i < su.dataStart := by
  rw [Super.direntSector, hg.data]
  rw [maxDirents] at hi
  omega

end Geometry

/-! ## The parts of an operation -/

/-- The bits of a run are set to `v`, and nothing outside of the bitmap is different. -/
def Marks (su : Super) (d d' : ℕ → Sector) (v : Bool) (a k : ℕ) : Prop :=
  (∀ x, bit su d' x = if a ≤ x ∧ x < a + k then v else bit su d x) ∧
    ∀ t, t = 0 ∨ su.dirStart ≤ t → d' t = d t

theorem run_bitmapMark (hg : Geometry su) (v : Bool) {s : ℕ}
    (hle : k ≠ 0 → s + k ≤ su.totalSectors) :
    ∃ d', (bitmapMark su v k s).run d = ((), d') ∧ Marks su d d' v s k := by
  induction k generalizing s d with
  | zero => exact ⟨d, rfl, fun x ↦ (if_neg (by omega)).symm, fun _ _ ↦ rfl⟩
  | succ k ih =>
    obtain ⟨d', hrun, hbit, hsame⟩ := ih (s := s + 1)
     
      (by omega)
    refine ⟨d', hrun, fun x ↦ ?_, fun t ht ↦ ?_⟩
    · rw [hbit, bit_setBit]
      by_cases hx : x = s
      · rw [if_neg (by omega), if_pos hx, if_pos (by omega)]
      · rw [if_neg hx]
        exact if_congr (by omega) rfl rfl
    · have := hg.bitmapSector_lt (s := s) (by omega)
      rw [hsame t ht, update_of_ne (by omega)]

theorem span_eq (h : a + k < 2 ^ 32) : span a k = k := by
  rw [span, u32, Nat.mod_eq_of_lt h, Nat.add_sub_cancel_left]

theorem run_bitmapFree (hg : Geometry su) (ha : a < 2 ^ 32)
    (hle : k ≠ 0 → a + k ≤ su.totalSectors) :
    ∃ d', (bitmapFree su a k).run d = ({ su with freeSectors := u32 (su.freeSectors + k) }, d') ∧
      Marks su d d' false a k := by
  have hspan : span a k = k := span_eq (by
    have := hg.word
    omega)
  obtain ⟨d', hrun, hmarks⟩ := run_bitmapMark hg false hle
  refine ⟨d', ?_, hmarks⟩
  rw [bitmapFree, Prog.run_bind, hspan, hrun, Prog.run_pure]

/-- The scan finds the first run that is long enough, if there is one. -/
theorem run_bitmapScan (su : Super) (d : ℕ → Sector) {count : ℕ} (k s rs rl : ℕ)
    (hlen : rl < count) (hle : rl ≤ s) (hrs : rl ≠ 0 → rs = s - rl)
    (hclear : ∀ x, s - rl ≤ x → x < s → bit su d x = false) :
    ∃ r, (bitmapScan su count k s rs rl).run d = (r, d) ∧
      (∀ a, r = some a → s - rl ≤ a ∧ a + count ≤ s + k ∧
        (∀ x, a ≤ x → x < a + count → bit su d x = false) ∧
        (a = s - rl ∨ bit su d (a - 1) = true)) ∧
      (r = none → ∀ a, s - rl ≤ a → a + count ≤ s + k →
        ∃ x, a ≤ x ∧ x < a + count ∧ bit su d x = true) := by
  induction k generalizing s rs rl with
  | zero => exact ⟨none, rfl, nofun, fun _ a h h' ↦ by omega⟩
  | succ k ih =>
    have hget : (bitmapGet su s).run d = (bit su d s, d) := rfl
    rw [bitmapScan, Prog.run_bind, hget]
    cases hs : bit su d s with
    | true =>
      obtain ⟨r, hrun, hsome, hnone⟩ := ih (s + 1) rs 0 (by omega) (by omega)
        nofun (fun x _ _ ↦ by omega)
      refine ⟨r, hrun, fun a ha ↦ ?_, fun hr a h h' ↦ ?_⟩
      · obtain ⟨h, h', hx, hfirst⟩ := hsome a ha
        refine ⟨by omega, by omega, hx, .inr (hfirst.elim (fun he ↦ ?_) id)⟩
        rw [he]
        exact hs
      · by_cases has : a ≤ s
        · exact ⟨s, has, by omega, hs⟩
        · exact hnone hr a (by omega) (by omega)
    | false =>
      have hstart : (if rl = 0 then s else rs) = s - rl := by
        split_ifs with h
        · rw [h, Nat.sub_zero]
        · exact hrs h
      have hclear' : ∀ x, s - rl ≤ x → x < s + 1 → bit su d x = false := by
        intro x h h'
        rcases Nat.lt_succ_iff_lt_or_eq.mp h' with hx | rfl
        · exact hclear x h hx
        · exact hs
      simp only [if_false, hstart]
      by_cases hc : rl + 1 = count
      · rw [if_pos hc]
        refine ⟨some (s - rl), rfl, fun a ha ↦ ?_, nofun⟩
        obtain rfl := Option.some.inj ha
        exact ⟨le_rfl, by omega, fun x h h' ↦ hclear' x h (by omega), .inl rfl⟩
      · rw [if_neg hc]
        obtain ⟨r, hrun, hsome, hnone⟩ := ih (s + 1) (s - rl) (rl + 1) (by omega)
          (by omega) (fun _ ↦ by omega) (fun x h h' ↦ hclear' x (by omega) h')
        refine ⟨r, hrun, fun a ha ↦ ?_, fun hr a h h' ↦ hnone hr a (by omega) (by omega)⟩
        obtain ⟨h, h', hx, hfirst⟩ := hsome a ha
        exact ⟨by omega, by omega, hx, hfirst.imp_left fun he ↦ by omega⟩

/-- A run of `count` sectors of the data region whose bits are all clear. -/
def FreeRun (su : Super) (d : ℕ → Sector) (a count : ℕ) : Prop :=
  su.dataStart ≤ a ∧ a + count ≤ su.totalSectors ∧ ∀ x, a ≤ x → x < a + count → bit su d x = false

theorem run_bitmapAlloc (hg : Geometry su) (count : ℕ) (hc : 0 < count) :
    (∃ a d', (bitmapAlloc su count).run d =
        ((a, { su with freeSectors := u32 (su.freeSectors + 2 ^ 32 - count) }), d') ∧
        FreeRun su d a count ∧ Marks su d d' true a count ∧
        (a = su.dataStart ∨ bit su d (a - 1) = true)) ∨
      ((bitmapAlloc su count).run d = ((0, su), d) ∧ ∀ a, ¬ FreeRun su d a count) := by
  obtain ⟨r, hrun, hsome, hnone⟩ := run_bitmapScan su d _
    su.dataStart su.dataStart 0 hc (Nat.zero_le _) nofun
    (fun x _ _ ↦ by omega)
  rw [bitmapAlloc, Prog.run_bind, hrun]
  cases r with
  | none =>
    refine .inr ⟨rfl, fun a ⟨h, h', hx⟩ ↦ ?_⟩
    obtain ⟨x, hax, hxc, hset⟩ := hnone rfl a h (by omega)
    exact absurd (hset.symm.trans (hx x hax hxc)) nofun
  | some a =>
    obtain ⟨h, h', hx, hfirst⟩ := hsome a rfl
    have hle : a + count ≤ su.totalSectors := by omega
    obtain ⟨d', hmark, hmarks⟩ := run_bitmapMark hg true fun _ ↦ hle
    refine .inl ⟨a, d', ?_, ⟨h, hle, hx⟩, hmarks, hfirst⟩
    simp only [Prog.run_bind, span_eq (hle.trans_lt hg.word), hmark, Prog.run_pure]

/-- A byte of the file whose sectors start at `start`. -/
def byteAt (d : ℕ → Sector) (start o : ℕ) : UInt8 := d (u32 (start + u32 (o / 512))) (o % 512)

theorem sectorOf_eq (h : start + o / 512 < 2 ^ 32) :
    u32 (start + u32 (o / 512)) = start + o / 512 := by
  rw [u32, u32, Nat.mod_eq_of_lt (a := o / 512) (by omega), Nat.mod_eq_of_lt h]

/-- The bytes of the file after one pass of the data loop. -/
theorem byteAt_patch (d : ℕ → Sector) {off : ℕ} (l : List UInt8) (hoff : start + off / 512 < 2 ^ 32)
    (ho : start + o / 512 < 2 ^ 32) :
    byteAt (update d (u32 (start + u32 (off / 512)))
        (patch (off % 512) (l.take (512 - off % 512)) (d (u32 (start + u32 (off / 512)))))) start o =
      if off ≤ o ∧ o < off + min (512 - off % 512) l.length then l.getD (o - off) 0
      else byteAt d start o := by
  rw [byteAt, byteAt, sectorOf_eq hoff, sectorOf_eq ho]
  by_cases hs : o / 512 = off / 512
  · rw [hs, update_self, patch, length_take]
    by_cases hin : off ≤ o ∧ o < off + min (512 - off % 512) l.length
    · rw [if_pos hin, if_pos (by omega), show o % 512 - off % 512 = o - off by omega]
      rw [getD_eq_getElem?_getD, getD_eq_getElem?_getD, getElem?_take_of_lt (by omega)]
    · rw [if_neg hin, if_neg (by omega)]
  · rw [update_of_ne (by omega), if_neg (by omega)]

/-- The data loop goes through, leaves the sectors that it does not visit, and writes the bytes. -/
theorem run_writeData (start : ℕ) (k : ℕ) (l : List UInt8) (off : ℕ) :
    ∃ d', (writeData start k l off).run d = (true, d') ∧
      (∀ t, (∀ o, off ≤ o → o < off + l.length → u32 (start + u32 (o / 512)) ≠ t) → d' t = d t) ∧
      (l.length ≤ k → start + (off + l.length - 1) / 512 < 2 ^ 32 →
        ∀ o, start + o / 512 < 2 ^ 32 → byteAt d' start o =
          if off ≤ o ∧ o < off + l.length then l.getD (o - off) 0 else byteAt d start o) := by
  induction k generalizing l off d with
  | zero =>
    refine ⟨d, rfl, fun _ _ ↦ rfl, fun hl _ o _ ↦ (if_neg ?_).symm⟩
    omega
  | succ k ih =>
    by_cases hl : l = []
    · rw [writeData, hl]
      refine ⟨d, rfl, fun _ _ ↦ rfl, fun _ _ o _ ↦ (if_neg ?_).symm⟩
      rw [length_nil]
      omega
    · have hpos := length_pos_iff.mpr hl
      rw [writeData, if_neg hl]
      obtain ⟨d', hrun, hsame, hbytes⟩ := ih _ (off + (512 - off % 512))
      rw [length_drop] at hsame hbytes
      refine ⟨d', hrun, fun t ht ↦ ?_, fun hk hend o ho ↦ ?_⟩
      · rw [hsame t fun o h h' ↦ ht o (by omega) (by omega)]
        exact update_of_ne (ht off le_rfl (by omega)).symm ..
      · have hrest : byteAt d' start o = _ := hbytes (by omega) (by omega) o ho
        rw [hrest, byteAt_patch d l (by omega) ho]
        by_cases hlate : off + (512 - off % 512) ≤ o ∧
            o < off + (512 - off % 512) + (l.length - (512 - off % 512))
        · rw [if_pos hlate, if_pos (by omega), getD_eq_getElem?_getD, getElem?_drop]
          congr 2
          omega
        · rw [if_neg hlate]
          exact if_congr (by omega) rfl rfl

theorem run_readData (d : ℕ → Sector) (start cnt : ℕ) (hk : cnt ≤ k) (off : ℕ) :
    (readData start k cnt off).run d =
      (some ((List.range cnt).map fun b ↦ byteAt d start (off + b)), d) := by
  induction k generalizing cnt off with
  | zero =>
    obtain rfl : cnt = 0 := by omega
    rfl
  | succ k ih =>
    rw [readData]
    split_ifs with hcnt
    · rw [hcnt]
      rfl
    · obtain ⟨c, hc⟩ : ∃ c, c = min (512 - off % 512) cnt := ⟨_, rfl⟩
      have hrest := ih (cnt - c) (by omega) (off + c)
      have hsplit : List.range cnt = List.range c ++ (List.range (cnt - c)).map (c + ·) := by
        rw [← range_add, Nat.add_sub_cancel' (by omega)]
      simp only [Prog.run, Prog.run_bind, ← hc, hrest, hsplit, map_append, map_map]
      refine congrArg (fun l ↦ (some l, d)) (congrArg₂ _ ?_ ?_)
      · refine map_congr_left fun b hb ↦ ?_
        have hlt := mem_range.mp hb
        rw [byteAt, show (off + b) / 512 = off / 512 by omega,
          show (off + b) % 512 = off % 512 + b by omega]
      · refine map_congr_left fun b _ ↦ ?_
        rw [comp_apply, Nat.add_assoc]

/-- **A read** returns the bytes of the file. -/
theorem run_read (su : Super) (d : ℕ → Sector) (i cap off : ℕ) :
    (read su i cap off).run d = (if (ent su d i).type = typeDir then .error .eisdir
      else .ok ((List.range (min ((ent su d i).size - off) cap)).map
        fun b ↦ byteAt d (ent su d i).startSector (off + b)), d) := by
  have hread : (readDirent su i).run d = (some (ent su d i), d) := rfl
  have hrel : (releaseDirent su i).run d = ((), d) := rfl
  simp only [read, Prog.run_bind, hread, hrel]
  split_ifs with hdir hsize
  · rfl
  · rw [Nat.sub_eq_zero_of_le hsize]
    rfl
  · simp only [Prog.run_bind, run_readData d _ _ le_rfl]
    rfl

/-- The copy goes upwards, so the sectors may be moved down over each other. -/
theorem run_copySectors (k s t : ℕ) : ∃ d', (copySectors k s t).run d = ((), d') ∧
    (∀ x, (∀ j < k, u32 (t + j) ≠ x) → d' x = d x) ∧
    (s + k ≤ 2 ^ 32 → t + k ≤ 2 ^ 32 → t ≤ s ∨ s + k ≤ t → ∀ j < k, d' (t + j) = d (s + j)) := by
  induction k generalizing s t d with
  | zero => exact ⟨d, rfl, fun _ _ ↦ rfl, fun _ _ _ j hj ↦ absurd hj (Nat.not_lt_zero j)⟩
  | succ k ih =>
    obtain ⟨d', hrun, hsame, hcopy⟩ := ih (s := s + 1) (t := t + 1)
     
    refine ⟨d', hrun, fun x hx ↦ ?_, fun hs ht hst j hj ↦ ?_⟩
    · rw [hsame x fun j hj ↦ Nat.add_right_comm t 1 j ▸ hx (j + 1) (by omega)]
      exact update_of_ne (hx 0 (by omega)).symm ..
    · have hword : ∀ x < 2 ^ 32, u32 x = x := fun x hx ↦ Nat.mod_eq_of_lt hx
      cases j with
      | zero =>
        rw [hsame (t + 0) fun j hj ↦ by rw [hword _ (by omega)]; omega, hword t (by omega),
          hword s (by omega)]
        exact update_self ..
      | succ j =>
        have hnext := hcopy (by omega) (by omega) (by omega) j (by omega)
        rw [Nat.add_right_comm t 1 j, Nat.add_right_comm s 1 j] at hnext
        refine hnext.trans (update_of_ne ?_ ..)
        rw [hword t (by omega)]
        omega

/-! ## Names -/

theorem run_findDirent (su : Super) (d : ℕ → Sector) (P : ℕ → Entry → Bool) (k i : ℕ) :
    ∃ r, (findDirent su P k i).run d = (r, d) ∧
      ((r = maxDirents ∧ ∀ j, i ≤ j → j < i + k → P j (ent su d j) = false) ∨
        (r < i + k ∧ P r (ent su d r) = true)) := by
  induction k generalizing i with
  | zero => exact ⟨maxDirents, rfl, .inl ⟨rfl, fun j _ _ ↦ by omega⟩⟩
  | succ k ih =>
    have hread : (readDirent su i).run d = (some (ent su d i), d) := rfl
    have hrel : (releaseDirent su i).run d = ((), d) := rfl
    simp only [findDirent, Prog.run_bind, hread]
    cases hP : P i (ent su d i) with
    | true => exact ⟨i, rfl, .inr ⟨by omega, hP⟩⟩
    | false =>
      obtain ⟨r, hrun, hr⟩ := ih (i + 1)
      refine ⟨r, hrun, hr.imp (fun h ↦ ⟨h.1, fun j hj hlt ↦ ?_⟩) fun h ↦ ⟨by omega, h.2⟩⟩
      rcases hj.eq_or_lt with rfl | hj
      · exact hP
      · exact h.2 j hj (by omega)

theorem run_walk (hg : Geometry su) (P : UInt8 → Bool) (cs : List (List UInt8)) {i : ℕ}
    (hi : i < maxDirents ∧ P (ent su d i).type = true) :
    ∃ r, (walk su P cs i).run d = (r, d) ∧
      (r = maxDirents ∨ (r < maxDirents ∧ P (ent su d r).type = true)) := by
  induction cs generalizing i with
  | nil => exact ⟨i, rfl, .inr hi⟩
  | cons c cs ih =>
    rw [walk, Prog.run_bind]
    obtain ⟨r, hrun, hr⟩ := run_findDirent su d (fun j e ↦ j ≠ maxDirents ∧ P e.type ∧
      e.parentIdx = i ∧ e.name = c) su.nDirents 0
    rw [hrun]
    by_cases hmax : r = maxDirents
    · exact ⟨maxDirents, by rw [if_pos hmax]; rfl, .inl rfl⟩
    · obtain ⟨hlt, hP⟩ := hr.resolve_left fun h ↦ hmax h.1
      rw [hg.dirents] at hlt
      have hmod : r % 65536 = r := Nat.mod_eq_of_lt (hlt.trans (by decide))
      simp only [decide_eq_true_eq] at hP
      simp only [if_neg hmax, hmod]
      exact ih ⟨hlt, hP.2.1⟩

theorem run_lookup (hg : Geometry su) (hroot : (ent su d 0).type = typeDir) (path : List UInt8) :
    ∃ r, (lookup su path).run d = (r, d) ∧
      (r = maxDirents ∨ (r < maxDirents ∧ (ent su d r).type ≠ typeFree)) := by
  have hne : (ent su d 0).type ≠ typeFree := by rw [hroot]; decide
  rw [lookup]
  split_ifs
  · exact ⟨0, rfl, .inr ⟨by decide, hne⟩⟩
  · obtain ⟨r, hrun, hr⟩ := run_walk hg (· ≠ typeFree)
      (components _) ⟨by decide, decide_eq_true hne⟩
    exact ⟨r, hrun, hr.imp_right fun h ↦ ⟨h.1, of_decide_eq_true h.2⟩⟩

theorem run_lookupParent (hg : Geometry su) (hroot : (ent su d 0).type = typeDir)
    (path : List UInt8) : ∃ r, (lookupParent su path).run d = (r, d) := by
  simp only [lookupParent]
  by_cases hslash : 47 ∉ stripTrailing (stripLeading path)
  · rw [if_pos hslash]
    exact ⟨_, rfl⟩
  · rw [if_neg hslash, Prog.run_bind]
    obtain ⟨r, hrun, -⟩ := run_walk hg (· = typeDir) (components _)
      ⟨by decide, decide_eq_true hroot⟩
    rw [hrun]
    exact ⟨_, rfl⟩

/-! ## The layout -/

/-- The entry is a file, and the sector one of its sectors. -/
def Owns (su : Super) (d : ℕ → Sector) (i s : ℕ) : Prop :=
  i < maxDirents ∧ (ent su d i).type = typeFile ∧ (ent su d i).startSector ≤ s ∧
    s < (ent su d i).startSector + nsectors (ent su d i).size

/-- **The layout.** Sizes are such that rounding them up to sectors does not wrap. -/
structure Layout (su : Super) (d : ℕ → Sector) : Prop where
  geom : Geometry su
  root : (ent su d 0).type = typeDir
  types : ∀ i < maxDirents, (ent su d i).type = typeFree ∨ (ent su d i).type = typeFile ∨
    (ent su d i).type = typeDir
  small : ∀ i < maxDirents, (ent su d i).type = typeFile → (ent su d i).size + 511 < 2 ^ 32
  range : ∀ i s, Owns su d i s → su.dataStart ≤ s ∧ s < su.totalSectors
  disjoint : ∀ i j s, Owns su d i s → Owns su d j s → i = j
  marked : ∀ s < su.totalSectors, bit su d s = true ↔ s < su.dataStart ∨ ∃ i, Owns su d i s

def clearBits (n : ℕ) (b : ℕ → Bool) : Finset ℕ := (Finset.range n).filter fun s ↦ b s = false

def clear (su : Super) (d : ℕ → Sector) : Finset ℕ := clearBits su.totalSectors (bit su d)

/-- The layout, and the count of free sectors is right. -/
structure Tidy (su : Super) (d : ℕ → Sector) : Prop extends Layout su d where
  free : su.freeSectors = (clear su d).card

theorem clearBits_congr {n : ℕ} {b b' : ℕ → Bool} (h : ∀ s < n, b' s = b s) :
    clearBits n b' = clearBits n b :=
  Finset.filter_congr fun s hs ↦ by rw [h s (Finset.mem_range.mp hs)]

/-- A run of bits is cleared. -/
theorem card_clearBits {n : ℕ} (hle : k ≠ 0 → a + k ≤ n) (b b' : ℕ → Bool)
    (h : ∀ x < n, b' x = if a ≤ x ∧ x < a + k then false else b x)
    (hset : ∀ x, a ≤ x → x < a + k → b x = true) :
    (clearBits n b').card = (clearBits n b).card + k := by
  have hunion : clearBits n b' = clearBits n b ∪ Finset.Ico a (a + k) := by
    ext x
    simp only [clearBits, Finset.mem_union, Finset.mem_filter, Finset.mem_range, Finset.mem_Ico]
    by_cases hx : x < n
    · rw [h x hx]
      split_ifs with hin <;> simp [hx, hin]
    · exact iff_of_false (fun h ↦ hx h.1) (fun h ↦ h.elim (fun h ↦ hx h.1) (fun h ↦ by omega))
  have hdisj : Disjoint (clearBits n b) (Finset.Ico a (a + k)) := by
    rw [Finset.disjoint_left]
    intro x hx hin
    have := hset x (Finset.mem_Ico.mp hin).1 (Finset.mem_Ico.mp hin).2
    exact absurd ((Finset.mem_filter.mp hx).2.symm.trans this) nofun
  rw [hunion, Finset.card_union_of_disjoint hdisj, Nat.card_Ico, Nat.add_sub_cancel_left]

namespace Layout

variable {d' : ℕ → Sector} {i : ℕ}

/-- One entry changes and its sectors with it. -/
theorem replace (h : Layout su d) (hent : ∀ j < maxDirents, j ≠ i → ent su d' j = ent su d j)
    (hroot : (ent su d' 0).type = typeDir)
    (htype : (ent su d' i).type = typeFree ∨ (ent su d' i).type = typeFile ∨
      (ent su d' i).type = typeDir)
    (hsmall : (ent su d' i).type = typeFile → (ent su d' i).size + 511 < 2 ^ 32)
    (hnew : ∀ s, Owns su d' i s → su.dataStart ≤ s ∧ s < su.totalSectors ∧
      ∀ j, j ≠ i → ¬ Owns su d j s)
    (hbits : ∀ s < su.totalSectors, bit su d' s = true ↔
      (bit su d s = true ∧ ¬ Owns su d i s) ∨ Owns su d' i s) : Layout su d' := by
  have howns : ∀ j s, j ≠ i → (Owns su d' j s ↔ Owns su d j s) := by
    intro j s hj
    refine and_congr_right fun hlt ↦ ?_
    rw [hent j hlt hj]
  refine ⟨h.geom, hroot, fun j hj ↦ ?_, fun j hj ↦ ?_, fun j s hs ↦ ?_, fun j k s hs hs' ↦ ?_,
    fun s hs ↦ ?_⟩
  · by_cases he : j = i
    · exact he ▸ htype
    · exact (hent j hj he).symm ▸ h.types j hj
  · by_cases he : j = i
    · exact he ▸ hsmall
    · exact (hent j hj he).symm ▸ h.small j hj
  · by_cases he : j = i
    · exact ⟨(hnew s (he ▸ hs)).1, (hnew s (he ▸ hs)).2.1⟩
    · exact h.range j s ((howns j s he).mp hs)
  · by_cases he : j = i <;> by_cases he' : k = i
    · exact he.trans he'.symm
    · exact absurd ((howns k s he').mp hs') ((hnew s (he ▸ hs)).2.2 k he')
    · exact absurd ((howns j s he).mp hs) ((hnew s (he' ▸ hs')).2.2 j he)
    · exact h.disjoint j k s ((howns j s he).mp hs) ((howns k s he').mp hs')
  · rw [hbits s hs, h.marked s hs]
    constructor
    · rintro (⟨hlt | ⟨j, hj⟩, hno⟩ | hown)
      · exact .inl hlt
      · have he : j ≠ i := fun he ↦ hno (he ▸ hj)
        exact .inr ⟨j, (howns j s he).mpr hj⟩
      · exact .inr ⟨i, hown⟩
    · rintro (hlt | ⟨j, hj⟩)
      · exact .inl ⟨.inl hlt, fun ho ↦ absurd (h.range i s ho).1 (by omega)⟩
      · by_cases he : j = i
        · exact .inr (he ▸ hj)
        · have hj' := (howns j s he).mp hj
          exact .inl ⟨.inr ⟨j, hj'⟩, fun ho ↦ he (h.disjoint j i s hj' ho)⟩

theorem nsectors_eq (h : Layout su d) (hi : i < maxDirents) (hf : (ent su d i).type = typeFile) :
    nsectors (ent su d i).size = ((ent su d i).size + 511) / 512 := by
  rw [nsectors, u32, Nat.mod_eq_of_lt (h.small i hi hf)]

theorem extent_le (h : Layout su d) (hi : i < maxDirents) (hf : (ent su d i).type = typeFile)
    (hne : nsectors (ent su d i).size ≠ 0) : su.dataStart ≤ (ent su d i).startSector ∧
      (ent su d i).startSector + nsectors (ent su d i).size ≤ su.totalSectors := by
  have hfirst := h.range i (ent su d i).startSector ⟨hi, hf, le_rfl, by omega⟩
  have hlast := h.range i ((ent su d i).startSector + (nsectors (ent su d i).size - 1))
    ⟨hi, hf, by omega, by omega⟩
  omega

/-- An entry without sectors becomes another one. -/
theorem replace_empty (h : Layout su d) (hent : ∀ j < maxDirents, j ≠ i → ent su d' j = ent su d j)
    (hroot : (ent su d' 0).type = typeDir)
    (htype : (ent su d' i).type = typeFree ∨ (ent su d' i).type = typeFile ∨
      (ent su d' i).type = typeDir)
    (hold : ∀ s, ¬ Owns su d i s) (hsize : (ent su d' i).type = typeFile → (ent su d' i).size = 0)
    (hbits : ∀ s < su.totalSectors, bit su d' s = bit su d s) : Layout su d' := by
  have hnone : ∀ s, ¬ Owns su d' i s := by
    rintro s ⟨-, ht, hs, hs'⟩
    rw [hsize ht] at hs'
    exact absurd hs (by simpa [nsectors, u32] using hs')
  refine h.replace hent hroot htype (fun ht ↦ by rw [hsize ht]; decide)
    (fun s hs ↦ absurd hs (hnone s)) fun s hs ↦ ?_
  rw [hbits s hs, and_iff_left (hold s), or_iff_left (hnone s)]

end Layout

/-! ## What the operations do -/

/-- Entry `i` becomes `f` of it, the bits are given by `b`, and the sectors of the data region that
are not in `W` stay. -/
structure Effect (su : Super) (d d' : ℕ → Sector) (i : ℕ) (f : Entry → Entry) (b : ℕ → Bool)
    (W : ℕ → Prop) : Prop where
  entry : ∀ j < maxDirents,
    ent su d' j = if j = i then fun k ↦ f (ent su d i) (k % 64) else ent su d j
  bits : ∀ s < su.totalSectors, bit su d' s = b s
  data : ∀ t, su.dataStart ≤ t → ¬ W t → d' t = d t

namespace Effect

variable {d₁ d₂ : ℕ → Sector} {i : ℕ} {f : Entry → Entry} {b : ℕ → Bool} {W : ℕ → Prop}

theorem writeDirent (hg : Geometry su) (hi : i < maxDirents) (f : Entry → Entry) :
    ∃ d', (writeDirent su i f).run d = ((), d') ∧ Effect su d d' i f (bit su d) fun _ ↦ False := by
  have hsec := hg.direntSector_lt hi
  refine ⟨_, rfl, fun j _ ↦ ent_setEntry f i j, fun s hs ↦ bit_congr ?_, fun t ht _ ↦ ?_⟩
  · have := hg.bitmapSector_lt hs
    exact update_of_ne (by omega) ..
  · exact update_of_ne (by omega) ..

/-- Changes outside of the directory table come before. -/
theorem before (hg : Geometry su) (h : Effect su d₁ d₂ i f (bit su d₁) W) (hi : i < maxDirents)
    (hdir : ∀ t, su.dirStart ≤ t → t < su.dataStart → d₁ t = d t)
    (hdata : ∀ t, su.dataStart ≤ t → ¬ W t → d₁ t = d t) :
    Effect su d d₂ i f (bit su d₁) W := by
  have hent : ∀ j < maxDirents, ent su d₁ j = ent su d j := fun j hj ↦
    ent_congr (hdir _ (hg.direntSector_lt hj).1 (hg.direntSector_lt hj).2)
  refine ⟨fun j hj ↦ ?_, h.bits, fun t ht hw ↦ (h.data t ht hw).trans (hdata t ht hw)⟩
  rw [h.entry j hj, hent j hj, hent i hi]

/-- Changes of the superblock and of data come after. -/
theorem after (hg : Geometry su) (h : Effect su d d₁ i f b W)
    (hmeta : ∀ t, t ≠ 0 → t < su.dataStart → d₂ t = d₁ t)
    (hdata : ∀ t, su.dataStart ≤ t → ¬ W t → d₂ t = d₁ t) : Effect su d d₂ i f b W := by
  refine ⟨fun j hj ↦ ?_, fun s hs ↦ ?_, fun t ht hw ↦ (hdata t ht hw).trans (h.data t ht hw)⟩
  · have hsec := hg.direntSector_lt hj
    have := hg.dir
    rw [← h.entry j hj, ent_congr (hmeta _ (by omega) hsec.2)]
  · have hsec := hg.bitmapSector_lt hs
    have := hg.data
    rw [← h.bits s hs, bit_congr (hmeta _ (by omega) (by omega))]

end Effect

theorem run_createEntry (h : Layout su d) (type : UInt8) (path : List UInt8) :
    ∃ r d', (createEntry su type path).run d = (r, d') ∧ ((d' = d ∧ r.isOk = false) ∨
      r.isOk = true ∧ ∃ slot < maxDirents, (ent su d slot).type = typeFree ∧ ∃ parent name,
        (lookup su path).run d = (maxDirents, d) ∧
        (lookupParent su path).run d = ((parent, name), d) ∧ parent ≠ maxDirents ∧
        name.length ≠ 0 ∧ name.length ≤ 47 ∧
        Effect su d d' slot (fun _ ↦ newEntry name type parent) (bit su d) fun _ ↦ False) := by
  obtain ⟨r, hlookup, -⟩ := run_lookup h.geom h.root path
  obtain ⟨q, hparent⟩ := run_lookupParent h.geom h.root path
  rw [createEntry, Prog.run_bind, hlookup]
  split_ifs with hno
  · exact ⟨_, _, rfl, .inl ⟨rfl, rfl⟩⟩
  rw [Prog.run_bind, hparent]
  dsimp only
  split_ifs with hdir hname
  · exact ⟨_, _, rfl, .inl ⟨rfl, rfl⟩⟩
  · exact ⟨_, _, rfl, .inl ⟨rfl, rfl⟩⟩
  obtain ⟨slot, halloc, hslot⟩ :=
    run_findDirent su d (fun _ e ↦ e.type = typeFree) su.nDirents 0
  rw [Prog.run_bind, allocDirent, halloc]
  split_ifs with hmax
  · exact ⟨_, _, rfl, .inl ⟨rfl, rfl⟩⟩
  obtain ⟨hlt, hfree⟩ := hslot.resolve_left fun h ↦ hmax h.1
  rw [h.geom.dirents] at hlt
  obtain ⟨d', hwrite, heff⟩ := Effect.writeDirent h.geom hlt fun _ ↦ newEntry q.2 type q.1
  rw [not_or, not_lt] at hname
  obtain rfl := not_not.mp hno
  refine ⟨.ok (), d', ?_, .inr ⟨rfl, slot, hlt, of_decide_eq_true hfree, q.1, q.2, rfl, rfl,
    hdir, hname.1, hname.2, heff⟩⟩
  have hread : (readDirent su slot).run d = (some (ent su d slot), d) := rfl
  rw [Prog.run_bind, hread]
  rw [Prog.run_bind, hwrite]
  rfl

theorem run_rmdir (h : Layout su d) (path : List UInt8) :
    ∃ r d', (rmdir su path).run d = (r, d') ∧ ((d' = d ∧ r.isOk = false) ∨
      r.isOk = true ∧ ∃ i < maxDirents, i ≠ 0 ∧ (ent su d i).type = typeDir ∧
        (lookup su path).run d = (i, d) ∧
        (∀ j < maxDirents, (ent su d j).type ≠ typeFree → (ent su d j).parentIdx ≠ i) ∧
        Effect su d d' i setFree (bit su d) fun _ ↦ False) := by
  obtain ⟨i, hlookup, hi⟩ := run_lookup h.geom h.root path
  have hread : (readDirent su i).run d = (some (ent su d i), d) := rfl
  have hrel : (releaseDirent su i).run d = ((), d) := rfl
  simp only [rmdir, Prog.run_bind, hlookup]
  split_ifs with hno
  · exact ⟨_, _, rfl, .inl ⟨rfl, rfl⟩⟩
  simp only [Prog.run_bind, hread, hrel]
  split_ifs with hdir
  · exact ⟨_, _, rfl, .inl ⟨rfl, rfl⟩⟩
  obtain ⟨c, hfind, hc⟩ := run_findDirent su d (fun j c ↦ j ≠ maxDirents ∧ c.type ≠ typeFree ∧
    c.parentIdx = i % 65536) su.nDirents 0
  simp only [Prog.run_bind, hfind]
  split_ifs with hchild
  · exact ⟨_, _, rfl, .inl ⟨rfl, rfl⟩⟩
  have hlt := (hi.resolve_left fun h ↦ hno (.inl h)).1
  obtain ⟨d', hwrite, heff⟩ := Effect.writeDirent h.geom hlt setFree
  refine ⟨.ok (), d', ?_, .inr ⟨rfl, i, hlt, fun h ↦ hno (.inr h), not_not.mp hdir, rfl,
    fun j hj hused hp ↦ ?_, heff⟩⟩
  · simp only [Prog.run_bind, hread, hwrite]
    rfl
  · rcases hc with ⟨-, hnone⟩ | ⟨-, hsome⟩
    · have := hnone j (Nat.zero_le j) (by rw [h.geom.dirents]; omega)
      rw [decide_eq_false_iff_not, Nat.mod_eq_of_lt (hlt.trans (by decide))] at this
      exact this ⟨hj.ne, hused, hp⟩
    · exact (of_decide_eq_true hsome).1 (not_not.mp hchild)

/-- The sectors of an entry, if it is a file. -/
def extent (e : Entry) (x : ℕ) : Prop :=
  e.startSector ≤ x ∧ x < e.startSector + nsectors e.size

instance (e : Entry) (x : ℕ) : Decidable (extent e x) := inferInstanceAs (Decidable (_ ∧ _))

/-- The bits without those of an entry. -/
def without (su : Super) (d : ℕ → Sector) (e : Entry) (x : ℕ) : Bool :=
  !decide (extent e x) && bit su d x

theorem Marks.without {d' : ℕ → Sector} {e : Entry}
    (h : Marks su d d' false e.startSector (nsectors e.size)) (x : ℕ) :
    bit su d' x = without su d e x := by
  rw [h.1, Sfs.without]
  by_cases hx : extent e x
  · rw [if_pos (show _ ∧ _ from hx), decide_eq_true hx]
    rfl
  · rw [if_neg (show ¬ (_ ∧ _) from hx), decide_eq_false hx]
    rfl

theorem run_unlink (h : Layout su d) (path : List UInt8) : ∃ r f d',
    (unlink su path).run d = ((r, { su with freeSectors := f }), d') ∧
      ((d' = d ∧ f = su.freeSectors ∧ r.isOk = false) ∨
        r.isOk = true ∧ ∃ i < maxDirents, (ent su d i).type = typeFile ∧
        (lookup su path).run d = (i, d) ∧
        (su.freeSectors + nsectors (ent su d i).size < 2 ^ 32 →
          f = su.freeSectors + nsectors (ent su d i).size) ∧
        Effect su d d' i setFree (without su d (ent su d i)) fun _ ↦ False) := by
  obtain ⟨i, hlookup, hi⟩ := run_lookup h.geom h.root path
  have hread : (readDirent su i).run d = (some (ent su d i), d) := rfl
  simp only [unlink, Prog.run_bind, hlookup]
  split_ifs with hmax
  · exact ⟨_, su.freeSectors, _, rfl, .inl ⟨rfl, rfl, rfl⟩⟩
  simp only [Prog.run_bind, hread]
  split_ifs with hdir
  · exact ⟨_, su.freeSectors, _, rfl, .inl ⟨rfl, rfl, rfl⟩⟩
  obtain ⟨hlt, hne⟩ := hi.resolve_left hmax
  have hf : (ent su d i).type = typeFile :=
    ((h.types i hlt).resolve_left hne).resolve_right hdir
  obtain ⟨f, d₁, hfree, hf', hmarks⟩ : ∃ f d₁,
      (freeExtent su (ent su d i)).run d = ({ su with freeSectors := f }, d₁) ∧
      (su.freeSectors + nsectors (ent su d i).size < 2 ^ 32 →
        f = su.freeSectors + nsectors (ent su d i).size) ∧
      Marks su d d₁ false (ent su d i).startSector _ := by
    rw [freeExtent]
    split_ifs with hsize
    · obtain ⟨d₁, hrun, hmarks⟩ := run_bitmapFree h.geom (le32_lt _ 52)
        fun hne ↦ (h.extent_le hlt hf hne).2
      exact ⟨_, d₁, hrun, Nat.mod_eq_of_lt, hmarks⟩
    · have hzero : nsectors (ent su d i).size = 0 := by
        rw [h.nsectors_eq hlt hf]
        omega
      refine ⟨su.freeSectors, d, rfl, fun _ ↦ by rw [hzero, Nat.add_zero], fun x ↦ ?_,
        fun _ _ ↦ rfl⟩
      rw [if_neg (by omega)]
  obtain ⟨d₂, hwrite, heff⟩ := Effect.writeDirent h.geom hlt setFree
  have heff' : Effect su d d₂ i setFree (bit su d₁) fun _ ↦ False :=
    heff.before h.geom hlt (fun t ht _ ↦ hmarks.2 t (.inr ht)) fun t ht _ ↦ hmarks.2 t (.inr (by
        have := h.geom.data
        omega))
  rw [funext hmarks.without] at heff'
  have hsuper : ∀ su' : Super, (writeSuper su').run d₂ =
      (.ok (), update d₂ 0 su'.toSector) := fun _ ↦ rfl
  refine ⟨.ok (), f, update d₂ 0 (Super.toSector { su with freeSectors := f }), ?_, .inr
    ⟨rfl, i, hlt, hf, rfl, hf', heff'.after h.geom (fun t ht _ ↦ update_of_ne ht ..)
      fun t ht _ ↦ update_of_ne ?_ ..⟩⟩
  · have hwrite' : (writeDirent { su with freeSectors := f } i setFree).run d₁ = ((), d₂) := hwrite
    simp only [Prog.run_bind, hfree, hwrite']
    rfl
  · have := h.geom.data
    omega

/-- Room for `count` sectors where those of the entry are given up. -/
def Fits (su : Super) (d : ℕ → Sector) (e : Entry) (count a : ℕ) : Prop :=
  su.dataStart ≤ a ∧ a + count ≤ su.totalSectors ∧
    ∀ x, a ≤ x → x < a + count → without su d e x = false

/-- An entry as a write leaves it. -/
def Sized (e e' : Entry) (size start : ℕ) : Prop :=
  e'.type = e.type ∧ e'.size = size ∧ e'.startSector = start

theorem sized_setSize (e : Entry) (h : size < 2 ^ 32) :
    Sized e (fun k ↦ setSize size e (k % 64)) size e.startSector := by
  refine ⟨rfl, ?_, ?_⟩
  · show le32 (putLe32 e 48 (u32 size)) 48 = size
    rw [le32_putLe32, u32, Nat.mod_mod, Nat.mod_eq_of_lt h]
  · exact le32_putLe32_ne _ _ (.inr le_rfl)

theorem sized_setStart (e : Entry) (h : size < 2 ^ 32) (hs : start < 2 ^ 32) :
    Sized e (fun k ↦ (setSize size ∘ setStart start) e (k % 64)) size start := by
  obtain ⟨-, hsize, hstart⟩ := sized_setSize _ h
  refine ⟨rfl, hsize, hstart.trans ?_⟩
  show le32 (putLe32 e 52 start) 52 = start
  rw [le32_putLe32, Nat.mod_eq_of_lt hs]

theorem run_writeFile (hg : Geometry su) {i : ℕ} (hi : i < maxDirents) (f : Entry → Entry)
    (changed : Bool) (start count : ℕ) (data : List UInt8) (off : ℕ)
    (hstart : count ≠ 0 → su.dataStart ≤ start ∧ start + count ≤ su.totalSectors)
    (hend : off + data.length ≤ 512 * count) :
    ∃ d', (writeFile su i f changed start data off).run d = (.ok data.length, d') ∧
      Effect su d d' i f (bit su d) (fun t ↦ start ≤ t ∧ t < start + count) ∧
      ∀ o < 512 * count, byteAt d' start o =
        if off ≤ o ∧ o < off + data.length then data.getD (o - off) 0 else byteAt d start o := by
  obtain ⟨d₁, hwrite, heff⟩ := Effect.writeDirent (d := d) hg hi f
  have hgeom := hg.data
  have hword := hg.word
  obtain ⟨d₂, hsup, hsame⟩ : ∃ d₂, (writeSuperIf su changed).run d₁ = ((), d₂) ∧
      ∀ t, t ≠ 0 → d₂ t = d₁ t := by
    cases changed with
    | false => exact ⟨d₁, rfl, fun _ _ ↦ rfl⟩
    | true => exact ⟨_, rfl, fun t ht ↦ update_of_ne ht ..⟩
  obtain ⟨d₃, hdata, hrest, hbytes⟩ := run_writeData (d := d₂) start data.length data off
  have hvisit : ∀ o < 512 * count, u32 (start + u32 (o / 512)) = start + o / 512 ∧
      start + o / 512 < 2 ^ 32 ∧ su.dataStart ≤ start + o / 512 ∧
      start + o / 512 < start + count := by
    intro o ho
    exact ⟨sectorOf_eq (by omega), by omega, by omega, by omega⟩
  refine ⟨d₃, ?_, ?_, fun o ho ↦ ?_⟩
  · simp only [writeFile, Prog.run_bind, hwrite, hsup, hdata]
    rfl
  · have heff' : Effect su d d₁ i f (bit su d) fun t ↦ start ≤ t ∧ t < start + count :=
      ⟨heff.entry, heff.bits, fun t ht _ ↦ heff.data t ht not_false⟩
    refine heff'.after hg (fun t h0 ht ↦ ?_) fun t ht hw ↦ ?_
    · rw [← hsame t h0]
      refine hrest t fun o ho ho' he ↦ ?_
      obtain ⟨hu, -, hge, -⟩ := hvisit o (by omega)
      omega
    · rw [← hsame t (by omega)]
      refine hrest t fun o ho ho' he ↦ hw ?_
      obtain ⟨hu, -, -, hlt⟩ := hvisit o (by omega)
      omega
  · obtain ⟨hu, hlt, hge, -⟩ := hvisit o ho
    rw [hbytes le_rfl (by omega) o hlt, byteAt, byteAt, hu, hsame _ (by omega),
      heff.data _ hge not_false]

/-- **A write** fails where there is no room to move the file, and leaves the bits and the entries
as they were; or it sets the size, and the file is where there was room for it. -/
theorem run_write (h : Layout su d) {i : ℕ} (hi : i < maxDirents)
    (hf : (ent su d i).type = typeFile) (data : List UInt8) (off : ℕ)
    (hsize : size = max (off + data.length) (ent su d i).size) (hsmall : size + 511 < 2 ^ 32) :
    (nsectors (ent su d i).size < nsectors size ∧
      (∀ a, ¬ Fits su d (ent su d i) (nsectors size) a) ∧
      ∃ d', (write su i data off).run d = ((.error .enospc,
          { su with freeSectors := u32 (su.freeSectors + nsectors (ent su d i).size) }), d') ∧
        (∀ x, bit su d' x = bit su d x) ∧ ∀ t, t = 0 ∨ su.dirStart ≤ t → d' t = d t) ∨
    ∃ start f g d', (write su i data off).run d =
        ((.ok data.length, { su with freeSectors := f }), d') ∧
      Sized (ent su d i) (fun k ↦ g (ent su d i) (k % 64)) size start ∧
      (nsectors (ent su d i).size < nsectors size → Fits su d (ent su d i) (nsectors size) start ∧
        f = u32 (u32 (su.freeSectors + nsectors (ent su d i).size) + 2 ^ 32 - nsectors size)) ∧
      (¬ nsectors (ent su d i).size < nsectors size → nsectors size = nsectors (ent su d i).size ∧
        start = (ent su d i).startSector ∧ f = su.freeSectors) ∧
      Effect su d d' i g
        (fun x ↦ decide (start ≤ x ∧ x < start + nsectors size) || without su d (ent su d i) x)
        (fun t ↦ start ≤ t ∧ t < start + nsectors size) ∧
      ∀ o < size, (off ≤ o → o < off + data.length → byteAt d' start o = data.getD (o - off) 0) ∧
        (o < off ∨ off + data.length ≤ o → o < (ent su d i).size →
          byteAt d' start o = byteAt d (ent su d i).startSector o) := by
  have hread : (readDirent su i).run d = (some (ent su d i), d) := rfl
  have hdir : ¬ (ent su d i).type = typeDir := by rw [hf]; decide
  have hold := h.nsectors_eq hi hf
  have hnew : nsectors size = (size + 511) / 512 := by rw [nsectors, u32, Nat.mod_eq_of_lt hsmall]
  have hword := h.geom.word
  have hdata := h.geom.data
  simp only [write, Prog.run_bind, hread, if_neg hdir, ← hsize]
  by_cases hgrow : nsectors (ent su d i).size < nsectors size
  · obtain ⟨d₁, hfree, hmarks⟩ := run_bitmapFree h.geom (le32_lt _ 52)
      fun hne ↦ (h.extent_le hi hf hne).2
    simp only [if_pos hgrow, Prog.run_bind]
    set e := ent su d i with he
    -- The counts stay names, so that no unfolding meets their arithmetic.
    obtain ⟨f₁, hf₁⟩ : ∃ f₁, f₁ = u32 (su.freeSectors + nsectors e.size) := ⟨_, rfl⟩
    rw [← hf₁] at hfree ⊢
    have hfree' : (bitmapFree su e.startSector (nsectors e.size)).run d =
      ({ su with freeSectors := f₁ }, d₁) := hfree
    simp only [hfree']
    rcases run_bitmapAlloc (h.geom.setFree f₁) (nsectors size) (by omega) with
      ⟨start, d₂, halloc, hrun, hmarks₂, hfirst⟩ | ⟨halloc, hnone⟩
    · obtain ⟨hge, hle, hclear⟩ := hrun
      have hge' : su.dataStart ≤ start := hge
      have hle' : start + nsectors size ≤ su.totalSectors := hle
      obtain ⟨f₂, hf₂⟩ : ∃ f₂, f₂ = u32 (f₁ + 2 ^ 32 - nsectors size) := ⟨_, rfl⟩
      rw [← hf₂] at halloc
      obtain ⟨d₃, hcopy, hsame, hmoved⟩ :=
        run_copySectors (nsectors e.size) e.startSector start
      have hsame' : ∀ t, ¬ (start ≤ t ∧ t < start + nsectors size) → d₃ t = d₂ t := by
        refine fun t ht ↦ hsame t fun j hj hu ↦ ht ?_
        rw [u32] at hu
        omega
      obtain ⟨d₄, hfile, heff, hbytes⟩ := run_writeFile (h.geom.setFree f₂) hi
        (setSize size ∘ setStart start) true start _ data
        off (fun _ ↦ ⟨hge, hle⟩) (by omega)
      have hother : ∀ t, su.dirStart ≤ t → ¬ (start ≤ t ∧ t < start + nsectors size) →
          d₃ t = d t := fun t ht hw ↦
        (hsame' t hw).trans ((hmarks₂.2 t (.inr ht)).trans (hmarks.2 t (.inr ht)))
      have heff₃ : Effect su d₃ d₄ i (setSize size ∘ setStart start) (bit su d₃)
          fun t ↦ start ≤ t ∧ t < start + nsectors size := ⟨heff.entry, heff.bits, heff.data⟩
      have heff' := heff₃.before h.geom hi (fun t ht hlt ↦ hother t ht (by omega))
        fun t ht hw ↦ hother t (by omega) hw
      refine .inr ⟨start, f₂, _, d₄, ?_, sized_setStart e (by omega) (by omega),
        fun _ ↦ ⟨⟨hge, hle, fun x hx hx' ↦ ?_⟩, hf₂⟩, absurd hgrow, ⟨heff'.entry,
        fun x hx ↦ (heff'.bits x hx).trans ?_, heff'.data⟩, fun o ho ↦ ⟨fun h₁ h₂ ↦ ?_,
        fun hout hold' ↦ ?_⟩⟩
      · simp only [halloc, if_neg (show ¬ start = 0 by omega), Prog.run_bind, hcopy]
        rw [hfile]
        rfl
      · exact (hmarks.without x).symm.trans (hclear x hx hx')
      · have hsec := h.geom.bitmapSector_lt hx
        have hbit : bit su d₂ x = if start ≤ x ∧ x < start + nsectors size then true
            else without su d e x := (hmarks₂.1 x).trans (if_congr Iff.rfl rfl (hmarks.without x))
        rw [bit_congr (hsame' _ (by omega)), hbit]
        by_cases hin : start ≤ x ∧ x < start + nsectors size
        · rw [if_pos hin, decide_eq_true hin, Bool.true_or]
        · rw [if_neg hin, decide_eq_false hin, Bool.false_or]
      · rw [hbytes o (by omega), if_pos ⟨h₁, h₂⟩]
      · -- where the two runs overlap the new one starts first: it is the first that is long enough
        have hne : nsectors e.size ≠ 0 := by omega
        have hext : su.dataStart ≤ e.startSector ∧
          e.startSector + nsectors e.size ≤ su.totalSectors := h.extent_le hi hf hne
        have hapart : start ≤ e.startSector ∨ e.startSector + nsectors e.size ≤ start := by
          by_contra hin
          rcases hfirst with hfirst | hset
          · have : start = su.dataStart := hfirst
            omega
          · have hin' : e.startSector ≤ start - 1 ∧
              start - 1 < e.startSector + nsectors e.size := by omega
            exact absurd (hset.symm.trans ((hmarks.1 (start - 1)).trans (if_pos hin'))) nofun
        have hsec : e.startSector + o / 512 < 2 ^ 32 ∧ start + o / 512 < 2 ^ 32 := by omega
        have hdir' : su.dirStart ≤ e.startSector + o / 512 := by omega
        rw [hbytes o (by omega), if_neg (by omega), byteAt, byteAt, sectorOf_eq hsec.1,
          sectorOf_eq hsec.2, hmoved (by omega) (by omega) hapart _ (by omega),
          hmarks₂.2 _ (.inr hdir'), hmarks.2 _ (.inr hdir')]
    · have hnofit : ∀ a, ¬ Fits su d e (nsectors size) a := fun a ⟨hge, hle, hx⟩ ↦
        hnone a ⟨hge, hle, fun x h h' ↦ (hmarks.without x).trans (hx x h h')⟩
      have hspan : span e.startSector (nsectors e.size) = nsectors e.size := by
        refine span_eq ?_
        by_cases hzero : nsectors e.size = 0
        · rw [hzero]
          exact le32_lt e 52
        · exact (h.extent_le hi hf hzero).2.trans_lt hword
      obtain ⟨d₂, hmark, hmarks₂⟩ := run_bitmapMark (h.geom.setFree f₁) true
        (k := nsectors e.size) (s := e.startSector) fun hne ↦ (h.extent_le hi hf hne).2
      refine .inl ⟨hgrow, hnofit, d₂, ?_, fun x ↦ ?_, fun t ht ↦
        (hmarks₂.2 t ht).trans (hmarks.2 t ht)⟩
      · simp only [halloc, if_pos, Prog.run_bind, hspan, hmark]
        rfl
      · refine (hmarks₂.1 x).trans ?_
        split_ifs with hx
        · have hown : Owns su d i x := ⟨hi, hf, hx⟩
          exact ((h.marked x (h.range i x hown).2).mpr (.inr ⟨i, hown⟩)).symm
        · refine (hmarks.without x).trans ?_
          rw [without, decide_eq_false (show ¬ extent e x from hx)]
          rfl
  · have heq : nsectors size = nsectors (ent su d i).size := by omega
    have hstart : nsectors size ≠ 0 → su.dataStart ≤ (ent su d i).startSector ∧
        (ent su d i).startSector + nsectors size ≤ su.totalSectors := by
      rw [heq]
      exact h.extent_le hi hf
    obtain ⟨d', hfile, heff, hbytes⟩ := run_writeFile h.geom hi (setSize size)
      (decide (nsectors size ≠ nsectors (ent su d i).size)) _ _ data off hstart (by omega)
    refine .inr ⟨_, su.freeSectors, _, d', ?_, sized_setSize _ (by omega),
      fun hg ↦ absurd hg hgrow, fun _ ↦ ⟨heq, rfl, rfl⟩, ⟨heff.entry, fun x hx ↦ ?_, heff.data⟩,
      fun o ho ↦ ⟨fun h₁ h₂ ↦ ?_, fun hout _ ↦ ?_⟩⟩
    · simp only [if_neg hgrow, Prog.run_bind, hfile]
      rfl
    · rw [heff.bits x hx, without, heq]
      by_cases hin : extent (ent su d i) x
      · rw [decide_eq_true (show _ ∧ _ from hin)]
        exact (h.marked x hx).mpr (.inr ⟨i, hi, hf, hin⟩)
      · rw [decide_eq_false (show ¬ (_ ∧ _) from hin), decide_eq_false hin]
        rfl
    · rw [hbytes o (by omega), if_pos ⟨h₁, h₂⟩]
    · rw [hbytes o (by omega), if_neg (by omega)]

end Mazu.Fs.Sfs
