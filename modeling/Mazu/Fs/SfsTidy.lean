import Mazu.Fs.SfsSpace

/-!
# The bitmap, the extents and the count of free sectors

Every operation keeps the layout. The count of free sectors is kept as well, except where a file that
has sectors cannot be moved for want of space: the write gives up its sectors, counts them as free,
finds no room, marks them again and leaves the count as it is.
-/

namespace Mazu.Fs.Sfs

open Function

variable {su : Super} {d d' : ℕ → Sector} {i : ℕ}

/-! ## The layout is kept -/

namespace Layout

theorem owns_iff (hi : i < maxDirents) (hf : (ent su d i).type = typeFile) (s : ℕ) :
    Owns su d i s ↔ extent (ent su d i) s :=
  ⟨fun h ↦ h.2.2, fun h ↦ ⟨hi, hf, h⟩⟩

variable (h : Layout su d)

include h

theorem setFree (f : ℕ) : Layout { su with freeSectors := f } d :=
  ⟨h.geom.setFree f, h.root, h.types, h.small, h.range, h.disjoint, h.marked⟩

theorem ne_zero (hne : (ent su d i).type ≠ typeDir) : i ≠ 0 :=
  fun he ↦ hne (he ▸ h.root)

theorem root_of_ne {f : Entry → Entry} {b : ℕ → Bool} {W : ℕ → Prop} (he : Effect su d d' i f b W)
    (hi : i ≠ 0) : (ent su d' 0).type = typeDir := by
  rw [he.entry 0 (by decide), if_neg hi.symm, h.root]

theorem create {name : List UInt8} {type : UInt8} {parent : ℕ} (hi : i < maxDirents)
    (hfree : (ent su d i).type = typeFree) (htype : type = typeFile ∨ type = typeDir)
    (he : Effect su d d' i (fun _ ↦ newEntry name type parent) (bit su d) fun _ ↦ False) :
    Layout su d' := by
  have hent := he.entry i hi
  rw [if_pos rfl] at hent
  refine h.replace_empty (fun j hj hne ↦ (he.entry j hj).trans (if_neg hne))
    (h.root_of_ne he (h.ne_zero (by rw [hfree]; decide))) ?_ ?_ (fun _ ↦ ?_) he.bits
  · rw [hent]
    exact .inr htype
  · rintro s ⟨-, hf, -⟩
    rw [hfree] at hf
    exact absurd hf (by decide)
  · rw [hent]
    rfl

theorem rmdir (hi : i < maxDirents) (h0 : i ≠ 0) (hdir : (ent su d i).type = typeDir)
    (he : Effect su d d' i Sfs.setFree (bit su d) fun _ ↦ False) : Layout su d' := by
  have hent := he.entry i hi
  rw [if_pos rfl] at hent
  have htype : (ent su d' i).type = typeFree := by rw [hent]; rfl
  refine h.replace_empty (fun j hj hne ↦ (he.entry j hj).trans (if_neg hne))
    (h.root_of_ne he h0) (.inl htype) ?_ (fun hf ↦ ?_) he.bits
  · rintro s ⟨-, hf, -⟩
    rw [hdir] at hf
    exact absurd hf (by decide)
  · rw [htype] at hf
    exact absurd hf (by decide)

theorem unlink (hi : i < maxDirents) (hf : (ent su d i).type = typeFile)
    (he : Effect su d d' i Sfs.setFree (without su d (ent su d i)) fun _ ↦ False) :
    Layout su d' := by
  have hent := he.entry i hi
  rw [if_pos rfl] at hent
  have htype : (ent su d' i).type = typeFree := by rw [hent]; rfl
  have hnot : ¬ (ent su d' i).type = typeFile := by rw [htype]; decide
  refine h.replace (fun j hj hne ↦ (he.entry j hj).trans (if_neg hne))
    (h.root_of_ne he (h.ne_zero (by rw [hf]; decide))) (.inl htype) (fun hf ↦ absurd hf hnot)
    (fun s hs ↦ absurd hs.2.1 hnot) fun s hs ↦ ?_
  rw [he.bits s hs, owns_iff hi hf, or_iff_left fun h ↦ hnot h.2.1, without, Bool.and_eq_true,
    Bool.not_eq_true', decide_eq_false_iff_not, and_comm]

/-- The file is where there was room for it, or where it was. -/
theorem write {g : Entry → Entry} {size start : ℕ} {W : ℕ → Prop} (hi : i < maxDirents)
    (hf : (ent su d i).type = typeFile) (hsmall : size + 511 < 2 ^ 32)
    (hsized : Sized (ent su d i) (fun k ↦ g (ent su d i) (k % 64)) size start)
    (hgrow : nsectors (ent su d i).size < nsectors size → Fits su d (ent su d i) (nsectors size)
      start)
    (hstay : ¬ nsectors (ent su d i).size < nsectors size → nsectors size = nsectors (ent su d
      i).size ∧ start = (ent su d i).startSector)
    (he : Effect su d d' i g (fun x ↦ decide (start ≤ x ∧ x < start + nsectors size) || without su d
      (ent su d i) x) W) : Layout su d' := by
  have hent := he.entry i hi
  rw [if_pos rfl] at hent
  obtain ⟨htype, hsize, hstart⟩ := hsized
  rw [← hent] at htype hsize hstart
  have howns : ∀ s, Owns su d' i s ↔ start ≤ s ∧ s < start + nsectors size := by
    intro s
    rw [owns_iff hi (htype.trans hf), extent, hsize, hstart]
  refine h.replace (fun j hj hne ↦ (he.entry j hj).trans (if_neg hne))
    (h.root_of_ne he (h.ne_zero (by rw [hf]; decide))) (.inr (.inl (htype.trans hf)))
    (fun _ ↦ hsize ▸ hsmall) (fun s hs ↦ ?_) fun s hs ↦ ?_
  · have hs' := (howns s).mp hs
    by_cases hg : nsectors (ent su d i).size < nsectors size
    · obtain ⟨hge, hle, hclear⟩ := hgrow hg
      refine ⟨by omega, by omega, fun j hj hown ↦ ?_⟩
      have hset := (h.marked s (by omega)).mpr (.inr ⟨j, hown⟩)
      have hno := hclear s hs'.1 hs'.2
      rw [without, hset, Bool.and_true, Bool.not_eq_false', decide_eq_true_eq] at hno
      exact hj (h.disjoint j i s hown ⟨hi, hf, hno⟩)
    · have hown : Owns su d i s := ⟨hi, hf, by omega, by omega⟩
      exact ⟨(h.range i s hown).1, (h.range i s hown).2,
        fun j hj hj' ↦ hj (h.disjoint j i s hj' hown)⟩
  · rw [he.bits s hs, howns, owns_iff hi hf, Bool.or_eq_true, decide_eq_true_eq, without,
      Bool.and_eq_true, Bool.not_eq_true', decide_eq_false_iff_not, or_comm, and_comm]

/-- Only bits and entries count. -/
theorem congr (hbits : ∀ x, bit su d' x = bit su d x)
    (hdir : ∀ t, t = 0 ∨ su.dirStart ≤ t → d' t = d t) : Layout su d' := by
  have hent : ∀ j < maxDirents, ent su d' j = ent su d j :=
    fun j hj ↦ ent_congr (hdir _ (.inr (h.geom.direntSector_lt hj).1))
  have howns : ∀ j s, Owns su d' j s ↔ Owns su d j s := by
    refine fun j s ↦ and_congr_right fun hj ↦ ?_
    rw [hent j hj]
  refine ⟨h.geom, by rw [hent 0 (by decide), h.root], fun j hj ↦ ?_, fun j hj ↦ ?_,
    fun j s hs ↦ h.range j s ((howns j s).mp hs), fun j k s hs hs' ↦ ?_, fun s hs ↦ ?_⟩
  · rw [hent j hj]
    exact h.types j hj
  · rw [hent j hj]
    exact h.small j hj
  · exact h.disjoint j k s ((howns j s).mp hs) ((howns k s).mp hs')
  · rw [hbits, h.marked s hs]
    exact or_congr Iff.rfl (exists_congr fun j ↦ (howns j s).symm)

theorem run_createEntry {type : UInt8} (htype : type = typeFile ∨ type = typeDir)
    (path : List UInt8) : Layout su ((createEntry su type path).run d).2 ∧
      ∀ s < su.totalSectors, bit su ((createEntry su type path).run d).2 s = bit su d s := by
  obtain ⟨r, d', hrun, ⟨rfl, -⟩ | ⟨-, slot, hlt, hfree, parent, name, -, -, -, -, -, he⟩⟩ :=
    Sfs.run_createEntry h type path
  · rw [hrun]
    exact ⟨h, fun _ _ ↦ rfl⟩
  · rw [hrun]
    exact ⟨h.create hlt hfree htype he, he.bits⟩

theorem run_rmdir (path : List UInt8) : Layout su ((Sfs.rmdir su path).run d).2 ∧
      ∀ s < su.totalSectors, bit su ((Sfs.rmdir su path).run d).2 s = bit su d s := by
  obtain ⟨r, d', hrun, ⟨rfl, -⟩ | ⟨-, i, hlt, h0, hdir, -, -, he⟩⟩ := Sfs.run_rmdir h path
  · rw [hrun]
    exact ⟨h, fun _ _ ↦ rfl⟩
  · rw [hrun]
    exact ⟨h.rmdir hlt h0 hdir he, he.bits⟩

theorem run_unlink (path : List UInt8) :
    Layout ((Sfs.unlink su path).run d).1.2 ((Sfs.unlink su path).run d).2 := by
  obtain ⟨r, f, d', hrun, ⟨rfl, rfl, -⟩ | ⟨-, i, hlt, hf, -, -, he⟩⟩ := Sfs.run_unlink h path
  · rw [hrun]
    exact h
  · rw [hrun]
    exact (h.unlink hlt hf he).setFree f

end Layout

/-! ## Runs -/

/-- A mounted file system over a plain array of sectors. -/
structure State where
  super : Super
  disk : ℕ → Sector

def State.step (st : State) (op : Op) : Option State :=
  some ⟨((op.prog st.super).run st.disk).1, ((op.prog st.super).run st.disk).2⟩

theorem Layout.step {st st' : State} {op : Op} (h : Layout st.super st.disk)
    (hop : ∀ i data off, op ≠ .write i data off) (hstep : st.step op = some st') :
    Layout st'.super st'.disk := by
  obtain rfl := Option.some.inj hstep
  cases op with
  | create path =>
    simp only [Op.prog, Prog.run_bind]
    exact (h.run_createEntry (.inl rfl) path).1
  | mkdir path =>
    simp only [Op.prog, Prog.run_bind]
    exact (h.run_createEntry (.inr rfl) path).1
  | unlink path =>
    simp only [Op.prog, Prog.run_bind]
    exact h.run_unlink path
  | rmdir path =>
    simp only [Op.prog, Prog.run_bind]
    exact (h.run_rmdir path).1
  | write i data off => exact absurd rfl (hop i data off)
  | read i cap off =>
    simp only [Op.prog, Prog.run_bind, run_read]
    exact h

/-- A handle is used while its file is there, and sizes round up to sectors without a wrap. -/
def Live (st : State) : Op → Prop
  | .write i data off => i < maxDirents ∧ (ent st.super st.disk i).type = typeFile ∧
      max (off + data.length) (ent st.super st.disk i).size + 511 < 2 ^ 32
  | _ => True

instance (st : State) (op : Op) : Decidable (Live st op) := by
  cases op <;> unfold Live <;> infer_instance

/-- A file that has sectors and needs more finds room, its own sectors given up. -/
def FindsRoom (st : State) : Op → Prop
  | .write i data off => 0 < nsectors (ent st.super st.disk i).size →
      nsectors (ent st.super st.disk i).size <
        nsectors (max (off + data.length) (ent st.super st.disk i).size) →
      ∃ a, Fits st.super st.disk (ent st.super st.disk i)
        (nsectors (max (off + data.length) (ent st.super st.disk i).size)) a
  | _ => True

def Spaced (st : State) (op : Op) : Prop := Live st op ∧ FindsRoom st op

namespace Tidy

theorem card_le (su : Super) (b : ℕ → Bool) : (clearBits su.totalSectors b).card ≤ su.totalSectors :=
  (Finset.card_filter_le ..).trans (Finset.card_range _).le

/-- A file gives up its sectors. -/
theorem card_without (h : Layout su d) (hi : i < maxDirents) (hf : (ent su d i).type = typeFile) :
    (clearBits su.totalSectors (without su d (ent su d i))).card =
      (clear su d).card + nsectors (ent su d i).size := by
  refine card_clearBits (fun hne ↦ (h.extent_le hi hf hne).2) _ _ (fun s hs ↦ ?_) fun x hx hx' ↦ ?_
  · rw [without]
    by_cases hin : extent (ent su d i) s
    · rw [if_pos (show _ ∧ _ from hin), decide_eq_true hin]
      rfl
    · rw [if_neg (show ¬ (_ ∧ _) from hin), decide_eq_false hin]
      rfl
  · have hown : Owns su d i x := ⟨hi, hf, hx, hx'⟩
    exact (h.marked x (h.range i x hown).2).mpr (.inr ⟨i, hown⟩)

theorem same_bits (h : Tidy su d)
    (hl : Layout su d' ∧ ∀ s < su.totalSectors, bit su d' s = bit su d s) : Tidy su d' :=
  ⟨hl.1, h.free.trans (by rw [clear, clear, clearBits_congr hl.2])⟩

theorem unlink (h : Tidy su d) (path : List UInt8) :
    Tidy ((unlink su path).run d).1.2 ((unlink su path).run d).2 := by
  obtain ⟨r, f, d', hrun, ⟨rfl, rfl, -⟩ | ⟨-, i, hlt, hf, -, hcount, he⟩⟩ :=
    run_unlink h.toLayout path
  · rw [hrun]
    exact h
  · have hcard := card_without h.toLayout hlt hf
    have hle := card_le su (without su d (ent su d i))
    have hword := h.geom.word
    have hfree := h.free
    rw [hrun]
    refine ⟨(h.toLayout.unlink hlt hf he).setFree f, (hcount (by omega)).trans ?_⟩
    show _ = (clearBits su.totalSectors (bit su d')).card
    rw [clearBits_congr he.bits, hcard, hfree]

theorem write (h : Tidy su d) {data : List UInt8} {off : ℕ} (hk : Spaced ⟨su, d⟩ (.write i data off)) :
    Tidy ((write su i data off).run d).1.2 ((write su i data off).run d).2 := by
  obtain ⟨⟨hi, hf, hsmall⟩, hfits⟩ := hk
  obtain ⟨size, hsize⟩ : ∃ size, size = max (off + data.length) (ent su d i).size := ⟨_, rfl⟩
  rw [← hsize] at hsmall
  simp only [FindsRoom, ← hsize] at hfits
  have hfree := h.free
  have hcard := card_without h.toLayout hi hf
  have hle := card_le su (without su d (ent su d i))
  have hword := h.geom.word
  rcases run_write h.toLayout hi hf data off hsize hsmall with
    ⟨hgrow, hno, d', hrun, hbits, hdir⟩ | ⟨start, f, g, d', hrun, hsized, hgrow, hstay, he, -⟩
  · -- Without room the file was empty, and nothing was given up.
    have hzero : nsectors (ent su d i).size = 0 := by
      by_contra hne
      obtain ⟨a, ha⟩ := hfits (Nat.pos_of_ne_zero hne) hgrow
      exact hno a ha
    rw [hrun, hzero, Nat.add_zero, u32, Nat.mod_eq_of_lt (by omega)]
    exact h.same_bits ⟨h.toLayout.congr hbits hdir, fun s _ ↦ hbits s⟩
  · have hl := h.toLayout.write hi hf hsmall hsized (fun hg ↦ (hgrow hg).1)
      (fun hg ↦ ⟨(hstay hg).1, (hstay hg).2.1⟩) he
    have hrange : nsectors size ≠ 0 → start + nsectors size ≤ su.totalSectors := by
      intro hne
      by_cases hg : nsectors (ent su d i).size < nsectors size
      · exact (hgrow hg).1.2.1
      · rw [(hstay hg).1] at hne ⊢
        rw [(hstay hg).2.1]
        exact (h.extent_le hi hf hne).2
    have hclear : ∀ x, start ≤ x → x < start + nsectors size →
        without su d (ent su d i) x = false := by
      intro x hx hx'
      by_cases hg : nsectors (ent su d i).size < nsectors size
      · exact (hgrow hg).1.2.2 x hx hx'
      · rw [without, decide_eq_true ⟨(hstay hg).2.1 ▸ hx, by
          rw [← (hstay hg).2.1, ← (hstay hg).1]
          exact hx'⟩]
        rfl
    have hnew := card_clearBits hrange
      (fun x ↦ decide (start ≤ x ∧ x < start + nsectors size) || without su d (ent su d i) x)
      (without su d (ent su d i)) (fun x _ ↦ ?_) fun x hx hx' ↦ ?_
    · rw [hrun]
      refine ⟨hl.setFree f, ?_⟩
      show f = (clearBits su.totalSectors (bit su d')).card
      rw [clearBits_congr he.bits]
      by_cases hg : nsectors (ent su d i).size < nsectors size
      · rw [(hgrow hg).2, u32, u32]
        omega
      · have := hstay hg
        omega
    · by_cases hin : start ≤ x ∧ x < start + nsectors size
      · rw [if_pos hin, hclear x hin.1 hin.2]
      · rw [if_neg hin, decide_eq_false hin, Bool.false_or]
    · rw [decide_eq_true ⟨hx, hx'⟩, Bool.true_or]

theorem step {st st' : State} {op : Op} (h : Tidy st.super st.disk) (hk : Spaced st op)
    (hstep : st.step op = some st') : Tidy st'.super st'.disk := by
  obtain rfl := Option.some.inj hstep
  cases op with
  | create path =>
    simp only [Op.prog, Prog.run_bind]
    exact h.same_bits (h.toLayout.run_createEntry (.inl rfl) path)
  | mkdir path =>
    simp only [Op.prog, Prog.run_bind]
    exact h.same_bits (h.toLayout.run_createEntry (.inr rfl) path)
  | unlink path =>
    simp only [Op.prog, Prog.run_bind]
    exact h.unlink path
  | rmdir path =>
    simp only [Op.prog, Prog.run_bind]
    exact h.same_bits (h.toLayout.run_rmdir path)
  | write i data off =>
    simp only [Op.prog, Prog.run_bind]
    exact h.write hk
  | read i cap off =>
    simp only [Op.prog, Prog.run_bind, run_read]
    exact h

end Tidy

/-! ## A formatted file system -/

/-- A device is formatted and mounted. -/
def boot (total : ℕ) (disk : ℕ → Sector) : State :=
  ⟨.ofSector (((format total).run disk).2 0), ((format total).run disk).2⟩

theorem run_zeroSectors (k s : ℕ) : ∃ d', (zeroSectors k s).run d = (true, d') ∧
    ∀ t, d' t = if s ≤ t ∧ t < s + k then fun _ ↦ 0 else d t := by
  induction k generalizing s d with
  | zero => exact ⟨d, rfl, fun t ↦ (if_neg (by omega)).symm⟩
  | succ k ih =>
    obtain ⟨d', hrun, hz⟩ := ih (s := s + 1)
    refine ⟨d', hrun, fun t ↦ ?_⟩
    rw [hz, update_apply]
    by_cases ht : t = s
    · rw [if_neg (by omega), if_pos ht, if_pos (by omega)]
    · rw [if_neg ht]
      exact if_congr (by omega) rfl rfl

theorem geometry_format {total : ℕ} (hword : total + 4095 < 2 ^ 32)
    (hfits : (formatSuper total).dataStart ≤ total) : Geometry (formatSuper total) := by
  have hu : u32 (total + 4095) = total + 4095 := Nat.mod_eq_of_lt hword
  refine ⟨rfl, rfl, rfl, rfl, ?_, hfits, ?_⟩
  · show total ≤ 4096 * (u32 (total + 4095) / 4096)
    omega
  · show total < 2 ^ 32
    omega

/-- A format leaves the reserved sectors marked, the root, and free entries. -/
theorem run_format {total : ℕ} (hg : Geometry (formatSuper total)) (disk : ℕ → Sector) :
    ∃ d', (format total).run disk = (.ok (), d') ∧ d' 0 = (formatSuper total).toSector ∧
      (∀ s < total, bit (formatSuper total) d' s = decide (s < (formatSuper total).dataStart)) ∧
      ent (formatSuper total) d' 0 = (fun b ↦ newEntry [47] typeDir 0xFFFF (b % 64)) ∧
      ∀ i < maxDirents, i ≠ 0 → (ent (formatSuper total) d' i).type = typeFree := by
  set su := formatSuper total with hsu
  have hsuper : (writeSuper su).run disk = (.ok (), update disk 0 su.toSector) := rfl
  obtain ⟨d₁, hz₁, h₁⟩ := run_zeroSectors (d := update disk 0 su.toSector)
    su.bitmapSectors su.bitmapStart
  obtain ⟨d₂, hm, hbit, hsame⟩ := run_bitmapMark (d := d₁) hg true (s := 0)
    fun _ ↦ (Nat.zero_add _).trans_le hg.fits
  obtain ⟨d₃, hz₃, h₃⟩ := run_zeroSectors (d := d₂) su.dirSectors su.dirStart
  obtain ⟨d₄, hw, he⟩ := Effect.writeDirent (d := d₃) hg (i := 0) (by decide)
    fun _ ↦ newEntry [47] typeDir 0xFFFF
  have hbm := hg.bitmap
  have hdir := hg.dir
  have hdirs : su.dirSectors = 32 := rfl
  have hdata := hg.data
  refine ⟨d₄, ?_, ?_, fun s hs ↦ ?_, ?_, fun i hi h0 ↦ ?_⟩
  · have hread : (readDirent su 0).run d₃ = (some (ent su d₃ 0), d₃) := rfl
    simp only [format, ← hsu, Prog.run_bind, hsuper, hz₁, hm, hz₃, hread, hw, if_true]
    rfl
  · have hd₄ : update d₃ (su.direntSector 0) _ = d₄ := (Prod.mk.inj hw).2
    have hsec := (hg.direntSector_lt (i := 0) (by decide)).1
    rw [← hd₄, update_of_ne (by omega), h₃, if_neg (by omega), hsame 0 (.inl rfl), h₁,
      if_neg (by omega), update_self]
  · have hsec := hg.bitmapSector_lt hs
    rw [he.bits s hs, bit_congr (by rw [h₃, if_neg (by omega)]), hbit]
    by_cases hlt : s < su.dataStart
    · rw [if_pos (by omega), decide_eq_true hlt]
    · rw [if_neg (by omega), decide_eq_false hlt, bit, h₁, if_pos (by omega)]
      exact Nat.zero_testBit _
  · rw [he.entry 0 (by decide), if_pos rfl]
  · have hsec := hg.direntSector_lt hi
    rw [he.entry i hi, if_neg h0, ent, h₃, if_pos (by omega)]
    rfl

theorem le32_toSector (su : Super) {k : ℕ} (hk : k < 10) :
    le32 su.toSector (4 * k) = su.words.getD k 0 % 2 ^ 32 := by
  have hb : ∀ j < 4, su.toSector (4 * k + j) = UInt8.ofNat (su.words.getD k 0 / 256 ^ j) := by
    intro j hj
    rw [Super.toSector, if_pos (by omega), show (4 * k + j) / 4 = k by omega,
      show (4 * k + j) % 4 = j by omega]
  have h0 := hb 0 (by omega)
  rw [Nat.add_zero] at h0
  rw [le32, h0, hb 1 (by omega), hb 2 (by omega), hb 3 (by omega)]
  simp only [UInt8.toNat_ofNat']
  omega

/-- A mount reads the superblock that was written. -/
theorem ofSector_toSector {su : Super} (h : ∀ w ∈ su.words, w < 2 ^ 32) :
    Super.ofSector su.toSector = { su with reserved := su.toSector } := by
  have hword : ∀ k < 10, le32 su.toSector (4 * k) = su.words.getD k 0 := by
    intro k hk
    have hlen : k < su.words.length := hk
    rw [le32_toSector su hk, List.getD_eq_getElem _ _ hlen,
      Nat.mod_eq_of_lt (h _ (List.getElem_mem hlen))]
  rw [Super.mk.injEq]
  exact ⟨hword 0 (by decide), hword 1 (by decide), hword 2 (by decide), hword 3 (by decide),
    hword 4 (by decide), hword 5 (by decide), hword 6 (by decide), hword 7 (by decide),
    hword 8 (by decide), hword 9 (by decide), rfl⟩

theorem boot_eq {total : ℕ} (hg : Geometry (formatSuper total)) (disk : ℕ → Sector) :
    ∃ d', boot total disk = ⟨{ formatSuper total with reserved := (formatSuper total).toSector },
        d'⟩ ∧
      (∀ s < total, bit (formatSuper total) d' s = decide (s < (formatSuper total).dataStart)) ∧
      ent (formatSuper total) d' 0 = (fun b ↦ newEntry [47] typeDir 0xFFFF (b % 64)) ∧
      ∀ i < maxDirents, i ≠ 0 → (ent (formatSuper total) d' i).type = typeFree := by
  obtain ⟨d', hrun, hzero, hrest⟩ := run_format hg disk
  have hwords : ∀ w ∈ (formatSuper total).words, w < 2 ^ 32 := by
    have hdata := hg.data
    have hdir := hg.dir
    have hfits := hg.fits
    have hword := hg.word
    have hfree : (formatSuper total).freeSectors < 2 ^ 32 := Nat.mod_lt _ (by decide)
    have htotal : (formatSuper total).totalSectors = total := rfl
    simp only [Super.words, List.mem_cons, List.not_mem_nil, or_false]
    rintro w (rfl | rfl | rfl | rfl | rfl | rfl | rfl | rfl | rfl | rfl)
    · exact (by decide : 0x5346534D < 2 ^ 32)
    · exact (by decide : 1 < 2 ^ 32)
    · omega
    · exact (by decide : 1 < 2 ^ 32)
    · omega
    · omega
    · exact (by decide : 32 < 2 ^ 32)
    · omega
    · exact (by decide : 256 < 2 ^ 32)
    · exact hfree
  refine ⟨d', ?_, hrest⟩
  rw [boot, hrun]
  dsimp only
  rw [hzero, ofSector_toSector hwords]

theorem tidy_boot {total : ℕ} (hword : total + 4095 < 2 ^ 32)
    (hfits : (formatSuper total).dataStart ≤ total) (disk : ℕ → Sector) :
    Tidy (boot total disk).super (boot total disk).disk := by
  have hg := geometry_format hword hfits
  obtain ⟨d', hboot, hbits, hent, hents⟩ := boot_eq hg disk
  have hroot : (ent (formatSuper total) d' 0).type = typeDir := by rw [hent]; rfl
  have hnone : ∀ i s, ¬ Owns (formatSuper total) d' i s := by
    rintro i s ⟨hi, hf, -⟩
    by_cases h0 : i = 0
    · rw [h0, hroot] at hf
      exact absurd hf (by decide)
    · rw [hents i hi h0] at hf
      exact absurd hf (by decide)
  have htidy : Tidy (formatSuper total) d' := by
    refine ⟨⟨hg, hroot, fun i hi ↦ ?_, fun i hi hf ↦ ?_, fun i s h ↦ absurd h (hnone i s),
      fun i j s h ↦ absurd h (hnone i s), fun s hs ↦ ?_⟩, ?_⟩
    · by_cases h0 : i = 0
      · exact .inr (.inr (h0 ▸ hroot))
      · exact .inl (hents i hi h0)
    · by_cases h0 : i = 0
      · rw [h0, hroot] at hf
        exact absurd hf (by decide)
      · rw [hents i hi h0] at hf
        exact absurd hf (by decide)
    · rw [hbits s hs, decide_eq_true_eq]
      exact (or_iff_left fun ⟨i, hi⟩ ↦ hnone i s hi).symm
    · have hclear : clear (formatSuper total) d' =
          Finset.Ico (formatSuper total).dataStart total := by
        ext s
        rw [clear, clearBits, Finset.mem_filter, Finset.mem_range, Finset.mem_Ico]
        constructor
        · rintro ⟨hs, hb⟩
          rw [hbits s hs, decide_eq_false_iff_not] at hb
          exact ⟨Nat.le_of_not_lt hb, hs⟩
        · rintro ⟨hge, hs⟩
          exact ⟨hs, by rw [hbits s hs, decide_eq_false_iff_not]; omega⟩
      have hfree : (formatSuper total).freeSectors =
        (total + 2 ^ 32 - (formatSuper total).dataStart) % 2 ^ 32 := rfl
      rw [hclear, Nat.card_Ico, hfree]
      omega
  rw [hboot]
  exact ⟨⟨⟨hg.bitmap, hg.dir, hg.data, hg.dirents, hg.covers, hg.fits, hg.word⟩, htidy.root,
    htidy.types, htidy.small, htidy.range, htidy.disjoint, htidy.marked⟩, htidy.free⟩

/-- **The bitmap and the count of free sectors are right.** A formatted file system is tidy after
every sequence of operations in which handles are used while their file is there, sizes do not wrap,
and no file with sectors fails to find room to grow. -/
theorem sfs_tidy {total : ℕ} (hword : total + 4095 < 2 ^ 32)
    (hfits : (formatSuper total).dataStart ≤ total) {disk : ℕ → Sector} {st : State}
    (h : Runs.Run State.step Spaced (boot total disk) st) : Tidy st.super st.disk :=
  h.invariant (P := fun st ↦ Tidy st.super st.disk) (tidy_boot hword hfits disk)
    fun _ _ _ h hk hstep ↦ h.step hk hstep

/-- A file is created on a device with two sectors for data, and one byte written to it. -/
theorem sfs_tidy_write : ∃ st, Runs.Run State.step Spaced (boot 36 fun _ _ ↦ 0) st ∧
    (ent st.super st.disk 1).size = 1 ∧ st.super.freeSectors = 1 ∧ Tidy st.super st.disk := by
  obtain ⟨st, hst⟩ : ∃ st, (boot 36 fun _ _ ↦ 0).step (.create [97]) = some st := ⟨_, rfl⟩
  obtain ⟨st', hst'⟩ : ∃ st', st.step (.write 1 [7] 0) = some st' := ⟨_, rfl⟩
  have hfile : ((boot 36 fun _ _ ↦ 0).step (.create [97])).all (fun st ↦
      decide ((ent st.super st.disk 1).type = typeFile ∧ (ent st.super st.disk 1).size = 0) &&
      (st.step (.write 1 [7] 0)).all fun st' ↦
        decide ((ent st'.super st'.disk 1).size = 1 ∧ st'.super.freeSectors = 1)) = true := by
    decide +kernel
  rw [hst, Option.all_some, hst', Option.all_some, Bool.and_eq_true, decide_eq_true_eq,
    decide_eq_true_eq] at hfile
  obtain ⟨⟨htype, hsize⟩, hsize', hfree⟩ := hfile
  have hrun : Runs.Run State.step Spaced (boot 36 fun _ _ ↦ 0) st' := by
    refine .tail (.write 1 [7] 0) (.tail (.create [97]) .refl ⟨trivial, trivial⟩ hst)
      ⟨⟨by decide, htype, ?_⟩, fun hpos ↦ ?_⟩ hst'
    · rw [hsize]
      decide
    · rw [hsize] at hpos
      exact absurd hpos (by decide)
  exact ⟨st', hrun, hsize', hfree, sfs_tidy (by decide) (by decide) hrun⟩

/-- **Sectors that are given up and taken back stay counted.** With two sectors for data, a file of
one sector cannot grow to three; afterwards the count is two and one bit is clear. -/
theorem not_sfs_tidy : ∃ st, Runs.Run State.step Live (boot 36 fun _ _ ↦ 0) st ∧
    st.super.freeSectors = 2 ∧ clear st.super st.disk = {35} :=
  Runs.exists_run _ _ _ [.create [97], .write 1 [7] 0, .write 1 [7] 1500] (by decide +kernel)

end Mazu.Fs.Sfs
