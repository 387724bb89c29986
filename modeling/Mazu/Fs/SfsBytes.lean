import Mazu.Fs.Handles

/-!
# A file as an array of bytes

A file of the simple file system is compared with an array of bytes to which the same writes are
made. A write that starts beyond the end of the array leaves zeros in between; the code leaves there
what the sectors held before.
-/

namespace Mazu.Fs.Sfs

variable {su : Super} {d : ℕ → Sector} {i : ℕ}

/-- The bytes from `off` on are replaced. -/
def splice (l data : List UInt8) (off : ℕ) : List UInt8 :=
  (List.range (max (off + data.length) l.length)).map fun o ↦
    if off ≤ o ∧ o < off + data.length then data.getD (o - off) 0 else l.getD o 0

theorem length_contents (su : Super) (d : ℕ → Sector) (i : ℕ) :
    (contents su d i).length = (ent su d i).size := by
  rw [contents, List.length_map, List.length_range]

theorem getD_contents {o : ℕ} (ho : o < (ent su d i).size) :
    (contents su d i).getD o 0 = byteAt d (ent su d i).startSector o := by
  rw [List.getD_eq_getElem _ _ (by rwa [length_contents])]
  simp only [contents, List.getElem_map, List.getElem_range]

/-- **A write that leaves no gap** replaces bytes of the file, wherever its sectors are moved. -/
theorem Layout.contents_write (h : Layout su d) {data : List UInt8} {off : ℕ}
    (hk : Live ⟨su, d⟩ (.write i data off)) (hoff : off ≤ (ent su d i).size)
    (hok : ((Sfs.write su i data off).run d).1.1.isOk = true) :
    (ent su ((Sfs.write su i data off).run d).2 i).type = typeFile ∧
      contents su ((Sfs.write su i data off).run d).2 i = splice (contents su d i) data off := by
  obtain ⟨hi, hf, hsmall⟩ := hk
  rcases Sfs.run_write h hi hf data off rfl hsmall with
    ⟨-, -, d', hrun, -⟩ | ⟨start, f, g, d', hrun, hsized, -, -, he, hbytes⟩
  · rw [hrun] at hok
    exact absurd hok nofun
  · have hent := he.entry i hi
    rw [if_pos rfl] at hent
    rw [hrun]
    refine ⟨(congrArg Entry.type hent).trans (hsized.1.trans hf), ?_⟩
    rw [contents, congrArg Entry.size hent, congrArg Entry.startSector hent, hsized.2.1,
      hsized.2.2, splice, length_contents]
    refine List.map_congr_left fun o ho ↦ ?_
    have hlt := List.mem_range.mp ho
    obtain ⟨hin, hout⟩ := hbytes o hlt
    split_ifs with hwritten
    · exact hin hwritten.1 hwritten.2
    · have hold : o < (ent su d i).size := by omega
      rw [hout (by omega) hold, getD_contents hold]

/-- A file system, and the bytes that one of its files should hold. -/
structure Track where
  st : State
  bytes : List UInt8

inductive Access
  | read (cap off : ℕ)
  | write (data : List UInt8) (off : ℕ)

/-- A successful access to the file `i`. -/
def Track.step (i : ℕ) (t : Track) : Access → Option Track
  | .read .. => some t
  | .write data off =>
    let r := (Sfs.write t.st.super i data off).run t.st.disk
    if r.1.1.isOk = true then some ⟨⟨r.1.2, r.2⟩, splice t.bytes data off⟩ else none

/-- A write starts at the end of the file or before it, and sizes do not wrap when they are rounded
up to sectors. -/
def Track.Joined (i : ℕ) (t : Track) : Access → Prop
  | .read .. => True
  | .write data off => off ≤ (ent t.st.super t.st.disk i).size ∧
      max (off + data.length) (ent t.st.super t.st.disk i).size + 511 < 2 ^ 32

instance (i : ℕ) (t : Track) (a : Access) : Decidable (t.Joined i a) := by
  cases a <;> unfold Track.Joined <;> infer_instance

/-- The file holds the bytes. -/
structure Track.Exact (i : ℕ) (t : Track) : Prop where
  layout : Layout t.st.super t.st.disk
  file : (ent t.st.super t.st.disk i).type = typeFile
  bytes_eq : contents t.st.super t.st.disk i = t.bytes

theorem Track.Exact.step {t t' : Track} {a : Access} (h : t.Exact i) (hi : i < maxDirents)
    (hk : t.Joined i a) (hstep : t.step i a = some t') : t'.Exact i := by
  cases a with
  | read cap off => exact Option.some.inj hstep ▸ h
  | write data off =>
    obtain ⟨hok, rfl⟩ := Runs.of_guard hstep
    have hlive : Live t.st (.write i data off) := ⟨hi, h.file, hk.2⟩
    obtain ⟨hf, hc⟩ := h.layout.contents_write hlive hk.1 hok
    -- only the count of free sectors of the superblock changes, and entries do not depend on it
    have hsup : ∀ d', ent ((Sfs.write t.st.super i data off).run t.st.disk).1.2 d' =
        ent t.st.super d' := by
      intro d'
      rcases Sfs.run_write h.layout hi h.file data off rfl hk.2 with
        ⟨-, -, e, hrun, -⟩ | ⟨start, f, g, e, hrun, -⟩ <;> rw [hrun] <;> rfl
    refine ⟨(h.layout.run_write hlive).1, by rw [hsup]; exact hf, ?_⟩
    show contents _ _ i = splice t.bytes data off
    rw [contents, hsup, ← h.bytes_eq]
    exact hc

/-- **A file is an array of bytes** as long as no write leaves a gap: after every sequence of
successful accesses to a live file a read returns what the array holds. -/
theorem file_is_array {total : ℕ} {disk : ℕ → Sector} {t : Desk} {k : ℕ}
    (hword : total + 4095 < 2 ^ 32) (hfits : (formatSuper total).dataStart ≤ total)
    (hrun : Runs.Run Desk.step Desk.Kept (Desk.boot total disk) t) (hk : t.Holds k i) {u : Track}
    (hu : Runs.Run (Track.step i) (Track.Joined i)
      ⟨t.st, contents t.st.super t.st.disk i⟩ u) (cap off : ℕ) :
    ((read u.st.super i cap off).run u.st.disk).1 = .ok ((u.bytes.drop off).take cap) := by
  have h : u.Exact i := hu.invariant ⟨Desk.layout hword hfits hrun, hk.2.2, rfl⟩
    fun _ _ _ ha hj hstep ↦ ha.step hk.2.1 hj hstep
  rw [run_read_file h.file, h.bytes_eq]

/-- A file is written, extended and written again in the middle. -/
theorem file_is_array_three : ∃ (t : Desk) (u : Track),
    Runs.Run Desk.step Desk.Kept (Desk.boot 36 fun _ _ ↦ 0) t ∧ t.Holds 0 1 ∧
      u.bytes = [1, 9, 3] ∧ ((read u.st.super 1 2 1).run u.st.disk).1 = .ok [9, 3] := by
  obtain ⟨t₁, h₁⟩ : ∃ t₁, (Desk.boot 36 fun _ _ ↦ 0).step (.create [47, 97]) = some t₁ := ⟨_, rfl⟩
  have hdec : ((Desk.boot 36 fun _ _ ↦ 0).step (.create [47, 97])).all (fun t₁ ↦
      (t₁.step (.open 0 [47, 97])).any fun t ↦ decide (t.handles 0 = some (1, t.made 1) ∧
        (ent t.st.super t.st.disk 1).type = typeFile ∧
        (Runs.play (Track.step 1) (Track.Joined 1) ⟨t.st, contents t.st.super t.st.disk 1⟩
          [.write [1, 2] 0, .write [3] 2, .write [9] 1]).any fun u ↦
            decide (u.bytes = [1, 9, 3]))) = true := by decide +kernel
  rw [h₁, Option.all_some, Option.any_eq_true_iff_get] at hdec
  obtain ⟨hsome, hdec⟩ := hdec
  obtain ⟨t, h₂⟩ := Option.isSome_iff_exists.mp hsome
  simp only [h₂, Option.get_some, decide_eq_true_eq] at hdec
  obtain ⟨hh, hf, hplay⟩ := hdec
  obtain ⟨u, hu, hbytes⟩ := Runs.exists_run_of_play _ hplay
  have hrun : Runs.Run Desk.step Desk.Kept (Desk.boot 36 fun _ _ ↦ 0) t :=
    .tail (.open 0 [47, 97]) (.tail (.create [47, 97]) .refl trivial h₁) trivial h₂
  have hk : t.Holds 0 1 := ⟨hh, by decide, hf⟩
  have hread := file_is_array (by decide) (by decide) hrun hk hu 2 1
  rw [of_decide_eq_true hbytes] at hread
  exact ⟨t, u, hrun, hk, of_decide_eq_true hbytes, hread⟩

/-- **A gap shows what the sectors held before.** `/a` holds a 7 and is unlinked; `/b` is created, and
the first write to it leaves out its first byte. That byte reads as 7. -/
theorem not_file_is_array : ∃ t, Runs.Run Desk.step (fun _ _ ↦ True)
    (Desk.boot 36 fun _ _ ↦ 0) t ∧ t.handles 1 = some (1, t.made 1) ∧
      (ent t.st.super t.st.disk 1).type = typeFile ∧
      (Runs.play (Track.step 1) (fun _ _ ↦ True) ⟨t.st, contents t.st.super t.st.disk 1⟩
        [.write [1] 1]).any (fun u ↦ u.bytes = [0, 1] ∧
          (((read u.st.super 1 2 0).run u.st.disk).1.toOption = some [7, 1])) = true :=
  Runs.exists_run _ _ _ [.create [47, 97], .open 0 [47, 97], .write 0 [7] 0, .unlink [47, 97],
    .create [47, 98], .open 1 [47, 98]] (by decide +kernel)

end Mazu.Fs.Sfs
