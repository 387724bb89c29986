import Mazu.Fs.Ramfs
import Mazu.Fs.SfsTidy

/-!
# File handles

A handle of the simple file system is the index of a directory entry, and a handle of the file
system in memory is a node. Both are handed out again once the file is removed. A handle is recorded
together with the creation that made its file, so that it can be said whether the file is still
there.
-/

namespace Mazu.Fs

open Function List Option

namespace Sfs

variable {su : Super} {d d' : ℕ → Sector} {i j : ℕ}

/-- The bytes of a file. -/
def contents (su : Super) (d : ℕ → Sector) (i : ℕ) : List UInt8 :=
  (List.range (ent su d i).size).map (byteAt d (ent su d i).startSector)

/-- A file's bytes are in its own sectors. -/
theorem Layout.owns_byte (h : Layout su d) (hi : i < maxDirents)
    (hf : (ent su d i).type = typeFile) {o : ℕ} (ho : o < (ent su d i).size) :
    u32 ((ent su d i).startSector + u32 (o / 512)) = (ent su d i).startSector + o / 512 ∧
      Owns su d i ((ent su d i).startSector + o / 512) := by
  have hn := h.nsectors_eq hi hf
  have hown : Owns su d i ((ent su d i).startSector + o / 512) :=
    ⟨hi, hf, Nat.le_add_right .., by omega⟩
  have hword := h.geom.word
  have hrange := (h.range _ _ hown).2
  refine ⟨?_, hown⟩
  rw [u32, u32, Nat.mod_eq_of_lt (by omega), Nat.mod_eq_of_lt (by omega)]

theorem contents_congr (h : Layout su d) (hi : i < maxDirents) (hf : (ent su d i).type = typeFile)
    (hent : ent su d' i = ent su d i) (hdata : ∀ s, Owns su d i s → d' s = d s) :
    contents su d' i = contents su d i := by
  rw [contents, hent]
  refine map_congr_left fun o ho ↦ ?_
  obtain ⟨hu, hown⟩ := h.owns_byte hi hf (mem_range.mp ho)
  rw [byteAt, byteAt, hu, hdata _ hown]

/-- **A read** returns bytes of its own file. -/
theorem run_read_file (hf : (ent su d i).type = typeFile) (cap off : ℕ) :
    ((read su i cap off).run d).1 = .ok (((contents su d i).drop off).take cap) := by
  have hdir : ¬ (ent su d i).type = typeDir := by rw [hf]; decide
  rw [run_read, if_neg hdir]
  refine congrArg Except.ok (ext_getElem ?_ fun k _ _ ↦ ?_)
  · simp only [contents, length_map, length_range, length_take, length_drop]
    omega
  · simp only [contents, getElem_map, getElem_range, getElem_take, getElem_drop]

/-- **A write** keeps the layout, and leaves the entries and the bytes of the other files. -/
theorem Layout.run_write (h : Layout su d) {data : List UInt8} {off : ℕ}
    (hk : Live ⟨su, d⟩ (.write i data off)) :
    Layout ((Sfs.write su i data off).run d).1.2 ((Sfs.write su i data off).run d).2 ∧
      ∀ j < maxDirents, j ≠ i → ent su ((Sfs.write su i data off).run d).2 j = ent su d j ∧
        ((ent su d j).type = typeFile →
          contents su ((Sfs.write su i data off).run d).2 j = contents su d j) := by
  obtain ⟨hi, hf, hsmall⟩ := hk
  rcases Sfs.run_write h hi hf data off rfl hsmall with
    ⟨-, -, d', hrun, hbits, hdir⟩ | ⟨start, f, g, d', hrun, hsized, hgrow, hstay, he, -⟩
  · rw [hrun]
    refine ⟨(h.congr hbits hdir).setFree _, fun j hj _ ↦ ?_⟩
    have hent : ent su d' j = ent su d j := ent_congr (hdir _ (.inr (h.geom.direntSector_lt hj).1))
    refine ⟨hent, fun hfj ↦ contents_congr h hj hfj hent fun s hs ↦ hdir s (.inr ?_)⟩
    have := (h.range j s hs).1
    have := h.geom.data
    omega
  · have hl := h.write hi hf hsmall hsized (fun hg ↦ (hgrow hg).1)
      (fun hg ↦ ⟨(hstay hg).1, (hstay hg).2.1⟩) he
    rw [hrun]
    refine ⟨hl.setFree f, fun j hj hne ↦ ?_⟩
    have hent : ent su d' j = ent su d j := (he.entry j hj).trans (if_neg hne)
    refine ⟨hent, fun hfj ↦ contents_congr h hj hfj hent fun s hs ↦
      he.data s (h.range j s hs).1 fun hw ↦ hne ?_⟩
    have hei := he.entry i hi
    rw [if_pos rfl] at hei
    have hown : Owns su d' i s := ⟨hi, by rw [hei, hsized.1, hf], by
      rw [hei, hsized.2.1, hsized.2.2]
      exact hw⟩
    have hown' : Owns su d' j s := ⟨hj, by rw [hent]; exact hs.2⟩
    exact hl.disjoint j i s hown' hown

/-- The file system with its open handles. -/
structure Desk where
  st : State
  made : ℕ → ℕ
  count : ℕ
  handles : ℕ → Option (ℕ × ℕ)

inductive Call
  | create (path : List UInt8)
  | mkdir (path : List UInt8)
  | unlink (path : List UInt8)
  | rmdir (path : List UInt8)
  | open (k : ℕ) (path : List UInt8)
  | write (k : ℕ) (data : List UInt8) (off : ℕ)
  | read (k cap off : ℕ)

/-- An entry that is taken gets a new number. -/
def Desk.after (t : Desk) (op : Op) : Option Desk :=
  (t.st.step op).map fun st ↦ { t with
    st := st
    made := fun j ↦ if (ent t.st.super t.st.disk j).type = typeFree ∧
      (ent st.super st.disk j).type ≠ typeFree then t.count else t.made j
    count := t.count + 1 }

def Desk.step (t : Desk) : Call → Option Desk
  | .create path => t.after (.create path)
  | .mkdir path => t.after (.mkdir path)
  | .unlink path => t.after (.unlink path)
  | .rmdir path => t.after (.rmdir path)
  | .open k path =>
    let i := ((lookup t.st.super path).run t.st.disk).1
    if i = maxDirents then some t
    else some { t with handles := update t.handles k (some (i, t.made i)) }
  | .write k data off => (t.handles k).bind fun h ↦
    (t.st.step (.write h.1 data off)).map fun st ↦ { t with st := st }
  | .read .. => some t

def Desk.boot (total : ℕ) (disk : ℕ → Sector) : Desk :=
  ⟨Sfs.boot total disk, fun _ ↦ 0, 1, fun _ ↦ none⟩

/-- The file that the handle was opened on is still there. -/
def Desk.Holds (t : Desk) (k i : ℕ) : Prop :=
  t.handles k = some (i, t.made i) ∧ i < maxDirents ∧ (ent t.st.super t.st.disk i).type = typeFile

/-- Writes go to a file that is still there, and sizes do not wrap. -/
def Desk.Kept (t : Desk) : Call → Prop
  | .write k data off => ∃ i, t.Holds k i ∧ Live t.st (.write i data off)
  | _ => True

theorem Desk.layout {total : ℕ} (hword : total + 4095 < 2 ^ 32)
    (hfits : (formatSuper total).dataStart ≤ total) {disk : ℕ → Sector} {t : Desk}
    (h : Runs.Run Desk.step Desk.Kept (Desk.boot total disk) t) : Layout t.st.super t.st.disk := by
  refine h.invariant (P := fun t ↦ Layout t.st.super t.st.disk)
    (tidy_boot hword hfits disk).toLayout ?_
  intro a c b ha hk hstep
  have hname : ∀ op, (∀ i data off, op ≠ .write i data off) → a.after op = some b →
      Layout b.st.super b.st.disk := by
    intro op hop hafter
    obtain ⟨st, hst, rfl⟩ := map_eq_some_iff.mp hafter
    exact ha.step hop hst
  cases c with
  | create path => exact hname (.create path) nofun hstep
  | mkdir path => exact hname (.mkdir path) nofun hstep
  | unlink path => exact hname (.unlink path) nofun hstep
  | rmdir path => exact hname (.rmdir path) nofun hstep
  | «open» k path =>
    rw [Desk.step] at hstep
    split_ifs at hstep <;> exact some.inj hstep ▸ ha
  | write k data off =>
    obtain ⟨i, hi, hlive⟩ := hk
    rw [Desk.step, hi.1, bind_some] at hstep
    obtain ⟨st, hst, rfl⟩ := map_eq_some_iff.mp hstep
    obtain rfl := some.inj hst
    simp only [Op.prog, Prog.run_bind, Prog.run_pure]
    exact (ha.run_write hlive).1
  | read k cap off => exact some.inj hstep ▸ ha

end Sfs

namespace Ramfs

/-- The file system in memory with its open handles. -/
structure Desk where
  fs : RamFs
  handles : ℕ → Option (ℕ × ℕ)

def Desk.step (t : Desk) : Sfs.Call → Option Desk
  | .create path => some { t with fs := (create t.fs path).2 }
  | .mkdir path => some { t with fs := (mkdir t.fs path).2 }
  | .unlink path => some { t with fs := (unlink t.fs path).2 }
  | .rmdir path => some { t with fs := (rmdir t.fs path).2 }
  | .open k path =>
    match openNode t.fs path with
    | .error _ => some t
    | .ok x => some { t with handles := update t.handles k (some (x, (t.fs.node x).made)) }
  | .write k data off => (t.handles k).map fun h ↦ { t with fs := (write t.fs h.1 data off).2 }
  | .read .. => some t

def Desk.boot (n : ℕ) (faults : List Bool) : Desk := ⟨new n faults, fun _ ↦ none⟩

/-- The node that the handle was opened on is in use and has not been made again. -/
def Desk.Holds (t : Desk) (k x : ℕ) : Prop :=
  t.handles k = some (x, (t.fs.node x).made) ∧ x ∉ t.fs.free

theorem write_node (r : RamFs) {x y : ℕ} (hy : y ≠ x) (data : List UInt8) (off : ℕ) :
    (write r x data off).2.node y = r.node y := by
  rw [write]
  split_ifs <;> first | rfl | exact update_of_ne hy ..

end Ramfs

end Mazu.Fs
