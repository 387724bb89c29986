import Mazu.Fs.SfsSpace

/-!
# What reaches the device

The simple file system over the buffer cache: any number of buffers, and a device whose accesses
fail as a list of faults says.
-/

namespace Mazu.Fs.Sfs

open List Option

structure Mounted (n : ℕ) where
  super : Super
  cache : Bcache Sector n

variable {n : ℕ}

def Mounted.step (st : Mounted n) (op : Op) : Option (Mounted n) :=
  some ⟨((op.prog st.super).exec st.cache).1, ((op.prog st.super).exec st.cache).2⟩

/-- A device is mounted through an empty cache. -/
def mountOn (n : ℕ) (disk : ℕ → Sector) (faults : List Bool) : Option (Mounted n) :=
  let r := mount.exec (Bcache.init n (fun _ ↦ 0) disk faults)
  r.1.toOption.map (⟨·, r.2⟩)

/-! ## Data before metadata -/

/-- No miss of the operation takes dirty metadata from the cache while data that became dirty before
it is still dirty. -/
def Orderly (st : Mounted n) (op : Op) : Prop :=
  (op.prog st.super).Along Bcache.Orderly st.cache

theorem ordered_mountOn {disk : ℕ → Sector} {faults : List Bool} {st : Mounted n}
    (h : mountOn n disk faults = some st) : st.cache.Ordered := by
  obtain ⟨su, -, rfl⟩ := map_eq_some_iff.mp h
  refine (Prog.ordered_exec mount).mpr ⟨nofun, fun _ v _ hd ↦ absurd hd Bool.false_ne_true, ?_⟩
  cases (Bcache.init n (fun _ ↦ 0) disk faults).read 0 with
  | mk r c =>
    cases r with
    | none => trivial
    | some i => exact ⟨trivial, trivial⟩

/-- Forty sectors, of which the file of entry 1 has one. -/
def oneFile : ℕ → Sector
  | 0 => (formatSuper 40).toSector
  | 1 => fun b ↦ if b < 4 then 255 else if b = 4 then 7 else 0
  | 2 => setEntry 0 (fun _ ↦ newEntry [47] typeDir 0xFFFF)
      (setEntry 1 (fun _ ↦ setSize 1 (setStart 34 (newEntry [97] typeFile 0))) fun _ ↦ 0)
  | _ => fun _ ↦ 0

instance (c : Bcache Sector n) : Decidable c.Ordered :=
  inferInstanceAs (Decidable (∀ w ∈ c.log, w.overtakes = false))

/-- The device after some writes. -/
def crash (disk : ℕ → Sector) (ws : List (Written Sector)) : ℕ → Sector :=
  ws.foldl (fun d w ↦ Function.update d w.sector w.data) disk

variable (su : Super) (d : ℕ → Sector)

/-- A mount of the image and a check of the mounted file system succeed. -/
def recovers : Bool :=
  (mount.run d).1.toOption.any fun su ↦ ((fsck su).run d).1.toOption.isSome

/-- A superblock that a mount accepts and that lays the regions out in the same way. -/
def SameLayout (su' : Super) : Prop :=
  su'.magic = 0x5346534D ∧ su'.version = 1 ∧ su'.bitmapStart = su.bitmapStart ∧
    su'.dirStart = su.dirStart ∧ su'.nDirents = su.nDirents

/-- The sectors of a file are in range, and the bitmap marks them. -/
def FileMarked (bits : ℕ → Bool) (e : Entry) : Prop :=
  e.type = typeFile → 0 < e.size → e.startSector + nsectors e.size ≤ su.totalSectors ∧
    ∀ k < nsectors e.size, bits (e.startSector + k) = true

instance (su : Super) (bits : ℕ → Bool) (e : Entry) : Decidable (FileMarked su bits e) := by
  unfold FileMarked
  infer_instance

/-- A consistent image. -/
structure Sound (su : Super) (d : ℕ → Sector) : Prop where
  layout : SameLayout su (.ofSector (d 0))
  files : ∀ i < maxDirents, FileMarked su (bit su d) (ent su d i)

/-- **The rule for a write.** The superblock keeps its layout; a directory sector lists files whose
sectors the device marks; a bitmap sector marks the sectors of the files that the device lists. -/
def Keeps (w : Written Sector) : Prop :=
  (w.sector = 0 → SameLayout su (.ofSector w.data)) ∧
  (∀ i < maxDirents, su.direntSector i = w.sector → FileMarked su (bit su d) (entryOf w.data i)) ∧
  ∀ i < maxDirents, FileMarked su
    (fun s ↦ su.bitmapSector s ≠ w.sector ∨ getBit (w.data (bitmapByte s)) (s % 8)) (ent su d i)

def KeepsAll (su : Super) : (ℕ → Sector) → List (Written Sector) → Prop
  | _, [] => True
  | d, w :: ws => Keeps su d w ∧ KeepsAll su (Function.update d w.sector w.data) ws

instance (su su' : Super) : Decidable (SameLayout su su') := by
  unfold SameLayout
  infer_instance

instance (su : Super) (d : ℕ → Sector) (w : Written Sector) : Decidable (Keeps su d w) := by
  unfold Keeps
  infer_instance

instance decidableKeepsAll (su : Super) : ∀ (d : ℕ → Sector) (ws : List (Written Sector)),
    Decidable (KeepsAll su d ws)
  | _, [] => .isTrue trivial
  | d, w :: ws =>
    @instDecidableAnd _ _ _ (decidableKeepsAll su (Function.update d w.sector w.data) ws)

theorem Sound.update {su : Super} {d : ℕ → Sector} (hg : Geometry su) (h : Sound su d)
    {w : Written Sector} (hk : Keeps su d w) :
    Sound su (Function.update d w.sector w.data) := by
  obtain ⟨hsuper, hdir, hbits⟩ := hk
  refine ⟨?_, fun i hi hf hsize ↦ ?_⟩
  · by_cases h0 : w.sector = 0
    · rw [h0, Function.update_self]
      exact hsuper h0
    · rw [Function.update_of_ne (Ne.symm h0)]
      exact h.layout
  · have hsec := hg.direntSector_lt hi
    by_cases hi' : su.direntSector i = w.sector
    · have hent : ent su (Function.update d w.sector w.data) i = entryOf w.data i := by
        rw [ent, hi', Function.update_self]
      rw [hent] at hf hsize ⊢
      obtain ⟨hle, hmarked⟩ := hdir i hi hi' hf hsize
      refine ⟨hle, fun k hk ↦ ?_⟩
      have := hg.bitmapSector_lt (s := (entryOf w.data i).startSector + k) (by omega)
      rw [bit_congr (Function.update_of_ne (by omega) ..)]
      exact hmarked k hk
    · have hent : ent su (Function.update d w.sector w.data) i = ent su d i :=
        ent_congr (Function.update_of_ne hi' ..)
      rw [hent] at hf hsize ⊢
      obtain ⟨hle, hmarked⟩ := h.files i hi hf hsize
      refine ⟨hle, fun k hk ↦ ?_⟩
      by_cases hb : su.bitmapSector ((ent su d i).startSector + k) = w.sector
      · have := (hbits i hi hf hsize).2 k hk
        rw [decide_eq_true_eq] at this
        rw [bit, hb, Function.update_self]
        exact this.resolve_left fun hne ↦ hne hb
      · rw [bit_congr (Function.update_of_ne hb ..)]
        exact hmarked k hk

/-- The rule asks for no more than soundness. -/
theorem Sound.keeps {su : Super} {d : ℕ → Sector} (hg : Geometry su) (h : Sound su d)
    {w : Written Sector} (h' : Sound su (Function.update d w.sector w.data)) : Keeps su d w := by
  refine ⟨fun h0 ↦ ?_, fun i hi hi' hf hsize ↦ ?_, fun i hi hf hsize ↦ ?_⟩
  · have := h'.layout
    rw [h0] at this
    exact this
  · have hsec := hg.direntSector_lt hi
    have hent : ent su (Function.update d w.sector w.data) i = entryOf w.data i := by
      rw [ent, hi', Function.update_self]
    have hfile := h'.files i hi
    rw [hent] at hfile
    obtain ⟨hle, hmarked⟩ := hfile hf hsize
    refine ⟨hle, fun k hk ↦ ?_⟩
    have := hg.bitmapSector_lt (s := (entryOf w.data i).startSector + k) (by omega)
    rw [← hmarked k hk, bit_congr (Function.update_of_ne (by omega) ..)]
  · obtain ⟨hle, -⟩ := h.files i hi hf hsize
    refine ⟨hle, fun k hk ↦ decide_eq_true (or_iff_not_imp_left.mpr fun hb ↦ ?_)⟩
    rw [not_not] at hb
    have hlt := hg.bitmapSector_lt (s := (ent su d i).startSector + k) (by omega)
    have hsec := hg.direntSector_lt hi
    have hent : ent su (Function.update d w.sector w.data) i = ent su d i :=
      ent_congr (Function.update_of_ne (by omega) ..)
    have hfile := h'.files i hi
    rw [hent] at hfile
    have hmarked := (hfile hf hsize).2 k hk
    rw [bit, hb, Function.update_self] at hmarked
    exact hmarked

theorem Sound.crash_iff {su : Super} {d : ℕ → Sector} (hg : Geometry su) (h : Sound su d)
    (ws : List (Written Sector)) :
    KeepsAll su d ws ↔ ∀ k, Sound su (Sfs.crash d (ws.take k)) := by
  induction ws generalizing d with
  | nil => exact ⟨fun _ k ↦ by rw [take_nil]; exact h, fun _ ↦ trivial⟩
  | cons w ws ih =>
    constructor
    · rintro ⟨hw, hws⟩ (_ | k)
      · exact h
      · exact (ih (h.update hg hw)).mp hws k
    · intro hall
      have hw := h.keeps hg (hall 1)
      exact ⟨hw, (ih (h.update hg hw)).mpr fun k ↦ hall (k + 1)⟩

theorem run_allMarked {k s : ℕ} (h : ∀ j < k, bit su d (s + j) = true)
    : (allMarked su k s).run d = (true, d) := by
  induction k generalizing s with
  | zero => rfl
  | succ k ih =>
    have hget : (bitmapGet su s).run d = (bit su d s, d) := rfl
    have hs : bit su d s = true := h 0 (Nat.succ_pos k)
    rw [allMarked, Prog.run_bind, hget, hs]
    exact ih fun j hj ↦ by rw [Nat.add_right_comm]; exact h (j + 1) (by omega)

theorem run_fsckFrom {su su' : Super} {d : ℕ → Sector} (hword : su.totalSectors < 2 ^ 32) {k i : ℕ}
    (h : ∀ j, i ≤ j → j < i + k → FileMarked su (bit su' d) (ent su' d j)) :
    (fsckFrom su' k i).run d = (.ok (), d) := by
  induction k generalizing i with
  | zero => rfl
  | succ k ih =>
    have hread : (readDirent su' i).run d = (some (ent su' d i), d) := rfl
    have hrel : (releaseDirent su' i).run d = ((), d) := rfl
    have hmarked : (entryMarked su' (ent su' d i)).run d = (true, d) := by
      rw [entryMarked]
      split_ifs with hf
      · obtain ⟨hle, hbits⟩ := h i le_rfl (by omega) hf.1 hf.2
        rw [span_eq (hle.trans_lt hword)]
        exact run_allMarked su' d hbits
      · rfl
    simp only [fsckFrom, Prog.run_bind, hread, hmarked, hrel]
    exact ih fun j hj hj' ↦ h j (by omega) (by omega)

theorem Sound.recovers {su : Super} {d : ℕ → Sector} (hg : Geometry su) (h : Sound su d) :
    recovers d = true := by
  obtain ⟨hmagic, hversion, hbm, hdir, hn⟩ := h.layout
  have hbit : ∀ s, bit (.ofSector (d 0)) d s = bit su d s := by
    intro s
    rw [bit, bit, Super.bitmapSector, Super.bitmapSector, hbm]
  have hent : ∀ i, ent (.ofSector (d 0)) d i = ent su d i := by
    intro i
    rw [ent, ent, Super.direntSector, Super.direntSector, hdir]
  have hmount : (mount.run d).1 = .ok (.ofSector (d 0)) := if_pos ⟨hmagic, hversion⟩
  have hfsck : (fsck (.ofSector (d 0))).run d = (.ok (), d) := by
    refine run_fsckFrom hg.word fun j _ hj ↦ ?_
    rw [hent, funext hbit]
    exact h.files j (by rw [hn, hg.dirents] at hj; omega)
  rw [Sfs.recovers, hmount]
  show ((fsck (.ofSector (d 0))).run d).1.toOption.isSome = true
  rw [hfsck]
  rfl

/-! ## The log and the device -/

/-- From `c` to `c'` the device takes the writes that the log gets. -/
def Wrote (c c' : Bcache Sector n) : Prop :=
  ∃ ws, c'.log = c.log ++ ws ∧ c'.disk = crash c.disk ws

namespace Wrote

variable {c c' c'' : Bcache Sector n}

theorem refl (c : Bcache Sector n) : Wrote c c := ⟨[], (append_nil _).symm, rfl⟩

theorem trans (h : Wrote c c') (h' : Wrote c' c'') : Wrote c c'' := by
  obtain ⟨ws, hlog, hdisk⟩ := h
  obtain ⟨ws', hlog', hdisk'⟩ := h'
  refine ⟨ws ++ ws', by rw [hlog', hlog, append_assoc], ?_⟩
  rw [hdisk', hdisk, crash, crash, crash, foldl_append]

theorem writeOut (c : Bcache Sector n) (i : Fin n) : Wrote c (c.writeOut i) := ⟨[_], rfl, rfl⟩

theorem flushPass (m : Bool) : ∀ (is : List (Fin n)) (c : Bcache Sector n),
    Wrote c (c.flushPass m is).2
  | [], c => refl c
  | i :: is, c => by
    rw [Bcache.flushPass]
    split_ifs
    · exact ⟨[], (append_nil _).symm, rfl⟩
    · exact (writeOut c i).trans (flushPass m is _)
    · exact flushPass m is c

theorem sync (c : Bcache Sector n) : Wrote c c.sync.2 := by
  rw [Bcache.sync]
  split_ifs
  · exact (flushPass false _ c).trans (flushPass true _ _)
  · exact flushPass false _ c

theorem read (c : Bcache Sector n) (s : ℕ) : Wrote c (c.read s).2 := by
  rw [Bcache.read]
  cases c.lookup s with
  | some i => exact ⟨[], (append_nil _).symm, rfl⟩
  | none =>
    cases c.victim with
    | none => exact refl c
    | some v =>
      have hevict : Wrote c (c.evict v) := by
        rw [Bcache.evict]
        split_ifs
        · exact ⟨[_], rfl, rfl⟩
        · exact refl c
      have hfill : ∀ c' : Bcache Sector n, Wrote c' (c'.fill v s).2 := by
        intro c'
        rw [Bcache.fill]
        split_ifs <;> exact ⟨[], (append_nil _).symm, rfl⟩
      exact hevict.trans (hfill _)

/-- A clean cache writes nothing for a read. -/
theorem read_clean {c : Bcache Sector n} (h : ∀ i, (c.bufs i).dirty = false) (s : ℕ) :
    (c.read s).2.log = c.log ∧ (c.read s).2.disk = c.disk := by
  rw [Bcache.read]
  cases c.lookup s with
  | some i => exact ⟨rfl, rfl⟩
  | none =>
    cases c.victim with
    | none => exact ⟨rfl, rfl⟩
    | some v =>
      have hevict : c.evict v = c := if_neg (by rw [h v]; exact Bool.false_ne_true)
      simp only [hevict, Bcache.fill]
      split_ifs <;> exact ⟨rfl, rfl⟩

theorem update (c : Bcache Sector n) (i : Fin n) (f : Sector → Sector) (m : Mark) :
    Wrote c (c.update i f m) := by
  refine ⟨[], (Bcache.log_update f m).trans (append_nil _).symm, ?_⟩
  cases m <;> simp only [Bcache.update, Bcache.markDirty] <;>
    first | rfl | split_ifs <;> rfl

theorem exec {α : Type} (p : Prog Sector α) (c : Bcache Sector n) : Wrote c (p.exec c).2 := by
  induction p generalizing c with
  | ret a => exact refl c
  | read s k ih => exact (read c s).trans (ih _ _)
  | update s f m k ih =>
    refine Wrote.trans ?_ (ih _)
    cases c.lookup s with
    | none => exact refl c
    | some i => exact update c i f m
  | release s k ih =>
    refine Wrote.trans ?_ (ih _)
    cases c.lookup s with
    | none => exact refl c
    | some i => exact ⟨[], (append_nil _).symm, rfl⟩
  | sync k ih => exact (sync c).trans (ih _ _)

end Wrote

theorem log_mountOn {disk : ℕ → Sector} {faults : List Bool} {st : Mounted n}
    (h : mountOn n disk faults = some st) : st.cache.log = [] ∧ st.cache.disk = disk := by
  obtain ⟨su, -, rfl⟩ := map_eq_some_iff.mp h
  have hread := Wrote.read_clean (c := Bcache.init n (fun _ ↦ 0) disk faults) (fun _ ↦ rfl) 0
  dsimp only [mount, Prog.exec]
  generalize (Bcache.init n (fun _ ↦ 0) disk faults).read 0 = q at hread ⊢
  obtain ⟨r, c⟩ := q
  cases r with
  | none => exact hread
  | some i =>
    dsimp only [map_some, Prog.exec]
    cases c.lookup 0 with
    | none | some j => exact hread

/-- What the operation writes to the device. -/
def Mounted.writes (st : Mounted n) (op : Op) : List (Written Sector) :=
  ((op.prog st.super).exec st.cache).2.log.drop st.cache.log.length

/-- Each write of the operation follows the rule on the image that it meets. -/
def Careful (st : Mounted n) (op : Op) : Prop :=
  KeepsAll su st.cache.disk (st.writes op)

end Mazu.Fs.Sfs
