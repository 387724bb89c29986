import Mathlib
import Mazu.Lib.Loop
import Mazu.Lib.Runs

/-!
# The block buffer cache

Each buffer holds one sector. A sector that is not there takes the place of the least recently used
buffer that nobody holds, which is written back first if it is dirty; a sync writes back the data
sectors, then the metadata. Device accesses fail as the list of faults says, and succeed once it is
used up; the loop of `bcache_evict` stays at a buffer until the device takes it.

What was written, and when a buffer became dirty, is there for the specification only. The contents
of a sector are of any type.
-/

namespace Mazu.Fs

open List

structure Buf (D : Type) where
  sector : ℕ
  valid : Bool
  dirty : Bool
  isMeta : Bool
  refcount : ℕ
  data : D
  /-- When the buffer became dirty. -/
  since : ℕ

/-- A sector that was written to the device. -/
structure Written (D : Type) where
  sector : ℕ
  data : D
  /-- Metadata went out while data that became dirty before it was still dirty. -/
  overtakes : Bool

structure Bcache (D : Type) (n : ℕ) where
  bufs : Fin n → Buf D
  /-- The most recently used buffer first. -/
  lru : List (Fin n)
  disk : ℕ → D
  faults : List Bool
  log : List (Written D)
  clock : ℕ

/-- How a modification is marked: by `bcache_mark_dirty`, by `bcache_mark_meta`, or by both. -/
inductive Mark
  | dirty
  | metaOnly
  | dirtyMeta
  deriving DecidableEq

namespace Bcache

variable {D : Type} {n : ℕ}

/-- `bcache_init`. -/
def init (n : ℕ) (zero : D) (disk : ℕ → D) (faults : List Bool) : Bcache D n where
  bufs _ := ⟨0, false, false, false, 0, zero, 0⟩
  lru := List.finRange n
  disk := disk
  faults := faults
  log := []
  clock := 0

variable (c : Bcache D n) (i : Fin n) (s : ℕ)

def setBuf (f : Buf D → Buf D) : Bcache D n :=
  { c with bufs := Function.update c.bufs i (f (c.bufs i)) }

@[simp] theorem bufs_setBuf_self (f : Buf D → Buf D) : (c.setBuf i f).bufs i = f (c.bufs i) :=
  Function.update_self ..

/-- `bcache_touch`. -/
def touch : Bcache D n := { c with lru := i :: c.lru.erase i }

/-- `bcache_lookup`. -/
def lookup : Option (Fin n) :=
  (List.finRange n).find? fun i ↦ (c.bufs i).valid ∧ (c.bufs i).sector = s

/-- The buffer is metadata, and data that became dirty before it is still dirty. -/
def Overtakes : Prop := (c.bufs i).isMeta = true ∧ ∃ j, (c.bufs j).dirty = true ∧
  (c.bufs j).isMeta = false ∧ (c.bufs j).since < (c.bufs i).since

instance : Decidable (c.Overtakes i) := inferInstanceAs (Decidable (_ ∧ _))

/-- The device takes the buffer. -/
def writeOut : Bcache D n :=
  { c.setBuf i (fun b ↦ { b with dirty := false }) with
    disk := Function.update c.disk (c.bufs i).sector (c.bufs i).data
    faults := c.faults.tail
    log := c.log ++ [⟨(c.bufs i).sector, (c.bufs i).data, decide (c.Overtakes i)⟩] }

@[simp] theorem bufs_writeOut_self : (c.writeOut i).bufs i = { c.bufs i with dirty := false } :=
  Function.update_self ..

theorem bufs_writeOut_ne {i j : Fin n} (h : j ≠ i) : (c.writeOut i).bufs j = c.bufs j :=
  Function.update_of_ne h ..

/-- The buffer that `bcache_evict` picks. -/
def victim : Option (Fin n) := c.lru.reverse.find? fun i ↦ (c.bufs i).refcount = 0

/-- The buffer is written back if it is dirty, however often that takes. -/
def evict : Bcache D n :=
  if (c.bufs i).dirty then writeOut { c with faults := c.faults.dropWhile id } i else c

/-- The buffer is taken for the sector, which is read from the device. -/
def fill : Option (Fin n) × Bcache D n :=
  let c' := { c.touch i with faults := c.faults.tail }
  if c.faults.head? = some true then
    (none, c'.setBuf i fun b ↦
      { b with sector := s, valid := false, dirty := false, isMeta := false, refcount := 0 })
  else
    (some i, c'.setBuf i fun b ↦
      { b with
        sector := s, valid := true, dirty := false, isMeta := false, refcount := 1
        data := c.disk s })

/-- `bcache_read`. -/
def read : Option (Fin n) × Bcache D n :=
  match c.lookup s with
  | some i =>
    (some i, (c.setBuf i fun b ↦ { b with refcount := (b.refcount + 1) % 2 ^ 32 }).touch i)
  | none =>
    match c.victim with
    | none => (none, c)
    | some i => (c.evict i).fill i s

/-- `bcache_mark_dirty`. -/
def markDirty : Bcache D n :=
  if (c.bufs i).dirty then c
  else { c.setBuf i (fun b ↦ { b with dirty := true, since := c.clock }) with clock := c.clock + 1 }

/-- `bcache_mark_meta`. -/
def markMeta : Bcache D n := c.setBuf i fun b ↦ { b with isMeta := true }

/-- The holder of a buffer changes it in place and marks it. -/
def update (f : D → D) (m : Mark) : Bcache D n :=
  let c := c.setBuf i fun b ↦ { b with data := f b.data }
  match m with
  | .dirty => c.markDirty i
  | .metaOnly => c.markMeta i
  | .dirtyMeta => (c.markDirty i).markMeta i

/-- `bcache_release`. -/
def release : Bcache D n := c.setBuf i fun b ↦ { b with refcount := b.refcount - 1 }

/-- A pass of `bcache_sync` over the buffers, up to the first error. -/
def flushPass (isMeta : Bool) : Bcache D n → List (Fin n) → Bool × Bcache D n
  | c, [] => (true, c)
  | c, i :: is =>
    if (c.bufs i).dirty ∧ (c.bufs i).isMeta = isMeta then
      if c.faults.head? = some true then (false, { c with faults := c.faults.tail })
      else flushPass isMeta (c.writeOut i) is
    else flushPass isMeta c is

/-- A pass writes back what is dirty of its kind among the buffers that it visits, unless it stops
at an error. -/
theorem flushPass_dirty (m : Bool) : ∀ (is : List (Fin n)) {c : Bcache D n} {j : Fin n},
    ((c.flushPass m is).2.bufs j).dirty = true → (c.bufs j).dirty = true ∧
      ((c.flushPass m is).1 = true → (c.bufs j).isMeta = m → j ∉ is) ∧
      ((c.flushPass m is).2.bufs j).isMeta = (c.bufs j).isMeta
  | [], c, j, hd => ⟨hd, fun _ _ ↦ not_mem_nil, rfl⟩
  | i :: is, c, j, hd => by
    by_cases hi : (c.bufs i).dirty = true ∧ (c.bufs i).isMeta = m
    · by_cases hf : c.faults.head? = some true
      · rw [flushPass, if_pos hi, if_pos hf] at hd ⊢
        exact ⟨hd, nofun, rfl⟩
      · rw [flushPass, if_pos hi, if_neg hf] at hd ⊢
        obtain ⟨hj, hmem, hmeta⟩ := flushPass_dirty m is hd
        have hne : j ≠ i := by
          rintro rfl
          rw [bufs_writeOut_self] at hj
          exact nomatch hj
        rw [bufs_writeOut_ne _ hne] at hj hmeta hmem
        exact ⟨hj, fun hr hm ↦ not_mem_cons_of_ne_of_not_mem hne (hmem hr hm), hmeta⟩
    · rw [flushPass, if_neg hi] at hd ⊢
      obtain ⟨hj, hmem, hmeta⟩ := flushPass_dirty m is hd
      refine ⟨hj, fun hr hm ↦ not_mem_cons_of_ne_of_not_mem ?_ (hmem hr hm), hmeta⟩
      exact fun he ↦ hi (he ▸ ⟨hj, hm⟩)

/-- `bcache_sync`. -/
def sync : Bool × Bcache D n :=
  let r := c.flushPass false (List.finRange n)
  if r.1 then r.2.flushPass true (List.finRange n) else r

end Bcache

variable {D : Type} {n : ℕ}

/-! ## A plain array of sectors -/

/-- The cache beside what it stands for: the array, and the sector each buffer was asked for. -/
structure Cached (D : Type) (n : ℕ) where
  cache : Bcache D n
  array : ℕ → D
  asked : Fin n → ℕ

inductive Event (D : Type) (n : ℕ)
  | read (s : ℕ)
  | update (i : Fin n) (f : D → D) (m : Mark)
  | release (i : Fin n)
  | sync

def Cached.init (n : ℕ) (zero : D) (disk : ℕ → D) : Cached D n :=
  ⟨.init n zero disk [], disk, fun _ ↦ 0⟩

/-- Buffers are changed and released by whoever holds them. -/
def Cached.step (t : Cached D n) : Event D n → Option (Cached D n)
  | .read s =>
    let r := t.cache.read s
    some ⟨r.2, t.array, r.1.elim t.asked fun i ↦ Function.update t.asked i s⟩
  | .update i f m =>
    if 0 < (t.cache.bufs i).refcount then
      some { t with
        cache := t.cache.update i f m
        array := Function.update t.array (t.asked i) (f (t.array (t.asked i))) }
    else none
  | .release i =>
    if 0 < (t.cache.bufs i).refcount then some { t with cache := t.cache.release i } else none
  | .sync => some { t with cache := t.cache.sync.2 }

/-- A read finds its sector, held less than `2³² - 1` times, or a buffer that nobody holds. -/
def Bcache.Room (c : Bcache D n) (s : ℕ) : Prop :=
  match c.lookup s with
  | some i => (c.bufs i).refcount + 1 < 2 ^ 32
  | none => ∃ i, (c.bufs i).refcount = 0

instance (c : Bcache D n) (s : ℕ) : Decidable (c.Room s) := by
  unfold Bcache.Room
  split <;> infer_instance

def HasRoom (t : Cached D n) : Event D n → Prop
  | .read s => t.cache.Room s
  | _ => True

instance (t : Cached D n) (e : Event D n) : Decidable (HasRoom t e) := by
  cases e <;> unfold HasRoom <;> infer_instance

/-- There is room for every read, and every modification is marked dirty. -/
def Disciplined (t : Cached D n) (e : Event D n) : Prop :=
  HasRoom t e ∧ ∀ i f, e ≠ .update i f .metaOnly

instance (t : Cached D n) (e : Event D n) : Decidable (Disciplined t e) :=
  match e with
  | .read s => decidable_of_iff (HasRoom t (.read s)) ⟨fun h ↦ ⟨h, nofun⟩, And.left⟩
  | .update i f m => decidable_of_iff (m ≠ .metaOnly)
    ⟨fun h ↦ ⟨trivial, fun _ _ he ↦ h (by injection he)⟩, fun h hm ↦ h.2 i f (hm ▸ rfl)⟩
  | .release _ => .isTrue ⟨trivial, nofun⟩
  | .sync => .isTrue ⟨trivial, nofun⟩

structure Coherent (t : Cached D n) : Prop where
  lru : ∀ i, i ∈ t.cache.lru
  faults : t.cache.faults = []
  uniq : ∀ i j, (t.cache.bufs i).valid = true → (t.cache.bufs j).valid = true →
    (t.cache.bufs i).sector = (t.cache.bufs j).sector → i = j
  dirty : ∀ i, (t.cache.bufs i).dirty = true → (t.cache.bufs i).valid = true
  clean : ∀ i, (t.cache.bufs i).valid = true → (t.cache.bufs i).dirty = false →
    t.cache.disk (t.cache.bufs i).sector = (t.cache.bufs i).data
  held : ∀ i, 0 < (t.cache.bufs i).refcount →
    (t.cache.bufs i).valid = true ∧ (t.cache.bufs i).sector = t.asked i
  cached : ∀ i, (t.cache.bufs i).valid = true →
    (t.cache.bufs i).data = t.array (t.cache.bufs i).sector
  absent : ∀ s, (∀ i, (t.cache.bufs i).valid = true → (t.cache.bufs i).sector ≠ s) →
    t.cache.disk s = t.array s

namespace Coherent

variable {t : Cached D n} {i : Fin n}

theorem init (zero : D) (disk : ℕ → D) : Coherent (Cached.init n zero disk) :=
  ⟨mem_finRange, rfl, nofun, nofun, nofun, fun _ h ↦ absurd h (Nat.lt_irrefl 0), nofun,
    fun _ _ ↦ rfl⟩

variable (h : Coherent t)

include h

/-- A buffer that is written back is clean, and nothing else is different. -/
theorem writeOut (hd : (t.cache.bufs i).valid = true) :
    Coherent { t with cache := t.cache.writeOut i } := by
  have hsame : ∀ j, ((t.cache.writeOut i).bufs j).valid = (t.cache.bufs j).valid ∧
      ((t.cache.writeOut i).bufs j).sector = (t.cache.bufs j).sector ∧
      ((t.cache.writeOut i).bufs j).data = (t.cache.bufs j).data ∧
      ((t.cache.writeOut i).bufs j).refcount = (t.cache.bufs j).refcount := by
    intro j
    by_cases hj : j = i
    · rw [hj, Bcache.bufs_writeOut_self]
      exact ⟨rfl, rfl, rfl, rfl⟩
    · rw [Bcache.bufs_writeOut_ne _ hj]
      exact ⟨rfl, rfl, rfl, rfl⟩
  have hdisk : ∀ s, (t.cache.writeOut i).disk s =
      if s = (t.cache.bufs i).sector then (t.cache.bufs i).data else t.cache.disk s :=
    fun s ↦ Function.update_apply ..
  constructor <;> dsimp only
  · exact h.lru
  · exact congrArg tail h.faults
  · intro j k
    rw [(hsame j).1, (hsame k).1, (hsame j).2.1, (hsame k).2.1]
    exact h.uniq j k
  · intro j
    by_cases hj : j = i
    · rw [hj, Bcache.bufs_writeOut_self]
      exact nofun
    · rw [Bcache.bufs_writeOut_ne _ hj]
      exact h.dirty j
  · intro j
    rw [(hsame j).1, (hsame j).2.1, (hsame j).2.2.1, hdisk]
    intro hv hc
    by_cases hj : j = i
    · rw [hj, if_pos rfl]
    · rw [if_neg fun hsec ↦ hj (h.uniq j i hv hd hsec)]
      rw [Bcache.bufs_writeOut_ne _ hj] at hc
      exact h.clean j hv hc
  · intro j
    rw [(hsame j).1, (hsame j).2.1, (hsame j).2.2.2]
    exact h.held j
  · intro j
    rw [(hsame j).1, (hsame j).2.1, (hsame j).2.2.1]
    exact h.cached j
  · intro s hs
    have habs : ∀ j, (t.cache.bufs j).valid = true → (t.cache.bufs j).sector ≠ s := by
      intro j hv
      have := hs j
      rw [(hsame j).1, (hsame j).2.1] at this
      exact this hv
    rw [hdisk, if_neg fun h ↦ habs i hd h.symm]
    exact h.absent s habs

/-- A buffer that is taken for its sector holds what the array has there, and the array may be
different there only. -/
theorem replace {t' : Cached D n} {b : Buf D}
    (hbufs : t'.cache.bufs = Function.update t.cache.bufs i b) (hlru : ∀ j, j ∈ t'.cache.lru)
    (hdisk : t'.cache.disk = t.cache.disk) (hfaults : t'.cache.faults = [])
    (hvalid : b.valid = true)
    (hsector : ∀ j, (t.cache.bufs j).valid = true → (t.cache.bufs j).sector = b.sector → j = i)
    (hclean : b.dirty = false → t.cache.disk b.sector = b.data)
    (hheld : 0 < b.refcount → b.sector = t'.asked i)
    (hasked : ∀ j, j ≠ i → t'.asked j = t.asked j) (hdata : b.data = t'.array b.sector)
    (harray : ∀ s, s ≠ b.sector → t'.array s = t.array s)
    (hold : (t.cache.bufs i).valid = true → (t.cache.bufs i).sector ≠ b.sector → (t.cache.bufs
      i).dirty = false) : Coherent t' := by
  have hself : t'.cache.bufs i = b := by rw [hbufs, Function.update_self]
  have hother : ∀ j, j ≠ i → t'.cache.bufs j = t.cache.bufs j :=
    fun j hj ↦ by rw [hbufs, Function.update_of_ne hj]
  have hne : ∀ j, j ≠ i → (t.cache.bufs j).valid = true → (t.cache.bufs j).sector ≠ b.sector :=
    fun j hj hv hs ↦ hj (hsector j hv hs)
  refine ⟨hlru, hfaults, fun j k ↦ ?_, fun j ↦ ?_, fun j ↦ ?_, fun j ↦ ?_, fun j ↦ ?_,
    fun s hs ↦ ?_⟩
  · by_cases hj : j = i <;> by_cases hk : k = i
    · exact fun _ _ _ ↦ hj.trans hk.symm
    · rw [hj, hself, hother k hk]
      exact fun _ hv hs ↦ absurd hs.symm (hne k hk hv)
    · rw [hk, hself, hother j hj]
      exact fun hv _ hs ↦ absurd hs (hne j hj hv)
    · rw [hother j hj, hother k hk]
      exact h.uniq j k
  · by_cases hj : j = i
    · rw [hj, hself]
      exact fun _ ↦ hvalid
    · rw [hother j hj]
      exact h.dirty j
  · rw [hdisk]
    by_cases hj : j = i
    · rw [hj, hself]
      exact fun _ ↦ hclean
    · rw [hother j hj]
      exact h.clean j
  · by_cases hj : j = i
    · rw [hj, hself]
      exact fun hr ↦ ⟨hvalid, hheld hr⟩
    · rw [hother j hj, hasked j hj]
      exact h.held j
  · by_cases hj : j = i
    · rw [hj, hself]
      exact fun _ ↦ hdata
    · rw [hother j hj]
      exact fun hv ↦ (h.cached j hv).trans (harray _ (hne j hj hv)).symm
  · have hs' : s ≠ b.sector := fun he ↦ hs i (hself ▸ hvalid) (hself ▸ he.symm)
    rw [hdisk, harray s hs']
    by_cases hi : (t.cache.bufs i).valid = true ∧ (t.cache.bufs i).sector = s
    · rw [← hi.2, h.clean i hi.1 (hold hi.1 (hi.2 ▸ hs')), h.cached i hi.1]
    · refine h.absent s fun j hv he ↦ ?_
      by_cases hj : j = i
      · exact hi (hj ▸ ⟨hv, he⟩)
      · exact hs j (hother j hj ▸ hv) (hother j hj ▸ he)

theorem mem_touch (j : Fin n) : j ∈ i :: t.cache.lru.erase i := by
  by_cases hj : j = i
  · exact hj ▸ mem_cons_self
  · exact mem_cons_of_mem _ ((mem_erase_of_ne hj).mpr (h.lru j))

omit h in
theorem lookup_eq_some {s : ℕ} (hl : t.cache.lookup s = some i) :
    (t.cache.bufs i).valid = true ∧ (t.cache.bufs i).sector = s := by
  simpa using find?_some hl

omit h in
theorem lookup_eq_none {s : ℕ} (hl : t.cache.lookup s = none) (hv : (t.cache.bufs i).valid = true) :
    (t.cache.bufs i).sector ≠ s := by
  have := find?_eq_none.mp hl i (mem_finRange i)
  simp only [hv, true_and, decide_eq_true_eq] at this
  exact this

theorem victim_isSome (hi : (t.cache.bufs i).refcount = 0) :
    ∃ v, t.cache.victim = some v ∧ (t.cache.bufs v).refcount = 0 := by
  have hsome : t.cache.victim.isSome := find?_isSome.mpr
    ⟨i, mem_reverse.mpr (h.lru i), decide_eq_true hi⟩
  obtain ⟨v, hv⟩ := Option.isSome_iff_exists.mp hsome
  exact ⟨v, hv, of_decide_eq_true (find?_some hv :)⟩

theorem evict (i : Fin n) : Coherent { t with cache := t.cache.evict i } ∧
    ((t.cache.evict i).bufs i).dirty = false ∧
    ∀ j, ((t.cache.evict i).bufs j).valid = (t.cache.bufs j).valid ∧
      ((t.cache.evict i).bufs j).sector = (t.cache.bufs j).sector := by
  by_cases hd : (t.cache.bufs i).dirty = true
  · have he : t.cache.evict i = t.cache.writeOut i := by
      rw [Bcache.evict, if_pos hd, h.faults, dropWhile_nil, ← h.faults]
    rw [he]
    refine ⟨h.writeOut (h.dirty i hd), ?_, fun j ↦ ?_⟩
    · rw [Bcache.bufs_writeOut_self]
    · by_cases hj : j = i
      · rw [hj, Bcache.bufs_writeOut_self]
        exact ⟨rfl, rfl⟩
      · rw [Bcache.bufs_writeOut_ne _ hj]
        exact ⟨rfl, rfl⟩
  · rw [Bcache.evict, if_neg hd]
    exact ⟨h, by simpa using hd, fun _ ↦ ⟨rfl, rfl⟩⟩

/-- **A read** returns the sector as the array has it. -/
theorem read {s : ℕ} (hroom : t.cache.Room s) :
    ∃ i, (t.cache.read s).1 = some i ∧ ((t.cache.read s).2.bufs i).sector = s ∧
      ((t.cache.read s).2.bufs i).data = t.array s ∧
      Coherent ⟨(t.cache.read s).2, t.array, Function.update t.asked i s⟩ := by
  rw [Bcache.read]
  cases hl : t.cache.lookup s with
  | some i =>
    obtain ⟨hv, hs⟩ := lookup_eq_some hl
    have hself := t.cache.bufs_setBuf_self i fun b ↦
      { b with refcount := (b.refcount + 1) % 2 ^ 32 }
    refine ⟨i, rfl, (congrArg Buf.sector hself).trans hs, ?_, ?_⟩
    · exact (congrArg Buf.data hself).trans (hs ▸ h.cached i hv)
    · refine h.replace rfl h.mem_touch rfl h.faults hv
        (fun j hj he ↦ h.uniq j i hj hv he) (h.clean i hv) (fun _ ↦ ?_) (fun j hj ↦ ?_)
        (h.cached i hv) (fun _ _ ↦ rfl) (fun _ hne ↦ absurd rfl hne)
      · exact hs.trans (Function.update_self (β := fun _ ↦ ℕ) i s _).symm
      · exact Function.update_of_ne hj ..
  | none =>
    rw [Bcache.Room, hl] at hroom
    obtain ⟨v, hvic, hfree⟩ := h.victim_isSome hroom.choose_spec
    obtain ⟨h', hd, hsame⟩ := h.evict v
    have habs : ∀ j, ((t.cache.evict v).bufs j).valid = true →
        ((t.cache.evict v).bufs j).sector ≠ s := by
      intro j
      rw [(hsame j).1, (hsame j).2]
      exact lookup_eq_none hl
    have hdisk : (t.cache.evict v).disk s = t.array s := h'.absent s habs
    have hok : ¬ (t.cache.evict v).faults.head? = some true := by
      rw [h'.faults]
      exact nofun
    simp only [hvic, Bcache.fill, if_neg hok]
    refine ⟨v, rfl, ?_, ?_, ?_⟩
    · exact congrArg Buf.sector (Bcache.bufs_setBuf_self ..)
    · exact (congrArg Buf.data (Bcache.bufs_setBuf_self ..)).trans hdisk
    refine h'.replace rfl h'.mem_touch rfl
      (congrArg tail h'.faults) rfl (fun j hv he ↦ absurd he (habs j hv)) (fun _ ↦ rfl)
      (fun _ ↦ ?_) (fun j hj ↦ ?_) hdisk (fun _ _ ↦ rfl) (fun _ _ ↦ hd)
    · exact (Function.update_self (β := fun _ ↦ ℕ) v s _).symm
    · exact Function.update_of_ne hj ..

theorem update (f : D → D) {m : Mark} (hm : m ≠ .metaOnly) (hi : 0 < (t.cache.bufs i).refcount) :
    Coherent { t with
      cache := t.cache.update i f m
      array := Function.update t.array (t.asked i) (f (t.array (t.asked i))) } := by
  obtain ⟨hv, hs⟩ := h.held i hi
  obtain ⟨b, hbufs, hb, hlru, hdisk, hfaults⟩ : ∃ b : Buf D,
      (t.cache.update i f m).bufs = Function.update t.cache.bufs i b ∧
      (b.valid = true ∧ b.dirty = true ∧ b.sector = t.asked i ∧ b.data = f (t.cache.bufs i).data) ∧
      (t.cache.update i f m).lru = t.cache.lru ∧ (t.cache.update i f m).disk = t.cache.disk ∧
      (t.cache.update i f m).faults = t.cache.faults := by
    cases m with
    | metaOnly => exact absurd rfl hm
    | dirty =>
      simp only [Bcache.update, Bcache.markDirty]
      split_ifs with hd
      · exact ⟨_, rfl, ⟨hv, by simpa using hd, hs, rfl⟩, rfl, rfl, rfl⟩
      · exact ⟨_, Function.update_idem .., by simp [hv, hs], rfl, rfl, rfl⟩
    | dirtyMeta =>
      simp only [Bcache.update, Bcache.markDirty]
      split_ifs with hd
      · exact ⟨_, Function.update_idem .., by simpa [hv, hs] using hd, rfl, rfl, rfl⟩
      · refine ⟨_, (Function.update_idem ..).trans (Function.update_idem ..), ?_, rfl, rfl, rfl⟩
        simp [hv, hs]
  obtain ⟨hbv, hbd, hbs, hbdata⟩ := hb
  refine h.replace hbufs (hlru ▸ h.lru) hdisk (hfaults.trans h.faults) hbv
    (fun j hj he ↦ h.uniq j i hj hv (he.trans (hbs.trans hs.symm)))
    (fun hc ↦ absurd (hc.symm.trans hbd) nofun) (fun _ ↦ hbs) (fun _ _ ↦ rfl) ?_ (fun s hne ↦ ?_)
    (fun _ hne ↦ absurd (hs.trans hbs.symm) hne)
  · rw [hbs, hbdata, h.cached i hv, hs]
    exact (Function.update_self (β := fun _ ↦ D) ..).symm
  · exact Function.update_of_ne (hbs ▸ hne) ..

theorem release (hi : 0 < (t.cache.bufs i).refcount) :
    Coherent { t with cache := t.cache.release i } := by
  obtain ⟨hv, hs⟩ := h.held i hi
  exact h.replace rfl h.lru rfl h.faults hv (fun j hj he ↦ h.uniq j i hj hv he)
    (h.clean i hv) (fun _ ↦ hs) (fun _ _ ↦ rfl) (h.cached i hv) (fun _ _ ↦ rfl)
    (fun _ hne ↦ absurd rfl hne)

omit h in
theorem flushPass (m : Bool) : ∀ (is : List (Fin n)) {t : Cached D n}, Coherent t →
    (t.cache.flushPass m is).1 = true ∧ Coherent { t with cache := (t.cache.flushPass m is).2 }
  | [], _, h => ⟨rfl, h⟩
  | i :: is, t, h => by
    by_cases hi : (t.cache.bufs i).dirty = true ∧ (t.cache.bufs i).isMeta = m
    · have hok : ¬ t.cache.faults.head? = some true := by
        rw [h.faults]
        exact nofun
      rw [Bcache.flushPass, if_pos hi, if_neg hok]
      exact flushPass m is (h.writeOut (h.dirty i hi.1))
    · rw [Bcache.flushPass, if_neg hi]
      exact flushPass m is h

/-- **A sync** succeeds and leaves no dirty buffer. -/
theorem sync : t.cache.sync.1 = true ∧
    Coherent { t with cache := t.cache.sync.2 } ∧ ∀ j, (t.cache.sync.2.bufs j).dirty = false := by
  obtain ⟨hres₁, h₁⟩ := h.flushPass false _
  obtain ⟨hres₂, h₂⟩ := h₁.flushPass true _
  rw [Bcache.sync, if_pos hres₁]
  refine ⟨hres₂, h₂, fun j ↦ Bool.eq_false_iff.mpr fun hd ↦ ?_⟩
  obtain ⟨hd', hmeta, -⟩ := Bcache.flushPass_dirty true _ hd
  obtain ⟨-, hdata, hsame⟩ := t.cache.flushPass_dirty false _ hd'
  cases hm : (t.cache.bufs j).isMeta with
  | false => exact hdata hres₁ hm (mem_finRange j)
  | true => exact hmeta hres₂ (hsame.trans hm) (mem_finRange j)

/-- With nothing dirty, the device is the array. -/
theorem disk_eq (hd : ∀ j, (t.cache.bufs j).dirty = false) : t.cache.disk = t.array := by
  funext s
  by_cases hs : ∃ i, (t.cache.bufs i).valid = true ∧ (t.cache.bufs i).sector = s
  · obtain ⟨i, hv, rfl⟩ := hs
    rw [h.clean i hv (hd i), h.cached i hv]
  · exact h.absent s fun i hv he ↦ hs ⟨i, hv, he⟩

theorem step {t' : Cached D n} {e : Event D n} (hk : Disciplined t e) (hstep : t.step e = some t')
    : Coherent t' := by
  cases e with
  | read s =>
    obtain ⟨i, hi, -, -, hcoh⟩ := h.read hk.1
    rw [Cached.step, hi] at hstep
    exact Option.some.inj hstep ▸ hcoh
  | update i f m =>
    obtain ⟨hi, rfl⟩ := Runs.of_guard hstep
    exact h.update f (fun hm ↦ hk.2 i f (hm ▸ rfl)) hi
  | release i =>
    obtain ⟨hi, rfl⟩ := Runs.of_guard hstep
    exact h.release hi
  | sync => exact Option.some.inj hstep ▸ h.sync.2.1

end Coherent

/-- **The cache refines an array of sectors.** Where every modification is marked dirty, a buffer
that is held shows its sector of the array, a read returns the sector as the array has it, and a
sync leaves the device equal to the array. -/
theorem bcache_refines_array {zero : D} {disk : ℕ → D} {t : Cached D n}
    (h : Runs.Run Cached.step Disciplined (Cached.init n zero disk) t) :
    (∀ i, 0 < (t.cache.bufs i).refcount → (t.cache.bufs i).sector = t.asked i ∧
      (t.cache.bufs i).data = t.array (t.asked i)) ∧
    (∀ s, t.cache.Room s → ∃ i, (t.cache.read s).1 = some i ∧
      ((t.cache.read s).2.bufs i).sector = s ∧ ((t.cache.read s).2.bufs i).data = t.array s) ∧
    t.cache.sync.1 = true ∧ t.cache.sync.2.disk = t.array := by
  have hcoh : Coherent t :=
    h.invariant (Coherent.init zero disk) fun _ _ _ h hk hstep ↦ h.step hk hstep
  refine ⟨fun i hi ↦ ?_, fun s hs ↦ ?_, hcoh.sync.1, hcoh.sync.2.1.disk_eq hcoh.sync.2.2⟩
  · obtain ⟨hv, hs⟩ := hcoh.held i hi
    exact ⟨hs, hs ▸ hcoh.cached i hv⟩
  · obtain ⟨i, hi, hsec, hdata, -⟩ := hcoh.read hs
    exact ⟨i, hi, hsec, hdata⟩

/-- Three sectors share two buffers; the one that was changed was written back for the third. -/
theorem bcache_refines_array_two : ∃ t, Runs.Run Cached.step Disciplined
    (Cached.init 2 0 fun _ ↦ 0) t ∧ t.array 5 = 1 ∧ t.cache.lookup 5 = none ∧ t.cache.Room 5 ∧
    (∃ i, (t.cache.read 5).1 = some i ∧ ((t.cache.read 5).2.bufs i).sector = 5 ∧
      ((t.cache.read 5).2.bufs i).data = t.array 5) ∧ t.cache.sync.2.disk = t.array := by
  obtain ⟨t, hrun, harray, hgone, hroom⟩ := Runs.exists_run Cached.step Disciplined
    (Cached.init 2 0 fun _ ↦ 0)
    [.read 5, .update 1 (· + 1) .dirtyMeta, .release 1, .read 6, .update 0 (· + 2) .dirty, .read 7,
      .release 1]
    (p := fun t ↦ t.array 5 = 1 ∧ t.cache.lookup 5 = none ∧ t.cache.Room 5) (by decide +kernel)
  obtain ⟨-, hread, -, hdisk⟩ := bcache_refines_array hrun
  exact ⟨t, hrun, harray, hgone, hroom, hread 5 hroom, hdisk⟩

/-- **A mark as metadata is no mark as dirty.** A sector that is changed and only marked as metadata
is not written, neither by a sync nor before its buffer is taken for another sector. -/
theorem not_bcache_refines_array : ∃ t, Runs.Run Cached.step HasRoom
    (Cached.init 1 0 fun _ ↦ 0) t ∧ t.array 5 = 1 ∧ t.cache.sync.2.disk 5 = 0 ∧ t.cache.Room 5 ∧
    (t.cache.read 5).1 = some 0 ∧ ((t.cache.read 5).2.bufs 0).data = 0 :=
  Runs.exists_run _ _ _
    [.read 5, .update 0 (· + 1) .metaOnly, .sync, .release 0, .read 6, .release 0]
    (by decide +kernel)

/-! ## The loop of `bcache_evict` -/

namespace Bcache

variable {D : Type} {n : ℕ} (fails : ℕ → Bool) (c : Bcache D n)

/-- A trip round the loop, with the buffers that are left and the number of the next write. The
write of a dirty buffer fails as `fails` says, and the loop is back at the same buffer. -/
def evictPass : ℕ × List (Fin n) → (Option (Fin n) × Bcache D n) ⊕ (ℕ × List (Fin n))
  | (_, []) => .inl (none, c)
  | (k, i :: rest) =>
    if (c.bufs i).refcount = 0 then
      if (c.bufs i).dirty then
        if fails k then .inr (k + 1, i :: rest) else .inl (some i, c.writeOut i)
      else .inl (some i, c)
    else .inr (k, rest)

/-- A read miss. -/
def readMiss (s fuel : ℕ) : Option (Option (Fin n) × Bcache D n) :=
  (Loop.run (evictPass fails c) fuel (0, c.lru.reverse)).map fun r ↦
    r.1.elim (none, r.2) fun i ↦ r.2.fill i s

/-- The buffer that is given up is clean, what it held is on the disk, and the other buffers are as
before. -/
def NothingLost (r : Option (Fin n) × Bcache D n) : Prop :=
  (∀ i, r.1 = some i → (c.bufs i).refcount = 0 ∧ (r.2.bufs i).dirty = false ∧
    ((c.bufs i).dirty = true → r.2.disk (c.bufs i).sector = (c.bufs i).data)) ∧
  ∀ j, r.1 ≠ some j → r.2.bufs j = c.bufs j

/-- The loop ends, nothing is lost, and a read miss returns. -/
def EvictLaw : Prop :=
  (∃ fuel r, Loop.run (evictPass fails c) fuel (0, c.lru.reverse) = some r ∧ c.NothingLost r) ∧
  ∀ s, ∃ fuel, (readMiss fails c s fuel).isSome

variable {fails c} {k k' : ℕ} {l l' : List (Fin n)} {i : Fin n}

/-- What a trip that goes back has found. -/
theorem evictPass_inr (h : evictPass fails c (k, l) = .inr (k', l')) :
    (∃ i rest, l = i :: rest ∧ (c.bufs i).refcount = 0 ∧ (c.bufs i).dirty = true ∧
      fails k = true ∧ k' = k + 1 ∧ l' = l) ∨
    ∃ i, l = i :: l' ∧ (c.bufs i).refcount ≠ 0 ∧ k' = k := by
  cases l with
  | nil => cases h
  | cons i rest =>
    rw [evictPass] at h
    split_ifs at h with hi hd hf
    · cases h
      exact .inl ⟨i, rest, rfl, hi, hd, hf, rfl, rfl⟩
    · cases h
      exact .inr ⟨i, rfl, hi, rfl⟩

theorem evictPass_inl {t : ℕ × List (Fin n)} {r : Option (Fin n) × Bcache D n}
    (h : evictPass fails c t = .inl r) : c.NothingLost r := by
  obtain ⟨k, l⟩ := t
  cases l with
  | nil =>
    cases h
    exact ⟨nofun, fun _ _ ↦ rfl⟩
  | cons i rest =>
    rw [evictPass] at h
    split_ifs at h with hi hd hf <;> cases h
    · refine ⟨?_, fun j hj ↦ bufs_writeOut_ne c fun h ↦ hj (congrArg some h.symm)⟩
      rintro _ ⟨⟩
      refine ⟨hi, ?_, fun _ ↦ Function.update_self ..⟩
      rw [bufs_writeOut_self]
    · refine ⟨?_, fun _ _ ↦ rfl⟩
      rintro _ ⟨⟩
      exact ⟨hi, eq_false_of_ne_true hd, fun h ↦ absurd h hd⟩

/-- Where the loop ends, the buffer stays the first one that nobody holds until it is written. -/
theorem EvictLaw.exists_write (h : EvictLaw fails c) (hi : c.victim = some i)
    (hd : (c.bufs i).dirty = true) : ∃ k, fails k = false := by
  obtain ⟨⟨fuel, r, hrun, -⟩, -⟩ := h
  obtain ⟨⟨k, l⟩, hvis, hr⟩ := Loop.exists_visits_of_run hrun
  have hfirst : l.find? (fun i ↦ (c.bufs i).refcount = 0) = some i := by
    refine hvis.invariant (P := fun t ↦ t.2.find? (fun i ↦ (c.bufs i).refcount = 0) = some i) hi ?_
    rintro ⟨k, l⟩ ⟨k', l'⟩ hl hp
    obtain ⟨_, _, -, -, -, -, -, rfl⟩ | ⟨j, rfl, hj, -⟩ := evictPass_inr hp
    · exact hl
    · rwa [find?_cons_of_neg (by simpa using hj)] at hl
  cases l with
  | nil => cases hfirst
  | cons j rest =>
    rw [evictPass] at hr
    split_ifs at hr with hj hdj hf
    · exact ⟨k, eq_false_of_ne_true hf⟩
    · rw [find?_cons_of_pos (by simpa using hj)] at hfirst
      cases hfirst
      exact absurd hd hdj

theorem terminates_evictPass {m : ℕ}
    (hm : ∀ i, c.victim = some i → (c.bufs i).dirty = true → fails m = false) :
    Loop.Terminates (evictPass fails c) (0, c.lru.reverse) := by
  refine Loop.terminates_of_measure (fun t ↦ ∀ i, t.2.find? (fun i ↦ (c.bufs i).refcount = 0) =
    some i → (c.bufs i).dirty = true → t.1 ≤ m ∧ fails m = false)
    (fun t ↦ (m - t.1) + t.2.length) ?_ fun i hi hd ↦ ⟨Nat.zero_le m, hm i hi hd⟩
  rintro ⟨k, l⟩ ⟨k', l'⟩ hl hp
  obtain ⟨j, rest, rfl, hj, hd, hf, rfl, rfl⟩ | ⟨j, rfl, hj, rfl⟩ := evictPass_inr hp
  · obtain ⟨hk, hm⟩ := hl j (find?_cons_of_pos (by simpa using hj)) hd
    have hne : k ≠ m := by
      rintro rfl
      cases hf.symm.trans hm
    refine ⟨fun _ _ _ ↦ ⟨Nat.lt_of_le_of_ne hk hne, hm⟩, ?_⟩
    dsimp only
    omega
  · rw [find?_cons_of_neg (by simpa using hj)] at hl
    exact ⟨hl, Nat.add_lt_add_left (Nat.lt_succ_self _) _⟩

/-- **Eviction** works exactly when the buffer that it comes to first is clean or the device takes a
write at last. -/
theorem evictLaw_iff (fails : ℕ → Bool) (c : Bcache D n) : EvictLaw fails c ↔
    ∀ i, c.victim = some i → (c.bufs i).dirty = true → ∃ k, fails k = false := by
  refine ⟨fun h i ↦ h.exists_write, fun h ↦ ?_⟩
  obtain ⟨m, hm⟩ : ∃ m, ∀ i, c.victim = some i → (c.bufs i).dirty = true → fails m = false := by
    by_cases hex : ∃ i, c.victim = some i ∧ (c.bufs i).dirty = true
    · obtain ⟨i, hi, hd⟩ := hex
      obtain ⟨m, hm⟩ := h i hi hd
      exact ⟨m, fun _ _ _ ↦ hm⟩
    · exact ⟨0, fun i hi hd ↦ absurd ⟨i, hi, hd⟩ hex⟩
  obtain ⟨fuel, hfuel⟩ := terminates_evictPass hm
  obtain ⟨r, hr⟩ := Option.isSome_iff_exists.mp hfuel
  obtain ⟨t, -, ht⟩ := Loop.exists_visits_of_run hr
  refine ⟨⟨fuel, r, hr, evictPass_inl ht⟩, fun s ↦ ⟨fuel, ?_⟩⟩
  rw [readMiss, hr]
  rfl

/-- **A device that takes no writes** stops the kernel in the loop, though another buffer could be
given up. -/
theorem not_evictLaw : ¬EvictLaw (fun _ ↦ true) (((init 2 0 (fun _ ↦ 0) []).setBuf 1 fun b ↦
    { b with valid := true, dirty := true }) : Bcache ℕ 2) := by
  intro h
  obtain ⟨k, hk⟩ := h.exists_write (i := 1) (by decide) (by decide)
  cases hk

end Bcache
end Mazu.Fs
