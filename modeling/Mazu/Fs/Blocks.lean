import Mazu.Fs.Bcache

/-!
# Programs over cached blocks

What a file system does is a tree of block accesses: it reads a sector, which pins it, changes it in
place and marks it, releases it, or syncs the cache. The same tree has a meaning over a plain array
of sectors and a meaning over the cache, and the two agree where every read finds room and only held
buffers are changed (`Prog.exec_eq_run`).
-/

namespace Mazu.Fs

/-- A read that fails gives `none`, a sync whether it went through. -/
inductive Prog (D α : Type) : Type
  | ret (a : α)
  | read (s : ℕ) (k : Option D → Prog D α)
  | update (s : ℕ) (f : D → D) (m : Mark) (k : Prog D α)
  | release (s : ℕ) (k : Prog D α)
  | sync (k : Bool → Prog D α)

namespace Prog

variable {D α β : Type} {n : ℕ}

def bind : Prog D α → (α → Prog D β) → Prog D β
  | .ret a, g => g a
  | .read s k, g => .read s fun r ↦ (k r).bind g
  | .update s f m k, g => .update s f m (k.bind g)
  | .release s k, g => .release s (k.bind g)
  | .sync k, g => .sync fun r ↦ (k r).bind g

instance : Monad (Prog D) where
  pure := .ret
  bind := .bind

/-- Over an array. -/
def run : Prog D α → (ℕ → D) → α × (ℕ → D)
  | .ret a, d => (a, d)
  | .read s k, d => (k (some (d s))).run d
  | .update s f _ k, d => k.run (Function.update d s (f (d s)))
  | .release _ k, d => k.run d
  | .sync k, d => (k true).run d

@[simp] theorem run_pure (a : α) (d : ℕ → D) : (pure a : Prog D α).run d = (a, d) := rfl

@[simp] theorem run_bind (p : Prog D α) (g : α → Prog D β) (d : ℕ → D) :
    (p >>= g).run d = (g (p.run d).1).run (p.run d).2 := by
  induction p generalizing d with
  | ret a => rfl
  | read s k ih | sync k ih => exact ih _ _
  | update s f m k ih | release s k ih => exact ih _

/-- Over the cache. The buffer that is held for a sector is the one that shows it. -/
def exec : Prog D α → Bcache D n → α × Bcache D n
  | .ret a, c => (a, c)
  | .read s k, c => (k ((c.read s).1.map fun i ↦ ((c.read s).2.bufs i).data)).exec (c.read s).2
  | .update s f m k, c => k.exec ((c.lookup s).elim c fun i ↦ c.update i f m)
  | .release s k, c => k.exec ((c.lookup s).elim c c.release)
  | .sync k, c => (k c.sync.1).exec c.sync.2

end Prog

/-- An access, for conditions on it. -/
inductive Access
  | read (s : ℕ)
  | update (s : ℕ) (m : Mark)
  | release (s : ℕ)
  | sync

namespace Prog

variable {D α : Type} {n : ℕ}

/-- Every access of the program meets the condition in the state that it finds. -/
def Along (K : Bcache D n → Access → Prop) : Prog D α → Bcache D n → Prop
  | .ret _, _ => True
  | .read s k, c => K c (.read s) ∧
    (k ((c.read s).1.map fun i ↦ ((c.read s).2.bufs i).data)).Along K (c.read s).2
  | .update s f m k, c => K c (.update s m) ∧
    k.Along K ((c.lookup s).elim c fun i ↦ c.update i f m)
  | .release s k, c => K c (.release s) ∧ k.Along K ((c.lookup s).elim c c.release)
  | .sync k, c => K c .sync ∧ (k c.sync.1).Along K c.sync.2

end Prog

variable {D α : Type} {n : ℕ}

/-! ## The array and the cache -/

def Bcache.Holds (c : Bcache D n) (s : ℕ) : Prop :=
  ∃ i, c.lookup s = some i ∧ 0 < (c.bufs i).refcount

/-- Reads find room, and what is held is changed and marked dirty, or released. -/
def Bcache.Proper (c : Bcache D n) : Access → Prop
  | .read s => c.Room s
  | .update s m => c.Holds s ∧ m ≠ .metaOnly
  | .release s => c.Holds s
  | .sync => True

/-- **A program over the cache does what it does over the array.** -/
theorem Prog.exec_eq_run (p : Prog D α) {c : Bcache D n} {d : ℕ → D} {asked : Fin n → ℕ}
    (h : Coherent ⟨c, d, asked⟩) (hp : p.Along Bcache.Proper c) :
    (p.exec c).1 = (p.run d).1 ∧ ∃ asked', Coherent ⟨(p.exec c).2, (p.run d).2, asked'⟩ := by
  induction p generalizing c d asked with
  | ret a => exact ⟨rfl, asked, h⟩
  | read s k ih =>
    obtain ⟨i, hi, -, hdata, hcoh⟩ := h.read hp.1
    have hrest := hp.2
    simp only [hi, Option.map_some, hdata] at hrest
    simp only [Prog.exec, hi, Option.map_some, hdata]
    exact ih _ hcoh hrest
  | update s f m k ih =>
    obtain ⟨⟨⟨i, hl, hi⟩, hm⟩, hrest⟩ := hp
    have hs : asked i = s :=
      (h.held i hi).2.symm.trans (Coherent.lookup_eq_some hl).2
    have hcoh := h.update f hm hi
    rw [hl] at hrest
    rw [Prog.exec, hl, ← hs]
    exact ih hcoh hrest
  | release s k ih =>
    obtain ⟨⟨i, hl, hi⟩, hrest⟩ := hp
    rw [hl] at hrest
    rw [Prog.exec, hl]
    exact ih (h.release hi) hrest
  | sync k ih =>
    obtain ⟨hok, hcoh, -⟩ := h.sync
    have hrest := hp.2
    rw [hok] at hrest
    rw [Prog.exec, hok]
    exact ih _ hcoh hrest

/-- A sector is read, changed and released, and the cache is synced. -/
theorem Prog.exec_eq_run_sync :
    let p : Prog ℕ Bool := .read 5 fun _ ↦ .update 5 (· + 1) .dirty (.release 5 (.sync .ret))
    (p.exec (Bcache.init 2 0 (fun _ ↦ 0) [])).1 = (p.run fun _ ↦ 0).1 := by
  refine (Prog.exec_eq_run _ (Coherent.init 0 fun _ ↦ 0) ?_).1
  exact ⟨⟨0, rfl⟩, ⟨⟨1, rfl, by decide⟩, nofun⟩, ⟨1, rfl, by decide⟩, trivial, trivial⟩

/-! ## Data before metadata -/

/-- A miss does not take the buffer of dirty metadata while data that became dirty before it is
still dirty. -/
def Bcache.Orderly (c : Bcache D n) : Access → Prop
  | .read s => c.lookup s = none → ∀ v, c.victim = some v → (c.bufs v).dirty = true →
      ¬ c.Overtakes v
  | _ => True

def Bcache.Ordered (c : Bcache D n) : Prop := ∀ w ∈ c.log, w.overtakes = false

namespace Bcache

variable {c : Bcache D n} {i : Fin n}

theorem log_update (f : D → D) (m : Mark) : (c.update i f m).log = c.log := by
  cases m <;> simp only [update, markDirty] <;> first | rfl | split_ifs <;> rfl

theorem ordered_writeOut : (c.writeOut i).Ordered ↔ c.Ordered ∧ ¬ c.Overtakes i := by
  simp only [Ordered, writeOut, List.mem_append, List.mem_singleton, or_imp, forall_and,
    forall_eq, decide_eq_false_iff_not]

theorem ordered_read (s : ℕ) : (c.read s).2.Ordered ↔ c.Ordered ∧ c.Orderly (.read s) := by
  rw [read, Orderly]
  cases hl : c.lookup s with
  | some i =>
    refine (and_iff_left fun hn ↦ ?_).symm
    cases hn
  | none =>
    cases hv : c.victim with
    | none =>
      refine (and_iff_left fun _ v hv ↦ ?_).symm
      cases hv
    | some v =>
      have hfill : ∀ c' : Bcache D n, (c'.fill v s).2.Ordered ↔ c'.Ordered := by
        intro c'
        rw [fill]
        split_ifs <;> exact Iff.rfl
      rw [hfill, evict]
      split_ifs with hd
      · refine ordered_writeOut.trans (and_congr_right fun _ ↦ ⟨?_, fun h ↦ h rfl v rfl hd⟩)
        rintro ho - _ ⟨⟩ -
        exact ho
      · refine (and_iff_left ?_).symm
        rintro - _ ⟨⟩ hd'
        exact absurd hd' hd

theorem ordered_flushPass (m : Bool) : ∀ (is : List (Fin n)) {c : Bcache D n},
    (m = true → ∀ j, (c.bufs j).dirty = true → (c.bufs j).isMeta = true) →
    ((c.flushPass m is).2.Ordered ↔ c.Ordered)
  | [], _, _ => Iff.rfl
  | i :: is, c, h => by
    rw [flushPass]
    split_ifs with hi hf
    · exact Iff.rfl
    · have hno : ¬ c.Overtakes i := by
        rintro ⟨hmeta, j, hd, hdata, -⟩
        cases (h (hi.2.symm.trans hmeta) j hd).symm.trans hdata
      refine (ordered_flushPass m is ?_).trans (ordered_writeOut.trans (and_iff_left hno))
      intro hm j
      by_cases hj : j = i
      · rw [hj, bufs_writeOut_self]
        exact Bool.noConfusion
      · rw [bufs_writeOut_ne _ hj]
        exact h hm j
    · exact ordered_flushPass m is h

/-- The first pass of a sync leaves no dirty data for the second to overtake. -/
theorem ordered_sync : c.sync.2.Ordered ↔ c.Ordered := by
  rw [sync]
  split_ifs with hok
  · refine (ordered_flushPass true _ fun _ j hd ↦ ?_).trans (ordered_flushPass false _ Bool.noConfusion)
    obtain ⟨-, hmem, hmeta⟩ := flushPass_dirty false _ hd
    rw [hmeta]
    exact Bool.not_eq_false _ ▸ fun hm ↦ hmem hok hm (List.mem_finRange j)
  · exact ordered_flushPass false _ Bool.noConfusion

end Bcache

/-- **Data goes before metadata exactly where every miss is orderly.** -/
theorem Prog.ordered_exec (p : Prog D α) {c : Bcache D n} :
    (p.exec c).2.Ordered ↔ c.Ordered ∧ p.Along Bcache.Orderly c := by
  induction p generalizing c with
  | ret a => exact (and_iff_left trivial).symm
  | read s k ih =>
    exact (ih _).trans ((and_congr_left' (Bcache.ordered_read s)).trans and_assoc)
  | update s f m k ih =>
    refine ih.trans (Iff.trans (and_congr_left' ?_) (and_congr_right' (and_iff_right trivial).symm))
    cases c.lookup s with
    | none => exact Iff.rfl
    | some i => rw [Bcache.Ordered, Option.elim_some, Bcache.log_update, Bcache.Ordered]
  | release s k ih =>
    refine ih.trans (Iff.trans (and_congr_left' ?_) (and_congr_right' (and_iff_right trivial).symm))
    cases c.lookup s with
    | none | some i => exact Iff.rfl
  | sync k ih =>
    exact (ih _).trans (Iff.trans (and_congr_left' Bcache.ordered_sync)
      (and_congr_right' (and_iff_right trivial).symm))

end Mazu.Fs
