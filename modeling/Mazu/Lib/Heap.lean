import Mathlib.Logic.Equiv.Basic
import Mathlib.Order.Lattice
import Mathlib.Order.Nat
import Mathlib.Tactic.Set

/-!
# Binary min-heaps by bottom-up heapification

An implicit binary tree over the first `n` places of an array, with the children of `i` at
`2 * i + 1` and `2 * i + 2`. `siftDown` pushes the element at one place down until neither child is
smaller, and `heapify` sifts every inner place from the last to the first.

The invariant of the outer loop is `OrderedFrom n h k`: every place from `k` on is no larger than
its children. `siftDown` extends it by one place; the extra hypothesis `hgrand` of
`siftDown_ordered`, that the parent of the hole is already no larger than the children of the hole,
is what survives each swap. The result is `heapify_root_le`: the root is a least element.
-/

namespace Mazu.Heap

open Function

variable {α β : Type*} [LinearOrder β] (key : α → β)

/-- `c` is a child of `p` in the implicit tree. -/
def IsChild (c p : ℕ) : Prop := c = 2 * p + 1 ∨ c = 2 * p + 2

/-- The place of the least of `i` and its children, the left child tried first. -/
def minChild (n : ℕ) (h : ℕ → α) (i : ℕ) : ℕ :=
  let min := if 2 * i + 1 < n ∧ key (h (2 * i + 1)) < key (h i) then 2 * i + 1 else i
  if 2 * i + 2 < n ∧ key (h (2 * i + 2)) < key (h min) then 2 * i + 2 else min

/-- Exchange the elements at two places. -/
def swap (h : ℕ → α) (i j : ℕ) : ℕ → α := h ∘ Equiv.swap i j

variable {key} {n : ℕ} {h : ℕ → α} {i : ℕ}

theorem minChild_eq_or (key : α → β) (n : ℕ) (h : ℕ → α) (i : ℕ) :
    minChild key n h i = i ∨ (IsChild (minChild key n h i) i ∧ minChild key n h i < n) := by
  rw [minChild]
  split_ifs with h1 h2 h3
  · exact .inr ⟨.inr rfl, h2.1⟩
  · exact .inr ⟨.inl rfl, h1.1⟩
  · exact .inr ⟨.inr rfl, h3.1⟩
  · exact .inl rfl

theorem minChild_lt_of_ne (hne : minChild key n h i ≠ i) :
    i < minChild key n h i ∧ minChild key n h i < n := by
  rcases minChild_eq_or key n h i with heq | ⟨hc | hc, hlt⟩
  · exact absurd heq hne
  · exact ⟨by omega, hlt⟩
  · exact ⟨by omega, hlt⟩

/-- The chosen place holds a least element among the node and its children. -/
theorem key_minChild_le (key : α → β) (n : ℕ) (h : ℕ → α) (i : ℕ) :
    key (h (minChild key n h i)) ≤ key (h i) ∧
      ∀ c, IsChild c i → c < n → key (h (minChild key n h i)) ≤ key (h c) := by
  rw [minChild]
  split_ifs with h1 h2 h3
  · refine ⟨(h2.2.trans h1.2).le, ?_⟩
    rintro c (rfl | rfl) _
    · exact h2.2.le
    · exact le_refl _
  · refine ⟨h1.2.le, ?_⟩
    rintro c (rfl | rfl) hc
    · exact le_refl _
    · exact not_lt.mp fun hlt ↦ h2 ⟨hc, hlt⟩
  · refine ⟨h3.2.le, ?_⟩
    rintro c (rfl | rfl) hc
    · exact h3.2.le.trans (not_lt.mp fun hlt ↦ h1 ⟨hc, hlt⟩)
    · exact le_refl _
  · refine ⟨le_refl _, ?_⟩
    rintro c (rfl | rfl) hc
    · exact not_lt.mp fun hlt ↦ h1 ⟨hc, hlt⟩
    · exact not_lt.mp fun hlt ↦ h3 ⟨hc, hlt⟩

/-- Push the element at `i` down until neither child is smaller. -/
def siftDown (key : α → β) (n : ℕ) (h : ℕ → α) (i : ℕ) : ℕ → α :=
  if _hne : minChild key n h i = i then h
  else siftDown key n (swap h i (minChild key n h i)) (minChild key n h i)
termination_by n - i
decreasing_by
  have := minChild_lt_of_ne _hne
  omega

/-- Sift every place below `i`, the last one first. -/
def heapifyFrom (key : α → β) (n : ℕ) (h : ℕ → α) : ℕ → ℕ → α
  | 0 => h
  | i + 1 => heapifyFrom key n (siftDown key n h i) i

/-- Bottom-up heapification of the first `n` places. -/
def heapify (key : α → β) (n : ℕ) (h : ℕ → α) : ℕ → α := heapifyFrom key n h (n / 2)

/-! ## The order -/

/-- The element at `p` is no larger than its children. -/
def OrderedAt (key : α → β) (n : ℕ) (h : ℕ → α) (p : ℕ) : Prop :=
  ∀ c, IsChild c p → c < n → key (h p) ≤ key (h c)

def OrderedFrom (key : α → β) (n : ℕ) (h : ℕ → α) (k : ℕ) : Prop :=
  ∀ p, k ≤ p → OrderedAt key n h p

theorem swap_left (h : ℕ → α) (i j : ℕ) : swap h i j i = h j := by
  rw [swap, comp_apply, Equiv.swap_apply_left]

theorem swap_right (h : ℕ → α) (i j : ℕ) : swap h i j j = h i := by
  rw [swap, comp_apply, Equiv.swap_apply_right]

theorem swap_of_ne {j p : ℕ} (hi : p ≠ i) (hj : p ≠ j) : swap h i j p = h p := by
  rw [swap, comp_apply, Equiv.swap_apply_of_ne_of_ne hi hj]

/-- One swap moves the hole from `i` to its least child and restores the order at `i`. -/
private theorem orderedAt_swap {k : ℕ} (hok : ∀ p, k ≤ p → p ≠ i → OrderedAt key n h p)
    (hgrand : ∀ p c, k ≤ p → IsChild i p → IsChild c i → c < n → key (h p) ≤ key (h c))
    (hne : minChild key n h i ≠ i) {p : ℕ} (hp : k ≤ p) (hpm : p ≠ minChild key n h i) :
    OrderedAt key n (swap h i (minChild key n h i)) p := by
  obtain ⟨hle, hleast⟩ := key_minChild_le key n h i
  have hm := (minChild_eq_or key n h i).resolve_left hne
  set m := minChild key n h i with hmdef
  intro c hc hcn
  by_cases hpi : p = i
  · subst hpi
    rw [swap_left]
    by_cases hcm : c = m
    · rw [hcm, swap_right]
      exact hle
    · rw [swap_of_ne (by rcases hc with rfl | rfl <;> omega) hcm]
      exact hleast c hc hcn
  · have hcm : c ≠ m := by
      rcases hm.1 with h1 | h1 <;> rcases hc with h2 | h2 <;> omega
    rw [swap_of_ne hpi hpm]
    by_cases hci : c = i
    · -- the parent of the hole now looks at the element that moved up
      subst hci
      rw [swap_left]
      exact hgrand p m hp hc hm.1 hm.2
    · rw [swap_of_ne hci hcm]
      exact hok p hp hpi c hc hcn

/-- **Sifting extends the order.** If every place from `k` on except the hole `i` is in order, and
the parent of the hole is no larger than the children of the hole, sifting repairs the hole. -/
theorem siftDown_ordered {k : ℕ} (hk : k ≤ i) (hok : ∀ p, k ≤ p → p ≠ i → OrderedAt key n h p)
    (hgrand : ∀ p c, k ≤ p → IsChild i p → IsChild c i → c < n → key (h p) ≤ key (h c)) :
    OrderedFrom key n (siftDown key n h i) k := by
  induction h, i using siftDown.induct key n with
  | case1 h i heq =>
    rw [siftDown, dif_pos heq]
    intro p hp
    by_cases hpi : p = i
    · subst hpi
      intro c hc hcn
      have hleast := (key_minChild_le key n h p).2 c hc hcn
      rwa [heq] at hleast
    · exact hok p hp hpi
  | case2 h i hne ih =>
    rw [siftDown, dif_neg hne]
    have hlt := minChild_lt_of_ne hne
    have hm := (minChild_eq_or key n h i).resolve_left hne
    refine ih (by omega) (fun p hp hpm ↦ orderedAt_swap hok hgrand hne hp hpm) ?_
    intro p c hp hmp hcm hcn
    -- the parent of the new hole is `i`, which holds what the new hole held before
    have hpi : p = i := by
      rcases hm.1 with h1 | h1 <;> rcases hmp with h2 | h2 <;> omega
    have hcne : c ≠ i ∧ c ≠ minChild key n h i := by
      rcases hcm with h1 | h1 <;> omega
    subst hpi
    rw [swap_left, swap_of_ne hcne.1 hcne.2]
    exact hok _ (by omega) hne c hcm hcn

theorem heapifyFrom_ordered {k : ℕ} (hord : OrderedFrom key n h k) :
    OrderedFrom key n (heapifyFrom key n h k) 0 := by
  induction k generalizing h with
  | zero => exact hord
  | succ k ih =>
    refine ih (siftDown_ordered (le_refl k) (fun p hp hpk ↦ hord p (by omega)) ?_)
    intro p c hp hkp
    rcases hkp with h1 | h1 <;> omega

theorem heapify_ordered (key : α → β) (n : ℕ) (h : ℕ → α) :
    OrderedFrom key n (heapify key n h) 0 := by
  apply heapifyFrom_ordered
  intro p hp c hc hcn
  rcases hc with rfl | rfl <;> omega

theorem root_le_of_ordered (hord : OrderedFrom key n h 0) {p : ℕ} (hp : p < n) :
    key (h 0) ≤ key (h p) := by
  induction p using Nat.strongRecOn with
  | ind p ih =>
    rcases Nat.eq_zero_or_pos p with rfl | hpos
    · exact le_refl _
    · have hchild : IsChild p ((p - 1) / 2) := by
        rw [IsChild]; omega
      exact (ih ((p - 1) / 2) (by omega) (by omega)).trans (hord _ (Nat.zero_le _) p hchild hp)

/-! ## The elements

Every step only exchanges elements below `n`, so the heap holds a rearrangement of the array. -/

/-- `h'` is a rearrangement of the first `n` places of `h`. -/
def Rearranges (n : ℕ) (h h' : ℕ → α) : Prop :=
  ∃ σ : Equiv.Perm ℕ, (∀ p, σ p < n ↔ p < n) ∧ h' = h ∘ σ

theorem Rearranges.refl (n : ℕ) (h : ℕ → α) : Rearranges n h h :=
  ⟨Equiv.refl ℕ, fun _ ↦ Iff.rfl, rfl⟩

theorem Rearranges.trans {h h' h'' : ℕ → α} (h1 : Rearranges n h h') (h2 : Rearranges n h' h'') :
    Rearranges n h h'' := by
  obtain ⟨σ, hσ, rfl⟩ := h1
  obtain ⟨τ, hτ, rfl⟩ := h2
  refine ⟨τ.trans σ, fun p ↦ ?_, rfl⟩
  rw [Equiv.trans_apply, hσ, hτ]

theorem rearranges_swap {j : ℕ} (hi : i < n) (hj : j < n) : Rearranges n h (swap h i j) := by
  refine ⟨Equiv.swap i j, fun p ↦ ?_, rfl⟩
  rcases eq_or_ne p i with rfl | hpi
  · rw [Equiv.swap_apply_left]
    exact ⟨fun _ ↦ hi, fun _ ↦ hj⟩
  · rcases eq_or_ne p j with rfl | hpj
    · rw [Equiv.swap_apply_right]
      exact ⟨fun _ ↦ hj, fun _ ↦ hi⟩
    · rw [Equiv.swap_apply_of_ne_of_ne hpi hpj]

theorem siftDown_rearranges (key : α → β) (n : ℕ) (h : ℕ → α) (i : ℕ) :
    Rearranges n h (siftDown key n h i) := by
  induction h, i using siftDown.induct key n with
  | case1 h i heq =>
    rw [siftDown, dif_pos heq]
    exact Rearranges.refl n h
  | case2 h i hne ih =>
    rw [siftDown, dif_neg hne]
    have hlt := minChild_lt_of_ne hne
    exact (rearranges_swap (by omega) hlt.2).trans ih

theorem heapify_rearranges (key : α → β) (n : ℕ) (h : ℕ → α) :
    Rearranges n h (heapify key n h) := by
  rw [heapify]
  generalize n / 2 = k
  induction k generalizing h with
  | zero => exact Rearranges.refl n h
  | succ k ih => exact (siftDown_rearranges key n h k).trans (ih _)

end Mazu.Heap
