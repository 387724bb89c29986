import Mathlib.Algebra.Order.BigOperators.Group.Finset
import Mathlib.Data.Fintype.BigOperators

/-!
# Sums of which one term changes

A quantity kept per member of a finite type is added up over all members; an operation that changes
it for one member changes the sum by the same amount.
-/

namespace Mazu.Tally

variable {ι : Type*} [Fintype ι] [DecidableEq ι] {f g : ι → ℕ} {i : ι}

/-- **One term changes.** -/
theorem sum_add_of_eq_off (h : ∀ j ≠ i, f j = g j) : ∑ j, f j + g i = ∑ j, g j + f i := by
  have hrest : ∑ j ∈ Finset.univ.erase i, f j = ∑ j ∈ Finset.univ.erase i, g j :=
    Finset.sum_congr rfl fun j hj ↦ h j (Finset.ne_of_mem_erase hj)
  have hf := Finset.add_sum_erase Finset.univ f (Finset.mem_univ i)
  have hg := Finset.add_sum_erase Finset.univ g (Finset.mem_univ i)
  omega

omit [DecidableEq ι] in
theorem le_sum (f : ι → ℕ) (i : ι) : f i ≤ ∑ j, f j :=
  Finset.single_le_sum (fun _ _ ↦ Nat.zero_le _) (Finset.mem_univ i)

theorem add_le_sum (f : ι → ℕ) {i j : ι} (h : i ≠ j) : f i + f j ≤ ∑ k, f k := by
  rw [← Finset.add_sum_erase Finset.univ f (Finset.mem_univ i)]
  have hj : j ∈ Finset.univ.erase i := Finset.mem_erase.mpr ⟨h.symm, Finset.mem_univ j⟩
  exact Nat.add_le_add_left (Finset.single_le_sum (fun _ _ ↦ Nat.zero_le _) hj) _

end Mazu.Tally
