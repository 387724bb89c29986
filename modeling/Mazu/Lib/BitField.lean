import Mathlib.Data.BitVec

/-!
# Fields of packed words

A word packed with shifts and masks is read bit by bit: a mask of `n` ones lets the low `n` bits
through, and a field is what a shift and a mask leave of the word.
-/

namespace Mazu.BitField

open BitVec

variable {w : ℕ}

/-- A mask has its low bits set. -/
theorem getLsbD_mask (w n j : ℕ) :
    (BitVec.ofNat w (2 ^ n - 1)).getLsbD j = (decide (j < w) && decide (j < n)) := by
  rw [getLsbD_ofNat, Nat.testBit_two_pow_sub_one]

/-- **Reading a field.** Bit `j` of the field of `n` bits at `s` is bit `s + j` of the word. -/
theorem getLsbD_field (x : BitVec w) (s n m j : ℕ) :
    ((x >>> s &&& BitVec.ofNat w (2 ^ n - 1)).setWidth m).getLsbD j =
      (decide (j < m) && decide (j < n) && x.getLsbD (s + j)) := by
  rw [getLsbD_setWidth, getLsbD_and, getLsbD_ushiftRight, getLsbD_mask]
  by_cases hj : j < w
  · grind
  · have hx : x.getLsbD (s + j) = false := getLsbD_of_ge _ _ (by omega)
    rw [hx, Bool.false_and, Bool.and_false, Bool.and_false]

/-- Masking keeps the low bits. -/
theorem getLsbD_and_mask (x : BitVec w) (n j : ℕ) :
    (x &&& BitVec.ofNat w (2 ^ n - 1)).getLsbD j = (decide (j < n) && x.getLsbD j) := by
  rw [getLsbD_and, getLsbD_mask]
  by_cases hj : j < w
  · grind
  · rw [getLsbD_of_ge x j (by omega), Bool.false_and, Bool.and_false]

end Mazu.BitField
