import Mathlib.Data.BitVec
import Mathlib.Data.Nat.ModEq

/-!
# Ones' complement sums

Adding words with an end-around carry computes modulo `2 ^ w - 1`, except that zero has two
representations: a sum of words is the zero word only when every summand is. A word *represents* a
number when it has the same residue and is zero at the same time. Carrying keeps what is
represented, and a number together with the complement of its representation sums to all ones.
-/

namespace Mazu.OnesSum

open List BitVec

variable {w : ℕ}

/-- The word is a ones' complement sum of the number. -/
structure Represents (x : BitVec w) (n : ℕ) : Prop where
  mod : x.toNat ≡ n [MOD 2 ^ w - 1]
  zero : x = 0#w ↔ n = 0

theorem represents_zero : Represents (0#w) 0 := ⟨by rw [toNat_zero], by simp⟩

/-- One end-around carry. -/
theorem carry_modEq (n : ℕ) : n % 2 ^ w + n / 2 ^ w ≡ n [MOD 2 ^ w - 1] := by
  have hone : 2 ^ w ≡ 1 [MOD 2 ^ w - 1] := by
    have h : 2 ^ w - 1 + 1 = 2 ^ w := Nat.sub_add_cancel Nat.one_le_two_pow
    calc 2 ^ w = 2 ^ w - 1 + 1 := h.symm
      _ ≡ 0 + 1 [MOD 2 ^ w - 1] := Nat.ModEq.add_right 1 (Nat.modulus_modEq_zero)
  calc n % 2 ^ w + n / 2 ^ w
      = n % 2 ^ w + 1 * (n / 2 ^ w) := by rw [Nat.one_mul]
    _ ≡ n % 2 ^ w + 2 ^ w * (n / 2 ^ w) [MOD 2 ^ w - 1] :=
        Nat.ModEq.add_left _ (Nat.ModEq.mul_right _ hone.symm)
    _ = n := Nat.mod_add_div n (2 ^ w)

theorem carry_eq_zero_iff {n : ℕ} : n % 2 ^ w + n / 2 ^ w = 0 ↔ n = 0 := by
  constructor
  · intro h
    have hmod := Nat.mod_add_div n (2 ^ w)
    rw [(Nat.add_eq_zero_iff.mp h).1, (Nat.add_eq_zero_iff.mp h).2] at hmod
    simpa using hmod.symm
  · rintro rfl
    simp

/-- **The check of a receiver.** What the complement completes is all ones. -/
theorem Represents.complement {x y : BitVec w} {n : ℕ} (hx : Represents x n) (hn : n ≠ 0)
    (hy : Represents y (n + (~~~x).toNat)) : ~~~y = 0#w := by
  have hylt := y.isLt
  have hcomp : (~~~x).toNat = 2 ^ w - 1 - x.toNat := by
    rw [toNat_not]
  have hzero : y.toNat ≡ 0 [MOD 2 ^ w - 1] := by
    calc y.toNat ≡ n + (~~~x).toNat [MOD 2 ^ w - 1] := hy.mod
      _ ≡ x.toNat + (~~~x).toNat [MOD 2 ^ w - 1] := Nat.ModEq.add_right _ hx.mod.symm
      _ = 2 ^ w - 1 := by omega
      _ ≡ 0 [MOD 2 ^ w - 1] := Nat.modulus_modEq_zero
  have hne : y.toNat ≠ 0 := by
    intro h
    have hy0 : y = 0#w := eq_of_toNat_eq (by rw [h, toNat_zero])
    have hsum := hy.zero.mp hy0
    omega
  have hones : y.toNat = 2 ^ w - 1 :=
    le_antisymm (by omega)
      (Nat.le_of_dvd (Nat.pos_of_ne_zero hne) ((Nat.modEq_zero_iff_dvd).mp hzero))
  apply eq_of_toNat_eq
  rw [toNat_not, toNat_zero]
  omega

/-! ## Sixteen-bit words of a byte string -/

/-- The sum of the words of a byte string, low byte first. A last single byte counts as it is. -/
def wordSum : List (BitVec 8) → ℕ
  | [] => 0
  | [b] => b.toNat
  | b₀ :: b₁ :: rest => b₀.toNat + 256 * b₁.toNat + wordSum rest

/-- Strings join at word boundaries. -/
theorem wordSum_append (xs ys : List (BitVec 8)) (h : xs.length % 2 = 0) :
    wordSum (xs ++ ys) = wordSum xs + wordSum ys := by
  induction xs using wordSum.induct with
  | case1 => rw [nil_append, wordSum, Nat.zero_add]
  | case2 b => simp at h
  | case3 b₀ b₁ rest ih =>
    have hrest : rest.length % 2 = 0 := by
      simp only [length_cons] at h
      omega
    rw [List.cons_append, List.cons_append, wordSum, wordSum, ih hrest, ← Nat.add_assoc]

theorem wordSum_le (xs : List (BitVec 8)) : wordSum xs ≤ 65535 * ((xs.length + 1) / 2) := by
  induction xs using wordSum.induct with
  | case1 => exact Nat.zero_le _
  | case2 b =>
    rw [wordSum, length_singleton]
    omega
  | case3 b₀ b₁ rest ih =>
    have hb₁ := b₁.isLt
    rw [wordSum, length_cons, length_cons]
    omega

end Mazu.OnesSum
