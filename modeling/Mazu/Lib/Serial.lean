import Mathlib.Data.BitVec

/-!
# Serial-number arithmetic

Counters that wrap at `2 ^ w` are compared through the sign of their difference. The comparison is
an order only locally: for two counters that lie within half the circle of a common base, it agrees
with the order of their distances from that base. This file states that agreement once, for every
width, in the two forms the users need.

* `diff_of_offset`: the signed difference of `b + m` and `b + n` is `m - n`.
* `window_iff`: for a window `[lo, hi]` shorter than half the circle, the sign tests
  `0 < x - lo` and `x - hi ≤ 0` say that `x` lies in `(lo, hi]`.
-/

namespace Mazu.Serial

open BitVec

variable {w : ℕ}

/-- The signed difference of two counters. -/
def diff (a b : BitVec w) : ℤ := (a - b).toInt

/-- The distance from `b` up to `a` along the circle. -/
def dist (b a : BitVec w) : ℕ := (a - b).toNat

theorem add_dist (b a : BitVec w) : b + BitVec.ofNat w (dist b a) = a := by
  rw [dist, ofNat_toNat, setWidth_eq, add_comm, sub_add_cancel]

@[simp] theorem dist_self (b : BitVec w) : dist b b = 0 := by simp [dist]

variable {b : BitVec w} {m n : ℕ} {x lo : BitVec (w + 1)}

theorem dist_eq_zero_iff {a : BitVec w} : dist b a = 0 ↔ a = b := by
  constructor
  · intro h
    have h' := add_dist b a
    rw [h, BitVec.add_zero] at h'
    exact h'.symm
  · rintro rfl
    exact dist_self _

theorem dist_lt (b a : BitVec w) : dist b a < 2 ^ w := (a - b).isLt

/-- The distance of an explicit offset. -/
theorem dist_add_ofNat (h : m < 2 ^ w) : dist b (b + BitVec.ofNat w m) = m := by
  rw [dist, add_comm, add_sub_cancel, toNat_ofNat, Nat.mod_eq_of_lt h]

/-- Offsets short of the whole circle are told apart. -/
theorem add_ofNat_inj (hm : m < 2 ^ w) (hn : n < 2 ^ w) :
    b + BitVec.ofNat w m = b + BitVec.ofNat w n ↔ m = n := by
  constructor
  · intro h
    have hd := congrArg (dist b) h
    rwa [dist_add_ofNat hm, dist_add_ofNat hn] at hd
  · rintro rfl
    rfl

private theorem add_sub_add_left (b x y : BitVec w) : b + x - (b + y) = x - y := by
  rw [sub_eq_add_neg, neg_add, sub_eq_add_neg, sub_eq_add_neg]
  rw [show b + x + (-b + -y) = (b + -b) + (x + -y) by ac_rfl, add_right_neg, BitVec.zero_add]

/-- **Agreement with the order of the offsets.** Two counters whose offsets from a common base
differ by less than half the circle compare as the offsets do. -/
theorem diff_of_offset (b : BitVec (w + 1)) (hlo : n ≤ m + 2 ^ w) (hhi : m < n + 2 ^ w) :
    diff (b + BitVec.ofNat (w + 1) m) (b + BitVec.ofNat (w + 1) n) = (m : ℤ) - n := by
  have hsub : BitVec.ofNat (w + 1) m - BitVec.ofNat (w + 1) n
      = BitVec.ofInt (w + 1) ((m : ℤ) - n) := by
    rw [Int.sub_eq_add_neg, ofInt_add, ofInt_neg, ofInt_natCast, ofInt_natCast, sub_eq_add_neg]
  have hpow : ((2 ^ (w + 1) : ℕ) : ℤ) = 2 * ((2 ^ w : ℕ) : ℤ) := by
    rw [Nat.pow_succ]
    omega
  rw [diff, add_sub_add_left, hsub, toInt_ofInt]
  apply Int.bmod_eq_of_le
  · rw [hpow]
    omega
  · rw [hpow]
    omega

/-- The same agreement, phrased with distances from the base. -/
theorem diff_eq_dist_sub_dist {b y : BitVec (w + 1)} (hlo : dist b y ≤ dist b x + 2 ^ w)
    (hhi : dist b x < dist b y + 2 ^ w) : diff x y = (dist b x : ℤ) - dist b y := by
  have h := diff_of_offset b hlo hhi
  rwa [add_dist, add_dist] at h

theorem diff_self (b : BitVec w) : diff b b = 0 := by simp [diff]

/-- An offset shorter than half the circle is the difference it makes. -/
theorem diff_add_ofNat {b : BitVec (w + 1)} (h : n < 2 ^ w) :
    diff (b + BitVec.ofNat (w + 1) n) b = n := by
  have hd := diff_of_offset b (m := n) (n := 0) (Nat.zero_le _) (by omega)
  rw [BitVec.add_zero] at hd
  omega

theorem ofInt_diff (a b : BitVec w) : BitVec.ofInt w (diff a b) = a - b := ofInt_toInt

/-- The sign of a difference is positive exactly on the half circle ahead. -/
theorem diff_pos_iff : 0 < diff x lo ↔ 0 < dist lo x ∧ dist lo x < 2 ^ w := by
  have hlt : dist lo x < 2 ^ (w + 1) := dist_lt lo x
  have hpow : 2 ^ (w + 1) = 2 * 2 ^ w := by rw [Nat.pow_succ]; omega
  rw [diff, toInt_eq_toNat_cond, ← dist, hpow]
  rw [hpow] at hlt
  generalize 2 ^ w = k at hlt ⊢
  split <;> omega

/-- The same half circle, with the counter itself. -/
theorem diff_nonneg_iff : 0 ≤ diff x lo ↔ dist lo x < 2 ^ w := by
  have hlt : dist lo x < 2 ^ (w + 1) := dist_lt lo x
  have hpow : 2 ^ (w + 1) = 2 * 2 ^ w := by rw [Nat.pow_succ]; omega
  rw [diff, toInt_eq_toNat_cond, ← dist, hpow]
  rw [hpow] at hlt
  generalize 2 ^ w = k at hlt ⊢
  split <;> omega

/-- **The window test.** For a window `[lo, hi]` shorter than half the circle, the two sign tests
say exactly that `x` lies in `(lo, hi]`. -/
theorem window_iff {hi : BitVec (w + 1)} (h : dist lo hi < 2 ^ w) :
    (0 < diff x lo ∧ diff x hi ≤ 0) ↔ (0 < dist lo x ∧ dist lo x ≤ dist lo hi) := by
  rw [diff_pos_iff]
  constructor
  · rintro ⟨⟨hpos, hlt⟩, hle⟩
    have hd := diff_eq_dist_sub_dist (b := lo) (x := x) (y := hi) (by omega) (by omega)
    rw [hd] at hle
    exact ⟨hpos, by omega⟩
  · rintro ⟨hpos, hle⟩
    have hd := diff_eq_dist_sub_dist (b := lo) (x := x) (y := hi) (by omega) (by omega)
    rw [hd]
    exact ⟨⟨hpos, by omega⟩, by omega⟩

/-- Moving the lower end of a window up shortens it by as much. -/
theorem dist_of_mem {x lo hi : BitVec w} (h : dist lo x ≤ dist lo hi) :
    dist x hi = dist lo hi - dist lo x := by
  have hlt := dist_lt lo hi
  have hx := add_dist lo x
  have hhi := add_dist lo hi
  generalize dist lo x = m at h hx ⊢
  generalize dist lo hi = n at h hlt hhi ⊢
  have hsum : hi = x + BitVec.ofNat w (n - m) := by
    rw [← hx, ← hhi, add_assoc, ← ofNat_add, Nat.add_sub_cancel' h]
  rw [hsum]
  exact dist_add_ofNat (by omega)

/-- Moving the upper end of a window up lengthens it by as much, short of the whole circle. -/
theorem dist_add_right {lo hi : BitVec w} (h : dist lo hi + m < 2 ^ w) :
    dist lo (hi + BitVec.ofNat w m) = dist lo hi + m := by
  have hhi := add_dist lo hi
  generalize dist lo hi = n at h hhi ⊢
  rw [← hhi, add_assoc, ← ofNat_add]
  exact dist_add_ofNat h

end Mazu.Serial
