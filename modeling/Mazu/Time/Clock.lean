import Mazu.Base

/-!
# The clock

`time_current_ms` scales the ticks since boot to milliseconds. The division by the rate of the
ticks is made once, at boot: each reading is a multiplication by a fixed-point fraction and a shift,
and saturates where the result does not fit. The clock does not go back as long as the ticks do not,
and with more than a thousand ticks a second it stays well short of the largest time stamp.
-/

namespace Mazu.Time

open BitVec

def timebaseFreqDefault : U64 := 10000000

/-- The rate that `time_init` settles on, with the one the device tree gives, zero for none. -/
def timebaseFreq (boardFreq : U64) : U64 := if boardFreq ≠ 0 then boardFreq else timebaseFreqDefault

/-- A fraction in fixed point, as `struct freq_frac`. -/
structure FreqFrac where
  mul : U64
  shift : ℕ

/-- The loop of `log2_floor`. A word is shifted to at most one in 63 trips. -/
def log2FloorLoop : ℕ → U64 → ℕ
  | 0, _ => 0
  | fuel + 1, x => if x > 1 then log2FloorLoop fuel (x >>> 1) + 1 else 0

def log2Floor (x : U64) : ℕ := log2FloorLoop 63 x

/-- `freq_frac_init`. The shift is clamped at zero, as the subtraction of natural numbers is. -/
def freqFracInit (numerator denominator : U64) : FreqFrac :=
  let shift := 63 - log2Floor numerator
  ⟨((numerator <<< shift) + denominator / 2) / denominator, shift⟩

/-- `freq_frac_apply`, with its intermediate result of 128 bits. -/
def freqFracApply (ff : FreqFrac) (ticks : U64) : U64 :=
  let product := (ff.mul.toNat * ticks.toNat) >>> ff.shift
  if product >>> 64 ≠ 0 then BitVec.allOnes 64 else BitVec.ofNat 64 product

/-- `time_current_ms`, of the ticks that have passed since boot. -/
def timeCurrentMs (boardFreq elapsed : U64) : U64 :=
  freqFracApply (freqFracInit 1000 (timebaseFreq boardFreq)) elapsed

/-- A reading, as a number. -/
theorem toNat_freqFracApply (ff : FreqFrac) (ticks : U64) :
    (freqFracApply ff ticks).toNat =
      min (ff.mul.toNat * ticks.toNat / 2 ^ ff.shift) (2 ^ 64 - 1) := by
  simp only [freqFracApply, Nat.shiftRight_eq_div_pow]
  generalize ff.mul.toNat * ticks.toNat / 2 ^ ff.shift = product
  split_ifs with hbig
  · rw [toNat_allOnes]
    omega
  · rw [toNat_ofNat]
    omega

/-- **The clock does not go back.** -/
theorem timeCurrentMs_mono (boardFreq : U64) {t t' : U64} (h : t ≤ t') :
    timeCurrentMs boardFreq t ≤ timeCurrentMs boardFreq t' := by
  rw [le_def, timeCurrentMs, timeCurrentMs, toNat_freqFracApply, toNat_freqFracApply]
  have hprod := Nat.mul_le_mul_left (freqFracInit 1000 (timebaseFreq boardFreq)).mul.toNat
    (le_def.mp h)
  exact min_le_min_right _ (Nat.div_le_div_right hprod)

theorem freqFracInit_thousand (freq : U64) :
    freqFracInit 1000 freq = ⟨(((1000 : U64) <<< 54) + freq / 2) / freq, 54⟩ := by
  have hlog : log2Floor 1000 = 9 := by decide
  rw [freqFracInit, hlog]

/-- The fraction is at most that of a thousand and one ticks a second. -/
theorem mul_le_of_thousand_lt {freq : U64} (h : 1000 < freq.toNat) :
    (freqFracInit 1000 freq).mul.toNat ≤ 1000 * 2 ^ 54 / 1001 + 1 := by
  have hconst : ((1000 : U64) <<< 54).toNat = 1000 * 2 ^ 54 := by decide
  rw [freqFracInit_thousand, toNat_udiv, toNat_add, toNat_udiv]
  refine Nat.le_of_lt_succ ((Nat.div_lt_iff_lt_mul (by omega)).mpr ?_)
  have hmod := Nat.mod_le (1000 * 2 ^ 54 + freq.toNat / (2 : U64).toNat) (2 ^ 64)
  have htwo : (2 : U64).toNat = 2 := rfl
  rw [htwo] at hmod ⊢
  omega

/-- **The clock stays short of the largest time stamp**, by more than any timer is set ahead. -/
theorem timeCurrentMs_lt {boardFreq : U64} (h : 1000 < (timebaseFreq boardFreq).toNat)
    (elapsed : U64) : (timeCurrentMs boardFreq elapsed).toNat + 30000 < 2 ^ 64 := by
  have hshift : (freqFracInit 1000 (timebaseFreq boardFreq)).shift = 54 := by
    rw [freqFracInit_thousand]
  have hmul := Nat.mul_le_mul (mul_le_of_thousand_lt h) elapsed.isLt.le
  rw [timeCurrentMs, toNat_freqFracApply, hshift]
  omega

example : timeCurrentMs 0 123456789 = 12345 := by decide

end Mazu.Time
