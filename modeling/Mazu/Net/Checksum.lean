import Mazu.Base
import Mazu.Lib.OnesSum

/-!
# The Internet checksum

`internet_checksum_iterate`, `internet_checksum_add` and `internet_checksum_finalize` of
`kernel/net/ip.c`. A `net_u16` is kept as the 16-bit word whose low byte is the first byte of the
wire, which is how the source reads and writes it on a little-endian machine.
-/

namespace Mazu.Net

open BitVec

/-- The running sum over the bytes, two at a time; a last single byte counts as it is. -/
def checksumSum (sum : U32) : List U8 → U32
  | [] => sum
  | [b] => sum + b.setWidth 32
  | b0 :: b1 :: rest => checksumSum (sum + (b0.setWidth 32 ||| (b1.setWidth 32 <<< 8))) rest

/-- One trip of `while (sum >> 16) sum = (sum & 0xffff) + (sum >> 16)`. -/
def checksumFoldStep (sum : U32) : U32 := (sum &&& 0xffff#32) + (sum >>> 16)

theorem checksumFoldStep_toNat (sum : U32) :
    (checksumFoldStep sum).toNat = sum.toNat % 2 ^ 16 + sum.toNat / 2 ^ 16 := by
  have hlo : (sum &&& 0xffff#32).toNat = sum.toNat % 2 ^ 16 := by
    exact Nat.and_two_pow_sub_one_eq_mod sum.toNat 16
  rw [checksumFoldStep, toNat_add, hlo, toNat_ushiftRight,
    Nat.shiftRight_eq_div_pow]
  exact Nat.mod_eq_of_lt (by omega)

theorem shift_eq_zero_iff (sum : U32) : sum >>> 16 = 0 ↔ sum.toNat < 2 ^ 16 := by
  rw [← toNat_inj, toNat_ushiftRight, Nat.shiftRight_eq_div_pow]
  exact Nat.div_eq_zero_iff_lt (by decide)

theorem checksumFoldStep_lt {sum : U32} (h : sum >>> 16 ≠ 0) :
    (checksumFoldStep sum).toNat < sum.toNat := by
  have hge : ¬sum.toNat < 2 ^ 16 := (shift_eq_zero_iff sum).not.mp h
  rw [checksumFoldStep_toNat]
  omega

/-- Fold the 32-bit sum into the 16-bit range. -/
def checksumFold (sum : U32) : U32 :=
  if _h : sum >>> 16 = 0 then sum else checksumFold (checksumFoldStep sum)
termination_by sum.toNat
decreasing_by exact checksumFoldStep_lt _h

def internetChecksumIterate (checksum : U16) (data : List U8) : U16 :=
  (checksumFold (checksumSum (checksum.setWidth 32) data)).setWidth 16

def internetChecksumAdd (a b : U16) : U16 :=
  (checksumFold (a.setWidth 32 + b.setWidth 32)).setWidth 16

def internetChecksumFinalize (sum : U16) : U16 := ~~~sum

/-! ## The words represent the sums -/

open OnesSum

/-- The sum of the words, as long as it fits. -/
theorem checksumSum_toNat (sum : U32) (data : List U8) (h : sum.toNat + wordSum data < 2 ^ 32) :
    (checksumSum sum data).toNat = sum.toNat + wordSum data := by
  fun_induction checksumSum sum data with
  | case1 sum => rfl
  | case2 sum b =>
    rw [wordSum] at h ⊢
    rw [toNat_add, toNat_setWidth_of_le (by decide), Nat.mod_eq_of_lt h]
  | case3 sum b₀ b₁ rest ih =>
    have hb₀ := b₀.isLt
    have hword : (b₀.setWidth 32 ||| b₁.setWidth 32 <<< 8).toNat
        = b₀.toNat + 256 * b₁.toNat := by
      rw [toNat_or, toNat_shiftLeft, toNat_setWidth_of_le (by decide),
        toNat_setWidth_of_le (by decide), Nat.shiftLeft_eq, Nat.mod_eq_of_lt (by omega),
        Nat.or_comm, Nat.mul_comm, ← Nat.two_pow_add_eq_or_of_lt hb₀, Nat.add_comm]
    rw [wordSum] at h ⊢
    have hsum : (sum + (b₀.setWidth 32 ||| b₁.setWidth 32 <<< 8)).toNat
        = sum.toNat + (b₀.toNat + 256 * b₁.toNat) := by
      rw [toNat_add, hword, Nat.mod_eq_of_lt (by omega)]
    omega

/-- Folding keeps what is represented. -/
theorem checksumFold_represents (sum : U32) :
    Represents ((checksumFold sum).setWidth 16) sum.toNat := by
  fun_induction checksumFold sum with
  | case1 sum h =>
    have hlt := (shift_eq_zero_iff sum).mp h
    have hnat : (sum.setWidth 16).toNat = sum.toNat := by
      rw [toNat_setWidth, Nat.mod_eq_of_lt hlt]
    refine ⟨by rw [hnat], ?_⟩
    rw [← toNat_inj, hnat, toNat_zero]
  | case2 sum h ih =>
    rw [checksumFoldStep_toNat] at ih
    exact ⟨ih.mod.trans (carry_modEq sum.toNat), ih.zero.trans carry_eq_zero_iff⟩

/-- **The checksum of a string** represents the sum of its words. The bound keeps the 32-bit sum
from overflowing; a datagram has half as many bytes. -/
theorem internetChecksumIterate_represents {checksum : U16} {n : ℕ} (h : Represents checksum n)
    (data : List U8) (hlen : data.length ≤ 131072) :
    Represents (internetChecksumIterate checksum data) (n + wordSum data) := by
  have hdata := wordSum_le data
  have hsum : (checksumSum (checksum.setWidth 32) data).toNat
      = checksum.toNat + wordSum data := by
    have hwide : (checksum.setWidth 32).toNat = checksum.toNat :=
      toNat_setWidth_of_le (by decide)
    rw [checksumSum_toNat _ _ (by rw [hwide]; omega), hwide]
  have hfold := checksumFold_represents (checksumSum (checksum.setWidth 32) data)
  rw [hsum] at hfold
  refine ⟨hfold.mod.trans (Nat.ModEq.add_right _ h.mod), hfold.zero.trans ?_⟩
  have hzero : checksum.toNat = 0 ↔ n = 0 := by
    rw [← h.zero, ← toNat_inj, toNat_zero]
  rw [Nat.add_eq_zero_iff, Nat.add_eq_zero_iff, hzero]

theorem internetChecksumAdd_zero_represents {b : U16} {n : ℕ} (h : Represents b n) :
    Represents (internetChecksumAdd 0 b) n := by
  have hfold := checksumFold_represents ((0 : U16).setWidth 32 + b.setWidth 32)
  have hsum : ((0 : U16).setWidth 32 + b.setWidth 32).toNat = b.toNat := by
    rw [show (0 : U16).setWidth 32 = 0#32 from rfl, BitVec.zero_add,
      toNat_setWidth_of_le (by decide)]
  rw [hsum] at hfold
  refine ⟨hfold.mod.trans h.mod, hfold.zero.trans ?_⟩
  rw [← h.zero, ← toNat_inj, toNat_zero]

end Mazu.Net
