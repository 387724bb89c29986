import Mathlib.Data.BitVec

/-!
# Machine words, error codes and addresses

The types every subsystem shares: the fixed-width words of `include/mazu/base.h`, the error codes
of `include/mazu/errordef.h` and the IPv4 addresses of `include/mazu/net/ip_addr.h`. Words are
`BitVec`s, so that wrapping is the arithmetic of the type and not a side condition.
-/

namespace Mazu

abbrev U8 := BitVec 8
abbrev U16 := BitVec 16
abbrev U32 := BitVec 32
abbrev U64 := BitVec 64

/-- The macro `MAX`, on unsigned words. -/
def maxWord {w : ℕ} (a b : BitVec w) : BitVec w := if a > b then a else b

/-- The macro `MIN`, on unsigned words. -/
def minWord {w : ℕ} (a b : BitVec w) : BitVec w := if a < b then a else b

/-- The `code` of a `struct result`. Any `u16` may come back from the IP layer. -/
abbrev Errno := U16

def eagain : Errno := 11
def enomem : Errno := 12
def einval : Errno := 22

/-- `struct result`: success, or an error with its code. -/
abbrev Result := Except Errno Unit

abbrev resultOk : Result := .ok ()

/-- The error test `res.is_error`. -/
def Result.isError (r : Result) : Bool :=
  match r with
  | .ok _ => false
  | .error _ => true

/-- The time stamp no clock reaches, used for a timer that is not armed. -/
def timeMsMax : U64 := BitVec.allOnes 64

/-- An IPv4 address, first byte first. -/
structure Ipv4Addr where
  a0 : U8
  a1 : U8
  a2 : U8
  a3 : U8
deriving DecidableEq, Repr

/-- The wildcard address `0.0.0.0`. -/
def ipv4AddrAny : Ipv4Addr := ⟨0, 0, 0, 0⟩

def Ipv4Addr.bytes (a : Ipv4Addr) : List U8 := [a.a0, a.a1, a.a2, a.a3]

/-! ## Network byte order -/

/-- A 16-bit value as it goes over the wire, most significant byte first. -/
def be16 (x : U16) : List U8 := [(x >>> 8).setWidth 8, x.setWidth 8]

def be32 (x : U32) : List U8 :=
  [(x >>> 24).setWidth 8, (x >>> 16).setWidth 8, (x >>> 8).setWidth 8, x.setWidth 8]

/-- Two bytes of the wire read back. -/
def u16OfBe (b0 b1 : U8) : U16 := (b0.setWidth 16 <<< 8) ||| b1.setWidth 16

def u32OfBe (b0 b1 b2 b3 : U8) : U32 :=
  (b0.setWidth 32 <<< 24) ||| (b1.setWidth 32 <<< 16) ||| (b2.setWidth 32 <<< 8)
    ||| b3.setWidth 32

theorem timeMsMax_le_iff {t : U64} : timeMsMax ≤ t ↔ t = timeMsMax := by
  rw [timeMsMax]
  constructor
  · intro h
    apply BitVec.eq_of_toNat_eq
    have h1 : (BitVec.allOnes 64).toNat ≤ t.toNat := h
    have h2 := t.isLt
    rw [BitVec.toNat_allOnes] at h1 ⊢
    omega
  · rintro rfl
    exact BitVec.le_refl _

theorem le_timeMsMax (t : U64) : t ≤ timeMsMax := by
  have h := t.isLt
  rw [BitVec.le_def, timeMsMax, BitVec.toNat_allOnes]
  omega

end Mazu
