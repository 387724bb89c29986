import Mazu.Base
import Mazu.Lib.BitField

/-!
# Capability slots and tokens as words

A slot of a capability space is one 64-bit word and a token is another. Both are packed and unpacked
by shifts and masks, with the layout at the head of `kernel/proc/cap.c`. What the rest of the
development needs of them is stated here: a packed slot unpacks to its parts, and a token made from a
slot decodes to the parts it was made from.
-/

namespace Mazu.Cap

open BitVec

/-- `enum cap_type`, less the reserved types nothing is minted with. -/
inductive CapType
  | none
  | fd
  | timer
  | thread
  | delegate
  | mutex
  | condvar
  | semaphore
  | barrier
  | rwlock
  | mqueue
deriving DecidableEq, Repr

/-- The value the slot word stores. -/
def CapType.code : CapType → U8
  | none => 0
  | fd => 1
  | timer => 2
  | thread => 3
  | delegate => 6
  | mutex => 9
  | condvar => 10
  | semaphore => 11
  | barrier => 12
  | rwlock => 13
  | mqueue => 14

def capRightRead : U8 := 1
def capRightWrite : U8 := 2
def capRightExec : U8 := 4
def capRightGrant : U8 := 8

/-- The flag `CAP_FD_META_CLOEXEC` of a file descriptor. -/
def capFdMetaCloexec : U16 := 1

/-- `struct cap_slot_view`, a slot taken apart. -/
structure CapSlotView where
  valid : Bool
  slotIndex : U8
  objectIndex : U16
  type : U8
  rights : U8
  typeMeta : U16
  generation : U32
deriving DecidableEq, Repr

def capPackSlot (valid : Bool) (objectIndex : U16) (type rights : U8) (typeMeta : U16)
    (generation : U32) : U64 :=
  (if valid then 1#64 else 0#64)
    ||| (objectIndex &&& 0xFFF).setWidth 64 <<< 1
    ||| (type &&& 0xF).setWidth 64 <<< 13
    ||| (rights &&& 0xF).setWidth 64 <<< 17
    ||| (typeMeta &&& 0x7FF).setWidth 64 <<< 21
    ||| generation.setWidth 64 <<< 32

def capUnpackSlot (word : U64) (slotIndex : U8) : CapSlotView where
  valid := word &&& 1 != 0
  slotIndex := slotIndex
  objectIndex := (word >>> 1 &&& 0xFFF).setWidth 16
  type := (word >>> 13 &&& 0xF).setWidth 8
  rights := (word >>> 17 &&& 0xF).setWidth 8
  typeMeta := (word >>> 21 &&& 0x7FF).setWidth 16
  generation := (word >>> 32).setWidth 32

def capNextGeneration (generation : U32) : U32 := generation + 1

/-- The token of a slot, or 0 for a slot that is not valid. -/
def capMakeHandle (slot : CapSlotView) : U64 :=
  if !slot.valid then 0
  else slot.generation.setWidth 64
    ||| slot.type.setWidth 64 <<< 32
    ||| slot.rights.setWidth 64 <<< 36
    ||| slot.slotIndex.setWidth 64 <<< 40

/-! ## The fields of a token -/

def tokenGeneration (token : U64) : U32 := (token &&& 0xFFFFFFFF).setWidth 32

def tokenType (token : U64) : U8 := (token >>> 32 &&& 0xF).setWidth 8

def tokenRights (token : U64) : U8 := (token >>> 36 &&& 0xF).setWidth 8

def tokenSlot (token : U64) : U32 := (token >>> 40 &&& 0xFF).setWidth 32

/-- The token carries the generation, the type and the rights of the slot, and the slot is valid. -/
def CapSlotView.Accepts (slot : CapSlotView) (token : U64) : Prop :=
  slot.valid = true ∧ slot.generation = tokenGeneration token ∧ slot.type = tokenType token
    ∧ slot.rights = tokenRights token

instance (slot : CapSlotView) (token : U64) : Decidable (slot.Accepts token) :=
  inferInstanceAs (Decidable (_ ∧ _ ∧ _ ∧ _))

/-! ## Packing and unpacking -/

open BitField

/-- The packed word, bit by bit. -/
theorem getLsbD_pack (valid : Bool) (objectIndex : U16) (type rights : U8) (typeMeta : U16)
    (generation : U32) (k : ℕ) :
    (capPackSlot valid objectIndex type rights typeMeta generation).getLsbD k =
      if k = 0 then valid else if k < 13 then objectIndex.getLsbD (k - 1)
      else if k < 17 then type.getLsbD (k - 13) else if k < 21 then rights.getLsbD (k - 17)
      else if k < 32 then typeMeta.getLsbD (k - 21) else generation.getLsbD (k - 32) := by
  have hobj : ∀ j, (objectIndex &&& 0xFFF).getLsbD j = (decide (j < 12) && objectIndex.getLsbD j) :=
    getLsbD_and_mask objectIndex 12
  have hnib : ∀ (x : U8) j, (x &&& 0xF).getLsbD j = (decide (j < 4) && x.getLsbD j) :=
    fun x ↦ getLsbD_and_mask x 4
  have hmeta : ∀ j, (typeMeta &&& 0x7FF).getLsbD j = (decide (j < 11) && typeMeta.getLsbD j) :=
    getLsbD_and_mask typeMeta 11
  have hval : (if valid then 1#64 else 0#64).getLsbD k = (decide (k = 0) && valid) := by
    cases valid with
    | false => simp
    | true => rw [if_pos rfl, getLsbD_one]; grind
  simp only [capPackSlot, getLsbD_or, getLsbD_setWidth, hnib, hval]
  split_ifs <;> grind

section

variable (word : U64) (i : U8) (j : ℕ)

theorem unpack_valid : (capUnpackSlot word i).valid = word.getLsbD 0 := by
  have hand : word &&& 1 = if word.getLsbD 0 then 1 else 0 := by
    apply eq_of_getLsbD_eq
    intro k hk
    rw [getLsbD_and]
    by_cases h0 : k = 0
    · subst h0
      cases word.getLsbD 0 <;> rfl
    · cases word.getLsbD 0 <;> simp [h0]
  show (word &&& 1 != 0) = word.getLsbD 0
  rw [hand]
  cases word.getLsbD 0 <;> rfl

theorem getLsbD_unpack_objectIndex : (capUnpackSlot word i).objectIndex.getLsbD j =
    (decide (j < 16) && decide (j < 12) && word.getLsbD (1 + j)) :=
  getLsbD_field word 1 12 16 j

theorem getLsbD_unpack_type : (capUnpackSlot word i).type.getLsbD j =
    (decide (j < 8) && decide (j < 4) && word.getLsbD (13 + j)) :=
  getLsbD_field word 13 4 8 j

theorem getLsbD_unpack_rights : (capUnpackSlot word i).rights.getLsbD j =
    (decide (j < 8) && decide (j < 4) && word.getLsbD (17 + j)) :=
  getLsbD_field word 17 4 8 j

theorem getLsbD_unpack_typeMeta : (capUnpackSlot word i).typeMeta.getLsbD j =
    (decide (j < 16) && decide (j < 11) && word.getLsbD (21 + j)) :=
  getLsbD_field word 21 11 16 j

theorem getLsbD_unpack_generation : (capUnpackSlot word i).generation.getLsbD j =
    (decide (j < 32) && word.getLsbD (32 + j)) := by
  show ((word >>> 32).setWidth 32).getLsbD j = _
  rw [getLsbD_setWidth, getLsbD_ushiftRight]

end

/-- **A slot word unpacks to what was packed**, cut to the width of its field. -/
theorem unpack_pack (valid : Bool) (objectIndex : U16) (type rights : U8) (typeMeta : U16)
    (generation : U32) (i : U8) :
    capUnpackSlot (capPackSlot valid objectIndex type rights typeMeta generation) i =
      ⟨valid, i, objectIndex &&& 0xFFF, type &&& 0xF, rights &&& 0xF, typeMeta &&& 0x7FF,
        generation⟩ := by
  have hbit := getLsbD_pack valid objectIndex type rights typeMeta generation
  -- one field after the other, each bit read off the packed word
  have hobj : ∀ j, (objectIndex &&& 0xFFF).getLsbD j = (decide (j < 12) && objectIndex.getLsbD j) :=
    getLsbD_and_mask objectIndex 12
  have hnib : ∀ (x : U8) j, (x &&& 0xF).getLsbD j = (decide (j < 4) && x.getLsbD j) :=
    fun x ↦ getLsbD_and_mask x 4
  have hmeta : ∀ j, (typeMeta &&& 0x7FF).getLsbD j = (decide (j < 11) && typeMeta.getLsbD j) :=
    getLsbD_and_mask typeMeta 11
  rw [CapSlotView.mk.injEq]
  refine ⟨(unpack_valid _ i).trans (hbit 0), rfl, ?_, ?_, ?_, ?_, ?_⟩
  · refine eq_of_getLsbD_eq fun j hj ↦ ?_
    rw [getLsbD_unpack_objectIndex]
    grind
  · refine eq_of_getLsbD_eq fun j hj ↦ ?_
    rw [getLsbD_unpack_type]
    grind
  · refine eq_of_getLsbD_eq fun j hj ↦ ?_
    rw [getLsbD_unpack_rights, hbit, hnib]
    grind
  · refine eq_of_getLsbD_eq fun j hj ↦ ?_
    rw [getLsbD_unpack_typeMeta, hbit]
    grind
  · refine eq_of_getLsbD_eq fun j hj ↦ ?_
    rw [getLsbD_unpack_generation, hbit]
    grind

/-! ## Tokens -/

/-- The token of a slot, bit by bit. The fields of an unpacked slot fit their places. -/
theorem getLsbD_makeHandle {word : U64} {i : U8} (h : (capUnpackSlot word i).valid = true)
    (k : ℕ) : (capMakeHandle (capUnpackSlot word i)).getLsbD k =
      if k < 32 then (capUnpackSlot word i).generation.getLsbD k
      else if k < 36 then (capUnpackSlot word i).type.getLsbD (k - 32)
      else if k < 40 then (capUnpackSlot word i).rights.getLsbD (k - 36)
      else i.getLsbD (k - 40) := by
  have htype : 4 ≤ k - 32 → (capUnpackSlot word i).type.getLsbD (k - 32) = false := by
    rw [getLsbD_unpack_type]
    grind
  have hrights : 4 ≤ k - 36 → (capUnpackSlot word i).rights.getLsbD (k - 36) = false := by
    rw [getLsbD_unpack_rights]
    grind
  have hi : (capUnpackSlot word i).slotIndex = i := rfl
  rw [capMakeHandle]
  split_ifs <;> grind

section

variable {word : U64} {i : U8} (h : (capUnpackSlot word i).valid = true)

include h

theorem tokenGeneration_makeHandle :
    tokenGeneration (capMakeHandle (capUnpackSlot word i)) = (capUnpackSlot word i).generation := by
  refine eq_of_getLsbD_eq fun j hj ↦ ?_
  have hfield := getLsbD_field (capMakeHandle (capUnpackSlot word i)) 0 32 32 j
  refine hfield.trans ?_
  rw [getLsbD_makeHandle h]
  grind

theorem tokenType_makeHandle :
    tokenType (capMakeHandle (capUnpackSlot word i)) = (capUnpackSlot word i).type := by
  refine eq_of_getLsbD_eq fun j hj ↦ ?_
  refine (getLsbD_field _ 32 4 8 j).trans ?_
  rw [getLsbD_makeHandle h]
  have := getLsbD_unpack_type word i (32 + j - 32)
  grind

theorem tokenRights_makeHandle :
    tokenRights (capMakeHandle (capUnpackSlot word i)) = (capUnpackSlot word i).rights := by
  refine eq_of_getLsbD_eq fun j hj ↦ ?_
  refine (getLsbD_field _ 36 4 8 j).trans ?_
  rw [getLsbD_makeHandle h]
  have := getLsbD_unpack_rights word i (36 + j - 36)
  grind

theorem tokenSlot_makeHandle :
    tokenSlot (capMakeHandle (capUnpackSlot word i)) = i.setWidth 32 := by
  refine eq_of_getLsbD_eq fun j hj ↦ ?_
  refine (getLsbD_field _ 40 8 32 j).trans ?_
  rw [getLsbD_makeHandle h]
  grind

/-- **A slot accepts a token of another** exactly when it is valid and agrees with it in generation,
type and rights. -/
theorem accepts_makeHandle_iff {slot : CapSlotView} :
    slot.Accepts (capMakeHandle (capUnpackSlot word i)) ↔
      slot.valid = true ∧ slot.generation = (capUnpackSlot word i).generation
        ∧ slot.type = (capUnpackSlot word i).type
        ∧ slot.rights = (capUnpackSlot word i).rights := by
  rw [CapSlotView.Accepts, tokenGeneration_makeHandle h, tokenType_makeHandle h,
    tokenRights_makeHandle h]

end

end Mazu.Cap
