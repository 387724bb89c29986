import Mazu.Cap.Calls

/-!
# Tokens and generations

A token names a slot together with the generation, the type and the rights that the slot had. The
generation of a slot moves on exactly when the slot is dropped, and a slot is published only when it
is free. So a token is good for as long as its slot has not been dropped.
-/

namespace Mazu.Cap

open BitVec

variable {s t u : Kernel} {p : ProcIdx} {i : SlotIdx}

/-- **What can have happened to a slot since an earlier moment.** The generation counts the drops, and
a slot that was valid and has not been dropped is as it was. -/
structure Since (p : ProcIdx) (i : SlotIdx) (s t : Kernel) : Prop where
  drops_le : s.drops p i ≤ t.drops p i
  mints_le : s.mints p i ≤ t.mints p i
  generation : (t.slot p i).generation =
    (s.slot p i).generation + BitVec.ofNat 32 (t.drops p i - s.drops p i)
  kept : (s.slot p i).valid = true → t.drops p i = s.drops p i →
    t.word p i = s.word p i ∧ t.mints p i = s.mints p i

theorem Since.of_word (hw : t.word p i = s.word p i) (hm : t.mints p i = s.mints p i)
    (hd : t.drops p i = s.drops p i) : Since p i s t := by
  refine ⟨hd.ge, hm.ge, ?_, fun _ _ ↦ ⟨hw, hm⟩⟩
  rw [Kernel.slot_congr hw, hd, Nat.sub_self]
  exact (add_zero _).symm

theorem Since.of_capSpace (h : t.capSpace p = s.capSpace p) : Since p i s t := by
  refine .of_word ?_ ?_ ?_
  · rw [Kernel.word, h, ← Kernel.word]
  · rw [Kernel.mints, h, ← Kernel.mints]
  · rw [Kernel.drops, h, ← Kernel.drops]

theorem Since.refl (s : Kernel) : Since p i s s := .of_capSpace rfl

theorem Since.trans (h : Since p i s t) (h' : Since p i t u) : Since p i s u := by
  refine ⟨h.drops_le.trans h'.drops_le, h.mints_le.trans h'.mints_le, ?_, ?_⟩
  · have hsum : u.drops p i - s.drops p i =
        (t.drops p i - s.drops p i) + (u.drops p i - t.drops p i) := by
      have h₁ := h.drops_le
      have h₂ := h'.drops_le
      omega
    rw [h'.generation, h.generation, hsum, ofNat_add, add_assoc]
  · intro hv hd
    -- nothing was dropped on either leg
    have h₁ : t.drops p i = s.drops p i := by
      have := h.drops_le
      have := h'.drops_le
      omega
    obtain ⟨hword, hmints⟩ := h.kept hv h₁
    obtain ⟨hword', hmints'⟩ := h'.kept (by rwa [Kernel.slot_congr hword]) (hd.trans h₁.symm)
    exact ⟨hword'.trans hword, hmints'.trans hmints⟩

/-- **Every move keeps the count of the generation.** -/
theorem Prim.since {g : Bool} {c d : Multiset Object} (h : Prim g s c t d) (p : ProcIdx)
    (i : SlotIdx) : Since p i s t := by
  cases h with
  | publish _ q j objectIndex type rights typeMeta v hv _ hfree =>
    by_cases hat : p = q ∧ i = j
    · obtain ⟨rfl, rfl⟩ := hat
      refine ⟨(drops_publish ..).ge, ?_, ?_, fun hvalid ↦ absurd hvalid (by rw [hfree]; decide)⟩
      · rw [mints_publish, if_pos ⟨rfl, rfl⟩]
        exact Nat.le_succ _
      · rw [slot_publish_self, drops_publish, Nat.sub_self]
        exact (add_zero _).symm
    · exact .of_word ((word_publish ..).trans (if_neg hat)) ((mints_publish ..).trans (if_neg hat))
        (drops_publish ..)
  | invalidate q j =>
    by_cases hat : p = q ∧ i = j
    · obtain ⟨rfl, rfl⟩ := hat
      have hdrops : (capSlotInvalidate s p i).drops p i = s.drops p i + 1 :=
        (drops_invalidate ..).trans (if_pos ⟨rfl, rfl⟩)
      refine ⟨hdrops ▸ Nat.le_succ _, (mints_invalidate ..).ge, ?_, fun _ hd ↦ by omega⟩
      rw [slot_invalidate_self, hdrops, Nat.add_sub_cancel_left]
      rfl
    · exact .of_word ((word_invalidate ..).trans (if_neg hat)) (mints_invalidate ..)
        ((drops_invalidate ..).trans (if_neg hat))
  | epoch q j e =>
    exact .of_word (word_setDelegateEpoch ..) (mints_setDelegateEpoch ..)
      (drops_setDelegateEpoch ..)
  | put o => exact .of_capSpace (congrFun (poolPut_onlyPools s o).capSpace p)
  | _ => exact .of_capSpace rfl

theorem Prims.since {g : Bool} {c d : Multiset Object} (h : Prims g s c t d) (p : ProcIdx)
    (i : SlotIdx) : Since p i s t :=
  h.invariant (P := fun u _ ↦ Since p i s u) (Since.refl s) fun hu hprim ↦ hu.trans (hprim.since p i)

theorem step_since {e : Event} (ha : e.Allowed s) (hp : (s.procTable p).state ≠ .free)
    (i : SlotIdx) : Since p i s (step s e) := by
  obtain ⟨s₀, hprep, hprims⟩ := step_prims ha
  exact (Since.of_capSpace (hprep.spaces p hp).1).trans (hprims.since p i)

/-- A run during which the process is in the table, up to the last step. -/
def Lifetime (p : ProcIdx) (s t : Kernel) : Prop :=
  Runs (fun u _ ↦ (u.procTable p).state ≠ .free) s t

theorem Lifetime.since (h : Lifetime p s t) (i : SlotIdx) : Since p i s t := by
  induction h with
  | refl => exact .refl s
  | tail _ e ha hok ih => exact ih.trans (step_since ha hok i)

/-! ## Issued tokens -/

/-- The token is the one `cap_make_handle` makes of the slot. -/
def Issued (s : Kernel) (p : ProcIdx) (i : SlotIdx) (token : U64) : Prop :=
  (s.slot p i).valid = true ∧ token = capMakeHandle (s.slot p i)

/-- The slot that a token of slot `i` names is slot `i`. -/
theorem Issued.slotOf {token : U64} (h : Issued s p i token) :
    Cap.slotOf (tokenSlot token).toNat = some i := by
  have hi : i.val < 128 := i.isLt
  have hnat : (tokenSlot token).toNat = i.val := by
    have hv : (capUnpackSlot (s.word p i) (BitVec.ofNat 8 i)).valid = true := h.1
    rw [h.2, Kernel.slot_eq_unpack, tokenSlot_makeHandle hv, toNat_setWidth, toNat_ofNat]
    omega
  rw [hnat, Cap.slotOf, dif_pos ⟨Int.natCast_nonneg _, hi⟩]
  rfl

/-- A token is checked against the slot it was made from. -/
theorem Issued.validate_eq {token : U64} (h : Issued s p i token) (t : Kernel) :
    capValidateTokenLocked t p token = if (t.slot p i).Accepts token then some i else none := by
  rw [capValidateTokenLocked, h.slotOf]

theorem Issued.accepts_iff {token : U64} (h : Issued s p i token) (t : Kernel) :
    (t.slot p i).Accepts token ↔ (t.slot p i).valid = true
      ∧ (t.slot p i).generation = (s.slot p i).generation
      ∧ (t.slot p i).type = (s.slot p i).type ∧ (t.slot p i).rights = (s.slot p i).rights := by
  rw [h.2]
  exact accepts_makeHandle_iff h.1

/-- **A token is accepted exactly as long as its slot has been neither dropped nor minted again**,
within the life of the process and with fewer than `2 ^ 32` drops of the slot. It is then accepted
for the slot, the type and the rights it was issued with. -/
theorem token_accepted_iff {token : U64} (hissued : Issued s p i token) (hrun : Lifetime p s t)
    (hdrops : t.drops p i - s.drops p i < 2 ^ 32) :
    ((capValidateTokenLocked t p token).isSome = true ↔
      t.drops p i = s.drops p i ∧ t.mints p i = s.mints p i) ∧
    ∀ j, capValidateTokenLocked t p token = some j →
      j = i ∧ (t.slot p j).type = (s.slot p i).type ∧ (t.slot p j).rights = (s.slot p i).rights := by
  have hsince := hrun.since i
  have hval := hissued.validate_eq t
  have hacc := hissued.accepts_iff t
  constructor
  · rw [hval]
    constructor
    · intro h
      have hok : (t.slot p i).Accepts token := by
        by_contra hno
        rw [if_neg hno] at h
        cases h
      -- equal generations: the number of drops is a multiple of 2 ^ 32
      have hgen := (hacc.mp hok).2.1
      rw [hsince.generation] at hgen
      have hzero : t.drops p i - s.drops p i = 0 := by
        have hnat := congrArg BitVec.toNat hgen
        rw [toNat_add, toNat_ofNat] at hnat
        omega
      have hle := hsince.drops_le
      have hd : t.drops p i = s.drops p i := by omega
      exact ⟨hd, (hsince.kept hissued.1 hd).2⟩
    · rintro ⟨hd, -⟩
      have hslot := Kernel.slot_congr (hsince.kept hissued.1 hd).1
      rw [if_pos (hacc.mpr ⟨hslot ▸ hissued.1, by rw [hslot], by rw [hslot], by rw [hslot]⟩)]
      rfl
  · intro j hj
    rw [hval] at hj
    split_ifs at hj with hok
    cases hj
    exact ⟨rfl, (hacc.mp hok).2.2⟩

/-- The token of the first descriptor of a process is refused once the descriptor is closed. -/
theorem token_refused_after_close :
    (capValidateTokenLocked (step (step (step .init (.spawn none)) (.start 0)) (.closeFd 0 0)) 0
      (capMakeHandle ((step .init (.spawn none)).slot 0 0))).isSome = false := by
  have hrun : Lifetime 0 (step .init (.spawn none)) (step _ (.closeFd 0 0)) :=
    .tail (.tail .refl (.start 0) (by decide +kernel) (by decide +kernel)) (.closeFd 0 0)
      (by decide +kernel) (by decide +kernel)
  have hiff := (token_accepted_iff (i := 0) ⟨by decide +kernel, rfl⟩ hrun (by decide +kernel)).1
  rw [← Bool.not_eq_true, hiff]
  exact fun h ↦ absurd h.1 (by decide +kernel)

end Mazu.Cap
