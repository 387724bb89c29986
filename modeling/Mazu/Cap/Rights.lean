import Mazu.Cap.Tokens

/-!
# Rights along chains of delegation

A slot that a transfer makes, and every copy made of it by `dup` or by inheritance, has rights that
the source of the transfer had, and not the right to grant. What is delegated cannot be delegated
again.
-/

namespace Mazu.Cap

variable {s t : Kernel} {p : ProcIdx} {i : SlotIdx} {R : U8}

/-- **The slots that come from a transfer** in a history of events, with the rights that the source
slot of the transfer had. A slot is the same slot as long as it has been neither dropped nor minted
again. -/
inductive Derived : Kernel → ProcIdx → SlotIdx → U8 → Prop
  /-- The slot that a successful transfer mints at its destination. -/
  | transfer {s : Kernel} {src dst : ProcIdx} {dstPid : U16} {token : U64} {newRights : U8}
      {i child : SlotIdx} (hs : Reachable s)
      (ha : (Event.transfer src dstPid token newRights).Allowed s)
      (hok : (capTransfer s src dstPid token newRights).1.isOk = true)
      (hdst : procFind s dstPid = some dst) (hsrc : capValidateTokenLocked s src token = some i)
      (hnew : (step s (.transfer src dstPid token newRights)).mints dst child ≠ s.mints dst child) :
      Derived (step s (.transfer src dstPid token newRights)) dst child (s.slot src i).rights
  | keep {s : Kernel} {p : ProcIdx} {i : SlotIdx} {R : U8} (h : Derived s p i R) (e : Event)
      (ha : e.Allowed s) (hdrops : (step s e).drops p i = s.drops p i)
      (hmints : (step s e).mints p i = s.mints p i) : Derived (step s e) p i R
  | dup {s : Kernel} {p : ProcIdx} {i fd : SlotIdx} {R : U8} {oldfd newfd : ℤ} {exactTarget : Bool}
      (h : Derived s p i R) (ha : (Event.dup p oldfd newfd exactTarget).Allowed s)
      (hold : fdOf oldfd = some i) (hok : (capDupFd s p oldfd newfd exactTarget).1 = .ok fd) :
      Derived (step s (.dup p oldfd newfd exactTarget)) p fd R
  | inherit {s : Kernel} {src dst : ProcIdx} {i fd : SlotIdx} {R : U8} {srcFd dstFd : ℤ}
      (h : Derived s src i R) (ha : (Event.inherit src dst srcFd dstFd).Allowed s)
      (hsrc : fdOf srcFd = some i) (hok : (capInheritFd s src dst srcFd dstFd).1 = .ok fd) :
      Derived (step s (.inherit src dst srcFd dstFd)) dst fd R

/-- A slot with some of the rights `R`, the right to grant not among them. -/
structure Attenuated (s : Kernel) (p : ProcIdx) (i : SlotIdx) (R : U8) : Prop where
  valid : (s.slot p i).valid = true
  subset : (s.slot p i).rights &&& R = (s.slot p i).rights
  no_grant : (s.slot p i).rights &&& capRightGrant = 0

/-- Rights that are masked stay within a set. -/
theorem and_subset {a b m : U8} (h : a &&& b = a) : (a &&& m) &&& b = a &&& m := by
  rw [BitVec.and_assoc, BitVec.and_comm m b, ← BitVec.and_assoc, h]

/-- Rights that are masked stay outside a set. -/
theorem and_disjoint {a b m : U8} (h : a &&& b = 0) : (a &&& m) &&& b = 0 := by
  rw [BitVec.and_assoc, BitVec.and_comm m b, ← BitVec.and_assoc, h]
  exact BitVec.zero_and

theorem Attenuated.of_rights_eq {q : ProcIdx} {j : SlotIdx} (h : Attenuated s p i R)
    (hvalid : (t.slot q j).valid = true) (heq : (t.slot q j).rights = (s.slot p i).rights) :
    Attenuated t q j R :=
  ⟨hvalid, heq ▸ h.subset, heq ▸ h.no_grant⟩

theorem Copied.attenuated {q : ProcIdx} {j : SlotIdx} (hc : Copied s p i t q j)
    (h : Attenuated s p i R) : Attenuated t q j R :=
  h.of_rights_eq hc.valid hc.rights_eq

/-- The only slot that a transfer mints at its destination is the child, with the new rights. -/
theorem Transferred.attenuated {pid : U16} {token handle : U64} {newRights : U8} {dst : ProcIdx}
    {child child' k : SlotIdx} {n : ℕ} {s₁ s₂ : Kernel}
    (h : Transferred s p pid token newRights handle t dst i child n k s₁ s₂)
    (hnew : t.mints dst child' ≠ s.mints dst child') :
    Attenuated t dst child' (s.slot p i).rights := by
  obtain ⟨u, hu, hv, -⟩ := mintFd_ok h.mint 0
  obtain ⟨-, hs₂⟩ := delegateRecordAlloc_spec h.record
  have hspace : s₂.capSpace = s₁.capSpace := by rw [hs₂]; rfl
  have hother : ∀ j, ¬(dst = p ∧ j = k) := fun j hat ↦ h.other hat.1
  -- the handle of the delegation and the epoch leave the slots of `dst` alone
  have hslot : ∀ j, t.slot dst j = s₁.slot dst j := by
    intro j
    rw [h.final, (publish_sameElsewhere _ _ _ _ _).slot (hother j), slot_setDelegateEpoch,
      Kernel.slot, hspace, ← Kernel.slot]
  have hmints : ∀ j, t.mints dst j = s₁.mints dst j := by
    intro j
    rw [h.final, mints_publish, if_neg (hother j), mints_setDelegateEpoch, Kernel.mints, hspace,
      ← Kernel.mints]
  have hsame : SameElsewhere dst child s s₁ := by
    rw [hu]
    exact hv.elsewhere.trans (publish_sameElsewhere _ _ _ _ _)
  have hchild : child' = child := by
    by_contra hne
    rw [hmints] at hnew
    exact hnew (hsame dst child' fun hat ↦ hne hat.2).2.2
  subst hchild
  refine ⟨?_, ?_, ?_⟩
  · rw [hslot, hu, slot_publish_self]
  · rw [hslot, hu, slot_publish_self]
    exact and_subset (and_subset h.subset)
  · rw [hslot, hu, slot_publish_self]
    exact and_disjoint (and_disjoint h.no_grant)

theorem transfer_of_isOk {pid : U16} {token : U64} {newRights : U8}
    (h : (capTransfer s p pid token newRights).1.isOk = true) :
    ∃ handle dst i child n k s₁ s₂, Transferred s p pid token newRights handle
      (capTransfer s p pid token newRights).2 dst i child n k s₁ s₂ := by
  cases hres : capTransfer s p pid token newRights with
  | mk res t =>
    rw [hres] at h
    cases res with
    | error e => cases h
    | ok handle => exact ⟨handle, transfer_ok hres⟩

theorem Derived.attenuated (h : Derived s p i R) : Reachable s ∧ Attenuated s p i R := by
  induction h with
  | @transfer s src dst dstPid token newRights i child hs ha hok hdst hsrc hnew =>
    refine ⟨hs.tail _ ha trivial, ?_⟩
    obtain ⟨handle, dst', i', child', n, k, s₁, s₂, htr⟩ := transfer_of_isOk hok
    cases hdst.symm.trans htr.found
    cases hsrc.symm.trans htr.token
    exact htr.attenuated hnew
  | @keep s p i R _ e ha hdrops _ ih =>
    obtain ⟨hs, hatt⟩ := ih
    have hsince := step_since ha (hs.vacant p i hatt.valid) i
    have hslot := Kernel.slot_congr (hsince.kept hatt.valid hdrops).1
    exact ⟨hs.tail _ ha trivial, hatt.of_rights_eq (hslot ▸ hatt.valid) (by rw [hslot])⟩
  | @dup s p i fd R oldfd newfd exactTarget _ ha hold hok ih =>
    obtain ⟨hs, hatt⟩ := ih
    obtain ⟨old, hold', hcopy⟩ :=
      dupFd_ok (Prod.ext hok rfl)
    cases hold.symm.trans hold'
    exact ⟨hs.tail _ ha trivial, hcopy.attenuated hatt⟩
  | @inherit s src dst i fd R srcFd dstFd _ ha hsrc hok ih =>
    obtain ⟨hs, hatt⟩ := ih
    obtain ⟨i', hsrc', hcopy⟩ :=
      inheritFd_ok (Prod.ext hok rfl)
    cases hsrc.symm.trans hsrc'
    exact ⟨hs.tail _ ha trivial, hcopy.attenuated hatt⟩

/-- **What is delegated has no more rights than its source, cannot grant and is never the source of a
transfer.** -/
theorem derived_attenuated (h : Derived s p i R) :
    (s.slot p i).rights &&& R = (s.slot p i).rights ∧ (s.slot p i).rights &&& capRightGrant = 0 ∧
    ∀ dstPid token newRights, capValidateTokenLocked s p token = some i →
      (capTransfer s p dstPid token newRights).1.isOk = false := by
  obtain ⟨-, hatt⟩ := h.attenuated
  refine ⟨hatt.subset, hatt.no_grant, ?_⟩
  intro dstPid token newRights htoken
  rw [← Bool.not_eq_true]
  intro hok
  obtain ⟨_, _, i', _, _, _, _, _, htr⟩ := transfer_of_isOk hok
  cases htoken.symm.trans htr.token
  exact htr.source_grant hatt.no_grant

/-- Process 1 hands its standard input to process 2, whose copy in descriptor 3 cannot be handed
on. -/
theorem derived_attenuated_stdin : ∃ s, Derived s 1 3 (capRightRead ||| capRightGrant) ∧
    (s.slot 1 3).rights &&& capRightGrant = 0 := by
  obtain ⟨s, hs, hfacts⟩ := exists_reachable_of_runEvents
    (p := fun s ↦ decide ((Event.transfer 0 2 0x9100000000 capRightRead).Allowed s
      ∧ (capTransfer s 0 2 0x9100000000 capRightRead).1.isOk = true ∧ procFind s 2 = some 1
      ∧ capValidateTokenLocked s 0 0x9100000000 = some 0
      ∧ (step s (.transfer 0 2 0x9100000000 capRightRead)).mints 1 3 ≠ s.mints 1 3
      ∧ (s.slot 0 0).rights = capRightRead ||| capRightGrant))
    [.spawn none, .start 0, .spawn (some 0)] (by decide +kernel)
  obtain ⟨ha, hok, hdst, hsrc, hnew, hR⟩ := of_decide_eq_true hfacts
  have hd := Derived.transfer hs ha hok hdst hsrc hnew
  rw [hR] at hd
  exact ⟨_, hd, (derived_attenuated hd).2.1⟩

end Mazu.Cap
