import Mathlib.Data.UInt
import Mazu.Sync.Futex

/-!
# Robust lists

A dying thread's robust list is user memory: any chain of entries, any offset, any pending entry.
For each entry the kernel stores `FUTEX_OWNER_DIED` in the word that the entry leads to, marks the
pool entry of the word if there is one, and wakes a waiter. It does not ask who owns the word.
-/

namespace Mazu.Sync.Futex

open Sync.Pi

variable {T M : Type} [DecidableEq T] [DecidableEq M] {s : Sys T M} {a : Addr}

/-! ## Words -/

theorem Mem.byte_put (m : Mem) (a : Addr) (x : ℕ) {i : ℕ} (hi : i < 4) :
    ((m.put a x).byte (a + UInt64.ofNat i)).toNat = x / 256 ^ i % 256 := by
  have hsub : a + UInt64.ofNat i - a = UInt64.ofNat i := add_sub_cancel_left a _
  have hnat : (UInt64.ofNat i).toNat = i :=
    UInt64.toNat_ofNat_of_lt (hi.trans (show 4 < UInt64.size by decide))
  show UInt8.toNat (if _ then _ else _) = _
  rw [hsub, hnat, if_pos hi, UInt8.toNat_ofNat']

theorem Mem.word_put (m : Mem) (a : Addr) {x : ℕ} (hx : x < 2 ^ 32) : (m.put a x).word a = x := by
  have h0 := m.byte_put a x (show 0 < 4 by decide)
  have h1 := m.byte_put a x (show 1 < 4 by decide)
  have h2 := m.byte_put a x (show 2 < 4 by decide)
  have h3 := m.byte_put a x (show 3 < 4 by decide)
  have e1 : a + UInt64.ofNat 1 = a + 1 := rfl
  have e2 : a + UInt64.ofNat 2 = a + 1 + 1 := by rw [add_assoc]; rfl
  have e3 : a + UInt64.ofNat 3 = a + 1 + 1 + 1 := by rw [add_assoc, add_assoc]; rfl
  rw [show a + UInt64.ofNat 0 = a from add_zero a] at h0
  rw [e1] at h1
  rw [e2] at h2
  rw [e3] at h3
  simp only [word, get, h3]
  omega

/-! ## One entry -/

omit [DecidableEq M] in
theorem leavePi_mem (s : Sys T M) (u : T) (o : Option T) :
    (leavePi s u o).1.obj.mem = s.obj.mem := by
  rw [leavePi]
  split <;> rfl

omit [DecidableEq M] in
theorem wakeWalk_mem (a : Addr) (n : ℕ) (s : Sys T M) (l : Log T) (us : List T) :
    (wakeWalk a n s l us).1.obj.mem = s.obj.mem := by
  induction us generalizing s l with
  | nil => rfl
  | cons u us ih =>
    rw [wakeWalk]
    split_ifs
    · rfl
    · rw [ih]
      exact leavePi_mem (listDel s u) u l.owner
    · exact ih s l

/-- The store is all that an entry does to user memory. -/
theorem handleRobustEntry_mem (s : Sys T M) {e : Addr} {offset : ℤ}
    (h : robustAddr s.obj.mem e offset = some a) :
    (handleRobustEntry s e offset).obj.mem = s.obj.mem.put a ownerDiedBit := by
  have hmark : (markDead s a).1.obj.mem = s.obj.mem.put a ownerDiedBit := by
    rw [markDead]
    split <;> rfl
  simp only [handleRobustEntry, h]
  refine (wakeWalk_mem a 1 _ _ _).trans ?_
  exact hmark

/-- The thread that the word names. -/
def ownerTid (s : Sys T M) (a : Addr) : ℕ := tidOf (s.obj.mem.word a)

/-- What handling an entry may do for a dying thread: a word changes only if it names that thread,
and no futex that names another is marked or has a waiter woken. -/
structure Confined (dying : T) (before after : Sys T M) (a : Addr) : Prop where
  elsewhere : ∀ b, 4 ≤ (b - a).toNat → after.obj.mem.byte b = before.obj.mem.byte b
  word : after.obj.mem.word a ≠ before.obj.mem.word a → ownerTid before a = before.obj.tid dying
  marked : (∃ i, (entry after i).ownerDied ≠ (entry before i).ownerDied) →
    ownerTid before a = 0 ∨ ownerTid before a = before.obj.tid dying
  woken : (∃ u, (before.thread u).state = .blocked ∧ (after.thread u).state ≠ .blocked) →
    ownerTid before a = 0 ∨ ownerTid before a = before.obj.tid dying

/-- **One entry.** It stays within the dying thread's futexes exactly if the word names that thread, or
is the one that would be stored. -/
theorem confined_handleRobustEntry_iff (s : Sys T M) (dying : T) {e : Addr} {offset : ℤ}
    (h : robustAddr s.obj.mem e offset = some a) :
    Confined dying s (handleRobustEntry s e offset) a ↔
      ownerTid s a = s.obj.tid dying ∨ s.obj.mem.word a = ownerDiedBit := by
  have hmem := handleRobustEntry_mem s h
  constructor
  · intro hc
    by_cases hw : s.obj.mem.word a = ownerDiedBit
    · exact .inr hw
    · left
      refine hc.word ?_
      rw [hmem, Mem.word_put _ _ (by decide)]
      exact fun h ↦ hw h.symm
  · intro hown
    have hor : ownerTid s a = 0 ∨ ownerTid s a = s.obj.tid dying := by
      rcases hown with hown | hw
      · exact .inr hown
      · left
        rw [ownerTid, hw]
        decide
    refine ⟨fun b hb ↦ ?_, fun hne ↦ ?_, fun _ ↦ hor, fun _ ↦ hor⟩
    · rw [hmem]
      exact if_neg (not_lt.mpr hb)
    · refine hown.resolve_right fun hw ↦ hne ?_
      rw [hmem, Mem.word_put _ _ (by decide), hw]

/-! ## The whole list -/

variable (dying : T) (offset : ℤ) (visit : Sys T M × Addr)

/-- The word that an entry leads to names the dying thread or nobody, or cannot be used. -/
def Owns : Prop :=
  ∀ a, robustAddr visit.1.obj.mem visit.2 offset = some a →
    ownerTid visit.1 a = visit.1.obj.tid dying ∨ visit.1.obj.mem.word a = ownerDiedBit

/-- Handling the entry, in the state that it is met in, stays within the dying thread's futexes. -/
def StaysIn : Prop :=
  (robustAddr visit.1.obj.mem visit.2 offset = none →
    handleRobustEntry visit.1 visit.2 offset = visit.1) ∧
  ∀ a, robustAddr visit.1.obj.mem visit.2 offset = some a →
    Confined dying visit.1 (handleRobustEntry visit.1 visit.2 offset) a

theorem staysIn_iff : StaysIn dying offset visit ↔ Owns dying offset visit := by
  have hnone : robustAddr visit.1.obj.mem visit.2 offset = none →
      handleRobustEntry visit.1 visit.2 offset = visit.1 := by
    intro h
    simp only [handleRobustEntry, h]
  rw [StaysIn, and_iff_right hnone]
  exact forall₂_congr fun a h ↦ confined_handleRobustEntry_iff visit.1 dying h

/-- The pending entry comes first. -/
theorem pending_mem_exitRobustList (s : Sys T M) (t : T) (h : (s.obj.robust t).pending ≠ 0) :
    ({ s with obj := { s.obj with robust := Function.update s.obj.robust t ⟨0, 0, 0⟩ } },
      (s.obj.robust t).pending) ∈ (exitRobustList s t).1 := by
  simp only [exitRobustList, if_pos h]
  exact List.mem_cons_self

/-- Thread `0`, with number `1`, has the word of a lock of thread `1`, with number `2`, as its pending
entry. -/
def foreignPending : Sys (Fin 2) Unit :=
  boot (fun _ ↦ 1) (fun t ↦ t.val + 1) [0, 1]
    ⟨fun a ↦ if a = 0x2000 then 2 else 0, fun _ ↦ true, fun _ ↦ true⟩ fun _ ↦ ⟨0, 0, 0x2000⟩

end Mazu.Sync.Futex
