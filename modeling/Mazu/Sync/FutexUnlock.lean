import Mathlib
import Mazu.Sync.FutexPool

/-!
# Who gets a futex

`futex_unlock_pi` gives the futex to the waiter of the highest priority. Its search goes over all
threads that are blocked on the address, also over those in `futex_wait`, which ask for a wake-up and
not for the futex.
-/

namespace Mazu.Sync.Futex

set_option linter.unusedSectionVars false

open Sync.Pi

variable {T M : Type} [DecidableEq T] [DecidableEq M] (s : Sys T M) (t : T) (a : Addr)

/-- The thread waits for the futex: in `futex_lock_pi`, or requeued by `futex_cmp_requeue_pi`. -/
def Acquires (u : T) : Prop :=
  u ∈ s.obj.world.waiters (futexHash a) ∧ Waits s u a ∧ (waiter s u).piWait = true

/-- **The law of the hand-over**: the new owner is one of the best that wait for the futex, and the
word has its number. -/
def UnlockLaw : Prop :=
  ∀ i u, s.obj.world.lookup a = some i → (futexUnlockPi s t a).2 = 0 →
    (entry (futexUnlockPi s t a).1 i).owner = some u →
      Acquires s a u ∧ (∀ v, Acquires s a v → s.obj.world.prio v ≤ s.obj.world.prio u) ∧
        (futexUnlockPi s t a).1.obj.mem = s.obj.mem.put a (s.obj.tid u)

/-- The word has another's number, or the entry another owner. -/
def Foreign : Prop :=
  tidOf (s.obj.mem.word a) ≠ s.obj.tid t ∨
    ((s.obj.world.lookup a).elim none fun i ↦ (entry s i).owner).isSome ∧
      ((s.obj.world.lookup a).elim none fun i ↦ (entry s i).owner) ≠ some t

/-- The caller may unlock the futex of the entry. -/
structure MayUnlock (i : Slot) : Prop where
  read : Mem.spans a s.obj.mem.readable 4 = true
  lookup : s.obj.world.lookup a = some i
  own : ¬Foreign s t a
  write : Mem.spans a s.obj.mem.writable 4 = true

variable {s t a} {i : Slot} {u : T}

theorem futexUnlockPi_of_best (h : MayUnlock s t a i)
    (hu : s.obj.world.bestFutexWaiter (states s) a = some u) :
    (futexUnlockPi s t a).2 = 0 ∧ (entry (futexUnlockPi s t a).1 i).owner = some u ∧
      (futexUnlockPi s t a).1.obj.mem = s.obj.mem.put a (s.obj.tid u) := by
  obtain ⟨r, -, howner, hk⟩ := handOver_spec (setMem s _) t i u
  have heq : futexUnlockPi s t a = (refreshOwnerChain
      (handOver (setMem s (s.obj.mem.put a (s.obj.tid u))) t i u) (some t), 0) := by
    rw [futexUnlockPi, Mem.copyFromUser, if_pos h.read]
    refine (if_neg h.own).trans ?_
    rw [h.lookup, Option.bind_some, hu]
    dsimp only
    rw [Mem.copyToUser, if_pos h.write]
  rw [heq]
  refine ⟨rfl, ?_, mem_linkOwner _ i _⟩
  rw [← howner]
  exact ((hk.chain (some t)).other i id).1

theorem mayUnlock_of_zero (hi : s.obj.world.lookup a = some i) (hz : (futexUnlockPi s t a).2 = 0) :
    MayUnlock s t a i := by
  rw [futexUnlockPi, Mem.copyFromUser] at hz
  by_cases hread : Mem.spans a s.obj.mem.readable 4 = true
  · rw [if_pos hread] at hz
    dsimp only [Mem.copyToUser] at hz
    split_ifs at hz with hown hwrite
    · cases hz
    · exact ⟨hread, hi, hown, hwrite⟩
    · cases hbest : s.obj.world.bestFutexWaiter (states s) a <;> rw [hi, Option.bind_some, hbest] at hz
      · cases hz
      · cases hz
  · rw [if_neg hread] at hz
    cases hz

theorem best_of_owner (h : MayUnlock s t a i)
    (ho : (entry (futexUnlockPi s t a).1 i).owner = some u) :
    s.obj.world.bestFutexWaiter (states s) a = some u := by
  cases hbest : s.obj.world.bestFutexWaiter (states s) a with
  | some v => exact (futexUnlockPi_of_best h hbest).2.1.symm.trans ho
  | none =>
    obtain ⟨r, -, hr⟩ := unlockFree_some (setMem s _) i
    have heq : futexUnlockPi s t a = (refreshOwnerChain (refreshTask
        (unlockFree (setMem s (s.obj.mem.put a 0)) (some i)) (some t)) (some t), 0) := by
      rw [futexUnlockPi, Mem.copyFromUser, if_pos h.read]
      refine (if_neg h.own).trans ?_
      rw [h.lookup, Option.bind_some, hbest]
      rw [Mem.copyToUser, if_pos h.write]
    rw [heq, ((((Keeps.refl Nobody Nothing _).task _).chain _).other i id).1, hr] at ho
    have hnone := Function.update_self i (⟨false, 0, none, 0, false⟩) r.obj.world.piState
    cases (congrArg PiState.owner hnone).symm.trans ho

/-- **Ownership goes to who waits for it exactly when** the first of the highest priority that is
blocked on the address does not just wait for a wake-up. -/
theorem unlockLaw_iff (s : Sys T M) (t : T) (a : Addr) : UnlockLaw s t a ↔
    ∀ i u, MayUnlock s t a i → s.obj.world.bestFutexWaiter (states s) a = some u →
      (waiter s u).piWait = true := by
  constructor
  · intro h i u hmay hu
    obtain ⟨hz, howner, -⟩ := futexUnlockPi_of_best hmay hu
    exact (h i u hmay.lookup hz howner).1.2.2
  · intro h i u hi hz ho
    have hmay := mayUnlock_of_zero hi hz
    have hu := best_of_owner hmay ho
    obtain ⟨hmem, hwaits⟩ := List.mem_filter.mp (List.argmax_mem hu)
    refine ⟨⟨hmem, of_decide_eq_true hwaits, h i u hmay hu⟩, fun v hv ↦ ?_,
      (futexUnlockPi_of_best hmay hu).2.2⟩
    exact List.le_of_mem_argmax (List.mem_filter.mpr ⟨hv.1, decide_eq_true hv.2.1⟩) hu

def twoThreads : Sys (Fin 2) Unit :=
  boot (fun _ ↦ 1) (fun t ↦ t + 1) (List.finRange 2) ⟨fun _ ↦ 0, fun _ ↦ true, fun _ ↦ true⟩
    fun _ ↦ ⟨0, 0, 0⟩

/-- Thread `0` holds the futex, and thread `1` calls `futex_wait` on its word: the unlock makes it the
owner. -/
theorem not_unlockLaw : ∃ s : Sys (Fin 2) Unit,
    Runs.Run step (fun _ _ ↦ True) twoThreads s ∧ ¬UnlockLaw s 0 0x2000 := by
  obtain ⟨s, hrun, hi, hz, ho, hp⟩ := Runs.exists_run step (fun _ _ ↦ True) twoThreads
    [.env (.dispatch 0), .lockPi 0 0x2000, .env (.dispatch 1), .wait 1 0x2000 1]
    (p := fun s ↦ s.obj.world.lookup 0x2000 = some 0 ∧ (futexUnlockPi s 0 0x2000).2 = 0 ∧
      (entry (futexUnlockPi s 0 0x2000).1 0).owner = some 1 ∧ (waiter s 1).piWait = false)
    (by decide +kernel)
  refine ⟨s, hrun, fun h ↦ ?_⟩
  have hpi := (h 0 1 hi hz ho).1.2.2
  rw [hp] at hpi
  cases hpi

end Mazu.Sync.Futex
