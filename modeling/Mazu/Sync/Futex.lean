import Mathlib.Data.Fintype.Basic
import Mazu.Sync.Pi

/-!
# Futexes

Waiters queue in one of 64 buckets, by the address of the user word that they wait on. Each section
under the lock of a bucket (or of two, for a requeue) is one step, with the walk along the chain of
owners that follows it. Entries of a fixed pool stand for the words that are locked with priority
inheritance.

A waiter's record is in its stack frame; the bucket that it is on is that of its key, since a
requeue changes both together. Errors are negative results. The errors of an aborted wait are one.
-/

namespace Mazu.Sync.Futex

open Sched (TdState)
open Sync.Pi Function

def eperm : ℤ := 1
def eintr : ℤ := 4
def eagain : ℤ := 11
def efault : ℤ := 14
def einval : ℤ := 22
def edeadlk : ℤ := 35
def eownerdead : ℤ := 130

/-- `FUTEX_OWNER_DIED`. -/
def ownerDiedBit : ℕ := 0x40000000

/-- What is left of a word under `FUTEX_TID_MASK`. -/
def tidOf (x : ℕ) : ℕ := x &&& 0xbfffffff

/-! ## User memory -/

structure Mem where
  byte : Addr → UInt8
  readable : Addr → Bool
  writable : Addr → Bool

namespace Mem

variable (m : Mem) (a : Addr)

/-- The little-endian number of so many bytes. -/
def get (m : Mem) (a : Addr) : ℕ → ℕ
  | 0 => 0
  | n + 1 => (m.byte a).toNat + 256 * m.get (a + 1) n

/-- The word at an address. -/
def word : ℕ := m.get a 4

def spans (p : Addr → Bool) (n : ℕ) : Bool := (List.range n).all fun i ↦ p (a + UInt64.ofNat i)

/-- `copy_from_user` of `n` bytes. -/
def copyFromUser (n : ℕ) : Option ℕ := if spans a m.readable n then some (m.get a n) else none

/-- The word is set. -/
def put (x : ℕ) : Mem :=
  { m with byte := fun b ↦
    if (b - a).toNat < 4 then UInt8.ofNat (x / 256 ^ (b - a).toNat) else m.byte b }

/-- `copy_to_user` of a word. -/
def copyToUser (x : ℕ) : Option Mem := if spans a m.writable 4 then some (m.put a x) else none

end Mem

/-! ## State -/

/-- The call that a thread is in. -/
inductive Phase
  | out
  /-- In `futex_wait` for a value. -/
  | wait (a : Addr) (expected : ℕ)
  /-- In `futex_lock_pi`. -/
  | lockPi (a : Addr)
  deriving DecidableEq

/-- What a thread registered by `set_robust_list`. -/
structure Robust where
  head : Addr
  offset : ℤ
  pending : Addr
  deriving DecidableEq

structure Obj (T M : Type) where
  world : World T M
  mem : Mem
  /-- The tasks of all processes, in the order of the tables. -/
  tasks : List T
  tid : T → ℕ
  phase : T → Phase
  robust : T → Robust
  result : T → ℤ

abbrev Sys (T M : Type) := Sync.Sys (Obj T M) T

variable {T M : Type} [DecidableEq T] [DecidableEq M] (s : Sys T M) (t : T) (a : Addr)

/-- The states of the threads. -/
def states (u : T) : TdState := (s.thread u).state

def onWorld (f : World T M → World T M) : Sys T M :=
  { s with obj := { s.obj with world := f s.obj.world } }

def setMem (m : Mem) : Sys T M := { s with obj := { s.obj with mem := m } }

def waiter : FutexWaiter := s.obj.world.futexWaiter t

/-- The bucket that the waiter's record names. -/
def bucket : Bucket := futexHash (waiter s t).key

def Linked : Prop := t ∈ s.obj.world.waiters (bucket s t)

instance : Decidable (Linked s t) := inferInstanceAs (Decidable (_ ∈ _))

def setQueue (b : Bucket) (q : List T) : Sys T M :=
  onWorld s fun w ↦ { w with waiters := update w.waiters b q }

/-- `list_del_init`. -/
def listDel : Sys T M := setQueue s (bucket s t) ((s.obj.world.waiters (bucket s t)).erase t)

/-- `list_add_tail` to the bucket of the waiter's key. -/
def listAddTail : Sys T M := setQueue s (bucket s t) (s.obj.world.waiters (bucket s t) ++ [t])

def setWaiter (f : FutexWaiter → FutexWaiter) : Sys T M := onWorld s (·.setFutexWaiter t f)

/-! ## Entries of the pool -/

variable (i : Slot)

def entry : PiState T := s.obj.world.piState i

/-- `futex_pi_state_get_locked`, which creates an entry if there is none. -/
def piStateGet : Option (Slot × Sys T M) :=
  match s.obj.world.lookup a with
  | some i => some (i, s)
  | none =>
    ((List.finRange 256).find? fun i ↦ ¬(entry s i).inUse).map fun i ↦
      (i, onWorld s fun w ↦ { w.setPiState i fun _ ↦ ⟨true, a, none, 0, false⟩ with
        piStates := update w.piStates (futexHash a) (w.piStates (futexHash a) ++ [i]) })

/-- `futex_pi_state_maybe_free_locked`. -/
def piStateMaybeFree : Sys T M :=
  if (entry s i).owner.isSome ∨ (entry s i).topWaiterPrio ≠ 0 ∨ (entry s i).ownerDied then s
  else onWorld s fun w ↦ { w.setPiState i fun _ ↦ ⟨false, 0, none, 0, false⟩ with
    piStates := fun b ↦ (w.piStates b).erase i }

def dropHeld : Option T → Sys T M
  | none => s
  | some u => onWorld s (·.setTask u fun d ↦ { d with heldFutexes := d.heldFutexes.erase i })

def addHeld : Option T → Sys T M
  | none => s
  | some u => onWorld s (·.setTask u fun d ↦ { d with heldFutexes := i :: d.heldFutexes })

/-- `futex_pi_link_owner_locked`. -/
def linkOwner (o : Option T) : Sys T M :=
  addHeld (onWorld (dropHeld s i (entry s i).owner) (·.setPiState i fun x ↦ { x with owner := o })) i o

def setDied (b : Bool) : Sys T M := onWorld s (·.setPiState i fun x ↦ { x with ownerDied := b })

/-- `futex_pi_recompute_owner_locked`. -/
def recomputeOwner : Sys T M := onWorld s (·.recomputeFutexOwner (states s) i)

/-- `futex_pi_refresh_task_locked`. -/
def refreshTask : Option T → Sys T M
  | none => s
  | some u => onWorld s (·.refreshTask u)

/-- `futex_pi_refresh_owner_chain`. -/
def refreshOwnerChain (o : Option T) : Sys T M := onWorld s (·.refreshOwnerChain (states s) o)

def clearDependency : Sys T M := onWorld s (·.clearDependency t)

/-- `futex_find_task_by_tid`. -/
def findTask (tid : ℕ) : Option T :=
  if tid = 0 then none
  else s.obj.tasks.find? fun u ↦ s.obj.tid u = tid ∧ (s.thread u).state ≠ .terminating

/-! ## Returning -/

/-- The call returns. -/
def return' (r : ℤ) : Sys T M :=
  { s.modify t (fun d ↦ { d with inside := false }) with
    obj := { s.obj with
      phase := update s.obj.phase t .out, result := update s.obj.result t r } }

/-- The call ends its wait and returns. -/
def finish (r : ℤ) : Sys T M := return' (s.modify t (·.unblock .blocked)) t r

/-- `wait_abort_error_current`, or zero. -/
def abortError : ℤ := if (s.thread t).abort then -eintr else 0

/-! ## `futex_wait` and `futex_wake` -/

/-- A waiter that is taken off a queue gives up what it waited for, and the owner follows. The
owner's chain is walked later, so the owner is handed on. -/
def leavePi (o : Option T) : Sys T M × Option T :=
  match (waiter s t).piWait, (waiter s t).piState with
  | true, some i => (recomputeOwner (clearDependency s t) i, (entry s i).owner)
  | _, _ => (s, o)

/-- `futex_wait` up to where it yields. -/
def futexWait (expected : ℕ) : Sys T M :=
  match s.obj.mem.copyFromUser a 4 with
  | none => return' s t (-efault)
  | some x =>
    if x ≠ expected then return' s t (-eagain)
    else
      let s := listAddTail (setWaiter s t fun _ ↦ ⟨a, none, false, false⟩) t
      { s.modify t (·.block .blocked) with
        obj := { s.obj with phase := update s.obj.phase t (.wait a expected) } }

/-- The rest of `futex_wait`. -/
def futexWaitResume : Sys T M := finish (listDel s t) t (abortError s t)

/-- The walk looks at this waiter. -/
def Waits : Prop := (waiter s t).key = a ∧ (s.thread t).state = .blocked

instance : Decidable (Waits s t a) := inferInstanceAs (Decidable (_ ∧ _))

/-- What a walk has done. -/
structure Log (T : Type) where
  woken : List T
  requeued : List T
  owner : Option T

/-- A waiter is taken off its queue, with the owner whose chain is to be walked. -/
def takeOff (o : Option T) : Sys T M × Option T := leavePi (listDel s t) t o

/-- The loop of `futex_wake` over the waiters still ahead. -/
def wakeWalk (a : Addr) (maxWake : ℕ) : Sys T M → Log T → List T → Sys T M × Log T
  | s, l, [] => (s, l)
  | s, l, u :: us =>
    if maxWake ≤ l.woken.length then (s, l)
    else if Waits s u a then
      wakeWalk a maxWake ((takeOff s u l.owner).1.modify u Thread.wakeReady)
        { l with woken := l.woken ++ [u], owner := (takeOff s u l.owner).2 } us
    else wakeWalk a maxWake s l us

def futexWake (maxWake : ℕ) : Sys T M × ℤ :=
  let r := wakeWalk a maxWake s ⟨[], [], none⟩ (s.obj.world.waiters (futexHash a))
  (refreshOwnerChain r.1 r.2.owner, r.2.woken.length)

/-- The section of `futex_wait_cleanup`. -/
def futexWaitCleanup : Sys T M :=
  let r := if Linked s t then takeOff s t none else (s, none)
  refreshOwnerChain (if (waiter s t).piWait then clearDependency r.1 t else r.1) r.2

/-! ## Requeueing -/

/-- A waiter goes to another address, and waits there as the record says. -/
def moveTo (u : T) (w : FutexWaiter) : Sys T M := listAddTail (setWaiter s u fun _ ↦ w) u

/-- The record after the waiter was taken off an entry. -/
def leftPi (w : FutexWaiter) : FutexWaiter :=
  if w.piWait ∧ w.piState.isSome then { w with piWait := false, piState := none } else w

/-- What `futex_cmp_requeue` does to a waiter that it wakes, and to one that it requeues. -/
def wakeFrom (o : Option T) : Sys T M :=
  (setWaiter (takeOff s t o).1 t leftPi).modify t Thread.wakeReady

def requeueTo (o : Option T) : Sys T M :=
  moveTo (takeOff s t o).1 t { leftPi (waiter s t) with key := a }

/-- What is ahead after a waiter was requeued. Its successor is read before it is handled, so a waiter
that moves to the end of the same list is met again unless it was the last. -/
def follow (a₁ a₂ : Addr) (u : T) (us : List T) : List T :=
  if futexHash a₁ = futexHash a₂ ∧ us ≠ [] then us ++ [u] else us

/-- The loop of `futex_cmp_requeue` over the waiters still ahead. -/
def requeueWalk (a₁ a₂ : Addr) (nrWake nrRequeue : ℕ) (s : Sys T M) (l : Log T) :
    List T → Sys T M × Log T
  | [] => (s, l)
  | u :: us =>
    if ¬Waits s u a₁ then requeueWalk a₁ a₂ nrWake nrRequeue s l us
    else if l.woken.length < nrWake then
      requeueWalk a₁ a₂ nrWake nrRequeue (wakeFrom s u l.owner)
        { l with woken := l.woken ++ [u], owner := (takeOff s u l.owner).2 } us
    else if l.requeued.length < nrRequeue then
      requeueWalk a₁ a₂ nrWake nrRequeue (requeueTo s u a₂ l.owner)
        { l with requeued := l.requeued ++ [u], owner := (takeOff s u l.owner).2 }
        (follow a₁ a₂ u us)
    else (s, l)
termination_by us => (nrWake - l.woken.length + (nrRequeue - l.requeued.length), us.length)
decreasing_by
  · exact .right _ (Nat.lt_succ_self _)
  · refine .left _ _ ?_
    rw [List.length_append, List.length_singleton]
    omega
  · refine .left _ _ ?_
    rw [List.length_append, List.length_singleton]
    omega

def futexCmpRequeue (expected : ℕ) (a₂ : Addr) (nrWake nrRequeue : ℕ) : Sys T M × ℤ :=
  match s.obj.mem.copyFromUser a 4 with
  | none => (s, -efault)
  | some x =>
    if x ≠ expected then (s, -eagain)
    else
      let r := requeueWalk a a₂ nrWake nrRequeue s ⟨[], [], none⟩
        (s.obj.world.waiters (futexHash a))
      (refreshOwnerChain r.1 r.2.owner, r.2.woken.length + r.2.requeued.length)

/-- In `futex_cmp_requeue_pi` a waiter without an entry loses its dependency too. -/
def leaveSource (o : Option T) : Sys T M × Option T :=
  if (waiter s t).piWait ∧ (waiter s t).piState = none then (clearDependency s t, o)
  else leavePi s t o

/-- The waiter goes over to an entry. -/
def joinEntry (u : T) (a₂ : Addr) : Sys T M :=
  let s := if (entry s i).owner.isSome then onWorld s (·.setFutexDependency u i) else s
  moveTo s u { waiter s u with key := a₂, piState := some i, piWait := true }

/-- The loop of `futex_cmp_requeue_pi`; the addresses differ, so nothing is met twice. -/
def requeuePiWalk (a₁ a₂ : Addr) (dst : Slot) (nrWake nrRequeue : ℕ) :
    Sys T M → Log T → List T → Sys T M × Log T
  | s, l, [] => (s, l)
  | s, l, u :: us =>
    if ¬Waits s u a₁ then requeuePiWalk a₁ a₂ dst nrWake nrRequeue s l us
    else
      let r := leaveSource (listDel s u) u l.owner
      if l.woken.length < nrWake then
        requeuePiWalk a₁ a₂ dst nrWake nrRequeue (r.1.modify u Thread.wakeReady)
          { l with woken := l.woken ++ [u], owner := r.2 } us
      else if l.requeued.length < nrRequeue then
        requeuePiWalk a₁ a₂ dst nrWake nrRequeue (joinEntry r.1 dst u a₂)
          { l with requeued := l.requeued ++ [u], owner := r.2 } us
      else (s, l)

def futexCmpRequeuePi (expected : ℕ) (a₂ : Addr) (nrWake nrRequeue : ℕ) : Sys T M × ℤ :=
  if a = a₂ then (s, -einval)
  else match s.obj.mem.copyFromUser a 4 with
  | none => (s, -efault)
  | some x =>
    if x ≠ expected then (s, -eagain)
    else match piStateGet s a₂ with
    | none => (s, -eagain)
    | some (dst, s) =>
      let r := requeuePiWalk a a₂ dst nrWake nrRequeue s ⟨[], [], none⟩
        (s.obj.world.waiters (futexHash a))
      (refreshOwnerChain (refreshOwnerChain (recomputeOwner r.1 dst) r.2.owner) (entry s dst).owner,
        r.2.woken.length + r.2.requeued.length)

/-! ## `futex_lock_pi` and `futex_unlock_pi` -/

/-- The abort of a wait that is still queued. -/
def lockAbort : Sys T M :=
  let s' := listDel s t
  let s' := (waiter s t).piState.elim s' (recomputeOwner s')
  let o := (waiter s t).piState.elim none fun i ↦ (entry s i).owner
  refreshOwnerChain (finish (clearDependency s' t) t (abortError s t)) o

/-- The word names the caller: it was handed the futex, or it locks what it owns. -/
def lockOwn : Sys T M :=
  if (waiter s t).wasQueued ∧ (entry s i).owner = some t then finish (clearDependency s t) t 0
  else
    let s' := if Linked s t then recomputeOwner (listDel s t) i else s
    finish (clearDependency s' t) t (-edeadlk)

/-- The word names nobody, and the caller takes the futex. -/
def lockTake (x : ℕ) : Sys T M :=
  match s.obj.mem.copyToUser a (s.obj.tid t ||| (x &&& ownerDiedBit)) with
  | none => return' s t (-efault)
  | some m =>
    let died := decide (x &&& ownerDiedBit ≠ 0)
    let s := clearDependency (listDel (setMem s m) t) t
    finish (recomputeOwner (linkOwner (setDied s i died) i (some t)) i) t
      (if died then -eownerdead else 0)

/-- The thread waits for the owner. -/
def lockWait : Sys T M :=
  let s := onWorld s (·.setFutexDependency t i)
  let s := if Linked s t then s
    else listAddTail (setWaiter s t fun w ↦ { w with wasQueued := true }) t
  let s := recomputeOwner s i
  refreshOwnerChain (s.modify t (·.block .blocked)) (entry s i).owner

/-- The word names another thread. If there is none by that name the word is marked, and the loop
goes round. -/
def lockContended (x : ℕ) : Sys T M :=
  let s := if (entry s i).owner.elim false fun u ↦ s.obj.tid u = tidOf x then s
    else linkOwner s i (findTask s (tidOf x))
  if (entry s i).owner = none then
    match s.obj.mem.copyToUser a ownerDiedBit with
    | none => return' s t (-efault)
    | some m => recomputeOwner (setDied (setMem s m) i true) i
  else lockWait s t i

/-- One pass of the loop of `futex_lock_pi`. -/
def lockPass : Sys T M :=
  if (s.thread t).abort ∧ Linked s t then lockAbort s t
  else match s.obj.mem.copyFromUser a 4 with
  | none => return' s t (-efault)
  | some x =>
    match piStateGet s a with
    | none => return' s t (-eagain)
    | some (i, s) =>
      let s := setWaiter s t fun w ↦ { w with piState := some i }
      if tidOf x = s.obj.tid t then lockOwn s t i
      else if tidOf x = 0 then lockTake s t a i x
      else lockContended s t a i x

def futexLockPi : Sys T M :=
  let s := setWaiter s t fun _ ↦ ⟨a, none, true, false⟩
  lockPass { s.modify t (fun d ↦ { d with inside := true }) with
    obj := { s.obj with phase := update s.obj.phase t (.lockPi a) } } t a

/-- The futex goes to the best waiter. -/
def handOver (u : T) : Sys T M :=
  let s := clearDependency (listDel s u) u
  let s := recomputeOwner (setDied (linkOwner s i (some u)) i false) i
  (refreshTask s (some t)).modify u Thread.wakeReady

/-- Nobody waits, and the entry is freed. -/
def unlockFree : Option Slot → Sys T M
  | none => s
  | some i =>
    let s := setDied (linkOwner s i none) i false
    piStateMaybeFree (onWorld s (·.setPiState i fun x ↦ { x with topWaiterPrio := 0 })) i

def futexUnlockPi : Sys T M × ℤ :=
  match s.obj.mem.copyFromUser a 4 with
  | none => (s, -efault)
  | some x =>
    let st := s.obj.world.lookup a
    let owner := st.elim none fun i ↦ (entry s i).owner
    if tidOf x ≠ s.obj.tid t ∨ owner.isSome ∧ owner ≠ some t then (s, -eperm)
    else match st, st.bind fun _ ↦ s.obj.world.bestFutexWaiter (states s) a with
    | some i, some u =>
      match s.obj.mem.copyToUser a (s.obj.tid u) with
      | none => (s, -efault)
      | some m => (refreshOwnerChain (handOver (setMem s m) t i u) (some t), 0)
    | _, _ =>
      match s.obj.mem.copyToUser a 0 with
      | none => (s, -efault)
      | some m => (refreshOwnerChain (refreshTask (unlockFree (setMem s m) st) (some t)) (some t), 0)

/-! ## Robust lists -/

/-- The address of the word of an entry of a robust list, if it can be used: the arithmetic does not
wrap, and the word is aligned and writable. -/
def robustAddr (m : Mem) (entry : Addr) (offset : ℤ) : Option Addr :=
  let x : ℤ := entry.toNat + offset
  if 0 ≤ x ∧ x < 2 ^ 64 then
    let a := UInt64.ofNat x.toNat
    if a.toNat % 4 = 0 ∧ Mem.spans a m.writable 4 then some a else none
  else none

/-- The part of `futex_handle_robust_entry` under the lock of the bucket. -/
def markDead : Sys T M × Option T :=
  let prev := (s.obj.mem.copyFromUser a 4).getD 0
  match s.obj.world.lookup a with
  | some i =>
    let o := (entry s i).owner
    (setMem (refreshTask (recomputeOwner (setDied (linkOwner s i none) i true) i) o)
      (s.obj.mem.put a ownerDiedBit), o)
  | none => (setMem s (s.obj.mem.put a ownerDiedBit), findTask s (tidOf prev))

/-- `futex_handle_robust_entry`. -/
def handleRobustEntry (entry : Addr) (offset : ℤ) : Sys T M :=
  match robustAddr s.obj.mem entry offset with
  | none => s
  | some a => (futexWake (refreshOwnerChain (markDead s a).1 (markDead s a).2) a 1).1

/-- The loop of `futex_exit_robust_list_task`: the entries that are handled, each with the state
before, and the state at the end. -/
def robustWalk (r : Robust) : ℕ → Sys T M → Addr → List (Sys T M × Addr) × Sys T M
  | 0, s, _ => ([], s)
  | n + 1, s, e =>
    match s.obj.mem.copyFromUser e 8 with
    | none => ([], s)
    | some x =>
      let next := UInt64.ofNat x
      let here := e ≠ r.head ∧ e ≠ r.pending
      let s' := if here then handleRobustEntry s e r.offset else s
      let rest := if next = r.head then ([], s') else robustWalk r n s' next
      (if here then (s, e) :: rest.1 else rest.1, rest.2)

/-- `ROBUST_LIST_LIMIT`. -/
def robustListLimit : ℕ := 2048

/-- The entries that `futex_exit_robust_list_task` handles, and the state at the end. -/
def exitRobustList : List (Sys T M × Addr) × Sys T M :=
  let r := s.obj.robust t
  let s := { s with obj := { s.obj with robust := update s.obj.robust t ⟨0, 0, 0⟩ } }
  let s' := if r.pending ≠ 0 then handleRobustEntry s r.pending r.offset else s
  let rest := if r.head = 0 then ([], s') else robustWalk r robustListLimit s' r.head
  (if r.pending ≠ 0 then (s, r.pending) :: rest.1 else rest.1, rest.2)

/-! ## Events -/

inductive Event (T : Type)
  | env (e : Env T)
  | wait (t : T) (a : Addr) (expected : ℕ)
  | lockPi (t : T) (a : Addr)
  /-- The thread runs again inside its call. -/
  | resume (t : T)
  | wake (t : T) (a : Addr) (maxWake : ℕ)
  | requeue (t : T) (a₁ : Addr) (expected : ℕ) (a₂ : Addr) (nrWake nrRequeue : ℕ)
  | requeuePi (t : T) (a₁ : Addr) (expected : ℕ) (a₂ : Addr) (nrWake nrRequeue : ℕ)
  | unlockPi (t : T) (a : Addr)
  /-- The cleanup of the exiting thread's robust list. -/
  | exitRobust (t : T)
  /-- User code changes a word that it can write. -/
  | store (a : Addr) (x : ℕ)

/-- The thread can make a call. -/
def Calls : Prop := (s.thread t).Runs ∧ (s.thread t).inside = false

instance : Decidable (Calls s t) := inferInstanceAs (Decidable (_ ∧ _))

def setResult (r : Sys T M × ℤ) : Sys T M :=
  { r.1 with obj := { r.1.obj with result := update r.1.obj.result t r.2 } }

def resume : Option (Sys T M) :=
  match s.obj.phase t with
  | .out => none
  | .wait _ _ => some (futexWaitResume s t)
  | .lockPi a => some (lockPass s t a)

def step (s : Sys T M) : Event T → Option (Sys T M)
  | .env e => envStep futexWaitCleanup s e
  | .wait t a x => if Calls s t then some (futexWait s t a x) else none
  | .lockPi t a => if Calls s t then some (futexLockPi s t a) else none
  | .resume t => if (s.thread t).Runs ∧ (s.thread t).inside then resume s t else none
  | .wake t a n => if Calls s t then some (setResult t (futexWake s a n)) else none
  | .requeue t a₁ x a₂ nw nr =>
    if Calls s t then some (setResult t (futexCmpRequeue s a₁ x a₂ nw nr)) else none
  | .requeuePi t a₁ x a₂ nw nr =>
    if Calls s t then some (setResult t (futexCmpRequeuePi s a₁ x a₂ nw nr)) else none
  | .unlockPi t a => if Calls s t then some (setResult t (futexUnlockPi s t a)) else none
  | .exitRobust t => if (s.thread t).onCpu then some (exitRobustList s t).2 else none
  | .store a x => (s.obj.mem.copyToUser a x).map (setMem s)

/-- Threads of the given base priorities and thread numbers, before their first call. -/
def boot (basePrio tid : T → ℕ) (tasks : List T) (mem : Mem) (robust : T → Robust) : Sys T M :=
  .boot ⟨.init basePrio, mem, tasks, tid, fun _ ↦ .out, robust, fun _ ↦ 0⟩

/-! ## What the priorities leave alone -/

/-- The queues and the entries of the pool, without the priorities that they remember. -/
structure Books (T : Type) where
  waiters : Bucket → List T
  futexWaiter : T → FutexWaiter
  piStates : Bucket → List Slot
  piState : Slot → PiState T

def books (w : World T M) : Books T :=
  ⟨w.waiters, w.futexWaiter, w.piStates, fun i ↦ { w.piState i with topWaiterPrio := 0 }⟩

variable (w : World T M) (st : T → TdState)

omit [DecidableEq T] [DecidableEq M] in
theorem books_refreshTop : books (w.refreshTop st i) = books w := by
  have hst : (fun j ↦ { (w.refreshTop st i).piState j with topWaiterPrio := 0 }) =
      fun j ↦ { w.piState j with topWaiterPrio := 0 } := by
    funext j
    by_cases hj : j = i
    · rw [hj]
      have hself : (w.refreshTop st i).piState i = { w.piState i with
        topWaiterPrio := w.prioOf (w.bestFutexWaiter st (w.piState i).key) } := update_self ..
      rw [hself]
    · have hne : (w.refreshTop st i).piState j = w.piState j := update_of_ne hj ..
      rw [hne]
  exact congrArg (Books.mk w.waiters w.futexWaiter w.piStates) hst

omit [DecidableEq M] in
theorem books_recomputeFutexOwner : books (w.recomputeFutexOwner st i) = books w := by
  rw [World.recomputeFutexOwner]
  split <;> exact books_refreshTop i w st

theorem books_refreshPrio (n : ℕ) (o : Option T) : books (World.refreshPrio st n w o) = books w := by
  induction n generalizing w o with
  | zero => rfl
  | succ n ih =>
    cases o with
    | none => rfl
    | some cur =>
      rw [World.refreshPrio]
      split
      · exact ih _ _
      · split
        · split_ifs
          · exact (ih _ _).trans (books_refreshTop _ _ st)
          · rfl
        · rfl

theorem books_refreshOwnerChain (o : Option T) : books (w.refreshOwnerChain st o) = books w := by
  cases o with
  | none => rfl
  | some u =>
    rw [World.refreshOwnerChain]
    split_ifs
    · exact books_refreshPrio w st _ _
    · rfl

omit [DecidableEq M] in
theorem books_leavePi (o : Option T) : books (leavePi s t o).1.obj.world = books s.obj.world := by
  rw [leavePi]
  split
  · exact books_recomputeFutexOwner _ _ _
  · rfl

omit [DecidableEq M] in
theorem thread_leavePi (o : Option T) : (leavePi s t o).1.thread = s.thread := by
  rw [leavePi]
  split <;> rfl

end Mazu.Sync.Futex
