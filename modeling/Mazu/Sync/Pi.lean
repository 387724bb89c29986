import Mathlib.Data.List.MinMax
import Mazu.Sync.Threads

/-!
# Priority inheritance

The state that the mutexes and futexes with priority inheritance share, and how an effective
priority is worked out. Each mutex, and each entry of the futexes' pool, remembers the highest
priority among its waiters; a task runs at the highest of its own priority and those of what it
holds. Since a task that holds something may itself wait, a change is passed along the chain of
waiting tasks and holders, up to a fixed depth.

A mutex counts every waiter that is not dying, a futex only those that are blocked.
-/

namespace Mazu.Sync.Pi

open Function

open Sched (TdState)

/-- What a loop computes that starts from `a` and keeps the higher value at each entry. -/
def peak {ι : Type*} (f : ι → ℕ) (a : ℕ) (l : List ι) : ℕ := l.foldl (fun b i ↦ max b (f i)) a

/-- A user address. -/
abbrev Addr := UInt64

/-- A place of `futex_pi_states`. -/
abbrev Slot := Fin 256

/-- A bucket of `futex_table`. -/
abbrev Bucket := Fin 64

@[irreducible] def futexHash (addr : Addr) : Bucket :=
  let h := (addr >>> 2) * 0x45d9f3b
  let h := h ^^^ (h >>> 16)
  ⟨h.toNat % 64, Nat.mod_lt _ (by decide)⟩

/-- `struct pi_mutex`. -/
structure Mutex (T : Type) where
  owner : Option T
  waiters : List T
  topWaiterPrio : ℕ

/-- The call that a waiter of a mutex is in. -/
inductive LockCall
  /-- `pi_mutex_lock`. -/
  | plain
  /-- `pi_mutex_lock_interruptible`. -/
  | interruptible
  /-- `pi_mutex_lock_timed`. -/
  | timed
  deriving DecidableEq

/-- `struct pi_mutex_waiter` in the frame of a thread, with what its timeout shares with it. -/
structure MutexWaiter (M : Type) where
  mtx : Option M
  call : LockCall
  granted : Bool
  callout : Bool
  timedOut : Bool

/-- `struct futex_pi_state`. The link to the owner's list is there exactly when it has an owner. -/
structure PiState (T : Type) where
  inUse : Bool
  key : Addr
  owner : Option T
  topWaiterPrio : ℕ
  ownerDied : Bool

/-- `struct futex_waiter` in the frame of a thread; its bucket is that of its key. -/
structure FutexWaiter where
  key : Addr
  piState : Option Slot
  piWait : Bool
  /-- `was_queued` of `futex_lock_pi`. -/
  wasQueued : Bool

/-- The part of a task that priority inheritance reads and writes. -/
structure Task (T M : Type) where
  basePrio : ℕ
  prio : ℕ
  futexPiPrio : ℕ
  heldMutexes : List M
  heldFutexes : List Slot
  waitingOnMutex : Option M
  waitingOnFutex : Option Slot
  waitingOnTask : Option T

structure World (T M : Type) where
  task : T → Task T M
  mutex : M → Mutex T
  mutexWaiter : T → MutexWaiter M
  waiters : Bucket → List T
  piStates : Bucket → List Slot
  piState : Slot → PiState T
  futexWaiter : T → FutexWaiter

namespace World

variable {T M : Type} [DecidableEq T] [DecidableEq M] (w : World T M)

def setTask (t : T) (f : Task T M → Task T M) : World T M :=
  { w with task := update w.task t (f (w.task t)) }

def setMutex (m : M) (f : Mutex T → Mutex T) : World T M :=
  { w with mutex := update w.mutex m (f (w.mutex m)) }

def setMutexWaiter (t : T) (f : MutexWaiter M → MutexWaiter M) : World T M :=
  { w with mutexWaiter := update w.mutexWaiter t (f (w.mutexWaiter t)) }

def setPiState (i : Slot) (f : PiState T → PiState T) : World T M :=
  { w with piState := update w.piState i (f (w.piState i)) }

def setFutexWaiter (t : T) (f : FutexWaiter → FutexWaiter) : World T M :=
  { w with futexWaiter := update w.futexWaiter t (f (w.futexWaiter t)) }

omit [DecidableEq T] [DecidableEq M] in
/-- The priority that the threads run at. -/
def prio (t : T) : ℕ := (w.task t).prio

/-- The priority at the entry that is found, and none is zero. -/
def prioOf (o : Option T) : ℕ := o.elim 0 w.prio

/-! ## Priorities -/

/-- `pi_compute_prio_locked`. -/
def computePrio (t : T) : ℕ :=
  peak (fun m ↦ (w.mutex m).topWaiterPrio) (max (w.task t).basePrio (w.task t).futexPiPrio)
    (w.task t).heldMutexes

/-- `pi_recompute_prio`, and `pi_mutex_refresh_prio_local`. -/
def recomputePrio (t : T) : World T M := w.setTask t fun d ↦ { d with prio := w.computePrio t }

def recomputeOwner : Option T → World T M
  | none => w
  | some t => w.recomputePrio t

variable (st : T → TdState)

/-- The waiter of a mutex that `pi_mutex_refresh_waiters_locked` finds. -/
def bestWaiter (m : M) : Option T :=
  ((w.mutex m).waiters.filter fun u ↦ st u ≠ .terminating).argmax w.prio

/-- `pi_mutex_refresh_waiters_locked`. -/
def refreshWaiters (m : M) : World T M :=
  w.setMutex m fun x ↦ { x with topWaiterPrio := w.prioOf (w.bestWaiter st m) }

/-- The waiter of a futex that `futex_pi_refresh_waiters_locked` finds. -/
def bestFutexWaiter (key : Addr) : Option T :=
  ((w.waiters (futexHash key)).filter fun u ↦
    (w.futexWaiter u).key = key ∧ st u = .blocked).argmax w.prio

/-- `futex_pi_refresh_task_locked`. -/
def refreshTask (t : T) : World T M :=
  (w.setTask t fun d ↦ { d with
    futexPiPrio := peak (fun i ↦ (w.piState i).topWaiterPrio) 0 d.heldFutexes }).recomputePrio t

def refreshTop (i : Slot) : World T M :=
  w.setPiState i fun x ↦ { x with topWaiterPrio := w.prioOf (w.bestFutexWaiter st x.key) }

/-- `futex_pi_recompute_owner_locked`. -/
def recomputeFutexOwner (i : Slot) : World T M :=
  match (w.piState i).owner with
  | none => w.refreshTop st i
  | some t => (w.refreshTop st i).refreshTask t

/-- `futex_pi_state_lookup_locked`. -/
def lookup (key : Addr) : Option Slot :=
  (w.piStates (futexHash key)).find? fun i ↦ (w.piState i).key = key

/-- `pi_mutex_refresh_prio`, with the number of tasks that it still looks at. A futex entry that is
no longer the one of its key ends the walk. -/
def refreshPrio : ℕ → World T M → Option T → World T M
  | 0, w, _ => w
  | _ + 1, w, none => w
  | n + 1, w, some cur =>
    let w := w.recomputePrio cur
    match (w.task cur).waitingOnMutex with
    | some m => refreshPrio n (w.refreshWaiters st m) (w.mutex m).owner
    | none =>
      match (w.task cur).waitingOnFutex with
      | some i =>
        if w.lookup (w.piState i).key = some i then
          refreshPrio n (w.refreshTop st i) (w.piState i).owner
        else w
      | none => w

/-- `PI_CHAIN_MAX`. -/
def chainMax : ℕ := 32

/-- `pi_refresh_owner_chain`, and `futex_pi_refresh_owner_chain`. -/
def refreshOwnerChain : Option T → World T M
  | none => w
  | some t =>
    if (w.task t).waitingOnTask.isSome then refreshPrio st chainMax w (some t) else w

/-! ## What a task waits for -/

/-- `pi_set_wait_dependency`. -/
def setMutexDependency (t : T) (m : M) (owner : Option T) : World T M :=
  w.setTask t fun d ↦
    { d with waitingOnMutex := some m, waitingOnFutex := none, waitingOnTask := owner }

/-- `futex_pi_set_wait_dependency`. -/
def setFutexDependency (t : T) (i : Slot) : World T M :=
  w.setTask t fun d ↦
    { d with waitingOnMutex := none, waitingOnFutex := some i, waitingOnTask := (w.piState i).owner }

/-- `pi_clear_wait_dependency`, and `futex_pi_clear_wait_dependency`. -/
def clearDependency (t : T) : World T M :=
  w.setTask t fun d ↦
    { d with waitingOnMutex := none, waitingOnFutex := none, waitingOnTask := none }

def init (basePrio : T → ℕ) : World T M where
  task t := ⟨basePrio t, basePrio t, 0, [], [], none, none, none⟩
  mutex _ := ⟨none, [], 0⟩
  mutexWaiter _ := ⟨none, .plain, false, false, false⟩
  waiters _ := []
  piStates _ := []
  piState _ := ⟨false, 0, none, 0, false⟩
  futexWaiter _ := ⟨0, none, false, false⟩

end World

end Mazu.Sync.Pi
