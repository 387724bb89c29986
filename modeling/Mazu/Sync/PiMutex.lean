import Mathlib.Data.Finset.Insert
import Mazu.Sync.Pi

/-!
# Mutexes with priority inheritance

Unlocking a mutex hands it to the waiter with the highest priority, by a grant in that waiter's
record; a mutex without waiters is left free. A thread that waits goes round its loop whenever it
runs, and links itself again if something unlinked it.

The assertions of the source are outcomes: a step ends in a state, or in the assertion that fails
and halts the kernel. Callers lock correctly: they lock what they do not hold and unlock what they
hold, where a thread holds what its calls said they locked.

The walk along the chain of owners comes after a call has released the mutex, so the pieces of it
are steps of their own, which any thread may take at any time; so are changes of the base
priorities. A thread that was switched away from for the last time gives up what it owns one mutex
at a time. Condition variables are there for their callers: what wakes a thread that waits on one is
left open.
-/

namespace Mazu.Sync.Pi

open Sched (TdState)

/-- The call that a thread is in. -/
inductive Phase (M : Type)
  | out
  /-- In one of the locking calls. -/
  | lock
  /-- In `condvar_wait`, on the queue and before it unlocks the mutex. -/
  | condvar (m : M)
  /-- In `condvar_wait`, to be woken. -/
  | sleep (m : M)
  /-- In `condvar_wait`, before it locks the mutex again. -/
  | relock (m : M)
  deriving DecidableEq

inductive Assertion
  /-- `ALWAYS_ASSERT(mtx->owner != self)` of the locking calls. -/
  | ownerNotSelf
  /-- `ALWAYS_ASSERT(rc == 0)` of `pi_mutex_lock`. -/
  | lockSucceeds
  /-- `ALWAYS_ASSERT(mtx->owner == self)` of `pi_mutex_unlock`. -/
  | ownerIsSelf
  /-- `ALWAYS_ASSERT(w != NULL)` of `pi_mutex_unlock`. -/
  | someWaiter
  deriving DecidableEq

structure Obj (T M : Type) where
  world : World T M
  phase : T → Phase M
  /-- What the calls of a thread have locked and not unlocked. -/
  holds : T → Finset M

abbrev Sys (T M : Type) := Sync.Sys (Obj T M) T

namespace World

variable {T M : Type} [DecidableEq T] [DecidableEq M] (w : World T M) (st : T → TdState)

def dequeue (t : T) (m : M) : World T M :=
  w.setMutex m fun x ↦ { x with waiters := x.waiters.erase t }

/-- A waiter goes, and the priorities of the mutex and its owner follow. -/
def unlink (t : T) (m : M) : World T M :=
  ((w.dequeue t m).refreshWaiters st m).recomputeOwner (w.mutex m).owner

/-- The place of a thread in a queue by descending priority. -/
def insertByPrio (t : T) (q : List T) : List T :=
  q.takeWhile (fun u ↦ ¬w.prio u < w.prio t) ++ t :: q.dropWhile fun u ↦ ¬w.prio u < w.prio t

def enqueue (t : T) (m : M) : World T M :=
  w.setMutex m fun x ↦ { x with waiters := w.insertByPrio t x.waiters }

def setOwner (m : M) (o : Option T) : World T M := w.setMutex m fun x ↦ { x with owner := o }

/-- `list_add` of a mutex to what a task holds. -/
def addHeld (t : T) (m : M) : World T M :=
  w.setTask t fun d ↦ { d with heldMutexes := m :: d.heldMutexes }

def removeHeld (t : T) (m : M) : World T M :=
  w.setTask t fun d ↦ { d with heldMutexes := d.heldMutexes.erase m }

/-- Direct handover to a waiter. -/
def handOver (m : M) (u : T) : World T M :=
  let w := ((w.dequeue u m).refreshWaiters st m).setOwner m (some u)
  ((w.setMutexWaiter u fun r ↦ { r with granted := true }).addHeld u m).recomputePrio u

def stopCallout (t : T) : World T M := w.setMutexWaiter t fun r ↦ { r with callout := false }

/-- `pi_mutex_wait_cleanup`, as far as the mutex's lock is held. -/
def waitCleanup (t : T) : World T M :=
  match (w.mutexWaiter t).mtx with
  | none => w
  | some m => (w.stopCallout t).unlink st t m

/-- The mutex is free and the thread takes it. -/
def take (t : T) (m : M) : World T M :=
  let w := if t ∈ (w.mutex m).waiters then (w.dequeue t m).refreshWaiters st m else w
  ((w.setOwner m (some t)).clearDependency t).addHeld t m

/-- The thread has to wait for the owner. -/
def await (t : T) (m : M) (owner : T) : World T M :=
  let w := w.setMutexDependency t m (some owner)
  let w := if t ∈ (w.mutex m).waiters then w else
    (w.enqueue t m).setMutexWaiter t fun r ↦ { r with callout := decide (r.call = .timed) }
  (w.refreshWaiters st m).recomputePrio owner

/-- The granted mutex is among what the thread holds, or is put there. -/
def acceptGrant (t : T) (m : M) : World T M :=
  let w := w.clearDependency t
  if m ∈ (w.task t).heldMutexes then w else w.addHeld t m

end World

section Model

variable {T M : Type} [DecidableEq T] [DecidableEq M] (s : Sys T M) (t : T) (m : M)

/-- The states of the threads. -/
def states (u : T) : TdState := (s.thread u).state

def setWorld (w : World T M) : Sys T M := { s with obj := { s.obj with world := w } }

def setPhase (p : Phase M) : Sys T M :=
  { s with obj := { s.obj with phase := Function.update s.obj.phase t p } }

def setHolds (h : Finset M) : Sys T M :=
  { s with obj := { s.obj with holds := Function.update s.obj.holds t h } }

/-- The callback of a wait: a thread that waits on a condition variable is on the queue of no
mutex. -/
def waitCleanup : Sys T M :=
  if s.obj.phase t = .lock then setWorld s (s.obj.world.waitCleanup (states s) t) else s

/-! ## Unlocking -/

/-- Ownership goes to `u`, which is woken. -/
def handOver (u : T) : Sys T M :=
  (setWorld s (s.obj.world.handOver (states s) m u)).modify u Thread.wakeReady

def unlock : Except Assertion (Sys T M) :=
  if (s.obj.world.mutex m).owner = some t then
    let w := (s.obj.world.removeHeld t m).recomputePrio t
    let s := setHolds (setWorld s w) t ((s.obj.holds t).erase m)
    if (w.mutex m).waiters = [] then .ok (setWorld s (w.setOwner m none))
    else
      match w.bestWaiter (states s) m with
      | none => .error .someWaiter
      | some u => .ok (handOver s m u)
  else .error .ownerIsSelf

/-- One pass of the loop of `pi_mutex_release_all`. -/
def releaseFirst : Option (Sys T M) :=
  match (s.obj.world.task t).heldMutexes with
  | [] => none
  | m :: _ =>
    let w := s.obj.world.removeHeld t m
    let free := setWorld s (w.setMutex m fun x ↦ { x with owner := none, topWaiterPrio := 0 })
    if (w.mutex m).owner ≠ some t then some (setWorld s w)
    else if (w.mutex m).waiters = [] then some free
    else
      match w.bestWaiter (states s) m with
      | none => some free
      | some u => some (handOver (setWorld s w) m u)

/-! ## Locking -/

/-- A call ends with the mutex. -/
def succeed (w : World T M) (f : Thread → Thread) : Sys T M :=
  (setHolds (setPhase (setWorld s w) t .out) t (insert m (s.obj.holds t))).modify t f

/-- A call ends without the mutex. -/
def fail (w : World T M) : Sys T M :=
  (setPhase (setWorld s w) t .out).modify t (·.unblock .blocked)

/-- A call ends, and the state of the thread is not looked at. -/
def endCall (d : Thread) : Thread := { d with blockCleanup := false, inside := false }

def block (owner : T) : Sys T M :=
  (setWorld s (s.obj.world.await (states s) t m owner)).modify t (·.block .blocked)

/-- One pass of the loop of `pi_mutex_lock_interruptible`; `pi_mutex_lock` asserts that it did not
fail. -/
def pass : Except Assertion (Sys T M) :=
  let w := s.obj.world
  let r := w.mutexWaiter t
  if (s.thread t).abort ∧ t ∈ (w.mutex m).waiters ∧ r.granted = false then
    if r.call = .plain then .error .lockSucceeds
    else .ok (fail s t ((w.unlink (states s) t m).clearDependency t))
  else if r.granted then .ok (succeed s t m (w.acceptGrant t m) endCall)
  else
    match (w.mutex m).owner with
    | none => .ok (succeed s t m (w.take (states s) t m) endCall)
    | some o => if o = t then .error .ownerNotSelf else .ok (block s t m o)

/-- One pass of the loop of `pi_mutex_lock_timed`. -/
def passTimed : Except Assertion (Sys T M) :=
  let w := s.obj.world
  let r := w.mutexWaiter t
  if r.granted then
    .ok (succeed s t m ((w.acceptGrant t m).stopCallout t) (·.unblock .blocked))
  else if (s.thread t).abort ∧ t ∈ (w.mutex m).waiters then
    .ok (fail s t (((w.unlink (states s) t m).clearDependency t).stopCallout t))
  else if r.timedOut then .ok (fail s t ((w.clearDependency t).stopCallout t))
  else
    match (w.mutex m).owner with
    | none => .ok (succeed s t m ((w.take (states s) t m).stopCallout t) (·.unblock .blocked))
    | some o => if o = t then .error .ownerNotSelf else .ok (block s t m o)

def loopBody : Except Assertion (Sys T M) :=
  if (s.obj.world.mutexWaiter t).call = .timed then passTimed s t m else pass s t m

/-- The start of a call, with a new record, up to the first yield. -/
def lock (c : LockCall) : Except Assertion (Sys T M) :=
  let w := s.obj.world.setMutexWaiter t fun _ ↦ ⟨some m, c, false, false, false⟩
  loopBody (setPhase (setWorld s w) t .lock) t m

def tryLock : Sys T M :=
  if (s.obj.world.mutex m).owner = none then
    setHolds (setWorld s ((s.obj.world.setOwner m (some t)).addHeld t m)) t
      (insert m (s.obj.holds t))
  else s

/-- `pi_mutex_timeout_fn`. -/
def timeoutFn : Sys T M :=
  let w := s.obj.world.stopCallout t
  if t ∈ (w.mutex m).waiters ∧ (w.mutexWaiter t).granted = false ∧
      (s.thread t).state ≠ .terminating then
    let w := (w.unlink (states s) t m).setMutexWaiter t fun r ↦ { r with timedOut := true }
    (setWorld s w).modify t Thread.wakeReady
  else setWorld s w

/-! ## The machine -/

inductive Event (T M : Type)
  | env (e : Env T)
  | lock (t : T) (m : M) (c : LockCall)
  | tryLock (t : T) (m : M)
  | unlock (t : T) (m : M)
  /-- The thread runs again inside a locking call. -/
  | resume (t : T)
  /-- The callout of a timed call fires. -/
  | timeout (t : T)
  | release (t : T)
  /-- `prepare_to_wait` of `condvar_wait`. -/
  | condvarWait (t : T) (m : M)
  /-- `pi_mutex_unlock` of `condvar_wait`. -/
  | condvarUnlock (t : T)
  /-- Something wakes a thread that waits on a condition variable. -/
  | condvarWake (t : T)
  /-- `finish_wait` of `condvar_wait`. -/
  | condvarFinish (t : T)
  /-- `pi_mutex_lock` of `condvar_wait`. -/
  | condvarRelock (t : T)
  /-- The callback that a nudge took was that of an earlier wait. -/
  | staleNudge (t : T)
  | recompute (t : T)
  | refresh (m : M)
  | setBase (t : T) (p : ℕ)

/-- The thread can make a call. -/
def Calls : Prop := (s.thread t).Runs ∧ s.obj.phase t = .out

instance : Decidable (Calls s t) := inferInstanceAs (Decidable (_ ∧ _))

def step (s : Sys T M) : Event T M → Option (Except Assertion (Sys T M))
  | .env e => (envStep waitCleanup s e).map .ok
  | .lock t m c => if Calls s t ∧ m ∉ s.obj.holds t then some (lock s t m c) else none
  | .tryLock t m => if Calls s t then some (.ok (tryLock s t m)) else none
  | .unlock t m => if Calls s t ∧ m ∈ s.obj.holds t then some (unlock s t m) else none
  | .resume t =>
    match (s.obj.world.mutexWaiter t).mtx with
    | none => none
    | some m =>
      if (s.thread t).Runs ∧ s.obj.phase t = .lock then some (loopBody s t m) else none
  | .timeout t =>
    match (s.obj.world.mutexWaiter t).mtx with
    | none => none
    | some m =>
      if (s.obj.world.mutexWaiter t).callout then some (.ok (timeoutFn s t m)) else none
  | .release t => if (s.thread t).reaped then (releaseFirst s t).map .ok else none
  | .condvarWait t m =>
    if Calls s t ∧ m ∈ s.obj.holds t then
      some (.ok ((setPhase s t (.condvar m)).modify t (·.block .blocked)))
    else none
  | .condvarUnlock t =>
    match s.obj.phase t with
    | .condvar m =>
      if (s.thread t).onCpu ∧ ¬(s.thread t).reaped then
        some ((unlock s t m).map fun s ↦ setPhase s t (.sleep m))
      else none
    | _ => none
  | .condvarWake t =>
    match s.obj.phase t with
    | .condvar _ | .sleep _ =>
      if (s.thread t).state = .blocked then some (.ok (s.modify t Thread.wakeReady)) else none
    | _ => none
  | .condvarFinish t =>
    match s.obj.phase t with
    | .sleep m =>
      if (s.thread t).Runs then
        some (.ok ((setPhase s t (.relock m)).modify t fun d ↦ { d with blockCleanup := false }))
      else none
    | _ => none
  | .condvarRelock t =>
    match s.obj.phase t with
    | .relock m => if (s.thread t).Runs then some (lock s t m .plain) else none
    | _ => none
  | .staleNudge t =>
    if s.Nudged t .cleanup then
      some (.ok { s with nudges := (t, .wake) :: s.nudges.erase (t, .cleanup) })
    else none
  | .recompute t => some (.ok (setWorld s (s.obj.world.recomputePrio t)))
  | .refresh m => some (.ok (setWorld s (s.obj.world.refreshWaiters (states s) m)))
  | .setBase t p =>
    some (.ok (setWorld s (s.obj.world.setTask t fun d ↦ { d with basePrio := p })))

/-- A step that does not halt the kernel. -/
def goesOn (s : Sys T M) (e : Event T M) : Option (Sys T M) := (step s e).bind Except.toOption

/-- The states that are reached from free mutexes, for any base priorities. -/
def Reach (s : Sys T M) : Prop :=
  ∃ p : T → ℕ, Runs.Run goesOn (fun _ _ ↦ True)
    (.boot ⟨World.init p, fun _ ↦ .out, fun _ ↦ ∅⟩) s

end Model

end Mazu.Sync.Pi
