import Mazu.Sync.Threads

/-!
# Reader-writer locks

`reader_count` is the number of readers, or -1 when a writer holds the lock. Waiters are granted the
lock by the thread that lets it go: they find the grant in their record when they run. Queued
writers keep new readers out.

The numbers of times that each thread holds the lock are there for the specification only, and so is
the rule that only a holder unlocks.
-/

namespace Mazu.Sync.Rwlock

open Function

open Sched (TdState)

inductive Mode
  | read
  | write
  deriving DecidableEq

/-- `struct rw_waiter` in the frame of a thread, with what its timeout shares with it. -/
structure Waiter where
  mode : Mode
  granted : Bool
  /-- The timeout callout is set. -/
  callout : Bool
  timedOut : Bool
  deriving DecidableEq

/-- `struct rwlock`, and the records of its waiters. -/
structure Lock (T : Type) where
  readerCount : ℤ
  writerOwner : Option T
  readerWaitq : List T
  writerWaitq : List T
  writerPending : Bool
  waiter : T → Waiter
  /-- How often the thread holds the lock in a mode. -/
  holds : T → Mode → ℕ

/-- `rwlock_init`. -/
def Lock.init (T : Type) : Lock T where
  readerCount := 0
  writerOwner := none
  readerWaitq := []
  writerWaitq := []
  writerPending := false
  waiter _ := ⟨.read, false, false, false⟩
  holds _ _ := 0

abbrev Sys (T : Type) := Sync.Sys (Lock T) T

variable {T : Type} [DecidableEq T] (s : Sys T) (t : T)

def setWaiter (f : Waiter → Waiter) : Sys T :=
  { s with obj := { s.obj with waiter := update s.obj.waiter t (f (s.obj.waiter t)) } }

/-! ## Grants -/

def grantReader : Sys T :=
  (setWaiter { s with obj := { s.obj with readerCount := incI32 s.obj.readerCount } } t
    fun w ↦ { w with granted := true }).modify t Thread.wakeReady

/-- The readers are taken off the queue one by one; those that are dying get nothing. -/
def wakeReadersLoop (s : Sys T) : List T → Sys T
  | [] => s
  | t :: ts =>
    wakeReadersLoop (if (s.thread t).state = .terminating then s else grantReader s t) ts

def wakeReadersLocked : Sys T :=
  wakeReadersLoop { s with obj := { s.obj with readerWaitq := [] } } s.obj.readerWaitq

def grantWriter (rest : List T) : Sys T :=
  (setWaiter { s with obj := { s.obj with
      writerWaitq := rest
      readerCount := -1
      writerOwner := some t
      writerPending := !rest.isEmpty } } t
    fun w ↦ { w with granted := true }).modify t Thread.wakeReady

/-- The first writer on the queue that is not dying, if there is one. -/
def wakeWriterLoop (s : Sys T) : List T → Option (Sys T)
  | [] => none
  | t :: ts =>
    if (s.thread t).state = .terminating then wakeWriterLoop s ts else some (grantWriter s t ts)

/-- `wake_writer_locked`, and the readers when it grants nothing. -/
def wakeWriterOrReaders : Sys T :=
  (wakeWriterLoop s s.obj.writerWaitq).getD
    (wakeReadersLocked { s with obj := { s.obj with writerWaitq := [], writerPending := false } })

/-! ## Leaving the queue -/

/-- `list_del_init` of the thread's node. -/
def listDel : Sys T :=
  { s with obj := { s.obj with
    readerWaitq := s.obj.readerWaitq.erase t
    writerWaitq := s.obj.writerWaitq.erase t } }

/-- A writer has left the queue. -/
def repair : Sys T :=
  if s.obj.writerWaitq = [] then
    let s' : Sys T := { s with obj := { s.obj with writerPending := false } }
    if s.obj.readerCount = 0 then wakeReadersLocked s' else s'
  else s

/-- The waiter leaves the queue, a writer with the repair. -/
def leaveQueue : Sys T :=
  if (s.obj.waiter t).mode = .write then repair (listDel s t) else listDel s t

def rwWaitCleanup : Sys T :=
  leaveQueue (setWaiter s t fun w ↦ { w with callout := false }) t

/-- The waiter's node is on its queue. -/
def Linked : Prop := t ∈ s.obj.readerWaitq ∨ t ∈ s.obj.writerWaitq

instance : Decidable (Linked s t) := inferInstanceAs (Decidable (_ ∨ _))

def rwTimeoutFn : Sys T :=
  let s := setWaiter s t fun w ↦ { w with callout := false }
  if Linked s t ∧ (s.obj.waiter t).granted = false ∧ (s.thread t).state ≠ .terminating then
    (setWaiter (leaveQueue s t) t fun w ↦ { w with timedOut := true }).modify t Thread.wakeReady
  else s

/-! ## Calls -/

/-- The lock can be had at once. -/
def Free : Mode → Prop
  | .read => 0 ≤ s.obj.readerCount ∧ s.obj.writerPending = false
  | .write => s.obj.readerCount = 0

instance (m : Mode) : Decidable (Free s m) := by
  cases m <;> unfold Free <;> infer_instance

/-- The thread holds the lock `n` times in the mode. -/
def setHolds (m : Mode) (n : ℕ) : Sys T :=
  { s with obj := { s.obj with
    holds := update s.obj.holds t (update (s.obj.holds t) m n) } }

def hold (m : Mode) : Sys T := setHolds s t m (s.obj.holds t m + 1)

def take : Mode → Sys T
  | .read => hold { s with obj := { s.obj with readerCount := incI32 s.obj.readerCount } } t .read
  | .write => hold { s with obj := { s.obj with readerCount := -1, writerOwner := some t } } t .write

def enqueue : Mode → Sys T
  | .read => { s with obj := { s.obj with readerWaitq := s.obj.readerWaitq ++ [t] } }
  | .write => { s with obj := { s.obj with
      writerWaitq := s.obj.writerWaitq ++ [t], writerPending := true } }

def block (m : Mode) (timed : Bool) : Sys T :=
  (setWaiter (enqueue s t m) t fun _ ↦ ⟨m, false, timed, false⟩).modify t (·.block .blocked)

/-- The end of the wait: with the lock when it was granted. -/
def finish : Sys T :=
  let s' := setWaiter s t fun w ↦ { w with callout := false }
  (if (s.obj.waiter t).granted then hold (listDel s' t) t (s.obj.waiter t).mode
    else leaveQueue s' t).modify t (·.unblock .blocked)

/-- One pass of the waiting loop. -/
def loopBody : Sys T :=
  if (s.obj.waiter t).granted ∨ (s.obj.waiter t).timedOut ∨ (s.thread t).abort then finish s t
  else s

/-- `rwlock_rdlock_interruptible`, `rwlock_wrlock_interruptible` and the timed calls. -/
def lock (m : Mode) (timed : Bool) : Sys T :=
  if Free s m then take s t m else loopBody (block s t m timed) t

def tryLock (m : Mode) : Sys T := if Free s m then take s t m else s

/-- The thread holds the lock once less. -/
def letGo (m : Mode) : Sys T := setHolds s t m (s.obj.holds t m - 1)

def unlockWriter : Sys T :=
  let s' : Sys T := { letGo s t .write with obj := { (letGo s t .write).obj with
    readerCount := 0, writerOwner := none } }
  if s.obj.writerWaitq = [] then wakeReadersLocked s' else wakeWriterOrReaders s'

def unlockReader : Sys T :=
  let s' : Sys T := { letGo s t .read with obj := { (letGo s t .read).obj with
    readerCount := s.obj.readerCount - 1 } }
  if s.obj.readerCount - 1 = 0 ∧ s.obj.writerPending then wakeWriterOrReaders s' else s'

def unlock : Sys T :=
  if s.obj.readerCount = -1 then unlockWriter s t
  else if 0 < s.obj.readerCount then unlockReader s t
  else letGo s t .read

inductive Event (T : Type)
  | env (e : Env T)
  | lock (t : T) (m : Mode) (timed : Bool)
  | tryLock (t : T) (m : Mode)
  /-- The thread runs again inside its wait. -/
  | resume (t : T)
  /-- The callout of the thread's wait fires. -/
  | timeout (t : T)
  | unlock (t : T)

/-- The thread can call the lock's functions. -/
def Calls : Prop := (s.thread t).Runs ∧ (s.thread t).inside = false

instance : Decidable (Calls s t) := inferInstanceAs (Decidable (_ ∧ _))

/-- Only a holder unlocks. -/
def step (s : Sys T) : Event T → Option (Sys T)
  | .env e => envStep rwWaitCleanup s e
  | .lock t m timed => if Calls s t then some (lock s t m timed) else none
  | .tryLock t m => if Calls s t then some (tryLock s t m) else none
  | .resume t =>
    if (s.thread t).Runs ∧ (s.thread t).inside = true then some (loopBody s t) else none
  | .timeout t => if (s.obj.waiter t).callout = true then some (rwTimeoutFn s t) else none
  | .unlock t =>
    if Calls s t ∧ (0 < s.obj.holds t .read ∨ 0 < s.obj.holds t .write) then some (unlock s t) else none

/-- The states that a lock reaches from `rwlock_init`. -/
def Reach (K : Sys T → Event T → Prop) (s : Sys T) : Prop :=
  Runs.Run step K (Sync.Sys.boot (Lock.init T)) s

end Mazu.Sync.Rwlock
