import Mazu.Sync.Threads

/-!
# Semaphores

A post hands its token to the first waiter, by a grant in the waiter's record; the count grows only
when nobody waits. The callback of a waiter takes it off the queue, or hands the token on when it
was granted one.

The numbers of posts and of successful waits are there for the specification only.
-/

namespace Mazu.Sync.Semaphore

/-- The call that a waiter is in. -/
inductive Call
  /-- `sem_wait`, which looks neither at signals nor at cancellation. -/
  | plain
  /-- `sem_wait_interruptible`. -/
  | interruptible
  /-- `sem_timedwait`. -/
  | timed
  deriving DecidableEq

/-- `struct sem_waiter` in the frame of a thread, with what its timeout shares with it. -/
structure Waiter where
  call : Call
  granted : Bool
  /-- The timeout callout is set. -/
  callout : Bool
  timedOut : Bool
  deriving DecidableEq

/-- `struct semaphore`, and the records of its waiters. -/
structure Sem (T : Type) where
  count : ℤ
  waiters : List T
  waiter : T → Waiter
  posts : ℕ
  taken : ℕ

/-- `sem_init`. -/
def Sem.init (T : Type) (initialCount : ℕ) : Sem T where
  count := initialCount
  waiters := []
  waiter _ := ⟨.plain, false, false, false⟩
  posts := 0
  taken := 0

abbrev Sys (T : Type) := Sync.Sys (Sem T) T

variable {T : Type} [DecidableEq T] (s : Sys T) (t : T)

def setWaiter (f : Waiter → Waiter) : Sys T :=
  { s with obj := { s.obj with waiter := Function.update s.obj.waiter t (f (s.obj.waiter t)) } }

/-- Direct handover: the thread has the token, the others wait on. -/
def grant (rest : List T) : Sys T :=
  (setWaiter { s with obj := { s.obj with waiters := rest } } t
    fun w ↦ { w with granted := true }).modify t Thread.wakeReady

def putBack : Sys T :=
  { s with obj := { s.obj with waiters := [], count := incI32 s.obj.count } }

/-- The token goes to the first waiter that is not dying, or back to the count. -/
def handOn (s : Sys T) : List T → Sys T
  | [] => putBack s
  | t :: ts => if (s.thread t).state = .terminating then handOn s ts else grant s t ts

def listDel : Sys T := { s with obj := { s.obj with waiters := s.obj.waiters.erase t } }

/-- `callout_cancel_sync`, or the callout fires. -/
def dropCallout : Sys T := setWaiter s t fun w ↦ { w with callout := false }

/-- The section of `sem_wait_cleanup` under the semaphore's lock. -/
def cleanupLocked : Sys T :=
  if t ∈ s.obj.waiters then listDel s t
  else if (s.obj.waiter t).granted then handOn s s.obj.waiters
  else s

def semWaitCleanup : Sys T := cleanupLocked (dropCallout s t) t

def semTimeoutFn : Sys T :=
  let s := dropCallout s t
  if t ∈ s.obj.waiters ∧ (s.obj.waiter t).granted = false ∧ (s.thread t).state ≠ .terminating then
    (setWaiter (listDel s t) t fun w ↦ { w with timedOut := true }).modify t Thread.wakeReady
  else s

/-! ## Calls -/

def take : Sys T :=
  { s with obj := { s.obj with count := s.obj.count - 1, taken := s.obj.taken + 1 } }

def block (c : Call) : Sys T :=
  (setWaiter { s with obj := { s.obj with waiters := s.obj.waiters ++ [t] } } t
    fun _ ↦ ⟨c, false, decide (c = .timed), false⟩).modify t (·.block .semWait)

theorem thread_block (c : Call) (u : T) : (block s t c).thread u =
    if u = t then (s.thread t).block .semWait else s.thread u := thread_modify ..

theorem waiter_block (c : Call) (u : T) : (block s t c).obj.waiter u =
    if u = t then ⟨c, false, decide (c = .timed), false⟩ else s.obj.waiter u :=
  Function.update_apply ..

/-- The end of the wait: with a token when one was granted. -/
def finish : Sys T :=
  let s' := (dropCallout (listDel s t) t).modify t (·.unblock .semWait)
  { s' with obj := { s'.obj with
    taken := if (s.obj.waiter t).granted then s.obj.taken + 1 else s.obj.taken } }

/-- The waiting loop is left. -/
def Leaves : Prop :=
  (s.obj.waiter t).granted = true ∨ (s.obj.waiter t).timedOut = true ∨
    (s.obj.waiter t).call ≠ .plain ∧ (s.thread t).abort = true

instance : Decidable (Leaves s t) := inferInstanceAs (Decidable (_ ∨ _ ∨ _))

/-- One pass of the waiting loop. -/
def loopBody : Sys T := if Leaves s t then finish s t else s

/-- `sem_wait`, `sem_wait_interruptible` and `sem_timedwait`. -/
def wait (c : Call) : Sys T :=
  if 0 < s.obj.count then take s else loopBody (block s t c) t

def semTrywait : Sys T := if 0 < s.obj.count then take s else s

def semPost : Sys T :=
  match s.obj.waiters with
  | [] => { putBack s with obj := { (putBack s).obj with posts := s.obj.posts + 1 } }
  | t :: ts => { grant s t ts with obj := { (grant s t ts).obj with posts := s.obj.posts + 1 } }

inductive Event (T : Type)
  | env (e : Env T)
  | wait (t : T) (c : Call)
  | tryWait (t : T)
  | post
  /-- The thread runs again inside its wait. -/
  | resume (t : T)
  /-- The callout of the thread's wait fires. -/
  | timeout (t : T)

/-- The thread can call the semaphore's functions. -/
def Calls : Prop := (s.thread t).Runs ∧ (s.thread t).inside = false

instance : Decidable (Calls s t) := inferInstanceAs (Decidable (_ ∧ _))

def step (s : Sys T) : Event T → Option (Sys T)
  | .env e => envStep semWaitCleanup s e
  | .wait t c => if Calls s t then some (wait s t c) else none
  | .tryWait t => if Calls s t then some (semTrywait s) else none
  | .post => some (semPost s)
  | .resume t =>
    if (s.thread t).Runs ∧ (s.thread t).inside = true then some (loopBody s t) else none
  | .timeout t => if (s.obj.waiter t).callout = true then some (semTimeoutFn s t) else none

/-- The states that a semaphore reaches from `sem_init`. -/
def Reach (n : ℕ) (K : Sys T → Event T → Prop) (s : Sys T) : Prop :=
  Runs.Run step K (Sync.Sys.boot (Sem.init T n)) s

end Mazu.Sync.Semaphore
