import Mathlib

/-!
# The scheduler

Tasks, harts, run queues, wait lists and scheduling domains, and the functions of the scheduler
core over them. A task's queue node (`sleep_list`) is on at most one list: a run queue of some hart
or the list of sleepers. A hart passes through the phases of a context switch: it runs its current
thread, traps, gives the old thread up and picks another under the run-queue lock, and only then
stores the new current thread.

The number of harts is a parameter. Priorities computed by priority inheritance, the moments at
which wakers are called and the length of time slices come from outside.
-/

namespace Mazu.Sched

open Function

abbrev Tid := ℕ

inductive TdState
  | ready
  | running
  | sleeping
  | semWait
  | yielding
  | terminating
  | blocked
  deriving DecidableEq

/-- `CONFIG_SCHED_NPRIO` levels. -/
abbrev Prio := Fin 4

def schedPrioIdle : Prio := 0

/-- The levels, highest first: the order in which the bits of the bitmap are looked at. -/
def prios : List Prio := [3, 2, 1, 0]

/-- The lists a thread can wait on. -/
inductive WaitKind
  | sem
  | mutex
  | reader
  | writer
  | barrier
  | mqSend
  | mqRecv
  | futex
  | waitqueue
  deriving DecidableEq

structure WaitObj where
  kind : WaitKind
  id : ℕ
  deriving DecidableEq

/-- The state a thread waits in. -/
def WaitKind.state : WaitKind → TdState
  | sem => .semWait
  | _ => .blocked

structure Task (n : ℕ) where
  state : TdState
  /-- `td_prio`, the effective priority. -/
  prio : Prio
  /-- `td_affinity`, when it is not negative. -/
  affinity : Option (Fin n)
  lastCpu : Option (Fin n)
  domain : Option ℕ
  /-- `td_block_cleanup`, by the list that the callback takes the thread off. -/
  blockCleanup : Option WaitObj
  /-- `pi_held_mutexes`. -/
  held : List ℕ
  cleanupQueued : Bool
  /-- The wait that the thread's own code is inside. -/
  waiting : Option WaitObj
  /-- The state was written last because the budget of the domain was used up. -/
  parked : Bool
  deriving DecidableEq

/-- A zeroed task structure with the values `sched_task_alloc_init` stores. -/
def Task.fresh (n : ℕ) : Task n where
  state := .ready
  prio := schedPrioIdle
  affinity := none
  lastCpu := none
  domain := none
  blockCleanup := none
  held := []
  cleanupQueued := false
  waiting := none
  parked := false

inductive DomainState
  | active
  | depleted
  deriving DecidableEq

structure Domain where
  state : DomainState
  consumedTicks : ℕ
  quantumTicks : ℕ
  /-- `members[0 .. nr_members)`. -/
  members : List Tid

def schedDomainMaxMembers : ℕ := 8

/-- Where a hart is between two picks. -/
inductive Phase
  /-- It executes its current thread. -/
  | running
  /-- The frame is saved and `sched_schedule` has not yet taken the run-queue lock. -/
  | trapped
  /-- The lock is dropped again for a terminating thread whose block cleanup is due. -/
  | cleaning
  /-- `pi_mutex_release_all` of a terminating thread. -/
  | releasing
  /-- The lock is dropped for good, `curthread` is not yet stored; `free` is `old_needs_free`. -/
  | picked (next : Tid) (free : Bool)
  deriving DecidableEq

structure Hart where
  curthread : Tid
  phase : Phase

structure Sys (n : ℕ) where
  task : Tid → Task n
  nextTid : Tid
  hart : Fin n → Hart
  runq : Fin n → Prio → List Tid
  bitmap : Fin n → Prio → Bool
  sleepList : List Tid
  /-- Calls of `sched_enqueue_ready` that have chosen a hart and not yet taken its lock. -/
  pending : List (Tid × Fin n)
  waiters : WaitObj → List Tid
  /-- Owners of the PI mutexes. -/
  owner : ℕ → Option Tid
  /-- `realtime_clock_waiters`. -/
  realtime : List Tid
  dom : ℕ → Domain
  /-- The tasks attached to a process. -/
  threads : ℕ → List Tid

variable {n : ℕ}

namespace Sys

variable (s : Sys n) (t : Tid) (c : Fin n) (p : Prio) (w : WaitObj)

def state : TdState := (s.task t).state

def prio : Prio := (s.task t).prio

def cur : Tid := (s.hart c).curthread

def phase : Phase := (s.hart c).phase

/-! ## Updates -/

def setTask (f : Task n → Task n) : Sys n :=
  { s with task := update s.task t (f (s.task t)) }

/-- `sched_set_task_state`. -/
def setState (st : TdState) : Sys n := s.setTask t fun td ↦ { td with state := st, parked := false }

/-- The task is left out of the run queues because its domain is depleted. -/
def park : Sys n := s.setTask t fun td ↦ { td with state := .blocked, parked := true }

def setPhase (ph : Phase) : Sys n :=
  { s with hart := update s.hart c { s.hart c with phase := ph } }

/-- `list_del_init` of a node of a wait list. -/
def unlinkWait : Sys n :=
  { s with waiters := update s.waiters w ((s.waiters w).filter (· ≠ t)) }

/-! ## Run queues -/

def Queued : Prop := ∃ c p, t ∈ s.runq c p

instance : Decidable (s.Queued t) := inferInstanceAs (Decidable (∃ c p, t ∈ s.runq c p))

/-- The node of the task is on a run queue or on the list of sleepers. -/
def Linked : Prop := s.Queued t ∨ t ∈ s.sleepList

instance : Decidable (s.Linked t) := inferInstanceAs (Decidable (_ ∨ _))

/-- `list_del_init(&task->sleep_list)`. -/
def listDelInit : Sys n :=
  { s with
    runq := fun c p ↦ (s.runq c p).filter (· ≠ t)
    sleepList := s.sleepList.filter (· ≠ t) }

/-- `list_add_tail` to a run queue, with its bit. -/
def addTail : Sys n :=
  { s with
    runq := update s.runq c (update (s.runq c) p (s.runq c p ++ [t]))
    bitmap := update s.bitmap c (update (s.bitmap c) p true) }

/-- The bit is cleared when the queue is empty. -/
def clearIfEmpty : Sys n :=
  if s.runq c p = [] then
    { s with bitmap := update s.bitmap c (update (s.bitmap c) p false) }
  else s

/-- The task belongs to a domain without budget. -/
def Depleted : Prop := (s.task t).domain.any (fun d ↦ (s.dom d).state = .depleted) = true

instance : Decidable (s.Depleted t) := inferInstanceAs (Decidable (_ = _))

end Sys

variable (s : Sys n) (t : Tid) (c : Fin n)

/-- Pinned tasks go to their hart, others to the one they ran on last, new ones to the caller's. -/
def schedSelectCpu : Fin n := ((s.task t).affinity.or (s.task t).lastCpu).getD c

/-- The section of `sched_enqueue_cpu_locked`. Reading the domain's state twice is reading it once
in a section that nothing interrupts. -/
def schedEnqueueCpuLocked : Sys n :=
  if s.Linked t then s
  else if s.Depleted t then s.park t
  else (s.setState t .ready).addTail t c (s.prio t)

/-- `sched_wake_ready` and the beginning of `sched_enqueue_ready`, whose section comes later. -/
def schedWakeReady : Sys n :=
  { s.setState t .ready with pending := (t, schedSelectCpu s t c) :: s.pending }

/-- Several tasks are woken one after the other. -/
def wakeList (l : List Tid) : Sys n := l.foldl (fun s t ↦ schedWakeReady s t c) s

/-- The bit that is cleared is that of the task's present priority. -/
def schedDequeueTaskLocked : Sys n := (s.listDelInit t).clearIfEmpty c (s.prio t)

/-- The first task in the highest queue whose bit is set; a set bit over an empty queue is passed
over. -/
def firstQueued (q : Prio → List Tid) (bm : Prio → Bool) : List Prio → Option Tid
  | [] => none
  | p :: ps =>
    if bm p then
      match q p with
      | [] => firstQueued q bm ps
      | t :: _ => some t
    else firstQueued q bm ps

def schedPickFromCpuLocked : Option (Tid × Sys n) :=
  (firstQueued (s.runq c) (s.bitmap c) prios).map fun t ↦ (t, schedDequeueTaskLocked s t c)

/-- The first task that may migrate in the highest queue that has one. -/
def firstMigratable (i : Fin n) : List Prio → Option (Prio × Tid)
  | [] => none
  | p :: ps =>
    if s.bitmap i p then
      match (s.runq i p).find? fun t ↦ (s.task t).affinity.isNone with
      | none => firstMigratable i ps
      | some t => some (p, t)
    else firstMigratable i ps

/-- The harts are tried in order; one whose lock is taken (`busy`) is passed over. Idle tasks stay
where they are. -/
def findStolen (busy : List (Fin n)) : List (Fin n) → Option (Fin n × Prio × Tid)
  | [] => none
  | i :: is =>
    if i = c ∨ busy.contains i then findStolen busy is
    else
      match firstMigratable s i [3, 2, 1] with
      | none => findStolen busy is
      | some (p, t) => some (i, p, t)

/-- The stolen task leaves its queue; the bit that may be cleared is that of the queue. -/
def steal (i : Fin n) (p : Prio) : Sys n := (s.listDelInit t).clearIfEmpty i p

/-- With nothing but idle work on the own queues another hart's are searched. Without a task to
run the kernel crashes. -/
def schedPickNextLocal (busy : List (Fin n)) : Option (Tid × Sys n) :=
  match schedPickFromCpuLocked s c with
  | none =>
    match findStolen s c busy (List.finRange n) with
    | none => none
    | some (i, p, u) => some (u, steal s u i p)
  | some (next, s₁) =>
    if schedPrioIdle < s₁.prio next then some (next, s₁)
    else
      match findStolen s₁ c busy (List.finRange n) with
      | none => some (next, s₁)
      | some (i, p, u) => some (u, (steal s₁ u i p).addTail next c (s₁.prio next))

/-- The budget accounting of `sched_schedule`. -/
def chargeDomain (delta : ℕ) : Sys n :=
  match (s.task t).domain with
  | none => s
  | some d =>
    let dom := s.dom d
    let consumed := dom.consumedTicks + delta
    { s with
      dom := update s.dom d
        { dom with
          consumedTicks := consumed
          state := if dom.state = .active ∧ dom.quantumTicks ≤ consumed then .depleted
            else dom.state } }

/-- The outgoing thread goes back to the run queue, or is parked. -/
def putBack : Sys n := if s.Depleted t then s.park t else schedEnqueueCpuLocked s t c

/-- The switch over the state of the outgoing thread. -/
def requeueOld : Sys n :=
  if s.state t = .yielding then putBack (s.setState t .ready) t c
  else if s.state t = .ready then putBack s t c
  else s

/-- `old_needs_free`. -/
def oldNeedsFree : Bool := decide (s.state t = .terminating) && !(s.task t).cleanupQueued

/-- A pick, with the phase after it. -/
def pickInto (busy : List (Fin n)) (free : Bool) : Option (Sys n) :=
  (schedPickNextLocal s c busy).map fun r ↦ r.2.setPhase c (.picked r.1 free)

/-- `sched_schedule` up to the point where it first drops the run-queue lock. -/
def schedSchedule (delta : ℕ) (busy : List (Fin n)) : Option (Sys n) :=
  let old := s.cur c
  let s := requeueOld (chargeDomain s old delta) old c
  if oldNeedsFree s old then some (s.setPhase c .cleaning) else pickInto s c busy false

/-- The run of the block-cleanup callback: whatever list the thread waits on, it comes off it. -/
def runBlockCleanup : Sys n :=
  match (s.task t).blockCleanup with
  | none => s
  | some w => (s.setTask t fun td ↦ { td with blockCleanup := none }).unlinkWait t w

/-- The end of `sched_schedule`. -/
def commitSwitch (next : Tid) (free : Bool) : Sys n :=
  let s := if free then s.setTask (s.cur c) fun td ↦ { td with cleanupQueued := true } else s
  let s := { s with hart := update s.hart c ⟨next, .running⟩ }
  (s.setState next .running).setTask next fun td ↦ { td with lastCpu := some c }

/-! ## PI mutexes -/

/-- The first waiter of the highest priority that is not terminating. -/
def bestWaiter : List Tid → Option Tid
  | [] => none
  | u :: us =>
    match bestWaiter us with
    | none => if s.state u = .terminating then none else some u
    | some v => if s.state u ≠ .terminating ∧ s.prio v ≤ s.prio u then some u else some v

/-- `mtx->owner = task` with the link into the task's list. -/
def giveMutex (m : ℕ) : Sys n :=
  { s.setTask t fun td ↦ { td with held := m :: td.held } with
    owner := update s.owner m (some t) }

def dropMutex (m : ℕ) : Sys n :=
  { s with owner := update s.owner m none }

/-- `list_del_init(&mtx->pi_held)`. -/
def unlinkHeld (m : ℕ) : Sys n := s.setTask t fun td ↦ { td with held := td.held.filter (· ≠ m) }

/-- The mutex goes to waiter `u`, who is woken. -/
def handOver (m : ℕ) (u : Tid) : Sys n :=
  schedWakeReady (giveMutex (s.unlinkWait u ⟨.mutex, m⟩) u m) u c

/-- `pi_mutex_unlock`; it halts the kernel when all waiters are terminating. -/
def piMutexUnlock (m : ℕ) : Option (Sys n) :=
  let s := unlinkHeld s t m
  if s.waiters ⟨.mutex, m⟩ = [] then some (dropMutex s m)
  else (bestWaiter s (s.waiters ⟨.mutex, m⟩)).map (handOver s c m)

/-- One trip round the loop of `pi_mutex_release_all`. -/
def piMutexReleaseOne (m : ℕ) : Sys n :=
  let s := unlinkHeld s t m
  if s.owner m ≠ some t then s
  else
    match bestWaiter s (s.waiters ⟨.mutex, m⟩) with
    | none => dropMutex s m
    | some u => handOver s c m u

/-- A locker finds the mutex free, at once or in its wait loop. -/
def piMutexTake (m : ℕ) : Sys n :=
  giveMutex ((s.unlinkWait t ⟨.mutex, m⟩).setTask t fun td ↦
    { td with blockCleanup := none, waiting := none }) t m

/-! ## Wait lists -/

/-- Where a new waiter goes: by descending priority or at the end. -/
def insertWaiter (w : WaitObj) : List Tid :=
  match w.kind with
  | .mutex | .waitqueue =>
    (s.waiters w).takeWhile (fun u ↦ s.prio t ≤ s.prio u) ++
      t :: (s.waiters w).dropWhile (fun u ↦ s.prio t ≤ s.prio u)
  | _ => s.waiters w ++ [t]

/-- A thread puts itself on a list, if it is not there yet, and stops being runnable. -/
def blockOn (w : WaitObj) : Sys n :=
  let s := { s with
    waiters := update s.waiters w
      (if t ∈ s.waiters w then s.waiters w else insertWaiter s t w) }
  (s.setState t w.kind.state).setTask t fun td ↦
    { td with blockCleanup := some w, waiting := some w }

/-- The end of a wait, whatever ended it. -/
def finishWait (w : WaitObj) : Sys n :=
  let s := (s.unlinkWait t w).setTask t fun td ↦ { td with blockCleanup := none, waiting := none }
  if s.state t = w.kind.state then s.setState t .running else s

/-- Everything that makes waiters ready. -/
inductive Waker
  | semPost (sem : ℕ)
  /-- A dying waiter hands the token it got on (`sem_wait_cleanup`). -/
  | semHandOn (sem : ℕ)
  /-- `wake_one` on the receivers or senders of a queue. -/
  | mqWakeOne (send : Bool) (mq : ℕ)
  /-- One of the two loops of `mqueue_destroy_locked`. -/
  | mqDrain (send : Bool) (mq : ℕ)
  /-- The last arrival at a barrier. -/
  | barrierTrip (b : ℕ)
  | wakeReaders (rw : ℕ)
  | wakeWriter (rw : ℕ)
  | futexWake (key nr : ℕ)
  | wakeUp (wq nr : ℕ)
  /-- The timeout of one waiter. -/
  | timeout (w : WaitObj) (t : Tid)
  | clockSettime

/-- What a waker does: the list it works on, the waiters it takes off, the tasks it wakes. -/
structure Wakes where
  list : WaitObj
  dropped : List Tid
  woken : List Tid

/-- The first waiter, whatever its state. -/
def wakeFirst (w : WaitObj) : Wakes := ⟨w, (s.waiters w).take 1, (s.waiters w).take 1⟩

/-- All waiters, whatever their state. -/
def wakeEach (w : WaitObj) : Wakes := ⟨w, s.waiters w, s.waiters w⟩

/-- The first waiter that is not terminating; those before it are discarded. -/
def wakeFirstLive (w : WaitObj) : Wakes :=
  let dead := (s.waiters w).takeWhile fun t ↦ s.state t = .terminating
  let next := ((s.waiters w).dropWhile fun t ↦ s.state t = .terminating).take 1
  ⟨w, dead ++ next, next⟩

/-- Up to `nr` waiters that are blocked. -/
def blockedWaiters (w : WaitObj) (nr : ℕ) : List Tid :=
  ((s.waiters w).filter fun t ↦ s.state t = .blocked).take nr

/-- The object of a message queue's senders or receivers. -/
def mqSide (send : Bool) (mq : ℕ) : WaitObj := ⟨if send then .mqSend else .mqRecv, mq⟩

/-- The check a timeout makes: entries of a wait queue must be blocked and stay linked, other
waiters must not be terminating. -/
def timeoutWakes (w : WaitObj) (t : Tid) : Wakes :=
  if t ∈ s.waiters w then
    match w.kind with
    | .waitqueue => if s.state t = .blocked then ⟨w, [], [t]⟩ else ⟨w, [], []⟩
    | _ => if s.state t = .terminating then ⟨w, [], []⟩ else ⟨w, [t], [t]⟩
  else ⟨w, [], []⟩

def Waker.wakes : Waker → Wakes
  | semPost o => wakeFirst s ⟨.sem, o⟩
  | semHandOn o => wakeFirstLive s ⟨.sem, o⟩
  | mqWakeOne send o => wakeFirst s (mqSide send o)
  | mqDrain send o => wakeEach s (mqSide send o)
  | barrierTrip o => wakeEach s ⟨.barrier, o⟩
  | wakeReaders o =>
    ⟨⟨.reader, o⟩, s.waiters ⟨.reader, o⟩,
      (s.waiters ⟨.reader, o⟩).filter fun t ↦ s.state t ≠ .terminating⟩
  | wakeWriter o => wakeFirstLive s ⟨.writer, o⟩
  | futexWake o nr =>
    ⟨⟨.futex, o⟩, blockedWaiters s ⟨.futex, o⟩ nr, blockedWaiters s ⟨.futex, o⟩ nr⟩
  | wakeUp o nr =>
    -- `nr = 0` wakes all of them, and the entries stay linked
    ⟨⟨.waitqueue, o⟩, [], blockedWaiters s ⟨.waitqueue, o⟩
      (if nr = 0 then (s.waiters ⟨.waitqueue, o⟩).length else nr)⟩
  | timeout w t => timeoutWakes s w t
  | clockSettime => ⟨⟨.waitqueue, 0⟩, [], s.realtime⟩

def runWaker (k : Waker) : Sys n :=
  let r := k.wakes s
  let s := { s with
    waiters := update s.waiters r.list ((s.waiters r.list).filter (· ∉ r.dropped)) }
  wakeList s c r.woken

/-- `futex_cmp_requeue` moves one blocked waiter to another futex. -/
def futexRequeue (key key' : ℕ) : Sys n :=
  let s := s.unlinkWait t ⟨.futex, key⟩
  { s.setTask t fun td ↦ { td with
      blockCleanup := some ⟨.futex, key'⟩, waiting := some ⟨.futex, key'⟩ } with
    waiters := update s.waiters ⟨.futex, key'⟩ (s.waiters ⟨.futex, key'⟩ ++ [t]) }

/-! ## Sleep, domains, processes -/

/-- `sched_wake_sleeping` and `sleep_callout_cb` for a task that sleeps. -/
def schedWakeSleeping : Sys n := schedWakeReady (s.listDelInit t) t c

/-- `sleep_ms(0)`. -/
def yieldNow : Sys n := s.setState t .yielding

/-- `sleep_ms` of a positive time. -/
def fallAsleep : Sys n :=
  let s := s.setState t .sleeping
  { s with sleepList := s.sleepList ++ [t] }

/-- The members a refill puts back: blocked, of this domain, their node on no list. -/
def refillable (d : ℕ) : List Tid :=
  (s.dom d).members.filter fun t ↦
    s.state t = .blocked ∧ (s.task t).domain = some d ∧ ¬s.Linked t

def schedDomainRefillCb (d : ℕ) : Sys n :=
  let active := { s with
    dom := update s.dom d { s.dom d with consumedTicks := 0, state := .active } }
  wakeList active c (refillable s d)

/-- `domain_remove_member`; the order of the members is not kept by the code either. -/
def domainRemoveMember (d : ℕ) : Sys n :=
  { s with
    dom := update s.dom d
      { s.dom d with members := (s.dom d).members.filter (· ≠ t) } }

/-- The task leaves its domain, if it has one. -/
def leaveDomain : Sys n :=
  match (s.task t).domain with
  | none => s
  | some d => domainRemoveMember s t d

/-- Nothing happens when the domain is full. -/
def schedDomainAttach (d : ℕ) : Sys n :=
  if (s.task t).domain ≠ some d ∧ schedDomainMaxMembers ≤ (s.dom d).members.length then s
  else
    let s := leaveDomain s t
    { s.setTask t fun td ↦ { td with domain := some d } with
      dom := update s.dom d { s.dom d with members := (s.dom d).members ++ [t] } }

def schedDomainDetach : Sys n :=
  if (s.task t).domain = none then s
  else
    let woken := if s.state t = .blocked ∧ ¬s.Linked t then [t] else []
    wakeList ((leaveDomain s t).setTask t fun td ↦ { td with domain := none }) c woken

/-- The loop of `proc_exit` over the threads of the process, without the caller, and the detaching
of all of them. -/
def procExit (p : ℕ) (self : Tid) : Sys n :=
  let s' := ((s.threads p).filter (· ≠ self)).foldl (fun s t ↦ s.setState t .terminating) s
  { s' with threads := update s.threads p [] }

/-- `sched_load_balance` takes a task off the busiest hart. -/
def schedLoadBalance (src dst : Fin n) : Sys n :=
  let s := schedDequeueTaskLocked s t src
  { s with pending := (t, dst) :: s.pending }

/-- A new task, attached to a process if it is a user thread. -/
def createTask (p : Option ℕ) (prio : Prio) (affinity : Option (Fin n)) : Sys n :=
  let t := s.nextTid
  let s := s.setTask t fun _ ↦ { Task.fresh n with prio := prio, affinity := affinity }
  { s with
    nextTid := t + 1
    pending := (t, schedSelectCpu s t c) :: s.pending
    threads := p.elim s.threads fun p ↦ update s.threads p (s.threads p ++ [t]) }

end Mazu.Sched
