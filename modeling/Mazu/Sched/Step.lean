import Mazu.Lib.Runs
import Mazu.Sched.Core

/-!
# Runs of the scheduler

Every lock-protected section that touches tasks, run queues, wait lists or domains is one event.
Wakers may be called at any time, by a thread or by a timer interrupt; what a thread does to itself
it does while its hart runs it.
-/

namespace Mazu.Sched

inductive Event (n : ℕ)
  /-- `sched_task_enqueue` of a new task, by hart `c`. -/
  | create (c : Fin n) (p : Option ℕ) (prio : Prio) (affinity : Option (Fin n))
  | setAffinity (t : Tid) (affinity : Option (Fin n))
  /-- The current thread puts itself on a wait list. -/
  | block (c : Fin n) (w : WaitObj)
  /-- The current thread's wait is over: granted, timed out, aborted or found unnecessary. -/
  | finish (c : Fin n)
  | take (c : Fin n) (m : ℕ)
  | unlock (c : Fin n) (m : ℕ)
  | wake (c : Fin n) (k : Waker)
  | requeue (t : Tid) (key key' : ℕ)
  /-- The cleanup that `sched_cancel_blocked` runs for a waiting thread. -/
  | nudgeCleanup (t : Tid)
  /-- The wake-up at the end of `sched_cancel_blocked`. -/
  | nudgeWake (c : Fin n) (t : Tid)
  | wakeSleeping (c : Fin n) (t : Tid)
  /-- The section of a pending `sched_enqueue_ready`, or the second one of the load balancer. -/
  | enqueue (t : Tid) (c : Fin n)
  | sleep (c : Fin n) (ms : ℕ)
  /-- `pi_recompute_prio` stores what it computed. -/
  | recompute (t : Tid) (p : Prio)
  /-- The current thread ends. -/
  | exit (c : Fin n)
  /-- `proc_exit`. The caller may be a thread of the process that ends itself next (`leaves`), or
  one that goes on after `signal_send` of SIGKILL. -/
  | procExit (c : Fin n) (p : ℕ) (leaves : Bool)
  /-- A trap that comes to its scheduling decision; `resched` is what it found in
  `need_resched`. -/
  | trap (c : Fin n) (resched : Bool)
  | schedule (c : Fin n) (delta : ℕ) (busy : List (Fin n))
  | cleanup (c : Fin n)
  | release (c : Fin n)
  | pick (c : Fin n) (busy : List (Fin n))
  | commit (c : Fin n)
  | balance (t : Tid) (src dst : Fin n)
  | refill (c : Fin n) (d : ℕ)
  | attach (t : Tid) (d : ℕ)
  | detach (c : Fin n) (t : Tid)
  | realtimeBegin (c : Fin n)
  | realtimeEnd (c : Fin n)

variable {n : ℕ}

/-- A task in one of the two states `sched_cancel_blocked` acts on. -/
def Sys.Waits (s : Sys n) (t : Tid) : Prop := s.state t = .blocked ∨ s.state t = .semWait

instance (s : Sys n) (t : Tid) : Decidable (s.Waits t) := inferInstanceAs (Decidable (_ ∨ _))

/-- A thread that is to be preempted becomes ready. -/
def preempt (s : Sys n) (c : Fin n) (resched : Bool) : Sys n :=
  if s.state (s.cur c) = .running ∧ resched = true then s.setState (s.cur c) .ready else s

/-- The trap's scheduling decision: only a thread that is still running goes on. -/
def trapDispatch (s : Sys n) (c : Fin n) (resched : Bool) : Sys n :=
  if (preempt s c resched).state (s.cur c) = .running then preempt s c resched
  else (preempt s c resched).setPhase c .trapped

/-- The threads of the process end, with the caller if it leaves. -/
def exitProcess (s : Sys n) (c : Fin n) (p : ℕ) (leaves : Bool) : Sys n :=
  let s' := procExit s p (s.cur c)
  if leaves then s'.setState (s.cur c) .terminating else s'

def step (s : Sys n) : Event n → Option (Sys n)
  | .create c p prio affinity => some (createTask s c p prio affinity)
  | .setAffinity t affinity =>
    if t < s.nextTid then some (s.setTask t fun td ↦ { td with affinity := affinity }) else none
  | .block c w =>
    if s.phase c = .running ∧
        ((s.task (s.cur c)).waiting = none ∨ (s.task (s.cur c)).waiting = some w)
    then some (blockOn s (s.cur c) w) else none
  | .finish c =>
    if s.phase c = .running then (s.task (s.cur c)).waiting.map (finishWait s (s.cur c)) else none
  | .take c m =>
    if s.phase c = .running ∧ s.owner m = none ∧
        ((s.task (s.cur c)).waiting = none ∨ (s.task (s.cur c)).waiting = some ⟨.mutex, m⟩)
    then some (piMutexTake s (s.cur c) m) else none
  | .unlock c m =>
    if s.phase c = .running ∧ s.owner m = some (s.cur c) then piMutexUnlock s (s.cur c) c m
    else none
  | .wake c k => some (runWaker s c k)
  | .requeue t key key' =>
    if t ∈ s.waiters ⟨.futex, key⟩ ∧ s.state t = .blocked then some (futexRequeue s t key key')
    else none
  | .nudgeCleanup t => if s.Waits t then some (runBlockCleanup s t) else none
  | .nudgeWake c t => if s.Waits t then some (schedWakeReady s t c) else none
  | .wakeSleeping c t =>
    if s.state t = .sleeping then some (schedWakeSleeping s t c) else none
  | .enqueue t c =>
    if (t, c) ∈ s.pending
    then some (schedEnqueueCpuLocked { s with pending := s.pending.erase (t, c) } t c) else none
  | .sleep c ms =>
    if s.phase c = .running ∧ (ms = 0 ∨ ¬s.Linked (s.cur c))
    then some (if ms = 0 then yieldNow s (s.cur c) else fallAsleep s (s.cur c)) else none
  | .recompute t p =>
    if t < s.nextTid then some (s.setTask t fun td ↦ { td with prio := p }) else none
  | .exit c => if s.phase c = .running then some (s.setState (s.cur c) .terminating) else none
  | .procExit c p leaves =>
    if s.phase c = .running ∧ (leaves = true → s.cur c ∈ s.threads p)
    then some (exitProcess s c p leaves) else none
  | .trap c resched => if s.phase c = .running then some (trapDispatch s c resched) else none
  | .schedule c delta busy => if s.phase c = .trapped then schedSchedule s c delta busy else none
  | .cleanup c =>
    if s.phase c = .cleaning then some ((runBlockCleanup s (s.cur c)).setPhase c .releasing)
    else none
  | .release c =>
    if s.phase c = .releasing
    then (s.task (s.cur c)).held.head?.map (piMutexReleaseOne s (s.cur c) c) else none
  | .pick c busy =>
    if s.phase c = .releasing ∧ (s.task (s.cur c)).held = [] then pickInto s c busy true else none
  | .commit c =>
    match s.phase c with
    | .picked next free => some (commitSwitch s c next free)
    | _ => none
  | .balance t src dst =>
    if (s.task t).affinity = none ∧ src ≠ dst ∧ ∃ p, p ≠ schedPrioIdle ∧ t ∈ s.runq src p
    then some (schedLoadBalance s t src dst) else none
  | .refill c d => some (schedDomainRefillCb s c d)
  | .attach t d => if t < s.nextTid then some (schedDomainAttach s t d) else none
  | .detach c t => some (schedDomainDetach s t c)
  | .realtimeBegin c =>
    if s.phase c = .running ∧ s.cur c ∉ s.realtime
    then some { s with realtime := s.realtime ++ [s.cur c] } else none
  | .realtimeEnd c =>
    if s.phase c = .running then some { s with realtime := s.realtime.filter (· ≠ s.cur c) }
    else none

/-- Every hart runs its idle task, task number `c` on hart `c`; no other task exists. -/
def boot (n : ℕ) (budget : ℕ → ℕ) : Sys n where
  task t :=
    if h : t < n then { Task.fresh n with state := .running, affinity := some ⟨t, h⟩ }
    else Task.fresh n
  nextTid := n
  hart c := ⟨c, .running⟩
  runq _ _ := []
  bitmap _ _ := false
  sleepList := []
  pending := []
  waiters _ := []
  owner _ := none
  realtime := []
  dom d := ⟨.active, 0, budget d, []⟩
  threads _ := []

/-- The states a run from boot reaches by steps that meet the condition. -/
def Reach (K : Sys n → Event n → Prop) (s : Sys n) : Prop :=
  ∃ budget, Runs.Run step K (boot n budget) s

/-- No condition. -/
def Any (_ : Sys n) (_ : Event n) : Prop := True

instance : ∀ (s : Sys n) (e : Event n), Decidable (Any s e) :=
  fun _ _ ↦ inferInstanceAs (Decidable True)

/-- A list of events that can be played from boot leads to a reachable state. -/
theorem exists_reach (K : Sys n → Event n → Prop) [∀ s e, Decidable (K s e)] (budget : ℕ → ℕ)
    (es : List (Event n)) {p : Sys n → Prop} [DecidablePred p]
    (h : (Runs.play step K (boot n budget) es).any (fun s ↦ decide (p s)) = true) :
    ∃ s, Reach K s ∧ p s := by
  obtain ⟨s, hs, hp⟩ := Runs.exists_run step K _ es h
  exact ⟨s, ⟨budget, hs⟩, hp⟩

/-- The same with a second list of events that is played from there. -/
theorem exists_reach_run (K : Sys n → Event n → Prop) [∀ s e, Decidable (K s e)] (budget : ℕ → ℕ)
    (es es' : List (Event n)) {p q : Sys n → Prop} [DecidablePred p] [DecidablePred q]
    (h : (Runs.play step K (boot n budget) es).any (fun s ↦
      decide (p s) && (Runs.play step K s es').any fun s' ↦ decide (q s')) = true) :
    ∃ s s', Reach K s ∧ p s ∧ Runs.Run step K s s' ∧ q s' := by
  obtain ⟨s, hs, hp⟩ := Runs.exists_run_of_play es h
  obtain ⟨hp, hq⟩ := Bool.and_eq_true_iff.mp hp
  obtain ⟨s', hs', hq⟩ := Runs.exists_run_of_play es' hq
  exact ⟨s, s', ⟨budget, hs⟩, of_decide_eq_true hp, hs', of_decide_eq_true hq⟩

end Mazu.Sched
