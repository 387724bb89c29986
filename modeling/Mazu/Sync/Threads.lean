import Mathlib.Data.Fintype.Basic
import Mazu.Lib.Runs
import Mazu.Sched.Core

/-!
# Threads around a synchronization object

What the sleeping locks share: a thread that has to wait puts a record on the object's queue,
registers a cleanup callback, sets its state and yields; it looks at the record again whenever it
runs. Each section under the object's lock is one step, and so is each piece of the scheduler
between two of them.

`sched_cancel_blocked` holds no lock across its parts, so a nudge in flight is a program counter of
its own: other steps come between looking at the state, taking the callback off, running it and
waking the thread. The callback works on the record in the thread's stack frame, in whatever state
that is by then.

Run queues, priorities and domains are left out: a thread that is queued may be picked at any time,
one that was given up for destruction is not picked again.
-/

namespace Mazu.Sync

open Sched (TdState)

structure Thread where
  state : TdState
  /-- On a run queue. -/
  queued : Bool
  onCpu : Bool
  /-- `td_block_cleanup` is set. -/
  blockCleanup : Bool
  /-- In a call that waits, which it has not returned from. -/
  inside : Bool
  /-- Switched away from for the last time. -/
  reaped : Bool
  cancelPending : Bool
  cancelDisabled : Bool
  /-- A signal can be delivered, or the clock that the wait is measured by was set. -/
  interrupted : Bool
  deriving DecidableEq

namespace Thread

def start : Thread := ⟨.ready, true, false, false, false, false, false, false, false⟩

/-- `wait_abort_error_current` gives an error. -/
def abort (d : Thread) : Bool := d.cancelPending && !d.cancelDisabled || d.interrupted

/-- `TD_STATE_BLOCKED` or `TD_STATE_SEM_WAIT`. -/
def Sleeps (d : Thread) : Prop := d.state = .blocked ∨ d.state = .semWait

instance (d : Thread) : Decidable d.Sleeps := inferInstanceAs (Decidable (_ ∨ _))

/-- The thread executes. One that is killed does so until it is switched away from. -/
def Runs (d : Thread) : Prop :=
  d.onCpu = true ∧ d.reaped = false ∧ (d.state = .running ∨ d.state = .terminating)

instance (d : Thread) : Decidable d.Runs := inferInstanceAs (Decidable (_ ∧ _ ∧ _))

/-- The thread will run: it is on a hart, or on a run queue to be picked. -/
def Coming (d : Thread) : Prop :=
  d.reaped = false ∧ (d.state = .ready ∨ d.state = .running) ∧ (d.queued = true ∨ d.onCpu = true)

instance (d : Thread) : Decidable d.Coming := inferInstanceAs (Decidable (_ ∧ _ ∧ _))

/-- A thread that was switched away from for the last time stays off. -/
def Sane (d : Thread) : Prop := d.reaped = true → d.state = .terminating ∧ d.onCpu = false

/-- `sched_wake_ready`. -/
def wakeReady (d : Thread) : Thread := { d with state := .ready, queued := true }

/-- The thread puts itself to sleep with its callback registered. -/
def block (d : Thread) (st : TdState) : Thread :=
  { d with state := st, blockCleanup := true, inside := true }

/-- The end of a wait in state `st`. -/
def unblock (d : Thread) (st : TdState) : Thread :=
  { d with
    blockCleanup := false
    state := if d.state = st then .running else d.state
    inside := false }

variable {d : Thread}

theorem Sane.not_reaped (h : d.Sane) (hd : d.state ≠ .terminating ∨ d.onCpu = true) :
    d.reaped = false := by
  rw [← Bool.not_eq_true]
  intro hr
  obtain ⟨hs, hc⟩ := h hr
  rcases hd with hd | hd
  · exact hd hs
  · cases hd.symm.trans hc

theorem coming_wakeReady (h : d.reaped = false) : d.wakeReady.Coming := ⟨h, .inl rfl, .inl rfl⟩

theorem Coming.not_sleeps (h : d.Coming) : ¬d.Sleeps := by
  rintro (hs | hs) <;> rcases h.2.1 with h' | h' <;> cases hs.symm.trans h'

theorem Sleeps.not_terminating (h : d.Sleeps) : d.state ≠ .terminating := by
  intro hs
  rcases h with h | h <;> cases hs.symm.trans h

theorem Coming.not_terminating (h : d.Coming) : d.state ≠ .terminating := by
  intro hs
  rcases h.2.1 with h' | h' <;> cases hs.symm.trans h'

theorem Coming.sane (h : d.Coming) : d.Sane := by
  intro hr
  cases h.1.symm.trans hr

end Thread

/-- What `sched_cancel_blocked` does next. -/
inductive NudgePc
  | check
  | clear
  | cleanup
  | wake
  deriving DecidableEq

/-- The threads, the nudges in flight and the object. -/
structure Sys (σ T : Type) where
  thread : T → Thread
  nudges : List (T × NudgePc)
  obj : σ

variable {σ T : Type}

def Sys.boot (obj : σ) : Sys σ T where
  thread _ := .start
  nudges := []
  obj := obj

section Machine

variable [DecidableEq T]

def Sys.modify (s : Sys σ T) (t : T) (f : Thread → Thread) : Sys σ T :=
  { s with thread := Function.update s.thread t (f (s.thread t)) }

/-- What happens around the object. -/
inductive Env (T : Type)
  /-- `sched_schedule` picks the thread. -/
  | dispatch (t : T)
  /-- `sched_schedule` with the thread as `old`: it yields, or is preempted. -/
  | schedule (t : T)
  /-- Its process exits. -/
  | kill (t : T)
  /-- `sys_thread_cancel_h` for the thread. -/
  | cancel (t : T)
  /-- A nudge of the thread goes on. -/
  | nudge (t : T) (pc : NudgePc)
  | setCancelState (t : T) (disabled : Bool)
  /-- A signal arrives, or is taken by another thread. -/
  | interrupt (t : T) (on : Bool)

variable (cleanup : Sys σ T → T → Sys σ T) (s : Sys σ T)

/-- A nudge of the thread is in flight, and at that point. -/
def Sys.Nudged (t : T) (pc : NudgePc) : Prop := (t, pc) ∈ s.nudges

instance (t : T) (pc : NudgePc) : Decidable (s.Nudged t pc) := inferInstanceAs (Decidable (_ ∈ _))

/-- The callback of a thread that is switched away from for the last time. -/
def runCleanup (t : T) : Sys σ T :=
  if (s.thread t).blockCleanup then cleanup (s.modify t fun d ↦ { d with blockCleanup := false }) t
  else s

def schedSchedule (t : T) : Sys σ T :=
  if (s.thread t).state = .terminating then
    (runCleanup cleanup s t).modify t fun d ↦ { d with onCpu := false, reaped := true }
  else if (s.thread t).Sleeps then s.modify t fun d ↦ { d with onCpu := false }
  else s.modify t fun d ↦ { d with onCpu := false, state := .ready, queued := true }

def schedCancelBlocked (t : T) : NudgePc → Sys σ T
  | .check =>
    if (s.thread t).Sleeps then
      { s with nudges := (t, if (s.thread t).blockCleanup then .clear else .wake) :: s.nudges }
    else s
  | .clear =>
    { s.modify t (fun d ↦ { d with blockCleanup := false }) with
      nudges := (t, .cleanup) :: s.nudges }
  | .cleanup => { cleanup s t with nudges := (t, .wake) :: s.nudges }
  | .wake => if (s.thread t).Sleeps then s.modify t Thread.wakeReady else s

def envStep : Env T → Option (Sys σ T)
  | .dispatch t =>
    if (s.thread t).queued ∧ ¬(s.thread t).onCpu ∧ ¬(s.thread t).reaped then
      some (s.modify t fun d ↦ { d with queued := false, onCpu := true, state := .running })
    else none
  | .schedule t => if (s.thread t).onCpu then some (schedSchedule cleanup s t) else none
  | .kill t =>
    if (s.thread t).reaped then none
    else some (s.modify t fun d ↦ { d with state := .terminating })
  | .cancel t =>
    if (s.thread t).reaped then none
    else some { s.modify t (fun d ↦ { d with cancelPending := true }) with
      nudges := (t, .check) :: s.nudges }
  | .nudge t pc =>
    if s.Nudged t pc then
      some (schedCancelBlocked cleanup { s with nudges := s.nudges.erase (t, pc) } t pc)
    else none
  | .setCancelState t disabled =>
    if (s.thread t).Runs ∧ ¬(s.thread t).inside then
      some (s.modify t fun d ↦ { d with cancelDisabled := disabled })
    else none
  | .interrupt t on => some (s.modify t fun d ↦ { d with interrupted := on })

end Machine

/-! ## What the surroundings can do -/

/-- The thread is cancelled and its cancellation is enabled. -/
def Thread.Cancelled (d : Thread) : Prop := d.cancelPending = true ∧ d.cancelDisabled = false

/-- What may happen to a thread without a call of its own: it stays in the call that it is in, and
keeps coming unless it is killed. -/
structure Tame (killed : Prop) (d d' : Thread) : Prop where
  inside : d'.inside = d.inside
  reaped : d'.reaped = d.reaped
  sane : d.Sane → d'.Sane
  coming : ¬killed → d.Coming → d'.Coming
  cancelled : d.inside = true → d.Cancelled → d'.Cancelled
  cleanup : d'.blockCleanup = true → d.blockCleanup = true
  off : (d.reaped = true → d.onCpu = false) → d'.reaped = true → d'.onCpu = false
  /-- It sleeps, or it is coming. -/
  placed : ¬killed → d.Sane → d.Sleeps ∨ d.Coming → d'.Sleeps ∨ d'.Coming
  state : d'.state = d.state ∨ d'.state = .ready ∨ d'.state = .running ∨
    killed ∧ d'.state = .terminating

theorem Tame.refl (killed : Prop) (d : Thread) : Tame killed d d :=
  ⟨rfl, rfl, id, fun _ ↦ id, fun _ ↦ id, id, id, fun _ _ ↦ id, .inl rfl⟩

/-- Nothing changes that the other fields read. -/
theorem Tame.of_same {killed : Prop} {d d' : Thread} (hin : d'.inside = d.inside)
    (hr : d'.reaped = d.reaped) (hs : d'.state = d.state) (hq : d'.queued = d.queued)
    (hc : d'.onCpu = d.onCpu) (hca : d.inside = true → d.Cancelled → d'.Cancelled)
    (hcl : d'.blockCleanup = true → d.blockCleanup = true) : Tame killed d d' := by
  refine ⟨hin, hr, ?_, fun _ ↦ ?_, hca, hcl, ?_, fun _ _ ↦ ?_, .inl hs⟩
  · rw [Thread.Sane, Thread.Sane, hr, hs, hc]
    exact id
  · rw [Thread.Coming, Thread.Coming, hr, hs, hq, hc]
    exact id
  · rw [hr, hc]
    exact id
  · rw [Thread.Sleeps, Thread.Sleeps, Thread.Coming, Thread.Coming, hr, hs, hq, hc]
    exact id

/-- The object is as before, and the threads were left to themselves. A wake-up in flight stays there
until it arrives. -/
structure Quiet (s : Sys σ T) (e : Env T) (s' : Sys σ T) : Prop where
  obj : s'.obj = s.obj
  thread : ∀ t, Tame (e = .kill t) (s.thread t) (s'.thread t)
  wakes : ∀ t, (t, .wake) ∈ s.nudges → (t, .wake) ∈ s'.nudges ∨ e = .nudge t .wake

theorem Quiet.nudge {s s' : Sys σ T} {e : Env T} (h : Quiet s e s') (x : T × NudgePc) :
    Quiet s e { s' with nudges := x :: s'.nudges } :=
  ⟨h.obj, h.thread, fun t ht ↦ (h.wakes t ht).imp_left (.tail x)⟩

theorem Quiet.refl (s : Sys σ T) (e : Env T) : Quiet s e s :=
  ⟨rfl, fun _ ↦ .refl _ _, fun _ ↦ .inl⟩

section Cases

variable [DecidableEq T] {cleanup : Sys σ T → T → Sys σ T} {s s' : Sys σ T} {e : Env T}

theorem thread_modify (s : Sys σ T) (t u : T) (f : Thread → Thread) :
    (s.modify t f).thread u = if u = t then f (s.thread t) else s.thread u :=
  Function.update_apply ..

theorem Quiet.modify {t : T} {f : Thread → Thread}
    (hf : Tame (e = .kill t) (s.thread t) (f (s.thread t))) : Quiet s e (s.modify t f) := by
  refine ⟨rfl, fun u ↦ ?_, fun _ ↦ .inl⟩
  rw [thread_modify]
  split_ifs with hu
  · subst hu
    exact hf
  · exact .refl _ _

theorem Quiet.schedCancelBlocked (cleanup : Sys σ T → T → Sys σ T) (s : Sys σ T) (t : T)
    (e : Env T) {pc : NudgePc} (hpc : pc ≠ .cleanup) :
    Quiet s e (schedCancelBlocked cleanup s t pc) := by
  cases pc with
  | check =>
    rw [Sync.schedCancelBlocked]
    by_cases hsleep : (s.thread t).Sleeps
    · rw [if_pos hsleep]
      exact (Quiet.refl s e).nudge _
    · rw [if_neg hsleep]
      exact .refl s e
  | clear =>
    have hclear : Quiet s e (s.modify t fun d ↦ { d with blockCleanup := false }) :=
      .modify (.of_same rfl rfl rfl rfl rfl (fun _ ↦ id) nofun)
    exact hclear.nudge _
  | cleanup => exact absurd rfl hpc
  | wake =>
    rw [Sync.schedCancelBlocked]
    split_ifs with hsleep
    · refine .modify ⟨rfl, rfl, fun hs hr ↦ ?_, fun _ hc ↦ absurd hsleep hc.not_sleeps, fun _ ↦ id,
        id, id, fun _ hs _ ↦ ?_, .inr (.inl rfl)⟩
      · exact absurd (hs hr).1 hsleep.not_terminating
      · exact .inr (Thread.coming_wakeReady (hs.not_reaped (.inl hsleep.not_terminating)))
    · exact .refl s e

/-- **What the surroundings can do to the object**: nothing but run the callback of a waiter, by a
nudge or when the waiter is switched away from for the last time. -/
theorem envStep_cases (h : envStep cleanup s e = some s') :
    Quiet s e s' ∨
      (∃ t l l', e = .nudge t .cleanup ∧ (∀ u, u = t ∨ (u, .wake) ∈ s.nudges → (u, .wake) ∈ l') ∧
        s' = { cleanup { s with nudges := l } t with nudges := l' }) ∨
      ∃ t, e = .schedule t ∧ (s.thread t).state = .terminating ∧
        s' = (runCleanup cleanup s t).modify t fun d ↦ { d with onCpu := false, reaped := true } := by
  cases e with
  | dispatch t =>
    obtain ⟨⟨-, -, hr⟩, rfl⟩ := Runs.of_guard h
    have hr' := Bool.eq_false_iff.mpr hr
    have hc : Thread.Coming { s.thread t with queued := false, onCpu := true, state := .running } :=
      ⟨hr', .inr rfl, .inr rfl⟩
    exact .inl (.modify ⟨rfl, rfl, fun _ hr'' ↦ absurd hr'' hr, fun _ _ ↦ hc, fun _ ↦ id, id,
      fun _ hr'' ↦ absurd hr'' hr, fun _ _ _ ↦ .inr hc, .inr (.inr (.inl rfl))⟩)
  | schedule t =>
    obtain ⟨hcpu, rfl⟩ := Runs.of_guard h
    rw [schedSchedule]
    split_ifs with hdying hsleep
    · exact .inr (.inr ⟨t, rfl, hdying, rfl⟩)
    · exact .inl (.modify ⟨rfl, rfl, fun hs hr ↦ ⟨(hs hr).1, rfl⟩,
        fun _ hc ↦ absurd hsleep hc.not_sleeps, fun _ ↦ id, id, fun _ _ ↦ rfl,
        fun _ _ _ ↦ .inl hsleep, .inl rfl⟩)
    · refine .inl (.modify ⟨rfl, rfl, fun hs hr ↦ absurd (hs hr).1 hdying, fun _ hc ↦ ?_,
        fun _ ↦ id, id, fun _ _ ↦ rfl, fun _ _ hp ↦ .inr ?_, .inr (.inl rfl)⟩)
      · exact ⟨hc.1, .inl rfl, .inl rfl⟩
      · exact ⟨(hp.resolve_left hsleep).1, .inl rfl, .inl rfl⟩
  | kill t =>
    obtain ⟨hr, h⟩ := Option.ite_none_left_eq_some.mp h
    cases h
    exact .inl (.modify ⟨rfl, rfl, fun _ hr' ↦ absurd hr' hr, absurd rfl, fun _ ↦ id, id,
      id, absurd rfl, .inr (.inr (.inr ⟨rfl, rfl⟩))⟩)
  | cancel t =>
    obtain ⟨-, h⟩ := Option.ite_none_left_eq_some.mp h
    cases h
    have hq : Quiet s (.cancel t) (s.modify t fun d ↦ { d with cancelPending := true }) :=
      .modify (.of_same rfl rfl rfl rfl rfl (fun _ hc ↦ ⟨rfl, hc.2⟩) id)
    exact .inl (hq.nudge _)
  | nudge t pc =>
    obtain ⟨-, rfl⟩ := Runs.of_guard h
    have hkeep : ∀ u, (u, .wake) ∈ s.nudges → (u, .wake) ∈ s.nudges.erase (t, pc) ∨
        (u, NudgePc.wake) = (t, pc) := fun u hu ↦
      or_iff_not_imp_right.mpr fun hne ↦ (List.mem_erase_of_ne hne).mpr hu
    by_cases hpc : pc = .cleanup
    · subst hpc
      refine .inr (.inl ⟨t, _, _, rfl, fun u hu ↦ ?_, rfl⟩)
      rcases hu with rfl | hu
      · exact List.mem_cons_self
      · exact .tail _ ((hkeep u hu).resolve_right nofun)
    · have hq := Quiet.schedCancelBlocked cleanup
        { s with nudges := s.nudges.erase (t, pc) } t (.nudge t pc) hpc
      refine .inl ⟨hq.obj, hq.thread, fun u hu ↦ ?_⟩
      rcases hkeep u hu with hu | hu
      · exact hq.wakes u hu
      · cases hu
        exact .inr rfl
  | setCancelState t disabled =>
    obtain ⟨⟨-, hout⟩, rfl⟩ := Runs.of_guard h
    exact .inl (.modify (.of_same rfl rfl rfl rfl rfl (fun hin ↦ absurd hin hout) id))
  | interrupt t on =>
    cases h
    exact .inl (.modify (.of_same rfl rfl rfl rfl rfl (fun _ ↦ id) id))

theorem envStep_wake_mem (hcl : ∀ (a : Sys σ T) t, (cleanup a t).nudges = a.nudges) {u : T}
    (h : envStep cleanup s e = some s') (hu : (u, .wake) ∈ s.nudges) :
    (u, .wake) ∈ s'.nudges ∨ e = .nudge u .wake := by
  rcases envStep_cases h with hq | ⟨t, l, l', -, hmem, rfl⟩ | ⟨t, -, -, rfl⟩
  · exact hq.wakes u hu
  · exact .inl (hmem u (.inr hu))
  · left
    rw [runCleanup]
    split_ifs
    · exact (hcl _ t).symm ▸ hu
    · exact hu

/-- A wake-up that arrives finds the thread asleep or coming. -/
theorem envStep_wake {u : T} (h : envStep cleanup s (.nudge u .wake) = some s')
    (hs : (s.thread u).Sane) (hp : (s.thread u).Sleeps ∨ (s.thread u).Coming) :
    (s'.thread u).Coming := by
  obtain ⟨-, rfl⟩ := Runs.of_guard h
  rw [schedCancelBlocked]
  split_ifs with hsleep
  · rw [thread_modify, if_pos rfl]
    exact Thread.coming_wakeReady (hs.not_reaped (.inl hsleep.not_terminating))
  · exact hp.resolve_left hsleep

theorem envStep_wake_awake {u : T} (h : envStep cleanup s (.nudge u .wake) = some s') :
    ¬(s'.thread u).Sleeps := by
  obtain ⟨-, rfl⟩ := Runs.of_guard h
  rw [schedCancelBlocked]
  split_ifs with hsleep
  · rw [thread_modify, if_pos rfl]
    rintro (h | h) <;> cases h
  · exact hsleep

/-- Around the object a thread is only made ready, picked or killed. -/
theorem envStep_state (hcl : ∀ (a : Sys σ T) t, (cleanup a t).thread = a.thread) {u : T}
    {x : TdState} (h : envStep cleanup s e = some s') (hu : (s'.thread u).state = x)
    (hready : x ≠ .ready) (hrunning : x ≠ .running) :
    (s.thread u).state = x ∨ e = .kill u ∧ x = .terminating := by
  have hmod : ∀ {a : Sys σ T} {t f}, ((a.modify t f).thread u).state = x →
      ((f (a.thread t)).state = x → (a.thread t).state = x) → (a.thread u).state = x := by
    intro a t f hs hf
    rw [thread_modify] at hs
    split_ifs at hs with hut
    · exact hut ▸ hf hs
    · exact hs
  rcases envStep_cases h with hq | ⟨t, l, l', -, -, rfl⟩ | ⟨t, -, -, rfl⟩
  · rcases (hq.thread u).state with hs | hs | hs | ⟨hk, hs⟩
    · exact .inl (hs.symm.trans hu)
    · exact absurd (hu.symm.trans hs) hready
    · exact absurd (hu.symm.trans hs) hrunning
    · exact .inr ⟨hk, hu.symm.trans hs⟩
  · have hc : ((cleanup { s with nudges := l } t).thread u).state = x := hu
    rw [hcl] at hc
    exact .inl hc
  · left
    have hr := hmod hu id
    rw [runCleanup] at hr
    split_ifs at hr
    · rw [hcl] at hr
      exact hmod hr id
    · exact hr

/-- Only a thread itself puts it to sleep. -/
theorem envStep_blocked (hcl : ∀ (a : Sys σ T) t, (cleanup a t).thread = a.thread) {u : T}
    (h : envStep cleanup s e = some s') (hu : (s'.thread u).state = .blocked) :
    (s.thread u).state = .blocked :=
  (envStep_state hcl h hu nofun nofun).resolve_right nofun

end Cases

/-- A 32-bit counter is incremented. -/
def incI32 (x : ℤ) : ℤ := if x = 2 ^ 31 - 1 then -2 ^ 31 else x + 1

end Mazu.Sync
