import Mazu.Sched.Known

/-!
# Threads that have ended

`proc_exit` writes the terminating state into every thread of the process, wherever the thread is.
Some wakers look at the state of a waiter before they make it ready and some do not; a thread that
is queued or picked when it is marked runs on, and so does one that is executing and blocks next.
-/

namespace Mazu.Sched

open List Option

variable {n : ℕ} {s s' : Sys n} {e : Event n} {t : Tid}

/-- The task is on no run queue, on no hart's way to one, and picked by no hart. -/
def Sys.AtRest (s : Sys n) (t : Tid) : Prop :=
  ¬s.Queued t ∧ (∀ a, (t, a) ∉ s.pending) ∧ ∀ c, (s.phase c).next? ≠ some t

instance (s : Sys n) (t : Tid) : Decidable (s.AtRest t) :=
  inferInstanceAs (Decidable (_ ∧ _ ∧ _))

/-- The wakers that never wake a terminating thread. -/
def Waker.guarded : Waker → Bool
  | semPost _ | mqWakeOne _ _ | mqDrain _ _ | barrierTrip _ | clockSettime => false
  | _ => true

/-- Threads are marked terminating at rest, the unguarded wakers reach none that is, and a marked
thread that still executes neither blocks nor sleeps. -/
def Spares (s : Sys n) : Event n → Prop
  | .exit c => s.AtRest (s.cur c)
  | .procExit c p leaves =>
    (∀ t ∈ s.threads p, t ≠ s.cur c → s.AtRest t) ∧ (leaves = true → s.AtRest (s.cur c))
  | .block c _ | .sleep c _ => s.state (s.cur c) ≠ .terminating
  | .wake _ k => k.guarded = false → ∀ t ∈ (k.wakes s).woken, s.state t ≠ .terminating
  | _ => True

instance (s : Sys n) (e : Event n) : Decidable (Spares s e) := by
  cases e <;> unfold Spares <;> infer_instance

/-! ## Who writes the state of an ended thread -/

theorem state_ne_of_wakeFirstLive {w : WaitObj} (h : t ∈ (wakeFirstLive s w).woken) :
    s.state t ≠ .terminating := by
  rw [wakeFirstLive] at h
  generalize s.waiters w = l at h
  induction l with
  | nil => exact absurd h not_mem_nil
  | cons u us ih =>
    by_cases hu : s.state u = .terminating
    · rw [dropWhile_cons, if_pos (decide_eq_true hu)] at h
      exact ih h
    · rw [dropWhile_cons, if_neg fun hd ↦ hu (of_decide_eq_true hd)] at h
      rw [mem_singleton.mp h]
      exact hu

theorem state_of_mem_blockedWaiters {w : WaitObj} {nr : ℕ} (h : t ∈ blockedWaiters s w nr) :
    s.state t ≠ .terminating := by
  have hst := of_mem_filter (mem_of_mem_take h)
  rw [of_decide_eq_true hst]
  decide

theorem Waker.state_ne_of_guarded {k : Waker} (hk : k.guarded = true) (h : t ∈ (k.wakes s).woken) :
    s.state t ≠ .terminating := by
  cases k with
  | semHandOn | wakeWriter => exact state_ne_of_wakeFirstLive h
  | wakeReaders =>
    have hst := of_mem_filter h
    exact of_decide_eq_true hst
  | futexWake | wakeUp => exact state_of_mem_blockedWaiters h
  | timeout w u =>
    rw [Waker.wakes, timeoutWakes] at h
    by_cases hu : u ∈ s.waiters w
    · rw [if_pos hu] at h
      split at h <;> split_ifs at h <;> simp_all
    · rw [if_neg hu] at h
      exact absurd h not_mem_nil
  | _ => cases hk

theorem not_wakes_of_terminating (hk : Known s) (hK : Spares s e) (h : step s e = some s')
    (ht : s.state t = .terminating) : ¬e.Wakes s t := by
  intro hw
  cases e with
  | create c p prio aff =>
    have hr := hk.fresh t (le_of_eq hw.symm)
    cases hr.symm.trans ht
  | unlock c m => exact (bestWaiter_some hw).2 ht
  | wake c k =>
    cases hg : k.guarded with
    | false => exact hK hg t hw ht
    | true => exact Waker.state_ne_of_guarded hg hw ht
  | nudgeWake c u =>
    obtain ⟨hg, -⟩ := ite_none_right_eq_some.mp h
    cases (show t = u from hw)
    rcases hg with hg | hg <;> cases hg.symm.trans ht
  | wakeSleeping c u =>
    obtain ⟨hg, -⟩ := ite_none_right_eq_some.mp h
    cases (show t = u from hw)
    cases hg.symm.trans ht
  | release c =>
    obtain ⟨m, -, -, hb⟩ := hw
    exact (bestWaiter_some hb).2 ht
  | refill c d =>
    have hst := of_mem_filter hw
    cases (of_decide_eq_true hst).1.symm.trans ht
  | detach c u =>
    obtain ⟨rfl, -, hst, -⟩ := hw
    cases hst.symm.trans ht
  | _ => exact hw

variable {c : Fin n} {u : Tid}

theorem state_exitProcess_of_mem {p : ℕ} {leaves : Bool}
    (h : t ∈ s.threads p ∧ t ≠ s.cur c ∨ leaves = true ∧ t = s.cur c) :
    (exitProcess s c p leaves).state t = .terminating := by
  rcases h with ⟨hmem, hne⟩ | ⟨rfl, rfl⟩
  · cases leaves
    · exact (state_procExit s t p _).trans (if_pos ⟨hmem, hne⟩)
    · exact (Sys.state_setState ..).trans ((if_neg hne).trans
        ((state_procExit s t p _).trans (if_pos ⟨hmem, hne⟩)))
  · exact (Sys.state_setState ..).trans (if_pos rfl)

/-- **Once ended, ended.** -/
theorem step_terminating (hk : Known s) (hK : Spares s e) (h : step s e = some s')
    (ht : s.state t = .terminating) (hrest : s.AtRest t) : s'.state t = .terminating := by
  have hw := not_wakes_of_terminating hk hK h ht
  by_cases hset : e.Sets s t
  case neg => rw [step_keeps h hw hset, ht]
  obtain ⟨-, hpend, hpick⟩ := hrest
  cases e with
  | block c w | sleep c ms => exact absurd ht (hset ▸ hK)
  | finish c | schedule c delta busy => rcases hset.2 with hst | hst <;> cases hst.symm.trans ht
  | exit c =>
    obtain ⟨-, rfl⟩ := Runs.of_guard h
    exact (Sys.state_setState ..).trans (if_pos hset)
  | procExit c p leaves =>
    obtain ⟨-, rfl⟩ := Runs.of_guard h
    exact state_exitProcess_of_mem hset
  | trap c resched => cases hset.2.symm.trans ht
  | enqueue u c =>
    obtain ⟨hg, -⟩ := ite_none_right_eq_some.mp h
    exact absurd (hset.1 ▸ hg) (hpend c)
  | commit c =>
    obtain ⟨free, hph⟩ := hset
    exact absurd (by rw [hph]; rfl) (hpick c)
  | _ => exact hset.elim

theorem terminating_of_ready (h : (s.setState u .ready).state t = .terminating) :
    s.state t = .terminating := by
  rw [Sys.state_setState] at h
  split_ifs at h
  exact h

theorem terminating_of_park (h : (s.park u).state t = .terminating) :
    s.state t = .terminating := by
  rw [Sys.state_park] at h
  split_ifs at h
  exact h

theorem terminating_of_schedEnqueueCpuLocked
    (h : (schedEnqueueCpuLocked s u c).state t = .terminating) : s.state t = .terminating := by
  rw [schedEnqueueCpuLocked] at h
  split_ifs at h
  · exact h
  · exact terminating_of_park h
  · exact terminating_of_ready h

theorem terminating_of_requeueOld
    (h : (requeueOld s u c).state t = .terminating) : s.state t = .terminating := by
  have hput : ∀ v : Sys n, (putBack v u c).state t = .terminating → v.state t = .terminating := by
    intro v hv
    rw [putBack] at hv
    split_ifs at hv
    · exact terminating_of_park hv
    · exact terminating_of_schedEnqueueCpuLocked hv
  rw [requeueOld] at h
  split_ifs at h
  · exact terminating_of_ready (hput _ h)
  · exact hput s h
  · exact h

theorem terminating_of_trapDispatch {resched : Bool}
    (h : (trapDispatch s c resched).state t = .terminating) : s.state t = .terminating := by
  have hpre : (preempt s c resched).state t = .terminating → s.state t = .terminating := by
    intro hp
    rw [preempt] at hp
    split_ifs at hp
    · exact terminating_of_ready hp
    · exact hp
  rw [trapDispatch] at h
  split_ifs at h <;> exact hpre h

theorem state_blockOn (s : Sys n) (t u : Tid) (w : WaitObj) :
    (blockOn s t w).state u = if u = t then w.kind.state else s.state u := by
  rw [blockOn]
  exact (Sys.task_setTask_of_eq _ _ _ Task.state rfl).trans (Sys.state_setState _ _ _ _)

theorem state_finishWait (s : Sys n) (t u : Tid) (w : WaitObj) : (finishWait s t w).state u =
    if u = t ∧ s.state t = w.kind.state then .running else s.state u := by
  have hst : ∀ v, ((s.unlinkWait t w).setTask t fun td ↦
      { td with blockCleanup := none, waiting := none }).state v = s.state v :=
    fun v ↦ Sys.task_setTask_of_eq _ _ _ Task.state rfl
  rw [finishWait]
  by_cases hw : s.state t = w.kind.state
  · rw [if_pos ((hst t).trans hw), Sys.state_setState, hst]
    simp [hw]
  · rw [if_neg (fun h ↦ hw ((hst t).symm.trans h)), hst]
    simp [hw]

theorem task_pickInto {s s' : Sys n} {busy : List (Fin n)} {free : Bool}
    (h : pickInto s c busy free = some s') : s'.task = s.task := by
  obtain ⟨t, s₁, hpick, rfl⟩ := pickInto_some h
  exact (schedPickNextLocal_sameTasks hpick).task

theorem task_schedSchedule {s s' : Sys n} {delta : ℕ} {busy : List (Fin n)}
    (h : schedSchedule s c delta busy = some s') :
    s'.task = (requeueOld (chargeDomain s (s.cur c) delta) (s.cur c) c).task := by
  rcases schedSchedule_some h with ⟨-, rfl⟩ | h
  · rfl
  · exact task_pickInto h

/-- Only an exit marks a thread. -/
theorem step_marks (h : step s e = some s') (hne : s.state t ≠ .terminating)
    (ht : s'.state t = .terminating) :
    (∃ c, e = .exit c ∧ t = s.cur c) ∨ ∃ c p leaves, e = .procExit c p leaves ∧
      (t ∈ s.threads p ∧ t ≠ s.cur c ∨ leaves = true ∧ t = s.cur c) := by
  have hw : ¬e.Wakes s t := by
    intro hw
    cases (step_wakes h hw).1.symm.trans ht
  have hset : e.Sets s t := by
    by_contra hset
    exact hne ((step_keeps h hw hset).symm.trans ht)
  cases e with
  | exit c => exact .inl ⟨c, rfl, hset⟩
  | procExit c p leaves => exact .inr ⟨c, p, leaves, rfl, hset⟩
  | block c w =>
    obtain ⟨-, rfl⟩ := Runs.of_guard h
    have hst := (state_blockOn s (s.cur c) t w).symm.trans ht
    rw [if_pos (show t = s.cur c from hset)] at hst
    cases hk : w.kind <;> rw [hk] at hst <;> cases hst
  | finish c =>
    obtain ⟨-, h⟩ := ite_none_right_eq_some.mp h
    obtain ⟨w, -, rfl⟩ := map_eq_some_iff.mp h
    rw [state_finishWait] at ht
    split_ifs at ht
    exact absurd ht hne
  | sleep c ms =>
    obtain ⟨-, rfl⟩ := Runs.of_guard h
    split_ifs at ht <;> cases ((Sys.state_setState ..).trans (if_pos hset)).symm.trans ht
  | trap c resched =>
    obtain ⟨-, rfl⟩ := Runs.of_guard h
    exact absurd (terminating_of_trapDispatch ht) hne
  | schedule c delta busy =>
    obtain ⟨-, h⟩ := ite_none_right_eq_some.mp h
    rw [Sys.state, task_schedSchedule h] at ht
    have hst := terminating_of_requeueOld ht
    rw [state_chargeDomain] at hst
    exact absurd hst hne
  | enqueue u c =>
    obtain ⟨-, rfl⟩ := Runs.of_guard h
    exact absurd (terminating_of_schedEnqueueCpuLocked ht) hne
  | commit c =>
    obtain ⟨free, hph⟩ := hset
    rw [step, hph] at h
    cases h
    rw [commitSwitch] at ht
    cases ((Sys.task_setTask_of_eq _ t t Task.state rfl).trans
      ((Sys.state_setState ..).trans (if_pos rfl))).symm.trans ht
  | _ => exact hset.elim

/-! ## The invariant -/

/-- Ended threads rest. -/
def Buried (s : Sys n) : Prop := ∀ t, s.state t = .terminating → s.AtRest t

theorem Buried.step (hs : Buried s) (hk : Known s) (hK : Spares s e) (h : step s e = some s') :
    Buried s' := by
  intro t ht
  by_cases hold : s.state t = .terminating
  · obtain ⟨hq, hpend, hpick⟩ := hs t hold
    have hrun : ¬s.Runnable t := by
      rintro (hst | hst) <;> cases hst.symm.trans hold
    refine ⟨fun hq' ↦ ?_, fun a ha ↦ ?_, fun c hc ↦ ?_⟩
    · rcases step_queued h hq' with hq' | ⟨c, rfl, -⟩ | ⟨c, _, _, _, -, -, hr, -⟩
      · exact hq hq'
      · obtain ⟨hg, -⟩ := ite_none_right_eq_some.mp h
        exact hpend c hg
      · exact hrun hr
    · rcases (step_within h).pending t _ ha with ha | hw | ⟨src, dst, rfl⟩
      · exact hpend a ha
      · exact not_wakes_of_terminating hk hK h hold hw
      · obtain ⟨⟨-, -, p, -, hmem⟩, -⟩ := ite_none_right_eq_some.mp h
        exact hq ⟨src, p, hmem⟩
    · obtain ⟨free, hph⟩ := Phase.next?_eq_some.mp hc
      rcases step_picked h hph with ⟨hph, -⟩ | ⟨-, hu | ⟨-, hr⟩, -⟩
      · exact hpick c (by rw [hph]; rfl)
      · exact hq hu
      · exact hrun hr
  · -- the thread is marked in this step, which touches no queue and no hart
    have hrest : s.AtRest t ∧ ¬e.Moves ∧ ¬e.Wakes s t := by
      rcases step_marks h hold ht with ⟨c, rfl, rfl⟩ | ⟨c, p, leaves, rfl, hmem⟩
      · exact ⟨hK, id, id⟩
      · refine ⟨?_, id, id⟩
        rcases hmem with ⟨hmem, hne⟩ | ⟨hl, rfl⟩
        · exact hK.1 t hmem hne
        · exact hK.2 hl
    obtain ⟨⟨hq, hpend, hpick⟩, hm, hw⟩ := hrest
    obtain ⟨hrunq, -, hhart⟩ := step_sameQueues h hm
    refine ⟨?_, fun a ha ↦ ?_, ?_⟩
    · rw [Sys.Queued, hrunq]
      exact hq
    · rcases (step_within h).pending t _ ha with ha | hw' | ⟨src, dst, rfl⟩
      · exact hpend a ha
      · exact hw hw'
      · exact hm trivial
    · intro c
      rw [Sys.phase, hhart]
      exact hpick c

theorem buried_boot (budget : ℕ → ℕ) : Buried (boot n budget) := by
  intro t ht
  rw [Sys.state, boot] at ht
  dsimp only at ht
  split_ifs at ht
  cases ht

theorem Reach.buried (h : Reach Spares s) : Buried s := by
  obtain ⟨budget, h⟩ := h
  have hs : Known s ∧ Buried s := by
    refine h.invariant (P := fun s ↦ Known s ∧ Buried s) ⟨known_boot budget, buried_boot budget⟩ ?_
    intro a e b hs hK hstep
    exact ⟨hs.1.step hstep, hs.2.step hs.1 hK hstep⟩
  exact hs.2

/-- **An ended thread stays ended**, is never queued again and is on nobody's way to a run queue. -/
theorem terminated_for_good (h : Reach Spares s) (ht : s.state t = .terminating)
    (hrun : Runs.Run Sched.step Spares s s') :
    s'.state t = .terminating ∧ ¬s'.Queued t ∧ (∀ a, (t, a) ∉ s'.pending) ∧
      ∀ c, (s'.phase c).next? ≠ some t := by
  have hs : (Known s' ∧ Buried s') ∧ s'.state t = .terminating := by
    refine hrun.invariant (P := fun s ↦ (Known s ∧ Buried s) ∧ s.state t = .terminating)
      ⟨⟨h.known, h.buried⟩, ht⟩ ?_
    rintro a e b ⟨⟨hk, hb⟩, ha⟩ hK hstep
    exact ⟨⟨hk.step hstep, hb.step hk hK hstep⟩, step_terminating hk hK hstep ha (hb t ha)⟩
  exact ⟨hs.2, hs.1.2 t hs.2⟩

/-- Thread 1 of process 0 blocks on a futex and its process is killed; the futex is woken after
that. -/
theorem terminated_for_good_futex : ∃ s s' : Sys 1, Reach Spares s ∧ s.state 1 = .terminating ∧
    Runs.Run step Spares s s' ∧ s'.state 1 = .terminating ∧ ¬s'.Queued 1 := by
  obtain ⟨s, s', hs, ht, hrun, -⟩ : ∃ s s' : Sys 1, Reach Spares s ∧ s.state 1 = .terminating ∧
      Runs.Run step Spares s s' ∧ s'.waiters ⟨.futex, 0⟩ = [1] :=
    exists_reach_run Spares (fun _ ↦ 1)
      [.create 0 (some 0) 1 none, .enqueue 1 0, .trap 0 true, .schedule 0 0 [], .commit 0,
        .block 0 ⟨.futex, 0⟩, .trap 0 false, .schedule 0 0 [], .commit 0, .procExit 0 0 false]
      [.wake 0 (.futexWake 0 1)] (by decide +kernel)
  obtain ⟨hst, hq, -⟩ := terminated_for_good hs ht hrun
  exact ⟨s, s', hs, ht, hrun, hst, hq⟩

/-- The same with a thread that waits for a message: `wake_one` makes it ready, and it runs. -/
theorem not_terminated_for_good : ¬∀ s s' : Sys 1, Reach Any s → s.state 1 = .terminating →
    Runs.Run step Any s s' → s'.state 1 = .terminating := by
  intro hall
  obtain ⟨s, s', hs, ht, hrun, hrunning⟩ : ∃ s s' : Sys 1, Reach Any s ∧
      s.state 1 = .terminating ∧ Runs.Run step Any s s' ∧ s'.state 1 = .running :=
    exists_reach_run Any (fun _ ↦ 1)
      [.create 0 (some 0) 1 none, .enqueue 1 0, .trap 0 true, .schedule 0 0 [], .commit 0,
        .block 0 ⟨.mqRecv, 0⟩, .trap 0 false, .schedule 0 0 [], .commit 0, .procExit 0 0 false]
      [.wake 0 (.mqWakeOne false 0), .enqueue 1 0, .trap 0 true, .schedule 0 0 [], .commit 0]
      (by decide +kernel)
  cases (hall s s' hs ht hrun).symm.trans hrunning

end Mazu.Sched
