import Mazu.Sched.Effects

/-!
# Tasks that exist

Everything the scheduler keeps refers to tasks that have been created. A structure that has not
been handed out yet is zeroed, and zero is the ready state.
-/

namespace Mazu.Sched

open Function List Runs Option

variable {n : ℕ} {s s' : Sys n} {e : Event n} {t : Tid}

structure Known (s : Sys n) : Prop where
  fresh : ∀ t, s.nextTid ≤ t → s.state t = .ready
  cur : ∀ c, s.cur c < s.nextTid
  picked : ∀ c t free, s.phase c = .picked t free → t < s.nextTid
  queued : ∀ t, s.Queued t → t < s.nextTid
  pending : ∀ t c, (t, c) ∈ s.pending → t < s.nextTid
  waiters : ∀ w t, t ∈ s.waiters w → t < s.nextTid
  realtime : ∀ t ∈ s.realtime, t < s.nextTid
  threads : ∀ p, ∀ t ∈ s.threads p, t < s.nextTid

theorem Known.lt_of_state (h : Known s) (ht : s.state t ≠ .ready) : t < s.nextTid := by
  by_contra hn
  exact ht (h.fresh t (not_lt.mp hn))

/-! ## The registers -/

structure SameRegisters (s s' : Sys n) : Prop where
  nextTid : s'.nextTid = s.nextTid
  realtime : s'.realtime = s.realtime
  threads : s'.threads = s.threads

theorem step_sameRegisters (h : step s e = some s') (he : ¬e.Registers) : SameRegisters s s' := by
  obtain ⟨hnext, hreal, hthreads⟩ := (step_within h).registers he
  exact ⟨hnext, hreal, hthreads⟩

theorem step_nextTid_le (h : step s e = some s') : s.nextTid ≤ s'.nextTid := by
  by_cases he : e.Registers
  · cases e with
    | create c p prio affinity =>
      cases h
      exact Nat.le_succ _
    | procExit c p leaves =>
      obtain ⟨-, rfl⟩ := of_guard h
      rw [exitProcess, procExit, foldl_setState_eq]
      split_ifs <;> exact le_rfl
    | realtimeBegin | realtimeEnd =>
      obtain ⟨-, rfl⟩ := of_guard h
      exact le_rfl
    | _ => exact he.elim
  · exact (step_sameRegisters h he).nextTid.ge

/-! ## The run queues -/

theorem queued_clearIfEmpty (s : Sys n) (c : Fin n) (p : Prio) :
    (s.clearIfEmpty c p).Queued t ↔ s.Queued t := by
  rw [Sys.Queued, runq_clearIfEmpty, Sys.Queued]

theorem queued_listDelInit (s : Sys n) (u : Tid) :
    (s.listDelInit u).Queued t ↔ s.Queued t ∧ t ≠ u := by
  simp only [Sys.Queued, Sys.listDelInit, mem_filter, decide_eq_true_eq]
  refine ⟨?_, ?_⟩
  · rintro ⟨c, p, hm, hne⟩
    exact ⟨⟨c, p, hm⟩, hne⟩
  · rintro ⟨⟨c, p, hm⟩, hne⟩
    exact ⟨c, p, hm, hne⟩

theorem update_update_apply {α : Type} (f : Fin n → Prio → α) (c a : Fin n) (p q : Prio) (v : α) :
    update f c (update (f c) p v) a q = if a = c ∧ q = p then v else f a q := by
  by_cases ha : a = c
  · subst ha
    split_ifs <;> simp_all
  · rw [update_of_ne ha, if_neg fun h ↦ ha h.1]

theorem runq_addTail (s : Sys n) (t : Tid) (c a : Fin n) (p q : Prio) :
    (s.addTail t c p).runq a q = if a = c ∧ q = p then s.runq c p ++ [t] else s.runq a q :=
  update_update_apply _ c a p q _

theorem bitmap_addTail (s : Sys n) (t : Tid) (c a : Fin n) (p q : Prio) :
    (s.addTail t c p).bitmap a q = if a = c ∧ q = p then true else s.bitmap a q :=
  update_update_apply _ c a p q true

theorem mem_runq_addTail (s : Sys n) (u : Tid) (c a : Fin n) (p q : Prio) :
    t ∈ (s.addTail u c p).runq a q ↔ t ∈ s.runq a q ∨ t = u ∧ a = c ∧ q = p := by
  rw [runq_addTail]
  split_ifs with haq
  · rw [haq.1, haq.2]
    simp
  · exact ⟨.inl, fun h ↦ h.resolve_right fun hu ↦ haq hu.2⟩

theorem queued_addTail (s : Sys n) (u : Tid) (c : Fin n) (p : Prio) :
    (s.addTail u c p).Queued t ↔ s.Queued t ∨ t = u := by
  simp only [Sys.Queued, mem_runq_addTail]
  refine ⟨?_, ?_⟩
  · rintro ⟨a, q, hm | ⟨rfl, -⟩⟩
    · exact .inl ⟨a, q, hm⟩
    · exact .inr rfl
  · rintro (⟨a, q, hm⟩ | rfl)
    · exact ⟨a, q, .inl hm⟩
    · exact ⟨c, p, .inr ⟨rfl, rfl, rfl⟩⟩

theorem queued_schedDequeueTaskLocked (s : Sys n) (u : Tid) (c : Fin n) :
    (schedDequeueTaskLocked s u c).Queued t ↔ s.Queued t ∧ t ≠ u := by
  rw [schedDequeueTaskLocked, queued_clearIfEmpty, queued_listDelInit]

variable {u : Tid} {c : Fin n}

/-- An insertion adds the task and nothing else. -/
theorem queued_schedEnqueueCpuLocked
    (h : (schedEnqueueCpuLocked s u c).Queued t) : s.Queued t ∨ t = u ∧ ¬s.Linked u := by
  rw [schedEnqueueCpuLocked] at h
  split_ifs at h with hl hd
  · exact .inl h
  · exact .inl h
  · exact ((queued_addTail _ u c (s.prio u)).mp h).imp_right fun ht ↦ ⟨ht, hl⟩

/-- A thread that a switch away from it puts back. -/
def Sys.Runnable (s : Sys n) (t : Tid) : Prop := s.state t = .yielding ∨ s.state t = .ready

theorem queued_requeueOld (h : (requeueOld s u c).Queued t) :
    s.Queued t ∨ t = u ∧ s.Runnable u := by
  have hput : ∀ v : Sys n, (putBack v u c).Queued t → v.Queued t ∨ t = u := by
    intro v hv
    rw [putBack] at hv
    split_ifs at hv
    · exact .inl hv
    · exact (queued_schedEnqueueCpuLocked hv).imp_right And.left
  rw [requeueOld] at h
  split_ifs at h with hy hr
  · exact (hput _ h).imp_right fun ht ↦ ⟨ht, .inl hy⟩
  · exact (hput s h).imp_right fun ht ↦ ⟨ht, .inr hr⟩
  · exact .inl h

theorem queued_chargeDomain (s : Sys n) (u : Tid) (delta : ℕ) :
    (chargeDomain s u delta).Queued t ↔ s.Queued t := by
  rw [chargeDomain]
  split <;> exact Iff.rfl

/-- **A pick takes a queued task and leaves the others queued.** -/
theorem queued_schedPickNextLocal {busy : List (Fin n)}
    (h : schedPickNextLocal s c busy = some (u, s')) :
    s.Queued u ∧ ∀ t, s'.Queued t ↔ s.Queued t ∧ t ≠ u := by
  have hsteal : ∀ (v : Sys n) i p t, (steal v u i p).Queued t ↔ v.Queued t ∧ t ≠ u := by
    intro v i p t
    rw [steal, queued_clearIfEmpty, queued_listDelInit]
  have hown : ∀ {f s₁}, schedPickFromCpuLocked s c = some (f, s₁) →
      s.Queued f ∧ ∀ t, s₁.Queued t ↔ s.Queued t ∧ t ≠ f := by
    intro f s₁ hf
    obtain ⟨rfl, p, -, hhead⟩ := schedPickFromCpuLocked_some hf
    exact ⟨⟨c, p, mem_of_mem_head? hhead⟩, fun t ↦ queued_schedDequeueTaskLocked s f c⟩
  rcases schedPickNextLocal_cases h with h | ⟨i, p, -, hu, rfl⟩ | ⟨f, s₁, i, p, hf, -, hu, rfl⟩
  · exact hown h
  · exact ⟨⟨i, p, hu⟩, hsteal s i p⟩
  · obtain ⟨hqf, hs₁⟩ := hown hf
    have hu₁ := (hs₁ u).mp ⟨i, p, hu⟩
    refine ⟨hu₁.1, fun t ↦ ?_⟩
    rw [queued_addTail, hsteal, hs₁]
    refine ⟨?_, ?_⟩
    · rintro (⟨⟨hq, -⟩, hne⟩ | rfl)
      · exact ⟨hq, hne⟩
      · exact ⟨hqf, hu₁.2.symm⟩
    · rintro ⟨hq, hne⟩
      by_cases htf : t = f
      · exact .inr htf
      · exact .inl ⟨⟨hq, htf⟩, hne⟩

/-! ## The invariant -/

/-- A waker reaches tasks on a wait list or on the list of clock waiters. -/
theorem mem_woken {k : Waker} (h : t ∈ (k.wakes s).woken) :
    (∃ w, t ∈ s.waiters w) ∨ t ∈ s.realtime := by
  cases k with
  | semPost | mqWakeOne => exact .inl ⟨_, mem_of_mem_take h⟩
  | semHandOn | wakeWriter =>
    exact .inl ⟨_, (dropWhile_sublist _).subset (mem_of_mem_take h)⟩
  | mqDrain | barrierTrip => exact .inl ⟨_, h⟩
  | wakeReaders => exact .inl ⟨_, mem_of_mem_filter h⟩
  | futexWake | wakeUp => exact .inl ⟨_, mem_of_mem_filter (mem_of_mem_take h)⟩
  | timeout w u =>
    rw [Waker.wakes, timeoutWakes] at h
    by_cases hu : u ∈ s.waiters w
    · rw [if_pos hu] at h
      have ht : t = u := by
        split at h <;> split_ifs at h <;> simp_all
      exact .inl ⟨w, ht ▸ hu⟩
    · rw [if_neg hu] at h
      exact absurd h not_mem_nil
  | clockSettime => exact .inr h

theorem Known.lt_of_wakes (hk : Known s) (h : step s e = some s') (hw : e.Wakes s t) :
    t < s'.nextTid := by
  have hle := step_nextTid_le h
  cases e with
  | create c p prio affinity =>
    cases h
    rw [hw]
    exact Nat.lt_succ_self _
  | unlock c m => exact (hk.waiters _ t (bestWaiter_some hw).1).trans_le hle
  | wake c k =>
    rcases mem_woken hw with ⟨w, ht⟩ | ht
    · exact (hk.waiters w t ht).trans_le hle
    · exact (hk.realtime t ht).trans_le hle
  | nudgeWake c u =>
    obtain ⟨hg, -⟩ := ite_none_right_eq_some.mp h
    rw [hw]
    refine (hk.lt_of_state ?_).trans_le hle
    rcases hg with hg | hg <;> rw [hg] <;> decide
  | wakeSleeping c u =>
    obtain ⟨hg, -⟩ := ite_none_right_eq_some.mp h
    rw [hw]
    refine (hk.lt_of_state ?_).trans_le hle
    rw [hg]
    decide
  | release c =>
    obtain ⟨m, -, -, hb⟩ := hw
    exact (hk.waiters _ t (bestWaiter_some hb).1).trans_le hle
  | refill c d =>
    have hst : s.state t = .blocked := (of_decide_eq_true (mem_filter.mp hw).2).1
    refine (hk.lt_of_state ?_).trans_le hle
    rw [hst]
    decide
  | detach c u =>
    obtain ⟨rfl, -, hst, -⟩ := hw
    refine (hk.lt_of_state ?_).trans_le hle
    rw [hst]
    decide
  | _ => exact hw.elim

theorem Known.lt_of_sets (hk : Known s) (h : step s e = some s') (hs : e.Sets s t) :
    t < s.nextTid := by
  cases e with
  | block | sleep | exit => exact hs ▸ hk.cur _
  | finish | trap | schedule => exact hs.1 ▸ hk.cur _
  | procExit c p leaves =>
    rcases hs with ⟨ht, -⟩ | ⟨-, ht⟩
    · exact hk.threads p t ht
    · exact ht ▸ hk.cur c
  | enqueue u c =>
    obtain ⟨hg, -⟩ := ite_none_right_eq_some.mp h
    exact hs.1 ▸ hk.pending u c hg
  | commit c =>
    obtain ⟨free, hph⟩ := hs
    exact hk.picked c t free hph
  | _ => exact hs.elim

/-! ## Harts -/

theorem hart_setPhase {s₁ : Sys n} (h : s₁.hart = s.hart) (c : Fin n) (ph : Phase) :
    (s₁.setPhase c ph).hart = update s.hart c ⟨s.cur c, ph⟩ := by
  rw [Sys.cur, ← h]
  rfl

/-- Only a thread that was terminating before is terminating after the switch over its state. -/
theorem oldNeedsFree_requeueOld (h : oldNeedsFree (requeueOld s u c) u = true) :
    s.state u = .terminating ∧ (s.task u).cleanupQueued = false := by
  have hput : ∀ v : Sys n, v.state u = .ready → (putBack v u c).state u ≠ .terminating := by
    intro v hv
    rw [putBack]
    split_ifs with hd
    · rw [Sys.state_park, if_pos rfl]
      decide
    · by_cases hl : v.Linked u
      · rw [schedEnqueueCpuLocked, if_pos hl, hv]
        decide
      · rw [schedEnqueueCpuLocked, if_neg hl, if_neg hd]
        refine ((v.state_setState u u .ready).trans (if_pos rfl)).trans_ne ?_
        decide
  rw [oldNeedsFree, Bool.and_eq_true, decide_eq_true_eq, Bool.not_eq_true'] at h
  rw [requeueOld] at h
  split_ifs at h with hy hr
  · exact absurd h.1 (hput _ ((s.state_setState u u .ready).trans (if_pos rfl)))
  · exact absurd h.1 (hput s hr)
  · exact h

theorem hart_requeueOld (s : Sys n) (u : Tid) (c : Fin n) (delta : ℕ) :
    (requeueOld (chargeDomain s u delta) u c).hart = s.hart := by
  have hcharge : (chargeDomain s u delta).hart = s.hart := by
    rw [chargeDomain]
    split <;> rfl
  rw [requeueOld, putBack, putBack, schedEnqueueCpuLocked, schedEnqueueCpuLocked]
  split_ifs <;> exact hcharge

/-- What is queued after a step was queued before it, pending, or given up by a hart that picks
another thread in the same step. -/
theorem step_queued (h : step s e = some s') (ht : s'.Queued t) :
    s.Queued t ∨ (∃ c, e = .enqueue t c ∧ ¬s.Linked t) ∨
      ∃ c delta busy u, e = .schedule c delta busy ∧ t = s.cur c ∧ s.Runnable t ∧
        s'.hart c = ⟨s.cur c, .picked u false⟩ := by
  by_cases he : e.Moves
  · cases e with
    | wakeSleeping c u =>
      obtain ⟨-, rfl⟩ := of_guard h
      exact .inl ((queued_listDelInit s u).mp ht).1
    | enqueue u c =>
      obtain ⟨-, rfl⟩ := of_guard h
      rcases queued_schedEnqueueCpuLocked ht with ht | ⟨rfl, hl⟩
      · exact .inl ht
      · exact .inr (.inl ⟨c, rfl, hl⟩)
    | trap c resched =>
      obtain ⟨-, rfl⟩ := of_guard h
      rw [trapDispatch, preempt] at ht
      split_ifs at ht <;> exact .inl ht
    | schedule c delta busy =>
      obtain ⟨-, h⟩ := ite_none_right_eq_some.mp h
      rcases schedSchedule_some h with ⟨hfree, rfl⟩ | hpick
      · have hst := (oldNeedsFree_requeueOld hfree).1
        have hsame : requeueOld (chargeDomain s (s.cur c) delta) (s.cur c) c =
            chargeDomain s (s.cur c) delta := by
          rw [requeueOld, if_neg (by rw [hst]; decide), if_neg (by rw [hst]; decide)]
        rw [hsame] at ht
        exact .inl ((queued_chargeDomain s _ delta).mp ht)
      · obtain ⟨u, s₁, hnext, rfl⟩ := pickInto_some hpick
        have hsame := (schedPickNextLocal_sameTasks hnext).hart.trans (hart_requeueOld ..)
        have hq := (((queued_schedPickNextLocal hnext).2 t).mp ht).1
        rcases queued_requeueOld hq with hq | ⟨rfl, hrun⟩
        · exact .inl ((queued_chargeDomain s _ delta).mp hq)
        · rw [Sys.Runnable, state_chargeDomain] at hrun
          refine .inr (.inr ⟨c, delta, busy, u, rfl, rfl, hrun, ?_⟩)
          rw [hart_setPhase hsame, update_self]
    | cleanup c =>
      obtain ⟨-, rfl⟩ := of_guard h
      rw [runBlockCleanup] at ht
      split at ht <;> exact .inl ht
    | pick c busy =>
      obtain ⟨-, h⟩ := ite_none_right_eq_some.mp h
      obtain ⟨u, s₁, hnext, rfl⟩ := pickInto_some h
      exact .inl (((queued_schedPickNextLocal hnext).2 t).mp ht).1
    | commit c =>
      rw [step] at h
      split at h
      · cases h
        rw [commitSwitch] at ht
        split_ifs at ht <;> exact .inl ht
      · cases h
    | balance u src dst =>
      obtain ⟨-, rfl⟩ := of_guard h
      exact .inl ((queued_schedDequeueTaskLocked s u src).mp ht).1
    | _ => exact he.elim
  · have hq := (step_sameQueues h he).runq
    rw [Sys.Queued, hq] at ht
    exact .inl ht

theorem hart_commitSwitch (s : Sys n) (c : Fin n) (next : Tid) (free : Bool) :
    (commitSwitch s c next free).hart = update s.hart c ⟨next, .running⟩ := by
  cases free <;> rfl

/-- **What an event does to its hart**: the next phase of a switch, or the switch itself. -/
inductive HartStep (s s' : Sys n) (c : Fin n) : Event n → Hart → Prop
  | trapped {resched : Bool} (hph : s.phase c = .running) (hst : s'.state (s.cur c) ≠ .running) :
      HartStep s s' c (.trap c resched) ⟨s.cur c, .trapped⟩
  | cleaning {delta : ℕ} {busy : List (Fin n)} (hph : s.phase c = .trapped) :
      HartStep s s' c (.schedule c delta busy) ⟨s.cur c, .cleaning⟩
  | releasing (hph : s.phase c = .cleaning) : HartStep s s' c (.cleanup c) ⟨s.cur c, .releasing⟩
  | scheduled {delta : ℕ} {busy : List (Fin n)} {u : Tid} (hph : s.phase c = .trapped)
      (hu : s.Queued u ∨ u = s.cur c ∧ s.Runnable u) (hq : ¬s'.Queued u) :
      HartStep s s' c (.schedule c delta busy) ⟨s.cur c, .picked u false⟩
  | picked {busy : List (Fin n)} {u : Tid} (hph : s.phase c = .releasing)
      (hheld : (s.task (s.cur c)).held = []) (hu : s.Queued u) (hq : ¬s'.Queued u) :
      HartStep s s' c (.pick c busy) ⟨s.cur c, .picked u true⟩
  | switched {u : Tid} {free : Bool} (hph : s.phase c = .picked u free) :
      HartStep s s' c (.commit c) ⟨u, .running⟩

/-- A step changes one hart at most. -/
theorem step_harts (h : step s e = some s') : s'.hart = s.hart ∨
    ∃ c d, HartStep s s' c e d ∧ s'.hart = update s.hart c d := by
  by_cases hm : e.Moves
  case neg => exact .inl (step_sameQueues h hm).hart
  cases e with
  | wakeSleeping c u =>
    obtain ⟨-, rfl⟩ := of_guard h
    exact .inl rfl
  | enqueue u c =>
    obtain ⟨-, rfl⟩ := of_guard h
    rw [schedEnqueueCpuLocked]
    split_ifs <;> exact .inl rfl
  | trap c resched =>
    obtain ⟨hg, rfl⟩ := of_guard h
    have hhart : (preempt s c resched).hart = s.hart := by
      rw [preempt]
      split_ifs <;> rfl
    rw [trapDispatch]
    split_ifs with hrun
    · exact .inl hhart
    · exact .inr ⟨c, _, .trapped hg hrun, hart_setPhase hhart c _⟩
  | schedule c delta busy =>
    obtain ⟨hg, h⟩ := ite_none_right_eq_some.mp h
    have hreq := hart_requeueOld s (s.cur c) c delta
    rcases schedSchedule_some h with ⟨-, rfl⟩ | hpick
    · exact .inr ⟨c, _, .cleaning hg, hart_setPhase hreq c _⟩
    · obtain ⟨u, s₁, hnext, rfl⟩ := pickInto_some hpick
      obtain ⟨hu, hs₁⟩ := queued_schedPickNextLocal hnext
      have hsame := (schedPickNextLocal_sameTasks hnext).hart.trans hreq
      refine .inr ⟨c, _, .scheduled hg ?_ fun hq ↦ ((hs₁ u).mp hq).2 rfl, hart_setPhase hsame c _⟩
      rcases queued_requeueOld hu with hq | ⟨rfl, hrun⟩
      · exact .inl ((queued_chargeDomain s _ delta).mp hq)
      · rw [Sys.Runnable, state_chargeDomain] at hrun
        exact .inr ⟨rfl, hrun⟩
  | cleanup c =>
    obtain ⟨hg, rfl⟩ := of_guard h
    have hhart : (runBlockCleanup s (s.cur c)).hart = s.hart := by
      rw [runBlockCleanup]
      split <;> rfl
    exact .inr ⟨c, _, .releasing hg, hart_setPhase hhart c _⟩
  | pick c busy =>
    obtain ⟨hg, h⟩ := ite_none_right_eq_some.mp h
    obtain ⟨u, s₁, hnext, rfl⟩ := pickInto_some h
    obtain ⟨hu, hs₁⟩ := queued_schedPickNextLocal hnext
    exact .inr ⟨c, _, .picked hg.1 hg.2 hu fun hq ↦ ((hs₁ u).mp hq).2 rfl,
      hart_setPhase (schedPickNextLocal_sameTasks hnext).hart c _⟩
  | commit c =>
    rw [step] at h
    split at h
    · next u free hph =>
      cases h
      exact .inr ⟨c, _, .switched hph, hart_commitSwitch s c u free⟩
    · cases h
  | balance u src dst =>
    obtain ⟨-, rfl⟩ := of_guard h
    exact .inl (clearIfEmpty_sameTasks _ src (s.prio u)).hart
  | _ => exact hm.elim

/-- **What happens to a hart in a step.** -/
theorem step_hart (h : step s e = some s') (a : Fin n) :
    s'.hart a = s.hart a ∨ ∃ d, HartStep s s' a e d ∧ s'.hart a = d := by
  rcases step_harts h with heq | ⟨c, d, hd, heq⟩
  · exact .inl (congrFun heq a)
  · rw [heq]
    by_cases hac : a = c
    · subst hac
      exact .inr ⟨d, hd, update_self ..⟩
    · exact .inl (update_of_ne hac ..)

/-- The task a hart has picked and not yet switched to. -/
def Phase.next? : Phase → Option Tid
  | picked next _ => some next
  | _ => none

theorem Phase.next?_eq_some {ph : Phase} {t : Tid} :
    ph.next? = some t ↔ ∃ free, ph = .picked t free := by
  cases ph <;> simp [Phase.next?]

/-- The current threads after a step: only a hart that commits a switch has a new one. -/
theorem step_cur (h : step s e = some s') (c : Fin n) : s'.cur c = s.cur c ∨
    ∃ free, e = .commit c ∧ s.phase c = .picked (s'.cur c) free ∧ s'.phase c = .running := by
  rw [Sys.cur]
  rcases step_hart h c with heq | ⟨d, hd, heq⟩ <;> rw [heq]
  · exact .inl rfl
  · cases hd with
    | switched hph => exact .inr ⟨_, rfl, hph, congrArg Hart.phase heq⟩
    | _ => exact .inl rfl

/-- The picked threads after a step: picked before, or picked in this step off a run queue. -/
theorem step_picked {t : Tid} {free : Bool} (h : step s e = some s')
    (hph : s'.phase c = .picked t free) :
    (s.phase c = .picked t free ∧ s'.cur c = s.cur c) ∨
    (((∃ delta busy, e = .schedule c delta busy) ∨ ∃ busy, e = .pick c busy) ∧
      (s.Queued t ∨ t = s.cur c ∧ s.Runnable t) ∧ ¬s'.Queued t) := by
  rw [Sys.phase] at hph
  rcases step_hart h c with heq | ⟨d, hd, heq⟩ <;> rw [heq] at hph
  · refine .inl ⟨hph, ?_⟩
    rw [Sys.cur, heq, Sys.cur]
  · cases hd with
    | scheduled _ hu hq =>
      cases hph
      exact .inr ⟨.inl ⟨_, _, rfl⟩, hu, hq⟩
    | picked _ _ hu hq =>
      cases hph
      exact .inr ⟨.inr ⟨_, rfl⟩, .inl hu, hq⟩
    | _ => cases hph

theorem known_boot (budget : ℕ → ℕ) : Known (boot n budget) where
  fresh := by
    intro t ht
    have hn : ¬t < n := not_lt.mpr ht
    simp [Sys.state, boot, hn, Task.fresh]
  cur := fun c ↦ c.isLt
  picked := by
    intro c t free h
    cases h
  queued := by
    rintro t ⟨c, p, h⟩
    exact absurd h not_mem_nil
  pending := fun t c h ↦ absurd h not_mem_nil
  waiters := fun w t h ↦ absurd h not_mem_nil
  realtime := fun t h ↦ absurd h not_mem_nil
  threads := fun p t h ↦ absurd h not_mem_nil

/-- The registers after a step refer to known tasks. -/
theorem Known.registers (hk : Known s) (h : step s e = some s') :
    (∀ t ∈ s'.realtime, t < s'.nextTid) ∧ ∀ p, ∀ t ∈ s'.threads p, t < s'.nextTid := by
  have hle := step_nextTid_le h
  by_cases he : e.Registers
  · cases e with
    | create c p prio affinity =>
      cases h
      refine ⟨fun t ht ↦ (hk.realtime t ht).trans_le hle, fun q t ht ↦ ?_⟩
      cases p with
      | none => exact (hk.threads q t ht).trans_le hle
      | some p =>
        have ht' : t ∈ update s.threads p (s.threads p ++ [s.nextTid]) q := ht
        by_cases hq : q = p
        · rw [hq, update_self, mem_append, mem_singleton] at ht'
          rcases ht' with ht' | rfl
          · exact (hk.threads p t ht').trans_le hle
          · exact Nat.lt_succ_self _
        · rw [update_of_ne hq] at ht'
          exact (hk.threads q t ht').trans_le hle
    | procExit c p leaves =>
      obtain ⟨-, rfl⟩ := of_guard h
      have hreal : (exitProcess s c p leaves).realtime = s.realtime := by
        rw [exitProcess, procExit, foldl_setState_eq]
        split_ifs <;> rfl
      have hthr : (exitProcess s c p leaves).threads = update s.threads p [] := by
        rw [exitProcess]
        split_ifs <;> rfl
      refine ⟨fun t ht ↦ (hk.realtime t (hreal ▸ ht)).trans_le hle, fun q t ht ↦ ?_⟩
      rw [hthr] at ht
      by_cases hq : q = p
      · rw [hq, update_self] at ht
        exact absurd ht not_mem_nil
      · rw [update_of_ne hq] at ht
        exact (hk.threads q t ht).trans_le hle
    | realtimeBegin c =>
      obtain ⟨-, rfl⟩ := of_guard h
      refine ⟨fun t ht ↦ ?_, hk.threads⟩
      rcases mem_append.mp ht with ht | ht
      · exact hk.realtime t ht
      · exact mem_singleton.mp ht ▸ hk.cur c
    | realtimeEnd c =>
      obtain ⟨-, rfl⟩ := of_guard h
      exact ⟨fun t ht ↦ hk.realtime t (mem_of_mem_filter ht), hk.threads⟩
    | _ => exact he.elim
  · obtain ⟨hn, hr, ht⟩ := step_sameRegisters h he
    rw [hn, hr, ht]
    exact ⟨hk.realtime, hk.threads⟩

theorem Known.step (hk : Known s) (h : step s e = some s') : Known s' := by
  have hle := step_nextTid_le h
  obtain ⟨hreal, hthr⟩ := hk.registers h
  refine ⟨?_, ?_, ?_, ?_, ?_, ?_, hreal, hthr⟩
  · intro t ht
    by_cases hw : e.Wakes s t
    · exact (step_wakes h hw).1
    · by_cases hs : e.Sets s t
      · exact absurd (hk.lt_of_sets h hs) (not_lt.mpr (hle.trans ht))
      · rw [step_keeps h hw hs]
        exact hk.fresh t (hle.trans ht)
  · intro c
    rcases step_cur h c with hc | ⟨free, -, hph, -⟩
    · rw [hc]
      exact (hk.cur c).trans_le hle
    · exact (hk.picked c _ free hph).trans_le hle
  · intro c t free hph
    rcases step_picked h hph with ⟨hph, -⟩ | ⟨-, hq | ⟨rfl, -⟩, -⟩
    · exact (hk.picked c t free hph).trans_le hle
    · exact (hk.queued t hq).trans_le hle
    · exact (hk.cur c).trans_le hle
  · intro t ht
    rcases step_queued h ht with hq | ⟨c, rfl, -⟩ | ⟨c, _, _, _, -, rfl, -⟩
    · exact (hk.queued t hq).trans_le hle
    · obtain ⟨hg, -⟩ := ite_none_right_eq_some.mp h
      exact (hk.pending t c hg).trans_le hle
    · exact (hk.cur c).trans_le hle
  · intro t c ht
    rcases (step_within h).pending t c ht with hp | hw | ⟨src, dst, rfl⟩
    · exact (hk.pending t c hp).trans_le hle
    · exact hk.lt_of_wakes h hw
    · obtain ⟨⟨-, -, p, -, hq⟩, -⟩ := ite_none_right_eq_some.mp h
      exact (hk.queued t ⟨src, p, hq⟩).trans_le hle
  · intro w t ht
    rcases (step_within h).waiters t w ht with hw | hj
    · exact (hk.waiters w t hw).trans_le hle
    · cases e with
      | block c w' => exact hj.1 ▸ (hk.cur c).trans_le hle
      | requeue u key key' => exact hj.1 ▸ (hk.waiters _ u hj.2.2).trans_le hle
      | _ => exact hj.elim

theorem Reach.known {K : Sys n → Event n → Prop} (h : Reach K s) : Known s := by
  obtain ⟨budget, h⟩ := h
  exact h.invariant (known_boot budget) fun _ _ _ hk _ hstep ↦ hk.step hstep

end Mazu.Sched
