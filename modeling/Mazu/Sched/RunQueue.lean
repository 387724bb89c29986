import Mazu.Sched.Known

/-!
# The run queues

A queued task stands in the queue of its priority, and the bitmap says which queues are not empty.
Both are read off the task when it is queued and when it is taken off again, so they rest on nobody
writing the state or the priority of a task in between; priority inheritance writes the priority
without looking at the queues.
-/

namespace Mazu.Sched

open List

variable {n : ℕ} {s s' : Sys n} {e : Event n} {t u : Tid} {c : Fin n} {p : Prio}

/-- What the scheduler's own checker and its picks rely on. -/
structure RunqSound (s : Sys n) : Prop where
  bits : ∀ c p, s.bitmap c p = true ↔ s.runq c p ≠ []
  once : ∀ t, s.Queued t → ∃ c, (s.runq c (s.prio t)).count t = 1 ∧
    ∀ a q, t ∈ s.runq a q → a = c ∧ q = s.prio t
  picked : ∀ c t s', schedPickFromCpuLocked s c = some (t, s') →
    s.state t = .ready ∧ ∀ p, ∀ u ∈ s.runq c p, s.prio u ≤ s.prio t

/-! ## The invariant -/

structure Tidy (s : Sys n) : Prop where
  bits : ∀ c p, s.bitmap c p = true ↔ s.runq c p ≠ []
  home : ∀ c p, ∀ t ∈ s.runq c p, s.prio t = p
  ready : ∀ t, s.Queued t → s.state t = .ready
  nodup : ∀ c p, (s.runq c p).Nodup
  hart : ∀ c c' p p' t, t ∈ s.runq c p → t ∈ s.runq c' p' → c = c'

theorem tidy_boot (budget : ℕ → ℕ) : Tidy (boot n budget) where
  bits := fun _ _ ↦ ⟨nofun, absurd rfl⟩
  home := fun _ _ _ h ↦ absurd h not_mem_nil
  ready := by
    rintro t ⟨a, p, h⟩
    exact absurd h not_mem_nil
  nodup := fun _ _ ↦ nodup_nil
  hart := fun _ _ _ _ _ h ↦ absurd h not_mem_nil

namespace Tidy

variable (h : Tidy s)

include h

/-- A step that leaves the queues alone, and of queued tasks the priority and the ready state. -/
theorem of_tasks (hq : s'.runq = s.runq) (hb : s'.bitmap = s.bitmap)
    (hp : ∀ t, s.Queued t → s'.prio t = s.prio t) (hst : ∀ t, s.Queued t → s'.state t = .ready) :
    Tidy s' where
  bits := by
    rw [hq, hb]
    exact h.bits
  home := by
    intro c p t ht
    rw [hq] at ht
    rw [hp t ⟨c, p, ht⟩, h.home c p t ht]
  ready := by
    rintro t ⟨c, p, ht⟩
    rw [hq] at ht
    exact hst t ⟨c, p, ht⟩
  nodup := by
    rw [hq]
    exact h.nodup
  hart := by
    rw [hq]
    exact h.hart

theorem setState_of_not_queued (ht : ¬s.Queued t) (st : TdState) : Tidy (s.setState t st) := by
  refine h.of_tasks rfl rfl (fun u _ ↦ s.prio_setState t u st) fun u hu ↦ ?_
  have hne : u ≠ t := fun hut ↦ ht (hut ▸ hu)
  rw [s.state_setState t u st, if_neg hne]
  exact h.ready u hu

theorem park_of_not_queued (ht : ¬s.Queued t) : Tidy (s.park t) := by
  refine h.of_tasks rfl rfl (fun u _ ↦ s.prio_park t u) fun u hu ↦ ?_
  have hne : u ≠ t := fun hut ↦ ht (hut ▸ hu)
  rw [s.state_park t u, if_neg hne]
  exact h.ready u hu

theorem setPhase (ph : Phase) : Tidy (s.setPhase c ph) :=
  h.of_tasks rfl rfl (fun _ _ ↦ rfl) h.ready

/-! ## Insertion and removal -/

theorem addTail (hq : ¬s.Queued t) (hst : s.state t = .ready) :
    Tidy (s.addTail t c (s.prio t)) where
  bits := by
    intro a q
    rw [bitmap_addTail, runq_addTail]
    split_ifs
    · exact ⟨fun _ ↦ append_ne_nil_of_right_ne_nil _ (cons_ne_nil t []), fun _ ↦ rfl⟩
    · exact h.bits a q
  home := by
    intro a q u hu
    rcases (mem_runq_addTail s t c a _ q).mp hu with hu | ⟨rfl, -, rfl⟩
    · exact h.home a q u hu
    · rfl
  ready := by
    intro u hu
    rcases (queued_addTail s t c _).mp hu with hu | rfl
    · exact h.ready u hu
    · exact hst
  nodup := by
    intro a q
    have happ : (s.runq c (s.prio t) ++ [t]).Nodup :=
      (h.nodup c _).append (nodup_singleton t) fun u hu hut ↦
        hq ⟨c, s.prio t, mem_singleton.mp hut ▸ hu⟩
    rw [runq_addTail]
    split_ifs
    · exact happ
    · exact h.nodup a q
  hart := by
    intro a a' q q' u hu hu'
    rcases (mem_runq_addTail s t c a _ q).mp hu with hu | ⟨hut, hac, -⟩ <;>
      rcases (mem_runq_addTail s t c a' _ q').mp hu' with hu' | ⟨hut', hac', -⟩
    · exact h.hart a a' q q' u hu hu'
    · exact absurd ⟨a, q, hut' ▸ hu⟩ hq
    · exact absurd ⟨a', q', hut ▸ hu'⟩ hq
    · exact hac.trans hac'.symm

/-- A task leaves its queue; the bit goes with the last one. -/
theorem remove (ht : t ∈ s.runq c p) : Tidy ((s.listDelInit t).clearIfEmpty c p) := by
  have hrunq : ((s.listDelInit t).clearIfEmpty c p).runq = (s.listDelInit t).runq :=
    runq_clearIfEmpty _ _ _
  have htask : ((s.listDelInit t).clearIfEmpty c p).task = s.task :=
    (clearIfEmpty_sameTasks _ c p).task
  refine ⟨fun a q ↦ ?_, fun a q u hu ↦ ?_, fun u hu ↦ ?_, fun a q ↦ ?_, fun a a' q q' u hu hu' ↦ ?_⟩
  · rw [hrunq]
    by_cases haq : a = c ∧ q = p
    · obtain ⟨rfl, rfl⟩ := haq
      by_cases hempty : (s.listDelInit t).runq a q = []
      · simp [Sys.clearIfEmpty, hempty]
      · rw [Sys.clearIfEmpty, if_neg hempty]
        have hb := (h.bits a q).mpr (ne_nil_of_mem ht)
        exact ⟨fun _ ↦ hempty, fun _ ↦ hb⟩
    · -- the task stands in no other queue, so the others are as they were
      have hq : (s.listDelInit t).runq a q = s.runq a q := by
        refine filter_eq_self.mpr fun u hu ↦ decide_eq_true ?_
        rintro rfl
        exact haq ⟨h.hart a c q p u hu ht, (h.home a q u hu).symm.trans (h.home c p u ht)⟩
      have hb : ((s.listDelInit t).clearIfEmpty c p).bitmap a q = s.bitmap a q := by
        rw [Sys.clearIfEmpty]
        split_ifs
        · exact (update_update_apply _ c a p q false).trans (if_neg haq)
        · rfl
      rw [hb, hq]
      exact h.bits a q
  · rw [hrunq] at hu
    rw [Sys.prio, htask]
    exact h.home a q u (mem_of_mem_filter hu)
  · rw [queued_clearIfEmpty, queued_listDelInit] at hu
    rw [Sys.state, htask]
    exact h.ready u hu.1
  · rw [hrunq]
    exact (h.nodup a q).filter _
  · rw [hrunq] at hu hu'
    exact h.hart a a' q q' u (mem_of_mem_filter hu) (mem_of_mem_filter hu')

theorem schedDequeueTaskLocked (ht : t ∈ s.runq c p) : Tidy (schedDequeueTaskLocked s t c) := by
  rw [Sched.schedDequeueTaskLocked, h.home c p t ht]
  exact h.remove ht

theorem schedEnqueueCpuLocked : Tidy (schedEnqueueCpuLocked s t c) := by
  rw [Sched.schedEnqueueCpuLocked]
  split_ifs with hl hd
  · exact h
  · exact h.park_of_not_queued fun hq ↦ hl (.inl hq)
  · have hq : ¬s.Queued t := fun hq ↦ hl (.inl hq)
    have hst : (s.setState t .ready).state t = .ready := by
      rw [s.state_setState t t, if_pos rfl]
    rw [← s.prio_setState t t .ready]
    exact (h.setState_of_not_queued hq .ready).addTail hq hst

theorem putBack (ht : s.Queued t → ¬s.Depleted t) : Tidy (putBack s t c) := by
  rw [Sched.putBack]
  split_ifs with hd
  · exact h.park_of_not_queued fun hq ↦ ht hq hd
  · exact h.schedEnqueueCpuLocked

theorem requeueOld (ht : s.Queued t → ¬s.Depleted t) : Tidy (requeueOld s t c) := by
  rw [Sched.requeueOld]
  split_ifs with hy
  · -- a queued task is ready, so a yielding one is not queued
    have hq : ¬s.Queued t := by
      intro hq
      rw [h.ready t hq] at hy
      cases hy
    exact (h.setState_of_not_queued hq .ready).putBack fun hq' ↦ absurd hq' hq
  · exact h.putBack ht
  · exact h

theorem schedPickFromCpuLocked (hpick : schedPickFromCpuLocked s c = some (t, s')) : Tidy s' := by
  obtain ⟨rfl, p, -, hhead⟩ := schedPickFromCpuLocked_some hpick
  exact h.schedDequeueTaskLocked (mem_of_mem_head? hhead)

theorem schedPickNextLocal {busy : List (Fin n)}
    (hpick : schedPickNextLocal s c busy = some (t, s')) : Tidy s' := by
  rcases schedPickNextLocal_cases hpick with hown | ⟨i, p, -, ht, rfl⟩ |
    ⟨f, s₁, i, p, hf, -, ht, rfl⟩
  · exact h.schedPickFromCpuLocked hown
  · exact h.remove ht
  · -- the idle task that was picked first goes back to the queue it came from
    obtain ⟨rfl, q, -, hhead⟩ := schedPickFromCpuLocked_some hf
    have hq : s.Queued f := ⟨c, q, mem_of_mem_head? hhead⟩
    have htidy := (h.schedPickFromCpuLocked hf).remove ht
    have htask : (steal (Sched.schedDequeueTaskLocked s f c) t i p).task = s.task :=
      ((listDelInit_sameTasks s f).trans (clearIfEmpty_sameTasks _ c _) |>.trans
        (steal_sameTasks _ t i p)).task
    have hnq : ¬(steal (Sched.schedDequeueTaskLocked s f c) t i p).Queued f := by
      rw [steal, queued_clearIfEmpty, queued_listDelInit, queued_schedDequeueTaskLocked]
      exact fun hf ↦ hf.1.2 rfl
    have hst : (steal (Sched.schedDequeueTaskLocked s f c) t i p).state f = .ready := by
      rw [Sys.state, htask]
      exact h.ready f hq
    have hprio : (Sched.schedDequeueTaskLocked s f c).prio f =
        (steal (Sched.schedDequeueTaskLocked s f c) t i p).prio f := by
      rw [Sys.prio, Sys.prio, (steal_sameTasks _ t i p).task]
    rw [hprio]
    exact Tidy.addTail htidy hnq hst

theorem pickInto {busy : List (Fin n)} {free : Bool} (hpick : pickInto s c busy free = some s')
    : Tidy s' := by
  obtain ⟨t, s₁, hnext, rfl⟩ := pickInto_some hpick
  exact (h.schedPickNextLocal hnext).setPhase _

end Tidy

/-! ## Steps -/

/-- The domain of the task, if it has one, has budget left after `delta` more ticks. -/
def Sys.HasBudget (s : Sys n) (t : Tid) (delta : ℕ) : Prop :=
  ∀ d ∈ (s.task t).domain,
    (s.dom d).state = .active ∧ (s.dom d).consumedTicks + delta < (s.dom d).quantumTicks

instance (s : Sys n) (t : Tid) (delta : ℕ) : Decidable (s.HasBudget t delta) :=
  inferInstanceAs (Decidable (∀ d ∈ (s.task t).domain, _ ∧ _))

/-- Nobody writes the state or the priority of a queued task: a thread that blocks, sleeps, ends, is
ended, is parked or is switched to is not queued, and a recomputed priority of a queued task is the
one it had. -/
def Steady (s : Sys n) : Event n → Prop
  | .block c _ | .sleep c _ | .exit c => ¬s.Queued (s.cur c)
  | .procExit c p leaves =>
    (∀ t ∈ s.threads p, t ≠ s.cur c → ¬s.Queued t) ∧ (leaves = true → ¬s.Queued (s.cur c))
  | .schedule c delta _ => s.Queued (s.cur c) → s.HasBudget (s.cur c) delta
  | .commit c => ∀ t ∈ (s.phase c).next?, ¬s.Queued t
  | .recompute t p => s.Queued t → p = s.prio t
  | _ => True

instance (s : Sys n) : DecidablePred (Steady s) := by
  rintro (_ | _) <;> delta Steady <;> dsimp only <;> infer_instance

theorem not_depleted_chargeDomain {delta : ℕ} (h : s.HasBudget t delta) :
    ¬(chargeDomain s t delta).Depleted t := by
  rw [Sys.Depleted, task_chargeDomain, chargeDomain]
  cases hd : (s.task t).domain with
  | none => simp
  | some d =>
    obtain ⟨hst, hlt⟩ := h d hd
    simp [hst, hlt]

namespace Tidy

/-- The steps that touch neither queues nor harts. -/
theorem step_of_not_moves (hs : Tidy s) (hk : Known s) (hK : Steady s e) (h : step s e = some s')
    (he : ¬e.Moves) : Tidy s' := by
  obtain ⟨hq, hb, -⟩ := step_sameQueues h he
  refine hs.of_tasks hq hb (fun t ht ↦ ?_) fun t ht ↦ ?_
  · by_cases hre : ∃ p, e = .recompute t p
    · obtain ⟨p, rfl⟩ := hre
      obtain ⟨-, rfl⟩ := Runs.of_guard h
      rw [Sys.prio, Sys.task_setTask, if_pos rfl]
      exact hK ht
    · exact step_prio h (hk.queued t ht) fun p hp ↦ hre ⟨p, hp⟩
  · by_cases hw : e.Wakes s t
    · exact (step_wakes h hw).1
    · have hset : ¬e.Sets s t := by
        intro hset
        cases e with
        | block c w | sleep c ms | exit c => exact hK (hset ▸ ht)
        | finish c =>
          have hr := hs.ready t ht
          rcases hset.2 with hb | hb <;> cases hr.symm.trans hb
        | procExit c p leaves =>
          rcases hset with ⟨hmem, hne⟩ | ⟨hl, hcur⟩
          · exact hK.1 t hmem hne ht
          · exact hK.2 hl (hcur ▸ ht)
        | trap | schedule | enqueue | commit => exact he trivial
        | _ => exact hset
      rw [step_keeps h hw hset]
      exact hs.ready t ht

theorem step (hs : Tidy s) (hk : Known s) (hK : Steady s e) (h : step s e = some s') : Tidy s' := by
  by_cases he : e.Moves
  case neg => exact hs.step_of_not_moves hk hK h he
  cases e with
  | wakeSleeping c t =>
    obtain ⟨hst, rfl⟩ := Runs.of_guard h
    have hnq : ¬s.Queued t := by
      intro hq
      cases (hs.ready t hq).symm.trans hst
    have hrunq : (s.listDelInit t).runq = s.runq := by
      funext a q
      refine filter_eq_self.mpr fun u hu ↦ decide_eq_true ?_
      rintro rfl
      exact hnq ⟨a, q, hu⟩
    refine hs.of_tasks hrunq rfl (fun u _ ↦ Sys.prio_setState ..) fun u hu ↦ ?_
    rw [schedWakeSleeping, state_schedWakeReady]
    split_ifs
    · rfl
    · exact hs.ready u hu
  | enqueue t c =>
    obtain ⟨-, rfl⟩ := Runs.of_guard h
    have hpend : Tidy { s with pending := s.pending.erase (t, c) } :=
      hs.of_tasks rfl rfl (fun _ _ ↦ rfl) hs.ready
    exact hpend.schedEnqueueCpuLocked
  | trap c resched =>
    obtain ⟨-, rfl⟩ := Runs.of_guard h
    have hpre : Tidy (preempt s c resched) := by
      rw [preempt]
      split_ifs with hrun
      · refine hs.setState_of_not_queued (fun hq ↦ ?_) .ready
        cases (hs.ready _ hq).symm.trans hrun.1
      · exact hs
    rw [trapDispatch]
    split_ifs
    · exact hpre
    · exact hpre.setPhase _
  | schedule c delta busy =>
    obtain ⟨-, hs'⟩ := Option.ite_none_right_eq_some.mp h
    have hch : Tidy (chargeDomain s (s.cur c) delta) := by
      refine hs.of_tasks ?_ ?_ (fun u _ ↦ ?_) fun u hu ↦ ?_
      · rw [chargeDomain]
        split <;> rfl
      · rw [chargeDomain]
        split <;> rfl
      · rw [Sys.prio, task_chargeDomain, Sys.prio]
      · rw [state_chargeDomain]
        exact hs.ready u hu
    have hold : Tidy (Sched.requeueOld (chargeDomain s (s.cur c) delta) (s.cur c) c) :=
      hch.requeueOld fun hq ↦
        not_depleted_chargeDomain (hK ((queued_chargeDomain s _ delta).mp hq))
    rcases schedSchedule_some hs' with ⟨-, rfl⟩ | hpick
    · exact hold.setPhase _
    · exact hold.pickInto hpick
  | cleanup c =>
    obtain ⟨-, rfl⟩ := Runs.of_guard h
    refine hs.of_tasks ?_ ?_ (fun u hu ↦ step_prio h (hk.queued u hu) fun p hp ↦ ?_) fun u hu ↦ ?_
    · rw [Sys.setPhase, runBlockCleanup]
      split <;> rfl
    · rw [Sys.setPhase, runBlockCleanup]
      split <;> rfl
    · cases hp
    · exact (step_keeps h id id).trans (hs.ready u hu)
  | pick c busy =>
    obtain ⟨-, hs'⟩ := Option.ite_none_right_eq_some.mp h
    exact hs.pickInto hs'
  | commit c =>
    cases hph : s.phase c with
    | picked next free =>
      have hprio := fun u (hu : s.Queued u) ↦ step_prio h (hk.queued u hu) fun p hp ↦ by cases hp
      have hkeep := fun u (hu : s.Queued u) ↦ step_keeps (t := u) h id fun hp ↦
        hK u (by rw [hp.choose_spec]; rfl) hu
      rw [Sched.step, hph, Option.some.injEq] at h
      refine hs.of_tasks ?_ ?_ hprio fun u hu ↦ (hkeep u hu).trans (hs.ready u hu)
      · rw [← h, commitSwitch]
        cases free <;> rfl
      · rw [← h, commitSwitch]
        cases free <;> rfl
    | _ => rw [Sched.step, hph] at h; cases h
  | balance t src dst =>
    obtain ⟨⟨-, -, p, -, ht⟩, rfl⟩ := Runs.of_guard h
    exact (hs.schedDequeueTaskLocked ht).of_tasks rfl rfl (fun _ _ ↦ rfl)
      (hs.schedDequeueTaskLocked ht).ready
  | _ => exact he.elim

end Tidy

/-! ## Picking -/

/-- The search from the top finds a task of the highest queue that has one. -/
theorem firstQueued_max {q : Prio → List Tid} {bm : Prio → Bool} {ps : List Prio}
    (hps : ps.Pairwise (· > ·)) (h : firstQueued q bm ps = some t) :
    ∃ p ∈ ps, t ∈ q p ∧ ∀ r ∈ ps, bm r = true → q r ≠ [] → r ≤ p := by
  induction ps with
  | nil => cases h
  | cons a ps ih =>
    rw [pairwise_cons] at hps
    have hrest : (bm a = true → q a = []) → firstQueued q bm ps = some t →
        ∃ p ∈ a :: ps, t ∈ q p ∧ ∀ r ∈ a :: ps, bm r = true → q r ≠ [] → r ≤ p := by
      intro hempty hps'
      obtain ⟨p, hp, htp, hmax⟩ := ih hps.2 hps'
      refine ⟨p, mem_cons_of_mem a hp, htp, fun r hr hb hne ↦ ?_⟩
      rcases mem_cons.mp hr with rfl | hr
      · exact absurd (hempty hb) hne
      · exact hmax r hr hb hne
    rw [firstQueued] at h
    split_ifs at h with hb
    · cases hq : q a with
      | nil =>
        rw [hq] at h
        exact hrest (fun _ ↦ hq) h
      | cons u us =>
        rw [hq] at h
        cases h
        refine ⟨a, mem_cons_self, hq ▸ mem_cons_self, fun r hr _ _ ↦ ?_⟩
        rcases mem_cons.mp hr with rfl | hr
        · exact le_rfl
        · exact (hps.1 r hr).le
    · exact hrest (fun hb' ↦ absurd hb' hb) h

theorem mem_prios : ∀ p, p ∈ prios := by
  decide

theorem Tidy.runqSound (hs : Tidy s) : RunqSound s where
  bits := hs.bits
  once := by
    rintro t ⟨c, p, ht⟩
    obtain rfl := hs.home c p t ht
    refine ⟨c, count_eq_one_of_mem (hs.nodup c _) ht, fun a q hq ↦ ⟨?_, ?_⟩⟩
    · exact hs.hart a c q _ t hq ht
    · exact (hs.home a q t hq).symm
  picked := by
    intro c t s' hpick
    obtain ⟨u, hu, heq⟩ := Option.map_eq_some_iff.mp hpick
    cases heq
    obtain ⟨p, -, htp, hmax⟩ := firstQueued_max (by decide) hu
    refine ⟨hs.ready t ⟨c, p, htp⟩, fun r v hv ↦ ?_⟩
    rw [hs.home c p t htp, hs.home c r v hv]
    have hne := ne_nil_of_mem hv
    exact hmax r (mem_prios r) ((hs.bits c r).mpr hne) hne

end Mazu.Sched
