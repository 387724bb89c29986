import Mazu.Sched.Step

/-!
# What a step of the scheduler can do

The results about runs need to know which tasks a step makes ready, which task states it writes
otherwise, whom it puts on a wait list, and when it touches the run queues, a hart or the links of
a task. All of it is the scope of the event, and a step stays within its scope because each of the
writes it is made of does.
-/

namespace Mazu.Sched

open Function List Runs Option

variable {n : ℕ} (s : Sys n) (t u : Tid) (c : Fin n)

/-! ## Reading after a write -/

namespace Sys

theorem task_setTask (f : Task n → Task n) :
    (s.setTask t f).task u = if u = t then f (s.task u) else s.task u := by
  by_cases h : u = t
  · subst h; simp [setTask]
  · simp [setTask, h]

theorem state_setState (st : TdState) :
    (s.setState t st).state u = if u = t then st else s.state u := by
  rw [state, setState, task_setTask]
  split_ifs <;> rfl

theorem prio_setState (st : TdState) : (s.setState t st).prio u = s.prio u := by
  rw [prio, setState, task_setTask]
  split_ifs <;> rfl

theorem state_park : (s.park t).state u = if u = t then .blocked else s.state u := by
  rw [state, park, task_setTask]
  split_ifs <;> rfl

theorem prio_park : (s.park t).prio u = s.prio u := by
  rw [prio, park, task_setTask]
  split_ifs <;> rfl

/-- An update that leaves a part of the task alone. -/
theorem task_setTask_of_eq {α : Type} {f : Task n → Task n} (r : Task n → α)
    (h : r (f (s.task t)) = r (s.task t)) : r ((s.setTask t f).task u) = r (s.task u) := by
  rw [task_setTask]
  split_ifs with hu
  · rw [hu]; exact h
  · rfl

end Sys

/-- **What waking a list of tasks does**, all at once. -/
theorem wakeList_eq (l : List Tid) : wakeList s c l =
    { s with
      task := fun u ↦
        if u ∈ l then { s.task u with state := .ready, parked := false } else s.task u
      pending := (l.map fun t ↦ (t, schedSelectCpu s t c)).reverse ++ s.pending } := by
  induction l generalizing s with
  | nil => simp [wakeList]
  | cons a l ih =>
    have hcpu : ∀ t, schedSelectCpu (schedWakeReady s a c) t c = schedSelectCpu s t c := by
      intro t
      by_cases h : t = a <;> simp [schedSelectCpu, schedWakeReady, Sys.setState, Sys.setTask, h]
    rw [wakeList, foldl_cons, ← wakeList, ih]
    simp only [hcpu]
    congr 1
    · funext u
      by_cases h : u = a
      · subst h
        by_cases hl : u ∈ l <;> simp [schedWakeReady, Sys.setState, Sys.setTask]
      · simp [schedWakeReady, Sys.setState, Sys.setTask, h]
    · simp [schedWakeReady]

/-- Setting the same state for a list of tasks. -/
theorem foldl_setState_eq (st : TdState) (l : List Tid) :
    l.foldl (fun s t ↦ s.setState t st) s =
      { s with
        task := fun u ↦
          if u ∈ l then { s.task u with state := st, parked := false } else s.task u } := by
  induction l generalizing s with
  | nil => simp
  | cons a l ih =>
    rw [foldl_cons, ih]
    congr 1
    funext u
    by_cases h : u = a
    · subst h
      by_cases hl : u ∈ l <;> simp [Sys.setState, Sys.setTask]
    · simp [Sys.setState, Sys.setTask, h]

theorem state_procExit (p : ℕ) (self : Tid) : (procExit s p self).state u =
    if u ∈ s.threads p ∧ u ≠ self then .terminating else s.state u := by
  rw [procExit, foldl_setState_eq, Sys.state]
  simp only [mem_filter, decide_eq_true_eq]
  split_ifs <;> rfl

/-! ## The best waiter -/

variable {s' : Sys n} {busy : List (Fin n)} {w : WaitObj} {e : Event n}

theorem bestWaiter_congr {s : Sys n} (hst : ∀ u, s'.state u = s.state u)
    (hp : ∀ u, s'.prio u = s.prio u) (l : List Tid) : bestWaiter s' l = bestWaiter s l := by
  induction l with
  | nil => rfl
  | cons a l ih => simp only [bestWaiter, ih, hst, hp]

theorem bestWaiter_some {s : Sys n} {l : List Tid} {u : Tid} (h : bestWaiter s l = some u) :
    u ∈ l ∧ s.state u ≠ .terminating := by
  induction l generalizing u with
  | nil => cases h
  | cons a l ih =>
    rw [bestWaiter] at h
    cases hb : bestWaiter s l with
    | none =>
      rw [hb] at h
      split_ifs at h with ha
      cases h
      exact ⟨mem_cons_self, ha⟩
    | some v =>
      rw [hb] at h
      simp only at h
      split_ifs at h with ha
      · cases h
        exact ⟨mem_cons_self, ha.1⟩
      · cases h
        obtain ⟨hmem, hst⟩ := ih hb
        exact ⟨mem_cons_of_mem _ hmem, hst⟩

theorem bestWaiter_unlinkHeld (m : ℕ) (l : List Tid) :
    bestWaiter (unlinkHeld s t m) l = bestWaiter s l :=
  bestWaiter_congr (fun u ↦ s.task_setTask_of_eq t u Task.state rfl)
    (fun u ↦ s.task_setTask_of_eq t u Task.prio rfl) l

/-! ## Removal from the run queues -/

/-- The functions of a pick leave everything alone but queues and bits. -/
structure SameTasks (s s' : Sys n) : Prop where
  task : s'.task = s.task
  hart : s'.hart = s.hart
  pending : s'.pending = s.pending
  waiters : s'.waiters = s.waiters
  owner : s'.owner = s.owner
  nextTid : s'.nextTid = s.nextTid

theorem SameTasks.trans {s s'' : Sys n} (h : SameTasks s s') (h' : SameTasks s' s'') :
    SameTasks s s'' where
  task := h'.task.trans h.task
  hart := h'.hart.trans h.hart
  pending := h'.pending.trans h.pending
  waiters := h'.waiters.trans h.waiters
  owner := h'.owner.trans h.owner
  nextTid := h'.nextTid.trans h.nextTid

theorem listDelInit_sameTasks : SameTasks s (s.listDelInit t) := ⟨rfl, rfl, rfl, rfl, rfl, rfl⟩

theorem clearIfEmpty_sameTasks (p : Prio) : SameTasks s (s.clearIfEmpty c p) := by
  rw [Sys.clearIfEmpty]
  split_ifs <;> exact ⟨rfl, rfl, rfl, rfl, rfl, rfl⟩

theorem runq_clearIfEmpty (p : Prio) : (s.clearIfEmpty c p).runq = s.runq := by
  rw [Sys.clearIfEmpty]
  split_ifs <;> rfl

theorem steal_sameTasks (i : Fin n) (p : Prio) : SameTasks s (steal s t i p) :=
  (listDelInit_sameTasks s t).trans (clearIfEmpty_sameTasks _ i p)

theorem firstQueued_mem {q : Prio → List Tid} {bm : Prio → Bool} {ps : List Prio} {t : Tid}
    (h : firstQueued q bm ps = some t) : ∃ p ∈ ps, bm p = true ∧ (q p).head? = some t := by
  induction ps with
  | nil => cases h
  | cons p ps ih =>
    rw [firstQueued] at h
    split_ifs at h with hb
    · cases hq : q p with
      | nil =>
        rw [hq] at h
        obtain ⟨r, hr, hrest⟩ := ih h
        exact ⟨r, mem_cons_of_mem _ hr, hrest⟩
      | cons a l =>
        rw [hq] at h
        cases h
        exact ⟨p, mem_cons_self, hb, by rw [hq]; rfl⟩
    · obtain ⟨r, hr, hrest⟩ := ih h
      exact ⟨r, mem_cons_of_mem _ hr, hrest⟩

theorem firstMigratable_mem {s : Sys n} {i : Fin n} {ps : List Prio} {p : Prio} {t : Tid}
    (h : firstMigratable s i ps = some (p, t)) : p ∈ ps ∧ t ∈ s.runq i p := by
  induction ps with
  | nil => cases h
  | cons q ps ih =>
    rw [firstMigratable] at h
    split_ifs at h with hb
    · cases hq : (s.runq i q).find? fun t ↦ (s.task t).affinity.isNone with
      | none =>
        rw [hq] at h
        exact ⟨mem_cons_of_mem _ (ih h).1, (ih h).2⟩
      | some a =>
        rw [hq] at h
        cases h
        exact ⟨mem_cons_self, mem_of_find?_eq_some hq⟩
    · exact ⟨mem_cons_of_mem _ (ih h).1, (ih h).2⟩

theorem findStolen_mem {s : Sys n} {c : Fin n} {is : List (Fin n)} {i : Fin n} {p : Prio} {t : Tid}
    (h : findStolen s c busy is = some (i, p, t)) : i ≠ c ∧ t ∈ s.runq i p := by
  induction is with
  | nil => cases h
  | cons j is ih =>
    rw [findStolen] at h
    split_ifs at h with hj
    · exact ih h
    · cases hm : firstMigratable s j [3, 2, 1] with
      | none =>
        rw [hm] at h
        exact ih h
      | some r =>
        rw [hm] at h
        cases h
        exact ⟨fun hc ↦ hj (.inl hc), (firstMigratable_mem hm).2⟩

/-- **How a pick ends**: with a task of the own queues, with a stolen one, or with a stolen one and
the idle task back at the end of its queue. -/
theorem schedPickNextLocal_cases {s : Sys n} {c : Fin n} {t : Tid}
    (h : schedPickNextLocal s c busy = some (t, s')) :
    (schedPickFromCpuLocked s c = some (t, s')) ∨
    (∃ i p, i ≠ c ∧ t ∈ s.runq i p ∧ s' = steal s t i p) ∨
    ∃ f s₁ i p, schedPickFromCpuLocked s c = some (f, s₁) ∧ i ≠ c ∧ t ∈ s₁.runq i p ∧
      s' = (steal s₁ t i p).addTail f c (s₁.prio f) := by
  rw [schedPickNextLocal] at h
  cases hown : schedPickFromCpuLocked s c with
  | none =>
    rw [hown] at h
    cases hf : findStolen s c busy (List.finRange n) with
    | none => rw [hf] at h; cases h
    | some r =>
      obtain ⟨i, p, u⟩ := r
      rw [hf] at h
      cases h
      obtain ⟨hi, hu⟩ := findStolen_mem hf
      exact .inr (.inl ⟨i, p, hi, hu, rfl⟩)
  | some r =>
    obtain ⟨f, s₁⟩ := r
    rw [hown] at h
    dsimp only at h
    split_ifs at h with hidle
    · cases h
      exact .inl rfl
    · cases hf : findStolen s₁ c busy (List.finRange n) with
      | none =>
        rw [hf] at h
        cases h
        exact .inl rfl
      | some r =>
        obtain ⟨i, p, u⟩ := r
        rw [hf] at h
        cases h
        obtain ⟨hi, hu⟩ := findStolen_mem hf
        exact .inr (.inr ⟨f, s₁, i, p, rfl, hi, hu, rfl⟩)

theorem schedPickFromCpuLocked_some {s : Sys n} {c : Fin n} {t : Tid}
    (h : schedPickFromCpuLocked s c = some (t, s')) :
    s' = schedDequeueTaskLocked s t c ∧ ∃ p, s.bitmap c p = true ∧ (s.runq c p).head? = some t := by
  obtain ⟨u, hu, heq⟩ := map_eq_some_iff.mp h
  obtain ⟨rfl, rfl⟩ := Prod.mk.inj heq
  obtain ⟨p, -, hp⟩ := firstQueued_mem hu
  exact ⟨rfl, p, hp⟩

theorem schedPickNextLocal_sameTasks {s : Sys n} {c : Fin n} {t : Tid}
    (h : schedPickNextLocal s c busy = some (t, s')) : SameTasks s s' := by
  have hown : ∀ {f s₁}, schedPickFromCpuLocked s c = some (f, s₁) → SameTasks s s₁ := by
    intro f s₁ hf
    rw [(schedPickFromCpuLocked_some hf).1]
    exact (listDelInit_sameTasks s f).trans (clearIfEmpty_sameTasks _ c _)
  rcases schedPickNextLocal_cases h with h | ⟨i, p, -, -, rfl⟩ | ⟨f, s₁, i, p, hf, -, -, rfl⟩
  · exact hown h
  · exact steal_sameTasks s t i p
  · exact ((hown hf).trans (steal_sameTasks s₁ t i p)).trans ⟨rfl, rfl, rfl, rfl, rfl, rfl⟩

/-! ## How the functions end -/

theorem pickInto_some {s : Sys n} {c : Fin n} {free : Bool}
    (h : pickInto s c busy free = some s') : ∃ t s₁, schedPickNextLocal s c busy = some (t, s₁) ∧
      s' = s₁.setPhase c (.picked t free) := by
  obtain ⟨r, hr, rfl⟩ := map_eq_some_iff.mp h
  exact ⟨r.1, r.2, hr, rfl⟩

theorem schedSchedule_some {s : Sys n} {c : Fin n} {delta : ℕ}
    (h : schedSchedule s c delta busy = some s') :
    (oldNeedsFree (requeueOld (chargeDomain s (s.cur c) delta) (s.cur c) c) (s.cur c) = true ∧
      s' = (requeueOld (chargeDomain s (s.cur c) delta) (s.cur c) c).setPhase c .cleaning) ∨
    pickInto (requeueOld (chargeDomain s (s.cur c) delta) (s.cur c) c) c busy false = some s' := by
  rw [schedSchedule] at h
  split_ifs at h with hfree
  · cases h
    exact .inl ⟨hfree, rfl⟩
  · exact .inr h

theorem task_chargeDomain (delta : ℕ) : (chargeDomain s t delta).task = s.task := by
  rw [chargeDomain]
  cases (s.task t).domain <;> rfl

theorem state_chargeDomain (delta : ℕ) : (chargeDomain s t delta).state u = s.state u := by
  rw [Sys.state, task_chargeDomain, Sys.state]

/-- How an unlock ends. -/
theorem piMutexUnlock_cases {s : Sys n} {t : Tid} {c : Fin n} {m : ℕ}
    (h : piMutexUnlock s t c m = some s') :
    s.waiters ⟨.mutex, m⟩ = [] ∧ s' = dropMutex (unlinkHeld s t m) m ∨
    ∃ u, bestWaiter s (s.waiters ⟨.mutex, m⟩) = some u ∧
      s' = handOver (unlinkHeld s t m) c m u := by
  rw [piMutexUnlock] at h
  split_ifs at h with hnil
  · cases h
    exact .inl ⟨hnil, rfl⟩
  · rw [bestWaiter_unlinkHeld] at h
    obtain ⟨u, hu, rfl⟩ := map_eq_some_iff.mp h
    exact .inr ⟨u, hu, rfl⟩

/-- How a trip of `pi_mutex_release_all` ends. -/
theorem piMutexReleaseOne_cases (m : ℕ) :
    (s.owner m ≠ some t ∧ piMutexReleaseOne s t c m = unlinkHeld s t m) ∨
    (s.owner m = some t ∧ bestWaiter s (s.waiters ⟨.mutex, m⟩) = none ∧
      piMutexReleaseOne s t c m = dropMutex (unlinkHeld s t m) m) ∨
    ∃ u, s.owner m = some t ∧ bestWaiter s (s.waiters ⟨.mutex, m⟩) = some u ∧
      piMutexReleaseOne s t c m = handOver (unlinkHeld s t m) c m u := by
  rw [piMutexReleaseOne, bestWaiter_unlinkHeld]
  by_cases hown : s.owner m = some t
  · have hown' : ¬(unlinkHeld s t m).owner m ≠ some t := not_not.mpr hown
    refine .inr ?_
    rw [if_neg hown']
    cases hb : bestWaiter s ((unlinkHeld s t m).waiters ⟨.mutex, m⟩) with
    | none => exact .inl ⟨hown, hb, rfl⟩
    | some u => exact .inr ⟨u, hown, hb, rfl⟩
  · exact .inl ⟨hown, if_pos hown⟩

theorem mem_unlinkWait {w' : WaitObj} :
    u ∈ (s.unlinkWait t w').waiters w ↔ u ∈ s.waiters w ∧ ¬(w = w' ∧ u = t) := by
  by_cases h : w = w'
  · subst h
    simp [Sys.unlinkWait]
  · simp [Sys.unlinkWait, h]

theorem mem_insertWaiter : u ∈ insertWaiter s t w ↔ u = t ∨ u ∈ s.waiters w := by
  have hsplit : u ∈ (s.waiters w).takeWhile (fun v ↦ s.prio t ≤ s.prio v) ++
      t :: (s.waiters w).dropWhile (fun v ↦ s.prio t ≤ s.prio v) ↔ u = t ∨ u ∈ s.waiters w := by
    rw [mem_append, mem_cons, or_left_comm]
    refine or_congr_right ?_
    rw [← mem_append, takeWhile_append_dropWhile]
  rw [insertWaiter]
  cases w.kind
  case mutex => exact hsplit
  case waitqueue => exact hsplit
  all_goals
    rw [mem_append, mem_singleton, or_comm]

theorem mem_blockOn (w' : WaitObj) :
    u ∈ (blockOn s t w').waiters w ↔ u ∈ s.waiters w ∨ u = t ∧ w = w' := by
  have hw : (blockOn s t w').waiters = update s.waiters w'
      (if t ∈ s.waiters w' then s.waiters w' else insertWaiter s t w') := rfl
  rw [hw]
  by_cases h : w = w'
  · subst h
    rw [update_self]
    split_ifs with ht
    · refine ⟨.inl, fun hu ↦ hu.elim id fun hu ↦ hu.1 ▸ ht⟩
    · rw [mem_insertWaiter, or_comm]
      simp
  · simp [h]

/-! ## The scope of an event -/

/-- The tasks a step makes ready and hands to `sched_enqueue_ready`. -/
def Event.Wakes : Event n → Prop
  | .create _ _ _ _ => t = s.nextTid
  | .unlock _ m => bestWaiter s (s.waiters ⟨.mutex, m⟩) = some t
  | .wake _ k => t ∈ (k.wakes s).woken
  | .nudgeWake _ u => t = u
  | .wakeSleeping _ u => t = u
  | .release c => ∃ m, (s.task (s.cur c)).held.head? = some m ∧ s.owner m = some (s.cur c) ∧
      bestWaiter s (s.waiters ⟨.mutex, m⟩) = some t
  | .refill _ d => t ∈ refillable s d
  | .detach _ u => t = u ∧ (s.task u).domain ≠ none ∧ s.state u = .blocked ∧ ¬s.Linked u
  | _ => False

/-- The tasks whose state a step may write otherwise. -/
def Event.Sets : Event n → Prop
  | .block c _ => t = s.cur c
  | .finish c => t = s.cur c ∧ s.Waits t
  | .sleep c _ => t = s.cur c
  | .exit c => t = s.cur c
  | .procExit c p leaves => t ∈ s.threads p ∧ t ≠ s.cur c ∨ leaves = true ∧ t = s.cur c
  | .trap c _ => t = s.cur c ∧ s.state t = .running
  | .schedule c _ _ => t = s.cur c ∧ (s.state t = .yielding ∨ s.state t = .ready)
  | .enqueue u _ => t = u ∧ ¬s.Linked u
  | .commit c => ∃ free, s.phase c = .picked t free
  | _ => False

/-- The events that change a run queue, or the phase or current thread of a hart. -/
def Event.Moves : Event n → Prop
  | .wakeSleeping _ _ | .enqueue _ _ | .trap _ _ | .schedule _ _ _ | .cleanup _ | .pick _ _
  | .commit _ | .balance _ _ _ => True
  | _ => False

/-- The tasks a step puts on a wait list. -/
def Event.Joins (w : WaitObj) : Event n → Prop
  | .block c w' => t = s.cur c ∧ w = w'
  | .requeue u key key' => t = u ∧ w = ⟨.futex, key'⟩ ∧ u ∈ s.waiters ⟨.futex, key⟩
  | _ => False

/-- Creation, `proc_exit` and the registration of clock waiters. -/
def Event.Registers : Event n → Prop
  | .create _ _ _ _ | .procExit _ _ _ | .realtimeBegin _ | .realtimeEnd _ => True
  | _ => False

/-- The events that write links or owners. -/
def Event.Relinks : Event n → Prop
  | .create _ _ _ _ | .block _ _ | .finish _ | .take _ _ | .unlock _ _ | .requeue _ _ _
  | .nudgeCleanup _ | .cleanup _ | .release _ | .commit _ => True
  | _ => False

/-- The fields of a task that its waits, its mutexes and its clean-up go by. -/
def Sys.links (s : Sys n) (t : Tid) : Option WaitObj × Option WaitObj × List ℕ × Bool :=
  ((s.task t).blockCleanup, (s.task t).waiting, (s.task t).held, (s.task t).cleanupQueued)

/-- What a sequence of writes may do: to tasks, to wait lists and owners, and to the rest. -/
structure Scope where
  wakes : Tid → Prop
  sets : Tid → Prop
  sends : Tid → Prop
  prio : Tid → Prop
  cleans : Tid → Prop
  joins : Tid → WaitObj → Prop
  owns : ℕ → Tid → Prop
  moves : Prop
  registers : Prop
  relinks : Prop

/-- A task is sent to a run queue when it is woken or balanced. Only priority inheritance changes a
priority, only the switch away from a thread queues its clean-up, and a mutex goes to who takes it
or is woken with it. -/
def Event.scope (e : Event n) : Scope where
  wakes t := e.Wakes s t
  sets t := e.Sets s t
  sends t := e.Wakes s t ∨ ∃ src dst, e = .balance t src dst
  prio t := s.nextTid ≤ t ∨ ∃ p, e = .recompute t p
  cleans t := s.nextTid ≤ t ∨ ∃ c, s.cur c = t ∧ e = .commit c
  joins t w := e.Joins s t w
  owns m t := (∃ c, e = .take c m ∧ s.cur c = t ∧ s.phase c = .running) ∨ e.Wakes s t
  moves := e.Moves
  registers := e.Registers
  relinks := e.Relinks

/-- The second state differs from the first within the scope. -/
structure Within (g : Scope) (s s' : Sys n) : Prop where
  state : ∀ t, ¬g.wakes t → ¬g.sets t → s'.state t = s.state t
  prio : ∀ t, ¬g.prio t → s'.prio t = s.prio t
  cleanup : ∀ t, ¬g.cleans t → (s'.task t).cleanupQueued = (s.task t).cleanupQueued
  pending : ∀ t a, (t, a) ∈ s'.pending → (t, a) ∈ s.pending ∨ g.sends t
  waiters : ∀ t w, t ∈ s'.waiters w → t ∈ s.waiters w ∨ g.joins t w
  owner : ∀ m t, s'.owner m = some t → s.owner m = some t ∨ g.owns m t
  queues : ¬g.moves → s'.runq = s.runq ∧ s'.bitmap = s.bitmap ∧ s'.hart = s.hart
  registers : ¬g.registers →
    s'.nextTid = s.nextTid ∧ s'.realtime = s.realtime ∧ s'.threads = s.threads
  links : ¬g.relinks → (∀ t, s'.links t = s.links t) ∧ s'.owner = s.owner

namespace Within

variable {g : Scope} {s₀ s : Sys n}

theorem refl (g : Scope) (s : Sys n) : Within g s s :=
  ⟨fun _ _ _ ↦ rfl, fun _ _ ↦ rfl, fun _ _ ↦ rfl, fun _ _ ↦ .inl, fun _ _ ↦ .inl, fun _ _ ↦ .inl,
    fun _ ↦ ⟨rfl, rfl, rfl⟩, fun _ ↦ ⟨rfl, rfl, rfl⟩, fun _ ↦ ⟨fun _ ↦ rfl, rfl⟩⟩

/-! ### One write -/

variable (h : Within g s₀ s)

include h

theorem setTask (u : Tid) {f : Task n → Task n}
    (hst : (f (s.task u)).state = (s.task u).state ∨ g.wakes u ∨ g.sets u)
    (hp : (f (s.task u)).prio = (s.task u).prio ∨ g.prio u)
    (hc : (f (s.task u)).cleanupQueued = (s.task u).cleanupQueued ∨ g.cleans u)
    (hl : (f (s.task u)).blockCleanup = (s.task u).blockCleanup ∧ (f (s.task u)).waiting = (s.task
      u).waiting ∧ (f (s.task u)).held = (s.task u).held ∧ (f (s.task u)).cleanupQueued = (s.task
      u).cleanupQueued ∨ g.relinks) : Within g s₀ (s.setTask u f) := by
  -- a task other than `u` is untouched, and what `f` changes of `u` is in the scope
  have hkeep : ∀ {α : Type} (r : Task n → α) t, (t = u → r (f (s.task u)) = r (s.task u)) →
      r ((s.setTask u f).task t) = r (s.task t) := by
    intro α r t hr
    by_cases htu : t = u
    · exact s.task_setTask_of_eq u t r (hr htu)
    · rw [Sys.task_setTask, if_neg htu]
  refine ⟨fun t hw hs ↦ ?_, fun t ht ↦ ?_, fun t ht ↦ ?_, h.pending, h.waiters, h.owner, h.queues,
    h.registers, fun hr ↦ ⟨fun t ↦ ?_, (h.links hr).2⟩⟩
  · refine (hkeep Task.state t fun htu ↦ ?_).trans (h.state t hw hs)
    exact hst.resolve_right fun hu ↦ hu.elim (fun hu ↦ hw (htu ▸ hu)) fun hu ↦ hs (htu ▸ hu)
  · exact (hkeep Task.prio t fun htu ↦ hp.resolve_right fun hu ↦ ht (htu ▸ hu)).trans (h.prio t ht)
  · refine (hkeep Task.cleanupQueued t fun htu ↦ ?_).trans (h.cleanup t ht)
    exact hc.resolve_right fun hu ↦ ht (htu ▸ hu)
  · obtain ⟨hb, hw, hh, hq⟩ := hl.resolve_right hr
    refine Eq.trans ?_ ((h.links hr).1 t)
    rw [Sys.links, hkeep Task.blockCleanup t fun _ ↦ hb, hkeep Task.waiting t fun _ ↦ hw,
      hkeep Task.held t fun _ ↦ hh, hkeep Task.cleanupQueued t fun _ ↦ hq, Sys.links]

theorem setState {u : Tid} (st : TdState) (hu : g.wakes u ∨ g.sets u) :
    Within g s₀ (s.setState u st) :=
  h.setTask u (.inr hu) (.inl rfl) (.inl rfl) (.inl ⟨rfl, rfl, rfl, rfl⟩)

theorem setStates (st : TdState) {l : List Tid} (hl : ∀ t ∈ l, g.sets t) :
    Within g s₀ (l.foldl (fun s t ↦ s.setState t st) s) := by
  induction l generalizing s with
  | nil => exact h
  | cons a l ih =>
    exact ih (h.setState st (.inr (hl a mem_cons_self))) fun t ht ↦
      hl t (mem_cons_of_mem a ht)

theorem park {u : Tid} (hu : g.sets u) : Within g s₀ (s.park u) :=
  h.setTask u (.inr (.inr hu)) (.inl rfl) (.inl rfl) (.inl ⟨rfl, rfl, rfl, rfl⟩)

theorem queue (hm : g.moves) (q : Fin n → Prio → List Tid) (b : Fin n → Prio → Bool)
    (l : List Tid) : Within g s₀ { s with runq := q, bitmap := b, sleepList := l } :=
  ⟨h.state, h.prio, h.cleanup, h.pending, h.waiters, h.owner, absurd hm, h.registers,
    h.links⟩

theorem hart (hm : g.moves) (f : Fin n → Hart) : Within g s₀ { s with hart := f } :=
  ⟨h.state, h.prio, h.cleanup, h.pending, h.waiters, h.owner, absurd hm, h.registers,
    h.links⟩

/-- The list of sleepers and the domains are in no scope. -/
theorem rest (l : List Tid) (d : ℕ → Domain) :
    Within g s₀ { s with sleepList := l, dom := d } := ⟨h.1, h.2, h.3, h.4, h.5, h.6, h.7, h.8, h.9⟩

theorem send {p : List (Tid × Fin n)} (hp : ∀ t a, (t, a) ∈ p → (t, a) ∈ s.pending ∨ g.sends t)
    : Within g s₀ { s with pending := p } :=
  ⟨h.state, h.prio, h.cleanup, fun t a ha ↦ (hp t a ha).elim (h.pending t a) .inr, h.waiters, h.owner,
    h.queues, h.registers, h.links⟩

theorem wait {f : WaitObj → List Tid} (hf : ∀ t w, t ∈ f w → t ∈ s.waiters w ∨ g.joins t w)
    : Within g s₀ { s with waiters := f } :=
  ⟨h.state, h.prio, h.cleanup, h.pending, fun t w ht ↦ (hf t w ht).elim (h.waiters t w) .inr, h.owner,
    h.queues, h.registers, h.links⟩

theorem own (hr : g.relinks) {f : ℕ → Option Tid}
    (hf : ∀ m t, f m = some t → s.owner m = some t ∨ g.owns m t)
    : Within g s₀ { s with owner := f } :=
  ⟨h.state, h.prio, h.cleanup, h.pending, h.waiters, fun m t ht ↦ (hf m t ht).elim (h.owner m t) .inr,
    h.queues, h.registers, absurd hr⟩

theorem register (hr : g.registers) (k : Tid) (r : List Tid) (f : ℕ → List Tid) :
    Within g s₀ { s with nextTid := k, realtime := r, threads := f } :=
  ⟨h.state, h.prio, h.cleanup, h.pending, h.waiters, h.owner, h.queues, absurd hr, h.links⟩

/-! ### The functions of the scheduler -/

theorem unlinkWait (u : Tid) (w : WaitObj) : Within g s₀ (s.unlinkWait u w) :=
  h.wait fun t _ ht ↦ .inl ((mem_unlinkWait s u t).mp ht).1

theorem clearIfEmpty (hm : g.moves) (c : Fin n) (p : Prio) : Within g s₀ (s.clearIfEmpty c p) := by
  rw [Sys.clearIfEmpty]
  split_ifs
  · exact h.queue hm _ _ _
  · exact h

theorem dequeue (hm : g.moves) (u : Tid) (c : Fin n) (p : Prio) :
    Within g s₀ ((s.listDelInit u).clearIfEmpty c p) :=
  Within.clearIfEmpty (h.queue hm _ _ _) hm c p

theorem schedWakeReady {u : Tid} (c : Fin n) (hw : g.wakes u) (hs : g.sends u) :
    Within g s₀ (schedWakeReady s u c) :=
  (h.setState .ready (.inl hw)).send fun _ _ ha ↦
    (mem_cons.mp ha).symm.imp id fun he ↦ by
      obtain ⟨rfl, -⟩ := Prod.mk.inj he
      exact hs

theorem wakeList (c : Fin n) {l : List Tid} (hw : ∀ t ∈ l, g.wakes t) (hs : ∀ t ∈ l, g.sends t)
    : Within g s₀ (wakeList s c l) := by
  induction l generalizing s with
  | nil => exact h
  | cons a l ih =>
    have ha := h.schedWakeReady c (hw a mem_cons_self) (hs a mem_cons_self)
    exact ih ha (fun t ht ↦ hw t (mem_cons_of_mem a ht)) fun t ht ↦
      hs t (mem_cons_of_mem a ht)

theorem schedEnqueueCpuLocked (hm : g.moves) {u : Tid} (c : Fin n) (hu : ¬s.Linked u → g.sets u)
    : Within g s₀ (schedEnqueueCpuLocked s u c) := by
  rw [Sched.schedEnqueueCpuLocked]
  split_ifs with hl
  · exact h
  · exact h.park (hu hl)
  · exact (h.setState .ready (.inr (hu hl))).queue hm _ _ _

theorem requeueOld (hm : g.moves) {u : Tid} (c : Fin n)
    (hu : s.state u = .yielding ∨ s.state u = .ready → g.sets u) :
    Within g s₀ (requeueOld s u c) := by
  have hput : ∀ {v : Sys n}, Within g s₀ v → g.sets u → Within g s₀ (putBack v u c) := by
    intro v hv hu
    rw [putBack]
    split_ifs
    · exact hv.park hu
    · exact hv.schedEnqueueCpuLocked hm c fun _ ↦ hu
  rw [Sched.requeueOld]
  split_ifs with hy hr
  · exact hput (h.setState .ready (.inr (hu (.inl hy)))) (hu (.inl hy))
  · exact hput h (hu (.inr hr))
  · exact h

theorem chargeDomain (u : Tid) (delta : ℕ) : Within g s₀ (chargeDomain s u delta) := by
  rw [Sched.chargeDomain]
  split
  · exact h
  · exact h.rest _ _

theorem pickInto (hm : g.moves) {s' : Sys n} {c : Fin n} {busy : List (Fin n)} {free : Bool}
    (hp : pickInto s c busy free = some s') : Within g s₀ s' := by
  have hown : ∀ {f s₁}, schedPickFromCpuLocked s c = some (f, s₁) → Within g s₀ s₁ := by
    intro f s₁ hf
    rw [(schedPickFromCpuLocked_some hf).1]
    exact h.dequeue hm f c _
  obtain ⟨t, s₁, hnext, rfl⟩ := pickInto_some hp
  refine Within.hart (s := s₁) ?_ hm _
  rcases schedPickNextLocal_cases hnext with h' | ⟨i, p, -, -, rfl⟩ | ⟨f, s₂, i, p, hf, -, -, rfl⟩
  · exact hown h'
  · exact h.dequeue hm t i p
  · exact ((hown hf).dequeue hm t i p).queue hm _ _ _

theorem runBlockCleanup (hr : g.relinks) (u : Tid) : Within g s₀ (runBlockCleanup s u) := by
  rw [Sched.runBlockCleanup]
  split
  · exact h
  · exact (h.setTask u (.inl rfl) (.inl rfl) (.inl rfl) (.inr hr)).unlinkWait u _

theorem unlinkHeld (hr : g.relinks) (u : Tid) (m : ℕ) :
    Within g s₀ (unlinkHeld s u m) := h.setTask u (.inl rfl) (.inl rfl) (.inl rfl) (.inr hr)

theorem giveMutex (hr : g.relinks) {u : Tid} {m : ℕ} (ho : g.owns m u) :
    Within g s₀ (giveMutex s u m) := by
  refine Within.own (s := s.setTask u fun td ↦ { td with held := m :: td.held })
    (h.setTask u (.inl rfl) (.inl rfl) (.inl rfl) (.inr hr)) hr fun m' t ht ↦ ?_
  by_cases hm : m' = m
  · rw [hm, update_self] at ht
    exact .inr (hm ▸ some.inj ht ▸ ho)
  · rw [update_of_ne hm] at ht
    exact .inl ht

theorem dropMutex (hr : g.relinks) (m : ℕ) : Within g s₀ (dropMutex s m) := by
  refine h.own hr fun m' t ht ↦ ?_
  by_cases hm : m' = m
  · rw [hm, update_self] at ht
    cases ht
  · rw [update_of_ne hm] at ht
    exact .inl ht

theorem handOver (hr : g.relinks) (c : Fin n) {m : ℕ} {u : Tid} (hw : g.wakes u) (hs : g.sends u)
    (ho : g.owns m u) : Within g s₀ (handOver s c m u) :=
  ((h.unlinkWait u _).giveMutex hr ho).schedWakeReady c hw hs

theorem leaveDomain (u : Tid) (d : Option ℕ) :
    Within g s₀ ((leaveDomain s u).setTask u fun td ↦ { td with domain := d }) := by
  have hleave : Within g s₀ (Sched.leaveDomain s u) := by
    rw [Sched.leaveDomain]
    split
    · exact h
    · exact h.rest _ _
  exact hleave.setTask u (.inl rfl) (.inl rfl) (.inl rfl) (.inl ⟨rfl, rfl, rfl, rfl⟩)

end Within

/-- **A step stays within the scope of its event.** -/
theorem step_within {s : Sys n} (h : step s e = some s') :
    Within (e.scope s) s s' := by
  have hs := Within.refl (e.scope s) s
  cases e with
  | create c p prio affinity =>
    cases h
    have hnew := hs.setTask s.nextTid
      (f := fun _ ↦ { Task.fresh n with prio := prio, affinity := affinity }) (.inr (.inl rfl))
      (.inr (.inl le_rfl)) (.inr (.inl le_rfl)) (.inr trivial)
    refine Within.register (hnew.send (p := (s.nextTid, schedSelectCpu (s.setTask s.nextTid
      fun _ ↦ { Task.fresh n with prio := prio, affinity := affinity }) s.nextTid c) :: s.pending)
      fun t a ha ↦ ?_) trivial _ s.realtime _
    exact (mem_cons.mp ha).symm.imp id fun he ↦ .inl (Prod.mk.inj he).1
  | setAffinity u affinity =>
    obtain ⟨-, rfl⟩ := of_guard h
    exact hs.setTask u (.inl rfl) (.inl rfl) (.inl rfl) (.inl ⟨rfl, rfl, rfl, rfl⟩)
  | block c w =>
    obtain ⟨-, rfl⟩ := of_guard h
    have hjoin := hs.wait fun t w' ht ↦ (mem_blockOn s (s.cur c) t w).mp ht
    exact (hjoin.setState w.kind.state (.inr rfl)).setTask _
      (f := fun td ↦ { td with blockCleanup := some w, waiting := some w })
      (.inl rfl) (.inl rfl) (.inl rfl) (.inr trivial)
  | finish c =>
    obtain ⟨-, h⟩ := ite_none_right_eq_some.mp h
    obtain ⟨w, -, rfl⟩ := map_eq_some_iff.mp h
    have hleft : Within _ s ((s.unlinkWait (s.cur c) w).setTask (s.cur c) fun td ↦
        { td with blockCleanup := none, waiting := none }) :=
      (hs.unlinkWait _ w).setTask _ (.inl rfl) (.inl rfl) (.inl rfl) (.inr trivial)
    rw [finishWait]
    split_ifs with hw
    · refine hleft.setState _ (.inr ⟨rfl, ?_⟩)
      have hst := (Sys.task_setTask_of_eq _ _ _ Task.state rfl).symm.trans hw
      exact (congrArg (fun st ↦ st = TdState.blocked ∨ st = .semWait) hst).mpr
        (by cases w.kind <;> simp [WaitKind.state])
    · exact hleft
  | take c m =>
    obtain ⟨hg, rfl⟩ := of_guard h
    exact ((hs.unlinkWait _ _).setTask _ (.inl rfl) (.inl rfl) (.inl rfl) (.inr trivial)).giveMutex
      trivial (.inl ⟨c, rfl, rfl, hg.1⟩)
  | unlock c m =>
    obtain ⟨-, h⟩ := ite_none_right_eq_some.mp h
    rcases piMutexUnlock_cases h with ⟨-, rfl⟩ | ⟨v, hv, rfl⟩
    · exact (hs.unlinkHeld trivial _ m).dropMutex trivial m
    · exact (hs.unlinkHeld trivial _ m).handOver trivial c hv (.inl hv) (.inr hv)
  | wake c k =>
    cases h
    refine Within.wakeList (hs.wait fun t w ht ↦ .inl ?_) c (fun _ ↦ id) fun _ ↦ .inl
    by_cases hw : w = (k.wakes s).list
    · rw [hw, update_self] at ht
      exact hw ▸ mem_of_mem_filter ht
    · rwa [update_of_ne hw] at ht
  | requeue u key key' =>
    obtain ⟨hg, rfl⟩ := of_guard h
    refine Within.wait
      ((hs.unlinkWait u _).setTask u (.inl rfl) (.inl rfl) (.inl rfl) (.inr trivial)) fun t w ht ↦ ?_
    by_cases hw : w = ⟨.futex, key'⟩
    · subst hw
      rw [update_self, mem_append, mem_singleton] at ht
      exact ht.imp id fun ht ↦ ⟨ht, rfl, hg.1⟩
    · rw [update_of_ne hw] at ht
      exact .inl ht
  | nudgeCleanup u =>
    obtain ⟨-, rfl⟩ := of_guard h
    exact hs.runBlockCleanup trivial u
  | nudgeWake c u =>
    obtain ⟨-, rfl⟩ := of_guard h
    exact hs.schedWakeReady c rfl (.inl rfl)
  | wakeSleeping c u =>
    obtain ⟨-, rfl⟩ := of_guard h
    exact Within.schedWakeReady (hs.queue trivial _ _ _) c rfl (.inl rfl)
  | enqueue u c =>
    obtain ⟨-, rfl⟩ := of_guard h
    exact Within.schedEnqueueCpuLocked (hs.send fun _ _ ha ↦ .inl (mem_of_mem_erase ha)) trivial
      c fun hl ↦ ⟨rfl, hl⟩
  | sleep c ms =>
    obtain ⟨-, rfl⟩ := of_guard h
    split_ifs
    · exact hs.setState _ (.inr rfl)
    · exact (hs.setState _ (.inr rfl)).rest _ _
  | recompute u p =>
    obtain ⟨-, rfl⟩ := of_guard h
    exact hs.setTask u (.inl rfl) (.inr (.inr ⟨p, rfl⟩)) (.inl rfl) (.inl ⟨rfl, rfl, rfl, rfl⟩)
  | exit c =>
    obtain ⟨-, rfl⟩ := of_guard h
    exact hs.setState _ (.inr rfl)
  | procExit c p leaves =>
    obtain ⟨-, rfl⟩ := of_guard h
    have hloop := hs.setStates .terminating fun t ht ↦
      .inl ⟨mem_of_mem_filter ht, of_decide_eq_true (mem_filter.mp ht).2⟩
    have hexit : Within _ s (procExit s p (s.cur c)) := hloop.register trivial _ _ _
    rw [exitProcess]
    split_ifs with hl
    · exact hexit.setState _ (.inr (.inr ⟨hl, rfl⟩))
    · exact hexit
  | trap c resched =>
    obtain ⟨-, rfl⟩ := of_guard h
    have hpre : Within ((Event.trap c resched).scope s) s (preempt s c resched) := by
      rw [preempt]
      split_ifs with hr
      · exact hs.setState _ (.inr ⟨rfl, hr.1⟩)
      · exact hs
    rw [trapDispatch]
    split_ifs
    · exact hpre
    · exact hpre.hart trivial _
  | schedule c delta busy =>
    obtain ⟨-, h⟩ := ite_none_right_eq_some.mp h
    have hold := (hs.chargeDomain (s.cur c) delta).requeueOld trivial c fun hst ↦
      ⟨rfl, by rwa [state_chargeDomain] at hst⟩
    rcases schedSchedule_some h with ⟨-, rfl⟩ | hpick
    · exact hold.hart trivial _
    · exact hold.pickInto trivial hpick
  | cleanup c =>
    obtain ⟨-, rfl⟩ := of_guard h
    exact (hs.runBlockCleanup trivial _).hart trivial _
  | release c =>
    obtain ⟨-, h⟩ := ite_none_right_eq_some.mp h
    obtain ⟨m, hm, rfl⟩ := map_eq_some_iff.mp h
    have hheld := hs.unlinkHeld trivial (s.cur c) m
    rcases piMutexReleaseOne_cases s (s.cur c) c m with ⟨-, heq⟩ | ⟨-, -, heq⟩ | ⟨v, hown, hv, heq⟩ <;>
      rw [heq]
    · exact hheld
    · exact hheld.dropMutex trivial m
    · have hw : (Event.release c).Wakes s v := ⟨m, hm, hown, hv⟩
      exact hheld.handOver trivial c hw (.inl hw) (.inr hw)
  | pick c busy =>
    obtain ⟨-, h⟩ := ite_none_right_eq_some.mp h
    exact hs.pickInto trivial h
  | commit c =>
    rw [step] at h
    split at h
    · next next free hph =>
      cases h
      rw [commitSwitch]
      have hfree : Within ((Event.commit c).scope s) s
          (if free then s.setTask (s.cur c) fun td ↦ { td with cleanupQueued := true } else s) := by
        split_ifs
        · exact hs.setTask _ (.inl rfl) (.inl rfl) (.inr (.inr ⟨c, rfl, rfl⟩)) (.inr trivial)
        · exact hs
      exact ((hfree.hart trivial _).setState _ (.inr ⟨free, hph⟩)).setTask _
        (.inl rfl) (.inl rfl) (.inl rfl)
        (.inl ⟨rfl, rfl, rfl, rfl⟩)
    · cases h
  | balance u src dst =>
    obtain ⟨-, rfl⟩ := of_guard h
    exact (hs.dequeue trivial u src _).send fun t a ha ↦ (mem_cons.mp ha).symm.imp id fun he ↦
      .inr ⟨src, dst, by rw [(Prod.mk.inj he).1]⟩
  | refill c d =>
    cases h
    exact Within.wakeList (hs.rest _ _) c (fun _ ↦ id) fun _ ↦ .inl
  | attach u d =>
    obtain ⟨-, rfl⟩ := of_guard h
    rw [schedDomainAttach]
    split_ifs
    · exact hs
    · exact (hs.leaveDomain u (some d)).rest _ _
  | detach c u =>
    cases h
    rw [schedDomainDetach]
    split_ifs with hd hb
    · exact hs
    · have hw : ∀ t ∈ [u], (Event.detach c u).Wakes s t := fun t ht ↦
        ⟨mem_singleton.mp ht, hd, hb⟩
      exact (hs.leaveDomain u none).wakeList c hw fun t ht ↦ .inl (hw t ht)
    · exact hs.leaveDomain u none
  | realtimeBegin | realtimeEnd =>
    obtain ⟨-, rfl⟩ := of_guard h
    exact hs.register trivial _ _ _

/-- **A step writes no other task's state.** -/
theorem step_keeps {s : Sys n} {t : Tid} (h : step s e = some s') (hw : ¬e.Wakes s t)
    (hs : ¬e.Sets s t) : s'.state t = s.state t := (step_within h).state t hw hs

structure SameQueues (s s' : Sys n) : Prop where
  runq : s'.runq = s.runq
  bitmap : s'.bitmap = s.bitmap
  hart : s'.hart = s.hart

theorem step_sameQueues {s : Sys n} (h : step s e = some s') (he : ¬e.Moves) :
    SameQueues s s' := by
  obtain ⟨hrunq, hbitmap, hhart⟩ := (step_within h).queues he
  exact ⟨hrunq, hbitmap, hhart⟩

/-- **Only priority inheritance changes the priority of a task.** -/
theorem step_prio {s : Sys n} {t : Tid} (h : step s e = some s') (ht : t < s.nextTid)
    (he : ∀ p, e ≠ .recompute t p) : s'.prio t = s.prio t :=
  (step_within h).prio t fun hp ↦ hp.elim (not_le.mpr ht) fun ⟨p, hp⟩ ↦ he p hp

theorem state_schedWakeReady :
    (schedWakeReady s t c).state u = if u = t then .ready else s.state u :=
  s.state_setState t u .ready

/-- **A task that a step wakes is ready** and on its way to a run queue. -/
theorem step_wakes {s : Sys n} {t : Tid} (h : step s e = some s')
    (hw : e.Wakes s t) : s'.state t = .ready ∧ ∃ c, (t, c) ∈ s'.pending := by
  have hlist : ∀ (s : Sys n) c l, t ∈ l → (wakeList s c l).state t = .ready ∧
      ∃ a, (t, a) ∈ (wakeList s c l).pending := by
    intro s c l ht
    rw [wakeList_eq, Sys.state]
    dsimp only
    rw [if_pos ht]
    exact ⟨rfl, _, mem_append_left _ (mem_reverse.mpr (mem_map_of_mem ht))⟩
  have hhand : ∀ (s : Sys n) c m, (handOver s c m t).state t = .ready ∧
      ∃ a, (t, a) ∈ (handOver s c m t).pending := by
    intro s c m
    exact ⟨(state_schedWakeReady _ t t c).trans (if_pos rfl), _, mem_cons_self⟩
  cases e with
  | create c p prio affinity =>
    cases h
    subst hw
    refine ⟨?_, _, mem_cons_self⟩
    rw [createTask, Sys.state]
    rw [Sys.task_setTask, if_pos rfl]
    rfl
  | unlock c m =>
    obtain ⟨-, h⟩ := ite_none_right_eq_some.mp h
    rcases piMutexUnlock_cases h with ⟨hnil, rfl⟩ | ⟨v, hv, rfl⟩
    · exact absurd (bestWaiter_some hw).1 (hnil ▸ not_mem_nil)
    · cases some.inj (hv.symm.trans hw)
      exact hhand _ c m
  | wake c k | refill c d =>
    cases h
    exact hlist _ c _ hw
  | nudgeWake c u =>
    obtain ⟨-, rfl⟩ := of_guard h
    exact ⟨(state_schedWakeReady s u t c).trans (if_pos hw), _,
      mem_cons.mpr (.inl (Prod.ext hw rfl))⟩
  | wakeSleeping c u =>
    obtain ⟨-, rfl⟩ := of_guard h
    exact ⟨(state_schedWakeReady _ u t c).trans (if_pos hw), _,
      mem_cons.mpr (.inl (Prod.ext hw rfl))⟩
  | release c =>
    obtain ⟨-, h⟩ := ite_none_right_eq_some.mp h
    obtain ⟨m, hm, rfl⟩ := map_eq_some_iff.mp h
    obtain ⟨m', hm', hown, hb⟩ := hw
    cases some.inj (hm.symm.trans hm')
    rcases piMutexReleaseOne_cases s (s.cur c) c m with ⟨hne, -⟩ | ⟨-, hnone, -⟩ | ⟨v, -, hv, heq⟩
    · exact absurd hown hne
    · cases hnone.symm.trans hb
    · cases some.inj (hv.symm.trans hb)
      rw [heq]
      exact hhand _ c m
  | detach c u =>
    cases h
    obtain ⟨rfl, hd, hb⟩ := hw
    rw [schedDomainDetach, if_neg hd, if_pos hb]
    exact hlist _ c _ mem_cons_self
  | _ => exact hw.elim


end Mazu.Sched
