import Mazu.Sched.Dead

/-!
# What a process leaves behind

The scheduler takes a dead thread off its wait list and releases its mutexes when it switches away
from it. A thread that is blocked or queued when its process ends is never switched away from
again, so nothing does it for such a thread.
-/

namespace Mazu.Sched

open Function List Runs Option

variable {n : ℕ} {s s' : Sys n} {e : Event n} {t : Tid}

/-! ## The links of a task -/

theorem links_setTask (s : Sys n) (t u : Tid) {f : Task n → Task n}
    (hf : ∀ td : Task n, (f td).blockCleanup = td.blockCleanup ∧ (f td).waiting = td.waiting ∧
      (f td).held = td.held ∧ (f td).cleanupQueued = td.cleanupQueued) :
    (s.setTask t f).links u = s.links u := by
  obtain ⟨hb, hw, hh, hc⟩ := hf (s.task u)
  rw [Sys.links, Sys.task_setTask]
  split_ifs
  · rw [hb, hw, hh, hc, Sys.links]
  · rfl

theorem links_setState (s : Sys n) (t u : Tid) (st : TdState) :
    (s.setState t st).links u = s.links u :=
  links_setTask s t u fun _ ↦ ⟨rfl, rfl, rfl, rfl⟩

theorem links_commitSwitch (s : Sys n) (c : Fin n) (next : Tid) (free : Bool) (t : Tid) :
    (commitSwitch s c next free).links t = ((s.task t).blockCleanup, (s.task t).waiting,
      (s.task t).held, (s.task t).cleanupQueued || (free && decide (t = s.cur c))) := by
  rw [commitSwitch, links_setTask, links_setState]
  · cases free
    · rw [Bool.false_and, Bool.or_false]
      rfl
    · have htask := s.task_setTask (s.cur c) t fun td ↦ { td with cleanupQueued := true }
      change ((s.setTask (s.cur c) fun td ↦ { td with cleanupQueued := true })).links t = _
      rw [Sys.links, htask]
      split_ifs with ht <;> simp [ht]
  · exact fun _ ↦ ⟨rfl, rfl, rfl, rfl⟩

/-! ## Waits and mutexes are booked at their task -/

/-- A thread on a wait list is inside that wait with its clean-up set, and an owner has the mutex on
its list. -/
structure Booked (s : Sys n) : Prop where
  wait : ∀ w t, t ∈ s.waiters w → (s.task t).blockCleanup = some w ∧ (s.task t).waiting = some w
  held : ∀ m t, s.owner m = some t → m ∈ (s.task t).held ∧ t < s.nextTid

namespace Booked

theorem boot (budget : ℕ → ℕ) : Booked (boot n budget) where
  wait := fun _ _ h ↦ absurd h not_mem_nil
  held := fun _ _ h ↦ by cases h

/-- A task keeps its entry when the lists it is on and the mutexes it owns only get fewer. -/
theorem of_links (hs : Booked s) (hle : s.nextTid ≤ s'.nextTid)
    (hw : ∀ w t, t ∈ s'.waiters w → t ∈ s.waiters w ∧
      (s'.task t).blockCleanup = (s.task t).blockCleanup ∧
      (s'.task t).waiting = (s.task t).waiting)
    (ho : ∀ m t, s'.owner m = some t → s.owner m = some t ∧
      (m ∈ (s.task t).held → m ∈ (s'.task t).held)) : Booked s' where
  wait := by
    intro w t ht
    obtain ⟨hmem, hb, hwt⟩ := hw w t ht
    rw [hb, hwt]
    exact hs.wait w t hmem
  held := by
    intro m t hm
    obtain ⟨hm, hheld⟩ := ho m t hm
    obtain ⟨hmem, hlt⟩ := hs.held m t hm
    exact ⟨hheld hmem, hlt.trans_le hle⟩

/-- The lists get fewer in a step that gives no mutex. -/
theorem of_waiters (hs : Booked s) (hn : s'.nextTid = s.nextTid)
    (hw : ∀ w t, t ∈ s'.waiters w → (s'.task t).blockCleanup = some w ∧
      (s'.task t).waiting = some w)
    (ho : s'.owner = s.owner) (hh : ∀ t, (s'.task t).held = (s.task t).held) : Booked s' where
  wait := hw
  held := by
    intro m t hm
    rw [ho] at hm
    rw [hh, hn]
    exact hs.held m t hm

end Booked

theorem owner_dropMutex (s : Sys n) (m m' : ℕ) :
    (dropMutex s m).owner m' = if m' = m then none else s.owner m' := update_apply ..

theorem owner_giveMutex (s : Sys n) (u : Tid) (m m' : ℕ) :
    (giveMutex s u m).owner m' = if m' = m then some u else s.owner m' := update_apply ..

theorem task_unlinkWait (s : Sys n) (u : Tid) (w : WaitObj) : (s.unlinkWait u w).task = s.task := rfl

theorem task_unlinkHeld (s : Sys n) (u : Tid) (m : ℕ) : (unlinkHeld s u m).task t =
    if t = u then { s.task t with held := (s.task t).held.filter (· ≠ m) } else s.task t :=
  Sys.task_setTask ..

theorem task_giveMutex (s : Sys n) (u : Tid) (m : ℕ) : (giveMutex s u m).task t =
    if t = u then { s.task t with held := m :: (s.task t).held } else s.task t :=
  Sys.task_setTask s u t fun td ↦ { td with held := m :: td.held }

theorem owner_handOver (s : Sys n) (c : Fin n) (u : Tid) (m m' : ℕ) :
    (handOver s c m u).owner m' = if m' = m then some u else s.owner m' :=
  owner_giveMutex (s.unlinkWait u ⟨.mutex, m⟩) u m m'

theorem task_handOver (s : Sys n) (c : Fin n) (u : Tid) (m : ℕ) : (handOver s c m u).task t =
    if t = u then
      { s.task t with held := m :: (s.task t).held, state := .ready, parked := false }
    else s.task t := by
  refine (Sys.task_setTask (giveMutex (s.unlinkWait u ⟨.mutex, m⟩) u m) u t
    fun td ↦ { td with state := .ready, parked := false }).trans ?_
  rw [task_giveMutex]
  split_ifs <;> rfl

theorem task_blockOn (s : Sys n) (u : Tid) (w : WaitObj) : (blockOn s u w).task t =
    if t = u then
      { s.task t with
        blockCleanup := some w
        waiting := some w
        state := w.kind.state
        parked := false }
    else s.task t := by
  rw [blockOn]
  rw [Sys.task_setTask, Sys.setState, Sys.task_setTask]
  split_ifs <;> rfl

theorem task_futexRequeue (s : Sys n) (u : Tid) (key key' : ℕ) :
    (futexRequeue s u key key').task t = if t = u then
      { s.task t with
        blockCleanup := some ⟨.futex, key'⟩
        waiting := some ⟨.futex, key'⟩ } else s.task t :=
  Sys.task_setTask (s.unlinkWait u ⟨.futex, key⟩) u t fun td ↦
    { td with blockCleanup := some ⟨.futex, key'⟩, waiting := some ⟨.futex, key'⟩ }

theorem mem_futexRequeue {u : Tid} {key key' : ℕ} {w : WaitObj} :
    t ∈ (futexRequeue s u key key').waiters w ↔
      (t ∈ s.waiters w ∧ ¬(w = ⟨.futex, key⟩ ∧ t = u)) ∨ t = u ∧ w = ⟨.futex, key'⟩ := by
  rw [← mem_unlinkWait]
  change t ∈ update (s.unlinkWait u ⟨.futex, key⟩).waiters ⟨.futex, key'⟩ _ w ↔ _
  rw [update_apply]
  split_ifs with hw
  · rw [mem_append, mem_singleton, hw, eq_self_iff_true, and_true]
  · exact ⟨.inl, fun h ↦ h.resolve_right fun hu ↦ hw hu.2⟩

namespace Booked

variable (hs : Booked s)

include hs

theorem dropMutex (u : Tid) (m : ℕ) : Booked (dropMutex (unlinkHeld s u m) m) := by
  refine hs.of_links le_rfl (fun w t ht ↦ ⟨ht, ?_⟩) fun m' t hm ↦ ?_
  · change ((unlinkHeld s u m).task t).blockCleanup = _ ∧ ((unlinkHeld s u m).task t).waiting = _
    rw [task_unlinkHeld]
    split_ifs <;> exact ⟨rfl, rfl⟩
  · rw [owner_dropMutex] at hm
    split_ifs at hm with hmm
    refine ⟨hm, fun hmem ↦ ?_⟩
    change m' ∈ ((unlinkHeld s u m).task t).held
    rw [task_unlinkHeld]
    split_ifs
    · exact mem_filter.mpr ⟨hmem, decide_eq_true hmm⟩
    · exact hmem

variable {u : Tid} {w₀ : WaitObj}

theorem handOver (c : Fin n) {v : Tid} (m : ℕ) (hv : v < s.nextTid) :
    Booked (handOver (unlinkHeld s u m) c m v) where
  wait := by
    intro w t ht
    have hmem := ((mem_unlinkWait _ v t).mp ht).1
    rw [task_handOver, task_unlinkHeld]
    split_ifs <;> exact hs.wait w t hmem
  held := by
    intro m' t hm
    rw [task_handOver, task_unlinkHeld]
    rw [owner_handOver] at hm
    split_ifs at hm with hmm
    · cases hm
      rw [if_pos rfl, hmm]
      exact ⟨mem_cons_self, hv⟩
    · obtain ⟨hmem, hlt⟩ := hs.held m' t hm
      refine ⟨?_, hlt⟩
      have hfil : m' ∈ (s.task t).held.filter (· ≠ m) :=
        mem_filter.mpr ⟨hmem, decide_eq_true hmm⟩
      split_ifs
      · exact mem_cons_of_mem m hfil
      · exact mem_cons_of_mem m hmem
      · exact hfil
      · exact hmem

theorem runBlockCleanup (u : Tid) : Booked (runBlockCleanup s u) := by
  cases hb : (s.task u).blockCleanup with
  | none =>
    rw [Sched.runBlockCleanup, hb]
    exact hs
  | some w₀ =>
    rw [Sched.runBlockCleanup, hb]
    change Booked ((s.setTask u fun td ↦ { td with blockCleanup := none }).unlinkWait u w₀)
    refine hs.of_waiters rfl (fun w t ht ↦ ?_) rfl fun t ↦ ?_
    · obtain ⟨hmem, hne⟩ := (mem_unlinkWait _ u t).mp ht
      have hw := hs.wait w t hmem
      have htu : t ≠ u := by
        rintro rfl
        exact hne ⟨some.inj (hw.1.symm.trans hb), rfl⟩
      rw [task_unlinkWait, Sys.task_setTask, if_neg htu]
      exact hw
    · rw [task_unlinkWait, Sys.task_setTask]
      split_ifs <;> rfl

theorem blockOn
    (hg : (s.task u).waiting = none ∨ (s.task u).waiting = some w₀) : Booked (blockOn s u w₀) := by
  refine hs.of_waiters rfl (fun w t ht ↦ ?_) rfl fun t ↦ ?_
  · rw [task_blockOn]
    rcases (mem_blockOn s u t _).mp ht with hmem | ⟨rfl, rfl⟩
    · have hw := hs.wait w t hmem
      split_ifs with htu
      · -- a thread that is still linked blocks on the list it is on
        subst htu
        rw [hw.2] at hg
        have heq : w = w₀ := some.inj (hg.resolve_left nofun)
        exact ⟨congrArg some heq.symm, congrArg some heq.symm⟩
      · exact hw
    · rw [if_pos rfl]
      exact ⟨rfl, rfl⟩
  · rw [task_blockOn]
    split_ifs <;> rfl

/-- The thread leaves the list of its wait and forgets the wait. -/
theorem leaveWait (hg : (s.task u).waiting = none ∨ (s.task u).waiting = some w₀) :
    Booked ((s.unlinkWait u w₀).setTask u fun td ↦
      { td with blockCleanup := none, waiting := none }) := by
  refine hs.of_waiters rfl (fun w t ht ↦ ?_) rfl fun t ↦ ?_
  · obtain ⟨hmem, hne⟩ := (mem_unlinkWait s u t).mp ht
    have hw := hs.wait w t hmem
    have htu : t ≠ u := by
      rintro rfl
      rw [hw.2] at hg
      exact hne ⟨some.inj (hg.resolve_left nofun), rfl⟩
    rw [Sys.task_setTask, if_neg htu]
    exact hw
  · rw [Sys.task_setTask]
    split_ifs <;> rfl

theorem finishWait (hg : (s.task u).waiting = some w₀) :
    Booked (finishWait s u w₀) := by
  have hleft := hs.leaveWait (.inr hg)
  rw [Sched.finishWait]
  split_ifs
  · refine hleft.of_links le_rfl (fun w t ht ↦ ⟨ht, ?_⟩) fun m t hm ↦ ⟨hm, ?_⟩
    · have hl := links_setState ((s.unlinkWait u w₀).setTask u fun td ↦
        { td with blockCleanup := none, waiting := none }) u t .running
      exact ⟨congrArg Prod.fst hl, congrArg (fun l ↦ l.2.1) hl⟩
    · have hl := links_setState ((s.unlinkWait u w₀).setTask u fun td ↦
        { td with blockCleanup := none, waiting := none }) u t .running
      intro hmem
      exact (congrArg (fun l ↦ m ∈ l.2.2.1) hl).mpr hmem
  · exact hleft

theorem giveMutex {m : ℕ} (hu : u < s.nextTid) : Booked (giveMutex s u m) where
  wait := by
    intro w t ht
    rw [task_giveMutex]
    split_ifs <;> exact hs.wait w t ht
  held := by
    intro m' t hm
    rw [owner_giveMutex] at hm
    rw [task_giveMutex]
    split_ifs at hm with hmm
    · cases hm
      rw [if_pos rfl, hmm]
      exact ⟨mem_cons_self, hu⟩
    · obtain ⟨hmem, hlt⟩ := hs.held m' t hm
      refine ⟨?_, hlt⟩
      split_ifs
      · exact mem_cons_of_mem m hmem
      · exact hmem

theorem futexRequeue {key key' : ℕ} (hu : u ∈ s.waiters ⟨.futex, key⟩) :
    Booked (futexRequeue s u key key') := by
  refine hs.of_waiters rfl (fun w t ht ↦ ?_) rfl fun t ↦ ?_
  · rw [task_futexRequeue]
    rcases mem_futexRequeue.mp ht with ⟨hmem, hne⟩ | ⟨rfl, rfl⟩
    · have hw := hs.wait w t hmem
      have htu : t ≠ u := by
        rintro rfl
        exact hne ⟨some.inj (hw.1.symm.trans (hs.wait _ t hu).1), rfl⟩
      rw [if_neg htu]
      exact hw
    · rw [if_pos rfl]
      exact ⟨rfl, rfl⟩
  · rw [task_futexRequeue]
    split_ifs <;> rfl

theorem step (hk : Known s) (h : step s e = some s') : Booked s' := by
  by_cases he : e.Relinks
  case neg =>
    obtain ⟨hl, ho⟩ := (step_within h).links he
    refine hs.of_links (step_nextTid_le h) (fun w t ht ↦ ⟨?_, ?_, ?_⟩) fun m t hm ↦ ⟨?_, ?_⟩
    · rcases (step_within h).waiters t w ht with hmem | hj
      · exact hmem
      · cases e with
        | block | requeue => exact absurd trivial he
        | _ => exact hj.elim
    · exact congrArg Prod.fst (hl t)
    · exact congrArg (fun l ↦ l.2.1) (hl t)
    · exact ho ▸ hm
    · exact (congrArg (fun l ↦ m ∈ l.2.2.1) (hl t)).mpr
  cases e with
  | create c p prio aff =>
    cases h
    have htask : ∀ t, t ≠ s.nextTid → (createTask s c p prio aff).task t = s.task t := fun t ht ↦
      update_of_ne ht ..
    refine hs.of_links (Nat.le_succ _) (fun w t ht ↦ ⟨ht, ?_⟩) fun m t hm ↦ ⟨hm, ?_⟩
    · rw [htask t (hk.waiters w t ht).ne]
      exact ⟨rfl, rfl⟩
    · rw [htask t (hs.held m t hm).2.ne]
      exact id
  | block c w =>
    obtain ⟨hg, rfl⟩ := of_guard h
    exact hs.blockOn hg.2
  | finish c =>
    obtain ⟨-, h⟩ := ite_none_right_eq_some.mp h
    obtain ⟨w, hw, rfl⟩ := map_eq_some_iff.mp h
    exact hs.finishWait hw
  | take c m =>
    obtain ⟨hg, rfl⟩ := of_guard h
    exact (hs.leaveWait hg.2.2).giveMutex (hk.cur c)
  | unlock c m =>
    obtain ⟨-, h⟩ := ite_none_right_eq_some.mp h
    rcases piMutexUnlock_cases h with ⟨-, rfl⟩ | ⟨u, hu, rfl⟩
    · exact hs.dropMutex _ m
    · exact hs.handOver c m (hk.waiters _ u (bestWaiter_some hu).1)
  | requeue u key key' =>
    obtain ⟨hg, rfl⟩ := of_guard h
    exact hs.futexRequeue hg.1
  | nudgeCleanup u =>
    obtain ⟨-, rfl⟩ := of_guard h
    exact hs.runBlockCleanup u
  | cleanup c =>
    obtain ⟨-, rfl⟩ := of_guard h
    have hclean := hs.runBlockCleanup (s.cur c)
    exact ⟨hclean.wait, hclean.held⟩
  | release c =>
    obtain ⟨-, h⟩ := ite_none_right_eq_some.mp h
    obtain ⟨m, -, rfl⟩ := map_eq_some_iff.mp h
    rcases piMutexReleaseOne_cases s (s.cur c) c m with ⟨ho, heq⟩ | ⟨-, -, heq⟩ | ⟨u, -, hu, heq⟩ <;>
      rw [heq]
    · refine hs.of_links le_rfl (fun w t ht ↦ ⟨ht, ?_⟩) fun m' t hm ↦ ⟨hm, fun hmem ↦ ?_⟩
      · rw [task_unlinkHeld]
        split_ifs <;> exact ⟨rfl, rfl⟩
      · rw [task_unlinkHeld]
        split_ifs with htu
        · have hmm : m' ≠ m := by
            rintro rfl
            exact ho (htu ▸ hm)
          exact mem_filter.mpr ⟨hmem, decide_eq_true hmm⟩
        · exact hmem
    · exact hs.dropMutex _ m
    · exact hs.handOver c m (hk.waiters _ u (bestWaiter_some hu).1)
  | commit c =>
    rw [Sched.step] at h
    split at h
    · next next free hph =>
      cases h
      have hsame : ∀ t, ((commitSwitch s c next free).task t).blockCleanup =
          (s.task t).blockCleanup ∧
          ((commitSwitch s c next free).task t).waiting = (s.task t).waiting ∧
          ((commitSwitch s c next free).task t).held = (s.task t).held := by
        intro t
        have hl := links_commitSwitch s c next free t
        exact ⟨congrArg Prod.fst hl, congrArg (fun l ↦ l.2.1) hl, congrArg (fun l ↦ l.2.2.1) hl⟩
      have hrest : (commitSwitch s c next free).waiters = s.waiters ∧
          (commitSwitch s c next free).owner = s.owner ∧
          (commitSwitch s c next free).nextTid = s.nextTid := by
        rw [commitSwitch]
        cases free <;> exact ⟨rfl, rfl, rfl⟩
      obtain ⟨hw, ho, hn⟩ := hrest
      refine hs.of_links hn.ge (fun w t ht ↦ ⟨hw ▸ ht, (hsame t).1, (hsame t).2.1⟩)
        fun m t hm ↦ ⟨ho ▸ hm, fun hmem ↦ ?_⟩
      rw [(hsame t).2.2]
      exact hmem
    · cases h
  | _ => exact he.elim

end Booked

/-- A thread that runs its clean-up is on no list any more. -/
theorem Booked.not_mem_runBlockCleanup (hs : Booked s) (t : Tid) (w : WaitObj) :
    t ∉ (Sched.runBlockCleanup s t).waiters w := by
  intro ht
  cases hb : (s.task t).blockCleanup with
  | none =>
    rw [Sched.runBlockCleanup, hb] at ht
    cases hb.symm.trans (hs.wait w t ht).1
  | some w₀ =>
    rw [Sched.runBlockCleanup, hb] at ht
    obtain ⟨hmem, hne⟩ := (mem_unlinkWait _ t t).mp ht
    exact hne ⟨some.inj ((hs.wait w t hmem).1.symm.trans hb), rfl⟩

/-! ## Harts that have switched -/

/-- The harts that have gone through a switch, after one more event. -/
def markSeen (seen : Fin n → Bool) : Event n → Fin n → Bool
  | .commit c => update seen c true
  | _ => seen

/-- The scheduler with a record of the harts that have switched. -/
def stepSeen (x : Sys n × (Fin n → Bool)) (e : Event n) : Option (Sys n × (Fin n → Bool)) :=
  (step x.1 e).map fun s' ↦ (s', markSeen x.2 e)

/-- The task owns no mutex and is on no list of a synchronization object. -/
def Sys.Clean (s : Sys n) (t : Tid) : Prop :=
  (∀ m, s.owner m ≠ some t) ∧ ∀ w, w.kind ≠ .waitqueue → t ∉ s.waiters w

/-- Either exactly one hart has the thread as its current one and has not begun to switch away from
it, or the thread holds no mutex and is on no list of a synchronization object. -/
def Sys.Collectable (s : Sys n) (t : Tid) : Prop :=
  (∃ a, s.cur a = t ∧ (s.phase a = .running ∨ s.phase a = .trapped) ∧
    (s.task t).cleanupQueued = false ∧ ∀ b, s.cur b = t → b = a) ∨
  (∀ a, s.cur a ≠ t) ∧ (s.task t).held = [] ∧
    ∀ w ∈ (s.task t).blockCleanup, w.kind ≠ .waitqueue → t ∉ s.waiters w

instance (s : Sys n) (t : Tid) : Decidable (s.Collectable t) :=
  inferInstanceAs (Decidable (_ ∨ _ ∧ _ ∧ _))

/-- Ended threads stay ended, and a process that ends has only threads the scheduler will clean up
after, the caller among them only if it leaves. -/
def CleanExit (s : Sys n) (e : Event n) : Prop :=
  Spares s e ∧ match e with
    | .procExit c p leaves =>
      (s.cur c ∈ s.threads p → leaves = true) ∧ ∀ t ∈ s.threads p, s.Collectable t
    | _ => True

instance (s : Sys n) : DecidablePred (CleanExit s) := by
  rintro (_ | _) <;> delta CleanExit <;> dsimp only <;> infer_instance

/-! ## The way of a dead thread out -/

/-- What is already done for the current thread of a hart, by the phase of its switch. -/
def Sys.Stage (s : Sys n) (t : Tid) : Phase → Prop
  | .running | .trapped => (s.task t).cleanupQueued = false
  | .cleaning => True
  | .releasing => ∀ w, t ∉ s.waiters w
  | .picked _ _ => s.Clean t

/-- A dead thread is clean and gone, or one hart has still to switch away from it. -/
def Fate (s : Sys n) (seen : Fin n → Bool) (t : Tid) : Prop :=
  (∀ a, s.cur a ≠ t) ∧ s.Clean t ∨
  ∃ a, s.cur a = t ∧ seen a = false ∧ (∀ b, s.cur b = t → b = a) ∧ s.Stage t (s.phase a)

variable {c : Fin n}

theorem phase_of_schedule {delta : ℕ} {busy : List (Fin n)}
    (h : schedSchedule s c delta busy = some s') (hst : s.state (s.cur c) = .terminating)
    (hcq : (s.task (s.cur c)).cleanupQueued = false) : s'.phase c = .cleaning := by
  have hsame : requeueOld (chargeDomain s (s.cur c) delta) (s.cur c) c =
      chargeDomain s (s.cur c) delta := by
    have hst' := (state_chargeDomain s (s.cur c) (s.cur c) delta).trans hst
    rw [requeueOld, if_neg (by rw [hst']; decide), if_neg (by rw [hst']; decide)]
  have hfree : oldNeedsFree (chargeDomain s (s.cur c) delta) (s.cur c) = true := by
    rw [oldNeedsFree, state_chargeDomain, task_chargeDomain, hst, hcq]
    rfl
  rw [schedSchedule, hsame, if_pos hfree, some.injEq] at h
  rw [← h, Sys.phase, hart_setPhase rfl, update_self]

theorem hart_of_commit (h : step s (.commit c) = some s') :
    ∃ u free, s.phase c = .picked u free ∧ s'.hart c = ⟨u, .running⟩ := by
  rw [step] at h
  split at h
  · next u free hph =>
    cases h
    refine ⟨u, free, hph, ?_⟩
    rw [hart_commitSwitch, update_self]
  · cases h

theorem Fate.step {seen : Fin n → Bool} (hf : Fate s seen t) (hk : Known s) (hb : Booked s)
    (hst : s.state t = .terminating) (hrest : s.AtRest t) (hK : Spares s e)
    (h : step s e = some s') : Fate s' (markSeen seen e) t := by
  have hlt : t < s.nextTid := hk.lt_of_state (by rw [hst]; decide)
  have hwait : ∀ w, t ∈ s'.waiters w → t ∈ s.waiters w := by
    intro w ht
    rcases (step_within h).waiters t w ht with hmem | hj
    · exact hmem
    · cases e with
      | block c w' => exact absurd hst (hj.1 ▸ hK)
      | requeue u key key' =>
        obtain ⟨hg, -⟩ := ite_none_right_eq_some.mp h
        obtain ⟨rfl, -⟩ := hj
        cases hg.2.symm.trans hst
      | _ => exact hj.elim
  have howner : ∀ m, s'.owner m = some t → s.owner m = some t ∨
      ∃ c, s.cur c = t ∧ s.phase c = .running := by
    intro m hm
    rcases (step_within h).owner m t hm with ho | ⟨c, -, hc, hr⟩ | hw
    · exact .inl ho
    · exact .inr ⟨c, hc, hr⟩
    · exact absurd hw (not_wakes_of_terminating hk hK h hst)
  have hcur : ∀ b, s'.cur b = t → s.cur b = t := by
    intro b hbt
    rcases step_cur h b with hc | ⟨free, -, hph, -⟩
    · exact hc.symm.trans hbt
    · exact absurd (by rw [hph, hbt]; rfl) (hrest.2.2 b)
  have hclean : s.Clean t → (∀ c, s.cur c = t → s.phase c ≠ .running) → s'.Clean t := by
    intro hcl hnr
    refine ⟨fun m hm ↦ ?_, fun w hw ht ↦ hcl.2 w hw (hwait w ht)⟩
    rcases howner m hm with ho | ⟨c, hc, hr⟩
    · exact hcl.1 m ho
    · exact hnr c hc hr
  rcases hf with ⟨hgone, hcl⟩ | ⟨a, ha, hseen, huniq, hstage⟩
  · exact .inl ⟨fun b hb ↦ hgone b (hcur b hb), hclean hcl fun c hc ↦ absurd hc (hgone c)⟩
  have hcq : (∀ c, e = .commit c → c ≠ a) →
      (s'.task t).cleanupQueued = (s.task t).cleanupQueued := by
    refine fun hne ↦ (step_within h).cleanup t ?_
    rintro (hle | ⟨c, hc, he⟩)
    · exact not_le.mpr hlt hle
    · exact hne c he (huniq c hc)
  have hmark : (∀ c, e = .commit c → c ≠ a) → markSeen seen e a = false := by
    intro hne
    cases e with
    | commit c => exact (update_of_ne (hne c rfl).symm ..).trans hseen
    | _ => exact hseen
  -- the hart is still on its way: the same hart witnesses the new state
  have hstill : s'.cur a = t → (∀ c, e = .commit c → c ≠ a) → s'.Stage t (s'.phase a) →
      Fate s' (markSeen seen e) t := fun hca hne hst' ↦
    .inr ⟨a, hca, hmark hne, fun b hb ↦ huniq b (hcur b hb), hst'⟩
  have hnr : s.phase a ≠ .running → ∀ c, s.cur c = t → s.phase c ≠ .running := by
    intro hph c hc
    rw [huniq c hc]
    exact hph
  rw [Sys.cur, Sys.phase] at hstill
  rcases step_hart h a with heq | ⟨d, hd, heq⟩
  · -- nothing happens to the hart
    have hne : ∀ c, e = .commit c → c ≠ a := by
      rintro c rfl rfl
      obtain ⟨u, free, hph, heq'⟩ := hart_of_commit h
      rw [Sys.phase, heq.symm.trans heq'] at hph
      cases hph
    rw [heq] at hstill
    refine hstill ha hne ?_
    rw [Sys.phase] at hstage hnr
    cases hph : (s.hart a).phase with
    | running | trapped =>
      rw [hph] at hstage
      exact (hcq hne).trans hstage
    | cleaning => trivial
    | releasing =>
      rw [hph] at hstage
      exact fun w hw ↦ hstage w (hwait w hw)
    | picked u free =>
      rw [hph] at hstage hnr
      exact hclean hstage (hnr fun hp ↦ by cases hp)
  rw [heq] at hstill
  cases hd with
  | trapped hph =>
    rw [hph] at hstage
    exact hstill ha (fun _ he ↦ by cases he) ((hcq fun _ he ↦ by cases he).trans hstage)
  | cleaning => exact hstill ha (fun _ he ↦ by cases he) trivial
  | releasing =>
    obtain ⟨-, rfl⟩ := of_guard h
    refine hstill ha (fun _ he ↦ by cases he) fun w ↦ ?_
    rw [ha]
    exact hb.not_mem_runBlockCleanup t w
  | scheduled hph =>
    -- a terminating thread is cleaned up first
    obtain ⟨-, hs'⟩ := ite_none_right_eq_some.mp h
    rw [hph] at hstage
    have hcl := phase_of_schedule hs' (ha ▸ hst) (ha ▸ hstage)
    rw [Sys.phase, heq] at hcl
    cases hcl
  | picked hph hheld =>
    rw [hph] at hstage
    have hcl : s.Clean t := by
      refine ⟨fun m hm ↦ ?_, fun w _ ↦ hstage w⟩
      have hmem := (hb.held m t hm).1
      rw [← ha, hheld] at hmem
      exact not_mem_nil hmem
    have hne : s.phase a ≠ .running := by rw [hph]; decide
    exact hstill ha (fun _ he ↦ by cases he) (hclean hcl (hnr hne))
  | switched hph =>
    rw [hph] at hstage
    have hne : s.phase a ≠ .running := by rw [hph]; exact fun hp ↦ by cases hp
    refine .inl ⟨fun b hbt ↦ ?_, hclean hstage (hnr hne)⟩
    obtain rfl := huniq b (hcur b hbt)
    rw [Sys.cur, heq] at hbt
    exact hrest.2.2 b (by rw [hph, ← hbt]; rfl)

/-! ## Processes that end -/

theorem fate_of_procExit {p : ℕ} {leaves : Bool} (hb : Booked s)
    (hK : CleanExit s (.procExit c p leaves)) (h : step s (.procExit c p leaves) = some s')
    (ht : t ∈ s.threads p) : Fate s' (fun _ ↦ false) t := by
  obtain ⟨hl, ho⟩ := (step_within h).links id
  have hhart := (step_sameQueues h id).hart
  have hwait : ∀ w, t ∈ s'.waiters w → t ∈ s.waiters w := fun w hw ↦
    ((step_within h).waiters t w hw).resolve_right id
  have hcur : ∀ b, s'.cur b = s.cur b := fun b ↦ by rw [Sys.cur, hhart, Sys.cur]
  rcases hK.2.2 t ht with ⟨a, hca, hph, hcq, huniq⟩ | ⟨hgone, hheld, hnw⟩
  · refine .inr ⟨a, (hcur a).trans hca, rfl, fun b hb ↦ huniq b ((hcur b).symm.trans hb), ?_⟩
    have hcq' := (congrArg (fun l ↦ l.2.2.2) (hl t)).trans hcq
    rw [Sys.phase, hhart, ← Sys.phase]
    rcases hph with hph | hph <;> rw [hph] <;> exact hcq'
  · refine .inl ⟨fun b hb ↦ hgone b ((hcur b).symm.trans hb), fun m hm ↦ ?_, fun w hk hw ↦ ?_⟩
    · rw [ho] at hm
      have hmem := (hb.held m t hm).1
      rw [hheld] at hmem
      exact not_mem_nil hmem
    · have hmem := hwait w hw
      exact hnw w (hb.wait w t hmem).1 hk hmem

/-- What is kept from the end of the process on. -/
structure Leaving (T : List Tid) (x : Sys n × (Fin n → Bool)) : Prop where
  known : Known x.1
  buried : Buried x.1
  booked : Booked x.1
  dead : ∀ t ∈ T, x.1.state t = .terminating
  fate : ∀ t ∈ T, Fate x.1 x.2 t

theorem Leaving.step {T : List Tid} {x y : Sys n × (Fin n → Bool)} (hx : Leaving T x)
    (hK : Spares x.1 e) (h : stepSeen x e = some y) : Leaving T y := by
  obtain ⟨s', hs', rfl⟩ := map_eq_some_iff.mp h
  refine ⟨hx.known.step hs', hx.buried.step hx.known hK hs', hx.booked.step hx.known hs',
    fun t ht ↦ ?_, fun t ht ↦ ?_⟩
  · exact step_terminating hx.known hK hs' (hx.dead t ht) (hx.buried t (hx.dead t ht))
  · exact (hx.fate t ht).step hx.known hx.booked (hx.dead t ht) (hx.buried t (hx.dead t ht)) hK hs'

/-- **A process leaves nothing behind** when every one of its threads is current on a hart that will
switch away from it, or holds and waits for nothing. -/
theorem exit_leaves_nothing {c : Fin n} {p : ℕ} {leaves : Bool} {s₁ : Sys n} {seen : Fin n → Bool}
    (h : Reach CleanExit s) (hK : CleanExit s (.procExit c p leaves))
    (hexit : step s (.procExit c p leaves) = some s₁)
    (hrun : Runs.Run stepSeen (fun x e ↦ CleanExit x.1 e) (s₁, fun _ ↦ false) (s', seen))
    (hseen : ∀ a, seen a = true) : ∀ t ∈ s.threads p, s'.Clean t := by
  have hk := h.known
  have hreach : Reach Spares s := by
    obtain ⟨budget, hr⟩ := h
    exact ⟨budget, hr.mono fun _ _ hK ↦ hK.1⟩
  have hb : Booked s := by
    obtain ⟨budget, hr⟩ := h
    have hkb : Known s ∧ Booked s := by
      refine hr.invariant (P := fun s ↦ Known s ∧ Booked s) ⟨known_boot budget, .boot budget⟩ ?_
      intro a e b hab _ hstep
      exact ⟨hab.1.step hstep, hab.2.step hab.1 hstep⟩
    exact hkb.2
  have hstart : Leaving (s.threads p) (s₁, fun _ ↦ false) := by
    refine ⟨hk.step hexit, hreach.buried.step hk hK.1 hexit, hb.step hk hexit, fun t ht ↦ ?_,
      fun t ht ↦ fate_of_procExit hb hK hexit ht⟩
    obtain ⟨-, rfl⟩ := of_guard hexit
    by_cases htc : t = s.cur c
    · exact state_exitProcess_of_mem (.inr ⟨hK.2.1 (htc ▸ ht), htc⟩)
    · exact state_exitProcess_of_mem (.inl ⟨ht, htc⟩)
  have hend : Leaving (s.threads p) (s', seen) :=
    hrun.invariant hstart fun _ _ _ hx hK hstep ↦ hx.step hK.1 hstep
  intro t ht
  rcases hend.fate t ht with ⟨-, hcl⟩ | ⟨a, -, hs, -⟩
  · exact hcl
  · cases hs.symm.trans (hseen a)

/-- A run to the end of a process and on until every hart has switched. -/
theorem exists_exit (K : Sys n → Event n → Prop) [∀ s e, Decidable (K s e)] (budget : ℕ → ℕ)
    (es es' : List (Event n)) (c : Fin n) (p : ℕ) (leaves : Bool) {q : Sys n → Sys n → Prop}
    [∀ s s', Decidable (q s s')]
    (h : (play step K (boot n budget) es).any (fun s ↦
      decide (K s (.procExit c p leaves)) && (step s (.procExit c p leaves)).any fun s₁ ↦
        (play stepSeen (fun x e ↦ K x.1 e) (s₁, fun _ ↦ false) es').any fun y ↦
          decide (q s y.1 ∧ ∀ a, y.2 a = true)) = true) :
    ∃ s s₁ s' seen, Reach K s ∧ K s (.procExit c p leaves) ∧
      step s (.procExit c p leaves) = some s₁ ∧
      Runs.Run stepSeen (fun x e ↦ K x.1 e) (s₁, fun _ ↦ false) (s', seen) ∧
      (∀ a, seen a = true) ∧ q s s' := by
  obtain ⟨s, hs, hp⟩ := exists_run_of_play es h
  obtain ⟨hK, hp⟩ := Bool.and_eq_true_iff.mp hp
  obtain ⟨s₁, hs₁, hp⟩ := (any_eq_true _ _).mp hp
  obtain ⟨⟨s', seen⟩, hrun, hq⟩ := exists_run_of_play es' hp
  obtain ⟨hq, hseen⟩ := of_decide_eq_true hq
  exact ⟨s, s₁, s', seen, ⟨budget, hs⟩, of_decide_eq_true hK, hs₁, hrun, hseen, hq⟩

/-- Thread 2 runs on hart 0 and owns a mutex when hart 1 ends its process. -/
theorem exit_leaves_nothing_owner : ∃ (s s₁ s' : Sys 2) (seen : Fin 2 → Bool),
    Reach CleanExit s ∧ s.threads 0 = [2] ∧ s.owner 0 = some 2 ∧
    step s (.procExit 1 0 false) = some s₁ ∧
    Runs.Run stepSeen (fun x e ↦ CleanExit x.1 e) (s₁, fun _ ↦ false) (s', seen) ∧
    s'.Clean 2 := by
  obtain ⟨s, s₁, s', seen, hs, hK, hexit, hrun, hseen, hthr, hown⟩ :=
    exists_exit CleanExit (fun _ ↦ 1)
      [.create 0 (some 0) 1 none, .enqueue 2 0, .trap 0 true, .schedule 0 0 [], .commit 0,
        .take 0 0]
      [.trap 0 false, .schedule 0 0 [], .cleanup 0, .release 0, .pick 0 [], .commit 0,
        .trap 1 true, .schedule 1 0 [], .commit 1]
      1 0 false (q := fun (s _ : Sys 2) ↦ s.threads 0 = [2] ∧ s.owner 0 = some 2) (by decide +kernel)
  exact ⟨s, s₁, s', seen, hs, hthr, hown, hexit, hrun,
    exit_leaves_nothing hs hK hexit hrun hseen 2 (hthr ▸ mem_singleton_self 2)⟩

/-- Thread 1 owns a mutex and waits for a semaphore when its process ends. -/
theorem not_exit_leaves_nothing : ¬∀ (s s₁ s' : Sys 1) (seen : Fin 1 → Bool), Reach Any s →
    step s (.procExit 0 0 false) = some s₁ →
    Runs.Run stepSeen (fun x e ↦ Any x.1 e) (s₁, fun _ ↦ false) (s', seen) →
    (∀ a, seen a = true) → ∀ t ∈ s.threads 0, s'.Clean t := by
  intro hall
  obtain ⟨s, s₁, s', seen, hs, -, hexit, hrun, hseen, hthr, hown⟩ :=
    exists_exit Any (fun _ ↦ 1)
      [.create 0 (some 0) 1 none, .enqueue 1 0, .trap 0 true, .schedule 0 0 [], .commit 0,
        .take 0 0, .block 0 ⟨.sem, 0⟩, .trap 0 false, .schedule 0 0 [], .commit 0]
      [.trap 0 true, .schedule 0 0 [], .commit 0]
      0 0 false (q := fun (s s' : Sys 1) ↦ 1 ∈ s.threads 0 ∧ s'.owner 0 = some 1 ∧
        1 ∈ s'.waiters ⟨.sem, 0⟩) (by decide +kernel)
  exact (hall s s₁ s' seen hs hexit hrun hseen 1 hthr).1 0 hown.1

end Mazu.Sched
