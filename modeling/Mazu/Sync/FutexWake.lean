import Mazu.Sync.FutexRequeue

/-!
# No lost wake-ups

A thread that sleeps in `futex_wait` is on the queue of its bucket with its address, or a nudge that
took it off is about to wake it. A wake-up of enough threads therefore leaves none of the sleepers of
its address, and while the word differs from the value that they wait for none is added.
-/

namespace Mazu.Sync.Futex

open Sync.Pi Function List

variable {T M : Type} [DecidableEq T] {s s' : Sys T M} {a : Addr} {t u v : T}

/-! ## What a wake-up changes -/

/-- Nobody but `u` leaves a queue, and the records stay. -/
structure OnlyLeaves (u : T) (s s' : Sys T M) : Prop where
  waiter : waiter s' = waiter s
  phase : s'.obj.phase = s.obj.phase
  linked : ∀ v, v ≠ u → Linked s v → Linked s' v

omit [DecidableEq T] in
theorem linked_congr (hb : books s'.obj.world = books s.obj.world) : Linked s' v ↔ Linked s v := by
  have h : ∀ b b' : Books T, b = b' → (v ∈ b.waiters (futexHash (b.futexWaiter v).key) ↔
      v ∈ b'.waiters (futexHash (b'.futexWaiter v).key)) := by
    rintro b _ rfl
    exact .rfl
  exact h _ _ hb

omit [DecidableEq T] in
theorem OnlyLeaves.of_books {s'' : Sys T M} (h : OnlyLeaves u s s')
    (hb : books s''.obj.world = books s'.obj.world) (hp : s''.obj.phase = s'.obj.phase) :
    OnlyLeaves u s s'' := by
  have hw : Futex.waiter s'' = Futex.waiter s' := congrArg Books.futexWaiter hb
  exact ⟨hw.trans h.waiter, hp.trans h.phase, fun v hv hl ↦ (linked_congr hb).mpr (h.linked v hv hl)⟩

theorem onlyLeaves_listDel (s : Sys T M) (u : T) : OnlyLeaves u s (listDel s u) := by
  refine ⟨rfl, rfl, fun v hv hl ↦ ?_⟩
  show v ∈ update s.obj.world.waiters _ _ (bucket s v)
  rw [update_apply]
  split_ifs with hb
  · exact (mem_erase_of_ne hv).mpr (hb ▸ hl)
  · exact hl

theorem leavePi_phase (s : Sys T M) (u : T) (o : Option T) :
    (leavePi s u o).1.obj.phase = s.obj.phase ∧ (leavePi s u o).1.nudges = s.nudges := by
  rw [leavePi]
  split <;> exact ⟨rfl, rfl⟩

theorem onlyLeaves_takeOff (s : Sys T M) (u : T) (o : Option T) :
    OnlyLeaves u s (takeOff s u o).1 :=
  (onlyLeaves_listDel s u).of_books (books_leavePi ..) (leavePi_phase ..).1

theorem waits_wakeOne (s : Sys T M) (u : T) (o : Option T) :
    Waits ((takeOff s u o).1.modify u Thread.wakeReady) v a ↔ v ≠ u ∧ Waits s v a := by
  rw [Waits, thread_modify, (takeOff_frame s u o).1]
  have hw : waiter ((takeOff s u o).1.modify u Thread.wakeReady) v = waiter s v :=
    congrFun (takeOff_frame s u o).2 v
  rw [hw]
  split_ifs with hv
  · refine ⟨fun h ↦ ?_, fun h ↦ absurd hv h.1⟩
    cases h.2
  · exact ⟨fun h ↦ ⟨hv, h⟩, And.right⟩

/-- **The sleepers that a wake-up leaves** are as they were. -/
theorem wakeWalk_sleeper (a : Addr) (n : ℕ) (s : Sys T M) (l : Log T) (us : List T)
    (hv : ((wakeWalk a n s l us).1.thread v).state = .blocked) :
    (s.thread v).state = .blocked ∧ waiter (wakeWalk a n s l us).1 v = waiter s v ∧
      (Linked s v → Linked (wakeWalk a n s l us).1 v) := by
  induction us generalizing s l with
  | nil => exact ⟨hv, rfl, id⟩
  | cons u us ih =>
    rw [wakeWalk] at hv ⊢
    split_ifs at hv ⊢
    · exact ⟨hv, rfl, id⟩
    · obtain ⟨hb, hw, hl⟩ := ih _ _ hv
      rw [thread_modify] at hb
      split_ifs at hb with hvu
      · cases hb
      have hoff := onlyLeaves_takeOff s u l.owner
      rw [(takeOff_frame s u l.owner).1] at hb
      exact ⟨hb, hw.trans (congrFun hoff.waiter v), fun h ↦ hl (hoff.linked v hvu h)⟩
    · exact ih s l hv

theorem wakeWalk_phase (a : Addr) (n : ℕ) (s : Sys T M) (l : Log T) (us : List T) :
    (wakeWalk a n s l us).1.obj.phase = s.obj.phase ∧ (wakeWalk a n s l us).1.nudges = s.nudges := by
  induction us generalizing s l with
  | nil => exact ⟨rfl, rfl⟩
  | cons u us ih =>
    rw [wakeWalk]
    split_ifs
    · exact ⟨rfl, rfl⟩
    · obtain ⟨hp, hn⟩ := ih _
        { l with woken := l.woken ++ [u], owner := (takeOff s u l.owner).2 }
      exact ⟨hp.trans (leavePi_phase ..).1, hn.trans (leavePi_phase ..).2⟩
    · exact ih s l

/-- Enough wake-ups leave nobody of the list. -/
theorem wakeWalk_all (a : Addr) {n : ℕ} (s : Sys T M) (l : Log T) (us : List T)
    (hn : l.woken.length + (matching s a us).length ≤ n) :
    ∀ v ∈ us, ¬Waits (wakeWalk a n s l us).1 v a := by
  induction us generalizing s l with
  | nil => exact nofun
  | cons u us ih =>
    have hkeep : ∀ (s' : Sys T M) l', ¬Waits s' u a → ¬Waits (wakeWalk a n s' l' us).1 u a := by
      intro s' l' hu hw
      obtain ⟨hb, hwait, -⟩ := wakeWalk_sleeper a n s' l' us hw.2
      exact hu ⟨hwait ▸ hw.1, hb⟩
    rw [wakeWalk]
    by_cases hu : Waits s u a
    · rw [matching_cons_pos hu, length_cons] at hn
      rw [if_neg (by omega), if_pos hu]
      have hgone : ¬Waits ((takeOff s u l.owner).1.modify u Thread.wakeReady) u a := by
        rw [waits_wakeOne]
        exact fun h ↦ h.1 rfl
      have hle : (matching ((takeOff s u l.owner).1.modify u Thread.wakeReady) a us).length ≤
          (matching s a us).length := by
        refine (monotone_filter_right us fun v hv ↦ ?_).length_le
        rw [decide_eq_true_iff] at hv ⊢
        exact ((waits_wakeOne s u l.owner).mp hv).2
      intro v hv
      rcases mem_cons.mp hv with rfl | hv
      · exact hkeep _ _ hgone
      · refine ih _ _ ?_ v hv
        rw [length_append, length_singleton]
        omega
    · rw [matching_cons_neg hu] at hn
      intro v hv
      split_ifs with hfull
      · intro hw
        have hmem : v ∈ matching s a (u :: us) := mem_filter.mpr ⟨hv, decide_eq_true hw⟩
        rw [matching_cons_neg hu] at hmem
        have hpos := length_pos_of_mem hmem
        omega
      · rcases mem_cons.mp hv with rfl | hv
        · exact hkeep s l hu
        · exact ih s l hn v hv

/-! ## Steps -/

variable [DecidableEq M]

/-- A call of `futex_wait` or `futex_wake`, a store to a word, or what happens around them. -/
def Plain : Event T → Prop
  | .env _ => True
  | .wait _ _ _ => True
  | .resume _ => True
  | .wake _ _ _ => True
  | .store _ _ => True
  | _ => False

instance (e : Event T) : Decidable (Plain e) := by
  cases e <;> unfold Plain <;> infer_instance

/-- The waiter whose callback runs leaves its queue, and nothing else happens to the queues. -/
theorem futexWaitCleanup_spec (s : Sys T M) (u : T) :
    OnlyLeaves u s (futexWaitCleanup s u) ∧ (futexWaitCleanup s u).thread = s.thread ∧
      (futexWaitCleanup s u).nudges = s.nudges := by
  have hr : ∀ (r : Sys T M × Option T), OnlyLeaves u s r.1 → r.1.thread = s.thread →
      r.1.nudges = s.nudges →
      let s' := refreshOwnerChain (if (waiter s u).piWait then clearDependency r.1 u else r.1) r.2
      OnlyLeaves u s s' ∧ s'.thread = s.thread ∧ s'.nudges = s.nudges := by
    intro r hoff ht hn s'
    have hbooks : books s'.obj.world = books r.1.obj.world := by
      refine (books_refreshOwnerChain _ _ _).trans ?_
      split_ifs <;> rfl
    refine ⟨hoff.of_books hbooks ?_, ?_, ?_⟩
    · show (if _ then clearDependency r.1 u else r.1).obj.phase = _
      split_ifs <;> rfl
    · show (if _ then clearDependency r.1 u else r.1).thread = _
      split_ifs <;> exact ht
    · show (if _ then clearDependency r.1 u else r.1).nudges = _
      split_ifs <;> exact hn
  rw [futexWaitCleanup]
  by_cases hl : Linked s u
  · rw [if_pos hl]
    exact hr _ (onlyLeaves_takeOff ..) (takeOff_frame ..).1 (leavePi_phase ..).2
  · rw [if_neg hl]
    exact hr (s, none) ⟨rfl, rfl, fun _ _ ↦ id⟩ rfl rfl

/-- A thread asleep in `futex_wait` before and after a step. -/
structure SleepsOn (s s' : Sys T M) (t : T) : Prop where
  phase : s'.obj.phase t = s.obj.phase t
  blocked : (s.thread t).state = .blocked
  waiter : waiter s' t = waiter s t
  linked : Linked s t → Linked s' t ∨ (t, .wake) ∈ s'.nudges
  nudged : (t, .wake) ∈ s.nudges → (t, .wake) ∈ s'.nudges

theorem envStep_sleepsOn {e : Env T} (h : envStep futexWaitCleanup s e = some s')
    (hb : (s'.thread t).state = .blocked) : SleepsOn s s' t := by
  have hblocked := envStep_blocked (fun a u ↦ (futexWaitCleanup_spec a u).2.1) h hb
  have hnudged : (t, .wake) ∈ s.nudges → (t, .wake) ∈ s'.nudges := by
    intro hn
    refine (envStep_wake_mem (fun a u ↦ (futexWaitCleanup_spec a u).2.2) h hn).resolve_right ?_
    rintro rfl
    exact envStep_wake_awake h (.inl hb)
  rcases envStep_cases h with hq | ⟨u, l, l', -, hmem, rfl⟩ | ⟨u, -, hdying, rfl⟩
  · have hobj := hq.obj
    refine ⟨by rw [hobj], hblocked, ?_, fun hl ↦ .inl ?_, hnudged⟩
    · rw [waiter, waiter, hobj]
    · rw [Linked, bucket, waiter] at hl ⊢
      rwa [hobj]
  · have hoff := (futexWaitCleanup_spec { s with nudges := l } u).1
    refine ⟨congrFun hoff.phase t, hblocked, congrFun hoff.waiter t, fun hl ↦ ?_, hnudged⟩
    by_cases htu : t = u
    · exact .inr (hmem t (.inl htu))
    · exact .inl (hoff.linked t htu hl)
  · have htu : t ≠ u := by
      rintro rfl
      cases hdying.symm.trans hblocked
    have hoff : OnlyLeaves u s (runCleanup futexWaitCleanup s u) := by
      rw [runCleanup]
      split_ifs
      · have hc := (futexWaitCleanup_spec (s.modify u fun d ↦ { d with blockCleanup := false }) u).1
        exact ⟨hc.waiter, hc.phase, hc.linked⟩
      · exact ⟨rfl, rfl, fun _ _ ↦ id⟩
    exact ⟨congrFun hoff.phase t, hblocked, congrFun hoff.waiter t,
      fun hl ↦ .inl (hoff.linked t htu hl), hnudged⟩

omit [DecidableEq T] [DecidableEq M] in
/-- A step of `u` leaves the other sleepers alone. -/
theorem SleepsOn.of_onlyLeaves (htu : t ≠ u) (hoff : OnlyLeaves u s s')
    (hb : (s.thread t).state = .blocked) (hn : s'.nudges = s.nudges) : SleepsOn s s' t :=
  ⟨congrFun hoff.phase t, hb, congrFun hoff.waiter t, fun hl ↦ .inl (hoff.linked t htu hl),
    fun h ↦ hn ▸ h⟩

omit [DecidableEq M] in
theorem SleepsOn.return' (h : SleepsOn s s' t) (htu : t ≠ u) (r : ℤ) :
    SleepsOn s (return' s' u r) t :=
  ⟨(update_of_ne htu ..).trans h.phase, h.blocked, h.waiter, h.linked, h.nudged⟩

omit [DecidableEq T] [DecidableEq M] in
theorem SleepsOn.refl (hb : (s.thread t).state = .blocked) : SleepsOn s s t :=
  ⟨rfl, hb, rfl, .inl, id⟩

theorem futexWake_sleepsOn (a : Addr) (n : ℕ)
    (hb : ((futexWake s a n).1.thread t).state = .blocked) : SleepsOn s (futexWake s a n).1 t := by
  obtain ⟨hblocked, hwait, hlink⟩ := wakeWalk_sleeper a n s ⟨[], [], none⟩ _ hb
  obtain ⟨hphase, hnudges⟩ := wakeWalk_phase a n s ⟨[], [], none⟩
    (s.obj.world.waiters (futexHash a))
  have hbooks : books (futexWake s a n).1.obj.world =
      books (wakeWalk a n s ⟨[], [], none⟩ _).1.obj.world :=
    books_refreshOwnerChain _ _ _
  have hw : waiter (futexWake s a n).1 t =
      waiter (wakeWalk a n s ⟨[], [], none⟩ _).1 t :=
    congrFun (congrArg Books.futexWaiter hbooks) t
  exact ⟨congrFun hphase t, hblocked, hw.trans hwait,
    fun hl ↦ .inl ((linked_congr hbooks).mpr (hlink hl)), fun h ↦ hnudges ▸ h⟩

/-- Enough wake-ups leave no sleeper of the address. -/
theorem futexWake_all {n : ℕ} (hn : (waiting s a).length ≤ n) (hkey : (waiter s t).key = a)
    (hl : Linked s t) : ((futexWake s a n).1.thread t).state ≠ .blocked := by
  intro hb
  obtain ⟨-, hwait, -⟩ := wakeWalk_sleeper a n s ⟨[], [], none⟩ _ hb
  have hmem : t ∈ s.obj.world.waiters (futexHash a) := by
    rw [Linked, bucket, hkey] at hl
    exact hl
  have hlen : ([] : List T).length + (waiting s a).length ≤ n := by
    rw [length_nil, Nat.zero_add]
    exact hn
  exact wakeWalk_all a s ⟨[], [], none⟩ _ hlen t hmem ⟨hwait ▸ hkey, hb⟩

omit [DecidableEq M] in
/-- A thread that takes a record and queues. -/
theorem moveTo_spec (s : Sys T M) (u : T) (w : FutexWaiter) :
    waiter (moveTo s u w) u = w ∧ Linked (moveTo s u w) u ∧
      ∀ v, v ≠ u → waiter (moveTo s u w) v = waiter s v ∧ (Linked s v → Linked (moveTo s u w) v) := by
  have hself : waiter (moveTo s u w) u = w := update_self ..
  have hne : ∀ v, v ≠ u → waiter (moveTo s u w) v = waiter s v :=
    fun v hv ↦ update_of_ne hv ..
  have hq : ∀ b, (moveTo s u w).obj.world.waiters b =
      if b = bucket (setWaiter s u fun _ ↦ w) u then s.obj.world.waiters b ++ [u]
      else s.obj.world.waiters b := by
    intro b
    refine (update_apply ..).trans ?_
    split_ifs with hb
    · rw [hb]
      rfl
    · rfl
  refine ⟨hself, ?_, fun v hv ↦ ⟨hne v hv, fun hl ↦ ?_⟩⟩
  · rw [Linked, hq]
    exact if_pos rfl ▸ mem_append_right _ mem_cons_self
  · rw [Linked, bucket, hne v hv, hq]
    split_ifs
    · exact mem_append_left _ hl
    · exact hl

omit [DecidableEq M] in
theorem futexWait_sleeper (s : Sys T M) (u : T) (b : Addr) (y : ℕ) {x : ℕ}
    (hph : (futexWait s u b y).obj.phase t = .wait a x)
    (hb : ((futexWait s u b y).thread t).state = .blocked) :
    SleepsOn s (futexWait s u b y) t ∨ s.obj.mem.copyFromUser a 4 = some x ∧
      (waiter (futexWait s u b y) t).key = a ∧ Linked (futexWait s u b y) t := by
  have hne : t ≠ u → ((futexWait s u b y).thread t) = s.thread t := by
    intro htu
    rw [futexWait]
    split
    · exact update_of_ne htu ..
    · split_ifs <;> exact update_of_ne htu ..
  have hret : ∀ r, futexWait s u b y = return' s u r → SleepsOn s (futexWait s u b y) t := by
    intro r heq
    have htu : t ≠ u := by
      rintro rfl
      rw [heq] at hph
      cases (update_self t _ _).symm.trans hph
    rw [hne htu] at hb
    exact heq ▸ (SleepsOn.refl hb).return' htu r
  cases hm : s.obj.mem.copyFromUser b 4 with
  | none => exact .inl (hret _ (by rw [futexWait, hm]))
  | some z =>
    by_cases hz : z = y
    swap
    · exact .inl (hret (-eagain) (by simp only [futexWait, hm, ne_eq, hz, not_false_iff, if_true]))
    have heq : futexWait s u b y = { (moveTo s u ⟨b, none, false, false⟩).modify u (·.block .blocked)
        with obj := { (moveTo s u ⟨b, none, false, false⟩).obj with
          phase := update s.obj.phase u (.wait b y) } } := by
      simp only [futexWait, hm, hz, ne_eq, if_false]
      rfl
    obtain ⟨hself, hlink, hother⟩ := moveTo_spec s u ⟨b, none, false, false⟩
    rw [heq] at hph
    by_cases htu : t = u
    · right
      subst htu
      have hp : Phase.wait b y = .wait a x := (update_self ..).symm.trans hph
      obtain ⟨rfl, rfl⟩ := Phase.wait.inj hp
      rw [heq]
      exact ⟨hz ▸ hm, congrArg FutexWaiter.key hself, hlink⟩
    · left
      rw [hne htu] at hb
      rw [heq]
      exact ⟨update_of_ne htu .., hb, (hother t htu).1, fun h ↦ .inl ((hother t htu).2 h), id⟩

/-- **What a step does to sleepers.** A thread asleep in `futex_wait` slept before, on the same queue
unless a nudge is about to wake it, or it has just found the word to hold what it waits for. -/
theorem step_sleeper {e : Event T} (h : step s e = some s') (hp : Plain e)
    (hout : ∀ u b, s.obj.phase u ≠ .lockPi b) {x : ℕ} (hph : s'.obj.phase t = .wait a x)
    (hb : (s'.thread t).state = .blocked) :
    SleepsOn s s' t ∨ s.obj.mem.copyFromUser a 4 = some x ∧ (waiter s' t).key = a ∧ Linked s' t := by
  cases e with
  | env e => exact .inl (envStep_sleepsOn h hb)
  | wait u b y =>
    obtain ⟨-, rfl⟩ := Runs.of_guard h
    exact futexWait_sleeper s u b y hph hb
  | resume u =>
    obtain ⟨-, h⟩ := Option.ite_none_right_eq_some.mp h
    rw [resume] at h
    split at h
    · cases h
    · cases h
      left
      have htu : t ≠ u := by
        rintro rfl
        cases (update_self t _ _).symm.trans hph
      have hthread : (futexWaitResume s u).thread t = s.thread t := by
        rw [futexWaitResume, finish, return', thread_modify, if_neg htu, thread_modify, if_neg htu]
        rfl
      rw [hthread] at hb
      have hoff : SleepsOn s ((listDel s u).modify u (·.unblock .blocked)) t :=
        .of_onlyLeaves htu ⟨rfl, rfl, (onlyLeaves_listDel s u).linked⟩ hb rfl
      exact hoff.return' htu _
    · exact absurd ‹_› (hout u _)
  | wake u b n =>
    obtain ⟨-, rfl⟩ := Runs.of_guard h
    have hs := futexWake_sleepsOn b n hb
    exact .inl ⟨hs.phase, hs.blocked, hs.waiter, hs.linked, hs.nudged⟩
  | store b y =>
    obtain ⟨m, -, h⟩ := Option.map_eq_some_iff.mp h
    cases h
    exact .inl ⟨rfl, hb, rfl, .inl, id⟩
  | lockPi | requeue | requeuePi | unlockPi | exitRobust => exact absurd hp id

theorem step_phase {e : Event T} (h : step s e = some s') (hp : Plain e)
    (hout : ∀ u b, s.obj.phase u ≠ .lockPi b) (u : T) (b : Addr) : s'.obj.phase u ≠ .lockPi b := by
  have hupd : ∀ (p : Phase) v, p ≠ .lockPi b → update s.obj.phase v p u ≠ .lockPi b := by
    intro p v hpp
    rw [update_apply]
    split_ifs
    · exact hpp
    · exact hout u b
  cases e with
  | env e =>
    rcases envStep_cases h with hq | ⟨v, l, l', -, -, rfl⟩ | ⟨v, -, -, rfl⟩
    · rw [hq.obj]
      exact hout u b
    · have hoff := (futexWaitCleanup_spec { s with nudges := l } v).1.phase
      rw [hoff]
      exact hout u b
    · have hoff : (runCleanup futexWaitCleanup s v).obj.phase = s.obj.phase := by
        rw [runCleanup]
        split_ifs
        · exact (futexWaitCleanup_spec (s.modify v fun d ↦ { d with blockCleanup := false }) v).1.phase
        · rfl
      show (runCleanup futexWaitCleanup s v).obj.phase u ≠ _
      rw [hoff]
      exact hout u b
  | wait v c y =>
    obtain ⟨-, rfl⟩ := Runs.of_guard h
    rw [futexWait]
    split
    · exact hupd _ v fun hp ↦ by cases hp
    · split_ifs <;> exact hupd _ v fun hp ↦ by cases hp
  | resume v =>
    obtain ⟨-, h⟩ := Option.ite_none_right_eq_some.mp h
    rw [resume] at h
    split at h
    · cases h
    · cases h
      exact hupd _ v fun hp ↦ by cases hp
    · exact absurd ‹_› (hout v _)
  | wake v c n =>
    obtain ⟨-, rfl⟩ := Runs.of_guard h
    have hphase := (wakeWalk_phase c n s ⟨[], [], none⟩ (s.obj.world.waiters (futexHash c))).1
    show (wakeWalk c n s ⟨[], [], none⟩ (s.obj.world.waiters (futexHash c))).1.obj.phase u ≠ _
    rw [hphase]
    exact hout u b
  | store c y =>
    obtain ⟨m, -, h⟩ := Option.map_eq_some_iff.mp h
    cases h
    exact hout u b
  | lockPi | requeue | requeuePi | unlockPi | exitRobust => exact absurd hp id

/-! ## Runs -/

/-- Sleepers are queued with their address, or about to be nudged awake. -/
structure Queued (s : Sys T M) : Prop where
  out : ∀ u b, s.obj.phase u ≠ .lockPi b
  queued : ∀ t a x, s.obj.phase t = .wait a x → (s.thread t).state = .blocked →
    (waiter s t).key = a ∧ Linked s t ∨ (t, .wake) ∈ s.nudges

theorem Queued.step {e : Event T} (hq : Queued s) (hp : Plain e) (h : step s e = some s') :
    Queued s' := by
  refine ⟨step_phase h hp hq.out, fun t a x hph hb ↦ ?_⟩
  rcases step_sleeper h hp hq.out hph hb with hs | ⟨-, hkey, hlink⟩
  · rcases hq.queued t a x (hs.phase ▸ hph) hs.blocked with ⟨hkey, hl⟩ | hn
    · exact (hs.linked hl).imp_left fun h' ↦ ⟨hs.waiter ▸ hkey, h'⟩
    · exact .inr (hs.nudged hn)
  · exact .inl ⟨hkey, hlink⟩

/-- No thread sleeps for the value at the address, but those that are about to be nudged awake. -/
def NoSleeper (a : Addr) (x : ℕ) (s : Sys T M) : Prop :=
  ∀ t, s.obj.phase t = .wait a x → (s.thread t).state = .blocked → (t, .wake) ∈ s.nudges

/-- A plain step while the word does not hold the value. -/
def Differs (a : Addr) (x : ℕ) (s : Sys T M) (e : Event T) : Prop := Plain e ∧ s.obj.mem.word a ≠ x

instance (a : Addr) (x : ℕ) (e : Event T) : Decidable (Differs a x s e) :=
  inferInstanceAs (Decidable (_ ∧ _))

theorem NoSleeper.step {e : Event T} {x : ℕ} (hn : NoSleeper a x s) (hq : Queued s)
    (hK : Differs a x s e) (h : step s e = some s') : NoSleeper a x s' := by
  intro t hph hb
  rcases step_sleeper h hK.1 hq.out hph hb with hs | ⟨hm, -⟩
  · exact hs.nudged (hn t (hs.phase ▸ hph) hs.blocked)
  · -- The word would have been found to hold the value.
    rw [Mem.copyFromUser] at hm
    split_ifs at hm
    exact absurd (Option.some.inj hm) hK.2

/-- **No wake-up is lost.** From a wake-up of at least as many threads as wait on the address, and while
the word does not hold the value, no thread stays asleep in `futex_wait` for it, in every
interleaving with other waits, wake-ups, nudges and kills. -/
theorem futexWake_none_asleep {basePrio tid : T → ℕ} {tasks : List T} {mem : Mem}
    {robust : T → Robust} {s s₁ s₂ : Sys T M} {a : Addr} {x n : ℕ} {u : T}
    (hrun : Runs.Run step (fun _ e ↦ Plain e) (boot basePrio tid tasks mem robust) s)
    (hn : (waiting s a).length ≤ n) (hwake : step s (.wake u a n) = some s₁)
    (hafter : Runs.Run step (Differs a x) s₁ s₂) : NoSleeper a x s₂ := by
  have hq : Queued s := hrun.invariant ⟨nofun, nofun⟩ fun _ _ _ h hp ↦ h.step hp
  have hq₁ : Queued s₁ := hq.step (e := .wake u a n) trivial hwake
  have hnone : NoSleeper a x s₁ := by
    intro t hph hb
    obtain ⟨-, rfl⟩ := Runs.of_guard hwake
    have hs := futexWake_sleepsOn a n hb
    rcases hq.queued t a x (hs.phase ▸ hph) hs.blocked with ⟨hkey, hl⟩ | hnudge
    · exact absurd hb (futexWake_all hn hkey hl)
    · exact hs.nudged hnudge
  exact (hafter.invariant (P := fun s ↦ Queued s ∧ NoSleeper a x s) ⟨hq₁, hnone⟩
    fun _ _ _ h hK hs ↦ ⟨h.1.step hK.1 hs, h.2.step h.1 hK hs⟩).2

/-- Two threads wait for zero, a third changes the word and wakes up to five threads. -/
theorem futexWake_none_asleep_two :
    ∃ s s₁ : Sys (Fin 3) Unit, (waiting s 0x1000).length = 2 ∧ s.obj.mem.word 0x1000 = 1 ∧
      step s (.wake 2 0x1000 5) = some s₁ ∧ NoSleeper 0x1000 0 s₁ := by
  obtain ⟨s, hrun, hlen, hword, hsome⟩ := Runs.exists_run (step (T := Fin 3) (M := Unit))
    (fun _ e ↦ Plain e)
    (boot (fun _ ↦ 1) (fun t ↦ t.val + 1) [0, 1, 2] ⟨fun _ ↦ 0, fun _ ↦ true, fun _ ↦ true⟩
      fun _ ↦ ⟨0, 0, 0⟩)
    [.env (.dispatch 0), .wait 0 0x1000 0, .env (.dispatch 1), .wait 1 0x1000 0,
      .env (.dispatch 2), .store 0x1000 1]
    (p := fun s ↦ (waiting s 0x1000).length = 2 ∧ s.obj.mem.word 0x1000 = 1 ∧
      (step s (.wake 2 0x1000 5)).isSome) (by decide +kernel)
  obtain ⟨s₁, hs₁⟩ := Option.isSome_iff_exists.mp hsome
  exact ⟨s, s₁, hlen, hword, hs₁, futexWake_none_asleep hrun (by omega) hs₁ .refl⟩

end Mazu.Sync.Futex
