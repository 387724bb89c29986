import Mazu.Sync.RwlockLedger

/-!
# Grants that are taken, and queues that are served

A grant is recorded in the count before the waiter has run. The callback that runs when a waiter is
switched away from for the last time takes it off the queue and does not look whether it was
granted, so the grant of a waiter that is killed before it has run stays in the count for good.

A writer that leaves the queue without the lock lets the queued readers in only when the lock is
free. When readers hold it, the queued readers stay where they are, and the last reader to unlock
does not look at them either, as no writer is pending.
-/

namespace Mazu.Sync.Rwlock

open Function List Runs

variable {T : Type} [DecidableEq T] {s s' : Sys T} {t : T}

/-! ## Grants -/

instance (s : Sys T) (e : Event T) : Decidable (Spared s e) := by
  unfold Spared
  split <;> infer_instance

/-- The waiters that were granted the lock are on their way. -/
structure Fit (s : Sys T) : Prop where
  sane : ∀ u, (s.thread u).Sane
  coming : ∀ u, (s.thread u).inside = true → (s.obj.waiter u).granted = true →
    (s.thread u).Coming

namespace Fit

variable (h : Fit s)

include h

omit [DecidableEq T] in
theorem congr (ht : s'.thread = s.thread)
    (hw : ∀ u, (s'.obj.waiter u).granted = (s.obj.waiter u).granted) : Fit s' where
  sane u := ht ▸ h.sane u
  coming u hin hg := by
    rw [ht] at hin ⊢
    exact h.coming u hin (hw u ▸ hg)

/-- One thread and its record change. -/
theorem change (ht : ∀ u ≠ t, s'.thread u = s.thread u)
    (hw : ∀ u ≠ t, s'.obj.waiter u = s.obj.waiter u) (hsane : (s'.thread t).Sane)
    (hcoming : (s'.thread t).inside = true → (s'.obj.waiter t).granted = true → (s'.thread
      t).Coming) : Fit s' := by
  refine ⟨fun u ↦ ?_, fun u hin hg ↦ ?_⟩
  · by_cases hu : u = t
    · exact hu ▸ hsane
    · exact ht u hu ▸ h.sane u
  · by_cases hu : u = t
    · subst hu
      exact hcoming hin hg
    · rw [ht u hu] at hin ⊢
      rw [hw u hu] at hg
      exact h.coming u hin hg

theorem setWaiter (t : T) {f : Waiter → Waiter} (hf : ∀ w, (f w).granted = w.granted)
    : Fit (setWaiter s t f) := by
  refine h.congr rfl fun u ↦ ?_
  have hw : (Rwlock.setWaiter s t f).obj.waiter u =
      if u = t then f (s.obj.waiter t) else s.obj.waiter u := update_apply ..
  rw [hw]
  split_ifs with hu
  · rw [hu, hf]
  · rfl

theorem stop (t : T) : Fit (Rwlock.setWaiter s t fun w ↦ { w with callout := false }) :=
  h.setWaiter t fun _ ↦ rfl

/-- A waiter that is not dying is woken, with or without a grant. -/
theorem wake (hr : (s.thread t).reaped = false) (f : Waiter → Waiter) :
    Fit ((Rwlock.setWaiter s t f).modify t Thread.wakeReady) := by
  have hself : ((Rwlock.setWaiter s t f).modify t Thread.wakeReady).thread t =
      (s.thread t).wakeReady := (thread_modify ..).trans (if_pos rfl)
  have hc := Thread.coming_wakeReady hr
  refine h.change (fun u hu ↦ (thread_modify ..).trans (if_neg hu))
    (fun u hu ↦ update_of_ne hu ..) ?_ fun _ _ ↦ ?_
  · rw [hself]
    exact hc.sane
  · rw [hself]
    exact hc

theorem grantReader (ht : (s.thread t).state ≠ .terminating) : Fit (grantReader s t) := by
  have hs' : Fit { s with obj := { s.obj with readerCount := incI32 s.obj.readerCount } } :=
    h.congr rfl fun _ ↦ rfl
  exact hs'.wake ((h.sane t).not_reaped (.inl ht)) _

omit h in
theorem wakeReadersLoop (ts : List T) (h : Fit s) : Fit (wakeReadersLoop s ts) := by
  induction ts generalizing s with
  | nil => exact h
  | cons t ts ih =>
    rw [Rwlock.wakeReadersLoop]
    split_ifs with ht
    · exact ih h
    · exact ih (h.grantReader ht)

theorem wakeReadersLocked : Fit (wakeReadersLocked s) := by
  have hs' : Fit { s with obj := { s.obj with readerWaitq := [] } } := h.congr rfl fun _ ↦ rfl
  exact hs'.wakeReadersLoop _

omit h in
theorem wakeWriterLoop (ts : List T) (h : Fit s) : ∀ s' ∈ wakeWriterLoop s ts, Fit s' := by
  induction ts with
  | nil => nofun
  | cons t ts ih =>
    intro s' hs'
    rw [Rwlock.wakeWriterLoop] at hs'
    split_ifs at hs' with ht
    · exact ih s' hs'
    · cases hs'
      rw [grantWriter]
      refine wake ?_ ?_ _
      · exact h.congr rfl fun _ ↦ rfl
      · exact (h.sane t).not_reaped (.inl ht)

theorem wakeWriterOrReaders : Fit (wakeWriterOrReaders s) := by
  rw [Rwlock.wakeWriterOrReaders]
  cases hg : Rwlock.wakeWriterLoop s s.obj.writerWaitq with
  | some s' => exact h.wakeWriterLoop _ s' hg
  | none =>
    refine wakeReadersLocked ?_
    exact h.congr rfl fun _ ↦ rfl

theorem leaveQueue (t : T) : Fit (leaveQueue s t) := by
  have hdel : Fit (listDel s t) := h.congr rfl fun _ ↦ rfl
  have hs' : Fit { listDel s t with obj := { (listDel s t).obj with writerPending := false } } :=
    h.congr rfl fun _ ↦ rfl
  rw [Rwlock.leaveQueue, repair]
  split_ifs
  · exact hs'.wakeReadersLocked
  · exact hs'
  · exact hdel
  · exact hdel

theorem rwWaitCleanup (t : T) : Fit (rwWaitCleanup s t) :=
  (h.stop t).leaveQueue t

theorem unblock (t : T) : Fit (s.modify t (·.unblock .blocked)) := by
  have hself : (s.modify t (·.unblock .blocked)).thread t = (s.thread t).unblock .blocked :=
    (thread_modify ..).trans (if_pos rfl)
  refine h.change (fun u hu ↦ (thread_modify ..).trans (if_neg hu)) (fun _ _ ↦ rfl) ?_ ?_
  · rw [hself]
    intro hr
    obtain ⟨hst, hc⟩ := h.sane t hr
    refine ⟨?_, hc⟩
    rw [Thread.unblock, hst]
    rfl
  · rw [hself]
    exact nofun

theorem finish (t : T) : Fit (finish s t) := by
  rw [Rwlock.finish]
  refine unblock ?_ t
  split_ifs
  · exact (h.stop t).congr rfl fun _ ↦ rfl
  · exact (h.stop t).leaveQueue t

theorem loopBody (t : T) : Fit (loopBody s t) := by
  rw [Rwlock.loopBody]
  split_ifs
  · exact h.finish t
  · exact h

theorem take (t : T) (m : Mode) : Fit (take s t m) := by
  cases m <;> exact h.congr rfl fun _ ↦ rfl

theorem lock (hr : (s.thread t).reaped = false) (m : Mode) (timed : Bool) :
    Fit (lock s t m timed) := by
  rw [Rwlock.lock]
  split_ifs
  · exact h.take t m
  · refine loopBody ?_ t
    have henq : Fit (enqueue s t m) := by cases m <;> exact h.congr rfl fun _ ↦ rfl
    have hthread : (enqueue s t m).thread = s.thread := by cases m <;> rfl
    have hself : (block s t m timed).thread t = (s.thread t).block .blocked := by
      rw [block, thread_modify, if_pos rfl, Rwlock.setWaiter, hthread]
    refine henq.change (t := t) (fun u hu ↦ (thread_modify ..).trans (if_neg hu))
      (fun u hu ↦ update_of_ne hu ..) ?_ fun _ hg ↦ ?_
    · rw [hself]
      exact fun hr' ↦ by cases hr.symm.trans hr'
    · have hw : (block s t m timed).obj.waiter t = ⟨m, false, timed, false⟩ :=
        update_self ..
      rw [hw] at hg
      cases hg

theorem unlock (t : T) : Fit (unlock s t) := by
  rw [Rwlock.unlock, unlockWriter, unlockReader]
  split_ifs
  · refine wakeReadersLocked ?_
    exact h.congr rfl fun _ ↦ rfl
  · refine wakeWriterOrReaders ?_
    exact h.congr rfl fun _ ↦ rfl
  · refine wakeWriterOrReaders ?_
    exact h.congr rfl fun _ ↦ rfl
  · exact h.congr rfl fun _ ↦ rfl
  · exact h.congr rfl fun _ ↦ rfl

omit h

section Steps

variable [Fintype T] {lo : ℤ}

theorem rwTimeoutFn (h : Fit s) (hsound : Sound lo s) (t : T) : Fit (rwTimeoutFn s t) := by
  rw [Rwlock.rwTimeoutFn]
  split_ifs with hdue
  · refine ((h.stop t).leaveQueue t).wake ?_ _
    rw [(leaveQueue_self (hsound.stop t) t).2.2]
    exact (h.sane t).not_reaped (.inl hdue.2.2)
  · exact h.stop t

/-- A thread that is switched away from for the last time has no grant. -/
theorem reap (h : Fit s) (hsound : Sound lo s) (hdying : (s.thread t).state = .terminating) :
    Fit ((runCleanup Rwlock.rwWaitCleanup s t).modify t
      fun d ↦ { d with onCpu := false, reaped := true }) := by
  have hmod : ∀ {a : Sys T} {f : Thread → Thread}, Fit a →
      (f (a.thread t)).inside = (s.thread t).inside →
      (a.obj.waiter t).granted = (s.obj.waiter t).granted → (f (a.thread t)).Sane →
      Fit (a.modify t f) := by
    intro a f ha hin hg hsane
    refine ha.change (fun u hu ↦ (thread_modify ..).trans (if_neg hu)) (fun _ _ ↦ rfl)
      ?_ ?_
    · rw [thread_modify, if_pos rfl]
      exact hsane
    · intro hin' hg'
      rw [thread_modify, if_pos rfl, hin] at hin'
      exact absurd hdying (h.coming t hin' (hg ▸ hg')).not_terminating
  rw [runCleanup]
  split_ifs
  · have hclear : Fit (s.modify t fun d ↦ { d with blockCleanup := false }) :=
      hmod h rfl rfl (h.sane t)
    have hself : (s.modify t fun d ↦ { d with blockCleanup := false }).thread t =
        { s.thread t with blockCleanup := false } := (thread_modify ..).trans (if_pos rfl)
    obtain ⟨hg, ht⟩ := rwWaitCleanup_self
      (hsound.modify (f := fun d ↦ { d with blockCleanup := false }) t fun _ ↦ rfl) t
    refine hmod (hclear.rwWaitCleanup t) ?_ hg ?_
    · rw [ht, hself]
    · rw [ht, hself]
      exact fun _ ↦ ⟨hdying, rfl⟩
  · exact hmod h rfl rfl fun _ ↦ ⟨hdying, rfl⟩

theorem envStep {e : Env T} (h : Fit s) (hsound : Sound lo s) (hK : Spared s (.env e))
    (hstep : envStep Rwlock.rwWaitCleanup s e = some s') : Fit s' := by
  rcases envStep_cases hstep with hq | ⟨t, l, l', -, -, rfl⟩ | ⟨t, -, hdying, rfl⟩
  · refine ⟨fun u ↦ (hq.thread u).sane (h.sane u), fun u hin hg ↦ ?_⟩
    rw [(hq.thread u).inside] at hin
    rw [hq.obj] at hg
    refine (hq.thread u).coming ?_ (h.coming u hin hg)
    rintro rfl
    exact hK ⟨hin, hg⟩
  · have hs' : Fit { s with nudges := l } := h.congr rfl fun _ ↦ rfl
    exact (hs'.rwWaitCleanup t).congr rfl fun _ ↦ rfl
  · exact h.reap hsound hdying

theorem step {e : Event T} (h : Fit s) (hsound : Sound lo s) (hK : Spared s e)
    (hstep : step s e = some s') : Fit s' := by
  cases e with
  | env e => exact h.envStep hsound hK hstep
  | lock t m timed =>
    obtain ⟨hcall, rfl⟩ := of_guard hstep
    exact h.lock hcall.1.2.1 m timed
  | tryLock t m =>
    obtain ⟨-, rfl⟩ := of_guard hstep
    rw [tryLock]
    split_ifs
    · exact h.take t m
    · exact h
  | resume t =>
    obtain ⟨-, rfl⟩ := of_guard hstep
    exact h.loopBody t
  | timeout t =>
    obtain ⟨-, rfl⟩ := of_guard hstep
    exact h.rwTimeoutFn hsound t
  | unlock t =>
    obtain ⟨-, rfl⟩ := of_guard hstep
    exact h.unlock t

end Steps

end Fit

/-- The count stands for the threads that hold the lock and those that were granted it, and each of
the latter will run and then hold it. -/
def Accounted [Fintype T] (s : Sys T) : Prop :=
  (s.obj.readerCount = -1 ∧ total s .read = 0 ∧ total s .write = 1 ∨
    0 ≤ s.obj.readerCount ∧ s.obj.readerCount = total s .read ∧ total s .write = 0) ∧
  ∀ t, (s.thread t).inside = true → (s.obj.waiter t).granted = true → (s.thread t).Coming ∧
    ((s.thread t).Runs → ∃ s', step s (.resume t) = some s' ∧
      s'.obj.holds t (s.obj.waiter t).mode = s.obj.holds t (s.obj.waiter t).mode + 1)

/-- **No grant is lost**, when waiters are not killed between grant and return. -/
theorem grants_accounted [Fintype T] (hT : Fintype.card T ≤ 2 ^ 27) (h : Reach Spared s) :
    Accounted s := by
  obtain ⟨hsound, hfit⟩ : Sound (-1) s ∧ Fit s := by
    refine h.invariant (P := fun s ↦ Sound (-1) s ∧ Fit s) ?_ ?_
    · exact ⟨.boot le_rfl, fun _ ↦ nofun, nofun⟩
    · intro a e b ⟨hs, hf⟩ hK hstep
      exact ⟨hs.step hT (.inr hK) hstep, hf.step hs hK hstep⟩
  refine ⟨?_, fun t hin hg ↦ ⟨hfit.coming t hin hg, fun hrun ↦ ?_⟩⟩
  · have hl := hsound.ledger
    unfold Ledger at hl
    omega
  · refine ⟨loopBody s t, if_pos ⟨hrun, hin⟩, ?_⟩
    rw [loopBody, if_pos (.inl hg), finish, if_pos hg]
    change update s.obj.holds t (update (s.obj.holds t) _ _) t _ = _
    rw [update_self, update_self]
    rfl

/-- A reader is granted the lock that a writer lets go. -/
theorem grants_accounted_reader : ∃ s : Sys (Fin 2), Reach Spared s ∧
    (s.thread 1).inside = true ∧ (s.obj.waiter 1).granted = true ∧ s.obj.readerCount = 1 ∧
    Accounted s := by
  obtain ⟨s, hs, hin, hg, hrc⟩ : ∃ s : Sys (Fin 2), Reach Spared s ∧
      (s.thread 1).inside = true ∧ (s.obj.waiter 1).granted = true ∧ s.obj.readerCount = 1 :=
    exists_run step Spared _ [.env (.dispatch 0), .lock 0 .write false, .env (.dispatch 1),
      .lock 1 .read false, .unlock 0] (by decide +kernel)
  exact ⟨s, hs, hin, hg, hrc, grants_accounted (by decide) hs⟩

/-- The reader is killed when it has been picked and has not looked at its record yet: the count
stays at one. -/
theorem not_grants_accounted : ¬∀ s : Sys (Fin 2), Reach (fun _ _ ↦ True) s → Accounted s := by
  intro hall
  obtain ⟨s, hs, hin, hg, hr⟩ : ∃ s : Sys (Fin 2), Reach (fun _ _ ↦ True) s ∧
      (s.thread 1).inside = true ∧ (s.obj.waiter 1).granted = true ∧
      (s.thread 1).reaped = true :=
    exists_run step (fun _ _ ↦ True) _ [.env (.dispatch 0), .lock 0 .write false,
      .env (.dispatch 1), .lock 1 .read false, .env (.schedule 1), .unlock 0, .env (.dispatch 1),
      .env (.kill 1), .env (.schedule 1)] (by decide +kernel)
  obtain ⟨hc, -⟩ := (hall s hs).2 1 hin hg
  cases hr.symm.trans hc.1

/-! ## Queues -/

/-- The last queued writer goes while readers hold the lock and others wait behind it. -/
def Strands (s : Sys T) (t : T) : Prop :=
  s.obj.writerWaitq = [t] ∧ 0 < s.obj.readerCount ∧ s.obj.readerWaitq ≠ []

instance (s : Sys T) (t : T) : Decidable (Strands s t) := inferInstanceAs (Decidable (_ ∧ _ ∧ _))

/-- No writer leaves the queue that way: by a callback, a timeout or an abort. -/
def Considerate (s : Sys T) : Event T → Prop
  | .env (.nudge t .cleanup) => ¬Strands s t
  | .env (.schedule t) => (s.thread t).state = .terminating → ¬Strands s t
  | .timeout t => (s.thread t).state ≠ .terminating → ¬Strands s t
  | .resume t => (s.obj.waiter t).timedOut = true ∨ (s.thread t).abort = true → ¬Strands s t
  | _ => True

instance (s : Sys T) (e : Event T) : Decidable (Considerate s e) := by
  unfold Considerate
  split <;> infer_instance

/-- Who can have the lock is not queued for it. -/
structure Served (s : Sys T) : Prop where
  pending : s.obj.writerPending = !s.obj.writerWaitq.isEmpty
  free : s.obj.readerCount = 0 → s.obj.readerWaitq = [] ∧ s.obj.writerWaitq = []
  shared : 0 < s.obj.readerCount → s.obj.writerWaitq = [] → s.obj.readerWaitq = []

namespace Served

omit [DecidableEq T] in
theorem congr (h : Served s) (hrc : s'.obj.readerCount = s.obj.readerCount)
    (hr : s'.obj.readerWaitq = s.obj.readerWaitq) (hw : s'.obj.writerWaitq = s.obj.writerWaitq)
    (hp : s'.obj.writerPending = s.obj.writerPending) : Served s' := by
  refine ⟨?_, ?_, ?_⟩
  · rw [hp, hw, h.pending]
  · rw [hrc, hr, hw]
    exact h.free
  · rw [hrc, hr, hw]
    exact h.shared

omit [DecidableEq T] in
/-- Both queues are empty. -/
theorem of_empty (hr : s.obj.readerWaitq = []) (hw : s.obj.writerWaitq = [])
    (hp : s.obj.writerPending = false) : Served s where
  pending := by rw [hp, hw]; rfl
  free _ := ⟨hr, hw⟩
  shared _ _ := hr

theorem wakeReadersLocked (hw : s.obj.writerWaitq = []) (hp : s.obj.writerPending = false) :
    Served (wakeReadersLocked s) := by
  obtain ⟨hr', hw', hp'⟩ := queues_wakeReadersLocked s
  exact of_empty hr' (hw'.trans hw) (hp'.trans hp)

theorem wakeWriterOrReaders (s : Sys T) : Served (wakeWriterOrReaders s) := by
  have hgrant : ∀ ts, ∀ s' ∈ wakeWriterLoop s ts, Served s' := by
    intro ts
    induction ts with
    | nil =>
      intro s' hs'
      cases hs'
    | cons t ts ih =>
      intro s' hs'
      rw [wakeWriterLoop] at hs'
      split_ifs at hs'
      · exact ih s' hs'
      · cases hs'
        refine ⟨rfl, fun hp ↦ ?_, fun hp ↦ ?_⟩
        · cases hp
        · cases hp
  rw [Rwlock.wakeWriterOrReaders]
  cases hg : wakeWriterLoop s s.obj.writerWaitq with
  | some s' => exact hgrant _ s' hg
  | none => exact wakeReadersLocked rfl rfl

variable (h : Served s)

include h

/-- A waiter leaves the queue. -/
theorem leaveQueue (hK : ¬Strands s t)
    (hm : t ∈ s.obj.writerWaitq → (s.obj.waiter t).mode = .write) : Served (leaveQueue s t) := by
  have hfree : s.obj.readerCount = 0 → s.obj.readerWaitq.erase t = [] ∧
      s.obj.writerWaitq.erase t = [] := by
    intro h0
    obtain ⟨hr, hw⟩ := h.free h0
    rw [hr, hw]
    exact ⟨rfl, rfl⟩
  rw [Rwlock.leaveQueue, repair]
  split_ifs with hmode hempty h0
  · exact wakeReadersLocked hempty rfl
  · -- the last writer goes, and the readers are not woken
    have hempty' : s.obj.writerWaitq.erase t = [] := hempty
    refine ⟨?_, fun h0' ↦ absurd h0' h0, fun hpos _ ↦ ?_⟩
    · change false = !(s.obj.writerWaitq.erase t).isEmpty
      rw [hempty']
      rfl
    · change s.obj.readerWaitq.erase t = []
      have hr : s.obj.readerWaitq = [] := by
        rcases erase_eq_nil_iff.mp hempty' with hw | hw
        · exact h.shared hpos hw
        · by_contra hr
          exact hK ⟨hw, hpos, hr⟩
      rw [hr]
      rfl
  · -- other writers are queued
    have hne : s.obj.writerWaitq.erase t ≠ [] := hempty
    refine ⟨?_, hfree, fun _ hw ↦ absurd hw hne⟩
    have hne' : s.obj.writerWaitq ≠ [] := fun hw ↦ hne (by rw [hw]; rfl)
    change s.obj.writerPending = !(s.obj.writerWaitq.erase t).isEmpty
    rw [h.pending, isEmpty_eq_false_iff.mpr hne, isEmpty_eq_false_iff.mpr hne']
  · have hw : s.obj.writerWaitq.erase t = s.obj.writerWaitq :=
      erase_of_not_mem fun hmem ↦ hmode (hm hmem)
    refine ⟨?_, hfree, fun hpos hw' ↦ ?_⟩
    · change s.obj.writerPending = !(s.obj.writerWaitq.erase t).isEmpty
      rw [hw, h.pending]
    · change s.obj.readerWaitq.erase t = []
      rw [h.shared hpos (hw.symm.trans hw')]
      rfl

theorem rwWaitCleanup (hK : ¬Strands s t)
    (hm : t ∈ s.obj.writerWaitq → (s.obj.waiter t).mode = .write) : Served (rwWaitCleanup s t) := by
  refine leaveQueue ?_ hK fun hmem ↦ ?_
  · exact h.congr rfl rfl rfl rfl
  · have hself : (setWaiter s t fun w ↦ { w with callout := false }).obj.waiter t =
        { s.obj.waiter t with callout := false } := update_self ..
    rw [hself]
    exact hm hmem

/-- A waiter that goes with a grant is on no queue. -/
theorem finish (hl : (s.obj.waiter t).granted = true → ¬Linked s t)
    (hK : (s.obj.waiter t).granted = false → ¬Strands s t)
    (hm : t ∈ s.obj.writerWaitq → (s.obj.waiter t).mode = .write) : Served (finish s t) := by
  rw [Rwlock.finish]
  split_ifs with hg
  · obtain ⟨hr, hw⟩ := not_or.mp (hl hg)
    exact h.congr rfl (erase_of_not_mem hr) (erase_of_not_mem hw) rfl
  · exact (h.rwWaitCleanup (hK (Bool.eq_false_iff.mpr hg)) hm).congr rfl rfl rfl rfl

theorem take {m : Mode} (hfree : Free s m) (t : T) : Served (take s t m) := by
  cases m with
  | read =>
    obtain ⟨h0, hp⟩ := hfree
    have hw : s.obj.writerWaitq = [] := by
      rw [h.pending, Bool.not_eq_false', List.isEmpty_iff] at hp
      exact hp
    have hr : s.obj.readerWaitq = [] := by
      rcases h0.eq_or_lt with h0 | h0
      · exact (h.free h0.symm).1
      · exact h.shared h0 hw
    exact of_empty hr hw hp
  | write =>
    obtain ⟨hr, hw⟩ := h.free hfree
    refine of_empty hr hw ?_
    exact h.pending.trans (by rw [hw]; rfl)

theorem block {m : Mode} (hbusy : ¬Free s m) (t : T) (timed : Bool) :
    Served (block s t m timed) := by
  cases m with
  | read =>
    refine ⟨h.pending, fun h0 ↦ ?_, fun hpos hw ↦ ?_⟩
    · obtain ⟨-, hw⟩ := h.free h0
      have hp : s.obj.writerPending = false := by rw [h.pending, hw]; rfl
      exact absurd ⟨h0.ge, hp⟩ hbusy
    · have hp : s.obj.writerPending = false := by
        rw [h.pending, show s.obj.writerWaitq = [] from hw]
        rfl
      exact absurd ⟨hpos.le, hp⟩ hbusy
  | write =>
    refine ⟨?_, fun h0 ↦ absurd h0 hbusy, fun _ hw ↦ ?_⟩
    · change true = !(s.obj.writerWaitq ++ [t]).isEmpty
      have hne := append_ne_nil_of_right_ne_nil s.obj.writerWaitq (cons_ne_nil t [])
      rw [isEmpty_eq_false_iff.mpr hne]
      rfl
    · cases (append_eq_nil_iff.mp hw).2

theorem unlock (t : T) : Served (unlock s t) := by
  rw [Rwlock.unlock, unlockWriter, unlockReader]
  split_ifs with hneg hq hpos h0
  · refine wakeReadersLocked hq ?_
    exact h.pending.trans (by rw [hq]; rfl)
  · exact wakeWriterOrReaders _
  · exact wakeWriterOrReaders _
  · refine ⟨h.pending, fun h0' ↦ ?_, fun hpos' hw ↦ h.shared hpos hw⟩
    -- the last reader goes and no writer is pending
    have hp : s.obj.writerPending = false := Bool.eq_false_iff.mpr fun hp ↦ h0 ⟨h0', hp⟩
    have hw : s.obj.writerWaitq = [] := by
      rw [h.pending, Bool.not_eq_false', List.isEmpty_iff] at hp
      exact hp
    exact ⟨h.shared hpos hw, hw⟩
  · exact h.congr rfl rfl rfl rfl

variable [Fintype T] {lo : ℤ}

theorem envStep {e : Env T} (hsound : Sound lo s) (hK : Considerate s (.env e))
    (hstep : envStep Rwlock.rwWaitCleanup s e = some s') : Served s' := by
  have hmode : ∀ u, u ∈ s.obj.writerWaitq → (s.obj.waiter u).mode = .write :=
    fun u hu ↦ (hsound.writer u hu).2.2
  rcases envStep_cases hstep with hq | ⟨t, l, l', rfl, -, rfl⟩ | ⟨t, rfl, hdying, rfl⟩
  · refine h.congr ?_ ?_ ?_ ?_ <;> rw [hq.obj]
  · have hs' : Served { s with nudges := l } := h.congr rfl rfl rfl rfl
    exact (hs'.rwWaitCleanup hK (hmode t)).congr rfl rfl rfl rfl
  · have hcl : Served (runCleanup Rwlock.rwWaitCleanup s t) := by
      rw [runCleanup]
      split_ifs
      · refine rwWaitCleanup ?_ (hK hdying) (hmode t)
        exact h.congr rfl rfl rfl rfl
      · exact h
    exact hcl.congr rfl rfl rfl rfl

theorem loopBody (hsound : Sound lo s)
    (hK : (s.obj.waiter t).timedOut = true ∨ (s.thread t).abort = true → ¬Strands s t) :
    Served (loopBody s t) := by
  rw [Rwlock.loopBody]
  split_ifs with hgo
  · refine h.finish (fun hg ↦ hsound.not_linked (.inr hg)) (fun hg ↦ ?_)
      fun hmem ↦ (hsound.writer t hmem).2.2
    refine hK (hgo.resolve_left fun hg' ↦ ?_)
    cases hg.symm.trans hg'
  · exact h

theorem lock (hsound : Sound lo s) (hin : (s.thread t).inside = false) (m : Mode) (timed : Bool)
    : Served (lock s t m timed) := by
  rw [Rwlock.lock]
  split_ifs with hfree
  · exact h.take hfree t
  · refine (h.block hfree t timed).loopBody (hsound.block hin m timed) fun _ ↦ ?_
    -- a writer that goes at once was not in anybody's way
    rintro ⟨hw, hpos, hr⟩
    cases m with
    | read =>
      have hw' : s.obj.writerWaitq = [t] := hw
      exact hsound.not_linked (.inl hin) (.inr (hw' ▸ mem_singleton_self t))
    | write =>
      have hw' : s.obj.writerWaitq ++ [t] = [] ++ [t] := hw
      exact hr (h.shared hpos (append_cancel_right hw'))

theorem step {e : Event T} (hsound : Sound lo s) (hK : Considerate s e)
    (hstep : step s e = some s') : Served s' := by
  cases e with
  | env e => exact h.envStep hsound hK hstep
  | lock t m timed =>
    obtain ⟨hcall, rfl⟩ := of_guard hstep
    exact h.lock hsound hcall.2 m timed
  | tryLock t m =>
    obtain ⟨-, rfl⟩ := of_guard hstep
    rw [tryLock]
    split_ifs with hfree
    · exact h.take hfree t
    · exact h
  | resume t =>
    obtain ⟨-, rfl⟩ := of_guard hstep
    exact h.loopBody hsound hK
  | timeout t =>
    obtain ⟨-, rfl⟩ := of_guard hstep
    have hs' : Served (setWaiter s t fun w ↦ { w with callout := false }) :=
      h.congr rfl rfl rfl rfl
    rw [rwTimeoutFn]
    split_ifs with hdue
    · exact (h.rwWaitCleanup (hK hdue.2.2) fun hmem ↦ (hsound.writer t hmem).2.2).congr
        rfl rfl rfl rfl
    · exact hs'
  | unlock t =>
    obtain ⟨-, rfl⟩ := of_guard hstep
    exact h.unlock t

end Served

/-- Nobody is left on a queue of a lock that it could have, asleep and without a wake-up on its
way. -/
def NoneStranded (s : Sys T) : Prop :=
  (s.obj.readerCount = 0 → ∀ t, Linked s t → (s.thread t).Coming) ∧
    (0 < s.obj.readerCount → s.obj.writerWaitq = [] →
      ∀ t ∈ s.obj.readerWaitq, (s.thread t).Coming)

/-- **No lost wake-up**, when no queued writer leaves readers behind. -/
theorem none_stranded [Fintype T] (hT : Fintype.card T ≤ 2 ^ 27) (h : Reach Considerate s) :
    NoneStranded s := by
  obtain ⟨-, hs⟩ : Sound (-2 ^ 31) s ∧ Served s := by
    refine h.invariant (P := fun s ↦ Sound (-2 ^ 31) s ∧ Served s)
      ⟨.boot (by decide), .of_empty rfl rfl rfl⟩ ?_
    intro a e b ⟨hsound, hserved⟩ hK hstep
    exact ⟨hsound.step hT (.inl rfl) hstep, hserved.step hsound hK hstep⟩
  refine ⟨fun h0 t hl ↦ ?_, fun hpos hw t ht ↦ ?_⟩
  · obtain ⟨hr, hw⟩ := hs.free h0
    rw [Linked, hr, hw] at hl
    exact absurd hl (by simp)
  · rw [hs.shared hpos hw] at ht
    cases ht

/-- A writer gives up while another one waits; the lock then goes to that one. -/
theorem none_stranded_abort : ∃ s : Sys (Fin 3), Reach Considerate s ∧
    s.obj.writerWaitq = [] ∧ (s.obj.waiter 2).granted = true ∧ NoneStranded s := by
  obtain ⟨s, hs, hw, hg⟩ : ∃ s : Sys (Fin 3), Reach Considerate s ∧
      s.obj.writerWaitq = [] ∧ (s.obj.waiter 2).granted = true :=
    exists_run step Considerate _ [.env (.dispatch 0), .lock 0 .read false, .env (.dispatch 1),
      .lock 1 .write true, .env (.dispatch 2), .lock 2 .write false, .timeout 1, .unlock 0]
      (by decide +kernel)
  exact ⟨s, hs, hw, hg, none_stranded (by decide) hs⟩

/-- A reader holds the lock, a writer waits for it and a second reader waits behind the writer. The
writer's time is up: the second reader sleeps on, also when the first has unlocked. -/
theorem not_none_stranded : ¬∀ s : Sys (Fin 3), Reach (fun _ _ ↦ True) s → NoneStranded s := by
  intro hall
  obtain ⟨s, hs, h0, hl, hst⟩ : ∃ s : Sys (Fin 3), Reach (fun _ _ ↦ True) s ∧
      s.obj.readerCount = 0 ∧ Linked s 2 ∧ (s.thread 2).state = .blocked :=
    exists_run step (fun _ _ ↦ True) _ [.env (.dispatch 0), .lock 0 .read false,
      .env (.dispatch 1), .lock 1 .write true, .env (.schedule 1), .env (.dispatch 2),
      .lock 2 .read false, .env (.schedule 2), .timeout 1, .env (.dispatch 1), .resume 1,
      .unlock 0] (by decide +kernel)
  exact (hall s hs).1 h0 2 hl |>.not_sleeps (.inl hst)

end Mazu.Sync.Rwlock
