import Mazu.Sync.Semaphore

/-!
# Waiters that stay registered

A thread that waits for a semaphore is on its queue, or it is on its way out with a token, a timeout
or an abort. A nudge takes the thread off the queue before anything has decided that its wait ends;
the waiting loop does not put it back, and does not look at the count again either.

The runs are those in which no thread is killed.
-/

namespace Mazu.Sync.Semaphore

open Function List

set_option linter.unusedSectionVars false

variable {T : Type} [DecidableEq T] {s s' : Sys T} {t : T}

/-- The next pass of the thread's loop ends its wait. -/
def Due (s : Sys T) (u : T) : Prop :=
  (s.obj.waiter u).granted = true ∨ (s.obj.waiter u).timedOut = true ∨
    (s.obj.waiter u).call ≠ .plain ∧ (s.thread u).Cancelled

instance (s : Sys T) (u : T) : Decidable (Due s u) := by
  unfold Due Thread.Cancelled
  infer_instance

/-- The thread will run again: it is coming, or a wake-up is in flight. -/
def Stirred (s : Sys T) (u : T) : Prop := (s.thread u).Coming ∨ (u, .wake) ∈ s.nudges

structure Registered (s : Sys T) : Prop where
  nodup : s.obj.waiters.Nodup
  linked : ∀ u ∈ s.obj.waiters, (s.thread u).inside = true ∧ (s.obj.waiter u).granted = false
  alive : ∀ u, (s.thread u).state ≠ .terminating ∧ (s.thread u).reaped = false
  placed : ∀ u, (s.thread u).Sleeps ∨ (s.thread u).Coming
  waits : ∀ u, (s.thread u).inside = true → u ∈ s.obj.waiters ∨ Due s u ∧ Stirred s u
  count : s.obj.waiters ≠ [] → s.obj.count ≤ 0

namespace Registered

variable (h : Registered s)

include h

/-- Nothing changes that is read here. -/
theorem congr (ht : s'.thread = s.thread)
    (hn : ∀ u, (u, NudgePc.wake) ∈ s.nudges → (u, NudgePc.wake) ∈ s'.nudges)
    (hq : s'.obj.waiters = s.obj.waiters) (hc : s'.obj.count = s.obj.count)
    (hw : ∀ u, (s'.obj.waiter u).granted = (s.obj.waiter u).granted ∧ (s'.obj.waiter u).timedOut =
      (s.obj.waiter u).timedOut ∧ (s'.obj.waiter u).call = (s.obj.waiter u).call)
    : Registered s' where
  nodup := hq ▸ h.nodup
  linked u hu := by
    rw [ht, (hw u).1]
    exact h.linked u (hq ▸ hu)
  alive := ht ▸ h.alive
  placed := ht ▸ h.placed
  waits u hin := by
    rw [ht] at hin
    rw [hq]
    refine (h.waits u hin).imp_right fun ⟨hd, hs⟩ ↦ ⟨?_, ?_⟩
    · rw [Due, ht, (hw u).1, (hw u).2.1, (hw u).2.2]
      exact hd
    · rw [Stirred, ht]
      exact hs.imp_right (hn u)
  count := by
    rw [hq, hc]
    exact h.count

/-- One thread changes, which is on the queue no more. -/
theorem change (ht : ∀ u ≠ t, s'.thread u = s.thread u)
    (hw : ∀ u ≠ t, s'.obj.waiter u = s.obj.waiter u) (hn : s'.nudges = s.nudges)
    (hq : s'.obj.waiters.Sublist s.obj.waiters) (hnot : t ∉ s'.obj.waiters)
    (hkeep : ∀ u ≠ t, u ∈ s.obj.waiters → u ∈ s'.obj.waiters)
    (hc : s'.obj.waiters ≠ [] → s'.obj.count = s.obj.count)
    (hal : (s'.thread t).state ≠ .terminating ∧ (s'.thread t).reaped = false)
    (hpl : (s'.thread t).Sleeps ∨ (s'.thread t).Coming)
    (hwt : (s'.thread t).inside = true → Due s' t ∧ Stirred s' t) : Registered s' where
  nodup := h.nodup.sublist hq
  linked u hu := by
    have hut : u ≠ t := fun hut ↦ hnot (hut ▸ hu)
    rw [ht u hut, hw u hut]
    exact h.linked u (hq.subset hu)
  alive u := by
    by_cases hut : u = t
    · exact hut ▸ hal
    · exact ht u hut ▸ h.alive u
  placed u := by
    by_cases hut : u = t
    · exact hut ▸ hpl
    · exact ht u hut ▸ h.placed u
  waits u hin := by
    by_cases hut : u = t
    · subst hut
      exact .inr (hwt hin)
    · rw [ht u hut] at hin
      refine (h.waits u hin).imp (hkeep u hut) fun ⟨hd, hs⟩ ↦ ⟨?_, ?_⟩
      · rw [Due, ht u hut, hw u hut]
        exact hd
      · rw [Stirred, ht u hut, hn]
        exact hs
  count hne := by
    rw [hc hne]
    refine h.count fun hnil ↦ hne ?_
    exact sublist_nil.mp (hnil ▸ hq)

theorem dropCallout (t : T) : Registered (dropCallout s t) := by
  refine h.congr rfl (fun _ ↦ id) rfl rfl fun u ↦ ?_
  have hw : (Semaphore.dropCallout s t).obj.waiter u =
      if u = t then { s.obj.waiter t with callout := false } else s.obj.waiter u :=
    update_apply ..
  rw [hw]
  split_ifs with hu
  · rw [hu]
    exact ⟨rfl, rfl, rfl⟩
  · exact ⟨rfl, rfl, rfl⟩

/-! ## Tokens -/

theorem grant {rest : List T} (hq : s.obj.waiters = t :: rest) : Registered (grant s t rest) := by
  have hnodup := nodup_cons.mp (hq ▸ h.nodup)
  have hth : (Semaphore.grant s t rest).thread t = (s.thread t).wakeReady :=
    update_self ..
  have hc : ((Semaphore.grant s t rest).thread t).Coming := by
    rw [hth]
    exact Thread.coming_wakeReady (h.alive t).2
  refine h.change (t := t) (fun u hu ↦ update_of_ne hu ..)
    (fun u hu ↦ update_of_ne hu ..) rfl (hq ▸ sublist_cons_self ..) hnodup.1
    (fun u hu hmem ↦ ?_) (fun _ ↦ rfl) ⟨hc.not_terminating, hc.1⟩ (.inr hc)
    fun _ ↦ ⟨.inl ?_, .inl hc⟩
  · exact (mem_cons.mp (hq ▸ hmem)).resolve_left hu
  · exact congrArg Waiter.granted (update_self (β := fun _ ↦ Waiter) t _ _)

theorem putBack (hq : s.obj.waiters = []) : Registered (putBack s) where
  nodup := nodup_nil
  linked := nofun
  alive := h.alive
  placed := h.placed
  waits u hin := (h.waits u hin).imp_left fun hl ↦ by rw [hq] at hl; cases hl
  count := nofun

/-- As no thread is dying, the token goes to the first waiter. -/
theorem handOn : Registered (handOn s s.obj.waiters) := by
  cases hq : s.obj.waiters with
  | nil => exact h.putBack hq
  | cons t ts =>
    rw [Semaphore.handOn, if_neg (h.alive t).1]
    exact h.grant hq

theorem semPost : Registered (semPost s) := by
  rw [Semaphore.semPost]
  split
  · next hq => exact (h.putBack hq).congr rfl (fun _ ↦ id) rfl rfl fun _ ↦ ⟨rfl, rfl, rfl⟩
  · next t ts hq => exact (h.grant hq).congr rfl (fun _ ↦ id) rfl rfl fun _ ↦ ⟨rfl, rfl, rfl⟩

/-! ## Leaving the queue -/

/-- A thread leaves the queue and its wait ends, or is due to. -/
theorem leave (hth : ∀ u ≠ t, s'.thread u = s.thread u)
    (hw : ∀ u ≠ t, s'.obj.waiter u = s.obj.waiter u) (hn : s'.nudges = s.nudges)
    (hq : s'.obj.waiters = s.obj.waiters.erase t) (hc : s'.obj.count = s.obj.count)
    (hal : (s'.thread t).state ≠ .terminating ∧ (s'.thread t).reaped = false)
    (hpl : (s'.thread t).Sleeps ∨ (s'.thread t).Coming)
    (hwt : (s'.thread t).inside = true → Due s' t ∧ Stirred s' t) : Registered s' := by
  refine h.change hth hw hn ?_ ?_ ?_ (fun _ ↦ hc) hal hpl hwt <;> rw [hq]
  · exact erase_sublist ..
  · exact h.nodup.not_mem_erase
  · exact fun u hu ↦ (mem_erase_of_ne hu).mpr

theorem semTimeoutFn (t : T) : Registered (semTimeoutFn s t) := by
  have hs' := h.dropCallout t
  rw [Semaphore.semTimeoutFn]
  split_ifs
  · have hth : ((setWaiter (listDel (Semaphore.dropCallout s t) t) t
        fun w ↦ { w with timedOut := true }).modify t Thread.wakeReady).thread t =
        (s.thread t).wakeReady := update_self ..
    have hcome := Thread.coming_wakeReady (h.alive t).2
    rw [← hth] at hcome
    refine hs'.leave (t := t) (fun u hu ↦ update_of_ne hu ..)
      (fun u hu ↦ update_of_ne hu ..) rfl rfl rfl ⟨hcome.not_terminating, hcome.1⟩
      (.inr hcome) fun _ ↦ ⟨.inr (.inl ?_), .inl hcome⟩
    exact congrArg Waiter.timedOut (update_self (β := fun _ ↦ Waiter) t _ _)
  · exact hs'

/-- The callback of a waiter whose wait is about to be aborted. -/
theorem cleanupLocked (hwake : (t, .wake) ∈ s.nudges)
    (hK : t ∈ s.obj.waiters → (s.obj.waiter t).call ≠ .plain ∧ (s.thread t).Cancelled) :
    Registered (cleanupLocked s t) := by
  rw [Semaphore.cleanupLocked]
  split_ifs with hl
  · refine h.leave (t := t) (fun _ _ ↦ rfl) (fun _ _ ↦ rfl) rfl rfl rfl (h.alive t) (h.placed t)
      fun _ ↦ ⟨.inr (.inr (hK hl)), .inr hwake⟩
  · exact h.handOn
  · exact h

theorem finish (hrun : (s.thread t).onCpu = true)
    (hst : (s.thread t).state = .semWait ∨ (s.thread t).state = .running) :
    Registered (finish s t) := by
  have hth : (Semaphore.finish s t).thread t = (s.thread t).unblock .semWait :=
    update_self ..
  have hcome : ((Semaphore.finish s t).thread t).Coming := by
    rw [hth]
    refine ⟨(h.alive t).2, .inr ?_, .inr hrun⟩
    rw [Thread.unblock]
    rcases hst with hst | hst <;> rw [hst] <;> rfl
  refine h.leave (t := t) (fun u hu ↦ update_of_ne hu ..)
    (fun u hu ↦ update_of_ne hu ..) rfl rfl rfl ⟨hcome.not_terminating, hcome.1⟩
    (.inr hcome) fun hin ↦ ?_
  rw [hth] at hin
  cases hin

/-! ## Calls -/

theorem block (hcall : Calls s t) (h0 : s.obj.count ≤ 0) (c : Call) : Registered (block s t c) := by
  have hth := thread_block s t c
  have hw := waiter_block s t c
  have hnot : t ∉ s.obj.waiters := by
    intro hl
    cases hcall.2.symm.trans (h.linked t hl).1
  have hself : t ∈ s.obj.waiters ++ [t] := mem_append_right _ (mem_singleton_self t)
  refine ⟨?_, fun u hu ↦ ?_, fun u ↦ ?_, fun u ↦ ?_, fun u hin ↦ ?_, fun _ ↦ h0⟩
  · exact h.nodup.append (nodup_singleton t) (disjoint_singleton.mpr hnot)
  · rw [hth, hw]
    split_ifs with hut
    · exact ⟨rfl, rfl⟩
    · refine h.linked u ((mem_append.mp hu).resolve_right fun hu' ↦ ?_)
      exact hut (mem_singleton.mp hu')
  · rw [hth]
    split_ifs
    · exact ⟨nofun, hcall.1.2.1⟩
    · exact h.alive u
  · rw [hth]
    split_ifs
    · exact .inl (.inr rfl)
    · exact h.placed u
  · by_cases hut : u = t
    · exact .inl (hut ▸ hself)
    · rw [hth, if_neg hut] at hin
      refine (h.waits u hin).imp (mem_append_left _) fun ⟨hd, hs⟩ ↦ ⟨?_, ?_⟩
      · rw [Due, hth, hw, if_neg hut, if_neg hut]
        exact hd
      · rw [Stirred, hth, if_neg hut]
        exact hs

theorem wait (hcall : Calls s t) (c : Call) : Registered (wait s t c) := by
  rw [Semaphore.wait]
  split_ifs with h0
  · refine ⟨h.nodup, h.linked, h.alive, h.placed, h.waits, fun hne ↦ ?_⟩
    have hle := h.count hne
    omega
  · have hb := h.block hcall (not_lt.mp h0) c
    rw [loopBody]
    split_ifs
    · refine hb.finish ?_ (.inl ?_) <;> rw [thread_block, if_pos rfl]
      · exact hcall.1.1
      · rfl
    · exact hb

end Registered

/-- No thread is killed, and a nudge's callback takes a thread off the queue only where its wait is
then aborted: its call looks at cancellation, and cancellation is enabled. -/
def Aborting (s : Sys T) : Event T → Prop
  | .env (.kill _) => False
  | .env (.nudge t .cleanup) => t ∈ s.obj.waiters →
      (s.obj.waiter t).call ≠ .plain ∧ (s.thread t).Cancelled
  | _ => True

instance (s : Sys T) (e : Event T) : Decidable (Aborting s e) := by
  unfold Aborting Thread.Cancelled
  split <;> infer_instance

theorem nudges_handOn (s : Sys T) (l : List (T × NudgePc)) (ts : List T) :
    handOn { s with nudges := l } ts = { handOn s ts with nudges := l } := by
  induction ts with
  | nil => rfl
  | cons t ts ih =>
    rw [handOn, handOn, ih]
    split_ifs <;> rfl

theorem nudges_cleanupLocked (s : Sys T) (l : List (T × NudgePc)) (t : T) :
    cleanupLocked { s with nudges := l } t = { cleanupLocked s t with nudges := l } := by
  rw [cleanupLocked, cleanupLocked, nudges_handOn]
  split_ifs <;> rfl

theorem nudges_semWaitCleanup (s : Sys T) (t : T) : (semWaitCleanup s t).nudges = s.nudges := by
  have h := congrArg (fun a : Sys T ↦ a.nudges)
    (nudges_cleanupLocked (dropCallout s t) s.nudges t)
  exact h

namespace Registered

theorem envStep {e : Env T} (h : Registered s) (hK : Aborting s (.env e))
    (hstep : envStep semWaitCleanup s e = some s') : Registered s' := by
  have hwake := fun u ↦ envStep_wake_mem (u := u) nudges_semWaitCleanup hstep
  have hsane : ∀ u, (s.thread u).Sane := fun u hr ↦ by cases (h.alive u).2.symm.trans hr
  rcases envStep_cases hstep with hq | ⟨t, l, l', rfl, hl', rfl⟩ | ⟨t, rfl, hdying, rfl⟩
  · have hkill : ∀ u, e ≠ .kill u := by
      rintro u rfl
      exact hK
    have hplaced := fun u ↦ (hq.thread u).placed (hkill u) (hsane u) (h.placed u)
    refine ⟨hq.obj ▸ h.nodup, fun u hu ↦ ?_, fun u ↦ ⟨?_, ?_⟩, hplaced, fun u hin ↦ ?_,
      hq.obj ▸ h.count⟩
    · rw [(hq.thread u).inside, hq.obj]
      exact h.linked u (hq.obj ▸ hu)
    · rcases hplaced u with hs | hs <;> exact hs.not_terminating
    · rw [(hq.thread u).reaped]
      exact (h.alive u).2
    · rw [(hq.thread u).inside] at hin
      refine (h.waits u hin).imp (fun hl ↦ hq.obj ▸ hl) fun ⟨hd, hs⟩ ↦ ⟨?_, ?_⟩
      · rw [Due, hq.obj]
        exact hd.imp_right (Or.imp_right (And.imp_right ((hq.thread u).cancelled hin)))
      · rcases hs with hs | hs
        · exact .inl ((hq.thread u).coming (hkill u) hs)
        · rcases hwake u hs with hs | rfl
          · exact .inr hs
          · exact .inl (envStep_wake hstep (hsane u) (h.placed u))
  · have hs' : Registered { Semaphore.dropCallout s t with nudges := l' } :=
      (h.dropCallout t).congr rfl (fun u hu ↦ (hwake u hu).resolve_right nofun) rfl rfl
        fun _ ↦ ⟨rfl, rfl, rfl⟩
    have hw : (Semaphore.dropCallout s t).obj.waiter t = { s.obj.waiter t with callout := false } :=
      update_self ..
    have hcl := hs'.cleanupLocked (t := t) (hl' t (.inl rfl)) fun hin ↦ ⟨hw ▸ (hK hin).1, (hK hin).2⟩
    rw [nudges_cleanupLocked] at hcl
    have heq : Semaphore.cleanupLocked (Semaphore.dropCallout { s with nudges := l } t) t =
        { Semaphore.cleanupLocked (Semaphore.dropCallout s t) t with nudges := l } :=
      nudges_cleanupLocked (Semaphore.dropCallout s t) l t
    rw [semWaitCleanup, heq]
    exact hcl
  · exact absurd hdying (h.alive t).1

theorem step {e : Event T} (h : Registered s) (hK : Aborting s e)
    (hstep : step s e = some s') : Registered s' := by
  cases e with
  | env e => exact h.envStep hK hstep
  | wait t c =>
    obtain ⟨hcall, rfl⟩ := Runs.of_guard hstep
    exact h.wait hcall c
  | tryWait t =>
    obtain ⟨-, rfl⟩ := Runs.of_guard hstep
    rw [semTrywait]
    split_ifs
    · refine ⟨h.nodup, h.linked, h.alive, h.placed, h.waits, fun hne ↦ ?_⟩
      have hle := h.count hne
      omega
    · exact h
  | post =>
    cases hstep
    exact h.semPost
  | resume t =>
    obtain ⟨hrun, rfl⟩ := Runs.of_guard hstep
    rw [loopBody]
    split_ifs
    · exact h.finish hrun.1.1 (.inr (hrun.1.2.2.resolve_right (h.alive t).1))
    · exact h
  | timeout t =>
    obtain ⟨-, rfl⟩ := Runs.of_guard hstep
    exact h.semTimeoutFn t

theorem boot (n : ℕ) : Registered (Sync.Sys.boot (Sem.init T n)) where
  nodup := nodup_nil
  linked := nofun
  alive _ := ⟨nofun, rfl⟩
  placed _ := .inr ⟨rfl, .inl rfl, .inl rfl⟩
  waits := nofun
  count hne := absurd rfl hne

end Registered

/-- **Waiters stay registered.** Where a nudge takes only those off the queue whose wait it aborts,
a thread inside its call is on the queue and the count is not positive, or the next pass of its loop
ends its wait and the thread is bound to make that pass; and a post always goes to the first on the
queue, which then holds the token and runs. -/
theorem waiters_stay_registered {n : ℕ} (h : Reach n Aborting s) :
    (∀ t, (s.thread t).inside = true →
      t ∈ s.obj.waiters ∧ s.obj.count ≤ 0 ∨ Due s t ∧ Stirred s t) ∧
    ∀ t ts, s.obj.waiters = t :: ts →
      ((semPost s).obj.waiter t).granted = true ∧ ((semPost s).thread t).Coming := by
  have hs : Registered s := h.invariant (.boot n) fun _ _ _ hs hK hstep ↦ hs.step hK hstep
  refine ⟨fun t hin ↦ ?_, fun t ts hq ↦ ?_⟩
  · exact (hs.waits t hin).imp_left fun hl ↦ ⟨hl, hs.count (ne_nil_of_mem hl)⟩
  · have hw : (grant s t ts).obj.waiter t = { s.obj.waiter t with granted := true } :=
      update_self ..
    have hth : (grant s t ts).thread t = (s.thread t).wakeReady := update_self ..
    rw [semPost, hq]
    constructor
    · exact congrArg Waiter.granted hw
    · exact hth ▸ Thread.coming_wakeReady (hs.alive t).2

/-- The nudge aborts the wait, and the post that comes before the thread runs stays in the count. -/
theorem waiters_stay_registered_aborted : ∃ s : Sys (Fin 2), Reach 0 Aborting s ∧
    (s.thread 0).inside = true ∧ 0 < s.obj.count ∧
    ((∀ t, (s.thread t).inside = true →
      t ∈ s.obj.waiters ∧ s.obj.count ≤ 0 ∨ Due s t ∧ Stirred s t) ∧
    ∀ t ts, s.obj.waiters = t :: ts →
      ((semPost s).obj.waiter t).granted = true ∧ ((semPost s).thread t).Coming) := by
  obtain ⟨s, hs, hin, hc⟩ : ∃ s : Sys (Fin 2), Reach 0 Aborting s ∧
      (s.thread 0).inside = true ∧ 0 < s.obj.count :=
    Runs.exists_run step Aborting _ [.env (.dispatch 0), .wait 0 .interruptible,
      .env (.schedule 0), .env (.cancel 0), .env (.nudge 0 .check), .env (.nudge 0 .clear),
      .env (.nudge 0 .cleanup), .post] (by decide +kernel)
  exact ⟨s, hs, hin, hc, waiters_stay_registered hs⟩

/-- The thread has disabled cancellation. The nudge takes it off the queue and wakes it, and its loop
goes round: the post finds nobody, and the token stays in the count while the thread yields and
looks at its record for ever. -/
theorem not_waiters_stay_registered : ¬∀ s : Sys (Fin 1), Reach 0 (fun _ _ ↦ True) s →
    ∀ t, (s.thread t).inside = true →
      t ∈ s.obj.waiters ∧ s.obj.count ≤ 0 ∨ Due s t ∧ Stirred s t := by
  intro hall
  obtain ⟨s, hs, hin, hc, hdue⟩ : ∃ s : Sys (Fin 1), Reach 0 (fun _ _ ↦ True) s ∧
      (s.thread 0).inside = true ∧ 0 < s.obj.count ∧ ¬Due s 0 :=
    Runs.exists_run step (fun _ _ ↦ True) _ [.env (.dispatch 0), .env (.setCancelState 0 true),
      .wait 0 .interruptible, .env (.schedule 0), .env (.cancel 0), .env (.nudge 0 .check),
      .env (.nudge 0 .clear), .env (.nudge 0 .cleanup), .env (.nudge 0 .wake),
      .env (.dispatch 0), .resume 0, .env (.schedule 0), .post] (by decide +kernel)
  rcases hall s hs 0 hin with ⟨-, hle⟩ | ⟨hd, -⟩
  · omega
  · exact hdue hd

end Mazu.Sync.Semaphore
