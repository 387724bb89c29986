import Mazu.Lib.Tally
import Mazu.Sync.Semaphore

/-!
# The tokens of a semaphore

The count and the tokens that were granted and not yet seen add up to what was put in and not taken
out. A callback that runs by a nudge breaks this when the waiter was granted a token in the
meantime: the token is handed on, and the waiter returns with it as well.

A nudge also takes a waiter off the queue whose wait goes on, when its cancellation is disabled or
the call does not look at it; nothing puts it back.
-/

namespace Mazu.Sync.Semaphore

open Function List

set_option linter.unusedSectionVars false

variable {T : Type}

/-! ## Conservation -/

/-- The thread is in its call with a token that it has not seen. -/
def owed (s : Sys T) (u : T) : ℕ :=
  if (s.thread u).inside = true ∧ (s.thread u).reaped = false ∧ (s.obj.waiter u).granted = true then 1
  else 0

theorem owed_eq_zero {s : Sys T} {u : T} (h : (s.thread u).inside = false ∨
    (s.thread u).reaped = true ∨ (s.obj.waiter u).granted = false) : owed s u = 0 := by
  refine if_neg ?_
  rintro ⟨hin, hr, hg⟩
  simp only [hin, hr, hg, reduceCtorEq, or_self] at h

/-- The books with `n` tokens in the system. -/
structure Conserved [Fintype T] (n : ℤ) (s : Sys T) : Prop where
  nodup : s.obj.waiters.Nodup
  linked : ∀ u ∈ s.obj.waiters, (s.thread u).inside = true ∧ (s.thread u).reaped = false ∧
    (s.obj.waiter u).granted = false
  cleanup : ∀ u, (s.thread u).blockCleanup = true → (s.thread u).inside = true
  off : ∀ u, (s.thread u).reaped = true → (s.thread u).onCpu = false
  balance : s.obj.count + ∑ u, owed s u = n + s.obj.posts - s.obj.taken

section Steps

variable [DecidableEq T] [Fintype T] {n n' : ℤ} {s s' : Sys T} {t : T}

namespace Conserved

variable (h : Conserved n s)

include h

/-- Nothing changes that the books read. -/
theorem congr (hq : s'.obj.waiters = s.obj.waiters) (hc : s'.obj.count = s.obj.count)
    (hp : s'.obj.posts = s.obj.posts) (ht : s'.obj.taken = s.obj.taken)
    (hin : ∀ u, (s'.thread u).inside = (s.thread u).inside)
    (hr : ∀ u, (s'.thread u).reaped = (s.thread u).reaped)
    (hg : ∀ u, (s'.obj.waiter u).granted = (s.obj.waiter u).granted)
    (hcl : ∀ u, (s'.thread u).blockCleanup = true → (s.thread u).blockCleanup = true)
    (hoff : ∀ u, ((s.thread u).reaped = true → (s.thread u).onCpu = false) → (s'.thread u).reaped =
      true → (s'.thread u).onCpu = false) : Conserved n s' where
  nodup := hq ▸ h.nodup
  linked u hu := by
    rw [hin, hr, hg]
    exact h.linked u (hq ▸ hu)
  cleanup u hu := (hin u).trans (h.cleanup u (hcl u hu))
  off u := hoff u (h.off u)
  balance := by
    have hsum : ∑ u, owed s' u = ∑ u, owed s u := by
      refine Finset.sum_congr rfl fun u _ ↦ ?_
      rw [owed, owed, hin, hr, hg]
    rw [hc, hp, ht, hsum]
    exact h.balance

/-- One thread changes, which is on the queue no more. -/
theorem change (ht : ∀ u ≠ t, s'.thread u = s.thread u)
    (hw : ∀ u ≠ t, s'.obj.waiter u = s.obj.waiter u) (hq : s'.obj.waiters.Sublist s.obj.waiters)
    (hnot : t ∉ s'.obj.waiters)
    (hcl : (s'.thread t).blockCleanup = true → (s'.thread t).inside = true)
    (hoff : (s'.thread t).reaped = true → (s'.thread t).onCpu = false)
    (hbal : s'.obj.count + owed s' t + s'.obj.taken - s'.obj.posts - n' = s.obj.count + owed s t +
      s.obj.taken - s.obj.posts - n) : Conserved n' s' where
  nodup := h.nodup.sublist hq
  linked u hu := by
    have hut : u ≠ t := fun hut ↦ hnot (hut ▸ hu)
    rw [ht u hut, hw u hut]
    exact h.linked u (hq.subset hu)
  cleanup u := by
    by_cases hut : u = t
    · exact hut ▸ hcl
    · exact ht u hut ▸ h.cleanup u
  off u := by
    by_cases hut : u = t
    · exact hut ▸ hoff
    · exact ht u hut ▸ h.off u
  balance := by
    have hsum := Tally.sum_add_of_eq_off (f := owed s') (g := owed s) fun u hut ↦ by
      rw [owed, owed, ht u hut, hw u hut]
    have hb := h.balance
    omega

theorem setWaiter (t : T) {f : Waiter → Waiter} (hf : ∀ w, (f w).granted = w.granted)
    : Conserved n (setWaiter s t f) := by
  refine h.congr rfl rfl rfl rfl (fun _ ↦ rfl) (fun _ ↦ rfl) (fun u ↦ ?_) (fun _ ↦ id) fun _ ↦ id
  have hw : (Semaphore.setWaiter s t f).obj.waiter u =
      if u = t then f (s.obj.waiter t) else s.obj.waiter u := update_apply ..
  rw [hw]
  split_ifs with hu
  · rw [hu, hf]
  · rfl

/-- A thread changes in what the books do not read. -/
theorem modify (t : T) {f : Thread → Thread} (hin : (f (s.thread t)).inside = (s.thread t).inside)
    (hr : (f (s.thread t)).reaped = (s.thread t).reaped)
    (hcl : (f (s.thread t)).blockCleanup = true → (s.thread t).blockCleanup = true)
    (hcpu : (f (s.thread t)).onCpu = (s.thread t).onCpu) : Conserved n (s.modify t f) := by
  refine h.congr rfl rfl rfl rfl (fun u ↦ ?_) (fun u ↦ ?_) (fun _ ↦ rfl) (fun u ↦ ?_) fun u ↦ ?_
  all_goals
    rw [thread_modify]
    split_ifs with hu
  · rw [hu, hin]
  · rfl
  · rw [hu, hr]
  · rfl
  · rw [hu]
    exact hcl
  · exact id
  · rw [hu, hr, hcpu]
    exact id
  · exact id

/-- A token is given to a waiter. -/
theorem grant {rest : List T} (hq : (t :: rest).Sublist s.obj.waiters) :
    Conserved (n + 1) (grant s t rest) := by
  obtain ⟨hin, hr, hg⟩ := h.linked t (hq.subset (.head _))
  have hnodup := nodup_cons.mp (h.nodup.sublist hq)
  have hth : (Semaphore.grant s t rest).thread t = (s.thread t).wakeReady :=
    (thread_modify ..).trans (if_pos rfl)
  have hw : (Semaphore.grant s t rest).obj.waiter t = { s.obj.waiter t with granted := true } :=
    update_self ..
  have howed : owed (Semaphore.grant s t rest) t = 1 := by
    rw [owed, hth, hw]
    exact if_pos ⟨hin, hr, rfl⟩
  refine h.change (t := t) (fun u hu ↦ (thread_modify ..).trans (if_neg hu))
    (fun u hu ↦ update_of_ne hu ..) ((sublist_cons_self _ _).trans hq) hnodup.1
    (fun _ ↦ by rw [hth]; exact hin) (by rw [hth]; exact h.off t) ?_
  rw [howed, owed_eq_zero (.inr (.inr hg))]
  change s.obj.count + _ + s.obj.taken - s.obj.posts - _ = _
  omega

theorem putBack (hmax : s.obj.count ≠ 2 ^ 31 - 1) : Conserved (n + 1) (putBack s) where
  nodup := nodup_nil
  linked := nofun
  cleanup := h.cleanup
  off := h.off
  balance := by
    have hb := h.balance
    have hinc : incI32 s.obj.count = s.obj.count + 1 := if_neg hmax
    change incI32 s.obj.count + ((∑ u, owed s u : ℕ) : ℤ) = n + 1 + s.obj.posts - s.obj.taken
    omega

omit h in
theorem handOn (ts : List T) (h : Conserved n s) (hts : ts.Sublist s.obj.waiters)
    (hmax : s.obj.count ≠ 2 ^ 31 - 1) : Conserved (n + 1) (handOn s ts) := by
  induction ts with
  | nil => exact h.putBack hmax
  | cons t ts ih =>
    rw [Semaphore.handOn]
    split_ifs
    · exact ih ((sublist_cons_self _ _).trans hts)
    · exact h.grant hts

theorem semPost (hmax : s.obj.waiters = [] → s.obj.count ≠ 2 ^ 31 - 1) :
    Conserved n (semPost s) := by
  have hcount : ∀ {a : Sys T}, Conserved (n + 1) a → a.obj.posts = s.obj.posts →
      Conserved n { a with obj := { a.obj with posts := s.obj.posts + 1 } } := by
    intro a ha hp
    refine ⟨ha.nodup, ha.linked, ha.cleanup, ha.off, ?_⟩
    have hb := ha.balance
    change a.obj.count + ((∑ u, owed a u : ℕ) : ℤ) = n + ((s.obj.posts + 1 : ℕ) : ℤ) - a.obj.taken
    omega
  rw [Semaphore.semPost]
  split
  · next hq => exact hcount (h.putBack (hmax hq)) rfl
  · next t ts hq => exact hcount (h.grant (hq ▸ Sublist.refl _)) rfl

theorem dropCallout (t : T) : Conserved n (dropCallout s t) :=
  h.setWaiter t fun _ ↦ rfl

/-! ## Leaving the queue -/

theorem listDel (t : T) : Conserved n (listDel s t) :=
  h.change (t := t) (fun _ _ ↦ rfl) (fun _ _ ↦ rfl) (erase_sublist ..) h.nodup.not_mem_erase
    (h.cleanup t) (h.off t) rfl

theorem semTimeoutFn (t : T) : Conserved n (semTimeoutFn s t) := by
  have hs' := h.dropCallout t
  rw [Semaphore.semTimeoutFn]
  split_ifs
  · have hdel := (hs'.listDel t).setWaiter (f := fun w ↦ { w with timedOut := true }) t fun _ ↦ rfl
    exact hdel.modify t rfl rfl id rfl
  · exact hs'

omit h in
theorem granted_dropCallout (s : Sys T) (t : T) :
    ((Semaphore.dropCallout s t).obj.waiter t).granted = (s.obj.waiter t).granted := by
  have hself : (Semaphore.dropCallout s t).obj.waiter t =
      { s.obj.waiter t with callout := false } := update_self ..
  rw [hself]

/-- The callback of a waiter without a token takes it off the queue. -/
theorem cleanupLocked (hg : (s.obj.waiter t).granted = false) :
    Conserved n (cleanupLocked s t) ∧ t ∉ (Semaphore.cleanupLocked s t).obj.waiters ∧
      owed (Semaphore.cleanupLocked s t) t = 0 := by
  rw [Semaphore.cleanupLocked]
  split_ifs with hl hg'
  · exact ⟨h.listDel t, h.nodup.not_mem_erase, owed_eq_zero (.inr (.inr hg))⟩
  · cases hg.symm.trans hg'
  · exact ⟨h, hl, owed_eq_zero (.inr (.inr hg))⟩

omit h in
theorem handOn_of_not_mem {ts : List T} (s : Sys T) (ht : t ∉ ts) :
    (Semaphore.handOn s ts).thread t = s.thread t ∧
      (Semaphore.handOn s ts).obj.waiter t = s.obj.waiter t ∧
      t ∉ (Semaphore.handOn s ts).obj.waiters := by
  induction ts with
  | nil => exact ⟨rfl, rfl, not_mem_nil⟩
  | cons u ts ih =>
    rw [mem_cons, not_or] at ht
    rw [Semaphore.handOn]
    split_ifs
    · exact ih ht.2
    · exact ⟨(thread_modify ..).trans (if_neg ht.1), update_of_ne ht.1 .., ht.2⟩

/-- A thread that is on no queue is switched away from for the last time; its token, if it has one,
leaves the books with it. -/
theorem reap (ht : t ∉ s.obj.waiters) :
    Conserved (n - owed s t) (s.modify t fun d ↦ { d with onCpu := false, reaped := true }) := by
  have hth : (s.modify t fun d ↦ { d with onCpu := false, reaped := true }).thread t =
      { s.thread t with onCpu := false, reaped := true } := (thread_modify ..).trans (if_pos rfl)
  refine h.change (fun u hu ↦ (thread_modify ..).trans (if_neg hu)) (fun _ _ ↦ rfl)
    (Sublist.refl _) ht (fun hcl ↦ ?_) (fun _ ↦ ?_) ?_
  · rw [hth] at hcl ⊢
    exact h.cleanup t hcl
  · rw [hth]
  · rw [owed_eq_zero (.inr (.inl (by rw [hth])))]
    change s.obj.count + _ + s.obj.taken - s.obj.posts - _ = _
    omega

/-- The callback hands the token of a dying waiter on. -/
theorem reap_cleanup (hin : (s.thread t).inside = true) (hr : (s.thread t).reaped = false)
    (hmax : (s.obj.waiter t).granted = true → s.obj.count ≠ 2 ^ 31 - 1) :
    Conserved n ((Semaphore.cleanupLocked s t).modify t
      fun d ↦ { d with onCpu := false, reaped := true }) := by
  cases hg : (s.obj.waiter t).granted with
  | false =>
    obtain ⟨hs', hnot, howed⟩ := h.cleanupLocked hg
    have hreap := hs'.reap hnot
    rw [howed] at hreap
    exact (sub_zero n) ▸ hreap
  | true =>
    have hl : t ∉ s.obj.waiters := by
      intro hl
      cases hg.symm.trans (h.linked t hl).2.2
    obtain ⟨hth, hwt, hnot⟩ := handOn_of_not_mem s hl
    have hreap := (h.handOn _ (Sublist.refl _) (hmax hg)).reap hnot
    have howed : owed (Semaphore.handOn s s.obj.waiters) t = 1 := by
      rw [owed, hth, hwt]
      exact if_pos ⟨hin, hr, hg⟩
    rw [howed] at hreap
    rw [Semaphore.cleanupLocked, if_neg hl, if_pos hg]
    exact (add_sub_cancel_right n 1) ▸ hreap

/-! ## Calls -/

theorem take : Conserved n (take s) where
  nodup := h.nodup
  linked := h.linked
  cleanup := h.cleanup
  off := h.off
  balance := by
    have hb := h.balance
    change s.obj.count - 1 + ((∑ u, owed s u : ℕ) : ℤ) =
      n + s.obj.posts - ((s.obj.taken + 1 : ℕ) : ℤ)
    omega

theorem block (hrun : (s.thread t).Runs) (hin : (s.thread t).inside = false) (c : Call)
    : Conserved n (block s t c) := by
  have hnot : t ∉ s.obj.waiters := by
    intro hl
    cases hin.symm.trans (h.linked t hl).1
  have hoff : ∀ u ≠ t, (Semaphore.block s t c).thread u = s.thread u ∧
      (Semaphore.block s t c).obj.waiter u = s.obj.waiter u := fun u hu ↦ by
    rw [thread_block, waiter_block, if_neg hu, if_neg hu]
    exact ⟨rfl, rfl⟩
  refine ⟨?_, fun u hu ↦ ?_, fun u ↦ ?_, fun u ↦ ?_, ?_⟩
  · exact h.nodup.append (nodup_singleton t) (disjoint_singleton.mpr hnot)
  · rcases mem_append.mp hu with hu | hu
    · obtain ⟨hth', hw'⟩ := hoff u fun hut ↦ hnot (hut ▸ hu)
      rw [hth', hw']
      exact h.linked u hu
    · rw [mem_singleton.mp hu, thread_block, waiter_block, if_pos rfl, if_pos rfl]
      exact ⟨rfl, hrun.2.1, rfl⟩
  · rw [thread_block]
    split_ifs
    · exact fun _ ↦ rfl
    · exact h.cleanup u
  · rw [thread_block]
    split_ifs
    · exact fun hr ↦ by cases hrun.2.1.symm.trans hr
    · exact h.off u
  · have hsum := Tally.sum_add_of_eq_off (f := owed (Semaphore.block s t c)) (g := owed s) (i := t)
      fun u hu ↦ by rw [owed, owed, (hoff u hu).1, (hoff u hu).2]
    have hnew : owed (Semaphore.block s t c) t = 0 :=
      owed_eq_zero (.inr (.inr (by rw [waiter_block, if_pos rfl])))
    have hold : owed s t = 0 := owed_eq_zero (.inl hin)
    have hb := h.balance
    change s.obj.count + ((∑ u, owed (Semaphore.block s t c) u : ℕ) : ℤ) =
      n + s.obj.posts - s.obj.taken
    omega

theorem finish (hin : (s.thread t).inside = true) (hr : (s.thread t).reaped = false)
    : Conserved n (finish s t) := by
  have hth : (Semaphore.finish s t).thread t = (s.thread t).unblock .semWait :=
    update_self ..
  refine h.change (t := t) (fun u hu ↦ update_of_ne hu ..)
    (fun u hu ↦ update_of_ne hu ..) (erase_sublist ..) h.nodup.not_mem_erase ?_ ?_ ?_
  · rw [hth]
    exact nofun
  · rw [hth]
    exact fun hr' ↦ by cases hr.symm.trans hr'
  · -- the token that was owed is taken
    have hgone : owed (Semaphore.finish s t) t = 0 := owed_eq_zero (.inl (by rw [hth]; rfl))
    have htaken : (Semaphore.finish s t).obj.taken = s.obj.taken + owed s t := by
      change (if (s.obj.waiter t).granted then s.obj.taken + 1 else s.obj.taken) = _
      split_ifs with hg
      · rw [owed, if_pos ⟨hin, hr, hg⟩]
      · rw [owed_eq_zero (.inr (.inr (Bool.eq_false_iff.mpr hg))), Nat.add_zero]
    change s.obj.count + _ + _ - s.obj.posts - n = _
    rw [hgone, htaken]
    push_cast
    omega

theorem loopBody (hin : (s.thread t).inside = true) (hr : (s.thread t).reaped = false)
    : Conserved n (loopBody s t) := by
  rw [Semaphore.loopBody]
  split_ifs
  · exact h.finish hin hr
  · exact h

theorem wait (hcall : Calls s t) (c : Call) : Conserved n (wait s t c) := by
  rw [Semaphore.wait]
  split_ifs
  · exact h.take
  · refine (h.block hcall.1 hcall.2 c).loopBody ?_ ?_ <;> rw [thread_block, if_pos rfl]
    · rfl
    · exact hcall.1.2.1

end Conserved

/-- A nudge's callback does not run on a waiter that was granted a token, a dying waiter has its
callback, and the count has room for what is put back. -/
def Undisturbed (s : Sys T) : Event T → Prop
  | .post => s.obj.waiters = [] → s.obj.count ≠ 2 ^ 31 - 1
  | .env (.nudge t .cleanup) => (s.obj.waiter t).granted = false
  | .env (.schedule t) => (s.thread t).state = .terminating → (s.thread t).inside = true →
      (s.thread t).blockCleanup = true ∧
          ((s.obj.waiter t).granted = true → s.obj.count ≠ 2 ^ 31 - 1) ∨
        (s.obj.waiter t).granted = false ∧ t ∉ s.obj.waiters
  | _ => True

instance (s : Sys T) : DecidablePred (Undisturbed s) := by
  rintro ((_ | _ | _ | _ | ⟨_, _ | _⟩ | _) | _) <;> delta Undisturbed <;> dsimp only <;>
    infer_instance

namespace Conserved

theorem envStep {e : Env T} (h : Conserved n s) (hK : Undisturbed s (.env e))
    (hstep : envStep Semaphore.semWaitCleanup s e = some s') : Conserved n s' := by
  rcases envStep_cases hstep with hq | ⟨t, l, l', rfl, -, rfl⟩ | ⟨t, rfl, hdying, rfl⟩
  · refine h.congr ?_ ?_ ?_ ?_ (fun u ↦ (hq.thread u).inside) (fun u ↦ (hq.thread u).reaped)
      (fun u ↦ ?_) (fun u ↦ (hq.thread u).cleanup) fun u ↦ (hq.thread u).off
    all_goals rw [hq.obj]
  · have hs' : Conserved n { s with nudges := l } := h.congr rfl rfl rfl rfl (fun _ ↦ rfl)
      (fun _ ↦ rfl) (fun _ ↦ rfl) (fun _ ↦ id) fun _ ↦ id
    have hg : ((Semaphore.dropCallout { s with nudges := l } t).obj.waiter t).granted = false :=
      (granted_dropCallout _ t).trans hK
    exact ((hs'.dropCallout t).cleanupLocked hg).1.congr rfl rfl rfl rfl (fun _ ↦ rfl)
      (fun _ ↦ rfl) (fun _ ↦ rfl) (fun _ ↦ id) fun _ ↦ id
  · obtain ⟨hcpu, -⟩ := Option.ite_none_right_eq_some.mp hstep
    have hr : (s.thread t).reaped = false := by
      rw [← Bool.not_eq_true]
      intro hr
      cases hcpu.symm.trans (h.off t hr)
    rw [runCleanup]
    split_ifs with hcl
    · have hin := h.cleanup t hcl
      have hs' : Conserved n (s.modify t fun d ↦ { d with blockCleanup := false }) :=
        h.modify t rfl rfl Bool.noConfusion rfl
      have hth : (s.modify t fun d ↦ { d with blockCleanup := false }).thread t =
          { s.thread t with blockCleanup := false } := (thread_modify ..).trans (if_pos rfl)
      refine (hs'.dropCallout t).reap_cleanup ?_ ?_ fun hg ↦ ?_
      · exact (congrArg Thread.inside hth).trans hin
      · exact (congrArg Thread.reaped hth).trans hr
      · rw [granted_dropCallout] at hg
        rcases hK hdying hin with hK | hK
        · exact hK.2 hg
        · cases hK.1.symm.trans hg
    · have hout : owed s t = 0 ∧ t ∉ s.obj.waiters := by
        cases hin : (s.thread t).inside with
        | false =>
          refine ⟨owed_eq_zero (.inl hin), fun hl ↦ ?_⟩
          cases hin.symm.trans (h.linked t hl).1
        | true =>
          obtain ⟨hg, hl⟩ := (hK hdying hin).resolve_left fun hK ↦ hcl hK.1
          exact ⟨owed_eq_zero (.inr (.inr hg)), hl⟩
      have hreap := h.reap hout.2
      rw [hout.1] at hreap
      exact (sub_zero n) ▸ hreap

theorem step {e : Event T} (h : Conserved n s) (hK : Undisturbed s e)
    (hstep : step s e = some s') : Conserved n s' := by
  cases e with
  | env e => exact h.envStep hK hstep
  | wait t c =>
    obtain ⟨hcall, rfl⟩ := Runs.of_guard hstep
    exact h.wait hcall c
  | tryWait t =>
    obtain ⟨-, rfl⟩ := Runs.of_guard hstep
    rw [semTrywait]
    split_ifs
    · exact h.take
    · exact h
  | post =>
    cases hstep
    exact h.semPost hK
  | resume t =>
    obtain ⟨hrun, rfl⟩ := Runs.of_guard hstep
    exact h.loopBody hrun.2 hrun.1.2.1
  | timeout t =>
    obtain ⟨-, rfl⟩ := Runs.of_guard hstep
    exact h.semTimeoutFn t

theorem boot (n : ℕ) : Conserved n (Sync.Sys.boot (Sem.init T n)) where
  nodup := nodup_nil
  linked := nofun
  cleanup := nofun
  off := nofun
  balance := by
    have hsum : ∑ u, owed (Sync.Sys.boot (Sem.init T n)) u = 0 :=
      Finset.sum_eq_zero fun u _ ↦ rfl
    rw [hsum]
    change (n : ℤ) + 0 = n + 0 - 0
    omega

end Conserved

/-- **Tokens are conserved**: the count and the tokens of waiters that have not returned are what was
there at the start, and the posts, without the successful waits. -/
theorem tokens_conserved {n : ℕ} (h : Reach n Undisturbed s) :
    s.obj.count + (Finset.univ.filter fun u ↦ (s.thread u).inside = true ∧
      (s.thread u).reaped = false ∧ (s.obj.waiter u).granted = true).card =
      n + s.obj.posts - s.obj.taken := by
  have hs : Conserved n s :=
    h.invariant (.boot n) fun _ _ _ hs hK hstep ↦ hs.step hK hstep
  rw [Finset.card_filter]
  exact hs.balance

end Steps

/-- A waiter is granted a token and killed; its callback hands the token to the next one. -/
theorem tokens_conserved_killed : ∃ s : Sys (Fin 2), Reach 0 Undisturbed s ∧
    (s.thread 0).reaped = true ∧ (s.obj.waiter 1).granted = true ∧ s.obj.posts = 1 ∧
    s.obj.count + (Finset.univ.filter fun u ↦ (s.thread u).inside = true ∧
      (s.thread u).reaped = false ∧ (s.obj.waiter u).granted = true).card =
      (0 : ℕ) + s.obj.posts - s.obj.taken := by
  obtain ⟨s, hs, hr, hg, hp⟩ : ∃ s : Sys (Fin 2), Reach 0 Undisturbed s ∧
      (s.thread 0).reaped = true ∧ (s.obj.waiter 1).granted = true ∧ s.obj.posts = 1 :=
    Runs.exists_run step Undisturbed _ [.env (.dispatch 0), .wait 0 .interruptible,
      .env (.schedule 0), .env (.dispatch 1), .wait 1 .timed, .post, .env (.dispatch 0),
      .env (.kill 0), .env (.schedule 0)] (by decide +kernel)
  exact ⟨s, hs, hr, hg, hp, tokens_conserved hs⟩

/-- The waiter is nudged, and a post comes between the look at its state and the callback: one post,
the waiter returns with the token, and the count is one. -/
theorem not_tokens_conserved : ¬∀ s : Sys (Fin 1), Reach 0 (fun _ _ ↦ True) s →
    s.obj.count + (Finset.univ.filter fun u ↦ (s.thread u).inside = true ∧
      (s.thread u).reaped = false ∧ (s.obj.waiter u).granted = true).card =
      (0 : ℕ) + s.obj.posts - s.obj.taken := by
  intro hall
  obtain ⟨s, hs, hne⟩ : ∃ s : Sys (Fin 1), Reach 0 (fun _ _ ↦ True) s ∧
      s.obj.count + (Finset.univ.filter fun u ↦ (s.thread u).inside = true ∧
        (s.thread u).reaped = false ∧ (s.obj.waiter u).granted = true).card ≠
        0 + s.obj.posts - s.obj.taken :=
    Runs.exists_run step (fun _ _ ↦ True) _ [.env (.dispatch 0), .wait 0 .interruptible,
      .env (.schedule 0), .env (.cancel 0), .env (.nudge 0 .check), .env (.nudge 0 .clear), .post,
      .env (.nudge 0 .cleanup), .env (.dispatch 0), .resume 0] (by decide +kernel)
  exact hne (hall s hs)

end Mazu.Sync.Semaphore
