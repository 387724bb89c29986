import Mazu.Sync.PiLocks

/-!
# The assertions of the mutexes

A live thread owns what its calls have locked, so the two assertions about the owner always hold.
The other two fail in exactly the states where the source does not expect a waiter to be dying, or to
be woken with a reason to abort.
-/

namespace Mazu.Sync.Pi

open Function List Runs Option

set_option linter.unusedSectionVars false

open Sched (TdState)

variable {T M : Type} [DecidableEq T] [DecidableEq M]

/-! ## The source's operations -/

namespace World

variable (w : World T M) (st : T → TdState) (t u : T) (m : M)

theorem locks_waitCleanup : (w.waitCleanup st t).locks = w.locks ∨
    ∃ m, (w.waitCleanup st t).locks =
      (w.locks.setWaiter t fun r ↦ { r with callout := false }).dequeue t m := by
  rw [waitCleanup]
  split
  · exact .inl rfl
  · next m _ => exact .inr ⟨m, locks_unlink ..⟩

theorem locks_take : (w.take st t m).locks = (w.locks.dequeue t m).setOwner m (some t) := by
  have htake : ∀ w' : World T M,
      (((w'.setOwner m (some t)).clearDependency t).addHeld t m).locks =
        w'.locks.setOwner m (some t) := fun w' ↦ w'.locks_setOwner m (some t)
  rw [take, htake]
  by_cases hl : t ∈ (w.mutex m).waiters
  · rw [if_pos hl, locks_refreshWaiters, locks_dequeue]
  · have herase : (w.locks.waiters m).erase t = w.locks.waiters m := erase_of_not_mem hl
    have hdq : w.locks.dequeue t m = w.locks := by
      rw [Locks.dequeue, herase, Locks.setWaiters_self]
    rw [if_neg hl, hdq]

theorem insertByPrio_perm (q : List T) : (w.insertByPrio t q).Perm (t :: q) := by
  refine perm_middle.trans (.of_eq ?_)
  rw [takeWhile_append_dropWhile]

theorem locks_await_linked (o : T) (hl : t ∈ (w.mutex m).waiters) :
    (w.await st t m o).locks = w.locks := by
  have hl' : t ∈ ((w.setMutexDependency t m (some o)).mutex m).waiters := hl
  rw [await, locks_recomputePrio, locks_refreshWaiters, if_pos hl']
  rfl

theorem locks_await (o : T) (hl : t ∉ (w.mutex m).waiters) :
    ∃ q, q.Perm (t :: (w.mutex m).waiters) ∧ (w.await st t m o).locks =
      (w.locks.setWaiters m q).setWaiter t
        fun r ↦ { r with callout := decide (r.call = .timed) } := by
  have hl' : t ∉ ((w.setMutexDependency t m (some o)).mutex m).waiters := hl
  refine ⟨_, (w.setMutexDependency t m (some o)).insertByPrio_perm t _, ?_⟩
  rw [await, locks_recomputePrio, locks_refreshWaiters, if_neg hl']
  have henq := (w.setMutexDependency t m (some o)).locks_setWaiters m
    (fun x ↦ { x with
      waiters := (w.setMutexDependency t m (some o)).insertByPrio t x.waiters }) rfl
  exact congrArg
    (Locks.setWaiter · t fun r ↦ { r with callout := decide (r.call = .timed) }) henq

theorem mem_of_bestWaiter (h : w.bestWaiter st m = some u) :
    u ∈ (w.mutex m).waiters ∧ st u ≠ .terminating := by
  obtain ⟨hmem, hst⟩ := mem_filter.mp (argmax_mem h)
  exact ⟨hmem, of_decide_eq_true hst⟩

theorem bestWaiter_eq_none : w.bestWaiter st m = none ↔
    ∀ u ∈ (w.mutex m).waiters, st u = .terminating := by
  rw [bestWaiter, argmax_eq_none, filter_eq_nil_iff]
  refine forall₂_congr fun u _ ↦ ?_
  rw [decide_eq_true_iff, not_not]

end World

/-- A thread that is not gone changes, and stays. -/
theorem Sound.modify {th : T → Thread} {l : Locks T M} {ph : T → Phase M} {hold : T → Finset M}
    (h : Sound th l ph hold) {u : T} {d : Thread} (hr : (th u).reaped = false)
    (hd : d.reaped = false) : Sound (update th u d) l ph hold := by
  refine h.threads (fun v ↦ ?_) fun v hv ↦ ?_
  · rw [update_apply]
    split_ifs
    · exact fun hr' ↦ nomatch hd.symm.trans hr'
    · exact h.sane v
  · by_cases hvu : v = u
    · rw [hvu]
      exact hr
    · rwa [update_of_ne hvu] at hv

/-- What holds of every reachable state. -/
def Inv (s : Sys T M) : Prop := Sound s.thread s.obj.world.locks s.obj.phase s.obj.holds

section Steps

variable {s s' : Sys T M} {t u : T} {m : M}

variable {w : World T M} {ph : T → Phase M} {e : Event T M}

theorem inv_setWorld (h : Sound s.thread w.locks s.obj.phase s.obj.holds) : Inv (setWorld s w) := h

theorem Inv.waitCleanup (h : Inv s) (t : T) : Inv (waitCleanup s t) := by
  rw [Pi.waitCleanup]
  split_ifs
  · refine inv_setWorld ?_
    rcases s.obj.world.locks_waitCleanup (states s) t with hl | ⟨m, hl⟩
    · rw [hl]
      exact h
    · rw [hl]
      refine (Sound.setWaiter h rfl rfl (fun n hn ↦ (h.linked n t hn).2.2.2) ?_).dequeue t m
      exact fun hti ↦ h.timed t (hti.imp_left nofun)
  · exact h

theorem Inv.envStep {e : Env T} (h : Inv s) (hstep : envStep Pi.waitCleanup s e = some s') :
    Inv s' := by
  rcases envStep_cases hstep with hq | ⟨t, l, l', rfl, -, rfl⟩ | ⟨t, rfl, hdying, rfl⟩
  · rw [Inv, hq.obj]
    refine Sound.threads h (fun u ↦ (hq.thread u).sane (h.sane u)) fun u hu ↦ ?_
    rwa [(hq.thread u).reaped] at hu
  · have hl : Inv { s with nudges := l } := h
    exact hl.waitCleanup t
  · have hth : (runCleanup Pi.waitCleanup s t).thread t = s.thread t ∨
        (runCleanup Pi.waitCleanup s t).thread t = { s.thread t with blockCleanup := false } := by
      rw [runCleanup, Pi.waitCleanup]
      split_ifs
      · exact .inr (update_self ..)
      · exact .inr (update_self ..)
      · exact .inl rfl
    have hcl : Inv (runCleanup Pi.waitCleanup s t) := by
      rw [runCleanup]
      split_ifs
      · refine Inv.waitCleanup ?_ t
        refine Sound.threads h (fun u ↦ ?_) fun u hu ↦ ?_
        · rw [thread_modify]
          split_ifs with hut
          · exact h.sane t
          · exact h.sane u
        · rw [thread_modify] at hu
          split_ifs at hu with hut
          · exact hut ▸ hu
          · exact hu
      · exact h
    refine Sound.threads hcl (fun u ↦ ?_) fun u hu ↦ ?_
    · rw [thread_modify]
      split_ifs
      · refine fun _ ↦ ⟨?_, rfl⟩
        rcases hth with hth | hth <;> rw [hth] <;> exact hdying
      · exact hcl.sane u
    · rw [thread_modify] at hu
      split_ifs at hu
      exact hu

/-! ## Unlocking -/

theorem Locks.give_setOwner (l : Locks T M) (m : M) (o : Option T) (u : T) :
    (l.setOwner m o).give m u = l.give m u :=
  congrArg (fun f ↦ setWaiter { l with owner := f, waiters := _ } u _)
    (update_idem ..)

/-- A free mutex goes to its best waiter. -/
theorem Sound.handOver {hold : T → Finset M}
    (h : Sound s.thread (s.obj.world.locks.setOwner m none) ph hold)
    (hbest : s.obj.world.bestWaiter (states s) m = some u) :
    Sound (handOver s m u).thread (handOver s m u).obj.world.locks ph hold := by
  obtain ⟨hmem, hst⟩ := World.mem_of_bestWaiter _ _ _ _ hbest
  have hr : (s.thread u).reaped = false := (h.sane u).not_reaped (.inl hst)
  have hfree : (s.obj.world.locks.setOwner m none).owner m = none := update_self ..
  have hgive := h.give hfree hmem
  rw [Locks.give_setOwner, ← World.locks_handOver _ (states s)] at hgive
  exact hgive.modify hr hr

theorem Sound.unlock (h : Sound s.thread s.obj.world.locks ph s.obj.holds)
    (hr : (s.thread t).reaped = false) (hm : m ∈ s.obj.holds t) (hph : ∀ n, ph t ≠ .condvar n)
    (hok : unlock s t m = .ok s') :
    Sound s'.thread s'.obj.world.locks ph s'.obj.holds ∧ s'.obj.phase = s.obj.phase ∧
      m ∉ s'.obj.holds t := by
  have hown : (s.obj.world.mutex m).owner = some t := h.holds m t hr hm
  have hrel := h.release hr hm hph
  have hgone : m ∉ update s.obj.holds t ((s.obj.holds t).erase m) t := by
    rw [update_self]
    exact Finset.notMem_erase m _
  rw [Pi.unlock, if_pos hown] at hok
  dsimp only at hok
  split_ifs at hok
  · cases hok
    refine ⟨?_, rfl, hgone⟩
    have hl : (((s.obj.world.removeHeld t m).recomputePrio t).setOwner m none).locks =
        s.obj.world.locks.setOwner m none := World.locks_setOwner ..
    exact hl ▸ hrel
  · split at hok
    · cases hok
    · next u hbest =>
      cases hok
      exact ⟨Sound.handOver (s := setHolds (setWorld s _) t _) hrel hbest, rfl, hgone⟩

/-- The assertions of `pi_mutex_unlock`. -/
theorem Inv.unlock_error_iff (h : Inv s) (hr : (s.thread t).reaped = false)
    (hm : m ∈ s.obj.holds t) : (∃ a, unlock s t m = .error a) ↔
      (s.obj.world.mutex m).waiters ≠ [] ∧
      ∀ u ∈ (s.obj.world.mutex m).waiters, (s.thread u).state = .terminating := by
  have hown : (s.obj.world.mutex m).owner = some t := h.holds m t hr hm
  rw [Pi.unlock, if_pos hown]
  dsimp only
  have hbest := World.bestWaiter_eq_none ((s.obj.world.removeHeld t m).recomputePrio t)
    (states (setHolds (setWorld s ((s.obj.world.removeHeld t m).recomputePrio t)) t
      ((s.obj.holds t).erase m))) m
  constructor
  · rintro ⟨a, ha⟩
    split_ifs at ha with hq
    split at ha
    · next hnone => exact ⟨hq, hbest.mp hnone⟩
    · cases ha
  · rintro ⟨hq, hall⟩
    have hq' : (((s.obj.world.removeHeld t m).recomputePrio t).mutex m).waiters ≠ [] := hq
    rw [if_neg hq', hbest.mpr hall]
    exact ⟨_, rfl⟩

theorem Inv.releaseFirst (h : Inv s) (hr : (s.thread t).reaped = true)
    (hok : releaseFirst s t = some s') : Inv s' := by
  rw [Pi.releaseFirst] at hok
  split at hok
  · cases hok
  next m _ _ =>
    dsimp only at hok
    have hfree : ((s.obj.world.removeHeld t m).setMutex m
        fun x ↦ { x with owner := none, topWaiterPrio := 0 }).locks =
          s.obj.world.locks.setOwner m none :=
      (World.locks_setMutex ..).trans ((s.obj.world.locks.setOwner m none).setWaiters_self m)
    split_ifs at hok with hown
    · cases hok
      exact h
    · cases hok
      have hab := Sound.abandon h (not_not.mp hown) hr
      rw [← hfree] at hab
      exact inv_setWorld hab
    · have hab := Sound.abandon h (not_not.mp hown) hr
      split at hok
      · cases hok
        rw [← hfree] at hab
        exact inv_setWorld hab
      · next u hbest =>
        cases hok
        exact Sound.handOver (s := setWorld s (s.obj.world.removeHeld t m)) hab hbest

/-! ## Locking -/

/-- The thread is in a locking call for the mutex, and runs. -/
structure Tries (s : Sys T M) (t : T) (m : M) : Prop where
  live : (s.thread t).reaped = false
  lock : s.obj.phase t = .lock
  mtx : (s.obj.world.mutexWaiter t).mtx = some m

/-- The owner is another thread, unless the mutex was granted. -/
theorem Inv.owner_ne (h : Inv s) (ht : Tries s t m)
    (hg : (s.obj.world.mutexWaiter t).granted = false) : (s.obj.world.mutex m).owner ≠ some t := by
  intro hown
  rcases h.owned m t ht.live hown with hm | ⟨-, -, hg'⟩
  · exact h.apart m t (.inl ⟨ht.lock, ht.mtx⟩) hm
  · cases hg.symm.trans hg'

/-- The callout of a thread is cancelled. -/
theorem Sound.stopCallout {th : T → Thread} {hold : T → Finset M} (h : Sound th w.locks ph hold)
    (t : T) :
    Sound th (w.stopCallout t).locks ph hold := by
  have hl : (w.stopCallout t).locks =
      w.locks.setWaiter t fun r ↦ { r with callout := false } := rfl
  rw [hl]
  exact h.setWaiter rfl rfl (fun n hn ↦ (h.linked n t hn).2.2.2)
    fun hti ↦ h.timed t (hti.imp_left nofun)

theorem inv_fail (hr : (s.thread t).reaped = false)
    (h : Sound s.thread w.locks (update s.obj.phase t .out) s.obj.holds) :
    Inv (fail s t w) :=
  h.modify hr hr

theorem inv_succeed {f : Thread → Thread} (hr : (s.thread t).reaped = false)
    (hf : (f (s.thread t)).reaped = (s.thread t).reaped)
    (h : Sound s.thread w.locks (update s.obj.phase t .out)
      (update s.obj.holds t (insert m (s.obj.holds t)))) :
    Inv (succeed s t m w f) :=
  h.modify hr (hf.trans hr)

variable (h : Inv s)

include h

/-- A wait is aborted. -/
theorem Sound.abort (ht : Tries s t m) (hg : (s.obj.world.mutexWaiter t).granted = false) :
    Sound s.thread ((s.obj.world.unlink (states s) t m).clearDependency t).locks
      (update s.obj.phase t .out) s.obj.holds := by
  have hl : ((s.obj.world.unlink (states s) t m).clearDependency t).locks =
      s.obj.world.locks.dequeue t m := World.locks_unlink ..
  have hnot : t ∉ (s.obj.world.locks.dequeue t m).waiters m := by
    rw [Locks.dequeue, Locks.waiters_setWaiters, if_pos rfl]
    exact (h.nodup m).not_mem_erase
  rw [hl]
  exact (Sound.dequeue h t m).quit ht.mtx hnot hg

/-- The thread finds that it was granted the mutex. -/
theorem Sound.granted_accept (ht : Tries s t m) (hg : (s.obj.world.mutexWaiter t).granted = true) :
    Sound s.thread (s.obj.world.acceptGrant t m).locks (update s.obj.phase t .out)
      (update s.obj.holds t (insert m (s.obj.holds t))) := by
  have hown := h.granted m t ht.live ht.lock ht.mtx hg
  have hl : (s.obj.world.acceptGrant t m).locks =
      s.obj.world.locks.setOwner m (some t) := by
    rw [← hown, Locks.setOwner_self, World.acceptGrant]
    split_ifs <;> rfl
  rw [hl]
  refine Sound.accept h (fun v hv ↦ some.inj (hv.symm.trans hown)) (fun n hn ↦ ?_)
    fun n _ hn _ ↦ some.inj (hn.symm.trans ht.mtx)
  cases hg.symm.trans (h.linked n t hn).2.2.1

/-- The thread finds the mutex free. -/
theorem Sound.take (ht : Tries s t m) (hfree : (s.obj.world.mutex m).owner = none) :
    Sound s.thread (s.obj.world.take (states s) t m).locks (update s.obj.phase t .out)
      (update s.obj.holds t (insert m (s.obj.holds t))) := by
  have hd := Sound.dequeue h t m
  have hnot : t ∉ (s.obj.world.locks.dequeue t m).waiters m := by
    rw [Locks.dequeue, Locks.waiters_setWaiters, if_pos rfl]
    exact (h.nodup m).not_mem_erase
  rw [World.locks_take]
  exact hd.accept (fun v hv ↦ by cases hfree.symm.trans hv) (hd.not_linked ht.mtx hnot)
    fun n _ hn _ ↦ some.inj (hn.symm.trans ht.mtx)

theorem Inv.block (ht : Tries s t m) (hg : (s.obj.world.mutexWaiter t).granted = false)
    (hto : (s.obj.world.mutexWaiter t).timedOut = false) (o : T) : Inv (block s t m o) := by
  have hw : Sound s.thread (s.obj.world.await (states s) t m o).locks s.obj.phase s.obj.holds := by
    by_cases hl : t ∈ (s.obj.world.mutex m).waiters
    · rw [World.locks_await_linked _ _ _ _ _ hl]
      exact h
    · obtain ⟨q, hq, he⟩ := World.locks_await _ (states s) t m o hl
      have hnod : q.Nodup := hq.nodup_iff.mpr (nodup_cons.mpr ⟨hl, h.nodup m⟩)
      rw [he]
      refine (Sound.setWaiters h hnod fun u hu ↦ ?_).setWaiter rfl rfl (fun _ _ ↦ hto) ?_
      · rcases mem_cons.mp (hq.mem_iff.mp hu) with rfl | hu
        · exact .inr ⟨ht.lock, ht.mtx, hg, hto⟩
        · exact .inl hu
      · rintro (hti | hti)
        · exact of_decide_eq_true hti
        · cases hto.symm.trans hti
  exact hw.modify ht.live ht.live

theorem Inv.loopBody (ht : Tries s t m) (hok : loopBody s t m = .ok s') : Inv s' := by
  have hnt : (s.obj.world.mutexWaiter t).call ≠ .timed →
      (s.obj.world.mutexWaiter t).timedOut = false := by
    intro hc
    rw [← Bool.not_eq_true]
    exact fun hto ↦ hc (h.timed t (.inr hto))
  rw [Pi.loopBody] at hok
  split_ifs at hok with hcall
  · rw [passTimed] at hok
    split_ifs at hok with hg hab hto
    · cases hok
      exact inv_succeed ht.live rfl ((Sound.granted_accept h ht hg).stopCallout t)
    · cases hok
      exact inv_fail ht.live
        ((Sound.abort h ht (Bool.not_eq_true _ ▸ hg)).stopCallout t)
    · cases hok
      have hnot : t ∉ s.obj.world.locks.waiters m := by
        intro hl
        cases hto.symm.trans (h.linked m t hl).2.2.2
      have hq := Sound.quit h ht.mtx hnot (Bool.not_eq_true _ ▸ hg)
      exact inv_fail ht.live (hq.stopCallout (w := s.obj.world.clearDependency t) t)
    · split at hok
      · next hfree =>
        cases hok
        exact inv_succeed ht.live rfl ((Sound.take h ht hfree).stopCallout t)
      · split_ifs at hok
        cases hok
        exact h.block ht (Bool.not_eq_true _ ▸ hg) (Bool.not_eq_true _ ▸ hto) _
  · rw [pass] at hok
    split_ifs at hok with hab hpl hg
    · cases hok
      exact inv_fail ht.live (Sound.abort h ht hab.2.2)
    · cases hok
      exact inv_succeed ht.live rfl (Sound.granted_accept h ht hg)
    · split at hok
      · next hfree =>
        cases hok
        exact inv_succeed ht.live rfl (Sound.take h ht hfree)
      · split_ifs at hok
        cases hok
        exact h.block ht (Bool.not_eq_true _ ▸ hg) (hnt hcall) _

/-- The assertions of the locking calls. -/
theorem Inv.loopBody_error_iff (ht : Tries s t m) :
    (∃ a, Pi.loopBody s t m = .error a) ↔ (s.obj.world.mutexWaiter t).call = .plain ∧
      (s.thread t).abort = true ∧ t ∈ (s.obj.world.mutex m).waiters := by
  constructor
  · rintro ⟨a, ha⟩
    rw [Pi.loopBody] at ha
    split_ifs at ha with hcall
    · rw [passTimed] at ha
      split_ifs at ha with hg hab hto
      split at ha
      · cases ha
      · next o howner =>
        split_ifs at ha with ho
        exact absurd (ho ▸ howner) (h.owner_ne ht (Bool.not_eq_true _ ▸ hg))
    · rw [pass] at ha
      split_ifs at ha with hab hpl hg
      · exact ⟨hpl, hab.1, hab.2.1⟩
      · split at ha
        · cases ha
        · next o howner =>
          split_ifs at ha with ho
          exact absurd (ho ▸ howner) (h.owner_ne ht (Bool.not_eq_true _ ▸ hg))
  · rintro ⟨hpl, hab, hl⟩
    have hcall : (s.obj.world.mutexWaiter t).call ≠ .timed := by
      rw [hpl]
      exact nofun
    rw [Pi.loopBody, if_neg hcall, pass, if_pos ⟨hab, hl, (h.linked m t hl).2.2.1⟩, if_pos hpl]
    exact ⟨_, rfl⟩

/-- The state in which the first pass of a call starts. -/
theorem Inv.start (hph : s.obj.phase t ≠ .lock) (hm : m ∉ s.obj.holds t)
    (hr : (s.thread t).reaped = false) (c : LockCall) :
    ∃ a : Sys T M, Inv a ∧ Tries a t m ∧ lock s t m c = Pi.loopBody a t m ∧
      (a.obj.world.mutex m).waiters = (s.obj.world.mutex m).waiters := by
  have hs := Sound.start h hph hm (r := ⟨some m, c, false, false, false⟩) rfl rfl
    (fun hti ↦ hti.elim nofun nofun)
  refine ⟨setPhase (setWorld s (s.obj.world.setMutexWaiter t
    fun _ ↦ ⟨some m, c, false, false, false⟩)) t .lock, hs, ⟨hr, ?_, ?_⟩, rfl, rfl⟩
  · exact update_self ..
  · exact congrArg MutexWaiter.mtx (update_self (β := fun _ ↦ MutexWaiter M) t _ _)

theorem Inv.lock (hph : s.obj.phase t ≠ .lock) (hm : m ∉ s.obj.holds t)
    (hr : (s.thread t).reaped = false) (c : LockCall) (hok : lock s t m c = .ok s') : Inv s' := by
  obtain ⟨a, ha, hta, he, -⟩ := h.start hph hm hr c
  exact ha.loopBody hta (he ▸ hok)

/-- A call that starts is not on the queue, so nothing aborts its first pass. -/
theorem Inv.lock_ne_error (hph : s.obj.phase t ≠ .lock) (hm : m ∉ s.obj.holds t)
    (hr : (s.thread t).reaped = false) (c : LockCall) (a : Assertion) :
    Pi.lock s t m c ≠ .error a := by
  obtain ⟨b, hb, htb, he, hq⟩ := h.start hph hm hr c
  intro herr
  obtain ⟨-, -, hl⟩ := (hb.loopBody_error_iff htb).mp ⟨a, he ▸ herr⟩
  rw [hq] at hl
  exact hph (h.linked m t hl).1

theorem Inv.tryLock (hcall : Calls s t) (m : M) : Inv (tryLock s t m) := by
  rw [Pi.tryLock]
  split_ifs with hfree
  · have hnot : ∀ n, t ∉ s.obj.world.locks.waiters n := by
      intro n hn
      cases hcall.2.symm.trans (h.linked n t hn).1
    have hacc := Sound.accept (m := m) h (fun v hv ↦ nomatch hfree.symm.trans hv) hnot
      fun n hl ↦ nomatch hcall.2.symm.trans hl
    have hph : update s.obj.phase t .out = s.obj.phase := by
      rw [← hcall.2]
      exact update_eq_self ..
    rw [hph, ← World.locks_setOwner] at hacc
    exact hacc
  · exact h

theorem Inv.timeoutFn (hcallout : (s.obj.world.mutexWaiter t).callout = true) (m : M) :
    Inv (timeoutFn s t m) := by
  have hcall := h.timed t (.inl hcallout)
  have hstop := Sound.stopCallout h t
  rw [Pi.timeoutFn]
  split_ifs with hto
  · have hr : (s.thread t).reaped = false := (h.sane t).not_reaped (.inl hto.2.2)
    have hd := hstop.dequeue t m
    have hnot : ∀ n, t ∉ ((s.obj.world.stopCallout t).locks.dequeue t m).waiters n := by
      refine hd.not_linked (hstop.linked m t hto.1).2.1 ?_
      rw [Locks.dequeue, Locks.waiters_setWaiters, if_pos rfl]
      exact (hstop.nodup m).not_mem_erase
    have hc : (((s.obj.world.stopCallout t).locks.dequeue t m).waiter t).call = .timed := by
      have hw : ((s.obj.world.stopCallout t).locks.dequeue t m).waiter t =
          { s.obj.world.mutexWaiter t with callout := false } := update_self ..
      rw [hw]
      exact hcall
    have hset := hd.setWaiter (f := fun r ↦ { r with timedOut := true }) rfl rfl
      (fun n hn ↦ absurd hn (hnot n)) fun _ ↦ hc
    rw [← World.locks_unlink _ (states s)] at hset
    exact hset.modify hr hr
  · exact hstop

theorem Inv.step (hok : step s e = some (.ok s')) : Inv s' := by
  cases e with
  | env e =>
    obtain ⟨a, ha, hok⟩ := map_eq_some_iff.mp hok
    cases hok
    exact h.envStep ha
  | lock t m c =>
    obtain ⟨⟨hcall, hm⟩, hok⟩ := of_guard hok
    exact h.lock (hcall.2 ▸ nofun) hm hcall.1.2.1 c hok
  | tryLock t m =>
    obtain ⟨hcall, hok⟩ := of_guard hok
    cases hok
    exact h.tryLock hcall m
  | unlock t m =>
    obtain ⟨⟨hcall, hm⟩, hok⟩ := of_guard hok
    obtain ⟨hs, hph, -⟩ := Sound.unlock h hcall.1.2.1 hm (hcall.2 ▸ nofun) hok
    rw [Inv, hph]
    exact hs
  | resume t =>
    rw [Pi.step] at hok
    split at hok
    · cases hok
    next m hm =>
      obtain ⟨⟨hrun, hlock⟩, hok⟩ := of_guard hok
      exact h.loopBody ⟨hrun.2.1, hlock, hm⟩ hok
  | timeout t =>
    rw [Pi.step] at hok
    split at hok
    · cases hok
    next m hm =>
      obtain ⟨hco, hok⟩ := of_guard hok
      cases hok
      exact h.timeoutFn hco m
  | release t =>
    obtain ⟨hr, hok⟩ := ite_none_right_eq_some.mp hok
    obtain ⟨a, ha, hok⟩ := map_eq_some_iff.mp hok
    cases hok
    exact h.releaseFirst hr ha
  | condvarWait t m =>
    obtain ⟨⟨hcall, hm⟩, hok⟩ := of_guard hok
    cases hok
    have hs := Sound.rephase (t := t) (p := .condvar m) h (hcall.2 ▸ nofun) nofun
      (fun n hn ↦ hn.elim nofun nofun) fun n hn ↦ by cases hn; exact hm
    exact hs.modify hcall.1.2.1 hcall.1.2.1
  | condvarUnlock t =>
    rw [Pi.step] at hok
    split at hok
    · next m hcv =>
      obtain ⟨⟨-, hr⟩, hok⟩ := of_guard hok
      have hr' := Bool.eq_false_iff.mpr hr
      cases hun : Pi.unlock s t m with
      | error a =>
        rw [hun] at hok
        cases hok
      | ok a =>
        rw [hun] at hok
        cases hok
        -- the unlocking itself does not look at the phase, so it may be taken as outside
        have hout := Sound.rephase (t := t) (p := .out) h (hcv ▸ nofun) nofun
          (fun n hn ↦ hn.elim nofun nofun) nofun
        obtain ⟨hs, hph, hgone⟩ := Sound.unlock hout hr' (h.keeps m t hcv)
          (fun n hn ↦ by rw [update_self] at hn; cases hn) hun
        have hfin := hs.rephase (t := t) (p := .sleep m)
          (by rw [update_self]; exact nofun) nofun
          (fun n hn ↦ by rcases hn with hn | hn <;> cases hn; exact hgone) nofun
        rw [update_idem, ← hph] at hfin
        exact hfin
    · cases hok
  | condvarWake t =>
    rw [Pi.step] at hok
    split at hok
    · obtain ⟨hst, hok⟩ := of_guard hok
      cases hok
      have hr : (s.thread t).reaped = false := (h.sane t).not_reaped (.inl (hst ▸ nofun))
      exact Sound.modify h hr hr
    · obtain ⟨hst, hok⟩ := of_guard hok
      cases hok
      have hr : (s.thread t).reaped = false := (h.sane t).not_reaped (.inl (hst ▸ nofun))
      exact Sound.modify h hr hr
    · cases hok
  | condvarFinish t =>
    rw [Pi.step] at hok
    split at hok
    · next m hsl =>
      obtain ⟨hrun, hok⟩ := of_guard hok
      cases hok
      have hs := Sound.rephase (t := t) (p := .relock m) h (hsl ▸ nofun) nofun
        (fun n hn ↦ by rcases hn with hn | hn <;> cases hn; exact h.apart m t (.inr (.inl hsl)))
        nofun
      exact hs.modify hrun.2.1 hrun.2.1
    · cases hok
  | condvarRelock t =>
    rw [Pi.step] at hok
    split at hok
    · next m hre =>
      obtain ⟨hrun, hok⟩ := of_guard hok
      exact h.lock (hre ▸ nofun) (h.apart m t (.inr (.inr hre))) hrun.2.1 .plain
        hok
    · cases hok
  | staleNudge t =>
    obtain ⟨-, hok⟩ := of_guard hok
    cases hok
    exact h
  | recompute t | setBase t p =>
    cases hok
    exact h
  | refresh m =>
    cases hok
    refine inv_setWorld ?_
    rw [World.locks_refreshWaiters]
    exact h

omit h

theorem Inv.boot (p : T → ℕ) :
    Inv (Sync.Sys.boot ⟨World.init p, fun _ ↦ .out, fun _ ↦ ∅⟩ : Sys T M) where
  sane _ := nofun
  nodup _ := nodup_nil
  linked _ _ := nofun
  timed _ := fun h ↦ h.elim nofun nofun
  granted _ _ _ := nofun
  owned _ _ _ := nofun
  holds _ _ _ hm := absurd hm (Finset.notMem_empty _)
  apart _ _ _ := Finset.notMem_empty _
  keeps _ _ := nofun

theorem Reach.inv (h : Reach s) : Inv s := by
  obtain ⟨p, hrun⟩ := h
  refine hrun.invariant (.boot p) fun a b e ha _ hstep ↦ ?_
  obtain ⟨r, hr, hok⟩ := bind_eq_some_iff.mp hstep
  cases r with
  | error x => cases hok
  | ok c =>
    cases hok
    exact ha.step hr

/-! ## The assertions -/

/-- Everyone that waits for the mutex is dying. -/
def Doomed (s : Sys T M) (m : M) : Prop :=
  (s.obj.world.mutex m).waiters ≠ [] ∧
    ∀ u ∈ (s.obj.world.mutex m).waiters, (s.thread u).state = .terminating

/-- The steps that the source does not expect: a mutex is unlocked that only dying threads wait for,
or a thread in `pi_mutex_lock` runs while it is on the queue and has a reason to abort. -/
inductive Unexpected (s : Sys T M) : Event T M → Prop
  | unlock {t : T} {m : M} (hcall : Calls s t) (hm : m ∈ s.obj.holds t) (hd : Doomed s m) :
      Unexpected s (.unlock t m)
  | condvarUnlock {t : T} {m : M} (hph : s.obj.phase t = .condvar m)
      (hcpu : (s.thread t).onCpu = true) (hr : (s.thread t).reaped = false) (hd : Doomed s m) :
      Unexpected s (.condvarUnlock t)
  | resume {t : T} {m : M} (hm : (s.obj.world.mutexWaiter t).mtx = some m)
      (hrun : (s.thread t).Runs) (hlock : s.obj.phase t = .lock)
      (hcall : (s.obj.world.mutexWaiter t).call = .plain) (habort : (s.thread t).abort = true)
      (hl : t ∈ (s.obj.world.mutex m).waiters) : Unexpected s (.resume t)

theorem Unexpected.error (h : Inv s) (he : Unexpected s e) :
    ∃ a, step s e = some (.error a) := by
  cases he with
  | unlock hcall hm hd =>
    obtain ⟨a, ha⟩ := (h.unlock_error_iff hcall.1.2.1 hm).mpr hd
    exact ⟨a, (if_pos ⟨hcall, hm⟩).trans (congrArg some ha)⟩
  | @condvarUnlock t m hph hcpu hr hd =>
    obtain ⟨a, ha⟩ := (h.unlock_error_iff hr (h.keeps m t hph)).mpr hd
    refine ⟨a, ?_⟩
    rw [Pi.step, hph]
    refine (if_pos ⟨hcpu, Bool.eq_false_iff.mp hr⟩).trans ?_
    rw [ha]
    rfl
  | @resume t m hm hrun hlock hcall habort hl =>
    obtain ⟨a, ha⟩ := (h.loopBody_error_iff ⟨hrun.2.1, hlock, hm⟩).mpr ⟨hcall, habort, hl⟩
    refine ⟨a, ?_⟩
    rw [Pi.step, hm]
    exact (if_pos ⟨hrun, hlock⟩).trans (congrArg some ha)

theorem Inv.unexpected {a : Assertion} (h : Inv s)
    (herr : Pi.step s e = some (.error a)) : Unexpected s e := by
  cases e with
  | env e =>
    obtain ⟨_, _, hok⟩ := map_eq_some_iff.mp herr
    cases hok
  | lock t m c =>
    obtain ⟨⟨hcall, hm⟩, herr⟩ := of_guard herr
    exact absurd herr (h.lock_ne_error (hcall.2 ▸ nofun) hm hcall.1.2.1 c a)
  | tryLock t m | condvarWait t m | staleNudge t =>
    obtain ⟨-, herr⟩ := of_guard herr
    cases herr
  | unlock t m =>
    obtain ⟨⟨hcall, hm⟩, herr⟩ := of_guard herr
    exact .unlock hcall hm ((h.unlock_error_iff hcall.1.2.1 hm).mp ⟨a, herr⟩)
  | resume t =>
    rw [Pi.step] at herr
    split at herr
    · cases herr
    next m hm =>
      obtain ⟨⟨hrun, hlock⟩, herr⟩ := of_guard herr
      obtain ⟨hcall, habort, hl⟩ :=
        (h.loopBody_error_iff ⟨hrun.2.1, hlock, hm⟩).mp ⟨a, herr⟩
      exact .resume hm hrun hlock hcall habort hl
  | timeout t =>
    rw [Pi.step] at herr
    split at herr
    · cases herr
    · obtain ⟨-, herr⟩ := of_guard herr
      cases herr
  | release t =>
    obtain ⟨-, herr⟩ := ite_none_right_eq_some.mp herr
    obtain ⟨_, _, hok⟩ := map_eq_some_iff.mp herr
    cases hok
  | condvarUnlock t =>
    rw [Pi.step] at herr
    split at herr
    · next m hph =>
      obtain ⟨⟨hcpu, hr⟩, herr⟩ := of_guard herr
      have hr' := Bool.eq_false_iff.mpr hr
      refine .condvarUnlock hph hcpu hr' ((h.unlock_error_iff hr' (h.keeps m t hph)).mp ?_)
      cases hun : Pi.unlock s t m with
      | error b => exact ⟨b, rfl⟩
      | ok b =>
        rw [hun] at herr
        cases herr
    · cases herr
  | condvarRelock t =>
    rw [Pi.step] at herr
    split at herr
    · next m hre =>
      obtain ⟨hrun, herr⟩ := of_guard herr
      exact absurd herr (h.lock_ne_error (hre ▸ nofun)
        (h.apart m t (.inr (.inr hre))) hrun.2.1 .plain a)
    · cases herr
  | condvarWake t =>
    rw [Pi.step] at herr
    split at herr
    · obtain ⟨-, herr⟩ := of_guard herr
      cases herr
    · obtain ⟨-, herr⟩ := of_guard herr
      cases herr
    · cases herr
  | condvarFinish t =>
    rw [Pi.step] at herr
    split at herr
    · obtain ⟨-, herr⟩ := of_guard herr
      cases herr
    · cases herr
  | recompute t | refresh m | setBase t p => cases herr

end Steps

/-- **When an assertion fails**: in a reachable state, exactly at the steps that the source does not
expect. -/
theorem assertion_fails_iff {s : Sys T M} (h : Reach s) (e : Event T M) :
    (∃ a, step s e = some (.error a)) ↔ Unexpected s e := by
  constructor
  · rintro ⟨a, ha⟩
    exact h.inv.unexpected ha
  · exact fun he ↦ he.error h.inv

/-- A contended mutex is handed to its waiter, which then waits on a condition variable. -/
theorem assertion_fails_iff_condvar : ∃ s : Sys (Fin 2) (Fin 1), Reach s ∧
    s.obj.phase 1 = .condvar 0 ∧ (s.obj.world.mutex 0).waiters = [0] ∧
    ((∃ a, step s (.condvarUnlock 1) = some (.error a)) ↔ Unexpected s (.condvarUnlock 1)) := by
  obtain ⟨s, hs, hph, hq⟩ : ∃ s : Sys (Fin 2) (Fin 1), Runs.Run goesOn (fun _ _ ↦ True)
      (.boot ⟨World.init fun _ ↦ 0, fun _ ↦ .out, fun _ ↦ ∅⟩) s ∧
      s.obj.phase 1 = .condvar 0 ∧ (s.obj.world.mutex 0).waiters = [0] :=
    exists_run goesOn (fun _ _ ↦ True) _ [.env (.dispatch 0), .lock 0 0 .plain,
      .env (.dispatch 1), .lock 1 0 .timed, .env (.schedule 1), .unlock 0 0, .env (.dispatch 1),
      .resume 1, .lock 0 0 .plain, .condvarWait 1 0] (by decide +kernel)
  exact ⟨s, ⟨_, hs⟩, hph, hq, assertion_fails_iff ⟨_, hs⟩ _⟩

/-- The only waiter of a mutex is killed. Its owner unlocks the mutex, and no waiter is found that
could get it. -/
theorem not_assertions_hold : ¬∀ s : Sys (Fin 2) (Fin 1), Reach s → ∀ e a,
    step s e ≠ some (.error a) := by
  intro hall
  obtain ⟨s, hs, he⟩ : ∃ s : Sys (Fin 2) (Fin 1), Runs.Run goesOn (fun _ _ ↦ True)
      (.boot ⟨World.init fun _ ↦ 0, fun _ ↦ .out, fun _ ↦ ∅⟩) s ∧
      (Calls s 0 ∧ 0 ∈ s.obj.holds 0 ∧ (s.obj.world.mutex 0).waiters = [1] ∧
        (s.thread 1).state = .terminating) :=
    exists_run goesOn (fun _ _ ↦ True) _ [.env (.dispatch 0), .lock 0 0 .plain,
      .env (.dispatch 1), .lock 1 0 .plain, .env (.schedule 1), .env (.kill 1)]
      (by decide +kernel)
  obtain ⟨hcall, hm, hq, hst⟩ := he
  have hd : Doomed s 0 := by
    rw [Doomed, hq]
    exact ⟨nofun, fun u hu ↦ mem_singleton.mp hu ▸ hst⟩
  obtain ⟨a, ha⟩ := Unexpected.error (Reach.inv ⟨_, hs⟩) (.unlock hcall hm hd)
  exact hall s ⟨_, hs⟩ _ a ha

/-- **Mutual exclusion.** Under every interleaving two threads never hold one mutex, and a thread in
the queue of a mutex is there once, does not hold it and is in no other queue. -/
theorem mutual_exclusion {s : Sys T M} (h : Reach s) (m : M) :
    (∀ t u, (s.thread t).reaped = false → (s.thread u).reaped = false → m ∈ s.obj.holds t →
      m ∈ s.obj.holds u → t = u) ∧
    (s.obj.world.mutex m).waiters.Nodup ∧
    ∀ t ∈ (s.obj.world.mutex m).waiters, m ∉ s.obj.holds t ∧
      ∀ m', t ∈ (s.obj.world.mutex m').waiters → m' = m := by
  have hinv := h.inv
  refine ⟨fun t u ht hu hmt hmu ↦ ?_, hinv.nodup m, fun t ht ↦ ?_⟩
  · have howner := (hinv.holds m t ht hmt).symm.trans (hinv.holds m u hu hmu)
    exact Option.some.inj howner
  · obtain ⟨hph, hmtx, -⟩ := hinv.linked m t ht
    refine ⟨hinv.apart m t (.inl ⟨hph, hmtx⟩), fun m' ht' ↦ ?_⟩
    exact Option.some.inj ((hinv.linked m' t ht').2.1.symm.trans hmtx)

/-- One thread holds a mutex, and another one waits for it. -/
theorem mutual_exclusion_contended : ∃ s : Sys (Fin 2) (Fin 1), Reach s ∧ 0 ∈ s.obj.holds 0 ∧
    1 ∈ (s.obj.world.mutex 0).waiters ∧ 0 ∉ s.obj.holds 1 := by
  obtain ⟨s, hs, hm, hq⟩ := Runs.exists_run goesOn (fun _ _ ↦ True)
    (.boot ⟨World.init fun _ ↦ 0, fun _ ↦ .out, fun _ ↦ ∅⟩ : Sys (Fin 2) (Fin 1))
    [.env (.dispatch 0), .lock 0 0 .plain, .env (.dispatch 1), .lock 1 0 .plain]
    (p := fun s ↦ 0 ∈ s.obj.holds 0 ∧ 1 ∈ (s.obj.world.mutex 0).waiters) (by decide +kernel)
  exact ⟨s, ⟨_, hs⟩, hm, hq, ((mutual_exclusion ⟨_, hs⟩ 0).2.2 1 hq).1⟩

end Mazu.Sync.Pi
