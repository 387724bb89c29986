import Mazu.Sync.PiMutex

/-!
# Who owns a mutex

Who owns a mutex and who waits for it does not depend on priorities: leaving them out gives a
protocol of its own, in which every operation of the source is a few elementary moves. A live thread
owns what its calls have locked, and what it has been granted and not yet taken note of; each move
keeps that.
-/

namespace Mazu.Sync.Pi

open Function

set_option linter.unusedSectionVars false

open Sched (TdState)

variable {T M : Type} [DecidableEq T] [DecidableEq M]

/-- Owners, queues and the records of the waiters. -/
structure Locks (T M : Type) where
  owner : M → Option T
  waiters : M → List T
  waiter : T → MutexWaiter M

namespace World

variable (w : World T M)

def locks : Locks T M where
  owner m := (w.mutex m).owner
  waiters m := (w.mutex m).waiters
  waiter := w.mutexWaiter

end World

namespace Locks

variable (l : Locks T M)

def setOwner (m : M) (o : Option T) : Locks T M :=
  { l with owner := update l.owner m o }

def setWaiters (m : M) (q : List T) : Locks T M :=
  { l with waiters := update l.waiters m q }

def dequeue (t : T) (m : M) : Locks T M := l.setWaiters m ((l.waiters m).erase t)

def setWaiter (t : T) (f : MutexWaiter M → MutexWaiter M) : Locks T M :=
  { l with waiter := update l.waiter t (f (l.waiter t)) }

/-- Direct handover. -/
def give (m : M) (u : T) : Locks T M :=
  ((l.dequeue u m).setOwner m (some u)).setWaiter u fun r ↦ { r with granted := true }

theorem setOwner_self (m : M) : l.setOwner m (l.owner m) = l :=
  congrArg (fun o ↦ { l with owner := o }) (update_eq_self m _)

theorem setWaiters_self (m : M) : l.setWaiters m (l.waiters m) = l :=
  congrArg (fun q ↦ { l with waiters := q }) (update_eq_self m _)

theorem owner_setOwner (m n : M) (o : Option T) :
    (l.setOwner m o).owner n = if n = m then o else l.owner n :=
  update_apply ..

theorem waiters_setWaiters (m n : M) (q : List T) :
    (l.setWaiters m q).waiters n = if n = m then q else l.waiters n :=
  update_apply ..

theorem mem_of_dequeue {t u : T} {m n : M} (h : u ∈ (l.dequeue t m).waiters n) :
    u ∈ l.waiters n := by
  rw [dequeue, waiters_setWaiters] at h
  split_ifs at h with hn
  · exact hn ▸ List.mem_of_mem_erase h
  · exact h

/-- A mutex that at most one thread owned, and at most that thread owns now. -/
theorem owner_off {o : Option T} {t u : T} {m : M} (hold : ∀ v, l.owner m = some v → v = t)
    (hnew : ∀ v, o = some v → v = t) (hu : u ≠ t) (n : M) :
    (l.setOwner m o).owner n = some u ↔ l.owner n = some u := by
  rw [owner_setOwner]
  split_ifs with hn
  · subst hn
    exact ⟨fun h ↦ absurd (hnew u h) hu, fun h ↦ absurd (hold u h) hu⟩
  · rfl

end Locks

/-! ## The operations without priorities -/

namespace World

variable (w : World T M) (st : T → TdState) (t u : T) (m : M)

theorem locks_setMutex (f : Mutex T → Mutex T) : (w.setMutex m f).locks =
    (w.locks.setOwner m (f (w.mutex m)).owner).setWaiters m (f (w.mutex m)).waiters := by
  rw [Locks.mk.injEq]
  refine ⟨funext fun n ↦ ?_, funext fun n ↦ ?_, rfl⟩
  · exact apply_update (fun _ x ↦ Mutex.owner x) w.mutex m _ n
  · exact apply_update (fun _ x ↦ Mutex.waiters x) w.mutex m _ n

/-- Only the queue changes. -/
theorem locks_setWaiters (f : Mutex T → Mutex T) (hf : (f (w.mutex m)).owner = (w.mutex m).owner) :
    (w.setMutex m f).locks = w.locks.setWaiters m (f (w.mutex m)).waiters := by
  have hown : w.locks.setOwner m (w.mutex m).owner = w.locks := w.locks.setOwner_self m
  rw [locks_setMutex, hf, hown]

@[simp] theorem locks_refreshWaiters : (w.refreshWaiters st m).locks = w.locks :=
  (w.locks_setWaiters m _ rfl).trans (w.locks.setWaiters_self m)

@[simp] theorem locks_recomputePrio : (w.recomputePrio t).locks = w.locks := rfl

@[simp] theorem locks_recomputeOwner (o : Option T) : (w.recomputeOwner o).locks = w.locks := by
  cases o <;> rfl

theorem locks_dequeue : (w.dequeue t m).locks = w.locks.dequeue t m := w.locks_setWaiters m _ rfl

theorem locks_setOwner (o : Option T) : (w.setOwner m o).locks = w.locks.setOwner m o := by
  have h := w.locks_setMutex m fun x ↦ { x with owner := o }
  exact h.trans ((w.locks.setOwner m o).setWaiters_self m)

theorem locks_unlink : (w.unlink st t m).locks = w.locks.dequeue t m := by
  rw [unlink, locks_recomputeOwner, locks_refreshWaiters, locks_dequeue]

theorem locks_handOver : (w.handOver st m u).locks = w.locks.give m u := by
  have h : (((w.dequeue u m).refreshWaiters st m).setOwner m (some u)).locks =
      (w.locks.dequeue u m).setOwner m (some u) := by
    rw [locks_setOwner, locks_refreshWaiters, locks_dequeue]
  rw [Locks.give, ← h]
  rfl

end World

/-! ## Who owns what -/

/-- The call that a thread is in is about a mutex that it does not hold. -/
def Acquires (l : Locks T M) (ph : T → Phase M) (u : T) (m : M) : Prop :=
  ph u = .lock ∧ (l.waiter u).mtx = some m ∨ ph u = .sleep m ∨ ph u = .relock m

/-- A thread that belongs on the queue of the mutex. -/
def Waits (l : Locks T M) (ph : T → Phase M) (u : T) (m : M) : Prop :=
  ph u = .lock ∧ (l.waiter u).mtx = some m ∧ (l.waiter u).granted = false ∧
    (l.waiter u).timedOut = false

structure Sound (th : T → Thread) (l : Locks T M) (ph : T → Phase M) (hold : T → Finset M) :
    Prop where
  sane : ∀ u, (th u).Sane
  nodup : ∀ m, (l.waiters m).Nodup
  linked : ∀ m, ∀ u ∈ l.waiters m, Waits l ph u m
  timed : ∀ u, (l.waiter u).callout = true ∨ (l.waiter u).timedOut = true →
    (l.waiter u).call = .timed
  granted : ∀ m u, (th u).reaped = false → ph u = .lock → (l.waiter u).mtx = some m →
    (l.waiter u).granted = true → l.owner m = some u
  owned : ∀ m u, (th u).reaped = false → l.owner m = some u →
    m ∈ hold u ∨ ph u = .lock ∧ (l.waiter u).mtx = some m ∧ (l.waiter u).granted = true
  holds : ∀ m u, (th u).reaped = false → m ∈ hold u → l.owner m = some u
  apart : ∀ m u, Acquires l ph u m → m ∉ hold u
  keeps : ∀ m u, ph u = .condvar m → m ∈ hold u

/-- What is asked of one thread: `Owns` are the mutexes that it is the owner of, and `On` those that
it is on the queue of. -/
structure SoundAt (d : Thread) (r : MutexWaiter M) (p : Phase M) (hold : Finset M)
    (Owns On : M → Prop) : Prop where
  sane : d.Sane
  linked : ∀ m, On m → p = .lock ∧ r.mtx = some m ∧ r.granted = false ∧ r.timedOut = false
  timed : r.callout = true ∨ r.timedOut = true → r.call = .timed
  granted : ∀ m, d.reaped = false → p = .lock → r.mtx = some m → r.granted = true → Owns m
  owned : ∀ m, d.reaped = false → Owns m →
    m ∈ hold ∨ p = .lock ∧ r.mtx = some m ∧ r.granted = true
  holds : ∀ m, d.reaped = false → m ∈ hold → Owns m
  apart : ∀ m, p = .lock ∧ r.mtx = some m ∨ p = .sleep m ∨ p = .relock m → m ∉ hold
  keeps : ∀ m, p = .condvar m → m ∈ hold

namespace Sound

variable {th th' : T → Thread} {l l' : Locks T M} {ph ph' : T → Phase M}
  {hold hold' : T → Finset M} {t u : T} {m : M}

variable (h : Sound th l ph hold)

include h

theorem threads (hsane : ∀ u, (th' u).Sane)
    (hr : ∀ u, (th' u).reaped = false → (th u).reaped = false) : Sound th' l ph hold where
  sane := hsane
  nodup := h.nodup
  linked := h.linked
  timed := h.timed
  granted m u hu := h.granted m u (hr u hu)
  owned m u hu := h.owned m u (hr u hu)
  holds m u hu := h.holds m u (hr u hu)
  apart := h.apart
  keeps := h.keeps

theorem part (u : T) : SoundAt (th u) (l.waiter u) (ph u) (hold u) (l.owner · = some u)
    (u ∈ l.waiters ·) :=
  ⟨h.sane u, fun m ↦ h.linked m u, h.timed u, fun m ↦ h.granted m u, fun m ↦ h.owned m u,
    fun m ↦ h.holds m u, fun m ↦ h.apart m u, fun m ↦ h.keeps m u⟩

/-- **One thread changes**, and what the others own and wait for stays. -/
theorem change (t : T) (hoff : ∀ u ≠ t, l'.waiter u = l.waiter u ∧ ph' u = ph u ∧ hold' u = hold u)
    (howner : ∀ u ≠ t, ∀ m, l'.owner m = some u ↔ l.owner m = some u)
    (hsub : ∀ u ≠ t, ∀ m, u ∈ l'.waiters m → u ∈ l.waiters m) (hnodup : ∀ m, (l'.waiters m).Nodup)
    (ht : SoundAt (th t) (l'.waiter t) (ph' t) (hold' t) (l'.owner · = some t)
      (t ∈ l'.waiters ·)) : Sound th l' ph' hold' := by
  have hat : ∀ u, SoundAt (th u) (l'.waiter u) (ph' u) (hold' u) (l'.owner · = some u)
      (u ∈ l'.waiters ·) := by
    intro u
    by_cases hu : u = t
    · exact hu ▸ ht
    · obtain ⟨hw, hp, hh⟩ := hoff u hu
      have hu' := h.part u
      rw [hw, hp, hh]
      exact { hu' with
        linked := fun m hm ↦ hu'.linked m (hsub u hu m hm)
        granted := fun m hr hl hm hg ↦ (howner u hu m).mpr (hu'.granted m hr hl hm hg)
        owned := fun m hr ho ↦ hu'.owned m hr ((howner u hu m).mp ho)
        holds := fun m hr hm ↦ (howner u hu m).mpr (hu'.holds m hr hm) }
  exact ⟨fun u ↦ (hat u).sane, hnodup, fun m u ↦ (hat u).linked m, fun u ↦ (hat u).timed,
    fun m u ↦ (hat u).granted m, fun m u ↦ (hat u).owned m, fun m u ↦ (hat u).holds m,
    fun m u ↦ (hat u).apart m, fun m u ↦ (hat u).keeps m⟩

/-- A thread on a queue is on one only. -/
theorem not_linked (hm : (l.waiter t).mtx = some m) (hnot : t ∉ l.waiters m) (n : M)
    : t ∉ l.waiters n := by
  intro hl
  have hn := (h.linked n t hl).2.1
  cases hm.symm.trans hn
  exact hnot hl

theorem setWaiters {q : List T} (hq : q.Nodup) (hl : ∀ u ∈ q, u ∈ l.waiters m ∨ Waits l ph u m) :
    Sound th (l.setWaiters m q) ph hold where
  sane := h.sane
  nodup n := by
    rw [Locks.waiters_setWaiters]
    split_ifs
    · exact hq
    · exact h.nodup n
  linked n u hu := by
    rw [Locks.waiters_setWaiters] at hu
    split_ifs at hu with hn
    · rw [hn]
      exact (hl u hu).elim (h.linked m u) id
    · exact h.linked n u hu
  timed := h.timed
  granted := h.granted
  owned := h.owned
  holds := h.holds
  apart := h.apart
  keeps := h.keeps

theorem dequeue (t : T) (m : M) : Sound th (l.dequeue t m) ph hold :=
  h.setWaiters ((h.nodup m).erase t) fun _ hu ↦ .inl (List.mem_of_mem_erase hu)

/-- A change of a record that is not about its mutex or the grant. -/
theorem setWaiter {f : MutexWaiter M → MutexWaiter M}
    (hm : (f (l.waiter t)).mtx = (l.waiter t).mtx)
    (hg : (f (l.waiter t)).granted = (l.waiter t).granted)
    (hto : ∀ n, t ∈ l.waiters n → (f (l.waiter t)).timedOut = false)
    (hti : (f (l.waiter t)).callout = true ∨ (f (l.waiter t)).timedOut = true →
      (f (l.waiter t)).call = .timed) : Sound th (l.setWaiter t f) ph hold := by
  have hself : (l.setWaiter t f).waiter t = f (l.waiter t) := update_self ..
  obtain ⟨hsane, hlinked, -, hgranted, howned, hholds, hapart, hkeeps⟩ := h.part t
  refine h.change t (fun u hu ↦ ⟨update_of_ne hu .., rfl, rfl⟩) (fun _ _ _ ↦ Iff.rfl)
    (fun _ _ _ ↦ id) h.nodup ?_
  rw [hself]
  simp only [← hm, ← hg] at hlinked hgranted howned hapart
  refine ⟨hsane, fun n hn ↦ ?_, hti, hgranted, howned, hholds, hapart, hkeeps⟩
  obtain ⟨hl, hmtx, hfalse, -⟩ := hlinked n hn
  exact ⟨hl, hmtx, hfalse, hto n hn⟩

/-- A call starts with a new record. -/
theorem start (hph : ph t ≠ .lock) (hm : m ∉ hold t) {r : MutexWaiter M} (hr : r.mtx = some m)
    (hg : r.granted = false) (hti : r.callout = true ∨ r.timedOut = true → r.call = .timed) :
    Sound th (l.setWaiter t fun _ ↦ r) (update ph t .lock) hold := by
  have hself : (l.setWaiter t fun _ ↦ r).waiter t = r := update_self ..
  have hat := h.part t
  refine h.change t (fun u hu ↦ ⟨update_of_ne hu .., update_of_ne hu .., rfl⟩)
    (fun _ _ _ ↦ Iff.rfl) (fun _ _ _ ↦ id) h.nodup ?_
  rw [hself, update_self]
  refine ⟨hat.sane, fun n hn ↦ absurd (hat.linked n hn).1 hph, hti, fun n _ _ _ hgr ↦ ?_,
    fun n hreap hown ↦ .inl ((hat.owned n hreap hown).resolve_right fun hl ↦ hph hl.1), hat.holds,
    fun n ha ↦ ?_, nofun⟩
  · cases hg.symm.trans hgr
  · rcases ha with ⟨-, ha⟩ | ha | ha
    · cases hr.symm.trans ha
      exact hm
    · cases ha
    · cases ha

/-- A thread outside the locking calls goes on with its own. -/
theorem rephase (hph : ph t ≠ .lock) {p : Phase M} (hp : p ≠ .lock)
    (hap : ∀ n, p = .sleep n ∨ p = .relock n → n ∉ hold t) (hk : ∀ n, p = .condvar n → n ∈ hold t)
    : Sound th l (update ph t p) hold := by
  have hat := h.part t
  refine h.change t (fun u hu ↦ ⟨rfl, update_of_ne hu .., rfl⟩) (fun _ _ _ ↦ Iff.rfl)
    (fun _ _ _ ↦ id) h.nodup ?_
  rw [update_self]
  exact ⟨hat.sane, fun n hn ↦ absurd (hat.linked n hn).1 hph, hat.timed,
    fun _ _ hl ↦ absurd hl hp,
    fun n hr ho ↦ .inl ((hat.owned n hr ho).resolve_right fun hl ↦ hph hl.1), hat.holds,
    fun n ha ↦ hap n (ha.resolve_left fun hl ↦ hp hl.1), hk⟩

/-! ## Giving a mutex up -/

/-- The owner is gone for good. -/
theorem abandon (hown : l.owner m = some t) (hr : (th t).reaped = true)
    : Sound th (l.setOwner m none) ph hold := by
  have hone : ∀ v, l.owner m = some v → v = t := fun v hv ↦ Option.some.inj (hv.symm.trans hown)
  have hlive : ¬(th t).reaped = false := fun hl ↦ nomatch hr.symm.trans hl
  have hat := h.part t
  exact h.change t (fun _ _ ↦ ⟨rfl, rfl, rfl⟩) (fun _ hu ↦ l.owner_off hone nofun hu)
    (fun _ _ _ ↦ id) h.nodup ⟨hat.sane, hat.linked, hat.timed, fun _ hl ↦ absurd hl hlive,
      fun _ hl ↦ absurd hl hlive, fun _ hl ↦ absurd hl hlive, hat.apart, hat.keeps⟩

/-- A caller gives up what it holds. -/
theorem release (hr : (th t).reaped = false) (hm : m ∈ hold t) (hph : ∀ n, ph t ≠ .condvar n) :
    Sound th (l.setOwner m none) ph (update hold t ((hold t).erase m)) := by
  have hown : ∀ v, l.owner m = some v → v = t :=
    fun v hv ↦ Option.some.inj (hv.symm.trans (h.holds m t hr hm))
  have hat := h.part t
  refine h.change t (fun u hu ↦ ⟨rfl, rfl, update_of_ne hu ..⟩)
    (fun _ hu ↦ l.owner_off hown nofun hu) (fun _ _ _ ↦ id) h.nodup ?_
  rw [update_self]
  refine ⟨hat.sane, hat.linked, hat.timed, fun n _ hl hmtx hg ↦ ?_, fun n _ ho ↦ ?_,
    fun n _ hh ↦ ?_, fun n ha hn ↦ hat.apart n ha (Finset.mem_of_mem_erase hn),
    fun n hcv ↦ absurd hcv (hph n)⟩
  · rw [Locks.owner_setOwner, if_neg]
    · exact hat.granted n hr hl hmtx hg
    · rintro rfl
      exact hat.apart n (.inl ⟨hl, hmtx⟩) hm
  · rw [Locks.owner_setOwner] at ho
    split_ifs at ho with hn
    exact (hat.owned n hr ho).imp_left fun hh ↦ Finset.mem_erase.mpr ⟨hn, hh⟩
  · obtain ⟨hn, hh⟩ := Finset.mem_erase.mp hh
    rw [Locks.owner_setOwner, if_neg hn]
    exact hat.holds n hr hh

/-- A free mutex is handed to a live waiter. -/
theorem give (hfree : l.owner m = none) (hu : u ∈ l.waiters m) : Sound th (l.give m u) ph hold := by
  obtain ⟨hlock, hmtx, -, -⟩ := h.linked m u hu
  have hd := h.dequeue u m
  have hnot : ∀ n, u ∉ (l.dequeue u m).waiters n := by
    refine hd.not_linked hmtx ?_
    rw [Locks.dequeue, Locks.waiters_setWaiters, if_pos rfl]
    exact (h.nodup m).not_mem_erase
  have hself : (l.give m u).waiter u = { l.waiter u with granted := true } :=
    update_self ..
  have hown : ∀ n, (l.give m u).owner n = if n = m then some u else l.owner n :=
    fun n ↦ update_apply ..
  have hat := h.part u
  refine h.change u (fun v hv ↦ ⟨update_of_ne hv .., rfl, rfl⟩)
    (fun _ hv ↦ (l.dequeue u m).owner_off (fun w hw ↦ nomatch hfree.symm.trans hw)
      (fun w hw ↦ (Option.some.inj hw).symm) hv)
    (fun _ _ _ hv ↦ l.mem_of_dequeue hv) hd.nodup ?_
  rw [hself]
  refine ⟨hat.sane, fun n hn ↦ absurd hn (hnot n), hat.timed, fun n _ _ hm _ ↦ ?_,
    fun n hr ho ↦ ?_, fun n hr hh ↦ ?_, hat.apart, hat.keeps⟩
  · cases hmtx.symm.trans hm
    rw [hown, if_pos rfl]
  · rw [hown] at ho
    split_ifs at ho with hn
    · exact .inr ⟨hlock, hn ▸ hmtx, rfl⟩
    · exact (hat.owned n hr ho).imp_right fun ⟨hl, hm, _⟩ ↦ ⟨hl, hm, rfl⟩
  · have ho : l.owner n = some u := hat.holds n hr hh
    rw [hown, if_neg]
    · exact ho
    · rintro rfl
      cases hfree.symm.trans ho

/-! ## The end of a call -/

/-- A call ends without the mutex. -/
theorem quit (hm : (l.waiter t).mtx = some m) (hnot : t ∉ l.waiters m)
    (hg : (l.waiter t).granted = false) : Sound th l (update ph t .out) hold := by
  have hat := h.part t
  refine h.change t (fun u hu ↦ ⟨rfl, update_of_ne hu .., rfl⟩) (fun _ _ _ ↦ Iff.rfl)
    (fun _ _ _ ↦ id) h.nodup ?_
  rw [update_self]
  refine ⟨hat.sane, fun n hn ↦ absurd hn (h.not_linked hm hnot n), hat.timed,
    nofun, fun n hr ho ↦ .inl ((hat.owned n hr ho).resolve_right ?_), hat.holds,
    fun n ha ↦ ?_, nofun⟩
  · exact fun hl ↦ nomatch hg.symm.trans hl.2.2
  · rcases ha with ⟨ha, -⟩ | ha | ha <;> cases ha

/-- A call ends with the mutex, which was free or is the thread's already. -/
theorem accept (hown : ∀ v, l.owner m = some v → v = t) (hnot : ∀ n, t ∉ l.waiters n)
    (honly : ∀ n, ph t = .lock → (l.waiter t).mtx = some n → (l.waiter t).granted = true → n = m) :
    Sound th (l.setOwner m (some t)) (update ph t .out)
      (update hold t (insert m (hold t))) := by
  have hat := h.part t
  refine h.change t
    (fun u hu ↦ ⟨rfl, update_of_ne hu .., update_of_ne hu ..⟩)
    (fun _ hu ↦ l.owner_off hown (fun w hw ↦ (Option.some.inj hw).symm) hu) (fun _ _ _ ↦ id)
    h.nodup ?_
  rw [update_self, update_self]
  refine ⟨hat.sane, fun n hn ↦ absurd hn (hnot n), hat.timed, nofun,
    fun n hr ho ↦ .inl ?_, fun n hr hh ↦ ?_, fun n ha ↦ ?_, nofun⟩
  · rw [Locks.owner_setOwner] at ho
    split_ifs at ho with hn
    · exact hn ▸ Finset.mem_insert_self n _
    · rcases hat.owned n hr ho with hh | ⟨hl, hm, hg⟩
      · exact Finset.mem_insert_of_mem hh
      · exact absurd (honly n hl hm hg) hn
  · rw [Locks.owner_setOwner]
    split_ifs with hn
    · rfl
    · exact hat.holds n hr (Finset.mem_of_mem_insert_of_ne hh hn)
  · rcases ha with ⟨ha, -⟩ | ha | ha <;> cases ha

end Sound

end Mazu.Sync.Pi
