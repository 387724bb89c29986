import Mazu.Lib.Tally
import Mazu.Sync.Rwlock

/-!
# What a reader-writer lock accounts for

`reader_count` is the number of times that the lock is held or was granted for reading, or -1 when
it is held or granted for writing. A waiter is on one queue once, and is not on it any more when it
has a grant.

Nothing is assumed of the threads' surroundings. A count that reaches the end of its range wraps
round to a value at which the lock stays for good.
-/

namespace Mazu.Sync.Rwlock

open Function List

variable {T : Type}

theorem Mode.write_ne_read : Mode.write ≠ .read := by decide

/-- What the accounts read of a thread. -/
structure Part where
  inside : Bool
  mode : Mode
  granted : Bool
  holds : Mode → ℕ

def part (s : Sys T) (u : T) : Part where
  inside := (s.thread u).inside
  mode := (s.obj.waiter u).mode
  granted := (s.obj.waiter u).granted
  holds := s.obj.holds u

variable (p : Part) (m : Mode)

namespace Part

/-- The thread is inside its call with a grant that it has not seen. -/
def Granted : Prop := p.inside = true ∧ p.granted = true ∧ p.mode = m

/-- The thread waits for a grant. -/
def Waits : Prop := p.inside = true ∧ p.granted = false ∧ p.mode = m

instance (p : Part) (m : Mode) : Decidable (p.Granted m) := inferInstanceAs (Decidable (_ ∧ _ ∧ _))

/-- How often the lock is held by the thread or was granted to it. -/
def share : ℕ := p.holds m + if p.Granted m then 1 else 0

theorem share_of_not_granted {p : Part} {m : Mode} (h : ¬p.Granted m) : p.share m = p.holds m := by
  rw [share, if_neg h, Nat.add_zero]

theorem Waits.not_granted {p : Part} {m m' : Mode} (h : p.Waits m) : ¬p.Granted m' := by
  intro hg
  cases h.2.1.symm.trans hg.2.1

def grant : Part := { p with granted := true }

def setHolds (n : ℕ) : Part :=
  { p with holds := update p.holds m n }

/-- A grant adds one in the mode that the thread waits for. -/
theorem Waits.share_grant {p : Part} {m : Mode} (h : p.Waits m) (m' : Mode) :
    p.grant.share m' = p.share m' + if m' = m then 1 else 0 := by
  rw [share_of_not_granted h.not_granted]
  refine congrArg _ (if_congr ?_ rfl rfl)
  exact ⟨fun hg ↦ hg.2.2.symm.trans h.2.2, fun hm ↦ ⟨h.1, rfl, h.2.2.trans hm.symm⟩⟩

theorem share_setHolds (m' : Mode) (n : ℕ) :
    (p.setHolds m n).share m' + p.holds m' = p.share m' + if m' = m then n else p.holds m' := by
  have hh : (p.setHolds m n).holds m' = if m' = m then n else p.holds m' :=
    update_apply ..
  have hg : (if (p.setHolds m n).Granted m' then 1 else 0) = if p.Granted m' then 1 else 0 := rfl
  rw [share, share]
  omega

end Part

/-- The number of readers that the count stands for, or one writer. The last case is a count that
has wrapped round, which a bound `lo` on the count may exclude. -/
def Ledger (lo rc : ℤ) (reads writes : ℕ) : Prop :=
  lo ≤ -1 ∧ lo ≤ rc ∧ (rc = -1 ∧ reads = 0 ∧ writes = 1 ∨
    0 ≤ rc ∧ rc < 2 ^ 31 ∧ rc = reads ∧ writes = 0 ∨ rc = -2 ^ 31 ∧ writes = 0)

/-- How often the lock is held or granted in a mode. -/
def total [Fintype T] (s : Sys T) (m : Mode) : ℕ := ∑ u, (part s u).share m

structure Sound [Fintype T] (lo : ℤ) (s : Sys T) : Prop where
  readerNodup : s.obj.readerWaitq.Nodup
  writerNodup : s.obj.writerWaitq.Nodup
  reader : ∀ u ∈ s.obj.readerWaitq, (part s u).Waits .read
  writer : ∀ u ∈ s.obj.writerWaitq, (part s u).Waits .write
  ledger : Ledger lo s.obj.readerCount (total s .read) (total s .write)

/-- A waiter is not killed between its grant and its return, and the count is not at the end of its
range when a reader comes. -/
def Spared (s : Sys T) : Event T → Prop
  | .env (.kill t) => ¬((s.thread t).inside = true ∧ (s.obj.waiter t).granted = true)
  | .lock _ .read _ => s.obj.readerCount ≠ 2 ^ 31 - 1
  | .tryLock _ .read => s.obj.readerCount ≠ 2 ^ 31 - 1
  | _ => True

section Parts

variable [DecidableEq T]

variable (s : Sys T) (t u : T)

theorem part_modify (f : Thread → Thread) :
    part (s.modify t f) u =
      if u = t then { part s t with inside := (f (s.thread t)).inside } else part s u := by
  rw [part, thread_modify]
  split_ifs with hu
  · subst hu
    rfl
  · rfl

theorem part_setWaiter (f : Waiter → Waiter) :
    part (setWaiter s t f) u = if u = t then { part s t with
      mode := (f (s.obj.waiter t)).mode
      granted := (f (s.obj.waiter t)).granted } else part s u := by
  have hw : (setWaiter s t f).obj.waiter u =
      if u = t then f _ else s.obj.waiter u := update_apply ..
  rw [part, hw]
  split_ifs with hu
  · subst hu
    rfl
  · rfl

theorem part_setHolds (m : Mode) (n : ℕ) :
    part (setHolds s t m n) u =
      if u = t then (part s t).setHolds m n else part s u := by
  have hh : (setHolds s t m n).obj.holds u =
      if u = t then update _ m n else s.obj.holds u :=
    update_apply ..
  rw [part, hh]
  split_ifs with hu
  · subst hu
    rfl
  · rfl

/-- A record whose grant is not touched. -/
theorem part_setWaiter_same {f : Waiter → Waiter}
    (hf : ∀ w, (f w).mode = w.mode ∧ (f w).granted = w.granted) :
    part (setWaiter s t f) u = part s u := by
  rw [part_setWaiter]
  split_ifs with hu
  · subst hu
    rw [(hf _).1, (hf _).2]
    rfl
  · rfl

theorem part_wakeReady : part (s.modify t Thread.wakeReady) u = part s u := by
  rw [part_modify]
  split_ifs with hu
  · subst hu
    rfl
  · rfl

theorem part_grantReader :
    part (grantReader s t) u = if u = t then (part s t).grant else part s u := by
  rw [grantReader, part_wakeReady, part_setWaiter]
  rfl

theorem part_grantWriter (rest : List T) :
    part (grantWriter s t rest) u =
      if u = t then (part s t).grant else part s u := by
  rw [grantWriter, part_wakeReady, part_setWaiter]
  rfl

omit [DecidableEq T] in
theorem part_enqueue (m : Mode) : part (enqueue s t m) u = part s u := by
  cases m <;> rfl

theorem part_block (m : Mode) (timed : Bool) :
    part (block s t m timed) u =
      if u = t then ⟨true, m, false, (part s t).holds⟩ else part s u := by
  rw [block, part_modify, part_setWaiter, part_setWaiter, part_enqueue, part_enqueue, if_pos rfl]
  split_ifs
  · rfl
  · rfl

/-! ## What the waking loops leave alone -/

theorem queues_wakeReadersLoop (ts : List T) :
    (wakeReadersLoop s ts).obj.readerWaitq = s.obj.readerWaitq ∧
      (wakeReadersLoop s ts).obj.writerWaitq = s.obj.writerWaitq ∧
      (wakeReadersLoop s ts).obj.writerPending = s.obj.writerPending := by
  induction ts generalizing s with
  | nil => exact ⟨rfl, rfl, rfl⟩
  | cons t ts ih =>
    rw [wakeReadersLoop]
    split_ifs
    · exact ih s
    · exact ih _

theorem wakeReadersLoop_of_not_mem {ts : List T} {u : T} (hu : u ∉ ts)
    : (wakeReadersLoop s ts).obj.waiter u = s.obj.waiter u ∧
      (wakeReadersLoop s ts).thread u = s.thread u := by
  induction ts generalizing s with
  | nil => exact ⟨rfl, rfl⟩
  | cons t ts ih =>
    rw [mem_cons, not_or] at hu
    rw [wakeReadersLoop]
    split_ifs
    · exact ih s hu.2
    · obtain ⟨hw, ht⟩ := ih _ hu.2
      exact ⟨hw.trans (update_of_ne hu.1 ..), ht.trans (update_of_ne hu.1 ..)⟩

theorem queues_wakeReadersLocked :
    (wakeReadersLocked s).obj.readerWaitq = [] ∧
      (wakeReadersLocked s).obj.writerWaitq = s.obj.writerWaitq ∧
      (wakeReadersLocked s).obj.writerPending = s.obj.writerPending :=
  queues_wakeReadersLoop { s with obj := { s.obj with readerWaitq := [] } } _

theorem wakeReadersLocked_of_not_mem {s : Sys T} {u : T}
    (hu : u ∉ s.obj.readerWaitq) : (wakeReadersLocked s).obj.waiter u = s.obj.waiter u ∧
      (wakeReadersLocked s).thread u = s.thread u :=
  wakeReadersLoop_of_not_mem { s with obj := { s.obj with readerWaitq := [] } } hu

end Parts

/-! ## One change -/

section Sound

variable [Fintype T] {lo : ℤ} {s s' : Sys T}

theorem total_congr (h : ∀ u, part s' u = part s u) (m : Mode) : total s' m = total s m :=
  Finset.sum_congr rfl fun u _ ↦ by rw [h u]

theorem total_change [DecidableEq T] {t : T} (h : ∀ u ≠ t, part s' u = part s u) (m : Mode) :
    total s' m + (part s t).share m = total s m + (part s' t).share m :=
  Tally.sum_add_of_eq_off
    fun u hu ↦ congrArg (Part.share · m) (h u hu)

theorem total_eq [DecidableEq T] {t : T} (h : ∀ u ≠ t, part s' u = part s u) {m : Mode}
    (ht : (part s' t).share m = (part s t).share m) : total s' m = total s m := by
  have hch := total_change h m
  rw [ht] at hch
  exact Nat.add_right_cancel hch

theorem holds_le_total (s : Sys T) (u : T) (m : Mode) : s.obj.holds u m ≤ total s m :=
  (Nat.le_add_right _ _).trans (Tally.le_sum (fun u ↦ (part s u).share m) u)

theorem total_letGo [DecidableEq T] (s : Sys T) (t : T) {m : Mode} (hh : 0 < s.obj.holds t m)
    (m' : Mode) : total (letGo s t m) m' + (if m' = m then 1 else 0) = total s m' := by
  have hp := fun u ↦ part_setHolds s t u m (s.obj.holds t m - 1)
  have hoff : ∀ u ≠ t, part (letGo s t m) u = part s u := fun u hu ↦ (hp u).trans (if_neg hu)
  have hch := total_change hoff m'
  have hsh := (part s t).share_setHolds m m' (s.obj.holds t m - 1)
  rw [letGo, hp, if_pos rfl] at hch
  have hle : (part s t).holds m = s.obj.holds t m := rfl
  rw [letGo]
  split_ifs at hsh ⊢ with hm
  · subst hm
    omega
  · omega

namespace Sound

variable (h : Sound lo s)

include h

/-- Threads leave the queues, and nothing else changes that the accounts read. -/
theorem congr (hrc : s'.obj.readerCount = s.obj.readerCount)
    (hr : s'.obj.readerWaitq.Sublist s.obj.readerWaitq)
    (hw : s'.obj.writerWaitq.Sublist s.obj.writerWaitq) (hp : ∀ u, part s' u = part s u) :
    Sound lo s' where
  readerNodup := h.readerNodup.sublist hr
  writerNodup := h.writerNodup.sublist hw
  reader u hu := hp u ▸ h.reader u (hr.subset hu)
  writer u hu := hp u ▸ h.writer u (hw.subset hu)
  ledger := by
    rw [hrc, total_congr hp, total_congr hp]
    exact h.ledger

variable {t : T}

/-- A waiter is on the queue of its mode. -/
theorem mode_of_linked (ht : Linked s t) : ∃ m, (part s t).Waits m := by
  rcases ht with ht | ht
  · exact ⟨_, h.reader t ht⟩
  · exact ⟨_, h.writer t ht⟩

theorem not_linked (ht : (part s t).inside = false ∨ (part s t).granted = true) : ¬Linked s t := by
  intro hl
  obtain ⟨m, hw⟩ := h.mode_of_linked hl
  rcases ht with ht | ht
  · cases ht.symm.trans hw.1
  · cases ht.symm.trans hw.2.1

/-- One thread that is on no queue changes. -/
theorem change (ht : ¬Linked s t) (hr : s'.obj.readerWaitq = s.obj.readerWaitq)
    (hw : s'.obj.writerWaitq = s.obj.writerWaitq) (hp : ∀ u ≠ t, part s' u = part s u)
    (hl : Ledger lo s'.obj.readerCount (total s' .read) (total s' .write)) : Sound lo s' where
  readerNodup := hr ▸ h.readerNodup
  writerNodup := hw ▸ h.writerNodup
  reader u hu := by
    rw [hr] at hu
    rw [hp u fun hut ↦ ht (.inl (hut ▸ hu))]
    exact h.reader u hu
  writer u hu := by
    rw [hw] at hu
    rw [hp u fun hut ↦ ht (.inr (hut ▸ hu))]
    exact h.writer u hu
  ledger := hl

variable [DecidableEq T]

/-- Its share stays as it was. -/
theorem keep (ht : ¬Linked s t) (hrc : s'.obj.readerCount = s.obj.readerCount)
    (hr : s'.obj.readerWaitq = s.obj.readerWaitq) (hw : s'.obj.writerWaitq = s.obj.writerWaitq)
    (hp : ∀ u ≠ t, part s' u = part s u) (hshare : ∀ m, (part s' t).share m = (part s t).share m)
    : Sound lo s' := by
  refine h.change ht hr hw hp ?_
  rw [hrc, total_eq hp (hshare _), total_eq hp (hshare _)]
  exact h.ledger

/-- A thread changes in what the accounts do not read. -/
theorem modify (t : T) {f : Thread → Thread} (hf : ∀ d, (f d).inside = d.inside) :
    Sound lo (s.modify t f) := by
  refine h.congr rfl (Sublist.refl _) (Sublist.refl _) fun u ↦ ?_
  rw [part_modify]
  split_ifs with hu
  · subst hu
    rw [hf]
    rfl
  · rfl

/-! ## Grants -/

theorem grantReader (ht : ¬Linked s t) (hw : (part s t).Waits .read) (h0 : 0 ≤ s.obj.readerCount)
    (hlt : s.obj.readerCount + 1 < 2 ^ 31) :
    Sound lo (grantReader s t) ∧
      (Rwlock.grantReader s t).obj.readerCount = s.obj.readerCount + 1 := by
  have hp := part_grantReader s t
  have hrc : (Rwlock.grantReader s t).obj.readerCount = s.obj.readerCount + 1 :=
    if_neg (by omega)
  have hoff : ∀ u ≠ t, part (Rwlock.grantReader s t) u = part s u := fun u hu ↦ by
    rw [hp, if_neg hu]
  refine ⟨h.change ht rfl rfl hoff ?_, hrc⟩
  have hr := total_change hoff .read
  have hwt := total_change hoff .write
  rw [hp, if_pos rfl, hw.share_grant, if_pos rfl] at hr
  rw [hp, if_pos rfl, hw.share_grant, if_neg nofun] at hwt
  have hl := h.ledger
  rw [hrc]
  unfold Ledger at hl ⊢
  omega

omit h in
/-- **The readers are granted the lock**, as long as the count has room for all of them. -/
theorem wakeReadersLoop (ts : List T) (h : Sound lo s) (hnodup : ts.Nodup)
    (hts : ∀ u ∈ ts, ¬Linked s u ∧ (part s u).Waits .read) (h0 : 0 ≤ s.obj.readerCount)
    (hlt : s.obj.readerCount + ts.length < 2 ^ 31) : Sound lo (wakeReadersLoop s ts) := by
  induction ts generalizing s with
  | nil => exact h
  | cons t ts ih =>
    rw [nodup_cons] at hnodup
    rw [length_cons] at hlt
    rw [Rwlock.wakeReadersLoop]
    split_ifs
    · exact ih h hnodup.2 (fun u hu ↦ hts u (.tail _ hu)) h0 (by omega)
    · obtain ⟨hl, hw⟩ := hts t (.head _)
      obtain ⟨hg, hrc⟩ := h.grantReader hl hw h0 (by omega)
      refine ih hg hnodup.2 (fun u hu ↦ ⟨(hts u (.tail _ hu)).1, ?_⟩) (by omega) (by omega)
      have hut : u ≠ t := fun hut ↦ hnodup.1 (hut ▸ hu)
      rw [part_grantReader, if_neg hut]
      exact (hts u (.tail _ hu)).2

theorem grantWriter {rest : List T} (hw : (t :: rest).Sublist s.obj.writerWaitq)
    (h0 : s.obj.readerCount = 0) : Sound lo (grantWriter s t rest) := by
  have hwait := h.writer t (hw.subset (.head _))
  have hnodup := nodup_cons.mp (h.writerNodup.sublist hw)
  have hp := fun u ↦ part_grantWriter s t u rest
  have hoff : ∀ u ≠ t, part (Rwlock.grantWriter s t rest) u = part s u := fun u hu ↦ by
    rw [hp, if_neg hu]
  -- the state without the writers up to the one that is granted
  have hs' : Sound lo { s with obj := { s.obj with writerWaitq := rest } } :=
    h.congr rfl (Sublist.refl _) ((sublist_cons_self _ _).trans hw) fun _ ↦ rfl
  refine hs'.change (t := t) ?_ rfl rfl hoff ?_
  · rintro (hl | hl)
    · cases (h.reader t hl).2.2.symm.trans hwait.2.2
    · exact hnodup.1 hl
  · have hr := total_change hoff .read
    have hwt := total_change hoff .write
    rw [hp, if_pos rfl, hwait.share_grant, if_neg nofun] at hr
    rw [hp, if_pos rfl, hwait.share_grant, if_pos rfl] at hwt
    have hl := h.ledger
    change Ledger lo (-1) _ _
    unfold Ledger at hl ⊢
    omega

omit h in
theorem wakeWriterLoop (ts : List T) (h : Sound lo s) (hts : ts.Sublist s.obj.writerWaitq)
    (h0 : s.obj.readerCount = 0) : ∀ s' ∈ wakeWriterLoop s ts, Sound lo s' := by
  induction ts with
  | nil => nofun
  | cons t ts ih =>
    intro s' hs'
    rw [Rwlock.wakeWriterLoop] at hs'
    split_ifs at hs'
    · exact ih ((sublist_cons_self _ _).trans hts) s' hs'
    · cases hs'
      exact h.grantWriter hts h0

/-! ## Leaving the queue -/

theorem listDel (t : T) : Sound lo (listDel s t) :=
  h.congr rfl (erase_sublist ..) (erase_sublist ..) fun _ ↦ rfl

theorem setWaiter (t : T) {f : Waiter → Waiter}
    (hf : ∀ w, (f w).mode = w.mode ∧ (f w).granted = w.granted) : Sound lo (setWaiter s t f) :=
  h.congr rfl (Sublist.refl _) (Sublist.refl _) fun u ↦ part_setWaiter_same s t u hf

/-- The timeout of a waiter is stopped. -/
theorem stop (t : T) : Sound lo (Rwlock.setWaiter s t fun w ↦ { w with callout := false }) :=
  h.setWaiter t fun _ ↦ ⟨rfl, rfl⟩

/-! ## Calls -/

theorem take (hin : (s.thread t).inside = false) {m : Mode} (hfree : Free s m)
    (hmax : m = .read → lo = -2 ^ 31 ∨ s.obj.readerCount ≠ 2 ^ 31 - 1) : Sound lo (take s t m) := by
  have hl := h.ledger
  have hp : ∀ u, part (Rwlock.take s t m) u =
      if u = t then (part s t).setHolds m ((part s t).holds m + 1) else part s u := by
    intro u
    cases m <;> exact part_setHolds _ t u _ _
  have hoff : ∀ u ≠ t, part (Rwlock.take s t m) u = part s u := fun u hu ↦ by rw [hp, if_neg hu]
  have hr := total_change hoff .read
  have hw := total_change hoff .write
  have hur := (part s t).share_setHolds m .read ((part s t).holds m + 1)
  have huw := (part s t).share_setHolds m .write ((part s t).holds m + 1)
  rw [hp, if_pos rfl] at hr hw
  refine h.change (h.not_linked (.inl hin)) (by cases m <;> rfl) (by cases m <;> rfl) hoff ?_
  unfold Ledger at hl
  cases m with
  | read =>
    rw [if_pos rfl] at hur
    rw [if_neg Mode.write_ne_read] at huw
    change Ledger lo (incI32 s.obj.readerCount) _ _
    obtain ⟨h0, -⟩ := hfree
    have hroom := hmax rfl
    rw [incI32]
    unfold Ledger
    split_ifs <;> omega
  | write =>
    rw [if_neg Mode.write_ne_read.symm] at hur
    rw [if_pos rfl] at huw
    change Ledger lo (-1) _ _
    have h0 : s.obj.readerCount = 0 := hfree
    unfold Ledger
    omega

theorem block (hin : (s.thread t).inside = false) (m : Mode) (timed : Bool) :
    Sound lo (block s t m timed) := by
  have hp := fun u ↦ part_block s t u m timed
  have hoff : ∀ u ≠ t, part (Rwlock.block s t m timed) u = part s u := fun u hu ↦ by
    rw [hp, if_neg hu]
  have hnl := h.not_linked (t := t) (.inl hin)
  have htot : ∀ m', total (Rwlock.block s t m timed) m' = total s m' := by
    intro m'
    have hng : ¬(part s t).Granted m' := fun hg ↦ by cases hin.symm.trans hg.1
    refine total_eq hoff ?_
    rw [Part.share_of_not_granted hng, hp, if_pos rfl]
    exact Part.share_of_not_granted fun hg ↦ by cases hg.2.1
  have hself : (part (Rwlock.block s t m timed) t).Waits m := by
    rw [hp, if_pos rfl]
    exact ⟨rfl, rfl, rfl⟩
  have hother : ∀ {m' u}, Linked s u → (part s u).Waits m' →
      (part (Rwlock.block s t m timed) u).Waits m' := by
    intro m' u hu hw
    rw [hoff u fun hut ↦ hnl (hut ▸ hu)]
    exact hw
  have hledger : Ledger lo s.obj.readerCount (total (Rwlock.block s t m timed) .read)
      (total (Rwlock.block s t m timed) .write) := by
    rw [htot, htot]
    exact h.ledger
  have hnodup : ∀ {l : List T}, t ∉ l → l.Nodup → (l ++ [t]).Nodup := fun ht hl ↦
    concat_eq_append ▸ (nodup_concat _ t).mpr ⟨ht, hl⟩
  cases m with
  | read =>
    refine ⟨hnodup (fun ht ↦ hnl (.inl ht)) h.readerNodup, h.writerNodup, ?_,
      fun u hu ↦ hother (.inr hu) (h.writer u hu), hledger⟩
    exact forall_mem_append.mpr ⟨fun u hu ↦ hother (.inl hu) (h.reader u hu),
      forall_mem_singleton.mpr hself⟩
  | write =>
    refine ⟨h.readerNodup, hnodup (fun ht ↦ hnl (.inr ht)) h.writerNodup,
      fun u hu ↦ hother (.inl hu) (h.reader u hu), ?_, hledger⟩
    exact forall_mem_append.mpr ⟨fun u hu ↦ hother (.inr hu) (h.writer u hu),
      forall_mem_singleton.mpr hself⟩

/-- A waiter that is off the queue without a grant goes. -/
theorem unblock (hl : ¬Linked s t) (hg : (s.obj.waiter t).granted = false) :
    Sound lo (s.modify t (·.unblock .blocked)) := by
  have hp := part_modify s t
  have hoff : ∀ u ≠ t, part (s.modify t (·.unblock .blocked)) u = part s u := fun u hu ↦ by
    rw [hp, if_neg hu]
  refine h.keep hl rfl rfl rfl hoff fun m ↦ ?_
  have hng : ¬(part s t).Granted m := fun hg' ↦ by cases hg.symm.trans hg'.2.1
  rw [Part.share_of_not_granted hng, hp, if_pos rfl]
  exact Part.share_of_not_granted fun hg' ↦ by cases hg'.1

/-- A grant becomes a hold. -/
theorem finish_granted {m : Mode} (hg : (part s t).Granted m) :
    Sound lo ((hold s t m).modify t (·.unblock .blocked)) := by
  have hp : ∀ u, part ((hold s t m).modify t (·.unblock .blocked)) u = if u = t then
      ⟨false, m, true, update (part s t).holds m ((part s t).holds m + 1)⟩
      else part s u := by
    intro u
    rw [part_modify, hold, part_setHolds, part_setHolds, if_pos rfl]
    split_ifs
    · obtain ⟨-, hgr, hm⟩ := hg
      rw [← hgr, ← hm]
      rfl
    · rfl
  have hoff : ∀ u ≠ t, part ((hold s t m).modify t (·.unblock .blocked)) u = part s u :=
    fun u hu ↦ by rw [hp, if_neg hu]
  refine h.keep (h.not_linked (.inr hg.2.1)) rfl rfl rfl hoff fun m' ↦ ?_
  have hafter : (part ((hold s t m).modify t (·.unblock .blocked)) t).share m' =
      update (part s t).holds m ((part s t).holds m + 1) m' := by
    rw [hp, if_pos rfl]
    exact Part.share_of_not_granted fun hg' ↦ by cases hg'.1
  rw [hafter, Part.share, update_apply]
  by_cases hm : m' = m
  · rw [if_pos hm, hm, if_pos hg]
  · rw [if_neg hm, if_neg fun hg' ↦ hm (hg'.2.2.symm.trans hg.2.2), Nat.add_zero]

theorem letGo (hin : (s.thread t).inside = false) (m : Mode) (rc : ℤ) (owner : Option T)
    (hl : Ledger lo rc (total (Rwlock.letGo s t m) .read) (total (Rwlock.letGo s t m) .write)) :
    Sound lo { Rwlock.letGo s t m with obj := { (Rwlock.letGo s t m).obj with
      readerCount := rc, writerOwner := owner } } := by
  refine h.change (h.not_linked (.inl hin)) rfl rfl (fun u hu ↦ ?_) hl
  exact (part_setHolds s t u m _).trans (if_neg hu)

omit h

/-! ## Wake-ups -/

section Wakes

variable (hT : Fintype.card T ≤ 2 ^ 27)
include hT

theorem wakeReadersLocked (h : Sound lo s) (h0 : s.obj.readerCount = 0) :
    Sound lo (wakeReadersLocked s) := by
  have hlen := h.readerNodup.length_le_card
  have hs' : Sound lo { s with obj := { s.obj with readerWaitq := [] } } :=
    h.congr rfl (nil_sublist _) (Sublist.refl _) fun _ ↦ rfl
  refine hs'.wakeReadersLoop _ h.readerNodup (fun u hu ↦ ?_) h0.ge ?_
  · have hw := h.reader u hu
    refine ⟨?_, hw⟩
    rintro (hl | hl)
    · cases hl
    · cases (h.writer u hl).2.2.symm.trans hw.2.2
  · change s.obj.readerCount + _ < _
    omega

theorem wakeWriterOrReaders (h : Sound lo s) (h0 : s.obj.readerCount = 0) :
    Sound lo (wakeWriterOrReaders s) := by
  rw [Rwlock.wakeWriterOrReaders]
  cases hg : Rwlock.wakeWriterLoop s s.obj.writerWaitq with
  | some s' => exact h.wakeWriterLoop _ (Sublist.refl _) h0 s' hg
  | none =>
    refine wakeReadersLocked hT ?_ h0
    exact h.congr rfl (Sublist.refl _) (nil_sublist _) fun _ ↦ rfl

theorem repair (h : Sound lo s) : Sound lo (repair s) := by
  have hs' : Sound lo { s with obj := { s.obj with writerPending := false } } :=
    h.congr rfl (Sublist.refl _) (Sublist.refl _) fun _ ↦ rfl
  rw [Rwlock.repair]
  split_ifs with hempty h0
  · exact hs'.wakeReadersLocked hT h0
  · exact hs'
  · exact h

theorem leaveQueue (h : Sound lo s) (t : T) : Sound lo (leaveQueue s t) := by
  rw [Rwlock.leaveQueue]
  split_ifs
  · exact (h.listDel t).repair hT
  · exact h.listDel t

theorem rwWaitCleanup (h : Sound lo s) (t : T) : Sound lo (rwWaitCleanup s t) :=
  (h.stop t).leaveQueue hT t

theorem rwTimeoutFn (h : Sound lo s) (t : T) : Sound lo (rwTimeoutFn s t) := by
  rw [Rwlock.rwTimeoutFn]
  split_ifs
  · refine (((h.stop t).leaveQueue hT t).setWaiter (f := fun w ↦ { w with timedOut := true }) t
      fun _ ↦ ⟨rfl, rfl⟩).congr rfl (Sublist.refl _) (Sublist.refl _) fun u ↦ ?_
    exact part_wakeReady _ t u
  · exact h.stop t

end Wakes

end Sound

/-- A waiter that leaves the queue is on none, and is otherwise as it was. -/
theorem leaveQueue_self [DecidableEq T] {s : Sys T} (h : Sound lo s) (t : T) :
    ¬Linked (leaveQueue s t) t ∧ (leaveQueue s t).obj.waiter t = s.obj.waiter t ∧
      (leaveQueue s t).thread t = s.thread t := by
  have hr : t ∉ s.obj.readerWaitq.erase t := h.readerNodup.not_mem_erase
  have hw : t ∉ s.obj.writerWaitq.erase t := h.writerNodup.not_mem_erase
  have hdel : ¬Linked (listDel s t) t := by
    rintro (hl | hl)
    · exact hr hl
    · exact hw hl
  rw [leaveQueue, repair]
  split_ifs with hmode hempty h0
  · obtain ⟨hq, hq', -⟩ := queues_wakeReadersLocked { listDel s t with obj :=
      { (listDel s t).obj with writerPending := false } }
    refine ⟨?_, wakeReadersLocked_of_not_mem hr⟩
    rintro (hl | hl)
    · rw [hq] at hl
      cases hl
    · rw [hq'] at hl
      exact hw hl
  · exact ⟨hdel, rfl, rfl⟩
  · exact ⟨hdel, rfl, rfl⟩
  · exact ⟨hdel, rfl, rfl⟩

theorem rwWaitCleanup_self [DecidableEq T] {s : Sys T} (h : Sound lo s) (t : T) :
    ((rwWaitCleanup s t).obj.waiter t).granted = (s.obj.waiter t).granted ∧
      (rwWaitCleanup s t).thread t = s.thread t := by
  obtain ⟨-, hw, ht⟩ := leaveQueue_self (h.stop t) t
  have hg := congrArg Part.granted
    (part_setWaiter_same (f := fun w ↦ { w with callout := false }) s t t fun _ ↦ ⟨rfl, rfl⟩)
  rw [rwWaitCleanup, hw]
  exact ⟨hg, ht⟩

/-! ## Steps -/

namespace Sound

variable [DecidableEq T] {t : T}

section Steps

variable (hT : Fintype.card T ≤ 2 ^ 27)
include hT

theorem finish (h : Sound lo s) (hin : (s.thread t).inside = true) : Sound lo (finish s t) := by
  have hs' := h.stop t
  have hp := part_setWaiter_same (f := fun w ↦ { w with callout := false }) s t t
    fun _ ↦ ⟨rfl, rfl⟩
  rw [Rwlock.finish]
  split_ifs with hg
  · refine (hs'.listDel t).finish_granted ?_
    change (part (Rwlock.setWaiter s t fun w ↦ { w with callout := false }) t).Granted _
    rw [hp]
    exact ⟨hin, hg, rfl⟩
  · obtain ⟨hl, hw, -⟩ := leaveQueue_self hs' t
    refine (hs'.leaveQueue hT t).unblock hl ?_
    rw [hw]
    exact (congrArg Part.granted hp).trans (Bool.eq_false_iff.mpr hg)

theorem loopBody (h : Sound lo s) (hin : (s.thread t).inside = true) :
    Sound lo (loopBody s t) := by
  rw [Rwlock.loopBody]
  split_ifs
  · exact h.finish hT hin
  · exact h

theorem lock (h : Sound lo s) (hin : (s.thread t).inside = false) (m : Mode) (timed : Bool)
    (hmax : m = .read → lo = -2 ^ 31 ∨ s.obj.readerCount ≠ 2 ^ 31 - 1) :
    Sound lo (lock s t m timed) := by
  rw [Rwlock.lock]
  split_ifs with hfree
  · exact h.take hin hfree hmax
  · refine (h.block hin m timed).loopBody hT ?_
    rw [Rwlock.block, thread_modify, if_pos rfl]
    rfl

theorem unlock (h : Sound lo s) (hin : (s.thread t).inside = false)
    (hh : 0 < s.obj.holds t .read ∨ 0 < s.obj.holds t .write) : Sound lo (unlock s t) := by
  have hl := h.ledger
  have hsr := holds_le_total s t .read
  have hsw := holds_le_total s t .write
  have hgo := fun m hm m' ↦ total_letGo s t (m := m) hm m'
  unfold Ledger at hl
  rw [Rwlock.unlock]
  split_ifs with hneg hpos
  · -- a writer: nobody reads, so what the thread holds is the write lock
    have hr := hgo .write (by omega) .read
    have hw := hgo .write (by omega) .write
    rw [if_neg Mode.write_ne_read.symm] at hr
    rw [if_pos rfl] at hw
    have hs' := h.letGo hin .write 0 none (by unfold Ledger; omega)
    rw [unlockWriter]
    split_ifs
    · exact hs'.wakeReadersLocked hT rfl
    · exact hs'.wakeWriterOrReaders hT rfl
  · have hr := hgo .read (by omega) .read
    have hw := hgo .read (by omega) .write
    rw [if_pos rfl] at hr
    rw [if_neg Mode.write_ne_read] at hw
    have hs' := h.letGo hin .read (s.obj.readerCount - 1) s.obj.writerOwner
      (by unfold Ledger; omega)
    rw [unlockReader]
    split_ifs with h0
    · exact hs'.wakeWriterOrReaders hT h0.1
    · exact hs'
  · -- the count has wrapped round
    have hr := hgo .read (by omega) .read
    have hw := hgo .read (by omega) .write
    rw [if_neg Mode.write_ne_read] at hw
    exact h.letGo hin .read s.obj.readerCount s.obj.writerOwner
      (by unfold Ledger; omega)

theorem envStep {e : Env T} (h : Sound lo s)
    (hstep : envStep Rwlock.rwWaitCleanup s e = some s') : Sound lo s' := by
  rcases envStep_cases hstep with hq | ⟨t, l, l', -, -, rfl⟩ | ⟨t, -, -, rfl⟩
  · refine h.congr ?_ ?_ ?_ fun u ↦ ?_
    · rw [hq.obj]
    · rw [hq.obj]
    · rw [hq.obj]
    · rw [part, part, hq.obj, (hq.thread u).inside]
  · have hs' : Sound lo { s with nudges := l } :=
      h.congr rfl (Sublist.refl _) (Sublist.refl _) fun _ ↦ rfl
    exact (hs'.rwWaitCleanup hT t).congr rfl (Sublist.refl _) (Sublist.refl _) fun _ ↦ rfl
  · refine Sound.modify ?_ t fun _ ↦ rfl
    rw [runCleanup]
    split_ifs
    · refine Sound.rwWaitCleanup hT ?_ t
      exact h.modify t fun _ ↦ rfl
    · exact h

theorem step {e : Event T} (h : Sound lo s) (hK : lo = -2 ^ 31 ∨ Spared s e)
    (hstep : step s e = some s') : Sound lo s' := by
  cases e with
  | env e => exact h.envStep hT hstep
  | lock t m timed =>
    obtain ⟨hcall, rfl⟩ := Runs.of_guard hstep
    refine h.lock hT hcall.2 m timed ?_
    rintro rfl
    exact hK
  | tryLock t m =>
    obtain ⟨hcall, rfl⟩ := Runs.of_guard hstep
    rw [tryLock]
    split_ifs with hfree
    · refine h.take hcall.2 hfree ?_
      rintro rfl
      exact hK
    · exact h
  | resume t =>
    obtain ⟨hrun, rfl⟩ := Runs.of_guard hstep
    exact h.loopBody hT hrun.2
  | timeout t =>
    obtain ⟨-, rfl⟩ := Runs.of_guard hstep
    exact h.rwTimeoutFn hT t
  | unlock t =>
    obtain ⟨⟨hcall, hh⟩, rfl⟩ := Runs.of_guard hstep
    exact h.unlock hT hcall.2 hh

end Steps

omit [DecidableEq T] in
theorem boot (hlo : lo ≤ -1) : Sound lo (Sync.Sys.boot (Lock.init T)) where
  readerNodup := nodup_nil
  writerNodup := nodup_nil
  reader := nofun
  writer := nofun
  ledger := by
    have htot : ∀ m, total (Sync.Sys.boot (Lock.init T)) m = 0 :=
      fun m ↦ Finset.sum_eq_zero fun u _ ↦ rfl
    rw [htot, htot]
    have hmax : (0 : ℤ) < 2 ^ 31 := by omega
    have hmin : (-1) ≤ 0 := by omega
    exact ⟨hlo, hlo.trans hmin, .inr (.inl ⟨le_rfl, hmax, rfl, rfl⟩)⟩

end Sound

theorem Reach.sound [DecidableEq T] (hT : Fintype.card T ≤ 2 ^ 27) {K : Sys T → Event T → Prop}
    (h : Reach K s) : Sound (-2 ^ 31) s :=
  h.invariant (.boot (by decide)) fun _ _ _ hs _ hstep ↦ hs.step hT (.inl rfl) hstep

/-- **Mutual exclusion.** Two writers never hold the lock together, and no reader holds it while a
writer does. -/
theorem exclusive [DecidableEq T] (hT : Fintype.card T ≤ 2 ^ 27) (h : Reach (fun _ _ ↦ True) s) :
    (∀ t u, 0 < s.obj.holds t .write → 0 < s.obj.holds u .write → t = u) ∧
      ∀ t u, 0 < s.obj.holds t .write → s.obj.holds u .read = 0 := by
  have hl := (Reach.sound hT h).ledger
  unfold Ledger at hl
  refine ⟨fun t u ht hu ↦ ?_, fun t u ht ↦ ?_⟩
  · by_contra hne
    have htwo := Tally.add_le_sum (fun v ↦ (part s v).share .write) hne
    have hst : s.obj.holds t .write ≤ (part s t).share .write := Nat.le_add_right _ _
    have hsu : s.obj.holds u .write ≤ (part s u).share .write := Nat.le_add_right _ _
    change _ ≤ total s .write at htwo
    omega
  · have hw := holds_le_total s t .write
    have hr := holds_le_total s u .read
    omega

/-- A writer holds the lock and a reader waits. -/
theorem exclusive_contended : ∃ s : Sys (Fin 2), Reach (fun _ _ ↦ True) s ∧
    0 < s.obj.holds 0 .write ∧ s.obj.readerWaitq = [1] ∧ s.obj.holds 1 .read = 0 := by
  obtain ⟨s, hs, hw, hq⟩ : ∃ s : Sys (Fin 2), Reach (fun _ _ ↦ True) s ∧
      0 < s.obj.holds 0 .write ∧ s.obj.readerWaitq = [1] :=
    Runs.exists_run step (fun _ _ ↦ True) _
      [.env (.dispatch 0), .lock 0 .write false, .env (.dispatch 1), .lock 1 .read false]
      (by decide +kernel)
  exact ⟨s, hs, hw, hq, (exclusive (by decide) hs).2 0 1 hw⟩

end Sound

end Mazu.Sync.Rwlock
