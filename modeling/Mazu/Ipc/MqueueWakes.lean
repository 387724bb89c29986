import Mazu.Ipc.Mqueue

/-!
# Wake-ups on a message queue

A message wakes one receiver, and free space one sender. The wake-up is a promise: as long as
somebody else waits, every message has a receiver of its own that was woken for it and will run.
The promise survives a wake-up that is too late, because whoever took the message in the meantime
did what the woken thread was to do. It does not survive a woken thread that leaves the message
where it is and wakes nobody else: a receiver whose buffer is too small, and a thread that dies.
-/

namespace Mazu.Ipc.Mqueue

open List

set_option linter.unusedSectionVars false

open Sync (Sys Env Thread envStep)

variable {T : Type}

/-- What can be had: messages, or free space. -/
def Mq.avail (o : Mq T) : Dir → ℕ
  | .recv => o.msgs.length
  | .send => o.maxMsgs - o.msgs.length

/-- The thread was woken, and will come back to the queue. -/
def Pending (s : Sys (Mq T) T) (d : Dir) (t : T) : Prop :=
  (s.obj.frame t).phase = .wait ∧ (s.obj.frame t).op.dir = d ∧ (s.obj.frame t).woken = true ∧
    (s.thread t).Coming

instance (s : Sys (Mq T) T) (d : Dir) (t : T) : Decidable (Pending s d t) :=
  inferInstanceAs (Decidable (_ ∧ _ ∧ _ ∧ _))

/-- The first message does not fit into the buffer. -/
def Mq.refuses (o : Mq T) : Op → Bool
  | .send _ => false
  | .recv n => o.msgs.head?.any fun m ↦ decide (n < m.data.length)

variable [DecidableEq T]

/-- **Wake-ups are delivered**: a woken receiver has room for the message, a woken thread is not
killed, and one that dies on a wait queue still has its callback. The queue stays open. -/
def Delivered (s : Sys (Mq T) T) : Event T → Prop
  | .resume t => t ∈ s.obj.pend .recv → s.obj.refuses (s.obj.frame t).op = false
  | .env (.kill t) => t ∉ s.obj.pend .recv ∧ t ∉ s.obj.pend .send
  | .env (.schedule t) =>
    (s.thread t).state = .terminating → (s.thread t).blockCleanup = false → ¬s.obj.Linked t
  | .mqOpen _ _ | .mqClose => False
  | _ => True

instance (s : Sys (Mq T) T) (e : Event T) : Decidable (Delivered s e) := by
  unfold Delivered
  split <;> infer_instance

/-- The message store. -/
structure Stock (o : Mq T) : Prop where
  inUse : o.inUse = true
  count : o.msgCount = o.msgs.length
  slots : o.slots = o.msgs.length
  le : o.msgs.length ≤ o.maxMsgs
  max : o.maxMsgs ≤ mqMaxMsgs

/-- Who is on the wait queues, and who has been taken off them. -/
structure Base (s : Sys (Mq T) T) : Prop where
  stock : Stock s.obj
  gen : ∀ t, (s.obj.frame t).phase = .wait → (s.obj.frame t).gen = s.obj.generation
  linked : ∀ d, ∀ t ∈ s.obj.waitq d, (s.obj.frame t).phase = .wait ∧
    (s.obj.frame t).op.dir = d ∧ (s.thread t).reaped = false
  pending : ∀ d, ∀ t ∈ s.obj.pend d, Pending s d t
  nodup : ∀ d, (s.obj.waitq d ++ s.obj.pend d).Nodup

/-- While somebody waits, all but `k` of what can be had is promised. -/
def Owed (o : Mq T) (d : Dir) (k : ℕ) : Prop :=
  o.waitq d ≠ [] → o.avail d ≤ (o.pend d).length + k

structure Wakes (s : Sys (Mq T) T) : Prop extends Base s where
  owed : ∀ d, Owed s.obj d 0

variable {s s' : Sys (Mq T) T} {t : T}

/-- Neither on a wait queue nor woken. -/
def Mq.Absent (o : Mq T) (t : T) : Prop := ∀ d, t ∉ o.waitq d ∧ t ∉ o.pend d

theorem Base.absent (h : Base s) (hp : (s.obj.frame t).phase ≠ .wait) : s.obj.Absent t :=
  fun d ↦ ⟨fun ht ↦ hp (h.linked d t ht).1, fun ht ↦ hp (h.pending d t ht).1⟩

/-- **Nobody new waits, and nobody new is woken.** -/
theorem Base.sub (h : Base s) (hstock : Stock s'.obj)
    (hgen : ∀ u, (s'.obj.frame u).phase = .wait → (s'.obj.frame u).gen = s'.obj.generation)
    (hw : ∀ d, (s'.obj.waitq d).Sublist (s.obj.waitq d))
    (hp : ∀ d, (s'.obj.pend d).Sublist (s.obj.pend d))
    (hframe : ∀ d u, u ∈ s'.obj.waitq d ∨ u ∈ s'.obj.pend d →
      (s'.obj.frame u).phase = (s.obj.frame u).phase ∧ (s'.obj.frame u).op = (s.obj.frame u).op ∧
        (s'.obj.frame u).woken = (s.obj.frame u).woken)
    (hlinked : ∀ d u, u ∈ s'.obj.waitq d → (s'.thread u).reaped = (s.thread u).reaped)
    (hcoming : ∀ d u, u ∈ s'.obj.pend d → (s.thread u).Coming → (s'.thread u).Coming) :
    Base s' := by
  refine ⟨hstock, hgen, fun d u hu ↦ ?_, fun d u hu ↦ ?_, fun d ↦ ?_⟩
  · rw [(hframe d u (.inl hu)).1, (hframe d u (.inl hu)).2.1, hlinked d u hu]
    exact h.linked d u ((hw d).subset hu)
  · obtain ⟨hphase, hop, hwoken⟩ := hframe d u (.inr hu)
    obtain ⟨h₁, h₂, h₃, h₄⟩ := h.pending d u ((hp d).subset hu)
    exact ⟨hphase.trans h₁, hop ▸ h₂, hwoken.trans h₃, hcoming d u hu h₄⟩
  · exact (h.nodup d).sublist ((hw d).append (hp d))

/-- A step of a thread that is on no queue. -/
theorem Base.alone (h : Base s) (hstock : Stock s'.obj) (ht : s.obj.Absent t)
    (hgeneration : s'.obj.generation = s.obj.generation) (hw : s'.obj.waitq = s.obj.waitq)
    (hp : s'.obj.pend = s.obj.pend) (hframe : ∀ u, u ≠ t → s'.obj.frame u = s.obj.frame u)
    (hthread : ∀ u, u ≠ t → s'.thread u = s.thread u)
    (hself : (s'.obj.frame t).phase = .wait → (s'.obj.frame t).gen = s.obj.generation) :
    Base s' := by
  have hne : ∀ d u, u ∈ s'.obj.waitq d ∨ u ∈ s'.obj.pend d → u ≠ t := by
    rintro d u hu rfl
    rw [hw, hp] at hu
    exact hu.elim (ht d).1 (ht d).2
  refine h.sub hstock (fun u hu ↦ ?_) (fun d ↦ by rw [hw]) (fun d ↦ by rw [hp])
    (fun d u hu ↦ ?_) (fun d u hu ↦ ?_) (fun d u hu ↦ ?_)
  · rw [hgeneration]
    by_cases hut : u = t
    · subst hut
      exact hself hu
    · rw [hframe u hut] at hu ⊢
      exact h.gen u hu
  · rw [hframe u (hne d u hu)]
    exact ⟨rfl, rfl, rfl⟩
  · rw [hthread u (hne d u (.inl hu))]
  · rw [hthread u (hne d u (.inr hu))]
    exact id

theorem Base.return' (h : Base s) (ht : s.obj.Absent t) (r : Res) :
    Base (on s fun o ↦ o.return' t r) := by
  have hself := frame_setFrame s.obj t t fun f ↦
    { f with phase := .out, armed := false, result := some r }
  rw [if_pos rfl] at hself
  refine h.alone ⟨h.stock.inUse, h.stock.count, h.stock.slots, h.stock.le, h.stock.max⟩ ht
    rfl rfl rfl (fun u hu ↦ Function.update_of_ne hu ..) (fun _ _ ↦ rfl) fun hw ↦ ?_
  cases (congrArg Frame.phase hself).symm.trans hw

theorem Base.modify (h : Base s) (ht : s.obj.Absent t) (f : Thread → Thread) :
    Base (s.modify t f) :=
  h.alone h.stock ht rfl rfl rfl (fun _ _ ↦ rfl) (fun _ hu ↦ Function.update_of_ne hu ..) (h.gen t)

theorem Base.touch (h : Base s) (t : T) : Base (on s fun o ↦ o.touch t) :=
  ⟨⟨h.stock.inUse, h.stock.count, h.stock.slots, h.stock.le, h.stock.max⟩, h.gen, h.linked,
    h.pending, h.nodup⟩

theorem waitq_link (o : Mq T) (t : T) (d : Dir) : (o.link t).waitq d =
    if d = (o.frame t).op.dir then o.waitq d ++ [t] else o.waitq d := by
  refine (Function.update_apply ..).trans ?_
  split_ifs with hd
  · rw [hd]
  · rfl

theorem Base.link (h : Base s) (ht : s.obj.Absent t)
    (hgen : (s.obj.frame t).gen = s.obj.generation) (hr : (s.thread t).reaped = false) :
    Base (on s fun o ↦ o.link t) := by
  have hframe : ∀ u, (s.obj.link t).frame u =
      if u = t then { s.obj.frame t with phase := .wait, woken := false } else s.obj.frame u :=
    fun u ↦ Function.update_apply ..
  have hne : ∀ d u, u ∈ s.obj.waitq d → u ≠ t := by
    rintro d u hu rfl
    exact (ht d).1 hu
  refine ⟨⟨h.stock.inUse, h.stock.count, h.stock.slots, h.stock.le, h.stock.max⟩, fun u ↦ ?_,
    fun d u hu ↦ ?_, fun d u hu ↦ ?_, fun d ↦ ?_⟩
  · show ((s.obj.link t).frame u).phase = .wait → ((s.obj.link t).frame u).gen = s.obj.generation
    rw [hframe]
    split_ifs
    · exact fun _ ↦ hgen
    · exact h.gen u
  · change u ∈ (s.obj.link t).waitq d at hu
    show ((s.obj.link t).frame u).phase = .wait ∧ ((s.obj.link t).frame u).op.dir = d ∧ _
    rw [waitq_link] at hu
    rw [hframe]
    split_ifs at hu with hd
    · rcases mem_append.mp hu with hu | hu
      · rw [if_neg (hne d u hu)]
        exact h.linked d u hu
      · rw [if_pos (mem_singleton.mp hu), mem_singleton.mp hu]
        exact ⟨rfl, hd.symm, hr⟩
    · rw [if_neg (hne d u hu)]
      exact h.linked d u hu
  · have hut : u ≠ t := fun hut ↦ (ht d).2 (hut ▸ hu)
    have hsame := (hframe u).trans (if_neg hut)
    obtain ⟨h₁, h₂, h₃, h₄⟩ := h.pending d u hu
    exact ⟨hsame ▸ h₁, hsame ▸ h₂, hsame ▸ h₃, h₄⟩
  · show ((s.obj.link t).waitq d ++ s.obj.pend d).Nodup
    rw [waitq_link]
    split_ifs
    · rw [append_assoc]
      refine nodup_middle.mpr (nodup_cons.mpr ⟨?_, h.nodup d⟩)
      rw [mem_append, not_or]
      exact ht d
    · exact h.nodup d

/-- A thread leaves the queues. -/
theorem Base.leave (h : Base s) (t : T) :
    Base (on s fun o ↦ o.leave t) ∧ (s.obj.leave t).Absent t := by
  refine ⟨?_, fun d ↦ ?_⟩
  · exact h.sub ⟨h.stock.inUse, h.stock.count, h.stock.slots, h.stock.le, h.stock.max⟩ h.gen
      (fun _ ↦ erase_sublist) (fun _ ↦ erase_sublist) (fun _ _ _ ↦ ⟨rfl, rfl, rfl⟩)
      (fun _ _ _ ↦ rfl) (fun _ _ _ ↦ id)
  · obtain ⟨hw, hp, -⟩ := nodup_append'.mp (h.nodup d)
    exact ⟨fun ht ↦ (hw.mem_erase_iff.mp ht).1 rfl, fun ht ↦ (hp.mem_erase_iff.mp ht).1 rfl⟩

/-! ## One wake-up -/

variable {d : Dir} {k : ℕ} {o : Mq T}

theorem wakeOne_nil (h : s.obj.waitq d = []) : wakeOne s d = s := by
  rw [wakeOne, h, head?_nil]

theorem wakeOne_cons {w : T} {q : List T} (h : s.obj.waitq d = w :: q) :
    wakeOne s d = (on s fun o ↦ o.wakeHead d w).modify w Thread.wakeReady := by
  rw [wakeOne, h, head?_cons]

theorem Base.wakeOne (h : Base s) (d : Dir) : Base (wakeOne s d) := by
  cases hq : s.obj.waitq d with
  | nil => rwa [wakeOne_nil hq]
  | cons w q =>
    rw [wakeOne_cons hq]
    have hw : w ∈ s.obj.waitq d := hq ▸ mem_cons_self
    obtain ⟨hphase, hdir, hr⟩ := h.linked d w hw
    have hframe : ∀ u, (s.obj.wakeHead d w).frame u =
        if u = w then { s.obj.frame w with woken := true } else s.obj.frame u :=
      fun u ↦ Function.update_apply ..
    have hthread := fun u ↦ Sync.thread_modify (on s fun o ↦ o.wakeHead d w) w u Thread.wakeReady
    have hwaitq : ∀ d', (s.obj.wakeHead d w).waitq d' = if d' = d then q else s.obj.waitq d' := by
      intro d'
      refine (Function.update_apply ..).trans ?_
      rw [hq, tail_cons]
    have hpend : ∀ d', (s.obj.wakeHead d w).pend d' =
        if d' = d then s.obj.pend d ++ [w] else s.obj.pend d' := fun d' ↦ Function.update_apply ..
    have hsub : ∀ d' u, u ∈ (s.obj.wakeHead d w).waitq d' → u ∈ s.obj.waitq d' := by
      intro d' u hu
      rw [hwaitq] at hu
      split_ifs at hu with hd
      · rw [hd, hq]
        exact mem_cons_of_mem w hu
      · exact hu
    refine ⟨⟨h.stock.inUse, h.stock.count, h.stock.slots, h.stock.le, h.stock.max⟩, fun u ↦ ?_,
      fun d' u hu ↦ ?_, fun d' u hu ↦ ?_, fun d' ↦ ?_⟩
    · show ((s.obj.wakeHead d w).frame u).phase = .wait →
        ((s.obj.wakeHead d w).frame u).gen = s.obj.generation
      rw [hframe]
      split_ifs with hu
      · exact fun _ ↦ h.gen w hphase
      · exact h.gen u
    · show ((s.obj.wakeHead d w).frame u).phase = .wait ∧
        ((s.obj.wakeHead d w).frame u).op.dir = d' ∧ _
      rw [hframe, hthread]
      have hold := h.linked d' u (hsub d' u hu)
      split_ifs with huw
      · subst huw
        exact hold
      · exact hold
    · show ((s.obj.wakeHead d w).frame u).phase = .wait ∧
        ((s.obj.wakeHead d w).frame u).op.dir = d' ∧
        ((s.obj.wakeHead d w).frame u).woken = true ∧ _
      rw [hframe, hthread]
      by_cases huw : u = w
      · subst huw
        rw [if_pos rfl, if_pos rfl]
        refine ⟨hphase, ?_, rfl, Thread.coming_wakeReady hr⟩
        change u ∈ (s.obj.wakeHead d u).pend d' at hu
        rw [hpend] at hu
        split_ifs at hu with hd
        · rw [hd]
          exact hdir
        · exact (h.pending d' u hu).2.1
      · rw [if_neg huw, if_neg huw]
        change u ∈ (s.obj.wakeHead d w).pend d' at hu
        rw [hpend] at hu
        split_ifs at hu with hd
        · rw [hd]
          exact h.pending d u ((mem_append.mp hu).resolve_right fun hu ↦ huw (mem_singleton.mp hu))
        · exact h.pending d' u hu
    · show ((s.obj.wakeHead d w).waitq d' ++ (s.obj.wakeHead d w).pend d').Nodup
      rw [hwaitq, hpend]
      split_ifs with hd
      · have hnd := hq ▸ h.nodup d
        rw [cons_append] at hnd
        rw [← append_assoc]
        exact (perm_append_singleton w _).nodup_iff.mpr hnd
      · exact h.nodup d'

/-- The wake-up promises one more. -/
theorem owed_wakeOne (h : Owed s.obj d (k + 1)) : Owed (wakeOne s d).obj d k := by
  cases hq : s.obj.waitq d with
  | nil =>
    rw [wakeOne_nil hq]
    exact absurd hq
  | cons w q =>
    rw [wakeOne_cons hq]
    intro _
    have hlen : ((s.obj.wakeHead d w).pend d).length = (s.obj.pend d).length + 1 := by
      have hp : (s.obj.wakeHead d w).pend d = s.obj.pend d ++ [w] := Function.update_self ..
      rw [hp, length_append, length_singleton]
    have hav : s.obj.avail d ≤ (s.obj.pend d).length + (k + 1) := h (by rw [hq]; exact nofun)
    have hsame : (s.obj.wakeHead d w).avail d = s.obj.avail d := by cases d <;> rfl
    show (s.obj.wakeHead d w).avail d ≤ ((s.obj.wakeHead d w).pend d).length + k
    omega

theorem owed_wakeOne_ne {d' : Dir} (hd : d' ≠ d) (h : Owed s.obj d' k) :
    Owed (wakeOne s d).obj d' k := by
  cases hq : s.obj.waitq d with
  | nil => rwa [wakeOne_nil hq]
  | cons w q =>
    rw [wakeOne_cons hq]
    have hw : (s.obj.wakeHead d w).waitq d' = s.obj.waitq d' := Function.update_of_ne hd ..
    have hp : (s.obj.wakeHead d w).pend d' = s.obj.pend d' := Function.update_of_ne hd ..
    show Owed (s.obj.wakeHead d w) d' k
    rw [Owed, hw, hp]
    exact h

theorem absent_wakeOne (ht : s.obj.Absent t) (d : Dir) : (wakeOne s d).obj.Absent t := by
  cases hq : s.obj.waitq d with
  | nil => rwa [wakeOne_nil hq]
  | cons w q =>
    rw [wakeOne_cons hq]
    intro d'
    show t ∉ Function.update s.obj.waitq d _ d' ∧ t ∉ Function.update s.obj.pend d _ d'
    rw [Function.update_apply, Function.update_apply]
    have htw : t ≠ w := by
      rintro rfl
      exact (ht d).1 (hq ▸ mem_cons_self)
    split_ifs with hd
    · refine ⟨fun hm ↦ (ht d).1 (mem_of_mem_tail hm), fun hm ↦ ?_⟩
      rcases mem_append.mp hm with hm | hm
      · exact (ht d).2 hm
      · exact htw (mem_singleton.mp hm)
    · exact ht d'

/-! ## One section -/

theorem length_msgInsertPriority (m : Msg) (l : List Msg) :
    (msgInsertPriority m l).length = l.length + 1 := by
  induction l with
  | nil => rfl
  | cons c l ih =>
    rw [msgInsertPriority]
    split_ifs
    · rfl
    · rw [length_cons, ih, length_cons]

/-- What a call may count on when it looks at the loop's condition: the promise made to it is its
own to keep, unless it is one that it cannot keep. -/
structure Serves (s : Sys (Mq T) T) (t : T) : Prop where
  absent : s.obj.Absent t
  gen : (s.obj.frame t).gen = s.obj.generation
  alive : (s.thread t).reaped = false
  other : ∀ d, d ≠ (s.obj.frame t).op.dir → Owed s.obj d 0
  own : Owed s.obj (s.obj.frame t).op.dir 1
  refused : s.obj.refuses (s.obj.frame t).op = true → Owed s.obj (s.obj.frame t).op.dir 0

theorem avail_of_stuck (hst : Stock o) {op : Op} (hs : o.Stuck op) : o.avail op.dir = 0 := by
  cases op with
  | send m =>
    have hfull : o.maxMsgs ≤ o.msgCount := hs
    rw [hst.count] at hfull
    exact Nat.sub_eq_zero_of_le hfull
  | recv n => exact length_eq_zero_iff.mpr hs

theorem Wakes.return' (h : Wakes s) (ht : s.obj.Absent t) (r : Res) :
    Wakes (on s fun o ↦ o.return' t r) :=
  ⟨h.toBase.return' ht r, h.owed⟩

theorem Wakes.transfer (h : Base s) (ht : Serves s t)
    (hs : ¬s.obj.Stuck (s.obj.frame t).op) : Wakes (transfer s t) := by
  have hst := h.stock
  rw [Mqueue.transfer]
  split
  · rename_i m hop
    have hdir : (s.obj.frame t).op.dir = .send := by rw [hop]; rfl
    have hroom : s.obj.msgs.length < s.obj.maxMsgs := by
      rw [hop, Mq.Stuck, hst.count] at hs
      omega
    have hown : Owed s.obj .send 1 := hdir ▸ ht.own
    have hother : Owed s.obj .recv 0 := ht.other .recv (by rw [hdir]; decide)
    rw [if_neg (by rw [hst.slots]; exact (hroom.trans_le hst.max).ne)]
    have hlen := length_msgInsertPriority m s.obj.msgs
    have hb : Base (on s fun o ↦ o.enqueue m) := by
      refine ⟨⟨hst.inUse, ?_, ?_, ?_, hst.max⟩, h.gen, h.linked, h.pending, h.nodup⟩
      · exact (congrArg (· + 1) hst.count).trans hlen.symm
      · exact (congrArg (· + 1) hst.slots).trans hlen.symm
      · exact hlen.trans_le hroom
    have hsend : Owed (s.obj.enqueue m) .send 0 := by
      intro hne
      have hav : s.obj.maxMsgs - s.obj.msgs.length ≤ _ := hown hne
      show s.obj.maxMsgs - (msgInsertPriority m s.obj.msgs).length ≤ (s.obj.pend .send).length + 0
      omega
    have hrecv : Owed (s.obj.enqueue m) .recv 1 := by
      intro hne
      have hav : s.obj.msgs.length ≤ _ := hother hne
      show (msgInsertPriority m s.obj.msgs).length ≤ (s.obj.pend .recv).length + 1
      omega
    have habs := absent_wakeOne (s := on s fun o ↦ o.enqueue m) ht.absent .recv
    refine Wakes.return' ⟨hb.wakeOne .recv, fun d ↦ ?_⟩ habs .sent
    cases d with
    | send => exact owed_wakeOne_ne (s := on s fun o ↦ o.enqueue m) (by decide) hsend
    | recv => exact owed_wakeOne (s := on s fun o ↦ o.enqueue m) hrecv
  · rename_i n hop
    have hdir : (s.obj.frame t).op.dir = .recv := by rw [hop]; rfl
    have hown : Owed s.obj .recv 1 := hdir ▸ ht.own
    have hother : Owed s.obj .send 0 := ht.other .send (by rw [hdir]; decide)
    cases hmsgs : s.obj.msgs with
    | nil =>
      rw [hop] at hs
      exact absurd hmsgs hs
    | cons m ms =>
      rw [head?_cons]
      have hlen : s.obj.msgs.length = ms.length + 1 := by rw [hmsgs, length_cons]
      dsimp only
      split_ifs with hbig
      · have hrefuse : s.obj.refuses (s.obj.frame t).op = true := by
          rw [hop, Mq.refuses, hmsgs, head?_cons, Option.any_some, decide_eq_true hbig]
        refine Wakes.return' ⟨h, fun d ↦ ?_⟩ ht.absent _
        cases d with
        | send => exact hother
        | recv => exact hdir ▸ ht.refused hrefuse
      · have htail : s.obj.msgs.tail.length + 1 = s.obj.msgs.length := by
          rw [hmsgs, tail_cons, length_cons]
        have hcount := hst.count
        have hslots := hst.slots
        have hle := hst.le
        have hb : Base (on s Mq.dequeue) := by
          refine ⟨⟨hst.inUse, ?_, ?_, ?_, hst.max⟩, h.gen, h.linked, h.pending, h.nodup⟩
          · show s.obj.msgCount - 1 = s.obj.msgs.tail.length
            omega
          · show s.obj.slots - 1 = s.obj.msgs.tail.length
            omega
          · show s.obj.msgs.tail.length ≤ s.obj.maxMsgs
            omega
        have hrecv : Owed s.obj.dequeue .recv 0 := by
          intro hne
          have hav : s.obj.msgs.length ≤ _ := hown hne
          show s.obj.msgs.tail.length ≤ (s.obj.pend .recv).length + 0
          omega
        have hsend : Owed s.obj.dequeue .send 1 := by
          intro hne
          have hav : s.obj.maxMsgs - s.obj.msgs.length ≤ _ := hother hne
          show s.obj.maxMsgs - s.obj.msgs.tail.length ≤ (s.obj.pend .send).length + 1
          omega
        have habs := absent_wakeOne (s := on s Mq.dequeue) ht.absent .send
        refine Wakes.return' ⟨hb.wakeOne .send, fun d ↦ ?_⟩ habs _
        cases d with
        | send => exact owed_wakeOne (s := on s Mq.dequeue) hsend
        | recv => exact owed_wakeOne_ne (s := on s Mq.dequeue) (by decide) hrecv

theorem Wakes.attempt (h : Base s) (ht : Serves s t) : Wakes (attempt s t) := by
  have hok : ¬s.obj.Bad (s.obj.frame t) := by
    rw [Mq.Bad, not_or, Bool.not_eq_false, not_not]
    exact ⟨h.stock.inUse, ht.gen.symm⟩
  rw [Mqueue.attempt]
  by_cases hs : s.obj.Stuck (s.obj.frame t).op
  · have howed : ∀ d, Owed s.obj d 0 := by
      intro d
      by_cases hd : d = (s.obj.frame t).op.dir
      · rw [hd]
        exact fun _ ↦ (avail_of_stuck h.stock hs).trans_le (Nat.zero_le _)
      · exact ht.other d hd
    -- Whoever gives up leaves nothing that could be had.
    have hgive : ∀ a : Sys (Mq T) T, Base a → a.obj = s.obj → ∀ r,
        Wakes (on a fun o ↦ (o.touch t).return' t r) := by
      intro a ha hobj r
      have habs : a.obj.Absent t := hobj ▸ ht.absent
      have howed' : ∀ d, Owed a.obj d 0 := hobj ▸ howed
      have hw : Wakes (on a fun o ↦ o.touch t) := ⟨ha.touch t, howed'⟩
      exact hw.return' habs r
    have hnap : Base (nap s t) := h.modify ht.absent _
    rw [if_pos hs]
    split_ifs with hnb hto habort
    · exact hgive s h rfl _
    · exact hgive (nap s t) hnap rfl _
    · exact hgive (nap s t) hnap rfl _
    · exact hgive s h rfl _
    · have hb := (h.modify ht.absent fun d ↦ d.block .blocked).touch t
      have hr : ((s.modify t fun d ↦ d.block .blocked).thread t).reaped = false := by
        rw [Sync.thread_modify, if_pos rfl]
        exact ht.alive
      refine ⟨hb.link ht.absent ht.gen hr, fun d ↦ ?_⟩
      show Owed ((s.obj.touch t).link t) d 0
      rw [Owed, waitq_link]
      split_ifs with hd
      · intro _
        rw [hd]
        exact (avail_of_stuck h.stock hs).trans_le (Nat.zero_le _)
      · exact howed d
  · rw [if_neg hs, if_neg fun hb ↦ hok hb.2]
    exact Wakes.transfer (s := on s fun o ↦ o.touch t) (h.touch t)
      ⟨ht.absent, ht.gen, ht.alive, ht.other, ht.own, ht.refused⟩ hs

/-! ## Steps -/

theorem Owed.mono {k' : ℕ} (h : Owed o d k) (hk : k ≤ k') : Owed o d k' :=
  fun hne ↦ (h hne).trans (Nat.add_le_add_left hk _)

/-- The first section of a call, or a call that goes no further. -/
theorem Base.setFrame (h : Base s) (hp : (s.obj.frame t).phase ≠ .wait) {f : Frame → Frame}
    (hf : (f (s.obj.frame t)).phase = .enter) : Base (on s fun o ↦ o.setFrame t f) := by
  refine h.alone ⟨h.stock.inUse, h.stock.count, h.stock.slots, h.stock.le, h.stock.max⟩
    (h.absent hp) rfl rfl rfl (fun u hu ↦ Function.update_of_ne hu ..) (fun _ _ ↦ rfl) fun hw ↦ ?_
  have hself : (s.obj.setFrame t f).frame t = f (s.obj.frame t) := Function.update_self ..
  cases hf.symm.trans ((congrArg Frame.phase hself).symm.trans hw)

theorem Wakes.lookUp (h : Wakes s) (hp : (s.obj.frame t).phase = .out) (op : Op) (mode : Mode) :
    Wakes (lookUp s t op mode) := by
  have hp' : (s.obj.frame t).phase ≠ .wait := by
    rw [hp]
    exact nofun
  have hb := h.toBase.setFrame hp' (f := fun _ ↦ { Frame.start with
    phase := .enter, op := op, mode := mode, started := s.obj.incarnation }) rfl
  have hret := fun r ↦ hb.return' (t := t) (h.absent hp') r
  rw [Mqueue.lookUp]
  split_ifs
  · exact ⟨hret _, h.owed⟩
  · exact ⟨hret _, h.owed⟩
  · exact ⟨hb, h.owed⟩

theorem Wakes.enter (h : Wakes s) (hr : (s.thread t).reaped = false)
    (hp : (s.obj.frame t).phase = .enter) : Wakes (enter s t) := by
  have hp' : (s.obj.frame t).phase ≠ .wait := by
    rw [hp]
    exact nofun
  have hself := frame_setFrame s.obj t t fun f ↦
    { f with gen := s.obj.generation, armed := decide (f.mode = .timed), doomed := false }
  rw [if_pos rfl] at hself
  have hb := h.toBase.setFrame hp' (f := fun f ↦
    { f with gen := s.obj.generation, armed := decide (f.mode = .timed), doomed := false }) hp
  exact Wakes.attempt hb ⟨h.absent hp', congrArg Frame.gen hself, hr, fun d _ ↦ h.owed d,
    (h.owed _).mono (Nat.zero_le _), fun _ ↦ h.owed _⟩

theorem owed_leave (h : Owed o d 0) (t : T) :
    Owed (o.leave t) d (if t ∈ o.pend d then 1 else 0) := by
  intro hne
  have hav : o.avail d ≤ (o.pend d).length := h fun hnil ↦ hne (by
    show (o.waitq d).erase t = []
    rw [hnil, erase_nil])
  show o.avail d ≤ ((o.pend d).erase t).length + _
  rw [length_erase]
  split_ifs
  · omega
  · exact hav

theorem Wakes.resume (h : Wakes s) (hr : (s.thread t).reaped = false)
    (hp : (s.obj.frame t).phase = .wait) (hK : Delivered s (.resume t)) : Wakes (resume s t) := by
  obtain ⟨hb, habs⟩ := h.toBase.leave t
  have hb' : Base ((on s fun o ↦ o.leave t).modify t fun d ↦ d.unblock .blocked) :=
    hb.modify habs _
  have hkeep : ∀ d, t ∉ s.obj.pend d → Owed (s.obj.leave t) d 0 := by
    intro d hd
    have ho := owed_leave (h.owed d) t
    rwa [if_neg hd] at ho
  have hgive : (s.obj.frame t).woken = false → ∀ d, Owed (s.obj.leave t) d 0 := by
    refine fun hunwoken d ↦ hkeep d fun hd ↦ ?_
    cases hunwoken.symm.trans (h.pending d t hd).2.2.1
  rw [Mqueue.resume]
  split_ifs with hagain hunwoken hto
  · exact h
  · exact ⟨hb'.return' habs _, hgive hunwoken.2⟩
  · exact ⟨hb'.return' habs _, hgive hunwoken.2⟩
  · have hr' : (((on s fun o ↦ o.leave t).modify t fun d ↦ d.unblock .blocked).thread t).reaped =
        false := by
      rw [Sync.thread_modify, if_pos rfl]
      exact hr
    refine Wakes.attempt hb'
      ⟨habs, h.gen t hp, hr', fun d hd ↦ hkeep d fun ht ↦ ?_, ?_, fun hre ↦ ?_⟩
    · exact hd (h.pending d t ht).2.1.symm
    · have ho := owed_leave (h.owed (s.obj.frame t).op.dir) t
      refine ho.mono ?_
      split_ifs
      · exact le_rfl
      · exact Nat.zero_le _
    · -- Only a receiver is refused, and one that was woken is not.
      refine hkeep _ fun ht ↦ ?_
      have hre' : s.obj.refuses (s.obj.frame t).op = true := hre
      cases hop : (s.obj.frame t).op with
      | send m =>
        rw [hop] at hre'
        cases hre'
      | recv n =>
        have hmem : t ∈ s.obj.pend .recv := by
          have ht' : t ∈ s.obj.pend (s.obj.frame t).op.dir := ht
          rw [hop] at ht'
          exact ht'
        cases (hK hmem).symm.trans hre'

theorem Base.quiet (h : Base s) (hobj : s'.obj = s.obj)
    (hr : ∀ u, (s'.thread u).reaped = (s.thread u).reaped)
    (hc : ∀ d, ∀ u ∈ s.obj.pend d, (s.thread u).Coming → (s'.thread u).Coming) : Base s' := by
  refine h.sub (hobj ▸ h.stock) (hobj ▸ h.gen) (fun d ↦ ?_) (fun d ↦ ?_) (fun d u _ ↦ ?_)
    (fun d u _ ↦ hr u) (fun d u hu ↦ hc d u (hobj ▸ hu))
  · rw [hobj]
  · rw [hobj]
  · rw [hobj]
    exact ⟨rfl, rfl, rfl⟩

/-- A record is taken off its queue by somebody else. -/
theorem Wakes.unlink (h : Wakes s) (t : T) :
    Wakes (on s fun o ↦ o.unlink t) ∧ ∀ d, t ∉ (s.obj.unlink t).waitq d := by
  refine ⟨⟨?_, fun d hne ↦ ?_⟩, fun d ht ↦ ?_⟩
  · exact h.toBase.sub ⟨h.stock.inUse, h.stock.count, h.stock.slots, h.stock.le, h.stock.max⟩ h.gen
      (fun _ ↦ erase_sublist) (fun _ ↦ .refl _) (fun _ _ _ ↦ ⟨rfl, rfl, rfl⟩)
      (fun _ _ _ ↦ rfl) (fun _ _ _ ↦ id)
  · have hav : s.obj.avail d ≤ (s.obj.pend d).length := h.owed d fun hnil ↦ hne (by
      show (s.obj.waitq d).erase t = []
      rw [hnil, erase_nil])
    cases d <;> exact hav
  · have hnd := (nodup_append'.mp (h.nodup d)).1
    exact (hnd.mem_erase_iff.mp ht).1 rfl

/-- Something is noted in a frame that no wake-up depends on. -/
theorem Wakes.note (h : Wakes s) {f : Frame → Frame}
    (hf : ∀ x, (f x).phase = x.phase ∧ (f x).op = x.op ∧ (f x).woken = x.woken ∧
      (f x).gen = x.gen) (t : T) : Wakes (on s fun o ↦ o.setFrame t f) := by
  have hsame : ∀ u, ((s.obj.setFrame t f).frame u).phase = (s.obj.frame u).phase ∧
      ((s.obj.setFrame t f).frame u).op = (s.obj.frame u).op ∧
      ((s.obj.setFrame t f).frame u).woken = (s.obj.frame u).woken ∧
      ((s.obj.setFrame t f).frame u).gen = (s.obj.frame u).gen := by
    intro u
    rw [frame_setFrame]
    split_ifs with hu
    · rw [hu]
      exact hf _
    · exact ⟨rfl, rfl, rfl, rfl⟩
  refine ⟨h.toBase.sub ⟨h.stock.inUse, h.stock.count, h.stock.slots, h.stock.le, h.stock.max⟩
    (fun u hu ↦ ?_) (fun _ ↦ .refl _) (fun _ ↦ .refl _)
    (fun _ u _ ↦ ⟨(hsame u).1, (hsame u).2.1, (hsame u).2.2.1⟩) (fun _ _ _ ↦ rfl)
    (fun _ _ _ ↦ id), h.owed⟩
  exact (hsame u).2.2.2.trans (h.gen u ((hsame u).1.symm.trans hu))

theorem Wakes.mqTimeoutFn (h : Wakes s) (t : T) : Wakes (mqTimeoutFn s t) := by
  have hset := h.note (f := fun f ↦ { f with armed := false }) (fun _ ↦ ⟨rfl, rfl, rfl, rfl⟩) t
  rw [Mqueue.mqTimeoutFn]
  split_ifs with hl
  · obtain ⟨hw, hun⟩ := hset.unlink t
    have hn := hw.note (f := fun f ↦ { f with timedOut := true }) (fun _ ↦ ⟨rfl, rfl, rfl, rfl⟩) t
    -- The thread was on a queue, so no wake-up is on its way to it.
    refine ⟨hn.toBase.modify (fun d ↦ ⟨hun d, fun ht ↦ ?_⟩) _, hn.owed⟩
    cases hl.2.1.symm.trans (h.pending d t ht).2.2.1
  · exact hset

theorem Wakes.mqWaitCleanup (h : Wakes s) (t : T) :
    Wakes (mqWaitCleanup s t) ∧ ∀ d, t ∉ (mqWaitCleanup s t).obj.waitq d := by
  obtain ⟨hw, hun⟩ := h.unlink t
  exact ⟨hw.note (f := fun f ↦ { f with armed := false }) (fun _ ↦ ⟨rfl, rfl, rfl, rfl⟩) t, hun⟩

theorem Wakes.envStep (h : Wakes s) {e : Env T} (hK : Delivered s (.env e))
    (hstep : envStep Mqueue.mqWaitCleanup s e = some s') : Wakes s' := by
  rcases Sync.envStep_cases hstep with hq | ⟨t, l, l', -, -, rfl⟩ | ⟨t, rfl, hdying, rfl⟩
  · refine ⟨h.toBase.quiet hq.obj (fun u ↦ (hq.thread u).reaped) fun d u hu ↦ ?_, hq.obj ▸ h.owed⟩
    refine (hq.thread u).coming ?_
    rintro rfl
    cases d with
    | recv => exact hK.1 hu
    | send => exact hK.2 hu
  · have hl : Wakes { s with nudges := l } :=
      ⟨⟨h.stock, h.gen, h.linked, h.pending, h.nodup⟩, h.owed⟩
    have hc := (hl.mqWaitCleanup t).1
    exact ⟨⟨hc.stock, hc.gen, hc.linked, hc.pending, hc.nodup⟩, hc.owed⟩
  · have hnp : ∀ d, t ∉ s.obj.pend d := fun d ht ↦ (h.pending d t ht).2.2.2.not_terminating hdying
    rw [Sync.runCleanup]
    split_ifs with hcb
    · have hm : Wakes (s.modify t fun d ↦ { d with blockCleanup := false }) := by
        refine ⟨h.toBase.quiet rfl (fun u ↦ ?_) fun d u hu hc ↦ ?_, h.owed⟩
        · rw [Sync.thread_modify]
          split_ifs with hu
          · rw [hu]
          · rfl
        · have hut : u ≠ t := fun hut ↦ hnp d (hut ▸ hu)
          rw [Sync.thread_modify, if_neg hut]
          exact hc
      obtain ⟨hc, hun⟩ := hm.mqWaitCleanup t
      exact ⟨hc.toBase.modify (fun d ↦ ⟨hun d, hnp d⟩) _, hc.owed⟩
    · rw [Bool.not_eq_true] at hcb
      have hun : ∀ d, t ∉ s.obj.waitq d := fun d hd ↦ hK hdying hcb (linked_iff.mpr ⟨d, hd⟩)
      exact ⟨h.toBase.modify (fun d ↦ ⟨hun d, hnp d⟩) _, h.owed⟩

theorem Wakes.step {e : Event T} (h : Wakes s) (hK : Delivered s e)
    (hstep : step s e = some s') : Wakes s' := by
  cases e with
  | call t op mode =>
    obtain ⟨⟨-, hp⟩, rfl⟩ := Runs.of_guard hstep
    exact h.lookUp hp op mode
  | enter t =>
    obtain ⟨⟨hr, hp⟩, rfl⟩ := Runs.of_guard hstep
    exact h.enter hr.2.1 hp
  | resume t =>
    obtain ⟨⟨hr, hp⟩, rfl⟩ := Runs.of_guard hstep
    exact h.resume hr.2.1 hp hK
  | timeout t =>
    obtain ⟨-, rfl⟩ := Runs.of_guard hstep
    exact h.mqTimeoutFn t
  | mqOpen n k | mqClose => exact hK.elim
  | env e => exact h.envStep hK hstep

/-- **No wake-up is lost**, in every run in which wake-ups are delivered: while a receiver waits,
there are as many woken live receivers on their way as there are messages, and while a sender waits,
as many woken live senders as there is free space. -/
theorem mqueue_wakes {n k : ℕ} (hn : n ≤ mqMaxMsgs)
    (h : Runs.Run step Delivered (Sys.boot (Mq.boot.mqueueOpen n k)) s) (d : Dir)
    (hd : s.obj.waitq d ≠ []) :
    ∃ l : List T, l.Nodup ∧ s.obj.avail d ≤ l.length ∧ ∀ t ∈ l, Pending s d t := by
  have hboot : Wakes (Sys.boot (Mq.boot.mqueueOpen n k) : Sys (Mq T) T) := by
    refine ⟨⟨⟨rfl, rfl, rfl, Nat.zero_le _, hn⟩, ?_, ?_, ?_, fun _ ↦ nodup_nil⟩, fun _ hne ↦ ?_⟩
    · nofun
    · nofun
    · nofun
    · exact absurd rfl hne
  have hw : Wakes s := h.invariant hboot fun _ _ _ ↦ Wakes.step
  exact ⟨s.obj.pend d, (nodup_append'.mp (hw.nodup d)).2.1, hw.owed d hd, hw.pending d⟩

/-- Two receivers wait, and one message comes. -/
theorem mqueue_wakes_two : ∃ s : Sys (Mq (Fin 3)) (Fin 3),
    Runs.Run step Delivered (Sys.boot (Mq.boot.mqueueOpen 4 8)) s ∧ s.obj.msgs.length = 1 ∧
      s.obj.waitq .recv = [1] ∧
      ∃ l : List (Fin 3), l.Nodup ∧ s.obj.avail .recv ≤ l.length ∧ ∀ t ∈ l, Pending s .recv t := by
  obtain ⟨s, hrun, hlen, hq⟩ := Runs.exists_run step Delivered
    (Sys.boot (Mq.boot.mqueueOpen 4 8 : Mq (Fin 3)))
    [.env (.dispatch 0), .call 0 (.recv 8) .plain, .enter 0, .env (.schedule 0),
      .env (.dispatch 1), .call 1 (.recv 8) .timed, .enter 1, .env (.schedule 1),
      .env (.dispatch 2), .call 2 (.send ⟨[1, 2], 0⟩) .plain, .enter 2]
    (p := fun s ↦ s.obj.msgs.length = 1 ∧ s.obj.waitq .recv = [1]) (by decide +kernel)
  exact ⟨s, hrun, hlen, hq, mqueue_wakes (by decide) hrun .recv (by rw [hq]; exact nofun)⟩

/-- The receiver that is woken for a message finds its buffer too small, or is killed and switched
away from before it has the lock. The message stays, the other receiver waits, and nobody is on the
way. -/
theorem not_mqueue_wakes : (∃ s : Sys (Mq (Fin 3)) (Fin 3),
      Runs.Run step (fun _ _ ↦ True) (Sys.boot (Mq.boot.mqueueOpen 4 8)) s ∧
        s.obj.waitq .recv = [1] ∧ s.obj.msgs = [⟨[1, 2], 0⟩] ∧ s.obj.inUse = true ∧
        ∀ t, ¬Pending s .recv t) ∧
    ∃ s : Sys (Mq (Fin 3)) (Fin 3),
      Runs.Run step (fun _ _ ↦ True) (Sys.boot (Mq.boot.mqueueOpen 4 8)) s ∧
        s.obj.waitq .recv = [1] ∧ s.obj.msgs = [⟨[1, 2], 0⟩] ∧ s.obj.inUse = true ∧
        ∀ t, ¬Pending s .recv t := by
  constructor
  · exact Runs.exists_run step (fun _ _ ↦ True) _
      [.env (.dispatch 0), .call 0 (.recv 1) .plain, .enter 0, .env (.schedule 0),
        .env (.dispatch 1), .call 1 (.recv 8) .plain, .enter 1, .env (.schedule 1),
        .env (.dispatch 2), .call 2 (.send ⟨[1, 2], 0⟩) .plain, .enter 2,
        .env (.dispatch 0), .resume 0] (by decide +kernel)
  · exact Runs.exists_run step (fun _ _ ↦ True) _
      [.env (.dispatch 0), .call 0 (.recv 8) .plain, .enter 0, .env (.schedule 0),
        .env (.dispatch 1), .call 1 (.recv 8) .plain, .enter 1, .env (.schedule 1),
        .env (.dispatch 2), .call 2 (.send ⟨[1, 2], 0⟩) .plain, .enter 2,
        .env (.dispatch 0), .env (.kill 0), .env (.schedule 0)] (by decide +kernel)

end Mazu.Ipc.Mqueue
