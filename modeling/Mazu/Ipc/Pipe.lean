import Mathlib.Data.Fintype.Basic
import Mazu.Lib.Runs

/-!
# Pipes

A ring of bytes with a wait queue at each end. A call looks at its condition without the lock,
links itself, sets itself `BLOCKED`, looks again and yields; what it was waiting for is taken under
the lock, and the wake-up of the other end comes after the lock is given up. Each of these is one
step, so that every other thread may come between.

The trap handler switches away from a thread whose state is not `RUNNING`. An interrupt that
arrives while a thread has set itself `BLOCKED` and not yet looked again therefore puts it to sleep
on the spot.

The invariant is that a sleeper that could go on is **owed a wake-up**: some thread is about to call
`wake_up` on its queue. It survives a wake-up only if the threads that the wake-up passes over have
nothing to do, which is the condition `Reaches`.
-/

namespace Mazu.Ipc.Pipe

open Function List

set_option linter.unusedSectionVars false

def pipeBufSize : ℕ := 4096

structure Ring where
  head : ℕ
  tail : ℕ
  buf : ℕ → UInt8

namespace Ring

variable (p : Ring)

/-- `pipe_used`. -/
def used : ℕ := p.tail - p.head

/-- `pipe_space`. -/
def space : ℕ := pipeBufSize - p.used

/-- The next `n` bytes. -/
def peek (n : ℕ) : List UInt8 := (List.range n).map fun i ↦ p.buf ((p.head + i) % pipeBufSize)

def take (n : ℕ) : Ring := { p with head := p.head + n }

def store (p : Ring) (i : ℕ) : List UInt8 → Ring
  | [] => p
  | b :: bs => store { p with buf := update p.buf (i % pipeBufSize) b } (i + 1) bs

def put (data : List UInt8) : Ring := { p.store p.tail data with tail := p.tail + data.length }

end Ring

inductive Call
  /-- `pipe_read` of so many bytes. -/
  | read (len : ℕ)
  /-- `pipe_write`. -/
  | write (data : List UInt8)
  deriving DecidableEq

/-- The wait queues. -/
inductive Queue
  | rd
  | wr
  deriving DecidableEq

/-- The queue that the call waits on. -/
def Call.queue : Call → Queue
  | .read _ => .rd
  | .write _ => .wr

inductive Pc
  | out
  /-- At the condition of the loop of `wait_event`. -/
  | test
  | prepare
  /-- At the second look, after `prepare_to_wait`. -/
  | recheck
  | yield
  /-- At `finish_wait`. -/
  | finish
  /-- At the section under the lock of the pipe. -/
  | locked
  /-- At `wake_up`. -/
  | wake (q : Queue) (nr : ℕ)
  deriving DecidableEq

inductive Result
  | bytes (l : List UInt8)
  | wrote (n : ℕ)
  | epipe
  deriving DecidableEq

structure Thread where
  pc : Pc
  call : Call
  /-- The state is `TD_STATE_BLOCKED`. -/
  blocked : Bool
  /-- Switched away from while blocked. -/
  away : Bool
  prio : ℕ
  result : Option Result
  deriving DecidableEq

structure Sys (T : Type) where
  ring : Ring
  readers : ℕ
  writers : ℕ
  wq : Queue → List T
  thread : T → Thread

/-- `pipe_alloc`, with threads of the given priorities. -/
def Sys.alloc {T : Type} (prio : T → ℕ) : Sys T where
  ring := ⟨0, 0, fun _ ↦ 0⟩
  readers := 1
  writers := 1
  wq _ := []
  thread t := ⟨.out, .read 0, false, false, prio t, none⟩

variable {T : Type} [DecidableEq T] (s : Sys T) (t : T)

def Sys.modify (f : Thread → Thread) : Sys T :=
  { s with thread := update s.thread t (f (s.thread t)) }

def goTo (pc : Pc) : Sys T := s.modify t fun d ↦ { d with pc := pc }

def return' (r : Result) : Sys T := s.modify t fun d ↦ { d with pc := .out, result := some r }

/-- There is data for the reader, or space for all that the writer wants to write. -/
def Sys.Ready : Prop :=
  match (s.thread t).call with
  | .read _ => 0 < s.ring.used
  | .write data => data.length ≤ s.ring.space

instance : Decidable (s.Ready t) := by
  unfold Sys.Ready
  split <;> infer_instance

/-- The other end is closed. -/
def Sys.PeerGone : Prop :=
  match (s.thread t).call with
  | .read _ => s.writers = 0
  | .write _ => s.readers = 0

instance : Decidable (s.PeerGone t) := by
  unfold Sys.PeerGone
  split <;> infer_instance

/-- The condition that the call waits for. -/
def Sys.Cond : Prop := s.Ready t ∨ s.PeerGone t

instance : Decidable (s.Cond t) := inferInstanceAs (Decidable (_ ∨ _))

/-- The place in a queue kept in descending priority. -/
def insertWaiter (q : List T) : List T :=
  let before := fun u ↦ decide ((s.thread t).prio ≤ (s.thread u).prio)
  q.takeWhile before ++ t :: q.dropWhile before

/-- `prepare_to_wait`. -/
def prepareToWait : Sys T :=
  let q := (s.thread t).call.queue
  let s' := s.modify t fun d ↦ { d with blocked := true, pc := .recheck }
  if t ∈ s.wq q then s'
  else { s' with wq := update s.wq q (insertWaiter s t (s.wq q)) }

/-- `finish_wait`. -/
def finishWait : Sys T :=
  let q := (s.thread t).call.queue
  { s.modify t (fun d ↦ { d with blocked := false, pc := .locked }) with
    wq := update s.wq q ((s.wq q).erase t) }

/-- The waiters that `wake_up` wakes: those that are blocked, in queue order, at most `nr`. -/
def blockedOn (q : Queue) : List T := (s.wq q).filter fun u ↦ (s.thread u).blocked

/-- `wake_up`; the caller returns after it. -/
def wakeUp (q : Queue) (nr : ℕ) : Sys T :=
  let woken := (blockedOn s q).take nr
  { s with thread := fun u ↦
    if u ∈ woken then { s.thread u with blocked := false, away := false } else s.thread u }

/-- The section of `pipe_read` under the lock. -/
def readLocked (len : ℕ) : Sys T :=
  if 0 < s.ring.used then
    let n := min len s.ring.used
    { s.modify t (fun d ↦ { d with pc := .wake .wr 1, result := some (.bytes (s.ring.peek n)) }) with
      ring := s.ring.take n }
  else if s.writers = 0 then return' s t (.bytes [])
  else goTo s t .test

/-- The section of `pipe_write` under the lock. -/
def writeLocked (data : List UInt8) : Sys T :=
  if s.readers = 0 then return' s t .epipe
  else if data.length ≤ s.ring.space then
    { s.modify t (fun d ↦ { d with pc := .wake .rd 1, result := some (.wrote data.length) }) with
      ring := s.ring.put data }
  else goTo s t .test

/-- The thread goes on by one step. -/
def advance : Option (Sys T) :=
  if (s.thread t).away then none else
  match (s.thread t).pc with
  | .out => none
  | .test => some (goTo s t (if s.Cond t then .finish else .prepare))
  | .prepare => some (prepareToWait s t)
  | .recheck => some (goTo s t (if s.Cond t then .finish else .yield))
  | .yield => some (s.modify t fun d ↦ { d with pc := .test, away := d.blocked })
  | .finish => some (finishWait s t)
  | .locked =>
    match (s.thread t).call with
    | .read len => some (readLocked s t len)
    | .write data => some (writeLocked s t data)
  | .wake q nr => some (goTo (wakeUp s q nr) t .out)

/-- The section of `pipe_close_end` under the lock. A peer is woken when the last reader or writer
goes and the other end is still open. -/
def pipeCloseEnd : Queue → Option (Sys T)
  | .rd =>
    if s.readers = 0 then none
    else
      let s' := { s with readers := s.readers - 1 }
      some (if s'.readers = 0 ∧ s'.writers ≠ 0 then goTo s' t (.wake .wr 128) else s')
  | .wr =>
    if s.writers = 0 then none
    else
      let s' := { s with writers := s.writers - 1 }
      some (if s'.writers = 0 ∧ s'.readers ≠ 0 then goTo s' t (.wake .rd 128) else s')

inductive Event (T : Type)
  /-- The thread calls `pipe_read` or `pipe_write`; for zero bytes they return at once. -/
  | call (t : T) (c : Call)
  /-- `pipe_close_read` or `pipe_close_write`. -/
  | close (t : T) (q : Queue)
  | advance (t : T)
  /-- An interrupt: the trap handler switches away from a thread that is blocked. -/
  | interrupt (t : T)
  | setPrio (t : T) (prio : ℕ)

def start (c : Call) : Sys T := s.modify t fun d ↦ { d with pc := .test, call := c, result := none }

def step : Event T → Option (Sys T)
  | .call t c =>
    if (s.thread t).pc = .out ∧ c ≠ .read 0 ∧ c ≠ .write [] then some (start s t c) else none
  | .close t q => if (s.thread t).pc = .out then pipeCloseEnd s t q else none
  | .advance t => advance s t
  | .interrupt t => some (s.modify t fun d ↦ { d with away := d.blocked })
  | .setPrio t p => some (s.modify t fun d ↦ { d with prio := p })

/-- **Wake-ups reach whom they concern.** Those of the blocked waiters that a wake-up passes over
cannot go on, and an interrupt that finds a thread blocked, before its second look at the condition
or after it has seen it hold, does so while the thread cannot go on. -/
def Reaches : Event T → Prop
  | .advance t =>
    match (s.thread t).pc with
    | .wake q nr => ∀ u ∈ (blockedOn s q).drop nr, ¬s.Ready u
    | _ => True
  | .interrupt t =>
    (s.thread t).pc = .recheck ∨ (s.thread t).pc = .finish → (s.thread t).blocked = true →
      ¬s.Ready t
  | _ => True

instance (e : Event T) : Decidable (Reaches s e) := by
  cases e with
  | advance t =>
    unfold Reaches
    dsimp only
    split <;> infer_instance
  | interrupt t => exact inferInstanceAs (Decidable (_ → _ → _))
  | call t c | close t q | setPrio t p => exact .isTrue trivial

/-! ## Owed wake-ups -/

def Owed (q : Queue) : Prop := ∃ u nr, (s.thread u).pc = .wake q nr

/-- The thread sleeps, or is about to yield. -/
def Thread.Resting (d : Thread) : Prop := d.blocked = true ∧ (d.away = true ∨ d.pc = .yield)

/-- Where a thread can be while it is blocked. -/
def Thread.Waits (d : Thread) : Prop :=
  d.pc = .recheck ∨ d.pc = .yield ∨ d.pc = .finish ∨ d.pc = .test ∧ d.away = true

structure Inv : Prop where
  away : ∀ t, (s.thread t).away = true → (s.thread t).blocked = true
  waits : ∀ t, (s.thread t).blocked = true → (s.thread t).Waits
  linked : ∀ t, (s.thread t).blocked = true → t ∈ s.wq (s.thread t).call.queue
  owed : ∀ t, (s.thread t).Resting → s.Ready t → Owed s (s.thread t).call.queue

variable {s t}

theorem inv_alloc (prio : T → ℕ) : Inv (Sys.alloc prio) :=
  ⟨nofun, nofun, nofun, fun _ h ↦ nomatch h.1⟩

theorem thread_modify (u : T) (f : Thread → Thread) :
    (s.modify t f).thread u = if u = t then f (s.thread t) else s.thread u :=
  update_apply ..

/-- Whether a thread can go on depends on its call and on the ring. -/
theorem ready_congr (s s' : Sys T) {t : T} (hr : s'.ring = s.ring)
    (hc : (s'.thread t).call = (s.thread t).call) : s'.Ready t ↔ s.Ready t := by
  rw [Sys.Ready, Sys.Ready, hr, hc]

variable {f : Thread → Thread} {s' : Sys T} {q : Queue}

theorem ready_modify (hf : (f (s.thread t)).call = (s.thread t).call) (u : T) :
    (s.modify t f).Ready u ↔ s.Ready u := by
  refine ready_congr _ _ rfl ?_
  rw [thread_modify]
  split_ifs with hu
  · rw [hf, hu]
  · rfl

/-- **A step of one thread** that is not at a wake-up and leaves the ring alone: the others are as
they were, and only the thread itself has to be looked at. -/
theorem Inv.of_thread (h : Inv s) (hring : s'.ring = s.ring)
    (hne : ∀ u, u ≠ t → s'.thread u = s.thread u)
    (hwq : ∀ q u, u ≠ t → u ∈ s.wq q → u ∈ s'.wq q)
    (hpc : ∀ q nr, (s.thread t).pc ≠ .wake q nr)
    (haway : (s'.thread t).away = true → (s'.thread t).blocked = true)
    (hwaits : (s'.thread t).blocked = true →
      (s'.thread t).Waits ∧ t ∈ s'.wq (s'.thread t).call.queue)
    (howed : (s'.thread t).Resting → s'.Ready t → Owed s' (s'.thread t).call.queue) : Inv s' := by
  have hkeep : ∀ q, Owed s q → Owed s' q := by
    rintro q ⟨u, nr, hu⟩
    have hut : u ≠ t := fun h ↦ hpc q nr (h ▸ hu)
    exact ⟨u, nr, by rw [hne u hut, hu]⟩
  refine ⟨fun u ↦ ?_, fun u ↦ ?_, fun u ↦ ?_, fun u ↦ ?_⟩ <;> by_cases hu : u = t
  · exact hu ▸ haway
  · rw [hne u hu]
    exact h.away u
  · exact hu ▸ fun hb ↦ (hwaits hb).1
  · rw [hne u hu]
    exact h.waits u
  · exact hu ▸ fun hb ↦ (hwaits hb).2
  · rw [hne u hu]
    exact fun hb ↦ hwq _ u hu (h.linked u hb)
  · exact hu ▸ howed
  · rw [hne u hu, ready_congr s s' hring (by rw [hne u hu])]
    exact fun hrest hready ↦ hkeep _ (h.owed u hrest hready)

/-- The same for a change of the thread alone. -/
theorem Inv.modify (h : Inv s) (hpc : ∀ q nr, (s.thread t).pc ≠ .wake q nr)
    (haway : (f (s.thread t)).away = true → (f (s.thread t)).blocked = true)
    (hwaits : (f (s.thread t)).blocked = true →
      (f (s.thread t)).Waits ∧ t ∈ s.wq (f (s.thread t)).call.queue)
    (howed : (f (s.thread t)).Resting → (s.modify t f).Ready t →
      Owed (s.modify t f) (f (s.thread t)).call.queue) : Inv (s.modify t f) := by
  have hself : (s.modify t f).thread t = f (s.thread t) := update_self ..
  refine h.of_thread rfl (fun u hu ↦ update_of_ne hu ..) (fun _ _ _ ↦ id) hpc ?_ ?_ ?_
  · rw [hself]
    exact haway
  · rw [hself]
    exact hwaits
  · rw [hself]
    exact howed

/-- The thread is not blocked, before and after. -/
theorem Inv.modify_awake (h : Inv s) (hpc : ∀ q nr, (s.thread t).pc ≠ .wake q nr)
    (hb : (f (s.thread t)).blocked = false)
    (haway : (f (s.thread t)).away = false) : Inv (s.modify t f) :=
  h.modify hpc (fun ha ↦ nomatch haway.symm.trans ha) (fun ha ↦ nomatch hb.symm.trans ha)
    fun ha ↦ nomatch hb.symm.trans ha.1

theorem Inv.awake (h : Inv s) (ha : (s.thread t).away = false)
    (hpc : (s.thread t).pc ≠ .recheck ∧ (s.thread t).pc ≠ .yield ∧ (s.thread t).pc ≠ .finish) :
    (s.thread t).blocked = false := by
  rw [← Bool.not_eq_true]
  intro hb
  rcases h.waits t hb with h' | h' | h' | h'
  · exact hpc.1 h'
  · exact hpc.2.1 h'
  · exact hpc.2.2 h'
  · cases ha.symm.trans h'.2

theorem mem_insertWaiter (q : List T) (u : T) : u ∈ insertWaiter s t q ↔ u = t ∨ u ∈ q := by
  have hsplit := takeWhile_append_dropWhile
    (p := fun u ↦ decide ((s.thread t).prio ≤ (s.thread u).prio)) (l := q)
  rw [insertWaiter, mem_append, mem_cons]
  conv_rhs => rw [← hsplit, mem_append]
  tauto

theorem Inv.prepareToWait (h : Inv s) (hpc : (s.thread t).pc = .prepare) :
    Inv (prepareToWait s t) := by
  have haway : (s.thread t).away = false := by
    rw [← Bool.not_eq_true]
    intro ha
    rcases h.waits t (h.away t ha) with h' | h' | h' | h'
    · cases hpc.symm.trans h'
    · cases hpc.symm.trans h'
    · cases hpc.symm.trans h'
    · cases hpc.symm.trans h'.1
  have hwq : ∀ q u, u ∈ s.wq q → u ∈ (Pipe.prepareToWait s t).wq q := by
    intro q u hu
    rw [Pipe.prepareToWait]
    split_ifs
    · exact hu
    · show u ∈ update s.wq _ _ q
      rw [update_apply]
      split_ifs with hq
      · exact (mem_insertWaiter _ u).mpr (.inr (hq ▸ hu))
      · exact hu
  have hself : (Pipe.prepareToWait s t).thread t =
      { s.thread t with blocked := true, pc := .recheck } := by
    rw [Pipe.prepareToWait]
    split_ifs <;> exact update_self ..
  have hmem : t ∈ (Pipe.prepareToWait s t).wq (s.thread t).call.queue := by
    rw [Pipe.prepareToWait]
    split_ifs with hin
    · exact hin
    · show t ∈ update s.wq _ _ _
      rw [update_self]
      exact (mem_insertWaiter _ t).mpr (.inl rfl)
  refine h.of_thread (t := t) ?_ ?_ (fun q u _ ↦ hwq q u) (by simp [hpc]) ?_ ?_ ?_
  · rw [Pipe.prepareToWait]
    split_ifs <;> rfl
  · intro u hu
    rw [Pipe.prepareToWait]
    split_ifs <;> exact update_of_ne hu ..
  · rw [hself]
    exact fun _ ↦ rfl
  · rw [hself]
    exact fun _ ↦ ⟨.inl rfl, hmem⟩
  · rw [hself]
    rintro ⟨-, ha | ha⟩
    · cases haway.symm.trans ha
    · cases ha

theorem Inv.finishWait (h : Inv s) (ha : (s.thread t).away = false)
    (hpc : (s.thread t).pc = .finish) : Inv (finishWait s t) := by
  have hself : (Pipe.finishWait s t).thread t =
      { s.thread t with blocked := false, pc := .locked } := update_self ..
  refine h.of_thread (t := t) rfl (fun u hu ↦ update_of_ne hu ..) ?_ (by simp [hpc]) ?_ ?_ ?_
  · intro q u hu hmem
    show u ∈ update s.wq _ _ q
    rw [update_apply]
    split_ifs with hq
    · exact (mem_erase_of_ne hu).mpr (hq ▸ hmem)
    · exact hmem
  · rw [hself]
    exact fun h' ↦ nomatch ha.symm.trans h'
  · rw [hself]
    exact nofun
  · rw [hself]
    exact fun h' ↦ nomatch h'.1

/-! ## Wake-ups and transfers -/

/-- Whom a wake-up leaves as it was. -/
theorem wakeUp_thread (q : Queue) (nr : ℕ) (u : T) : (wakeUp s q nr).thread u =
      if u ∈ (blockedOn s q).take nr then { s.thread u with blocked := false, away := false }
      else s.thread u := rfl

theorem wakeUp_pc (q : Queue) (nr : ℕ) (u : T) :
    ((wakeUp s q nr).thread u).pc = (s.thread u).pc := by
  rw [wakeUp_thread]
  split <;> rfl

theorem blocked_of_wakeUp {nr : ℕ} {u : T} (h : ((wakeUp s q nr).thread u).blocked = true) :
    (wakeUp s q nr).thread u = s.thread u ∧ u ∉ (blockedOn s q).take nr := by
  rw [wakeUp_thread] at h ⊢
  split at h
  · cases h
  · rename_i hu
    exact ⟨if_neg hu, hu⟩

/-- **The wake-up is carried out.** The debt to its queue is paid: whoever is passed over cannot go
on. -/
theorem Inv.wakeUp (h : Inv s) {nr : ℕ} (hpc : (s.thread t).pc = .wake q nr)
    (hK : ∀ u ∈ (blockedOn s q).drop nr, ¬s.Ready u) : Inv (goTo (wakeUp s q nr) t .out) := by
  have hself : (goTo (Pipe.wakeUp s q nr) t .out).thread t =
      { (Pipe.wakeUp s q nr).thread t with pc := .out } := update_self ..
  have hne : ∀ u, u ≠ t → (goTo (Pipe.wakeUp s q nr) t .out).thread u =
      (Pipe.wakeUp s q nr).thread u := fun u hu ↦ update_of_ne hu ..
  have htb : (s.thread t).blocked = false := by
    rw [← Bool.not_eq_true]
    intro hb
    have hw := h.waits t hb
    simp [Thread.Waits, hpc] at hw
  have hblocked : ∀ u, ((goTo (Pipe.wakeUp s q nr) t .out).thread u).blocked = true →
      u ≠ t ∧ (goTo (Pipe.wakeUp s q nr) t .out).thread u = s.thread u ∧
        u ∉ (blockedOn s q).take nr := by
    intro u hb
    have hu : u ≠ t := by
      rintro rfl
      rw [hself] at hb
      cases htb.symm.trans ((blocked_of_wakeUp hb).1 ▸ hb)
    rw [hne u hu] at hb ⊢
    exact ⟨hu, blocked_of_wakeUp hb⟩
  have haway : ∀ u, ((goTo (Pipe.wakeUp s q nr) t .out).thread u).away = true →
      ((goTo (Pipe.wakeUp s q nr) t .out).thread u).blocked = true := by
    intro u
    have hw : ((Pipe.wakeUp s q nr).thread u).away = true →
        ((Pipe.wakeUp s q nr).thread u).blocked = true := by
      rw [wakeUp_thread]
      split
      · exact nofun
      · exact h.away u
    by_cases hu : u = t
    · rw [hu, hself]
      exact hu ▸ hw
    · rw [hne u hu]
      exact hw
  refine ⟨haway, fun u hb ↦ ?_, fun u hb ↦ ?_, fun u hrest hready ↦ ?_⟩
  · have heq := (hblocked u hb).2.1
    rw [heq] at hb ⊢
    exact h.waits u hb
  · have heq := (hblocked u hb).2.1
    rw [heq] at hb ⊢
    exact h.linked u hb
  obtain ⟨hut, heq, hpass⟩ := hblocked u hrest.1
  rw [heq] at hrest ⊢
  have hcall : ((goTo (Pipe.wakeUp s q nr) t .out).thread u).call = (s.thread u).call := by rw [heq]
  have hready' : s.Ready u := (ready_congr s (goTo (Pipe.wakeUp s q nr) t .out) rfl hcall).mp hready
  obtain ⟨v, n, hv⟩ := h.owed u hrest hready'
  -- The caller itself owed the wake-up only if the sleeper was among those passed over.
  have hvt : v ≠ t := by
    rintro rfl
    have hq : (s.thread u).call.queue = q := by
      rw [hpc] at hv
      exact (Pc.wake.inj hv).1.symm
    have hmem : u ∈ blockedOn s q := mem_filter.mpr ⟨hq ▸ h.linked u hrest.1, hrest.1⟩
    rw [← take_append_drop nr (blockedOn s q), mem_append] at hmem
    exact hK u (hmem.resolve_left hpass) hready'
  exact ⟨v, n, by rw [hne v hvt, wakeUp_pc, hv]⟩

/-- **A transfer.** Whoever can go on after it could before, or waits on the queue that the thread
is about to wake. -/
theorem Inv.transfer {ring : Ring} (h : Inv s)
    (hpc : (s.thread t).pc = .locked) (ha : (s.thread t).away = false)
    (hf : (f (s.thread t)).pc = .wake q 1 ∧ (f (s.thread t)).blocked = (s.thread t).blocked ∧
      (f (s.thread t)).away = (s.thread t).away ∧ (f (s.thread t)).call = (s.thread t).call)
    (hready : ∀ u, Sys.Ready { s.modify t f with ring := ring } u → s.Ready u ∨
      (s.thread u).call.queue = q) : Inv { s.modify t f with ring := ring } := by
  have hb : (s.thread t).blocked = false := h.awake ha (by simp [hpc])
  have hm : Inv (s.modify t f) := h.modify_awake (by simp [hpc]) (hf.2.1.trans hb) (hf.2.2.1.trans ha)
  refine ⟨hm.away, hm.waits, hm.linked, fun u hrest hu ↦ ?_⟩
  have hut : u ≠ t := by
    rintro rfl
    have hself : (s.modify u f).thread u = f (s.thread u) := update_self ..
    have hbu : ((s.modify u f).thread u).blocked = true := hrest.1
    rw [hself, hf.2.1] at hbu
    cases hb.symm.trans hbu
  have hsame : (s.modify t f).thread u = s.thread u := update_of_ne hut ..
  rcases hready u hu with hold | hq
  · exact hm.owed u hrest ((ready_modify hf.2.2.2 u).mpr hold)
  · refine ⟨t, 1, ?_⟩
    have hcall : ((s.modify t f).thread u).call.queue = q := hsame ▸ hq
    rw [hcall, show (s.modify t f).thread t = f (s.thread t) from update_self .., hf.1]

theorem Ring.store_ends (p : Ring) (i : ℕ) (data : List UInt8) :
    (p.store i data).head = p.head ∧ (p.store i data).tail = p.tail := by
  induction data generalizing p i with
  | nil => exact ⟨rfl, rfl⟩
  | cons b bs ih => exact ih _ _

theorem Ring.used_put (p : Ring) (data : List UInt8) :
    (p.put data).used = p.tail + data.length - p.head := by
  rw [used, put, (p.store_ends p.tail data).1]

theorem Inv.readLocked (h : Inv s) (hpc : (s.thread t).pc = .locked)
    (ha : (s.thread t).away = false) (len : ℕ) : Inv (readLocked s t len) := by
  have hb : (s.thread t).blocked = false := h.awake ha (by simp [hpc])
  rw [Pipe.readLocked]
  split_ifs with hused hgone
  · refine h.transfer hpc ha ⟨rfl, rfl, rfl, rfl⟩ fun u hu ↦ ?_
    cases hc : (s.thread u).call with
    | read n =>
      left
      rw [Sys.Ready, hc]
      exact hused
    | write data => exact .inr rfl
  · exact h.modify_awake (by simp [hpc]) hb ha
  · exact h.modify_awake (by simp [hpc]) hb ha

theorem Inv.writeLocked (h : Inv s) (hpc : (s.thread t).pc = .locked)
    (ha : (s.thread t).away = false) (data : List UInt8) : Inv (writeLocked s t data) := by
  have hb : (s.thread t).blocked = false := h.awake ha (by simp [hpc])
  rw [Pipe.writeLocked]
  split_ifs with hgone hfits
  · exact h.modify_awake (by simp [hpc]) hb ha
  · refine h.transfer hpc ha ⟨rfl, rfl, rfl, rfl⟩ fun u hu ↦ ?_
    cases hc : (s.thread u).call with
    | read n => exact .inr rfl
    | write d =>
      left
      have hcall : ((s.modify t fun x ↦ { x with
          pc := .wake .rd 1, result := some (.wrote data.length) }).thread u).call = .write d := by
        rw [thread_modify]
        split_ifs with hut
        · exact hut ▸ hc
        · exact hc
      rw [Sys.Ready, hcall] at hu
      rw [Sys.Ready, hc]
      refine le_trans hu ?_
      rw [Ring.space, Ring.space, Ring.used_put, Ring.used]
      omega
  · exact h.modify_awake (by simp [hpc]) hb ha

/-! ## Runs -/

theorem Inv.advance (h : Inv s) (hK : Reaches s (.advance t))
    (hstep : advance s t = some s') : Inv s' := by
  rw [Pipe.advance] at hstep
  obtain ⟨ha, hstep⟩ := Option.ite_none_left_eq_some.mp hstep
  rw [Bool.not_eq_true] at ha
  rw [Reaches] at hK
  split at hstep <;> rename_i hpc
  · cases hstep
  · cases hstep
    exact h.modify_awake (by simp [hpc]) (h.awake ha (by simp [hpc])) ha
  · cases hstep
    exact h.prepareToWait hpc
  · cases hstep
    refine h.modify (by simp [hpc]) (fun h' ↦ nomatch ha.symm.trans h') (fun hb ↦ ⟨?_, h.linked t hb⟩)
      fun hrest hready ↦ ?_
    · split_ifs
      · exact .inr (.inr (.inl rfl))
      · exact .inr (.inl rfl)
    · -- Whoever goes to yield has just seen that it cannot go on.
      exfalso
      have hc : s.Cond t := .inl ((ready_modify rfl t).mp hready)
      rcases hrest.2 with h' | h'
      · cases ha.symm.trans h'
      · rw [if_pos hc] at h'
        cases h'
  · cases hstep
    refine h.modify (by simp [hpc]) id (fun hb ↦ ⟨.inr (.inr (.inr ⟨rfl, hb⟩)), h.linked t hb⟩)
      fun hrest hready ↦ ?_
    have hold := (ready_modify rfl t).mp hready
    obtain ⟨u, nr, hu⟩ := h.owed t ⟨hrest.1, .inr hpc⟩ hold
    have hut : u ≠ t := by
      rintro rfl
      cases hpc.symm.trans hu
    exact ⟨u, nr, by rw [thread_modify, if_neg hut, hu]⟩
  · cases hstep
    exact h.finishWait ha hpc
  · split at hstep <;> cases hstep
    · exact h.readLocked hpc ha _
    · exact h.writeLocked hpc ha _
  · cases hstep
    rw [hpc] at hK
    exact h.wakeUp hpc hK

theorem Inv.pipeCloseEnd (h : Inv s) (hpc : (s.thread t).pc = .out)
    (hstep : pipeCloseEnd s t q = some s') : Inv s' := by
  have ha : (s.thread t).away = false := by
    rw [← Bool.not_eq_true]
    intro ha
    have hw := h.waits t (h.away t ha)
    simp [Thread.Waits, hpc] at hw
  have hb : (s.thread t).blocked = false := h.awake ha (by simp [hpc])
  have hcount : ∀ r w, Inv { s with readers := r, writers := w } :=
    fun _ _ ↦ ⟨h.away, h.waits, h.linked, h.owed⟩
  have hgo : ∀ r w pc, Inv (goTo { s with readers := r, writers := w } t pc) :=
    fun r w pc ↦ (hcount r w).modify_awake (t := t) (by simp [hpc]) hb ha
  cases q with
  | rd | wr =>
    rw [Pipe.pipeCloseEnd] at hstep
    obtain ⟨-, hs⟩ := Option.ite_none_left_eq_some.mp hstep
    cases hs
    split_ifs
    · exact hgo _ _ _
    · exact hcount _ _

theorem Inv.step {e : Event T} (h : Inv s) (hK : Reaches s e)
    (hstep : step s e = some s') : Inv s' := by
  cases e with
  | call t c =>
    obtain ⟨⟨hpc, -, -⟩, rfl⟩ := Runs.of_guard hstep
    have hw : (s.thread t).blocked = false := by
      rw [← Bool.not_eq_true]
      intro hb
      have hw := h.waits t hb
      simp [Thread.Waits, hpc] at hw
    have ha : (s.thread t).away = false := by
      rw [← Bool.not_eq_true]
      intro ha
      cases hw.symm.trans (h.away t ha)
    exact h.modify_awake (by simp [hpc]) hw ha
  | close t q =>
    obtain ⟨hpc, hs⟩ := Option.ite_none_right_eq_some.mp hstep
    exact h.pipeCloseEnd hpc hs
  | advance t => exact h.advance hK hstep
  | interrupt t =>
    cases hstep
    by_cases hb : (s.thread t).blocked = true
    · refine h.modify ?_ id (fun _ ↦ ⟨?_, h.linked t hb⟩) fun hrest hready ↦ ?_
      · intro q nr hpc
        have hw := h.waits t hb
        simp [Thread.Waits, hpc] at hw
      · rcases h.waits t hb with h' | h' | h' | h'
        · exact .inl h'
        · exact .inr (.inl h')
        · exact .inr (.inr (.inl h'))
        · exact .inr (.inr (.inr ⟨h'.1, hb⟩))
      have hold := (ready_modify rfl t).mp hready
      have howed : Owed s (s.thread t).call.queue := by
        rcases h.waits t hb with h' | h' | h' | h'
        · exact absurd hold (hK (.inl h') hb)
        · exact h.owed t ⟨hb, .inr h'⟩ hold
        · exact absurd hold (hK (.inr h') hb)
        · exact h.owed t ⟨hb, .inl h'.2⟩ hold
      obtain ⟨u, nr, hu⟩ := howed
      refine ⟨u, nr, ?_⟩
      rw [thread_modify]
      split_ifs with hut
      · exact hut ▸ hu
      · exact hu
    · -- A thread that is not blocked goes on where it was.
      have hsame : s.modify t (fun d ↦ { d with away := d.blocked }) = s := by
        have ha : (s.thread t).away = (s.thread t).blocked := by
          rw [Bool.not_eq_true] at hb
          rw [hb, ← Bool.not_eq_true]
          exact fun ha ↦ nomatch hb.symm.trans (h.away t ha)
        have hf : { s.thread t with away := (s.thread t).blocked } = s.thread t :=
          congrArg (fun b ↦ { s.thread t with away := b }) ha.symm
        rw [Sys.modify, hf, update_eq_self]
      rw [hsame]
      exact h
  | setPrio t p =>
    cases hstep
    have hsame : ∀ u, ∃ x, (s.modify t fun d ↦ { d with prio := p }).thread u =
        { s.thread u with prio := x } := by
      intro u
      rw [thread_modify]
      split_ifs with hu
      · exact ⟨p, hu ▸ rfl⟩
      · exact ⟨_, rfl⟩
    refine ⟨fun u ↦ ?_, fun u ↦ ?_, fun u ↦ ?_, fun u ↦ ?_⟩ <;> obtain ⟨x, hx⟩ := hsame u
    · rw [hx]
      exact h.away u
    · rw [hx]
      exact h.waits u
    · rw [hx]
      exact h.linked u
    · rw [hx]
      intro hrest hready
      obtain ⟨v, nr, hv⟩ := h.owed u hrest ((ready_modify rfl u).mp hready)
      obtain ⟨y, hy⟩ := hsame v
      exact ⟨v, nr, by rw [hy, ← hv]⟩

/-- All woken threads have run: whoever is in a call sleeps. -/
def Settled (s : Sys T) : Prop := ∀ t, (s.thread t).pc = .out ∨ (s.thread t).away = true

instance [Fintype T] : DecidablePred (Settled (T := T)) :=
  fun _ ↦ inferInstanceAs (Decidable (∀ _, _ ∨ _))

/-- **No waiter is left behind.** When all woken threads have run, a blocked reader finds the pipe
empty and a blocked writer finds too little space, in every run whose wake-ups reach whom they
concern. -/
theorem settled_not_ready {prio : T → ℕ} {s : Sys T}
    (hrun : Runs.Run step Reaches (Sys.alloc prio) s) (hset : Settled s) :
    ∀ t, (s.thread t).blocked = true → ¬s.Ready t := by
  have hinv : Inv s := hrun.invariant (inv_alloc prio) fun _ _ _ h hK hs ↦ h.step hK hs
  intro t hb hready
  have ha : (s.thread t).away = true := by
    refine (hset t).resolve_left fun hpc ↦ ?_
    have hw := hinv.waits t hb
    simp [Thread.Waits, hpc] at hw
  obtain ⟨u, nr, hu⟩ := hinv.owed t ⟨hb, .inl ha⟩ hready
  rcases hset u with hpc | hau
  · cases hpc.symm.trans hu
  · have hw := hinv.waits u (hinv.away u hau)
    simp [Thread.Waits, hu] at hw

/-- The thread calls, and goes on for so many steps. -/
def episode (t : T) (c : Call) (n : ℕ) : List (Event T) :=
  .call t c :: List.replicate n (.advance t)

/-- A reader sleeps, is woken by a write and takes the byte, and sleeps in its next call. -/
theorem settled_not_ready_again :
    ∃ s : Sys (Fin 2), Runs.Run step Reaches (Sys.alloc fun _ ↦ 0) s ∧ Settled s ∧
      (s.thread 0).blocked = true ∧ s.ring.head = 1 ∧ ¬s.Ready 0 := by
  obtain ⟨s, hrun, hset, hb, hhead⟩ := Runs.exists_run (step (T := Fin 2)) Reaches
    (Sys.alloc fun _ ↦ 0)
    (episode 0 (.read 1) 4 ++ episode 1 (.write [7]) 4 ++ List.replicate 4 (.advance 0) ++
      episode 0 (.read 1) 4)
    (p := fun s ↦ Settled s ∧ (s.thread 0).blocked = true ∧ s.ring.head = 1) (by decide +kernel)
  exact ⟨s, hrun, hset, hb, hhead, settled_not_ready hrun hset 0 hb⟩

/-- **Waiters are left behind.** Two readers of one byte sleep and two bytes are written: the one
wake-up goes to the first of them, which takes one byte. A writer of a whole buffer and a writer of
one byte sleep and one byte is read: the wake-up goes to the first of them, for which it is not
enough. And a reader that is interrupted between setting itself blocked and its second look sleeps
through the write that came just before. -/
theorem not_settled_not_ready :
    (∃ s : Sys (Fin 3), Runs.Run step (fun _ _ ↦ True) (Sys.alloc fun _ ↦ 0) s ∧ Settled s ∧
      (s.thread 1).blocked = true ∧ (s.thread 1).call = .read 1 ∧ s.Ready 1) ∧
    (∃ s : Sys (Fin 3), Runs.Run step (fun _ _ ↦ True) (Sys.alloc fun _ ↦ 0) s ∧ Settled s ∧
      (s.thread 1).blocked = true ∧ (s.thread 1).call = .write [7] ∧ s.Ready 1) ∧
    ∃ s : Sys (Fin 3), Runs.Run step (fun _ _ ↦ True) (Sys.alloc fun _ ↦ 0) s ∧ Settled s ∧
      (s.thread 0).blocked = true ∧ (s.thread 0).call = .read 1 ∧ s.Ready 0 := by
  refine ⟨?_, ?_, ?_⟩
  · exact Runs.exists_run _ _ _
      (episode 0 (.read 1) 4 ++ episode 1 (.read 1) 4 ++ episode 2 (.write [7, 8]) 4 ++
        List.replicate 4 (.advance 0)) (by decide +kernel)
  · exact Runs.exists_run _ _ _
      (episode 2 (.write (List.replicate 4096 0)) 4 ++ episode 0 (.write (List.replicate 4096 0)) 4 ++
        episode 1 (.write [7]) 4 ++ episode 2 (.read 1) 4 ++ List.replicate 4 (.advance 0))
      (by decide +kernel)
  · exact Runs.exists_run _ _ _
      (episode 0 (.read 1) 1 ++ episode 1 (.write [7]) 4 ++ [.advance 0, .interrupt 0])
      (by decide +kernel)

end Mazu.Ipc.Pipe
