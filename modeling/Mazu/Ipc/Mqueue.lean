import Mazu.Sync.Threads

/-!
# Message queues

One slot of the queue pool, which is opened, destroyed and opened again, and the threads that send
to it and receive from it. A call looks the slot up without a lock; everything after that happens in
sections under the queue's lock, each of which is one step. A caller that has to wait puts a record
on one of the two wait queues and yields.

Every `mqueue_open` gives the slot a new generation. The callers that wait with a timeout compare it
before they touch the queue; `mqueue_send` and `mqueue_receive` do so only inside their wait loop,
which `mqueue_destroy_locked` lets them fall out of. What remains true is that a call keeps to the
**incarnation** it started on as long as the slot does not change hands between the look-up and the
lock, and a caller without a timeout that comes back to another incarnation finds it full, or empty.
-/

namespace Mazu.Ipc.Mqueue

open List Runs

set_option linter.unusedSectionVars false

open Sync (Sys Env Thread envStep)

def mqMaxMsgs : ℕ := 16

def mqMaxMsgSize : ℕ := 256

structure Msg where
  data : List UInt8
  priority : ℕ
  deriving DecidableEq

/-- The two wait queues. -/
inductive Dir
  | send
  | recv
  deriving DecidableEq

inductive Op
  | send (m : Msg)
  /-- Into a buffer of so many bytes. -/
  | recv (bufSize : ℤ)
  deriving DecidableEq

def Op.dir : Op → Dir
  | .send _ => .send
  | .recv _ => .recv

/-- `mqueue_send` and `mqueue_receive`, their `timed` and their `try` variants. -/
inductive Mode
  | plain
  | timed
  | nonblock
  deriving DecidableEq

inductive Phase
  | out
  /-- The queue was looked up, its lock not yet taken. -/
  | enter
  /-- At `sched_yield_trap`. -/
  | wait
  deriving DecidableEq

inductive Res
  | sent
  | message (m : Msg)
  | ebadf
  | emsgsize
  | eagain
  /-- The error of `wait_abort_error_current`. -/
  | eintr
  | etimedout
  | enomem
  deriving DecidableEq

/-- The stack frame of a call. -/
structure Frame where
  phase : Phase
  op : Op
  mode : Mode
  /-- The local `generation`. -/
  gen : ℕ
  woken : Bool
  timedOut : Bool
  /-- The callout is set. -/
  armed : Bool
  result : Option Res
  /-- Ghost: the incarnation that was looked up. -/
  started : ℕ
  /-- Ghost: on a wait queue when the queue was destroyed. -/
  doomed : Bool
  deriving DecidableEq

/-- Ghost: what the calls did. -/
inductive Entry
  /-- A call that started on the one incarnation went by what it found in the other. -/
  | touch (started now : ℕ)
  | ret (doomed : Bool) (r : Res)
  deriving DecidableEq

structure Mq (T : Type) where
  msgs : List Msg
  msgCount : ℕ
  /-- How many buffers of `msg_pool` are in use. -/
  slots : ℕ
  maxMsgs : ℕ
  maxMsgSize : ℕ
  inUse : Bool
  generation : ℕ
  waitq : Dir → List T
  frame : T → Frame
  /-- Ghost: how often the slot was opened. -/
  incarnation : ℕ
  /-- Ghost: taken off the wait queue by `wake_one`, and not yet back. -/
  pend : Dir → List T
  log : List Entry

def Frame.start : Frame := ⟨.out, .recv 0, .plain, 0, false, false, false, none, 0, false⟩

/-- After `mqueue_boot_init`. -/
def Mq.boot {T : Type} : Mq T where
  msgs := []
  msgCount := 0
  slots := 0
  maxMsgs := 0
  maxMsgSize := 0
  inUse := false
  generation := 0
  waitq _ := []
  frame _ := .start
  incarnation := 0
  pend _ := []
  log := []

/-- `msg_insert_priority`. -/
def msgInsertPriority (m : Msg) : List Msg → List Msg
  | [] => [m]
  | cur :: rest =>
    if cur.priority < m.priority then m :: cur :: rest else cur :: msgInsertPriority m rest

section Model

variable {T : Type} (o : Mq T)

/-- The condition of the wait loop. -/
def Mq.Stuck : Op → Prop
  | .send _ => o.maxMsgs ≤ o.msgCount
  | .recv _ => o.msgs = []

instance (op : Op) : Decidable (o.Stuck op) :=
  match op with
  | .send _ => inferInstanceAs (Decidable (_ ≤ _))
  | .recv _ => inferInstanceAs (Decidable (_ = _))

/-- `!mq->in_use || mq->generation != generation`. -/
def Mq.Bad (f : Frame) : Prop := o.inUse = false ∨ o.generation ≠ f.gen

instance (f : Frame) : Decidable (o.Bad f) := inferInstanceAs (Decidable (_ ∨ _))

/-- The first check of the length. -/
def Mq.TooBig : Op → Prop
  | .send m => o.maxMsgSize < m.data.length
  | .recv n => n < 0

instance (op : Op) : Decidable (o.TooBig op) :=
  match op with
  | .send _ => inferInstanceAs (Decidable (_ < _))
  | .recv _ => inferInstanceAs (Decidable (_ < _))

/-- `mqueue_open` takes the slot. The message buffers are as they were left. -/
def Mq.mqueueOpen (maxMsgs maxMsgSize : ℕ) : Mq T :=
  { o with
    msgs := []
    msgCount := 0
    waitq := fun _ ↦ []
    inUse := true
    generation := if o.generation + 1 = 2 ^ 32 then 1 else o.generation + 1
    maxMsgs := maxMsgs
    maxMsgSize := maxMsgSize
    incarnation := o.incarnation + 1 }

variable [DecidableEq T]

def Mq.setFrame (t : T) (f : Frame → Frame) : Mq T :=
  { o with frame := Function.update o.frame t (f (o.frame t)) }

def Mq.Linked (t : T) : Prop := t ∈ o.waitq .recv ∨ t ∈ o.waitq .send

instance (t : T) : Decidable (o.Linked t) := inferInstanceAs (Decidable (_ ∨ _))

def Mq.unlink (t : T) : Mq T := { o with waitq := fun d ↦ (o.waitq d).erase t }

/-- The record leaves its queue; the wake-up, if there was one, has arrived. -/
def Mq.leave (t : T) : Mq T := { o.unlink t with pend := fun d ↦ (o.pend d).erase t }

def Mq.enqueue (m : Msg) : Mq T :=
  { o with msgs := msgInsertPriority m o.msgs, msgCount := o.msgCount + 1, slots := o.slots + 1 }

def Mq.dequeue : Mq T :=
  { o with msgs := o.msgs.tail, msgCount := o.msgCount - 1, slots := o.slots - 1 }

/-- The head of the queue `d`, which is not empty, is woken. -/
def Mq.wakeHead (d : Dir) (w : T) : Mq T :=
  { o.setFrame w (fun f ↦ { f with woken := true }) with
    waitq := Function.update o.waitq d (o.waitq d).tail
    pend := Function.update o.pend d (o.pend d ++ [w]) }

def Mq.return' (t : T) (r : Res) : Mq T :=
  { o.setFrame t (fun f ↦ { f with phase := .out, armed := false, result := some r }) with
    log := .ret (o.frame t).doomed r :: o.log }

def Mq.touch (t : T) : Mq T :=
  { o with log := .touch (o.frame t).started o.incarnation :: o.log }

/-- The record goes to the tail of its queue. -/
def Mq.link (t : T) : Mq T :=
  { o.setFrame t (fun f ↦ { f with phase := .wait, woken := false }) with
    waitq := Function.update o.waitq (o.frame t).op.dir
      (o.waitq (o.frame t).op.dir ++ [t]) }

variable (s : Sys (Mq T) T) (t : T)

def on (f : Mq T → Mq T) : Sys (Mq T) T := { s with obj := f s.obj }

/-- `wake_one`. -/
def wakeOne (d : Dir) : Sys (Mq T) T :=
  match (s.obj.waitq d).head? with
  | none => s
  | some w => (on s fun o ↦ o.wakeHead d w).modify w Thread.wakeReady

/-- What follows the wait loop; the copy to the caller's buffer is part of the result. -/
def transfer : Sys (Mq T) T :=
  match (s.obj.frame t).op with
  | .send m =>
    if s.obj.slots = mqMaxMsgs then on s fun o ↦ o.return' t .enomem
    else on (wakeOne (on s fun o ↦ o.enqueue m) .recv) fun o ↦ o.return' t .sent
  | .recv n =>
    match s.obj.msgs.head? with
    | none => on s fun o ↦ o.return' t .etimedout
    | some m =>
      if n < m.data.length then on s fun o ↦ o.return' t .emsgsize
      else on (wakeOne (on s Mq.dequeue) .send) fun o ↦ o.return' t (.message m)

/-- The caller goes to sleep, and finds that it need not. -/
def nap : Sys (Mq T) T := s.modify t fun d ↦ (d.block .blocked).unblock .blocked

/-- From the head of the wait loop to the next yield or to the end of the call. -/
def attempt : Sys (Mq T) T :=
  let f := s.obj.frame t
  if s.obj.Stuck f.op then
    if f.mode = .nonblock then on s fun o ↦ (o.touch t).return' t .eagain
    else if s.obj.Bad f then on s fun o ↦ o.return' t .ebadf
    else if f.timedOut then on (nap s t) fun o ↦ (o.touch t).return' t .etimedout
    else if (s.thread t).abort then
      -- Without a timeout the check comes before the record is put on the queue.
      on (if f.mode = .timed then nap s t else s) fun o ↦ (o.touch t).return' t .eintr
    else (on s fun o ↦ (o.touch t).link t).modify t fun d ↦ d.block .blocked
  -- The check behind the loop is there only in the calls with a timeout.
  else if f.mode = .timed ∧ s.obj.Bad f then on s fun o ↦ o.return' t .ebadf
  else transfer (on s fun o ↦ o.touch t) t

/-- The call up to the queue's lock. -/
def lookUp (op : Op) (mode : Mode) : Sys (Mq T) T :=
  let s' := on s fun o ↦ o.setFrame t fun _ ↦
    { Frame.start with phase := .enter, op := op, mode := mode, started := o.incarnation }
  if s.obj.inUse = false then on s' fun o ↦ o.return' t .ebadf
  else if s.obj.TooBig op then on s' fun o ↦ o.return' t .emsgsize
  else s'

/-- The first section under the lock. -/
def enter : Sys (Mq T) T :=
  attempt (on s fun o ↦ o.setFrame t fun f ↦
    { f with gen := o.generation, armed := decide (f.mode = .timed), doomed := false }) t

/-- The caller is back from `sched_yield_trap`. A wait with a timeout yields again unless the
caller was woken, timed out or has to give up; a wake-up comes before the others. -/
def resume : Sys (Mq T) T :=
  let f := s.obj.frame t
  if f.mode = .timed ∧ f.woken = false ∧ f.timedOut = false ∧ (s.thread t).abort = false then s
  else
    let s' := (on s fun o ↦ o.leave t).modify t fun d ↦ d.unblock .blocked
    if f.mode = .timed ∧ f.woken = false then
      on s' fun o ↦ o.return' t (if f.timedOut then .etimedout else .eintr)
    else attempt s' t

/-- `mq_timeout_fn` and `mq_send_timeout_fn`. -/
def mqTimeoutFn : Sys (Mq T) T :=
  let s' := on s fun o ↦ o.setFrame t fun f ↦ { f with armed := false }
  if s.obj.Linked t ∧ (s.obj.frame t).woken = false ∧ (s.thread t).state ≠ .terminating then
    (on s' fun o ↦ (o.unlink t).setFrame t fun f ↦ { f with timedOut := true }).modify t
      Thread.wakeReady
  else s'

/-- `mq_wait_cleanup`. -/
def mqWaitCleanup : Sys (Mq T) T :=
  on s fun o ↦ (o.unlink t).setFrame t fun f ↦ { f with armed := false }

/-- `mqueue_destroy_locked`. -/
def mqueueDestroyLocked : Sys (Mq T) T :=
  { s with
    thread := fun u ↦ if s.obj.Linked u then (s.thread u).wakeReady else s.thread u
    obj := { s.obj with
      inUse := false
      msgs := []
      msgCount := 0
      slots := 0
      waitq := fun _ ↦ []
      pend := fun _ ↦ []
      frame := fun u ↦
        if s.obj.Linked u then { s.obj.frame u with woken := true, doomed := true }
        else s.obj.frame u } }

inductive Event (T : Type)
  | call (t : T) (op : Op) (mode : Mode)
  | enter (t : T)
  | resume (t : T)
  | timeout (t : T)
  | mqOpen (maxMsgs maxMsgSize : ℕ)
  /-- `mqueue_close`, or `mqueue_put_idx` for the last reference. -/
  | mqClose
  | env (e : Env T)

def step : Event T → Option (Sys (Mq T) T)
  | .call t op mode =>
    if (s.thread t).Runs ∧ (s.obj.frame t).phase = .out then some (lookUp s t op mode) else none
  | .enter t =>
    if (s.thread t).Runs ∧ (s.obj.frame t).phase = .enter then some (enter s t) else none
  | .resume t =>
    if (s.thread t).Runs ∧ (s.obj.frame t).phase = .wait then some (resume s t) else none
  | .timeout t =>
    if (s.obj.frame t).phase = .wait ∧ (s.obj.frame t).armed then some (mqTimeoutFn s t) else none
  | .mqOpen maxMsgs maxMsgSize =>
    if s.obj.inUse = false ∧ 0 < maxMsgs ∧ maxMsgs ≤ mqMaxMsgs ∧ 0 < maxMsgSize ∧
        maxMsgSize ≤ mqMaxMsgSize then
      some (on s fun o ↦ o.mqueueOpen maxMsgs maxMsgSize)
    else none
  | .mqClose => if s.obj.inUse then some (mqueueDestroyLocked s) else none
  | .env e => envStep mqWaitCleanup s e

end Model

/-! ## Incarnations -/

section Incarnations

variable {T : Type} [DecidableEq T]

/-- **The slot does not change hands unseen**: not between the look-up and the lock, not so often
that the generation wraps, and a caller without a timeout that comes back and can go on finds the
queue that it started on. -/
def Unbroken (s : Sys (Mq T) T) : Event T → Prop
  | .enter t => (s.obj.frame t).started = s.obj.incarnation
  | .resume t =>
    (s.obj.frame t).mode ≠ .timed → ¬s.obj.Stuck (s.obj.frame t).op →
      s.obj.inUse = true ∧ (s.obj.frame t).started = s.obj.incarnation
  | .mqOpen _ _ => s.obj.incarnation + 1 < 2 ^ 32
  | _ => True

instance (s : Sys (Mq T) T) (e : Event T) : Decidable (Unbroken s e) :=
  match e with
  | .enter _ => inferInstanceAs (Decidable (_ = _))
  | .resume _ => inferInstanceAs (Decidable (_ → _ → _))
  | .mqOpen _ _ => inferInstanceAs (Decidable (_ < _))
  | .call _ _ _ | .timeout _ | .mqClose | .env _ => .isTrue trivial

/-- What the log may hold. -/
def Entry.Ok : Entry → Prop
  | .touch a b => a = b
  | .ret doomed r => doomed = true → r = .ebadf

/-- A call and the incarnation that it belongs to. -/
structure Fit (o : Mq T) (t : T) : Prop where
  started : (o.frame t).phase ≠ .out → (o.frame t).started ≤ o.incarnation
  wait : (o.frame t).phase = .wait →
    (o.frame t).mode ≠ .nonblock ∧ (o.frame t).gen = (o.frame t).started
  linked : ∀ d, t ∈ o.waitq d → (o.frame t).phase = .wait ∧ o.inUse = true ∧
    (o.frame t).started = o.incarnation ∧ (o.frame t).doomed = false
  doomed : (o.frame t).phase = .wait → (o.frame t).doomed = true →
    (o.frame t).woken = true ∧ (o.inUse = true → (o.frame t).started < o.incarnation)

structure Inv (o : Mq T) : Prop where
  generation : o.generation = o.incarnation
  nodup : ∀ d, (o.waitq d).Nodup
  fit : ∀ t, Fit o t
  log : ∀ e ∈ o.log, e.Ok

variable {o o' : Mq T} {t u : T}

/-- A record is taken off a queue or woken, a timeout is noted. -/
def Frame.Nudged (f f' : Frame) : Prop :=
  ∃ woken armed timedOut, (f.woken = true → woken = true) ∧
    f' = { f with woken := woken, armed := armed, timedOut := timedOut }

theorem Fit.nudged (h : Fit o u) (hinc : o'.incarnation = o.incarnation)
    (huse : o'.inUse = o.inUse) (hw : ∀ d, u ∈ o'.waitq d → u ∈ o.waitq d)
    (hf : (o.frame u).Nudged (o'.frame u)) : Fit o' u := by
  obtain ⟨w, a, b, hwoken, hf⟩ := hf
  constructor
  · rw [hf, hinc]
    exact h.started
  · rw [hf]
    exact h.wait
  · rw [hf, hinc, huse]
    exact fun d hd ↦ h.linked d (hw d hd)
  · rw [hf, hinc, huse]
    exact fun hp hd ↦ ⟨hwoken (h.doomed hp hd).1, (h.doomed hp hd).2⟩

theorem Frame.Nudged.refl (f : Frame) : f.Nudged f := ⟨_, _, _, id, rfl⟩

theorem frame_setFrame (o : Mq T) (t u : T) (f : Frame → Frame) :
    (o.setFrame t f).frame u = if u = t then f (o.frame t) else o.frame u :=
  Function.update_apply ..

variable {f : Frame → Frame} {s : Sys (Mq T) T}

theorem nudged_setFrame (hf : (o.frame t).Nudged (f (o.frame t))) (u : T) :
    (o.frame u).Nudged ((o.setFrame t f).frame u) := by
  rw [frame_setFrame]
  split_ifs with hu
  · exact hu ▸ hf
  · exact .refl _

/-- What leaves every call on its incarnation. -/
structure Calm (o o' : Mq T) : Prop where
  generation : o'.generation = o.generation
  incarnation : o'.incarnation = o.incarnation
  inUse : o'.inUse = o.inUse
  waitq : ∀ d, (o'.waitq d).Sublist (o.waitq d)
  frame : ∀ u, (o.frame u).Nudged (o'.frame u)

theorem Inv.calm (h : Inv o) (hc : Calm o o') (hlog : ∀ e ∈ o'.log, e.Ok) : Inv o' := by
  refine ⟨?_, fun d ↦ (h.nodup d).sublist (hc.waitq d), fun u ↦ ?_, hlog⟩
  · rw [hc.generation, hc.incarnation, h.generation]
  · exact (h.fit u).nudged hc.incarnation hc.inUse (fun d hd ↦ (hc.waitq d).subset hd) (hc.frame u)

theorem Inv.unlink (h : Inv o) (t : T)
    (hf : (o.frame t).Nudged (f (o.frame t))) : Inv ((o.unlink t).setFrame t f) :=
  h.calm ⟨rfl, rfl, rfl, fun _ ↦ erase_sublist, nudged_setFrame hf⟩ h.log

theorem Inv.leave (h : Inv o) (t : T) : Inv (o.leave t) :=
  h.calm ⟨rfl, rfl, rfl, fun _ ↦ erase_sublist, fun _ ↦ .refl _⟩ h.log

theorem Inv.wakeHead (h : Inv o) (d : Dir) (w : T) : Inv (o.wakeHead d w) := by
  have hframe : ∀ u, (o.frame u).Nudged ((o.setFrame w fun f ↦ { f with woken := true }).frame u) :=
    nudged_setFrame ⟨_, _, _, fun _ ↦ rfl, rfl⟩
  refine h.calm ⟨rfl, rfl, rfl, fun d' ↦ ?_, hframe⟩ h.log
  show (Function.update o.waitq d (o.waitq d).tail d').Sublist _
  rw [Function.update_apply]
  split_ifs with hd
  · exact hd ▸ tail_sublist _
  · exact .refl _

theorem Inv.touch (h : Inv o) (ht : (o.frame t).started = o.incarnation) : Inv (o.touch t) :=
  h.calm ⟨rfl, rfl, rfl, fun _ ↦ .refl _, fun _ ↦ .refl _⟩ (forall_mem_cons.mpr ⟨ht, h.log⟩)

theorem Inv.return' (h : Inv o) {r : Res} (hun : ∀ d, t ∉ o.waitq d)
    (hr : (o.frame t).doomed = true → r = .ebadf) : Inv (o.return' t r) := by
  refine ⟨h.generation, h.nodup, fun u ↦ ?_, forall_mem_cons.mpr ⟨hr, h.log⟩⟩
  have hframe := frame_setFrame o t u fun f ↦
    { f with phase := .out, armed := false, result := some r }
  by_cases hu : u = t
  · subst hu
    rw [if_pos rfl] at hframe
    have hout : ((o.return' u r).frame u).phase = .out := congrArg Frame.phase hframe
    refine ⟨absurd hout, fun hp ↦ ?_, fun d hd ↦ absurd hd (hun d), fun hp ↦ ?_⟩ <;>
      cases hout.symm.trans hp
  · rw [if_neg hu] at hframe
    exact (h.fit u).nudged rfl rfl (fun _ ↦ id) (hframe ▸ .refl _)

/-- The caller goes to sleep on a queue that it has found to be its own. -/
theorem Inv.link (h : Inv o) (hun : ∀ d, t ∉ o.waitq d) (hmode : (o.frame t).mode ≠ .nonblock)
    (hgen : (o.frame t).gen = (o.frame t).started) (huse : o.inUse = true)
    (hstart : (o.frame t).started = o.incarnation) (hdoom : (o.frame t).doomed = false) :
    Inv (o.link t) := by
  have hmem : ∀ d u, u ∈ (o.link t).waitq d → u = t ∨ u ∈ o.waitq d := by
    intro d u hu
    change u ∈ Function.update o.waitq _ _ d at hu
    rw [Function.update_apply] at hu
    split_ifs at hu with hd
    · rw [hd]
      exact (mem_append.mp hu).symm.imp_left mem_singleton.mp
    · exact .inr hu
  refine ⟨h.generation, fun d ↦ ?_, fun u ↦ ?_, h.log⟩
  · show (Function.update o.waitq _ _ d).Nodup
    rw [Function.update_apply]
    split_ifs
    · exact nodup_append'.mpr ⟨h.nodup _, nodup_singleton t, disjoint_singleton.mpr (hun _)⟩
    · exact h.nodup d
  have hframe := frame_setFrame o t u fun f ↦ { f with phase := .wait, woken := false }
  by_cases hu : u = t
  · subst hu
    rw [if_pos rfl] at hframe
    have hf : (o.link u).frame u = { o.frame u with phase := .wait, woken := false } := hframe
    refine ⟨?_, ?_, ?_, ?_⟩
    · rw [hf]
      exact fun _ ↦ hstart.le
    · rw [hf]
      exact fun _ ↦ ⟨hmode, hgen⟩
    · rw [hf]
      exact fun _ _ ↦ ⟨rfl, huse, hstart, hdoom⟩
    · rw [hf]
      exact fun _ hd ↦ nomatch hdoom.symm.trans hd
  · rw [if_neg hu] at hframe
    exact (h.fit u).nudged rfl rfl (fun d hd ↦ (hmem d u hd).resolve_left hu) (hframe ▸ .refl _)

/-! ### One section -/

theorem Inv.wakeOne (h : Inv s.obj) (d : Dir) : Inv (wakeOne s d).obj := by
  rw [Mqueue.wakeOne]
  split
  · exact h
  · exact h.wakeHead d _

theorem waitq_wakeOne {d d' : Dir} (hu : u ∈ (wakeOne s d).obj.waitq d') : u ∈ s.obj.waitq d' := by
  rw [Mqueue.wakeOne] at hu
  split at hu
  · exact hu
  · change u ∈ Function.update s.obj.waitq d (s.obj.waitq d).tail d' at hu
    rw [Function.update_apply] at hu
    split_ifs at hu with hd
    · exact hd ▸ mem_of_mem_tail hu
    · exact hu

/-- Whether a call was caught by a destruction is not changed by a wake-up. -/
theorem doomed_wakeOne (s : Sys (Mq T) T) (d : Dir) (u : T) :
    ((wakeOne s d).obj.frame u).doomed = (s.obj.frame u).doomed := by
  rw [Mqueue.wakeOne]
  split
  · rfl
  · rename_i w _
    show ((s.obj.setFrame w fun f ↦ { f with woken := true }).frame u).doomed = _
    rw [frame_setFrame]
    split_ifs with hu
    · rw [hu]
    · rfl

theorem Inv.transfer (h : Inv s.obj) (hun : ∀ d, t ∉ s.obj.waitq d)
    (hdoom : (s.obj.frame t).doomed = false) : Inv (transfer s t).obj := by
  have hret : ∀ r, Inv (s.obj.return' t r) :=
    fun r ↦ h.return' hun fun hd ↦ nomatch hdoom.symm.trans hd
  -- The contents of the queue do not matter to the invariant.
  have hmove : ∀ (g : Mq T → Mq T) d r, Inv (g s.obj) → (g s.obj).waitq = s.obj.waitq →
      (g s.obj).frame = s.obj.frame → Inv ((Mqueue.wakeOne (on s g) d).obj.return' t r) := by
    intro g d r hg hw hf
    refine (Inv.wakeOne (s := on s g) hg d).return' (fun d' hd ↦ hun d' ?_) fun hd ↦ ?_
    · exact hw ▸ waitq_wakeOne hd
    · rw [doomed_wakeOne] at hd
      have hd' : ((g s.obj).frame t).doomed = true := hd
      rw [hf, hdoom] at hd'
      cases hd'
  rw [Mqueue.transfer]
  split
  · split_ifs
    · exact hret _
    · refine hmove (fun o ↦ o.enqueue _) .recv _ ?_ rfl rfl
      exact h.calm ⟨rfl, rfl, rfl, fun _ ↦ .refl _, fun _ ↦ .refl _⟩ h.log
  · split
    · exact hret _
    · split_ifs
      · exact hret _
      · refine hmove Mq.dequeue .send _ ?_ rfl rfl
        exact h.calm ⟨rfl, rfl, rfl, fun _ ↦ .refl _, fun _ ↦ .refl _⟩ h.log

/-- Where a call stands when it looks at the loop's condition. -/
structure AtLoop (o : Mq T) (t : T) : Prop where
  unlinked : ∀ d, t ∉ o.waitq d
  gen : (o.frame t).gen = (o.frame t).started
  doomed : (o.frame t).doomed = true → o.inUse = true → (o.frame t).started < o.incarnation
  nonblock : (o.frame t).mode = .nonblock →
    (o.frame t).doomed = false ∧ (o.frame t).started = o.incarnation
  free : (o.frame t).mode ≠ .timed → ¬o.Stuck (o.frame t).op →
    (o.frame t).doomed = false ∧ (o.frame t).started = o.incarnation

/-- The check of the generation tells whether the queue is the caller's own. -/
theorem AtLoop.own (ha : AtLoop o t) (h : Inv o) (hbad : ¬o.Bad (o.frame t)) :
    o.inUse = true ∧ (o.frame t).doomed = false ∧ (o.frame t).started = o.incarnation := by
  rw [Mq.Bad, not_or, Bool.not_eq_false, not_not] at hbad
  have hstart : (o.frame t).started = o.incarnation := by
    rw [← ha.gen, ← hbad.2, h.generation]
  refine ⟨hbad.1, ?_, hstart⟩
  rw [← Bool.not_eq_true]
  exact fun hd ↦ absurd hstart (ha.doomed hd hbad.1).ne

theorem Inv.attempt (h : Inv s.obj) (ha : AtLoop s.obj t) : Inv (attempt s t).obj := by
  have hgive : ∀ r, (s.obj.frame t).doomed = false →
      (s.obj.frame t).started = s.obj.incarnation → Inv ((s.obj.touch t).return' t r) :=
    fun r hd hs ↦ (h.touch hs).return' ha.unlinked fun hd' ↦ nomatch hd.symm.trans hd'
  have hbadf : Inv (s.obj.return' t .ebadf) := h.return' ha.unlinked fun _ ↦ rfl
  rw [Mqueue.attempt]
  split_ifs with hstuck hnb hbad hto habort htimed hbad'
  · exact hgive _ (ha.nonblock hnb).1 (ha.nonblock hnb).2
  · exact hbadf
  · exact hgive _ (ha.own h hbad).2.1 (ha.own h hbad).2.2
  · exact hgive _ (ha.own h hbad).2.1 (ha.own h hbad).2.2
  · exact hgive _ (ha.own h hbad).2.1 (ha.own h hbad).2.2
  · obtain ⟨huse, hd, hs⟩ := ha.own h hbad
    exact (h.touch hs).link ha.unlinked hnb ha.gen huse hs hd
  · exact hbadf
  · have hown : (s.obj.frame t).doomed = false ∧ (s.obj.frame t).started = s.obj.incarnation := by
      by_cases htimed : (s.obj.frame t).mode = .timed
      · exact (ha.own h fun hb ↦ hbad' ⟨htimed, hb⟩).2
      · exact ha.free htimed hstuck
    exact Inv.transfer (s := on s fun o ↦ o.touch t) (h.touch hown.2) ha.unlinked hown.1

theorem unlinked_erase (h : Inv o) (d : Dir) : t ∉ (o.waitq d).erase t :=
  fun ht ↦ ((h.nodup d).mem_erase_iff.mp ht).1 rfl

theorem Inv.unlinked (h : Inv o) (hp : (o.frame t).phase ≠ .wait) (d : Dir) : t ∉ o.waitq d :=
  fun hd ↦ hp ((h.fit t).linked d hd).1

/-- A call before its first section. -/
theorem Inv.setFrame (h : Inv o) (hp : (o.frame t).phase ≠ .wait)
    (hp' : (f (o.frame t)).phase = .enter) (hs : (f (o.frame t)).started = o.incarnation) :
    Inv (o.setFrame t f) := by
  refine ⟨h.generation, h.nodup, fun u ↦ ?_, h.log⟩
  have hframe := frame_setFrame o t u f
  by_cases hu : u = t
  · subst hu
    rw [if_pos rfl] at hframe
    refine ⟨?_, ?_, fun d hd ↦ absurd hd (h.unlinked hp d), ?_⟩
    · rw [hframe]
      exact fun _ ↦ hs.le
    · rw [hframe]
      exact fun hw ↦ nomatch hp'.symm.trans hw
    · rw [hframe]
      exact fun hw ↦ nomatch hp'.symm.trans hw
  · rw [if_neg hu] at hframe
    exact (h.fit u).nudged rfl rfl (fun _ ↦ id) (hframe ▸ .refl _)

theorem Inv.enter (h : Inv s.obj) (hp : (s.obj.frame t).phase = .enter)
    (hK : Unbroken s (.enter t)) : Inv (enter s t).obj := by
  have hK' : (s.obj.frame t).started = s.obj.incarnation := hK
  have hp' : (s.obj.frame t).phase ≠ .wait := by
    rw [hp]
    exact nofun
  have hself := frame_setFrame s.obj t t fun f ↦
    { f with gen := s.obj.generation, armed := decide (f.mode = .timed), doomed := false }
  rw [if_pos rfl] at hself
  have hown := And.intro (congrArg Frame.doomed hself) ((congrArg Frame.started hself).trans hK')
  have hset := h.setFrame (t := t) (f := fun f ↦
    { f with gen := s.obj.generation, armed := decide (f.mode = .timed), doomed := false })
    hp' hp hK'
  refine Inv.attempt hset ⟨h.unlinked hp', ?_, ?_, fun _ ↦ hown, fun _ _ ↦ hown⟩
  · exact (congrArg Frame.gen hself).trans (h.generation.trans hown.2.symm)
  · exact fun hd ↦ nomatch hown.1.symm.trans hd

theorem Inv.atLoop_leave (h : Inv s.obj) (hp : (s.obj.frame t).phase = .wait)
    (hK : Unbroken s (.resume t)) : AtLoop (s.obj.leave t) t := by
  have hfit := h.fit t
  refine ⟨unlinked_erase h, (hfit.wait hp).2, fun hd ↦ (hfit.doomed hp hd).2, fun hm ↦ ?_,
    fun hm hs ↦ ?_⟩
  · exact absurd hm (hfit.wait hp).1
  · obtain ⟨huse, hstart⟩ := hK hm hs
    refine ⟨?_, hstart⟩
    rw [← Bool.not_eq_true]
    exact fun hd ↦ absurd hstart ((hfit.doomed hp hd).2 huse).ne

theorem Inv.resume (h : Inv s.obj) (hp : (s.obj.frame t).phase = .wait)
    (hK : Unbroken s (.resume t)) : Inv (resume s t).obj := by
  rw [Mqueue.resume]
  split_ifs with hagain hunwoken hto
  · exact h
  · refine (h.leave t).return' (unlinked_erase h) fun hd ↦ ?_
    cases hunwoken.2.symm.trans ((h.fit t).doomed hp hd).1
  · refine (h.leave t).return' (unlinked_erase h) fun hd ↦ ?_
    cases hunwoken.2.symm.trans ((h.fit t).doomed hp hd).1
  · exact Inv.attempt (s := (on s fun o ↦ o.leave t).modify t fun d ↦ d.unblock .blocked)
      (h.leave t) (h.atLoop_leave hp hK)

theorem Inv.lookUp (h : Inv s.obj) (hp : (s.obj.frame t).phase = .out) (op : Op)
    (mode : Mode) : Inv (lookUp s t op mode).obj := by
  have hp' : (s.obj.frame t).phase ≠ .wait := by
    rw [hp]
    exact nofun
  have hnew := h.setFrame (t := t) (f := fun _ ↦ { Frame.start with
    phase := .enter, op := op, mode := mode, started := s.obj.incarnation }) hp' rfl rfl
  have hself := frame_setFrame s.obj t t fun _ ↦ { Frame.start with
    phase := .enter, op := op, mode := mode, started := s.obj.incarnation }
  rw [if_pos rfl] at hself
  have hret := fun r ↦ hnew.return' (r := r) (t := t) (h.unlinked hp') fun hd ↦
    nomatch (congrArg Frame.doomed hself).symm.trans hd
  rw [Mqueue.lookUp]
  split_ifs
  · exact hret _
  · exact hret _
  · exact hnew

theorem Inv.mqTimeoutFn (h : Inv s.obj) (t : T) : Inv (mqTimeoutFn s t).obj := by
  have hset : Inv (s.obj.setFrame t fun f ↦ { f with armed := false }) :=
    h.calm ⟨rfl, rfl, rfl, fun _ ↦ .refl _, nudged_setFrame ⟨_, _, _, id, rfl⟩⟩ h.log
  rw [Mqueue.mqTimeoutFn]
  split_ifs
  · exact hset.unlink t (f := fun f ↦ { f with timedOut := true }) ⟨_, _, _, id, rfl⟩
  · exact hset

theorem Inv.mqueueOpen (h : Inv o) (hroom : o.incarnation + 1 < 2 ^ 32)
    (n k : ℕ) : Inv (o.mqueueOpen n k) := by
  refine ⟨?_, fun _ ↦ nodup_nil, fun u ↦ ⟨?_, (h.fit u).wait, nofun, ?_⟩, h.log⟩
  · show (if o.generation + 1 = 2 ^ 32 then 1 else o.generation + 1) = o.incarnation + 1
    rw [h.generation, if_neg hroom.ne]
  · exact fun hp ↦ ((h.fit u).started hp).trans (Nat.le_succ _)
  · intro hp hd
    refine ⟨((h.fit u).doomed hp hd).1, fun _ ↦ ?_⟩
    have hphase : (o.frame u).phase ≠ .out := by
      intro hp'
      cases hp'.symm.trans hp
    exact Nat.lt_succ_of_le ((h.fit u).started hphase)

theorem linked_iff : o.Linked t ↔ ∃ d, t ∈ o.waitq d := by
  constructor
  · rintro (h | h) <;> exact ⟨_, h⟩
  · rintro ⟨d, h⟩
    cases d with
    | send => exact .inr h
    | recv => exact .inl h

theorem Inv.mqueueDestroyLocked (h : Inv s.obj) : Inv (mqueueDestroyLocked s).obj := by
  refine ⟨h.generation, fun _ ↦ nodup_nil, fun u ↦ ?_, h.log⟩
  have hfit := h.fit u
  have hframe : (Mqueue.mqueueDestroyLocked s).obj.frame u =
      if s.obj.Linked u then { s.obj.frame u with woken := true, doomed := true }
      else s.obj.frame u := rfl
  split_ifs at hframe with hl
  · refine ⟨?_, ?_, nofun, fun _ _ ↦ ⟨?_, nofun⟩⟩
    · rw [hframe]
      exact hfit.started
    · rw [hframe]
      exact hfit.wait
    · rw [hframe]
  · refine ⟨?_, ?_, nofun, fun hp hd ↦ ⟨?_, nofun⟩⟩
    · rw [hframe]
      exact hfit.started
    · rw [hframe]
      exact hfit.wait
    · rw [hframe] at hp hd ⊢
      exact (hfit.doomed hp hd).1

theorem Inv.envStep {s' : Sys (Mq T) T} (h : Inv s.obj) {e : Env T}
    (hstep : envStep mqWaitCleanup s e = some s') : Inv s'.obj := by
  have hclean : ∀ a : Sys (Mq T) T, Inv a.obj → ∀ t, Inv (mqWaitCleanup a t).obj :=
    fun a ha t ↦ ha.unlink t (f := fun f ↦ { f with armed := false }) ⟨_, _, _, id, rfl⟩
  rcases Sync.envStep_cases hstep with hq | ⟨t, l, l', -, -, rfl⟩ | ⟨t, -, -, rfl⟩
  · rw [hq.obj]
    exact h
  · exact hclean { s with nudges := l } h t
  · show Inv (Sync.runCleanup mqWaitCleanup s t).obj
    rw [Sync.runCleanup]
    split_ifs
    · exact hclean (s.modify t _) h t
    · exact h

theorem Inv.step {s' : Sys (Mq T) T} {e : Event T} (h : Inv s.obj) (hK : Unbroken s e)
    (hstep : step s e = some s') : Inv s'.obj := by
  cases e with
  | call t op mode =>
    obtain ⟨⟨-, hp⟩, rfl⟩ := of_guard hstep
    exact h.lookUp hp op mode
  | enter t =>
    obtain ⟨⟨-, hp⟩, rfl⟩ := of_guard hstep
    exact h.enter hp hK
  | resume t =>
    obtain ⟨⟨-, hp⟩, rfl⟩ := of_guard hstep
    exact h.resume hp hK
  | timeout t =>
    obtain ⟨-, rfl⟩ := of_guard hstep
    exact h.mqTimeoutFn t
  | mqOpen n k =>
    obtain ⟨-, rfl⟩ := of_guard hstep
    exact h.mqueueOpen hK n k
  | mqClose =>
    obtain ⟨-, rfl⟩ := of_guard hstep
    exact h.mqueueDestroyLocked
  | env e => exact h.envStep hstep

theorem inv_boot : Inv (Mq.boot : Mq T) := by
  refine ⟨rfl, fun _ ↦ nodup_nil, fun _ ↦ ⟨?_, ?_, ?_, ?_⟩, ?_⟩ <;> nofun

/-! ### Runs -/

/-- A call on another incarnation than its own, or on a slot that is free, gives up. -/
theorem attempt_bad (hbad : s.obj.Bad (s.obj.frame t)) (hnb : (s.obj.frame t).mode ≠ .nonblock)
    (hfree : (s.obj.frame t).mode ≠ .timed → s.obj.Stuck (s.obj.frame t).op) :
    attempt s t = on s fun o ↦ o.return' t .ebadf := by
  rw [attempt]
  by_cases hs : s.obj.Stuck (s.obj.frame t).op
  · rw [if_pos hs, if_neg hnb, if_pos hbad]
  · have htimed : (s.obj.frame t).mode = .timed := of_not_not fun hm ↦ hs (hfree hm)
    rw [if_neg hs, if_pos ⟨htimed, hbad⟩]

/-- A call that was on the queue when it was destroyed gives up when it runs next. -/
theorem resume_doomed (h : Inv s.obj) (hp : (s.obj.frame t).phase = .wait)
    (hd : (s.obj.frame t).doomed = true) (hK : Unbroken s (.resume t)) :
    ((resume s t).obj.frame t).phase = .out ∧ ((resume s t).obj.frame t).result = some .ebadf := by
  have hfit := h.fit t
  have hwoken := (hfit.doomed hp hd).1
  have hbad : s.obj.Bad (s.obj.frame t) := by
    cases huse : s.obj.inUse with
    | false => exact .inl huse
    | true =>
      right
      rw [h.generation, (hfit.wait hp).2]
      exact ((hfit.doomed hp hd).2 huse).ne'
  have hfree : (s.obj.frame t).mode ≠ .timed → s.obj.Stuck (s.obj.frame t).op := by
    intro hm
    by_contra hs
    exact absurd (hK hm hs).2 ((hfit.doomed hp hd).2 (hK hm hs).1).ne
  have hstep : resume s t = on ((on s fun o ↦ o.leave t).modify t fun d ↦ d.unblock .blocked)
        fun o ↦ o.return' t .ebadf := by
    rw [Mqueue.resume, if_neg (by simp [hwoken]), if_neg (by simp [hwoken])]
    exact attempt_bad hbad (hfit.wait hp).1 hfree
  have hself : (resume s t).obj.frame t =
      { s.obj.frame t with phase := .out, armed := false, result := some .ebadf } := by
    rw [hstep]
    exact Function.update_self ..
  rw [hself]
  exact ⟨rfl, rfl⟩

/-- **A call keeps to its incarnation**, in every run in which the slot does not change hands
unseen. No call goes by the contents of another incarnation than the one it looked up. A call that
was on a wait queue when the queue was destroyed returns `EBADF` if it returns; the destruction
wakes it, and when it runs next it does return. -/
theorem mqueue_incarnations {s : Sys (Mq T) T} (h : Runs.Run step Unbroken (Sys.boot Mq.boot) s) :
    (∀ a b, Entry.touch a b ∈ s.obj.log → a = b) ∧
    (∀ r, Entry.ret true r ∈ s.obj.log → r = .ebadf) ∧
    (∀ s', step s .mqClose = some s' → ∀ t, s.obj.Linked t →
      (s'.obj.frame t).phase = .wait ∧ (s'.obj.frame t).doomed = true ∧
        ((s.thread t).reaped = false → (s'.thread t).Coming)) ∧
    ∀ t, (s.obj.frame t).phase = .wait → (s.obj.frame t).doomed = true → (s.thread t).Runs →
      Unbroken s (.resume t) → ∃ s', step s (.resume t) = some s' ∧
        (s'.obj.frame t).phase = .out ∧ (s'.obj.frame t).result = some .ebadf := by
  have hinv : Inv s.obj := h.invariant inv_boot fun _ _ _ ↦ Inv.step
  refine ⟨fun a b hm ↦ hinv.log _ hm, fun r hm ↦ hinv.log _ hm rfl, ?_, ?_⟩
  · intro s' hs t hl
    obtain ⟨-, hs⟩ := Option.ite_none_right_eq_some.mp hs
    obtain rfl := Option.some.inj hs
    have hframe : (mqueueDestroyLocked s).obj.frame t =
        { s.obj.frame t with woken := true, doomed := true } := if_pos hl
    have hthread : (mqueueDestroyLocked s).thread t = (s.thread t).wakeReady := if_pos hl
    obtain ⟨d, hd⟩ := linked_iff.mp hl
    rw [hframe, hthread]
    exact ⟨((hinv.fit t).linked d hd).1, rfl, Thread.coming_wakeReady⟩
  · intro t hp hd hruns hK
    exact ⟨_, if_pos ⟨hruns, hp⟩, resume_doomed hinv hp hd hK⟩

/-- A receiver that waits on a queue that is destroyed and opened again. -/
theorem mqueue_incarnations_receiver : ∃ s : Sys (Mq Unit) Unit,
    Runs.Run step Unbroken (Sys.boot Mq.boot) s ∧ Entry.ret true .ebadf ∈ s.obj.log ∧
      ∀ a b, Entry.touch a b ∈ s.obj.log → a = b := by
  obtain ⟨s, hrun, hs⟩ := exists_run step Unbroken (Sys.boot Mq.boot)
    [.env (.dispatch ()), .mqOpen 1 8, .call () (.recv 8) .plain, .enter (),
      .env (.schedule ()), .mqClose, .mqOpen 1 8, .env (.dispatch ()), .resume ()]
    (p := fun s ↦ Entry.ret true .ebadf ∈ s.obj.log) (by decide +kernel)
  exact ⟨s, hrun, hs, (mqueue_incarnations hrun).1⟩

/-- A sender on a full queue sleeps while the queue is destroyed and the slot opened again: it puts
its message into the new queue and returns success. -/
theorem not_mqueue_incarnations : ∃ s : Sys (Mq Unit) Unit,
    Runs.Run step (fun _ _ ↦ True) (Sys.boot Mq.boot) s ∧
      Entry.touch 1 2 ∈ s.obj.log ∧ Entry.ret true .sent ∈ s.obj.log ∧ s.obj.msgs = [⟨[7], 0⟩] :=
  exists_run step (fun _ _ ↦ True) (Sys.boot Mq.boot)
    [.env (.dispatch ()), .mqOpen 1 8, .call () (.send ⟨[1], 0⟩) .plain, .enter (),
      .call () (.send ⟨[7], 0⟩) .plain, .enter (), .env (.schedule ()), .mqClose, .mqOpen 1 8,
      .env (.dispatch ()), .resume ()] (by decide +kernel)

end Incarnations

end Mazu.Ipc.Mqueue
