import Mathlib.Logic.Function.Basic
import Mazu.Base

/-!
# Signal frames

`signal_deliver` and `signal_return` of `kernel/proc/signal.c`, with the region check of
`kernel/proc/proc.c`. The context of an interrupted thread is kept in a frame on its own stack,
where the process can change it; the kernel has the address of the newest frame and its cookie only.
-/

namespace Mazu.Signal

open Function

def eperm : Errno := 1
def efault : Errno := 14

/-- `struct trap_frame`: the registers `x1` to `x31`, and those of the trap. -/
structure TrapFrame where
  regs : Fin 31 → U64
  sepc : U64
  scause : U64
  stval : U64
  sstatus : U64

namespace Reg
def ra : Fin 31 := 0
def sp : Fin 31 := 1
def a0 : Fin 31 := 9
def a1 : Fin 31 := 10
end Reg

open Reg

def sstatusSpie : U64 := 1 <<< 5
def sstatusSpp : U64 := 1 <<< 8
def sstatusSum : U64 := 1 <<< 18

structure Vma where
  base : U64
  len : U64
  perms : U16
  active : Bool

def vmaPermWrite : U16 := 1 <<< 1
def vmaPermExec : U16 := 1 <<< 3
def procVmaMax : ℕ := 8

structure Action where
  handler : U64
  saMask : U32

def sigDfl : U64 := 0
def sigIgn : U64 := 1
def sigchld : ℕ := 17
def sigMax : ℕ := 32
def sigBit (signo : ℕ) : U32 := 1 <<< signo

/-- The fields of `struct proc` that signals use. The number of regions is the length of the
list. -/
structure Proc where
  vmas : List Vma
  vmaCacheRead : ℕ
  vmaCacheWrite : ℕ
  vaStackTop : U64
  procPending : U32
  procPendingPlain : U32
  queued : ℕ → List U64
  actions : ℕ → Action

/-! ## Regions -/

def Vma.covers (v : Vma) (uaddr uend : U64) : Bool :=
  v.active && decide (v.base ≤ uaddr) && decide (uend ≤ v.base + v.len)

def Vma.allows (v : Vma) (required : U16) : Bool :=
  required == 0 || v.perms &&& required == required

def Proc.setCache (p : Proc) (required : U16) (i : ℕ) : Proc :=
  if required &&& vmaPermWrite ≠ 0 then { p with vmaCacheWrite := i }
  else { p with vmaCacheRead := i }

/-- `proc_vma_check_access`: the cached region decides if it covers the range, and the first that
covers it otherwise. -/
def procVmaCheckAccess (p : Proc) (addr len : U64) (required : U16) : Bool × Proc :=
  if len = 0 then (true, p)
  else if addr + len < addr then (false, p)
  else
    let cache := if required &&& vmaPermWrite ≠ 0 then p.vmaCacheWrite else p.vmaCacheRead
    match p.vmas[cache]?.filter (·.covers addr (addr + len)) with
    | some v => (v.allows required, p)
    | none =>
      match p.vmas.find? (·.covers addr (addr + len)) with
      | none => (false, p.setCache required procVmaMax)
      | some v =>
        if v.allows required then
          (true, p.setCache required (p.vmas.findIdx (·.covers addr (addr + len))))
        else (false, p)

/-- The region holds the address and has the permission. -/
structure Vma.Holds (v : Vma) (addr : U64) (required : U16) : Prop where
  active : v.active = true
  base_le : v.base ≤ addr
  lt : addr < v.base + v.len
  perms : v.perms &&& required = required

variable {v : Vma} {p : Proc} {addr len : U64} {required : U16}

theorem Vma.holds_of_covers (hno : ¬addr + 1 < addr)
    (hc : v.covers addr (addr + 1) = true) (ha : v.allows required = true) :
    v.Holds addr required := by
  simp only [covers, Bool.and_eq_true, decide_eq_true_eq] at hc
  obtain ⟨⟨hactive, hbase⟩, hend⟩ := hc
  refine ⟨hactive, hbase, by bv_omega, ?_⟩
  simp only [allows, Bool.or_eq_true, beq_iff_eq] at ha
  rcases ha with rfl | ha
  · exact BitVec.and_zero
  · exact ha

/-- **One region decides** about an access to memory: the cached one, or the first one. -/
theorem procVmaCheckAccess_decides (p : Proc) (required : U16) (hlen : len ≠ 0) (hno : ¬addr + len < addr) :
    (∃ v ∈ p.vmas, v.covers addr (addr + len) = true ∧
      (procVmaCheckAccess p addr len required).1 = v.allows required) ∨
    (∀ v ∈ p.vmas, v.covers addr (addr + len) = false) ∧
      (procVmaCheckAccess p addr len required).1 = false := by
  rw [procVmaCheckAccess, if_neg hlen, if_neg hno]
  dsimp only
  generalize (if required &&& vmaPermWrite ≠ 0 then p.vmaCacheWrite else p.vmaCacheRead) = i
  split
  next v hv =>
    obtain ⟨hget, hcov⟩ := Option.filter_eq_some_iff.mp hv
    exact .inl ⟨v, List.mem_of_getElem? hget, hcov, rfl⟩
  next =>
    split
    next hv => exact .inr ⟨fun v hmem ↦ eq_false_of_ne_true (List.find?_eq_none.mp hv v hmem), rfl⟩
    next v hv =>
      refine .inl ⟨v, List.mem_of_find?_eq_some hv,
        List.find?_some (p := fun v : Vma ↦ v.covers addr (addr + len)) hv, ?_⟩
      split_ifs with ha
      · exact ha.symm
      · exact (eq_false_of_ne_true ha).symm

/-- **An access that is allowed** is one to a region of the process that has the permission. -/
theorem procVmaCheckAccess_holds (h : (procVmaCheckAccess p addr 1 required).1 = true) :
    ∃ v ∈ p.vmas, v.Holds addr required := by
  by_cases hno : addr + 1 < addr
  · rw [procVmaCheckAccess, if_neg (by decide), if_pos hno] at h
    cases h
  obtain ⟨v, hv, hcov, heq⟩ | ⟨-, heq⟩ := procVmaCheckAccess_decides p required (by decide) hno
  · exact ⟨v, hv, v.holds_of_covers hno hcov (heq.symm.trans h)⟩
  · cases heq.symm.trans h

/-- The region contains the whole range. No region wraps: `proc_add_vma` refuses it. -/
def Vma.Contains (v : Vma) (addr len : U64) : Prop :=
  v.active = true ∧ v.base.toNat ≤ addr.toNat ∧ addr.toNat + len.toNat ≤ (v.base + v.len).toNat

theorem Vma.contains_iff :
    v.Contains addr len ↔ ¬addr + len < addr ∧ v.covers addr (addr + len) = true := by
  rw [Contains, covers, Bool.and_eq_true, Bool.and_eq_true, decide_eq_true_eq, decide_eq_true_eq,
    and_assoc, and_left_comm (a := ¬_)]
  refine and_congr_right fun _ ↦ ?_
  generalize v.base + v.len = e
  bv_omega

/-- Whatever the order of the regions and whatever is cached, an access is allowed exactly when some
region contains it and has the permissions. -/
def AccessLaw (vmas : List Vma) (addr len : U64) (required : U16) : Prop :=
  ∀ p : Proc, p.vmas.Perm vmas → ((procVmaCheckAccess p addr len required).1 = true ↔
    ∃ v ∈ vmas, v.Contains addr len ∧ v.allows required = true)

theorem AccessLaw.agree {vmas : List Vma} (h : AccessLaw vmas addr len required) (hlen : len ≠ 0)
    {w : Vma} (hv : v ∈ vmas) (hw : w ∈ vmas) (hcv : v.Contains addr len)
    (hcw : w.Contains addr len) (ha : v.allows required = true) : w.allows required = true := by
  obtain ⟨l₁, l₂, rfl⟩ := List.append_of_mem hw
  obtain ⟨hno, hcov⟩ := Vma.contains_iff.mp hcw
  have hcheck := (h ⟨w :: (l₁ ++ l₂), 0, 0, 0, 0, 0, fun _ ↦ [], fun _ ↦ ⟨0, 0⟩⟩
    List.perm_middle.symm).mpr ⟨v, hv, hcv, ha⟩
  rw [procVmaCheckAccess, if_neg hlen, if_neg hno] at hcheck
  simpa [Option.filter, hcov] using hcheck

/-- **The check is right** exactly for an empty range that a region contains with the permissions,
and for another range if all regions that contain it have the permissions, or none. -/
theorem accessLaw_iff (vmas : List Vma) (addr len : U64) (required : U16) :
    AccessLaw vmas addr len required ↔
      (len = 0 → ∃ v ∈ vmas, v.Contains addr len ∧ v.allows required = true) ∧
      (len ≠ 0 → ∀ v ∈ vmas, ∀ w ∈ vmas, v.Contains addr len → w.Contains addr len →
        v.allows required = true → w.allows required = true) := by
  refine ⟨fun h ↦ ⟨?_, fun hlen v hv w hw ↦ h.agree hlen hv hw⟩, fun h p hp ↦ ?_⟩
  · rintro rfl
    exact (h ⟨vmas, 0, 0, 0, 0, 0, fun _ ↦ [], fun _ ↦ ⟨0, 0⟩⟩ (List.Perm.refl _)).mp rfl
  · by_cases hlen : len = 0
    · rw [procVmaCheckAccess, if_pos hlen]
      exact iff_of_true rfl (h.1 hlen)
    by_cases hno : addr + len < addr
    · rw [procVmaCheckAccess, if_neg hlen, if_pos hno]
      refine iff_of_false Bool.false_ne_true ?_
      rintro ⟨v, -, hc, -⟩
      exact (Vma.contains_iff.mp hc).1 hno
    obtain ⟨w, hw, hcov, heq⟩ | ⟨hnone, heq⟩ :=
      procVmaCheckAccess_decides p required hlen hno
    · have hcw := Vma.contains_iff.mpr ⟨hno, hcov⟩
      rw [heq]
      refine ⟨fun ha ↦ ⟨w, hp.mem_iff.mp hw, hcw, ha⟩, ?_⟩
      rintro ⟨v, hv, hcv, ha⟩
      exact h.2 hlen v hv w (hp.mem_iff.mp hw) hcv hcw ha
    · rw [heq]
      refine iff_of_false Bool.false_ne_true ?_
      rintro ⟨v, hv, hc, -⟩
      cases (hnone v (hp.mem_iff.mpr hv)).symm.trans (Vma.contains_iff.mp hc).2

/-- **Two segments that share a page**: the first is read-only and hides that the second can be
written. -/
theorem not_accessLaw : ¬AccessLaw [⟨0x1000, 0x1000, 1, true⟩, ⟨0x1000, 0x2000, 3, true⟩] 0x1800 8
    vmaPermWrite := by
  intro h
  have hw := h.agree (v := ⟨0x1000, 0x2000, 3, true⟩) (w := ⟨0x1000, 0x1000, 1, true⟩) (by decide)
    (.tail _ (.head _)) (.head _) ⟨rfl, by decide, by decide⟩ ⟨rfl, by decide, by decide⟩ rfl
  cases hw

/-! ## Frames -/

def signalFrameMagic : U32 := 0x53494746
def sizeofSignalFrame : U64 := 312

structure SignalFrame where
  magic : U32
  cookie : U32
  savedTf : TrapFrame
  savedBlocked : U32
  prevFrame : U64
  prevCookie : U32
  signo : ℕ

/-- What the kernel needs of the memory of a process: a frame that was written can be read. -/
structure UserMem (M : Type) where
  copyFromUser : M → U64 → Option SignalFrame
  copyToUser : M → U64 → SignalFrame → Option M
  read_written : ∀ m m' a f, copyToUser m a f = some m' → copyFromUser m' a = some f

/-- A thread with its trap frame and the memory it sees. The process is `none` once it is torn
down. -/
structure Task (M : Type) where
  proc : Option Proc
  tf : TrapFrame
  mem : M
  pending : U32
  blocked : U32
  frameTop : U64
  framePrev : U64
  frameCookie : U32
  framePrevCookie : U32
  sigsuspendSavedBlocked : U32
  sigsuspendActive : Bool
  terminating : Bool

variable {M : Type}

/-- `signal_claim_proc_pending_locked`, of a signal that is pending. -/
def signalClaimProcPendingLocked (p : Proc) (signo : ℕ) : Proc :=
  if p.procPending &&& sigBit signo = 0 then p
  else
    let p := match p.queued signo with
      | _ :: rest => { p with queued := update p.queued signo rest }
      | [] => { p with procPendingPlain := p.procPendingPlain &&& ~~~sigBit signo }
    if p.procPendingPlain &&& sigBit signo ≠ 0 ∨ p.queued signo ≠ [] then
      { p with procPending := p.procPending ||| sigBit signo }
    else { p with procPending := p.procPending &&& ~~~sigBit signo }

def signalTrampolinePc (p : Proc) : U64 := p.vaStackTop - 16384 - 4096

/-- The mask that a return to the interrupted code is to bring back. -/
def Task.maskBefore (td : Task M) : U32 :=
  if td.sigsuspendActive then td.sigsuspendSavedBlocked else td.blocked

def Task.endSuspend (td : Task M) : Task M :=
  { td with blocked := td.maskBefore, sigsuspendActive := false }

/-- `proc_exit`, as the thread sees it. -/
def Task.die (td : Task M) : Task M := { td with proc := none, terminating := true }

/-- The last part of `signal_deliver`: a frame for a handler. -/
def signalPushFrame (u : UserMem M) (td : Task M) (p : Proc) (signo : ℕ) : Task M :=
  let addr := (td.tf.regs sp - sizeofSignalFrame) &&& ~~~0xF
  let frame : SignalFrame := {
    magic := signalFrameMagic, cookie := td.frameCookie + 1, savedTf := td.tf
    savedBlocked := td.maskBefore, prevFrame := td.frameTop, prevCookie := td.frameCookie
    signo := signo }
  let td' := { td with
    sigsuspendActive := false
    blocked := td.blocked ||| ((p.actions signo).saMask ||| sigBit signo)
    framePrev := frame.prevFrame, framePrevCookie := frame.prevCookie
    frameTop := addr, frameCookie := frame.cookie }
  match u.copyToUser td.mem addr frame with
  | none => td'.die
  | some mem => { td' with
      mem := mem
      tf := { td.tf with
        sepc := (p.actions signo).handler
        regs := update (update (update (update td.tf.regs
          a0 (BitVec.ofNat 64 signo)) a1 addr) sp addr) ra (signalTrampolinePc p) } }

def signalDeliver (u : UserMem M) (td : Task M) : Bool × Task M :=
  match td.proc with
  | none => (false, td)
  | some p =>
    let deliverable := (td.pending ||| p.procPending) &&& ~~~td.blocked
    if deliverable = 0 then (false, td.endSuspend)
    else
      match (List.range' 1 (sigMax - 1)).find? fun i ↦ deliverable &&& sigBit i ≠ 0 with
      | none => (false, td)
      | some signo =>
        let td' := if td.pending &&& sigBit signo ≠ 0 then
            { td with pending := td.pending &&& ~~~sigBit signo }
          else { td with proc := some (signalClaimProcPendingLocked p signo) }
        if (p.actions signo).handler = sigIgn then (false, td'.endSuspend)
        else if (p.actions signo).handler = sigDfl then
          if signo = sigchld then (false, td') else (true, td'.die)
        else (true, signalPushFrame u td' p signo)

def signalRestoreTfValid (p : Proc) (tf : TrapFrame) : Bool × Proc :=
  if tf.sstatus &&& (sstatusSpp ||| sstatusSum) ≠ 0 then (false, p)
  else
    let (ok, p') := procVmaCheckAccess p tf.sepc 1 vmaPermExec
    if ok then procVmaCheckAccess p' (tf.regs sp) 1 vmaPermWrite else (false, p')

def signalRestoreTf (src : TrapFrame) : TrapFrame :=
  { src with scause := 0, stval := 0, sstatus := sstatusSpie }

def signalReturn (u : UserMem M) (td : Task M) : Result × Task M :=
  match td.proc with
  | none => (.error eperm, td)
  | some p =>
    match u.copyFromUser td.mem (td.tf.regs a0) with
    | none => (.error efault, td)
    | some frame =>
      let (valid, p') := signalRestoreTfValid p frame.savedTf
      let td' := { td with proc := some p' }
      if ¬valid then (.error eperm, td')
      else if ¬(frame.magic = signalFrameMagic ∧ td.tf.regs a0 = td.frameTop ∧
          frame.cookie = td.frameCookie) then (.error eperm, td')
      else (.ok (), { td' with
        frameTop := frame.prevFrame, frameCookie := frame.prevCookie
        framePrev := 0, framePrevCookie := 0
        blocked := frame.savedBlocked, tf := signalRestoreTf frame.savedTf })

/-- `signal_handle_trampoline_fault`: the handler has returned, with the frame at its stack
pointer. -/
def signalHandleTrampolineFault (u : UserMem M) (td : Task M) : Bool × Task M :=
  match td.proc with
  | none => (false, td)
  | some p =>
    if td.tf.sepc ≠ signalTrampolinePc p then (false, td)
    else
      let r := signalReturn u
        { td with tf := { td.tf with regs := update td.tf.regs a0 (td.tf.regs sp) } }
      (!r.1.isError, r.2)

/-! ## Any frame -/

/-- The region caches are all that the check changes. -/
theorem procVmaCheckAccess_vmas (p : Proc) (addr len : U64) (required : U16) :
    (procVmaCheckAccess p addr len required).2.vmas = p.vmas := by
  have hset : ∀ i, (p.setCache required i).vmas = p.vmas := by
    intro i
    rw [Proc.setCache]
    split_ifs <;> rfl
  simp only [procVmaCheckAccess]
  generalize (if required &&& vmaPermWrite ≠ 0 then p.vmaCacheWrite else p.vmaCacheRead) = i
  split_ifs
  · rfl
  · rfl
  split
  · rfl
  split
  · exact hset _
  split_ifs
  · exact hset _
  · rfl

theorem signalRestoreTfValid_holds {tf : TrapFrame} (h : (signalRestoreTfValid p tf).1 = true) :
    (∃ v ∈ p.vmas, v.Holds tf.sepc vmaPermExec) ∧
      ∃ v ∈ p.vmas, v.Holds (tf.regs sp) vmaPermWrite := by
  rw [signalRestoreTfValid] at h
  split_ifs at h with hst
  dsimp only at h
  split_ifs at h with hexec
  have hwrite := procVmaCheckAccess_holds h
  rw [procVmaCheckAccess_vmas] at hwrite
  exact ⟨procVmaCheckAccess_holds hexec, hwrite⟩

variable {u : UserMem M} {td s t t' : Task M} {frame : SignalFrame}

/-- A return whose frame could be read. -/
theorem signalReturn_eq (hp : td.proc = some p)
    (hf : u.copyFromUser td.mem (td.tf.regs a0) = some frame) :
    signalReturn u td =
      if (signalRestoreTfValid p frame.savedTf).1 = true ∧ frame.magic = signalFrameMagic ∧
        td.tf.regs a0 = td.frameTop ∧ frame.cookie = td.frameCookie then
        (.ok (), { td with
          proc := some (signalRestoreTfValid p frame.savedTf).2
          frameTop := frame.prevFrame, frameCookie := frame.prevCookie
          framePrev := 0, framePrevCookie := 0
          blocked := frame.savedBlocked, tf := signalRestoreTf frame.savedTf })
      else (.error eperm, { td with proc := some (signalRestoreTfValid p frame.savedTf).2 }) := by
  rw [signalReturn, hp]
  rw [hf]
  dsimp only
  by_cases hvalid : (signalRestoreTfValid p frame.savedTf).1 = true
  · rw [if_neg (not_not.mpr hvalid), ite_not]
    exact if_congr (and_iff_right hvalid).symm rfl rfl
  · rw [if_pos hvalid, if_neg fun h ↦ hvalid h.1]

/-- **A return through any frame.** Whatever the memory and the registers hold, the return fails and
leaves everything but the region caches as it was, or the thread resumes in user mode without access
to user memory for the kernel, in regions it may execute and write, and the frame is the newest one
with the current cookie. -/
theorem signalReturn_any (u : UserMem M) (td : Task M) :
    ((∃ e, (signalReturn u td).1 = .error e) ∧
      (signalReturn u td).2 = { td with proc := (signalReturn u td).2.proc }) ∨
    (signalReturn u td).1 = resultOk ∧
      (signalReturn u td).2.tf.sstatus &&& (sstatusSpp ||| sstatusSum) = 0 ∧
      ∃ p frame, td.proc = some p ∧ u.copyFromUser td.mem (td.tf.regs a0) = some frame ∧
        (∃ v ∈ p.vmas, v.Holds (signalReturn u td).2.tf.sepc vmaPermExec) ∧
        (∃ v ∈ p.vmas, v.Holds ((signalReturn u td).2.tf.regs sp) vmaPermWrite) ∧
        td.tf.regs a0 = td.frameTop ∧ frame.cookie = td.frameCookie ∧
        frame.magic = signalFrameMagic := by
  cases hp : td.proc with
  | none =>
    rw [signalReturn, hp]
    exact .inl ⟨⟨_, rfl⟩, rfl⟩
  | some p =>
    cases hf : u.copyFromUser td.mem (td.tf.regs a0) with
    | none =>
      rw [signalReturn, hp]
      rw [hf]
      exact .inl ⟨⟨_, rfl⟩, rfl⟩
    | some frame =>
      rw [signalReturn_eq hp hf]
      split_ifs with hok
      · obtain ⟨hvalid, hmagic, htop, hcookie⟩ := hok
        obtain ⟨hexec, hwrite⟩ := signalRestoreTfValid_holds hvalid
        have hmode : sstatusSpie &&& (sstatusSpp ||| sstatusSum) = 0 := by decide
        exact .inr ⟨rfl, hmode, p, frame, rfl, rfl, hexec, hwrite, htop, hcookie, hmagic⟩
      · exact .inl ⟨⟨_, rfl⟩, rfl⟩

/-! ## Nested handlers -/

/-- The thread is in a handler after it, and was not before. -/
structure Interrupts (u : UserMem M) (s t : Task M) : Prop where
  deliver : signalDeliver u s = (true, t)
  lives : t.terminating = false

/-- The handler that was entered at `s` ends at `t`: it returns to the trampoline, with the stack
pointer and the frame it was given. -/
structure Returns (u : UserMem M) (s t : Task M) : Prop where
  frame : u.copyFromUser t.mem s.frameTop = u.copyFromUser s.mem s.frameTop
  stack : t.tf.regs sp = s.tf.regs sp
  pc : ∀ p, t.proc = some p → t.tf.sepc = signalTrampolinePc p

/-- A run of the thread in which every handler it enters has returned: the code of the process and
calls into the kernel may change anything but the frame stack. -/
inductive Nested (u : UserMem M) : Task M → Task M → Prop
  | refl (s : Task M) : Nested u s s
  | other {s t t' : Task M} (h : Nested u s t) (htop : t'.frameTop = t.frameTop)
      (hcookie : t'.frameCookie = t.frameCookie) : Nested u s t'
  | handler {s t t₁ t₂ t₃ : Task M} (h : Nested u s t) (hin : Interrupts u t t₁)
      (hbody : Nested u t₁ t₂) (hout : Returns u t₁ t₂)
      (hret : signalHandleTrampolineFault u t₂ = (true, t₃)) : Nested u s t₃

/-- What was in force before the delivery at `s` is in force again at `t`. -/
structure Restored (s t : Task M) : Prop where
  regs : t.tf.regs = s.tf.regs
  sepc : t.tf.sepc = s.tf.sepc
  blocked : t.blocked = s.maskBefore
  frameTop : t.frameTop = s.frameTop
  frameCookie : t.frameCookie = s.frameCookie

/-- A frame has the context of `s`, and `t` has the frame on top. -/
structure Saved (u : UserMem M) (s t : Task M) (frame : SignalFrame) : Prop where
  read : u.copyFromUser t.mem t.frameTop = some frame
  stack : t.tf.regs sp = t.frameTop
  magic : frame.magic = signalFrameMagic
  cookie : frame.cookie = t.frameCookie
  savedTf : frame.savedTf = s.tf
  savedBlocked : frame.savedBlocked = s.maskBefore
  prevFrame : frame.prevFrame = s.frameTop
  prevCookie : frame.prevCookie = s.frameCookie

theorem signalPushFrame_saved {signo : ℕ}
    (hlives : (signalPushFrame u td p signo).terminating = false) :
    ∃ frame, Saved u td (signalPushFrame u td p signo) frame := by
  simp only [signalPushFrame] at hlives ⊢
  split at hlives
  next => cases hlives
  next mem hmem => exact ⟨_, u.read_written _ _ _ _ hmem, rfl, rfl, rfl, rfl, rfl, rfl, rfl⟩

theorem Interrupts.saved (h : Interrupts u s t) : ∃ frame, Saved u s t frame := by
  obtain ⟨hdel, hlives⟩ := h
  rw [signalDeliver] at hdel
  split at hdel
  next => cases hdel
  next p hp =>
    dsimp only at hdel
    split_ifs at hdel with hzero
    · cases hdel
    split at hdel
    next => cases hdel
    next signo _ =>
      -- the claim of the signal touches none of what the frame saves
      generalize htd : (if s.pending &&& sigBit signo ≠ 0 then
          { s with pending := s.pending &&& ~~~sigBit signo }
        else { s with proc := some _ }) = td at hdel
      have hsaved : (signalPushFrame u td p signo).terminating = false →
          ∃ frame, Saved u s (signalPushFrame u td p signo) frame := by
        intro hl
        obtain ⟨frame, hf⟩ := signalPushFrame_saved hl
        refine ⟨frame, hf.read, hf.stack, hf.magic, hf.cookie, ?_, ?_, ?_, ?_⟩
        · rw [hf.savedTf, ← htd]
          split_ifs <;> rfl
        · rw [hf.savedBlocked, ← htd]
          split_ifs <;> rfl
        · rw [hf.prevFrame, ← htd]
          split_ifs <;> rfl
        · rw [hf.prevCookie, ← htd]
          split_ifs <;> rfl
      split_ifs at hdel
      · cases hdel
      · cases hdel
      · cases hdel
        cases hlives
      · cases hdel
        exact hsaved hlives

/-- A return to the trampoline with the newest frame is refused or brings the context back. -/
theorem Saved.trampoline (h : Saved u s t frame) (hr : Returns u t t')
    (htop : t'.frameTop = t.frameTop) (hcookie : t'.frameCookie = t.frameCookie)
    (hp : t'.proc = some p) :
    (signalHandleTrampolineFault u t').1 = (signalRestoreTfValid p s.tf).1 ∧
      ((signalRestoreTfValid p s.tf).1 = true →
        Restored s (signalHandleTrampolineFault u t').2) := by
  have hread : u.copyFromUser t'.mem (t'.tf.regs sp) = some frame := by
    rw [hr.stack, h.stack, hr.frame, h.read]
  have haddr : t'.tf.regs sp = t'.frameTop := by rw [hr.stack, h.stack, htop]
  rw [signalHandleTrampolineFault, hp]
  dsimp only
  rw [if_neg (not_not.mpr (hr.pc p hp)), signalReturn_eq rfl (by exact hread), h.savedTf]
  cases hvalid : (signalRestoreTfValid p s.tf).1 with
  | false =>
    exact ⟨rfl, nofun⟩
  | true =>
    rw [if_pos ⟨rfl, h.magic, haddr, h.cookie.trans hcookie.symm⟩]
    exact ⟨rfl, fun _ ↦ ⟨rfl, rfl, h.savedBlocked, h.prevFrame, h.prevCookie⟩⟩

/-- A handler that has returned leaves the frame stack as it found it. -/
theorem Nested.frames (h : Nested u s t) :
    t.frameTop = s.frameTop ∧ t.frameCookie = s.frameCookie := by
  induction h with
  | refl => exact ⟨rfl, rfl⟩
  | other _ htop hcookie ih => exact ⟨htop.trans ih.1, hcookie.trans ih.2⟩
  | @handler s t t₁ t₂ t₃ _ hin _ hout hret ih hbody =>
    obtain ⟨frame, hsaved⟩ := hin.saved
    cases hp : t₂.proc with
    | none =>
      rw [signalHandleTrampolineFault, hp] at hret
      cases hret
    | some p =>
      obtain ⟨hvalid, hrest⟩ := hsaved.trampoline hout hbody.1 hbody.2 hp
      rw [hret] at hvalid hrest
      have hback := hrest hvalid.symm
      exact ⟨hback.frameTop.trans ih.1, hback.frameCookie.trans ih.2⟩

/-- **Nested handlers.** However deep, the return of a handler brings back what was in force before
its delivery just if the interrupted context passes the check: the stack pointer must be in a region
that can be written, which one at the very top of the stack is not. -/
theorem trampoline_restores_iff (hin : Interrupts u s t) (hbody : Nested u t t')
    (hout : Returns u t t') (hp : t'.proc = some p) :
    (signalHandleTrampolineFault u t').1 = true ∧
        Restored s (signalHandleTrampolineFault u t').2 ↔
      (signalRestoreTfValid p s.tf).1 = true := by
  obtain ⟨frame, hsaved⟩ := hin.saved
  obtain ⟨hvalid, hrest⟩ := hsaved.trampoline hout hbody.frames.1 hbody.frames.2 hp
  rw [hvalid]
  exact ⟨fun h ↦ h.1, fun h ↦ ⟨h, hrest h⟩⟩

/-- A memory of frames. -/
def frameMem : UserMem (U64 → Option SignalFrame) where
  copyFromUser m a := m a
  copyToUser m a f := some (update m a (some f))
  read_written m m' a f h := by
    cases h
    exact update_self ..

/-- A process with code at `0x10000` and a stack of four pages below `0x74000`. -/
def loaded : Proc where
  vmas := [⟨0x10000, 0x1000, 9, true⟩, ⟨0x70000, 0x4000, 3, true⟩]
  vmaCacheRead := procVmaMax
  vmaCacheWrite := procVmaMax
  vaStackTop := 0x74000
  procPending := 0
  procPendingPlain := 0
  queued _ := []
  actions _ := ⟨0x10100, 0⟩

/-- Its thread, with a signal for it, and with its stack pointer. -/
def signalled (stack : U64) : Task (U64 → Option SignalFrame) where
  proc := some loaded
  tf := ⟨update 0 sp stack, 0x10008, 0, 0, sstatusSpie⟩
  mem _ := none
  pending := sigBit 10
  blocked := 0
  frameTop := 0
  framePrev := 0
  frameCookie := 0
  framePrevCookie := 0
  sigsuspendSavedBlocked := 0
  sigsuspendActive := false
  terminating := false

def entered (stack : U64) : Task (U64 → Option SignalFrame) :=
  signalPushFrame frameMem { signalled stack with pending := 0 } loaded 10

def ended (stack : U64) : Task (U64 → Option SignalFrame) :=
  { entered stack with tf := { (entered stack).tf with sepc := signalTrampolinePc loaded } }

theorem find_lowest : (List.range' 1 (sigMax - 1)).find? (fun i ↦
    (sigBit 10 ||| 0) &&& ~~~0 &&& sigBit i ≠ 0) = some 10 := by
  decide

theorem entered_ended (stack : U64) :
    Interrupts frameMem (signalled stack) (entered stack) ∧
      Nested frameMem (entered stack) (ended stack) ∧
      Returns frameMem (entered stack) (ended stack) := by
  have hdel : signalDeliver frameMem (signalled stack) = (true, entered stack) := by
    have hfind : (List.range' 1 (sigMax - 1)).find? (fun i ↦
        (sigBit 10 ||| loaded.procPending) &&& ~~~(signalled stack).blocked &&& sigBit i ≠ 0) =
        some 10 := find_lowest
    refine (if_neg (show ¬(sigBit 10 ||| 0) &&& ~~~0 = 0 by decide)).trans ?_
    rw [show (signalled stack).pending = sigBit 10 from rfl, hfind]
    rfl
  refine ⟨⟨hdel, rfl⟩, .other (.refl _) rfl rfl, ⟨rfl, rfl, ?_⟩⟩
  rintro p ⟨rfl⟩
  rfl

theorem trampoline_restores_below :
    (signalHandleTrampolineFault frameMem (ended 0x73ff0)).1 = true ∧
      Restored (signalled 0x73ff0) (signalHandleTrampolineFault frameMem (ended 0x73ff0)).2 := by
  obtain ⟨hin, hbody, hout⟩ := entered_ended 0x73ff0
  exact (trampoline_restores_iff hin hbody hout rfl).mpr (by decide)

/-- A thread that has pushed nothing yet cannot come back. -/
theorem not_trampoline_restores :
    Interrupts frameMem (signalled 0x74000) (entered 0x74000) ∧
      Nested frameMem (entered 0x74000) (ended 0x74000) ∧
      Returns frameMem (entered 0x74000) (ended 0x74000) ∧
      (signalHandleTrampolineFault frameMem (ended 0x74000)).1 = false := by
  obtain ⟨hin, hbody, hout⟩ := entered_ended 0x74000
  exact ⟨hin, hbody, hout, by decide⟩

end Mazu.Signal
