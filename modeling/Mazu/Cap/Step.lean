import Mazu.Cap.Process

/-!
# Runs of the capability system

Everything that changes capability spaces, object pools or the process table, as events: the system
calls and the parts of `sys_spawn` that take a lock of their own. Each event is one step. A system
call that pins an object and blocks is two events, the lookup and the release of the reference.
-/

namespace Mazu.Cap

inductive Event
  /-- `proc_alloc`, by a process for its child or by the kernel shell. -/
  | spawn (parent : Option ProcIdx)
  /-- `proc_free` of a child that could not be set up. -/
  | discard (p : ProcIdx)
  /-- The child has been set up and runs. -/
  | start (p : ProcIdx)
  /-- The handle of a new thread. -/
  | openThread (p : ProcIdx) (thread : Fin procThreadMax)
  | openFd (p : ProcIdx) (rights : U8) (slotHint : ℤ) (exactTarget : Bool)
  | openObject (p : ProcIdx) (pool : Pool)
  | closeFd (p : ProcIdx) (fd : ℤ)
  | dropToken (p : ProcIdx) (token : U64)
  | dup (p : ProcIdx) (oldfd newfd : ℤ) (exactTarget : Bool)
  | inherit (src dst : ProcIdx) (srcFd dstFd : ℤ)
  | transfer (src : ProcIdx) (dstPid : U16) (token : U64) (newRights : U8)
  | revoke (src : ProcIdx) (token : U64)
  | pin (p : ProcIdx) (handle : ℤ) (requiredRights : U8) (pool : Pool)
  | unpin (ref : Pin)
  /-- A thread that was killed inside a system call is gone, with the references on its stack. -/
  | abandon (ref : Pin)
  | exit (p : ProcIdx)
  | wait (p : ProcIdx)

/-- The process can have capability operations done to it: it runs, or its parent sets it up. -/
def Kernel.Active (s : Kernel) (p : ProcIdx) : Prop :=
  (s.procTable p).state = .embryo ∨ (s.procTable p).state = .running

instance (s : Kernel) (p : ProcIdx) : Decidable (s.Active p) :=
  inferInstanceAs (Decidable (_ ∨ _))

/-- The process of the pin has exited. -/
def Kernel.Orphaned (s : Kernel) (pin : Pin) : Prop :=
  (s.procTable pin.holder).generation ≠ pin.generation ∨
    (s.procTable pin.holder).state = .zombie ∨ (s.procTable pin.holder).state = .free

instance (s : Kernel) (pin : Pin) : Decidable (s.Orphaned pin) :=
  inferInstanceAs (Decidable (_ ∨ _ ∨ _))

/-- When an event can happen. -/
def Event.Allowed (s : Kernel) : Event → Prop
  | spawn none => True
  | spawn (some p) => (s.procTable p).state = .running
  | discard p => (s.procTable p).state = .embryo
  | start p => (s.procTable p).state = .embryo
  | openThread p _ => s.Active p
  | openFd p _ _ _ => s.Active p
  | openObject p pool => (s.procTable p).state = .running ∧ pool ≠ .fd
  | closeFd p _ => s.Active p
  | dropToken p _ => s.Active p
  | dup p _ _ _ => s.Active p
  | inherit src dst _ _ => s.Active src ∧ s.Active dst
  | transfer src _ _ _ => (s.procTable src).state = .running
  | revoke src _ => (s.procTable src).state = .running
  | pin p _ _ _ => (s.procTable p).state = .running
  | unpin ref => ref ∈ s.pins
  | abandon ref => ref ∈ s.pins ∧ s.Orphaned ref
  | exit p => (s.procTable p).state = .running
  | wait p => (s.procTable p).state = .running ∧ procChildWaitReady s p

instance (s : Kernel) : (e : Event) → Decidable (e.Allowed s)
  | .spawn none => inferInstanceAs (Decidable True)
  | .spawn (some _) => inferInstanceAs (Decidable (_ = _))
  | .discard _ => inferInstanceAs (Decidable (_ = _))
  | .start _ => inferInstanceAs (Decidable (_ = _))
  | .openThread p _ => inferInstanceAs (Decidable (s.Active p))
  | .openFd p _ _ _ => inferInstanceAs (Decidable (s.Active p))
  | .openObject _ _ => inferInstanceAs (Decidable (_ = _ ∧ _ ≠ _))
  | .closeFd p _ => inferInstanceAs (Decidable (s.Active p))
  | .dropToken p _ => inferInstanceAs (Decidable (s.Active p))
  | .dup p _ _ _ => inferInstanceAs (Decidable (s.Active p))
  | .inherit src dst _ _ => inferInstanceAs (Decidable (s.Active src ∧ s.Active dst))
  | .transfer _ _ _ _ => inferInstanceAs (Decidable (_ = _))
  | .revoke _ _ => inferInstanceAs (Decidable (_ = _))
  | .pin _ _ _ _ => inferInstanceAs (Decidable (_ = _))
  | .unpin ref => inferInstanceAs (Decidable (ref ∈ s.pins))
  | .abandon ref => inferInstanceAs (Decidable (ref ∈ s.pins ∧ s.Orphaned ref))
  | .exit _ => inferInstanceAs (Decidable (_ = _))
  | .wait _ => inferInstanceAs (Decidable (_ = _ ∧ _ = true))

/-- The slot of the thread handle, `user_thread_cap_slot`. -/
def userThreadCapSlot (thread : Fin procThreadMax) : ℤ := procFdMax + thread.val

def step (s : Kernel) : Event → Kernel
  | .spawn parent => ((procAlloc s parent).map Prod.snd).getD s
  | .discard p => procFreeLocked s p
  | .start p => s.setProc p { (s.procTable p) with state := .running }
  | .openThread p thread =>
    (capOpenHandle s p (BitVec.ofNat 16 thread) .thread (capRightRead ||| capRightWrite)
      (userThreadCapSlot thread) true).2
  | .openFd p rights slotHint exactTarget => (capOpenFd s p rights slotHint exactTarget).2
  | .openObject p pool => (sysObjectOpen s p pool).2
  | .closeFd p fd => (capCloseFd s p fd).2
  | .dropToken p token => (capDropToken s p token).2
  | .dup p oldfd newfd exactTarget => (capDupFd s p oldfd newfd exactTarget).2
  | .inherit src dst srcFd dstFd => (capInheritFd s src dst srcFd dstFd).2
  | .transfer src dstPid token newRights => (capTransfer s src dstPid token newRights).2
  | .revoke src token => (capRevokeDelegateImpl s src token).2
  | .pin p handle requiredRights pool => (capLookup s p handle requiredRights pool).getD s
  | .unpin ref => capPutRef s ref
  | .abandon ref => { s with pins := s.pins.erase ref }
  | .exit p => procExit s p
  | .wait p => (procWaitChild s p).2

/-- The state at boot: no process, empty pools. -/
def Kernel.init : Kernel where
  procTable := fun _ ↦ ⟨.free, 0, 0, 0, 0, false⟩
  capSpace := fun _ ↦ ⟨fun _ ↦ 0, fun _ ↦ 0, fun _ ↦ 0, fun _ ↦ 0⟩
  pools := fun _ _ ↦ .zero
  delegatePool := fun _ ↦ .zero
  nextGrantEpoch := 1
  nextPid := 1
  pins := []

/-- A run of allowed events, each of which meets `ok` in the state where it happens. -/
inductive Runs (ok : Kernel → Event → Prop) (s : Kernel) : Kernel → Prop
  | refl : Runs ok s s
  | tail {t : Kernel} (h : Runs ok s t) (e : Event) (ha : e.Allowed t) (hok : ok t e) :
      Runs ok s (step t e)

/-- The state is the end of a run from boot. -/
def Reachable (s : Kernel) : Prop := Runs (fun _ _ ↦ True) .init s

/-- **The invariant rule for runs.** -/
theorem Runs.invariant {ok : Kernel → Event → Prop} {P : Kernel → Prop} {s t : Kernel}
    (h : Runs ok s t) (hs : P s)
    (hstep : ∀ {u : Kernel} {e : Event}, P u → e.Allowed u → ok u e → P (step u e)) : P t := by
  induction h with
  | refl => exact hs
  | tail _ e ha hok ih => exact hstep ih ha hok

/-- The run of a list of events, if each is allowed in its turn. -/
def runEvents : Kernel → List Event → Option Kernel
  | s, [] => some s
  | s, e :: events => if e.Allowed s then runEvents (step s e) events else none

theorem Runs.of_runEvents {s t u : Kernel} {events : List Event}
    (h : Runs (fun _ _ ↦ True) s t) (hrun : runEvents t events = some u) :
    Runs (fun _ _ ↦ True) s u := by
  induction events generalizing t with
  | nil =>
    cases hrun
    exact h
  | cons e events ih =>
    rw [runEvents] at hrun
    split_ifs at hrun with ha
    exact ih (h.tail e ha trivial) hrun

/-- A list of events that can be run from boot to a state with a property reaches such a state. -/
theorem exists_reachable_of_runEvents {p : Kernel → Bool} (events : List Event)
    (h : (runEvents .init events).any p = true) : ∃ s, Reachable s ∧ p s = true := by
  cases hrun : runEvents .init events with
  | none => rw [hrun] at h; cases h
  | some s =>
    rw [hrun] at h
    exact ⟨s, Runs.refl.of_runEvents hrun, h⟩

end Mazu.Cap
