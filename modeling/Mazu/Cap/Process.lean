import Mazu.Cap.Kernel

/-!
# Delegation, revocation and the life of a process

`cap_transfer` and `cap_revoke_delegate`, the capability space at the birth and at the death of a
process, and the part of `kernel/proc/proc.c` that decides when these happen: allocation, exit with
reparenting, and the reaping of zombies.
-/

namespace Mazu.Cap

/-! ## The process table -/

/-- The processes in the order of the table. -/
def procOrder : List ProcIdx := List.finRange procMax

variable (s : Kernel) (p : ProcIdx)

def procFind (pid : U16) : Option ProcIdx :=
  procOrder.find? fun p ↦ (s.procTable p).state ≠ .free ∧ (s.procTable p).pid = pid

def procChildMatchesParent (child parent : ProcIdx) : Bool :=
  child ≠ parent && (s.procTable child).parentPid = (s.procTable parent).pid
    && (s.procTable child).parentGeneration = (s.procTable parent).generation

/-- The body of the scan: the candidate joins the list when it is the child of a member. -/
def collectCandidate (out : List ProcIdx) (candidate : ProcIdx) : List ProcIdx :=
  if out.length < procMax ∧ (s.procTable candidate).state ≠ .free
      ∧ (out.any fun p ↦ procChildMatchesParent s candidate p) ∧ candidate ∉ out then
    out ++ [candidate]
  else out

/-- One scan of the process table. -/
def collectScan (out : List ProcIdx) : List ProcIdx :=
  procOrder.foldl (collectCandidate s) out

/-- Scan until nothing is added or the list is full. -/
def collectLoop (s : Kernel) : ℕ → List ProcIdx → List ProcIdx
  | 0, out => out
  | fuel + 1, out =>
    if out.length < procMax then
      if (collectScan s out).length = out.length then out
      else collectLoop s fuel (collectScan s out)
    else out

/-- The processes that descend from `root` at the moment of the call. A scan that goes on adds a
process, so the table bounds the number of scans. -/
def procCollectDescendantsLocked (root : ProcIdx) (rootGeneration : U32) : List ProcIdx :=
  if (s.procTable root).state = .free ∨ (s.procTable root).generation ≠ rootGeneration then []
  else collectLoop s procMax [root]

/-! ## Transfer -/

def capTransfer (src : ProcIdx) (dstPid : U16) (token : U64) (newRights : U8) :
    Except Errno U64 × Kernel :=
  if newRights &&& capRightGrant ≠ 0 then (.error einval, s)
  else
    match procFind s dstPid with
    | none => (.error esrch, s)
    | some dst =>
      if dst = src then (.error einval, s)
      else
        match capValidateTokenLocked s src token with
        | none => (.error ebadf, s)
        | some i =>
          let v := s.slot src i
          if v.type ≠ CapType.fd.code then (.error einval, s)
          else if v.rights &&& capRightGrant = 0 then (.error eacces, s)
          else if newRights &&& v.rights ≠ newRights then (.error einval, s)
          else
            match capMintFdLocked s dst v.objectIndex (newRights &&& ~~~capRightGrant) v.typeMeta
                (-1) false true with
            | (.error e, s) => (.error (if e = emfile then enospc else e), s)
            | (.ok childFd, s) =>
              match delegateRecordAlloc s dst v.objectIndex v.type with
              | none => (.error enospc, (capDropSlotLocked s dst childFd).2)
              | some (recordIndex, s) =>
                match capReserveSlotLocked s src (-1) false false with
                | .error _ =>
                  (.error enospc, delegateRecordPut (capDropSlotLocked s dst childFd).2 recordIndex)
                | .ok delegateSlot =>
                  let s := capSlotSetDelegateEpoch s dst childFd
                    (s.delegatePool recordIndex).grantEpoch
                  let s := capSlotPublish s src delegateSlot (BitVec.ofNat 16 recordIndex) .delegate
                    capRightRead 0 (s.slot src delegateSlot).generation
                  (.ok (capMakeHandle (s.slot src delegateSlot)), s)

/-! ## Revocation -/

/-- What a revocation looks for: slots of the type, the object and the epoch of a record. -/
structure Grant where
  type : U8
  objectIndex : U16
  epoch : U64
deriving DecidableEq

def DelegateRecord.grant (r : DelegateRecord) : Grant := ⟨r.dstType, r.dstObjectIndex, r.grantEpoch⟩

/-- The slot is valid and belongs to the grant. -/
def Kernel.Matches (g : Grant) (p : ProcIdx) (i : SlotIdx) : Prop :=
  (s.slot p i).valid = true ∧ (s.slot p i).type = g.type
    ∧ (s.slot p i).objectIndex = g.objectIndex ∧ s.epoch p i = g.epoch

instance (s : Kernel) (g : Grant) (p : ProcIdx) (i : SlotIdx) : Decidable (s.Matches g p i) :=
  inferInstanceAs (Decidable (_ ∧ _ ∧ _ ∧ _))

/-- One slot of the scan, with the number revoked so far. -/
def revokeSlot (g : Grant) (target : ProcIdx) (acc : Kernel × ℕ) (i : SlotIdx) : Kernel × ℕ :=
  if acc.1.Matches g target i then (capSlotInvalidate acc.1 target i, acc.2 + 1) else acc

/-- The scan of one descendant, skipped when the process has been freed since the list was made. -/
def revokeTarget (g : Grant) (acc : Kernel × ℕ) (target : ProcIdx) : Kernel × ℕ :=
  if (acc.1.procTable target).state = .free then acc
  else (List.finRange capSpaceSlots).foldl (revokeSlot g target) acc

def revokePass (dst : ProcIdx) (dstGeneration : U32) (g : Grant) : Kernel × ℕ :=
  (procCollectDescendantsLocked s dst dstGeneration).foldl (revokeTarget g) (s, 0)

/-- Passes until one revokes nothing. Each pass but the last invalidates a slot. -/
def revokeLoop (dst : ProcIdx) (dstGeneration : U32) (g : Grant) : ℕ → Kernel × ℕ → Kernel × ℕ
  | 0, acc => acc
  | fuel + 1, acc =>
    let pass := revokePass acc.1 dst dstGeneration g
    if pass.2 = 0 then (pass.1, acc.2)
    else revokeLoop dst dstGeneration g fuel (pass.1, acc.2 + pass.2)

/-- The handle of the delegation is dropped, if the token still names it. -/
def revokeHandle (src : ProcIdx) (delegateToken : U64) : Kernel :=
  match capValidateTokenLocked s src delegateToken with
  | none => s
  | some i =>
    if (s.slot src i).type = CapType.delegate.code then (capDropSlotLocked s src i).2 else s

def capRevokeDelegateImpl (src : ProcIdx) (delegateToken : U64) : Except Errno Unit × Kernel :=
  match capValidateTokenLocked s src delegateToken with
  | none => (.error ebadf, s)
  | some i =>
    let v := s.slot src i
    let recordIndex := v.objectIndex.toNat
    let r := s.delegatePool recordIndex
    if v.type ≠ CapType.delegate.code ∨ capDelegateRecordMax ≤ recordIndex ∨ !r.inUse then
      (.error ebadf, s)
    else
      let s := s.setRecord recordIndex { r with refcount := r.refcount + 1 }
      match r.dstProc with
      | none => (.ok (), delegateRecordPut (capDropSlotLocked s src i).2 recordIndex)
      | some dst =>
        if (s.procTable dst).generation ≠ r.dstGeneration then
          (.ok (), delegateRecordPut (capDropSlotLocked s src i).2 recordIndex)
        else
          let (s, revoked) := revokeLoop dst r.dstGeneration r.grant
            (procMax * capSpaceSlots + 1) (s, 0)
          let s := revokeHandle s src delegateToken
          (.ok (), delegateRecordPut (capReleaseObject s r.dstType r.dstObjectIndex revoked)
            recordIndex)

/-! ## Birth and death of a capability space -/

/-- The slots of the process are cleared, as `memset` does. -/
def clearSpace : Kernel :=
  s.setSpace p { (s.capSpace p) with slots := fun _ ↦ 0, delegateEpoch := fun _ ↦ 0 }

/-- A new space has the three console descriptors. -/
def capSpaceInit : Kernel :=
  let s := clearSpace s p
  let s := (capOpenFd s p (capRightRead ||| capRightGrant) 0 true).2
  let s := (capOpenFd s p (capRightWrite ||| capRightGrant) 1 true).2
  (capOpenFd s p (capRightWrite ||| capRightGrant) 2 true).2

def teardownRevoke (s : Kernel) (i : SlotIdx) : Kernel :=
  if (s.slot p i).valid && (s.slot p i).type = CapType.delegate.code then
    (capRevokeDelegateImpl s p (capMakeHandle (s.slot p i))).2
  else s

def teardownDrop (s : Kernel) (i : SlotIdx) : Kernel :=
  if (s.slot p i).valid then (capDropSlotLocked s p i).2 else s

def capSpaceTeardown : Kernel :=
  let s := (List.finRange capSpaceSlots).foldl (teardownRevoke p) s
  (List.finRange capSpaceSlots).foldl (teardownDrop p) s

/-! ## Processes -/

def procFreeLocked : Kernel :=
  let s := capSpaceTeardown s p
  let pr := s.procTable p
  s.setProc p { pr with generation := pr.generation + 1, state := .free }

/-- The search for a process id that no process has, 0 when there is none. -/
def allocPidLoop (s : Kernel) : ℕ → U16 → U16 × U16
  | 0, next => (0, next)
  | fuel + 1, next =>
    let pid := if next = 0 then 1 else next
    if (procFind s pid).isSome then allocPidLoop s fuel (pid + 1) else (pid, pid + 1)

def procAllocPidLocked : U16 × U16 := allocPidLoop s 65535 s.nextPid

/-- The entry of a new process. Only the generation survives from the one before. -/
def enlist (pid nextPid : U16) : Kernel :=
  { s.setProc p
      { (s.procTable p) with
        state := .embryo, pid := pid, parentPid := 0, parentGeneration := 0, isExiting := false } with
    nextPid := nextPid }

/-- The process id and the generation that a child remembers of its parent. -/
def parentIds (parent : Option ProcIdx) : U16 × U32 :=
  (parent.map fun q ↦ ((s.procTable q).pid, (s.procTable q).generation)).getD (0, 0)

def setParent (ids : U16 × U32) : Kernel :=
  s.setProc p { (s.procTable p) with parentPid := ids.1, parentGeneration := ids.2 }

/-- A new process in the first free place of the table. `sys_spawn` makes it a child of the caller;
a process started by the kernel shell has no parent. -/
def procAlloc (parent : Option ProcIdx) : Option (ProcIdx × Kernel) :=
  match procOrder.find? fun p ↦ (s.procTable p).state = .free with
  | none => none
  | some p =>
    let (pid, nextPid) := procAllocPidLocked s
    if pid = 0 then none
    else some (p, setParent (capSpaceInit (enlist s p pid nextPid) p) p (parentIds s parent))

/-- What `proc_reparent_children` does with one entry of the table. -/
def reparentChild (parent : ProcIdx) (init : Option ProcIdx) (s : Kernel) (child : ProcIdx) :
    Kernel :=
  if (s.procTable child).state = .free ∨ !procChildMatchesParent s child parent then s
  else
    match init with
    | some i => setParent s child (1, (s.procTable i).generation)
    | none =>
      if (s.procTable child).state = .zombie then procFreeLocked s child
      else setParent s child (0, 0)

/-- Process 1, when it can still take children. -/
def liveInit : Option ProcIdx :=
  (procFind s 1).filter fun i ↦ (s.procTable i).state ≠ .zombie

def procReparentChildren (parent : ProcIdx) : Kernel :=
  procOrder.foldl (reparentChild parent (liveInit s)) s

/-- The timers that `p` created are freed, whoever still names them. -/
def posixTimerTeardownProc : Kernel :=
  { s with pools := Function.update s.pools .timer fun i ↦
      let e := s.pools .timer i
      if e.inUse ∧ e.owner = some p ∧ e.ownerGeneration = (s.procTable p).generation then .zero
      else e }

/-- The pools of `sync_handle.c`. -/
def Pool.isSync : Pool → Bool
  | mutex | condvar | semaphore | barrier | rwlock => true
  | fd | timer | mqueue => false

/-- The synchronisation objects that `p` created are marked as free. The reference count stays. -/
def syncHandleTeardownProc : Kernel :=
  { s with pools := fun pool i ↦
      let e := s.pools pool i
      if pool.isSync ∧ e.inUse ∧ e.owner = some p ∧ e.ownerGeneration = (s.procTable p).generation
      then { e with inUse := false, owner := none }
      else e }

/-- The process that is the parent of `p` and can still reap it. -/
def liveParent : Option ProcIdx :=
  procOrder.find? fun q ↦ (s.procTable q).state ≠ .free ∧ (s.procTable q).state ≠ .zombie
    ∧ (s.procTable q).pid = (s.procTable p).parentPid
    ∧ (s.procTable q).generation = (s.procTable p).parentGeneration

/-- The first part of an exit, after the guard against a second one: the timers and the
synchronisation objects that the process made are taken away, whatever still names them. -/
def repossess : Kernel :=
  let s := s.setProc p { (s.procTable p) with isExiting := true }
  syncHandleTeardownProc (posixTimerTeardownProc s p) p

def procExit : Kernel :=
  let pr := s.procTable p
  if pr.state = .zombie ∨ pr.state = .free ∨ pr.isExiting then s
  else
    let s := procReparentChildren (repossess s p) p
    let orphan := (liveParent s p).isNone
    let s := s.setProc p { (s.procTable p) with state := .zombie }
    if orphan then procFreeLocked s p else s

def hasZombieChildLocked (parent : ProcIdx) : Bool :=
  procOrder.any fun c ↦ (s.procTable c).state = .zombie && procChildMatchesParent s c parent

def hasAnyChildLocked (parent : ProcIdx) : Bool :=
  procOrder.any fun c ↦ (s.procTable c).state ≠ .free && procChildMatchesParent s c parent

/-- The wait condition of `proc_wait_child`. -/
def procChildWaitReady (parent : ProcIdx) : Bool :=
  hasZombieChildLocked s parent || !hasAnyChildLocked s parent

/-- `proc_wait_child` from the moment its wait condition holds. -/
def procWaitChild (parent : ProcIdx) : Except Errno U16 × Kernel :=
  if !hasZombieChildLocked s parent && !hasAnyChildLocked s parent then (.error echild, s)
  else
    match procOrder.find? fun c ↦
        (s.procTable c).state = .zombie ∧ (s.procTable c).parentPid = (s.procTable parent).pid with
    | some c => (.ok (s.procTable c).pid, procFreeLocked s c)
    | none => (.error echild, s)

end Mazu.Cap
