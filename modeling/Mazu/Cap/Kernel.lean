import Mazu.Cap.Word
import Mathlib.Logic.Function.Basic

/-!
# Capability spaces and object pools

The state behind `kernel/proc/cap.c`: the capability space of every process, the pools of the
objects that capabilities name with their reference counts, the records of outstanding delegations,
and the operations on one slot: reserve, publish, invalidate, drop, mint. Every operation runs under
the lock of the space it works on and is one function here.

Reference counts are natural numbers. They count slots and references held by running system calls,
so a `u32` never wraps.
-/

namespace Mazu.Cap

open Function

def esrch : Errno := 3
def ebadf : Errno := 9
def echild : Errno := 10
def eacces : Errno := 13
def enfile : Errno := 23
def emfile : Errno := 24
def enospc : Errno := 28

/-! ## State -/

/-- The slot count `CAP_SPACE_SLOTS`. -/
abbrev capSpaceSlots : ℕ := 128

abbrev procThreadMax : ℕ := 4

/-- The file descriptors are the slots below `PROC_FD_MAX`; the last four belong to threads. -/
def procFdMax : ℕ := capSpaceSlots - procThreadMax

abbrev procMax : ℕ := 16

def capFdPoolMax : ℕ := procMax * procFdMax

def capDelegateRecordMax : ℕ := 1024

abbrev SlotIdx := Fin capSpaceSlots

/-- A `struct proc *`: the place of a process in the process table. -/
abbrev ProcIdx := Fin procMax

/-- `struct cap_space`. The two counters are history: no code reads them. They count how often a
slot was published and how often it was invalidated. -/
structure CapSpace where
  slots : SlotIdx → U64
  delegateEpoch : SlotIdx → U64
  mints : SlotIdx → ℕ
  drops : SlotIdx → ℕ

inductive ProcState
  | free
  | embryo
  | running
  | sleeping
  | stopped
  | zombie
deriving DecidableEq, Repr

/-- What the capability code reads of a `struct proc`. The capability space is kept beside it. -/
structure Proc where
  state : ProcState
  pid : U16
  generation : U32
  parentPid : U16
  parentGeneration : U32
  isExiting : Bool

/-- The pools of objects that a capability slot holds a reference on. -/
inductive Pool
  | fd
  | timer
  | mutex
  | condvar
  | semaphore
  | barrier
  | rwlock
  | mqueue
deriving DecidableEq, Repr

def Pool.size : Pool → ℕ
  | fd => capFdPoolMax
  | timer => 8
  | mutex => 16
  | condvar => 16
  | semaphore => 16
  | barrier => 8
  | rwlock => 16
  | mqueue => 8

/-- The type a slot has that names an object of the pool. -/
def Pool.type : Pool → CapType
  | fd => .fd
  | timer => .timer
  | mutex => .mutex
  | condvar => .condvar
  | semaphore => .semaphore
  | barrier => .barrier
  | rwlock => .rwlock
  | mqueue => .mqueue

def Pool.all : List Pool :=
  [.fd, .timer, .mutex, .condvar, .semaphore, .barrier, .rwlock, .mqueue]

/-- The switch of `cap_release_object`: the pool behind a type, if it has one. -/
def Pool.ofCode (type : U8) : Option Pool := Pool.all.find? fun pool ↦ pool.type.code = type

/-- The bookkeeping part of a pool entry. Descriptors and queues have no use for the owner. -/
structure PoolEntry where
  inUse : Bool
  refcount : ℕ
  owner : Option ProcIdx
  ownerGeneration : U32
deriving DecidableEq

/-- An entry as `memset` leaves it. -/
def PoolEntry.zero : PoolEntry := ⟨false, 0, none, 0⟩

/-- A pool and an index in it. -/
abbrev Object := Pool × ℕ

structure DelegateRecord where
  inUse : Bool
  dstProc : Option ProcIdx
  dstGeneration : U32
  dstObjectIndex : U16
  dstType : U8
  grantEpoch : U64
  refcount : ℕ

def DelegateRecord.zero : DelegateRecord := ⟨false, none, 0, 0, 0, 0, 0⟩

/-- A `struct cap_ref` on the kernel stack of a thread: the reference that a system call of process
`holder` holds while it works on the object. The generation tells the process from later ones in the
same place of the table. -/
structure Pin where
  holder : ProcIdx
  generation : U32
  object : Object
deriving DecidableEq

structure Kernel where
  procTable : ProcIdx → Proc
  capSpace : ProcIdx → CapSpace
  pools : Pool → ℕ → PoolEntry
  delegatePool : ℕ → DelegateRecord
  nextGrantEpoch : U64
  nextPid : U16
  pins : List Pin

variable (s : Kernel) (p : ProcIdx)

namespace Kernel

def entry (o : Object) : PoolEntry := s.pools o.1 o.2

def setEntry (o : Object) (e : PoolEntry) : Kernel :=
  { s with pools := update s.pools o.1 (update (s.pools o.1) o.2 e) }

def setRecord (i : ℕ) (r : DelegateRecord) : Kernel :=
  { s with delegatePool := update s.delegatePool i r }

def setProc (pr : Proc) : Kernel :=
  { s with procTable := update s.procTable p pr }

def setSpace (sp : CapSpace) : Kernel :=
  { s with capSpace := update s.capSpace p sp }

/-- A slot of a process, unpacked. -/
def slot (i : SlotIdx) : CapSlotView :=
  capUnpackSlot ((s.capSpace p).slots i) (BitVec.ofNat 8 i)

def epoch (i : SlotIdx) : U64 := (s.capSpace p).delegateEpoch i

end Kernel

/-! ## Slots -/

def capSlotPublish (i : SlotIdx) (objectIndex : U16) (type : CapType) (rights : U8)
    (typeMeta : U16) (generation : U32) : Kernel :=
  let sp := s.capSpace p
  s.setSpace p { sp with
    slots := update sp.slots i
      (capPackSlot true objectIndex type.code rights typeMeta generation)
    delegateEpoch := update sp.delegateEpoch i 0
    mints := update sp.mints i (sp.mints i + 1) }

def capSlotSetDelegateEpoch (i : SlotIdx) (epoch : U64) : Kernel :=
  let sp := s.capSpace p
  s.setSpace p { sp with delegateEpoch := update sp.delegateEpoch i epoch }

/-- Revoke a slot: everything is cleared but the generation, which moves on. -/
def capSlotInvalidate (i : SlotIdx) : Kernel :=
  let sp := s.capSpace p
  s.setSpace p { sp with
    slots := update sp.slots i
      (capPackSlot false 0 0 0 0 (capNextGeneration (s.slot p i).generation))
    delegateEpoch := update sp.delegateEpoch i 0
    drops := update sp.drops i (sp.drops i + 1) }

def capSlotIsThreadReserved (i : SlotIdx) : Bool := procFdMax ≤ i.val

def capFindFreeSlotLocked (allowThreadReserved : Bool) : Option SlotIdx :=
  (List.finRange capSpaceSlots).find? fun i ↦
    (allowThreadReserved || !capSlotIsThreadReserved i) && !(s.slot p i).valid

/-- The slot of a handle that user space passed in, if it is in range. -/
def slotOf (handle : ℤ) : Option SlotIdx :=
  if h : 0 ≤ handle ∧ handle.toNat < capSpaceSlots then some ⟨handle.toNat, h.2⟩ else none

/-- The slot of a number that must be a file descriptor. -/
def fdOf (fd : ℤ) : Option SlotIdx :=
  if 0 ≤ fd ∧ fd < procFdMax then slotOf fd else none

def capReserveSlotLocked (slotHint : ℤ) (exactTarget allowThreadReserved : Bool)
    : Except Errno SlotIdx :=
  let freeSlot : Except Errno SlotIdx :=
    match capFindFreeSlotLocked s p allowThreadReserved with
    | some i => .ok i
    | none => .error enospc
  if slotHint < 0 then freeSlot
  else
    match slotOf slotHint with
    | none => .error ebadf
    | some i =>
      if !allowThreadReserved && capSlotIsThreadReserved i then .error ebadf
      else if !(s.slot p i).valid || exactTarget then .ok i
      else freeSlot

/-! ## Object pools -/

/-- The entry that the search for a free one finds, marked as used with one reference. -/
def poolAlloc (pool : Pool) (owner : Option ProcIdx) : Option (ℕ × Kernel) :=
  ((List.range pool.size).find? fun i ↦ !(s.entry (pool, i)).inUse).map fun i ↦
    (i, s.setEntry (pool, i) ⟨true, 1, owner, (owner.map (s.procTable · |>.generation)).getD 0⟩)

/-- The decrement of `cap_release_object` on a descriptor. It does not look at `in_use`; the last
reference disposes of the entry. -/
def capFdPut (i : ℕ) : Kernel :=
  if i < Pool.fd.size then
    let e := s.entry (.fd, i)
    if e.refcount - 1 = 0 then s.setEntry (.fd, i) .zero
    else s.setEntry (.fd, i) { e with refcount := e.refcount - 1 }
  else s

def posixTimerPutIdx (i : ℕ) : Kernel :=
  if i < Pool.timer.size then
    let e := s.entry (.timer, i)
    if !e.inUse then s
    else if e.refcount - 1 = 0 then s.setEntry (.timer, i) .zero
    else s.setEntry (.timer, i) { e with refcount := e.refcount - 1 }
  else s

/-- The functions `sync_*_put_idx` that `SYNC_POOL_DEFINE` writes, one for each pool. -/
def syncPutIdx (pool : Pool) (i : ℕ) : Kernel :=
  if i < pool.size then
    let e := s.entry (pool, i)
    if !e.inUse then s
    else if e.refcount ≤ 1 then
      s.setEntry (pool, i) { e with inUse := false, refcount := 0, owner := none }
    else s.setEntry (pool, i) { e with refcount := e.refcount - 1 }
  else s

/-- The bookkeeping of `mqueue_destroy_locked`. -/
def mqueueDestroyLocked (i : ℕ) : Kernel :=
  s.setEntry (.mqueue, i) { s.entry (.mqueue, i) with inUse := false, refcount := 0 }

def mqueuePutIdx (i : ℕ) : Kernel :=
  if i < Pool.mqueue.size then
    let e := s.entry (.mqueue, i)
    if !e.inUse then s
    else if e.refcount > 1 then s.setEntry (.mqueue, i) { e with refcount := e.refcount - 1 }
    else mqueueDestroyLocked s i
  else s

def mqueueClose (i : ℕ) : Kernel :=
  if i < Pool.mqueue.size ∧ (s.entry (.mqueue, i)).inUse then mqueueDestroyLocked s i else s

/-- One reference on an object of a pool is given back. -/
def poolPut : Object → Kernel
  | (.fd, i) => capFdPut s i
  | (.timer, i) => posixTimerPutIdx s i
  | (.mqueue, i) => mqueuePutIdx s i
  | (pool, i) => syncPutIdx s pool i

/-- The reference a pin takes. An entry that is torn down gives none. -/
def poolInc (o : Object) : Option Kernel :=
  let e := s.entry o
  if o.2 < o.1.size ∧ e.inUse then some (s.setEntry o { e with refcount := e.refcount + 1 })
  else none

def capReleaseObject (type : U8) (objectIndex : U16) (count : ℕ) : Kernel :=
  match Pool.ofCode type with
  | none => s
  | some pool => (fun s ↦ poolPut s (pool, objectIndex.toNat))^[count] s

/-! ## Records of delegations -/

def delegateRecordAlloc (dst : ProcIdx) (dstObjectIndex : U16) (dstType : U8) :
    Option (ℕ × Kernel) :=
  ((List.range capDelegateRecordMax).find? fun i ↦ !(s.delegatePool i).inUse).map fun i ↦
    (i, { s.setRecord i ⟨true, some dst, (s.procTable dst).generation, dstObjectIndex, dstType,
            s.nextGrantEpoch, 1⟩ with
          nextGrantEpoch := s.nextGrantEpoch + 1 })

def delegateRecordPut (i : ℕ) : Kernel :=
  let r := s.delegatePool i
  if i < capDelegateRecordMax ∧ r.inUse then
    if r.refcount - 1 = 0 then s.setRecord i .zero
    else s.setRecord i { r with refcount := r.refcount - 1 }
  else s

/-! ## Dropping, minting and opening -/

/-- Drop a slot. Every caller passes the view it has just read under the lock, so the view is read
here. -/
def capDropSlotLocked (i : SlotIdx) : Except Errno Unit × Kernel :=
  let v := s.slot p i
  if !v.valid then (.error ebadf, s)
  else
    let s := capSlotInvalidate s p i
    if v.type = CapType.delegate.code then (.ok (), delegateRecordPut s v.objectIndex.toNat)
    else (.ok (), capReleaseObject s v.type v.objectIndex 1)

def capMintFdLocked (objectIndex : U16) (rights : U8) (typeMeta : U16) (slotHint : ℤ)
    (exactTarget bumpRef : Bool) : Except Errno SlotIdx × Kernel :=
  let release (s : Kernel) : Kernel :=
    if bumpRef then capReleaseObject s CapType.fd.code objectIndex 1 else s
  match (if bumpRef then poolInc s (.fd, objectIndex.toNat) else some s) with
  | none => (.error ebadf, s)
  | some s =>
    match capReserveSlotLocked s p slotHint exactTarget false with
    | .error e => (.error (if e = enospc then emfile else e), release s)
    | .ok i =>
      match (if exactTarget && (s.slot p i).valid then capDropSlotLocked s p i else (.ok (), s)) with
      | (.error e, s) => (.error e, release s)
      | (.ok (), s) =>
        (.ok i, capSlotPublish s p i objectIndex .fd rights typeMeta (s.slot p i).generation)

/-- What `cap_open_vfs`, `cap_open_pipe` and `cap_open_console` do; they differ in what they store in
the new entry. -/
def capOpenFd (rights : U8) (slotHint : ℤ) (exactTarget : Bool) : Except Errno SlotIdx × Kernel :=
  match poolAlloc s .fd none with
  | none => (.error enfile, s)
  | some (objectIndex, s) =>
    match capMintFdLocked s p (BitVec.ofNat 16 objectIndex) rights 0 slotHint exactTarget false with
    | (.error e, s) => (.error e, capFdPut s objectIndex)
    | (.ok i, s) => (.ok i, s)

def capOpenHandle (objectIndex : U16) (type : CapType) (rights : U8) (slotHint : ℤ)
    (exactTarget : Bool) : Except Errno SlotIdx × Kernel :=
  match capReserveSlotLocked s p slotHint exactTarget (type = .thread) with
  | .error e => (.error (if e = enospc then emfile else e), s)
  | .ok i =>
    let s := if exactTarget && (s.slot p i).valid then (capDropSlotLocked s p i).2 else s
    (.ok i, capSlotPublish s p i objectIndex type rights 0 (s.slot p i).generation)

/-- The rights the system calls give to a new handle. -/
def Pool.openRights : Pool → U8
  | timer => capRightRead ||| capRightWrite
  | mqueue => capRightRead ||| capRightWrite
  | _ => capRightWrite

/-- The system calls that make an object and a handle for it: `timer_create`, the `init` calls of the
synchronisation objects and `mq_open`, with arguments that pass their checks. Without a free slot
the object is given up again. -/
def sysObjectOpen (pool : Pool) : Except Errno SlotIdx × Kernel :=
  match poolAlloc s pool (some p) with
  | none => (.error eagain, s)
  | some (i, s) =>
    match capOpenHandle s p (BitVec.ofNat 16 i) pool.type pool.openRights (-1) false with
    | (.error e, s) => (.error e, if pool = .mqueue then mqueueClose s i else poolPut s (pool, i))
    | (.ok handle, s) => (.ok handle, s)

/-! ## Tokens and lookups -/

/-- Check a token against the live slot it names. -/
def capValidateTokenLocked (token : U64) : Option SlotIdx :=
  match slotOf (tokenSlot token).toNat with
  | none => none
  | some i => if (s.slot p i).Accepts token then some i else none

def capGetToken (slotIdx : ℤ) (expectedType : U8) : Except Errno U64 :=
  match slotOf slotIdx with
  | none => .error ebadf
  | some i =>
    if !(s.slot p i).valid then .error ebadf
    else if (s.slot p i).type ≠ expectedType then .error einval
    else .ok (capMakeHandle (s.slot p i))

def capDropToken (token : U64) : Except Errno Unit × Kernel :=
  match capValidateTokenLocked s p token with
  | none => (.error ebadf, s)
  | some i => capDropSlotLocked s p i

def capCloseFd (fd : ℤ) : Except Errno Unit × Kernel :=
  match slotOf fd with
  | none => (.error ebadf, s)
  | some i =>
    if !(s.slot p i).valid || (s.slot p i).type ≠ CapType.fd.code then (.error ebadf, s)
    else capDropSlotLocked s p i

/-- The lookups that pin an object: `cap_lookup_fd`, `cap_lookup_timer` and `cap_lookup_object`. The
reference goes to a system call of a thread of `p`. -/
def capLookup (handle : ℤ) (requiredRights : U8) (pool : Pool) : Option Kernel :=
  match slotOf handle with
  | none => none
  | some i =>
    let v := s.slot p i
    if !v.valid || v.type ≠ pool.type.code || v.rights &&& requiredRights ≠ requiredRights then none
    else
      (poolInc s (pool, v.objectIndex.toNat)).map fun s ↦
        { s with pins :=
            ⟨p, (s.procTable p).generation, (pool, v.objectIndex.toNat)⟩ :: s.pins }

def capPutRef (pin : Pin) : Kernel :=
  { poolPut s pin.object with pins := s.pins.erase pin }

/-! ## Copying descriptors -/

def capDupFd (oldfd newfdHint : ℤ) (exactTarget : Bool) : Except Errno SlotIdx × Kernel :=
  match fdOf oldfd with
  | none => (.error ebadf, s)
  | some old =>
    if exactTarget && (fdOf newfdHint).isNone then (.error ebadf, s)
    else
      let v := s.slot p old
      if !v.valid || v.type ≠ CapType.fd.code then (.error ebadf, s)
      else if exactTarget && newfdHint = oldfd then (.ok old, s)
      else
        match capMintFdLocked s p v.objectIndex v.rights (v.typeMeta &&& ~~~capFdMetaCloexec)
            newfdHint exactTarget true with
        | (.error e, s) => (.error e, s)
        | (.ok fd, s) => (.ok fd, capSlotSetDelegateEpoch s p fd (s.epoch p old))

def capInheritFd (src dst : ProcIdx) (srcFd dstFd : ℤ) : Except Errno SlotIdx × Kernel :=
  match fdOf srcFd, fdOf dstFd with
  | some i, some _ =>
    if src = dst then capDupFd s src srcFd dstFd true
    else
      let v := s.slot src i
      if !v.valid || v.type ≠ CapType.fd.code then (.error ebadf, s)
      else
        match capMintFdLocked s dst v.objectIndex v.rights v.typeMeta dstFd true true with
        | (.error e, s) => (.error e, s)
        | (.ok fd, s) => (.ok fd, capSlotSetDelegateEpoch s dst fd (s.epoch src i))
  | _, _ => (.error ebadf, s)

end Mazu.Cap
