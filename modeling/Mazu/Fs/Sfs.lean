import Mazu.Fs.Blocks

/-!
# The simple file system

Sector 0 is the superblock; then come the bitmap, one bit for each sector, the directory table with
eight entries of 64 bytes in a sector, and the data. A file is a contiguous run of sectors. The
operations are programs over cached blocks; the superblock that the mount keeps in memory is passed
along. A file handle is the index of a directory entry.

Bytes are numbered from 0 in a sector and in an entry. The numbers of bitmap and directory sectors
are taken not to wrap; sizes, extents and the count of free sectors are 32-bit words as in the code.
-/

namespace Mazu.Fs.Sfs

abbrev Sector := ℕ → UInt8

abbrev Entry := ℕ → UInt8

abbrev Io := Prog Sector

/-- The error numbers of the file systems. -/
inductive Errno
  | eio
  | eisdir
  | enoent
  | eexist
  | enametoolong
  | enospc
  | enotdir
  | enotempty
  | einval
  | erofs
  | enomem
  deriving DecidableEq

def u32 (x : ℕ) : ℕ := x % 2 ^ 32

/-- `SFS_MAX_DIRENTS`, which also stands for an entry that was not found. -/
def maxDirents : ℕ := 256

/-! ## On the device -/

def le32 (d : ℕ → UInt8) (o : ℕ) : ℕ :=
  (d o).toNat + 256 * (d (o + 1)).toNat + 65536 * (d (o + 2)).toNat + 16777216 * (d (o + 3)).toNat

def putLe32 (d : ℕ → UInt8) (o v : ℕ) : ℕ → UInt8 :=
  fun b ↦ if o ≤ b ∧ b < o + 4 then UInt8.ofNat (v / 256 ^ (b - o)) else d b

/-- `struct sfs_super`. -/
structure Super where
  magic : ℕ
  version : ℕ
  totalSectors : ℕ
  bitmapStart : ℕ
  bitmapSectors : ℕ
  dirStart : ℕ
  dirSectors : ℕ
  dataStart : ℕ
  nDirents : ℕ
  freeSectors : ℕ
  reserved : Sector

def Super.ofSector (d : Sector) : Super where
  magic := le32 d 0
  version := le32 d 4
  totalSectors := le32 d 8
  bitmapStart := le32 d 12
  bitmapSectors := le32 d 16
  dirStart := le32 d 20
  dirSectors := le32 d 24
  dataStart := le32 d 28
  nDirents := le32 d 32
  freeSectors := le32 d 36
  reserved := d

variable (su : Super)

def Super.words : List ℕ :=
  [su.magic, su.version, su.totalSectors, su.bitmapStart, su.bitmapSectors, su.dirStart,
    su.dirSectors, su.dataStart, su.nDirents, su.freeSectors]

def Super.toSector : Sector := fun b ↦
  if b < 40 then UInt8.ofNat (su.words.getD (b / 4) 0 / 256 ^ (b % 4)) else su.reserved b

namespace Entry

variable (e : Entry)

/-- The name up to its end, `sfs_namelen`. -/
def name : List UInt8 := ((List.range 48).map e).takeWhile (· ≠ 0)

def size : ℕ := le32 e 48

def startSector : ℕ := le32 e 52

def type : UInt8 := e 56

def parentIdx : ℕ := (e 58).toNat + 256 * (e 59).toNat

end Entry

/-- `SFS_TYPE_FREE`, `SFS_TYPE_FILE` and `SFS_TYPE_DIR`. -/
def typeFree : UInt8 := 0

@[inherit_doc typeFree] def typeFile : UInt8 := 1

@[inherit_doc typeFree] def typeDir : UInt8 := 2

/-- The entry that a creation fills in. -/
def newEntry (name : List UInt8) (type : UInt8) (parent : ℕ) : Entry := fun b ↦
  if b < 48 then name.getD b 0
  else if b = 56 then type
  else if b = 58 then UInt8.ofNat parent
  else if b = 59 then UInt8.ofNat (parent / 256)
  else 0

/-! ## The bitmap -/

def getBit (b : UInt8) (i : ℕ) : Bool := b.toNat.testBit i

def putBit (b : UInt8) (i : ℕ) (v : Bool) : UInt8 :=
  UInt8.ofNat (if v then b.toNat ||| 2 ^ i else b.toNat &&& (255 ^^^ 2 ^ i))

/-- The sector of the bitmap and the byte in it that hold the bit of a sector. -/
def Super.bitmapSector (s : ℕ) : ℕ := su.bitmapStart + s / 4096

def bitmapByte (s : ℕ) : ℕ := s % 4096 / 8

def setSectorBit (s : ℕ) (v : Bool) (d : Sector) : Sector :=
  Function.update d (bitmapByte s) (putBit (d (bitmapByte s)) (s % 8) v)

/-- A sector whose bit cannot be read counts as taken. -/
def bitmapGet (s : ℕ) : Io Bool :=
  .read (su.bitmapSector s) fun
    | none => .ret true
    | some d => .release (su.bitmapSector s) (.ret (getBit (d (bitmapByte s)) (s % 8)))

def bitmapSet (s : ℕ) (v : Bool) : Io Unit :=
  .read (su.bitmapSector s) fun
    | none => .ret ()
    | some _ => .update (su.bitmapSector s) (setSectorBit s v) .dirtyMeta
      (.release (su.bitmapSector s) (.ret ()))

/-- The bits of `k` sectors, one after the other. -/
def bitmapMark (v : Bool) : ℕ → ℕ → Io Unit
  | 0, _ => pure ()
  | k + 1, s => do
    bitmapSet su s v
    bitmapMark v k (s + 1)

/-- How many sectors a 32-bit loop from `start` up to `start + count` visits. -/
def span (start count : ℕ) : ℕ := u32 (start + count) - start

/-- The first run of `count` free sectors among the next `k`. -/
def bitmapScan (count : ℕ) : ℕ → ℕ → ℕ → ℕ → Io (Option ℕ)
  | 0, _, _, _ => pure none
  | k + 1, s, runStart, runLen => do
    if ← bitmapGet su s then bitmapScan count k (s + 1) runStart 0
    else
      let runStart := if runLen = 0 then s else runStart
      if runLen + 1 = count then pure (some runStart)
      else bitmapScan count k (s + 1) runStart (runLen + 1)

def bitmapAlloc (count : ℕ) : Io (ℕ × Super) := do
  match ← bitmapScan su count (su.totalSectors - su.dataStart) su.dataStart su.dataStart 0 with
  | none => pure (0, su)
  | some start =>
    bitmapMark su true (span start count) start
    pure (start, { su with freeSectors := u32 (su.freeSectors + 2 ^ 32 - count) })

def bitmapFree (start count : ℕ) : Io Super := do
  bitmapMark su false (span start count) start
  pure { su with freeSectors := u32 (su.freeSectors + span start count) }

/-! ## The directory table -/

def Super.direntSector (idx : ℕ) : ℕ := su.dirStart + idx / 8

def entryOf (d : Sector) (idx : ℕ) : Entry := fun b ↦ d (64 * (idx % 8) + b % 64)

def setEntry (idx : ℕ) (f : Entry → Entry) (d : Sector) : Sector := fun b ↦
  if b / 64 = idx % 8 then f (entryOf d idx) (b % 64) else d b

/-- `sfs_read_dirent`; the sector is held. -/
def readDirent (idx : ℕ) : Io (Option Entry) :=
  .read (su.direntSector idx) fun r ↦ .ret (r.map (entryOf · idx))

def releaseDirent (idx : ℕ) : Io Unit := .release (su.direntSector idx) (.ret ())

/-- A held entry is changed and released. -/
def writeDirent (idx : ℕ) (f : Entry → Entry) : Io Unit :=
  .update (su.direntSector idx) (setEntry idx f) .dirtyMeta (releaseDirent su idx)

/-- The first of the next `k` entries with a property. -/
def findDirent (P : ℕ → Entry → Bool) : ℕ → ℕ → Io ℕ
  | 0, _ => pure maxDirents
  | k + 1, i => do
    match ← readDirent su i with
    | none => findDirent P k (i + 1)
    | some e =>
      releaseDirent su i
      if P i e then pure i else findDirent P k (i + 1)

/-- `sfs_alloc_dirent`. -/
def allocDirent : Io ℕ := findDirent su (fun _ e ↦ e.type = typeFree) su.nDirents 0

/-! ## Paths -/

/-- What the loops of `sfs_lookup` take off a path, one component at a time. -/
def components : List UInt8 → List (List UInt8)
  | [] => []
  | b :: p =>
    if b = 47 then [] :: components p
    else match components p with
      | [] => [[b]]
      | c :: cs => (b :: c) :: cs

def stripLeading (p : List UInt8) : List UInt8 := if p.head? = some 47 then p.tail else p

def stripTrailing (p : List UInt8) : List UInt8 := if p.getLast? = some 47 then p.dropLast else p

def walk (P : UInt8 → Bool) : List (List UInt8) → ℕ → Io ℕ
  | [], parent => pure parent
  | c :: cs, parent => do
    let found ← findDirent su (fun i e ↦ i ≠ maxDirents ∧ P e.type ∧ e.parentIdx = parent ∧
      e.name = c) su.nDirents 0
    if found = maxDirents then pure maxDirents else walk P cs (found % 65536)

variable (path : List UInt8)

/-- `sfs_lookup`. -/
def lookup : Io ℕ :=
  if stripLeading path = [] then pure 0
  else walk su (· ≠ typeFree) (components (stripTrailing (stripLeading path))) 0

/-- The part of a path after its last slash. -/
def baseName (p : List UInt8) : List UInt8 := (p.reverse.takeWhile (· ≠ 47)).reverse

/-- `sfs_lookup_parent`. -/
def lookupParent : Io (ℕ × List UInt8) := do
  let p := stripTrailing (stripLeading path)
  if 47 ∉ p then pure (0, p)
  else
    let dir ← walk su (· = typeDir) (components (p.take (p.length - (baseName p).length - 1))) 0
    pure (dir, baseName p)

/-! ## Format, mount and check -/

def writeSuper : Io (Except Errno Unit) :=
  .read 0 fun
    | none => .ret (.error .eio)
    | some _ => .update 0 (fun _ ↦ su.toSector) .dirtyMeta (.release 0 (.ret (.ok ())))

/-- The sectors are filled with zeros. -/
def zeroSectors : ℕ → ℕ → Io Bool
  | 0, _ => pure true
  | k + 1, s => .read s fun
    | none => .ret false
    | some _ => .update s (fun _ _ ↦ 0) .dirtyMeta (.release s (zeroSectors k (s + 1)))

def formatSuper (total : ℕ) : Super where
  magic := 0x5346534D
  version := 1
  totalSectors := total
  bitmapStart := 1
  bitmapSectors := u32 (total + 4095) / 4096
  dirStart := 1 + u32 (total + 4095) / 4096
  dirSectors := 32
  dataStart := 1 + u32 (total + 4095) / 4096 + 32
  nDirents := maxDirents
  freeSectors := u32 (total + 2 ^ 32 - (1 + u32 (total + 4095) / 4096 + 32))
  reserved := fun _ ↦ 0

def format (total : ℕ) : Io (Except Errno Unit) := do
  let su := formatSuper total
  match ← writeSuper su with
  | .error e => pure (.error e)
  | .ok _ =>
    if ← zeroSectors su.bitmapSectors su.bitmapStart then
      bitmapMark su true su.dataStart 0
      if ← zeroSectors su.dirSectors su.dirStart then
        match ← readDirent su 0 with
        | none => pure (.error .eio)
        | some _ =>
          writeDirent su 0 fun _ ↦ newEntry [47] typeDir 0xFFFF
          .sync fun ok ↦ .ret (if ok then .ok () else .error .eio)
      else pure (.error .eio)
    else pure (.error .eio)

def mount : Io (Except Errno Super) :=
  .read 0 fun
    | none => .ret (.error .eio)
    | some d => .release 0 (.ret
      (if le32 d 0 = 0x5346534D ∧ le32 d 4 = 1 then .ok (.ofSector d) else .error .einval))

/-- The number of sectors that hold so many bytes, in 32 bits. -/
def nsectors (size : ℕ) : ℕ := u32 (size + 511) / 512

def allMarked : ℕ → ℕ → Io Bool
  | 0, _ => pure true
  | k + 1, s => do if ← bitmapGet su s then allMarked k (s + 1) else pure false

/-- The sectors of an entry are marked if it is a file. -/
def entryMarked (e : Entry) : Io Bool :=
  if e.type = typeFile ∧ 0 < e.size then
    allMarked su (span e.startSector (nsectors e.size)) e.startSector
  else pure true

def fsckFrom : ℕ → ℕ → Io (Except Errno Unit)
  | 0, _ => pure (.ok ())
  | k + 1, i => do
    match ← readDirent su i with
    | none => fsckFrom k (i + 1)
    | some e =>
      let ok ← entryMarked su e
      releaseDirent su i
      if ok then fsckFrom k (i + 1) else pure (.error .eio)

/-- `sfs_fsck`. -/
def fsck : Io (Except Errno Unit) := fsckFrom su su.nDirents 0

/-! ## Files -/

/-- The loop that reads `cnt` bytes from `off`; each pass takes one byte or more. -/
def readData (start : ℕ) : ℕ → ℕ → ℕ → Io (Option (List UInt8))
  | 0, _, _ => pure (some [])
  | k + 1, cnt, off =>
    if cnt = 0 then pure (some [])
    else .read (u32 (start + u32 (off / 512))) fun
      | none => .ret none
      | some d => .release (u32 (start + u32 (off / 512))) do
        let chunk := min (512 - off % 512) cnt
        let rest ← readData start k (cnt - chunk) (off + chunk)
        pure (rest.map fun l ↦ (List.range chunk).map (fun b ↦ d (off % 512 + b)) ++ l)

def read (idx cap off : ℕ) : Io (Except Errno (List UInt8)) := do
  match ← readDirent su idx with
  | none => pure (.error .eio)
  | some e =>
    releaseDirent su idx
    if e.type = typeDir then pure (.error .eisdir)
    else if e.size ≤ off then pure (.ok [])
    else
      let cnt := min (e.size - off) cap
      match ← readData e.startSector cnt cnt off with
      | none => pure (.error .eio)
      | some l => pure (.ok l)

/-- Bytes of a sector from `o` on are replaced. -/
def patch (o : ℕ) (l : List UInt8) (d : Sector) : Sector := fun b ↦
  if o ≤ b ∧ b < o + l.length then l.getD (b - o) 0 else d b

/-- The loop that writes the bytes from `off` on. -/
def writeData (start : ℕ) : ℕ → List UInt8 → ℕ → Io Bool
  | 0, _, _ => pure true
  | k + 1, l, off =>
    if l = [] then pure true
    else .read (u32 (start + u32 (off / 512))) fun
      | none => .ret false
      | some _ => .update (u32 (start + u32 (off / 512)))
        (patch (off % 512) (l.take (512 - off % 512))) .dirty
        (.release (u32 (start + u32 (off / 512)))
          (writeData start k (l.drop (512 - off % 512)) (off + (512 - off % 512))))

def releaseIf {α : Type} (r : Option Sector) (s : ℕ) (p : Io α) : Io α :=
  if r.isSome then .release s p else p

def copyTo {α : Type} (t : ℕ) (p : Io α) : Option Sector → Option Sector → Io α
  | some d, some _ => .update t (fun _ ↦ d) .dirty p
  | _, _ => p

/-- The contents of `k` sectors are copied; a sector that cannot be read is skipped. -/
def copySectors : ℕ → ℕ → ℕ → Io Unit
  | 0, _, _ => pure ()
  | k + 1, s, t => .read (u32 s) fun old ↦ .read (u32 t) fun new ↦
    copyTo (u32 t)
      (releaseIf old (u32 s) (releaseIf new (u32 t) (copySectors k (s + 1) (t + 1)))) old new

def writeSuperIf (changed : Bool) : Io Unit :=
  if changed then writeSuper su >>= fun _ ↦ pure () else pure ()

/-- The end of a write: the entry, the superblock if the number of sectors changed, and the data. -/
def writeFile (idx : ℕ) (f : Entry → Entry) (changed : Bool) (start : ℕ) (data : List UInt8)
    (off : ℕ) : Io (Except Errno ℕ) := do
  writeDirent su idx f
  writeSuperIf su changed
  if ← writeData start data.length data off then .sync fun _ ↦ .ret (.ok data.length)
  else pure (.error .eio)

def setSize (size : ℕ) (e : Entry) : Entry := putLe32 e 48 (u32 size)

def setStart (start : ℕ) (e : Entry) : Entry := putLe32 e 52 start

def write (idx : ℕ) (data : List UInt8) (off : ℕ) : Io (Except Errno ℕ × Super) := do
  match ← readDirent su idx with
  | none => pure (.error .eio, su)
  | some e =>
    if e.type = typeDir then
      releaseDirent su idx
      pure (.error .eisdir, su)
    else
      let size := max (off + data.length) e.size
      let old := nsectors e.size
      let new := nsectors size
      if old < new then
        let su ← bitmapFree su e.startSector old
        let (start, su) ← bitmapAlloc su new
        if start = 0 then
          bitmapMark su true (span e.startSector old) e.startSector
          releaseDirent su idx
          pure (.error .enospc, su)
        else
          copySectors old e.startSector start
          let r ← writeFile su idx (setSize size ∘ setStart start) true start data off
          pure (r, su)
      else
        let r ← writeFile su idx (setSize size) (new ≠ old) e.startSector data off
        pure (r, su)

/-! ## Names -/

/-- `sfs_vfs_create` and `sfs_vfs_mkdir`. -/
def createEntry (type : UInt8) (path : List UInt8) : Io (Except Errno Unit) := do
  if (← lookup su path) ≠ maxDirents then pure (.error .eexist)
  else
    let (parent, name) ← lookupParent su path
    if parent = maxDirents then pure (.error .enoent)
    else if name.length = 0 ∨ 47 < name.length then pure (.error .enametoolong)
    else
      let slot ← allocDirent su
      if slot = maxDirents then pure (.error .enospc)
      else
        match ← readDirent su slot with
        | none => pure (.error .eio)
        | some _ =>
          writeDirent su slot fun _ ↦ newEntry name type parent
          .sync fun _ ↦ .ret (.ok ())

def create : Io (Except Errno Unit) := createEntry su typeFile path

def mkdir : Io (Except Errno Unit) := createEntry su typeDir path

def setFree (e : Entry) : Entry := Function.update e 56 typeFree

/-- The sectors of a file that is removed. -/
def freeExtent (e : Entry) : Io Super :=
  if 0 < e.size then bitmapFree su e.startSector (nsectors e.size) else pure su

def unlink : Io (Except Errno Unit × Super) := do
  let idx ← lookup su path
  if idx = maxDirents then pure (.error .enoent, su)
  else
    match ← readDirent su idx with
    | none => pure (.error .eio, su)
    | some e =>
      if e.type = typeDir then
        releaseDirent su idx
        pure (.error .eisdir, su)
      else
        let su ← freeExtent su e
        writeDirent su idx setFree
        let _ ← writeSuper su
        .sync fun _ ↦ .ret (.ok (), su)

def rmdir : Io (Except Errno Unit) := do
  let idx ← lookup su path
  if idx = maxDirents ∨ idx = 0 then pure (.error .enoent)
  else
    match ← readDirent su idx with
    | none => pure (.error .eio)
    | some e =>
      releaseDirent su idx
      if e.type ≠ typeDir then pure (.error .enotdir)
      else
        let child ← findDirent su (fun i c ↦ i ≠ maxDirents ∧ c.type ≠ typeFree ∧
          c.parentIdx = idx % 65536) su.nDirents 0
        if child ≠ maxDirents then pure (.error .enotempty)
        else
          match ← readDirent su idx with
          | none => pure (.error .eio)
          | some _ =>
            writeDirent su idx setFree
            .sync fun _ ↦ .ret (.ok ())

/-! ## Operations -/

/-- The operations, a file named by its handle. -/
inductive Op
  | create (path : List UInt8)
  | mkdir (path : List UInt8)
  | unlink (path : List UInt8)
  | rmdir (path : List UInt8)
  | write (idx : ℕ) (data : List UInt8) (off : ℕ)
  | read (idx cap off : ℕ)

/-- The superblock that an operation leaves in memory. -/
def Op.prog : Op → Io Super
  | .create path => do
    let _ ← Sfs.create su path
    pure su
  | .mkdir path => do
    let _ ← Sfs.mkdir su path
    pure su
  | .unlink path => do
    let r ← Sfs.unlink su path
    pure r.2
  | .rmdir path => do
    let _ ← Sfs.rmdir su path
    pure su
  | .write idx data off => do
    let r ← Sfs.write su idx data off
    pure r.2
  | .read idx cap off => do
    let _ ← Sfs.read su idx cap off
    pure su

end Mazu.Fs.Sfs
