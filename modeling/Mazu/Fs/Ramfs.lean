import Mazu.Fs.Sfs

/-!
# The file system in memory

Nodes come from a pool that hands out the block that was freed last. A directory lists its nodes in
the order of the sibling links. A file handle is the node itself, and closing it does nothing.

The file data are a list in the node, since a buffer belongs to one node as long as the node is in
use. Allocations of names and data fail as the list of faults says. Which creation made a node is
there for the specification only.
-/

namespace Mazu.Fs.Ramfs

/-- `struct ram_fs_node`. -/
structure Node where
  name : List UInt8
  isDir : Bool
  readonly : Bool
  children : List ℕ
  data : List UInt8
  cap : ℕ
  made : ℕ

/-- `struct ram_fs`; `free` is the free list of the node pool. -/
structure RamFs where
  node : ℕ → Node
  root : ℕ
  free : List ℕ
  faults : List Bool
  count : ℕ

variable (r : RamFs)

/-- `pool_new` puts the blocks in front one by one. -/
def blocks : ℕ → List ℕ
  | 0 => []
  | n + 1 => n :: blocks n

/-- `ram_fs_new` with a pool of `n + 1` nodes. -/
def new (n : ℕ) (faults : List Bool) : RamFs where
  node x := ⟨[], decide (x = n), false, [], [], 0, 0⟩
  root := n
  free := blocks n
  faults := faults
  count := 1

def setNode (x : ℕ) (f : Node → Node) : RamFs :=
  { r with node := Function.update r.node x (f (r.node x)) }

/-- The next allocation of memory fails. -/
def full : Bool := r.faults.head? = some true

def used : RamFs := { r with faults := r.faults.tail }

/-- `path_name_parse`, with enough scratch memory. -/
def parse (p : List UInt8) : Except Sfs.Errno (List (List UInt8)) :=
  if p = [] then .error .einval
  else if 0x1000 < p.length then .error .enametoolong
  else if p.head? ≠ some 47 then .error .einval
  else if 0 ∈ Sfs.stripTrailing p.tail then .error .einval
  else .ok ((Sfs.components (Sfs.stripTrailing p.tail)).filter (· ≠ []))

def child (x : ℕ) (name : List UInt8) : Option ℕ :=
  (r.node x).children.find? fun y ↦ (r.node y).name = name

/-- `ram_fs_node_lookup`. -/
def lookup : List (List UInt8) → ℕ → Option ℕ
  | [], x => some x
  | c :: cs, x =>
    match child r x c with
    | none => none
    | some y => if cs = [] then some y else if (r.node y).isDir then lookup cs y else none

/-- A node is added to a directory. -/
def addNode (isDir : Bool) (name : List UInt8) (x : ℕ) : Except Sfs.Errno ℕ × RamFs :=
  if (r.node x).isDir = false then (.error .enotdir, r)
  else if (r.node x).readonly then (.error .erofs, r)
  else if (child r x name).isSome then (.error .eexist, r)
  else match r.free with
    | [] => (.error .enomem, r)
    | y :: free =>
      if full r then (.error .enomem, used r)
      else
        let r := { used r with free := free, count := r.count + 1 }
        (.ok y, setNode (setNode r y fun _ ↦ ⟨name, isDir, false, [], [], 0, r.count⟩) x
          fun n ↦ { n with children := n.children ++ [y] })

/-- `ram_fs_create_common`, the components of the path from the last one on. -/
def createCommon (isDir : Bool) : List (List UInt8) → Bool → RamFs → Except Sfs.Errno ℕ × RamFs
  | [], _, r => (.error .eexist, r)
  | name :: up, recursive, r =>
    match lookup r up.reverse r.root with
    | some x => addNode r isDir name x
    | none =>
      if recursive then
        let q := createCommon true up true r
        match q.1 with
        | .error e => (.error e, q.2)
        | .ok x => addNode q.2 isDir name x
      else (.error .enoent, r)

/-- `ram_fs_create_dir`, as `mkdir` calls it. -/
def mkdir (path : List UInt8) : Except Sfs.Errno ℕ × RamFs :=
  match parse path with
  | .error e => (.error e, r)
  | .ok cs => createCommon true cs.reverse false r

/-- `ram_fs_create_file`, as `create` calls it. -/
def create (path : List UInt8) : Except Sfs.Errno ℕ × RamFs :=
  if full r then (.error .enomem, used r)
  else match parse path with
    | .error e => (.error e, used r)
    | .ok cs =>
      let q := createCommon false cs.reverse true (used r)
      match q.1 with
      | .error e => (.error e, q.2)
      | .ok x => (.ok x, setNode q.2 x fun n ↦ { n with cap := 4096 })

/-- `ram_fs_open`. -/
def openNode (path : List UInt8) : Except Sfs.Errno ℕ :=
  match parse path with
  | .error e => .error e
  | .ok cs => (lookup r cs r.root).elim (.error .enoent) .ok

/-- `ram_fs_unlink` and `ram_fs_rmdir`: the check decides on the node that was found. -/
def remove (check : Node → Option Sfs.Errno) (path : List UInt8) : Except Sfs.Errno Unit × RamFs :=
  match parse path with
  | .error e => (.error e, r)
  | .ok cs =>
    match cs.reverse with
    | [] => (.error .einval, r)
    | name :: up =>
      match lookup r up.reverse r.root with
      | none => (.error .enoent, r)
      | some x =>
        if (r.node x).isDir = false then (.error .enoent, r)
        else match child r x name with
          | none => (.error .enoent, r)
          | some y =>
            match check (r.node y) with
            | some e => (.error e, r)
            | none => (.ok (), { setNode r x fun n ↦ { n with children := n.children.erase y } with
                free := y :: r.free })

def unlink (path : List UInt8) : Except Sfs.Errno Unit × RamFs :=
  remove r (fun n ↦ if n.isDir then some .eisdir else if n.readonly then some .erofs else none) path

def rmdir (path : List UInt8) : Except Sfs.Errno Unit × RamFs :=
  remove r (fun n ↦ if n.isDir = false then some .enotdir else if n.readonly then some .erofs
    else if n.children ≠ [] then some .enotempty else none) path

/-- `ram_fs_read` of a node into a buffer with room for `cap` bytes. -/
def read (x cap off : ℕ) : Except Sfs.Errno (List UInt8) :=
  if (r.node x).isDir then .error .einval
  else if (r.node x).data.length < off then .error .einval
  else .ok (((r.node x).data.drop off).take cap)

/-- The capacity is doubled until it is enough. -/
def grow (need : ℕ) : ℕ → ℕ → ℕ
  | 0, cap => cap
  | k + 1, cap => if cap < need then grow need k (2 * cap) else cap

def overwrite (l data : List UInt8) (off : ℕ) : List UInt8 :=
  l.take off ++ data ++ l.drop (off + data.length)

/-- `ram_fs_write`. -/
def write (x : ℕ) (data : List UInt8) (off : ℕ) : Except Sfs.Errno ℕ × RamFs :=
  if (r.node x).isDir then (.error .einval, r)
  else if (r.node x).readonly then (.error .erofs, r)
  else if (r.node x).data.length < off then (.error .einval, r)
  else if off + data.length ≤ (r.node x).cap then
    (.ok data.length, setNode r x fun n ↦ { n with data := overwrite n.data data off })
  else if full r then (.error .enomem, used r)
  else
    (.ok data.length, setNode (used r) x fun n ↦ { n with
      data := overwrite n.data data off
      cap := grow (off + data.length) (off + data.length) (2 * n.cap) })

end Mazu.Fs.Ramfs
