/-
  The file system objects of the kernel, and the functions of vfs.c on them.

  The objects live in the kernel heap; `Objects` holds them by address.  `0` is
  the null pointer.
-/
import Ttos.Fs.Ext2
import Ttos.Fs.Initfs

namespace Ttos

/-- `vfs_filesystem_t::fs_data` with the kind of the file system. -/
inductive FsData where
  | initfs
  | ext2 (ptr : ℕ) (data : Ext2Fs)
deriving DecidableEq, Repr

/-- `vfs_filesystem_t` -/
structure VfsFilesystem (δ : Type) where
  root : ℕ
  volume : Volume δ
  fsData : FsData
  operations : ℕ

/-- A node of either file system. -/
inductive AnyNode where
  | initfs (node : VfsNode InitfsFileHeader)
  | ext2 (node : VfsNode Ext2Inode)

namespace AnyNode

def type : AnyNode → VfsType
  | initfs node => node.type
  | ext2 node => node.type

def length : AnyNode → ℕ
  | initfs node => node.length
  | ext2 node => node.length

def filesystem : AnyNode → ℕ
  | initfs node => node.filesystem
  | ext2 node => node.filesystem

end AnyNode

/-- An operation's result for an `ι`-node as one for any node. -/
def mapNode {ι : Type} (f : VfsNode ι → AnyNode) (r : ℕ × VfsNode ι) : ℕ × AnyNode := (r.1, f r.2)

/-- `file_descriptor_t` -/
structure FileDescriptor where
  node : ℕ
  size : ℕ
  offset : ℕ
  flags : ℕ
deriving DecidableEq, Repr

/-- The kernel heap and the objects in it. -/
structure Objects (σ δ : Type) where
  heap : σ
  nodes : ℕ → AnyNode
  filesystems : ℕ → VfsFilesystem δ
  files : ℕ → FileDescriptor

abbrev ObjectsM (σ δ : Type) := StateT (Objects σ δ) (Except FsStop)

/-- The hardware, and what memory holds before it is written. -/
structure Machine (σ δ : Type) where
  device : δ
  stale : σ → ℕ → Mem
  stack : Mem

variable {σ δ α : Type} (machine : Machine σ δ) [Allocator σ]

omit [Allocator σ] in
/-- Run a computation on the heap. -/
def onHeap (x : FsM σ α) : ObjectsM σ δ α := fun s =>
  (x s.heap).map fun r => (r.1, { s with heap := r.2 })

omit [Allocator σ] in
/-- A computation on the heap leaves the objects as they are. -/
theorem meets_onHeap_run {allowed : FsStop → Prop} {x : FsM σ α} {Q : α → σ → Prop}
    {s : Objects σ δ} (h : Meets allowed x s.heap Q) : Meets allowed (onHeap x) s fun a s' =>
      ∃ heap, s' = { s with heap := heap } ∧ Q a heap := by
  rcases h.cases with ⟨e, hx, he⟩ | ⟨a, heap, hx, ha⟩
  · exact Meets.of_error (by rw [onHeap, hx]; rfl) he
  · exact Meets.of_ok (by rw [onHeap, hx]; rfl) ⟨heap, rfl, ha⟩

omit [Allocator σ] in
theorem meets_onHeap {allowed : FsStop → Prop} {x : FsM σ α} {P : α → Prop}
    (h : Returns allowed x P) (s : Objects σ δ) : Meets allowed (onHeap x) s fun a s' =>
      P a ∧ ∃ heap, s' = { s with heap := heap } :=
  (meets_onHeap_run (h s.heap)).mono fun _ _ ⟨heap, hs, ha⟩ => ⟨ha, heap, hs⟩

/-- The environment of a file system's functions. -/
def Machine.env (filesystem : VfsFilesystem δ) : FsEnv σ δ where
  volume := filesystem.volume
  device := machine.device
  stale := machine.stale
  stack := machine.stack

omit [Allocator σ] in
/-- The type check of `vfs_read`; directories have no `read` operation. -/
def AnyNode.isFile (node : AnyNode) : Bool := node.type = .file

/-- The call through `node->operations->read`. -/
def nodeRead (filesystem : VfsFilesystem δ) (node : AnyNode) (offset size : ℕ) (buffer : Mem) :
    FsM σ (Int × Mem) :=
  match node with
  | .initfs node => initfsRead (machine.env filesystem) node offset size buffer
  | .ext2 node =>
    match filesystem.fsData with
    | .ext2 _ data => ext2Read (machine.env filesystem) data node offset size buffer
    | .initfs => throw .wildPointer

/-- `vfs_read` -/
def vfsRead (node offset size : ℕ) (buffer : Mem) : ObjectsM σ δ (Int × Mem) := do
  let s ← get
  if node ≠ 0 ∧ (s.nodes node).isFile then
    onHeap (nodeRead machine (s.filesystems (s.nodes node).filesystem) (s.nodes node) offset size
      buffer)
  else pure (-1, buffer)

/-- The call through `node->operations->open`: the result, and the node. -/
def nodeOpen (filesystem : VfsFilesystem δ) (node : AnyNode) : FsM σ (Int × AnyNode) :=
  match node with
  | .initfs node => Prod.map id .initfs <$> initfsOpen (machine.env filesystem) node
  | .ext2 node =>
    match filesystem.fsData with
    | .ext2 _ data => Prod.map id .ext2 <$> ext2Open (machine.env filesystem) data node
    | .initfs => throw .wildPointer

/-- The call through `node->operations->readdir`. -/
def nodeReaddir (filesystem : VfsFilesystem δ) (node : AnyNode) (index : ℕ) :
    FsM σ (Option (ℕ × VfsDirent)) :=
  match node with
  | .initfs _ => initfsReaddir (machine.env filesystem) index
  | .ext2 node =>
    match filesystem.fsData with
    | .ext2 _ data => ext2Readdir (machine.env filesystem) data node index
    | .initfs => throw .wildPointer

/-- The call through `node->operations->finddir`. -/
def nodeFinddir (filesystem : VfsFilesystem δ) (node : AnyNode) (name : List UInt8) :
    FsM σ (Option (ℕ × AnyNode)) :=
  match node with
  | .initfs node =>
    Option.map (mapNode .initfs) <$> initfsFinddir (machine.env filesystem) node.filesystem name
  | .ext2 node =>
    match filesystem.fsData with
    | .ext2 _ data =>
      Option.map (mapNode .ext2) <$> ext2Finddir (machine.env filesystem) data node name
    | .initfs => throw .wildPointer

omit [Allocator σ] in
/-- Change the node at `ptr`. -/
def Objects.setNode (s : Objects σ δ) (ptr : ℕ) (node : AnyNode) : Objects σ δ :=
  { s with nodes := Function.update s.nodes ptr node }

omit [Allocator σ] in
/-- The file system of the node at `ptr`. -/
def Objects.filesystemOf (s : Objects σ δ) (ptr : ℕ) : VfsFilesystem δ :=
  s.filesystems (s.nodes ptr).filesystem

omit [Allocator σ] in
/-- The check of `vfs_readdir`, `vfs_finddir` and `vfs_findpath`; directories have both
    operations. -/
def AnyNode.isDirectory (node : AnyNode) : Bool := node.type = .directory

/-- `vfs_open` -/
def vfsOpen (node : ℕ) : ObjectsM σ δ Int := do
  if node ≠ 0 then
    let s ← get
    let (result, opened) ← onHeap (nodeOpen machine (s.filesystemOf node) (s.nodes node))
    modify fun s => s.setNode node opened
    pure result
  else pure (-1)

/-- `vfs_readdir` -/
def vfsReaddir (node index : ℕ) : ObjectsM σ δ (Option (ℕ × VfsDirent)) := do
  let s ← get
  if node ≠ 0 ∧ (s.nodes node).isDirectory then
    onHeap (nodeReaddir machine (s.filesystemOf node) (s.nodes node) index)
  else pure none

/-- `vfs_finddir`: the address of the node, or `0`. -/
def vfsFinddir (node : ℕ) (name : List UInt8) : ObjectsM σ δ ℕ := do
  let s ← get
  if node ≠ 0 ∧ (s.nodes node).isDirectory then
    match ← onHeap (nodeFinddir machine (s.filesystemOf node) (s.nodes node) name) with
    | none => pure 0
    | some (ptr, child) => do
      modify fun s => s.setNode ptr child
      pure ptr
  else pure 0

/-! ## Paths -/

/-- `vfs_is_abs_path`: a letter, a colon and a slash. -/
def vfsIsAbsPath : List UInt8 → Bool
  | letter :: colon :: slash :: _ =>
    ((0x41 ≤ letter && letter ≤ 0x5A) || (0x61 ≤ letter && letter ≤ 0x7A)) &&
      colon = 0x3A && slash = 0x2F
  | _ => false

/-- `vfs_findpath_recursive`; the path is given by the tokens `strsep` takes off it,
    and `[]` is `NULL`. -/
def vfsFindpathRecursive (node : ℕ) : List (List UInt8) → ObjectsM σ δ ℕ
  | [] => do
    let s ← get
    if node ≠ 0 ∧ (s.nodes node).isDirectory then pure node else pure 0
  | token :: path => do
    let s ← get
    if node ≠ 0 ∧ (s.nodes node).isDirectory then
      let nextNode ← vfsFinddir machine node token
      if nextNode = 0 then pure 0
      else if path = [] then pure nextNode
      else vfsFindpathRecursive nextNode path
    else pure 0

/-- The end of `vfs_findpath`.  Where the copy of the path begins with a slash, the
    pointer that is freed is one byte behind the copy: `kfree` ignores it. -/
def freePathCopy (pathCopy : ℕ) (path : List UInt8) : FsM σ Unit :=
  if path.head? = some 0x2F then pure () else kfree pathCopy

/-- `vfs_findpath` -/
def vfsFindpath (node : ℕ) (path : List UInt8) : ObjectsM σ δ ℕ := do
  let s ← get
  if node ≠ 0 ∧ (s.nodes node).isDirectory then
    if path = [0x2F] ∨ path = [] then pure node
    else do
      let pathCopy ← onHeap (kmallocOrPanic (path.length + 1))
      let relative := if path.head? = some 0x2F then path.tail else path
      let foundNode ← vfsFindpathRecursive machine node (relative.splitOn 0x2F)
      onHeap (freePathCopy pathCopy path)
      pure foundNode
  else pure 0

end Ttos
