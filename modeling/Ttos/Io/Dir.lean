/-
  Directory descriptors (dir.c).
-/
import Ttos.Fs.Mount

namespace Ttos

/-- `MAX_DIR_DESCRIPTORS` -/
abbrev maxDirDescriptors : ℕ := 256

/-- `sizeof(dir_dirent_t)` -/
abbrev dirDirentSize : ℕ := 260

variable {σ δ : Type} (machine : Machine σ δ)

/-- Change the descriptor `dd`. -/
def IoState.setDir (s : IoState σ δ) (dd : ℕ) (d : DirDescriptor) : IoState σ δ :=
  { s with dirDescriptors := Function.update s.dirDescriptors dd d }

/-- `dir_get_free_descriptor` -/
def dirGetFreeDescriptor (s : IoState σ δ) : Option ℕ :=
  (List.range maxDirDescriptors).find? fun index => (s.dirDescriptors index).node = 0

variable [Allocator σ]

/-- The copy `dir_open` makes of a root node, which is not freed with the descriptor. -/
def dirCopyRoot (root node : ℕ) : ObjectsM σ δ ℕ :=
  if node = root then do
    let rootCopy ← onHeap (kmallocOrPanic vfsNodeSize)
    modify fun s => s.setNode rootCopy (s.nodes node)
    pure rootCopy
  else pure node

/-- `dir_open` from the descriptor on. -/
def dirOpenNode (dd root node : ℕ) : IoM σ δ Int := do
  let node ← onObjects (dirCopyRoot root node)
  modify fun s => s.setDir dd ⟨node, 0⟩
  let result ← onObjects (vfsOpen machine node)
  if result ≠ 0 then do
    onObjects (onHeap (kfree node))
    onObjects (onHeap (kfree node))
    pure 0
  else pure dd

/-- `dir_open` -/
def dirOpen (path : List UInt8) : IoM σ δ Int := do
  if !vfsIsAbsPath path then pure (-1)
  else do
    let mountpoint ← mntGetMountpoint path
    let s ← get
    let root := (s.objects.filesystems mountpoint).root
    if mountpoint = 0 ∨ root = 0 then pure (-1)
    else do
      let node ← onObjects (vfsFindpath machine root (path.drop 3))
      let s ← get
      if node = 0 then pure (-1)
      else if !(s.objects.nodes node).isDirectory then do
        onObjects (onHeap (kfree node))
        pure (-1)
      else
        match dirGetFreeDescriptor s with
        | none => do
          onObjects (onHeap (kfree node))
          pure (-1)
        | some dd => dirOpenNode machine dd root node

/-- `dir_close`: the node's name is the start of the node, so the same address is
    freed twice. -/
def dirClose (dd : Int) : IoM σ δ Int := do
  if dd < 0 ∨ (maxDirDescriptors : Int) ≤ dd then pure (-1)
  else do
    let d := (← get).dirDescriptors dd.toNat
    if d.node = 0 then pure (-1)
    else do
      onObjects (onHeap (kfree d.node))
      onObjects (onHeap (kfree d.node))
      modify fun s => s.setDir dd.toNat { d with node := 0 }
      pure 0

/-- The caller's copy of an entry in `dir_read`; `none` is a heap that cannot serve it. -/
def dirCopyDirent (dirent : ℕ × VfsDirent) : FsM σ (Option (ℕ × VfsDirent)) := fun heap =>
  let r := Allocator.alloc heap dirDirentSize false
  .ok (if r.1 = 0 then none else some (r.1, { dirent.2 with name := dirent.2.name.take 256 }),
    Allocator.free r.2 dirent.1)

/-- `dir_read`: the entry with its address. -/
def dirRead (dd : Int) : IoM σ δ (Option (ℕ × VfsDirent)) := do
  if dd < 0 ∨ (maxDirDescriptors : Int) ≤ dd then pure none
  else do
    let d := (← get).dirDescriptors dd.toNat
    if d.node = 0 then pure none
    else
      match ← onObjects (vfsReaddir machine d.node d.index) with
      | none => pure none
      | some dirent => do
        match ← onObjects (onHeap (dirCopyDirent dirent)) with
        | none => pure none
        | some dirDirent => do
          modify fun s => s.setDir dd.toNat { d with index := u32 (d.index + 1) }
          pure (some dirDirent)

end Ttos
