/-
  Files (file.c).
-/
import Ttos.Fs.Mount

namespace Ttos

/-- `FILE_RDONLY` -/
abbrev fileRdonly : ℕ := 1

/-- `FILE_WRONLY` -/
abbrev fileWronly : ℕ := 2

variable {σ δ : Type} (machine : Machine σ δ) [Allocator σ]

omit [Allocator σ] in
/-- Change the descriptor at `fd`. -/
def Objects.setFile (s : Objects σ δ) (fd : ℕ) (d : FileDescriptor) : Objects σ δ :=
  { s with files := Function.update s.files fd d }

/-- `sizeof(file_descriptor_t)` -/
abbrev fileDescriptorSize : ℕ := 16

/-- `file_open` from the node on. -/
def fileOpenNode (node flags : ℕ) : ObjectsM σ δ ℕ := do
  let fileDescriptor ← onHeap (kmallocOrPanic fileDescriptorSize)
  modify fun s => s.setFile fileDescriptor ⟨node, (s.nodes node).length, 0, flags⟩
  let result ← vfsOpen machine node
  if result ≠ 0 then do
    onHeap (kfree fileDescriptor)
    -- the name is the start of the node
    onHeap (kfree node)
    onHeap (kfree node)
    pure 0
  else pure fileDescriptor

/-- `file_open`: the address of the descriptor, or `0`. -/
def fileOpen (path : List UInt8) (flags : ℕ) : IoM σ δ ℕ := do
  if !vfsIsAbsPath path then pure 0
  else do
    let mountpoint ← mntGetMountpoint path
    let s ← get
    let root := (s.objects.filesystems mountpoint).root
    if mountpoint = 0 ∨ root = 0 then pure 0
    else do
      let node ← onObjects (vfsFindpath machine root (path.drop 3))
      if node = 0 then do
        onObjects (onHeap (kfree node))
        pure 0
      else onObjects (fileOpenNode machine node flags)

/-- `file_read`: the result, and what the caller's buffer holds. -/
def fileRead (fd size : ℕ) (buffer : Mem) : ObjectsM σ δ (Int × Mem) := do
  if fd = 0 then pure (-1, buffer)
  else
    let d := (← get).files fd
    if d.node = 0 then pure (-1, buffer)
    else if d.flags &&& fileRdonly = 0 then pure (-1, buffer)
    else
      let size := if d.size < u32 (d.offset + size) then sub32 d.size d.offset else size
      let (bytesRead, buffer) ← vfsRead machine d.node d.offset size buffer
      if bytesRead < 0 then pure (-1, buffer)
      else
        modify fun s => s.setFile fd { d with offset := u32 (d.offset + bytesRead.toNat) }
        pure (bytesRead, buffer)

end Ttos
