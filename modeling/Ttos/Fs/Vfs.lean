/-
  What the file systems share (vfs.h): nodes, and the environment their
  functions run in.

  `FsM σ` is a computation on the kernel heap `σ` that may stop the kernel.
  Block buffers come from `kmalloc` with whatever bytes the block held before.

  * `returns_kmalloc_bind`, `returns_kmallocBuffer_bind`, `returns_kfree_bind`,
    `returns_div_bind`: the rules for the operations on it.
-/
import Mathlib.Tactic.TypeStar
import Ttos.Device.Volume
import Ttos.Lib.Allocator
import Ttos.Lib.Bytes
import Ttos.Lib.StateFail

namespace Ttos

/-- Why a file system function does not return: a panic, the processor's divide
    error, an uninitialised pointer that is followed, or a loop without end. -/
inductive FsStop where
  | kheapOutOfMemory
  | divideError
  | wildPointer
  | diverge
deriving DecidableEq, Repr

abbrev FsM (σ : Type) := StateT σ (Except FsStop)

/-- `VFS_FILE`, `VFS_DIRECTORY`, `VFS_SYMLINK` -/
inductive VfsType where
  | file
  | directory
  | symlink
deriving DecidableEq, Repr

/-- `vfs_node_t::inode_data`: `NULL`, the loaded object and its address, or a
    pointer that was never set. -/
inductive InodeData (ι : Type) where
  | null
  | loaded (ptr : ℕ) (data : ι)
  | stale (ptr : ℕ)

/-- `vfs_node_t`, for a file system that keeps an `ι` for an open node. -/
structure VfsNode (ι : Type) where
  name : List UInt8
  permissions : ℕ
  type : VfsType
  uid : ℕ
  gid : ℕ
  length : ℕ
  inode : ℕ
  inodeData : InodeData ι
  filesystem : ℕ

/-- `sizeof(vfs_node_t)` -/
abbrev vfsNodeSize : ℕ := 296

/-- Where `vfs_node_t::inode_data` lies. -/
abbrev vfsNodeInodeData : ℕ := 280

/-- `vfs_dirent_t`, with the name up to its end. -/
structure VfsDirent where
  name : List UInt8
  inode : ℕ
deriving DecidableEq, Repr

/-- `sizeof(vfs_dirent_t)` -/
abbrev vfsDirentSize : ℕ := 260

/-- `sizeof(vfs_filesystem_t)` -/
abbrev vfsFilesystemSize : ℕ := 16

/-- `sizeof(vfs_filesystem_operations_t)` -/
abbrev vfsFilesystemOperationsSize : ℕ := 8

/-- The volume of a file system with the device behind it, and what memory holds
    before it is written: heap blocks when they are handed out, and variables on
    the stack. -/
structure FsEnv (σ δ : Type) where
  volume : Volume δ
  device : δ
  stale : σ → ℕ → Mem
  stack : Mem

variable {σ δ : Type}

/-- `volume->operations->read` -/
def FsEnv.read (env : FsEnv σ δ) (offset size : ℕ) (buffer : Mem) : ℕ × Mem :=
  volumeRead env.volume env.device offset size buffer

/-- Requests inside the volume are read exactly: all bytes, and nothing else. -/
def FsEnv.Exact (env : FsEnv σ δ) (bytes : Mem) : Prop :=
  ∀ offset size buffer, offset + size ≤ env.volume.size →
    env.read offset size buffer = (size, buffer.copyFrom 0 bytes offset size)

/-- Requests for whole sectors inside the volume are read exactly. -/
def FsEnv.ReadsSectors (env : FsEnv σ δ) (bytes : Mem) : Prop :=
  ∀ offset size buffer, offset % 512 = 0 → size % 512 = 0 → 0 < size →
    offset + size ≤ env.volume.size →
    env.read offset size buffer = (size, buffer.copyFrom 0 bytes offset size)

theorem FsEnv.Exact.readsSectors {env : FsEnv σ δ} {bytes : Mem} (h : env.Exact bytes) :
    env.ReadsSectors bytes := fun offset size buffer _ _ _ hle => h offset size buffer hle

/-- The only panic of a well-formed volume. -/
def OutOfMemory (e : FsStop) : Prop := e = .kheapOutOfMemory

section
variable [Allocator σ]

/-- `kmalloc` with the panic on `NULL` that every caller adds. -/
def kmallocOrPanic (size : ℕ) : FsM σ ℕ := fun heap =>
  if (Allocator.alloc heap size false).1 = 0 then .error .kheapOutOfMemory
  else .ok (Allocator.alloc heap size false)

/-- `kmalloc` of a buffer: its address, and what it holds. -/
def FsEnv.kmallocBuffer (env : FsEnv σ δ) (size : ℕ) : FsM σ (ℕ × Mem) := fun heap =>
  (kmallocOrPanic size heap).map fun r => ((r.1, env.stale r.2 r.1), r.2)

def kfree (ptr : ℕ) : FsM σ Unit := fun heap => .ok ((), Allocator.free heap ptr)

/-- `inode_data` of a new node that does not set it: what the block held before. -/
def InodeData.unset {ι : Type} (buffer : Mem) : InodeData ι :=
  if buffer.load32 vfsNodeInodeData = 0 then .null else .stale (buffer.load32 vfsNodeInodeData)

end

/-- Unsigned division; the processor faults on a zero divisor. -/
def divOrFault (a b : ℕ) : FsM σ ℕ := if b = 0 then throw .divideError else pure (a / b)

/-! ## Rules -/

variable {allowed : FsStop → Prop} {P : ℕ → Prop} {size a b : ℕ}

section
variable [Allocator σ]

/-- A `kmalloc` that the heap serves. -/
theorem kmallocOrPanic_bind {α : Type} {f : ℕ → FsM σ α} {heap : σ}
    (h : (Allocator.alloc heap size false).1 ≠ 0) :
    (kmallocOrPanic size >>= f) heap =
      f (Allocator.alloc heap size false).1 (Allocator.alloc heap size false).2 := by
  have hk : kmallocOrPanic size heap = .ok (Allocator.alloc heap size false) := if_neg h
  rw [Bind.bind, Monad.toBind, StateT.instMonad]
  simp only [StateT.bind, hk]
  rfl

theorem returns_kmalloc (h : allowed .kheapOutOfMemory) (hp : ∀ ptr, ptr ≠ 0 → P ptr) :
    Returns allowed (kmallocOrPanic size : FsM σ ℕ) P := by
  intro heap
  by_cases h0 : (Allocator.alloc heap size false).1 = 0
  · exact Meets.of_error (if_pos h0) h
  · exact Meets.of_ok (if_neg h0) (hp _ h0)

theorem returns_kmalloc_bind {α : Type} {f : ℕ → FsM σ α} {Q : α → Prop}
    (h : allowed .kheapOutOfMemory) (hf : ∀ ptr, ptr ≠ 0 → Returns allowed (f ptr) Q) :
    Returns allowed (kmallocOrPanic size >>= f) Q :=
  (returns_kmalloc h fun _ h => h).bind hf

theorem returns_kmallocBuffer {env : FsEnv σ δ} {Q : ℕ × Mem → Prop}
    (h : allowed .kheapOutOfMemory) (hq : ∀ buffer, Q buffer) :
    Returns allowed (env.kmallocBuffer size) Q := by
  intro heap
  rcases (returns_kmalloc (σ := σ) (P := fun _ => True) h (fun _ _ => trivial) heap).cases with
    ⟨e, hx, he⟩ | ⟨ptr, heap', hx, -⟩
  · exact Meets.of_error (by rw [FsEnv.kmallocBuffer, hx]; rfl) he
  · exact Meets.of_ok (by rw [FsEnv.kmallocBuffer, hx]; rfl) (hq _)

theorem returns_kmallocBuffer_bind {env : FsEnv σ δ} {α : Type} {f : ℕ × Mem → FsM σ α}
    {Q : α → Prop} (h : allowed .kheapOutOfMemory)
    (hf : ∀ buffer, Returns allowed (f buffer) Q) :
    Returns allowed (env.kmallocBuffer size >>= f) Q :=
  (returns_kmallocBuffer (Q := fun _ => True) h fun _ => trivial).bind fun buffer _ => hf buffer

theorem returns_kfree {ptr : ℕ} : Returns allowed (kfree ptr : FsM σ Unit) fun _ => True :=
  fun _ => Meets.of_ok rfl trivial

theorem returns_kfree_bind {ptr : ℕ} {α : Type} {f : Unit → FsM σ α} {Q : α → Prop}
    (hf : Returns allowed (f ()) Q) : Returns allowed (kfree ptr >>= f) Q :=
  (returns_kfree).bind fun _ _ => hf

end

theorem returns_div_bind {α : Type} {f : ℕ → FsM σ α} {Q : α → Prop} (hb : b ≠ 0)
    (hf : Returns allowed (f (a / b)) Q) : Returns allowed (divOrFault a b >>= f) Q := by
  rw [divOrFault, if_neg hb]
  exact (Returns.pure (P := (· = a / b)) rfl).bind fun _ h => h ▸ hf

end Ttos
