/-
  The mount table (mount.c), and the state of the kernel's file handling.
-/
import Ttos.Fs.Objects

namespace Ttos

/-- `FS_VOLUME_MAX_MOUNTPOINTS` -/
abbrev fsVolumeMaxMountpoints : ℕ := 26

/-- `dir_descriptor_t` -/
structure DirDescriptor where
  node : ℕ
  index : ℕ
deriving DecidableEq, Repr

/-- The objects in the heap with the tables `mnt_mountpoints` and `dir_descriptors`. -/
structure IoState (σ δ : Type) where
  objects : Objects σ δ
  mountpoints : ℕ → ℕ
  dirDescriptors : ℕ → DirDescriptor

abbrev IoM (σ δ : Type) := StateT (IoState σ δ) (Except FsStop)

variable {σ δ α : Type}

/-- Run a computation on the objects. -/
def onObjects (x : ObjectsM σ δ α) : IoM σ δ α := fun s =>
  (x s.objects).map fun r => (r.1, { s with objects := r.2 })

/-- `mnt_get_drive_index`; `none` is -1. -/
def mntGetDriveIndex (drive : UInt8) : Option ℕ :=
  if 0x61 ≤ drive ∧ drive ≤ 0x7A then some (drive - 0x61).toNat
  else if 0x41 ≤ drive ∧ drive ≤ 0x5A then some (drive - 0x41).toNat
  else none

/-- The entry of the mount table for a drive. -/
def IoState.drive (s : IoState σ δ) (drive : UInt8) : ℕ :=
  match mntGetDriveIndex drive with
  | none => 0
  | some index => s.mountpoints index

/-- `mnt_get_mountpoint` -/
def mntGetMountpoint (path : List UInt8) : IoM σ δ ℕ := fun s =>
  .ok (if path.length < 3 then 0 else s.drive (path.headD 0), s)

end Ttos
