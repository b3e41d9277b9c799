/-
  Mounting a volume (mount.c), and making and ending an ext2 file system (ext2.c).
-/
import Ttos.Fs.Mount

namespace Ttos

variable {σ δ : Type}

/-- The superblock of a volume, read into memory that held `buffer`. -/
def ext2ReadSuperblock (env : FsEnv σ δ) (buffer : Mem) : Ext2Superblock :=
  .ofBytes (env.read ext2SuperblockOffset 1024 buffer).2 0

/-- `ext2_probe` -/
def ext2Probe (env : FsEnv σ δ) : Bool :=
  (ext2ReadSuperblock env env.stack).sMagic = ext2SuperMagic

/-- The environment of the functions that are given a volume. -/
def Machine.volumeEnv (machine : Machine σ δ) (volume : Volume δ) : FsEnv σ δ where
  volume := volume
  device := machine.device
  stale := machine.stale
  stack := machine.stack

/-- Enter the file system at `ptr` in the mount table. -/
def IoState.setMountpoint (s : IoState σ δ) (index ptr : ℕ) : IoState σ δ :=
  { s with mountpoints := Function.update s.mountpoints index ptr }

/-- What mounting makes of the file system at `ptr`. -/
def Objects.setFilesystem (s : Objects σ δ) (ptr : ℕ) (filesystem : VfsFilesystem δ) :
    Objects σ δ :=
  { s with filesystems := Function.update s.filesystems ptr filesystem }

variable [Allocator σ]

/-- `ext2_init`: the addresses of the filesystem and of its operations. -/
def ext2Init (env : FsEnv σ δ) : FsM σ (Option (ℕ × ℕ)) :=
  if !ext2Probe env then pure none
  else do
    let filesystem ← kmallocOrPanic vfsFilesystemSize
    let operations ← kmallocOrPanic vfsFilesystemOperationsSize
    pure (some (filesystem, operations))

/-- `ext2_unmount` -/
def ext2Unmount (root fsData operations filesystem : ℕ) : FsM σ Int := do
  kfree root
  kfree fsData
  kfree operations
  kfree filesystem
  pure 0

variable (machine : Machine σ δ) (index : ℕ) (volume : Volume δ)

/-- The initfs branch of `mnt_volume_mount`; `initfs_mount` has no error. -/
def mntMountInitfs : IoM σ δ Int := do
  match ← onObjects (onHeap (initfsInit (machine.volumeEnv volume))) with
  | none => throw .wildPointer
  | some (filesystem, operations) => do
    modify fun s => s.setMountpoint index filesystem
    let root ← onObjects (onHeap (initfsMount (machine.volumeEnv volume) filesystem))
    onObjects (modify fun s => (s.setNode root.1 (.initfs root.2)).setFilesystem filesystem
      { root := root.1, volume := volume, fsData := .initfs, operations := operations })
    pure 0

/-- The ext2 branch of `mnt_volume_mount`; where `ext2_mount` fails, the root and
    `fs_data` are still `NULL`. -/
def mntMountExt2 : IoM σ δ Int := do
  match ← onObjects (onHeap (ext2Init (machine.volumeEnv volume))) with
  | none => throw .wildPointer
  | some (filesystem, operations) => do
    modify fun s => s.setMountpoint index filesystem
    match ← onObjects (onHeap (ext2Mount (machine.volumeEnv volume) filesystem)) with
    | none => do
      let _ ← onObjects (onHeap (ext2Unmount 0 0 operations filesystem))
      modify fun s => s.setMountpoint index 0
      pure (-1)
    | some ((ptr, data), root) => do
      onObjects (modify fun s => (s.setNode root.1 (.ext2 root.2)).setFilesystem filesystem
        { root := root.1, volume := volume, fsData := .ext2 ptr data, operations := operations })
      pure 0

/-- `mnt_volume_mount` -/
def mntVolumeMount (drive : UInt8) (volume : Volume δ) : IoM σ δ Int :=
  match mntGetDriveIndex drive with
  | none => pure (-1)
  | some index => do
    let s ← get
    if s.mountpoints index ≠ 0 then pure (-1)
    else if initfsProbe (machine.volumeEnv volume) then mntMountInitfs machine index volume
    else if ext2Probe (machine.volumeEnv volume) then mntMountExt2 machine index volume
    else pure (-1)

end Ttos
