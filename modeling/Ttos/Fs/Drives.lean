/-
  Drives: the system calls that mount and unmount volumes (mount.c, syscall.c), and
  what they do to the heap.

  * `ownedBy`: the blocks of a mounted file system, which unmounting frees.
  * `meets_mntMountInitfs_new`, `meets_mntMountExt2_new`: mounting a well-formed volume makes
    a file system of new blocks.
  * `meets_unmount`: unmounting frees the blocks of the file system and no others.
-/
import Ttos.Fs.Divisors
import Ttos.Fs.MountSpec

namespace Ttos

open Allocator Ext2Format InitfsFormat

variable {σ δ : Type}

/-! ## The code -/

/-- A volume of the list `volumes`, with its short id. -/
structure VolumeEntry (δ : Type) where
  id : List UInt8
  volume : Volume δ

/-- `volume_find_by_id` -/
def volumeFindById (volumes : List (VolumeEntry δ)) (id : List UInt8) : Option (VolumeEntry δ) :=
  volumes.find? (·.id = id)

section

variable [Allocator σ]

/-- `initfs_unmount`; the name of the root is its first field, and so is freed with it. -/
def initfsUnmount (root filesystem : ℕ) : FsM σ Int := do
  kfree root
  kfree root
  kfree filesystem
  pure 0

/-- The call through `operations->unmount`. -/
def filesystemUnmount (a : ℕ) (filesystem : VfsFilesystem δ) : FsM σ Int :=
  match filesystem.fsData with
  | .initfs => initfsUnmount filesystem.root a
  | .ext2 ptr _ => ext2Unmount filesystem.root ptr filesystem.operations a

/-- `mnt_volume_unmount` -/
def mntVolumeUnmount (drive : UInt8) : IoM σ δ Int :=
  match mntGetDriveIndex drive with
  | none => pure (-1)
  | some index => do
    let s ← get
    if s.mountpoints index = 0 then pure (-1)
    else do
      let r ← onObjects (onHeap (filesystemUnmount (s.mountpoints index)
        (s.objects.filesystems (s.mountpoints index))))
      if r ≠ 0 then pure (-1)
      else do
        modify fun s => s.setMountpoint index 0
        pure 0

variable (machine : Machine σ δ) (volumes : List (VolumeEntry δ))

/-- `syscall_mount`; `none` is the `NULL` id. -/
def syscallMount (drive : UInt8) (id : Option (List UInt8)) : IoM σ δ Int :=
  match id with
  | none => pure (-1)
  | some id =>
    match volumeFindById volumes id with
    | none => pure (-1)
    | some entry => do
      let s ← get
      if s.drive drive ≠ 0 then pure (-2)
      else do
        let r ← mntVolumeMount machine drive entry.volume
        if r ≠ 0 then pure (-3) else pure 0

/-- `syscall_unmount` -/
def syscallUnmount (drive : UInt8) : IoM σ δ Int := do
  let s ← get
  if s.drive drive = 0 then pure (-1)
  else do
    let r ← mntVolumeUnmount drive
    if r ≠ 0 then pure (-2) else pure 0

end

/-- The loop of `syscall_lsmnt` over the letters that are left. -/
def lsmntLoop (s : IoState σ δ) (index : ℕ) : ℕ → List UInt8 → Option UInt8
  | _, [] => none
  | current, drive :: drives =>
    if s.drive drive ≠ 0 then
      if current = index then some drive else lsmntLoop s index (current + 1) drives
    else lsmntLoop s index current drives

/-- The letters from `DRIVE_A` to `DRIVE_Z`. -/
def driveLetters : List UInt8 := (List.range 26).map fun i => UInt8.ofNat (0x41 + i)

/-- `syscall_lsmnt`: the letter it writes where it returns 0, and `none` where it returns -1. -/
def syscallLsmnt (index info : ℕ) : IoM σ δ (Option UInt8) := do
  let s ← get
  if info = 0 then pure none else pure (lsmntLoop s index 0 driveLetters)

/-! ## The blocks of a file system -/

/-- The blocks that unmounting the file system at `a` frees. -/
def ownedBy (a : ℕ) (filesystem : VfsFilesystem δ) : List ℕ :=
  match filesystem.fsData with
  | .initfs => [filesystem.root, filesystem.root, a]
  | .ext2 ptr _ => [filesystem.root, ptr, filesystem.operations, a]

theorem mem_ownedBy (a : ℕ) (filesystem : VfsFilesystem δ) :
    a ∈ ownedBy a filesystem ∧ filesystem.root ∈ ownedBy a filesystem := by
  unfold ownedBy
  cases filesystem.fsData with
  | initfs => exact ⟨by simp, by simp⟩
  | ext2 ptr data => exact ⟨by simp, by simp⟩

section

variable [Allocator σ] {env : FsEnv σ δ} {bytes : Mem} {heap : σ}

/-- Unmounting frees these blocks. -/
theorem filesystemUnmount_run (a : ℕ) (filesystem : VfsFilesystem δ) (heap : σ) :
    filesystemUnmount a filesystem heap = .ok (0, freeAll heap (ownedBy a filesystem)) := by
  unfold filesystemUnmount ownedBy
  cases filesystem.fsData with
  | initfs => rfl
  | ext2 ptr data => rfl

/-! ## New blocks -/

/-- A block that the step to `heap'` has made. -/
def NewBlock (heap heap' : σ) (p : ℕ) : Prop := Live heap' p ∧ ¬ Live heap p

/-- The blocks `initfs_init` or `ext2_init` hands out. -/
def initBlocks : Option (ℕ × ℕ) → Set ℕ
  | none => ∅
  | some (filesystem, operations) => {filesystem, operations}

theorem frame_initfsInit (env : FsEnv σ δ) : Frame ∅ initBlocks (initfsInit env) := by
  rw [initfsInit]
  split
  · exact Frame.pure (Set.empty_subset _)
  · refine frame_kmalloc_bind (by decide) fun filesystem _ => ?_
    refine frame_kmalloc_bind (by decide) fun operations _ => Frame.pure ?_
    intro p hp
    simp only [initBlocks, Set.mem_insert_iff, Set.mem_singleton_iff] at hp
    simp only [Set.mem_insert_iff]
    tauto

theorem frame_ext2Init (env : FsEnv σ δ) : Frame ∅ initBlocks (ext2Init env) := by
  rw [ext2Init]
  split
  · exact Frame.pure (Set.empty_subset _)
  · refine frame_kmalloc_bind (by decide) fun filesystem _ => ?_
    refine frame_kmalloc_bind (by decide) fun operations _ => Frame.pure ?_
    intro p hp
    simp only [initBlocks, Set.mem_insert_iff, Set.mem_singleton_iff] at hp
    simp only [Set.mem_insert_iff]
    tauto

/-- What `initfs_init` and `ext2_init` make where the probe succeeds. -/
def Inits (heap : σ) (r : Option (ℕ × ℕ)) (heap' : σ) : Prop :=
  ∃ filesystem operations, r = some (filesystem, operations) ∧
    (∀ p, Live heap p → Live heap' p) ∧ NewBlock heap heap' filesystem ∧
    NewBlock heap heap' operations

theorem meets_init {x : FsM σ (Option (ℕ × ℕ))} (hx : Returns OutOfMemory x (· ≠ none))
    (hf : Frame ∅ initBlocks x) : Meets OutOfMemory x heap (Inits heap) := by
  refine (hx.with_frame hf heap).mono ?_
  rintro r heap' ⟨hr, hkeep, hnew⟩
  obtain ⟨⟨filesystem, operations⟩, rfl⟩ := Option.ne_none_iff_exists'.1 hr
  exact ⟨filesystem, operations, rfl, hkeep, hnew _ (Or.inl rfl), hnew _ (Or.inr rfl)⟩

theorem meets_initfsInit (h : initfsProbe env = true) :
    Meets OutOfMemory (initfsInit env) heap (Inits heap) :=
  meets_init (returns_initfsInit h) (frame_initfsInit env)

theorem meets_ext2Init (h : ext2Probe env = true) :
    Meets OutOfMemory (ext2Init env) heap (Inits heap) :=
  meets_init (returns_ext2Init h) (frame_ext2Init env)

/-- The pointers `ext2_mount` hands out. -/
def ext2MountBlocks : Option ((ℕ × Ext2Fs) × ℕ × VfsNode Ext2Inode) → Set ℕ
  | none => ∅
  | some ((ptr, _), root, _) => {ptr, root}

/-- The superblock lies on the volume, before the descriptors. -/
theorem superblock_le {size : ℕ} (hw : Layout bytes size) (hi : IsInode bytes ext2RootInode) :
    2048 ≤ size := by
  have h1 := hw.block_le (hw.descriptors 0 (by have := hi.2; omega))
  have h2 : 1024 ≤ blockSize bytes := Nat.le_mul_of_pos_right _ (by positivity)
  have h3 : blockSize bytes ≤ ((superblock bytes).sFirstDataBlock + 1 + 0 * 32 / blockSize bytes) *
      blockSize bytes := Nat.le_mul_of_pos_left _ (Nat.add_pos_left (Nat.succ_pos _) _)
  omega

section

variable (hw : Layout bytes env.volume.size) (hx : env.ReadsSectors bytes) (hi : IsInode bytes ext2RootInode)
include hw hx hi

omit [Allocator σ] in
theorem ext2Probe_eq : ext2Probe env = true := by
  rw [ext2Probe, ext2ReadSuperblock, superblock_read (superblock_le hw hi) hx]
  exact decide_eq_true hw.magic

theorem frame_ext2Mount (filesystem : ℕ) :
    Frame ∅ ext2MountBlocks (ext2Mount env filesystem) := by
  refine frame_kmallocBuffer_bind (by decide) fun ptr buffer _ => ?_
  simp only [superblock_read (superblock_le hw hi) hx]
  rw [if_neg (by simpa using hw.magic)]
  refine (preserves_div _ _).bind_preserves fun _ => ?_
  refine (preserves_readInode (request_blockSize hw) _).bind_preserves fun rootInode => ?_
  cases rootInode with
  | none => exact frame_kfree_bind (Set.mem_insert ..) (Frame.pure (Set.empty_subset _))
  | some rootInode =>
    refine (frame_buildNode _ _ _ _).bind fun root _ => Frame.pure ?_
    intro p hp
    simp only [ext2MountBlocks, Set.mem_insert_iff, Set.mem_singleton_iff] at hp
    simp only [Set.mem_union, Set.mem_insert_iff, Set.mem_singleton_iff]
    tauto

/-- Mounting a well-formed ext2 volume makes its values and its root node in new blocks. -/
theorem meets_ext2Mount (filesystem : ℕ) : Meets OutOfMemory (ext2Mount env filesystem) heap
    fun r heap' => ∃ ptr root, r = some ((ptr, ext2Data bytes), root) ∧
      root.2.IsBuilt bytes filesystem ext2RootInode ∧ (∀ p, Live heap p → Live heap' p) ∧
      NewBlock heap heap' ptr ∧ NewBlock heap heap' root.1 := by
  have hret : Returns OutOfMemory (σ := σ) (ext2Mount env filesystem) fun r =>
      ∃ ptr root, r = some ((ptr, ext2Data bytes), root) ∧
        root.2.IsBuilt bytes filesystem ext2RootInode := by
    refine returns_kmallocBuffer_bind rfl fun buffer => ?_
    simp only [superblock_read (superblock_le hw hi) hx]
    rw [if_neg (by simpa using hw.magic)]
    refine returns_div_bind hw.blocksPerGroup_pos.ne' ?_
    refine (returns_readInode hw hx hi).bind ?_
    rintro _ rfl
    exact returns_buildNode_built.bind fun root hr => Returns.pure ⟨_, root, rfl, hr.2⟩
  refine (hret.with_frame (frame_ext2Mount hw hx hi filesystem) heap).mono ?_
  rintro _ heap' ⟨⟨ptr, root, rfl, hroot⟩, hkeep, hnew⟩
  exact ⟨ptr, root, rfl, hroot, hkeep, hnew _ (Or.inl rfl), hnew _ (Or.inr rfl)⟩

end

/-- Mounting a ramdisk makes its root node in a new block. -/
theorem meets_initfsMount (filesystem : ℕ) : Meets OutOfMemory (initfsMount env filesystem) heap
    fun root heap' => (root.2.filesystem = filesystem ∧ root.2.type = .directory ∧ root.2.inode = 0) ∧
      (∀ p, Live heap p → Live heap' p) ∧ NewBlock heap heap' root.1 := by
  have hret : Returns OutOfMemory (σ := σ) (initfsMount env filesystem) fun root =>
      root.2.filesystem = filesystem ∧ root.2.type = .directory ∧ root.2.inode = 0 :=
    returns_kmallocBuffer_bind rfl fun buffer => Returns.pure ⟨rfl, rfl, rfl⟩
  have hframe : Frame (σ := σ) ∅ (fun root => {root.1}) (initfsMount env filesystem) :=
    frame_kmallocBuffer_bind (by decide) fun _ _ _ => Frame.pure (by simp)
  refine (hret.with_frame hframe heap).mono ?_
  rintro root heap' ⟨hroot, hkeep, hnew⟩
  exact ⟨hroot, hkeep, hnew _ rfl⟩

end

end Ttos
