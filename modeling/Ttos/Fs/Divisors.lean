/-
  The divisions of the ext2 driver.  The divisors come from the superblock: its
  blocks and inodes per group, the block size, and the square of the pointers in a
  block, which wraps in 32 bits.

  * `Ext2Superblock.Divisible`: the superblocks that can be mounted without a zero divisor.
  * `neverDivides_open`, `neverDivides_read`, `neverDivides_readdir`, `neverDivides_finddir`: a
    mounted file system is used without one.
  * `mount_divisors`: exactly which volumes are mounted safely.
-/
import Ttos.Fs.Mounting
import Ttos.Fs.MountSpec

namespace Ttos

variable {σ δ α : Type}

/-- The computation has no division by zero. -/
abbrev NeverDivides (x : FsM σ α) : Prop := Returns (· ≠ .divideError) x fun _ => True

/-- The derived values of a mounted file system: its divisors are not zero. -/
structure Ext2Fs.Sound (data : Ext2Fs) : Prop where
  inodesPerGroup : data.inodesPerGroup ≠ 0
  blockSize : ∃ k < 22, data.blockSize = 1024 * 2 ^ k

/-- No zero divisor on the way to the root inode; where its group is not on the
    volume, the block size does not matter. -/
structure Ext2Superblock.Divisible (superblock : Ext2Superblock) : Prop where
  blocksPerGroup : superblock.sBlocksPerGroup ≠ 0
  inodesPerGroup : superblock.sInodesPerGroup ≠ 0
  blockSize : superblock.sLogBlockSize % 32 < 22 ∨
    (Ext2Fs.ofSuperblock superblock).numBlockGroups ≤ 1 / superblock.sInodesPerGroup

/-! ## Block sizes -/

theorem blockSize_eq {superblock : Ext2Superblock} (h : superblock.sLogBlockSize % 32 < 22) :
    (Ext2Fs.ofSuperblock superblock).blockSize = 1024 * 2 ^ (superblock.sLogBlockSize % 32) := by
  refine u32_of_lt ?_
  calc 1024 * 2 ^ (superblock.sLogBlockSize % 32)
      ≤ 1024 * 2 ^ 21 := Nat.mul_le_mul_left _ (Nat.pow_le_pow_right (by decide) (by omega))
    _ < 4294967296 := by decide

/-- From a shift by 22 on, the block size wraps to zero. -/
theorem blockSize_eq_zero {superblock : Ext2Superblock} (h : 22 ≤ superblock.sLogBlockSize % 32) :
    (Ext2Fs.ofSuperblock superblock).blockSize = 0 := by
  obtain ⟨j, hj⟩ := Nat.exists_eq_add_of_le h
  show u32 (1024 * 2 ^ (superblock.sLogBlockSize % 32)) = 0
  rw [hj, Nat.pow_add, ← Nat.mul_assoc]
  exact Nat.mul_mod_right ..

theorem blockSize_ne_zero {superblock : Ext2Superblock} :
    (Ext2Fs.ofSuperblock superblock).blockSize ≠ 0 ↔ superblock.sLogBlockSize % 32 < 22 := by
  constructor
  · intro h
    by_contra hk
    exact h (blockSize_eq_zero (Nat.not_lt.1 hk))
  · intro h
    rw [blockSize_eq h]
    exact Nat.mul_ne_zero (by decide) (Nat.two_pow_pos _).ne'

theorem Ext2Fs.Sound.of_superblock {superblock : Ext2Superblock}
    (hi : superblock.sInodesPerGroup ≠ 0) (hb : (Ext2Fs.ofSuperblock superblock).blockSize ≠ 0) :
    (Ext2Fs.ofSuperblock superblock).Sound :=
  ⟨hi, _, blockSize_ne_zero.1 hb, blockSize_eq (blockSize_ne_zero.1 hb)⟩

namespace Ext2Fs.Sound

variable {data : Ext2Fs} (h : data.Sound)
include h

theorem blockSize_ne : data.blockSize ≠ 0 := by
  obtain ⟨k, -, hb⟩ := h.blockSize
  rw [hb]
  exact Nat.mul_ne_zero (by decide) (Nat.two_pow_pos k).ne'

/-- A position in a file is a 32-bit value. -/
theorem fileBlock_lt (x : ℕ) : u32 x / data.blockSize < 4294967296 / data.blockSize := by
  obtain ⟨k, hk, hb⟩ := h.blockSize
  have hdvd : data.blockSize ∣ 4294967296 := by
    rw [hb]
    exact Nat.mul_dvd_mul_left 1024 (Nat.pow_dvd_pow 2 (Nat.le_of_lt hk))
  exact Nat.div_lt_div_of_lt_of_dvd hdvd (u32_lt x)

/-- The square of the pointers in a block wraps to zero for blocks of 256 KiB and
    more; a file of less than 4 GiB has all its blocks within the single
    indirect ones then. -/
theorem square_ne {index : ℕ} (hi : index < 4294967296 / data.blockSize)
    (hp : data.blockSize / 4 ≤ index) :
    u32 (data.blockSize / 4 * (data.blockSize / 4)) ≠ 0 := by
  obtain ⟨k, hk, hb⟩ := h.blockSize
  have hq : data.blockSize / 4 = 256 * 2 ^ k := by
    rw [hb, show 1024 * 2 ^ k = 256 * 2 ^ k * 4 by ring]
    exact Nat.mul_div_cancel _ (by decide)
  have hpos : 0 < 2 ^ k := Nat.two_pow_pos k
  rw [hq] at hp ⊢
  rcases Nat.lt_or_ge k 8 with hk8 | hk8
  · have hle : 2 ^ k ≤ 2 ^ 7 := Nat.pow_le_pow_right (by decide) (by omega)
    have hsq : 256 * 2 ^ k * (256 * 2 ^ k) ≤ 256 * 2 ^ 7 * (256 * 2 ^ 7) :=
      Nat.mul_le_mul (Nat.mul_le_mul_left _ hle) (Nat.mul_le_mul_left _ hle)
    rw [u32_of_lt (by omega)]
    positivity
  · have hge : 2 ^ 8 ≤ 2 ^ k := Nat.pow_le_pow_right (by decide) hk8
    have hdiv : 4294967296 / data.blockSize ≤ 4294967296 / (1024 * 2 ^ 8) := by
      rw [hb]
      exact Nat.div_le_div_left (Nat.mul_le_mul_left _ hge) (by decide)
    omega

end Ext2Fs.Sound

/-! ## Inodes -/

section
variable {allowed : FsStop → Prop} (hm : allowed .kheapOutOfMemory) {env : FsEnv σ δ}
  {data : Ext2Fs} [Allocator σ]
include hm

/-- `ext2_read_bgd` divides only for a group on the volume, and fails for all others. -/
theorem returns_readBgd_group {group : ℕ} (h : group < data.numBlockGroups → data.blockSize ≠ 0) :
    Returns allowed (ext2ReadBgd env data group) fun r => r ≠ none → group < data.numBlockGroups := by
  rw [ext2ReadBgd]
  split
  · exact Returns.pure fun hr => absurd rfl hr
  · rename_i hg
    refine returns_div_bind (h (Nat.not_le.1 hg)) ?_
    refine returns_kmallocBuffer_bind hm fun buffer => ?_
    exact returns_kfree_bind (Returns.pure fun _ => Nat.not_le.1 hg)

/-- `ext2_read_inode` returns only the inodes of groups on the volume. -/
theorem returns_readInode_group {inodeNo : ℕ} (hi : data.inodesPerGroup ≠ 0)
    (h : (inodeNo - 1) / data.inodesPerGroup < data.numBlockGroups → data.blockSize ≠ 0) :
    Returns allowed (ext2ReadInode env data inodeNo) fun r => r ≠ none →
      (inodeNo - 1) / data.inodesPerGroup < data.numBlockGroups := by
  rw [ext2ReadInode]
  split
  · exact Returns.pure fun hr => absurd rfl hr
  refine returns_div_bind hi ((returns_readBgd_group hm h).bind fun bgd hb => ?_)
  cases bgd with
  | none => exact Returns.pure fun hr => absurd rfl hr
  | some bgd =>
    have hg := hb (Option.some_ne_none _)
    refine returns_div_bind (h hg) ?_
    refine returns_kmallocBuffer_bind hm fun buffer => ?_
    exact returns_kfree_bind (Returns.pure fun _ => hg)

end

/-! ## A mounted file system -/

section
variable [Allocator σ] {env : FsEnv σ δ} {data : Ext2Fs} (h : data.Sound)
include h

theorem neverDivides_readInode (inodeNo : ℕ) : NeverDivides (ext2ReadInode env data inodeNo) :=
  (returns_readInode_group (by decide) h.inodesPerGroup fun _ => h.blockSize_ne).mono
    fun _ _ => trivial

theorem neverDivides_inodeBlock (inode : Ext2Inode) {index : ℕ}
    (hi : index < 4294967296 / data.blockSize) : NeverDivides (ext2InodeBlock env data inode index) := by
  rw [ext2InodeBlock]
  split
  · exact Returns.pure trivial
  refine returns_kmallocBuffer_bind (by decide) fun buffer => ?_
  refine Returns.bind (P := fun _ => True) ?_ fun _ _ => returns_kfree_bind (Returns.pure trivial)
  rw [ext2IndirectBlock]
  dsimp only
  split
  · exact Returns.pure trivial
  rename_i hsingle
  split
  · exact Returns.pure trivial
  rw [ext2TripleIndirect]
  dsimp only
  split
  · have hlt : index - 12 < 4294967296 / data.blockSize := by omega
    have hsq := h.square_ne hlt (Nat.not_lt.1 hsingle)
    refine returns_div_bind hsq ?_
    split
    · split <;> exact Returns.pure trivial
    · exact Returns.pure trivial
  · exact Returns.pure trivial

theorem neverDivides_readLoop (inode : Ext2Inode) (offset size fuel bytesRead : ℕ)
    (blockBuffer buffer : Mem) :
    NeverDivides (ext2ReadLoop env data inode offset size fuel bytesRead blockBuffer buffer) := by
  induction fuel generalizing bytesRead blockBuffer buffer with
  | zero => exact fun _ => Meets.throw (by decide)
  | succ fuel ih =>
    rw [ext2ReadLoop]
    split
    · refine returns_div_bind h.blockSize_ne ?_
      dsimp only
      refine (neverDivides_inodeBlock h inode (h.fileBlock_lt _)).bind fun physicalBlock _ => ?_
      split
      · exact ih _ _ _
      · exact ih _ _ _
    · exact Returns.pure trivial

theorem neverDivides_open (node : VfsNode Ext2Inode) : NeverDivides (ext2Open env data node) := by
  rw [ext2Open]
  split
  · exact Returns.pure trivial
  refine returns_kmalloc_bind (by decide) fun ptr _ => ?_
  refine (neverDivides_readInode h node.inode).bind fun inode _ => ?_
  cases inode with
  | none => exact returns_kfree_bind (Returns.pure trivial)
  | some inode => exact Returns.pure trivial

theorem neverDivides_read (node : VfsNode Ext2Inode) (offset size : ℕ) (buffer : Mem) :
    NeverDivides (ext2Read env data node offset size buffer) := by
  rw [ext2Read]
  cases node.inodeData with
  | null => exact Returns.pure trivial
  | stale ptr => exact fun _ => Meets.throw (by decide)
  | loaded ptr inode =>
    dsimp only
    split
    · exact Returns.pure trivial
    generalize (if inode.iSize < u32 (offset + size) then inode.iSize - offset else size) = n
    split
    · exact Returns.pure trivial
    refine returns_kmallocBuffer_bind (by decide) fun blockBuffer => ?_
    refine (neverDivides_readLoop h inode offset n (n + 1) 0 blockBuffer.2 buffer).bind fun r _ => ?_
    exact returns_kfree_bind (Returns.pure trivial)

/-! ## Directories -/

omit [Allocator σ] in
/-- All blocks of a directory have a number that fits the pointers. -/
theorem returns_totalBlocks_le (inode : Ext2Inode) :
    Returns (σ := σ) (· ≠ .divideError) (ext2TotalBlocks data inode)
      (0 + · ≤ 4294967296 / data.blockSize) := by
  rw [ext2TotalBlocks, ← bind_pure (divOrFault _ _)]
  refine returns_div_bind h.blockSize_ne (Returns.pure ?_)
  rw [Nat.zero_add]
  exact (h.fileBlock_lt _).le

omit h [Allocator σ] in
theorem neverDivides_readdirEntries (index : ℕ) (blockBuffer : Mem) (fuel position current : ℕ) :
    NeverDivides (σ := σ) (ext2ReaddirEntries data index blockBuffer fuel position current) := by
  induction fuel generalizing position current with
  | zero => exact fun _ => Meets.throw (by decide)
  | succ fuel ih =>
    rw [ext2ReaddirEntries]
    dsimp only
    split
    · split
      · exact Returns.pure trivial
      split
      · split
        · exact Returns.pure trivial
        · exact ih _ _
      · exact ih _ _
    · exact Returns.pure trivial

theorem neverDivides_readdirBlocks (inode : Ext2Inode) (index n b current : ℕ) (blockBuffer : Mem)
    (hb : b + n ≤ 4294967296 / data.blockSize) :
    NeverDivides (ext2ReaddirBlocks env data inode index n b current blockBuffer) := by
  induction n generalizing b current blockBuffer with
  | zero => exact Returns.pure trivial
  | succ n ih =>
    rw [ext2ReaddirBlocks]
    refine (neverDivides_inodeBlock h inode (by omega)).bind fun physicalBlock _ => ?_
    split
    · exact ih _ _ _ (by omega)
    refine (neverDivides_readdirEntries index _ _ _ _).bind ?_
    rintro ⟨position, count⟩ -
    cases position with
    | none => exact ih _ _ _ (by omega)
    | some position => exact returns_kmalloc_bind (by decide) fun ptr _ => Returns.pure trivial

theorem neverDivides_readdir (node : VfsNode Ext2Inode) (index : ℕ) :
    NeverDivides (ext2Readdir env data node index) := by
  rw [ext2Readdir]
  refine (neverDivides_readInode h node.inode).bind fun inode _ => ?_
  cases inode with
  | none => exact Returns.pure trivial
  | some inode =>
    refine returns_kmallocBuffer_bind (by decide) fun blockBuffer => ?_
    refine (returns_totalBlocks_le h inode).bind fun totalBlocks ht => ?_
    refine (neverDivides_readdirBlocks h inode index totalBlocks 0 0 blockBuffer.2 ht).bind ?_
    exact fun dirent _ => returns_kfree_bind (Returns.pure trivial)

omit h [Allocator σ] in
theorem neverDivides_finddirEntries (name : List UInt8) (blockBuffer : Mem) (fuel position : ℕ) :
    NeverDivides (σ := σ) (ext2FinddirEntries data name blockBuffer fuel position) := by
  induction fuel generalizing position with
  | zero => exact fun _ => Meets.throw (by decide)
  | succ fuel ih =>
    rw [ext2FinddirEntries]
    dsimp only
    split
    · split
      · exact Returns.pure trivial
      split
      · exact Returns.pure trivial
      · exact ih _
    · exact Returns.pure trivial

theorem neverDivides_finddirBlocks (inode : Ext2Inode) (name : List UInt8) (n b : ℕ)
    (blockBuffer : Mem) (hb : b + n ≤ 4294967296 / data.blockSize) :
    NeverDivides (ext2FinddirBlocks env data inode name n b blockBuffer) := by
  induction n generalizing b blockBuffer with
  | zero => exact Returns.pure trivial
  | succ n ih =>
    rw [ext2FinddirBlocks]
    refine (neverDivides_inodeBlock h inode (by omega)).bind fun physicalBlock _ => ?_
    split
    · exact ih _ _ (by omega)
    refine (neverDivides_finddirEntries name _ _ _).bind fun found _ => ?_
    cases found with
    | none => exact ih _ _ (by omega)
    | some childInodeNo => exact Returns.pure trivial

theorem neverDivides_finddir (node : VfsNode Ext2Inode) (name : List UInt8) :
    NeverDivides (ext2Finddir env data node name) := by
  rw [ext2Finddir]
  refine (neverDivides_readInode h node.inode).bind fun inode _ => ?_
  cases inode with
  | none => exact Returns.pure trivial
  | some inode =>
    refine returns_kmallocBuffer_bind (by decide) fun blockBuffer => ?_
    refine (returns_totalBlocks_le h inode).bind fun totalBlocks ht => ?_
    refine (neverDivides_finddirBlocks h inode name totalBlocks 0 blockBuffer.2 ht).bind ?_
    intro found _
    refine returns_kfree_bind ?_
    cases found with
    | none => exact Returns.pure trivial
    | some childInodeNo =>
      refine (neverDivides_readInode h childInodeNo).bind fun childInode _ => ?_
      cases childInode with
      | none => exact Returns.pure trivial
      | some childInode =>
        dsimp only
        rw [map_eq_pure_bind]
        refine Returns.bind (P := fun _ => True) ?_ fun _ _ => Returns.pure trivial
        exact returns_kmalloc_bind (by decide) fun ptr _ => Returns.pure trivial

end

/-! ## Mounting -/

/-- Whatever its buffer held, `ext2_mount` finds no magic number or no zero divisor. -/
def FsEnv.Divisible (env : FsEnv σ δ) : Prop :=
  ∀ buffer, (ext2ReadSuperblock env buffer).sMagic = ext2SuperMagic →
    (ext2ReadSuperblock env buffer).Divisible

/-- The functions on an ext2 file system with the values `data` never divide by
    zero, whatever its volume and the heap hold by then. -/
structure UsedSafely (σ δ : Type) [Allocator σ] (data : Ext2Fs) : Prop where
  opens : ∀ (env : FsEnv σ δ) node, NeverDivides (ext2Open env data node)
  read : ∀ (env : FsEnv σ δ) node offset size buffer,
    NeverDivides (ext2Read env data node offset size buffer)
  readdir : ∀ (env : FsEnv σ δ) node index, NeverDivides (ext2Readdir env data node index)
  finddir : ∀ (env : FsEnv σ δ) node name, NeverDivides (ext2Finddir env data node name)

section
variable [Allocator σ]

theorem Ext2Fs.Sound.usedSafely {data : Ext2Fs} (h : data.Sound) : UsedSafely σ δ data where
  opens _ := neverDivides_open h
  read _ := neverDivides_read h
  readdir _ := neverDivides_readdir h
  finddir _ := neverDivides_finddir h

theorem returns_mount_sound {env : FsEnv σ δ} (hd : env.Divisible) {filesystem : ℕ} :
    Returns OutOfMemory (ext2Mount env filesystem) fun r =>
      ∀ ptr data root, r = some ((ptr, data), root) → data.Sound := by
  refine returns_kmallocBuffer_bind rfl fun buffer => ?_
  dsimp only
  split
  · exact returns_kfree_bind (Returns.pure fun _ _ _ h => nomatch h)
  rename_i hm
  have hs := hd buffer.2 (not_not.1 hm)
  refine returns_div_bind hs.blocksPerGroup ?_
  have hblock : 1 / (ext2ReadSuperblock env buffer.2).sInodesPerGroup <
      (Ext2Fs.ofSuperblock (ext2ReadSuperblock env buffer.2)).numBlockGroups →
      (Ext2Fs.ofSuperblock (ext2ReadSuperblock env buffer.2)).blockSize ≠ 0 := fun hg =>
    blockSize_ne_zero.2 (hs.blockSize.resolve_right (Nat.not_le.2 hg))
  have hread : Returns OutOfMemory (σ := σ) (ext2ReadInode env
      (.ofSuperblock (ext2ReadSuperblock env buffer.2)) ext2RootInode) fun r => r ≠ none →
        1 / (ext2ReadSuperblock env buffer.2).sInodesPerGroup <
          (Ext2Fs.ofSuperblock (ext2ReadSuperblock env buffer.2)).numBlockGroups := by
    refine returns_readInode_group (show OutOfMemory .kheapOutOfMemory from rfl) ?_ ?_
    · exact hs.inodesPerGroup
    · exact hblock
  refine hread.bind fun rootInode hr => ?_
  cases rootInode with
  | none => exact returns_kfree_bind (Returns.pure fun _ _ _ h => nomatch h)
  | some rootInode =>
    have hroot := hblock (hr (Option.some_ne_none _))
    refine Returns.bind (P := fun _ => True) ?_ fun root _ => Returns.pure ?_
    · exact returns_kmalloc_bind rfl fun ptr _ => Returns.pure trivial
    · rintro _ _ _ ⟨⟩
      exact .of_superblock hs.inodesPerGroup hroot

theorem returns_initfsInit {env : FsEnv σ δ} (h : initfsProbe env = true) :
    Returns OutOfMemory (initfsInit env) (· ≠ none) := by
  rw [initfsInit, if_neg (by simp [h])]
  refine returns_kmalloc_bind rfl fun filesystem _ => ?_
  exact returns_kmalloc_bind rfl fun operations _ => Returns.pure (Option.some_ne_none _)

theorem returns_ext2Init {env : FsEnv σ δ} (h : ext2Probe env = true) :
    Returns OutOfMemory (ext2Init env) (· ≠ none) := by
  rw [ext2Init, if_neg (by simp [h])]
  refine returns_kmalloc_bind rfl fun filesystem _ => ?_
  exact returns_kmalloc_bind rfl fun operations _ => Returns.pure (Option.some_ne_none _)

variable {machine : Machine σ δ} {index : ℕ} {volume : Volume δ} {s : IoState σ δ}

/-- What a call of `mnt_volume_mount` for a free entry of the table leaves. -/
def MountedAt (index : ℕ) (s : IoState σ δ) (r : Int) (s' : IoState σ δ) : Prop :=
  r = -1 ∧ s'.mountpoints = s.mountpoints ∨
    r = 0 ∧ ∀ ptr data, (s'.objects.filesystems (s'.mountpoints index)).fsData = .ext2 ptr data →
      UsedSafely σ δ data

theorem meets_mntMountInitfs (h : initfsProbe (machine.volumeEnv volume) = true) :
    Meets OutOfMemory (mntMountInitfs machine index volume) s (MountedAt index s) := by
  refine (meets_onObjects (meets_onHeap (returns_initfsInit h) _)).bind ?_
  rintro r s₁ ⟨_, rfl, hr, heap, rfl⟩
  obtain ⟨⟨filesystem, operations⟩, rfl⟩ := Option.ne_none_iff_exists'.1 hr
  refine Meets.modify_bind ?_
  have hroot : Returns OutOfMemory (initfsMount (machine.volumeEnv volume) filesystem)
      fun _ => True := returns_kmallocBuffer_bind rfl fun buffer => Returns.pure trivial
  refine (meets_onObjects (meets_onHeap hroot _)).bind ?_
  rintro root s₂ ⟨_, rfl, -, heap', rfl⟩
  refine Meets.bind (Q := fun _ s' => (s'.objects.filesystems (s'.mountpoints index)).fsData =
    .initfs) (Meets.of_ok rfl ?_) ?_
  · simp [IoState.setMountpoint, Objects.setFilesystem]
  · intro _ s' hs
    exact Meets.pure (Or.inr ⟨rfl, fun ptr data hd => by rw [hs] at hd; nomatch hd⟩)

theorem meets_mntMountExt2 (h : ext2Probe (machine.volumeEnv volume) = true)
    (hd : (machine.volumeEnv volume).Divisible) (h0 : s.mountpoints index = 0) :
    Meets OutOfMemory (mntMountExt2 machine index volume) s (MountedAt index s) := by
  refine (meets_onObjects (meets_onHeap (returns_ext2Init h) _)).bind ?_
  rintro r s₁ ⟨_, rfl, hr, heap, rfl⟩
  obtain ⟨⟨filesystem, operations⟩, rfl⟩ := Option.ne_none_iff_exists'.1 hr
  refine Meets.modify_bind ?_
  refine (meets_onObjects (meets_onHeap (returns_mount_sound hd) _)).bind ?_
  rintro mounted s₂ ⟨_, rfl, hm, heap', rfl⟩
  rcases mounted with - | ⟨⟨ptr, data⟩, root⟩
  · have hu : Returns OutOfMemory (σ := σ) (ext2Unmount 0 0 operations filesystem) fun _ => True :=
      fun _ => Meets.of_ok rfl trivial
    refine (meets_onObjects (meets_onHeap hu _)).bind ?_
    rintro _ s₃ ⟨_, rfl, -, heap'', rfl⟩
    refine Meets.modify_bind (Meets.pure (Or.inl ⟨rfl, ?_⟩))
    show Function.update (Function.update s.mountpoints index filesystem) index 0 = s.mountpoints
    rw [Function.update_idem, ← h0, Function.update_eq_self]
  · have hsafe := (hm ptr data root rfl).usedSafely (σ := σ) (δ := δ)
    refine Meets.bind (Q := fun _ s' => (s'.objects.filesystems (s'.mountpoints index)).fsData =
      .ext2 ptr data) (Meets.of_ok rfl ?_) ?_
    · simp [IoState.setMountpoint, Objects.setFilesystem]
    · intro _ s' hs
      refine Meets.pure (Or.inr ⟨rfl, fun ptr' data' hd' => ?_⟩)
      obtain ⟨-, rfl⟩ := FsData.ext2.inj (hs.symm.trans hd')
      exact hsafe

/-! ## Volumes with a zero divisor -/

theorem meets_kmalloc_serves {allowed : FsStop → Prop} {heap : σ} {n : ℕ} {ns : List ℕ}
    (h : Allocator.Serves heap (n :: ns)) : Meets allowed (kmallocOrPanic n) heap fun _ heap' =>
      Allocator.Serves heap' ns := Meets.of_ok (if_neg h.1) h.2

/-- Where the heap holds `buffer`, a buffer holds it. -/
theorem meets_kmallocBuffer_serves {allowed : FsStop → Prop} {env : FsEnv σ δ} {heap : σ} {n : ℕ}
    {ns : List ℕ} {buffer : Mem} (h : Allocator.Serves heap (n :: ns))
    (hb : ∀ heap ptr, env.stale heap ptr = buffer) :
    Meets allowed (env.kmallocBuffer n) heap fun r _ => r.2 = buffer := by
  have hk : kmallocOrPanic n heap = .ok (Allocator.alloc heap n false) := if_neg h.1
  refine Meets.of_ok (by rw [FsEnv.kmallocBuffer, hk]; rfl) ?_
  exact hb _ _

/-- The computation stops in the divide error. -/
abbrev Divides (x : FsM σ α) (heap : σ) : Prop :=
  Meets (· = .divideError) x heap fun _ _ => False

omit [Allocator σ] in
theorem divides_div_bind {a : ℕ} {f : ℕ → FsM σ α} {heap : σ} :
    Divides (divOrFault a 0 >>= f) heap :=
  Meets.bind (Q := fun _ _ => False) (Meets.throw rfl) fun _ _ h => h.elim

omit [Allocator σ] in
theorem meets_div {allowed : FsStop → Prop} {a b : ℕ} {heap : σ} (hb : b ≠ 0) :
    Meets allowed (divOrFault a b) heap fun q _ => q = a / b :=
  Meets.of_ok (by rw [divOrFault, if_neg hb]; rfl) rfl

theorem divides_readBgd {env : FsEnv σ δ} {data : Ext2Fs} {group : ℕ} {heap : σ}
    (hg : group < data.numBlockGroups) (hb : data.blockSize = 0) :
    Divides (ext2ReadBgd env data group) heap := by
  rw [ext2ReadBgd, if_neg (Nat.not_le.2 hg), hb]
  exact divides_div_bind

/-- A superblock with a zero divisor stops the reading of the root inode. -/
theorem divides_readInode {env : FsEnv σ δ} {superblock : Ext2Superblock} {heap : σ}
    (h : ¬ superblock.Divisible) (hb : superblock.sBlocksPerGroup ≠ 0) :
    Divides (ext2ReadInode env (.ofSuperblock superblock) ext2RootInode) heap := by
  rw [ext2ReadInode, if_neg (by decide)]
  by_cases hi : superblock.sInodesPerGroup = 0
  · show Divides (divOrFault 1 superblock.sInodesPerGroup >>= _) heap
    rw [hi]
    exact divides_div_bind
  have hlog : 22 ≤ superblock.sLogBlockSize % 32 :=
    Nat.not_lt.1 fun hl => h ⟨hb, hi, Or.inl hl⟩
  have hgroup : 1 / superblock.sInodesPerGroup < (Ext2Fs.ofSuperblock superblock).numBlockGroups :=
    Nat.not_le.1 fun hl => h ⟨hb, hi, Or.inr hl⟩
  refine (meets_div hi).bind ?_
  rintro _ heap' rfl
  exact (divides_readBgd hgroup (blockSize_eq_zero hlog)).bind fun _ _ h => h.elim

theorem divides_mount {env : FsEnv σ δ} {buffer : Mem} {heap : σ} {filesystem : ℕ}
    (h : Allocator.Serves heap [1048]) (hb : ∀ heap ptr, env.stale heap ptr = buffer)
    (hm : (ext2ReadSuperblock env buffer).sMagic = ext2SuperMagic)
    (hd : ¬ (ext2ReadSuperblock env buffer).Divisible) : Divides (ext2Mount env filesystem) heap := by
  refine (meets_kmallocBuffer_serves h hb).bind ?_
  rintro ⟨ptr, blockBuffer⟩ heap' rfl
  have hs : Ext2Superblock.ofBytes (env.read ext2SuperblockOffset 1024 blockBuffer).2 0 =
    ext2ReadSuperblock env blockBuffer := rfl
  simp only [hs]
  rw [if_neg (not_not.2 hm)]
  by_cases h0 : (ext2ReadSuperblock env blockBuffer).sBlocksPerGroup = 0
  · rw [h0]
    exact divides_div_bind
  · refine (meets_div h0).bind fun _ _ _ => ?_
    exact (divides_readInode hd h0).bind fun _ _ h => h.elim

theorem divides_mntMountExt2 {machine : Machine σ δ} {index : ℕ} {volume : Volume δ}
    {s : IoState σ δ} {buffer : Mem} (hp : ext2Probe (machine.volumeEnv volume) = true)
    (h : Allocator.Serves s.objects.heap [vfsFilesystemSize, vfsFilesystemOperationsSize, 1048])
    (hb : ∀ heap ptr, machine.stale heap ptr = buffer)
    (hm : (ext2ReadSuperblock (machine.volumeEnv volume) buffer).sMagic = ext2SuperMagic)
    (hd : ¬ (ext2ReadSuperblock (machine.volumeEnv volume) buffer).Divisible) :
    Meets (· = .divideError) (mntMountExt2 machine index volume) s fun _ _ => False := by
  have hinit : Meets (· = FsStop.divideError) (ext2Init (machine.volumeEnv volume)) s.objects.heap
      fun r heap => r ≠ none ∧ Allocator.Serves heap [1048] := by
    rw [ext2Init, if_neg (by simp [hp])]
    refine (meets_kmalloc_serves h).bind fun filesystem heap h1 => ?_
    refine (meets_kmalloc_serves h1).bind fun operations heap' h2 => ?_
    exact Meets.pure ⟨Option.some_ne_none _, h2⟩
  refine (meets_onObjects (meets_onHeap_run hinit)).bind ?_
  rintro r s₁ ⟨_, rfl, heap, rfl, hr, hs⟩
  obtain ⟨⟨filesystem, operations⟩, rfl⟩ := Option.ne_none_iff_exists'.1 hr
  refine Meets.modify_bind ?_
  refine (meets_onObjects (meets_onHeap_run (divides_mount hs hb hm hd))).bind ?_
  rintro _ s₂ ⟨_, -, _, -, hf⟩
  exact hf.elim

end

/-! ## Safe volumes -/

/-- From `s`, mounting the volume returns 0, or -1 with the mount table as it was, and an ext2
    file system that it mounted is used without a division by zero.  The panic for lack of
    heap is left out. -/
def MountsSafely [Allocator σ] (machine : Machine σ δ) (drive : UInt8) (volume : Volume δ)
    (s : IoState σ δ) : Prop :=
  Meets OutOfMemory (mntVolumeMount machine drive volume) s fun r s' =>
    r = -1 ∧ s'.mountpoints = s.mountpoints ∨
      r = 0 ∧ ∀ ptr data, (s'.objects.filesystems (s'.drive drive)).fsData = .ext2 ptr data →
        UsedSafely σ δ data

theorem mountsSafely_of_divisible [Allocator σ] {machine : Machine σ δ} {drive : UInt8}
    {volume : Volume δ} {s : IoState σ δ}
    (h : initfsProbe (machine.volumeEnv volume) = true ∨
      ext2Probe (machine.volumeEnv volume) = false ∨ (machine.volumeEnv volume).Divisible) :
    MountsSafely machine drive volume s := by
  rw [MountsSafely, mntVolumeMount]
  cases hd : mntGetDriveIndex drive with
  | none => exact Meets.pure (Or.inl ⟨rfl, rfl⟩)
  | some index =>
    have hdrive : ∀ s' : IoState σ δ, s'.drive drive = s'.mountpoints index := fun s' => by
      rw [IoState.drive, hd]
    simp only [hdrive]
    refine Meets.get_bind ?_
    split
    · exact Meets.pure (Or.inl ⟨rfl, rfl⟩)
    rename_i h0
    split
    · rename_i hi
      exact meets_mntMountInitfs hi
    rename_i hi
    split
    · rename_i hp
      have hdiv := (h.resolve_left hi).resolve_left (by simp [hp])
      exact meets_mntMountExt2 hp hdiv (not_not.1 h0)
    · exact Meets.pure (Or.inl ⟨rfl, rfl⟩)

/-- Where a zero divisor is read from an ext2 volume for a free drive, the kernel stops in the
    divide error. -/
theorem not_mountsSafely [Allocator σ] {machine : Machine σ δ} {drive : UInt8} {index : ℕ}
    {volume : Volume δ} {s : IoState σ δ} {buffer : Mem} (hdrive : mntGetDriveIndex drive = some index)
    (h0 : s.mountpoints index = 0) (hi : initfsProbe (machine.volumeEnv volume) = false)
    (hp : ext2Probe (machine.volumeEnv volume) = true)
    (hs : Allocator.Serves s.objects.heap [vfsFilesystemSize, vfsFilesystemOperationsSize, 1048])
    (hb : ∀ heap ptr, machine.stale heap ptr = buffer)
    (hm : (ext2ReadSuperblock (machine.volumeEnv volume) buffer).sMagic = ext2SuperMagic)
    (hd : ¬ (ext2ReadSuperblock (machine.volumeEnv volume) buffer).Divisible) :
    ¬ MountsSafely machine drive volume s := by
  have hrun : Meets (· = .divideError) (mntVolumeMount machine drive volume) s
      fun _ _ => False := by
    rw [mntVolumeMount, hdrive]
    refine Meets.get_bind ?_
    rw [if_neg (not_not.2 h0), if_neg (by simp [hi]), if_pos hp]
    exact divides_mntMountExt2 hp hs hb hm hd
  intro h
  rcases hrun.cases with ⟨e, he, rfl⟩ | ⟨_, _, _, hf⟩
  · rcases Meets.cases h with ⟨e, he', hout⟩ | ⟨_, _, hok, -⟩
    · cases he.symm.trans he'
      cases hout
    · cases he.symm.trans hok
  · exact hf

/-- The state before the first mount. -/
def unmountedIo (volume : Volume δ) : IoState KernelHeap δ where
  objects := ⟨placementHeap, fun _ => .ext2 dirImageNode, fun _ => ⟨0, volume, .initfs, 0⟩,
    fun _ => ⟨0, 0, 0, 0⟩⟩
  mountpoints _ := 0
  dirDescriptors _ := ⟨0, 0⟩

theorem unmountedIo_serves (volume : Volume δ) :
    Allocator.Serves (unmountedIo volume).objects.heap
      [vfsFilesystemSize, vfsFilesystemOperationsSize, 1048] := by
  show Allocator.Serves placementHeap _
  decide +kernel

/-- A volume whose superblock has no blocks in a group. -/
def noGroupsImage : Mem := tinyImage.store32 1056 0

def noGroupsVolume : Volume Unit := (imageEnv KernelHeap noGroupsImage 8192).volume

end Ttos
