/-
  Reading ext2 files: the driver computes what the format says.

  * `readBlock_eq`, `returns_readBgd`, `returns_readInode`, `returns_inodeBlock`: blocks,
    descriptors, inodes and block pointers;
  * `returns_readLoop`: the loop copies the file's bytes;
  * `ext2_reads_file`: opening and reading a file.
-/
import Ttos.Fs.Ext2Blocks
import Ttos.Fs.Ext2Format

namespace Ttos

open BlockTree Ext2Format

/-! ## The derived values -/

/-- `fs_data` of the volume with the bytes `bytes`. -/
abbrev ext2Data (bytes : Mem) : Ext2Fs := .ofSuperblock (superblock bytes)

section
variable {bytes : Mem} {size : ℕ} (hw : Layout bytes size)
include hw

theorem ext2Data_blockSize : (ext2Data bytes).blockSize = blockSize bytes := by
  have h := hw.log_le
  have h1 := hw.blockSize_le
  rw [blockSize] at h1 ⊢
  show u32 (1024 * 2 ^ ((superblock bytes).sLogBlockSize % 32)) = _
  rw [Nat.mod_eq_of_lt (by omega), u32_of_lt (by omega)]

theorem ext2Data_bgdTableBlock (h : 0 < groups bytes) :
    (ext2Data bytes).bgdTableBlock = (superblock bytes).sFirstDataBlock + 1 := by
  have h1 := (Nat.le_add_right _ _).trans_lt (hw.descriptors 0 h)
  have h2 := hw.blocksCount_lt
  exact u32_of_lt (by omega)

/-- The driver rounds up a little more than the format does. -/
theorem groups_le : groups bytes ≤ (ext2Data bytes).numBlockGroups := by
  have h1 := hw.blocksCount_lt
  have h2 := hw.blocksPerGroup_le
  have h3 := hw.blocksPerGroup_pos
  have h4 := hw.blockSize_le
  refine Nat.div_le_div_right ?_
  rw [sub32_of_le (by omega) (by omega)]
  omega

theorem groups_lt : groups bytes ≤ 4194304 := by
  have h1 := hw.blocksCount_lt
  have h3 := hw.blocksPerGroup_pos
  refine Nat.div_le_of_le_mul ?_
  omega

end

/-! ## Blocks -/

variable {σ δ : Type} {env : FsEnv σ δ} {bytes : Mem}

section
variable (hw : Layout bytes env.volume.size) (hx : env.ReadsSectors bytes)
include hw hx

theorem readBlock_eq {block : ℕ} (hb : InVolume bytes block) (buffer : Mem) :
    ext2ReadBlock env (ext2Data bytes) block buffer =
      buffer.copyFrom 0 bytes (block * blockSize bytes) (blockSize bytes) := by
  have h1 := hw.block_le hb
  have h2 := hw.size_lt
  have hpos : 0 < blockSize bytes := Nat.mul_pos (by decide) (Nat.two_pow_pos _)
  have hsector : blockSize bytes % 512 = 0 := by
    rw [blockSize]
    omega
  have hstart : block * blockSize bytes % 512 = 0 := by rw [Nat.mul_mod, hsector, Nat.mul_zero]
  rw [ext2ReadBlock, ext2Data_blockSize hw, u32_of_lt (by omega), hx _ _ _ hstart hsector hpos h1]

theorem readBlock_apply {block j : ℕ} (hb : InVolume bytes block) (hj : j < blockSize bytes)
    (buffer : Mem) : ext2ReadBlock env (ext2Data bytes) block buffer j =
      bytes (block * blockSize bytes + j) := by
  rw [readBlock_eq hw hx hb, Mem.copyFrom_in (Nat.zero_le _) (by omega), Nat.sub_zero]

/-- A pointer of an indirect block. -/
theorem readBlock_pointer {block i : ℕ} (hb : InVolume bytes block) (hi : i < pointersPerBlock bytes)
    (buffer : Mem) : (ext2ReadBlock env (ext2Data bytes) block buffer).load32 (4 * i) =
      pointer bytes block i := by
  rw [pointersPerBlock] at hi
  refine Mem.load32_shift fun j hj => ?_
  rw [readBlock_apply hw hx hb (by omega), Nat.add_assoc]

/-! ## Descriptors and inodes -/

variable [Allocator σ]

theorem returns_readBgd {group : ℕ} (hg : group < groups bytes) :
    Returns OutOfMemory (ext2ReadBgd env (ext2Data bytes) group)
      (· = some (descriptor bytes group)) := by
  have hpos : 0 < blockSize bytes := blockSize_pos
  have hlt := groups_lt hw
  have hv := hw.descriptors group hg
  have hb := hw.blocksCount_lt
  rw [ext2ReadBgd, if_neg (Nat.not_le.2 (hg.trans_le (groups_le hw)))]
  simp only [ext2Data_blockSize hw, ext2Data_bgdTableBlock hw (by omega),
    u32_of_lt (show group * 32 < 4294967296 by omega)]
  refine returns_div_bind hpos.ne' (returns_kmallocBuffer_bind rfl fun buffer => ?_)
  refine returns_kfree_bind (Returns.pure ?_)
  have hu : u32 ((superblock bytes).sFirstDataBlock + 1 + group * 32 / blockSize bytes) =
      (superblock bytes).sFirstDataBlock + 1 + group * 32 / blockSize bytes :=
    u32_of_lt (hv.trans (by omega))
  -- a descriptor does not cross a block boundary
  have hdvd : 32 ∣ blockSize bytes := dvd_mul_of_dvd_left (by decide : 32 ∣ 1024) _
  have hin := mul_mod_add_le (i := group) hpos hdvd
  rw [hu]
  refine congrArg some (congrArg Ext2BlockGroupDescriptor.mk (Mem.load32_shift fun j hj => ?_))
  rw [Nat.add_assoc (group * 32 % _), readBlock_apply hw hx hv (by omega), ← Nat.add_assoc,
    block_add_mod, ← Nat.add_assoc]

theorem returns_readInode {inodeNo : ℕ} (hi : IsInode bytes inodeNo) :
    Returns OutOfMemory (ext2ReadInode env (ext2Data bytes) inodeNo)
      (· = some (inode bytes inodeNo)) := by
  obtain ⟨h0, hg⟩ := hi
  have hpos : 0 < blockSize bytes := blockSize_pos
  have hidx : inodeIndex bytes inodeNo < (superblock bytes).sInodesPerGroup :=
    Nat.mod_lt _ hw.inodesPerGroup_pos
  have hv := hw.inodeTables _ hg _ hidx
  have hb := hw.block_le hv
  have hc := hw.blocksCount_lt
  have hs := hw.size_lt
  have hadd := block_add_mod (descriptor bytes (inodeGroup bytes inodeNo)).bgInodeTable
    (inodeIndex bytes inodeNo * inodeSize bytes) (blockSize bytes)
  have hmod := Nat.mod_lt (inodeIndex bytes inodeNo * inodeSize bytes) hpos
  rw [ext2ReadInode, if_neg (by omega)]
  refine returns_div_bind hw.inodesPerGroup_pos.ne' ?_
  refine (returns_readBgd hw hx hg).bind ?_
  rintro _ rfl
  have hu : u32 (inodeIndex bytes inodeNo * inodeSize bytes) =
      inodeIndex bytes inodeNo * inodeSize bytes := u32_of_lt (by omega)
  show Returns _ (divOrFault (u32 (inodeIndex bytes inodeNo * inodeSize bytes))
    (ext2Data bytes).blockSize >>= _) _
  rw [hu, ext2Data_blockSize hw]
  refine returns_div_bind hpos.ne' (returns_kmallocBuffer_bind rfl fun buffer => ?_)
  refine returns_kfree_bind (Returns.pure (congrArg some ?_))
  change Ext2Inode.ofBytes _ (u32 (inodeIndex bytes inodeNo * inodeSize bytes) % _) = _
  rw [hu, u32_of_lt (hv.trans (by omega))]
  -- an inode does not cross a block boundary
  have hin := mul_mod_add_le (i := inodeIndex bytes inodeNo) hpos hw.inodeSize_dvd
  have hle := hw.inodeSize_le
  refine Ext2Inode.ofBytes_shift fun j hj => ?_
  rw [readBlock_apply hw hx hv (by omega), ← Nat.add_assoc]
  exact congrArg (fun x => bytes (x + j)) hadd

end

/-! ## Block pointers -/

theorem pointersPerBlock_pos (bytes : Mem) : 0 < pointersPerBlock bytes := by
  have : 0 < 2 ^ (superblock bytes).sLogBlockSize := Nat.two_pow_pos _
  rw [pointersPerBlock, blockSize]
  omega

theorem square_lt (hw : Layout bytes env.volume.size) :
    pointersPerBlock bytes ^ 2 < 4294967296 := by
  have h1 : pointersPerBlock bytes ≤ 16384 := Nat.div_le_div_right hw.blockSize_le
  calc pointersPerBlock bytes ^ 2 ≤ 16384 ^ 2 := Nat.pow_le_pow_left h1 2
    _ < 4294967296 := by decide

/-- Blocks on the volume are delivered as they are. -/
theorem delivers_pointer (hw : Layout bytes env.volume.size) (hx : env.ReadsSectors bytes) {block : ℕ}
    (hb : InVolume bytes block) : Delivers env (ext2Data bytes) (pointer bytes) block := by
  intro buffer i hi
  rw [ext2Data_blockSize hw] at hi
  exact readBlock_pointer hw hx hb hi buffer

theorem returns_inodeBlock [Allocator σ] (hw : Layout bytes env.volume.size)
    (hx : env.ReadsSectors bytes) {ino : Ext2Inode} {index : ℕ}
    (hi : index < 12 + pointersPerBlock bytes + pointersPerBlock bytes ^ 2 + pointersPerBlock bytes ^ 3)
    (hp : ∀ b ∈ blockPath bytes ino index, InVolume bytes b) :
    Returns OutOfMemory (σ := σ) (ext2InodeBlock env (ext2Data bytes) ino index)
      (· = fileBlock bytes ino index) := by
  have hb : (ext2Data bytes).blockSize / 4 = pointersPerBlock bytes := by
    rw [ext2Data_blockSize hw, pointersPerBlock]
  refine returns_mappedBlock (pointersPerBlock_pos bytes) (square_lt hw) hb (Or.inl hi) ?_
  exact fun b h => delivers_pointer hw hx (hp b (inner_subset_path h))

/-- A node for the inode `inodeNo`, as `ext2_build_node` makes it. -/
structure VfsNode.IsFor (node : VfsNode Ext2Inode) (bytes : Mem) (inodeNo : ℕ) : Prop where
  inode : node.inode = inodeNo
  type : node.type = ext2NodeType (Ext2Format.inode bytes inodeNo).iMode
  inodeData : node.inodeData = .null

/-! ## Nodes and mounting -/

theorem returns_buildNode [Allocator σ] {filesystem inodeNo : ℕ} {name : List UInt8} :
    Returns OutOfMemory (σ := σ)
      (ext2BuildNode filesystem inodeNo name (inode bytes inodeNo)) (·.2.IsFor bytes inodeNo) :=
  returns_kmalloc_bind rfl fun _ _ => Returns.pure ⟨rfl, rfl, rfl⟩

/-- The superblock as it is read from a volume that it lies on. -/
theorem superblock_read (hs : 2048 ≤ env.volume.size) (hx : env.ReadsSectors bytes) (buffer : Mem) :
    Ext2Superblock.ofBytes (env.read ext2SuperblockOffset 1024 buffer).2 0 = superblock bytes := by
  rw [hx _ _ _ (by decide) (by decide) (by decide) (show ext2SuperblockOffset + 1024 ≤ _ from hs)]
  refine Ext2Superblock.ofBytes_shift fun j hj => ?_
  dsimp only
  rw [Mem.copyFrom_in (Nat.zero_le _) (by omega), Nat.sub_zero, Nat.zero_add]

/-- Mounting a well-formed volume gives the derived values and the root node. -/
theorem returns_mount [Allocator σ] (hw : Layout bytes env.volume.size) (hx : env.ReadsSectors bytes)
    (hi : IsInode bytes ext2RootInode) {filesystem : ℕ} :
    Returns OutOfMemory (σ := σ) (ext2Mount env filesystem)
      fun r => ∃ ptr root, r = some ((ptr, ext2Data bytes), root) ∧ root.2.IsFor bytes ext2RootInode := by
  -- the superblock lies before the descriptors
  have hsize : 2048 ≤ env.volume.size := by
    have h1 := hw.block_le (hw.descriptors 0 (by have := hi.2; omega))
    have h2 : 1024 ≤ blockSize bytes := Nat.le_mul_of_pos_right _ (by positivity)
    have h3 : blockSize bytes ≤ ((superblock bytes).sFirstDataBlock + 1 + 0 * 32 / blockSize bytes) *
        blockSize bytes := Nat.le_mul_of_pos_left _ (Nat.add_pos_left (Nat.succ_pos _) _)
    omega
  refine returns_kmallocBuffer_bind rfl fun buffer => ?_
  simp only [superblock_read hsize hx]
  rw [if_neg (by simpa using hw.magic)]
  refine returns_div_bind hw.blocksPerGroup_pos.ne' ?_
  refine (returns_readInode hw hx hi).bind ?_
  rintro _ rfl
  exact returns_buildNode.bind fun root hr => Returns.pure ⟨_, root, rfl, hr⟩

/-! ## Reading -/

theorem fileBlock_inVolume {ino : Ext2Inode} {n : ℕ} (h : ∀ b ∈ blockPath bytes ino n, InVolume bytes b)
    (h0 : fileBlock bytes ino n ≠ 0) : InVolume bytes (fileBlock bytes ino n) :=
  h _ (resolve_mem_path.resolve_left h0)

/-- The bytes of a file from `x` to the end of its block. -/
theorem fileByte_add {ino : Ext2Inode} {x i : ℕ}
    (h : x % blockSize bytes + i < blockSize bytes) : fileByte bytes ino (x + i) =
      if fileBlock bytes ino (x / blockSize bytes) = 0 then 0
      else bytes (fileBlock bytes ino (x / blockSize bytes) * blockSize bytes +
        (x % blockSize bytes + i)) := by
  have hx : blockSize bytes * (x / blockSize bytes) + (x % blockSize bytes + i) = x + i := by
    rw [← Nat.add_assoc, Nat.div_add_mod]
  have hdiv : (x + i) / blockSize bytes = x / blockSize bytes := by
    rw [← hx, Nat.mul_add_div blockSize_pos, Nat.div_eq_of_lt h, Nat.add_zero]
  have hmod : (x + i) % blockSize bytes = x % blockSize bytes + i := by
    rw [← hx, Nat.mul_add_mod, Nat.mod_eq_of_lt h]
  rw [fileByte, hdiv, hmod]

section
variable (hw : Layout bytes env.volume.size) (hx : env.ReadsSectors bytes) [Allocator σ]
include hw hx

omit hw hx [Allocator σ] in
/-- The blocks of a file are reached by the pointers. -/
theorem fileIndex_lt {x : ℕ} (h : x < 4294967296) : x / blockSize bytes <
    12 + pointersPerBlock bytes + pointersPerBlock bytes ^ 2 + pointersPerBlock bytes ^ 3 := by
  have h1 : 1024 ≤ blockSize bytes := Nat.le_mul_of_pos_right _ (by positivity)
  have h2 : 256 ≤ pointersPerBlock bytes := Nat.div_le_div_right (c := 4) h1
  have h3 : 256 ^ 3 ≤ pointersPerBlock bytes ^ 3 := Nat.pow_le_pow_left h2 3
  have h4 : x / blockSize bytes ≤ x / 1024 := Nat.div_le_div_left h1 (by decide)
  omega

/-- The loop of `ext2_read` from `n` bytes on. -/
theorem returns_readLoop {ino : Ext2Inode} (hp : PointersInVolume bytes ino)
    (hlt : ino.iSize < 2147483648) {offset size : ℕ} (hle : offset + size ≤ ino.iSize) :
    ∀ fuel n blockBuffer buffer, n ≤ size → size - n < fuel →
      Returns OutOfMemory (σ := σ)
        (ext2ReadLoop env (ext2Data bytes) ino offset size fuel n blockBuffer buffer)
        fun r => r.1 = size ∧ ∀ j, r.2 j =
          if n ≤ j ∧ j < size then fileByte bytes ino (offset + j) else buffer j := by
  intro fuel
  induction fuel with
  | zero =>
    intro n _ _ _ hf
    exact absurd hf (Nat.not_lt_zero _)
  | succ fuel ih =>
    intro n blockBuffer buffer hn hf
    rw [ext2ReadLoop]
    by_cases hlast : n = size
    · rw [if_neg (by omega)]
      refine Returns.pure ⟨hlast, fun j => ?_⟩
      rw [if_neg (by omega)]
    have hpos : 0 < blockSize bytes := blockSize_pos
    have hmod := Nat.mod_lt (offset + n) hpos
    rw [if_pos (by omega), u32_of_lt (by omega), ext2Data_blockSize hw]
    refine returns_div_bind hpos.ne' ?_
    dsimp only
    generalize hc : (if size - n < blockSize bytes - (offset + n) % blockSize bytes then size - n
      else blockSize bytes - (offset + n) % blockSize bytes) = chunk
    have hchunk : 0 < chunk ∧ n + chunk ≤ size ∧
        (offset + n) % blockSize bytes + chunk ≤ blockSize bytes := by
      split at hc <;> omega
    -- it is enough that the iteration stores the chunk
    have hstep : ∀ blockBuffer' buffer', (∀ j, buffer' j =
        if n ≤ j ∧ j < n + chunk then fileByte bytes ino (offset + j) else buffer j) →
        Returns OutOfMemory (σ := σ) (ext2ReadLoop env (ext2Data bytes) ino offset size fuel (n + chunk)
          blockBuffer' buffer') fun r => r.1 = size ∧ ∀ j, r.2 j =
            if n ≤ j ∧ j < size then fileByte bytes ino (offset + j) else buffer j := by
      intro blockBuffer' buffer' hb
      refine (ih (n + chunk) _ _ (by omega) (by omega)).mono fun r hr => ⟨hr.1, fun j => ?_⟩
      rw [hr.2, hb]
      split_ifs <;> first | rfl | omega
    have hb := fun i => @fileByte_add bytes ino (offset + n) i
    have hpath := hp ((offset + n) / blockSize bytes)
      ((Nat.div_mul_le_self _ _).trans_lt (by omega))
    refine (returns_inodeBlock hw hx (fileIndex_lt (by omega)) hpath).bind ?_
    rintro _ rfl
    split
    · rename_i h0
      refine hstep _ _ fun j => ?_
      rw [Mem.fill]
      split
      · rename_i hj
        have h := hb (j - n) (by omega)
        rwa [if_pos h0, show offset + n + (j - n) = offset + j by omega, eq_comm] at h
      · rfl
    · rename_i h0
      refine hstep _ _ fun j => ?_
      rw [Mem.copyFrom]
      split
      · rename_i hj
        have h := hb (j - n) (by omega)
        rw [if_neg h0, show offset + n + (j - n) = offset + j by omega] at h
        rw [h, readBlock_apply hw hx (fileBlock_inVolume hpath h0) (by omega)]
      · rfl

/-- `ext2_open` of a node that is no directory loads its inode. -/
theorem returns_open {node : VfsNode Ext2Inode} (hi : IsInode bytes node.inode)
    (hd : node.type ≠ .directory) :
    Returns OutOfMemory (σ := σ) (ext2Open env (ext2Data bytes) node) fun r =>
      r.1 = 0 ∧ ∃ ptr, r.2 = { node with inodeData := .loaded ptr (inode bytes node.inode) } := by
  rw [ext2Open, if_neg hd]
  refine returns_kmalloc_bind rfl fun ptr _ => ?_
  refine (returns_readInode hw hx hi).bind ?_
  rintro _ rfl
  exact Returns.pure ⟨rfl, ptr, rfl⟩

theorem returns_read {node : VfsNode Ext2Inode} {ino : Ext2Inode} {ptr : ℕ}
    (hd : node.inodeData = .loaded ptr ino) (hp : PointersInVolume bytes ino)
    (hlt : ino.iSize < 2147483648) {offset size : ℕ} (ho : offset ≤ ino.iSize)
    (hs : size ≤ ino.iSize - offset) (buffer : Mem) :
    Returns OutOfMemory (σ := σ) (ext2Read env (ext2Data bytes) node offset size buffer) fun r =>
      r.1 = size ∧ ∀ j, r.2 j = if j < size then fileByte bytes ino (offset + j) else buffer j := by
  have hu : u32 (offset + size) = offset + size := u32_of_lt (by omega)
  have hclamp : (if ino.iSize < offset + size then ino.iSize - offset else size) = size :=
    if_neg (by omega)
  simp only [ext2Read, hd, hu, hclamp, if_neg (Nat.not_lt.2 ho)]
  by_cases h0 : size = 0
  · rw [if_pos h0, h0]
    exact Returns.pure ⟨rfl, fun j => rfl⟩
  rw [if_neg h0]
  refine returns_kmallocBuffer_bind rfl fun blockBuffer => ?_
  refine (returns_readLoop hw hx hp hlt (by omega) _ _ _ buffer (Nat.zero_le _) (by omega)).bind ?_
  rintro ⟨n, buffer'⟩ ⟨rfl, hb⟩
  refine returns_kfree_bind (Returns.pure ⟨int32_of_lt (by omega), fun j => ?_⟩)
  rw [hb]
  simp only [Nat.zero_le, true_and]

end

/-- **Reading a file of a well-formed volume** gives the file's bytes, unless the
    kernel runs out of heap. -/
theorem ext2_reads_file [Allocator σ] (env : FsEnv σ δ) (bytes : Mem)
    (hw : WellFormed bytes env.volume.size) (hx : env.ReadsSectors bytes) (inodeNo : ℕ)
    (hi : IsInode bytes inodeNo) (hlt : (inode bytes inodeNo).iSize < 2147483648)
    (hd : ext2NodeType (inode bytes inodeNo).iMode ≠ .directory)
    (node : VfsNode Ext2Inode) (hn : node.IsFor bytes inodeNo) (offset size : ℕ)
    (ho : offset ≤ (inode bytes inodeNo).iSize) (hs : size ≤ (inode bytes inodeNo).iSize - offset)
    (buffer : Mem) :
    Returns OutOfMemory (σ := σ)
      (do
        let (_, node) ← ext2Open env (ext2Data bytes) node
        ext2Read env (ext2Data bytes) node offset size buffer)
      fun r => r.1 = size ∧
        ∀ j, r.2 j = if j < size then fileByte bytes (inode bytes inodeNo) (offset + j) else buffer j := by
  refine (returns_open hw.toLayout hx (hn.inode ▸ hi) (by rw [hn.type]; exact hd)).bind ?_
  rintro ⟨r, node'⟩ ⟨-, ptr, hnode⟩
  obtain rfl : node' = _ := hnode
  rw [hn.inode]
  exact returns_read hw.toLayout hx rfl (hw.pointers _ hi) hlt ho hs buffer

/-! ## A small volume -/

/-- Eight blocks of 1 KiB with one group: inode 2 is a directory in block 6,
    inode 3 the file "hi" in block 7. -/
def tinyImage : Mem :=
  let m : Mem := fun _ => 0
  let m := (((m.store32 1028 8).store32 1044 1).store32 1056 8192).store32 1064 8
  let m := (m.store32 1080 0xEF53).store32 2056 5
  let m := ((m.store32 5248 0x4000).store32 5252 1024).store32 5288 6
  let m := ((m.store32 5376 0x8000).store32 5380 2).store32 5416 7
  (m.store8 7168 0x68).store8 7169 0x69

/-- The superblock of the small volume. -/
def tinySuperblock : Ext2Superblock := ⟨8, 1, 0, 8192, 8, 0xEF53, 0, 0⟩

theorem tinyImage_superblock : superblock tinyImage = tinySuperblock := by
  decide +kernel

theorem tinyImage_inodes : ∀ no < 9,
    (inode tinyImage no).iSize ≤ 1024 ∧ (inode tinyImage no).iBlock 0 < 8 := by
  decide +kernel

section
variable {bytes : Mem} (hs : superblock bytes = tinySuperblock)
include hs

theorem tiny_blockSize : blockSize bytes = 1024 := by
  rw [blockSize, hs]
  rfl

theorem tiny_groups : groups bytes = 1 := by
  rw [groups, hs]
  rfl

theorem tiny_isInode {no : ℕ} : IsInode bytes no ↔ 1 ≤ no ∧ no < 9 := by
  rw [IsInode, tiny_groups hs, inodeGroup, hs]
  simp only [tinySuperblock]
  omega

theorem tiny_inVolume {block : ℕ} : InVolume bytes block ↔ block < 8 := by
  rw [InVolume, hs]
  rfl

theorem tiny_layout (hd : descriptor bytes 0 = ⟨5⟩) : Layout bytes 8192 where
  size_lt := by decide
  magic := by rw [hs]; rfl
  log_le := by rw [hs]; decide
  blocks := by rw [hs, tiny_blockSize hs]; decide
  blocksPerGroup_pos := by rw [hs]; decide
  blocksPerGroup_le := by rw [hs, tiny_blockSize hs]; decide
  inodesPerGroup_pos := by rw [hs]; decide
  inodeSize_le := by rw [inodeSize, hs]; decide
  inodeSize_dvd := by rw [inodeSize, hs, tiny_blockSize hs]; decide
  descriptors g hg := by
    rw [tiny_groups hs] at hg
    rw [tiny_inVolume hs, hs, tiny_blockSize hs]
    simp only [tinySuperblock]
    omega
  inodeTables g hg i hi := by
    rw [tiny_groups hs] at hg
    obtain rfl : g = 0 := by omega
    have hsize : inodeSize bytes = 128 := by rw [inodeSize, hs]; rfl
    rw [hs] at hi
    rw [tiny_inVolume hs, hd, hsize, tiny_blockSize hs]
    simp only [tinySuperblock] at hi ⊢
    omega

end

theorem tinyImage_isInode {no : ℕ} : IsInode tinyImage no ↔ 1 ≤ no ∧ no < 9 :=
  tiny_isInode tinyImage_superblock

theorem tinyImage_wellFormed : WellFormed tinyImage 8192 where
  toLayout := tiny_layout tinyImage_superblock (by decide +kernel)
  pointers no hno n hn b hb := by
    obtain ⟨hs, h8⟩ := tinyImage_inodes no (tinyImage_isInode.1 hno).2
    rw [tiny_blockSize tinyImage_superblock] at hn
    obtain rfl : n = 0 := by omega
    obtain rfl : b = _ := List.mem_singleton.1 hb
    exact (tiny_inVolume tinyImage_superblock).2 h8

/-- The node of inode `no` of the small volume. -/
def tinyNode (no : ℕ) : VfsNode Ext2Inode where
  name := []
  permissions := 0
  type := ext2NodeType (inode tinyImage no).iMode
  uid := 0
  gid := 0
  length := (inode tinyImage no).iSize
  inode := no
  inodeData := .null
  filesystem := 0

theorem ext2_reads_file_tiny :
    (inode tinyImage 3).iSize = 2 ∧ Returns OutOfMemory (σ := KernelHeap)
      (do
        let (_, node) ← ext2Open (imageEnv _ tinyImage 8192) (ext2Data tinyImage) (tinyNode 3)
        ext2Read (imageEnv _ tinyImage 8192) (ext2Data tinyImage) node 1 1 fun _ => 0)
      fun r => r.1 = 1 ∧ ∀ j, r.2 j =
        if j < 1 then fileByte tinyImage (inode tinyImage 3) (1 + j) else 0 := by
  have hs : (inode tinyImage 3).iSize = 2 := by decide +kernel
  exact ⟨hs, ext2_reads_file (imageEnv KernelHeap tinyImage 8192) tinyImage tinyImage_wellFormed
    (imageEnv_exact (by decide)).readsSectors 3 (tinyImage_isInode.2 (by decide)) (by rw [hs]; decide)
    (by decide +kernel) (tinyNode 3) ⟨rfl, rfl, rfl⟩ 1 1 (by rw [hs]; decide) (by rw [hs]) _⟩

/-- The directory of the small volume has contents, but reading it fails. -/
theorem ext2_reads_no_directory :
    WellFormed tinyImage 8192 ∧ (imageEnv KernelHeap tinyImage 8192).Exact tinyImage ∧
      IsInode tinyImage 2 ∧ (inode tinyImage 2).iSize = 1024 ∧ (tinyNode 2).IsFor tinyImage 2 ∧
      ¬ Returns OutOfMemory (σ := KernelHeap)
        (do
          let (_, node) ← ext2Open (imageEnv _ tinyImage 8192) (ext2Data tinyImage) (tinyNode 2)
          ext2Read (imageEnv _ tinyImage 8192) (ext2Data tinyImage) node 0 1 fun _ => 0)
        fun r => r.1 = 1 := by
  refine ⟨tinyImage_wellFormed, imageEnv_exact (by decide), tinyImage_isInode.2 (by decide),
    by decide +kernel, ⟨rfl, rfl, rfl⟩, fun h => ?_⟩
  have hd : (tinyNode 2).type = .directory := by decide +kernel
  have hh := h (KernelHeap.boot 0x200000 (fun _ => 0) (by decide))
  rw [ext2Open, if_pos hd, Meets] at hh
  exact absurd (show (-1 : Int) = 1 from hh) (by decide)

end Ttos
