/-
  On-disk formats: ext2 (ext2.h) and the initial ramdisk (initfs.h).

  The structures hold the fields that the drivers read; `ofBytes` decodes them
  where they start in a memory, little-endian and without padding.
-/
import Ttos.Lib.Bytes

namespace Ttos

/-! ## ext2 -/

/-- `EXT2_SUPERBLOCK_OFFSET` -/
abbrev ext2SuperblockOffset : ℕ := 1024

/-- `EXT2_SUPER_MAGIC` -/
abbrev ext2SuperMagic : ℕ := 0xEF53

/-- `EXT2_ROOT_INODE` -/
abbrev ext2RootInode : ℕ := 2

/-- `ext2_superblock_t` -/
structure Ext2Superblock where
  sBlocksCount : ℕ
  sFirstDataBlock : ℕ
  sLogBlockSize : ℕ
  sBlocksPerGroup : ℕ
  sInodesPerGroup : ℕ
  sMagic : ℕ
  sRevLevel : ℕ
  sInodeSize : ℕ
deriving DecidableEq, Repr

def Ext2Superblock.ofBytes (m : Mem) (a : ℕ) : Ext2Superblock where
  sBlocksCount := m.load32 (a + 4)
  sFirstDataBlock := m.load32 (a + 20)
  sLogBlockSize := m.load32 (a + 24)
  sBlocksPerGroup := m.load32 (a + 32)
  sInodesPerGroup := m.load32 (a + 40)
  sMagic := m.load16 (a + 56)
  sRevLevel := m.load32 (a + 76)
  sInodeSize := m.load16 (a + 88)

/-- A superblock depends on its 1024 bytes only. -/
theorem Ext2Superblock.ofBytes_shift {m m' : Mem} {a b : ℕ}
    (h : ∀ j < 1024, m' (b + j) = m (a + j)) : ofBytes m' b = ofBytes m a := by
  have h16 : ∀ k, k + 2 ≤ 1024 → m'.load16 (b + k) = m.load16 (a + k) := fun k hk =>
    Mem.load16_shift fun j hj => by rw [Nat.add_assoc, Nat.add_assoc, h _ (by omega)]
  have h32 : ∀ k, k + 4 ≤ 1024 → m'.load32 (b + k) = m.load32 (a + k) := fun k hk =>
    Mem.load32_shift fun j hj => by rw [Nat.add_assoc, Nat.add_assoc, h _ (by omega)]
  simp only [ofBytes, h16 56 (by omega), h16 88 (by omega), h32 4 (by omega), h32 20 (by omega),
    h32 24 (by omega), h32 32 (by omega), h32 40 (by omega), h32 76 (by omega)]

/-- `ext2_block_group_descriptor_t` -/
structure Ext2BlockGroupDescriptor where
  bgInodeTable : ℕ
deriving DecidableEq, Repr

def Ext2BlockGroupDescriptor.ofBytes (m : Mem) (a : ℕ) : Ext2BlockGroupDescriptor where
  bgInodeTable := m.load32 (a + 8)

/-- `EXT2_S_IFMT` -/
abbrev ext2SIfmt : ℕ := 0xF000

/-- `EXT2_S_IFDIR` -/
abbrev ext2SIfdir : ℕ := 0x4000

/-- `EXT2_S_IFLNK` -/
abbrev ext2SIflnk : ℕ := 0xA000

/-- `ext2_inode_t`; `iBlock` has 15 entries. -/
structure Ext2Inode where
  iMode : ℕ
  iUid : ℕ
  iSize : ℕ
  iGid : ℕ
  iBlock : ℕ → ℕ

def Ext2Inode.ofBytes (m : Mem) (a : ℕ) : Ext2Inode where
  iMode := m.load16 a
  iUid := m.load16 (a + 2)
  iSize := m.load32 (a + 4)
  iGid := m.load16 (a + 24)
  iBlock i := if i < 15 then m.load32 (a + 40 + 4 * i) else 0

/-- An inode depends on its 128 bytes only. -/
theorem Ext2Inode.ofBytes_shift {m m' : Mem} {a b : ℕ} (h : ∀ j < 128, m' (b + j) = m (a + j)) :
    ofBytes m' b = ofBytes m a := by
  have h16 : ∀ k, k + 2 ≤ 128 → m'.load16 (b + k) = m.load16 (a + k) := fun k hk =>
    Mem.load16_shift fun j hj => by rw [Nat.add_assoc, Nat.add_assoc, h _ (by omega)]
  have h32 : ∀ k, k + 4 ≤ 128 → m'.load32 (b + k) = m.load32 (a + k) := fun k hk =>
    Mem.load32_shift fun j hj => by rw [Nat.add_assoc, Nat.add_assoc, h _ (by omega)]
  rw [ofBytes, ofBytes, h16 2 (by omega), h16 24 (by omega), h32 4 (by omega)]
  refine congrArg₂ (fun mode block => Ext2Inode.mk mode _ _ _ block) (h16 0 (by omega)) ?_
  funext i
  split
  · rw [Nat.add_assoc, Nat.add_assoc, h32 _ (by omega)]
  · rfl

/-- `ext2_dir_entry_t`; the name follows it. -/
structure Ext2DirEntry where
  inode : ℕ
  recLen : ℕ
  nameLen : ℕ
deriving DecidableEq, Repr

def Ext2DirEntry.ofBytes (m : Mem) (a : ℕ) : Ext2DirEntry where
  inode := m.load32 a
  recLen := m.load16 (a + 4)
  nameLen := (m (a + 6)).toNat

/-- `sizeof(ext2_dir_entry_t)` -/
abbrev ext2DirEntrySize : ℕ := 8

/-! ## The initial ramdisk -/

/-- `INITFS_HEADER_MAGIC` -/
abbrev initfsHeaderMagic : ℕ := 0xDEAD

/-- `INITFS_FILE_HEADER_MAGIC` -/
abbrev initfsFileHeaderMagic : ℕ := 0xBEEF

/-- `initfs_header_t` -/
structure InitfsHeader where
  magic : ℕ
  nFiles : ℕ
deriving DecidableEq, Repr

def InitfsHeader.ofBytes (m : Mem) (a : ℕ) : InitfsHeader where
  magic := m.load16 a
  nFiles := m.load32 (a + 2)

/-- `sizeof(initfs_header_t)` -/
abbrev initfsHeaderSize : ℕ := 6

/-- `initfs_file_header_t` -/
structure InitfsFileHeader where
  magic : ℕ
  name : List UInt8
  offset : ℕ
  length : ℕ
deriving DecidableEq, Repr

def InitfsFileHeader.ofBytes (m : Mem) (a : ℕ) : InitfsFileHeader where
  magic := m.load16 a
  name := (List.range 64).map fun i => m (a + 2 + i)
  offset := m.load32 (a + 66)
  length := m.load32 (a + 70)

/-- `sizeof(initfs_file_header_t)` -/
abbrev initfsFileHeaderSize : ℕ := 74

end Ttos
