/-
  The ext2 format: what the bytes of a volume mean, in unbounded arithmetic.

  * `fileBlock`: the block of a file's block `n`, through the direct and the
    indirect pointers;
  * `fileByte`: the file's bytes;
  * `Layout`: the volumes on which the tables lie inside the volume; `WellFormed`: the
    ones on which the blocks of all inodes do so too.
-/
import Mathlib.Tactic.Positivity
import Mathlib.Tactic.Ring
import Ttos.Fs.Disk
import Ttos.Lib.BlockTree

namespace Ttos.Ext2Format

open BlockTree

variable (bytes : Mem)

/-- The superblock starts 1024 bytes into the volume. -/
def superblock : Ext2Superblock := .ofBytes bytes ext2SuperblockOffset

def blockSize : ℕ := 1024 * 2 ^ (superblock bytes).sLogBlockSize

def pointersPerBlock : ℕ := blockSize bytes / 4

/-- Revision 0 has inodes of 128 bytes. -/
def inodeSize : ℕ := if 1 ≤ (superblock bytes).sRevLevel then (superblock bytes).sInodeSize else 128

/-- The number of block groups. -/
def groups : ℕ :=
  ((superblock bytes).sBlocksCount - (superblock bytes).sFirstDataBlock +
    (superblock bytes).sBlocksPerGroup - 1) / (superblock bytes).sBlocksPerGroup

/-- The descriptors follow the superblock's block. -/
def descriptor (group : ℕ) : Ext2BlockGroupDescriptor :=
  .ofBytes bytes (((superblock bytes).sFirstDataBlock + 1) * blockSize bytes + group * 32)

def inodeGroup (inodeNo : ℕ) : ℕ := (inodeNo - 1) / (superblock bytes).sInodesPerGroup

def inodeIndex (inodeNo : ℕ) : ℕ := (inodeNo - 1) % (superblock bytes).sInodesPerGroup

def IsInode (inodeNo : ℕ) : Prop := 1 ≤ inodeNo ∧ inodeGroup bytes inodeNo < groups bytes

def inodeAddress (inodeNo : ℕ) : ℕ :=
  (descriptor bytes (inodeGroup bytes inodeNo)).bgInodeTable * blockSize bytes +
    inodeIndex bytes inodeNo * inodeSize bytes

def inode (inodeNo : ℕ) : Ext2Inode := .ofBytes bytes (inodeAddress bytes inodeNo)

/-! ## Files -/

/-- Pointer `i` of an indirect block. -/
def pointer (block i : ℕ) : ℕ := bytes.load32 (block * blockSize bytes + 4 * i)

/-- The tree that block `n` of a file lies in: its height, its root, and the
    number of the leaf. -/
def treeOf (ino : Ext2Inode) (n : ℕ) : ℕ × ℕ × ℕ :=
  let p := pointersPerBlock bytes
  if n < 12 then (0, ino.iBlock n, 0)
  else if n < 12 + p then (1, ino.iBlock 12, n - 12)
  else if n < 12 + p + p ^ 2 then (2, ino.iBlock 13, n - (12 + p))
  else if n < 12 + p + p ^ 2 + p ^ 3 then (3, ino.iBlock 14, n - (12 + p + p ^ 2))
  else (0, 0, 0)

/-- The pointers followed to a file's block. -/
def blockPath (ino : Ext2Inode) (n : ℕ) : List ℕ :=
  let t := treeOf bytes ino n
  path (pointer bytes) (pointersPerBlock bytes) t.1 t.2.1 t.2.2

/-- The block of a file's block `n`; `0` is a hole. -/
def fileBlock (ino : Ext2Inode) (n : ℕ) : ℕ :=
  let t := treeOf bytes ino n
  resolve (pointer bytes) (pointersPerBlock bytes) t.1 t.2.1 t.2.2

def fileByte (ino : Ext2Inode) (x : ℕ) : UInt8 :=
  let b := fileBlock bytes ino (x / blockSize bytes)
  if b = 0 then 0 else bytes (b * blockSize bytes + x % blockSize bytes)

/-! ## Well-formed volumes -/

/-- The block lies on the volume. -/
def InVolume (block : ℕ) : Prop := block < (superblock bytes).sBlocksCount

/-- An inode whose blocks, and the blocks of pointers to them, lie on the volume. -/
def PointersInVolume (ino : Ext2Inode) : Prop :=
  ∀ n, n * blockSize bytes < ino.iSize → ∀ b ∈ blockPath bytes ino n, InVolume bytes b

/-- A volume of `size` bytes with an ext2 file system whose tables lie inside it. -/
structure Layout (size : ℕ) : Prop where
  size_lt : size < 4294967296
  magic : (superblock bytes).sMagic = ext2SuperMagic
  log_le : (superblock bytes).sLogBlockSize ≤ 6
  blocks : (superblock bytes).sBlocksCount * blockSize bytes ≤ size
  blocksPerGroup_pos : 0 < (superblock bytes).sBlocksPerGroup
  blocksPerGroup_le : (superblock bytes).sBlocksPerGroup ≤ 8 * blockSize bytes
  inodesPerGroup_pos : 0 < (superblock bytes).sInodesPerGroup
  inodeSize_le : 128 ≤ inodeSize bytes
  inodeSize_dvd : inodeSize bytes ∣ blockSize bytes
  descriptors : ∀ g < groups bytes,
    InVolume bytes ((superblock bytes).sFirstDataBlock + 1 + g * 32 / blockSize bytes)
  inodeTables : ∀ g < groups bytes, ∀ i < (superblock bytes).sInodesPerGroup,
    InVolume bytes ((descriptor bytes g).bgInodeTable + i * inodeSize bytes / blockSize bytes)

/-- A volume of `size` bytes with a well-formed ext2 file system. -/
structure WellFormed (size : ℕ) : Prop extends Layout bytes size where
  pointers : ∀ inodeNo, IsInode bytes inodeNo → PointersInVolume bytes (inode bytes inodeNo)

variable {bytes} {size block : ℕ}

theorem blockSize_pos : 0 < blockSize bytes := by
  rw [blockSize]
  positivity

/-- Records whose size divides the block size do not cross block boundaries. -/
theorem mul_mod_add_le {k n i : ℕ} (hn : 0 < n) (h : k ∣ n) : i * k % n + k ≤ n := by
  obtain ⟨q, rfl⟩ := h
  have hq : 0 < q := Nat.pos_of_mul_pos_left hn
  have hlt := Nat.mod_lt i hq
  calc i * k % (k * q) + k = k * (i % q) + k := by rw [Nat.mul_comm i, Nat.mul_mod_mul_left]
    _ = k * (i % q + 1) := (Nat.mul_succ ..).symm
    _ ≤ k * q := Nat.mul_le_mul_left _ hlt

/-- Where byte `x` of a table of blocks is. -/
theorem block_add_mod (table x n : ℕ) : (table + x / n) * n + x % n = table * n + x := by
  rw [Nat.add_mul, Nat.mul_comm (x / n), Nat.add_assoc, Nat.div_add_mod]

namespace Layout

variable (h : Layout bytes size)
include h

theorem blockSize_le : blockSize bytes ≤ 65536 := by
  calc blockSize bytes ≤ 1024 * 2 ^ 6 :=
        Nat.mul_le_mul_left _ (Nat.pow_le_pow_right (by decide) h.log_le)
    _ = 65536 := by decide

/-- A block of the volume ends inside it. -/
theorem block_le (hb : InVolume bytes block) :
    block * blockSize bytes + blockSize bytes ≤ size := by
  calc block * blockSize bytes + blockSize bytes = (block + 1) * blockSize bytes := by ring
    _ ≤ (superblock bytes).sBlocksCount * blockSize bytes := Nat.mul_le_mul_right _ hb
    _ ≤ size := h.blocks

theorem blocksCount_lt : (superblock bytes).sBlocksCount < 4194304 := by
  have h1 : (superblock bytes).sBlocksCount * 1024 ≤ (superblock bytes).sBlocksCount * blockSize bytes :=
    Nat.mul_le_mul_left _ (Nat.le_mul_of_pos_right _ (by positivity))
  have h2 := h.blocks
  have h3 := h.size_lt
  omega

end Layout

end Ttos.Ext2Format
