/-
  The ext2 driver (ext2.c): mounting, inodes, reading files and directories.

  `ext2InodeBlock` walks the block pointers of an inode in one buffer that is
  used for every level; `ext2Read` copies a file block by block; `ext2Readdir` and
  `ext2Finddir` walk the entries of a directory in one buffer for all its blocks.
-/
import Ttos.Fs.Disk
import Ttos.Fs.Vfs
import Ttos.Lib.CString
import Ttos.Lib.Word

namespace Ttos

/-- `ext2_fs_t`, the derived values -/
structure Ext2Fs where
  blockSize : ℕ
  inodeSize : ℕ
  inodesPerGroup : ℕ
  blocksPerGroup : ℕ
  bgdTableBlock : ℕ
  numBlockGroups : ℕ
deriving DecidableEq, Repr

/-- What `ext2_mount` derives from a superblock whose `s_blocks_per_group` is not
    zero.  The processor takes a shift count modulo 32. -/
def Ext2Fs.ofSuperblock (superblock : Ext2Superblock) : Ext2Fs where
  blockSize := u32 (1024 * 2 ^ (superblock.sLogBlockSize % 32))
  blocksPerGroup := superblock.sBlocksPerGroup
  inodesPerGroup := superblock.sInodesPerGroup
  inodeSize := if 1 ≤ superblock.sRevLevel then superblock.sInodeSize else 128
  bgdTableBlock := u32 (superblock.sFirstDataBlock + 1)
  numBlockGroups := sub32 (superblock.sBlocksCount + superblock.sBlocksPerGroup) 1 /
    superblock.sBlocksPerGroup

variable {σ δ : Type} (env : FsEnv σ δ) (data : Ext2Fs)

/-- `ext2_read_block`: what the buffer holds afterwards. -/
def ext2ReadBlock (block : ℕ) (buffer : Mem) : Mem :=
  (env.read (u32 (block * data.blockSize)) data.blockSize buffer).2

variable [Allocator σ]

/-! ## Inodes -/

/-- `ext2_read_bgd` -/
def ext2ReadBgd (group : ℕ) : FsM σ (Option Ext2BlockGroupDescriptor) :=
  if data.numBlockGroups ≤ group then pure none
  else do
    let offset := u32 (group * 32)
    let block := u32 (data.bgdTableBlock + (← divOrFault offset data.blockSize))
    let offsetInBlock := offset % data.blockSize
    let (ptr, blockBuffer) ← env.kmallocBuffer data.blockSize
    let blockBuffer := ext2ReadBlock env data block blockBuffer
    kfree ptr
    pure (some (.ofBytes blockBuffer offsetInBlock))

/-- `ext2_read_inode` -/
def ext2ReadInode (inodeNo : ℕ) : FsM σ (Option Ext2Inode) :=
  if inodeNo = 0 then pure none
  else do
    let group ← divOrFault (inodeNo - 1) data.inodesPerGroup
    let index := (inodeNo - 1) % data.inodesPerGroup
    match ← ext2ReadBgd env data group with
    | none => pure none
    | some bgd => do
      let offset := u32 (index * data.inodeSize)
      let block := u32 (bgd.bgInodeTable + (← divOrFault offset data.blockSize))
      let offsetInBlock := offset % data.blockSize
      let (ptr, blockBuffer) ← env.kmallocBuffer data.blockSize
      let blockBuffer := ext2ReadBlock env data block blockBuffer
      kfree ptr
      pure (some (.ofBytes blockBuffer offsetInBlock))

/-- The single indirect part of `ext2_inode_block`: one level of pointers. -/
def ext2SingleIndirect (blockBuffer : Mem) (block index : ℕ) : ℕ :=
  if block ≠ 0 then (ext2ReadBlock env data block blockBuffer).load32 (4 * index) else 0

/-- The double indirect part of `ext2_inode_block`. -/
def ext2DoubleIndirect (blockBuffer : Mem) (block index : ℕ) : ℕ :=
  let pointersPerBlock := data.blockSize / 4
  if block ≠ 0 then
    let blockBuffer := ext2ReadBlock env data block blockBuffer
    let single := blockBuffer.load32 (4 * (index / pointersPerBlock))
    if single ≠ 0 then
      (ext2ReadBlock env data single blockBuffer).load32 (4 * (index % pointersPerBlock))
    else 0
  else 0

/-- The triple indirect part of `ext2_inode_block`. -/
def ext2TripleIndirect (blockBuffer : Mem) (block index : ℕ) : FsM σ ℕ :=
  let pointersPerBlock := data.blockSize / 4
  let square := u32 (pointersPerBlock * pointersPerBlock)
  if block ≠ 0 then do
    let blockBuffer := ext2ReadBlock env data block blockBuffer
    let double := blockBuffer.load32 (4 * (← divOrFault index square))
    if double ≠ 0 then
      let blockBuffer := ext2ReadBlock env data double blockBuffer
      let remainder := index % square
      let single := blockBuffer.load32 (4 * (remainder / pointersPerBlock))
      if single ≠ 0 then
        pure ((ext2ReadBlock env data single blockBuffer).load32 (4 * (remainder % pointersPerBlock)))
      else pure 0
    else pure 0
  else pure 0

/-- The part of `ext2_inode_block` behind the direct pointers. -/
def ext2IndirectBlock (blockBuffer : Mem) (inode : Ext2Inode) (index : ℕ) : FsM σ ℕ :=
  let pointersPerBlock := data.blockSize / 4
  let square := u32 (pointersPerBlock * pointersPerBlock)
  if index < pointersPerBlock then
    pure (ext2SingleIndirect env data blockBuffer (inode.iBlock 12) index)
  else
    let index := index - pointersPerBlock
    if index < square then
      pure (ext2DoubleIndirect env data blockBuffer (inode.iBlock 13) index)
    else ext2TripleIndirect env data blockBuffer (inode.iBlock 14) (index - square)

/-- `ext2_inode_block`: the block of a file's block `index`, `0` for a hole. -/
def ext2InodeBlock (inode : Ext2Inode) (index : ℕ) : FsM σ ℕ :=
  if index < 12 then pure (inode.iBlock index)
  else do
    let (ptr, blockBuffer) ← env.kmallocBuffer data.blockSize
    let result ← ext2IndirectBlock env data blockBuffer inode (index - 12)
    kfree ptr
    pure result

/-! ## Nodes -/

/-- The file type in an inode's mode. -/
def ext2NodeType (iMode : ℕ) : VfsType :=
  if iMode &&& ext2SIfmt = ext2SIfdir then .directory
  else if iMode &&& ext2SIfmt = ext2SIflnk then .symlink
  else .file

/-- `ext2_build_node`: the node's address and the node. -/
def ext2BuildNode (filesystem inodeNo : ℕ) (name : List UInt8) (inode : Ext2Inode) :
    FsM σ (ℕ × VfsNode Ext2Inode) := do
  let ptr ← kmallocOrPanic vfsNodeSize
  pure (ptr,
    { name := name.take 256
      permissions := inode.iMode &&& 0x0FFF
      type := ext2NodeType inode.iMode
      uid := inode.iUid
      gid := inode.iGid
      length := inode.iSize
      inode := inodeNo
      inodeData := .null
      filesystem := filesystem })

/-- `ext2_mount`: `fs_data` with its address, and the root node; `none` is an
    error. -/
def ext2Mount (filesystem : ℕ) : FsM σ (Option ((ℕ × Ext2Fs) × ℕ × VfsNode Ext2Inode)) := do
  let (ptr, buffer) ← env.kmallocBuffer 1048
  let superblock := Ext2Superblock.ofBytes (env.read ext2SuperblockOffset 1024 buffer).2 0
  if superblock.sMagic ≠ ext2SuperMagic then do
    kfree ptr
    pure none
  else do
    let _ ← divOrFault 0 superblock.sBlocksPerGroup
    let data := Ext2Fs.ofSuperblock superblock
    match ← ext2ReadInode env data ext2RootInode with
    | none => do
      kfree ptr
      pure none
    | some rootInode => do
      let root ← ext2BuildNode filesystem ext2RootInode [0x2F] rootInode
      pure (some ((ptr, data), root))

/-- `ext2_open` -/
def ext2Open (node : VfsNode Ext2Inode) : FsM σ (Int × VfsNode Ext2Inode) :=
  if node.type = .directory then pure (0, node)
  else do
    let ptr ← kmallocOrPanic 128
    match ← ext2ReadInode env data node.inode with
    | none => do
      kfree ptr
      pure (-1, node)
    | some inode => pure (0, { node with inodeData := .loaded ptr inode })

/-- `ext2_close` -/
def ext2Close (node : VfsNode Ext2Inode) : FsM σ (Int × VfsNode Ext2Inode) :=
  match node.inodeData with
  | .null => pure (0, node)
  | .loaded ptr _ | .stale ptr => do
    kfree ptr
    pure (0, { node with inodeData := .null })

/-! ## Reading -/

/-- The loop of `ext2_read`, with what the caller's buffer holds. -/
def ext2ReadLoop (inode : Ext2Inode) (offset size : ℕ) :
    ℕ → ℕ → Mem → Mem → FsM σ (ℕ × Mem)
  | 0, _, _, _ => throw .diverge
  | fuel + 1, bytesRead, blockBuffer, buffer =>
    if bytesRead < size then do
      let fileBlock ← divOrFault (u32 (offset + bytesRead)) data.blockSize
      let offsetInBlock := u32 (offset + bytesRead) % data.blockSize
      let chunk := data.blockSize - offsetInBlock
      let chunk := if size - bytesRead < chunk then size - bytesRead else chunk
      let physicalBlock ← ext2InodeBlock env data inode fileBlock
      if physicalBlock = 0 then
        ext2ReadLoop inode offset size fuel (bytesRead + chunk) blockBuffer
          (buffer.fill bytesRead 0 chunk)
      else
        let blockBuffer := ext2ReadBlock env data physicalBlock blockBuffer
        ext2ReadLoop inode offset size fuel (bytesRead + chunk) blockBuffer
          (buffer.copyFrom bytesRead blockBuffer offsetInBlock chunk)
    else pure (bytesRead, buffer)

/-- `ext2_read`: the result, and what the caller's buffer holds. -/
def ext2Read (node : VfsNode Ext2Inode) (offset size : ℕ) (buffer : Mem) : FsM σ (Int × Mem) :=
  match node.inodeData with
  | .null => pure (-1, buffer)
  | .stale _ => throw .wildPointer
  | .loaded _ inode =>
    if inode.iSize < offset then pure (0, buffer)
    else
      let size := if inode.iSize < u32 (offset + size) then inode.iSize - offset else size
      if size = 0 then pure (0, buffer)
      else do
        let (ptr, blockBuffer) ← env.kmallocBuffer data.blockSize
        let (bytesRead, buffer) ←
          ext2ReadLoop env data inode offset size (size + 1) 0 blockBuffer buffer
        kfree ptr
        pure (int32 bytesRead, buffer)

/-! ## Directories -/

/-- `total_blocks` of a directory. -/
def ext2TotalBlocks (inode : Ext2Inode) : FsM σ ℕ :=
  divOrFault (sub32 (u32 (inode.iSize + data.blockSize)) 1) data.blockSize

/-- The loop of `ext2_readdir` over the entries of one block: the position of the
    entry with number `index`, or none and how many entries were counted. -/
def ext2ReaddirEntries (index : ℕ) (blockBuffer : Mem) : ℕ → ℕ → ℕ → FsM σ (Option ℕ × ℕ)
  | 0, _, _ => throw .diverge
  | fuel + 1, position, current =>
    if position < data.blockSize then
      let entry := Ext2DirEntry.ofBytes blockBuffer position
      if entry.recLen = 0 then pure (none, current)
      else if entry.inode ≠ 0 then
        if current = index then pure (some position, current)
        else ext2ReaddirEntries index blockBuffer fuel (u32 (position + entry.recLen))
          (u32 (current + 1))
      else ext2ReaddirEntries index blockBuffer fuel (u32 (position + entry.recLen)) current
    else pure (none, current)

/-- The loop of `ext2_readdir` over `n` blocks of the directory from `b` on. -/
def ext2ReaddirBlocks (inode : Ext2Inode) (index : ℕ) :
    ℕ → ℕ → ℕ → Mem → FsM σ (Option (ℕ × VfsDirent))
  | 0, _, _, _ => pure none
  | n + 1, b, current, blockBuffer => do
    let physicalBlock ← ext2InodeBlock env data inode b
    if physicalBlock = 0 then ext2ReaddirBlocks inode index n (b + 1) current blockBuffer
    else
      let blockBuffer := ext2ReadBlock env data physicalBlock blockBuffer
      match ← ext2ReaddirEntries data index blockBuffer (data.blockSize + 1) 0 current with
      | (none, current) => ext2ReaddirBlocks inode index n (b + 1) current blockBuffer
      | (some position, _) => do
        let ptr ← kmallocOrPanic vfsDirentSize
        let entry := Ext2DirEntry.ofBytes blockBuffer position
        pure (some (ptr,
          { name := blockBuffer.string (position + ext2DirEntrySize) entry.nameLen
            inode := entry.inode }))

/-- `ext2_readdir`: the entry with its address. -/
def ext2Readdir (node : VfsNode Ext2Inode) (index : ℕ) : FsM σ (Option (ℕ × VfsDirent)) := do
  match ← ext2ReadInode env data node.inode with
  | none => pure none
  | some inode => do
    let (ptr, blockBuffer) ← env.kmallocBuffer data.blockSize
    let totalBlocks ← ext2TotalBlocks data inode
    let dirent ← ext2ReaddirBlocks env data inode index totalBlocks 0 0 blockBuffer
    kfree ptr
    pure dirent

/-- The loop of `ext2_finddir` over the entries of one block: the inode of the
    entry with the name. -/
def ext2FinddirEntries (name : List UInt8) (blockBuffer : Mem) : ℕ → ℕ → FsM σ (Option ℕ)
  | 0, _ => throw .diverge
  | fuel + 1, position =>
    if position < data.blockSize then
      let entry := Ext2DirEntry.ofBytes blockBuffer position
      if entry.recLen = 0 then pure none
      else if entry.inode ≠ 0 ∧ entry.nameLen = name.length ∧
          memcmp name blockBuffer (position + ext2DirEntrySize) = 0 then
        pure (some entry.inode)
      else ext2FinddirEntries name blockBuffer fuel (u32 (position + entry.recLen))
    else pure none

/-- The loop of `ext2_finddir` over `n` blocks of the directory from `b` on. -/
def ext2FinddirBlocks (inode : Ext2Inode) (name : List UInt8) :
    ℕ → ℕ → Mem → FsM σ (Option ℕ)
  | 0, _, _ => pure none
  | n + 1, b, blockBuffer => do
    let physicalBlock ← ext2InodeBlock env data inode b
    if physicalBlock = 0 then ext2FinddirBlocks inode name n (b + 1) blockBuffer
    else
      let blockBuffer := ext2ReadBlock env data physicalBlock blockBuffer
      match ← ext2FinddirEntries data name blockBuffer (data.blockSize + 1) 0 with
      | none => ext2FinddirBlocks inode name n (b + 1) blockBuffer
      | some childInodeNo => pure (some childInodeNo)

/-- `ext2_finddir`: the node with its address. -/
def ext2Finddir (node : VfsNode Ext2Inode) (name : List UInt8) :
    FsM σ (Option (ℕ × VfsNode Ext2Inode)) := do
  match ← ext2ReadInode env data node.inode with
  | none => pure none
  | some inode => do
    let (ptr, blockBuffer) ← env.kmallocBuffer data.blockSize
    let totalBlocks ← ext2TotalBlocks data inode
    let found ← ext2FinddirBlocks env data inode name totalBlocks 0 blockBuffer
    kfree ptr
    match found with
    | none => pure none
    | some childInodeNo => do
      match ← ext2ReadInode env data childInodeNo with
      | none => pure none
      | some childInode => some <$> ext2BuildNode node.filesystem childInodeNo name childInode

end Ttos
