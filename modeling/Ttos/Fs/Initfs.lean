/-
  The initial ramdisk's file system (initfs.c): mounting, its one directory, and
  opening and reading files.
-/
import Ttos.Fs.Disk
import Ttos.Fs.Vfs
import Ttos.Lib.CString
import Ttos.Lib.Word

namespace Ttos

variable {σ δ : Type} (env : FsEnv σ δ) [Allocator σ]

omit [Allocator σ] in
/-- The header of the image, read into a variable on the stack. -/
def initfsReadHeader : InitfsHeader := .ofBytes (env.read 0 initfsHeaderSize env.stack).2 0

/-- `initfs_probe` -/
def initfsProbe : Bool := (initfsReadHeader env).magic = initfsHeaderMagic

/-- `initfs_init`: the addresses of the filesystem and of its operations. -/
def initfsInit : FsM σ (Option (ℕ × ℕ)) :=
  if !initfsProbe env then pure none
  else do
    let filesystem ← kmallocOrPanic vfsFilesystemSize
    let operations ← kmallocOrPanic vfsFilesystemOperationsSize
    pure (some (filesystem, operations))

/-- `initfs_mount`: the root node with its address. -/
def initfsMount (filesystem : ℕ) : FsM σ (ℕ × VfsNode InitfsFileHeader) := do
  let (ptr, buffer) ← env.kmallocBuffer vfsNodeSize
  pure (ptr,
    { name := [0x2F]
      permissions := 0
      type := .directory
      uid := 0
      gid := 0
      length := 0
      inode := 0
      inodeData := .unset buffer
      filesystem := filesystem })

/-- Where file header `index` lies in the image. -/
def initfsFileHeaderOffset (index : ℕ) : ℕ :=
  u32 (initfsHeaderSize + u32 (index * initfsFileHeaderSize))

omit [Allocator σ] in
/-- File header `index`, read into a variable on the stack. -/
def initfsReadFileHeader (index : ℕ) : Mem :=
  (env.read (initfsFileHeaderOffset index) initfsFileHeaderSize env.stack).2

/-- `initfs_open`: the result, and the node. -/
def initfsOpen (node : VfsNode InitfsFileHeader) : FsM σ (Int × VfsNode InitfsFileHeader) :=
  if node.type = .directory then pure (0, node)
  else if (initfsReadHeader env).nFiles ≤ node.inode then pure (-1, node)
  else do
    let (ptr, buffer) ← env.kmallocBuffer initfsFileHeaderSize
    let fileHeader := InitfsFileHeader.ofBytes
      (env.read (initfsFileHeaderOffset node.inode) initfsFileHeaderSize buffer).2 0
    if fileHeader.magic ≠ initfsFileHeaderMagic then pure (-1, node)
    else pure (0, { node with inodeData := .loaded ptr fileHeader })

/-- `initfs_close` -/
def initfsClose (node : VfsNode InitfsFileHeader) : FsM σ (Int × VfsNode InitfsFileHeader) :=
  match node.inodeData with
  | .null => pure (0, node)
  | .loaded ptr _ | .stale ptr => do
    kfree ptr
    pure (0, node)

omit [Allocator σ] in
/-- `initfs_read`: the result, and what the caller's buffer holds. -/
def initfsRead (node : VfsNode InitfsFileHeader) (offset size : ℕ) (buffer : Mem) :
    FsM σ (Int × Mem) :=
  match node.inodeData with
  | .null => pure (-1, buffer)
  | .stale _ => throw .wildPointer
  | .loaded _ fileHeader =>
    if fileHeader.length < offset then pure (0, buffer)
    else
      let size := if fileHeader.length < u32 (offset + size) then fileHeader.length - offset else size
      pure (int32 size, (env.read (u32 (fileHeader.offset + offset)) size buffer).2)

/-! ## The directory -/

/-- `initfs_readdir`: the entry with its address. -/
def initfsReaddir (index : ℕ) : FsM σ (Option (ℕ × VfsDirent)) :=
  if (initfsReadHeader env).nFiles ≤ index then pure none
  else do
    let ptr ← kmallocOrPanic vfsDirentSize
    let fileHeader := initfsReadFileHeader env index
    if fileHeader.load16 0 ≠ initfsFileHeaderMagic then pure none
    else pure (some (ptr, { name := fileHeader.string 2 256, inode := index }))

/-- The node `initfs_finddir` makes of file header `index`. -/
def initfsFileNode (filesystem index : ℕ) : FsM σ (ℕ × VfsNode InitfsFileHeader) := do
  let (ptr, buffer) ← env.kmallocBuffer vfsNodeSize
  pure (ptr,
    { name := (initfsReadFileHeader env index).string 2 256
      permissions := 0
      type := .file
      uid := 0
      gid := 0
      length := (initfsReadFileHeader env index).load32 70
      inode := index
      inodeData := .unset buffer
      filesystem := filesystem })

/-- The loop of `initfs_finddir`: `n` file headers from `index` on. -/
def initfsFindFrom (filesystem : ℕ) (name : List UInt8) :
    ℕ → ℕ → FsM σ (Option (ℕ × VfsNode InitfsFileHeader))
  | 0, _ => pure none
  | n + 1, index =>
    if strcmp name (initfsReadFileHeader env index) 2 = 0 then some <$> initfsFileNode env filesystem index
    else initfsFindFrom filesystem name n (index + 1)

/-- `initfs_finddir`: the node with its address. -/
def initfsFinddir (filesystem : ℕ) (name : List UInt8) :
    FsM σ (Option (ℕ × VfsNode InitfsFileHeader)) :=
  initfsFindFrom env filesystem name (initfsReadHeader env).nFiles 0

end Ttos
