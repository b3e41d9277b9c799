/-
  Well-formed volumes of either file system, and what their users see.

  * `FileTree`: the directories and files of a volume; `FileTree.lookup` follows a path.
  * `VolumeImage`: the bytes of a volume with its directories; `VolumeImage.tree` is what they
    mean.
  * `returns_nodeReaddir`, `returns_nodeFinddir`, `returns_nodeOpen`, `returns_nodeRead`: the
    operations of a node give what the tree says.
-/
import Ttos.Fs.Ext2Directory
import Ttos.Fs.Frames
import Ttos.Fs.InitfsSpec
import Ttos.Fs.Objects

namespace Ttos

open Ext2Format InitfsFormat

/-! ## File trees -/

/-- A file or directory by its type and its number. -/
structure FileId where
  type : VfsType
  inode : ℕ
deriving DecidableEq, Repr

/-- The directories and files of a file system, by their numbers. -/
structure FileTree where
  root : ℕ
  entries : ℕ → List VfsDirent
  find : ℕ → List UInt8 → Option FileId
  length : ℕ → ℕ
  byte : ℕ → ℕ → UInt8

namespace FileTree

variable (tree : FileTree)

def rootId : FileId := ⟨.directory, tree.root⟩

/-- The file that names lead to, each looked up in the directory before it. -/
def resolve (id : FileId) : List (List UInt8) → Option FileId
  | [] => some id
  | name :: names =>
    if id.type = .directory then (tree.find id.inode name).bind fun next => resolve next names
    else none

/-- The names in a path: one slash in front of it is left out. -/
def pathNames (path : List UInt8) : List (List UInt8) :=
  (if path.head? = some 0x2F then path.tail else path).splitOn 0x2F

/-- The file a path leads to. -/
def lookup (path : List UInt8) : Option FileId :=
  if path = [0x2F] ∨ path = [] then some tree.rootId
  else tree.resolve tree.rootId (pathNames path)

end FileTree

/-! ## Volumes -/

/-- The bytes of a volume, with the entries of its ext2 directories or the names of
    its ramdisk files. -/
inductive VolumeImage where
  | ext2 (bytes : Mem) (blocks : ℕ → List (List DirEntry))
  | initfs (bytes : Mem) (names : ℕ → List UInt8)

/-- The inodes that directories lead to from the root. -/
inductive Reaches (bytes : Mem) (blocks : ℕ → List (List DirEntry)) : ℕ → Prop
  | root : Reaches bytes blocks ext2RootInode
  | entry {d e} : Reaches bytes blocks d → ext2NodeType (inode bytes d).iMode = .directory →
      e ∈ liveEntries (blocks d) → Reaches bytes blocks e.inode

/-- A well-formed ext2 volume: its root is a directory, all directories that are
    reached are well-formed, and the blocks of all files lie on the volume. -/
structure Ext2Volume (bytes : Mem) (blocks : ℕ → List (List DirEntry)) (size : ℕ) : Prop where
  layout : Layout bytes size
  root_isInode : IsInode bytes ext2RootInode
  root_type : ext2NodeType (inode bytes ext2RootInode).iMode = .directory
  directory : ∀ d, Reaches bytes blocks d → ext2NodeType (inode bytes d).iMode = .directory →
    Directory bytes (inode bytes d) (blocks d)
  pointers : ∀ no, Reaches bytes blocks no → ext2NodeType (inode bytes no).iMode ≠ .symlink →
    PointersInVolume bytes (inode bytes no)

/-- A well-formed ramdisk: every file has its name. -/
structure InitfsVolume (bytes : Mem) (names : ℕ → List UInt8) (size : ℕ) : Prop where
  image : InitfsImage bytes size
  name : ∀ i < nFiles bytes, HasName bytes i (names i)

namespace VolumeImage

/-- What the bytes of a volume mean. -/
def tree : VolumeImage → FileTree
  | ext2 bytes blocks =>
    { root := ext2RootInode
      entries := fun d => (liveEntries (blocks d)).map DirEntry.dirent
      find := fun d name => ((liveEntries (blocks d)).find? (·.name = name)).map fun e =>
        ⟨ext2NodeType (inode bytes e.inode).iMode, e.inode⟩
      length := fun no => (inode bytes no).iSize
      byte := fun no x => fileByte bytes (inode bytes no) x }
  | initfs bytes names =>
    { root := 0
      entries := fun _ => (List.range (nFiles bytes)).map fun i => ⟨names i, i⟩
      find := fun _ name => ((List.range (nFiles bytes)).find? (names · = name)).map fun i =>
        ⟨.file, i⟩
      length := fun i => (fileHeader bytes i).length
      byte := fun i x => bytes ((fileHeader bytes i).offset + x) }

theorem find_ext2 (bytes : Mem) (blocks : ℕ → List (List DirEntry)) (d : ℕ) (name : List UInt8) :
    (ext2 bytes blocks).tree.find d name =
      ((liveEntries (blocks d)).find? (·.name = name)).map fun e =>
        ⟨ext2NodeType (inode bytes e.inode).iMode, e.inode⟩ := rfl

theorem find_initfs (bytes : Mem) (names : ℕ → List UInt8) (d : ℕ) (name : List UInt8) :
    (initfs bytes names).tree.find d name =
      ((List.range (nFiles bytes)).find? (names · = name)).map fun i => ⟨.file, i⟩ := rfl

variable {σ δ : Type}

/-- The volume of the mounted file system holds the image. -/
def WellFormed (machine : Machine σ δ) (filesystem : VfsFilesystem δ) : VolumeImage → Prop
  | ext2 bytes blocks => Ext2Volume bytes blocks filesystem.volume.size ∧
      (machine.env filesystem).ReadsSectors bytes ∧ ∃ ptr, filesystem.fsData = .ext2 ptr (ext2Data bytes)
  | initfs bytes names => InitfsVolume bytes names filesystem.volume.size ∧
      (machine.env filesystem).Exact bytes

/-- The node is one for the file `id`, of the file system at the address `a`. -/
def IsNode (a : ℕ) : VolumeImage → AnyNode → FileId → Prop
  | ext2 bytes blocks, .ext2 node, id => node.IsBuilt bytes a id.inode ∧
      id.type = ext2NodeType (inode bytes id.inode).iMode ∧ Reaches bytes blocks id.inode
  | initfs bytes _, .initfs node, id => node.filesystem = a ∧ node.type = id.type ∧
      node.inode = id.inode ∧
      (id.type ≠ .directory → id.inode < nFiles bytes ∧
        node.length = (fileHeader bytes id.inode).length)
  | _, _, _ => False

/-- The node is one for the regular file `no`, and it is open. -/
def IsOpen (a : ℕ) : VolumeImage → AnyNode → ℕ → Prop
  | ext2 bytes blocks, .ext2 node, no => node.type = .file ∧ node.filesystem = a ∧
      Reaches bytes blocks no ∧ ext2NodeType (inode bytes no).iMode = .file ∧
        ∃ ptr, node.inodeData = .loaded ptr (inode bytes no)
  | initfs bytes _, .initfs node, no => node.type = .file ∧ node.filesystem = a ∧
      no < nFiles bytes ∧ ∃ ptr, node.inodeData = .loaded ptr (fileHeader bytes no)
  | _, _, _ => False

end VolumeImage

variable {σ δ : Type} {machine : Machine σ δ} {filesystem : VfsFilesystem δ} {a : ℕ}
  {image : VolumeImage} {node : AnyNode} {id : FileId}

theorem Ext2Volume.isInode {bytes : Mem} {blocks : ℕ → List (List DirEntry)} {size no : ℕ}
    (h : Ext2Volume bytes blocks size) (hr : Reaches bytes blocks no) : IsInode bytes no := by
  cases hr with
  | root => exact h.root_isInode
  | entry hd ht he =>
    obtain ⟨hm, hl⟩ := List.mem_filter.1 he
    obtain ⟨es, hes, hm⟩ := List.mem_flatten.1 hm
    exact ((h.directory _ hd ht).valid es hes _ hm).isInode hl

namespace VolumeImage.IsNode

theorem type_eq (h : image.IsNode a node id) : node.type = id.type := by
  cases image <;> cases node
  case ext2.ext2 => exact h.1.type.trans h.2.1.symm
  case initfs.initfs => exact h.2.1
  all_goals exact h.elim

theorem filesystem_eq (h : image.IsNode a node id) : node.filesystem = a := by
  cases image <;> cases node
  case ext2.ext2 => exact h.1.filesystem
  case initfs.initfs => exact h.1
  all_goals exact h.elim

theorem isDirectory_iff (h : image.IsNode a node id) :
    node.isDirectory = true ↔ id.type = .directory := by
  rw [AnyNode.isDirectory, h.type_eq, decide_eq_true_iff]

theorem length_eq (h : image.IsNode a node id) (ht : id.type ≠ .directory) :
    node.length = image.tree.length id.inode := by
  cases image <;> cases node
  case ext2.ext2 => exact h.1.length
  case initfs.initfs => exact (h.2.2.2 ht).2
  all_goals exact h.elim

end VolumeImage.IsNode

/-! ## The operations of a node -/

/-- A directory has entries with short names, and its entries are counted by a word. -/
theorem VolumeImage.entries_bounds (hw : image.WellFormed machine filesystem)
    (hn : image.IsNode a node id) (ht : id.type = .directory) :
    (∀ e ∈ image.tree.entries id.inode, e.name.length ≤ 255) ∧
      (image.tree.entries id.inode).length < 4294967296 := by
  cases image <;> cases node
  case ext2.ext2 bytes blocks node =>
    obtain ⟨hv, -, -⟩ := hw
    obtain ⟨-, htype, hr⟩ := hn
    have hd := hv.directory _ hr (htype.symm.trans ht)
    have hlt : (inode bytes id.inode).iSize < 4294967296 := Mem.load32_lt _ _
    constructor
    · intro e he
      obtain ⟨c, hc, rfl⟩ := List.mem_map.1 he
      obtain ⟨hm, hl⟩ := List.mem_filter.1 hc
      obtain ⟨es, hes, hm⟩ := List.mem_flatten.1 hm
      exact (hd.valid es hes c hm).name_lt hl
    · show ((liveEntries (blocks id.inode)).map DirEntry.dirent).length < _
      have h1 := List.length_filter_le DirEntry.live (blocks id.inode).flatten
      have h2 := hd.length_le
      rw [List.length_map, liveEntries]
      omega
  case initfs.initfs bytes names node =>
    obtain ⟨hv, -⟩ := hw
    constructor
    · intro e he
      obtain ⟨i, hi, rfl⟩ := List.mem_map.1 he
      have hlt := (hv.name i (List.mem_range.1 hi)).2
      dsimp only
      omega
    · show ((List.range (nFiles bytes)).map _).length < _
      have h1 := hv.image.headers_le
      have h2 := hv.image.size_lt
      rw [List.length_map, List.length_range]
      unfold fileHeaderAt at h1
      omega
  all_goals exact hn.elim

/-- The block size is a request the heap's contract speaks about. -/
theorem request_blockSize {bytes : Mem} {size : ℕ} (h : Layout bytes size) :
    Request (ext2Data bytes).blockSize := by
  have h1 := h.blockSize_le
  have h2 : 0 < blockSize bytes := blockSize_pos
  rw [ext2Data_blockSize h]
  exact ⟨h2, by omega⟩

/-- The name that listing copies. -/
theorem InitfsVolume.string_eq {bytes : Mem} {names : ℕ → List UInt8} {env : FsEnv σ δ}
    (hv : InitfsVolume bytes names env.volume.size) (hx : env.Exact bytes) {i : ℕ}
    (hi : i < nFiles bytes) : (initfsReadFileHeader env i).string 2 256 = names i := by
  have hn := hv.name i hi
  have hlt := hn.2
  exact Mem.string_of_hasString (HasName.readFileHeader hv.image hx hi hn) (by omega)

/-- Whether a file header has a name. -/
theorem InitfsVolume.hasString_iff {bytes : Mem} {names : ℕ → List UInt8} {env : FsEnv σ δ}
    (hv : InitfsVolume bytes names env.volume.size) (hx : env.Exact bytes) {i : ℕ}
    (hi : i < nFiles bytes) {name : List UInt8} :
    (initfsReadFileHeader env i).HasString 2 name ↔ names i = name := by
  have hs := HasName.readFileHeader hv.image hx hi (hv.name i hi)
  constructor
  · exact fun h => hs.inj h
  · rintro rfl
    exact hs

section
variable [Allocator σ] (hw : image.WellFormed machine filesystem)
include hw

/-- Listing a directory. -/
theorem returns_nodeReaddir (hn : image.IsNode a node id) (ht : id.type = .directory) (index : ℕ) :
    Returns OutOfMemory (nodeReaddir machine filesystem node index)
      (·.map Prod.snd = (image.tree.entries id.inode)[index]?) := by
  cases image <;> cases node
  case ext2.ext2 bytes blocks node =>
    obtain ⟨hv, hx, ptr, hdata⟩ := hw
    obtain ⟨hb, htype, hr⟩ := hn
    have hd := htype.symm.trans ht
    have h := returns_readdir (σ := σ) hv.layout hx (hv.isInode hr)
      (hv.pointers _ hr (by rw [hd]; decide)) (hv.directory _ hr hd) hb.inode index
    rw [nodeReaddir]
    simp only [hdata]
    refine h.mono fun r hr => ?_
    rw [hr.1, VolumeImage.tree, List.getElem?_map]
  case initfs.initfs bytes names node =>
    obtain ⟨hv, hx⟩ := hw
    rw [nodeReaddir, VolumeImage.tree]
    by_cases hi : index < nFiles bytes
    · refine (returns_initfsReaddir hv.image hx hi).mono ?_
      rintro _ ⟨ptr, rfl⟩
      rw [List.getElem?_map, List.getElem?_range hi, hv.string_eq hx hi]
      rfl
    · refine (returns_initfsReaddir_none hv.image hx (Nat.not_lt.1 hi)).mono ?_
      rintro _ rfl
      rw [List.getElem?_eq_none (by simpa using hi)]
      rfl
  all_goals exact hn.elim

/-- What a lookup found. -/
def FoundNode (image : VolumeImage) (a : ℕ) (r : Option (ℕ × AnyNode)) : Option FileId → Prop
  | none => r = none
  | some id => ∃ ptr child, r = some (ptr, child) ∧ image.IsNode a child id

/-- Looking a name up in a directory. -/
theorem returns_nodeFinddir (hn : image.IsNode a node id) (ht : id.type = .directory)
    {name : List UInt8} (h0 : 0 ∉ name) :
    Returns OutOfMemory (nodeFinddir machine filesystem node name)
      (FoundNode image a · (image.tree.find id.inode name)) := by
  cases image <;> cases node
  case ext2.ext2 bytes blocks node =>
    obtain ⟨hv, hx, ptr, hdata⟩ := hw
    obtain ⟨hb, htype, hr⟩ := hn
    have hd := htype.symm.trans ht
    have h := returns_finddir (σ := σ) hv.layout hx (hv.isInode hr)
      (hv.pointers _ hr (by rw [hd]; decide)) (hv.directory _ hr hd) hb.inode name
    rw [nodeFinddir]
    simp only [hdata]
    rw [map_eq_pure_bind, VolumeImage.find_ext2]
    refine h.bind fun r hr' => Returns.pure ?_
    cases hf : (liveEntries (blocks id.inode)).find? (·.name = name) with
    | none =>
      rw [hf] at hr'
      rw [hr']
      rfl
    | some e =>
      rw [hf] at hr'
      obtain ⟨ptr, child, rfl, -, hc⟩ := hr'
      rw [hb.filesystem] at hc
      exact ⟨ptr, .ext2 child, rfl, hc, rfl, .entry hr hd (List.mem_of_find?_eq_some hf)⟩
  case initfs.initfs bytes names node =>
    obtain ⟨hv, hx⟩ := hw
    rw [nodeFinddir, map_eq_pure_bind, VolumeImage.find_initfs]
    refine (returns_initfsFinddir hv.image hx h0).bind fun r hr => Returns.pure ?_
    rcases hr with ⟨rfl, hnone⟩ | ⟨ptr, child, i, rfl, hc, ⟨-, hi⟩, hs, hbefore⟩
    · have hf : (List.range (nFiles bytes)).find? (names · = name) = none := by
        refine List.find?_eq_none.2 fun i hi => ?_
        have hi := List.mem_range.1 hi
        rw [decide_eq_true_iff]
        exact fun he => hnone i (Nat.zero_le _) hi ((hv.hasString_iff hx hi).2 he)
      rw [hf]
      rfl
    · have hf : (List.range (nFiles bytes)).find? (names · = name) = some i := by
        refine List.find?_range_eq_some.2 ⟨?_, List.mem_range.2 hi, fun j hj => ?_⟩
        · exact decide_eq_true ((hv.hasString_iff hx hi).1 hs)
        · rw [Bool.not_eq_true', decide_eq_false_iff_not]
          exact fun he => hbefore j (Nat.zero_le _) hj ((hv.hasString_iff hx (hj.trans hi)).2 he)
      rw [hf]
      obtain ⟨h1, h2, h3, h4, -⟩ := hc
      refine ⟨ptr, .initfs child, rfl, h3.trans hn.1, h1, h2, fun _ => ⟨hi, ?_⟩⟩
      have hh := congrArg InitfsFileHeader.length (readFileHeader_eq hv.image hx hi (machine.env filesystem).stack)
      exact h4.trans hh
  all_goals exact hn.elim

/-- Opening a directory does nothing. -/
theorem nodeOpen_directory (hn : image.IsNode a node id) (ht : id.type = .directory) :
    nodeOpen machine filesystem node = (pure (0, node) : FsM σ (Int × AnyNode)) := by
  have htype := hn.type_eq.trans ht
  cases image <;> cases node
  case ext2.ext2 bytes blocks node =>
    obtain ⟨-, -, ptr, hdata⟩ := hw
    have htype : node.type = .directory := htype
    rw [nodeOpen]
    simp only [hdata]
    rw [ext2Open, if_pos htype, map_pure]
    rfl
  case initfs.initfs bytes names node =>
    have htype : node.type = .directory := htype
    rw [nodeOpen, initfsOpen, if_pos htype, map_pure]
    rfl
  all_goals exact hn.elim

/-- Opening a regular file. -/
theorem returns_nodeOpen (hn : image.IsNode a node id) (ht : id.type = .file) :
    Returns OutOfMemory (nodeOpen machine filesystem node : FsM σ (Int × AnyNode)) fun r =>
      r.1 = 0 ∧ image.IsOpen a r.2 id.inode := by
  have htype := hn.type_eq.trans ht
  cases image <;> cases node
  case ext2.ext2 bytes blocks node =>
    obtain ⟨hv, hx, ptr, hdata⟩ := hw
    obtain ⟨hb, hmode, hr⟩ := hn
    have htype : node.type = .file := htype
    rw [nodeOpen]
    simp only [hdata]
    rw [map_eq_pure_bind]
    refine (returns_open hv.layout hx (by rw [hb.inode]; exact hv.isInode hr)
      (by rw [htype]; decide)).bind ?_
    rintro ⟨r, node'⟩ ⟨h0, ptr', rfl⟩
    refine Returns.pure ⟨h0, htype, hb.filesystem, hr, hmode.symm.trans ht, ptr', ?_⟩
    rw [hb.inode]
  case initfs.initfs bytes names node =>
    obtain ⟨hv, hx⟩ := hw
    obtain ⟨hf, -, hi, hfile⟩ := hn
    have htype : node.type = .file := htype
    obtain ⟨hlt, -⟩ := hfile (by rw [ht]; decide)
    rw [nodeOpen, map_eq_pure_bind]
    refine (returns_initfsOpen hv.image hx hlt (by rw [htype]; decide) hi).bind ?_
    rintro ⟨r, node'⟩ ⟨h0, ptr', rfl⟩
    exact Returns.pure ⟨h0, htype, hf, hlt, ptr', rfl⟩
  all_goals exact hn.elim

/-- Reading an open file up to its end. -/
theorem returns_nodeRead_exact {no : ℕ} (hn : image.IsOpen a node no)
    (hlt : image.tree.length no < 2147483648) {offset size : ℕ} (ho : offset ≤ image.tree.length no)
    (hs : size ≤ image.tree.length no - offset) (buffer : Mem) :
    Returns OutOfMemory (nodeRead machine filesystem node offset size buffer : FsM σ (Int × Mem))
      fun r => r.1 = size ∧
        ∀ j, r.2 j = if j < size then image.tree.byte no (offset + j) else buffer j := by
  cases image <;> cases node
  case ext2.ext2 bytes blocks node =>
    obtain ⟨hv, hx, ptr, hdata⟩ := hw
    obtain ⟨-, -, hr, hfile, ptr', hd⟩ := hn
    rw [nodeRead]
    simp only [hdata]
    exact returns_read hv.layout hx hd (hv.pointers _ hr (by rw [hfile]; decide)) hlt ho hs buffer
  case initfs.initfs bytes names node =>
    obtain ⟨hv, hx⟩ := hw
    obtain ⟨-, -, hi, ptr', hd⟩ := hn
    have hlt : (fileHeader bytes no).length < 2147483648 := hlt
    have hs' : size ≤ (fileHeader bytes no).length - offset := hs
    rw [nodeRead]
    exact returns_initfsRead_exact hv.image hx hi hd ho hs (by omega) buffer
  all_goals exact hn.elim

/-! ## Frames -/

theorem frame_nodeReaddir (hn : image.IsNode a node id) (index : ℕ) :
    Frame ∅ optionPtr (nodeReaddir machine filesystem node index : FsM σ _) := by
  cases image <;> cases node
  case ext2.ext2 bytes blocks node =>
    obtain ⟨hv, -, ptr, hdata⟩ := hw
    rw [nodeReaddir]
    simp only [hdata]
    exact frame_ext2Readdir (request_blockSize hv.layout) node index
  case initfs.initfs => exact frame_initfsReaddir index
  all_goals exact hn.elim

theorem frame_nodeFinddir (hn : image.IsNode a node id) (name : List UInt8) :
    Frame ∅ optionPtr (nodeFinddir machine filesystem node name : FsM σ _) := by
  have hmap : ∀ {ι : Type} (f : VfsNode ι → AnyNode) (x : FsM σ (Option (ℕ × VfsNode ι))),
      Frame ∅ optionPtr x → Frame ∅ optionPtr (Option.map (mapNode f) <$> x) := by
    intro ι f x hx
    rw [map_eq_pure_bind]
    refine hx.bind fun r _ => Frame.pure ?_
    rintro p ⟨child, hp⟩
    cases r with
    | none => cases hp
    | some r => exact Or.inr ⟨r.2, by rw [← (Prod.mk.inj (Option.some.inj hp)).1]⟩
  cases image <;> cases node
  case ext2.ext2 bytes blocks node =>
    obtain ⟨hv, -, ptr, hdata⟩ := hw
    rw [nodeFinddir]
    simp only [hdata]
    exact hmap .ext2 _ (frame_ext2Finddir (request_blockSize hv.layout) node name)
  case initfs.initfs =>
    rw [nodeFinddir]
    exact hmap .initfs _ (frame_initfsFinddir _ name)
  all_goals exact hn.elim

theorem preserves_nodeOpen (hn : image.IsNode a node id) :
    Preserves (nodeOpen machine filesystem node : FsM σ _) := by
  cases image <;> cases node
  case ext2.ext2 bytes blocks node =>
    obtain ⟨hv, -, ptr, hdata⟩ := hw
    rw [nodeOpen]
    simp only [hdata]
    rw [map_eq_pure_bind]
    exact (preserves_ext2Open (request_blockSize hv.layout) node).bind_preserves fun r =>
      preserves_pure _
  case initfs.initfs bytes names node =>
    rw [nodeOpen, map_eq_pure_bind]
    exact (preserves_initfsOpen node).bind_preserves fun r => preserves_pure _
  all_goals exact hn.elim

end

/-! ## A small volume -/

section

variable {bytes : Mem}

theorem RootImage.reaches {no : ℕ} (h : Reaches bytes (fun _ => dirImageRoot) no) :
    no = 2 ∨ no = 3 ∨ no = 4 := by
  cases h with
  | root => exact Or.inl rfl
  | entry _ _ he =>
    have hall : ∀ e ∈ liveEntries dirImageRoot, e.inode = 3 ∨ e.inode = 4 := by decide
    exact Or.inr (hall _ he)

theorem RootImage.volume (h : RootImage bytes) : Ext2Volume bytes (fun _ => dirImageRoot) 8192 where
  layout := h.layout
  root_isInode := h.isInode.2 (by decide)
  root_type := h.types.1
  directory d hr hd := by
    obtain ⟨-, h3, h4⟩ := h.types
    rcases reaches hr with rfl | rfl | rfl
    · exact h.directory
    · rw [h3] at hd; cases hd
    · rw [h4] at hd; cases hd
  pointers no hr _ := by
    refine h.pointers ?_
    rcases reaches hr with rfl | rfl | rfl <;> decide

end

end Ttos
