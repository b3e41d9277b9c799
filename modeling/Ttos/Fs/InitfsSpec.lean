/-
  The initial ramdisk's file system on the bytes of an image.

  * `InitfsImage`: the image holds its file headers and the files they describe.
  * `returns_initfsOpen`, `returns_initfsRead_exact`: reading a file gives its bytes.
  * `returns_initfsReaddir`, `returns_initfsFinddir`: listing and lookup.
-/
import Ttos.Fs.Initfs

namespace Ttos

namespace InitfsFormat

/-- The number of files. -/
def nFiles (bytes : Mem) : ℕ := (InitfsHeader.ofBytes bytes 0).nFiles

/-- Where file header `index` begins. -/
def fileHeaderAt (index : ℕ) : ℕ := 6 + index * 74

def fileHeader (bytes : Mem) (index : ℕ) : InitfsFileHeader :=
  .ofBytes bytes (fileHeaderAt index)

/-- The image holds its file headers and the files they describe. -/
structure InitfsImage (bytes : Mem) (size : ℕ) : Prop where
  size_lt : size < 4294967296
  magic : (InitfsHeader.ofBytes bytes 0).magic = initfsHeaderMagic
  headers_le : fileHeaderAt (nFiles bytes) ≤ size
  fileMagic : ∀ i < nFiles bytes, (fileHeader bytes i).magic = initfsFileHeaderMagic
  file_le : ∀ i < nFiles bytes, (fileHeader bytes i).offset + (fileHeader bytes i).length ≤ size

/-- File header `index` holds the name, ended within the field. -/
def HasName (bytes : Mem) (index : ℕ) (name : List UInt8) : Prop :=
  bytes.HasString (fileHeaderAt index + 2) name ∧ name.length < 64

end InitfsFormat

open InitfsFormat

variable {σ δ : Type} {env : FsEnv σ δ} {bytes : Mem} {index : ℕ}

section
variable (hi : InitfsImage bytes env.volume.size) (hx : env.Exact bytes)
include hi hx

/-! ## Headers -/

theorem initfsReadHeader_eq : initfsReadHeader env = .ofBytes bytes 0 := by
  have hle := hi.headers_le
  have hr := hx 0 6 env.stack (by unfold fileHeaderAt at hle; omega)
  have hc : ∀ j < 6, env.stack.copyFrom 0 bytes 0 6 j = bytes j := fun j hj => by
    rw [Mem.copyFrom_in (Nat.zero_le _) (by omega), Nat.sub_zero, Nat.zero_add]
  rw [initfsReadHeader, initfsHeaderSize, hr]
  refine congrArg₂ InitfsHeader.mk (Mem.load16_shift fun j hj => hc _ (by omega))
    (Mem.load32_shift fun j hj => hc _ (by omega))

theorem initfsProbe_eq : initfsProbe env = true := by
  rw [initfsProbe, initfsReadHeader_eq hi hx]
  exact decide_eq_true hi.magic

theorem initfsReadHeader_nFiles : (initfsReadHeader env).nFiles = nFiles bytes := by
  rw [initfsReadHeader_eq hi hx, nFiles]

omit hx in
theorem fileHeaderOffset_eq (h : index < nFiles bytes) :
    initfsFileHeaderOffset index = fileHeaderAt index ∧
      fileHeaderAt index + 74 ≤ env.volume.size := by
  have hle := hi.headers_le
  have hlt := hi.size_lt
  unfold fileHeaderAt at *
  rw [initfsFileHeaderOffset, initfsFileHeaderSize, initfsHeaderSize,
    u32_of_lt (show index * 74 < 4294967296 by omega), u32_of_lt (by omega)]
  exact ⟨rfl, by omega⟩

/-- A file header is read whole, into a buffer or a variable. -/
theorem readFileHeader_apply (h : index < nFiles bytes) (buffer : Mem) {j : ℕ}
    (hj : j < 74) :
    (env.read (initfsFileHeaderOffset index) initfsFileHeaderSize buffer).2 j =
      bytes (fileHeaderAt index + j) := by
  obtain ⟨h1, h2⟩ := fileHeaderOffset_eq hi h
  rw [h1, hx _ _ _ h2]
  exact Mem.copyFrom_in (Nat.zero_le _) (by omega)

theorem readFileHeader_eq (h : index < nFiles bytes) (buffer : Mem) :
    InitfsFileHeader.ofBytes
        (env.read (initfsFileHeaderOffset index) initfsFileHeaderSize buffer).2 0 =
      fileHeader bytes index := by
  have hj := fun j (hj : j < 74) => readFileHeader_apply hi hx h buffer hj
  have h16 : ((env.read (initfsFileHeaderOffset index) initfsFileHeaderSize buffer).2).load16 0 =
      bytes.load16 (fileHeaderAt index) :=
    Mem.load16_shift fun j hj' => by rw [Nat.zero_add, hj j (by omega)]
  have h32 : ∀ k, k + 4 ≤ 74 →
      ((env.read (initfsFileHeaderOffset index) initfsFileHeaderSize buffer).2).load32 (0 + k) =
        bytes.load32 (fileHeaderAt index + k) := fun k hk =>
    Mem.load32_shift fun j hj' => by rw [Nat.zero_add, hj _ (by omega), Nat.add_assoc]
  have hn : ((List.range 64).map fun i =>
      (env.read (initfsFileHeaderOffset index) initfsFileHeaderSize buffer).2 (0 + 2 + i)) =
      (List.range 64).map fun i => bytes (fileHeaderAt index + 2 + i) := by
    refine List.map_congr_left fun i hi' => ?_
    have hi' := List.mem_range.1 hi'
    rw [Nat.zero_add, hj _ (by omega), Nat.add_assoc]
  rw [fileHeader, InitfsFileHeader.ofBytes, InitfsFileHeader.ofBytes, h16, hn, h32 66 (by omega),
    h32 70 (by omega)]

/-! ## Files -/

variable [Allocator σ]

theorem returns_initfsOpen (h : index < nFiles bytes) {node : VfsNode InitfsFileHeader}
    (ht : node.type ≠ .directory) (hn : node.inode = index) :
    Returns OutOfMemory (initfsOpen env node) fun r => r.1 = 0 ∧
      ∃ ptr, r.2 = { node with inodeData := .loaded ptr (fileHeader bytes index) } := by
  have hnot : ¬ (initfsReadHeader env).nFiles ≤ node.inode := by
    rw [initfsReadHeader_nFiles hi hx, hn]
    exact Nat.not_le.2 h
  rw [initfsOpen, if_neg ht, if_neg hnot, hn]
  refine returns_kmallocBuffer_bind rfl fun ⟨ptr, buffer⟩ => ?_
  have hm : ¬ (fileHeader bytes index).magic ≠ initfsFileHeaderMagic :=
    not_not_intro (hi.fileMagic index h)
  dsimp only
  rw [readFileHeader_eq hi hx h, if_neg hm]
  exact Returns.pure ⟨rfl, ptr, rfl⟩

omit [Allocator σ] in
/-- **Reading an open file** of the image gives its bytes. -/
theorem returns_initfsRead_exact (h : index < nFiles bytes) {node : VfsNode InitfsFileHeader}
    {ptr : ℕ} (hd : node.inodeData = .loaded ptr (fileHeader bytes index)) {offset size : ℕ}
    (ho : offset ≤ (fileHeader bytes index).length)
    (hs : size ≤ (fileHeader bytes index).length - offset) (hlt : size < 2147483648)
    (buffer : Mem) :
    Returns (σ := σ) OutOfMemory (initfsRead env node offset size buffer) fun r =>
      r.1 = size ∧ ∀ j, r.2 j =
        if j < size then bytes ((fileHeader bytes index).offset + (offset + j)) else buffer j := by
  have hle := hi.file_le index h
  have hsz := hi.size_lt
  simp only [initfsRead, hd]
  rw [if_neg (Nat.not_lt.2 ho), u32_of_lt (show offset + size < 4294967296 by omega),
    if_neg (by omega), u32_of_lt (show (fileHeader bytes index).offset + offset < 4294967296 by omega),
    hx _ _ _ (by omega)]
  refine Returns.pure ⟨int32_of_lt hlt, fun j => ?_⟩
  show buffer.copyFrom 0 bytes ((fileHeader bytes index).offset + offset) size j = _
  by_cases hj : j < size
  · rw [if_pos hj, Mem.copyFrom_in (Nat.zero_le _) (by omega), Nat.sub_zero, Nat.add_assoc]
  · rw [if_neg hj, Mem.copyFrom_out (Or.inr (by omega))]

/-! ## The directory -/

theorem returns_initfsReaddir_none (h : nFiles bytes ≤ index) :
    Returns OutOfMemory (initfsReaddir env index) (· = none) := by
  have hle : (initfsReadHeader env).nFiles ≤ index := by rwa [initfsReadHeader_nFiles hi hx]
  rw [initfsReaddir, if_pos hle]
  exact Returns.pure rfl

/-- The entry of a file: its name is what the field holds, up to its end. -/
theorem returns_initfsReaddir (h : index < nFiles bytes) :
    Returns OutOfMemory (initfsReaddir env index) fun r =>
      ∃ ptr, r = some (ptr, ⟨(initfsReadFileHeader env index).string 2 256, index⟩) := by
  have hnot : ¬ (initfsReadHeader env).nFiles ≤ index := by
    rw [initfsReadHeader_nFiles hi hx]
    exact Nat.not_le.2 h
  have hm : ¬ (initfsReadFileHeader env index).load16 0 ≠ initfsFileHeaderMagic := by
    have he := congrArg InitfsFileHeader.magic (readFileHeader_eq hi hx h env.stack)
    rw [hi.fileMagic index h] at he
    exact not_not_intro he
  rw [initfsReaddir, if_neg hnot]
  refine returns_kmalloc_bind rfl fun ptr _ => ?_
  dsimp only
  rw [if_neg hm]
  exact Returns.pure ⟨ptr, rfl⟩

/-- Listing a file when the heap serves the allocation. -/
theorem initfsReaddir_ok (h : index < nFiles bytes) {heap : σ}
    (hserve : (Allocator.alloc heap vfsDirentSize false).1 ≠ 0) :
    initfsReaddir env index heap =
      .ok (some ((Allocator.alloc heap vfsDirentSize false).1,
          ⟨(initfsReadFileHeader env index).string 2 256, index⟩),
        (Allocator.alloc heap vfsDirentSize false).2) := by
  have hnot : ¬ (initfsReadHeader env).nFiles ≤ index := by
    rw [initfsReadHeader_nFiles hi hx]
    exact Nat.not_le.2 h
  have hm : ¬ (initfsReadFileHeader env index).load16 0 ≠ initfsFileHeaderMagic := by
    have he := congrArg InitfsFileHeader.magic (readFileHeader_eq hi hx h env.stack)
    rw [hi.fileMagic index h] at he
    exact not_not_intro he
  rw [initfsReaddir, if_neg hnot, kmallocOrPanic_bind hserve, if_neg hm]
  rfl

omit [Allocator σ] in
/-- A name that ends within the field lies there. -/
theorem HasName.readFileHeader (h : index < nFiles bytes) {name : List UInt8}
    (hn : HasName bytes index name) : (initfsReadFileHeader env index).HasString 2 name := by
  obtain ⟨⟨h0, h1, h2⟩, hlen⟩ := hn
  have hr := fun j (hj : j < 74) => readFileHeader_apply hi hx h env.stack hj
  refine ⟨h0, fun j hj => ?_, ?_⟩
  · rw [initfsReadFileHeader, hr _ (by omega), ← h1 j hj, Nat.add_assoc]
  · rw [initfsReadFileHeader, hr _ (by omega), ← h2, Nat.add_assoc]

end

/-! ## Lookup -/

section
variable [Allocator σ] {filesystem : ℕ} {name : List UInt8}

/-- The node of a file. -/
def IsFileNode (env : FsEnv σ δ) (filesystem index : ℕ) (node : VfsNode InitfsFileHeader) : Prop :=
  node.type = .file ∧ node.inode = index ∧ node.filesystem = filesystem ∧
    node.length = (initfsReadFileHeader env index).load32 70 ∧
    node.name = (initfsReadFileHeader env index).string 2 256

theorem returns_initfsFileNode : Returns OutOfMemory (initfsFileNode env filesystem index) fun r =>
    IsFileNode env filesystem index r.2 :=
  returns_kmallocBuffer_bind rfl fun _ => Returns.pure ⟨rfl, rfl, rfl, rfl, rfl⟩

/-- The first of the file headers whose name is `name`. -/
def FirstNamed (env : FsEnv σ δ) (name : List UInt8) (start stop : ℕ) : Option ℕ → Prop
  | none => ∀ i, start ≤ i → i < stop → ¬ (initfsReadFileHeader env i).HasString 2 name
  | some index => (start ≤ index ∧ index < stop) ∧
      (initfsReadFileHeader env index).HasString 2 name ∧
      ∀ i, start ≤ i → i < index → ¬ (initfsReadFileHeader env i).HasString 2 name

theorem returns_initfsFindFrom (h0 : 0 ∉ name) (n start : ℕ) :
    Returns OutOfMemory (initfsFindFrom env filesystem name n start) fun r =>
      (r = none ∧ FirstNamed env name start (start + n) none) ∨
        ∃ ptr node index, r = some (ptr, node) ∧ IsFileNode env filesystem index node ∧
          FirstNamed env name start (start + n) (some index) := by
  induction n generalizing start with
  | zero => exact Returns.pure (Or.inl ⟨rfl, fun i h1 h2 => absurd h1 (by omega)⟩)
  | succ n ih =>
    rw [initfsFindFrom]
    by_cases hc : strcmp name (initfsReadFileHeader env start) 2 = 0
    · rw [if_pos hc, map_eq_pure_bind]
      refine returns_initfsFileNode.bind fun r hr => Returns.pure (Or.inr ⟨r.1, r.2, start, rfl, hr, ?_⟩)
      exact ⟨⟨le_rfl, by omega⟩, (Mem.strcmp_eq_zero h0).1 hc, fun i h1 h2 => absurd h1 (by omega)⟩
    · have hns := fun h => hc ((Mem.strcmp_eq_zero h0).2 h)
      rw [if_neg hc]
      refine (ih (start + 1)).mono fun r hr => ?_
      rcases hr with ⟨hr, hf⟩ | ⟨ptr, node, index, hr, hnode, ⟨hb, hf, hbefore⟩⟩
      · refine Or.inl ⟨hr, fun i h1 h2 => ?_⟩
        rcases Nat.eq_or_lt_of_le h1 with rfl | h1
        · exact hns
        · exact hf i h1 (by omega)
      · refine Or.inr ⟨ptr, node, index, hr, hnode, ⟨by omega, by omega⟩, hf, fun i h1 h2 => ?_⟩
        rcases Nat.eq_or_lt_of_le h1 with rfl | h1
        · exact hns
        · exact hbefore i h1 h2

/-- What a lookup finds is the first file header that holds the name. -/
theorem returns_initfsFinddir (hi : InitfsImage bytes env.volume.size) (hx : env.Exact bytes)
    (h0 : 0 ∉ name) :
    Returns OutOfMemory (initfsFinddir env filesystem name) fun r =>
      (r = none ∧ FirstNamed env name 0 (nFiles bytes) none) ∨
        ∃ ptr node index, r = some (ptr, node) ∧ IsFileNode env filesystem index node ∧
          FirstNamed env name 0 (nFiles bytes) (some index) := by
  have h : Returns OutOfMemory (initfsFindFrom env filesystem name _ 0) _ :=
    returns_initfsFindFrom h0 (initfsReadHeader env).nFiles 0
  rw [Nat.zero_add, initfsReadHeader_nFiles hi hx] at h
  rw [initfsFinddir, initfsReadHeader_nFiles hi hx]
  exact h

end

end Ttos
