/-
  Reading from a file descriptor, for every offset and size.

  * `returns_fileRead`: what `file_read` returns and what it stores;
  * `file_read_min`: exactly when it reads up to the end of the file;
  * `file_read_wraps`: a read that does not.
-/
import Mathlib.Tactic.Ring
import Ttos.Drivers.Initrd
import Ttos.Fs.Ext2Spec
import Ttos.Io.File

namespace Ttos

/-! ## ext2 -/

section
variable {σ δ : Type} {env : FsEnv σ δ} {data : Ext2Fs}

/-- The block holds a whole number of pointers, and is not empty. -/
def Ext2Fs.BlockSizeOk (data : Ext2Fs) : Prop := ∃ p, data.blockSize = 4 * p ∧ 0 < p

/-- Block sizes that `ext2_mount` computes, unless the shift overflows to zero. -/
theorem blockSizeOk_of_mount (superblock : Ext2Superblock)
    (h : (Ext2Fs.ofSuperblock superblock).blockSize ≠ 0) :
    (Ext2Fs.ofSuperblock superblock).BlockSizeOk := by
  have hdef : (Ext2Fs.ofSuperblock superblock).blockSize =
      u32 (4 * (256 * 2 ^ (superblock.sLogBlockSize % 32))) := by
    rw [← mul_assoc]
    rfl
  generalize 256 * 2 ^ (superblock.sLogBlockSize % 32) = m at hdef
  rw [u32] at hdef
  refine ⟨m % 1073741824, ?_, ?_⟩ <;> omega

variable [Allocator σ]

/-- The positions of a file never need the triple indirect pointers when their
    number overflows. -/
theorem returns_inodeBlock_any (hb : data.BlockSizeOk) {ino : Ext2Inode} {index : ℕ}
    (hi : index * data.blockSize < 4294967296) :
    Returns OutOfMemory (ext2InodeBlock env data ino index) fun _ => True := by
  obtain ⟨p, hp, hpos⟩ := hb
  have hdiv : data.blockSize / 4 = p := by omega
  rw [ext2InodeBlock]
  split
  · exact Returns.pure trivial
  refine returns_kmallocBuffer_bind rfl fun buffer => ?_
  refine Returns.bind (P := fun _ => True) ?_ fun r _ => ?_
  · rw [ext2IndirectBlock, hdiv]
    dsimp only
    split
    · exact Returns.pure trivial
    split
    · exact Returns.pure trivial
    rename_i h1 _
    have hsq : p * p < 4294967296 := by
      calc p * p ≤ index * (4 * p) := Nat.mul_le_mul (by omega) (by omega)
        _ < 4294967296 := by rwa [← hp]
    have hne : u32 (p * p) ≠ 0 := by
      rw [u32_of_lt hsq]
      exact (Nat.mul_pos hpos hpos).ne'
    rw [ext2TripleIndirect, hdiv]
    dsimp only
    split
    · refine returns_div_bind hne ?_
      split_ifs <;> exact Returns.pure trivial
    · exact Returns.pure trivial
  · exact returns_kfree_bind (Returns.pure trivial)

/-- The loop of `ext2_read` fills exactly the part of the buffer it counts. -/
theorem returns_readLoop_any (hb : data.BlockSizeOk) {ino : Ext2Inode} {offset size : ℕ} :
    ∀ fuel n blockBuffer buffer, n ≤ size → size - n < fuel →
      Returns OutOfMemory (σ := σ) (ext2ReadLoop env data ino offset size fuel n blockBuffer buffer)
        fun r => r.1 = size ∧ ∀ j, size ≤ j → r.2 j = buffer j := by
  intro fuel
  induction fuel with
  | zero =>
    intro n _ _ _ hf
    exact absurd hf (Nat.not_lt_zero _)
  | succ fuel ih =>
    intro n blockBuffer buffer hn hf
    have hpos : 0 < data.blockSize := by
      obtain ⟨p, hp, hpos⟩ := hb
      omega
    rw [ext2ReadLoop]
    by_cases hlast : n = size
    · rw [if_neg (by omega)]
      exact Returns.pure ⟨hlast, fun _ _ => rfl⟩
    have hmod := Nat.mod_lt (u32 (offset + n)) hpos
    rw [if_pos (by omega)]
    refine returns_div_bind hpos.ne' ?_
    dsimp only
    generalize hc : (if size - n < data.blockSize - u32 (offset + n) % data.blockSize then size - n
      else data.blockSize - u32 (offset + n) % data.blockSize) = chunk
    have hchunk : 0 < chunk ∧ n + chunk ≤ size := by
      split at hc <;> omega
    have hidx : u32 (offset + n) / data.blockSize * data.blockSize < 4294967296 :=
      (Nat.div_mul_le_self _ _).trans_lt (u32_lt _)
    refine (returns_inodeBlock_any hb hidx).bind fun block _ => ?_
    split
    · refine (ih (n + chunk) _ _ (by omega) (by omega)).mono fun r hr => ⟨hr.1, fun j hj => ?_⟩
      rw [hr.2 j hj]
      exact Mem.fill_out (Or.inr (by omega))
    · refine (ih (n + chunk) _ _ (by omega) (by omega)).mono fun r hr => ⟨hr.1, fun j hj => ?_⟩
      rw [hr.2 j hj]
      exact Mem.copyFrom_out (Or.inr (by omega))

end

/-! ## Reading a node -/

/-- The bytes the file systems read of a file of `length` bytes. -/
def readSize (length offset size : ℕ) : ℕ :=
  if length < offset then 0
  else if length < u32 (offset + size) then length - offset else size

/-- A read that returned `n` bytes and touched no other byte of the buffer. -/
def Stored (n : ℕ) (buffer : Mem) (r : Int × Mem) : Prop :=
  r.1 = int32 n ∧ ∀ j, n ≤ j → r.2 j = buffer j

/-- What a read of `n` bytes asks the storage driver for into the caller's buffer; ext2 reads whole
    blocks, into a buffer of its own. -/
def fileRequest (volume : Volume δ) (length offset n : ℕ) : AnyNode → Option DriverRequest
  | .ext2 _ => none
  | .initfs node =>
    match node.inodeData with
    | .loaded _ fileHeader =>
      if length < offset then none else volumeRequest volume (u32 (fileHeader.offset + offset)) n
    | _ => none

/-- A read that returned `n` bytes; what the buffer holds behind them is left to the driver. -/
def StoredBy (volume : Volume δ) (device : δ) (n : ℕ) (buffer : Mem) (request : Option DriverRequest)
    (r : Int × Mem) : Prop :=
  r.1 = int32 n ∧ ((∀ j, n ≤ j → r.2 j = buffer j) ↔
    ∀ q, request = some q → volume.driver.StoresWithin device q n buffer)

section
variable {σ δ : Type} [Allocator σ] {env : FsEnv σ δ}

theorem returns_ext2Read {data : Ext2Fs} (hb : data.BlockSizeOk) {node : VfsNode Ext2Inode}
    {ptr : ℕ} {ino : Ext2Inode} (hd : node.inodeData = .loaded ptr ino) (offset size : ℕ)
    (buffer : Mem) :
    Returns OutOfMemory (ext2Read env data node offset size buffer)
      (Stored (readSize ino.iSize offset size) buffer) := by
  simp only [ext2Read, hd, readSize]
  by_cases ho : ino.iSize < offset
  · rw [if_pos ho, if_pos ho]
    exact Returns.pure ⟨rfl, fun _ _ => rfl⟩
  rw [if_neg ho, if_neg ho]
  generalize (if ino.iSize < u32 (offset + size) then ino.iSize - offset else size) = n
  by_cases h0 : n = 0
  · rw [if_pos h0, h0]
    exact Returns.pure ⟨rfl, fun _ _ => rfl⟩
  rw [if_neg h0]
  refine returns_kmallocBuffer_bind rfl fun blockBuffer => ?_
  refine (returns_readLoop_any hb _ _ _ buffer (Nat.zero_le _) (by omega)).bind ?_
  rintro ⟨m, buffer'⟩ ⟨rfl, hbuf⟩
  exact returns_kfree_bind (Returns.pure ⟨rfl, hbuf⟩)

omit [Allocator σ] in
theorem returns_initfsRead {node : VfsNode InitfsFileHeader} {ptr : ℕ} {fileHeader : InitfsFileHeader}
    (hd : node.inodeData = .loaded ptr fileHeader) (offset size : ℕ) (buffer : Mem) :
    Returns (σ := σ) OutOfMemory (initfsRead env node offset size buffer)
      (StoredBy env.volume env.device (readSize fileHeader.length offset size) buffer
        (fileRequest env.volume fileHeader.length offset (readSize fileHeader.length offset size)
          (.initfs node))) := by
  simp only [initfsRead, fileRequest, hd, readSize]
  by_cases ho : fileHeader.length < offset
  · rw [if_pos ho, if_pos ho, if_pos ho]
    exact Returns.pure ⟨rfl, iff_of_true (fun _ _ => rfl) fun q hq => by cases hq⟩
  rw [if_neg ho, if_neg ho, if_neg ho]
  generalize (if fileHeader.length < u32 (offset + size) then fileHeader.length - offset else size) = n
  refine Returns.pure ⟨rfl, ?_⟩
  rw [FsEnv.read, volumeRead]
  cases hr : volumeRequest env.volume (u32 (fileHeader.offset + offset)) n with
  | none => exact iff_of_true (fun _ _ => rfl) fun q hq => by cases hq
  | some r =>
    refine ⟨fun h q hq => ?_, fun h => h r rfl⟩
    obtain rfl := Option.some.inj hq
    exact h

end

/-! ## The descriptor -/

variable {σ δ : Type} [Allocator σ]

/-- The node of an open regular file of `length` bytes. -/
def OpenNode (filesystem : VfsFilesystem δ) (length : ℕ) : AnyNode → Prop
  | .ext2 node => node.type = .file ∧ (∃ ptr ino, node.inodeData = .loaded ptr ino ∧ ino.iSize = length) ∧
      ∃ ptr superblock, filesystem.fsData = .ext2 ptr (.ofSuperblock superblock) ∧
        (Ext2Fs.ofSuperblock superblock).blockSize ≠ 0
  | .initfs node => node.type = .file ∧
      ∃ ptr fileHeader, node.inodeData = .loaded ptr fileHeader ∧ fileHeader.length = length

/-- `fd` is a descriptor of an open regular file of `length` bytes, at any offset. -/
structure OpenFile (s : Objects σ δ) (fd length : ℕ) : Prop where
  fd_ne : fd ≠ 0
  node_ne : (s.files fd).node ≠ 0
  size : (s.files fd).size = length
  length_lt : length < 4294967296
  offset_lt : (s.files fd).offset < 4294967296
  node : OpenNode (s.filesystems (s.nodes (s.files fd).node).filesystem) length
    (s.nodes (s.files fd).node)

variable {machine : Machine σ δ} {s : Objects σ δ} {fd length : ℕ}

omit [Allocator σ] in
/-- The volume of an open file. -/
def fileVolume (s : Objects σ δ) (fd : ℕ) : Volume δ :=
  (s.filesystems (s.nodes (s.files fd).node).filesystem).volume

omit [Allocator σ] in
/-- Whatever the driver is asked for to read `n` bytes from an open file, it stores nothing behind
    them. -/
def ReadStays (machine : Machine σ δ) (s : Objects σ δ) (fd length n : ℕ) (buffer : Mem) : Prop :=
  ∀ r, fileRequest (fileVolume s fd) length (s.files fd).offset n (s.nodes (s.files fd).node) = some r →
    (fileVolume s fd).driver.StoresWithin machine.device r n buffer

theorem returns_nodeRead {filesystem : VfsFilesystem δ} {node : AnyNode}
    (h : OpenNode filesystem length node) (offset size : ℕ) (buffer : Mem) :
    Returns OutOfMemory (nodeRead machine filesystem node offset size buffer)
      (StoredBy filesystem.volume machine.device (readSize length offset size) buffer
        (fileRequest filesystem.volume length offset (readSize length offset size) node)) := by
  cases node with
  | initfs node =>
    obtain ⟨-, ptr, fileHeader, hd, rfl⟩ := h
    exact returns_initfsRead hd offset size buffer
  | ext2 node =>
    obtain ⟨-, ⟨ptr, ino, hd, rfl⟩, dptr, superblock, hdata, hb⟩ := h
    rw [nodeRead]
    simp only [hdata]
    refine (returns_ext2Read (blockSizeOk_of_mount _ hb) hd offset size buffer).mono fun r hr => ?_
    exact ⟨hr.1, iff_of_true hr.2 fun q hq => by cases hq⟩

theorem OpenNode.isFile {filesystem : VfsFilesystem δ} {node : AnyNode}
    (h : OpenNode filesystem length node) : node.isFile = true := by
  cases node <;> exact decide_eq_true h.1

theorem meets_vfsRead (h : OpenFile s fd length) (offset size : ℕ) (buffer : Mem) :
    Meets OutOfMemory (vfsRead machine (s.files fd).node offset size buffer) s fun r _ =>
      StoredBy (fileVolume s fd) machine.device (readSize length offset size) buffer
        (fileRequest (fileVolume s fd) length offset (readSize length offset size)
          (s.nodes (s.files fd).node)) r := by
  refine Meets.get_bind ?_
  rw [if_pos ⟨h.node_ne, h.node.isFile⟩]
  exact (meets_onHeap (returns_nodeRead h.node offset size buffer) s).mono fun _ _ hr => hr.1

/-- The clamp of `file_read` is the one of the file systems. -/
theorem readSize_clamp {length offset size : ℕ} (hl : length < 4294967296) :
    readSize length offset (if length < u32 (offset + size) then sub32 length offset else size) =
      readSize length offset size := by
  rw [readSize, readSize]
  by_cases ho : length < offset
  · rw [if_pos ho, if_pos ho]
  rw [if_neg ho, if_neg ho]
  by_cases hs : length < u32 (offset + size)
  · rw [if_pos hs, if_pos hs, sub32_of_le (Nat.not_lt.1 ho) hl,
      show offset + (length - offset) = length by omega, u32_of_lt hl, if_neg (Nat.lt_irrefl _)]
  · rw [if_neg hs, if_neg hs]

/-- What `file_read` does on an open regular file: it returns the count as an
    `int32_t`, or -1 when that is negative. -/
theorem meets_fileRead (machine : Machine σ δ) (h : OpenFile s fd length)
    (hr : (s.files fd).flags &&& fileRdonly ≠ 0)
    (size : ℕ) (buffer : Mem) :
    Meets OutOfMemory (fileRead machine fd size buffer) s fun r _ =>
      (r.1 = if int32 (readSize length (s.files fd).offset size) < 0 then -1
        else int32 (readSize length (s.files fd).offset size)) ∧
      ((∀ j, readSize length (s.files fd).offset size ≤ j → r.2 j = buffer j) ↔
        ReadStays machine s fd length (readSize length (s.files fd).offset size) buffer) := by
  rw [fileRead, if_neg h.fd_ne]
  refine Meets.get_bind ?_
  dsimp only
  rw [if_neg h.node_ne, if_neg hr, h.size]
  refine (meets_vfsRead h _ _ buffer).bind ?_
  rintro ⟨n, buffer'⟩ s' ⟨hn, hbuf⟩
  rw [readSize_clamp h.length_lt] at hn hbuf
  obtain rfl : n = _ := hn
  dsimp only at hbuf ⊢
  by_cases hneg : int32 (readSize length (s.files fd).offset size) < 0
  · rw [if_pos hneg, if_pos hneg]
    exact Meets.pure ⟨rfl, hbuf⟩
  · rw [if_neg hneg, if_neg hneg]
    exact Meets.modify_bind (Meets.pure ⟨rfl, hbuf⟩)

/-! ## Reading to the end -/

/-- The bytes between the offset and the end of the file, and at most `size`. -/
def available (length offset size : ℕ) : ℕ := min size (length - offset)

/-- The read returned exactly the available count and stored nothing behind it. -/
def ReadsAvailable (x : Except FsStop ((Int × Mem) × Objects σ δ)) (length offset size : ℕ)
    (buffer : Mem) : Prop :=
  ∃ r s', x = .ok (r, s') ∧ r.1 = available length offset size ∧
    ∀ j, available length offset size ≤ j → r.2 j = buffer j

theorem readSize_of_le {offset size : ℕ} (ho : length < offset ∨
    offset + size < 4294967296) : readSize length offset size = available length offset size := by
  rw [readSize, available]
  split
  · omega
  · rw [u32_of_lt (by omega)]
    split <;> omega

/-- A sum that wraps is below the length: nothing is cut. -/
theorem readSize_of_wrap {offset size : ℕ} (hl : length < 4294967296) (ho : offset ≤ length)
    (hs : size < 4294967296) (hw : 4294967296 ≤ offset + size) :
    readSize length offset size = size ∧ available length offset size < size := by
  have hu : u32 (offset + size) = offset + size - 4294967296 := by
    rw [u32]
    omega
  rw [readSize, available, if_neg (Nat.not_lt.2 ho), hu, if_neg (by omega)]
  exact ⟨rfl, by omega⟩

theorem int32_neg {n : ℕ} (h : n < 4294967296) (h' : 2147483648 ≤ n) : int32 n < 0 := by
  rw [int32, u32_of_lt h, if_neg (by omega)]
  omega

/-- A descriptor that was not opened for reading. -/
theorem fileRead_denied (machine : Machine σ δ) (h : OpenFile s fd length)
    (hr : (s.files fd).flags &&& fileRdonly = 0)
    (size : ℕ) (buffer : Mem) :
    Meets (fun _ => False) (fileRead machine fd size buffer) s fun r _ => r = (-1, buffer) := by
  rw [fileRead, if_neg h.fd_ne]
  refine Meets.get_bind ?_
  dsimp only
  rw [if_neg h.node_ne, if_pos hr]
  exact Meets.pure rfl

/-- **Reading stops at the end of the file** unless a sum wraps, the count is no `int32_t`, or the
    driver stores more than it is asked for. -/
theorem file_read_min (machine : Machine σ δ) (s : Objects σ δ) (fd length : ℕ)
    (h : OpenFile s fd length) (size : ℕ) (hs : size < 4294967296) (buffer : Mem)
    (hm : fileRead machine fd size buffer s ≠ .error .kheapOutOfMemory) :
    ReadsAvailable (fileRead machine fd size buffer s) length (s.files fd).offset size buffer ↔
      (s.files fd).flags &&& fileRdonly ≠ 0 ∧
        (length < (s.files fd).offset ∨ (s.files fd).offset + size < 4294967296) ∧
        available length (s.files fd).offset size < 2147483648 ∧
        ReadStays machine s fd length (available length (s.files fd).offset size) buffer := by
  have hl := h.length_lt
  by_cases hr : (s.files fd).flags &&& fileRdonly = 0
  · refine iff_of_false ?_ fun hc => hc.1 hr
    rintro ⟨r, s', hx, hn, -⟩
    have hd := fileRead_denied machine h hr size buffer
    rw [Meets, hx] at hd
    obtain rfl : r = _ := hd
    have : (-1 : ℤ) = (available length (s.files fd).offset size : ℕ) := hn
    omega
  rcases (meets_fileRead machine h hr size buffer).cases with ⟨e, hx, rfl⟩ | ⟨r, s', hx, hn, hb⟩
  · exact absurd hx hm
  generalize hoffset : (s.files fd).offset = offset at hn hb ⊢
  constructor
  · rintro ⟨r', s'', hx', hn', hbehind⟩
    obtain ⟨rfl, rfl⟩ : r = r' ∧ s' = s'' := by
      rw [hx] at hx'
      exact Prod.mk.inj (Except.ok.inj hx')
    refine ⟨hr, ?_⟩
    rw [hn'] at hn
    -- the count is not negative, so it was returned as it is
    have hsize : readSize length offset size < 4294967296 := by
      rw [readSize]
      split_ifs <;> omega
    have hlt : readSize length offset size < 2147483648 := by
      by_contra hge
      rw [if_pos (int32_neg hsize (by omega))] at hn
      omega
    have hpos : ¬ int32 (readSize length offset size) < 0 := by
      rw [int32_of_lt hlt]
      omega
    rw [if_neg hpos, int32_of_lt hlt] at hn
    have hw : length < offset ∨ offset + size < 4294967296 := by
      by_contra hw
      rw [not_or] at hw
      obtain ⟨h1, h2⟩ := readSize_of_wrap hl (Nat.not_lt.1 hw.1) hs (by omega)
      omega
    rw [readSize_of_le hw] at hb hlt
    exact ⟨hw, hlt, hb.1 hbehind⟩
  · rintro ⟨-, hw, hlt, hstays⟩
    rw [readSize_of_le hw] at hn hb
    have hpos : ¬ int32 (available length offset size) < 0 := by
      rw [int32_of_lt hlt]
      omega
    rw [if_neg hpos, int32_of_lt hlt] at hn
    exact ⟨r, s', hx, hn, hb.2 hstays⟩

/-! ## A file on the initial ramdisk -/

/-- The ramdisk's image: one file of 8 bytes behind the headers. -/
def ramdisk : Machine KernelHeap Initrd where
  device := ⟨fun a => UInt8.ofNat a, 88⟩
  stale _ _ := fun _ => 0xAA
  stack := fun _ => 0xAA

theorem ramdiskHeap_fits : 0x200000 + kheapPlacementSize < 4294967296 := by decide

/-- The file, opened for reading at address 8 and read up to byte 4. -/
def ramdiskFile : Objects KernelHeap Initrd where
  heap := KernelHeap.boot 0x200000 (fun _ => 0) ramdiskHeap_fits
  nodes _ := .initfs
    { name := [0x66]
      permissions := 0
      type := .file
      uid := 0
      gid := 0
      length := 8
      inode := 0
      inodeData := .loaded 64 ⟨0xBEEF, [0x66], 80, 8⟩
      filesystem := 32 }
  filesystems _ := ⟨16, ⟨0, 88, initrdDriver⟩, .initfs, 24⟩
  files _ := ⟨48, 8, 4, 1⟩

theorem ramdiskFile_open : OpenFile ramdiskFile 8 8 where
  fd_ne := by decide
  node_ne := by decide
  size := rfl
  length_lt := by decide
  offset_lt := by decide
  node := ⟨rfl, 64, _, rfl, rfl⟩

/-- The driver of the ramdisk stores nothing behind the bytes asked for. -/
theorem ramdiskFile_stays (n : ℕ) (buffer : Mem) :
    ReadStays ramdisk ramdiskFile 8 8 n buffer := by
  intro r hr
  have hrequest : volumeRequest ⟨0, 88, initrdDriver⟩ 84 n = some r := hr
  exact initrdDriver_storesWithin _ (volumeRequest_size_le hrequest) buffer

theorem file_read_min_ramdisk :
    OpenFile ramdiskFile 8 8 ∧
      ReadsAvailable (fileRead ramdisk 8 2 (fun _ => 0) ramdiskFile) 8 4 2 fun _ => 0 :=
  ⟨ramdiskFile_open, (file_read_min ramdisk ramdiskFile 8 8 ramdiskFile_open 2 (by decide) _
    (fun h => nomatch h)).2 ⟨by decide, Or.inr (by decide), by decide, ramdiskFile_stays _ _⟩⟩

/-- Four bytes are left, but 2^32 - 4 are asked for: the sum wraps to 0, and the
    call fails instead of returning 4. -/
theorem file_read_wraps :
    OpenFile ramdiskFile 8 8 ∧ (ramdiskFile.files 8).offset = 4 ∧ available 8 4 4294967292 = 4 ∧
      ¬ ReadsAvailable (fileRead ramdisk 8 4294967292 (fun _ => 0) ramdiskFile) 8 4 4294967292
        fun _ => 0 := by
  refine ⟨ramdiskFile_open, rfl, rfl, ?_⟩
  rintro ⟨r, s', hx, hn, -⟩
  have hread := meets_fileRead ramdisk ramdiskFile_open (by decide) 4294967292 fun _ => 0
  rw [Meets, hx] at hread
  have hr : r.1 = -1 := hread.1.trans (if_pos (by decide))
  rw [hr] at hn
  exact absurd hn (by decide)

end Ttos
