/-
  The block pointers of an inode, for every index.

  * `mappedBlock`: the rule of the format, over any content of the blocks of pointers;
  * `ext2IndirectReads`: `ext2_inode_block` behind the direct pointers, with every index at
    which it reads its block buffer, and `ext2IndirectBlock_traced`: it computes the same;
  * `ext2_inode_block_exact`: the rule is kept and the buffer is not left exactly for the
    indices the rule knows and for inodes without a triple indirect block.
-/
import Ttos.Fs.Ext2
import Ttos.Lib.BlockTree
import Ttos.Lib.Traced
import Ttos.Memory.KernelHeap

namespace Ttos

open BlockTree

variable {σ δ : Type} (env : FsEnv σ δ) (data : Ext2Fs)

/-! ## The rule -/

/-- The tree of pointers that block `n` of a file is in: its height, its root, and the
    number of the block in it. -/
def mappedTree (p : ℕ) (ino : Ext2Inode) (n : ℕ) : ℕ × ℕ × ℕ :=
  if n < 12 then (0, ino.iBlock n, 0)
  else if n < 12 + p then (1, ino.iBlock 12, n - 12)
  else if n < 12 + p + p ^ 2 then (2, ino.iBlock 13, n - (12 + p))
  else if n < 12 + p + p ^ 2 + p ^ 3 then (3, ino.iBlock 14, n - (12 + p + p ^ 2))
  else (0, 0, 0)

/-- The block of a file's block `n` where pointer `i` of block `b` is `entry b i`. -/
def mappedBlock (entry : ℕ → ℕ → ℕ) (p : ℕ) (ino : Ext2Inode) (n : ℕ) : ℕ :=
  let t := mappedTree p ino n
  resolve entry p t.1 t.2.1 t.2.2

/-- The blocks of pointers on the way. -/
def mappedPointers (entry : ℕ → ℕ → ℕ) (p : ℕ) (ino : Ext2Inode) (n : ℕ) : List ℕ :=
  let t := mappedTree p ino n
  inner entry p t.1 t.2.1 t.2.2

/-- The volume delivers the pointers of a block. -/
def Delivers (entry : ℕ → ℕ → ℕ) (block : ℕ) : Prop :=
  ∀ (buffer : Mem) (i : ℕ), i < data.blockSize / 4 →
    (ext2ReadBlock env data block buffer).load32 (4 * i) = entry block i

/-! ## The reads of the block buffer -/

/-- `block_buffer[i]` -/
def blockBufferAt (blockBuffer : Mem) (i : ℕ) : Traced ℕ FsStop ℕ := do
  Traced.tell i
  pure (blockBuffer.load32 (4 * i))

def ext2SingleReads (blockBuffer : Mem) (block index : ℕ) : Traced ℕ FsStop ℕ :=
  if block ≠ 0 then blockBufferAt (ext2ReadBlock env data block blockBuffer) index else pure 0

def ext2DoubleReads (blockBuffer : Mem) (block index : ℕ) : Traced ℕ FsStop ℕ :=
  let pointersPerBlock := data.blockSize / 4
  if block ≠ 0 then do
    let blockBuffer := ext2ReadBlock env data block blockBuffer
    let single ← blockBufferAt blockBuffer (index / pointersPerBlock)
    if single ≠ 0 then
      blockBufferAt (ext2ReadBlock env data single blockBuffer) (index % pointersPerBlock)
    else pure 0
  else pure 0

def ext2TripleReads (blockBuffer : Mem) (block index : ℕ) : Traced ℕ FsStop ℕ :=
  let pointersPerBlock := data.blockSize / 4
  let square := u32 (pointersPerBlock * pointersPerBlock)
  if block ≠ 0 then do
    let blockBuffer := ext2ReadBlock env data block blockBuffer
    let i ← Traced.lift (if square = 0 then .error .divideError else .ok (index / square))
    let double ← blockBufferAt blockBuffer i
    if double ≠ 0 then
      let blockBuffer := ext2ReadBlock env data double blockBuffer
      let remainder := index % square
      let single ← blockBufferAt blockBuffer (remainder / pointersPerBlock)
      if single ≠ 0 then
        blockBufferAt (ext2ReadBlock env data single blockBuffer) (remainder % pointersPerBlock)
      else pure 0
    else pure 0
  else pure 0

/-- `ext2IndirectBlock` with the indices at which the block buffer is read. -/
def ext2IndirectReads (blockBuffer : Mem) (inode : Ext2Inode) (index : ℕ) : Traced ℕ FsStop ℕ :=
  let pointersPerBlock := data.blockSize / 4
  let square := u32 (pointersPerBlock * pointersPerBlock)
  if index < pointersPerBlock then ext2SingleReads env data blockBuffer (inode.iBlock 12) index
  else
    let index := index - pointersPerBlock
    if index < square then ext2DoubleReads env data blockBuffer (inode.iBlock 13) index
    else ext2TripleReads env data blockBuffer (inode.iBlock 14) (index - square)

/-- The indices at which `ext2_inode_block` reads its block buffer, which `kmalloc` returned
    with the content `blockBuffer`. -/
def ext2InodeReads (blockBuffer : Mem) (inode : Ext2Inode) (index : ℕ) : List ℕ :=
  if index < 12 then [] else (ext2IndirectReads env data blockBuffer inode (index - 12)).log

/-- The trace changes nothing. -/
theorem ext2IndirectBlock_traced (blockBuffer : Mem) (inode : Ext2Inode) (index : ℕ) (heap : σ) :
    ext2IndirectBlock env data blockBuffer inode index heap =
      (ext2IndirectReads env data blockBuffer inode index).result.map (·, heap) := by
  unfold ext2IndirectBlock ext2IndirectReads
  dsimp only
  split_ifs
  · unfold ext2SingleIndirect ext2SingleReads
    split_ifs <;> rfl
  · unfold ext2DoubleIndirect ext2DoubleReads
    dsimp only
    split_ifs with hb hs
    · rw [Traced.result_bind (a := _) rfl, if_pos hs]
      rfl
    · rw [Traced.result_bind (a := _) rfl, if_neg hs]
      rfl
    · rfl
  · unfold ext2TripleIndirect ext2TripleReads
    dsimp only
    split_ifs with hb hz
    · rw [divOrFault, if_pos hz]
      rfl
    · rw [divOrFault, if_neg hz, Traced.result_bind (a := _) rfl, Traced.result_bind (a := _) rfl]
      show (ite _ _ _ : FsM σ ℕ) heap = _
      split_ifs with hd hs
      · rw [Traced.result_bind (a := _) rfl, if_pos hs]
        rfl
      · rw [Traced.result_bind (a := _) rfl, if_neg hs]
        rfl
      · rfl
    · rfl

section
variable {env data} {p block index : ℕ}
variable (hp : 0 < p) (hs : p ^ 2 < 4294967296) (hb : data.blockSize / 4 = p)

@[simp] theorem all_blockBufferAt (buffer : Mem) (i : ℕ) :
    (blockBufferAt buffer i).All (· < p) ↔ i < p := by
  rw [blockBufferAt, Traced.all_tell_bind, Traced.all_pure, and_true]

theorem singleReads_all (buffer : Mem) (hi : index < p) :
    (ext2SingleReads env data buffer block index).All (· < p) := by
  unfold ext2SingleReads
  split_ifs
  · exact (all_blockBufferAt ..).2 hi
  · exact (Traced.all_pure _).2 trivial

include hp hb

theorem doubleReads_all (buffer : Mem) (hi : index < p ^ 2) :
    (ext2DoubleReads env data buffer block index).All (· < p) := by
  have hdiv : index / p < p := Nat.div_lt_of_lt_mul (by rwa [pow_two] at hi)
  unfold ext2DoubleReads
  rw [hb]
  dsimp only
  split_ifs
  · rw [Traced.all_bind, all_blockBufferAt]
    refine ⟨hdiv, fun single _ => ?_⟩
    split_ifs
    · exact (all_blockBufferAt ..).2 (Nat.mod_lt _ hp)
    · exact (Traced.all_pure _).2 trivial
  · exact (Traced.all_pure _).2 trivial

include hs

/-- The first of the three reads leaves the buffer when the index is too large. -/
theorem tripleReads_all (buffer : Mem) :
    (ext2TripleReads env data buffer block index).All (· < p) ↔ block = 0 ∨ index < p ^ 3 := by
  have hp2 : 0 < p ^ 2 := Nat.pow_pos hp
  have hdiv : index / p ^ 2 < p ↔ index < p ^ 3 := by
    rw [Nat.div_lt_iff_lt_mul hp2, pow_succ' p 2]
  unfold ext2TripleReads
  dsimp only
  rw [hb, ← pow_two, u32_of_lt hs, if_neg hp2.ne']
  split_ifs with h0
  · rw [Traced.all_bind, Traced.all_lift, true_and, ← hdiv]
    constructor
    · intro h
      have h' := h _ rfl
      rw [Traced.all_bind, all_blockBufferAt] at h'
      exact Or.inr h'.1
    · rintro (h | h) i hi
      · exact absurd h h0
      obtain rfl : index / p ^ 2 = i := by simpa using hi
      rw [Traced.all_bind, all_blockBufferAt]
      refine ⟨h, fun double _ => ?_⟩
      have hrem : index % p ^ 2 / p < p :=
        Nat.div_lt_of_lt_mul (by rw [← pow_two]; exact Nat.mod_lt _ hp2)
      split_ifs
      · rw [Traced.all_bind, all_blockBufferAt]
        refine ⟨hrem, fun single _ => ?_⟩
        split_ifs
        · exact (all_blockBufferAt ..).2 (Nat.mod_lt _ hp)
        · exact (Traced.all_pure _).2 trivial
      · exact (Traced.all_pure _).2 trivial
  · exact iff_of_true ((Traced.all_pure _).2 trivial) (Or.inl (not_not.1 h0))

theorem inodeReads_lt {ino : Ext2Inode} (buffer : Mem) :
    (∀ i ∈ ext2InodeReads env data buffer ino index, i < p) ↔
      index < 12 + p + p ^ 2 + p ^ 3 ∨ ino.iBlock 14 = 0 := by
  unfold ext2InodeReads
  split_ifs with h0
  · exact iff_of_true (by simp) (Or.inl (by omega))
  change (ext2IndirectReads env data buffer ino (index - 12)).All (· < p) ↔ _
  unfold ext2IndirectReads
  dsimp only
  rw [hb, ← pow_two, u32_of_lt hs]
  split_ifs with h1 h2
  · exact iff_of_true (singleReads_all buffer h1) (Or.inl (by omega))
  · exact iff_of_true (doubleReads_all hp hb buffer h2) (Or.inl (by omega))
  · rw [tripleReads_all hp hs hb, or_comm]
    exact or_congr_left (by omega)

end

/-! ## Walking the tree -/

section
variable {env data} {entry : ℕ → ℕ → ℕ} {p block index : ℕ}
variable (hp : 0 < p) (hs : p ^ 2 < 4294967296) (hb : data.blockSize / 4 = p)

/-- One level of the walk: the driver skips null pointers, and a pointer tree
    below a null pointer is made of holes. -/
theorem ite_eq_resolve {l n i m r : ℕ} (hn : n / p ^ l = i) (hm : n % p ^ l = m)
    (hr : block ≠ 0 → r = resolve entry p l (entry block i) m) :
    (if block ≠ 0 then r else 0) = resolve entry p (l + 1) block n := by
  by_cases hb : block = 0
  · rw [if_neg (by simpa using hb), hb, resolve_null]
  · rw [if_pos hb, resolve_succ hb, hn, hm, hr hb]

/-- The pointer that is followed, and the blocks of pointers below it. -/
theorem delivers_inner {l n : ℕ} (h0 : block ≠ 0)
    (hd : ∀ b ∈ inner entry p (l + 1) block n, Delivers env data entry b) :
    Delivers env data entry block ∧ ∀ b ∈ inner entry p l (entry block (n / p ^ l)) (n % p ^ l),
      Delivers env data entry b := by
  rw [inner_succ h0] at hd
  exact List.forall_mem_cons.1 hd

include hb

theorem singleIndirect_eq (hi : index < p)
    (hd : ∀ b ∈ inner entry p 1 block index, Delivers env data entry b) (buffer : Mem) :
    ext2SingleIndirect env data buffer block index = resolve entry p 1 block index := by
  refine ite_eq_resolve (l := 0) (i := index) (m := 0) ?_ ?_ fun h0 => ?_
  · rw [pow_zero, Nat.div_one]
  · rw [pow_zero, Nat.mod_one]
  · exact (delivers_inner h0 hd).1 buffer index (hb ▸ hi)

include hp

theorem doubleIndirect_eq (hi : index < p ^ 2)
    (hd : ∀ b ∈ inner entry p 2 block index, Delivers env data entry b) (buffer : Mem) :
    ext2DoubleIndirect env data buffer block index = resolve entry p 2 block index := by
  have hdiv : index / p < p := Nat.div_lt_of_lt_mul (by rwa [pow_two] at hi)
  rw [ext2DoubleIndirect, hb]
  refine ite_eq_resolve (l := 1) (i := index / p) (m := index % p) (by rw [pow_one])
    (by rw [pow_one]) fun h0 => ?_
  obtain ⟨hread, hbelow⟩ := delivers_inner h0 hd
  rw [pow_one] at hbelow
  dsimp only
  rw [hread _ _ (hb ▸ hdiv)]
  exact singleIndirect_eq hb (Nat.mod_lt _ hp) hbelow _

include hs

theorem returns_tripleIndirect (hi : index < p ^ 3)
    (hd : ∀ b ∈ inner entry p 3 block index, Delivers env data entry b) (buffer : Mem) :
    Returns OutOfMemory (σ := σ) (ext2TripleIndirect env data buffer block index)
      (· = resolve entry p 3 block index) := by
  have hp2 : 0 < p ^ 2 := Nat.pow_pos hp
  have hdiv : index / p ^ 2 < p := Nat.div_lt_of_lt_mul (by rwa [← pow_succ])
  rw [ext2TripleIndirect, hb, ← pow_two, u32_of_lt hs]
  by_cases h0 : block = 0
  · rw [if_neg (by simpa using h0), h0, resolve_null]
    exact Returns.pure rfl
  obtain ⟨hread, hbelow⟩ := delivers_inner h0 hd
  rw [if_pos h0]
  refine returns_div_bind hp2.ne' ?_
  rw [hread _ _ (hb ▸ hdiv), resolve_succ h0,
    ← doubleIndirect_eq hp hb (Nat.mod_lt _ hp2) hbelow (ext2ReadBlock env data block buffer),
    ext2DoubleIndirect, hb]
  dsimp only
  split_ifs <;> exact Returns.pure rfl

theorem returns_indirectBlock {ino : Ext2Inode} (h0 : 12 ≤ index)
    (hi : index < 12 + p + p ^ 2 + p ^ 3 ∨ ino.iBlock 14 = 0)
    (hd : ∀ b ∈ mappedPointers entry p ino index, Delivers env data entry b) (buffer : Mem) :
    Returns OutOfMemory (σ := σ) (ext2IndirectBlock env data buffer ino (index - 12))
      (· = mappedBlock entry p ino index) := by
  rw [mappedPointers] at hd
  rw [ext2IndirectBlock, mappedBlock, hb, ← pow_two, u32_of_lt hs]
  dsimp only
  by_cases h1 : index - 12 < p
  · have ht : mappedTree p ino index = (1, ino.iBlock 12, index - 12) := by
      rw [mappedTree, if_neg (by omega), if_pos (by omega)]
    rw [ht] at hd ⊢
    rw [if_pos h1]
    exact Returns.pure (singleIndirect_eq hb h1 hd _)
  rw [if_neg h1, Nat.sub_sub]
  by_cases h2 : index - (12 + p) < p ^ 2
  · have ht : mappedTree p ino index = (2, ino.iBlock 13, index - (12 + p)) := by
      rw [mappedTree, if_neg (by omega), if_neg (by omega), if_pos (by omega)]
    rw [ht] at hd ⊢
    rw [if_pos h2]
    exact Returns.pure (doubleIndirect_eq hp hb h2 hd _)
  rw [if_neg h2, Nat.sub_sub]
  by_cases h3 : index < 12 + p + p ^ 2 + p ^ 3
  · have ht : mappedTree p ino index = (3, ino.iBlock 14, index - (12 + p + p ^ 2)) := by
      rw [mappedTree, if_neg (by omega), if_neg (by omega), if_neg (by omega), if_pos h3]
    rw [ht] at hd ⊢
    have hlt : index - (12 + p + p ^ 2) < p ^ 3 := by omega
    exact returns_tripleIndirect hp hs hb hlt hd _
  · -- behind the last index only a missing root stops the walk
    have ht : mappedTree p ino index = (0, 0, 0) := by
      rw [mappedTree, if_neg (by omega), if_neg (by omega), if_neg (by omega), if_neg h3]
    rw [ht, hi.resolve_left h3, ext2TripleIndirect]
    exact Returns.pure rfl

theorem returns_mappedBlock [Allocator σ] {ino : Ext2Inode}
    (hi : index < 12 + p + p ^ 2 + p ^ 3 ∨ ino.iBlock 14 = 0)
    (hd : ∀ b ∈ mappedPointers entry p ino index, Delivers env data entry b) :
    Returns OutOfMemory (σ := σ) (ext2InodeBlock env data ino index)
      (· = mappedBlock entry p ino index) := by
  rw [ext2InodeBlock]
  by_cases h0 : index < 12
  · rw [if_pos h0, mappedBlock, mappedTree, if_pos h0]
    exact Returns.pure rfl
  · rw [if_neg h0]
    refine returns_kmallocBuffer_bind rfl fun buffer => ?_
    refine (returns_indirectBlock hp hs hb (by omega) hi hd _).bind fun r hr => ?_
    refine returns_kfree_bind ?_
    exact Returns.pure hr

end

/-! ## Every index -/

theorem bufferPointers_pos {k : ℕ} (hb : data.blockSize = 1024 * 2 ^ k) :
    0 < data.blockSize / 4 := by
  have : 0 < 2 ^ k := Nat.two_pow_pos k
  omega

theorem bufferPointers_square {k : ℕ} (hk : k ≤ 6) (hb : data.blockSize = 1024 * 2 ^ k) :
    (data.blockSize / 4) ^ 2 < 4294967296 := by
  have h64 : 2 ^ k ≤ 2 ^ 6 := Nat.pow_le_pow_right (by decide) hk
  calc (data.blockSize / 4) ^ 2 ≤ 16384 ^ 2 := Nat.pow_le_pow_left (by omega) 2
    _ < 4294967296 := by decide

/-- **The block of a file, for every inode and index**: the pointer that the rule finds is
    returned and the block buffer is not left, exactly when the rule knows the index or the
    inode has no triple indirect block. -/
theorem ext2_inode_block_exact [Allocator σ] {k : ℕ} (hk : k ≤ 6)
    (hb : data.blockSize = 1024 * 2 ^ k) (entry : ℕ → ℕ → ℕ) (ino : Ext2Inode) (index : ℕ) :
    (((∀ b ∈ mappedPointers entry (data.blockSize / 4) ino index, Delivers env data entry b) →
        Returns OutOfMemory (σ := σ) (ext2InodeBlock env data ino index)
          (· = mappedBlock entry (data.blockSize / 4) ino index)) ∧
      ∀ buffer, ∀ i ∈ ext2InodeReads env data buffer ino index, i < data.blockSize / 4) ↔
    index < 12 + data.blockSize / 4 + (data.blockSize / 4) ^ 2 + (data.blockSize / 4) ^ 3 ∨
      ino.iBlock 14 = 0 := by
  have hp := bufferPointers_pos data hb
  have hs := bufferPointers_square data hk hb
  constructor
  · rintro ⟨-, hreads⟩
    exact (inodeReads_lt hp hs rfl fun _ => 0).1 (hreads _)
  · intro hi
    exact ⟨returns_mappedBlock hp hs rfl hi, fun buffer => (inodeReads_lt hp hs rfl buffer).2 hi⟩

/-- A device that holds `bytes`, as a volume of `size` bytes. -/
def imageEnv (σ : Type) (bytes : Mem) (size : ℕ) : FsEnv σ Unit where
  volume :=
    { offset := 0, size := size
      driver :=
        { totalSize := fun _ => size
          read := fun _ offset n buffer => (n, Mem.copyFrom buffer 0 bytes offset n)
          write := fun _ _ n _ => (n, ()) } }
  device := ()
  stale _ _ := fun _ => 0xAA
  stack := fun _ => 0xAA

theorem imageEnv_exact {σ : Type} {bytes : Mem} {size : ℕ} (h : size < 4294967296) :
    (imageEnv σ bytes size).Exact bytes := by
  intro offset n buffer hn
  have hn : offset + n ≤ size := hn
  obtain ⟨k, hr, hk⟩ := volumeRequest_some (imageEnv σ bytes size).volume n
    (show offset ≤ size by omega)
  have hu : u32 (offset + n) = offset + n := u32_of_lt (by omega)
  have hk : k = n := hk.elim (fun h => absurd h.1 (by rw [hu]; exact Nat.not_lt.2 hn)) And.right
  rw [FsEnv.read, volumeRead, hr, hk]
  change (n, buffer.copyFrom 0 bytes (u32 (0 + offset)) n) = _
  rw [Nat.zero_add, u32_of_lt (by omega)]

/-- A volume of zeros with blocks of 1 KiB. -/
def zeroData : Ext2Fs := ⟨1024, 128, 8, 8, 2, 1⟩

/-- An inode with a single and a triple indirect block. -/
def indirectInode : Ext2Inode where
  iMode := 0x8000
  iUid := 0
  iGid := 0
  iSize := 0
  iBlock n := if n = 12 then 5 else if n = 14 then 7 else 0

theorem zeroData_delivers (block : ℕ) (h : block < 8) :
    Delivers (imageEnv KernelHeap (fun _ => 0) 8192) zeroData (fun _ _ => 0) block := by
  intro buffer i hi
  have hi : i < 256 := hi
  have hexact : (imageEnv KernelHeap (fun _ => 0) 8192).Exact fun _ => 0 := imageEnv_exact (by decide)
  have hx := hexact (block * 1024) 1024 buffer (show block * 1024 + 1024 ≤ 8192 by omega)
  change ((imageEnv KernelHeap _ _).read (u32 (block * 1024)) 1024 buffer).2.load32 _ = _
  rw [u32_of_lt (by omega), hx]
  have hz : ∀ j < 4, buffer.copyFrom 0 (fun _ => 0) (block * 1024) 1024 (4 * i + j) = 0 :=
    fun j hj => Mem.copyFrom_in (Nat.zero_le _) (by omega)
  have h0 : Mem.load32 (fun _ => 0) 0 = 0 := by decide
  exact (Mem.load32_shift (a := 0) (m := fun _ => 0) hz).trans h0

theorem ext2_inode_block_exact_zero :
    Returns OutOfMemory (σ := KernelHeap)
        (ext2InodeBlock (imageEnv _ (fun _ => 0) 8192) zeroData indirectInode 12) (· = 0) ∧
      ∀ buffer, ∀ i ∈ ext2InodeReads (imageEnv KernelHeap (fun _ => 0) 8192) zeroData buffer
        indirectInode 12, i < 256 := by
  obtain ⟨hret, hreads⟩ := (ext2_inode_block_exact (imageEnv KernelHeap (fun _ => 0) 8192) zeroData
    (k := 0) (by decide) (by decide) (fun _ _ => 0) indirectInode 12).2 (Or.inl (by decide))
  refine ⟨hret fun b hb => zeroData_delivers b ?_, hreads⟩
  obtain rfl : b = 5 := by simpa [mappedPointers, mappedTree, zeroData, indirectInode, BlockTree.inner] using hb
  decide

/-- **The first index the rule does not know** makes the driver read behind its buffer. -/
theorem ext2_inode_block_leaves_buffer : ¬ ∀ (env : FsEnv KernelHeap Unit) (data : Ext2Fs) (k : ℕ)
    (entry : ℕ → ℕ → ℕ) (ino : Ext2Inode) (index : ℕ), k ≤ 6 → data.blockSize = 1024 * 2 ^ k →
    index < 4294967296 →
    ((∀ b ∈ mappedPointers entry (data.blockSize / 4) ino index, Delivers env data entry b) →
        Returns OutOfMemory (ext2InodeBlock env data ino index)
          (· = mappedBlock entry (data.blockSize / 4) ino index)) ∧
      ∀ buffer, ∀ i ∈ ext2InodeReads env data buffer ino index, i < data.blockSize / 4 := by
  intro hall
  have h := (hall (imageEnv _ (fun _ => 0) 8192) zeroData 0 (fun _ _ => 0) indirectInode 16843020
    (by decide) (by decide) (by decide)).2 fun _ => 0
  have hp : 0 < zeroData.blockSize / 4 := by decide
  rcases (inodeReads_lt hp (by decide) rfl fun _ => 0).1 h with h | h
  · exact absurd h (by decide)
  · exact absurd h (by decide)

end Ttos
