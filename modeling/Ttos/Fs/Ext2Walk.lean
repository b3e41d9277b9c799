/-
  The walks over a directory of the ext2 driver, for any content of its blocks.

  * `ext2ReaddirReads`, `ext2FinddirReads`: `ext2_readdir` and `ext2_finddir` with the bytes
    of the block buffer that they examine;
  * `erase_readdirReads`, `erase_finddirReads`: they compute the same;
  * `directory_walk_exact`: both end, and exactly when they stay in the block buffer;
  * `directory_walk_leaves`: an entry at the end of a block of which they leave it.
-/
import Ttos.Fs.Ext2
import Ttos.Fs.Ext2Blocks
import Ttos.Fs.Ext2Directory
import Ttos.Lib.TracedState
import Ttos.Memory.KernelHeap
import Ttos.Util.Memcmp

namespace Ttos

open TracedState

variable {σ δ : Type} (env : FsEnv σ δ) (data : Ext2Fs)

/-! ## The bytes examined -/

/-- Bytes of the block buffer that are examined: where they start, and how many they are. -/
abbrev Examines := Traced (ℕ × ℕ) FsStop

/-- `entry->rec_len` -/
def entryRecLen (blockBuffer : Mem) (position : ℕ) : Examines ℕ := do
  Traced.tell (position + 4, 2)
  pure (Ext2DirEntry.ofBytes blockBuffer position).recLen

/-- `entry->inode` -/
def entryInode (blockBuffer : Mem) (position : ℕ) : Examines ℕ := do
  Traced.tell (position, 4)
  pure (Ext2DirEntry.ofBytes blockBuffer position).inode

/-- `entry->name_len` -/
def entryNameLen (blockBuffer : Mem) (position : ℕ) : Examines ℕ := do
  Traced.tell (position + 6, 1)
  pure (Ext2DirEntry.ofBytes blockBuffer position).nameLen

/-- How many bytes from `a` on `memcmp` examines: it compares two bytes before it looks at
    the count. -/
def memcmpLength : List UInt8 → Mem → ℕ → ℕ
  | [], _, _ => 1
  | c :: s, m, a => if c = m a then memcmpLength s m (a + 1) + 1 else 1

/-- `ext2ReaddirEntries` with the bytes it examines. -/
def ext2ReaddirEntriesReads (index : ℕ) (blockBuffer : Mem) :
    ℕ → ℕ → ℕ → Examines (Option ℕ × ℕ)
  | 0, _, _ => Traced.lift (.error .diverge)
  | fuel + 1, position, current =>
    if position < data.blockSize then do
      let recLen ← entryRecLen blockBuffer position
      if recLen = 0 then pure (none, current)
      else do
        let inode ← entryInode blockBuffer position
        let next := u32 (position + recLen)
        if inode ≠ 0 then
          if current = index then pure (some position, current)
          else ext2ReaddirEntriesReads index blockBuffer fuel next (u32 (current + 1))
        else ext2ReaddirEntriesReads index blockBuffer fuel next current
    else pure (none, current)

/-- The name of an entry is copied. -/
def entryName (blockBuffer : Mem) (position : ℕ) : Examines (List UInt8) := do
  let nameLen ← entryNameLen blockBuffer position
  Traced.tell (position + ext2DirEntrySize, nameLen)
  pure (blockBuffer.string (position + ext2DirEntrySize) nameLen)

/-- The condition of `ext2_finddir` behind `entry->inode != 0`. -/
def entryIsNamed (name : List UInt8) (blockBuffer : Mem) (position : ℕ) : Examines Bool := do
  let nameLen ← entryNameLen blockBuffer position
  if nameLen = name.length then do
    Traced.tell (position + ext2DirEntrySize,
      memcmpLength name blockBuffer (position + ext2DirEntrySize))
    pure (memcmp name blockBuffer (position + ext2DirEntrySize) = 0)
  else pure false

/-- `ext2FinddirEntries` with the bytes it examines. -/
def ext2FinddirEntriesReads (name : List UInt8) (blockBuffer : Mem) :
    ℕ → ℕ → Examines (Option ℕ)
  | 0, _ => Traced.lift (.error .diverge)
  | fuel + 1, position =>
    if position < data.blockSize then do
      let recLen ← entryRecLen blockBuffer position
      if recLen = 0 then pure none
      else do
        let inode ← entryInode blockBuffer position
        let found ← (if inode ≠ 0 then entryIsNamed name blockBuffer position else pure false)
        if found then pure (some inode)
        else ext2FinddirEntriesReads name blockBuffer fuel (u32 (position + recLen))
    else pure none

/-- A computation on the heap with the bytes of the block buffer it examines. -/
abbrev FsReads (σ : Type) := TracedState (ℕ × ℕ) σ FsStop

variable [Allocator σ]

/-- `ext2ReaddirBlocks` with the bytes it examines. -/
def ext2ReaddirBlocksReads (inode : Ext2Inode) (index : ℕ) :
    ℕ → ℕ → ℕ → Mem → FsReads σ (Option (ℕ × VfsDirent))
  | 0, _, _, _ => pure none
  | n + 1, b, current, blockBuffer => do
    let physicalBlock ← quiet (ext2InodeBlock env data inode b)
    if physicalBlock = 0 then ext2ReaddirBlocksReads inode index n (b + 1) current blockBuffer
    else
      let blockBuffer := ext2ReadBlock env data physicalBlock blockBuffer
      let r ← record (ext2ReaddirEntriesReads data index blockBuffer (data.blockSize + 1) 0 current)
      match r with
      | (none, current) => ext2ReaddirBlocksReads inode index n (b + 1) current blockBuffer
      | (some position, _) => do
        let ptr ← quiet (kmallocOrPanic vfsDirentSize)
        let name ← record (entryName blockBuffer position)
        let inode ← record (entryInode blockBuffer position)
        pure (some (ptr, { name := name, inode := inode }))

/-- `ext2Readdir` with the bytes it examines. -/
def ext2ReaddirReads (node : VfsNode Ext2Inode) (index : ℕ) :
    FsReads σ (Option (ℕ × VfsDirent)) := do
  match ← quiet (ext2ReadInode env data node.inode) with
  | none => pure none
  | some inode => do
    let (ptr, blockBuffer) ← quiet (env.kmallocBuffer data.blockSize)
    let totalBlocks ← quiet (ext2TotalBlocks data inode)
    let dirent ← ext2ReaddirBlocksReads env data inode index totalBlocks 0 0 blockBuffer
    quiet (kfree ptr)
    pure dirent

/-- `ext2FinddirBlocks` with the bytes it examines. -/
def ext2FinddirBlocksReads (inode : Ext2Inode) (name : List UInt8) :
    ℕ → ℕ → Mem → FsReads σ (Option ℕ)
  | 0, _, _ => pure none
  | n + 1, b, blockBuffer => do
    let physicalBlock ← quiet (ext2InodeBlock env data inode b)
    if physicalBlock = 0 then ext2FinddirBlocksReads inode name n (b + 1) blockBuffer
    else
      let blockBuffer := ext2ReadBlock env data physicalBlock blockBuffer
      match ← record (ext2FinddirEntriesReads data name blockBuffer (data.blockSize + 1) 0) with
      | none => ext2FinddirBlocksReads inode name n (b + 1) blockBuffer
      | some childInodeNo => pure (some childInodeNo)

/-- The part of `ext2_finddir` behind the walk. -/
def ext2FinddirChild (filesystem : ℕ) (name : List UInt8) :
    Option ℕ → FsM σ (Option (ℕ × VfsNode Ext2Inode))
  | none => pure none
  | some childInodeNo => do
    match ← ext2ReadInode env data childInodeNo with
    | none => pure none
    | some childInode => some <$> ext2BuildNode filesystem childInodeNo name childInode

/-- `ext2Finddir` with the bytes it examines. -/
def ext2FinddirReads (node : VfsNode Ext2Inode) (name : List UInt8) :
    FsReads σ (Option (ℕ × VfsNode Ext2Inode)) := do
  match ← quiet (ext2ReadInode env data node.inode) with
  | none => pure none
  | some inode => do
    let (ptr, blockBuffer) ← quiet (env.kmallocBuffer data.blockSize)
    let totalBlocks ← quiet (ext2TotalBlocks data inode)
    let found ← ext2FinddirBlocksReads env data inode name totalBlocks 0 blockBuffer
    quiet (kfree ptr)
    quiet (ext2FinddirChild env data node.filesystem name found)

/-! ## The entries of a directory -/

/-- An entry as a walk meets it: the content of the block buffer, and the position in it. -/
structure WalkedEntry where
  blockBuffer : Mem
  position : ℕ

namespace WalkedEntry

variable (e : WalkedEntry) (name : List UInt8) (blockSize : ℕ)

def header : Ext2DirEntry := .ofBytes e.blockBuffer e.position

/-- The entry is in use. -/
def Live : Prop := e.header.recLen ≠ 0 ∧ e.header.inode ≠ 0

/-- The entry has the name. -/
def Named : Prop :=
  e.Live ∧ e.header.nameLen = name.length ∧
    memcmp name e.blockBuffer (e.position + ext2DirEntrySize) = 0

/-- The entry's length and what stands before it are in the block. -/
def LengthFits : Prop := e.position + 6 ≤ blockSize

/-- The entry's name is in the block, and its length. -/
def NameFits : Prop :=
  e.position + 7 ≤ blockSize ∧
    (e.header.nameLen ≠ 0 → e.position + ext2DirEntrySize + e.header.nameLen ≤ blockSize)

/-- What is compared with the name is in the block, and the length of the entry's name. -/
def ComparedFits : Prop :=
  e.position + 7 ≤ blockSize ∧
    (e.header.nameLen = name.length → e.position + ext2DirEntrySize +
      memcmpLength name e.blockBuffer (e.position + ext2DirEntrySize) ≤ blockSize)

instance : Decidable e.Live := inferInstanceAs (Decidable (_ ∧ _))

instance : Decidable (e.Named name) := inferInstanceAs (Decidable (_ ∧ _ ∧ _))

instance : Decidable (e.LengthFits blockSize) := inferInstanceAs (Decidable (_ ≤ _))

instance : Decidable (e.NameFits blockSize) := inferInstanceAs (Decidable (_ ∧ (_ → _)))

instance : Decidable (e.ComparedFits name blockSize) := inferInstanceAs (Decidable (_ ∧ (_ → _)))

end WalkedEntry

/-- The entries of a block from a position on: up to one of length 0, or the end. -/
def blockEntries (blockSize : ℕ) (blockBuffer : Mem) : ℕ → ℕ → List WalkedEntry
  | 0, _ => []
  | fuel + 1, position =>
    let e : WalkedEntry := ⟨blockBuffer, position⟩
    if position < blockSize then
      e :: if e.header.recLen = 0 then []
        else blockEntries blockSize blockBuffer fuel (position + e.header.recLen)
    else []

/-- The entries of `n` blocks of a directory from `b` on, as long as the heap lasts. -/
def directoryEntriesFrom (inode : Ext2Inode) : ℕ → ℕ → Mem → σ → List WalkedEntry
  | 0, _, _, _ => []
  | n + 1, b, blockBuffer, heap =>
    match ext2InodeBlock env data inode b heap with
    | .error _ => []
    | .ok (physicalBlock, heap) =>
      if physicalBlock = 0 then directoryEntriesFrom inode n (b + 1) blockBuffer heap
      else
        let blockBuffer := ext2ReadBlock env data physicalBlock blockBuffer
        blockEntries data.blockSize blockBuffer (data.blockSize + 1) 0 ++
          directoryEntriesFrom inode n (b + 1) blockBuffer heap

/-- The entries of the directory, as long as the heap lasts. -/
def directoryEntries (node : VfsNode Ext2Inode) (heap : σ) : List WalkedEntry :=
  match ext2ReadInode env data node.inode heap with
  | .ok (some inode, heap) =>
    match env.kmallocBuffer data.blockSize heap with
    | .ok ((_, blockBuffer), heap) =>
      match ext2TotalBlocks data inode heap with
      | .ok (totalBlocks, heap) => directoryEntriesFrom env data inode totalBlocks 0 blockBuffer heap
      | .error _ => []
    | .error _ => []
  | _ => []

/-- Every entry up to the one that has the number `index` is in its block as far as
    `ext2_readdir` needs it; `current` entries in use came before. -/
def ReaddirFits (blockSize index : ℕ) : List WalkedEntry → ℕ → Prop
  | [], _ => True
  | e :: es, current =>
    e.LengthFits blockSize ∧
      if e.Live then
        if current = index then e.NameFits blockSize
        else ReaddirFits blockSize index es (current + 1)
      else ReaddirFits blockSize index es current

/-- Every entry up to the one that has the name is in its block as far as `ext2_finddir`
    needs it. -/
def FinddirFits (blockSize : ℕ) (name : List UInt8) : List WalkedEntry → Prop
  | [] => True
  | e :: es =>
    e.LengthFits blockSize ∧ (e.Live → e.ComparedFits name blockSize) ∧
      (¬ e.Named name → FinddirFits blockSize name es)

instance decidableReaddirFits (blockSize index : ℕ) :
    (es : List WalkedEntry) → (current : ℕ) → Decidable (ReaddirFits blockSize index es current)
  | [], _ => inferInstanceAs (Decidable True)
  | e :: es, current =>
    have := decidableReaddirFits blockSize index es (current + 1)
    have := decidableReaddirFits blockSize index es current
    inferInstanceAs (Decidable (_ ∧ ite e.Live (ite (current = index) _ _) _))

instance decidableFinddirFits (blockSize : ℕ) (name : List UInt8) :
    (es : List WalkedEntry) → Decidable (FinddirFits blockSize name es)
  | [] => inferInstanceAs (Decidable True)
  | _ :: es =>
    have := decidableFinddirFits blockSize name es
    inferInstanceAs (Decidable (_ ∧ (_ → _) ∧ (_ → _)))

/-- The bytes are in a buffer of `size` bytes. -/
def BytesInside (size : ℕ) (w : ℕ × ℕ) : Prop := ∀ x, w.1 ≤ x → x < w.1 + w.2 → x < size

theorem bytesInside_iff {size a n : ℕ} : BytesInside size (a, n) ↔ (n ≠ 0 → a + n ≤ size) := by
  constructor
  · intro h hn
    have := h (a + n - 1) (by omega) (show a + n - 1 < a + n by omega)
    omega
  · intro h x h1 h2
    have h1 : a ≤ x := h1
    have h2 : x < a + n := h2
    have := h (by omega)
    omega

/-! ## One block -/

section
variable {data} {index position current fuel : ℕ} {name : List UInt8} {m : Mem} {P : ℕ × ℕ → Prop}

@[simp] theorem all_entryRecLen : (entryRecLen m position).All P ↔ P (position + 4, 2) := by
  rw [entryRecLen, Traced.all_tell_bind, Traced.all_pure, and_true]

@[simp] theorem all_entryInode : (entryInode m position).All P ↔ P (position, 4) := by
  rw [entryInode, Traced.all_tell_bind, Traced.all_pure, and_true]

@[simp] theorem all_entryNameLen : (entryNameLen m position).All P ↔ P (position + 6, 1) := by
  rw [entryNameLen, Traced.all_tell_bind, Traced.all_pure, and_true]

/-- What `ext2_readdir` examines of the entry it returns, beside its inode. -/
theorem all_entryName {blockSize : ℕ} :
    (entryName m position).All (BytesInside blockSize) ↔
      WalkedEntry.NameFits ⟨m, position⟩ blockSize := by
  rw [entryName, Traced.all_bind_of rfl, all_entryNameLen, Traced.all_tell_bind, Traced.all_pure,
    and_true, bytesInside_iff, bytesInside_iff]
  exact and_congr_left fun _ => imp_iff_right (by decide)

theorem memcmpLength_pos (a : ℕ) : memcmpLength name m a ≠ 0 := by
  cases name with
  | nil => exact Nat.one_ne_zero
  | cons c s =>
    rw [memcmpLength]
    split <;> omega

/-- That is what `memcmp` reads, where the name and the block buffer are in one memory. -/
theorem memcmpAt_touches {byte1 byte2 : ℕ} (h : m.HasBytes byte1 name) :
    (memcmpAt m name.length byte1 byte2).Touches
      (bytesUpTo byte1 byte2 (memcmpLength name m byte2 - 1)) (memcmp name m byte2) := by
  induction name generalizing byte1 byte2 with
  | nil => exact memcmpAt_agree fun i hi => absurd hi (Nat.not_lt_zero i)
  | cons c s ih =>
    obtain ⟨ha, hs⟩ := Mem.hasBytes_cons.1 h
    rw [List.length_cons, memcmpLength, memcmp]
    by_cases hc : c = m byte2
    · have hpos : memcmpLength s m (byte2 + 1) ≠ 0 := memcmpLength_pos (byte2 + 1)
      obtain ⟨k, hk⟩ := Nat.exists_eq_add_one_of_ne_zero hpos
      have hrest := @ih (byte1 + 1) (byte2 + 1) hs
      rw [hk, Nat.add_sub_cancel] at hrest
      rw [if_pos hc, if_pos hc, hk, Nat.add_sub_cancel, memcmpAt]
      refine (memcmpBytes_touches.bind ?_).mono bytesUpTo_succ
      dsimp only
      rw [if_pos (ha.trans hc)]
      exact hrest
    · have hne : m (byte1 + 0) ≠ m (byte2 + 0) := fun heq => hc (ha.symm.trans heq)
      have hdiffer := memcmpAt_differ (Nat.succ_pos s.length)
        (fun i hi => absurd hi (Nat.not_lt_zero i)) hne
      rw [if_neg hc, if_neg hc]
      rw [Nat.add_zero, ha] at hdiffer
      exact hdiffer

/-- What `ext2_finddir` examines of an entry in use behind its inode. -/
theorem all_entryIsNamed {blockSize : ℕ} :
    (entryIsNamed name m position).All (BytesInside blockSize) ↔
      WalkedEntry.ComparedFits ⟨m, position⟩ name blockSize := by
  have hone : BytesInside blockSize (position + 6, 1) ↔ position + 7 ≤ blockSize := by
    rw [bytesInside_iff]
    exact imp_iff_right (by decide)
  rw [entryIsNamed, Traced.all_bind_of rfl, all_entryNameLen, hone]
  refine and_congr_right fun _ => ?_
  by_cases hn : (Ext2DirEntry.ofBytes m position).nameLen = name.length
  · rw [if_pos hn, Traced.all_tell_bind, Traced.all_pure, and_true, bytesInside_iff,
      imp_iff_right (memcmpLength_pos _)]
    exact (imp_iff_right hn).symm
  · rw [if_neg hn]
    exact iff_of_true ((Traced.all_pure _).2 trivial) fun h => absurd h hn

theorem result_entryIsNamed : (entryIsNamed name m position).result =
    .ok (decide ((Ext2DirEntry.ofBytes m position).nameLen = name.length ∧
      memcmp name m (position + ext2DirEntrySize) = 0)) := by
  rw [entryIsNamed, Traced.result_bind rfl]
  by_cases hn : (Ext2DirEntry.ofBytes m position).nameLen = name.length
  · rw [if_pos hn, Traced.result_bind rfl]
    simp only [hn, true_and]
    rfl
  · rw [if_neg hn]
    simp only [hn, false_and]
    rfl

/-- The trace changes nothing. -/
theorem readdirEntries_traced {σ : Type} (heap : σ) :
    ext2ReaddirEntries data index m fuel position current heap =
      (ext2ReaddirEntriesReads data index m fuel position current).result.map (·, heap) := by
  induction fuel generalizing position current with
  | zero => rfl
  | succ fuel ih =>
    rw [ext2ReaddirEntries, ext2ReaddirEntriesReads]
    dsimp only
    by_cases hp : position < data.blockSize
    · rw [if_pos hp, if_pos hp, Traced.result_bind rfl]
      split
      · rfl
      · rw [Traced.result_bind rfl]
        split
        · split
          · rfl
          · exact ih
        · exact ih
    · rw [if_neg hp, if_neg hp]
      rfl

theorem finddirEntries_traced {σ : Type} (heap : σ) :
    ext2FinddirEntries data name m fuel position heap =
      (ext2FinddirEntriesReads data name m fuel position).result.map (·, heap) := by
  induction fuel generalizing position with
  | zero => rfl
  | succ fuel ih =>
    rw [ext2FinddirEntries, ext2FinddirEntriesReads]
    dsimp only
    by_cases hp : position < data.blockSize
    · rw [if_pos hp, if_pos hp, Traced.result_bind rfl]
      split
      · rfl
      · rw [Traced.result_bind rfl]
        by_cases hi : (Ext2DirEntry.ofBytes m position).inode ≠ 0
        · rw [if_pos hi, Traced.result_bind result_entryIsNamed]
          simp only [hi, true_and, decide_eq_true_eq, not_false_eq_true, ne_eq]
          split
          · rfl
          · exact ih
        · rw [if_neg hi, Traced.result_bind rfl, if_neg fun h => hi h.1]
          exact ih
    · rw [if_neg hp, if_neg hp]
      rfl

theorem erase_readdirEntries {σ : Type} :
    erase (record (ext2ReaddirEntriesReads data index m fuel position current)) =
      (ext2ReaddirEntries data index m fuel position current : FsM σ (Option ℕ × ℕ)) := by
  funext heap
  rw [readdirEntries_traced]
  exact erase_record_run _ heap

theorem erase_finddirEntries {σ : Type} :
    erase (record (ext2FinddirEntriesReads data name m fuel position)) =
      (ext2FinddirEntries data name m fuel position : FsM σ (Option ℕ)) := by
  funext heap
  rw [finddirEntries_traced]
  exact erase_record_run _ heap

/-- **The walk of `ext2_readdir` over a block** ends, and what it examines is in the block
    when the entries fit; `rest` are the entries of the blocks behind. -/
theorem readdirEntries_fits (index : ℕ) (m : Mem) (fuel position current : ℕ)
    (hb : data.blockSize ≤ 65536) (rest : List WalkedEntry)
    (hp : position ≤ data.blockSize + 65535) (hf : data.blockSize - position < fuel)
    (hc : current + (data.blockSize - position) < 4294967296) :
    ∃ r, (ext2ReaddirEntriesReads data index m fuel position current).result = .ok r ∧
      r.2 ≤ current + (data.blockSize - position) ∧
      (ReaddirFits data.blockSize index (blockEntries data.blockSize m fuel position ++ rest)
          current ↔
        (ext2ReaddirEntriesReads data index m fuel position current).All
            (BytesInside data.blockSize) ∧
          match r.1 with
          | none => ReaddirFits data.blockSize index rest r.2
          | some q => WalkedEntry.NameFits ⟨m, q⟩ data.blockSize) := by
  induction fuel generalizing position current with
  | zero => omega
  | succ fuel ih =>
    rw [ext2ReaddirEntriesReads, blockEntries]
    dsimp only
    by_cases hlt : position < data.blockSize
    · rw [if_pos hlt, if_pos hlt, Traced.result_bind rfl, Traced.all_bind_of rfl, all_entryRecLen,
        bytesInside_iff, imp_iff_right (by decide), List.cons_append, ReaddirFits]
      have hlen : WalkedEntry.LengthFits ⟨m, position⟩ data.blockSize ↔
        position + 4 + 2 ≤ data.blockSize := Iff.rfl
      have hrec : (Ext2DirEntry.ofBytes m position).recLen < 65536 := Mem.load16_lt _ _
      by_cases h0 : (Ext2DirEntry.ofBytes m position).recLen = 0
      · have hlive : ¬ WalkedEntry.Live ⟨m, position⟩ := fun h => h.1 h0
        have hrec0 : (WalkedEntry.header ⟨m, position⟩).recLen = 0 := h0
        rw [if_pos h0, if_pos hrec0, if_neg hlive, hlen, Traced.all_pure, and_true]
        exact ⟨_, rfl, Nat.le_add_right _ _, Iff.rfl⟩
      · have hrec0 : ¬ (WalkedEntry.header ⟨m, position⟩).recLen = 0 := h0
        have hnext : u32 (position + (Ext2DirEntry.ofBytes m position).recLen) =
            position + (Ext2DirEntry.ofBytes m position).recLen := u32_of_lt (by omega)
        have hinode : position + 4 + 2 ≤ data.blockSize → BytesInside data.blockSize (position, 4) :=
          fun h => bytesInside_iff.2 fun _ => by omega
        rw [if_neg h0, if_neg hrec0, Traced.result_bind rfl, Traced.all_bind_of rfl,
          all_entryInode, hnext, hlen]
        by_cases hi : (Ext2DirEntry.ofBytes m position).inode = 0
        · have hlive : ¬ WalkedEntry.Live ⟨m, position⟩ := fun h => h.2 hi
          obtain ⟨r, hr, hle, hfits⟩ := ih
            (position + (Ext2DirEntry.ofBytes m position).recLen) current (by omega) (by omega)
            (by omega)
          rw [if_neg (not_not.2 hi), if_neg hlive]
          refine ⟨r, hr, by omega, ?_⟩
          rw [and_assoc, and_assoc]
          refine and_congr_right fun h => ?_
          rw [and_iff_right (hinode h)]
          exact hfits
        · have hlive : WalkedEntry.Live ⟨m, position⟩ := ⟨h0, hi⟩
          rw [if_pos hi, if_pos hlive]
          by_cases hcur : current = index
          · rw [if_pos hcur, if_pos hcur, Traced.all_pure, and_true]
            refine ⟨_, rfl, Nat.le_add_right _ _, ?_⟩
            rw [and_assoc]
            refine and_congr_right fun h => ?_
            rw [and_iff_right (hinode h)]
          · obtain ⟨r, hr, hle, hfits⟩ := ih
              (position + (Ext2DirEntry.ofBytes m position).recLen) (current + 1) (by omega)
              (by omega) (by omega)
            have hcount : u32 (current + 1) = current + 1 := u32_of_lt (by omega)
            rw [if_neg hcur, if_neg hcur, hcount]
            refine ⟨r, hr, by omega, ?_⟩
            rw [and_assoc, and_assoc]
            refine and_congr_right fun h => ?_
            rw [and_iff_right (hinode h)]
            exact hfits
    · rw [if_neg hlt, if_neg hlt, Traced.all_pure]
      exact ⟨_, rfl, Nat.le_add_right _ _, (and_iff_right trivial).symm⟩

/-- **The walk of `ext2_finddir` over a block.** -/
theorem finddirEntries_fits (name : List UInt8) (m : Mem) (fuel position : ℕ)
    (hb : data.blockSize ≤ 65536) (rest : List WalkedEntry)
    (hp : position ≤ data.blockSize + 65535) (hf : data.blockSize - position < fuel) :
    ∃ r, (ext2FinddirEntriesReads data name m fuel position).result = .ok r ∧
      (FinddirFits data.blockSize name (blockEntries data.blockSize m fuel position ++ rest) ↔
        (ext2FinddirEntriesReads data name m fuel position).All (BytesInside data.blockSize) ∧
          (r = none → FinddirFits data.blockSize name rest)) := by
  induction fuel generalizing position with
  | zero => omega
  | succ fuel ih =>
    rw [ext2FinddirEntriesReads, blockEntries]
    by_cases hlt : position < data.blockSize
    · rw [if_pos hlt, if_pos hlt, Traced.result_bind rfl, Traced.all_bind_of rfl, all_entryRecLen,
        bytesInside_iff, imp_iff_right (by decide), List.cons_append, FinddirFits]
      have hlen : WalkedEntry.LengthFits ⟨m, position⟩ data.blockSize ↔
        position + 4 + 2 ≤ data.blockSize := Iff.rfl
      have hrec : (Ext2DirEntry.ofBytes m position).recLen < 65536 := Mem.load16_lt _ _
      by_cases h0 : (Ext2DirEntry.ofBytes m position).recLen = 0
      · have hlive : ¬ WalkedEntry.Live ⟨m, position⟩ := fun h => h.1 h0
        have hnamed : ¬ WalkedEntry.Named ⟨m, position⟩ name := fun h => hlive h.1
        have hrec0 : (WalkedEntry.header ⟨m, position⟩).recLen = 0 := h0
        rw [if_pos h0, if_pos hrec0, hlen, Traced.all_pure, and_true]
        refine ⟨_, rfl, and_congr_right fun _ => ?_⟩
        rw [and_iff_right fun h => absurd h hlive]
        exact ⟨fun h _ => h hnamed, fun h _ => h rfl⟩
      · have hrec0 : ¬ (WalkedEntry.header ⟨m, position⟩).recLen = 0 := h0
        have hnext : u32 (position + (Ext2DirEntry.ofBytes m position).recLen) =
            position + (Ext2DirEntry.ofBytes m position).recLen := u32_of_lt (by omega)
        have hinode : position + 4 + 2 ≤ data.blockSize → BytesInside data.blockSize (position, 4) :=
          fun h => bytesInside_iff.2 fun _ => by omega
        obtain ⟨r, hr, hfits⟩ := ih
          (position + (Ext2DirEntry.ofBytes m position).recLen) (by omega) (by omega)
        rw [if_neg h0, if_neg hrec0, Traced.result_bind rfl, Traced.all_bind_of rfl,
          all_entryInode, hnext, hlen]
        by_cases hi : (Ext2DirEntry.ofBytes m position).inode = 0
        · have hlive : ¬ WalkedEntry.Live ⟨m, position⟩ := fun h => h.2 hi
          have hnamed : ¬ WalkedEntry.Named ⟨m, position⟩ name := fun h => hlive h.1
          rw [if_neg (not_not.2 hi), Traced.result_bind rfl, Traced.all_bind_of rfl,
            Traced.all_pure, true_and]
          refine ⟨r, hr, ?_⟩
          rw [and_assoc, and_assoc]
          refine and_congr_right fun h => ?_
          rw [and_iff_right (hinode h), and_iff_right fun h => absurd h hlive, imp_iff_right hnamed]
          exact hfits
        · have hlive : WalkedEntry.Live ⟨m, position⟩ := ⟨h0, hi⟩
          rw [if_pos hi, Traced.result_bind result_entryIsNamed,
            Traced.all_bind_of result_entryIsNamed, all_entryIsNamed]
          by_cases hm : (Ext2DirEntry.ofBytes m position).nameLen = name.length ∧
              memcmp name m (position + ext2DirEntrySize) = 0
          · have hnamed : WalkedEntry.Named ⟨m, position⟩ name := ⟨hlive, hm⟩
            rw [decide_eq_true hm, if_pos rfl, Traced.all_pure, and_true]
            refine ⟨_, rfl, ?_⟩
            rw [and_assoc, and_assoc]
            refine and_congr_right fun h => ?_
            rw [and_iff_right (hinode h), imp_iff_right hlive]
            refine and_congr_right fun _ => ?_
            exact iff_of_true (fun h => absurd hnamed h) nofun
          · have hnamed : ¬ WalkedEntry.Named ⟨m, position⟩ name := fun h => hm h.2
            rw [decide_eq_false hm, if_neg Bool.false_ne_true]
            refine ⟨r, hr, ?_⟩
            rw [and_assoc, and_assoc, and_assoc]
            refine and_congr_right fun h => ?_
            rw [and_iff_right (hinode h), imp_iff_right hlive, imp_iff_right hnamed]
            exact and_congr_right fun _ => hfits
    · rw [if_neg hlt, if_neg hlt, Traced.all_pure]
      refine ⟨_, rfl, ?_⟩
      rw [true_and]
      exact ⟨fun h _ => h, fun h => h rfl⟩

end

/-! ## The whole directory -/

section
variable {env data} {index : ℕ} {name : List UInt8} {inode : Ext2Inode} {node : VfsNode Ext2Inode}

theorem erase_readdirBlocks (n b current : ℕ) (m : Mem) :
    erase (ext2ReaddirBlocksReads env data inode index n b current m) =
      (ext2ReaddirBlocks env data inode index n b current m : FsM σ (Option (ℕ × VfsDirent))) := by
  induction n generalizing b current m with
  | zero => rfl
  | succ n ih =>
    rw [ext2ReaddirBlocksReads, ext2ReaddirBlocks, erase_bind, erase_quiet]
    congr 1
    funext physicalBlock
    rw [erase_ite]
    split
    · exact ih _ _ _
    · dsimp only
      rw [erase_bind, erase_readdirEntries]
      congr 1
      funext r
      obtain ⟨found, current⟩ := r
      cases found with
      | none => exact ih _ _ _
      | some position =>
        simp only [erase_bind, erase_quiet]
        congr 1

theorem erase_finddirBlocks (n b : ℕ) (m : Mem) :
    erase (ext2FinddirBlocksReads env data inode name n b m) =
      (ext2FinddirBlocks env data inode name n b m : FsM σ (Option ℕ)) := by
  induction n generalizing b m with
  | zero => rfl
  | succ n ih =>
    rw [ext2FinddirBlocksReads, ext2FinddirBlocks, erase_bind, erase_quiet]
    congr 1
    funext physicalBlock
    rw [erase_ite]
    split
    · exact ih _ _
    · dsimp only
      rw [erase_bind, erase_finddirEntries]
      congr 1
      funext found
      cases found with
      | none => exact ih _ _
      | some childInodeNo => rfl

/-- The trace of `ext2_readdir` changes nothing. -/
theorem erase_readdirReads :
    erase (ext2ReaddirReads env data node index) =
      (ext2Readdir env data node index : FsM σ (Option (ℕ × VfsDirent))) := by
  rw [ext2ReaddirReads, ext2Readdir, erase_bind, erase_quiet]
  congr 1
  funext inode
  cases inode with
  | none => rfl
  | some inode =>
    simp only [erase_bind, erase_quiet, erase_readdirBlocks, erase_pure]

/-- The trace of `ext2_finddir` changes nothing. -/
theorem erase_finddirReads :
    erase (ext2FinddirReads env data node name) =
      (ext2Finddir env data node name : FsM σ (Option (ℕ × VfsNode Ext2Inode))) := by
  rw [ext2FinddirReads, ext2Finddir, erase_bind, erase_quiet]
  congr 1
  funext inode
  cases inode with
  | none => rfl
  | some inode =>
    simp only [erase_bind, erase_quiet, erase_finddirBlocks]
    rfl

/-! ## The walks end -/

/-- What stops the driver on a volume with a valid block size. -/
def WalkStop (data : Ext2Fs) (e : FsStop) : Prop :=
  e = .kheapOutOfMemory ∨ e = .divideError ∧ data.inodesPerGroup = 0

section
variable {allowed : FsStop → Prop} (hbs : 0 < data.blockSize / 4)

include hbs

omit [Allocator σ] in
theorem returns_totalBlocksAny : Returns allowed (ext2TotalBlocks data inode : FsM σ ℕ)
    fun n => n * data.blockSize < 4294967296 := by
  have h0 : data.blockSize ≠ 0 := fun h => by simp [h] at hbs
  rw [ext2TotalBlocks, divOrFault, if_neg h0]
  refine Returns.pure ?_
  refine Nat.lt_of_le_of_lt (Nat.div_mul_le_self _ _) ?_
  unfold sub32
  exact Nat.mod_lt _ (by decide)

theorem returns_readInodeAny (n : ℕ) :
    Returns (WalkStop data) (ext2ReadInode env data n : FsM σ _) fun _ => True := by
  have h0 : data.blockSize ≠ 0 := fun h => by simp [h] at hbs
  have hkh : WalkStop data .kheapOutOfMemory := .inl rfl
  rw [ext2ReadInode]
  split
  · exact Returns.pure trivial
  · by_cases hg : data.inodesPerGroup = 0
    · rw [divOrFault, if_pos hg]
      exact fun heap => Meets.of_error rfl (.inr ⟨rfl, hg⟩)
    · refine returns_div_bind hg ?_
      have hbgd : Returns (WalkStop data)
          (ext2ReadBgd env data ((n - 1) / data.inodesPerGroup) : FsM σ _) fun _ => True := by
        rw [ext2ReadBgd]
        split
        · exact Returns.pure trivial
        · exact returns_div_bind h0 (returns_kmallocBuffer_bind hkh fun buffer =>
            returns_kfree_bind (Returns.pure trivial))
      refine hbgd.bind fun bgd _ => ?_
      cases bgd with
      | none => exact Returns.pure trivial
      | some bgd =>
        exact returns_div_bind h0 (returns_kmallocBuffer_bind hkh fun buffer =>
          returns_kfree_bind (Returns.pure trivial))

variable (hsq : (data.blockSize / 4) ^ 2 < 4294967296)

include hsq

theorem returns_inodeBlockAny (hkh : allowed .kheapOutOfMemory) (n : ℕ) :
    Returns allowed (ext2InodeBlock env data inode n : FsM σ ℕ) fun _ => True := by
  rw [ext2InodeBlock]
  split
  · exact Returns.pure trivial
  · refine returns_kmallocBuffer_bind hkh fun buffer => ?_
    have hsquare : u32 (data.blockSize / 4 * (data.blockSize / 4)) ≠ 0 := by
      rw [← pow_two, u32_of_lt hsq]
      exact (Nat.pow_pos hbs).ne'
    have hblock : Returns allowed
        (ext2IndirectBlock env data buffer.2 inode (n - 12) : FsM σ ℕ) fun _ => True := by
      unfold ext2IndirectBlock
      dsimp only
      split_ifs
      · exact Returns.pure trivial
      · exact Returns.pure trivial
      · unfold ext2TripleIndirect
        dsimp only
        split_ifs
        · refine returns_div_bind hsquare ?_
          split_ifs <;> exact Returns.pure trivial
        · exact Returns.pure trivial
    exact hblock.bind fun result _ => returns_kfree_bind (Returns.pure trivial)

variable (hb : data.blockSize ≤ 65536)

include hb

theorem returns_readdirWalk (hkh : allowed .kheapOutOfMemory) (n b current : ℕ) (m : Mem)
    (hc : current + n * data.blockSize < 4294967296) :
    Returns allowed (ext2ReaddirBlocks env data inode index n b current m : FsM σ _)
      fun _ => True := by
  induction n generalizing b current m with
  | zero => exact Returns.pure trivial
  | succ n ih =>
    rw [Nat.succ_mul] at hc
    rw [ext2ReaddirBlocks]
    refine (returns_inodeBlockAny hbs hsq hkh b).bind fun physicalBlock _ => ?_
    split
    · exact ih _ _ _ (by omega)
    · obtain ⟨⟨found, count⟩, hr, hle, -⟩ := readdirEntries_fits index
        (ext2ReadBlock env data physicalBlock m) (data.blockSize + 1) 0 current hb [] (by omega)
        (by omega) (by omega)
      have hle : count ≤ current + (data.blockSize - 0) := hle
      dsimp only
      rw [← erase_readdirEntries, erase_record hr, pure_bind]
      cases found with
      | none => exact ih _ _ _ (by omega)
      | some position => exact returns_kmalloc_bind hkh fun ptr _ => Returns.pure trivial

theorem returns_finddirWalk (hkh : allowed .kheapOutOfMemory) (n b : ℕ) (m : Mem) :
    Returns allowed (ext2FinddirBlocks env data inode name n b m : FsM σ _) fun _ => True := by
  induction n generalizing b m with
  | zero => exact Returns.pure trivial
  | succ n ih =>
    rw [ext2FinddirBlocks]
    refine (returns_inodeBlockAny hbs hsq hkh b).bind fun physicalBlock _ => ?_
    split
    · exact ih _ _
    · obtain ⟨found, hr, -⟩ := finddirEntries_fits name (ext2ReadBlock env data physicalBlock m)
        (data.blockSize + 1) 0 hb [] (by omega) (by omega)
      dsimp only
      rw [← erase_finddirEntries, erase_record hr, pure_bind]
      cases found with
      | none => exact ih _ _
      | some childInodeNo => exact Returns.pure trivial

/-- `ext2_readdir` ends on every directory. -/
theorem returns_readdirAny :
    Returns (WalkStop data) (ext2Readdir env data node index : FsM σ _) fun _ => True := by
  have hkh : WalkStop data .kheapOutOfMemory := .inl rfl
  rw [ext2Readdir]
  refine (returns_readInodeAny hbs _).bind fun inode _ => ?_
  cases inode with
  | none => exact Returns.pure trivial
  | some inode =>
    refine returns_kmallocBuffer_bind hkh fun buffer => ?_
    refine (returns_totalBlocksAny hbs).bind fun totalBlocks hn => ?_
    refine (returns_readdirWalk hbs hsq hb hkh _ _ _ _ (by omega)).bind fun dirent _ => ?_
    exact returns_kfree_bind (Returns.pure trivial)

/-- `ext2_finddir` ends on every directory. -/
theorem returns_finddirAny :
    Returns (WalkStop data) (ext2Finddir env data node name : FsM σ _) fun _ => True := by
  have hkh : WalkStop data .kheapOutOfMemory := .inl rfl
  rw [ext2Finddir]
  refine (returns_readInodeAny hbs _).bind fun inode _ => ?_
  cases inode with
  | none => exact Returns.pure trivial
  | some inode =>
    refine returns_kmallocBuffer_bind hkh fun buffer => ?_
    refine (returns_totalBlocksAny hbs).bind fun totalBlocks _ => ?_
    refine (returns_finddirWalk hbs hsq hb hkh _ _ _).bind fun found _ => ?_
    refine returns_kfree_bind ?_
    cases found with
    | none => exact Returns.pure trivial
    | some childInodeNo =>
      refine (returns_readInodeAny hbs _).bind fun childInode _ => ?_
      cases childInode with
      | none => exact Returns.pure trivial
      | some childInode =>
        have hbuild : Returns (WalkStop data)
            (ext2BuildNode node.filesystem childInodeNo name childInode : FsM σ _) fun _ => True :=
          returns_kmalloc_bind hkh fun ptr _ => Returns.pure trivial
        dsimp only
        rw [map_eq_pure_bind]
        exact hbuild.bind fun _ _ => Returns.pure trivial

/-! ## Where the walks read -/

omit hbs hsq in
theorem readdirBlocks_fits (inode : Ext2Inode) (index n b current : ℕ) (m : Mem) (heap : σ)
    (hc : current + n * data.blockSize < 4294967296) :
    let walk : FsReads σ _ := ext2ReaddirBlocksReads env data inode index n b current m
    let fits := ReaddirFits data.blockSize index (directoryEntriesFrom env data inode n b m heap)
      current
    (fits → (walk heap).All (BytesInside data.blockSize)) ∧
      ∀ r, erase walk heap = .ok r → (walk heap).All (BytesInside data.blockSize) → fits := by
  induction n generalizing b current m heap with
  | zero => exact ⟨fun _ => (all_run_pure _ _).2 trivial, fun _ _ _ => trivial⟩
  | succ n ih =>
    rw [Nat.succ_mul] at hc
    dsimp only at ih ⊢
    rw [ext2ReaddirBlocksReads, directoryEntriesFrom]
    cases hx : ext2InodeBlock env data inode b heap with
    | error e =>
      rw [run_quiet_bind_error hx]
      exact ⟨fun _ w hw => absurd hw List.not_mem_nil, fun _ _ _ => trivial⟩
    | ok x =>
      obtain ⟨physicalBlock, heap'⟩ := x
      simp only [erase_run, run_quiet_bind hx]
      by_cases hp : physicalBlock = 0
      · simp only [if_pos hp]
        exact ih _ _ _ _ (by omega)
      · simp only [if_neg hp]
        obtain ⟨⟨found, count⟩, hr, hle, hiff⟩ := readdirEntries_fits index
          (ext2ReadBlock env data physicalBlock m) (data.blockSize + 1) 0 current hb
          (directoryEntriesFrom env data inode n (b + 1) (ext2ReadBlock env data physicalBlock m)
            heap') (by omega) (by omega) (by omega)
        have hle : count ≤ current + (data.blockSize - 0) := hle
        rw [hiff, all_record_bind hr, ← erase_run, erase_record_bind hr]
        cases found with
        | none =>
          obtain ⟨h1, h2⟩ := ih (b + 1) count (ext2ReadBlock env data physicalBlock m) heap'
            (by omega)
          exact ⟨fun h => ⟨h.1, h1 h.2⟩, fun r hrun h => ⟨h.1, h2 r hrun h.2⟩⟩
        | some position =>
          have hinode : WalkedEntry.NameFits ⟨ext2ReadBlock env data physicalBlock m, position⟩
              data.blockSize → BytesInside data.blockSize (position, 4) := by
            intro h
            have h7 : position + 7 ≤ data.blockSize := h.1
            exact bytesInside_iff.2 fun _ => by omega
          dsimp only
          cases hk : (kmallocOrPanic vfsDirentSize : FsM σ ℕ) heap' with
          | error e =>
            rw [erase_run, run_quiet_bind_error hk]
            exact ⟨fun h => ⟨h.1, fun w hw => absurd hw List.not_mem_nil⟩, fun _ h => nomatch h⟩
          | ok y =>
            rw [run_quiet_bind hk, all_record_bind (a := _) rfl, all_record_bind (a := _) rfl,
              all_run_pure, and_true, all_entryName, all_entryInode]
            exact ⟨fun h => ⟨h.1, h.2, hinode h.2⟩, fun _ _ h => ⟨h.1, h.2.1⟩⟩

omit hbs hsq in
theorem finddirBlocks_fits (n b : ℕ) (m : Mem) (heap : σ) :
    FinddirFits data.blockSize name (directoryEntriesFrom env data inode n b m heap) ↔
      ((ext2FinddirBlocksReads env data inode name n b m : FsReads σ _) heap).All
        (BytesInside data.blockSize) := by
  induction n generalizing b m heap with
  | zero => exact iff_of_true trivial ((all_run_pure _ _).2 trivial)
  | succ n ih =>
    rw [ext2FinddirBlocksReads, directoryEntriesFrom]
    cases hx : ext2InodeBlock env data inode b heap with
    | error e =>
      rw [run_quiet_bind_error hx]
      exact iff_of_true trivial fun w hw => absurd hw List.not_mem_nil
    | ok x =>
      obtain ⟨physicalBlock, heap'⟩ := x
      rw [run_quiet_bind hx]
      dsimp only
      by_cases hp : physicalBlock = 0
      · rw [if_pos hp, if_pos hp]
        exact ih _ _ _
      · rw [if_neg hp, if_neg hp]
        obtain ⟨found, hr, hiff⟩ := finddirEntries_fits name (ext2ReadBlock env data physicalBlock m)
          (data.blockSize + 1) 0 hb
          (directoryEntriesFrom env data inode n (b + 1) (ext2ReadBlock env data physicalBlock m)
            heap') (by omega) (by omega)
        rw [hiff, all_record_bind hr]
        refine and_congr_right fun _ => ?_
        cases found with
        | none => exact (imp_iff_right rfl).trans (ih _ _ _)
        | some childInodeNo => exact iff_of_true nofun ((all_run_pure _ _).2 trivial)

omit hsq in
/-- `ext2_readdir` reads inside the block buffer when the entries fit; one that returns does
    so only then. -/
theorem readdir_fits (node : VfsNode Ext2Inode) (index : ℕ) (heap : σ) :
    (ReaddirFits data.blockSize index (directoryEntries env data node heap) 0 →
      ((ext2ReaddirReads env data node index : FsReads σ _) heap).All (BytesInside data.blockSize)) ∧
    ∀ r, ext2Readdir env data node index heap = .ok r →
      ((ext2ReaddirReads env data node index : FsReads σ _) heap).All (BytesInside data.blockSize) →
        ReaddirFits data.blockSize index (directoryEntries env data node heap) 0 := by
  rw [← erase_readdirReads, ext2ReaddirReads, directoryEntries]
  cases hi : ext2ReadInode env data node.inode heap with
  | error e =>
    rw [run_quiet_bind_error hi]
    exact ⟨fun _ w hw => absurd hw List.not_mem_nil, fun _ _ _ => trivial⟩
  | ok x =>
    obtain ⟨inode, heap⟩ := x
    rw [erase_run, run_quiet_bind hi]
    cases inode with
    | none => exact ⟨fun _ => (all_run_pure _ _).2 trivial, fun _ _ _ => trivial⟩
    | some inode =>
      dsimp only
      cases hk : env.kmallocBuffer data.blockSize heap with
      | error e =>
        rw [run_quiet_bind_error hk]
        exact ⟨fun _ w hw => absurd hw List.not_mem_nil, fun _ _ _ => trivial⟩
      | ok y =>
        obtain ⟨⟨ptr, m⟩, heap⟩ := y
        rw [run_quiet_bind hk]
        dsimp only
        rcases ((returns_totalBlocksAny hbs : Returns OutOfMemory (ext2TotalBlocks data inode) _)
          heap).cases with ⟨e, hn, -⟩ | ⟨n, heap', hn, hlt⟩
        · rw [run_quiet_bind_error hn, hn]
          exact ⟨fun _ w hw => absurd hw List.not_mem_nil, fun _ _ _ => trivial⟩
        · rw [run_quiet_bind hn, hn]
          obtain ⟨h1, h2⟩ := readdirBlocks_fits hb inode index n 0 0 m heap' (by omega)
          rw [← erase_run, erase_bind, all_run_bind]
          refine ⟨fun h => ⟨h1 h, fun _ _ _ => ?_⟩, fun r hr h => ?_⟩
          · rw [run_quiet_bind rfl]
            exact (all_run_pure _ _).2 trivial
          · obtain ⟨a, heap'', ha, -⟩ := exists_of_bind_run hr
            exact h2 (a, heap'') ha h.1

omit hsq in
/-- `ext2_finddir` reads inside the block buffer exactly when the entries fit. -/
theorem finddir_fits (heap : σ) :
    FinddirFits data.blockSize name (directoryEntries env data node heap) ↔
      ((ext2FinddirReads env data node name : FsReads σ _) heap).All
        (BytesInside data.blockSize) := by
  rw [ext2FinddirReads, directoryEntries]
  cases hi : ext2ReadInode env data node.inode heap with
  | error e =>
    rw [run_quiet_bind_error hi]
    exact iff_of_true trivial fun w hw => absurd hw List.not_mem_nil
  | ok x =>
    obtain ⟨inode, heap⟩ := x
    rw [run_quiet_bind hi]
    cases inode with
    | none => exact iff_of_true trivial ((all_run_pure _ _).2 trivial)
    | some inode =>
      dsimp only
      cases hk : env.kmallocBuffer data.blockSize heap with
      | error e =>
        rw [run_quiet_bind_error hk]
        exact iff_of_true trivial fun w hw => absurd hw List.not_mem_nil
      | ok y =>
        obtain ⟨⟨ptr, m⟩, heap⟩ := y
        rw [run_quiet_bind hk]
        dsimp only
        rcases ((returns_totalBlocksAny hbs : Returns OutOfMemory (ext2TotalBlocks data inode) _)
          heap).cases with ⟨e, hn, -⟩ | ⟨n, heap', hn, -⟩
        · rw [run_quiet_bind_error hn, hn]
          exact iff_of_true trivial fun w hw => absurd hw List.not_mem_nil
        · rw [run_quiet_bind hn, hn, all_run_bind]
          refine (finddirBlocks_fits hb n 0 m heap').trans ⟨fun h => ⟨h, fun _ _ _ => ?_⟩, And.left⟩
          rw [run_quiet_bind rfl]
          exact (all_run_quiet _ _).2 trivial

end

end

/-! ## Every directory -/

/-- The content of a directory's block with an entry of length `recLen` that is not in use, on
    a volume of 8 KiB with blocks of 1 KiB. -/
def directoryImage (recLen : ℕ) : Mem :=
  -- the inode table of group 0, and size and block of inode 2
  let inode := ((Mem.store32 (fun _ => 0) 2056 3).store32 3204 1024).store32 3240 4
  inode.store32 4100 recLen

/-- The root directory. -/
def rootNode : VfsNode Ext2Inode where
  name := [0x2F]
  permissions := 0
  type := .directory
  uid := 0
  gid := 0
  length := 1024
  inode := ext2RootInode
  inodeData := .null
  filesystem := 0

/-- **The walks over a directory, for any content of its blocks**: they end, and what they
    examine of its entries is in the block buffer exactly when the entries fit. -/
theorem directory_walk_exact {k : ℕ} (hk : k ≤ 6) (hb : data.blockSize = 1024 * 2 ^ k)
    (node : VfsNode Ext2Inode) (index : ℕ) (name : List UInt8) :
    Returns (WalkStop data) (ext2Readdir env data node index : FsM σ _) (fun _ => True) ∧
    Returns (WalkStop data) (ext2Finddir env data node name : FsM σ _) (fun _ => True) ∧
    ∀ heap : σ,
      (ReaddirFits data.blockSize index (directoryEntries env data node heap) 0 →
        ∀ w ∈ ((ext2ReaddirReads env data node index : FsReads σ _) heap).log,
          BytesInside data.blockSize w) ∧
      (∀ r, ext2Readdir env data node index heap = .ok r →
        (∀ w ∈ ((ext2ReaddirReads env data node index : FsReads σ _) heap).log,
          BytesInside data.blockSize w) →
        ReaddirFits data.blockSize index (directoryEntries env data node heap) 0) ∧
      (FinddirFits data.blockSize name (directoryEntries env data node heap) ↔
        ∀ w ∈ ((ext2FinddirReads env data node name : FsReads σ _) heap).log,
          BytesInside data.blockSize w) := by
  have hp := bufferPointers_pos data hb
  have hs := bufferPointers_square data hk hb
  have h64 : 2 ^ k ≤ 2 ^ 6 := Nat.pow_le_pow_right (by decide) hk
  have hle : data.blockSize ≤ 65536 := by omega
  refine ⟨returns_readdirAny hp hs hle, returns_finddirAny hp hs hle, fun heap => ?_⟩
  obtain ⟨h1, h2⟩ := readdir_fits hp hle node index heap
  exact ⟨h1, h2, finddir_fits hp hle heap⟩

/-- The entries of the small volume's root directory fit, for the second name in use and for a name
    that is not there. -/
theorem directory_walk_exact_small :
    (∀ w ∈ ((ext2ReaddirReads (imageEnv KernelHeap dirImage 8192) (ext2Data dirImage) rootNode 1)
      placementHeap).log, BytesInside 1024 w) ∧
    ∀ w ∈ ((ext2FinddirReads (imageEnv KernelHeap dirImage 8192) (ext2Data dirImage) rootNode [0x61])
      placementHeap).log, BytesInside 1024 w := by
  have hb : (ext2Data dirImage).blockSize = 1024 := by decide +kernel
  obtain ⟨-, -, h⟩ := directory_walk_exact (imageEnv KernelHeap dirImage 8192) (ext2Data dirImage)
    (show 0 ≤ 6 by decide) hb rootNode 1 [0x61]
  obtain ⟨hreaddir, -, hfinddir⟩ := h placementHeap
  rw [hb] at hreaddir hfinddir
  exact ⟨hreaddir (by decide +kernel), hfinddir.1 (by decide +kernel)⟩

/-- The length of an entry in the last 4 bytes of a block is read behind the block. -/
theorem directory_walk_leaves :
    (1024, 2) ∈ ((ext2ReaddirReads (imageEnv KernelHeap (directoryImage 1020) 8192) zeroData
      rootNode 0) placementHeap).log ∧ ¬ BytesInside 1024 (1024, 2) := by
  refine ⟨by decide +kernel, fun h => ?_⟩
  exact absurd (h 1024 (Nat.le_refl _) (by decide)) (Nat.lt_irrefl _)

end Ttos
