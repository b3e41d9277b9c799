/-
  ext2 directories: listing and lookup on a well-formed volume.

  * `Directory`: the blocks of a directory and the entries that tile them;
    `liveEntries` are the ones in use, in the order of the blocks.
  * `returns_readdir`: listing gives the live entry with the number asked for.
  * `returns_finddir`: lookup gives the inode of the first live entry with the name.
-/
import Ttos.Fs.Ext2Spec

namespace Ttos

namespace Ext2Format

/-! ## Directories -/

/-- An entry of a directory; inode 0 marks one that is not in use. -/
structure DirEntry where
  inode : ℕ
  recLen : ℕ
  name : List UInt8
deriving DecidableEq, Repr

namespace DirEntry

def live (e : DirEntry) : Bool := e.inode ≠ 0

/-- What listing gives for an entry. -/
def dirent (e : DirEntry) : VfsDirent := ⟨e.name, e.inode⟩

/-- The entry lies at `a`; an entry that is not in use has any name. -/
def At (m : Mem) (a : ℕ) (e : DirEntry) : Prop :=
  m.load32 a = e.inode ∧ m.load16 (a + 4) = e.recLen ∧
    (e.live → (m (a + 6)).toNat = e.name.length ∧ m.HasBytes (a + ext2DirEntrySize) e.name)

/-- The record holds the entry, and an entry in use has a name and an inode. -/
structure Valid (bytes : Mem) (e : DirEntry) : Prop where
  header_le : ext2DirEntrySize ≤ e.recLen
  name_le : e.live → ext2DirEntrySize + e.name.length ≤ e.recLen
  name_pos : e.live → 1 ≤ e.name.length
  name_lt : e.live → e.name.length ≤ 255
  name_nul : e.live → 0 ∉ e.name
  isInode : e.live → IsInode bytes e.inode

end DirEntry

/-- The entries lie one after the other from `a` to `stop`. -/
def EntriesAt (m : Mem) : ℕ → List DirEntry → ℕ → Prop
  | a, [], stop => a = stop
  | a, e :: es, stop => e.At m a ∧ EntriesAt m (a + e.recLen) es stop

/-- Block `n` of a directory is a hole, or the entries tile it. -/
def DirBlock (bytes : Mem) (ino : Ext2Inode) (n : ℕ) (es : List DirEntry) : Prop :=
  if fileBlock bytes ino n = 0 then es = []
  else EntriesAt bytes (fileBlock bytes ino n * blockSize bytes) es
    (fileBlock bytes ino n * blockSize bytes + blockSize bytes)

instance (m : Mem) (a : ℕ) (e : DirEntry) : Decidable (e.At m a) :=
  inferInstanceAs (Decidable (_ ∧ _ ∧ (_ → _ ∧ _)))

instance decidableEntriesAt (m : Mem) : ∀ a es stop, Decidable (EntriesAt m a es stop)
  | a, [], stop => inferInstanceAs (Decidable (a = stop))
  | a, e :: es, stop =>
    have := decidableEntriesAt m (a + e.recLen) es stop
    inferInstanceAs (Decidable (_ ∧ _))

/-- A well-formed directory with the entries of each of its blocks. -/
structure Directory (bytes : Mem) (ino : Ext2Inode) (blocks : List (List DirEntry)) : Prop where
  size : ino.iSize = blocks.length * blockSize bytes
  valid : ∀ es ∈ blocks, ∀ e ∈ es, e.Valid bytes
  block : ∀ n (h : n < blocks.length), DirBlock bytes ino n blocks[n]

/-- The entries in use, in the order of the blocks. -/
def liveEntries (blocks : List (List DirEntry)) : List DirEntry := blocks.flatten.filter DirEntry.live

variable {bytes m m' : Mem} {a b k n : ℕ} {e : DirEntry} {es : List DirEntry}

theorem DirEntry.At.shift (hv : e.Valid bytes) (h : ∀ j < e.recLen, m' (b + j) = m (a + j))
    (he : e.At m a) : e.At m' b := by
  obtain ⟨h1, h2, h3⟩ := he
  have hle : 8 ≤ e.recLen := hv.header_le
  refine ⟨?_, ?_, fun hl => ?_⟩
  · rw [← h1]
    exact Mem.load32_shift fun j hj => h j (by omega)
  · rw [← h2]
    exact Mem.load16_shift fun j hj => by rw [Nat.add_assoc, Nat.add_assoc, h _ (by omega)]
  · obtain ⟨h4, h5⟩ := h3 hl
    have hn : 8 + e.name.length ≤ e.recLen := hv.name_le hl
    rw [h _ (by omega)]
    refine ⟨h4, fun j hj => ?_⟩
    rw [← h5 j hj, Nat.add_assoc, Nat.add_assoc, h _ (show 8 + j < e.recLen by omega)]

theorem EntriesAt.le {stop : ℕ} (h : EntriesAt m a es stop) : a ≤ stop := by
  induction es generalizing a with
  | nil => exact le_of_eq h
  | cons e es ih => exact (Nat.le_add_right _ _).trans (ih h.2)

/-- Entries in a copy of their block. -/
theorem EntriesAt.shift (hv : ∀ e ∈ es, e.Valid bytes) (hj : ∀ j < n, m' (b + j) = m (a + j))
    (h : EntriesAt m (a + k) es (a + n)) : EntriesAt m' (b + k) es (b + n) := by
  induction es generalizing k with
  | nil =>
    have h : a + k = a + n := h
    exact congrArg (b + ·) (Nat.add_left_cancel h)
  | cons e es ih =>
    obtain ⟨he, hes⟩ := h
    have hle := hes.le
    rw [Nat.add_assoc] at hes
    have htail := ih (fun e he => hv e (List.mem_cons_of_mem _ he)) hes
    rw [← Nat.add_assoc] at htail
    refine ⟨he.shift (hv e (List.mem_cons_self ..)) fun j hlt => ?_, htail⟩
    rw [Nat.add_assoc, Nat.add_assoc, hj _ (by omega)]

/-- A block holds fewer entries than bytes. -/
theorem EntriesAt.length_le {stop : ℕ} (hv : ∀ e ∈ es, e.Valid bytes) (h : EntriesAt m a es stop) :
    a + 8 * es.length ≤ stop := by
  induction es generalizing a with
  | nil => exact le_of_eq h
  | cons e es ih =>
    have h1 : 8 ≤ e.recLen := (hv e (List.mem_cons_self ..)).header_le
    have h2 := ih (fun e he => hv e (List.mem_cons_of_mem _ he)) h.2
    rw [List.length_cons]
    omega

/-- A directory holds fewer entries than bytes. -/
theorem Directory.length_le {ino : Ext2Inode} {blocks : List (List DirEntry)}
    (h : Directory bytes ino blocks) : 8 * blocks.flatten.length ≤ ino.iSize := by
  have hone : ∀ es ∈ blocks, 8 * es.length ≤ blockSize bytes := by
    intro es hes
    obtain ⟨n, hn, rfl⟩ := List.mem_iff_getElem.1 hes
    have hb := h.block n hn
    rw [DirBlock] at hb
    split at hb
    · rw [hb]
      exact Nat.zero_le _
    · exact Nat.add_le_add_iff_left.1 (hb.length_le (h.valid _ hes))
  rw [h.size]
  clear h
  induction blocks with
  | nil => exact Nat.zero_le _
  | cons es blocks ih =>
    have h1 := hone es (List.mem_cons_self ..)
    have h2 := ih fun es hes => hone es (List.mem_cons_of_mem _ hes)
    rw [List.flatten_cons, List.length_append, List.length_cons, Nat.succ_mul blocks.length]
    omega

/-- The name of an entry in use is the one it is compared with. -/
theorem DirEntry.At.name_eq_iff {name : List UInt8} (h : e.At m a) (hl : e.live) :
    e.name = name ↔ (m (a + 6)).toNat = name.length ∧ memcmp name m (a + ext2DirEntrySize) = 0 := by
  obtain ⟨-, -, h3⟩ := h
  obtain ⟨h4, h5⟩ := h3 hl
  rw [Mem.memcmp_eq_zero, h4]
  constructor
  · rintro rfl
    exact ⟨rfl, h5⟩
  · rintro ⟨hlen, hn⟩
    exact List.ext_getElem hlen fun j hj hj' => (h5 j hj).symm.trans (hn j hj')

end Ext2Format

open Ext2Format

/-! ## The entries of a block -/

section
variable {σ : Type} {bytes buffer : Mem} {data : Ext2Fs} {index : ℕ} {name : List UInt8}

/-- The loop of `ext2_readdir` over a block: the live entry that has the number
    asked for, or the count of the live entries. -/
theorem returns_readdirEntries (hb : data.blockSize ≤ 65536) {es : List DirEntry}
    (hv : ∀ e ∈ es, e.Valid bytes) {position current fuel : ℕ}
    (he : EntriesAt buffer position es data.blockSize) (hf : es.length < fuel)
    (hle : current ≤ index) (hc : current + es.length < 4294967296) :
    Returns (σ := σ) OutOfMemory (ext2ReaddirEntries data index buffer fuel position current) fun r =>
      (∃ e ∈ es, e.live ∧ (es.filter DirEntry.live)[index - current]? = some e ∧
        ∃ q n, r = (some q, n) ∧ e.At buffer q) ∨
      (es.filter DirEntry.live).length ≤ index - current ∧
        r = (none, current + (es.filter DirEntry.live).length) := by
  induction es generalizing position current fuel with
  | nil =>
    obtain ⟨fuel, rfl⟩ := Nat.exists_eq_add_one_of_ne_zero hf.ne'
    have hp : position = data.blockSize := he
    rw [ext2ReaddirEntries, if_neg (by omega)]
    exact Returns.pure (Or.inr ⟨Nat.zero_le _, rfl⟩)
  | cons e es ih =>
    obtain ⟨fuel, rfl⟩ := Nat.exists_eq_add_one_of_ne_zero (Nat.ne_zero_of_lt hf)
    obtain ⟨hat, hes⟩ := he
    have hrec : 8 ≤ e.recLen := (hv e (List.mem_cons_self ..)).header_le
    have hpos := hes.le
    rw [List.length_cons] at hf hc
    have hv' : ∀ e ∈ es, e.Valid bytes := fun e he => hv e (List.mem_cons_of_mem _ he)
    rw [ext2ReaddirEntries, if_pos (by omega)]
    simp only [Ext2DirEntry.ofBytes, hat.1, hat.2.1]
    rw [if_neg (by omega), u32_of_lt (show position + e.recLen < 4294967296 by omega)]
    by_cases hl : e.live
    · rw [if_pos (of_decide_eq_true hl), List.filter_cons_of_pos hl]
      by_cases hi : current = index
      · rw [if_pos hi, hi, Nat.sub_self]
        exact Returns.pure (Or.inl ⟨e, List.mem_cons_self .., hl, rfl, position, _, rfl, hat⟩)
      · rw [if_neg hi, u32_of_lt (show current + 1 < 4294967296 by omega)]
        refine (ih hv' hes (by omega) (by omega) (by omega)).mono fun r hr => ?_
        obtain ⟨k, hk⟩ : ∃ k, index - current = k + 1 := ⟨index - current - 1, by omega⟩
        rw [hk, List.getElem?_cons_succ, show k = index - (current + 1) by omega]
        rcases hr with ⟨c, hc', hcl, hget, hq⟩ | ⟨hlen, hr⟩
        · exact Or.inl ⟨c, List.mem_cons_of_mem _ hc', hcl, hget, hq⟩
        · refine Or.inr ⟨?_, ?_⟩
          · rw [List.length_cons]
            omega
          · rw [hr, List.length_cons, Nat.add_assoc, Nat.add_comm 1]
    · rw [if_neg (fun h => hl (decide_eq_true h)), List.filter_cons_of_neg hl]
      refine (ih hv' hes (by omega) hle (by omega)).mono fun r hr => hr.imp_left ?_
      rintro ⟨c, hc', hcl, hget, hq⟩
      exact ⟨c, List.mem_cons_of_mem _ hc', hcl, hget, hq⟩

/-- The loop of `ext2_finddir` over a block: the first live entry with the name. -/
theorem returns_finddirEntries (hb : data.blockSize ≤ 65536) {es : List DirEntry}
    (hv : ∀ e ∈ es, e.Valid bytes) {position fuel : ℕ}
    (he : EntriesAt buffer position es data.blockSize) (hf : es.length < fuel) :
    Returns (σ := σ) OutOfMemory (ext2FinddirEntries data name buffer fuel position) fun r =>
      r = ((es.filter DirEntry.live).find? (·.name = name)).map DirEntry.inode := by
  induction es generalizing position fuel with
  | nil =>
    obtain ⟨fuel, rfl⟩ := Nat.exists_eq_add_one_of_ne_zero hf.ne'
    have hp : position = data.blockSize := he
    rw [ext2FinddirEntries, if_neg (by omega)]
    exact Returns.pure rfl
  | cons e es ih =>
    obtain ⟨fuel, rfl⟩ := Nat.exists_eq_add_one_of_ne_zero (Nat.ne_zero_of_lt hf)
    obtain ⟨hat, hes⟩ := he
    have hrec : 8 ≤ e.recLen := (hv e (List.mem_cons_self ..)).header_le
    have hpos := hes.le
    rw [List.length_cons] at hf
    have hrest := ih (fun e he => hv e (List.mem_cons_of_mem _ he)) hes (Nat.lt_of_succ_lt_succ hf)
    rw [ext2FinddirEntries, if_pos (by omega)]
    simp only [Ext2DirEntry.ofBytes, hat.1, hat.2.1]
    rw [if_neg (by omega), u32_of_lt (show position + e.recLen < 4294967296 by omega)]
    by_cases hl : e.live
    · rw [List.filter_cons_of_pos hl, List.find?_cons]
      have hlive : e.inode ≠ 0 := of_decide_eq_true hl
      by_cases hn : e.name = name
      · rw [if_pos ⟨hlive, (hat.name_eq_iff hl).1 hn⟩, decide_eq_true hn]
        exact Returns.pure rfl
      · rw [if_neg fun h => hn ((hat.name_eq_iff hl).2 h.2), decide_eq_false hn]
        exact hrest
    · rw [if_neg fun h => hl (decide_eq_true h.1), List.filter_cons_of_neg hl]
      exact hrest

end

/-- The node `ext2_build_node` makes of an inode. -/
structure VfsNode.IsBuilt (node : VfsNode Ext2Inode) (bytes : Mem) (filesystem inodeNo : ℕ) : Prop
    extends node.IsFor bytes inodeNo where
  length : node.length = (Ext2Format.inode bytes inodeNo).iSize
  filesystem : node.filesystem = filesystem

theorem returns_buildNode_built {σ : Type} [Allocator σ] {bytes : Mem} {filesystem inodeNo : ℕ}
    {name : List UInt8} :
    Returns OutOfMemory (σ := σ) (ext2BuildNode filesystem inodeNo name (inode bytes inodeNo))
      fun r => r.1 ≠ 0 ∧ r.2.IsBuilt bytes filesystem inodeNo :=
  returns_kmalloc_bind rfl fun _ hptr => Returns.pure ⟨hptr, ⟨⟨rfl, rfl, rfl⟩, rfl, rfl⟩⟩

/-! ## The blocks of a directory -/

section
variable {σ δ : Type} {env : FsEnv σ δ} {bytes : Mem} {ino : Ext2Inode} {index : ℕ}
  {name : List UInt8} [Allocator σ]
variable (hw : Layout bytes env.volume.size) (hx : env.ReadsSectors bytes)
include hw hx

omit [Allocator σ] in
/-- The entries of a block that was read. -/
theorem dirBlock_read {n : ℕ} {es : List DirEntry} (hp : ∀ b ∈ blockPath bytes ino n, InVolume bytes b)
    (hv : ∀ e ∈ es, e.Valid bytes) (hb : DirBlock bytes ino n es) (h0 : fileBlock bytes ino n ≠ 0)
    (buffer : Mem) :
    EntriesAt (ext2ReadBlock env (ext2Data bytes) (fileBlock bytes ino n) buffer) 0 es
      (ext2Data bytes).blockSize := by
  rw [DirBlock, if_neg h0] at hb
  have hcopy : ∀ j < blockSize bytes,
      ext2ReadBlock env (ext2Data bytes) (fileBlock bytes ino n) buffer (0 + j) =
        bytes (fileBlock bytes ino n * blockSize bytes + j) := fun j hj => by
    rw [Nat.zero_add, readBlock_apply hw hx (fileBlock_inVolume hp h0) hj]
  rw [ext2Data_blockSize hw, ← Nat.zero_add (blockSize bytes)]
  exact EntriesAt.shift (k := 0) hv hcopy hb

/-- A block of a directory is below the end of the block pointers. -/
theorem dirBlock_index (hp : PointersInVolume bytes ino) {n : ℕ}
    (hn : n * blockSize bytes < ino.iSize) (hlt : ino.iSize < 4294967296) :
    Returns OutOfMemory (σ := σ) (ext2InodeBlock env (ext2Data bytes) ino n)
      (· = fileBlock bytes ino n) := by
  have hi : n * blockSize bytes / blockSize bytes < _ := fileIndex_lt (hn.trans hlt)
  rw [Nat.mul_div_cancel _ blockSize_pos] at hi
  exact returns_inodeBlock hw hx hi (hp n hn)

theorem returns_readdirBlocks (hp : PointersInVolume bytes ino) (hlt : ino.iSize < 4294967296)
    (blocks : List (List DirEntry)) (hv : ∀ es ∈ blocks, ∀ e ∈ es, e.Valid bytes) {b current : ℕ}
    (hb : ∀ n (h : n < blocks.length), DirBlock bytes ino (b + n) blocks[n])
    (hn : (b + blocks.length) * blockSize bytes ≤ ino.iSize) (hle : current ≤ index)
    (hc : 8 * current + blocks.length * blockSize bytes ≤ ino.iSize) (buffer : Mem) :
    Returns OutOfMemory (σ := σ)
      (ext2ReaddirBlocks env (ext2Data bytes) ino index blocks.length b current buffer) fun r =>
        r.map Prod.snd = ((liveEntries blocks)[index - current]?).map DirEntry.dirent ∧
          ∀ p, r = some p → p.1 ≠ 0 := by
  induction blocks generalizing b current buffer with
  | nil => exact Returns.pure ⟨rfl, fun p hp => nomatch hp⟩
  | cons es blocks ih =>
    have hbs := hw.blockSize_le
    rw [List.length_cons] at hn hc
    have hlast : b * blockSize bytes + blockSize bytes ≤ ino.iSize := by
      rw [← Nat.succ_mul b]
      exact (Nat.mul_le_mul_right _ (by omega)).trans hn
    have hpos : 0 < blockSize bytes := blockSize_pos
    have hv0 := hv es (List.mem_cons_self ..)
    have hb0 : DirBlock bytes ino b es := hb 0 (Nat.zero_lt_succ _)
    have hmul := Nat.succ_mul blocks.length (blockSize bytes)
    rw [Nat.succ_eq_add_one] at hmul
    have htail : ∀ current' buffer', current' ≤ index →
        8 * current' + blocks.length * blockSize bytes ≤ ino.iSize → _ := fun current' buffer' hle' hc' =>
      @ih (fun es h => hv es (List.mem_cons_of_mem _ h)) (b + 1) current'
        (fun n h => by
          rw [Nat.add_assoc, Nat.add_comm 1]
          exact hb (n + 1) (Nat.succ_lt_succ h))
        (by rwa [Nat.add_assoc, Nat.add_comm 1]) hle' hc' buffer'
    rw [List.length_cons, ext2ReaddirBlocks]
    refine (dirBlock_index hw hx hp (by omega) hlt).bind ?_
    rintro _ rfl
    by_cases h0 : fileBlock bytes ino b = 0
    · rw [DirBlock, if_pos h0] at hb0
      subst hb0
      rw [if_pos h0]
      exact htail current buffer hle (by omega)
    · have hpath := hp b (by omega)
      have he := dirBlock_read hw hx hpath hv0 hb0 h0 buffer
      have hlen := he.length_le hv0
      rw [ext2Data_blockSize hw] at hlen
      rw [if_neg h0]
      refine (returns_readdirEntries (by rwa [ext2Data_blockSize hw]) hv0 he (by
        rw [ext2Data_blockSize hw]
        omega) hle (by omega)).bind ?_
      rw [liveEntries, List.flatten_cons, List.filter_append, List.getElem?_append]
      rintro _ (⟨e, hmem, hl, hget, q, n, rfl, hat⟩ | ⟨hlen', rfl⟩)
      · -- the entry is in this block
        obtain ⟨hi, -⟩ := List.getElem?_eq_some_iff.1 hget
        rw [if_pos hi, hget]
        refine returns_kmalloc_bind rfl fun ptr hptr => Returns.pure ⟨?_, ?_⟩
        · obtain ⟨h1, -, h3⟩ := hat
          obtain ⟨h4, h5⟩ := h3 hl
          simp only [Ext2DirEntry.ofBytes, h1, h4]
          rw [Mem.string_of_hasBytes h5 ((hv0 e hmem).name_nul hl)]
          rfl
        · rintro _ ⟨⟩
          exact hptr
      · rw [if_neg (by omega), Nat.sub_sub]
        have hcount := List.length_filter_le DirEntry.live es
        exact htail _ _ (by omega) (by omega)

theorem returns_finddirBlocks (hp : PointersInVolume bytes ino) (hlt : ino.iSize < 4294967296)
    (blocks : List (List DirEntry)) (hv : ∀ es ∈ blocks, ∀ e ∈ es, e.Valid bytes) {b : ℕ}
    (hb : ∀ n (h : n < blocks.length), DirBlock bytes ino (b + n) blocks[n])
    (hn : (b + blocks.length) * blockSize bytes ≤ ino.iSize) (buffer : Mem) :
    Returns OutOfMemory (σ := σ)
      (ext2FinddirBlocks env (ext2Data bytes) ino name blocks.length b buffer) fun r =>
        r = ((liveEntries blocks).find? (·.name = name)).map DirEntry.inode := by
  induction blocks generalizing b buffer with
  | nil => exact Returns.pure rfl
  | cons es blocks ih =>
    have hbs := hw.blockSize_le
    rw [List.length_cons] at hn
    have hlast : b * blockSize bytes + blockSize bytes ≤ ino.iSize := by
      rw [← Nat.succ_mul b]
      exact (Nat.mul_le_mul_right _ (by omega)).trans hn
    have hpos : 0 < blockSize bytes := blockSize_pos
    have hv0 := hv es (List.mem_cons_self ..)
    have hb0 : DirBlock bytes ino b es := hb 0 (Nat.zero_lt_succ _)
    have htail : ∀ buffer', _ := fun buffer' =>
      ih (b := b + 1) (fun es h => hv es (List.mem_cons_of_mem _ h))
        (fun n h => by
          rw [Nat.add_assoc, Nat.add_comm 1]
          exact hb (n + 1) (Nat.succ_lt_succ h))
        (by rwa [Nat.add_assoc, Nat.add_comm 1]) buffer'
    rw [List.length_cons, ext2FinddirBlocks]
    refine (dirBlock_index hw hx hp (by omega) hlt).bind ?_
    rintro _ rfl
    by_cases h0 : fileBlock bytes ino b = 0
    · rw [DirBlock, if_pos h0] at hb0
      subst hb0
      rw [if_pos h0]
      exact htail buffer
    · have hpath := hp b (by omega)
      have he := dirBlock_read hw hx hpath hv0 hb0 h0 buffer
      have hlen := he.length_le hv0
      rw [ext2Data_blockSize hw] at hlen
      rw [if_neg h0]
      refine (returns_finddirEntries (by rwa [ext2Data_blockSize hw]) hv0 he (by
        rw [ext2Data_blockSize hw]
        omega)).bind ?_
      rw [liveEntries, List.flatten_cons, List.filter_append, List.find?_append]
      rintro r rfl
      cases (es.filter DirEntry.live).find? (·.name = name) with
      | none => exact htail _
      | some e => exact Returns.pure rfl

/-! ## Listing and lookup -/

omit hx [Allocator σ] in
/-- The number of blocks of a directory is computed without wrapping. -/
theorem returns_totalBlocks {blocks : List (List DirEntry)} (hd : Directory bytes ino blocks)
    (hlt : ino.iSize < 4294967296) :
    Returns OutOfMemory (σ := σ) (ext2TotalBlocks (ext2Data bytes) ino) (· = blocks.length) := by
  have hpos : 0 < blockSize bytes := blockSize_pos
  obtain ⟨q, hq⟩ : blockSize bytes ∣ 4294967296 := by
    have h : (1024 : ℕ) = 2 ^ 10 := by decide
    rw [blockSize, h, ← pow_add, show (4294967296 : ℕ) = 2 ^ 32 by decide]
    exact pow_dvd_pow 2 (by have := hw.log_le; omega)
  have hle : ino.iSize + blockSize bytes ≤ 4294967296 := by
    rw [hd.size, hq, Nat.mul_comm] at hlt
    have hk := Nat.lt_of_mul_lt_mul_left hlt
    rw [hd.size, ← Nat.succ_mul, hq, Nat.mul_comm (blockSize bytes)]
    exact Nat.mul_le_mul_right _ hk
  have hsub : sub32 (u32 (ino.iSize + blockSize bytes)) 1 = ino.iSize + (blockSize bytes - 1) := by
    unfold sub32 u32
    omega
  have hdiv : (ino.iSize + (blockSize bytes - 1)) / blockSize bytes = blocks.length := by
    rw [hd.size, Nat.mul_comm, Nat.mul_add_div hpos, Nat.div_eq_of_lt (by omega), Nat.add_zero]
  rw [ext2TotalBlocks, ext2Data_blockSize hw, hsub, divOrFault, if_neg hpos.ne', hdiv]
  exact Returns.pure rfl

omit [Allocator σ] hw hx in
/-- The size of an inode is a word. -/
theorem iSize_lt (inodeNo : ℕ) : (inode bytes inodeNo).iSize < 4294967296 := Mem.load32_lt _ _

/-- **Listing** a directory gives its live entries by number. -/
theorem returns_readdir {inodeNo : ℕ} (hi : IsInode bytes inodeNo) {blocks : List (List DirEntry)}
    (hp : PointersInVolume bytes (inode bytes inodeNo))
    (hd : Directory bytes (inode bytes inodeNo) blocks) {node : VfsNode Ext2Inode}
    (hn : node.inode = inodeNo) (index : ℕ) :
    Returns OutOfMemory (σ := σ) (ext2Readdir env (ext2Data bytes) node index) fun r =>
      r.map Prod.snd = ((liveEntries blocks)[index]?).map DirEntry.dirent ∧
        ∀ p, r = some p → p.1 ≠ 0 := by
  rw [ext2Readdir, hn]
  refine (returns_readInode hw hx hi).bind ?_
  rintro _ rfl
  refine returns_kmallocBuffer_bind rfl fun ⟨ptr, buffer⟩ => ?_
  refine (returns_totalBlocks hw hd (iSize_lt _)).bind ?_
  rintro _ rfl
  refine (returns_readdirBlocks hw hx hp (iSize_lt _) blocks hd.valid
    (fun n h => by rw [Nat.zero_add]; exact hd.block n h) (by rw [Nat.zero_add, hd.size])
    (Nat.zero_le _) (by rw [hd.size, Nat.mul_zero, Nat.zero_add]) buffer).bind fun r hr => ?_
  exact returns_kfree_bind (Returns.pure hr)

/-- **Lookup** in a directory gives the first live entry with the name. -/
theorem returns_finddir {inodeNo : ℕ} (hi : IsInode bytes inodeNo) {blocks : List (List DirEntry)}
    (hp : PointersInVolume bytes (inode bytes inodeNo))
    (hd : Directory bytes (inode bytes inodeNo) blocks) {node : VfsNode Ext2Inode}
    (hn : node.inode = inodeNo) (name : List UInt8) :
    Returns OutOfMemory (σ := σ) (ext2Finddir env (ext2Data bytes) node name) fun r =>
      match (liveEntries blocks).find? (·.name = name) with
      | none => r = none
      | some e => ∃ ptr child, r = some (ptr, child) ∧ ptr ≠ 0 ∧
          child.IsBuilt bytes node.filesystem e.inode := by
  rw [ext2Finddir, hn]
  refine (returns_readInode hw hx hi).bind ?_
  rintro _ rfl
  refine returns_kmallocBuffer_bind rfl fun ⟨ptr, buffer⟩ => ?_
  refine (returns_totalBlocks hw hd (iSize_lt _)).bind ?_
  rintro _ rfl
  refine (returns_finddirBlocks hw hx hp (iSize_lt _) blocks hd.valid
    (fun n h => by rw [Nat.zero_add]; exact hd.block n h) (by rw [Nat.zero_add, hd.size])
    buffer).bind fun r hr => ?_
  refine returns_kfree_bind ?_
  subst hr
  cases hf : (liveEntries blocks).find? (·.name = name) with
  | none => exact Returns.pure rfl
  | some e =>
    have hmem := List.mem_of_find?_eq_some hf
    obtain ⟨hmem, hl⟩ := List.mem_filter.1 hmem
    obtain ⟨es, hes, he⟩ := List.mem_flatten.1 hmem
    refine (returns_readInode hw hx ((hd.valid es hes e he).isInode hl)).bind ?_
    rintro _ rfl
    dsimp only
    rw [map_eq_pure_bind]
    refine returns_buildNode_built.bind ?_
    rintro ⟨ptr, child⟩ ⟨hptr, hc⟩
    exact Returns.pure ⟨ptr, child, rfl, hptr, hc⟩

end

/-! ## A small directory -/

/-- The small volume with entries in its root directory: in block 6 a deleted one and
    the file "hi", then a hole, and in block 4 the name "hi" once more. -/
def dirImage : Mem :=
  let m := (tinyImage.store32 5252 3072).store32 5296 4
  let m := (m.store32 6148 12).store32 6156 3
  let m := ((m.store32 6160 0x203F4).store8 6164 0x68).store8 6165 0x69
  let m := ((m.store32 4096 4).store32 4100 0x20010).store8 4104 0x68
  (m.store8 4105 0x69).store32 4116 1008

/-- The entries of its blocks. -/
def dirImageRoot : List (List DirEntry) :=
  [[⟨0, 12, []⟩, ⟨3, 1012, [0x68, 0x69]⟩], [], [⟨4, 16, [0x68, 0x69]⟩, ⟨0, 1008, []⟩]]

/-- Images with this root directory: what their tables and its blocks hold. -/
structure RootImage (bytes : Mem) : Prop where
  superblock : superblock bytes = tinySuperblock
  descriptor : descriptor bytes 0 = ⟨5⟩
  inodes : ∀ no < 9, (inode bytes no).iSize ≤ 3072 ∧ ∀ n < 3, (inode bytes no).iBlock n < 8
  rootSize : (inode bytes 2).iSize = 3072
  types : ext2NodeType (inode bytes 2).iMode = .directory ∧
    ext2NodeType (inode bytes 3).iMode = .file ∧ ext2NodeType (inode bytes 4).iMode = .file
  rootBlocks : fileBlock bytes (inode bytes 2) 0 = 6 ∧ fileBlock bytes (inode bytes 2) 1 = 0 ∧
    fileBlock bytes (inode bytes 2) 2 = 4
  first : EntriesAt bytes 6144 [⟨0, 12, []⟩, ⟨3, 1012, [0x68, 0x69]⟩] 7168
  last : EntriesAt bytes 4096 [⟨4, 16, [0x68, 0x69]⟩, ⟨0, 1008, []⟩] 5120

namespace RootImage

variable {bytes : Mem} (h : RootImage bytes)
include h

theorem layout : Layout bytes 8192 := tiny_layout h.superblock h.descriptor

theorem isInode {no : ℕ} : IsInode bytes no ↔ 1 ≤ no ∧ no < 9 := tiny_isInode h.superblock

theorem pointers {no : ℕ} (hno : no < 9) : PointersInVolume bytes (inode bytes no) := by
  intro n hn b hb
  obtain ⟨hs, h8⟩ := h.inodes no hno
  rw [tiny_blockSize h.superblock] at hn
  have hn3 : n < 3 := by omega
  have hpath : blockPath bytes (inode bytes no) n = [(inode bytes no).iBlock n] := by
    rw [blockPath, treeOf]
    simp only [if_pos (show n < 12 by omega)]
    rfl
  rw [hpath, List.mem_singleton] at hb
  rw [hb, tiny_inVolume h.superblock]
  exact h8 n hn3

theorem directory : Directory bytes (inode bytes 2) dirImageRoot where
  size := by
    rw [tiny_blockSize h.superblock]
    exact h.rootSize
  valid := by
    have hall : ∀ es ∈ dirImageRoot, ∀ e ∈ es, ext2DirEntrySize ≤ e.recLen ∧
        (e.live = true → ext2DirEntrySize + e.name.length ≤ e.recLen ∧ 1 ≤ e.name.length ∧
          e.name.length ≤ 255 ∧ 0 ∉ e.name ∧ 1 ≤ e.inode ∧ e.inode < 9) := by decide
    intro es hes e he
    obtain ⟨hle, hlive⟩ := hall es hes e he
    exact ⟨hle, fun h => (hlive h).1, fun h => (hlive h).2.1, fun h => (hlive h).2.2.1,
      fun h => (hlive h).2.2.2.1, fun hl => h.isInode.2 (hlive hl).2.2.2.2⟩
  block := by
    obtain ⟨hblock0, hblock1, hblock2⟩ := h.rootBlocks
    intro n hn
    have hn : n < 3 := hn
    rw [DirBlock, tiny_blockSize h.superblock]
    match n with
    | 0 =>
      rw [hblock0, if_neg (by decide)]
      exact h.first
    | 1 =>
      rw [hblock1]
      rfl
    | 2 =>
      rw [hblock2, if_neg (by decide)]
      exact h.last

end RootImage

theorem dirImage_root : RootImage dirImage where
  superblock := by decide +kernel
  descriptor := by decide +kernel
  inodes := by decide +kernel
  rootSize := by decide +kernel
  types := by decide +kernel
  rootBlocks := by decide +kernel
  first := by decide +kernel
  last := by decide +kernel

end Ttos
