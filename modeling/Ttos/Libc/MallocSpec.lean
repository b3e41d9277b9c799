/-
  What the functions of the user heap do to its blocks.

  The list functions of malloc.c are those of the kernel heap: `UserHeap.asKheap`
  reads the user heap as a kernel heap, and `mallocSplit_eq`, `freeMergePrev_eq` and
  `freeMergeNext_eq` say that the functions agree on it.  Hence what `HeapInv` and
  `HeapGood` say of the kernel's functions holds of these, for the region from
  `heap_head` to the limit.  Growing the heap moves that limit:

  * `heapIncreaseSize_spec`: the region grows by a page, which extends a free last
    block or becomes a new one; blocks in use stay.
-/
import Ttos.Libc.Malloc
import Ttos.Memory.KheapSpec

namespace Ttos

open Piece

namespace UserHeap

/-! ## The user heap as a kernel heap -/

/-- The variables of malloc.c as those of kheap.c. -/
def asKheap (h : UserHeap) : Kheap := ⟨h.mem, true, h.heapHead, h.heapHead, h.heapTail, 0, 0⟩

/-- The user heap with the memory and the tail of a kernel heap. -/
def withKheap (h : UserHeap) (k : Kheap) : UserHeap := { h with mem := k.mem, heapTail := k.tail }

variable {h : UserHeap} {block size bestFit next v : ℕ}

theorem relinkNext_eq : relinkNext h next v = h.withKheap (Kheap.relinkNext h.asKheap next v) := by
  unfold relinkNext Kheap.relinkNext
  split <;> rfl

theorem mallocSplit_eq : mallocSplit h bestFit size =
    ((Kheap.kmallocSplit h.asKheap bestFit size).1,
      h.withKheap (Kheap.kmallocSplit h.asKheap bestFit size).2) := by
  by_cases hs : 20 < sub32 (h.mem.block bestFit).size size
  · have hk : Kheap.kmallocSplit h.asKheap bestFit size = _ := if_pos hs
    rw [hk]
    refine (if_pos hs).trans ?_
    rw [relinkNext_eq]
    simp only [asKheap, withKheap]
  · have hk : Kheap.kmallocSplit h.asKheap bestFit size = _ := if_neg hs
    rw [hk]
    exact if_neg hs

theorem freeMergePrev_eq : freeMergePrev h block =
    ((Kheap.kfreeMergePrev h.asKheap block).1,
      h.withKheap (Kheap.kfreeMergePrev h.asKheap block).2) := by
  by_cases hp : (h.mem.block block).prev ≠ 0 ∧
      (h.mem.block (h.mem.block block).prev).magic = kheapMagic ∧
      (h.mem.block (h.mem.block block).prev).free = true
  · have hk : Kheap.kfreeMergePrev h.asKheap block = _ := if_pos hp
    rw [hk]
    refine (if_pos hp).trans ?_
    rw [relinkNext_eq]
    simp only [asKheap, withKheap]
  · have hk : Kheap.kfreeMergePrev h.asKheap block = _ := if_neg hp
    rw [hk]
    exact if_neg hp

theorem freeMergeNext_eq :
    freeMergeNext h block = h.withKheap (Kheap.kfreeMergeNext h.asKheap block) := by
  by_cases hn : (h.mem.block block).next ≠ 0 ∧
      (h.mem.block (h.mem.block block).next).magic = kheapMagic ∧
      (h.mem.block (h.mem.block block).next).free = true
  · have hk : Kheap.kfreeMergeNext h.asKheap block = _ := if_pos hn
    rw [hk]
    refine (if_pos hn).trans ?_
    rw [relinkNext_eq]
    simp only [asKheap, withKheap]
  · have hk : Kheap.kfreeMergeNext h.asKheap block = _ := if_neg hn
    rw [hk]
    exact if_neg hn

/-- Merging writes to the memory and the tail only. -/
theorem kfreeMergePrev_with (k : Kheap) (block : ℕ) :
    ∃ m t, (Kheap.kfreeMergePrev k block).2 = { k with mem := m, tail := t } := by
  unfold Kheap.kfreeMergePrev
  dsimp only
  split
  · unfold Kheap.relinkNext
    split
    · exact ⟨_, _, rfl⟩
    · exact ⟨_, _, rfl⟩
  · exact ⟨_, _, rfl⟩

/-- The rest of `free` is the kernel's. -/
theorem release_eq : freeMergeNext (freeMergePrev h block).2 (freeMergePrev h block).1 =
    h.withKheap (Kheap.kfreeMergeNext (Kheap.kfreeMergePrev h.asKheap block).2
      (Kheap.kfreeMergePrev h.asKheap block).1) := by
  obtain ⟨m, t, hk⟩ := kfreeMergePrev_with h.asKheap block
  rw [freeMergePrev_eq, freeMergeNext_eq, hk]
  rfl

/-! ## Well-formed user heaps -/

/-- The user heap holds the blocks `bs`, from `heap_head` to the limit, in whole pages
    of user memory. -/
structure Grown (h : UserHeap) (bs : List Blk) : Prop where
  good : HeapGood h.heapHead (h.heapLimit + 1) h.asKheap bs
  base : h.heapBase = h.heapHead
  le : h.heapHead ≤ h.heapLimit
  page : (h.heapLimit + 1) % 4096 = 0
  user : h.heapLimit < 0xC0000000

/-- Before the first page there is no heap. -/
structure Fresh (h : UserHeap) : Prop where
  head : h.heapHead = 0
  base : h.heapBase = 0
  limit : h.heapLimit = 0

/-- The blocks of a user heap. -/
def Holds (h : UserHeap) (bs : List Blk) : Prop := (h.Fresh ∧ bs = []) ∨ h.Grown bs

/-- The list functions leave the kernel's side and the head alone. -/
theorem Grown.withKheap {bs bs' : List Blk} {k : Kheap} (hg : h.Grown bs)
    (hk : HeapGood h.heapHead (h.heapLimit + 1) k bs') : (h.withKheap k).Grown bs' := by
  refine ⟨⟨⟨hk.inv.pos, hk.inv.limit_lt, rfl, rfl, rfl, hk.inv.tail, hk.inv.linked, hk.inv.tiles⟩,
    hk.coalesced, hk.nonempty⟩, hg.base, hg.le, hg.page, hg.user⟩

theorem Grown.head_pos {bs : List Blk} (hg : h.Grown bs) : h.heapHead ≠ 0 := hg.good.inv.pos.ne'

/-- Bytes of payloads are the program's own. -/
theorem Grown.write {bs : List Blk} {m : Mem} (hg : h.Grown bs)
    (hm : ∀ x, ¬ NoHeader bs x → m x = h.mem x) : ({ h with mem := m } : UserHeap).Grown bs :=
  ⟨HeapGood.write (h := h.asKheap) hg.good hm, hg.base, hg.le, hg.page, hg.user⟩

/-! ## Growing the heap -/

section
variable {m : Mem} {a prev x : ℕ}

theorem setLast_block (hs : size < 4294967296) (hp : prev < 4294967296) :
    (setLast m a size prev).block a = ⟨kheapMagic, size, true, prev, 0⟩ := by
  unfold setLast
  simp only [Mem.block_setPrev, Mem.block_setNext, Mem.block_setFree, Mem.block_setSize,
    Mem.block_setMagic, KheapBlock.mk.injEq, true_and]
  exact ⟨rfl, Nat.mod_eq_of_lt hs, Nat.mod_eq_of_lt hp, trivial⟩

theorem setLast_out (hx : x < a ∨ a + 20 ≤ x) : setLast m a size prev x = m x := by
  unfold setLast
  rw [Mem.setPrev_out hx, Mem.setNext_out hx, Mem.setFree_out hx, Mem.setSize_out hx,
    Mem.setMagic_out hx]

end

section
variable {map : MapMemory} {bs ys : List Blk} {t : Blk}

/-- The system call on a process without a heap. -/
theorem hmapAlloc_fresh (hm : MapsUserMemory map) (hf : h.Fresh) :
    hmapAlloc map h 1 = (0, h) ∨ ∃ a m, 0 < a ∧ a % 4096 = 0 ∧ a + 4096 ≤ 0xC0000000 ∧
      hmapAlloc map h 1 = (a + 4095, { h with mem := m, heapBase := a, heapLimit := a + 4095 }) := by
  have hpages : u32 (1 * 4096) = 1 * 4096 := u32_of_lt (by decide)
  rw [hmapAlloc, syscallAllocHeap, if_neg Nat.one_ne_zero, if_pos hf.base, hpages]
  cases hr : map 0 (1 * 4096) h.mem with
  | none => exact Or.inl rfl
  | some r =>
    obtain ⟨a, m⟩ := r
    obtain ⟨h1, h2, h3⟩ := hm.region hr
    have hl : sub32 (u32 (a + 1 * 4096)) 1 = a + 4095 := by
      rw [u32_of_lt (by omega), sub32_of_le (by omega) (by omega)]
      omega
    refine Or.inr ⟨a, m, h1, h2, by omega, ?_⟩
    simp only [hl]

/-- The system call on a heap: the next page, with the old ones left alone. -/
theorem hmapAlloc_grown (hm : MapsUserMemory map) (hg : h.Grown bs) :
    hmapAlloc map h 1 = (0, h) ∨ ∃ m, h.heapLimit + 4096 < 0xC0000000 ∧
      (∀ x ≤ h.heapLimit, m x = h.mem x) ∧
      hmapAlloc map h 1 = (h.heapLimit + 4096, { h with mem := m, heapLimit := h.heapLimit + 4096 }) := by
  have hu := hg.user
  have hl : u32 (h.heapLimit + 1) = h.heapLimit + 1 := u32_of_lt (by omega)
  have hpages : u32 (1 * 4096) = 1 * 4096 := u32_of_lt (by decide)
  rw [hmapAlloc, syscallAllocHeap, if_neg Nat.one_ne_zero, if_neg (hg.base.trans_ne hg.head_pos),
    hl, hpages]
  cases hr : map (h.heapLimit + 1) (1 * 4096) h.mem with
  | none => exact Or.inl rfl
  | some r =>
    obtain ⟨a, m⟩ := r
    obtain ⟨-, -, h3⟩ := hm.region hr
    have hp := hg.page
    have ha : a = h.heapLimit + 1 := by
      have := hm.place hr (by omega)
      omega
    have hlim : sub32 (u32 (a + 1 * 4096)) 1 = h.heapLimit + 4096 := by
      rw [u32_of_lt (by omega), sub32_of_le (by omega) (by omega)]
      omega
    refine Or.inr ⟨m, by omega, fun x hx => hm.frame hr (by omega), ?_⟩
    simp only [hlim]

/-- The first page is one free block. -/
theorem heapIncreaseSize_fresh (hm : MapsUserMemory map) (hf : h.Fresh) :
    heapIncreaseSize map h 1 = (false, h) ∨ ∃ h', heapIncreaseSize map h 1 = (true, h') ∧
      h'.Grown [⟨h'.heapHead, 4076, true⟩] := by
  unfold heapIncreaseSize
  rcases hmapAlloc_fresh hm hf with hr | ⟨a, m, h1, h2, h3, hr⟩
  · rw [hr]
    exact Or.inl rfl
  have hhead : sub32 (a + 4095) (heapPageSize - 1) = a :=
    (sub32_of_le (show 4095 ≤ a + 4095 by omega) (by omega)).trans (Nat.add_sub_cancel _ _)
  have hsize : sub32 (u32 (heapPageSize * 1)) 20 = 4076 := by decide
  refine Or.inr ⟨⟨setLast m a 4076 0, a, a, a, a + 4095⟩, ?_, ⟨⟨?_, ?_, ?_⟩, rfl, ?_, ?_, ?_⟩⟩
  · rw [hr]
    simp only [hf.head, hhead, hsize]
    rw [if_neg (by omega)]
    rfl
  · refine ⟨h1, by show a + 4095 + 1 < _; omega, rfl, rfl, rfl, rfl, ⟨?_, trivial⟩, rfl, ?_, ?_⟩
    · exact setLast_block (by omega) (by omega)
    · simp only [Piece.hi, Blk.stop]
      omega
    · simp only [Piece.hi, Blk.stop, Tiles]
  · exact List.isChain_singleton _
  · simp [allocated, used]
  · show a ≤ a + 4095
    omega
  · show (a + 4095 + 1) % 4096 = 0
    omega
  · show a + 4095 < 0xC0000000
    omega

/-- What a longer list in a longer region needs. -/
theorem Grown.extend {h' : UserHeap} (hg : h.Grown (ys ++ [t])) {zs : List Blk}
    (hh : h'.heapHead = h.heapHead) (hb : h'.heapBase = h.heapBase)
    (hl : h'.heapLimit = h.heapLimit + 4096) (hu : h.heapLimit + 4096 < 0xC0000000)
    (htail : h'.heapTail = lastAddr zs (lastAddr ys 0))
    (hlink : Linked h'.mem (lastAddr ys 0) zs 0) (ht : Tiles t.addr zs (h.heapLimit + 4097))
    (hout : ∀ x < t.addr, h'.mem x = h.mem x) (hc : Coalesced (ys ++ zs))
    (hal : allocated zs = allocated [t]) : h'.Grown (ys ++ zs) := by
  obtain ⟨l1, -, -, t1, -⟩ := hg.good.inv.split
  have hle := ht.le
  have hrg := hg.good.inv.mem_range (b := t) (by simp)
  have hhead : headAddr zs 0 = t.addr := headAddr_of_tiles ht (by omega)
  have hal' : allocated (ys ++ zs) = allocated (ys ++ [t]) := by
    rw [allocated, allocated, List.filter_append, List.filter_append]
    exact congrArg _ hal
  have hp := hg.page
  refine ⟨⟨?_, hc, fun c hc => hg.good.nonempty c (hal' ▸ hc)⟩, hb.trans (hg.base.trans hh.symm),
    ?_, by omega, by omega⟩
  swap
  · have := hg.le
    omega
  refine ⟨hh ▸ hg.good.inv.pos, by omega, rfl, rfl, rfl, ?_, linked_append.2 ⟨?_, hlink⟩, ?_⟩
  · rw [lastAddr_append]
    exact htail
  · rw [hhead]
    refine l1.congr fun c hc => Mem.block_congr fun x _ hx => hout x ?_
    have := (t1.mem c hc).2.2
    simp only [Piece.hi, Blk.stop] at this
    omega
  · rw [hh, hl]
    exact Tiles.append_iff.2 ⟨t.addr, t1, ht⟩

/-- Extending the free block at the end of the heap. -/
theorem Grown.extendTail {m : Mem} (hg : h.Grown (ys ++ [t])) (hf : t.free = true)
    (hu : h.heapLimit + 4096 < 0xC0000000) (hm : ∀ x ≤ h.heapLimit, m x = h.mem x) :
    ({ h with mem := m.setSize t.addr (t.size + 4096), heapTail := t.addr,
              heapLimit := h.heapLimit + 4096 } : UserHeap).Grown (ys ++ [⟨t.addr, t.size + 4096, true⟩]) := by
  obtain ⟨-, h2, -, t1, t2⟩ := hg.good.inv.split
  have hstop : t.addr + 20 + t.size = h.heapLimit + 1 := t2
  have hle := t1.le
  have h2 : h.mem.block t.addr = ⟨kheapMagic, t.size, t.free, lastAddr ys 0, 0⟩ := h2
  have htail : h.heapTail = t.addr := hg.good.inv.tail.trans (by simp)
  refine hg.extend rfl rfl rfl hu rfl ⟨?_, trivial⟩ ⟨rfl, ?_, ?_⟩ (fun x hx => ?_) ?_ ?_
  · show (m.setSize t.addr (t.size + 4096)).block t.addr = _
    rw [Mem.block_setSize, Mem.block_congr fun x _ hx => hm x (by omega), h2, hf,
      Nat.mod_eq_of_lt (by omega)]
    rfl
  · simp only [Piece.hi, Blk.stop]
    omega
  · simp only [Piece.hi, Blk.stop, Tiles]
    omega
  · show m.setSize t.addr (t.size + 4096) x = _
    rw [Mem.setSize_out (Or.inl hx)]
    exact hm x (by omega)
  · refine coalesced_append_cons.2 ⟨⟨?_, fun p hp => ?_⟩, List.isChain_nil, by simp⟩
    · exact (coalesced_append_cons.1 hg.good.coalesced).1.1
    · have := (coalesced_append_cons.1 hg.good.coalesced).1.2 p hp
      simpa [used, hf] using this
  · simp [allocated, used, hf]

/-- Appending a free block behind a block in use. -/
theorem Grown.appendTail {m : Mem} (hg : h.Grown (ys ++ [t])) (hf : t.free = false)
    (hu : h.heapLimit + 4096 < 0xC0000000) (hm : ∀ x ≤ h.heapLimit, m x = h.mem x) :
    ({ h with mem := (setLast m (h.heapLimit + 1) 4076 t.addr).setNext t.addr (h.heapLimit + 1),
              heapTail := h.heapLimit + 1, heapLimit := h.heapLimit + 4096 }
      : UserHeap).Grown (ys ++ [t, ⟨h.heapLimit + 1, 4076, true⟩]) := by
  obtain ⟨-, h2, -, t1, t2⟩ := hg.good.inv.split
  have hstop : t.addr + 20 + t.size = h.heapLimit + 1 := t2
  have h2 : h.mem.block t.addr = ⟨kheapMagic, t.size, t.free, lastAddr ys 0, 0⟩ := h2
  have hle := t1.le
  refine hg.extend rfl rfl rfl hu rfl ⟨?_, ?_, trivial⟩ ⟨rfl, ?_, hstop.symm, ?_, ?_⟩
    (fun x hx => ?_) ?_ ?_
  · show Mem.block _ t.addr = _
    rw [Mem.block_setNext, Mem.block_congr fun x _ hx => setLast_out (by omega),
      Mem.block_congr fun x _ hx => hm x (by omega), h2, Nat.mod_eq_of_lt (by omega)]
    rfl
  · show Mem.block _ (h.heapLimit + 1) = _
    rw [Mem.block_setNext_ne (by omega)]
    exact setLast_block (by omega) (by omega)
  · simp only [Piece.hi, Blk.stop]
    omega
  · simp only [Piece.hi, Blk.stop]
    omega
  · simp only [Piece.hi, Blk.stop, Tiles]
  · show Mem.setNext _ t.addr (h.heapLimit + 1) x = _
    rw [Mem.setNext_out (Or.inl hx), setLast_out (by omega)]
    exact hm x (by omega)
  · obtain ⟨⟨hc, hp⟩, -⟩ := coalesced_append_cons.1 hg.good.coalesced
    refine coalesced_append_cons.2 ⟨⟨hc, hp⟩, List.isChain_singleton _, fun n _ => Or.inl ?_⟩
    simp [used, hf]
  · simp [allocated, used, List.filter_cons]

/-- The blocks of a heap that was a page shorter and ended at `limit`: a free last block
    is longer, and behind one in use there is a new block. -/
def growBlocks (limit : ℕ) (bs : List Blk) : List Blk :=
  match bs.getLast? with
  | none => []
  | some t =>
    bs.dropLast ++ if t.free then [⟨t.addr, t.size + 4096, true⟩] else [t, ⟨limit + 1, 4076, true⟩]

theorem growBlocks_concat (limit : ℕ) (ys : List Blk) (t : Blk) : growBlocks limit (ys ++ [t]) =
    ys ++ if t.free then [⟨t.addr, t.size + 4096, true⟩] else [t, ⟨limit + 1, 4076, true⟩] := by
  simp [growBlocks]

/-- **Growing the heap.**  The kernel refuses and nothing changes, or the heap is a
    page longer; blocks in use stay as they are. -/
theorem heapIncreaseSize_spec (hm : MapsUserMemory map) (hg : h.Grown bs) :
    heapIncreaseSize map h 1 = (false, h) ∨ ∃ h', heapIncreaseSize map h 1 = (true, h') ∧
      h'.Grown (growBlocks h.heapLimit bs) ∧ allocated (growBlocks h.heapLimit bs) = allocated bs ∧
      ∀ c ∈ allocated bs, ∀ x, c.data ≤ x → x < c.stop → h'.mem x = h.mem x := by
  unfold heapIncreaseSize
  rcases hmapAlloc_grown hm hg with hr | ⟨m, hu, hmem, hr⟩
  · rw [hr]
    exact Or.inl rfl
  have hi := hg.good.inv
  have hle := hg.le
  -- the tail is the last block, which ends at the limit
  obtain rfl | ⟨ys, t, rfl⟩ := List.eq_nil_or_concat' bs
  · exact absurd (Tiles.nil_iff.1 hi.tiles) (by omega)
  have ht : _ ∧ (h.mem.block t.addr).size = t.size ∧ (h.mem.block t.addr).free = t.free :=
    hi.linked.magic t (by simp)
  have htail : h.heapTail = t.addr := hi.tail.trans (by simp)
  have hrg := hi.mem_range (b := t) (by simp)
  have hblock : m.block t.addr = h.mem.block t.addr :=
    Mem.block_congr fun x _ hx => hmem x (by omega)
  have hout : ∀ c ∈ allocated (ys ++ [t]), ∀ x, c.data ≤ x → x < c.stop →
      (x < t.addr ∨ t.addr + 20 ≤ x) ∧ x ≤ h.heapLimit := by
    intro c hc x h1 h2
    have hcr := hi.mem_range (mem_allocated.1 hc).1
    refine ⟨?_, by simp only [Blk.stop] at h2; omega⟩
    exact hi.noHeader (mem_allocated.1 hc).1 h1 h2 t (by simp)
  rw [hr]
  have hlim : h.heapLimit + 4096 ≠ 0 := by omega
  have hpages : u32 (heapPageSize * 1) = 4096 := by decide
  simp only [hlim, hg.head_pos, if_false, htail, hblock, ht.2.1, hpages]
  by_cases hf : t.free = true
  · have hsize : u32 (t.size + 4096) = t.size + 4096 := u32_of_lt (by omega)
    rw [if_pos (ht.2.2.trans hf), hsize, growBlocks_concat, if_pos hf]
    refine Or.inr ⟨_, rfl, hg.extendTail hf hu hmem, ?_, fun c hc x h1 h2 => ?_⟩
    · simp [allocated, used, hf]
    · obtain ⟨hx, hl⟩ := hout c hc x h1 h2
      exact (Mem.setSize_out hx).trans (hmem x hl)
  · have hf : t.free = false := by simpa using hf
    have hnew : sub32 (h.heapLimit + 4096) (heapPageSize - 1) = h.heapLimit + 1 :=
      (sub32_of_le (show 4095 ≤ h.heapLimit + 4096 by omega) (by omega)).trans
        (Nat.add_sub_cancel (h.heapLimit + 1) 4095)
    have hused : ¬ (h.mem.block t.addr).free = true := by
      rw [ht.2.2, hf]
      exact Bool.false_ne_true
    rw [if_neg hused, hnew, growBlocks_concat, if_neg (by simp [hf])]
    refine Or.inr ⟨_, rfl, hg.appendTail hf hu hmem, ?_, fun c hc x h1 h2 => ?_⟩
    · simp [allocated, used, List.filter_cons]
    · obtain ⟨hx, hl⟩ := hout c hc x h1 h2
      exact ((Mem.setNext_out hx).trans (setLast_out (by omega))).trans (hmem x hl)

end

/-! ## Allocation -/

/-- The payloads of the blocks `us` are the same in both heaps. -/
def Keeps (us : List Blk) (h h' : UserHeap) : Prop :=
  ∀ c ∈ us, ∀ x, c.data ≤ x → x < c.stop → h'.mem x = h.mem x

theorem Keeps.refl (us : List Blk) (h : UserHeap) : Keeps us h h := fun _ _ _ _ _ => rfl

theorem Keeps.trans {us : List Blk} {h₁ h₂ h₃ : UserHeap} (h : Keeps us h₁ h₂)
    (h' : Keeps us h₂ h₃) : Keeps us h₁ h₃ := fun c hc x h1 h2 =>
  (h' c hc x h1 h2).trans (h c hc x h1 h2)

/-- The outcome of an allocation on a heap with the blocks `us` in use: `NULL`, or the
    payload of one more block that is large enough; payloads stay. -/
inductive Served (us : List Blk) (h : UserHeap) (size : ℕ) : Option (ℕ × UserHeap) → Prop
  | refused {h' : UserHeap} {bs' : List Blk} (holds : h'.Holds bs') (same : allocated bs' = us)
      (keeps : Keeps us h h') : Served us h size (some (0, h'))
  | granted {h' : UserHeap} {bs' : List Blk} {b : Blk} (holds : h'.Grown bs')
      (new : (allocated bs').Perm (b :: us)) (fits : size ≤ b.size) (keeps : Keeps us h h') :
      Served us h size (some (b.data, h'))

theorem Served.after {us : List Blk} {h₁ : UserHeap} {res : Option (ℕ × UserHeap)}
    (hk : Keeps us h h₁) (hs : Served us h₁ size res) : Served us h size res := by
  cases hs with
  | refused holds same keeps => exact .refused holds same (hk.trans keeps)
  | granted holds new fits keeps => exact .granted holds new fits (hk.trans keeps)

section
variable {map : MapMemory} {bs ls rs : List Blk} {b : Blk}

/-- The search of malloc.c is the kernel's, for a request without alignment. -/
theorem heapFindBestFitFrom_eq (m : Mem) (size : ℕ) : ∀ fuel current best,
    heapFindBestFitFrom m size fuel current best =
      Kheap.kheapFindBestFitFrom m size false fuel current best := by
  intro fuel
  induction fuel with
  | zero => exact fun _ _ => rfl
  | succ fuel ih =>
    intro current best
    have hfits : Kheap.kheapFits m size false current = true ↔
        (m.block current).free = true ∧ size ≤ (m.block current).size := by
      simp [Kheap.kheapFits]
    rw [heapFindBestFitFrom, Kheap.kheapFindBestFitFrom]
    simp only [hfits, ih]

theorem heapFindBestFit_eq (hg : h.Grown bs) (size : ℕ) :
    heapFindBestFit h size = some (Kheap.addrOf (Kheap.bestFit size false bs)) := by
  have hi := hg.good.inv
  have hle := hg.le
  have hlen := Kheap.length_le hi
  have hu := hg.user
  have hfuel : bs.length < heapFuel := by
    show bs.length < 0x100000000
    omega
  have hh : h.heapHead = headAddr bs 0 := (headAddr_of_tiles hi.tiles (by omega)).symm
  have hi' : HeapInv h.heapHead (h.heapLimit + 1) h.asKheap ([] ++ bs) := hi
  have hbest : ∀ c ∈ (none : Option Blk), c ∈ ([] : List Blk) := fun c hc => by cases hc
  rw [heapFindBestFit, heapFindBestFitFrom_eq, hh]
  generalize heapFuel = fuel at hfuel
  exact Kheap.kheapFindBestFitFrom_eq (fun ha => by cases ha) hi' hbest hfuel

/-- Taking the block the search has found. -/
theorem served_mallocSplit (hg : h.Grown bs) (h0 : 0 < size)
    (hb : Kheap.bestFit size false bs = some b) :
    b.addr ≠ 0 ∧ Served (allocated bs) h size (some (mallocSplit h b.addr size)) := by
  obtain ⟨hmem, hf⟩ : b ∈ bs ∧ b.Fits size false := by simpa using Kheap.foldl_better_mem hb
  have hne : b.addr ≠ 0 := by
    have := (hg.good.inv.mem_range hmem).1
    have := hg.good.inv.pos
    omega
  obtain ⟨ls, rs, rfl⟩ := List.append_of_mem hmem
  obtain ⟨hd, hi', hout⟩ := Kheap.kmallocSplit_spec hg.good.inv hf.2.1
  have hcarve : b.carve size false = b.split size := Blk.carve_split size (by simp)
  have htaken : b.data = (b.taken size false).data := by
    rw [Blk.taken_data, Blk.carved, if_neg (by simp)]
  rw [← hcarve] at hi' hout
  obtain ⟨hg', hperm, hs, hkeep⟩ := hg.good.carve h0 hf hi' hout
  rw [mallocSplit_eq, hd, htaken]
  refine ⟨hne, .granted (hg.withKheap hg') hperm hs fun c hc => hkeep c ?_⟩
  exact (mem_allocated.1 (hperm.mem_iff.2 (List.mem_cons_of_mem _ hc))).1

theorem served_mallocRetry (hg : h.Grown bs) (h0 : 0 < size) :
    Served (allocated bs) h size (mallocRetry h size) := by
  rw [mallocRetry, heapFindBestFit_eq hg]
  cases hb : Kheap.bestFit size false bs with
  | none => exact .refused (Or.inr hg) rfl (.refl _ h)
  | some b =>
    obtain ⟨hne, hs⟩ := served_mallocSplit hg h0 hb
    show Served _ _ _ (if b.addr = 0 then some (0, h) else some (mallocSplit h b.addr size))
    rw [if_neg hne]
    exact hs

/-- A search that fails grows the heap and searches again. -/
theorem served_mallocFit (hm : MapsUserMemory map) (hg : h.Grown bs) (size : ℕ) :
    Served (allocated bs) h size (mallocFit map h size) := by
  rw [mallocFit, heapFindBestFit_eq hg]
  by_cases h0 : size = 0
  · rw [if_pos h0]
    exact .refused (Or.inr hg) rfl (.refl _ h)
  rw [if_neg h0]
  cases hb : Kheap.bestFit size false bs with
  | none =>
    rcases heapIncreaseSize_spec hm hg with hr | ⟨h', hr, hg', hal, hk⟩
    · simp only [Kheap.addrOf, Option.elim, hr]
      exact .refused (Or.inr hg) rfl (.refl _ h)
    · simp only [Kheap.addrOf, Option.elim, hr]
      exact .after hk (hal ▸ served_mallocRetry hg' (by omega))
  | some b =>
    obtain ⟨hne, hs⟩ := served_mallocSplit hg (by omega) hb
    show Served _ _ _ (if b.addr = 0 then _ else some (mallocSplit h b.addr size))
    rw [if_neg hne]
    exact hs

/-- **Allocation** returns `NULL` or a new block that is large enough, whatever the
    kernel answers; no payload changes. -/
theorem served_malloc (hm : MapsUserMemory map) (hh : h.Holds bs) (size : ℕ) :
    Served (allocated bs) h size (malloc map h size) := by
  unfold malloc
  rcases hh with ⟨hf, rfl⟩ | hg
  · rw [if_pos hf.head]
    rcases heapIncreaseSize_fresh hm hf with hr | ⟨h', hr, hg⟩
    · simp only [hr]
      exact .refused (Or.inl ⟨hf, rfl⟩) rfl (.refl _ h)
    · have hal : allocated [Blk.mk h'.heapHead 4076 true] = allocated [] := by simp [allocated, used]
      simp only [hr]
      exact .after (fun c hc => by simp [allocated] at hc) (hal ▸ served_mallocFit hm hg size)
  · rw [if_neg hg.head_pos]
    exact served_mallocFit hm hg size

/-- `calloc` clears the new block. -/
theorem served_calloc (hm : MapsUserMemory map) (hh : h.Holds bs) (num size : ℕ) :
    Served (allocated bs) h (u32 (num * size)) (calloc map h num size) := by
  have hs := served_malloc hm hh (u32 (num * size))
  unfold calloc
  generalize malloc map h (u32 (num * size)) = res at hs
  cases hs with
  | refused holds same keeps => exact .refused holds same keeps
  | @granted h' bs' b holds new fits keeps =>
    have hb : b ∈ bs' := (mem_allocated.1 (new.mem_iff.2 (List.mem_cons_self ..))).1
    have hptr : b.data ≠ 0 := by simp [Blk.data]
    have hstop : b.data + u32 (num * size) ≤ b.stop := by simp only [Blk.data, Blk.stop]; omega
    simp only [if_pos hptr]
    refine .granted (holds.write fun x hx => Mem.fill_out ?_) new fits fun c hc x h1 h2 => ?_
    · have := holds.good.inv.out_of_header hb hx
      omega
    · have hc' : c ∈ allocated bs' := new.mem_iff.2 (List.mem_cons_of_mem _ hc)
      have hne : c ≠ b := by
        rintro rfl
        have hn : (allocated bs').Nodup := holds.good.inv.tiles.nodup.filter _
        exact (List.nodup_cons.1 (new.nodup_iff.1 hn)).1 hc
      have := holds.good.inv.payload_disjoint hb (mem_allocated.1 hc').1 hne h1 h2
      exact (Mem.fill_out (by omega)).trans (keeps c hc x h1 h2)

/-! ## Freeing -/

/-- A block of the heap passes the address check. -/
theorem heapIsValidAddress_of_mem (hg : h.Grown bs) (hb : b ∈ bs) :
    heapIsValidAddress h b.data = true := by
  have hi := hg.good.inv
  have hle := hg.le
  have hu := hg.user
  obtain rfl | ⟨ys, t, rfl⟩ := List.eq_nil_or_concat' bs
  · cases hb
  have ht : h.heapTail = t.addr := hi.tail.trans (by simp)
  have htr := hi.mem_range (b := t) (by simp)
  have hbr := hi.mem_range hb
  have hbt : b.addr ≤ t.addr := by
    obtain ⟨-, -, -, t1, -⟩ := hi.split
    rcases List.mem_append.1 hb with hb | hb
    · have := (t1.mem b hb).2
      simp only [Piece.lo] at this
      omega
    · rw [List.mem_singleton.1 hb]
  have h3 : sub32 b.data 20 = b.addr := (hi.block_of_mem hb).1
  have hmagic : (h.mem.block b.addr).magic = kheapMagic := (hi.linked.magic b hb).1
  unfold heapIsValidAddress
  rw [ht, u32_of_lt (by omega), u32_of_lt (by omega), h3, hmagic, if_pos]
  · rfl
  · simp only [Blk.data]
    omega

theorem free_eq (hg : h.Grown bs) (hb : b ∈ bs) :
    free h b.data = h.withKheap (Kheap.release h.asKheap b.addr) := by
  have hptr : b.data ≠ 0 := by simp [Blk.data]
  have hblk : sub32 b.data 20 = b.addr := (hg.good.inv.block_of_mem hb).1
  unfold free
  simp only [hptr, heapIsValidAddress_of_mem hg hb, hblk, if_false, Bool.not_true,
    Bool.false_eq_true, release_eq]
  rfl

/-- **Freeing** takes a block out of the blocks in use and leaves the payloads of the
    others alone. -/
theorem free_spec (hg : h.Grown bs) (hb : b ∈ allocated bs) :
    ∃ bs', (free h b.data).Grown bs' ∧ (allocated bs).Perm (b :: allocated bs') ∧
      Keeps (allocated bs') h (free h b.data) := by
  obtain ⟨bs', hg', hperm, hkeep⟩ := hg.good.release hb
  rw [free_eq hg (mem_allocated.1 hb).1]
  generalize h.asKheap.release b.addr = k at hg' hkeep
  exact ⟨bs', hg.withKheap hg', hperm, hkeep⟩

/-- `realloc` on a block that is too small: a new block that starts with the old
    payload, and the old block freed; or `NULL`, with the old block still in use. -/
theorem realloc_grow (hm : MapsUserMemory map) (hg : h.Grown bs) (hb : b ∈ allocated bs)
    (hs : b.size < size) :
    (∃ h' bs', realloc map h b.data size = some (0, h') ∧ h'.Grown bs' ∧
      allocated bs' = allocated bs ∧ Keeps (allocated bs) h h') ∨
    ∃ c h' bs', realloc map h b.data size = some (c.data, h') ∧ h'.Grown bs' ∧
      (b :: allocated bs').Perm (c :: allocated bs) ∧ size ≤ c.size ∧
      (∀ i < b.size, h'.mem (c.data + i) = h.mem (b.data + i)) ∧
      ∀ d ∈ allocated bs', d ≠ c → ∀ x, d.data ≤ x → x < d.stop → h'.mem x = h.mem x := by
  have hbm := (mem_allocated.1 hb).1
  have hsub : sub32 b.data 20 = b.addr := (hg.good.inv.block_of_mem hbm).1
  have hsize : (h.mem.block b.addr).size = b.size := (hg.good.inv.block_of_mem hbm).2
  have hvalid := heapIsValidAddress_of_mem hg hbm
  have hptr : b.data ≠ 0 := by simp [Blk.data]
  have h0 : size ≠ 0 := by omega
  unfold realloc
  simp only [hptr, h0, hvalid, hsub, hsize, not_le.2 hs, if_false, Bool.not_true, Bool.false_eq_true]
  have hserved := served_malloc hm (Or.inr hg) size
  generalize malloc map h size = res at hserved
  cases hserved with
  | @refused h' bs' holds same keeps =>
    rcases holds with ⟨-, rfl⟩ | holds
    · rw [← same] at hb
      cases hb
    · exact Or.inl ⟨h', bs', rfl, holds, same, keeps⟩
  | @granted h₁ bs₁ c holds new fits keeps =>
    have hcptr : c.data ≠ 0 := by simp [Blk.data]
    have hcm₁ : c ∈ bs₁ := (mem_allocated.1 (new.mem_iff.2 (List.mem_cons_self ..))).1
    have hb₁ : b ∈ allocated bs₁ := new.mem_iff.2 (List.mem_cons_of_mem _ hb)
    have hbm₁ := (mem_allocated.1 hb₁).1
    have hsize₁ : (h₁.mem.block b.addr).size = b.size := (holds.good.inv.block_of_mem hbm₁).2
    have hbc : b ≠ c := by rintro rfl; omega
    simp only [hcptr, if_false, hsize₁]
    have hstop : c.data + b.size ≤ c.stop := by simp only [Blk.data, Blk.stop]; omega
    have hg₂ : ({ h₁ with mem := h₁.mem.copy c.data b.data b.size } : UserHeap).Grown bs₁ := by
      refine holds.write fun x hx => Mem.copy_out ?_
      have := holds.good.inv.out_of_header hcm₁ hx
      omega
    obtain ⟨bs₃, hg₃, hperm₃, hout₃⟩ := free_spec hg₂ hb₁
    have hmem₃ : ∀ d ∈ allocated bs₃, d ∈ allocated bs₁ := fun d hd =>
      hperm₃.mem_iff.2 (List.mem_cons_of_mem _ hd)
    have hc₃ : c ∈ allocated bs₃ := by
      have := hperm₃.mem_iff.1 (new.mem_iff.2 (List.mem_cons_self ..))
      exact (List.mem_cons.1 this).resolve_left (fun h => hbc h.symm)
    refine Or.inr ⟨c, _, bs₃, rfl, hg₃, hperm₃.symm.trans new, fits, fun i hi => ?_,
      fun d hd hne x h1 h2 => ?_⟩
    · rw [hout₃ c hc₃ _ (by omega) (by omega)]
      have hsrc : c.data + i - c.data = i := by omega
      show h₁.mem.copy c.data b.data b.size (c.data + i) = _
      rw [Mem.copy_in (by omega) (by omega), hsrc]
      exact keeps b hb _ (by omega) (by simp only [Blk.data, Blk.stop]; omega)
    · rw [hout₃ d hd x h1 h2]
      have hd₁ := hmem₃ d hd
      have := holds.good.inv.payload_disjoint hcm₁ (mem_allocated.1 hd₁).1 hne h1 h2
      have hdb : d ∈ allocated bs := (List.mem_cons.1 (new.mem_iff.1 hd₁)).resolve_left hne
      exact (Mem.copy_out (by omega)).trans (keeps d hdb x h1 h2)

end

end UserHeap

end Ttos
