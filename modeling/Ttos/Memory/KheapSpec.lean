/-
  The functions of the heap on a well-formed heap.

  `KheapGood base h bs`: the heap holds the blocks `bs`, no two free ones are
  neighbours, and no allocated block is empty.  Every function keeps it;
  `allocated bs` says which blocks are in use before and after, and every
  specification says which bytes stay as they are.
-/
import Ttos.Memory.KheapFree

namespace Ttos

open Piece

/-- The blocks in use. -/
def allocated (bs : List Blk) : List Blk := bs.filter used

theorem mem_allocated {bs : List Blk} {b : Blk} : b ∈ allocated bs ↔ b ∈ bs ∧ b.free = false := by
  simp [allocated, used]

/-! ## Carving on the list -/

namespace Blk

variable {b : Blk} {size : ℕ} {align : Bool}

/-- The block an allocation hands out. -/
def takenOf (b : Blk) (size : ℕ) : Blk := ⟨b.addr, if 20 < b.size - size then size else b.size, false⟩

/-- The block an allocation from `b` hands out. -/
def taken (b : Blk) (size : ℕ) (align : Bool) : Blk :=
  if align = true ∧ b.data % 4096 ≠ 0 then b.padded.takenOf size else b.takenOf size

theorem taken_padded (size : ℕ) (h : b.data % 4096 ≠ 0) :
    b.taken size true = b.padded.takenOf size := by rw [taken, if_pos ⟨rfl, h⟩]

theorem taken_split (size : ℕ) (h : ¬ (align = true ∧ b.data % 4096 ≠ 0)) :
    b.taken size align = b.takenOf size := by rw [taken, if_neg h]

@[simp] theorem takenOf_free : (b.takenOf size).free = false := rfl

@[simp] theorem taken_free : (b.taken size align).free = false := by
  unfold taken; split <;> rfl

theorem taken_data : (b.taken size align).data = b.carved align := by
  unfold taken carved
  split <;> simp only [takenOf, data]

theorem takenOf_size (h : size ≤ b.size) : size ≤ (b.takenOf size).size := by
  unfold takenOf
  dsimp only
  split
  · exact le_rfl
  · exact h

theorem taken_size (h : b.Fits size align) : size ≤ (b.taken size align).size := by
  unfold taken
  split
  next ha =>
    have := (h.2.2 ha.1).resolve_left ha.2
    exact takenOf_size (by simp only [padded]; omega)
  next => exact takenOf_size h.2.1

theorem taken_aligned : (b.taken size true).data % 4096 = 0 := by
  rw [taken_data]
  unfold carved
  split
  · exact b.padded_data_mod
  · next h => simpa using h

theorem split_eq (b : Blk) (size : ℕ) : (b.split size = [b.takenOf size]) ∨
    ∃ r, b.split size = [b.takenOf size, r] ∧ r.free = true := by
  unfold split takenOf
  by_cases h : 20 < b.size - size
  · exact Or.inr ⟨⟨b.addr + size + 20, b.size - size - 20, true⟩, by simp only [if_pos h], rfl⟩
  · exact Or.inl (by simp only [if_neg h])

theorem split_allocated : allocated (b.split size) = [b.takenOf size] := by
  rcases b.split_eq size with h | ⟨r, h, hr⟩
  · rw [h]; simp [allocated, used]
  · rw [h]; simp [allocated, used, hr]

theorem carve_allocated : allocated (b.carve size align) = [b.taken size align] := by
  by_cases h : align = true ∧ b.data % 4096 ≠ 0
  · obtain ⟨rfl, h⟩ := h
    rw [carve_padded size h, taken_padded size h, ← split_allocated]
    simp [allocated, used, padBlock]
  · rw [carve_split size h, taken_split size h]
    exact split_allocated

end Blk

/-- Carving a free block keeps the list coalesced. -/
theorem coalesced_carve {ls rs : List Blk} {b : Blk} {size : ℕ} {align : Bool}
    (hc : Coalesced (ls ++ b :: rs)) (hb : b.free = true) :
    Coalesced (ls ++ (b.carve size align ++ rs)) := by
  have hbu : used b = false := by simp [used, hb]
  obtain ⟨⟨hl, hlb⟩, hr, hrb⟩ := coalesced_append_cons.1 hc
  have hsplit : ∀ {c : Blk} {ls : List Blk}, Coalesced ls → Coalesced (ls ++ (c.split size ++ rs)) := by
    intro c ls hl
    have ht : used (c.takenOf size) = true := rfl
    rcases c.split_eq size with h | ⟨r, h, hrf⟩
    · rw [h]
      exact coalesced_append_cons.2 ⟨⟨hl, fun _ _ => Or.inr ht⟩, hr, fun _ _ => Or.inl ht⟩
    · rw [h]
      refine coalesced_append_cons.2 ⟨⟨hl, fun _ _ => Or.inr ht⟩, ?_, fun _ _ => Or.inl ht⟩
      exact List.isChain_cons.2 ⟨fun n hn => Or.inr ((hrb n hn).resolve_left (by simp [hbu])), hr⟩
  by_cases h : align = true ∧ b.data % 4096 ≠ 0
  · obtain ⟨rfl, h⟩ := h
    rw [Blk.carve_padded size h, List.cons_append, List.append_cons]
    refine hsplit (coalesced_append_cons.2 ⟨⟨hl, fun p hp => Or.inl ?_⟩, List.isChain_nil, by simp⟩)
    exact (hlb p hp).resolve_right (by simp [hbu])
  · rw [Blk.carve_split size h]
    exact hsplit hl

/-! ## Well-formed heaps -/

/-- The heap holds the blocks `bs`, fully coalesced and none in use empty. -/
structure KheapGood (base : ℕ) (h : Kheap) (bs : List Blk) : Prop where
  inv : KheapInv base h bs
  coalesced : Coalesced bs
  nonempty : ∀ b ∈ allocated bs, 0 < b.size

/-- The same for a region that ends at `limit`. -/
structure HeapGood (base limit : ℕ) (h : Kheap) (bs : List Blk) : Prop where
  inv : HeapInv base limit h bs
  coalesced : Coalesced bs
  nonempty : ∀ b ∈ allocated bs, 0 < b.size

theorem KheapGood.heap {base : ℕ} {h : Kheap} {bs : List Blk} (hg : KheapGood base h bs) :
    HeapGood base (base + kheapHeapSize) h bs := ⟨hg.inv.heap, hg.coalesced, hg.nonempty⟩

theorem HeapGood.kheap {base : ℕ} {h : Kheap} {bs : List Blk}
    (hg : HeapGood base (base + kheapHeapSize) h bs) : KheapGood base h bs :=
  ⟨hg.inv.kheap, hg.coalesced, hg.nonempty⟩

namespace HeapGood

variable {base limit size : ℕ} {h h' : Kheap} {bs ls rs : List Blk} {b c : Blk} {align : Bool}

/-- Bytes of payloads are the clients' own. -/
theorem write {m : Mem} (hg : HeapGood base limit h bs)
    (hm : ∀ x, ¬ NoHeader bs x → m x = h.mem x) : HeapGood base limit { h with mem := m } bs :=
  ⟨hg.inv.congr hm, hg.coalesced, hg.nonempty⟩

/-- Carving a free block that fits adds one allocated block and changes no payload. -/
theorem carve (hg : HeapGood base limit h (ls ++ b :: rs)) (h0 : 0 < size) (hf : b.Fits size align)
    (hi' : HeapInv base limit h' (ls ++ (b.carve size align ++ rs)))
    (hout : ∀ x, NoHeader (b.carve size align ++ rs) x → h'.mem x = h.mem x) :
    HeapGood base limit h' (ls ++ (b.carve size align ++ rs)) ∧
      (allocated (ls ++ (b.carve size align ++ rs))).Perm
        (b.taken size align :: allocated (ls ++ b :: rs)) ∧
      size ≤ (b.taken size align).size ∧
      ∀ c ∈ ls ++ (b.carve size align ++ rs), ∀ x, c.data ≤ x → x < c.stop → h'.mem x = h.mem x := by
  have hbu : used b = false := by simp [used, hf.1]
  have hperm : (allocated (ls ++ (b.carve size align ++ rs))).Perm
      (b.taken size align :: allocated (ls ++ b :: rs)) := by
    have hal : allocated (ls ++ b :: rs) = allocated ls ++ allocated rs := by simp [allocated, hbu]
    have hal' : allocated (ls ++ (b.carve size align ++ rs))
        = allocated ls ++ b.taken size align :: allocated rs := by
      rw [← List.singleton_append, ← Blk.carve_allocated]
      simp [allocated]
    rw [hal, hal']
    exact List.perm_middle
  refine ⟨⟨hi', coalesced_carve hg.coalesced hf.1, fun c hc => ?_⟩, hperm, Blk.taken_size hf,
    fun c hc x h1 h2 => ?_⟩
  · rcases List.mem_cons.1 (hperm.mem_iff.1 hc) with rfl | hc
    · exact h0.trans_le (Blk.taken_size hf)
    · exact hg.nonempty c hc
  · exact hout x (noHeader_append.1 (hi'.noHeader hc h1 h2)).2

/-- Releasing an allocated block takes it out of the allocated blocks and leaves the
    payloads of the others alone. -/
theorem release (hg : HeapGood base limit h bs) (hb : b ∈ allocated bs) :
    ∃ bs', HeapGood base limit (h.release b.addr) bs' ∧ (allocated bs).Perm (b :: allocated bs') ∧
      ∀ c ∈ allocated bs', ∀ x, c.data ≤ x → x < c.stop → (h.release b.addr).mem x = h.mem x := by
  obtain ⟨hi, hc, hn⟩ := hg
  obtain ⟨hb, hf⟩ := mem_allocated.1 hb
  obtain ⟨ls, rs, rfl⟩ := List.append_of_mem hb
  obtain ⟨bs', z, hi', hz, hzf, hal', hc', hout⟩ := Kheap.release_spec hi
  have hperm : (allocated (ls ++ b :: rs)).Perm (b :: allocated bs') := by
    have hbu : used b = true := by simp [used, hf]
    rw [allocated, allocated, hal']
    simp only [List.filter_append, List.filter_cons, hbu, if_true]
    exact List.perm_middle
  have hold : ∀ c ∈ allocated bs', c ∈ allocated (ls ++ b :: rs) := fun c hc =>
    hperm.mem_iff.2 (List.mem_cons_of_mem _ hc)
  refine ⟨bs', ⟨hi', hc' hc hf, fun c hc => hn c (hold c hc)⟩, hperm, fun c hc x h1 h2 => ?_⟩
  refine hout x (hi.noHeader (mem_allocated.1 (hold c hc)).1 h1 h2) ?_
  -- an allocated block and the free block that was cleared do not overlap
  obtain ⟨hcm, hcf⟩ := mem_allocated.1 hc
  rcases hi'.tiles.apart hcm hz with rfl | h | h
  · rw [hzf] at hcf; cases hcf
  · simp only [Piece.hi, Piece.lo, Blk.stop, Blk.data] at h h2 ⊢; omega
  · simp only [Piece.hi, Piece.lo, Blk.stop, Blk.data] at h h1 ⊢; omega

end HeapGood

namespace HeapInv

variable {base limit x : ℕ} {h : Kheap} {bs : List Blk} {b c : Blk}

/-- The header behind a payload pointer. -/
theorem block_of_mem (hi : HeapInv base limit h bs) (hb : b ∈ bs) :
    sub32 b.data 20 = b.addr ∧ (h.mem.block b.addr).size = b.size := by
  have hbd := hi.bounds
  have hrg := hi.mem_range hb
  refine ⟨?_, (hi.linked.magic b hb).2.1⟩
  rw [sub32_of_le (by simp [Blk.data]) (by simp only [Blk.data]; omega)]
  simp [Blk.data]

/-- A header is in no payload. -/
theorem out_of_header (hi : HeapInv base limit h bs) (hb : b ∈ bs) (hx : ¬ NoHeader bs x) :
    x < b.data ∨ b.stop ≤ x := by
  by_contra hc
  exact hx (hi.noHeader hb (by omega) (by omega))

/-- Two blocks of the heap have disjoint payloads. -/
theorem payload_disjoint (hi : HeapInv base limit h bs) (hb : b ∈ bs) (hc : c ∈ bs) (hne : c ≠ b)
    (h1 : c.data ≤ x) (h2 : x < c.stop) : x < b.data ∨ b.stop ≤ x := by
  rcases hi.tiles.apart hc hb with rfl | h | h
  · exact absurd rfl hne
  · simp only [Piece.hi, Piece.lo, Blk.stop, Blk.data] at h h2 ⊢; omega
  · simp only [Piece.hi, Piece.lo, Blk.stop, Blk.data] at h h1 ⊢; omega

end HeapInv

/-- Bytes of payloads are the clients' own. -/
theorem KheapGood.write {base : ℕ} {h : Kheap} {bs : List Blk} {m : Mem} (hg : KheapGood base h bs)
    (hm : ∀ x, ¬ NoHeader bs x → m x = h.mem x) : KheapGood base { h with mem := m } bs :=
  (hg.heap.write hm).kheap

namespace Kheap

variable {base size : ℕ} {h : Kheap} {bs : List Blk} {b c : Blk} {align : Bool}

theorem kheapInit_spec {h₀ : Kheap} (hr : KheapRegion base) (h1 : kheapInit h₀ base = some h) :
    KheapGood base h [⟨base, kheapHeapSize - 20, true⟩] := by
  have hb : base ≠ 0 := hr.lo.ne'
  unfold kheapInit at h1
  rw [if_neg hb] at h1
  obtain rfl := Option.some.inj h1
  have hstop : Blk.stop ⟨base, kheapHeapSize - 20, true⟩ = base + kheapHeapSize := by
    show base + 20 + (0x2000000 - 20) = base + 0x2000000
    omega
  refine ⟨⟨hr, rfl, rfl, rfl, rfl, ⟨?_, trivial⟩, rfl, ?_, hstop⟩, List.isChain_singleton _, ?_⟩
  · simp [HeaderAt, kheapMagic, kheapHeapSize]
  · show base < Blk.stop _
    rw [hstop]
    simp only [kheapHeapSize]
    omega
  · simp [allocated, used]

/-- **Allocation.** It returns `NULL` and changes nothing, or returns the
    payload of a new block that is large enough and aligned as requested; no
    payload changes. -/
theorem kmallocInt_spec (hg : KheapGood base h bs) (size : ℕ) (align : Bool) :
    kmallocInt h size align = some (0, h) ∨
    ∃ b h' bs', kmallocInt h size align = some (b.data, h') ∧ KheapGood base h' bs' ∧
      (allocated bs').Perm (b :: allocated bs) ∧
      0 < size ∧ size ≤ b.size ∧ (align = true → b.data % 4096 = 0) ∧
      ∀ c ∈ bs', ∀ x, c.data ≤ x → x < c.stop → h'.mem x = h.mem x := by
  have hi := hg.inv
  have he : kmallocInt h size align = kmallocHeap h size align := if_pos hi.enabled
  rw [he]
  rcases kmallocHeap_spec hi size align with ⟨h1, -⟩ | ⟨ls, b, rs, h', rfl, h0, hf, h1, hi', hout⟩
  · exact Or.inl h1
  obtain ⟨hg', hperm, hs, hkeep⟩ := hg.heap.carve h0 hf hi'.heap hout
  refine Or.inr ⟨b.taken size align, h', _, ?_, hg'.kheap, hperm, h0, hs, ?_, hkeep⟩
  · rw [h1, Blk.taken_data]
  · rintro rfl
    exact Blk.taken_aligned

/-- **Freeing** an allocated block takes it out of the allocated blocks and leaves
    the payloads of the others alone. -/
theorem kfree_good (hg : KheapGood base h bs) (hb : b ∈ allocated bs) :
    ∃ bs', KheapGood base (kfree h b.data) bs' ∧ (allocated bs).Perm (b :: allocated bs') ∧
      ∀ c ∈ allocated bs', ∀ x, c.data ≤ x → x < c.stop → (kfree h b.data).mem x = h.mem x := by
  rw [kfree_eq hg.inv (mem_allocated.1 hb).1 (hg.nonempty b hb)]
  obtain ⟨bs', hg', h⟩ := hg.heap.release hb
  exact ⟨bs', hg'.kheap, h⟩

/-- `kfree` ignores what is not the payload of a block. -/
theorem kfree_of_invalid {p : ℕ} (hv : h.kheapIsValidHeapAddress p = false) : kfree h p = h := by
  unfold kfree
  split
  · rfl
  · rw [hv]
    exact if_pos rfl

theorem kfree_of_magic {p : ℕ} (hm : (h.mem.block (sub32 p 20)).magic ≠ kheapMagic) : kfree h p = h := by
  refine kfree_of_invalid ?_
  unfold kheapIsValidHeapAddress
  split
  · rfl
  split
  · simpa using hm
  · rfl

/-- **Freeing the same pointer a second time in a row changes nothing.** -/
theorem kfree_twice (hg : KheapGood base h bs) (hb : b ∈ allocated bs) :
    kfree (kfree h b.data) b.data = kfree h b.data := by
  have hbm := (mem_allocated.1 hb).1
  obtain ⟨hsub, -⟩ := hg.inv.heap.block_of_mem hbm
  rw [kfree_eq hg.inv hbm (hg.nonempty b hb)]
  obtain ⟨ls, rs, rfl⟩ := List.append_of_mem hbm
  rcases release_again hg.inv.heap hg.coalesced with hm | hm
  · -- the header was cleared with the payload of the block before
    refine kfree_of_magic ?_
    rw [hsub, hm]
    simp [kheapMagic]
  · by_cases hv : (h.release b.addr).kheapIsValidHeapAddress b.data = true
    · rw [kfree_of_valid (by simp [Blk.data]) hsub hv, hm]
    · exact kfree_of_invalid (Bool.eq_false_iff.2 hv)

/-- `kcalloc` clears the payload it returns. -/
theorem kcalloc_spec (hg : KheapGood base h bs) (num size : ℕ) :
    kcalloc h num size = some (0, h) ∨
    ∃ b h' bs', kcalloc h num size = some (b.data, h') ∧ KheapGood base h' bs' ∧
      (allocated bs').Perm (b :: allocated bs) ∧ u32 (num * size) ≤ b.size ∧
      (∀ i < u32 (num * size), h'.mem (b.data + i) = 0) ∧
      ∀ c ∈ bs', c ≠ b → ∀ x, c.data ≤ x → x < c.stop → h'.mem x = h.mem x := by
  unfold kcalloc kmalloc
  rcases kmallocInt_spec hg (u32 (num * size)) false with
    h1 | ⟨b, h', bs', h1, hg', hperm, h0, hs, -, hout⟩
  · exact Or.inl (by rw [h1]; rfl)
  rw [h1]
  have hb : b ∈ bs' := (mem_allocated.1 (hperm.mem_iff.2 (by simp))).1
  have hptr : b.data ≠ 0 := by simp [Blk.data]
  have hstop : b.data + u32 (num * size) ≤ b.stop := by simp only [Blk.data, Blk.stop]; omega
  refine Or.inr ⟨b, _, bs', if_pos hptr, hg'.write fun x hx => ?_, hperm, hs, fun i hi => ?_,
    fun c hc hne x h1 h2 => ?_⟩
  · have := hg'.inv.heap.out_of_header hb hx
    exact Mem.fill_out (by omega)
  · exact Mem.fill_in (by omega) (by omega)
  · have := hg'.inv.heap.payload_disjoint hb hc hne h1 h2
    exact (Mem.fill_out (by omega)).trans (hout c hc x h1 h2)

/-- `krealloc` on a block that is too small, once the new block is there: copy the payload and
free the old block. -/
theorem krealloc_move (hg : KheapGood base h bs) (hb : b ∈ allocated bs) (hs : b.size < size)
    {h₁ : Kheap} {bs₁ : List Blk} (hk : kmallocInt h size false = some (c.data, h₁))
    (hg₁ : KheapGood base h₁ bs₁) (hp : (allocated bs₁).Perm (c :: allocated bs)) (hcs : size ≤ c.size) :
    krealloc h b.data size =
        some (c.data, kfree { h₁ with mem := h₁.mem.copy c.data b.data b.size } b.data) ∧
      KheapGood base { h₁ with mem := h₁.mem.copy c.data b.data b.size } bs₁ := by
  have hbm := (mem_allocated.1 hb).1
  obtain ⟨hsub, hsize⟩ := hg.inv.heap.block_of_mem hbm
  have hvalid := kheapIsValidHeapAddress_of_mem hg.inv hbm (hg.nonempty b hb)
  have hptr : b.data ≠ 0 := by simp [Blk.data]
  have hcptr : c.data ≠ 0 := by simp [Blk.data]
  have h0 : size ≠ 0 := by omega
  have hcm₁ : c ∈ bs₁ := (mem_allocated.1 (hp.mem_iff.2 List.mem_cons_self)).1
  have hbm₁ := (mem_allocated.1 (hp.mem_iff.2 (List.mem_cons_of_mem _ hb))).1
  have hsize₁ := (hg₁.inv.heap.block_of_mem hbm₁).2
  have hstop : c.data + b.size ≤ c.stop := by simp only [Blk.data, Blk.stop]; omega
  constructor
  · unfold krealloc kmalloc
    simp only [hptr, h0, hvalid, hsub, hsize, not_le.2 hs, if_false, Bool.not_true, Bool.false_eq_true,
      hk, hcptr, hsize₁]
  · refine hg₁.write fun x hx => Mem.copy_out ?_
    have := hg₁.inv.heap.out_of_header hcm₁ hx
    omega

/-- `krealloc` on a block that is too small, when there is no new block. -/
theorem krealloc_null (hg : KheapGood base h bs) (hb : b ∈ allocated bs) (hs : b.size < size)
    (hk : kmallocInt h size false = some (0, h)) : krealloc h b.data size = some (0, h) := by
  obtain ⟨hsub, hsize⟩ := hg.inv.heap.block_of_mem (mem_allocated.1 hb).1
  have hvalid := kheapIsValidHeapAddress_of_mem hg.inv (mem_allocated.1 hb).1 (hg.nonempty b hb)
  have hptr : b.data ≠ 0 := by simp [Blk.data]
  have h0 : size ≠ 0 := by omega
  unfold krealloc kmalloc
  simp only [hptr, h0, hvalid, hsub, hsize, not_le.2 hs, if_false, Bool.not_true, Bool.false_eq_true,
    hk, if_true]

/-- `krealloc` on a block that is too small: a new block that starts with the old
    payload, and the old block freed.  On failure nothing changes. -/
theorem krealloc_grow (hg : KheapGood base h bs) (hb : b ∈ allocated bs) (hs : b.size < size) :
    krealloc h b.data size = some (0, h) ∨
    ∃ c h' bs', krealloc h b.data size = some (c.data, h') ∧ KheapGood base h' bs' ∧
      (b :: allocated bs').Perm (c :: allocated bs) ∧ size ≤ c.size ∧ c.data ≠ b.data ∧
      (∀ i < b.size, h'.mem (c.data + i) = h.mem (b.data + i)) ∧
      ∀ d ∈ allocated bs', d ≠ c → ∀ x, d.data ≤ x → x < d.stop → h'.mem x = h.mem x := by
  have hbm := (mem_allocated.1 hb).1
  rcases kmallocInt_spec hg size false with h1 | ⟨c, h₁, bs₁, h1, hg₁, hperm, -, hcs, -, hout⟩
  · exact Or.inl (krealloc_null hg hb hs h1)
  obtain ⟨heq, hg₂⟩ := krealloc_move hg hb hs h1 hg₁ hperm hcs
  have hcm₁ : c ∈ bs₁ := (mem_allocated.1 (hperm.mem_iff.2 (by simp))).1
  have hb₁ : b ∈ allocated bs₁ := hperm.mem_iff.2 (List.mem_cons_of_mem _ hb)
  have hbm₁ := (mem_allocated.1 hb₁).1
  have hbc : b ≠ c := by rintro rfl; omega
  have hstop : c.data + b.size ≤ c.stop := by simp only [Blk.data, Blk.stop]; omega
  obtain ⟨bs₃, hg₃, hperm₃, hout₃⟩ := kfree_good hg₂ hb₁
  have hmem₃ : ∀ d ∈ allocated bs₃, d ∈ bs₁ := fun d hd =>
    (mem_allocated.1 (hperm₃.mem_iff.2 (List.mem_cons_of_mem _ hd))).1
  have hc₃ : c ∈ allocated bs₃ := by
    have := hperm₃.mem_iff.1 (hperm.mem_iff.2 (List.mem_cons_self ..))
    exact (List.mem_cons.1 this).resolve_left (fun h => hbc h.symm)
  refine Or.inr ⟨c, _, bs₃, heq, hg₃, hperm₃.symm.trans hperm, hcs, fun hd => ?_, fun i hi => ?_,
    fun d hd hne x h1 h2 => ?_⟩
  · rcases hg₁.inv.tiles.apart hcm₁ hbm₁ with h | h | h
    · exact hbc h.symm
    · simp only [Piece.hi, Piece.lo, Blk.stop, Blk.data] at h hd; omega
    · simp only [Piece.hi, Piece.lo, Blk.stop, Blk.data] at h hd; omega
  · rw [hout₃ c hc₃ _ (by omega) (by omega)]
    have hsrc : c.data + i - c.data = i := by omega
    show h₁.mem.copy c.data b.data b.size (c.data + i) = _
    rw [Mem.copy_in (by omega) (by omega), hsrc]
    exact hout b hbm₁ _ (by omega) (by simp only [Blk.data, Blk.stop]; omega)
  · rw [hout₃ d hd x h1 h2]
    have := hg₁.inv.heap.payload_disjoint hcm₁ (hmem₃ d hd) hne h1 h2
    exact (Mem.copy_out (by omega)).trans (hout d (hmem₃ d hd) x h1 h2)

end Kheap

/-! ## The block list is canonical -/

/-- **The allocated blocks determine the block list.** -/
theorem KheapGood.canonical {base : ℕ} {h h' : Kheap} {bs bs' : List Blk}
    (hg : KheapGood base h bs) (hg' : KheapGood base h' bs')
    (hp : (allocated bs).Perm (allocated bs')) : bs = bs' := by
  refine Tiles.ext (fun x y => Blk.ext_piece) hg.inv.tiles hg'.inv.tiles hg.coalesced hg'.coalesced ?_
  -- both lists of allocated blocks are in address order
  have hs : (allocated bs).Pairwise fun x y => x.stop ≤ y.addr := hg.inv.tiles.pairwise.filter _
  have hs' : (allocated bs').Pairwise fun x y => x.stop ≤ y.addr := hg'.inv.tiles.pairwise.filter _
  refine hp.eq_of_pairwise (fun a b ha hb h1 h2 => ?_) hs hs'
  simp only [Blk.stop] at h1 h2
  omega

end Ttos
