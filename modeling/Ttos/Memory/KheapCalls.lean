/-
  What the callers of `kfree` and `krealloc` rely on.

  * `kheap_double_free`: a second `kfree` in a row changes nothing.
  * `kheap_krealloc`: `krealloc` keeps the data, and changes nothing when it fails.
-/
import Ttos.Memory.KheapPolicy

namespace Ttos

/-- `p` is the payload of a block in use. -/
def Kheap.Allocated (h : Kheap) (p : ℕ) : Prop :=
  ∃ bs, h.blocks = some bs ∧ ∃ b ∈ bs, b.free = false ∧ b.addr + 20 = p

/-- A `krealloc` that returned the new block `r`: it is large enough and starts with the
    old data, `p` is free, and no other block in use changed. -/
structure Kheap.Reallocated (h : Kheap) (p size r : ℕ) (h' : Kheap) : Prop where
  nonnull : r ≠ 0
  fresh : ¬ h.Allocated r
  large : size ≤ h'.payloadSize r
  data : ∀ i < h.payloadSize p, h'.mem (r + i) = h.mem (p + i)
  inUse : ∀ q, h'.Allocated q ↔ q = r ∨ h.Allocated q ∧ q ≠ p
  others : ∀ q, h.Allocated q → q ≠ p → h'.payloadSize q = h.payloadSize q ∧
    ∀ i < h.payloadSize q, h'.mem (q + i) = h.mem (q + i)

namespace Kheap

variable {base size p : ℕ} {h h' : Kheap} {bs bs' : List Blk} {b c : Blk}

theorem allocated_iff (hg : KheapGood base h bs) :
    h.Allocated p ↔ p ∈ (Ttos.allocated bs).map Blk.data := by
  rw [List.mem_map]
  constructor
  · rintro ⟨bs', hbs, b, hb, hf, hp⟩
    obtain rfl : bs = bs' := by simpa [blocks_eq hg.inv] using hbs
    exact ⟨b, mem_allocated.2 ⟨hb, hf⟩, hp⟩
  · rintro ⟨b, hb, hp⟩
    obtain ⟨hb, hf⟩ := mem_allocated.1 hb
    exact ⟨bs, blocks_eq hg.inv, b, hb, hf, hp⟩

/-- The pointers in use, after one block was exchanged for another. -/
theorem exchanged_data (hg : KheapGood base h bs) (hg' : KheapGood base h' bs')
    (hbc : c.data ≠ b.data)
    (hp : (b :: Ttos.allocated bs').Perm (c :: Ttos.allocated bs)) :
    c.data ∉ (Ttos.allocated bs).map Blk.data ∧
      ∀ q, q ∈ (Ttos.allocated bs').map Blk.data ↔
        q = c.data ∨ q ∈ (Ttos.allocated bs).map Blk.data ∧ q ≠ b.data := by
  have hd : (b.data :: (Ttos.allocated bs').map Blk.data).Perm
      (c.data :: (Ttos.allocated bs).map Blk.data) := hp.map Blk.data
  have hn := HeapRun.Inv.nodup hg
  have hn' := HeapRun.Inv.nodup hg'
  -- the list without the old pointer is the list after the exchange without the new one
  have hmem : c.data ∈ (Ttos.allocated bs').map Blk.data :=
    (List.mem_cons.1 (hd.mem_iff.2 (List.mem_cons_self ..))).resolve_left hbc
  have hperm := hd.erase b.data
  rw [List.erase_cons_head, List.erase_cons_tail (by simpa using hbc)] at hperm
  refine ⟨fun hin => ?_, fun q => ?_⟩
  · refine (List.nodup_cons.1 (hperm.nodup_iff.1 hn')).1 ?_
    exact (List.mem_erase_of_ne hbc).2 hin
  · rw [hperm.mem_iff, List.mem_cons, hn.mem_erase_iff, and_comm (a := q ≠ b.data)]

theorem reallocated_of_perm (hg : KheapGood base h bs) (hg' : KheapGood base h' bs')
    (hb : b ∈ Ttos.allocated bs) (hcs : size ≤ c.size) (hbc : c.data ≠ b.data)
    (hp : (b :: Ttos.allocated bs').Perm (c :: Ttos.allocated bs))
    (hdata : ∀ i < b.size, h'.mem (c.data + i) = h.mem (b.data + i))
    (hout : ∀ d ∈ Ttos.allocated bs', d ≠ c → ∀ x, d.data ≤ x → x < d.stop → h'.mem x = h.mem x) :
    Reallocated h b.data size c.data h' := by
  obtain ⟨hfresh, hin⟩ := exchanged_data hg hg' hbc hp
  have hsize : ∀ d ∈ Ttos.allocated bs, h.payloadSize d.data = d.size := fun d hd =>
    HeapRun.Inv.payloadSize_eq hg (mem_allocated.1 hd).1
  have hsize' : ∀ d ∈ Ttos.allocated bs', h'.payloadSize d.data = d.size := fun d hd =>
    HeapRun.Inv.payloadSize_eq hg' (mem_allocated.1 hd).1
  have hc : c ∈ Ttos.allocated bs' := by
    refine (List.mem_cons.1 (hp.mem_iff.2 (List.mem_cons_self ..))).resolve_left ?_
    rintro rfl
    exact hbc rfl
  refine ⟨by simp [Blk.data], fun hal => hfresh ((allocated_iff hg).1 hal), ?_, fun i hi => ?_,
    fun q => ?_, fun q hq hne => ?_⟩
  · rw [hsize' c hc]
    exact hcs
  · rw [hsize b hb] at hi
    exact hdata i hi
  · rw [allocated_iff hg', allocated_iff hg]
    exact hin q
  · obtain ⟨d, hd, rfl⟩ := List.mem_map.1 ((allocated_iff hg).1 hq)
    have hdb : d ≠ b := fun h => hne (congrArg Blk.data h)
    have hdc : d ≠ c := by
      rintro rfl
      exact hfresh (List.mem_map_of_mem hd)
    have hd' : d ∈ Ttos.allocated bs' :=
      (List.mem_cons.1 (hp.mem_iff.2 (List.mem_cons_of_mem _ hd))).resolve_left hdb
    rw [hsize d hd, hsize' d hd']
    refine ⟨rfl, fun i hi => hout d hd' hdc _ (by omega) ?_⟩
    simp only [Blk.stop, Blk.data]
    omega

/-- What `krealloc` does on a block in use. -/
theorem krealloc_cases (hg : KheapGood base h bs) (hb : b ∈ Ttos.allocated bs) (size : ℕ) :
    ∃ r h', h.krealloc b.data size = some (r, h') ∧
      (size = 0 → r = 0 ∧ h' = h.kfree b.data) ∧
      (0 < size → size ≤ b.size → r = b.data ∧ h' = h) ∧
      (b.size < size → (r = 0 ∧ h' = h) ∨ Reallocated h b.data size r h') := by
  have hbm := (mem_allocated.1 hb).1
  have h0 : b.data ≠ 0 := by simp [Blk.data]
  rcases Nat.eq_zero_or_pos size with rfl | hpos
  · refine ⟨0, h.kfree b.data, ?_, fun _ => ⟨rfl, rfl⟩, fun h => absurd h (lt_irrefl 0),
      fun h => absurd h (Nat.not_lt_zero _)⟩
    rw [krealloc, if_neg h0, if_pos rfl]
  by_cases hs : size ≤ b.size
  · obtain ⟨h1, h2⟩ := hg.inv.heap.block_of_mem hbm
    have hv := kheapIsValidHeapAddress_of_mem hg.inv hbm (hg.nonempty b hb)
    refine ⟨b.data, h, ?_, fun h => absurd h hpos.ne', fun _ _ => ⟨rfl, rfl⟩,
      fun h => absurd hs (not_le.2 h)⟩
    rw [krealloc, if_neg h0, if_neg hpos.ne', hv]
    simp [h1, h2, hs]
  · rcases krealloc_grow hg hb (not_le.1 hs) with h1 | ⟨c, h', bs', h1, hg', hp, hcs, hne, hdata, hout⟩
    · exact ⟨0, h, h1, fun h => absurd h hpos.ne', fun _ h => absurd h hs,
        fun _ => Or.inl ⟨rfl, rfl⟩⟩
    · exact ⟨c.data, h', h1, fun h => absurd h hpos.ne', fun _ h => absurd h hs,
        fun _ => Or.inr (reallocated_of_perm hg hg' hb hcs hne hp hdata hout)⟩

/-- A freed block is not in use any more. -/
theorem not_allocated_kfree (hg : KheapGood base h bs) (hb : b ∈ Ttos.allocated bs) :
    ¬ (h.kfree b.data).Allocated b.data := by
  obtain ⟨bs', hg', hp, -⟩ := kfree_good hg hb
  rw [allocated_iff hg']
  have hn := HeapRun.Inv.nodup hg
  rw [(hp.map Blk.data).nodup_iff, List.map_cons, List.nodup_cons] at hn
  exact hn.1

end Kheap

variable {base p : ℕ} {s : HeapRun}

/-- **Freeing the same pointer twice in a row** leaves the heap, every byte of it, as the
    first `kfree` left it. -/
theorem kheap_double_free (hr : (heapSystem base).Reachable s) (hp : p ∈ s.live) :
    (s.heap.kfree p).kfree p = s.heap.kfree p := by
  obtain ⟨bs, hi⟩ := HeapRun.reachable_inv hr
  obtain ⟨b, hb, rfl⟩ := hi.mem_live.1 hp
  exact Kheap.kfree_twice hi.good hb

/-- **`krealloc` keeps the data and fails safely**, for every pointer a client holds. -/
theorem kheap_krealloc (hr : (heapSystem base).Reachable s) (hp : p ∈ s.live) (size : ℕ) :
    s.heap.Allocated p ∧ ∃ r h', s.heap.krealloc p size = some (r, h') ∧
      (size = 0 → r = 0 ∧ h' = s.heap.kfree p ∧ ¬ h'.Allocated p) ∧
      (0 < size → size ≤ s.heap.payloadSize p → r = p ∧ h' = s.heap) ∧
      (s.heap.payloadSize p < size →
        (r = 0 ∧ h' = s.heap) ∨ Kheap.Reallocated s.heap p size r h') := by
  obtain ⟨bs, hi⟩ := HeapRun.reachable_inv hr
  obtain ⟨b, hb, rfl⟩ := hi.mem_live.1 hp
  obtain ⟨r, h', heq, hz, hs, hl⟩ := Kheap.krealloc_cases hi.good hb size
  rw [HeapRun.Inv.payloadSize_eq hi.good (mem_allocated.1 hb).1]
  refine ⟨(Kheap.allocated_iff hi.good).2 (List.mem_map_of_mem hb), r, h', heq, fun h0 => ?_, hs, hl⟩
  obtain ⟨hr0, rfl⟩ := hz h0
  exact ⟨hr0, rfl, Kheap.not_allocated_kfree hi.good hb⟩

/-- The first of three clients frees its block twice. -/
theorem kheap_double_free_small : ∃ s, threeClients = some s ∧
    (s.heap.kfree 0xD0000014).kfree 0xD0000014 = s.heap.kfree 0xD0000014 := by
  obtain ⟨s, hs, hr, hlive⟩ := threeClients_reachable
  exact ⟨s, hs, kheap_double_free hr (by rw [hlive]; decide)⟩

/-- The first of three clients gets a block of 200 bytes for its 100. -/
theorem kheap_krealloc_small : ∃ s r h', threeClients = some s ∧
    s.heap.krealloc 0xD0000014 200 = some (r, h') ∧ Kheap.Reallocated s.heap 0xD0000014 200 r h' := by
  obtain ⟨s, hs, hr, hlive⟩ := threeClients_reachable
  obtain ⟨-, r, h', heq, -, -, hlarge⟩ :=
    kheap_krealloc (p := 0xD0000014) hr (by rw [hlive]; decide) 200
  have hcall : threeClients.map (fun s => (s.heap.payloadSize 0xD0000014,
      (s.heap.krealloc 0xD0000014 200).map Prod.fst)) = some (100, some 0xD00000B8) := by
    decide +kernel
  rw [hs] at hcall
  obtain ⟨hsize, hptr⟩ := Prod.mk.inj (Option.some.inj hcall)
  rw [heq] at hptr
  have hr : r = 0xD00000B8 := Option.some.inj hptr
  refine ⟨s, r, h', hs, heq, (hlarge (by omega)).resolve_left fun hnull => ?_⟩
  rw [hnull.1] at hr
  exact absurd hr (by decide)

end Ttos
