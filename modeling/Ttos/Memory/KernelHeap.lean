/-
  The kernel heap as an allocator, from the boot phase on.

  Before `kheap_init` the pointers come from the placement memory and are never
  reused; afterwards they are the payloads of the heap's allocated blocks.
  `KernelHeap` carries the invariant of either phase, so its functions keep the
  allocator contract without further hypotheses.
-/
import Ttos.Lib.Allocator
import Ttos.Memory.KheapRun

namespace Ttos

open Kheap

/-- The placement memory: what was handed out lies below `placement_head`, and
    nothing wraps around the end of the address space. -/
structure PlacementInv (h : Kheap) (placed : List ℕ) : Prop where
  disabled : h.enabled = false
  bound : h.placementHead + h.placementFree < 4294967296
  below : ∀ p ∈ placed, p < h.placementHead

/-- The heap proper: a well-formed heap, apart from what was placed before it. -/
structure InitializedInv (s : HeapRun) (placed : List ℕ) : Prop where
  inv : ∃ bs, s.Inv s.heap.base bs
  apart : ∀ p ∈ placed, p < s.heap.base ∨ s.heap.base + kheapHeapSize ≤ p

theorem InitializedInv.enabled {s : HeapRun} {placed : List ℕ} (h : InitializedInv s placed) :
    s.heap.enabled = true := by
  obtain ⟨bs, hi⟩ := h.inv
  exact hi.good.inv.enabled

/-- The kernel heap with the pointers its clients hold: `run.live` from the heap,
    `placed` from the placement memory. -/
structure KernelHeap where
  run : HeapRun
  placed : List ℕ
  nonnull : 0 ∉ placed
  phase : (run.live = [] ∧ PlacementInv run.heap placed) ∨ InitializedInv run placed

namespace KernelHeap

variable {k : KernelHeap} {p q size : ℕ} {align : Bool}

/-- The pointers clients hold. -/
def Live (k : KernelHeap) (p : ℕ) : Prop := p ∈ k.run.live ∨ p ∈ k.placed

instance (k : KernelHeap) (p : ℕ) : Decidable (k.Live p) := inferInstanceAs (Decidable (_ ∨ _))

/-! ## Allocation -/

/-- What the placement allocator does to its two counters: nothing, or it moves
    both by the padded size. -/
theorem kmallocPlacement_cases (h : Kheap) (size : ℕ) (align : Bool) :
    kmallocPlacement h size align = (0, h) ∨
    ∃ a n, kmallocPlacement h size align
        = (a, { h with placementHead := u32 (h.placementHead + n),
                       placementFree := h.placementFree - n }) ∧
      n ≤ h.placementFree ∧
      (h.placementHead + h.placementFree < 4294967296 → Request size → a ≠ 0 →
        h.placementHead ≤ a ∧ a < h.placementHead + n) := by
  cases align with
  | false =>
    by_cases hf : h.placementFree < size
    · exact Or.inl (by simp [kmallocPlacement, hf])
    · refine Or.inr ⟨h.placementHead, size, by simp [kmallocPlacement, hf], not_lt.1 hf, ?_⟩
      rintro - ⟨hs, -⟩ -
      omega
  | true =>
    by_cases hf : h.placementFree < u32 (size + sub32 (vmmAlignUp h.placementHead) h.placementHead)
    · exact Or.inl (by simp [kmallocPlacement, hf])
    · refine Or.inr ⟨vmmAlignUp h.placementHead, _, by simp [kmallocPlacement, hf], not_lt.1 hf, ?_⟩
      rintro hb ⟨hs, hs'⟩ h0
      -- an aligned address that wrapped would be `NULL`
      have hw : h.placementHead + 4095 < 4294967296 := by
        by_contra hc
        refine h0 ?_
        simp only [vmmAlignUp, u32]
        omega
      simp only [vmmAlignUp, sub32, u32] at h0 ⊢
      omega

theorem not_mem_grant {ptr : ℕ} {l : List ℕ} (h : 0 ∉ l) : 0 ∉ HeapRun.grant ptr l := by
  unfold HeapRun.grant
  split
  · exact h
  · simp only [List.mem_cons, not_or]
    exact ⟨fun h0 => by simp_all, h⟩

theorem mem_grant {ptr : ℕ} {l : List ℕ} : q ∈ HeapRun.grant ptr l ↔ q ∈ l ∨ ptr ≠ 0 ∧ q = ptr := by
  unfold HeapRun.grant
  split <;> simp_all [or_comm]

/-- The placement memory after an allocation. -/
theorem placement_alloc {h : Kheap} {placed : List ℕ} (hp : PlacementInv h placed)
    (size : ℕ) (align : Bool) : PlacementInv (kmallocPlacement h size align).2
      (if Request size then HeapRun.grant (kmallocPlacement h size align).1 placed else placed) := by
  obtain ⟨hd, hb, hl⟩ := hp
  rcases kmallocPlacement_cases h size align with h1 | ⟨a, n, h1, hn, ha⟩
  · rw [h1]
    exact ⟨hd, hb, fun p hp => hl p (by simpa [HeapRun.grant] using hp)⟩
  · rw [h1]
    have hu : u32 (h.placementHead + n) = h.placementHead + n := u32_of_lt (by omega)
    refine ⟨hd, ?_, fun p hp => ?_⟩
    · show u32 (h.placementHead + n) + (h.placementFree - n) < 4294967296
      omega
    · show p < u32 (h.placementHead + n)
      rw [hu]
      split at hp
      · rename_i hr
        rcases mem_grant.1 hp with hp | ⟨h0, rfl⟩
        · exact (hl p hp).trans_le (Nat.le_add_right _ _)
        · exact (ha hb hr h0).2
      · exact (hl p hp).trans_le (Nat.le_add_right _ _)

/-- The heap proper after an allocation. -/
theorem initialized_alloc {s : HeapRun} {placed : List ℕ} (hi : InitializedInv s placed)
    (size : ℕ) (align : Bool) : ∃ r, s.heap.kmallocInt size align = some r ∧
      InitializedInv ⟨r.2, HeapRun.grant r.1 s.live⟩ placed ∧
      (r.1 ≠ 0 → r.1 ∉ s.live ∧ r.1 ∉ placed) := by
  obtain ⟨⟨bs, hb⟩, hpl⟩ := hi
  rcases HeapRun.served_kmallocInt hb.good size align with h1 | ⟨b, h', bs', h1, hg', hp, -⟩
  · exact ⟨_, h1, ⟨⟨bs, hb⟩, hpl⟩, fun h => absurd rfl h⟩
  · have hbase : h'.base = s.heap.base := hg'.inv.base_eq
    have hbm : b ∈ allocated bs' := hp.mem_iff.2 (List.mem_cons_self ..)
    refine ⟨_, h1, ⟨⟨bs', ?_, HeapRun.Inv.grant_perm hb.live hp⟩, fun p hm => ?_⟩, fun h0 => ⟨?_, ?_⟩⟩
    · show KheapGood h'.base h' bs'
      rwa [hbase]
    · show p < h'.base ∨ h'.base + kheapHeapSize ≤ p
      rw [hbase]
      exact hpl p hm
    · intro hl
      obtain ⟨c, hc, hcb⟩ := hb.mem_live.1 hl
      have hc' : c ∈ allocated bs' := hp.mem_iff.2 (List.mem_cons_of_mem _ hc)
      refine HeapRun.Inv.ne_of_allocated hg' hp hc ?_
      exact HeapRun.Inv.data_inj hg' (mem_allocated.1 hc').1 (mem_allocated.1 hbm).1 hcb
    · intro hm
      have h2 := hpl _ hm
      have h3 := hg'.inv.mem_range (mem_allocated.1 hbm).1
      have h4 := hg'.nonempty b hbm
      simp only [Blk.data] at h2
      omega

theorem kmallocInt_isSome (k : KernelHeap) (size : ℕ) (align : Bool) :
    (k.run.heap.kmallocInt size align).isSome := by
  rcases k.phase with ⟨-, hp⟩ | hi
  · simp [Kheap.kmallocInt, hp.disabled]
  · obtain ⟨r, h1, -⟩ := initialized_alloc hi size align
    rw [h1]; rfl

/-- `kmalloc` (`align = false`) and `kmalloc_a` (`align = true`): the pointer, or `0`. -/
def alloc (k : KernelHeap) (size : ℕ) (align : Bool) : ℕ × KernelHeap :=
  let r := (k.run.heap.kmallocInt size align).get (k.kmallocInt_isSome size align)
  (r.1,
    { run := ⟨r.2, if k.run.heap.enabled then HeapRun.grant r.1 k.run.live else k.run.live⟩
      placed := if !k.run.heap.enabled ∧ Request size then HeapRun.grant r.1 k.placed else k.placed
      nonnull := by
        split
        · exact not_mem_grant k.nonnull
        · exact k.nonnull
      phase := by
        rcases k.phase with ⟨hl, hp⟩ | hi
        · left
          have he : k.run.heap.enabled = false := hp.disabled
          simp only [r, Kheap.kmallocInt, he]
          exact ⟨hl, by simpa using placement_alloc hp size align⟩
        · right
          have he : k.run.heap.enabled = true := hi.enabled
          obtain ⟨r', h1, h2, -⟩ := initialized_alloc hi size align
          simp only [r, h1, he]
          simpa using h2 })

/-! ## Freeing -/

/-- `kfree` ignores pointers into the placement memory. -/
theorem kfree_placed (k : KernelHeap) (hp : p ∈ k.placed) : k.run.heap.kfree p = k.run.heap := by
  refine kfree_of_invalid ?_
  rcases k.phase with ⟨-, h⟩ | h
  · simp [kheapIsValidHeapAddress, h.disabled]
  · obtain ⟨bs, hi⟩ := h.inv
    have hbd := hi.good.inv.bounds
    have h1 := h.apart p hp
    have h2 : u32 (k.run.heap.base + 20) = k.run.heap.base + 20 := u32_of_lt (by omega)
    have h3 : u32 (k.run.heap.base + kheapHeapSize) = k.run.heap.base + kheapHeapSize :=
      u32_of_lt hi.good.inv.region.hi
    have h4 : ¬ (u32 (k.run.heap.base + 20) ≤ p ∧ p < u32 (k.run.heap.base + kheapHeapSize)) := by
      rw [h2, h3]; omega
    rw [kheapIsValidHeapAddress, h.enabled, if_neg (by simp), if_neg h4]

theorem live_nodup (k : KernelHeap) : k.run.live.Nodup := by
  rcases k.phase with ⟨h, -⟩ | h
  · simp [h]
  · obtain ⟨bs, hi⟩ := h.inv
    exact hi.live.nodup_iff.2 (HeapRun.Inv.nodup hi.good)

/-- A held pointer is not both a heap payload and placed. -/
theorem not_mem_placed (k : KernelHeap) (h : p ∈ k.run.live) : p ∉ k.placed := by
  intro hp
  rcases k.phase with ⟨h', -⟩ | h'
  · simp [h'] at h
  · obtain ⟨bs, hi⟩ := h'.inv
    obtain ⟨b, hb, rfl⟩ := hi.mem_live.1 h
    have h2 := h'.apart _ hp
    have h3 := hi.good.inv.mem_range (mem_allocated.1 hb).1
    have h4 := hi.good.nonempty b hb
    simp only [Blk.data] at h2
    omega

theorem initialized_free {s : HeapRun} {placed : List ℕ} (hi : InitializedInv s placed)
    (hp : p ∈ s.live) : InitializedInv ⟨s.heap.kfree p, s.live.erase p⟩ placed := by
  obtain ⟨⟨bs, hb⟩, hpl⟩ := hi
  obtain ⟨b, hbm, rfl⟩ := hb.mem_live.1 hp
  obtain ⟨bs', hg', hperm, -⟩ := kfree_good hb.good hbm
  have hbase : (s.heap.kfree b.data).base = s.heap.base := hg'.inv.base_eq
  refine ⟨⟨bs', ?_, HeapRun.Inv.erase_perm hb.live hperm⟩, fun q hq => ?_⟩
  · show KheapGood (s.heap.kfree b.data).base _ bs'
    rwa [hbase]
  · show q < (s.heap.kfree b.data).base ∨ (s.heap.kfree b.data).base + kheapHeapSize ≤ q
    rw [hbase]
    exact hpl q hq

theorem phase_free (k : KernelHeap) (h : k.Live p) :
    (k.run.live.erase p = [] ∧ PlacementInv (k.run.heap.kfree p) (k.placed.filter (· ≠ p))) ∨
      InitializedInv ⟨k.run.heap.kfree p, k.run.live.erase p⟩ (k.placed.filter (· ≠ p)) := by
  have hsub : ∀ q ∈ k.placed.filter (· ≠ p), q ∈ k.placed := fun q hq => List.mem_of_mem_filter hq
  rcases h with h | h
  · rcases k.phase with ⟨h', -⟩ | hi
    · simp [h'] at h
    · right
      have hf := initialized_free hi h
      exact ⟨hf.inv, fun q hq => hf.apart q (hsub q hq)⟩
  · have hne : p ∉ k.run.live := fun hl => k.not_mem_placed hl h
    rw [k.kfree_placed h, List.erase_of_not_mem hne]
    rcases k.phase with ⟨h', hp⟩ | hi
    · exact Or.inl ⟨h', hp.disabled, hp.bound, fun q hq => hp.below q (hsub q hq)⟩
    · exact Or.inr ⟨hi.inv, fun q hq => hi.apart q (hsub q hq)⟩

/-- `kfree` of a pointer a client holds; other pointers are not passed to it. -/
def free (k : KernelHeap) (p : ℕ) : KernelHeap :=
  if h : k.Live p then
    { run := ⟨k.run.heap.kfree p, k.run.live.erase p⟩
      placed := k.placed.filter (· ≠ p)
      nonnull := fun h0 => k.nonnull (List.mem_of_mem_filter h0)
      phase := k.phase_free h }
  else k

/-- The second of two `kfree` calls on the same held pointer does nothing. -/
theorem kfree_free (h : k.Live p) : (k.free p).run.heap.kfree p = (k.free p).run.heap := by
  have hf : (k.free p).run.heap = k.run.heap.kfree p := by simp only [free, dif_pos h]
  rw [hf]
  by_cases hl : p ∈ k.run.live
  · rcases k.phase with ⟨h', -⟩ | hi
    · rw [h'] at hl; cases hl
    · obtain ⟨bs, hb⟩ := hi.inv
      obtain ⟨b, hbm, rfl⟩ := hb.mem_live.1 hl
      exact kfree_twice hb.good hbm
  · have hp := h.resolve_left hl
    rw [k.kfree_placed hp, k.kfree_placed hp]

/-! ## The contract -/

theorem not_live_null (k : KernelHeap) : ¬ k.Live 0 := by
  rintro (h | h)
  · rcases k.phase with ⟨h', -⟩ | h'
    · simp [h'] at h
    · obtain ⟨bs, hi⟩ := h'.inv
      obtain ⟨b, -, hb⟩ := hi.mem_live.1 h
      simp [Blk.data] at hb
  · exact k.nonnull h

theorem alloc_fresh (k : KernelHeap) (size : ℕ) (align : Bool) (hn : Request size) :
    ¬ k.Live (k.alloc size align).1 := by
  intro hl
  have h0 : (k.alloc size align).1 ≠ 0 := fun h => k.not_live_null (h ▸ hl)
  rcases k.phase with ⟨hl', hp⟩ | hi
  · have hr : (k.alloc size align).1 = (kmallocPlacement k.run.heap size align).1 := by
      simp [alloc, Kheap.kmallocInt, hp.disabled]
    rw [hr] at hl h0
    rcases hl with h | h
    · simp [hl'] at h
    · have hb := hp.below _ h
      rcases kmallocPlacement_cases k.run.heap size align with h1 | ⟨a, n, h1, -, ha⟩
      · rw [h1] at h0
        exact h0 rfl
      · rw [h1] at hb h0
        exact absurd (ha hp.bound hn h0).1 (not_le.2 hb)
  · obtain ⟨r, h1, -, h2⟩ := initialized_alloc hi size align
    have hr : (k.alloc size align).1 = r.1 := by simp [alloc, h1]
    rw [hr] at hl h0
    exact hl.elim (h2 h0).1 (h2 h0).2

theorem alloc_live (k : KernelHeap) (size : ℕ) (align : Bool) (p : ℕ) (hn : Request size) :
    (k.alloc size align).2.Live p ↔ k.Live p ∨ p ≠ 0 ∧ p = (k.alloc size align).1 := by
  have hg : ∀ ptr, ptr ≠ 0 ∧ p = ptr ↔ p ≠ 0 ∧ p = ptr := by
    rintro ptr
    constructor <;> rintro ⟨h, rfl⟩ <;> exact ⟨h, rfl⟩
  cases he : k.run.heap.enabled with
  | true =>
    simp only [Live, alloc, he, if_true, Bool.not_true, Bool.false_eq_true, false_and, if_false,
      mem_grant, hg]
    tauto
  | false =>
    simp only [Live, alloc, he, Bool.false_eq_true, if_false, Bool.not_false, hn, and_self, if_true,
      mem_grant, hg]
    tauto

theorem free_live (k : KernelHeap) (p q : ℕ) : (k.free p).Live q ↔ k.Live q ∧ q ≠ p := by
  unfold free
  split
  · simp only [Live, k.live_nodup.mem_erase_iff, List.mem_filter, decide_eq_true_eq]
    tauto
  · rename_i h
    exact ⟨fun hq => ⟨hq, by rintro rfl; exact h hq⟩, And.left⟩

instance : Allocator KernelHeap where
  alloc := alloc
  free := free
  Live := Live
  not_live_null := not_live_null
  alloc_fresh := alloc_fresh
  alloc_live := alloc_live
  free_live := free_live

/-- The placement memory before its first use. -/
def boot (placementHead : ℕ) (mem : Mem) (h : placementHead + kheapPlacementSize < 4294967296) :
    KernelHeap where
  run := ⟨⟨mem, false, 0, 0, 0, placementHead, kheapPlacementSize⟩, []⟩
  placed := []
  nonnull := by simp
  phase := Or.inl ⟨rfl, rfl, h, by simp⟩

end KernelHeap

/-- The heap in its boot phase, with the placement memory at 2 MiB. -/
def placementHeap : KernelHeap := KernelHeap.boot 0x200000 (fun _ => 0) (by decide)

end Ttos
