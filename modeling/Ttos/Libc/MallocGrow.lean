/-
  When `malloc` gives up.

  * `mallocCalls`: what the calls of `hmap_alloc` returned that a `malloc` makes.
  * `malloc_gives_up`: a `malloc` that fails was refused memory by the kernel, exactly
    when a free block is large enough or one more page makes the last one so.
-/
import Ttos.Libc.MallocRun

namespace Ttos

open UserHeap UserHeapRun

namespace UserHeap

/-- The results of the calls of `hmap_alloc` in `malloc` on an initialised heap. -/
def mallocFitCalls (map : MapMemory) (h : UserHeap) (size : ℕ) : List ℕ :=
  if size = 0 then []
  else if heapFindBestFit h size = some 0 then [(hmapAlloc map h 1).1] else []

/-- The results of the calls of `hmap_alloc` in `malloc`. -/
def mallocCalls (map : MapMemory) (h : UserHeap) (size : ℕ) : List ℕ :=
  if h.heapHead = 0 then
    (hmapAlloc map h 1).1 :: if (heapIncreaseSize map h 1).1 then
      mallocFitCalls map (heapIncreaseSize map h 1).2 size else []
  else mallocFitCalls map h size

/-- The size of the last block after the heap was grown for a request: of the free block at
    the end and one page, of a page behind a block in use, or of the first two pages. -/
def growRoom (bs : List Blk) : ℕ :=
  match bs.getLast? with
  | none => 8172
  | some t => if t.free then t.size + 4096 else 4076

variable {map : MapMemory} {h h' : UserHeap} {bs : List Blk} {size : ℕ}

theorem heapIncreaseSize_fst : (heapIncreaseSize map h 1).1 = true ↔ (hmapAlloc map h 1).1 ≠ 0 := by
  unfold heapIncreaseSize
  dsimp only
  split
  · rename_i h0
    simp [h0]
  · rename_i h0
    split
    · simp [h0]
    · split <;> simp [h0]

/-! ## The search -/

/-- A block that fits a request without alignment. -/
theorem fits_iff {b : Blk} : b.Fits size false ↔ b.free = true ∧ size ≤ b.size := by
  simp [Blk.Fits]

/-- The search finds nothing exactly when no block fits. -/
theorem heapFindBestFit_zero (hg : h.Grown bs) :
    heapFindBestFit h size = some 0 ↔ ∀ b ∈ bs, ¬ (b.free = true ∧ size ≤ b.size) := by
  rw [heapFindBestFit_eq hg]
  cases hb : Kheap.bestFit size false bs with
  | none =>
    refine iff_of_true rfl fun b hb' hf => ?_
    exact (Kheap.foldl_better_none hb).2 b hb' (fits_iff.2 hf)
  | some b =>
    obtain ⟨hmem, hf⟩ : b ∈ bs ∧ b.Fits size false := by simpa using Kheap.foldl_better_mem hb
    have hpos := hg.good.inv.pos
    have hrg := hg.good.inv.mem_range hmem
    refine iff_of_false (fun h0 => ?_) fun hn => hn b hmem (fits_iff.1 hf)
    have : b.addr = 0 := Option.some.inj h0
    omega

/-- Taking the block found gives a pointer. -/
theorem mallocSplit_ne_zero (hg : h.Grown bs) (hb : Kheap.bestFit size false bs = some b) :
    b.addr ≠ 0 ∧ (mallocSplit h b.addr size).1 ≠ 0 := by
  obtain ⟨hmem, hf⟩ : b ∈ bs ∧ b.Fits size false := by simpa using Kheap.foldl_better_mem hb
  have hpos := hg.good.inv.pos
  have hrg := hg.good.inv.mem_range hmem
  obtain ⟨ls, rs, rfl⟩ := List.append_of_mem hmem
  obtain ⟨hd, -, -⟩ := Kheap.kmallocSplit_spec hg.good.inv hf.2.1
  rw [mallocSplit_eq, hd]
  exact ⟨by omega, by simp [Blk.data]⟩

theorem mallocRetry_null (hg : h.Grown bs) : (∃ h', mallocRetry h size = some (0, h')) ↔
    ∀ b ∈ bs, ¬ (b.free = true ∧ size ≤ b.size) := by
  rw [← heapFindBestFit_zero hg, mallocRetry, heapFindBestFit_eq hg]
  cases hb : Kheap.bestFit size false bs with
  | none => exact iff_of_true ⟨h, rfl⟩ rfl
  | some b =>
    obtain ⟨hne, hp⟩ := mallocSplit_ne_zero hg hb
    refine iff_of_false ?_ fun h0 => hne (Option.some.inj h0)
    rintro ⟨h', heq⟩
    have heq : (if b.addr = 0 then some (0, h) else some (mallocSplit h b.addr size))
        = some (0, h') := heq
    rw [if_neg hne] at heq
    exact hp (congrArg Prod.fst (Option.some.inj heq))

/-! ## Growing for a request -/

/-- On an initialised heap `malloc` fails although the kernel refused nothing exactly when
    the kernel gave a page and no block fits before and after. -/
theorem mallocFit_gives_up (hm : MapsUserMemory map) (hg : h.Grown bs) (h0 : 0 < size) :
    (∃ h', mallocFit map h size = some (0, h') ∧ 0 ∉ mallocFitCalls map h size) ↔
      (heapIncreaseSize map h 1).1 = true ∧ (∀ b ∈ bs, ¬ (b.free = true ∧ size ≤ b.size)) ∧
        ∀ b ∈ growBlocks h.heapLimit bs, ¬ (b.free = true ∧ size ≤ b.size) := by
  rw [mallocFit, mallocFitCalls, if_neg h0.ne', if_neg h0.ne']
  by_cases hz : heapFindBestFit h size = some 0
  · rw [if_pos hz, hz]
    rcases heapIncreaseSize_spec hm hg with hr | ⟨h₁, hr, hg₁, -⟩
    · have hcall : (hmapAlloc map h 1).1 = 0 := by
        by_contra hne
        have := heapIncreaseSize_fst.2 hne
        rw [hr] at this
        cases this
      simp [hr, hcall]
    · have hcall : (hmapAlloc map h 1).1 ≠ 0 := heapIncreaseSize_fst.1 (by rw [hr])
      simp only [hr, if_true, List.mem_singleton, hcall.symm, not_false_eq_true, and_true, true_and]
      rw [mallocRetry_null hg₁]
      exact ⟨fun h => ⟨(heapFindBestFit_zero hg).1 hz, h⟩, fun h => h.2⟩
  · refine iff_of_false ?_ fun h => hz ((heapFindBestFit_zero hg).2 h.2.1)
    rintro ⟨h', heq, -⟩
    rw [heapFindBestFit_eq hg] at heq hz
    cases hb : Kheap.bestFit size false bs with
    | none =>
      rw [hb] at hz
      exact hz rfl
    | some b =>
      obtain ⟨hne, hp⟩ := mallocSplit_ne_zero hg hb
      rw [hb] at heq
      have heq : (if b.addr = 0 then _ else some (mallocSplit h b.addr size)) = some (0, h') := heq
      rw [if_neg hne] at heq
      exact hp (congrArg Prod.fst (Option.some.inj heq))

/-- A page more makes room at the end only. -/
theorem growBlocks_fits (hg : h.Grown bs) (hn : ∀ b ∈ bs, ¬ (b.free = true ∧ size ≤ b.size)) :
    (∀ b ∈ growBlocks h.heapLimit bs, ¬ (b.free = true ∧ size ≤ b.size)) ↔ growRoom bs < size := by
  have hle := hg.le
  obtain rfl | ⟨ys, t, rfl⟩ := List.eq_nil_or_concat' bs
  · exact absurd (Tiles.nil_iff.1 hg.good.inv.tiles) (by omega)
  rw [growBlocks_concat]
  have hroom : growRoom (ys ++ [t]) = if t.free then t.size + 4096 else 4076 := by simp [growRoom]
  rw [hroom]
  by_cases hf : t.free = true
  · rw [if_pos hf, if_pos hf]
    constructor
    · intro hall
      simpa using hall ⟨t.addr, t.size + 4096, true⟩ (by simp)
    · intro hlt b hb
      rcases List.mem_append.1 hb with hb | hb
      · exact hn b (by simp [hb])
      · rw [List.mem_singleton.1 hb]
        simpa using hlt
  · rw [if_neg hf, if_neg hf]
    constructor
    · intro hall
      simpa using hall ⟨h.heapLimit + 1, 4076, true⟩ (by simp)
    · intro hlt b hb
      simp only [List.mem_append, List.mem_cons, List.not_mem_nil, or_false] at hb
      rcases hb with hb | rfl | rfl
      · exact hn b (by simp [hb])
      · exact fun hc => hf hc.1
      · simpa using hlt

/-- The kernel that maps what it is asked for gives an initialised heap its next page. -/
theorem heapIncreaseSize_mapNext (hg : h.Grown bs) (hu : h.heapLimit + 4096 < 0xC0000000) :
    (heapIncreaseSize mapNext h 1).1 = true := by
  refine heapIncreaseSize_fst.2 ?_
  have hp := hg.page
  have hne := hg.base.trans_ne hg.head_pos
  have hl : u32 (h.heapLimit + 1) = h.heapLimit + 1 := u32_of_lt (by omega)
  have hat : pageAt (h.heapLimit + 1) = h.heapLimit + 1 := by
    rw [pageAt, if_neg (by omega)]
    omega
  have hmap : mapNext (h.heapLimit + 1) 4096 h.mem = some (h.heapLimit + 1, h.mem) := by
    rw [mapNext, hat, if_pos ⟨by omega, by omega⟩]
  have hpages : u32 (1 * 4096) = 4096 := u32_of_lt (by decide)
  rw [hmapAlloc, syscallAllocHeap, if_neg Nat.one_ne_zero, if_neg hne, hl, hpages, hmap]
  show sub32 (u32 (h.heapLimit + 1 + 4096)) 1 ≠ 0
  unfold sub32 u32
  omega

/-- It gives a new process page 1. -/
theorem heapIncreaseSize_mapNext_fresh (hf : h.Fresh) :
    ∃ h₁, heapIncreaseSize mapNext h 1 = (true, h₁) ∧ h₁.heapLimit = 0x1FFF := by
  have hs : hmapAlloc mapNext h 1 = (0x1FFF, { h with heapBase := 0x1000, heapLimit := 0x1FFF }) :=
    if_pos hf.base
  unfold heapIncreaseSize
  rw [hs]
  simp only [hf.head, if_true]
  exact ⟨_, rfl, rfl⟩

/-- At the end of user memory the kernel cannot give a page. -/
theorem heapIncreaseSize_full (hm : MapsUserMemory map) (hg : h.Grown bs)
    (hu : 0xC0000000 ≤ h.heapLimit + 4096) : (heapIncreaseSize map h 1).1 = false := by
  rcases heapIncreaseSize_spec hm hg with hr | ⟨h₁, hr, hg₁, -⟩
  · rw [hr]
  · exfalso
    rcases hmapAlloc_grown hm hg with hc | ⟨m, hlt, -⟩
    · have hne := heapIncreaseSize_fst.1 (show (heapIncreaseSize map h 1).1 = true by rw [hr])
      rw [hc] at hne
      exact hne rfl
    · omega

/-- On an initialised heap: `malloc` gives up on its own when one page does not make room. -/
theorem grown_gives_up (hg : h.Grown bs) (h0 : 0 < size) :
    (∀ map h', MapsUserMemory map → malloc map h size = some (0, h') → 0 ∈ mallocCalls map h size) ↔
      (∃ b ∈ bs, b.free = true ∧ size ≤ b.size) ∨ size ≤ growRoom bs ∨
        0xC0000000 ≤ h.heapLimit + 4096 := by
  have hmalloc : ∀ map, malloc map h size = mallocFit map h size := fun map => if_neg hg.head_pos
  have hcalls : ∀ map, mallocCalls map h size = mallocFitCalls map h size := fun map =>
    if_neg hg.head_pos
  constructor
  · intro hall
    by_contra hc
    push Not at hc
    obtain ⟨hn, hroom, hu⟩ := hc
    have hn' : ∀ b ∈ bs, ¬ (b.free = true ∧ size ≤ b.size) := fun b hb hf =>
      absurd hf.2 (not_le.2 (hn b hb hf.1))
    obtain ⟨h', hnull, hno⟩ := (mallocFit_gives_up mapsUserMemory_mapNext hg h0).2
      ⟨heapIncreaseSize_mapNext hg hu, hn', (growBlocks_fits hg hn').2 hroom⟩
    refine hno ?_
    rw [← hcalls]
    exact hall mapNext h' mapsUserMemory_mapNext ((hmalloc _).trans hnull)
  · intro hor map h' hm hnull
    by_contra hno
    rw [hcalls] at hno
    rw [hmalloc] at hnull
    obtain ⟨hr, hn, hg'⟩ := (mallocFit_gives_up hm hg h0).1 ⟨h', hnull, hno⟩
    rcases hor with ⟨b, hb, hf⟩ | hroom | hu
    · exact hn b hb hf
    · exact absurd ((growBlocks_fits hg hn).1 hg') (not_lt.2 hroom)
    · rw [heapIncreaseSize_full hm hg hu] at hr
      cases hr

/-- Without a heap: two pages are the most. -/
theorem fresh_gives_up (hf : h.Fresh) (h0 : 0 < size) :
    (∀ map h', MapsUserMemory map → malloc map h size = some (0, h') → 0 ∈ mallocCalls map h size) ↔
      size ≤ 8172 := by
  have hmalloc : ∀ map h₁, heapIncreaseSize map h 1 = (true, h₁) →
      malloc map h size = mallocFit map h₁ size := fun map h₁ hr => by
    rw [malloc, if_pos hf.head, hr]
    rfl
  have hcalls : ∀ map h₁, heapIncreaseSize map h 1 = (true, h₁) → (0 ∈ mallocCalls map h size ↔
      0 ∈ mallocFitCalls map h₁ size) := fun map h₁ hr => by
    have hne := heapIncreaseSize_fst.1 (show (heapIncreaseSize map h 1).1 = true by rw [hr])
    rw [mallocCalls, if_pos hf.head, hr, if_pos rfl, List.mem_cons, or_iff_right hne.symm]
  -- the one block of the first page
  have hfits : ∀ a, (∀ b ∈ [Blk.mk a 4076 true], ¬ (b.free = true ∧ size ≤ b.size)) ↔ 4076 < size :=
    fun a => by simp
  have hroom : ∀ a, growRoom [Blk.mk a 4076 true] = 8172 := fun a => rfl
  constructor
  · intro hall
    by_contra hlt
    obtain ⟨h₁, hr, hlim⟩ := heapIncreaseSize_mapNext_fresh hf
    have hg : h₁.Grown [⟨h₁.heapHead, 4076, true⟩] := by
      rcases heapIncreaseSize_fresh mapsUserMemory_mapNext hf with hr' | ⟨h₂, hr', hg⟩
      · rw [hr] at hr'
        cases hr'
      · rw [hr] at hr'
        obtain rfl : h₁ = h₂ := congrArg Prod.snd hr'
        exact hg
    have hn := (hfits h₁.heapHead).2 (by omega)
    obtain ⟨h', hnull, hno⟩ := (mallocFit_gives_up mapsUserMemory_mapNext hg h0).2
      ⟨heapIncreaseSize_mapNext hg (by omega), hn,
        (growBlocks_fits hg hn).2 (by rw [hroom]; omega)⟩
    refine hno ((hcalls mapNext h₁ hr).1 ?_)
    exact hall mapNext h' mapsUserMemory_mapNext ((hmalloc mapNext h₁ hr).trans hnull)
  · intro hle map h' hm hnull
    by_contra hno
    rcases heapIncreaseSize_fresh hm hf with hr | ⟨h₁, hr, hg⟩
    · refine hno ?_
      have hcall : (hmapAlloc map h 1).1 = 0 := by
        by_contra hne
        have := heapIncreaseSize_fst.2 hne
        rw [hr] at this
        cases this
      rw [mallocCalls, if_pos hf.head, hcall]
      exact List.mem_cons_self ..
    · rw [hmalloc map h₁ hr] at hnull
      rw [hcalls map h₁ hr] at hno
      obtain ⟨-, hn, hg'⟩ := (mallocFit_gives_up hm hg h0).1 ⟨h', hnull, hno⟩
      have := (growBlocks_fits hg hn).1 hg'
      rw [hroom] at this
      omega

end UserHeap

/-- **When `malloc` fails only because the kernel refused memory**, in every reachable state
    and for every answer of the kernel: a free block is large enough, or the last block is
    after one page more, or user memory is used up. -/
theorem malloc_gives_up {s : UserHeapRun} {size : ℕ} (hr : userHeapSystem.Reachable s)
    (h1 : 1 ≤ size) :
    ∃ bs, Kheap.blocksFrom s.heap.mem heapFuel s.heap.heapHead = some bs ∧
      ((∀ map h', MapsUserMemory map → s.heap.malloc map size = some (0, h') →
          0 ∈ mallocCalls map s.heap size) ↔
        (∃ b ∈ bs, b.free = true ∧ size ≤ b.size) ∨ size ≤ growRoom bs ∨
          0xC0000000 ≤ s.heap.heapLimit + 4096) := by
  obtain ⟨bs, hi⟩ := UserHeapRun.reachable_inv hr
  refine ⟨bs, hi.holds.shape.walk, ?_⟩
  rcases hi.holds with ⟨hf, rfl⟩ | hg
  · rw [fresh_gives_up hf h1, hf.limit]
    simp [growRoom]
  · exact grown_gives_up hg h1

theorem malloc_gives_up_first : userHeapSystem.Reachable freshRun ∧ ∀ map h', MapsUserMemory map →
    freshRun.heap.malloc map 100 = some (0, h') → 0 ∈ mallocCalls map freshRun.heap 100 := by
  refine ⟨freshRun_reachable, ?_⟩
  obtain ⟨bs, hbs, hiff⟩ := malloc_gives_up freshRun_reachable (show 1 ≤ 100 by decide)
  obtain rfl : [] = bs := Option.some.inj hbs
  exact hiff.2 (Or.inr (Or.inl (by decide)))

/-- **A request of more than two pages** fails in a new process, although the kernel gives
    every page it is asked for. -/
theorem malloc_gives_up_early : ¬ ∀ s size, userHeapSystem.Reachable s → 1 ≤ size →
    size + 20 < 2147483648 → ∀ map h', MapsUserMemory map →
      s.heap.malloc map size = some (0, h') → 0 ∈ mallocCalls map s.heap size := by
  intro hall
  have hfresh : freshRun.heap.Fresh := ⟨rfl, rfl, rfl⟩
  have hle : 10000 ≤ 8172 := (fresh_gives_up hfresh (by decide)).1
    (hall freshRun 10000 freshRun_reachable (by decide) (by decide))
  exact absurd hle (by decide)

end Ttos
