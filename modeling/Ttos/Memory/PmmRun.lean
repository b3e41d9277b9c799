/-
  The physical memory manager over whole runs: the number of frames it reports
  as available is the number of clear bits of its bitmap.

  The counter starts at one less than the number of bits and wraps when the last
  of them is freed, so the two agree modulo `2 ^ 32` only.

  * `Counted`: the invariant, kept by setting and clearing a frame.
  * `available_memory`: what pmm_get_available_memory_size reports in every run.
-/
import Ttos.Lib.Run
import Ttos.Memory.PmmBitmap
import Ttos.Memory.PmmFetch
import Mathlib.Data.Finset.Card

namespace Ttos

namespace Pmm

variable {p : Pmm} {f n : ℕ}

/-- The frames whose bit is clear. -/
def clearFrames (p : Pmm) : Finset ℕ :=
  (Finset.range 1048576).filter fun frame => p.testFrame frame = false

/-- The counter and the bitmap agree. -/
structure Counted (p : Pmm) : Prop where
  total : p.numMemoryFrames = pmmNumFrames
  used_lt : p.numMemoryFramesUsed < 4294967296
  sum : u32 (p.numMemoryFramesUsed + p.clearFrames.card) = pmmNumFrames

theorem mem_clearFrames : f ∈ p.clearFrames ↔ f < 1048576 ∧ p.testFrame f = false := by
  rw [clearFrames, Finset.mem_filter, Finset.mem_range]

theorem clearFrames_card_le : p.clearFrames.card ≤ 1048576 := by
  have h := Finset.card_filter_le (Finset.range 1048576) fun frame => p.testFrame frame = false
  rwa [Finset.card_range] at h

theorem clearFrames_setFrame : (p.setFrame f).clearFrames = p.clearFrames.erase f := by
  ext g
  rw [Finset.mem_erase, mem_clearFrames, mem_clearFrames, testFrame_setFrame, Bool.or_eq_false_iff,
    decide_eq_false_iff_not]
  tauto

theorem clearFrames_unsetFrame (h : f < 1048576) :
    (p.unsetFrame f).clearFrames = insert f p.clearFrames := by
  ext g
  rw [Finset.mem_insert, mem_clearFrames, mem_clearFrames, testFrame_unsetFrame]
  by_cases hg : g = f
  · subst hg
    simp [h]
  · simp [hg]

/-! ## Setting and clearing frames -/

theorem Counted.setFrame (hp : p.Counted) (h : f < 1048576) : (p.setFrame f).Counted := by
  by_cases ht : p.testFrame f = true
  · have hs : p.setFrame f = p := if_pos ht
    rwa [hs]
  · have hm : f ∈ p.clearFrames := mem_clearFrames.2 ⟨h, Bool.eq_false_iff.2 ht⟩
    have hs : (p.setFrame f).numMemoryFramesUsed = u32 (p.numMemoryFramesUsed + 1) := by
      rw [Pmm.setFrame, if_neg ht]
    have hn : (p.setFrame f).numMemoryFrames = p.numMemoryFrames := by
      rw [Pmm.setFrame, if_neg ht]
    have hc : (p.setFrame f).clearFrames.card + 1 = p.clearFrames.card := by
      rw [clearFrames_setFrame]
      exact Finset.card_erase_add_one hm
    have hsum := hp.sum
    constructor
    · rw [hn, hp.total]
    · rw [hs]
      exact u32_lt _
    · rw [hs]
      unfold u32 at *
      omega

theorem Counted.unsetFrame (hp : p.Counted) (h : f < 1048576) : (p.unsetFrame f).Counted := by
  by_cases ht : p.testFrame f = true
  · have hnt : ¬ (!p.testFrame f) = true := by simp [ht]
    have hm : f ∉ p.clearFrames := fun hm => by
      have := (mem_clearFrames.1 hm).2
      simp [ht] at this
    have hs : (p.unsetFrame f).numMemoryFramesUsed = sub32 p.numMemoryFramesUsed 1 := by
      rw [Pmm.unsetFrame, if_neg hnt]
    have hn : (p.unsetFrame f).numMemoryFrames = p.numMemoryFrames := by
      rw [Pmm.unsetFrame, if_neg hnt]
    have hc : (p.unsetFrame f).clearFrames.card = p.clearFrames.card + 1 := by
      rw [clearFrames_unsetFrame h]
      exact Finset.card_insert_of_notMem hm
    have hsum := hp.sum
    have hlt := hp.used_lt
    constructor
    · rw [hn, hp.total]
    · rw [hs]
      exact sub32_lt _ _
    · rw [hs, hc]
      unfold sub32 u32 at *
      omega
  · have hs : p.unsetFrame f = p := if_pos (by simpa using ht)
    rwa [hs]

theorem Counted.setFrames (hp : p.Counted) (h : f + n ≤ 1048576) : (p.setFrames f n).Counted := by
  unfold Pmm.setFrames
  induction n with
  | zero => exact hp
  | succ n ih =>
    rw [List.range_succ, List.foldl_append, List.foldl_cons, List.foldl_nil]
    refine (ih (by omega)).setFrame ?_
    rw [u32_of_lt (by omega)]
    omega

theorem Counted.unsetFrames (hp : p.Counted) (h : f + n ≤ 1048576) :
    (p.unsetFrames f n).Counted := by
  unfold Pmm.unsetFrames
  induction n with
  | zero => exact hp
  | succ n ih =>
    rw [List.range_succ, List.foldl_append, List.foldl_cons, List.foldl_nil]
    refine (ih (by omega)).unsetFrame ?_
    rw [u32_of_lt (by omega)]
    omega

/-! ## The frames that are found -/

theorem addressToIndex_lt (address : ℕ) : pmmAddressToIndex address < 1048576 := by
  have h := u32_lt address
  unfold pmmAddressToIndex
  omega

theorem freeBit_lt {index bitIndex : ℕ} (h : p.freeBit index = some bitIndex) : bitIndex < 8 :=
  List.mem_range.1 (List.mem_of_find?_eq_some h)

theorem findFreeFrom_lt {index frame : ℕ} (h : p.findFreeFrom n index = some frame) :
    frame < (index + n) * 8 := by
  induction n generalizing index with
  | zero => exact absurd h (by simp [findFreeFrom])
  | succ n ih =>
    rw [findFreeFrom] at h
    split at h
    · rename_i bitIndex hb
      split at hb
      · have := freeBit_lt hb
        obtain rfl := Option.some.inj h
        omega
      · exact absurd hb (by simp)
    · have := ih h
      omega

theorem findFreeFrame_lt (hp : p.numMemoryFrames = pmmNumFrames) {frame : ℕ}
    (h : p.findFreeFrame = some frame) : frame < 1048576 := by
  have := findFreeFrom_lt h
  rw [hp] at this
  unfold pmmNumFrames at this
  omega

/-- A loop over a range that may stop: what every step keeps, and what holds when
    it stops. -/
theorem foldlM_range {α ε : Type} {I : ℕ → α → Prop} {E : ε → Prop} {f : α → ℕ → Except ε α}
    {a : α} (h0 : I 0 a)
    (h : ∀ i < n, ∀ a, I i a → (∃ e, f a i = .error e ∧ E e) ∨ ∃ a', f a i = .ok a' ∧ I (i + 1) a') :
    (∃ e, (List.range n).foldlM f a = .error e ∧ E e) ∨
      ∃ a', (List.range n).foldlM f a = .ok a' ∧ I n a' := by
  induction n with
  | zero => exact Or.inr ⟨a, rfl, h0⟩
  | succ n ih =>
    rw [List.range_succ, List.foldlM_append]
    rcases ih fun i hi => h i (by omega) with ⟨e, hf, he⟩ | ⟨a', hf, ha⟩
    · exact Or.inl ⟨e, by rw [hf]; rfl, he⟩
    · rw [hf]
      rcases h n (by omega) a' ha with ⟨e, hf', he⟩ | ⟨a'', hf', ha'⟩
      · refine Or.inl ⟨e, ?_, he⟩
        show (List.foldlM f a' [n]) = _
        rw [List.foldlM_cons, hf']
        rfl
      · refine Or.inr ⟨a'', ?_, ha'⟩
        show (List.foldlM f a' [n]) = _
        rw [List.foldlM_cons, hf']
        rfl

/-- What the search has counted lies below the bit it has come to. -/
def SearchBelow (limit : ℕ) (s : ℕ × ℕ) : Prop := s.1 = 0 ∨ s.2 + s.1 ≤ limit

theorem contiguousBit_below {index bitIndex : ℕ} {s : ℕ × ℕ}
    (h : SearchBelow (index * 8 + bitIndex) s) :
    (∃ e, p.contiguousBit n index s bitIndex = .error e ∧ e + n ≤ index * 8 + bitIndex + 1) ∨
      ∃ s', p.contiguousBit n index s bitIndex = .ok s' ∧
        SearchBelow (index * 8 + bitIndex + 1) s' := by
  unfold contiguousBit SearchBelow at *
  split
  · dsimp only
    split
    · refine Or.inl ⟨_, rfl, ?_⟩
      split <;> omega
    · refine Or.inr ⟨_, rfl, Or.inr ?_⟩
      dsimp only
      split <;> omega
  · exact Or.inr ⟨_, rfl, Or.inl rfl⟩

theorem contiguousByte_below {index : ℕ} {s : ℕ × ℕ} (h : SearchBelow (index * 8) s) :
    (∃ e, p.contiguousByte n s index = .error e ∧ e + n ≤ (index + 1) * 8) ∨
      ∃ s', p.contiguousByte n s index = .ok s' ∧ SearchBelow ((index + 1) * 8) s' := by
  unfold contiguousByte
  split
  · have hloop := foldlM_range (n := 8) (I := fun i s => SearchBelow (index * 8 + i) s)
      (E := fun e => e + n ≤ (index + 1) * 8) (f := p.contiguousBit n index) h fun i hi s hs => by
        rcases contiguousBit_below (p := p) (n := n) hs with ⟨e, hf, he⟩ | h
        · exact Or.inl ⟨e, hf, by omega⟩
        · exact Or.inr h
    rwa [Nat.add_mul, Nat.one_mul]  at *
  · refine Or.inr ⟨s, rfl, ?_⟩
    unfold SearchBelow at *
    omega

theorem findFreeContiguousFrames_le (hp : p.numMemoryFrames = pmmNumFrames) {frame : ℕ}
    (h : p.findFreeContiguousFrames n = some frame) : frame + n ≤ 1048576 := by
  have hloop := foldlM_range (n := p.numMemoryFrames / 8) (I := fun i s => SearchBelow (i * 8) s)
    (E := fun e => e + n ≤ 1048576) (f := p.contiguousByte n) (a := (0, 0)) (Or.inl rfl)
    fun i hi s hs => by
      rcases contiguousByte_below (p := p) (n := n) hs with ⟨e, hf, he⟩ | h
      · rw [hp] at hi
        unfold pmmNumFrames at hi
        exact Or.inl ⟨e, hf, by omega⟩
      · exact Or.inr h
  rw [findFreeContiguousFrames] at h
  rcases hloop with ⟨e, hf, he⟩ | ⟨s, hf, -⟩
  · rw [hf] at h
    obtain rfl := Option.some.inj h
    exact he
  · rw [hf] at h
    exact absurd h (by simp)

/-! ## Runs -/

theorem Counted.init : ∀ (regions : List PmmMemoryRegion) {p : Pmm}, p.Counted →
    (regions.foldl markRegion p).Counted
  | [], _, hp => hp
  | region :: regions, p, hp => by
    refine Counted.init regions ?_
    unfold markRegion
    split
    · have h1 := addressToIndex_lt region.base
      have h2 := addressToIndex_lt (sub32 (u32 (region.base + region.length)) 1)
      exact hp.unsetFrames (by omega)
    · exact hp

theorem Counted.allUsed (behind : ℕ → UInt8) : (allUsed behind).Counted := by
  have hc : (Pmm.allUsed behind).clearFrames = ∅ := by
    refine Finset.eq_empty_of_forall_notMem fun f hf => ?_
    obtain ⟨h1, h2⟩ := mem_clearFrames.1 hf
    rw [allUsed_testFrame h1] at h2
    exact absurd h2 (by simp)
  refine ⟨rfl, by show pmmNumFrames < _; decide, ?_⟩
  rw [hc]
  rfl

end Pmm

/-- The operations of the physical memory manager. -/
inductive PmmOp where
  | allocFrame
  | allocFrames (n : ℕ)
  | freeFrame (frameAddr : ℕ)
  | freeFrames (frameAddr n : ℕ)
  | markFrameReserved (frameAddr : ℕ)
  | markFrameAvailable (frameAddr : ℕ)

namespace PmmOp

/-- The frames the caller names lie below `2 ^ 20`. -/
def InRange : PmmOp → Prop
  | freeFrames frameAddr n => ∀ i < n, pmmAddressToIndex frameAddr + i < 1048576
  | _ => True

/-- The call and the address it returns, or `0`. -/
def exec (p : Pmm) : PmmOp → ℕ × Pmm
  | allocFrame => p.allocFrame
  | allocFrames n => p.allocFrames n
  | freeFrame frameAddr => (0, p.freeFrame frameAddr)
  | freeFrames frameAddr n => (0, p.freeFrames frameAddr n)
  | markFrameReserved frameAddr => (0, p.markFrameReserved frameAddr)
  | markFrameAvailable frameAddr => (0, p.markFrameAvailable frameAddr)

/-- Every operation keeps the counter and the bitmap in agreement. -/
theorem counted_exec {p : Pmm} (hp : p.Counted) (op : PmmOp) (h : op.InRange) :
    (op.exec p).2.Counted := by
  cases op with
  | allocFrame =>
    show p.allocFrame.2.Counted
    unfold Pmm.allocFrame
    split
    · exact hp
    · split
      · exact hp
      · rename_i hf
        exact hp.setFrame (Pmm.findFreeFrame_lt hp.total hf)
  | allocFrames n =>
    show (p.allocFrames n).2.Counted
    unfold Pmm.allocFrames
    split
    · exact hp
    · split
      · exact hp
      · rename_i hf
        exact hp.setFrames (Pmm.findFreeContiguousFrames_le hp.total hf)
  | freeFrame frameAddr => exact hp.unsetFrame (Pmm.addressToIndex_lt _)
  | freeFrames frameAddr n =>
    refine hp.unsetFrames ?_
    cases n with
    | zero => exact (Pmm.addressToIndex_lt frameAddr).le
    | succ n => exact h n (Nat.lt_succ_self n)
  | markFrameReserved frameAddr => exact hp.setFrame (Pmm.addressToIndex_lt _)
  | markFrameAvailable frameAddr => exact hp.unsetFrame (Pmm.addressToIndex_lt _)

end PmmOp

/-- The physical memory manager: a run starts with what some call of pmm_init left. -/
def pmmSystem (σ : Type) [Allocator σ] : TransitionSystem Pmm PmmOp where
  init p := ∃ (heap heap' : σ) (behind : ℕ → UInt8) (entries : List MultibootMemoryMap),
    Pmm.init behind entries heap = .ok (p, heap')
  step p op p' := op.InRange ∧ p' = (op.exec p).2

section
variable {σ : Type} [Allocator σ] {p : Pmm}

theorem reachable_counted (h : (pmmSystem σ).Reachable p) : p.Counted := by
  refine h.invariant (fun p hp => ?_) (fun p op p' _ hp hstep => ?_)
  · obtain ⟨heap, heap', behind, entries, hinit⟩ := hp
    rw [Pmm.init_eq hinit]
    exact Pmm.Counted.init _ (Pmm.Counted.allUsed behind)
  · obtain ⟨hr, rfl⟩ := hstep
    exact PmmOp.counted_exec hp op hr

/-- **The available memory** is 4096 bytes for every clear bit of the bitmap, in
    32 bits. -/
theorem available_memory (h : (pmmSystem σ).Reachable p) :
    p.getAvailableMemorySize = u32 (4096 * p.clearFrames.card) := by
  obtain ⟨htotal, hlt, hsum⟩ := reachable_counted h
  have hle := Pmm.clearFrames_card_le (p := p)
  rw [Pmm.getAvailableMemorySize, htotal]
  unfold sub32 u32 pmmNumFrames at *
  omega

end

/-! ## A run -/

/-- Six kilobytes of available memory and a byte that is reserved. -/
def twoFrameMap : List MultibootMemoryMap := [⟨0x1000, 0x1800, 1⟩, ⟨0x3000, 1, 2⟩]

/-- After pmm_init for that map. -/
def twoFramePmm : Pmm :=
  (memoryRegions twoFrameMap).foldl Pmm.markRegion (Pmm.allUsed fun _ => 0)

theorem twoFramePmm_init : ∃ heap' : KernelHeap,
    Pmm.init (fun _ => 0) twoFrameMap placementHeap = .ok (twoFramePmm, heap') :=
  Pmm.init_of_isSome (by decide +kernel)

/-- A frame is allocated and freed twice. -/
theorem available_memory_twoFrame :
    ((twoFramePmm.allocFrame.2.freeFrame 0x1000).freeFrame 0x1000).getAvailableMemorySize =
      u32 (4096 *
        ((twoFramePmm.allocFrame.2.freeFrame 0x1000).freeFrame 0x1000).clearFrames.card) := by
  obtain ⟨heap', hinit⟩ := twoFramePmm_init
  refine available_memory (σ := KernelHeap) ?_
  refine .step (i := .freeFrame 0x1000) (.step (i := .freeFrame 0x1000)
    (.step (i := .allocFrame) (.init ⟨placementHeap, heap', _, twoFrameMap, hinit⟩)
      ⟨trivial, rfl⟩) ⟨trivial, rfl⟩) ⟨trivial, rfl⟩

end Ttos
