/-
  Which frames pmm_init makes available.

  A region of available memory clears the frames of its first and its last byte
  and all between, so a frame becomes available as soon as one of its bytes is.

  * `testFrame_init`: the frames that are cleared.
  * `init_clears_available`: they are the frames that lie in available memory
    exactly if the regions of available memory begin and end at frames, or at
    each other.
-/
import Ttos.Memory.PmmRun

namespace Ttos

open PmmMemoryRegion

/-- Sorted, disjoint and not empty, within 32 bits. -/
structure RegionList (regions : List PmmMemoryRegion) : Prop where
  sorted : regions.Pairwise fun a b => a.stop ≤ b.base
  nonempty : ∀ r ∈ regions, 0 < r.length
  stop_le : ∀ r ∈ regions, r.stop ≤ 4294967296

/-- The byte is available memory. -/
def AvailableByte (regions : List PmmMemoryRegion) (x : ℕ) : Prop :=
  ∃ r ∈ regions, r.type = multibootMemoryAvailable ∧ r.Contains x

/-- The bit of a frame is clear exactly if all its bytes are available memory. -/
def ClearsAvailable (regions : List PmmMemoryRegion) (p : Pmm) : Prop :=
  ∀ frame < 1048576, p.testFrame frame = false ↔
    ∀ x, frame * 4096 ≤ x → x < frame * 4096 + 4096 → AvailableByte regions x

/-- Every region of available memory begins at a frame or where another ends, and
    ends at a frame or where another begins. -/
def FrameAligned (regions : List PmmMemoryRegion) : Prop :=
  ∀ r ∈ regions, r.type = multibootMemoryAvailable →
    (r.base % 4096 = 0 ∨
      ∃ q ∈ regions, q.type = multibootMemoryAvailable ∧ q.stop = r.base) ∧
    (r.stop % 4096 = 0 ∨
      ∃ q ∈ regions, q.type = multibootMemoryAvailable ∧ q.base = r.stop)

/-! ## The list of a map -/

theorem cleanUp_of_sorted : ∀ {rs : List PmmMemoryRegion},
    rs.Pairwise (fun a b => a.stop ≤ b.base) → cleanUpFrom rs.length rs = rs
  | [], _ => rfl
  | r :: rs, h => by
    obtain ⟨h1, h2⟩ := List.pairwise_cons.1 h
    have hadj : adjustOverlaps r rs = (r, rs) :=
      adjust_of_le fun q hq => (Nat.mod_le _ _).trans (h1 q hq)
    rw [List.length_cons, cleanUpFrom, hadj, cleanUp_of_sorted h2]

/-- Every such list is the list of a map, of the map with the same regions. -/
theorem memoryRegions_of_sorted {entries : List MultibootMemoryMap}
    (h : RegionList (entries.map (·.region))) : memoryRegions entries = entries.map (·.region) := by
  have hb : (entries.map (·.region)).Pairwise fun a b => a.base < b.base := by
    refine h.sorted.imp_of_mem fun {a b} ha _ hab => ?_
    have := h.nonempty a ha
    simp only [stop] at hab
    omega
  rw [memoryRegions, sort_of_pairwise hb, cleanUpOverlaps, cleanUp_of_sorted h.sorted]

/-! ## The frames that are cleared -/

section
variable {regions : List PmmMemoryRegion} {r : PmmMemoryRegion} {p : Pmm} {frame : ℕ}

/-- Some byte of the frame is in the region, which is available memory. -/
def Touches (r : PmmMemoryRegion) (frame : ℕ) : Prop :=
  r.type = multibootMemoryAvailable ∧ ∃ x, r.Contains x ∧ x / 4096 = frame

theorem touches_iff (hl : 0 < r.length) : Touches r frame ↔
    r.type = multibootMemoryAvailable ∧ r.base / 4096 ≤ frame ∧ frame ≤ (r.stop - 1) / 4096 := by
  unfold Touches Contains stop
  refine and_congr_right fun _ => ?_
  constructor
  · rintro ⟨x, ⟨h1, h2⟩, rfl⟩
    exact ⟨Nat.div_le_div_right h1, Nat.div_le_div_right (by omega)⟩
  · rintro ⟨h1, h2⟩
    by_cases h : r.base / 4096 = frame
    · exact ⟨r.base, ⟨le_rfl, by omega⟩, h⟩
    · exact ⟨frame * 4096, by omega, by omega⟩

open Classical in
theorem testFrame_markRegion (hl : 0 < r.length) (hs : r.stop ≤ 4294967296) :
    (p.markRegion r).testFrame frame = (p.testFrame frame && !decide (Touches r frame)) := by
  unfold Pmm.markRegion
  have hb : r.base < 4294967296 := by
    simp only [stop] at hs
    omega
  have hstart : pmmAddressToIndex r.base = r.base / 4096 := by
    rw [pmmAddressToIndex, u32_of_lt hb]
  have hend : pmmAddressToIndex (sub32 (u32 (r.base + r.length)) 1) = (r.stop - 1) / 4096 := by
    simp only [stop] at *
    unfold pmmAddressToIndex sub32 u32
    omega
  by_cases ht : r.type = multibootMemoryAvailable
  · rw [if_pos ht]
    dsimp only
    rw [Pmm.testFrame_unsetFrames, hstart, hend]
    refine congrArg (fun b => p.testFrame frame && !b) (decide_eq_decide.2 ?_)
    rw [touches_iff hl]
    constructor
    · rintro ⟨i, hi, rfl⟩
      rw [u32_of_lt (by omega)]
      exact ⟨ht, by omega, by omega⟩
    · rintro ⟨-, h1, h2⟩
      refine ⟨frame - r.base / 4096, by omega, ?_⟩
      rw [u32_of_lt (by omega)]
      omega
  · have hn : ¬ Touches r frame := fun h => ht h.1
    rw [if_neg ht, decide_eq_false hn, Bool.not_false, Bool.and_true]

theorem testFrame_regions (hl : ∀ r ∈ regions, 0 < r.length)
    (hs : ∀ r ∈ regions, r.stop ≤ 4294967296) :
    (regions.foldl Pmm.markRegion p).testFrame frame = true ↔
      p.testFrame frame = true ∧ ∀ r ∈ regions, ¬ Touches r frame := by
  induction regions generalizing p with
  | nil => simp
  | cons r regions ih =>
    rw [List.foldl_cons, ih (fun q hq => hl q (by simp [hq])) fun q hq => hs q (by simp [hq]),
      testFrame_markRegion (hl r (by simp)) (hs r (by simp)), List.forall_mem_cons]
    simp only [Bool.and_eq_true, Bool.not_eq_true', decide_eq_false_iff_not, and_assoc]

theorem testFrame_init (h : RegionList regions) (behind : ℕ → UInt8) (hf : frame < 1048576) :
    (regions.foldl Pmm.markRegion (Pmm.allUsed behind)).testFrame frame = false ↔
      ∃ r ∈ regions, Touches r frame := by
  rw [← Bool.not_eq_true, testFrame_regions h.nonempty h.stop_le, Pmm.allUsed_testFrame hf]
  simp

/-! ## Frames and bytes -/

theorem availableByte_of_touches (h : r ∈ regions) (ht : Touches r frame) :
    ∃ x, AvailableByte regions x ∧ x / 4096 = frame := by
  obtain ⟨hty, x, hx, hxf⟩ := ht
  exact ⟨x, ⟨r, h, hty, hx⟩, hxf⟩

/-- The byte before an available one of the same frame. -/
theorem FrameAligned.pred (ha : FrameAligned regions) (hn : ∀ r ∈ regions, 0 < r.length) {x : ℕ}
    (hx : AvailableByte regions (x + 1)) (hm : (x + 1) % 4096 ≠ 0) : AvailableByte regions x := by
  obtain ⟨r, hr, ht, h1, h2⟩ := hx
  by_cases hb : r.base = x + 1
  · rcases (ha r hr ht).1 with h | ⟨q, hq, hqt, hqs⟩
    · omega
    · have := hn q hq
      refine ⟨q, hq, hqt, ?_, by omega⟩
      simp only [stop] at hqs
      omega
  · exact ⟨r, hr, ht, by omega, by omega⟩

/-- The byte behind an available one of the same frame. -/
theorem FrameAligned.succ (ha : FrameAligned regions) (hn : ∀ r ∈ regions, 0 < r.length) {x : ℕ}
    (hx : AvailableByte regions x) (hm : (x + 1) % 4096 ≠ 0) : AvailableByte regions (x + 1) := by
  obtain ⟨r, hr, ht, h1, h2⟩ := hx
  by_cases hb : r.stop = x + 1
  · rcases (ha r hr ht).2 with h | ⟨q, hq, hqt, hqb⟩
    · omega
    · have := hn q hq
      refine ⟨q, hq, hqt, by omega, ?_⟩
      simp only [stop] at *
      omega
  · exact ⟨r, hr, ht, by omega, by omega⟩

theorem FrameAligned.below (ha : FrameAligned regions) (hn : ∀ r ∈ regions, 0 < r.length)
    {x : ℕ} (hx : AvailableByte regions x) (n : ℕ) (h : n ≤ x % 4096) :
    AvailableByte regions (x - n) := by
  induction n with
  | zero => exact hx
  | succ n ih =>
    have hi := ih (by omega)
    have he : x - n = (x - (n + 1)) + 1 := by omega
    rw [he] at hi
    exact ha.pred hn hi (by omega)

theorem FrameAligned.above (ha : FrameAligned regions) (hn : ∀ r ∈ regions, 0 < r.length)
    {x : ℕ} (hx : AvailableByte regions x) (n : ℕ) (h : x % 4096 + n < 4096) :
    AvailableByte regions (x + n) := by
  induction n with
  | zero => exact hx
  | succ n ih =>
    have hm : (x + n + 1) % 4096 ≠ 0 := by omega
    exact ha.succ hn (ih (by omega)) hm

/-- In an aligned list a frame with an available byte is all available. -/
theorem FrameAligned.whole (ha : FrameAligned regions) (hn : ∀ r ∈ regions, 0 < r.length)
    {x y : ℕ} (hx : AvailableByte regions x) (hy : y / 4096 = x / 4096) :
    AvailableByte regions y := by
  by_cases h : y ≤ x
  · have hb := ha.below hn hx (x - y) (by omega)
    have he : x - (x - y) = y := by omega
    rwa [he] at hb
  · have hb := ha.above hn hx (y - x) (by omega)
    have he : x + (y - x) = y := by omega
    rwa [he] at hb

/-- Two regions of a list with a byte in common are the same. -/
theorem RegionList.eq_of_contains (h : RegionList regions) {q : PmmMemoryRegion} (hq : q ∈ regions)
    (hr : r ∈ regions) : q = r ∨ q.stop ≤ r.base ∨ r.stop ≤ q.base := by
  by_cases he : q = r
  · exact Or.inl he
  · have hs : regions.Pairwise fun a b => a.stop ≤ b.base ∨ b.stop ≤ a.base :=
      h.sorted.imp fun hab => Or.inl hab
    have hsymm : Std.Symm fun a b : PmmMemoryRegion => a.stop ≤ b.base ∨ b.stop ≤ a.base :=
      ⟨fun _ _ hab => hab.symm⟩
    exact Or.inr (hs.forall hq hr he)

theorem frameAligned_of_frames (h : RegionList regions)
    (hf : ∀ x y, AvailableByte regions x → y / 4096 = x / 4096 → AvailableByte regions y) :
    FrameAligned regions := by
  intro r hr ht
  have hl := h.nonempty r hr
  have hs : r.stop = r.base + r.length := rfl
  constructor
  · by_cases hb : r.base % 4096 = 0
    · exact Or.inl hb
    · -- the byte before the region lies in one that ends there
      obtain ⟨q, hq, hqt, h1, h2⟩ := hf r.base (r.base - 1)
        ⟨r, hr, ht, le_rfl, by omega⟩ (by omega)
      rcases h.eq_of_contains hq hr with rfl | h3 | h3
      · omega
      · exact Or.inr ⟨q, hq, hqt, by omega⟩
      · omega
  · by_cases hb : r.stop % 4096 = 0
    · exact Or.inl hb
    · obtain ⟨q, hq, hqt, h1, h2⟩ := hf (r.stop - 1) r.stop
        ⟨r, hr, ht, by omega, by omega⟩ (by omega)
      rcases h.eq_of_contains hq hr with rfl | h3 | h3
      · omega
      · omega
      · exact Or.inr ⟨q, hq, hqt, by omega⟩

end

/-- **What pmm_init makes available** are the frames in available memory exactly if
    the regions of available memory begin and end at frames, or at each other. -/
theorem init_clears_available {σ : Type} [Allocator σ] (behind : ℕ → UInt8)
    (entries : List MultibootMemoryMap) (heap heap' : σ) (p : Pmm)
    (hinit : Pmm.init behind entries heap = .ok (p, heap'))
    (h : RegionList (memoryRegions entries)) :
    ClearsAvailable (memoryRegions entries) p ↔ FrameAligned (memoryRegions entries) := by
  rw [Pmm.init_eq hinit]
  constructor
  · intro hc
    refine frameAligned_of_frames h fun x y hx hy => ?_
    have hxb : x / 4096 < 1048576 := by
      obtain ⟨r, hr, -, h1, h2⟩ := hx
      have := h.stop_le r hr
      omega
    have ht : ∃ r ∈ memoryRegions entries, Touches r (x / 4096) := by
      obtain ⟨r, hr, ht, hxr⟩ := hx
      exact ⟨r, hr, ht, x, hxr, rfl⟩
    exact (hc _ hxb).1 ((testFrame_init h behind hxb).2 ht) y (by omega) (by omega)
  · intro ha frame hf
    rw [testFrame_init h behind hf]
    constructor
    · rintro ⟨r, hr, ht⟩ y h1 h2
      obtain ⟨x, hx, rfl⟩ := availableByte_of_touches hr ht
      exact FrameAligned.whole ha h.nonempty hx (by omega)
    · intro hall
      obtain ⟨r, hr, ht, hx⟩ := hall (frame * 4096) le_rfl (by omega)
      exact ⟨r, hr, ht, _, hx, by omega⟩

/-! ## A map of a PC -/

/-- 639 KiB of available memory, with the reserved kilobyte behind it. -/
def pcMap : List MultibootMemoryMap := [⟨0, 0x9FC00, 1⟩, ⟨0x9FC00, 0x400, 2⟩]

def pcPmm : Pmm := (memoryRegions pcMap).foldl Pmm.markRegion (Pmm.allUsed fun _ => 0)

theorem pcMap_regions : memoryRegions pcMap = [⟨0, 0x9FC00, 1⟩, ⟨0x9FC00, 0x400, 2⟩] := by
  decide +kernel

theorem pcMap_regionList : RegionList (memoryRegions pcMap) := by
  rw [pcMap_regions]
  constructor <;> simp [stop]

theorem pcPmm_init : ∃ heap' : KernelHeap,
    Pmm.init (fun _ => 0) pcMap placementHeap = .ok (pcPmm, heap') :=
  Pmm.init_of_isSome (by decide +kernel)

/-- Two frames of available memory, with a reserved one behind them. -/
def evenMap : List MultibootMemoryMap := [⟨0x1000, 0x2000, 1⟩, ⟨0x3000, 0x1000, 2⟩]

theorem evenMap_regions : memoryRegions evenMap = [⟨0x1000, 0x2000, 1⟩, ⟨0x3000, 0x1000, 2⟩] := by
  decide +kernel

theorem init_clears_available_even : ∃ (p : Pmm) (heap' : KernelHeap),
    Pmm.init (fun _ => 0) evenMap placementHeap = .ok (p, heap') ∧
      ClearsAvailable (memoryRegions evenMap) p := by
  obtain ⟨heap', hinit⟩ : ∃ heap' : KernelHeap, Pmm.init (fun _ => 0) evenMap placementHeap =
      .ok ((memoryRegions evenMap).foldl Pmm.markRegion (Pmm.allUsed fun _ => 0), heap') :=
    Pmm.init_of_isSome (by decide +kernel)
  refine ⟨_, heap', hinit, (init_clears_available _ evenMap placementHeap heap' _ hinit ?_).2 ?_⟩
  · rw [evenMap_regions]
    constructor <;> simp [stop]
  · rw [evenMap_regions, FrameAligned]
    decide

/-- The last frame of the available memory holds the reserved kilobyte too. -/
theorem pcPmm_clears_reserved :
    (∃ heap' : KernelHeap, Pmm.init (fun _ => 0) pcMap placementHeap = .ok (pcPmm, heap')) ∧
      RegionList (memoryRegions pcMap) ∧ ¬ ClearsAvailable (memoryRegions pcMap) pcPmm := by
  refine ⟨pcPmm_init, pcMap_regionList, fun h => ?_⟩
  have ht : ∃ r ∈ memoryRegions pcMap, Touches r 0x9F := by
    rw [pcMap_regions]
    exact ⟨⟨0, 0x9FC00, 1⟩, by simp, rfl, 0x9F000, by simp [Contains, stop], rfl⟩
  have hc := (testFrame_init pcMap_regionList (fun _ => 0) (by decide)).2 ht
  obtain ⟨r, hr, hty, h1, h2⟩ := (h 0x9F (by decide)).1 hc 0x9FC00 (by decide) (by decide)
  rw [pcMap_regions] at hr
  rcases List.mem_cons.1 hr with rfl | hr
  · simp [stop] at h2
  · obtain rfl := List.mem_singleton.1 hr
    exact absurd hty (by decide)

end Ttos
