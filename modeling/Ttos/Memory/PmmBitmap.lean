/-
  The bitmap of the frames, from pmm_init on.

  * `testFrame_setFrame`, `testFrame_unsetFrame`: setting and clearing a frame
    changes the bit of that frame and no other.
  * `returns_init`: what pmm_init leaves, whenever it returns.
-/
import Ttos.Memory.Pmm
import Ttos.Memory.PmmRegions
import Mathlib.Data.Nat.Bitwise

namespace Ttos

/-- `PMM_PAS_SIZE / PMM_FRAME_SIZE` -/
abbrev pmmNumFrames : ℕ := 0xFFFFFFFF / 4096

/-- `pmm_bitmap_size`: the number of frames by 8, rounded up -/
abbrev pmmBitmapSize : ℕ := (pmmNumFrames + 7) / 8

namespace Pmm

/-! ## More of the allocator -/

/-- `pmm_get_available_memory_size` -/
def getAvailableMemorySize (p : Pmm) : ℕ :=
  u32 (sub32 p.numMemoryFrames p.numMemoryFramesUsed * 4096)

/-- One bit of the search for contiguous frames, with the number of free frames
    and the first of them so far; an error is the frame that is found.  The source
    tests the byte at the index of the bit. -/
def contiguousBit (p : Pmm) (n index : ℕ) (s : ℕ × ℕ) (bitIndex : ℕ) : Except ℕ (ℕ × ℕ) :=
  if p.bitmap bitIndex &&& bit bitIndex == 0 then
    let startFrame := if s.1 = 0 then index * 8 + bitIndex else s.2
    if s.1 + 1 = n then .error startFrame else .ok (s.1 + 1, startFrame)
  else .ok (0, s.2)

def contiguousByte (p : Pmm) (n : ℕ) (s : ℕ × ℕ) (index : ℕ) : Except ℕ (ℕ × ℕ) :=
  if p.bitmap index != 255 then (List.range 8).foldlM (p.contiguousBit n index) s else .ok s

/-- `pmm_find_free_contiguous_frames`; `none` is `-1`. -/
def findFreeContiguousFrames (p : Pmm) (n : ℕ) : Option ℕ :=
  match (List.range (p.numMemoryFrames / 8)).foldlM (p.contiguousByte n) (0, 0) with
  | .error frame => some frame
  | .ok _ => none

def setFrames (p : Pmm) (frame n : ℕ) : Pmm :=
  (List.range n).foldl (fun p i => p.setFrame (u32 (frame + i))) p

def unsetFrames (p : Pmm) (frame n : ℕ) : Pmm :=
  (List.range n).foldl (fun p i => p.unsetFrame (u32 (frame + i))) p

/-- `pmm_alloc_frames`: the address of the first frame, or `0`. -/
def allocFrames (p : Pmm) (n : ℕ) : ℕ × Pmm :=
  if p.numMemoryFrames ≤ u32 (p.numMemoryFramesUsed + n) then (0, p)
  else
    match p.findFreeContiguousFrames n with
    | none => (0, p)
    | some frame => (pmmIndexToAddress frame, p.setFrames frame n)

/-- `pmm_free_frames` -/
def freeFrames (p : Pmm) (frameAddr n : ℕ) : Pmm := p.unsetFrames (pmmAddressToIndex frameAddr) n

/-! ## Initialisation -/

/-- The bitmap with every frame used; `behind` is what memory holds behind it. -/
def allUsed (behind : ℕ → UInt8) : Pmm where
  bitmap i := if i < pmmBitmapSize then 255 else behind i
  numMemoryFrames := pmmNumFrames
  numMemoryFramesUsed := pmmNumFrames

/-- The body of the loop over the regions: the frames from the one of the region's
    first byte to the one of its last. -/
def markRegion (p : Pmm) (region : PmmMemoryRegion) : Pmm :=
  if region.type = multibootMemoryAvailable then
    let regionStartFrame := pmmAddressToIndex region.base
    let regionEndFrame := pmmAddressToIndex (sub32 (u32 (region.base + region.length)) 1)
    p.unsetFrames regionStartFrame (regionEndFrame + 1 - regionStartFrame)
  else p

/-- `pmm_init`, of a memory map with these entries -/
def init {σ : Type} [Allocator σ] (behind : ℕ → UInt8) (entries : List MultibootMemoryMap) :
    StateT σ (Except PmmStop) Pmm := do
  let memoryRegions ← pmmFetchMemoryRegions entries
  let _ ← pmmKmalloc pmmBitmapSize true
  let _ ← pmmKmalloc 96 false
  pure (memoryRegions.foldl markRegion (allUsed behind))

theorem returns_init {σ : Type} [Allocator σ] {behind : ℕ → UInt8}
    {entries : List MultibootMemoryMap} {allowed : PmmStop → Prop}
    (h : allowed .kheapOutOfMemory) : Returns allowed (init (σ := σ) behind entries)
      (· = (memoryRegions entries).foldl markRegion (allUsed behind)) := by
  refine (returns_fetch h).bind fun regions hr => (returns_pmmKmalloc h).bind fun _ _ =>
    (returns_pmmKmalloc h).bind fun _ _ => Returns.pure ?_
  rw [hr]

theorem init_eq {σ : Type} [Allocator σ] {behind : ℕ → UInt8} {entries : List MultibootMemoryMap}
    {heap heap' : σ} {p : Pmm} (h : init behind entries heap = .ok (p, heap')) :
    p = (memoryRegions entries).foldl markRegion (allUsed behind) := by
  have hr : Returns (fun _ => True) (init (σ := σ) behind entries) _ := returns_init trivial
  have hr := hr heap
  rw [Meets, h] at hr
  exact hr

theorem init_of_isSome {σ : Type} [Allocator σ] {behind : ℕ → UInt8}
    {entries : List MultibootMemoryMap} {heap : σ}
    (h : (init behind entries heap).toOption.isSome = true) : ∃ heap',
      init behind entries heap =
        .ok ((memoryRegions entries).foldl markRegion (allUsed behind), heap') := by
  cases hx : init behind entries heap with
  | error e =>
    rw [hx] at h
    exact absurd h (by simp [Except.toOption])
  | ok r => exact ⟨r.2, by rw [← init_eq hx]⟩

/-! ## Bits -/

variable {p : Pmm} {f g : ℕ}

theorem bit_toNat (f : ℕ) : (bit f).toNat = 2 ^ (f % 8) := by
  have h : ∀ k < 8, (1 <<< UInt8.ofNat k : UInt8).toNat = 2 ^ k := by decide
  exact h _ (Nat.mod_lt _ (by decide))

theorem testFrame_eq : p.testFrame f = (p.bitmap (f / 8)).toNat.testBit (f % 8) := by
  have h : (p.bitmap (f / 8) &&& bit f).toNat =
      ((p.bitmap (f / 8)).toNat.testBit (f % 8)).toNat * 2 ^ (f % 8) := by
    rw [UInt8.toNat_and, bit_toNat, Nat.and_two_pow]
  unfold testFrame
  cases ht : (p.bitmap (f / 8)).toNat.testBit (f % 8) with
  | false =>
    have h0 : p.bitmap (f / 8) &&& bit f = 0 := UInt8.toNat_inj.1 (by simpa [ht] using h)
    simp [h0]
  | true =>
    rw [bne_iff_ne]
    intro h0
    rw [h0, ht] at h
    have hp : 0 < 2 ^ (f % 8) := Nat.two_pow_pos _
    simp only [UInt8.toNat_zero, Bool.toNat_true, Nat.one_mul] at h
    omega

theorem decide_frame (hb : g / 8 = f / 8) : decide (f % 8 = g % 8) = decide (g = f) :=
  decide_eq_decide.2 (by omega)

theorem frame_ne (hb : ¬ g / 8 = f / 8) : decide (g = f) = false :=
  decide_eq_false fun h => hb (h ▸ rfl)

theorem testBit_not_bit (f g : ℕ) :
    (~~~ bit f).toNat.testBit (g % 8) = !decide (f % 8 = g % 8) := by
  have hlt : 2 ^ (f % 8) < 2 ^ 8 := Nat.pow_lt_pow_right (by decide) (Nat.mod_lt _ (by decide))
  have hn : (~~~ bit f).toNat = 2 ^ 8 - (2 ^ (f % 8) + 1) := by
    rw [UInt8.toNat_not, bit_toNat]
    have : UInt8.size = 256 := rfl
    omega
  have hg : g % 8 < 8 := Nat.mod_lt _ (by decide)
  rw [hn, Nat.testBit_two_pow_sub_succ hlt, Nat.testBit_two_pow, decide_eq_true hg, Bool.true_and]

theorem testFrame_setFrame : (p.setFrame f).testFrame g = (p.testFrame g || decide (g = f)) := by
  unfold setFrame
  split
  · rename_i h
    by_cases hg : g = f
    · rw [hg, h, Bool.true_or]
    · rw [decide_eq_false hg, Bool.or_false]
  · rw [testFrame_eq, testFrame_eq]
    dsimp only
    split
    · rename_i hb
      rw [UInt8.toNat_or, Nat.testBit_or, bit_toNat, Nat.testBit_two_pow, decide_frame hb]
    · rename_i hb
      rw [frame_ne hb, Bool.or_false]

theorem testFrame_unsetFrame :
    (p.unsetFrame f).testFrame g = (p.testFrame g && !decide (g = f)) := by
  unfold unsetFrame
  split
  · rename_i h
    by_cases hg : g = f
    · rw [hg, decide_eq_true rfl, Bool.not_true, Bool.and_false]
      simpa using h
    · rw [decide_eq_false hg, Bool.not_false, Bool.and_true]
  · rw [testFrame_eq, testFrame_eq]
    dsimp only
    split
    · rename_i hb
      rw [UInt8.toNat_and, Nat.testBit_and, testBit_not_bit, decide_frame hb]
    · rename_i hb
      rw [frame_ne hb, Bool.not_false, Bool.and_true]

theorem testFrame_unsetFrames {n : ℕ} :
    (p.unsetFrames f n).testFrame g = (p.testFrame g && !decide (∃ i < n, g = u32 (f + i))) := by
  unfold unsetFrames
  induction n with
  | zero => simp
  | succ n ih =>
    rw [List.range_succ, List.foldl_append, List.foldl_cons, List.foldl_nil, testFrame_unsetFrame,
      ih, Bool.and_assoc, ← Bool.not_or, ← Bool.decide_or]
    refine congrArg (fun b => p.testFrame g && !b) (decide_eq_decide.2 ?_)
    constructor
    · rintro (⟨i, hi, h⟩ | h)
      · exact ⟨i, by omega, h⟩
      · exact ⟨n, by omega, h⟩
    · rintro ⟨i, hi, h⟩
      by_cases hin : i = n
      · exact Or.inr (hin ▸ h)
      · exact Or.inl ⟨i, by omega, h⟩

theorem testFrame_setFrames {n : ℕ} :
    (p.setFrames f n).testFrame g = (p.testFrame g || decide (∃ i < n, g = u32 (f + i))) := by
  unfold setFrames
  induction n with
  | zero => simp
  | succ n ih =>
    rw [List.range_succ, List.foldl_append, List.foldl_cons, List.foldl_nil, testFrame_setFrame,
      ih, Bool.or_assoc, ← Bool.decide_or]
    refine congrArg (p.testFrame g || ·) (decide_eq_decide.2 ?_)
    constructor
    · rintro (⟨i, hi, h⟩ | h)
      · exact ⟨i, by omega, h⟩
      · exact ⟨n, by omega, h⟩
    · rintro ⟨i, hi, h⟩
      by_cases hin : i = n
      · exact Or.inr (hin ▸ h)
      · exact Or.inl ⟨i, by omega, h⟩

theorem allUsed_testFrame {behind : ℕ → UInt8} (h : f < 1048576) :
    (allUsed behind).testFrame f = true := by
  have hb : (allUsed behind).bitmap (f / 8) = 255 := if_pos (by
    show f / 8 < pmmBitmapSize
    unfold pmmBitmapSize pmmNumFrames
    omega)
  rw [testFrame_eq, hb]
  have ht : ∀ k < 8, (255 : UInt8).toNat.testBit k = true := by decide
  exact ht _ (Nat.mod_lt _ (by decide))

end Pmm

end Ttos
