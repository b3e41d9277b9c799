/-
  The allocation of single frames.

  * `findFreeFrame_some`, `findFreeFrame_none`: the search by bytes and bits finds the
    lowest clear frame of the bytes it looks at.  The last byte of the bitmap is not
    one of them.
  * `allocFrame_sound`: a frame that is handed out was free, and no frame is handed
    out twice or while it is reserved.
  * `allocFrame_complete`: when a call fails only because no frame is left.
-/
import Ttos.Memory.PmmInit

namespace Ttos

namespace Pmm

variable {p : Pmm} {f g index n : ℕ}

/-! ## The search -/

theorem testFrame_of_byte (h : p.bitmap (f / 8) = 255) : p.testFrame f = true := by
  have hb : ∀ k < 8, (255 : UInt8).toNat.testBit k = true := by decide
  rw [testFrame_eq, h]
  exact hb _ (Nat.mod_lt _ (by decide))

theorem testFrame_bit {b : ℕ} (hb : b < 8) :
    p.testFrame (index * 8 + b) = (p.bitmap index &&& bit b != 0) := by
  have h1 : (index * 8 + b) / 8 = index := by omega
  have h2 : bit (index * 8 + b) = bit b := by
    rw [bit, bit]
    congr 2
    omega
  rw [testFrame, h1, h2]

theorem freeBit_some {b : ℕ} (h : p.freeBit index = some b) :
    p.testFrame (index * 8 + b) = false ∧ ∀ c < b, p.testFrame (index * 8 + c) = true := by
  obtain ⟨h1, as, bs, h2, h3⟩ := List.find?_eq_some_iff_append.1 h
  have hb := freeBit_lt h
  have hlen : as.length = b := by
    have hg : (List.range 8)[as.length]? = some b := by
      rw [h2, List.getElem?_append_right (Nat.le_refl _), Nat.sub_self]
      rfl
    have hlt : as.length < 8 := by
      have := (List.getElem?_eq_some_iff.1 hg).1
      rwa [List.length_range] at this
    rw [List.getElem?_range hlt] at hg
    exact Option.some.inj hg
  constructor
  · rw [testFrame_bit hb]
    simpa using h1
  · intro c hc
    have hm : c ∈ as := by
      have hg : (List.range 8)[c]? = some c := List.getElem?_range (by omega)
      rw [h2, List.getElem?_append_left (by omega)] at hg
      exact List.mem_of_getElem? hg
    rw [testFrame_bit (by omega)]
    simpa using h3 c hm

theorem freeBit_none (h : p.freeBit index = none) {c : ℕ} (hc : c < 8) :
    p.testFrame (index * 8 + c) = true := by
  have := List.find?_eq_none.1 h c (List.mem_range.2 hc)
  rw [testFrame_bit hc]
  simpa using this

/-- One byte of the search. -/
theorem byte_free {b : Option ℕ}
    (h : (if p.bitmap index != 255 then p.freeBit index else none) = b) :
    match b with
    | some b => b < 8 ∧ p.testFrame (index * 8 + b) = false ∧
        ∀ g, index * 8 ≤ g → g < index * 8 + b → p.testFrame g = true
    | none => ∀ g, index * 8 ≤ g → g < index * 8 + 8 → p.testFrame g = true := by
  split at h
  · cases b with
    | some b =>
      obtain ⟨h1, h2⟩ := freeBit_some h
      refine ⟨freeBit_lt h, h1, ?_⟩
      intro g hl hr
      have := h2 (g - index * 8) (by omega)
      rwa [Nat.add_sub_cancel' hl] at this
    | none =>
      intro g hl hr
      have := freeBit_none h (c := g - index * 8) (by omega)
      rwa [Nat.add_sub_cancel' hl] at this
  · rename_i hb
    subst h
    intro g hl hr
    have hg : g / 8 = index := by omega
    exact testFrame_of_byte (by rw [hg]; simpa using hb)

theorem findFreeFrom_some (h : p.findFreeFrom n index = some f) :
    p.testFrame f = false ∧ ∀ g, index * 8 ≤ g → g < f → p.testFrame g = true := by
  induction n generalizing index with
  | zero => cases h
  | succ n ih =>
    rw [findFreeFrom] at h
    split at h
    · rename_i b hb
      obtain ⟨-, h1, h2⟩ := byte_free hb
      obtain rfl := Option.some.inj h
      exact ⟨h1, h2⟩
    · rename_i hb
      have hbyte := byte_free hb
      obtain ⟨h1, h2⟩ := ih h
      refine ⟨h1, ?_⟩
      intro g hl hr
      by_cases hg : g < index * 8 + 8
      · exact hbyte g hl hg
      · exact h2 g (by omega) hr

theorem findFreeFrom_none (h : p.findFreeFrom n index = none) :
    ∀ g, index * 8 ≤ g → g < (index + n) * 8 → p.testFrame g = true := by
  induction n generalizing index with
  | zero =>
    intro g hl hr
    omega
  | succ n ih =>
    rw [findFreeFrom] at h
    split at h
    · cases h
    · rename_i hb
      have hbyte := byte_free hb
      intro g hl hr
      by_cases hg : g < index * 8 + 8
      · exact hbyte g hl hg
      · exact ih h g (by omega) (by omega)

theorem findFreeFrame_some (h : p.findFreeFrame = some f) :
    p.testFrame f = false ∧ ∀ g < f, p.testFrame g = true := by
  obtain ⟨h1, h2⟩ := findFreeFrom_some h
  exact ⟨h1, fun g hg => h2 g (by omega) hg⟩

/-- The search ends before the last byte of the bitmap. -/
theorem findFreeFrame_none (hp : p.numMemoryFrames = pmmNumFrames) (h : p.findFreeFrame = none) :
    ∀ g < 1048568, p.testFrame g = true := by
  intro g hg
  refine findFreeFrom_none h g (by omega) ?_
  rw [hp]
  unfold pmmNumFrames
  omega

/-! ## One call -/

/-- The counter refuses a call when every frame is used, or none is. -/
theorem Counted.full_iff (hp : p.Counted) : p.numMemoryFrames ≤ p.numMemoryFramesUsed ↔
    p.clearFrames.card = 0 ∨ p.clearFrames.card = 1048576 := by
  have h1 := hp.sum
  have h2 := hp.used_lt
  have h3 := clearFrames_card_le (p := p)
  rw [hp.total]
  unfold u32 pmmNumFrames at *
  omega

theorem clearFrames_card_zero : p.clearFrames.card = 0 ↔ ∀ g < 1048576, p.testFrame g = true := by
  rw [Finset.card_eq_zero, Finset.eq_empty_iff_forall_notMem]
  simp only [mem_clearFrames, not_and, Bool.not_eq_false]

theorem clearFrames_card_full (h : p.clearFrames.card = 1048576) (hg : g < 1048576) :
    p.testFrame g = false := by
  have hs : p.clearFrames = Finset.range 1048576 :=
    Finset.eq_of_subset_of_card_le (Finset.filter_subset _ _) (by rw [h, Finset.card_range])
  have hm : g ∈ p.clearFrames := by
    rw [hs]
    exact Finset.mem_range.2 hg
  exact (mem_clearFrames.1 hm).2

theorem pmmIndexToAddress_div (h : f < 1048576) : pmmIndexToAddress f / 4096 = f := by
  rw [pmmIndexToAddress, u32_of_lt (by omega)]
  omega

theorem pmmIndexToAddress_eq_zero (h : f < 1048576) : pmmIndexToAddress f = 0 ↔ f = 0 := by
  rw [pmmIndexToAddress, u32_of_lt (by omega)]
  omega

/-- **The outcomes of `pmm_alloc_frame`**: the counter refuses the call, no frame is
    found, or the lowest free frame is taken. -/
theorem allocFrame_cases (hp : p.Counted) :
    (p.numMemoryFrames ≤ p.numMemoryFramesUsed ∧ p.allocFrame = (0, p)) ∨
    (p.numMemoryFramesUsed < p.numMemoryFrames ∧ (∀ g < 1048568, p.testFrame g = true) ∧
      p.allocFrame = (0, p)) ∨
    ∃ f < 1048568, p.numMemoryFramesUsed < p.numMemoryFrames ∧ p.testFrame f = false ∧
      (∀ g < f, p.testFrame g = true) ∧ p.allocFrame = (pmmIndexToAddress f, p.setFrame f) := by
  unfold allocFrame
  by_cases hu : p.numMemoryFrames ≤ p.numMemoryFramesUsed
  · exact Or.inl ⟨hu, if_pos hu⟩
  · rw [if_neg hu]
    refine Or.inr ?_
    cases hf : p.findFreeFrame with
    | none => exact Or.inl ⟨by omega, findFreeFrame_none hp.total hf, rfl⟩
    | some f =>
      obtain ⟨h1, h2⟩ := findFreeFrame_some hf
      refine Or.inr ⟨f, ?_, by omega, h1, h2, rfl⟩
      have hlt := findFreeFrom_lt hf
      rw [hp.total] at hlt
      unfold pmmNumFrames at hlt
      omega

theorem setFrame_used (h : p.testFrame f = false) :
    (p.setFrame f).numMemoryFramesUsed = u32 (p.numMemoryFramesUsed + 1) := by
  rw [setFrame, if_neg (by rw [h]; decide)]

/-- What a frame at the address `a` that is handed out has been, and what changes. -/
structure FrameAllocated (p : Pmm) (a : ℕ) (p' : Pmm) : Prop where
  aligned : a % 4096 = 0
  free : p.testFrame (a / 4096) = false
  lowest : ∀ g < a / 4096, p.testFrame g = true
  set : ∀ g, p'.testFrame g = (p.testFrame g || decide (g = a / 4096))
  used : p'.numMemoryFramesUsed = p.numMemoryFramesUsed + 1

theorem allocFrame_spec (hp : p.Counted) (h : p.allocFrame.1 ≠ 0) :
    FrameAllocated p p.allocFrame.1 p.allocFrame.2 := by
  rcases allocFrame_cases hp with ⟨-, he⟩ | ⟨-, -, he⟩ | ⟨f, hf, hu, h1, h2, he⟩
  · exact absurd (congrArg Prod.fst he) h
  · exact absurd (congrArg Prod.fst he) h
  · rw [he]
    have ha : pmmIndexToAddress f / 4096 = f := pmmIndexToAddress_div (by omega)
    refine ⟨?_, ?_, ?_, ?_, ?_⟩
    · show u32 (f * 4096) % 4096 = 0
      rw [u32_of_lt (by omega), Nat.mul_mod_left]
    · rwa [ha]
    · rwa [ha]
    · intro g
      rw [ha]
      exact testFrame_setFrame
    · have hlt : p.numMemoryFramesUsed + 1 < 4294967296 := by
        rw [hp.total] at hu
        unfold pmmNumFrames at hu
        omega
      show (p.setFrame f).numMemoryFramesUsed = _
      rw [setFrame_used h1, u32_of_lt hlt]

end Pmm

/-! ## Frames that are held -/

/-- The calls that hand out, give back and reserve single frames. -/
inductive FrameOp where
  | allocFrame
  | freeFrame (frameAddr : ℕ)
  | markFrameReserved (frameAddr : ℕ)

/-- What a call did to which frame. -/
inductive FrameEvent where
  | handedOut (frame : ℕ)
  | refused
  | freed (frame : ℕ)
  | reserved (frame : ℕ)

namespace FrameOp

def toPmmOp : FrameOp → PmmOp
  | allocFrame => .allocFrame
  | freeFrame frameAddr => .freeFrame frameAddr
  | markFrameReserved frameAddr => .markFrameReserved frameAddr

def exec (p : Pmm) (op : FrameOp) : Pmm := (op.toPmmOp.exec p).2

/-- A call that returns `NULL` hands out nothing. -/
def event (p : Pmm) : FrameOp → FrameEvent
  | allocFrame =>
    if p.allocFrame.1 = 0 then .refused else .handedOut (p.allocFrame.1 / 4096)
  | freeFrame frameAddr => .freed (pmmAddressToIndex frameAddr)
  | markFrameReserved frameAddr => .reserved (pmmAddressToIndex frameAddr)

/-- What the calls of a run did. -/
def trace : Pmm → List FrameOp → List FrameEvent
  | _, [] => []
  | p, op :: ops => op.event p :: trace (op.exec p) ops

variable {p : Pmm} {f : ℕ} {op : FrameOp}

theorem counted_exec (hp : p.Counted) (op : FrameOp) : (op.exec p).Counted := by
  cases op with
  | allocFrame => exact PmmOp.counted_exec hp .allocFrame trivial
  | freeFrame frameAddr => exact PmmOp.counted_exec hp (.freeFrame frameAddr) trivial
  | markFrameReserved frameAddr =>
    exact PmmOp.counted_exec hp (.markFrameReserved frameAddr) trivial

/-- A frame that is handed out was not used. -/
theorem free_of_handedOut (hp : p.Counted) (h : op.event p = .handedOut f) :
    p.testFrame f = false := by
  cases op with
  | allocFrame =>
    rw [event] at h
    split at h
    · cases h
    · rename_i h0
      cases h
      exact (Pmm.allocFrame_spec hp h0).free
  | freeFrame frameAddr => cases h
  | markFrameReserved frameAddr => cases h

/-- A frame is used once it is handed out or reserved. -/
theorem used_of_event (hp : p.Counted)
    (h : op.event p = .handedOut f ∨ op.event p = .reserved f) :
    (op.exec p).testFrame f = true := by
  cases op with
  | allocFrame =>
    rcases h with h | h
    · rw [event] at h
      split at h
      · cases h
      · rename_i h0
        cases h
        show p.allocFrame.2.testFrame _ = true
        rw [(Pmm.allocFrame_spec hp h0).set, decide_eq_true rfl, Bool.or_true]
    · rw [event] at h
      split at h <;> cases h
  | freeFrame frameAddr => rcases h with h | h <;> cases h
  | markFrameReserved frameAddr =>
    rcases h with h | h
    · cases h
    · cases h
      show (p.setFrame _).testFrame _ = true
      rw [Pmm.testFrame_setFrame, decide_eq_true rfl, Bool.or_true]

/-- A used frame stays used until it is freed. -/
theorem used_exec (hp : p.Counted) (hu : p.testFrame f = true) (h : op.event p ≠ .freed f) :
    (op.exec p).testFrame f = true := by
  cases op with
  | allocFrame =>
    show p.allocFrame.2.testFrame f = true
    rcases Pmm.allocFrame_cases hp with ⟨-, he⟩ | ⟨-, -, he⟩ | ⟨g, -, -, -, -, he⟩
    · rwa [he]
    · rwa [he]
    · rw [he]
      show (p.setFrame g).testFrame f = true
      rw [Pmm.testFrame_setFrame, hu, Bool.true_or]
  | freeFrame frameAddr =>
    have hne : f ≠ pmmAddressToIndex frameAddr := by
      rintro rfl
      exact h rfl
    show (p.unsetFrame _).testFrame f = true
    rw [Pmm.testFrame_unsetFrame, hu, decide_eq_false hne]
    rfl
  | markFrameReserved frameAddr =>
    show (p.setFrame _).testFrame f = true
    rw [Pmm.testFrame_setFrame, hu, Bool.true_or]

/-- A used frame is freed before it is handed out. -/
theorem freed_of_used {mid post : List FrameEvent} {ops : List FrameOp} (hp : p.Counted)
    (hu : p.testFrame f = true) (h : trace p ops = mid ++ .handedOut f :: post) :
    .freed f ∈ mid := by
  induction mid generalizing p ops with
  | nil =>
    cases ops with
    | nil => cases h
    | cons op ops =>
      have hev : op.event p = .handedOut f := (List.cons.inj h).1
      rw [free_of_handedOut hp hev] at hu
      cases hu
  | cons e mid ih =>
    cases ops with
    | nil => cases h
    | cons op ops =>
      obtain ⟨hev, hrest⟩ := List.cons.inj h
      by_cases he : op.event p = .freed f
      · rw [← hev, he]
        exact List.mem_cons_self
      · exact List.mem_cons_of_mem _ (ih (counted_exec hp op) (used_exec hp hu he) hrest)

end FrameOp

/-- Between two events that take a frame, the second of which hands it out, it is freed. -/
def Exclusive (events : List FrameEvent) : Prop :=
  ∀ pre mid post e frame, events = pre ++ e :: (mid ++ .handedOut frame :: post) →
    e = .handedOut frame ∨ e = .reserved frame → .freed frame ∈ mid

theorem FrameOp.exclusive_trace {p : Pmm} (hp : p.Counted) (ops : List FrameOp) :
    Exclusive (FrameOp.trace p ops) := by
  intro pre mid post e frame h he
  induction pre generalizing p ops with
  | nil =>
    cases ops with
    | nil => cases h
    | cons op ops =>
      obtain ⟨hev, hrest⟩ := List.cons.inj h
      rw [← hev] at he
      exact freed_of_used (counted_exec hp op) (used_of_event hp he) hrest
  | cons e' pre ih =>
    cases ops with
    | nil => cases h
    | cons op ops => exact ih (counted_exec hp op) ops (List.cons.inj h).2

section
variable {σ : Type} [Allocator σ] {p : Pmm}

/-- **The allocation of a frame is sound** in every state that is reached: the frame is the
    lowest free one, and in no run from there is a frame handed out that is held. -/
theorem allocFrame_sound (h : (pmmSystem σ).Reachable p) :
    (p.allocFrame.1 ≠ 0 → Pmm.FrameAllocated p p.allocFrame.1 p.allocFrame.2) ∧
      ∀ ops, Exclusive (FrameOp.trace p ops) :=
  ⟨Pmm.allocFrame_spec (reachable_counted h), FrameOp.exclusive_trace (reachable_counted h)⟩

end

theorem allocFrame_sound_twoFrame :
    (twoFramePmm.allocFrame.1 ≠ 0 →
        Pmm.FrameAllocated twoFramePmm twoFramePmm.allocFrame.1 twoFramePmm.allocFrame.2) ∧
      ∀ ops, Exclusive (FrameOp.trace twoFramePmm ops) := by
  obtain ⟨heap', hinit⟩ := twoFramePmm_init
  exact allocFrame_sound (σ := KernelHeap) (.init ⟨placementHeap, heap', _, twoFrameMap, hinit⟩)

/-! ## Calls that fail -/

/-- The frames the loop over the regions clears for one of them. -/
def PmmMemoryRegion.frames (region : PmmMemoryRegion) : Set ℕ :=
  {frame | region.type = multibootMemoryAvailable ∧ pmmAddressToIndex region.base ≤ frame ∧
    frame ≤ pmmAddressToIndex (sub32 (u32 (region.base + region.length)) 1)}

/-- The frames pmm_init marks as available. -/
def initFrames (entries : List MultibootMemoryMap) : Set ℕ :=
  {frame | ∃ region ∈ memoryRegions entries, frame ∈ region.frames}

/-- The frames an operation marks as available. -/
def PmmOp.frames : PmmOp → Set ℕ
  | freeFrame frameAddr => {pmmAddressToIndex frameAddr}
  | freeFrames frameAddr n => {frame | ∃ i < n, frame = pmmAddressToIndex frameAddr + i}
  | markFrameAvailable frameAddr => {pmmAddressToIndex frameAddr}
  | _ => ∅

/-- The physical memory manager, with the frames that were ever marked as available. -/
def pmmHistory (σ : Type) [Allocator σ] : TransitionSystem (Pmm × Set ℕ) PmmOp where
  init s := ∃ (heap heap' : σ) (behind : ℕ → UInt8) (entries : List MultibootMemoryMap),
    Pmm.init behind entries heap = .ok (s.1, heap') ∧ s.2 = initFrames entries
  step s op s' := op.InRange ∧ s' = ((op.exec s.1).2, s.2 ∪ op.frames)

/-- A call fails only when every frame that was ever marked as available is in use, and
    then changes nothing. -/
def AllocComplete (p : Pmm) (available : Set ℕ) : Prop :=
  p.allocFrame.1 = 0 → (∀ f ∈ available, p.testFrame f = true) ∧ p.allocFrame.2 = p

/-- The clear frames were marked as available. -/
structure Marked (p : Pmm) (available : Set ℕ) : Prop where
  counted : p.Counted
  lt : ∀ f ∈ available, f < 1048576
  clear : ∀ f < 1048576, p.testFrame f = false → f ∈ available

namespace Marked

variable {p : Pmm} {available : Set ℕ} {f : ℕ}

theorem markRegion_clear {region : PmmMemoryRegion}
    (h : (p.markRegion region).testFrame f = false) : p.testFrame f = false ∨ f ∈ region.frames := by
  unfold Pmm.markRegion at h
  split at h
  · rename_i ht
    rw [Pmm.testFrame_unsetFrames, Bool.and_eq_false_iff, Bool.not_eq_false', decide_eq_true_iff] at h
    rcases h with h | ⟨i, hi, rfl⟩
    · exact Or.inl h
    · have h1 := Pmm.addressToIndex_lt region.base
      have h2 := Pmm.addressToIndex_lt (sub32 (u32 (region.base + region.length)) 1)
      refine Or.inr ⟨ht, ?_, ?_⟩
      · rw [u32_of_lt (by omega)]
        omega
      · rw [u32_of_lt (by omega)]
        omega
  · exact Or.inl h

theorem regions_clear {regions : List PmmMemoryRegion}
    (h : (regions.foldl Pmm.markRegion p).testFrame f = false) :
    p.testFrame f = false ∨ ∃ region ∈ regions, f ∈ region.frames := by
  induction regions generalizing p with
  | nil => exact Or.inl h
  | cons region regions ih =>
    rcases ih h with h | ⟨r, hr, hf⟩
    · rcases markRegion_clear h with h | h
      · exact Or.inl h
      · exact Or.inr ⟨region, List.mem_cons_self, h⟩
    · exact Or.inr ⟨r, List.mem_cons_of_mem _ hr, hf⟩

theorem init (behind : ℕ → UInt8) (entries : List MultibootMemoryMap) :
    Marked ((memoryRegions entries).foldl Pmm.markRegion (Pmm.allUsed behind))
      (initFrames entries) where
  counted := Pmm.Counted.init _ (Pmm.Counted.allUsed behind)
  lt := by
    rintro f ⟨region, -, -, -, hf⟩
    exact lt_of_le_of_lt hf (Pmm.addressToIndex_lt _)
  clear := by
    intro f hf h
    rcases regions_clear h with h | h
    · rw [Pmm.allUsed_testFrame hf] at h
      cases h
    · exact h

/-- A frame is clear after an operation if it was before, or the operation marks it. -/
theorem exec_clear (hp : p.Counted) {op : PmmOp} (hr : op.InRange)
    (h : (op.exec p).2.testFrame f = false) : p.testFrame f = false ∨ f ∈ op.frames := by
  have hset : ∀ g, (p.setFrame g).testFrame f = false → p.testFrame f = false := by
    intro g hg
    rw [Pmm.testFrame_setFrame, Bool.or_eq_false_iff] at hg
    exact hg.1
  have hunset : ∀ g, (p.unsetFrame g).testFrame f = false → p.testFrame f = false ∨ f = g := by
    intro g hg
    rwa [Pmm.testFrame_unsetFrame, Bool.and_eq_false_iff, Bool.not_eq_false',
      decide_eq_true_iff] at hg
  cases op with
  | allocFrame =>
    rcases Pmm.allocFrame_cases hp with ⟨-, he⟩ | ⟨-, -, he⟩ | ⟨g, -, -, -, -, he⟩
    · exact Or.inl (by rwa [PmmOp.exec, he] at h)
    · exact Or.inl (by rwa [PmmOp.exec, he] at h)
    · rw [PmmOp.exec, he] at h
      exact Or.inl (hset g h)
  | allocFrames n =>
    refine Or.inl ?_
    have h' : (p.allocFrames n).2.testFrame f = false := h
    unfold Pmm.allocFrames at h'
    split at h'
    · exact h'
    · split at h'
      · exact h'
      · rw [Pmm.testFrame_setFrames, Bool.or_eq_false_iff] at h'
        exact h'.1
  | freeFrame frameAddr => exact hunset _ h
  | freeFrames frameAddr n =>
    have h' : (p.unsetFrames (pmmAddressToIndex frameAddr) n).testFrame f = false := h
    rw [Pmm.testFrame_unsetFrames, Bool.and_eq_false_iff, Bool.not_eq_false',
      decide_eq_true_iff] at h'
    rcases h' with h | ⟨i, hi, rfl⟩
    · exact Or.inl h
    · have := hr i hi
      exact Or.inr ⟨i, hi, u32_of_lt (by omega)⟩
  | markFrameReserved frameAddr => exact Or.inl (hset _ h)
  | markFrameAvailable frameAddr => exact hunset _ h

theorem frames_lt {op : PmmOp} (hr : op.InRange) (hf : f ∈ op.frames) : f < 1048576 := by
  cases op with
  | freeFrame frameAddr => exact hf ▸ Pmm.addressToIndex_lt _
  | freeFrames frameAddr n =>
    obtain ⟨i, hi, rfl⟩ := hf
    exact hr i hi
  | markFrameAvailable frameAddr => exact hf ▸ Pmm.addressToIndex_lt _
  | allocFrame => exact absurd hf (Set.notMem_empty f)
  | allocFrames n => exact absurd hf (Set.notMem_empty f)
  | markFrameReserved frameAddr => exact absurd hf (Set.notMem_empty f)

theorem exec (h : Marked p available) {op : PmmOp} (hr : op.InRange) :
    Marked (op.exec p).2 (available ∪ op.frames) where
  counted := PmmOp.counted_exec h.counted op hr
  lt := by
    rintro f (hf | hf)
    · exact h.lt f hf
    · exact frames_lt hr hf
  clear := by
    intro f hf hc
    rcases exec_clear h.counted hr hc with h1 | h1
    · exact Or.inl (h.clear f hf h1)
    · exact Or.inr h1

end Marked

section
variable {σ : Type} [Allocator σ] {p : Pmm} {available : Set ℕ}

theorem reachable_marked {s : Pmm × Set ℕ} (h : (pmmHistory σ).Reachable s) : Marked s.1 s.2 := by
  refine h.invariant (P := fun s => Marked s.1 s.2) (fun s hs => ?_) (fun s op s' _ hm hstep => ?_)
  · obtain ⟨heap, heap', behind, entries, hinit, hav⟩ := hs
    rw [Pmm.init_eq hinit, hav]
    exact Marked.init behind entries
  · obtain ⟨hr, rfl⟩ := hstep
    exact hm.exec hr

/-- **The allocation of a frame is complete** in a state that is reached exactly if no frame
    is free, or frame 0 is used and one of the others is free that are not in the
    last byte of the bitmap. -/
theorem allocFrame_complete (h : (pmmHistory σ).Reachable (p, available)) :
    AllocComplete p available ↔ (∀ f < 1048576, p.testFrame f = true) ∨
      (p.testFrame 0 = true ∧ ∃ f < 1048568, p.testFrame f = false) := by
  obtain ⟨hp, hlt, hclear⟩ := reachable_marked h
  have hall : (∀ f ∈ available, p.testFrame f = true) ↔ ∀ f < 1048576, p.testFrame f = true := by
    constructor
    · intro ha f hf
      by_contra hc
      exact hc (ha f (hclear f hf (Bool.eq_false_iff.2 hc)))
    · intro ha f hf
      exact ha f (hlt f hf)
  unfold AllocComplete
  rw [hall]
  rcases Pmm.allocFrame_cases hp with ⟨hfull, he⟩ | ⟨-, hnone, he⟩ | ⟨f, hf, hu, hfree, hlow, he⟩
  · rw [he]
    constructor
    · intro hc
      exact Or.inl (hc rfl).1
    · rintro (hc | ⟨h0, g, hg, hgf⟩) -
      · exact ⟨hc, rfl⟩
      · exfalso
        rcases hp.full_iff.1 hfull with hcard | hcard
        · rw [Pmm.clearFrames_card_zero.1 hcard g (by omega)] at hgf
          cases hgf
        · rw [Pmm.clearFrames_card_full hcard (by decide)] at h0
          cases h0
  · rw [he]
    constructor
    · intro hc
      exact Or.inl (hc rfl).1
    · rintro (hc | ⟨h0, g, hg, hgf⟩) -
      · exact ⟨hc, rfl⟩
      · rw [hnone g hg] at hgf
        cases hgf
  · rw [he]
    constructor
    · intro hc
      by_cases h0 : f = 0
      · -- the address of frame 0 is `NULL`, and the frame is marked
        subst h0
        have hset : (p.setFrame 0).testFrame 0 = true := by
          rw [Pmm.testFrame_setFrame, decide_eq_true rfl, Bool.or_true]
        have hsame : p.setFrame 0 = p := (hc rfl).2
        rw [hsame, hfree] at hset
        cases hset
      · exact Or.inr ⟨hlow 0 (by omega), f, hf, hfree⟩
    · rintro (hc | ⟨h0, -⟩) ha
      · rw [hc f (by omega)] at hfree
        cases hfree
      · have hz : f = 0 := (Pmm.pmmIndexToAddress_eq_zero (by omega)).1 ha
        rw [hz, h0] at hfree
        cases hfree

end

theorem allocFrame_complete_twoFrame : AllocComplete twoFramePmm (initFrames twoFrameMap) := by
  obtain ⟨heap', hinit⟩ := twoFramePmm_init
  refine (allocFrame_complete (σ := KernelHeap)
    (.init ⟨placementHeap, heap', _, twoFrameMap, hinit, rfl⟩)).2 (Or.inr ⟨by decide +kernel, 1, ?_⟩)
  exact ⟨by decide, by decide +kernel⟩

/-- The memory of a PC begins with frame 0, whose address is `NULL`. -/
theorem allocFrame_incomplete_pc :
    (pmmHistory KernelHeap).Reachable (pcPmm, initFrames pcMap) ∧
      ¬ AllocComplete pcPmm (initFrames pcMap) := by
  obtain ⟨heap', hinit⟩ := pcPmm_init
  refine ⟨.init ⟨placementHeap, heap', fun _ => 0, pcMap, ?_, ?_⟩, ?_⟩
  · dsimp only
    exact hinit
  · rfl
  intro h
  have hnull : pcPmm.allocFrame.1 = 0 := by decide +kernel
  have hset : pcPmm.allocFrame.2.testFrame 0 = true := by decide +kernel
  have hfree : pcPmm.testFrame 0 = false := by decide +kernel
  rw [(h hnull).2, hfree] at hset
  cases hset

end Ttos
