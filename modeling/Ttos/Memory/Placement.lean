/-
  The placement memory of the boot phase, over runs of `kmalloc` and `kmalloc_a`.

  * `PlacementOk`: what was returned lies in the placement memory, block after block, and
    the two counters agree.
  * `placement_sound`: it holds as long as no padded size wraps around to one that is
    small enough (`PaddingFits`), and the first that does breaks it.
-/
import Ttos.Lib.Run
import Ttos.Memory.Kheap

namespace Ttos

/-- A result that is not `NULL`: the pointer, the size asked for, and whether it was asked
    for with `kmalloc_a`. -/
structure PlacedBlock where
  ptr : ℕ
  size : ℕ
  align : Bool

/-- The heap before `kheap_init` with the results so far, the last one first. -/
structure PlacementRun where
  heap : Kheap
  results : List PlacedBlock

/-- A call of the boot phase. -/
inductive PlacementOp where
  | kmalloc (size : ℕ)
  | kmallocA (size : ℕ)

namespace PlacementOp

def size : PlacementOp → ℕ
  | kmalloc size => size
  | kmallocA size => size

def align : PlacementOp → Bool
  | kmalloc _ => false
  | kmallocA _ => true

end PlacementOp

namespace PlacementRun

/-- The call on the heap. -/
def call (h : Kheap) : PlacementOp → Option (ℕ × Kheap)
  | .kmalloc size => h.kmalloc size
  | .kmallocA size => h.kmallocA size

/-- The pointer returned, and the state afterwards. -/
def exec (s : PlacementRun) (op : PlacementOp) : Option (ℕ × PlacementRun) :=
  (call s.heap op).map fun r =>
    (r.1, ⟨r.2, if r.1 = 0 then s.results else ⟨r.1, op.size, op.align⟩ :: s.results⟩)

end PlacementRun

/-- The padding in front of the next page boundary, as the code computes it. -/
def placementPadding (h : Kheap) : ℕ := sub32 (vmmAlignUp h.placementHead) h.placementHead

/-- The size with its padding does not wrap around to one that is small enough, in a call
    of `kmalloc_a` whose page boundary is in the address space. -/
def PaddingFits (s : PlacementRun) (op : PlacementOp) : Prop :=
  op.align = true → vmmAlignUp s.heap.placementHead ≠ 0 →
    u32 (op.size + placementPadding s.heap) ≤ s.heap.placementFree →
      op.size + placementPadding s.heap < 4294967296

instance (s : PlacementRun) (op : PlacementOp) : Decidable (PaddingFits s op) :=
  inferInstanceAs (Decidable (_ → _ → _ → _))

/-- The calls before `kheap_init`, with the placement memory at `start`. -/
def placementSystem (start : ℕ) (condition : PlacementRun → PlacementOp → Prop) :
    TransitionSystem PlacementRun PlacementOp where
  init s := s.heap.enabled = false ∧ s.heap.placementHead = start ∧
    s.heap.placementFree = kheapPlacementSize ∧ s.results = []
  step s op s' := op.size < 4294967296 ∧ condition s op ∧ ∃ r, s.exec op = some (r, s')

/-- Every result is in the placement memory with the size asked for, aligned when it was
    asked for, and overlaps no earlier one; the two counters add up to the end. -/
structure PlacementOk (start : ℕ) (s : PlacementRun) : Prop where
  inside : ∀ b ∈ s.results, start ≤ b.ptr ∧ b.ptr + b.size ≤ start + kheapPlacementSize
  aligned : ∀ b ∈ s.results, b.align = true → b.ptr % 4096 = 0
  apart : s.results.Pairwise fun b c => c.ptr + c.size ≤ b.ptr ∨ b.ptr + b.size ≤ c.ptr
  counters : s.heap.placementHead + s.heap.placementFree = start + kheapPlacementSize

/-- The same with what was handed out below the head. -/
structure PlacementRun.Below (start : ℕ) (s : PlacementRun) : Prop where
  disabled : s.heap.enabled = false
  below : ∀ b ∈ s.results, start ≤ b.ptr ∧ b.ptr + b.size ≤ s.heap.placementHead
  aligned : ∀ b ∈ s.results, b.align = true → b.ptr % 4096 = 0
  apart : s.results.Pairwise fun b c => c.ptr + c.size ≤ b.ptr
  lower : start ≤ s.heap.placementHead
  counters : s.heap.placementHead + s.heap.placementFree = start + kheapPlacementSize

namespace PlacementRun

variable {start : ℕ} {s s' : PlacementRun} {op : PlacementOp} {r : ℕ}

theorem Below.ok (h : s.Below start) : PlacementOk start s := by
  have hc := h.counters
  refine ⟨fun b hb => ?_, h.aligned, h.apart.imp fun h => Or.inl h, hc⟩
  have := h.below b hb
  exact ⟨this.1, by omega⟩

theorem call_eq (hd : s.heap.enabled = false) (op : PlacementOp) :
    call s.heap op = some (s.heap.kmallocPlacement op.size op.align) := by
  cases op with
  | kmalloc size => simp [call, Kheap.kmalloc, Kheap.kmallocInt, hd, PlacementOp.size, PlacementOp.align]
  | kmallocA size =>
    simp [call, Kheap.kmallocA, Kheap.kmallocInt, hd, PlacementOp.size, PlacementOp.align]

/-- A call leaves everything as it is and returns `NULL`, or moves both counters by the
    bytes taken, which begin with the padding. -/
inductive Places (h : Kheap) (op : PlacementOp) : ℕ × Kheap → Prop
  | refused : Places h op (0, h)
  | placed {n a : ℕ} : n ≤ h.placementFree →
      (op.align = false → n = op.size ∧ a = h.placementHead) →
      (op.align = true → n = u32 (op.size + placementPadding h) ∧ a = vmmAlignUp h.placementHead) →
      Places h op (a, { h with placementHead := u32 (h.placementHead + n)
                               placementFree := h.placementFree - n })

theorem places (h : Kheap) (op : PlacementOp) :
    Places h op (h.kmallocPlacement op.size op.align) := by
  unfold Kheap.kmallocPlacement
  cases ha : op.align with
  | false =>
    simp only [Bool.false_eq_true, if_false]
    split
    · exact .refused
    · exact .placed (by omega) (fun _ => ⟨rfl, rfl⟩) (fun h => by rw [ha] at h; cases h)
  | true =>
    simp only [if_true]
    split
    · exact .refused
    · exact .placed (by omega) (fun h => by rw [ha] at h; cases h) (fun _ => ⟨rfl, rfl⟩)

theorem exec_places (hd : s.heap.enabled = false) (he : s.exec op = some (r, s')) :
    ∃ h', Places s.heap op (r, h') ∧
      s' = ⟨h', if r = 0 then s.results else ⟨r, op.size, op.align⟩ :: s.results⟩ := by
  have hp := places s.heap op
  unfold exec at he
  rw [call_eq hd] at he
  obtain ⟨rfl, rfl⟩ := Prod.mk.inj (Option.some.inj he)
  exact ⟨_, hp, rfl⟩

/-- Where a block is placed: between the old head and the new one, when the padded size
    does not wrap. -/
theorem placed_between {h : Kheap} {n a : ℕ} (hb : h.placementHead + h.placementFree < 4294967296)
    (hn : n ≤ h.placementFree) (ha : a ≠ 0)
    (hu : op.align = false → n = op.size ∧ a = h.placementHead)
    (hal : op.align = true → n = u32 (op.size + placementPadding h) ∧ a = vmmAlignUp h.placementHead)
    (hf : op.align = true → op.size + placementPadding h < 4294967296) :
    h.placementHead ≤ a ∧ a + op.size ≤ h.placementHead + n := by
  cases hop : op.align with
  | false =>
    obtain ⟨rfl, rfl⟩ := hu hop
    exact ⟨le_rfl, le_rfl⟩
  | true =>
    obtain ⟨rfl, rfl⟩ := hal hop
    have hf := hf hop
    rw [u32_of_lt hf]
    unfold placementPadding vmmAlignUp sub32 u32 at *
    omega

/-- **One call** keeps the invariant when its padding fits. -/
theorem Below.step (hb : s.Below start) (hend : start + kheapPlacementSize < 4294967296)
    (hf : PaddingFits s op) (he : s.exec op = some (r, s')) :
    s'.Below start := by
  have hc := hb.counters
  obtain ⟨h', hp, rfl⟩ := exec_places hb.disabled he
  cases hp with
  | refused => exact hb
  | @placed n _ hn hu hal =>
    have hhead : u32 (s.heap.placementHead + n) = s.heap.placementHead + n := u32_of_lt (by omega)
    have hcount : u32 (s.heap.placementHead + n) + (s.heap.placementFree - n)
        = start + kheapPlacementSize := by omega
    have hl := hb.lower
    by_cases h0 : r = 0
    · rw [if_pos h0]
      refine ⟨hb.disabled, fun b hm => ?_, hb.aligned, hb.apart, ?_, hcount⟩
      · have := hb.below b hm
        show start ≤ b.ptr ∧ b.ptr + b.size ≤ u32 (s.heap.placementHead + n)
        omega
      · show start ≤ u32 (s.heap.placementHead + n)
        omega
    · rw [if_neg h0]
      obtain ⟨h1, h2⟩ := placed_between (by omega) hn h0 hu hal fun ha => by
        obtain ⟨h3, h4⟩ := hal ha
        exact hf ha (h4 ▸ h0) (h3 ▸ hn)
      refine ⟨hb.disabled, fun b hm => ?_, fun b hm ha => ?_, ?_, ?_, hcount⟩
      · show start ≤ b.ptr ∧ b.ptr + b.size ≤ u32 (s.heap.placementHead + n)
        rcases List.mem_cons.1 hm with rfl | hm
        · dsimp only
          omega
        · have := hb.below b hm
          omega
      · rcases List.mem_cons.1 hm with rfl | hm
        · rw [(hal ha).2]
          exact vmmAlignUp_mod _
        · exact hb.aligned b hm ha
      · refine List.pairwise_cons.2 ⟨fun b hm => ?_, hb.apart⟩
        exact (hb.below b hm).2.trans h1
      · show start ≤ u32 (s.heap.placementHead + n)
        omega

/-- A call whose padded size wraps returns a block that runs over the end. -/
theorem Below.wrapped (hb : s.Below start) (hend : start + kheapPlacementSize < 4294967296)
    (hf : ¬ PaddingFits s op) (he : s.exec op = some (r, s')) : ¬ PlacementOk start s' := by
  obtain ⟨ha, hne, hle, hge⟩ : op.align = true ∧ vmmAlignUp s.heap.placementHead ≠ 0 ∧
      u32 (op.size + placementPadding s.heap) ≤ s.heap.placementFree ∧
      4294967296 ≤ op.size + placementPadding s.heap := by
    simpa [PaddingFits] using hf
  obtain ⟨h', hp, rfl⟩ := exec_places hb.disabled he
  have hr : r = vmmAlignUp s.heap.placementHead := by
    have hres := call_eq hb.disabled op
    rw [exec, hres] at he
    obtain ⟨rfl, -⟩ := Prod.mk.inj (Option.some.inj he)
    rw [ha]
    unfold Kheap.kmallocPlacement
    simp only [if_true]
    exact congrArg Prod.fst (if_neg (not_lt.2 hle))
  intro hok
  have hin := (hok.inside ⟨r, op.size, op.align⟩ (by rw [if_neg (hr ▸ hne)]; simp)).2
  dsimp only at hin
  have hpad : placementPadding s.heap < 4096 := by
    unfold placementPadding vmmAlignUp sub32 u32 at *
    omega
  have hpage : r % 4096 = 0 := hr ▸ vmmAlignUp_mod _
  omega

end PlacementRun

variable {start : ℕ} {s : PlacementRun}

/-- **The boot allocator**: in every run in which no padded size wraps around, the results
    are apart and inside the placement memory and the counters agree; the first call whose
    padded size wraps breaks this. -/
theorem placement_sound (hend : start + kheapPlacementSize < 4294967296)
    (hr : (placementSystem start PaddingFits).Reachable s) :
    PlacementOk start s ∧ ∀ op r s', s.exec op = some (r, s') →
      (PlacementOk start s' ↔ PaddingFits s op) := by
  have hb : s.Below start := by
    refine hr.invariant (P := fun s => s.Below start) ?_ ?_
    · rintro s ⟨hd, hh, hf, hres⟩
      refine ⟨hd, ?_, ?_, ?_, hh.ge, by rw [hh, hf]⟩
      · simp [hres]
      · simp [hres]
      · rw [hres]
        exact List.Pairwise.nil
    · rintro s op s' - hb ⟨-, hf, r, he⟩
      exact hb.step hend hf he
  refine ⟨hb.ok, fun op r s' he => ⟨fun hok => ?_, fun hf => (hb.step hend hf he).ok⟩⟩
  by_contra hf
  exact hb.wrapped hend hf he hok

/-- The start of the boot phase, with the placement memory at a page boundary. -/
def placementStart : PlacementRun := ⟨⟨fun _ => 0, false, 0, 0, 0, 0xC0200000, 0x100000⟩, []⟩

/-- The state after 16 bytes were placed. -/
def placementSixteen : PlacementRun :=
  ⟨⟨fun _ => 0, false, 0, 0, 0, 0xC0200010, 0xFFFF0⟩, [⟨0xC0200000, 16, false⟩]⟩

theorem placementSixteen_reachable {condition : PlacementRun → PlacementOp → Prop}
    (h : condition placementStart (.kmalloc 16)) :
    (placementSystem 0xC0200000 condition).Reachable placementSixteen :=
  .step (i := .kmalloc 16) (.init (s := placementStart) ⟨rfl, rfl, rfl, rfl⟩)
    ⟨by decide, h, 0xC0200000, rfl⟩

theorem placement_sound_sixteen : PlacementOk 0xC0200000 placementSixteen :=
  (placement_sound (by decide) (placementSixteen_reachable (by decide))).1

/-- **A size that wraps**: behind 16 bytes `kmalloc_a(0xFFFFFFFF)` returns the next page. -/
theorem placement_overruns : ¬ ∀ s,
    (placementSystem 0xC0200000 fun _ _ => True).Reachable s → PlacementOk 0xC0200000 s := by
  intro hall
  have hr : (placementSystem 0xC0200000 fun _ _ => True).Reachable placementSixteen :=
    placementSixteen_reachable trivial
  have hex : placementSixteen.exec (.kmallocA 0xFFFFFFFF) = some (0xC0201000,
      ⟨⟨fun _ => 0, false, 0, 0, 0, 0xC0200FFF, 0xFF001⟩,
        [⟨0xC0201000, 0xFFFFFFFF, true⟩, ⟨0xC0200000, 16, false⟩]⟩) := by
    simp [PlacementRun.exec, PlacementRun.call, Kheap.kmallocA, Kheap.kmallocInt,
      Kheap.kmallocPlacement, placementSixteen, PlacementOp.size, PlacementOp.align, vmmAlignUp,
      sub32, u32]
  have hok := hall _ (.step (i := .kmallocA 0xFFFFFFFF) hr ⟨by decide, trivial, _, hex⟩)
  have hin := (hok.inside ⟨0xC0201000, 0xFFFFFFFF, true⟩ (List.mem_cons_self ..)).2
  exact absurd hin (by decide)

end Ttos
