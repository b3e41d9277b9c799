/-
  The allocation of contiguous frames.

  The search tests the byte at the index of the bit in place of the byte it has come to,
  and passes over full bytes without ending the frames in a row.

  * `findFreeContiguousFrames_eq`: the search is a scan of the frames of the bytes
    that are not full.
  * `allocFrames_sound`: when the frames it finds are free.
-/
import Ttos.Lib.Window
import Ttos.Memory.PmmAlloc

namespace Ttos

namespace Pmm

variable {p : Pmm} {f g n : ℕ}

/-- The bit that is tested for a frame is that of the frame `9 * (frame % 8)`. -/
def looksFree (p : Pmm) (frame : ℕ) : Bool := !p.testFrame (9 * (frame % 8))

/-- The frames of a byte that is not full. -/
def scannedByte (p : Pmm) (index : ℕ) : List ℕ :=
  if p.bitmap index != 255 then (List.range 8).map (index * 8 + ·) else []

/-- The frames the search comes to, in order. -/
def scannedFrames (p : Pmm) : List ℕ := (List.range (p.numMemoryFrames / 8)).flatMap p.scannedByte

/-! ## The search -/

theorem contiguousBit_eq {index b : ℕ} (hb : b < 8) (s : ℕ × ℕ) :
    p.contiguousBit n index s b = scanStep p.looksFree n s (index * 8 + b) := by
  have hm : (index * 8 + b) % 8 = b := by omega
  have ht : p.testFrame (9 * b) = (p.bitmap b &&& bit b != 0) := by
    have h9 : 9 * b = b * 8 + b := by omega
    rw [h9, testFrame_bit hb]
  have hl : p.looksFree (index * 8 + b) = (p.bitmap b &&& bit b == 0) := by
    rw [looksFree, hm, ht, bne, Bool.not_not]
  rw [contiguousBit, scanStep, hl]

theorem contiguousBits_eq {index : ℕ} : ∀ {bits : List ℕ}, (∀ b ∈ bits, b < 8) → ∀ s,
    bits.foldlM (p.contiguousBit n index) s =
      (bits.map (index * 8 + ·)).foldlM (scanStep p.looksFree n) s
  | [], _, _ => rfl
  | b :: bits, hb, s => by
    rw [List.foldlM_cons, List.map_cons, List.foldlM_cons,
      contiguousBit_eq (hb b List.mem_cons_self)]
    refine congrArg _ (funext fun s' => ?_)
    exact contiguousBits_eq (fun c hc => hb c (List.mem_cons_of_mem b hc)) s'

theorem contiguousByte_eq (s : ℕ × ℕ) (index : ℕ) :
    p.contiguousByte n s index = (p.scannedByte index).foldlM (scanStep p.looksFree n) s := by
  unfold contiguousByte scannedByte
  split
  · exact contiguousBits_eq (fun b hb => List.mem_range.1 hb) s
  · rfl

theorem contiguousBytes_eq : ∀ (bytes : List ℕ) (s : ℕ × ℕ),
    bytes.foldlM (p.contiguousByte n) s =
      (bytes.flatMap p.scannedByte).foldlM (scanStep p.looksFree n) s
  | [], _ => rfl
  | index :: bytes, s => by
    rw [List.foldlM_cons, List.flatMap_cons, List.foldlM_append, contiguousByte_eq]
    exact congrArg _ (funext fun s' => contiguousBytes_eq bytes s')

theorem findFreeContiguousFrames_eq : p.findFreeContiguousFrames n =
    match p.scannedFrames.foldlM (scanStep p.looksFree n) (0, 0) with
    | .error frame => some frame
    | .ok _ => none := by
  have hscan : _ = p.scannedFrames.foldlM (scanStep p.looksFree n) (0, 0) :=
    contiguousBytes_eq (List.range (p.numMemoryFrames / 8)) (0, 0)
  unfold findFreeContiguousFrames
  generalize (List.range (p.numMemoryFrames / 8)).foldlM (p.contiguousByte n) (0, 0) = found at hscan ⊢
  cases found with
  | error frame => rw [← hscan]
  | ok s => rw [← hscan]

/-- **The search** finds the first of the first `n` frames in a row that look free. -/
theorem findFreeContiguousFrames_cases (hn : 0 < n) :
    (∃ i frame, p.findFreeContiguousFrames n = some frame ∧ p.scannedFrames[i]? = some frame ∧
        FirstWindow p.looksFree n p.scannedFrames i) ∨
      p.findFreeContiguousFrames n = none ∧ ∀ i, ¬ WindowAt p.looksFree n p.scannedFrames i := by
  rw [findFreeContiguousFrames_eq]
  rcases foldlM_scanStep (q := p.looksFree) (l := p.scannedFrames) hn 0 with
    ⟨i, frame, he, hi, hw⟩ | ⟨s, hs, hnone⟩
  · rw [he]
    exact Or.inl ⟨i, frame, rfl, hi, hw⟩
  · rw [hs]
    exact Or.inr ⟨rfl, hnone⟩

/-! ## The frames that are set -/

theorem setFrames_succ : p.setFrames f (n + 1) = (p.setFrames f n).setFrame (u32 (f + n)) := by
  rw [setFrames, List.range_succ, List.foldl_append, List.foldl_cons, List.foldl_nil, setFrames]

theorem testFrame_setFrames_of_lt (h : f + n ≤ 1048576) :
    (p.setFrames f n).testFrame g = (p.testFrame g || decide (f ≤ g ∧ g < f + n)) := by
  rw [testFrame_setFrames]
  refine congrArg (p.testFrame g || ·) (decide_eq_decide.2 ?_)
  constructor
  · rintro ⟨i, hi, rfl⟩
    rw [u32_of_lt (by omega)]
    omega
  · rintro ⟨h1, h2⟩
    refine ⟨g - f, by omega, ?_⟩
    rw [u32_of_lt (by omega)]
    omega

/-- The counter grows by one for each frame that was free. -/
theorem setFrames_used (hlt : p.numMemoryFramesUsed < 4294967296) (h : f + n ≤ 1048576)
    (hfree : ∀ j < n, p.testFrame (f + j) = false) :
    (p.setFrames f n).numMemoryFramesUsed = u32 (p.numMemoryFramesUsed + n) := by
  induction n with
  | zero => exact (u32_of_lt hlt).symm
  | succ n ih =>
    have hn : (p.setFrames f n).testFrame (f + n) = false := by
      rw [testFrame_setFrames_of_lt (by omega), hfree n (by omega), Bool.false_or,
        decide_eq_false_iff_not]
      omega
    rw [setFrames_succ, u32_of_lt (by omega), setFrame_used hn, ih (by omega) fun j hj =>
      hfree j (by omega)]
    unfold u32
    omega

/-- What an allocation of `n` contiguous frames that returns `r` should do. -/
structure FramesAllocated (p : Pmm) (n : ℕ) (r : ℕ × Pmm) : Prop where
  free : r.1 ≠ 0 → ∀ j < n, p.testFrame (r.1 / 4096 + j) = false
  set : r.1 ≠ 0 → ∀ g, r.2.testFrame g =
    (p.testFrame g || decide (r.1 / 4096 ≤ g ∧ g < r.1 / 4096 + n))
  used : r.1 ≠ 0 → r.2.numMemoryFramesUsed = u32 (p.numMemoryFramesUsed + n)
  unchanged : r.1 = 0 → r.2 = p

theorem framesAllocated_refused : FramesAllocated p n (0, p) where
  free h := absurd rfl h
  set h := absurd rfl h
  used h := absurd rfl h
  unchanged _ := rfl

/-- The frames from `f` on are handed out rightly if they are free and `f` is not frame 0. -/
theorem framesAllocated_iff (hp : p.Counted) (hn : 0 < n) (hf : f + n ≤ 1048576)
    (hl : f = 0 → p.testFrame 0 = false) :
    FramesAllocated p n (pmmIndexToAddress f, p.setFrames f n) ↔
      f ≠ 0 ∧ ∀ j < n, p.testFrame (f + j) = false := by
  have hdiv : pmmIndexToAddress f / 4096 = f := pmmIndexToAddress_div (by omega)
  have hzero : pmmIndexToAddress f = 0 ↔ f = 0 := pmmIndexToAddress_eq_zero (by omega)
  constructor
  · intro h
    by_cases h0 : f = 0
    · -- `NULL` is returned, and frame 0 is set
      have hset : (p.setFrames f n).testFrame 0 = true := by
        rw [testFrame_setFrames_of_lt hf, h0, Bool.or_eq_true, decide_eq_true_iff]
        exact Or.inr ⟨Nat.le_refl 0, by omega⟩
      have hsame : p.setFrames f n = p := h.unchanged (hzero.2 h0)
      rw [hsame, hl h0] at hset
      cases hset
    · have hfree := h.free (fun hc => h0 (hzero.1 hc))
      dsimp only at hfree
      rw [hdiv] at hfree
      exact ⟨h0, hfree⟩
  · rintro ⟨h0, hfree⟩
    constructor
    · intro _
      dsimp only
      rwa [hdiv]
    · intro _ g
      dsimp only
      rw [hdiv]
      exact testFrame_setFrames_of_lt hf
    · intro _
      exact setFrames_used hp.used_lt hf hfree
    · intro hc
      exact absurd (hzero.1 hc) h0

end Pmm

section
variable {σ : Type} [Allocator σ] {p : Pmm} {n : ℕ}

/-- **The allocation of contiguous frames** is sound exactly if the counter refuses it, or
    the first `n` frames in a row that look free, if there are any, begin behind
    frame 0 and are free. -/
theorem allocFrames_sound (h : (pmmSystem σ).Reachable p) (hn : 0 < n) :
    Pmm.FramesAllocated p n (p.allocFrames n) ↔
      p.numMemoryFrames ≤ u32 (p.numMemoryFramesUsed + n) ∨
        ∀ i frame, FirstWindow p.looksFree n p.scannedFrames i →
          p.scannedFrames[i]? = some frame →
            frame ≠ 0 ∧ ∀ j < n, p.testFrame (frame + j) = false := by
  have hp := reachable_counted h
  unfold Pmm.allocFrames
  by_cases hfull : p.numMemoryFrames ≤ u32 (p.numMemoryFramesUsed + n)
  · rw [if_pos hfull]
    exact iff_of_true Pmm.framesAllocated_refused (Or.inl hfull)
  · rw [if_neg hfull, or_iff_right hfull]
    rcases Pmm.findFreeContiguousFrames_cases (p := p) hn with ⟨i, f, hf, hi, hw⟩ | ⟨hf, hnone⟩
    · have hle := Pmm.findFreeContiguousFrames_le hp.total hf
      have hlooks : p.looksFree f = true := hw.all i (Nat.le_refl i) (by omega) f hi
      rw [hf]
      have hiff := Pmm.framesAllocated_iff hp hn hle fun h0 => by
        rw [h0] at hlooks
        simpa [Pmm.looksFree] using hlooks
      refine hiff.trans ?_
      constructor
      · rintro hgood k frame hk hframe
        obtain rfl := hw.unique hk
        obtain rfl := Option.some.inj (hi.symm.trans hframe)
        exact hgood
      · intro hall
        exact hall i f hw hi
    · rw [hf]
      refine iff_of_true Pmm.framesAllocated_refused ?_
      intro i frame hi
      exact absurd hi.toWindowAt (hnone i)

end

/-! ## Two maps -/

/-- Frames 9 and 18 are available. -/
def nineMap : List MultibootMemoryMap := [⟨0x9000, 0x1000, 1⟩, ⟨0x12000, 0x1000, 1⟩]

def ninePmm : Pmm := (memoryRegions nineMap).foldl Pmm.markRegion (Pmm.allUsed fun _ => 0)

theorem ninePmm_find : ninePmm.findFreeContiguousFrames 1 = some 9 := by
  have hfirst : ninePmm.contiguousByte 1 (0, 0) 0 = .ok (0, 0) := by decide +kernel
  have hsecond : ninePmm.contiguousByte 1 (0, 0) 1 = .error 9 := by decide +kernel
  have htotal : ninePmm.numMemoryFrames / 8 = 131069 + 1 + 1 := by decide +kernel
  have hfind (n : ℕ) : (List.range (n + 1 + 1)).foldlM (ninePmm.contiguousByte 1) (0, 0) =
      .error 9 := by
    rw [List.range_succ_eq_map, List.range_succ_eq_map, List.map_cons, List.foldlM_cons, hfirst]
    exact congrArg (fun x => x.bind fun s => List.foldlM (ninePmm.contiguousByte 1) s
      (((List.range n).map Nat.succ).map Nat.succ)) hsecond
  rw [Pmm.findFreeContiguousFrames, htotal, hfind]

/-- For frame 9 its own bit is tested. -/
theorem allocFrames_sound_nine : (ninePmm.allocFrames 1).1 = 0x9000 ∧
    Pmm.FramesAllocated ninePmm 1 (ninePmm.allocFrames 1) := by
  obtain ⟨heap', hinit⟩ : ∃ heap' : KernelHeap,
      Pmm.init (fun _ => 0) nineMap placementHeap = .ok (ninePmm, heap') :=
    Pmm.init_of_isSome (by decide +kernel)
  have hr : (pmmSystem KernelHeap).Reachable ninePmm :=
    .init ⟨placementHeap, heap', _, nineMap, hinit⟩
  constructor
  · have hguard : ¬ ninePmm.numMemoryFrames ≤ u32 (ninePmm.numMemoryFramesUsed + 1) := by
      decide +kernel
    rw [Pmm.allocFrames, if_neg hguard, ninePmm_find]
    rfl
  · refine (allocFrames_sound hr (by decide)).2 (Or.inr fun i frame hi hframe => ?_)
    have hfree : ninePmm.testFrame 9 = false := by decide +kernel
    -- the search has found the first window
    rcases Pmm.findFreeContiguousFrames_cases (p := ninePmm) (n := 1) (by decide) with
      ⟨j, f, hf, hj, hw⟩ | ⟨hf, -⟩
    · obtain rfl : 9 = f := Option.some.inj (ninePmm_find.symm.trans hf)
      obtain rfl := hw.unique hi
      obtain rfl := Option.some.inj (hj.symm.trans hframe)
      refine ⟨by decide, fun k hk => ?_⟩
      obtain rfl : k = 0 := by omega
      exact hfree
    · rw [ninePmm_find] at hf
      cases hf

/-- Frames 2 and 9 are available. -/
def apartMap : List MultibootMemoryMap := [⟨0x2000, 0x1000, 1⟩, ⟨0x9000, 0x1000, 1⟩]

def apartPmm : Pmm := (memoryRegions apartMap).foldl Pmm.markRegion (Pmm.allUsed fun _ => 0)

theorem apartPmm_init : ∃ heap' : KernelHeap,
    Pmm.init (fun _ => 0) apartMap placementHeap = .ok (apartPmm, heap') :=
  Pmm.init_of_isSome (by decide +kernel)

theorem apartPmm_find : apartPmm.findFreeContiguousFrames 1 = some 1 := by
  have hfirst : apartPmm.contiguousByte 1 (0, 0) 0 = .error 1 := by decide +kernel
  have htotal : apartPmm.numMemoryFrames / 8 = 131070 + 1 := by decide +kernel
  rw [Pmm.findFreeContiguousFrames, htotal, List.range_succ_eq_map, List.foldlM_cons, hfirst]
  rfl

/-- For frame 1 the bit of frame 9 is tested: frame 1 is handed out, which is in use. -/
theorem allocFrames_unsound_apart :
    (pmmSystem KernelHeap).Reachable apartPmm ∧
      ¬ Pmm.FramesAllocated apartPmm 1 (apartPmm.allocFrames 1) := by
  obtain ⟨heap', hinit⟩ := apartPmm_init
  refine ⟨.init ⟨placementHeap, heap', _, apartMap, hinit⟩, ?_⟩
  intro h
  have haddr : (apartPmm.allocFrames 1).1 = 0x1000 := by
    have hguard : ¬ apartPmm.numMemoryFrames ≤ u32 (apartPmm.numMemoryFramesUsed + 1) := by
      decide +kernel
    rw [Pmm.allocFrames, if_neg hguard, apartPmm_find]
    rfl
  have hused : apartPmm.testFrame 1 = true := by decide +kernel
  have hfree := h.free (by rw [haddr]; decide) 0 (by decide)
  rw [haddr, hused] at hfree
  cases hfree

end Ttos
