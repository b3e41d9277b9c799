/-
  The frames behind the pages.

  * `FramesReserved`: the frame of every page is in use; in every state of a run that
    frees no frame (`reachable_framesReserved`).
  * `vmmMapLoop_unused`: a loop over unused pages maps them all, or memory runs out.
  * `FreshFrames`: the pages of a range got frames that were free, each its own.
-/
import Ttos.Memory.TableEntries
import Ttos.Memory.VmmSearch

namespace Ttos

/-! ## Frames -/

/-- The index of the frame an entry holds. -/
def PageTableEntry.frameIndex (e : PageTableEntry) : ℕ := e.pageBase.toNat

@[simp] theorem PageTableEntry.map_frameIndex (e : PageTableEntry) (f : ℕ) (k w : Bool) :
    (e.map f k w).frameIndex = pmmAddressToIndex f := by
  simp only [frameIndex, map, BitVec.toNat_ofNat, pmmAddressToIndex, u32]
  omega

/-- The physical address of an address whose page is mapped. -/
theorem Vm.physical_eq {σ : Type*} {vm : Vm σ} {x : ℕ} {e : PageTableEntry}
    (hp : vm.pagingEnabled = true) (he : vm.page vm.currentPageDirectory x = some e) :
    vm.vmmGetPhysicalAddress x = e.frameIndex * 4096 + pageOffset x := by
  have hlt := e.pageBase.isLt
  have hoff : pageOffset x < 4096 := Nat.mod_lt _ (by decide)
  rw [vmmGetPhysicalAddress, translate_eq hp, he]
  show u32 (e.pageBase.toNat * 4096 + pageOffset x) = e.pageBase.toNat * 4096 + pageOffset x
  exact u32_of_lt (by omega)

namespace Pmm

variable {p p' p'' : Pmm} {f g : ℕ}

/-- No frame was freed. -/
structure Keeps (p p' : Pmm) : Prop where
  total : p'.numMemoryFrames = p.numMemoryFrames
  frames : ∀ g, p.testFrame g = true → p'.testFrame g = true

theorem Keeps.refl (p : Pmm) : Keeps p p := ⟨rfl, fun _ h => h⟩

theorem Keeps.trans (h : Keeps p p') (h' : Keeps p' p'') : Keeps p p'' :=
  ⟨h'.total.trans h.total, fun g hg => h'.frames g (h.frames g hg)⟩

theorem keeps_setFrame : Keeps p (p.setFrame g) := by
  refine ⟨?_, fun g' hg => ?_⟩
  · rw [setFrame]
    split <;> rfl
  · rw [testFrame_setFrame, hg, Bool.true_or]

/-- A frame that is handed out was free and is in use. -/
theorem allocFrame_taken (hp : p.numMemoryFrames = pmmNumFrames) (h : p.allocFrame.1 ≠ 0) :
    p.testFrame (pmmAddressToIndex p.allocFrame.1) = false ∧
      p.allocFrame.2 = p.setFrame (pmmAddressToIndex p.allocFrame.1) := by
  unfold allocFrame at h ⊢
  split at h
  · exact absurd rfl h
  · rename_i hu
    rw [if_neg hu]
    cases hf : p.findFreeFrame with
    | none =>
      rw [hf] at h
      exact absurd rfl h
    | some g =>
      have hlt := findFreeFrame_lt hp hf
      have hg : pmmAddressToIndex (pmmIndexToAddress g) = g := by
        unfold pmmAddressToIndex pmmIndexToAddress u32
        omega
      show p.testFrame (pmmAddressToIndex (pmmIndexToAddress g)) = false ∧
        p.setFrame g = p.setFrame (pmmAddressToIndex (pmmIndexToAddress g))
      rw [hg]
      exact ⟨(findFreeFrame_some hf).1, rfl⟩

end Pmm

open Vm AddressSpaces

variable {σ : Type*} [Allocator σ] {vm vm' vm₁ : Vm σ} {ds : List ℕ} {d v p r f q a n : ℕ}
  {k w : Bool} {e : PageTableEntry}

omit [Allocator σ] in
/-- The frame a page is mapped to is in use. -/
theorem vmmFrame_taken (hp : vm.pmm.numMemoryFrames = pmmNumFrames) (h : (vm.vmmFrame p).1 ≠ 0) :
    vm.pmm.Keeps (vm.vmmFrame p).2 ∧
      (vm.vmmFrame p).2.testFrame (pmmAddressToIndex (vm.vmmFrame p).1) = true := by
  have hset : (vm.vmmFrame p).2 = vm.pmm.setFrame (pmmAddressToIndex (vm.vmmFrame p).1) := by
    unfold vmmFrame at h ⊢
    by_cases h0 : p = 0
    · rw [if_pos h0] at h ⊢
      exact (Pmm.allocFrame_taken hp h).2
    · rw [if_neg h0]
      rfl
  rw [hset, Pmm.testFrame_setFrame, decide_eq_true rfl, Bool.or_true]
  exact ⟨Pmm.keeps_setFrame, rfl⟩

/-- The frame of every page of the directories `ds` is in use. -/
structure FramesReserved (ds : List ℕ) (vm : Vm σ) : Prop where
  total : vm.pmm.numMemoryFrames = pmmNumFrames
  frames : ∀ d ∈ ds, ∀ u e, vm.page d u = some e → vm.pmm.testFrame e.frameIndex = true

namespace FramesReserved

/-! ## One page -/

omit [Allocator σ] in
/-- Pages that were there before, and frames that were not freed. -/
theorem of_old {ds' : List ℕ} (h : FramesReserved ds vm) (hk : vm.pmm.Keeps vm'.pmm)
    (hold : ∀ d' ∈ ds', ∃ d ∈ ds, ∀ u e, vm'.page d' u = some e → vm.page d u = some e) :
    FramesReserved ds' vm' := by
  refine ⟨hk.total.trans h.total, fun d' hd' u e he => ?_⟩
  obtain ⟨d, hd, hsame⟩ := hold d' hd'
  exact hk.frames _ (h.frames d hd u e (hsame u e he))

/-- One page more, with a frame that is in use now. -/
theorem pagingMapPage {pmm : Pmm} (h : FramesReserved ds vm) (hok : TablesOk vm ds) (hd : d ∈ ds)
    (hm : vm.pagingMapPage d v f k w = some vm') (hk : vm.pmm.Keeps pmm)
    (hf : pmm.testFrame (pmmAddressToIndex f) = true) :
    FramesReserved ds { vm' with pmm := pmm } := by
  rcases pagingMapPage_spec (v := v) hok hd f k w with h1 | ⟨vm₁, e₀, h1, -, -, -, hpg⟩
  · rw [h1] at hm
    cases hm
  obtain rfl : vm₁ = vm' := Option.some.inj (h1.symm.trans hm)
  refine ⟨hk.total.trans h.total, fun d' hd' u e he => ?_⟩
  have he : vm₁.page d' u = some e := he
  rw [hpg d' hd'] at he
  split at he
  · obtain rfl := Option.some.inj he
    rwa [PageTableEntry.map_frameIndex]
  · exact hk.frames _ (h.frames d' hd' u e he)

theorem vmmMapPage (h : FramesReserved ds vm) (hok : TablesOk vm ds)
    (hc : vm.currentPageDirectory ∈ ds) (hm : vm.vmmMapPage v p k w = .ok (r, vm')) :
    FramesReserved ds vm' := by
  rcases vmmMapPage_inv hm with ⟨-, rfl, -⟩ | ⟨-, he⟩
  · exact h
  · obtain ⟨hkeep, htest⟩ := vmmFrame_taken h.total he.frame
    have h' : FramesReserved ds ({ vm with pmm := (vm.vmmFrame p).2 } : Vm σ) :=
      h.of_old hkeep fun d hd => ⟨d, hd, fun _ _ hu => hu⟩
    have hnew := h'.pagingMapPage ⟨hok.live, hok.slot, hok.agree⟩ hc he.paging (.refl _) htest
    have hp : vm'.pmm = (vm.vmmFrame p).2 := pagingMapPage_pmm he.paging
    exact ⟨hp ▸ hnew.total, fun d hd u e hu => hp ▸ hnew.frames d hd u e hu⟩

theorem vmmUnmapPage (h : FramesReserved ds vm) (hok : TablesOk vm ds)
    (hc : vm.currentPageDirectory ∈ ds) (v : ℕ) : FramesReserved ds (vm.vmmUnmapPage v) := by
  have hs := vmmUnmapPage_spec hok hc v
  obtain ⟨ts, hts⟩ := hs.tables
  refine h.of_old ?_ fun d hd => ⟨d, hd, fun u e he => ?_⟩
  · rw [hts]
    exact .refl _
  · rw [hs.page d hd] at he
    split at he
    · cases he
    · exact he

/-! ## Start -/

variable {s s' : AddressSpaces σ} {op : VmmOp}

omit [Allocator σ] in
theorem of_zero (ht : vm.pmm.numMemoryFrames = pmmNumFrames) (h : ∀ d ∈ ds, vm.dirs d = .zero) :
    FramesReserved ds vm := by
  refine ⟨ht, fun d hd u e he => ?_⟩
  have h0 : vm.tableOf d u = 0 := by
    rw [tableOf, h d hd]
    rfl
  rw [page_of_tableOf h0] at he
  cases he

/-- `vmm_init` reserves the frames of the kernel. -/
theorem boots (h : Boots s) (ht : s.vm.pmm.numMemoryFrames = pmmNumFrames) :
    FramesReserved s.spaces s.vm := by
  cases h with
  | empty _ _ _ h0 =>
    refine of_zero ht fun d hd => ?_
    rw [List.mem_singleton.1 hd]
    exact h0
  | @init vm₀ vm _ _ he h =>
    have hinv := vmmInit_invariant (P := fun x => TablesOk x [x.kernelPageDirectory] ∧
      (x.pmm.numMemoryFrames = pmmNumFrames → FramesReserved [x.kernelPageDirectory] x)) he ?_ ?_ h
    · obtain ⟨vm₁, ⟨-, hP⟩, rfl⟩ := hinv
      have h1 := hP ht
      exact ⟨ht, h1.frames⟩
    · intro x hl hz
      refine ⟨(InitInv.empty rfl hl hz).ok, fun hx => of_zero hx fun d hd => ?_⟩
      rw [List.mem_singleton.1 hd, hz]
    · rintro x q f x' - - ⟨hok, hx⟩ hm
      rcases pagingMapPage_spec (v := q) hok (List.mem_singleton_self _) f true true with
        h1 | ⟨x₁, e, h1, hok', hl, hp, -⟩
      · rw [h1] at hm
        cases hm
      obtain rfl : x₁ = x' := Option.some.inj (h1.symm.trans hm)
      have hk : x₁.kernelPageDirectory = x.kernelPageDirectory := hl.statics.kernel
      rw [← hk] at hok'
      refine ⟨⟨hok'.live, hok'.slot, hok'.agree⟩, fun ht => ?_⟩
      have htotal : x.pmm.numMemoryFrames = pmmNumFrames := by
        rw [← ht, ← hp]
        exact Pmm.keeps_setFrame.total.symm
      have hkeep : x.pmm.Keeps (x₁.pmm.markFrameReserved f) := by
        rw [hp]
        exact Pmm.keeps_setFrame
      have htest : (x₁.pmm.markFrameReserved f).testFrame (pmmAddressToIndex f) = true := by
        rw [Pmm.testFrame_markFrameReserved, decide_eq_true rfl, Bool.or_true]
      have hnew := (hx htotal).pagingMapPage hok (List.mem_singleton_self _) hm hkeep htest
      rw [← hk] at hnew
      exact hnew

/-- More address spaces with empty directories have no pages. -/
theorem starts (h : Starts s) (ht : s.vm.pmm.numMemoryFrames = pmmNumFrames) :
    FramesReserved s.spaces s.vm := by
  obtain ⟨s₀, hb, empty, current, rfl, -, -, hempty⟩ := h
  have h0 := boots hb ht
  refine ⟨ht, fun d hd u e he => ?_⟩
  rcases List.mem_append.1 hd with hd | hd
  · exact h0.frames d hd u e he
  · exact (of_zero ht fun d' hd' => (hempty d' hd').2.1).frames d hd u e he

/-! ## Steps -/

/-- **Every step keeps the frames**, when the rest of the kernel frees none. -/
theorem step (h : FramesReserved s.spaces s.vm) (hi : SpacesInv s) (hc : s.Clean op)
    (hs : s.Step op s') (ho : op = .other → s.vm.pmm.Keeps s'.vm.pmm) :
    FramesReserved s'.spaces s'.vm := by
  obtain ⟨vm, spaces⟩ := s
  obtain ⟨vm', spaces'⟩ := s'
  cases op with
  | map v size p k w =>
    obtain ⟨⟨hv, -⟩, hsp, r, hm⟩ := hs
    simp only at hsp hm
    subst hsp
    refine (vmmMapMemory_invariant (P := fun x => SpacesInv ⟨x, spaces'⟩ ∧
      FramesReserved spaces' x) hv ?_ ?_ ⟨hi, h⟩ hm).2
    · rintro x q f r x' - ⟨hx, hx'⟩ hp
      exact ⟨hx.vmmMapPage hp, hx'.vmmMapPage hx.ok hx.current hp⟩
    · rintro x q - ⟨hx, hx'⟩
      exact ⟨hx.vmmUnmapPage q, hx'.vmmUnmapPage hx.ok hx.current q⟩
  | unmap v size =>
    obtain ⟨⟨hv, -⟩, hsp, hu⟩ := hs
    simp only at hsp hu
    subst hsp
    obtain ⟨-, ⟨ts, rfl⟩, hp⟩ := hi.vmmUnmapMemory hv hu
    refine h.of_old (.refl _) fun d hd => ⟨d, hd, fun u e he => ?_⟩
    rcases hp d hd u with h0 | h0
    · rw [h0] at he
      cases he
    · rwa [h0] at he
  | create =>
    obtain ⟨d, hcr, hsp⟩ := hs
    simp only at hsp hcr
    subst hsp
    obtain ⟨-, -, -, hold, hnew, htab⟩ := hi.vmmCreateAddressSpace (hc rfl) hcr
    obtain ⟨-, -, dir, hvm, -⟩ := SpacesInv.vmmCreateAddressSpace_spec (hi.live _ hi.kernel) hcr
    have hpmm : vm'.pmm = vm.pmm := by
      rw [hvm]
      rfl
    refine h.of_old (hpmm ▸ .refl _) fun d' hd' => ?_
    rcases List.mem_cons.1 hd' with rfl | hd'
    · refine ⟨_, hi.kernel, fun u e he => ?_⟩
      rwa [page, entryAt_eq, tableOf, hnew _ (pageDirectoryIndex_lt u), htab] at he
    · refine ⟨d', hd', fun u e he => ?_⟩
      rwa [page, entryAt_eq, tableOf, hold d' hd', htab] at he
  | switch d =>
    obtain ⟨hd, heq⟩ := hs
    cases heq
    exact ⟨h.total, h.frames⟩
  | destroy d =>
    obtain ⟨hd, hk, hsp, hde⟩ := hs
    simp only at hsp hde hd hk
    subst hsp
    unfold Vm.vmmDestroyAddressSpace at hde
    obtain ⟨vm₁, hu, hf⟩ := exists_of_map_ok hde
    obtain ⟨-, ⟨ts, rfl⟩, hp⟩ := hi.vmmUnmapMemory (by decide) hu
    obtain ⟨hp', h3, -⟩ := SpacesInv.vmmFreeSlot_fold (d := d) (List.range 1024)
      (({ vm with tables := ts } : Vm σ).vmmSwitchAddressSpace vm.kernelPageDirectory)
    simp only at hf
    rw [h3] at hf
    subst hf
    refine h.of_old (.refl _) fun d' hd' => ⟨d', List.mem_of_mem_erase hd', fun u e he => ?_⟩
    have he : ({ vm with tables := ts } : Vm σ).page d' u = some e := he
    rcases hp d' (List.mem_of_mem_erase hd') u with h0 | h0
    · rw [h0] at he
      cases he
    · rwa [h0] at he
  | other =>
    obtain ⟨hsp, he⟩ := hs
    simp only at hsp he
    subst hsp
    refine h.of_old (ho rfl) fun d hd => ⟨d, hd, fun u e hu => ?_⟩
    have hdir : vm'.dirs d = vm.dirs d := (he.dirs d hd).1
    rw [page, entryAt_eq, tableOf, hdir] at hu
    by_cases h0 : (vm.dirs d).tables (pageDirectoryIndex u) = 0
    · rw [if_pos h0] at hu
      cases hu
    · rwa [(he.tables d hd _ (pageDirectoryIndex_lt u) h0).1] at hu

end FramesReserved

/-- The runs in which the rest of the kernel frees no frame: `pmm_free_frame` and
    `pmm_free_frames` are not called anywhere. -/
def frameKeepingSystem : TransitionSystem (AddressSpaces σ) VmmOp where
  init s := Starts s ∧ s.vm.pmm.numMemoryFrames = pmmNumFrames
  step s op s' := s.Clean op ∧ s.Step op s' ∧ (op = .other → s.vm.pmm.Keeps s'.vm.pmm)

/-- **The frame of every page is in use**, in every state of such a run. -/
theorem reachable_framesReserved {s : AddressSpaces σ} (hr : frameKeepingSystem.Reachable s) :
    SpacesInv s ∧ FramesReserved s.spaces s.vm := by
  refine hr.invariant (P := fun s => SpacesInv s ∧ FramesReserved s.spaces s.vm) ?_ ?_
  · rintro s ⟨hs, ht⟩
    exact ⟨(Starts.inv hs).1, FramesReserved.starts hs ht⟩
  · rintro s op s' - ⟨hi, hs⟩ ⟨hc, hst, ho⟩
    exact ⟨hi.step hc hst, hs.step hi hc hst ho⟩

/-! ## Ranges of unused pages -/

/-- The panics for lack of memory. -/
def MemoryExhausted (e : Stop) : Prop := e = .panic .pmmOutOfMemory ∨ e = .panic .kheapOutOfMemory

/-- An unused page is mapped, unless memory runs out. -/
theorem vmmMapPage_unused (h : TablesOk vm ds) (hc : vm.currentPageDirectory ∈ ds) (hv : v ≠ 0)
    (hside : k = true ↔ vmmKernelSpaceBase ≤ v) (hn : vm.page vm.currentPageDirectory v = none)
    (p : ℕ) : (∃ e, vm.vmmMapPage v p k w = .error e ∧ MemoryExhausted e) ∨
      ∃ vm', vm.vmmMapPage v p k w = .ok (v, vm') := by
  have hu : ¬ (v ≠ 0 ∧ vm.pagingIsPageUsed vm.currentPageDirectory v = true) := by
    rw [(isPageUsed_false h hc).2 hn]
    exact fun hx => Bool.false_ne_true hx.2
  have hk : ¬ (k = true ∧ v < vmmKernelSpaceBase) := fun hx => absurd (hside.1 hx.1) (by omega)
  have hk' : ¬ ((!k) = true ∧ vmmKernelSpaceBase ≤ v) := by
    rintro ⟨h1, h2⟩
    rw [hside.2 h2] at h1
    cases h1
  unfold vmmMapPage
  rw [if_neg hu, vmmPlace, if_pos hv]
  dsimp only
  rw [if_neg hk, if_neg hk']
  by_cases hf : (vm.vmmFrame p).1 = 0
  · rw [if_pos hf]
    exact Or.inl ⟨_, rfl, Or.inl rfl⟩
  · rw [if_neg hf]
    cases hm : ({ vm with pmm := (vm.vmmFrame p).2 } : Vm σ).pagingMapPage
        vm.currentPageDirectory v (vm.vmmFrame p).1 k w with
    | none => exact Or.inl ⟨_, rfl, Or.inr rfl⟩
    | some vm' => exact Or.inr ⟨vm', rfl⟩

/-- **A loop over unused pages** maps them all, unless memory runs out. -/
theorem vmmMapLoop_unused (va : ℕ) {stop fuel : ℕ} (h : TablesOk vm ds)
    (hc : vm.currentPageDirectory ∈ ds) (ha : a ≠ 0) (hlt : a + n < 1048576) (hstop : stop ≤ 4096 * (a + n))
    (hback : n = 0 ∨ 4096 * (a + n) < stop + 4096)
    (hside : ∀ i < n, k = true ↔ vmmKernelSpaceBase ≤ 4096 * (a + i))
    (hn : ∀ i < n, vm.page vm.currentPageDirectory (4096 * (a + i)) = none) (hfuel : n < fuel)
    (f : ℕ) : (∃ e, vmmMapLoop va stop k w fuel vm (4096 * a) f = .error e ∧ MemoryExhausted e) ∨
      ∃ vm', vmmMapLoop va stop k w fuel vm (4096 * a) f = .ok (va, vm') := by
  induction n generalizing vm a f fuel with
  | zero =>
    obtain ⟨fuel, rfl⟩ := Nat.exists_eq_succ_of_ne_zero hfuel.ne'
    rw [vmmMapLoop, if_neg (by omega)]
    exact Or.inr ⟨vm, rfl⟩
  | succ n ih =>
    obtain ⟨fuel, rfl⟩ := Nat.exists_eq_succ_of_ne_zero (Nat.ne_zero_of_lt hfuel)
    have hfirst := hn 0 (Nat.succ_pos n)
    have hk := hside 0 (Nat.succ_pos n)
    rw [Nat.add_zero] at hfirst hk
    rw [vmmMapLoop, if_pos (by omega)]
    rcases vmmMapPage_unused (w := w) h hc (by omega) hk hfirst f with ⟨e, he, hoom⟩ | ⟨vm₁, he⟩
    · rw [he]
      exact Or.inl ⟨e, rfl, hoom⟩
    · rw [he]
      dsimp only
      rw [if_neg (show 4096 * a ≠ 0 by omega)]
      rcases vmmMapPage_cases h hc he with ⟨h0, -⟩ | ⟨-, -, -, hm⟩
      · omega
      have hcur : vm₁.currentPageDirectory = vm.currentPageDirectory := hm.linked.statics.current
      have hz : u32 (4096 * a + 4096) = 4096 * (a + 1) := by unfold u32; omega
      obtain ⟨e, f', hpg⟩ := hm.page
      rw [hz]
      refine ih hm.ok (hcur ▸ hc) (by omega) (by omega) (by omega) (by omega) ?_ ?_ (by omega) _
      · intro i hi
        have hi' := hside (i + 1) (by omega)
        rwa [show a + (i + 1) = a + 1 + i by omega] at hi'
      · intro i hi
        have hi' := hn (i + 1) (by omega)
        rw [hcur, hpg _ hc, if_neg]
        · rwa [show a + (i + 1) = a + 1 + i by omega] at hi'
        · rw [pageNumber_page (by omega), pageNumber_page (by omega)]
          omega

/-! ## New frames -/

/-- The pages `a` to `a + n - 1` of the directory `d` got frames that were free, each page
    its own. -/
structure FreshFrames (d a n : ℕ) (vm vm' : Vm σ) : Prop where
  keeps : vm.pmm.Keeps vm'.pmm
  free : ∀ u e, a ≤ pageNumber u → pageNumber u < a + n → vm'.page d u = some e →
    vm.pmm.testFrame e.frameIndex = false
  apart : ∀ u u' e e', a ≤ pageNumber u → pageNumber u < a + n → a ≤ pageNumber u' →
    pageNumber u' < a + n → vm'.page d u = some e → vm'.page d u' = some e' →
      e.frameIndex = e'.frameIndex → pageNumber u = pageNumber u'

/-- The frame of the page that a round of the loop maps. -/
theorem vmmMapPage_frame (h : TablesOk vm ds) (hc : vm.currentPageDirectory ∈ ds)
    (hm : vm.vmmMapPage v p k w = .ok (r, vm')) (hr : r ≠ 0) (hv : v ≠ 0) :
    (vm.vmmFrame p).1 ≠ 0 ∧ vm'.pmm = (vm.vmmFrame p).2 ∧
      ∀ u, pageNumber u = pageNumber v → ∃ e, vm'.page vm.currentPageDirectory u = some e ∧
        e.frameIndex = pmmAddressToIndex (vm.vmmFrame p).1 := by
  rcases vmmMapPage_inv hm with ⟨h0, -⟩ | ⟨-, he⟩
  · exact absurd h0 hr
  obtain rfl : r = v := (vmmPlace_spec he.place).2.1 hv
  obtain ⟨-, -, hp, e, hpg⟩ := he.mapped h hc
  refine ⟨he.frame, hp, fun u hu => ⟨_, ?_, PageTableEntry.map_frameIndex e _ k w⟩⟩
  rw [hpg _ hc, if_pos ⟨rfl, hu⟩]

omit [Allocator σ] in
/-- One more page in front, which took a new frame. -/
theorem FreshFrames.cons (hg : vm.pmm.testFrame q = false)
    (hp : vm₁.pmm = vm.pmm.setFrame q)
    (hfirst : ∀ u, pageNumber u = a → ∃ e, vm'.page d u = some e ∧ e.frameIndex = q)
    (h : FreshFrames d (a + 1) n vm₁ vm') : FreshFrames d a (n + 1) vm vm' := by
  have hkeep : vm.pmm.Keeps vm₁.pmm := hp ▸ Pmm.keeps_setFrame
  have hset : vm₁.pmm.testFrame q = true := by
    rw [hp, Pmm.testFrame_setFrame, decide_eq_true rfl, Bool.or_true]
  -- the pages behind the first have frames that were still free after it
  have hrest : ∀ u e, a < pageNumber u → pageNumber u < a + (n + 1) → vm'.page d u = some e →
      vm.pmm.testFrame e.frameIndex = false ∧ e.frameIndex ≠ q := by
    intro u e h1 h2 he
    have hfree := h.free u e h1 (by omega) he
    refine ⟨?_, fun heq => ?_⟩
    · by_contra htest
      rw [hkeep.frames _ (Bool.not_eq_false _ ▸ htest)] at hfree
      cases hfree
    · rw [heq, hset] at hfree
      cases hfree
  have hhead : ∀ u e, pageNumber u = a → vm'.page d u = some e → e.frameIndex = q := by
    intro u e hu he
    obtain ⟨e', he', hq⟩ := hfirst u hu
    obtain rfl := Option.some.inj (he.symm.trans he')
    exact hq
  refine ⟨hkeep.trans h.keeps, fun u e h1 h2 he => ?_, fun u u' e e' h1 h2 h3 h4 he he' heq => ?_⟩
  · by_cases hu : pageNumber u = a
    · rw [hhead u e hu he, hg]
    · exact (hrest u e (by omega) h2 he).1
  · by_cases hu : pageNumber u = a
    · by_cases hu' : pageNumber u' = a
      · rw [hu, hu']
      · have hne := (hrest u' e' (by omega) h4 he').2
        exact absurd (heq.symm.trans (hhead u e hu he)) hne
    · have hne := (hrest u e (by omega) h2 he).2
      by_cases hu' : pageNumber u' = a
      · exact absurd (heq.trans (hhead u' e' hu' he')) hne
      · exact h.apart u u' e e' (by omega) (by omega) (by omega) (by omega) he he' heq

/-- **A user mapping with new frames** that succeeds. -/
theorem vmmMapLoop_fresh {va stop fuel : ℕ} (hr : r ≠ 0)
    (ht : vm.pmm.numMemoryFrames = pmmNumFrames) (h : TablesOk vm ds)
    (hc : vm.currentPageDirectory ∈ ds) (ha : a ≠ 0)
    (hm : vmmMapLoop va stop false w fuel vm (4096 * a) 0 = .ok (r, vm')) :
    ∃ n, stop ≤ 4096 * (a + n) ∧ (n = 0 ∨ 4096 * (a + n) < stop + 4096) ∧
      RangeMapped ds a n vm vm' ∧ FreshFrames vm.currentPageDirectory a n vm vm' := by
  induction fuel generalizing vm a with
  | zero => cases hm
  | succ fuel ih =>
    by_cases hq : 4096 * a < stop
    · rcases vmmMapLoop_cases hq hm with ⟨-, -, h0, -⟩ | ⟨b, vm₁, hp, hb, hm⟩
      · exact absurd h0 hr
      rw [if_neg (fun hne => hne rfl)] at hm
      have hne : 4096 * a ≠ 0 := by omega
      have hside := (vmmMapPage_side hp hb hne).2
      have hlow : 4096 * a < vmmKernelSpaceBase := by
        by_contra hge
        exact absurd (hside.2 (Nat.not_lt.1 hge)) Bool.false_ne_true
      simp only [vmmKernelSpaceBase] at hlow
      rcases vmmMapPage_cases h hc hp with ⟨h0, -⟩ | ⟨-, -, hv, hpm⟩
      · exact absurd h0 hb
      obtain ⟨rfl, hn⟩ := hv hne
      have hcur : vm₁.currentPageDirectory = vm.currentPageDirectory := hpm.linked.statics.current
      obtain ⟨hf0, hpmm, hframe⟩ := vmmMapPage_frame h hc hp hb hne
      rw [vmmFrame, if_pos rfl] at hf0 hpmm hframe
      obtain ⟨hfree, hset⟩ := Pmm.allocFrame_taken ht hf0
      rw [hset] at hpmm
      have ht₁ : vm₁.pmm.numMemoryFrames = pmmNumFrames := by
        rw [hpmm]
        exact Pmm.keeps_setFrame.total.trans ht
      have hz : u32 (4096 * a + 4096) = 4096 * (a + 1) := by unfold u32; omega
      rw [hz] at hm
      obtain ⟨n, h1, h2, hrange, hfresh⟩ := ih ht₁ hpm.ok (hcur ▸ hc) (by omega) hm
      have hfit : a + (n + 1) < 1048576 := by
        rcases hrange.fits with rfl | hfits <;> omega
      rw [hcur] at hfresh
      refine ⟨n + 1, by omega, by omega, hrange.cons hc hn hpm hfit, hfresh.cons hfree hpmm ?_⟩
      intro u hu
      have hout : ¬ (a + 1 ≤ pageNumber u ∧ pageNumber u < a + 1 + n ∧
          vm'.tableOf vm.currentPageDirectory u = vm'.tableOf vm₁.currentPageDirectory u) := by
        omega
      rw [hrange.others _ hc u hout]
      exact hframe u (by rw [hu, pageNumber_page (by omega)])
    · rw [vmmMapLoop, if_neg hq] at hm
      cases hm
      refine ⟨0, by omega, Or.inl rfl, .nil h a, ⟨.refl _, ?_, ?_⟩⟩
      · intro u e h1 h2
        omega
      · intro u u' e e' h1 h2
        omega

/-! ## Frames that are given -/

/-- **A mapping of given frames**: page by page, one after the other. -/
theorem vmmMapLoop_given {va stop fuel i : ℕ} (hstop : stop < 4294967296) (hr : r ≠ 0)
    (h : TablesOk vm ds) (hc : vm.currentPageDirectory ∈ ds) (ha : a ≠ 0) (hf : f ≠ 0)
    (hi : 4096 * (a + i) < stop) (hfi : f + 4096 * i < 4294967296)
    (hm : vmmMapLoop va stop k w fuel vm (4096 * a) f = .ok (r, vm')) :
    ∃ e, vm'.page vm.currentPageDirectory (4096 * (a + i)) = some e ∧
      e.frameIndex = (f + 4096 * i) / 4096 := by
  induction i generalizing vm a f fuel with
  | zero =>
    cases fuel with
    | zero => cases hm
    | succ fuel =>
      rcases vmmMapLoop_cases (by omega) hm with ⟨-, -, h0, -⟩ | ⟨b, vm₁, hp, hb, hm⟩
      · exact absurd h0 hr
      have hne : 4096 * a ≠ 0 := by omega
      obtain ⟨-, -, hframe⟩ := vmmMapPage_frame h hc hp hb hne
      rw [vmmFrame, if_neg hf] at hframe
      obtain ⟨e, he, hidx⟩ := hframe (4096 * (a + 0)) rfl
      refine ⟨e, ?_, ?_⟩
      · -- the pages behind leave the first one as it is
        rcases vmmMapPage_cases h hc hp with ⟨h0, -⟩ | ⟨-, -, hv, hpm⟩
        · exact absurd h0 hb
        obtain ⟨rfl, -⟩ := hv hne
        have hcur : vm₁.currentPageDirectory = vm.currentPageDirectory :=
          hpm.linked.statics.current
        by_cases hw : a + 1 = 1048576
        · have hz : u32 (4096 * a + 4096) = 0 := by unfold u32; omega
          have hk : k = true := hpm.side.2 (by simp only [vmmKernelSpaceBase]; omega)
          rw [hz, hk] at hm
          exact absurd (vmmMapLoop_wrapped (by omega) hm) hr
        · have hz : u32 (4096 * a + 4096) = 4096 * (a + 1) := by unfold u32; omega
          rw [hz] at hm
          obtain ⟨n, -, -, hrange⟩ :=
            vmmMapLoop_success hstop hr hpm.ok (hcur ▸ hc) (by omega) (by omega) hm
          rw [hrange.others _ hc]
          · exact he
          · rw [pageNumber_page (by omega)]
            omega
      · have hlt : f < 4294967296 := by omega
        rw [hidx, pmmAddressToIndex, u32_of_lt hlt]
        omega
  | succ i ih =>
    cases fuel with
    | zero => cases hm
    | succ fuel =>
      rcases vmmMapLoop_cases (by omega) hm with ⟨-, -, h0, -⟩ | ⟨b, vm₁, hp, hb, hm⟩
      · exact absurd h0 hr
      rcases vmmMapPage_cases h hc hp with ⟨h0, -⟩ | ⟨-, -, hv, hpm⟩
      · exact absurd h0 hb
      obtain ⟨rfl, -⟩ := hv (by omega)
      have hcur : vm₁.currentPageDirectory = vm.currentPageDirectory := hpm.linked.statics.current
      have hz : u32 (4096 * a + 4096) = 4096 * (a + 1) := by unfold u32; omega
      have hzf : u32 (f + 4096) = f + 4096 := by
        unfold u32
        omega
      rw [hz, if_pos hf, hzf] at hm
      obtain ⟨e, he, hidx⟩ := ih hpm.ok (hcur ▸ hc) (by omega) (by omega) (by omega) (by omega) hm
      rw [hcur] at he
      refine ⟨e, ?_, ?_⟩
      · rwa [show a + (i + 1) = a + 1 + i by omega]
      · rw [hidx]
        omega

end Ttos
