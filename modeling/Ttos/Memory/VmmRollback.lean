/-
  A call of vmm_map_memory that fails.

  The pages mapped so far are unmapped again, the frames they were mapped to stay in
  use (the line that would free them is a comment in vmm_unmap_page).

  * `FramesTaken`: the frames that the pages of a range take.
  * `MapLoopEnd`, `vmmMapLoop_end`: how the loop ends.
  * `vmm_map_untouched`: when a call that fails leaves no trace.
-/
import Ttos.Memory.AddressSpacesRun
import Ttos.Memory.PmmAlloc

namespace Ttos

/-! ## The frames of a range -/

namespace Pmm

variable {p p' : Pmm} {n f g : ℕ}

theorem markFrameReserved_of_test (h : p.testFrame (pmmAddressToIndex f) = true) :
    p.markFrameReserved f = p := if_pos h

theorem testFrame_markFrameReserved : (p.markFrameReserved f).testFrame g =
    (p.testFrame g || decide (g = pmmAddressToIndex f)) := testFrame_setFrame

/-- A call that hands out a frame sets one that was clear. -/
theorem allocFrame_sets (h : p.allocFrame.1 ≠ 0) :
    ∃ g, p.testFrame g = false ∧ p.allocFrame.2 = p.setFrame g := by
  unfold allocFrame at h ⊢
  split at h
  · exact absurd rfl h
  · rename_i hu
    rw [if_neg hu]
    cases hf : p.findFreeFrame with
    | none =>
      rw [hf] at h
      exact absurd rfl h
    | some g => exact ⟨g, (findFreeFrame_some hf).1, rfl⟩

end Pmm

/-- `n` pages take frames: those given, from the address `f` on, as long as that is not
    `NULL`, and new ones from there on. -/
inductive FramesTaken : ℕ → ℕ → Pmm → Pmm → Prop
  | nil (f : ℕ) (p : Pmm) : FramesTaken 0 f p p
  | given {n f : ℕ} {p p' : Pmm} : f ≠ 0 →
      FramesTaken n (u32 (f + 4096)) (p.markFrameReserved f) p' → FramesTaken (n + 1) f p p'
  | new {n : ℕ} {p p' : Pmm} : p.allocFrame.1 ≠ 0 →
      FramesTaken n 0 p.allocFrame.2 p' → FramesTaken (n + 1) 0 p p'

namespace FramesTaken

variable {p p' : Pmm} {n f g : ℕ}

/-- No frame is freed. -/
theorem keeps (h : FramesTaken n f p p') (hg : p.testFrame g = true) : p'.testFrame g = true := by
  induction h with
  | nil => exact hg
  | given _ _ ih =>
    refine ih ?_
    rw [Pmm.testFrame_markFrameReserved, hg, Bool.true_or]
  | new ha _ ih =>
    refine ih ?_
    obtain ⟨g', -, he⟩ := Pmm.allocFrame_sets ha
    rw [he, Pmm.testFrame_setFrame, hg, Bool.true_or]

/-- Nothing changes exactly if all the frames are given and were in use before. -/
theorem eq_iff (h : FramesTaken n f p p') (hf : f < 4294967296) : p' = p ↔
    ∀ i < n, u32 (f + 4096 * i) ≠ 0 ∧ p.testFrame (pmmAddressToIndex (f + 4096 * i)) = true := by
  induction h with
  | nil =>
    refine iff_of_true rfl ?_
    intro i hi
    exact absurd hi (Nat.not_lt_zero i)
  | @given n f p p' h0 ht ih =>
    have hshift : ∀ i, u32 (u32 (f + 4096) + 4096 * i) = u32 (f + 4096 * (i + 1)) := by
      intro i
      unfold u32
      omega
    have hindex : ∀ i, pmmAddressToIndex (u32 (f + 4096) + 4096 * i) =
        pmmAddressToIndex (f + 4096 * (i + 1)) := by
      intro i
      rw [pmmAddressToIndex, hshift, pmmAddressToIndex]
    have ih := ih (u32_lt _)
    constructor
    · intro he
      have hfirst : p.testFrame (pmmAddressToIndex f) = true := by
        rw [← he]
        refine ht.keeps ?_
        rw [Pmm.testFrame_markFrameReserved, decide_eq_true rfl, Bool.or_true]
      rw [Pmm.markFrameReserved_of_test hfirst] at ih
      intro i hi
      cases i with
      | zero =>
        rw [Nat.mul_zero, Nat.add_zero, u32_of_lt hf]
        exact ⟨h0, hfirst⟩
      | succ i =>
        have hrest := ih.1 he i (Nat.lt_of_succ_lt_succ hi)
        rwa [hshift, hindex] at hrest
    · intro hall
      have hfirst := (hall 0 (Nat.succ_pos n)).2
      rw [Nat.mul_zero, Nat.add_zero] at hfirst
      rw [Pmm.markFrameReserved_of_test hfirst] at ih
      refine ih.2 ?_
      intro i hi
      rw [hshift, hindex]
      exact hall (i + 1) (Nat.succ_lt_succ hi)
  | @new n p p' ha ht _ =>
    refine iff_of_false ?_ ?_
    · intro he
      obtain ⟨g, hg, hs⟩ := Pmm.allocFrame_sets ha
      have hset : p'.testFrame g = true := by
        refine ht.keeps ?_
        rw [hs, Pmm.testFrame_setFrame, decide_eq_true rfl, Bool.or_true]
      rw [he, hg] at hset
      cases hset
    · intro hall
      exact (hall 0 (Nat.succ_pos n)).1 rfl

end FramesTaken

namespace Vm

variable {σ : Type*} [Allocator σ] {vm vm' vm₁ vm₂ : Vm σ} {ds : List ℕ} {d v size p f r q a n : ℕ}
  {k w : Bool}

/-! ## The search for free pages -/

omit [Allocator σ] in
/-- The pages of a region that is found are not used. -/
theorem vmmRegionFree_true {spaceEnd : ℕ} (hs : size < 4294967296) :
    ∀ {fuel index : ℕ}, index % 4096 = 0 → vm.vmmRegionFree q spaceEnd size fuel index = some true →
      ∀ j, index ≤ 4096 * j → 4096 * j < size →
        vm.pagingIsPageUsed vm.currentPageDirectory (u32 (q + 4096 * j)) = false
  | 0, _, _, h => by cases h
  | fuel + 1, index, hi, h => by
    intro j hj hlt
    unfold vmmRegionFree at h
    rw [if_pos (by omega)] at h
    split at h
    · cases h
    · split at h
      · cases h
      · rename_i hu
        by_cases heq : 4096 * j = index
        · rw [heq]
          exact Bool.eq_false_iff.2 hu
        · have hnext : u32 (index + 4096) = index + 4096 := u32_of_lt (by omega)
          rw [hnext] at h
          exact vmmRegionFree_true hs (by omega) h j (by omega) hlt

omit [Allocator σ] in
theorem vmmFindFreeFrom_spec {spaceEnd : ℕ} (hs : size < 4294967296) :
    ∀ {fuel q : ℕ}, q % 4096 = 0 → vm.vmmFindFreeFrom spaceEnd size fuel q = .ok a →
      a % 4096 = 0 ∧ (a ≠ 0 → ∀ j, 4096 * j < size →
        vm.pagingIsPageUsed vm.currentPageDirectory (u32 (a + 4096 * j)) = false)
  | 0, _, _, h => by cases h
  | fuel + 1, q, hq, h => by
    have hnext : u32 (q + 4096) % 4096 = 0 := by
      unfold u32
      omega
    unfold vmmFindFreeFrom at h
    split at h
    · split at h
      · exact vmmFindFreeFrom_spec hs hnext h
      · split at h
        · cases h
        · rename_i hfree
          cases h
          exact ⟨hq, fun _ j hj => vmmRegionFree_true hs rfl hfree j (Nat.zero_le _) hj⟩
        · exact vmmFindFreeFrom_spec hs hnext h
    · cases h
      exact ⟨rfl, fun hc => absurd rfl hc⟩

omit [Allocator σ] in
/-- A place that is found begins with a page that is not page 0, and none of its pages is
    used. -/
theorem vmmPlace_found (hs : size < 4294967296)
    (h : vm.vmmPlace 0 size k = .ok a) : a % 4096 = 0 ∧ 4096 ≤ a ∧ a < 4294967296 ∧
      ∀ j, 4096 * j < size →
        vm.pagingIsPageUsed vm.currentPageDirectory (u32 (a + 4096 * j)) = false := by
  obtain ⟨hne, -, hlt⟩ := vmmPlace_spec h
  rw [vmmPlace, if_neg (fun hc => hc rfl)] at h
  cases hf : vm.vmmFindFreeMemory size k with
  | error e => rw [hf] at h; cases h
  | ok b =>
    rw [hf] at h
    simp only at h
    split at h
    · cases h
    · cases h
      have hbase : (if k = true then vmmKernelSpaceBase else vmmUserSpaceBase) % 4096 = 0 := by
        cases k <;> decide
      obtain ⟨h1, h2⟩ := vmmFindFreeFrom_spec hs hbase hf
      exact ⟨h1, by omega, hlt (by decide), h2 hne⟩

/-! ## One page -/

theorem pagingMapPage_pmm (h : vm.pagingMapPage d v f k w = some vm') : vm'.pmm = vm.pmm := by
  unfold pagingMapPage at h
  obtain ⟨⟨t, vm₁⟩, ht, rfl⟩ := Option.map_eq_some_iff.1 h
  show vm₁.pmm = vm.pmm
  unfold pagingTableFor at ht
  by_cases h0 : (vm.dirs d).tables (pageDirectoryIndex v) = 0
  · rw [if_pos h0] at ht
    have ht : (if vm.newTable.1 = 0 then none else some (vm.newTable.1,
        vm.newTable.2.linkTable d (pageDirectoryIndex v) vm.newTable.1
          (vm.newTable.2.pagingVirtualToPhysicalAddress d vm.newTable.1))) = some (t, vm₁) := ht
    split at ht
    · cases ht
    · cases ht
      rfl
  · rw [if_neg h0] at ht
    cases ht
    rfl

/-- The frame that a page takes. -/
theorem vmmMapPage_pmm (h : vm.vmmMapPage v p k w = .ok (r, vm')) (hr : r ≠ 0) :
    (vm.vmmFrame p).1 ≠ 0 ∧ vm'.pmm = (vm.vmmFrame p).2 := by
  rcases vmmMapPage_inv h with ⟨h0, -⟩ | ⟨-, he⟩
  · exact absurd h0 hr
  · exact ⟨he.frame, pagingMapPage_pmm he.paging⟩

theorem FramesTaken.cons (h : vm.vmmMapPage v f k w = .ok (r, vm₁)) (hr : r ≠ 0) {p' : Pmm}
    (ht : FramesTaken n (if f ≠ 0 then u32 (f + 4096) else 0) vm₁.pmm p') :
    FramesTaken (n + 1) f vm.pmm p' := by
  obtain ⟨h1, h2⟩ := vmmMapPage_pmm h hr
  rw [h2] at ht
  unfold vmmFrame at h1 ht
  by_cases hf : f = 0
  · subst hf
    exact .new h1 ht
  · rw [if_neg hf] at ht
    rw [if_pos hf] at ht
    exact .given hf ht

theorem PageMapped.keeps (h : PageMapped ds v k w vm vm') (hd : d ∈ ds) {u : ℕ}
    (hu : vm.page d u ≠ none) : vm'.page d u ≠ none := by
  obtain ⟨e, f, hpg⟩ := h.page
  rw [hpg d hd]
  split
  · exact Option.some_ne_none _
  · exact hu

theorem RangeMapped.keeps (h : RangeMapped ds a n vm vm') (hc : vm.currentPageDirectory ∈ ds)
    {u : ℕ} (hu : vm.page vm.currentPageDirectory u ≠ none) :
    vm'.page vm.currentPageDirectory u ≠ none := by
  by_cases hin : a ≤ pageNumber u ∧ pageNumber u < a + n
  · exact h.mapped u hin.1 hin.2
  · rw [h.others _ hc u (fun hx => hin ⟨hx.1, hx.2.1⟩)]
    exact hu

/-! ## The loop -/

/-- The ways the loop ends that maps the pages from page `a` on. -/
inductive MapLoopEnd (ds : List ℕ) (va stop a f : ℕ) (k w : Bool) (r : ℕ) (vm vm' : Vm σ) : Prop
  /-- The pages of the range are mapped. -/
  | finished (n : ℕ) : RangeMapped ds a n vm vm' → r = va → MapLoopEnd ds va stop a f k w r vm vm'
  /-- The page behind the first `n` is in use, and these are unmapped. -/
  | stopped (n : ℕ) (vm₁ : Vm σ) : RangeMapped ds a n vm vm₁ → FramesTaken n f vm.pmm vm₁.pmm →
      4096 * (a + n) < stop → a + n < 1048576 →
      vm₁.page vm.currentPageDirectory (4096 * (a + n)) ≠ none → r = 0 →
      vmmUnmapLoop (4096 * (a + n)) vmmFuel vm₁ va = .ok vm' → MapLoopEnd ds va stop a f k w r vm vm'
  /-- All pages up to the last are mapped, and the loop goes on with page 0. -/
  | wrapped (vm₁ : Vm σ) (fuel f' : ℕ) : k = true → vmmKernelSpaceBase ≤ 4096 * a → 4096 < stop →
      TablesOk vm₁ ds → SameStatics vm vm₁ →
      (∀ u, a ≤ pageNumber u → vm.page vm.currentPageDirectory u = none) →
      (∀ u, a ≤ pageNumber u ∨ vm.page vm.currentPageDirectory u ≠ none →
        vm₁.page vm.currentPageDirectory u ≠ none) →
      vmmMapLoop va stop k w fuel vm₁ 0 f' = .ok (r, vm') → MapLoopEnd ds va stop a f k w r vm vm'

/-- One more page in front. -/
theorem MapLoopEnd.cons {va stop f' : ℕ} (hc : vm.currentPageDirectory ∈ ds)
    (hn : vm.page vm.currentPageDirectory (4096 * a) = none) (ha : a + 1 < 1048576)
    (h1 : PageMapped ds (4096 * a) k w vm vm₁)
    (hf : ∀ {n p'}, FramesTaken n f' vm₁.pmm p' → FramesTaken (n + 1) f vm.pmm p')
    (h : MapLoopEnd ds va stop (a + 1) f' k w r vm₁ vm') : MapLoopEnd ds va stop a f k w r vm vm' := by
  have hcur : vm₁.currentPageDirectory = vm.currentPageDirectory := h1.linked.statics.current
  have hpa : pageNumber (4096 * a) = a := pageNumber_page (by omega)
  obtain ⟨e, f₀, hpg⟩ := h1.page
  cases h with
  | finished n h2 hr =>
    refine .finished (n + 1) (RangeMapped.cons hc hn h1 h2 ?_) hr
    rcases h2.fits with h3 | h3 <;> omega
  | stopped n vm₂ h2 ht hlt hn' hu hr hl =>
    rw [hcur] at hu
    have he : a + 1 + n = a + (n + 1) := by omega
    rw [he] at hlt hu hl hn'
    exact .stopped (n + 1) vm₂ (RangeMapped.cons hc hn h1 h2 (by omega)) (hf ht) hlt hn' hu hr hl
  | wrapped vm₂ fuel f'' hk hb hs hok hst hunused hmapped hl =>
    rw [hcur] at hunused hmapped
    refine .wrapped vm₂ fuel f'' hk (h1.side.1 hk) hs hok (h1.linked.statics.trans hst) ?_ ?_ hl
    · intro u hu
      by_cases hua : pageNumber u = a
      · rw [page_congr (hua.trans hpa.symm), hn]
      · have h2 := hunused u (by omega)
        rwa [hpg _ hc, if_neg (fun hx => hua (hx.2.trans hpa))] at h2
    · intro u hu
      refine hmapped u ?_
      by_cases hua : a + 1 ≤ pageNumber u
      · exact Or.inl hua
      · refine Or.inr ?_
        rcases hu with hu | hu
        · rw [hpg _ hc, if_pos ⟨rfl, by omega⟩]
          exact Option.some_ne_none _
        · exact h1.keeps hc hu

/-- One round of the loop. -/
theorem vmmMapLoop_cases {va stop fuel : ℕ} (hlt : q < stop)
    (h : vmmMapLoop va stop k w (fuel + 1) vm q f = .ok (r, vm')) :
    (∃ vm₁, vm.vmmMapPage q f k w = .ok (0, vm₁) ∧ r = 0 ∧
      vmmUnmapLoop q vmmFuel vm₁ va = .ok vm') ∨
    ∃ b vm₁, vm.vmmMapPage q f k w = .ok (b, vm₁) ∧ b ≠ 0 ∧
      vmmMapLoop va stop k w fuel vm₁ (u32 (q + 4096)) (if f ≠ 0 then u32 (f + 4096) else 0) =
        .ok (r, vm') := by
  unfold vmmMapLoop at h
  rw [if_pos hlt] at h
  cases hp : vm.vmmMapPage q f k w with
  | error e => rw [hp] at h; cases h
  | ok res =>
    obtain ⟨b, vm₁⟩ := res
    rw [hp] at h
    simp only at h
    split at h
    · rename_i hb
      subst hb
      cases hl : vmmUnmapLoop q vmmFuel vm₁ va with
      | error e => rw [hl] at h; cases h
      | ok vm₂ =>
        rw [hl] at h
        cases h
        exact Or.inl ⟨vm₁, rfl, rfl, hl⟩
    · rename_i hb
      exact Or.inr ⟨b, vm₁, rfl, hb, h⟩

theorem vmmMapLoop_end {va stop : ℕ} (hstop : stop < 4294967296) :
    ∀ {fuel : ℕ} {vm vm' : Vm σ} {a f : ℕ}, TablesOk vm ds → vm.currentPageDirectory ∈ ds →
      a ≠ 0 → a < 1048576 → vmmMapLoop va stop k w fuel vm (4096 * a) f = .ok (r, vm') →
      MapLoopEnd ds va stop a f k w r vm vm'
  | 0, _, _, _, _, _, _, _, _, h => by cases h
  | fuel + 1, vm, vm', a, f, hok, hc, ha, hlt, h => by
    by_cases hq : 4096 * a < stop
    · rcases vmmMapLoop_cases hq h with ⟨vm₁, hp, hr, hl⟩ | ⟨b, vm₁, hp, hb, h⟩
      · rcases vmmMapPage_cases hok hc hp with ⟨-, rfl, -, hu⟩ | ⟨hb, -⟩
        · exact .stopped 0 vm₁ (RangeMapped.nil hok a) (.nil f _) hq hlt hu hr hl
        · exact absurd rfl hb
      · rcases vmmMapPage_cases hok hc hp with ⟨h0, -⟩ | ⟨-, -, hv, hm⟩
        · exact absurd h0 hb
        obtain ⟨rfl, hn⟩ := hv (by omega)
        have hcur : vm₁.currentPageDirectory = vm.currentPageDirectory := hm.linked.statics.current
        have hpa : pageNumber (4096 * a) = a := pageNumber_page hlt
        by_cases hw : a + 1 = 1048576
        · -- the next page address is 0
          have hz : u32 (4096 * a + 4096) = 0 := by unfold u32; omega
          have hside : vmmKernelSpaceBase ≤ 4096 * a := by
            simp only [vmmKernelSpaceBase]
            omega
          have hlast : ∀ u, a ≤ pageNumber u → pageNumber u = a := by
            intro u hu
            have := u32_lt u
            unfold pageNumber at *
            omega
          rw [hz] at h
          refine .wrapped vm₁ fuel _ (hm.side.2 hside) hside (by omega) hm.ok hm.linked.statics
            ?_ ?_ h
          · intro u hu
            rw [page_congr ((hlast u hu).trans hpa.symm), hn]
          · intro u hu
            rcases hu with hu | hu
            · obtain ⟨e, f₀, hpg⟩ := hm.page
              rw [hpg _ hc, if_pos ⟨rfl, (hlast u hu).trans hpa.symm⟩]
              exact Option.some_ne_none _
            · exact hm.keeps hc hu
        · have hz : u32 (4096 * a + 4096) = 4096 * (a + 1) := by unfold u32; omega
          rw [hz] at h
          have hrest := vmmMapLoop_end hstop hm.ok (hcur ▸ hc) (by omega) (by omega) h
          exact hrest.cons hc hn (by omega) hm (FramesTaken.cons hp hb)
    · unfold vmmMapLoop at h
      rw [if_neg hq] at h
      cases h
      exact .finished 0 (RangeMapped.nil hok a) rfl

omit [Allocator σ] in
theorem vmmUnmapLoop_done {stop fuel : ℕ} (h : stop ≤ q)
    (hl : vmmUnmapLoop stop fuel vm q = .ok vm') : vm' = vm := by
  cases fuel with
  | zero => cases hl
  | succ fuel =>
    rw [vmmUnmapLoop, if_neg (by omega)] at hl
    cases hl
    rfl

/-- A loop that wrapped around leaves its pages mapped. -/
theorem vmmMapLoop_wrapped_keeps {va stop fuel : ℕ} (hok : TablesOk vm ds)
    (hc : vm.currentPageDirectory ∈ ds) (hs : 4096 < stop) (hva : 4096 ≤ va)
    (h : vmmMapLoop va stop true w fuel vm 0 f = .ok (r, vm')) :
    TablesOk vm' ds ∧ ∀ u, vm.page vm.currentPageDirectory u ≠ none →
      vm'.page vm.currentPageDirectory u ≠ none := by
  match fuel, h with
  | 0, h => cases h
  | 1, h =>
    rcases vmmMapLoop_cases (by omega) h with ⟨vm₁, hp, -⟩ | ⟨b, vm₁, -, -, h⟩
    · rcases vmmMapPage_cases hok hc hp with ⟨-, -, h0, -⟩ | ⟨hb, -⟩
      · exact absurd rfl h0
      · exact absurd rfl hb
    · cases h
  | fuel + 2, h =>
    rcases vmmMapLoop_cases (by omega) h with ⟨vm₁, hp, -⟩ | ⟨b, vm₁, hp, hb, h⟩
    · rcases vmmMapPage_cases hok hc hp with ⟨-, -, h0, -⟩ | ⟨hb, -⟩
      · exact absurd rfl h0
      · exact absurd rfl hb
    · rcases vmmMapPage_cases hok hc hp with ⟨h0, -⟩ | ⟨-, -, -, hm⟩
      · exact absurd h0 hb
      have hcur : vm₁.currentPageDirectory = vm.currentPageDirectory := hm.linked.statics.current
      have h4096 : u32 (0 + 4096) = 4096 := rfl
      rw [h4096] at h
      rcases vmmMapLoop_cases hs h with ⟨vm₂, hp', -, hl⟩ | ⟨b', vm₂, hp', hb', -⟩
      · -- page 1 is in use, and below the pages to unmap
        rcases vmmMapPage_cases hm.ok (hcur ▸ hc) hp' with ⟨-, rfl, -, -⟩ | ⟨h0, -⟩
        · obtain rfl := vmmUnmapLoop_done hva hl
          exact ⟨hm.ok, fun u hu => hm.keeps hc hu⟩
        · exact absurd rfl h0
      · have hk := (vmmMapPage_side hp' hb' (by decide)).2.1 rfl
        exact absurd hk (by decide)

/-! ## A call that fails -/

/-- The pages, the translations and the frames are as before. -/
structure Untouched (ds : List ℕ) (vm vm' : Vm σ) : Prop where
  used : ∀ d ∈ ds, ∀ u, vm'.pagingIsPageUsed d u = vm.pagingIsPageUsed d u
  translation : ∀ d ∈ ds, ∀ u,
    vm'.pagingVirtualToPhysicalAddress d u = vm.pagingVirtualToPhysicalAddress d u
  pmm : vm'.pmm = vm.pmm

theorem untouched_of_pages (h : TablesOk vm ds) (h' : TablesOk vm' ds)
    (he : vm'.pagingEnabled = vm.pagingEnabled)
    (hpg : ∀ d ∈ ds, ∀ u, vm'.page d u = vm.page d u) (hp : vm'.pmm = vm.pmm) :
    Untouched ds vm vm' where
  used := by
    intro d hd u
    rw [isPageUsed_eq h hd, isPageUsed_eq h' hd, hpg d hd]
  translation := by
    intro d hd u
    cases hen : vm.pagingEnabled with
    | false =>
      have hen' : vm'.pagingEnabled = false := he.trans hen
      rw [pagingVirtualToPhysicalAddress, pagingVirtualToPhysicalAddress, hen, hen']
      rfl
    | true => rw [translate_eq hen, translate_eq (he.trans hen), hpg d hd]
  pmm := hp

/-- A page that is mapped afterwards and was not before. -/
theorem not_untouched (h : TablesOk vm ds) (h' : TablesOk vm' ds) (hd : d ∈ ds) {u : ℕ}
    (hn : vm.page d u = none) (hs : vm'.page d u ≠ none) : ¬ Untouched ds vm vm' := by
  intro hu
  have hused := hu.used d hd u
  rw [isPageUsed_eq h hd, isPageUsed_eq h' hd, hn] at hused
  exact hs (Option.isSome_eq_false_iff.1 hused |> Option.isNone_iff_eq_none.1)

/-- The first page in use of those from page `a` on lies below `stop`, and the frames
    given from `f` on for the pages before are in use already. -/
def StopsOnReserved (vm : Vm σ) (a stop f : ℕ) : Prop :=
  ∃ n, 4096 * (a + n) < stop ∧ vm.vmmIsMapped (4096 * (a + n)) = true ∧
    ∀ i < n, vm.vmmIsMapped (4096 * (a + i)) = false ∧ u32 (f + 4096 * i) ≠ 0 ∧
      vm.pmm.testFrame (pmmAddressToIndex (f + 4096 * i)) = true

/-- **The loop**, from a page that is not page 0 on. -/
theorem vmmMapLoop_untouched {stop fuel : ℕ} (hstop : stop < 4294967296) (hok : TablesOk vm ds)
    (hc : vm.currentPageDirectory ∈ ds) (ha : a ≠ 0) (hlt : a < 1048576) (hf : f < 4294967296)
    (h : vmmMapLoop (4096 * a) stop k w fuel vm (4096 * a) f = .ok (0, vm')) :
    Untouched ds vm vm' ↔ StopsOnReserved vm a stop f := by
  have hmapped : ∀ u, vm.vmmIsMapped u = true ↔ vm.page vm.currentPageDirectory u ≠ none := by
    intro u
    rw [vmmIsMapped, isPageUsed_eq hok hc, Option.isSome_iff_ne_none]
  have hunmapped : ∀ u, vm.vmmIsMapped u = false ↔ vm.page vm.currentPageDirectory u = none :=
    fun u => isPageUsed_false hok hc
  cases vmmMapLoop_end hstop hok hc ha hlt h with
  | finished n _ h0 => omega
  | stopped n vm₁ hm ht hs hn hu _ hl =>
    have hcur : vm₁.currentPageDirectory = vm.currentPageDirectory := hm.grown.statics.current
    obtain ⟨vm₂, hl₂, hun⟩ := vmmUnmapLoop_range (4096 * (a + n)) n vmmFuel (4096 * a) hm.ok
      (hcur ▸ hc) (by simp only [vmmFuel]; omega) (by omega) (by omega) (by omega)
    obtain rfl : vm₂ = vm' := by
      rw [hl] at hl₂
      exact (Except.ok.inj hl₂).symm
    rw [Nat.mul_div_cancel_left a (by decide)] at hun
    have hpages := hm.undone hok hun
    have hpmm : vm₂.pmm = vm₁.pmm := by
      obtain ⟨ts, hts⟩ := hun.tables
      rw [hts]
    have hen : vm₂.pagingEnabled = vm.pagingEnabled := by
      obtain ⟨ts, hts⟩ := hun.tables
      rw [hts]
      exact hm.grown.statics.enabled
    have hused : vm.vmmIsMapped (4096 * (a + n)) = true := by
      rw [hmapped, ← hm.others _ hc]
      · exact hu
      · rw [pageNumber_page hn]
        omega
    have hfree : ∀ i < n, vm.vmmIsMapped (4096 * (a + i)) = false := by
      intro i hi
      have hpn : pageNumber (4096 * (a + i)) = a + i := pageNumber_page (by omega)
      rw [hunmapped]
      exact hm.unused _ (by omega) (by omega)
    have hiff : Untouched ds vm vm₂ ↔ vm₁.pmm = vm.pmm := by
      rw [← hpmm]
      exact ⟨fun hx => hx.pmm, untouched_of_pages hok hun.ok hen hpages⟩
    rw [hiff, ht.eq_iff hf]
    constructor
    · intro hall
      exact ⟨n, hs, hused, fun i hi => ⟨hfree i hi, hall i hi⟩⟩
    · rintro ⟨m, -, hm', hall⟩
      have hmn : m = n := by
        rcases Nat.lt_trichotomy m n with hx | hx | hx
        · rw [hfree m hx] at hm'
          cases hm'
        · exact hx
        · rw [(hall n hx).1] at hused
          cases hused
      intro i hi
      exact (hall i (hmn ▸ hi)).2
  | wrapped vm₁ fuel' f' hk hb hs hok₁ hst hunused hkept hl =>
    subst hk
    have hcur : vm₁.currentPageDirectory = vm.currentPageDirectory := hst.current
    have hpa : pageNumber (4096 * a) = a := pageNumber_page hlt
    obtain ⟨hok', hkeeps⟩ := vmmMapLoop_wrapped_keeps hok₁ (hcur ▸ hc) hs (by omega) hl
    rw [hcur] at hkeeps
    refine iff_of_false ?_ ?_
    · exact not_untouched hok hok' hc (hunused _ hpa.ge) (hkeeps _ (hkept _ (Or.inl hpa.ge)))
    · rintro ⟨n, hs', hm', -⟩
      have hpn : pageNumber (4096 * (a + n)) = a + n := pageNumber_page (by omega)
      rw [hmapped] at hm'
      exact hm' (hunused _ (by omega))

/-- For page 0 another one is mapped, which stays. -/
theorem vmmMapLoop_zero {stop fuel : ℕ} (h0 : 0 < stop) (hstop : stop < 4294967296)
    (hok : TablesOk vm ds) (hc : vm.currentPageDirectory ∈ ds)
    (h : vmmMapLoop 0 stop k w fuel vm 0 f = .ok (0, vm')) : ¬ Untouched ds vm vm' := by
  cases fuel with
  | zero => cases h
  | succ fuel =>
    rcases vmmMapLoop_cases h0 h with ⟨vm₁, hp, -⟩ | ⟨b, vm₁, hp, hb, h⟩
    · rcases vmmMapPage_cases hok hc hp with ⟨-, -, hne, -⟩ | ⟨hne, -⟩
      · exact absurd rfl hne
      · exact absurd rfl hne
    rcases vmmMapPage_cases hok hc hp with ⟨hz, -⟩ | ⟨-, hplace, -, hm⟩
    · exact absurd hz hb
    have hcur : vm₁.currentPageDirectory = vm.currentPageDirectory := hm.linked.statics.current
    obtain ⟨hmod, hle, hblt, hfree⟩ := vmmPlace_found (by decide) hplace
    have hnone : vm.page vm.currentPageDirectory b = none := by
      have hj := hfree 0 (by decide)
      rwa [Nat.mul_zero, Nat.add_zero, u32_of_lt hblt, isPageUsed_false hok hc] at hj
    have hsome : vm₁.page vm₁.currentPageDirectory b ≠ none := by
      obtain ⟨e, f₀, hpg⟩ := hm.page
      rw [hcur, hpg _ hc, if_pos ⟨rfl, rfl⟩]
      exact Option.some_ne_none _
    have h4096 : u32 (0 + 4096) = 4096 * 1 := rfl
    rw [h4096] at h
    cases vmmMapLoop_end hstop hm.ok (hcur ▸ hc) (by decide) (by decide) h with
    | finished n hr _ =>
      refine not_untouched hok hr.ok hc hnone ?_
      rw [← hcur]
      exact hr.keeps (hcur ▸ hc) hsome
    | stopped n vm₂ hr _ _ hn _ _ hl =>
      have hcur₂ : vm₂.currentPageDirectory = vm₁.currentPageDirectory := hr.grown.statics.current
      obtain ⟨vm₃, hl₃, hun⟩ := vmmUnmapLoop_range (4096 * (1 + n)) (n + 1) vmmFuel 0 hr.ok
        (hcur₂ ▸ hcur ▸ hc) (by simp only [vmmFuel]; omega) (by omega) (by omega) (by omega)
      obtain rfl : vm₃ = vm' := by
        rw [hl] at hl₃
        exact (Except.ok.inj hl₃).symm
      have hpb : pageNumber b = b / 4096 := by rw [pageNumber, u32_of_lt hblt]
      -- the loop would have come to the page
      have hout : n + 1 ≤ pageNumber b := by
        by_contra hlt
        exact hsome (hr.unused b (by omega) (by omega))
      refine not_untouched hok hun.ok hc hnone ?_
      rw [hun.page _ hc, if_neg (fun hx => by omega), ← hcur]
      exact hr.keeps (hcur ▸ hc) hsome
    | wrapped vm₂ fuel' f' _ hside => exact absurd hside (by decide)

/-- The call: it fails because the range begins in page 0, or at a page that is in use. -/
theorem vmmMapMemory_untouched (hok : TablesOk vm ds) (hc : vm.currentPageDirectory ∈ ds)
    (hv : v < 4294967296) (hs : size < 4294967296) (hp : p < 4294967296)
    (h : vm.vmmMapMemory v size p k w = .ok (0, vm')) :
    Untouched ds vm vm' ↔ (0 < v ∧ v < 4096 ∧ size = 0) ∨
      (4096 ≤ v ∧ StopsOnReserved vm (v / 4096) (u32 (v / 4096 * 4096 + size)) p) := by
  unfold vmmMapMemory at h
  cases hplace : vm.vmmPlace v size k with
  | error e => rw [hplace] at h; cases h
  | ok b =>
    rw [hplace] at h
    simp only at h
    obtain ⟨hb0, hbv, hb⟩ := vmmPlace_spec hplace
    have hb := hb hv
    have hdown : vmmAlignDown b = 4096 * (b / 4096) := Nat.mul_comm _ _
    rw [hdown] at h
    by_cases hv0 : v = 0
    · -- a place that was found has no page in use
      subst hv0
      have hfalse : ¬ ((0 < 0 ∧ 0 < 4096 ∧ size = 0) ∨
          (4096 ≤ 0 ∧ StopsOnReserved vm (0 / 4096) (u32 (0 / 4096 * 4096 + size)) p)) := by
        rintro (⟨hc, -⟩ | ⟨hc, -⟩)
        · omega
        · omega
      obtain ⟨hmod, hle, -, hfree⟩ := vmmPlace_found hs hplace
      refine iff_of_false ?_ hfalse
      rw [vmmMapLoop_untouched (u32_lt _) hok hc (by omega) (by omega) hp h]
      rintro ⟨n, hlt, hm, -⟩
      have hsize : 4096 * n < size := by
        unfold u32 at hlt
        omega
      have hpage : u32 (b + 4096 * n) = 4096 * (b / 4096 + n) := by
        rw [u32_of_lt (by unfold u32 at hlt; omega)]
        omega
      have hn := hfree n hsize
      rw [hpage] at hn
      rw [vmmIsMapped, hn] at hm
      cases hm
    · obtain rfl := hbv hv0
      by_cases hpage : b / 4096 = 0
      · have hstop : u32 (4096 * (b / 4096) + size) = size := by
          rw [hpage, Nat.mul_zero, Nat.zero_add, u32_of_lt hs]
        rw [hstop, hpage, Nat.mul_zero] at h
        by_cases hsize : size = 0
        · subst hsize
          refine iff_of_true ?_ (Or.inl ⟨by omega, by omega, rfl⟩)
          rw [vmmMapLoop, if_neg (by decide)] at h
          cases h
          exact ⟨fun _ _ _ => rfl, fun _ _ _ => rfl, rfl⟩
        · refine iff_of_false (vmmMapLoop_zero (by omega) hs hok hc h) ?_
          rintro (⟨-, -, hx⟩ | ⟨hx, -⟩)
          · exact hsize hx
          · omega
      · rw [vmmMapLoop_untouched (u32_lt _) hok hc hpage (by omega) hp h, Nat.mul_comm]
        constructor
        · intro hx
          exact Or.inr ⟨by omega, hx⟩
        · rintro (⟨-, hx, -⟩ | ⟨-, hx⟩)
          · omega
          · exact hx

end Vm

open Vm AddressSpaces

variable {vm' : Vm KernelHeap} {v size p : ℕ} {k w : Bool}

/-- **A call that fails leaves no trace** exactly if the range is empty, in page 0, or it
    stops at a page in use before it has taken a frame that was not. -/
theorem vmm_map_untouched {s : AddressSpaces KernelHeap}
    (hr : (addressSpaceSystem Starts Clean).Reachable s) (hv : v < 4294967296)
    (hs : size < 4294967296) (hp : p < 4294967296)
    (hm : s.vm.vmmMapMemory v size p k w = .ok (0, vm')) :
    Untouched s.spaces s.vm vm' ↔ (0 < v ∧ v < 4096 ∧ size = 0) ∨
      (4096 ≤ v ∧ StopsOnReserved s.vm (v / 4096) (u32 (v / 4096 * 4096 + size)) p) :=
  vmmMapMemory_untouched (reachable_spacesInv hr).ok (reachable_spacesInv hr).current hv hs hp hm

/-- An empty address space; of the frames only frame 0 is in use. -/
def emptyVm : Vm KernelHeap where
  heap := (Allocator.alloc placementHeap 8192 true).2
  tables := fun _ => .zero
  dirs := fun _ => .zero
  kernelPageDirectory := (Allocator.alloc placementHeap 8192 true).1
  currentPageDirectory := (Allocator.alloc placementHeap 8192 true).1
  pagingEnabled := true
  cr3 := 0
  pmm := ⟨fun i => if i = 0 then 1 else 0, 1048575, 0⟩
  mem := fun _ => 0

/-- It is what a kernel boots with, whatever is in memory. -/
theorem emptyVm_boots (mem : Mem) :
    Boots ⟨{ emptyVm with mem := mem }, [emptyVm.kernelPageDirectory]⟩ := by
  have hlive : Allocator.Live emptyVm.heap emptyVm.kernelPageDirectory :=
    Allocator.alloc_new (by decide) (by decide +kernel)
  exact .empty rfl rfl hlive rfl

theorem emptyVm_reachable : (addressSpaceSystem Starts Clean).Reachable
    ⟨emptyVm, [emptyVm.kernelPageDirectory]⟩ :=
  .init (Starts.of_boots (emptyVm_boots _))

/-- A page is mapped at 4 MiB, and then two pages from `v` on: the state before the second
    call, and the call. -/
def mapTwice (v : ℕ) : Except Stop (Vm KernelHeap × ℕ × Vm KernelHeap) :=
  (emptyVm.vmmMapMemory 0x400000 4096 0 false true).bind fun r =>
    (r.2.vmmMapMemory v 8192 0 false true).map fun r' => (r.2, r')

theorem mapTwice_reachable {res : Vm KernelHeap × ℕ × Vm KernelHeap} (h : mapTwice v = .ok res) :
    (addressSpaceSystem Starts Clean).Reachable ⟨res.1, [emptyVm.kernelPageDirectory]⟩ ∧
      res.1.vmmMapMemory v 8192 0 false true = .ok res.2 := by
  unfold mapTwice at h
  obtain ⟨r, h1, h⟩ := exists_of_bind_ok h
  obtain ⟨r', h2, h⟩ := exists_of_map_ok h
  subst h
  refine ⟨?_, h2⟩
  refine .step (i := .map 0x400000 4096 0 false true) emptyVm_reachable ⟨?_, ?_, rfl, r.1, h1⟩
  · intro hc
    cases hc
  · exact ⟨by decide, by decide, by decide⟩

/-- The first of two pages is in use. -/
theorem vmm_map_untouched_used : ∃ (s : AddressSpaces KernelHeap) (vm' : Vm KernelHeap),
    s.vm.vmmMapMemory 0x400000 8192 0 false true = .ok (0, vm') ∧ Untouched s.spaces s.vm vm' := by
  obtain ⟨⟨vm, r, vm'⟩, h, hc⟩ := exists_of_check (x := mapTwice 0x400000)
    (P := fun res => res.2.1 == 0 && res.1.vmmIsMapped 0x400000) (by decide +kernel)
  simp only [Bool.and_eq_true, beq_iff_eq] at hc
  obtain ⟨rfl, hmapped⟩ := hc
  obtain ⟨hr, hm⟩ := mapTwice_reachable h
  exact ⟨_, vm', hm, (vmm_map_untouched hr (by decide) (by decide) (by decide) hm).2
    (Or.inr ⟨by decide, 0, by decide, hmapped, fun i hi => absurd hi (Nat.not_lt_zero i)⟩)⟩

/-- **A frame is lost**: the page at 4 MiB is in use, and the one before it took a new
    frame. -/
theorem vmm_map_loses_frame : ∃ (s : AddressSpaces KernelHeap) (vm' : Vm KernelHeap),
    (addressSpaceSystem Starts Clean).Reachable s ∧
      s.vm.vmmMapMemory 0x3FF000 8192 0 false true = .ok (0, vm') ∧
      ¬ Untouched s.spaces s.vm vm' := by
  obtain ⟨⟨vm, r, vm'⟩, h, hc⟩ := exists_of_check (x := mapTwice 0x3FF000)
    (P := fun res => res.2.1 == 0 &&
      res.2.2.pmm.numMemoryFramesUsed != res.1.pmm.numMemoryFramesUsed) (by decide +kernel)
  simp only [Bool.and_eq_true, beq_iff_eq, bne_iff_ne] at hc
  obtain ⟨rfl, hne⟩ := hc
  obtain ⟨hr, hm⟩ := mapTwice_reachable h
  refine ⟨_, vm', hr, hm, ?_⟩
  intro hu
  exact hne (by rw [hu.pmm])

end Ttos
