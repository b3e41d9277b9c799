/-
  What mapping and unmapping do, page by page and over ranges.

  * `vmmMapPage_cases`: one page; `vmmMapMemory_invariant`: what every page keeps,
    the call keeps.
  * `vmmMapMemory_success`: a call that succeeds maps exactly a range of unused
    pages.
  * `vmmUnmapMemory_range`: unmapping a range, from an address that need not be
    aligned.
-/
import Ttos.Arch.PagingSpec
import Ttos.Memory.Vmm

namespace Ttos

namespace Vm

variable {σ : Type*} [Allocator σ] {vm vm' vm₁ vm₂ : Vm σ} {ds : List ℕ} {d v size p f r q : ℕ}
  {k w : Bool}

/-! ## New page tables -/

/-- Between two states the directory `d` got new page tables in empty slots, and no
    other slot of any directory changed. -/
structure Grown (d : ℕ) (vm vm' : Vm σ) : Prop where
  statics : SameStatics vm vm'
  live : ∀ p, Allocator.Live vm.heap p → Allocator.Live vm'.heap p
  tables : ∀ d' i, (vm'.dirs d').tables i ≠ (vm.dirs d').tables i →
    d' = d ∧ (vm.dirs d').tables i = 0 ∧ ¬ Allocator.Live vm.heap ((vm'.dirs d').tables i)

theorem Grown.refl (d : ℕ) (vm : Vm σ) : Grown d vm vm :=
  ⟨SameStatics.refl vm, fun _ h => h, fun _ _ h => absurd rfl h⟩

theorem Linked.grown (h : Linked d v vm vm') : Grown d vm vm' :=
  ⟨h.statics, h.live, fun d' i hne => by
    obtain ⟨h1, -, h2⟩ := h.tables d' i hne
    exact ⟨h1, h2⟩⟩

theorem Grown.trans (h : Grown d vm vm₁) (h' : Grown d vm₁ vm₂) : Grown d vm vm₂ := by
  refine ⟨h.statics.trans h'.statics, fun p hp => h'.live p (h.live p hp), fun d' i hne => ?_⟩
  by_cases h1 : (vm₁.dirs d').tables i = (vm.dirs d').tables i
  · rw [← h1] at hne ⊢
    obtain ⟨h2, h3, h4⟩ := h'.tables d' i hne
    exact ⟨h2, h3, fun hl => h4 (h.live _ hl)⟩
  · obtain ⟨h2, h3, h4⟩ := h.tables d' i h1
    by_cases h5 : (vm₂.dirs d').tables i = (vm₁.dirs d').tables i
    · rw [h5]
      exact ⟨h2, h3, h4⟩
    · obtain ⟨-, -, h6⟩ := h'.tables d' i h5
      exact ⟨h2, h3, fun hl => h6 (h.live _ hl)⟩

/-- A table once there stays. -/
theorem Grown.tableOf_eq (h : Grown d vm vm') {d' : ℕ} (h0 : vm.tableOf d' v ≠ 0) :
    vm'.tableOf d' v = vm.tableOf d' v := by
  by_contra hne
  exact h0 (h.tables d' _ hne).2.1

/-- A directory that has `d`'s table of a page afterwards had it before: there is no
    page in the one that was not in the other. -/
theorem Grown.shared (h : Grown d vm vm') (hok : TablesOk vm ds) {d' : ℕ} (hd' : d' ∈ ds)
    (ht : vm'.tableOf d' v = vm'.tableOf d v) (hn : vm.page d v = none) : vm.page d' v = none := by
  by_cases hdd : d' = d
  · rwa [hdd]
  by_cases h0 : vm.tableOf d' v = 0
  · exact page_of_tableOf h0
  have h1 : vm'.tableOf d' v = vm.tableOf d' v := h.tableOf_eq h0
  by_cases h2 : vm'.tableOf d v = vm.tableOf d v
  · rw [page, entryAt_eq, ← h1, ht, h2, ← entryAt_eq, ← page, hn]
  · obtain ⟨-, -, h3⟩ := h.tables d _ h2
    refine absurd ?_ h3
    show Allocator.Live vm.heap (vm'.tableOf d v)
    rw [← ht, h1]
    exact hok.live d' hd' _ (pageDirectoryIndex_lt v) h0

/-! ## One page -/

omit [Allocator σ] in
theorem vmmFindFreeFrom_lt {spaceEnd n : ℕ} : ∀ {fuel q a : ℕ}, q < 4294967296 →
    vm.vmmFindFreeFrom spaceEnd n fuel q = .ok a → a < 4294967296
  | 0, _, _, _, h => by cases h
  | fuel + 1, q, a, hq, h => by
    unfold vmmFindFreeFrom at h
    split at h
    · split at h
      · exact vmmFindFreeFrom_lt (u32_lt _) h
      · split at h
        · cases h
        · cases h
          exact hq
        · exact vmmFindFreeFrom_lt (u32_lt _) h
    · cases h
      decide

omit [Allocator σ] in
theorem vmmPlace_spec {a : ℕ} (h : vm.vmmPlace v size k = .ok a) :
    a ≠ 0 ∧ (v ≠ 0 → a = v) ∧ (v < 4294967296 → a < 4294967296) := by
  unfold vmmPlace at h
  by_cases h0 : v ≠ 0
  · rw [if_pos h0] at h
    cases h
    exact ⟨h0, fun _ => rfl, fun h => h⟩
  · rw [if_neg h0] at h
    cases hf : vm.vmmFindFreeMemory size k with
    | error e => rw [hf] at h; cases h
    | ok b =>
      rw [hf] at h
      simp only at h
      split at h
      · cases h
      · rename_i hb
        cases h
        refine ⟨hb, fun h => absurd h h0, fun _ => vmmFindFreeFrom_lt ?_ hf⟩
        cases k <;> decide

theorem Linked.of_pmm {pmm : Pmm} (h : Linked d v { vm with pmm := pmm } vm') : Linked d v vm vm' :=
  ⟨⟨h.statics.kernel, h.statics.current, h.statics.enabled, h.statics.mem⟩, h.live, h.tables, h.table⟩

/-- What a call of `vmm_map_page` has done that returns the address `r` of a page. -/
structure PageEntered (v p : ℕ) (k w : Bool) (r : ℕ) (vm vm' : Vm σ) : Prop where
  place : vm.vmmPlace v 4096 k = .ok r
  free : v ≠ 0 → vm.pagingIsPageUsed vm.currentPageDirectory v = false
  side : k = true ↔ vmmKernelSpaceBase ≤ r
  frame : (vm.vmmFrame p).1 ≠ 0
  paging : ({ vm with pmm := (vm.vmmFrame p).2 } : Vm σ).pagingMapPage vm.currentPageDirectory r
    (vm.vmmFrame p).1 k w = some vm'

/-- **The ways `vmm_map_page` returns**: the page is in use already and nothing happens, or it
    is entered. -/
theorem vmmMapPage_inv (h : vm.vmmMapPage v p k w = .ok (r, vm')) :
    (r = 0 ∧ vm' = vm ∧ v ≠ 0 ∧ vm.pagingIsPageUsed vm.currentPageDirectory v = true) ∨
      (r ≠ 0 ∧ PageEntered v p k w r vm vm') := by
  unfold vmmMapPage at h
  by_cases hu : v ≠ 0 ∧ vm.pagingIsPageUsed vm.currentPageDirectory v = true
  · rw [if_pos hu] at h
    cases h
    exact Or.inl ⟨rfl, rfl, hu⟩
  · rw [if_neg hu] at h
    cases hp : vm.vmmPlace v 4096 k with
    | error e => rw [hp] at h; cases h
    | ok a =>
      rw [hp] at h
      simp only at h
      split at h
      · cases h
      rename_i hk
      split at h
      · cases h
      rename_i hk'
      split at h
      · cases h
      rename_i hf
      split at h
      · cases h
      rename_i hm
      cases h
      refine Or.inr ⟨(vmmPlace_spec hp).1, hp, fun hv => by simpa [hv] using hu, ?_, hf, hm⟩
      cases k
      · simpa using hk'
      · simpa using hk

/-- The page of `v` was entered into the current directory: the page is in the half of
    the address space it was asked for, and no other page changed. -/
structure PageMapped (ds : List ℕ) (v : ℕ) (k w : Bool) (vm vm' : Vm σ) : Prop where
  ok : TablesOk vm' ds
  linked : Linked vm.currentPageDirectory v vm vm'
  side : k = true ↔ vmmKernelSpaceBase ≤ v
  page : ∃ e f, ∀ d ∈ ds, ∀ u, vm'.page d u =
    if vm'.tableOf d v = vm'.tableOf vm.currentPageDirectory v ∧ pageNumber u = pageNumber v then
      some (PageTableEntry.map e f k w) else vm.page d u

/-- The page that is entered has the frame given, or a new one. -/
theorem PageEntered.mapped (he : PageEntered v p k w r vm vm') (h : TablesOk vm ds)
    (hc : vm.currentPageDirectory ∈ ds) : TablesOk vm' ds ∧
      Linked vm.currentPageDirectory r vm vm' ∧ vm'.pmm = (vm.vmmFrame p).2 ∧
      ∃ e, ∀ d ∈ ds, ∀ u, vm'.page d u =
        if vm'.tableOf d r = vm'.tableOf vm.currentPageDirectory r ∧
            pageNumber u = pageNumber r then
          some (PageTableEntry.map e (vm.vmmFrame p).1 k w) else vm.page d u := by
  have h' : TablesOk { vm with pmm := (vm.vmmFrame p).2 } ds := ⟨h.live, h.slot, h.agree⟩
  rcases pagingMapPage_spec (v := r) h' hc (vm.vmmFrame p).1 k w with
    h1 | ⟨vm₁, e, h1, hok, hl, hp, hpg⟩
  · rw [he.paging] at h1
    cases h1
  · obtain rfl : vm₁ = vm' := Option.some.inj (h1.symm.trans he.paging)
    exact ⟨hok, hl.of_pmm, hp, e, hpg⟩

/-- **One page**: it is in use already and nothing happens, or it is mapped. -/
theorem vmmMapPage_cases (h : TablesOk vm ds) (hc : vm.currentPageDirectory ∈ ds)
    (hr : vm.vmmMapPage v p k w = .ok (r, vm')) :
    (r = 0 ∧ vm' = vm ∧ v ≠ 0 ∧ vm.page vm.currentPageDirectory v ≠ none) ∨
    (r ≠ 0 ∧ vm.vmmPlace v 4096 k = .ok r ∧
      (v ≠ 0 → r = v ∧ vm.page vm.currentPageDirectory v = none) ∧
      PageMapped ds r k w vm vm') := by
  rcases vmmMapPage_inv hr with ⟨h0, hvm, hv, hu⟩ | ⟨hr0, he⟩
  · refine Or.inl ⟨h0, hvm, hv, fun hn => ?_⟩
    rw [(isPageUsed_false h hc).2 hn] at hu
    cases hu
  · obtain ⟨hok, hl, -, e, hpg⟩ := he.mapped h hc
    refine Or.inr ⟨hr0, he.place, fun hv => ⟨(vmmPlace_spec he.place).2.1 hv, ?_⟩, hok, hl, he.side,
      e, _, hpg⟩
    rw [← isPageUsed_false h hc]
    exact he.free hv

/-! ## What every page keeps -/

omit [Allocator σ] in
/-- A loop that unmaps pages keeps what unmapping one page keeps. -/
theorem vmmUnmapLoop_invariant {P : Vm σ → Prop} {stop : ℕ}
    (hu : ∀ vm q, q < 4294967296 → q < stop → P vm → P (vm.vmmUnmapPage q)) :
    ∀ {fuel : ℕ} {vm vm' : Vm σ} {q : ℕ}, q < 4294967296 → P vm →
      vmmUnmapLoop stop fuel vm q = .ok vm' → P vm'
  | 0, _, _, _, _, _, h => by cases h
  | fuel + 1, vm, vm', q, hq, hP, h => by
    unfold vmmUnmapLoop at h
    split at h
    · rename_i hlt
      exact vmmUnmapLoop_invariant hu (u32_lt _) (hu vm q hq hlt hP) h
    · cases h
      exact hP

omit [Allocator σ] in
theorem vmmUnmapMemory_invariant {P : Vm σ → Prop} (hv : v < 4294967296)
    (hu : ∀ vm q, q < 4294967296 → q < u32 (v + size) → P vm → P (vm.vmmUnmapPage q)) (hP : P vm)
    (h : vm.vmmUnmapMemory v size = .ok vm') : P vm' :=
  vmmUnmapLoop_invariant hu hv hP h

theorem vmmMapLoop_invariant {P : Vm σ → Prop} {va stop : ℕ} (hva : va < 4294967296)
    (hm : ∀ vm q f r vm', q < 4294967296 → P vm → vm.vmmMapPage q f k w = .ok (r, vm') → P vm')
    (hu : ∀ vm q, q < 4294967296 → P vm → P (vm.vmmUnmapPage q)) :
    ∀ {fuel : ℕ} {vm vm' : Vm σ} {q f r : ℕ}, q < 4294967296 → P vm →
      vmmMapLoop va stop k w fuel vm q f = .ok (r, vm') → P vm'
  | 0, _, _, _, _, _, _, _, h => by cases h
  | fuel + 1, vm, vm', q, f, r, hq, hP, h => by
    unfold vmmMapLoop at h
    split at h
    · cases hp : vm.vmmMapPage q f k w with
      | error e => rw [hp] at h; cases h
      | ok res =>
        obtain ⟨a, vm₁⟩ := res
        rw [hp] at h
        have hP₁ := hm vm q f a vm₁ hq hP hp
        simp only at h
        split at h
        · -- the pages mapped so far are unmapped again
          cases hl : vmmUnmapLoop q vmmFuel vm₁ va with
          | error e => rw [hl] at h; cases h
          | ok vm₂ =>
            rw [hl] at h
            cases h
            exact vmmUnmapLoop_invariant (fun vm q hq _ => hu vm q hq) hva hP₁ hl
        · exact vmmMapLoop_invariant hva hm hu (u32_lt _) hP₁ h
    · cases h
      exact hP

/-- **The rule for `vmm_map_memory`**: it keeps what mapping one page and unmapping
    one page keep. -/
theorem vmmMapMemory_invariant {P : Vm σ → Prop} (hv : v < 4294967296)
    (hm : ∀ vm q f r vm', q < 4294967296 → P vm → vm.vmmMapPage q f k w = .ok (r, vm') → P vm')
    (hu : ∀ vm q, q < 4294967296 → P vm → P (vm.vmmUnmapPage q)) (hP : P vm)
    (h : vm.vmmMapMemory v size p k w = .ok (r, vm')) : P vm' := by
  unfold vmmMapMemory at h
  cases hp : vm.vmmPlace v size k with
  | error e => rw [hp] at h; cases h
  | ok a =>
    rw [hp] at h
    have ha := (vmmPlace_spec hp).2.2 hv
    have hva : vmmAlignDown a < 4294967296 := by unfold vmmAlignDown; omega
    exact vmmMapLoop_invariant hva hm hu hva hP h

/-! ## Ranges that are mapped -/

/-- The pages `a` to `a + n - 1`, all of them unused before, were mapped in the current
    directory, and no other page changed. -/
structure RangeMapped (ds : List ℕ) (a n : ℕ) (vm vm' : Vm σ) : Prop where
  ok : TablesOk vm' ds
  grown : Grown vm.currentPageDirectory vm vm'
  fits : n = 0 ∨ a + n < 1048576
  unused : ∀ u, a ≤ pageNumber u → pageNumber u < a + n → vm.page vm.currentPageDirectory u = none
  mapped : ∀ u, a ≤ pageNumber u → pageNumber u < a + n → vm'.page vm.currentPageDirectory u ≠ none
  others : ∀ d ∈ ds, ∀ u, ¬ (a ≤ pageNumber u ∧ pageNumber u < a + n ∧
    vm'.tableOf d u = vm'.tableOf vm.currentPageDirectory u) → vm'.page d u = vm.page d u

theorem RangeMapped.nil (h : TablesOk vm ds) (a : ℕ) : RangeMapped ds a 0 vm vm :=
  ⟨h, Grown.refl _ vm, Or.inl rfl, fun u h1 h2 => by omega, fun u h1 h2 => by omega,
    fun _ _ _ _ => rfl⟩

theorem pageNumber_page {a : ℕ} (h : a < 1048576) : pageNumber (4096 * a) = a := by
  rw [pageNumber, u32_of_lt (by omega), Nat.mul_div_cancel_left a (by decide)]

/-- One more page in front. -/
theorem RangeMapped.cons {a n : ℕ} (hc : vm.currentPageDirectory ∈ ds)
    (hn : vm.page vm.currentPageDirectory (4096 * a) = none)
    (h1 : PageMapped ds (4096 * a) k w vm vm₁) (h2 : RangeMapped ds (a + 1) n vm₁ vm₂)
    (hfit : a + (n + 1) < 1048576) : RangeMapped ds a (n + 1) vm vm₂ := by
  have hcur : vm₁.currentPageDirectory = vm.currentPageDirectory := h1.linked.statics.current
  have hpa : pageNumber (4096 * a) = a := pageNumber_page (by omega)
  obtain ⟨e, f, hpg⟩ := h1.page
  have hg2 : Grown vm.currentPageDirectory vm₁ vm₂ := hcur ▸ h2.grown
  have hunused := h2.unused
  have hmapped := h2.mapped
  have hothers := h2.others
  rw [hcur] at hunused hmapped hothers
  -- the page that was mapped first, and the others
  have hfirst : ∀ u, pageNumber u = a → vm₁.page vm.currentPageDirectory u ≠ none := by
    intro u hu
    rw [hpg _ hc, if_pos ⟨rfl, hu.trans hpa.symm⟩]
    exact Option.some_ne_none _
  have hrest : ∀ u, pageNumber u ≠ a → ∀ d ∈ ds, vm₁.page d u = vm.page d u := by
    intro u hu d hd
    rw [hpg d hd, if_neg]
    rintro ⟨-, h⟩
    exact hu (h.trans hpa)
  refine ⟨h2.ok, h1.linked.grown.trans hg2, Or.inr hfit, fun u hl hr => ?_, fun u hl hr => ?_, ?_⟩
  · by_cases hu : pageNumber u = a
    · rw [page_congr (hu.trans hpa.symm), hn]
    · rw [← hrest u hu _ hc]
      exact hunused u (by omega) (by omega)
  · by_cases hu : pageNumber u = a
    · rw [hothers _ hc u (by omega)]
      exact hfirst u hu
    · exact hmapped u (by omega) (by omega)
  · intro d hd u hout
    by_cases hu : pageNumber u = a
    · rw [hothers d hd u (by omega), hpg d hd, if_neg]
      rintro ⟨ht, hpu⟩
      -- tables of the page do not change any more
      refine hout ⟨by omega, by omega, ?_⟩
      have hs := (pageNumber_eq_iff.1 hpu).1
      rw [tableOf_congr hs, tableOf_congr hs, hg2.tableOf_eq h1.linked.table, ← ht]
      exact hg2.tableOf_eq (fun h0 => h1.linked.table (ht.symm.trans h0))
    · rw [← hrest u hu d hd]
      exact hothers d hd u (fun hin => hout ⟨by omega, by omega, hin.2.2⟩)

theorem vmmMapPage_side (h : vm.vmmMapPage v p k w = .ok (r, vm')) (hr : r ≠ 0) (hv : v ≠ 0) :
    r = v ∧ (k = true ↔ vmmKernelSpaceBase ≤ v) := by
  rcases vmmMapPage_inv h with ⟨h0, -⟩ | ⟨-, he⟩
  · exact absurd h0 hr
  · have hrv := (vmmPlace_spec he.place).2.1 hv
    exact ⟨hrv, hrv ▸ he.side⟩

/-- The loop's result is its start, or `NULL`. -/
theorem vmmMapLoop_result {va stop : ℕ} : ∀ {fuel : ℕ} {vm vm' : Vm σ} {q f r : ℕ},
    vmmMapLoop va stop k w fuel vm q f = .ok (r, vm') → r = 0 ∨ r = va
  | 0, _, _, _, _, _, h => by cases h
  | fuel + 1, vm, vm', q, f, r, h => by
    unfold vmmMapLoop at h
    split at h
    · cases hp : vm.vmmMapPage q f k w with
      | error e => rw [hp] at h; cases h
      | ok res =>
        rw [hp] at h
        simp only at h
        split at h
        · cases hl : vmmUnmapLoop q vmmFuel res.2 va with
          | error e => rw [hl] at h; cases h
          | ok vm₂ =>
            rw [hl] at h
            cases h
            exact Or.inl rfl
        · exact vmmMapLoop_result h
    · cases h
      exact Or.inr rfl

/-- One round of the loop, when the call succeeds. -/
theorem vmmMapLoop_step {va stop fuel : ℕ} (hr : r ≠ 0) (hlt : q < stop)
    (h : vmmMapLoop va stop k w (fuel + 1) vm q f = .ok (r, vm')) :
    ∃ b vm₁ f', vm.vmmMapPage q f k w = .ok (b, vm₁) ∧ b ≠ 0 ∧
      vmmMapLoop va stop k w fuel vm₁ (u32 (q + 4096)) f' = .ok (r, vm') := by
  unfold vmmMapLoop at h
  rw [if_pos hlt] at h
  cases hp : vm.vmmMapPage q f k w with
  | error e => rw [hp] at h; cases h
  | ok res =>
    obtain ⟨b, vm₁⟩ := res
    rw [hp] at h
    simp only at h
    split at h
    · cases hl : vmmUnmapLoop q vmmFuel vm₁ va with
      | error e => rw [hl] at h; cases h
      | ok vm₂ =>
        rw [hl] at h
        cases h
        exact absurd rfl hr
    · rename_i hb
      exact ⟨b, vm₁, _, rfl, hb, h⟩

/-- A loop that wrapped around fails on page 1: it is no kernel page. -/
theorem vmmMapLoop_wrapped {va stop : ℕ} (hs : 4096 < stop) {fuel : ℕ}
    (h : vmmMapLoop va stop true w fuel vm 0 f = .ok (r, vm')) : r = 0 := by
  by_contra hr
  match fuel, h with
  | 0, h => cases h
  | 1, h =>
    obtain ⟨b, vm₁, f', -, -, h⟩ := vmmMapLoop_step hr (by omega) h
    cases h
  | fuel + 2, h =>
    obtain ⟨b, vm₁, f', -, -, h⟩ := vmmMapLoop_step hr (by omega) h
    obtain ⟨b', vm₂, f'', hp, hb, -⟩ := vmmMapLoop_step hr (by rw [u32_of_lt] <;> omega) h
    have hk := (vmmMapPage_side hp hb (by rw [u32_of_lt] <;> omega)).2.1 rfl
    rw [u32_of_lt (by omega)] at hk
    exact absurd hk (by decide)

theorem vmmMapLoop_success {va stop : ℕ} (hstop : stop < 4294967296) (hr : r ≠ 0) :
    ∀ {fuel : ℕ} {vm vm' : Vm σ} {a f : ℕ}, TablesOk vm ds → vm.currentPageDirectory ∈ ds →
      a ≠ 0 → a < 1048576 → vmmMapLoop va stop k w fuel vm (4096 * a) f = .ok (r, vm') →
      ∃ n, stop ≤ 4096 * (a + n) ∧ (n = 0 ∨ 4096 * (a + n) < stop + 4096) ∧ RangeMapped ds a n vm vm'
  | 0, _, _, _, _, _, _, _, _, h => by cases h
  | fuel + 1, vm, vm', a, f, hok, hc, ha, hlt, h => by
    by_cases hq : 4096 * a < stop
    · obtain ⟨b, vm₁, f', hp, hb, h⟩ := vmmMapLoop_step hr hq h
      have hne : 4096 * a ≠ 0 := by omega
      rcases vmmMapPage_cases hok hc hp with ⟨h0, -⟩ | ⟨-, -, hv, hm⟩
      · exact absurd h0 hb
      obtain ⟨rfl, hn⟩ := hv hne
      have hcur : vm₁.currentPageDirectory = vm.currentPageDirectory := hm.linked.statics.current
      by_cases hw : a + 1 = 1048576
      · -- the next page address is 0
        have hz : u32 (4096 * a + 4096) = 0 := by unfold u32; omega
        have hk : k = true := hm.side.2 (by simp only [vmmKernelSpaceBase]; omega)
        rw [hz, hk] at h
        exact absurd (vmmMapLoop_wrapped (by omega) h) hr
      · have hz : u32 (4096 * a + 4096) = 4096 * (a + 1) := by unfold u32; omega
        rw [hz] at h
        obtain ⟨n, h1, h2, h3⟩ :=
          vmmMapLoop_success hstop hr hm.ok (hcur ▸ hc) (by omega) (by omega) h
        refine ⟨n + 1, by omega, by omega, RangeMapped.cons hc hn hm h3 ?_⟩
        rcases h3.fits with rfl | h4 <;> omega
    · unfold vmmMapLoop at h
      rw [if_neg hq] at h
      cases h
      exact ⟨0, by omega, Or.inl rfl, RangeMapped.nil hok a⟩

/-- **A successful `vmm_map_memory`** maps the pages from that of `v` on, as many as
    `size` needs from a page boundary on. -/
theorem vmmMapMemory_success (h : TablesOk vm ds) (hc : vm.currentPageDirectory ∈ ds) (hv : v ≠ 0)
    (hvs : vmmAlignDown v + size < 4294967296) (hm : vm.vmmMapMemory v size p k w = .ok (r, vm'))
    (hr : r ≠ 0) :
    r = vmmAlignDown v ∧ RangeMapped ds (v / 4096) ((size + 4095) / 4096) vm vm' := by
  unfold vmmMapMemory at hm
  rw [vmmPlace, if_pos hv] at hm
  simp only at hm
  have hva : r = vmmAlignDown v := (vmmMapLoop_result hm).resolve_left hr
  have hva' : vmmAlignDown v = 4096 * (v / 4096) := by unfold vmmAlignDown; omega
  rw [hva'] at hvs
  have hsz : u32 (vmmAlignDown v + size) = 4096 * (v / 4096) + size := by
    rw [hva', u32_of_lt (by omega)]
  rw [hsz, hva'] at hm
  obtain ⟨n, h1, h2, h3⟩ := vmmMapLoop_success (by omega) hr h hc (by omega) (by omega) hm
  have hn : n = (size + 4095) / 4096 := by omega
  exact ⟨hva, hn ▸ h3⟩

/-! ## Ranges that are unmapped -/

/-- The pages `a` to `a + n - 1` were taken out of the directories that have the current
    directory's tables; nothing but page tables changed. -/
structure RangeUnmapped (ds : List ℕ) (a n : ℕ) (vm vm' : Vm σ) : Prop where
  tables : ∃ tables, vm' = { vm with tables := tables }
  ok : TablesOk vm' ds
  page : ∀ d ∈ ds, ∀ u, vm'.page d u = if a ≤ pageNumber u ∧ pageNumber u < a + n ∧
    vm.tableOf d u = vm.tableOf vm.currentPageDirectory u then none else vm.page d u

/-- One page. -/
theorem vmmUnmapPage_spec (h : TablesOk vm ds) (hc : vm.currentPageDirectory ∈ ds) (v : ℕ) :
    RangeUnmapped ds (pageNumber v) 1 vm (vm.vmmUnmapPage v) := by
  obtain ⟨ts, h1, h2, h3⟩ := pagingUnmapPage_spec h hc v
  refine ⟨⟨ts, h1⟩, h2, fun d hd u => ?_⟩
  rw [vmmUnmapPage, h3 d hd u]
  refine if_congr ?_ rfl rfl
  constructor
  · rintro ⟨ht, hu⟩
    have hs := (pageNumber_eq_iff.1 hu).1
    exact ⟨by omega, by omega, by rw [tableOf_congr hs, tableOf_congr hs, ht]⟩
  · rintro ⟨h1, h2, ht⟩
    have hu : pageNumber u = pageNumber v := by omega
    have hs := (pageNumber_eq_iff.1 hu).1
    exact ⟨by rw [← tableOf_congr hs, ← tableOf_congr hs, ht], hu⟩

theorem RangeUnmapped.cons {a n : ℕ} (h1 : RangeUnmapped ds a 1 vm vm₁)
    (h2 : RangeUnmapped ds (a + 1) n vm₁ vm₂) : RangeUnmapped ds a (n + 1) vm vm₂ := by
  obtain ⟨ts, rfl⟩ := h1.tables
  obtain ⟨ts', rfl⟩ := h2.tables
  refine ⟨⟨ts', rfl⟩, h2.ok, fun d hd u => ?_⟩
  rw [h2.page d hd u, h1.page d hd u]
  show (if a + 1 ≤ pageNumber u ∧ pageNumber u < a + 1 + n ∧
      vm.tableOf d u = vm.tableOf vm.currentPageDirectory u then none else _) = _
  by_cases ht : vm.tableOf d u = vm.tableOf vm.currentPageDirectory u
  · by_cases hu : pageNumber u = a
    · rw [if_neg (fun hc => by omega), if_pos ⟨by omega, by omega, ht⟩,
        if_pos ⟨by omega, by omega, ht⟩]
    · rw [if_neg (fun hc : a ≤ pageNumber u ∧ pageNumber u < a + 1 ∧ _ => by omega)]
      refine if_congr ?_ rfl rfl
      constructor
      · rintro ⟨h3, h4, -⟩
        exact ⟨by omega, by omega, ht⟩
      · rintro ⟨h3, h4, -⟩
        exact ⟨by omega, by omega, ht⟩
  · rw [if_neg (fun hc => ht hc.2.2), if_neg (fun hc => ht hc.2.2), if_neg (fun hc => ht hc.2.2)]

/-- The loop ends and unmaps `n` pages, when the `n`-th page address from `q` on is the
    first that is not below `stop` and no address wraps. -/
theorem vmmUnmapLoop_range (stop : ℕ) : ∀ (n fuel : ℕ) {vm : Vm σ} (q : ℕ), TablesOk vm ds →
    vm.currentPageDirectory ∈ ds → n < fuel → q + 4096 * n < 4294967296 → stop ≤ q + 4096 * n →
    (n = 0 ∨ q + 4096 * n < stop + 4096) →
    ∃ vm', vmmUnmapLoop stop fuel vm q = .ok vm' ∧ RangeUnmapped ds (q / 4096) n vm vm'
  | 0, fuel + 1, vm, q, h, hc, _, _, hs, _ => by
    refine ⟨vm, ?_, ⟨vm.tables, rfl⟩, h, fun d hd u => ?_⟩
    · rw [vmmUnmapLoop, if_neg (by omega)]
    · rw [if_neg (by omega)]
  | n + 1, fuel + 1, vm, q, h, hc, hf, hw, hs, hs' => by
    have h1 := vmmUnmapPage_spec h hc q
    have hpn : pageNumber q = q / 4096 := by rw [pageNumber, u32_of_lt (by omega)]
    have hc₁ : (vm.vmmUnmapPage q).currentPageDirectory ∈ ds := by
      obtain ⟨ts, hts⟩ := h1.tables
      rw [hts]
      exact hc
    obtain ⟨vm', h2, h3⟩ := vmmUnmapLoop_range stop n fuel (q + 4096) h1.ok hc₁ (by omega)
      (by omega) (by omega) (by omega)
    have hq : q + 4096 ≤ q + 4096 * (n + 1) := by omega
    have hu : u32 (q + 4096) = q + 4096 := u32_of_lt (hq.trans_lt hw)
    refine ⟨vm', ?_, ?_⟩
    · rw [vmmUnmapLoop, if_pos (by omega), hu]
      exact h2
    · rw [hpn] at h1
      rw [show (q + 4096) / 4096 = q / 4096 + 1 by omega] at h3
      exact h1.cons h3

/-- Unmapping a range that was mapped gives the pages back. -/
theorem RangeMapped.undone (h : TablesOk vm ds) (hm : RangeMapped ds a n vm vm₁)
    (hu : RangeUnmapped ds a n vm₁ vm₂) : ∀ d ∈ ds, ∀ u, vm₂.page d u = vm.page d u := by
  have hcur : vm₁.currentPageDirectory = vm.currentPageDirectory := hm.grown.statics.current
  intro d hd u
  rw [hu.page d hd u, hcur]
  split
  · -- a page that was mapped was not there before, in any directory that has its table now
    rename_i hin
    exact (hm.grown.shared h hd hin.2.2 (hm.unused u hin.1 hin.2.1)).symm
  · rename_i hout
    exact hm.others d hd u hout

/-- **Mapping, then unmapping with the same arguments** changes no page of any
    directory, also when the address is not aligned. -/
theorem vmmUnmapMemory_vmmMapMemory (h : TablesOk vm ds) (hc : vm.currentPageDirectory ∈ ds)
    (hv : v ≠ 0) (hvs : v + size < 4294967296)
    (hm : vm.vmmMapMemory v size p k w = .ok (r, vm₁)) (hr : r ≠ 0) :
    ∃ vm₂, vm₁.vmmUnmapMemory v size = .ok vm₂ ∧ TablesOk vm₂ ds ∧ SameStatics vm vm₂ ∧
      ∀ d ∈ ds, ∀ u, vm₂.page d u = vm.page d u := by
  obtain ⟨-, hrg⟩ := vmmMapMemory_success h hc hv
    ((Nat.add_le_add_right (vmmAlignDown_le v) size).trans_lt hvs) hm hr
  have hcur : vm₁.currentPageDirectory = vm.currentPageDirectory := hrg.grown.statics.current
  have hfit := hrg.fits
  have hfuel : (size + 4095) / 4096 < vmmFuel := by
    have : vmmFuel = 1048592 := rfl
    omega
  obtain ⟨vm₂, h2, hun⟩ := vmmUnmapLoop_range (v + size) ((size + 4095) / 4096) vmmFuel v hrg.ok
    (hcur ▸ hc) hfuel (by omega) (by omega) (by omega)
  refine ⟨vm₂, by rw [vmmUnmapMemory, u32_of_lt hvs, h2], hun.ok, ?_, hrg.undone h hun⟩
  obtain ⟨ts, rfl⟩ := hun.tables
  exact ⟨hrg.grown.statics.kernel, hcur, hrg.grown.statics.enabled, hrg.grown.statics.mem⟩

end Vm

end Ttos
