/-
  What the paging functions do to the pages of the directories in use.

  * `Vm.page`: the present entry of an address, what the hardware and the paging
    functions see of a page.
  * `TablesOk`: the directories `ds` have proper tables; kept by every operation.
  * `pagingMapPage_spec`, `pagingUnmapPage_spec`: an operation changes one page, in
    the directories that share its table.
-/
import Ttos.Arch.Paging

namespace Ttos

theorem pageDirectoryIndex_lt (v : ℕ) : pageDirectoryIndex v < 1024 := by
  have := u32_lt v
  unfold pageDirectoryIndex; omega

theorem pageTableIndex_lt (v : ℕ) : pageTableIndex v < 1024 := Nat.mod_lt _ (by decide)

/-- A page is a slot of the directory and an index in its table. -/
theorem pageNumber_eq_iff {v w : ℕ} : pageNumber v = pageNumber w ↔
    pageDirectoryIndex v = pageDirectoryIndex w ∧ pageTableIndex v = pageTableIndex w := by
  unfold pageNumber pageDirectoryIndex pageTableIndex
  constructor
  · intro h
    constructor <;> omega
  · rintro ⟨h1, h2⟩
    omega

namespace PageTableEntry

@[simp] theorem zero_present : zero.present = false := rfl

@[simp] theorem zero_used : zero.used = false := by decide

@[simp] theorem map_present (e : PageTableEntry) (f : ℕ) (k w : Bool) :
    (e.map f k w).present = true := rfl

@[simp] theorem map_used (e : PageTableEntry) (f : ℕ) (k w : Bool) : (e.map f k w).used = true := by
  show (BitVec.ofNat 3 (pageFlagUsed ||| pageFlagPresent) &&& 1 != 0) = true
  decide

@[simp] theorem map_userSupervisor (e : PageTableEntry) (f : ℕ) (k w : Bool) :
    (e.map f k w).userSupervisor = !k := rfl

@[simp] theorem unmap_present (e : PageTableEntry) : e.unmap.present = false := rfl

@[simp] theorem unmap_used (e : PageTableEntry) : e.unmap.used = false := by
  have h : ∀ a : BitVec 3, (a &&& ~~~1 &&& 1 != 0) = false := by decide
  exact h e.available

/-- The frame an entry holds. -/
def frame (e : PageTableEntry) : ℕ := e.pageBase.toNat * 4096

theorem map_frame (e : PageTableEntry) {f : ℕ} (k w : Bool) (hf : f < 4294967296)
    (ha : f % 4096 = 0) : (e.map f k w).frame = f := by
  simp only [frame, map, BitVec.toNat_ofNat, pmmAddressToIndex, u32]
  omega

end PageTableEntry

namespace Vm

variable {σ : Type*} {vm vm' : Vm σ} {ds : List ℕ} {d d' v w t : ℕ} {e : PageTableEntry}

/-- The page table of an address, `0` if there is none. -/
def tableOf (vm : Vm σ) (dir virtualAddress : ℕ) : ℕ :=
  (vm.dirs dir).tables (pageDirectoryIndex virtualAddress)

/-- The present page of an address. -/
def page (vm : Vm σ) (dir virtualAddress : ℕ) : Option PageTableEntry :=
  (vm.entryAt dir virtualAddress).filter (·.present)

theorem tableOf_congr (h : pageDirectoryIndex v = pageDirectoryIndex w) :
    vm.tableOf d v = vm.tableOf d w := by rw [tableOf, h, tableOf]

theorem entryAt_eq : vm.entryAt d v = if vm.tableOf d v = 0 then none
    else some ((vm.tables (vm.tableOf d v)).entries (pageTableIndex v)) := rfl

theorem entryAt_congr (h : pageNumber v = pageNumber w) : vm.entryAt d v = vm.entryAt d w := by
  obtain ⟨h1, h2⟩ := pageNumber_eq_iff.1 h
  rw [entryAt_eq, entryAt_eq, tableOf_congr h1, h2]

theorem page_congr (h : pageNumber v = pageNumber w) : vm.page d v = vm.page d w := by
  rw [page, entryAt_congr h, page]

theorem page_of_tableOf (h : vm.tableOf d v = 0) : vm.page d v = none := by
  rw [page, entryAt_eq, if_pos h]; rfl

theorem page_present (h : vm.page d v = some e) : e.present = true :=
  (Option.filter_eq_some_iff.1 h).2

/-- The translation of an address is its present page and its offset. -/
theorem translate_eq (hp : vm.pagingEnabled = true) : vm.pagingVirtualToPhysicalAddress d v =
    match vm.page d v with
    | none => 0
    | some e => u32 (e.frame + pageOffset v) := by
  unfold pagingVirtualToPhysicalAddress page
  cases vm.entryAt d v with
  | none => simp [hp]
  | some e => cases he : e.present <;> simp [hp, he, PageTableEntry.frame, Option.filter]

end Vm

variable {σ : Type*} [Allocator σ]

/-- The directories `ds` have proper page tables: live objects of the heap, at most
    one slot for each, and in every entry the flags for used and present agree. -/
structure TablesOk (vm : Vm σ) (ds : List ℕ) : Prop where
  live : ∀ d ∈ ds, ∀ i < 1024, (vm.dirs d).tables i ≠ 0 →
    Allocator.Live vm.heap ((vm.dirs d).tables i)
  slot : ∀ d ∈ ds, ∀ d' ∈ ds, ∀ i < 1024, ∀ j < 1024, (vm.dirs d).tables i ≠ 0 →
    (vm.dirs d).tables i = (vm.dirs d').tables j → i = j
  agree : ∀ d ∈ ds, ∀ i < 1024, (vm.dirs d).tables i ≠ 0 → ∀ j < 1024,
    ((vm.tables ((vm.dirs d).tables i)).entries j).used
      = ((vm.tables ((vm.dirs d).tables i)).entries j).present

namespace Vm

variable {vm vm' : Vm σ} {ds : List ℕ} {d d' v w t : ℕ} {e : PageTableEntry}

theorem isPageUsed_eq (h : TablesOk vm ds) (hd : d ∈ ds) :
    vm.pagingIsPageUsed d v = (vm.page d v).isSome := by
  unfold pagingIsPageUsed page
  rw [entryAt_eq]
  by_cases h0 : vm.tableOf d v = 0
  · simp [h0]
  · have ha := h.agree d hd _ (pageDirectoryIndex_lt v) h0 _ (pageTableIndex_lt v)
    simp only [if_neg h0, Option.isSome_filter, Option.any_some]
    exact ha

theorem isPageUsed_false (h : TablesOk vm ds) (hd : d ∈ ds) :
    vm.pagingIsPageUsed d v = false ↔ vm.page d v = none := by
  rw [isPageUsed_eq h hd, Option.isSome_eq_false_iff, Option.isNone_iff_eq_none]

/-! ## Writing an entry -/

omit [Allocator σ] in
theorem entryAt_setEntry (ht : t ≠ 0) : (vm.setEntry t (pageTableIndex v) e).entryAt d w
    = if vm.tableOf d w = t ∧ pageTableIndex w = pageTableIndex v then some e
      else vm.entryAt d w := by
  rw [entryAt_eq, entryAt_eq]
  show (if vm.tableOf d w = 0 then none else some (((vm.setEntry t (pageTableIndex v) e).tables
    (vm.tableOf d w)).entries (pageTableIndex w))) = _
  by_cases h0 : vm.tableOf d w = 0
  · rw [if_pos h0, if_pos h0, if_neg]
    rintro ⟨h1, -⟩
    exact ht (h1.symm.trans h0)
  · rw [if_neg h0, if_neg h0]
    by_cases h1 : vm.tableOf d w = t
    · by_cases h2 : pageTableIndex w = pageTableIndex v <;> simp [setEntry, h1, h2]
    · simp [setEntry, h1]

/-- An entry whose flags agree can be written; it becomes the page of every directory
    that has the table. -/
theorem setEntry_spec (h : TablesOk vm ds) (hd : d ∈ ds) (h0 : vm.tableOf d v ≠ 0)
    (he : e.used = e.present) :
    TablesOk (vm.setEntry (vm.tableOf d v) (pageTableIndex v) e) ds ∧
    ∀ d' ∈ ds, ∀ w, (vm.setEntry (vm.tableOf d v) (pageTableIndex v) e).page d' w =
      if vm.tableOf d' v = vm.tableOf d v ∧ pageNumber w = pageNumber v then
        (if e.present then some e else none) else vm.page d' w := by
  refine ⟨⟨h.live, h.slot, fun d₁ hd₁ i hi hne j hj => ?_⟩, fun d' hd' w => ?_⟩
  · show (((vm.setEntry _ _ e).tables ((vm.dirs d₁).tables i)).entries j).used
      = (((vm.setEntry _ _ e).tables ((vm.dirs d₁).tables i)).entries j).present
    have ha := h.agree d₁ hd₁ i hi hne j hj
    unfold setEntry
    simp only
    split
    · simp only
      split
      · exact he
      · exact ha
    · exact ha
  · have hiff : vm.tableOf d' w = vm.tableOf d v ∧ pageTableIndex w = pageTableIndex v ↔
        vm.tableOf d' v = vm.tableOf d v ∧ pageNumber w = pageNumber v := by
      constructor
      · rintro ⟨h1, h2⟩
        have hs : pageDirectoryIndex w = pageDirectoryIndex v :=
          h.slot d' hd' d hd _ (pageDirectoryIndex_lt w) _ (pageDirectoryIndex_lt v)
            (fun hz => h0 (h1.symm.trans hz)) h1
        exact ⟨tableOf_congr hs ▸ h1, pageNumber_eq_iff.2 ⟨hs, h2⟩⟩
      · rintro ⟨h1, h2⟩
        obtain ⟨hs, hi⟩ := pageNumber_eq_iff.1 h2
        exact ⟨(tableOf_congr hs).trans h1, hi⟩
    rw [page, entryAt_setEntry h0]
    by_cases hc : vm.tableOf d' w = vm.tableOf d v ∧ pageTableIndex w = pageTableIndex v
    · rw [if_pos hc, if_pos (hiff.1 hc)]
      cases hp : e.present <;> simp [Option.filter, hp]
    · rw [if_neg hc, if_neg (fun hx => hc (hiff.2 hx)), page]

/-! ## Mapping a page -/

/-- The static variables and the physical memory are as before. -/
structure SameStatics (vm vm' : Vm σ) : Prop where
  kernel : vm'.kernelPageDirectory = vm.kernelPageDirectory
  current : vm'.currentPageDirectory = vm.currentPageDirectory
  enabled : vm'.pagingEnabled = vm.pagingEnabled
  mem : vm'.mem = vm.mem

omit [Allocator σ] in
theorem SameStatics.refl (vm : Vm σ) : SameStatics vm vm := ⟨rfl, rfl, rfl, rfl⟩

omit [Allocator σ] in
theorem SameStatics.trans {vm₁ vm₂ vm₃ : Vm σ} (h : SameStatics vm₁ vm₂) (h' : SameStatics vm₂ vm₃) :
    SameStatics vm₁ vm₃ :=
  ⟨h'.kernel.trans h.kernel, h'.current.trans h.current, h'.enabled.trans h.enabled,
    h'.mem.trans h.mem⟩

/-- At most one slot has changed: the slot of `v` in `d` had no table and got a new one. -/
structure Linked (d v : ℕ) (vm vm' : Vm σ) : Prop where
  statics : SameStatics vm vm'
  live : ∀ p, Allocator.Live vm.heap p → Allocator.Live vm'.heap p
  tables : ∀ d' i, (vm'.dirs d').tables i ≠ (vm.dirs d').tables i →
    d' = d ∧ i = pageDirectoryIndex v ∧ (vm.dirs d').tables i = 0 ∧
      ¬ Allocator.Live vm.heap ((vm'.dirs d').tables i)
  table : vm'.tableOf d v ≠ 0

omit [Allocator σ] in
theorem linkTable_tables {i t a j : ℕ} : ((vm.linkTable d i t a).dirs d').tables j
    = if d' = d ∧ j = i then t else (vm.dirs d').tables j := by
  by_cases h1 : d' = d
  · subst h1
    by_cases h2 : j = i <;> simp [linkTable, setDir, h2]
  · simp [linkTable, setDir, h1]

/-- Entering a new page table into an empty slot changes no page. -/
theorem newTable_spec (h : TablesOk vm ds) (hd : d ∈ ds) (h0 : vm.tableOf d v = 0) (a : ℕ)
    (ht : vm.newTable.1 ≠ 0) :
    let vm' := vm.newTable.2.linkTable d (pageDirectoryIndex v) vm.newTable.1 a
    TablesOk vm' ds ∧ Linked d v vm vm' ∧ vm'.tableOf d v = vm.newTable.1 ∧
      ∀ d' ∈ ds, ∀ w, vm'.page d' w = vm.page d' w := by
  intro vm'
  have hreq : Request 4096 := by decide
  have hfresh : ¬ Allocator.Live vm.heap vm.newTable.1 := Allocator.alloc_fresh vm.heap 4096 true hreq
  have hlive : ∀ p, Allocator.Live vm.heap p → Allocator.Live vm'.heap p := fun p hp =>
    Allocator.alloc_keeps hreq hp
  have hnew : Allocator.Live vm'.heap vm.newTable.1 := Allocator.alloc_new hreq ht
  have htab : ∀ d' i, (vm'.dirs d').tables i = if d' = d ∧ i = pageDirectoryIndex v then
      vm.newTable.1 else (vm.dirs d').tables i := fun d' i => linkTable_tables
  -- a table that was there before is not the new one
  have hold : ∀ d' ∈ ds, ∀ i < 1024, (vm.dirs d').tables i ≠ vm.newTable.1 := by
    intro d' hd' i hi heq
    exact hfresh (heq ▸ h.live d' hd' i hi (heq ▸ ht))
  have hentries : ∀ t, t ≠ vm.newTable.1 → vm'.tables t = vm.tables t := fun t ht =>
    Function.update_of_ne ht _ _
  have hzero : vm'.tables vm.newTable.1 = .zero := Function.update_self _ _ _
  refine ⟨⟨?_, ?_, ?_⟩, ⟨⟨rfl, rfl, rfl, rfl⟩, hlive, ?_, ?_⟩, ?_, ?_⟩
  · intro d' hd' i hi hne
    rw [htab] at hne ⊢
    split at hne
    · rename_i hc
      rw [if_pos hc]
      exact hnew
    · rename_i hc
      rw [if_neg hc]
      exact hlive _ (h.live d' hd' i hi hne)
  · intro d₁ hd₁ d₂ hd₂ i hi j hj hne heq
    rw [htab] at hne heq
    rw [htab] at heq
    split at heq
    · rename_i hc
      split at heq
      · rename_i hc'
        exact hc.2.trans hc'.2.symm
      · exact absurd heq.symm (hold d₂ hd₂ j hj)
    · rename_i hc
      rw [if_neg hc] at hne
      split at heq
      · exact absurd heq (hold d₁ hd₁ i hi)
      · exact h.slot d₁ hd₁ d₂ hd₂ i hi j hj hne heq
  · intro d' hd' i hi hne j hj
    rw [htab] at hne ⊢
    split at hne
    · rename_i hc
      rw [if_pos hc, hzero]
      exact PageTableEntry.zero_used
    · rename_i hc
      rw [if_neg hc, hentries _ (hold d' hd' i hi)]
      exact h.agree d' hd' i hi hne j hj
  · intro d' i hne
    rw [htab] at hne ⊢
    split at hne
    · rename_i hc
      obtain ⟨rfl, rfl⟩ := hc
      exact ⟨rfl, rfl, h0, by rwa [if_pos ⟨rfl, rfl⟩]⟩
    · exact absurd rfl hne
  · rw [tableOf, htab, if_pos ⟨rfl, rfl⟩]
    exact ht
  · rw [tableOf, htab, if_pos ⟨rfl, rfl⟩]
  · intro d' hd' w
    have hw : vm'.tableOf d' w = if d' = d ∧ pageDirectoryIndex w = pageDirectoryIndex v then
        vm.newTable.1 else vm.tableOf d' w := htab d' _
    by_cases hc : d' = d ∧ pageDirectoryIndex w = pageDirectoryIndex v
    · rw [if_pos hc] at hw
      have hnone : vm.tableOf d' w = 0 := by rw [hc.1, tableOf_congr hc.2, h0]
      rw [page_of_tableOf hnone, page, entryAt_eq, hw,
        if_neg ht, hzero]
      rfl
    · rw [if_neg hc] at hw
      rw [page, page, entryAt_eq, entryAt_eq, hw]
      by_cases hz : vm.tableOf d' w = 0
      · rw [hz]; rfl
      · rw [if_neg hz, if_neg hz, hentries (vm.tableOf d' w) (hold d' hd' _ (pageDirectoryIndex_lt w))]

theorem pagingTableFor_spec (h : TablesOk vm ds) (hd : d ∈ ds) :
    vm.pagingTableFor d v = none ∨
    ∃ vm', vm.pagingTableFor d v = some (vm'.tableOf d v, vm') ∧ TablesOk vm' ds ∧
      Linked d v vm vm' ∧ vm'.pmm = vm.pmm ∧ ∀ d' ∈ ds, ∀ w, vm'.page d' w = vm.page d' w := by
  unfold pagingTableFor
  by_cases h0 : (vm.dirs d).tables (pageDirectoryIndex v) = 0
  · rw [if_pos h0]
    by_cases ht : vm.newTable.1 = 0
    · exact Or.inl (if_pos ht)
    · obtain ⟨h1, h2, h3, h4⟩ := newTable_spec h hd h0
        (vm.newTable.2.pagingVirtualToPhysicalAddress d vm.newTable.1) ht
      refine Or.inr ⟨_, ?_, h1, h2, rfl, h4⟩
      rw [h3]
      exact if_neg ht
  · rw [if_neg h0]
    refine Or.inr ⟨vm, rfl, h, ⟨SameStatics.refl vm, fun _ hp => hp, ?_, h0⟩, rfl, fun _ _ _ => rfl⟩
    intro d' i hne
    exact absurd rfl hne

/-- **Mapping a page** panics, or enters it into the directory's table and changes
    no other page. -/
theorem pagingMapPage_spec (h : TablesOk vm ds) (hd : d ∈ ds) (f : ℕ) (k w : Bool) :
    vm.pagingMapPage d v f k w = none ∨
    ∃ vm' e, vm.pagingMapPage d v f k w = some vm' ∧ TablesOk vm' ds ∧ Linked d v vm vm' ∧
      vm'.pmm = vm.pmm ∧ ∀ d' ∈ ds, ∀ u, vm'.page d' u =
        if vm'.tableOf d' v = vm'.tableOf d v ∧ pageNumber u = pageNumber v then
          some (PageTableEntry.map e f k w) else vm.page d' u := by
  unfold pagingMapPage
  rcases pagingTableFor_spec (v := v) h hd with h1 | ⟨vm₁, h1, hok, hl, hp, hpage⟩
  · rw [h1]
    exact Or.inl rfl
  · rw [h1]
    generalize he : (vm₁.tables (vm₁.tableOf d v)).entries (pageTableIndex v) = e
    obtain ⟨hok', hpage'⟩ := setEntry_spec (v := v) (e := e.map f k w) hok hd hl.table (by simp)
    obtain ⟨s1, s2, s3, s4⟩ := hl.statics
    refine Or.inr ⟨vm₁.setEntry (vm₁.tableOf d v) (pageTableIndex v) (e.map f k w), e, ?_, hok',
      ⟨⟨s1, s2, s3, s4⟩, hl.live, hl.tables, hl.table⟩, hp, fun d' hd' u => ?_⟩
    · rw [← he]; rfl
    · rw [← hpage d' hd' u]
      exact hpage' d' hd' u

/-! ## Unmapping a page -/

/-- **Unmapping a page** takes it out of the directories that have its table, and
    changes no other page and no table. -/
theorem pagingUnmapPage_spec (h : TablesOk vm ds) (hd : d ∈ ds) (v : ℕ) :
    ∃ tables, (vm.pagingUnmapPage d v).2 = { vm with tables := tables } ∧
      TablesOk (vm.pagingUnmapPage d v).2 ds ∧ ∀ d' ∈ ds, ∀ u, (vm.pagingUnmapPage d v).2.page d' u =
        if vm.tableOf d' v = vm.tableOf d v ∧ pageNumber u = pageNumber v then none
        else vm.page d' u := by
  -- where nothing is done there is nothing to do
  have hsame : vm.page d v = none → ∀ d' ∈ ds, ∀ u, vm.page d' u =
      if vm.tableOf d' v = vm.tableOf d v ∧ pageNumber u = pageNumber v then none
      else vm.page d' u := by
    intro hn d' hd' u
    split
    · rename_i hc
      rw [page_congr hc.2, page, entryAt_eq, hc.1, ← entryAt_eq, ← page, hn]
    · rfl
  unfold pagingUnmapPage
  cases he : vm.entryAt d v with
  | none => exact ⟨vm.tables, rfl, h, hsame (by rw [page, he]; rfl)⟩
  | some e =>
    have h0 : vm.tableOf d v ≠ 0 := fun h0 => by rw [entryAt_eq, if_pos h0] at he; cases he
    cases hu : e.used with
    | false =>
      refine ⟨vm.tables, by simp [hu], by simpa [hu] using h, ?_⟩
      have hn : vm.page d v = none := by
        rw [← isPageUsed_false h hd, pagingIsPageUsed, he]
        exact hu
      simpa [hu] using hsame hn
    | true =>
      obtain ⟨hok, hpage⟩ := setEntry_spec (v := v) (e := e.unmap) h hd h0 (by simp)
      simp only [hu, Bool.not_true, Bool.false_eq_true, if_false]
      refine ⟨_, rfl, hok, fun d' hd' u => ?_⟩
      rw [← tableOf, hpage d' hd' u, PageTableEntry.unmap_present]
      simp

end Vm

end Ttos
