/-
  The entries of page tables along runs.

  * `EntryRule`, `AllEntries`: what new, mapped and unmapped entries have is true of all
    entries of the page tables of the address spaces.
  * `reachable_entries`: in every state the calls reach.
  * `vacant_rule`: an unused entry has no frame.
-/
import Ttos.Memory.AddressSpacesRun

namespace Ttos

open Vm AddressSpaces

variable {σ : Type*} [Allocator σ] {Q : PageTableEntry → Prop} {vm vm' : Vm σ} {ds : List ℕ}
  {d v p r f t i : ℕ} {k w : Bool} {e : PageTableEntry}

/-- What is true of an entry after `memset`, `paging_map_page` and `paging_unmap_page`. -/
structure EntryRule (Q : PageTableEntry → Prop) : Prop where
  zero : Q .zero
  map : ∀ e f k w, Q (PageTableEntry.map e f k w)
  unmap : ∀ e, Q (PageTableEntry.unmap e)

/-- The entries of the page tables of the directories `ds`. -/
def AllEntries (Q : PageTableEntry → Prop) (ds : List ℕ) (vm : Vm σ) : Prop :=
  ∀ d ∈ ds, ∀ i < 1024, (vm.dirs d).tables i ≠ 0 →
    ∀ j < 1024, Q ((vm.tables ((vm.dirs d).tables i)).entries j)

namespace AllEntries

omit [Allocator σ] in
theorem entryAt (h : AllEntries Q ds vm) (hd : d ∈ ds) (he : vm.entryAt d v = some e) : Q e := by
  rw [entryAt_eq] at he
  split at he
  · cases he
  · rename_i h0
    cases he
    exact h d hd _ (pageDirectoryIndex_lt v) h0 _ (pageTableIndex_lt v)

omit [Allocator σ] in
theorem setEntry (h : AllEntries Q ds vm) (he : Q e) : AllEntries Q ds (vm.setEntry t i e) := by
  intro d hd j hj hne n hn
  have hold := h d hd j hj hne n hn
  show Q ((if (vm.dirs d).tables j = t then _ else vm.tables ((vm.dirs d).tables j)).entries n)
  split
  · show Q (if n = i then e else (vm.tables ((vm.dirs d).tables j)).entries n)
    split
    · exact he
    · exact hold
  · exact hold

/-! ## One page -/

theorem newTable (hq : EntryRule Q) (h : AllEntries Q ds vm) (hok : TablesOk vm ds)
    (a : ℕ) : AllEntries Q ds (vm.newTable.2.linkTable d i vm.newTable.1 a) := by
  have hfresh : ¬ Allocator.Live vm.heap vm.newTable.1 :=
    Allocator.alloc_fresh vm.heap 4096 true (by decide)
  intro d' hd' j hj hne n hn
  have htab : ((vm.newTable.2.linkTable d i vm.newTable.1 a).dirs d').tables j =
      if d' = d ∧ j = i then vm.newTable.1 else (vm.dirs d').tables j := linkTable_tables
  rw [htab] at hne ⊢
  show Q ((Function.update vm.tables vm.newTable.1 .zero _).entries n)
  split at hne
  · rename_i hc
    rw [if_pos hc, Function.update_self]
    exact hq.zero
  · rename_i hc
    have hl := hok.live d' hd' j hj hne
    have hold : (vm.dirs d').tables j ≠ vm.newTable.1 := fun heq => hfresh (heq ▸ hl)
    rw [if_neg hc]
    show Q ((Function.update vm.tables vm.newTable.1 .zero ((vm.dirs d').tables j)).entries n)
    rw [Function.update_of_ne hold]
    exact h d' hd' j hj hne n hn

theorem pagingMapPage (hq : EntryRule Q) (h : AllEntries Q ds vm) (hok : TablesOk vm ds)
    (hm : vm.pagingMapPage d v f k w = some vm') : AllEntries Q ds vm' := by
  unfold Vm.pagingMapPage at hm
  obtain ⟨⟨t, vm₁⟩, ht, rfl⟩ := Option.map_eq_some_iff.1 hm
  refine setEntry ?_ (hq.map _ _ _ _)
  unfold pagingTableFor at ht
  by_cases h0 : (vm.dirs d).tables (pageDirectoryIndex v) = 0
  · rw [if_pos h0] at ht
    have ht : (if vm.newTable.1 = 0 then none else some (vm.newTable.1,
        vm.newTable.2.linkTable d (pageDirectoryIndex v) vm.newTable.1
          (vm.newTable.2.pagingVirtualToPhysicalAddress d vm.newTable.1))) = some (t, vm₁) := ht
    split at ht
    · cases ht
    · cases ht
      exact h.newTable hq hok _
  · rw [if_neg h0] at ht
    cases ht
    exact h

end AllEntries

/-- **Mapping a page** changes nothing but frames, or calls `paging_map_page`. -/
theorem vmmMapPage_paging (h : vm.vmmMapPage v p k w = .ok (r, vm')) :
    vm' = vm ∨ ∃ pmm b f, ({ vm with pmm := pmm } : Vm σ).pagingMapPage vm.currentPageDirectory b f
      k w = some vm' := by
  rcases vmmMapPage_inv h with ⟨-, rfl, -⟩ | ⟨-, he⟩
  · exact Or.inl rfl
  · exact Or.inr ⟨_, _, _, he.paging⟩

namespace AllEntries

theorem vmmMapPage (hq : EntryRule Q) (h : AllEntries Q ds vm) (hok : TablesOk vm ds)
    (hm : vm.vmmMapPage v p k w = .ok (r, vm')) : AllEntries Q ds vm' := by
  rcases vmmMapPage_paging hm with rfl | ⟨pmm, b, f, hm⟩
  · exact h
  · have h' : AllEntries Q ds ({ vm with pmm := pmm } : Vm σ) := h
    exact h'.pagingMapPage hq ⟨hok.live, hok.slot, hok.agree⟩ hm

omit [Allocator σ] in
theorem vmmUnmapPage (hq : EntryRule Q) (h : AllEntries Q ds vm) (v : ℕ) :
    AllEntries Q ds (vm.vmmUnmapPage v) := by
  unfold Vm.vmmUnmapPage pagingUnmapPage
  split
  · exact h
  · split
    · exact h
    · exact h.setEntry (hq.unmap _)

omit [Allocator σ] in
theorem vmmUnmapMemory {size : ℕ} (hq : EntryRule Q) (h : AllEntries Q ds vm) (hv : v < 4294967296)
    (hu : vm.vmmUnmapMemory v size = .ok vm') : AllEntries Q ds vm' :=
  vmmUnmapMemory_invariant (P := AllEntries Q ds) hv (fun _ q _ _ hx => hx.vmmUnmapPage hq q) h hu

omit [Allocator σ] in
/-- Directories whose tables are old ones of directories of `ds`. -/
theorem of_old {ds' : List ℕ} (h : AllEntries Q ds vm)
    (hold : ∀ d' ∈ ds', ∃ d ∈ ds, ∀ i < 1024, (vm'.dirs d').tables i ≠ 0 →
      (vm'.dirs d').tables i = (vm.dirs d).tables i ∧
        vm'.tables ((vm.dirs d).tables i) = vm.tables ((vm.dirs d).tables i)) :
    AllEntries Q ds' vm' := by
  intro d' hd' i hi hne j hj
  obtain ⟨d, hd, hsame⟩ := hold d' hd'
  obtain ⟨h1, h2⟩ := hsame i hi hne
  rw [h1, h2]
  exact h d hd i hi (h1 ▸ hne) j hj

end AllEntries

/-! ## Start -/

namespace AllEntries

variable {s s' : AddressSpaces σ} {op : VmmOp}

omit [Allocator σ] in
theorem of_zero (h : ∀ d ∈ ds, vm.dirs d = .zero) : AllEntries Q ds vm := by
  intro d hd i _ hne
  rw [h d hd] at hne
  exact absurd rfl hne

theorem boots (hq : EntryRule Q) (h : Boots s) : AllEntries Q s.spaces s.vm := by
  cases h with
  | empty _ _ _ h0 =>
    refine of_zero fun d hd => ?_
    rw [List.mem_singleton.1 hd]
    exact h0
  | @init vm₀ vm _ _ he h =>
    have hinv := vmmInit_invariant (P := fun x => TablesOk x [x.kernelPageDirectory] ∧
      AllEntries Q [x.kernelPageDirectory] x) he ?_ ?_ h
    · obtain ⟨vm₁, ⟨-, hP⟩, rfl⟩ := hinv
      exact hP
    · intro x hl hz
      refine ⟨(InitInv.empty rfl hl hz).ok, of_zero fun d hd => ?_⟩
      rw [List.mem_singleton.1 hd, hz]
    · rintro x q f x' - - ⟨hok, hall⟩ hm
      rcases pagingMapPage_spec (v := q) hok (List.mem_singleton_self _) f true true with h1 | ⟨x₁, e, h1, hok', hl, -⟩
      · rw [h1] at hm
        cases hm
      obtain rfl : x₁ = x' := Option.some.inj (h1.symm.trans hm)
      have hk : x₁.kernelPageDirectory = x.kernelPageDirectory := hl.statics.kernel
      have hall' := hall.pagingMapPage hq hok hm
      rw [← hk] at hok' hall'
      exact ⟨⟨hok'.live, hok'.slot, hok'.agree⟩, hall'⟩

/-- More address spaces with empty directories have no entries. -/
theorem starts (hq : EntryRule Q) (h : Starts s) : AllEntries Q s.spaces s.vm := by
  obtain ⟨s₀, hb, empty, current, rfl, -, -, hempty⟩ := h
  intro d hd i hi hne
  rcases List.mem_append.1 hd with hd | hd
  · exact boots hq hb d hd i hi hne
  · rw [(hempty d hd).2.1] at hne
    exact absurd rfl hne

/-! ## Steps -/

/-- **Every step keeps the entries.** -/
theorem step (hq : EntryRule Q) (h : AllEntries Q s.spaces s.vm) (hi : SpacesInv s)
    (hc : s.Clean op) (hs : s.Step op s') : AllEntries Q s'.spaces s'.vm := by
  obtain ⟨vm, spaces⟩ := s
  obtain ⟨vm', spaces'⟩ := s'
  cases op with
  | map v size p k w =>
    obtain ⟨⟨hv, -⟩, hsp, r, hm⟩ := hs
    simp only at hsp hm
    subst hsp
    refine (vmmMapMemory_invariant (P := fun x => SpacesInv ⟨x, spaces'⟩ ∧ AllEntries Q spaces' x) hv
      ?_ ?_ ⟨hi, h⟩ hm).2
    · rintro x q f r x' - ⟨hx, hx'⟩ hp
      exact ⟨hx.vmmMapPage hp, hx'.vmmMapPage hq hx.ok hp⟩
    · rintro x q - ⟨hx, hx'⟩
      exact ⟨hx.vmmUnmapPage q, hx'.vmmUnmapPage hq q⟩
  | unmap v size =>
    obtain ⟨⟨hv, -⟩, hsp, hu⟩ := hs
    simp only at hsp hu
    subst hsp
    exact h.vmmUnmapMemory hq hv hu
  | create =>
    obtain ⟨d, hcr, hsp⟩ := hs
    simp only at hsp hcr
    subst hsp
    obtain ⟨-, -, -, hold, hnew, htab⟩ := hi.vmmCreateAddressSpace (hc rfl) hcr
    refine h.of_old fun d' hd' => ?_
    rcases List.mem_cons.1 hd' with rfl | hd'
    · exact ⟨_, hi.kernel, fun i hi' _ => ⟨hnew i hi', by rw [htab]⟩⟩
    · exact ⟨d', hd', fun i hi' _ => ⟨hold d' hd' i, by rw [htab]⟩⟩
  | switch d =>
    obtain ⟨hd, heq⟩ := hs
    cases heq
    exact h
  | destroy d =>
    obtain ⟨hd, hk, hsp, hde⟩ := hs
    simp only at hsp hde hd hk
    subst hsp
    unfold Vm.vmmDestroyAddressSpace at hde
    obtain ⟨vm₁, hu, hf⟩ := exists_of_map_ok hde
    have h1 := h.vmmUnmapMemory hq (by decide) hu
    obtain ⟨hp, h3, -⟩ := SpacesInv.vmmFreeSlot_fold (d := d) (List.range 1024)
      (vm₁.vmmSwitchAddressSpace vm₁.kernelPageDirectory)
    simp only at hf
    rw [h3] at hf
    subst hf
    exact h1.of_old fun d' hd' => ⟨d', List.mem_of_mem_erase hd', fun i _ _ => ⟨rfl, rfl⟩⟩
  | other =>
    obtain ⟨hsp, he⟩ := hs
    simp only at hsp he
    subst hsp
    refine h.of_old fun d hd => ⟨d, hd, fun i hi' hne => ?_⟩
    have hdir : vm'.dirs d = vm.dirs d := (he.dirs d hd).1
    rw [hdir] at hne ⊢
    exact ⟨rfl, (he.tables d hd i hi' hne).1⟩

end AllEntries

/-- **The rule for the entries** of the page tables, in every state the calls reach. -/
theorem reachable_entries (hq : EntryRule Q) {s : AddressSpaces σ}
    (hr : (addressSpaceSystem Starts Clean).Reachable s) : AllEntries Q s.spaces s.vm := by
  have hinv : SpacesInv s ∧ AllEntries Q s.spaces s.vm := by
    refine hr.invariant (P := fun s => SpacesInv s ∧ AllEntries Q s.spaces s.vm)
      (fun _ h => ⟨(Starts.inv h).1, AllEntries.starts hq h⟩) ?_
    rintro s op s' - ⟨hi, hs⟩ ⟨hc, hst⟩
    exact ⟨hi.step hc hst, hs.step hq hi hc hst⟩
  exact hinv.2

/-! ## Unused entries -/

/-- An entry that is not used has no frame. -/
def Vacant (e : PageTableEntry) : Prop := e.used = false → e.pageBase = 0

theorem vacant_rule : EntryRule Vacant where
  zero := fun _ => rfl
  map := by
    intro e f k w h
    rw [PageTableEntry.map_used] at h
    cases h
  unmap := fun _ _ => rfl

end Ttos
