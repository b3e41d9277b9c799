/-
  Destroying an address space that is not the current one.

  * `DestroysAlone`: the current address space keeps its user pages, and of the page tables
    those are freed that belong to the destroyed one alone.
  * `vmm_destroy_exact`: the page tables are freed as they should, but the user pages that go
    are those of the current address space.
-/
import Ttos.Memory.VmmRollback

namespace Ttos

open Vm AddressSpaces

variable {σ : Type*} [Allocator σ]

/-- What destroying the address space `pd` should do. -/
structure DestroysAlone (s : AddressSpaces σ) (pd : ℕ) (vm' : Vm σ) : Prop where
  pages : ∀ u, u32 u < vmmKernelSpaceBase →
    vm'.page s.vm.currentPageDirectory u = s.vm.page s.vm.currentPageDirectory u
  freed : ∀ i < 1024, (s.vm.dirs pd).tables i ≠ 0 →
    (∀ d ∈ s.spaces, d ≠ pd → ∀ j < 1024, (s.vm.dirs d).tables j ≠ (s.vm.dirs pd).tables i) →
      ¬ Allocator.Live vm'.heap ((s.vm.dirs pd).tables i)
  kept : ∀ d ∈ s.spaces, d ≠ pd → ∀ i < 1024, (s.vm.dirs d).tables i ≠ 0 →
    Allocator.Live vm'.heap ((s.vm.dirs d).tables i)

namespace SpacesInv

variable {vm vm' : Vm σ} {spaces : List ℕ} {pd : ℕ}

/-- **The call**: the pages of user space are taken out of the current address space, and the
    page tables of `pd` are freed unless they are the kernel's. -/
theorem vmmDestroyAddressSpace_eq (h : SpacesInv ⟨vm, spaces⟩) (pd : ℕ) :
    ∃ vm', vm.vmmDestroyAddressSpace pd = .ok vm' ∧
      (∀ u, vm'.page vm.currentPageDirectory u = if 1 ≤ pageNumber u ∧ pageNumber u < 786432
        then none else vm.page vm.currentPageDirectory u) ∧
      ∀ q, Allocator.Live vm'.heap q ↔ (Allocator.Live vm.heap q ∧ ∀ i ∈ List.range 1024,
        (vm.dirs pd).tables i ≠ 0 →
          (vm.dirs pd).tables i ≠ (vm.dirs vm.kernelPageDirectory).tables i →
            q ≠ (vm.dirs pd).tables i) ∧ q ≠ pd := by
  have hfuel : 786431 < vmmFuel := by
    show 786431 < 1048592
    decide
  obtain ⟨vm₁, hu, hr⟩ := vmmUnmapLoop_range 3221225472 786431 vmmFuel 4096 h.ok h.current hfuel
    (by decide) (by decide) (by decide)
  have hu : vm.vmmUnmapMemory vmmUserSpaceBase vmmUserSpaceSize = .ok vm₁ := hu
  obtain ⟨ts, rfl⟩ := hr.tables
  obtain ⟨hp, hfold, hlive⟩ := vmmFreeSlot_fold (d := pd) (List.range 1024)
    (({ vm with tables := ts } : Vm σ).vmmSwitchAddressSpace vm.kernelPageDirectory)
  refine ⟨_, by rw [Vm.vmmDestroyAddressSpace, hu]; rfl, fun u => ?_, fun q => ?_⟩
  · refine Eq.trans ?_ ((hr.page _ h.current u).trans ?_)
    · dsimp only
      rw [hfold]
      rfl
    · exact if_congr ⟨fun hc => ⟨hc.1, hc.2.1⟩, fun hc => ⟨hc.1, hc.2, rfl⟩⟩ rfl rfl
  · dsimp only
    rw [hfold]
    exact (Allocator.free_live hp pd q).trans (and_congr_left' (hlive q))

end SpacesInv

/-- Every page table of the directory is in use in another address space, too. -/
def AllShared (s : AddressSpaces σ) (pd : ℕ) : Prop :=
  ∀ i < 1024, (s.vm.dirs pd).tables i ≠ 0 →
    ∃ d ∈ s.spaces, d ≠ pd ∧ ∃ j < 1024, (s.vm.dirs d).tables j = (s.vm.dirs pd).tables i

/-- A page of user space is in use in the current address space. -/
def HasUserPage (vm : Vm σ) : Prop :=
  ∃ v, vmmUserSpaceBase ≤ v ∧ v < vmmKernelSpaceBase ∧
    vm.pagingIsPageUsed vm.currentPageDirectory v = true

omit [Allocator σ] in
theorem userPage_number {u : ℕ} (h : u32 u < vmmKernelSpaceBase) :
    (1 ≤ pageNumber u ∧ pageNumber u < 786432) ↔ vmmUserSpaceBase ≤ u32 u := by
  have h : u32 u < 3221225472 := h
  show (1 ≤ u32 u / 4096 ∧ u32 u / 4096 < 786432) ↔ 4096 ≤ u32 u
  omega

/-- **Destroying an address space** that is not the current one, in every reachable state:
    it affects that address space only, exactly if the current one has no user pages; and the
    page tables of the kernel's directory are never freed. -/
theorem vmm_destroy_exact {s : AddressSpaces σ}
    (hr : (addressSpaceSystem Starts Clean).Reachable s) {pd : ℕ} (hd : pd ∈ s.spaces)
    (hne : pd ≠ s.vm.currentPageDirectory) :
    ∃ vm', s.vm.vmmDestroyAddressSpace pd = .ok vm' ∧ (DestroysAlone s pd vm' ↔
      ¬ HasUserPage s.vm ∧ (pd = s.vm.kernelPageDirectory → AllShared s pd)) := by
  have h := reachable_spacesInv hr
  obtain ⟨vm', hres, hpage, hlive⟩ := h.vmmDestroyAddressSpace_eq pd
  refine ⟨vm', hres, fun ha => ⟨?_, ?_⟩, fun hc => ⟨?_, ?_, ?_⟩⟩
  · rintro ⟨v, hlo, hhi, hu⟩
    have hv : u32 v = v := u32_of_lt (hhi.trans (by decide))
    have hsame := ha.pages v (by rw [hv]; exact hhi)
    rw [hpage, if_pos ((userPage_number (by rw [hv]; exact hhi)).2 (by rw [hv]; exact hlo))] at hsame
    rw [isPageUsed_eq h.ok h.current, ← hsame] at hu
    cases hu
  · rintro rfl i hi hne0
    by_contra hno
    refine ha.freed i hi hne0 (fun d hd hdk j hj heq => hno ⟨d, hd, hdk, j, hj, heq⟩) ?_
    -- the kernel's page tables are not freed
    refine (hlive _).2 ⟨⟨h.ok.live _ hd i hi hne0, fun j hj h1 h2 => absurd rfl h2⟩, fun heq => ?_⟩
    exact h.apart _ hd i hi hne0 (by rw [heq]; exact hd)
  · intro u hu
    rw [hpage]
    split
    · rename_i hin
      by_contra hsome
      refine hc.1 ⟨u32 u, (userPage_number hu).1 hin, hu, ?_⟩
      have hn : pageNumber (u32 u) = pageNumber u := by
        rw [pageNumber, u32_of_lt (u32_lt u), pageNumber]
      rw [isPageUsed_eq h.ok h.current, page_congr hn, Option.isSome_iff_ne_none]
      exact fun h0 => hsome h0.symm
    · rfl
  · intro i hi hne0 halone hl
    by_cases hk : pd = s.vm.kernelPageDirectory
    · obtain ⟨d, hd', hdne, j, hj, heq⟩ := hc.2 hk i hi hne0
      exact halone d hd' hdne j hj heq
    · refine ((hlive _).1 hl).1.2 i (List.mem_range.2 hi) hne0 ?_ rfl
      exact fun heq => halone _ h.kernel (Ne.symm hk) i hi heq.symm
  · intro d hd' hdne i hi hne0
    refine (hlive _).2 ⟨⟨h.ok.live d hd' i hi hne0, fun j hj h1 h2 heq => ?_⟩, fun heq => ?_⟩
    · -- a page table of `pd` that another directory has is the kernel's
      obtain rfl := h.ok.slot d hd' pd hd i hi j (List.mem_range.1 hj) hne0 heq
      rcases h.own pd hd d hd' i hi h1 heq.symm with h3 | h3
      · exact hdne h3.symm
      · exact h2 h3
    · exact h.apart d hd' i hi hne0 (heq ▸ hd)

/-! ## Two address spaces -/

/-- The directories of the kernel and of two address spaces, one after the other. -/
def threeDirs : (ℕ × KernelHeap) × (ℕ × KernelHeap) × (ℕ × KernelHeap) :=
  let k := Allocator.alloc placementHeap 8192 true
  let a := Allocator.alloc k.2 8192 true
  (k, a, Allocator.alloc a.2 8192 true)

/-- Two empty address spaces beside the kernel's, the first of them current. -/
def twoSpaces : AddressSpaces KernelHeap :=
  ⟨{ emptyVm with heap := threeDirs.2.2.2, currentPageDirectory := threeDirs.2.1.1 },
    [threeDirs.1.1, threeDirs.2.1.1, threeDirs.2.2.1]⟩

theorem threeDirs_ok : threeDirs.1.1 ≠ 0 ∧ threeDirs.2.1.1 ≠ 0 ∧ threeDirs.2.2.1 ≠ 0 ∧
    [threeDirs.1.1, threeDirs.2.1.1, threeDirs.2.2.1].Nodup := by
  decide +kernel

theorem twoSpaces_starts : Starts twoSpaces := by
  obtain ⟨h1, h2, h3, hnd⟩ := threeDirs_ok
  have hreq : Request 8192 := by decide
  have l1 : Allocator.Live twoSpaces.vm.heap threeDirs.1.1 :=
    Allocator.alloc_keeps hreq (Allocator.alloc_keeps hreq (Allocator.alloc_new hreq h1))
  have l2 : Allocator.Live twoSpaces.vm.heap threeDirs.2.1.1 :=
    Allocator.alloc_keeps hreq (Allocator.alloc_new hreq h2)
  have l3 : Allocator.Live twoSpaces.vm.heap threeDirs.2.2.1 := Allocator.alloc_new hreq h3
  have hboot : Boots (⟨{ emptyVm with heap := threeDirs.2.2.2 }, [threeDirs.1.1]⟩ :
      AddressSpaces KernelHeap) := .empty rfl rfl l1 rfl
  refine ⟨_, hboot, [threeDirs.2.1.1, threeDirs.2.2.1], threeDirs.2.1.1, rfl, ?_, hnd, ?_⟩
  · exact List.mem_cons_of_mem _ (List.mem_cons_self ..)
  · intro d hd
    rcases List.mem_cons.1 hd with rfl | hd
    · exact ⟨l2, rfl, fun _ _ => h2.symm⟩
    · obtain rfl := List.mem_singleton.1 hd
      exact ⟨l3, rfl, fun _ _ => h3.symm⟩

theorem twoSpaces_reachable : (addressSpaceSystem Starts Clean).Reachable twoSpaces :=
  .init twoSpaces_starts

theorem vmm_destroy_exact_two : ∃ vm', twoSpaces.vm.vmmDestroyAddressSpace threeDirs.2.2.1 = .ok vm' ∧
    DestroysAlone twoSpaces threeDirs.2.2.1 vm' := by
  obtain ⟨-, -, -, hnd⟩ := threeDirs_ok
  have hin : threeDirs.2.2.1 ∈ twoSpaces.spaces := by simp [twoSpaces]
  have hne : threeDirs.2.2.1 ≠ twoSpaces.vm.currentPageDirectory := by
    rintro h
    simp [← show twoSpaces.vm.currentPageDirectory = threeDirs.2.1.1 from rfl, h] at hnd
  obtain ⟨vm', hr, hiff⟩ := vmm_destroy_exact twoSpaces_reachable hin hne
  refine ⟨vm', hr, hiff.2 ⟨?_, fun hk => ?_⟩⟩
  · rintro ⟨v, -, -, hu⟩
    cases hu
  · simp [show threeDirs.2.2.1 = threeDirs.1.1 from hk] at hnd

/-- **The user pages of the current address space go**, whatever address space is
    destroyed. -/
theorem vmm_destroy_unmaps_current : ¬ ∀ (s : AddressSpaces KernelHeap) (pd : ℕ) (vm' : Vm KernelHeap),
    (addressSpaceSystem Starts Clean).Reachable s → pd ∈ s.spaces →
      pd ≠ s.vm.currentPageDirectory → s.vm.vmmDestroyAddressSpace pd = .ok vm' →
        DestroysAlone s pd vm' := by
  intro hall
  obtain ⟨⟨r, vm⟩, hm, hc⟩ := exists_of_check
    (x := twoSpaces.vm.vmmMapMemory 0x400000 4096 0 false true)
    (P := fun res => res.2.pagingIsPageUsed res.2.currentPageDirectory 0x400000 &&
      res.2.currentPageDirectory != threeDirs.2.2.1) (by decide +kernel)
  simp only [Bool.and_eq_true, bne_iff_ne] at hc
  have hreach : (addressSpaceSystem Starts Clean).Reachable ⟨vm, twoSpaces.spaces⟩ := by
    refine .step (i := .map 0x400000 4096 0 false true) twoSpaces_reachable ⟨?_, ?_, rfl, r, hm⟩
    · intro hc
      cases hc
    · exact ⟨by decide, by decide, by decide⟩
  have hin : threeDirs.2.2.1 ∈ twoSpaces.spaces := by simp [twoSpaces]
  have h := reachable_spacesInv hreach
  obtain ⟨vm', hd, hpage, -⟩ := h.vmmDestroyAddressSpace_eq threeDirs.2.2.1
  have hsame := (hall _ _ vm' hreach hin hc.2.symm hd).pages 0x400000 (by decide)
  have hused := hc.1
  rw [isPageUsed_eq h.ok h.current, ← hsame, hpage, if_pos (by decide)] at hused
  cases hused

end Ttos
