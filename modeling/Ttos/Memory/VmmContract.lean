/-
  What the callers of paging.c and `vmm_map_memory` are told.

  * `paging_refines_map`: page tables are a map from pages to frames, and unmapping what
    was just mapped restores it.
  * `vmm_map_covers`: when the pages mapped are all the pages of the requested range.
-/
import Ttos.Arch.PageMap
import Ttos.Memory.VmmSearch

namespace Ttos

open Vm AddressSpaces

variable {vm vm' : Vm KernelHeap} {d v size p f r : ℕ} {k w : Bool} {ops : List PagingOp}

/-- What the paging functions say of an address in the directory `d`. -/
def Vm.answers (vm : Vm KernelHeap) (d v : ℕ) : Bool × ℕ :=
  (vm.pagingIsPageUsed d v, vm.pagingVirtualToPhysicalAddress d v)

/-- **Page tables refine a map.** From an empty directory on, the last call on a page
    decides whether it is used and what its addresses translate to, a call changes no
    answer about another page, and unmapping what `vmm_map_memory` mapped restores all
    answers. -/
theorem paging_refines_map (he : vm.pagingEnabled = true) (h0 : vm.dirs d = .zero)
    (ha : ∀ op ∈ ops, op.Aligned) (hr : PagingOp.run d vm ops = some vm') :
    (∀ v, (vm'.pagingIsPageUsed d v = true ↔
        ∃ u f k w, PagingOp.lastOn ops (pageNumber v) = some (.map u f k w)) ∧
      vm'.pagingVirtualToPhysicalAddress d v =
        match PagingOp.lastOn ops (pageNumber v) with
        | some (.map _ f _ _) => f + pageOffset v
        | _ => 0) ∧
    (∀ (op : PagingOp) (vm'' : Vm KernelHeap), op.Aligned → op.exec d vm' = some vm'' →
      ∀ v, pageNumber v ≠ op.page → vm''.answers d v = vm'.answers d v) ∧
    (vm'.currentPageDirectory = d → ∀ v size p k w r vm₁, v ≠ 0 → v + size < 4294967296 →
      vm'.vmmMapMemory v size p k w = .ok (r, vm₁) → r ≠ 0 →
      ∃ vm₂, vm₁.vmmUnmapMemory v size = .ok vm₂ ∧ ∀ u, vm₂.answers d u = vm'.answers d u) := by
  have href := Refines.run he h0 ha hr
  refine ⟨fun v => ⟨?_, ?_⟩, fun op vm'' hop hex v hne => ?_, ?_⟩
  · rw [href.used, PageMap.after]
    rcases hl : PagingOp.lastOn ops (pageNumber v) with _ | op
    · simp
    · cases op <;> simp [PagingOp.frame]
  · rw [href.translate, PageMap.after]
    rcases hl : PagingOp.lastOn ops (pageNumber v) with _ | op
    · rfl
    · cases op <;> rfl
  · have hstep := href.step hop hex
    rw [answers, answers, hstep.used, hstep.translate, href.used, href.translate,
      Function.update_of_ne hne]
  · intro hcur v size p k w r vm₁ hv hvs hm hr0
    have hd : vm'.currentPageDirectory ∈ [d] := by rw [hcur]; exact List.mem_singleton_self d
    obtain ⟨vm₂, hu, hok, hst, hpg⟩ := vmmUnmapMemory_vmmMapMemory href.ok hd hv hvs hm hr0
    have hback : Refines d vm₂ (PageMap.after ops) :=
      ⟨hok, hst.enabled.trans href.enabled, fun u => by
        rw [hpg d (List.mem_singleton_self d), href.page]⟩
    refine ⟨vm₂, hu, fun u => ?_⟩
    rw [answers, answers, hback.used, hback.translate, href.used, href.translate]

/-- The same over the runs of all address spaces, for every one of them. -/
theorem vmm_unmap_restores {s : AddressSpaces KernelHeap}
    (hr : (addressSpaceSystem Starts Clean).Reachable s) (hv : v ≠ 0) (hvs : v + size < 4294967296)
    (hm : s.vm.vmmMapMemory v size p k w = .ok (r, vm)) (hr0 : r ≠ 0) :
    ∃ vm₂, vm.vmmUnmapMemory v size = .ok vm₂ ∧
      ∀ d ∈ s.spaces, ∀ u, vm₂.answers d u = s.vm.answers d u := by
  have hi := reachable_spacesInv hr
  obtain ⟨vm₂, hu, hok, hst, hpg⟩ := vmmUnmapMemory_vmmMapMemory hi.ok hi.current hv hvs hm hr0
  refine ⟨vm₂, hu, fun d hd u => ?_⟩
  rw [answers, answers, isPageUsed_eq hok hd, isPageUsed_eq hi.ok hd,
    translate_eq (hst.enabled.trans hi.enabled), translate_eq hi.enabled, hpg d hd u]

/-- An address space whose directory is empty. -/
def emptyDirectoryVm : Vm KernelHeap :=
  { bootVm with heap := (bootVm.heap.alloc 8192 true).2, pagingEnabled := true,
                kernelPageDirectory := (bootVm.heap.alloc 8192 true).1,
                currentPageDirectory := (bootVm.heap.alloc 8192 true).1 }

theorem paging_refines_map_run : ∃ vm', PagingOp.run emptyDirectoryVm.currentPageDirectory
      emptyDirectoryVm [.map 0x5123 0x200000 false true, .map 0x6000 0x300000 false true,
        .unmap 0x5fff] = some vm' ∧
    vm'.pagingVirtualToPhysicalAddress emptyDirectoryVm.currentPageDirectory 0x6abc = 0x300abc ∧
    vm'.pagingVirtualToPhysicalAddress emptyDirectoryVm.currentPageDirectory 0x5123 = 0 := by
  obtain ⟨vm', h⟩ := Option.isSome_iff_exists.1 (show (PagingOp.run
    emptyDirectoryVm.currentPageDirectory emptyDirectoryVm [.map 0x5123 0x200000 false true,
      .map 0x6000 0x300000 false true, .unmap 0x5fff]).isSome = true by decide +kernel)
  have hall := (paging_refines_map rfl rfl (by simp [PagingOp.Aligned]) h).1
  exact ⟨vm', h, (hall 0x6abc).2, (hall 0x5123).2⟩

/-! ## The pages a request covers -/

/-- The range lies in the user's or in the kernel's part of the address space. -/
def InOneSpace (v size : ℕ) : Prop :=
  ∃ isKernel, spaceStart isKernel ≤ v ∧ v + size ≤ spaceStop isKernel

theorem InOneSpace.bounds (h : InOneSpace v size) : v ≠ 0 ∧ v + size ≤ 4294967296 := by
  obtain ⟨isKernel, hstart, hstop⟩ := h
  obtain ⟨-, -, -, hend, hpos, -, -⟩ := spaces isKernel
  omega

/-- **The end wraps to 0** where whole pages up to the end of the address space are requested: the
    call returns their address and has mapped none of them. -/
theorem vmmMapMemory_top (hv : v ≠ 0) (htop : v + size = 4294967296) (haligned : v % 4096 = 0)
    (vm : Vm KernelHeap) : vm.vmmMapMemory v size p k w = .ok (v, vm) := by
  have hva : vmmAlignDown v = v := by
    unfold vmmAlignDown
    omega
  rw [vmmMapMemory, vmmPlace, if_pos hv]
  dsimp only
  rw [hva, htop]
  rfl

/-- **When a successful `vmm_map_memory` maps every page of the range**: where the range does not
    end with the address space, exactly when it ends in the pages that `size` needs from a page
    boundary on, or its last page was in use before; and where it does, exactly when all its pages
    were. -/
theorem vmm_map_covers {s : AddressSpaces KernelHeap}
    (hr : (addressSpaceSystem Starts Clean).Reachable s) (hs : 1 ≤ size) (hin : InOneSpace v size)
    (hm : s.vm.vmmMapMemory v size p k w = .ok (r, vm')) (hr0 : r ≠ 0) :
    (∀ a, v ≤ a → a < v + size → vm'.vmmIsMapped a = true) ↔
      (v + size < 4294967296 ∧
        (v % 4096 + (size - 1) % 4096 < 4096 ∨ s.vm.vmmIsMapped (v + size - 1) = true)) ∨
      (v + size = 4294967296 ∧ ∀ a, v ≤ a → a < v + size → s.vm.vmmIsMapped a = true) := by
  have hi := reachable_spacesInv hr
  obtain ⟨hv, hvs⟩ := hin.bounds
  by_cases htop : v + size = 4294967296 ∧ v % 4096 = 0
  · -- the loop is not entered
    rw [vmmMapMemory_top hv htop.1 htop.2, Except.ok.injEq, Prod.mk.injEq] at hm
    obtain ⟨-, rfl⟩ := hm
    exact ⟨fun hall => Or.inr ⟨htop.1, hall⟩, fun h => h.resolve_left (fun hc => by omega) |>.2⟩
  have halign : vmmAlignDown v + size < 4294967296 := by
    have hle := vmmAlignDown_le v
    unfold vmmAlignDown at hle ⊢
    omega
  obtain ⟨-, hrg⟩ := vmmMapMemory_success hi.ok hi.current hv halign hm hr0
  -- a loop over the last page of the address space wraps around, and fails
  have hlt : v + size < 4294967296 := by
    have hfits := hrg.fits
    omega
  have hcur : vm'.currentPageDirectory = s.vm.currentPageDirectory := hrg.grown.statics.current
  have hpn : ∀ a, a < v + size → pageNumber a = a / 4096 := fun a ha => by
    rw [pageNumber, u32_of_lt (by omega)]
  have hnew : ∀ a, vm'.vmmIsMapped a = (vm'.page s.vm.currentPageDirectory a).isSome := fun a => by
    rw [vmmIsMapped, hcur, isPageUsed_eq hrg.ok hi.current]
  have hold : ∀ a, s.vm.vmmIsMapped a = (s.vm.page s.vm.currentPageDirectory a).isSome := fun a =>
    isPageUsed_eq hi.ok hi.current
  -- the pages of the range that were not mapped are as before
  have hrest : ∀ a, v / 4096 + (size + 4095) / 4096 ≤ pageNumber a →
      vm'.page s.vm.currentPageDirectory a = s.vm.page s.vm.currentPageDirectory a := fun a ha =>
    hrg.others _ hi.current a (by omega)
  constructor
  · intro hall
    have hlast := hall (v + size - 1) (by omega) (by omega)
    refine Or.inl ⟨hlt, ?_⟩
    by_cases hc : pageNumber (v + size - 1) < v / 4096 + (size + 4095) / 4096
    · left
      rw [hpn _ (by omega)] at hc
      omega
    · right
      rw [hold, ← hrest _ (not_lt.1 hc), ← hnew]
      exact hlast
  · intro hor a hva halt
    have hends := (hor.resolve_right fun hc => hlt.ne hc.1).2
    rw [hnew, Option.isSome_iff_ne_none]
    by_cases hc : pageNumber a < v / 4096 + (size + 4095) / 4096
    · exact hrg.mapped a (by rw [hpn a halt]; omega) hc
    · rw [hrest a (not_lt.1 hc)]
      rw [hpn a halt] at hc
      have hsame : pageNumber a = pageNumber (v + size - 1) := by
        rw [hpn a halt, hpn _ (by omega)]
        omega
      rw [page_congr hsame, ← Option.isSome_iff_ne_none, ← hold]
      exact hends.resolve_left (by omega)

/-- A range of user memory, mapped right after `vmm_init` to the frames behind the kernel. -/
def mapAfterInit (v size : ℕ) : Except Stop (Vm KernelHeap × ℕ × Vm KernelHeap) :=
  bootInit.bind fun vm => (vm.vmmMapMemory v size 0x400000 false true).map fun r => (vm, r)

theorem mapAfterInit_reachable {res : Vm KernelHeap × ℕ × Vm KernelHeap}
    (h : mapAfterInit v size = .ok res) :
    (addressSpaceSystem Starts Clean).Reachable ⟨res.1, [res.1.kernelPageDirectory]⟩ ∧
      res.1.vmmMapMemory v size 0x400000 false true = .ok res.2 := by
  unfold mapAfterInit at h
  obtain ⟨vm, h1, h⟩ := exists_of_bind_ok h
  obtain ⟨b, h2, h⟩ := exists_of_map_ok h
  subst h
  exact ⟨.init (Starts.of_boots (.init (by decide) h1)), h2⟩

theorem vmm_map_covers_aligned : ∃ res, mapAfterInit 0x400000 0x1800 = .ok res ∧
    ∀ a, 0x400000 ≤ a → a < 0x401800 → res.2.2.vmmIsMapped a = true := by
  obtain ⟨res, h, hne⟩ := exists_of_check (x := mapAfterInit 0x400000 0x1800)
    (P := fun res => res.2.1 != 0) (by decide +kernel)
  obtain ⟨hr, hm⟩ := mapAfterInit_reachable h
  exact ⟨res, h, (vmm_map_covers hr (by decide) ⟨false, by decide, by decide⟩ hm
    (by simpa using hne)).2 (Or.inl ⟨by decide, Or.inl (by decide)⟩)⟩

/-- **The last page can be missing**: the range from `0x1800` to `0x2800` needs two pages and
    gets one. -/
theorem vmm_map_misses : ∃ (s : AddressSpaces KernelHeap) (r : ℕ) (vm' : Vm KernelHeap),
    (addressSpaceSystem Starts Clean).Reachable s ∧ InOneSpace 0x1800 4096 ∧
    s.vm.vmmMapMemory 0x1800 4096 0x400000 false true = .ok (r, vm') ∧ r ≠ 0 ∧
    ¬ ∀ a, 0x1800 ≤ a → a < 0x1800 + 4096 → vm'.vmmIsMapped a = true := by
  obtain ⟨res, h, hne⟩ := exists_of_check (x := mapAfterInit 0x1800 4096)
    (P := fun res => res.2.1 != 0 && !res.2.2.vmmIsMapped 0x2000) (by decide +kernel)
  obtain ⟨hr, hm⟩ := mapAfterInit_reachable h
  simp only [Bool.and_eq_true, bne_iff_ne, Bool.not_eq_true'] at hne
  refine ⟨_, res.2.1, res.2.2, hr, ⟨false, by decide, by decide⟩, hm, hne.1, fun hall => ?_⟩
  have := hall 0x2000 (by decide) (by decide)
  rw [hne.2] at this
  cases this

end Ttos
