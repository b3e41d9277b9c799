/-
  Cloning the current address space.

  * `HwSees`, `HwBlind`: what the hardware finds at an address.
  * `ClonedRight`: the new directory is a copy of the current one.
  * `vmm_clone_exact`: it is one only if there was no user page to copy, since the new page
    tables are never linked for the hardware, and the entries that are not written keep what
    the memory held.
-/
import Ttos.Memory.CloneSteps
import Ttos.Memory.DestroySpace

namespace Ttos

open Vm AddressSpaces

variable {σ : Type*} [Allocator σ]

/-! ## What the hardware finds -/

section
variable (vm : Vm σ) (dir i v : ℕ)

/-- The hardware's entry of the slot `i` leads to the page table that the directory keeps. -/
def Vm.InStep : Prop :=
  ((vm.dirs dir).entries i).pageTableBase.toNat * 4096
    = vm.vmmGetPhysicalAddress ((vm.dirs dir).tables i)

/-- The hardware finds the page `e` at the address. -/
def Vm.HwSees (e : PageTableEntry) : Prop :=
  ((vm.dirs dir).entries (pageDirectoryIndex v)).present = true ∧
    vm.InStep dir (pageDirectoryIndex v) ∧ vm.page dir v = some e

/-- The hardware finds no page at the address. -/
def Vm.HwBlind : Prop :=
  ((vm.dirs dir).entries (pageDirectoryIndex v)).present = false ∨
    (vm.InStep dir (pageDirectoryIndex v) ∧ vm.page dir v = none)

end

/-- The directory `dst` is a copy of the current one: every user page has a frame of its own
    with the same bytes and rights, no other user page is there, the kernel's page tables are
    shared, and the current directory is as before. -/
structure ClonedRight (s : AddressSpaces σ) (dst : ℕ) (vm' : Vm σ) : Prop where
  pages : ∀ v e, u32 v < vmmKernelSpaceBase → s.vm.page s.vm.currentPageDirectory v = some e →
    ∃ e', vm'.HwSees dst v e' ∧ e'.readWrite = e.readWrite ∧ e'.userSupervisor = e.userSupervisor ∧
      (∀ k < 4096, vm'.mem (e'.frame + k) = s.vm.mem (e.frame + k)) ∧
      (∀ d ∈ s.spaces, ∀ u e₁, vm'.page d u = some e₁ → e₁.pageBase ≠ e'.pageBase) ∧
      ∀ u e₁, pageNumber u ≠ pageNumber v → vm'.page dst u = some e₁ → e₁.pageBase ≠ e'.pageBase
  others : ∀ v, u32 v < vmmKernelSpaceBase → s.vm.page s.vm.currentPageDirectory v = none →
    vm'.HwBlind dst v
  shared : ∀ i < 1024, SharedSlot s.vm s.vm.currentPageDirectory i →
    (vm'.dirs dst).entries i = (s.vm.dirs s.vm.currentPageDirectory).entries i ∧
      (vm'.dirs dst).tables i = (s.vm.dirs s.vm.currentPageDirectory).tables i
  source : ∀ v, vm'.page s.vm.currentPageDirectory v = s.vm.page s.vm.currentPageDirectory v

/-- The current address space has no user page. In user space the entries of the slots that are
    shared with the kernel are in step, and those of the memory that becomes the directory
    `dst` are not present in the slots that are not. -/
structure NothingToClone (vm : Vm σ) (dst : ℕ) : Prop where
  pages : ∀ v, u32 v < vmmKernelSpaceBase → vm.page vm.currentPageDirectory v = none
  shared : ∀ i < 768, SharedSlot vm vm.currentPageDirectory i →
    ((vm.dirs vm.currentPageDirectory).entries i).present = false ∨
      vm.InStep vm.currentPageDirectory i
  fresh : ∀ i < 768, ¬ SharedSlot vm vm.currentPageDirectory i →
    ((vm.dirs dst).entries i).present = false

/-- What the memory held that became the directory `dst` leads by chance to the page table of
    a slot. -/
def LinkedByChance (vm : Vm σ) (dst : ℕ) (vm' : Vm σ) : Prop :=
  ∃ i < 768, ¬ SharedSlot vm vm.currentPageDirectory i ∧
    ((vm.dirs dst).entries i).present = true ∧ vm'.InStep dst i

/-! ## The call -/

section
variable {vm vm' : Vm σ} {spaces : List ℕ} {dst : ℕ}

/-- **The call** returns the new block, unless it panics. -/
theorem SpacesInv.vmmCloneAddressSpace (h : SpacesInv ⟨vm, spaces⟩)
    (hv : AllEntries Vacant spaces vm)
    (hmem : ∀ c, vm.vmmCloneAddressSpace vm.currentPageDirectory ≠ .error (.panic c)) :
    ∃ vm', vm.vmmCloneAddressSpace vm.currentPageDirectory
        = .ok ((Allocator.alloc vm.heap 8192 true).1, vm') ∧
      (Allocator.alloc vm.heap 8192 true).1 ∉ spaces ∧
      Slots spaces (Allocator.alloc vm.heap 8192 true).1
        { vm with heap := (Allocator.alloc vm.heap 8192 true).2 } (List.range 1024) vm' := by
  have hreq : Request 8192 := by decide
  have hfresh := Allocator.alloc_fresh vm.heap 8192 true hreq
  have hkeeps : ∀ p, Allocator.Live vm.heap p →
      Allocator.Live (Allocator.alloc vm.heap 8192 true).2 p :=
    fun p hp => Allocator.alloc_keeps hreq hp
  have hdst : (Allocator.alloc vm.heap 8192 true).1 ∉ spaces := fun hm => hfresh (h.live _ hm)
  unfold Vm.vmmCloneAddressSpace at hmem ⊢
  generalize Allocator.alloc vm.heap 8192 true = res at hmem hkeeps hdst ⊢
  obtain ⟨dst, hp⟩ := res
  dsimp only at hmem hkeeps hdst ⊢
  by_cases h0 : dst = 0
  · rw [if_pos h0] at hmem
    exact absurd rfl (hmem _)
  rw [if_neg h0] at hmem ⊢
  have hk : Kept spaces dst vm { vm with heap := hp } := h.keptHeap hkeeps
  obtain ⟨hok, herr⟩ := cloned_slots hdst hk.inv (hk.vacant hv)
  have hok : ∀ vm', (List.range 1024).foldlM (vmmCloneSlot vm.currentPageDirectory dst)
      ({ vm with heap := hp } : Vm σ) = .ok vm' → _ := hok
  have herr : ∀ e, (∀ c, e ≠ .panic c) → (List.range 1024).foldlM (vmmCloneSlot vm.currentPageDirectory dst)
      ({ vm with heap := hp } : Vm σ) ≠ .error e := herr
  generalize (List.range 1024).foldlM (vmmCloneSlot vm.currentPageDirectory dst)
    ({ vm with heap := hp } : Vm σ) = out at hmem hok herr ⊢
  cases out with
  | ok vm' => exact ⟨vm', rfl, hdst, hok vm' rfl⟩
  | error e => exact absurd rfl (herr e fun c hc => hmem c (by rw [hc]; rfl))

/-- Physical addresses are as before. -/
theorem Kept.physical (hk : Kept spaces dst vm vm') (h : SpacesInv ⟨vm, spaces⟩) (a : ℕ) :
    vm'.vmmGetPhysicalAddress a = vm.vmmGetPhysicalAddress a := by
  rw [vmmGetPhysicalAddress, vmmGetPhysicalAddress, translate_eq hk.inv.enabled,
    translate_eq h.enabled, hk.current, hk.page _ h.current]

omit [Allocator σ] in
/-- A page is found by its page table. -/
theorem page_of_table {d d' v : ℕ} (h : (vm.dirs d').tables (pageDirectoryIndex v) =
    (vm.dirs d).tables (pageDirectoryIndex v)) : vm.page d' v = vm.page d v := by
  rw [page, page, entryAt, entryAt, h]

end

omit [Allocator σ] in
theorem userSlot_index {v : ℕ} (h : u32 v < vmmKernelSpaceBase) : pageDirectoryIndex v < 768 := by
  have h : u32 v < 3221225472 := h
  rw [pageDirectoryIndex]
  omega

theorem userSlot_address {i : ℕ} (h : i < 768) :
    u32 (i * 4194304) < vmmKernelSpaceBase ∧ pageDirectoryIndex (i * 4194304) = i := by
  show u32 (i * 4194304) < 3221225472 ∧ u32 (i * 4194304) / 4194304 = i
  rw [u32_of_lt (by omega)]
  omega

namespace Slots

variable {vm vm' : Vm σ} {spaces : List ℕ} {dst i v : ℕ}

/-- In a slot that is shared the new directory has the pages of the current one. -/
theorem page_shared (h : Slots spaces dst vm (List.range 1024) vm')
    (hs : SharedSlot vm vm.currentPageDirectory (pageDirectoryIndex v)) :
    vm'.page dst v = vm'.page vm.currentPageDirectory v := by
  refine page_of_table ?_
  rw [(h.linked _ (List.mem_range.2 (pageDirectoryIndex_lt v)) hs).2, (h.shared_slot hs).2]

theorem inStep_shared (h : Slots spaces dst vm (List.range 1024) vm')
    (hinv : SpacesInv ⟨vm, spaces⟩) (hi : i < 1024)
    (hs : SharedSlot vm vm.currentPageDirectory i) :
    vm'.InStep dst i ↔ vm.InStep vm.currentPageDirectory i := by
  obtain ⟨he, ht⟩ := h.linked i (List.mem_range.2 hi) hs
  rw [InStep, InStep, he, ht, h.kept.physical hinv]

/-- **Nothing to clone**: the new directory is right. -/
theorem clonedRight (h : Slots spaces dst vm (List.range 1024) vm')
    (hinv : SpacesInv ⟨vm, spaces⟩) (hn : NothingToClone vm dst) :
    ClonedRight ⟨vm, spaces⟩ dst vm' := by
  refine ⟨fun v e hv he => ?_, fun v hv _ => ?_, fun i hi hs => ?_, fun v => ?_⟩
  · have he : vm.page vm.currentPageDirectory v = some e := he
    rw [hn.pages v hv] at he
    cases he
  · have hi := userSlot_index hv
    by_cases hs : SharedSlot vm vm.currentPageDirectory (pageDirectoryIndex v)
    · rcases hn.shared _ hi hs with hp | hstep
      · left
        rw [(h.linked _ (List.mem_range.2 (pageDirectoryIndex_lt v)) hs).1]
        exact hp
      · right
        refine ⟨(h.inStep_shared hinv (pageDirectoryIndex_lt v) hs).2 hstep, ?_⟩
        rw [h.page_shared hs, h.kept.page _ hinv.current]
        exact hn.pages v hv
    · left
      rw [h.others _ fun hc => hs hc.2]
      exact hn.fresh _ hi hs
  · exact h.linked i (List.mem_range.2 hi) hs
  · exact h.kept.page _ hinv.current v

/-- The hardware finds pages in slots that are not shared by chance only. -/
theorem byChance (h : Slots spaces dst vm (List.range 1024) vm') (hi : i < 768)
    (hs : ¬ SharedSlot vm vm.currentPageDirectory i)
    (hp : ((vm'.dirs dst).entries i).present = true) (hstep : vm'.InStep dst i) :
    LinkedByChance vm dst vm' := by
  rw [h.others i fun hc => hs hc.2] at hp
  exact ⟨i, hi, hs, hp, hstep⟩

/-- **A user page** is not copied, but by chance. -/
theorem no_userPage (h : Slots spaces dst vm (List.range 1024) vm')
    (hinv : SpacesInv ⟨vm, spaces⟩) (hr : ClonedRight ⟨vm, spaces⟩ dst vm')
    (hc : ¬ LinkedByChance vm dst vm') (hv : u32 v < vmmKernelSpaceBase) :
    vm.page vm.currentPageDirectory v = none := by
  by_contra hne
  obtain ⟨e, he⟩ := Option.ne_none_iff_exists'.1 hne
  obtain ⟨e', ⟨hp, hstep, hpage⟩, -, -, -, hown, -⟩ := hr.pages v e hv he
  by_cases hs : SharedSlot vm vm.currentPageDirectory (pageDirectoryIndex v)
  · -- the current directory has the frame, too
    rw [h.page_shared hs] at hpage
    exact hown _ hinv.current v e' hpage rfl
  · exact hc (h.byChance (userSlot_index hv) hs hp hstep)

theorem nothingToClone (h : Slots spaces dst vm (List.range 1024) vm')
    (hinv : SpacesInv ⟨vm, spaces⟩) (hr : ClonedRight ⟨vm, spaces⟩ dst vm')
    (hc : ¬ LinkedByChance vm dst vm') : NothingToClone vm dst := by
  have hblind : ∀ i < 768, ((vm'.dirs dst).entries i).present = false ∨ vm'.InStep dst i := by
    intro i hi
    obtain ⟨hv, hidx⟩ := userSlot_address hi
    have hb := hr.others _ hv (h.no_userPage hinv hr hc hv)
    rw [HwBlind, hidx] at hb
    exact hb.imp_right And.left
  refine ⟨fun v hv => h.no_userPage hinv hr hc hv, fun i hi hs => ?_, fun i hi hs => ?_⟩
  · have hlt : i < 1024 := by omega
    have hb := hblind i hi
    rwa [(h.linked i (List.mem_range.2 hlt) hs).1, h.inStep_shared hinv hlt hs] at hb
  · rw [← h.others i fun hc => hs hc.2]
    rcases hblind i hi with hp | hstep
    · exact hp
    · by_contra hp
      exact hc (h.byChance hi hs (Bool.not_eq_false _ ▸ hp) hstep)

end Slots

/-- The call, and when the new directory is a copy. -/
theorem vmmCloneAddressSpace_right {s : AddressSpaces σ}
    (hr : (addressSpaceSystem Starts Clean).Reachable s)
    (hmem : ∀ c, s.vm.vmmCloneAddressSpace s.vm.currentPageDirectory ≠ .error (.panic c)) :
    ∃ dst vm', s.vm.vmmCloneAddressSpace s.vm.currentPageDirectory = .ok (dst, vm') ∧
      dst = (Allocator.alloc s.vm.heap 8192 true).1 ∧
      (NothingToClone s.vm dst → ClonedRight s dst vm') ∧
      (ClonedRight s dst vm' → NothingToClone s.vm dst ∨ LinkedByChance s.vm dst vm') := by
  have h := reachable_spacesInv hr
  have hkeeps : ∀ p, Allocator.Live s.vm.heap p →
      Allocator.Live (Allocator.alloc s.vm.heap 8192 true).2 p :=
    fun p hp => Allocator.alloc_keeps (by decide) hp
  obtain ⟨vm', hc, -, hs⟩ := h.vmmCloneAddressSpace (reachable_entries vacant_rule hr) hmem
  have hk : Kept s.spaces 0 s.vm { s.vm with heap := (Allocator.alloc s.vm.heap 8192 true).2 } :=
    h.keptHeap hkeeps
  have h₀ := hk.inv
  refine ⟨_, vm', hc, rfl, fun hn => ?_, fun hright => ?_⟩
  · obtain ⟨h1, h2, h3, h4⟩ := hs.clonedRight h₀ ⟨hn.pages, hn.shared, hn.fresh⟩
    exact ⟨h1, h2, h3, h4⟩
  · obtain ⟨h1, h2, h3, h4⟩ := hright
    by_cases hch : LinkedByChance s.vm (Allocator.alloc s.vm.heap 8192 true).1 vm'
    · exact Or.inr hch
    · obtain ⟨h5, h6, h7⟩ := hs.nothingToClone h₀ ⟨h1, h2, h3, h4⟩ hch
      exact Or.inl ⟨h5, h6, h7⟩

/-- **Cloning the current address space**, in every reachable state with enough memory: the
    call returns a directory, and it is a copy exactly if there is nothing to clone, unless the
    memory it was made of leads by chance to the new page tables. -/
theorem vmm_clone_exact {s : AddressSpaces σ}
    (hr : (addressSpaceSystem Starts Clean).Reachable s)
    (hmem : ∀ c, s.vm.vmmCloneAddressSpace s.vm.currentPageDirectory ≠ .error (.panic c)) :
    ∃ dst vm', s.vm.vmmCloneAddressSpace s.vm.currentPageDirectory = .ok (dst, vm') ∧
      dst = (Allocator.alloc s.vm.heap 8192 true).1 ∧
      (NothingToClone s.vm dst → ClonedRight s dst vm') ∧
      (ClonedRight s dst vm' → NothingToClone s.vm dst ∨ LinkedByChance s.vm dst vm') :=
  vmmCloneAddressSpace_right hr hmem

/-- A kernel page is mapped, and an address space without user pages is created, switched to and
    cloned. -/
def cloneRun : Except Stop ((Vm KernelHeap × ℕ × Vm KernelHeap) × ℕ × Vm KernelHeap) :=
  (emptyVm.vmmMapMemory 0xC0000000 4096 0x200000 true true).bind fun r =>
    r.2.vmmCreateAddressSpace.bind fun r' =>
      ((r'.2.vmmSwitchAddressSpace r'.1).vmmCloneAddressSpace r'.1).map fun r'' =>
        ((r.2, r'.1, r'.2), r'')

/-- What is checked of this run. -/
def cloneChecks (r : (Vm KernelHeap × ℕ × Vm KernelHeap) × ℕ × Vm KernelHeap) : Bool :=
  bootClean r.1.1 && (List.range 768).all (fun i => (r.1.2.2.dirs r.1.2.1).tables i == 0 &&
    !((r.1.2.2.dirs r.2.1).entries i).present) && (r.2.2.dirs r.2.1).tables 768 != 0

theorem cloneRun_reachable {a dst : ℕ} {vm vm₁ vm' : Vm KernelHeap}
    (h : cloneRun = .ok ((vm, a, vm₁), dst, vm')) (hclean : bootClean vm = true) :
    (addressSpaceSystem Starts Clean).Reachable
        ⟨vm₁.vmmSwitchAddressSpace a, [a, emptyVm.kernelPageDirectory]⟩ ∧
      (vm₁.vmmSwitchAddressSpace a).vmmCloneAddressSpace a = .ok (dst, vm') := by
  obtain ⟨r, hmap, h⟩ := exists_of_bind_ok h
  obtain ⟨r', hcreate, h⟩ := exists_of_bind_ok h
  obtain ⟨r'', hclone, h⟩ := exists_of_map_ok h
  obtain ⟨⟨rfl, rfl, rfl⟩, rfl⟩ : (_ ∧ _ ∧ _) ∧ _ := by simpa only [Prod.mk.injEq] using h
  have s1 : (addressSpaceSystem Starts Clean).step ⟨emptyVm, [emptyVm.kernelPageDirectory]⟩
      (.map 0xC0000000 4096 0x200000 true true) ⟨r.2, [emptyVm.kernelPageDirectory]⟩ :=
    ⟨(fun h => by cases h), ⟨by decide, by decide, by decide⟩, rfl, r.1, hmap⟩
  have s2 : (addressSpaceSystem Starts Clean).step ⟨r.2, [emptyVm.kernelPageDirectory]⟩ .create
      ⟨r'.2, [r'.1, emptyVm.kernelPageDirectory]⟩ :=
    ⟨fun _ => bootClean_iff.1 hclean, r'.1, hcreate, rfl⟩
  have s3 : (addressSpaceSystem Starts Clean).step ⟨r'.2, [r'.1, emptyVm.kernelPageDirectory]⟩
      (.switch r'.1) ⟨r'.2.vmmSwitchAddressSpace r'.1, [r'.1, emptyVm.kernelPageDirectory]⟩ :=
    ⟨(fun h => by cases h), List.mem_cons_self .., rfl⟩
  exact ⟨((emptyVm_reachable.step s1).step s2).step s3, hclone⟩

/-- The clone has the kernel's page table. -/
theorem vmm_clone_exact_kernel : ∃ (s : AddressSpaces KernelHeap) (dst : ℕ) (vm' : Vm KernelHeap),
    s.vm.vmmCloneAddressSpace s.vm.currentPageDirectory = .ok (dst, vm') ∧
      ClonedRight s dst vm' ∧ (vm'.dirs dst).tables 768 ≠ 0 := by
  obtain ⟨⟨⟨vm, a, vm₁⟩, dst, vm'⟩, hrun, hc⟩ := exists_of_check (x := cloneRun) (P := cloneChecks)
    (by decide +kernel)
  simp only [cloneChecks, Bool.and_eq_true, List.all_eq_true, List.mem_range, beq_iff_eq,
    Bool.not_eq_true', bne_iff_ne] at hc
  obtain ⟨⟨hclean, hempty⟩, hkernel⟩ := hc
  obtain ⟨hr, hclone⟩ := cloneRun_reachable hrun hclean
  obtain ⟨dst', vm'', hc, rfl, hright, -⟩ := vmm_clone_exact hr fun c hc => by
    rw [show (vm₁.vmmSwitchAddressSpace a).currentPageDirectory = a from rfl, hclone] at hc
    cases hc
  obtain ⟨rfl, rfl⟩ := Prod.mk.inj (Except.ok.inj (hc.symm.trans hclone))
  refine ⟨_, _, _, hclone, hright ⟨fun v hv => ?_, fun i hi hs => ?_, fun i hi _ => ?_⟩, hkernel⟩
  · exact page_of_tableOf (hempty _ (userSlot_index hv)).1
  · exact absurd (hempty i hi).1 hs.1
  · exact (hempty i hi).2

/-- **A page is not there for the hardware**: the page at 4 MiB is copied, but its page table
    is not linked. -/
theorem vmm_clone_unlinked : ¬ ∀ (s : AddressSpaces KernelHeap) (dst : ℕ) (vm' : Vm KernelHeap),
    (addressSpaceSystem Starts Clean).Reachable s →
      s.vm.vmmCloneAddressSpace s.vm.currentPageDirectory = .ok (dst, vm') →
        ClonedRight s dst vm' := by
  intro hall
  obtain ⟨⟨⟨r, vm⟩, dst, vm'⟩, hx, hc⟩ := exists_of_check
    (x := (twoSpaces.vm.vmmMapMemory 0x400000 4096 0 false true).bind fun r =>
      (r.2.vmmCloneAddressSpace r.2.currentPageDirectory).map fun r' => (r, r'))
    (P := fun res => (res.1.2.page res.1.2.currentPageDirectory 0x400000).isSome &&
      !((res.2.2.dirs res.2.1).entries 1).present) (by decide +kernel)
  simp only [Bool.and_eq_true, Bool.not_eq_true', Option.isSome_iff_exists] at hc
  obtain ⟨⟨e, he⟩, hp⟩ := hc
  obtain ⟨r', h1, hx⟩ := exists_of_bind_ok hx
  obtain ⟨r'', h2, heq⟩ := exists_of_map_ok hx
  obtain ⟨rfl, rfl⟩ := Prod.mk.inj heq
  have hreach : (addressSpaceSystem Starts Clean).Reachable ⟨vm, twoSpaces.spaces⟩ := by
    refine .step (i := .map 0x400000 4096 0 false true) twoSpaces_reachable ⟨?_, ?_, rfl, r, h1⟩
    · intro hc
      cases hc
    · exact ⟨by decide, by decide, by decide⟩
  obtain ⟨e', ⟨hpresent, -⟩, -⟩ := (hall _ dst vm' hreach h2).pages 0x400000 e (by decide) he
  have hindex : pageDirectoryIndex 0x400000 = 1 := by decide
  rw [hindex, hp] at hpresent
  cases hpresent

end Ttos
