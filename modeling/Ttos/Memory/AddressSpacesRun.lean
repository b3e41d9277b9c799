/-
  What holds in every state the address spaces reach.

  * `SpacesInv.step`, `Starts.inv`: the invariant of `AddressSpaces`.
  * `user_kernel_split`: pages in the kernel's half are for the kernel only, pages below
    it are for user programs.
-/
import Ttos.Memory.AddressSpaces
import Ttos.Memory.KernelHeap

namespace Ttos

open Vm AddressSpaces

variable {σ : Type*} [Allocator σ]

/-! ## Start -/

namespace AddressSpaces

variable {vm vm' : Vm σ} {s s' : AddressSpaces σ} {op : VmmOp} {K d : ℕ}

/-- A directory whose pages are all kernel pages. -/
def KernelPages (vm : Vm σ) (d : ℕ) : Prop :=
  ∀ u e, vm.page d u = some e → e.userSupervisor = false ∧ vmmKernelSpaceBase ≤ u32 u

/-- What `vmm_init` has of the kernel's directory `K` while it maps pages. -/
structure InitInv (K : ℕ) (vm : Vm σ) : Prop where
  ok : TablesOk vm [K]
  kernel : vm.kernelPageDirectory = K
  live : Allocator.Live vm.heap K
  apart : ∀ i < 1024, (vm.dirs K).tables i ≠ K
  pages : KernelPages vm K

/-- An empty directory. -/
theorem InitInv.empty (hk : vm.kernelPageDirectory = K) (hl : Allocator.Live vm.heap K)
    (h0 : vm.dirs K = .zero) : InitInv K vm := by
  have hz : ∀ i, (vm.dirs K).tables i = 0 := fun i => by rw [h0]; rfl
  refine ⟨⟨?_, ?_, ?_⟩, hk, hl, fun i _ h => ?_, fun u e h => ?_⟩
  · intro d hd i _ hne
    rw [List.mem_singleton.1 hd] at hne
    exact absurd (hz i) hne
  · intro d hd _ _ i _ _ _ hne
    rw [List.mem_singleton.1 hd] at hne
    exact absurd (hz i) hne
  · intro d hd i _ hne
    rw [List.mem_singleton.1 hd] at hne
    exact absurd (hz i) hne
  · exact Allocator.ne_null hl (h.symm.trans (hz i))
  · rw [page_of_tableOf (hz _)] at h
    cases h

/-- One page of `vmm_init`. -/
theorem InitInv.map {q f : ℕ} (h : InitInv K vm) (hq : vmmKernelSpaceBase ≤ q)
    (hlt : q < 4294967296) (hm : vm.pagingMapPage vm.kernelPageDirectory q f true true = some vm') :
    InitInv K vm' := by
  have hk : vm.kernelPageDirectory ∈ [K] := by rw [h.kernel]; exact List.mem_singleton_self K
  rcases pagingMapPage_spec (v := q) h.ok hk f true true with h1 | ⟨vm₁, e, h1, hok, hl, -, hpg⟩
  · rw [h1] at hm
    cases hm
  obtain rfl : vm₁ = vm' := Option.some.inj (h1.symm.trans hm)
  have hg := hl.grown
  refine ⟨hok, hg.statics.kernel.trans h.kernel, hg.live _ h.live, fun i hi heq => ?_, fun u e' hu => ?_⟩
  · by_cases hs : (vm₁.dirs K).tables i = (vm.dirs K).tables i
    · exact h.apart i hi (hs ▸ heq)
    · have hnl := (hg.tables K i hs).2.2
      rw [heq] at hnl
      exact hnl h.live
  · rw [hpg K (List.mem_singleton_self K)] at hu
    split at hu
    · rename_i hc
      obtain rfl := Option.some.inj hu
      refine ⟨rfl, ?_⟩
      have hn := hc.2
      rw [pageNumber, pageNumber, u32_of_lt hlt] at hn
      simp only [vmmKernelSpaceBase] at hq ⊢
      omega
    · exact h.pages u e' hu

/-- The kernel's address space, alone. -/
theorem InitInv.spacesInv (h : InitInv K vm) (he : vm.pagingEnabled = true)
    (hc : vm.currentPageDirectory = K) : SpacesInv ⟨vm, [K]⟩ := by
  refine ⟨h.ok, he, List.nodup_singleton K, fun d hd => ?_, ?_, ?_, fun d hd i hi _ hm => ?_, ?_⟩
  · rw [List.mem_singleton.1 hd]
    exact h.live
  · exact List.mem_singleton.2 h.kernel
  · exact List.mem_singleton.2 hc
  · rw [List.mem_singleton.1 hd, List.mem_singleton] at hm
    exact h.apart i hi hm
  · intro d hd d' hd' i _ _ _
    exact Or.inl ((List.mem_singleton.1 hd).trans (List.mem_singleton.1 hd').symm)

/-- A loop of `vmm_init` keeps what one page keeps. -/
theorem vmmInitLoop_invariant {P : Vm σ → Prop} {stop : ℕ} (hs : stop ≤ 0xFFFFF000)
    (hm : ∀ vm q f vm', vmmKernelSpaceBase ≤ q → q < 4294967296 → P vm →
      vm.pagingMapPage vm.kernelPageDirectory q f true true = some vm' →
        P { vm' with pmm := vm'.pmm.markFrameReserved f }) :
    ∀ {fuel : ℕ} {vm vm' : Vm σ} {q f : ℕ}, vmmKernelSpaceBase ≤ q → q < 4294967296 → P vm →
      vmmInitLoop stop fuel vm q f = .ok vm' → P vm'
  | 0, _, _, _, _, _, _, _, h => by cases h
  | fuel + 1, vm, vm', q, f, hq, hlt, hP, h => by
    unfold vmmInitLoop at h
    split at h
    · rename_i hqs
      cases hp : vm.pagingMapPage vm.kernelPageDirectory q f true true with
      | none => rw [hp] at h; cases h
      | some vm₁ =>
        rw [hp] at h
        have hu : u32 (q + 4096) = q + 4096 := u32_of_lt (by omega)
        refine vmmInitLoop_invariant hs hm ?_ (u32_lt _) (hm vm q f vm₁ hq hlt hP hp) h
        rw [hu]
        omega
    · cases h
      exact hP

/-- **The rule for `vmm_init`**: from an empty directory on, the kernel's, pages are mapped in
    the kernel's half; then paging is enabled. -/
theorem vmmInit_invariant {P : Vm σ → Prop} {vm₀ : Vm σ} {prepaging kernelVirtualEnd : ℕ}
    (he : kernelVirtualEnd ≤ 0xFFFFF000)
    (h0 : ∀ vm : Vm σ, Allocator.Live vm.heap vm.kernelPageDirectory →
      vm.dirs vm.kernelPageDirectory = .zero → P vm)
    (hm : ∀ vm q f vm', vmmKernelSpaceBase ≤ q → q < 4294967296 → P vm →
      vm.pagingMapPage vm.kernelPageDirectory q f true true = some vm' →
        P { vm' with pmm := vm'.pmm.markFrameReserved f })
    (h : vm₀.vmmInit prepaging kernelVirtualStart kernelVirtualEnd kernelPhysicalStart = .ok vm) :
    ∃ vm₁, P vm₁ ∧ vm = { vm₁.vmmSwitchAddressSpace vm₁.kernelPageDirectory with
      pagingEnabled := true } := by
  have hreq : Request 8192 := by decide
  unfold vmmInit at h
  simp only at h
  split at h
  · cases h
  rename_i hne
  have hnew := Allocator.alloc_new hreq hne
  generalize Allocator.alloc vm₀.heap 8192 true = res at h hne hnew
  generalize hv : Vm.setDir _ res.1 .zero = vm₁ at h
  have hP₁ : P vm₁ := by
    rw [← hv]
    exact h0 _ hnew (Function.update_self ..)
  split at h
  · cases h
  rename_i vm₂ h2
  have hP₂ := vmmInitLoop_invariant (by decide) hm le_rfl (by decide) hP₁ h2
  split at h
  · cases h
  rename_i vm₃ h3
  have hP₃ := vmmInitLoop_invariant he hm (by decide) (by decide) hP₂ h3
  exact ⟨vm₃, hP₃, (Except.ok.inj h).symm⟩

theorem vmmInit_spec {vm₀ : Vm σ} {prepaging kernelVirtualEnd : ℕ} (he : kernelVirtualEnd ≤ 0xFFFFF000)
    (h : vm₀.vmmInit prepaging kernelVirtualStart kernelVirtualEnd kernelPhysicalStart = .ok vm) :
    InitInv vm.kernelPageDirectory vm ∧ vm.pagingEnabled = true ∧
      vm.currentPageDirectory = vm.kernelPageDirectory := by
  have hinv := vmmInit_invariant (P := fun x => InitInv x.kernelPageDirectory x) he ?_ ?_ h
  · obtain ⟨vm₁, hi, rfl⟩ := hinv
    exact ⟨⟨⟨hi.ok.live, hi.ok.slot, hi.ok.agree⟩, rfl, hi.live, hi.apart, hi.pages⟩, rfl, rfl⟩
  · intro x hl hz
    exact .empty rfl hl hz
  · intro x q f x' hq hlt hi hm
    have h1 := hi.map hq hlt hm
    have hk : x'.kernelPageDirectory = x.kernelPageDirectory := h1.kernel
    rw [← hk] at h1
    exact ⟨⟨h1.ok.live, h1.ok.slot, h1.ok.agree⟩, rfl, h1.live, h1.apart, h1.pages⟩

theorem Boots.inv (h : Boots s) : SpacesInv s ∧ s.spaces = [s.vm.kernelPageDirectory] ∧
    s.vm.currentPageDirectory = s.vm.kernelPageDirectory ∧
    KernelPages s.vm s.vm.kernelPageDirectory := by
  cases h with
  | empty he hc hl h0 =>
    have hi := InitInv.empty rfl hl h0
    exact ⟨hi.spacesInv he hc, rfl, hc, hi.pages⟩
  | init hk h =>
    obtain ⟨hi, he, hc⟩ := vmmInit_spec hk h
    exact ⟨hi.spacesInv he hc, rfl, hc, hi.pages⟩

/-- More address spaces with empty directories change nothing. -/
theorem Starts.inv (h : Starts s) : SpacesInv s ∧ KernelPages s.vm s.vm.kernelPageDirectory ∧
    ∀ d ∈ s.spaces, d = s.vm.kernelPageDirectory ∨ s.vm.dirs d = .zero := by
  obtain ⟨s₀, hb, empty, current, hs, hcur, hnd, hempty⟩ := h
  obtain ⟨hi, hsp, -, hpg⟩ := hb.inv
  have hvm : s.vm = { s₀.vm with currentPageDirectory := current } := by rw [hs]
  have hsp' : s.spaces = s₀.vm.kernelPageDirectory :: empty := by rw [hs, hsp]; rfl
  obtain ⟨vm, spaces⟩ := s
  simp only at hvm hsp' hempty hcur hnd
  subst hvm hsp'
  have hdir : ∀ d ∈ s₀.vm.kernelPageDirectory :: empty, d = s₀.vm.kernelPageDirectory ∨
      s₀.vm.dirs d = .zero := by
    intro d hd
    rcases List.mem_cons.1 hd with rfl | hm
    · exact Or.inl rfl
    · exact Or.inr (hempty d hm).2.1
  -- a directory with page tables is the kernel's
  have hker : ∀ d ∈ s₀.vm.kernelPageDirectory :: empty, ∀ i, (s₀.vm.dirs d).tables i ≠ 0 →
      d = s₀.vm.kernelPageDirectory := by
    intro d hd i hne
    refine (hdir d hd).resolve_right fun hz => hne ?_
    rw [hz]; rfl
  refine ⟨⟨⟨?_, ?_, ?_⟩, hi.enabled, hnd, ?_, List.mem_cons_self .., hcur, ?_, ?_⟩, hpg, hdir⟩
  · intro d hd i hlt hne
    obtain rfl := hker d hd i hne
    exact hi.ok.live _ hi.kernel i hlt hne
  · intro d₁ hd₁ d₂ hd₂ i hlt j hlt' hne heq
    obtain rfl := hker d₁ hd₁ i hne
    obtain rfl := hker d₂ hd₂ j (fun h0 => hne (heq.trans h0))
    exact hi.ok.slot _ hi.kernel _ hi.kernel i hlt j hlt' hne heq
  · intro d hd i hlt hne
    obtain rfl := hker d hd i hne
    exact hi.ok.agree _ hi.kernel i hlt hne
  · intro d hd
    rcases List.mem_cons.1 hd with rfl | hm
    · exact hi.live _ hi.kernel
    · exact (hempty d hm).1
  · intro d hd i hlt hne hm
    obtain rfl := hker d hd i hne
    rcases List.mem_cons.1 hm with h1 | h1
    · refine hi.apart _ hi.kernel i hlt hne ?_
      rw [show (s₀.vm.dirs s₀.vm.kernelPageDirectory).tables i = _ from h1]
      exact hi.kernel
    · exact (hempty _ h1).2.2 i hlt rfl
  · intro d₁ hd₁ d₂ hd₂ i _ hne heq
    obtain rfl := hker d₁ hd₁ i hne
    obtain rfl := hker d₂ hd₂ i (fun h0 => hne (heq.trans h0))
    exact Or.inl rfl

end AddressSpaces

/-! ## Steps -/

/-- **Every step keeps the invariant**, when new directories are clean. -/
theorem SpacesInv.step {s s' : AddressSpaces σ} {op : VmmOp} (h : SpacesInv s) (hc : s.Clean op)
    (hs : s.Step op s') : SpacesInv s' := by
  obtain ⟨vm, spaces⟩ := s
  obtain ⟨vm', spaces'⟩ := s'
  cases op with
  | map v size p k w =>
    obtain ⟨⟨hv, -⟩, hsp, r, hm⟩ := hs
    simp only at hsp hm
    subst hsp
    exact vmmMapMemory_invariant (P := fun x => SpacesInv ⟨x, spaces'⟩) hv
      (fun x q f r x' _ hx hp => hx.vmmMapPage hp) (fun x q _ hx => hx.vmmUnmapPage q) h hm
  | unmap v size =>
    obtain ⟨⟨hv, -⟩, hsp, hu⟩ := hs
    simp only at hsp hu
    subst hsp
    exact (h.vmmUnmapMemory hv hu).1
  | create =>
    obtain ⟨d, hcr, hsp⟩ := hs
    simp only at hsp hcr
    subst hsp
    exact (h.vmmCreateAddressSpace (hc rfl) hcr).1
  | switch d =>
    obtain ⟨hd, heq⟩ := hs
    cases heq
    exact h.vmmSwitchAddressSpace hd
  | destroy d =>
    obtain ⟨hd, hk, hsp, hde⟩ := hs
    simp only at hsp hde hd hk
    subst hsp
    exact (h.vmmDestroyAddressSpace hd hk hde).1
  | other =>
    obtain ⟨hsp, he⟩ := hs
    simp only at hsp he
    subst hsp
    exact (h.elsewhere he).1

theorem reachable_spacesInv {s : AddressSpaces σ}
    (hr : (addressSpaceSystem Starts Clean).Reachable s) : SpacesInv s := by
  refine hr.invariant (P := SpacesInv) (fun _ h => (Starts.inv h).1) ?_
  rintro s op s' - h ⟨hc, hs⟩
  exact h.step hc hs

/-! ## The split between user and kernel pages -/

/-- Pages are for the kernel only exactly in the kernel's half. -/
def Split (s : AddressSpaces σ) : Prop :=
  ∀ d ∈ s.spaces, ∀ u e, s.vm.page d u = some e →
    (e.userSupervisor = true ↔ u32 u < vmmKernelSpaceBase)

theorem pageNumber_side {u v : ℕ} (h : pageNumber u = pageNumber v) :
    u32 u < vmmKernelSpaceBase ↔ u32 v < vmmKernelSpaceBase := by
  simp only [pageNumber, vmmKernelSpaceBase] at h ⊢
  omega

namespace Split

variable {vm vm' : Vm σ} {spaces : List ℕ} {d v size p r q : ℕ} {k w : Bool}

omit [Allocator σ] in
/-- Pages that are taken out do no harm. -/
theorem fewer {s s' : AddressSpaces σ} (h : Split s) (hd : ∀ d ∈ s'.spaces, d ∈ s.spaces)
    (hp : ∀ d ∈ s'.spaces, ∀ u, s'.vm.page d u = none ∨ s'.vm.page d u = s.vm.page d u) :
    Split s' := by
  intro d hm u e hu
  rcases hp d hm u with h1 | h1
  · rw [h1] at hu
    cases hu
  · exact h d (hd d hm) u e (h1 ▸ hu)

theorem vmmUnmapPage (h : Split ⟨vm, spaces⟩) (hi : SpacesInv ⟨vm, spaces⟩) (v : ℕ) :
    Split ⟨vm.vmmUnmapPage v, spaces⟩ := by
  refine h.fewer (fun _ hd => hd) fun d hd u => ?_
  show (vm.vmmUnmapPage v).page d u = none ∨ _
  rw [(vmmUnmapPage_spec hi.ok hi.current v).page d hd u]
  split
  · exact Or.inl rfl
  · exact Or.inr rfl

/-- **One page**: the bounds are checked before it is mapped, wherever the address comes
    from. -/
theorem vmmMapPage (h : Split ⟨vm, spaces⟩) (hi : SpacesInv ⟨vm, spaces⟩) (hq : q < 4294967296)
    (hm : vm.vmmMapPage q p k w = .ok (r, vm')) : Split ⟨vm', spaces⟩ := by
  rcases vmmMapPage_cases hi.ok hi.current hm with ⟨-, rfl, -⟩ | ⟨-, hp, -, hpm⟩
  · exact h
  have hr : r < 4294967296 := (vmmPlace_spec hp).2.2 hq
  obtain ⟨e, f, hpg⟩ := hpm.page
  intro d hd u e' hu
  have hpd := hpg d hd u
  have hu' : vm'.page d u = some e' := hu
  rw [hpd] at hu'
  split at hu'
  · rename_i hc
    obtain rfl := Option.some.inj hu'
    rw [pageNumber_side hc.2, u32_of_lt hr, PageTableEntry.map_userSupervisor]
    have hside := hpm.side
    cases k
    · simpa using hside
    · simpa using hside
  · exact h d hd u e' hu'

/-- **Every step keeps the split.** -/
theorem step {s s' : AddressSpaces σ} {op : VmmOp} (h : Split s) (hi : SpacesInv s)
    (hc : s.Clean op) (hs : s.Step op s') : Split s' := by
  obtain ⟨vm, spaces⟩ := s
  obtain ⟨vm', spaces'⟩ := s'
  cases op with
  | map v size p k w =>
    obtain ⟨⟨hv, -⟩, hsp, r, hm⟩ := hs
    simp only at hsp hm
    subst hsp
    refine (vmmMapMemory_invariant (P := fun x => SpacesInv ⟨x, spaces'⟩ ∧ Split ⟨x, spaces'⟩) hv
      ?_ ?_ ⟨hi, h⟩ hm).2
    · rintro x q f r x' hq ⟨hx, hx'⟩ hp
      exact ⟨hx.vmmMapPage hp, hx'.vmmMapPage hx hq hp⟩
    · rintro x q - ⟨hx, hx'⟩
      exact ⟨hx.vmmUnmapPage q, hx'.vmmUnmapPage hx q⟩
  | unmap v size =>
    obtain ⟨⟨hv, -⟩, hsp, hu⟩ := hs
    simp only at hsp hu
    subst hsp
    exact h.fewer (fun _ hd => hd) (hi.vmmUnmapMemory hv hu).2.2
  | create =>
    obtain ⟨d, hcr, hsp⟩ := hs
    simp only at hsp hcr
    subst hsp
    obtain ⟨-, -, -, hold, hnew, htab⟩ := hi.vmmCreateAddressSpace (hc rfl) hcr
    -- the pages of the new directory are the kernel's
    intro d' hd' u e hu
    rcases List.mem_cons.1 hd' with rfl | hd'
    · refine h _ hi.kernel u e ?_
      rw [← hu]
      simp only [page, entryAt, htab, hnew _ (pageDirectoryIndex_lt u)]
    · refine h d' hd' u e ?_
      rw [← hu]
      simp only [page, entryAt, htab, hold d' hd']
  | switch d =>
    obtain ⟨hd, heq⟩ := hs
    cases heq
    exact h
  | destroy d =>
    obtain ⟨hd, hk, hsp, hde⟩ := hs
    simp only at hsp hde hd hk
    subst hsp
    exact h.fewer (fun _ hm => List.mem_of_mem_erase hm) (hi.vmmDestroyAddressSpace hd hk hde).2.2.2.2
  | other =>
    obtain ⟨hsp, he⟩ := hs
    simp only at hsp he
    subst hsp
    exact h.fewer (fun _ hd => hd) fun d hd u => Or.inr ((hi.elsewhere he).2 d hd u)

end Split

theorem AddressSpaces.Starts.split {s : AddressSpaces σ} (h : Starts s) : Split s := by
  obtain ⟨-, hpg, hdir⟩ := h.inv
  intro d hd u e hu
  rcases hdir d hd with rfl | hz
  · obtain ⟨h1, h2⟩ := hpg u e hu
    rw [h1]
    exact ⟨fun hc => Bool.noConfusion hc, fun hc => absurd hc (not_lt.2 h2)⟩
  · rw [page_of_tableOf (by rw [tableOf, hz]; rfl)] at hu
    cases hu

theorem reachable_split {s : AddressSpaces σ}
    (hr : (addressSpaceSystem Starts Clean).Reachable s) : Split s := by
  have hinv : SpacesInv s ∧ Split s := by
    refine hr.invariant (P := fun s => SpacesInv s ∧ Split s)
      (fun _ h => ⟨(Starts.inv h).1, Starts.split h⟩) ?_
    rintro s op s' - ⟨hi, hs⟩ ⟨hc, hst⟩
    exact ⟨hi.step hc hst, hs.step hi hc hst⟩
  exact hinv.2

/-- **User and kernel pages are apart.** In every state the calls reach, with arbitrary
    arguments and from any start, a present page in the kernel's half is for the kernel only
    and a present page below it is for user programs. -/
theorem user_kernel_split {s : AddressSpaces KernelHeap}
    (hr : (addressSpaceSystem Starts Clean).Reachable s) :
    ∀ d ∈ s.spaces, ∀ v < 4294967296, ∀ e, s.vm.entryAt d v = some e → e.present = true →
      (vmmKernelSpaceBase ≤ v → e.userSupervisor = false) ∧
        (v < vmmKernelSpaceBase → e.userSupervisor = true) := by
  intro d hd v hv e he hp
  have hpage : s.vm.page d v = some e := by rw [page, he, Option.filter_some_pos hp]
  have hside := reachable_split hr d hd v e hpage
  rw [u32_of_lt hv] at hside
  refine ⟨fun hk => ?_, fun hu => hside.2 hu⟩
  rw [Bool.eq_false_iff]
  exact fun ht => absurd (hside.1 ht) (not_lt.2 hk)

/-- The machine when `vmm_init` is called: all frames are free, and the bitmap of the frames
    is all that was taken from the placement memory. -/
def bootVm : Vm KernelHeap where
  heap := (KernelHeap.alloc (KernelHeap.boot 0xC0200000 (fun _ => 0) (by decide)) 131072 true).2
  tables := fun _ => .zero
  dirs := fun _ => .zero
  kernelPageDirectory := 0
  currentPageDirectory := 0
  pagingEnabled := false
  cr3 := 0
  pmm := ⟨fun _ => 0, 1048575, 0⟩
  mem := fun _ => 0

/-- `vmm_init` for a kernel image that ends behind the placement memory. -/
def bootInit : Except Stop (Vm KernelHeap) :=
  bootVm.vmmInit 0 kernelVirtualStart 0xC0300000 kernelPhysicalStart

theorem bootInit_ok : ∃ vm, bootInit = .ok vm := by
  obtain ⟨vm, h, -⟩ := exists_of_check (x := bootInit) (P := fun _ => true) (by decide +kernel)
  exact ⟨vm, h⟩

theorem Starts.of_boots {s : AddressSpaces σ} (h : Boots s) : Starts s := by
  obtain ⟨hi, hsp, hc, -⟩ := h.inv
  refine ⟨s, h, [], s.vm.currentPageDirectory, by simp, hi.current, hi.nodup, by simp⟩

/-- After `vmm_init` an address space is created. -/
def bootCreate : Except Stop (Vm KernelHeap × ℕ × Vm KernelHeap) :=
  bootInit.bind fun vm => vm.vmmCreateAddressSpace.map fun r => (vm, r.1, r.2)

/-- The new page directory has no entries where the kernel has none. -/
def bootClean (vm : Vm KernelHeap) : Bool :=
  (List.range 1024).all fun i => (vm.dirs vm.kernelPageDirectory).tables i ≠ 0 ∨
    (vm.dirs (Allocator.alloc vm.heap 8192 true).1).tables i = 0

theorem bootClean_iff {vm : Vm KernelHeap} : bootClean vm = true ↔ CleanDirectory vm := by
  simp only [bootClean, List.all_eq_true, List.mem_range, decide_eq_true_eq, CleanDirectory,
    ← imp_iff_not_or]

/-- Then it is switched to. -/
theorem bootCreate_reachable {start condition} {a : ℕ} {vm vm₁ : Vm KernelHeap}
    (h : bootCreate = .ok (vm, a, vm₁)) (hstart : ∀ s, Boots s → start s)
    (hcreate : condition ⟨vm, [vm.kernelPageDirectory]⟩ .create)
    (hswitch : condition ⟨vm₁, [a, vm.kernelPageDirectory]⟩ (.switch a)) :
    (addressSpaceSystem start condition).Reachable
      ⟨vm₁.vmmSwitchAddressSpace a, [a, vm.kernelPageDirectory]⟩ := by
  obtain ⟨vm', hinit, h⟩ := exists_of_bind_ok h
  obtain ⟨⟨a', vm₁'⟩, hnew, h⟩ := exists_of_map_ok h
  obtain ⟨rfl, rfl, rfl⟩ : _ ∧ _ ∧ _ := by simpa only [Prod.mk.injEq] using h
  have h0 : (addressSpaceSystem start condition).Reachable ⟨vm', [vm'.kernelPageDirectory]⟩ :=
    .init (hstart _ (.init (by decide) hinit))
  have s1 : (addressSpaceSystem start condition).step ⟨vm', [vm'.kernelPageDirectory]⟩ .create
      ⟨vm₁', [a', vm'.kernelPageDirectory]⟩ := ⟨hcreate, a', hnew, rfl⟩
  have s2 : (addressSpaceSystem start condition).step ⟨vm₁', [a', vm'.kernelPageDirectory]⟩
      (.switch a') ⟨vm₁'.vmmSwitchAddressSpace a', [a', vm'.kernelPageDirectory]⟩ :=
    ⟨hswitch, List.mem_cons_self .., rfl⟩
  exact (h0.step s1).step s2

/-- In the new address space a page is mapped for user programs. -/
def userPageRun : Except Stop ((Vm KernelHeap × ℕ × Vm KernelHeap) × Vm KernelHeap) :=
  bootCreate.bind fun r =>
    ((r.2.2.vmmSwitchAddressSpace r.2.1).vmmMapMemory 0x400000 4096 0x800000 false true).map
      fun r' => (r, r'.2)

/-- The page is present, and so is one of the kernel's image. -/
def userPageChecks (r : (Vm KernelHeap × ℕ × Vm KernelHeap) × Vm KernelHeap) : Bool :=
  bootClean r.1.1 && (r.2.entryAt r.1.2.1 0x400000).any PageTableEntry.present &&
    (r.2.entryAt r.1.2.1 0xC0100000).any PageTableEntry.present

theorem userPageRun_reachable {a : ℕ} {vm vm₁ vm₂ : Vm KernelHeap}
    (h : userPageRun = .ok ((vm, a, vm₁), vm₂)) (hclean : bootClean vm = true) :
    (addressSpaceSystem Starts Clean).Reachable ⟨vm₂, [a, vm.kernelPageDirectory]⟩ := by
  obtain ⟨r, hcreate, h⟩ := exists_of_bind_ok h
  obtain ⟨⟨b, vm₂'⟩, hmap, h⟩ := exists_of_map_ok h
  obtain ⟨rfl, rfl⟩ := Prod.mk.inj h
  have hr : (addressSpaceSystem Starts Clean).Reachable
      ⟨vm₁.vmmSwitchAddressSpace a, [a, vm.kernelPageDirectory]⟩ :=
    bootCreate_reachable hcreate (fun _ => Starts.of_boots) (fun _ => bootClean_iff.1 hclean)
      (fun h => by cases h)
  have hstep : (addressSpaceSystem Starts Clean).step
      ⟨vm₁.vmmSwitchAddressSpace a, [a, vm.kernelPageDirectory]⟩
      (.map 0x400000 4096 0x800000 false true) ⟨vm₂', [a, vm.kernelPageDirectory]⟩ :=
    ⟨(fun h => by cases h), ⟨by decide, by decide, by decide⟩, rfl, b, hmap⟩
  exact hr.step hstep

/-- A page of a user program beside the kernel's image. -/
theorem user_kernel_split_page : ∃ s : AddressSpaces KernelHeap, ∃ a ∈ s.spaces,
    (∃ e, s.vm.entryAt a 0x400000 = some e ∧ e.present = true ∧ e.userSupervisor = true) ∧
      ∃ e, s.vm.entryAt a 0xC0100000 = some e ∧ e.present = true ∧ e.userSupervisor = false := by
  obtain ⟨⟨⟨vm, a, vm₁⟩, vm₂⟩, hrun, hc⟩ := exists_of_check (x := userPageRun) (P := userPageChecks)
    (by decide +kernel)
  simp only [userPageChecks, Bool.and_eq_true, Option.any_eq_true] at hc
  obtain ⟨⟨hclean, e, he, hpresent⟩, e', he', hpresent'⟩ := hc
  have hsplit := user_kernel_split (userPageRun_reachable hrun hclean) a (List.mem_cons_self ..)
  exact ⟨⟨vm₂, [a, vm.kernelPageDirectory]⟩, a, List.mem_cons_self ..,
    ⟨e, he, hpresent, (hsplit 0x400000 (by decide) e he hpresent).2 (by decide)⟩,
    ⟨e', he', hpresent', (hsplit 0xC0100000 (by decide) e' he' hpresent').1 (by decide)⟩⟩

end Ttos
