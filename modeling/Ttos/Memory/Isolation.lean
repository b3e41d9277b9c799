/-
  User programs have their memory for themselves.

  * `isolationSystem`: the runs in which physical addresses are given for device memory only, and
    user pages are mapped in address spaces of programs.
  * `Isolated`: the frame of a user page is the frame of no other page.
  * `user_memory_private`: an address of a user page is the only one with its physical address.
-/
import Ttos.Memory.PageFrames
import Ttos.Memory.DestroySpace

namespace Ttos

open Vm AddressSpaces

variable {σ : Type*} [Allocator σ] {vm vm' : Vm σ} {ds : List ℕ} {device : Set ℕ}
  {v size p r q f : ℕ} {k w : Bool}

/-! ## The frames that a call maps -/

/-- The rule for the loop of `vmm_map_memory` with the frame address that runs along. -/
theorem vmmMapLoop_running {P : Vm σ → Prop} {G : ℕ → ℕ → Prop} {va stop : ℕ} (hva : va < 4294967296)
    (hm : ∀ vm q f r vm', q < 4294967296 → q < stop → G q f → P vm →
      vm.vmmMapPage q f k w = .ok (r, vm') →
        P vm' ∧ (r ≠ 0 → G (u32 (q + 4096)) (if f ≠ 0 then u32 (f + 4096) else 0)))
    (hu : ∀ vm q, q < 4294967296 → P vm → P (vm.vmmUnmapPage q)) :
    ∀ {fuel : ℕ} {vm vm' : Vm σ} {q f r : ℕ}, q < 4294967296 → G q f → P vm →
      vmmMapLoop va stop k w fuel vm q f = .ok (r, vm') → P vm'
  | 0, _, _, _, _, _, _, _, _, h => by cases h
  | fuel + 1, vm, vm', q, f, r, hq, hG, hP, h => by
    unfold vmmMapLoop at h
    split at h
    · rename_i hlt
      cases hp : vm.vmmMapPage q f k w with
      | error e => rw [hp] at h; cases h
      | ok res =>
        obtain ⟨a, vm₁⟩ := res
        rw [hp] at h
        obtain ⟨hP₁, hG₁⟩ := hm vm q f a vm₁ hq hlt hG hP hp
        simp only at h
        split at h
        · cases hl : vmmUnmapLoop q vmmFuel vm₁ va with
          | error e => rw [hl] at h; cases h
          | ok vm₂ =>
            rw [hl] at h
            cases h
            exact vmmUnmapLoop_invariant (fun vm q hq _ => hu vm q hq) hva hP₁ hl
        · rename_i hr
          exact vmmMapLoop_running hva hm hu (u32_lt _) (hG₁ hr) hP₁ h
    · cases h
      exact hP

/-- Where the loop is that maps `size` bytes from the physical address `p` on: within the range, or
once around the address space. -/
def GivenAt (va p size q f : ℕ) : Prop :=
  (va ≤ q ∧ q < va + size + 4096 ∧ q % 4096 = 0 ∧ f = p + (q - va)) ∨ (q = 0 ∧ p ≤ f ∧ f < p + size + 4096) ∨ q = 4096

/-- **The rule for `vmm_map_memory` with a physical address**: the pages get frames of the range. -/
theorem vmmMapMemory_given {P : Vm σ → Prop} (hv : v < 4294967296) (hs : size < 4294967296)
    (hp : p ≠ 0) (hend : p + size + 4096 < 4294967296)
    (hm : ∀ vm q f r vm', q < 4294967296 → p ≤ f → f < p + size + 4096 → P vm →
      vm.vmmMapPage q f true w = .ok (r, vm') → P vm')
    (hu : ∀ vm q, q < 4294967296 → P vm → P (vm.vmmUnmapPage q)) (hP : P vm)
    (h : vm.vmmMapMemory v size p true w = .ok (r, vm')) : P vm' := by
  unfold vmmMapMemory at h
  cases ha : vm.vmmPlace v size true with
  | error e => rw [ha] at h; cases h
  | ok a =>
    rw [ha] at h
    have hlt := (vmmPlace_spec ha).2.2 hv
    have hva : vmmAlignDown a < 4294967296 ∧ vmmAlignDown a % 4096 = 0 := by
      unfold vmmAlignDown
      omega
    refine vmmMapLoop_running (G := GivenAt (vmmAlignDown a) p size) hva.1 ?_ hu hva.1
      (Or.inl ⟨le_rfl, by omega, hva.2, by rw [Nat.sub_self]; rfl⟩) hP h
    intro x q f r x' hq hstop hG hx hpage
    have hround : u32 (vmmAlignDown a + size) ≤ vmmAlignDown a + size := Nat.mod_le _ _
    rcases hG with ⟨hle, hin, halign, rfl⟩ | ⟨rfl, hf, hf'⟩ | rfl
    · refine ⟨hm x q _ r x' hq (by omega) (by omega) hx hpage, fun _ => ?_⟩
      rw [if_pos (by omega), u32_of_lt (by omega : p + (q - vmmAlignDown a) + 4096 < 4294967296)]
      by_cases hwrap : q + 4096 < 4294967296
      · rw [u32_of_lt hwrap]
        exact Or.inl ⟨by omega, by omega, by omega, by omega⟩
      · -- the last page of the address space
        refine Or.inr (Or.inl ⟨?_, by omega, by omega⟩)
        unfold u32
        omega
    · exact ⟨hm x 0 f r x' hq hf hf' hx hpage, fun _ => Or.inr (Or.inr rfl)⟩
    · -- a kernel page is not mapped at the beginning of the address space
      rcases vmmMapPage_inv hpage with ⟨rfl, rfl, -⟩ | ⟨-, he⟩
      · exact ⟨hx, fun h0 => absurd rfl h0⟩
      · have hplace := (vmmPlace_spec he.place).2.1 (by decide)
        have hside : 3221225472 ≤ r := he.side.1 rfl
        omega

/-! ## Isolation -/

/-- The frame of a user page is the frame of no other page, and not a frame of device memory; the
kernel's directory has no page tables for user pages. -/
structure Isolated (device : Set ℕ) (ds : List ℕ) (vm : Vm σ) : Prop extends FramesReserved ds vm where
  kept : ∀ g ∈ device, vm.pmm.testFrame g = true
  high : ∀ i < 768, (vm.dirs vm.kernelPageDirectory).tables i = 0
  alone : ∀ d ∈ ds, ∀ d' ∈ ds, ∀ u u' e e', vm.page d u = some e → vm.page d' u' = some e' →
    u32 u < vmmKernelSpaceBase → e.frameIndex = e'.frameIndex → d = d' ∧ pageNumber u = pageNumber u'
  apart : ∀ d ∈ ds, ∀ u e, vm.page d u = some e → u32 u < vmmKernelSpaceBase → e.frameIndex ∉ device

namespace Isolated

omit [Allocator σ] in
/-- Pages that were there before; pages of other directories may come in the kernel's half. -/
theorem of_old {ds' : List ℕ} (h : Isolated device ds vm) (hk : vm.pmm.Keeps vm'.pmm)
    (hhigh : ∀ i < 768, (vm'.dirs vm'.kernelPageDirectory).tables i = 0)
    (hold : ∀ d' ∈ ds', ∀ u e, vm'.page d' u = some e →
      ∃ d ∈ ds, vm.page d u = some e ∧ (u32 u < vmmKernelSpaceBase → d' = d)) :
    Isolated device ds' vm' := by
  refine ⟨⟨hk.total.trans h.total, fun d' hd' u e he => ?_⟩, fun g hg => hk.frames g (h.kept g hg),
    hhigh, fun d₁ h₁ d₂ h₂ u u' e e' he he' hu hf => ?_, fun d' hd' u e he hu => ?_⟩
  · obtain ⟨d, hd, hpage, -⟩ := hold d' hd' u e he
    exact hk.frames _ (h.frames d hd u e hpage)
  · obtain ⟨d, hd, hpage, hsame⟩ := hold d₁ h₁ u e he
    obtain ⟨d', hd', hpage', hsame'⟩ := hold d₂ h₂ u' e' he'
    obtain ⟨heq, hnum⟩ := h.alone d hd d' hd' u u' e e' hpage hpage' hu hf
    exact ⟨(hsame hu).trans (heq.trans (hsame' ((pageNumber_side hnum).1 hu)).symm), hnum⟩
  · obtain ⟨d, hd, hpage, -⟩ := hold d' hd' u e he
    exact h.apart d hd u e hpage hu

omit [Allocator σ] in
/-- Fewer pages of the same directories. -/
theorem fewer (h : Isolated device ds vm) (hk : vm.pmm.Keeps vm'.pmm)
    (hdirs : ∀ i < 768, (vm'.dirs vm'.kernelPageDirectory).tables i = 0) {ds' : List ℕ}
    (hd : ∀ d ∈ ds', d ∈ ds)
    (hpage : ∀ d ∈ ds', ∀ u, vm'.page d u = none ∨ vm'.page d u = vm.page d u) :
    Isolated device ds' vm' := by
  refine h.of_old hk hdirs fun d hm u e he => ⟨d, hd d hm, ?_, fun _ => rfl⟩
  rcases hpage d hm u with h0 | h0
  · rw [h0] at he
    cases he
  · rwa [← h0]

/-- **A new page**: it gets a frame that is free, or device memory for the kernel. -/
theorem vmmMapPage (h : Isolated device ds vm) (hi : SpacesInv ⟨vm, ds⟩) (hv : v < 4294967296)
    (hgiven : p = 0 ∨ k = true ∧ pmmAddressToIndex p ∈ device)
    (huser : k = false → vm.currentPageDirectory ≠ vm.kernelPageDirectory)
    (hm : vm.vmmMapPage v p k w = .ok (r, vm')) : Isolated device ds vm' := by
  have hi' := hi.vmmMapPage hm
  rcases vmmMapPage_inv hm with ⟨-, rfl, -⟩ | ⟨-, he⟩
  · exact h
  have hr : r < 4294967296 := (vmmPlace_spec he.place).2.2 hv
  obtain ⟨hok, hlink, hpmm, e₀, hpage⟩ := he.mapped hi.ok hi.current
  obtain ⟨hkeep, htest⟩ := vmmFrame_taken h.total he.frame
  rw [← hpmm] at hkeep htest
  generalize hnew : PageTableEntry.map e₀ (vm.vmmFrame p).1 k w = new at hpage
  have hframe : new.frameIndex = pmmAddressToIndex (vm.vmmFrame p).1 := by
    rw [← hnew, PageTableEntry.map_frameIndex]
  have hgot : vm.pmm.testFrame new.frameIndex = false ∨ k = true ∧ new.frameIndex ∈ device := by
    rw [hframe]
    by_cases hp : p = 0
    · subst hp
      have hne := he.frame
      rw [vmmFrame, if_pos rfl] at hne ⊢
      exact Or.inl (Pmm.allocFrame_taken h.total hne).1
    · rw [vmmFrame, if_neg hp]
      exact Or.inr (hgiven.resolve_left hp)
  have hother : ∀ d ∈ ds, ∀ u e, vm.page d u = some e → (u32 u < vmmKernelSpaceBase ∨ k = false) →
      e.frameIndex ≠ new.frameIndex := by
    intro d hd u e hu hlow heq
    rcases hgot with hfree | ⟨hk, hdev⟩
    · rw [← heq, h.frames d hd u e hu] at hfree
      cases hfree
    · refine h.apart d hd u e hu (hlow.resolve_right fun hk' => ?_) (heq ▸ hdev)
      exact Bool.false_ne_true (hk'.symm.trans hk)
  have hside : k = false ↔ u32 r < vmmKernelSpaceBase := by
    rw [u32_of_lt hr, ← Bool.not_eq_true, he.side, not_le]
  have hhigh : ∀ i < 768, (vm'.dirs vm'.kernelPageDirectory).tables i = 0 := by
    intro i hi
    rw [hlink.statics.kernel]
    by_contra hne
    rw [← h.high i hi] at hne
    obtain ⟨hd, hidx, -⟩ := hlink.tables _ i hne
    have hlow : k = false := by
      rw [hside]
      show u32 r < 3221225472
      unfold pageDirectoryIndex at hidx
      omega
    exact huser hlow hd.symm
  -- the new page is in one directory only if it is a user page
  have hown : ∀ d ∈ ds, k = false → vm'.tableOf d r = vm'.tableOf vm.currentPageDirectory r →
      d = vm.currentPageDirectory := by
    intro d hd hk heq
    have hlt := pageDirectoryIndex_lt r
    have hidx : pageDirectoryIndex r < 768 := by
      have hlow : u32 r < 3221225472 := hside.1 hk
      unfold pageDirectoryIndex
      omega
    have hne : vm'.tableOf d r ≠ 0 := heq ▸ hlink.table
    refine (hi'.own d hd _ hi.current _ hlt hne heq).resolve_right fun hkernel => hne ?_
    exact hkernel.trans (hhigh _ hidx)
  refine ⟨⟨hkeep.total.trans h.total, fun d hd u e hu => ?_⟩, fun g hg => hkeep.frames g (h.kept g hg),
    hhigh, fun d hd d' hd' u u' e e' hu hu' hlow hf => ?_, fun d hd u e hu hlow => ?_⟩
  · rw [hpage d hd] at hu
    split at hu
    · obtain rfl := Option.some.inj hu
      rwa [hframe]
    · exact hkeep.frames _ (h.frames d hd u e hu)
  · rw [hpage d hd] at hu
    rw [hpage d' hd'] at hu'
    split at hu
    · rename_i hat
      obtain rfl := Option.some.inj hu
      have hk : k = false := hside.2 ((pageNumber_side hat.2).1 hlow)
      split at hu'
      · rename_i hat'
        exact ⟨(hown d hd hk hat.1).trans (hown d' hd' hk hat'.1).symm, hat.2.trans hat'.2.symm⟩
      · exact absurd hf.symm (hother d' hd' u' e' hu' (Or.inr hk))
    · split at hu'
      · obtain rfl := Option.some.inj hu'
        exact absurd hf (hother d hd u e hu (Or.inl hlow))
      · exact h.alone d hd d' hd' u u' e e' hu hu' hlow hf
  · rw [hpage d hd] at hu
    split at hu
    · rename_i hat
      obtain rfl := Option.some.inj hu
      have hk : k = false := hside.2 ((pageNumber_side hat.2).1 hlow)
      intro hdev
      have hfree := hgot.resolve_right fun hk' => Bool.false_ne_true (hk.symm.trans hk'.1)
      rw [h.kept _ hdev] at hfree
      cases hfree
    · exact h.apart d hd u e hu hlow

/-! ## Start -/

variable {s s' : AddressSpaces σ} {op : VmmOp}

/-- `vmm_init` makes page tables in the kernel's half only. -/
theorem high_boots (h : Boots s) :
    ∀ i < 768, (s.vm.dirs s.vm.kernelPageDirectory).tables i = 0 := by
  cases h with
  | empty _ _ _ h0 =>
    rw [h0]
    exact fun _ _ => rfl
  | @init vm₀ vm _ _ he h =>
    have hinv := vmmInit_invariant (P := fun x => TablesOk x [x.kernelPageDirectory] ∧
      ∀ i < 768, (x.dirs x.kernelPageDirectory).tables i = 0) he ?_ ?_ h
    · obtain ⟨vm₁, ⟨-, hP⟩, rfl⟩ := hinv
      exact hP
    · intro x hl hz
      refine ⟨(InitInv.empty rfl hl hz).ok, fun _ _ => ?_⟩
      rw [hz]
      rfl
    · rintro x q f x' hq hlt ⟨hok, hx⟩ hm
      rcases pagingMapPage_spec (v := q) hok (List.mem_singleton_self _) f true true with
        h1 | ⟨x₁, e, h1, hok', hl, -⟩
      · rw [h1] at hm
        cases hm
      obtain rfl : x₁ = x' := Option.some.inj (h1.symm.trans hm)
      have hk : x₁.kernelPageDirectory = x.kernelPageDirectory := hl.statics.kernel
      refine ⟨⟨hk ▸ hok'.live, hk ▸ hok'.slot, hk ▸ hok'.agree⟩, fun i hi => ?_⟩
      show (x₁.dirs x₁.kernelPageDirectory).tables i = 0
      rw [hk]
      by_contra hne
      rw [← hx i hi] at hne
      have hidx := (hl.tables _ i hne).2.1
      have hq : 3221225472 ≤ q := hq
      unfold pageDirectoryIndex at hidx
      rw [u32_of_lt hlt] at hidx
      omega

theorem starts (h : Starts s) (ht : s.vm.pmm.numMemoryFrames = pmmNumFrames)
    (hdev : ∀ g ∈ device, s.vm.pmm.testFrame g = true) : Isolated device s.spaces s.vm := by
  obtain ⟨-, hpages, hdirs⟩ := Starts.inv h
  have huser : ∀ d ∈ s.spaces, ∀ u e, s.vm.page d u = some e → ¬ u32 u < vmmKernelSpaceBase := by
    intro d hd u e hu
    rcases hdirs d hd with rfl | hz
    · exact not_lt.2 (hpages u e hu).2
    · have h0 : s.vm.tableOf d u = 0 := by
        rw [tableOf, hz]
        rfl
      rw [page_of_tableOf h0] at hu
      cases hu
  refine ⟨FramesReserved.starts h ht, hdev, ?_, fun d hd _ _ u _ e _ hu _ hlow =>
    absurd hlow (huser d hd u e hu), fun d hd u e hu hlow => absurd hlow (huser d hd u e hu)⟩
  obtain ⟨s₀, hb, empty, current, rfl, -⟩ := h
  exact high_boots (s := s₀) hb

end Isolated

/-! ## Runs -/

/-- Physical addresses are given for kernel pages on device memory; user pages are not mapped in
the kernel's address space. -/
def Isolates (device : Set ℕ) (s : AddressSpaces σ) : VmmOp → Prop
  | .map _ size p k _ => (k = false → s.vm.currentPageDirectory ≠ s.vm.kernelPageDirectory) ∧
    (p ≠ 0 → k = true ∧ p + size + 4096 < 4294967296 ∧
      ∀ f, p ≤ f → f < p + size + 4096 → pmmAddressToIndex f ∈ device)
  | _ => True

/-- The runs in which the rest of the kernel frees no frame, and the frames of device memory are in
use from the start on. -/
def isolationSystem (device : Set ℕ) : TransitionSystem (AddressSpaces σ) VmmOp where
  init s := Starts s ∧ s.vm.pmm.numMemoryFrames = pmmNumFrames ∧
    ∀ g ∈ device, s.vm.pmm.testFrame g = true
  step s op s' := s.Clean op ∧ s.Step op s' ∧ (op = .other → s.vm.pmm.Keeps s'.vm.pmm) ∧
    Isolates device s op

namespace Isolated

variable {s s' : AddressSpaces σ} {op : VmmOp}

/-- What mapping and unmapping pages keep. -/
structure Mapping (device : Set ℕ) (vm : Vm σ) (spaces : List ℕ) (x : Vm σ) : Prop where
  inv : SpacesInv ⟨x, spaces⟩
  isolated : Isolated device spaces x
  current : x.currentPageDirectory = vm.currentPageDirectory
  kernel : x.kernelPageDirectory = vm.kernelPageDirectory

theorem Mapping.map {spaces : List ℕ} {x x' : Vm σ} (h : Mapping device vm spaces x)
    (hq : q < 4294967296) (hgiven : f = 0 ∨ k = true ∧ pmmAddressToIndex f ∈ device)
    (huser : k = false → vm.currentPageDirectory ≠ vm.kernelPageDirectory)
    (hm : x.vmmMapPage q f k w = .ok (r, x')) : Mapping device vm spaces x' := by
  have hstatics : x'.currentPageDirectory = x.currentPageDirectory ∧
      x'.kernelPageDirectory = x.kernelPageDirectory := by
    rcases vmmMapPage_cases h.inv.ok h.inv.current hm with ⟨-, rfl, -⟩ | ⟨-, -, -, hp⟩
    · exact ⟨rfl, rfl⟩
    · exact ⟨hp.linked.statics.current, hp.linked.statics.kernel⟩
  refine ⟨h.inv.vmmMapPage hm, h.isolated.vmmMapPage h.inv hq hgiven ?_ hm,
    hstatics.1.trans h.current, hstatics.2.trans h.kernel⟩
  rw [h.current, h.kernel]
  exact huser

theorem Mapping.unmap {spaces : List ℕ} {x : Vm σ} (h : Mapping device vm spaces x) (q : ℕ) :
    Mapping device vm spaces (x.vmmUnmapPage q) := by
  have hs := vmmUnmapPage_spec h.inv.ok h.inv.current q
  obtain ⟨ts, hts⟩ := hs.tables
  refine ⟨h.inv.vmmUnmapPage q, h.isolated.fewer ?_ ?_ (fun _ hd => hd) fun d hd u => ?_, ?_, ?_⟩
  · rw [hts]
    exact .refl _
  · rw [hts]
    exact h.isolated.high
  · rw [hs.page d hd]
    split
    · exact Or.inl rfl
    · exact Or.inr rfl
  · rw [hts]
    exact h.current
  · rw [hts]
    exact h.kernel

/-- **Every step keeps the isolation.** -/
theorem step (h : Isolated device s.spaces s.vm) (hi : SpacesInv s) (hc : s.Clean op)
    (hs : s.Step op s') (ho : op = .other → s.vm.pmm.Keeps s'.vm.pmm) (hiso : Isolates device s op) :
    Isolated device s'.spaces s'.vm := by
  obtain ⟨vm, spaces⟩ := s
  obtain ⟨vm', spaces'⟩ := s'
  cases op with
  | map v size p k w =>
    obtain ⟨⟨hv, hsize, -⟩, hsp, r, hm⟩ := hs
    obtain ⟨huser, hgiven⟩ := hiso
    simp only at hsp hm
    subst hsp
    have h₀ : Mapping device vm spaces' vm := ⟨hi, h, rfl, rfl⟩
    by_cases hp : p = 0
    · subst hp
      unfold vmmMapMemory at hm
      cases ha : vm.vmmPlace v size k with
      | error e => rw [ha] at hm; cases hm
      | ok a =>
        rw [ha] at hm
        have hlt := (vmmPlace_spec ha).2.2 hv
        have hva : vmmAlignDown a < 4294967296 := by
          unfold vmmAlignDown
          omega
        refine (vmmMapLoop_running (P := Mapping device vm spaces') (G := fun _ f => f = 0) hva ?_
          (fun x q _ hx => hx.unmap q) hva rfl h₀ hm).isolated
        rintro x q f r x' hq - rfl hx hpage
        exact ⟨hx.map hq (Or.inl rfl) huser hpage, fun _ => rfl⟩
    · obtain ⟨rfl, hend, hdev⟩ := hgiven hp
      refine (vmmMapMemory_given (P := Mapping device vm spaces') hv hsize hp hend ?_
        (fun x q _ hx => hx.unmap q) h₀ hm).isolated
      intro x q f r x' hq hf hf' hx hpage
      exact hx.map hq (Or.inr ⟨rfl, hdev f hf hf'⟩) huser hpage
  | unmap v size =>
    obtain ⟨⟨hv, -⟩, hsp, hu⟩ := hs
    simp only at hsp hu
    subst hsp
    obtain ⟨-, ⟨ts, hts⟩, hp⟩ := hi.vmmUnmapMemory hv hu
    have hpmm : vm'.pmm = vm.pmm := by rw [hts]
    refine h.fewer (hpmm ▸ .refl _) ?_ (fun _ hd => hd) hp
    rw [hts]
    exact h.high
  | create =>
    obtain ⟨d, hcr, hsp⟩ := hs
    simp only at hsp hcr
    subst hsp
    obtain ⟨-, hnot, hst, hold, hnew, htab⟩ := hi.vmmCreateAddressSpace (hc rfl) hcr
    obtain ⟨-, -, dir, hvm, -⟩ := SpacesInv.vmmCreateAddressSpace_spec (hi.live _ hi.kernel) hcr
    have hpmm : vm'.pmm = vm.pmm := by
      rw [hvm]
      rfl
    refine h.of_old (hpmm ▸ .refl _) (fun i hi' => ?_) fun d' hd' u e he => ?_
    · rw [hst.kernel, hold _ hi.kernel]
      exact h.high i hi'
    · rcases List.mem_cons.1 hd' with rfl | hd'
      · -- the kernel's page tables
        refine ⟨_, hi.kernel, ?_, fun hlow => ?_⟩
        · rwa [page, entryAt_eq, tableOf, hnew _ (pageDirectoryIndex_lt u), htab] at he
        · have h0 : vm'.tableOf d' u = 0 := by
            rw [tableOf, hnew _ (pageDirectoryIndex_lt u)]
            refine h.high _ ?_
            have hlow : u32 u < 3221225472 := hlow
            unfold pageDirectoryIndex
            omega
          rw [page_of_tableOf h0] at he
          cases he
      · refine ⟨d', hd', ?_, fun _ => rfl⟩
        rwa [page, entryAt_eq, tableOf, hold d' hd', htab] at he
  | switch d =>
    obtain ⟨hd, heq⟩ := hs
    cases heq
    exact ⟨⟨h.total, h.frames⟩, h.kept, h.high, h.alone, h.apart⟩
  | destroy d =>
    obtain ⟨hd, hk, hsp, hde⟩ := hs
    simp only at hsp hde hd hk
    subst hsp
    obtain ⟨-, hkernel, -, hdirs, hp⟩ := hi.vmmDestroyAddressSpace hd hk hde
    have hpmm : vm'.pmm = vm.pmm := by
      unfold Vm.vmmDestroyAddressSpace at hde
      obtain ⟨vm₁, hu, hf⟩ := exists_of_map_ok hde
      obtain ⟨-, ⟨ts, rfl⟩, -⟩ := hi.vmmUnmapMemory (by decide) hu
      obtain ⟨hp', h3, -⟩ := SpacesInv.vmmFreeSlot_fold (d := d) (List.range 1024)
        (({ vm with tables := ts } : Vm σ).vmmSwitchAddressSpace vm.kernelPageDirectory)
      simp only at hf
      rw [h3] at hf
      rw [← hf]
      rfl
    refine h.fewer (hpmm ▸ .refl _) ?_ (fun _ hd' => List.mem_of_mem_erase hd') hp
    rw [hkernel, hdirs]
    exact h.high
  | other =>
    obtain ⟨hsp, he⟩ := hs
    simp only at hsp he
    subst hsp
    obtain ⟨-, hpage⟩ := hi.elsewhere he
    refine h.fewer (ho rfl) ?_ (fun _ hd => hd) fun d hd u => Or.inr (hpage d hd u)
    rw [he.kernel, (he.dirs _ hi.kernel).1]
    exact h.high

end Isolated

theorem reachable_isolated {s : AddressSpaces σ} (hr : (isolationSystem device).Reachable s) :
    SpacesInv s ∧ Isolated device s.spaces s.vm := by
  refine hr.invariant (P := fun s => SpacesInv s ∧ Isolated device s.spaces s.vm) ?_ ?_
  · rintro s ⟨hs, ht, hdev⟩
    exact ⟨(Starts.inv hs).1, Isolated.starts hs ht hdev⟩
  · rintro s op s' - ⟨hi, h⟩ ⟨hc, hs, ho, hiso⟩
    exact ⟨hi.step hc hs, h.step hi hc hs ho hiso⟩

omit [Allocator σ] in
/-- The frame and the offset of a physical address. -/
theorem physical_frame {d x : ℕ} {e : PageTableEntry} (hen : vm.pagingEnabled = true)
    (he : vm.page d x = some e) :
    pmmAddressToIndex (vm.pagingVirtualToPhysicalAddress d x) = e.frameIndex ∧
      vm.pagingVirtualToPhysicalAddress d x % 4096 = pageOffset x := by
  have hlt := e.pageBase.isLt
  have hoff : pageOffset x < 4096 := Nat.mod_lt _ (by decide)
  have heq : vm.pagingVirtualToPhysicalAddress d x = e.pageBase.toNat * 4096 + pageOffset x := by
    rw [translate_eq hen, he]
    show u32 (e.pageBase.toNat * 4096 + pageOffset x) = _
    exact u32_of_lt (by omega)
  rw [heq, PageTableEntry.frameIndex, pmmAddressToIndex, u32_of_lt (by omega)]
  omega

/-- **Memory isolation.**  In every reachable state, an address of a user page of one address space
is the only one with its physical address: no address of another address space, no other address of
this one and no address of the kernel has it, and it is not device memory. -/
theorem user_memory_private {s : AddressSpaces σ} (hr : (isolationSystem device).Reachable s)
    {d d' x x' : ℕ} (hd : d ∈ s.spaces) (hd' : d' ∈ s.spaces) (hx : x < vmmKernelSpaceBase)
    (hx' : x' < 4294967296) (hp : s.vm.page d x ≠ none) (hp' : s.vm.page d' x' ≠ none) :
    pmmAddressToIndex (s.vm.pagingVirtualToPhysicalAddress d x) ∉ device ∧
      (s.vm.pagingVirtualToPhysicalAddress d x = s.vm.pagingVirtualToPhysicalAddress d' x' →
        d = d' ∧ x = x') := by
  obtain ⟨hi, h⟩ := reachable_isolated hr
  obtain ⟨e, he⟩ := Option.ne_none_iff_exists'.1 hp
  obtain ⟨e', he'⟩ := Option.ne_none_iff_exists'.1 hp'
  have hlow : u32 x < vmmKernelSpaceBase := by
    rw [u32_of_lt (hx.trans (by decide))]
    exact hx
  have hphys := physical_frame hi.enabled he
  have hphys' := physical_frame hi.enabled he'
  refine ⟨?_, fun heq => ?_⟩
  · rw [hphys.1]
    exact h.apart d hd x e he hlow
  · rw [heq] at hphys
    obtain ⟨hsame, hnum⟩ := h.alone d hd d' hd' x x' e e' he he' hlow (hphys.1.symm.trans hphys'.1)
    refine ⟨hsame, ?_⟩
    have hoff := hphys.2.symm.trans hphys'.2
    unfold pageNumber at hnum
    unfold pageOffset at hoff
    rw [u32_of_lt hx'] at hnum hoff
    rw [u32_of_lt (hx.trans (by decide))] at hnum hoff
    omega

/-! ## Two programs -/

/-- Both address spaces get a page at `0x400000`. -/
def twoPrograms : Except Stop (Vm KernelHeap × Vm KernelHeap) :=
  (twoSpaces.vm.vmmMapMemory 0x400000 4096 0 false true).bind fun first =>
    ((first.2.vmmSwitchAddressSpace threeDirs.2.2.1).vmmMapMemory 0x400000 4096 0 false true).map
      fun second => (first.2, second.2)

/-- The same address is different memory in the two address spaces. -/
theorem user_memory_private_two : ∃ s : AddressSpaces KernelHeap,
    pmmAddressToIndex (s.vm.pagingVirtualToPhysicalAddress threeDirs.2.1.1 0x400000) ≠ 0 ∧
      s.vm.pagingVirtualToPhysicalAddress threeDirs.2.1.1 0x400000 ≠
        s.vm.pagingVirtualToPhysicalAddress threeDirs.2.2.1 0x400000 := by
  obtain ⟨-, -, -, hnd⟩ := threeDirs_ok
  obtain ⟨⟨vm₁, vm₂⟩, hrun, hc⟩ := exists_of_check (x := twoPrograms)
    (P := fun res => (res.2.page threeDirs.2.1.1 0x400000).isSome &&
      (res.2.page threeDirs.2.2.1 0x400000).isSome &&
      threeDirs.2.2.1 != res.1.kernelPageDirectory) (by decide +kernel)
  simp only [Bool.and_eq_true, bne_iff_ne] at hc
  obtain ⟨⟨hpage, hpage'⟩, hkernel⟩ := hc
  obtain ⟨first, h1, hrun⟩ := exists_of_bind_ok hrun
  obtain ⟨second, h2, heq⟩ := exists_of_map_ok hrun
  obtain ⟨rfl, rfl⟩ := Prod.mk.inj heq
  have hne : threeDirs.2.1.1 ≠ threeDirs.1.1 ∧ threeDirs.2.1.1 ≠ threeDirs.2.2.1 := by
    simp only [List.nodup_cons, List.mem_cons, not_or] at hnd
    exact ⟨fun h => hnd.1.1 h.symm, hnd.2.1.1⟩
  have hwords : (0x400000 < 4294967296 ∧ 4096 < 4294967296 ∧ 0 < 4294967296) := by decide
  have r0 : (isolationSystem {0}).Reachable twoSpaces := by
    refine .init ⟨twoSpaces_starts, rfl, fun g hg => ?_⟩
    rw [Set.mem_singleton_iff.1 hg]
    decide
  have hin : threeDirs.2.2.1 ∈ twoSpaces.spaces := by simp [twoSpaces]
  have hin' : threeDirs.2.1.1 ∈ twoSpaces.spaces := by simp [twoSpaces]
  have r1 : (isolationSystem {0}).Reachable ⟨first.2, twoSpaces.spaces⟩ := by
    refine r0.step (i := .map 0x400000 4096 0 false true) ⟨?_, ⟨hwords, rfl, _, h1⟩, ?_, fun _ => hne.1,
      fun h => absurd rfl h⟩
    all_goals exact fun h => by cases h
  have r2 : (isolationSystem {0}).Reachable
      ⟨first.2.vmmSwitchAddressSpace threeDirs.2.2.1, twoSpaces.spaces⟩ := by
    refine r1.step (i := .switch threeDirs.2.2.1) ⟨?_, ⟨hin, rfl⟩, ?_, trivial⟩
    all_goals exact fun h => by cases h
  have r3 : (isolationSystem {0}).Reachable ⟨second.2, twoSpaces.spaces⟩ := by
    refine r2.step (i := .map 0x400000 4096 0 false true) ⟨?_, ⟨hwords, rfl, _, h2⟩, ?_,
      fun _ => hkernel, fun h => absurd rfl h⟩
    all_goals exact fun h => by cases h
  obtain ⟨hdevice, hsame⟩ := user_memory_private r3 hin' hin (by decide) (by decide)
    (Option.isSome_iff_ne_none.1 hpage) (Option.isSome_iff_ne_none.1 hpage')
  exact ⟨_, hdevice, fun h => hne.2 (hsame h).1⟩

end Ttos
