/-
  Runs of the virtual memory manager with its address spaces.

  * `AddressSpaces.Step`: a call of the virtual memory manager, or the rest of the
    kernel at work.
  * `SpacesInv`: the live address spaces own their page tables and share none but the
    kernel's; kept by every step whose new directories are clean.
-/
import Ttos.Lib.Outcome
import Ttos.Lib.Run
import Ttos.Memory.VmmSpec

namespace Ttos

/-- `kernel_virtual_start` (linker.ld) -/
abbrev kernelVirtualStart : ℕ := 0xC0100000

/-- `kernel_physical_start` (linker.ld) -/
abbrev kernelPhysicalStart : ℕ := 0x00100000

/-- The virtual memory manager and the page directories of the live address spaces. -/
structure AddressSpaces (σ : Type*) where
  vm : Vm σ
  spaces : List ℕ

/-- A call of the virtual memory manager, or `other`: the rest of the kernel at work. -/
inductive VmmOp where
  | map (virtualAddress size physicalAddress : ℕ) (isKernel isWriteable : Bool)
  | unmap (virtualAddress size : ℕ)
  | create
  | switch (pageDirectory : ℕ)
  | destroy (pageDirectory : ℕ)
  | other

namespace AddressSpaces

variable {σ : Type*} [Allocator σ]

/-- What the rest of the kernel may do: use the heap, the frames and the memory, as long
    as the live page directories and their page tables stay as they are. -/
structure Elsewhere (s : AddressSpaces σ) (vm' : Vm σ) : Prop where
  kernel : vm'.kernelPageDirectory = s.vm.kernelPageDirectory
  current : vm'.currentPageDirectory = s.vm.currentPageDirectory
  enabled : vm'.pagingEnabled = s.vm.pagingEnabled
  dirs : ∀ d ∈ s.spaces, vm'.dirs d = s.vm.dirs d ∧ Allocator.Live vm'.heap d
  tables : ∀ d ∈ s.spaces, ∀ i < 1024, (s.vm.dirs d).tables i ≠ 0 →
    vm'.tables ((s.vm.dirs d).tables i) = s.vm.tables ((s.vm.dirs d).tables i) ∧
      Allocator.Live vm'.heap ((s.vm.dirs d).tables i)

/-- A step: the arguments are 32-bit words, and only live address spaces are switched to
    and destroyed, the kernel's never.  A call that panics or does not end makes no step. -/
def Step (s : AddressSpaces σ) : VmmOp → AddressSpaces σ → Prop
  | .map v size p k w, s' => (v < 4294967296 ∧ size < 4294967296 ∧ p < 4294967296) ∧
    s'.spaces = s.spaces ∧ ∃ r, s.vm.vmmMapMemory v size p k w = .ok (r, s'.vm)
  | .unmap v size, s' => (v < 4294967296 ∧ size < 4294967296) ∧
    s'.spaces = s.spaces ∧ s.vm.vmmUnmapMemory v size = .ok s'.vm
  | .create, s' => ∃ d, s.vm.vmmCreateAddressSpace = .ok (d, s'.vm) ∧ s'.spaces = d :: s.spaces
  | .switch d, s' => d ∈ s.spaces ∧ s' = ⟨s.vm.vmmSwitchAddressSpace d, s.spaces⟩
  | .destroy d, s' => d ∈ s.spaces ∧ d ≠ s.vm.kernelPageDirectory ∧
    s'.spaces = s.spaces.erase d ∧ s.vm.vmmDestroyAddressSpace d = .ok s'.vm
  | .other, s' => s'.spaces = s.spaces ∧ s.Elsewhere s'.vm

/-- The start: the kernel's directory is the only one, and it is empty or `vmm_init` has
    built it. -/
inductive Boots : AddressSpaces σ → Prop
  | empty {vm : Vm σ} : vm.pagingEnabled = true →
      vm.currentPageDirectory = vm.kernelPageDirectory →
      Allocator.Live vm.heap vm.kernelPageDirectory →
      vm.dirs vm.kernelPageDirectory = .zero → Boots ⟨vm, [vm.kernelPageDirectory]⟩
  | init {vm₀ vm : Vm σ} {prepaging kernelVirtualEnd : ℕ} : kernelVirtualEnd ≤ 0xFFFFF000 →
      vm₀.vmmInit prepaging kernelVirtualStart kernelVirtualEnd kernelPhysicalStart = .ok vm →
      Boots ⟨vm, [vm.kernelPageDirectory]⟩

/-- The same with more address spaces whose directories are empty, any of them current. -/
def Starts (s : AddressSpaces σ) : Prop :=
  ∃ s₀ : AddressSpaces σ, Boots s₀ ∧ ∃ empty current,
    s = ⟨{ s₀.vm with currentPageDirectory := current }, s₀.spaces ++ empty⟩ ∧
    current ∈ s.spaces ∧ s.spaces.Nodup ∧ ∀ d ∈ empty, Allocator.Live s.vm.heap d ∧
      s.vm.dirs d = .zero ∧ ∀ i < 1024, (s.vm.dirs s.vm.kernelPageDirectory).tables i ≠ d

/-- The memory a new directory would get is empty in the slots that are not linked to
    kernel page tables: `vmm_clone_address_space` does not clear them. -/
def CleanDirectory (vm : Vm σ) : Prop :=
  ∀ i < 1024, (vm.dirs vm.kernelPageDirectory).tables i = 0 →
    (vm.dirs (Allocator.alloc vm.heap 8192 true).1).tables i = 0

/-- New directories are clean. -/
def Clean (s : AddressSpaces σ) (op : VmmOp) : Prop := op = .create → CleanDirectory s.vm

end AddressSpaces

/-- The runs from `start` whose steps meet the condition. -/
def addressSpaceSystem {σ : Type*} [Allocator σ] (start : AddressSpaces σ → Prop)
    (condition : AddressSpaces σ → VmmOp → Prop) : TransitionSystem (AddressSpaces σ) VmmOp where
  init := start
  step s op s' := condition s op ∧ s.Step op s'

/-- What holds of the live address spaces: their page tables are proper, and a page table
    belongs to one of them, or to the kernel's directory and all that share it. -/
structure SpacesInv {σ : Type*} [Allocator σ] (s : AddressSpaces σ) : Prop where
  ok : TablesOk s.vm s.spaces
  enabled : s.vm.pagingEnabled = true
  nodup : s.spaces.Nodup
  live : ∀ d ∈ s.spaces, Allocator.Live s.vm.heap d
  kernel : s.vm.kernelPageDirectory ∈ s.spaces
  current : s.vm.currentPageDirectory ∈ s.spaces
  apart : ∀ d ∈ s.spaces, ∀ i < 1024, (s.vm.dirs d).tables i ≠ 0 → (s.vm.dirs d).tables i ∉ s.spaces
  own : ∀ d ∈ s.spaces, ∀ d' ∈ s.spaces, ∀ i < 1024, (s.vm.dirs d).tables i ≠ 0 →
    (s.vm.dirs d).tables i = (s.vm.dirs d').tables i →
      d = d' ∨ (s.vm.dirs d).tables i = (s.vm.dirs s.vm.kernelPageDirectory).tables i

namespace SpacesInv

open Vm

variable {σ : Type*} [Allocator σ] {vm vm' : Vm σ} {spaces : List ℕ} {d v size p r : ℕ} {k w : Bool}

/-! ## Mapping and unmapping -/

/-- New page tables belong to the one directory that got them. -/
theorem grown (h : SpacesInv ⟨vm, spaces⟩) (hd : d ∈ spaces) (hok : TablesOk vm' spaces)
    (hg : Grown d vm vm') : SpacesInv ⟨vm', spaces⟩ := by
  have hk : vm'.kernelPageDirectory = vm.kernelPageDirectory := hg.statics.kernel
  refine ⟨hok, hg.statics.enabled.trans h.enabled, h.nodup, fun d hd => hg.live _ (h.live d hd),
    hk ▸ h.kernel, hg.statics.current ▸ h.current, fun d' hd' i hi hne hm => ?_, ?_⟩
  · by_cases heq : (vm'.dirs d').tables i = (vm.dirs d').tables i
    · rw [heq] at hm hne
      exact h.apart d' hd' i hi hne hm
    · obtain ⟨-, -, hnl⟩ := hg.tables d' i heq
      exact hnl (h.live _ hm)
  · intro d₁ hd₁ d₂ hd₂ i hi hne heq
    show _ ∨ (vm'.dirs d₁).tables i = (vm'.dirs vm'.kernelPageDirectory).tables i
    rw [hk]
    by_cases h1 : (vm'.dirs d₁).tables i = (vm.dirs d₁).tables i
    · by_cases h2 : (vm'.dirs d₂).tables i = (vm.dirs d₂).tables i
      · rw [h1] at hne
        rcases h.own d₁ hd₁ d₂ hd₂ i hi hne (by rw [← h1, heq, h2]) with h3 | h3
        · exact Or.inl h3
        · right
          by_cases h4 : (vm'.dirs vm.kernelPageDirectory).tables i
              = (vm.dirs vm.kernelPageDirectory).tables i
          · rw [h1, h4, h3]
          · exact absurd (h3 ▸ (hg.tables _ i h4).2.1) hne
      · obtain ⟨-, -, h3⟩ := hg.tables d₂ i h2
        rw [← heq, h1] at h3
        rw [h1] at hne
        exact absurd (h.ok.live d₁ hd₁ i hi hne) h3
    · obtain ⟨rfl, -, h3⟩ := hg.tables d₁ i h1
      by_cases h2 : (vm'.dirs d₂).tables i = (vm.dirs d₂).tables i
      · rw [heq, h2] at h3
        rw [heq, h2] at hne
        exact absurd (h.ok.live d₂ hd₂ i hi hne) h3
      · exact Or.inl (hg.tables d₂ i h2).1.symm

theorem tablesChanged {ts : ℕ → PageTable} (h : SpacesInv ⟨vm, spaces⟩)
    (hok : TablesOk { vm with tables := ts } spaces) : SpacesInv ⟨{ vm with tables := ts }, spaces⟩ :=
  ⟨hok, h.enabled, h.nodup, h.live, h.kernel, h.current, h.apart, h.own⟩

theorem vmmUnmapPage (h : SpacesInv ⟨vm, spaces⟩) (v : ℕ) :
    SpacesInv ⟨vm.vmmUnmapPage v, spaces⟩ := by
  have hr := vmmUnmapPage_spec h.ok h.current v
  obtain ⟨ts, hts⟩ := hr.tables
  rw [hts]
  exact h.tablesChanged (hts ▸ hr.ok)

/-- Unmapping a range keeps everything but pages. -/
theorem vmmUnmapMemory (h : SpacesInv ⟨vm, spaces⟩) (hv : v < 4294967296)
    (hr : vm.vmmUnmapMemory v size = .ok vm') :
    SpacesInv ⟨vm', spaces⟩ ∧ (∃ ts, vm' = { vm with tables := ts }) ∧
      ∀ d ∈ spaces, ∀ u, vm'.page d u = none ∨ vm'.page d u = vm.page d u := by
  refine vmmUnmapMemory_invariant (P := fun x => SpacesInv ⟨x, spaces⟩ ∧
    (∃ ts, x = { vm with tables := ts }) ∧ ∀ d ∈ spaces, ∀ u, x.page d u = none ∨
      x.page d u = vm.page d u) hv ?_ ⟨h, ⟨vm.tables, rfl⟩, fun _ _ _ => Or.inr rfl⟩ hr
  rintro x q - - ⟨hx, ⟨ts, rfl⟩, hp⟩
  have hs := vmmUnmapPage_spec hx.ok hx.current q
  obtain ⟨ts', hts⟩ := hs.tables
  refine ⟨hx.vmmUnmapPage q, ⟨ts', hts⟩, fun d hd u => ?_⟩
  rw [hs.page d hd u]
  split
  · exact Or.inl rfl
  · exact hp d hd u

theorem vmmMapPage (h : SpacesInv ⟨vm, spaces⟩) (hm : vm.vmmMapPage v p k w = .ok (r, vm')) :
    SpacesInv ⟨vm', spaces⟩ := by
  rcases vmmMapPage_cases h.ok h.current hm with ⟨-, rfl, -⟩ | ⟨-, -, -, hpm⟩
  · exact h
  · exact h.grown h.current hpm.ok hpm.linked.grown

/-! ## New address spaces -/

/-- A slot of a new directory, linked to the kernel's page table. -/
def linkSlot (kd dir : PageDirectory) (i : ℕ) : PageDirectory :=
  if kd.tables i = 0 then dir
  else ⟨Function.update dir.entries i (kd.entries i), Function.update dir.tables i (kd.tables i)⟩

/-- A slot of a directory: the hardware's entry, and the table. -/
def slot (dir : PageDirectory) (i : ℕ) : PageDirectoryEntry × ℕ := (dir.entries i, dir.tables i)

theorem linkSlot_slot (kd dir : PageDirectory) (i j : ℕ) : slot (linkSlot kd dir j) i =
    if i = j ∧ kd.tables j ≠ 0 then slot kd i else slot dir i := by
  by_cases hj : kd.tables j = 0
  · simp [linkSlot, hj]
  · by_cases hij : i = j
    · subst hij
      simp [linkSlot, slot, hj]
    · simp [linkSlot, slot, hj, hij]

theorem linkSlots_slot (kd : PageDirectory) (l : List ℕ) : ∀ (dir : PageDirectory) (i : ℕ),
    slot (l.foldl (linkSlot kd) dir) i
      = if i ∈ l ∧ kd.tables i ≠ 0 then slot kd i else slot dir i := by
  induction l with
  | nil => simp
  | cons j l ih =>
    intro dir i
    rw [List.foldl_cons, ih, linkSlot_slot]
    by_cases hij : i = j
    · subst hij
      by_cases hk : kd.tables i = 0 <;> simp [hk]
    · simp [hij]

/-- Cloning the kernel's directory links every page table and copies none. -/
theorem vmmCloneSlot_fold (vm : Vm σ) (l : List ℕ) (hd : d ≠ vm.kernelPageDirectory) :
    ∀ dir, l.foldlM (vmmCloneSlot vm.kernelPageDirectory d) (vm.setDir d dir)
      = .ok (vm.setDir d (l.foldl (linkSlot (vm.dirs vm.kernelPageDirectory)) dir)) := by
  induction l with
  | nil => intro dir; rfl
  | cons i l ih =>
    intro dir
    have hstep : vmmCloneSlot vm.kernelPageDirectory d (vm.setDir d dir) i
        = .ok (vm.setDir d (linkSlot (vm.dirs vm.kernelPageDirectory) dir i)) := by
      have hk : Function.update vm.dirs d dir vm.kernelPageDirectory
          = vm.dirs vm.kernelPageDirectory := Function.update_of_ne hd.symm _ _
      unfold vmmCloneSlot linkSlot
      simp only [setDir, hk, Function.update_self, Function.update_idem, if_true]
      split <;> rfl
    rw [List.foldlM_cons, hstep]
    exact ih _

/-- The call returns the new block, in which every slot of the kernel is linked. -/
theorem vmmCreateAddressSpace_eq (hlive : Allocator.Live vm.heap vm.kernelPageDirectory)
    (h0 : (Allocator.alloc vm.heap 8192 true).1 ≠ 0) :
    vm.vmmCreateAddressSpace = .ok ((Allocator.alloc vm.heap 8192 true).1,
      { vm with heap := (Allocator.alloc vm.heap 8192 true).2 }.setDir
        (Allocator.alloc vm.heap 8192 true).1
        ((List.range 1024).foldl (linkSlot (vm.dirs vm.kernelPageDirectory))
          (vm.dirs (Allocator.alloc vm.heap 8192 true).1))) := by
  have hne : vm.kernelPageDirectory ≠ (Allocator.alloc vm.heap 8192 true).1 :=
    Allocator.ne_of_live (by decide) hlive
  unfold vmmCreateAddressSpace vmmCloneAddressSpace
  generalize Allocator.alloc vm.heap 8192 true = res at h0 hne ⊢
  obtain ⟨a, heap'⟩ := res
  simp only at h0 hne ⊢
  rw [if_neg h0]
  have hf := vmmCloneSlot_fold { vm with heap := heap' } (List.range 1024) hne.symm (vm.dirs a)
  have hself : ({ vm with heap := heap' } : Vm σ).setDir a (vm.dirs a) = { vm with heap := heap' } := by
    rw [setDir, Function.update_eq_self]
  rw [hself] at hf
  rw [hf]
  rfl

theorem vmmCreateAddressSpace_spec (hlive : Allocator.Live vm.heap vm.kernelPageDirectory)
    (h : vm.vmmCreateAddressSpace = .ok (d, vm')) :
    d = (Allocator.alloc vm.heap 8192 true).1 ∧ d ≠ 0 ∧
    ∃ dir, vm' = { vm with heap := (Allocator.alloc vm.heap 8192 true).2 }.setDir d dir ∧
      ∀ i < 1024, slot dir i = if (vm.dirs vm.kernelPageDirectory).tables i = 0 then
        slot (vm.dirs d) i else slot (vm.dirs vm.kernelPageDirectory) i := by
  have h0 : (Allocator.alloc vm.heap 8192 true).1 ≠ 0 := by
    intro h0
    unfold vmmCreateAddressSpace vmmCloneAddressSpace at h
    dsimp only at h
    rw [if_pos h0] at h
    cases h
  rw [vmmCreateAddressSpace_eq hlive h0] at h
  obtain ⟨rfl, rfl⟩ := Prod.mk.inj (Except.ok.inj h)
  refine ⟨rfl, h0, _, rfl, fun i hi => ?_⟩
  rw [linkSlots_slot]
  by_cases hk : (vm.dirs vm.kernelPageDirectory).tables i = 0
  · rw [if_neg (fun hc => hc.2 hk), if_pos hk]
  · rw [if_pos ⟨List.mem_range.2 hi, hk⟩, if_neg hk]

/-- **A new address space** whose directory is clean has the kernel's page tables and no
    others. -/
theorem vmmCreateAddressSpace (h : SpacesInv ⟨vm, spaces⟩) (hclean : AddressSpaces.CleanDirectory vm)
    (hc : vm.vmmCreateAddressSpace = .ok (d, vm')) :
    SpacesInv ⟨vm', d :: spaces⟩ ∧ d ∉ spaces ∧ SameStatics vm vm' ∧
      (∀ d' ∈ spaces, ∀ i, (vm'.dirs d').tables i = (vm.dirs d').tables i) ∧
      (∀ i < 1024, (vm'.dirs d).tables i = (vm.dirs vm.kernelPageDirectory).tables i) ∧
      vm'.tables = vm.tables := by
  obtain ⟨rfl, h0, dir, rfl, hdir⟩ := vmmCreateAddressSpace_spec (h.live _ h.kernel) hc
  have hreq : Request 8192 := by decide
  set d := (Allocator.alloc vm.heap 8192 true).1 with hd
  have hnl : ¬ Allocator.Live vm.heap d := Allocator.alloc_fresh vm.heap 8192 true hreq
  have hds : d ∉ spaces := fun hm => hnl (h.live d hm)
  have hkeep : ∀ p, Allocator.Live vm.heap p → Allocator.Live (Allocator.alloc vm.heap 8192 true).2 p :=
    fun p hp => Allocator.alloc_keeps hreq hp
  have hnew : ∀ i < 1024, dir.tables i = (vm.dirs vm.kernelPageDirectory).tables i := by
    intro i hi
    have hslot : dir.tables i = (slot dir i).2 := rfl
    rw [hslot, hdir i hi]
    split
    · rename_i hk
      exact (hclean i hi hk).trans hk.symm
    · rfl
  generalize hvm : ({ vm with heap := (Allocator.alloc vm.heap 8192 true).2 } : Vm σ).setDir d dir = vm₁
  have hheap : vm₁.heap = (Allocator.alloc vm.heap 8192 true).2 := by rw [← hvm]; rfl
  have htab : vm₁.tables = vm.tables := by rw [← hvm]; rfl
  have hst : SameStatics vm vm₁ := by rw [← hvm]; exact ⟨rfl, rfl, rfl, rfl⟩
  have hsame : vm₁.dirs d = dir := by rw [← hvm]; exact Function.update_self ..
  have hother : ∀ d', d' ≠ d → vm₁.dirs d' = vm.dirs d' := by
    intro d' hne
    rw [← hvm]
    exact Function.update_of_ne hne ..
  have hold : ∀ d' ∈ spaces, vm₁.dirs d' = vm.dirs d' := fun d' hd' =>
    hother d' (ne_of_mem_of_not_mem hd' hds)
  -- in the new state the directories are the old ones and `d`, which is the kernel's
  have hdirs : ∀ d' ∈ d :: spaces, ∃ e ∈ spaces, (e = d' ∨ d' = d ∧ e = vm.kernelPageDirectory) ∧
      ∀ i < 1024, (vm₁.dirs d').tables i = (vm.dirs e).tables i := by
    intro d' hd'
    rcases List.mem_cons.1 hd' with rfl | hm
    · refine ⟨_, h.kernel, Or.inr ⟨rfl, rfl⟩, fun i hi => ?_⟩
      rw [hsame, hnew i hi]
    · refine ⟨d', hm, Or.inl rfl, fun i _ => ?_⟩
      rw [hold d' hm]
  refine ⟨⟨⟨?_, ?_, ?_⟩, hst.enabled.trans h.enabled, List.nodup_cons.2 ⟨hds, h.nodup⟩, ?_,
    hst.kernel ▸ List.mem_cons_of_mem _ h.kernel, hst.current ▸ List.mem_cons_of_mem _ h.current, ?_, ?_⟩,
    hds, hst, fun d' hd' i => by rw [hold d' hd'], fun i hi => by rw [hsame, hnew i hi], htab⟩
  · intro d' hd' i hi hne
    obtain ⟨e, he, -, ht⟩ := hdirs d' hd'
    rw [ht i hi] at hne
    rw [ht i hi, hheap]
    exact hkeep _ (h.ok.live e he i hi hne)
  · intro d₁ hd₁ d₂ hd₂ i hi j hj hne heq
    obtain ⟨e₁, he₁, -, ht₁⟩ := hdirs d₁ hd₁
    obtain ⟨e₂, he₂, -, ht₂⟩ := hdirs d₂ hd₂
    rw [ht₁ i hi] at hne
    rw [ht₁ i hi, ht₂ j hj] at heq
    exact h.ok.slot e₁ he₁ e₂ he₂ i hi j hj hne heq
  · intro d' hd' i hi hne j hj
    obtain ⟨e, he, -, ht⟩ := hdirs d' hd'
    rw [ht i hi] at hne
    rw [ht i hi, htab]
    exact h.ok.agree e he i hi hne j hj
  · intro d' hd'
    show Allocator.Live vm₁.heap d'
    rw [hheap]
    rcases List.mem_cons.1 hd' with rfl | hm
    · exact Allocator.alloc_new hreq h0
    · exact hkeep _ (h.live d' hm)
  · intro d' hd' i hi hne hm
    obtain ⟨e, he, -, ht⟩ := hdirs d' hd'
    simp only [ht i hi] at hne hm
    rcases List.mem_cons.1 hm with h1 | h1
    · exact hnl (h1 ▸ h.ok.live e he i hi hne)
    · exact h.apart e he i hi hne h1
  · intro d₁ hd₁ d₂ hd₂ i hi hne heq
    obtain ⟨e₁, he₁, hor₁, ht₁⟩ := hdirs d₁ hd₁
    obtain ⟨e₂, he₂, hor₂, ht₂⟩ := hdirs d₂ hd₂
    show d₁ = d₂ ∨ (vm₁.dirs d₁).tables i = (vm₁.dirs vm₁.kernelPageDirectory).tables i
    simp only [ht₁ i hi, ht₂ i hi] at hne heq
    rw [ht₁ i hi, hst.kernel, hold _ h.kernel]
    rcases hor₁ with rfl | ⟨rfl, rfl⟩
    · rcases hor₂ with rfl | ⟨rfl, rfl⟩
      · exact h.own _ he₁ _ he₂ i hi hne heq
      · exact Or.inr heq
    · exact Or.inr rfl

/-! ## Switching and destroying -/

theorem vmmSwitchAddressSpace (h : SpacesInv ⟨vm, spaces⟩) (hd : d ∈ spaces) :
    SpacesInv ⟨vm.vmmSwitchAddressSpace d, spaces⟩ :=
  ⟨⟨h.ok.live, h.ok.slot, h.ok.agree⟩, h.enabled, h.nodup, h.live, h.kernel, hd, h.apart, h.own⟩

/-- Freeing the page tables of a directory frees nothing else. -/
theorem vmmFreeSlot_fold (l : List ℕ) : ∀ vm : Vm σ, ∃ hp, l.foldl (vmmFreeSlot d) vm = { vm with heap := hp } ∧
    ∀ q, Allocator.Live hp q ↔ Allocator.Live vm.heap q ∧ ∀ i ∈ l, (vm.dirs d).tables i ≠ 0 →
      (vm.dirs d).tables i ≠ (vm.dirs vm.kernelPageDirectory).tables i → q ≠ (vm.dirs d).tables i := by
  induction l with
  | nil => exact fun vm => ⟨vm.heap, rfl, by simp⟩
  | cons j l ih =>
    intro vm
    rw [List.foldl_cons]
    by_cases hc : (vm.dirs d).tables j ≠ 0 ∧
        (vm.dirs d).tables j ≠ (vm.dirs vm.kernelPageDirectory).tables j
    · obtain ⟨hp, h1, h2⟩ := ih { vm with heap := Allocator.free vm.heap ((vm.dirs d).tables j) }
      refine ⟨hp, ?_, fun q => ?_⟩
      · rw [vmmFreeSlot, if_pos hc, h1]
      · rw [h2, Allocator.free_live]
        simp only [List.mem_cons, forall_eq_or_imp, and_assoc]
        simp [hc.1, hc.2]
    · obtain ⟨hp, h1, h2⟩ := ih vm
      refine ⟨hp, ?_, fun q => ?_⟩
      · rw [vmmFreeSlot, if_neg hc, h1]
      · rw [h2]
        simp only [List.mem_cons, forall_eq_or_imp]
        exact ⟨fun h3 => ⟨h3.1, fun h4 h5 => absurd ⟨h4, h5⟩ hc, h3.2⟩, fun h3 => ⟨h3.1, h3.2.2⟩⟩

/-- Freeing an address space that is not the kernel's leaves the others their objects. -/
theorem freeSpace (h : SpacesInv ⟨vm, spaces⟩) (hd : d ∈ spaces) (hk : d ≠ vm.kernelPageDirectory)
    (hc : vm.currentPageDirectory ≠ d) {hp : σ} (hlive : ∀ q, Allocator.Live hp q ↔
      (Allocator.Live vm.heap q ∧ ∀ i ∈ List.range 1024, (vm.dirs d).tables i ≠ 0 →
        (vm.dirs d).tables i ≠ (vm.dirs vm.kernelPageDirectory).tables i →
          q ≠ (vm.dirs d).tables i) ∧ q ≠ d) :
    SpacesInv ⟨{ vm with heap := hp }, spaces.erase d⟩ := by
  have hmem : ∀ d' ∈ spaces.erase d, d' ∈ spaces ∧ d' ≠ d := fun d' hd' =>
    ⟨List.mem_of_mem_erase hd', fun heq => (h.nodup.mem_erase_iff.1 hd').1 heq⟩
  have hin : ∀ {d'}, d' ∈ spaces → d' ≠ d → d' ∈ spaces.erase d := fun h1 h2 =>
    h.nodup.mem_erase_iff.2 ⟨h2, h1⟩
  refine ⟨⟨?_, ?_, ?_⟩, h.enabled, h.nodup.erase d, ?_, hin h.kernel hk.symm, hin h.current hc, ?_, ?_⟩
  · intro d' hd' i hi hne
    obtain ⟨hd₁, hne₁⟩ := hmem d' hd'
    refine (hlive _).2 ⟨⟨h.ok.live d' hd₁ i hi hne, fun j hj h1 h2 heq => ?_⟩, fun heq => ?_⟩
    · -- a page table of `d` that another directory has is the kernel's
      obtain rfl := h.ok.slot d' hd₁ d hd i hi j (List.mem_range.1 hj) hne heq
      rcases h.own d hd d' hd₁ i hi h1 heq.symm with h3 | h3
      · exact hne₁ h3.symm
      · exact h2 h3
    · exact h.apart d' hd₁ i hi hne (heq ▸ hd)
  · intro d₁ hd₁ d₂ hd₂
    exact h.ok.slot d₁ (hmem d₁ hd₁).1 d₂ (hmem d₂ hd₂).1
  · intro d' hd'
    exact h.ok.agree d' (hmem d' hd').1
  · intro d' hd'
    obtain ⟨hd₁, hne₁⟩ := hmem d' hd'
    refine (hlive _).2 ⟨⟨h.live d' hd₁, fun i hi h1 _ heq => ?_⟩, hne₁⟩
    exact h.apart d hd i (List.mem_range.1 hi) h1 (heq ▸ hd₁)
  · intro d' hd' i hi hne hm
    exact h.apart d' (hmem d' hd').1 i hi hne (List.mem_of_mem_erase hm)
  · intro d₁ hd₁ d₂ hd₂
    exact h.own d₁ (hmem d₁ hd₁).1 d₂ (hmem d₂ hd₂).1

/-- **Destroying an address space** leaves the others their page tables, and takes pages
    out of them at most. -/
theorem vmmDestroyAddressSpace (h : SpacesInv ⟨vm, spaces⟩) (hd : d ∈ spaces)
    (hk : d ≠ vm.kernelPageDirectory) (hr : vm.vmmDestroyAddressSpace d = .ok vm') :
    SpacesInv ⟨vm', spaces.erase d⟩ ∧ vm'.kernelPageDirectory = vm.kernelPageDirectory ∧
      vm'.pagingEnabled = vm.pagingEnabled ∧ vm'.dirs = vm.dirs ∧
      ∀ d' ∈ spaces.erase d, ∀ u, vm'.page d' u = none ∨ vm'.page d' u = vm.page d' u := by
  unfold Vm.vmmDestroyAddressSpace at hr
  obtain ⟨vm₁, hu, hf⟩ := exists_of_map_ok hr
  obtain ⟨h1, ⟨ts, rfl⟩, h2⟩ := h.vmmUnmapMemory (by decide) hu
  obtain ⟨hp, h3, h4⟩ := vmmFreeSlot_fold (d := d) (List.range 1024)
    (({ vm with tables := ts } : Vm σ).vmmSwitchAddressSpace vm.kernelPageDirectory)
  simp only at hf
  rw [h3] at hf
  subst hf
  have h5 := (h1.vmmSwitchAddressSpace h.kernel).freeSpace hd hk hk.symm
    (fun q => (Allocator.free_live hp d q).trans (and_congr_left' (h4 q)))
  exact ⟨h5, rfl, rfl, rfl, fun d' hd' u => h2 d' (List.mem_of_mem_erase hd') u⟩

/-! ## The rest of the kernel -/

theorem elsewhere (h : SpacesInv ⟨vm, spaces⟩) (he : AddressSpaces.Elsewhere ⟨vm, spaces⟩ vm') :
    SpacesInv ⟨vm', spaces⟩ ∧ ∀ d ∈ spaces, ∀ u, vm'.page d u = vm.page d u := by
  obtain ⟨hk, hc, hen, hdirs, htabs⟩ := he
  simp only at hk hc hen hdirs htabs
  have hd : ∀ d ∈ spaces, vm'.dirs d = vm.dirs d := fun d hd => (hdirs d hd).1
  have htab : ∀ d ∈ spaces, ∀ i < 1024, (vm.dirs d).tables i ≠ 0 →
      vm'.tables ((vm.dirs d).tables i) = vm.tables ((vm.dirs d).tables i) :=
    fun d hd i hi hne => (htabs d hd i hi hne).1
  refine ⟨⟨⟨?_, ?_, ?_⟩, hen.trans h.enabled, h.nodup, fun d hd => (hdirs d hd).2, hk ▸ h.kernel,
    hc ▸ h.current, ?_, ?_⟩, fun d hm u => ?_⟩
  · intro d hm i hi hne
    rw [hd d hm] at hne ⊢
    exact (htabs d hm i hi hne).2
  · intro d₁ hd₁ d₂ hd₂ i hi j hj hne heq
    rw [hd d₁ hd₁] at hne
    rw [hd d₁ hd₁, hd d₂ hd₂] at heq
    exact h.ok.slot d₁ hd₁ d₂ hd₂ i hi j hj hne heq
  · intro d hm i hi hne
    rw [hd d hm] at hne ⊢
    rw [htab d hm i hi hne]
    exact h.ok.agree d hm i hi hne
  · intro d hm i hi hne
    simp only [hd d hm] at hne ⊢
    exact h.apart d hm i hi hne
  · intro d₁ hd₁ d₂ hd₂ i hi hne heq
    show d₁ = d₂ ∨ (vm'.dirs d₁).tables i = (vm'.dirs vm'.kernelPageDirectory).tables i
    simp only [hd d₁ hd₁, hd d₂ hd₂] at hne heq
    rw [hd d₁ hd₁, hk, hd _ h.kernel]
    exact h.own d₁ hd₁ d₂ hd₂ i hi hne heq
  · have ht : vm'.tableOf d u = vm.tableOf d u := by rw [tableOf, hd d hm, tableOf]
    rw [page, page, entryAt_eq, entryAt_eq, ht]
    by_cases h0 : vm.tableOf d u = 0
    · rw [if_pos h0, if_pos h0]
    · rw [if_neg h0, if_neg h0]
      have := htab d hm _ (pageDirectoryIndex_lt u) h0
      rw [← tableOf] at this
      rw [this]

end SpacesInv

end Ttos
