/-
  The kernel's half of the address spaces.

  Page tables are shared when an address space is created.  A kernel mapping that needs a
  new page table later gets it in the current directory only (`kernel_half_differs`); in
  runs without such mappings every address space sees the same kernel pages
  (`kernel_half_common`).
-/
import Ttos.Memory.AddressSpacesRun

namespace Ttos

open Vm AddressSpaces

variable {σ : Type*} [Allocator σ] {vm vm' vm₀ : Vm σ} {spaces : List ℕ}
  {d v va size stop p f r q : ℕ} {k w : Bool}

/-- An address in the kernel's half translates alike in every live address space. -/
def CommonKernelHalf (s : AddressSpaces σ) : Prop :=
  ∀ d ∈ s.spaces, ∀ v, vmmKernelSpaceBase ≤ v → v < 4294967296 →
    s.vm.pagingVirtualToPhysicalAddress d v
      = s.vm.pagingVirtualToPhysicalAddress s.vm.kernelPageDirectory v

/-- The directories have the kernel's page tables in the kernel's half. -/
def KernelTablesShared (s : AddressSpaces σ) : Prop :=
  ∀ d ∈ s.spaces, ∀ i, 768 ≤ i → i < 1024 →
    (s.vm.dirs d).tables i = (s.vm.dirs s.vm.kernelPageDirectory).tables i

omit [Allocator σ] in
theorem KernelTablesShared.common {s : AddressSpaces σ} (h : KernelTablesShared s) :
    CommonKernelHalf s := by
  intro d hd v hk hv
  have hi : 768 ≤ pageDirectoryIndex v := by
    rw [pageDirectoryIndex, u32_of_lt hv]
    simp only [vmmKernelSpaceBase] at hk
    omega
  have he : s.vm.entryAt d v = s.vm.entryAt s.vm.kernelPageDirectory v := by
    simp only [entryAt, h d hd _ hi (pageDirectoryIndex_lt v)]
  simp only [pagingVirtualToPhysicalAddress, he]

/-! ## When a kernel mapping needs no new page table -/

/-- `vmm_map_memory` from the page `va` up to `stop` finds the page tables of the kernel pages
    it comes to.  It comes to a page when all pages before it are unused. -/
structure KernelTablesReady (vm : Vm σ) (va stop : ℕ) : Prop where
  range : ∀ q, va ≤ q → q < stop → vmmKernelSpaceBase ≤ q → q < 4294967296 → q % 4096 = 0 →
    (∀ y, va ≤ y → y < q → y % 4096 = 0 →
      vm.pagingIsPageUsed vm.currentPageDirectory y = false) →
    vm.pagingIsPageUsed vm.currentPageDirectory q = true ∨
      vm.tableOf vm.currentPageDirectory q ≠ 0
  /-- Page 0, at the start or around the end, stands for the lowest free kernel page. -/
  null : (va = 0 ∨ 0xFFFFF000 < stop ∧ vmmKernelSpaceBase ≤ va ∧ ∀ y, va ≤ y → y < 4294967296 →
      y % 4096 = 0 → vm.pagingIsPageUsed vm.currentPageDirectory y = false) → 0 < stop →
    ∀ x, vmmKernelSpaceBase ≤ x → x < 4294967296 → x % 4096 = 0 → (va = 0 ∨ x < va) →
    vm.pagingIsPageUsed vm.currentPageDirectory x = false →
    (∀ y, vmmKernelSpaceBase ≤ y → y < x → y % 4096 = 0 →
      vm.pagingIsPageUsed vm.currentPageDirectory y = true) →
    vm.tableOf vm.currentPageDirectory x ≠ 0

/-- The condition on a step: a kernel mapping needs no new page table, or there is no other
    address space; a new directory is clean. -/
def KeepsKernelHalf (s : AddressSpaces σ) (op : VmmOp) : Prop :=
  s.Clean op ∧ ∀ v size p w, op = .map v size p true w → s.spaces = [s.vm.kernelPageDirectory] ∨
    ∀ a, s.vm.vmmPlace v size true = .ok a →
      KernelTablesReady s.vm (vmmAlignDown a) (u32 (vmmAlignDown a + size))

/-! ## The search for a free kernel page -/

omit [Allocator σ] in
/-- The search does not go past a free page. -/
theorem vmmFindFreeFrom_le {spaceEnd y a : ℕ} (hy : y < spaceEnd) (hs : spaceEnd < 4294967296)
    (hfree : vm.pagingIsPageUsed vm.currentPageDirectory y = false) (hya : y % 4096 = 0) :
    ∀ {fuel q : ℕ}, q ≤ y → q % 4096 = 0 →
      vm.vmmFindFreeFrom spaceEnd 4096 fuel q = .ok a → a ≤ y
  | 0, _, _, _, h => by cases h
  | fuel + 1, q, hq, hqa, h => by
    have hqs : q < spaceEnd := by omega
    unfold vmmFindFreeFrom at h
    rw [if_pos hqs] at h
    split at h
    · rename_i hu
      have hne : q ≠ y := by
        rintro rfl
        rw [hfree] at hu
        cases hu
      have hu : u32 (q + 4096) = q + 4096 := u32_of_lt (by omega)
      rw [hu] at h
      exact vmmFindFreeFrom_le hy hs hfree hya (by omega) (by omega) h
    · rename_i hu
      have hreg : vm.vmmRegionFree q spaceEnd 4096 vmmFuel 0 = some true := by
        have h1 : ¬ spaceEnd ≤ u32 (q + 0) := by
          rw [Nat.add_zero, u32_of_lt (by omega)]
          omega
        have h2 : ¬ vm.pagingIsPageUsed vm.currentPageDirectory (u32 (q + 0)) = true := by
          rw [Nat.add_zero, u32_of_lt (by omega)]
          exact hu
        rw [vmmRegionFree, if_pos (by decide), if_neg h1, if_neg h2, vmmRegionFree, if_neg (by decide)]
      rw [hreg] at h
      cases h
      exact hq

omit [Allocator σ] in
/-- What the search finds is an unused page. -/
theorem vmmFindFreeFrom_unused {spaceEnd n a : ℕ} : ∀ {fuel q : ℕ}, q % 4096 = 0 →
    vm.vmmFindFreeFrom spaceEnd n fuel q = .ok a →
    a % 4096 = 0 ∧ (a ≠ 0 → vm.pagingIsPageUsed vm.currentPageDirectory a = false)
  | 0, _, _, h => by cases h
  | fuel + 1, q, hqa, h => by
    have hnext : u32 (q + 4096) % 4096 = 0 := by unfold u32; omega
    unfold vmmFindFreeFrom at h
    split at h
    · split at h
      · exact vmmFindFreeFrom_unused hnext h
      · rename_i hu
        split at h
        · cases h
        · cases h
          exact ⟨hqa, fun _ => by simpa using hu⟩
        · exact vmmFindFreeFrom_unused hnext h
    · cases h
      exact ⟨rfl, fun h => absurd rfl h⟩

omit [Allocator σ] in
/-- **The page found for page 0** is the lowest free page of the kernel's half. -/
theorem vmmPlace_null {x : ℕ} (h : vm.vmmPlace 0 4096 true = .ok x) (hx : vmmKernelSpaceBase ≤ x) :
    x < 4294967296 ∧ x % 4096 = 0 ∧ vm.pagingIsPageUsed vm.currentPageDirectory x = false ∧
      ∀ y, vmmKernelSpaceBase ≤ y → y < x → y % 4096 = 0 →
        vm.pagingIsPageUsed vm.currentPageDirectory y = true := by
  have hlt := (vmmPlace_spec h).2.2 (by decide)
  unfold vmmPlace at h
  rw [if_neg (by simp)] at h
  have hf : vm.vmmFindFreeMemory 4096 true = .ok x := by
    split at h
    · cases h
    · rename_i a ha
      split at h
      · cases h
      · cases h
        exact ha
  unfold vmmFindFreeMemory at hf
  obtain ⟨h1, h2⟩ := vmmFindFreeFrom_unused (by decide) hf
  refine ⟨hlt, h1, h2 (by simp only [vmmKernelSpaceBase] at hx; omega), fun y hy hyx hya => ?_⟩
  by_contra hu
  have hle := vmmFindFreeFrom_le (y := y) (by
    show y < u32 (3221225472 + 1073741823)
    rw [u32_of_lt (by omega)]
    omega) (u32_lt _) (by simpa using hu) hya hy (by decide) hf
  omega

/-! ## Mapping and unmapping keep the sharing -/

/-- What the proofs about a call carry along: the invariant and the sharing. -/
def Shared (spaces : List ℕ) (vm : Vm σ) : Prop :=
  SpacesInv ⟨vm, spaces⟩ ∧ KernelTablesShared ⟨vm, spaces⟩

theorem Shared.vmmUnmapPage (h : Shared spaces vm) (v : ℕ) : Shared spaces (vm.vmmUnmapPage v) := by
  refine ⟨h.1.vmmUnmapPage v, ?_⟩
  obtain ⟨ts, hts⟩ := (vmmUnmapPage_spec h.1.ok h.1.current v).tables
  rw [hts]
  exact h.2

/-- A page that is mapped leaves the page tables of the kernel's half alone, if it is no
    kernel page or its table exists. -/
theorem Shared.mapped (h : Shared spaces vm) (hv : v < 4294967296)
    (hm : PageMapped spaces v k w vm vm')
    (ht : vmmKernelSpaceBase ≤ v → vm.tableOf vm.currentPageDirectory v ≠ 0) :
    Shared spaces vm' ∧ ∀ d i, 768 ≤ i → (vm'.dirs d).tables i = (vm.dirs d).tables i := by
  have hsame : ∀ d i, 768 ≤ i → (vm'.dirs d).tables i = (vm.dirs d).tables i := by
    intro d i hi
    by_contra hne
    obtain ⟨rfl, rfl, h0, -⟩ := hm.linked.tables d i hne
    rw [pageDirectoryIndex, u32_of_lt hv] at hi
    exact ht (by simp only [vmmKernelSpaceBase]; omega) h0
  refine ⟨⟨h.1.grown h.1.current hm.ok hm.linked.grown, fun d hd i hi hlt => ?_⟩, hsame⟩
  show (vm'.dirs d).tables i = (vm'.dirs vm'.kernelPageDirectory).tables i
  rw [hsame d i hi, hm.linked.statics.kernel, hsame _ i hi]
  exact h.2 d hd i hi hlt

/-- A call for user pages needs no page table in the kernel's half. -/
theorem Shared.vmmMapPage_user (h : Shared spaces vm) (hq : q < 4294967296)
    (hm : vm.vmmMapPage q p false w = .ok (r, vm')) : Shared spaces vm' := by
  rcases vmmMapPage_cases h.1.ok h.1.current hm with ⟨-, rfl, -⟩ | ⟨-, hp, -, hpm⟩
  · exact h
  · refine (h.mapped ((vmmPlace_spec hp).2.2 hq) hpm fun hk => ?_).1
    exact Bool.noConfusion (hpm.side.2 hk)

/-- A kernel mapping that comes to a page below the kernel's half ends there. -/
theorem Shared.vmmMapLoop_low (h : Shared spaces vm) (hva : va < 4294967296) (hq : q ≠ 0)
    (hlow : q < vmmKernelSpaceBase) {fuel : ℕ}
    (hm : vmmMapLoop va stop true w fuel vm q f = .ok (r, vm')) : Shared spaces vm' := by
  have hql : q < 4294967296 := hlow.trans (by decide)
  cases fuel with
  | zero => cases hm
  | succ fuel =>
    unfold vmmMapLoop at hm
    split at hm
    · cases hp : vm.vmmMapPage q f true w with
      | error e => rw [hp] at hm; cases hm
      | ok res =>
        obtain ⟨a, vm₁⟩ := res
        rw [hp] at hm
        have ha : a = 0 := by
          by_contra ha
          have := (vmmMapPage_side hp ha hq).2.1 rfl
          omega
        subst ha
        rcases vmmMapPage_cases h.1.ok h.1.current hp with ⟨-, rfl, -⟩ | ⟨h0, -⟩
        · simp only [if_true] at hm
          obtain ⟨vm₂, hl, heq⟩ := exists_of_map_ok hm
          cases heq
          exact vmmUnmapLoop_invariant (P := Shared spaces) (fun x q _ _ hx => hx.vmmUnmapPage q) hva h hl
        · exact absurd rfl h0
    · cases hm
      exact h

/-- Page 0: the kernel page that is found for it has its table. -/
theorem Shared.vmmMapLoop_null (h : Shared spaces vm) (hva : va < 4294967296)
    (hx : ∀ x, vm.vmmPlace 0 4096 true = .ok x → vmmKernelSpaceBase ≤ x →
      vm.tableOf vm.currentPageDirectory x ≠ 0) {fuel : ℕ}
    (hm : vmmMapLoop va stop true w fuel vm 0 f = .ok (r, vm')) : Shared spaces vm' := by
  cases fuel with
  | zero => cases hm
  | succ fuel =>
    unfold vmmMapLoop at hm
    split at hm
    · cases hp : vm.vmmMapPage 0 f true w with
      | error e => rw [hp] at hm; cases hm
      | ok res =>
        obtain ⟨a, vm₁⟩ := res
        rw [hp] at hm
        rcases vmmMapPage_cases h.1.ok h.1.current hp with ⟨-, -, h0, -⟩ | ⟨h0, hpl, -, hpm⟩
        · exact absurd rfl h0
        · simp only [h0, if_false] at hm
          have h1 := (h.mapped ((vmmPlace_spec hpl).2.2 (by decide)) hpm (hx a hpl)).1
          rw [u32_of_lt (by decide)] at hm
          exact h1.vmmMapLoop_low hva (by decide) (by decide) hm
    · cases hm
      exact h

/-! ## Kernel mappings that need no new page table -/

/-- The loop of a kernel mapping started in `vm₀` and has come to page `a`: the pages from
    `va` on were unused and are mapped now, and the page tables are as they were. -/
structure Progress (spaces : List ℕ) (vm₀ : Vm σ) (va a : ℕ) (vm : Vm σ) : Prop where
  shared : Shared spaces vm
  current : vm.currentPageDirectory = vm₀.currentPageDirectory
  tables : ∀ d i, 768 ≤ i → (vm.dirs d).tables i = (vm₀.dirs d).tables i
  page : ∀ u, vm.page vm₀.currentPageDirectory u = none ↔
    vm₀.page vm₀.currentPageDirectory u = none ∧ ¬ (va ≤ 4096 * pageNumber u ∧ pageNumber u < a)
  unused : ∀ y, va ≤ y → y < 4096 * a → y % 4096 = 0 →
    vm₀.pagingIsPageUsed vm₀.currentPageDirectory y = false

namespace Progress

variable {a : ℕ}

theorem start (h : Shared spaces vm₀) : Progress spaces vm₀ (4096 * a) a vm₀ :=
  ⟨h, rfl, fun _ _ _ => rfl, fun u => ⟨fun hu => ⟨hu, fun hc => by omega⟩, And.left⟩,
    fun y _ _ _ => by omega⟩

theorem tableOf_eq (h : Progress spaces vm₀ va a vm) (hv : vmmKernelSpaceBase ≤ v)
    (hlt : v < 4294967296) :
    vm.tableOf vm.currentPageDirectory v = vm₀.tableOf vm₀.currentPageDirectory v := by
  rw [h.current]
  refine h.tables _ _ ?_
  rw [pageDirectoryIndex, u32_of_lt hlt]
  simp only [vmmKernelSpaceBase] at hv
  omega

/-- A page the loop maps had its table before. -/
theorem next (h₀ : SpacesInv ⟨vm₀, spaces⟩) (h : Progress spaces vm₀ va a vm)
    (hr : KernelTablesReady vm₀ va stop) (hva : va ≤ 4096 * a) (hlt : a < 1048576)
    (hs : 4096 * a < stop) (hn : vm.page vm.currentPageDirectory (4096 * a) = none)
    (hm : PageMapped spaces (4096 * a) true w vm vm') : Progress spaces vm₀ va (a + 1) vm' := by
  have hk : vmmKernelSpaceBase ≤ 4096 * a := hm.side.1 rfl
  have hpa : pageNumber (4096 * a) = a := pageNumber_page hlt
  rw [h.current] at hn
  have hn₀ := ((h.page _).1 hn).1
  have hu₀ : vm₀.pagingIsPageUsed vm₀.currentPageDirectory (4096 * a) = false :=
    (isPageUsed_false h₀.ok h₀.current).2 hn₀
  have ht₀ := (hr.range (4096 * a) hva hs hk (by omega) (by omega) h.unused).resolve_left
    (by rw [hu₀]; simp)
  obtain ⟨hsh, htab⟩ := h.shared.mapped (by omega) hm fun _ => by
    rwa [h.tableOf_eq hk (by omega)]
  obtain ⟨e, f, hpg⟩ := hm.page
  refine ⟨hsh, hm.linked.statics.current.trans h.current,
    fun d i hi => (htab d i hi).trans (h.tables d i hi), fun u => ?_, fun y hy hya hyal => ?_⟩
  · have hpu := hpg vm₀.currentPageDirectory (h.current ▸ h.shared.1.current) u
    rw [hpa, h.current] at hpu
    rw [hpu]
    by_cases hu : pageNumber u = a
    · rw [if_pos ⟨rfl, hu⟩]
      constructor
      · intro hc
        cases hc
      · rintro ⟨-, hc⟩
        exact absurd ⟨by omega, by omega⟩ hc
    · rw [if_neg (fun hc => hu hc.2), h.page]
      refine and_congr_right' (not_congr ⟨?_, ?_⟩) <;> rintro ⟨h1, h2⟩ <;> exact ⟨h1, by omega⟩
  · by_cases hyq : y < 4096 * a
    · exact h.unused y hy hyq hyal
    · obtain rfl : y = 4096 * a := by omega
      exact hu₀

/-- Around the end of the address space, the page found for page 0 has its table. -/
theorem null_ready (h₀ : SpacesInv ⟨vm₀, spaces⟩) (h : Progress spaces vm₀ va 1048576 vm)
    (hr : KernelTablesReady vm₀ va stop) (hs : 0xFFFFF000 < stop) (hva : vmmKernelSpaceBase ≤ va) {x : ℕ}
    (hp : vm.vmmPlace 0 4096 true = .ok x) (hx : vmmKernelSpaceBase ≤ x) :
    vm.tableOf vm.currentPageDirectory x ≠ 0 := by
  obtain ⟨hlt, hal, hu, hlow⟩ := vmmPlace_null hp hx
  have hused : ∀ {y}, vm.pagingIsPageUsed vm.currentPageDirectory y = false ↔
      vm.page vm₀.currentPageDirectory y = none := by
    intro y
    rw [isPageUsed_false h.shared.1.ok h.shared.1.current, h.current]
  have hpn : ∀ {y}, y < 4294967296 → pageNumber y = y / 4096 := fun hy => by
    rw [pageNumber, u32_of_lt hy]
  obtain ⟨hx₀, hxva⟩ := (h.page x).1 (hused.1 hu)
  rw [hpn hlt] at hxva
  rw [h.tableOf_eq hx hlt]
  refine hr.null (Or.inr ⟨hs, hva, fun y hy hy' hal => h.unused y hy (by omega) hal⟩) (by omega) x hx hlt
    hal (Or.inr (by omega)) ((isPageUsed_false h₀.ok h₀.current).2 hx₀) fun y hy hyx hya => ?_
  -- a lower page is used now, so it was used before: the loop maps no page below `va`
  by_contra hc
  have hy₀ := (isPageUsed_false h₀.ok h₀.current).1 (Bool.eq_false_iff.2 hc)
  have hy₁ : vm.page vm₀.currentPageDirectory y = none :=
    (h.page y).2 ⟨hy₀, fun hc => by rw [hpn (by omega)] at hc; omega⟩
  have := hlow y hy hyx hya
  rw [hused.2 hy₁] at this
  cases this

theorem loop (h₀ : SpacesInv ⟨vm₀, spaces⟩) (hr : KernelTablesReady vm₀ va stop)
    (hval : va < 4294967296) : ∀ {fuel : ℕ} {vm vm' : Vm σ} {a f r : ℕ}, a ≠ 0 → a < 1048576 →
      va ≤ 4096 * a → (4096 * a = va ∨ vmmKernelSpaceBase ≤ va) → Progress spaces vm₀ va a vm →
      vmmMapLoop va stop true w fuel vm (4096 * a) f = .ok (r, vm') → Shared spaces vm'
  | 0, _, _, _, _, _, _, _, _, _, _, h => by cases h
  | fuel + 1, vm, vm', a, f, r, ha, hlt, hva, hk, hp, hm => by
    unfold vmmMapLoop at hm
    split at hm
    · rename_i hs
      cases hpg : vm.vmmMapPage (4096 * a) f true w with
      | error e => rw [hpg] at hm; cases hm
      | ok res =>
        obtain ⟨b, vm₁⟩ := res
        rw [hpg] at hm
        rcases vmmMapPage_cases hp.shared.1.ok hp.shared.1.current hpg with
          ⟨rfl, rfl, -⟩ | ⟨hb, -, hbv, hpm⟩
        · simp only [if_true] at hm
          obtain ⟨vm₂, hl, heq⟩ := exists_of_map_ok hm
          cases heq
          exact vmmUnmapLoop_invariant (P := Shared spaces) (fun x q _ _ hx => hx.vmmUnmapPage q) hval
            hp.shared hl
        · simp only [hb, if_false] at hm
          obtain ⟨rfl, hn⟩ := hbv (by omega)
          have hbase : vmmKernelSpaceBase ≤ 4096 * a := hpm.side.1 rfl
          have hk' : vmmKernelSpaceBase ≤ va := hk.elim (fun h => h ▸ hbase) id
          have hnext := hp.next h₀ hr hva hlt hs hn hpm
          by_cases hw : a + 1 = 1048576
          · have hz : u32 (4096 * a + 4096) = 0 := by unfold u32; omega
            rw [hz] at hm
            rw [hw] at hnext
            exact hnext.shared.vmmMapLoop_null hval
              (fun x hx hkx => hnext.null_ready h₀ hr (by omega) hk' hx hkx) hm
          · have hz : u32 (4096 * a + 4096) = 4096 * (a + 1) := by unfold u32; omega
            rw [hz] at hm
            exact loop h₀ hr hval (by omega) (by omega) (by omega) (Or.inr hk') hnext hm
    · cases hm
      exact hp.shared

end Progress

/-- **A kernel mapping that needs no new page table** keeps the sharing. -/
theorem Shared.vmmMapMemory_kernel (h : Shared spaces vm) (hv : v < 4294967296)
    (hr : ∀ a, vm.vmmPlace v size true = .ok a →
      KernelTablesReady vm (vmmAlignDown a) (u32 (vmmAlignDown a + size)))
    (hm : vm.vmmMapMemory v size p true w = .ok (r, vm')) : Shared spaces vm' := by
  unfold vmmMapMemory at hm
  cases hp : vm.vmmPlace v size true with
  | error e => rw [hp] at hm; cases hm
  | ok a =>
    rw [hp] at hm
    have ha := (vmmPlace_spec hp).2.2 hv
    have hready := hr a hp
    have hva : vmmAlignDown a = 4096 * (a / 4096) := Nat.mul_comm ..
    simp only at hm
    rw [hva] at hm hready
    by_cases h0 : a / 4096 = 0
    · -- the address lies in page 0
      rw [h0, Nat.mul_zero] at hm hready
      by_cases hs : 0 < u32 (0 + size)
      · refine h.vmmMapLoop_null (by decide) (fun x hx hkx => ?_) hm
        obtain ⟨hlt, hal, hu, hlow⟩ := vmmPlace_null hx hkx
        exact hready.null (Or.inl rfl) hs x hkx hlt hal (Or.inl rfl) hu hlow
      · rw [vmmFuel, vmmMapLoop, if_neg hs] at hm
        cases hm
        exact h
    · exact Progress.loop h.1 hready (by omega) h0 (by omega) le_rfl (Or.inl rfl) (.start h) hm

/-! ## Runs -/

omit [Allocator σ] in
/-- With the kernel's address space alone there is nothing to share. -/
theorem KernelTablesShared.alone {s : AddressSpaces σ} (h : s.spaces = [s.vm.kernelPageDirectory]) :
    KernelTablesShared s := by
  intro d hd i _ _
  rw [h] at hd
  rw [List.mem_singleton.1 hd]

/-- **Every step that meets the condition keeps the sharing.** -/
theorem KernelTablesShared.step {s s' : AddressSpaces σ} {op : VmmOp} (h : KernelTablesShared s)
    (hi : SpacesInv s) (hc : KeepsKernelHalf s op) (hs : s.Step op s') : KernelTablesShared s' := by
  have hi' := hi.step hc.1 hs
  obtain ⟨vm, spaces⟩ := s
  obtain ⟨vm', spaces'⟩ := s'
  cases op with
  | map v size p k w =>
    obtain ⟨⟨hv, -⟩, hsp, r, hm⟩ := hs
    simp only at hsp hm
    subst hsp
    cases k with
    | false =>
      refine (vmmMapMemory_invariant (P := Shared spaces') hv ?_ ?_ ⟨hi, h⟩ hm).2
      · exact fun x q f r x' hq hx hp => hx.vmmMapPage_user hq hp
      · exact fun x q _ hx => hx.vmmUnmapPage q
    | true =>
      rcases hc.2 v size p w rfl with halone | hready
      · refine .alone ?_
        -- the kernel's directory is still the only one
        have hk := hi'.kernel
        simp only at halone hk ⊢
        rw [halone, List.mem_singleton] at hk
        rw [halone, hk]
      · exact (Shared.vmmMapMemory_kernel ⟨hi, h⟩ hv hready hm).2
  | unmap v size =>
    obtain ⟨⟨hv, -⟩, hsp, hu⟩ := hs
    simp only at hsp hu
    subst hsp
    obtain ⟨ts, rfl⟩ := (hi.vmmUnmapMemory hv hu).2.1
    exact h
  | create =>
    obtain ⟨d, hcr, hsp⟩ := hs
    simp only at hsp hcr
    subst hsp
    obtain ⟨-, -, hst, hold, hnew, -⟩ := hi.vmmCreateAddressSpace (hc.1 rfl) hcr
    intro d' hd' i h1 h2
    show (vm'.dirs d').tables i = (vm'.dirs vm'.kernelPageDirectory).tables i
    rw [hst.kernel, hold _ hi.kernel]
    rcases List.mem_cons.1 hd' with rfl | hd'
    · exact hnew i h2
    · rw [hold d' hd']
      exact h d' hd' i h1 h2
  | switch d =>
    obtain ⟨-, heq⟩ := hs
    cases heq
    exact h
  | destroy d =>
    obtain ⟨hd, hk, hsp, hde⟩ := hs
    simp only at hsp hde hd hk
    subst hsp
    obtain ⟨-, hker, -, hdirs, -⟩ := hi.vmmDestroyAddressSpace hd hk hde
    intro d' hd' i h1 h2
    show (vm'.dirs d').tables i = (vm'.dirs vm'.kernelPageDirectory).tables i
    rw [hker, hdirs]
    exact h d' (List.mem_of_mem_erase hd') i h1 h2
  | other =>
    obtain ⟨hsp, he⟩ := hs
    simp only at hsp he
    subst hsp
    intro d' hd' i h1 h2
    show (vm'.dirs d').tables i = (vm'.dirs vm'.kernelPageDirectory).tables i
    rw [(he.dirs d' hd').1, he.kernel, (he.dirs _ hi.kernel).1]
    exact h d' hd' i h1 h2

/-- **The kernel's half is common** to all live address spaces in every run in which kernel
    mappings need no new page table once there is a second address space, and new directories
    are clean. -/
theorem kernel_half_common {s : AddressSpaces KernelHeap}
    (hr : (addressSpaceSystem Boots KeepsKernelHalf).Reachable s) : CommonKernelHalf s := by
  have hinv : SpacesInv s ∧ KernelTablesShared s := by
    refine hr.invariant (P := fun s => SpacesInv s ∧ KernelTablesShared s) (fun s h => ?_) ?_
    · obtain ⟨hi, hsp, -⟩ := Boots.inv h
      exact ⟨hi, .alone hsp⟩
    · rintro s op s' - ⟨hi, hs⟩ ⟨hc, hst⟩
      exact ⟨hi.step hc.1 hst, hs.step hi hc hst⟩
  exact hinv.2.common

/-- In a new address space the kernel page behind the image is mapped, in a page table that is
    there. -/
def kernelPageRun : Except Stop ((Vm KernelHeap × ℕ × Vm KernelHeap) × Vm KernelHeap) :=
  bootCreate.bind fun r =>
    ((r.2.2.vmmSwitchAddressSpace r.2.1).vmmMapMemory 0xC0300000 4096 0x200000 true true).map
      fun r' => (r, r'.2)

/-- What is checked of this run. -/
def kernelPageChecks (r : (Vm KernelHeap × ℕ × Vm KernelHeap) × Vm KernelHeap) : Bool :=
  bootClean r.1.1 && (r.1.2.2.vmmSwitchAddressSpace r.1.2.1).tableOf r.1.2.1 0xC0300000 != 0 &&
    r.1.2.1 != r.2.kernelPageDirectory &&
    r.2.pagingVirtualToPhysicalAddress r.1.2.1 0xC0300123 == 0x200123

theorem kernelPageRun_reachable {a : ℕ} {vm vm₁ vm₂ : Vm KernelHeap}
    (h : kernelPageRun = .ok ((vm, a, vm₁), vm₂)) (hclean : bootClean vm = true)
    (htable : (vm₁.vmmSwitchAddressSpace a).tableOf a 0xC0300000 ≠ 0) :
    (addressSpaceSystem Boots KeepsKernelHalf).Reachable ⟨vm₂, [a, vm.kernelPageDirectory]⟩ := by
  obtain ⟨r, hcreate, h⟩ := exists_of_bind_ok h
  obtain ⟨⟨b, vm₂'⟩, hmap, h⟩ := exists_of_map_ok h
  obtain ⟨rfl, rfl⟩ := Prod.mk.inj h
  have hr : (addressSpaceSystem Boots KeepsKernelHalf).Reachable
      ⟨vm₁.vmmSwitchAddressSpace a, [a, vm.kernelPageDirectory]⟩ :=
    bootCreate_reachable hcreate (fun _ hs => hs)
      ⟨fun _ => bootClean_iff.1 hclean, fun _ _ _ _ hop => by cases hop⟩
      ⟨(by cases ·), fun _ _ _ _ hop => by cases hop⟩
  have hstep : (addressSpaceSystem Boots KeepsKernelHalf).step
      ⟨vm₁.vmmSwitchAddressSpace a, [a, vm.kernelPageDirectory]⟩
      (.map 0xC0300000 4096 0x200000 true true) ⟨vm₂', [a, vm.kernelPageDirectory]⟩ := by
    refine ⟨⟨(by cases ·), fun v size p w hop => Or.inr fun x hx => ?_⟩,
      ⟨by decide, by decide, by decide⟩, rfl, b, hmap⟩
    cases hop
    obtain rfl : 0xC0300000 = x := Except.ok.inj hx
    refine ⟨fun q hq hlt _ _ hpage _ => Or.inr ?_, fun hnull => ?_⟩
    · -- there is one page
      have hstop : u32 (vmmAlignDown 0xC0300000 + 4096) = 0xC0301000 := by decide
      have hstart : vmmAlignDown 0xC0300000 = 0xC0300000 := by decide
      obtain rfl : q = 0xC0300000 := by omega
      exact htable
    · rcases hnull with h0 | ⟨hend, -⟩
      · exact absurd h0 (by decide)
      · exact absurd hend (by decide)
  exact hr.step hstep

/-- A kernel page that is mapped in a new address space is there in the kernel's own. -/
theorem kernel_half_common_page : ∃ s : AddressSpaces KernelHeap, ∃ a ∈ s.spaces,
    a ≠ s.vm.kernelPageDirectory ∧
    s.vm.pagingVirtualToPhysicalAddress a 0xC0300123 = 0x200123 ∧
    s.vm.pagingVirtualToPhysicalAddress s.vm.kernelPageDirectory 0xC0300123 = 0x200123 := by
  obtain ⟨⟨⟨vm, a, vm₁⟩, vm₂⟩, hrun, hc⟩ := exists_of_check (x := kernelPageRun)
    (P := kernelPageChecks) (by decide +kernel)
  simp only [kernelPageChecks, Bool.and_eq_true, bne_iff_ne, beq_iff_eq] at hc
  obtain ⟨⟨⟨hclean, htable⟩, hne⟩, hphysical⟩ := hc
  have hcommon := kernel_half_common (kernelPageRun_reachable hrun hclean htable)
  have hsame := hcommon a (List.mem_cons_self ..) 0xC0300123 (by decide) (by decide)
  exact ⟨_, a, List.mem_cons_self .., hne, hphysical, hsame.symm.trans hphysical⟩

/-- After `vmm_init`: create an address space, switch to it, and map a kernel page at
    `0xD0000000`, where the kernel's directory has no page table. -/
def kernelMapRun : Except Stop (ℕ × Vm KernelHeap) :=
  bootInit.bind fun vm => vm.vmmCreateAddressSpace.bind fun r =>
    ((r.2.vmmSwitchAddressSpace r.1).vmmMapMemory 0xD0000000 4096 0x200000 true true).map fun r' =>
      (r.1, r'.2)

theorem kernelMapRun_reachable {d : ℕ} {vm' : Vm KernelHeap} (h : kernelMapRun = .ok (d, vm')) :
    ∃ K, (addressSpaceSystem Boots fun _ _ => True).Reachable ⟨vm', [d, K]⟩ := by
  unfold kernelMapRun at h
  obtain ⟨vm, h1, h⟩ := exists_of_bind_ok h
  obtain ⟨⟨a, vm₁⟩, h2, h⟩ := exists_of_bind_ok h
  obtain ⟨⟨b, vm₂⟩, h3, h⟩ := exists_of_map_ok h
  obtain ⟨rfl, rfl⟩ := Prod.mk.inj h
  have r0 : (addressSpaceSystem Boots fun _ _ => True).Reachable ⟨vm, [vm.kernelPageDirectory]⟩ :=
    .init (.init (by decide) h1)
  have s1 : (addressSpaceSystem Boots fun _ _ => True).step ⟨vm, [vm.kernelPageDirectory]⟩ .create
      ⟨vm₁, [a, vm.kernelPageDirectory]⟩ := ⟨trivial, a, h2, rfl⟩
  have s2 : (addressSpaceSystem Boots fun _ _ => True).step ⟨vm₁, [a, vm.kernelPageDirectory]⟩
      (.switch a) ⟨vm₁.vmmSwitchAddressSpace a, [a, vm.kernelPageDirectory]⟩ :=
    ⟨trivial, List.mem_cons_self .., rfl⟩
  have s3 : (addressSpaceSystem Boots fun _ _ => True).step
      ⟨vm₁.vmmSwitchAddressSpace a, [a, vm.kernelPageDirectory]⟩
      (.map 0xD0000000 4096 0x200000 true true) ⟨vm₂, [a, vm.kernelPageDirectory]⟩ :=
    ⟨trivial, ⟨by decide, by decide, by decide⟩, rfl, b, h3⟩
  exact ⟨_, ((r0.step s1).step s2).step s3⟩

/-- **The halves can differ**: the page is there in the new address space only. -/
theorem kernel_half_differs : ∃ s : AddressSpaces KernelHeap,
    (addressSpaceSystem Boots fun _ _ => True).Reachable s ∧ ¬ CommonKernelHalf s := by
  obtain ⟨⟨d, vm⟩, hr, hne⟩ := exists_of_check (x := kernelMapRun)
    (P := fun r => r.2.pagingVirtualToPhysicalAddress r.1 0xD0000000
      != r.2.pagingVirtualToPhysicalAddress r.2.kernelPageDirectory 0xD0000000) (by decide +kernel)
  obtain ⟨K, hreach⟩ := kernelMapRun_reachable hr
  refine ⟨_, hreach, fun hc => ?_⟩
  have := hc d (List.mem_cons_self ..) 0xD0000000 (by decide) (by decide)
  exact absurd this (by simpa using hne)

end Ttos
