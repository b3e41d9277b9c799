/-
  Physical memory seen through pages that `vmm_map_memory` chose.

  * `Vm.Window`: from an address on, the pages show the physical memory from another on.
  * `vmmMapMemory_window`: a successful call for kernel memory makes one, and maps pages that
    were not in use.
  * `vmmMapMemory_side`: the pages are the kernel's.
  * `Window.congr`: what leaves the pages as they are keeps it.
-/
import Ttos.Memory.PageFrames
import Ttos.Memory.VmmSearch

namespace Ttos

namespace Vm

variable {σ : Type*}

/-- The pages from `base` on show the physical memory from `physical` on, as far as `size`
    bytes need pages from a page boundary on. -/
def Window (vm : Vm σ) (base size physical : ℕ) : Prop :=
  ∀ o, physical + o < 4294967296 → physical % 4096 + o < 4096 * pageCount size →
    ∃ e, vm.page vm.currentPageDirectory (base + physical % 4096 + o) = some e ∧
      vm.vmmGetPhysicalAddress (base + physical % 4096 + o) = physical + o

variable {vm vm' : Vm σ} {base size physical : ℕ}

/-- The current directory's pages are the same. -/
theorem Window.congr (h : Window vm base size physical) (hp : vm.pagingEnabled = true)
    (hp' : vm'.pagingEnabled = true)
    (hpage : ∀ u, vm.page vm.currentPageDirectory u ≠ none →
      vm'.page vm'.currentPageDirectory u = vm.page vm.currentPageDirectory u) :
    Window vm' base size physical := by
  intro o h1 h2
  obtain ⟨e, he, haddr⟩ := h o h1 h2
  have he' : vm'.page vm'.currentPageDirectory (base + physical % 4096 + o) = some e := by
    rw [hpage _ (by rw [he]; exact Option.some_ne_none e), he]
  refine ⟨e, he', ?_⟩
  rw [physical_eq hp' he', ← haddr, physical_eq hp he]

variable [Allocator σ] {ds : List ℕ} {k w : Bool}

/-- A call that places the pages itself is the call with the place it found. -/
theorem vmmMapMemory_null {r : ℕ} (h : vm.vmmMapMemory 0 size physical k w = .ok (r, vm'))
    (hs : size < 4294967296) : ∃ a, a % 4096 = 0 ∧ a ≠ 0 ∧ a < 4294967296 ∧
      vm.vmmMapMemory a size physical k w = .ok (r, vm') := by
  rw [vmmMapMemory] at h
  cases hp : vm.vmmPlace 0 size k with
  | error e =>
    rw [hp] at h
    cases h
  | ok a =>
    rw [hp] at h
    obtain ⟨h1, h2, h3, -⟩ := vmmPlace_found hs hp
    refine ⟨a, h1, by omega, h3, ?_⟩
    rw [vmmMapMemory, vmmPlace, if_pos (by omega)]
    exact h

/-- **A window is made**: the call maps pages that were not in use, and they show the frames
    that were given. -/
theorem vmmMapMemory_window (h : TablesOk vm ds) (hc : vm.currentPageDirectory ∈ ds)
    (hen : vm.pagingEnabled = true) (hs : size < 4294967296)
    (hm : vm.vmmMapMemory 0 size physical k w = .ok (base, vm')) (hb : base ≠ 0)
    (hend : base + size < 4294967296) :
    vm.vmmMapMemory base size physical k w = .ok (base, vm') ∧
      RangeMapped ds (base / 4096) (pageCount size) vm vm' ∧
      (physical ≠ 0 → Window vm' base size physical) := by
  obtain ⟨a, ha, ha0, halt, hm⟩ := vmmMapMemory_null hm hs
  have hresult : base = vmmAlignDown a := by
    have hm' := hm
    rw [vmmMapMemory, vmmPlace, if_pos ha0] at hm'
    exact (vmmMapLoop_result hm').resolve_left hb
  obtain rfl : base = a := by
    rw [hresult, vmmAlignDown]
    omega
  obtain ⟨-, hrange⟩ := vmmMapMemory_success h hc ha0 (hresult ▸ hend) hm hb
  refine ⟨hm, hrange, fun hp o h1 h2 => ?_⟩
  have hcur : vm'.currentPageDirectory = vm.currentPageDirectory := hrange.grown.statics.current
  have hen' : vm'.pagingEnabled = true := by rw [hrange.grown.statics.enabled, hen]
  -- the page of the byte, counted from the first one
  obtain ⟨i, hi⟩ : ∃ i, i = (physical % 4096 + o) / 4096 := ⟨_, rfl⟩
  have hcount : 4096 * i < size := by
    unfold pageCount at h2
    omega
  have hloop : vmmMapLoop base (base + size) k w vmmFuel vm (4096 * (base / 4096)) physical =
      .ok (base, vm') := by
    rw [show 4096 * (base / 4096) = base by omega]
    rw [vmmMapMemory, vmmPlace, if_pos ha0] at hm
    dsimp only at hm
    rwa [← hresult, u32_of_lt hend] at hm
  obtain ⟨e, he, hframe⟩ := vmmMapLoop_given hend hb h hc (by omega) hp
    (by omega : 4096 * (base / 4096 + i) < base + size) (by omega) hloop
  have hnumber : pageNumber (base + physical % 4096 + o) = pageNumber (4096 * (base / 4096 + i)) := by
    rw [pageNumber, pageNumber, u32_of_lt (by omega), u32_of_lt (by omega)]
    omega
  have he' : vm'.page vm'.currentPageDirectory (base + physical % 4096 + o) = some e := by
    rw [hcur, page_congr hnumber, he]
  refine ⟨e, he', ?_⟩
  rw [physical_eq hen' he', hframe, pageOffset, u32_of_lt (by omega)]
  omega

/-- A range that is mapped for the kernel lies in its half of the address space. -/
theorem vmmMapMemory_side (h : TablesOk vm ds) (hc : vm.currentPageDirectory ∈ ds)
    (h0 : 0 < size) (hb : base ≠ 0) (hend : base + size < 4294967296)
    (hm : vm.vmmMapMemory base size physical true w = .ok (base, vm')) :
    vmmKernelSpaceBase ≤ base := by
  rw [vmmMapMemory, vmmPlace, if_pos hb] at hm
  dsimp only at hm
  have hal : base = vmmAlignDown base := (vmmMapLoop_result hm).resolve_left hb
  rw [← hal, u32_of_lt hend, show vmmFuel = 0x10000f + 1 from rfl, vmmMapLoop,
    if_pos (by omega)] at hm
  cases hp : vm.vmmMapPage base physical true w with
  | error e =>
    rw [hp] at hm
    cases hm
  | ok q =>
    obtain ⟨r, vm₁⟩ := q
    rw [hp] at hm
    dsimp only at hm
    rcases vmmMapPage_cases h hc hp with ⟨rfl, -, -, -⟩ | ⟨-, -, hv, hmapped⟩
    · rw [if_pos rfl] at hm
      obtain ⟨_, _, hres⟩ := exists_of_map_ok hm
      exact absurd (Prod.mk.inj hres).1.symm hb
    · rw [← (hv hb).1]
      exact hmapped.side.1 rfl

end Vm

end Ttos
