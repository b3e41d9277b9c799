/-
  The memory regions of the boot loader (pmm_fetch_memory_regions): one region
  for an entry of the memory map, the list sorted and the overlaps cleaned up.

  * `fetch_eq`: the list that is built, whenever the heap serves its allocations.
-/
import Ttos.Lib.Allocator
import Ttos.Lib.StateFail
import Ttos.Util.ListSort

namespace Ttos

/-- `multiboot_memory_map_t`, an entry of the boot loader's memory map. -/
structure MultibootMemoryMap where
  addr : UInt64
  len : UInt64
  type : UInt32
deriving DecidableEq, Repr

/-- `MULTIBOOT_MEMORY_AVAILABLE` -/
abbrev multibootMemoryAvailable : ℕ := 1

/-- `pmm_memory_region_t` -/
structure PmmMemoryRegion where
  base : ℕ
  length : ℕ
  type : ℕ
deriving DecidableEq, Repr

/-- The region of an entry: its numbers in 32 bits. -/
def MultibootMemoryMap.region (mmap : MultibootMemoryMap) : PmmMemoryRegion where
  base := u32 mmap.addr.toNat
  length := u32 mmap.len.toNat
  type := mmap.type.toNat

/-- `pmm_memory_region_compare` -/
def pmmMemoryRegionCompare (a b : PmmMemoryRegion) : ℤ :=
  if a.base < b.base then -1
  else if a.base > b.base then 1
  else if a.length < b.length then -1
  else if a.length > b.length then 1
  else 0

/-! ## The overlaps -/

/-- The inner loop of the clean-up: `region` against the regions behind it. -/
def adjustOverlaps (region : PmmMemoryRegion) :
    List PmmMemoryRegion → PmmMemoryRegion × List PmmMemoryRegion
  | [] => (region, [])
  | next :: rest =>
    if u32 (region.base + region.length) > next.base then
      if region.type < next.type then
        let r := adjustOverlaps { region with length := sub32 next.base region.base } rest
        (r.1, next :: r.2)
      else
        let r := adjustOverlaps region rest
        (r.1, { next with length := sub32 region.base next.base } :: r.2)
    else
      let r := adjustOverlaps region rest
      (r.1, next :: r.2)

/-- The outer loop of the clean-up, for at most `n` regions. -/
def cleanUpFrom : ℕ → List PmmMemoryRegion → List PmmMemoryRegion
  | n + 1, region :: rest =>
    (adjustOverlaps region rest).1 :: cleanUpFrom n (adjustOverlaps region rest).2
  | _, _ => []

def cleanUpOverlaps (regions : List PmmMemoryRegion) : List PmmMemoryRegion :=
  cleanUpFrom regions.length regions

/-! ## The list -/

/-- `KPANIC_KHEAP_OUT_OF_MEMORY_CODE` -/
inductive PmmStop where
  | kheapOutOfMemory
deriving DecidableEq, Repr

section
variable {σ : Type} [Allocator σ]

/-- `kmalloc` or `kmalloc_a`, with the panic on `NULL` that every caller adds. -/
def pmmKmalloc (size : ℕ) (align : Bool) : StateT σ (Except PmmStop) ℕ := fun heap =>
  if (Allocator.alloc heap size align).1 = 0 then .error .kheapOutOfMemory
  else .ok (Allocator.alloc heap size align)

/-- The loop that creates the list: `sizeof(pmm_memory_region_t)` and
    `sizeof(linked_list_node_t)` for an entry. -/
def createRegions : List MultibootMemoryMap → StateT σ (Except PmmStop) (List PmmMemoryRegion)
  | [] => pure []
  | mmap :: entries => do
    let _ ← pmmKmalloc 12 false
    let _ ← pmmKmalloc 12 false
    let regions ← createRegions entries
    pure (mmap.region :: regions)

/-- `pmm_fetch_memory_regions`, of a memory map with these entries -/
def pmmFetchMemoryRegions (entries : List MultibootMemoryMap) :
    StateT σ (Except PmmStop) (List PmmMemoryRegion) := do
  let _ ← pmmKmalloc 8 false
  let memoryRegions ← createRegions entries
  pure (cleanUpOverlaps (linkedListSort pmmMemoryRegionCompare memoryRegions))

/-- The list without the allocations it takes. -/
def memoryRegions (entries : List MultibootMemoryMap) : List PmmMemoryRegion :=
  cleanUpOverlaps (linkedListSort pmmMemoryRegionCompare (entries.map (·.region)))

variable {allowed : PmmStop → Prop} {entries : List MultibootMemoryMap}

theorem returns_pmmKmalloc {size : ℕ} {align : Bool} (h : allowed .kheapOutOfMemory) :
    Returns allowed (pmmKmalloc size align : StateT σ (Except PmmStop) ℕ) fun _ => True := by
  intro heap
  by_cases h0 : (Allocator.alloc heap size align).1 = 0
  · exact Meets.of_error (if_pos h0) h
  · exact Meets.of_ok (if_neg h0) trivial

theorem returns_createRegions (h : allowed .kheapOutOfMemory) :
    Returns allowed (createRegions entries : StateT σ (Except PmmStop) _)
      (· = entries.map (·.region)) := by
  induction entries with
  | nil => exact Returns.pure rfl
  | cons mmap entries ih =>
    refine (returns_pmmKmalloc h).bind fun _ _ => (returns_pmmKmalloc h).bind fun _ _ => ?_
    refine ih.bind fun regions hr => Returns.pure ?_
    rw [hr, List.map_cons]

theorem returns_fetch (h : allowed .kheapOutOfMemory) :
    Returns allowed (pmmFetchMemoryRegions entries : StateT σ (Except PmmStop) _)
      (· = memoryRegions entries) := by
  refine (returns_pmmKmalloc h).bind fun _ _ => ?_
  refine (returns_createRegions h).bind fun regions hr => Returns.pure ?_
  rw [hr, memoryRegions]

theorem fetch_eq {heap heap' : σ} {regions : List PmmMemoryRegion}
    (h : pmmFetchMemoryRegions entries heap = .ok (regions, heap')) :
    regions = memoryRegions entries := by
  have hr : Returns (fun _ => True) (pmmFetchMemoryRegions (σ := σ) entries) _ :=
    returns_fetch trivial
  have hr := hr heap
  rw [Meets, h] at hr
  exact hr

end

/-! ## The order of the list -/

/-- By base address, then by length. -/
def PmmMemoryRegion.Le (a b : PmmMemoryRegion) : Prop :=
  a.base < b.base ∨ a.base = b.base ∧ a.length ≤ b.length

theorem PmmMemoryRegion.Le.base_le {a b : PmmMemoryRegion} (h : a.Le b) : a.base ≤ b.base := by
  unfold PmmMemoryRegion.Le at h
  omega

theorem compare_pos {a b : PmmMemoryRegion} : pmmMemoryRegionCompare a b > 0 ↔
    b.base < a.base ∨ b.base = a.base ∧ b.length < a.length := by
  unfold pmmMemoryRegionCompare
  split_ifs <;> omega

theorem compare_nonpos {a b : PmmMemoryRegion} : pmmMemoryRegionCompare a b ≤ 0 ↔ a.Le b := by
  have hpos := compare_pos (a := a) (b := b)
  unfold PmmMemoryRegion.Le
  omega

/-- The regions are ordered by their base addresses and their lengths. -/
theorem pmmMemoryRegionCompare_totalPreorder : TotalPreorder pmmMemoryRegionCompare where
  total a b := by
    rw [compare_nonpos, compare_nonpos, PmmMemoryRegion.Le, PmmMemoryRegion.Le]
    omega
  trans a b c := by
    rw [compare_nonpos, compare_nonpos, compare_nonpos]
    unfold PmmMemoryRegion.Le
    omega

theorem sort_pairwise (regions : List PmmMemoryRegion) :
    (linkedListSort pmmMemoryRegionCompare regions).Pairwise PmmMemoryRegion.Le :=
  (pmmMemoryRegionCompare_totalPreorder.sorted regions).imp compare_nonpos.1

/-- A list in the order of the bases, no two equal, is not changed by the sort. -/
theorem sort_of_pairwise {regions : List PmmMemoryRegion}
    (h : regions.Pairwise fun a b => a.base < b.base) :
    linkedListSort pmmMemoryRegionCompare regions = regions := by
  refine exchangeSort_of_pairwise (h.imp fun {a b} hab => ?_)
  rw [decide_eq_false_iff_not, compare_pos]
  omega

end Ttos
