/-
  The virtual memory manager (vmm.c).

  `Except Stop` is the outcome of a function that can panic.  A loop that walks
  the pages of a range counts in 32 bits and may wrap around; its fuel is the
  number of all pages and a few more, so that running out of fuel means that the
  loop does not end (`Stop.diverge`).
-/
import Ttos.Arch.Paging

namespace Ttos

/-- The panics of vmm.c and paging.c. -/
inductive Kpanic where
  | pmmOutOfMemory
  | kheapOutOfMemory
  | vmmOutOfUserSpaceMemory
  | vmmOutOfKernelSpaceMemory
  | vmmMemorySpaceBoundsViolation
deriving DecidableEq, Repr

/-- Why a function does not return: a panic, a page fault in the kernel, or a loop
    without end. -/
inductive Stop where
  | panic (code : Kpanic)
  | pageFault
  | diverge
deriving DecidableEq, Repr

/-- More steps than there are pages. -/
abbrev vmmFuel : ℕ := 0x100010

namespace Vm

variable {σ : Type*}

/-! ## The search for free pages -/

/-- The inner loop of `vmm_find_free_memory`: whether the pages from `pageAddress +
    index` on are free; `none` when it does not end. -/
def vmmRegionFree (vm : Vm σ) (pageAddress spaceEnd size : ℕ) : ℕ → ℕ → Option Bool
  | 0, _ => none
  | fuel + 1, index =>
    if index < size then
      if spaceEnd ≤ u32 (pageAddress + index) then some false
      else if vm.pagingIsPageUsed vm.currentPageDirectory (u32 (pageAddress + index)) then some false
      else vmmRegionFree vm pageAddress spaceEnd size fuel (u32 (index + 4096))
    else some true

/-- The outer loop of `vmm_find_free_memory`. -/
def vmmFindFreeFrom (vm : Vm σ) (spaceEnd size : ℕ) : ℕ → ℕ → Except Stop ℕ
  | 0, _ => .error .diverge
  | fuel + 1, pageAddress =>
    if pageAddress < spaceEnd then
      if vm.pagingIsPageUsed vm.currentPageDirectory pageAddress then
        vmmFindFreeFrom vm spaceEnd size fuel (u32 (pageAddress + 4096))
      else
        match vm.vmmRegionFree pageAddress spaceEnd size vmmFuel 0 with
        | none => .error .diverge
        | some true => .ok pageAddress
        | some false => vmmFindFreeFrom vm spaceEnd size fuel (u32 (pageAddress + 4096))
    else .ok 0

/-- `vmm_find_free_memory`: an address, or `0`. -/
def vmmFindFreeMemory (vm : Vm σ) (size : ℕ) (isKernel : Bool) : Except Stop ℕ :=
  let spaceBaseAddress := if isKernel then vmmKernelSpaceBase else vmmUserSpaceBase
  let spaceSize := if isKernel then vmmKernelSpaceSize else vmmUserSpaceSize
  vm.vmmFindFreeFrom (u32 (spaceBaseAddress + spaceSize)) size vmmFuel spaceBaseAddress

/-- The address given, or a free one. -/
def vmmPlace (vm : Vm σ) (virtualAddress size : ℕ) (isKernel : Bool) : Except Stop ℕ :=
  if virtualAddress ≠ 0 then .ok virtualAddress
  else
    match vm.vmmFindFreeMemory size isKernel with
    | .error e => .error e
    | .ok address =>
      if address = 0 then
        .error (.panic (if isKernel then .vmmOutOfKernelSpaceMemory else .vmmOutOfUserSpaceMemory))
      else .ok address

/-! ## Mapping and unmapping -/

/-- The frame given, marked as reserved, or a new one. -/
def vmmFrame (vm : Vm σ) (physicalAddress : ℕ) : ℕ × Pmm :=
  if physicalAddress = 0 then vm.pmm.allocFrame
  else (physicalAddress, vm.pmm.markFrameReserved physicalAddress)

/-- `vmm_map_page` -/
def vmmMapPage [Allocator σ] (vm : Vm σ) (virtualAddress physicalAddress : ℕ)
    (isKernel isWriteable : Bool) : Except Stop (ℕ × Vm σ) :=
  if virtualAddress ≠ 0 ∧ vm.pagingIsPageUsed vm.currentPageDirectory virtualAddress then .ok (0, vm)
  else
    match vm.vmmPlace virtualAddress 4096 isKernel with
    | .error e => .error e
    | .ok virtualAddress =>
      if isKernel ∧ virtualAddress < vmmKernelSpaceBase then
        .error (.panic .vmmMemorySpaceBoundsViolation)
      else if !isKernel ∧ vmmKernelSpaceBase ≤ virtualAddress then
        .error (.panic .vmmMemorySpaceBoundsViolation)
      else
        let r := vm.vmmFrame physicalAddress
        if r.1 = 0 then .error (.panic .pmmOutOfMemory)
        else
          match { vm with pmm := r.2 }.pagingMapPage vm.currentPageDirectory virtualAddress r.1
              isKernel isWriteable with
          | none => .error (.panic .kheapOutOfMemory)
          | some vm => .ok (virtualAddress, vm)

/-- `vmm_unmap_page` -/
def vmmUnmapPage (vm : Vm σ) (virtualAddress : ℕ) : Vm σ :=
  (vm.pagingUnmapPage vm.currentPageDirectory virtualAddress).2

/-- Unmap the pages from `pageAddress` on, up to `stop`. -/
def vmmUnmapLoop (stop : ℕ) : ℕ → Vm σ → ℕ → Except Stop (Vm σ)
  | 0, _, _ => .error .diverge
  | fuel + 1, vm, pageAddress =>
    if pageAddress < stop then
      vmmUnmapLoop stop fuel (vm.vmmUnmapPage pageAddress) (u32 (pageAddress + 4096))
    else .ok vm

def vmmUnmapMemory (vm : Vm σ) (virtualAddress size : ℕ) : Except Stop (Vm σ) :=
  vmmUnmapLoop (u32 (virtualAddress + size)) vmmFuel vm virtualAddress

/-- The loop of `vmm_map_memory`: map the pages from `pageAddress` on, up to `stop`;
    after a page that is in use already, unmap the pages from `virtualAddress` on. -/
def vmmMapLoop [Allocator σ] (virtualAddress stop : ℕ) (isKernel isWriteable : Bool) :
    ℕ → Vm σ → ℕ → ℕ → Except Stop (ℕ × Vm σ)
  | 0, _, _, _ => .error .diverge
  | fuel + 1, vm, pageAddress, frameAddress =>
    if pageAddress < stop then
      match vm.vmmMapPage pageAddress frameAddress isKernel isWriteable with
      | .error e => .error e
      | .ok (resultedAddress, vm) =>
        if resultedAddress = 0 then (vmmUnmapLoop pageAddress vmmFuel vm virtualAddress).map (0, ·)
        else vmmMapLoop virtualAddress stop isKernel isWriteable fuel vm (u32 (pageAddress + 4096))
          (if frameAddress ≠ 0 then u32 (frameAddress + 4096) else 0)
    else .ok (virtualAddress, vm)

/-- `vmm_map_memory`: the page aligned address, or `0`. -/
def vmmMapMemory [Allocator σ] (vm : Vm σ) (virtualAddress size physicalAddress : ℕ)
    (isKernel isWriteable : Bool) : Except Stop (ℕ × Vm σ) :=
  match vm.vmmPlace virtualAddress size isKernel with
  | .error e => .error e
  | .ok address =>
    let virtualAddress := vmmAlignDown address
    vmmMapLoop virtualAddress (u32 (virtualAddress + size)) isKernel isWriteable vmmFuel vm
      virtualAddress physicalAddress

def vmmIsMapped (vm : Vm σ) (virtualAddress : ℕ) : Bool :=
  vm.pagingIsPageUsed vm.currentPageDirectory virtualAddress

def vmmGetPhysicalAddress (vm : Vm σ) (virtualAddress : ℕ) : ℕ :=
  vm.pagingVirtualToPhysicalAddress vm.currentPageDirectory virtualAddress

/-! ## Address spaces -/

def vmmSwitchAddressSpace (vm : Vm σ) (pageDirectory : ℕ) : Vm σ :=
  { vm.pagingSwitchPageDirectory vm.currentPageDirectory pageDirectory with
    currentPageDirectory := pageDirectory }

/-- Copy the page `tableIndex` of the slot `directoryIndex` from the table `srcTable`
    to the table `dstTable` of `dst`, when it is mapped. -/
def vmmClonePage [Allocator σ] (dst directoryIndex srcTable dstTable : ℕ) (vm : Vm σ)
    (tableIndex : ℕ) : Except Stop (Vm σ) :=
  let src := (vm.tables srcTable).entries tableIndex
  if src.pageBase = 0 then .ok vm
  else
    let virtualAddress := directoryIndex * 4194304 + tableIndex * 4096
    let r := vm.pmm.allocFrame
    if r.1 = 0 then .error (.panic .pmmOutOfMemory)
    else
      match { vm with pmm := r.2 }.pagingMapPage dst virtualAddress r.1 false true with
      | none => .error (.panic .kheapOutOfMemory)
      | some vm =>
        -- map the new frame to copy the page's content
        match vm.vmmMapPage 0 r.1 false true with
        | .error e => .error e
        | .ok (tmpVirtualAddress, vm) =>
          match vm.entryAt vm.currentPageDirectory virtualAddress with
          | none => .error .pageFault
          | some e =>
            if !e.present then .error .pageFault
            else
              let mem := vm.mem.copy (vm.vmmGetPhysicalAddress tmpVirtualAddress)
                (vm.vmmGetPhysicalAddress virtualAddress) 4096
              let vm := { vm with mem := mem }.vmmUnmapPage tmpVirtualAddress
              let src := (vm.tables srcTable).entries tableIndex
              .ok (vm.setEntry dstTable tableIndex
                { (vm.tables dstTable).entries tableIndex with
                  pageBase := BitVec.ofNat 20 (r.1 / 4096), present := src.present,
                  readWrite := src.readWrite, userSupervisor := src.userSupervisor,
                  writeThrough := src.writeThrough })

/-- The slot `directoryIndex` of `src` in `dst`: shared when it is a kernel page table,
    copied otherwise.  `kmalloc_a` does not clear the copy. -/
def vmmCloneSlot [Allocator σ] (src dst : ℕ) (vm : Vm σ) (directoryIndex : ℕ) :
    Except Stop (Vm σ) :=
  let table := (vm.dirs src).tables directoryIndex
  let d := vm.dirs dst
  if table = 0 then .ok vm
  else if table = (vm.dirs vm.kernelPageDirectory).tables directoryIndex then
    let tables := Function.update d.tables directoryIndex table
    let entries := Function.update d.entries directoryIndex ((vm.dirs src).entries directoryIndex)
    .ok (vm.setDir dst ⟨entries, tables⟩)
  else
    let r := Allocator.alloc vm.heap 4096 true
    if r.1 = 0 then .error (.panic .kheapOutOfMemory)
    else
      let tables := Function.update d.tables directoryIndex r.1
      (List.range 1024).foldlM (vmmClonePage dst directoryIndex table r.1)
        ({ vm with heap := r.2 }.setDir dst ⟨d.entries, tables⟩)

/-- `vmm_clone_address_space`: the new directory.  `kmalloc_a` does not clear it. -/
def vmmCloneAddressSpace [Allocator σ] (vm : Vm σ) (src : ℕ) : Except Stop (ℕ × Vm σ) :=
  let r := Allocator.alloc vm.heap 8192 true
  if r.1 = 0 then .error (.panic .kheapOutOfMemory)
  else ((List.range 1024).foldlM (vmmCloneSlot src r.1) { vm with heap := r.2 }).map (r.1, ·)

def vmmCreateAddressSpace [Allocator σ] (vm : Vm σ) : Except Stop (ℕ × Vm σ) :=
  vm.vmmCloneAddressSpace vm.kernelPageDirectory

/-- Free the page table of a slot, unless it is a kernel page table. -/
def vmmFreeSlot [Allocator σ] (pageDirectory : ℕ) (vm : Vm σ) (directoryIndex : ℕ) : Vm σ :=
  let table := (vm.dirs pageDirectory).tables directoryIndex
  if table ≠ 0 ∧ table ≠ (vm.dirs vm.kernelPageDirectory).tables directoryIndex then
    { vm with heap := Allocator.free vm.heap table }
  else vm

/-- `vmm_destroy_address_space` -/
def vmmDestroyAddressSpace [Allocator σ] (vm : Vm σ) (pageDirectory : ℕ) : Except Stop (Vm σ) :=
  (vm.vmmUnmapMemory vmmUserSpaceBase vmmUserSpaceSize).map fun vm =>
    let vm := vm.vmmSwitchAddressSpace vm.kernelPageDirectory
    let vm := (List.range 1024).foldl (vmmFreeSlot pageDirectory) vm
    { vm with heap := Allocator.free vm.heap pageDirectory }

/-! ## Start -/

/-- The loops of `vmm_init`: map the pages from `virtualAddress` on, up to `stop`, to
    the frames from `physicalAddress` on, and reserve these. -/
def vmmInitLoop [Allocator σ] (stop : ℕ) : ℕ → Vm σ → ℕ → ℕ → Except Stop (Vm σ)
  | 0, _, _, _ => .error .diverge
  | fuel + 1, vm, virtualAddress, physicalAddress =>
    if virtualAddress < stop then
      match vm.pagingMapPage vm.kernelPageDirectory virtualAddress physicalAddress true true with
      | none => .error (.panic .kheapOutOfMemory)
      | some vm =>
        vmmInitLoop stop fuel { vm with pmm := vm.pmm.markFrameReserved physicalAddress }
          (u32 (virtualAddress + 4096)) (u32 (physicalAddress + 4096))
    else .ok vm

/-- `vmm_init`: `prepaging` is the directory of the start code, and the kernel image
    is at `kernelVirtualStart` up to `kernelVirtualEnd`, from the frame
    `kernelPhysicalStart` on. -/
def vmmInit [Allocator σ] (vm : Vm σ) (prepaging kernelVirtualStart kernelVirtualEnd
    kernelPhysicalStart : ℕ) : Except Stop (Vm σ) :=
  let r := Allocator.alloc vm.heap 8192 true
  if r.1 = 0 then .error (.panic .kheapOutOfMemory)
  else
    let vm := { vm with heap := r.2, currentPageDirectory := prepaging,
                        kernelPageDirectory := r.1 }.setDir r.1 .zero
    match vmmInitLoop (vmmRealModeMemoryBase + vmmRealModeMemorySize) vmmFuel vm
        vmmRealModeMemoryBase 0 with
    | .error e => .error e
    | .ok vm =>
      match vmmInitLoop kernelVirtualEnd vmmFuel vm kernelVirtualStart kernelPhysicalStart with
      | .error e => .error e
      | .ok vm =>
        let vm := vm.vmmSwitchAddressSpace vm.kernelPageDirectory
        -- paging_enable
        .ok { vm with pagingEnabled := true }

end Vm

end Ttos
