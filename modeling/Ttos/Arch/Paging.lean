/-
  Page tables of the i386 (paging.c, paging.h).

  Page directories and page tables are objects at addresses; an operation works
  on the directory at the address it is given.  `Vm` is the state the virtual
  memory manager and the paging code share: the kernel heap the tables come
  from, the objects, the static variables, the frames and the physical memory.
  The translation caches of the processor (`invlpg`) are not modelled.

  `none` is the panic for a kernel heap that is out of memory.
-/
import Ttos.Lib.Allocator
import Ttos.Lib.Bytes
import Ttos.Memory.Layout
import Ttos.Memory.Pmm

namespace Ttos

/-! ## Page directories and page tables -/

/-- `PAGE_FLAG_USED` -/
abbrev pageFlagUsed : ℕ := 1

/-- `PAGE_FLAG_PRESENT` -/
abbrev pageFlagPresent : ℕ := 0

/-- `page_table_entry_t`: `available` has 3 bits, `pageBase` 20. -/
structure PageTableEntry where
  present : Bool
  readWrite : Bool
  userSupervisor : Bool
  writeThrough : Bool
  cacheDisable : Bool
  accessed : Bool
  dirty : Bool
  attributeTable : Bool
  global : Bool
  available : BitVec 3
  pageBase : BitVec 20
deriving DecidableEq, Repr

/-- `page_directory_entry_t` -/
structure PageDirectoryEntry where
  present : Bool
  readWrite : Bool
  userSupervisor : Bool
  writeThrough : Bool
  cacheDisable : Bool
  accessed : Bool
  reserved : Bool
  pageSize : Bool
  global : Bool
  available : BitVec 3
  pageTableBase : BitVec 20
deriving DecidableEq, Repr

/-- `page_table_t` -/
structure PageTable where
  entries : ℕ → PageTableEntry

/-- `page_directory_t`: the hardware's entries, and the addresses of the tables. -/
structure PageDirectory where
  entries : ℕ → PageDirectoryEntry
  tables : ℕ → ℕ

namespace PageTableEntry

/-- An entry after `memset`. -/
def zero : PageTableEntry :=
  ⟨false, false, false, false, false, false, false, false, false, 0, 0⟩

/-- `available & PAGE_FLAG_USED` -/
def used (e : PageTableEntry) : Bool := e.available &&& 1 != 0

/-- The fields `paging_map_page` writes. -/
def map (e : PageTableEntry) (frame : ℕ) (isKernel isWriteable : Bool) : PageTableEntry :=
  { e with present := true, readWrite := isWriteable, userSupervisor := !isKernel,
           available := BitVec.ofNat 3 (pageFlagUsed ||| pageFlagPresent),
           pageBase := BitVec.ofNat 20 (pmmAddressToIndex frame) }

/-- The fields `paging_unmap_page` writes. -/
def unmap (e : PageTableEntry) : PageTableEntry :=
  { e with present := false, available := e.available &&& ~~~1, pageBase := 0 }

end PageTableEntry

namespace PageDirectoryEntry

/-- An entry after `memset`. -/
def zero : PageDirectoryEntry :=
  ⟨false, false, false, false, false, false, false, false, false, 0, 0⟩

/-- The fields written for a new page table. -/
def link (e : PageDirectoryEntry) (tablePhysicalAddress : ℕ) : PageDirectoryEntry :=
  { e with present := true, readWrite := true, userSupervisor := true,
           pageTableBase := BitVec.ofNat 20 (tablePhysicalAddress / 4096), pageSize := false }

end PageDirectoryEntry

/-- A table after `memset`. -/
def PageTable.zero : PageTable := ⟨fun _ => .zero⟩

/-- A directory after `memset`. -/
def PageDirectory.zero : PageDirectory := ⟨fun _ => .zero, fun _ => 0⟩

/-- `PAGE_DIRECTORY_INDEX` -/
def pageDirectoryIndex (virtualAddress : ℕ) : ℕ := u32 virtualAddress / 4194304

/-- `PAGE_TABLE_INDEX` -/
def pageTableIndex (virtualAddress : ℕ) : ℕ := u32 virtualAddress / 4096 % 1024

/-- `PAGE_OFFSET` -/
def pageOffset (virtualAddress : ℕ) : ℕ := u32 virtualAddress % 4096

/-- The number of the page an address lies in. -/
def pageNumber (virtualAddress : ℕ) : ℕ := u32 virtualAddress / 4096

/-! ## The paging functions -/

/-- The state of paging.c and vmm.c.  `cr3` is the hardware's directory, `mem` the
    physical memory. -/
structure Vm (σ : Type*) where
  heap : σ
  tables : ℕ → PageTable
  dirs : ℕ → PageDirectory
  kernelPageDirectory : ℕ
  currentPageDirectory : ℕ
  pagingEnabled : Bool
  cr3 : ℕ
  pmm : Pmm
  mem : Mem

namespace Vm

variable {σ : Type*}

/-- The page table entry of an address, when its table exists. -/
def entryAt (vm : Vm σ) (dir virtualAddress : ℕ) : Option PageTableEntry :=
  if (vm.dirs dir).tables (pageDirectoryIndex virtualAddress) = 0 then none
  else some ((vm.tables ((vm.dirs dir).tables (pageDirectoryIndex virtualAddress))).entries
    (pageTableIndex virtualAddress))

/-- Write the entry `index` of the table at `table`. -/
def setEntry (vm : Vm σ) (table index : ℕ) (e : PageTableEntry) : Vm σ :=
  { vm with tables := fun t => if t = table then
      ⟨fun i => if i = index then e else (vm.tables t).entries i⟩ else vm.tables t }

def pagingVirtualToPhysicalAddress (vm : Vm σ) (dir virtualAddress : ℕ) : ℕ :=
  if !vm.pagingEnabled then sub32 virtualAddress vmmKernelSpaceBase
  else
    match vm.entryAt dir virtualAddress with
    | none => 0
    | some e => if !e.present then 0 else u32 (e.pageBase.toNat * 4096 + pageOffset virtualAddress)

def pagingIsPageUsed (vm : Vm σ) (dir virtualAddress : ℕ) : Bool :=
  match vm.entryAt dir virtualAddress with
  | none => false
  | some e => e.used

def setDir (vm : Vm σ) (dir : ℕ) (d : PageDirectory) : Vm σ :=
  { vm with dirs := Function.update vm.dirs dir d }

/-- Enter a new page table into the slot `index` of the directory. -/
def linkTable (vm : Vm σ) (dir index table tablePhysicalAddress : ℕ) : Vm σ :=
  let d := vm.dirs dir
  let entries := Function.update d.entries index ((d.entries index).link tablePhysicalAddress)
  let tables := Function.update d.tables index table
  vm.setDir dir ⟨entries, tables⟩

/-- A new page table, cleared: its address, or `0`. -/
def newTable [Allocator σ] (vm : Vm σ) : ℕ × Vm σ :=
  let r := Allocator.alloc vm.heap 4096 true
  (r.1, { vm with heap := r.2, tables := Function.update vm.tables r.1 .zero })

/-- The page table for an address, allocated if it does not exist. -/
def pagingTableFor [Allocator σ] (vm : Vm σ) (dir virtualAddress : ℕ) : Option (ℕ × Vm σ) :=
  let index := pageDirectoryIndex virtualAddress
  if (vm.dirs dir).tables index = 0 then
    let (table, vm) := vm.newTable
    if table = 0 then none
    else some (table, vm.linkTable dir index table (vm.pagingVirtualToPhysicalAddress dir table))
  else some ((vm.dirs dir).tables index, vm)

def pagingMapPage [Allocator σ] (vm : Vm σ) (dir virtualAddress frameAddress : ℕ)
    (isKernel isWriteable : Bool) : Option (Vm σ) :=
  (vm.pagingTableFor dir virtualAddress).map fun (table, vm) =>
    vm.setEntry table (pageTableIndex virtualAddress)
      (((vm.tables table).entries (pageTableIndex virtualAddress)).map frameAddress isKernel isWriteable)

/-- The frame the page was mapped to; `none` where the function returns without a
    value. -/
def pagingUnmapPage (vm : Vm σ) (dir virtualAddress : ℕ) : Option ℕ × Vm σ :=
  match vm.entryAt dir virtualAddress with
  | none => (none, vm)
  | some e =>
    if !e.used then (none, vm)
    else
      (some (pmmIndexToAddress e.pageBase.toNat),
        vm.setEntry ((vm.dirs dir).tables (pageDirectoryIndex virtualAddress))
          (pageTableIndex virtualAddress) e.unmap)

/-- `paging_switch_page_directory` loads `cr3`. -/
def pagingSwitchPageDirectory (vm : Vm σ) (dir newDir : ℕ) : Vm σ :=
  { vm with cr3 := vm.pagingVirtualToPhysicalAddress dir newDir }

end Vm

end Ttos
