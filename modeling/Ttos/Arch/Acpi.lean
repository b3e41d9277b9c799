/-
  The tables of ACPI (acpi.c: acpi_init).

  The tables lie in physical memory; the code reads them through pages that
  `vmm_map_memory` chose for them.  A run is followed up to the first byte that is read
  outside of the pages mapped for its table.

  The log messages are left out, and so is the search for the RSDP, which reads memory that
  is mapped since the start; it gives the address of the RSDT.
-/
import Ttos.Arch.AcpiPoweroff
import Ttos.Memory.PageWindow

namespace Ttos

/-- Why `acpi_init` does not return. -/
inductive AcpiStop where
  /-- A byte is read outside of the pages that were mapped for its table. -/
  | outside
  /-- A byte is read whose page is not mapped. -/
  | pageFault
  /-- A loop does not end. -/
  | endless
  /-- A table declares more bytes than the kernel's half of the address space has. -/
  | tooLong
  /-- There is no memory for a mapping or an object: a panic, or a write through `NULL`. -/
  | noMemory
deriving DecidableEq, Repr

abbrev AcpiM (σ : Type) := StateT (Vm σ) (Except AcpiStop)

/-- `"RSDT"` and `"FACP"` -/
def acpiRsdtSignature : List UInt8 := [0x52, 0x53, 0x44, 0x54]

def acpiFadtSignature : List UInt8 := [0x46, 0x41, 0x43, 0x50]

/-- More rounds than there are 32-bit numbers. -/
abbrev acpiFuel : ℕ := 0x100000000

/-- A pointer to a table: the address and the size that `vmm_map_memory` was given, and the
    address it returned.  The pointer is `base + physical % 4096`. -/
structure AcpiTable where
  physical : ℕ
  size : ℕ
  base : ℕ
deriving DecidableEq, Repr

/-- The byte at the offset lies in the pages that a call with this address and this size maps. -/
def InTablePages (physical size offset : ℕ) : Prop :=
  physical ≠ 0 ∧ physical + offset < 4294967296 ∧
    physical % 4096 + offset < 4096 * pageCount size

instance (physical size offset : ℕ) : Decidable (InTablePages physical size offset) :=
  inferInstanceAs (Decidable (_ ∧ _))

section
variable {σ : Type}

/-- A byte of a table, read through its pointer. -/
def AcpiTable.read (t : AcpiTable) (offset : ℕ) : AcpiM σ UInt8 := fun vm =>
  if InTablePages t.physical t.size offset then
    let address := t.base + t.physical % 4096 + offset
    match vm.page vm.currentPageDirectory address with
    | none => .error .pageFault
    | some _ => .ok (vm.mem (vm.vmmGetPhysicalAddress address), vm)
  else .error .outside

/-- `vmm_unmap_memory` with the address and the size of a mapping. -/
def acpiUnmapTable (t : AcpiTable) : AcpiM σ Unit := fun vm =>
  match vm.vmmUnmapMemory t.base t.size with
  | .error _ => .error .endless
  | .ok vm => .ok ((), vm)

variable [Allocator σ]

/-- Why a table of this size is not mapped. -/
def acpiNotMapped (size : ℕ) : AcpiStop :=
  if size ≤ vmmKernelSpaceSize then .noMemory else .tooLong

/-- `vmm_map_memory(NULL, size, physical, true, false)` -/
def acpiMapTable (size physical : ℕ) : AcpiM σ AcpiTable := fun vm =>
  match vm.vmmMapMemory 0 size physical true false with
  | .error _ => .error (acpiNotMapped size)
  | .ok (base, vm) =>
    -- the search found no room below the end of the address space
    if base = 0 ∨ 4294967296 ≤ base + size then .error (acpiNotMapped size)
    else .ok (⟨physical, size, base⟩, vm)

def acpiKmalloc (size : ℕ) : AcpiM σ ℕ := fun vm =>
  let r := Allocator.alloc vm.heap size false
  .ok (r.1, { vm with heap := r.2 })

/-- A round of the loop over the entries of the RSDT, with `acpi_fadt` and `acpi_dsdt`, which
    are set together.  The entry is read once here. -/
def acpiSdt (rsdt : AcpiTable) (sdts index : ℕ) (tables : Option (AcpiTable × AcpiTable)) :
    AcpiM σ (Option (AcpiTable × AcpiTable)) := do
  let entry ← readField32 rsdt.read (acpiSdtSize + 4 * index)
  let tmp ← acpiMapTable acpiSdtSize entry
  let length ← readField32 tmp.read 4
  acpiUnmapTable tmp
  let sdt ← acpiMapTable length entry
  -- acpi_sdts[index] is written
  if sdts = 0 then throw .noMemory
  else
    let c ← memcmpTable sdt.read acpiFadtSignature 0
    if c = 0 then
      let physical ← readField32 sdt.read 40
      let dsdt ← acpiMapTable acpiSdtSize physical
      pure (some (sdt, dsdt))
    else pure tables

/-- The loop over the entries; the index has 8 bits. -/
def acpiSdtLoop (rsdt : AcpiTable) (count sdts : ℕ) :
    ℕ → ℕ → Option (AcpiTable × AcpiTable) → AcpiM σ (Option (AcpiTable × AcpiTable))
  | 0, _, _ => throw .endless
  | k + 1, index, tables =>
    if index < count then do
      let tables ← acpiSdt rsdt sdts index tables
      acpiSdtLoop rsdt count sdts k ((index + 1) % 256) tables
    else pure tables

/-- A `kmalloc` of 64 bytes for a message, or a panic. -/
def acpiMessage : AcpiM σ Unit := do
  let message ← acpiKmalloc 64
  if message = 0 then throw .noMemory else pure ()

/-- `acpi_init_poweroff` with the pointers `acpi_fadt` and `acpi_dsdt`. -/
def acpiPoweroffTables : Option (AcpiTable × AcpiTable) → AcpiM σ AcpiPoweroffInformation
  | none => pure .zero
  | some (fadt, dsdt) => do
    match ← acpiInitPoweroff acpiFuel fadt.read dsdt.read .zero with
    | none => throw .endless
    | some info =>
      acpiMessage
      acpiMessage
      pure info

/-- `acpi_init`: what it returns, and `acpi_poweroff_info`. -/
def acpiInit : Option ℕ → AcpiM σ (ℤ × AcpiPoweroffInformation)
  | none => pure (-1, .zero)
  | some address => do
    let rsdt ← acpiMapTable acpiSdtSize address
    let c ← memcmpTable rsdt.read acpiRsdtSignature 0
    if c ≠ 0 then pure (-1, .zero)
    else
      acpiMessage
      let length ← readField32 rsdt.read 4
      let count := sub32 length acpiSdtSize / 4
      let sdts ← acpiKmalloc (4 * count)
      let tables ← acpiSdtLoop rsdt count sdts acpiFuel 0 none
      let info ← acpiPoweroffTables tables
      pure (0, info)

end

end Ttos
