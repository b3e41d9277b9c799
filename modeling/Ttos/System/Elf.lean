/-
  The ELF loader (elf.c, elf.h).

  `data` is the memory behind the pointer `data` of the source: the file's bytes
  up to `size`, and whatever the kernel heap holds after them.  The loader's trace
  `ElfAccess` says what it reads there and what it writes to virtual memory.
-/
import Ttos.Lib.Traced
import Ttos.Memory.Vmm

namespace Ttos

/-- The size of `elf_header_t`. -/
abbrev elfHeaderSize : ℕ := 52

/-- The size of `elf_program_header_t`. -/
abbrev elfProgramHeaderSize : ℕ := 32

/-- `ELF_PROGRAM_TYPE_LOAD` -/
abbrev elfProgramTypeLoad : ℕ := 1

/-- The fields of `elf_program_header_t` that are read. -/
structure ElfProgramHeader where
  pOffset : ℕ
  pVaddr : ℕ
  pFilesz : ℕ
  pMemsz : ℕ
  pFlags : ℕ
deriving DecidableEq, Repr

namespace Elf

def eEntry (data : Mem) : ℕ := data.load32 24

def ePhoff (data : Mem) : ℕ := data.load32 28

def ePhnum (data : Mem) : ℕ := data.load16 44

/-- Where the program header `index` is: the pointer wraps around in 32 bits. -/
def headerOffset (data : Mem) (index : ℕ) : ℕ := u32 (ePhoff data + elfProgramHeaderSize * index)

def pType (data : Mem) (offset : ℕ) : ℕ := data.load32 offset

def programHeader (data : Mem) (offset : ℕ) : ElfProgramHeader where
  pOffset := data.load32 (u32 (offset + 4))
  pVaddr := data.load32 (u32 (offset + 8))
  pFilesz := data.load32 (u32 (offset + 16))
  pMemsz := data.load32 (u32 (offset + 20))
  pFlags := data.load32 (u32 (offset + 24))

end Elf

open Elf

/-- `p_flags & ELF_PROGRAM_FLAG_WRITE` -/
def ElfProgramHeader.isWriteable (h : ElfProgramHeader) : Bool := h.pFlags.testBit 1

def elfIsValid (data : Mem) (size : ℕ) : Bool :=
  elfHeaderSize ≤ size ∧
  -- the magic number
  data 0 = 0x7F ∧ data 1 = 0x45 ∧ data 2 = 0x4C ∧ data 3 = 0x46 ∧
  -- ELF_CLASS_32, ELF_DATA_LSB, ELF_CURRENT_VERSION
  data 4 = 1 ∧ data 5 = 1 ∧ data 6 = 1 ∧
  -- ELF_TYPE_EXEC, ELF_MACHINE_X86
  data.load16 16 = 2 ∧ data.load16 18 = 3

/-- `elf_get_entry_point`: an address, or `0`. -/
def elfGetEntryPoint (data : Mem) (size : ℕ) : ℕ := if elfIsValid data size then eEntry data else 0

/-- What the loader does to memory: it reads `length` bytes at an offset of `data`, or
    writes the byte at an address while it loads the segment `header`; `mapped` says that
    the page of the address was mapped for this segment. -/
inductive ElfAccess where
  | read (offset length : ℕ)
  | write (address : ℕ) (header : ElfProgramHeader) (mapped : Bool)
deriving DecidableEq, Repr

namespace Vm

variable {σ : Type}

def withMem (vm : Vm σ) (m : Mem) : Vm σ := { vm with mem := m }

/-- Write a byte to virtual memory. -/
def storeByte (vm : Vm σ) (address : ℕ) (b : UInt8) : Except Stop (Vm σ) :=
  match vm.entryAt vm.currentPageDirectory address with
  | none => .error .pageFault
  | some e =>
    if !e.present then .error .pageFault
    else .ok (vm.withMem (vm.mem.store8 (vm.vmmGetPhysicalAddress address) b))

/-- The page of the address was mapped between `before` and `after`. -/
def justMapped (before after : Vm σ) (address : ℕ) : Bool :=
  !before.vmmIsMapped address && after.vmmIsMapped address

/-- Fill a segment byte by byte, from byte `i` on with `n` bytes to go; `byte j` gets
    the byte number `j`. -/
def elfFill (h : ElfProgramHeader) (mapped : ℕ → Bool) (byte : ℕ → Traced ElfAccess Stop UInt8) :
    (n i : ℕ) → Vm σ → Traced ElfAccess Stop (Vm σ)
  | 0, _, vm => pure vm
  | n + 1, i, vm => do
    let b ← byte i
    let address := u32 (h.pVaddr + i)
    Traced.tell (.write address h (mapped address))
    let vm ← Traced.lift (vm.storeByte address b)
    elfFill h mapped byte n (i + 1) vm

/-- The byte number `i` of a segment's file range. -/
def elfByte (data : Mem) (h : ElfProgramHeader) (i : ℕ) : Traced ElfAccess Stop UInt8 := do
  let source := u32 (h.pOffset + i)
  Traced.tell (.read source 1)
  pure (data source)

/-- The `memcpy` of a segment. -/
def elfCopy (data : Mem) (h : ElfProgramHeader) (mapped : ℕ → Bool) (vm : Vm σ) :
    Traced ElfAccess Stop (Vm σ) :=
  elfFill h mapped (elfByte data h) h.pFilesz 0 vm

/-- The `memset` of a segment. -/
def elfClear (h : ElfProgramHeader) (mapped : ℕ → Bool) (vm : Vm σ) :
    Traced ElfAccess Stop (Vm σ) :=
  elfFill h mapped (fun _ => pure 0) (h.pMemsz - h.pFilesz) h.pFilesz vm

/-- Fill a segment whose pages were mapped. -/
def elfSegment (data : Mem) (h : ElfProgramHeader) (mapped : ℕ → Bool) (vm : Vm σ) :
    Traced ElfAccess Stop (Vm σ) := do
  let vm ← elfCopy data h mapped vm
  if h.pFilesz < h.pMemsz then elfClear h mapped vm else pure vm

/-- The loop of `elf_load`, from the program header `index` on with `n` headers to go:
    whether all of them were loaded. -/
def elfLoadFrom [Allocator σ] (data : Mem) :
    (n index : ℕ) → Vm σ → Traced ElfAccess Stop (Bool × Vm σ)
  | 0, _, vm => pure (true, vm)
  | n + 1, index, vm => do
    let offset := headerOffset data index
    Traced.tell (.read offset 4)
    if pType data offset ≠ elfProgramTypeLoad then elfLoadFrom data n (index + 1) vm
    else
      let h := programHeader data offset
      -- p_flags, p_vaddr and p_memsz
      Traced.tell (.read (u32 (offset + 24)) 4)
      Traced.tell (.read (u32 (offset + 8)) 4)
      Traced.tell (.read (u32 (offset + 20)) 4)
      let (r, vm') ← Traced.lift (vm.vmmMapMemory h.pVaddr h.pMemsz 0 false h.isWriteable)
      if r = 0 then pure (false, vm')
      else
        -- p_offset and p_filesz
        Traced.tell (.read (u32 (offset + 4)) 4)
        Traced.tell (.read (u32 (offset + 16)) 4)
        let vm ← elfSegment data h (justMapped vm vm') vm'
        elfLoadFrom data n (index + 1) vm

/-- `elf_load`: whether it returns 0. -/
def elfLoad [Allocator σ] (vm : Vm σ) (data : Mem) (size : ℕ) :
    Traced ElfAccess Stop (Bool × Vm σ) :=
  if elfIsValid data size then elfLoadFrom data (ePhnum data) 0 vm else pure (false, vm)

end Vm

end Ttos
