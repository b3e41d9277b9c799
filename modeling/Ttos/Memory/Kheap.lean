/-
  The kernel heap (kheap.c, kheap.h), byte by byte.

  A block is a 20-byte header followed by its payload, and the headers form a
  doubly linked list in the heap's own memory.  `Kheap` holds that memory with
  the file's static variables.  Functions that walk the list take the walk's
  length bound as fuel (`kheapFuel`): they return `none` when the walk did not
  end, and otherwise the pointer (`0` for `NULL`) with the heap afterwards.

  The memory before `kheap_init` (the placement memory) is the allocator
  `kmallocPlacement`; `kmallocInt` chooses between the two.
-/
import Ttos.Lib.Bytes
import Ttos.Memory.Layout

namespace Ttos

/-! ## Blocks -/

/-- `KHEAP_HEAP_SIZE` -/
abbrev kheapHeapSize : ℕ := 0x2000000

/-- `KHEAP_PLACEMENT_SIZE` -/
abbrev kheapPlacementSize : ℕ := 0x100000

/-- `KHEAP_MAGIC` -/
abbrev kheapMagic : ℕ := 0xD11EF00D

/-- A block header (`kheap_block_t`, 20 bytes). -/
structure KheapBlock where
  magic : ℕ
  size : ℕ
  free : Bool
  prev : ℕ
  next : ℕ
deriving DecidableEq, Repr

namespace Mem

/-- The header at `a`: magic at offset 0, size at 4, free at 8, prev at 12,
    next at 16. -/
def block (m : Mem) (a : ℕ) : KheapBlock where
  magic := m.load32 a
  size := m.load32 (a + 4)
  free := m (a + 8) != 0
  prev := m.load32 (a + 12)
  next := m.load32 (a + 16)

def setMagic (m : Mem) (a v : ℕ) : Mem := m.store32 a v

def setSize (m : Mem) (a v : ℕ) : Mem := m.store32 (a + 4) v

def setFree (m : Mem) (a : ℕ) (v : Bool) : Mem := m.store8 (a + 8) (if v then 1 else 0)

def setPrev (m : Mem) (a v : ℕ) : Mem := m.store32 (a + 12) v

def setNext (m : Mem) (a v : ℕ) : Mem := m.store32 (a + 16) v

end Mem

/-- The heap's memory and the static variables of kheap.c. -/
structure Kheap where
  mem : Mem
  enabled : Bool
  base : ℕ
  head : ℕ
  tail : ℕ
  placementHead : ℕ
  placementFree : ℕ

/-- A bound on the length of the block list: every block has a 20-byte header. -/
abbrev kheapFuel : ℕ := kheapHeapSize

namespace Kheap

/-- `kheap_init`, given the result of mapping the heap's region; `none` is the
    panic for a region that could not be mapped. -/
def kheapInit (h : Kheap) (kheapBase : ℕ) : Option Kheap :=
  if kheapBase = 0 then none
  else
    let m := h.mem.setPrev kheapBase 0
    let m := m.setNext kheapBase 0
    let m := m.setMagic kheapBase kheapMagic
    let m := m.setSize kheapBase (kheapHeapSize - 20)
    let m := m.setFree kheapBase true
    some { h with mem := m, enabled := true, base := kheapBase, head := kheapBase, tail := kheapBase }

/-- `kheap_get_available_memory_size` from the block `current` on. -/
def kheapAvailableFrom (m : Mem) : ℕ → ℕ → ℕ → Option ℕ
  | 0, _, _ => none
  | fuel + 1, current, freeMemory =>
    if current = 0 then some freeMemory
    else kheapAvailableFrom m fuel (m.block current).next
      (if (m.block current).free then u32 (freeMemory + (m.block current).size) else freeMemory)

def kheapGetAvailableMemorySize (h : Kheap) : Option ℕ :=
  kheapAvailableFrom h.mem kheapFuel h.head 0

/-! ## Allocation -/

/-- Whether `kheap_find_best_fit` considers the block `current`: it is free and
    large enough, for an aligned request with room for the padding block. -/
def kheapFits (m : Mem) (size : ℕ) (align : Bool) (current : ℕ) : Bool :=
  let block := m.block current
  if block.free && decide (size ≤ block.size) then
    if align then
      let dataAddr := u32 (current + 20)
      if vmmIsAligned dataAddr then true
      else
        let alignedDataAddr := vmmAlignUp (u32 (current + 40))
        let alignDataPadding := sub32 alignedDataAddr dataAddr
        decide (u32 (size + alignDataPadding) ≤ block.size)
    else true
  else false

/-- The loop of `kheap_find_best_fit`. -/
def kheapFindBestFitFrom (m : Mem) (size : ℕ) (align : Bool) : ℕ → ℕ → ℕ → Option ℕ
  | 0, _, _ => none
  | fuel + 1, current, bestFit =>
    if current = 0 then some bestFit
    else
      let bestFit' :=
        if kheapFits m size align current then
          if bestFit = 0 ∨ (m.block current).size < (m.block bestFit).size then current else bestFit
        else bestFit
      kheapFindBestFitFrom m size align fuel (m.block current).next bestFit'

def kheapFindBestFit (h : Kheap) (size : ℕ) (align : Bool) : Option ℕ :=
  kheapFindBestFitFrom h.mem size align kheapFuel h.head 0

/-- `if(next != NULL) next->prev = v; else kheap_tail = v;` -/
def relinkNext (h : Kheap) (next v : ℕ) : Kheap :=
  if next ≠ 0 then { h with mem := h.mem.setPrev next v } else { h with tail := v }

/-- The alignment step of `kmalloc_heap`: move the block up to the next page
    boundary and leave a padding block in front of it.  `none` is `return NULL`. -/
def kmallocPad (h : Kheap) (bestFit size : ℕ) (align : Bool) : Option (ℕ × Kheap) :=
  if align then
    let dataAddr := u32 (bestFit + 20)
    if vmmIsAligned dataAddr then some (bestFit, h)
    else
      let alignedDataAddr := vmmAlignUp (u32 (bestFit + 40))
      let alignDataPadding := sub32 alignedDataAddr dataAddr
      if u32 (size + alignDataPadding) ≤ (h.mem.block bestFit).size then
        let newBestFit := sub32 alignedDataAddr 20
        let m := h.mem.setFree newBestFit true
        let m := m.setMagic newBestFit kheapMagic
        let m := m.setSize newBestFit (sub32 (m.block bestFit).size alignDataPadding)
        let m := m.setNext newBestFit (m.block bestFit).next
        let m := m.setPrev newBestFit bestFit
        let h := relinkNext { h with mem := m } (m.block bestFit).next newBestFit
        -- the original best fit becomes the padding block
        let m := h.mem.setFree bestFit true
        let m := m.setSize bestFit (sub32 alignDataPadding 20)
        let m := m.setNext bestFit newBestFit
        some (newBestFit, { h with mem := m })
      else none
  else some (bestFit, h)

/-- The rest of `kmalloc_heap`: take the block, and split off what is left of
    it when that is more than a header. -/
def kmallocSplit (h : Kheap) (bestFit size : ℕ) : ℕ × Kheap :=
  let remainingSize := sub32 (h.mem.block bestFit).size size
  let h := { h with mem := h.mem.setFree bestFit false }
  if 20 < remainingSize then
    let remainingBlock := u32 (bestFit + size + 20)
    let m := h.mem.setFree remainingBlock true
    let m := m.setMagic remainingBlock kheapMagic
    let m := m.setSize remainingBlock (sub32 remainingSize 20)
    let m := m.setNext remainingBlock (m.block bestFit).next
    let m := m.setPrev remainingBlock bestFit
    let h := relinkNext { h with mem := m } (m.block bestFit).next remainingBlock
    let m := h.mem.setSize bestFit size
    let m := m.setNext bestFit remainingBlock
    (u32 (bestFit + 20), { h with mem := m })
  else (u32 (bestFit + 20), h)

def kmallocHeap (h : Kheap) (size : ℕ) (align : Bool) : Option (ℕ × Kheap) :=
  if size = 0 then some (0, h)
  else
    match kheapFindBestFit h size align with
    | none => none
    | some bestFit =>
      if bestFit = 0 then some (0, h)
      else
        match kmallocPad h bestFit size align with
        | none => some (0, h)
        | some (bestFit, h) => some (kmallocSplit h bestFit size)

/-- The allocator of the boot phase: a pointer that moves up. -/
def kmallocPlacement (h : Kheap) (size : ℕ) (align : Bool) : ℕ × Kheap :=
  let addr := h.placementHead
  let alignedAddr := if align then vmmAlignUp addr else addr
  let size := if align then u32 (size + sub32 alignedAddr addr) else size
  if h.placementFree < size then (0, h)
  else
    (alignedAddr, { h with placementHead := u32 (h.placementHead + size),
                           placementFree := h.placementFree - size })

def kmallocInt (h : Kheap) (size : ℕ) (align : Bool) : Option (ℕ × Kheap) :=
  if h.enabled then kmallocHeap h size align else some (kmallocPlacement h size align)

/-- `kmalloc_a` -/
def kmallocA (h : Kheap) (size : ℕ) : Option (ℕ × Kheap) := kmallocInt h size true

def kmalloc (h : Kheap) (size : ℕ) : Option (ℕ × Kheap) := kmallocInt h size false

def kcalloc (h : Kheap) (num size : ℕ) : Option (ℕ × Kheap) :=
  match kmalloc h (u32 (num * size)) with
  | none => none
  | some (ptr, h) =>
    if ptr ≠ 0 then some (ptr, { h with mem := h.mem.fill ptr 0 (u32 (num * size)) })
    else some (ptr, h)

/-! ## Freeing -/

def kheapIsValidHeapAddress (h : Kheap) (ptr : ℕ) : Bool :=
  if !h.enabled then false
  else if u32 (h.base + 20) ≤ ptr ∧ ptr < u32 (h.base + kheapHeapSize) then
    (h.mem.block (sub32 ptr 20)).magic == kheapMagic
  else false

/-- Merge `block` into the previous block if that is free; the result is the
    block to go on with. -/
def kfreeMergePrev (h : Kheap) (block : ℕ) : ℕ × Kheap :=
  let prev := (h.mem.block block).prev
  if prev ≠ 0 ∧ (h.mem.block prev).magic = kheapMagic ∧ (h.mem.block prev).free = true then
    let m := h.mem.setSize prev (u32 ((h.mem.block prev).size + (h.mem.block block).size + 20))
    let m := m.setNext prev (m.block block).next
    let h := relinkNext { h with mem := m } (m.block block).next (m.block block).prev
    (prev, { h with mem := h.mem.fill (u32 (prev + 20)) 0 (h.mem.block prev).size })
  else (block, h)

/-- Merge the block after `block` into it if that is free. -/
def kfreeMergeNext (h : Kheap) (block : ℕ) : Kheap :=
  let next := (h.mem.block block).next
  if next ≠ 0 ∧ (h.mem.block next).magic = kheapMagic ∧ (h.mem.block next).free = true then
    let m := h.mem.setSize block (u32 ((h.mem.block block).size + (h.mem.block next).size + 20))
    let m := m.setNext block (m.block next).next
    let h := relinkNext { h with mem := m } (m.block next).next block
    { h with mem := h.mem.fill (u32 (block + 20)) 0 (h.mem.block block).size }
  else h

def kfree (h : Kheap) (ptr : ℕ) : Kheap :=
  if ptr = 0 then h
  else if !h.kheapIsValidHeapAddress ptr then h
  else
    let block := sub32 ptr 20
    let r := kfreeMergePrev { h with mem := h.mem.setFree block true } block
    kfreeMergeNext r.2 r.1

def krealloc (h : Kheap) (ptr size : ℕ) : Option (ℕ × Kheap) :=
  if ptr = 0 then kmalloc h size
  else if size = 0 then some (0, kfree h ptr)
  else if !h.kheapIsValidHeapAddress ptr then some (0, h)
  else
    let block := sub32 ptr 20
    if size ≤ (h.mem.block block).size then some (ptr, h)
    else
      match kmalloc h size with
      | none => none
      | some (newPtr, h) =>
        if newPtr = 0 then some (0, h)
        else
          let m := h.mem.copy newPtr ptr (h.mem.block block).size
          some (newPtr, kfree { h with mem := m } ptr)

end Kheap

end Ttos
