/-
  The user heap: malloc.c over the heap system call (`syscall_alloc_heap`).

  * A block of the user heap has the kernel heap's header (`Mem.block`), and the
    blocks form a doubly linked list in the process' own memory.
  * `UserHeap` holds that memory, the static variables of malloc.c, and the fields
    `heap_base` and `heap_limit` the kernel keeps for the process.
  * `MapMemory` stands for `vmm_map_memory` on the process' address space: the
    kernel may refuse, and a page it maps holds anything.

  Functions that walk the list take the walk's length bound as fuel (`heapFuel`):
  they return `none` when the walk did not end.
-/
import Ttos.Memory.Kheap

namespace Ttos

/-- `HEAP_MAGIC` -/
abbrev heapMagic : ℕ := 0xD11EF00D

/-- `HEAP_PAGE_SIZE` -/
abbrev heapPageSize : ℕ := 4096

/-- A bound on the length of the block list: it lies in 32-bit memory. -/
abbrev heapFuel : ℕ := 0x100000000

/-- The memory of a process, the variables of malloc.c, and the process' heap range
    as the kernel knows it (`0` for `NULL`). -/
structure UserHeap where
  mem : Mem
  heapHead : ℕ
  heapTail : ℕ
  heapBase : ℕ
  heapLimit : ℕ

/-- `vmm_map_memory` for writeable user memory: the address (`0`: anywhere) and the
    size asked for, and the process' memory; the address mapped and the memory
    afterwards, or `none` for `NULL`. -/
abbrev MapMemory := ℕ → ℕ → Mem → Option (ℕ × Mem)

/-- What `vmm_map_memory` does for user memory: whole pages below the kernel's space,
    at the page asked for; other memory stays. -/
structure MapsUserMemory (map : MapMemory) : Prop where
  region : ∀ {v n m a m'}, map v (n * 4096) m = some (a, m') →
    0 < a ∧ a % 4096 = 0 ∧ a + n * 4096 ≤ 0xC0000000
  place : ∀ {v n m a m'}, map v (n * 4096) m = some (a, m') → v ≠ 0 → a = v / 4096 * 4096
  frame : ∀ {v n m a m' x}, map v (n * 4096) m = some (a, m') → x < a ∨ a + n * 4096 ≤ x → m' x = m x

namespace UserHeap

/-! ## Growing the heap -/

/-- `syscall_alloc_heap`: the new limit (`0` for `NULL`) and the process afterwards. -/
def syscallAllocHeap (map : MapMemory) (p : UserHeap) (nPages : ℕ) : ℕ × UserHeap :=
  if nPages = 0 then (p.heapLimit, p)
  else if p.heapBase = 0 then
    match map 0 (u32 (nPages * 4096)) p.mem with
    | none => (0, p)
    | some (heapStart, mem) =>
      let limit := sub32 (u32 (heapStart + u32 (nPages * 4096))) 1
      (limit, { p with mem := mem, heapBase := heapStart, heapLimit := limit })
  else
    match map (u32 (p.heapLimit + 1)) (u32 (nPages * 4096)) p.mem with
    | none => (0, p)
    | some (blockBegin, mem) =>
      let limit := sub32 (u32 (blockBegin + u32 (nPages * 4096))) 1
      (limit, { p with mem := mem, heapLimit := limit })

/-- `hmap_alloc` -/
def hmapAlloc (map : MapMemory) (h : UserHeap) (nPages : ℕ) : ℕ × UserHeap :=
  syscallAllocHeap map h nPages

/-- The header of a free block that ends the list. -/
def setLast (m : Mem) (a size prev : ℕ) : Mem :=
  ((((m.setMagic a heapMagic).setSize a size).setFree a true).setNext a 0).setPrev a prev

/-- `heap_increase_size`: `false` for `-1`. -/
def heapIncreaseSize (map : MapMemory) (h : UserHeap) (nPages : ℕ) : Bool × UserHeap :=
  let r := hmapAlloc map h nPages
  let newHeapLimit := r.1
  let h := r.2
  if newHeapLimit = 0 then (false, h)
  else if h.heapHead = 0 then
    let head := sub32 newHeapLimit (heapPageSize - 1)
    let m := setLast h.mem head (sub32 (u32 (heapPageSize * nPages)) 20) 0
    (true, { h with mem := m, heapHead := head, heapTail := head })
  else if (h.mem.block h.heapTail).free then
    let size := u32 ((h.mem.block h.heapTail).size + u32 (heapPageSize * nPages))
    (true, { h with mem := h.mem.setSize h.heapTail size })
  else
    let newBlock := sub32 newHeapLimit (heapPageSize - 1)
    let m := setLast h.mem newBlock (heapPageSize - 20) h.heapTail
    (true, { h with mem := m.setNext h.heapTail newBlock, heapTail := newBlock })

/-! ## Allocation -/

/-- The loop of `heap_find_best_fit`. -/
def heapFindBestFitFrom (m : Mem) (size : ℕ) : ℕ → ℕ → ℕ → Option ℕ
  | 0, _, _ => none
  | fuel + 1, current, bestFit =>
    if current = 0 then some bestFit
    else
      let bestFit' :=
        if (m.block current).free = true ∧ size ≤ (m.block current).size then
          if bestFit = 0 ∨ (m.block current).size < (m.block bestFit).size then current else bestFit
        else bestFit
      heapFindBestFitFrom m size fuel (m.block current).next bestFit'

def heapFindBestFit (h : UserHeap) (size : ℕ) : Option ℕ :=
  heapFindBestFitFrom h.mem size heapFuel h.heapHead 0

/-- `if(next != NULL) next->prev = v; else heap_tail = v;` -/
def relinkNext (h : UserHeap) (next v : ℕ) : UserHeap :=
  if next ≠ 0 then { h with mem := h.mem.setPrev next v } else { h with heapTail := v }

/-- The rest of `malloc`: take the block, and split off what is left of it when that
    is more than a header. -/
def mallocSplit (h : UserHeap) (bestFit size : ℕ) : ℕ × UserHeap :=
  let remainingSize := sub32 (h.mem.block bestFit).size size
  let h := { h with mem := h.mem.setFree bestFit false }
  if 20 < remainingSize then
    let remainingBlock := u32 (bestFit + size + 20)
    let m := h.mem.setFree remainingBlock true
    let m := m.setMagic remainingBlock heapMagic
    let m := m.setSize remainingBlock (sub32 remainingSize 20)
    let m := m.setNext remainingBlock (m.block bestFit).next
    let m := m.setPrev remainingBlock bestFit
    let h := relinkNext { h with mem := m } (m.block bestFit).next remainingBlock
    let m := h.mem.setSize bestFit size
    let m := m.setNext bestFit remainingBlock
    (u32 (bestFit + 20), { h with mem := m })
  else (u32 (bestFit + 20), h)

/-- `malloc` from the second search on, after the heap was grown for it. -/
def mallocRetry (h : UserHeap) (size : ℕ) : Option (ℕ × UserHeap) :=
  match heapFindBestFit h size with
  | none => none
  | some bestFit => if bestFit = 0 then some (0, h) else some (mallocSplit h bestFit size)

/-- `malloc` on an initialised heap. -/
def mallocFit (map : MapMemory) (h : UserHeap) (size : ℕ) : Option (ℕ × UserHeap) :=
  if size = 0 then some (0, h)
  else
    match heapFindBestFit h size with
    | none => none
    | some bestFit =>
      if bestFit = 0 then
        let r := heapIncreaseSize map h 1
        if r.1 then mallocRetry r.2 size else some (0, r.2)
      else some (mallocSplit h bestFit size)

def malloc (map : MapMemory) (h : UserHeap) (size : ℕ) : Option (ℕ × UserHeap) :=
  if h.heapHead = 0 then
    let r := heapIncreaseSize map h 1
    if r.1 then mallocFit map r.2 size else some (0, r.2)
  else mallocFit map h size

def calloc (map : MapMemory) (h : UserHeap) (num size : ℕ) : Option (ℕ × UserHeap) :=
  match malloc map h (u32 (num * size)) with
  | none => none
  | some (ptr, h) =>
    if ptr ≠ 0 then some (ptr, { h with mem := h.mem.fill ptr 0 (u32 (num * size)) })
    else some (ptr, h)

/-! ## Freeing -/

def heapIsValidAddress (h : UserHeap) (ptr : ℕ) : Bool :=
  if u32 (h.heapHead + 20) ≤ ptr ∧ ptr ≤ u32 (h.heapTail + 20) then
    (h.mem.block (sub32 ptr 20)).magic == heapMagic
  else false

/-- Merge `block` into the previous block if that is free; the result is the block to
    go on with. -/
def freeMergePrev (h : UserHeap) (block : ℕ) : ℕ × UserHeap :=
  let prev := (h.mem.block block).prev
  if prev ≠ 0 ∧ (h.mem.block prev).magic = heapMagic ∧ (h.mem.block prev).free = true then
    let m := h.mem.setSize prev (u32 ((h.mem.block prev).size + (h.mem.block block).size + 20))
    let m := m.setNext prev (m.block block).next
    let h := relinkNext { h with mem := m } (m.block block).next (m.block block).prev
    (prev, { h with mem := h.mem.fill (u32 (prev + 20)) 0 (h.mem.block prev).size })
  else (block, h)

/-- Merge the block after `block` into it if that is free. -/
def freeMergeNext (h : UserHeap) (block : ℕ) : UserHeap :=
  let next := (h.mem.block block).next
  if next ≠ 0 ∧ (h.mem.block next).magic = heapMagic ∧ (h.mem.block next).free = true then
    let m := h.mem.setSize block (u32 ((h.mem.block block).size + (h.mem.block next).size + 20))
    let m := m.setNext block (m.block next).next
    let h := relinkNext { h with mem := m } (m.block next).next block
    { h with mem := h.mem.fill (u32 (block + 20)) 0 (h.mem.block block).size }
  else h

def free (h : UserHeap) (ptr : ℕ) : UserHeap :=
  if ptr = 0 then h
  else if !h.heapIsValidAddress ptr then h
  else
    let block := sub32 ptr 20
    let r := freeMergePrev { h with mem := h.mem.setFree block true } block
    freeMergeNext r.2 r.1

def realloc (map : MapMemory) (h : UserHeap) (ptr size : ℕ) : Option (ℕ × UserHeap) :=
  if ptr = 0 then malloc map h size
  else if size = 0 then some (0, free h ptr)
  else if !h.heapIsValidAddress ptr then some (0, h)
  else
    let block := sub32 ptr 20
    if size ≤ (h.mem.block block).size then some (ptr, h)
    else
      match malloc map h size with
      | none => none
      | some (newPtr, h) =>
        if newPtr = 0 then some (0, h)
        else
          let m := h.mem.copy newPtr ptr (h.mem.block block).size
          some (newPtr, free { h with mem := m } ptr)

end UserHeap

end Ttos
