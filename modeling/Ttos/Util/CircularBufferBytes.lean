/-
  The ring buffer as circular_buffer.h computes it: elements of any size, in
  the bytes of the kernel heap.

  * `RawRing.Holds`: the bytes of the slots are the elements of a `CircularBuffer`;
  * `RawRing.exec_holds`: every call keeps that, and hands over the same elements;
  * `circular_buffer_queue`: along any calls, the buffer is a queue that drops
    its oldest element when it is full.
-/
import Ttos.Memory.KheapPolicy
import Ttos.Util.CircularBuffer

namespace Ttos

/-! ## The functions -/

/-- `circular_buffer_t`, with the memory its storage lies in. -/
structure RawRing where
  mem : Mem
  buffer : ℕ
  head : ℕ
  tail : ℕ
  capacity : ℕ
  elementSize : ℕ
  full : Bool

/-- `sizeof(circular_buffer_t)` -/
abbrev circularBufferStructSize : ℕ := 24

/-- `circular_buffer_create` on the kernel heap: the buffer, or none for `NULL`, and the heap
    afterwards. -/
def rawCreate (h : Kheap) (capacity elementSize : ℕ) : Option (Option RawRing × Kheap) :=
  match h.kmalloc circularBufferStructSize with
  | none => none
  | some (ring, h) =>
    if ring = 0 then some (none, h)
    else
      match h.kmalloc (u32 (capacity * elementSize)) with
      | none => none
      | some (buffer, h) =>
        if buffer = 0 then some (none, h.kfree ring)
        else some (some ⟨h.mem, buffer, 0, 0, capacity, elementSize, false⟩, h)

namespace RawRing

variable (r : RawRing)

/-- The address of the slot at a position. -/
def slot (position : ℕ) : ℕ := u32 (r.buffer + position * r.elementSize)

/-- Copy the element at `element` into a slot. -/
def store (position : ℕ) (element : Mem) : RawRing :=
  { r with mem := r.mem.copyFrom (r.slot position) element 0 r.elementSize }

/-- What is at the caller's `element` after a slot was copied there. -/
def load (position : ℕ) (element : Mem) : Mem :=
  element.copyFrom 0 r.mem (r.slot position) r.elementSize

def size : ℕ :=
  if r.full then r.capacity
  else if r.tail ≤ r.head then r.head - r.tail
  else sub32 (u32 (r.capacity + r.head)) r.tail

def empty : Bool := r.tail = r.head ∧ r.full = false

def enqueue (element : Mem) : RawRing :=
  let r := r.store r.head element
  let r := if r.full then { r with tail := u32 (r.tail + 1) % r.capacity } else r
  let r := { r with head := u32 (r.head + 1) % r.capacity }
  { r with full := r.head = r.tail }

/-- `circular_buffer_dequeue`; `wanted` says that `element` is not `NULL`. -/
def dequeue (wanted : Bool) (element : Mem) : Mem × RawRing :=
  if r.tail = r.head ∧ r.full = false then (element, r)
  else
    (if wanted then r.load r.tail element else element,
      { r with tail := u32 (r.tail + 1) % r.capacity, full := false })

def get (index : ℕ) (element : Mem) : Mem :=
  if r.capacity ≤ index then element
  else if r.size ≤ index then element
  else r.load (u32 (r.tail + index) % r.capacity) element

def set (index : ℕ) (element : Mem) : RawRing :=
  if r.capacity ≤ index then r
  else if r.size ≤ index then r
  else r.store (u32 (r.tail + index) % r.capacity) element

end RawRing

/-! ## Calls -/

/-- A call, with the memory at the caller's `element`. -/
inductive RingCall where
  | enqueue (element : Mem)
  | dequeue (wanted : Bool) (element : Mem)
  | get (index : ℕ) (element : Mem)
  | set (index : ℕ) (element : Mem)

/-- What the call leaves at the caller's `element`, and the buffer afterwards. -/
def RawRing.exec (r : RawRing) : RingCall → Mem × RawRing
  | .enqueue element => (element, r.enqueue element)
  | .dequeue wanted element => r.dequeue wanted element
  | .get index element => (r.get index element, r)
  | .set index element => (element, r.set index element)

/-- The results of calls in a row, and the buffer after them. -/
def RawRing.run (r : RawRing) : List RingCall → List Mem × RawRing
  | [] => ([], r)
  | call :: calls =>
    let (element, r) := r.exec call
    let (elements, r) := r.run calls
    (element :: elements, r)

/-! ## The queue -/

/-- The `n` bytes at `a`. -/
def Mem.bytesAt (m : Mem) (a n : ℕ) : List UInt8 := (List.range n).map fun j => m (a + j)

/-- What the caller has at `element` after it was given `x`, or nothing. -/
def given (x : Option (List UInt8)) (element : Mem) : Mem :=
  match x with
  | none => element
  | some x => Mem.ofList x element

/-- A queue of at most `capacity` elements of `n` bytes, the oldest first: the same calls. -/
def queueExec (capacity n : ℕ) (q : List (List UInt8)) : RingCall → Mem × List (List UInt8)
  | .enqueue element =>
    (element, (if q.length = capacity then q.tail else q) ++ [element.bytesAt 0 n])
  | .dequeue wanted element => (if wanted then given q.head? element else element, q.tail)
  | .get index element => (given q[index]? element, q)
  | .set index element => (element, q.set index (element.bytesAt 0 n))

def queueRun (capacity n : ℕ) (q : List (List UInt8)) :
    List RingCall → List Mem × List (List UInt8)
  | [] => ([], q)
  | call :: calls =>
    let (element, q) := queueExec capacity n q call
    let (elements, q) := queueRun capacity n q calls
    (element :: elements, q)

/-! ## Bytes of an element -/

namespace Mem

variable {m m' : Mem} {a b n : ℕ}

@[simp] theorem length_bytesAt (m : Mem) (a n : ℕ) : (m.bytesAt a n).length = n := by
  simp [bytesAt]

theorem getElem_bytesAt {j : ℕ} (h : j < (m.bytesAt a n).length) :
    (m.bytesAt a n)[j] = m (a + j) := by simp [bytesAt]

theorem bytesAt_congr (h : ∀ j < n, m (a + j) = m' (b + j)) : m.bytesAt a n = m'.bytesAt b n := by
  refine List.ext_getElem (by simp) fun j h₁ h₂ => ?_
  rw [getElem_bytesAt, getElem_bytesAt]
  exact h j (by simpa using h₁)

theorem ofList_bytesAt (m m' : Mem) (a n : ℕ) : ofList (m.bytesAt a n) m' = m'.copyFrom 0 m a n := by
  ext x
  by_cases hx : x < n
  · rw [copyFrom_in (Nat.zero_le x) (by omega), ofList,
      List.getElem?_eq_getElem (by simpa using hx), Option.getD_some, getElem_bytesAt, Nat.sub_zero]
  · rw [copyFrom_out (Or.inr (by omega)), ofList, List.getElem?_eq_none (by simpa using hx),
      Option.getD_none]

end Mem

/-! ## The slots hold the elements -/

namespace RawRing

/-- The storage: `capacity` slots in the address space, few enough for 32-bit positions. -/
structure Fits (r : RawRing) : Prop where
  storage : r.buffer + r.capacity * r.elementSize < 4294967296
  capacity_le : r.capacity ≤ 2147483648

/-- The fields are those of `b`, and the slots hold its elements. -/
structure Holds (r : RawRing) (b : CircularBuffer (List UInt8)) : Prop where
  fits : r.Fits
  head : r.head = b.head
  tail : r.tail = b.tail
  capacity : r.capacity = b.capacity
  full : r.full = b.full
  slots : ∀ p < r.capacity, r.mem.bytesAt (r.slot p) r.elementSize = b.buffer p

variable {r : RawRing} {b : CircularBuffer (List UInt8)} {p q : ℕ}

theorem Fits.slot_eq (hf : r.Fits) (hp : p < r.capacity) :
    r.slot p = r.buffer + p * r.elementSize := by
  have h : p * r.elementSize ≤ r.capacity * r.elementSize := Nat.mul_le_mul_right _ hp.le
  have := hf.storage
  exact u32_of_lt (by omega)

/-- Different slots have no byte in common. -/
theorem Fits.slots_apart (hf : r.Fits) (hp : p < r.capacity) (hq : q < r.capacity) (hne : p ≠ q) :
    r.slot p + r.elementSize ≤ r.slot q ∨ r.slot q + r.elementSize ≤ r.slot p := by
  rw [hf.slot_eq hp, hf.slot_eq hq]
  rcases Nat.lt_or_gt_of_ne hne with h | h
  · have := Nat.mul_le_mul_right r.elementSize (Nat.succ_le_of_lt h)
    rw [Nat.succ_mul] at this
    omega
  · have := Nat.mul_le_mul_right r.elementSize (Nat.succ_le_of_lt h)
    rw [Nat.succ_mul] at this
    omega

theorem store_self (element : Mem) : ((r.store p element).mem.bytesAt (r.slot p) r.elementSize) =
    element.bytesAt 0 r.elementSize := by
  refine Mem.bytesAt_congr fun j hj => ?_
  show r.mem.copyFrom (r.slot p) element 0 r.elementSize _ = _
  rw [Mem.copyFrom_in (by omega) (by omega), Nat.add_sub_cancel_left]

theorem store_other (hf : r.Fits) (hp : p < r.capacity) (hq : q < r.capacity) (hne : q ≠ p)
    (element : Mem) : (r.store p element).mem.bytesAt (r.slot q) r.elementSize =
      r.mem.bytesAt (r.slot q) r.elementSize := by
  have hd := hf.slots_apart hq hp hne
  refine Mem.bytesAt_congr fun j hj => ?_
  exact Mem.copyFrom_out (by omega)

/-- Storing an element exchanges the element of the slot. -/
theorem Holds.store (h : r.Holds b) (hp : p < r.capacity) (element : Mem) :
    ∀ q < r.capacity, (r.store p element).mem.bytesAt (r.slot q) r.elementSize =
      Function.update b.buffer p (element.bytesAt 0 r.elementSize) q := by
  intro q hq
  by_cases hqp : q = p
  · subst hqp
    rw [Function.update_self]
    exact store_self element
  · rw [Function.update_of_ne hqp, ← h.slots q hq]
    exact store_other h.fits hp hq hqp element

theorem Holds.load (h : r.Holds b) (hp : p < r.capacity) (element : Mem) :
    r.load p element = given (some (b.buffer p)) element := by
  rw [← h.slots p hp]
  exact (Mem.ofList_bytesAt _ _ _ _).symm

theorem Holds.head_lt (h : r.Holds b) : r.head < r.capacity := by
  rw [h.head, h.capacity]
  exact b.head_lt

theorem Holds.tail_lt (h : r.Holds b) : r.tail < r.capacity := by
  rw [h.tail, h.capacity]
  exact b.tail_lt

/-- The size needs no more than 32 bits. -/
theorem Holds.size_eq (h : r.Holds b) : r.size = circularBufferSize b := by
  have hh := b.head_lt
  have ht := b.tail_lt
  have hc := h.capacity ▸ h.fits.capacity_le
  unfold size circularBufferSize
  rw [h.head, h.tail, h.capacity, h.full]
  split
  · rfl
  · split
    · rfl
    · unfold sub32 u32
      omega

theorem Holds.empty_eq (h : r.Holds b) : r.empty = circularBufferEmpty b := by
  unfold empty circularBufferEmpty
  rw [h.head, h.tail, h.full]

theorem Holds.enqueue (h : r.Holds b) (element : Mem) :
    (r.enqueue element).Holds (circularBufferEnqueue b (element.bytesAt 0 r.elementSize)) := by
  have hh := h.head_lt
  have ht := h.tail_lt
  have hc := h.fits.capacity_le
  have hhead : u32 (r.head + 1) % r.capacity = (b.head + 1) % b.capacity := by
    rw [u32_of_lt (by omega), h.head, h.capacity]
  have htail : u32 (r.tail + 1) % r.capacity = (b.tail + 1) % b.capacity := by
    rw [u32_of_lt (by omega), h.tail, h.capacity]
  have hst := h.store hh element
  rw [h.head] at hst
  cases hf : b.full with
  | true =>
    have hr : r.full = true := h.full.trans hf
    simp only [RawRing.enqueue, RawRing.store, hr, if_true, hhead, htail]
    refine ⟨⟨h.fits.storage, hc⟩, rfl, ?_, h.capacity, ?_, ?_⟩
    · simp [circularBufferEnqueue, hf]
    · simp [circularBufferEnqueue, hf]
    · rw [h.head]
      exact hst
  | false =>
    have hr : r.full = false := h.full.trans hf
    simp only [RawRing.enqueue, RawRing.store, hr, Bool.false_eq_true, if_false, hhead]
    refine ⟨⟨h.fits.storage, hc⟩, rfl, ?_, h.capacity, ?_, ?_⟩
    · simp [circularBufferEnqueue, hf, h.tail]
    · simp [circularBufferEnqueue, hf, h.tail]
    · rw [h.head]
      exact hst

theorem Holds.dequeue (h : r.Holds b) (wanted : Bool) (element : Mem) :
    (r.dequeue wanted element).1 =
        (if wanted then given (circularBufferDequeue b).1 element else element) ∧
      (r.dequeue wanted element).2.Holds (circularBufferDequeue b).2 := by
  have ht := h.tail_lt
  have hc := h.fits.capacity_le
  by_cases he : r.tail = r.head ∧ r.full = false
  · have hb : b.tail = b.head ∧ b.full = false := by rwa [← h.tail, ← h.head, ← h.full]
    rw [RawRing.dequeue, if_pos he, circularBufferDequeue, if_pos hb]
    refine ⟨?_, h⟩
    cases wanted <;> rfl
  · have hb : ¬ (b.tail = b.head ∧ b.full = false) := by rwa [← h.tail, ← h.head, ← h.full]
    rw [RawRing.dequeue, if_neg he, circularBufferDequeue, if_neg hb]
    constructor
    · rw [h.load ht, h.tail]
    · refine ⟨⟨h.fits.storage, hc⟩, h.head, ?_, h.capacity, rfl, h.slots⟩
      show u32 (r.tail + 1) % r.capacity = _
      rw [u32_of_lt (by omega), h.tail, h.capacity]

/-- The position of an element needs no more than 32 bits. -/
theorem Holds.position (h : r.Holds b) {i : ℕ} (hi : i < r.capacity) :
    u32 (r.tail + i) % r.capacity = (b.tail + i) % b.capacity := by
  have ht := h.tail_lt
  have hc := h.fits.capacity_le
  rw [u32_of_lt (by omega), h.tail, h.capacity]

theorem Holds.get (h : r.Holds b) (i : ℕ) (element : Mem) :
    r.get i element = given (circularBufferGet b i) element := by
  unfold RawRing.get circularBufferGet
  rw [h.size_eq, ← h.capacity]
  split
  · rfl
  rename_i hi
  split
  · rfl
  · have hp := h.position (Nat.not_le.1 hi)
    rw [h.load (Nat.mod_lt _ (by omega)), hp, h.capacity]

theorem Holds.set (h : r.Holds b) (i : ℕ) (element : Mem) :
    (r.set i element).Holds (circularBufferSet b i (element.bytesAt 0 r.elementSize)) := by
  unfold RawRing.set circularBufferSet
  rw [h.size_eq, h.capacity]
  split
  · exact h
  rename_i hi
  split
  · exact h
  · have hi' : i < r.capacity := h.capacity ▸ Nat.not_le.1 hi
    have hp := h.position hi'
    rw [h.capacity] at hp
    rw [hp]
    have hlt : (b.tail + i) % b.capacity < r.capacity := by
      rw [h.capacity]
      exact Nat.mod_lt _ (by omega)
    exact ⟨⟨h.fits.storage, h.fits.capacity_le⟩, h.head, h.tail, h.capacity, h.full,
      h.store hlt element⟩

/-- **Every call keeps the elements**, and hands over what the calls on the queue hand over. -/
theorem exec_holds (h : r.Holds b) (call : RingCall) :
    ∃ b' : CircularBuffer (List UInt8), (r.exec call).2.Holds b' ∧ b'.capacity = b.capacity ∧
      (r.exec call).2.elementSize = r.elementSize ∧
      (r.exec call).1 = (queueExec b.capacity r.elementSize b.contents call).1 ∧
      b'.contents = (queueExec b.capacity r.elementSize b.contents call).2 := by
  cases call with
  | enqueue element =>
    refine ⟨_, h.enqueue element, rfl, ?_, rfl, ?_⟩
    · cases hf : r.full <;> simp [exec, RawRing.enqueue, RawRing.store, hf]
    · rw [CircularBuffer.contents_enqueue]
      simp only [queueExec, CircularBuffer.length_contents, CircularBuffer.size_eq_capacity]
  | dequeue wanted element =>
    obtain ⟨h1, h2⟩ := h.dequeue wanted element
    obtain ⟨h3, h4⟩ := CircularBuffer.contents_dequeue b
    refine ⟨_, h2, CircularBuffer.capacity_dequeue b, ?_, ?_, h4⟩
    · simp only [exec, RawRing.dequeue]
      split <;> rfl
    · rw [exec, h1, h3]
      rfl
  | get index element =>
    refine ⟨b, h, rfl, rfl, ?_, rfl⟩
    rw [exec, h.get, CircularBuffer.get_eq]
    rfl
  | set index element =>
    refine ⟨_, h.set index element, CircularBuffer.capacity_set b _ _, ?_, rfl, ?_⟩
    · simp only [exec, RawRing.set, RawRing.store]
      split_ifs <;> rfl
    · exact CircularBuffer.contents_set b _ _

theorem run_holds (h : r.Holds b) (calls : List RingCall) :
    ∃ b' : CircularBuffer (List UInt8), (r.run calls).2.Holds b' ∧ b'.capacity = b.capacity ∧
      (r.run calls).1 = (queueRun b.capacity r.elementSize b.contents calls).1 ∧
      b'.contents = (queueRun b.capacity r.elementSize b.contents calls).2 := by
  induction calls generalizing r b with
  | nil => exact ⟨b, h, rfl, rfl, rfl⟩
  | cons call calls ih =>
    obtain ⟨b₁, h₁, hc₁, he₁, hr₁, hq₁⟩ := exec_holds h call
    obtain ⟨b₂, h₂, hc₂, hr₂, hq₂⟩ := ih h₁
    rw [hc₁, he₁, hq₁] at hr₂ hq₂
    refine ⟨b₂, h₂, hc₂.trans hc₁, ?_, hq₂⟩
    simp only [RawRing.run, queueRun, hr₁, hr₂]

/-- A new buffer in the kernel heap. -/
theorem rawCreate_holds {base capacity elementSize : ℕ} {s : HeapRun}
    (hr : (heapSystem base).Reachable s) (hc : 1 ≤ capacity)
    (hm : capacity * elementSize < 4294967296) {h' : Kheap}
    (hcreate : rawCreate s.heap capacity elementSize = some (some r, h')) :
    ∃ b : CircularBuffer (List UInt8), r.Holds b ∧ b.contents = [] ∧ b.capacity = capacity ∧
      r.elementSize = elementSize := by
  obtain ⟨bs, hi⟩ := HeapRun.reachable_inv hr
  unfold rawCreate at hcreate
  rcases Kheap.kmallocInt_spec hi.good circularBufferStructSize false with
    h1 | ⟨b₁, h₁, bs₁, h1, hg₁, -⟩
  · have h1 : s.heap.kmalloc circularBufferStructSize = some (0, s.heap) := h1
    rw [h1] at hcreate
    simp at hcreate
  have h1 : s.heap.kmalloc circularBufferStructSize = some (b₁.data, h₁) := h1
  have hne₁ : b₁.data ≠ 0 := by simp [Blk.data]
  rw [h1] at hcreate
  simp only [if_neg hne₁] at hcreate
  rcases Kheap.kmallocInt_spec hg₁ (u32 (capacity * elementSize)) false with
    h2 | ⟨b₂, h₂, bs₂, h2, hg₂, hperm, hpos, hsize, -⟩
  · have h2 : h₁.kmalloc (u32 (capacity * elementSize)) = some (0, h₁) := h2
    rw [h2] at hcreate
    simp at hcreate
  have h2 : h₁.kmalloc (u32 (capacity * elementSize)) = some (b₂.data, h₂) := h2
  have hne₂ : b₂.data ≠ 0 := by simp [Blk.data]
  rw [h2] at hcreate
  simp only [if_neg hne₂, Option.some.injEq, Prod.mk.injEq] at hcreate
  obtain ⟨rfl, -⟩ := hcreate
  -- the storage is a block of the heap, which is far smaller than the address space
  have hmem : b₂ ∈ bs₂ := (mem_allocated.1 (hperm.mem_iff.2 (List.mem_cons_self ..))).1
  have hrange := hg₂.inv.mem_range hmem
  have hbounds := hg₂.inv.bounds
  simp only [kheapHeapSize] at hrange
  rw [u32_of_lt hm] at hpos hsize
  have hle : capacity ≤ capacity * elementSize :=
    Nat.le_mul_of_pos_right _ (Nat.pos_of_mul_pos_left hpos)
  refine ⟨⟨fun p => h₂.mem.bytesAt (u32 (b₂.data + p * elementSize)) elementSize, 0, 0, capacity,
    false, hc, hc, Bool.noConfusion⟩, ⟨⟨?_, ?_⟩, rfl, rfl, rfl, rfl, fun p _ => rfl⟩, ?_, rfl, rfl⟩
  · simp only [Blk.data]
    omega
  · show capacity ≤ 2147483648
    omega
  · rw [CircularBuffer.contents_eq_nil]
    simp [circularBufferEmpty]

end RawRing

variable {base capacity elementSize : ℕ} {s : HeapRun} {r : RawRing} {h' : Kheap}

/-- **The ring buffer is a bounded queue.** For a buffer created in the kernel heap and any calls,
    every call hands over what the queue hands over, and afterwards size, emptiness and
    fullness are those of the queue. -/
theorem circular_buffer_queue (hr : (heapSystem base).Reachable s) (hc : 1 ≤ capacity)
    (hm : capacity * elementSize < 4294967296)
    (hcreate : rawCreate s.heap capacity elementSize = some (some r, h')) (calls : List RingCall) :
    let queue := (queueRun capacity elementSize [] calls).2
    (r.run calls).1 = (queueRun capacity elementSize [] calls).1 ∧
      queue.length ≤ capacity ∧ (r.run calls).2.size = queue.length ∧
      ((r.run calls).2.empty = true ↔ queue = []) ∧
      ((r.run calls).2.full = true ↔ queue.length = capacity) := by
  obtain ⟨b, hb, hnil, hcap, hes⟩ := RawRing.rawCreate_holds hr hc hm hcreate
  obtain ⟨b', hb', hcap', hrun, hq⟩ := RawRing.run_holds hb calls
  rw [hnil, hcap, hes] at hrun hq
  have hlen : (queueRun capacity elementSize [] calls).2.length = circularBufferSize b' := by
    rw [← hq, CircularBuffer.length_contents]
  have hcb : b'.capacity = capacity := hcap'.trans hcap
  refine ⟨hrun, ?_, ?_, ?_, ?_⟩
  · rw [hlen, ← hcb]
    exact b'.size_le
  · rw [hb'.size_eq, hlen]
  · rw [hb'.empty_eq, ← CircularBuffer.contents_eq_nil, hq]
  · rw [hb'.full, ← CircularBuffer.size_eq_capacity, hcb, hlen]

/-- The buffers of the terminal, in an empty heap: 1024 elements of one byte. -/
theorem rawCreate_first : ∃ (s : HeapRun) (r : RawRing) (h' : Kheap),
    (heapSystem 0xD0000000).Reachable s ∧ rawCreate s.heap 1024 1 = some (some r, h') := by
  obtain ⟨h, hk, hr⟩ := heapSystem_init
  have hi := (Kheap.kheapInit_spec ⟨by decide, by decide⟩ hk).inv
  obtain ⟨b₁, ls, rs, h₁, -, hbs, h1, hne₁, hblocks⟩ :=
    (Kheap.kmallocInt_policy hi (show 0 < circularBufferStructSize by decide) false).best
      ⟨_, List.mem_singleton_self _, rfl, by decide, by simp⟩
  obtain ⟨rfl, hb⟩ : ls = [] ∧ b₁ :: rs = [⟨0xD0000000, kheapHeapSize - 20, true⟩] := by
    cases ls with
    | nil => exact ⟨rfl, hbs.symm⟩
    | cons b ls => simp at hbs
  obtain ⟨rfl, rfl⟩ := List.cons.inj hb
  rcases Kheap.kmallocInt_spec (Kheap.kheapInit_spec ⟨by decide, by decide⟩ hk)
    circularBufferStructSize false with h1' | ⟨b, h₁', bs₁, h1', hg₁, -⟩
  · rw [h1] at h1'
    exact absurd (congrArg Prod.fst (Option.some.inj h1')) hne₁
  obtain ⟨-, rfl⟩ : _ ∧ h₁ = h₁' := by simpa [h1] using h1'
  -- the rest of the heap is large enough for the storage
  have hbs₁ := (Kheap.blocks_eq hg₁.inv).symm.trans hblocks
  obtain ⟨b₂, ls₂, rs₂, h₂, -, -, h2, hne₂, -⟩ :=
    (Kheap.kmallocInt_policy hg₁.inv (show 0 < u32 (1024 * 1) by decide) false).best
      ⟨⟨0xD0000000 + 24 + 20, kheapHeapSize - 20 - 24 - 20, true⟩, by
        rw [Option.some.inj hbs₁]
        decide, rfl, by decide, by simp⟩
  refine ⟨⟨h, []⟩, ⟨h₂.mem, b₂.carved false, 0, 0, 1024, 1, false⟩, h₂, hr, ?_⟩
  have h1 : h.kmalloc circularBufferStructSize = some (_, h₁) := h1
  have h2 : h₁.kmalloc (u32 (1024 * 1)) = some (b₂.carved false, h₂) := h2
  simp only [rawCreate, h1, h2, if_neg hne₁, if_neg hne₂]

theorem circular_buffer_queue_first : ∃ (s : HeapRun) (r : RawRing) (h' : Kheap),
    rawCreate s.heap 1024 1 = some (some r, h') ∧ ∀ calls,
      (r.run calls).1 = (queueRun 1024 1 [] calls).1 := by
  obtain ⟨s, r, h', hr, hcreate⟩ := rawCreate_first
  exact ⟨s, r, h', hcreate, fun calls =>
    (circular_buffer_queue hr (by decide) (by decide) hcreate calls).1⟩

end Ttos
