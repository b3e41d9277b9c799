/-
  The ring buffer (circular_buffer.h) and the queue it holds.

  * `CircularBuffer.contents`: the elements, the oldest first;
  * `contents_enqueue`: an enqueue appends, and drops the oldest element first
    if the buffer is full;
  * `contents_dequeue`: a dequeue returns and removes the oldest element;
  * `get_eq`, `contents_set`: access to the element at a position.
-/
import Mathlib.Data.Int.ModEq
import Mathlib.Data.List.Basic
import Mathlib.Logic.Function.Basic

namespace Ttos

/-- `circular_buffer_t`: `buffer` holds `capacity` elements, `full` tells a
    full buffer from an empty one. -/
structure CircularBuffer (α : Type*) where
  buffer : ℕ → α
  head : ℕ
  tail : ℕ
  capacity : ℕ
  full : Bool
  head_lt : head < capacity
  tail_lt : tail < capacity
  full_eq : full = true → head = tail

variable {α : Type*} (b : CircularBuffer α)

/-- `circular_buffer_create`; `stale` is what the allocated elements hold. -/
def circularBufferCreate (capacity : ℕ) (h : 0 < capacity) (stale : ℕ → α) : CircularBuffer α where
  buffer := stale
  head := 0
  tail := 0
  capacity := capacity
  full := false
  head_lt := h
  tail_lt := h
  full_eq := fun _ => rfl

def circularBufferEnqueue (element : α) : CircularBuffer α :=
  let tail := if b.full then (b.tail + 1) % b.capacity else b.tail
  let head := (b.head + 1) % b.capacity
  { buffer := Function.update b.buffer b.head element
    head := head
    tail := tail
    capacity := b.capacity
    full := head = tail
    head_lt := Nat.mod_lt _ ((Nat.zero_le _).trans_lt b.head_lt)
    tail_lt := by
      show (if b.full then (b.tail + 1) % b.capacity else b.tail) < b.capacity
      split
      · exact Nat.mod_lt _ ((Nat.zero_le _).trans_lt b.head_lt)
      · exact b.tail_lt
    full_eq := of_decide_eq_true }

/-- `circular_buffer_dequeue`; `none` leaves the caller's element as it was. -/
def circularBufferDequeue : Option α × CircularBuffer α :=
  if b.tail = b.head ∧ b.full = false then (none, b)
  else (some (b.buffer b.tail),
    { b with
      tail := (b.tail + 1) % b.capacity
      full := false
      tail_lt := Nat.mod_lt _ ((Nat.zero_le _).trans_lt b.head_lt)
      full_eq := Bool.noConfusion })

def circularBufferSize : ℕ :=
  if b.full then b.capacity
  else if b.tail ≤ b.head then b.head - b.tail
  else b.capacity + b.head - b.tail

def circularBufferEmpty : Bool := b.tail = b.head ∧ b.full = false

def circularBufferFull : Bool := b.full

/-- `circular_buffer_get`; `none` leaves the caller's element as it was. -/
def circularBufferGet (index : ℕ) : Option α :=
  if b.capacity ≤ index then none
  else if circularBufferSize b ≤ index then none
  else some (b.buffer ((b.tail + index) % b.capacity))

def circularBufferSet (index : ℕ) (element : α) : CircularBuffer α :=
  if b.capacity ≤ index then b
  else if circularBufferSize b ≤ index then b
  else { b with buffer := Function.update b.buffer ((b.tail + index) % b.capacity) element }

namespace CircularBuffer

/-- The elements, the oldest first. -/
def contents : List α :=
  (List.range (circularBufferSize b)).map fun i => b.buffer ((b.tail + i) % b.capacity)

@[simp] theorem length_contents : b.contents.length = circularBufferSize b := by simp [contents]

theorem getElem_contents {i : ℕ} (h : i < b.contents.length) :
    b.contents[i] = b.buffer ((b.tail + i) % b.capacity) := by simp [contents]

theorem size_le : circularBufferSize b ≤ b.capacity := by
  have := b.head_lt
  unfold circularBufferSize
  split
  · exact le_rfl
  · split <;> omega

/-- The slot after the last element is the one written next. -/
theorem tail_add_size : (b.tail + circularBufferSize b) % b.capacity = b.head := by
  have hh := b.head_lt
  have ht := b.tail_lt
  unfold circularBufferSize
  split
  · rename_i hf
    rw [Nat.add_mod_right, b.full_eq hf, Nat.mod_eq_of_lt ht]
  · split
    · rw [Nat.add_sub_cancel' (by assumption), Nat.mod_eq_of_lt hh]
    · rw [show b.tail + (b.capacity + b.head - b.tail) = b.head + b.capacity by omega,
        Nat.add_mod_right, Nat.mod_eq_of_lt hh]

/-- Within one turn, two positions of the ring differ. -/
theorem slot_ne {c t i j : ℕ} (hij : i < j) (hj : j < i + c) : (t + i) % c ≠ (t + j) % c := by
  intro h
  have hd : c ∣ t + j - (t + i) := (Nat.modEq_iff_dvd' (by omega)).1 h
  have := Nat.le_of_dvd (by omega) hd
  omega

theorem size_eq_zero : circularBufferSize b = 0 ↔ circularBufferEmpty b = true := by
  have hh := b.head_lt
  have ht := b.tail_lt
  unfold circularBufferSize circularBufferEmpty
  cases b.full with
  | true => simp; omega
  | false => simp; split <;> omega

theorem contents_eq_nil : b.contents = [] ↔ circularBufferEmpty b = true := by
  rw [← List.length_eq_zero_iff, length_contents, size_eq_zero]

@[simp] theorem contents_create (capacity : ℕ) (h : 0 < capacity) (stale : ℕ → α) :
    (circularBufferCreate capacity h stale).contents = [] := by
  simp [contents_eq_nil, circularBufferEmpty, circularBufferCreate]

@[simp] theorem capacity_enqueue (x : α) : (circularBufferEnqueue b x).capacity = b.capacity := rfl

@[simp] theorem capacity_dequeue : (circularBufferDequeue b).2.capacity = b.capacity := by
  unfold circularBufferDequeue
  split <;> rfl

/-- A buffer is full when it holds `capacity` elements. -/
theorem size_eq_capacity : circularBufferSize b = b.capacity ↔ b.full = true := by
  have hh := b.head_lt
  have ht := b.tail_lt
  unfold circularBufferSize
  cases b.full with
  | true => simp
  | false => simp; split <;> omega

/-- The ring seen from `tail + 1` after one more element went in at `tail + n`. -/
theorem size_enqueue (x : α) : circularBufferSize (circularBufferEnqueue b x) =
    if b.full then b.capacity else circularBufferSize b + 1 := by
  have hh := b.head_lt
  have ht := b.tail_lt
  have hm : (b.head + 1) % b.capacity = if b.head + 1 = b.capacity then 0 else b.head + 1 := by
    split
    · rename_i h; rw [h, Nat.mod_self]
    · exact Nat.mod_eq_of_lt (by omega)
  cases hf : b.full with
  | true => simp [circularBufferSize, circularBufferEnqueue, hf, b.full_eq hf]
  | false =>
    simp only [circularBufferSize, circularBufferEnqueue, hf, hm, if_false, Bool.false_eq_true,
      decide_eq_true_eq]
    split_ifs <;> omega

/-- **An enqueue appends, and drops the oldest element first if the buffer is full.** -/
theorem contents_enqueue (x : α) : (circularBufferEnqueue b x).contents =
    (if b.full then b.contents.tail else b.contents) ++ [x] := by
  have hsz := b.size_le
  have hpos : 0 < b.capacity := (Nat.zero_le _).trans_lt b.head_lt
  cases hf : b.full with
  | true =>
    have hs : circularBufferSize b = b.capacity := (size_eq_capacity b).2 hf
    have hht : b.head = b.tail := b.full_eq hf
    refine List.ext_getElem (by simp [size_enqueue, hf, hs]; omega) fun i h₁ h₂ => ?_
    have hi : i < b.capacity := by simpa [size_enqueue, hf] using h₁
    rw [getElem_contents]
    have ht : (circularBufferEnqueue b x).tail = (b.tail + 1) % b.capacity := by
      simp [circularBufferEnqueue, hf]
    rw [ht, capacity_enqueue, Nat.mod_add_mod]
    show Function.update b.buffer b.head x _ = _
    by_cases hl : i + 1 = b.capacity
    · have hp : (b.tail + 1 + i) % b.capacity = b.head := by
        rw [add_assoc, add_comm 1 i, hl, Nat.add_mod_right, Nat.mod_eq_of_lt b.tail_lt, hht]
      rw [List.getElem_append_right (by simp [hs]; omega), hp]
      simp
    · have hne : (b.tail + 1 + i) % b.capacity ≠ b.head := by
        rw [hht, add_assoc, add_comm 1 i]
        have := slot_ne (c := b.capacity) (t := b.tail) (i := 0) (j := i + 1) (by omega) (by omega)
        rw [add_zero, Nat.mod_eq_of_lt b.tail_lt] at this
        exact this.symm
      rw [List.getElem_append_left (by simp [hs]; omega)]
      simp only [if_true, Function.update_of_ne hne, List.getElem_tail]
      rw [getElem_contents, add_assoc, add_comm 1 i]
  | false =>
    have hs : circularBufferSize b < b.capacity := by
      have := mt (size_eq_capacity b).1 (by simp [hf])
      omega
    refine List.ext_getElem (by simp [size_enqueue, hf]) fun i h₁ h₂ => ?_
    have hi : i < circularBufferSize b + 1 := by simpa [size_enqueue, hf] using h₁
    rw [getElem_contents]
    have ht : (circularBufferEnqueue b x).tail = b.tail := by simp [circularBufferEnqueue, hf]
    rw [ht, capacity_enqueue]
    show Function.update b.buffer b.head x _ = _
    by_cases hl : i = circularBufferSize b
    · rw [List.getElem_append_right (by simp; omega)]
      subst hl
      simp [tail_add_size]
    · have hne : (b.tail + i) % b.capacity ≠ b.head := by
        rw [← tail_add_size b]
        exact slot_ne (by omega) (by omega)
      rw [List.getElem_append_left (by simp; omega)]
      simp only [Bool.false_eq_true, if_false, Function.update_of_ne hne]
      rw [getElem_contents]

/-- Elements pushed into a full buffer push the oldest ones out. -/
theorem contents_foldl_enqueue (b : CircularBuffer α) (xs : List α) :
    (xs.foldl circularBufferEnqueue b).contents =
        (b.contents ++ xs).drop (b.contents.length + xs.length - b.capacity) ∧
      (xs.foldl circularBufferEnqueue b).capacity = b.capacity := by
  induction xs generalizing b with
  | nil =>
    have hsz := b.size_le
    rw [← length_contents] at hsz
    rw [List.append_nil, List.length_nil, Nat.add_zero, Nat.sub_eq_zero_of_le hsz]
    exact ⟨rfl, rfl⟩
  | cons x xs ih =>
    obtain ⟨hc, hcap⟩ := ih (circularBufferEnqueue b x)
    have hsz := b.size_le
    have hpos : 0 < b.capacity := (Nat.zero_le _).trans_lt b.head_lt
    have hone : (circularBufferEnqueue b x).contents =
        (b.contents ++ [x]).drop (b.contents.length + 1 - b.capacity) := by
      rw [contents_enqueue, length_contents]
      cases hf : b.full with
      | true =>
        have hs : circularBufferSize b = b.capacity := b.size_eq_capacity.2 hf
        have hlen : 1 ≤ b.contents.length := by rw [length_contents]; omega
        rw [hs, Nat.add_sub_cancel_left, List.drop_append_of_le_length hlen, List.drop_one]
        rfl
      | false =>
        have hs : circularBufferSize b ≠ b.capacity := by
          rw [Ne, b.size_eq_capacity, hf]
          exact Bool.false_ne_true
        rw [Nat.sub_eq_zero_of_le (by omega)]
        rfl
    rw [← length_contents] at hsz
    have hle : b.contents.length + 1 - b.capacity ≤ (b.contents ++ [x]).length := by
      rw [List.length_append, List.length_singleton]
      omega
    rw [List.foldl_cons, hc, hcap, capacity_enqueue, hone, ← List.drop_append_of_le_length hle,
      List.drop_drop, List.append_assoc, List.singleton_append, List.length_drop,
      List.length_append, List.length_singleton, List.length_cons]
    refine ⟨?_, rfl⟩
    congr 1
    omega

theorem size_dequeue (h : circularBufferEmpty b = false) :
    circularBufferSize (circularBufferDequeue b).2 + 1 = circularBufferSize b := by
  have hh := b.head_lt
  have ht := b.tail_lt
  have hm : (b.tail + 1) % b.capacity = if b.tail + 1 = b.capacity then 0 else b.tail + 1 := by
    split
    · rename_i h; rw [h, Nat.mod_self]
    · exact Nat.mod_eq_of_lt (by omega)
  have he : ¬ (b.tail = b.head ∧ b.full = false) := of_decide_eq_false h
  rw [circularBufferDequeue, if_neg he]
  cases hf : b.full with
  | true =>
    have := b.full_eq hf
    simp only [circularBufferSize, hf, hm, if_true, if_false, Bool.false_eq_true]
    split_ifs <;> omega
  | false =>
    have : b.tail ≠ b.head := fun h' => he ⟨h', hf⟩
    simp only [circularBufferSize, hf, hm, if_false, Bool.false_eq_true]
    split_ifs <;> omega

/-- **A dequeue returns and removes the oldest element.** -/
theorem contents_dequeue : (circularBufferDequeue b).1 = b.contents.head? ∧
    (circularBufferDequeue b).2.contents = b.contents.tail := by
  cases he : circularBufferEmpty b with
  | true =>
    have hn := (contents_eq_nil b).2 he
    rw [circularBufferDequeue, if_pos (of_decide_eq_true he)]
    exact ⟨by rw [hn]; rfl, by rw [hn]; rfl⟩
  | false =>
    have hs := size_dequeue b he
    have hd : circularBufferDequeue b = (some (b.buffer b.tail), _) :=
      if_neg (of_decide_eq_false he)
    have hpos : 0 < b.contents.length := by rw [length_contents]; omega
    constructor
    · rw [hd, List.head?_eq_getElem?, List.getElem?_eq_getElem hpos, getElem_contents, add_zero,
        Nat.mod_eq_of_lt b.tail_lt]
    · refine List.ext_getElem (by simp; omega) fun i h₁ h₂ => ?_
      rw [getElem_contents, List.getElem_tail, getElem_contents, capacity_dequeue]
      have ht : (circularBufferDequeue b).2.tail = (b.tail + 1) % b.capacity := by rw [hd]
      have hb : (circularBufferDequeue b).2.buffer = b.buffer := by rw [hd]
      rw [ht, hb, Nat.mod_add_mod, add_assoc, add_comm 1 i]

/-! ## Access by position -/

theorem get_eq (i : ℕ) : circularBufferGet b i = b.contents[i]? := by
  have hs := b.size_le
  unfold circularBufferGet
  split
  · rw [List.getElem?_eq_none (by rw [length_contents]; omega)]
  split
  · rw [List.getElem?_eq_none (by rw [length_contents]; omega)]
  · rename_i _ hi
    rw [List.getElem?_eq_getElem (by rw [length_contents]; omega), getElem_contents]

@[simp] theorem capacity_set (i : ℕ) (x : α) : (circularBufferSet b i x).capacity = b.capacity := by
  unfold circularBufferSet
  split_ifs <;> rfl

theorem size_set (i : ℕ) (x : α) :
    circularBufferSize (circularBufferSet b i x) = circularBufferSize b := by
  unfold circularBufferSet
  split_ifs <;> rfl

/-- **A set exchanges the element at its position**, and does nothing behind the last one. -/
theorem contents_set (i : ℕ) (x : α) : (circularBufferSet b i x).contents = b.contents.set i x := by
  have hs := b.size_le
  by_cases hi : i < circularBufferSize b
  · have hset : circularBufferSet b i x =
        { b with buffer := Function.update b.buffer ((b.tail + i) % b.capacity) x } := by
      rw [circularBufferSet, if_neg (by omega), if_neg (by omega)]
    refine List.ext_getElem (by simp [size_set]) fun j h₁ h₂ => ?_
    have hj : j < circularBufferSize b := by simpa [size_set] using h₁
    rw [getElem_contents, hset]
    show Function.update b.buffer ((b.tail + i) % b.capacity) x ((b.tail + j) % b.capacity) = _
    by_cases hij : i = j
    · subst hij
      rw [Function.update_self, List.getElem_set_self]
    · have hne : (b.tail + j) % b.capacity ≠ (b.tail + i) % b.capacity := by
        rcases Nat.lt_or_gt_of_ne hij with h | h
        · exact (slot_ne h (by omega)).symm
        · exact slot_ne h (by omega)
      rw [Function.update_of_ne hne, List.getElem_set_ne hij, getElem_contents]
  · have hset : circularBufferSet b i x = b := by
      unfold circularBufferSet
      rw [if_pos (Nat.not_lt.1 hi), ite_self]
    rw [hset, List.set_eq_of_length_le (by rw [length_contents]; omega)]

end CircularBuffer

end Ttos
