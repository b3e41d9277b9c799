/-
  Numbers as text: `itoa` (util/numeric.c, the same code again in libc's itoa.c)
  and `strrev` (util/string.c), on a local buffer of the caller.

  * The buffer is a memory of its own, and every element used is recorded.
  * `itoaText n base`: the digits of `n`, as one writes them.
  * `itoa_touches`: `itoa` leaves that text in the buffer, ended by a zero byte,
    and uses exactly the elements it lies in.
-/
import Ttos.Lib.CString
import Ttos.Lib.TracedState
import Ttos.Lib.Word
import Mathlib.Data.Nat.Digits.Lemmas
import Mathlib.Order.Interval.Set.Basic

namespace Ttos

/-- What is recorded of a formatter: the bytes of the format it reads, and the
    elements of its local buffer (`num_str`, `ptr_str`) it reads or writes. -/
inductive FormatAccess where
  | format (a : ℕ)
  | buffer (i : ℕ)
deriving DecidableEq, Repr

/-- `endless`: a loop took more rounds than it was given; `argument`: a variable
    argument is missing or has another type, which leaves the behaviour undefined. -/
inductive FormatFault where
  | endless
  | argument
deriving DecidableEq, Repr

/-- A computation on the local buffer. -/
abbrev Buffered := TracedState FormatAccess Mem FormatFault

namespace Buffered

def fail {α : Type} (e : FormatFault) : Buffered α := fun _ => Traced.lift (.error e)

def load (i : ℕ) : Buffered UInt8 := fun m => do
  Traced.tell (.buffer i)
  return (m i, m)

def store (i : ℕ) (c : UInt8) : Buffered Unit := fun m => do
  Traced.tell (.buffer i)
  return ((), m.store8 i c)

/-- From the contents `m`, the computation returns `a`, leaves `m'` and uses
    exactly the elements in `A`. -/
def Uses {α : Type} (x : Buffered α) (m : Mem) (A : Set ℕ) (a : α) (m' : Mem) : Prop :=
  (x m).Touches (Set.image FormatAccess.buffer A) (a, m')

variable {α β : Type} {x : Buffered α} {f : α → Buffered β} {A B : Set ℕ} {a : α} {b : β}
  {m m' m'' : Mem}

theorem Uses.pure (a : α) (m : Mem) : Uses (Pure.pure a) m ∅ a m :=
  (Traced.Touches.pure (a, m)).mono (Set.image_empty _).symm

theorem Uses.bind (hx : Uses x m A a m') (hf : Uses (f a) m' B b m'') :
    Uses (x >>= f) m (A ∪ B) b m'' := by
  have h : ((x >>= f) m).Touches _ (b, m'') :=
    Traced.Touches.bind (f := fun r : α × Mem => f r.1 r.2) hx hf
  exact h.mono (Set.image_union ..).symm

theorem Uses.mono (h : Uses x m A a m') (hA : A = B) : Uses x m B a m' := hA ▸ h

theorem uses_load (i : ℕ) (m : Mem) : Uses (load i) m {i} (m i) m := by
  have h := (Traced.Touches.tell (ε := FormatFault) (FormatAccess.buffer i)).bind
    (f := fun _ => pure (m i, m)) (.pure _)
  exact h.mono (by rw [Set.union_empty, Set.image_singleton])

theorem uses_store (i : ℕ) (c : UInt8) (m : Mem) : Uses (store i c) m {i} () (m.store8 i c) := by
  have h := (Traced.Touches.tell (ε := FormatFault) (FormatAccess.buffer i)).bind
    (f := fun _ => pure ((), m.store8 i c)) (.pure _)
  exact h.mono (by rw [Set.union_empty, Set.image_singleton])

end Buffered

open Buffered

/-! ## The code -/

/-- `strlen(buf)` from the element `len` on. -/
def bufferStrlen : ℕ → ℕ → Buffered ℕ
  | 0, _ => fail .endless
  | k + 1, len => do
    if (← load len) = 0 then return len
    bufferStrlen k (len + 1)

/-- The loop of `strrev`. -/
def strrevLoop : ℕ → ℕ → ℕ → Buffered Unit
  | 0, _, _ => fail .endless
  | k + 1, ptr1, ptr2 =>
    if ptr1 < ptr2 then do
      let c ← load ptr1
      store ptr1 (← load ptr2)
      store ptr2 c
      strrevLoop k (ptr1 + 1) (ptr2 - 1)
    else pure ()

def strrev (fuel : ℕ) : Buffered Unit := do
  let len ← bufferStrlen fuel 0
  strrevLoop fuel 0 (len - 1)

/-- `ITOA_CHARS[d]` -/
def itoaChar (d : ℕ) : UInt8 := UInt8.ofNat (if d < 10 then 0x30 + d else 0x41 + (d - 10))

/-- The loop of `itoa` over the digits; `n` is the 32-bit word, which is what
    `n % base` and `n /= base` compute with. -/
def itoaDigits (base : ℕ) : ℕ → ℕ → ℕ → Buffered ℕ
  | 0, _, _ => fail .endless
  | k + 1, n, ptr =>
    if n = 0 then pure ptr
    else do
      store ptr (itoaChar (n % base))
      itoaDigits base k (n / base) (ptr + 1)

/-- The sign of `itoa`. -/
def itoaSign (isNegative : Bool) (ptr : ℕ) : Buffered ℕ :=
  if isNegative then do
    store ptr 0x2D
    return ptr + 1
  else return ptr

/-- `itoa` -/
def itoa (fuel n base : ℕ) : Buffered Unit :=
  if base < 2 ∨ 32 < base then store 0 0
  else if n = 0 then do
    store 0 0x30
    store 1 0
  else do
    -- `n < 0` as an `int32_t`
    let isNegative : Bool := 2147483648 ≤ n ∧ base = 10
    let ptr ← itoaDigits base fuel (if isNegative then sub32 0 n else n) 0
    let ptr ← itoaSign isNegative ptr
    store ptr 0
    strrev fuel

/-! ## Reversing -/

/-- The elements from `lo` to before `hi` in the opposite order. -/
def flip (m : Mem) (lo hi : ℕ) : Mem := fun x =>
  if lo ≤ x ∧ x < hi then m (lo + (hi - 1 - x)) else m x

theorem flip_of_le {m : Mem} {lo hi : ℕ} (h : hi ≤ lo + 1) : flip m lo hi = m := by
  funext x
  unfold flip
  split
  · rw [show lo + (hi - 1 - x) = x by omega]
  · rfl

theorem flip_hasString {m : Mem} {s : List UInt8} (h : m.HasString 0 s) :
    (flip m 0 s.length).HasString 0 s.reverse := by
  obtain ⟨h0, hs, hend⟩ := h
  refine ⟨fun hm => h0 (List.mem_reverse.1 hm), fun j hj => ?_, ?_⟩
  · rw [List.length_reverse] at hj
    rw [flip, if_pos (by omega), List.getElem_reverse, ← hs _ (by omega)]
    congr 1
    omega
  · rw [List.length_reverse, flip, if_neg (by omega)]
    exact hend

/-- One round of the loop, and the rest between the two exchanged elements. -/
theorem flip_swap {m : Mem} {i j : ℕ} (h : i < j) :
    flip ((m.store8 i (m j)).store8 j (m i)) (i + 1) (j - 1 + 1) = flip m i (j + 1) := by
  funext x
  unfold flip Mem.store8
  by_cases hi : x = i
  · subst hi
    rw [if_neg (by omega), if_neg (by omega), if_pos rfl, if_pos (by omega)]
    congr 1
    omega
  · by_cases hj : x = j
    · subst hj
      rw [if_neg (by omega), if_pos rfl, if_pos (by omega)]
      congr 1
      omega
    · by_cases hx : i ≤ x ∧ x < j + 1
      · rw [if_pos (by omega), if_pos hx, if_neg (by omega), if_neg (by omega)]
        congr 1
        omega
      · rw [if_neg (by omega), if_neg hj, if_neg hi, if_neg hx]

theorem strrevLoop_uses {k i j : ℕ} {m : Mem} (hk : j ≤ i + 2 * k) :
    ∃ A ⊆ Set.Icc i j, Uses (strrevLoop (k + 1) i j) m A () (flip m i (j + 1)) := by
  induction k generalizing i j m with
  | zero =>
    refine ⟨∅, Set.empty_subset _, ?_⟩
    rw [strrevLoop, if_neg (by omega), flip_of_le (by omega)]
    exact .pure () m
  | succ k ih =>
    rw [strrevLoop]
    split
    · rename_i hij
      obtain ⟨A, hA, h⟩ := ih (i := i + 1) (j := j - 1) (m := (m.store8 i (m j)).store8 j (m i))
        (by omega)
      rw [flip_swap hij] at h
      refine ⟨_, ?_, (uses_load i m).bind <| (uses_load j m).bind <| (uses_store i _ m).bind <|
        (uses_store j _ _).bind h⟩
      rintro x (rfl | rfl | rfl | rfl | hx)
      · exact ⟨le_rfl, hij.le⟩
      · exact ⟨hij.le, le_rfl⟩
      · exact ⟨le_rfl, hij.le⟩
      · exact ⟨hij.le, le_rfl⟩
      · obtain ⟨h1, h2⟩ := hA hx
        exact ⟨by omega, by omega⟩
    · exact ⟨∅, Set.empty_subset _, by rw [flip_of_le (by omega)]; exact .pure () m⟩

/-- Finding the end of the string uses all of it. -/
theorem bufferStrlen_uses {k : ℕ} {m : Mem} {a : ℕ} {s : List UInt8} (h : m.HasString a s)
    (hk : s.length < k) :
    Uses (bufferStrlen k a) m (Set.Icc a (a + s.length)) (a + s.length) m := by
  induction s generalizing k a with
  | nil =>
    obtain ⟨k, rfl⟩ := Nat.exists_eq_add_one_of_ne_zero (by omega : k ≠ 0)
    have hr := (uses_load a m).bind (f := fun c => if c = 0 then pure a else bufferStrlen k (a + 1))
      (B := ∅) (by rw [if_pos (Mem.hasString_nil.1 h)]; exact .pure a m)
    exact hr.mono (by rw [Set.union_empty, List.length_nil, Nat.add_zero, Set.Icc_self])
  | cons c s ih =>
    obtain ⟨k, rfl⟩ := Nat.exists_eq_add_one_of_ne_zero (by omega : k ≠ 0)
    obtain ⟨hc, ha, hs⟩ := Mem.hasString_cons.1 h
    have hrest := ih hs (by simpa using hk)
    rw [Nat.add_assoc, Nat.add_comm 1, ← List.length_cons (a := c)] at hrest
    have hr := (uses_load a m).bind (f := fun c => if c = 0 then pure a else bufferStrlen k (a + 1))
      (by rw [if_neg (by rwa [ha])]; exact hrest)
    refine hr.mono ?_
    ext x
    rw [List.length_cons, Set.mem_union, Set.mem_singleton_iff, Set.mem_Icc, Set.mem_Icc]
    omega

/-- `strrev` reverses the string in place. -/
theorem strrev_uses {fuel : ℕ} {m : Mem} {s : List UInt8} (h : m.HasString 0 s)
    (hfuel : s.length < fuel) :
    ∃ m' : Mem, Uses (strrev fuel) m (Set.Iic s.length) () m' ∧ m'.HasString 0 s.reverse := by
  have hlen := bufferStrlen_uses h hfuel
  rw [Nat.zero_add] at hlen
  obtain ⟨k, rfl⟩ := Nat.exists_eq_add_one_of_ne_zero (by omega : fuel ≠ 0)
  obtain ⟨A, hA, hloop⟩ := strrevLoop_uses (k := k) (i := 0) (j := s.length - 1) (m := m) (by omega)
  have hm : flip m 0 (s.length - 1 + 1) = flip m 0 s.length := by
    by_cases h0 : s.length = 0
    · rw [h0, flip_of_le (by omega), flip_of_le (by omega)]
    · rw [Nat.sub_add_cancel (by omega)]
  rw [hm] at hloop
  refine ⟨_, (hlen.bind hloop).mono ?_, flip_hasString h⟩
  ext x
  rw [Set.mem_union, Set.mem_Icc, Set.mem_Iic]
  refine ⟨?_, fun hx => Or.inl ⟨Nat.zero_le x, hx⟩⟩
  rintro (hx | hx)
  · exact hx.2
  · exact (hA hx).2.trans (Nat.sub_le ..)

/-! ## Digits -/

/-- The digits of `n`, the lowest first, as characters. -/
def digitChars (base n : ℕ) : List UInt8 := (Nat.digits base n).map itoaChar

/-- `n` as text: the digits, with a sign for a negative number in base 10. -/
def itoaText (n base : ℕ) : List UInt8 :=
  if n = 0 then [0x30]
  else if 2147483648 ≤ n ∧ base = 10 then 0x2D :: (digitChars base (4294967296 - n)).reverse
  else (digitChars base n).reverse

theorem itoaChar_ne_zero {d : ℕ} (h : d < 36) : itoaChar d ≠ 0 := by
  intro h0
  have := congrArg UInt8.toNat h0
  rw [itoaChar, UInt8.toNat_ofNat', UInt8.toNat_zero] at this
  split at this <;> omega

variable {base n : ℕ}

theorem digitChars_ne_zero (hb : 2 ≤ base) (hb' : base ≤ 32) : 0 ∉ digitChars base n := by
  intro h0
  obtain ⟨d, hd, hc⟩ := List.mem_map.1 h0
  exact itoaChar_ne_zero ((Nat.digits_lt_base (by omega) hd).trans_le (by omega)) hc

/-- The loop writes the digits one behind the other. -/
theorem itoaDigits_uses (hb : 2 ≤ base) {k : ℕ} (ptr : ℕ) (m : Mem)
    (hk : (Nat.digits base n).length < k) :
    ∃ m' : Mem, Uses (itoaDigits base k n ptr) m (Set.Ico ptr (ptr + (digitChars base n).length))
        (ptr + (digitChars base n).length) m' ∧
      m'.HasBytes ptr (digitChars base n) ∧ ∀ x < ptr, m' x = m x := by
  induction k generalizing n ptr m with
  | zero => exact absurd hk (Nat.not_lt_zero _)
  | succ k ih =>
    rw [itoaDigits]
    split
    · rename_i h0
      subst h0
      refine ⟨m, ?_, ?_, fun _ _ => rfl⟩
      · rw [digitChars, Nat.digits_zero]
        exact (Uses.pure _ m).mono (by simp)
      · intro j hj
        simp [digitChars] at hj
    · rename_i h0
      have hd : digitChars base n = itoaChar (n % base) :: digitChars base (n / base) := by
        rw [digitChars, Nat.digits_eq_cons_digits_div (by omega) h0]
        rfl
      have hk' : (Nat.digits base (n / base)).length < k := by
        rw [Nat.digits_eq_cons_digits_div (by omega) h0, List.length_cons] at hk
        omega
      obtain ⟨m', huses, hbytes, hframe⟩ :=
        ih (n := n / base) (ptr + 1) (m.store8 ptr (itoaChar (n % base))) hk'
      have hend : ptr + 1 + (digitChars base (n / base)).length =
          ptr + (digitChars base n).length := by
        rw [hd, List.length_cons]
        omega
      rw [hend] at huses
      rw [hd] at hend huses ⊢
      refine ⟨m', ((uses_store ptr _ m).bind huses).mono ?_, ?_, fun x hx => ?_⟩
      · ext x
        rw [List.length_cons] at hend ⊢
        rw [Set.mem_union, Set.mem_singleton_iff, Set.mem_Ico, Set.mem_Ico]
        omega
      · rw [Mem.hasBytes_cons, hframe ptr (by omega), Mem.store8_in]
        exact ⟨rfl, hbytes⟩
      · rw [hframe x (by omega), Mem.store8_out (by omega)]

/-- One more byte behind a text. -/
theorem hasBytes_snoc {m : Mem} {a : ℕ} {s : List UInt8} (h : m.HasBytes a s) (c : UInt8) :
    (m.store8 (a + s.length) c).HasBytes a (s ++ [c]) := by
  rw [Mem.hasBytes_append, Mem.hasBytes_cons]
  refine ⟨fun j hj => ?_, Mem.store8_in .., fun j hj => absurd hj (Nat.not_lt_zero _)⟩
  rw [Mem.store8_out (by omega)]
  exact h j hj

/-- A text and a zero byte behind it are a string. -/
theorem hasString_terminated {m : Mem} {a : ℕ} {s : List UInt8} (h0 : 0 ∉ s)
    (h : m.HasBytes a s) : (m.store8 (a + s.length) 0).HasString a s := by
  refine ⟨h0, fun j hj => ?_, Mem.store8_in ..⟩
  rw [Mem.store8_out (by omega)]
  exact h j hj

theorem digits_length_le (hb : 2 ≤ base) (hn : n < 4294967296) :
    (Nat.digits base n).length ≤ 32 := by
  rw [Nat.digits_length_le_iff (by omega)]
  calc n < 2 ^ 32 := by omega
    _ ≤ base ^ 32 := Nat.pow_le_pow_left hb 32

theorem length_digitChars_le_iff (hb : 2 ≤ base) {k : ℕ} :
    (digitChars base n).length ≤ k ↔ n < base ^ k := by
  rw [digitChars, List.length_map, Nat.digits_length_le_iff (by omega)]

/-- The end of `itoa`: the zero byte behind the digits, and the reversal. -/
theorem terminated_uses (fuel : ℕ) {m : Mem} {s : List UInt8} (h : m.HasBytes 0 s) (h0 : 0 ∉ s)
    (hfuel : s.length < fuel) :
    ∃ m' : Mem, Uses (do store s.length 0; strrev fuel) m (Set.Iic s.length) () m' ∧
      m'.HasString 0 s.reverse := by
  have hstring := hasString_terminated h0 h
  rw [Nat.zero_add] at hstring
  obtain ⟨m', hrev, htext⟩ := strrev_uses hstring hfuel
  refine ⟨m', ((uses_store _ 0 m).bind hrev).mono ?_, htext⟩
  ext x
  rw [Set.mem_union, Set.mem_singleton_iff, Set.mem_Iic]
  omega

/-- **`itoa` leaves the text of the number in the buffer, and uses exactly the
elements of that string.** -/
theorem itoa_uses (hb : 2 ≤ base) (hb' : base ≤ 32) (hn : n < 4294967296) (m : Mem) {fuel : ℕ}
    (hfuel : 40 ≤ fuel) :
    ∃ m' : Mem, Uses (itoa fuel n base) m (Set.Iic (itoaText n base).length) () m' ∧
      m'.HasString 0 (itoaText n base) := by
  unfold itoa itoaText
  rw [if_neg (by omega)]
  split
  · refine ⟨_, ((uses_store 0 0x30 m).bind (uses_store 1 0 _)).mono ?_, ?_⟩
    · ext x
      simp
      omega
    · have hbytes : (m.store8 0 0x30).HasBytes 0 [0x30] := by
        rw [Mem.hasBytes_cons]
        exact ⟨Mem.store8_in .., fun j hj => absurd hj (Nat.not_lt_zero _)⟩
      exact hasString_terminated (by decide) hbytes
  · rename_i h0
    by_cases hneg : 2147483648 ≤ n ∧ base = 10
    · obtain ⟨hlow, rfl⟩ := hneg
      have hsub : sub32 0 n = 4294967296 - n := by unfold sub32 u32; omega
      obtain ⟨m', huses, hbytes, -⟩ := itoaDigits_uses hb (n := 4294967296 - n) 0 m
        ((digits_length_le hb (by omega)).trans_lt (by omega : 32 < fuel))
      rw [Nat.zero_add] at huses
      have hlen : (digitChars 10 (4294967296 - n)).length < 33 := by
        rw [digitChars, List.length_map]
        exact Nat.lt_succ_of_le (digits_length_le hb (by omega))
      have hsign := (uses_store (digitChars 10 (4294967296 - n)).length 0x2D m').bind
        (f := fun _ => pure ((digitChars 10 (4294967296 - n)).length + 1)) (.pure _ _)
      have hdigits : (m'.store8 (digitChars 10 (4294967296 - n)).length 0x2D).HasBytes 0
          (digitChars 10 (4294967296 - n) ++ [0x2D]) := by
        have h := hasBytes_snoc hbytes 0x2D
        rwa [Nat.zero_add] at h
      obtain ⟨m'', hrev, htext⟩ := terminated_uses fuel hdigits
        (by simp [digitChars_ne_zero]) (by rw [List.length_append, List.length_singleton]; omega)
      rw [List.reverse_append, List.reverse_singleton, List.singleton_append] at htext
      rw [List.length_append, List.length_singleton] at hrev
      simp only [hlow, hsub, true_and, decide_true, if_true]
      refine ⟨m'', (huses.bind (hsign.bind hrev)).mono ?_, htext⟩
      ext x
      simp
      omega
    · obtain ⟨m', huses, hbytes, -⟩ := itoaDigits_uses hb (n := n) 0 m
        ((digits_length_le hb hn).trans_lt (by omega : 32 < fuel))
      rw [Nat.zero_add] at huses
      obtain ⟨m'', hrev, htext⟩ := terminated_uses fuel hbytes (digitChars_ne_zero hb hb')
        (by
          rw [digitChars, List.length_map]
          exact (digits_length_le hb hn).trans_lt (by omega))
      simp only [hneg, decide_false, if_false]
      refine ⟨m'', (huses.bind ((Uses.pure _ m').bind hrev)).mono ?_, htext⟩
      ext x
      simp
      omega

/-! ## How long the text is -/

theorem itoaText_length_le (hb : 2 ≤ base) (hn : n < 4294967296) :
    (itoaText n base).length ≤ 33 := by
  have h (k : ℕ) (hk : k < 4294967296) : (digitChars base k).length ≤ 32 := by
    rw [digitChars, List.length_map]
    exact digits_length_le hb hk
  unfold itoaText
  split
  · simp
  · split
    · rw [List.length_cons, List.length_reverse]
      exact Nat.succ_le_succ (h _ (by omega))
    · rw [List.length_reverse]
      exact (h n hn).trans (by omega)

theorem itoaText_ten_length (hn : n < 4294967296) : (itoaText n 10).length ≤ 11 := by
  have h (k : ℕ) (hk : k < 4294967296) : (digitChars 10 k).length ≤ 10 :=
    (length_digitChars_le_iff (by omega)).2 (by omega)
  unfold itoaText
  split
  · simp
  · split
    · rw [List.length_cons, List.length_reverse]
      exact Nat.succ_le_succ (h _ (by omega))
    · rw [List.length_reverse]
      exact (h n hn).trans (by omega)

theorem itoaText_sixteen_length (hn : n < 4294967296) : (itoaText n 16).length ≤ 8 := by
  unfold itoaText
  split
  · simp
  · rw [if_neg (by omega), List.length_reverse, length_digitChars_le_iff (by omega)]
    omega

/-- In base 2 the text has 32 characters if bit 31 is set, and fewer otherwise. -/
theorem itoaText_two_length : (itoaText n 2).length ≤ 31 ↔ n < 2147483648 := by
  unfold itoaText
  split
  · simp
    omega
  · rw [if_neg (by omega), List.length_reverse, length_digitChars_le_iff (by omega)]
    omega

end Ttos
