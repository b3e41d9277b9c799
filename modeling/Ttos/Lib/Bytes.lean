/-
  Byte-addressed memory: little-endian words, filling and copying of ranges.

  A memory is a function from addresses to bytes.  Every writer comes with two
  facts: what is read back at the place written (`load32_store32`, `fill_in`,
  `copy_in`), and that nothing else changes (`store8_out`, `store32_out`,
  `fill_out`, `copy_out`).
-/
import Mathlib.Data.UInt
import Mathlib.Data.Nat.Notation

namespace Ttos

/-- Two ranges, given by start and length, have nothing in common. -/
def Apart (a n b k : ℕ) : Prop := a + n ≤ b ∨ b + k ≤ a

/-- A byte-addressed memory. -/
abbrev Mem := ℕ → UInt8

namespace Mem

/-- The little-endian 16-bit word at `a`. -/
def load16 (m : Mem) (a : ℕ) : ℕ := (m a).toNat + 256 * (m (a + 1)).toNat

/-- The little-endian 32-bit word at `a`. -/
def load32 (m : Mem) (a : ℕ) : ℕ :=
  (m a).toNat + 256 * (m (a + 1)).toNat + 65536 * (m (a + 2)).toNat +
    16777216 * (m (a + 3)).toNat

def store8 (m : Mem) (a : ℕ) (v : UInt8) : Mem := fun x => if x = a then v else m x

/-- Store `v` modulo `2 ^ 32` at `a`, little-endian. -/
def store32 (m : Mem) (a v : ℕ) : Mem := fun x =>
  if x = a then UInt8.ofNat v
  else if x = a + 1 then UInt8.ofNat (v / 256)
  else if x = a + 2 then UInt8.ofNat (v / 65536)
  else if x = a + 3 then UInt8.ofNat (v / 16777216)
  else m x

/-- `memset(a, v, n)`. -/
def fill (m : Mem) (a : ℕ) (v : UInt8) (n : ℕ) : Mem := fun x =>
  if a ≤ x ∧ x < a + n then v else m x

/-- `memcpy(dst, src, n)` for ranges that do not overlap. -/
def copy (m : Mem) (dst src n : ℕ) : Mem := fun x =>
  if dst ≤ x ∧ x < dst + n then m (src + (x - dst)) else m x

/-- `memcpy` of `n` bytes at `src` of another memory to `dst`. -/
def copyFrom (m : Mem) (dst : ℕ) (m' : Mem) (src n : ℕ) : Mem := fun x =>
  if dst ≤ x ∧ x < dst + n then m' (src + (x - dst)) else m x

variable {m m' : Mem} {a b v n x : ℕ}

theorem load16_lt (m : Mem) (a : ℕ) : m.load16 a < 65536 := by
  have h0 := (m a).toNat_lt
  have h1 := (m (a + 1)).toNat_lt
  unfold load16; omega

theorem load32_lt (m : Mem) (a : ℕ) : m.load32 a < 4294967296 := by
  have h0 := (m a).toNat_lt
  have h1 := (m (a + 1)).toNat_lt
  have h2 := (m (a + 2)).toNat_lt
  have h3 := (m (a + 3)).toNat_lt
  unfold load32; omega

/-- A word depends on its four bytes only. -/
theorem load32_congr (h : ∀ x, a ≤ x → x < a + 4 → m' x = m x) : m'.load32 a = m.load32 a := by
  unfold load32
  rw [h a (by omega) (by omega), h (a + 1) (by omega) (by omega), h (a + 2) (by omega) (by omega),
    h (a + 3) (by omega) (by omega)]

theorem load16_congr (h : ∀ x, a ≤ x → x < a + 2 → m' x = m x) : m'.load16 a = m.load16 a := by
  unfold load16
  rw [h a (by omega) (by omega), h (a + 1) (by omega) (by omega)]

/-- Equal bytes at two places are equal words. -/
theorem load32_shift (h : ∀ j < 4, m' (b + j) = m (a + j)) : m'.load32 b = m.load32 a := by
  have h0 : m' b = m a := h 0 (by omega)
  unfold load32
  rw [h0, h 1 (by omega), h 2 (by omega), h 3 (by omega)]

theorem load16_shift (h : ∀ j < 2, m' (b + j) = m (a + j)) : m'.load16 b = m.load16 a := by
  have h0 : m' b = m a := h 0 (by omega)
  unfold load16
  rw [h0, h 1 (by omega)]

@[simp] theorem store8_in (m : Mem) (a : ℕ) (v : UInt8) : m.store8 a v a = v := by simp [store8]

theorem store8_out {v : UInt8} (h : x ≠ a) : m.store8 a v x = m x := by simp [store8, h]

theorem store32_out (h : x < a ∨ a + 4 ≤ x) : m.store32 a v x = m x := by
  have h0 : x ≠ a := by omega
  have h1 : x ≠ a + 1 := by omega
  have h2 : x ≠ a + 2 := by omega
  have h3 : x ≠ a + 3 := by omega
  simp only [store32, if_neg h0, if_neg h1, if_neg h2, if_neg h3]

theorem load32_store32 (m : Mem) (a v : ℕ) : (m.store32 a v).load32 a = v % 4294967296 := by
  have h1 : a + 1 ≠ a := by omega
  have h2 : a + 2 ≠ a ∧ a + 2 ≠ a + 1 := by omega
  have h3 : a + 3 ≠ a ∧ a + 3 ≠ a + 1 ∧ a + 3 ≠ a + 2 := by omega
  simp only [load32, store32, if_true, if_neg h1, if_neg h2.1, if_neg h2.2, if_neg h3.1,
    if_neg h3.2.1, if_neg h3.2.2, UInt8.toNat_ofNat']
  omega

theorem load32_store32_ne (h : b + 4 ≤ a ∨ a + 4 ≤ b) : (m.store32 a v).load32 b = m.load32 b :=
  load32_congr fun _ _ _ => store32_out (by omega)

theorem load32_zero (h : ∀ x, a ≤ x → x < a + 4 → m x = 0) : m.load32 a = 0 := by
  unfold load32
  rw [h a (by omega) (by omega), h (a + 1) (by omega) (by omega), h (a + 2) (by omega) (by omega),
    h (a + 3) (by omega) (by omega)]
  rfl

theorem load32_store8_ne {v : UInt8} (h : a < b ∨ b + 4 ≤ a) :
    (m.store8 a v).load32 b = m.load32 b :=
  load32_congr fun _ _ _ => store8_out (by omega)

theorem fill_in {v : UInt8} (h : a ≤ x) (h' : x < a + n) : m.fill a v n x = v := by
  simp only [fill, h, h', and_self, if_true]

theorem fill_out {v : UInt8} (h : x < a ∨ a + n ≤ x) : m.fill a v n x = m x := by
  have : ¬ (a ≤ x ∧ x < a + n) := by omega
  simp only [fill, if_neg this]

theorem copy_in (h : a ≤ x) (h' : x < a + n) : m.copy a b n x = m (b + (x - a)) := by
  simp only [copy, h, h', and_self, if_true]

theorem copyFrom_in (h : a ≤ x) (h' : x < a + n) : m.copyFrom a m' b n x = m' (b + (x - a)) := by
  simp only [copyFrom, h, h', and_self, if_true]

theorem copyFrom_out (h : x < a ∨ a + n ≤ x) : m.copyFrom a m' b n x = m x := by
  have : ¬ (a ≤ x ∧ x < a + n) := by omega
  simp only [copyFrom, if_neg this]

theorem copy_out (h : x < a ∨ a + n ≤ x) : m.copy a b n x = m x := by
  have : ¬ (a ≤ x ∧ x < a + n) := by omega
  simp only [copy, if_neg this]

/-! ## Sequences of bytes -/

/-- The memory that holds `bytes` from 0 on, and `behind` behind them. -/
def ofList (bytes : List UInt8) (behind : Mem) : Mem := fun a => bytes[a]?.getD (behind a)

/-- The bytes `bytes` lie at `a`. -/
def HasBytes (m : Mem) (a : ℕ) (bytes : List UInt8) : Prop :=
  ∀ j (h : j < bytes.length), m (a + j) = bytes[j]

instance (m : Mem) (a : ℕ) (bytes : List UInt8) : Decidable (m.HasBytes a bytes) :=
  inferInstanceAs (Decidable (∀ j (h : j < bytes.length), m (a + j) = bytes[j]))

/-- The bytes of a 16-bit and of a 32-bit word, little-endian. -/
def bytes16 (n : ℕ) : List UInt8 := [UInt8.ofNat n, UInt8.ofNat (n / 256)]

def bytes32 (n : ℕ) : List UInt8 :=
  [UInt8.ofNat n, UInt8.ofNat (n / 256), UInt8.ofNat (n / 65536), UInt8.ofNat (n / 16777216)]

theorem ofList_hasBytes (bytes : List UInt8) (behind : Mem) :
    (ofList bytes behind).HasBytes 0 bytes := by
  intro j hj
  rw [Nat.zero_add, ofList, List.getElem?_eq_getElem hj, Option.getD_some]

theorem hasBytes_append {xs ys : List UInt8} :
    m.HasBytes a (xs ++ ys) ↔ m.HasBytes a xs ∧ m.HasBytes (a + xs.length) ys := by
  unfold HasBytes
  constructor
  · intro h
    constructor
    · intro j hj
      rw [h j (by rw [List.length_append]; omega), List.getElem_append_left hj]
    · intro j hj
      rw [Nat.add_assoc, h _ (by rw [List.length_append]; omega),
        List.getElem_append_right (by omega)]
      simp only [Nat.add_sub_cancel_left]
  · rintro ⟨h1, h2⟩ j hj
    by_cases hx : j < xs.length
    · rw [h1 j hx, List.getElem_append_left hx]
    · rw [List.length_append] at hj
      have h := h2 (j - xs.length) (by omega)
      rw [show a + xs.length + (j - xs.length) = a + j by omega] at h
      rw [h, List.getElem_append_right (by omega)]

theorem hasBytes_cons {c : UInt8} {xs : List UInt8} :
    m.HasBytes a (c :: xs) ↔ m a = c ∧ m.HasBytes (a + 1) xs := by
  rw [← List.singleton_append, hasBytes_append]
  refine and_congr_left fun _ => ⟨fun h => h 0 (by simp), fun h j hj => ?_⟩
  obtain rfl : j = 0 := by simpa using hj
  exact h

theorem HasBytes.load16 (h : m.HasBytes a (bytes16 n)) (hn : n < 65536) : m.load16 a = n := by
  have h0 : m a = UInt8.ofNat n := h 0 (by simp [bytes16])
  have h1 : m (a + 1) = UInt8.ofNat (n / 256) := h 1 (by simp [bytes16])
  rw [Mem.load16, h0, h1, UInt8.toNat_ofNat', UInt8.toNat_ofNat']
  omega

theorem HasBytes.load32 (h : m.HasBytes a (bytes32 n)) (hn : n < 4294967296) :
    m.load32 a = n := by
  have h0 : m a = UInt8.ofNat n := h 0 (by simp [bytes32])
  have h1 : m (a + 1) = UInt8.ofNat (n / 256) := h 1 (by simp [bytes32])
  have h2 : m (a + 2) = UInt8.ofNat (n / 65536) := h 2 (by simp [bytes32])
  have h3 : m (a + 3) = UInt8.ofNat (n / 16777216) := h 3 (by simp [bytes32])
  rw [Mem.load32, h0, h1, h2, h3, UInt8.toNat_ofNat', UInt8.toNat_ofNat', UInt8.toNat_ofNat',
    UInt8.toNat_ofNat']
  omega

end Mem

end Ttos
