/-
  C strings: bytes without a zero byte, ended by one in memory.

  A string that is passed to a function is the list of its bytes; one that is
  read from memory may have no end where it is expected.

  * `HasString m a s`: the string `s` lies at `a`.
  * `string_of_hasString`, `strcmp_eq_zero`: what copying and comparing do there.
-/
import Ttos.Lib.Bytes
import Mathlib.Data.Int.Notation

namespace Ttos

/-- The bytes of a string literal. -/
def ascii (s : String) : List UInt8 := s.toList.map fun c => UInt8.ofNat c.toNat

/-- `strcmp` of the string `s` with the one at `a`. -/
def strcmp : List UInt8 → Mem → ℕ → ℤ
  | [], m, a => -((m a).toNat : ℤ)
  | c :: s, m, a => if c = m a then strcmp s m (a + 1) else (c.toNat : ℤ) - (m a).toNat

/-- `memcmp` of the bytes of `s` with those at `a`. -/
def memcmp : List UInt8 → Mem → ℕ → ℤ
  | [], _, _ => 0
  | c :: s, m, a => if c = m a then memcmp s m (a + 1) else (c.toNat : ℤ) - (m a).toNat

namespace Mem

/-- What `strncpy` copies from `a`: the bytes up to a zero byte, and at most `n`. -/
def string (m : Mem) (a : ℕ) : ℕ → List UInt8
  | 0 => []
  | n + 1 => if m a = 0 then [] else m a :: string m (a + 1) n

/-- The string `s` lies at `a`. -/
def HasString (m : Mem) (a : ℕ) (s : List UInt8) : Prop :=
  0 ∉ s ∧ (∀ j (h : j < s.length), m (a + j) = s[j]) ∧ m (a + s.length) = 0

variable {m : Mem} {a n : ℕ} {s t : List UInt8} {c : UInt8}

theorem hasString_nil : m.HasString a [] ↔ m a = 0 := by simp [HasString]

theorem hasString_cons : m.HasString a (c :: s) ↔ c ≠ 0 ∧ m a = c ∧ m.HasString (a + 1) s := by
  unfold HasString
  constructor
  · rintro ⟨h0, h1, h2⟩
    rw [List.mem_cons, not_or] at h0
    refine ⟨fun hc => h0.1 hc.symm, h1 0 (by simp), h0.2, fun j hj => ?_, ?_⟩
    · have := h1 (j + 1) (by simpa using hj)
      rw [show a + 1 + j = a + (j + 1) by omega, this]
      rfl
    · rw [List.length_cons] at h2
      rw [show a + 1 + s.length = a + (s.length + 1) by omega, h2]
  · rintro ⟨hc, ha, h0, h1, h2⟩
    refine ⟨?_, fun j hj => ?_, ?_⟩
    · rw [List.mem_cons, not_or]
      exact ⟨fun h => hc h.symm, h0⟩
    · cases j with
      | zero => exact ha
      | succ j =>
        rw [show a + (j + 1) = a + 1 + j by omega, h1 j (by simpa using hj)]
        rfl
    · rw [List.length_cons, show a + (s.length + 1) = a + 1 + s.length by omega, h2]

/-- Copying a string that fits gives the string. -/
theorem string_of_hasString (h : m.HasString a s) (hn : s.length < n) : m.string a n = s := by
  induction s generalizing a n with
  | nil =>
    obtain ⟨n, rfl⟩ := Nat.exists_eq_add_one_of_ne_zero (by omega : n ≠ 0)
    rw [string, if_pos (hasString_nil.1 h)]
  | cons c s ih =>
    obtain ⟨n, rfl⟩ := Nat.exists_eq_add_one_of_ne_zero (by omega : n ≠ 0)
    obtain ⟨hc, ha, hs⟩ := hasString_cons.1 h
    rw [string, if_neg (by rwa [ha]), ha, ih hs (by simpa using hn)]

/-- What was copied as a shorter string was one. -/
theorem hasString_of_string (h : m.string a n = s) (hn : s.length < n) : m.HasString a s := by
  induction n generalizing a s with
  | zero => exact absurd hn (Nat.not_lt_zero _)
  | succ n ih =>
    rw [string] at h
    split at h
    · rename_i h0
      rw [← h]
      exact hasString_nil.2 h0
    · rename_i h0
      subst h
      exact hasString_cons.2 ⟨h0, rfl, ih rfl (by simpa using hn)⟩

theorem strcmp_eq_zero (h0 : 0 ∉ s) : strcmp s m a = 0 ↔ m.HasString a s := by
  induction s generalizing a with
  | nil =>
    rw [strcmp, hasString_nil, ← UInt8.toNat_inj]
    simp only [UInt8.toNat_zero]
    omega
  | cons c s ih =>
    rw [List.mem_cons, not_or] at h0
    rw [strcmp, hasString_cons]
    split
    · rename_i hc
      rw [ih h0.2]
      exact ⟨fun h => ⟨fun hz => h0.1 hz.symm, hc.symm, h⟩, fun h => h.2.2⟩
    · rename_i hc
      refine iff_of_false (fun h => hc (UInt8.toNat_inj.1 (by omega))) fun h => hc h.2.1.symm

theorem memcmp_eq_zero : memcmp s m a = 0 ↔ m.HasBytes a s := by
  induction s generalizing a with
  | nil => exact iff_of_true rfl fun j hj => absurd hj (Nat.not_lt_zero _)
  | cons c s ih =>
    rw [memcmp, hasBytes_cons]
    split
    · rename_i hc
      rw [ih]
      exact ⟨fun h => ⟨hc.symm, h⟩, And.right⟩
    · rename_i hc
      exact iff_of_false (fun h => hc (UInt8.toNat_inj.1 (by omega))) fun h => hc h.1.symm

/-- Copying a string with its length known. -/
theorem string_of_hasBytes (h : m.HasBytes a s) (h0 : 0 ∉ s) : m.string a s.length = s := by
  induction s generalizing a with
  | nil => rfl
  | cons c s ih =>
    obtain ⟨ha, hs⟩ := hasBytes_cons.1 h
    rw [List.mem_cons, not_or] at h0
    rw [List.length_cons, string, ha, if_neg (Ne.symm h0.1), ih hs h0.2]

/-- Bytes other than zero, and a zero byte. -/
theorem hasString_of_hasBytes (h0 : 0 ∉ s) (h : m.HasBytes a (s ++ [0])) : m.HasString a s := by
  rw [hasBytes_append, hasBytes_cons] at h
  exact ⟨h0, h.1, h.2.1⟩

/-- Two strings at one place are the same. -/
theorem HasString.inj (hs : m.HasString a s) (ht : m.HasString a t) : s = t := by
  have h1 := string_of_hasString hs (n := s.length + t.length + 1) (by omega)
  have h2 := string_of_hasString ht (n := s.length + t.length + 1) (by omega)
  rw [← h1, h2]

end Mem

end Ttos
