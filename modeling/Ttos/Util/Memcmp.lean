/-
  `memcmp` (util/string.c) on two arrays in memory, with the bytes it reads.

  * `memcmpAt_agree`, `memcmpAt_differ`: what it returns, and exactly what it reads, on
    arrays that agree and on arrays that differ.
  * `memcmp_contract`: exactly when it keeps to the `n` bytes it is given.
-/
import Ttos.Lib.CString
import Ttos.Lib.Traced

namespace Ttos

/-! ## The code -/

/-- A byte that is read, of the first array or of the second. -/
inductive MemcmpRead where
  | s1 (a : ℕ)
  | s2 (a : ℕ)
deriving DecidableEq, Repr

/-- `*byte1` and `*byte2` -/
def memcmpBytes (m : Mem) (byte1 byte2 : ℕ) : Traced MemcmpRead Empty (UInt8 × UInt8) := do
  Traced.tell (.s1 byte1)
  Traced.tell (.s2 byte2)
  pure (m byte1, m byte2)

/-- `memcmp` of two arrays in memory, `n` bytes before the end. -/
def memcmpAt (m : Mem) : ℕ → ℕ → ℕ → Traced MemcmpRead Empty ℤ
  | 0, byte1, byte2 => do
    -- the loop condition looks at the bytes before it looks at `n`
    let _ ← memcmpBytes m byte1 byte2
    pure 0
  | n + 1, byte1, byte2 => do
    let (c1, c2) ← memcmpBytes m byte1 byte2
    if c1 = c2 then memcmpAt m n (byte1 + 1) (byte2 + 1)
    else
      let (c1, c2) ← memcmpBytes m byte1 byte2
      pure ((c1.toNat : ℤ) - c2.toNat)

/-! ## What it reads -/

/-- The bytes of both arrays up to the index `k`. -/
def bytesUpTo (s1 s2 k : ℕ) : Set MemcmpRead := {w | ∃ j ≤ k, w = .s1 (s1 + j) ∨ w = .s2 (s2 + j)}

variable {m : Mem} {s1 s2 n k : ℕ}

theorem memcmpBytes_touches :
    (memcmpBytes m s1 s2).Touches (bytesUpTo s1 s2 0) (m s1, m s2) := by
  refine ⟨rfl, fun w => ?_⟩
  show w ∈ [MemcmpRead.s1 s1, .s2 s2] ↔ _
  simp [bytesUpTo]

/-- The first bytes, and those up to an index behind them. -/
theorem bytesUpTo_succ :
    bytesUpTo s1 s2 0 ∪ bytesUpTo (s1 + 1) (s2 + 1) k = bytesUpTo s1 s2 (k + 1) := by
  ext w
  constructor
  · rintro (⟨j, hj, hw⟩ | ⟨j, hj, hw⟩)
    · exact ⟨j, by omega, hw⟩
    · refine ⟨j + 1, by omega, ?_⟩
      rwa [Nat.add_assoc, Nat.add_comm 1, Nat.add_assoc, Nat.add_comm 1] at hw
  · rintro ⟨j, hj, hw⟩
    cases j with
    | zero => exact Or.inl ⟨0, le_rfl, hw⟩
    | succ j =>
      refine Or.inr ⟨j, by omega, ?_⟩
      rwa [Nat.add_assoc, Nat.add_comm 1, Nat.add_assoc, Nat.add_comm 1]

/-- On arrays that agree the byte behind each is read, too. -/
theorem memcmpAt_agree (h : ∀ i < n, m (s1 + i) = m (s2 + i)) :
    (memcmpAt m n s1 s2).Touches (bytesUpTo s1 s2 n) 0 := by
  induction n generalizing s1 s2 with
  | zero =>
    exact (memcmpBytes_touches.bind (.pure 0)).mono (Set.union_empty _)
  | succ n ih =>
    have hagree : ∀ i < n, m (s1 + 1 + i) = m (s2 + 1 + i) := fun i hi => by
      rw [Nat.add_assoc, Nat.add_comm 1, Nat.add_assoc, Nat.add_comm 1]
      exact h (i + 1) (by omega)
    rw [memcmpAt]
    refine (memcmpBytes_touches.bind ?_).mono bytesUpTo_succ
    dsimp only
    rw [if_pos (show m s1 = m s2 from h 0 (by omega))]
    exact ih hagree

/-- Otherwise nothing is read behind the first difference. -/
theorem memcmpAt_differ (hk : k < n) (h : ∀ i < k, m (s1 + i) = m (s2 + i))
    (hne : m (s1 + k) ≠ m (s2 + k)) :
    (memcmpAt m n s1 s2).Touches (bytesUpTo s1 s2 k)
      ((m (s1 + k)).toNat - (m (s2 + k)).toNat) := by
  induction k generalizing s1 s2 n with
  | zero =>
    obtain ⟨n, rfl⟩ := Nat.exists_eq_add_one_of_ne_zero (by omega : n ≠ 0)
    rw [memcmpAt]
    refine (memcmpBytes_touches.bind ?_).mono (Set.union_self _)
    dsimp only
    rw [if_neg (show m s1 ≠ m s2 from hne)]
    refine (memcmpBytes_touches.bind (B := ∅) ?_).mono (Set.union_empty _)
    exact .pure ((m s1).toNat - (m s2).toNat : ℤ)
  | succ k ih =>
    obtain ⟨n, rfl⟩ := Nat.exists_eq_add_one_of_ne_zero (by omega : n ≠ 0)
    have hshift (i : ℕ) : s1 + 1 + i = s1 + (i + 1) ∧ s2 + 1 + i = s2 + (i + 1) := by omega
    have hrest := @ih (s1 + 1) (s2 + 1) n (by omega)
    simp only [hshift] at hrest
    rw [memcmpAt]
    refine (memcmpBytes_touches.bind ?_).mono bytesUpTo_succ
    dsimp only
    rw [if_pos (show m s1 = m s2 from h 0 (by omega))]
    exact hrest (fun i hi => h (i + 1) (by omega)) hne

/-! ## The contract -/

/-- The byte has an index below `n`. -/
def MemcmpRead.Inside (s1 s2 n : ℕ) : MemcmpRead → Prop
  | .s1 a => a < s1 + n
  | .s2 a => a < s2 + n

/-- 0 if the first `n` bytes agree, otherwise the sign of the first difference, and no byte
    behind them is read. -/
def MemcmpContract (m : Mem) (s1 s2 n : ℕ) : Prop :=
  ∃ r, (memcmpAt m n s1 s2).result = .ok r ∧ (r = 0 ↔ ∀ i < n, m (s1 + i) = m (s2 + i)) ∧
    (∀ k < n, (∀ i < k, m (s1 + i) = m (s2 + i)) → m (s1 + k) ≠ m (s2 + k) →
      r.sign = ((m (s1 + k)).toNat - (m (s2 + k)).toNat : ℤ).sign) ∧
    (memcmpAt m n s1 s2).All (MemcmpRead.Inside s1 s2 n)

theorem inside_bytesUpTo : (∀ w ∈ bytesUpTo s1 s2 k, w.Inside s1 s2 n) ↔ k < n := by
  constructor
  · intro h
    have hk : s1 + k < s1 + n := h (.s1 (s1 + k)) ⟨k, le_rfl, Or.inl rfl⟩
    omega
  · rintro hk w ⟨j, hj, rfl | rfl⟩
    · exact Nat.add_lt_add_left (hj.trans_lt hk) _
    · exact Nat.add_lt_add_left (hj.trans_lt hk) _

/-- Two arrays agree or have a first difference. -/
theorem agree_or_differ (m : Mem) (s1 s2 n : ℕ) : (∀ i < n, m (s1 + i) = m (s2 + i)) ∨
    ∃ k < n, (∀ i < k, m (s1 + i) = m (s2 + i)) ∧ m (s1 + k) ≠ m (s2 + k) := by
  induction n with
  | zero => exact Or.inl fun i hi => absurd hi (Nat.not_lt_zero i)
  | succ n ih =>
    rcases ih with h | ⟨k, hk, h, hne⟩
    · by_cases hn : m (s1 + n) = m (s2 + n)
      · refine Or.inl fun i hi => ?_
        rcases Nat.lt_succ_iff_lt_or_eq.1 hi with hi | rfl
        · exact h i hi
        · exact hn
      · exact Or.inr ⟨n, by omega, h, hn⟩
    · exact Or.inr ⟨k, by omega, h, hne⟩

theorem memcmpContract_differ (hk : k < n) (h : ∀ i < k, m (s1 + i) = m (s2 + i))
    (hne : m (s1 + k) ≠ m (s2 + k)) : MemcmpContract m s1 s2 n := by
  have ht := memcmpAt_differ hk h hne
  have hne' : (m (s1 + k)).toNat ≠ (m (s2 + k)).toNat := fun h => hne (UInt8.toNat_inj.1 h)
  refine ⟨_, ht.result, iff_of_false (by omega) fun hall => hne (hall k hk), ?_,
    ht.all_iff.2 (inside_bytesUpTo.2 hk)⟩
  intro j hj hj' hjne
  -- there is one first difference only
  obtain rfl : j = k := by
    rcases Nat.lt_trichotomy j k with hlt | heq | hgt
    · exact absurd (h j hlt) hjne
    · exact heq
    · exact absurd (hj' k hgt) hne
  rfl

/-- **`memcmp` keeps its contract exactly if the arrays differ in their first `n` bytes**;
    otherwise its value is right, but it reads the byte behind them. -/
theorem memcmp_contract (m : Mem) (s1 s2 n : ℕ) :
    MemcmpContract m s1 s2 n ↔ ∃ i < n, m (s1 + i) ≠ m (s2 + i) := by
  rcases agree_or_differ m s1 s2 n with h | ⟨k, hk, h, hne⟩
  · refine iff_of_false ?_ fun ⟨i, hi, hne⟩ => hne (h i hi)
    rintro ⟨-, -, -, -, hall⟩
    exact lt_irrefl n (inside_bytesUpTo.1 ((memcmpAt_agree h).all_iff.1 hall))
  · exact iff_of_true (memcmpContract_differ hk h hne) ⟨k, hk, hne⟩

/-- **Two equal bytes**: the bytes behind them are read. -/
theorem memcmp_reads_behind : ¬ MemcmpContract (fun _ => 0x61) 0x1000 0x2000 1 := by
  rintro ⟨-, -, -, -, hall⟩
  have hread : 0x1001 < 0x1000 + 1 := hall (.s1 0x1001) (by decide)
  omega

end Ttos
