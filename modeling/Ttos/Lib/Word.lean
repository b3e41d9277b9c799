/-
  32-bit unsigned arithmetic on natural numbers: a machine word is a natural
  number below `2 ^ 32`, and every operation that can wrap says so with `u32`.
-/
import Mathlib.Data.Int.Notation
import Mathlib.Data.Nat.Notation

namespace Ttos

/-- The value of `n` in a `uint32_t`. -/
def u32 (n : ℕ) : ℕ := n % 4294967296

/-- `a - b` in `uint32_t`. -/
def sub32 (a b : ℕ) : ℕ := u32 (a + (4294967296 - u32 b))

/-- The value of `n` in an `int32_t`. -/
def int32 (n : ℕ) : ℤ := if u32 n < 2147483648 then u32 n else (u32 n : ℤ) - 4294967296

theorem u32_lt (n : ℕ) : u32 n < 4294967296 := Nat.mod_lt _ (by decide)

theorem u32_of_lt {n : ℕ} (h : n < 4294967296) : u32 n = n := Nat.mod_eq_of_lt h

theorem int32_of_lt {n : ℕ} (h : n < 2147483648) : int32 n = n := by
  have hn : u32 n = n := u32_of_lt (by omega)
  rw [int32, hn, if_pos h]

theorem int32_eq_iff {n : ℕ} : int32 n = n ↔ n < 2147483648 := by
  refine ⟨fun h => ?_, int32_of_lt⟩
  have hlt := u32_lt n
  unfold int32 at h
  split at h <;> omega

theorem sub32_lt (a b : ℕ) : sub32 a b < 4294967296 := u32_lt _

theorem sub32_of_le {a b : ℕ} (h : b ≤ a) (ha : a < 4294967296) : sub32 a b = a - b := by
  unfold sub32 u32; omega

end Ttos
