/-
  Loops over an array that is a function of its index: filling a range, and moving a
  range down in place.
-/
import Mathlib.Data.List.Range
import Mathlib.Logic.Function.Basic

namespace Ttos

variable {α : Type*}

/-- A loop that stores one value from index `s - d` on. -/
theorem foldl_fill {d s : ℕ} (h : d ≤ s) (n : ℕ) (m : ℕ → α) (v : α) (j : ℕ) :
    (List.range' s n).foldl (fun m i => Function.update m (i - d) v) m j =
      if s ≤ j + d ∧ j + d < s + n then v else m j := by
  induction n with
  | zero => exact (if_neg (by omega)).symm
  | succ n ih =>
    rw [List.range'_1_concat, List.foldl_append, List.foldl_cons, List.foldl_nil]
    by_cases hj : j = s + n - d
    · rw [hj, Function.update_self, if_pos (by omega)]
    · rw [Function.update_of_ne hj, ih]
      exact if_congr (by omega) rfl rfl

/-- Moving down by `d` in place: the loop reads each index before it is overwritten. -/
theorem foldl_moveDown {d s : ℕ} (hd : 0 < d) (h : d ≤ s) (n : ℕ) (m : ℕ → α) (j : ℕ) :
    (List.range' s n).foldl (fun m i => Function.update m (i - d) (m i)) m j =
      if s ≤ j + d ∧ j + d < s + n then m (j + d) else m j := by
  induction n generalizing j with
  | zero => exact (if_neg (by omega)).symm
  | succ n ih =>
    rw [List.range'_1_concat, List.foldl_append, List.foldl_cons, List.foldl_nil]
    by_cases hj : j = s + n - d
    · rw [hj, Function.update_self, ih, if_neg (by omega), if_pos (by omega)]
      congr 1
      omega
    · rw [Function.update_of_ne hj, ih]
      exact if_congr (by omega) rfl rfl

end Ttos
