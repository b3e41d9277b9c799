/-
  Trees of blocks that hold pointers to blocks, as file systems use them.

  `entry b i` is pointer `i` of block `b`, and every block has `p` pointers.  A
  null pointer stands for a subtree of holes.

  * `resolve l b n`: leaf `n` of the tree of height `l` at `b`;
  * `path l b n`: the pointers followed on the way;
  * `inner l b n`: those of them that are blocks of pointers;
  * `resolve_mem_path`: the leaf is on the path.
-/
import Mathlib.Data.Nat.Notation
import Mathlib.Algebra.Group.Nat.Defs
import Mathlib.Data.List.Basic

namespace Ttos.BlockTree

variable (entry : ℕ → ℕ → ℕ) (p : ℕ)

def resolve : ℕ → ℕ → ℕ → ℕ
  | 0, b, _ => b
  | l + 1, b, n => if b = 0 then 0 else resolve l (entry b (n / p ^ l)) (n % p ^ l)

def path : ℕ → ℕ → ℕ → List ℕ
  | 0, b, _ => [b]
  | l + 1, b, n => b :: if b = 0 then [] else path l (entry b (n / p ^ l)) (n % p ^ l)

def inner : ℕ → ℕ → ℕ → List ℕ
  | 0, _, _ => []
  | l + 1, b, n => if b = 0 then [] else b :: inner l (entry b (n / p ^ l)) (n % p ^ l)

variable {entry p} {l b n : ℕ}

theorem resolve_null : resolve entry p l 0 n = 0 := by
  cases l with
  | zero => rfl
  | succ l => exact if_pos rfl

theorem resolve_succ (h : b ≠ 0) :
    resolve entry p (l + 1) b n = resolve entry p l (entry b (n / p ^ l)) (n % p ^ l) := if_neg h

theorem mem_path_self : b ∈ path entry p l b n := by
  cases l <;> exact List.mem_cons_self ..

theorem path_succ (h : b ≠ 0) :
    path entry p (l + 1) b n = b :: path entry p l (entry b (n / p ^ l)) (n % p ^ l) := by
  rw [path, if_neg h]

theorem inner_succ (h : b ≠ 0) :
    inner entry p (l + 1) b n = b :: inner entry p l (entry b (n / p ^ l)) (n % p ^ l) := by
  rw [inner, if_neg h]

theorem inner_subset_path : inner entry p l b n ⊆ path entry p l b n := by
  induction l generalizing b n with
  | zero => exact List.nil_subset _
  | succ l ih =>
    by_cases h : b = 0
    · rw [inner, if_pos h]
      exact List.nil_subset _
    · rw [inner_succ h, path_succ h]
      exact List.cons_subset_cons b ih

theorem resolve_mem_path : resolve entry p l b n = 0 ∨ resolve entry p l b n ∈ path entry p l b n := by
  induction l generalizing b n with
  | zero => exact Or.inr (List.mem_cons_self ..)
  | succ l ih =>
    by_cases h : b = 0
    · rw [h]
      exact Or.inl resolve_null
    · rw [resolve_succ h, path_succ h]
      exact ih.imp_right (List.mem_cons_of_mem _)

end Ttos.BlockTree
