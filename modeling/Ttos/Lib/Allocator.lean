/-
  Allocators by their contract.

  A client that keeps its objects apart from the allocator's own memory needs
  only which pointers are live: an allocation never returns a live pointer, and
  nothing but `free` ends a pointer's life.  `0` is the null pointer.

  * `Allocator.alloc_keeps`, `Allocator.ne_of_live`: a new object is none of the old ones.
-/
import Mathlib.Data.Nat.Notation

namespace Ttos

/-- The sizes the contract speaks about: not empty, and the request can be
    padded to a page without wrapping in 32 bits. -/
def Request (n : ℕ) : Prop := 0 < n ∧ n + 4096 ≤ 4294967296

instance (n : ℕ) : Decidable (Request n) := inferInstanceAs (Decidable (_ ∧ _))

/-- An allocator with states `σ`.  `alloc s n align` returns a pointer, or `0`. -/
class Allocator (σ : Type*) where
  alloc : σ → ℕ → Bool → ℕ × σ
  free : σ → ℕ → σ
  Live : σ → ℕ → Prop
  not_live_null : ∀ s, ¬ Live s 0
  alloc_fresh : ∀ s n align, Request n → ¬ Live s (alloc s n align).1
  alloc_live : ∀ s n align p, Request n →
    (Live (alloc s n align).2 p ↔ Live s p ∨ p ≠ 0 ∧ p = (alloc s n align).1)
  free_live : ∀ s p q, Live (free s p) q ↔ Live s q ∧ q ≠ p

namespace Allocator

variable {σ : Type*} [Allocator σ] {s : σ} {n p : ℕ} {align : Bool}

theorem ne_null (h : Live s p) : p ≠ 0 := by
  rintro rfl
  exact not_live_null s h

theorem alloc_keeps (hn : Request n) (h : Live s p) : Live (alloc s n align).2 p :=
  (alloc_live s n align p hn).2 (Or.inl h)

theorem alloc_new (hn : Request n) (h : (alloc s n align).1 ≠ 0) :
    Live (alloc s n align).2 (alloc s n align).1 :=
  (alloc_live s n align _ hn).2 (Or.inr ⟨h, rfl⟩)

theorem ne_of_live (hn : Request n) (h : Live s p) : p ≠ (alloc s n align).1 := by
  rintro rfl
  exact alloc_fresh s n align hn h

/-- Requests of these sizes, one after the other, are served. -/
def Serves : σ → List ℕ → Prop
  | _, [] => True
  | s, n :: ns => (alloc s n false).1 ≠ 0 ∧ Serves (alloc s n false).2 ns

instance decidableServes : (s : σ) → (ns : List ℕ) → Decidable (Serves s ns)
  | _, [] => inferInstanceAs (Decidable True)
  | s, n :: ns =>
    have := decidableServes (alloc s n false).2 ns
    inferInstanceAs (Decidable (_ ∧ _))

/-- Freeing several pointers, in order. -/
def freeAll (s : σ) (ps : List ℕ) : σ := ps.foldl free s

theorem freeAll_live (s : σ) (ps : List ℕ) (q : ℕ) :
    Live (freeAll s ps) q ↔ Live s q ∧ q ∉ ps := by
  induction ps generalizing s with
  | nil => simp [freeAll]
  | cons p ps ih =>
    rw [freeAll, List.foldl_cons, ← freeAll, ih, free_live, List.mem_cons, not_or, and_assoc]

end Allocator

end Ttos
