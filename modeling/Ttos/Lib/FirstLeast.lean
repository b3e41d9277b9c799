/-
  The first least element of a list.

  * `FirstLeast P f xs b`: of the elements of `xs` with `P`, `b` has the least `f`, and
    it is the first of several.
  * `keepLeast`: one round of a search that keeps the best element so far;
    `foldl_keepLeast_spec`: the search finds the first least element when there is one.
-/
import Mathlib.Data.List.Induction
import Mathlib.Order.Lattice

namespace Ttos

variable {α β : Type*} [LinearOrder β] {P : α → Prop} {f : α → β} {xs ys : List α} {a b c : α}

/-- `b` is the first of the elements with `P` at which `f` is least. -/
def FirstLeast (P : α → Prop) (f : α → β) (xs : List α) (b : α) : Prop :=
  ∃ ls rs, xs = ls ++ b :: rs ∧ P b ∧ (∀ c ∈ xs, P c → f b ≤ f c) ∧ ∀ c ∈ ls, P c → f b < f c

namespace FirstLeast

theorem mem (h : FirstLeast P f xs b) : b ∈ xs := by
  obtain ⟨ls, rs, rfl, -⟩ := h
  simp

theorem sat (h : FirstLeast P f xs b) : P b := by
  obtain ⟨ls, rs, -, hb, -⟩ := h
  exact hb

theorem le (h : FirstLeast P f xs b) (hc : c ∈ xs) (hp : P c) : f b ≤ f c := by
  obtain ⟨ls, rs, -, -, hle, -⟩ := h
  exact hle c hc hp

/-- The only element with `P`, at the end of the list. -/
theorem append_first (hn : ∀ x ∈ xs, ¬ P x) (ha : P a) : FirstLeast P f (xs ++ [a]) a := by
  refine ⟨xs, [], rfl, ha, fun c hc hp => ?_, fun c hc hp => absurd hp (hn c hc)⟩
  rcases List.mem_append.1 hc with hc | hc
  · exact absurd hp (hn c hc)
  · rw [List.mem_singleton.1 hc]

/-- A smaller element behind. -/
theorem append_smaller (h : FirstLeast P f xs b) (ha : P a) (hlt : f a < f b) :
    FirstLeast P f (xs ++ [a]) a := by
  refine ⟨xs, [], rfl, ha, fun c hc hp => ?_, fun c hc hp => hlt.trans_le (h.le hc hp)⟩
  rcases List.mem_append.1 hc with hc | hc
  · exact (hlt.trans_le (h.le hc hp)).le
  · rw [List.mem_singleton.1 hc]

/-- An element behind that is not smaller. -/
theorem append_other (h : FirstLeast P f xs b) (ha : P a → f b ≤ f a) :
    FirstLeast P f (xs ++ [a]) b := by
  obtain ⟨ls, rs, rfl, hb, hle, hlt⟩ := h
  refine ⟨ls, rs ++ [a], by simp, hb, fun c hc hp => ?_, hlt⟩
  rcases List.mem_append.1 hc with hc | hc
  · exact hle c hc hp
  · rw [List.mem_singleton.1 hc] at hp ⊢
    exact ha hp

end FirstLeast

/-- The better of the best element so far and `b`. -/
def keepLeast (P : α → Prop) [DecidablePred P] (f : α → β) (best : Option α) (b : α) : Option α :=
  if P b then
    match best with
    | none => some b
    | some c => if f b < f c then some b else some c
  else best

/-- **The search** over a list finds the first least element with `P`, or there is no
    element with `P`. -/
theorem foldl_keepLeast_spec [DecidablePred P] (f : α → β) (xs : List α) :
    (xs.foldl (keepLeast P f) none = none ∧ ∀ x ∈ xs, ¬ P x) ∨
      ∃ b, xs.foldl (keepLeast P f) none = some b ∧ FirstLeast P f xs b := by
  induction xs using List.reverseRecOn with
  | nil => exact Or.inl ⟨rfl, by simp⟩
  | append_singleton xs a ih =>
    rw [List.foldl_append]
    rcases ih with ⟨h, hn⟩ | ⟨b, h, hb⟩
    · rw [h]
      by_cases ha : P a
      · exact Or.inr ⟨a, if_pos ha, .append_first hn ha⟩
      · refine Or.inl ⟨if_neg ha, fun x hx => ?_⟩
        rcases List.mem_append.1 hx with hx | hx
        · exact hn x hx
        · rwa [List.mem_singleton.1 hx]
    · rw [h]
      right
      by_cases ha : P a
      · by_cases hlt : f a < f b
        · exact ⟨a, (if_pos ha).trans (if_pos hlt), hb.append_smaller ha hlt⟩
        · exact ⟨b, (if_pos ha).trans (if_neg hlt), hb.append_other fun _ => not_lt.1 hlt⟩
      · exact ⟨b, if_neg ha, hb.append_other fun h => absurd h ha⟩

end Ttos
