/-
  Computations that may fail: what a computation did when it returned a value.

  * `exists_of_bind_ok`, `exists_of_map_ok`: its parts returned values.
  * `foldlM_ok`, `foldlM_ne_error`: what every step of a fold keeps, and how it cannot fail.
  * `exists_of_check`: an evaluated check of the value.
-/
import Mathlib.Init

namespace Ttos

variable {ε α β : Type*} {x : Except ε α} {b : β}

theorem exists_of_bind_ok {f : α → Except ε β} (h : x.bind f = .ok b) :
    ∃ a, x = .ok a ∧ f a = .ok b := by
  cases x with
  | error e => cases h
  | ok a => exact ⟨a, rfl, h⟩

theorem exists_of_map_ok {f : α → β} (h : x.map f = .ok b) : ∃ a, x = .ok a ∧ f a = b := by
  cases x with
  | error e => cases h
  | ok a => exact ⟨a, rfl, Except.ok.inj h⟩

/-- A fold that returned a value: `P` is about the elements done so far. -/
theorem foldlM_ok {f : β → α → Except ε β} {P : List α → β → Prop} {l : List α}
    (step : ∀ done x b b', x ∈ l → P done b → f b x = .ok b' → P (done ++ [x]) b') :
    ∀ {b b' : β}, P [] b → l.foldlM f b = .ok b' → P l b' := by
  have aux : ∀ (rest done : List α) (b b' : β), done ++ rest = l → P done b →
      rest.foldlM f b = .ok b' → P l b' := by
    intro rest
    induction rest with
    | nil =>
      intro done b b' hl h0 hf
      rw [List.append_nil] at hl
      obtain rfl : b = b' := Except.ok.inj hf
      exact hl ▸ h0
    | cons x rest ih =>
      intro done b b' hl h0 hf
      obtain ⟨b₁, h1, h2⟩ := exists_of_bind_ok (x := f b x) (f := fun b => rest.foldlM f b) hf
      have hx : x ∈ l := by simp [← hl]
      refine ih (done ++ [x]) b₁ b' ?_ (step done x b b₁ hx h0 h1) h2
      rw [List.append_assoc, List.singleton_append, hl]
  intro b b' h0 hf
  exact aux l [] b b' rfl h0 hf

/-- A fold fails only where one of its steps does. -/
theorem foldlM_ne_error {f : β → α → Except ε β} {P : List α → β → Prop} {l : List α} {e : ε}
    (step : ∀ done x b b', x ∈ l → P done b → f b x = .ok b' → P (done ++ [x]) b')
    (hne : ∀ done x b, x ∈ l → P done b → f b x ≠ .error e) {b : β} (h0 : P [] b) :
    l.foldlM f b ≠ .error e := by
  have aux : ∀ (rest done : List α) (b : β), done ++ rest = l → P done b →
      rest.foldlM f b ≠ .error e := by
    intro rest
    induction rest with
    | nil =>
      intro done b _ _ hf
      cases hf
    | cons x rest ih =>
      intro done b hl hP hf
      have hx : x ∈ l := by simp [← hl]
      have hf : (f b x).bind (fun b => rest.foldlM f b) = .error e := hf
      cases hs : f b x with
      | error e' =>
        rw [hs] at hf
        obtain rfl : e' = e := Except.error.inj hf
        exact hne done x b hx hP hs
      | ok b₁ =>
        rw [hs] at hf
        refine ih (done ++ [x]) b₁ ?_ (step done x b b₁ hx hP hs) hf
        rw [List.append_assoc, List.singleton_append, hl]
  exact aux l [] b rfl h0

/-- A guard that does not lead to the result was not met. -/
theorem else_of_ite_ok {c : Prop} [Decidable c] {y z : Except ε β}
    (h : (if c then y else z) = .ok b) (hy : y ≠ .ok b) : ¬ c ∧ z = .ok b := by
  split at h
  · exact absurd h hy
  · exact ⟨‹¬ c›, h⟩

/-- The computation returns a value with `P`. -/
def returns (x : Except ε α) (P : α → Bool) : Bool :=
  match x with
  | .ok a => P a
  | .error _ => false

theorem exists_of_check {P : α → Bool} (h : returns x P = true) : ∃ a, x = .ok a ∧ P a = true := by
  cases x with
  | error e => cases h
  | ok a => exact ⟨a, rfl, h⟩

end Ttos
