/-
  Computations with a state that return exactly when a condition holds.

  `MeetsIff excused x s C Q`: from the state `s`, `x` returns something that meets `Q` if `C`
  holds, and fails otherwise; errors that are `excused` may happen either way.

  * `MeetsIff.bind`: the conditions of the parts, one after the other.
  * `MeetsIff.returns_iff`: what it says of a run without an excused error.
-/
import Ttos.Lib.StateFail

namespace Ttos

variable {σ ε α β : Type} {excused : ε → Prop} {x : StateT σ (Except ε) α} {s : σ} {C C' D : Prop}

def MeetsIff (excused : ε → Prop) (x : StateT σ (Except ε) α) (s : σ) (C : Prop)
    (Q : α → σ → Prop) : Prop :=
  Meets (fun e => excused e ∨ ¬ C) x s fun a s' => C ∧ Q a s'

namespace MeetsIff

variable {Q Q' : α → σ → Prop} {R : β → σ → Prop}

/-- Without an excused error, the condition decides. -/
theorem returns_iff (h : MeetsIff excused x s C Q) (hx : ∀ e, x s = .error e → ¬ excused e) :
    (∃ r, x s = .ok r) ↔ C := by
  rcases Meets.cases h with ⟨e, he, h1 | h1⟩ | ⟨a, s', ha, hC, -⟩
  · exact absurd h1 (hx e he)
  · refine iff_of_false ?_ h1
    rintro ⟨r, hr⟩
    rw [he] at hr
    cases hr
  · exact iff_of_true ⟨_, ha⟩ hC

theorem of_ok {a : α} {s' : σ} (h : x s = .ok (a, s')) (hq : Q a s') :
    MeetsIff excused x s True Q := Meets.of_ok h ⟨trivial, hq⟩

theorem of_excused {e : ε} (h : x s = .error e) (he : excused e) : MeetsIff excused x s C Q :=
  Meets.of_error h (Or.inl he)

theorem of_error {e : ε} (h : x s = .error e) : MeetsIff excused x s False Q :=
  Meets.of_error h (Or.inr id)

/-- What never returns. -/
theorem of_fails (h : ∀ r, x s ≠ .ok r) : MeetsIff excused x s False Q := by
  cases hx : x s with
  | error e => exact of_error hx
  | ok r => exact absurd hx (h r)

theorem pure {a : α} (h : Q a s) : MeetsIff excused (Pure.pure a) s True Q := of_ok rfl h

theorem congr (h : MeetsIff excused x s C Q) (hC : C ↔ C') : MeetsIff excused x s C' Q :=
  propext hC ▸ h

theorem mono (h : MeetsIff excused x s C Q) (hq : ∀ a s', C → Q a s' → Q' a s') :
    MeetsIff excused x s C Q' := Meets.mono h fun a s' ha => ⟨ha.1, hq a s' ha.1 ha.2⟩

/-- **Composition**: the second condition is the one after any result of the first part. -/
theorem bind {f : α → StateT σ (Except ε) β} (h : MeetsIff excused x s C Q)
    (hf : ∀ a s', C → Q a s' → MeetsIff excused (f a) s' D R) :
    MeetsIff excused (x >>= f) s (C ∧ D) R := by
  have h1 : Meets (fun e => excused e ∨ ¬ (C ∧ D)) x s fun a s' => C ∧ Q a s' := by
    rcases Meets.cases h with ⟨e, he, h1 | h1⟩ | ⟨a, s', ha, hQ⟩
    · exact Meets.of_error he (Or.inl h1)
    · exact Meets.of_error he (Or.inr fun hCD => h1 hCD.1)
    · exact Meets.of_ok ha hQ
  refine Meets.bind h1 fun a s' ha => ?_
  rcases Meets.cases (hf a s' ha.1 ha.2) with ⟨e, he, h2 | h2⟩ | ⟨b, s'', hb, hD, hR⟩
  · exact Meets.of_error he (Or.inl h2)
  · exact Meets.of_error he (Or.inr fun hCD => h2 hCD.2)
  · exact Meets.of_ok hb ⟨⟨ha.1, hD⟩, hR⟩

/-- A first part without a condition of its own. -/
theorem bind_true {f : α → StateT σ (Except ε) β} (h : MeetsIff excused x s True Q)
    (hf : ∀ a s', Q a s' → MeetsIff excused (f a) s' D R) : MeetsIff excused (x >>= f) s D R :=
  (h.bind fun a s' _ => hf a s').congr (iff_of_eq (true_and D))

/-- A last part without a condition of its own. -/
theorem bind_last {f : α → StateT σ (Except ε) β} (h : MeetsIff excused x s C Q)
    (hf : ∀ a s', C → Q a s' → MeetsIff excused (f a) s' True R) :
    MeetsIff excused (x >>= f) s C R :=
  (h.bind hf).congr (iff_of_eq (and_true C))

end MeetsIff

/-- A computation that only looks at the state: it returns `v` exactly if `C` holds. -/
abbrev LooksIff (excused : ε → Prop) (x : StateT σ (Except ε) α) (s : σ) (C : Prop) (v : α) :
    Prop :=
  MeetsIff excused x s C fun a s' => a = v ∧ s' = s

namespace LooksIff

variable {v : α} {Q : β → σ → Prop}

theorem pure : LooksIff excused (Pure.pure v) s True v := MeetsIff.pure ⟨rfl, rfl⟩

theorem bind {f : α → StateT σ (Except ε) β} (h : LooksIff excused x s C v)
    (hf : C → MeetsIff excused (f v) s D Q) : MeetsIff excused (x >>= f) s (C ∧ D) Q :=
  MeetsIff.bind h fun a s' hC ha => by
    obtain ⟨rfl, rfl⟩ := ha
    exact hf hC

theorem bind_last {f : α → StateT σ (Except ε) β} (h : LooksIff excused x s C v)
    (hf : C → MeetsIff excused (f v) s True Q) : MeetsIff excused (x >>= f) s C Q :=
  (h.bind hf).congr (iff_of_eq (and_true C))

end LooksIff

-- as `Meets`, it is taken apart by its lemmas
attribute [irreducible] MeetsIff

end Ttos
