/-
  Computations with a state that may fail.

  `Meets allowed x s Q`: from the state `s`, `x` fails only with an error that is
  `allowed`, and what it returns meets `Q`.  `Returns allowed x P` is the same
  for every state, with a postcondition on the value only.

  * `Meets.bind`, `Returns.bind`: the rule of composition.
-/
import Mathlib.Init

namespace Ttos

variable {σ ε α β : Type} {allowed : ε → Prop} {x : StateT σ (Except ε) α} {s : σ}

def Meets (allowed : ε → Prop) (x : StateT σ (Except ε) α) (s : σ) (Q : α → σ → Prop) : Prop :=
  match x s with
  | .ok r => Q r.1 r.2
  | .error e => allowed e

def Returns (allowed : ε → Prop) (x : StateT σ (Except ε) α) (P : α → Prop) : Prop :=
  ∀ s, Meets allowed x s fun a _ => P a

/-- What the two parts of a computation did that returned a value. -/
theorem exists_of_bind_run {f : α → StateT σ (Except ε) β} {r : β × σ} (h : (x >>= f) s = .ok r) :
    ∃ a s', x s = .ok (a, s') ∧ f a s' = .ok r := by
  rw [Bind.bind, Monad.toBind, StateT.instMonad] at h
  cases hx : x s with
  | error e =>
    simp only [StateT.bind, hx] at h
    cases h
  | ok p =>
    simp only [StateT.bind, hx] at h
    exact ⟨p.1, p.2, rfl, h⟩

theorem exists_of_map_run {f : α → β} {s' : σ} {b : β} (h : (f <$> x) s = .ok (b, s')) :
    ∃ a, x s = .ok (a, s') ∧ f a = b := by
  rw [map_eq_pure_bind] at h
  obtain ⟨a, s₁, h1, h2⟩ := exists_of_bind_run h
  obtain ⟨h3, rfl⟩ := Prod.mk.inj (Except.ok.inj h2)
  exact ⟨a, h1, h3⟩

namespace Meets

variable {Q Q' : α → σ → Prop} {R : β → σ → Prop}

theorem of_ok {a : α} {s' : σ} (h : x s = .ok (a, s')) (hq : Q a s') : Meets allowed x s Q := by
  rw [Meets, h]
  exact hq

theorem of_error {e : ε} (h : x s = .error e) (he : allowed e) : Meets allowed x s Q := by
  rw [Meets, h]
  exact he

/-- What a computation did that met its postcondition. -/
theorem cases (h : Meets allowed x s Q) :
    (∃ e, x s = .error e ∧ allowed e) ∨ ∃ a s', x s = .ok (a, s') ∧ Q a s' := by
  rw [Meets] at h
  cases hx : x s with
  | error e => exact Or.inl ⟨e, rfl, by rwa [hx] at h⟩
  | ok r => exact Or.inr ⟨r.1, r.2, rfl, by rwa [hx] at h⟩

theorem mono (h : Meets allowed x s Q) (hq : ∀ a s', Q a s' → Q' a s') :
    Meets allowed x s Q' := by
  rcases h.cases with ⟨e, hx, he⟩ | ⟨a, s', hx, ha⟩
  · exact of_error hx he
  · exact of_ok hx (hq a s' ha)

/-- A run that returned a value meets the postcondition. -/
theorem of_run {a : α} {s' : σ} (h : Meets allowed x s Q) (hx : x s = .ok (a, s')) : Q a s' := by
  rw [Meets, hx] at h
  exact h

/-- The postcondition beside the run itself. -/
theorem with_run (h : Meets allowed x s Q) :
    Meets allowed x s fun a s' => Q a s' ∧ x s = .ok (a, s') := by
  rcases h.cases with ⟨e, hx, he⟩ | ⟨a, s', hx, ha⟩
  · exact of_error hx he
  · exact of_ok hx ⟨ha, hx⟩

theorem pure {a : α} (h : Q a s) : Meets allowed (Pure.pure a) s Q := of_ok rfl h

theorem throw {e : ε} (h : allowed e) : Meets allowed (MonadExcept.throw e) s Q := of_error rfl h

theorem bind {f : α → StateT σ (Except ε) β} (h : Meets allowed x s Q)
    (hf : ∀ a s', Q a s' → Meets allowed (f a) s' R) : Meets allowed (x >>= f) s R := by
  rcases h.cases with ⟨e, hx, he⟩ | ⟨a, s', hx, ha⟩
  · refine of_error ?_ he
    rw [Bind.bind, Monad.toBind, StateT.instMonad]
    simp only [StateT.bind, hx]
    rfl
  · have hb : (x >>= f) s = f a s' := by
      rw [Bind.bind, Monad.toBind, StateT.instMonad]
      simp only [StateT.bind, hx]
      rfl
    rw [Meets, hb]
    exact hf a s' ha

theorem get_bind {f : σ → StateT σ (Except ε) β} (h : Meets allowed (f s) s R) :
    Meets allowed (get >>= f) s R :=
  bind (Q := fun a s' => a = s ∧ s' = s) (of_ok rfl ⟨rfl, rfl⟩) (by
    rintro _ _ ⟨rfl, rfl⟩
    exact h)

theorem modify_bind {g : σ → σ} {f : PUnit → StateT σ (Except ε) β}
    (h : Meets allowed (f ()) (g s) R) : Meets allowed (modify g >>= f) s R :=
  bind (Q := fun _ s' => s' = g s) (of_ok rfl rfl) (by
    rintro _ _ rfl
    exact h)

end Meets

namespace Returns

variable {P P' : α → Prop} {R : β → Prop}

theorem mono (h : Returns allowed x P) (hp : ∀ a, P a → P' a) : Returns allowed x P' :=
  fun s => (h s).mono fun a _ => hp a

theorem pure {a : α} (h : P a) : Returns (σ := σ) allowed (Pure.pure a) P := fun _ => Meets.pure h

theorem bind {f : α → StateT σ (Except ε) β} (h : Returns allowed x P)
    (hf : ∀ a, P a → Returns allowed (f a) R) : Returns allowed (x >>= f) R :=
  fun s => (h s).bind fun a s' ha => hf a ha s'

end Returns

-- `Meets` is taken apart by its lemmas; unfolding it would run the computation
attribute [irreducible] Meets

end Ttos
