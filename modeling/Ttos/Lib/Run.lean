/-
  Runs of a transition system and the rule of invariants.

  * `Reachable T s`: some run of `T` ends in `s`.
  * `Reachable.invariant`: what holds at the start and is kept by every step
    from a reachable state holds in every reachable state.
-/
import Mathlib.Init

namespace Ttos

/-- A transition system on the states `σ`, its steps labelled by `ι`. -/
structure TransitionSystem (σ ι : Type*) where
  init : σ → Prop
  step : σ → ι → σ → Prop

namespace TransitionSystem

variable {σ ι : Type*} {T : TransitionSystem σ ι} {s : σ}

/-- The states some run ends in. -/
inductive Reachable (T : TransitionSystem σ ι) : σ → Prop
  | init {s : σ} : T.init s → T.Reachable s
  | step {s s' : σ} {i : ι} : T.Reachable s → T.step s i s' → T.Reachable s'

/-- The rule of invariants. -/
theorem Reachable.invariant {P : σ → Prop} (h0 : ∀ s, T.init s → P s)
    (hs : ∀ s i s', T.Reachable s → P s → T.step s i s' → P s') (h : T.Reachable s) : P s := by
  induction h with
  | init h => exact h0 _ h
  | step hr h ih => exact hs _ _ _ hr ih h

end TransitionSystem

end Ttos
