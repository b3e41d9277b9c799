/-
  Computations with a state that leave a trace and may fail.

  * `erase`: the computation without its trace;
  * `all_run_bind`: what holds of everything a sequence did.
-/
import Ttos.Lib.Traced

namespace Ttos

/-- A computation with trace items `ω`, state `σ` and errors `ε`. -/
abbrev TracedState (ω σ ε : Type) := StateT σ (Traced ω ε)

namespace TracedState

variable {ω σ ε α β : Type} {P : ω → Prop}

/-- Do something of which nothing is recorded. -/
def quiet (x : StateT σ (Except ε) α) : TracedState ω σ ε α := fun s => Traced.lift (x s)

/-- Do something recorded that leaves the state alone. -/
def record (x : Traced ω ε α) : TracedState ω σ ε α := fun s => x >>= fun a => pure (a, s)

/-- The computation without its trace. -/
def erase (x : TracedState ω σ ε α) : StateT σ (Except ε) α := fun s => (x s).result

theorem erase_run (x : TracedState ω σ ε α) (s : σ) : erase x s = (x s).result := rfl

theorem run_bind (x : TracedState ω σ ε α) (f : α → TracedState ω σ ε β) (s : σ) :
    (x >>= f) s = (x s >>= fun r => f r.1 r.2) := rfl

@[simp] theorem erase_pure (a : α) : erase (pure a : TracedState ω σ ε α) = pure a := rfl

@[simp] theorem erase_quiet (x : StateT σ (Except ε) α) :
    erase (quiet x : TracedState ω σ ε α) = x := rfl

theorem erase_record_run (x : Traced ω ε α) (s : σ) :
    erase (record x) s = x.result.map (·, s) := by
  show (Traced.bind x fun a => pure (a, s)).result = _
  unfold Traced.bind
  cases x.result with
  | error e => rfl
  | ok a => rfl

theorem erase_record {x : Traced ω ε α} {a : α} (h : x.result = .ok a) :
    erase (record x : TracedState ω σ ε α) = pure a := by
  funext s
  rw [erase_record_run, h]
  rfl

@[simp] theorem erase_bind (x : TracedState ω σ ε α) (f : α → TracedState ω σ ε β) :
    erase (x >>= f) = erase x >>= fun a => erase (f a) := by
  funext s
  show (Traced.bind (x s) fun r => f r.1 r.2).result = Except.bind (x s).result _
  unfold Traced.bind Except.bind
  cases (x s).result with
  | error e => rfl
  | ok r => rfl

theorem erase_ite (c : Prop) [Decidable c] (x y : TracedState ω σ ε α) :
    erase (if c then x else y) = if c then erase x else erase y := by
  split <;> rfl

theorem run_quiet_bind {x : StateT σ (Except ε) α} {s s' : σ} {a : α} (h : x s = .ok (a, s'))
    (f : α → TracedState ω σ ε β) : (quiet x >>= f) s = f a s' := by
  show Traced.bind (Traced.lift (x s)) _ = _
  rw [h]
  rfl

theorem run_quiet_bind_error {x : StateT σ (Except ε) α} {s : σ} {e : ε} (h : x s = .error e)
    (f : α → TracedState ω σ ε β) : (quiet x >>= f) s = ⟨[], .error e⟩ := by
  show Traced.bind (Traced.lift (x s)) _ = _
  rw [h]
  rfl

theorem erase_record_bind {x : Traced ω ε α} {a : α} (h : x.result = .ok a)
    (f : α → TracedState ω σ ε β) (s : σ) : erase (record x >>= f) s = erase (f a) s := by
  rw [erase_bind, erase_record h, pure_bind]

/-- A sequence does what its first part does, and then what the second does with its result. -/
theorem all_run_bind (x : TracedState ω σ ε α) (f : α → TracedState ω σ ε β) (s : σ) :
    ((x >>= f) s).All P ↔
      (x s).All P ∧ ∀ a s', erase x s = .ok (a, s') → (f a s').All P := by
  rw [run_bind, Traced.all_bind]
  exact and_congr_right fun _ => Prod.forall

/-- After something recorded. -/
theorem all_record_bind {x : Traced ω ε α} {a : α} (h : x.result = .ok a)
    (f : α → TracedState ω σ ε β) (s : σ) :
    ((record x >>= f) s).All P ↔ x.All P ∧ (f a s).All P := by
  have hx : (record x s : Traced ω ε (α × σ)).All P ↔ x.All P := by
    rw [record, Traced.all_bind]
    exact and_iff_left fun b _ => (Traced.all_pure _).2 trivial
  rw [all_run_bind, hx, erase_record h]
  refine and_congr_right fun _ => ⟨fun hf => hf a s rfl, ?_⟩
  rintro hf b s' hb
  obtain ⟨rfl, rfl⟩ := Prod.mk.inj (Except.ok.inj hb)
  exact hf

@[simp] theorem all_run_pure (a : α) (s : σ) :
    ((pure a : TracedState ω σ ε α) s).All P ↔ True :=
  Traced.all_pure (a, s)

@[simp] theorem all_run_quiet (x : StateT σ (Except ε) α) (s : σ) :
    ((quiet x : TracedState ω σ ε α) s).All P ↔ True :=
  Traced.all_lift (x s)

end TracedState

end Ttos
