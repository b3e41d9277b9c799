/-
  Computations that leave a trace and may fail.

  The trace holds what happened before a failure, too.

  * `Traced.all_bind`: what holds of everything a sequence did.
  * `Traced.Does`: what a computation returns, and what holds of everything it does.
  * `Traced.Touches`: what a computation returns, and exactly what it does.
-/
import Mathlib.Data.Set.Basic

namespace Ttos

/-- A computation with trace items `ω`, errors `ε` and results `α`. -/
structure Traced (ω ε α : Type*) where
  log : List ω
  result : Except ε α

namespace Traced

variable {ω ε : Type*} {α β : Type} {P : ω → Prop}

/-- Do something that is recorded. -/
def tell (w : ω) : Traced ω ε Unit := ⟨[w], .ok ()⟩

/-- Do something that is not recorded. -/
def lift (x : Except ε α) : Traced ω ε α := ⟨[], x⟩

def bind (x : Traced ω ε α) (f : α → Traced ω ε β) : Traced ω ε β :=
  match x.result with
  | .ok a => ⟨x.log ++ (f a).log, (f a).result⟩
  | .error e => ⟨x.log, .error e⟩

instance : Monad (Traced ω ε) where
  pure a := ⟨[], .ok a⟩
  bind := bind

/-- Everything that was done has `P`. -/
def All (P : ω → Prop) (x : Traced ω ε α) : Prop := ∀ w ∈ x.log, P w

@[simp] theorem all_pure (a : α) : (pure a : Traced ω ε α).All P ↔ True :=
  iff_true_intro fun _ h => nomatch h

@[simp] theorem all_tell (w : ω) : (tell w : Traced ω ε Unit).All P ↔ P w := by simp [All, tell]

@[simp] theorem all_lift (x : Except ε α) : (lift x : Traced ω ε α).All P ↔ True :=
  iff_true_intro fun _ h => nomatch h

@[simp] theorem result_pure (a : α) : (pure a : Traced ω ε α).result = .ok a := rfl

@[simp] theorem result_tell (w : ω) : (tell w : Traced ω ε Unit).result = .ok () := rfl

@[simp] theorem result_lift (x : Except ε α) : (lift x : Traced ω ε α).result = x := rfl

/-- A sequence does what its first part does, and then what the second does with its result. -/
theorem all_bind (x : Traced ω ε α) (f : α → Traced ω ε β) :
    (x >>= f).All P ↔ x.All P ∧ ∀ a, x.result = .ok a → (f a).All P := by
  show (bind x f).All P ↔ _
  unfold bind All
  cases hx : x.result with
  | error e => simp
  | ok a => simp [or_imp, forall_and]

theorem result_bind {x : Traced ω ε α} {a : α} (h : x.result = .ok a) (f : α → Traced ω ε β) :
    (x >>= f).result = (f a).result := by
  show (bind x f).result = _
  unfold bind
  rw [h]

theorem result_bind_error {x : Traced ω ε α} {e : ε} (h : x.result = .error e)
    (f : α → Traced ω ε β) : (x >>= f).result = .error e := by
  show (bind x f).result = _
  unfold bind
  rw [h]

theorem log_bind {x : Traced ω ε α} {a : α} (h : x.result = .ok a) (f : α → Traced ω ε β) :
    (x >>= f).log = x.log ++ (f a).log := by
  show (bind x f).log = _
  unfold bind
  rw [h]

/-- A sequence that returns has parts that return. -/
theorem of_bind_ok {x : Traced ω ε α} {f : α → Traced ω ε β} {b : β}
    (h : (x >>= f).result = .ok b) :
    ∃ a, x.result = .ok a ∧ (f a).result = .ok b ∧ (x >>= f).log = x.log ++ (f a).log := by
  cases hx : x.result with
  | error e => exact absurd ((result_bind_error hx f).symm.trans h) (by simp)
  | ok a => exact ⟨a, rfl, (result_bind hx f).symm.trans h, log_bind hx f⟩

/-- After a part that returns. -/
theorem all_bind_of {x : Traced ω ε α} {a : α} (h : x.result = .ok a) (f : α → Traced ω ε β) :
    (x >>= f).All P ↔ x.All P ∧ (f a).All P := by
  rw [all_bind]
  refine and_congr_right fun _ => ⟨fun hf => hf a h, fun hf b hb => ?_⟩
  obtain rfl := Except.ok.inj (h.symm.trans hb)
  exact hf

/-- After something recorded. -/
theorem all_tell_bind (w : ω) (f : Unit → Traced ω ε β) :
    (tell w >>= f).All P ↔ P w ∧ (f ()).All P := by
  rw [all_bind_of rfl, all_tell]

/-- The computation returns `a`, and everything it does has `P`. -/
structure Does (x : Traced ω ε α) (P : ω → Prop) (a : α) : Prop where
  result : x.result = .ok a
  all : x.All P

namespace Does

variable {x : Traced ω ε α} {a : α} {b : β}

theorem pure (a : α) : Does (Pure.pure a : Traced ω ε α) P a := ⟨rfl, (all_pure a).2 trivial⟩

theorem tell {w : ω} (h : P w) : Does (tell w : Traced ω ε Unit) P () := ⟨rfl, (all_tell w).2 h⟩

theorem lift {y : Except ε α} (h : y = .ok a) : Does (lift y : Traced ω ε α) P a :=
  ⟨h, (all_lift y).2 trivial⟩

theorem bind {f : α → Traced ω ε β} (hx : Does x P a) (hf : Does (f a) P b) : Does (x >>= f) P b := by
  refine ⟨(result_bind hx.result f).trans hf.result, (all_bind x f).2 ⟨hx.all, fun c hc => ?_⟩⟩
  obtain rfl : a = c := Except.ok.inj (hx.result.symm.trans hc)
  exact hf.all

/-- A loop: every round keeps `I` and does what it should. -/
theorem foldlM {γ : Type} {f : α → γ → Traced ω ε α} {g : α → γ → α} {I : α → Prop} {l : List γ}
    (h : ∀ a, ∀ c ∈ l, I a → Does (f a c) P (g a c) ∧ I (g a c)) {a : α} (h0 : I a) :
    Does (l.foldlM f a) P (l.foldl g a) ∧ I (l.foldl g a) := by
  induction l generalizing a with
  | nil => exact ⟨pure a, h0⟩
  | cons c l ih =>
    obtain ⟨hd, hi⟩ := h a c (List.mem_cons_self ..) h0
    obtain ⟨hd', hi'⟩ := ih (fun a c' hc' => h a c' (List.mem_cons_of_mem _ hc')) hi
    exact ⟨by rw [List.foldlM_cons]; exact hd.bind hd', hi'⟩

end Does

/-- The computation returns `a`, and what it does is exactly `A`. -/
structure Touches (x : Traced ω ε α) (A : Set ω) (a : α) : Prop where
  result : x.result = .ok a
  log : ∀ w, w ∈ x.log ↔ w ∈ A

namespace Touches

variable {x : Traced ω ε α} {A B : Set ω} {a : α} {b : β}

theorem pure (a : α) : Touches (Pure.pure a : Traced ω ε α) ∅ a :=
  ⟨rfl, fun _ => iff_of_false List.not_mem_nil (Set.notMem_empty _)⟩

theorem tell (w : ω) : Touches (tell w : Traced ω ε Unit) {w} () :=
  ⟨rfl, fun _ => List.mem_singleton⟩

theorem bind {f : α → Traced ω ε β} (hx : Touches x A a) (hf : Touches (f a) B b) :
    Touches (x >>= f) (A ∪ B) b := by
  refine ⟨(result_bind hx.result f).trans hf.result, fun w => ?_⟩
  rw [log_bind hx.result, List.mem_append, hx.log, hf.log]
  rfl

theorem mono (h : Touches x A a) (hA : A = B) : Touches x B a := hA ▸ h

/-- Everything done has `P` exactly if all of `A` has it. -/
theorem all_iff (h : Touches x A a) : x.All P ↔ ∀ w ∈ A, P w :=
  forall_congr' fun w => imp_congr_left (h.log w)

end Touches

end Traced

end Ttos
