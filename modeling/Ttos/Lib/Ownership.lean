/-
  Ownership: which of an allocator's pointers a computation may free.

  `Frame own new x`: a computation `x` that owns the pointers `own` frees no other
  ones, and hands out the pointers `new a` of its result, which are its own or
  were not live before.

  * `Frame.bind`: the rule of composition; a part may be verified without owning
    anything.
  * `Frame.alloc_bind`, `Frame.free_bind`: the allocator's operations.
  * `Returns.with_frame`: a frame beside what a computation returns.
-/
import Mathlib.Data.Set.Insert
import Ttos.Lib.Allocator
import Ttos.Lib.StateFail

namespace Ttos

open Allocator

variable {σ ε α β : Type} [Allocator σ] {own : Set ℕ} {new : α → Set ℕ} {new' : β → Set ℕ}
  {x : StateT σ (Except ε) α}

def Frame (own : Set ℕ) (new : α → Set ℕ) (x : StateT σ (Except ε) α) : Prop :=
  ∀ s a s', x s = .ok (a, s') → (∀ p ∈ own, Live s p) →
    (∀ p, Live s p → p ∉ own → Live s' p) ∧ ∀ p ∈ new a, Live s' p ∧ (Live s p → p ∈ own)

/-- A computation that frees nothing and hands out nothing. -/
abbrev Preserves (x : StateT σ (Except ε) α) : Prop := Frame ∅ (fun _ => ∅) x

namespace Frame

theorem pure {a : α} (h : new a ⊆ own) : Frame (σ := σ) (ε := ε) own new (Pure.pure a) := by
  intro s b s' hx hown
  obtain ⟨rfl, rfl⟩ : a = b ∧ s = s' := Prod.mk.inj (Except.ok.inj hx)
  exact ⟨fun p hp _ => hp, fun p hp => ⟨hown p (h hp), fun _ => h hp⟩⟩

theorem throw {e : ε} :
    Frame own new (MonadExcept.throw e : StateT σ (Except ε) α) := fun _ _ _ hx => nomatch hx

/-- A part that owns nothing, and then the rest with what the part handed out. -/
theorem bind {f : α → StateT σ (Except ε) β} (hx : Frame ∅ new x)
    (hf : ∀ a, (∀ p ∈ new a, p ∉ own) → Frame (own ∪ new a) new' (f a)) :
    Frame own new' (x >>= f) := by
  intro s b s'' h hown
  obtain ⟨a, s', h1, h2⟩ := exists_of_bind_run h
  obtain ⟨hkeep, hnew⟩ := hx s a s' h1 fun p hp => absurd hp (Set.notMem_empty p)
  have hkeep' : ∀ p, Live s p → Live s' p := fun p hp => hkeep p hp (Set.notMem_empty p)
  have hfresh : ∀ p ∈ new a, ¬ Live s p := fun p hp hl => (hnew p hp).2 hl
  obtain ⟨hkeep₂, hnew₂⟩ := hf a (fun p hp ho => hfresh p hp (hown p ho)) s' b s'' h2 fun p hp =>
    hp.elim (fun hp => hkeep' p (hown p hp)) fun hp => (hnew p hp).1
  refine ⟨fun p hp hno => hkeep₂ p (hkeep' p hp) ?_, fun p hp => ⟨(hnew₂ p hp).1, fun hl => ?_⟩⟩
  · rintro (ho | hn)
    · exact hno ho
    · exact hfresh p hn hp
  · exact ((hnew₂ p hp).2 (hkeep' p hl)).resolve_right fun hn => hfresh p hn hl

/-- A part that hands out nothing. -/
theorem bind_preserves {f : α → StateT σ (Except ε) β} (hx : Preserves x)
    (hf : ∀ a, Frame own new' (f a)) : Frame own new' (x >>= f) :=
  hx.bind fun a _ => by rw [Set.union_empty]; exact hf a

/-- A computation that starts by allocating a new pointer. -/
theorem alloc_bind {f : ℕ → StateT σ (Except ε) β} {x : StateT σ (Except ε) ℕ} {size : ℕ}
    (hs : Request size) (hx : ∀ s p s', x s = .ok (p, s') → p ≠ 0 ∧ (p, s') = alloc s size false)
    (hf : ∀ p, p ≠ 0 → Frame (insert p own) new' (f p)) : Frame own new' (x >>= f) := by
  intro s b s'' h hown
  obtain ⟨p, s', h1, h2⟩ := exists_of_bind_run h
  obtain ⟨h0, he⟩ := hx s p s' h1
  have hlive := fun q => alloc_live s size false q hs
  have hfresh := alloc_fresh s size false hs
  rw [← he] at hlive hfresh
  dsimp only at hlive hfresh
  have hown' : ∀ q ∈ insert p own, Live s' q := by
    rintro q (rfl | hq)
    · exact (hlive q).2 (Or.inr ⟨h0, rfl⟩)
    · exact (hlive q).2 (Or.inl (hown q hq))
  obtain ⟨hkeep, hnew⟩ := hf p h0 s' b s'' h2 hown'
  refine ⟨fun q hq hno => hkeep q ((hlive q).2 (Or.inl hq)) ?_, fun q hq => ⟨(hnew q hq).1, fun hl => ?_⟩⟩
  · rintro (rfl | ho)
    · exact hfresh hq
    · exact hno ho
  · rcases (hnew q hq).2 ((hlive q).2 (Or.inl hl)) with rfl | ho
    · exact absurd hl hfresh
    · exact ho

/-- A computation that starts by freeing a pointer of its own. -/
theorem free_bind {f : Unit → StateT σ (Except ε) β} {x : StateT σ (Except ε) Unit} {ptr : ℕ}
    (hp : ptr ∈ own) (hx : ∀ s, x s = .ok ((), free s ptr))
    (hf : Frame (own \ {ptr}) new' (f ())) : Frame own new' (x >>= f) := by
  intro s b s'' h hown
  obtain ⟨_, s', h1, h2⟩ := exists_of_bind_run h
  obtain rfl : free s ptr = s' := (Prod.mk.inj (Except.ok.inj ((hx s).symm.trans h1))).2
  obtain ⟨hkeep, hnew⟩ := hf (free s ptr) b s'' h2 fun q hq =>
    (free_live s ptr q).2 ⟨hown q hq.1, hq.2⟩
  refine ⟨fun q hq hno => hkeep q ((free_live s ptr q).2 ⟨hq, ?_⟩) fun h => hno h.1,
    fun q hq => ⟨(hnew q hq).1, fun hl => ?_⟩⟩
  · rintro rfl
    exact hno hp
  · by_cases hqp : q = ptr
    · exact hqp ▸ hp
    · exact ((hnew q hq).2 ((free_live s ptr q).2 ⟨hl, hqp⟩)).1

end Frame

/-- What a computation returns, and what it leaves of the heap. -/
theorem Returns.with_frame {allowed : ε → Prop} {P : α → Prop} (h : Returns allowed x P)
    (hf : Frame ∅ new x) (s : σ) : Meets allowed x s fun a s' => P a ∧
      (∀ p, Live s p → Live s' p) ∧ ∀ p ∈ new a, Live s' p ∧ ¬ Live s p := by
  rcases (h s).cases with ⟨e, hx, he⟩ | ⟨a, s', hx, ha⟩
  · exact Meets.of_error hx he
  · obtain ⟨hkeep, hnew⟩ := hf s a s' hx fun p hp => absurd hp (Set.notMem_empty p)
    exact Meets.of_ok hx ⟨ha, fun p hp => hkeep p hp (Set.notMem_empty p),
      fun p hp => ⟨(hnew p hp).1, fun hl => (hnew p hp).2 hl⟩⟩

end Ttos
