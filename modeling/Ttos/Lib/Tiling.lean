/-
  Tilings of an interval by a list of pieces, some of them in use.

  * `Tiles a xs e`: the pieces `xs`, in order, cover `[a, e)` without a gap
    and without overlap.
  * `Coalesced xs`: no two neighbouring pieces are both unused.
  * `Tiles.ext`: a coalesced tiling is determined by its used pieces.
  * `Tiles.unused_iff`: its unused pieces are the maximal gaps (`Gap`)
    between the used ones.
-/
import Mathlib.Data.List.Chain
import Mathlib.Data.List.Sort
import Mathlib.Data.Nat.Notation
import Mathlib.Tactic.Tauto

namespace Ttos

/-- How a type of pieces is laid out: piece `x` is the interval `[lo x, hi x)`. -/
class Piece (α : Type*) where
  lo : α → ℕ
  hi : α → ℕ
  used : α → Bool

open Piece

variable {α : Type*} [Piece α]

/-- The pieces `xs` cover `[a, e)`, in order, without gap or overlap. -/
def Tiles : ℕ → List α → ℕ → Prop
  | a, [], e => a = e
  | a, x :: xs, e => lo x = a ∧ a < hi x ∧ Tiles (hi x) xs e

/-- No two neighbouring pieces are both unused. -/
def Coalesced (xs : List α) : Prop := xs.IsChain fun x y => used x = true ∨ used y = true

/-- `[p, q)` is a maximal part of `[a, e)` that meets no piece of `us`. -/
structure Gap (us : List α) (a e p q : ℕ) : Prop where
  lt : p < q
  le : a ≤ p
  ge : q ≤ e
  left : p = a ∨ ∃ u ∈ us, hi u = p
  right : q = e ∨ ∃ u ∈ us, lo u = q
  free : ∀ u ∈ us, hi u ≤ p ∨ q ≤ lo u

theorem coalesced_append_cons {xs ys : List α} {x : α} : Coalesced (xs ++ x :: ys) ↔
    (Coalesced xs ∧ ∀ p ∈ xs.getLast?, used p = true ∨ used x = true) ∧
      Coalesced ys ∧ ∀ n ∈ ys.head?, used x = true ∨ used n = true := by
  unfold Coalesced
  rw [List.isChain_append, List.isChain_cons]
  simp only [List.head?_cons, Option.mem_some_iff, forall_eq']
  tauto

namespace Tiles

theorem nil_iff {a e : ℕ} : Tiles a ([] : List α) e ↔ a = e := Iff.rfl

theorem cons_iff {a e : ℕ} {x : α} {xs : List α} :
    Tiles a (x :: xs) e ↔ lo x = a ∧ a < hi x ∧ Tiles (hi x) xs e := Iff.rfl

theorem le : ∀ {xs : List α} {a e : ℕ}, Tiles a xs e → a ≤ e
  | [], _, _, h => le_of_eq h
  | _ :: _, _, _, ⟨_, h1, h2⟩ => h1.le.trans (le h2)

theorem append_iff {ys : List α} {e : ℕ} : ∀ {xs : List α} {a : ℕ},
    Tiles a (xs ++ ys) e ↔ ∃ b, Tiles a xs b ∧ Tiles b ys e
  | [], a => by simp [Tiles]
  | x :: xs, a => by
    simp only [List.cons_append, cons_iff, append_iff]
    constructor
    · rintro ⟨h1, h2, b, h3, h4⟩; exact ⟨b, ⟨h1, h2, h3⟩, h4⟩
    · rintro ⟨b, ⟨h1, h2, h3⟩, h4⟩; exact ⟨h1, h2, b, h3, h4⟩

theorem end_eq : ∀ {xs : List α} {a e e' : ℕ}, Tiles a xs e → Tiles a xs e' → e = e'
  | [], _, _, _, h, h' => h.symm.trans h'
  | _ :: _, _, _, _, ⟨_, _, h⟩, ⟨_, _, h'⟩ => end_eq h h'

theorem mem : ∀ {xs : List α} {a e : ℕ}, Tiles a xs e → ∀ x ∈ xs, a ≤ lo x ∧ lo x < hi x ∧ hi x ≤ e
  | y :: ys, a, e, ⟨h1, h2, h3⟩, x, hx => by
    rcases List.mem_cons.1 hx with rfl | hx
    · exact ⟨h1.ge, h1 ▸ h2, h3.le⟩
    · have := h3.mem x hx; omega

theorem pairwise : ∀ {xs : List α} {a e : ℕ}, Tiles a xs e → xs.Pairwise fun x y => hi x ≤ lo y
  | [], _, _, _ => .nil
  | _ :: _, _, _, ⟨_, _, h⟩ => .cons (fun y hy => (h.mem y hy).1) h.pairwise

/-- Two pieces of a tiling are the same or do not overlap. -/
theorem apart {xs : List α} {a e : ℕ} (h : Tiles a xs e) {x y : α} (hx : x ∈ xs) (hy : y ∈ xs) :
    x = y ∨ hi x ≤ lo y ∨ hi y ≤ lo x := by
  induction xs generalizing a with
  | nil => cases hx
  | cons z zs ih =>
    obtain ⟨_, _, hz⟩ := h
    rcases List.mem_cons.1 hx with rfl | hx' <;> rcases List.mem_cons.1 hy with rfl | hy'
    · exact Or.inl rfl
    · exact Or.inr (Or.inl (hz.mem y hy').1)
    · exact Or.inr (Or.inr (hz.mem x hx').1)
    · exact ih hz hx' hy'

/-- A piece of a tiling is known by any of its points. -/
theorem eq_of_mem {xs : List α} {a e : ℕ} (h : Tiles a xs e) {x y : α} (hx : x ∈ xs) (hy : y ∈ xs)
    {p : ℕ} (hpx : lo x ≤ p ∧ p < hi x) (hpy : lo y ≤ p ∧ p < hi y) : x = y := by
  rcases h.apart hx hy with h | h | h
  · exact h
  · omega
  · omega

theorem nodup {xs : List α} {a e : ℕ} (h : Tiles a xs e) : xs.Nodup := by
  refine (List.Pairwise.imp_of_mem (fun {x y} hx hy hxy => ?_) h.pairwise)
  rintro rfl
  have := h.mem x hx; omega

/-- Every point of the interval lies in a piece. -/
theorem cover : ∀ {xs : List α} {a e : ℕ}, Tiles a xs e → ∀ p, a ≤ p → p < e →
    ∃ x ∈ xs, lo x ≤ p ∧ p < hi x
  | [], a, e, h, p, h1, h2 => by have : a = e := h; omega
  | x :: xs, a, e, ⟨h1, _, h3⟩, p, hp, hpe => by
    by_cases hx : p < hi x
    · exact ⟨x, by simp, by omega, hx⟩
    · obtain ⟨y, hy, hyp⟩ := h3.cover p (by omega) hpe
      exact ⟨y, by simp [hy], hyp⟩

/-! ## Coalesced tilings -/

theorem unused_head {x : α} {xs : List α} (hc : Coalesced (x :: xs)) (hx : used x = false) :
    ∀ y ∈ xs.head?, used y = true := by
  intro y hy
  cases xs with
  | nil => simp at hy
  | cons z zs =>
    simp only [List.head?_cons, Option.mem_some_iff] at hy
    subst hy
    exact ((List.isChain_cons_cons.1 hc).1).resolve_left (by simp [hx])

/-- The first used piece of a coalesced tail comes at once or after one gap. -/
theorem next_of_unused {x : α} {xs : List α} {e : ℕ} (h : Tiles (hi x) xs e)
    (hc : Coalesced (x :: xs)) (hx : used x = false) :
    (xs = [] ∧ hi x = e) ∨ ∃ y ys, xs = y :: ys ∧ used y = true ∧ lo y = hi x := by
  cases xs with
  | nil => exact Or.inl ⟨rfl, h⟩
  | cons y ys => exact Or.inr ⟨y, ys, rfl, unused_head hc hx y rfl, h.1⟩

/-- The end of an unused piece: the end of the tiling or the start of a used piece. -/
theorem right_of_unused {xs : List α} {a e : ℕ} (h : Tiles a xs e) (hc : Coalesced xs) {x : α}
    (hx : x ∈ xs) (hu : used x = false) : hi x = e ∨ ∃ y ∈ xs.filter used, lo y = hi x := by
  obtain ⟨ls, rs, rfl⟩ := List.append_of_mem hx
  obtain ⟨b, -, -, -, h3⟩ := append_iff.1 h
  rcases next_of_unused h3 hc.right_of_append hu with ⟨rfl, he⟩ | ⟨y, ys, rfl, hy, hlo⟩
  · exact Or.inl he
  · exact Or.inr ⟨y, by simp [hy], hlo⟩

theorem last_hi : ∀ {xs : List α} {a e : ℕ}, Tiles a xs e →
    a = e ∧ xs = [] ∨ ∃ y ∈ xs.getLast?, hi y = e
  | [], _, _, h => Or.inl ⟨h, rfl⟩
  | [x], _, _, ⟨_, _, h⟩ => Or.inr ⟨x, rfl, h⟩
  | x :: y :: ys, _, _, ⟨_, _, h⟩ => by
    rcases h.last_hi with ⟨-, h⟩ | ⟨z, hz, he⟩
    · cases h
    · exact Or.inr ⟨z, by simpa using hz, he⟩

/-- The start of an unused piece: the start of the tiling or the end of a used piece. -/
theorem left_of_unused {xs : List α} {a e : ℕ} (h : Tiles a xs e) (hc : Coalesced xs) {x : α}
    (hx : x ∈ xs) (hu : used x = false) : lo x = a ∨ ∃ y ∈ xs.filter used, hi y = lo x := by
  obtain ⟨ls, rs, rfl⟩ := List.append_of_mem hx
  obtain ⟨b, h1, h2, -, -⟩ := append_iff.1 h
  rcases h1.last_hi with ⟨rfl, -⟩ | ⟨y, hy, he⟩
  · exact Or.inl h2
  · have hyx := (List.isChain_append.1 hc).2.2 y hy x rfl
    have hyu : used y = true := hyx.resolve_right (by simp [hu])
    exact Or.inr ⟨y, by simp [List.mem_of_mem_getLast? hy, hyu], he.trans h2.symm⟩

/-- **The unused pieces of a coalesced tiling are the maximal gaps between the
    used ones.** -/
theorem unused_iff {xs : List α} {a e : ℕ} (h : Tiles a xs e) (hc : Coalesced xs) (p q : ℕ) :
    (∃ x ∈ xs, used x = false ∧ lo x = p ∧ hi x = q) ↔ Gap (xs.filter used) a e p q := by
  constructor
  · rintro ⟨x, hx, hu, rfl, rfl⟩
    obtain ⟨h1, h2, h3⟩ := h.mem x hx
    refine ⟨h2, h1, h3, h.left_of_unused hc hx hu, h.right_of_unused hc hx hu, fun y hy => ?_⟩
    obtain ⟨hy, hyu⟩ := List.mem_filter.1 hy
    rcases h.apart hx hy with rfl | h | h
    · simp [hu] at hyu
    · exact Or.inr h
    · exact Or.inl h
  · rintro ⟨hlt, hle, hge, hleft, hright, hfree⟩
    obtain ⟨x, hx, hxl, hxh⟩ := h.cover p hle (by omega)
    have hu : used x = false := by
      by_contra hu
      have := hfree x (by simpa [hx] using hu)
      omega
    have hmem := h.mem x hx
    -- a used piece that ends or starts inside `x` would overlap it
    have hap : ∀ u ∈ xs.filter used, hi x ≤ lo u ∨ hi u ≤ lo x := by
      intro u hu'
      obtain ⟨hu', huu⟩ := List.mem_filter.1 hu'
      rcases h.apart hx hu' with rfl | h
      · simp [hu] at huu
      · exact h
    have hlo : lo x = p := by
      rcases hleft with rfl | ⟨u, hu', rfl⟩
      · omega
      · have := hap u hu'
        have := h.mem u (List.mem_of_mem_filter hu')
        omega
    refine ⟨x, hx, hu, hlo, ?_⟩
    have hge' : q ≤ hi x := by
      rcases h.right_of_unused hc hx hu with he | ⟨u, hu', he⟩
      · omega
      · have := hfree u hu'
        have := h.mem u (List.mem_of_mem_filter hu')
        omega
    rcases hright with rfl | ⟨u, hu', rfl⟩
    · omega
    · have := hap u hu'
      have := h.mem u (List.mem_of_mem_filter hu')
      omega

/-- **A coalesced tiling is determined by its used pieces.** -/
theorem ext (hinj : ∀ x y : α, lo x = lo y → hi x = hi y → used x = used y → x = y) :
    ∀ {xs ys : List α} {a e : ℕ}, Tiles a xs e → Tiles a ys e → Coalesced xs → Coalesced ys →
      xs.filter used = ys.filter used → xs = ys
  | [], [], _, _, _, _, _, _, _ => rfl
  | [], y :: ys, a, e, h, h', _, _, _ => by
    have := nil_iff.1 h; have := h'.2.1; have := h'.2.2.le; omega
  | x :: xs, [], a, e, h, h', _, _, _ => by
    have := nil_iff.1 h'; have := h.2.1; have := h.2.2.le; omega
  | x :: xs, y :: ys, a, e, h, h', hc, hc', hf => by
    obtain ⟨h1, h2, h3⟩ := h
    obtain ⟨h1', h2', h3'⟩ := h'
    -- both lists start with the same piece
    have hxy : x = y := by
      cases hx : used x <;> cases hy : used y
      · refine hinj x y (h1.trans h1'.symm) ?_ (hx.trans hy.symm)
        simp only [List.filter_cons, hx, hy] at hf
        rcases next_of_unused h3 hc hx with ⟨rfl, he⟩ | ⟨z, zs, rfl, hz, hlo⟩ <;>
          rcases next_of_unused h3' hc' hy with ⟨rfl, he'⟩ | ⟨w, ws, rfl, hw, hlo'⟩
        · exact he.trans he'.symm
        · simp [hw] at hf
        · simp [hz] at hf
        · simp [hz, hw] at hf
          rw [← hlo, ← hlo', hf.1]
      · simp only [List.filter_cons, hx, hy] at hf
        rcases next_of_unused h3 hc hx with ⟨rfl, he⟩ | ⟨z, zs, rfl, hz, hlo⟩
        · simp at hf
        · simp [hz] at hf; rw [hf.1] at hlo; omega
      · simp only [List.filter_cons, hx, hy] at hf
        rcases next_of_unused h3' hc' hy with ⟨rfl, he⟩ | ⟨z, zs, rfl, hz, hlo⟩
        · simp at hf
        · simp [hz] at hf; rw [← hf.1] at hlo; omega
      · simp [hx, hy] at hf; exact hf.1
    subst hxy
    have hf' : xs.filter used = ys.filter used := by
      cases hx : used x <;> simpa [List.filter_cons, hx] using hf
    rw [ext hinj h3 h3' hc.of_cons hc'.of_cons hf']

end Tiles

end Ttos
