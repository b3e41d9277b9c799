/-
  The search of a list for `n` entries in a row that satisfy a test, by counting.

  * `WindowAt`, `FirstWindow`: the `n` entries from a position on satisfy the
    test, and no `n` entries before them do.
  * `foldlM_scanStep`: the scan stops with the first entry of the first window, and
    comes to the end of the list only if there is none.
-/
import Mathlib.Data.Nat.Notation

namespace Ttos

variable {α : Type*} {q : α → Bool} {n i k : ℕ} {l : List α}

/-- The `n` entries from the position `i` on satisfy the test. -/
structure WindowAt (q : α → Bool) (n : ℕ) (l : List α) (i : ℕ) : Prop where
  fits : i + n ≤ l.length
  all : ∀ j, i ≤ j → j < i + n → ∀ x, l[j]? = some x → q x = true

/-- A window with none before it. -/
structure FirstWindow (q : α → Bool) (n : ℕ) (l : List α) (i : ℕ) : Prop extends
    WindowAt q n l i where
  first : ∀ k < i, ¬ WindowAt q n l k

theorem FirstWindow.unique (h : FirstWindow q n l i) (h' : FirstWindow q n l k) : i = k := by
  rcases Nat.lt_trichotomy i k with hlt | heq | hgt
  · exact absurd h.toWindowAt (h'.first i hlt)
  · exact heq
  · exact absurd h'.toWindowAt (h.first k hgt)

/-- One entry of the scan: the number of entries in a row so far, and the first of
    them. -/
def scanStep (q : α → Bool) (n : ℕ) (s : ℕ × α) (x : α) : Except α (ℕ × α) :=
  if q x then
    let start := if s.1 = 0 then x else s.2
    if s.1 + 1 = n then .error start else .ok (s.1 + 1, start)
  else .ok (0, s.2)

/-- After `k` entries without a window: the last `s.1` of them satisfy the test, the one
    before does not, and `s.2` is the first of them. -/
structure Scanned (q : α → Bool) (n : ℕ) (l : List α) (k : ℕ) (s : ℕ × α) : Prop where
  le : s.1 ≤ k
  lt : s.1 < n
  all : ∀ j, k - s.1 ≤ j → j < k → ∀ x, l[j]? = some x → q x = true
  start : s.1 ≠ 0 → l[k - s.1]? = some s.2
  before : s.1 < k → ∀ x, l[k - s.1 - 1]? = some x → q x = false
  none : ∀ i, i + n ≤ k → ¬ WindowAt q n l i

theorem Scanned.nil (hn : 0 < n) (x : α) : Scanned q n l 0 (0, x) where
  le := Nat.le_refl 0
  lt := hn
  all j _ hj := absurd hj (Nat.not_lt_zero j)
  start h := absurd rfl h
  before h := absurd h (Nat.lt_irrefl 0)
  none i h := by omega

/-- A window that ends with the entry `k` contains every entry in its last `n`. -/
theorem WindowAt.at_end {x : α} {j : ℕ} (h : WindowAt q n l i) (hi : i + n = k + 1)
    (hj : k < j + n) (hjk : j ≤ k) (hx : l[j]? = some x) : q x = true :=
  h.all j (by omega) (by omega) x hx

theorem Scanned.step {s : ℕ × α} {x : α} (h : Scanned q n l k s) (hx : l[k]? = some x) :
    (∃ i y, scanStep q n s x = .error y ∧ l[i]? = some y ∧ FirstWindow q n l i) ∨
      ∃ s', scanStep q n s x = .ok s' ∧ Scanned q n l (k + 1) s' := by
  have hk : k < l.length := (List.getElem?_eq_some_iff.1 hx).1
  have hle := h.le
  have hlt := h.lt
  unfold scanStep
  cases hq : q x with
  | false =>
    refine Or.inr ⟨(0, s.2), rfl, ?_⟩
    constructor
    · exact Nat.zero_le _
    · exact Nat.zero_lt_of_lt hlt
    · intro j h1 h2
      exact absurd h1 (by simpa using h2)
    · intro h0
      exact absurd rfl h0
    · intro _ y hy
      obtain rfl := Option.some.inj (hx.symm.trans hy)
      exact hq
    · intro i hi hw
      by_cases hik : i + n ≤ k
      · exact h.none i hik hw
      · rw [hw.at_end (j := k) (by omega) (by omega) (Nat.le_refl k) hx] at hq
        cases hq
  | true =>
    -- the entries in a row with this one
    have hall : ∀ j, k - s.1 ≤ j → j < k + 1 → ∀ y, l[j]? = some y → q y = true := by
      intro j h1 h2 y hy
      by_cases hj : j < k
      · exact h.all j h1 hj y hy
      · obtain rfl : j = k := by omega
        obtain rfl := Option.some.inj (hx.symm.trans hy)
        exact hq
    have hstart : l[k - s.1]? = some (if s.1 = 0 then x else s.2) := by
      by_cases h0 : s.1 = 0
      · rw [if_pos h0, h0]
        exact hx
      · rw [if_neg h0]
        exact h.start h0
    rw [if_pos rfl]
    dsimp only
    by_cases hn : s.1 + 1 = n
    · rw [if_pos hn]
      refine Or.inl ⟨k - s.1, _, rfl, hstart, ?_⟩
      refine ⟨⟨by omega, ?_⟩, ?_⟩
      · intro j h1 h2
        exact hall j h1 (by omega)
      · intro i hi
        exact h.none i (by omega)
    · rw [if_neg hn]
      refine Or.inr ⟨_, rfl, ?_⟩
      constructor
      · exact Nat.succ_le_succ hle
      · show s.1 + 1 < n
        omega
      · intro j h1 h2
        exact hall j (by simpa using h1) h2
      · intro _
        rw [Nat.add_sub_add_right]
        exact hstart
      · intro h1 y hy
        rw [Nat.add_sub_add_right] at hy
        exact h.before (Nat.lt_of_succ_lt_succ h1) y hy
      · intro i hi hw
        by_cases hik : i + n ≤ k
        · exact h.none i hik hw
        · -- such a window would contain the entry before the ones in a row
          have hj : k - s.1 - 1 < l.length := by omega
          have hy := List.getElem?_eq_getElem hj
          have h1 := hw.at_end (k := k) (j := k - s.1 - 1) (by omega) (by omega) (by omega) hy
          rw [h.before (by omega) _ hy] at h1
          cases h1

/-- **The scan** finds the first window. -/
theorem foldlM_scanStep_drop : ∀ {rest : List α} {k : ℕ} {s : ℕ × α}, l.drop k = rest →
    k ≤ l.length → Scanned q n l k s →
    (∃ i x, rest.foldlM (scanStep q n) s = .error x ∧ l[i]? = some x ∧ FirstWindow q n l i) ∨
      ∃ s', rest.foldlM (scanStep q n) s = .ok s' ∧ ∀ i, ¬ WindowAt q n l i
  | [], k, s, hd, hk, h => by
    have hl : l.length ≤ k := List.drop_eq_nil_iff.1 hd
    refine Or.inr ⟨s, rfl, ?_⟩
    intro i hw
    exact h.none i (Nat.le_trans hw.fits hl) hw
  | x :: rest, k, s, hd, hk, h => by
    have hx : l[k]? = some x := by
      rw [← Nat.add_zero k, ← List.getElem?_drop, hd]
      rfl
    have hrest : l.drop (k + 1) = rest := by
      rw [← List.tail_drop, hd]
      rfl
    have hlt : k < l.length := (List.getElem?_eq_some_iff.1 hx).1
    rw [List.foldlM_cons]
    rcases h.step hx with ⟨i, y, hs, hi, hw⟩ | ⟨s', hs, hn⟩
    · rw [hs]
      exact Or.inl ⟨i, y, rfl, hi, hw⟩
    · rw [hs]
      exact foldlM_scanStep_drop hrest hlt hn

theorem foldlM_scanStep (hn : 0 < n) (x : α) :
    (∃ i y, l.foldlM (scanStep q n) (0, x) = .error y ∧ l[i]? = some y ∧ FirstWindow q n l i) ∨
      ∃ s', l.foldlM (scanStep q n) (0, x) = .ok s' ∧ ∀ i, ¬ WindowAt q n l i :=
  foldlM_scanStep_drop List.drop_zero (Nat.zero_le _) (Scanned.nil hn x)

end Ttos
