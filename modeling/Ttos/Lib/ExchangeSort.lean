/-
  Sorting a list in place by exchanges: every element is compared with all the
  later ones, and the two change places when the earlier one is the greater.

  * `exchangeSort_perm`, `exchangeSort_pairwise`: the result is the list in order.
  * `exchangeSort_of_pairwise`: a list in order stays as it is.
  * `exchangeSort_map`: sorting by a key commutes with taking the keys.
-/
import Mathlib.Data.List.Perm.Basic
import Mathlib.Data.Nat.Notation

namespace Ttos

variable {α β : Type*} (gt : α → α → Bool)

/-- The inner loop: `a` against the elements behind it. -/
def exchange : α → List α → α × List α
  | a, [] => (a, [])
  | a, b :: bs =>
    if gt a b then ((exchange b bs).1, a :: (exchange b bs).2)
    else ((exchange a bs).1, b :: (exchange a bs).2)

/-- The outer loop, for at most `n` elements. -/
def exchangeSortFrom : ℕ → List α → List α
  | n + 1, a :: as => (exchange gt a as).1 :: exchangeSortFrom n (exchange gt a as).2
  | _, _ => []

def exchangeSort (as : List α) : List α := exchangeSortFrom gt as.length as

variable {gt}

theorem exchange_perm (a : α) (as : List α) :
    ((exchange gt a as).1 :: (exchange gt a as).2).Perm (a :: as) := by
  induction as generalizing a with
  | nil => exact .refl _
  | cons b bs ih =>
    rw [exchange]
    split
    · exact (List.Perm.swap ..).trans ((ih b).cons a)
    · exact (List.Perm.swap ..).trans (((ih a).cons b).trans (List.Perm.swap ..))

theorem exchange_length (a : α) (as : List α) : (exchange gt a as).2.length = as.length := by
  have h : ((exchange gt a as).1 :: (exchange gt a as).2).length = (a :: as).length :=
    (exchange_perm a as).length_eq
  exact Nat.succ.inj h

/-- The first element is settled by one run of the inner loop. -/
theorem exchangeSort_cons (a : α) (as : List α) : exchangeSort gt (a :: as) =
    (exchange gt a as).1 :: exchangeSort gt (exchange gt a as).2 := by
  rw [exchangeSort, exchangeSort, exchange_length]
  rfl

theorem exchangeSortFrom_perm : ∀ (n : ℕ) (as : List α), as.length = n →
    (exchangeSortFrom gt n as).Perm as
  | 0, [], _ => .refl _
  | n + 1, a :: as, h => by
    have hl : (exchange gt a as).2.length = n := by
      rw [exchange_length]
      exact Nat.succ.inj h
    exact ((exchangeSortFrom_perm n _ hl).cons _).trans (exchange_perm a as)

theorem exchangeSort_perm (as : List α) : (exchangeSort gt as).Perm as :=
  exchangeSortFrom_perm _ as rfl

/-! ## Order -/

section
variable {le : α → α → Prop} (hgt : ∀ a b, gt a b = true → le b a)
  (hle : ∀ a b, gt a b = false → le a b) (htrans : ∀ a b c, le a b → le b c → le a c)
include hgt hle htrans

/-- The element in front after the inner loop is the least. -/
theorem exchange_le (a : α) (as : List α) : le (exchange gt a as).1 a ∧
    ∀ b ∈ (exchange gt a as).2, le (exchange gt a as).1 b := by
  have hrefl : ∀ a, le a a := fun a => (Bool.eq_false_or_eq_true (gt a a)).elim (hgt a a) (hle a a)
  induction as generalizing a with
  | nil => exact ⟨hrefl a, by simp [exchange]⟩
  | cons b bs ih =>
    rw [exchange]
    split
    · rename_i h
      obtain ⟨h1, h2⟩ := ih b
      have h3 := htrans _ _ _ h1 (hgt a b h)
      refine ⟨h3, fun c hc => ?_⟩
      rcases List.mem_cons.1 hc with rfl | hc
      · exact h3
      · exact h2 c hc
    · rename_i h
      obtain ⟨h1, h2⟩ := ih a
      refine ⟨h1, fun c hc => ?_⟩
      rcases List.mem_cons.1 hc with rfl | hc
      · exact htrans _ _ _ h1 (hle a c (Bool.eq_false_iff.2 h))
      · exact h2 c hc

theorem exchangeSortFrom_pairwise : ∀ (n : ℕ) (as : List α), as.length = n →
    (exchangeSortFrom gt n as).Pairwise le
  | 0, [], _ => .nil
  | n + 1, a :: as, h => by
    have hl : (exchange gt a as).2.length = n := by
      rw [exchange_length]
      exact Nat.succ.inj h
    refine .cons (fun b hb => ?_) (exchangeSortFrom_pairwise n _ hl)
    exact (exchange_le hgt hle htrans a as).2 b ((exchangeSortFrom_perm n _ hl).mem_iff.1 hb)

theorem exchangeSort_pairwise (as : List α) : (exchangeSort gt as).Pairwise le :=
  exchangeSortFrom_pairwise hgt hle htrans _ as rfl

end

/-! ## Sorted lists and keys -/

theorem exchange_of_le {a : α} {as : List α} (h : ∀ b ∈ as, gt a b = false) :
    exchange gt a as = (a, as) := by
  induction as with
  | nil => rfl
  | cons b bs ih =>
    have hb : ¬ gt a b = true := Bool.eq_false_iff.1 (h b (by simp))
    rw [exchange, if_neg hb, ih fun c hc => h c (by simp [hc])]

theorem exchangeSort_of_pairwise {as : List α} (h : as.Pairwise fun a b => gt a b = false) :
    exchangeSort gt as = as := by
  rw [exchangeSort]
  induction as with
  | nil => rfl
  | cons a as ih =>
    obtain ⟨h1, h2⟩ := List.pairwise_cons.1 h
    rw [List.length_cons, exchangeSortFrom, exchange_of_le h1, ih h2]

theorem exchange_map (f : β → α) (a : β) (as : List β) : exchange gt (f a) (as.map f) =
    (f (exchange (fun x y => gt (f x) (f y)) a as).1,
      (exchange (fun x y => gt (f x) (f y)) a as).2.map f) := by
  induction as generalizing a with
  | nil => rfl
  | cons b bs ih =>
    rw [List.map_cons, exchange, exchange, ih, ih]
    split <;> rfl

theorem exchangeSortFrom_map (f : β → α) : ∀ (n : ℕ) (as : List β),
    exchangeSortFrom gt n (as.map f) =
      (exchangeSortFrom (fun x y => gt (f x) (f y)) n as).map f
  | 0, _ => rfl
  | _ + 1, [] => rfl
  | n + 1, a :: as => by
    rw [List.map_cons, exchangeSortFrom, exchange_map, exchangeSortFrom_map f n]
    rfl

theorem exchangeSort_map (f : β → α) (as : List β) : exchangeSort gt (as.map f) =
    (exchangeSort (fun x y => gt (f x) (f y)) as).map f := by
  rw [exchangeSort, exchangeSort, List.length_map, exchangeSortFrom_map]

end Ttos
