/-
  Rings of nodes linked both ways.

  A doubly linked list with a head and a tail is a ring through a root that is none of its
  nodes: the head follows the root, and the tail comes before it.  So the first and the last
  node are no special cases.

  * `Path f r xs q`: following `f` from `r` visits `xs` and comes to `q`.
  * `Path.link`, `Path.unlink`: what becomes of a path when a node is linked in or taken out.
  * `follow`: the nodes on a path, as a walk finds them.
  * `Ring next prev r xs`: the nodes `xs` are linked both ways.
-/
import Mathlib.Data.List.Nodup
import Mathlib.Data.Nat.Notation

namespace Ttos

variable {α : Type*}

/-- Following `f` from `r` visits `xs`, in order, and then comes to `q`. -/
def Path (f : α → α) : α → List α → α → Prop
  | r, [], q => f r = q
  | r, b :: xs, q => f r = b ∧ Path f b xs q

namespace Path

variable {f f' : α → α} {r q q' a b : α} {xs ys : List α}

/-- The first step. -/
theorem first (h : Path f r xs q) : f r = xs.headD q := by
  cases xs with
  | nil => exact h
  | cons b xs => exact h.1

/-- A path in two parts. -/
theorem append_cons : Path f r (xs ++ b :: ys) q ↔ Path f r xs b ∧ Path f b ys q := by
  induction xs generalizing r with
  | nil => rfl
  | cons c xs ih => rw [List.cons_append, Path, Path, ih, and_assoc]

/-- Cutting a path anywhere. -/
theorem split (h : Path f r (xs ++ ys) q) :
    Path f r xs (ys.headD q) ∧ Path f (xs.getLastD r) ys q := by
  induction xs generalizing r with
  | nil => exact ⟨h.first, h⟩
  | cons b xs ih =>
    obtain ⟨hb, h⟩ := h
    obtain ⟨h1, h2⟩ := ih h
    rw [List.getLastD_cons]
    exact ⟨⟨hb, h1⟩, h2⟩

/-- Only the links of the nodes on the path matter. -/
theorem congr (h : Path f r xs q) (hr : f' r = f r) (hxs : ∀ b ∈ xs, f' b = f b) :
    Path f' r xs q := by
  induction xs generalizing r with
  | nil => exact hr.trans h
  | cons b xs ih =>
    exact ⟨hr.trans h.1, ih h.2 (hxs b (List.mem_cons_self ..))
      fun c hc => hxs c (List.mem_cons_of_mem _ hc)⟩

/-- The path from another node that has the link of the first one. -/
theorem start (h : Path f r xs q) (ha : f' a = f r) (hxs : ∀ b ∈ xs, f' b = f b) :
    Path f' a xs q := by
  cases xs with
  | nil => exact ha.trans h
  | cons b xs =>
    exact ⟨ha.trans h.1, h.2.congr (hxs b (List.mem_cons_self ..))
      fun c hc => hxs c (List.mem_cons_of_mem _ hc)⟩

/-- The path to another node, after the last link was changed. -/
theorem retarget (h : Path f r xs q) (hn : (r :: xs).Nodup) (hlast : f' (xs.getLastD r) = q')
    (hrest : ∀ b ∈ r :: xs, b ≠ xs.getLastD r → f' b = f b) : Path f' r xs q' := by
  induction xs generalizing r with
  | nil => exact hlast
  | cons b xs ih =>
    obtain ⟨hr, hn⟩ := List.nodup_cons.1 hn
    rw [List.getLastD_cons] at hlast hrest
    have hmem : xs.getLastD b ∈ b :: xs := List.getLastD_mem_cons
    have hne : r ≠ xs.getLastD b := fun h => hr (h ▸ hmem)
    exact ⟨(hrest r (List.mem_cons_self ..) hne).trans h.1,
      ih h.2 hn hlast fun c hc => hrest c (List.mem_cons_of_mem _ hc)⟩

/-- **Linking a node in** behind `xs`. -/
theorem link (h : Path f r (xs ++ ys) q) (hn : (r :: (xs ++ ys)).Nodup) (ha : a ∉ r :: (xs ++ ys))
    (hlast : f' (xs.getLastD r) = a) (hnew : f' a = ys.headD q)
    (hrest : ∀ b, b ≠ xs.getLastD r → b ≠ a → f' b = f b) : Path f' r (xs ++ a :: ys) q := by
  obtain ⟨h1, h2⟩ := h.split
  rw [← List.cons_append, List.nodup_append] at hn
  rw [← List.cons_append, List.mem_append, not_or] at ha
  refine append_cons.2 ⟨h1.retarget hn.1 hlast fun b hb hne => hrest b hne ?_,
    h2.start (hnew.trans h2.first.symm) fun b hb => hrest b ?_ ?_⟩
  · rintro rfl
    exact ha.1 hb
  · rintro rfl
    exact hn.2.2 _ List.getLastD_mem_cons _ hb rfl
  · rintro rfl
    exact ha.2 hb

/-- **Taking a node out** behind `xs`. -/
theorem unlink (h : Path f r (xs ++ a :: ys) q) (hn : (r :: (xs ++ a :: ys)).Nodup)
    (hlast : f' (xs.getLastD r) = ys.headD q)
    (hrest : ∀ b, b ≠ xs.getLastD r → b ≠ a → f' b = f b) : Path f' r (xs ++ ys) q := by
  obtain ⟨h1, h2⟩ := append_cons.1 h
  rw [← List.cons_append, List.nodup_append] at hn
  obtain ⟨hxs, hys, hne⟩ := hn
  have hlow : Path f' r xs (ys.headD q) := h1.retarget hxs hlast fun b hb hb' =>
    hrest b hb' (hne b hb a (List.mem_cons_self ..))
  cases ys with
  | nil =>
    rw [List.append_nil]
    exact hlow
  | cons c ys =>
    obtain ⟨ha, hys⟩ := List.nodup_cons.1 hys
    have hfar (b : α) (hb : b ∈ c :: ys) : f' b = f b := by
      refine hrest b ?_ fun h => ha (h ▸ hb)
      rintro rfl
      exact hne _ List.getLastD_mem_cons _ (List.mem_cons_of_mem _ hb) rfl
    exact append_cons.2 ⟨hlow, h2.2.congr (hfar c (List.mem_cons_self ..))
      fun b hb => hfar b (List.mem_cons_of_mem _ hb)⟩

end Path

/-! ## Walks -/

/-- The nodes from `a` on, as far as `q`; none if that takes too many steps. -/
def follow [DecidableEq α] (f : α → α) (q : α) : ℕ → α → Option (List α)
  | 0, _ => none
  | k + 1, a => if a = q then some [] else (follow f q k (f a)).map (a :: ·)

theorem follow_path [DecidableEq α] {f : α → α} {q r : α} {xs : List α} {k : ℕ}
    (h : Path f r xs q) (hq : q ∉ xs) (hk : xs.length < k) : follow f q k (f r) = some xs := by
  induction xs generalizing r k with
  | nil =>
    obtain ⟨k, rfl⟩ := Nat.exists_eq_add_one_of_ne_zero (by omega : k ≠ 0)
    rw [follow, if_pos (show f r = q from h)]
  | cons b xs ih =>
    obtain ⟨k, rfl⟩ := Nat.exists_eq_add_one_of_ne_zero (by omega : k ≠ 0)
    rw [List.mem_cons, not_or] at hq
    rw [h.1, follow, if_neg (Ne.symm hq.1), ih h.2 hq.2 (by simpa using hk)]
    rfl

/-- A walk only uses the links of the nodes before `q`. -/
theorem follow_congr [DecidableEq α] {f g : α → α} {q : α} (h : ∀ b, b ≠ q → f b = g b) (k : ℕ)
    (a : α) : follow f q k a = follow g q k a := by
  induction k generalizing a with
  | zero => rfl
  | succ k ih =>
    unfold follow
    by_cases ha : a = q
    · rw [if_pos ha, if_pos ha]
    · rw [if_neg ha, if_neg ha, ih, h a ha]

/-- A walk is over, or takes its first step. -/
theorem follow_succ [DecidableEq α] {f : α → α} {q a : α} {k : ℕ} {xs : List α}
    (h : follow f q (k + 1) a = some xs) :
    a = q ∧ xs = [] ∨ a ≠ q ∧ ∃ ys, xs = a :: ys ∧ follow f q k (f a) = some ys := by
  unfold follow at h
  split at h
  · rename_i ha
    exact .inl ⟨ha, (Option.some.inj h).symm⟩
  · rename_i ha
    obtain ⟨ys, hys, rfl⟩ := Option.map_eq_some_iff.1 h
    exact .inr ⟨ha, ys, rfl, hys⟩

/-- More rounds find the same nodes. -/
theorem follow_mono [DecidableEq α] {f : α → α} {q a : α} {k k' : ℕ} {xs : List α}
    (h : follow f q k a = some xs) (hk : k ≤ k') : follow f q k' a = some xs := by
  induction k generalizing a k' xs with
  | zero => exact nomatch h
  | succ k ih =>
    obtain ⟨k', rfl⟩ := Nat.exists_eq_add_one_of_ne_zero (by omega : k' ≠ 0)
    unfold follow
    obtain ⟨ha, rfl⟩ | ⟨ha, ys, rfl, hys⟩ := follow_succ h
    · rw [if_pos ha]
    · rw [if_neg ha, ih hys (by omega)]
      rfl

/-! ## Rings -/

/-- The nodes `xs` are linked both ways, the first and the last one with the root `r`. -/
structure Ring (next prev : α → α) (r : α) (xs : List α) : Prop where
  next : Path next r xs r
  prev : Path prev r xs.reverse r

namespace Ring

variable {next prev next' prev' : α → α} {r a : α} {xs ys : List α}

theorem headD_reverse : xs.reverse.headD r = xs.getLastD r := by
  rw [List.headD_eq_head?_getD, List.head?_reverse, List.getLastD_eq_getLast?]

theorem getLastD_reverse : xs.reverse.getLastD r = xs.headD r := by
  rw [List.headD_eq_head?_getD, List.getLastD_eq_getLast?, List.getLast?_reverse]

/-- The first node follows the root. -/
theorem first (h : Ring next prev r xs) : next r = xs.headD r := h.next.first

/-- The last node comes before the root. -/
theorem last (h : Ring next prev r xs) : prev r = xs.getLastD r :=
  h.prev.first.trans headD_reverse

/-- What follows an inner node. -/
theorem next_eq (h : Ring next prev r (xs ++ a :: ys)) : next a = ys.headD r :=
  (Path.append_cons.1 h.next).2.first

/-- What comes before it. -/
theorem prev_eq (h : Ring next prev r (xs ++ a :: ys)) : prev a = xs.getLastD r := by
  have hp := h.prev
  rw [List.reverse_append, List.reverse_cons, List.append_assoc, List.singleton_append] at hp
  exact (Path.append_cons.1 hp).2.first.trans headD_reverse

theorem congr (h : Ring next prev r xs) (hnext : ∀ b ∈ r :: xs, next' b = next b)
    (hprev : ∀ b ∈ r :: xs, prev' b = prev b) : Ring next' prev' r xs :=
  ⟨h.next.congr (hnext r (List.mem_cons_self ..)) fun b hb => hnext b (List.mem_cons_of_mem _ hb),
    h.prev.congr (hprev r (List.mem_cons_self ..)) fun b hb =>
      hprev b (List.mem_cons_of_mem _ (List.mem_reverse.1 hb))⟩

/-- **Linking a node in** between `xs` and `ys`. -/
theorem link (h : Ring next prev r (xs ++ ys)) (hn : (r :: (xs ++ ys)).Nodup)
    (ha : a ∉ r :: (xs ++ ys)) (hbefore : next' (xs.getLastD r) = a) (hnext : next' a = ys.headD r)
    (hprev : prev' a = xs.getLastD r) (hbehind : prev' (ys.headD r) = a)
    (hnexts : ∀ b, b ≠ xs.getLastD r → b ≠ a → next' b = next b)
    (hprevs : ∀ b, b ≠ ys.headD r → b ≠ a → prev' b = prev b) :
    Ring next' prev' r (xs ++ a :: ys) := by
  refine ⟨h.next.link hn ha hbefore hnext hnexts, ?_⟩
  have hp := h.prev
  have hperm : (r :: (ys.reverse ++ xs.reverse)).Perm (r :: (xs ++ ys)) := by
    rw [← List.reverse_append]
    exact (List.reverse_perm _).cons r
  rw [List.reverse_append] at hp
  rw [List.reverse_append, List.reverse_cons, List.append_assoc, List.singleton_append]
  refine hp.link (hperm.nodup_iff.2 hn) (fun hm => ha (hperm.mem_iff.1 hm)) ?_ ?_ ?_
  · rw [getLastD_reverse]
    exact hbehind
  · rw [headD_reverse]
    exact hprev
  · rw [getLastD_reverse]
    exact hprevs

/-- **Taking a node out** between `xs` and `ys`. -/
theorem unlink (h : Ring next prev r (xs ++ a :: ys)) (hn : (r :: (xs ++ a :: ys)).Nodup)
    (hbefore : next' (xs.getLastD r) = ys.headD r) (hbehind : prev' (ys.headD r) = xs.getLastD r)
    (hnexts : ∀ b, b ≠ xs.getLastD r → b ≠ a → next' b = next b)
    (hprevs : ∀ b, b ≠ ys.headD r → b ≠ a → prev' b = prev b) : Ring next' prev' r (xs ++ ys) := by
  refine ⟨h.next.unlink hn hbefore hnexts, ?_⟩
  have hp := h.prev
  have hrev : (xs ++ a :: ys).reverse = ys.reverse ++ a :: xs.reverse := by
    rw [List.reverse_append, List.reverse_cons, List.append_assoc, List.singleton_append]
  have hperm : (r :: (ys.reverse ++ a :: xs.reverse)).Perm (r :: (xs ++ a :: ys)) := by
    rw [← hrev]
    exact (List.reverse_perm _).cons r
  rw [hrev] at hp
  rw [List.reverse_append]
  refine hp.unlink (hperm.nodup_iff.2 hn) ?_ ?_
  · rw [getLastD_reverse, headD_reverse]
    exact hbehind
  · rw [getLastD_reverse]
    exact hprevs

/-- The root follows itself in the empty ring only. -/
theorem root_iff (h : Ring next prev r xs) (hr : r ∉ xs) : next r = r ↔ xs = [] := by
  rw [h.first]
  cases xs with
  | nil => exact iff_of_true rfl rfl
  | cons b xs =>
    rw [List.mem_cons, not_or] at hr
    exact iff_of_false (fun hb => hr.1 hb.symm) (List.cons_ne_nil _ _)

end Ring

end Ttos
