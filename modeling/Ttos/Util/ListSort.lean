/-
  Sorting a linked list (linked_list_sort): the nodes stay where they are, and their data
  change places.

  * `ListNodes.Refilled`: only the data of some nodes changed, and what they are now.
  * `linkedListSortFrom_eq`: the loops do to the data what `linkedListSort` does to a list.
  * `linked_list_sort_sorts`: they end, and the data are in order.
-/
import Ttos.Lib.ExchangeSort
import Ttos.Util.LinkedList

namespace Ttos

/-! ## The code -/

/-- The inner loop of `linked_list_sort`. -/
def linkedListSortInner (compare : ℕ → ℕ → ℤ) (node : ℕ) :
    ℕ → ListNodes → ℕ → Option ListNodes
  | 0, _, _ => none
  | k + 1, nodes, next =>
    if next = 0 then some nodes
    else
      let nodes := if compare (nodes node).data (nodes next).data > 0 then
        let temp := (nodes node).data
        (nodes.setData node (nodes next).data).setData next temp
      else nodes
      linkedListSortInner compare node k nodes (nodes next).next

/-- The outer loop; every run of the inner one gets `fuel` rounds. -/
def linkedListSortFrom (compare : ℕ → ℕ → ℤ) (fuel : ℕ) : ℕ → ListNodes → ℕ → Option ListNodes
  | 0, _, _ => none
  | k + 1, nodes, node =>
    if node = 0 then some nodes
    else do
      let nodes ← linkedListSortInner compare node fuel nodes (nodes node).next
      linkedListSortFrom compare fuel k nodes (nodes node).next

/-- `linked_list_sort` -/
def linkedListSortAt (compare : ℕ → ℕ → ℤ) (fuel : ℕ) (s : ListMemory) : Option ListMemory := do
  let nodes ← linkedListSortFrom compare fuel fuel s.nodes s.list.head
  pure { s with nodes }

/-- What `linked_list_sort` makes of a list of data. -/
def linkedListSort {α : Type} (compare : α → α → ℤ) (list : List α) : List α :=
  exchangeSort (fun a b => compare a b > 0) list

theorem linkedListSort_perm {α : Type} (compare : α → α → ℤ) (list : List α) :
    (linkedListSort compare list).Perm list := exchangeSort_perm list

theorem linkedListSort_map {α β : Type} (compare : α → α → ℤ) (f : β → α) (list : List β) :
    linkedListSort compare (list.map f)
      = (linkedListSort (fun x y => compare (f x) (f y)) list).map f :=
  exchangeSort_map f list

theorem linkedListSort_cons {α : Type} (compare : α → α → ℤ) (a : α) (list : List α) :
    linkedListSort compare (a :: list) = (exchange (fun a b => compare a b > 0) a list).1 ::
      linkedListSort compare (exchange (fun a b => compare a b > 0) a list).2 :=
  exchangeSort_cons a list

/-! ## The data of the nodes -/

namespace ListNodes

/-- The data of some nodes, in order. -/
def column (nodes : ListNodes) (xs : List ℕ) : List ℕ := xs.map fun b => (nodes b).data

/-- Only the data of the nodes `xs` changed; they are `ds` now. -/
structure Refilled (nodes nodes' : ListNodes) (xs ds : List ℕ) : Prop where
  next : ∀ b, (nodes' b).next = (nodes b).next
  prev : ∀ b, (nodes' b).prev = (nodes b).prev
  data : ∀ b, b ∉ xs → (nodes' b).data = (nodes b).data
  column : nodes'.column xs = ds

namespace Refilled

variable {nodes nodes' nodes'' : ListNodes} {xs ys ds es : List ℕ} {a b : ℕ}

theorem refl (nodes : ListNodes) (xs : List ℕ) : Refilled nodes nodes xs (nodes.column xs) :=
  ⟨fun _ => rfl, fun _ => rfl, fun _ _ => rfl, rfl⟩

theorem next_eq (h : Refilled nodes nodes' xs ds) :
    (fun b => (nodes' b).next) = fun b => (nodes b).next := funext h.next

/-- Data of nodes elsewhere. -/
theorem column_of_disjoint (h : Refilled nodes nodes' xs ds) (hys : ∀ b ∈ ys, b ∉ xs) :
    nodes'.column ys = nodes.column ys :=
  List.map_congr_left fun b hb => h.data b (hys b hb)

/-- A node outside, beside the others. -/
theorem cons (h : Refilled nodes nodes' xs ds) (ha : a ∉ xs) :
    Refilled nodes nodes' (a :: xs) ((nodes a).data :: ds) where
  next := h.next
  prev := h.prev
  data b hb := h.data b fun hm => hb (List.mem_cons_of_mem _ hm)
  column := by
    show (nodes' a).data :: nodes'.column xs = _
    rw [h.data a ha, h.column]

theorem swap {d e : ℕ} (h : Refilled nodes nodes' (a :: b :: xs) (d :: e :: ds)) :
    Refilled nodes nodes' (b :: a :: xs) (e :: d :: ds) where
  next := h.next
  prev := h.prev
  data c hc := h.data c fun hm => hc ((List.Perm.swap b a xs).mem_iff.1 hm)
  column := by
    obtain ⟨hd, he⟩ := List.cons.inj h.column
    obtain ⟨he, hds⟩ := List.cons.inj he
    exact congrArg₂ List.cons he (congrArg₂ List.cons hd hds)

/-- The data of two nodes are written. -/
theorem setData {d e : ℕ} (hne : a ≠ b) :
    Refilled nodes ((nodes.setData a d).setData b e) [a, b] [d, e] where
  next b := by simp
  prev b := by simp
  data c hc := by
    rw [List.mem_cons, List.mem_singleton, not_or] at hc
    simp [hc.1, hc.2]
  column := by simp [ListNodes.column, hne]

theorem trans (h : Refilled nodes nodes' xs ds) (h' : Refilled nodes' nodes'' ys es)
    (hsub : ∀ b ∈ xs, b ∈ ys) : Refilled nodes nodes'' ys es where
  next b := (h'.next b).trans (h.next b)
  prev b := (h'.prev b).trans (h.prev b)
  data b hb := (h'.data b hb).trans (h.data b fun hm => hb (hsub b hm))
  column := h'.column

end Refilled

end ListNodes

/-! ## The loops -/

section
variable (compare : ℕ → ℕ → ℤ)

/-- The order of `linked_list_sort`, for `exchange`. -/
abbrev isGreater (a b : ℕ) : Bool := compare a b > 0

/-- **The inner loop** is `exchange` on the data. -/
theorem linkedListSortInner_eq {node k next : ℕ} {nodes : ListNodes} {ys : List ℕ}
    (hwalk : follow (fun b => (nodes b).next) 0 k next = some ys) (hn : (node :: ys).Nodup) :
    ∃ nodes', linkedListSortInner compare node k nodes next = some nodes' ∧
      nodes.Refilled nodes' (node :: ys)
        ((exchange (isGreater compare) (nodes node).data (nodes.column ys)).1 ::
          (exchange (isGreater compare) (nodes node).data (nodes.column ys)).2) := by
  induction k generalizing nodes next ys with
  | zero => exact nomatch hwalk
  | succ k ih =>
    unfold linkedListSortInner
    obtain ⟨h0, rfl⟩ | ⟨h0, ys, rfl, hys⟩ := follow_succ hwalk
    · rw [if_pos h0]
      exact ⟨nodes, rfl, .refl nodes [node]⟩
    · rw [if_neg h0]
      obtain ⟨hnode, hn⟩ := List.nodup_cons.1 hn
      obtain ⟨hnext, hn⟩ := List.nodup_cons.1 hn
      rw [List.mem_cons, not_or] at hnode
      have hnext' : next ∉ node :: ys := List.not_mem_cons_of_ne_of_not_mem (Ne.symm hnode.1) hnext
      have hn' : (node :: ys).Nodup := List.nodup_cons.2 ⟨hnode.2, hn⟩
      show ∃ nodes', _ ∧ nodes.Refilled nodes' (node :: next :: ys) _
      have hcol : nodes.column (next :: ys) = (nodes next).data :: nodes.column ys := rfl
      rw [hcol, exchange]
      dsimp only
      by_cases hgt : compare (nodes node).data (nodes next).data > 0
      · rw [if_pos hgt, if_pos (decide_eq_true hgt)]
        -- The two data change places, and the loop goes on with the smaller one.
        set nodes₁ := (nodes.setData node (nodes next).data).setData next (nodes node).data
        have hset : nodes.Refilled nodes₁ [node, next] [(nodes next).data, (nodes node).data] :=
          .setData hnode.1
        have hd : (nodes₁ node).data = (nodes next).data := (List.cons.inj hset.column).1
        have he : (nodes₁ next).data = (nodes node).data :=
          (List.cons.inj (List.cons.inj hset.column).2).1
        have hsub : ∀ b ∈ ys, b ∉ [node, next] := by
          rintro b hb hm
          rcases List.mem_pair.1 hm with rfl | rfl
          · exact hnode.2 hb
          · exact hnext hb
        rw [← hset.next_eq] at hys
        obtain ⟨nodes', hrun, hfill⟩ := ih hys hn'
        rw [hd, hset.column_of_disjoint hsub] at hfill
        have hcons := (hfill.cons hnext').swap
        rw [he] at hcons
        refine ⟨nodes', ?_, hset.trans hcons fun b hb => ?_⟩
        · rw [hset.next]
          exact hrun
        · rcases List.mem_pair.1 hb with rfl | rfl
          · exact List.mem_cons_self ..
          · exact List.mem_cons_of_mem _ (List.mem_cons_self ..)
      · rw [if_neg hgt, if_neg (by simpa using hgt)]
        obtain ⟨nodes', hrun, hfill⟩ := ih hys hn'
        exact ⟨nodes', hrun, (hfill.cons hnext').swap⟩

/-- **The outer loop** is `linkedListSort` on the data. -/
theorem linkedListSortFrom_eq {fuel k node : ℕ} {nodes : ListNodes} {xs : List ℕ}
    (hwalk : follow (fun b => (nodes b).next) 0 k node = some xs) (hn : xs.Nodup)
    (hk : k ≤ fuel) :
    ∃ nodes', linkedListSortFrom compare fuel k nodes node = some nodes' ∧
      nodes.Refilled nodes' xs (linkedListSort compare (nodes.column xs)) := by
  induction k generalizing nodes node xs with
  | zero => exact nomatch hwalk
  | succ k ih =>
    unfold linkedListSortFrom
    obtain ⟨h0, rfl⟩ | ⟨h0, ys, rfl, hys⟩ := follow_succ hwalk
    · rw [if_pos h0]
      exact ⟨nodes, rfl, .refl nodes []⟩
    · rw [if_neg h0]
      obtain ⟨hnode, hn'⟩ := List.nodup_cons.1 hn
      obtain ⟨nodes₁, hrun₁, h₁⟩ :=
        linkedListSortInner_eq compare (follow_mono hys (by omega : k ≤ fuel)) hn
      obtain ⟨hd, hcol⟩ := List.cons.inj h₁.column
      rw [← h₁.next_eq, ← h₁.next] at hys
      obtain ⟨nodes', hrun, h⟩ := ih hys hn' (by omega)
      rw [hrun₁]
      refine ⟨nodes', hrun, ?_⟩
      have hall := h₁.trans (h.cons hnode) fun b hb => hb
      have hcol' : nodes₁.column ys = _ := hcol
      have hd' : (nodes₁ node).data = _ := hd
      have hsort : linkedListSort compare (nodes.column (node :: ys)) =
          (nodes₁ node).data :: linkedListSort compare (nodes₁.column ys) := by
        show linkedListSort _ ((nodes node).data :: nodes.column ys) = _
        rw [linkedListSort_cons, hcol', hd']
      rw [hsort]
      exact hall

end

/-! ## The list -/

namespace ListMemory

/-- The list and the links are the same. -/
theorem Holds.refilled {s s' : ListMemory} {xs ys ds : List ℕ} (h : s.Holds xs)
    (hlist : s'.list = s.list) (hnodes : s.nodes.Refilled s'.nodes ys ds) : s'.Holds xs := by
  refine ⟨h.nodup, h.ring.congr (fun b _ => ?_) fun b _ => ?_⟩
  · rw [next, next, hlist, hnodes.next]
  · rw [prev, prev, hlist, hnodes.prev]

/-- **`linked_list_sort`** for a list with the nodes `xs`. -/
theorem Holds.sort {s : ListMemory} {xs : List ℕ} (h : s.Holds xs) (compare : ℕ → ℕ → ℤ)
    {fuel : ℕ} (hfuel : xs.length < fuel) : ∃ s', linkedListSortAt compare fuel s = some s' ∧
      s'.list = s.list ∧ s.nodes.Refilled s'.nodes xs
        (linkedListSort compare (s.nodes.column xs)) := by
  obtain ⟨nodes, hrun, hfill⟩ := linkedListSortFrom_eq compare
    (h.follow_next hfuel) (List.nodup_cons.1 h.nodup).2 (Nat.le_refl _)
  refine ⟨{ s with nodes }, ?_, rfl, hfill⟩
  rw [linkedListSortAt, hrun]
  rfl

end ListMemory

/-! ## In order -/

/-- A comparison function that orders all data, some of them alike. -/
structure TotalPreorder {α : Type*} (compare : α → α → ℤ) : Prop where
  total : ∀ a b, compare a b ≤ 0 ∨ compare b a ≤ 0
  trans : ∀ a b c, compare a b ≤ 0 → compare b c ≤ 0 → compare a c ≤ 0

/-- The data after the sort are in order. -/
theorem TotalPreorder.sorted {α : Type} {compare : α → α → ℤ} (h : TotalPreorder compare)
    (list : List α) : (linkedListSort compare list).Pairwise fun a b => compare a b ≤ 0 := by
  refine exchangeSort_pairwise (fun a b hab => ?_) (fun a b hab => ?_) h.trans list
  · have hgt : compare a b > 0 := of_decide_eq_true hab
    exact (h.total a b).resolve_left (by omega)
  · have hgt : ¬ compare a b > 0 := of_decide_eq_false hab
    omega

/-- **`linked_list_sort` sorts** every list by every such comparison: it ends, the nodes are
    chained as before, and their data are the same ones in order. -/
theorem linked_list_sort_sorts {s : ListMemory} {xs : List ℕ} (h : s.Holds xs)
    {compare : ℕ → ℕ → ℤ} (hcompare : TotalPreorder compare) {fuel : ℕ}
    (hfuel : xs.length < fuel) :
    ∃ s', linkedListSortAt compare fuel s = some s' ∧ s'.list = s.list ∧ s'.Holds xs ∧
      (∀ b, (s'.nodes b).next = (s.nodes b).next ∧ (s'.nodes b).prev = (s.nodes b).prev) ∧
      (∀ b, b ∉ xs → (s'.nodes b).data = (s.nodes b).data) ∧
      (s'.nodes.column xs).Perm (s.nodes.column xs) ∧
      (s'.nodes.column xs).Pairwise fun a b => compare a b ≤ 0 := by
  obtain ⟨s', hrun, hlist, hfill⟩ := h.sort compare hfuel
  refine ⟨s', hrun, hlist, h.refilled hlist hfill, fun b => ⟨hfill.next b, hfill.prev b⟩,
    hfill.data, ?_, ?_⟩
  · rw [hfill.column]
    exact linkedListSort_perm _ _
  · rw [hfill.column]
    exact hcompare.sorted _

/-- Two nodes, the second one in front of the first by its data. -/
def twoNodes : ListMemory where
  nodes b := if b = 4 then ⟨0, 8, 2⟩ else if b = 8 then ⟨4, 0, 1⟩ else ⟨0, 0, 0⟩
  list := ⟨4, 8⟩

theorem twoNodes_holds : twoNodes.Holds [4, 8] :=
  ⟨by decide, by simp [Path, ListMemory.next, twoNodes],
    by simp [Path, ListMemory.prev, twoNodes]⟩

/-- Numbers by their size. -/
theorem totalPreorder_sub : TotalPreorder fun a b : ℕ => (a : ℤ) - b :=
  ⟨fun a b => by omega, fun a b c _ _ => by omega⟩

theorem linked_list_sort_two_nodes :
    ∃ s', linkedListSortAt (fun a b => (a : ℤ) - b) 3 twoNodes = some s' ∧
      s'.list = twoNodes.list ∧ s'.Holds [4, 8] ∧
      (∀ b, (s'.nodes b).next = (twoNodes.nodes b).next ∧
        (s'.nodes b).prev = (twoNodes.nodes b).prev) ∧
      (∀ b, b ∉ [4, 8] → (s'.nodes b).data = (twoNodes.nodes b).data) ∧
      (s'.nodes.column [4, 8]).Perm (twoNodes.nodes.column [4, 8]) ∧
      (s'.nodes.column [4, 8]).Pairwise fun a b : ℕ => (a : ℤ) - b ≤ 0 :=
  linked_list_sort_sorts twoNodes_holds totalPreorder_sub (show [4, 8].length < 3 by decide)

end Ttos
