/-
  The trees of the kernel (generic_tree.h).

  The nodes are objects by their address; `0` is the null pointer.  A function that follows
  links is given a number of rounds, and returns `none` if they do not get to its end.

  * `genericTreeInsert_eq`, `genericTreeRemove_eq`: what the operations write.
  * `genericTreeForeach_eq`, `genericTreeFind_eq`: the traversals go through a tree in
    pre-order.
-/
import Ttos.Lib.SiblingForest

namespace Ttos

/-! ## The code -/

/-- `generic_tree_node_t` -/
structure GenericTreeNode where
  parent : ℕ
  children : ℕ
  next : ℕ
  data : ℕ
deriving DecidableEq, Repr

/-- All nodes, in a tree or not. -/
abbrev TreeNodes := ℕ → GenericTreeNode

namespace TreeNodes

variable (nodes : TreeNodes) (node value b : ℕ)

/-- `node->parent = value` -/
def setParent : TreeNodes := fun b => if b = node then { nodes b with parent := value } else nodes b

/-- `node->children = value` -/
def setChildren : TreeNodes := fun b =>
  if b = node then { nodes b with children := value } else nodes b

/-- `node->next = value` -/
def setNext : TreeNodes := fun b => if b = node then { nodes b with next := value } else nodes b

/-- The links of the nodes. -/
def links : Links ℕ := ⟨(nodes b).parent, (nodes b).children, (nodes b).next⟩

@[simp] theorem setParent_apply : nodes.setParent node value b =
    { nodes b with parent := if b = node then value else (nodes b).parent } := by
  unfold setParent; split <;> rfl

@[simp] theorem setChildren_apply : nodes.setChildren node value b =
    { nodes b with children := if b = node then value else (nodes b).children } := by
  unfold setChildren; split <;> rfl

@[simp] theorem setNext_apply : nodes.setNext node value b =
    { nodes b with next := if b = node then value else (nodes b).next } := by
  unfold setNext; split <;> rfl

end TreeNodes

/-- A tree (`generic_tree_t`), and the nodes. -/
structure TreeMemory where
  nodes : TreeNodes
  root : ℕ

/-- `generic_tree_create_node` for a node that `kmalloc` returned. -/
def genericTreeCreateNode (s : TreeMemory) (node data : ℕ) : TreeMemory :=
  { s with nodes := Function.update s.nodes node ⟨0, 0, 0, data⟩ }

/-- The loop of `generic_tree_insert`. -/
def lastSiblingFrom (nodes : TreeNodes) : ℕ → ℕ → Option ℕ
  | 0, _ => none
  | k + 1, last =>
    if (nodes last).next ≠ 0 then lastSiblingFrom nodes k (nodes last).next else some last

/-- `generic_tree_insert` -/
def genericTreeInsert (fuel : ℕ) (nodes : TreeNodes) (parent node : ℕ) : Option TreeNodes := do
  let nodes ← if (nodes parent).children = 0 then some (nodes.setChildren parent node)
    else do
      let last ← lastSiblingFrom nodes fuel (nodes parent).children
      some (nodes.setNext last node)
  some (nodes.setParent node parent)

/-- The loop of `generic_tree_remove`. -/
def siblingBeforeFrom (nodes : TreeNodes) (node : ℕ) : ℕ → ℕ → Option ℕ
  | 0, _ => none
  | k + 1, current =>
    if (nodes current).next ≠ node then siblingBeforeFrom nodes node k (nodes current).next
    else some current

/-- `generic_tree_remove` -/
def genericTreeRemove (fuel : ℕ) (s : TreeMemory) (node : ℕ) : Option TreeMemory :=
  let parent := (s.nodes node).parent
  if parent = 0 then some s
  else do
    let nodes ← if (s.nodes parent).children = node then
        some (s.nodes.setChildren parent (s.nodes node).next)
      else do
        let current ← siblingBeforeFrom s.nodes node fuel (s.nodes parent).children
        some (s.nodes.setNext current (s.nodes node).next)
    let root := if s.root = node then 0 else s.root
    some ⟨nodes.setParent node 0, root⟩

section
variable (nodes : TreeNodes)

mutual

/-- `_generic_tree_find_recursive`; `0` if there is none. -/
def genericTreeFindRecursive (compare : ℕ → ℕ → Bool) (data : ℕ) : ℕ → ℕ → Option ℕ
  | 0, _ => none
  | k + 1, node =>
    if compare (nodes node).data data then some node
    else if (nodes node).children ≠ 0 then
      genericTreeFindSiblings compare data k (nodes node).children
    else some 0

/-- Its loop over the children. -/
def genericTreeFindSiblings (compare : ℕ → ℕ → Bool) (data : ℕ) : ℕ → ℕ → Option ℕ
  | 0, _ => none
  | k + 1, current =>
    if current = 0 then some 0
    else do
      let result ← genericTreeFindRecursive compare data k current
      if result ≠ 0 then some result
      else genericTreeFindSiblings compare data k (nodes current).next

end

variable {σ : Type} (callback : σ → ℕ → σ)

mutual

/-- `_generic_tree_foreach_recursive` -/
def genericTreeForeachRecursive : ℕ → ℕ → σ → Option σ
  | 0, _, _ => none
  | k + 1, node, userdata =>
    let userdata := callback userdata node
    if (nodes node).children ≠ 0 then
      genericTreeForeachSiblings k (nodes node).children userdata
    else some userdata

/-- Its loop over the children. -/
def genericTreeForeachSiblings : ℕ → ℕ → σ → Option σ
  | 0, _, _ => none
  | k + 1, current, userdata =>
    if current = 0 then some userdata
    else do
      let userdata ← genericTreeForeachRecursive k current userdata
      genericTreeForeachSiblings k (nodes current).next userdata

end

end

/-- `generic_tree_find` -/
def genericTreeFind (fuel : ℕ) (s : TreeMemory) (compare : ℕ → ℕ → Bool) (data : ℕ) : Option ℕ :=
  if s.root = 0 then some 0 else genericTreeFindRecursive s.nodes compare data fuel s.root

/-- `generic_tree_foreach` -/
def genericTreeForeach {σ : Type} (fuel : ℕ) (s : TreeMemory) (callback : σ → ℕ → σ)
    (userdata : σ) : Option σ :=
  if s.root = 0 then some userdata
  else genericTreeForeachRecursive s.nodes callback fuel s.root userdata

/-! ## The loops -/

section
variable {nodes : TreeNodes} {q first a : ℕ} {f : Forest ℕ} {xs ys : List ℕ} {fuel : ℕ}

/-- The last one of siblings. -/
theorem lastSiblingFrom_eq (h : Wired nodes.links 0 q first f) (hf : f.roots ≠ [])
    (hfuel : f.nodes.length ≤ fuel) : lastSiblingFrom nodes fuel first = f.roots.getLast? := by
  induction f generalizing first fuel with
  | nil => exact absurd rfl hf
  | cons c kids sibs _ ih =>
    obtain ⟨rfl, -, -, -, hs⟩ := h
    have h5 : Wired nodes.links 0 q (nodes first).next sibs := hs
    rw [Forest.nodes, List.length_cons, List.length_append] at hfuel
    obtain ⟨fuel, rfl⟩ := Nat.exists_eq_add_one_of_ne_zero (by omega : fuel ≠ 0)
    have hnext : (nodes first).next = sibs.roots.headD 0 := h5.first_eq
    rw [lastSiblingFrom, Forest.roots]
    cases sibs with
    | nil =>
      have h0 : (nodes first).next = 0 := hnext
      rw [if_neg (not_not.2 h0)]
      rfl
    | cons d ks ss =>
      have hne : (nodes first).next ≠ 0 := by
        rw [hnext]
        exact h5.2.1
      rw [if_pos hne, ih h5 (List.cons_ne_nil _ _) (by omega)]
      rfl

/-- The one before a sibling that is not the first. -/
theorem siblingBeforeFrom_eq (h : Wired nodes.links 0 q first f) (hn : f.roots.Nodup)
    (hroots : f.roots = xs ++ a :: ys) (hxs : xs ≠ []) (hfuel : f.nodes.length ≤ fuel) :
    siblingBeforeFrom nodes a fuel first = xs.getLast? := by
  induction f generalizing first fuel xs with
  | nil => exact absurd hroots.symm (by simp [Forest.roots])
  | cons c kids sibs _ ih =>
    obtain ⟨rfl, -, -, -, hs⟩ := h
    have h5 : Wired nodes.links 0 q (nodes first).next sibs := hs
    rw [Forest.nodes, List.length_cons, List.length_append] at hfuel
    obtain ⟨fuel, rfl⟩ := Nat.exists_eq_add_one_of_ne_zero (by omega : fuel ≠ 0)
    have hnext : (nodes first).next = sibs.roots.headD 0 := h5.first_eq
    rw [Forest.roots] at hroots hn
    rw [siblingBeforeFrom]
    obtain ⟨d, xs, rfl⟩ := List.exists_cons_of_ne_nil hxs
    obtain ⟨rfl, hsibs⟩ := List.cons.inj hroots
    rw [hsibs] at hnext
    cases xs with
    | nil =>
      have ha : (nodes first).next = a := hnext
      rw [if_neg (not_not.2 ha)]
      rfl
    | cons e xs =>
      have hne : (nodes first).next ≠ a := by
        have hsn := (List.nodup_cons.1 hn).2
        rw [hsibs, List.append_eq, List.cons_append] at hsn
        rw [hnext]
        rintro (rfl : e = a)
        exact (List.nodup_cons.1 hsn).1 (List.mem_append_right _ (List.mem_cons_self ..))
      rw [if_pos hne, ih h5 (List.nodup_cons.1 hn).2 hsibs (List.cons_ne_nil _ _) (by omega)]
      rfl

end

/-! ## Insert, remove -/

section
variable {nodes : TreeNodes} {s : TreeMemory} {p q a : ℕ} {k : Forest ℕ} {xs ys : List ℕ}
  {fuel : ℕ}

/-- The links of a node whose subtree changes. -/
theorem children_eq_zero (h : Wired nodes.links 0 p (nodes p).children k) :
    (nodes p).children = 0 ↔ k.roots = [] := by
  cases k with
  | nil => exact iff_of_true h rfl
  | cons c kids sibs => exact iff_of_false (h.1.symm ▸ h.2.1) (List.cons_ne_nil _ _)

/-- **What `generic_tree_insert` writes** below a node with the children `k`. -/
theorem genericTreeInsert_eq (h : Wired nodes.links 0 p (nodes p).children k)
    (hfuel : k.nodes.length ≤ fuel) :
    ∃ nodes', genericTreeInsert fuel nodes p a = some nodes' ∧ ∀ b, nodes' b =
      { parent := if b = a then p else (nodes b).parent
        children := if k.roots = [] ∧ b = p then a else (nodes b).children
        next := if k.roots.getLast? = some b then a else (nodes b).next
        data := (nodes b).data } := by
  unfold genericTreeInsert
  by_cases hk : k.roots = []
  · rw [if_pos ((children_eq_zero h).2 hk), hk]
    refine ⟨_, rfl, fun b => ?_⟩
    simp
  · rw [if_neg fun h0 => hk ((children_eq_zero h).1 h0), lastSiblingFrom_eq h hk hfuel,
      List.getLast?_eq_some_getLast hk]
    refine ⟨_, rfl, fun b => ?_⟩
    simp [hk, eq_comm]

/-- **What `generic_tree_remove` writes** for a child in front of `ys`. -/
theorem genericTreeRemove_eq (hq : (s.nodes a).parent = q) (hq0 : q ≠ 0) (hroot : s.root ≠ a)
    (h : Wired s.nodes.links 0 q (s.nodes q).children k) (hn : k.roots.Nodup)
    (hroots : k.roots = xs ++ a :: ys) (hfuel : k.nodes.length ≤ fuel) :
    ∃ s', genericTreeRemove fuel s a = some s' ∧ s'.root = s.root ∧ ∀ b, s'.nodes b =
      { parent := if b = a then 0 else (s.nodes b).parent
        children := if xs = [] ∧ b = q then (s.nodes a).next else (s.nodes b).children
        next := if xs.getLast? = some b then (s.nodes a).next else (s.nodes b).next
        data := (s.nodes b).data } := by
  have hfirst : (s.nodes q).children = k.roots.headD 0 := h.first_eq
  unfold genericTreeRemove
  dsimp only
  rw [hq, if_neg hq0, if_neg hroot]
  by_cases hxs : xs = []
  · have ha : (s.nodes q).children = a := by
      rw [hfirst, hroots, hxs]
      rfl
    rw [if_pos ha, hxs]
    refine ⟨_, rfl, rfl, fun b => ?_⟩
    simp
  · have ha : (s.nodes q).children ≠ a := by
      obtain ⟨c, cs, rfl⟩ := List.exists_cons_of_ne_nil hxs
      rw [hroots, List.cons_append] at hn
      rw [hfirst, hroots]
      rintro (rfl : c = a)
      exact (List.nodup_cons.1 hn).1 (List.mem_append_right _ (List.mem_cons_self ..))
    rw [if_neg ha, siblingBeforeFrom_eq h hn hroots hxs hfuel, List.getLast?_eq_some_getLast hxs]
    refine ⟨_, rfl, rfl, fun b => ?_⟩
    simp [hxs, eq_comm]

end

/-! ## Traversals -/

section
variable {nodes : TreeNodes} {q first a : ℕ} {f : Forest ℕ} {fuel : ℕ}

/-- Without children the loop over them would do nothing. -/
theorem foreachRecursive_succ {σ : Type} (callback : σ → ℕ → σ) (userdata : σ) (k : ℕ) :
    genericTreeForeachRecursive nodes callback (k + 2) a userdata =
      genericTreeForeachSiblings nodes callback (k + 1) (nodes a).children (callback userdata a) := by
  rw [genericTreeForeachRecursive]
  split
  · rfl
  · rename_i h0
    rw [genericTreeForeachSiblings, if_pos (not_not.1 h0)]

theorem findRecursive_succ (compare : ℕ → ℕ → Bool) (data k : ℕ) :
    genericTreeFindRecursive nodes compare data (k + 2) a =
      if compare (nodes a).data data then some a
      else genericTreeFindSiblings nodes compare data (k + 1) (nodes a).children := by
  rw [genericTreeFindRecursive]
  refine if_congr Iff.rfl rfl ?_
  split
  · rfl
  · rename_i h0
    rw [genericTreeFindSiblings, if_pos (not_not.1 h0)]

/-- **The visits go through trees side by side in pre-order.** -/
theorem genericTreeForeachSiblings_eq {σ : Type} (callback : σ → ℕ → σ) (userdata : σ)
    (h : Wired nodes.links 0 q first f) (hfuel : 2 * f.nodes.length < fuel) :
    genericTreeForeachSiblings nodes callback fuel first userdata =
      some (f.nodes.foldl callback userdata) := by
  induction f generalizing q first fuel userdata with
  | nil =>
    obtain ⟨fuel, rfl⟩ := Nat.exists_eq_add_one_of_ne_zero (by omega : fuel ≠ 0)
    rw [genericTreeForeachSiblings, if_pos (show first = 0 from h)]
    rfl
  | cons c kids sibs ihk ihs =>
    obtain ⟨rfl, h0, -, hk', hs'⟩ := h
    have hk : Wired nodes.links 0 first (nodes first).children kids := hk'
    have hs : Wired nodes.links 0 q (nodes first).next sibs := hs'
    rw [Forest.nodes, List.length_cons, List.length_append] at hfuel
    obtain ⟨fuel, rfl⟩ := Nat.exists_eq_add_of_le (by omega : 3 ≤ fuel)
    rw [Nat.add_comm, genericTreeForeachSiblings, if_neg h0, foreachRecursive_succ,
      ihk (callback userdata first) hk (by omega)]
    show genericTreeForeachSiblings nodes callback (fuel + 2) (nodes first).next _ = _
    rw [ihs _ hs (by omega), Forest.nodes, List.foldl_cons, List.foldl_append]

/-- The first node in pre-order. -/
theorem genericTreeFindSiblings_eq (compare : ℕ → ℕ → Bool) (data : ℕ)
    (h : Wired nodes.links 0 q first f) (hfuel : 2 * f.nodes.length < fuel) :
    genericTreeFindSiblings nodes compare data fuel first =
      some ((f.nodes.find? fun b => compare (nodes b).data data).getD 0) := by
  induction f generalizing q first fuel with
  | nil =>
    obtain ⟨fuel, rfl⟩ := Nat.exists_eq_add_one_of_ne_zero (by omega : fuel ≠ 0)
    rw [genericTreeFindSiblings, if_pos (show first = 0 from h)]
    rfl
  | cons c kids sibs ihk ihs =>
    obtain ⟨rfl, h0, -, hk', hs'⟩ := h
    have hk : Wired nodes.links 0 first (nodes first).children kids := hk'
    have hs : Wired nodes.links 0 q (nodes first).next sibs := hs'
    rw [Forest.nodes, List.length_cons, List.length_append] at hfuel
    obtain ⟨fuel, rfl⟩ := Nat.exists_eq_add_of_le (by omega : 3 ≤ fuel)
    rw [Nat.add_comm, genericTreeFindSiblings, if_neg h0, findRecursive_succ, Forest.nodes,
      List.find?_cons]
    by_cases hc : compare (nodes first).data data = true
    · rw [if_pos hc, hc]
      show (if first ≠ 0 then some first else _) = _
      rw [if_pos h0]
      rfl
    · rw [if_neg hc, Bool.eq_false_iff.2 hc, ihk hk (by omega), List.find?_append]
      cases hf : kids.nodes.find? fun b => compare (nodes b).data data with
      | none =>
        show genericTreeFindSiblings nodes compare data (fuel + 2) (nodes first).next = _
        rw [ihs hs (by omega)]
        rfl
      | some d =>
        have hd : d ≠ 0 := fun h => hk.ne_null (h ▸ List.mem_of_find?_eq_some hf)
        show (if d ≠ 0 then some d else _) = _
        rw [if_pos hd]
        rfl

end

/-- The traversals of a whole tree. -/
theorem genericTreeForeach_eq {s : TreeMemory} {f : Forest ℕ} {fuel : ℕ} {σ : Type}
    (callback : σ → ℕ → σ) (userdata : σ) (h0 : s.root ≠ 0)
    (h : Wired s.nodes.links 0 s.root (s.nodes s.root).children f)
    (hfuel : 2 * f.nodes.length + 1 < fuel) : genericTreeForeach fuel s callback userdata =
      some ((s.root :: f.nodes).foldl callback userdata) := by
  obtain ⟨fuel, rfl⟩ := Nat.exists_eq_add_of_le (by omega : 2 ≤ fuel)
  rw [genericTreeForeach, if_neg h0, Nat.add_comm, foreachRecursive_succ,
    genericTreeForeachSiblings_eq _ _ h (by omega)]
  rfl

theorem genericTreeFind_eq {s : TreeMemory} {f : Forest ℕ} {fuel : ℕ}
    (compare : ℕ → ℕ → Bool) (data : ℕ) (h0 : s.root ≠ 0)
    (h : Wired s.nodes.links 0 s.root (s.nodes s.root).children f)
    (hfuel : 2 * f.nodes.length + 1 < fuel) : genericTreeFind fuel s compare data =
      some (((s.root :: f.nodes).find? fun b => compare (s.nodes b).data data).getD 0) := by
  obtain ⟨fuel, rfl⟩ := Nat.exists_eq_add_of_le (by omega : 2 ≤ fuel)
  rw [genericTreeFind, if_neg h0, Nat.add_comm, findRecursive_succ, List.find?_cons]
  by_cases hc : compare (s.nodes s.root).data data = true
  · rw [if_pos hc, hc]
    rfl
  · rw [if_neg hc, Bool.eq_false_iff.2 hc, genericTreeFindSiblings_eq _ _ h (by omega)]

end Ttos
