/-
  The doubly linked lists of the kernel (linked_list.h).

  The nodes are objects by their address; `0` is the null pointer.  A function that walks
  the list is given a number of rounds, and returns `none` if they do not get to its end.

  * `ListMemory.Holds`: the list has these nodes, linked both ways.
  * `Holds.append`, `Holds.prepend`, `Holds.remove`: what the operations do to them.
  * `Holds.size`, `Holds.get`, `Holds.find`: what the walks return.
-/
import Ttos.Lib.Ring
import Ttos.Lib.Word
import Mathlib.Algebra.Group.Nat.Defs
import Mathlib.Data.Finset.Card
import Mathlib.Data.Finset.Range
import Mathlib.Data.Int.Notation

namespace Ttos

/-! ## The code -/

/-- `linked_list_node_t` -/
structure LinkedListNode where
  prev : ℕ
  next : ℕ
  data : ℕ
deriving DecidableEq, Repr

/-- `sizeof(linked_list_node_t)` -/
abbrev linkedListNodeSize : ℕ := 12

/-- `linked_list_t` -/
structure LinkedList where
  head : ℕ
  tail : ℕ
deriving DecidableEq, Repr

/-- All nodes, in a list or not. -/
abbrev ListNodes := ℕ → LinkedListNode

namespace ListNodes

/-- `node->prev = value` -/
def setPrev (nodes : ListNodes) (node value : ℕ) : ListNodes := fun b =>
  if b = node then { nodes b with prev := value } else nodes b

/-- `node->next = value` -/
def setNext (nodes : ListNodes) (node value : ℕ) : ListNodes := fun b =>
  if b = node then { nodes b with next := value } else nodes b

/-- `node->data = value` -/
def setData (nodes : ListNodes) (node value : ℕ) : ListNodes := fun b =>
  if b = node then { nodes b with data := value } else nodes b

variable (nodes : ListNodes) (node value b : ℕ)

@[simp] theorem setPrev_prev : (nodes.setPrev node value b).prev =
    if b = node then value else (nodes b).prev := by unfold setPrev; split <;> rfl

@[simp] theorem setPrev_next : (nodes.setPrev node value b).next = (nodes b).next := by
  unfold setPrev; split <;> rfl

@[simp] theorem setPrev_data : (nodes.setPrev node value b).data = (nodes b).data := by
  unfold setPrev; split <;> rfl

@[simp] theorem setNext_prev : (nodes.setNext node value b).prev = (nodes b).prev := by
  unfold setNext; split <;> rfl

@[simp] theorem setNext_next : (nodes.setNext node value b).next =
    if b = node then value else (nodes b).next := by unfold setNext; split <;> rfl

@[simp] theorem setNext_data : (nodes.setNext node value b).data = (nodes b).data := by
  unfold setNext; split <;> rfl

@[simp] theorem setData_prev : (nodes.setData node value b).prev = (nodes b).prev := by
  unfold setData; split <;> rfl

@[simp] theorem setData_next : (nodes.setData node value b).next = (nodes b).next := by
  unfold setData; split <;> rfl

@[simp] theorem setData_data : (nodes.setData node value b).data =
    if b = node then value else (nodes b).data := by unfold setData; split <;> rfl

end ListNodes

/-- A list, and the nodes. -/
structure ListMemory where
  nodes : ListNodes
  list : LinkedList

/-- `linked_list_create` for a list that `kmalloc` returned. -/
def linkedListCreate (nodes : ListNodes) : ListMemory := ⟨nodes, ⟨0, 0⟩⟩

/-- `linked_list_create_node` for a node that `kmalloc` returned. -/
def linkedListCreateNode (s : ListMemory) (node data : ℕ) : ListMemory :=
  { s with nodes := ((s.nodes.setPrev node 0).setNext node 0).setData node data }

/-- `linked_list_empty` -/
def linkedListEmpty (s : ListMemory) : Bool := s.list.head = 0

/-- `linked_list_append` -/
def linkedListAppend (s : ListMemory) (node : ℕ) : ListMemory :=
  if linkedListEmpty s then ⟨(s.nodes.setPrev node 0).setNext node 0, node, node⟩
  else
    let nodes := (s.nodes.setPrev node s.list.tail).setNext node 0
    ⟨nodes.setNext s.list.tail node, s.list.head, node⟩

/-- `linked_list_prepend` -/
def linkedListPrepend (s : ListMemory) (node : ℕ) : ListMemory :=
  if linkedListEmpty s then ⟨(s.nodes.setPrev node 0).setNext node 0, node, node⟩
  else
    let nodes := (s.nodes.setPrev node 0).setNext node s.list.head
    ⟨nodes.setPrev s.list.head node, node, s.list.tail⟩

/-- `linked_list_remove` -/
def linkedListRemove (s : ListMemory) (node : ℕ) : ListMemory :=
  let head := if s.list.head = node then (s.nodes node).next else s.list.head
  let tail := if s.list.tail = node then (s.nodes node).prev else s.list.tail
  let nodes := if (s.nodes node).prev ≠ 0 then
    s.nodes.setNext (s.nodes node).prev (s.nodes node).next else s.nodes
  let nodes := if (nodes node).next ≠ 0 then
    nodes.setPrev (nodes node).next (nodes node).prev else nodes
  ⟨(nodes.setPrev node 0).setNext node 0, head, tail⟩

/-- The loop of `linked_list_size`. -/
def linkedListSizeFrom (nodes : ListNodes) : ℕ → ℕ → ℕ → Option ℕ
  | 0, _, _ => none
  | k + 1, node, size =>
    if node = 0 then some size else linkedListSizeFrom nodes k (nodes node).next (u32 (size + 1))

/-- `linked_list_size` -/
def linkedListSize (fuel : ℕ) (s : ListMemory) : Option ℕ :=
  linkedListSizeFrom s.nodes fuel s.list.head 0

/-- The loop of `linked_list_get`. -/
def linkedListGetFrom (nodes : ListNodes) (index : ℕ) : ℕ → ℕ → ℕ → Option ℕ
  | 0, _, _ => none
  | k + 1, node, currentIndex =>
    if node = 0 then some 0
    else if currentIndex = index then some node
    else linkedListGetFrom nodes index k (nodes node).next (u32 (currentIndex + 1))

/-- `linked_list_get` -/
def linkedListGet (fuel : ℕ) (s : ListMemory) (index : ℕ) : Option ℕ :=
  linkedListGetFrom s.nodes index fuel s.list.head 0

/-- The loop of `linked_list_find`. -/
def linkedListFindFrom (nodes : ListNodes) (compare : ℕ → ℕ → Bool) (data : ℕ) :
    ℕ → ℕ → Option ℕ
  | 0, _ => none
  | k + 1, node =>
    if node = 0 then some 0
    else if compare (nodes node).data data then some node
    else linkedListFindFrom nodes compare data k (nodes node).next

/-- `linked_list_find` -/
def linkedListFind (fuel : ℕ) (s : ListMemory) (compare : ℕ → ℕ → Bool) (data : ℕ) : Option ℕ :=
  linkedListFindFrom s.nodes compare data fuel s.list.head

/-! ## Lists as rings -/

namespace ListMemory

/-- What follows a node; the head follows the null pointer. -/
def next (s : ListMemory) (b : ℕ) : ℕ := if b = 0 then s.list.head else (s.nodes b).next

/-- What comes before a node; the tail comes before the null pointer. -/
def prev (s : ListMemory) (b : ℕ) : ℕ := if b = 0 then s.list.tail else (s.nodes b).prev

/-- The list has the nodes `xs`, in order. -/
structure Holds (s : ListMemory) (xs : List ℕ) : Prop where
  nodup : (0 :: xs).Nodup
  ring : Ring s.next s.prev 0 xs

variable {s : ListMemory} {xs ys : List ℕ} {a b : ℕ}

theorem next_of_ne (h : b ≠ 0) : s.next b = (s.nodes b).next := if_neg h

theorem prev_of_ne (h : b ≠ 0) : s.prev b = (s.nodes b).prev := if_neg h

namespace Holds

theorem head_eq (h : s.Holds xs) : s.list.head = xs.headD 0 := h.ring.first

theorem tail_eq (h : s.Holds xs) : s.list.tail = xs.getLastD 0 := h.ring.last

theorem zero (h : s.Holds xs) : 0 ∉ xs := (List.nodup_cons.1 h.nodup).1

theorem head_eq_zero (h : s.Holds xs) : s.list.head = 0 ↔ xs = [] := h.ring.root_iff h.zero

theorem tail_eq_zero (h : s.Holds xs) : s.list.tail = 0 ↔ xs = [] := by
  have hrev : Ring s.prev s.next 0 xs.reverse := ⟨h.ring.prev, by simpa using h.ring.next⟩
  have h0 := hrev.root_iff fun hm => h.zero (List.mem_reverse.1 hm)
  exact h0.trans List.reverse_eq_nil_iff

theorem tail_mem (h : s.Holds xs) : s.list.tail ∈ 0 :: xs := by
  rw [h.tail_eq]
  exact List.getLastD_mem_cons

theorem head_mem (h : s.Holds xs) : s.list.head ∈ 0 :: xs := by
  rw [h.head_eq]
  cases xs with
  | nil => exact List.mem_singleton_self 0
  | cons b xs => exact List.mem_cons_of_mem _ (List.mem_cons_self ..)

/-- A list fits into the memory: its nodes have 32-bit addresses. -/
theorem length_lt (h : s.Holds xs) (hxs : ∀ b ∈ xs, b < 2 ^ 32) : xs.length < 2 ^ 32 := by
  have hsub : (0 :: xs).toFinset ⊆ Finset.range (2 ^ 32) := by
    intro b hb
    rw [List.mem_toFinset, List.mem_cons] at hb
    rw [Finset.mem_range]
    rcases hb with rfl | hb
    · decide
    · exact hxs b hb
  have hcard := Finset.card_le_card hsub
  rw [List.toFinset_card_of_nodup h.nodup, Finset.card_range, List.length_cons] at hcard
  omega

/-! ## Append, prepend, remove -/

theorem nil (h : s.list = ⟨0, 0⟩) : s.Holds [] :=
  ⟨List.nodup_singleton 0, ⟨congrArg LinkedList.head h, congrArg LinkedList.tail h⟩⟩

/-- Nodes elsewhere may change. -/
theorem frame {s' : ListMemory} (h : s.Holds xs) (hlist : s'.list = s.list)
    (hnodes : ∀ b ∈ xs, s'.nodes b = s.nodes b) : s'.Holds xs := by
  refine ⟨h.nodup, h.ring.congr (fun b hb => ?_) fun b hb => ?_⟩
  · unfold next
    by_cases h0 : b = 0
    · rw [if_pos h0, if_pos h0, hlist]
    · rw [if_neg h0, if_neg h0, hnodes b ((List.mem_cons.1 hb).resolve_left h0)]
  · unfold prev
    by_cases h0 : b = 0
    · rw [if_pos h0, if_pos h0, hlist]
    · rw [if_neg h0, if_neg h0, hnodes b ((List.mem_cons.1 hb).resolve_left h0)]

/-- A node outside the list is prepared. -/
theorem createNode (h : s.Holds xs) (ha : a ∉ xs) (data : ℕ) :
    (linkedListCreateNode s a data).Holds xs := by
  refine h.frame rfl fun b hb => ?_
  have hne : b ≠ a := fun heq => ha (heq ▸ hb)
  simp [linkedListCreateNode, ListNodes.setPrev, ListNodes.setNext, ListNodes.setData, hne]

theorem next_append (h : s.Holds xs) (ha : a ≠ 0) (hxs : a ∉ xs) (b : ℕ) :
    (linkedListAppend s a).next b =
      if b = a then 0 else if b = s.list.tail then a else s.next b := by
  have hne : a ≠ s.list.tail := fun heq =>
    (List.mem_cons.1 (heq ▸ h.tail_mem)).elim ha hxs
  unfold next linkedListAppend linkedListEmpty
  by_cases he : s.list.head = 0
  · have ht : s.list.tail = 0 := h.tail_eq_zero.2 (h.head_eq_zero.1 he)
    by_cases h0 : b = 0
    · subst h0
      simp [he, ht, Ne.symm ha]
    · simp [he, ht, h0]
  · have ht : s.list.tail ≠ 0 := fun ht => he (h.head_eq_zero.2 (h.tail_eq_zero.1 ht))
    by_cases h0 : b = 0
    · subst h0
      simp [he, Ne.symm ha, Ne.symm ht]
    · by_cases hba : b = a
      · subst hba
        simp [he, h0, hne]
      · simp [he, h0, hba]

theorem prev_append (h : s.Holds xs) (ha : a ≠ 0) (b : ℕ) :
    (linkedListAppend s a).prev b =
      if b = a then s.list.tail else if b = 0 then a else s.prev b := by
  unfold prev linkedListAppend linkedListEmpty
  by_cases he : s.list.head = 0
  · have ht : s.list.tail = 0 := h.tail_eq_zero.2 (h.head_eq_zero.1 he)
    by_cases h0 : b = 0
    · subst h0
      simp [he, Ne.symm ha]
    · simp [he, ht, h0]
  · by_cases h0 : b = 0
    · subst h0
      simp [he, Ne.symm ha]
    · simp [he, h0]

/-- A node that is not in the list can be put anywhere in it. -/
theorem nodup_link (h : s.Holds (xs ++ ys)) (ha : a ≠ 0) (hxs : a ∉ xs ++ ys) :
    (0 :: (xs ++ a :: ys)).Nodup := by
  have hn : (a :: 0 :: (xs ++ ys)).Nodup :=
    List.nodup_cons.2 ⟨fun hm => (List.mem_cons.1 hm).elim ha hxs, h.nodup⟩
  refine (List.Perm.nodup_iff ?_).1 hn
  exact (List.Perm.swap ..).trans (List.perm_middle.symm.cons 0)

/-- **`linked_list_append` puts the node behind the last one.** -/
theorem append (h : s.Holds xs) (ha : a ≠ 0) (hxs : a ∉ xs) :
    (linkedListAppend s a).Holds (xs ++ [a]) := by
  have hlist : s.Holds (xs ++ []) := by rwa [List.append_nil]
  have hne : s.list.tail ≠ a := fun heq => (List.mem_cons.1 (heq ▸ h.tail_mem)).elim ha hxs
  have htail := h.tail_eq
  rw [← List.append_nil xs] at hxs
  refine ⟨hlist.nodup_link ha hxs, hlist.ring.link hlist.nodup
    (fun hm => (List.mem_cons.1 hm).elim ha hxs) ?_ ?_ ?_ ?_ (fun b hb hba => ?_) fun b hb hba => ?_⟩
  · rw [← htail, h.next_append ha (by simpa using hxs), if_neg hne, if_pos rfl]
  · rw [h.next_append ha (by simpa using hxs), if_pos rfl]
    rfl
  · rw [h.prev_append ha, if_pos rfl, htail]
  · show (linkedListAppend s a).prev 0 = a
    rw [h.prev_append ha, if_neg (Ne.symm ha), if_pos rfl]
  · rw [h.next_append ha (by simpa using hxs), if_neg hba, htail, if_neg hb]
  · rw [h.prev_append ha, if_neg hba, if_neg (show b ≠ 0 from hb)]

theorem next_prepend (s : ListMemory) (ha : a ≠ 0) (b : ℕ) :
    (linkedListPrepend s a).next b =
      if b = a then s.list.head else if b = 0 then a else s.next b := by
  unfold next linkedListPrepend linkedListEmpty
  by_cases he : s.list.head = 0
  · by_cases h0 : b = 0
    · subst h0
      simp [he, Ne.symm ha]
    · simp [he, h0]
  · by_cases h0 : b = 0
    · subst h0
      simp [he, Ne.symm ha]
    · simp [he, h0]

theorem prev_prepend (h : s.Holds xs) (ha : a ≠ 0) (hxs : a ∉ xs) (b : ℕ) :
    (linkedListPrepend s a).prev b =
      if b = a then 0 else if b = s.list.head then a else s.prev b := by
  have hne : a ≠ s.list.head := fun heq =>
    (List.mem_cons.1 (heq ▸ h.head_mem)).elim ha hxs
  unfold prev linkedListPrepend linkedListEmpty
  by_cases he : s.list.head = 0
  · by_cases h0 : b = 0
    · subst h0
      simp [he, Ne.symm ha]
    · simp [he, h0]
  · by_cases h0 : b = 0
    · subst h0
      simp [he, Ne.symm ha, Ne.symm he]
    · by_cases hba : b = a
      · subst hba
        simp [he, h0, hne]
      · simp [he, h0, hba]

/-- **`linked_list_prepend` puts the node in front of the first one.** -/
theorem prepend (h : s.Holds xs) (ha : a ≠ 0) (hxs : a ∉ xs) :
    (linkedListPrepend s a).Holds (a :: xs) := by
  have hne : s.list.head ≠ a := fun heq => (List.mem_cons.1 (heq ▸ h.head_mem)).elim ha hxs
  have hhead := h.head_eq
  have hlist : s.Holds ([] ++ xs) := h
  refine ⟨hlist.nodup_link ha hxs, hlist.ring.link hlist.nodup
    (fun hm => (List.mem_cons.1 hm).elim ha hxs) ?_ ?_ ?_ ?_ (fun b hb hba => ?_) fun b hb hba => ?_⟩
  · show (linkedListPrepend s a).next 0 = a
    rw [next_prepend s ha, if_neg (Ne.symm ha), if_pos rfl]
  · rw [next_prepend s ha, if_pos rfl, hhead]
  · rw [h.prev_prepend ha hxs, if_pos rfl]
    rfl
  · rw [← hhead, h.prev_prepend ha hxs, if_neg hne, if_pos rfl]
  · rw [next_prepend s ha, if_neg hba, if_neg (show b ≠ 0 from hb)]
  · rw [h.prev_prepend ha hxs, if_neg hba, hhead, if_neg hb]

/-- A node is neither of its neighbours, nor the null pointer. -/
theorem ne_of_mid (h : s.Holds (xs ++ a :: ys)) : a ≠ 0 ∧ xs.getLastD 0 ≠ a ∧ ys.headD 0 ≠ a := by
  have hn := h.nodup
  rw [← List.cons_append, List.nodup_append] at hn
  obtain ⟨-, hys, hne⟩ := hn
  have ha : a ≠ 0 := (hne 0 (List.mem_cons_self ..) a (List.mem_cons_self ..)).symm
  refine ⟨ha, hne _ List.getLastD_mem_cons a (List.mem_cons_self ..), ?_⟩
  cases ys with
  | nil => exact ha.symm
  | cons c ys => exact fun hc => (List.nodup_cons.1 hys).1 (hc ▸ List.mem_cons_self ..)

/-- The node is the head if nothing comes before it. -/
theorem head_eq_iff (h : s.Holds (xs ++ a :: ys)) : s.list.head = a ↔ xs.getLastD 0 = 0 := by
  rw [h.head_eq]
  cases xs with
  | nil => exact iff_of_true rfl rfl
  | cons c xs =>
    rw [List.getLastD_cons]
    have hn : (c :: (xs ++ a :: ys)).Nodup := (List.nodup_cons.1 h.nodup).2
    have hc : c ≠ a := fun hc => (List.nodup_cons.1 hn).1 (by simp [hc])
    have hmem : xs.getLastD c ∈ c :: xs := List.getLastD_mem_cons
    refine iff_of_false hc fun h0 => h.zero ?_
    rw [← h0]
    exact List.mem_append_left _ hmem

/-- It is the tail if nothing follows it. -/
theorem tail_eq_iff (h : s.Holds (xs ++ a :: ys)) : s.list.tail = a ↔ ys.headD 0 = 0 := by
  rw [h.tail_eq, List.getLastD_eq_getLast?, List.getLast?_append, List.getLast?_cons]
  cases ys with
  | nil => exact iff_of_true rfl rfl
  | cons c ys =>
    have hn := (List.nodup_append.1 (List.nodup_cons.1 h.nodup).2).2.1
    have hmem : ys.getLastD c ∈ c :: ys := List.getLastD_mem_cons
    have hlast : (c :: ys).getLastD a = ys.getLastD c := List.getLastD_cons ..
    refine iff_of_false (fun ha => (List.nodup_cons.1 hn).1 ?_) fun h0 => h.zero ?_
    · rw [Option.some_or, Option.getD_some, ← List.getLastD_eq_getLast?, hlast] at ha
      exact ha ▸ hmem
    · exact List.mem_append_right _ (List.mem_cons_of_mem _ (h0 ▸ List.mem_cons_self ..))

theorem next_remove (h : s.Holds (xs ++ a :: ys)) (b : ℕ) : (linkedListRemove s a).next b =
    if b = a then 0 else if b = xs.getLastD 0 then ys.headD 0 else s.next b := by
  obtain ⟨ha, hp, hq⟩ := h.ne_of_mid
  have hnext : (s.nodes a).next = ys.headD 0 := (next_of_ne ha).symm.trans h.ring.next_eq
  have hprev : (s.nodes a).prev = xs.getLastD 0 := (prev_of_ne ha).symm.trans h.ring.prev_eq
  have hhead := h.head_eq_iff
  simp only [next, linkedListRemove, hnext, hprev, hhead]
  by_cases h0 : b = 0
  · subst h0
    rw [if_pos rfl, if_pos rfl, if_neg (Ne.symm ha)]
    exact if_congr eq_comm rfl rfl
  · rw [if_neg h0, if_neg h0, ListNodes.setNext_next]
    by_cases hba : b = a
    · rw [if_pos hba, if_pos hba]
    · rw [if_neg hba, if_neg hba]
      by_cases hp0 : xs.getLastD 0 = 0
      · rw [if_neg (not_not.2 hp0), hp0, if_neg h0]
        split <;> simp
      · rw [if_pos hp0]
        split <;> simp

theorem prev_remove (h : s.Holds (xs ++ a :: ys)) (b : ℕ) : (linkedListRemove s a).prev b =
    if b = a then 0 else if b = ys.headD 0 then xs.getLastD 0 else s.prev b := by
  obtain ⟨ha, hp, hq⟩ := h.ne_of_mid
  have hnext : (s.nodes a).next = ys.headD 0 := (next_of_ne ha).symm.trans h.ring.next_eq
  have hprev : (s.nodes a).prev = xs.getLastD 0 := (prev_of_ne ha).symm.trans h.ring.prev_eq
  have htail := h.tail_eq_iff
  -- The first write does not change the links of the node itself.
  have hkeep : ∀ nodes, nodes = (if xs.getLastD 0 ≠ 0 then
      s.nodes.setNext (xs.getLastD 0) (ys.headD 0) else s.nodes) →
      (nodes a).next = ys.headD 0 ∧ ∀ c, (nodes c).prev = (s.nodes c).prev := by
    rintro _ rfl
    split <;> simp [hnext]
  simp only [prev, linkedListRemove, hnext, hprev, htail]
  generalize hnodes : (if xs.getLastD 0 ≠ 0 then
    s.nodes.setNext (xs.getLastD 0) (ys.headD 0) else s.nodes) = nodes
  obtain ⟨hn, hc⟩ := hkeep nodes hnodes.symm
  rw [hn, hc, hprev]
  by_cases h0 : b = 0
  · subst h0
    rw [if_pos rfl, if_pos rfl, if_neg (Ne.symm ha)]
    exact if_congr eq_comm rfl rfl
  · rw [if_neg h0, if_neg h0, ListNodes.setNext_prev, ListNodes.setPrev_prev]
    by_cases hba : b = a
    · rw [if_pos hba, if_pos hba]
    · rw [if_neg hba, if_neg hba]
      by_cases hq0 : ys.headD 0 = 0
      · rw [if_neg (not_not.2 hq0), hq0, if_neg h0, hc]
      · rw [if_pos hq0, ListNodes.setPrev_prev, hc]

/-- **`linked_list_remove` takes the node out**; the others stay in order. -/
theorem remove (h : s.Holds (xs ++ a :: ys)) : (linkedListRemove s a).Holds (xs ++ ys) := by
  obtain ⟨ha, hp, hq⟩ := h.ne_of_mid
  have hsub : (xs ++ ys).Sublist (xs ++ a :: ys) := (List.Sublist.refl xs).append (List.sublist_cons_self ..)
  refine ⟨h.nodup.sublist (hsub.cons_cons 0), h.ring.unlink h.nodup ?_ ?_ ?_ ?_⟩
  · rw [h.next_remove, if_neg hp, if_pos rfl]
  · rw [h.prev_remove, if_neg hq, if_pos rfl]
  · intro b hb hba
    rw [h.next_remove, if_neg hba, if_neg hb]
  · intro b hb hba
    rw [h.prev_remove, if_neg hba, if_neg hb]

/-! ## Walks -/

/-- The walk from the head meets the nodes in order. -/
theorem follow_next (h : s.Holds xs) {fuel : ℕ} (hfuel : xs.length < fuel) :
    follow (fun b => (s.nodes b).next) 0 fuel s.list.head = some xs := by
  have hp : Path (fun b => if b = 0 then s.list.head else (s.nodes b).next) 0 xs 0 := h.ring.next
  rw [← follow_path hp h.zero hfuel]
  exact follow_congr (fun b hb => (if_neg hb).symm) _ _

/-- The walk from the tail meets them in opposite order. -/
theorem follow_prev (h : s.Holds xs) {fuel : ℕ} (hfuel : xs.length < fuel) :
    follow (fun b => (s.nodes b).prev) 0 fuel s.list.tail = some xs.reverse := by
  have hp : Path (fun b => if b = 0 then s.list.tail else (s.nodes b).prev) 0 xs.reverse 0 :=
    h.ring.prev
  rw [← follow_path hp (fun hm => h.zero (List.mem_reverse.1 hm)) (by simpa using hfuel)]
  exact follow_congr (fun b hb => (if_neg hb).symm) _ _

end Holds

end ListMemory

/-! ## What the walks return -/

section
variable {nodes : ListNodes} {k node n : ℕ} {xs : List ℕ}
  (h : follow (fun b => (nodes b).next) 0 k node = some xs)
include h

theorem linkedListSizeFrom_eq (hn : n + xs.length < 2 ^ 32) :
    linkedListSizeFrom nodes k node n = some (n + xs.length) := by
  induction k generalizing node n xs with
  | zero => exact nomatch h
  | succ k ih =>
    unfold linkedListSizeFrom
    obtain ⟨h0, rfl⟩ | ⟨h0, ys, rfl, hys⟩ := follow_succ h
    · rw [if_pos h0]
      rfl
    · rw [List.length_cons] at hn ⊢
      rw [if_neg h0, u32_of_lt (by omega), ih hys (by omega)]
      exact congrArg some (by omega)

theorem linkedListGetFrom_eq {index : ℕ} (hn : n + xs.length < 2 ^ 32) (hi : n ≤ index) :
    linkedListGetFrom nodes index k node n = some (xs[index - n]?.getD 0) := by
  induction k generalizing node n xs with
  | zero => exact nomatch h
  | succ k ih =>
    unfold linkedListGetFrom
    obtain ⟨h0, rfl⟩ | ⟨h0, ys, rfl, hys⟩ := follow_succ h
    · rw [if_pos h0]
      rfl
    · rw [if_neg h0]
      by_cases heq : n = index
      · rw [if_pos heq, heq, Nat.sub_self]
        rfl
      · rw [List.length_cons] at hn
        obtain ⟨d, hd⟩ : ∃ d, index - n = d + 1 := ⟨index - n - 1, by omega⟩
        have hd' : index - (n + 1) = d := by omega
        rw [if_neg heq, u32_of_lt (by omega), ih hys (by omega) (by omega), hd, hd',
          List.getElem?_cons_succ]

theorem linkedListFindFrom_eq (compare : ℕ → ℕ → Bool) (data : ℕ) :
    linkedListFindFrom nodes compare data k node =
      some ((xs.find? fun b => compare (nodes b).data data).getD 0) := by
  induction k generalizing node xs with
  | zero => exact nomatch h
  | succ k ih =>
    unfold linkedListFindFrom
    obtain ⟨h0, rfl⟩ | ⟨h0, ys, rfl, hys⟩ := follow_succ h
    · rw [if_pos h0]
      rfl
    · rw [if_neg h0, List.find?_cons]
      by_cases hc : compare (nodes node).data data = true
      · rw [if_pos hc, hc]
        rfl
      · rw [if_neg hc, ih hys, Bool.eq_false_iff.2 hc]

end

/-- **What `linked_list_size` returns** for a list that fits into the memory. -/
theorem ListMemory.Holds.size {s : ListMemory} {xs : List ℕ} (h : s.Holds xs)
    (hlen : xs.length < 2 ^ 32) {fuel : ℕ} (hfuel : xs.length < fuel) :
    linkedListSize fuel s = some xs.length := by
  rw [linkedListSize, linkedListSizeFrom_eq (h.follow_next hfuel) (by omega), Nat.zero_add]

/-- **What `linked_list_get` returns.** -/
theorem ListMemory.Holds.get {s : ListMemory} {xs : List ℕ} (h : s.Holds xs)
    (hlen : xs.length < 2 ^ 32) {fuel : ℕ} (hfuel : xs.length < fuel) (index : ℕ) :
    linkedListGet fuel s index = some (xs[index]?.getD 0) :=
  linkedListGetFrom_eq (h.follow_next hfuel) (by omega) (Nat.zero_le _)

/-- **What `linked_list_find` returns**: the first node that compares equal. -/
theorem ListMemory.Holds.find {s : ListMemory} {xs : List ℕ} (h : s.Holds xs) {fuel : ℕ}
    (hfuel : xs.length < fuel) (compare : ℕ → ℕ → Bool) (data : ℕ) :
    linkedListFind fuel s compare data =
      some ((xs.find? fun b => compare (s.nodes b).data data).getD 0) :=
  linkedListFindFrom_eq (h.follow_next hfuel) compare data

/-! ## The data -/

section
variable (s : ListMemory) (a b : ℕ)

@[simp] theorem linkedListAppend_data :
    ((linkedListAppend s a).nodes b).data = (s.nodes b).data := by
  unfold linkedListAppend
  split <;> simp

@[simp] theorem linkedListPrepend_data :
    ((linkedListPrepend s a).nodes b).data = (s.nodes b).data := by
  unfold linkedListPrepend
  split <;> simp

@[simp] theorem linkedListRemove_data :
    ((linkedListRemove s a).nodes b).data = (s.nodes b).data := by
  unfold linkedListRemove
  dsimp only
  split <;> split <;> simp

end

end Ttos
