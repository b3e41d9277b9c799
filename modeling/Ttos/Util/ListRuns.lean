/-
  A linked list over any history of calls.

  The client appends and prepends nodes that are not in the list, removes nodes that are,
  sorts, and writes to nodes that are not in the list (it creates them, or they are in
  another list).

  * `ListModel`: the list as its client thinks of it, and `ListModel.Run`, its histories.
  * `RepresentsLists.step`: one call keeps the representation.
  * `linked_list_represents`: every history does, and what the walks find in the end.
-/
import Ttos.Util.ListSort

namespace Ttos

/-! ## The calls -/

/-- A call on the list, or a write to a node. -/
inductive ListOp where
  | append (node : ℕ)
  | prepend (node : ℕ)
  | remove (node : ℕ)
  | sort (compare : ℕ → ℕ → ℤ)
  | write (node : ℕ) (value : LinkedListNode)

namespace ListOp

def run (fuel : ℕ) (s : ListMemory) : ListOp → Option ListMemory
  | append node => some (linkedListAppend s node)
  | prepend node => some (linkedListPrepend s node)
  | remove node => some (linkedListRemove s node)
  | sort compare => linkedListSortAt compare fuel s
  | write node value => some { s with nodes := Function.update s.nodes node value }

/-- When the client makes a call, by the nodes in the list. -/
def Allowed (order : List ℕ) : ListOp → Prop
  | append node | prepend node => 0 < node ∧ node < 2 ^ 32 ∧ node ∉ order
  | remove node => node ∈ order
  | sort _ => True
  | write node _ => node ∉ order

/-- What a call does to the nodes in the list. -/
def order (order : List ℕ) : ListOp → List ℕ
  | append node => order ++ [node]
  | prepend node => node :: order
  | remove node => order.erase node
  | sort _ | write _ _ => order

/-- What it does to the data. -/
def Data (order : List ℕ) (data data' : ℕ → ℕ) : ListOp → Prop
  | append _ | prepend _ | remove _ => data' = data
  | sort compare => (∀ b, b ∉ order → data' b = data b) ∧ (order.map data').Perm (order.map data) ∧
      (TotalPreorder compare → (order.map data').Pairwise fun a b => compare a b ≤ 0)
  | write node value => data' = Function.update data node value.data

/-- The client keeps to the rules in a history. -/
def AllowedAll : List ℕ → List ListOp → Prop
  | _, [] => True
  | xs, op :: ops => op.Allowed xs ∧ AllowedAll (op.order xs) ops

theorem length_order (xs : List ℕ) (op : ListOp) : (op.order xs).length ≤ xs.length + 1 := by
  cases op with
  | append a => exact Nat.le_of_eq (List.length_append ..)
  | prepend a => exact Nat.le_refl _
  | remove a => exact Nat.le_succ_of_le (List.length_erase_le ..)
  | sort compare => exact Nat.le_succ _
  | write a value => exact Nat.le_succ _

/-- Preparing a node is a write. -/
theorem run_createNode (fuel : ℕ) (s : ListMemory) (node data : ℕ) :
    (write node ⟨0, 0, data⟩).run fuel s = some (linkedListCreateNode s node data) := by
  refine congrArg (fun nodes => some { s with nodes }) (funext fun b => ?_)
  unfold Function.update ListNodes.setData ListNodes.setNext ListNodes.setPrev
  split <;> simp_all

end ListOp

/-! ## The list of the client -/

/-- The nodes in the list, and the data of all nodes. -/
structure ListModel where
  order : List ℕ
  data : ℕ → ℕ

namespace ListModel

structure Step (m : ListModel) (op : ListOp) (m' : ListModel) : Prop where
  order : m'.order = op.order m.order
  data : op.Data m.order m.data m'.data

inductive Run : ListModel → List ListOp → ListModel → Prop
  | nil {m : ListModel} : Run m [] m
  | cons {m m' m'' : ListModel} {op : ListOp} {ops : List ListOp} :
    m.Step op m' → Run m' ops m'' → Run m (op :: ops) m''

end ListModel

/-- The list in memory is the one of the client. -/
structure RepresentsLists (s : ListMemory) (m : ListModel) : Prop where
  holds : s.Holds m.order
  bound : ∀ b ∈ m.order, b < 2 ^ 32
  data : ∀ b, (s.nodes b).data = m.data b

/-- What the code can find out about the list, in at most `fuel` rounds. -/
structure Agrees (fuel : ℕ) (s : ListMemory) (m : ListModel) : Prop where
  forward : follow (fun b => (s.nodes b).next) 0 fuel s.list.head = some m.order
  backward : follow (fun b => (s.nodes b).prev) 0 fuel s.list.tail = some m.order.reverse
  empty : s.list.head = 0 ↔ s.list.tail = 0
  size : linkedListSize fuel s = some m.order.length
  get : ∀ index, linkedListGet fuel s index = some (m.order[index]?.getD 0)
  find : ∀ compare data, linkedListFind fuel s compare data =
    some ((m.order.find? fun b => compare (m.data b) data).getD 0)
  data : ∀ b, (s.nodes b).data = m.data b

namespace RepresentsLists

variable {s : ListMemory} {m : ListModel} {op : ListOp} {fuel : ℕ}

/-- A list fits into the memory. -/
theorem length_lt (h : RepresentsLists s m) : m.order.length < 2 ^ 32 := h.holds.length_lt h.bound

/-- The walks agree with the list of the client. -/
theorem agrees (h : RepresentsLists s m) (hfuel : m.order.length < fuel) : Agrees fuel s m where
  forward := h.holds.follow_next hfuel
  backward := h.holds.follow_prev hfuel
  empty := h.holds.head_eq_zero.trans h.holds.tail_eq_zero.symm
  size := h.holds.size h.length_lt hfuel
  get := h.holds.get h.length_lt hfuel
  find compare data := by
    rw [h.holds.find hfuel]
    simp only [h.data]
  data := h.data

theorem create (nodes : ListNodes) :
    RepresentsLists (linkedListCreate nodes) ⟨[], fun b => (nodes b).data⟩ :=
  ⟨.nil rfl, fun _ hb => absurd hb List.not_mem_nil, fun _ => rfl⟩

/-- A write to a node elsewhere. -/
theorem write {a : ℕ} (h : RepresentsLists s m) (ha : a ∉ m.order) (value : LinkedListNode) :
    RepresentsLists { s with nodes := Function.update s.nodes a value }
      ⟨m.order, Function.update m.data a value.data⟩ where
  holds := h.holds.frame rfl fun b hb =>
    Function.update_of_ne (show b ≠ a from fun heq => ha (heq ▸ hb)) ..
  bound := h.bound
  data b := by
    show (Function.update s.nodes a value b).data = Function.update m.data a value.data b
    by_cases hba : b = a
    · rw [hba, Function.update_self, Function.update_self]
    · rw [Function.update_of_ne hba, Function.update_of_ne hba, h.data]

/-- **One call** keeps the representation. -/
theorem step (h : RepresentsLists s m) (hop : op.Allowed m.order) (hfuel : m.order.length < fuel) :
    ∃ s' m', op.run fuel s = some s' ∧ m.Step op m' ∧ RepresentsLists s' m' := by
  cases op with
  | append a =>
    obtain ⟨h0, hlt, ha⟩ := hop
    refine ⟨_, ⟨m.order ++ [a], m.data⟩, rfl, ⟨rfl, rfl⟩, h.holds.append (by omega) ha, ?_, ?_⟩
    · intro b hb
      rcases List.mem_append.1 hb with hb | hb
      · exact h.bound b hb
      · exact List.mem_singleton.1 hb ▸ hlt
    · exact fun b => (linkedListAppend_data s a b).trans (h.data b)
  | prepend a =>
    obtain ⟨h0, hlt, ha⟩ := hop
    refine ⟨_, ⟨a :: m.order, m.data⟩, rfl, ⟨rfl, rfl⟩, h.holds.prepend (by omega) ha, ?_, ?_⟩
    · intro b hb
      rcases List.mem_cons.1 hb with rfl | hb
      · exact hlt
      · exact h.bound b hb
    · exact fun b => (linkedListPrepend_data s a b).trans (h.data b)
  | remove a =>
    obtain ⟨xs, ys, hxs⟩ := List.append_of_mem (show a ∈ m.order from hop)
    have hn := (List.nodup_cons.1 h.holds.nodup).2
    have herase : m.order.erase a = xs ++ ys := by
      rw [hxs] at hn ⊢
      have ha : a ∉ xs := fun hm => (List.nodup_append.1 hn).2.2 a hm a (List.mem_cons_self ..) rfl
      rw [List.erase_append_right _ ha, List.erase_cons_head]
    refine ⟨_, ⟨m.order.erase a, m.data⟩, rfl, ⟨rfl, rfl⟩, ?_, ?_, ?_⟩
    · rw [herase]
      exact (hxs ▸ h.holds).remove
    · exact fun b hb => h.bound b (List.mem_of_mem_erase hb)
    · exact fun b => (linkedListRemove_data s a b).trans (h.data b)
  | sort compare =>
    obtain ⟨s', hrun, hlist, hfill⟩ := h.holds.sort compare hfuel
    have hcol (s : ListMemory) (m : ListModel) (hd : ∀ b, (s.nodes b).data = m.data b)
        (xs : List ℕ) : s.nodes.column xs = xs.map m.data := List.map_congr_left fun b _ => hd b
    have hdata : m.order.map (fun b => (s'.nodes b).data) =
        linkedListSort compare (m.order.map m.data) :=
      hfill.column.trans (congrArg _ (hcol s m h.data m.order))
    refine ⟨s', ⟨m.order, fun b => (s'.nodes b).data⟩, hrun, ⟨rfl, ?_, ?_, ?_⟩,
      h.holds.refilled hlist hfill, h.bound, fun _ => rfl⟩
    · exact fun b hb => (hfill.data b hb).trans (h.data b)
    · rw [hdata]
      exact linkedListSort_perm _ _
    · intro hcompare
      rw [hdata]
      exact hcompare.sorted _
  | write a value =>
    exact ⟨_, ⟨m.order, Function.update m.data a value.data⟩, rfl, ⟨rfl, rfl⟩, h.write hop value⟩

/-- **A history** keeps it. -/
theorem run {ops : List ListOp} (h : RepresentsLists s m) (hops : ListOp.AllowedAll m.order ops)
    (hfuel : m.order.length + ops.length < fuel) : ∃ s' m',
      ops.foldlM (ListOp.run fuel) s = some s' ∧ m.Run ops m' ∧ RepresentsLists s' m' ∧
        m'.order.length ≤ m.order.length + ops.length := by
  induction ops generalizing s m with
  | nil => exact ⟨s, m, rfl, .nil, h, Nat.le_refl _⟩
  | cons op ops ih =>
    rw [List.length_cons] at hfuel ⊢
    obtain ⟨s₁, m₁, hrun₁, hstep, h₁⟩ := h.step hops.1 (by omega : m.order.length < fuel)
    have hlen := op.length_order m.order
    rw [← hstep.order] at hlen
    obtain ⟨s', m', hrun, hruns, h', hlen'⟩ := ih h₁ (hstep.order ▸ hops.2) (by omega)
    refine ⟨s', m', ?_, .cons hstep hruns, h', by omega⟩
    rw [List.foldlM_cons, hrun₁]
    exact hrun

end RepresentsLists

/-- **A linked list is the list of its client** after every history of calls. -/
theorem linked_list_represents (nodes : ListNodes) (ops : List ListOp)
    (hops : ListOp.AllowedAll [] ops) (fuel : ℕ) (hfuel : ops.length < fuel) :
    ∃ s m, ops.foldlM (ListOp.run fuel) (linkedListCreate nodes) = some s ∧
      ListModel.Run ⟨[], fun b => (nodes b).data⟩ ops m ∧ Agrees fuel s m := by
  obtain ⟨s, m, hrun, hruns, h, hlen⟩ := (RepresentsLists.create nodes).run hops
    (by simpa using hfuel : ([] : List ℕ).length + ops.length < fuel)
  rw [List.length_nil] at hlen
  exact ⟨s, m, hrun, hruns, h.agrees (by omega)⟩

/-- Two nodes are appended and prepended, sorted by their data, and the first one taken out. -/
theorem linked_list_represents_four_calls :
    ∃ s m, [ListOp.append 4, .prepend 8, .sort fun a b => (a : ℤ) - b, .remove 4].foldlM
        (ListOp.run 5) (linkedListCreate twoNodes.nodes) = some s ∧
      ListModel.Run ⟨[], fun b => (twoNodes.nodes b).data⟩
        [.append 4, .prepend 8, .sort fun a b => (a : ℤ) - b, .remove 4] m ∧ Agrees 5 s m :=
  linked_list_represents twoNodes.nodes _ (by simp [ListOp.AllowedAll, ListOp.Allowed, ListOp.order])
    5 (by decide)

end Ttos
