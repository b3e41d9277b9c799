/-
  A tree over any history of calls.

  `generic_tree_remove` leaves the sibling link of the node as it was, and
  `generic_tree_insert` does not write it either.  So a node that was taken out from in front
  of a sibling brings that sibling along when it is put in again.

  * `TreeWorld`: the tree, the trees taken out of it or not yet put in, and which of these
    have such a link.
  * `RepresentsTrees.insert`, `RepresentsTrees.remove`: the calls keep the representation if no
    such node is put in.
  * `generic_tree_represents`: every history does, and what the traversals visit in the end.
-/
import Ttos.Lib.Ring
import Ttos.Util.GenericTree

namespace Ttos

/-! ## The trees of the client -/

/-- Separate trees, the tree of `generic_tree_t` first; the nodes that still link to a sibling
    they were taken out in front of; and the data. -/
structure TreeWorld where
  forest : Forest ℕ
  stale : ℕ → Bool
  data : ℕ → ℕ

inductive TreeOp where
  | insert (parent node : ℕ)
  | remove (node : ℕ)
  | create (node data : ℕ)
deriving DecidableEq, Repr

namespace TreeOp

def run (fuel : ℕ) (s : TreeMemory) : TreeOp → Option TreeMemory
  | insert parent node => (genericTreeInsert fuel s.nodes parent node).map ({ s with nodes := · })
  | remove node => genericTreeRemove fuel s node
  | create node data => some (genericTreeCreateNode s node data)

/-- When the client makes a call: it inserts a node that is in no tree below a node that is
    not below it, removes a node that is in a tree, and creates a new one. -/
def Allowed (w : TreeWorld) : TreeOp → Prop
  | insert parent node => node ∈ w.forest.roots.tail ∧ parent ∈ (w.forest.erase node).nodes
  | remove node => node ∈ w.forest.nodes ∧ node ∉ w.forest.roots
  | create node _ => node ≠ 0 ∧ node ∉ w.forest.nodes

/-- The node does not link to a former sibling. -/
def Meets (w : TreeWorld) : TreeOp → Prop
  | insert _ node => w.stale node = false
  | _ => True

/-- What a call does. -/
def apply (w : TreeWorld) : TreeOp → TreeWorld
  | insert parent node =>
    match w.forest.locate node with
    | some (kids, _) =>
      { w with forest := (w.forest.erase node).mapKids parent (·.append (.cons node kids .nil)) }
    | none => w
  | remove node =>
    match w.forest.locate node with
    | some (kids, sibs) =>
      { w with
        forest := (w.forest.erase node).append (.cons node kids .nil)
        stale := Function.update w.stale node (sibs ≠ .nil) }
    | none => w
  | create node data =>
    { forest := w.forest.append (.cons node .nil .nil)
      stale := Function.update w.stale node false
      data := Function.update w.data node data }

/-- All calls of a history satisfy `P`. -/
def Along (P : TreeWorld → TreeOp → Prop) : TreeWorld → List TreeOp → Prop
  | _, [] => True
  | w, op :: ops => P w op ∧ Along P (op.apply w) ops

end TreeOp

namespace TreeWorld

/-- The nodes of the tree, in pre-order. -/
def preorder (w : TreeWorld) : List ℕ :=
  match w.forest with
  | .nil => []
  | .cons root kids _ => root :: kids.nodes

end TreeWorld

/-- The trees in memory are those of the client. -/
structure RepresentsTrees (s : TreeMemory) (w : TreeWorld) : Prop where
  root : w.forest.roots.head? = some s.root
  nodup : w.forest.nodes.Nodup
  rooted : Rooted s.nodes.links 0 w.forest
  clean : ∀ a ∈ w.forest.roots.tail, w.stale a = false → (s.nodes a).next = 0
  data : ∀ b, (s.nodes b).data = w.data b

/-- What the code can find out about the trees, in at most `fuel` rounds. -/
structure AgreesTrees (fuel : ℕ) (s : TreeMemory) (w : TreeWorld) : Prop where
  nodup : w.forest.nodes.Nodup
  children : ∀ p k r, w.forest.locate p = some (k, r) →
    follow (fun b => (s.nodes b).next) 0 fuel (s.nodes p).children = some k.roots ∧
      ∀ c ∈ k.roots, (s.nodes c).parent = p
  parent : ∀ a ∈ w.forest.nodes, a ∈ w.forest.roots ∧ (s.nodes a).parent = 0 ∨
    ∃ k r, w.forest.locate (s.nodes a).parent = some (k, r) ∧ a ∈ k.roots
  foreach : ∀ {σ : Type} (callback : σ → ℕ → σ) (userdata : σ),
    genericTreeForeach fuel s callback userdata = some (w.preorder.foldl callback userdata)
  find : ∀ compare data, genericTreeFind fuel s compare data =
    some ((w.preorder.find? fun b => compare (w.data b) data).getD 0)
  data : ∀ b, (s.nodes b).data = w.data b

/-- The walk over siblings. -/
theorem follow_roots {nodes : TreeNodes} {q first : ℕ} {f : Forest ℕ} {fuel : ℕ}
    (h : Wired nodes.links 0 q first f) (hfuel : f.nodes.length < fuel) :
    follow (fun b => (nodes b).next) 0 fuel first = some f.roots := by
  induction f generalizing first fuel with
  | nil =>
    obtain ⟨fuel, rfl⟩ := Nat.exists_eq_add_one_of_ne_zero (by omega : fuel ≠ 0)
    rw [follow, if_pos (show first = 0 from h)]
    rfl
  | cons c kids sibs _ ih =>
    obtain ⟨rfl, h0, -, -, hs⟩ := h
    rw [Forest.nodes, List.length_cons, List.length_append] at hfuel
    obtain ⟨fuel, rfl⟩ := Nat.exists_eq_add_one_of_ne_zero (by omega : fuel ≠ 0)
    have hwalk : follow (fun b => (nodes b).next) 0 fuel (nodes first).next = some sibs.roots :=
      ih hs (by omega)
    rw [follow, if_neg h0, hwalk]
    rfl

namespace RepresentsTrees

variable {s : TreeMemory} {w : TreeWorld} {fuel a p : ℕ} {k r : Forest ℕ}

theorem length_le (h : RepresentsTrees s w) (hk : w.forest.locate p = some (k, r)) :
    k.nodes.length < w.forest.nodes.length := by
  obtain ⟨xs, ys, h1, -⟩ := Forest.nodes_erase h.nodup hk
  rw [h1, List.length_append, List.length_cons, List.length_append]
  omega

theorem roots_ne_nil (h : RepresentsTrees s w) : w.forest.roots ≠ [] := by
  intro h0
  have hroot := h.root
  rw [h0] at hroot
  exact nomatch hroot

theorem roots_eq (h : RepresentsTrees s w) :
    w.forest.roots = s.root :: w.forest.roots.tail ∧ s.root ∉ w.forest.roots.tail := by
  have hroots : w.forest.roots = s.root :: w.forest.roots.tail :=
    (List.cons_head?_tail h.root).symm
  have hn := h.nodup.sublist w.forest.roots_sublist
  rw [hroots] at hn
  exact ⟨hroots, (List.nodup_cons.1 hn).1⟩

/-- The first tree stays the first one. -/
theorem roots_erase_eq (h : RepresentsTrees s w) (ha : a ≠ s.root) :
    (w.forest.erase a).roots = s.root :: w.forest.roots.tail.erase a := by
  rw [Forest.roots_erase, h.roots_eq.1, List.erase_cons_tail (by simpa using Ne.symm ha),
    List.tail_cons]

/-- The trees beside the first one, after one more was added. -/
theorem mem_tail_append {b : ℕ} (h : RepresentsTrees s w)
    (hb : b ∈ (w.forest.append (.cons a k .nil)).roots.tail) (hba : b ≠ a) :
    b ∈ w.forest.roots.tail := by
  rw [Forest.roots_append, List.tail_append_of_ne_nil h.roots_ne_nil] at hb
  exact (List.mem_append.1 hb).resolve_right fun hm => hba (List.mem_singleton.1 hm)

/-- The traversals agree with the tree of the client. -/
theorem agrees (h : RepresentsTrees s w) (hfuel : 2 * w.forest.nodes.length + 1 < fuel) :
    AgreesTrees fuel s w := by
  have hroot := h.root
  have hrooted := h.rooted
  obtain ⟨root, kids, rest, hf⟩ : ∃ root kids rest, w.forest = .cons root kids rest := by
    cases hf : w.forest with
    | nil => rw [hf] at hroot; exact nomatch hroot
    | cons root kids rest => exact ⟨root, kids, rest, rfl⟩
  have hlen : w.forest.nodes.length = kids.nodes.length + rest.nodes.length + 1 := by
    rw [hf, Forest.nodes, List.length_cons, List.length_append]
  rw [hf] at hroot hrooted
  have hr : root = s.root := Option.some.inj hroot
  have h0 : s.root ≠ 0 := hr ▸ hrooted.1
  have hkids : Wired s.nodes.links 0 s.root (s.nodes s.root).children kids := hr ▸ hrooted.2.2.1
  have hpre : w.preorder = s.root :: kids.nodes := by rw [TreeWorld.preorder, hf, ← hr]
  refine ⟨h.nodup, fun p k r hk => ?_, fun a ha => h.rooted.parent_cases h.nodup ha,
    fun callback userdata => ?_, fun compare data => ?_, h.data⟩
  · have hst := (h.rooted.locate hk).1
    have hlt := h.length_le hk
    exact ⟨follow_roots hst (by omega), fun c hc => hst.parent_of_root hc⟩
  · rw [genericTreeForeach_eq callback userdata h0 hkids (by omega), hpre]
  · rw [genericTreeFind_eq compare data h0 hkids (by omega), hpre]
    simp only [h.data]

/-- **`generic_tree_create_node`** makes a new tree of one node. -/
theorem create (h : RepresentsTrees s w) (h0 : a ≠ 0) (ha : a ∉ w.forest.nodes) (data : ℕ) :
    RepresentsTrees (genericTreeCreateNode s a data) ((TreeOp.create a data).apply w) where
  root := by
    show (w.forest.append _).roots.head? = some s.root
    rw [Forest.roots_append, List.head?_append, h.root]
    rfl
  nodup := by
    show (w.forest.append _).nodes.Nodup
    rw [Forest.nodes_append, List.nodup_append]
    refine ⟨h.nodup, List.nodup_singleton a, fun b hb c hc hbc => ?_⟩
    rw [List.mem_singleton.1 hc] at hbc
    exact ha (hbc ▸ hb)
  rooted := by
    refine (h.rooted.congr fun b hb => ?_).append ⟨h0, ?_, ?_, trivial⟩
    · have hne : b ≠ a := fun heq => ha (heq ▸ hb)
      simp [TreeNodes.links, genericTreeCreateNode, Function.update_of_ne hne]
    · simp [TreeNodes.links, genericTreeCreateNode]
    · simp [TreeNodes.links, genericTreeCreateNode, Wired]
  clean := by
    intro b hb hstale
    show (Function.update s.nodes a _ b).next = 0
    by_cases hba : b = a
    · rw [hba, Function.update_self]
    · rw [Function.update_of_ne hba]
      refine h.clean b (h.mem_tail_append hb hba) ?_
      exact (Function.update_of_ne hba ..).symm.trans hstale
  data b := by
    show (Function.update s.nodes a _ b).data = Function.update w.data a data b
    by_cases hba : b = a
    · rw [hba, Function.update_self, Function.update_self]
    · rw [Function.update_of_ne hba, Function.update_of_ne hba, h.data]

/-- **`generic_tree_insert`** puts a tree behind the children of a node, if its root does not
    link to a former sibling. -/
theorem insert (h : RepresentsTrees s w) (ha : a ∈ w.forest.roots.tail)
    (hp : p ∈ (w.forest.erase a).nodes) (hstale : w.stale a = false)
    (hfuel : w.forest.nodes.length ≤ fuel) :
    ∃ s', (TreeOp.insert p a).run fuel s = some s' ∧
      RepresentsTrees s' ((TreeOp.insert p a).apply w) ∧
        ((TreeOp.insert p a).apply w).forest.nodes.length = w.forest.nodes.length := by
  have haf : a ∈ w.forest.nodes := w.forest.roots_sublist.subset (List.mem_of_mem_tail ha)
  have har : a ≠ s.root := fun heq => h.roots_eq.2 (heq ▸ ha)
  obtain ⟨k, r, hk⟩ := Forest.exists_locate haf
  have hrest := h.rooted.erase h.nodup (List.mem_of_mem_tail ha)
  have hn := Forest.nodup_erase h.nodup hk
  have hout {b : ℕ} (hb : b ∈ (w.forest.erase a).nodes) : b ≠ a ∧ b ∉ k.nodes :=
    not_or.1 fun hm => (Forest.disjoint_erase h.nodup hk hb).2 (List.mem_cons.2 hm)
  obtain ⟨kp, rp, hkp⟩ := Forest.exists_locate hp
  have hin {b : ℕ} (hb : b ∈ p :: kp.nodes) : b ∈ (w.forest.erase a).nodes :=
    Forest.mem_of_locate hn hkp hb
  have hlast {b : ℕ} (hb : kp.roots.getLast? = some b) : b ∈ kp.nodes :=
    kp.roots_sublist.subset (List.mem_of_getLast? hb)
  obtain ⟨hpk, hkpn⟩ := List.nodup_cons.1 (Forest.nodup_locate hn hkp)
  have hstp := (hrest.locate hkp).1
  have hperm : ((w.forest.erase a).mapKids p (·.append (.cons a k .nil))).nodes.Perm
      w.forest.nodes := by
    refine (Forest.nodes_graft_perm hn hkp _).trans ?_
    rw [Forest.nodes, Forest.nodes, List.append_nil]
    exact Forest.nodes_erase_perm h.nodup hk
  have hlen : kp.nodes.length ≤ fuel := by
    have hle := (Forest.nodes_erase_perm hn hkp).length_eq
    have hle' := (Forest.nodes_erase_perm h.nodup hk).length_eq
    rw [List.length_append, List.length_cons] at hle hle'
    omega
  obtain ⟨nodes', hrun, hedit⟩ := genericTreeInsert_eq (a := a) hstp hlen
  -- Outside of the node and its new parent, only the last child is written.
  have hlinks {b : ℕ} (hba : b ≠ a) (hbp : b ≠ p) : nodes'.links b = { s.nodes.links b with
      next := if kp.roots.getLast? = some b then a else (s.nodes.links b).next } := by
    simp [TreeNodes.links, hedit, hba, hbp]
  have hsame {b : ℕ} (hba : b ≠ a) (hb : b ∉ p :: kp.nodes) : nodes'.links b = s.nodes.links b := by
    rw [List.mem_cons, not_or] at hb
    rw [hlinks hba hb.1, if_neg fun hl => hb.2 (hlast hl)]
  have hap : a ≠ p := fun heq => (hout hp).1 heq.symm
  have hal : kp.roots.getLast? ≠ some a := fun hl =>
    (hout (hin (List.mem_cons_of_mem _ (hlast hl)))).1 rfl
  have htree : Wired nodes'.links 0 p a (.cons a k .nil) := by
    refine ⟨rfl, fun h0 => h.rooted.ne_null (h0 ▸ haf), ?_, ?_, ?_⟩
    · simp [TreeNodes.links, hedit]
    · have hchild : (nodes'.links a).child = (s.nodes.links a).child := by
        simp [TreeNodes.links, hedit, hap]
      rw [hchild]
      refine (h.rooted.locate hk).1.congr fun b hb => hsame ?_ fun hm => (hout (hin hm)).2 hb
      rintro rfl
      exact (List.nodup_cons.1 (Forest.nodup_locate h.nodup hk)).1 hb
    · show (nodes' a).next = 0
      rw [hedit]
      exact (if_neg hal).trans (h.clean a ha hstale)
  have happly : (TreeOp.insert p a).apply w = { w with
      forest := (w.forest.erase a).mapKids p (·.append (.cons a k .nil)) } := by
    simp only [TreeOp.apply, hk]
  rw [happly]
  refine ⟨{ s with nodes := nodes' }, by rw [TreeOp.run, hrun]; rfl, ?_, hperm.length_eq⟩
  refine ⟨?_, hperm.nodup_iff.2 h.nodup, ?_, ?_, ?_⟩
  · show ((w.forest.erase a).mapKids p _).roots.head? = some s.root
    rw [Forest.roots_mapKids, h.roots_erase_eq har]
    rfl
  · refine hrest.mapKids hn hkp (fun b hb hbp => hsame (hout hb).1 hbp) ?_ ?_ ?_
    · simp [TreeNodes.links, hedit, Ne.symm hap]
    · have hpl : kp.roots.getLast? ≠ some p := fun hl => hpk (hlast hl)
      simp [TreeNodes.links, hedit, hpl]
    · have hchild : (nodes'.links p).child = if kp.roots = [] then a else (s.nodes p).children := by
        simp [TreeNodes.links, hedit]
      rw [hchild]
      refine hstp.append hkpn htree fun b hb => hlinks ?_ ?_
      · exact (hout (hin (List.mem_cons_of_mem _ hb))).1
      · exact fun heq => hpk (heq ▸ hb)
  · intro b hb hbs
    have hbt : b ∈ w.forest.roots.tail.erase a := by
      have hbt : b ∈ ((w.forest.erase a).mapKids p _).roots.tail := hb
      rwa [Forest.roots_mapKids, h.roots_erase_eq har] at hbt
    have hbt := List.mem_of_mem_erase hbt
    have hbl : kp.roots.getLast? ≠ some b := fun hl => by
      have hparent := hstp.parent_of_root (List.mem_of_getLast? hl)
      rw [h.rooted.parent_of_root (List.mem_of_mem_tail hbt)] at hparent
      exact hrest.ne_null (hparent ▸ hp)
    show (nodes' b).next = 0
    rw [hedit]
    exact (if_neg hbl).trans (h.clean b hbt hbs)
  · intro b
    show (nodes' b).data = w.data b
    rw [hedit]
    exact h.data b

/-- **`generic_tree_remove`** makes a tree of its own of a node and what lies below it. -/
theorem remove (h : RepresentsTrees s w) (ha : a ∈ w.forest.nodes) (har : a ∉ w.forest.roots)
    (hfuel : w.forest.nodes.length ≤ fuel) :
    ∃ s', (TreeOp.remove a).run fuel s = some s' ∧
      RepresentsTrees s' ((TreeOp.remove a).apply w) ∧
        ((TreeOp.remove a).apply w).forest.nodes.length = w.forest.nodes.length := by
  obtain ⟨k, r, hk⟩ := Forest.exists_locate ha
  obtain ⟨kq, rq, hkq, hak⟩ := (h.rooted.parent_cases h.nodup ha).resolve_left fun hr => har hr.1
  obtain ⟨xs, ys, hroots⟩ := List.append_of_mem hak
  obtain ⟨q, hq⟩ : ∃ q, (s.nodes a).parent = q := ⟨_, rfl⟩
  have hq' : (s.nodes.links a).parent = q := hq
  rw [hq'] at hkq
  have hstq := (h.rooted.locate hkq).1
  obtain ⟨hqk, hkqn⟩ := List.nodup_cons.1 (Forest.nodup_locate h.nodup hkq)
  have hakq : a ∈ kq.nodes := kq.roots_sublist.subset hak
  have hxs {b : ℕ} (hb : xs.getLast? = some b) : b ∈ kq.roots ∧ b ≠ a := by
    have hmem := List.mem_of_getLast? hb
    have hn := hkqn.sublist kq.roots_sublist
    rw [hroots] at hn ⊢
    exact ⟨List.mem_append_left _ hmem, (List.nodup_append.1 hn).2.2 b hmem a (List.mem_cons_self ..)⟩
  have hlen : kq.nodes.length ≤ fuel := by
    have hlt := h.length_le hkq
    omega
  have hqf : q ∈ w.forest.nodes := Forest.mem_of_locate h.nodup hkq (List.mem_cons_self ..)
  have hq0 : q ≠ 0 := fun h0 => h.rooted.ne_null (h0 ▸ hqf)
  have hqa : q ≠ a := fun heq => hqk (heq ▸ hakq)
  have hroot : s.root ≠ a := fun heq => har (heq ▸ h.roots_eq.1 ▸ List.mem_cons_self ..)
  obtain ⟨s', hrun, hroot', hedit⟩ := genericTreeRemove_eq hq hq0 hroot hstq
    (hkqn.sublist kq.roots_sublist) hroots hlen
  have herase := Forest.erase_eq_mapKids h.nodup hkq hakq
  -- Outside of the node and its old parent, only the child before it is written.
  have hlinks {b : ℕ} (hba : b ≠ a) (hbq : b ≠ q) : s'.nodes.links b = { s.nodes.links b with
      next := if xs.getLast? = some b then (s.nodes a).next else (s.nodes.links b).next } := by
    simp [TreeNodes.links, hedit, hba, hbq]
  have hrest : Rooted s'.nodes.links 0 (w.forest.erase a) := by
    rw [herase]
    refine h.rooted.mapKids h.nodup hkq (fun b hb hbq => ?_) ?_ ?_ ?_
    · rw [List.mem_cons, not_or] at hbq
      rw [hlinks (show b ≠ a from fun heq => hbq.2 (heq ▸ hakq)) hbq.1,
        if_neg fun hl => hbq.2 (kq.roots_sublist.subset (hxs hl).1)]
    · simp [TreeNodes.links, hedit, hqa]
    · have hql : xs.getLast? ≠ some q := fun hl => hqk (kq.roots_sublist.subset (hxs hl).1)
      simp [TreeNodes.links, hedit, hql]
    · have hchild : (s'.nodes.links q).child =
          if xs = [] then (s.nodes a).next else (s.nodes q).children := by
        simp [TreeNodes.links, hedit]
      rw [hchild]
      exact hstq.erase hkqn hroots fun b hb hba => hlinks hba fun heq => hqk (heq ▸ hb)
  have hout {b : ℕ} (hb : b ∈ (w.forest.erase a).nodes) : b ≠ a ∧ b ∉ k.nodes :=
    not_or.1 fun hm => (Forest.disjoint_erase h.nodup hk hb).2 (List.mem_cons.2 hm)
  have hqe : q ∈ (w.forest.erase a).nodes := by
    obtain ⟨us, vs, -, h2⟩ := Forest.nodes_mapKids h.nodup hkq (·.erase a)
    rw [herase, h2]
    exact List.mem_append_right _ (List.mem_cons_self ..)
  have hle {b : ℕ} (hb : xs.getLast? = some b) : b ∈ (w.forest.erase a).nodes := by
    obtain ⟨us, vs, -, h2⟩ := Forest.nodes_mapKids h.nodup hkq (·.erase a)
    have hbk : b ∈ (kq.erase a).nodes := by
      refine (kq.erase a).roots_sublist.subset ?_
      rw [Forest.roots_erase]
      exact (List.mem_erase_of_ne (hxs hb).2).2 (hxs hb).1
    rw [herase, h2]
    exact List.mem_append_right _ (List.mem_cons_of_mem _ (List.mem_append_left _ hbk))
  have hal : xs.getLast? ≠ some a := fun hl => (hxs hl).2 rfl
  have htree : Rooted s'.nodes.links 0 (.cons a k .nil) := by
    refine ⟨fun h0 => h.rooted.ne_null (h0 ▸ ha), by simp [TreeNodes.links, hedit], ?_, trivial⟩
    have hchild : (s'.nodes.links a).child = (s.nodes.links a).child := by
      simp [TreeNodes.links, hedit, Ne.symm hqa]
    rw [hchild]
    refine (h.rooted.locate hk).1.congr fun b hb => ?_
    have hba : b ≠ a := fun heq =>
      (List.nodup_cons.1 (Forest.nodup_locate h.nodup hk)).1 (heq ▸ hb)
    rw [hlinks hba fun heq => (hout hqe).2 (heq ▸ hb), if_neg fun hl => (hout (hle hl)).2 hb]
  have hperm : ((w.forest.erase a).append (.cons a k .nil)).nodes.Perm w.forest.nodes := by
    rw [Forest.nodes_append, Forest.nodes, Forest.nodes, List.append_nil]
    exact List.perm_append_comm.trans (Forest.nodes_erase_perm h.nodup hk)
  have happly : (TreeOp.remove a).apply w = { w with
      forest := (w.forest.erase a).append (.cons a k .nil)
      stale := Function.update w.stale a (r ≠ .nil) } := by
    simp only [TreeOp.apply, hk]
  rw [happly]
  refine ⟨s', hrun, ⟨?_, hperm.nodup_iff.2 h.nodup, hrest.append htree, ?_, ?_⟩, hperm.length_eq⟩
  · show ((w.forest.erase a).append _).roots.head? = some s'.root
    rw [Forest.roots_append, h.roots_erase_eq (Ne.symm hroot), hroot']
    rfl
  · intro b hb hbs
    show (s'.nodes b).next = 0
    rw [hedit]
    by_cases hba : b = a
    · subst hba
      have hr : r = .nil := by simpa using hbs
      have hnext := (h.rooted.locate hk).2 har
      rw [hr] at hnext
      exact (if_neg hal).trans hnext
    · have hbt : b ∈ w.forest.roots.tail := by
        have hbt : b ∈ ((w.forest.erase a).append (.cons a k .nil)).roots.tail := hb
        rw [Forest.roots_append, Forest.roots_erase, List.erase_of_not_mem har,
          List.tail_append_of_ne_nil h.roots_ne_nil] at hbt
        exact (List.mem_append.1 hbt).resolve_right fun hm => hba (List.mem_singleton.1 hm)
      have hbl : xs.getLast? ≠ some b := fun hl => by
        have hparent := hstq.parent_of_root (hxs hl).1
        rw [h.rooted.parent_of_root (List.mem_of_mem_tail hbt)] at hparent
        exact hq0 hparent.symm
      exact (if_neg hbl).trans (h.clean b hbt ((Function.update_of_ne hba ..).symm.trans hbs))
  · intro b
    show (s'.nodes b).data = w.data b
    rw [hedit]
    exact h.data b

/-- **One call** keeps the representation. -/
theorem step {op : TreeOp} (h : RepresentsTrees s w) (hop : op.Allowed w) (hmeets : op.Meets w)
    (hfuel : w.forest.nodes.length ≤ fuel) : ∃ s', op.run fuel s = some s' ∧
      RepresentsTrees s' (op.apply w) ∧
        (op.apply w).forest.nodes.length ≤ w.forest.nodes.length + 1 := by
  cases op with
  | insert p a =>
    obtain ⟨s', hrun, h', hlen⟩ := h.insert hop.1 hop.2 hmeets hfuel
    exact ⟨s', hrun, h', by omega⟩
  | remove a =>
    obtain ⟨s', hrun, h', hlen⟩ := h.remove hop.1 hop.2 hfuel
    exact ⟨s', hrun, h', by omega⟩
  | create a data =>
    refine ⟨_, rfl, h.create hop.1 hop.2 data, ?_⟩
    show (w.forest.append _).nodes.length ≤ _
    rw [Forest.nodes_append, List.length_append]
    exact Nat.le_refl _

/-- **A history** keeps it. -/
theorem run {ops : List TreeOp} (h : RepresentsTrees s w) (hops : TreeOp.Along TreeOp.Allowed w ops)
    (hmeets : TreeOp.Along TreeOp.Meets w ops) (hfuel : w.forest.nodes.length + ops.length ≤ fuel) :
    ∃ s', ops.foldlM (TreeOp.run fuel) s = some s' ∧
      RepresentsTrees s' (ops.foldl (fun w op => op.apply w) w) ∧
        (ops.foldl (fun w op => op.apply w) w).forest.nodes.length ≤
          w.forest.nodes.length + ops.length := by
  induction ops generalizing s w with
  | nil => exact ⟨s, rfl, h, Nat.le_refl _⟩
  | cons op ops ih =>
    rw [List.length_cons] at hfuel ⊢
    obtain ⟨s₁, hrun₁, h₁, hlen₁⟩ := h.step hops.1 hmeets.1 (by omega : _ ≤ fuel)
    obtain ⟨s', hrun, h', hlen⟩ := ih h₁ hops.2 hmeets.2 (by omega)
    refine ⟨s', ?_, h', by rw [List.foldl_cons]; omega⟩
    rw [List.foldlM_cons, hrun₁]
    exact hrun

end RepresentsTrees

/-- **The trees in memory are those of the client** after every history of calls that inserts
    no node which was removed from in front of a sibling. -/
theorem generic_tree_represents {s : TreeMemory} {w : TreeWorld} (h : RepresentsTrees s w)
    (ops : List TreeOp) (hops : TreeOp.Along TreeOp.Allowed w ops)
    (hmeets : TreeOp.Along TreeOp.Meets w ops) (fuel : ℕ)
    (hfuel : 2 * (w.forest.nodes.length + ops.length) + 1 < fuel) :
    ∃ s', ops.foldlM (TreeOp.run fuel) s = some s' ∧
      AgreesTrees fuel s' (ops.foldl (fun w op => op.apply w) w) := by
  obtain ⟨s', hrun, h', hlen⟩ := h.run hops hmeets
    (by omega : w.forest.nodes.length + ops.length ≤ fuel)
  exact ⟨s', hrun, h'.agrees (by omega)⟩

/-- A root with two children, in memory and for the client. -/
def twoChildren : TreeMemory where
  nodes b := if b = 4 then ⟨0, 8, 0, 1⟩ else if b = 8 then ⟨4, 0, 12, 2⟩
    else if b = 12 then ⟨4, 0, 0, 3⟩ else ⟨0, 0, 0, 0⟩
  root := 4

def twoChildrenWorld : TreeWorld where
  forest := .cons 4 (.cons 8 .nil (.cons 12 .nil .nil)) .nil
  stale _ := false
  data b := (twoChildren.nodes b).data

theorem twoChildren_represents : RepresentsTrees twoChildren twoChildrenWorld where
  root := rfl
  nodup := by decide
  rooted := by simp [twoChildrenWorld, Rooted, Wired, TreeNodes.links, twoChildren]
  clean := by simp [twoChildrenWorld, Forest.roots]
  data _ := rfl

/-- The second child is taken out, put back and found behind the first one. -/
theorem generic_tree_represents_twoChildren :
    ∃ s', [TreeOp.remove 12, .insert 4 12].foldlM (TreeOp.run 12) twoChildren = some s' ∧
      AgreesTrees 12 s'
        ([TreeOp.remove 12, .insert 4 12].foldl (fun w op => op.apply w) twoChildrenWorld) :=
  generic_tree_represents twoChildren_represents _
    (by simp [TreeOp.Along, TreeOp.Allowed, TreeOp.apply, twoChildrenWorld, Forest.nodes,
      Forest.roots, Forest.locate, Forest.erase, Forest.append])
    (by simp [TreeOp.Along, TreeOp.Meets, TreeOp.apply, twoChildrenWorld, Forest.locate]) 12
    (by decide)

/-- Both children are taken out and the first one is put back: the traversal visits the second
    one again. -/
theorem generic_tree_former_sibling :
    let ops := [TreeOp.remove 8, .remove 12, .insert 4 8]
    RepresentsTrees twoChildren twoChildrenWorld ∧
      TreeOp.Along TreeOp.Allowed twoChildrenWorld ops ∧
      (ops.foldl (fun w op => op.apply w) twoChildrenWorld).preorder = [4, 8] ∧
      (ops.foldlM (TreeOp.run 20) twoChildren).bind (fun s =>
        genericTreeForeach 20 s (fun xs b => xs ++ [b]) []) = some [4, 8, 12] :=
  ⟨twoChildren_represents,
    by simp [TreeOp.Along, TreeOp.Allowed, TreeOp.apply, twoChildrenWorld, Forest.nodes,
      Forest.roots, Forest.locate, Forest.erase, Forest.append],
    by decide, by decide⟩

end Ttos
