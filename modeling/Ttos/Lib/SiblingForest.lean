/-
  Trees by the first child and the next sibling.

  A node links to its parent, its first child and its next sibling; `null` ends a chain of
  siblings.  What lies below a node is a forest: its children in order, each with what lies
  below it.

  * `Forest`: trees side by side; `Forest.nodes`, all nodes in pre-order.
  * `Forest.locate`, `Forest.mapKids`, `Forest.erase`: finding a node, changing what lies below
    it, taking it out.
  * `Wired`: the links are those of a forest.
  * `Wired.mapKids`: only the links below one node were changed.
  * `Wired.append`, `Wired.erase`: a tree behind its siblings, a tree taken out of them.
  * `Rooted`: the links are those of several trees that are not linked to each other.
-/
import Mathlib.Data.List.Nodup
import Mathlib.Data.Nat.Notation

namespace Ttos

/-! ## Forests -/

/-- Trees side by side: the root of the first one, what lies below it, and the other trees. -/
inductive Forest (α : Type*) where
  | nil
  | cons (a : α) (kids sibs : Forest α)
deriving DecidableEq, Repr

namespace Forest

variable {α : Type*}

/-- All nodes, in pre-order. -/
def nodes : Forest α → List α
  | nil => []
  | cons a kids sibs => a :: (kids.nodes ++ sibs.nodes)

/-- The roots of the trees. -/
def roots : Forest α → List α
  | nil => []
  | cons a _ sibs => a :: sibs.roots

/-- More trees behind. -/
def append : Forest α → Forest α → Forest α
  | nil, g => g
  | cons a kids sibs, g => cons a kids (sibs.append g)

variable [DecidableEq α]

/-- What lies below a node, and the siblings behind it. -/
def locate (a : α) : Forest α → Option (Forest α × Forest α)
  | nil => none
  | cons b kids sibs => if b = a then some (kids, sibs) else (kids.locate a).or (sibs.locate a)

/-- Another forest below a node. -/
def mapKids (p : α) (g : Forest α → Forest α) : Forest α → Forest α
  | nil => nil
  | cons b kids sibs =>
    if b = p then cons b (g kids) sibs else cons b (kids.mapKids p g) (sibs.mapKids p g)

/-- The forest without a node and what lies below it. -/
def erase (a : α) : Forest α → Forest α
  | nil => nil
  | cons b kids sibs => if b = a then sibs else cons b (kids.erase a) (sibs.erase a)

variable {f g k r : Forest α} {a b p : α} {h : Forest α → Forest α}

omit [DecidableEq α] in
theorem nodes_append (f g : Forest α) : (f.append g).nodes = f.nodes ++ g.nodes := by
  induction f with
  | nil => rfl
  | cons a kids sibs _ ih => rw [append, nodes, nodes, ih, List.cons_append, List.append_assoc]

omit [DecidableEq α] in
theorem roots_append (f g : Forest α) : (f.append g).roots = f.roots ++ g.roots := by
  induction f with
  | nil => rfl
  | cons a kids sibs _ ih => rw [append, roots, roots, ih, List.cons_append]

omit [DecidableEq α] in
theorem roots_sublist (f : Forest α) : f.roots.Sublist f.nodes := by
  induction f with
  | nil => exact List.Sublist.refl _
  | cons a kids sibs _ ih => exact (ih.trans (List.sublist_append_right ..)).cons_cons a

omit [DecidableEq α] in
/-- The parts of a forest without repetitions. -/
theorem nodup_cons {kids sibs : Forest α} : (cons a kids sibs).nodes.Nodup ↔
    a ∉ kids.nodes ∧ a ∉ sibs.nodes ∧ kids.nodes.Nodup ∧ sibs.nodes.Nodup ∧
      ∀ b ∈ kids.nodes, b ∉ sibs.nodes := by
  rw [nodes, List.nodup_cons, List.mem_append, not_or, List.nodup_append, and_assoc]
  refine and_congr_right fun _ => and_congr_right fun _ => and_congr_right fun _ =>
    and_congr_right fun _ => ?_
  exact ⟨fun h b hb hb' => h b hb b hb' rfl, fun h b hb c hc hbc => h b hb (hbc ▸ hc)⟩

theorem locate_eq_none : f.locate a = none ↔ a ∉ f.nodes := by
  induction f with
  | nil => exact iff_of_true rfl List.not_mem_nil
  | cons b kids sibs ihk ihs =>
    rw [locate, nodes, List.mem_cons, List.mem_append]
    by_cases hb : b = a
    · rw [if_pos hb]
      exact iff_of_false nofun fun h => h (.inl hb.symm)
    · rw [if_neg hb, Option.or_eq_none_iff, ihk, ihs]
      tauto

theorem exists_locate (h : a ∈ f.nodes) : ∃ k r, f.locate a = some (k, r) := by
  cases hl : f.locate a with
  | none => exact absurd h (locate_eq_none.1 hl)
  | some kr => exact ⟨kr.1, kr.2, rfl⟩

/-- Where a node is found. -/
theorem locate_cons {kids sibs : Forest α} (h : (cons b kids sibs).locate a = some (k, r)) :
    b = a ∧ kids = k ∧ sibs = r ∨
      b ≠ a ∧ (kids.locate a = some (k, r) ∨ a ∉ kids.nodes ∧ sibs.locate a = some (k, r)) := by
  rw [locate] at h
  by_cases hb : b = a
  · rw [if_pos hb, Option.some_inj] at h
    exact .inl ⟨hb, congrArg Prod.fst h, congrArg Prod.snd h⟩
  · rw [if_neg hb] at h
    cases hk : kids.locate a with
    | none => exact .inr ⟨hb, .inr ⟨locate_eq_none.1 hk, by rwa [hk, Option.none_or] at h⟩⟩
    | some kr => exact .inr ⟨hb, .inl (by rwa [hk, Option.some_or] at h)⟩

theorem roots_mapKids (p : α) (h : Forest α → Forest α) (f : Forest α) :
    (f.mapKids p h).roots = f.roots := by
  induction f with
  | nil => rfl
  | cons b kids sibs _ ih =>
    rw [mapKids]
    split
    · rfl
    · rw [roots, roots, ih]

theorem roots_erase (a : α) (f : Forest α) : (f.erase a).roots = f.roots.erase a := by
  induction f with
  | nil => rfl
  | cons b kids sibs _ ih =>
    rw [erase, roots]
    by_cases hb : b = a
    · rw [if_pos hb, hb, List.erase_cons_head]
    · rw [if_neg hb, roots, List.erase_cons_tail (by simpa using hb), ih]

theorem mapKids_of_notMem (ha : p ∉ f.nodes) : f.mapKids p h = f := by
  induction f with
  | nil => rfl
  | cons b kids sibs ihk ihs =>
    rw [nodes, List.mem_cons, List.mem_append, not_or, not_or] at ha
    rw [mapKids, if_neg (Ne.symm ha.1), ihk ha.2.1, ihs ha.2.2]

theorem erase_of_notMem (ha : a ∉ f.nodes) : f.erase a = f := by
  induction f with
  | nil => rfl
  | cons b kids sibs ihk ihs =>
    rw [nodes, List.mem_cons, List.mem_append, not_or, not_or] at ha
    rw [erase, if_neg (Ne.symm ha.1), ihk ha.2.1, ihs ha.2.2]

/-- **Changing what lies below a node** changes that part of the pre-order. -/
theorem nodes_mapKids (hf : f.nodes.Nodup) (hp : f.locate p = some (k, r))
    (h : Forest α → Forest α) : ∃ xs ys, f.nodes = xs ++ p :: (k.nodes ++ ys) ∧
      (f.mapKids p h).nodes = xs ++ p :: ((h k).nodes ++ ys) := by
  induction f with
  | nil => exact nomatch hp
  | cons b kids sibs ihk ihs =>
    obtain ⟨-, hbs, hk, hs, hks⟩ := nodup_cons.1 hf
    obtain ⟨rfl, rfl, rfl⟩ | ⟨hb, hp | ⟨hp', hp⟩⟩ := locate_cons hp
    · exact ⟨[], sibs.nodes, rfl, by rw [mapKids, if_pos rfl]; rfl⟩
    · obtain ⟨xs, ys, h1, h2⟩ := ihk hk hp
      have hps : p ∉ sibs.nodes := hks p (by simp [h1])
      refine ⟨b :: xs, ys ++ sibs.nodes, by simp [nodes, h1], ?_⟩
      rw [mapKids, if_neg hb, nodes, h2, mapKids_of_notMem hps]
      simp
    · obtain ⟨xs, ys, h1, h2⟩ := ihs hs hp
      refine ⟨b :: (kids.nodes ++ xs), ys, by simp [nodes, h1], ?_⟩
      rw [mapKids, if_neg hb, nodes, h2, mapKids_of_notMem hp']
      simp

/-- **Taking out a node** takes it and what lies below it out of the pre-order. -/
theorem nodes_erase (hf : f.nodes.Nodup) (ha : f.locate a = some (k, r)) :
    ∃ xs ys, f.nodes = xs ++ a :: (k.nodes ++ ys) ∧ (f.erase a).nodes = xs ++ ys := by
  induction f with
  | nil => exact nomatch ha
  | cons b kids sibs ihk ihs =>
    obtain ⟨-, hbs, hk, hs, hks⟩ := nodup_cons.1 hf
    obtain ⟨rfl, rfl, rfl⟩ | ⟨hb, ha | ⟨ha', ha⟩⟩ := locate_cons ha
    · exact ⟨[], sibs.nodes, rfl, by rw [erase, if_pos rfl]; rfl⟩
    · obtain ⟨xs, ys, h1, h2⟩ := ihk hk ha
      have has : a ∉ sibs.nodes := hks a (by simp [h1])
      refine ⟨b :: xs, ys ++ sibs.nodes, by simp [nodes, h1], ?_⟩
      rw [erase, if_neg hb, nodes, h2, erase_of_notMem has]
      simp
    · obtain ⟨xs, ys, h1, h2⟩ := ihs hs ha
      refine ⟨b :: (kids.nodes ++ xs), ys, by simp [nodes, h1], ?_⟩
      rw [erase, if_neg hb, nodes, h2, erase_of_notMem ha']
      simp

/-- A tree put below a node. -/
theorem nodes_graft_perm (hf : f.nodes.Nodup) (hp : f.locate p = some (k, r)) (g : Forest α) :
    (f.mapKids p (·.append g)).nodes.Perm (g.nodes ++ f.nodes) := by
  obtain ⟨xs, ys, h1, h2⟩ := nodes_mapKids hf hp (·.append g)
  have hsplit (zs : List α) : xs ++ p :: (k.nodes ++ zs) = (xs ++ p :: k.nodes) ++ zs := by simp
  rw [h1, h2, nodes_append, List.append_assoc, hsplit, hsplit]
  exact List.perm_append_comm_assoc ..

/-- A tree taken out, beside the rest. -/
theorem nodes_erase_perm (hf : f.nodes.Nodup) (ha : f.locate a = some (k, r)) :
    (a :: k.nodes ++ (f.erase a).nodes).Perm f.nodes := by
  obtain ⟨xs, ys, h1, h2⟩ := nodes_erase hf ha
  rw [h1, h2, ← List.cons_append]
  exact List.perm_append_comm_assoc ..

theorem nodup_erase (hf : f.nodes.Nodup) (ha : f.locate a = some (k, r)) :
    (f.erase a).nodes.Nodup :=
  (List.nodup_append.1 ((nodes_erase_perm hf ha).nodup_iff.2 hf)).2.1

/-- What is left has nothing of what was taken out. -/
theorem disjoint_erase (hf : f.nodes.Nodup) (ha : f.locate a = some (k, r))
    (hb : b ∈ (f.erase a).nodes) : b ∈ f.nodes ∧ b ∉ a :: k.nodes := by
  obtain ⟨xs, ys, h1, h2⟩ := nodes_erase hf ha
  rw [h1, ← List.cons_append] at hf ⊢
  rw [h2] at hb
  obtain ⟨-, hf', hxs⟩ := List.nodup_append.1 hf
  rcases List.mem_append.1 hb with hb | hb
  · exact ⟨List.mem_append_left _ hb, fun hm => hxs b hb b (List.mem_append_left _ hm) rfl⟩
  · exact ⟨List.mem_append_right _ (List.mem_append_right _ hb), fun hm =>
      (List.nodup_append.1 hf').2.2 b hm b hb rfl⟩

/-- What lies below a node does not meet the node again. -/
theorem nodup_locate (hf : f.nodes.Nodup) (hp : f.locate p = some (k, r)) :
    (p :: k.nodes).Nodup := by
  obtain ⟨xs, ys, h1, -⟩ := nodes_erase hf hp
  rw [h1, ← List.cons_append] at hf
  exact (List.nodup_append.1 (List.nodup_append.1 hf).2.1).1

theorem mem_of_locate (hf : f.nodes.Nodup) (hp : f.locate p = some (k, r))
    (hb : b ∈ p :: k.nodes) : b ∈ f.nodes := by
  obtain ⟨xs, ys, h1, -⟩ := nodes_erase hf hp
  rw [h1, ← List.cons_append]
  exact List.mem_append_right _ (List.mem_append_left _ hb)

/-- Taking out a child is a change below its parent. -/
theorem erase_eq_mapKids (hf : f.nodes.Nodup) (hp : f.locate p = some (k, r))
    (ha : a ∈ k.nodes) : f.erase a = f.mapKids p (·.erase a) := by
  induction f with
  | nil => exact nomatch hp
  | cons b kids sibs ihk ihs =>
    obtain ⟨hbk, hbs, hk, hs, hks⟩ := nodup_cons.1 hf
    have hmem := fun {f : Forest α} (hf : f.nodes.Nodup) (hp : f.locate p = some (k, r)) =>
      mem_of_locate hf hp (List.mem_cons_of_mem _ ha)
    rw [erase, mapKids]
    obtain ⟨rfl, rfl, rfl⟩ | ⟨hb, hp | ⟨hp', hp⟩⟩ := locate_cons hp
    · have hba : b ≠ a := fun h => hbk (h ▸ ha)
      rw [if_neg hba, if_pos rfl, erase_of_notMem (hks a ha)]
    · have hba : b ≠ a := fun h => hbk (h ▸ hmem hk hp)
      have hps : p ∉ sibs.nodes := hks p (mem_of_locate hk hp (List.mem_cons_self ..))
      rw [if_neg hba, if_neg hb, ihk hk hp, erase_of_notMem (hks a (hmem hk hp)),
        mapKids_of_notMem hps]
    · have hba : b ≠ a := fun h => hbs (h ▸ hmem hs hp)
      have hak : a ∉ kids.nodes := fun h => hks a h (hmem hs hp)
      rw [if_neg hba, if_neg hb, ihs hs hp, erase_of_notMem hak, mapKids_of_notMem hp']

end Forest

/-! ## Links -/

/-- The links of a node. -/
structure Links (α : Type*) where
  parent : α
  child : α
  next : α
deriving DecidableEq, Repr

/-- The links are those of the forest, whose roots are children of `q`; `first` is the first
    one. -/
def Wired {α : Type*} (links : α → Links α) (null : α) : α → α → Forest α → Prop
  | _, first, .nil => first = null
  | q, first, .cons a kids sibs => first = a ∧ a ≠ null ∧ (links a).parent = q ∧
    Wired links null a (links a).child kids ∧ Wired links null q (links a).next sibs

namespace Wired

open Forest

variable {α : Type*} {links links' : α → Links α} {null q first a p : α} {f k r t : Forest α}
  {xs ys : List α}

/-- Only the links of the nodes in the forest matter. -/
theorem congr (h : Wired links null q first f) (heq : ∀ b ∈ f.nodes, links' b = links b) :
    Wired links' null q first f := by
  induction f generalizing q first with
  | nil => exact h
  | cons a kids sibs ihk ihs =>
    obtain ⟨h1, h2, h3, h4, h5⟩ := h
    have ha : links' a = links a := heq a (List.mem_cons_self ..)
    have hk := ihk h4 fun b hb => heq b (List.mem_cons_of_mem _ (List.mem_append_left _ hb))
    have hs := ihs h5 fun b hb => heq b (List.mem_cons_of_mem _ (List.mem_append_right _ hb))
    exact ⟨h1, h2, ha ▸ h3, by rwa [ha], by rwa [ha]⟩

theorem first_eq (h : Wired links null q first f) : first = f.roots.headD null := by
  cases f with
  | nil => exact h
  | cons a kids sibs => exact h.1

theorem ne_null (h : Wired links null q first f) : null ∉ f.nodes := by
  induction f generalizing q first with
  | nil => exact List.not_mem_nil
  | cons a kids sibs ihk ihs =>
    obtain ⟨-, h2, -, h4, h5⟩ := h
    rw [nodes, List.mem_cons, List.mem_append, not_or, not_or]
    exact ⟨Ne.symm h2, ihk h4, ihs h5⟩

/-- The children of `q` have the parent `q`. -/
theorem parent_of_root (h : Wired links null q first f) (ha : a ∈ f.roots) :
    (links a).parent = q := by
  induction f generalizing first with
  | nil => exact absurd ha List.not_mem_nil
  | cons b kids sibs _ ih =>
    obtain ⟨-, -, h3, -, h5⟩ := h
    rcases List.mem_cons.1 ha with rfl | ha
    · exact h3
    · exact ih h5 ha

section
variable [DecidableEq α]

/-- What lies below a node, in memory. -/
theorem locate (h : Wired links null q first f) (ha : f.locate a = some (k, r)) :
    Wired links null a (links a).child k ∧ Wired links null (links a).parent (links a).next r := by
  induction f generalizing q first with
  | nil => exact nomatch ha
  | cons b kids sibs ihk ihs =>
    obtain ⟨-, -, h3, h4, h5⟩ := h
    obtain ⟨rfl, rfl, rfl⟩ | ⟨-, ha | ⟨-, ha⟩⟩ := locate_cons ha
    · exact ⟨h4, h3 ▸ h5⟩
    · exact ihk h4 ha
    · exact ihs h5 ha

/-- A node is a child of `q`, or of a node in the forest. -/
theorem parent_cases (h : Wired links null q first f) (hf : f.nodes.Nodup) (ha : a ∈ f.nodes) :
    a ∈ f.roots ∨ ∃ k r, f.locate (links a).parent = some (k, r) ∧ a ∈ k.roots := by
  induction f generalizing q first with
  | nil => exact absurd ha List.not_mem_nil
  | cons b kids sibs ihk ihs =>
    obtain ⟨-, -, -, h4, h5⟩ := h
    obtain ⟨hbk, hbs, hk, hs, hks⟩ := nodup_cons.1 hf
    rcases List.mem_cons.1 ha with rfl | ha
    · exact .inl (List.mem_cons_self ..)
    rcases List.mem_append.1 ha with ha | ha
    · right
      obtain hr | ⟨k, r, hl, hr⟩ := ihk h4 hk ha
      · exact ⟨kids, sibs, by rw [h4.parent_of_root hr, Forest.locate, if_pos rfl], hr⟩
      · have hp := mem_of_locate hk hl (List.mem_cons_self ..)
        have hne : b ≠ (links a).parent := fun h => hbk (h ▸ hp)
        exact ⟨k, r, by rw [Forest.locate, if_neg hne, hl, Option.some_or], hr⟩
    · obtain hr | ⟨k, r, hl, hr⟩ := ihs h5 hs ha
      · exact .inl (List.mem_cons_of_mem _ hr)
      · have hp := mem_of_locate hs hl (List.mem_cons_self ..)
        have hne : b ≠ (links a).parent := fun h => hbs (h ▸ hp)
        have hpk : (links a).parent ∉ kids.nodes := fun h => hks _ h hp
        exact .inr ⟨k, r, by rw [Forest.locate, if_neg hne, locate_eq_none.2 hpk, Option.none_or,
          hl], hr⟩

/-- **Changes below one node.** -/
theorem mapKids (h : Wired links null q first f) (hf : f.nodes.Nodup)
    (hp : f.locate p = some (k, r)) {g : Forest α → Forest α}
    (hother : ∀ b ∈ f.nodes, b ∉ p :: k.nodes → links' b = links b)
    (hparent : (links' p).parent = (links p).parent) (hnext : (links' p).next = (links p).next)
    (hkids : Wired links' null p (links' p).child (g k)) :
    Wired links' null q first (f.mapKids p g) := by
  induction f generalizing q first with
  | nil => exact nomatch hp
  | cons b kids sibs ihk ihs =>
    obtain ⟨h1, h2, h3, h4, h5⟩ := h
    obtain ⟨hbk, hbs, hk, hs, hks⟩ := nodup_cons.1 hf
    have hl (c) (hc : c ∈ kids.nodes) : c ∈ (cons b kids sibs).nodes :=
      List.mem_cons_of_mem _ (List.mem_append_left _ hc)
    have hr (c) (hc : c ∈ sibs.nodes) : c ∈ (cons b kids sibs).nodes :=
      List.mem_cons_of_mem _ (List.mem_append_right _ hc)
    rw [Forest.mapKids]
    obtain ⟨rfl, rfl, rfl⟩ | ⟨hb, hp | ⟨hp', hp⟩⟩ := locate_cons hp
    · rw [if_pos rfl]
      refine ⟨h1, h2, hparent.trans h3, hkids, ?_⟩
      rw [hnext]
      refine h5.congr fun c hc => hother c (hr c hc) fun hm => ?_
      rcases List.mem_cons.1 hm with rfl | hm
      · exact hbs hc
      · exact hks c hm hc
    · have hin (c) (hc : c ∈ p :: k.nodes) : c ∈ kids.nodes := mem_of_locate hk hp hc
      have hb' : links' b = links b := hother b (List.mem_cons_self ..) fun hm => hbk (hin b hm)
      have hps : p ∉ sibs.nodes := hks p (hin p (List.mem_cons_self ..))
      rw [if_neg hb, mapKids_of_notMem hps]
      refine ⟨h1, h2, hb' ▸ h3, ?_, ?_⟩
      · rw [hb']
        exact ihk h4 hk hp fun c hc => hother c (hl c hc)
      · rw [hb']
        exact h5.congr fun c hc => hother c (hr c hc) fun hm => hks c (hin c hm) hc
    · have hin (c) (hc : c ∈ p :: k.nodes) : c ∈ sibs.nodes := mem_of_locate hs hp hc
      have hb' : links' b = links b := hother b (List.mem_cons_self ..) fun hm => hbs (hin b hm)
      rw [if_neg hb, mapKids_of_notMem hp']
      refine ⟨h1, h2, hb' ▸ h3, ?_, ?_⟩
      · rw [hb']
        exact h4.congr fun c hc => hother c (hl c hc) fun hm => hks c hc (hin c hm)
      · rw [hb']
        exact ihs h5 hs hp fun c hc => hother c (hr c hc)

omit [DecidableEq α] in
/-- The last of the others is the last one. -/
theorem getLast?_cons_of_ne {b c : α} {l : List α} (hne : b ≠ c) :
    (b :: l).getLast? = some c ↔ l.getLast? = some c := by
  rw [List.getLast?_cons, Option.some_inj]
  cases l.getLast? with
  | none => exact iff_of_false hne nofun
  | some d => exact Option.some_inj.symm

omit [DecidableEq α] in
theorem getLast?_cons_self {b : α} {l : List α} (hb : b ∉ l) :
    (b :: l).getLast? = some b ↔ l = [] := by
  rw [List.getLast?_cons, Option.some_inj]
  cases hl : l.getLast? with
  | none => exact iff_of_true rfl (List.getLast?_eq_none_iff.1 hl)
  | some d =>
    have hd : d ∈ l := List.mem_of_getLast? hl
    exact iff_of_false (fun h => hb (h ▸ hd)) (fun h => nomatch h ▸ hd)

/-- **A tree behind its siblings.** -/
theorem append (h : Wired links null q first f) (hf : f.nodes.Nodup)
    (ht : Wired links' null q a t)
    (hedit : ∀ b ∈ f.nodes, links' b =
      { links b with next := if f.roots.getLast? = some b then a else (links b).next }) :
    Wired links' null q (if f.roots = [] then a else first) (f.append t) := by
  induction f generalizing first with
  | nil => exact ht
  | cons b kids sibs _ ih =>
    obtain ⟨h1, h2, h3, h4, h5⟩ := h
    obtain ⟨hbk, hbs, hk, hs, hks⟩ := nodup_cons.1 hf
    have hbr : b ∉ sibs.roots := fun h => hbs (sibs.roots_sublist.subset h)
    rw [roots] at hedit ⊢
    rw [if_neg (List.cons_ne_nil _ _)]
    have hb := hedit b (List.mem_cons_self ..)
    have hkeep (c) (hc : c ∈ kids.nodes) : links' c = links c := by
      rw [hedit c (List.mem_cons_of_mem _ (List.mem_append_left _ hc)), if_neg fun hl => ?_]
      rcases List.mem_cons.1 (List.mem_of_getLast? hl) with rfl | hm
      · exact hbk hc
      · exact hks c hc (sibs.roots_sublist.subset hm)
    have hsibs := ih h5 hs fun c hc => by
      have hne : b ≠ c := fun h => hbs (h ▸ hc)
      rw [hedit c (List.mem_cons_of_mem _ (List.mem_append_right _ hc))]
      exact congrArg (fun n => { links c with next := n })
        (if_congr (getLast?_cons_of_ne hne) rfl rfl)
    refine ⟨h1, h2, by rw [hb]; exact h3, ?_, ?_⟩
    · rw [hb]
      exact h4.congr hkeep
    · rw [hb]
      show Wired links' null q (if (b :: sibs.roots).getLast? = some b then a else (links b).next) _
      rw [if_congr (getLast?_cons_self hbr) rfl rfl]
      exact hsibs

/-- **A tree taken out of its siblings.** -/
theorem erase (h : Wired links null q first f) (hf : f.nodes.Nodup)
    (hroots : f.roots = xs ++ a :: ys)
    (hedit : ∀ b ∈ f.nodes, b ≠ a → links' b =
      { links b with next := if xs.getLast? = some b then (links a).next else (links b).next }) :
    Wired links' null q (if xs = [] then (links a).next else first) (f.erase a) := by
  induction f generalizing first xs with
  | nil => exact absurd hroots.symm (by simp [roots])
  | cons b kids sibs _ ih =>
    obtain ⟨h1, h2, h3, h4, h5⟩ := h
    obtain ⟨hbk, hbs, hk, hs, hks⟩ := nodup_cons.1 hf
    rw [roots] at hroots
    rw [Forest.erase]
    cases xs with
    | nil =>
      obtain ⟨rfl, -⟩ := List.cons.inj hroots
      rw [if_pos rfl, if_pos rfl]
      exact h5.congr fun c hc => (hedit c (List.mem_cons_of_mem _ (List.mem_append_right _ hc))
        fun h => hbs (h ▸ hc)).trans (by simp)
    | cons c xs =>
      obtain ⟨rfl, hsr⟩ := List.cons.inj hroots
      have has : a ∈ sibs.nodes := sibs.roots_sublist.subset (by simp [hsr])
      have hba : b ≠ a := fun h => hbs (h ▸ has)
      have hak : a ∉ kids.nodes := fun h => hks a h has
      have hxs (c) (hc : c ∈ xs) : c ∈ sibs.nodes :=
        sibs.roots_sublist.subset (by simp [hsr, hc])
      rw [if_neg (List.cons_ne_nil _ _), if_neg hba, erase_of_notMem hak]
      have hb := hedit b (List.mem_cons_self ..) hba
      have hkeep (c) (hc : c ∈ kids.nodes) : links' c = links c := by
        rw [hedit c (List.mem_cons_of_mem _ (List.mem_append_left _ hc)) fun h => hak (h ▸ hc),
          if_neg fun hl => ?_]
        rcases List.mem_cons.1 (List.mem_of_getLast? hl) with rfl | hm
        · exact hbk hc
        · exact hks c hc (hxs c hm)
      have hsibs := ih h5 hs hsr fun c hc hca => by
        have hne : b ≠ c := fun h => hbs (h ▸ hc)
        rw [hedit c (List.mem_cons_of_mem _ (List.mem_append_right _ hc)) hca]
        exact congrArg (fun n => { links c with next := n })
          (if_congr (getLast?_cons_of_ne hne) rfl rfl)
      refine ⟨h1, h2, by rw [hb]; exact h3, ?_, ?_⟩
      · rw [hb]
        exact h4.congr hkeep
      · rw [hb]
        show Wired links' null q
          (if (b :: xs).getLast? = some b then (links a).next else (links b).next) _
        rw [if_congr (getLast?_cons_self fun h => hbs (hxs b h)) rfl rfl]
        exact hsibs

end

end Wired

/-! ## Separate trees -/

/-- The links are those of separate trees: the roots have no parent, and it does not matter
    where their sibling links lead. -/
def Rooted {α : Type*} (links : α → Links α) (null : α) : Forest α → Prop
  | .nil => True
  | .cons a kids sibs => a ≠ null ∧ (links a).parent = null ∧
    Wired links null a (links a).child kids ∧ Rooted links null sibs

namespace Rooted

open Forest

variable {α : Type*} {links links' : α → Links α} {null a p : α} {f k r t : Forest α}

theorem congr (h : Rooted links null f) (heq : ∀ b ∈ f.nodes, links' b = links b) :
    Rooted links' null f := by
  induction f with
  | nil => trivial
  | cons a kids sibs _ ih =>
    obtain ⟨h1, h2, h3, h4⟩ := h
    have ha : links' a = links a := heq a (List.mem_cons_self ..)
    refine ⟨h1, ha ▸ h2, ?_, ih h4 fun b hb =>
      heq b (List.mem_cons_of_mem _ (List.mem_append_right _ hb))⟩
    rw [ha]
    exact h3.congr fun b hb => heq b (List.mem_cons_of_mem _ (List.mem_append_left _ hb))

theorem parent_of_root (h : Rooted links null f) (ha : a ∈ f.roots) : (links a).parent = null := by
  induction f with
  | nil => exact absurd ha List.not_mem_nil
  | cons b kids sibs _ ih =>
    rcases List.mem_cons.1 ha with rfl | ha
    · exact h.2.1
    · exact ih h.2.2.2 ha

theorem append (h : Rooted links null f) (ht : Rooted links null t) :
    Rooted links null (f.append t) := by
  induction f with
  | nil => exact ht
  | cons a kids sibs _ ih => exact ⟨h.1, h.2.1, h.2.2.1, ih h.2.2.2⟩

theorem ne_null (h : Rooted links null f) : null ∉ f.nodes := by
  induction f with
  | nil => exact List.not_mem_nil
  | cons a kids sibs _ ih =>
    rw [nodes, List.mem_cons, List.mem_append, not_or, not_or]
    exact ⟨Ne.symm h.1, h.2.2.1.ne_null, ih h.2.2.2⟩

variable [DecidableEq α]

/-- What lies below a node, in memory, and behind it if it is not a root. -/
theorem locate (h : Rooted links null f) (ha : f.locate a = some (k, r)) :
    Wired links null a (links a).child k ∧
      (a ∉ f.roots → Wired links null (links a).parent (links a).next r) := by
  induction f with
  | nil => exact nomatch ha
  | cons b kids sibs _ ih =>
    obtain ⟨rfl, rfl, rfl⟩ | ⟨-, ha | ⟨-, ha⟩⟩ := locate_cons ha
    · exact ⟨h.2.2.1, fun hr => absurd (List.mem_cons_self ..) hr⟩
    · exact ⟨(h.2.2.1.locate ha).1, fun _ => (h.2.2.1.locate ha).2⟩
    · exact ⟨(ih h.2.2.2 ha).1, fun hr => (ih h.2.2.2 ha).2 fun hm =>
        hr (List.mem_cons_of_mem _ hm)⟩

/-- A node is a root without a parent, or a child of some node. -/
theorem parent_cases (h : Rooted links null f) (hf : f.nodes.Nodup) (ha : a ∈ f.nodes) :
    a ∈ f.roots ∧ (links a).parent = null ∨
      ∃ k r, f.locate (links a).parent = some (k, r) ∧ a ∈ k.roots := by
  induction f with
  | nil => exact absurd ha List.not_mem_nil
  | cons b kids sibs _ ih =>
    obtain ⟨-, h2, h3, h4⟩ := h
    obtain ⟨hbk, hbs, hk, hs, hks⟩ := nodup_cons.1 hf
    rcases List.mem_cons.1 ha with rfl | ha
    · exact .inl ⟨List.mem_cons_self .., h2⟩
    rcases List.mem_append.1 ha with ha | ha
    · right
      obtain hr | ⟨k, r, hl, hr⟩ := h3.parent_cases hk ha
      · exact ⟨kids, sibs, by rw [h3.parent_of_root hr, Forest.locate, if_pos rfl], hr⟩
      · have hp := mem_of_locate hk hl (List.mem_cons_self ..)
        have hne : b ≠ (links a).parent := fun h => hbk (h ▸ hp)
        exact ⟨k, r, by rw [Forest.locate, if_neg hne, hl, Option.some_or], hr⟩
    · obtain ⟨hr, h0⟩ | ⟨k, r, hl, hr⟩ := ih h4 hs ha
      · exact .inl ⟨List.mem_cons_of_mem _ hr, h0⟩
      · have hp := mem_of_locate hs hl (List.mem_cons_self ..)
        have hne : b ≠ (links a).parent := fun h => hbs (h ▸ hp)
        have hpk : (links a).parent ∉ kids.nodes := fun h => hks _ h hp
        exact .inr ⟨k, r, by rw [Forest.locate, if_neg hne, locate_eq_none.2 hpk, Option.none_or,
          hl], hr⟩

/-- A root taken out. -/
theorem erase (h : Rooted links null f) (hf : f.nodes.Nodup) (ha : a ∈ f.roots) :
    Rooted links null (f.erase a) := by
  induction f with
  | nil => trivial
  | cons b kids sibs _ ih =>
    obtain ⟨h1, h2, h3, h4⟩ := h
    obtain ⟨-, hbs, -, hs, hks⟩ := nodup_cons.1 hf
    rw [Forest.erase]
    by_cases hb : b = a
    · rw [if_pos hb]
      exact h4
    · have ha' := (List.mem_cons.1 ha).resolve_left (Ne.symm hb)
      have hak : a ∉ kids.nodes := fun h => hks a h (sibs.roots_sublist.subset ha')
      rw [if_neg hb, erase_of_notMem hak]
      exact ⟨h1, h2, h3, ih h4 hs ha'⟩

/-- **Changes below one node.** -/
theorem mapKids (h : Rooted links null f) (hf : f.nodes.Nodup)
    (hp : f.locate p = some (k, r)) {g : Forest α → Forest α}
    (hother : ∀ b ∈ f.nodes, b ∉ p :: k.nodes → links' b = links b)
    (hparent : (links' p).parent = (links p).parent) (hnext : (links' p).next = (links p).next)
    (hkids : Wired links' null p (links' p).child (g k)) : Rooted links' null (f.mapKids p g) := by
  induction f with
  | nil => exact nomatch hp
  | cons b kids sibs _ ih =>
    obtain ⟨h1, h2, h3, h4⟩ := h
    obtain ⟨hbk, hbs, hk, hs, hks⟩ := nodup_cons.1 hf
    have hl (c) (hc : c ∈ kids.nodes) : c ∈ (cons b kids sibs).nodes :=
      List.mem_cons_of_mem _ (List.mem_append_left _ hc)
    have hr (c) (hc : c ∈ sibs.nodes) : c ∈ (cons b kids sibs).nodes :=
      List.mem_cons_of_mem _ (List.mem_append_right _ hc)
    rw [Forest.mapKids]
    obtain ⟨rfl, rfl, rfl⟩ | ⟨hb, hp | ⟨hp', hp⟩⟩ := locate_cons hp
    · rw [if_pos rfl]
      refine ⟨h1, hparent.trans h2, hkids, h4.congr fun c hc => hother c (hr c hc) fun hm => ?_⟩
      rcases List.mem_cons.1 hm with rfl | hm
      · exact hbs hc
      · exact hks c hm hc
    · have hin (c) (hc : c ∈ p :: k.nodes) : c ∈ kids.nodes := mem_of_locate hk hp hc
      have hb' : links' b = links b := hother b (List.mem_cons_self ..) fun hm => hbk (hin b hm)
      have hps : p ∉ sibs.nodes := hks p (hin p (List.mem_cons_self ..))
      rw [if_neg hb, mapKids_of_notMem hps]
      refine ⟨h1, hb' ▸ h2, ?_,
        h4.congr fun c hc => hother c (hr c hc) fun hm => hks c (hin c hm) hc⟩
      rw [hb']
      exact h3.mapKids hk hp (fun c hc => hother c (hl c hc)) hparent hnext hkids
    · have hin (c) (hc : c ∈ p :: k.nodes) : c ∈ sibs.nodes := mem_of_locate hs hp hc
      have hb' : links' b = links b := hother b (List.mem_cons_self ..) fun hm => hbs (hin b hm)
      rw [if_neg hb, mapKids_of_notMem hp']
      refine ⟨h1, hb' ▸ h2, ?_, ih h4 hs hp fun c hc => hother c (hr c hc)⟩
      rw [hb']
      exact h3.congr fun c hc => hother c (hl c hc) fun hm => hks c hc (hin c hm)

end Rooted

end Ttos
