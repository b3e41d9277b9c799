/-
  The walk along a path as the kernel does it, in place: `strsep` cuts the
  copy of the path into names while the tree is searched (vfs.c, string.c).

  * `vfsFindpathAt_eq`: the walk along the bytes is the walk along the names;
  * `path_walk_fold`: it looks up one name after the other.
-/
import Ttos.Lib.Outcome
import Ttos.Fs.MountSpec
import Ttos.Util.Strings

namespace Ttos

open Allocator

/-! ## The walk -/

section
variable {σ δ : Type} (machine : Machine σ δ) [Allocator σ]

/-- `vfs_findpath_recursive` on the copy of the path in `m`; `path` is a pointer into it. -/
def vfsFindpathRecursiveAt : ℕ → ℕ → ℕ → Mem → ObjectsM σ δ ℕ
  | 0, _, _, _ => throw .diverge
  | fuel + 1, node, path, m => do
    let s ← get
    if node ≠ 0 ∧ (s.nodes node).isDirectory then
      match strsep m [0x2F] (fuel + 1) path with
      | none => throw .diverge
      | some (token, path, m) =>
        if token = 0 then pure node
        else
          let nextNode ← vfsFinddir machine node (m.string token (fuel + 1))
          if nextNode = 0 then pure 0
          else if path = 0 then pure nextNode
          else vfsFindpathRecursiveAt fuel nextNode path m
    else pure 0

/-- `strcpy` of a string to `a`. -/
def Mem.strcpy (m : Mem) (a : ℕ) (s : List UInt8) : Mem := fun x =>
  if a ≤ x ∧ x ≤ a + s.length then (s[x - a]?).getD 0 else m x

/-- `vfs_findpath` with the copy of the path in memory; `stale` is what the memory held. -/
def vfsFindpathAt (stale : Mem) (node : ℕ) (path : List UInt8) : ObjectsM σ δ ℕ := do
  let s ← get
  if node ≠ 0 ∧ (s.nodes node).isDirectory then
    if path = [0x2F] ∨ path = [] then pure node
    else do
      let pathCopy ← onHeap (kmallocOrPanic (path.length + 1))
      let m := stale.strcpy pathCopy path
      let relative := if m pathCopy = 0x2F then pathCopy + 1 else pathCopy
      let foundNode ← vfsFindpathRecursiveAt machine (path.length + 1) node relative m
      onHeap (freePathCopy pathCopy path)
      pure foundNode
  else pure 0

end

theorem hasString_strcpy (m : Mem) (a : ℕ) {s : List UInt8} (h0 : 0 ∉ s) :
    (m.strcpy a s).HasString a s := by
  refine ⟨h0, fun j hj => ?_, ?_⟩
  · rw [Mem.strcpy, if_pos ⟨by omega, by omega⟩, Nat.add_sub_cancel_left,
      List.getElem?_eq_getElem hj, Option.getD_some]
  · rw [Mem.strcpy, if_pos ⟨by omega, by omega⟩, Nat.add_sub_cancel_left,
      List.getElem?_eq_none (by omega), Option.getD_none]

section
variable {σ δ : Type} {machine : Machine σ δ} [Allocator σ]

/-- The bytes of a path with a slash in it, the first name cut off. -/
theorem splitOn_cut {t s : List UInt8} {c : UInt8} (hn : c ∉ t) :
    (t ++ c :: s).splitOn c = t :: s.splitOn c := by
  have h : ∀ b ∈ t, (b == c) = false := by
    intro b hb
    rw [beq_eq_false_iff_ne]
    rintro rfl
    exact hn hb
  have hcut : (t ++ c :: s).splitOnP (· == c) = t.splitOnP (· == c) ++ s.splitOnP (· == c) :=
    List.splitOnP_append_cons t s (beq_self_eq_true c)
  rw [List.splitOn, hcut, List.splitOnP_eq_singleton h]
  rfl

/-- **The walk along the bytes** is the walk along the names between the slashes. -/
theorem vfsFindpathRecursiveAt_eq {m : Mem} {node a fuel : ℕ} {path : List UInt8}
    (h : m.HasString a path) (ha : a ≠ 0) (hf : path.length < fuel) :
    vfsFindpathRecursiveAt machine fuel node a m =
      vfsFindpathRecursive (σ := σ) (δ := δ) machine node (path.splitOn 0x2F) := by
  induction fuel generalizing m node a path with
  | zero => exact absurd hf (Nat.not_lt_zero _)
  | succ fuel ih =>
    rw [vfsFindpathRecursiveAt]
    by_cases hs : 0x2F ∈ path
    · obtain ⟨t, rest, rfl, ht⟩ := List.eq_append_cons_of_mem hs
      have hlen : t.length + (rest.length + 1) < fuel + 1 := by simpa using hf
      have hnone : ∀ b ∈ t, b ∉ [(0x2F : UInt8)] := fun b hb => by
        rw [List.mem_singleton]
        rintro rfl
        exact ht hb
      obtain ⟨m', hsep, htok, hrest, -⟩ := strsep_cut h ha hnone (List.mem_singleton_self _)
        (show t.length < fuel + 1 by omega)
      rw [splitOn_cut ht, hsep, vfsFindpathRecursive]
      simp only [if_neg ha, Mem.string_of_hasString htok (show t.length < fuel + 1 by omega)]
      have hrec : ∀ next, vfsFindpathRecursiveAt machine fuel next (a + t.length + 1) m' =
          vfsFindpathRecursive (σ := σ) (δ := δ) machine next (rest.splitOn 0x2F) :=
        fun next => ih hrest (by omega) (by omega)
      simp only [if_neg (show a + t.length + 1 ≠ 0 by omega), hrec, if_neg (List.splitOn_ne_nil _ _)]
    · have hnone : ∀ b ∈ path, b ∉ [(0x2F : UInt8)] := fun b hb => by
        rw [List.mem_singleton]
        rintro rfl
        exact hs hb
      have hsep := strsep_last h ha hnone hf
      have hsplit : path.splitOn 0x2F = [path] := by
        refine List.splitOnP_eq_singleton fun b hb => ?_
        rw [beq_eq_false_iff_ne]
        rintro rfl
        exact hs hb
      rw [hsplit, hsep, vfsFindpathRecursive]
      simp only [if_neg ha, Mem.string_of_hasString h hf, if_true]

/-- Starting at the copy of the path, or one byte behind a leading slash. -/
theorem relative_strcpy (stale : Mem) (a : ℕ) {path : List UInt8} (h0 : 0 ∉ path) (hne : path ≠ []) :
    (stale.strcpy a path).HasString
      (if (stale.strcpy a path) a = 0x2F then a + 1 else a)
      (if path.head? = some 0x2F then path.tail else path) := by
  have h := hasString_strcpy stale a h0
  cases path with
  | nil => exact absurd rfl hne
  | cons c s =>
    obtain ⟨-, hc, hs⟩ := Mem.hasString_cons.1 h
    rw [hc]
    by_cases hslash : c = 0x2F
    · subst hslash
      exact hs
    · rw [if_neg hslash, if_neg (by simpa using hslash)]
      exact h

/-- A computation that is the same behind every block the heap hands out. -/
theorem kmalloc_bind_congr {β : Type} {f g : ℕ → ObjectsM σ δ β} (n : ℕ)
    (h : ∀ ptr, ptr ≠ 0 → f ptr = g ptr) :
    (onHeap (kmallocOrPanic n) >>= f) = (onHeap (kmallocOrPanic n) >>= g) := by
  funext s
  by_cases h0 : (Allocator.alloc s.heap n false).1 = 0
  · have hk : (kmallocOrPanic n : FsM σ ℕ) s.heap = .error .kheapOutOfMemory := if_pos h0
    simp only [bind, StateT.bind, onHeap, hk]
    rfl
  · have hk : (kmallocOrPanic n : FsM σ ℕ) s.heap = .ok (Allocator.alloc s.heap n false) := if_neg h0
    simp only [bind, StateT.bind, onHeap, hk]
    exact congrFun (h _ h0) _

/-- **Following a path in place** is following its names. -/
theorem vfsFindpathAt_eq (stale : Mem) (node : ℕ) {path : List UInt8} (h0 : 0 ∉ path) :
    vfsFindpathAt machine stale node path = vfsFindpath (σ := σ) (δ := δ) machine node path := by
  unfold vfsFindpathAt vfsFindpath
  refine bind_congr fun s => ?_
  split
  swap
  · rfl
  split
  · rfl
  rename_i hpath
  have hne : path ≠ [] := fun h => hpath (Or.inr h)
  refine kmalloc_bind_congr _ fun pathCopy hp => ?_
  have hs := relative_strcpy stale pathCopy h0 hne
  have hlen : (if path.head? = some 0x2F then path.tail else path).length < path.length + 1 := by
    split
    · rw [List.length_tail]
      omega
    · exact Nat.lt_succ_self _
  have hr : (if (stale.strcpy pathCopy path) pathCopy = 0x2F then pathCopy + 1 else pathCopy) ≠ 0 := by
    split <;> omega
  dsimp only
  rw [vfsFindpathRecursiveAt_eq hs hr hlen]

end

/-! ## The fold -/

/-- The file with a name in the directory `id`. -/
def FileTree.child (tree : FileTree) (id : FileId) (name : List UInt8) : Option FileId :=
  if id.type = .directory then tree.find id.inode name else none

theorem FileTree.resolve_eq_foldlM (tree : FileTree) (id : FileId) (names : List (List UInt8)) :
    tree.resolve id names = names.foldlM tree.child id := by
  induction names generalizing id with
  | nil => rfl
  | cons name names ih =>
    rw [FileTree.resolve, List.foldlM_cons, FileTree.child]
    split
    · exact Option.bind_congr fun next _ => ih next
    · rfl

/-- Names that a path can be made of, in a path short enough for the kernel. -/
structure PathNames (names : List (List UInt8)) : Prop where
  nonempty : names ≠ []
  name : ∀ name ∈ names, name ≠ [] ∧ 0x2F ∉ name ∧ 0 ∉ name

/-- The names with slashes between them, and one in front of them if `slash`. -/
def pathOf (slash : Bool) (names : List (List UInt8)) : List UInt8 :=
  (if slash then [0x2F] else []) ++ [0x2F].intercalate names

section
variable {names : List (List UInt8)} {slash : Bool}

theorem intercalate_cons_cons (name name' : List UInt8) (names : List (List UInt8)) :
    [0x2F].intercalate (name :: name' :: names) =
      name ++ 0x2F :: [0x2F].intercalate (name' :: names) := by
  simp [List.intercalate]

theorem PathNames.intercalate_head (h : PathNames names) :
    ∃ c s, [0x2F].intercalate names = c :: s ∧ c ≠ 0x2F := by
  cases names with
  | nil => exact absurd rfl h.nonempty
  | cons name names =>
    obtain ⟨hne, hslash, -⟩ := h.name name (List.mem_cons_self ..)
    obtain ⟨c, s, rfl⟩ := List.exists_cons_of_ne_nil hne
    have hc : c ≠ 0x2F := by
      rintro rfl
      exact hslash (List.mem_cons_self ..)
    cases names with
    | nil => exact ⟨c, s, by simp [List.intercalate], hc⟩
    | cons name' names =>
      rw [intercalate_cons_cons]
      exact ⟨c, _, rfl, hc⟩

/-- The names between the slashes are the names. -/
theorem PathNames.pathNames_eq (h : PathNames names) :
    FileTree.pathNames (pathOf slash names) = names := by
  obtain ⟨c, s, hcs, hc⟩ := h.intercalate_head
  have hrel : (if (pathOf slash names).head? = some 0x2F then (pathOf slash names).tail
      else pathOf slash names) = [0x2F].intercalate names := by
    cases slash with
    | true => rfl
    | false =>
      rw [pathOf, hcs]
      exact if_neg (by simpa using hc)
  rw [FileTree.pathNames, hrel]
  exact List.splitOn_intercalate 0x2F (fun name hn => (h.name name hn).2.1) h.nonempty

theorem PathNames.pathOf_ne (h : PathNames names) :
    ¬ (pathOf slash names = [0x2F] ∨ pathOf slash names = []) := by
  obtain ⟨c, s, hcs, hc⟩ := h.intercalate_head
  rw [pathOf, hcs]
  cases slash with
  | true => simp
  | false => simp [hc]

theorem mem_intercalate {b : UInt8} (hb : b ∈ [0x2F].intercalate names) :
    b = 0x2F ∨ ∃ name ∈ names, b ∈ name := by
  induction names with
  | nil => exact absurd hb List.not_mem_nil
  | cons name names ih =>
    cases names with
    | nil => exact Or.inr ⟨name, List.mem_cons_self .., by simpa [List.intercalate] using hb⟩
    | cons name' names =>
      rw [intercalate_cons_cons, List.mem_append, List.mem_cons] at hb
      rcases hb with hb | hb | hb
      · exact Or.inr ⟨name, List.mem_cons_self .., hb⟩
      · exact Or.inl hb
      · refine (ih hb).imp_right ?_
        rintro ⟨n, hn, hbn⟩
        exact ⟨n, List.mem_cons_of_mem _ hn, hbn⟩

theorem PathNames.nonnull (h : PathNames names) : 0 ∉ pathOf slash names := by
  intro h0
  rw [pathOf, List.mem_append] at h0
  rcases h0 with h0 | h0
  · cases slash <;> simp at h0
  · rcases mem_intercalate h0 with h0 | ⟨name, hn, h0⟩
    · exact absurd h0 (by decide)
    · exact (h.name name hn).2.2 h0

theorem PathNames.append {names' : List (List UInt8)} (h : PathNames names)
    (h' : PathNames names') : PathNames (names ++ names') := by
  refine ⟨by simp [h.nonempty], fun name hn => ?_⟩
  rcases List.mem_append.1 hn with hn | hn
  · exact h.name name hn
  · exact h'.name name hn

end

section
variable {σ δ : Type} {machine : Machine σ δ} [Allocator σ] {image : VolumeImage} {a node : ℕ}
  {id : FileId} {s : Objects σ δ} {names names' : List (List UInt8)} {slash slash' : Bool}

theorem vfsFinddir_null (name : List UInt8) :
    vfsFinddir (σ := σ) (δ := δ) machine 0 name = pure 0 := by
  unfold vfsFinddir
  funext s
  rfl

theorem foldlM_finddir_null (names : List (List UInt8)) :
    names.foldlM (vfsFinddir (σ := σ) (δ := δ) machine) 0 = pure 0 := by
  induction names with
  | nil => rfl
  | cons name names ih => rw [List.foldlM_cons, vfsFinddir_null, pure_bind, ih]

theorem vfsFinddir_of_not_dir {name : List UInt8}
    (h : ¬ (node ≠ 0 ∧ (s.nodes node).isDirectory = true)) :
    vfsFinddir machine node name s = .ok (0, s) := by
  unfold vfsFinddir
  show (if node ≠ 0 ∧ (s.nodes node).isDirectory = true then _ else pure 0 : ObjectsM σ δ ℕ) s = _
  rw [if_neg h]
  rfl

/-- The recursion looks up one name after the other. -/
theorem vfsFindpathRecursive_eq_foldlM (hne : names ≠ []) (node : ℕ) :
    vfsFindpathRecursive (σ := σ) (δ := δ) machine node names =
      names.foldlM (vfsFinddir machine) node := by
  induction names generalizing node with
  | nil => exact absurd rfl hne
  | cons name names ih =>
    funext s
    rw [List.foldlM_cons]
    show (if node ≠ 0 ∧ (s.nodes node).isDirectory = true then _ else pure 0 : ObjectsM σ δ ℕ) s = _
    by_cases hd : node ≠ 0 ∧ (s.nodes node).isDirectory = true
    · rw [if_pos hd]
      refine congrFun (bind_congr fun next => ?_) s
      by_cases h0 : next = 0
      · rw [if_pos h0, h0, foldlM_finddir_null]
      · rw [if_neg h0]
        by_cases hend : names = []
        · rw [if_pos hend, hend]
          rfl
        · rw [if_neg hend, ih hend]
    · rw [if_neg hd]
      have hrun : (vfsFinddir machine node name >>= fun next =>
          names.foldlM (vfsFinddir machine) next) s = names.foldlM (vfsFinddir machine) 0 s := by
        simp only [bind, StateT.bind, vfsFinddir_of_not_dir hd]
        rfl
      rw [hrun, foldlM_finddir_null]

/-- A walk with the copy of the path around it. -/
def withPathCopy (node : ℕ) (path : List UInt8) (walk : ObjectsM σ δ ℕ) : ObjectsM σ δ ℕ := do
  let s ← get
  if node ≠ 0 ∧ (s.nodes node).isDirectory then do
    let pathCopy ← onHeap (kmallocOrPanic (path.length + 1))
    let foundNode ← walk
    onHeap (freePathCopy pathCopy path)
    pure foundNode
  else pure 0

theorem vfsFindpathAt_eq_foldlM (h : PathNames names) (stale : Mem) (node : ℕ) :
    vfsFindpathAt (σ := σ) (δ := δ) machine stale node (pathOf slash names) =
      withPathCopy node (pathOf slash names) (names.foldlM (vfsFinddir machine) node) := by
  rw [vfsFindpathAt_eq stale node h.nonnull, vfsFindpath, withPathCopy]
  refine bind_congr fun s => ?_
  rw [if_neg h.pathOf_ne]
  have hrec : vfsFindpathRecursive (σ := σ) (δ := δ) machine node names =
      names.foldlM (vfsFinddir machine) node := vfsFindpathRecursive_eq_foldlM h.nonempty node
  rw [← hrec]
  have hn : FileTree.pathNames (pathOf slash names) = names := h.pathNames_eq
  rw [FileTree.pathNames] at hn
  simp only [hn]

/-- What the walk finds on a well-formed volume. -/
theorem meets_vfsFindpathAt (h : PathNames names) (stale : Mem)
    (hlen : Request ((pathOf slash names).length + 1))
    (hw : image.WellFormed machine (s.filesystems a)) (hl : Live s.heap node)
    (hn : image.IsNode a (s.nodes node) id) :
    Meets OutOfMemory (vfsFindpathAt machine stale node (pathOf slash names)) s fun r s' =>
      s.Extends s' ∧ FoundAt image a s s' r (names.foldlM image.tree.child id) := by
  rw [vfsFindpathAt_eq stale node h.nonnull]
  have hm := meets_vfsFindpath_names hw hl hn h.nonnull h.pathOf_ne hlen
  rwa [h.pathNames_eq, FileTree.resolve_eq_foldlM] at hm

/-- **Path resolution is a fold.**  Over any file system, following a path is looking up one name
    after the other; on a well-formed volume it finds the file that the names lead to, and
    following a path and then another one from there finds what following both together does. -/
theorem path_walk_fold (machine : Machine σ δ) (image : VolumeImage) (a node : ℕ) (id : FileId)
    (s : Objects σ δ) (hw : image.WellFormed machine (s.filesystems a)) (hl : Live s.heap node)
    (hn : image.IsNode a (s.nodes node) id) (names : List (List UInt8)) (h : PathNames names)
    (slash : Bool) (hlen : Request ((pathOf slash names).length + 1)) (stale : Mem) :
    vfsFindpathAt machine stale node (pathOf slash names) =
        withPathCopy node (pathOf slash names) (names.foldlM (vfsFinddir machine) node) ∧
      Meets OutOfMemory (vfsFindpathAt machine stale node (pathOf slash names)) s
        (fun r s' => s.Extends s' ∧ FoundAt image a s s' r (names.foldlM image.tree.child id)) ∧
      ∀ (names' : List (List UInt8)) (slash' : Bool) (stale' : Mem), PathNames names' →
        Request ((pathOf slash' names').length + 1) →
        Request ((pathOf slash (names ++ names')).length + 1) →
        ∃ found, Meets OutOfMemory (vfsFindpathAt machine stale node (pathOf slash (names ++ names'))) s
            (fun r s' => s.Extends s' ∧ FoundAt image a s s' r found) ∧
          Meets OutOfMemory (do
              let next ← vfsFindpathAt machine stale node (pathOf slash names)
              vfsFindpathAt machine stale' next (pathOf slash' names')) s
            (fun r s' => s.Extends s' ∧ FoundAt image a s s' r found) := by
  refine ⟨vfsFindpathAt_eq_foldlM h stale node, meets_vfsFindpathAt h stale hlen hw hl hn,
    fun names' slash' stale' h' hlen' hlen'' =>
      ⟨(names ++ names').foldlM image.tree.child id,
        meets_vfsFindpathAt (h.append h') stale hlen'' hw hl hn, ?_⟩⟩
  rw [List.foldlM_append]
  refine (meets_vfsFindpathAt h stale hlen hw hl hn).bind ?_
  rintro next s' ⟨he, hfound⟩
  cases hf : names.foldlM image.tree.child id with
  | none =>
    rw [hf] at hfound
    obtain rfl : next = 0 := hfound
    rw [vfsFindpathAt_eq stale' 0 h'.nonnull]
    exact Meets.of_ok rfl ⟨he, rfl⟩
  | some c =>
    rw [hf] at hfound
    obtain ⟨hc, hlive, hnew⟩ := hfound
    refine (meets_vfsFindpathAt h' stale' hlen' (by rwa [he.filesystems]) hlive hc).mono ?_
    rintro r s'' ⟨he', hr⟩
    exact ⟨he.trans he', hr.of_extends he⟩

end

/-- The name "hi" from the root of the small volume leads to its file. -/
theorem path_walk_fold_small : ∃ r s',
    vfsFindpathAt dirImageMachine (fun _ => 0) dirImageHeap.1 [0x2F, 0x68, 0x69]
        dirImageIo.objects = .ok (r, s') ∧
      FoundAt (dirImageImages 1) 1 dirImageIo.objects s' r (some ⟨.file, 3⟩) := by
  have ht := dirImageIo_table
  have hfold : [[0x68, 0x69]].foldlM (dirImageImages 1).tree.child
      (dirImageImages (dirImageIo.mountpoints 0)).tree.rootId = some ⟨.file, 3⟩ := by decide +kernel
  obtain ⟨-, hwalk, -⟩ := path_walk_fold dirImageMachine (dirImageImages 1) 1 _ _ dirImageIo.objects
    (ht.volume 0 (by decide) (by decide)) (ht.rootLive 0 (by decide) (by decide))
    (ht.rootNode 0 (by decide) (by decide)) [[0x68, 0x69]] ⟨by decide, by decide⟩ true (by decide)
    fun _ => 0
  rw [hfold] at hwalk
  obtain ⟨⟨r, s'⟩, hrun, -⟩ := exists_of_check
    (x := vfsFindpathAt dirImageMachine (fun _ => 0) dirImageHeap.1 [0x2F, 0x68, 0x69]
      dirImageIo.objects) (P := fun _ => true) (by decide +kernel)
  exact ⟨r, s', hrun, (hwalk.of_run hrun).2⟩

end Ttos
