/-
  Following a path: the kernel's walk finds the node of the file that the path
  leads to.

  * `Objects.Extends`: nothing that was live changed.
  * `meets_vfsFinddir`, `meets_vfsFindpath`: what a lookup finds is new, except for the root.
-/
import Ttos.Fs.Volumes

namespace Ttos

open Allocator

variable {σ δ α : Type} [Allocator σ]

/-- Every object that was live is as before. -/
structure Objects.Extends (s s' : Objects σ δ) : Prop where
  filesystems : s'.filesystems = s.filesystems
  files : s'.files = s.files
  live : ∀ p, Live s.heap p → Live s'.heap p
  nodes : ∀ p, Live s.heap p → s'.nodes p = s.nodes p

namespace Objects.Extends

variable {s s' s'' : Objects σ δ} {ptr : ℕ}

theorem refl (s : Objects σ δ) : s.Extends s := ⟨rfl, rfl, fun _ h => h, fun _ _ => rfl⟩

theorem trans (h : s.Extends s') (h' : s'.Extends s'') : s.Extends s'' where
  filesystems := h'.filesystems.trans h.filesystems
  files := h'.files.trans h.files
  live p hp := h'.live p (h.live p hp)
  nodes p hp := (h'.nodes p (h.live p hp)).trans (h.nodes p hp)

/-- A new node. -/
theorem setNode (h : s.Extends s') (hp : ¬ Live s.heap ptr) (node : AnyNode) :
    s.Extends (s'.setNode ptr node) where
  filesystems := h.filesystems
  files := h.files
  live := h.live
  nodes p hl := by
    have hne : p ≠ ptr := by
      rintro rfl
      exact hp hl
    exact (Function.update_of_ne hne _ _).trans (h.nodes p hl)

/-- Freeing what was not live before. -/
theorem free (h : s.Extends s') (hp : ¬ Live s.heap ptr) :
    s.Extends { s' with heap := Allocator.free s'.heap ptr } where
  filesystems := h.filesystems
  files := h.files
  live p hl := by
    refine (free_live _ _ _).2 ⟨h.live p hl, ?_⟩
    rintro rfl
    exact hp hl
  nodes := h.nodes

end Objects.Extends

/-! ## Computations on the heap -/

/-- A computation on the heap that frees only blocks of its own. -/
theorem meets_onHeap_frame {x : FsM σ α} {P : α → Prop} {new : α → Set ℕ}
    (h : Returns OutOfMemory x P) (hf : Frame ∅ new x) (s : Objects σ δ) :
    Meets OutOfMemory (onHeap x) s fun a s' =>
      P a ∧ s.Extends s' ∧ s'.nodes = s.nodes ∧ ∀ p ∈ new a, Live s'.heap p ∧ ¬ Live s.heap p := by
  rcases (h.with_frame hf s.heap).cases with ⟨e, hx, he⟩ | ⟨a, heap, hx, ha, hl, hn⟩
  · exact Meets.of_error (by rw [onHeap, hx]; rfl) he
  · have hrun : onHeap x s = .ok (a, { s with heap := heap }) := by rw [onHeap, hx]; rfl
    exact Meets.of_ok hrun ⟨ha, ⟨rfl, rfl, hl, fun _ _ => rfl⟩, rfl, hn⟩

theorem frame_kmalloc {size : ℕ} (hs : Request size) :
    Frame ∅ (fun p => {p}) (kmallocOrPanic size : FsM σ ℕ) := by
  rw [← bind_pure (kmallocOrPanic size)]
  exact frame_kmalloc_bind hs fun ptr _ => Frame.pure (by simp)

theorem meets_kmalloc {size : ℕ} (hs : Request size) (s : Objects σ δ) :
    Meets OutOfMemory (onHeap (kmallocOrPanic size)) s fun ptr s' =>
      ptr ≠ 0 ∧ s.Extends s' ∧ s'.nodes = s.nodes ∧ Live s'.heap ptr ∧ ¬ Live s.heap ptr := by
  refine (meets_onHeap_frame (returns_kmalloc rfl fun ptr h => h) (frame_kmalloc hs) s).mono ?_
  rintro ptr s' ⟨h0, he, hn, hp⟩
  exact ⟨h0, he, hn, (hp ptr rfl).1, (hp ptr rfl).2⟩

theorem meets_kfree (ptr : ℕ) (s : Objects σ δ) {allowed : FsStop → Prop} :
    Meets allowed (onHeap (kfree ptr)) s fun _ s' =>
      s' = { s with heap := Allocator.free s.heap ptr } := Meets.of_ok rfl rfl

/-! ## Lookup -/

/-- What a lookup that started in `s` found: nothing, or the new node of the file. -/
def FoundAt (image : VolumeImage) (a : ℕ) (s s' : Objects σ δ) (r : ℕ) : Option FileId → Prop
  | none => r = 0
  | some id => image.IsNode a (s'.nodes r) id ∧ Live s'.heap r ∧ ¬ Live s.heap r

section
variable {machine : Machine σ δ} {image : VolumeImage} {a node : ℕ} {id : FileId}

theorem FoundAt.of_extends {s₀ s s' : Objects σ δ} {r : ℕ} {found : Option FileId}
    (h : FoundAt image a s s' r found) (he : s₀.Extends s) : FoundAt image a s₀ s' r found := by
  cases found with
  | none => exact h
  | some id => exact ⟨h.1, h.2.1, fun hl => h.2.2 (he.live _ hl)⟩

theorem FoundAt.ne_null {s s' : Objects σ δ} {r : ℕ} (h : FoundAt image a s s' r (some id)) :
    r ≠ 0 := Allocator.ne_null h.2.1

/-- A node of a directory is the one its operations are called on. -/
theorem isDirectory_cond {s : Objects σ δ} (hl : Live s.heap node)
    (hn : image.IsNode a (s.nodes node) id) :
    (node ≠ 0 ∧ (s.nodes node).isDirectory = true) ↔ id.type = .directory :=
  (and_iff_right (ne_null hl)).trans hn.isDirectory_iff

theorem meets_vfsFinddir {s : Objects σ δ} (hw : image.WellFormed machine (s.filesystems a))
    (hl : Live s.heap node) (hn : image.IsNode a (s.nodes node) id) (ht : id.type = .directory)
    {name : List UInt8} (h0 : 0 ∉ name) :
    Meets OutOfMemory (vfsFinddir machine node name) s fun r s' =>
      s.Extends s' ∧ FoundAt image a s s' r (image.tree.find id.inode name) := by
  refine Meets.get_bind ?_
  rw [if_pos ((isDirectory_cond hl hn).2 ht), Objects.filesystemOf, hn.filesystem_eq]
  refine (meets_onHeap_frame (returns_nodeFinddir hw hn ht h0) (frame_nodeFinddir hw hn name) s).bind ?_
  rintro r s' ⟨hr, he, -, hp⟩
  cases hf : image.tree.find id.inode name with
  | none =>
    rw [hf] at hr
    obtain rfl : r = none := hr
    exact Meets.pure ⟨he, rfl⟩
  | some c =>
    rw [hf] at hr
    obtain ⟨ptr, child, rfl, hc⟩ := hr
    obtain ⟨hlive, hnew⟩ := hp ptr (mem_optionPtr.2 rfl)
    refine Meets.modify_bind (Meets.pure ⟨he.setNode hnew child, ?_, hlive, hnew⟩)
    rw [Objects.setNode]
    dsimp only
    rwa [Function.update_self]

/-- The walk along the names of a path. -/
theorem meets_vfsFindpathRecursive (names : List (List UInt8)) (hne : names ≠ [])
    (h0 : ∀ name ∈ names, 0 ∉ name) {s : Objects σ δ}
    (hw : image.WellFormed machine (s.filesystems a)) (hl : Live s.heap node)
    (hn : image.IsNode a (s.nodes node) id) :
    Meets OutOfMemory (vfsFindpathRecursive machine node names) s fun r s' =>
      s.Extends s' ∧ FoundAt image a s s' r (image.tree.resolve id names) := by
  induction names generalizing node id s with
  | nil => exact absurd rfl hne
  | cons name names ih =>
    refine Meets.get_bind ?_
    rw [FileTree.resolve]
    by_cases ht : id.type = .directory
    · rw [if_pos ((isDirectory_cond hl hn).2 ht), if_pos ht]
      refine (meets_vfsFinddir hw hl hn ht (h0 name (List.mem_cons_self ..))).bind ?_
      rintro next s' ⟨he, hfound⟩
      cases hf : image.tree.find id.inode name with
      | none =>
        rw [hf] at hfound
        obtain rfl : next = 0 := hfound
        rw [if_pos rfl]
        exact Meets.pure ⟨he, rfl⟩
      | some c =>
        rw [hf] at hfound
        rw [if_neg hfound.ne_null, Option.bind_some]
        by_cases hend : names = []
        · rw [if_pos hend, hend]
          exact Meets.pure ⟨he, hfound⟩
        · rw [if_neg hend]
          refine (ih hend (fun name h => h0 name (List.mem_cons_of_mem _ h))
            (by rwa [he.filesystems]) hfound.2.1 hfound.1).mono ?_
          rintro r s'' ⟨he', hr⟩
          exact ⟨he.trans he', hr.of_extends he⟩
    · rw [if_neg fun h => ht ((isDirectory_cond hl hn).1 h), if_neg ht]
      exact Meets.pure ⟨Objects.Extends.refl s, rfl⟩

/-! ## Paths -/

/-- A path as it can be passed to the kernel: a string without a zero byte that lies
    below the kernel's half of the address space. -/
structure CString where
  bytes : List UInt8
  nonnull : 0 ∉ bytes
  length_lt : bytes.length < 0xC0000000
deriving DecidableEq

omit [Allocator σ] in
theorem mem_of_mem_splitOn {c d : UInt8} {path name : List UInt8} (h : name ∈ path.splitOn d)
    (hc : c ∈ name) : c ∈ path := by
  induction path generalizing name with
  | nil =>
    rw [List.splitOn_nil, List.mem_singleton] at h
    rwa [h] at hc
  | cons b path ih =>
    rw [List.splitOn_cons_eq_if_modifyHead] at h
    split at h
    · rcases List.mem_cons.1 h with rfl | h
      · exact absurd hc List.not_mem_nil
      · exact List.mem_cons_of_mem _ (ih h hc)
    · cases hs : path.splitOn d with
      | nil => exact absurd hs (List.splitOn_ne_nil d path)
      | cons t ts =>
        rw [hs, List.modifyHead_cons] at h
        rcases List.mem_cons.1 h with rfl | h
        · rcases List.mem_cons.1 hc with rfl | hc
          · exact List.mem_cons_self ..
          · exact List.mem_cons_of_mem _ (ih (by rw [hs]; exact List.mem_cons_self ..) hc)
        · exact List.mem_cons_of_mem _ (ih (by rw [hs]; exact List.mem_cons_of_mem _ h) hc)

omit [Allocator σ] in
theorem pathNames_nonnull {path name : List UInt8} (h0 : 0 ∉ path)
    (h : name ∈ FileTree.pathNames path) : 0 ∉ name := by
  intro hc
  have hm := mem_of_mem_splitOn h hc
  split at hm
  · exact h0 (List.mem_of_mem_tail hm)
  · exact h0 hm

/-- Following a path with names in it, from a node of any file. -/
theorem meets_vfsFindpath_names {s : Objects σ δ} (hw : image.WellFormed machine (s.filesystems a))
    (hl : Live s.heap node) (hn : image.IsNode a (s.nodes node) id)
    {path : List UInt8} (h0 : 0 ∉ path) (hp : ¬ (path = [0x2F] ∨ path = []))
    (hlen : Request (path.length + 1)) :
    Meets OutOfMemory (vfsFindpath machine node path) s fun r s' => s.Extends s' ∧
      FoundAt image a s s' r (image.tree.resolve id (FileTree.pathNames path)) := by
  refine Meets.get_bind ?_
  by_cases ht : id.type = .directory
  swap
  · obtain ⟨name, names, hnames⟩ : ∃ name names, FileTree.pathNames path = name :: names :=
      List.exists_cons_of_ne_nil (List.splitOn_ne_nil _ _)
    rw [if_neg fun h => ht ((isDirectory_cond hl hn).1 h), hnames, FileTree.resolve, if_neg ht]
    exact Meets.pure ⟨Objects.Extends.refl s, rfl⟩
  rw [if_pos ((isDirectory_cond hl hn).2 ht), if_neg hp]
  refine (meets_kmalloc hlen s).bind ?_
  rintro pathCopy s₁ ⟨-, he₁, hn₁, hlive₁, hnew₁⟩
  refine (meets_vfsFindpathRecursive (FileTree.pathNames path) (List.splitOn_ne_nil _ _)
    (fun name h => pathNames_nonnull h0 h) (by rwa [he₁.filesystems]) (he₁.live _ hl)
    (by rwa [hn₁])).bind ?_
  rintro r s₂ ⟨he₂, hr⟩
  rw [freePathCopy]
  split
  · exact (Meets.of_ok (Q := fun _ s' => s' = s₂) rfl rfl).bind fun _ s₃ h => by
      subst h
      exact Meets.pure ⟨he₁.trans he₂, hr.of_extends he₁⟩
  · refine (meets_kfree pathCopy s₂).bind ?_
    rintro _ _ rfl
    refine Meets.pure ⟨(he₁.trans he₂).free hnew₁, ?_⟩
    cases hf : image.tree.resolve id (FileTree.pathNames path) with
    | none =>
      rw [hf] at hr
      exact hr
    | some c =>
      rw [hf] at hr
      obtain ⟨hc, hlive, hnew⟩ := hr
      refine ⟨hc, (free_live _ _ _).2 ⟨hlive, ?_⟩, fun h => hnew (he₁.live _ h)⟩
      rintro rfl
      exact hnew hlive₁

/-- **Following a path.**  The node found is the directory the walk started from, or
    a new node. -/
theorem meets_vfsFindpath {s : Objects σ δ} (hw : image.WellFormed machine (s.filesystems a))
    (hl : Live s.heap node) (hn : image.IsNode a (s.nodes node) image.tree.rootId)
    {path : List UInt8} (h0 : 0 ∉ path) (hlen : Request (path.length + 1)) :
    Meets OutOfMemory (vfsFindpath machine node path) s fun r s' => s.Extends s' ∧
      if path = [0x2F] ∨ path = [] then r = node
      else FoundAt image a s s' r (image.tree.lookup path) := by
  rw [FileTree.lookup]
  by_cases hp : path = [0x2F] ∨ path = []
  · simp only [if_pos hp]
    refine Meets.get_bind ?_
    rw [if_pos ((isDirectory_cond hl hn).2 rfl), if_pos hp]
    exact Meets.pure ⟨Objects.Extends.refl s, rfl⟩
  · simp only [if_neg hp]
    exact meets_vfsFindpath_names hw hl hn h0 hp hlen

end

end Ttos
