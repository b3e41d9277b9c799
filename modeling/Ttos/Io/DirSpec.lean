/-
  Directory descriptors on well-formed volumes.

  * `OpenDirs`: every open descriptor has a node of its own, for a directory of a
    mounted volume.
  * `meets_dirOpen`, `meets_dirRead`, `meets_dirClose`: one call.
-/
import Ttos.Fs.MountSpec
import Ttos.Io.Dir

namespace Ttos

open Allocator

variable {σ δ : Type} [Allocator σ] {machine : Machine σ δ} {images : ℕ → VolumeImage}

/-- The node of a descriptor; `0` where it is not open. -/
def IoState.dirNode (s : IoState σ δ) (dd : ℕ) : ℕ := (s.dirDescriptors dd).node

/-- The descriptor `dd` is open on the directory `no` of the file system at `a`. -/
def DirAt (images : ℕ → VolumeImage) (s : IoState σ δ) (dd a no : ℕ) : Prop :=
  (∃ i < fsVolumeMaxMountpoints, s.mountpoints i = a ∧ a ≠ 0) ∧ s.dirNode dd ≠ 0 ∧
    (images a).IsNode a (s.objects.nodes (s.dirNode dd)) ⟨.directory, no⟩

/-- The invariant of the descriptor table. -/
structure OpenDirs (machine : Machine σ δ) (images : ℕ → VolumeImage) (s : IoState σ δ) : Prop
    extends MountTable machine images s where
  dirLive : ∀ dd < maxDirDescriptors, s.dirNode dd ≠ 0 → Live s.objects.heap (s.dirNode dd)
  dirApart : ∀ dd < maxDirDescriptors, s.dirNode dd ≠ 0 → ∀ i < fsVolumeMaxMountpoints,
    s.mountpoints i ≠ 0 → s.root i ≠ s.dirNode dd
  dirInj : ∀ dd < maxDirDescriptors, ∀ dd' < maxDirDescriptors, dd ≠ dd' → s.dirNode dd ≠ 0 →
    s.dirNode dd ≠ s.dirNode dd'
  dirAt : ∀ dd < maxDirDescriptors, s.dirNode dd ≠ 0 → ∃ a no, DirAt images s dd a no

/-! ## Changes of the state -/

section
variable {s : IoState σ δ} {o : Objects σ δ} {dd a no node : ℕ}

omit [Allocator σ] in
@[simp] theorem dirNode_setDir_self (d : DirDescriptor) : (s.setDir dd d).dirNode dd = d.node :=
  congrArg DirDescriptor.node (Function.update_self ..)

omit [Allocator σ] in
theorem dirDescriptors_setDir_ne {dd' : ℕ} (h : dd' ≠ dd) (d : DirDescriptor) :
    (s.setDir dd d).dirDescriptors dd' = s.dirDescriptors dd' := Function.update_of_ne h _ _

omit [Allocator σ] in
theorem dirNode_setDir_ne {dd' : ℕ} (h : dd' ≠ dd) (d : DirDescriptor) :
    (s.setDir dd d).dirNode dd' = s.dirNode dd' := by
  rw [IoState.dirNode, dirDescriptors_setDir_ne h, IoState.dirNode]

theorem DirAt.extends (h : DirAt images s dd a no) (hl : Live s.objects.heap (s.dirNode dd))
    (he : s.objects.Extends o) : DirAt images { s with objects := o } dd a no := by
  refine ⟨h.1, h.2.1, ?_⟩
  show (images a).IsNode a (o.nodes (s.dirNode dd)) _
  rw [he.nodes _ hl]
  exact h.2.2

theorem OpenDirs.extends (h : OpenDirs machine images s) (he : s.objects.Extends o) :
    OpenDirs machine images { s with objects := o } where
  toMountTable := h.toMountTable.extends he
  dirLive dd hd h0 := he.live _ (h.dirLive dd hd h0)
  dirApart dd hd h0 i hi hm := by
    show (o.filesystems (s.mountpoints i)).root ≠ _
    rw [he.filesystems]
    exact h.dirApart dd hd h0 i hi hm
  dirInj := h.dirInj
  dirAt dd hd h0 := by
    obtain ⟨a, no, hat⟩ := h.dirAt dd hd h0
    exact ⟨a, no, hat.extends (h.dirLive dd hd h0) he⟩

/-- A descriptor whose node stays gets another index. -/
theorem OpenDirs.setIndex (h : OpenDirs machine images s) (index : ℕ) :
    OpenDirs machine images (s.setDir dd { s.dirDescriptors dd with index := index }) := by
  have hn : ∀ dd', (s.setDir dd { s.dirDescriptors dd with index := index }).dirNode dd' =
      s.dirNode dd' := by
    intro dd'
    by_cases hd : dd' = dd
    · rw [hd, dirNode_setDir_self]
      rfl
    · exact dirNode_setDir_ne hd _
  refine ⟨⟨h.volume, h.rootLive, h.rootNode⟩, ?_, ?_, ?_, ?_⟩
  · intro dd' hd h0
    rw [hn] at h0 ⊢
    exact h.dirLive dd' hd h0
  · intro dd' hd h0
    rw [hn] at h0 ⊢
    exact h.dirApart dd' hd h0
  · intro dd₁ h₁ dd₂ h₂ hne h0
    rw [hn] at h0 ⊢
    rw [hn]
    exact h.dirInj dd₁ h₁ dd₂ h₂ hne h0
  · intro dd' hd h0
    rw [hn] at h0
    obtain ⟨a, no, hm, h0', hat⟩ := h.dirAt dd' hd h0
    exact ⟨a, no, hm, by rwa [hn], by rwa [hn]⟩

/-- A new node in a descriptor that was not open. -/
theorem OpenDirs.open (h : OpenDirs machine images s) (he : s.objects.Extends o)
    (hl : Live o.heap node) (hnew : ¬ Live s.objects.heap node)
    (hm : ∃ i < fsVolumeMaxMountpoints, s.mountpoints i = a ∧ a ≠ 0)
    (hn : (images a).IsNode a (o.nodes node) ⟨.directory, no⟩) :
    OpenDirs machine images (({ s with objects := o } : IoState σ δ).setDir dd ⟨node, 0⟩) ∧
      DirAt images (({ s with objects := o } : IoState σ δ).setDir dd ⟨node, 0⟩) dd a no := by
  have h' := h.extends he
  have hat : DirAt images (({ s with objects := o } : IoState σ δ).setDir dd ⟨node, 0⟩) dd a no := by
    refine ⟨hm, ?_, ?_⟩
    · rw [dirNode_setDir_self]
      exact ne_null hl
    · rw [dirNode_setDir_self]
      exact hn
  refine ⟨⟨⟨h'.volume, h'.rootLive, h'.rootNode⟩, ?_, ?_, ?_, ?_⟩, hat⟩
  · intro dd' hd' hne
    by_cases hdd : dd' = dd
    · rw [hdd, dirNode_setDir_self]
      exact hl
    · rw [dirNode_setDir_ne hdd] at hne ⊢
      exact h'.dirLive dd' hd' hne
  · intro dd' hd' hne i hi hmi
    by_cases hdd : dd' = dd
    · rw [hdd, dirNode_setDir_self]
      intro heq
      refine hnew ?_
      have hr := h.rootLive i hi hmi
      have heq : (o.filesystems (s.mountpoints i)).root = node := heq
      rw [he.filesystems] at heq
      rwa [← heq]
    · rw [dirNode_setDir_ne hdd] at hne ⊢
      exact h'.dirApart dd' hd' hne i hi hmi
  · -- the new node is none of the old ones
    have hfresh : ∀ dd' < maxDirDescriptors, s.dirNode dd' ≠ node := by
      rintro dd' hd' rfl
      exact hnew (h.dirLive dd' hd' (ne_null hl))
    intro dd₁ h₁ dd₂ h₂ hne hn₁
    by_cases hd₁ : dd₁ = dd
    · rw [hd₁, dirNode_setDir_self, dirNode_setDir_ne (by rw [← hd₁]; exact hne.symm)]
      exact (hfresh dd₂ h₂).symm
    · rw [dirNode_setDir_ne hd₁] at hn₁ ⊢
      by_cases hd₂ : dd₂ = dd
      · rw [hd₂, dirNode_setDir_self]
        exact hfresh dd₁ h₁
      · rw [dirNode_setDir_ne hd₂]
        exact h'.dirInj dd₁ h₁ dd₂ h₂ hne hn₁
  · intro dd' hd' hne
    by_cases hdd : dd' = dd
    · rw [hdd]
      exact ⟨a, no, hat⟩
    · rw [dirNode_setDir_ne hdd] at hne
      obtain ⟨a', no', hm', hn', hat'⟩ := h'.dirAt dd' hd' hne
      exact ⟨a', no', hm', by rwa [dirNode_setDir_ne hdd], by rwa [dirNode_setDir_ne hdd]⟩

/-- The node of a descriptor is freed and the descriptor closed. -/
theorem OpenDirs.close (h : OpenDirs machine images s) (hd : dd < maxDirDescriptors)
    (h0 : s.dirNode dd ≠ 0) {heap : σ}
    (hheap : ∀ p, Live heap p ↔ Live s.objects.heap p ∧ p ≠ s.dirNode dd) (index : ℕ) :
    OpenDirs machine images
      (({ s with objects := { s.objects with heap := heap } } : IoState σ δ).setDir dd ⟨0, index⟩) := by
  have hne : ∀ dd', (({ s with objects := { s.objects with heap := heap } } : IoState σ δ).setDir dd
      ⟨0, index⟩).dirNode dd' ≠ 0 → dd' ≠ dd ∧ s.dirNode dd' ≠ 0 := by
    intro dd' hn
    by_cases hdd : dd' = dd
    · rw [hdd, dirNode_setDir_self] at hn
      exact absurd rfl hn
    · rw [dirNode_setDir_ne hdd] at hn
      exact ⟨hdd, hn⟩
  refine ⟨⟨h.volume, fun i hi hm => ?_, h.rootNode⟩, ?_, ?_, ?_, ?_⟩
  · exact (hheap _).2 ⟨h.rootLive i hi hm, h.dirApart dd hd h0 i hi hm⟩
  · intro dd' hd' hn
    obtain ⟨hdd, hn'⟩ := hne dd' hn
    rw [dirNode_setDir_ne hdd]
    exact (hheap _).2 ⟨h.dirLive dd' hd' hn', h.dirInj dd' hd' dd hd hdd hn'⟩
  · intro dd' hd' hn
    obtain ⟨hdd, hn'⟩ := hne dd' hn
    rw [dirNode_setDir_ne hdd]
    exact h.dirApart dd' hd' hn'
  · intro dd₁ h₁ dd₂ h₂ hdd hn₁
    obtain ⟨hd₁, hn₁'⟩ := hne dd₁ hn₁
    rw [dirNode_setDir_ne hd₁]
    by_cases hd₂ : dd₂ = dd
    · rw [hd₂, dirNode_setDir_self]
      exact hn₁'
    · rw [dirNode_setDir_ne hd₂]
      exact h.dirInj dd₁ h₁ dd₂ h₂ hdd hn₁'
  · intro dd' hd' hn
    obtain ⟨hdd, hn'⟩ := hne dd' hn
    obtain ⟨a', no', hm', h0', hat'⟩ := h.dirAt dd' hd' hn'
    refine ⟨a', no', hm', by rwa [dirNode_setDir_ne hdd], ?_⟩
    rw [dirNode_setDir_ne hdd]
    exact hat'

end

/-! ## Opening -/

/-- The directory that a path leads to, with its file system. -/
def dirTarget (images : ℕ → VolumeImage) (s : IoState σ δ) (path : List UInt8) : Option (ℕ × ℕ) :=
  (pathTarget images s path).bind fun t =>
    if t.2.type = .directory then some (t.1, t.2.inode) else none

/-- What `dir_open` did: it failed and the tables are as before, or it opened a descriptor
    that was not open, with a new node for the directory. -/
def DirOpened (images : ℕ → VolumeImage) (s : IoState σ δ) (path : List UInt8) (r : Int)
    (s' : IoState σ δ) : Prop :=
  ∃ o, s.objects.Extends o ∧
    (r = -1 ∧ dirTarget images s path = none ∧ s' = { s with objects := o } ∨
      ∃ dd < maxDirDescriptors, ∃ a no node, r = dd ∧ s.dirNode dd = 0 ∧
        dirTarget images s path = some (a, no) ∧
        s' = ({ s with objects := o } : IoState σ δ).setDir dd ⟨node, 0⟩ ∧
        Live o.heap node ∧ ¬ Live s.objects.heap node ∧
        (∃ i < fsVolumeMaxMountpoints, s.mountpoints i = a ∧ a ≠ 0) ∧
        (images a).IsNode a (o.nodes node) ⟨.directory, no⟩)

/-- What following a path to its file found. -/
def PathFound (image : VolumeImage) (a root : ℕ) (s o : Objects σ δ) (r : ℕ)
    (found : Option FileId) : Prop :=
  r = root ∧ found = some image.tree.rootId ∨ FoundAt image a s o r found

theorem meets_openPath {s : IoState σ δ} (h : MountTable machine images s) (path : CString)
    {a : ℕ} (ha : s.drive (path.bytes.headD 0) = a) (h0 : a ≠ 0) :
    Meets OutOfMemory
      (vfsFindpath machine (s.objects.filesystems a).root (path.bytes.drop 3)) s.objects fun r o =>
        s.objects.Extends o ∧ PathFound (images a) a (s.objects.filesystems a).root s.objects o r
          ((images a).tree.lookup (path.bytes.drop 3)) := by
  obtain ⟨i, hi, hai⟩ := drive_eq (by rwa [ha])
  rw [ha] at hai
  subst hai
  have hlen := path.length_lt
  have hreq : Request ((path.bytes.drop 3).length + 1) := by
    rw [List.length_drop]
    exact ⟨Nat.succ_pos _, by omega⟩
  refine (meets_vfsFindpath (h.volume i hi h0) (h.rootLive i hi h0) (h.rootNode i hi h0)
    (fun hm => path.nonnull (List.mem_of_mem_drop hm)) hreq).mono ?_
  rintro r o ⟨he, hr⟩
  refine ⟨he, ?_⟩
  by_cases hp : path.bytes.drop 3 = [0x2F] ∨ path.bytes.drop 3 = []
  · rw [if_pos hp] at hr
    exact Or.inl ⟨hr, if_pos hp⟩
  · rw [if_neg hp] at hr
    exact Or.inr hr

/-- Opening the node of a directory does nothing. -/
theorem meets_vfsOpen_directory {image : VolumeImage} {o : Objects σ δ} {a node : ℕ} {id : FileId}
    {allowed : FsStop → Prop} (hw : image.WellFormed machine (o.filesystems a))
    (hl : Live o.heap node) (hn : image.IsNode a (o.nodes node) id) (ht : id.type = .directory) :
    Meets allowed (vfsOpen machine node) o fun r o' => r = 0 ∧ o' = o := by
  rw [vfsOpen, if_pos (ne_null hl)]
  refine Meets.get_bind ?_
  rw [Objects.filesystemOf, hn.filesystem_eq, nodeOpen_directory hw hn ht]
  refine Meets.bind (Q := fun r o' => r = ((0 : Int), o.nodes node) ∧ o' = o) (Meets.of_ok rfl ⟨rfl, rfl⟩) ?_
  rintro _ _ ⟨rfl, rfl⟩
  refine Meets.modify_bind (Meets.pure ⟨rfl, ?_⟩)
  rw [Objects.setNode, Function.update_eq_self]

/-- The root node is copied, any other node is kept. -/
theorem meets_dirCopyRoot {image : VolumeImage} {s o : Objects σ δ} {a root node : ℕ}
    {found : Option FileId} {id : FileId} (he : s.Extends o) (hr : Live s.heap root)
    (hroot : image.IsNode a (s.nodes root) image.tree.rootId) (hfound : found = some id)
    (h : PathFound image a root s o node found) :
    Meets OutOfMemory (dirCopyRoot root node) o fun r o' =>
      s.Extends o' ∧ image.IsNode a (o'.nodes r) id ∧ Live o'.heap r ∧ ¬ Live s.heap r := by
  rw [dirCopyRoot]
  rcases h with ⟨rfl, hid⟩ | hf
  · rw [if_pos rfl]
    refine (meets_kmalloc (by decide) o).bind ?_
    rintro ptr o₁ ⟨-, he₁, hn₁, hl₁, hnew₁⟩
    have hnew : ¬ Live s.heap ptr := fun hl => hnew₁ (he.live _ hl)
    refine Meets.modify_bind (Meets.pure ⟨(he.trans he₁).setNode hnew _, ?_, hl₁, hnew⟩)
    rw [Objects.setNode]
    dsimp only
    rw [Function.update_self, hn₁, he.nodes _ hr]
    rw [hfound] at hid
    rwa [Option.some.inj hid]
  · rw [hfound] at hf
    have hne : node ≠ root := by
      rintro rfl
      exact hf.2.2 hr
    rw [if_neg hne]
    exact Meets.pure ⟨he, hf.1, hf.2.1, hf.2.2⟩

omit [Allocator σ] in
theorem dirGetFreeDescriptor_some {s : IoState σ δ} {dd : ℕ} (h : dirGetFreeDescriptor s = some dd) :
    dd < maxDirDescriptors ∧ s.dirNode dd = 0 := by
  have hm := List.mem_of_find?_eq_some h
  have hz : decide (s.dirNode dd = 0) = true :=
    List.find?_some (p := fun dd => decide (s.dirNode dd = 0)) h
  exact ⟨List.mem_range.1 hm, of_decide_eq_true hz⟩

/-- **`dir_open`** while a descriptor is free. -/
theorem meets_dirOpen {s : IoState σ δ} (h : OpenDirs machine images s) (path : CString)
    (hfree : ∃ dd < maxDirDescriptors, s.dirNode dd = 0) :
    Meets OutOfMemory (dirOpen machine path.bytes) s fun r s' =>
      DirOpened images s path.bytes r s' := by
  rw [dirOpen]
  by_cases habs : vfsIsAbsPath path.bytes = true
  swap
  · rw [if_pos (by rw [Bool.not_eq_true', Bool.eq_false_iff]; exact habs)]
    refine Meets.pure ⟨s.objects, Objects.Extends.refl _, Or.inl ⟨rfl, ?_, rfl⟩⟩
    rw [dirTarget, pathTarget, if_neg fun h => habs h.1]
    rfl
  rw [if_neg (by rw [habs]; decide)]
  refine (meets_mntGetMountpoint habs).bind ?_
  rintro a s₁ ⟨ha, hs₁⟩
  rw [hs₁]
  refine Meets.get_bind ?_
  dsimp only
  by_cases h0 : a = 0
  · rw [if_pos (Or.inl h0)]
    refine Meets.pure ⟨s.objects, Objects.Extends.refl _, Or.inl ⟨rfl, ?_, rfl⟩⟩
    rw [dirTarget, pathTarget, if_neg fun h => h.2 (ha.symm.trans h0)]
    rfl
  obtain ⟨i, hi, hai⟩ := drive_eq (by rw [← ha]; exact h0)
  rw [← ha] at hai
  have hrootLive : Live s.objects.heap (s.objects.filesystems a).root := by
    rw [hai]
    exact h.rootLive i hi (by rwa [← hai])
  have hrootNode : (images a).IsNode a (s.objects.nodes (s.objects.filesystems a).root)
      (images a).tree.rootId := by
    rw [hai]
    exact h.rootNode i hi (by rwa [← hai])
  have hvol : (images a).WellFormed machine (s.objects.filesystems a) := by
    rw [hai]
    exact h.volume i hi (by rwa [← hai])
  rw [if_neg (by rintro (h | h); exacts [h0 h, ne_null hrootLive h])]
  have htarget : dirTarget images s path.bytes =
      ((images a).tree.lookup (path.bytes.drop 3)).bind fun id =>
        if id.type = .directory then some (a, id.inode) else none := by
    rw [dirTarget, pathTarget, if_pos ⟨habs, by rwa [← ha]⟩, ← ha]
    cases (images a).tree.lookup (path.bytes.drop 3) <;> rfl
  refine (meets_onObjects (meets_openPath h.toMountTable path ha.symm h0)).bind ?_
  rintro node _ ⟨o, rfl, he, hfound⟩
  refine Meets.get_bind ?_
  cases hf : (images a).tree.lookup (path.bytes.drop 3) with
  | none =>
    have hnode : node = 0 := by
      rw [hf] at hfound
      rcases hfound with ⟨-, hid⟩ | hfound
      · cases hid
      · exact hfound
    rw [if_pos hnode]
    exact Meets.pure ⟨o, he, Or.inl ⟨rfl, by rw [htarget, hf]; rfl, rfl⟩⟩
  | some id =>
    have hnode : Live o.heap node ∧ (images a).IsNode a (o.nodes node) id := by
      rw [hf] at hfound
      rcases hfound with ⟨rfl, hid⟩ | hfound
      · rw [Option.some.inj hid, he.nodes _ hrootLive]
        exact ⟨he.live _ hrootLive, hrootNode⟩
      · exact ⟨hfound.2.1, hfound.1⟩
    rw [if_neg (ne_null hnode.1)]
    dsimp only
    by_cases ht : id.type = .directory
    swap
    · -- a file is never the root, so its node is new
      have hdir : (o.nodes node).isDirectory = false := by
        rw [Bool.eq_false_iff]
        exact fun h => ht (hnode.2.isDirectory_iff.1 h)
      have hnew : ¬ Live s.objects.heap node := by
        rw [hf] at hfound
        rcases hfound with ⟨-, hid⟩ | hfound
        · exact absurd (by rw [Option.some.inj hid]; rfl) ht
        · exact hfound.2.2
      rw [if_pos (by rw [hdir]; rfl)]
      refine (meets_onObjects (meets_kfree node o)).bind ?_
      rintro _ _ ⟨o', rfl, rfl⟩
      refine Meets.pure ⟨_, he.free hnew, Or.inl ⟨rfl, ?_, rfl⟩⟩
      rw [htarget, hf, Option.bind_some, if_neg ht]
    have hdir : (o.nodes node).isDirectory = true := hnode.2.isDirectory_iff.2 ht
    rw [if_neg (by rw [hdir]; decide)]
    cases hd : dirGetFreeDescriptor { s with objects := o } with
    | none =>
      obtain ⟨dd, hdd, hz⟩ := hfree
      have hn := List.find?_eq_none.1 hd dd (List.mem_range.2 hdd)
      exact absurd (decide_eq_true hz) hn
    | some dd =>
      obtain ⟨hdd, hz⟩ := dirGetFreeDescriptor_some hd
      dsimp only
      rw [dirOpenNode]
      refine (meets_onObjects (meets_dirCopyRoot he hrootLive hrootNode hf hfound)).bind ?_
      rintro node' _ ⟨o', rfl, he', hn', hl', hnew'⟩
      have hvol' : (images a).WellFormed machine (o'.filesystems a) := by rwa [he'.filesystems]
      refine Meets.modify_bind ?_
      refine (meets_onObjects (meets_vfsOpen_directory hvol' hl' hn' ht)).bind ?_
      rintro r _ ⟨_, rfl, rfl, rfl⟩
      rw [if_neg (by decide)]
      have hid : id = ⟨.directory, id.inode⟩ := by rw [← ht]
      refine Meets.pure ⟨_, he', Or.inr ⟨dd, hdd, a, id.inode, node', rfl, hz, ?_, rfl, hl', hnew',
        ⟨i, hi, hai.symm, h0⟩, hid ▸ hn'⟩⟩
      rw [htarget, hf, Option.bind_some, if_pos ht]

/-! ## Reading and closing -/

/-- The heap cannot serve the caller's copy of the next entry. -/
def CopyRefused (machine : Machine σ δ) (s : IoState σ δ) (dd : ℕ) : Prop :=
  ∃ r o, vfsReaddir machine (s.dirNode dd) (s.dirDescriptors dd).index s.objects = .ok (some r, o) ∧
    (Allocator.alloc o.heap dirDirentSize false).1 = 0

/-- What `dir_read` did on a descriptor open on the directory with the entries
    `entries`: it returned the next entry and counted it, or there is none, or the
    heap refused the copy. -/
def DirReadAt (machine : Machine σ δ) (s : IoState σ δ) (dd : ℕ) (entries : List VfsDirent)
    (r : Option (ℕ × VfsDirent)) (s' : IoState σ δ) : Prop :=
  ∃ o, s.objects.Extends o ∧
    (CopyRefused machine s dd ∧ r = none ∧ s' = { s with objects := o } ∨
      ¬ CopyRefused machine s dd ∧
        r.map Prod.snd = entries[(s.dirDescriptors dd).index]? ∧
        s' = if r.isSome then ({ s with objects := o } : IoState σ δ).setDir dd
            { s.dirDescriptors dd with index := (s.dirDescriptors dd).index + 1 }
          else { s with objects := o })

/-- The caller's copy, and what is freed. -/
theorem meets_dirCopyDirent {o s : Objects σ δ} (he : s.Extends o) {ptr : ℕ} {e : VfsDirent}
    (hnew : ¬ Live s.heap ptr) {allowed : FsStop → Prop} :
    Meets allowed (onHeap (dirCopyDirent (ptr, e))) o fun r o' => s.Extends o' ∧
      if (Allocator.alloc o.heap dirDirentSize false).1 = 0 then r = none
      else r.map Prod.snd = some { e with name := e.name.take 256 } := by
  have hreq : Request dirDirentSize := by decide
  refine Meets.of_ok rfl ⟨⟨he.filesystems, he.files, fun p hp => ?_, he.nodes⟩, ?_⟩
  · refine (free_live _ _ _).2 ⟨alloc_keeps hreq (he.live p hp), ?_⟩
    rintro rfl
    exact hnew hp
  · dsimp only
    split <;> rfl

/-- **`dir_read`** on an open descriptor. -/
theorem meets_dirRead {s : IoState σ δ} (h : OpenDirs machine images s) {dd a no : ℕ}
    (hd : dd < maxDirDescriptors) (hat : DirAt images s dd a no) :
    Meets OutOfMemory (dirRead machine (dd : Int)) s fun r s' =>
      DirReadAt machine s dd ((images a).tree.entries no) r s' := by
  obtain ⟨⟨i, hi, hia, h0⟩, hne, hn⟩ := hat
  have hl := h.dirLive dd hd hne
  have hvol : (images a).WellFormed machine (s.objects.filesystems a) := by
    rw [← hia]
    exact h.volume i hi (by rwa [hia])
  obtain ⟨hnames, hlen⟩ := VolumeImage.entries_bounds hvol hn rfl
  dsimp only at hnames hlen
  have hrange : ¬ ((dd : Int) < 0 ∨ (maxDirDescriptors : Int) ≤ dd) := by
    have : dd < 256 := hd
    have : ((maxDirDescriptors : ℕ) : Int) = 256 := rfl
    omega
  rw [dirRead, if_neg hrange]
  refine Meets.get_bind ?_
  dsimp only
  rw [Int.toNat_natCast, ← IoState.dirNode, if_neg hne]
  have hreaddir : Meets OutOfMemory
      (vfsReaddir machine (s.dirNode dd) (s.dirDescriptors dd).index) s.objects fun r o =>
        r.map Prod.snd = ((images a).tree.entries no)[(s.dirDescriptors dd).index]? ∧
          s.objects.Extends o ∧ ∀ p ∈ optionPtr r, ¬ Live s.objects.heap p := by
    refine Meets.get_bind ?_
    rw [if_pos ((isDirectory_cond hl hn).2 rfl), Objects.filesystemOf, hn.filesystem_eq]
    refine (meets_onHeap_frame (returns_nodeReaddir hvol hn rfl _) (frame_nodeReaddir hvol hn _) _).mono ?_
    rintro r o ⟨hr, he, -, hp⟩
    exact ⟨hr, he, fun p hm => (hp p hm).2⟩
  refine (meets_onObjects hreaddir.with_run).bind ?_
  rintro r _ ⟨o, rfl, ⟨hr, he, hnew⟩, hrun⟩
  cases r with
  | none =>
    refine Meets.pure ⟨o, he, Or.inr ⟨?_, hr, rfl⟩⟩
    rintro ⟨r, o', hrun', -⟩
    rw [hrun] at hrun'
    cases hrun'
  | some r =>
    obtain ⟨ptr, e⟩ := r
    have hent : e ∈ (images a).tree.entries no := List.mem_of_getElem? hr.symm
    have hidx : (s.dirDescriptors dd).index < ((images a).tree.entries no).length :=
      (List.getElem?_eq_some_iff.1 hr.symm).1
    have htake : e.name.take 256 = e.name := List.take_of_length_le (by have := hnames e hent; omega)
    refine (meets_onObjects (meets_dirCopyDirent he (hnew ptr (mem_optionPtr.2 rfl)))).bind ?_
    rintro r _ ⟨o', rfl, he', hcopy⟩
    have hrefused : CopyRefused machine s dd ↔
        (Allocator.alloc o.heap dirDirentSize false).1 = 0 := by
      constructor
      · rintro ⟨r, o'', hrun', ha⟩
        rw [hrun] at hrun'
        obtain ⟨-, rfl⟩ := Prod.mk.inj (Except.ok.inj hrun')
        exact ha
      · exact fun ha => ⟨_, o, hrun, ha⟩
    split at hcopy
    · rename_i ha
      subst hcopy
      exact Meets.pure ⟨o', he', Or.inl ⟨hrefused.2 ha, rfl, rfl⟩⟩
    · rename_i ha
      cases r with
      | none => cases hcopy
      | some r =>
        refine Meets.modify_bind (Meets.pure ⟨o', he', Or.inr ⟨fun h => ha (hrefused.1 h), ?_, ?_⟩⟩)
        · rw [hcopy, ← hr, htake]
          rfl
        · rw [u32_of_lt (by omega)]
          rfl

/-- **`dir_close`** frees the node of the descriptor. -/
theorem meets_dirClose {s : IoState σ δ} {dd : ℕ} (hd : dd < maxDirDescriptors)
    (h0 : s.dirNode dd ≠ 0) {allowed : FsStop → Prop} :
    Meets allowed (dirClose (dd : Int)) s fun r s' => r = 0 ∧ ∃ heap,
      (∀ p, Live heap p ↔ Live s.objects.heap p ∧ p ≠ s.dirNode dd) ∧
      s' = ({ s with objects := { s.objects with heap := heap } } : IoState σ δ).setDir dd
        ⟨0, (s.dirDescriptors dd).index⟩ := by
  have hrange : ¬ ((dd : Int) < 0 ∨ (maxDirDescriptors : Int) ≤ dd) := by
    have : dd < 256 := hd
    have : ((maxDirDescriptors : ℕ) : Int) = 256 := rfl
    omega
  rw [dirClose, if_neg hrange]
  refine Meets.get_bind ?_
  dsimp only
  rw [Int.toNat_natCast, ← IoState.dirNode, if_neg h0]
  refine (meets_onObjects (meets_kfree _ _)).bind ?_
  rintro _ _ ⟨_, rfl, rfl⟩
  refine (meets_onObjects (meets_kfree _ _)).bind ?_
  rintro _ _ ⟨_, rfl, rfl⟩
  refine Meets.modify_bind (Meets.pure ⟨rfl, _, fun p => ?_, rfl⟩)
  rw [free_live, free_live, and_assoc, and_self]

end Ttos
