/-
  File descriptors of processes: the open, read and close system calls on files (syscall.c), with
  `file_close` (file.c) and `vfs_close` (vfs.c).

  * `Objects.Keeps`: what a call leaves of the objects that were live.
  * `meets_fileOpen_new`: opening a file makes new objects only.
  * `meets_fileClose_open`: closing frees the descriptor's own objects only.
-/
import Ttos.Io.FileRun
import Ttos.System.Process

namespace Ttos

open Allocator

/-! ## The code -/

/-- `FILE_CREAT` -/
abbrev fileCreat : ℕ := 4

variable {σ δ : Type}

/-- The kernel's file handling with `process_t::files` of every process. -/
structure FdState (σ δ : Type) where
  io : IoState σ δ
  files : ℕ → ℕ → ℕ

abbrev FdM (σ δ : Type) := StateT (FdState σ δ) (Except FsStop)

/-- Run a computation that does not see the tables of the processes. -/
def onIo {α : Type} (x : IoM σ δ α) : FdM σ δ α := fun s =>
  (x s.io).map fun r => (r.1, { s with io := r.2 })

def FdState.setFile (s : FdState σ δ) (process fd ptr : ℕ) : FdState σ δ :=
  { s with files := Function.update s.files process (Function.update (s.files process) fd ptr) }

section
variable [Allocator σ] (machine : Machine σ δ)

/-- The call through `node->operations->close`: the result, and the node. -/
def nodeClose : AnyNode → FsM σ (Int × AnyNode)
  | .initfs node => Prod.map id .initfs <$> initfsClose node
  | .ext2 node => Prod.map id .ext2 <$> ext2Close node

/-- `vfs_close` -/
def vfsClose (node : ℕ) : ObjectsM σ δ Int := do
  if node ≠ 0 then
    let s ← get
    let (result, closed) ← onHeap (nodeClose (s.nodes node))
    modify fun s => s.setNode node closed
    pure result
  else pure (-1)

/-- `file_close` -/
def fileClose (fd : ℕ) : ObjectsM σ δ Int := do
  if fd = 0 then pure (-1)
  else
    let node := ((← get).files fd).node
    if node = 0 then pure (-1)
    else
      let result ← vfsClose node
      if result ≠ 0 then pure (-1)
      else do
        onHeap (kfree fd)
        pure 0

/-- The search of `syscall_open` for a free descriptor; the first three are the streams. -/
def FdState.freeFd (s : FdState σ δ) (process : ℕ) : Option ℕ :=
  (List.range' 3 (processMaxFileDescriptors - 3)).find? fun fd => s.files process fd = 0

/-- `syscall_open` -/
def syscallOpen (process : ℕ) (name : List UInt8) (flags : ℕ) : FdM σ δ Int := do
  if flags &&& fileCreat ≠ 0 then pure (-1)
  else
    match (← get).freeFd process with
    | none => pure (-1)
    | some fd =>
      let fileDescriptor ← onIo (fileOpen machine name flags)
      if fileDescriptor ≠ 0 then
        modify fun s => s.setFile process fd fileDescriptor
        pure fd
      else pure (-1)

/-- `syscall_read` on a file: the result, and what the caller's buffer holds. -/
def syscallReadFile (process : ℕ) (fd : Int) (size : ℕ) (buffer : Mem) : FdM σ δ (Int × Mem) := do
  if fd < 0 ∨ (processMaxFileDescriptors : Int) ≤ fd then pure (-1, buffer)
  else
    let ptr := (← get).files process fd.toNat
    if ptr ≠ 0 then onIo (onObjects (fileRead machine ptr size buffer))
    else pure (-1, buffer)

/-- `syscall_close` -/
def syscallClose (process : ℕ) (fd : Int) : FdM σ δ Int := do
  if fd < 0 ∨ (processMaxFileDescriptors : Int) ≤ fd then pure (-1)
  else if fd < 3 then pure (-1)
  else
    let ptr := (← get).files process fd.toNat
    if ptr ≠ 0 then
      let _ ← onIo (onObjects (fileClose ptr))
      modify fun s => s.setFile process fd.toNat 0
      pure 0
    else pure (-1)

end

/-! ## What an open file holds -/

/-- The block of an object that is loaded. -/
def InodeData.ptrs {ι : Type} : InodeData ι → Set ℕ
  | .loaded ptr _ => {ptr}
  | _ => ∅

def AnyNode.dataPtrs : AnyNode → Set ℕ
  | .initfs node => node.inodeData.ptrs
  | .ext2 node => node.inodeData.ptrs

/-- The blocks of the descriptor at `fd`: its own, its node's, and that of the node's data. -/
def Objects.held (s : Objects σ δ) (fd : ℕ) : Set ℕ :=
  insert fd (insert (s.files fd).node (s.nodes (s.files fd).node).dataPtrs)

theorem Objects.held_congr {s s' : Objects σ δ} {fd : ℕ} (hf : s'.files fd = s.files fd)
    (hn : s'.nodes (s.files fd).node = s.nodes (s.files fd).node) : s'.held fd = s.held fd := by
  rw [Objects.held, Objects.held, hf, hn]

variable [Allocator σ]

/-- Every object that was live, other than those in `but`, is as before. -/
structure Objects.Keeps (s : Objects σ δ) (but : Set ℕ) (s' : Objects σ δ) : Prop where
  filesystems : s'.filesystems = s.filesystems
  live : ∀ p, p ∉ but → Live s.heap p → Live s'.heap p
  nodes : ∀ p, p ∉ but → Live s.heap p → s'.nodes p = s.nodes p
  files : ∀ p, p ∉ but → Live s.heap p → s'.files p = s.files p

theorem Objects.Extends.keeps {s s' : Objects σ δ} (h : s.Extends s') : s.Keeps ∅ s' :=
  ⟨h.filesystems, fun p _ => h.live p, fun p _ => h.nodes p, fun p _ _ => congrFun h.files p⟩

variable {machine : Machine σ δ} {images : ℕ → VolumeImage} {image : VolumeImage}
  {filesystem : VfsFilesystem δ} {a no : ℕ} {id : FileId} {node : AnyNode}

/-- Opening a regular file loads its data into a new block. -/
theorem frame_nodeOpen (hw : image.WellFormed machine filesystem) (hn : image.IsNode a node id)
    (ht : id.type = .file) :
    Frame ∅ (fun r => {p | r.1 = 0 ∧ p ∈ r.2.dataPtrs}) (nodeOpen machine filesystem node : FsM σ _) := by
  have htype := hn.type_eq.trans ht
  cases image <;> cases node
  case ext2.ext2 bytes blocks node =>
    obtain ⟨hv, -, ptr, hdata⟩ := hw
    have htype : node.type = .file := htype
    rw [nodeOpen]
    simp only [hdata]
    rw [map_eq_pure_bind, ext2Open, if_neg (by rw [htype]; decide), bind_assoc]
    refine frame_kmalloc_bind (by decide) fun ptr _ => ?_
    rw [bind_assoc]
    refine (preserves_readInode (request_blockSize hv.layout) node.inode).bind_preserves fun inode => ?_
    cases inode with
    | none =>
      rw [bind_assoc]
      refine frame_kfree_bind (Set.mem_insert ..) (Frame.pure ?_)
      rintro p ⟨h, -⟩
      cases h
    | some inode =>
      refine Frame.pure ?_
      rintro p ⟨-, hp⟩
      exact Or.inl hp
  case initfs.initfs bytes names node =>
    have htype : node.type = .file := htype
    rw [nodeOpen, map_eq_pure_bind, initfsOpen, if_neg (by rw [htype]; decide)]
    split
    · refine Frame.pure ?_
      rintro p ⟨h, -⟩
      cases h
    · rw [bind_assoc]
      refine frame_kmallocBuffer_bind (by decide) fun ptr buffer _ => ?_
      dsimp only
      split
      · refine Frame.pure ?_
        rintro p ⟨h, -⟩
        cases h
      · refine Frame.pure ?_
        rintro p ⟨-, hp⟩
        exact Or.inl hp
  all_goals exact hn.elim

/-! ## Opening -/

omit [Allocator σ] in
/-- Two properties of one run. -/
theorem Meets.and {α τ ε : Type} {allowed : ε → Prop} {x : StateT τ (Except ε) α} {t : τ}
    {P Q : α → τ → Prop} (hp : Meets allowed x t P) (hq : Meets allowed x t Q) :
    Meets allowed x t fun r t' => P r t' ∧ Q r t' := by
  rcases hp.cases with ⟨e, hx, he⟩ | ⟨r, t', hx, h⟩
  · exact Meets.of_error hx he
  · exact Meets.of_ok hx ⟨h, hq.of_run hx⟩

variable {s o : Objects σ δ}

/-- What `file_open` makes is new. -/
theorem meets_fileOpenNode_new {ptr flags : ℕ} (he : s.Extends o) (hnew : ¬ Live s.heap ptr)
    (hw : image.WellFormed machine (o.filesystems a)) (hl : Live o.heap ptr)
    (hn : image.IsNode a (o.nodes ptr) ⟨.file, no⟩) :
    Meets OutOfMemory (fileOpenNode machine ptr flags) o fun fd o' =>
      s.Keeps ∅ o' ∧ ∀ p ∈ o'.held fd, Live o'.heap p ∧ ¬ Live s.heap p := by
  refine (meets_kmalloc (by decide) o).bind ?_
  rintro fd o₁ ⟨-, he₁, hnodes, hlive₁, hnew₁⟩
  refine Meets.modify_bind ?_
  rw [vfsOpen, if_pos (ne_null hl)]
  have hfd : ¬ Live s.heap fd := fun h => hnew₁ (he.live _ h)
  have hopened : Meets OutOfMemory (do
      let t ← get
      let (result, opened) ← onHeap (nodeOpen machine (t.filesystemOf ptr) (t.nodes ptr))
      modify fun t => t.setNode ptr opened
      pure result) (o₁.setFile fd ⟨ptr, (o₁.nodes ptr).length, 0, flags⟩) fun r o' => r = (0 : Int) ∧
        s.Keeps ∅ o' ∧ ∀ p ∈ o'.held fd, Live o'.heap p ∧ ¬ Live s.heap p := by
    refine Meets.get_bind ?_
    have hnode : (o₁.setFile fd ⟨ptr, (o₁.nodes ptr).length, 0, flags⟩).nodes ptr = o.nodes ptr := by
      rw [Objects.setFile, hnodes]
    have hfs : (o₁.setFile fd ⟨ptr, (o₁.nodes ptr).length, 0, flags⟩).filesystems = o.filesystems := by
      rw [Objects.setFile]
      exact he₁.filesystems
    rw [Objects.filesystemOf, hnode, hfs, hn.filesystem_eq]
    refine (meets_onHeap_frame (returns_nodeOpen hw hn rfl) (frame_nodeOpen hw hn rfl) _).bind ?_
    rintro ⟨r, opened⟩ o₂ ⟨⟨hr, -⟩, he₂, hnodes₂, hdata⟩
    refine Meets.modify_bind (Meets.pure ⟨hr, ?_, ?_⟩)
    · refine ⟨?_, fun p _ h => he₂.live p (he₁.live p (he.live p h)), fun p _ h => ?_, fun p _ h => ?_⟩
      · exact he₂.filesystems.trans (he₁.filesystems.trans he.filesystems)
      · have hne : p ≠ ptr := by
          rintro rfl
          exact hnew h
        show Function.update o₂.nodes ptr opened p = _
        rw [Function.update_of_ne hne, hnodes₂]
        show o₁.nodes p = _
        rw [hnodes, he.nodes p h]
      · have hne : p ≠ fd := by
          rintro rfl
          exact hfd h
        show o₂.files p = _
        rw [he₂.files]
        show Function.update o₁.files fd _ p = _
        rw [Function.update_of_ne hne, he₁.files, he.files]
    · have hfile : (o₂.setNode ptr opened).files fd = ⟨ptr, (o₁.nodes ptr).length, 0, flags⟩ := by
        show o₂.files fd = _
        rw [he₂.files]
        exact Function.update_self ..
      have hopen : (o₂.setNode ptr opened).nodes ptr = opened := Function.update_self ..
      intro p hp
      rw [Objects.held, hfile] at hp
      dsimp only at hp
      rw [hopen] at hp
      rcases hp with rfl | rfl | hp
      · exact ⟨he₂.live _ hlive₁, hfd⟩
      · exact ⟨he₂.live _ (he₁.live _ hl), hnew⟩
      · obtain ⟨hl₂, hn₂⟩ := hdata p ⟨hr, hp⟩
        exact ⟨hl₂, fun h => hn₂ (he₁.live _ (he.live _ h))⟩
  refine hopened.bind ?_
  rintro _ o' ⟨rfl, hr⟩
  rw [if_neg (by decide)]
  exact Meets.pure hr

/-- A path that leads to a regular file or to nothing. -/
def FilePath (images : ℕ → VolumeImage) (s : IoState σ δ) (path : List UInt8) : Prop :=
  ∀ a id, pathTarget images s path = some (a, id) → id.type = .file

/-- What `file_open` did: it found nothing, or it opened the file with new objects. -/
def FileOpened (machine : Machine σ δ) (images : ℕ → VolumeImage) (s : IoState σ δ)
    (path : List UInt8) (fd : ℕ) (o : Objects σ δ) : Prop :=
  fd = 0 ∧ pathTarget images s path = none ∨
    ∃ a no, pathTarget images s path = some (a, ⟨.file, no⟩) ∧
      Reading machine (images a) a no fd 0 o ∧
      ∀ p ∈ o.held fd, Live o.heap p ∧ ¬ Live s.objects.heap p

/-- **`file_open`** for reading. -/
theorem meets_fileOpen_new {s : IoState σ δ} (h : MountTable machine images s) (path : CString)
    {flags : ℕ} (hp : FilePath images s path.bytes) (hf : flags &&& fileRdonly ≠ 0) :
    Meets OutOfMemory (fileOpen machine path.bytes flags) s fun fd s' =>
      ∃ o, s' = { s with objects := o } ∧ s.objects.Keeps ∅ o ∧
        FileOpened machine images s path.bytes fd o := by
  rw [fileOpen]
  by_cases habs : vfsIsAbsPath path.bytes = true
  swap
  · rw [if_pos (by rw [Bool.not_eq_true', Bool.eq_false_iff]; exact habs)]
    refine Meets.pure ⟨s.objects, rfl, (Objects.Extends.refl _).keeps, Or.inl ⟨rfl, ?_⟩⟩
    rw [pathTarget, if_neg fun h => habs h.1]
  rw [if_neg (by rw [habs]; decide)]
  refine (meets_mntGetMountpoint habs).bind ?_
  rintro a s₁ ⟨ha, hs₁⟩
  rw [hs₁]
  refine Meets.get_bind ?_
  dsimp only
  by_cases h0 : a = 0
  · rw [if_pos (Or.inl h0)]
    refine Meets.pure ⟨s.objects, rfl, (Objects.Extends.refl _).keeps, Or.inl ⟨rfl, ?_⟩⟩
    rw [pathTarget, if_neg fun h => h.2 (ha.symm.trans h0)]
  obtain ⟨i, hi, hai⟩ := drive_eq (by rw [← ha]; exact h0)
  rw [← ha] at hai
  have hrootLive : Live s.objects.heap (s.objects.filesystems a).root := by
    rw [hai]
    exact h.rootLive i hi (by rwa [← hai])
  have hvol : (images a).WellFormed machine (s.objects.filesystems a) := by
    rw [hai]
    exact h.volume i hi (by rwa [← hai])
  rw [if_neg (by rintro (h | h); exacts [h0 h, ne_null hrootLive h])]
  have htarget : pathTarget images s path.bytes =
      ((images a).tree.lookup (path.bytes.drop 3)).map (a, ·) := by
    rw [pathTarget, if_pos ⟨habs, by rwa [← ha]⟩, ← ha]
  refine (meets_onObjects (meets_openPath h path ha.symm h0)).bind ?_
  rintro ptr _ ⟨o, rfl, he, hfound⟩
  cases hl : (images a).tree.lookup (path.bytes.drop 3) with
  | none =>
    have hptr : ptr = 0 := by
      rw [hl] at hfound
      rcases hfound with ⟨-, hid⟩ | hfound
      · cases hid
      · exact hfound
    rw [if_pos hptr]
    refine (meets_onObjects (meets_kfree ptr o)).bind ?_
    rintro _ _ ⟨o', rfl, rfl⟩
    refine Meets.pure ⟨_, rfl, (he.free ?_).keeps, Or.inl ⟨rfl, by rw [htarget, hl]; rfl⟩⟩
    rw [hptr]
    exact not_live_null _
  | some id =>
    have hfile : id.type = .file := hp a id (by rw [htarget, hl]; rfl)
    obtain ⟨hn, hlive, hnew⟩ : FoundAt (images a) a s.objects o ptr (some id) := by
      rw [hl] at hfound
      rcases hfound with ⟨-, hid⟩ | hfound
      · -- the root is a directory
        rw [Option.some.inj hid] at hfile
        cases hfile
      · exact hfound
    have hid : id = ⟨.file, id.inode⟩ := by rw [← hfile]
    rw [hid] at hn
    have hvol' : (images a).WellFormed machine (o.filesystems a) := by rwa [he.filesystems]
    rw [if_neg (ne_null hlive)]
    refine (meets_onObjects ((meets_fileOpenNode hvol' hlive hn hf).and
      (meets_fileOpenNode_new he hnew hvol' hlive hn))).mono ?_
    rintro fd _ ⟨o', rfl, hr, hk, hheld⟩
    refine ⟨o', rfl, hk, Or.inr ⟨a, id.inode, ?_, hr, hheld⟩⟩
    rw [htarget, hl]
    exact congrArg (fun id => some (a, id)) hid

/-! ## Reading -/

theorem preserves_nodeRead (hw : image.WellFormed machine filesystem) (hn : image.IsOpen a node no)
    (offset size : ℕ) (buffer : Mem) :
    Preserves (nodeRead machine filesystem node offset size buffer : FsM σ _) := by
  cases image <;> cases node
  case ext2.ext2 bytes blocks node =>
    obtain ⟨hv, -, ptr, hdata⟩ := hw
    rw [nodeRead]
    simp only [hdata]
    exact preserves_ext2Read (request_blockSize hv.layout) node offset size buffer
  case initfs.initfs bytes names node => exact preserves_initfsRead node offset size buffer
  all_goals exact hn.elim

/-- A computation on the heap that frees nothing, if it returns. -/
theorem Frame.meets {α : Type} {x : FsM σ α} (hx : Preserves x) (s : Objects σ δ) :
    Meets (fun _ => True) (onHeap x) s fun _ s' =>
      ∃ heap, s' = { s with heap := heap } ∧ ∀ p, Live s.heap p → Live heap p := by
  cases hr : x s.heap with
  | error e => exact Meets.of_error (by rw [onHeap, hr]; rfl) trivial
  | ok r =>
    refine Meets.of_ok (by rw [onHeap, hr]; rfl) ⟨r.2, rfl, fun p hp => ?_⟩
    exact (hx s.heap r.1 r.2 hr fun q hq => absurd hq (Set.notMem_empty q)).1 p hp
      (Set.notMem_empty p)

/-- A read that returns changed the offset of its descriptor and nothing else that is live. -/
theorem meets_fileRead_keeps {fd offset : ℕ} (h : Reading machine image a no fd offset s)
    (size : ℕ) (buffer : Mem) :
    Meets (fun _ => True) (fileRead machine fd size buffer) s fun _ s' =>
      s.Keeps {fd} s' ∧ s'.held fd = s.held fd ∧ ∀ p, Live s.heap p → Live s'.heap p := by
  obtain ⟨hfile, hfs⟩ := h.node.isFile
  rw [fileRead, if_neg h.fd_ne]
  refine Meets.get_bind ?_
  dsimp only
  rw [if_neg h.node_ne, if_neg h.readable]
  refine Meets.bind (Q := fun _ s' => ∃ heap, s' = { s with heap := heap } ∧
    ∀ p, Live s.heap p → Live heap p) ?_ ?_
  · refine Meets.get_bind ?_
    rw [if_pos ⟨h.node_ne, hfile⟩, hfs]
    exact (preserves_nodeRead h.volume h.node _ _ buffer).meets s
  · rintro ⟨r, buffer'⟩ _ ⟨heap, rfl, hl⟩
    dsimp only
    split
    · exact Meets.pure ⟨⟨rfl, fun p _ => hl p, fun _ _ _ => rfl, fun _ _ _ => rfl⟩, rfl, hl⟩
    · refine Meets.modify_bind (Meets.pure ⟨⟨rfl, fun p _ => hl p, fun _ _ _ => rfl, ?_⟩, ?_, hl⟩)
      · exact fun p hp _ => Function.update_of_ne hp _ _
      · have hself (d : FileDescriptor) : Function.update s.files fd d fd = d :=
          Function.update_self ..
        show insert fd (insert (Function.update s.files fd _ fd).node
          (s.nodes (Function.update s.files fd _ fd).node).dataPtrs) = s.held fd
        rw [hself]
        rfl

/-! ## Closing -/

/-- Closing the node of an open file frees its data. -/
theorem meets_nodeClose (hn : image.IsOpen a node no) (heap : σ) {allowed : FsStop → Prop} :
    Meets allowed (nodeClose node) heap fun r heap' => r.1 = 0 ∧
      ∀ p, Live heap' p ↔ Live heap p ∧ p ∉ node.dataPtrs := by
  cases image <;> cases node
  case ext2.ext2 bytes blocks node =>
    obtain ⟨-, -, -, -, ptr, hdata⟩ := hn
    have hptrs : (AnyNode.ext2 node).dataPtrs = {ptr} := by
      rw [AnyNode.dataPtrs, hdata]
      rfl
    rw [hptrs, nodeClose, map_eq_pure_bind, ext2Close, hdata]
    exact Meets.of_ok rfl ⟨rfl, fun p => free_live _ _ _⟩
  case initfs.initfs bytes names node =>
    obtain ⟨-, -, -, ptr, hdata⟩ := hn
    have hptrs : (AnyNode.initfs node).dataPtrs = {ptr} := by
      rw [AnyNode.dataPtrs, hdata]
      rfl
    rw [hptrs, nodeClose, map_eq_pure_bind, initfsClose, hdata]
    exact Meets.of_ok rfl ⟨rfl, fun p => free_live _ _ _⟩
  all_goals exact hn.elim

/-- **`file_close`** frees what the descriptor holds, other than the node. -/
theorem meets_fileClose {fd offset : ℕ} (h : Reading machine image a no fd offset s)
    {allowed : FsStop → Prop} :
    Meets allowed (fileClose fd) s fun r s' => r = 0 ∧ s.Keeps (s.held fd) s' := by
  rw [fileClose, if_neg h.fd_ne]
  refine Meets.get_bind ?_
  dsimp only
  rw [if_neg h.node_ne, vfsClose, if_pos h.node_ne]
  refine Meets.bind (Q := fun r s' => r = (0 : Int) ∧ s.Keeps (s.held fd) s') ?_ ?_
  · refine Meets.get_bind ?_
    refine (meets_onHeap_run (meets_nodeClose h.node s.heap)).bind ?_
    rintro ⟨r, closed⟩ _ ⟨heap, rfl, hr, hheap⟩
    refine Meets.modify_bind (Meets.pure ⟨hr, rfl, fun p hp hl => ?_, fun p hp _ => ?_, fun _ _ _ => rfl⟩)
    · exact (hheap p).2 ⟨hl, fun hd => hp (Or.inr (Or.inr hd))⟩
    · have hne : p ≠ (s.files fd).node := by
        rintro rfl
        exact hp (Or.inr (Or.inl rfl))
      exact Function.update_of_ne hne _ _
  · rintro _ s' ⟨rfl, hk⟩
    rw [if_neg (by decide)]
    refine (meets_kfree fd s').bind ?_
    rintro _ _ rfl
    refine Meets.pure ⟨rfl, hk.filesystems, fun p hp hl => ?_, hk.nodes, hk.files⟩
    refine (free_live _ _ _).2 ⟨hk.live p hp hl, ?_⟩
    rintro rfl
    exact hp (Or.inl rfl)

end Ttos
