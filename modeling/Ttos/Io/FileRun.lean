/-
  Reading a file from its start to its end, in any number of calls.

  * `meets_fileOpen`: what `file_open` makes of a path to a regular file.
  * `fileSystem`: calls of `file_read` on a descriptor, and what other code does meanwhile.
  * `sequential_read`: the calls return the bytes of the file, one after the other.
-/
import Ttos.Fs.MountSpec
import Ttos.Io.DirSpec
import Ttos.Io.FileSpec
import Ttos.Lib.Run

namespace Ttos

open Allocator

variable {σ δ : Type}

/-- The descriptor `fd` is open for reading on the regular file `no` of the file system at
    `a`, and `offset` bytes of it were read. -/
structure Reading (machine : Machine σ δ) (image : VolumeImage) (a no fd offset : ℕ)
    (s : Objects σ δ) : Prop where
  fd_ne : fd ≠ 0
  node_ne : (s.files fd).node ≠ 0
  size : (s.files fd).size = image.tree.length no
  offset_eq : (s.files fd).offset = offset
  offset_le : offset ≤ image.tree.length no
  readable : (s.files fd).flags &&& fileRdonly ≠ 0
  node : image.IsOpen a (s.nodes (s.files fd).node) no
  volume : image.WellFormed machine (s.filesystems a)

theorem VolumeImage.IsOpen.isFile {image : VolumeImage} {a no : ℕ} {node : AnyNode}
    (h : image.IsOpen a node no) : node.isFile = true ∧ node.filesystem = a := by
  cases image <;> cases node
  case ext2.ext2 => exact ⟨decide_eq_true h.1, h.2.1⟩
  case initfs.initfs => exact ⟨decide_eq_true h.1, h.2.1⟩
  all_goals exact h.elim

variable [Allocator σ] {machine : Machine σ δ} {images : ℕ → VolumeImage} {image : VolumeImage}
  {a no fd offset : ℕ}

/-! ## Opening -/

/-- `file_open` from the node on. -/
theorem meets_fileOpenNode {o : Objects σ δ} {node flags : ℕ} (hw : image.WellFormed machine (o.filesystems a))
    (hl : Live o.heap node) (hn : image.IsNode a (o.nodes node) ⟨.file, no⟩)
    (hf : flags &&& fileRdonly ≠ 0) :
    Meets OutOfMemory (fileOpenNode machine node flags) o fun fd o' =>
      Reading machine image a no fd 0 o' := by
  refine (meets_kmalloc (by decide) o).bind ?_
  rintro ptr o₁ ⟨h0, he, hnodes, hlive, -⟩
  refine Meets.modify_bind ?_
  rw [vfsOpen, if_pos (ne_null hl)]
  refine Meets.bind (Q := fun r o' => r = (0 : Int) ∧ Reading machine image a no ptr 0 o') ?_ ?_
  · refine Meets.get_bind ?_
    have hnode : (o₁.setFile ptr ⟨node, (o₁.nodes node).length, 0, flags⟩).nodes node = o.nodes node := by
      rw [Objects.setFile, hnodes]
    have hfs : (o₁.setFile ptr ⟨node, (o₁.nodes node).length, 0, flags⟩).filesystems = o.filesystems := by
      rw [Objects.setFile]
      exact he.filesystems
    rw [Objects.filesystemOf, hnode, hfs, hn.filesystem_eq]
    refine (meets_onHeap (returns_nodeOpen hw hn rfl) _).bind ?_
    rintro ⟨r, opened⟩ _ ⟨⟨hr, hopen⟩, heap, rfl⟩
    refine Meets.modify_bind (Meets.pure ⟨hr, ?_⟩)
    have hfile : ∀ (heap : σ), (({ o₁.setFile ptr ⟨node, (o₁.nodes node).length, 0, flags⟩ with
        heap := heap } : Objects σ δ).setNode node opened).files ptr
          = ⟨node, (o₁.nodes node).length, 0, flags⟩ := fun heap => Function.update_self ..
    refine ⟨h0, ?_, ?_, ?_, Nat.zero_le _, ?_, ?_, ?_⟩
    · rw [hfile]
      exact ne_null hl
    · rw [hfile, hnodes]
      exact hn.length_eq fun h => by cases h
    · rw [hfile]
    · rw [hfile]
      exact hf
    · rw [hfile]
      have hself := Function.update_self node opened o₁.nodes
      show image.IsOpen a (Function.update o₁.nodes node opened node) no
      rwa [hself]
    · show image.WellFormed machine (o₁.filesystems a)
      rwa [he.filesystems]
  · rintro _ o' ⟨rfl, hr⟩
    rw [if_neg (by decide)]
    exact Meets.pure hr

/-- **`file_open`** of a regular file for reading. -/
theorem meets_fileOpen {s : IoState σ δ} (h : MountTable machine images s) (path : CString) {flags : ℕ}
    (ht : pathTarget images s path.bytes = some (a, ⟨.file, no⟩)) (hf : flags &&& fileRdonly ≠ 0) :
    Meets OutOfMemory (fileOpen machine path.bytes flags) s fun fd s' =>
      Reading machine (images a) a no fd 0 s'.objects := by
  rw [pathTarget] at ht
  split at ht
  swap
  · cases ht
  rename_i habs
  obtain ⟨habs, hdrive⟩ := habs
  obtain ⟨id, hlookup, hid⟩ := Option.map_eq_some_iff.1 ht
  obtain ⟨hda, rfl⟩ := Prod.mk.inj hid
  rw [hda] at hlookup hdrive
  rw [fileOpen, if_neg (by rw [habs]; decide)]
  refine (meets_mntGetMountpoint habs).bind ?_
  rintro a' s₁ ⟨rfl, rfl⟩
  rw [hda]
  refine Meets.get_bind ?_
  dsimp only
  obtain ⟨i, hi, hai⟩ := drive_eq (by rw [hda]; exact hdrive)
  rw [hda] at hai
  subst hai
  have hrootLive := h.rootLive i hi hdrive
  have hvol := h.volume i hi hdrive
  rw [IoState.root] at hrootLive
  rw [if_neg (by rintro (h | h); exacts [hdrive h, ne_null hrootLive h])]
  refine (meets_onObjects (meets_openPath h path hda hdrive)).bind ?_
  rintro node _ ⟨o, rfl, he, hfound⟩
  rw [hlookup] at hfound
  have hnode : (images (s₁.mountpoints i)).IsNode (s₁.mountpoints i) (o.nodes node) ⟨.file, no⟩ ∧
      Live o.heap node := by
    rcases hfound with ⟨-, hroot⟩ | hfound
    · -- the root is a directory
      cases congrArg FileId.type (Option.some.inj hroot)
    · exact ⟨hfound.1, hfound.2.1⟩
  rw [if_neg (ne_null hnode.2)]
  refine (meets_onObjects (meets_fileOpenNode (by rwa [he.filesystems]) hnode.2 hnode.1 hf)).mono ?_
  rintro fd _ ⟨o', rfl, hr⟩
  exact hr

/-! ## Reading -/

/-- The bytes of a file that a read returned. -/
def ReturnsBytes (tree : FileTree) (no offset size : ℕ) (buffer : Mem) (r : Int × Mem) : Prop :=
  r.1 = available (tree.length no) offset size ∧
    ∀ j, r.2 j = if j < available (tree.length no) offset size then tree.byte no (offset + j) else buffer j

/-- **`file_read`** returns what is left, at most `size` bytes, and moves the offset behind it. -/
theorem meets_fileRead_next {s : Objects σ δ} (h : Reading machine image a no fd offset s)
    (hlt : image.tree.length no < 2147483648) {size : ℕ} (hs : size < 2147483648) (buffer : Mem) :
    Meets OutOfMemory (fileRead machine fd size buffer) s fun r s' =>
      ReturnsBytes image.tree no offset size buffer r ∧
        Reading machine image a no fd (offset + available (image.tree.length no) offset size) s' := by
  have ho := h.offset_le
  obtain ⟨hfile, hfs⟩ := h.node.isFile
  have hsub : sub32 (image.tree.length no) offset = image.tree.length no - offset :=
    sub32_of_le ho (by omega)
  have hclamp : (if image.tree.length no < u32 (offset + size) then sub32 (image.tree.length no) offset
      else size) = available (image.tree.length no) offset size := by
    rw [available, u32_of_lt (by omega), hsub]
    split <;> omega
  have hle : available (image.tree.length no) offset size ≤ image.tree.length no - offset :=
    Nat.min_le_right _ _
  rw [fileRead, if_neg h.fd_ne]
  refine Meets.get_bind ?_
  dsimp only
  rw [if_neg h.node_ne, if_neg h.readable, h.size, h.offset_eq, hclamp]
  simp only [ReturnsBytes]
  generalize available (image.tree.length no) offset size = n at hle ⊢
  refine Meets.bind (Q := fun (r : Int × Mem) s' => (r.1 = (n : ℕ) ∧
      ∀ j, r.2 j = if j < n then image.tree.byte no (offset + j) else buffer j) ∧
      ∃ heap, s' = { s with heap := heap }) ?_ ?_
  · refine Meets.get_bind ?_
    rw [if_pos ⟨h.node_ne, hfile⟩, hfs]
    exact meets_onHeap (returns_nodeRead_exact h.volume h.node hlt ho hle buffer) s
  · rintro ⟨r, buffer'⟩ _ ⟨⟨rfl, hb⟩, heap, rfl⟩
    rw [if_neg (by dsimp only; omega)]
    refine Meets.modify_bind (Meets.pure ⟨⟨rfl, hb⟩, ?_⟩)
    have hself : ∀ d : FileDescriptor, Function.update s.files fd d fd = d := fun d =>
      Function.update_self ..
    have hu : u32 (offset + (n : ℤ).toNat) = offset + n := by
      rw [Int.toNat_natCast, u32_of_lt (by omega)]
    refine ⟨h.fd_ne, ?_, ?_, ?_, by omega, ?_, ?_, h.volume⟩
    · show (Function.update s.files fd _ fd).node ≠ 0
      rw [hself]
      exact h.node_ne
    · show (Function.update s.files fd _ fd).size = _
      rw [hself]
    · show (Function.update s.files fd _ fd).offset = _
      rw [hself]
      exact hu
    · show (Function.update s.files fd _ fd).flags &&& fileRdonly ≠ 0
      rw [hself]
      exact h.readable
    · show image.IsOpen a (s.nodes (Function.update s.files fd _ fd).node) no
      rw [hself]
      exact h.node

/-! ## Runs -/

/-- A call of `file_read` and what it returned. -/
structure FileReadCall where
  size : ℕ
  buffer : Mem
  result : Int
  data : Mem

/-- The objects and the calls so far. -/
structure FileHistory (σ δ : Type) where
  objects : Objects σ δ
  calls : List FileReadCall

/-- Reads of less than 2 GiB from the descriptor `fd`, from the state `start` on.  A step is a
    call that returns, or (`none`) other code, which leaves the descriptor, its node and the
    mounted file systems alone. -/
def fileSystem (machine : Machine σ δ) (fd : ℕ) (start : Objects σ δ) :
    TransitionSystem (FileHistory σ δ) (Option (ℕ × Mem)) where
  init h := h = ⟨start, []⟩
  step h label h' :=
    match label with
    | none => h'.calls = h.calls ∧ h'.objects.files fd = h.objects.files fd ∧
        h'.objects.nodes (h.objects.files fd).node = h.objects.nodes (h.objects.files fd).node ∧
        h'.objects.filesystems = h.objects.filesystems
    | some (size, buffer) => size < 2147483648 ∧ ∃ r s',
        fileRead machine fd size buffer h.objects = .ok (r, s') ∧
          h' = ⟨s', h.calls ++ [⟨size, buffer, r.1, r.2⟩]⟩

/-- The bytes a call returned. -/
def FileReadCall.bytes (c : FileReadCall) : List UInt8 := (List.range c.result.toNat).map c.data

/-- The bytes all calls returned, one after the other. -/
def delivered (calls : List FileReadCall) : List UInt8 := calls.flatMap FileReadCall.bytes

/-- Every call returned what was left when it was made, and stored no other bytes. -/
def CallsExact (length : ℕ) (calls : List FileReadCall) : Prop :=
  ∀ k (h : k < calls.length), calls[k].result =
      available length (delivered (calls.take k)).length calls[k].size ∧
    ∀ j : ℕ, calls[k].result ≤ j → calls[k].data j = calls[k].buffer j

theorem delivered_append (calls : List FileReadCall) (c : FileReadCall) :
    delivered (calls ++ [c]) = delivered calls ++ c.bytes := by
  rw [delivered, List.flatMap_append, List.flatMap_singleton, delivered]

theorem CallsExact.append {length : ℕ} {calls : List FileReadCall} {c : FileReadCall}
    (h : CallsExact length calls) (hc : c.result = available length (delivered calls).length c.size)
    (hd : ∀ j : ℕ, c.result ≤ j → c.data j = c.buffer j) : CallsExact length (calls ++ [c]) := by
  intro k hk
  rw [List.length_append, List.length_singleton] at hk
  rcases Nat.lt_succ_iff_lt_or_eq.1 hk with hlt | rfl
  · rw [List.getElem_append_left hlt, List.take_append_of_le_length hlt.le]
    exact h k hlt
  · rw [List.getElem_append_right le_rfl, List.take_append_of_le_length le_rfl, List.take_length]
    simpa using ⟨hc, hd⟩

/-- The invariant of a run: the bytes delivered so far are the first ones of the file. -/
structure FileTracks (machine : Machine σ δ) (image : VolumeImage) (a no fd : ℕ)
    (h : FileHistory σ δ) : Prop where
  reading : Reading machine image a no fd (delivered h.calls).length h.objects
  firstBytes : delivered h.calls = (List.range (delivered h.calls).length).map (image.tree.byte no)
  callsExact : CallsExact (image.tree.length no) h.calls

omit [Allocator σ] in
theorem Reading.congr {s s' : Objects σ δ} (h : Reading machine image a no fd offset s)
    (hf : s'.files fd = s.files fd) (hn : s'.nodes (s.files fd).node = s.nodes (s.files fd).node)
    (hs : s'.filesystems = s.filesystems) : Reading machine image a no fd offset s' where
  fd_ne := h.fd_ne
  node_ne := by rw [hf]; exact h.node_ne
  size := by rw [hf]; exact h.size
  offset_eq := by rw [hf]; exact h.offset_eq
  offset_le := h.offset_le
  readable := by rw [hf]; exact h.readable
  node := by rw [hf, hn]; exact h.node
  volume := by rw [hs]; exact h.volume

/-- The bytes behind the ones read so far. -/
theorem map_range_add {α : Type} (f : ℕ → α) (m n : ℕ) :
    (List.range (m + n)).map f = (List.range m).map f ++ (List.range n).map fun j => f (m + j) := by
  rw [List.range_add, List.map_append, List.map_map]
  rfl

theorem FileTracks.step {h h' : FileHistory σ δ} {label : Option (ℕ × Mem)} {start : Objects σ δ}
    (hlt : image.tree.length no < 2147483648) (ht : FileTracks machine image a no fd h)
    (hstep : (fileSystem machine fd start).step h label h') : FileTracks machine image a no fd h' := by
  cases label with
  | none =>
    obtain ⟨hc, hf, hn, hs⟩ := hstep
    refine ⟨?_, by rw [hc]; exact ht.firstBytes, by rw [hc]; exact ht.callsExact⟩
    rw [hc]
    exact ht.reading.congr hf hn hs
  | some call =>
    obtain ⟨size, buffer⟩ := call
    obtain ⟨hs, r, s', hrun, rfl⟩ := hstep
    obtain ⟨⟨hr, hdata⟩, hreading⟩ := (meets_fileRead_next ht.reading hlt hs buffer).of_run hrun
    generalize hn : available (image.tree.length no) (delivered h.calls).length size = n
      at hr hdata hreading
    have hbytes : FileReadCall.bytes ⟨size, buffer, r.1, r.2⟩ =
        (List.range n).map fun j => image.tree.byte no ((delivered h.calls).length + j) := by
      rw [FileReadCall.bytes, hr, Int.toNat_natCast]
      refine List.map_congr_left fun j hj => ?_
      exact (hdata j).trans (if_pos (List.mem_range.1 hj))
    have hlen : (delivered (h.calls ++ [⟨size, buffer, r.1, r.2⟩])).length =
        (delivered h.calls).length + n := by
      rw [delivered_append, hbytes, List.length_append, List.length_map, List.length_range]
    refine ⟨?_, ?_, ht.callsExact.append (by rw [hr, hn]) fun j hj => ?_⟩
    · rw [hlen]
      exact hreading
    · rw [hlen, map_range_add, ← ht.firstBytes, ← hbytes, delivered_append]
    · have hj : r.1 ≤ (j : ℤ) := hj
      rw [hr] at hj
      exact (hdata j).trans (if_neg (by omega))

theorem reachable_fileTracks {start : Objects σ δ} (hs : Reading machine image a no fd 0 start)
    (hlt : image.tree.length no < 2147483648) {h : FileHistory σ δ}
    (hr : (fileSystem machine fd start).Reachable h) : FileTracks machine image a no fd h := by
  refine hr.invariant ?_ fun h label h' _ ht hstep => ht.step hlt hstep
  rintro _ rfl
  exact ⟨hs, rfl, fun k hk => absurd hk (Nat.not_lt_zero _)⟩

/-- **Sequential reading.**  After a regular file was opened for reading, every sequence of
    reads returns its bytes in order: each call as many as are left, up to its size. -/
theorem sequential_read (machine : Machine σ δ) (images : ℕ → VolumeImage) (s : IoState σ δ)
    (hs : MountTable machine images s) (path : CString) (flags : ℕ) (hf : flags &&& fileRdonly ≠ 0)
    (a no : ℕ) (ht : pathTarget images s path.bytes = some (a, ⟨.file, no⟩))
    (hlt : (images a).tree.length no < 2147483648) :
    Meets OutOfMemory (fileOpen machine path.bytes flags) s fun fd s' => fd ≠ 0 ∧
      ∀ h, (fileSystem machine fd s'.objects).Reachable h →
        delivered h.calls =
          (List.range (delivered h.calls).length).map ((images a).tree.byte no) ∧
        CallsExact ((images a).tree.length no) h.calls ∧
        (h.objects.files fd).offset = (delivered h.calls).length ∧
        (h.objects.files fd).offset ≤ (h.objects.files fd).size ∧
        (h.objects.files fd).size = (images a).tree.length no ∧
        ∀ size < 2147483648, ∀ buffer, Meets OutOfMemory (fileRead machine fd size buffer) h.objects
          fun r _ => ReturnsBytes (images a).tree no (delivered h.calls).length size buffer r := by
  refine (meets_fileOpen hs path ht hf).mono fun fd s' hopen => ⟨hopen.fd_ne, fun h hr => ?_⟩
  have htracks := reachable_fileTracks hopen hlt hr
  have hreading := htracks.reading
  refine ⟨htracks.firstBytes, htracks.callsExact, hreading.offset_eq, ?_, hreading.size, fun size hsize buffer => ?_⟩
  · rw [hreading.offset_eq, hreading.size]
    exact hreading.offset_le
  · exact (meets_fileRead_next hreading hlt hsize buffer).mono fun r _ hr => hr.1

/-- The file "hi" of the small volume. -/
theorem sequential_read_small :
    Meets OutOfMemory (fileOpen dirImageMachine [0x41, 0x3A, 0x2F, 0x68, 0x69] fileRdonly) dirImageIo
      fun fd s' => fd ≠ 0 ∧ ∀ h, (fileSystem dirImageMachine fd s'.objects).Reachable h →
        delivered h.calls = (List.range (delivered h.calls).length).map
          ((dirImageImages 1).tree.byte 3) ∧
        CallsExact ((dirImageImages 1).tree.length 3) h.calls ∧
        (h.objects.files fd).offset = (delivered h.calls).length ∧
        (h.objects.files fd).offset ≤ (h.objects.files fd).size ∧
        (h.objects.files fd).size = (dirImageImages 1).tree.length 3 ∧
        ∀ size < 2147483648, ∀ buffer,
          Meets OutOfMemory (fileRead dirImageMachine fd size buffer) h.objects
            fun r _ => ReturnsBytes (dirImageImages 1).tree 3 (delivered h.calls).length size buffer r :=
  sequential_read dirImageMachine dirImageImages dirImageIo dirImageIo_table
    ⟨[0x41, 0x3A, 0x2F, 0x68, 0x69], by decide, by decide⟩ fileRdonly (by decide) 1 3
    (by decide +kernel) (by decide +kernel)

end Ttos
