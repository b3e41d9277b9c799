/-
  Runs of the open, read and close system calls on files, by any process and in any order.

  * `fdSystem`: the calls, and what other code does meanwhile.
  * `FdTracked`: what the calls so far say about a descriptor.
  * `file_descriptors_independent`: an open descriptor returns the bytes of its file, one after
    the other, whatever is called in between.
-/
import Ttos.Io.Descriptors
import Ttos.Lib.Outcome
import Mathlib.Order.CompletePartialOrder

namespace Ttos

open Allocator

/-- A system call on a file. -/
inductive FdCall where
  | open (process : ℕ) (path : CString) (flags : ℕ)
  | read (process : ℕ) (fd : Int) (size : ℕ) (buffer : Mem)
  | close (process : ℕ) (fd : Int)

/-- What a call returned. -/
inductive FdReply where
  | opened (fd : Int)
  | bytes (result : Int) (data : Mem)
  | closed (result : Int)

/-- A call with its reply. -/
structure FdEvent where
  call : FdCall
  reply : FdReply

variable {σ δ : Type}

/-- The state and the calls so far. -/
structure FdHistory (σ δ : Type) where
  state : FdState σ δ
  events : List FdEvent

/-- A block that an open descriptor holds, or the root of a mounted file system. -/
def HeldBlock (s : FdState σ δ) (p : ℕ) : Prop :=
  (∃ process fd, s.files process fd ≠ 0 ∧ p ∈ s.io.objects.held (s.files process fd)) ∨
    ∃ i < fsVolumeMaxMountpoints, s.io.mountpoints i ≠ 0 ∧ p = s.io.root i

section
variable [Allocator σ] (machine : Machine σ δ)

def FdCall.exec : FdCall → FdM σ δ FdReply
  | .open process path flags => FdReply.opened <$> syscallOpen machine process path.bytes flags
  | .read process fd size buffer =>
    (fun r => FdReply.bytes r.1 r.2) <$> syscallReadFile machine process fd size buffer
  | .close process fd => FdReply.closed <$> syscallClose process fd

/-- Files of less than 2 GiB are opened for reading, and read in pieces of less than 2 GiB; the
descriptor 0 is standard input. -/
def FdCall.Admissible (images : ℕ → VolumeImage) (s : FdState σ δ) : FdCall → Prop
  | .open _ path flags => FilePath images s.io path.bytes ∧ flags &&& fileRdonly ≠ 0 ∧
      ∀ a id, pathTarget images s.io path.bytes = some (a, id) →
        (images a).tree.length id.inode < 2147483648
  | .read _ fd size _ => fd ≠ 0 ∧ size < 2147483648
  | .close _ _ => True

/-- Runs from the state `start`.  A step is a call that returns, or (`none`) other code, which
leaves the blocks held here as they are. -/
def fdSystem (images : ℕ → VolumeImage) (start : FdState σ δ) :
    TransitionSystem (FdHistory σ δ) (Option FdCall) where
  init h := h = ⟨start, []⟩
  step h label h' :=
    match label with
    | none => ∃ o : Objects σ δ, o.filesystems = h.state.io.objects.filesystems ∧
        (∀ p, HeldBlock h.state p → Live o.heap p ∧ o.nodes p = h.state.io.objects.nodes p ∧
          o.files p = h.state.io.objects.files p) ∧
        h' = { h with state := { h.state with io := { h.state.io with objects := o } } }
    | some call => call.Admissible images h.state ∧ ∃ reply s',
        call.exec machine h.state = .ok (reply, s') ∧ h' = ⟨s', h.events ++ [⟨call, reply⟩]⟩

end

/-! ## Descriptors in a history -/

/-- The path a descriptor was opened with, and the bytes its reads returned since; `none` while it
is closed. -/
abbrev FdTrack := Option (CString × List UInt8)

/-- What an event says about the descriptor `fd` of `process`. -/
def FdEvent.track (process fd : ℕ) (t : FdTrack) (e : FdEvent) : FdTrack :=
  match e.call, e.reply with
  | .open p path _, .opened r => if p = process ∧ r = fd then some (path, []) else t
  | .read p r _ _, .bytes result data =>
    if p = process ∧ r = fd then t.map fun x => (x.1, x.2 ++ (List.range result.toNat).map data)
    else t
  | .close p r, .closed result => if p = process ∧ r = fd ∧ result = 0 then none else t
  | _, _ => t

/-- What the calls so far say about a descriptor. -/
def FdTracked (process fd : ℕ) (events : List FdEvent) : FdTrack :=
  events.foldl (FdEvent.track process fd) none

theorem fdTracked_append (process fd : ℕ) (events : List FdEvent) (e : FdEvent) :
    FdTracked process fd (events ++ [e]) = e.track process fd (FdTracked process fd events) := by
  rw [FdTracked, List.foldl_append]
  rfl

variable [Allocator σ] {machine : Machine σ δ} {images : ℕ → VolumeImage} {start : FdState σ δ}

/-- The open descriptors hold live blocks, each its own. -/
structure OpenFiles (machine : Machine σ δ) (images : ℕ → VolumeImage) (s : FdState σ δ) : Prop
    extends MountTable machine images s.io where
  live : ∀ process fd, s.files process fd ≠ 0 →
    ∀ p ∈ s.io.objects.held (s.files process fd), Live s.io.objects.heap p
  apart : ∀ process fd, s.files process fd ≠ 0 → ∀ i < fsVolumeMaxMountpoints,
    s.io.mountpoints i ≠ 0 → s.io.root i ∉ s.io.objects.held (s.files process fd)
  disjoint : ∀ process fd process' fd', (process, fd) ≠ (process', fd') →
    s.files process fd ≠ 0 → s.files process' fd' ≠ 0 →
    Disjoint (s.io.objects.held (s.files process fd)) (s.io.objects.held (s.files process' fd'))

/-- The first `n` bytes of a file. -/
def FileTree.first (tree : FileTree) (no n : ℕ) : List UInt8 := (List.range n).map (tree.byte no)

/-- The descriptor is as the calls so far say. -/
def FdTracksAt (machine : Machine σ δ) (images : ℕ → VolumeImage) (start s : FdState σ δ)
    (process fd : ℕ) : FdTrack → Prop
  | none => s.files process fd = 0
  | some (path, data) => ∃ a no, pathTarget images start.io path.bytes = some (a, ⟨.file, no⟩) ∧
      (images a).tree.length no < 2147483648 ∧ 3 ≤ fd ∧ fd < processMaxFileDescriptors ∧
      s.files process fd ≠ 0 ∧ Reading machine (images a) a no (s.files process fd) data.length s.io.objects ∧
      data = (images a).tree.first no data.length

/-- The invariant of a run. -/
structure FdTracks (machine : Machine σ δ) (images : ℕ → VolumeImage) (start : FdState σ δ)
    (h : FdHistory σ δ) : Prop where
  table : OpenFiles machine images h.state
  mountpoints : h.state.io.mountpoints = start.io.mountpoints
  tracks : ∀ process fd, FdTracksAt machine images start h.state process fd
    (FdTracked process fd h.events)

/-! ## A change of one descriptor -/

variable {s : FdState σ δ} {o : Objects σ δ} {process fd ptr : ℕ}

omit [Allocator σ] in
theorem files_setFile_self (s : FdState σ δ) (process fd ptr : ℕ) :
    (s.setFile process fd ptr).files process fd = ptr := by
  show Function.update s.files process _ process fd = ptr
  rw [Function.update_self, Function.update_self]

omit [Allocator σ] in
theorem files_setFile_ne {process' fd' : ℕ} (h : (process', fd') ≠ (process, fd)) (ptr : ℕ) :
    (s.setFile process fd ptr).files process' fd' = s.files process' fd' := by
  show Function.update s.files process _ process' fd' = _
  by_cases hp : process' = process
  · subst hp
    have hfd : fd' ≠ fd := by
      rintro rfl
      exact h rfl
    rw [Function.update_self, Function.update_of_ne hfd]
  · rw [Function.update_of_ne hp]

/-- The objects change, and the descriptor `fd` of `process` gets the pointer `ptr`. -/
def FdState.change (s : FdState σ δ) (o : Objects σ δ) (process fd ptr : ℕ) : FdState σ δ :=
  ({ s with io := { s.io with objects := o } } : FdState σ δ).setFile process fd ptr

/-- What a change leaves of a descriptor. -/
structure FdUntouched (s : FdState σ δ) (o : Objects σ δ) (ptr : ℕ) : Prop where
  file : o.files ptr = s.io.objects.files ptr
  node : o.nodes (s.io.objects.files ptr).node =
    s.io.objects.nodes (s.io.objects.files ptr).node
  live : ∀ p ∈ s.io.objects.held ptr, Live o.heap p

theorem FdUntouched.held (h : FdUntouched s o ptr) : o.held ptr = s.io.objects.held ptr :=
  Objects.held_congr h.file h.node

theorem Objects.Keeps.untouched {but : Set ℕ} (hk : s.io.objects.Keeps but o)
    (hl : ∀ p ∈ s.io.objects.held ptr, Live s.io.objects.heap p)
    (hd : Disjoint (s.io.objects.held ptr) but) : FdUntouched s o ptr := by
  have hout : ∀ p ∈ s.io.objects.held ptr, p ∉ but := fun p hp hb => Set.disjoint_left.1 hd hp hb
  have hself : ptr ∈ s.io.objects.held ptr := Or.inl rfl
  have hnode : (s.io.objects.files ptr).node ∈ s.io.objects.held ptr := Or.inr (Or.inl rfl)
  exact ⟨hk.files _ (hout _ hself) (hl _ hself), hk.nodes _ (hout _ hnode) (hl _ hnode),
    fun p hp => hk.live p (hout p hp) (hl p hp)⟩

/-- What a change may do: the file systems stay with their roots, the other descriptors are
untouched, and the descriptor that is changed is closed or holds blocks of its own. -/
structure FdChange (s : FdState σ δ) (o : Objects σ δ) (process fd ptr : ℕ) : Prop where
  filesystems : o.filesystems = s.io.objects.filesystems
  roots : ∀ i < fsVolumeMaxMountpoints, s.io.mountpoints i ≠ 0 →
    Live o.heap (s.io.root i) ∧ o.nodes (s.io.root i) = s.io.objects.nodes (s.io.root i)
  others : ∀ process' fd', (process', fd') ≠ (process, fd) → s.files process' fd' ≠ 0 →
    FdUntouched s o (s.files process' fd')
  live : ptr ≠ 0 → ∀ p ∈ o.held ptr, Live o.heap p
  apart : ptr ≠ 0 → ∀ i < fsVolumeMaxMountpoints, s.io.mountpoints i ≠ 0 →
    s.io.root i ∉ o.held ptr
  disjoint : ptr ≠ 0 → ∀ process' fd', (process', fd') ≠ (process, fd) →
    s.files process' fd' ≠ 0 → Disjoint (o.held ptr) (s.io.objects.held (s.files process' fd'))

/-- **A change keeps the table.** -/
theorem OpenFiles.change (h : OpenFiles machine images s) (hc : FdChange s o process fd ptr) :
    OpenFiles machine images (s.change o process fd ptr) := by
  have hroot : ∀ i, (s.change o process fd ptr).io.root i = s.io.root i := fun i => by
    show (o.filesystems (s.io.mountpoints i)).root = _
    rw [hc.filesystems]
    rfl
  have hother : ∀ {process' fd' : ℕ}, (process', fd') ≠ (process, fd) →
      (s.change o process fd ptr).files process' fd' = s.files process' fd' :=
    fun hne => files_setFile_ne hne _
  have hself : (s.change o process fd ptr).files process fd = ptr := files_setFile_self _ _ _ _
  refine ⟨⟨fun i hi h0 => ?_, fun i hi h0 => ?_, fun i hi h0 => ?_⟩, ?_, ?_, ?_⟩
  · show (images _).WellFormed machine (o.filesystems _)
    rw [hc.filesystems]
    exact h.volume i hi h0
  · rw [hroot]
    exact (hc.roots i hi h0).1
  · rw [hroot]
    show (images _).IsNode _ (o.nodes (s.io.root i)) _
    rw [(hc.roots i hi h0).2]
    exact h.rootNode i hi h0
  · intro process' fd' h0
    by_cases he : (process', fd') = (process, fd)
    · obtain ⟨rfl, rfl⟩ := Prod.mk.inj he
      rw [hself] at h0 ⊢
      exact hc.live h0
    · rw [hother he] at h0 ⊢
      have hu := hc.others process' fd' he h0
      show ∀ p ∈ o.held _, Live o.heap p
      rw [hu.held]
      exact hu.live
  · intro process' fd' h0 i hi hm
    rw [hroot]
    by_cases he : (process', fd') = (process, fd)
    · obtain ⟨rfl, rfl⟩ := Prod.mk.inj he
      rw [hself] at h0 ⊢
      exact hc.apart h0 i hi hm
    · rw [hother he] at h0 ⊢
      show _ ∉ o.held _
      rw [(hc.others process' fd' he h0).held]
      exact h.apart process' fd' h0 i hi hm
  · intro process₁ fd₁ process₂ fd₂ hne h₁ h₂
    by_cases he₁ : (process₁, fd₁) = (process, fd)
    · have he₂ : (process₂, fd₂) ≠ (process, fd) := fun he => hne (he₁.trans he.symm)
      obtain ⟨rfl, rfl⟩ := Prod.mk.inj he₁
      rw [hself] at h₁ ⊢
      rw [hother he₂] at h₂ ⊢
      show Disjoint (o.held _) (o.held _)
      rw [(hc.others process₂ fd₂ he₂ h₂).held]
      exact hc.disjoint h₁ process₂ fd₂ he₂ h₂
    · rw [hother he₁] at h₁ ⊢
      by_cases he₂ : (process₂, fd₂) = (process, fd)
      · obtain ⟨rfl, rfl⟩ := Prod.mk.inj he₂
        rw [hself] at h₂ ⊢
        show Disjoint (o.held _) (o.held _)
        rw [(hc.others process₁ fd₁ he₁ h₁).held]
        exact (hc.disjoint h₂ process₁ fd₁ he₁ h₁).symm
      · rw [hother he₂] at h₂ ⊢
        show Disjoint (o.held _) (o.held _)
        rw [(hc.others process₁ fd₁ he₁ h₁).held, (hc.others process₂ fd₂ he₂ h₂).held]
        exact h.disjoint process₁ fd₁ process₂ fd₂ hne h₁ h₂

/-- The other descriptors stay as the calls say. -/
theorem FdTracksAt.change {t : FdTrack} {process' fd' : ℕ}
    (h : FdTracksAt machine images start s process' fd' t) (hc : FdChange s o process fd ptr)
    (hne : (process', fd') ≠ (process, fd)) :
    FdTracksAt machine images start (s.change o process fd ptr) process' fd' t := by
  have hfile : (s.change o process fd ptr).files process' fd' = s.files process' fd' :=
    files_setFile_ne hne _
  cases t with
  | none => exact hfile.trans h
  | some t =>
    obtain ⟨a, no, htarget, hlt, h3, hfd, h0, hr, hdata⟩ := h
    have hu := hc.others process' fd' hne h0
    refine ⟨a, no, htarget, hlt, h3, hfd, by rwa [hfile], ?_, hdata⟩
    rw [hfile]
    exact hr.congr hu.file hu.node hc.filesystems

/-! ## The calls -/

omit [Allocator σ] in
theorem meets_onIo {α : Type} {x : IoM σ δ α} {allowed : FsStop → Prop}
    {Q : α → IoState σ δ → Prop} (h : Meets allowed x s.io Q) :
    Meets allowed (onIo x) s fun r s' => ∃ io, s' = { s with io := io } ∧ Q r io := by
  rcases h.cases with ⟨e, hx, he⟩ | ⟨r, io, hx, hq⟩
  · exact Meets.of_error (by rw [onIo, hx]; rfl) he
  · exact Meets.of_ok (by rw [onIo, hx]; rfl) ⟨io, rfl, hq⟩

omit [Allocator σ] in
theorem change_closed (s : FdState σ δ) (o : Objects σ δ) (h : s.files process fd = ptr) :
    s.change o process fd ptr = { s with io := { s.io with objects := o } } := by
  rw [FdState.change, FdState.setFile]
  dsimp only
  rw [← h, Function.update_eq_self, Function.update_eq_self]

omit [Allocator σ] in
theorem freeFd_some (h : s.freeFd process = some fd) :
    3 ≤ fd ∧ fd < processMaxFileDescriptors ∧ s.files process fd = 0 ∧
      ∀ fd', 3 ≤ fd' → fd' < fd → s.files process fd' ≠ 0 := by
  obtain ⟨hz, hm, hbefore⟩ := List.find?_range'_eq_some.1 h
  have hm := List.mem_range'_1.1 hm
  refine ⟨hm.1, hm.2, of_decide_eq_true hz, fun fd' h3 hlt => ?_⟩
  have hp := hbefore fd' h3 hlt
  rwa [Bool.not_eq_true', decide_eq_false_iff_not] at hp

/-- What `syscall_open` did: nothing, as no descriptor is free or the file were to be created, or
it changed the least free descriptor, which stays closed as there is no file, or is open on it. -/
def FdOpened (machine : Machine σ δ) (images : ℕ → VolumeImage) (s : FdState σ δ) (process : ℕ)
    (path : List UInt8) (flags : ℕ) (r : Int) (s' : FdState σ δ) : Prop :=
  r = -1 ∧ s' = s ∧ (flags &&& fileCreat ≠ 0 ∨ s.freeFd process = none) ∨
    ∃ o fd ptr, s.freeFd process = some fd ∧ FdChange s o process fd ptr ∧
      s' = s.change o process fd ptr ∧
      (r = -1 ∧ ptr = 0 ∧ pathTarget images s.io path = none ∨ r = fd ∧ ptr ≠ 0 ∧
        flags &&& fileCreat = 0 ∧ ∃ a no, pathTarget images s.io path = some (a, ⟨.file, no⟩) ∧
          Reading machine (images a) a no ptr 0 o)

theorem OpenFiles.root_kept (h : OpenFiles machine images s) {i : ℕ} (hi : i < fsVolumeMaxMountpoints)
    (hm : s.io.mountpoints i ≠ 0) {but : Set ℕ} (hk : s.io.objects.Keeps but o)
    (hb : s.io.root i ∉ but) :
    Live o.heap (s.io.root i) ∧ o.nodes (s.io.root i) = s.io.objects.nodes (s.io.root i) :=
  ⟨hk.live _ hb (h.rootLive i hi hm), hk.nodes _ hb (h.rootLive i hi hm)⟩

/-- New objects in a descriptor. -/
theorem OpenFiles.fdChange_new (h : OpenFiles machine images s) (hk : s.io.objects.Keeps ∅ o)
    (hnew : ptr ≠ 0 → ∀ p ∈ o.held ptr, Live o.heap p ∧ ¬ Live s.io.objects.heap p) :
    FdChange s o process fd ptr where
  filesystems := hk.filesystems
  roots _ hi hm := h.root_kept hi hm hk (Set.notMem_empty _)
  others process' fd' _ h0 := hk.untouched (h.live process' fd' h0) (Set.disjoint_empty _)
  live h0 p hp := (hnew h0 p hp).1
  apart h0 i hi hm hp := (hnew h0 _ hp).2 (h.rootLive i hi hm)
  disjoint h0 process' fd' _ h0' := Set.disjoint_left.2 fun p hp hp' =>
    (hnew h0 p hp).2 (h.live process' fd' h0' p hp')

omit [Allocator σ] in
theorem freeFd_none (h : s.freeFd process = none) (h3 : 3 ≤ fd)
    (hfd : fd < processMaxFileDescriptors) : s.files process fd ≠ 0 := by
  have hall := List.find?_eq_none.1 h fd (List.mem_range'_1.2 ⟨h3, by omega⟩)
  rwa [decide_eq_true_iff] at hall

theorem meets_syscallOpen (h : OpenFiles machine images s) {path : CString} {flags : ℕ}
    (hadm : (FdCall.open process path flags).Admissible images s) :
    Meets OutOfMemory (syscallOpen machine process path.bytes flags) s fun r s' =>
      FdOpened machine images s process path.bytes flags r s' := by
  obtain ⟨hpath, hflags, -⟩ := hadm
  rw [syscallOpen]
  split
  · rename_i hcreat
    exact Meets.pure (Or.inl ⟨rfl, rfl, Or.inl hcreat⟩)
  rename_i hcreat
  refine Meets.get_bind ?_
  cases hfree : s.freeFd process with
  | none => exact Meets.pure (Or.inl ⟨rfl, rfl, Or.inr hfree⟩)
  | some fd =>
    obtain ⟨-, -, hclosed, -⟩ := freeFd_some hfree
    dsimp only
    refine (meets_onIo (meets_fileOpen_new h.toMountTable path hpath hflags)).bind ?_
    rintro ptr _ ⟨_, rfl, o, rfl, hk, ⟨rfl, hnone⟩ | ⟨a, no, htarget, hr, hnew⟩⟩
    · rw [if_neg (not_not.2 rfl)]
      refine Meets.pure (Or.inr ⟨o, fd, 0, hfree, ?_, (change_closed s o hclosed).symm,
        Or.inl ⟨rfl, rfl, hnone⟩⟩)
      exact h.fdChange_new hk fun h0 => absurd rfl h0
    · rw [if_pos hr.fd_ne]
      refine Meets.modify_bind (Meets.pure (Or.inr ⟨o, fd, ptr, hfree, ?_, rfl,
        Or.inr ⟨rfl, hr.fd_ne, not_not.1 hcreat, a, no, htarget, hr⟩⟩))
      exact h.fdChange_new hk fun _ => hnew

/-- What `syscall_read` did on a descriptor that is open on a file. -/
def FdRead (machine : Machine σ δ) (image : VolumeImage) (a no offset : ℕ) (s : FdState σ δ)
    (process fd size : ℕ) (buffer : Mem) (r : Int × Mem) (s' : FdState σ δ) : Prop :=
  ReturnsBytes image.tree no offset size buffer r ∧
    ∃ o, FdChange s o process fd (s.files process fd) ∧
      s' = s.change o process fd (s.files process fd) ∧
      Reading machine image a no (s.files process fd)
        (offset + available (image.tree.length no) offset size) o

theorem meets_syscallReadFile (h : OpenFiles machine images s) {a no offset : ℕ}
    (hfd : fd < processMaxFileDescriptors) (h0 : s.files process fd ≠ 0)
    (hr : Reading machine (images a) a no (s.files process fd) offset s.io.objects)
    (hlt : (images a).tree.length no < 2147483648) {size : ℕ} (hs : size < 2147483648)
    (buffer : Mem) :
    Meets OutOfMemory (syscallReadFile machine process (fd : Int) size buffer) s fun r s' =>
      FdRead machine (images a) a no offset s process fd size buffer r s' := by
  have hrange : ¬ ((fd : Int) < 0 ∨ (processMaxFileDescriptors : Int) ≤ fd) := by
    have : fd < 32 := hfd
    have : ((processMaxFileDescriptors : ℕ) : Int) = 32 := rfl
    omega
  rw [syscallReadFile, if_neg hrange]
  refine Meets.get_bind ?_
  dsimp only
  rw [Int.toNat_natCast, if_pos h0]
  refine (meets_onIo (meets_onObjects (meets_fileRead_next hr hlt hs buffer).with_run)).mono ?_
  rintro r _ ⟨_, rfl, o, rfl, ⟨hbytes, hnext⟩, hrun⟩
  obtain ⟨hk, hheld, hlive⟩ := (meets_fileRead_keeps hr size buffer).of_run hrun
  have hother : ∀ process' fd', (process', fd') ≠ (process, fd) → s.files process' fd' ≠ 0 →
      Disjoint (s.io.objects.held (s.files process' fd')) {s.files process fd} := by
    intro process' fd' hne h0'
    refine Set.disjoint_singleton_right.2 fun hm => ?_
    exact Set.disjoint_left.1 (h.disjoint process' fd' process fd hne h0' h0) hm (Or.inl rfl)
  have hroot : ∀ i < fsVolumeMaxMountpoints, s.io.mountpoints i ≠ 0 →
      s.io.root i ∉ ({s.files process fd} : Set ℕ) := by
    rintro i hi hm he
    exact h.apart process fd h0 i hi hm (Or.inl he)
  refine ⟨hbytes, o, ⟨hk.filesystems, fun i hi hm => h.root_kept hi hm hk (hroot i hi hm), ?_, ?_, ?_,
    ?_⟩, (change_closed s o rfl).symm, hnext⟩
  · intro process' fd' hne h0'
    exact hk.untouched (h.live process' fd' h0') (hother process' fd' hne h0')
  · intro _ p hp
    rw [hheld] at hp
    exact hlive p (h.live process fd h0 p hp)
  · intro _ i hi hm
    rw [hheld]
    exact h.apart process fd h0 i hi hm
  · intro _ process' fd' hne h0'
    rw [hheld]
    exact h.disjoint process fd process' fd' hne.symm h0 h0'

theorem meets_syscallClose (h : OpenFiles machine images s) {a no offset : ℕ} (h3 : 3 ≤ fd)
    (hfd : fd < processMaxFileDescriptors) (h0 : s.files process fd ≠ 0)
    (hr : Reading machine (images a) a no (s.files process fd) offset s.io.objects)
    {allowed : FsStop → Prop} :
    Meets allowed (syscallClose process (fd : Int)) s fun r s' => r = 0 ∧
      ∃ o, FdChange s o process fd 0 ∧ s' = s.change o process fd 0 := by
  have hrange : ¬ ((fd : Int) < 0 ∨ (processMaxFileDescriptors : Int) ≤ fd) := by
    have : fd < 32 := hfd
    have : ((processMaxFileDescriptors : ℕ) : Int) = 32 := rfl
    omega
  rw [syscallClose, if_neg hrange, if_neg (by omega)]
  refine Meets.get_bind ?_
  dsimp only
  rw [Int.toNat_natCast, if_pos h0]
  refine (meets_onIo (meets_onObjects (meets_fileClose hr))).bind ?_
  rintro r _ ⟨_, rfl, o, rfl, -, hk⟩
  refine Meets.modify_bind (Meets.pure ⟨rfl, o, ⟨hk.filesystems, ?_, ?_, ?_, ?_, ?_⟩, rfl⟩)
  · exact fun i hi hm => h.root_kept hi hm hk (h.apart process fd h0 i hi hm)
  · intro process' fd' hne h0'
    exact hk.untouched (h.live process' fd' h0') (h.disjoint process' fd' process fd hne h0' h0)
  all_goals exact fun hz => absurd rfl hz

/-! ## Runs -/

theorem FdTracks.open_iff {h : FdHistory σ δ} (ht : FdTracks machine images start h)
    (process fd : ℕ) : h.state.files process fd = 0 ↔ FdTracked process fd h.events = none := by
  have hat := ht.tracks process fd
  cases htrack : FdTracked process fd h.events with
  | none =>
    rw [htrack] at hat
    exact ⟨fun _ => rfl, fun _ => hat⟩
  | some t =>
    rw [htrack] at hat
    obtain ⟨a, no, -, -, -, -, h0, -⟩ := hat
    exact ⟨fun hz => absurd hz h0, fun hz => by cases hz⟩

omit [Allocator σ] in
theorem pathTarget_congr {s s' : IoState σ δ} (h : s.mountpoints = s'.mountpoints)
    (path : List UInt8) : pathTarget images s path = pathTarget images s' path := by
  have hdrive : ∀ drive, s.drive drive = s'.drive drive := fun drive => by
    rw [IoState.drive, IoState.drive, h]
  rw [pathTarget, pathTarget, hdrive]

/-- A change of one descriptor, with the event that says so. -/
theorem FdTracks.change {h : FdHistory σ δ} (ht : FdTracks machine images start h)
    (hc : FdChange h.state o process fd ptr) {e : FdEvent}
    (he : ∀ process' fd' t, (process', fd') ≠ (process, fd) → e.track process' fd' t = t)
    (hat : FdTracksAt machine images start (h.state.change o process fd ptr) process fd
      (e.track process fd (FdTracked process fd h.events))) :
    FdTracks machine images start ⟨h.state.change o process fd ptr, h.events ++ [e]⟩ := by
  refine ⟨ht.table.change hc, ht.mountpoints, fun process' fd' => ?_⟩
  rw [fdTracked_append]
  by_cases hne : (process', fd') = (process, fd)
  · obtain ⟨rfl, rfl⟩ := Prod.mk.inj hne
    exact hat
  · rw [he process' fd' _ hne]
    exact (ht.tracks process' fd').change hc hne

/-- A call that changes neither the state nor what is tracked. -/
theorem FdTracks.same {h : FdHistory σ δ} (ht : FdTracks machine images start h) {e : FdEvent}
    (he : ∀ process fd, e.track process fd (FdTracked process fd h.events) =
      FdTracked process fd h.events) :
    FdTracks machine images start ⟨h.state, h.events ++ [e]⟩ := by
  refine ⟨ht.table, ht.mountpoints, fun process fd => ?_⟩
  rw [fdTracked_append, he]
  exact ht.tracks process fd

theorem FdTracks.step_open {h : FdHistory σ δ} (ht : FdTracks machine images start h)
    {path : CString} {flags : ℕ} {r : Int} {s' : FdState σ δ}
    (hadm : (FdCall.open process path flags).Admissible images h.state)
    (ho : FdOpened machine images h.state process path.bytes flags r s') :
    FdTracks machine images start ⟨s', h.events ++ [⟨.open process path flags, .opened r⟩]⟩ := by
  have hfail : ∀ process' fd' t, FdEvent.track process' fd' t ⟨.open process path flags, .opened (-1)⟩ = t :=
    fun process' fd' t => if_neg fun hc => by have := hc.2; omega
  rcases ho with ⟨rfl, rfl, -⟩ |
    ⟨o, fd, ptr, hfree, hc, rfl, ⟨rfl, rfl, -⟩ | ⟨rfl, h0, -, a, no, htarget, hr⟩⟩
  · exact ht.same fun process fd => hfail process fd _
  · refine ht.change hc (fun process' fd' t _ => hfail process' fd' t) ?_
    rw [hfail, (ht.open_iff process fd).1 (freeFd_some hfree).2.2.1]
    exact files_setFile_self _ _ _ _
  · refine ht.change hc (fun process' fd' t hne => if_neg fun hc => hne ?_) ?_
    · rw [hc.1, Int.natCast_inj.1 hc.2]
    · have he : FdEvent.track process fd (FdTracked process fd h.events)
          ⟨.open process path flags, .opened fd⟩ = some (path, []) := if_pos ⟨rfl, rfl⟩
      obtain ⟨h3, hfd, -⟩ := freeFd_some hfree
      rw [he]
      refine ⟨a, no, ?_, hadm.2.2 a _ htarget, h3, hfd, ?_, ?_, rfl⟩
      · rw [← pathTarget_congr ht.mountpoints]
        exact htarget
      · rw [FdState.change, files_setFile_self]
        exact h0
      · rw [FdState.change, files_setFile_self]
        exact hr

theorem FdTracks.step_close {h : FdHistory σ δ} (ht : FdTracks machine images start h)
    (hc : FdChange h.state o process fd 0) :
    FdTracks machine images start
      ⟨h.state.change o process fd 0, h.events ++ [⟨.close process fd, .closed 0⟩]⟩ := by
  refine ht.change hc (fun process' fd' t hne => if_neg fun hc => hne ?_) ?_
  · rw [hc.1, Int.natCast_inj.1 hc.2.1]
  · have he : FdEvent.track process fd (FdTracked process fd h.events)
        ⟨.close process fd, .closed 0⟩ = none := if_pos ⟨rfl, rfl, rfl⟩
    rw [he]
    exact files_setFile_self _ _ _ _

/-- The bytes that a read returned follow the ones before. -/
theorem ReturnsBytes.first {tree : FileTree} {no offset size : ℕ} {buffer : Mem} {r : Int × Mem}
    (h : ReturnsBytes tree no offset size buffer r) :
    tree.first no offset ++ (List.range r.1.toNat).map r.2 =
      tree.first no (offset + available (tree.length no) offset size) := by
  have hlen : r.1.toNat = available (tree.length no) offset size := by
    rw [h.1, Int.toNat_natCast]
  have hbytes : (List.range (available (tree.length no) offset size)).map r.2 =
      (List.range (available (tree.length no) offset size)).map fun j => tree.byte no (offset + j) :=
    List.map_congr_left fun j hj => (h.2 j).trans (if_pos (List.mem_range.1 hj))
  rw [FileTree.first, FileTree.first, map_range_add, hlen, hbytes]

theorem FdTracks.step_read {h : FdHistory σ δ} (ht : FdTracks machine images start h)
    {path : CString} {data : List UInt8}
    (htrack : FdTracked process fd h.events = some (path, data)) {a no size : ℕ} {buffer : Mem}
    (htarget : pathTarget images start.io path.bytes = some (a, ⟨.file, no⟩))
    (hlt : (images a).tree.length no < 2147483648) (h3 : 3 ≤ fd)
    (hfd : fd < processMaxFileDescriptors) (h0 : h.state.files process fd ≠ 0)
    (hdata : data = (images a).tree.first no data.length) {r : Int × Mem} {s' : FdState σ δ}
    (hr : FdRead machine (images a) a no data.length h.state process fd size buffer r s') :
    FdTracks machine images start
      ⟨s', h.events ++ [⟨.read process fd size buffer, .bytes r.1 r.2⟩]⟩ := by
  obtain ⟨hbytes, o, hc, rfl, hnext⟩ := hr
  refine ht.change hc (fun process' fd' t hne => if_neg fun hc => hne ?_) ?_
  · rw [hc.1, Int.natCast_inj.1 hc.2]
  · have he : FdEvent.track process fd (FdTracked process fd h.events)
        ⟨.read process fd size buffer, .bytes r.1 r.2⟩ =
          some (path, data ++ (List.range r.1.toNat).map r.2) := by
      rw [htrack]
      exact if_pos ⟨rfl, rfl⟩
    have hall : data ++ (List.range r.1.toNat).map r.2 =
        (images a).tree.first no (data.length + available ((images a).tree.length no) data.length size) := by
      rw [← hbytes.first, ← hdata]
    have hlen : (data ++ (List.range r.1.toNat).map r.2).length =
        data.length + available ((images a).tree.length no) data.length size := by
      rw [hall, FileTree.first, List.length_map, List.length_range]
    rw [he]
    refine ⟨a, no, htarget, hlt, h3, hfd, ?_, ?_, by rw [hlen, hall]⟩
    · rw [FdState.change, files_setFile_self]
      exact h0
    · rw [FdState.change, files_setFile_self, hlen]
      exact hnext

/-- A call on a descriptor that is not open fails. -/
theorem syscallReadFile_closed {fd : Int} (h : ∀ d : ℕ, fd = d → s.files process d = 0) (size : ℕ)
    (buffer : Mem) :
    syscallReadFile machine process fd size buffer s = .ok ((-1, buffer), s) := by
  rw [syscallReadFile]
  split
  · rfl
  · rename_i hrange
    have hd := h fd.toNat (by omega)
    show (if s.files process fd.toNat ≠ 0 then onIo (onObjects (fileRead machine
      (s.files process fd.toNat) size buffer)) else pure (-1, buffer) : FdM σ δ (Int × Mem)) s = _
    rw [if_neg (not_not.2 hd)]
    rfl

theorem syscallClose_closed {fd : Int} (h : ∀ d : ℕ, fd = d → s.files process d = 0) :
    syscallClose process fd s = .ok (-1, s) := by
  rw [syscallClose]
  split
  · rfl
  split
  · rfl
  · rename_i hrange _
    have hd := h fd.toNat (by omega)
    show (if s.files process fd.toNat ≠ 0 then _ else pure (-1) : FdM σ δ Int) s = _
    rw [if_neg (not_not.2 hd)]
    rfl

omit [Allocator σ] in
theorem fd_cases (s : FdState σ δ) (process : ℕ) (fd : Int) :
    (∀ d : ℕ, fd = d → s.files process d = 0) ∨ ∃ d : ℕ, fd = d ∧ s.files process d ≠ 0 := by
  by_cases h : ∃ d : ℕ, fd = d ∧ s.files process d ≠ 0
  · exact Or.inr h
  · refine Or.inl fun d hd => ?_
    by_contra h0
    exact h ⟨d, hd, h0⟩

/-- What other code does. -/
theorem FdTracks.step_other {h : FdHistory σ δ} (ht : FdTracks machine images start h)
    (hfs : o.filesystems = h.state.io.objects.filesystems)
    (hheld : ∀ p, HeldBlock h.state p → Live o.heap p ∧ o.nodes p = h.state.io.objects.nodes p ∧
      o.files p = h.state.io.objects.files p) :
    FdTracks machine images start
      { h with state := { h.state with io := { h.state.io with objects := o } } } := by
  have hu : ∀ process fd, h.state.files process fd ≠ 0 →
      FdUntouched h.state o (h.state.files process fd) := by
    intro process fd h0
    have hmem : ∀ p ∈ h.state.io.objects.held (h.state.files process fd), HeldBlock h.state p :=
      fun p hp => Or.inl ⟨process, fd, h0, hp⟩
    exact ⟨(hheld _ (hmem _ (Or.inl rfl))).2.2, (hheld _ (hmem _ (Or.inr (Or.inl rfl)))).2.1,
      fun p hp => (hheld p (hmem p hp)).1⟩
  -- as a change of a descriptor that stays what it is
  have hc : FdChange h.state o 0 0 (h.state.files 0 0) := by
    refine ⟨hfs, fun i hi hm => ?_, fun process' fd' _ => hu process' fd', fun h0 p hp => ?_,
      fun h0 i hi hm => ?_, fun h0 process' fd' hne h0' => ?_⟩
    · obtain ⟨h1, h2, -⟩ := hheld _ (Or.inr ⟨i, hi, hm, rfl⟩)
      exact ⟨h1, h2⟩
    · rw [(hu 0 0 h0).held] at hp
      exact (hu 0 0 h0).live p hp
    · rw [(hu 0 0 h0).held]
      exact ht.table.apart 0 0 h0 i hi hm
    · rw [(hu 0 0 h0).held]
      exact ht.table.disjoint 0 0 process' fd' hne.symm h0 h0'
  have htable := ht.table.change hc
  rw [change_closed h.state o rfl] at htable
  refine ⟨htable, ht.mountpoints, fun process fd => ?_⟩
  have hat := ht.tracks process fd
  dsimp only
  cases htrack : FdTracked process fd h.events with
  | none =>
    rw [htrack] at hat
    exact hat
  | some t =>
    rw [htrack] at hat
    obtain ⟨a, no, htarget, hlt, h3, hfd, h0, hr, hdata⟩ := hat
    exact ⟨a, no, htarget, hlt, h3, hfd, h0,
      hr.congr (hu process fd h0).file (hu process fd h0).node hfs, hdata⟩

/-- **Every step keeps the invariant.** -/
theorem FdTracks.step {h h' : FdHistory σ δ} {label : Option FdCall}
    (ht : FdTracks machine images start h)
    (hs : (fdSystem machine images start).step h label h') :
    FdTracks machine images start h' := by
  cases label with
  | none =>
    obtain ⟨o, hfs, hheld, rfl⟩ := hs
    exact ht.step_other hfs hheld
  | some call =>
    obtain ⟨hadm, reply, s', hexec, rfl⟩ := hs
    cases call with
    | «open» process path flags =>
      obtain ⟨r, hrun, rfl⟩ := exists_of_map_run hexec
      exact ht.step_open hadm ((meets_syscallOpen ht.table hadm).of_run hrun)
    | read process fd size buffer =>
      obtain ⟨r, hrun, rfl⟩ := exists_of_map_run hexec
      rcases fd_cases h.state process fd with hclosed | ⟨d, rfl, h0⟩
      · rw [syscallReadFile_closed hclosed] at hrun
        obtain ⟨rfl, rfl⟩ := Prod.mk.inj (Except.ok.inj hrun)
        refine ht.same fun process' fd' => ?_
        show (if process = process' ∧ fd = fd' then (FdTracked process' fd' h.events).map _ else _) = _
        split
        · rename_i hc
          obtain ⟨rfl, hfd⟩ := hc
          rw [(ht.open_iff process fd').1 (hclosed fd' hfd)]
          rfl
        · rfl
      · cases htrack : FdTracked process d h.events with
        | none => exact absurd ((ht.open_iff process d).2 htrack) h0
        | some t =>
          have hat := ht.tracks process d
          rw [htrack] at hat
          obtain ⟨a, no, htarget, hlt, h3, hfd, -, hr, hdata⟩ := hat
          exact ht.step_read htrack htarget hlt h3 hfd h0 hdata
            ((meets_syscallReadFile ht.table hfd h0 hr hlt hadm.2 buffer).of_run hrun)
    | close process fd =>
      obtain ⟨r, hrun, rfl⟩ := exists_of_map_run hexec
      rcases fd_cases h.state process fd with hclosed | ⟨d, rfl, h0⟩
      · rw [syscallClose_closed hclosed] at hrun
        obtain ⟨rfl, rfl⟩ := Prod.mk.inj (Except.ok.inj hrun)
        refine ht.same fun process' fd' => if_neg fun hc => ?_
        have := hc.2.2
        omega
      · cases htrack : FdTracked process d h.events with
        | none => exact absurd ((ht.open_iff process d).2 htrack) h0
        | some t =>
          have hat := ht.tracks process d
          rw [htrack] at hat
          obtain ⟨a, no, -, -, h3, hfd, -, hr, -⟩ := hat
          have hclose : Meets OutOfMemory (syscallClose process (d : Int)) h.state _ :=
            meets_syscallClose ht.table h3 hfd h0 hr
          obtain ⟨rfl, o, hc, rfl⟩ := hclose.of_run hrun
          exact ht.step_close hc

/-- The invariant holds in every run from a state without open descriptors. -/
theorem reachable_fdTracks (hs : MountTable machine images start.io)
    (hclosed : ∀ process fd, start.files process fd = 0) {h : FdHistory σ δ}
    (hr : (fdSystem machine images start).Reachable h) : FdTracks machine images start h := by
  refine hr.invariant ?_ fun h label h' _ ht hstep => ht.step hstep
  rintro _ rfl
  refine ⟨⟨hs, fun process fd h0 => ?_, fun process fd h0 => ?_, fun process fd _ _ _ h0 => ?_⟩, rfl,
    hclosed⟩
  all_goals exact absurd (hclosed process fd) h0

/-- What a call on the files of a process does: a file is opened in the least descriptor from 3 on
that is not open, unless it is not there or none is left; exactly the open descriptors can be
closed; and a read returns the next bytes. -/
structure FdCallsRight (machine : Machine σ δ) (images : ℕ → VolumeImage) (start : FdState σ δ)
    (h : FdHistory σ δ) : Prop where
  opened : ∀ process path flags, (FdCall.open process path flags).Admissible images h.state →
    Meets OutOfMemory (syscallOpen machine process path.bytes flags) h.state fun r _ =>
      r = -1 ∧ (flags &&& fileCreat ≠ 0 ∨ pathTarget images h.state.io path.bytes = none ∨
          ∀ fd, 3 ≤ fd → fd < processMaxFileDescriptors → FdTracked process fd h.events ≠ none) ∨
        ∃ fd : ℕ, r = fd ∧ 3 ≤ fd ∧ fd < processMaxFileDescriptors ∧
          flags &&& fileCreat = 0 ∧ pathTarget images h.state.io path.bytes ≠ none ∧
          FdTracked process fd h.events = none ∧
          ∀ fd', 3 ≤ fd' → fd' < fd → FdTracked process fd' h.events ≠ none
  closed : ∀ process (fd : ℕ), Meets OutOfMemory (syscallClose process (fd : Int)) h.state fun r _ =>
    r = if FdTracked process fd h.events = none then -1 else 0
  read : ∀ process fd path data, FdTracked process fd h.events = some (path, data) →
    ∃ a no, pathTarget images start.io path.bytes = some (a, ⟨.file, no⟩) ∧
      data = (images a).tree.first no data.length ∧ data.length ≤ (images a).tree.length no ∧
      ∀ size < 2147483648, ∀ buffer,
        Meets OutOfMemory (syscallReadFile machine process (fd : Int) size buffer) h.state
          fun r _ => ReturnsBytes (images a).tree no data.length size buffer r

/-- **File descriptors are independent.**  In every run of opens, reads and closes by any
processes, an open descriptor has returned the first bytes of the file that its path led to when
it was opened, and returns the next ones, whatever is called in between. -/
theorem file_descriptors_independent (machine : Machine σ δ) (images : ℕ → VolumeImage)
    (start : FdState σ δ) (hs : MountTable machine images start.io)
    (hclosed : ∀ process fd, start.files process fd = 0) (h : FdHistory σ δ)
    (hr : (fdSystem machine images start).Reachable h) : FdCallsRight machine images start h := by
  have ht := reachable_fdTracks hs hclosed hr
  refine ⟨fun process path flags hadm => ?_, fun process fd => ?_, fun process fd path data htrack => ?_⟩
  · refine (meets_syscallOpen ht.table hadm).mono ?_
    rintro r s' (⟨rfl, -, hcreat | hfull⟩ |
      ⟨o, fd, ptr, hfree, -, -, ⟨rfl, -, hnone⟩ | ⟨rfl, -, hcreat, a, no, htarget, -⟩⟩)
    · exact Or.inl ⟨rfl, Or.inl hcreat⟩
    · exact Or.inl ⟨rfl, Or.inr (Or.inr fun fd h3 hfd hn =>
        freeFd_none hfull h3 hfd ((ht.open_iff process fd).2 hn))⟩
    · exact Or.inl ⟨rfl, Or.inr (Or.inl hnone)⟩
    · obtain ⟨h3, hfd, h0, hbefore⟩ := freeFd_some hfree
      refine Or.inr ⟨fd, rfl, h3, hfd, hcreat, by rw [htarget]; exact Option.some_ne_none _,
        (ht.open_iff process fd).1 h0, fun fd' h3' hlt hn => ?_⟩
      exact hbefore fd' h3' hlt ((ht.open_iff process fd').2 hn)
  · cases htrack : FdTracked process fd h.events with
    | none =>
      rw [if_pos rfl]
      refine Meets.of_ok (syscallClose_closed fun d hd => ?_) rfl
      rw [← Int.natCast_inj.1 hd]
      exact (ht.open_iff process fd).2 htrack
    | some t =>
      have hat := ht.tracks process fd
      rw [htrack] at hat
      obtain ⟨a, no, -, -, h3, hfd, h0, hr, -⟩ := hat
      rw [if_neg (by exact Option.some_ne_none t)]
      exact (meets_syscallClose ht.table h3 hfd h0 hr).mono fun r _ hr => hr.1
  · have hat := ht.tracks process fd
    rw [htrack] at hat
    obtain ⟨a, no, htarget, hlt, h3, hfd, h0, hr, hdata⟩ := hat
    refine ⟨a, no, htarget, hdata, hr.offset_le, fun size hsize buffer => ?_⟩
    exact (meets_syscallReadFile ht.table hfd h0 hr hlt hsize buffer).mono fun r _ hr => hr.1

/-! ## A run -/

/-- A history with some more calls. -/
def fdCalls (machine : Machine σ δ) : List FdCall → FdHistory σ δ → Except FsStop (FdHistory σ δ)
  | [], h => .ok h
  | call :: calls, h => (call.exec machine h.state).bind fun r =>
    fdCalls machine calls ⟨r.2, h.events ++ [⟨call, r.1⟩]⟩

/-- Calls that are admissible wherever the drives are those of the start, are steps. -/
theorem fdCalls_reachable (hs : MountTable machine images start.io)
    (hclosed : ∀ process fd, start.files process fd = 0) {calls : List FdCall}
    (hadm : ∀ call ∈ calls, ∀ s : FdState σ δ, s.io.mountpoints = start.io.mountpoints →
      call.Admissible images s) {h h' : FdHistory σ δ}
    (hr : (fdSystem machine images start).Reachable h) (hrun : fdCalls machine calls h = .ok h') :
    (fdSystem machine images start).Reachable h' := by
  induction calls generalizing h with
  | nil =>
    obtain rfl : h = h' := Except.ok.inj hrun
    exact hr
  | cons call calls ih =>
    obtain ⟨r, hexec, hrun⟩ := exists_of_bind_ok hrun
    have hmounts := (reachable_fdTracks hs hclosed hr).mountpoints
    exact ih (fun c hc => hadm c (List.mem_cons_of_mem _ hc))
      (hr.step (i := some call) ⟨hadm call List.mem_cons_self _ hmounts, r.1, r.2, hexec, rfl⟩) hrun

/-- The small volume as drive A, and no open descriptors. -/
def dirImageFds : FdState KernelHeap Unit := ⟨dirImageIo, fun _ _ => 0⟩

/-- The path of its file. -/
def dirImageFile : CString := ⟨[0x41, 0x3A, 0x2F, 0x68, 0x69], by decide, by decide⟩

/-- Two processes open the file, the first twice; the second reads it, and the first reads a byte
from one of its descriptors and closes the other. -/
def dirImageCalls : List FdCall :=
  [.open 1 dirImageFile fileRdonly, .open 2 dirImageFile fileRdonly, .open 1 dirImageFile fileRdonly,
    .read 2 3 2 fun _ => 0, .read 1 4 1 fun _ => 0, .close 1 3]

theorem dirImageCalls_events : returns (fdCalls dirImageMachine dirImageCalls ⟨dirImageFds, []⟩)
    (fun h => FdTracked 1 3 h.events = none ∧ FdTracked 1 4 h.events = some (dirImageFile, [0x68]) ∧
      FdTracked 2 3 h.events = some (dirImageFile, [0x68, 0x69])) = true := by
  decide +kernel

/-- Every descriptor has returned bytes of its own. -/
theorem file_descriptors_independent_two : ∃ h : FdHistory KernelHeap Unit,
    FdTracked 1 3 h.events = none ∧ FdTracked 1 4 h.events = some (dirImageFile, [0x68]) ∧
      FdTracked 2 3 h.events = some (dirImageFile, [0x68, 0x69]) ∧
      FdCallsRight dirImageMachine dirImageImages dirImageFds h := by
  have htarget : pathTarget dirImageImages dirImageIo dirImageFile.bytes = some (1, ⟨.file, 3⟩) := by
    decide +kernel
  have hopen : ∀ process, ∀ s : FdState KernelHeap Unit, s.io.mountpoints = dirImageFds.io.mountpoints →
      (FdCall.open process dirImageFile fileRdonly).Admissible dirImageImages s := by
    intro process s hs
    refine ⟨fun a id h => ?_, by decide, fun a id h => ?_⟩
    all_goals
      rw [pathTarget_congr hs] at h
      obtain ⟨rfl, rfl⟩ := Prod.mk.inj (Option.some.inj (htarget.symm.trans h))
    · rfl
    · decide +kernel
  have hadm : ∀ call ∈ dirImageCalls, ∀ s : FdState KernelHeap Unit,
      s.io.mountpoints = dirImageFds.io.mountpoints → call.Admissible dirImageImages s := by
    intro call hcall s hs
    simp only [dirImageCalls, List.mem_cons, List.not_mem_nil, or_false] at hcall
    rcases hcall with rfl | rfl | rfl | rfl | rfl | rfl
    · exact hopen 1 s hs
    · exact hopen 2 s hs
    · exact hopen 1 s hs
    · exact ⟨by decide, by decide⟩
    · exact ⟨by decide, by decide⟩
    · exact trivial
  obtain ⟨h, hrun, hevents⟩ := exists_of_check dirImageCalls_events
  obtain ⟨hclosed, hfirst, hsecond⟩ := of_decide_eq_true hevents
  exact ⟨h, hclosed, hfirst, hsecond, file_descriptors_independent dirImageMachine dirImageImages
    dirImageFds dirImageIo_table (fun _ _ => rfl) h
    (fdCalls_reachable dirImageIo_table (fun _ _ => rfl) hadm (.init rfl) hrun)⟩

end Ttos
