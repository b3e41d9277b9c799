/-
  Runs of directory calls on mounted volumes, in any order and by any process.

  * `dirSystem`: the calls, and what other code does to the heap meanwhile.
  * `Tracked`: what the calls so far say about a descriptor.
  * `reachable_tracks`: an open descriptor returned the entries of its directory, in
    order; it follows for every run from what one call does.
-/
import Ttos.Io.DirSpec
import Ttos.Lib.Run

namespace Ttos

open Allocator

/-- A directory call. -/
inductive DirCall where
  | open (path : CString)
  | read (dd : Int)
  | close (dd : Int)

/-- What a directory call returned. -/
inductive DirReply where
  | opened (dd : Int)
  | entry (e : Option VfsDirent)
  | closed (result : Int)
deriving DecidableEq, Repr

/-- A call with its reply; `refused` says that the heap could not serve the copy of
    the entry that `dir_read` was to return. -/
structure DirEvent where
  call : DirCall
  reply : DirReply
  refused : Bool

variable {σ δ : Type}

/-- The state and the calls so far. -/
structure DirHistory (σ δ : Type) where
  io : IoState σ δ
  events : List DirEvent

section
variable [Allocator σ] (machine : Machine σ δ)

def DirCall.exec : DirCall → IoM σ δ DirReply
  | .open path => DirReply.opened <$> dirOpen machine path.bytes
  | .read dd => (fun r => DirReply.entry (r.map Prod.snd)) <$> dirRead machine dd
  | .close dd => DirReply.closed <$> dirClose dd

/-- The copy of the entry is refused. -/
def DirCall.Refused (s : IoState σ δ) : DirCall → Prop
  | .read dd => 0 ≤ dd ∧ CopyRefused machine s dd.toNat
  | _ => False

/-- A directory is not opened while all descriptors are in use. -/
def DirCall.Admissible (s : IoState σ δ) : DirCall → Prop
  | .open _ => ∃ dd < maxDirDescriptors, s.dirNode dd = 0
  | _ => True

/-- The nodes of the descriptors and of the mounted roots. -/
def HeldNode (s : IoState σ δ) (p : ℕ) : Prop :=
  (∃ dd < maxDirDescriptors, s.dirNode dd ≠ 0 ∧ p = s.dirNode dd) ∨
    ∃ i < fsVolumeMaxMountpoints, s.mountpoints i ≠ 0 ∧ p = s.root i

/-- Runs from the state `start`.  A step is a call that returns, or (`none`) other code
    that allocates and frees, but none of the nodes held here. -/
def dirSystem (start : IoState σ δ) : TransitionSystem (DirHistory σ δ) (Option DirCall) where
  init h := h = ⟨start, []⟩
  step h label h' :=
    match label with
    | none => ∃ heap, (∀ p, HeldNode h.io p → Live heap p) ∧
        h' = { h with io := { h.io with objects := { h.io.objects with heap := heap } } }
    | some call => call.Admissible h.io ∧ ∃ reply refused s',
        call.exec machine h.io = .ok (reply, s') ∧
          (refused = true ↔ call.Refused machine h.io) ∧
          h' = ⟨s', h.events ++ [⟨call, reply, refused⟩]⟩

end

/-! ## Descriptors in a history -/

/-- The path a descriptor was opened with, and what its reads returned since, except
    for those that were refused; `none` while it is closed. -/
abbrev DirTrack := Option (CString × List (Option VfsDirent))

/-- What an event says about the descriptor `dd`. -/
def DirEvent.track (dd : ℕ) (t : DirTrack) (e : DirEvent) : DirTrack :=
  match e.call, e.reply with
  | .open path, .opened r => if r = dd then some (path, []) else t
  | .read r, .entry entry =>
    if r = dd ∧ e.refused = false then t.map fun x => (x.1, x.2 ++ [entry]) else t
  | .close r, .closed result => if r = dd ∧ result = 0 then none else t
  | _, _ => t

/-- What the calls so far say about the descriptor `dd`. -/
def Tracked (dd : ℕ) (events : List DirEvent) : DirTrack := events.foldl (DirEvent.track dd) none

theorem tracked_append (dd : ℕ) (events : List DirEvent) (e : DirEvent) :
    Tracked dd (events ++ [e]) = e.track dd (Tracked dd events) := by
  rw [Tracked, List.foldl_append]
  rfl

/-- The first `n` reads of a directory with the entries `entries`. -/
def firstReads (entries : List VfsDirent) (n : ℕ) : List (Option VfsDirent) :=
  (List.range n).map fun k => entries[k]?

theorem firstReads_succ (entries : List VfsDirent) (n : ℕ) :
    firstReads entries (n + 1) = firstReads entries n ++ [entries[n]?] := by
  rw [firstReads, List.range_succ, List.map_append]
  rfl

section
variable [Allocator σ] {machine : Machine σ δ} {images : ℕ → VolumeImage} {start : IoState σ δ}

/-- The descriptor is as the calls so far say. -/
def TracksAt (images : ℕ → VolumeImage) (start s : IoState σ δ) (dd : ℕ) : DirTrack → Prop
  | none => s.dirNode dd = 0
  | some (path, replies) => ∃ a no, dirTarget images start path.bytes = some (a, no) ∧
      DirAt images s dd a no ∧
      replies = firstReads ((images a).tree.entries no) replies.length ∧
      (s.dirDescriptors dd).index = min replies.length ((images a).tree.entries no).length

/-- The invariant of a run. -/
structure DirTracks (machine : Machine σ δ) (images : ℕ → VolumeImage) (start : IoState σ δ)
    (h : DirHistory σ δ) : Prop where
  table : OpenDirs machine images h.io
  mountpoints : h.io.mountpoints = start.mountpoints
  tracks : ∀ dd < maxDirDescriptors, TracksAt images start h.io dd (Tracked dd h.events)

omit [Allocator σ] in
theorem dirTarget_congr {s s' : IoState σ δ} (h : s.mountpoints = s'.mountpoints)
    (path : List UInt8) : dirTarget images s path = dirTarget images s' path := by
  have hdrive : ∀ drive, s.drive drive = s'.drive drive := fun drive => by
    rw [IoState.drive, IoState.drive, h]
  rw [dirTarget, dirTarget, pathTarget, pathTarget, hdrive]

/-- A descriptor that a step leaves alone. -/
theorem TracksAt.keep {s : IoState σ δ} {o : Objects σ δ} {dd : ℕ} {t : DirTrack}
    (hs : OpenDirs machine images s) (hd : dd < maxDirDescriptors) (he : s.objects.Extends o)
    (h : TracksAt images start s dd t) : TracksAt images start { s with objects := o } dd t := by
  cases t with
  | none => exact h
  | some t =>
    obtain ⟨a, no, ht, hat, hr, hidx⟩ := h
    exact ⟨a, no, ht, hat.extends (hs.dirLive dd hd hat.2.1) he, hr, hidx⟩

omit [Allocator σ] in
theorem TracksAt.setDir_ne {s : IoState σ δ} {dd dd' : ℕ} {t : DirTrack} (hne : dd' ≠ dd)
    (d : DirDescriptor) (h : TracksAt images start s dd' t) :
    TracksAt images start (s.setDir dd d) dd' t := by
  cases t with
  | none =>
    show (s.setDir dd d).dirNode dd' = 0
    rwa [dirNode_setDir_ne hne]
  | some t =>
    obtain ⟨a, no, ht, ⟨hm, h0, hn⟩, hr, hidx⟩ := h
    refine ⟨a, no, ht, ⟨hm, ?_, ?_⟩, hr, ?_⟩
    · rwa [dirNode_setDir_ne hne]
    · rw [dirNode_setDir_ne hne]
      exact hn
    · rwa [dirDescriptors_setDir_ne hne]

/-! ## One step -/

/-- A call out of range or on a closed descriptor does nothing. -/
theorem dirRead_closed {s : IoState σ δ} {dd : Int}
    (h : ∀ d < maxDirDescriptors, dd = (d : ℕ) → s.dirNode d = 0) :
    dirRead machine dd s = .ok (none, s) := by
  rw [dirRead]
  split
  · rfl
  · rename_i hr
    rw [not_or, not_lt, not_le] at hr
    have hlt : dd.toNat < maxDirDescriptors := (Int.toNat_lt hr.1).2 hr.2
    have h0 : (s.dirDescriptors dd.toNat).node = 0 := h _ hlt (Int.toNat_of_nonneg hr.1).symm
    have hrun : ∀ f : IoState σ δ → IoM σ δ (Option (ℕ × VfsDirent)), (get >>= f) s = f s s :=
      fun f => rfl
    rw [hrun, if_pos h0]
    rfl

theorem dirClose_closed {s : IoState σ δ} {dd : Int}
    (h : ∀ d < maxDirDescriptors, dd = (d : ℕ) → s.dirNode d = 0) :
    dirClose dd s = .ok (-1, s) := by
  rw [dirClose]
  split
  · rfl
  · rename_i hr
    rw [not_or, not_lt, not_le] at hr
    have hlt : dd.toNat < maxDirDescriptors := (Int.toNat_lt hr.1).2 hr.2
    have h0 : (s.dirDescriptors dd.toNat).node = 0 := h _ hlt (Int.toNat_of_nonneg hr.1).symm
    have hrun : ∀ f : IoState σ δ → IoM σ δ Int, (get >>= f) s = f s s := fun f => rfl
    rw [hrun, if_pos h0]
    rfl

omit [Allocator σ] in
/-- A descriptor that is called is closed or open. -/
theorem open_cases (s : IoState σ δ) (dd : Int) :
    (∀ d < maxDirDescriptors, dd = (d : ℕ) → s.dirNode d = 0) ∨
      ∃ d < maxDirDescriptors, dd = (d : ℕ) ∧ s.dirNode d ≠ 0 := by
  by_cases hd : ∃ d < maxDirDescriptors, dd = (d : ℕ) ∧ s.dirNode d ≠ 0
  · exact Or.inr hd
  · refine Or.inl fun d hlt he => ?_
    by_contra h0
    exact hd ⟨d, hlt, he, h0⟩

omit [Allocator σ] in
/-- The track of an open descriptor. -/
theorem TracksAt.of_open {s : IoState σ δ} {dd : ℕ} {t : DirTrack} (h : TracksAt images start s dd t)
    (h0 : s.dirNode dd ≠ 0) : ∃ path replies, t = some (path, replies) := by
  cases t with
  | none => exact absurd h h0
  | some t => exact ⟨t.1, t.2, rfl⟩

theorem DirTracks.step_open {h : DirHistory σ δ} (ht : DirTracks machine images start h)
    {path : CString} {r : Int} {refused : Bool} {s' : IoState σ δ}
    (hopen : DirOpened images h.io path.bytes r s') :
    DirTracks machine images start ⟨s', h.events ++ [⟨.open path, .opened r, refused⟩]⟩ := by
  obtain ⟨o, he, ⟨rfl, -, rfl⟩ | ⟨dd, hdd, a, no, node, rfl, h0, htarget, rfl, hl, hnew, hm, hn⟩⟩ := hopen
  · refine ⟨ht.table.extends he, ht.mountpoints, fun d hd => ?_⟩
    have hne : ¬ (-1 : Int) = d := by omega
    rw [tracked_append, DirEvent.track]
    dsimp only
    rw [if_neg hne]
    exact (ht.tracks d hd).keep ht.table hd he
  · obtain ⟨htable, hat⟩ : OpenDirs machine images (({ h.io with objects := o } : IoState σ δ).setDir dd
        ⟨node, 0⟩) ∧ _ := ht.table.open he hl hnew hm hn
    refine ⟨htable, ht.mountpoints, fun d hd => ?_⟩
    rw [tracked_append, DirEvent.track]
    dsimp only
    by_cases hdd : d = dd
    · rw [if_pos (by rw [hdd]), hdd]
      rw [dirTarget_congr ht.mountpoints] at htarget
      refine ⟨a, no, htarget, hat, rfl, ?_⟩
      have hd' := congrArg DirDescriptor.index (Function.update_self dd
        (⟨node, 0⟩ : DirDescriptor) h.io.dirDescriptors)
      exact hd'.trans (Nat.zero_min _).symm
    · rw [if_neg fun hc => hdd (Int.ofNat_inj.1 hc).symm]
      exact ((ht.tracks d hd).keep ht.table hd he).setDir_ne hdd _

theorem DirTracks.step_read {h : DirHistory σ δ} (ht : DirTracks machine images start h) {d : ℕ}
    (hd : d < maxDirDescriptors) (h0 : h.io.dirNode d ≠ 0) {r : Option (ℕ × VfsDirent)}
    {refused : Bool} {s' : IoState σ δ} (hrefused : refused = true ↔ CopyRefused machine h.io d)
    (hread : ∀ a no, DirAt images h.io d a no →
      DirReadAt machine h.io d ((images a).tree.entries no) r s') :
    DirTracks machine images start
      ⟨s', h.events ++ [⟨.read d, .entry (r.map Prod.snd), refused⟩]⟩ := by
  have htd := ht.tracks d hd
  obtain ⟨path, replies, hp⟩ := htd.of_open h0
  rw [hp] at htd
  obtain ⟨a, no, htarget, hat, hreplies, hidx⟩ := htd
  obtain ⟨o, he, ⟨href, rfl, rfl⟩ | ⟨href, hr, rfl⟩⟩ := hread a no hat
  · -- a refused read changes nothing that is tracked
    have hflag : refused = true := hrefused.2 href
    refine ⟨ht.table.extends he, ht.mountpoints, fun d' hd' => ?_⟩
    rw [tracked_append, DirEvent.track]
    dsimp only
    rw [if_neg fun hc => by rw [hflag] at hc; cases hc.2]
    exact (ht.tracks d' hd').keep ht.table hd' he
  have hflag : refused = false := by
    rw [Bool.eq_false_iff]
    exact fun hc => href (hrefused.1 hc)
  have hnext : r.map Prod.snd = ((images a).tree.entries no)[replies.length]? := by
    rw [hr, hidx]
    rcases Nat.le_total replies.length ((images a).tree.entries no).length with hle | hle
    · rw [Nat.min_eq_left hle]
    · rw [Nat.min_eq_right hle, List.getElem?_eq_none hle, List.getElem?_eq_none le_rfl]
  have hsome : r.isSome = decide (replies.length < ((images a).tree.entries no).length) := by
    have h1 : r.isSome = (r.map Prod.snd).isSome := by cases r <;> rfl
    rw [h1, hnext]
    by_cases hlt : replies.length < ((images a).tree.entries no).length
    · rw [List.getElem?_eq_getElem hlt, decide_eq_true hlt]
      rfl
    · rw [List.getElem?_eq_none (Nat.not_lt.1 hlt), decide_eq_false hlt]
      rfl
  -- what is tracked of this descriptor, and of the others
  have hself : Tracked d (h.events ++ [⟨.read d, .entry (r.map Prod.snd), refused⟩]) =
      some (path, replies ++ [r.map Prod.snd]) := by
    rw [tracked_append, hp, DirEvent.track]
    dsimp only
    rw [if_pos ⟨rfl, hflag⟩]
    rfl
  have hother : ∀ d', d' ≠ d → Tracked d' (h.events ++ [⟨.read d, .entry (r.map Prod.snd), refused⟩]) =
      Tracked d' h.events := by
    intro d' hne
    rw [tracked_append, DirEvent.track]
    dsimp only
    rw [if_neg fun hc => hne (Int.ofNat_inj.1 hc.1).symm]
  have hfirst : replies ++ [r.map Prod.snd] =
      firstReads ((images a).tree.entries no) (replies ++ [r.map Prod.snd]).length := by
    rw [List.length_append, List.length_singleton, firstReads_succ, ← hreplies, hnext]
  have hat' := hat.extends (ht.table.dirLive d hd h0) he
  by_cases hlt : replies.length < ((images a).tree.entries no).length
  · rw [hsome, decide_eq_true hlt, if_pos rfl]
    refine ⟨(ht.table.extends he).setIndex _, ht.mountpoints, fun d' hd' => ?_⟩
    dsimp only
    by_cases hdd : d' = d
    · rw [hdd, hself]
      refine ⟨a, no, htarget, ⟨hat'.1, ?_, ?_⟩, hfirst, ?_⟩
      · rw [dirNode_setDir_self]
        exact hat'.2.1
      · rw [dirNode_setDir_self]
        exact hat'.2.2
      · have hd' := congrArg DirDescriptor.index (Function.update_self d
          ({ h.io.dirDescriptors d with index := (h.io.dirDescriptors d).index + 1 } : DirDescriptor)
          h.io.dirDescriptors)
        refine hd'.trans ?_
        rw [List.length_append, List.length_singleton]
        dsimp only
        omega
    · rw [hother d' hdd]
      exact ((ht.tracks d' hd').keep ht.table hd' he).setDir_ne hdd _
  · rw [hsome, decide_eq_false hlt, if_neg (by decide)]
    refine ⟨ht.table.extends he, ht.mountpoints, fun d' hd' => ?_⟩
    dsimp only
    by_cases hdd : d' = d
    · rw [hdd, hself]
      refine ⟨a, no, htarget, hat', hfirst, ?_⟩
      show (h.io.dirDescriptors d).index = _
      rw [List.length_append, List.length_singleton]
      omega
    · rw [hother d' hdd]
      exact (ht.tracks d' hd').keep ht.table hd' he

theorem DirTracks.step_close {h : DirHistory σ δ} (ht : DirTracks machine images start h) {d : ℕ}
    (hd : d < maxDirDescriptors) (h0 : h.io.dirNode d ≠ 0) {refused : Bool} {heap : σ}
    (hheap : ∀ p, Live heap p ↔ Live h.io.objects.heap p ∧ p ≠ h.io.dirNode d) :
    DirTracks machine images start
      ⟨({ h.io with objects := { h.io.objects with heap := heap } } : IoState σ δ).setDir d
        ⟨0, (h.io.dirDescriptors d).index⟩, h.events ++ [⟨.close d, .closed 0, refused⟩]⟩ := by
  refine ⟨ht.table.close hd h0 hheap _, ht.mountpoints, fun d' hd' => ?_⟩
  rw [tracked_append, DirEvent.track]
  dsimp only
  by_cases hdd : d' = d
  · rw [if_pos ⟨by rw [hdd], rfl⟩, hdd]
    show IoState.dirNode _ d = 0
    rw [dirNode_setDir_self]
  · rw [if_neg fun hc => hdd (Int.ofNat_inj.1 hc.1).symm]
    refine TracksAt.setDir_ne hdd _ ?_
    have htd := ht.tracks d' hd'
    generalize Tracked d' h.events = t at htd
    cases t with
    | none => exact htd
    | some t => exact htd

/-- What other code does to the heap. -/
theorem DirTracks.step_other {h : DirHistory σ δ} (ht : DirTracks machine images start h) {heap : σ}
    (hheap : ∀ p, HeldNode h.io p → Live heap p) : DirTracks machine images start
      { h with io := { h.io with objects := { h.io.objects with heap := heap } } } where
  table :=
    { volume := ht.table.volume
      rootLive := fun i hi h0 => hheap _ (Or.inr ⟨i, hi, h0, rfl⟩)
      rootNode := ht.table.rootNode
      dirLive := fun dd hd h0 => hheap _ (Or.inl ⟨dd, hd, h0, rfl⟩)
      dirApart := ht.table.dirApart
      dirInj := ht.table.dirInj
      dirAt := ht.table.dirAt }
  mountpoints := ht.mountpoints
  tracks dd hd := by
    have htd := ht.tracks dd hd
    dsimp only
    generalize Tracked dd h.events = t at htd
    cases t with
    | none => exact htd
    | some t => exact htd

/-- A call that changes neither the state nor what is tracked. -/
theorem DirTracks.step_same {h : DirHistory σ δ} (ht : DirTracks machine images start h) {e : DirEvent}
    (he : ∀ d < maxDirDescriptors, e.track d (Tracked d h.events) = Tracked d h.events) :
    DirTracks machine images start ⟨h.io, h.events ++ [e]⟩ := by
  refine ⟨ht.table, ht.mountpoints, fun d hd => ?_⟩
  rw [tracked_append, he d hd]
  exact ht.tracks d hd

/-- **Every step keeps the invariant.** -/
theorem DirTracks.step {h h' : DirHistory σ δ} {label : Option DirCall}
    (ht : DirTracks machine images start h) (hs : (dirSystem machine start).step h label h') :
    DirTracks machine images start h' := by
  cases label with
  | none =>
    obtain ⟨heap, hheap, rfl⟩ := hs
    exact ht.step_other hheap
  | some call =>
    obtain ⟨hadm, reply, refused, s', hexec, href, rfl⟩ := hs
    cases call with
    | «open» path =>
      obtain ⟨r, hrun, rfl⟩ := exists_of_map_run hexec
      exact ht.step_open ((meets_dirOpen ht.table path hadm).of_run hrun)
    | read dd =>
      obtain ⟨r, hrun, rfl⟩ := exists_of_map_run hexec
      rcases open_cases h.io dd with hclosed | ⟨d, hd, rfl, h0⟩
      · rw [dirRead_closed hclosed] at hrun
        obtain ⟨rfl, rfl⟩ := Prod.mk.inj (Except.ok.inj hrun)
        refine ht.step_same fun d hd => ?_
        rw [DirEvent.track]
        dsimp only
        split
        · rename_i hc
          have htd := ht.tracks d hd
          cases htrack : Tracked d h.events with
          | none => rfl
          | some t =>
            rw [htrack] at htd
            obtain ⟨a, no, -, hat, -⟩ := htd
            exact absurd (hclosed d hd hc.1) hat.2.1
        · rfl
      · refine ht.step_read hd h0 ?_ fun a no hat => (meets_dirRead ht.table hd hat).of_run hrun
        rw [href, DirCall.Refused, Int.toNat_natCast]
        exact and_iff_right (Int.natCast_nonneg d)
    | close dd =>
      obtain ⟨r, hrun, rfl⟩ := exists_of_map_run hexec
      rcases open_cases h.io dd with hclosed | ⟨d, hd, rfl, h0⟩
      · rw [dirClose_closed hclosed] at hrun
        obtain ⟨rfl, rfl⟩ := Prod.mk.inj (Except.ok.inj hrun)
        refine ht.step_same fun d hd => ?_
        rw [DirEvent.track]
        dsimp only
        rw [if_neg fun hc => absurd hc.2 (by decide)]
      · have hclose : Meets OutOfMemory (dirClose (d : Int)) h.io _ := meets_dirClose hd h0
        obtain ⟨rfl, heap, hheap, rfl⟩ := hclose.of_run hrun
        exact ht.step_close hd h0 hheap

/-- The invariant holds in every run from a state without open descriptors. -/
theorem reachable_tracks (hs : OpenDirs machine images start)
    (hclosed : ∀ dd < maxDirDescriptors, start.dirNode dd = 0) {h : DirHistory σ δ}
    (hr : (dirSystem machine start).Reachable h) : DirTracks machine images start h := by
  refine hr.invariant ?_ fun h label h' _ ht hstep => ht.step hstep
  rintro _ rfl
  exact ⟨hs, rfl, hclosed⟩

/-! ## Independent descriptors -/

theorem firstReads_length (entries : List VfsDirent) (n : ℕ) : (firstReads entries n).length = n := by
  rw [firstReads, List.length_map, List.length_range]

/-- Fewer reads of the same directory return the same entries first. -/
theorem firstReads_take {entries : List VfsDirent} {m n : ℕ} (h : m ≤ n) :
    (firstReads entries n).take m = firstReads entries m := by
  rw [firstReads, ← List.map_take, List.take_range, Nat.min_eq_left h, firstReads]

/-- What the calls do to the descriptors of others.  They return, unless the heap is
    used up; a directory is opened in a descriptor that was not open; a descriptor that
    is not called keeps its node and its place, and an entry is lost only to a read that
    returns `NULL`. -/
structure DirCallsApart (machine : Machine σ δ) (s : IoState σ δ) : Prop where
  opened : ∀ path : CString, (∃ dd < maxDirDescriptors, s.dirNode dd = 0) →
    Meets OutOfMemory (dirOpen machine path.bytes) s fun r s' =>
      (∀ dd < maxDirDescriptors, s.dirNode dd ≠ 0 → s'.dirDescriptors dd = s.dirDescriptors dd) ∧
      (r = -1 ∨ ∃ dd < maxDirDescriptors, r = dd ∧ s.dirNode dd = 0 ∧ s'.dirNode dd ≠ 0)
  read : ∀ dd : Int, Meets OutOfMemory (dirRead machine dd) s fun r s' =>
    (∀ dd' < maxDirDescriptors, dd ≠ dd' → s'.dirDescriptors dd' = s.dirDescriptors dd') ∧
      ((DirCall.read dd).Refused machine s → r = none)
  closed : ∀ dd : Int, Meets OutOfMemory (dirClose dd) s fun _ s' =>
    ∀ dd' < maxDirDescriptors, dd ≠ dd' → s'.dirDescriptors dd' = s.dirDescriptors dd' ∧
      (s.dirNode dd' ≠ 0 → Live s'.objects.heap (s.dirNode dd') ∧
        s'.objects.nodes (s.dirNode dd') = s.objects.nodes (s.dirNode dd'))

theorem OpenDirs.callsApart {s : IoState σ δ} (h : OpenDirs machine images s) :
    DirCallsApart machine s where
  opened path hfree := by
    refine (meets_dirOpen h path hfree).mono ?_
    rintro r s' ⟨o, he, ⟨rfl, -, rfl⟩ | ⟨dd, hd, a, no, node, rfl, h0, -, rfl, hl, -⟩⟩
    · exact ⟨fun dd _ _ => rfl, Or.inl rfl⟩
    · refine ⟨fun dd' _ h0' => ?_, Or.inr ⟨dd, hd, rfl, h0, ?_⟩⟩
      · refine dirDescriptors_setDir_ne ?_ _
        rintro rfl
        exact h0' h0
      · rw [dirNode_setDir_self]
        exact ne_null hl
  read dd := by
    rcases open_cases s dd with hc | ⟨d, hd, rfl, h0⟩
    · exact Meets.of_ok (dirRead_closed hc) ⟨fun _ _ _ => rfl, fun _ => rfl⟩
    · obtain ⟨a, no, hat⟩ := h.dirAt d hd h0
      refine (meets_dirRead h hd hat).mono ?_
      rintro r s' ⟨o, -, ⟨-, rfl, rfl⟩ | ⟨hn, -, rfl⟩⟩
      · exact ⟨fun _ _ _ => rfl, fun _ => rfl⟩
      · refine ⟨fun dd' _ hne => ?_, ?_⟩
        · split
          · refine dirDescriptors_setDir_ne ?_ _
            rintro rfl
            exact hne rfl
          · rfl
        · rintro ⟨-, hr⟩
          exact absurd hr hn
  closed dd := by
    rcases open_cases s dd with hc | ⟨d, hd, rfl, h0⟩
    · refine Meets.of_ok (dirClose_closed hc) fun dd' hd' _ => ⟨rfl, fun h0' => ?_⟩
      exact ⟨h.dirLive dd' hd' h0', rfl⟩
    · refine (meets_dirClose hd h0).mono ?_
      rintro r s' ⟨-, heap, hheap, rfl⟩ dd' hd' hne
      have hne : dd' ≠ d := by
        rintro rfl
        exact hne rfl
      refine ⟨dirDescriptors_setDir_ne hne _, fun h0' => ⟨?_, rfl⟩⟩
      exact (hheap _).2 ⟨h.dirLive dd' hd' h0', h.dirInj dd' hd' d hd hne h0'⟩

/-- **Directory descriptors are independent.**  In every run, whatever is called in
    between, an open descriptor returns the entries of the directory that its path led
    to, so that two runs agree on them; and the second `kfree` of `dir_close` does
    nothing. -/
theorem dir_descriptors_independent (machine : Machine σ δ) (images : ℕ → VolumeImage)
    (start : IoState σ δ) (hs : OpenDirs machine images start)
    (hclosed : ∀ dd < maxDirDescriptors, start.dirNode dd = 0) :
    (∀ h, (dirSystem machine start).Reachable h →
      DirCallsApart machine h.io ∧ ∀ dd < maxDirDescriptors,
        (h.io.dirNode dd = 0 ↔ Tracked dd h.events = none) ∧
        ∀ path replies, Tracked dd h.events = some (path, replies) →
          ∃ a no, dirTarget images start path.bytes = some (a, no) ∧
            replies = firstReads ((images a).tree.entries no) replies.length) ∧
    (∀ h h', (dirSystem machine start).Reachable h → (dirSystem machine start).Reachable h' →
      ∀ dd < maxDirDescriptors, ∀ dd' < maxDirDescriptors, ∀ path replies replies',
        Tracked dd h.events = some (path, replies) → Tracked dd' h'.events = some (path, replies') →
        replies.length ≤ replies'.length → replies = replies'.take replies.length) ∧
    ∀ (k : KernelHeap) (p : ℕ), k.Live p → (k.free p).run.heap.kfree p = (k.free p).run.heap := by
  have hfirst : ∀ h, (dirSystem machine start).Reachable h → ∀ dd < maxDirDescriptors,
      ∀ path replies, Tracked dd h.events = some (path, replies) →
        ∃ a no, dirTarget images start path.bytes = some (a, no) ∧
          replies = firstReads ((images a).tree.entries no) replies.length := by
    intro h hr dd hd path replies ht
    have htrack := (reachable_tracks hs hclosed hr).tracks dd hd
    rw [ht] at htrack
    obtain ⟨a, no, htarget, -, hreplies, -⟩ := htrack
    exact ⟨a, no, htarget, hreplies⟩
  refine ⟨fun h hr => ⟨(reachable_tracks hs hclosed hr).table.callsApart, fun dd hd => ⟨?_, ?_⟩⟩,
    ?_, fun k p hp => k.kfree_free hp⟩
  · have htrack := (reachable_tracks hs hclosed hr).tracks dd hd
    cases ht : Tracked dd h.events with
    | none =>
      rw [ht] at htrack
      exact ⟨fun _ => rfl, fun _ => htrack⟩
    | some t =>
      rw [ht] at htrack
      obtain ⟨a, no, -, hat, -⟩ := htrack
      exact ⟨fun h0 => absurd h0 hat.2.1, fun h0 => by cases h0⟩
  · exact hfirst h hr dd hd
  · intro h h' hr hr' dd hd dd' hd' path replies replies' ht ht' hle
    obtain ⟨a, no, htarget, he⟩ := hfirst h hr dd hd path replies ht
    obtain ⟨a', no', htarget', he'⟩ := hfirst h' hr' dd' hd' path replies' ht'
    rw [htarget] at htarget'
    obtain ⟨rfl, rfl⟩ := Prod.mk.inj (Option.some.inj htarget')
    rw [he', firstReads_take hle]
    exact he

end

/-- The state with the small volume as drive A has no open descriptors. -/
theorem dirImageIo_openDirs : OpenDirs dirImageMachine dirImageImages dirImageIo where
  toMountTable := dirImageIo_table
  dirLive _ _ h := absurd rfl h
  dirApart _ _ h := absurd rfl h
  dirInj _ _ _ _ _ h := absurd rfl h
  dirAt _ _ h := absurd rfl h

theorem dir_descriptors_independent_small :
    (∀ h, (dirSystem dirImageMachine dirImageIo).Reachable h →
      DirCallsApart dirImageMachine h.io ∧ ∀ dd < maxDirDescriptors,
        (h.io.dirNode dd = 0 ↔ Tracked dd h.events = none) ∧
        ∀ path replies, Tracked dd h.events = some (path, replies) →
          ∃ a no, dirTarget dirImageImages dirImageIo path.bytes = some (a, no) ∧
            replies = firstReads ((dirImageImages a).tree.entries no) replies.length) ∧
    ∀ h h', (dirSystem dirImageMachine dirImageIo).Reachable h →
      (dirSystem dirImageMachine dirImageIo).Reachable h' →
      ∀ dd < maxDirDescriptors, ∀ dd' < maxDirDescriptors, ∀ path replies replies',
        Tracked dd h.events = some (path, replies) → Tracked dd' h'.events = some (path, replies') →
        replies.length ≤ replies'.length → replies = replies'.take replies.length :=
  have h := dir_descriptors_independent dirImageMachine dirImageImages dirImageIo dirImageIo_openDirs
    fun _ _ => rfl
  ⟨h.1, h.2.1⟩

end Ttos
