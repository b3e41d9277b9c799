/-
  Listing and looking up names in ext2 directories agree.

  * `ext2_listing_agrees`: `ext2_readdir`, `ext2_finddir` and the reads of a directory
    descriptor all see the live entries in the order of their blocks.
-/
import Ttos.Io.DirRun

namespace Ttos

open Ext2Format

variable {σ δ : Type} [Allocator σ]

/-- Listing and lookup in one directory, whose live entries are `entries`. -/
structure ListsEntries (env : FsEnv σ δ) (bytes : Mem) (node : VfsNode Ext2Inode)
    (entries : List DirEntry) : Prop where
  readdir : ∀ index, Returns OutOfMemory (σ := σ) (ext2Readdir env (ext2Data bytes) node index)
    fun r => r.map Prod.snd = entries[index]?.map DirEntry.dirent
  finddir : ∀ name, Returns OutOfMemory (σ := σ) (ext2Finddir env (ext2Data bytes) node name) fun r =>
    (r.isSome ↔ ∃ e ∈ entries, e.name = name) ∧ ∀ ptr child, r = some (ptr, child) →
      ptr ≠ 0 ∧ ∃ e, entries.find? (·.name = name) = some e ∧ child.inode = e.inode

theorem listsEntries {env : FsEnv σ δ} {bytes : Mem} (hw : Layout bytes env.volume.size)
    (hx : env.ReadsSectors bytes) {node : VfsNode Ext2Inode} (hi : IsInode bytes node.inode)
    (hp : PointersInVolume bytes (inode bytes node.inode)) {blocks : List (List DirEntry)}
    (hd : Directory bytes (inode bytes node.inode) blocks) :
    ListsEntries env bytes node (liveEntries blocks) where
  readdir index := (returns_readdir hw hx hi hp hd rfl index).mono fun _ hr => hr.1
  finddir name := by
    refine (returns_finddir hw hx hi hp hd rfl name).mono fun r hr => ?_
    cases hf : (liveEntries blocks).find? (·.name = name) with
    | none =>
      rw [hf] at hr
      obtain rfl : r = none := hr
      have hnone := List.find?_eq_none.1 hf
      refine ⟨⟨fun h => (by cases h), ?_⟩, fun ptr child h => (by cases h)⟩
      rintro ⟨e, he, hname⟩
      exact absurd (decide_eq_true hname) (hnone e he)
    | some e =>
      rw [hf] at hr
      obtain ⟨ptr, child, rfl, hptr, hc⟩ := hr
      have hname : decide (e.name = name) = true :=
        List.find?_some (p := fun e : DirEntry => decide (e.name = name)) hf
      refine ⟨⟨fun _ => ⟨e, List.mem_of_find?_eq_some hf, of_decide_eq_true hname⟩, fun _ => rfl⟩, ?_⟩
      rintro ptr' child' h
      obtain ⟨rfl, rfl⟩ := Prod.mk.inj (Option.some.inj h)
      exact ⟨hptr, e, rfl, hc.inode⟩

/-- **Listing and lookup agree**, for every well-formed directory; and a descriptor opened
    on one returns its live entries in order, each once, and then `NULL`. -/
theorem ext2_listing_agrees :
    (∀ (env : FsEnv σ δ) (bytes : Mem), Layout bytes env.volume.size → env.ReadsSectors bytes →
      ∀ node : VfsNode Ext2Inode, IsInode bytes node.inode →
        PointersInVolume bytes (inode bytes node.inode) →
        ∀ blocks, Directory bytes (inode bytes node.inode) blocks →
          ListsEntries env bytes node (liveEntries blocks)) ∧
    ∀ (machine : Machine σ δ) (images : ℕ → VolumeImage) (start : IoState σ δ),
      OpenDirs machine images start → (∀ dd < maxDirDescriptors, start.dirNode dd = 0) →
      ∀ h, (dirSystem machine start).Reachable h →
        ∀ (path : CString) (a no : ℕ) (bytes : Mem) (blocks : ℕ → List (List DirEntry)),
          dirTarget images start path.bytes = some (a, no) → images a = .ext2 bytes blocks →
          ((∃ dd < maxDirDescriptors, h.io.dirNode dd = 0) →
            Meets OutOfMemory (dirOpen machine path.bytes) h.io fun r s' =>
              ∃ dd < maxDirDescriptors, r = dd ∧ h.io.dirNode dd = 0 ∧ s'.dirNode dd ≠ 0) ∧
          ∀ dd < maxDirDescriptors, ∀ replies, Tracked dd h.events = some (path, replies) →
            replies = (List.range replies.length).map fun k =>
              (liveEntries (blocks no))[k]?.map DirEntry.dirent := by
  refine ⟨fun env bytes hw hx node hi hp blocks hd => listsEntries hw hx hi hp hd, ?_⟩
  intro machine images start hs hclosed h hr path a no bytes blocks htarget himage
  have htracks := reachable_tracks hs hclosed hr
  refine ⟨fun hfree => (meets_dirOpen htracks.table path hfree).mono ?_, fun dd hd replies ht => ?_⟩
  · have htarget' := (dirTarget_congr htracks.mountpoints path.bytes).trans htarget
    rintro r s' ⟨o, -, ⟨-, hnone, -⟩ | ⟨dd, hd, a', no', node, rfl, h0, -, rfl, hl, -⟩⟩
    · rw [htarget'] at hnone
      cases hnone
    · refine ⟨dd, hd, rfl, h0, ?_⟩
      rw [dirNode_setDir_self]
      exact Allocator.ne_null hl
  · have htrack := htracks.tracks dd hd
    rw [ht] at htrack
    obtain ⟨a', no', htarget', -, hreplies, -⟩ := htrack
    rw [htarget] at htarget'
    obtain ⟨rfl, rfl⟩ := Prod.mk.inj (Option.some.inj htarget')
    rw [himage] at hreplies
    refine hreplies.trans ?_
    rw [firstReads]
    refine List.map_congr_left fun k _ => ?_
    exact List.getElem?_map ..

/-- The root of the small volume: the deleted entry and the hole are left out, and the
    name that is there twice is found in its first entry. -/
theorem ext2_listing_agrees_small :
    ListsEntries (imageEnv KernelHeap dirImage 8192) dirImage dirImageNode
      [⟨3, 1012, [0x68, 0x69]⟩, ⟨4, 16, [0x68, 0x69]⟩] ∧
    ∀ h, (dirSystem dirImageMachine dirImageIo).Reachable h →
      ∀ dd < maxDirDescriptors, ∀ replies,
        Tracked dd h.events = some (⟨[0x41, 0x3A, 0x2F], by decide, by decide⟩, replies) →
        replies = (List.range replies.length).map fun k =>
          [(⟨[0x68, 0x69], 3⟩ : VfsDirent), ⟨[0x68, 0x69], 4⟩][k]? := by
  have hinode : dirImageNode.inode = 2 := rfl
  refine ⟨ext2_listing_agrees.1 (imageEnv KernelHeap dirImage 8192) dirImage dirImage_root.layout
    (imageEnv_exact (by decide)).readsSectors dirImageNode (dirImage_root.isInode.2 (by decide))
    (dirImage_root.pointers (by decide)) dirImageRoot dirImage_root.directory, fun h hr dd hd replies ht => ?_⟩
  have htarget : dirTarget dirImageImages dirImageIo [0x41, 0x3A, 0x2F] = some (1, 2) := by rfl
  have hall := (ext2_listing_agrees.2 dirImageMachine dirImageImages dirImageIo dirImageIo_openDirs
    (fun _ _ => rfl) h hr ⟨[0x41, 0x3A, 0x2F], by decide, by decide⟩ 1 2 dirImage
    (fun _ => dirImageRoot) htarget rfl).2 dd hd replies ht
  refine hall.trans (List.map_congr_left fun k _ => ?_)
  exact (List.getElem?_map ..).symm

end Ttos
