/-
  Mounted volumes: what an absolute path leads to.

  * `MountTable`: every mounted volume is well-formed, and its root node is live.
  * `pathTarget`: the file system and the file of an absolute path.
  * `meets_onObjects`: computations on the objects leave the tables as they are.
-/
import Ttos.Fs.Mount
import Ttos.Fs.PathSpec
import Ttos.Memory.KernelHeap

namespace Ttos

open Allocator

variable {σ δ α : Type} [Allocator σ] {machine : Machine σ δ} {images : ℕ → VolumeImage}

/-- The root node of a mounted file system. -/
def IoState.root (s : IoState σ δ) (i : ℕ) : ℕ := (s.objects.filesystems (s.mountpoints i)).root

/-- Every mounted file system is on a well-formed volume and has its root node;
    `images a` is what the volume of the file system at `a` holds. -/
structure MountTable (machine : Machine σ δ) (images : ℕ → VolumeImage) (s : IoState σ δ) : Prop where
  volume : ∀ i < fsVolumeMaxMountpoints, s.mountpoints i ≠ 0 →
    (images (s.mountpoints i)).WellFormed machine (s.objects.filesystems (s.mountpoints i))
  rootLive : ∀ i < fsVolumeMaxMountpoints, s.mountpoints i ≠ 0 → Live s.objects.heap (s.root i)
  rootNode : ∀ i < fsVolumeMaxMountpoints, s.mountpoints i ≠ 0 →
    (images (s.mountpoints i)).IsNode (s.mountpoints i) (s.objects.nodes (s.root i))
      (images (s.mountpoints i)).tree.rootId

theorem MountTable.extends {s : IoState σ δ} {o : Objects σ δ} (h : MountTable machine images s)
    (he : s.objects.Extends o) : MountTable machine images { s with objects := o } where
  volume i hi h0 := by
    show (images (s.mountpoints i)).WellFormed machine (o.filesystems (s.mountpoints i))
    rw [he.filesystems]
    exact h.volume i hi h0
  rootLive i hi h0 := by
    show Live o.heap (o.filesystems (s.mountpoints i)).root
    rw [he.filesystems]
    exact he.live _ (h.rootLive i hi h0)
  rootNode i hi h0 := by
    show (images (s.mountpoints i)).IsNode _ (o.nodes (o.filesystems (s.mountpoints i)).root) _
    have hr := he.nodes _ (h.rootLive i hi h0)
    rw [IoState.root] at hr
    rw [he.filesystems, hr]
    exact h.rootNode i hi h0

omit [Allocator σ] in
theorem mntGetDriveIndex_lt {drive : UInt8} {i : ℕ} (h : mntGetDriveIndex drive = some i) :
    i < fsVolumeMaxMountpoints := by
  unfold mntGetDriveIndex at h
  split at h
  · rename_i hd
    obtain rfl := Option.some.inj h
    rw [UInt8.le_iff_toNat_le, UInt8.le_iff_toNat_le] at hd
    rw [UInt8.toNat_sub_of_le _ _ (UInt8.le_iff_toNat_le.2 hd.1)]
    exact (Nat.sub_le_iff_le_add.2 hd.2).trans_lt (by decide)
  split at h
  · rename_i hd
    obtain rfl := Option.some.inj h
    rw [UInt8.le_iff_toNat_le, UInt8.le_iff_toNat_le] at hd
    rw [UInt8.toNat_sub_of_le _ _ (UInt8.le_iff_toNat_le.2 hd.1)]
    exact (Nat.sub_le_iff_le_add.2 hd.2).trans_lt (by decide)
  · cases h

omit [Allocator σ] in
/-- A drive with a file system has its entry in the table. -/
theorem drive_eq {s : IoState σ δ} {drive : UInt8} (h : s.drive drive ≠ 0) :
    ∃ i < fsVolumeMaxMountpoints, s.drive drive = s.mountpoints i := by
  unfold IoState.drive at h ⊢
  cases hd : mntGetDriveIndex drive with
  | none =>
    rw [hd] at h
    exact absurd rfl h
  | some i => exact ⟨i, mntGetDriveIndex_lt hd, rfl⟩

/-- The file system and the file that an absolute path leads to. -/
def pathTarget (images : ℕ → VolumeImage) (s : IoState σ δ) (path : List UInt8) :
    Option (ℕ × FileId) :=
  if vfsIsAbsPath path = true ∧ s.drive (path.headD 0) ≠ 0 then
    ((images (s.drive (path.headD 0))).tree.lookup (path.drop 3)).map (s.drive (path.headD 0), ·)
  else none

omit [Allocator σ] in
theorem length_of_isAbsPath {path : List UInt8} (h : vfsIsAbsPath path = true) : 3 ≤ path.length := by
  match path, h with
  | _ :: _ :: _ :: rest, _ => simp

/-! ## Computations on the objects -/

omit [Allocator σ] in
theorem meets_onObjects {x : ObjectsM σ δ α} {s : IoState σ δ} {allowed : FsStop → Prop}
    {Q : α → Objects σ δ → Prop} (h : Meets allowed x s.objects Q) :
    Meets allowed (onObjects x) s fun r s' => ∃ o, s' = { s with objects := o } ∧ Q r o := by
  rcases h.cases with ⟨e, hx, he⟩ | ⟨r, o, hx, hq⟩
  · exact Meets.of_error (by rw [onObjects, hx]; rfl) he
  · have hrun : onObjects x s = .ok (r, { s with objects := o }) := by rw [onObjects, hx]; rfl
    exact Meets.of_ok hrun ⟨o, rfl, hq⟩

omit [Allocator σ] in
theorem meets_mntGetMountpoint {s : IoState σ δ} {path : List UInt8} {allowed : FsStop → Prop}
    (h : vfsIsAbsPath path = true) :
    Meets allowed (mntGetMountpoint path) s fun r s' => r = s.drive (path.headD 0) ∧ s' = s := by
  refine Meets.of_ok rfl ⟨?_, rfl⟩
  exact if_neg (Nat.not_lt.2 (length_of_isAbsPath h))

/-! ## A mounted volume -/

/-- The root node of the small volume, mounted at the address 1. -/
def dirImageNode : VfsNode Ext2Inode where
  name := [0x2F]
  permissions := 0
  type := .directory
  uid := 0
  gid := 0
  length := (Ext2Format.inode dirImage 2).iSize
  inode := 2
  inodeData := .null
  filesystem := 1

/-- The heap with the root node in it. -/
def dirImageHeap : ℕ × KernelHeap := Allocator.alloc placementHeap vfsNodeSize false

def dirImageMachine : Machine KernelHeap Unit :=
  ⟨(), fun _ _ _ => 0xAA, fun _ => 0xAA⟩

/-- The state with a volume that has its root directory as drive A. -/
def rootImageIo (bytes : Mem) : IoState KernelHeap Unit where
  objects :=
    { heap := dirImageHeap.2
      nodes := fun _ => .ext2 dirImageNode
      filesystems := fun _ =>
        { root := dirImageHeap.1
          volume := (imageEnv KernelHeap bytes 8192).volume
          fsData := .ext2 0 (ext2Data bytes)
          operations := 0 }
      files := fun _ => ⟨0, 0, 0, 0⟩ }
  mountpoints i := if i = 0 then 1 else 0
  dirDescriptors _ := ⟨0, 0⟩

/-- The state with the small volume as drive A. -/
def dirImageIo : IoState KernelHeap Unit := rootImageIo dirImage

def dirImageImages (_ : ℕ) : VolumeImage := .ext2 dirImage fun _ => dirImageRoot

theorem dirImageHeap_live : Live dirImageHeap.2 dirImageHeap.1 :=
  alloc_new (by decide) (show (Allocator.alloc placementHeap vfsNodeSize false).1 ≠ 0 by decide +kernel)

theorem rootImage_table {bytes : Mem} (h : RootImage bytes) :
    MountTable dirImageMachine (fun _ => .ext2 bytes fun _ => dirImageRoot) (rootImageIo bytes) where
  volume i _ _ := ⟨h.volume, (imageEnv_exact (by decide)).readsSectors, 0, rfl⟩
  rootLive _ _ _ := dirImageHeap_live
  rootNode i _ h0 := by
    have hi : i = 0 := by
      by_contra h
      exact h0 (if_neg h)
    subst hi
    exact ⟨⟨⟨rfl, h.types.1.symm, rfl⟩, dirImage_root.rootSize.trans h.rootSize.symm, rfl⟩,
      h.types.1.symm, .root⟩

theorem dirImageIo_table : MountTable dirImageMachine dirImageImages dirImageIo :=
  rootImage_table dirImage_root

end Ttos
