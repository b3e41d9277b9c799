/-
  Drives over whole runs: after any mounts and unmounts every drive holds the volume that was
  mounted there last, and its paths lead to the files of that volume.

  * `Drives`: which volumes are mounted, by their ids; what the system calls mean for that.
  * `DrivesAre`: the mount table is that, and every file system has its own blocks.
  * `drives_right`: it is so in every run.
-/
import Ttos.Fs.Drives
import Ttos.Lib.Outcome
import Ttos.Lib.Run

namespace Ttos

open Allocator Ext2Format InitfsFormat

variable {σ δ : Type}

/-! ## What the calls mean -/

/-- The ids of the volumes that are mounted, by the index of their drives. -/
abbrev Drives := ℕ → Option (List UInt8)

/-- What is on the volumes, by their ids: `none` where there is no such volume, `some none` where
    there is no file system on it. -/
abbrev Contents := List UInt8 → Option (Option VolumeImage)

namespace Drives

variable (d : Drives)

def volumeAt (drive : UInt8) : Option (List UInt8) := (mntGetDriveIndex drive).bind d

/-- A volume with a file system is mounted at a free drive. -/
def mount (contents : Contents) (drive : UInt8) (id : Option (List UInt8)) : Int × Drives :=
  match id with
  | none => (-1, d)
  | some id =>
    match contents id with
    | none => (-1, d)
    | some content =>
      if d.volumeAt drive ≠ none then (-2, d)
      else
        match mntGetDriveIndex drive, content with
        | some i, some _ => (0, Function.update d i (some id))
        | _, _ => (-3, d)

def unmount (drive : UInt8) : Int × Drives :=
  match mntGetDriveIndex drive with
  | none => (-1, d)
  | some i => if d i = none then (-1, d) else (0, Function.update d i none)

/-- The letters of the drives in use. -/
def letters : List UInt8 := driveLetters.filter (d.volumeAt · ≠ none)

end Drives

/-- The bytes on a volume, as a driver reads them, with a well-formed file system; no ext2 volume
    begins like a ramdisk. -/
def VolumeHolds (machine : Machine σ δ) (volume : Volume δ) : Option VolumeImage → Prop
  | none => initfsProbe (machine.volumeEnv volume) = false ∧
      ext2Probe (machine.volumeEnv volume) = false
  | some (.initfs bytes names) => InitfsVolume bytes names volume.size ∧
      (machine.volumeEnv volume).Exact bytes
  | some (.ext2 bytes blocks) => Ext2Volume bytes blocks volume.size ∧
      (machine.volumeEnv volume).ReadsSectors bytes ∧ initfsProbe (machine.volumeEnv volume) = false

/-- The volumes have these contents. -/
def VolumesHold (machine : Machine σ δ) (volumes : List (VolumeEntry δ)) (contents : Contents) :
    Prop :=
  ∀ id, (contents id = none ∧ volumeFindById volumes id = none) ∨
    ∃ content entry, contents id = some content ∧ volumeFindById volumes id = some entry ∧
      VolumeHolds machine entry.volume content

/-! ## The mount table -/

section

variable [Allocator σ] {machine : Machine σ δ} {contents : Contents} {images : ℕ → VolumeImage}
  {d : Drives} {s : IoState σ δ} {i : ℕ}

/-- The blocks of the file system mounted at index `i`. -/
def IoState.owned (s : IoState σ δ) (i : ℕ) : List ℕ :=
  ownedBy (s.mountpoints i) (s.objects.filesystems (s.mountpoints i))

/-- The mount table holds the volumes `d`, and every file system has blocks of its own. -/
structure DrivesAre (machine : Machine σ δ) (contents : Contents) (images : ℕ → VolumeImage)
    (d : Drives) (s : IoState σ δ) : Prop where
  table : MountTable machine images s
  free_iff : ∀ i < fsVolumeMaxMountpoints, d i = none ↔ s.mountpoints i = 0
  image : ∀ i < fsVolumeMaxMountpoints, ∀ id, d i = some id →
    contents id = some (some (images (s.mountpoints i)))
  live : ∀ i < fsVolumeMaxMountpoints, s.mountpoints i ≠ 0 → ∀ p ∈ s.owned i, Live s.objects.heap p
  apart : ∀ i < fsVolumeMaxMountpoints, ∀ j < fsVolumeMaxMountpoints, i ≠ j →
    s.mountpoints i ≠ 0 → s.mountpoints j ≠ 0 → ∀ p ∈ s.owned i, p ∉ s.owned j

/-- The state with the file system `filesystem` at `a`, its root node `node`, mounted at index
    `i`. -/
def IoState.withDrive (s : IoState σ δ) (heap : σ) (i a : ℕ) (filesystem : VfsFilesystem δ)
    (node : AnyNode) : IoState σ δ where
  objects := ({ s.objects with heap := heap }.setNode filesystem.root node).setFilesystem a filesystem
  mountpoints := Function.update s.mountpoints i a
  dirDescriptors := s.dirDescriptors

/-- The state with the drive `i` free again. -/
def IoState.withoutDrive (s : IoState σ δ) (i : ℕ) : IoState σ δ where
  objects := { s.objects with heap := freeAll s.objects.heap (s.owned i) }
  mountpoints := Function.update s.mountpoints i 0
  dirDescriptors := s.dirDescriptors

section add

variable {heap : σ} {a : ℕ} {filesystem : VfsFilesystem δ} {node : AnyNode} {image : VolumeImage}
  {id : List UInt8}

variable (node) in
/-- The other drives keep their blocks. -/
theorem DrivesAre.owned_withDrive (h : DrivesAre machine contents images d s)
    (hnew : ∀ p ∈ ownedBy a filesystem, NewBlock s.objects.heap heap p) {j : ℕ}
    (hj : j < fsVolumeMaxMountpoints) (hne : j ≠ i) (h0 : s.mountpoints j ≠ 0) :
    (s.withDrive heap i a filesystem node).mountpoints j = s.mountpoints j ∧ s.mountpoints j ≠ a ∧
      (s.withDrive heap i a filesystem node).objects.filesystems (s.mountpoints j) =
        s.objects.filesystems (s.mountpoints j) ∧
      (s.withDrive heap i a filesystem node).owned j = s.owned j := by
  have hlive := h.live j hj h0 _ (mem_ownedBy _ _).1
  have ha : s.mountpoints j ≠ a := by
    rintro hja
    exact (hnew a (mem_ownedBy a filesystem).1).2 (hja ▸ hlive)
  have hm : (s.withDrive heap i a filesystem node).mountpoints j = s.mountpoints j :=
    Function.update_of_ne hne ..
  have hfs : (s.withDrive heap i a filesystem node).objects.filesystems (s.mountpoints j) =
      s.objects.filesystems (s.mountpoints j) := Function.update_of_ne ha ..
  refine ⟨hm, ha, hfs, ?_⟩
  rw [IoState.owned, hm, hfs, IoState.owned]

variable (node) in
/-- The other drives that are in use then were in use before, and are as they were. -/
theorem DrivesAre.kept_withDrive (h : DrivesAre machine contents images d s)
    (hnew : ∀ p ∈ ownedBy a filesystem, NewBlock s.objects.heap heap p) {j : ℕ}
    (hj : j < fsVolumeMaxMountpoints) (hne : j ≠ i)
    (h0 : (s.withDrive heap i a filesystem node).mountpoints j ≠ 0) :
    s.mountpoints j ≠ 0 ∧ (s.withDrive heap i a filesystem node).mountpoints j = s.mountpoints j ∧
      s.mountpoints j ≠ a ∧
      (s.withDrive heap i a filesystem node).objects.filesystems (s.mountpoints j) =
        s.objects.filesystems (s.mountpoints j) ∧
      (s.withDrive heap i a filesystem node).owned j = s.owned j := by
  have h0' : s.mountpoints j ≠ 0 := by
    rwa [show (s.withDrive heap i a filesystem node).mountpoints j = s.mountpoints j from
      Function.update_of_ne hne ..] at h0
  exact ⟨h0', h.owned_withDrive node hnew hj hne h0'⟩

/-- Every drive has its volume and its root, the new one and the others. -/
theorem DrivesAre.table_withDrive (h : DrivesAre machine contents images d s)
    (hkeep : ∀ p, Live s.objects.heap p → Live heap p)
    (hnew : ∀ p ∈ ownedBy a filesystem, NewBlock s.objects.heap heap p)
    (hw : image.WellFormed machine filesystem) (hn : image.IsNode a node image.tree.rootId) :
    MountTable machine (Function.update images a image) (s.withDrive heap i a filesystem node) := by
  have hm : (s.withDrive heap i a filesystem node).mountpoints i = a := Function.update_self ..
  have hfs : (s.withDrive heap i a filesystem node).objects.filesystems a = filesystem :=
    Function.update_self ..
  have himage : Function.update images a image a = image := Function.update_self ..
  have hroot := hnew _ (mem_ownedBy a filesystem).2
  refine ⟨fun j hj h0 => ?_, fun j hj h0 => ?_, fun j hj h0 => ?_⟩
  · by_cases hji : j = i
    · subst hji
      rw [hm, hfs, himage]
      exact hw
    · obtain ⟨h0', hmj, hja, hfsj, -⟩ := h.kept_withDrive node hnew hj hji h0
      rw [hmj, hfsj, Function.update_of_ne hja]
      exact h.table.volume j hj h0'
  · by_cases hji : j = i
    · subst hji
      rw [IoState.root, hm, hfs]
      exact hroot.1
    · obtain ⟨h0', hmj, -, hfsj, -⟩ := h.kept_withDrive node hnew hj hji h0
      rw [IoState.root, hmj, hfsj]
      exact hkeep _ (h.table.rootLive j hj h0')
  · by_cases hji : j = i
    · subst hji
      have hnode : (s.withDrive heap j a filesystem node).objects.nodes filesystem.root = node :=
        Function.update_self ..
      rw [IoState.root, hm, hfs, himage, hnode]
      exact hn
    · obtain ⟨h0', hmj, hja, hfsj, -⟩ := h.kept_withDrive node hnew hj hji h0
      have hrootne : s.root j ≠ filesystem.root := by
        intro hr
        exact hroot.2 (hr ▸ h.table.rootLive j hj h0')
      have hnode : (s.withDrive heap i a filesystem node).objects.nodes (s.root j) =
          s.objects.nodes (s.root j) := Function.update_of_ne hrootne ..
      rw [IoState.root, hmj, hfsj, Function.update_of_ne hja]
      rw [IoState.root] at hnode
      rw [hnode]
      exact h.table.rootNode j hj h0'

/-- **A new drive.** -/
theorem DrivesAre.add (h : DrivesAre machine contents images d s)
    (hid : contents id = some (some image))
    (hkeep : ∀ p, Live s.objects.heap p → Live heap p)
    (hnew : ∀ p ∈ ownedBy a filesystem, NewBlock s.objects.heap heap p)
    (hw : image.WellFormed machine filesystem) (hn : image.IsNode a node image.tree.rootId) :
    DrivesAre machine contents (Function.update images a image) (Function.update d i (some id))
      (s.withDrive heap i a filesystem node) := by
  have hm : (s.withDrive heap i a filesystem node).mountpoints i = a := Function.update_self ..
  have hfs : (s.withDrive heap i a filesystem node).objects.filesystems a = filesystem :=
    Function.update_self ..
  have himage : Function.update images a image a = image := Function.update_self ..
  have howned : (s.withDrive heap i a filesystem node).owned i = ownedBy a filesystem := by
    rw [IoState.owned, hm, hfs]
  have ha0 : a ≠ 0 := ne_null (hnew a (mem_ownedBy a filesystem).1).1
  refine ⟨h.table_withDrive hkeep hnew hw hn, fun j hj => ?_, fun j hj id' hid' => ?_,
    fun j hj h0 p hp => ?_, fun j hj k hk hne h0 h0' p hp hp' => ?_⟩
  · by_cases hji : j = i
    · subst hji
      rw [Function.update_self, hm]
      exact iff_of_false (Option.some_ne_none _) ha0
    · rw [Function.update_of_ne hji, h.free_iff j hj]
      show _ ↔ Function.update s.mountpoints i a j = 0
      rw [Function.update_of_ne hji]
  · by_cases hji : j = i
    · subst hji
      rw [Function.update_self, Option.some.injEq] at hid'
      rw [hm, himage, ← hid']
      exact hid
    · rw [Function.update_of_ne hji] at hid'
      have h0 : s.mountpoints j ≠ 0 := fun hc => by
        rw [(h.free_iff j hj).2 hc] at hid'
        cases hid'
      obtain ⟨hmj, hja, -, -⟩ := h.owned_withDrive node hnew hj hji h0
      rw [hmj, Function.update_of_ne hja]
      exact h.image j hj id' hid'
  · by_cases hji : j = i
    · subst hji
      rw [howned] at hp
      exact (hnew p hp).1
    · obtain ⟨h0', -, -, -, ho⟩ := h.kept_withDrive node hnew hj hji h0
      rw [ho] at hp
      exact hkeep p (h.live j hj h0' p hp)
  · -- the blocks of the new drive are none of the others
    by_cases hji : j = i
    · subst hji
      obtain ⟨hk0, -, -, -, ho⟩ := h.kept_withDrive node hnew hk (Ne.symm hne) h0'
      rw [howned] at hp
      rw [ho] at hp'
      exact (hnew p hp).2 (h.live k hk hk0 p hp')
    · obtain ⟨hj0, -, -, -, ho⟩ := h.kept_withDrive node hnew hj hji h0
      rw [ho] at hp
      by_cases hki : k = i
      · subst hki
        rw [howned] at hp'
        exact (hnew p hp').2 (h.live j hj hj0 p hp)
      · obtain ⟨hk0, -, -, -, ho'⟩ := h.kept_withDrive node hnew hk hki h0'
        rw [ho'] at hp'
        exact h.apart j hj k hk hne hj0 hk0 p hp hp'

end add

/-- **A drive is free again.** -/
theorem DrivesAre.remove (h : DrivesAre machine contents images d s) (hi : i < fsVolumeMaxMountpoints)
    (h0 : s.mountpoints i ≠ 0) :
    DrivesAre machine contents images (Function.update d i none) (s.withoutDrive i) := by
  have hsame {j : ℕ} (h0 : (s.withoutDrive i).mountpoints j ≠ 0) :
      j ≠ i ∧ s.mountpoints j ≠ 0 ∧ (s.withoutDrive i).mountpoints j = s.mountpoints j := by
    have hne : j ≠ i := by
      rintro rfl
      exact h0 (Function.update_self ..)
    have hm : (s.withoutDrive i).mountpoints j = s.mountpoints j := Function.update_of_ne hne ..
    exact ⟨hne, hm ▸ h0, hm⟩
  have hkeep {j : ℕ} (hj : j < fsVolumeMaxMountpoints) (hne : j ≠ i) (hj0 : s.mountpoints j ≠ 0)
      {p : ℕ} (hp : p ∈ s.owned j) : Live (s.withoutDrive i).objects.heap p :=
    (freeAll_live _ _ p).2 ⟨h.live j hj hj0 p hp, h.apart j hj i hi hne hj0 h0 p hp⟩
  refine ⟨⟨fun j hj hj0 => ?_, fun j hj hj0 => ?_, fun j hj hj0 => ?_⟩, fun j hj => ?_,
    fun j hj id hid => ?_, fun j hj hj0 p hp => ?_, fun j hj k hk hne hj0 hk0 p hp hp' => ?_⟩
  · obtain ⟨-, hj0', hm⟩ := hsame hj0
    rw [hm]
    exact h.table.volume j hj hj0'
  · obtain ⟨hne, hj0', hm⟩ := hsame hj0
    rw [IoState.root, hm]
    exact hkeep hj hne hj0' (mem_ownedBy _ _).2
  · obtain ⟨-, hj0', hm⟩ := hsame hj0
    rw [IoState.root, hm]
    exact h.table.rootNode j hj hj0'
  · by_cases hji : j = i
    · subst hji
      exact iff_of_true (Function.update_self ..) (Function.update_self ..)
    · show _ ↔ Function.update s.mountpoints i 0 j = 0
      rw [Function.update_of_ne hji, Function.update_of_ne hji]
      exact h.free_iff j hj
  · have hji : j ≠ i := by
      rintro rfl
      rw [Function.update_self] at hid
      cases hid
    have hm : (s.withoutDrive i).mountpoints j = s.mountpoints j := Function.update_of_ne hji ..
    rw [Function.update_of_ne hji] at hid
    rw [hm]
    exact h.image j hj id hid
  · obtain ⟨hne, hj0', hm⟩ := hsame hj0
    rw [IoState.owned, hm] at hp
    exact hkeep hj hne hj0' hp
  · obtain ⟨-, hj0', hm⟩ := hsame hj0
    obtain ⟨-, hk0', hm'⟩ := hsame hk0
    rw [IoState.owned, hm] at hp
    rw [IoState.owned, hm'] at hp'
    exact h.apart j hj k hk hne hj0' hk0' p hp hp'

/-! ## The calls -/

section calls

variable {volume : Volume δ} {index : ℕ} {volumes : List (VolumeEntry δ)}

/-- The image is mounted at a new file system. -/
def MountsImage (machine : Machine σ δ) (s : IoState σ δ) (index : ℕ) (image : VolumeImage) (r : Int)
    (s' : IoState σ δ) : Prop :=
  r = 0 ∧ ∃ heap a filesystem node, s' = s.withDrive heap index a filesystem node ∧
    (∀ p, Live s.objects.heap p → Live heap p) ∧
    (∀ p ∈ ownedBy a filesystem, NewBlock s.objects.heap heap p) ∧
    image.WellFormed machine filesystem ∧ image.IsNode a node image.tree.rootId

theorem NewBlock.mono {heap heap' heap'' : σ} {p : ℕ} (h : NewBlock heap heap' p)
    (hkeep : ∀ p, Live heap' p → Live heap'' p) : NewBlock heap heap'' p :=
  ⟨hkeep p h.1, h.2⟩

theorem NewBlock.later {heap heap' heap'' : σ} {p : ℕ} (h : NewBlock heap' heap'' p)
    (hkeep : ∀ p, Live heap p → Live heap' p) : NewBlock heap heap'' p :=
  ⟨h.1, fun hl => h.2 (hkeep p hl)⟩

theorem meets_mntMountInitfs_image {bytes : Mem} {names : ℕ → List UInt8}
    (hv : InitfsVolume bytes names volume.size) (hx : (machine.volumeEnv volume).Exact bytes) :
    Meets OutOfMemory (mntMountInitfs machine index volume) s
      (MountsImage machine s index (.initfs bytes names)) := by
  have hprobe : initfsProbe (machine.volumeEnv volume) = true := initfsProbe_eq hv.image hx
  refine (meets_onObjects (meets_onHeap_run (meets_initfsInit hprobe))).bind ?_
  rintro _ _ ⟨_, rfl, heap₁, rfl, filesystem, operations, rfl, hkeep₁, hfs, -⟩
  refine Meets.modify_bind ?_
  refine (meets_onObjects (meets_onHeap_run (meets_initfsMount filesystem))).bind ?_
  rintro root _ ⟨_, rfl, heap₂, rfl, hroot, hkeep₂, hnew⟩
  refine Meets.bind (Q := fun _ s' => s' = s.withDrive heap₂ index filesystem
    { root := root.1, volume := volume, fsData := .initfs, operations := operations }
    (.initfs root.2)) (Meets.of_ok rfl rfl) ?_
  rintro _ _ rfl
  refine Meets.pure ⟨rfl, _, _, _, _, rfl, fun p hp => hkeep₂ p (hkeep₁ p hp), fun p hp => ?_,
    ⟨hv, hx⟩, hroot.1, hroot.2.1, hroot.2.2, fun hne => absurd rfl hne⟩
  rcases List.mem_cons.1 hp with rfl | hp
  · exact hnew.later hkeep₁
  rcases List.mem_cons.1 hp with rfl | hp
  · exact hnew.later hkeep₁
  · rw [List.mem_singleton.1 hp]
    exact hfs.mono hkeep₂

theorem meets_mntMountExt2_image {bytes : Mem} {blocks : ℕ → List (List DirEntry)}
    (hv : Ext2Volume bytes blocks volume.size) (hx : (machine.volumeEnv volume).ReadsSectors bytes) :
    Meets OutOfMemory (mntMountExt2 machine index volume) s
      (MountsImage machine s index (.ext2 bytes blocks)) := by
  have hprobe : ext2Probe (machine.volumeEnv volume) = true :=
    ext2Probe_eq hv.layout hx hv.root_isInode
  refine (meets_onObjects (meets_onHeap_run (meets_ext2Init hprobe))).bind ?_
  rintro _ _ ⟨_, rfl, heap₁, rfl, filesystem, operations, rfl, hkeep₁, hfs, hops⟩
  refine Meets.modify_bind ?_
  refine (meets_onObjects (meets_onHeap_run
    (meets_ext2Mount hv.layout hx hv.root_isInode filesystem))).bind ?_
  rintro _ _ ⟨_, rfl, heap₂, rfl, ptr, root, rfl, hroot, hkeep₂, hptr, hnew⟩
  refine Meets.bind (Q := fun _ s' => s' = s.withDrive heap₂ index filesystem
    { root := root.1, volume := volume, fsData := .ext2 ptr (ext2Data bytes),
      operations := operations } (.ext2 root.2)) (Meets.of_ok rfl rfl) ?_
  rintro _ _ rfl
  refine Meets.pure ⟨rfl, _, _, _, _, rfl, fun p hp => hkeep₂ p (hkeep₁ p hp), fun p hp => ?_,
    ⟨hv, hx, ptr, rfl⟩, hroot, hv.root_type.symm, .root⟩
  rcases List.mem_cons.1 hp with rfl | hp
  · exact hnew.later hkeep₁
  rcases List.mem_cons.1 hp with rfl | hp
  · exact hptr.later hkeep₁
  rcases List.mem_cons.1 hp with rfl | hp
  · exact hops.mono hkeep₂
  · rw [List.mem_singleton.1 hp]
    exact hfs.mono hkeep₂

/-- **`mnt_volume_mount`** of a volume with a file system. -/
theorem meets_mntVolumeMount {drive : UInt8} {image : VolumeImage}
    (hd : mntGetDriveIndex drive = some index) (h0 : s.mountpoints index = 0)
    (hv : VolumeHolds machine volume (some image)) :
    Meets OutOfMemory (mntVolumeMount machine drive volume) s (MountsImage machine s index image) := by
  rw [mntVolumeMount, hd]
  refine Meets.get_bind ?_
  rw [if_neg (not_not.2 h0)]
  cases image with
  | initfs bytes names =>
    obtain ⟨himage, hx⟩ := hv
    rw [if_pos (initfsProbe_eq himage.image hx)]
    exact meets_mntMountInitfs_image himage hx
  | ext2 bytes blocks =>
    obtain ⟨himage, hx, hprobe⟩ := hv
    have hext2 := ext2Probe_eq himage.layout hx himage.root_isInode
    rw [if_neg (by rw [hprobe]; exact Bool.false_ne_true), if_pos hext2]
    exact meets_mntMountExt2_image himage hx

/-- `mnt_volume_mount` of a volume without one, or with a letter that is no drive. -/
theorem meets_mntVolumeMount_fails {drive : UInt8}
    (h : mntGetDriveIndex drive = none ∨ VolumeHolds machine volume none) :
    Meets OutOfMemory (mntVolumeMount machine drive volume) s fun r s' => r = -1 ∧ s' = s := by
  rw [mntVolumeMount]
  cases hd : mntGetDriveIndex drive with
  | none => exact Meets.pure ⟨rfl, rfl⟩
  | some i =>
    obtain ⟨hinitfs, hext2⟩ := h.resolve_left (by rw [hd]; exact Option.some_ne_none i)
    refine Meets.get_bind ?_
    split
    · exact Meets.pure ⟨rfl, rfl⟩
    · rw [if_neg (by rw [hinitfs]; exact Bool.false_ne_true),
        if_neg (by rw [hext2]; exact Bool.false_ne_true)]
      exact Meets.pure ⟨rfl, rfl⟩

/-- A drive is in use where its entry of the table is. -/
theorem DrivesAre.drive_ne_zero_iff (h : DrivesAre machine contents images d s) (drive : UInt8) :
    s.drive drive ≠ 0 ↔ d.volumeAt drive ≠ none := by
  unfold IoState.drive Drives.volumeAt
  cases hd : mntGetDriveIndex drive with
  | none => simp
  | some i =>
    show s.mountpoints i ≠ 0 ↔ d i ≠ none
    rw [ne_eq, ne_eq, h.free_iff i (mntGetDriveIndex_lt hd)]

/-- **`syscall_mount`** -/
theorem meets_syscallMount (h : DrivesAre machine contents images d s)
    (hv : VolumesHold machine volumes contents) (drive : UInt8) (id : Option (List UInt8)) :
    Meets OutOfMemory (syscallMount machine volumes drive id) s fun r s' =>
      r = (d.mount contents drive id).1 ∧
        ∃ images', DrivesAre machine contents images' (d.mount contents drive id).2 s' := by
  cases id with
  | none => exact Meets.pure ⟨rfl, images, h⟩
  | some id =>
    rw [syscallMount, Drives.mount]
    rcases hv id with ⟨hid, hfind⟩ | ⟨content, entry, hid, hfind, hcontent⟩
    · simp only [hfind, hid]
      exact Meets.pure ⟨rfl, images, h⟩
    · simp only [hfind, hid]
      refine Meets.get_bind ?_
      by_cases hused : s.drive drive ≠ 0
      · rw [if_pos hused, if_pos ((h.drive_ne_zero_iff drive).1 hused)]
        exact Meets.pure ⟨rfl, images, h⟩
      · rw [if_neg hused, if_neg fun hc => hused ((h.drive_ne_zero_iff drive).2 hc)]
        have hfails (hno : mntGetDriveIndex drive = none ∨ VolumeHolds machine entry.volume none) :
            Meets OutOfMemory (mntVolumeMount machine drive entry.volume >>= fun r =>
              if r ≠ 0 then pure (-3) else pure 0) s fun r s' => r = -3 ∧
                ∃ images', DrivesAre machine contents images' d s' := by
          refine (meets_mntVolumeMount_fails hno).bind ?_
          rintro _ _ ⟨rfl, rfl⟩
          exact Meets.pure ⟨rfl, images, h⟩
        cases hd : mntGetDriveIndex drive with
        | none => exact hfails (Or.inl hd)
        | some i =>
          cases content with
          | none => exact hfails (Or.inr hcontent)
          | some image =>
            have h0 : s.mountpoints i = 0 := by
              rw [IoState.drive, hd] at hused
              exact not_not.1 hused
            refine (meets_mntVolumeMount hd h0 hcontent).bind ?_
            rintro _ _ ⟨rfl, heap, a, filesystem, node, rfl, hkeep, hnew, hw, hn⟩
            exact Meets.pure ⟨rfl, _, h.add hid hkeep hnew hw hn⟩

/-- `mnt_volume_unmount` of a drive in use. -/
theorem meets_mntVolumeUnmount {drive : UInt8} (hd : mntGetDriveIndex drive = some i)
    (h0 : s.mountpoints i ≠ 0) : Meets OutOfMemory (mntVolumeUnmount drive) s fun r s' =>
      r = 0 ∧ s' = s.withoutDrive i := by
  rw [mntVolumeUnmount, hd]
  refine Meets.get_bind ?_
  rw [if_neg h0]
  refine Meets.bind (Q := fun r s' => r = 0 ∧ s' = { s with
    objects := { s.objects with heap := freeAll s.objects.heap (s.owned i) } })
    (Meets.of_ok ?_ ⟨rfl, rfl⟩) ?_
  · rw [onObjects, onHeap, filesystemUnmount_run]
    rfl
  · rintro _ _ ⟨rfl, rfl⟩
    rw [if_neg (not_not.2 rfl)]
    exact Meets.modify_bind (Meets.pure ⟨rfl, rfl⟩)

/-- **`syscall_unmount`** -/
theorem meets_syscallUnmount (h : DrivesAre machine contents images d s) (drive : UInt8) :
    Meets OutOfMemory (syscallUnmount drive) s fun r s' => r = (d.unmount drive).1 ∧
      DrivesAre machine contents images (d.unmount drive).2 s' := by
  have hiff := h.drive_ne_zero_iff drive
  rw [syscallUnmount, Drives.unmount]
  refine Meets.get_bind ?_
  cases hd : mntGetDriveIndex drive with
  | none =>
    have h0 : s.drive drive = 0 := by rw [IoState.drive, hd]
    rw [if_pos h0]
    exact Meets.pure ⟨rfl, h⟩
  | some i =>
    have hdrive : s.drive drive = s.mountpoints i := by rw [IoState.drive, hd]
    have hi := mntGetDriveIndex_lt hd
    rw [hdrive]
    dsimp only
    by_cases h0 : s.mountpoints i = 0
    · rw [if_pos h0, if_pos ((h.free_iff i hi).2 h0)]
      exact Meets.pure ⟨rfl, h⟩
    · rw [if_neg h0, if_neg fun hc => h0 ((h.free_iff i hi).1 hc)]
      refine (meets_mntVolumeUnmount hd h0).bind ?_
      rintro _ _ ⟨rfl, rfl⟩
      exact Meets.pure ⟨rfl, h.remove hi h0⟩

omit [Allocator σ] in
/-- The loop of `syscall_lsmnt` counts the drives in use. -/
theorem lsmntLoop_eq (s : IoState σ δ) {index current : ℕ} (hle : current ≤ index)
    (drives : List UInt8) :
    lsmntLoop s index current drives = (drives.filter (s.drive · ≠ 0))[index - current]? := by
  induction drives generalizing current with
  | nil => rfl
  | cons drive drives ih =>
    rw [lsmntLoop]
    by_cases hused : s.drive drive ≠ 0
    · rw [if_pos hused, List.filter_cons_of_pos (by simpa using hused)]
      by_cases hc : current = index
      · rw [if_pos hc, hc, Nat.sub_self]
        rfl
      · rw [if_neg hc, ih (by omega), show index - current = index - (current + 1) + 1 by omega]
        rfl
    · rw [if_neg hused, List.filter_cons_of_neg (by simpa using hused)]
      exact ih hle

/-- **`syscall_lsmnt`** -/
theorem syscallLsmnt_eq (h : DrivesAre machine contents images d s) (index : ℕ) {info : ℕ}
    (hinfo : info ≠ 0) : syscallLsmnt index info s = .ok (d.letters[index]?, s) := by
  have hfilter : driveLetters.filter (fun drive => s.drive drive ≠ 0) = d.letters := by
    refine List.filter_congr fun drive _ => ?_
    rw [decide_eq_decide]
    exact h.drive_ne_zero_iff drive
  show (if info = 0 then pure none else pure (lsmntLoop s index 0 driveLetters) :
    IoM σ δ (Option UInt8)) s = _
  rw [if_neg hinfo, lsmntLoop_eq s (Nat.zero_le _), Nat.sub_zero, hfilter]
  rfl

end calls

/-! ## Runs -/

/-- A system call that changes the drives. -/
inductive DriveCall where
  | mount (drive : UInt8) (id : Option (List UInt8))
  | unmount (drive : UInt8)

def DriveCall.exec (machine : Machine σ δ) (volumes : List (VolumeEntry δ)) :
    DriveCall → IoM σ δ Int
  | .mount drive id => syscallMount machine volumes drive id
  | .unmount drive => syscallUnmount drive

omit [Allocator σ] in
/-- The volumes that are mounted after calls, the latest first. -/
def Drives.after (contents : Contents) : List DriveCall → Drives
  | [] => fun _ => none
  | .mount drive id :: calls => ((Drives.after contents calls).mount contents drive id).2
  | .unmount drive :: calls => ((Drives.after contents calls).unmount drive).2

/-- A state with the calls that have led to it, the latest first. -/
structure DriveHistory (σ δ : Type) where
  state : IoState σ δ
  calls : List DriveCall

/-- Other code leaves the mounted file systems alone; everything else may change. -/
structure MountsElsewhere (s s' : IoState σ δ) : Prop where
  mountpoints : s'.mountpoints = s.mountpoints
  filesystems : ∀ i < fsVolumeMaxMountpoints, s.mountpoints i ≠ 0 →
    s'.objects.filesystems (s.mountpoints i) = s.objects.filesystems (s.mountpoints i)
  live : ∀ i < fsVolumeMaxMountpoints, s.mountpoints i ≠ 0 → ∀ p ∈ s.owned i,
    Live s.objects.heap p → Live s'.objects.heap p
  root : ∀ i < fsVolumeMaxMountpoints, s.mountpoints i ≠ 0 →
    s'.objects.nodes (s.root i) = s.objects.nodes (s.root i)

/-- The runs of the kernel from an empty mount table, by the calls that change it; `none` is
    other code. -/
def driveSystem (machine : Machine σ δ) (volumes : List (VolumeEntry δ)) :
    TransitionSystem (DriveHistory σ δ) (Option DriveCall) where
  init h := (∀ i < fsVolumeMaxMountpoints, h.state.mountpoints i = 0) ∧ h.calls = []
  step h label h' :=
    label.elim (MountsElsewhere h.state h'.state ∧ h'.calls = h.calls) fun call =>
      (∃ r, call.exec machine volumes h.state = .ok (r, h'.state)) ∧ h'.calls = call :: h.calls

theorem DrivesAre.elsewhere {s' : IoState σ δ} (h : DrivesAre machine contents images d s)
    (he : MountsElsewhere s s') : DrivesAre machine contents images d s' := by
  have howned {j : ℕ} (hj : j < fsVolumeMaxMountpoints) (h0 : s.mountpoints j ≠ 0) :
      s'.owned j = s.owned j := by
    rw [IoState.owned, he.mountpoints, he.filesystems j hj h0, IoState.owned]
  have hroot {j : ℕ} (hj : j < fsVolumeMaxMountpoints) (h0 : s.mountpoints j ≠ 0) :
      s'.root j = s.root j := by
    rw [IoState.root, he.mountpoints, he.filesystems j hj h0, IoState.root]
  refine ⟨⟨fun j hj h0 => ?_, fun j hj h0 => ?_, fun j hj h0 => ?_⟩, fun j hj => ?_,
    fun j hj id hid => ?_, fun j hj h0 p hp => ?_, fun j hj k hk hne h0 h0' p hp hp' => ?_⟩
  · rw [he.mountpoints] at h0 ⊢
    rw [he.filesystems j hj h0]
    exact h.table.volume j hj h0
  · rw [he.mountpoints] at h0
    rw [hroot hj h0]
    exact he.live j hj h0 _ (mem_ownedBy _ _).2 (h.table.rootLive j hj h0)
  · rw [he.mountpoints] at h0 ⊢
    rw [hroot hj h0, he.root j hj h0]
    exact h.table.rootNode j hj h0
  · rw [he.mountpoints]
    exact h.free_iff j hj
  · rw [he.mountpoints]
    exact h.image j hj id hid
  · rw [he.mountpoints] at h0
    rw [howned hj h0] at hp
    exact he.live j hj h0 p hp (h.live j hj h0 p hp)
  · rw [he.mountpoints] at h0 h0'
    rw [howned hj h0] at hp
    rw [howned hk h0'] at hp'
    exact h.apart j hj k hk hne h0 h0' p hp hp'

/-- **The invariant** holds in every run. -/
theorem reachable_drivesAre {volumes : List (VolumeEntry δ)} (hv : VolumesHold machine volumes contents)
    {h : DriveHistory σ δ} (hr : (driveSystem machine volumes).Reachable h) :
    ∃ images, DrivesAre machine contents images (Drives.after contents h.calls) h.state := by
  refine TransitionSystem.Reachable.invariant (P := fun h : DriveHistory σ δ =>
    ∃ images, DrivesAre machine contents images (Drives.after contents h.calls) h.state) ?_ ?_ hr
  · rintro h ⟨hempty, hcalls⟩
    rw [hcalls]
    have hno {i : ℕ} (hi : i < fsVolumeMaxMountpoints) (h0 : h.state.mountpoints i ≠ 0) : False :=
      h0 (hempty i hi)
    exact ⟨fun _ => .initfs (fun _ => 0) fun _ => [], ⟨fun i hi h0 => (hno hi h0).elim,
      fun i hi h0 => (hno hi h0).elim, fun i hi h0 => (hno hi h0).elim⟩,
      fun i hi => iff_of_true rfl (hempty i hi), fun i hi id hid => (by cases hid),
      fun i hi h0 => (hno hi h0).elim, fun i hi j hj hne h0 => (hno hi h0).elim⟩
  · rintro h label h' - ⟨images, hd⟩ hstep
    cases label with
    | none =>
      obtain ⟨he, hcalls⟩ := hstep
      rw [hcalls]
      exact ⟨images, hd.elsewhere he⟩
    | some call =>
      obtain ⟨⟨r, hrun⟩, hcalls⟩ := hstep
      rw [hcalls]
      cases call with
      | mount drive id => exact ((meets_syscallMount hd hv drive id).of_run hrun).2
      | unmount drive => exact ⟨images, ((meets_syscallUnmount hd drive).of_run hrun).2⟩

/-- The file an absolute path leads to, by the volumes that are mounted. -/
def Drives.lookup (d : Drives) (contents : Contents) (path : List UInt8) : Option FileId :=
  (d.volumeAt (path.headD 0)).bind fun id => (contents id).bind fun content =>
    content.bind fun image => image.tree.lookup (path.drop 3)

/-- What a path leads to. -/
theorem DrivesAre.pathTarget (h : DrivesAre machine contents images d s) {path : List UInt8}
    (habs : vfsIsAbsPath path = true) :
    (Ttos.pathTarget images s path).map Prod.snd = d.lookup contents path := by
  have hiff := h.drive_ne_zero_iff (path.headD 0)
  rw [Ttos.pathTarget, Drives.lookup]
  by_cases hused : s.drive (path.headD 0) ≠ 0
  · rw [if_pos ⟨habs, hused⟩]
    cases hd : mntGetDriveIndex (path.headD 0) with
    | none =>
      rw [IoState.drive, hd] at hused
      exact absurd rfl hused
    | some i =>
      have hi := mntGetDriveIndex_lt hd
      have hvol : d.volumeAt (path.headD 0) = d i := by rw [Drives.volumeAt, hd, Option.bind_some]
      have hdrive : s.drive (path.headD 0) = s.mountpoints i := by rw [IoState.drive, hd]
      rw [hvol] at hiff
      obtain ⟨id, hid⟩ := Option.ne_none_iff_exists'.1 (hiff.1 hused)
      rw [hvol, hid, hdrive, Option.bind_some, h.image i hi id hid, Option.bind_some,
        Option.bind_some, Option.map_map]
      exact Option.map_id'
  · rw [if_neg fun hc => hused hc.2, not_not.1 fun hc => hused (hiff.2 hc)]
    rfl

/-- What holds after mounts and unmounts: every mounted volume is ready for use, paths lead to
the files of the volumes that are mounted, and the next system call on the drives does what it
means. -/
structure DrivesRight (machine : Machine σ δ) (volumes : List (VolumeEntry δ)) (contents : Contents)
    (h : DriveHistory σ δ) : Prop where
  table : ∃ images, MountTable machine images h.state ∧ ∀ path, vfsIsAbsPath path = true →
    (pathTarget images h.state path).map Prod.snd =
      (Drives.after contents h.calls).lookup contents path
  mount : ∀ drive id, Meets OutOfMemory (syscallMount machine volumes drive id) h.state fun r _ =>
    r = ((Drives.after contents h.calls).mount contents drive id).1
  unmount : ∀ drive, Meets OutOfMemory (syscallUnmount drive) h.state fun r _ =>
    r = ((Drives.after contents h.calls).unmount drive).1
  lsmnt : ∀ index info, info ≠ 0 → syscallLsmnt index info h.state =
    .ok ((Drives.after contents h.calls).letters[index]?, h.state)

/-- **Drives are what was mounted**: in every run of mounts and unmounts from an empty mount table,
with other code in between, every drive holds the volume that was mounted there last, its paths lead
to that volume's files, and the system calls answer by that. -/
theorem drives_right (machine : Machine σ δ) (volumes : List (VolumeEntry δ)) (contents : Contents)
    (hv : VolumesHold machine volumes contents) (h : DriveHistory σ δ)
    (hr : (driveSystem machine volumes).Reachable h) : DrivesRight machine volumes contents h := by
  obtain ⟨images, hd⟩ := reachable_drivesAre hv hr
  refine ⟨⟨images, hd.table, fun path habs => hd.pathTarget habs⟩, fun drive id => ?_,
    fun drive => ?_, fun index info hinfo => syscallLsmnt_eq hd index hinfo⟩
  · exact (meets_syscallMount hd hv drive id).mono fun r _ hr => hr.1
  · exact (meets_syscallUnmount hd drive).mono fun r _ hr => hr.1

end

/-! ## The small volume -/

/-- The small volume, with an id. -/
def dirImageVolumes : List (VolumeEntry Unit) :=
  [⟨[0x61], (imageEnv KernelHeap dirImage 8192).volume⟩]

def dirImageContents : Contents := fun id =>
  if id = [0x61] then some (some (.ext2 dirImage fun _ => dirImageRoot)) else none

theorem dirImageVolumes_hold : VolumesHold dirImageMachine dirImageVolumes dirImageContents := by
  intro id
  by_cases hid : id = [0x61]
  · subst hid
    exact Or.inr ⟨_, _, rfl, rfl, dirImage_root.volume, (imageEnv_exact (by decide)).readsSectors,
      by decide +kernel⟩
  · refine Or.inl ⟨if_neg hid, ?_⟩
    rw [volumeFindById, dirImageVolumes, List.find?_cons_of_neg (by simpa using Ne.symm hid)]
    rfl

/-- No drives, and the heap of the kernel. -/
def noDrives : IoState KernelHeap Unit := { dirImageIo with mountpoints := fun _ => 0 }

/-- Calls from a history on, the first one first. -/
def driveCalls (machine : Machine KernelHeap Unit) (volumes : List (VolumeEntry Unit)) :
    List DriveCall → DriveHistory KernelHeap Unit → Except FsStop (DriveHistory KernelHeap Unit)
  | [], h => .ok h
  | call :: calls, h => (call.exec machine volumes h.state).bind fun r =>
    driveCalls machine volumes calls ⟨r.2, call :: h.calls⟩

theorem driveCalls_reachable {machine : Machine KernelHeap Unit} {volumes : List (VolumeEntry Unit)}
    {calls : List DriveCall} {h h' : DriveHistory KernelHeap Unit}
    (hr : (driveSystem machine volumes).Reachable h)
    (hrun : driveCalls machine volumes calls h = .ok h') :
    (driveSystem machine volumes).Reachable h' := by
  induction calls generalizing h with
  | nil =>
    obtain rfl : h = h' := Except.ok.inj hrun
    exact hr
  | cons call calls ih =>
    obtain ⟨r, hexec, hrun⟩ := exists_of_bind_ok hrun
    exact ih (hr.step (i := some call) ⟨⟨r.1, hexec⟩, rfl⟩) hrun

/-- The small volume is mounted as drive B and as drive A, and drive B is unmounted; there is no
    volume with the id of the last call. -/
def dirImageMounts : List DriveCall :=
  [.mount 0x42 (some [0x61]), .mount 0x41 (some [0x61]), .unmount 0x42, .mount 0x43 (some [0x62])]

theorem dirImageMounts_end :
    returns (driveCalls dirImageMachine dirImageVolumes dirImageMounts ⟨noDrives, []⟩) (fun h =>
      (Drives.after dirImageContents h.calls).letters = [0x41]) = true := by decide +kernel

/-- Only drive A is left. -/
theorem drives_right_unmounted : ∃ h : DriveHistory KernelHeap Unit,
    (Drives.after dirImageContents h.calls).letters = [0x41] ∧
      DrivesRight dirImageMachine dirImageVolumes dirImageContents h := by
  obtain ⟨h, hrun, hletters⟩ := exists_of_check dirImageMounts_end
  exact ⟨h, of_decide_eq_true hletters, drives_right dirImageMachine dirImageVolumes
    dirImageContents dirImageVolumes_hold h
    (driveCalls_reachable (.init ⟨fun _ _ => rfl, rfl⟩) hrun)⟩

end Ttos
