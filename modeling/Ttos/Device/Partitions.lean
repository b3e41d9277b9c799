/-
  Volumes of a storage device: the partitions of its MBR (mbr.c, volume.c).

  * `volumeRegisterDevice`: the volumes a device gets;
  * `meets_volumeRegisterDevice`: one for every entry of the MBR that is in use;
  * `partitions_exact`: exactly when they are the partitions the entries describe;
  * `partitions_wrap`: an entry whose byte offset needs more than 32 bits.
-/
import Ttos.Fs.Vfs
import Ttos.Memory.KernelHeap
import Ttos.Util.LinkedList

namespace Ttos

/-! ## Devices -/

/-- `storage_device_t`: its name and its driver. -/
structure StorageDevice (δ : Type) where
  name : List UInt8
  driver : StorageDriver δ
  sectorSize : ℕ

/-- A volume with its name. -/
structure RegisteredVolume (δ : Type) where
  name : List UInt8
  volume : Volume δ

/-- `sizeof(mbr_t)` -/
abbrev mbrSize : ℕ := 512

/-- `MBR_SIGNATURE` -/
abbrev mbrSignature : ℕ := 0xAA55

/-- `sizeof(volume_t)` -/
abbrev volumeStructSize : ℕ := 28

/-- `sizeof(volume_operations_t)` -/
abbrev volumeOperationsSize : ℕ := 12

namespace Mbr

variable (m : Mem) (i : ℕ)

/-- Where the partition entry `i` is. -/
def entry : ℕ := 446 + 16 * i

def attributes : UInt8 := m (entry i)

def type : UInt8 := m (entry i + 4)

def lbaStart : ℕ := m.load32 (entry i + 8)

def sectors : ℕ := m.load32 (entry i + 12)

def signature : ℕ := m.load16 510

/-- The entries that are in use. -/
def present : List ℕ := (List.range 4).filter fun i => type m i ≠ 0

end Mbr

section
variable {σ δ : Type} (dev : StorageDevice δ) (device : δ)

/-- `mbr_probe`; `stack` is what the variable `mbr` holds before. -/
def mbrProbe (stack : Mem) : Bool :=
  let mbr := (dev.driver.read device 0 mbrSize stack).2
  if Mbr.signature mbr ≠ mbrSignature then false
  else (List.range 4).all fun i => Mbr.attributes mbr i = 0x80 ∨ Mbr.attributes mbr i = 0x00

variable [Allocator σ] (stale : σ → ℕ → Mem)

/-- `mbr_read`; `stale` is what heap blocks hold when they are handed out. -/
def mbrRead : FsM σ Mem := fun heap =>
  (kmallocOrPanic mbrSize heap).map fun r =>
    ((dev.driver.read device 0 mbrSize (stale r.2 r.1)).2, r.2)

/-- Append a volume to the list of volumes: its structure, its name, its operations and the node
    of the list are allocated. -/
def volumeAppend (nameSize : ℕ) (volume : RegisteredVolume δ) : FsM σ (RegisteredVolume δ) := do
  let _ ← kmallocOrPanic volumeStructSize
  let _ ← kmallocOrPanic nameSize
  let _ ← kmallocOrPanic volumeOperationsSize
  let _ ← kmallocOrPanic linkedListNodeSize
  pure volume

omit [Allocator σ] in
/-- The volume of the partition entry `i`. -/
def partitionVolume (mbr : Mem) (i : ℕ) : RegisteredVolume δ where
  -- the number is one digit
  name := dev.name ++ [0x20, 0x23, UInt8.ofNat (0x30 + (i + 1))]
  volume :=
    { offset := u32 (Mbr.lbaStart mbr i * dev.sectorSize)
      size := u32 (Mbr.sectors mbr i * dev.sectorSize)
      driver := dev.driver }

/-- `volume_register_device`: the volumes it appends, in order. -/
def volumeRegisterDevice (stack : Mem) : FsM σ (List (RegisteredVolume δ)) :=
  if !mbrProbe dev device stack then do
    let volume ← volumeAppend dev.name.length
      ⟨dev.name, ⟨0, dev.driver.totalSize device, dev.driver⟩⟩
    pure [volume]
  else do
    let mbr ← mbrRead dev device stale
    (Mbr.present mbr).mapM fun i => volumeAppend (dev.name.length + 4) (partitionVolume dev mbr i)

end

/-! ## What is registered -/

section
variable {σ δ : Type} {dev : StorageDevice δ} {device : δ} [Allocator σ] {stale : σ → ℕ → Mem}

theorem returns_volumeAppend (nameSize : ℕ) (volume : RegisteredVolume δ) :
    Returns OutOfMemory (volumeAppend nameSize volume : FsM σ _) (· = volume) :=
  returns_kmalloc_bind rfl fun _ _ => returns_kmalloc_bind rfl fun _ _ =>
    returns_kmalloc_bind rfl fun _ _ => returns_kmalloc_bind rfl fun _ _ => Returns.pure rfl

omit [Allocator σ] in
/-- The MBR as `mbr_read` gets it in the buffer `r.1` of the heap `r.2`. -/
def mbrAt (dev : StorageDevice δ) (device : δ) (stale : σ → ℕ → Mem) (r : ℕ × σ) : Mem :=
  (dev.driver.read device 0 mbrSize (stale r.2 r.1)).2

theorem meets_mbrRead (heap : σ) : Meets OutOfMemory (mbrRead dev device stale) heap fun mbr _ =>
    mbr = mbrAt dev device stale (Allocator.alloc heap mbrSize false) := by
  by_cases h0 : (Allocator.alloc heap mbrSize false).1 = 0
  · have hk : (kmallocOrPanic mbrSize : FsM σ ℕ) heap = .error .kheapOutOfMemory := if_pos h0
    exact Meets.of_error (by rw [mbrRead, hk]; rfl) rfl
  · have hk : (kmallocOrPanic mbrSize : FsM σ ℕ) heap = .ok (Allocator.alloc heap mbrSize false) :=
      if_neg h0
    exact Meets.of_ok (by rw [mbrRead, hk]; rfl) rfl

theorem returns_mapM_append (f : ℕ → RegisteredVolume δ) (nameSize : ℕ) (is : List ℕ) :
    Returns OutOfMemory (is.mapM fun i => volumeAppend (σ := σ) nameSize (f i)) (· = is.map f) := by
  induction is with
  | nil => exact Returns.pure rfl
  | cons i is ih =>
    rw [List.mapM_cons]
    refine (returns_volumeAppend nameSize (f i)).bind ?_
    rintro v rfl
    refine ih.bind ?_
    rintro vs rfl
    exact Returns.pure rfl

/-- **A device with an MBR gets a volume for every entry in use.** -/
theorem meets_volumeRegisterDevice {stack : Mem} (h : mbrProbe dev device stack = true) (heap : σ) :
    Meets OutOfMemory (volumeRegisterDevice dev device stale stack) heap fun volumes _ =>
      let mbr := mbrAt dev device stale (Allocator.alloc heap mbrSize false)
      volumes = (Mbr.present mbr).map (partitionVolume dev mbr) := by
  rw [volumeRegisterDevice, h]
  refine (meets_mbrRead heap).bind ?_
  rintro mbr heap' rfl
  exact returns_mapM_append _ _ _ heap'

end

/-! ## Partitions -/

section
variable {δ : Type}

/-- The volume is the partition of the entry `i`, in a device of `total` bytes. -/
structure IsPartition (mbr : Mem) (total i : ℕ) (volume : Volume δ) : Prop where
  offset : volume.offset = 512 * Mbr.lbaStart mbr i
  size : volume.size = 512 * Mbr.sectors mbr i
  inside : volume.offset + volume.size ≤ total

/-- The volumes are the partitions in use; disjoint partitions are disjoint volumes. -/
structure ArePartitions (mbr : Mem) (total : ℕ) (volumes : List (RegisteredVolume δ)) : Prop where
  each : List.Forall₂ (fun i v => IsPartition mbr total i v.volume) (Mbr.present mbr) volumes
  disjoint : ∀ p ∈ (Mbr.present mbr).zip volumes, ∀ q ∈ (Mbr.present mbr).zip volumes,
    Apart (Mbr.lbaStart mbr p.1) (Mbr.sectors mbr p.1) (Mbr.lbaStart mbr q.1) (Mbr.sectors mbr q.1) →
    Apart p.2.volume.offset p.2.volume.size q.2.volume.offset q.2.volume.size

/-- The entry ends inside the device, or is empty at its start. -/
def EntryFits (sectorSize total : ℕ) (mbr : Mem) (i : ℕ) : Prop :=
  sectorSize = 512 ∧ 512 * (Mbr.lbaStart mbr i + Mbr.sectors mbr i) ≤ total ∨
    Mbr.lbaStart mbr i = 0 ∧ Mbr.sectors mbr i = 0

instance (sectorSize total : ℕ) (mbr : Mem) (i : ℕ) : Decidable (EntryFits sectorSize total mbr i) :=
  inferInstanceAs (Decidable (_ ∧ _ ∨ _ ∧ _))

theorem isPartition_iff {dev : StorageDevice δ} {total : ℕ} (ht : total < 4294967296)
    (hs : dev.sectorSize = 512 ∨ dev.sectorSize = 0) (mbr : Mem) (i : ℕ) :
    IsPartition mbr total i (partitionVolume dev mbr i).volume ↔
      EntryFits dev.sectorSize total mbr i := by
  unfold EntryFits
  rcases hs with hs | hs
  · constructor
    · rintro ⟨h1, h2, h3⟩
      simp only [partitionVolume, hs] at h1 h2 h3
      left
      omega
    · intro h
      refine ⟨?_, ?_, ?_⟩ <;> simp only [partitionVolume, hs] <;> unfold u32 <;> omega
  · constructor
    · rintro ⟨h1, h2, -⟩
      simp only [partitionVolume, hs, Nat.mul_zero] at h1 h2
      rw [u32_of_lt (by decide)] at h1 h2
      right
      omega
    · intro h
      refine ⟨?_, ?_, ?_⟩ <;> simp only [partitionVolume, hs, Nat.mul_zero] <;> unfold u32 <;> omega

theorem arePartitions_iff {dev : StorageDevice δ} {total : ℕ} (ht : total < 4294967296)
    (hs : dev.sectorSize = 512 ∨ dev.sectorSize = 0) (mbr : Mem) :
    ArePartitions mbr total ((Mbr.present mbr).map (partitionVolume dev mbr)) ↔
      ∀ i ∈ Mbr.present mbr, EntryFits dev.sectorSize total mbr i := by
  have heach : List.Forall₂ (fun i v => IsPartition mbr total i v.volume) (Mbr.present mbr)
      ((Mbr.present mbr).map (partitionVolume dev mbr)) ↔
        ∀ i ∈ Mbr.present mbr, EntryFits dev.sectorSize total mbr i := by
    rw [List.forall₂_map_right_iff, List.forall₂_same]
    exact forall₂_congr fun i _ => isPartition_iff ht hs mbr i
  refine ⟨fun h => heach.1 h.each, fun h => ⟨heach.2 h, ?_⟩⟩
  have hzip : ∀ p ∈ (Mbr.present mbr).zip ((Mbr.present mbr).map (partitionVolume dev mbr)),
      IsPartition mbr total p.1 p.2.volume := by
    rintro ⟨i, v⟩ hp
    exact (List.forall₂_iff_zip.1 (heach.2 h)).2 hp
  intro p hp q hq hapart
  have h1 := hzip p hp
  have h2 := hzip q hq
  rw [Apart, h1.offset, h1.size, h2.offset, h2.size]
  rw [Apart] at hapart
  omega

/-! ## Two MBRs -/

/-- An MBR with one entry in use. -/
def oneEntry (lbaStart sectors : ℕ) : Mem :=
  let type := Mem.store8 (fun _ => 0) (Mbr.entry 0 + 4) 0x83
  let entry := (type.store32 (Mbr.entry 0 + 8) lbaStart).store32 (Mbr.entry 0 + 12) sectors
  (entry.store8 510 0x55).store8 511 0xAA

/-- A disk of 1 MiB that begins with the MBR. -/
def smallDisk (mbr : Mem) : StorageDevice Unit where
  name := [0x68, 0x64, 0x61]
  driver :=
    { totalSize := fun _ => 0x100000
      read := fun _ offset size buffer =>
        (size, fun x => if x < size then mbr (offset + x) else buffer x)
      write := fun _ _ size _ => (size, ()) }
  sectorSize := 512

theorem smallDisk_probe : ∀ lba ∈ [1, 0x800000],
    mbrProbe (smallDisk (oneEntry lba 1)) () (fun _ => 0) = true := by
  decide

theorem smallDisk_mbr (lba : ℕ) (heap : KernelHeap) :
    mbrAt (smallDisk (oneEntry lba 1)) () (fun _ _ _ => 0) (Allocator.alloc heap mbrSize false) =
      oneEntry lba 1 := by
  funext x
  simp only [mbrAt, smallDisk, Nat.zero_add]
  split
  · rfl
  · next hx =>
    have h1 : 512 ≤ x := by
      rw [mbrSize] at hx
      omega
    simp only [oneEntry, Mbr.entry]
    rw [Mem.store8_out (by omega), Mem.store8_out (by omega), Mem.store32_out (by omega),
      Mem.store32_out (by omega), Mem.store8_out (by omega)]

theorem smallDisk_registers : ∀ lba ∈ [1, 0x800000], ∃ r,
    volumeRegisterDevice (smallDisk (oneEntry lba 1)) () (fun _ _ _ => 0) (fun _ => 0)
      placementHeap = .ok r := by
  intro lba h
  have hr : ∀ lba ∈ [1, 0x800000],
      (volumeRegisterDevice (smallDisk (oneEntry lba 1)) () (fun _ _ _ => 0) (fun _ => 0)
        placementHeap).toBool = true := by
    decide +kernel
  have hr := hr lba h
  cases hx : volumeRegisterDevice (smallDisk (oneEntry lba 1)) () (fun _ _ _ => 0) (fun _ => 0)
      placementHeap with
  | error e => simp [hx, Except.toBool] at hr
  | ok r => exact ⟨r, rfl⟩

/-! ## When they are the partitions -/

/-- **The volumes are the partitions exactly when every entry in use ends inside the device**;
    the ramdisk, whose sector size is 0, gets empty volumes. -/
theorem partitions_exact {σ : Type} [Allocator σ] (dev : StorageDevice δ) (device : δ)
    (stale : σ → ℕ → Mem) (stack : Mem) (heap : σ) (hprobe : mbrProbe dev device stack = true)
    (hs : dev.sectorSize = 512 ∨ dev.sectorSize = 0)
    (ht : dev.driver.totalSize device < 4294967296) :
    Meets OutOfMemory (volumeRegisterDevice dev device stale stack) heap fun volumes _ =>
      let mbr := mbrAt dev device stale (Allocator.alloc heap mbrSize false)
      (ArePartitions mbr (dev.driver.totalSize device) volumes ↔
        ∀ i ∈ Mbr.present mbr, EntryFits dev.sectorSize (dev.driver.totalSize device) mbr i) := by
  refine (meets_volumeRegisterDevice hprobe heap).mono ?_
  rintro volumes _ rfl
  exact arePartitions_iff ht hs _

theorem partitions_exact_small : ∃ volumes heap,
    volumeRegisterDevice (smallDisk (oneEntry 1 1)) () (fun _ _ _ => 0) (fun _ => 0)
      placementHeap = .ok (volumes, heap) ∧
    ArePartitions (oneEntry 1 1) 0x100000 volumes := by
  obtain ⟨⟨volumes, heap⟩, hr⟩ := smallDisk_registers 1 (by decide)
  have h := (partitions_exact (smallDisk (oneEntry 1 1)) () (fun _ _ _ => 0) (fun _ => 0)
    placementHeap (smallDisk_probe 1 (by decide)) (.inl rfl) (by decide)).of_run hr
  rw [smallDisk_mbr] at h
  exact ⟨volumes, heap, hr, h.2 (by decide)⟩

/-- The partition at sector 2^23 becomes the volume that begins with the MBR. -/
theorem partitions_wrap : ∃ volumes heap,
    volumeRegisterDevice (smallDisk (oneEntry 0x800000 1)) () (fun _ _ _ => 0) (fun _ => 0)
      placementHeap = .ok (volumes, heap) ∧
    volumes.map (fun v => (v.volume.offset, v.volume.size)) = [(0, 512)] ∧
    ¬ ArePartitions (oneEntry 0x800000 1) 0x100000 volumes := by
  obtain ⟨⟨volumes, heap⟩, hr⟩ := smallDisk_registers 0x800000 (by decide)
  have h := (meets_volumeRegisterDevice (smallDisk_probe 0x800000 (by decide))
    placementHeap).of_run hr
  simp only [smallDisk_mbr] at h
  refine ⟨volumes, heap, hr, ?_, ?_⟩
  · rw [h]
    decide
  · rw [h, arePartitions_iff (by decide) (.inl rfl)]
    decide

end

end Ttos
