/-
  Volumes on ATA drives: what the file systems above may rely on.

  * `ataDriver_served`: a read that `ata_read` serves right stores the bytes asked for, and
    nothing behind them (`ataDriver_storesWithin`).
  * `ataVolume_readsSectors`: requests for whole sectors of a volume that begins at a sector of
    a master are read exactly, and ext2 asks for nothing else (`ataVolume_wellFormed`).
  * `ataDriver_overruns`: a read over the end of a sector that does not begin at one stores
    bytes behind the ones asked for.
-/
import Ttos.Drivers.AtaExact
import Ttos.Fs.Volumes

namespace Ttos

/-- The memory of a call: the caller's buffer lies right behind the sector buffer. -/
def AtaState.withBuffer (s : AtaState) (sectorBuffer : ℕ) (data : Mem) : AtaState :=
  { s with mem := fun a => if a < sectorBuffer + 512 then s.mem a else data (a - (sectorBuffer + 512)) }

/-- `ata_driver`, with the address of the sector buffer its calls get. -/
def ataDriver (device : AtaDevice) (sectorBuffer : ℕ) : StorageDriver AtaState where
  totalSize _ := device.size
  read s offset size data :=
    match ataRead sectorBuffer device offset size (sectorBuffer + 512)
        (s.withBuffer sectorBuffer data) with
    | .ok (n, s) => (n, fun j => s.mem (sectorBuffer + 512 + j))
    | .error .kheapOutOfMemory => (0, data)
  write s offset size data :=
    match ataWrite sectorBuffer device offset size (sectorBuffer + 512)
        (s.withBuffer sectorBuffer data) with
    | .ok (n, s) => (n, s)
    | .error .kheapOutOfMemory => (0, s)

section
variable {device : AtaDevice} {sectorBuffer offset size : ℕ} {s : AtaState} {data : Mem}

theorem withBuffer_buffer (j : ℕ) :
    (s.withBuffer sectorBuffer data).mem (sectorBuffer + 512 + j) = data j := by
  have hout : ¬ sectorBuffer + 512 + j < sectorBuffer + 512 := by omega
  simp only [AtaState.withBuffer, if_neg hout, Nat.add_sub_cancel_left]

theorem ataDriver_read_eq {n : ℕ} {s' : AtaState}
    (h : ataRead sectorBuffer device offset size (sectorBuffer + 512)
      (s.withBuffer sectorBuffer data) = .ok (n, s')) :
    (ataDriver device sectorBuffer).read s offset size data =
      (n, fun j => s'.mem (sectorBuffer + 512 + j)) := by
  simp only [ataDriver, h]

/-- The buffers of a call through `ata_driver` are apart. -/
theorem ataDriver_call (hp : device.present = true) (hl : device.lbaSupported = true)
    (hd : device.size < 4294967296) (h0 : 0 < sectorBuffer)
    (hb : sectorBuffer + 512 + size ≤ 4294967296) (hf : AtaFits device offset size) :
    AtaCall sectorBuffer device offset size (sectorBuffer + 512) where
  present := hp
  lba := hl
  device_lt := hd
  offset_lt := by have := hf.2; omega
  size_lt := by have := hf.2; omega
  sector_pos := h0
  fits _ := hb
  apart _ := Or.inr (Nat.le_refl _)

variable (hp : device.present = true) (hl : device.lbaSupported = true)
  (hd : device.size < 4294967296) (h0 : 0 < sectorBuffer)

include hp hl hd h0

/-- **A read that is served right** stores the bytes of the drive, and nothing else. -/
theorem ataDriver_served (hb : sectorBuffer + 512 + size ≤ 4294967296)
    (hs : AtaServed device offset size) :
    (ataDriver device sectorBuffer).read s offset size data =
      (size, data.copyFrom 0 (s.bus.byte device.drive) offset size) := by
  have hcall := ataDriver_call hp hl hd h0 hb hs.1
  obtain ⟨n, s', heq, -, hread, -⟩ :=
    (ata_read_exact hcall).2 (Or.inr (Or.inr hs)) (s.withBuffer sectorBuffer data)
  obtain ⟨rfl, hin, hout⟩ := hread hs.1
  rw [ataDriver_read_eq heq]
  refine congrArg (Prod.mk _) (funext fun j => ?_)
  by_cases hj : j < n
  · rw [Mem.copyFrom_in (Nat.zero_le _) (by omega), hin j hj]
    rfl
  · rw [Mem.copyFrom_out (Or.inr (by omega)), hout _ (Or.inr (by omega)) (by omega)]
    exact withBuffer_buffer j

theorem ataDriver_storesWithin (hb : sectorBuffer + 512 + size ≤ 4294967296)
    (hs : AtaServed device offset size) :
    (ataDriver device sectorBuffer).StoresWithin s ⟨offset, size⟩ size data := by
  intro j hj
  rw [ataDriver_served hp hl hd h0 hb hs]
  exact Mem.copyFrom_out (Or.inr (by omega))

end

/-- A round of the loop on a drive full of ones stores ones as far as its copy stays in the
sector buffer. -/
theorem ataReadStep_ones {sector j : ℕ} {l : AtaLoop} (hs : sector < 268435456)
    (hd : ∀ lba x, s.bus.disks (ataMaster device) lba x = 1) (hj : j < l.size)
    (hin : l.offset + j < 512) :
    (ataReadStep device sectorBuffer sector l s).mem (l.pointer + j) = 1 := by
  obtain ⟨-, h⟩ := ataReadSectorLba28_data device sectorBuffer s hs
  show Mem.copy _ l.pointer (sectorBuffer + l.offset) l.size (l.pointer + j) = 1
  rw [Mem.copy, if_pos (by omega), h, if_pos (by omega), hd]

/-- Drives full of ones. -/
def oneDrives : AtaState := { zeroDrives with bus := { zeroDrives.bus with disks := fun _ _ _ => 1 } }

/-- 440 bytes from 80 on are asked for, and a byte behind them is stored. -/
theorem ataDriver_overruns : ¬ (ataDriver (presentDrive .primaryMaster) 4096).StoresWithin
    oneDrives ⟨80, 440⟩ 440 fun _ => 0 := by
  intro h
  have h440 := h 440 (Nat.le_refl _)
  rw [ataDriver_read_eq (ataRead_eq _ _ (by decide) (by decide))] at h440
  have hcount : ataSectors 80 440 = 2 := by decide
  rw [hcount, ataReadLoop, ataReadLoop, ataReadLoop] at h440
  -- the copy from the second sector takes 7 - 80 + 1 bytes
  generalize hl : AtaLoop.locate (AtaLoop.advance _) _ _ _ _ _ = l at h440
  obtain rfl : ⟨4608 + 432, 80, 4294967224, 432⟩ = l := by
    rw [← hl]
    decide
  dsimp only at h440
  rw [show 80 / 512 = 0 from rfl] at h440
  obtain ⟨hdisks, -⟩ := ataReadSectorLba28_data (presentDrive .primaryMaster) 4096
    (oneDrives.withBuffer 4096 fun _ => 0) (by decide : 0 < 268435456)
  generalize hs : AtaState.mk (ataReadSectorLba28 _ _ _ _).bus _ = s₁ at h440
  have hd : ∀ lba x, s₁.bus.disks (ataMaster (presentDrive .primaryMaster)) lba x = 1 := by
    intro lba x
    rw [← hs]
    dsimp only
    rw [hdisks]
    rfl
  have hone : (ataReadStep (presentDrive .primaryMaster) 4096 1 ⟨4608 + 432, 80, 4294967224, 432⟩
      s₁).mem (4608 + 432 + 8) = 1 :=
    ataReadStep_ones (by decide) hd (by decide : 8 < 4294967224) (by decide : 80 + 8 < 512)
  unfold ataReadStep at hone
  dsimp only at hone
  rw [show 0 + 1 = 1 from rfl, show 4096 + 512 + 440 = 4608 + 432 + 8 from rfl, hone] at h440
  exact absurd h440 (by decide)

/-! ## Volumes -/

/-- A volume on a master, which begins at a sector as the partitions of a master boot record do. -/
structure AtaVolume (device : AtaDevice) (sectorBuffer : ℕ) (volume : Volume AtaState) : Prop where
  driver : volume.driver = ataDriver device sectorBuffer
  present : device.present = true
  lba : device.lbaSupported = true
  master : ataIsMaster device = true
  device_lt : device.size < 4294967296
  aligned : volume.offset % 512 = 0
  fits : volume.offset + volume.size ≤ device.size
  sector_pos : 0 < sectorBuffer
  buffer : sectorBuffer + 512 + volume.size ≤ 4294967296

/-- The first partition of a drive of 1 MiB. -/
example : AtaVolume (presentDrive .primaryMaster) 4096
    ⟨512, 8192, ataDriver (presentDrive .primaryMaster) 4096⟩ :=
  ⟨rfl, rfl, rfl, rfl, by decide, rfl, by decide, by decide, by decide⟩

section
variable {σ : Type} {device : AtaDevice} {sectorBuffer : ℕ} {env : FsEnv σ AtaState}

/-- The bytes of the drive in the volume. -/
def ataVolumeBytes (device : AtaDevice) (env : FsEnv σ AtaState) : Mem :=
  fun x => env.device.bus.byte device.drive (env.volume.offset + x)

/-- **A volume on a master reads whole sectors exactly.** -/
theorem ataVolume_readsSectors (h : AtaVolume device sectorBuffer env.volume) :
    env.ReadsSectors (ataVolumeBytes device env) := by
  obtain ⟨hdriver, hp, hl, hm, hd, haligned, hfits, h0, hb⟩ := h
  intro offset size data ho hs hpos hle
  have hrequest : volumeRequest env.volume offset size = some ⟨env.volume.offset + offset, size⟩ := by
    rw [volumeRequest, if_neg (by omega), u32_of_lt (show offset + size < 4294967296 by omega),
      if_neg (by omega), u32_of_lt (by omega)]
  rw [FsEnv.read, volumeRead, hrequest, hdriver]
  have hserved : AtaServed device (env.volume.offset + offset) size :=
    ⟨⟨hpos, by omega⟩, hm, Or.inl (by omega)⟩
  dsimp only
  rw [ataDriver_served hp hl hd h0 (by omega) hserved]
  refine congrArg (Prod.mk _) (funext fun j => ?_)
  by_cases hj : j < size
  · rw [Mem.copyFrom_in (Nat.zero_le _) (by omega), Mem.copyFrom_in (Nat.zero_le _) (by omega),
      ataVolumeBytes, Nat.add_assoc]
  · rw [Mem.copyFrom_out (Or.inr (by omega)), Mem.copyFrom_out (Or.inr (by omega))]

/-- An ext2 file system that is mounted from such a volume. -/
theorem ataVolume_wellFormed {machine : Machine σ AtaState} {filesystem : VfsFilesystem AtaState}
    (h : AtaVolume device sectorBuffer filesystem.volume) {blocks : ℕ → List (List Ext2Format.DirEntry)}
    (hv : Ext2Volume (ataVolumeBytes device (machine.env filesystem)) blocks filesystem.volume.size)
    {ptr : ℕ} (hdata : filesystem.fsData =
      .ext2 ptr (ext2Data (ataVolumeBytes device (machine.env filesystem)))) :
    (VolumeImage.ext2 (ataVolumeBytes device (machine.env filesystem)) blocks).WellFormed machine
      filesystem :=
  ⟨hv, ataVolume_readsSectors h, ptr, hdata⟩

end

end Ttos
