/-
  Volumes: windows on storage devices (volume.c, storage.h).

  * `volume_confined`: exactly when the request passed to the driver stays in
    the volume's window;
  * `volume_escapes`: a request that does not.
-/
import Mathlib.Data.UInt
import Ttos.Lib.Word

namespace Ttos

/-- `storage_driver_t` over devices with contents `δ`.  A read is given what the
    caller's buffer holds and returns it with the bytes it stored. -/
structure StorageDriver (δ : Type*) where
  totalSize : δ → ℕ
  read : δ → (offset size : ℕ) → (ℕ → UInt8) → ℕ × (ℕ → UInt8)
  write : δ → (offset size : ℕ) → (ℕ → UInt8) → ℕ × δ

/-- `volume_t` -/
structure Volume (δ : Type*) where
  offset : ℕ
  size : ℕ
  driver : StorageDriver δ

/-- A request to a driver. -/
structure DriverRequest where
  offset : ℕ
  size : ℕ
deriving DecidableEq, Repr

variable {δ : Type*}

/-- The part `volume_read` and `volume_write` share: the request they pass on,
    or none where they return 0. -/
def volumeRequest (volume : Volume δ) (offset size : ℕ) : Option DriverRequest :=
  if volume.size < offset then none
  else
    let size := if volume.size < u32 (offset + size) then volume.size - offset else size
    some ⟨u32 (volume.offset + offset), size⟩

def volumeRead (volume : Volume δ) (device : δ) (offset size : ℕ) (buffer : ℕ → UInt8) :
    ℕ × (ℕ → UInt8) :=
  match volumeRequest volume offset size with
  | none => (0, buffer)
  | some r => volume.driver.read device r.offset r.size buffer

def volumeWrite (volume : Volume δ) (device : δ) (offset size : ℕ) (buffer : ℕ → UInt8) :
    ℕ × δ :=
  match volumeRequest volume offset size with
  | none => (0, device)
  | some r => volume.driver.write device r.offset r.size buffer

/-- What reading relies on: the driver stores nothing behind the first `n` bytes of the buffer
    when it serves the request. -/
def StorageDriver.StoresWithin (driver : StorageDriver δ) (device : δ) (r : DriverRequest) (n : ℕ)
    (buffer : ℕ → UInt8) : Prop :=
  ∀ j, n ≤ j → (driver.read device r.offset r.size buffer).2 j = buffer j

theorem volumeRequest_size_le {volume : Volume δ} {offset n : ℕ} {r : DriverRequest}
    (h : volumeRequest volume offset n = some r) : r.size ≤ n := by
  have hle : u32 (offset + n) ≤ offset + n := Nat.mod_le _ _
  rw [volumeRequest] at h
  split at h
  · cases h
  · cases h
    dsimp only
    split <;> omega

/-! ## The window -/

/-- The fields are 32-bit values. -/
structure Volume.InRange (volume : Volume δ) : Prop where
  offset_lt : volume.offset < 4294967296
  size_lt : volume.size < 4294967296

/-- The request lies in the volume's window, as exact integers. -/
def Confined (volume : Volume δ) (r : DriverRequest) : Prop :=
  volume.offset ≤ r.offset ∧ r.offset + r.size ≤ volume.offset + volume.size

/-- Neither of the two sums wraps without the clamp noticing. -/
def NoWrap (volume : Volume δ) (offset size : ℕ) : Prop :=
  volume.offset + offset < 4294967296 ∧
    (offset + size < 4294967296 ∨ volume.size < u32 (offset + size))

theorem volumeRequest_none {volume : Volume δ} {offset size : ℕ} (h : volume.size < offset) :
    volumeRequest volume offset size = none := if_pos h

/-- The request of an offset inside the volume: the driver's offset, and a size
    that is either cut at the volume's end or the caller's. -/
theorem volumeRequest_some (volume : Volume δ) {offset : ℕ} (size : ℕ) (h : offset ≤ volume.size) :
    ∃ n, volumeRequest volume offset size = some ⟨u32 (volume.offset + offset), n⟩ ∧
      (volume.size < u32 (offset + size) ∧ n = volume.size - offset ∨
        u32 (offset + size) ≤ volume.size ∧ n = size) := by
  refine ⟨_, if_neg (Nat.not_lt.2 h), ?_⟩
  split
  · rename_i hc; exact Or.inl ⟨hc, rfl⟩
  · rename_i hc; exact Or.inr ⟨Nat.not_lt.1 hc, rfl⟩

/-- The driver's offset is in the window as long as its sum does not wrap. -/
theorem offset_confined {volume : Volume δ} (hv : volume.InRange) {offset : ℕ}
    (ho : offset < 4294967296) :
    volume.offset ≤ u32 (volume.offset + offset) ↔ volume.offset + offset < 4294967296 := by
  have := hv.offset_lt
  constructor
  · intro h
    by_contra hw
    have : u32 (volume.offset + offset) = volume.offset + offset - 4294967296 := by
      unfold u32; omega
    omega
  · intro h
    rw [u32_of_lt h]
    omega

/-- **A volume's requests stay in its window** unless a sum wraps. -/
theorem volume_confined (volume : Volume δ) (hv : volume.InRange) (offset size : ℕ)
    (ho : offset < 4294967296) (hs : size < 4294967296) :
    (∀ r, volumeRequest volume offset size = some r → Confined volume r) ↔
      volume.size < offset ∨ NoWrap volume offset size := by
  rcases Nat.lt_or_ge volume.size offset with h | h
  · rw [volumeRequest_none h]
    exact ⟨fun _ => Or.inl h, fun _ r hr => nomatch hr⟩
  obtain ⟨n, hr, hn⟩ := volumeRequest_some volume size h
  rw [hr]
  have hlt := u32_lt (offset + size)
  constructor
  · intro hc
    obtain ⟨h1, h2⟩ := hc _ rfl
    have hw := (offset_confined hv ho).1 h1
    refine Or.inr ⟨hw, ?_⟩
    rw [u32_of_lt hw] at h2
    dsimp only at h2
    rcases hn with ⟨hclamp, -⟩ | ⟨-, rfl⟩
    · exact Or.inr hclamp
    · have := hv.size_lt
      exact Or.inl (by omega)
  · rintro (hbad | ⟨hw, hsum⟩) r ⟨⟩
    · omega
    refine ⟨(offset_confined hv ho).2 hw, ?_⟩
    rw [u32_of_lt hw]
    show volume.offset + offset + n ≤ volume.offset + volume.size
    rcases hn with ⟨-, rfl⟩ | ⟨hle, rfl⟩
    · omega
    · rcases hsum with hsum | hsum
      · rw [u32_of_lt hsum] at hle; omega
      · omega

/-- A partition of 1 MiB behind the first MiB of a device. -/
def secondPartition : Volume Unit where
  offset := 1048576
  size := 1048576
  driver := ⟨fun _ => 16777216, fun _ _ size buffer => (size, buffer), fun _ _ size _ => (size, ())⟩

theorem secondPartition_inRange : secondPartition.InRange := ⟨by decide, by decide⟩

/-- A read across the end of the partition is cut there. -/
theorem volume_confined_tail :
    volumeRequest secondPartition 1048064 1024 = some ⟨2096640, 512⟩ ∧
      Confined secondPartition ⟨2096640, 512⟩ := by
  have hr : volumeRequest secondPartition 1048064 1024 = some ⟨2096640, 512⟩ := by decide
  exact ⟨hr, (volume_confined secondPartition secondPartition_inRange 1048064 1024 (by decide)
    (by decide)).2 (Or.inr ⟨by decide, Or.inl (by decide)⟩) _ hr⟩

/-- **A size near `2 ^ 32` escapes the window**: offset and size add up to zero, so
    the clamp does not cut them and the driver is asked for almost 4 GiB. -/
theorem volume_escapes : ¬ ∀ (volume : Volume Unit) (offset size : ℕ), volume.InRange →
    offset < 4294967296 → size < 4294967296 →
    ∀ r, volumeRequest volume offset size = some r → Confined volume r := by
  intro h
  have := (h secondPartition 4096 4294963200 secondPartition_inRange (by decide) (by decide)
    ⟨1052672, 4294963200⟩ rfl).2
  revert this
  decide

end Ttos
