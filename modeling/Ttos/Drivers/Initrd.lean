/-
  The driver of the initial ramdisk (initrd.c).

  * `initrdDriver_storesWithin`: reading stores nothing behind the bytes asked for.
-/
import Ttos.Device.Volume
import Ttos.Lib.Bytes

namespace Ttos

/-- The ramdisk behind its 2-byte header: `initrd_base` and `initrd_size`. -/
structure Initrd where
  base : Mem
  size : ℕ

/-- `INITRD_HEADER_MAGIC` -/
abbrev initrdHeaderMagic : ℕ := 0xCAFE

/-- `initrd_init`, of the image at the start of `memory`; `none` is `-1`. -/
def initrdInit (memory : Mem) (memorySize : ℕ) : Option Initrd :=
  if memory.load16 0 ≠ initrdHeaderMagic then none
  else some { base := fun a => memory (2 + a), size := sub32 memorySize 2 }

/-- The size `initrd_read` copies. -/
def initrdClamp (initrd : Initrd) (offset size : ℕ) : ℕ :=
  if initrd.size < u32 (offset + size) then initrd.size - offset else size

def initrdRead (initrd : Initrd) (offset size : ℕ) (buffer : Mem) : ℕ × Mem :=
  if initrd.size < offset then (0, buffer)
  else (initrdClamp initrd offset size,
    buffer.copyFrom 0 initrd.base offset (initrdClamp initrd offset size))

def initrdDriver : StorageDriver Initrd where
  totalSize initrd := initrd.size
  read := initrdRead
  write initrd _ _ _ := (0, initrd)

theorem initrdClamp_le {initrd : Initrd} {offset : ℕ} (size : ℕ) (h : offset ≤ initrd.size) :
    initrdClamp initrd offset size ≤ size := by
  have hu : u32 (offset + size) ≤ offset + size := Nat.mod_le _ _
  rw [initrdClamp]
  split <;> omega

theorem initrdDriver_storesWithin (initrd : Initrd) {r : DriverRequest} {n : ℕ} (h : r.size ≤ n)
    (buffer : Mem) : initrdDriver.StoresWithin initrd r n buffer := by
  intro j hj
  change (initrdRead initrd r.offset r.size buffer).2 j = buffer j
  rw [initrdRead]
  split
  · rfl
  · have hle := initrdClamp_le r.size (Nat.not_lt.1 ‹_›)
    exact Mem.copyFrom_out (Or.inr (by omega))

end Ttos
