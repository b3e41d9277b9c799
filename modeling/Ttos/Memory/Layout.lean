/-
  The virtual address space: pages, alignment and the split into user and
  kernel space (paging.h, vmm.h).
-/
import Ttos.Lib.Word

namespace Ttos

/-- `PAGE_SIZE` -/
abbrev pageSize : ℕ := 4096

/-- `VMM_IS_ALIGNED` -/
def vmmIsAligned (address : ℕ) : Bool := address % 4096 == 0

/-- `VMM_ALIGN_UP` -/
def vmmAlignUp (address : ℕ) : ℕ := u32 (address + 4095) / 4096 * 4096

/-- `VMM_ALIGN_DOWN` -/
def vmmAlignDown (address : ℕ) : ℕ := address / 4096 * 4096

/-- `VMM_USER_SPACE_BASE` -/
abbrev vmmUserSpaceBase : ℕ := 0x00001000

/-- `VMM_USER_SPACE_SIZE` -/
abbrev vmmUserSpaceSize : ℕ := 0xBFFFF000

/-- `VMM_KERNEL_SPACE_BASE` -/
abbrev vmmKernelSpaceBase : ℕ := 0xC0000000

/-- `VMM_KERNEL_SPACE_SIZE` -/
abbrev vmmKernelSpaceSize : ℕ := 0x3FFFFFFF

/-- `VMM_REAL_MODE_MEMORY_BASE` -/
abbrev vmmRealModeMemoryBase : ℕ := 0xC0000000

/-- `VMM_REAL_MODE_MEMORY_SIZE` -/
abbrev vmmRealModeMemorySize : ℕ := 0x00100000

theorem vmmIsAligned_iff {a : ℕ} : vmmIsAligned a = true ↔ a % 4096 = 0 := by simp [vmmIsAligned]

theorem vmmAlignUp_mod (a : ℕ) : vmmAlignUp a % 4096 = 0 := Nat.mul_mod_left _ _

theorem vmmAlignDown_mod (a : ℕ) : vmmAlignDown a % 4096 = 0 := Nat.mul_mod_left _ _

theorem vmmAlignDown_le (a : ℕ) : vmmAlignDown a ≤ a := Nat.div_mul_le_self a 4096

end Ttos
