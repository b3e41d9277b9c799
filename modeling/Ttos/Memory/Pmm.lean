/-
  The physical memory manager (pmm.c): a bitmap of the frames in use and their
  number.
-/
import Ttos.Lib.Word

namespace Ttos

/-- `PMM_FRAME_SIZE` -/
abbrev pmmFrameSize : ℕ := 4096

/-- `PMM_FRAMES_PER_BITMAP_BYTE` -/
abbrev pmmFramesPerBitmapByte : ℕ := 8

/-- The static variables of pmm.c that the allocation of frames uses. -/
structure Pmm where
  bitmap : ℕ → UInt8
  numMemoryFrames : ℕ
  numMemoryFramesUsed : ℕ

/-- `pmm_address_to_index` -/
def pmmAddressToIndex (address : ℕ) : ℕ := u32 address / 4096

/-- `pmm_index_to_address` -/
def pmmIndexToAddress (index : ℕ) : ℕ := u32 (index * 4096)

theorem pmmIndexToAddress_addressToIndex {a : ℕ} (h : a < 4294967296) (ha : a % 4096 = 0) :
    pmmIndexToAddress (pmmAddressToIndex a) = a := by
  simp only [pmmIndexToAddress, pmmAddressToIndex, u32]
  omega

namespace Pmm

/-- The bit of the frame in its byte of the bitmap. -/
def bit (frame : ℕ) : UInt8 := 1 <<< UInt8.ofNat (frame % 8)

def testFrame (p : Pmm) (frame : ℕ) : Bool := p.bitmap (frame / 8) &&& bit frame != 0

def setFrame (p : Pmm) (frame : ℕ) : Pmm :=
  if p.testFrame frame then p
  else
    { p with bitmap := fun i => if i = frame / 8 then p.bitmap i ||| bit frame else p.bitmap i,
             numMemoryFramesUsed := u32 (p.numMemoryFramesUsed + 1) }

def unsetFrame (p : Pmm) (frame : ℕ) : Pmm :=
  if !p.testFrame frame then p
  else
    { p with bitmap := fun i => if i = frame / 8 then p.bitmap i &&& ~~~ bit frame else p.bitmap i,
             numMemoryFramesUsed := sub32 p.numMemoryFramesUsed 1 }

/-- `pmm_mark_frame_reserved` -/
def markFrameReserved (p : Pmm) (frameAddr : ℕ) : Pmm := p.setFrame (pmmAddressToIndex frameAddr)

/-- `pmm_mark_frame_available` -/
def markFrameAvailable (p : Pmm) (frameAddr : ℕ) : Pmm := p.unsetFrame (pmmAddressToIndex frameAddr)

/-- The first clear bit of a byte of the bitmap. -/
def freeBit (p : Pmm) (index : ℕ) : Option ℕ :=
  (List.range 8).find? fun bitIndex => p.bitmap index &&& bit bitIndex == 0

/-- The loop of `pmm_find_free_frame`: `n` bytes of the bitmap from `index` on. -/
def findFreeFrom (p : Pmm) : ℕ → ℕ → Option ℕ
  | 0, _ => none
  | n + 1, index =>
    match (if p.bitmap index != 255 then p.freeBit index else none) with
    | some bitIndex => some (index * 8 + bitIndex)
    | none => findFreeFrom p n (index + 1)

/-- `pmm_find_free_frame`; `none` is `-1`. -/
def findFreeFrame (p : Pmm) : Option ℕ := p.findFreeFrom (p.numMemoryFrames / 8) 0

/-- `pmm_alloc_frame`: the frame's address, or `0`. -/
def allocFrame (p : Pmm) : ℕ × Pmm :=
  if p.numMemoryFrames ≤ p.numMemoryFramesUsed then (0, p)
  else
    match p.findFreeFrame with
    | none => (0, p)
    | some frame => (pmmIndexToAddress frame, p.setFrame frame)

/-- `pmm_free_frame` -/
def freeFrame (p : Pmm) (frameAddr : ℕ) : Pmm := p.unsetFrame (pmmAddressToIndex frameAddr)

end Pmm

end Ttos
