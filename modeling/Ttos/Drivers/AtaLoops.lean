/-
  The loops of ata_write and ata_read.

  * `ataCopies`, `ataLoopEnd`: the local variables of the loops, which do not depend
    on what is transferred.  From the second sector on the copies begin at the
    offset of the first.
  * `total_ataLoopEnd`: the number of bytes that is returned.
  * `ataWriteLoop_data`, `ataReadLoop_data`: what the loops transfer when the request
    is aligned or lies in one sector.
-/
import Ttos.Drivers.AtaSector

namespace Ttos

/-! ## The local variables -/

section
variable {first firstOffset last lastOffset n sector : ℕ} {l : AtaLoop}

/-- The local variables at each `memcpy`. -/
def ataCopies (first firstOffset last lastOffset : ℕ) : (n sector : ℕ) → AtaLoop → List AtaLoop
  | 0, _, _ => []
  | n + 1, sector, l =>
    let l := l.locate sector first firstOffset last lastOffset
    l :: ataCopies first firstOffset last lastOffset n (sector + 1) l.advance

/-- The local variables at the end. -/
def ataLoopEnd (first firstOffset last lastOffset : ℕ) : (n sector : ℕ) → AtaLoop → AtaLoop
  | 0, _, l => l
  | n + 1, sector, l =>
    let l := l.locate sector first firstOffset last lastOffset
    ataLoopEnd first firstOffset last lastOffset n (sector + 1) l.advance

theorem ataWriteLoop_fst (device : AtaDevice) (sectorBuffer : ℕ) (s : AtaState) :
    (ataWriteLoop device sectorBuffer first firstOffset last lastOffset n sector l s).1 =
      ataLoopEnd first firstOffset last lastOffset n sector l := by
  induction n generalizing sector l s with
  | zero => rfl
  | succ n ih =>
    rw [ataWriteLoop, ataLoopEnd]
    exact ih _

theorem ataReadLoop_fst (device : AtaDevice) (sectorBuffer : ℕ) (s : AtaState) :
    (ataReadLoop device sectorBuffer first firstOffset last lastOffset n sector l s).1 =
      ataLoopEnd first firstOffset last lastOffset n sector l := by
  induction n generalizing sector l s with
  | zero => rfl
  | succ n ih =>
    rw [ataReadLoop, ataLoopEnd]
    exact ih _

/-- The loop is at its first sector, or has the offset and the size of a full one. -/
def AtaLoop.Steady (l : AtaLoop) (sector first firstOffset : ℕ) : Prop :=
  sector = first ∨ l.offset = firstOffset ∧ l.size = 512 - firstOffset

@[simp] theorem locate_pointer :
    (l.locate sector first firstOffset last lastOffset).pointer = l.pointer := by
  unfold AtaLoop.locate
  dsimp only
  split_ifs <;> rfl

@[simp] theorem locate_total :
    (l.locate sector first firstOffset last lastOffset).total = l.total := by
  unfold AtaLoop.locate
  dsimp only
  split_ifs <;> rfl

theorem locate_offset (h : l.Steady sector first firstOffset) :
    (l.locate sector first firstOffset last lastOffset).offset = firstOffset := by
  unfold AtaLoop.locate
  dsimp only
  rcases h with h | ⟨h, -⟩
  · rw [if_pos h]
    split_ifs <;> rfl
  · split_ifs <;> first | rfl | exact h

theorem locate_size (hf : firstOffset < 512) (h : l.Steady sector first firstOffset) :
    (l.locate sector first firstOffset last lastOffset).size =
      if sector = last then u32 (sub32 lastOffset firstOffset + 1) else 512 - firstOffset := by
  have hfull : sub32 ataSectorSize firstOffset = 512 - firstOffset := by
    simp only [sub32, u32, ataSectorSize]
    omega
  unfold AtaLoop.locate
  dsimp only
  rcases h with h | ⟨h, h'⟩
  · rw [if_pos h]
    split_ifs
    · rfl
    · exact hfull
  · by_cases hl : sector = last
    · rw [if_pos hl, if_pos hl]
      dsimp only
      by_cases hs : sector = first
      · rw [if_pos hs]
      · rw [if_neg hs, h]
    · rw [if_neg hl, if_neg hl]
      by_cases hs : sector = first
      · rw [if_pos hs]
        exact hfull
      · rw [if_neg hs]
        exact h'

/-- Every sector but the last leaves the offset and the size of a full one. -/
theorem steady_next (hf : firstOffset < 512) (h : l.Steady sector first firstOffset)
    (hl : sector ≠ last) :
    (l.locate sector first firstOffset last lastOffset).advance.Steady (sector + 1) first
      firstOffset := by
  refine Or.inr ⟨locate_offset h, ?_⟩
  show (l.locate sector first firstOffset last lastOffset).size = _
  rw [locate_size hf h, if_neg hl]

/-- No copy leaves the sector buffer, when the last sector ends behind the offset. -/
theorem copies_le (hf : firstOffset < 512) (hlo : lastOffset < 512)
    (hle : firstOffset ≤ lastOffset + 1) (hn : sector + n = last + 1)
    (h : l.Steady sector first firstOffset) :
    ∀ c ∈ ataCopies first firstOffset last lastOffset n sector l, c.offset + c.size ≤ 512 := by
  induction n generalizing sector l with
  | zero =>
    intro c hc
    cases hc
  | succ n ih =>
    intro c hc
    rcases List.mem_cons.1 hc with rfl | hc
    · rw [locate_offset h, locate_size hf h]
      split
      · simp only [sub32, u32]
        omega
      · omega
    · cases n with
      | zero => cases hc
      | succ n => exact ih (by omega) (steady_next hf h (by omega)) c hc

/-- **The bytes counted**: as many for each sector as for the first, and those of the
    last. -/
theorem total_ataLoopEnd (hf : firstOffset < 512) (hn : sector + n = last)
    (h : l.Steady sector first firstOffset) :
    (ataLoopEnd first firstOffset last lastOffset (n + 1) sector l).total =
      u32 (l.total + n * (512 - firstOffset) + u32 (sub32 lastOffset firstOffset + 1)) := by
  induction n generalizing sector l with
  | zero =>
    show u32 ((l.locate sector first firstOffset last lastOffset).total +
      (l.locate sector first firstOffset last lastOffset).size) = _
    rw [locate_total, locate_size hf h, if_pos (show sector = last from hn), Nat.zero_mul]
    rfl
  | succ n ih =>
    rw [ataLoopEnd, ih (by omega) (steady_next hf h (by omega))]
    show u32 (u32 ((l.locate sector first firstOffset last lastOffset).total +
      (l.locate sector first firstOffset last lastOffset).size) + _ + _) = _
    rw [locate_total, locate_size hf h, if_neg (by omega), Nat.succ_mul]
    unfold u32
    omega

end

/-! ## One sector -/

/-- Byte `x` of a drive. -/
def AtaBus.byte (bus : AtaBus) (drive : AtaDrive) (x : ℕ) : UInt8 :=
  bus.disks drive (x / 512) (x % 512)

section
variable {sector a e : ℕ}

/-- The body of the loop of `ata_write`. -/
def ataWriteStep (device : AtaDevice) (sectorBuffer sector : ℕ) (l : AtaLoop) (s : AtaState) :
    AtaState :=
  let s := ataReadSectorLba28 device sector sectorBuffer s
  ataWriteSectorLba28 device sector sectorBuffer
    { s with mem := s.mem.copy (sectorBuffer + l.offset) l.pointer l.size }

/-- The body of the loop of `ata_read`. -/
def ataReadStep (device : AtaDevice) (sectorBuffer sector : ℕ) (l : AtaLoop) (s : AtaState) :
    AtaState :=
  let s := ataReadSectorLba28 device sector sectorBuffer s
  { s with mem := s.mem.copy l.pointer (sectorBuffer + l.offset) l.size }

/-- The bytes from `a` to `e` of the sector come from memory. -/
theorem ataWriteStep_data (device : AtaDevice) (sectorBuffer : ℕ) (l : AtaLoop) (s : AtaState)
    (hs : sector < 268435456) (ha : 512 * sector ≤ a) (hae : a ≤ e) (he : e ≤ 512 * sector + 512)
    (hoff : l.offset = a - 512 * sector) (hsize : l.size = e - a) :
    (∀ x, a ≤ x → x < e →
      l.pointer + (x - a) < sectorBuffer ∨ sectorBuffer + 512 ≤ l.pointer + (x - a) →
      (ataWriteStep device sectorBuffer sector l s).bus.byte (ataMaster device) x =
        s.mem (l.pointer + (x - a))) ∧
    (∀ x, ¬ (a ≤ x ∧ x < e) →
      (ataWriteStep device sectorBuffer sector l s).bus.byte (ataMaster device) x =
        s.bus.byte (ataMaster device) x) ∧
    ∀ x, x < sectorBuffer ∨ sectorBuffer + 512 ≤ x →
      (ataWriteStep device sectorBuffer sector l s).mem x = s.mem x := by
  obtain ⟨h1, h2⟩ := ataReadSectorLba28_data device sectorBuffer s hs
  generalize hr : ataReadSectorLba28 device sector sectorBuffer s = r at h1 h2
  have hstep : ataWriteStep device sectorBuffer sector l s =
      ataWriteSectorLba28 device sector sectorBuffer
        { r with mem := r.mem.copy (sectorBuffer + l.offset) l.pointer l.size } := by
    rw [ataWriteStep, hr]
  obtain ⟨h3, h4⟩ := ataWriteSectorLba28_data device sectorBuffer
    { r with mem := r.mem.copy (sectorBuffer + l.offset) l.pointer l.size } hs
  rw [hstep]
  dsimp only at h3 h4
  rw [h1] at h4
  refine ⟨?_, ?_, ?_⟩
  · intro x hax hxe hout
    rw [AtaBus.byte, h4, if_pos ⟨rfl, by omega, by omega⟩, Mem.copy, if_pos (by omega)]
    have hx : l.pointer + (sectorBuffer + x % 512 - (sectorBuffer + l.offset)) =
        l.pointer + (x - a) := by omega
    rw [hx, h2, if_neg (by omega)]
  · intro x hx
    rw [AtaBus.byte, h4, AtaBus.byte]
    split
    · rename_i hc
      rw [Mem.copy, if_neg (by omega), h2, if_pos (by omega), hc.2.1, Nat.add_sub_cancel_left]
    · rfl
  · intro x hx
    rw [h3, Mem.copy, if_neg (by omega), h2, if_neg (by omega)]

/-- The bytes from `a` to `e` of the sector go to memory. -/
theorem ataReadStep_data (device : AtaDevice) (sectorBuffer : ℕ) (l : AtaLoop) (s : AtaState)
    (hs : sector < 268435456) (ha : 512 * sector ≤ a) (hae : a ≤ e) (he : e ≤ 512 * sector + 512)
    (hoff : l.offset = a - 512 * sector) (hsize : l.size = e - a) :
    (ataReadStep device sectorBuffer sector l s).bus.disks = s.bus.disks ∧
    (∀ j < e - a, (ataReadStep device sectorBuffer sector l s).mem (l.pointer + j) =
      s.bus.byte (ataMaster device) (a + j)) ∧
    ∀ x, x < sectorBuffer ∨ sectorBuffer + 512 ≤ x → ¬ (l.pointer ≤ x ∧ x < l.pointer + (e - a)) →
      (ataReadStep device sectorBuffer sector l s).mem x = s.mem x := by
  obtain ⟨h1, h2⟩ := ataReadSectorLba28_data device sectorBuffer s hs
  generalize hr : ataReadSectorLba28 device sector sectorBuffer s = r at h1 h2
  have hstep : ataReadStep device sectorBuffer sector l s =
      { r with mem := r.mem.copy l.pointer (sectorBuffer + l.offset) l.size } := by
    rw [ataReadStep, hr]
  rw [hstep]
  dsimp only
  refine ⟨h1, ?_, ?_⟩
  · intro j hj
    have hdiv : (a + j) / 512 = sector := by omega
    have hmod : sectorBuffer + l.offset + (l.pointer + j - l.pointer) - sectorBuffer =
        (a + j) % 512 := by omega
    rw [Mem.copy, if_pos (by omega), h2, if_pos (by omega), AtaBus.byte, hdiv, hmod]
  · intro x hx hout
    rw [Mem.copy, if_neg (by omega), h2, if_neg (by omega)]

end

end Ttos
