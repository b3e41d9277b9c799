/-
  Seeking in a file (file.c).

  * `fileSeek_eq`: what `file_seek` leaves in the descriptor;
  * `file_seek_clamps`: exactly when that is the target clamped to the file;
  * `file_seek_negative`: a target before the start of the file.
-/
import Ttos.Io.FileSpec

namespace Ttos

/-- `FILE_SEEK_CUR` -/
abbrev fileSeekCur : ℤ := 0

/-- `FILE_SEEK_BEGIN` -/
abbrev fileSeekBegin : ℤ := 1

/-- `FILE_SEEK_END` -/
abbrev fileSeekEnd : ℤ := 2

/-- The value of an integer in a `uint32_t`. -/
def toU32 (z : ℤ) : ℕ := (z % 4294967296).toNat

variable {σ δ : Type}

/-- The `switch` of `file_seek`: the new offset, or none for an unknown `whence`. -/
def fileSeekTarget (d : FileDescriptor) (offset whence : ℤ) : Option ℕ :=
  if whence = fileSeekCur then some (toU32 (d.offset + offset))
  else if whence = fileSeekBegin then some (toU32 offset)
  else if whence = fileSeekEnd then some (toU32 (d.size + offset))
  else none

/-- `file_seek`; `offset` and `whence` are `int32_t`. -/
def fileSeek (fd : ℕ) (offset whence : ℤ) : ObjectsM σ δ ℤ := do
  if fd = 0 then pure (-1)
  else
    let d := (← get).files fd
    if d.node = 0 then pure (-1)
    else
      match fileSeekTarget d offset whence with
      | none => pure (-1)
      | some target =>
        -- the offset is unsigned
        let target := if target < 0 then 0 else target
        let target := if d.size < target then d.size else target
        modify fun s => s.setFile fd { d with offset := target }
        pure 0

/-! ## The target -/

/-- What `whence` counts from. -/
def seekBase (d : FileDescriptor) (whence : ℤ) : Option ℤ :=
  if whence = fileSeekCur then some d.offset
  else if whence = fileSeekBegin then some 0
  else if whence = fileSeekEnd then some d.size
  else none

/-- The call returns 0 and moves the descriptor `fd` to `offset`; nothing else changes. -/
def SeeksTo (s : Objects σ δ) (fd : ℕ) (result : Except FsStop (ℤ × Objects σ δ)) (offset : ℤ) :
    Prop :=
  ∃ n : ℕ, (n : ℤ) = offset ∧ result = .ok (0, s.setFile fd { s.files fd with offset := n })

theorem fileSeekTarget_eq (d : FileDescriptor) (offset whence : ℤ) :
    fileSeekTarget d offset whence = (seekBase d whence).map fun base => toU32 (base + offset) := by
  unfold fileSeekTarget seekBase
  split_ifs <;> simp

/-- **What a seek does**: the target in 32 bits, cut off at the end of the file. -/
theorem fileSeek_eq {s : Objects σ δ} {fd : ℕ} (hfd : fd ≠ 0) (hn : (s.files fd).node ≠ 0)
    {offset whence base : ℤ} (hb : seekBase (s.files fd) whence = some base) :
    fileSeek fd offset whence s = .ok (0, s.setFile fd { s.files fd with
      offset := min (toU32 (base + offset)) (s.files fd).size }) := by
  have ht : fileSeekTarget (s.files fd) offset whence = some (toU32 (base + offset)) := by
    rw [fileSeekTarget_eq, hb, Option.map_some]
  have hmin : (if (s.files fd).size < toU32 (base + offset) then (s.files fd).size
      else toU32 (base + offset)) = min (toU32 (base + offset)) (s.files fd).size := by
    rw [min_def]
    split_ifs <;> omega
  rw [fileSeek, if_neg hfd]
  show (if (s.files fd).node = 0 then pure (-1) else _ : ObjectsM σ δ ℤ) s = _
  rw [if_neg hn, ht]
  simp only [Nat.not_lt_zero, if_false, hmin]
  rfl

/-- **A seek clamps exactly when the target is not negative**, or the file is empty: the offset
    is unsigned, so a target before the start of the file is one far behind its end. -/
theorem file_seek_clamps (s : Objects σ δ) (fd : ℕ) (offset whence base : ℤ)
    (hfd : fd ≠ 0) (hn : (s.files fd).node ≠ 0)
    (hpos : (s.files fd).offset ≤ (s.files fd).size) (hsize : (s.files fd).size < 2147483648)
    (hlo : -2147483648 ≤ offset) (hhi : offset < 2147483648)
    (hb : seekBase (s.files fd) whence = some base) :
    SeeksTo s fd (fileSeek fd offset whence s) (max 0 (min (base + offset) (s.files fd).size)) ↔
      0 ≤ base + offset ∨ (s.files fd).size = 0 := by
  have hbase : 0 ≤ base ∧ base ≤ (s.files fd).size := by
    unfold seekBase at hb
    split_ifs at hb <;> obtain rfl := Option.some.inj hb <;> omega
  rw [fileSeek_eq hfd hn hb]
  have hoff : ∀ n m : ℕ, (Except.ok (0, s.setFile fd { s.files fd with offset := n }) :
      Except FsStop (ℤ × Objects σ δ)) = .ok (0, s.setFile fd { s.files fd with offset := m }) →
      n = m := by
    intro n m h
    have h := congrArg (fun o => (o.files fd).offset) (Prod.mk.inj (Except.ok.inj h)).2
    simpa [Objects.setFile] using h
  constructor
  · rintro ⟨n, hn, heq⟩
    have := hoff _ _ heq
    unfold toU32 at this
    omega
  · intro hc
    refine ⟨min (toU32 (base + offset)) (s.files fd).size, ?_, rfl⟩
    unfold toU32
    omega

/-- Three bytes back from byte 4 of the file. -/
theorem file_seek_clamps_back : SeeksTo ramdiskFile 8 (fileSeek 8 (-3) fileSeekCur ramdiskFile) 1 :=
  (file_seek_clamps ramdiskFile 8 (-3) fileSeekCur 4 (by decide) (by decide) (by decide) (by decide)
    (by decide) (by decide) rfl).2 (Or.inl (by decide))

/-- **A negative target ends up at the end of the file**: five bytes back from byte 4. -/
theorem file_seek_negative : seekBase (ramdiskFile.files 8) fileSeekCur = some 4 ∧
    ¬ SeeksTo ramdiskFile 8 (fileSeek 8 (-5) fileSeekCur ramdiskFile)
      (max 0 (min (4 + -5) (ramdiskFile.files 8).size)) := by
  refine ⟨rfl, ?_⟩
  rintro ⟨n, hn, h⟩
  rw [fileSeek_eq (by decide) (by decide) rfl] at h
  have h := congrArg (fun o => (o.files 8).offset) (Prod.mk.inj (Except.ok.inj h)).2
  obtain rfl : (8 : ℕ) = n := h
  revert hn
  decide

end Ttos
