/-
  The script that writes the image of the initial ramdisk (mkinitrd.py).

  * `mkinitrd_eq_some`: the image of a list of files, and when the script writes one.
  * `hasBytes_fileHeader`, `hasBytes_contents`: where the file headers and the
    files lie in it.
-/
import Mathlib.Data.List.Basic
import Ttos.Lib.Bytes

namespace Ttos

-- Over a list, not over every character.
instance decidableForallMemChars (p : Char → Prop) [DecidablePred p] (chars : List Char) :
    Decidable (∀ c ∈ chars, p c) :=
  List.decidableBAll p chars

/-- A file of the input directory.  The system's file names hold no NUL. -/
structure InputFile where
  name : String
  contents : List UInt8
  noNul : ∀ c ∈ name.toList, c.toNat ≠ 0

namespace Mkinitrd

/-- `INITRD_HEADER_MAGIC` -/
abbrev initrdHeaderMagic : ℕ := 0xCAFE

/-- `INITFS_HEADER_MAGIC` -/
abbrev initfsHeaderMagic : ℕ := 0xDEAD

/-- `INITFS_FILE_HEADER_MAGIC` -/
abbrev initfsFileHeaderMagic : ℕ := 0xBEEF

/-- `struct.pack("<H", n)`; `none` is an exception. -/
def packH (n : ℕ) : Option (List UInt8) := if n < 65536 then some (Mem.bytes16 n) else none

/-- `struct.pack("<I", n)` -/
def packI (n : ℕ) : Option (List UInt8) := if n < 4294967296 then some (Mem.bytes32 n) else none

/-- `name.encode("ascii")` -/
def encodeAscii (name : String) : Option (List UInt8) :=
  if ∀ c ∈ name.toList, c.toNat < 128 then some (name.toList.map fun c => UInt8.ofNat c.toNat)
  else none

/-- `InitrdHeader.pack` -/
def packInitrdHeader : Option (List UInt8) := packH initrdHeaderMagic

/-- `InitfsHeader.size` -/
abbrev initfsHeaderSize : ℕ := 6

/-- `InitfsHeader.pack` -/
def packInitfsHeader (fileCount : ℕ) : Option (List UInt8) := do
  pure ((← packH initfsHeaderMagic) ++ (← packI fileCount))

/-- `InitfsFileHeader.size` -/
abbrev initfsFileHeaderSize : ℕ := 74

/-- `InitfsFileHeader(name, offset, length).pack()` -/
def packInitfsFileHeader (name : String) (offset length : ℕ) : Option (List UInt8) :=
  if name.toList.length > 64 then none
  else do
    let nameEncoded := (← encodeAscii name) ++ List.replicate (64 - name.toList.length) 0
    pure ((← packH initfsFileHeaderMagic) ++ (nameEncoded ++ ((← packI offset) ++ (← packI length))))

/-- The first loop of `main`: the file headers, with the offset running on. -/
def writeFileHeaders : ℕ → List InputFile → Option (List UInt8)
  | _, [] => some []
  | offset, file :: files => do
    let header ← packInitfsFileHeader file.name offset file.contents.length
    pure (header ++ (← writeFileHeaders (offset + file.contents.length) files))

/-- `main`: the image, or `none` where the script ends with an exception. -/
def mkinitrd (inputFiles : List InputFile) : Option (List UInt8) := do
  let initrdHeader ← packInitrdHeader
  let initfsHeader ← packInitfsHeader inputFiles.length
  let offset := initfsHeaderSize + inputFiles.length * initfsFileHeaderSize
  let fileHeaders ← writeFileHeaders offset inputFiles
  pure (initrdHeader ++ (initfsHeader ++ (fileHeaders ++ inputFiles.flatMap (·.contents))))

/-! ## The image -/

/-- The bytes of a name the script accepts. -/
def nameBytes (file : InputFile) : List UInt8 := file.name.toList.map fun c => UInt8.ofNat c.toNat

/-- The file header of `file` at `offset`. -/
def fileHeaderBytes (file : InputFile) (offset : ℕ) : List UInt8 :=
  Mem.bytes16 initfsFileHeaderMagic ++
    ((nameBytes file ++ List.replicate (64 - file.name.toList.length) 0) ++
      (Mem.bytes32 offset ++ Mem.bytes32 file.contents.length))

def fileHeadersBytes : ℕ → List InputFile → List UInt8
  | _, [] => []
  | offset, file :: files =>
    fileHeaderBytes file offset ++ fileHeadersBytes (offset + file.contents.length) files

/-- The offset of file `i`, from the end of the image's first header on. -/
def fileOffset (files : List InputFile) (i : ℕ) : ℕ :=
  6 + files.length * 74 + ((files.take i).map (·.contents.length)).sum

/-- The script accepts the file at that offset. -/
structure Accepts (file : InputFile) (offset : ℕ) : Prop where
  name_le : file.name.toList.length ≤ 64
  ascii : ∀ c ∈ file.name.toList, c.toNat < 128
  offset_lt : offset < 4294967296
  length_lt : file.contents.length < 4294967296

variable {files : List InputFile} {file : InputFile} {offset n : ℕ} {bytes image : List UInt8}

theorem packH_eq_some : packH n = some bytes ↔ n < 65536 ∧ Mem.bytes16 n = bytes := by
  unfold packH
  split <;> simp_all

theorem packI_eq_some : packI n = some bytes ↔ n < 4294967296 ∧ Mem.bytes32 n = bytes := by
  unfold packI
  split <;> simp_all

theorem packInitfsFileHeader_eq_some :
    packInitfsFileHeader file.name offset file.contents.length = some bytes ↔
      Accepts file offset ∧ fileHeaderBytes file offset = bytes := by
  unfold packInitfsFileHeader encodeAscii
  constructor
  · intro h
    split at h
    · exact absurd h (by simp)
    · rename_i hn
      simp only [bind, Option.bind_eq_some_iff, pure, packH_eq_some, packI_eq_some,
        Option.some.injEq] at h
      obtain ⟨_, hc, _, ⟨-, rfl⟩, _, ⟨ho, rfl⟩, _, ⟨hl, rfl⟩, rfl⟩ := h
      split at hc
      · rename_i ha
        obtain rfl := Option.some.inj hc
        exact ⟨⟨not_lt.1 hn, ha, ho, hl⟩, rfl⟩
      · exact absurd hc (by simp)
  · rintro ⟨⟨h1, h2, h3, h4⟩, rfl⟩
    have hI : ∀ n < 4294967296, packI n = some (Mem.bytes32 n) := fun n h =>
      packI_eq_some.2 ⟨h, rfl⟩
    rw [if_neg (not_lt.2 h1), if_pos h2, hI _ h3, hI _ h4]
    rfl

theorem writeFileHeaders_eq_some : writeFileHeaders offset files = some bytes ↔
    (∀ i (h : i < files.length),
      Accepts files[i] (offset + ((files.take i).map (·.contents.length)).sum)) ∧
    fileHeadersBytes offset files = bytes := by
  induction files generalizing offset bytes with
  | nil => simp [writeFileHeaders, fileHeadersBytes]
  | cons file files ih =>
    simp only [writeFileHeaders, bind, Option.bind_eq_some_iff, pure, Option.some.injEq,
      packInitfsFileHeader_eq_some, ih]
    constructor
    · rintro ⟨_, ⟨h1, rfl⟩, _, ⟨h2, rfl⟩, rfl⟩
      refine ⟨fun i hi => ?_, rfl⟩
      cases i with
      | zero => simpa using h1
      | succ i =>
        have := h2 i (by simpa using hi)
        simpa [Nat.add_assoc] using this
    · rintro ⟨h, rfl⟩
      have h0 : Accepts file offset := h 0 (Nat.zero_lt_succ _)
      refine ⟨_, ⟨h0, rfl⟩, _, ⟨fun i hi => ?_, rfl⟩, rfl⟩
      have := h (i + 1) (by simpa using hi)
      simpa [Nat.add_assoc] using this

/-- **The image** of a list of files, and when the script writes one. -/
theorem mkinitrd_eq_some : mkinitrd files = some image ↔
    files.length < 4294967296 ∧
    (∀ i (h : i < files.length), Accepts files[i] (fileOffset files i)) ∧
    Mem.bytes16 initrdHeaderMagic ++ ((Mem.bytes16 initfsHeaderMagic ++ Mem.bytes32 files.length) ++
      (fileHeadersBytes (6 + files.length * 74) files ++ files.flatMap (·.contents))) = image := by
  simp only [mkinitrd, packInitrdHeader, packInitfsHeader, bind, Option.bind_eq_some_iff, pure,
    Option.some.injEq, packH_eq_some, packI_eq_some, writeFileHeaders_eq_some, fileOffset]
  constructor
  · rintro ⟨_, ⟨-, rfl⟩, _, ⟨_, ⟨-, rfl⟩, _, ⟨h1, rfl⟩, rfl⟩, _, ⟨h2, rfl⟩, h3⟩
    exact ⟨h1, h2, h3⟩
  · rintro ⟨h1, h2, h3⟩
    exact ⟨_, ⟨by decide, rfl⟩, _, ⟨_, ⟨by decide, rfl⟩, _, ⟨h1, rfl⟩, rfl⟩, _, ⟨h2, rfl⟩, h3⟩

/-! ## Where things lie -/

theorem fileHeaderBytes_length (h : file.name.toList.length ≤ 64) :
    (fileHeaderBytes file offset).length = 74 := by
  simp only [fileHeaderBytes, List.length_append, nameBytes, List.length_map, List.length_replicate,
    Mem.bytes16, Mem.bytes32, List.length_cons, List.length_nil]
  omega

theorem fileHeadersBytes_length (h : ∀ file ∈ files, file.name.toList.length ≤ 64) :
    (fileHeadersBytes offset files).length = files.length * 74 := by
  induction files generalizing offset with
  | nil => rfl
  | cons file files ih =>
    rw [fileHeadersBytes, List.length_append, fileHeaderBytes_length (h file (by simp)),
      ih fun x hx => h x (by simp [hx]), List.length_cons]
    omega

theorem hasBytes_fileHeader {m : Mem} {a : ℕ} (hn : ∀ file ∈ files, file.name.toList.length ≤ 64)
    (h : m.HasBytes a (fileHeadersBytes offset files)) {i : ℕ} (hi : i < files.length) :
    m.HasBytes (a + i * 74)
      (fileHeaderBytes files[i] (offset + ((files.take i).map (·.contents.length)).sum)) := by
  induction files generalizing offset a i with
  | nil => exact absurd hi (by simp)
  | cons file files ih =>
    obtain ⟨h1, h2⟩ := Mem.hasBytes_append.1 h
    rw [fileHeaderBytes_length (hn file (by simp))] at h2
    cases i with
    | zero => simpa using h1
    | succ i =>
      have := ih (fun x hx => hn x (by simp [hx])) h2 (by simpa using hi)
      rw [show a + 74 + i * 74 = a + (i + 1) * 74 by omega] at this
      simpa [Nat.add_assoc] using this

theorem hasBytes_contents {m : Mem} {a : ℕ} (h : m.HasBytes a (files.flatMap (·.contents))) {i : ℕ}
    (hi : i < files.length) :
    m.HasBytes (a + ((files.take i).map (·.contents.length)).sum) files[i].contents := by
  induction files generalizing a i with
  | nil => exact absurd hi (by simp)
  | cons file files ih =>
    rw [List.flatMap_cons] at h
    obtain ⟨h1, h2⟩ := Mem.hasBytes_append.1 h
    cases i with
    | zero => simpa using h1
    | succ i =>
      have := ih h2 (by simpa using hi)
      simpa [Nat.add_assoc] using this

theorem contents_sum_le {i : ℕ} (hi : i < files.length) :
    ((files.take i).map (·.contents.length)).sum + files[i].contents.length ≤
      (files.flatMap (·.contents)).length := by
  induction files generalizing i with
  | nil => exact absurd hi (by simp)
  | cons file files ih =>
    rw [List.flatMap_cons, List.length_append]
    cases i with
    | zero => simp
    | succ i =>
      have := ih (i := i) (by simpa using hi)
      simp only [List.take_succ_cons, List.map_cons, List.sum_cons, List.getElem_cons_succ]
      omega

end Mkinitrd

end Ttos
