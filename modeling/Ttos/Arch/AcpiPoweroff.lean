/-
  Powering off (acpi.c: acpi_init_poweroff, acpi_poweroff).

  The code is written for any way to read a byte of a table, by its offset.  The sleep types
  go through fields of 8 bits after they were shifted by 10, so nothing is left of them.

  * `S5Package`: the AML that the code looks for.
  * `acpiInitPoweroff_id`: what the code makes of it.
  * `acpi_poweroff_writes`: exactly when it powers off with the sleep types of the package.
-/
import Ttos.Lib.CString
import Ttos.Lib.Word

namespace Ttos

/-! ## The code -/

/-- `acpi_poweroff_information_t` -/
structure AcpiPoweroffInformation where
  slpTypeA : UInt8
  slpTypeB : UInt8
  pm1aCnt : ℕ
  pm1bCnt : ℕ
deriving DecidableEq, Repr

/-- `acpi_poweroff_info` before it is written. -/
def AcpiPoweroffInformation.zero : AcpiPoweroffInformation := ⟨0, 0, 0, 0⟩

/-- `sizeof(acpi_sdt_t)`, also that of `acpi_rsdt_t` and `acpi_dsdt_t` -/
abbrev acpiSdtSize : ℕ := 36

/-- `"_S5_"` -/
def acpiS5Name : List UInt8 := [0x5f, 0x53, 0x35, 0x5f]

abbrev acpiAmlPackageOpCode : UInt8 := 0x12
abbrev acpiAmlNameOpCode : UInt8 := 0x08
abbrev acpiAmlBytePrefixCode : UInt8 := 0x0a
abbrev acpiAmiPackageLengthEncodingBitsMask : UInt8 := 0xc0
abbrev acpiAmiPackageLengthEncodingBitsShift : ℕ := 6
abbrev acpiAmlMinPackageLength : ℕ := 1
abbrev acpiAmlNumElementsLength : ℕ := 1
abbrev acpiAmlS5PacketLengthOffset : ℕ := 5
abbrev acpiAmlSlpTypShift : ℕ := 10
abbrev acpiSlpEnCode : ℕ := 2 ^ 13

section
variable {m : Type → Type} [Monad m]

/-- The 32-bit field at an offset of a table. -/
def readField32 (table : ℕ → m UInt8) (offset : ℕ) : m ℕ := do
  let b0 ← table offset
  let b1 ← table (offset + 1)
  let b2 ← table (offset + 2)
  let b3 ← table (offset + 3)
  pure (b0.toNat + 256 * b1.toNat + 65536 * b2.toNat + 16777216 * b3.toNat)

/-- `memcmp` of a table with a string constant; behind the last byte it reads one more. -/
def memcmpTable (table : ℕ → m UInt8) : List UInt8 → ℕ → m ℤ
  | [], offset => do
    let _ ← table offset
    pure 0
  | c :: s, offset => do
    let byte1 ← table offset
    if byte1 = c then memcmpTable table s (offset + 1)
    else
      let byte1 ← table offset
      pure ((byte1.toNat : ℤ) - c.toNat)

/-- The loop of `acpi_init_poweroff`: the offset of `aml_pointer` at its end. -/
def acpiFindS5 (dsdt : ℕ → m UInt8) : ℕ → ℕ → m (Option ℕ)
  | 0, _ => pure none
  | k + 1, index => do
    let length ← readField32 dsdt 4
    if index < sub32 length acpiSdtSize then
      let c ← memcmpTable dsdt acpiS5Name (acpiSdtSize + index)
      if c = 0 then pure (some (acpiSdtSize + index)) else acpiFindS5 dsdt k (index + 1)
    else pure (some (acpiSdtSize + index))

/-- The name at `aml` is declared: a `NameOp` is before it, or before a root character. -/
def acpiNamed (dsdt : ℕ → m UInt8) (aml : ℕ) : m Bool := do
  let before ← dsdt (aml - 1)
  if before = acpiAmlNameOpCode then pure true
  else
    let before2 ← dsdt (aml - 2)
    if before2 = acpiAmlNameOpCode then
      let before ← dsdt (aml - 1)
      pure (before = 0x5c)
    else pure false

/-- The check of what stands around the name at `aml`. -/
def acpiValidate (dsdt : ℕ → m UInt8) (aml : ℕ) : m Bool := do
  if ← acpiNamed dsdt aml then
    let op ← dsdt (aml + 4)
    pure (op = acpiAmlPackageOpCode)
  else pure false

/-- Skipping a byte prefix. -/
def acpiSkipPrefix (dsdt : ℕ → m UInt8) (aml : ℕ) : m ℕ := do
  let byte ← dsdt aml
  pure (if byte = acpiAmlBytePrefixCode then aml + 1 else aml)

/-- The bytes of the sleep types in the package behind the name at `aml`. -/
def acpiSleepTypes (dsdt : ℕ → m UInt8) (aml : ℕ) : m (UInt8 × UInt8) := do
  let aml := aml + acpiAmlS5PacketLengthOffset
  let packageLength ← dsdt aml
  let aml := aml + ((packageLength &&& acpiAmiPackageLengthEncodingBitsMask).toNat >>>
    acpiAmiPackageLengthEncodingBitsShift) + acpiAmlMinPackageLength + acpiAmlNumElementsLength
  let aml ← acpiSkipPrefix dsdt aml
  let a ← dsdt aml
  let aml ← acpiSkipPrefix dsdt (aml + 1)
  let b ← dsdt aml
  pure (a, b)

/-- `acpi_init_poweroff`, with the tables that `acpi_fadt` and `acpi_dsdt` point to; `none` if
    the rounds do not get to the end of the loop. -/
def acpiInitPoweroff (fuel : ℕ) (fadt dsdt : ℕ → m UInt8) (info : AcpiPoweroffInformation) :
    m (Option AcpiPoweroffInformation) := do
  match ← acpiFindS5 dsdt fuel 0 with
  | none => pure none
  | some aml =>
    if ← acpiValidate dsdt aml then
      let pm1aCnt ← readField32 fadt 64
      let pm1bCnt ← readField32 fadt 68
      let (a, b) ← acpiSleepTypes dsdt aml
      -- the fields have 8 bits
      pure (some {
        slpTypeA := UInt8.ofNat (a.toNat <<< acpiAmlSlpTypShift)
        slpTypeB := UInt8.ofNat (b.toNat <<< acpiAmlSlpTypShift)
        pm1aCnt
        pm1bCnt })
    else pure (some info)

end

/-- The value of `n` in a `uint16_t`. -/
def u16 (n : ℕ) : ℕ := n % 65536

/-- `acpi_poweroff`: the port writes (`outw`), in order. -/
def acpiPoweroff (info : AcpiPoweroffInformation) : List (ℕ × ℕ) :=
  if info.pm1aCnt = 0 then []
  else
    let a := (u16 info.pm1aCnt, u16 (info.slpTypeA.toNat ||| acpiSlpEnCode))
    if info.pm1bCnt ≠ 0 then [a, (u16 info.pm1bCnt, u16 (info.slpTypeB.toNat ||| acpiSlpEnCode))]
    else [a]

/-! ## The package -/

/-- The AML of a sleep type. -/
inductive SleepType : UInt8 → List UInt8 → Prop
  | zero : SleepType 0 [0x00]
  | one : SleepType 1 [0x01]
  | byte {v} : v.toNat ≤ 7 → SleepType v [acpiAmlBytePrefixCode, v]

/-- `Name(_S5_, Package(..) {a, b, ..})` in `aml`, with its name where `_S5_` first occurs. -/
structure S5Package (aml : List UInt8) (a b : UInt8) where
  before : List UInt8
  root : List UInt8
  packageLength : UInt8
  count : UInt8
  amlA : List UInt8
  amlB : List UInt8
  more : List UInt8
  behind : List UInt8
  aml_eq : aml = (before ++ acpiAmlNameOpCode :: root) ++ (acpiS5Name ++
    (acpiAmlPackageOpCode :: packageLength :: count :: (amlA ++ amlB ++ more) ++ behind))
  root_eq : root = [] ∨ root = [0x5c]
  one_byte : packageLength.toNat < 64
  length_eq : packageLength.toNat = 2 + (amlA ++ amlB ++ more).length
  two_le : 2 ≤ count.toNat
  sleepTypeA : SleepType a amlA
  sleepTypeB : SleepType b amlB
  first : ∀ i < before.length + 1 + root.length, ¬ acpiS5Name <+: aml.drop i

variable {fadt dsdt : Mem} {aml s : List UInt8} {a b : UInt8} {info : AcpiPoweroffInformation}
  {fuel i o : ℕ}

namespace S5Package

/-- Where the name begins. -/
def name (p : S5Package aml a b) : ℕ := p.before.length + 1 + p.root.length

theorem name_lt (p : S5Package aml a b) : p.name + 6 < aml.length := by
  have h := congrArg List.length p.aml_eq
  have hs : acpiS5Name.length = 4 := rfl
  simp only [List.length_append, List.length_cons, hs] at h
  unfold name
  omega

/-- The name is in its place. -/
theorem hasBytes_name (p : S5Package aml a b) (h : dsdt.HasBytes o aml) :
    dsdt.HasBytes (o + p.name) acpiS5Name ∧
      dsdt.HasBytes (o + p.name + 4) (acpiAmlPackageOpCode :: p.packageLength :: p.count ::
        (p.amlA ++ p.amlB ++ p.more) ++ p.behind) := by
  rw [p.aml_eq, Mem.hasBytes_append] at h
  have hn : (p.before ++ acpiAmlNameOpCode :: p.root).length = p.name := by
    rw [List.length_append, List.length_cons, name]
    omega
  rw [hn] at h
  exact Mem.hasBytes_append.1 h.2

/-- What stands before the name. -/
theorem before_name (p : S5Package aml a b) (h : dsdt.HasBytes o aml) :
    dsdt (o + p.name - 1) = acpiAmlNameOpCode ∨
      dsdt (o + p.name - 2) = acpiAmlNameOpCode ∧ dsdt (o + p.name - 1) = 0x5c := by
  rw [p.aml_eq, Mem.hasBytes_append, Mem.hasBytes_append, Mem.hasBytes_cons] at h
  obtain ⟨⟨-, hop, hroot⟩, -⟩ := h
  rcases p.root_eq with hr | hr
  · refine .inl ?_
    rw [name, hr, List.length_nil, show o + (p.before.length + 1 + 0) - 1 = o + p.before.length
      by omega]
    exact hop
  · rw [hr, Mem.hasBytes_cons] at hroot
    refine .inr ?_
    rw [name, hr, List.length_singleton,
      show o + (p.before.length + 1 + 1) - 1 = o + p.before.length + 1 by omega,
      show o + (p.before.length + 1 + 1) - 2 = o + p.before.length by omega]
    exact ⟨hop, hroot.1⟩

/-- The package: its operator, the byte of its length, and its first two elements. -/
theorem hasBytes_package (p : S5Package aml a b) (h : dsdt.HasBytes o aml) :
    dsdt (o + p.name + 4) = acpiAmlPackageOpCode ∧ dsdt (o + p.name + 5) = p.packageLength ∧
      dsdt.HasBytes (o + p.name + 7) p.amlA ∧
      dsdt.HasBytes (o + p.name + 7 + p.amlA.length) p.amlB := by
  have hp := (p.hasBytes_name h).2
  rw [List.cons_append, Mem.hasBytes_cons, List.cons_append, Mem.hasBytes_cons, List.cons_append,
    Mem.hasBytes_cons, Mem.hasBytes_append, Mem.hasBytes_append, Mem.hasBytes_append] at hp
  obtain ⟨hop, hlength, -, ⟨⟨hA, hB⟩, -⟩, -⟩ := hp
  exact ⟨hop, hlength, hA, hB⟩

end S5Package

/-! ## What the code finds -/

/-- Bytes in a list that lies in the memory. -/
theorem Mem.HasBytes.prefix_drop (h : dsdt.HasBytes o aml) (hi : i + s.length ≤ aml.length)
    (hs : dsdt.HasBytes (o + i) s) : s <+: aml.drop i := by
  rw [List.prefix_iff_eq_take]
  refine List.ext_getElem (by simp; omega) fun j hj _ => ?_
  rw [List.getElem_take, List.getElem_drop, ← hs j hj, ← h (i + j) (by omega), Nat.add_assoc]

/-- Read without failing, a table is a memory. -/
theorem readField32_id : (readField32 (m := Id) dsdt o).run = dsdt.load32 o := rfl

theorem memcmpTable_id : (memcmpTable (m := Id) dsdt s o).run = 0 ↔ dsdt.HasBytes o s := by
  induction s generalizing o with
  | nil => exact iff_of_true rfl fun j hj => absurd hj (Nat.not_lt_zero _)
  | cons c s ih =>
    rw [Mem.hasBytes_cons, ← ih, memcmpTable, Id.run_bind]
    change (if dsdt o = c then (memcmpTable (m := Id) dsdt s (o + 1)).run
      else ((dsdt o).toNat : ℤ) - (c.toNat : ℤ)) = 0 ↔ dsdt o = c ∧ _
    split
    · rename_i hc
      exact ⟨fun h => ⟨hc, h⟩, And.right⟩
    · rename_i hc
      exact iff_of_false (fun h => hc (UInt8.toNat_inj.1 (by omega))) fun h => hc h.1

/-- The loop stops where the name first occurs. -/
theorem acpiFindS5_id {n : ℕ} (hl : n < sub32 (dsdt.load32 4) acpiSdtSize)
    (hn : dsdt.HasBytes (acpiSdtSize + n) acpiS5Name)
    (hfirst : ∀ i < n, ¬ dsdt.HasBytes (acpiSdtSize + i) acpiS5Name) (hi : i ≤ n)
    (hf : n - i < fuel) :
    (acpiFindS5 (m := Id) dsdt fuel i).run = some (acpiSdtSize + n) := by
  induction fuel generalizing i with
  | zero => omega
  | succ fuel ih =>
    rw [acpiFindS5, Id.run_bind, readField32_id, if_pos (by omega), Id.run_bind]
    by_cases hin : i = n
    · subst hin
      rw [if_pos (memcmpTable_id.2 hn), Id.run_pure]
    · rw [if_neg fun h => hfirst i (by omega) (memcmpTable_id.1 h)]
      exact ih (by omega) (by omega)

theorem acpiNamed_id (h : dsdt (o - 1) = acpiAmlNameOpCode ∨
    dsdt (o - 2) = acpiAmlNameOpCode ∧ dsdt (o - 1) = 0x5c) :
    (acpiNamed (m := Id) dsdt o).run = true := by
  change (if dsdt (o - 1) = acpiAmlNameOpCode then true
    else if dsdt (o - 2) = acpiAmlNameOpCode then decide (dsdt (o - 1) = 0x5c) else false) = true
  rcases h with h | ⟨h2, h1⟩
  · rw [if_pos h]
  · rw [if_pos h2, decide_eq_true h1, ite_self]

/-- What stands around the name is what the code expects. -/
theorem S5Package.acpiValidate (p : S5Package aml a b) (h : dsdt.HasBytes acpiSdtSize aml) :
    (Ttos.acpiValidate (m := Id) dsdt (acpiSdtSize + p.name)).run = true := by
  rw [Ttos.acpiValidate, Id.run_bind, if_pos (acpiNamed_id (p.before_name h))]
  exact decide_eq_true (p.hasBytes_package h).1

theorem S5Package.acpiFindS5 (p : S5Package aml a b)
    (hl : dsdt.load32 4 = acpiSdtSize + aml.length) (h : dsdt.HasBytes acpiSdtSize aml)
    (hf : aml.length < fuel) :
    (Ttos.acpiFindS5 (m := Id) dsdt fuel 0).run = some (acpiSdtSize + p.name) := by
  have hlt := p.name_lt
  have hl4 := dsdt.load32_lt 4
  refine acpiFindS5_id ?_ (p.hasBytes_name h).1 (fun i hi hs => ?_)
    (by omega) (by omega)
  · rw [sub32_of_le (by omega) hl4, hl]
    omega
  · refine p.first i hi (h.prefix_drop ?_ hs)
    have hs : acpiS5Name.length = 4 := rfl
    omega

theorem acpiSkipPrefix_id : (acpiSkipPrefix (m := Id) dsdt o).run =
    if dsdt o = acpiAmlBytePrefixCode then o + 1 else o := rfl

/-- Skipping the prefix gets to the last byte of a sleep type, and that is its value. -/
theorem SleepType.skip {e : List UInt8} (h : SleepType a e) (hd : dsdt.HasBytes o e) :
    (acpiSkipPrefix (m := Id) dsdt o).run + 1 = o + e.length ∧
      dsdt (acpiSkipPrefix (m := Id) dsdt o).run = a := by
  rw [acpiSkipPrefix_id]
  cases h with
  | zero =>
    have h0 : dsdt o = 0 := hd 0 Nat.zero_lt_one
    rw [if_neg (by rw [h0]; decide)]
    exact ⟨rfl, h0⟩
  | one =>
    have h0 : dsdt o = 1 := hd 0 Nat.zero_lt_one
    rw [if_neg (by rw [h0]; decide)]
    exact ⟨rfl, h0⟩
  | byte hv =>
    obtain ⟨h0, h1⟩ := Mem.hasBytes_cons.1 hd
    rw [if_pos h0]
    exact ⟨rfl, (Mem.hasBytes_cons.1 h1).1⟩

/-- A package length of one byte has no more bytes. -/
theorem S5Package.packageLength_bits (p : S5Package aml a b) :
    (p.packageLength &&& acpiAmiPackageLengthEncodingBitsMask).toNat >>>
      acpiAmiPackageLengthEncodingBitsShift = 0 := by
  have h := p.one_byte
  rw [UInt8.toNat_and, Nat.shiftRight_and_distrib, Nat.shiftRight_eq_div_pow,
    Nat.div_eq_of_lt (by omega), Nat.zero_and]

/-- The code finds the bytes of the sleep types. -/
theorem S5Package.acpiSleepTypes (p : S5Package aml a b) (h : dsdt.HasBytes acpiSdtSize aml) :
    (Ttos.acpiSleepTypes (m := Id) dsdt (acpiSdtSize + p.name)).run = (a, b) := by
  obtain ⟨-, hlength, hA, hB⟩ := p.hasBytes_package h
  obtain ⟨hskipA, hvalueA⟩ := p.sleepTypeA.skip hA
  obtain ⟨-, hvalueB⟩ := p.sleepTypeB.skip hB
  have hstart : acpiSdtSize + p.name + acpiAmlS5PacketLengthOffset +
      (p.packageLength &&& acpiAmiPackageLengthEncodingBitsMask).toNat >>>
        acpiAmiPackageLengthEncodingBitsShift + acpiAmlMinPackageLength +
      acpiAmlNumElementsLength = acpiSdtSize + p.name + 7 := by
    rw [p.packageLength_bits]
    rfl
  change (dsdt (acpiSkipPrefix (m := Id) dsdt _).run,
    dsdt (acpiSkipPrefix (m := Id) dsdt ((acpiSkipPrefix (m := Id) dsdt _).run + 1)).run) = _
  rw [show (dsdt (acpiSdtSize + p.name + acpiAmlS5PacketLengthOffset)) = p.packageLength
    from hlength, hstart, hvalueA, hskipA, hvalueB]

theorem acpiInitPoweroff_id (p : S5Package aml a b)
    (hl : dsdt.load32 4 = acpiSdtSize + aml.length) (h : dsdt.HasBytes acpiSdtSize aml)
    (hf : aml.length < fuel) :
    (acpiInitPoweroff (m := Id) fuel fadt dsdt info).run =
      some ⟨UInt8.ofNat (a.toNat <<< acpiAmlSlpTypShift),
        UInt8.ofNat (b.toNat <<< acpiAmlSlpTypShift), fadt.load32 64, fadt.load32 68⟩ := by
  rw [acpiInitPoweroff, Id.run_bind, p.acpiFindS5 hl h hf]
  dsimp only
  rw [Id.run_bind, if_pos (p.acpiValidate h)]
  simp only [Id.run_bind, Id.run_pure, readField32_id, p.acpiSleepTypes h]

/-- The fields of the sleep types have 8 bits: shifted by 10, nothing is left of them. -/
theorem ofNat_shift (n : ℕ) : UInt8.ofNat (n <<< acpiAmlSlpTypShift) = 0 := by
  refine UInt8.toNat_inj.1 ?_
  rw [UInt8.toNat_ofNat', Nat.shiftLeft_eq]
  change n * 1024 % 256 = 0
  omega

/-! ## What the code should write -/

/-- The writes that power off with the sleep types `a` and `b`: to the port PM1a, and to the
    port PM1b if there is one. -/
def poweroffWrites (pm1a pm1b : ℕ) (a b : UInt8) : List (ℕ × ℕ) :=
  (u16 pm1a, a.toNat <<< 10 ||| 1 <<< 13) ::
    if pm1b = 0 then [] else [(u16 pm1b, b.toNat <<< 10 ||| 1 <<< 13)]

/-- With both sleep types lost, the code writes as for the sleep types 0. -/
theorem acpiPoweroff_lost {pm1a pm1b : ℕ} (hp : pm1a ≠ 0) :
    acpiPoweroff ⟨0, 0, pm1a, pm1b⟩ = poweroffWrites pm1a pm1b 0 0 := by
  unfold acpiPoweroff poweroffWrites
  dsimp only
  rw [if_neg hp]
  by_cases hb : pm1b = 0
  · rw [if_neg (not_not.2 hb), if_pos hb]
    rfl
  · rw [if_pos hb, if_neg hb]
    rfl

/-- The shifted sleep type lies below the bit that is set. -/
theorem shift_or_eq {v : ℕ} (hv : v ≤ 7) : v <<< 10 ||| 1 <<< 13 = 1 <<< 13 + v * 1024 := by
  have h : v <<< 10 < 2 ^ 13 := by
    rw [Nat.shiftLeft_eq]
    omega
  rw [Nat.or_comm, ← Nat.shiftLeft_add_eq_or_of_lt h, Nat.shiftLeft_eq v]

theorem SleepType.le {e : List UInt8} (h : SleepType a e) : a.toNat ≤ 7 := by
  cases h with
  | zero => decide
  | one => decide
  | byte hv => exact hv

/-- Different sleep types are written differently. -/
theorem shift_or_zero (hv : a.toNat ≤ 7) :
    a.toNat <<< 10 ||| 1 <<< 13 = (0 : UInt8).toNat <<< 10 ||| 1 <<< 13 ↔ a = 0 := by
  rw [← UInt8.toNat_inj, UInt8.toNat_zero, shift_or_eq hv, shift_or_eq (Nat.zero_le 7)]
  omega

theorem poweroffWrites_zero {pm1a pm1b : ℕ} (ha : a.toNat ≤ 7) (hb : b.toNat ≤ 7) :
    poweroffWrites pm1a pm1b 0 0 = poweroffWrites pm1a pm1b a b ↔
      a = 0 ∧ (pm1b = 0 ∨ b = 0) := by
  unfold poweroffWrites
  rw [List.cons_eq_cons, Prod.mk.injEq, eq_comm (a := _ ||| _), shift_or_zero ha]
  by_cases hp : pm1b = 0
  · simp only [hp, if_true, true_and, true_or, and_true]
  · rw [if_neg hp, if_neg hp, List.cons_eq_cons, Prod.mk.injEq, eq_comm (a := _ ||| _),
      shift_or_zero hb]
    simp only [hp, true_and, false_or, and_true]

/-- **Powering off**: for a DSDT where `_S5_` first occurs in its package, and a port PM1a, the
    writes are those of the sleep types of the package just if `a` is 0, and also `b` if there
    is a port PM1b. -/
theorem acpi_poweroff_writes (p : S5Package aml a b)
    (hl : dsdt.load32 4 = acpiSdtSize + aml.length) (h : dsdt.HasBytes acpiSdtSize aml)
    (hp : fadt.load32 64 ≠ 0) (hf : aml.length < fuel) :
    (acpiInitPoweroff (m := Id) fuel fadt dsdt .zero).run.map acpiPoweroff =
        some (poweroffWrites (fadt.load32 64) (fadt.load32 68) a b) ↔
      a = 0 ∧ (fadt.load32 68 = 0 ∨ b = 0) := by
  rw [acpiInitPoweroff_id p hl h hf, ofNat_shift, ofNat_shift, Option.map_some,
    acpiPoweroff_lost hp, Option.some_inj]
  exact poweroffWrites_zero p.sleepTypeA.le p.sleepTypeB.le

/-! ### A package of two sleep types -/

/-- `Name(_S5_, Package(4) {v, v, 0, 0})` -/
def sleepAml (v : UInt8) : List UInt8 :=
  acpiAmlNameOpCode :: acpiS5Name ++ [acpiAmlPackageOpCode, 8, 4, acpiAmlBytePrefixCode, v,
    acpiAmlBytePrefixCode, v, 0, 0]

/-- The table with it, and the FADT with PM1a at port 0x604 and no PM1b. -/
def sleepDsdt (v : UInt8) : Mem :=
  Mem.ofList ([0x44, 0x53, 0x44, 0x54] ++ Mem.bytes32 50 ++ List.replicate 28 0 ++ sleepAml v)
    fun _ => 0

def portFadt : Mem :=
  Mem.ofList (List.replicate 64 0 ++ Mem.bytes32 0x604 ++ Mem.bytes32 0) fun _ => 0

def sleepPackage (v : UInt8) (hv : v.toNat ≤ 7) : S5Package (sleepAml v) v v where
  before := []
  root := []
  packageLength := 8
  count := 4
  amlA := [acpiAmlBytePrefixCode, v]
  amlB := [acpiAmlBytePrefixCode, v]
  more := [0, 0]
  behind := []
  aml_eq := rfl
  root_eq := .inl rfl
  one_byte := by decide
  length_eq := rfl
  two_le := by decide
  sleepTypeA := .byte hv
  sleepTypeB := .byte hv
  first := by
    intro i hi
    obtain rfl : i = 0 := by simpa using hi
    simp [sleepAml, acpiS5Name]

theorem acpi_poweroff_writes_zero :
    (acpiInitPoweroff (m := Id) 15 portFadt (sleepDsdt 0) .zero).run.map acpiPoweroff =
      some (poweroffWrites (portFadt.load32 64) (portFadt.load32 68) 0 0) :=
  (acpi_poweroff_writes (sleepPackage 0 (by decide)) (by decide) (by decide) (by decide)
    (by decide)).2 ⟨rfl, Or.inr rfl⟩

/-- For the sleep type 5 the value written is that of the sleep type 0. -/
theorem acpi_poweroff_five :
    Nonempty (S5Package (sleepAml 5) 5 5) ∧
      (sleepDsdt 5).load32 4 = acpiSdtSize + (sleepAml 5).length ∧
      (sleepDsdt 5).HasBytes acpiSdtSize (sleepAml 5) ∧
      (acpiInitPoweroff (m := Id) 15 portFadt (sleepDsdt 5) .zero).run.map acpiPoweroff =
        some [(0x604, 0x2000)] ∧
      poweroffWrites (portFadt.load32 64) (portFadt.load32 68) 5 5 = [(0x604, 0x3400)] :=
  ⟨⟨sleepPackage 5 (by decide)⟩, by decide, by decide, by decide, by decide⟩

end Ttos
