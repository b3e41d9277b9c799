/-
  What acpi.c reads of a table.

  * `Shows`: a reader that gives the bytes of a table as far as a predicate on the offsets
    holds, and fails behind.
  * `ComparedIn`, `ScannedIn`, `PoweroffIn`: the predicate holds of every offset that `memcmp`,
    the search for the name, and `acpi_init_poweroff` read.
  * `Shows.memcmpTable`, `Shows.acpiFindS5`, `Shows.acpiInitPoweroff`: with such a reader, the
    functions return exactly then.
-/
import Ttos.Arch.AcpiPoweroff
import Ttos.Lib.ExactFail

namespace Ttos

variable {σ ε : Type} {excused : ε → Prop} {s : σ} {f g : ℕ → StateT σ (Except ε) UInt8}
  {P Pf : ℕ → Prop} {table dsdt : Mem} {c : UInt8} {cs : List UInt8} {o aml i fuel : ℕ}

/-- Through `f` the byte at an offset is read exactly if `P` holds of the offset; `P` holds up
    to some offset. -/
structure Shows (excused : ε → Prop) (f : ℕ → StateT σ (Except ε) UInt8) (s : σ) (P : ℕ → Prop)
    (table : Mem) : Prop where
  read : ∀ o, LooksIff excused (f o) s (P o) (table o)
  down : ∀ {o o'}, o ≤ o' → P o' → P o

theorem Shows.readField32 (h : Shows excused f s P table) (o : ℕ) :
    LooksIff excused (readField32 f o) s (P (o + 3)) (table.load32 o) := by
  refine MeetsIff.congr ((h.read o).bind fun _ => (h.read (o + 1)).bind fun _ =>
    (h.read (o + 2)).bind fun _ => (h.read (o + 3)).bind_last fun _ => MeetsIff.pure ⟨rfl, rfl⟩) ?_
  constructor
  · rintro ⟨-, -, -, h3⟩
    exact h3
  · intro h3
    exact ⟨h.down (by omega) h3, h.down (by omega) h3, h.down (by omega) h3, h3⟩

/-! ## Comparing -/

/-- `P` holds of the offsets that `memcmp` reads: that of a byte if all before it agree, and
    one behind the last byte. -/
def ComparedIn (P : ℕ → Prop) (table : Mem) (cs : List UInt8) (o : ℕ) : Prop :=
  ∀ j ≤ cs.length, table.HasBytes o (cs.take j) → P (o + j)

theorem comparedIn_nil : ComparedIn P table [] o ↔ P o := by
  constructor
  · intro h
    exact h 0 (Nat.zero_le _) fun i hi => absurd hi (Nat.not_lt_zero i)
  · intro h j hj _
    obtain rfl : j = 0 := Nat.le_zero.1 hj
    exact h

theorem comparedIn_cons :
    ComparedIn P table (c :: cs) o ↔ P o ∧ (table o = c → ComparedIn P table cs (o + 1)) := by
  constructor
  · intro h
    refine ⟨h 0 (Nat.zero_le _) fun i hi => absurd hi (Nat.not_lt_zero i), fun hc j hj hb => ?_⟩
    have hj' := h (j + 1) (Nat.succ_le_succ hj) (Mem.hasBytes_cons.2 ⟨hc, hb⟩)
    rwa [Nat.add_right_comm, Nat.add_assoc]
  · rintro ⟨h0, hrest⟩ j hj hb
    cases j with
    | zero => exact h0
    | succ j =>
      obtain ⟨hc, hb⟩ := Mem.hasBytes_cons.1 hb
      have hj' := hrest hc j (Nat.le_of_succ_le_succ hj) hb
      rwa [Nat.add_right_comm, Nat.add_assoc] at hj'

theorem Shows.memcmpTable (h : Shows excused f s P table) (cs : List UInt8) (o : ℕ) :
    MeetsIff excused (memcmpTable f cs o) s (ComparedIn P table cs o)
      fun a s' => (a = 0 ↔ table.HasBytes o cs) ∧ s' = s := by
  induction cs generalizing o with
  | nil =>
    refine MeetsIff.congr ((h.read o).bind_last fun _ => MeetsIff.pure ⟨?_, rfl⟩)
      comparedIn_nil.symm
    exact iff_of_true rfl fun j hj => absurd hj (Nat.not_lt_zero j)
  | cons c cs ih =>
    refine MeetsIff.congr ((h.read o).bind fun h0 => ?_) comparedIn_cons.symm
    rw [Mem.hasBytes_cons]
    by_cases hc : table o = c
    · rw [if_pos hc]
      refine ((ih (o + 1)).mono ?_).congr (imp_iff_right hc).symm
      rintro a s' - ⟨ha, hs⟩
      exact ⟨ha.trans (and_iff_right hc).symm, hs⟩
    · rw [if_neg hc]
      refine MeetsIff.congr ((h.read o).bind_last fun _ => MeetsIff.pure ⟨?_, rfl⟩)
        (iff_of_true h0 fun hx => absurd hx hc)
      exact iff_of_false (fun hz => hc (UInt8.toNat_inj.1 (by omega))) fun hx => hc hx.1

/-! ## The search for the name -/

/-- Where the search ends: at the first place of the name, or behind the table. -/
structure ScanEnd (table : Mem) (aml : ℕ) : Prop where
  start : acpiSdtSize ≤ aml
  stop : aml ≤ acpiSdtSize + sub32 (table.load32 4) acpiSdtSize
  before : ∀ o, acpiSdtSize ≤ o → o < aml → ¬ table.HasBytes o acpiS5Name
  found : aml < acpiSdtSize + sub32 (table.load32 4) acpiSdtSize → table.HasBytes aml acpiS5Name

theorem exists_scanEnd (table : Mem) : ∃ aml, ScanEnd table aml := by
  obtain ⟨stop, hstop⟩ : ∃ stop, stop = acpiSdtSize + sub32 (table.load32 4) acpiSdtSize :=
    ⟨_, rfl⟩
  have hex : ∃ n, acpiSdtSize ≤ n ∧ (n = stop ∨ table.HasBytes n acpiS5Name) :=
    ⟨stop, by omega, Or.inl rfl⟩
  obtain ⟨h1, h2⟩ := Nat.find_spec hex
  have hle : Nat.find hex ≤ stop := Nat.find_min' hex ⟨by omega, Or.inl rfl⟩
  refine ⟨Nat.find hex, h1, by omega, fun o ho hlt hb => ?_, fun hlt => ?_⟩
  · exact Nat.find_min hex hlt ⟨ho, Or.inr hb⟩
  · exact h2.resolve_left (by omega)

theorem ScanEnd.unique {aml' : ℕ} (h : ScanEnd table aml) (h' : ScanEnd table aml') :
    aml = aml' := by
  have h1 := h.stop
  have h2 := h'.stop
  rcases lt_trichotomy aml aml' with hlt | heq | hlt
  · exact absurd (h.found (by omega)) (h'.before _ h.start hlt)
  · exact heq
  · exact absurd (h'.found (by omega)) (h.before _ h'.start hlt)

/-- `P` holds of the offsets that the search reads from an offset on. -/
def ScannedIn (P : ℕ → Prop) (table : Mem) (start : ℕ) : Prop :=
  ∀ o, start ≤ o → o < acpiSdtSize + sub32 (table.load32 4) acpiSdtSize →
    (∀ k, start ≤ k → k < o → ¬ table.HasBytes k acpiS5Name) → ComparedIn P table acpiS5Name o

theorem scannedIn_step (ho : o < acpiSdtSize + sub32 (table.load32 4) acpiSdtSize) :
    ScannedIn P table o ↔ ComparedIn P table acpiS5Name o ∧
      (¬ table.HasBytes o acpiS5Name → ScannedIn P table (o + 1)) := by
  constructor
  · intro h
    refine ⟨h o le_rfl ho fun k h1 h2 => by omega, fun hn o' h1 h2 h3 => ?_⟩
    refine h o' (by omega) h2 fun k hk hk' => ?_
    rcases Nat.eq_or_lt_of_le hk with rfl | hlt
    · exact hn
    · exact h3 k hlt hk'
  · rintro ⟨h0, hrest⟩ o' h1 h2 h3
    rcases Nat.eq_or_lt_of_le h1 with rfl | hlt
    · exact h0
    · exact hrest (h3 o le_rfl hlt) o' hlt h2 fun k hk hk' => h3 k (by omega) hk'

/-- The search, from any round on. -/
theorem Shows.acpiFindS5 (h : Shows excused f s P table) (haml : ScanEnd table aml)
    (hi : acpiSdtSize + i ≤ aml) (hf : sub32 (table.load32 4) acpiSdtSize < fuel + i) :
    LooksIff excused (acpiFindS5 f fuel i) s (P 7 ∧ ScannedIn P table (acpiSdtSize + i))
      (some aml) := by
  have hstop := haml.stop
  induction fuel generalizing i with
  | zero => omega
  | succ fuel ih =>
    refine MeetsIff.congr ((h.readField32 4).bind fun h7 => ?_) (and_congr_right fun h7 => Iff.rfl)
    by_cases hlt : i < sub32 (table.load32 4) acpiSdtSize
    · rw [if_pos hlt]
      refine MeetsIff.congr ((h.memcmpTable acpiS5Name (acpiSdtSize + i)).bind ?_)
        (scannedIn_step (by omega)).symm
      rintro a s' - ⟨ha, rfl⟩
      by_cases hb : table.HasBytes (acpiSdtSize + i) acpiS5Name
      · rw [if_pos (ha.2 hb)]
        have heq : acpiSdtSize + i = aml := by
          by_contra hne
          exact haml.before _ (by omega) (by omega) hb
        rw [heq]
        exact MeetsIff.congr (MeetsIff.pure ⟨rfl, rfl⟩) (iff_of_true trivial fun hn => absurd hb (heq ▸ hn))
      · rw [if_neg fun hz => hb (ha.1 hz)]
        have hne : acpiSdtSize + i ≠ aml := by
          rintro rfl
          exact hb (haml.found (by omega))
        refine (ih (by omega) (by omega)).congr ?_
        rw [imp_iff_right hb, Nat.add_assoc]
        exact and_iff_right h7
    · rw [if_neg hlt, show acpiSdtSize + i = aml by omega]
      refine MeetsIff.congr (MeetsIff.pure ⟨rfl, rfl⟩) (iff_of_true trivial fun o h1 h2 _ => ?_)
      omega

/-! ## The package -/

/-- What `acpiNamed` looks for. -/
def AmlNamed (table : Mem) (aml : ℕ) : Prop :=
  table (aml - 1) = acpiAmlNameOpCode ∨
    table (aml - 2) = acpiAmlNameOpCode ∧ table (aml - 1) = 0x5c

instance : Decidable (AmlNamed table aml) := inferInstanceAs (Decidable (_ ∨ _))

/-- What `acpiValidate` looks for. -/
def AmlValid (table : Mem) (aml : ℕ) : Prop :=
  AmlNamed table aml ∧ table (aml + 4) = acpiAmlPackageOpCode

instance : Decidable (AmlValid table aml) := inferInstanceAs (Decidable (_ ∧ _))

theorem Shows.acpiNamed (h : Shows excused f s P table) (aml : ℕ) :
    LooksIff excused (acpiNamed f aml) s (P (aml - 1)) (decide (AmlNamed table aml)) := by
  refine (h.read (aml - 1)).bind_last fun h1 => ?_
  by_cases hb : table (aml - 1) = acpiAmlNameOpCode
  · rw [if_pos hb, decide_eq_true (show AmlNamed table aml from Or.inl hb)]
    exact MeetsIff.pure ⟨rfl, rfl⟩
  rw [if_neg hb]
  have h2 : P (aml - 2) := h.down (by omega) h1
  refine MeetsIff.congr ((h.read (aml - 2)).bind_last fun _ => ?_) (iff_of_true h2 trivial)
  by_cases hb2 : table (aml - 2) = acpiAmlNameOpCode
  · rw [if_pos hb2]
    refine MeetsIff.congr ((h.read (aml - 1)).bind_last fun _ => MeetsIff.pure ⟨?_, rfl⟩)
      (iff_of_true h1 trivial)
    exact decide_eq_decide.2 ((or_iff_right hb).trans (and_iff_right hb2)).symm
  · rw [if_neg hb2, decide_eq_false fun hn => hb2 (hn.resolve_left hb).1]
    exact MeetsIff.pure ⟨rfl, rfl⟩

theorem Shows.acpiValidate (h : Shows excused f s P table) (aml : ℕ) :
    LooksIff excused (acpiValidate f aml) s (P (aml - 1) ∧ (AmlNamed table aml → P (aml + 4)))
      (decide (AmlValid table aml)) := by
  refine (h.acpiNamed aml).bind fun _ => ?_
  by_cases hn : AmlNamed table aml
  · rw [decide_eq_true hn, if_pos rfl]
    refine MeetsIff.congr ((h.read (aml + 4)).bind_last fun _ => MeetsIff.pure ⟨?_, rfl⟩)
      (imp_iff_right hn).symm
    exact decide_eq_decide.2 (and_iff_right hn).symm
  · rw [decide_eq_false hn, if_neg Bool.false_ne_true, decide_eq_false fun hv => hn hv.1]
    exact MeetsIff.congr (MeetsIff.pure ⟨rfl, rfl⟩) (iff_of_true trivial fun hx => absurd hx hn)

/-- Where the value is that stands at an offset, with or without a prefix. -/
def amlValue (table : Mem) (o : ℕ) : ℕ := if table o = acpiAmlBytePrefixCode then o + 1 else o

theorem le_amlValue (table : Mem) (o : ℕ) : o ≤ amlValue table o := by
  unfold amlValue
  split <;> omega

/-- Where the elements of the package behind the name begin. -/
def amlElements (table : Mem) (aml : ℕ) : ℕ :=
  aml + acpiAmlS5PacketLengthOffset +
    ((table (aml + acpiAmlS5PacketLengthOffset) &&& acpiAmiPackageLengthEncodingBitsMask).toNat >>>
      acpiAmiPackageLengthEncodingBitsShift) + acpiAmlMinPackageLength + acpiAmlNumElementsLength

/-- Where the code takes the sleep types from. -/
def amlSleepTypeA (table : Mem) (aml : ℕ) : ℕ := amlValue table (amlElements table aml)

def amlSleepTypeB (table : Mem) (aml : ℕ) : ℕ := amlValue table (amlSleepTypeA table aml + 1)

theorem Shows.acpiSkipPrefix (h : Shows excused f s P table) (o : ℕ) :
    LooksIff excused (acpiSkipPrefix f o) s (P o) (amlValue table o) :=
  (h.read o).bind_last fun _ => MeetsIff.pure ⟨rfl, rfl⟩

/-- The last byte that is read is that of the second sleep type. -/
theorem Shows.acpiSleepTypes (h : Shows excused f s P table) (aml : ℕ) :
    LooksIff excused (acpiSleepTypes f aml) s (P (amlSleepTypeB table aml))
      (table (amlSleepTypeA table aml), table (amlSleepTypeB table aml)) := by
  refine MeetsIff.congr ((h.read _).bind fun _ => (h.acpiSkipPrefix (amlElements table aml)).bind
    fun _ => (h.read (amlSleepTypeA table aml)).bind fun _ =>
    (h.acpiSkipPrefix (amlSleepTypeA table aml + 1)).bind fun _ =>
    (h.read (amlSleepTypeB table aml)).bind_last fun _ => MeetsIff.pure ⟨rfl, rfl⟩) ?_
  have h1 : aml + acpiAmlS5PacketLengthOffset ≤ amlElements table aml :=
    Nat.le_add_right_of_le (Nat.le_add_right_of_le (Nat.le_add_right _ _))
  have h2 := le_amlValue table (amlElements table aml)
  have h3 := le_amlValue table (amlSleepTypeA table aml + 1)
  constructor
  · rintro ⟨-, -, -, -, hb⟩
    exact hb
  · intro hb
    have hb1 : P (amlSleepTypeA table aml + 1) := h.down h3 hb
    have hb2 : P (amlSleepTypeA table aml) := h.down (Nat.le_succ _) hb1
    have hb3 : P (amlElements table aml) := h.down h2 hb2
    exact ⟨h.down h1 hb3, hb3, hb2, hb1, hb⟩

/-- `P` holds of the offsets of the DSDT that `acpi_init_poweroff` reads, and `Pf` of those of
    the FADT. -/
structure PoweroffIn (Pf P : ℕ → Prop) (dsdt : Mem) : Prop where
  length : P 7
  scan : ScannedIn P dsdt acpiSdtSize
  before : ∀ aml, ScanEnd dsdt aml → P (aml - 1)
  behind : ∀ aml, ScanEnd dsdt aml → AmlNamed dsdt aml → P (aml + 4)
  fadt : ∀ aml, ScanEnd dsdt aml → AmlValid dsdt aml → Pf 71
  package : ∀ aml, ScanEnd dsdt aml → AmlValid dsdt aml → P (amlSleepTypeB dsdt aml)

/-- The conditions, for the place where the search ends. -/
theorem poweroffIn_iff (haml : ScanEnd dsdt aml) : PoweroffIn Pf P dsdt ↔
    (P 7 ∧ ScannedIn P dsdt acpiSdtSize) ∧ (P (aml - 1) ∧ (AmlNamed dsdt aml → P (aml + 4))) ∧
      (AmlValid dsdt aml → Pf 71 ∧ P (amlSleepTypeB dsdt aml)) := by
  constructor
  · intro h
    exact ⟨⟨h.length, h.scan⟩, ⟨h.before aml haml, h.behind aml haml⟩,
      fun hv => ⟨h.fadt aml haml hv, h.package aml haml hv⟩⟩
  · rintro ⟨⟨h1, h2⟩, ⟨h3, h4⟩, h5⟩
    refine ⟨h1, h2, ?_, ?_, ?_, ?_⟩
    all_goals
      intro aml' haml'
      obtain rfl := haml.unique haml'
    · exact h3
    · exact h4
    · exact fun hv => (h5 hv).1
    · exact fun hv => (h5 hv).2

/-- **Reading the tables for powering off**, with more rounds than the DSDT has bytes. -/
theorem Shows.acpiInitPoweroff (hf : Shows excused f s Pf table) (hg : Shows excused g s P dsdt)
    (hfuel : sub32 (dsdt.load32 4) acpiSdtSize < fuel) (info : AcpiPoweroffInformation) :
    MeetsIff excused (acpiInitPoweroff fuel f g info) s (PoweroffIn Pf P dsdt)
      fun a s' => (∃ r, a = some r) ∧ s' = s := by
  obtain ⟨aml, haml⟩ := exists_scanEnd dsdt
  refine MeetsIff.congr ((hg.acpiFindS5 haml haml.start hfuel).bind fun _ =>
    (hg.acpiValidate aml).bind fun _ => ?_) (poweroffIn_iff haml).symm
  by_cases hv : AmlValid dsdt aml
  · rw [decide_eq_true hv, if_pos rfl]
    refine MeetsIff.congr ((hf.readField32 64).bind fun _ => (hf.readField32 68).bind fun _ =>
      (hg.acpiSleepTypes aml).bind_last fun _ => MeetsIff.pure ⟨⟨_, rfl⟩, rfl⟩) ?_
    rw [imp_iff_right hv]
    constructor
    · rintro ⟨-, h71, hb⟩
      exact ⟨h71, hb⟩
    · rintro ⟨h71, hb⟩
      exact ⟨hf.down (by omega) h71, h71, hb⟩
  · rw [decide_eq_false hv, if_neg Bool.false_ne_true]
    exact MeetsIff.congr (MeetsIff.pure ⟨⟨_, rfl⟩, rfl⟩)
      (iff_of_true trivial fun hx => absurd hx hv)

end Ttos
