/-
  When `acpi_init` reads the tables only through the pages it mapped for them, and ends.

  * `AcpiTable.Shown`: a table's pages show it.
  * `TableMapped`: what mapping a table does; `ViewKept`: what every step keeps.
  * `EntryMapped`, `RsdtMapped`, `AcpiTablesMapped`: the condition, on the bytes in memory.
  * `acpi_tables_mapped`: it is exact.
-/
import Ttos.Arch.Acpi
import Ttos.Arch.AcpiReads
import Mathlib.Data.Option.Defs

namespace Ttos

open Vm

/-- The memory from an address on. -/
def Mem.tableAt (mem : Mem) (address : ℕ) : Mem := fun o => mem (address + o)

/-- `NoMemory` is left out of what is said of `acpi_init`. -/
def NoMemory (e : AcpiStop) : Prop := e = .noMemory

section
variable {σ : Type} [Allocator σ] {vm vm' vm₁ vm₂ : Vm σ} {ds : List ℕ} {mem : Mem}
  {t : AcpiTable} {size physical : ℕ}

/-! ## Tables that are mapped -/

/-- What the tables are read with: proper page tables, and the memory. -/
structure AcpiView (ds : List ℕ) (mem : Mem) (vm : Vm σ) : Prop where
  ok : TablesOk vm ds
  current : vm.currentPageDirectory ∈ ds
  enabled : vm.pagingEnabled = true
  mem_eq : vm.mem = mem

/-- The pages of the table show it. -/
def AcpiTable.Shown (t : AcpiTable) (vm : Vm σ) : Prop :=
  t.physical ≠ 0 → vm.Window t.base t.size t.physical

/-- The memory is the same, and the tables that were mapped still are. -/
structure ViewKept (ds : List ℕ) (mem : Mem) (vm vm' : Vm σ) : Prop where
  view : AcpiView ds mem vm'
  shown : ∀ t : AcpiTable, t.Shown vm → t.Shown vm'

theorem ViewKept.refl (hv : AcpiView ds mem vm) : ViewKept ds mem vm vm := ⟨hv, fun _ h => h⟩

theorem ViewKept.trans (h : ViewKept ds mem vm vm₁) (h' : ViewKept ds mem vm₁ vm₂) :
    ViewKept ds mem vm vm₂ :=
  ⟨h'.view, fun t ht => h'.shown t (h.shown t ht)⟩

theorem InTablePages.down {o o' : ℕ} (h : o ≤ o') (ho : InTablePages physical size o') :
    InTablePages physical size o := by
  obtain ⟨h1, h2, h3⟩ := ho
  exact ⟨h1, by omega, by omega⟩

/-- A table that is mapped is read as far as its pages go. -/
theorem AcpiTable.Shown.shows (ht : t.Shown vm) (hv : AcpiView ds mem vm) :
    Shows NoMemory t.read vm (InTablePages t.physical t.size) (mem.tableAt t.physical) where
  read o := by
    by_cases ho : InTablePages t.physical t.size o
    · obtain ⟨e, he, haddr⟩ := ht ho.1 o ho.2.1 ho.2.2
      refine MeetsIff.congr (MeetsIff.of_ok ?_ ⟨rfl, rfl⟩) (iff_of_true trivial ho)
      simp only [AcpiTable.read, if_pos ho, he, haddr, hv.mem_eq, Mem.tableAt]
    · have hread : t.read o vm = .error .outside := by
        simp only [AcpiTable.read, if_neg ho]
      exact MeetsIff.congr (MeetsIff.of_error hread) (iff_of_false id ho)
  down := InTablePages.down

/-- What mapping a table did: it is shown, and unmapping it takes back no other table. -/
structure TableMapped (ds : List ℕ) (mem : Mem) (vm : Vm σ) (size physical : ℕ) (t : AcpiTable)
    (vm' : Vm σ) : Prop where
  physical_eq : t.physical = physical
  size_eq : t.size = size
  kept : ViewKept ds mem vm vm'
  shown : t.Shown vm'
  unmap : MeetsIff NoMemory (acpiUnmapTable t) vm' True fun _ vm₁ => ViewKept ds mem vm vm₁

theorem TableMapped.shows (h : TableMapped ds mem vm size physical t vm') :
    Shows NoMemory t.read vm' (InTablePages physical size) (mem.tableAt physical) := by
  rw [← h.physical_eq, ← h.size_eq]
  exact h.shown.shows h.kept.view

/-- The same pages show the same tables. -/
theorem ViewKept.of_pages (hv : AcpiView ds mem vm) (hok : TablesOk vm' ds) (hst : SameStatics vm vm')
    (hp : ∀ u, vm.page vm.currentPageDirectory u ≠ none →
      vm'.page vm.currentPageDirectory u = vm.page vm.currentPageDirectory u) :
    ViewKept ds mem vm vm' := by
  have hen : vm'.pagingEnabled = true := hst.enabled.trans hv.enabled
  refine ⟨⟨hok, hst.current ▸ hv.current, hen, hst.mem.trans hv.mem_eq⟩, fun t ht h0 => ?_⟩
  refine (ht h0).congr hv.enabled hen fun u hu => ?_
  rw [hst.current]
  exact hp u hu

theorem tableMapped_of_run {base : ℕ} (hv : AcpiView ds mem vm) (hs : size < 4294967296)
    (hm : vm.vmmMapMemory 0 size physical true false = .ok (base, vm'))
    (hb : ¬ (base = 0 ∨ 4294967296 ≤ base + size)) : size ≤ vmmKernelSpaceSize ∧
      TableMapped ds mem vm size physical ⟨physical, size, base⟩ vm' := by
  obtain ⟨hb0, hend⟩ := not_or.1 hb
  rw [not_le] at hend
  obtain ⟨hgiven, hrange, hwindow⟩ :=
    vmmMapMemory_window hv.ok hv.current hv.enabled hs hm hb0 hend
  obtain ⟨vm₁, hun, hok₁, hst₁, hp₁⟩ :=
    vmmUnmapMemory_vmmMapMemory hv.ok hv.current hb0 hend hgiven hb0
  refine ⟨?_, rfl, rfl, ?_, hwindow, ?_⟩
  · rcases Nat.eq_zero_or_pos size with rfl | hpos
    · exact Nat.zero_le _
    · have hside : 0xC0000000 ≤ base :=
        vmmMapMemory_side hv.ok hv.current hpos hb0 hend hgiven
      show size ≤ 0x3FFFFFFF
      omega
  · refine .of_pages hv hrange.ok hrange.grown.statics fun u hu => ?_
    exact hrange.others _ hv.current u fun hin => hu (hrange.unused u hin.1 hin.2.1)
  · refine MeetsIff.of_ok (show acpiUnmapTable ⟨physical, size, base⟩ vm' = .ok ((), vm₁) by
      simp only [acpiUnmapTable, hun]) ?_
    exact .of_pages hv hok₁ hst₁ fun u _ => hp₁ _ hv.current u

/-- A table is not mapped for lack of memory, or because it is too long. -/
theorem not_mapped_meets {Q : AcpiTable → Vm σ → Prop}
    (h : acpiMapTable size physical vm = .error (acpiNotMapped size)) :
    MeetsIff NoMemory (acpiMapTable size physical) vm (size ≤ vmmKernelSpaceSize) Q := by
  by_cases hs : size ≤ vmmKernelSpaceSize
  · rw [acpiNotMapped, if_pos hs] at h
    exact MeetsIff.of_excused h rfl
  · exact MeetsIff.congr (MeetsIff.of_error h) (iff_of_false id hs)

/-- **Mapping a table** of any size and at any address. -/
theorem acpiMapTable_meets (hv : AcpiView ds mem vm) (hs : size < 4294967296) (physical : ℕ) :
    MeetsIff NoMemory (acpiMapTable size physical) vm (size ≤ vmmKernelSpaceSize) fun t vm' =>
      TableMapped ds mem vm size physical t vm' := by
  cases hm : vm.vmmMapMemory 0 size physical true false with
  | error e =>
    refine not_mapped_meets ?_
    simp only [acpiMapTable, hm]
  | ok r =>
    obtain ⟨base, vm'⟩ := r
    by_cases hb : base = 0 ∨ 4294967296 ≤ base + size
    · refine not_mapped_meets ?_
      simp only [acpiMapTable, hm, if_pos hb]
    · obtain ⟨hle, ht⟩ := tableMapped_of_run hv hs hm hb
      refine MeetsIff.congr (MeetsIff.of_ok ?_ ht) (iff_of_true trivial hle)
      simp only [acpiMapTable, hm, if_neg hb]

/-- A header has room. -/
theorem acpiMapTable_header (hv : AcpiView ds mem vm) (physical : ℕ) :
    MeetsIff NoMemory (acpiMapTable acpiSdtSize physical) vm True fun t vm' =>
      TableMapped ds mem vm acpiSdtSize physical t vm' :=
  (acpiMapTable_meets hv (by decide) physical).congr (iff_true_intro (by decide))

theorem acpiKmalloc_meets (hv : AcpiView ds mem vm) (hs : Request size) :
    MeetsIff NoMemory (acpiKmalloc size) vm True fun _ vm' => ViewKept ds mem vm vm' := by
  refine MeetsIff.of_ok rfl (.of_pages hv ?_ ⟨rfl, rfl, rfl, rfl⟩ fun _ _ => rfl)
  exact ⟨fun d hd i hi h0 => Allocator.alloc_keeps hs (hv.ok.live d hd i hi h0), hv.ok.slot,
    hv.ok.agree⟩

theorem acpiMessage_meets (hv : AcpiView ds mem vm) :
    MeetsIff NoMemory acpiMessage vm True fun _ vm' => ViewKept ds mem vm vm' := by
  refine (acpiKmalloc_meets hv (by decide)).bind_true fun message vm' hk => ?_
  by_cases h0 : message = 0
  · rw [if_pos h0]
    exact MeetsIff.of_excused rfl rfl
  · rw [if_neg h0]
    exact MeetsIff.pure hk

/-! ## The condition -/

/-- The physical address of a table, in the RSDT at `r`. -/
def sdtEntry (mem : Mem) (r i : ℕ) : ℕ := (mem.tableAt r).load32 (acpiSdtSize + 4 * i)

/-- The length that a table declares. -/
def sdtLength (mem : Mem) (address : ℕ) : ℕ := (mem.tableAt address).load32 4

/-- The number of entries that the code takes from the length of the RSDT. -/
def sdtCount (mem : Mem) (r : ℕ) : ℕ := sub32 (sdtLength mem r) acpiSdtSize / 4

def IsFadt (mem : Mem) (address : ℕ) : Prop := (mem.tableAt address).HasBytes 0 acpiFadtSignature

instance (mem : Mem) (address : ℕ) : Decidable (IsFadt mem address) :=
  inferInstanceAs (Decidable ((mem.tableAt address).HasBytes 0 acpiFadtSignature))

/-- The address of the DSDT, in the FADT at `fadt`. -/
def fadtDsdt (mem : Mem) (fadt : ℕ) : ℕ := (mem.tableAt fadt).load32 40

/-- The last FADT among the first entries of the RSDT. -/
def lastFadt (mem : Mem) (r : ℕ) : ℕ → Option ℕ
  | 0 => none
  | n + 1 => if IsFadt mem (sdtEntry mem r n) then some (sdtEntry mem r n) else lastFadt mem r n

/-- What is read for an entry of the RSDT is in the pages: the entry in those of 36 bytes, the
    length of its table in those of 36 bytes, and the rest in those of that length, for which
    the kernel's half of the address space is not too small. -/
structure EntryMapped (mem : Mem) (r i : ℕ) : Prop where
  entry : InTablePages r acpiSdtSize (acpiSdtSize + 4 * i + 3)
  header : InTablePages (sdtEntry mem r i) acpiSdtSize 7
  length : sdtLength mem (sdtEntry mem r i) ≤ vmmKernelSpaceSize
  signature : ComparedIn (InTablePages (sdtEntry mem r i) (sdtLength mem (sdtEntry mem r i)))
    (mem.tableAt (sdtEntry mem r i)) acpiFadtSignature 0
  dsdt : IsFadt mem (sdtEntry mem r i) →
    InTablePages (sdtEntry mem r i) (sdtLength mem (sdtEntry mem r i)) 43

/-- What `acpi_init_poweroff` reads is in the pages of the last FADT and of its DSDT. -/
def PoweroffMapped (mem : Mem) (last : Option ℕ) : Prop :=
  ∀ fadt, last = some fadt → PoweroffIn (InTablePages fadt (sdtLength mem fadt))
    (InTablePages (fadtDsdt mem fadt) acpiSdtSize) (mem.tableAt (fadtDsdt mem fadt))

/-- What is read after the signature of the RSDT is in the pages. -/
structure RsdtMapped (mem : Mem) (r : ℕ) : Prop where
  header : InTablePages r acpiSdtSize 7
  count : sdtCount mem r < 256
  entries : ∀ i < sdtCount mem r, EntryMapped mem r i
  poweroff : PoweroffMapped mem (lastFadt mem r (sdtCount mem r))

/-- What is read of the tables is in the pages that were mapped, and there are at most 255
    entries. -/
structure AcpiTablesMapped (mem : Mem) (r : ℕ) : Prop where
  signature : ComparedIn (InTablePages r acpiSdtSize) (mem.tableAt r) acpiRsdtSignature 0
  rsdt : (mem.tableAt r).HasBytes 0 acpiRsdtSignature → RsdtMapped mem r

/-! ## The loop -/

/-- The FADT at `fadt` is mapped with its length, and the DSDT it names with 36 bytes. -/
structure FadtShown (mem : Mem) (vm : Vm σ) (tables : AcpiTable × AcpiTable) (fadt : ℕ) :
    Prop where
  fadt_eq : tables.1.physical = fadt
  length_eq : tables.1.size = sdtLength mem fadt
  shown : tables.1.Shown vm
  dsdt_eq : tables.2.physical = fadtDsdt mem fadt
  size_eq : tables.2.size = acpiSdtSize
  dsdtShown : tables.2.Shown vm

theorem FadtShown.kept {tables : AcpiTable × AcpiTable} {fadt : ℕ}
    (h : FadtShown mem vm tables fadt) (hk : ViewKept ds mem vm vm') :
    FadtShown mem vm' tables fadt :=
  ⟨h.fadt_eq, h.length_eq, hk.shown _ h.shown, h.dsdt_eq, h.size_eq, hk.shown _ h.dsdtShown⟩

variable {rsdt : AcpiTable} {r i fuel sdts count : ℕ} {tables : Option (AcpiTable × AcpiTable)}
  {last : Option ℕ}

/-- The tables found so far, and the last FADT. -/
abbrev TablesShown (mem : Mem) (vm : Vm σ) : Option (AcpiTable × AcpiTable) → Option ℕ → Prop :=
  Option.Rel (FadtShown mem vm)

theorem TablesShown.kept (h : TablesShown mem vm tables last) (hk : ViewKept ds mem vm vm') :
    TablesShown mem vm' tables last := by
  cases h with
  | none => exact .none
  | some h => exact .some (h.kept hk)

/-- The RSDT is mapped with 36 bytes. -/
structure RsdtShown (vm : Vm σ) (rsdt : AcpiTable) (r : ℕ) : Prop where
  physical_eq : rsdt.physical = r
  size_eq : rsdt.size = acpiSdtSize
  shown : rsdt.Shown vm

theorem RsdtShown.kept (h : RsdtShown vm rsdt r) (hk : ViewKept ds mem vm vm') :
    RsdtShown vm' rsdt r :=
  ⟨h.physical_eq, h.size_eq, hk.shown _ h.shown⟩

theorem RsdtShown.shows (h : RsdtShown vm rsdt r) (hv : AcpiView ds mem vm) :
    Shows NoMemory rsdt.read vm (InTablePages r acpiSdtSize) (mem.tableAt r) := by
  rw [← h.physical_eq, ← h.size_eq]
  exact h.shown.shows hv

theorem entryMapped_iff : EntryMapped mem r i ↔
    InTablePages r acpiSdtSize (acpiSdtSize + 4 * i + 3) ∧
      InTablePages (sdtEntry mem r i) acpiSdtSize 7 ∧
      sdtLength mem (sdtEntry mem r i) ≤ vmmKernelSpaceSize ∧
      ComparedIn (InTablePages (sdtEntry mem r i) (sdtLength mem (sdtEntry mem r i)))
        (mem.tableAt (sdtEntry mem r i)) acpiFadtSignature 0 ∧
      (IsFadt mem (sdtEntry mem r i) →
        InTablePages (sdtEntry mem r i) (sdtLength mem (sdtEntry mem r i)) 43) :=
  ⟨fun ⟨h1, h2, h3, h4, h5⟩ => ⟨h1, h2, h3, h4, h5⟩,
    fun ⟨h1, h2, h3, h4, h5⟩ => ⟨h1, h2, h3, h4, h5⟩⟩

/-- **A round of the loop.** -/
theorem acpiSdt_meets (hv : AcpiView ds mem vm) (hr : RsdtShown vm rsdt r)
    (ht : TablesShown mem vm tables (lastFadt mem r i)) :
    MeetsIff NoMemory (acpiSdt rsdt sdts i tables) vm (EntryMapped mem r i) fun tables' vm' =>
      ViewKept ds mem vm vm' ∧ TablesShown mem vm' tables' (lastFadt mem r (i + 1)) := by
  rw [entryMapped_iff]
  refine LooksIff.bind ((hr.shows hv).readField32 _) fun _ => ?_
  refine (acpiMapTable_header hv _).bind_true fun tmp vm₁ htmp => ?_
  refine LooksIff.bind (htmp.shows.readField32 4) fun _ => ?_
  refine htmp.unmap.bind_true fun _ vm₂ hk₂ => ?_
  refine (acpiMapTable_meets hk₂.view (Mem.load32_lt _ _) _).bind fun sdt vm₃ _ hsdt => ?_
  have hk₃ : ViewKept ds mem vm vm₃ := hk₂.trans hsdt.kept
  by_cases h0 : sdts = 0
  · rw [if_pos h0]
    exact MeetsIff.of_excused rfl rfl
  rw [if_neg h0]
  refine MeetsIff.bind (hsdt.shows.memcmpTable acpiFadtSignature 0) ?_
  rintro c s' - ⟨hc, rfl⟩
  by_cases hf : IsFadt mem (sdtEntry mem r i)
  · rw [if_pos (hc.2 hf), imp_iff_right hf, lastFadt, if_pos hf]
    refine LooksIff.bind_last (hsdt.shows.readField32 40) fun _ => ?_
    refine (acpiMapTable_header hk₃.view _).bind_true fun dsdt vm₄ hdsdt => ?_
    refine MeetsIff.pure ⟨hk₃.trans hdsdt.kept, .some ?_⟩
    exact ⟨hsdt.physical_eq, hsdt.size_eq, hdsdt.kept.shown _ hsdt.shown,
      hdsdt.physical_eq, hdsdt.size_eq, hdsdt.shown⟩
  · rw [if_neg fun hz => hf (hc.1 hz), lastFadt, if_neg hf]
    exact MeetsIff.congr (MeetsIff.pure ⟨hk₃, ht.kept hk₃⟩)
      (iff_of_true trivial fun hx => absurd hx hf)

theorem entriesMapped_step (hi : i < count) : (∀ j, i ≤ j → j < count → EntryMapped mem r j) ↔
    EntryMapped mem r i ∧ ∀ j, i + 1 ≤ j → j < count → EntryMapped mem r j := by
  constructor
  · intro h
    exact ⟨h i le_rfl hi, fun j hj => h j (by omega)⟩
  · rintro ⟨h0, hrest⟩ j hj hjc
    rcases Nat.eq_or_lt_of_le hj with rfl | hlt
    · exact h0
    · exact hrest j hlt hjc

/-- **The loop**, from any round on: fewer than 256 entries. -/
theorem acpiSdtLoop_meets (hv : AcpiView ds mem vm) (hr : RsdtShown vm rsdt r)
    (ht : TablesShown mem vm tables (lastFadt mem r i)) (hc : count < 256) (hi : i ≤ count)
    (hf : count < fuel + i) :
    MeetsIff NoMemory (acpiSdtLoop rsdt count sdts fuel i tables) vm
      (∀ j, i ≤ j → j < count → EntryMapped mem r j) fun tables' vm' =>
        ViewKept ds mem vm vm' ∧ TablesShown mem vm' tables' (lastFadt mem r count) := by
  induction fuel generalizing vm i tables with
  | zero => omega
  | succ fuel ih =>
    rw [acpiSdtLoop]
    by_cases hlt : i < count
    · rw [if_pos hlt, Nat.mod_eq_of_lt (by omega), entriesMapped_step hlt]
      refine (acpiSdt_meets hv hr ht).bind ?_
      rintro tables' vm₁ - ⟨hk, ht'⟩
      refine (ih hk.view (hr.kept hk) ht' (by omega) (by omega)).mono ?_
      rintro tables₂ vm₂ - ⟨hk₂, ht₂⟩
      exact ⟨hk.trans hk₂, ht₂⟩
    · obtain rfl : i = count := by omega
      rw [if_neg hlt]
      exact MeetsIff.congr (MeetsIff.pure ⟨.refl hv, ht⟩)
        (iff_of_true trivial fun j hj hjc => absurd hjc (by omega))

/-- With 256 entries or more, the index of 8 bits never gets to their number. -/
theorem acpiSdtLoop_endless (hc : 256 ≤ count) (hi : i < 256) {x} :
    acpiSdtLoop rsdt count sdts fuel i tables vm ≠ .ok x := by
  induction fuel generalizing vm i tables with
  | zero =>
    intro h
    cases h
  | succ fuel ih =>
    intro h
    rw [acpiSdtLoop, if_pos (by omega)] at h
    obtain ⟨tables', vm₁, -, h⟩ := exists_of_bind_run h
    exact ih (Nat.mod_lt _ (by decide)) h

/-! ## The whole run -/

theorem poweroffMapped_none : PoweroffMapped mem none := by
  rintro fadt ⟨⟩

theorem poweroffMapped_some {fadt : ℕ} : PoweroffMapped mem (some fadt) ↔
    PoweroffIn (InTablePages fadt (sdtLength mem fadt))
      (InTablePages (fadtDsdt mem fadt) acpiSdtSize) (mem.tableAt (fadtDsdt mem fadt)) := by
  constructor
  · intro h
    exact h fadt rfl
  · rintro h _ ⟨⟩
    exact h

theorem acpiPoweroffTables_meets (hv : AcpiView ds mem vm) (ht : TablesShown mem vm tables last) :
    MeetsIff NoMemory (acpiPoweroffTables tables) vm (PoweroffMapped mem last) fun _ _ => True := by
  cases ht with
  | none => exact MeetsIff.congr (MeetsIff.pure trivial) (iff_of_true trivial poweroffMapped_none)
  | @some tables fadt h =>
    have hf : Shows NoMemory tables.1.read vm (InTablePages fadt (sdtLength mem fadt))
        (mem.tableAt fadt) := by
      rw [← h.length_eq, ← h.fadt_eq]
      exact h.shown.shows hv
    have hd : Shows NoMemory tables.2.read vm (InTablePages (fadtDsdt mem fadt) acpiSdtSize)
        (mem.tableAt (fadtDsdt mem fadt)) := by
      rw [← h.size_eq, ← h.dsdt_eq]
      exact h.dsdtShown.shows hv
    rw [poweroffMapped_some]
    refine (hf.acpiInitPoweroff hd (sub32_lt _ _) .zero).bind_last ?_
    rintro a s' - ⟨⟨info, rfl⟩, rfl⟩
    refine (acpiMessage_meets hv).bind_true fun _ vm₁ hk₁ => ?_
    refine (acpiMessage_meets hk₁.view).bind_true fun _ vm₂ hk₂ => ?_
    exact MeetsIff.pure trivial

theorem acpiTablesMapped_iff : AcpiTablesMapped mem r ↔
    ComparedIn (InTablePages r acpiSdtSize) (mem.tableAt r) acpiRsdtSignature 0 ∧
      ((mem.tableAt r).HasBytes 0 acpiRsdtSignature → RsdtMapped mem r) :=
  ⟨fun ⟨h1, h2⟩ => ⟨h1, h2⟩, fun ⟨h1, h2⟩ => ⟨h1, h2⟩⟩

theorem rsdtMapped_iff : RsdtMapped mem r ↔ InTablePages r acpiSdtSize 7 ∧
    (sdtCount mem r < 256 ∧ ∀ i < sdtCount mem r, EntryMapped mem r i) ∧
      PoweroffMapped mem (lastFadt mem r (sdtCount mem r)) :=
  ⟨fun ⟨h1, h2, h3, h4⟩ => ⟨h1, ⟨h2, h3⟩, h4⟩, fun ⟨h1, ⟨h2, h3⟩, h4⟩ => ⟨h1, h2, h3, h4⟩⟩

/-- The entries and powering off. -/
theorem acpiSdts_meets (hv : AcpiView ds mem vm) (hr : RsdtShown vm rsdt r) (hf : count < fuel) :
    MeetsIff NoMemory (do
        let sdts ← acpiKmalloc (4 * count)
        let tables ← acpiSdtLoop rsdt count sdts fuel 0 none
        let info ← acpiPoweroffTables tables
        pure ((0 : ℤ), info)) vm
      ((count < 256 ∧ ∀ i < count, EntryMapped mem r i) ∧ PoweroffMapped mem (lastFadt mem r count))
      fun _ _ => True := by
  have hlast : ∀ {vm' : Vm σ} {info : AcpiPoweroffInformation},
      MeetsIff NoMemory (pure ((0 : ℤ), info)) vm' True fun _ _ => True := MeetsIff.pure trivial
  obtain ⟨fuel, rfl⟩ : ∃ k, fuel = k + 1 := Nat.exists_eq_add_one.2 (by omega)
  rcases Nat.lt_or_ge count 256 with hc | hc
  · rcases Nat.eq_zero_or_pos count with rfl | hpos
    · -- an object of no bytes, of which the contract says nothing
      refine MeetsIff.congr (C := True) ?_ (iff_of_true trivial ⟨⟨hc, ?_⟩, poweroffMapped_none⟩)
      · exact MeetsIff.of_ok rfl trivial
      · intro i hi
        exact absurd hi (Nat.not_lt_zero i)
    · have hreq : Request (4 * count) := ⟨by omega, by omega⟩
      rw [and_iff_right hc]
      refine (acpiKmalloc_meets hv hreq).bind_true fun sdts vm₁ hk₁ => ?_
      have hloop : MeetsIff NoMemory (acpiSdtLoop rsdt count sdts (fuel + 1) 0 none) vm₁
          (∀ i < count, EntryMapped mem r i) fun tables vm₂ =>
            ViewKept ds mem vm₁ vm₂ ∧ TablesShown mem vm₂ tables (lastFadt mem r count) :=
        (acpiSdtLoop_meets hk₁.view (hr.kept hk₁) .none hc (Nat.zero_le _) hf).congr
          (forall_congr' fun i => imp_iff_right (Nat.zero_le i))
      refine hloop.bind ?_
      rintro tables vm₂ - ⟨hk₂, ht⟩
      exact (acpiPoweroffTables_meets hk₂.view ht).bind_last fun _ _ _ _ => hlast
  · refine MeetsIff.congr (C := False) ?_ (iff_of_false id fun h => absurd h.1.1 (not_lt.2 hc))
    refine MeetsIff.of_fails fun x hx => ?_
    obtain ⟨sdts, vm₁, -, hx⟩ := exists_of_bind_run hx
    obtain ⟨tables, vm₂, hloop, -⟩ := exists_of_bind_run hx
    exact acpiSdtLoop_endless hc (by decide) hloop

/-- **The run**, from any state with proper page tables. -/
theorem acpiInit_meets (hv : AcpiView ds mem vm) (r : ℕ) :
    MeetsIff NoMemory (acpiInit (some r)) vm (AcpiTablesMapped mem r) fun _ _ => True := by
  rw [acpiTablesMapped_iff]
  refine (acpiMapTable_header hv _).bind_true fun rsdt vm₁ hrsdt => ?_
  refine MeetsIff.bind (hrsdt.shows.memcmpTable acpiRsdtSignature 0) ?_
  rintro c s' - ⟨hc, rfl⟩
  by_cases hs : (mem.tableAt r).HasBytes 0 acpiRsdtSignature
  · rw [if_neg (not_not.2 (hc.2 hs)), imp_iff_right hs, rsdtMapped_iff]
    refine (acpiMessage_meets hrsdt.kept.view).bind_true fun _ vm₂ hk₂ => ?_
    have hr₂ : RsdtShown vm₂ rsdt r :=
      ⟨hrsdt.physical_eq, hrsdt.size_eq, hk₂.shown _ hrsdt.shown⟩
    refine LooksIff.bind ((hr₂.shows hk₂.view).readField32 4) fun _ => ?_
    have hlt := sub32_lt (sdtLength mem r) acpiSdtSize
    exact acpiSdts_meets hk₂.view hr₂ (Nat.lt_of_le_of_lt (Nat.div_le_self _ 4) hlt)
  · rw [if_pos fun hz => hs (hc.1 hz)]
    exact MeetsIff.congr (MeetsIff.pure trivial) (iff_of_true trivial fun hx => absurd hx hs)

end

open AddressSpaces

/-- **Reading the tables**: unless memory runs out, `acpi_init` ends and reads every byte of
    the tables through the pages mapped for its table, exactly if the tables lie so. -/
theorem acpi_tables_mapped {s : AddressSpaces KernelHeap}
    (hr : (addressSpaceSystem Starts Clean).Reachable s) (rsdt : Option ℕ)
    (hm : acpiInit rsdt s.vm ≠ .error .noMemory) :
    (∃ x, acpiInit rsdt s.vm = .ok x) ↔ ∀ r, rsdt = some r → AcpiTablesMapped s.vm.mem r := by
  have hi := reachable_spacesInv hr
  cases rsdt with
  | none =>
    refine iff_of_true ⟨_, rfl⟩ ?_
    rintro r ⟨⟩
  | some r =>
    have h := (acpiInit_meets ⟨hi.ok, hi.current, hi.enabled, rfl⟩ r).returns_iff ?_
    · rw [h]
      constructor
      · rintro hx _ ⟨⟩
        exact hx
      · intro hx
        exact hx r rfl
    · rintro e he rfl
      exact hm he

/-! ### Three tables -/

/-- An RSDT with one entry, for the FADT at `0x21000`. -/
def oneRsdt : List UInt8 :=
  acpiRsdtSignature ++ Mem.bytes32 40 ++ List.replicate 28 0 ++ Mem.bytes32 0x21000

/-- An FADT with the address of the DSDT, and PM1a at port 0x604. -/
def oneFadt (dsdt : ℕ) : List UInt8 :=
  acpiFadtSignature ++ Mem.bytes32 72 ++ List.replicate 32 0 ++ Mem.bytes32 dsdt ++
    List.replicate 20 0 ++ Mem.bytes32 0x604 ++ Mem.bytes32 0

/-- The RSDT at `0x20000`, the FADT at `0x21000`, and the DSDT behind. -/
def tablesMem (dsdt : ℕ) : Mem := fun a =>
  if a < 0x21000 then Mem.ofList oneRsdt (fun _ => 0) (a - 0x20000)
  else if a < dsdt then Mem.ofList (oneFadt dsdt) (fun _ => 0) (a - 0x21000)
  else sleepDsdt 5 (a - dsdt)

def tablesVm (dsdt : ℕ) : Vm KernelHeap := { emptyVm with mem := tablesMem dsdt }

theorem tablesVm_reachable (dsdt : ℕ) : (addressSpaceSystem Starts Clean).Reachable
    ⟨tablesVm dsdt, [emptyVm.kernelPageDirectory]⟩ :=
  .init (Starts.of_boots (emptyVm_boots _))

theorem acpi_tables_mapped_pages : acpiInit (some 0x20000) (tablesVm 0x22000) ≠ .error .noMemory ∧
    AcpiTablesMapped (tablesMem 0x22000) 0x20000 := by
  have hrun : (acpiInit (some 0x20000) (tablesVm 0x22000)).map Prod.fst =
      .ok (0, ⟨0, 0, 0x604, 0⟩) := by decide +kernel
  obtain ⟨x, hx, -⟩ := exists_of_map_ok hrun
  have hm : acpiInit (some 0x20000) (tablesVm 0x22000) ≠ .error .noMemory := by
    rw [hx]
    intro h
    cases h
  exact ⟨hm, (acpi_tables_mapped (tablesVm_reachable 0x22000) (some 0x20000) hm).1 ⟨x, hx⟩ _ rfl⟩

/-- **A DSDT six bytes before a page boundary** is mapped with one page, and its length lies
    in the next. -/
theorem acpi_dsdt_crosses : (addressSpaceSystem Starts Clean).Reachable
      ⟨tablesVm 0x22ffa, [emptyVm.kernelPageDirectory]⟩ ∧
    (acpiInit (some 0x20000) (tablesVm 0x22ffa)).map Prod.fst = .error .outside :=
  ⟨tablesVm_reachable 0x22ffa, by decide +kernel⟩

end Ttos
