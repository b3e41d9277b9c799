/-
  Confinement of the ELF loader.

  * `AccessOk`: a read of the file's bytes, or a write to the range of the segment
    being loaded in a page mapped for it;
  * `elf_load_confined`: the loader stays confined exactly when every program header
    it reaches, and every segment it could map, is well formed (`ElfSound`);
  * `elf_load_escapes`: a file accepted by `elf_is_valid` whose loading reads past its end.
-/
import Ttos.Memory.AddressSpacesRun
import Ttos.Memory.UserMapping
import Ttos.Memory.VmmRollback
import Ttos.System.Elf

namespace Ttos

open Elf Vm Traced

variable {σ : Type} [Allocator σ] {vm vm' : Vm σ} {ds : List ℕ} {data : Mem} {size a r : ℕ} {w : Bool}

/-! ## Mapping in user space -/

omit [Allocator σ] in
theorem storeByte_ok {e : PageTableEntry} (h : vm.page vm.currentPageDirectory a = some e)
    (b : UInt8) : ∃ m, vm.storeByte a b = .ok (vm.withMem m) := by
  have hp := page_present h
  unfold page at h
  unfold storeByte
  cases he : vm.entryAt vm.currentPageDirectory a with
  | none => rw [he] at h; cases h
  | some e' =>
    rw [he, Option.filter_eq_some_iff] at h
    simp only [Option.some.injEq] at h
    obtain ⟨rfl, -⟩ := h
    simp only [hp, Bool.not_true, Bool.false_eq_true, if_false]
    exact ⟨_, rfl⟩

/-- What `justMapped` says after such a mapping. -/
theorem Vm.RangeMapped.justMapped_iff {b n : ℕ} (h : TablesOk vm ds) (hc : vm.currentPageDirectory ∈ ds)
    (hm : RangeMapped ds b n vm vm') :
    justMapped vm vm' a = true ↔ b ≤ pageNumber a ∧ pageNumber a < b + n := by
  have hcur : vm'.currentPageDirectory = vm.currentPageDirectory := hm.grown.statics.current
  have hold : vm.vmmIsMapped a = (vm.page vm.currentPageDirectory a).isSome := isPageUsed_eq h hc
  have hnew : vm'.vmmIsMapped a = (vm'.page vm.currentPageDirectory a).isSome := by
    rw [vmmIsMapped, hcur]
    exact isPageUsed_eq hm.ok hc
  rw [justMapped, hold, hnew]
  by_cases hin : b ≤ pageNumber a ∧ pageNumber a < b + n
  · have h1 := hm.unused a hin.1 hin.2
    have h2 := Option.isSome_iff_ne_none.2 (hm.mapped a hin.1 hin.2)
    simp [h1, h2, hin]
  · have h1 := hm.others _ hc a (fun ho => hin ⟨ho.1, ho.2.1⟩)
    simp [h1, hin]

/-! ## Segments -/

/-- Reads inside the file, writes inside the range of the segment being loaded, in user
    space, in a page mapped for it. -/
def AccessOk (size : ℕ) : ElfAccess → Prop
  | .read offset length => offset + length ≤ size
  | .write address h mapped => address < vmmKernelSpaceBase ∧ h.pVaddr ≤ address ∧
      address < h.pVaddr + h.pMemsz ∧ mapped = true

/-- The file range is in the file and the pages mapped hold the segment. -/
structure SegmentInside (size : ℕ) (h : ElfProgramHeader) : Prop where
  file : h.pFilesz = 0 ∨ h.pOffset + h.pFilesz ≤ size
  fits : h.pFilesz ≤ h.pMemsz
  pages : h.pMemsz = 0 ∨ h.pVaddr ≠ 0 ∧
    (h.pVaddr + h.pMemsz - 1) / 4096 < h.pVaddr / 4096 + pagesMapped (h.pVaddr / 4096) h.pMemsz

omit [Allocator σ] in
/-- The loop touches the bytes of an index range, and ends when the writes are in pages
    that are mapped. -/
theorem elfFill_all {h : ElfProgramHeader} {mapped : ℕ → Bool} {P : ElfAccess → Prop}
    {byte : ℕ → Traced ElfAccess Stop UInt8} (hbyte : ∀ i, ∃ b, (byte i).result = .ok b)
    (hstore : ∀ m a, P (.write a h (mapped a)) → ∀ b,
      ∃ m', (vm.withMem m).storeByte a b = .ok (vm.withMem m')) :
    ∀ (n i : ℕ) (m : Mem),
      ((elfFill h mapped byte n i (vm.withMem m)).All P ↔
        ∀ j, i ≤ j → j < i + n → (byte j).All P ∧
          P (.write (u32 (h.pVaddr + j)) h (mapped (u32 (h.pVaddr + j))))) ∧
      ((elfFill h mapped byte n i (vm.withMem m)).All P →
        ∃ m', (elfFill h mapped byte n i (vm.withMem m)).result = .ok (vm.withMem m'))
  | 0, i, m => ⟨⟨fun _ j h1 h2 => by omega, fun _ => all_pure _ |>.2 trivial⟩, fun _ => ⟨m, rfl⟩⟩
  | n + 1, i, m => by
    obtain ⟨b, hb⟩ := hbyte i
    rw [elfFill, all_bind, result_bind hb]
    simp only [hb, Except.ok.injEq, forall_eq', all_tell_bind]
    rw [all_bind]
    simp only [all_lift, true_and, result_lift]
    by_cases hw : P (.write (u32 (h.pVaddr + i)) h (mapped (u32 (h.pVaddr + i))))
    · obtain ⟨m', hs⟩ := hstore m _ hw b
      obtain ⟨ih1, ih2⟩ := elfFill_all hbyte hstore n (i + 1) m'
      simp only [hs, Except.ok.injEq, forall_eq']
      rw [ih1]
      constructor
      · constructor
        · rintro ⟨h1, -, h2⟩ j hj hlt
          rcases Nat.eq_or_lt_of_le hj with rfl | hj
          · exact ⟨h1, hw⟩
          · exact h2 j hj (by omega)
        · intro hall
          exact ⟨(hall i le_rfl (by omega)).1, hw, fun j h1 h2 => hall j (by omega) (by omega)⟩
      · rintro ⟨-, -, h2⟩
        obtain ⟨m'', e⟩ := ih2 (ih1.2 h2)
        refine ⟨m'', ?_⟩
        rw [result_bind (result_tell _), result_bind (result_lift _)]
        exact e
    · constructor
      · exact ⟨fun hh => absurd hh.2.1 hw, fun hall => absurd (hall i le_rfl (by omega)).2 hw⟩
      · exact fun hh => absurd hh.2.1 hw

/-- Whether byte `j` of a segment may be written. -/
def ByteOk (h : ElfProgramHeader) (mapped : ℕ → Bool) (j : ℕ) : Prop :=
  AccessOk 0 (.write (u32 (h.pVaddr + j)) h (mapped (u32 (h.pVaddr + j))))

/-- The fields are 32-bit values. -/
structure ElfProgramHeader.InRange (h : ElfProgramHeader) : Prop where
  pOffset : h.pOffset < 4294967296
  pVaddr : h.pVaddr < 4294967296
  pFilesz : h.pFilesz < 4294967296
  pMemsz : h.pMemsz < 4294967296

/-- All bytes written are in the range and in pages mapped for it exactly when the file
    range is no longer than the range, and the pages mapped hold the range. -/
theorem bytesOk_iff {h : ElfProgramHeader} (hr : h.InRange) {mapped : ℕ → Bool}
    (ha : a ≠ 0) (hav : h.pVaddr ≠ 0 → a = h.pVaddr / 4096)
    (hmapped : ∀ x, mapped x = true ↔
      a ≤ pageNumber x ∧ pageNumber x < a + pagesMapped a h.pMemsz)
    (huser : pagesMapped a h.pMemsz = 0 ∨ 4096 * (a + pagesMapped a h.pMemsz) ≤ vmmKernelSpaceBase) :
    (∀ j, j < max h.pFilesz h.pMemsz → ByteOk h mapped j) ↔
      h.pFilesz ≤ h.pMemsz ∧ (h.pMemsz = 0 ∨ h.pVaddr ≠ 0 ∧
        (h.pVaddr + h.pMemsz - 1) / 4096 <
          h.pVaddr / 4096 + pagesMapped (h.pVaddr / 4096) h.pMemsz) := by
  obtain ⟨-, hv, hf, hm⟩ := hr
  simp only [vmmKernelSpaceBase] at huser
  have hpn : ∀ y, pageNumber (u32 y) = u32 y / 4096 := fun y => by
    rw [pageNumber, u32_of_lt (u32_lt y)]
  constructor
  · intro hall
    constructor
    · -- the byte right behind the range is not in it
      by_contra hlt
      obtain ⟨-, h1, h2, -⟩ := hall h.pMemsz (by omega)
      unfold u32 at h1 h2
      omega
    · by_cases h0 : h.pMemsz = 0
      · exact Or.inl h0
      obtain ⟨-, -, -, hp0⟩ := hall 0 (by omega)
      obtain ⟨-, h1, -, hp⟩ := hall (h.pMemsz - 1) (by omega)
      have hlo := ((hmapped _).1 hp0).1
      have hhi := ((hmapped _).1 hp).2
      rw [hpn] at hlo hhi
      rw [add_zero, u32_of_lt hv] at hlo
      have hv0 : h.pVaddr ≠ 0 := by
        intro hz
        rw [hz] at hlo
        omega
      have hw : h.pVaddr + (h.pMemsz - 1) < 4294967296 := by
        unfold u32 at h1
        omega
      rw [u32_of_lt hw, hav hv0] at hhi
      refine Or.inr ⟨hv0, ?_⟩
      rw [Nat.add_sub_assoc (by omega)]
      exact hhi
  · rintro ⟨hle, hz | ⟨hv0, hlast⟩⟩ j hj
    · omega
    have hpos : pagesMapped (h.pVaddr / 4096) h.pMemsz ≠ 0 := by
      intro hz
      rw [hz] at hlast
      omega
    obtain rfl := hav hv0
    have hu := huser.resolve_left hpos
    have hlt : h.pVaddr + j < 3221225472 := by omega
    have hx : u32 (h.pVaddr + j) = h.pVaddr + j := u32_of_lt (by omega)
    rw [ByteOk, hx]
    refine ⟨hlt, by omega, by omega, (hmapped _).2 ?_⟩
    rw [pageNumber, hx]
    omega

/-- The bytes read are the file's exactly when the file range is in the file. -/
theorem elfByte_all {h : ElfProgramHeader} (hr : h.InRange) (hs : size < 4294967296) :
    (∀ j, j < h.pFilesz → (elfByte data h j).All (AccessOk size)) ↔
      h.pFilesz = 0 ∨ h.pOffset + h.pFilesz ≤ size := by
  have hb : ∀ j, (elfByte data h j).All (AccessOk size) ↔ u32 (h.pOffset + j) + 1 ≤ size := by
    intro j
    rw [elfByte, all_tell_bind]
    exact ⟨fun hh => hh.1, fun hh => ⟨hh, (all_pure _).2 trivial⟩⟩
  have ho := hr.pOffset
  simp only [hb]
  constructor
  · intro hall
    by_contra hbad
    rw [not_or] at hbad
    obtain ⟨h0, hgt⟩ := hbad
    have h1 := hall 0 (by omega)
    rw [add_zero, u32_of_lt ho] at h1
    -- the byte right behind the file
    have h2 := hall (size - h.pOffset) (by omega)
    rw [show h.pOffset + (size - h.pOffset) = size by omega, u32_of_lt hs] at h2
    omega
  · rintro (h0 | hle) j hj
    · omega
    · rw [u32_of_lt (by omega)]
      omega

/-- **A segment whose pages were mapped** is filled within bounds exactly when it is well
    formed. -/
theorem elfSegment_all (data : Mem) {h : ElfProgramHeader} (hok : TablesOk vm ds)
    (hc : vm.currentPageDirectory ∈ ds) (hr : h.InRange) (hs : size < 4294967296)
    (hm : vm.vmmMapMemory h.pVaddr h.pMemsz 0 false w = .ok (r, vm')) (hr0 : r ≠ 0) :
    ((elfSegment data h (justMapped vm vm') vm').All (AccessOk size) ↔ SegmentInside size h) ∧
      ((elfSegment data h (justMapped vm vm') vm').All (AccessOk size) →
        ∃ m, (elfSegment data h (justMapped vm vm') vm').result = .ok (vm'.withMem m)) := by
  obtain ⟨a, ha, hav, hrange, huser, -⟩ := vmmMapMemory_user hok hc hr.pVaddr hr.pMemsz hm hr0
  have hcur : vm'.currentPageDirectory = vm.currentPageDirectory := hrange.grown.statics.current
  have hmapped : ∀ x, justMapped vm vm' x = true ↔
      a ≤ pageNumber x ∧ pageNumber x < a + pagesMapped a h.pMemsz := fun x =>
    hrange.justMapped_iff hok hc
  have hstore : ∀ m x, AccessOk size (.write x h (justMapped vm vm' x)) → ∀ b,
      ∃ m', (vm'.withMem m).storeByte x b = .ok (vm'.withMem m') := by
    rintro m x ⟨-, -, -, hx⟩ b
    obtain ⟨h1, h2⟩ := (hmapped x).1 hx
    obtain ⟨e, he⟩ := Option.ne_none_iff_exists'.1 (hrange.mapped x h1 h2)
    refine storeByte_ok (e := e) ?_ b
    rw [← hcur] at he
    exact he
  have hclear : ∀ m, ((elfClear h (justMapped vm vm') (vm'.withMem m)).All (AccessOk size) ↔ _) ∧
      (_ → ∃ m', (elfClear h (justMapped vm vm') (vm'.withMem m)).result = .ok (vm'.withMem m')) :=
    fun m => elfFill_all (fun i => ⟨0, rfl⟩) hstore (h.pMemsz - h.pFilesz) h.pFilesz m
  have hboth : ((elfCopy data h (justMapped vm vm') vm').All (AccessOk size) ↔ _) ∧
      (_ → ∃ m, (elfCopy data h (justMapped vm vm') vm').result = .ok (vm'.withMem m)) :=
    elfFill_all (fun i => ⟨_, rfl⟩) hstore h.pFilesz 0 vm'.mem
  obtain ⟨hcopy, hend⟩ := hboth
  rw [zero_add] at hcopy
  have hsegment : (elfSegment data h (justMapped vm vm') vm').All (AccessOk size) ↔
      (∀ j, j < h.pFilesz → (elfByte data h j).All (AccessOk size)) ∧
        ∀ j, j < max h.pFilesz h.pMemsz → ByteOk h (justMapped vm vm') j := by
    rw [elfSegment, all_bind]
    constructor
    · rintro ⟨h1, h2⟩
      have hc1 := hcopy.1 h1
      obtain ⟨m, e⟩ := hend h1
      refine ⟨fun j hj => (hc1 j j.zero_le hj).1, fun j hj => ?_⟩
      by_cases hjf : j < h.pFilesz
      · exact (hc1 j j.zero_le hjf).2
      · have h3 := h2 _ e
        rw [if_pos (by omega)] at h3
        exact ((hclear m).1.1 h3 j (by omega) (by omega)).2
    · rintro ⟨h1, h2⟩
      have hall : (elfCopy data h (justMapped vm vm') vm').All (AccessOk size) :=
        hcopy.2 fun j _ hj => ⟨h1 j hj, h2 j (by omega)⟩
      obtain ⟨m, e⟩ := hend hall
      refine ⟨hall, fun vm'' h3 => ?_⟩
      rw [e] at h3
      cases h3
      split
      · exact (hclear m).1.2 fun j h4 h5 => ⟨(all_pure _).2 trivial, h2 j (by omega)⟩
      · exact (all_pure _).2 trivial
  constructor
  · rw [hsegment, elfByte_all hr hs, bytesOk_iff hr ha hav hmapped huser]
    exact ⟨fun ⟨h1, h2, h3⟩ => ⟨h1, h2, h3⟩, fun ⟨h1, h2, h3⟩ => ⟨h1, h2, h3⟩⟩
  · intro hall
    rw [elfSegment, all_bind] at hall
    obtain ⟨m, e⟩ := hend hall.1
    have h3 := hall.2 _ e
    rw [elfSegment, result_bind e]
    split
    · rename_i hlt
      rw [if_pos hlt] at h3
      exact (hclear m).2 h3
    · exact ⟨m, rfl⟩

/-! ## Files -/

theorem programHeader_inRange (data : Mem) (offset : ℕ) : (programHeader data offset).InRange :=
  ⟨Mem.load32_lt _ _, Mem.load32_lt _ _, Mem.load32_lt _ _, Mem.load32_lt _ _⟩

/-- The field `field` of the program header at `offset` is in the file. -/
def FieldInside (size offset field : ℕ) : Prop := u32 (offset + field) + 4 ≤ size

/-- Every program header the loader reaches is in the file, as far as it is read, and every
    segment that could be mapped is well formed; from the header `index` on, with `n` headers
    to go. -/
def ElfSound (data : Mem) (size : ℕ) : (n index : ℕ) → Vm σ → Prop
  | 0, _, _ => True
  | n + 1, index, vm =>
    let offset := headerOffset data index
    let h := programHeader data offset
    FieldInside size offset 0 ∧
    if pType data offset ≠ elfProgramTypeLoad then ElfSound data size n (index + 1) vm
    else
      -- p_flags, p_vaddr, p_memsz
      (FieldInside size offset 24 ∧ FieldInside size offset 8 ∧ FieldInside size offset 20) ∧
      ∀ r vm', vm.vmmMapMemory h.pVaddr h.pMemsz 0 false h.isWriteable = .ok (r, vm') → r ≠ 0 →
        -- p_offset, p_filesz
        (FieldInside size offset 4 ∧ FieldInside size offset 16) ∧ SegmentInside size h ∧
        ∀ vm'', (elfSegment data h (justMapped vm vm') vm').result = .ok vm'' →
          ElfSound data size n (index + 1) vm''

theorem elfLoadFrom_all (hs : size < 4294967296) (n index : ℕ) (vm : Vm σ) (hok : TablesOk vm ds)
    (hc : vm.currentPageDirectory ∈ ds) :
    (elfLoadFrom data n index vm).All (AccessOk size) ↔ ElfSound data size n index vm := by
  induction n generalizing index vm with
  | zero => exact all_pure _
  | succ n ih =>
    have h0 : AccessOk size (.read (headerOffset data index) 4) ↔
        FieldInside size (headerOffset data index) 0 := by
      have hlt : headerOffset data index < 4294967296 := u32_lt _
      rw [FieldInside, add_zero, u32_of_lt hlt]
      exact Iff.rfl
    rw [elfLoadFrom, all_tell_bind, ElfSound, h0]
    refine and_congr_right fun _ => ?_
    by_cases ht : pType data (headerOffset data index) ≠ elfProgramTypeLoad
    · simp only [if_pos ht]
      exact ih (index + 1) vm hok hc
    simp only [if_neg ht, all_tell_bind]
    generalize hh : programHeader data (headerOffset data index) = h
    have hr : h.InRange := hh ▸ programHeader_inRange data _
    rw [all_bind, ← and_assoc, ← and_assoc]
    simp only [all_lift, true_and, result_lift]
    refine and_congr (by simp only [and_assoc]; exact Iff.rfl) ?_
    rw [Prod.forall]
    refine forall_congr' fun r => forall_congr' fun vm' => forall_congr' fun hm => ?_
    by_cases hr0 : r = 0
    · simp only [hr0, if_true, ne_eq, not_true_eq_false, false_imp_iff, iff_true]
      exact (all_pure _).2 trivial
    simp only [ne_eq, hr0, not_false_eq_true, true_imp_iff, if_false, all_tell_bind]
    obtain ⟨hseg, hend⟩ := elfSegment_all data hok hc hr hs hm hr0
    rw [all_bind, hseg, ← and_assoc]
    refine and_congr Iff.rfl (and_congr_right fun hin => ?_)
    obtain ⟨m, e⟩ := hend (hseg.2 hin)
    have hvm : ∀ vm'', (elfSegment data h (justMapped vm vm') vm').result = .ok vm'' →
        vm'' = vm'.withMem m := fun vm'' h'' => Except.ok.inj (h''.symm.trans e)
    obtain ⟨a, -, -, hrange, -⟩ := vmmMapMemory_user hok hc hr.pVaddr hr.pMemsz hm hr0
    have hok' : TablesOk (vm'.withMem m) ds := ⟨hrange.ok.live, hrange.ok.slot, hrange.ok.agree⟩
    have hc' : (vm'.withMem m).currentPageDirectory ∈ ds := by
      show vm'.currentPageDirectory ∈ ds
      rw [hrange.grown.statics.current]
      exact hc
    refine forall_congr' fun vm'' => forall_congr' fun h'' => ?_
    rw [hvm vm'' h'']
    exact ih (index + 1) _ hok' hc'

/-- **The loader stays confined exactly when the file is well formed** as far as the loader
    gets: in every reachable state of the address spaces, every read is inside the file and
    every write in the range of the segment being loaded, in a page just mapped for it. -/
theorem elf_load_confined {s : AddressSpaces KernelHeap}
    (hr : (addressSpaceSystem AddressSpaces.Starts AddressSpaces.Clean).Reachable s)
    (hs : size < 4294967296) (hv : elfIsValid data size = true) :
    (s.vm.elfLoad data size).All (AccessOk size) ↔ ElfSound data size (ePhnum data) 0 s.vm := by
  have hi := reachable_spacesInv hr
  rw [elfLoad, if_pos hv]
  exact elfLoadFrom_all hs _ _ s.vm hi.ok hi.current

/-- An ELF header without sections: the offset and number of its program headers. -/
def elfFile (phoff : List UInt8) (phnum : UInt8) (rest : List UInt8) : List UInt8 :=
  [0x7F, 0x45, 0x4C, 0x46, 1, 1, 1, 0, 0, 0, 0, 0, 0, 0, 0, 0, 2, 0, 3, 0, 1, 0, 0, 0,
    0, 0, 0x40, 0] ++ phoff ++ [0, 0, 0, 0, 0, 0, 0, 0, 52, 0, 32, 0, phnum, 0, 0, 0, 0, 0, 0, 0] ++ rest

/-- The bytes of a file in a memory that is zero behind it. -/
def fileBytes (file : List UInt8) : Mem := fun i => file.getD i 0

/-- A note, and a LOAD segment of 4 bytes and 4 zeros behind them at 4 MiB. -/
def loadFile : List UInt8 := elfFile [52, 0, 0, 0] 2 ((4 :: List.replicate 31 0) ++
  [1, 0, 0, 0, 116, 0, 0, 0, 0, 0, 0x40, 0, 0, 0, 0, 0, 4, 0, 0, 0, 8, 0, 0, 0, 6, 0, 0, 0, 0, 0, 0, 0]
  ++ [0x90, 0x90, 0x90, 0xC3])

/-- One program header, 64 KiB behind the start of a file of 52 bytes. -/
def outsideFile : List UInt8 := elfFile [0, 0, 1, 0] 1 []

/-- Its first byte is written to the page that was mapped for it. -/
theorem loadFile_written : ElfAccess.write 0x400000 ⟨116, 0x400000, 4, 8, 6⟩ true ∈
    (emptyVm.elfLoad (fileBytes loadFile) 120).log := by decide +kernel

theorem elf_load_confined_load :
    (emptyVm.elfLoad (fileBytes loadFile) 120).All (AccessOk 120) ∧
      ElfAccess.write 0x400000 ⟨116, 0x400000, 4, 8, 6⟩ true ∈
        (emptyVm.elfLoad (fileBytes loadFile) 120).log := by
  refine ⟨(elf_load_confined emptyVm_reachable (by decide) (by decide)).2 ?_, loadFile_written⟩
  have hheader : programHeader (fileBytes loadFile) (headerOffset (fileBytes loadFile) 1) =
      ⟨116, 0x400000, 4, 8, 6⟩ := by decide +kernel
  show ElfSound _ _ 2 0 _
  rw [ElfSound]
  refine ⟨by unfold FieldInside; decide, ?_⟩
  rw [if_pos (by decide), ElfSound]
  refine ⟨by unfold FieldInside; decide, ?_⟩
  rw [if_neg (by decide)]
  refine ⟨by unfold FieldInside; decide, fun r vm' _ _ => ⟨by unfold FieldInside; decide, ?_,
    fun _ _ => trivial⟩⟩
  rw [hheader]
  exact ⟨Or.inr (by decide), by decide, Or.inr ⟨by decide, by decide⟩⟩

/-- **A header table behind the end of the file is read**: `e_phoff` is not compared with
    the size. -/
theorem elf_load_escapes : ¬ ∀ (s : AddressSpaces KernelHeap) (data : Mem) (size : ℕ),
    (addressSpaceSystem AddressSpaces.Starts AddressSpaces.Clean).Reachable s →
    size < 4294967296 → elfIsValid data size = true →
    (s.vm.elfLoad data size).All (AccessOk size) := by
  intro hall
  obtain ⟨vm, h⟩ := bootInit_ok
  have hr : (addressSpaceSystem AddressSpaces.Starts AddressSpaces.Clean).Reachable
      ⟨vm, [vm.kernelPageDirectory]⟩ := .init (Starts.of_boots (.init (by decide) h))
  have hbad := hall _ (fileBytes outsideFile) 52 hr (by decide) (by decide)
  have hread : ElfAccess.read 65536 4 ∈ (vm.elfLoad (fileBytes outsideFile) 52).log := by
    rw [elfLoad, if_pos (by decide)]
    exact List.mem_cons_self
  have := hbad _ hread
  revert this
  unfold AccessOk
  decide

end Ttos
