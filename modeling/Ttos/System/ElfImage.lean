/-
  The program image the ELF loader leaves in memory.

  * `ElfWellFormed`: a file whose headers and segments are in order.
  * `ImageLoaded`: the bytes of the segments are in place, their pages are the new ones,
    and no byte that was mapped before has changed.
  * `elf_load_image`: `elf_load` loads the image, unless memory runs out.
-/
import Ttos.Memory.PageFrames
import Ttos.System.ElfConfined

namespace Ttos

open Elf Vm Traced AddressSpaces

/-! ## Files -/

/-- The segment of the program header number `i`, if it is a LOAD segment. -/
def loadSegment (data : Mem) (i : ℕ) : Option ElfProgramHeader :=
  let offset := ePhoff data + elfProgramHeaderSize * i
  if pType data offset = elfProgramTypeLoad then some (programHeader data offset) else none

/-- The LOAD segments of a file. -/
def loadSegments (data : Mem) : List ElfProgramHeader :=
  (List.range (ePhnum data)).filterMap (loadSegment data)

namespace ElfProgramHeader

/-- The address is on a page of the segment. -/
def Covers (h : ElfProgramHeader) (address : ℕ) : Prop :=
  h.pVaddr ≤ address ∧ address < h.pVaddr + 4096 * pageCount h.pMemsz

/-- The byte number `i` of the segment. -/
def imageByte (h : ElfProgramHeader) (data : Mem) (i : ℕ) : UInt8 :=
  if i < h.pFilesz then data (h.pOffset + i) else 0

/-- The file range is in the file, and the segment begins at a page boundary and lies in
    user space. -/
structure WellFormed (h : ElfProgramHeader) (size : ℕ) : Prop where
  file : h.pOffset + h.pFilesz ≤ size
  fits : h.pFilesz ≤ h.pMemsz
  aligned : h.pVaddr % 4096 = 0
  start : vmmUserSpaceBase ≤ h.pVaddr
  stop : h.pVaddr + h.pMemsz ≤ vmmKernelSpaceBase

end ElfProgramHeader

/-- The program headers are in the file, and the segments are well formed and on pages of
    their own. -/
structure ElfWellFormed (data : Mem) (size : ℕ) : Prop where
  valid : elfIsValid data size = true
  fileSize : size < 4294967296
  headers : ∀ i < ePhnum data, ePhoff data + elfProgramHeaderSize * (i + 1) ≤ size
  segments : ∀ h ∈ loadSegments data, h.WellFormed size
  apart : (loadSegments data).Pairwise fun h h' => ∀ u, ¬ (h.Covers u ∧ h'.Covers u)

/-- The byte at an address of an address space, if its page is mapped. -/
def Vm.byteAt {σ : Type*} (vm : Vm σ) (dir address : ℕ) : Option UInt8 :=
  if vm.pagingIsPageUsed dir address then
    some (vm.mem (vm.pagingVirtualToPhysicalAddress dir address))
  else none

/-- The segments are loaded: their bytes are in place, their pages have become used, and
    the bytes that were mapped in the address spaces `ds` are as before. -/
structure ImageLoaded {σ : Type*} (data : Mem) (segments : List ElfProgramHeader) (ds : List ℕ)
    (vm vm' : Vm σ) : Prop where
  current : vm'.currentPageDirectory = vm.currentPageDirectory
  bytes : ∀ h ∈ segments, ∀ i < h.pMemsz,
    vm'.byteAt vm'.currentPageDirectory (h.pVaddr + i) = some (h.imageByte data i)
  used : ∀ u < 4294967296, vm'.vmmIsMapped u = true ↔
    vm.vmmIsMapped u = true ∨ ∃ h ∈ segments, h.Covers u
  others : ∀ d ∈ ds, ∀ u b, vm.byteAt d u = some b → vm'.byteAt d u = some b

variable {σ : Type} [Allocator σ] {vm vm' vm₁ vm₂ : Vm σ} {ds spaces : List ℕ} {data : Mem}
  {d v x size a n r : ℕ} {w : Bool} {h : ElfProgramHeader} {segments : List ElfProgramHeader}

namespace ImageLoaded

omit [Allocator σ] in
theorem nil : ImageLoaded data [] ds vm vm := by
  refine ⟨rfl, fun h hh => absurd hh List.not_mem_nil, fun u _ => ?_, fun _ _ _ _ hb => hb⟩
  exact ⟨Or.inl, fun hu => hu.resolve_right fun ⟨h, hh, _⟩ => absurd hh List.not_mem_nil⟩

omit [Allocator σ] in
/-- **One segment after the other**: later ones leave the bytes of earlier ones. -/
theorem cons (h1 : ImageLoaded data [h] ds vm vm₁) (h2 : ImageLoaded data segments ds vm₁ vm₂)
    (hc : vm.currentPageDirectory ∈ ds) : ImageLoaded data (h :: segments) ds vm vm₂ := by
  refine ⟨h2.current.trans h1.current, fun h' hh' i hi => ?_, fun u hu => ?_, fun d hd u b hb => ?_⟩
  · rcases List.mem_cons.1 hh' with rfl | hh'
    · have hb := h1.bytes h' (List.mem_singleton_self _) i hi
      rw [h2.current]
      exact h2.others _ (h1.current ▸ hc) _ _ hb
    · exact h2.bytes h' hh' i hi
  · rw [h2.used u hu, h1.used u hu]
    simp only [List.mem_cons, List.not_mem_nil, or_false, exists_eq_left, exists_eq_or_imp, or_assoc]
  · exact h2.others d hd u b (h1.others d hd u b hb)

end ImageLoaded

/-! ## Bytes and pages -/

theorem byteAt_eq (hok : TablesOk vm ds) (hd : d ∈ ds) (hp : vm.pagingEnabled = true) :
    vm.byteAt d x = (vm.page d x).map fun e => vm.mem (e.frameIndex * 4096 + pageOffset x) := by
  rw [byteAt, isPageUsed_eq hok hd, translate_eq hp]
  cases vm.page d x with
  | none => rfl
  | some e =>
    have hlt := e.pageBase.isLt
    have hoff : pageOffset x < 4096 := Nat.mod_lt _ (by decide)
    have hu : u32 (e.frame + pageOffset x) = e.frameIndex * 4096 + pageOffset x := by
      unfold PageTableEntry.frame PageTableEntry.frameIndex
      exact u32_of_lt (by omega)
    simp only [Option.isSome_some, if_true, Option.map_some, hu]

omit [Allocator σ] in
/-- Writing a byte to a mapped address. -/
theorem storeByte_page {e : PageTableEntry} (he : vm.page vm.currentPageDirectory x = some e) (b : UInt8) :
    vm.storeByte x b = .ok (vm.withMem (vm.mem.store8 (vm.vmmGetPhysicalAddress x) b)) := by
  have hpres := page_present he
  unfold page at he
  unfold storeByte
  cases hx : vm.entryAt vm.currentPageDirectory x with
  | none => rw [hx] at he; cases he
  | some e' =>
    rw [hx, Option.filter_eq_some_iff] at he
    simp only [Option.some.injEq] at he
    obtain ⟨rfl, -⟩ := he
    simp only [hpres, Bool.not_true, Bool.false_eq_true, if_false]

/-! ## Filling a segment -/

omit [Allocator σ] in
/-- Bytes written to places of their own: they are there, and no other place has changed. -/
theorem elfFill_result (mapped : ℕ → Bool) {byte : ℕ → Traced ElfAccess Stop UInt8} {b : ℕ → UInt8}
    (place : ℕ → ℕ) (hbyte : ∀ i, (byte i).result = .ok (b i)) (n i : ℕ)
    (hstore : ∀ m j, i ≤ j → j < i + n → ∀ c, (vm.withMem m).storeByte (u32 (h.pVaddr + j)) c =
      .ok (vm.withMem (m.store8 (place j) c)))
    (hplace : ∀ j j', i ≤ j → j < i + n → i ≤ j' → j' < i + n → place j = place j' → j = j')
    (m : Mem) : ∃ m', (elfFill h mapped byte n i (vm.withMem m)).result = .ok (vm.withMem m') ∧
      (∀ j, i ≤ j → j < i + n → m' (place j) = b j) ∧
      ∀ x, (∀ j, i ≤ j → j < i + n → x ≠ place j) → m' x = m x := by
  induction n generalizing i m with
  | zero =>
    refine ⟨m, rfl, fun j h1 h2 => ?_, fun _ _ => rfl⟩
    omega
  | succ n ih =>
    obtain ⟨m', hr, hnew, hold⟩ := ih (i + 1) (fun m j h1 h2 => hstore m j (by omega) (by omega))
      (fun j j' h1 h2 h3 h4 => hplace j j' (by omega) (by omega) (by omega) (by omega))
      (m.store8 (place i) (b i))
    refine ⟨m', ?_, fun j h1 h2 => ?_, fun x hx => ?_⟩
    · rw [elfFill, result_bind (hbyte i), result_bind (result_tell _), hstore m i le_rfl (by omega),
        result_bind (result_lift _)]
      exact hr
    · rcases Nat.eq_or_lt_of_le h1 with rfl | h1
      · -- the bytes behind go to other places
        rw [hold (place i) fun j hj hj' heq => ?_, Mem.store8_in]
        have := hplace i j le_rfl (by omega) (by omega) (by omega) heq
        omega
      · exact hnew j h1 (by omega)
    · rw [hold x fun j h1 h2 => hx j (by omega) (by omega), Mem.store8_out]
      exact hx i le_rfl (by omega)

omit [Allocator σ] in
/-- **A segment whose pages have places of their own** is filled with its image. -/
theorem elfSegment_result (data : Mem) (mapped : ℕ → Bool) (place : ℕ → ℕ) (hw : h.WellFormed size)
    (hs : size < 4294967296)
    (hstore : ∀ m, ∀ j < h.pMemsz, ∀ c, (vm.withMem m).storeByte (u32 (h.pVaddr + j)) c =
      .ok (vm.withMem (m.store8 (place j) c)))
    (hplace : ∀ j < h.pMemsz, ∀ j' < h.pMemsz, place j = place j' → j = j') :
    ∃ m, (elfSegment data h mapped vm).result = .ok (vm.withMem m) ∧
      (∀ j < h.pMemsz, m (place j) = h.imageByte data j) ∧
      ∀ x, (∀ j < h.pMemsz, x ≠ place j) → m x = vm.mem x := by
  have hfits := hw.fits
  have hfile := hw.file
  have hread : ∀ j, (elfByte data h j).result = .ok (data (u32 (h.pOffset + j))) := fun _ => rfl
  obtain ⟨m₁, hr₁, hnew₁, hold₁⟩ := elfFill_result mapped place hread h.pFilesz 0
    (fun m j _ hj => hstore m j (by omega))
    (fun j j' _ h1 _ h2 => hplace j (by omega) j' (by omega)) vm.mem
  have hcopy : (elfCopy data h mapped vm).result = .ok (vm.withMem m₁) := hr₁
  rw [Nat.zero_add] at hnew₁ hold₁
  have hfileByte : ∀ j < h.pFilesz, m₁ (place j) = h.imageByte data j := by
    intro j hj
    have hu : u32 (h.pOffset + j) = h.pOffset + j := u32_of_lt (by omega)
    rw [hnew₁ j (Nat.zero_le j) hj, hu, ElfProgramHeader.imageByte, if_pos hj]
  rw [elfSegment, result_bind hcopy]
  by_cases hlt : h.pFilesz < h.pMemsz
  · rw [if_pos hlt]
    have hzero : ∀ _ : ℕ, (pure 0 : Traced ElfAccess Stop UInt8).result = .ok 0 := fun _ => rfl
    obtain ⟨m₂, hr₂, hnew₂, hold₂⟩ := elfFill_result mapped place hzero (h.pMemsz - h.pFilesz)
      h.pFilesz (fun m j _ hj => hstore m j (by omega))
      (fun j j' _ h1 _ h2 => hplace j (by omega) j' (by omega)) m₁
    refine ⟨m₂, hr₂, fun j hj => ?_, fun x hx => ?_⟩
    · by_cases hf : j < h.pFilesz
      · rw [hold₂, hfileByte j hf]
        intro j' h1 h2 heq
        have := hplace j hj j' (by omega) heq
        omega
      · rw [hnew₂ j (by omega) (by omega), ElfProgramHeader.imageByte, if_neg hf]
    · rw [hold₂ x fun j _ hj => hx j (by omega), hold₁ x fun j _ hj => hx j (by omega)]
  · rw [if_neg hlt]
    refine ⟨m₁, rfl, fun j hj => hfileByte j (by omega), fun x hx => ?_⟩
    exact hold₁ x fun j _ hj => hx j (by omega)

/-! ## Mapping a segment -/

/-- **The pages of a segment** are mapped to new frames, unless memory runs out. -/
theorem vmmMapMemory_segment (h : TablesOk vm ds) (hc : vm.currentPageDirectory ∈ ds)
    (ht : vm.pmm.numMemoryFrames = pmmNumFrames) (hal : v % 4096 = 0) (hv : 4096 ≤ v)
    (hstop : v + size ≤ 3221225472)
    (hn : ∀ u, v ≤ u → u < v + 4096 * pageCount size →
      vm.page vm.currentPageDirectory u = none) :
    (∃ e, vm.vmmMapMemory v size 0 false w = .error e ∧ MemoryExhausted e) ∨
      ∃ vm', vm.vmmMapMemory v size 0 false w = .ok (v, vm') ∧
        RangeMapped ds (v / 4096) (pageCount size) vm vm' ∧
        FreshFrames vm.currentPageDirectory (v / 4096) (pageCount size) vm vm' := by
  obtain ⟨a, rfl⟩ : ∃ a, v = 4096 * a := ⟨v / 4096, by omega⟩
  have hcount : size ≤ 4096 * pageCount size ∧ 4096 * pageCount size < size + 4096 := by
    unfold pageCount
    omega
  have hdown : vmmAlignDown (4096 * a) = 4096 * a := by
    unfold vmmAlignDown
    omega
  have hend : u32 (4096 * a + size) = 4096 * a + size := u32_of_lt (by omega)
  unfold vmmMapMemory
  rw [vmmPlace, if_pos (show 4096 * a ≠ 0 by omega)]
  simp only [hdown, hend, Nat.mul_div_cancel_left a (show 0 < 4096 by decide)]
  have hfuel : pageCount size < vmmFuel := by
    simp only [vmmFuel]
    omega
  have hside : ∀ i < pageCount size, false = true ↔ vmmKernelSpaceBase ≤ 4096 * (a + i) := by
    intro i hi
    simp only [vmmKernelSpaceBase]
    exact iff_of_false Bool.false_ne_true (by omega)
  rcases vmmMapLoop_unused (w := w) (4096 * a) h hc (show a ≠ 0 by omega)
    (show a + pageCount size < 1048576 by omega) (show 4096 * a + size ≤ _ by omega) (by omega)
    hside (fun i hi => hn _ (by omega) (by omega)) hfuel 0 with ⟨e, he, hex⟩ | ⟨vm', hm⟩
  · exact Or.inl ⟨e, he, hex⟩
  · obtain ⟨n, h1, h2, hrange, hfresh⟩ := vmmMapLoop_fresh (by omega) ht h hc (by omega) hm
    obtain rfl : n = pageCount size := by omega
    exact Or.inr ⟨vm', hm, hrange, hfresh⟩

/-! ## Loading a segment -/

omit [Allocator σ] in
theorem ElfProgramHeader.Covers.lt {u : ℕ} (hu : h.Covers u) (hw : h.WellFormed size) :
    u < 4294967296 := by
  have hal := hw.aligned
  have hstop : h.pVaddr + h.pMemsz ≤ 3221225472 := hw.stop
  have hlt := hu.2
  unfold pageCount at hlt
  omega

theorem covers_iff (hw : h.WellFormed size) {u : ℕ} (hu : u < 4294967296) : h.Covers u ↔
    h.pVaddr / 4096 ≤ pageNumber u ∧ pageNumber u < h.pVaddr / 4096 + pageCount h.pMemsz := by
  have hal := hw.aligned
  unfold ElfProgramHeader.Covers pageNumber
  rw [u32_of_lt hu]
  omega

/-- A mapping keeps what is known of the address spaces and of their frames. -/
theorem vmmMapMemory_keeps {p : ℕ} {k : Bool} (hi : SpacesInv ⟨vm, spaces⟩)
    (hf : FramesReserved spaces vm) (hv : v < 4294967296)
    (hm : vm.vmmMapMemory v size p k w = .ok (r, vm')) :
    SpacesInv ⟨vm', spaces⟩ ∧ FramesReserved spaces vm' := by
  refine vmmMapMemory_invariant (P := fun x => SpacesInv ⟨x, spaces⟩ ∧ FramesReserved spaces x) hv
    ?_ ?_ ⟨hi, hf⟩ hm
  · rintro x q f r x' - ⟨hx, hx'⟩ hp
    exact ⟨hx.vmmMapPage hp, hx'.vmmMapPage hx.ok hx.current hp⟩
  · rintro x q - ⟨hx, hx'⟩
    exact ⟨hx.vmmUnmapPage q, hx'.vmmUnmapPage hx.ok hx.current q⟩

theorem SpacesInv.withMem (hi : SpacesInv ⟨vm, spaces⟩) (m : Mem) :
    SpacesInv ⟨vm.withMem m, spaces⟩ where
  ok := ⟨hi.ok.live, hi.ok.slot, hi.ok.agree⟩
  enabled := hi.enabled
  nodup := hi.nodup
  live := hi.live
  kernel := hi.kernel
  current := hi.current
  apart := hi.apart
  own := hi.own

/-- **A segment is loaded**, unless memory runs out. -/
theorem segment_loaded (data : Mem) (w : Bool) (hi : SpacesInv ⟨vm, spaces⟩)
    (hf : FramesReserved spaces vm) (hw : h.WellFormed size) (hs : size < 4294967296)
    (hn : ∀ u, h.Covers u → vm.page vm.currentPageDirectory u = none) :
    (∃ e, vm.vmmMapMemory h.pVaddr h.pMemsz 0 false w = .error e ∧ MemoryExhausted e) ∨
      ∃ vm₁ vm', vm.vmmMapMemory h.pVaddr h.pMemsz 0 false w = .ok (h.pVaddr, vm₁) ∧
        (elfSegment data h (justMapped vm vm₁) vm₁).result = .ok vm' ∧
        SpacesInv ⟨vm', spaces⟩ ∧ FramesReserved spaces vm' ∧
        ImageLoaded data [h] spaces vm vm' := by
  have hstart : 4096 ≤ h.pVaddr := hw.start
  have hstop : h.pVaddr + h.pMemsz ≤ 3221225472 := hw.stop
  have hcount : h.pMemsz ≤ 4096 * pageCount h.pMemsz := by
    unfold pageCount
    omega
  rcases vmmMapMemory_segment (w := w) hi.ok hi.current hf.total hw.aligned hstart hstop
    (fun u h1 h2 => hn u ⟨h1, h2⟩) with hfail | ⟨vm₁, hm, hrange, hfresh⟩
  · exact Or.inl hfail
  obtain ⟨hi₁, hf₁⟩ := vmmMapMemory_keeps hi hf (by omega) hm
  have hcur : vm₁.currentPageDirectory = vm.currentPageDirectory := hrange.grown.statics.current
  have hmem : vm₁.mem = vm.mem := hrange.grown.statics.mem
  -- where the bytes of the segment are
  have hin : ∀ j < h.pMemsz, h.pVaddr / 4096 ≤ pageNumber (h.pVaddr + j) ∧
      pageNumber (h.pVaddr + j) < h.pVaddr / 4096 + pageCount h.pMemsz :=
    fun j hj => (covers_iff hw (by omega)).1 ⟨by omega, by omega⟩
  have hpage : ∀ j < h.pMemsz, ∃ e, vm₁.page vm.currentPageDirectory (h.pVaddr + j) = some e ∧
      vm₁.vmmGetPhysicalAddress (h.pVaddr + j) =
        e.frameIndex * 4096 + pageOffset (h.pVaddr + j) := by
    intro j hj
    obtain ⟨e, he⟩ := Option.ne_none_iff_exists'.1 (hrange.mapped _ (hin j hj).1 (hin j hj).2)
    exact ⟨e, he, physical_eq hi₁.enabled (hcur ▸ he)⟩
  have hoff : ∀ u, pageOffset u < 4096 := fun u => Nat.mod_lt _ (by decide)
  have hstore : ∀ m, ∀ j < h.pMemsz, ∀ c, (vm₁.withMem m).storeByte (u32 (h.pVaddr + j)) c =
      .ok (vm₁.withMem (m.store8 (vm₁.vmmGetPhysicalAddress (h.pVaddr + j)) c)) := by
    intro m j hj c
    obtain ⟨e, he, -⟩ := hpage j hj
    have he : (vm₁.withMem m).page vm₁.currentPageDirectory (h.pVaddr + j) = some e := hcur ▸ he
    rw [u32_of_lt (by omega)]
    exact storeByte_page he c
  have hplace : ∀ j < h.pMemsz, ∀ j' < h.pMemsz, vm₁.vmmGetPhysicalAddress (h.pVaddr + j) =
      vm₁.vmmGetPhysicalAddress (h.pVaddr + j') → j = j' := by
    intro j hj j' hj' heq
    obtain ⟨e, he, hphys⟩ := hpage j hj
    obtain ⟨e', he', hphys'⟩ := hpage j' hj'
    have h1 := hoff (h.pVaddr + j)
    have h2 := hoff (h.pVaddr + j')
    have hnum := hfresh.apart _ _ e e' (hin j hj).1 (hin j hj).2 (hin j' hj').1 (hin j' hj').2 he he'
      (by omega)
    have hsame : pageOffset (h.pVaddr + j) = pageOffset (h.pVaddr + j') := by omega
    unfold pageNumber at hnum
    unfold pageOffset at hsame
    rw [u32_of_lt (by omega), u32_of_lt (by omega)] at hnum hsame
    omega
  obtain ⟨m, hr, hnew, hold⟩ := elfSegment_result data (justMapped vm vm₁) _ hw hs hstore hplace
  have hi' : SpacesInv ⟨vm₁.withMem m, spaces⟩ := hi₁.withMem m
  have hok' : TablesOk (vm₁.withMem m) spaces := hi'.ok
  have hen' : (vm₁.withMem m).pagingEnabled = true := hi'.enabled
  refine Or.inr ⟨vm₁, vm₁.withMem m, hm, hr, hi', ⟨hf₁.total, hf₁.frames⟩, hcur, ?_, ?_, ?_⟩
  · intro h' hh' i hlt
    obtain rfl := List.mem_singleton.1 hh'
    obtain ⟨e, he, hphys⟩ := hpage i hlt
    have hpg : (vm₁.withMem m).page vm₁.currentPageDirectory (h'.pVaddr + i) = some e := hcur ▸ he
    show (vm₁.withMem m).byteAt vm₁.currentPageDirectory (h'.pVaddr + i) = _
    rw [byteAt_eq hok' hi₁.current hen', hpg, Option.map_some, ← hphys]
    exact congrArg some (hnew i hlt)
  · intro u hu
    have hold : vm.vmmIsMapped u = (vm.page vm.currentPageDirectory u).isSome :=
      isPageUsed_eq hi.ok hi.current
    have hnow : (vm₁.withMem m).vmmIsMapped u = (vm₁.page vm.currentPageDirectory u).isSome := by
      rw [← hcur]
      exact isPageUsed_eq hi'.ok hi'.current
    simp only [List.mem_singleton, exists_eq_left]
    rw [hold, hnow, covers_iff hw hu, Option.isSome_iff_ne_none, Option.isSome_iff_ne_none]
    by_cases hc : h.pVaddr / 4096 ≤ pageNumber u ∧
        pageNumber u < h.pVaddr / 4096 + pageCount h.pMemsz
    · exact iff_of_true (hrange.mapped u hc.1 hc.2) (Or.inr hc)
    · rw [hrange.others _ hi.current u fun ho => hc ⟨ho.1, ho.2.1⟩]
      exact ⟨Or.inl, fun ho => ho.resolve_right hc⟩
  · intro d hd u b hb
    rw [byteAt_eq hi.ok hd hi.enabled] at hb
    obtain ⟨e, he, rfl⟩ := Option.map_eq_some_iff.1 hb
    have hkept : (vm₁.withMem m).page d u = some e := hrange.page_some hi.ok hd he
    have hheld := hf.frames d hd u e he
    rw [byteAt_eq hok' hd hen', hkept, Option.map_some, ← hmem]
    refine congrArg some (hold _ fun j hj heq => ?_)
    -- the frame was in use before the segment got its own
    obtain ⟨e', he', hphys⟩ := hpage j hj
    have h1 := hoff u
    have h2 := hoff (h.pVaddr + j)
    have hsame : e.frameIndex = e'.frameIndex := by omega
    rw [hsame, hfresh.free _ e' (hin j hj).1 (hin j hj).2 he'] at hheld
    cases hheld

/-! ## Loading a file -/

/-- **The loop of `elf_load`** loads the segments of `n` headers, from number `index` on. -/
theorem elfLoadFrom_image (hs : size < 4294967296) (n index : ℕ)
    (hheaders : ∀ i < index + n, ePhoff data + elfProgramHeaderSize * (i + 1) ≤ size)
    (hi : SpacesInv ⟨vm, spaces⟩) (hf : FramesReserved spaces vm)
    (hw : ∀ h ∈ (List.range' index n).filterMap (loadSegment data), h.WellFormed size)
    (hap : ((List.range' index n).filterMap (loadSegment data)).Pairwise
      fun h h' => ∀ u, ¬ (h.Covers u ∧ h'.Covers u))
    (hn : ∀ h ∈ (List.range' index n).filterMap (loadSegment data), ∀ u, h.Covers u →
      vm.page vm.currentPageDirectory u = none) :
    (∃ e, (elfLoadFrom data n index vm).result = .error e ∧ MemoryExhausted e) ∨
      ∃ vm', (elfLoadFrom data n index vm).result = .ok (true, vm') ∧
        ImageLoaded data ((List.range' index n).filterMap (loadSegment data)) spaces vm vm' := by
  induction n generalizing index vm with
  | zero => exact Or.inr ⟨vm, rfl, .nil⟩
  | succ n ih =>
    have hoff : headerOffset data index = ePhoff data + elfProgramHeaderSize * index := by
      have hfit := hheaders index (by omega)
      simp only [elfProgramHeaderSize] at hfit
      rw [headerOffset, u32_of_lt]
      simp only [elfProgramHeaderSize]
      omega
    have hrest : ∀ i < index + 1 + n, ePhoff data + elfProgramHeaderSize * (i + 1) ≤ size :=
      fun i hi => hheaders i (by omega)
    rw [elfLoadFrom, result_bind (result_tell _), hoff]
    rw [List.range'_succ] at hw hap hn ⊢
    by_cases htype : pType data (ePhoff data + elfProgramHeaderSize * index) = elfProgramTypeLoad
    · have hload : loadSegment data index =
          some (programHeader data (ePhoff data + elfProgramHeaderSize * index)) := if_pos htype
      rw [List.filterMap_cons_some hload] at hw hap hn ⊢
      rw [if_neg (not_not.2 htype)]
      dsimp only
      generalize programHeader data (ePhoff data + elfProgramHeaderSize * index) = h at hw hap hn ⊢
      obtain ⟨hfirst, hothers⟩ := List.pairwise_cons.1 hap
      have hself := List.mem_cons_self (a := h)
        (l := (List.range' (index + 1) n).filterMap (loadSegment data))
      have hstart : 4096 ≤ h.pVaddr := (hw h hself).start
      rw [result_bind (result_tell _), result_bind (result_tell _), result_bind (result_tell _)]
      rcases segment_loaded data h.isWriteable hi hf (hw h hself) hs (hn h hself) with
        ⟨e, he, hex⟩ | ⟨vm₁, vm', hm, hseg, hi', hf', himage⟩
      · exact Or.inl ⟨e, result_bind_error he _, hex⟩
      · have hlift : (lift (vm.vmmMapMemory h.pVaddr h.pMemsz 0 false h.isWriteable) :
            Traced ElfAccess Stop _).result = .ok (h.pVaddr, vm₁) := hm
        rw [result_bind hlift]
        dsimp only
        rw [if_neg (by omega), result_bind (result_tell _), result_bind (result_tell _),
          result_bind hseg]
        have hfree : ∀ h' ∈ (List.range' (index + 1) n).filterMap (loadSegment data), ∀ u,
            h'.Covers u → vm'.page vm'.currentPageDirectory u = none := by
          intro h' hh' u hu
          have hmem := List.mem_cons_of_mem h hh'
          have hold : vm.vmmIsMapped u = false :=
            (isPageUsed_false hi.ok hi.current).2 (hn h' hmem u hu)
          have hused := himage.used u (hu.lt (hw h' hmem))
          have hnew : vm'.vmmIsMapped u = false := by
            rw [Bool.eq_false_iff, ne_eq, hused, hold]
            simp only [Bool.false_eq_true, List.mem_singleton, exists_eq_left, false_or]
            exact fun hc => hfirst h' hh' u ⟨hc, hu⟩
          exact (isPageUsed_false hi'.ok hi'.current).1 hnew
        rcases ih (index + 1) hrest hi' hf' (fun h' hh' => hw h' (List.mem_cons_of_mem _ hh'))
          hothers hfree with ⟨e, he, hex⟩ | ⟨vm₂, hr, himage'⟩
        · exact Or.inl ⟨e, he, hex⟩
        · exact Or.inr ⟨vm₂, hr, himage.cons himage' hi.current⟩
    · have hload : loadSegment data index = none := if_neg htype
      rw [List.filterMap_cons_none hload] at hw hap hn ⊢
      rw [if_pos htype]
      exact ih (index + 1) hrest hi hf hw hap hn

/-- **Loading produces the image**: on unused pages the segments of a well-formed file are
    loaded, each byte in its place, and nothing that was mapped before has changed; or the
    kernel panics because memory runs out. -/
theorem elf_load_image {s : AddressSpaces σ} (hr : frameKeepingSystem.Reachable s)
    (hf : ElfWellFormed data size)
    (hn : ∀ h ∈ loadSegments data, ∀ u, h.Covers u → s.vm.Unused u) :
    (∃ e, (s.vm.elfLoad data size).result = .error e ∧ MemoryExhausted e) ∨
      ∃ vm', (s.vm.elfLoad data size).result = .ok (true, vm') ∧
        ImageLoaded data (loadSegments data) s.spaces s.vm vm' := by
  obtain ⟨hi, hreserved⟩ := reachable_framesReserved hr
  rw [elfLoad, if_pos hf.valid]
  have hsegments : loadSegments data =
      (List.range' 0 (ePhnum data)).filterMap (loadSegment data) := by
    rw [loadSegments, List.range_eq_range']
  have hw := hf.segments
  have hap := hf.apart
  rw [hsegments] at hw hap hn ⊢
  refine elfLoadFrom_image hf.fileSize (ePhnum data) 0 (fun i hlt => hf.headers i (by omega)) hi
    hreserved hw hap fun h hh u hu => ?_
  exact (isPageUsed_false hi.ok hi.current).1 (hn h hh u hu)

/-- A file with two LOAD segments and a note between them: 4 bytes at 4 MiB, and 2 bytes at
    8 MiB with 6 zero bytes behind them. -/
def twoSegmentFile : List UInt8 := elfFile [52, 0, 0, 0] 3 (
  [1, 0, 0, 0, 148, 0, 0, 0, 0, 0, 0x40, 0, 0, 0, 0, 0, 4, 0, 0, 0, 4, 0, 0, 0, 5, 0, 0, 0, 0, 0, 0, 0]
  ++ (4 :: List.replicate 31 0)
  ++ [1, 0, 0, 0, 152, 0, 0, 0, 0, 0, 0x80, 0, 0, 0, 0, 0, 2, 0, 0, 0, 8, 0, 0, 0, 6, 0, 0, 0, 0, 0, 0, 0]
  ++ [0x90, 0x90, 0x90, 0xC3, 0x54, 0x54])

theorem twoSegmentFile_segments : loadSegments (fileBytes twoSegmentFile) =
    [⟨148, 0x400000, 4, 4, 5⟩, ⟨152, 0x800000, 2, 8, 6⟩] := by decide +kernel

theorem twoSegmentFile_wellFormed : ElfWellFormed (fileBytes twoSegmentFile) 154 := by
  refine ⟨by decide +kernel, by decide, ?_, ?_, ?_⟩
  · show ∀ i < 3, 52 + 32 * (i + 1) ≤ 154
    omega
  · rw [twoSegmentFile_segments]
    intro h hh
    rcases List.mem_cons.1 hh with rfl | hh
    · exact ⟨by decide, by decide, by decide, by decide, by decide⟩
    · obtain rfl := List.mem_singleton.1 hh
      exact ⟨by decide, by decide, by decide, by decide, by decide⟩
  · rw [twoSegmentFile_segments, List.pairwise_pair]
    rintro u ⟨⟨-, h1⟩, h2, -⟩
    have h1 : u < 0x400000 + 4096 * 1 := h1
    have h2 : 0x800000 ≤ u := h2
    omega

theorem emptyVm_frameKeeping :
    frameKeepingSystem.Reachable ⟨emptyVm, [emptyVm.kernelPageDirectory]⟩ :=
  .init ⟨Starts.of_boots (emptyVm_boots _), rfl⟩

theorem elf_load_image_two : ∃ vm',
    (emptyVm.elfLoad (fileBytes twoSegmentFile) 154).result = .ok (true, vm') ∧
      ImageLoaded (fileBytes twoSegmentFile) [⟨148, 0x400000, 4, 4, 5⟩, ⟨152, 0x800000, 2, 8, 6⟩]
        [emptyVm.kernelPageDirectory] emptyVm vm' := by
  obtain ⟨⟨b, vm'⟩, h, -⟩ := exists_of_check
    (x := (emptyVm.elfLoad (fileBytes twoSegmentFile) 154).result) (P := fun _ => true)
    (by decide +kernel)
  rw [← twoSegmentFile_segments]
  rcases elf_load_image emptyVm_frameKeeping twoSegmentFile_wellFormed
    (fun _ _ u _ => emptyVm_unused u) with ⟨e, he, -⟩ | hloaded
  · rw [h] at he
    cases he
  · exact hloaded

end Ttos
