/-
  The image of the initial ramdisk, from the script that writes it to the driver.

  * `ramdisk_data`: the kernel reads from the image what was put into it.
  * `ramdisk_names`: it finds the files under their names exactly if every name
    is shorter than its field or is followed by a zero byte in the image.
-/
import Ttos.Drivers.Initrd
import Ttos.Fs.InitfsSpec
import Ttos.Memory.KernelHeap
import Ttos.Scripts.Mkinitrd

namespace Ttos

open InitfsFormat Mkinitrd

/-- The ramdisk as a volume from offset 0 on. -/
def ramdiskEnv {σ : Type} (initrd : Initrd) (stale : σ → ℕ → Mem) (stack : Mem) :
    FsEnv σ Initrd where
  volume := { offset := 0, size := initrd.size, driver := initrdDriver }
  device := initrd
  stale := stale
  stack := stack

theorem ramdiskEnv_exact {σ : Type} {initrd : Initrd} {stale : σ → ℕ → Mem} {stack : Mem}
    (h : initrd.size < 4294967296) : (ramdiskEnv initrd stale stack).Exact initrd.base := by
  intro offset n buffer hn
  have hn : offset + n ≤ initrd.size := hn
  have hu : u32 (offset + n) = offset + n := u32_of_lt (by omega)
  obtain ⟨k, hr, hk⟩ := volumeRequest_some (ramdiskEnv initrd stale stack).volume n
    (show offset ≤ initrd.size by omega)
  have hk : k = n := hk.elim (fun h => absurd h.1 (by rw [hu]; exact Nat.not_lt.2 hn)) And.right
  have hread : initrdRead initrd offset n buffer = (n, buffer.copyFrom 0 initrd.base offset n) := by
    rw [initrdRead, if_neg (by omega), initrdClamp, hu, if_neg (by omega)]
  rw [FsEnv.read, volumeRead, hr, hk]
  change initrdRead initrd (u32 (0 + offset)) n buffer = _
  rw [Nat.zero_add, u32_of_lt (by omega), hread]

/-- The files and their headers in the image, behind its first header. -/
structure HoldsFiles (files : List InputFile) (bytes : Mem) (size : ℕ) : Prop where
  image : InitfsImage bytes size
  nFiles : nFiles bytes = files.length
  offset : ∀ i < files.length, (fileHeader bytes i).offset = fileOffset files i
  length : ∀ i (h : i < files.length), (fileHeader bytes i).length = files[i].contents.length
  name : ∀ i (h : i < files.length), bytes.HasBytes (fileHeaderAt i + 2)
    (nameBytes files[i] ++ List.replicate (64 - files[i].name.toList.length) 0)
  nameEnd : ∀ i < files.length, bytes (fileHeaderAt i + 66) = UInt8.ofNat (fileOffset files i)
  contents : ∀ i (h : i < files.length),
    bytes.HasBytes (fileOffset files i) files[i].contents

section
variable {files : List InputFile} {image : List UInt8} {behind : Mem}

/-- What `initrd_init` makes of the image. -/
def imageInitrd (image : List UInt8) (behind : Mem) : Initrd where
  base a := Mem.ofList image behind (2 + a)
  size := image.length - 2

theorem image_parts (behind : Mem) (h : mkinitrd files = some image) :
    (imageInitrd image behind).base.HasBytes 0 (Mem.bytes16 Mkinitrd.initfsHeaderMagic) ∧
    (imageInitrd image behind).base.HasBytes 2 (Mem.bytes32 files.length) ∧
    (imageInitrd image behind).base.HasBytes 6 (fileHeadersBytes (6 + files.length * 74) files) ∧
    (imageInitrd image behind).base.HasBytes (6 + files.length * 74)
      (files.flatMap (·.contents)) ∧
    image.length = 8 + files.length * 74 + (files.flatMap (·.contents)).length := by
  obtain ⟨-, ha, rfl⟩ := mkinitrd_eq_some.1 h
  have hlen : (fileHeadersBytes (6 + files.length * 74) files).length = files.length * 74 := by
    refine fileHeadersBytes_length fun file hf => ?_
    obtain ⟨i, hi, rfl⟩ := List.getElem_of_mem hf
    exact (ha i hi).name_le
  have hb := Mem.ofList_hasBytes (Mem.bytes16 Mkinitrd.initrdHeaderMagic ++
    ((Mem.bytes16 Mkinitrd.initfsHeaderMagic ++ Mem.bytes32 files.length) ++
      (fileHeadersBytes (6 + files.length * 74) files ++ files.flatMap (·.contents)))) behind
  have hbase : ∀ a bs, (Mem.ofList (Mem.bytes16 Mkinitrd.initrdHeaderMagic ++
      ((Mem.bytes16 Mkinitrd.initfsHeaderMagic ++ Mem.bytes32 files.length) ++
        (fileHeadersBytes (6 + files.length * 74) files ++ files.flatMap (·.contents))))
      behind).HasBytes (2 + a) bs → (imageInitrd _ behind).base.HasBytes a bs :=
    fun a bs hbs j hj => by
      rw [← hbs j hj, imageInitrd, Nat.add_assoc]
  obtain ⟨-, h1⟩ := Mem.hasBytes_append.1 hb
  obtain ⟨h2, h3⟩ := Mem.hasBytes_append.1 h1
  obtain ⟨h4, h5⟩ := Mem.hasBytes_append.1 h2
  obtain ⟨h6, h7⟩ := Mem.hasBytes_append.1 h3
  rw [hlen] at h7
  refine ⟨hbase 0 _ h4, hbase 2 _ h5, hbase 6 _ h6, hbase _ _ ?_, ?_⟩
  · rw [← Nat.add_assoc]
    exact h7
  · simp only [List.length_append, hlen, Mem.bytes16, Mem.bytes32, List.length_cons,
      List.length_nil]
    omega

/-- `initrd_init` accepts the image. -/
theorem initrdInit_image (h : mkinitrd files = some image) (hlt : image.length < 4294967296) :
    initrdInit (Mem.ofList image behind) image.length = some (imageInitrd image behind) := by
  have hm : (Mem.ofList image behind).load16 0 = 0xCAFE := by
    obtain ⟨-, -, rfl⟩ := mkinitrd_eq_some.1 h
    exact (Mem.hasBytes_append.1 (Mem.ofList_hasBytes _ behind)).1.load16 (by decide)
  have hl := (image_parts behind h).2.2.2.2
  rw [initrdInit, if_neg (not_not_intro hm), sub32_of_le (by omega) hlt]
  rfl

/-- **The image** holds the files and their headers where the driver looks for them. -/
theorem holdsFiles (behind : Mem) (h : mkinitrd files = some image) (hlt : image.length < 4294967296) :
    HoldsFiles files (imageInitrd image behind).base (image.length - 2) := by
  obtain ⟨hn, ha, -⟩ := mkinitrd_eq_some.1 h
  obtain ⟨h1, h2, h3, h4, h5⟩ := image_parts behind h
  have hname : ∀ file ∈ files, file.name.toList.length ≤ 64 := fun file hf => by
    obtain ⟨i, hi, rfl⟩ := List.getElem_of_mem hf
    exact (ha i hi).name_le
  have hnf : nFiles (imageInitrd image behind).base = files.length := h2.load32 hn
  -- the parts of file header `i`
  have hparts : ∀ i (hi : i < files.length),
      (imageInitrd image behind).base.HasBytes (fileHeaderAt i) (Mem.bytes16 0xBEEF) ∧
      (imageInitrd image behind).base.HasBytes (fileHeaderAt i + 2)
        (nameBytes files[i] ++ List.replicate (64 - files[i].name.toList.length) 0) ∧
      (imageInitrd image behind).base.HasBytes (fileHeaderAt i + 66)
        (Mem.bytes32 (fileOffset files i)) ∧
      (imageInitrd image behind).base.HasBytes (fileHeaderAt i + 70)
        (Mem.bytes32 files[i].contents.length) := by
    intro i hi
    have hf := hasBytes_fileHeader hname h3 hi
    obtain ⟨g1, g2⟩ := Mem.hasBytes_append.1 hf
    obtain ⟨g3, g4⟩ := Mem.hasBytes_append.1 g2
    obtain ⟨g5, g6⟩ := Mem.hasBytes_append.1 g4
    have hl : (nameBytes files[i] ++
        List.replicate (64 - files[i].name.toList.length) (0 : UInt8)).length = 64 := by
      have := (ha i hi).name_le
      rw [List.length_append, nameBytes, List.length_map, List.length_replicate]
      omega
    rw [hl] at g5 g6
    exact ⟨g1, g3, g5, g6⟩
  have hoff : ∀ i < files.length,
      (fileHeader (imageInitrd image behind).base i).offset = fileOffset files i := fun i hi =>
    (hparts i hi).2.2.1.load32 (ha i hi).offset_lt
  have hlen : ∀ i (hi : i < files.length),
      (fileHeader (imageInitrd image behind).base i).length = files[i].contents.length :=
    fun i hi => (hparts i hi).2.2.2.load32 (ha i hi).length_lt
  refine ⟨⟨by omega, h1.load16 (by decide), ?_, ?_, ?_⟩, hnf, hoff, hlen,
    fun i hi => (hparts i hi).2.1, fun i hi => (hparts i hi).2.2.1 0 (by simp [Mem.bytes32]),
    fun i hi => hasBytes_contents h4 hi⟩
  · rw [hnf]
    unfold fileHeaderAt
    omega
  · rw [hnf]
    exact fun i hi => (hparts i hi).1.load16 (by decide)
  · rw [hnf]
    intro i hi
    have hs := contents_sum_le hi
    rw [hoff i hi, hlen i hi, fileOffset]
    omega

end

/-! ## Data -/

section
variable {σ : Type} [Allocator σ]

/-- The volume is probed as an initial ramdisk, its directory has an entry for
    every file and no other, and reading a file gives its bytes. -/
structure ReadsBack {δ : Type} (files : List InputFile) (env : FsEnv σ δ) : Prop where
  probe : initfsProbe env = true
  entries : ∀ index, Returns OutOfMemory (initfsReaddir env index) fun r =>
    r.isSome ↔ index < files.length
  read : ∀ i (hi : i < files.length) (node : VfsNode InitfsFileHeader), node.type = .file →
    node.inode = i → ∀ offset size buffer, offset ≤ files[i].contents.length →
    size ≤ files[i].contents.length - offset →
    Returns OutOfMemory
      (do
        let (opened, node) ← initfsOpen env node
        let (bytesRead, buffer) ← initfsRead env node offset size buffer
        pure (opened, bytesRead, buffer))
      fun r => r.1 = 0 ∧ r.2.1 = size ∧
        (∀ j < size, files[i].contents[offset + j]? = some (r.2.2 j)) ∧
        ∀ j, size ≤ j → r.2.2 j = buffer j

/-- **The data of the ramdisk** comes back as it was put into the image. -/
theorem ramdisk_data (files : List InputFile) (image : List UInt8)
    (h : mkinitrd files = some image) (hlt : image.length < 2147483648) (behind : Mem)
    (stale : σ → ℕ → Mem) (stack : Mem) :
    ∃ initrd, initrdInit (Mem.ofList image behind) image.length = some initrd ∧
      ReadsBack files (ramdiskEnv initrd stale stack) := by
  refine ⟨_, initrdInit_image h (by omega), ?_⟩
  have hf := holdsFiles behind h (by omega)
  have hx : (ramdiskEnv (imageInitrd image behind) stale stack).Exact
      (imageInitrd image behind).base := ramdiskEnv_exact (show image.length - 2 < _ by omega)
  have hi : InitfsImage (imageInitrd image behind).base
    (ramdiskEnv (imageInitrd image behind) stale stack).volume.size := hf.image
  constructor
  · exact initfsProbe_eq hi hx
  · intro index
    rcases Nat.lt_or_ge index files.length with hlt | hge
    · have hn : index < nFiles (imageInitrd image behind).base := by rwa [hf.nFiles]
      refine (returns_initfsReaddir hi hx hn).mono fun r hr => ?_
      obtain ⟨ptr, rfl⟩ := hr
      simp [hlt]
    · have hn : nFiles (imageInitrd image behind).base ≤ index := by rwa [hf.nFiles]
      refine (returns_initfsReaddir_none hi hx hn).mono fun r hr => ?_
      subst hr
      simp [hge]
  · intro i hlt' node ht hn offset size buffer ho hs
    have hn' : i < nFiles (imageInitrd image behind).base := by rwa [hf.nFiles]
    have hsize : files[i].contents.length < 2147483648 := by
      have h1 := hf.image.file_le i hn'
      rw [hf.length i hlt'] at h1
      omega
    refine (returns_initfsOpen hi hx hn' (by rw [ht]; decide) hn).bind ?_
    rintro ⟨opened, node'⟩ ⟨h0, ptr, hnode⟩
    obtain rfl : node' = _ := hnode
    obtain rfl : opened = 0 := h0
    refine (returns_initfsRead_exact hi hx hn' rfl (by rw [hf.length i hlt']; exact ho)
      (by rw [hf.length i hlt']; exact hs) (by omega) buffer).bind ?_
    rintro ⟨n, buffer'⟩ ⟨h1, h2⟩
    refine Returns.pure ⟨rfl, h1, fun j hj => ?_, fun j hj => ?_⟩
    · have hb := hf.contents i hlt' (offset + j) (by omega)
      have h3 := h2 j
      rw [if_pos hj, hf.offset i hlt', hb] at h3
      rw [List.getElem?_eq_getElem (by omega)]
      exact congrArg some h3.symm
    · have h3 := h2 j
      rwa [if_neg (Nat.not_lt.2 hj)] at h3

end

/-- A file of two bytes and an empty one. -/
def smallFiles : List InputFile :=
  [⟨"readme.txt", [0x68, 0x69], by decide⟩, ⟨"empty", [], by decide⟩]

@[irreducible] def smallImage : List UInt8 := (mkinitrd smallFiles).getD []

theorem smallImage_eq : mkinitrd smallFiles = some smallImage := by decide +kernel

theorem smallImage_length : smallImage.length = 158 := by decide +kernel

theorem ramdisk_data_small :
    ∃ initrd, initrdInit (Mem.ofList smallImage fun _ => 0) smallImage.length = some initrd ∧
      ReadsBack (σ := KernelHeap) smallFiles (ramdiskEnv initrd (fun _ _ _ => 0xAA) fun _ => 0xAA) :=
  ramdisk_data smallFiles smallImage smallImage_eq (by rw [smallImage_length]; decide) _ _ _

/-! ## Names -/

section
variable {files : List InputFile} {bytes : Mem} {δ : Type} {env : FsEnv KernelHeap δ}

theorem nameBytes_ne_zero {file : InputFile} (ha : ∀ c ∈ file.name.toList, c.toNat < 128) :
    0 ∉ nameBytes file := by
  intro h
  obtain ⟨c, hc, h0⟩ := List.mem_map.1 h
  have h1 := file.noNul c hc
  have h2 := ha c hc
  have h3 := congrArg UInt8.toNat h0
  rw [UInt8.toNat_ofNat', UInt8.toNat_zero] at h3
  omega

theorem nameBytes_inj {a b : InputFile} (ha : ∀ c ∈ a.name.toList, c.toNat < 128)
    (hb : ∀ c ∈ b.name.toList, c.toNat < 128) (h : nameBytes a = nameBytes b) :
    a.name = b.name := by
  have hinj : ∀ {l l' : List Char}, (∀ c ∈ l, c.toNat < 128) → (∀ c ∈ l', c.toNat < 128) →
      l.map (fun c => UInt8.ofNat c.toNat) = l'.map (fun c => UInt8.ofNat c.toNat) → l = l' := by
    intro l
    induction l with
    | nil =>
      intro l' _ _ h
      exact (List.map_eq_nil_iff.1 h.symm).symm
    | cons c l ih =>
      intro l' hl hl' h
      cases l' with
      | nil => exact absurd h (by simp)
      | cons d l' =>
        obtain ⟨h1, h2⟩ := List.cons.inj h
        have hc := hl c (by simp)
        have hd := hl' d (by simp)
        have h3 := congrArg UInt8.toNat h1
        rw [UInt8.toNat_ofNat', UInt8.toNat_ofNat'] at h3
        have hcd : c = d := Char.toNat_inj.1 (by omega)
        rw [hcd, ih (fun x hx => hl x (by simp [hx])) (fun x hx => hl' x (by simp [hx])) h2]
  exact String.toList_inj.1 (hinj ha hb h)

/-- Listing gives every file's name, and lookup finds exactly the files' names. -/
structure NamesBack (files : List InputFile) (env : FsEnv KernelHeap δ) : Prop where
  readdir : ∀ i (hi : i < files.length), Returns OutOfMemory (initfsReaddir env i) fun r =>
    ∃ ptr dirent, r = some (ptr, dirent) ∧ dirent.name = nameBytes files[i]
  finddir : ∀ filesystem name, 0 ∉ name →
    Returns OutOfMemory (initfsFinddir env filesystem name) fun r => ∀ i,
      (∃ ptr node, r = some (ptr, node) ∧ node.inode = i) ↔
        ∃ hi : i < files.length, nameBytes files[i] = name

/-- The name is shorter than its field, or the byte behind the field is zero. -/
def NameEnds (files : List InputFile) (i : ℕ) (file : InputFile) : Prop :=
  file.name.toList.length < 64 ∨ fileOffset files i % 256 = 0

variable (hf : HoldsFiles files bytes env.volume.size) (hx : env.Exact bytes)
include hf hx

/-- The byte behind the name's field in the header that is read. -/
theorem readFileHeader_nameEnd {i : ℕ} (hi : i < files.length) :
    initfsReadFileHeader env i 66 = UInt8.ofNat (fileOffset files i) := by
  rw [← hf.nameEnd i hi]
  exact readFileHeader_apply hf.image hx (hf.nFiles ▸ hi) env.stack (by omega)

/-- A name that ends is the string the driver sees. -/
theorem readFileHeader_hasString {i : ℕ} (hi : i < files.length)
    (ha : Accepts files[i] (fileOffset files i)) (he : NameEnds files i files[i]) :
    (initfsReadFileHeader env i).HasString 2 (nameBytes files[i]) := by
  have hl : (nameBytes files[i]).length = files[i].name.toList.length := List.length_map _
  have hle := ha.name_le
  have hr := fun j (hj : j < 74) => readFileHeader_apply hf.image hx (hf.nFiles ▸ hi) env.stack hj
  obtain ⟨h1, h2⟩ := Mem.hasBytes_append.1 (hf.name i hi)
  refine ⟨nameBytes_ne_zero ha.ascii, fun j hj => ?_, ?_⟩
  · rw [← h1 j hj, Nat.add_assoc]
    exact hr _ (by omega)
  · by_cases h64 : files[i].name.toList.length = 64
    · rcases he with he | he
      · omega
      · rw [hl, h64, readFileHeader_nameEnd hf hx hi]
        exact UInt8.toNat_inj.1 (by rw [UInt8.toNat_ofNat', he, UInt8.toNat_zero])
    · have hz := h2 0 (by rw [List.length_replicate]; omega)
      rw [List.getElem_replicate] at hz
      rw [← hz]
      have := hr (2 + (nameBytes files[i]).length) (by omega)
      rw [← Nat.add_assoc] at this
      exact this

/-- A name that does not end is listed with more bytes than it has. -/
theorem not_namesBack {i : ℕ} (hi : i < files.length)
    (ha : Accepts files[i] (fileOffset files i)) (he : ¬ NameEnds files i files[i]) :
    ¬ NamesBack files env := by
  intro hb
  have hi' : i < nFiles bytes := hf.nFiles ▸ hi
  have hserve : (Allocator.alloc placementHeap vfsDirentSize false).1 ≠ 0 := by decide +kernel
  have hok := initfsReaddir_ok hf.image hx hi' hserve
  have hr := hb.readdir i hi placementHeap
  rw [Meets, hok] at hr
  obtain ⟨ptr, dirent, hd, hn⟩ := hr
  obtain ⟨-, rfl⟩ := Prod.mk.inj (Option.some.inj hd)
  have hl : (nameBytes files[i]).length = files[i].name.toList.length := List.length_map _
  have hle := ha.name_le
  have hs := Mem.hasString_of_string hn (by omega)
  -- the byte behind the field would have to be zero
  rw [NameEnds, not_or, not_lt] at he
  have h64 : (nameBytes files[i]).length = 64 := by omega
  have hz := hs.2.2
  rw [h64, readFileHeader_nameEnd hf hx hi] at hz
  have := congrArg UInt8.toNat hz
  rw [UInt8.toNat_ofNat', UInt8.toNat_zero] at this
  exact he.2 this

theorem namesBack_of_ends (ha : ∀ i (hi : i < files.length), Accepts files[i] (fileOffset files i))
    (hd : (files.map (·.name)).Nodup)
    (he : ∀ i (hi : i < files.length), NameEnds files i files[i]) : NamesBack files env := by
  have hs := fun i (hi : i < files.length) =>
    readFileHeader_hasString hf hx hi (ha i hi) (he i hi)
  constructor
  · intro i hi
    refine (returns_initfsReaddir hf.image hx (hf.nFiles ▸ hi)).mono fun r hr => ?_
    obtain ⟨ptr, rfl⟩ := hr
    have hl : (nameBytes files[i]).length = files[i].name.toList.length := List.length_map _
    have hle := (ha i hi).name_le
    exact ⟨ptr, _, rfl, Mem.string_of_hasString (hs i hi) (by omega)⟩
  · intro filesystem name h0
    refine (returns_initfsFinddir hf.image hx h0).mono fun r hr i => ?_
    rw [hf.nFiles] at hr
    rcases hr with ⟨rfl, hnone⟩ | ⟨ptr, node, index, rfl, hnode, ⟨-, hlt⟩, hfound, -⟩
    · constructor
      · rintro ⟨ptr, node, h, -⟩
        exact absurd h (by simp)
      · rintro ⟨hi, rfl⟩
        exact absurd (hs i hi) (hnone i (Nat.zero_le _) hi)
    · have hname : nameBytes files[index] = name := (hs index hlt).inj hfound
      constructor
      · rintro ⟨ptr', node', h, hi⟩
        obtain ⟨-, rfl⟩ := Prod.mk.inj (Option.some.inj h)
        obtain rfl : index = i := hnode.2.1.symm.trans hi
        exact ⟨hlt, hname⟩
      · rintro ⟨hi, hn⟩
        refine ⟨ptr, node, rfl, hnode.2.1.trans ?_⟩
        -- two files of one name are one file
        have heq := nameBytes_inj (ha index hlt).ascii (ha i hi).ascii (hname.trans hn.symm)
        have h1 : index < (files.map (·.name)).length := by rwa [List.length_map]
        have h2 : i < (files.map (·.name)).length := by rwa [List.length_map]
        have hnames : (files.map (·.name))[index] = (files.map (·.name))[i] := by
          rwa [List.getElem_map, List.getElem_map]
        exact hd.getElem_inj_iff.1 hnames

end

/-- **The names of the ramdisk** come back exactly if each is shorter than its field
    or followed by a zero byte, the low byte of the file's offset. -/
theorem ramdisk_names (files : List InputFile) (image : List UInt8)
    (h : mkinitrd files = some image) (hlt : image.length < 4294967296)
    (hd : (files.map (·.name)).Nodup) (behind : Mem) (stale : KernelHeap → ℕ → Mem)
    (stack : Mem) :
    ∃ initrd, initrdInit (Mem.ofList image behind) image.length = some initrd ∧
      (NamesBack files (ramdiskEnv initrd stale stack) ↔
        ∀ i (hi : i < files.length), NameEnds files i files[i]) := by
  refine ⟨_, initrdInit_image h hlt, ?_⟩
  have hf := holdsFiles behind h hlt
  have hx : (ramdiskEnv (imageInitrd image behind) stale stack).Exact
      (imageInitrd image behind).base := ramdiskEnv_exact (show image.length - 2 < _ by omega)
  have hf' : HoldsFiles files (imageInitrd image behind).base
    (ramdiskEnv (imageInitrd image behind) stale stack).volume.size := hf
  have ha := (mkinitrd_eq_some.1 h).2.1
  constructor
  · intro hb i hi
    by_contra he
    exact not_namesBack hf' hx hi (ha i hi) he hb
  · exact namesBack_of_ends hf' hx ha hd

theorem ramdisk_names_small :
    ∃ initrd, initrdInit (Mem.ofList smallImage fun _ => 0) smallImage.length = some initrd ∧
      NamesBack smallFiles (ramdiskEnv initrd (fun _ _ _ => 0xAA) fun _ => 0xAA) := by
  obtain ⟨initrd, hinit, hnames⟩ := ramdisk_names smallFiles smallImage smallImage_eq
    (by rw [smallImage_length]; decide) (by decide +kernel) (fun _ => 0) (fun _ _ _ => 0xAA)
    fun _ => 0xAA
  refine ⟨initrd, hinit, hnames.2 fun i hi => Or.inl ?_⟩
  have hshort : ∀ file ∈ smallFiles, file.name.toList.length < 64 := by decide +kernel
  exact hshort _ (List.getElem_mem hi)

/-- A file whose name fills its field. -/
def longNamed : InputFile where
  name := String.ofList (List.replicate 64 'a')
  contents := []
  noNul := by
    rw [String.toList_ofList]
    decide

@[irreducible] def longImage : List UInt8 := (mkinitrd [longNamed]).getD []

theorem longImage_eq : mkinitrd [longNamed] = some longImage := by decide +kernel

theorem longImage_length : longImage.length = 82 := by decide +kernel

/-- The name is followed by the low byte of the file's offset, 80, so it is listed
    with a letter `P` behind it. -/
theorem ramdisk_names_long :
    mkinitrd [longNamed] = some longImage ∧
      initrdInit (Mem.ofList longImage fun _ => 0) longImage.length =
        some (imageInitrd longImage fun _ => 0) ∧
      ¬ NamesBack [longNamed]
        (ramdiskEnv (imageInitrd longImage fun _ => 0) (fun _ _ _ => 0xAA) fun _ => 0xAA) := by
  have hlt : longImage.length < 4294967296 := by
    rw [longImage_length]
    decide
  refine ⟨longImage_eq, initrdInit_image longImage_eq hlt, ?_⟩
  have hx : (ramdiskEnv (imageInitrd longImage fun _ => 0) (fun (_ : KernelHeap) _ _ => 0xAA)
      fun _ => 0xAA).Exact (imageInitrd longImage fun _ => 0).base :=
    ramdiskEnv_exact (show longImage.length - 2 < _ by omega)
  refine not_namesBack (i := 0) (holdsFiles _ longImage_eq hlt) hx (by decide)
    ((mkinitrd_eq_some.1 longImage_eq).2.1 0 (by decide)) ?_
  have hl : longNamed.name.toList.length = 64 := by
    show (String.ofList (List.replicate 64 'a')).toList.length = 64
    rw [String.toList_ofList]
    rfl
  have ho : fileOffset [longNamed] 0 = 80 := rfl
  rintro (h | h)
  · exact absurd (hl ▸ h) (by decide)
  · rw [ho] at h
    exact absurd h (by decide)

end Ttos
