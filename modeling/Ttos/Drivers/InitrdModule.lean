/-
  The boot module on its way to the ramdisk device (main.c).

  `init_platform` maps the module and writes the virtual address into its record, but leaves
  `mod_end` as it is; `init_kernel` computes the size from both.

  * `RamdiskRight`: the device has the module's size, and a read stays in the module.
  * `ramdisk_bounds`: when that is so.
  * `ramdisk_too_large`: a module at 2 MiB.
-/
import Ttos.Drivers.Initrd
import Ttos.Memory.PageFrames
import Ttos.Memory.UserMapping

namespace Ttos

open Vm AddressSpaces

/-- The fields of `multiboot_module_t` that are read. -/
structure MultibootModule where
  modStart : ℕ
  modEnd : ℕ

namespace Vm

variable {σ : Type*}

/-- The byte at a virtual address. -/
def virtualByte (vm : Vm σ) (address : ℕ) : UInt8 := vm.mem (vm.vmmGetPhysicalAddress address)

/-- The end of `init_platform`: the record of the module afterwards. -/
def initPlatform [Allocator σ] (vm : Vm σ) (initrdModule : MultibootModule) :
    Except Stop (MultibootModule × Vm σ) :=
  let initrdStartPhysical := initrdModule.modStart
  let initrdSize := sub32 initrdModule.modEnd initrdModule.modStart
  (vm.vmmMapMemory 0 initrdSize initrdStartPhysical true true).map fun r =>
    ({ initrdModule with modStart := r.1 }, r.2)

/-- The end of `init_kernel`: the ramdisk device, or `none` when `initrd_init` returns `-1`. -/
def initKernel (vm : Vm σ) (initrdModule : MultibootModule) : Except Stop (Option Initrd) :=
  let initrdStart := initrdModule.modStart
  let initrdSize := sub32 initrdModule.modEnd initrdModule.modStart
  -- initrd_init reads the header
  if !vm.vmmIsMapped initrdStart then .error .pageFault
  else .ok (initrdInit (fun a => vm.virtualByte (u32 (initrdStart + a))) initrdSize)

/-- What `init_kernel` does before, from `kheap_init` on, leaves the `n` bytes from the
    virtual address `start` on as they are. -/
structure KeepsBytes (vm vm' : Vm σ) (start n : ℕ) : Prop where
  mapped : ∀ j < n, vm'.vmmIsMapped (u32 (start + j)) = vm.vmmIsMapped (u32 (start + j))
  bytes : ∀ j < n, vm'.virtualByte (u32 (start + j)) = vm.virtualByte (u32 (start + j))

end Vm

/-- The ramdisk of a module that was mapped from the virtual address `start` on: it has the
    size of the module without the magic number, and every byte that `initrd_read` copies is a
    byte of the module. -/
structure RamdiskRight (m : MultibootModule) (start offset size : ℕ) (initrd : Initrd) : Prop where
  total : initrdDriver.totalSize initrd = m.modEnd - m.modStart - 2
  inside : ∀ buffer x, offset ≤ x → x < offset + (initrdRead initrd offset size buffer).1 →
    ∃ j < m.modEnd - m.modStart, u32 (start + 2 + x) = u32 (start + m.modStart % 4096 + j)

/-- The module lies where the kernel's address space has its first free range for it. -/
structure PlacedAlike {σ : Type*} (vm : Vm σ) (m : MultibootModule) : Prop where
  free : vm.FreeRange (m.modEnd - m.modStart) true m.modStart
  first : ∀ b, vm.FreeRange (m.modEnd - m.modStart) true b → m.modStart ≤ b
  stop : m.modEnd ≤ 0xFFFFF000

variable {σ : Type*} [Allocator σ] {vm vm' vm₁ : Vm σ} {ds : List ℕ} {m m' : MultibootModule}
  {offset size r : ℕ} {initrd : Initrd}

/-! ## The size -/

omit [Allocator σ] in
/-- What `init_kernel` registers. -/
theorem initKernel_some (h : vm.initKernel m' = .ok (some initrd)) :
    initrd.size = sub32 (sub32 m'.modEnd m'.modStart) 2 := by
  unfold initKernel at h
  dsimp only at h
  split at h
  · cases h
  · unfold initrdInit at h
    split at h
    · cases Except.ok.inj h
    · obtain rfl := Option.some.inj (Except.ok.inj h)
      rfl

/-- The size is right exactly if the virtual address is the physical one. -/
theorem moduleSize_iff {s e v : ℕ} (hlen : s + 2 ≤ e) (he : e < 4294967296) (hv : v < 4294967296) :
    sub32 (sub32 e v) 2 = e - s - 2 ↔ v = s := by
  unfold sub32 u32
  omega

/-! ## The place -/

theorem vmmMapMemory_result_lt {v p : ℕ} {k w : Bool} (hv : v < 4294967296)
    (hm : vm.vmmMapMemory v size p k w = .ok (r, vm')) : r < 4294967296 := by
  by_cases hr : r = 0
  · omega
  · obtain ⟨b, hb, rfl⟩ := vmmMapMemory_place hm hr
    have hlt := (vmmPlace_spec hb).2.2 hv
    unfold vmmAlignDown
    omega

/-- The loop behind the mapping of a module at the address `4096 * a`. -/
theorem vmmMapMemory_at {a p : ℕ} {w : Bool} (hb : vm.vmmPlace 0 size true = .ok (4096 * a))
    (hend : 4096 * a + size < 4294967296) : vm.vmmMapMemory 0 size p true w =
      vmmMapLoop (4096 * a) (4096 * a + size) true w vmmFuel vm (4096 * a) p := by
  have hdown : vmmAlignDown (4096 * a) = 4096 * a := by
    unfold vmmAlignDown
    omega
  unfold vmmMapMemory
  rw [hb]
  simp only [hdown, u32_of_lt hend]

/-- A module that was mapped where it lies. -/
theorem placedAlike_of_map (h : TablesOk vm ds) (hc : vm.currentPageDirectory ∈ ds)
    (h0 : m.modStart ≠ 0) (hlen : m.modStart + 2 ≤ m.modEnd) (hend : m.modEnd < 4294967296) {w : Bool}
    (hm : vm.vmmMapMemory 0 (m.modEnd - m.modStart) m.modStart true w = .ok (m.modStart, vm')) :
    PlacedAlike vm m := by
  obtain ⟨b, hb, hrb⟩ := vmmMapMemory_place hm h0
  obtain ⟨hal, hlow, hlt, -⟩ := vmmPlace_found (by omega) hb
  obtain rfl : b = m.modStart := by
    unfold vmmAlignDown at hrb
    omega
  obtain ⟨a, ha⟩ : ∃ a, m.modStart = 4096 * a := ⟨m.modStart / 4096, by omega⟩
  rw [ha] at hm hb
  rw [vmmMapMemory_at hb (by omega)] at hm
  have hne : 4096 * a ≠ 0 := by omega
  obtain ⟨b', vm₁, f', hp, hb', -⟩ := vmmMapLoop_step hne (by omega) hm
  have hside := (vmmMapPage_side hp hb' hne).2.1 rfl
  simp only [vmmKernelSpaceBase] at hside
  obtain ⟨n, h1, h2, hrange⟩ := vmmMapLoop_success (by omega) hne h hc (by omega) (by omega) hm
  have hcount : n = pageCount (m.modEnd - m.modStart) := by
    unfold pageCount
    omega
  have hfit : a + n < 1048576 := by
    rcases hrange.fits with rfl | hfit <;> omega
  have hfree : vm.FreeRange (m.modEnd - m.modStart) true m.modStart := by
    refine ⟨hal, ?_, ?_, fun i hi => ?_⟩
    · show 3221225472 ≤ m.modStart
      omega
    · show _ ≤ 4294967296
      omega
    · have hnum : pageNumber (m.modStart + 4096 * i) = a + i := by
        rw [ha, ← Nat.mul_add, pageNumber_page (by omega)]
      exact (isPageUsed_false h hc).2 (hrange.unused _ (by omega) (by omega))
  refine ⟨hfree, fun b hfb => ?_, by omega⟩
  obtain ⟨b₀, hb₀, hright, -⟩ := searchRight_of_free (by omega) (by omega) ⟨_, hfree⟩
  have hfound : b₀ = m.modStart := by
    rw [← ha, vmmPlace, if_neg (fun hz => hz rfl), hb₀] at hb
    dsimp only at hb
    split at hb
    · cases hb
    · exact Except.ok.inj hb
  rw [← hfound]
  exact (hright (by omega)).2 b hfb

/-- **A module in the first free range** is mapped to itself. -/
theorem PlacedAlike.mapped (hp : PlacedAlike vm m) (h : TablesOk vm ds)
    (hc : vm.currentPageDirectory ∈ ds) (hen : vm.pagingEnabled = true)
    (hlen : m.modStart + 2 ≤ m.modEnd) {w : Bool}
    (hm : vm.vmmMapMemory 0 (m.modEnd - m.modStart) m.modStart true w = .ok (r, vm')) :
    r = m.modStart ∧ vm'.mem = vm.mem ∧ ∀ j < m.modEnd - m.modStart,
      vm'.vmmIsMapped (m.modStart + j) = true ∧
        vm'.vmmGetPhysicalAddress (m.modStart + j) = m.modStart + j := by
  have hfree := hp.free
  have hal := hfree.aligned
  have hstart : 3221225472 ≤ m.modStart := hfree.start
  have hend := hp.stop
  obtain ⟨b, hb, hright, hnone⟩ := searchRight_of_free (by omega) (by omega) ⟨_, hfree⟩
  have hb0 : b ≠ 0 := fun h0 => hnone h0 _ hfree
  have hbm : b = m.modStart :=
    Nat.le_antisymm ((hright hb0).2 _ hfree) (hp.first _ (hright hb0).1)
  obtain ⟨a, ha⟩ : ∃ a, m.modStart = 4096 * a := ⟨m.modStart / 4096, by omega⟩
  have hplace : vm.vmmPlace 0 (m.modEnd - m.modStart) true = .ok (4096 * a) := by
    rw [vmmPlace, if_neg (fun hz => hz rfl), hb]
    dsimp only
    rw [if_neg hb0, hbm, ha]
  rw [vmmMapMemory_at hplace (by omega)] at hm
  have hcount : m.modEnd - m.modStart ≤ 4096 * pageCount (m.modEnd - m.modStart) ∧
      4096 * pageCount (m.modEnd - m.modStart) < m.modEnd - m.modStart + 4096 := by
    unfold pageCount
    omega
  have hfuel : pageCount (m.modEnd - m.modStart) < vmmFuel := by
    simp only [vmmFuel]
    omega
  have hside : ∀ i < pageCount (m.modEnd - m.modStart),
      true = true ↔ vmmKernelSpaceBase ≤ 4096 * (a + i) := by
    intro i _
    have hbase : vmmKernelSpaceBase ≤ 4096 * (a + i) := by
      show 3221225472 ≤ _
      omega
    exact iff_of_true rfl hbase
  have hunused : ∀ i < pageCount (m.modEnd - m.modStart),
      vm.page vm.currentPageDirectory (4096 * (a + i)) = none := by
    intro i hi
    have hu := (isPageUsed_false h hc).1 (hfree.unused i hi)
    rwa [ha, ← Nat.mul_add] at hu
  have hr : r = 4096 * a := by
    rcases vmmMapLoop_unused (w := w) (4096 * a) h hc (show a ≠ 0 by omega)
      (show a + pageCount (m.modEnd - m.modStart) < 1048576 by omega)
      (show 4096 * a + (m.modEnd - m.modStart) ≤ _ by omega) (by omega) hside hunused hfuel
      m.modStart with ⟨e, he, -⟩ | ⟨vm₁, hok⟩
    · rw [hm] at he
      cases he
    · rw [hm] at hok
      exact (Prod.mk.inj (Except.ok.inj hok)).1
  have hr0 : r ≠ 0 := by omega
  obtain ⟨n, -, -, hrange⟩ := vmmMapLoop_success (by omega) hr0 h hc (by omega) (by omega) hm
  have hcur : vm'.currentPageDirectory = vm.currentPageDirectory := hrange.grown.statics.current
  refine ⟨hr.trans ha.symm, hrange.grown.statics.mem, fun j hj => ?_⟩
  obtain ⟨e, he, hframe⟩ := vmmMapLoop_given (i := j / 4096) (by omega) hr0 h hc (show a ≠ 0 by omega)
    (show m.modStart ≠ 0 by omega) (by omega) (by omega) hm
  have hx : u32 (m.modStart + j) = m.modStart + j := u32_of_lt (by omega)
  have hpage : vm'.page vm'.currentPageDirectory (m.modStart + j) = some e := by
    rw [hcur, ← he]
    refine page_congr ?_
    rw [pageNumber_page (by omega), pageNumber, hx]
    omega
  constructor
  · rw [vmmIsMapped, isPageUsed_eq hrange.ok (hcur ▸ hc), hpage]
    rfl
  · rw [physical_eq (hrange.grown.statics.enabled.trans hen) hpage, hframe, pageOffset, hx]
    omega

/-! ## Reading -/

/-- **The bytes that `initrd_read` copies** are the module's, unless the sum of offset and size
    runs over. -/
theorem initrdRead_inside {start total : ℕ} (hs : initrd.size = total) (h0 : start ≠ 0)
    (hend : start + 2 + total < 4294967296) (ho : offset < 4294967296) (hsize : size < 4294967296) :
    (∀ buffer x, offset ≤ x → x < offset + (initrdRead initrd offset size buffer).1 →
      ∃ j < total + 2, u32 (start + 2 + x) = u32 (start + j)) ↔
      total < offset ∨ offset + size < 4294967296 := by
  constructor
  · intro hin
    by_contra hwrap
    rw [not_or, Nat.not_lt, Nat.not_lt] at hwrap
    obtain ⟨hle, hsum⟩ := hwrap
    have hu : u32 (offset + size) = offset + size - 4294967296 := by
      unfold u32
      omega
    have hall : (initrdRead initrd offset size initrd.base).1 = size := by
      rw [initrdRead, if_neg (by omega), initrdClamp, if_neg (by omega)]
    -- the byte at the address 0 is among those that are copied
    obtain ⟨j, hj, heq⟩ := hin initrd.base (4294967296 - (start + 2)) (by omega) (by omega)
    rw [Nat.add_sub_cancel' (by omega), u32_of_lt (show start + j < 4294967296 by omega)] at heq
    have hz : u32 4294967296 = 0 := rfl
    omega
  · intro hfit buffer x hx hlt
    refine ⟨2 + x, ?_, by rw [Nat.add_assoc]⟩
    rw [initrdRead] at hlt
    split at hlt
    · have hlt : x < offset + 0 := hlt
      omega
    · rename_i hle
      have hlt : x < offset + initrdClamp initrd offset size := hlt
      have hu : u32 (offset + size) = offset + size := by
        rcases hfit with hfit | hfit
        · omega
        · exact u32_of_lt hfit
      rw [initrdClamp, hu] at hlt
      split at hlt <;> omega

/-! ## The device -/

theorem RamdiskRight.inside_iff {start : ℕ} (hs : initrd.size = m.modEnd - m.modStart - 2)
    (hal : m.modStart % 4096 = 0) (h0 : start ≠ 0) (hlen : m.modStart + 2 ≤ m.modEnd)
    (hend : start + (m.modEnd - m.modStart) < 4294967296) (ho : offset < 4294967296)
    (hsize : size < 4294967296) : RamdiskRight m start offset size initrd ↔
      m.modEnd - m.modStart - 2 < offset ∨ offset + size < 4294967296 := by
  have hread := initrdRead_inside hs h0 (by omega) ho hsize
  have hlength : m.modEnd - m.modStart - 2 + 2 = m.modEnd - m.modStart := by omega
  rw [← hread, hlength]
  constructor
  · intro h buffer x hx hlt
    obtain ⟨j, hj, heq⟩ := h.inside buffer x hx hlt
    rw [hal, Nat.add_zero] at heq
    exact ⟨j, hj, heq⟩
  · refine fun h => ⟨hs, fun buffer x hx hlt => ?_⟩
    rw [hal, Nat.add_zero]
    exact h buffer x hx hlt

omit [Allocator σ] in
/-- The device of a module whose magic number is at the virtual address. -/
theorem initKernel_magic (hmap : vm.vmmIsMapped m'.modStart = true)
    (hmagic : (vm.virtualByte (u32 (m'.modStart + 0))).toNat +
      256 * (vm.virtualByte (u32 (m'.modStart + 1))).toNat = initrdHeaderMagic) :
    ∃ initrd, vm.initKernel m' = .ok (some initrd) := by
  have hload : Mem.load16 (fun a => vm.virtualByte (u32 (m'.modStart + a))) 0 =
      initrdHeaderMagic := hmagic
  unfold initKernel
  dsimp only
  rw [hmap, initrdInit, if_neg (not_not.2 hload)]
  exact ⟨_, rfl⟩

/-- **The ramdisk device has the bounds of the module** exactly if the module lies where the
    kernel's address space has its first free range, so that the virtual address in the record
    is the physical one, and the read does not run over the 32-bit numbers. -/
theorem ramdisk_bounds {s : AddressSpaces KernelHeap}
    (hr : (addressSpaceSystem Starts Clean).Reachable s) {m m' : MultibootModule}
    {vm' vm₁ : Vm KernelHeap} (h0 : m.modStart ≠ 0) (hlen : m.modStart + 2 ≤ m.modEnd)
    (hend : m.modEnd < 4294967296) (hmagic : s.vm.mem.load16 m.modStart = initrdHeaderMagic)
    (hp : s.vm.initPlatform m = .ok (m', vm'))
    (hk : vm'.KeepsBytes vm₁ m'.modStart (m.modEnd - m.modStart)) {offset size : ℕ}
    (ho : offset < 4294967296) (hs : size < 4294967296) :
    (∃ initrd, vm₁.initKernel m' = .ok (some initrd) ∧
      RamdiskRight m m'.modStart offset size initrd) ↔
      PlacedAlike s.vm m ∧ (m.modEnd - m.modStart - 2 < offset ∨ offset + size < 4294967296) := by
  have hi := reachable_spacesInv hr
  have hsize : sub32 m.modEnd m.modStart = m.modEnd - m.modStart := sub32_of_le (by omega) hend
  unfold initPlatform at hp
  obtain ⟨⟨r, vm₂⟩, hm, heq⟩ := exists_of_map_ok hp
  obtain ⟨rfl, rfl⟩ := Prod.mk.inj heq
  simp only [hsize] at hm
  have hlt : r < 4294967296 := vmmMapMemory_result_lt (by decide) hm
  constructor
  · rintro ⟨initrd, hinit, hright⟩
    have htotal : sub32 (sub32 m.modEnd r) 2 = m.modEnd - m.modStart - 2 :=
      (initKernel_some hinit).symm.trans hright.total
    obtain rfl := (moduleSize_iff hlen hend hlt).1 htotal
    have hplaced := placedAlike_of_map hi.ok hi.current h0 hlen hend hm
    refine ⟨hplaced, ?_⟩
    exact (RamdiskRight.inside_iff hright.total hplaced.free.aligned h0 hlen (by omega) ho hs).1
      hright
  · rintro ⟨hplaced, hfit⟩
    obtain ⟨hrm, hmem, hmapped⟩ := hplaced.mapped hi.ok hi.current hi.enabled hlen hm
    have hrm : r = m.modStart := hrm
    subst hrm
    have hk : vm₂.KeepsBytes vm₁ m.modStart (m.modEnd - m.modStart) := hk
    -- the first two bytes are those of the magic number
    have hbyte : ∀ j < 2, vm₁.virtualByte (u32 (m.modStart + j)) = s.vm.mem (m.modStart + j) := by
      intro j hj
      have hphys := (hmapped j (by omega)).2
      rw [hk.bytes j (by omega), u32_of_lt (by omega), virtualByte, hphys, hmem]
    have hmap : vm₁.vmmIsMapped m.modStart = true := by
      have hkeep := hk.mapped 0 (by omega)
      rw [Nat.add_zero, u32_of_lt hlt] at hkeep
      rw [hkeep]
      exact (hmapped 0 (by omega)).1
    obtain ⟨initrd, hinit⟩ := initKernel_magic hmap (by
      rw [hbyte 0 (by decide), hbyte 1 (by decide)]
      exact hmagic)
    have htotal : initrd.size = m.modEnd - m.modStart - 2 :=
      (initKernel_some hinit).trans ((moduleSize_iff hlen hend hlt).2 rfl)
    exact ⟨initrd, hinit, (RamdiskRight.inside_iff htotal hplaced.free.aligned h0 hlen (by omega)
      ho hs).2 hfit⟩

/-- An empty address space, and the magic number of a ramdisk at the physical address `a`. -/
def moduleVm (a : ℕ) : Vm KernelHeap :=
  { emptyVm with mem := fun x => if x = a then 0xFE else if x = a + 1 then 0xCA else 0 }

theorem moduleVm_reachable (a : ℕ) : (addressSpaceSystem Starts Clean).Reachable
    ⟨moduleVm a, [emptyVm.kernelPageDirectory]⟩ :=
  .init (Starts.of_boots (emptyVm_boots _))

theorem ramdisk_bounds_high : ∃ m' vm',
    (moduleVm 0xC0000000).initPlatform ⟨0xC0000000, 0xC0001000⟩ = .ok (m', vm') ∧
      ∃ initrd, vm'.initKernel m' = .ok (some initrd) ∧
        RamdiskRight ⟨0xC0000000, 0xC0001000⟩ m'.modStart 0 512 initrd := by
  obtain ⟨⟨m', vm'⟩, h, -⟩ := exists_of_check
    (x := (moduleVm 0xC0000000).initPlatform ⟨0xC0000000, 0xC0001000⟩) (P := fun _ => true)
    (by decide +kernel)
  refine ⟨m', vm', h, (ramdisk_bounds (moduleVm_reachable 0xC0000000) (by decide) (by decide)
    (by decide) (by decide) h ⟨fun _ _ => rfl, fun _ _ => rfl⟩ (by decide) (by decide)).2
    ⟨⟨⟨by decide, by decide, by decide, fun _ _ => rfl⟩, fun b hb => hb.start, by decide⟩, ?_⟩⟩
  exact Or.inr (by decide)

/-- **A module at 2 MiB** is mapped at 3 GiB, and the device gets a size of about 1 GiB. -/
theorem ramdisk_too_large : ¬ ∀ (s : AddressSpaces KernelHeap) (m m' : MultibootModule)
    (vm' : Vm KernelHeap) (offset size : ℕ), (addressSpaceSystem Starts Clean).Reachable s →
    m.modStart ≠ 0 → m.modStart + 2 ≤ m.modEnd → m.modEnd < 4294967296 →
    s.vm.mem.load16 m.modStart = initrdHeaderMagic → s.vm.initPlatform m = .ok (m', vm') →
    ∃ initrd, vm'.initKernel m' = .ok (some initrd) ∧
      RamdiskRight m m'.modStart offset size initrd := by
  intro hall
  obtain ⟨⟨m', vm'⟩, h, hstart⟩ := exists_of_check
    (x := (moduleVm 0x200000).initPlatform ⟨0x200000, 0x201000⟩)
    (P := fun r => r.1.modStart == 0xC0000000 && r.1.modEnd == 0x201000) (by decide +kernel)
  simp only [Bool.and_eq_true, beq_iff_eq] at hstart
  obtain ⟨initrd, hinit, hright⟩ := hall _ ⟨0x200000, 0x201000⟩ m' vm' 0 0
    (moduleVm_reachable 0x200000) (by decide) (by decide) (by decide) (by decide) h
  have htotal := (initKernel_some hinit).symm.trans hright.total
  rw [hstart.1, hstart.2] at htotal
  exact absurd htotal (by decide)

end Ttos
