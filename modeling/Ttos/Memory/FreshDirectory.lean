/-
  What a new address space starts from: the bytes left in its block.

  `vmm_clone_address_space` writes the slots it links to kernel page tables and
  leaves the others as `kmalloc_a` returns them, which does not clear a block.

  * `vmm_create_clean`: exactly when a new address space is empty;
  * `vmm_create_stale`: a run of the heap after which it is not.
-/
import Ttos.Memory.AddressSpaces
import Ttos.Memory.KernelHeap

namespace Ttos

/-! ## Bytes of a page directory -/

/-- The entry with the bits of `w`, from the lowest on. -/
def PageDirectoryEntry.ofWord (w : ℕ) : PageDirectoryEntry where
  present := w.testBit 0
  readWrite := w.testBit 1
  userSupervisor := w.testBit 2
  writeThrough := w.testBit 3
  cacheDisable := w.testBit 4
  accessed := w.testBit 5
  reserved := w.testBit 6
  pageSize := w.testBit 7
  global := w.testBit 8
  available := BitVec.ofNat 3 (w / 512)
  pageTableBase := BitVec.ofNat 20 (w / 4096)

/-- The directory at `a`: the entries, then the table pointers. -/
def PageDirectory.ofBytes (m : Mem) (a : ℕ) : PageDirectory where
  entries i := .ofWord (m.load32 (a + 4 * i))
  tables i := m.load32 (a + 4096 + 4 * i)

namespace KernelHeap

/-- `kmalloc` and `kmalloc_a` leave the bytes of the block as they are. -/
theorem alloc_mem (k : KernelHeap) {size x : ℕ} {align : Bool} (h0 : (k.alloc size align).1 ≠ 0)
    (h1 : (k.alloc size align).1 ≤ x) (h2 : x < (k.alloc size align).1 + size) :
    (k.alloc size align).2.run.heap.mem x = k.run.heap.mem x := by
  rcases k.phase with ⟨-, hp⟩ | hi
  · have hr : k.run.heap.kmallocInt size align = some (Kheap.kmallocPlacement k.run.heap size align) := by
      rw [Kheap.kmallocInt, hp.disabled]
      rfl
    simp only [alloc, hr, Option.get_some]
    rcases kmallocPlacement_cases k.run.heap size align with h | ⟨a, n, h, -⟩ <;> rw [h]
  · obtain ⟨bs, hb⟩ := hi.inv
    rcases Kheap.kmallocInt_spec hb.good size align with
      hr | ⟨b, h', bs', hr, -, hperm, -, hs, -, hout⟩
    · simp only [alloc, hr, Option.get_some] at h0
      exact absurd rfl h0
    · simp only [alloc, hr, Option.get_some] at h0 h1 h2 ⊢
      refine hout b (mem_allocated.1 (hperm.mem_iff.2 (List.mem_cons_self ..))).1 x h1 ?_
      simp only [Blk.stop, Blk.data] at h2 ⊢
      omega

end KernelHeap

/-! ## New address spaces -/

section
variable {σ : Type*}

/-- A page that is marked used, or that the processor would translate. -/
def Vm.pageTouched (vm : Vm σ) (dir virtualAddress : ℕ) : Bool :=
  match vm.entryAt dir virtualAddress with
  | none => false
  | some e => e.used || e.present

/-- The directory at `d` maps no user page, and its slots are empty where the
    kernel's are. -/
structure EmptySpace (vm : Vm σ) (d : ℕ) : Prop where
  user : ∀ v < vmmKernelSpaceBase, vm.pageTouched d v = false
  slots : ∀ i < 1024, (vm.dirs vm.kernelPageDirectory).tables i = 0 →
    ((vm.dirs d).entries i).present = false ∧ (vm.dirs d).tables i = 0

/-- The kernel's directory maps no user page. -/
def KernelOnly (vm : Vm σ) : Prop :=
  ∀ v < vmmKernelSpaceBase, vm.pageTouched vm.kernelPageDirectory v = false

/-- Pages are found through the table of the slot. -/
theorem pageTouched_congr {vm vm' : Vm σ} {d d' v : ℕ} (ht : vm'.tables = vm.tables)
    (h : (vm'.dirs d').tables (pageDirectoryIndex v) = (vm.dirs d).tables (pageDirectoryIndex v)) :
    vm'.pageTouched d' v = vm.pageTouched d v := by
  rw [Vm.pageTouched, Vm.pageTouched, Vm.entryAt, Vm.entryAt, h, ht]

theorem pageTouched_absent {vm : Vm σ} {d v : ℕ}
    (h : (vm.dirs d).tables (pageDirectoryIndex v) = 0) : vm.pageTouched d v = false := by
  rw [Vm.pageTouched, Vm.entryAt, if_pos h]

end

/-- The bytes at `a` hold an empty slot wherever the kernel's directory does. -/
def CleanBytes (vm : Vm KernelHeap) (a : ℕ) : Prop :=
  ∀ i < 1024, (vm.dirs vm.kernelPageDirectory).tables i = 0 →
    vm.heap.run.heap.mem.load32 (a + 4 * i) % 2 = 0 ∧
      vm.heap.run.heap.mem.load32 (a + 4096 + 4 * i) = 0

theorem ofWord_present (w : ℕ) : (PageDirectoryEntry.ofWord w).present = false ↔ w % 2 = 0 := by
  rw [PageDirectoryEntry.ofWord, Nat.testBit_zero, decide_eq_false_iff_not]
  omega

/-- The slots of a new directory: the bytes of its block, or the kernel's table. -/
structure NewSlots (vm vm' : Vm KernelHeap) (d : ℕ) : Prop where
  kernel : vm'.kernelPageDirectory = vm.kernelPageDirectory
  kernelDir : vm'.dirs vm.kernelPageDirectory = vm.dirs vm.kernelPageDirectory
  tables : vm'.tables = vm.tables
  stale : ∀ i < 1024, (vm.dirs vm.kernelPageDirectory).tables i = 0 →
    (vm'.dirs d).entries i = .ofWord (vm.heap.run.heap.mem.load32 (d + 4 * i)) ∧
      (vm'.dirs d).tables i = vm.heap.run.heap.mem.load32 (d + 4096 + 4 * i)
  linked : ∀ i < 1024, (vm.dirs vm.kernelPageDirectory).tables i ≠ 0 →
    (vm'.dirs d).tables i = (vm.dirs vm.kernelPageDirectory).tables i

/-- The directory object at a new block is what memory holds there. -/
def HoldsBlock (vm : Vm KernelHeap) : Prop :=
  vm.dirs (Allocator.alloc vm.heap 8192 true).1 =
    .ofBytes (Allocator.alloc vm.heap 8192 true).2.run.heap.mem (Allocator.alloc vm.heap 8192 true).1

theorem newSlots {vm vm' : Vm KernelHeap} {d : ℕ}
    (hlive : Allocator.Live vm.heap vm.kernelPageDirectory) (hfresh : HoldsBlock vm)
    (h : vm.vmmCreateAddressSpace = .ok (d, vm')) :
    d = (Allocator.alloc vm.heap 8192 true).1 ∧ NewSlots vm vm' d := by
  obtain ⟨rfl, h0, dir, rfl, hdir⟩ := SpacesInv.vmmCreateAddressSpace_spec hlive h
  have hne : vm.kernelPageDirectory ≠ (Allocator.alloc vm.heap 8192 true).1 :=
    Allocator.ne_of_live (by decide) hlive
  have hmem : ∀ x, (Allocator.alloc vm.heap 8192 true).1 ≤ x →
      x < (Allocator.alloc vm.heap 8192 true).1 + 8192 →
      (Allocator.alloc vm.heap 8192 true).2.run.heap.mem x = vm.heap.run.heap.mem x :=
    fun x h1 h2 => vm.heap.alloc_mem h0 h1 h2
  rw [HoldsBlock] at hfresh
  clear h
  generalize Allocator.alloc vm.heap 8192 true = res at *
  obtain ⟨a, heap⟩ := res
  dsimp only at *
  generalize hvm : ({ vm with heap := heap } : Vm KernelHeap).setDir a dir = vm'
  have hself : vm'.dirs a = dir := by rw [← hvm]; exact Function.update_self ..
  refine ⟨rfl, ?_, ?_, ?_, fun i hi hki => ?_, fun i hi hki => ?_⟩
  · rw [← hvm]; rfl
  · rw [← hvm]
    exact Function.update_of_ne hne ..
  · rw [← hvm]; rfl
  · have h1 := hdir i hi
    rw [if_pos hki, hfresh] at h1
    obtain ⟨he, ht⟩ := Prod.mk.inj h1
    have hl : ∀ b, a ≤ b → b + 4 ≤ a + 8192 → heap.run.heap.mem.load32 b = vm.heap.run.heap.mem.load32 b :=
      fun b h1 h2 => Mem.load32_congr fun x _ _ => hmem x (by omega) (by omega)
    rw [hself, he, ht, ← hl _ (by omega) (by omega), ← hl _ (by omega) (by omega)]
    exact ⟨rfl, rfl⟩
  · have h1 := hdir i hi
    rw [if_neg hki] at h1
    rw [hself]
    exact (Prod.mk.inj h1).2

/-- **A new address space is empty** exactly when the bytes left in its block are,
    where the kernel's directory has no tables, and that directory maps no user
    pages. -/
theorem vmm_create_clean (vm vm' : Vm KernelHeap) (d : ℕ)
    (hlive : Allocator.Live vm.heap vm.kernelPageDirectory) (hfresh : HoldsBlock vm)
    (h : vm.vmmCreateAddressSpace = .ok (d, vm')) :
    EmptySpace vm' d ↔ KernelOnly vm ∧ CleanBytes vm (Allocator.alloc vm.heap 8192 true).1 := by
  obtain ⟨rfl, hs⟩ := newSlots hlive hfresh h
  generalize (Allocator.alloc vm.heap 8192 true).1 = a at *
  have hslot : ∀ i < 1024, (vm.dirs vm.kernelPageDirectory).tables i = 0 →
      (((vm'.dirs a).entries i).present = false ∧ (vm'.dirs a).tables i = 0 ↔
        vm.heap.run.heap.mem.load32 (a + 4 * i) % 2 = 0 ∧
          vm.heap.run.heap.mem.load32 (a + 4096 + 4 * i) = 0) := by
    intro i hi hki
    obtain ⟨he, ht⟩ := hs.stale i hi hki
    rw [he, ht]
    exact and_congr (ofWord_present _) Iff.rfl
  constructor
  · rintro ⟨huser, hslots⟩
    rw [hs.kernel, hs.kernelDir] at hslots
    refine ⟨fun v hv => ?_, fun i hi hki => (hslot i hi hki).1 (hslots i hi hki)⟩
    by_cases hki : (vm.dirs vm.kernelPageDirectory).tables (pageDirectoryIndex v) = 0
    · exact pageTouched_absent hki
    · rw [← pageTouched_congr hs.tables (hs.linked _ (pageDirectoryIndex_lt v) hki)]
      exact huser v hv
  · rintro ⟨hkernel, hclean⟩
    have hslots : ∀ i < 1024, (vm.dirs vm.kernelPageDirectory).tables i = 0 →
        ((vm'.dirs a).entries i).present = false ∧ (vm'.dirs a).tables i = 0 :=
      fun i hi hki => (hslot i hi hki).2 (hclean i hi hki)
    refine ⟨fun v hv => ?_, by rwa [hs.kernel, hs.kernelDir]⟩
    by_cases hki : (vm.dirs vm.kernelPageDirectory).tables (pageDirectoryIndex v) = 0
    · exact pageTouched_absent (hslots _ (pageDirectoryIndex_lt v) hki).2
    · rw [pageTouched_congr hs.tables (hs.linked _ (pageDirectoryIndex_lt v) hki)]
      exact hkernel v hv

/-! ## Cleared memory -/

/-- A kernel heap in cleared memory from which the kernel's directory was taken. -/
def clearedHeap : KernelHeap :=
  (Allocator.alloc (KernelHeap.boot 0xC0300000 (fun _ => 0) (by decide)) 8192 true).2

/-- Every directory object is empty. -/
def clearedVm : Vm KernelHeap where
  heap := clearedHeap
  tables _ := .zero
  dirs _ := .zero
  kernelPageDirectory := 0xC0300000
  currentPageDirectory := 0xC0300000
  pagingEnabled := true
  cr3 := 0x300000
  pmm := ⟨fun _ => 0, 0, 0⟩
  mem _ := 0

theorem ofBytes_cleared (a : ℕ) : PageDirectory.ofBytes (fun _ => 0) a = .zero := by
  have h : ∀ b, Mem.load32 (fun _ => 0) b = 0 := fun b => rfl
  rw [PageDirectory.ofBytes, PageDirectory.zero]
  simp only [h]
  rfl

theorem clearedVm_alloc : (Allocator.alloc clearedVm.heap 8192 true).1 = 0xC0302000 := by
  decide

theorem vmm_create_clean_cleared : ∃ vm', clearedVm.vmmCreateAddressSpace = .ok (0xC0302000, vm') ∧
    EmptySpace vm' 0xC0302000 := by
  have hlive : Allocator.Live clearedVm.heap clearedVm.kernelPageDirectory := Or.inr (by decide)
  have hfresh : HoldsBlock clearedVm := (ofBytes_cleared _).symm
  have hc := SpacesInv.vmmCreateAddressSpace_eq hlive (by rw [clearedVm_alloc]; decide)
  rw [clearedVm_alloc] at hc
  exact ⟨_, hc, (vmm_create_clean clearedVm _ _ hlive hfresh hc).2
    ⟨fun v _ => pageTouched_absent rfl, fun i _ _ => ⟨rfl, rfl⟩⟩⟩

/-! ## A block with stale bytes -/

section
variable {base : ℕ} {s : HeapRun}

/-- An allocation that carves the block `b`. -/
theorem reachable_alloc (ls : List Blk) (b : Blk) (rs : List Blk) (size : ℕ) (align : Bool)
    (hr : (heapSystem base).Reachable s) (hi : KheapInv base s.heap (ls ++ b :: rs)) (h0 : size ≠ 0)
    (hb : Kheap.bestFit size align (ls ++ b :: rs) = some b) :
    ∃ s', (heapSystem base).Reachable s' ∧ s'.live = b.carved align :: s.live ∧
      KheapInv base s'.heap (ls ++ (b.carve size align ++ rs)) := by
  obtain ⟨h', h1, h2, -⟩ := Kheap.kmallocHeap_carve ls b rs size align hi h0 hb
  have hint : s.heap.kmallocInt size align = some (b.carved align, h') := (if_pos hi.enabled).trans h1
  have hne : b.carved align ≠ 0 := by
    rw [Blk.carved]
    split <;> simp [Blk.data]
  have hg : HeapRun.grant (b.carved align) s.live = b.carved align :: s.live := if_neg hne
  refine ⟨⟨h', b.carved align :: s.live⟩, ?_, rfl, h2⟩
  cases align with
  | false =>
    refine .step (i := .kmalloc size) hr ⟨trivial, b.carved false, ?_⟩
    rw [HeapRun.exec, Kheap.kmalloc, hint, Option.map_some, hg]
  | true =>
    refine .step (i := .kmallocA size) hr ⟨trivial, b.carved true, ?_⟩
    rw [HeapRun.exec, Kheap.kmallocA, hint, Option.map_some, hg]

/-- A client writes a byte of its block. -/
theorem reachable_write {bs : List Blk} (b : Blk) (x : ℕ) (v : UInt8)
    (hr : (heapSystem base).Reachable s) (hi : KheapInv base s.heap bs) (hb : b ∈ bs)
    (hl : b.data ∈ s.live) (h1 : b.data ≤ x) (h2 : x < b.stop) :
    ∃ s', (heapSystem base).Reachable s' ∧ s'.live = s.live ∧ KheapInv base s'.heap bs ∧
      s'.heap.mem x = v := by
  have hsize : s.heap.payloadSize b.data = b.size := by
    obtain ⟨ha, hs⟩ := hi.heap.block_of_mem hb
    rw [Kheap.payloadSize, ha, hs]
  refine ⟨_, .step (i := .write x v) hr ⟨⟨b.data, hl, h1, ?_⟩, 0, rfl⟩, rfl,
    (hi.heap.congr fun y hy => Mem.store8_out ?_).kheap, Mem.store8_in ..⟩
  · rw [hsize]
    exact h2
  · rintro rfl
    exact hy (hi.heap.noHeader hb h1 h2)

/-- A client frees a block between blocks in use: the payload stays. -/
theorem reachable_free (ls : List Blk) (b : Blk) (rs : List Blk) (hr : (heapSystem base).Reachable s)
    (hi : KheapInv base s.heap (ls ++ b :: rs)) (hl : b.data ∈ s.live) (hs : 0 < b.size)
    (hp : ∀ p ∈ ls.getLast?, p.free = false) (hn : ∀ n ∈ rs.head?, n.free = false) :
    ∃ s', (heapSystem base).Reachable s' ∧
      KheapInv base s'.heap (ls ++ { b with free := true } :: rs) ∧
      ∀ x, b.data ≤ x → s'.heap.mem x = s.heap.mem x := by
  have hk := Kheap.kfree_apart hi hs hp hn
  refine ⟨_, .step (i := .kfree b.data) hr ⟨Or.inr hl, 0, rfl⟩, ?_, fun x hx => ?_⟩
  · show KheapInv base (s.heap.kfree b.data) _
    rw [hk]
    exact (hi.heap.setFree true).kheap
  · show (s.heap.kfree b.data).mem x = _
    rw [hk]
    exact Mem.setFree_out (Or.inr hx)

end

/-- The blocks after the run below: the second one was used and freed. -/
def staleBlocks : List Blk :=
  [⟨0xD0000000, 4056, false⟩, ⟨0xD0000FEC, 8192, true⟩, ⟨0xD0003000, 16, false⟩,
    ⟨0xD0003024, 33542088, true⟩]

/-- `kmalloc(4056)`, `p = kmalloc_a(8192)`, `kmalloc(16)`, a byte written to `p`, and
    `kfree(p)`: the byte stays. -/
theorem stale_reachable : ∃ s, (heapSystem 0xD0000000).Reachable s ∧
    KheapInv 0xD0000000 s.heap staleBlocks ∧ s.heap.mem 0xD0002001 = 16 := by
  obtain ⟨h, hk, hr⟩ := heapSystem_init
  have h0 := (Kheap.kheapInit_spec ⟨by decide, by decide⟩ hk).inv
  obtain ⟨s1, hr1, -, h1⟩ := reachable_alloc [] ⟨0xD0000000, 33554412, true⟩ [] 4056 false hr h0
    (by decide) (by decide +kernel)
  obtain ⟨s2, hr2, hl2, h2⟩ := reachable_alloc [⟨0xD0000000, 4056, false⟩]
    ⟨0xD0000FEC, 33550336, true⟩ [] 8192 true hr1 h1 (by decide) (by decide +kernel)
  obtain ⟨s3, hr3, hl3, h3⟩ := reachable_alloc [⟨0xD0000000, 4056, false⟩, ⟨0xD0000FEC, 8192, false⟩]
    ⟨0xD0003000, 33542124, true⟩ [] 16 false hr2 h2 (by decide) (by decide +kernel)
  have hlive : (0xD0001000 : ℕ) ∈ s3.live := by
    rw [hl3, hl2]
    exact List.mem_cons_of_mem _ (List.mem_cons_self ..)
  obtain ⟨s4, hr4, hl4, h4, hm4⟩ := reachable_write ⟨0xD0000FEC, 8192, false⟩ 0xD0002001 16 hr3
    h3 (by decide) hlive (by decide) (by decide)
  obtain ⟨s5, hr5, h5, hm5⟩ := reachable_free [⟨0xD0000000, 4056, false⟩]
    ⟨0xD0000FEC, 8192, false⟩ _ hr4 h4 (hl4 ▸ hlive) (by decide) (by decide) (by decide)
  exact ⟨s5, hr5, h5, (hm5 _ (by decide)).trans hm4⟩

/-- The kernel's directory: tables for the kernel image and for the heap. -/
def staleKernelDirectory : PageDirectory where
  entries _ := .zero
  tables i := if i = 768 then 0xC0302000 else if i = 832 then 0xC0303000 else 0

/-- That directory, and `dir` in the block that was freed. -/
def staleVm (heap : KernelHeap) (dir : PageDirectory) : Vm KernelHeap where
  heap := heap
  tables _ := .zero
  dirs a := if a = 0xD0001000 then dir else staleKernelDirectory
  kernelPageDirectory := 0xC0300000
  currentPageDirectory := 0xC0300000
  pagingEnabled := true
  cr3 := 0x300000
  pmm := ⟨fun _ => 0, 0, 0⟩
  mem _ := 0

theorem staleVm_dirs (heap : KernelHeap) (dir : PageDirectory) :
    (staleVm heap dir).dirs 0xD0001000 = dir := by
  simp [staleVm]

theorem staleVm_kernelOnly (heap : KernelHeap) (dir : PageDirectory) :
    KernelOnly (staleVm heap dir) := by
  intro v hv
  refine pageTouched_absent ?_
  have hv : v < 3221225472 := hv
  have hi : pageDirectoryIndex v < 768 := by
    rw [pageDirectoryIndex, u32_of_lt (by omega)]
    omega
  show (if pageDirectoryIndex v = 768 then _ else if pageDirectoryIndex v = 832 then _ else 0) = 0
  rw [if_neg (by omega), if_neg (by omega)]

/-- After that run the new address space has a page table left over in slot 0, which
    the kernel's directory does not fill. -/
theorem vmm_create_stale : ∃ vm vm' : Vm KernelHeap,
    (heapSystem 0xD0000000).Reachable vm.heap.run ∧
      Allocator.Live vm.heap vm.kernelPageDirectory ∧ KernelOnly vm ∧ HoldsBlock vm ∧
      vm.vmmCreateAddressSpace = .ok (0xD0001000, vm') ∧ ¬ EmptySpace vm' 0xD0001000 := by
  obtain ⟨s, hr, hi, hbyte⟩ := stale_reachable
  have hinv : InitializedInv s [0xC0300000] := by
    refine ⟨?_, ?_⟩
    · rw [hi.base_eq]
      exact HeapRun.reachable_inv hr
    · rw [hi.base_eq]
      decide
  let heap : KernelHeap := ⟨s, [0xC0300000], by decide, Or.inr hinv⟩
  obtain ⟨h', hk, -, -⟩ := Kheap.kmallocHeap_carve [⟨0xD0000000, 4056, false⟩] ⟨0xD0000FEC, 8192, true⟩ _ 8192
    true hi (by decide) (by decide +kernel)
  have hint : s.heap.kmallocInt 8192 true = some (0xD0001000, h') := (if_pos hi.enabled).trans hk
  have ha : (Allocator.alloc heap 8192 true).1 = 0xD0001000 := by
    show (heap.alloc 8192 true).1 = _
    simp only [KernelHeap.alloc, heap, hint, Option.get_some]
  let vm := staleVm heap (.ofBytes (Allocator.alloc heap 8192 true).2.run.heap.mem 0xD0001000)
  have hlive : Allocator.Live vm.heap vm.kernelPageDirectory := Or.inr (List.mem_singleton.2 rfl)
  have ha' : (Allocator.alloc vm.heap 8192 true).1 = 0xD0001000 := ha
  have hfresh : HoldsBlock vm := by
    rw [HoldsBlock, ha']
    exact staleVm_dirs ..
  have hc := SpacesInv.vmmCreateAddressSpace_eq hlive (by rw [ha']; decide)
  rw [ha'] at hc
  refine ⟨vm, _, hr, hlive, staleVm_kernelOnly _ _, hfresh, hc, fun he => ?_⟩
  obtain ⟨-, hs⟩ := newSlots hlive hfresh hc
  have h0 := (he.slots 0 (by decide) (by rw [hs.kernel, hs.kernelDir]; rfl)).2
  rw [(hs.stale 0 (by decide) rfl).2] at h0
  have hb : (s.heap.mem 0xD0002001).toNat = 16 := by rw [hbyte]; rfl
  have hload : s.heap.mem.load32 0xD0002000 = 0 := h0
  rw [Mem.load32] at hload
  have hb' : (s.heap.mem (0xD0002000 + 1)).toNat = 16 := hb
  omega

end Ttos
