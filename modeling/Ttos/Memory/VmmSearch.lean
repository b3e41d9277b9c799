/-
  The search for a free range of pages, `vmm_find_free_memory`.

  * `FreeRange`: a range of whole pages in a memory space, none of them in use;
  * `SearchRight`: the search ends with the lowest free range, or with `NULL` when there is
    none;
  * `vmm_find_free_exact`: in user space it always does.  The kernel space ends with the
    last page of the address space, where the counters wrap around.
-/
import Ttos.Memory.VmmRollback

namespace Ttos

variable {σ : Type*}

/-- The first address of a memory space. -/
def spaceStart (isKernel : Bool) : ℕ := if isKernel then 0xC0000000 else 0x1000

/-- The address behind a memory space. -/
def spaceStop (isKernel : Bool) : ℕ := if isKernel then 0x100000000 else 0xC0000000

/-- The bound of the loops: for the kernel space not the address behind it, which has no
    32-bit value. -/
def spaceEnd (isKernel : Bool) : ℕ := if isKernel then 0xFFFFFFFF else 0xC0000000

/-- The number of pages that hold `size` bytes. -/
def pageCount (size : ℕ) : ℕ := (size + 4095) / 4096

namespace Vm

/-- The page is not in use in the current address space. -/
def Unused (vm : Vm σ) (address : ℕ) : Prop :=
  vm.pagingIsPageUsed vm.currentPageDirectory address = false

/-- The pages of `[a, a + size)` are in the memory space and not in use. -/
structure FreeRange (vm : Vm σ) (size : ℕ) (isKernel : Bool) (a : ℕ) : Prop where
  aligned : a % 4096 = 0
  start : spaceStart isKernel ≤ a
  stop : a + 4096 * pageCount size ≤ spaceStop isKernel
  unused : ∀ i < pageCount size, vm.Unused (a + 4096 * i)

/-- What the search is for. -/
def SearchRight (vm : Vm σ) (size : ℕ) (isKernel : Bool) (res : Except Stop ℕ) : Prop :=
  ∃ a, res = .ok a ∧
    (a ≠ 0 → vm.FreeRange size isKernel a ∧ ∀ b, vm.FreeRange size isKernel b → a ≤ b) ∧
    (a = 0 → ∀ b, ¬ vm.FreeRange size isKernel b)

variable {vm : Vm σ} {page stop size fuel : ℕ} {k : Bool}

/-! ## The inner loop -/

/-- The inner loop goes past the address. -/
def Passes (vm : Vm σ) (stop address : ℕ) : Prop := address < stop ∧ vm.Unused address

theorem u32_add_page (n : ℕ) : u32 (u32 n + 4096) = u32 (n + 4096) := by
  unfold u32
  omega

theorem vmmRegionFree_skip {t : ℕ} (fuel : ℕ)
    (h : ∀ j < t, u32 (4096 * j) < size ∧ vm.Passes stop (u32 (page + u32 (4096 * j)))) :
    vm.vmmRegionFree page stop size (fuel + t) 0 =
      vm.vmmRegionFree page stop size fuel (u32 (4096 * t)) := by
  induction t generalizing fuel with
  | zero => rfl
  | succ t ih =>
    obtain ⟨hlt, hend, hun⟩ := h t (Nat.lt_succ_self t)
    have hf : fuel + (t + 1) = fuel + 1 + t := by omega
    have hn : ¬ vm.pagingIsPageUsed vm.currentPageDirectory (u32 (page + u32 (4096 * t))) = true :=
      Bool.eq_false_iff.1 hun
    rw [hf, ih (fuel + 1) fun j hj => h j (Nat.lt_succ_of_lt hj), vmmRegionFree, if_pos hlt,
      if_neg (Nat.not_le.2 hend), if_neg hn, u32_add_page, Nat.mul_succ]

/-- A page of the region that is in use, or behind the space. -/
def Obstructed (vm : Vm σ) (stop size page : ℕ) : Prop :=
  ∃ j < pageCount size, ¬ vm.Passes stop (u32 (page + 4096 * j))

theorem mul_lt_of_lt_pageCount {j : ℕ} (hj : j < pageCount size) : 4096 * j < size := by
  unfold pageCount at hj
  omega

theorem vmmRegionFree_obstructed (hs : size < 4294967296) (hf : pageCount size < fuel)
    (h : vm.Obstructed stop size page) : vm.vmmRegionFree page stop size fuel 0 = some false := by
  classical
  obtain ⟨hj, hnot⟩ := Nat.find_spec h
  have hmin : ∀ i < Nat.find h, vm.Passes stop (u32 (page + 4096 * i)) := by
    intro i hi
    by_contra hp
    exact Nat.find_min h hi ⟨hi.trans hj, hp⟩
  -- the first obstacle ends the loop
  generalize Nat.find h = j at *
  have hlt := mul_lt_of_lt_pageCount hj
  obtain ⟨g, rfl⟩ : ∃ g, fuel = g + 1 + j := ⟨fuel - 1 - j, by omega⟩
  rw [vmmRegionFree_skip (g + 1), u32_of_lt (by omega), vmmRegionFree, if_pos hlt]
  · by_cases hend : stop ≤ u32 (page + 4096 * j)
    · rw [if_pos hend]
    · rw [if_neg hend, if_pos]
      by_contra hu
      exact hnot ⟨Nat.not_le.1 hend, Bool.eq_false_iff.2 hu⟩
  · intro i hi
    rw [u32_of_lt (by omega)]
    exact ⟨by omega, hmin i hi⟩

theorem vmmRegionFree_clear (hn : 4096 * pageCount size < 4294967296) (hf : pageCount size < fuel)
    (h : ¬ vm.Obstructed stop size page) : vm.vmmRegionFree page stop size fuel 0 = some true := by
  obtain ⟨g, rfl⟩ : ∃ g, fuel = g + 1 + pageCount size := ⟨fuel - 1 - pageCount size, by omega⟩
  rw [vmmRegionFree_skip (g + 1), u32_of_lt hn, vmmRegionFree, if_neg]
  · unfold pageCount
    omega
  · intro j hj
    have hlt := mul_lt_of_lt_pageCount hj
    rw [u32_of_lt (by omega)]
    exact ⟨hlt, by_contra fun hp => h ⟨j, hj, hp⟩⟩

/-- With as many pages as there are the counter wraps around, and the loop does not end. -/
theorem vmmRegionFree_endless (hn : pageCount size = 1048576)
    (h : ¬ vm.Obstructed stop size page) (fuel : ℕ) :
    vm.vmmRegionFree page stop size fuel 0 = none := by
  have hskip : vm.vmmRegionFree page stop size (0 + fuel) 0 =
      vm.vmmRegionFree page stop size 0 (u32 (4096 * fuel)) := vmmRegionFree_skip 0 ?_
  · rw [Nat.zero_add] at hskip
    rw [hskip]
    rfl
  · intro j _
    have hj : u32 (4096 * j) = 4096 * (j % 1048576) := by
      unfold u32
      omega
    have hlt : j % 1048576 < pageCount size := by omega
    rw [hj]
    exact ⟨mul_lt_of_lt_pageCount hlt, by_contra fun hp => h ⟨_, hlt, hp⟩⟩

/-! ## The outer loop -/

theorem pageCount_lt_vmmFuel (hs : size < 4294967296) : pageCount size < vmmFuel := by
  show pageCount size < 1048592
  unfold pageCount
  omega

theorem vmmFindFreeFrom_reject (hs : size < 4294967296) (hp : page < stop)
    (h : vm.Obstructed stop size page) (fuel : ℕ) :
    vm.vmmFindFreeFrom stop size (fuel + 1) page =
      vm.vmmFindFreeFrom stop size fuel (u32 (page + 4096)) := by
  rw [vmmFindFreeFrom, if_pos hp, vmmRegionFree_obstructed hs (pageCount_lt_vmmFuel hs) h]
  split_ifs <;> rfl

theorem vmmFindFreeFrom_accept (h1 : 1 ≤ size) (hn : 4096 * pageCount size < 4294967296)
    (hp : page < stop) (hlt : page < 4294967296) (h : ¬ vm.Obstructed stop size page) (fuel : ℕ) :
    vm.vmmFindFreeFrom stop size (fuel + 1) page = .ok page := by
  have hfuel : pageCount size < vmmFuel := by
    show pageCount size < 1048592
    omega
  have h0 : 0 < pageCount size := by
    unfold pageCount
    omega
  have hu : ¬ vm.pagingIsPageUsed vm.currentPageDirectory page = true := by
    intro hu
    refine h ⟨0, h0, fun hpass => ?_⟩
    rw [Nat.mul_zero, Nat.add_zero, u32_of_lt hlt] at hpass
    exact Bool.eq_false_iff.1 hpass.2 hu
  rw [vmmFindFreeFrom, if_pos hp, if_neg hu, vmmRegionFree_clear hn hfuel h]

theorem vmmFindFreeFrom_skip {t : ℕ} (hs : size < 4294967296) (hb : page < 4294967296)
    (h : ∀ s < t, u32 (page + 4096 * s) < stop ∧ vm.Obstructed stop size (u32 (page + 4096 * s)))
    (fuel : ℕ) : vm.vmmFindFreeFrom stop size (fuel + t) page =
      vm.vmmFindFreeFrom stop size fuel (u32 (page + 4096 * t)) := by
  induction t generalizing fuel with
  | zero => rw [Nat.mul_zero, Nat.add_zero, Nat.add_zero, u32_of_lt hb]
  | succ t ih =>
    obtain ⟨hlt, hobs⟩ := h t (Nat.lt_succ_self t)
    have hf : fuel + (t + 1) = fuel + 1 + t := by omega
    rw [hf, ih (fun s hs => h s (Nat.lt_succ_of_lt hs)), vmmFindFreeFrom_reject hs hlt hobs,
      u32_add_page, Nat.mul_succ, Nat.add_assoc]

/-- A search that ends has rejected all pages before the one it ends with. -/
theorem vmmFindFreeFrom_ok {a : ℕ} (hs : size < 4294967296) (h1 : 1 ≤ size) :
    ∀ {fuel page : ℕ}, page < 4294967296 → vm.vmmFindFreeFrom stop size fuel page = .ok a →
      ∃ t, (∀ s < t, vm.Obstructed stop size (u32 (page + 4096 * s))) ∧
        ((¬ vm.Obstructed stop size a ∧ 4096 * pageCount size < 4294967296 ∧
            a = u32 (page + 4096 * t)) ∨
          (stop ≤ u32 (page + 4096 * t) ∧ a = 0))
  | 0, _, _, h => by cases h
  | fuel + 1, page, hb, h => by
    by_cases hp : page < stop
    swap
    · rw [vmmFindFreeFrom, if_neg hp] at h
      cases h
      refine ⟨0, fun s hs => absurd hs (Nat.not_lt_zero s), Or.inr ⟨?_, rfl⟩⟩
      rw [Nat.mul_zero, Nat.add_zero, u32_of_lt hb]
      exact Nat.not_lt.1 hp
    by_cases hobs : vm.Obstructed stop size page
    · rw [vmmFindFreeFrom_reject hs hp hobs] at h
      obtain ⟨t, hrej, hend⟩ := vmmFindFreeFrom_ok hs h1 (u32_lt _) h
      have hshift : ∀ s, u32 (u32 (page + 4096) + 4096 * s) = u32 (page + 4096 * (s + 1)) := by
        intro s
        unfold u32
        omega
      rw [hshift] at hend
      refine ⟨t + 1, fun s hs => ?_, hend⟩
      cases s with
      | zero => rwa [Nat.mul_zero, Nat.add_zero, u32_of_lt hb]
      | succ s => exact hshift s ▸ hrej s (Nat.lt_of_succ_lt_succ hs)
    · have hle : pageCount size ≤ 1048576 := by
        unfold pageCount
        omega
      have hn : 4096 * pageCount size < 4294967296 := by
        by_contra hn
        have hend := vmmRegionFree_endless (by omega) hobs vmmFuel
        rw [vmmFindFreeFrom, if_pos hp, hend] at h
        split_ifs at h with hu
        refine hobs ⟨0, by omega, fun hpass => ?_⟩
        rw [Nat.mul_zero, Nat.add_zero, u32_of_lt hb] at hpass
        exact Bool.eq_false_iff.1 hpass.2 hu
      rw [vmmFindFreeFrom_accept h1 hn hp hb hobs] at h
      cases h
      refine ⟨0, fun s hs => absurd hs (Nat.not_lt_zero s), Or.inl ⟨hobs, hn, ?_⟩⟩
      rw [Nat.mul_zero, Nat.add_zero, u32_of_lt hb]

/-! ## Both spaces -/

theorem vmmFindFreeMemory_eq (vm : Vm σ) (size : ℕ) (k : Bool) :
    vm.vmmFindFreeMemory size k = vm.vmmFindFreeFrom (spaceEnd k) size vmmFuel (spaceStart k) := by
  cases k <;> rfl

theorem spaces (k : Bool) : spaceStart k < spaceEnd k ∧ spaceEnd k ≤ spaceStop k ∧
    spaceStop k ≤ spaceEnd k + 1 ∧ spaceStop k ≤ 4294967296 ∧ 4096 ≤ spaceStart k ∧
    spaceStart k % 4096 = 0 ∧ spaceStop k % 4096 = 0 := by
  cases k <;> decide

theorem spaceSize (k : Bool) : spaceStop k ≤ spaceStart k + 4096 * 1048575 := by
  cases k <;> decide

/-- A range that is not free, although it is in the space, is obstructed. -/
theorem obstructed_of_not_free {a : ℕ} (ha : a % 4096 = 0) (hstart : spaceStart k ≤ a)
    (hstop : a + 4096 * pageCount size ≤ spaceStop k) (h : ¬ vm.FreeRange size k a) :
    vm.Obstructed (spaceEnd k) size a := by
  by_contra hobs
  refine h ⟨ha, hstart, hstop, fun i hi => ?_⟩
  have hsp := spaces k
  have hpass : vm.Passes (spaceEnd k) (u32 (a + 4096 * i)) := by_contra fun hp => hobs ⟨i, hi, hp⟩
  rw [u32_of_lt (by omega)] at hpass
  exact hpass.2

theorem FreeRange.clear {a : ℕ} (h : vm.FreeRange size k a) :
    ¬ vm.Obstructed (spaceEnd k) size a := by
  rintro ⟨j, hj, hnot⟩
  have hsp := spaces k
  have hstop := h.stop
  have ha := h.aligned
  rw [u32_of_lt (by omega)] at hnot
  exact hnot ⟨by omega, h.unused j hj⟩

/-- **A free range is found**, the lowest one. -/
theorem searchRight_of_free (h1 : 1 ≤ size) (hs : size < 4294967296)
    (h : ∃ a, vm.FreeRange size k a) : vm.SearchRight size k (vm.vmmFindFreeMemory size k) := by
  classical
  obtain ⟨a, ha, hmin⟩ : ∃ a, vm.FreeRange size k a ∧ ∀ b, vm.FreeRange size k b → a ≤ b :=
    ⟨Nat.find h, Nat.find_spec h, fun b hb => Nat.find_min' h hb⟩
  have hsp := spaces k
  have hsz := spaceSize k
  have hal := ha.aligned
  have hstart := ha.start
  have hstop := ha.stop
  have h0 : 0 < pageCount size := by
    unfold pageCount
    omega
  obtain ⟨t, ht⟩ : ∃ t, a = spaceStart k + 4096 * t := ⟨(a - spaceStart k) / 4096, by omega⟩
  have hskip : ∀ s < t, u32 (spaceStart k + 4096 * s) < spaceEnd k ∧
      vm.Obstructed (spaceEnd k) size (u32 (spaceStart k + 4096 * s)) := by
    intro s hs
    rw [u32_of_lt (by omega)]
    refine ⟨by omega, obstructed_of_not_free (by omega) (by omega) (by omega) fun hfree => ?_⟩
    exact absurd (hmin _ hfree) (by omega)
  obtain ⟨g, hg⟩ : ∃ g, 1048592 = g + 1 + t := ⟨1048592 - 1 - t, by omega⟩
  have hg : vmmFuel = g + 1 + t := hg
  refine ⟨a, ?_, fun _ => ⟨ha, hmin⟩, fun hz => absurd hz (by omega)⟩
  rw [vmmFindFreeMemory_eq, hg, vmmFindFreeFrom_skip hs (by omega) hskip, ← ht,
    u32_of_lt (by omega)]
  exact vmmFindFreeFrom_accept h1 (by omega) (by omega) (by omega) ha.clear g

/-- In user space the search ends at the end of the space. -/
theorem vmmFindFreeMemory_user (hs : size < 4294967296) (h : ∀ a, ¬ vm.FreeRange size false a) :
    vm.vmmFindFreeMemory size false = .ok 0 := by
  have hskip : ∀ s < 786431, u32 (4096 + 4096 * s) < 3221225472 ∧
      vm.Obstructed 3221225472 size (u32 (4096 + 4096 * s)) := by
    intro s hs
    rw [u32_of_lt (by omega)]
    refine ⟨by omega, ?_⟩
    by_cases hstop : 4096 + 4096 * s + 4096 * pageCount size ≤ 3221225472
    · have hle : 4096 ≤ 4096 + 4096 * s := by omega
      exact obstructed_of_not_free (k := false) (by omega) hle hstop (h _)
    · -- the region runs over the end
      refine ⟨786431 - s, by omega, fun hpass => ?_⟩
      have hend := hpass.1
      rw [u32_of_lt (by omega)] at hend
      omega
  have hfuel : vmmFuel = 262160 + 1 + 786431 := rfl
  rw [vmmFindFreeMemory_eq, hfuel]
  refine (vmmFindFreeFrom_skip hs (by decide) hskip (262160 + 1)).trans ?_
  rw [vmmFindFreeFrom, if_neg (by decide)]

/-- What the search finds in user space is free. -/
theorem freeRange_user {a : ℕ} (h1 : 1 ≤ size) (hs : size < 4294967296)
    (h : vm.vmmFindFreeMemory size false = .ok a) (ha : a ≠ 0) : vm.FreeRange size false a := by
  by_cases hfree : ∃ a, vm.FreeRange size false a
  · obtain ⟨b, hb, hright, -⟩ := searchRight_of_free h1 hs hfree
    obtain rfl : b = a := Except.ok.inj (hb.symm.trans h)
    exact (hright ha).1
  · rw [vmmFindFreeMemory_user hs fun a ha => hfree ⟨a, ha⟩] at h
    exact absurd (Except.ok.inj h).symm ha

/-- In user space the search ends. -/
theorem vmmFindFreeMemory_returns (h1 : 1 ≤ size) (hs : size < 4294967296) :
    ∃ a, vm.vmmFindFreeMemory size false = .ok a := by
  by_cases hfree : ∃ a, vm.FreeRange size false a
  · obtain ⟨b, hb, -⟩ := searchRight_of_free h1 hs hfree
    exact ⟨b, hb⟩
  · exact ⟨0, vmmFindFreeMemory_user hs fun a ha => hfree ⟨a, ha⟩⟩

/-- In the kernel space the search goes on in the lower half, from page 0 on. -/
theorem vmmFindFreeMemory_kernel (h1 : 1 ≤ size) (hs : size < 4294967296)
    (h : ∀ a, ¬ vm.FreeRange size true a) : vm.vmmFindFreeMemory size true = .ok 0 ↔
      ¬ vm.Unused 0xFFFFF000 ∧ ∀ i < pageCount size, vm.Unused (4096 * i) := by
  have h0 : 0 < pageCount size ∧ pageCount size ≤ 1048576 := by
    unfold pageCount
    omega
  rw [vmmFindFreeMemory_eq]
  constructor
  · intro hz
    obtain ⟨t, hrej, ⟨hclear, hn, ht⟩ | ⟨hend, -⟩⟩ := vmmFindFreeFrom_ok hs h1 (by decide) hz
    · have hunused : ∀ i < pageCount size, vm.Unused (4096 * i) := by
        intro i hi
        have hpass : vm.Passes (spaceEnd true) (u32 (0 + 4096 * i)) :=
          by_contra fun hp => hclear ⟨i, hi, hp⟩
        rw [Nat.zero_add, u32_of_lt (by omega)] at hpass
        exact hpass.2
      refine ⟨fun hlast => ?_, hunused⟩
      -- the last page was rejected, but not because of a page below it
      have htop : 262143 < t := by
        have ht : 0 = (3221225472 + 4096 * t) % 4294967296 := ht
        omega
      obtain ⟨j, hj, hnot⟩ := hrej 262143 htop
      have ha : u32 (spaceStart true + 4096 * 262143) = 4294963200 := by decide
      rw [ha] at hnot
      cases j with
      | zero => exact hnot ⟨by decide, hlast⟩
      | succ j =>
        have hw : u32 (4294963200 + 4096 * (j + 1)) = 4096 * j := by
          unfold u32
          omega
        have hlt : 4096 * j < 4294967295 := by omega
        rw [hw] at hnot
        exact hnot ⟨hlt, hunused j (by omega)⟩
    · -- no 32-bit page address is at the bound or behind it
      have hend : 4294967295 ≤ (3221225472 + 4096 * t) % 4294967296 := hend
      omega
  · rintro ⟨hlast, hunused⟩
    have hn : pageCount size < 1048576 := by
      by_contra hn
      exact hlast (hunused 1048575 (by omega))
    have hskip : ∀ s < 262144, u32 (3221225472 + 4096 * s) < 4294967295 ∧
        vm.Obstructed 4294967295 size (u32 (3221225472 + 4096 * s)) := by
      intro s hs
      rw [u32_of_lt (by omega)]
      refine ⟨by omega, ?_⟩
      by_cases hstop : 3221225472 + 4096 * s + 4096 * pageCount size ≤ 4294967296
      · have hle : 3221225472 ≤ 3221225472 + 4096 * s := by omega
        exact obstructed_of_not_free (k := true) (by omega) hle hstop (h _)
      · -- the region contains the last page
        refine ⟨262143 - s, by omega, fun hpass => hlast ?_⟩
        have hu : u32 (3221225472 + 4096 * s + 4096 * (262143 - s)) = 0xFFFFF000 := by
          unfold u32
          omega
        exact hu ▸ hpass.2
    have hfuel : vmmFuel = 786447 + 1 + 262144 := rfl
    rw [hfuel]
    refine (vmmFindFreeFrom_skip hs (by decide) hskip (786447 + 1)).trans ?_
    refine vmmFindFreeFrom_accept h1 (by omega) (by decide) (by decide) ?_ 786447
    rintro ⟨j, hj, hnot⟩
    have hw : u32 (u32 (3221225472 + 4096 * 262144) + 4096 * j) = 4096 * j := by
      unfold u32
      omega
    have hlt : 4096 * j < 4294967295 := by omega
    rw [hw] at hnot
    exact hnot ⟨hlt, hunused j hj⟩

/-- Where no range is free, the search should return `NULL`. -/
theorem searchRight_of_none (h : ∀ a, ¬ vm.FreeRange size k a) :
    vm.SearchRight size k (vm.vmmFindFreeMemory size k) ↔ vm.vmmFindFreeMemory size k = .ok 0 := by
  constructor
  · rintro ⟨a, ha, hne, -⟩
    by_cases h0 : a = 0
    · rw [ha, h0]
    · exact absurd (hne h0).1 (h a)
  · exact fun h0 => ⟨0, h0, fun h0 => absurd rfl h0, fun _ => h⟩

end Vm

open Vm

/-- **The search for a free range** ends with the lowest one, or with `NULL` when there is
    none, in user space always, and in the kernel space exactly if there is one, or if the
    last page is in use and page 0 begins a range in the lower half. -/
theorem vmm_find_free_exact (vm : Vm σ) {size : ℕ} (h1 : 1 ≤ size) (hs : size < 4294967296)
    (isKernel : Bool) : vm.SearchRight size isKernel (vm.vmmFindFreeMemory size isKernel) ↔
      (isKernel = true → (∃ a, vm.FreeRange size true a) ∨
        (¬ vm.Unused 0xFFFFF000 ∧ ∀ i < pageCount size, vm.Unused (4096 * i))) := by
  by_cases hfree : ∃ a, vm.FreeRange size isKernel a
  · refine iff_of_true (searchRight_of_free h1 hs hfree) ?_
    rintro rfl
    exact Or.inl hfree
  have hnone : ∀ a, ¬ vm.FreeRange size isKernel a := fun a ha => hfree ⟨a, ha⟩
  rw [searchRight_of_none hnone]
  cases isKernel with
  | false => exact iff_of_true (vmmFindFreeMemory_user hs hnone) fun h => nomatch h
  | true =>
    rw [vmmFindFreeMemory_kernel h1 hs hnone, or_iff_right hfree]
    exact ⟨fun h _ => h, fun h => h rfl⟩

theorem emptyVm_unused (address : ℕ) : emptyVm.Unused address := rfl

theorem vmm_find_free_exact_empty :
    emptyVm.SearchRight 4096 true (emptyVm.vmmFindFreeMemory 4096 true) :=
  (vmm_find_free_exact emptyVm (by decide) (by decide) true).2 fun _ =>
    Or.inl ⟨0xC0000000, by decide, by decide, by decide, fun _ _ => emptyVm_unused _⟩

/-- **More than the kernel space holds** is found where the space is empty: the range goes
    on at page 0. -/
theorem vmm_find_free_wraps : ¬ ∀ (vm : Vm KernelHeap) (size : ℕ) (isKernel : Bool), 1 ≤ size →
    size < 4294967296 → vm.SearchRight size isKernel (vm.vmmFindFreeMemory size isKernel) := by
  intro hall
  have hnone : ∀ a, ¬ emptyVm.FreeRange 0x40001000 true a := by
    intro a ha
    have hstart : 0xC0000000 ≤ a := ha.start
    have hstop : a + 4096 * 0x40001 ≤ 0x100000000 := ha.stop
    omega
  have hright := hall emptyVm 0x40001000 true (by decide) (by decide)
  rw [searchRight_of_none hnone, vmmFindFreeMemory_kernel (by decide) (by decide) hnone] at hright
  exact hright.1 (emptyVm_unused _)

end Ttos
