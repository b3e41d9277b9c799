/-
  Mapping memory for user programs.

  * `vmmMapMemory_user`, `vmmMapMemory_pages`: a call that succeeds maps the pages asked for,
    below the kernel's half;
  * `vmmMapMemory_fails`: a call that returns `NULL` met a page in use, and leaves every page
    as it was.
-/
import Ttos.Memory.VmmSearch

namespace Ttos

open Vm

variable {σ : Type*} [Allocator σ] {vm vm' : Vm σ} {ds : List ℕ} {size a r : ℕ} {w : Bool}

/-- The pages a successful user mapping visits are in user space. -/
theorem vmmMapLoop_user {va stop : ℕ} (hstop : stop < 4294967296) (hr : r ≠ 0) :
    ∀ {fuel : ℕ} {vm vm' : Vm σ} {a f : ℕ}, a ≠ 0 →
      vmmMapLoop va stop false w fuel vm (4096 * a) f = .ok (r, vm') →
      ∀ i, 4096 * (a + i) < stop → 4096 * (a + i) < vmmKernelSpaceBase
  | 0, _, _, _, _, _, h, _, _ => by cases h
  | fuel + 1, vm, vm', a, f, ha, h, i, hi => by
    have hlt : 4096 * a < stop := by omega
    obtain ⟨b, vm₁, f', hp, hb, h⟩ := vmmMapLoop_step hr hlt h
    cases i with
    | zero =>
      have := (vmmMapPage_side hp hb (by omega)).2
      simpa using this
    | succ i =>
      have hz : u32 (4096 * a + 4096) = 4096 * (a + 1) := by unfold u32; omega
      rw [hz] at h
      have := vmmMapLoop_user hstop hr (by omega) h i (by omega)
      omega

/-- The number of pages `vmm_map_memory` maps from the page `a` on. -/
def pagesMapped (a size : ℕ) : ℕ := if 4096 * a + size < 4294967296 then (size + 4095) / 4096 else 0

/-- A user mapping that succeeds: where it lies and which pages it maps. -/
theorem vmmMapMemory_user {v : ℕ} (h : TablesOk vm ds) (hc : vm.currentPageDirectory ∈ ds)
    (hv : v < 4294967296) (hs : size < 4294967296)
    (hm : vm.vmmMapMemory v size 0 false w = .ok (r, vm')) (hr : r ≠ 0) :
    ∃ a, a ≠ 0 ∧ (v ≠ 0 → a = v / 4096) ∧ RangeMapped ds a (pagesMapped a size) vm vm' ∧
      (pagesMapped a size = 0 ∨ 4096 * (a + pagesMapped a size) ≤ vmmKernelSpaceBase) ∧
      r = 4096 * a := by
  unfold vmmMapMemory at hm
  cases hp : vm.vmmPlace v size false with
  | error e => rw [hp] at hm; cases hm
  | ok b =>
    rw [hp] at hm
    obtain ⟨-, hbv, hblt⟩ := vmmPlace_spec hp
    have hb := hblt hv
    have hal : vmmAlignDown b = 4096 * (b / 4096) := by unfold vmmAlignDown; omega
    simp only [hal] at hm
    have ha : b / 4096 ≠ 0 := by
      intro h0
      rcases vmmMapLoop_result hm with h1 | h1
      · exact hr h1
      · rw [h0] at h1; exact hr h1
    obtain ⟨n, h1, h2, h3⟩ := vmmMapLoop_success (u32_lt _) hr h hc ha (by omega) hm
    have hu := vmmMapLoop_user (u32_lt _) hr ha hm
    have hn : n = pagesMapped (b / 4096) size := by
      unfold pagesMapped
      unfold u32 at h1 h2
      split <;> omega
    subst hn
    refine ⟨b / 4096, ha, fun h0 => by rw [hbv h0], h3, ?_, (vmmMapLoop_result hm).resolve_left hr⟩
    by_cases h0 : pagesMapped (b / 4096) size = 0
    · exact Or.inl h0
    · right
      have hlast := hu (pagesMapped (b / 4096) size - 1) (by omega)
      simp only [vmmKernelSpaceBase] at hlast ⊢
      omega

theorem vmmMapMemory_place {v p : ℕ} {k : Bool} (hm : vm.vmmMapMemory v size p k w = .ok (r, vm'))
    (hr : r ≠ 0) : ∃ b, vm.vmmPlace v size k = .ok b ∧ r = vmmAlignDown b := by
  unfold vmmMapMemory at hm
  cases hp : vm.vmmPlace v size k with
  | error e => rw [hp] at hm; cases hm
  | ok b =>
    rw [hp] at hm
    exact ⟨b, rfl, (vmmMapLoop_result hm).resolve_left hr⟩

/-- **A user mapping of `n` pages** that succeeds, at a page boundary or anywhere. -/
theorem vmmMapMemory_pages {v n : ℕ} (h : TablesOk vm ds) (hc : vm.currentPageDirectory ∈ ds)
    (hn : 0 < n) (hn' : n < 1048576) (hv : v = 0 ∨ v % 4096 = 0 ∧ v + 4096 * n < 4294967296)
    (hm : vm.vmmMapMemory v (4096 * n) 0 false w = .ok (r, vm')) (hr : r ≠ 0) :
    ∃ b, b ≠ 0 ∧ r = 4096 * b ∧ (v ≠ 0 → r = v) ∧ 4096 * (b + n) ≤ 3221225472 ∧
      RangeMapped ds b n vm vm' := by
  obtain ⟨b, hb, hbv, hrange, huser, hrb⟩ := vmmMapMemory_user h hc (by omega) (by omega) hm hr
  have hfit : 4096 * b + 4096 * n < 4294967296 := by
    by_cases hv0 : v = 0
    · subst hv0
      obtain ⟨a, ha, hra⟩ := vmmMapMemory_place hm hr
      obtain ⟨ha0, -, -⟩ := vmmPlace_spec ha
      rw [vmmPlace, if_neg (fun hc => hc rfl)] at ha
      cases hf : vm.vmmFindFreeMemory (4096 * n) false with
      | error e => rw [hf] at ha; cases ha
      | ok a' =>
        rw [hf] at ha
        simp only at ha
        split at ha
        · cases ha
        · obtain rfl : a' = a := Except.ok.inj ha
          have hfree := freeRange_user (by omega) (by omega) hf ha0
          have hal := hfree.aligned
          have hstop : a' + 4096 * pageCount (4096 * n) ≤ 3221225472 := hfree.stop
          unfold pageCount at hstop
          unfold vmmAlignDown at hra
          omega
    · have := hbv hv0
      omega
  have hpages : pagesMapped b (4096 * n) = n := by
    rw [pagesMapped, if_pos hfit]
    omega
  rw [hpages] at hrange huser
  refine ⟨b, hb, hrb, fun hv0 => ?_, ?_, hrange⟩
  · have := hbv hv0
    omega
  · exact huser.resolve_left hn.ne'

/-- A mapping leaves the pages that were there. -/
theorem Vm.RangeMapped.page_some {d n u b : ℕ} {e : PageTableEntry} (hm : RangeMapped ds b n vm vm')
    (h : TablesOk vm ds) (hd : d ∈ ds) (he : vm.page d u = some e) : vm'.page d u = some e := by
  by_cases hin : b ≤ pageNumber u ∧ pageNumber u < b + n ∧
      vm'.tableOf d u = vm'.tableOf vm.currentPageDirectory u
  · rw [hm.grown.shared h hd hin.2.2 (hm.unused u hin.1 hin.2.1)] at he
    cases he
  · rw [hm.others d hd u hin]
    exact he

/-- A user mapping that fails. -/
theorem vmmMapMemory_fails {v : ℕ} (h : TablesOk vm ds) (hc : vm.currentPageDirectory ∈ ds)
    (hv : v = 0 ∨ 4096 ≤ v) (hlt : v < 4294967296) (hs : size < 4294967296)
    (hm : vm.vmmMapMemory v size 0 false w = .ok (0, vm')) :
    v ≠ 0 ∧ (∃ n, 4096 * (v / 4096 + n) < u32 (v / 4096 * 4096 + size) ∧
      vm.page vm.currentPageDirectory (4096 * (v / 4096 + n)) ≠ none) ∧
      ∀ d ∈ ds, ∀ u, vm'.page d u = vm.page d u := by
  unfold vmmMapMemory at hm
  cases hplace : vm.vmmPlace v size false with
  | error e => rw [hplace] at hm; cases hm
  | ok b =>
    rw [hplace] at hm
    simp only at hm
    obtain ⟨hb0, hbv, hb⟩ := vmmPlace_spec hplace
    have hb := hb hlt
    have hdown : vmmAlignDown b = 4096 * (b / 4096) := Nat.mul_comm _ _
    have hb1 : 4096 ≤ b := by
      by_cases h0 : v = 0
      · subst h0
        exact (vmmPlace_found hs hplace).2.1
      · rw [hbv h0]
        omega
    rw [hdown] at hm
    cases vmmMapLoop_end (u32_lt _) h hc (by omega) (by omega) hm with
    | finished n _ h0 => omega
    | wrapped _ _ _ hk => cases hk
    | stopped n vm₁ hr _ hlt' hn hu _ hl =>
      have hcur : vm₁.currentPageDirectory = vm.currentPageDirectory := hr.grown.statics.current
      obtain ⟨vm₂, hl₂, hun⟩ := vmmUnmapLoop_range (4096 * (b / 4096 + n)) n vmmFuel
        (4096 * (b / 4096)) hr.ok (hcur ▸ hc) (by simp only [vmmFuel]; omega) (by omega) (by omega)
        (by omega)
      obtain rfl : vm₂ = vm' := by
        rw [hl] at hl₂
        exact (Except.ok.inj hl₂).symm
      rw [Nat.mul_div_cancel_left _ (by decide)] at hun
      have hused : vm.page vm.currentPageDirectory (4096 * (b / 4096 + n)) ≠ none := by
        rw [← hr.others _ hc]
        · exact hu
        · rw [pageNumber_page hn]
          omega
      have hv0 : v ≠ 0 := by
        -- a place that was found has no page in use
        rintro rfl
        obtain ⟨hmod, -, -, hfree⟩ := vmmPlace_found hs hplace
        have hj := hfree n (by unfold u32 at hlt'; omega)
        have hpage : u32 (b + 4096 * n) = 4096 * (b / 4096 + n) := by
          rw [u32_of_lt (by omega)]
          omega
        rw [hpage, isPageUsed_false h hc] at hj
        exact hused hj
      obtain rfl := hbv hv0
      rw [Nat.mul_comm (b / 4096)]
      exact ⟨hv0, ⟨n, hlt', hused⟩, hr.undone h hun⟩

end Ttos
