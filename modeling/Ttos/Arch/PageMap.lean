/-
  Page tables refine a map from pages to frames.

  * `PageMap`: the map, changed at one page by each operation.
  * `Refines`: the pages of a directory are those of the map; kept by every operation
    (`Refines.step`), so that after a run the last operation on a page decides
    (`Refines.run`).
-/
import Ttos.Arch.PagingSpec
import Mathlib.Data.List.Induction

namespace Ttos

open Vm

/-- The frame each page is mapped to. -/
abbrev PageMap := ℕ → Option ℕ

/-- A call of `paging_map_page` or `paging_unmap_page` on one directory. -/
inductive PagingOp where
  | map (virtualAddress frameAddress : ℕ) (isKernel isWriteable : Bool)
  | unmap (virtualAddress : ℕ)

namespace PagingOp

/-- The page the call is about. -/
def page : PagingOp → ℕ
  | map v _ _ _ => pageNumber v
  | unmap v => pageNumber v

/-- The frame the page has afterwards. -/
def frame : PagingOp → Option ℕ
  | map _ f _ _ => some f
  | unmap _ => none

/-- Frame addresses are 32-bit words and page aligned. -/
def Aligned : PagingOp → Prop
  | map _ f _ _ => f < 4294967296 ∧ f % 4096 = 0
  | unmap _ => True

/-- The call on the directory at `dir`; `none` is a panic. -/
def exec {σ : Type*} [Allocator σ] (dir : ℕ) (vm : Vm σ) : PagingOp → Option (Vm σ)
  | map v f k w => vm.pagingMapPage dir v f k w
  | unmap v => some (vm.pagingUnmapPage dir v).2

/-- Several calls, in order. -/
def run {σ : Type*} [Allocator σ] (dir : ℕ) (vm : Vm σ) (ops : List PagingOp) : Option (Vm σ) :=
  ops.foldlM (exec dir) vm

/-- The last call on a page. -/
def lastOn (ops : List PagingOp) (n : ℕ) : Option PagingOp := (ops.filter (·.page = n)).getLast?

theorem lastOn_append (ops : List PagingOp) (op : PagingOp) :
    lastOn (ops ++ [op]) = Function.update (lastOn ops) op.page (some op) := by
  ext1 n
  by_cases h : n = op.page
  · subst h
    simp [lastOn, List.filter_append]
  · have h' : ¬ op.page = n := fun hc => h hc.symm
    simp [lastOn, List.filter_append, h, h']

end PagingOp

/-- The map after the calls `ops`: for each page what the last call on it said. -/
def PageMap.after (ops : List PagingOp) : PageMap := fun n => (PagingOp.lastOn ops n).bind (·.frame)

theorem PageMap.after_append (ops : List PagingOp) (op : PagingOp) :
    after (ops ++ [op]) = Function.update (after ops) op.page op.frame := by
  ext1 n
  rw [after, PagingOp.lastOn_append]
  by_cases h : n = op.page
  · subst h
    rw [Function.update_self, Function.update_self, Option.bind_some]
  · rw [Function.update_of_ne h, Function.update_of_ne h, after]

variable {σ : Type*} [Allocator σ] {vm vm' : Vm σ} {d v : ℕ} {m : PageMap} {op : PagingOp}
  {ops : List PagingOp}

/-- The pages of the directory `d` are those of the map. -/
structure Refines (d : ℕ) (vm : Vm σ) (m : PageMap) : Prop where
  ok : TablesOk vm [d]
  enabled : vm.pagingEnabled = true
  page : ∀ v, (vm.page d v).map (·.frame) = m (pageNumber v)

namespace Refines

/-- An empty directory is the empty map. -/
theorem empty (he : vm.pagingEnabled = true) (h0 : vm.dirs d = .zero) :
    Refines d vm fun _ => none := by
  have hz : ∀ i, (vm.dirs d).tables i = 0 := fun i => by rw [h0]; rfl
  refine ⟨⟨?_, ?_, ?_⟩, he, fun v => ?_⟩
  · intro d' hd' i _ hne
    rw [List.mem_singleton.1 hd'] at hne
    exact absurd (hz i) hne
  · intro d' hd' _ _ i _ _ _ hne
    rw [List.mem_singleton.1 hd'] at hne
    exact absurd (hz i) hne
  · intro d' hd' i _ hne
    rw [List.mem_singleton.1 hd'] at hne
    exact absurd (hz i) hne
  · rw [page_of_tableOf (hz _)]
    rfl

/-- `paging_is_page_used` is membership in the map. -/
theorem used (h : Refines d vm m) : vm.pagingIsPageUsed d v = (m (pageNumber v)).isSome := by
  rw [isPageUsed_eq h.ok (List.mem_singleton_self d), ← h.page v, Option.isSome_map]

theorem frame_add_lt (e : PageTableEntry) (v : ℕ) : e.frame + pageOffset v < 4294967296 := by
  have h1 := e.pageBase.isLt
  have h2 : pageOffset v < 4096 := Nat.mod_lt _ (by decide)
  unfold PageTableEntry.frame
  omega

/-- The translation of an address is the frame of its page and its offset. -/
theorem translate (h : Refines d vm m) : vm.pagingVirtualToPhysicalAddress d v =
    match m (pageNumber v) with
    | none => 0
    | some f => f + pageOffset v := by
  rw [translate_eq h.enabled, ← h.page v]
  cases vm.page d v with
  | none => rfl
  | some e => exact u32_of_lt (frame_add_lt e v)

/-- **An operation changes the map at its page.** -/
theorem step (h : Refines d vm m) (ha : op.Aligned) (he : op.exec d vm = some vm') :
    Refines d vm' (Function.update m op.page op.frame) := by
  have hd := List.mem_singleton_self d
  cases op with
  | map v f k w =>
    have he' : vm.pagingMapPage d v f k w = some vm' := he
    rcases pagingMapPage_spec (v := v) h.ok hd f k w with h1 | ⟨vm₁, e, h1, hok, hl, -, hpg⟩
    · rw [h1] at he'
      cases he'
    rw [h1] at he'
    obtain rfl := Option.some.inj he'
    refine ⟨hok, hl.statics.enabled.trans h.enabled, fun u => ?_⟩
    rw [hpg d hd u]
    by_cases hu : pageNumber u = pageNumber v
    · rw [if_pos ⟨rfl, hu⟩, hu]
      show some _ = Function.update m (pageNumber v) (some f) (pageNumber v)
      rw [Function.update_self]
      exact congrArg some (e.map_frame k w ha.1 ha.2)
    · rw [if_neg (fun hc => hu hc.2), h.page u]
      exact (Function.update_of_ne hu ..).symm
  | unmap v =>
    obtain ⟨ts, h1, hok, hpg⟩ := pagingUnmapPage_spec h.ok hd v
    have hvm : (vm.pagingUnmapPage d v).2 = vm' := Option.some.inj he
    rw [hvm] at h1 hok hpg
    refine ⟨hok, by rw [h1]; exact h.enabled, fun u => ?_⟩
    rw [hpg d hd u]
    by_cases hu : pageNumber u = pageNumber v
    · rw [if_pos ⟨rfl, hu⟩, hu]
      show none = Function.update m (pageNumber v) none (pageNumber v)
      rw [Function.update_self]
    · rw [if_neg (fun hc => hu hc.2), h.page u]
      exact (Function.update_of_ne hu ..).symm

/-- **A run from an empty directory** leaves the map of the last calls. -/
theorem run (he : vm.pagingEnabled = true) (h0 : vm.dirs d = .zero) : ∀ {ops : List PagingOp}
    {vm' : Vm σ}, (∀ op ∈ ops, op.Aligned) → PagingOp.run d vm ops = some vm' →
    Refines d vm' (PageMap.after ops) := by
  intro ops
  induction ops using List.reverseRecOn with
  | nil =>
    intro vm' _ hr
    obtain rfl : vm = vm' := Option.some.inj hr
    exact empty he h0
  | append_singleton ops op ih =>
    intro vm' ha hr
    unfold PagingOp.run at hr
    rw [List.foldlM_append] at hr
    obtain ⟨vm₁, h1, h2⟩ := Option.bind_eq_some_iff.1 hr
    have h3 : op.exec d vm₁ = some vm' := by simpa using h2
    rw [PageMap.after_append]
    exact (ih (fun o ho => ha o (by simp [ho])) h1).step (ha op (by simp)) h3

end Refines

end Ttos
