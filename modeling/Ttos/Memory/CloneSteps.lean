/-
  The parts of `vmm_clone_address_space`.

  * `Kept`: what each of them keeps of the address spaces there are: their pages, and their
    page tables but for new ones of the current one.
  * `Copying.step`, `Copying.returns`: one page is copied; the copy ends, unless it panics.
  * `cloned_slots`: the hardware's entries of the new directory.
-/
import Ttos.Memory.TableEntries
import Ttos.Memory.VmmRollback
import Ttos.Memory.VmmSearch

namespace Ttos

open Vm AddressSpaces

variable {σ : Type*} [Allocator σ] {vm vm' vm₁ vm₂ : Vm σ} {spaces : List ℕ} {dst a t : ℕ}

/-! ## What is kept -/

/-- The address spaces are as before, but for new page tables of the current one, and for
    the directory `dst`, which is none of them. -/
structure Kept (spaces : List ℕ) (dst : ℕ) (vm vm' : Vm σ) : Prop where
  inv : SpacesInv ⟨vm', spaces⟩
  kernel : vm'.kernelPageDirectory = vm.kernelPageDirectory
  current : vm'.currentPageDirectory = vm.currentPageDirectory
  enabled : vm'.pagingEnabled = vm.pagingEnabled
  live : ∀ p, Allocator.Live vm.heap p → Allocator.Live vm'.heap p
  dirs : ∀ d, d ≠ vm.currentPageDirectory → d ≠ dst → vm'.dirs d = vm.dirs d
  slots : ∀ i, (vm'.dirs vm.currentPageDirectory).tables i ≠
      (vm.dirs vm.currentPageDirectory).tables i →
    (vm.dirs vm.currentPageDirectory).tables i = 0 ∧
      ¬ Allocator.Live vm.heap ((vm'.dirs vm.currentPageDirectory).tables i)
  entries : ∀ i, (vm.dirs vm.currentPageDirectory).tables i ≠ 0 →
    (vm'.dirs vm.currentPageDirectory).entries i = (vm.dirs vm.currentPageDirectory).entries i
  page : ∀ d ∈ spaces, ∀ u, vm'.page d u = vm.page d u
  vacant : AllEntries Vacant spaces vm → AllEntries Vacant spaces vm'

/-- No address space has the page table. -/
def NoTable (spaces : List ℕ) (vm : Vm σ) (t : ℕ) : Prop :=
  ∀ d ∈ spaces, ∀ i < 1024, (vm.dirs d).tables i ≠ t

namespace Kept

theorem refl (h : SpacesInv ⟨vm, spaces⟩) : Kept spaces dst vm vm :=
  ⟨h, rfl, rfl, rfl, fun _ h => h, fun _ _ _ => rfl, fun _ h => absurd rfl h, fun _ _ => rfl,
    fun _ _ _ => rfl, fun h => h⟩

theorem trans (h : Kept spaces dst vm vm₁) (h' : Kept spaces dst vm₁ vm₂) :
    Kept spaces dst vm vm₂ := by
  have hslots := h'.slots
  have hentries := h'.entries
  rw [h.current] at hslots hentries
  refine ⟨h'.inv, h'.kernel.trans h.kernel, h'.current.trans h.current, h'.enabled.trans h.enabled,
    fun p hp => h'.live p (h.live p hp), fun d hd hd' => ?_, fun i hne => ?_, fun i hne => ?_,
    fun d hd u => (h'.page d hd u).trans (h.page d hd u), fun hv => h'.vacant (h.vacant hv)⟩
  · rw [h'.dirs d (h.current ▸ hd) hd', h.dirs d hd hd']
  · by_cases h1 : (vm₁.dirs vm.currentPageDirectory).tables i =
        (vm.dirs vm.currentPageDirectory).tables i
    · obtain ⟨h2, h3⟩ := hslots i (h1 ▸ hne)
      exact ⟨h1 ▸ h2, fun hl => h3 (h.live _ hl)⟩
    · obtain ⟨h2, h3⟩ := h.slots i h1
      refine ⟨h2, ?_⟩
      by_cases h4 : (vm₂.dirs vm.currentPageDirectory).tables i =
          (vm₁.dirs vm.currentPageDirectory).tables i
      · rwa [h4]
      · exact fun hl => (hslots i h4).2 (h.live _ hl)
  · have h1 : (vm₁.dirs vm.currentPageDirectory).tables i =
        (vm.dirs vm.currentPageDirectory).tables i := by
      by_contra h1
      exact hne (h.slots i h1).1
    rw [hentries i (h1 ▸ hne), h.entries i hne]

/-- A live object that is no page table does not become one. -/
theorem noTable (h : Kept spaces dst vm vm') (hdst : dst ∉ spaces)
    (hl : Allocator.Live vm.heap t) (ht : NoTable spaces vm t) : NoTable spaces vm' t := by
  intro d hd i hi heq
  by_cases hc : d = vm.currentPageDirectory
  · subst hc
    by_cases h1 : (vm'.dirs vm.currentPageDirectory).tables i =
        (vm.dirs vm.currentPageDirectory).tables i
    · exact ht _ hd i hi (h1 ▸ heq)
    · exact (h.slots i h1).2 (heq ▸ hl)
  · rw [h.dirs d hc (ne_of_mem_of_not_mem hd hdst)] at heq
    exact ht d hd i hi heq

end Kept

namespace SpacesInv

/-- More objects in the heap. -/
theorem keptHeap (h : SpacesInv ⟨vm, spaces⟩) {hp : σ}
    (hl : ∀ p, Allocator.Live vm.heap p → Allocator.Live hp p) :
    Kept spaces dst vm { vm with heap := hp } :=
  ⟨⟨⟨fun d hd i hi hne => hl _ (h.ok.live d hd i hi hne), h.ok.slot, h.ok.agree⟩, h.enabled,
      h.nodup, fun d hd => hl d (h.live d hd), h.kernel, h.current, h.apart, h.own⟩,
    rfl, rfl, rfl, hl, fun _ _ _ => rfl, fun _ h => absurd rfl h, fun _ _ => rfl, fun _ _ _ => rfl,
    fun h => h⟩

theorem keptPmm (h : SpacesInv ⟨vm, spaces⟩) (pmm : Pmm) :
    Kept spaces dst vm { vm with pmm := pmm } :=
  ⟨⟨⟨h.ok.live, h.ok.slot, h.ok.agree⟩, h.enabled, h.nodup, h.live, h.kernel, h.current, h.apart,
      h.own⟩,
    rfl, rfl, rfl, fun _ h => h, fun _ _ _ => rfl, fun _ h => absurd rfl h, fun _ _ => rfl,
    fun _ _ _ => rfl, fun h => h⟩

theorem keptMem (h : SpacesInv ⟨vm, spaces⟩) (m : Mem) :
    Kept spaces dst vm { vm with mem := m } :=
  ⟨⟨⟨h.ok.live, h.ok.slot, h.ok.agree⟩, h.enabled, h.nodup, h.live, h.kernel, h.current, h.apart,
      h.own⟩,
    rfl, rfl, rfl, fun _ h => h, fun _ _ _ => rfl, fun _ h => absurd rfl h, fun _ _ => rfl,
    fun _ _ _ => rfl, fun h => h⟩

/-- The directory `dst`. -/
theorem keptDir (h : SpacesInv ⟨vm, spaces⟩) (hdst : dst ∉ spaces) (d : PageDirectory) :
    Kept spaces dst vm (vm.setDir dst d) := by
  have hdirs : ∀ d' ∈ spaces, (vm.setDir dst d).dirs d' = vm.dirs d' := fun d' hd' =>
    Function.update_of_ne (ne_of_mem_of_not_mem hd' hdst) _ _
  have hpage : ∀ d' ∈ spaces, ∀ u, (vm.setDir dst d).page d' u = vm.page d' u := by
    intro d' hd' u
    rw [page, page, entryAt, entryAt, hdirs d' hd']
    rfl
  refine ⟨⟨⟨?_, ?_, ?_⟩, h.enabled, h.nodup, h.live, h.kernel, h.current, ?_, ?_⟩, rfl, rfl, rfl,
    fun _ h => h, fun d' _ hd' => Function.update_of_ne hd' _ _, ?_, ?_, hpage,
    fun hv => hv.of_old fun d' hd' => ⟨d', hd', fun i _ _ => ⟨by rw [hdirs d' hd'], rfl⟩⟩⟩
  · intro d' hd' i hi hne
    rw [hdirs d' hd'] at hne ⊢
    exact h.ok.live d' hd' i hi hne
  · intro d₁ hd₁ d₂ hd₂ i hi j hj hne heq
    rw [hdirs d₁ hd₁] at hne heq
    rw [hdirs d₂ hd₂] at heq
    exact h.ok.slot d₁ hd₁ d₂ hd₂ i hi j hj hne heq
  · intro d' hd' i hi hne
    rw [hdirs d' hd'] at hne ⊢
    exact h.ok.agree d' hd' i hi hne
  · intro d' hd' i hi hne
    have hne : ((vm.setDir dst d).dirs d').tables i ≠ 0 := hne
    show ((vm.setDir dst d).dirs d').tables i ∉ spaces
    rw [hdirs d' hd'] at hne ⊢
    exact h.apart d' hd' i hi hne
  · intro d₁ hd₁ d₂ hd₂ i hi hne heq
    have hne : ((vm.setDir dst d).dirs d₁).tables i ≠ 0 := hne
    have heq : ((vm.setDir dst d).dirs d₁).tables i = ((vm.setDir dst d).dirs d₂).tables i := heq
    show d₁ = d₂ ∨ ((vm.setDir dst d).dirs d₁).tables i =
      ((vm.setDir dst d).dirs vm.kernelPageDirectory).tables i
    rw [hdirs d₁ hd₁] at hne heq ⊢
    rw [hdirs d₂ hd₂] at heq
    rw [hdirs _ h.kernel]
    exact h.own d₁ hd₁ d₂ hd₂ i hi hne heq
  · intro i hne
    exact absurd (congrArg (fun d => d.tables i) (hdirs _ h.current)) hne
  · intro i _
    rw [hdirs _ h.current]

/-- An entry of a page table that no address space has. -/
theorem keptEntry (h : SpacesInv ⟨vm, spaces⟩) (ht : NoTable spaces vm t) (i : ℕ)
    (e : PageTableEntry) : Kept spaces dst vm (vm.setEntry t i e) := by
  have htab : ∀ d ∈ spaces, ∀ j < 1024,
      (vm.setEntry t i e).tables ((vm.dirs d).tables j) = vm.tables ((vm.dirs d).tables j) :=
    fun d hd j hj => if_neg (ht d hd j hj)
  refine ⟨⟨⟨h.ok.live, h.ok.slot, fun d hd j hj hne => ?_⟩, h.enabled, h.nodup, h.live, h.kernel,
      h.current, h.apart, h.own⟩, rfl, rfl, rfl, fun _ h => h, fun _ _ _ => rfl,
    fun _ h => absurd rfl h, fun _ _ => rfl, fun d hd u => ?_,
    fun hv => hv.of_old fun d hd => ⟨d, hd, fun j hj _ => ⟨rfl, htab d hd j hj⟩⟩⟩
  · show ∀ k < 1024, (((vm.setEntry t i e).tables ((vm.dirs d).tables j)).entries k).used =
      (((vm.setEntry t i e).tables ((vm.dirs d).tables j)).entries k).present
    rw [htab d hd j hj]
    exact h.ok.agree d hd j hj hne
  · rw [page, page, entryAt, entryAt]
    show (if (vm.dirs d).tables (pageDirectoryIndex u) = 0 then none else
      some (((vm.setEntry t i e).tables ((vm.dirs d).tables (pageDirectoryIndex u))).entries
        (pageTableIndex u))).filter _ = _
    rw [htab d hd _ (pageDirectoryIndex_lt u)]

end SpacesInv

/-! ## One page -/

/-- Mapping a page changes one directory, in slots without a page table. -/
theorem pagingMapPage_dirs {d v f : ℕ} {k w : Bool} (h : vm.pagingMapPage d v f k w = some vm') :
    (∀ d', d' ≠ d → vm'.dirs d' = vm.dirs d') ∧
      ∀ i, (vm.dirs d).tables i ≠ 0 → (vm'.dirs d).entries i = (vm.dirs d).entries i := by
  unfold pagingMapPage at h
  obtain ⟨⟨t, vm₁⟩, ht, rfl⟩ := Option.map_eq_some_iff.1 h
  show (∀ d', d' ≠ d → vm₁.dirs d' = vm.dirs d') ∧
    ∀ i, (vm.dirs d).tables i ≠ 0 → (vm₁.dirs d).entries i = (vm.dirs d).entries i
  unfold pagingTableFor at ht
  by_cases h0 : (vm.dirs d).tables (pageDirectoryIndex v) = 0
  · rw [if_pos h0] at ht
    have ht : (if vm.newTable.1 = 0 then none else some (vm.newTable.1,
        vm.newTable.2.linkTable d (pageDirectoryIndex v) vm.newTable.1
          (vm.newTable.2.pagingVirtualToPhysicalAddress d vm.newTable.1))) = some (t, vm₁) := ht
    split at ht
    · cases ht
    · cases ht
      refine ⟨fun d' hd' => Function.update_of_ne hd' _ _, fun i hne => ?_⟩
      have hi : i ≠ pageDirectoryIndex v := fun h => hne (h ▸ h0)
      show (Function.update vm.dirs d _ d).entries i = _
      rw [Function.update_self]
      exact Function.update_of_ne hi _ _
  · rw [if_neg h0] at ht
    cases ht
    exact ⟨fun _ _ => rfl, fun _ _ => rfl⟩

theorem vmmMapPage_dirs {v p r : ℕ} {k w : Bool} (h : vm.vmmMapPage v p k w = .ok (r, vm')) :
    (∀ d, d ≠ vm.currentPageDirectory → vm'.dirs d = vm.dirs d) ∧
      ∀ i, (vm.dirs vm.currentPageDirectory).tables i ≠ 0 →
        (vm'.dirs vm.currentPageDirectory).entries i = (vm.dirs vm.currentPageDirectory).entries i := by
  rcases vmmMapPage_paging h with rfl | ⟨pmm, b, f, hm⟩
  · exact ⟨fun _ _ => rfl, fun _ _ => rfl⟩
  · have hd := pagingMapPage_dirs hm
    exact hd

omit [Allocator σ] in
theorem vmmUnmapPage_mem (vm : Vm σ) (m : Mem) (v : ℕ) :
    ({ vm with mem := m } : Vm σ).vmmUnmapPage v = { vm.vmmUnmapPage v with mem := m } := by
  have he : ({ vm with mem := m } : Vm σ).entryAt vm.currentPageDirectory v =
    vm.entryAt vm.currentPageDirectory v := rfl
  unfold vmmUnmapPage pagingUnmapPage
  dsimp only
  rw [he]
  cases vm.entryAt vm.currentPageDirectory v with
  | none => rfl
  | some e => cases hu : e.used <;> simp [hu, setEntry]

/-- **A page that is mapped anywhere and unmapped again.** -/
theorem SpacesInv.keptTemporary (h : SpacesInv ⟨vm, spaces⟩) {f : ℕ}
    (hm : vm.vmmMapPage 0 f false true = .ok (a, vm₁)) :
    Kept spaces dst vm (vm₁.vmmUnmapPage a) := by
  have hi₁ := h.vmmMapPage hm
  have hi₂ := hi₁.vmmUnmapPage a
  obtain ⟨hdirs, hentries⟩ := vmmMapPage_dirs hm
  rcases vmmMapPage_cases h.ok h.current hm with ⟨-, -, hne, -⟩ | ⟨ha, hplace, -, hp⟩
  · exact absurd rfl hne
  obtain ⟨hmod, hle, hlt, hfree⟩ := vmmPlace_found (by decide) hplace
  have hside : ¬ 3221225472 ≤ a := fun hc => Bool.noConfusion (hp.side.2 hc)
  have hal : a = 4096 * (a / 4096) := by omega
  have hnone : vm.page vm.currentPageDirectory (4096 * (a / 4096)) = none := by
    have hj := hfree 0 (by decide)
    rwa [Nat.mul_zero, Nat.add_zero, u32_of_lt hlt, isPageUsed_false h.ok h.current, hal] at hj
  have hcur : vm₁.currentPageDirectory = vm.currentPageDirectory := hp.linked.statics.current
  have hpn : pageNumber a = a / 4096 := by rw [pageNumber, u32_of_lt hlt]
  have hr : RangeMapped spaces (a / 4096) 1 vm vm₁ :=
    RangeMapped.cons h.current hnone (hal ▸ hp) (RangeMapped.nil hp.ok _) (by omega)
  have hun := vmmUnmapPage_spec hi₁.ok hi₁.current a
  rw [hpn] at hun
  have hpages := hr.undone h.ok hun
  obtain ⟨ts, hts⟩ := hun.tables
  rw [hts] at hi₂ hpages ⊢
  have hst := hp.linked.statics
  refine ⟨hi₂, hst.kernel, hst.current, hst.enabled, hp.linked.live, fun d hd _ => hdirs d hd,
    fun i hne => ?_, hentries, hpages, fun hv => ?_⟩
  rotate_left
  · have hv₂ := (hv.vmmMapPage vacant_rule h.ok hm).vmmUnmapPage vacant_rule a
    rwa [hts] at hv₂
  obtain ⟨-, -, h1, h2⟩ := hp.linked.tables _ i hne
  exact ⟨h1, h2⟩

/-- Mapping a page of user space anywhere ends, unless it panics. -/
theorem vmmMapPage_returns {f : ℕ} {e : Stop} (he : ∀ c, e ≠ .panic c) :
    vm.vmmMapPage 0 f false true ≠ .error e := by
  intro h
  obtain ⟨b, hb⟩ : ∃ b, vm.vmmFindFreeMemory 4096 false = .ok b :=
    vmmFindFreeMemory_returns (by decide) (by decide)
  unfold vmmMapPage vmmPlace at h
  rw [if_neg (fun hc => hc.1 rfl), if_neg (fun hc => hc rfl), hb] at h
  by_cases h0 : b = 0
  · simp only [h0, if_true] at h
    exact he _ (Except.error.inj h).symm
  · simp only [h0, if_false] at h
    split at h
    · exact he _ (Except.error.inj h).symm
    split at h
    · exact he _ (Except.error.inj h).symm
    split at h
    · exact he _ (Except.error.inj h).symm
    split at h
    · exact he _ (Except.error.inj h).symm
    · cases h

/-! ## Copying a page table -/

/-- What holds while the pages of the table `s`, in the slot `i` of the current directory, are
    copied to the new table `t`, in the same slot of `dst`. -/
structure Copying (spaces : List ℕ) (dst i s t : ℕ) (vm : Vm σ) : Prop where
  inv : SpacesInv ⟨vm, spaces⟩
  vacant : AllEntries Vacant spaces vm
  source : (vm.dirs vm.currentPageDirectory).tables i = s
  slot : (vm.dirs dst).tables i = t
  live : Allocator.Live vm.heap t
  noTable : NoTable spaces vm t

omit [Allocator σ] in
theorem slot_index {i j : ℕ} (hi : i < 1024) (hj : j < 1024) :
    pageDirectoryIndex (i * 4194304 + j * 4096) = i ∧
      pageTableIndex (i * 4194304 + j * 4096) = j := by
  rw [pageDirectoryIndex, pageTableIndex, u32_of_lt (by omega)]
  omega

namespace Copying

variable {i j s : ℕ}

theorem of_kept (h : Copying spaces dst i s t vm) (hs : s ≠ 0) (hdst : dst ∉ spaces)
    (hk : Kept spaces dst vm vm') (hd : vm'.dirs dst = vm.dirs dst) :
    Copying spaces dst i s t vm' := by
  refine ⟨hk.inv, hk.vacant h.vacant, ?_, hd ▸ h.slot, hk.live t h.live,
    hk.noTable hdst h.live h.noTable⟩
  rw [hk.current]
  by_contra hne
  rw [← h.source] at hne hs
  exact hs (hk.slots i hne).1

/-- The frame is entered into the new table. -/
theorem enterFrame {f : ℕ} {pmm : Pmm} (h : Copying spaces dst i s t vm) (hi : i < 1024)
    (hj : j < 1024) (hm : ({ vm with pmm := pmm } : Vm σ).pagingMapPage dst
      (i * 4194304 + j * 4096) f false true = some vm₁) :
    Kept spaces dst vm vm₁ ∧ vm₁.dirs = vm.dirs := by
  have ht0 : t ≠ 0 := Allocator.ne_null h.live
  have hk₀ : Kept spaces dst vm { vm with pmm := pmm } := h.inv.keptPmm _
  unfold pagingMapPage pagingTableFor at hm
  dsimp only at hm
  rw [(slot_index hi hj).1, h.slot, if_neg ht0] at hm
  obtain rfl := Option.some.inj hm
  exact ⟨hk₀.trans (hk₀.inv.keptEntry h.noTable _ _), rfl⟩

/-- **One page is copied.** -/
theorem step (h : Copying spaces dst i s t vm) (hdst : dst ∉ spaces) (hi : i < 1024)
    (hj : j < 1024) (hc : vmmClonePage dst i s t vm j = .ok vm') :
    Kept spaces dst vm vm' ∧ vm'.dirs dst = vm.dirs dst := by
  unfold vmmClonePage at hc
  dsimp only at hc
  split at hc
  · cases hc
    exact ⟨.refl h.inv, rfl⟩
  split at hc
  · cases hc
  cases h1 : ({ vm with pmm := vm.pmm.allocFrame.2 } : Vm σ).pagingMapPage dst
      (i * 4194304 + j * 4096) vm.pmm.allocFrame.1 false true with
  | none => rw [h1] at hc; cases hc
  | some vm₁ =>
    rw [h1] at hc
    dsimp only at hc
    obtain ⟨hk₁, hd₁⟩ := h.enterFrame hi hj h1
    cases h2 : vm₁.vmmMapPage 0 vm.pmm.allocFrame.1 false true with
    | error e => rw [h2] at hc; cases hc
    | ok r =>
      obtain ⟨a, vm₂⟩ := r
      rw [h2] at hc
      dsimp only at hc
      split at hc
      · cases hc
      split at hc
      · cases hc
      -- the temporary page goes again
      rw [vmmUnmapPage_mem] at hc
      have hk₂ : Kept spaces dst vm (vm₂.vmmUnmapPage a) := hk₁.trans (hk₁.inv.keptTemporary h2)
      generalize vm₂.mem.copy _ _ _ = m at hc
      have hk₃ := hk₂.trans (hk₂.inv.keptMem m)
      have hdirs : (vm₂.vmmUnmapPage a).dirs dst = vm.dirs dst := by
        obtain ⟨ts, hts, -⟩ := pagingUnmapPage_spec (hk₁.inv.vmmMapPage h2).ok
          (hk₁.inv.vmmMapPage h2).current a
        have hne : dst ≠ vm₁.currentPageDirectory := fun h0 => hdst (h0 ▸ hk₁.inv.current)
        rw [vmmUnmapPage, hts]
        exact ((vmmMapPage_dirs h2).1 dst hne).trans (congrFun hd₁ dst)
      generalize vm₂.vmmUnmapPage a = vm₃ at hc hk₂ hk₃ hdirs
      have hno : NoTable spaces ({ vm₃ with mem := m } : Vm σ) t :=
        hk₂.noTable hdst h.live h.noTable
      cases hc
      exact ⟨hk₃.trans (hk₃.inv.keptEntry hno j _), hdirs⟩

/-- **The copy ends**, unless it panics: the page is there to be read. -/
theorem returns {e : Stop} (h : Copying spaces dst i s t vm) (hs : s ≠ 0) (hi : i < 1024)
    (hj : j < 1024) (he : ∀ c, e ≠ .panic c) : vmmClonePage dst i s t vm j ≠ .error e := by
  obtain ⟨hdi, hti⟩ := slot_index hi hj
  intro hc
  unfold vmmClonePage at hc
  dsimp only at hc
  split at hc
  · cases hc
  rename_i hbase
  split at hc
  · exact he _ (Except.error.inj hc).symm
  cases h1 : ({ vm with pmm := vm.pmm.allocFrame.2 } : Vm σ).pagingMapPage dst
      (i * 4194304 + j * 4096) vm.pmm.allocFrame.1 false true with
  | none =>
    rw [h1] at hc
    exact he _ (Except.error.inj hc).symm
  | some vm₁ =>
    rw [h1] at hc
    dsimp only at hc
    obtain ⟨hk₁, -⟩ := h.enterFrame hi hj h1
    cases h2 : vm₁.vmmMapPage 0 vm.pmm.allocFrame.1 false true with
    | error e' =>
      rw [h2] at hc
      obtain rfl : e' = e := Except.error.inj hc
      exact vmmMapPage_returns he h2
    | ok r =>
      obtain ⟨a, vm₂⟩ := r
      rw [h2] at hc
      dsimp only at hc
      -- an entry with a frame is used, hence present
      have hentry : vm.entryAt vm.currentPageDirectory (i * 4194304 + j * 4096) =
          some ((vm.tables s).entries j) := by
        rw [entryAt, hdi, hti, h.source, if_neg hs]
      have hpage : vm.page vm.currentPageDirectory (i * 4194304 + j * 4096) ≠ none := by
        intro hn
        rw [← isPageUsed_false h.inv.ok h.inv.current, pagingIsPageUsed, hentry] at hn
        exact hbase (h.vacant.entryAt h.inv.current hentry hn)
      have hpage₁ : vm₁.page vm₁.currentPageDirectory (i * 4194304 + j * 4096) ≠ none := by
        rw [hk₁.current, hk₁.page _ h.inv.current]
        exact hpage
      have hpage₂ : vm₂.page vm₂.currentPageDirectory (i * 4194304 + j * 4096) ≠ none := by
        rcases vmmMapPage_cases hk₁.inv.ok hk₁.inv.current h2 with ⟨-, -, hne, -⟩ | ⟨-, -, -, hp⟩
        · exact absurd rfl hne
        · have hcur : vm₂.currentPageDirectory = vm₁.currentPageDirectory := hp.linked.statics.current
          rw [hcur]
          exact hp.keeps hk₁.inv.current hpage₁
      split at hc
      · rename_i hn
        exact hpage₂ (by rw [page, hn]; rfl)
      · rename_i e' hsome
        split at hc
        · rename_i hnp
          refine hpage₂ ?_
          rw [page, hsome, Option.filter_some]
          simpa using hnp
        · cases hc

/-- **A page table is copied.** -/
theorem table (h : Copying spaces dst i s t vm) (hs : s ≠ 0) (hdst : dst ∉ spaces) (hi : i < 1024) :
    (∀ vm', (List.range 1024).foldlM (vmmClonePage dst i s t) vm = .ok vm' →
      Kept spaces dst vm vm' ∧ vm'.dirs dst = vm.dirs dst) ∧
    ∀ e, (∀ c, e ≠ .panic c) → (List.range 1024).foldlM (vmmClonePage dst i s t) vm ≠ .error e := by
  have hstep : ∀ (done : List ℕ) j (x x' : Vm σ), j ∈ List.range 1024 →
      Kept spaces dst vm x ∧ x.dirs dst = vm.dirs dst → vmmClonePage dst i s t x j = .ok x' →
        Kept spaces dst vm x' ∧ x'.dirs dst = vm.dirs dst := by
    rintro - j x x' hj ⟨hk, hd⟩ hc
    obtain ⟨hk', hd'⟩ := (h.of_kept hs hdst hk hd).step hdst hi (List.mem_range.1 hj) hc
    exact ⟨hk.trans hk', hd'.trans hd⟩
  constructor
  · intro vm' hc
    exact foldlM_ok (P := fun _ x => Kept spaces dst vm x ∧ x.dirs dst = vm.dirs dst) hstep
      ⟨.refl h.inv, rfl⟩ hc
  · intro e he
    refine foldlM_ne_error (P := fun _ x => Kept spaces dst vm x ∧ x.dirs dst = vm.dirs dst) hstep
      ?_ ⟨.refl h.inv, rfl⟩
    rintro - j x hj ⟨hk, hd⟩
    exact (h.of_kept hs hdst hk hd).returns hs hi (List.mem_range.1 hj) he

end Copying

/-! ## The slots -/

/-- The slot of the directory `src` holds a page table of the kernel's directory. -/
def SharedSlot (vm : Vm σ) (src i : ℕ) : Prop :=
  (vm.dirs src).tables i ≠ 0 ∧
    (vm.dirs src).tables i = (vm.dirs vm.kernelPageDirectory).tables i

/-- The slots `done` of the current directory of `vm` have been cloned: those with a page table
    of the kernel are linked, and no other entry for the hardware was written. -/
structure Slots (spaces : List ℕ) (dst : ℕ) (vm : Vm σ) (done : List ℕ) (vm' : Vm σ) : Prop where
  kept : Kept spaces dst vm vm'
  kernel : vm'.dirs vm.kernelPageDirectory = vm.dirs vm.kernelPageDirectory
  linked : ∀ j ∈ done, SharedSlot vm vm.currentPageDirectory j →
    (vm'.dirs dst).entries j = (vm.dirs vm.currentPageDirectory).entries j ∧
      (vm'.dirs dst).tables j = (vm.dirs vm.currentPageDirectory).tables j
  others : ∀ j, ¬ (j ∈ done ∧ SharedSlot vm vm.currentPageDirectory j) →
    (vm'.dirs dst).entries j = (vm.dirs dst).entries j

namespace Slots

variable {i : ℕ} {done : List ℕ}

/-- A slot that is shared stays so, and no other becomes shared. -/
theorem shared_iff (h : Slots spaces dst vm done vm') (hi : i < 1024)
    (hinv : SpacesInv ⟨vm, spaces⟩) :
    SharedSlot vm' vm.currentPageDirectory i ↔ SharedSlot vm vm.currentPageDirectory i := by
  rw [SharedSlot, SharedSlot, h.kept.kernel, h.kernel]
  by_cases heq : (vm'.dirs vm.currentPageDirectory).tables i =
      (vm.dirs vm.currentPageDirectory).tables i
  · rw [heq]
  · obtain ⟨h0, hnl⟩ := h.kept.slots i heq
    constructor
    · rintro ⟨hne, hsame⟩
      rw [hsame] at hne hnl
      exact absurd (hinv.ok.live _ hinv.kernel i hi hne) hnl
    · rintro ⟨hne, -⟩
      exact absurd h0 hne

/-- A shared slot is as it was. -/
theorem shared_slot (h : Slots spaces dst vm done vm')
    (hs : SharedSlot vm vm.currentPageDirectory i) :
    (vm'.dirs vm.currentPageDirectory).entries i = (vm.dirs vm.currentPageDirectory).entries i ∧
      (vm'.dirs vm.currentPageDirectory).tables i = (vm.dirs vm.currentPageDirectory).tables i := by
  refine ⟨h.kept.entries i hs.1, ?_⟩
  by_contra hne
  exact hs.1 (h.kept.slots i hne).1

theorem refl (hinv : SpacesInv ⟨vm, spaces⟩) : Slots spaces dst vm [] vm :=
  ⟨.refl hinv, rfl, fun _ hj => absurd hj List.not_mem_nil, fun _ _ => rfl⟩

/-- The next slot is not shared, and its entry for the hardware is left alone. -/
theorem snoc (h : Slots spaces dst vm done vm₁) (hk : Kept spaces dst vm₁ vm₂)
    (hkern : vm₂.dirs vm.kernelPageDirectory = vm₁.dirs vm.kernelPageDirectory)
    (hi : ¬ SharedSlot vm vm.currentPageDirectory i)
    (he : (vm₂.dirs dst).entries = (vm₁.dirs dst).entries)
    (ht : ∀ j, j ≠ i → (vm₂.dirs dst).tables j = (vm₁.dirs dst).tables j) :
    Slots spaces dst vm (done ++ [i]) vm₂ := by
  refine ⟨h.kept.trans hk, hkern.trans h.kernel, fun j hj hs => ?_, fun j hj => ?_⟩
  · have hne : j ≠ i := fun heq => hi (heq ▸ hs)
    have hdone : j ∈ done := by
      rcases List.mem_append.1 hj with hj | hj
      · exact hj
      · exact absurd (List.mem_singleton.1 hj) hne
    rw [he, ht j hne]
    exact h.linked j hdone hs
  · rw [he]
    exact h.others j fun hc => hj ⟨List.mem_append_left _ hc.1, hc.2⟩

/-- The next slot is shared, and it is linked. -/
theorem snoc_shared (h : Slots spaces dst vm done vm₁) (hdst : dst ∉ spaces)
    (hinv : SpacesInv ⟨vm, spaces⟩) (hs : SharedSlot vm vm.currentPageDirectory i) :
    Slots spaces dst vm (done ++ [i]) (vm₁.setDir dst
      ⟨Function.update (vm₁.dirs dst).entries i ((vm₁.dirs vm.currentPageDirectory).entries i),
        Function.update (vm₁.dirs dst).tables i ((vm₁.dirs vm.currentPageDirectory).tables i)⟩) := by
  obtain ⟨he, ht⟩ := h.shared_slot hs
  rw [he, ht]
  refine ⟨h.kept.trans (h.kept.inv.keptDir hdst _), ?_, fun j hj hsj => ?_, fun j hj => ?_⟩
  · have hne : vm.kernelPageDirectory ≠ dst := fun heq => hdst (heq ▸ hinv.kernel)
    exact (Function.update_of_ne hne _ _).trans h.kernel
  · rw [setDir]
    simp only [Function.update_self]
    by_cases heq : j = i
    · subst heq
      simp
    · rw [Function.update_of_ne heq, Function.update_of_ne heq]
      rcases List.mem_append.1 hj with hj | hj
      · exact h.linked j hj hsj
      · exact absurd (List.mem_singleton.1 hj) heq
  · have heq : j ≠ i := by
      rintro rfl
      exact hj ⟨List.mem_append_right _ (List.mem_singleton_self j), hs⟩
    rw [setDir]
    simp only [Function.update_self]
    rw [Function.update_of_ne heq]
    exact h.others j fun hc => hj ⟨List.mem_append_left _ hc.1, hc.2⟩

/-- A new page table for the slot. -/
theorem newTable {a : ℕ} {hp : σ} (h : Slots spaces dst vm done vm₁) (hdst : dst ∉ spaces)
    (hinv : SpacesInv ⟨vm, spaces⟩) (hv : AllEntries Vacant spaces vm)
    (ha : Allocator.alloc vm₁.heap 4096 true = (a, hp)) (h0 : a ≠ 0) :
    Copying spaces dst i ((vm₁.dirs vm.currentPageDirectory).tables i) a
      (({ vm₁ with heap := hp } : Vm σ).setDir dst
        ⟨(vm₁.dirs dst).entries, Function.update (vm₁.dirs dst).tables i a⟩) ∧
    Kept spaces dst vm₁ (({ vm₁ with heap := hp } : Vm σ).setDir dst
      ⟨(vm₁.dirs dst).entries, Function.update (vm₁.dirs dst).tables i a⟩) := by
  have hreq : Request 4096 := by decide
  have hfresh := Allocator.alloc_fresh vm₁.heap 4096 true hreq
  have hnew : Allocator.Live hp a := by
    have hl : Allocator.Live (Allocator.alloc vm₁.heap 4096 true).2 _ :=
      Allocator.alloc_new hreq (by rw [ha]; exact h0)
    rwa [ha] at hl
  have hkeeps : ∀ p, Allocator.Live vm₁.heap p → Allocator.Live hp p := by
    intro p hl
    have hl : Allocator.Live (Allocator.alloc vm₁.heap 4096 true).2 p := Allocator.alloc_keeps hreq hl
    rwa [ha] at hl
  rw [ha] at hfresh
  have hk₀ : Kept spaces dst vm₁ { vm₁ with heap := hp } := h.kept.inv.keptHeap hkeeps
  have hk := hk₀.trans (hk₀.inv.keptDir hdst
    ⟨(vm₁.dirs dst).entries, Function.update (vm₁.dirs dst).tables i a⟩)
  refine ⟨⟨hk.inv, hk.vacant (h.kept.vacant hv), ?_, ?_, hnew, ?_⟩, hk⟩
  · have hne : vm.currentPageDirectory ≠ dst := fun heq => hdst (heq ▸ hinv.current)
    show (Function.update vm₁.dirs dst _ vm₁.currentPageDirectory).tables i = _
    rw [h.kept.current, Function.update_of_ne hne]
  · show (Function.update vm₁.dirs dst _ dst).tables i = a
    rw [Function.update_self]
    exact Function.update_self ..
  · intro d hd j hj heq
    have heq : (Function.update vm₁.dirs dst _ d).tables j = a := heq
    rw [Function.update_of_ne (ne_of_mem_of_not_mem hd hdst)] at heq
    exact hfresh (heq ▸ h.kept.inv.ok.live d hd j hj (heq ▸ h0))

/-- **One slot**, which fails only by a panic. -/
theorem step (h : Slots spaces dst vm done vm₁) (hdst : dst ∉ spaces)
    (hinv : SpacesInv ⟨vm, spaces⟩) (hv : AllEntries Vacant spaces vm) (hi : i < 1024) :
    (∀ vm₂, vmmCloneSlot vm.currentPageDirectory dst vm₁ i = .ok vm₂ →
      Slots spaces dst vm (done ++ [i]) vm₂) ∧
    ∀ e, (∀ c, e ≠ .panic c) → vmmCloneSlot vm.currentPageDirectory dst vm₁ i ≠ .error e := by
  have hshared := h.shared_iff hi hinv
  unfold vmmCloneSlot
  dsimp only
  by_cases ht : (vm₁.dirs vm.currentPageDirectory).tables i = 0
  · rw [if_pos ht]
    refine ⟨fun vm₂ hc => ?_, fun e _ hc => by cases hc⟩
    cases hc
    exact h.snoc (.refl h.kept.inv) rfl (fun hs => (hshared.2 hs).1 ht) rfl fun _ _ => rfl
  rw [if_neg ht]
  by_cases hk : (vm₁.dirs vm.currentPageDirectory).tables i =
      (vm₁.dirs vm₁.kernelPageDirectory).tables i
  · rw [if_pos hk]
    refine ⟨fun vm₂ hc => ?_, fun e _ hc => by cases hc⟩
    cases hc
    exact h.snoc_shared hdst hinv (hshared.1 ⟨ht, hk⟩)
  rw [if_neg hk]
  generalize ha : Allocator.alloc vm₁.heap 4096 true = res
  obtain ⟨a, hp⟩ := res
  dsimp only
  by_cases h0 : a = 0
  · rw [if_pos h0]
    exact ⟨fun vm₂ hc => (by cases hc), fun e he hc => he _ (Except.error.inj hc).symm⟩
  rw [if_neg h0]
  obtain ⟨hcopy, hk₁⟩ := h.newTable (i := i) hdst hinv hv ha h0
  obtain ⟨hok, herr⟩ := hcopy.table ht hdst hi
  refine ⟨fun vm₂ hc => ?_, herr⟩
  obtain ⟨hk₂, hd₂⟩ := hok vm₂ hc
  have hkc : vm.kernelPageDirectory ≠ vm.currentPageDirectory := by
    intro heq
    rw [h.kept.kernel, heq] at hk
    exact hk rfl
  have hkd : vm.kernelPageDirectory ≠ dst := fun heq => hdst (heq ▸ hinv.kernel)
  refine h.snoc (hk₁.trans hk₂) ?_ (fun hs => hk (hshared.2 hs).2) ?_ fun j hj => ?_
  · exact (hk₁.trans hk₂).dirs _ (by rw [h.kept.current]; exact hkc) hkd
  · rw [hd₂]
    show (Function.update vm₁.dirs dst _ dst).entries = _
    rw [Function.update_self]
  · rw [hd₂]
    show (Function.update vm₁.dirs dst _ dst).tables j = _
    rw [Function.update_self]
    exact Function.update_of_ne hj ..

end Slots

/-- **The new directory**: what is shared with the kernel is linked, and no other entry for the
    hardware is written; the call fails only by a panic. -/
theorem cloned_slots (hdst : dst ∉ spaces) (hinv : SpacesInv ⟨vm, spaces⟩)
    (hv : AllEntries Vacant spaces vm) :
    (∀ vm', (List.range 1024).foldlM (vmmCloneSlot vm.currentPageDirectory dst) vm = .ok vm' →
      Slots spaces dst vm (List.range 1024) vm') ∧
    ∀ e, (∀ c, e ≠ .panic c) →
      (List.range 1024).foldlM (vmmCloneSlot vm.currentPageDirectory dst) vm ≠ .error e := by
  constructor
  · intro vm' hc
    refine foldlM_ok (P := Slots spaces dst vm) ?_ (.refl hinv) hc
    intro done i x x' hi hx hs
    exact (hx.step hdst hinv hv (List.mem_range.1 hi)).1 x' hs
  · intro e he
    refine foldlM_ne_error (P := Slots spaces dst vm) ?_ ?_ (.refl hinv)
    · intro done i x x' hi hx hs
      exact (hx.step hdst hinv hv (List.mem_range.1 hi)).1 x' hs
    · intro done i x hi hx
      exact (hx.step hdst hinv hv (List.mem_range.1 hi)).2 e he

end Ttos
