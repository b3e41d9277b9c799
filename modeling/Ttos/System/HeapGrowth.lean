/-
  Growing the heap of a process (`syscall_alloc_heap` of syscall.c).

  * `HeapGrowth`: the heap grew by exactly the pages asked for, or nothing changed.
  * `heap_growth_exact`: it does so, over all runs, exactly for the requests of `HeapFits`:
    the number of bytes is counted in 32 bits.
-/
import Ttos.Memory.UserMapping
import Ttos.System.Process

namespace Ttos

open Vm AddressSpaces

variable {σ : Type*} [Allocator σ]

/-- `syscall_alloc_heap` of the process `p` with `nPages` in `ebx`: the value returned, and
    what it leaves. -/
def Vm.syscallAllocHeap (vm : Vm σ) (p : Process) (nPages : ℕ) :
    Except Stop (ℕ × Vm σ × Process) :=
  if nPages = 0 then .ok (p.heapLimit, vm, p)
  else if p.heapBase = 0 then
    match vm.vmmMapMemory 0 (u32 (nPages * 4096)) 0 false true with
    | .error e => .error e
    | .ok (heapStart, vm) =>
      if heapStart = 0 then .ok (0, vm, p)
      else
        let limit := sub32 (u32 (heapStart + u32 (nPages * 4096))) 1
        .ok (limit, vm, { p with heapBase := heapStart, heapLimit := limit })
  else
    match vm.vmmMapMemory (u32 (p.heapLimit + 1)) (u32 (nPages * 4096)) 0 false true with
    | .error e => .error e
    | .ok (blockBegin, vm) =>
      if blockBegin = 0 then .ok (0, vm, p)
      else
        let limit := sub32 (u32 (blockBegin + u32 (nPages * 4096))) 1
        .ok (limit, vm, { p with heapLimit := limit })

/-! ## Runs -/

/-- A process with the address spaces. -/
structure ProcessHeap (σ : Type*) where
  spaces : AddressSpaces σ
  process : Process

/-- The system call, or any other call of the virtual memory manager. -/
inductive ProcessOp where
  | alloc (nPages : ℕ)
  | vmm (op : VmmOp)

namespace ProcessHeap

/-- The rest of the kernel lets the process and the pages of its heap live. -/
structure KeepsHeap (s s' : ProcessHeap σ) : Prop where
  process : s'.process = s.process
  space : s.process.addressSpace ∈ s'.spaces.spaces
  pages : s.process.heapBase ≠ 0 → ∀ a, s.process.heapBase ≤ a → a ≤ s.process.heapLimit →
    s'.spaces.vm.page s.process.addressSpace a = s.spaces.vm.page s.process.addressSpace a

/-- A step: the process makes the system call in its own address space. -/
def Step (s : ProcessHeap σ) : ProcessOp → ProcessHeap σ → Prop
  | .alloc n, s' => n < 4294967296 ∧
    s.spaces.vm.currentPageDirectory = s.process.addressSpace ∧
    s'.spaces.spaces = s.spaces.spaces ∧
    ∃ r, s.spaces.vm.syscallAllocHeap s.process n = .ok (r, s'.spaces.vm, s'.process)
  | .vmm op, s' => s.KeepsHeap s' ∧ (addressSpaceSystem Starts Clean).step s.spaces op s'.spaces

/-- A process that was created, in any state of the address spaces. -/
structure Created (s : ProcessHeap σ) : Prop where
  reach : (addressSpaceSystem Starts Clean).Reachable s.spaces
  space : s.process.addressSpace ∈ s.spaces.spaces
  base : s.process.heapBase = 0
  limit : s.process.heapLimit = 0

end ProcessHeap

/-- The runs whose system calls meet the condition. -/
def processHeapSystem {σ : Type*} [Allocator σ] (condition : ProcessHeap σ → ℕ → Prop) :
    TransitionSystem (ProcessHeap σ) ProcessOp where
  init := ProcessHeap.Created
  step s op s' := (∀ n, op = .alloc n → 0 < n → condition s n) ∧ s.Step op s'

/-- All pages of the heap are mapped, and the process may access them. -/
def HeapMapped (vm : Vm σ) (p : Process) : Prop :=
  ∀ a, p.heapBase ≤ a → a ≤ p.heapLimit →
    ∃ e, vm.page p.addressSpace a = some e ∧ e.userSupervisor = true

/-- The heap of the process grew by `n` pages, or it is as it was and `NULL` is returned. -/
structure HeapGrowth (s : ProcessHeap σ) (n r : ℕ) (vm' : Vm σ) (p' : Process) : Prop where
  first : r ≠ 0 → s.process.heapBase = 0 → p'.heapLimit + 1 = p'.heapBase + 4096 * n
  next : r ≠ 0 → s.process.heapBase ≠ 0 →
    p'.heapBase = s.process.heapBase ∧ p'.heapLimit = s.process.heapLimit + 4096 * n
  mapped : r ≠ 0 → HeapMapped vm' p'
  frames : r ≠ 0 → ∀ d ∈ s.spaces.spaces, ∀ u e, s.spaces.vm.page d u = some e →
    ∃ e', vm'.page d u = some e' ∧ e'.frame = e.frame
  null : r = 0 → p'.heapBase = s.process.heapBase ∧ p'.heapLimit = s.process.heapLimit

/-- A request whose bytes can be counted in 32 bits; for a heap that is there already also
    one that ends inside the address space, or that meets a page in use in the range that is
    left of it in 32 bits. -/
def HeapFits (s : ProcessHeap σ) (n : ℕ) : Prop :=
  if s.process.heapBase = 0 then n < 1048576
  else (n < 1048576 ∧ s.process.heapLimit + 1 + 4096 * n < 4294967296) ∨
    ∃ a, s.process.heapLimit + 1 ≤ a ∧
      a < u32 (s.process.heapLimit + 1 + u32 (n * 4096)) ∧
      s.spaces.vm.pagingIsPageUsed s.process.addressSpace a = true

/-! ## One call -/

/-- Where the call asks for memory. -/
def heapNext (p : Process) : ℕ := if p.heapBase = 0 then 0 else u32 (p.heapLimit + 1)

variable {vm vm' : Vm σ} {p p' : Process} {n r : ℕ} {s s' : ProcessHeap σ}

theorem syscallAllocHeap_cases (h0 : 0 < n)
    (h : vm.syscallAllocHeap p n = .ok (r, vm', p')) :
    ∃ a, vm.vmmMapMemory (heapNext p) (u32 (n * 4096)) 0 false true = .ok (a, vm') ∧
      p'.addressSpace = p.addressSpace ∧
      ((a = 0 ∧ r = 0 ∧ p' = p) ∨
        (a ≠ 0 ∧ r = sub32 (u32 (a + u32 (n * 4096))) 1 ∧ p'.heapLimit = r ∧
          p'.heapBase = if p.heapBase = 0 then a else p.heapBase)) := by
  unfold syscallAllocHeap at h
  rw [if_neg h0.ne'] at h
  unfold heapNext
  by_cases hb : p.heapBase = 0
  · rw [if_pos hb] at h
    rw [if_pos hb]
    cases hm : vm.vmmMapMemory 0 (u32 (n * 4096)) 0 false true with
    | error e => rw [hm] at h; cases h
    | ok res =>
      obtain ⟨a, vm₁⟩ := res
      rw [hm] at h
      simp only at h
      split at h
      · rename_i ha
        cases h
        exact ⟨_, rfl, rfl, Or.inl ⟨ha, rfl, rfl⟩⟩
      · rename_i ha
        obtain ⟨hr, h⟩ := Prod.mk.inj (Except.ok.inj h)
        obtain ⟨rfl, rfl⟩ := Prod.mk.inj h
        exact ⟨a, rfl, rfl, Or.inr ⟨ha, hr.symm, hr, (if_pos hb).symm⟩⟩
  · rw [if_neg hb] at h
    rw [if_neg hb]
    cases hm : vm.vmmMapMemory (u32 (p.heapLimit + 1)) (u32 (n * 4096)) 0 false true with
    | error e => rw [hm] at h; cases h
    | ok res =>
      obtain ⟨a, vm₁⟩ := res
      rw [hm] at h
      simp only at h
      split at h
      · rename_i ha
        cases h
        exact ⟨_, rfl, rfl, Or.inl ⟨ha, rfl, rfl⟩⟩
      · rename_i ha
        obtain ⟨hr, h⟩ := Prod.mk.inj (Except.ok.inj h)
        obtain ⟨rfl, rfl⟩ := Prod.mk.inj h
        exact ⟨a, rfl, rfl, Or.inr ⟨ha, hr.symm, hr, (if_neg hb).symm⟩⟩

/-- The limit of the heap is never `NULL`. -/
theorem heapLimit_ne_zero {a : ℕ} (ha : a % 4096 = 0) : sub32 (u32 (a + u32 (n * 4096))) 1 ≠ 0 := by
  unfold sub32 u32
  omega

namespace ProcessHeap

/-- A heap that the process has. -/
structure Grown (vm : Vm σ) (p : Process) : Prop where
  base : p.heapBase ≠ 0
  limit : (p.heapLimit + 1) % 4096 = 0
  lower : p.heapBase ≤ p.heapLimit
  upper : p.heapLimit + 1 ≤ 3221225472
  mapped : HeapMapped vm p

/-- What holds of a process between its system calls. -/
structure Inv (s : ProcessHeap σ) : Prop where
  reach : (addressSpaceSystem Starts Clean).Reachable s.spaces
  space : s.process.addressSpace ∈ s.spaces.spaces
  heap : (s.process.heapBase = 0 ∧ s.process.heapLimit = 0) ∨ Grown s.spaces.vm s.process

theorem Inv.next (h : s.Inv) : heapNext s.process < 4294967296 ∧ heapNext s.process % 4096 = 0 ∧
    (s.process.heapBase ≠ 0 → heapNext s.process = s.process.heapLimit + 1) ∧
    (s.process.heapBase = 0 → heapNext s.process = 0) := by
  unfold heapNext
  split_ifs with h0
  · exact ⟨by decide, rfl, fun hne => absurd h0 hne, fun _ => rfl⟩
  · have hg := h.heap.resolve_left fun hz => h0 hz.1
    have hu := hg.upper
    rw [u32_of_lt (by omega)]
    exact ⟨by omega, hg.limit, fun _ => rfl, fun hz => absurd hz h0⟩

/-- The call is a step of the address spaces. -/
theorem Inv.mapStep (h : s.Inv) {a : ℕ}
    (hm : s.spaces.vm.vmmMapMemory (heapNext s.process) (u32 (n * 4096)) 0 false true = .ok (a, vm')) :
    (addressSpaceSystem Starts Clean).Reachable ⟨vm', s.spaces.spaces⟩ := by
  refine .step (i := .map (heapNext s.process) (u32 (n * 4096)) 0 false true) h.reach ⟨?_, ?_⟩
  · intro hc
    cases hc
  · exact ⟨⟨h.next.1, u32_lt _, by decide⟩, rfl, a, hm⟩

/-- The number of bytes in 32 bits. -/
theorem bytes_eq : u32 (n * 4096) = 4096 * (n % 1048576) := by
  unfold u32
  omega

/-- **A call that fails** found a page in use behind the heap. -/
theorem Inv.fails (h : s.Inv) (hcur : s.spaces.vm.currentPageDirectory = s.process.addressSpace)
    (hm : s.spaces.vm.vmmMapMemory (heapNext s.process) (u32 (n * 4096)) 0 false true = .ok (0, vm')) :
    HeapFits s n ∧ ∀ d ∈ s.spaces.spaces, ∀ u, vm'.page d u = s.spaces.vm.page d u := by
  have hi := reachable_spacesInv h.reach
  obtain ⟨hlt, hal, hnext, hzero⟩ := h.next
  obtain ⟨hv, ⟨m, hm1, hm2⟩, hpages⟩ :=
    vmmMapMemory_fails hi.ok hi.current (by omega) hlt (u32_lt _) hm
  have hb : s.process.heapBase ≠ 0 := fun h0 => hv (hzero h0)
  rw [hnext hb] at hm1 hm2 hal
  have hdiv : (s.process.heapLimit + 1) / 4096 * 4096 = s.process.heapLimit + 1 := by omega
  rw [hdiv] at hm1
  refine ⟨?_, hpages⟩
  rw [HeapFits, if_neg hb]
  refine Or.inr ⟨4096 * ((s.process.heapLimit + 1) / 4096 + m), by omega, hm1, ?_⟩
  rw [← hcur, isPageUsed_eq hi.ok hi.current, Option.isSome_iff_ne_none]
  exact hm2

/-- **A call that succeeds**, when the bytes can be counted. -/
theorem Inv.succeeds (h : s.Inv) (hcur : s.spaces.vm.currentPageDirectory = s.process.addressSpace)
    (h0 : 0 < n) (hn : n < 1048576)
    (hfit : s.process.heapBase = 0 ∨ s.process.heapLimit + 1 + 4096 * n < 4294967296)
    {a : ℕ} (ha : a ≠ 0) (hspace : p'.addressSpace = s.process.addressSpace)
    (hm : s.spaces.vm.vmmMapMemory (heapNext s.process) (u32 (n * 4096)) 0 false true = .ok (a, vm'))
    (hlimit : p'.heapLimit = sub32 (u32 (a + u32 (n * 4096))) 1)
    (hbase : p'.heapBase = if s.process.heapBase = 0 then a else s.process.heapBase) :
    HeapGrowth s n p'.heapLimit vm' p' ∧ Grown vm' p' := by
  have hi := reachable_spacesInv h.reach
  have hsplit := reachable_split (h.mapStep hm)
  obtain ⟨hlt, hal, hnext, hzero⟩ := h.next
  have hbytes : u32 (n * 4096) = 4096 * n := by
    rw [bytes_eq]
    omega
  rw [hbytes] at hm hlimit
  obtain ⟨b, hb, rfl, hav, htop, hrange⟩ := vmmMapMemory_pages hi.ok hi.current h0 hn (by omega) hm ha
  have hlim : p'.heapLimit = 4096 * b + 4096 * n - 1 := by
    rw [hlimit, u32_of_lt (by omega), sub32_of_le (by omega) (by omega)]
  have hne : p'.heapLimit ≠ 0 := by omega
  have hmapped : HeapMapped vm' p' := by
    intro x hx hx'
    have hpn : pageNumber x = x / 4096 := by rw [pageNumber, u32_of_lt (by omega)]
    by_cases hin : 4096 * b ≤ x
    · -- a new page; below the kernel's half it is for the process
      have hsome := hrange.mapped x (by omega) (by omega)
      obtain ⟨e, he⟩ := Option.ne_none_iff_exists'.1 hsome
      rw [hcur, ← hspace] at he
      refine ⟨e, he, (hsplit _ (hspace ▸ h.space) x e he).2 ?_⟩
      rw [u32_of_lt (by omega)]
      show x < 3221225472
      omega
    · have hb0 : s.process.heapBase ≠ 0 := by
        intro hz
        rw [if_pos hz] at hbase
        omega
      rw [if_neg hb0] at hbase
      have hg := h.heap.resolve_left fun hz => hb0 hz.1
      have hv := hnext hb0
      have hvb := hav (by omega)
      obtain ⟨e, he, hu⟩ := hg.mapped x (by omega) (by omega)
      rw [hspace]
      exact ⟨e, hrange.page_some hi.ok h.space he, hu⟩
  have hgrowth : HeapGrowth s n p'.heapLimit vm' p' := by
    refine ⟨fun _ hz => ?_, fun _ hb0 => ?_, fun _ => hmapped, fun _ d hd u e he => ?_, fun hz => absurd hz hne⟩
    · rw [if_pos hz] at hbase
      omega
    · rw [if_neg hb0] at hbase
      have hv := hnext hb0
      have hvb := hav (by omega)
      exact ⟨hbase, by omega⟩
    · exact ⟨e, hrange.page_some hi.ok hd he, rfl⟩
  refine ⟨hgrowth, ?_, by omega, ?_, by omega, hmapped⟩
  · split_ifs at hbase <;> omega
  · split_ifs at hbase with hz
    · omega
    · have hg := h.heap.resolve_left fun hz' => hz hz'.1
      have hl := hg.lower
      have hv := hnext hz
      have hvb := hav (by omega)
      omega

/-- A page in use behind the heap makes the call fail. -/
theorem Inv.obstructed (h : s.Inv) (hb : s.process.heapBase ≠ 0)
    (hcur : s.spaces.vm.currentPageDirectory = s.process.addressSpace) {a x : ℕ} (ha : a ≠ 0)
    (hlo : s.process.heapLimit + 1 ≤ x) (hhi : x < u32 (s.process.heapLimit + 1 + u32 (n * 4096)))
    (hm : s.spaces.vm.vmmMapMemory (heapNext s.process) (u32 (n * 4096)) 0 false true = .ok (a, vm')) :
    s.spaces.vm.pagingIsPageUsed s.process.addressSpace x = false := by
  have hi := reachable_spacesInv h.reach
  obtain ⟨hlt, hal, hnext, -⟩ := h.next
  rw [hnext hb] at hm hlt hal
  obtain ⟨b, -, hbv, hrange, -⟩ := vmmMapMemory_user hi.ok hi.current hlt (u32_lt _) hm ha
  have hb' := hbv (by omega)
  have hsz := u32_lt (n * 4096)
  have hsum : s.process.heapLimit + 1 + u32 (n * 4096) < 4294967296 := by
    unfold u32 at *
    omega
  rw [u32_of_lt hsum] at hhi
  have hpages : pagesMapped b (u32 (n * 4096)) = (u32 (n * 4096) + 4095) / 4096 :=
    if_pos (by omega)
  have hpn : pageNumber x = x / 4096 := by rw [pageNumber, u32_of_lt (by omega)]
  rw [← hcur, isPageUsed_false hi.ok hi.current]
  exact hrange.unused x (by omega) (by omega)

/-- **One call**: the heap grows as asked, or not at all, exactly for the requests that fit. -/
theorem Inv.call (h : s.Inv) (hcur : s.spaces.vm.currentPageDirectory = s.process.addressSpace)
    (h0 : 0 < n) (hx : s.spaces.vm.syscallAllocHeap s.process n = .ok (r, vm', p')) :
    (HeapGrowth s n r vm' p' ↔ HeapFits s n) ∧
      (HeapFits s n → Inv ⟨⟨vm', s.spaces.spaces⟩, p'⟩) := by
  obtain ⟨a, hm, hspace, ⟨rfl, rfl, rfl⟩ | ⟨ha, hr, hlimit, hbase⟩⟩ := syscallAllocHeap_cases h0 hx
  · obtain ⟨hfit, hpages⟩ := h.fails hcur hm
    have hnull : HeapGrowth s n 0 vm' s.process :=
      ⟨fun h => absurd rfl h, fun h => absurd rfl h, fun h => absurd rfl h, fun h => absurd rfl h,
        fun _ => ⟨rfl, rfl⟩⟩
    refine ⟨iff_of_true hnull hfit, fun _ => ⟨h.mapStep hm, h.space, ?_⟩⟩
    refine h.heap.imp_right fun hg => ⟨hg.base, hg.limit, hg.lower, hg.upper, fun x hx hx' => ?_⟩
    obtain ⟨e, he, hu⟩ := hg.mapped x hx hx'
    exact ⟨e, (hpages _ h.space x).trans he, hu⟩
  have hgood : HeapFits s n → HeapGrowth s n p'.heapLimit vm' p' ∧ Grown vm' p' := by
    intro hfit
    unfold HeapFits at hfit
    split_ifs at hfit with hb
    · exact h.succeeds hcur h0 hfit (Or.inl hb) ha hspace hm (hlimit.trans hr) hbase
    · rcases hfit with ⟨hn, hend⟩ | ⟨x, hlo, hhi, hused⟩
      · exact h.succeeds hcur h0 hn (Or.inr hend) ha hspace hm (hlimit.trans hr) hbase
      · rw [h.obstructed hb hcur ha hlo hhi hm] at hused
        cases hused
  refine ⟨⟨fun hg => ?_, fun hfit => hlimit ▸ (hgood hfit).1⟩, fun hfit => ?_⟩
  · have hi := reachable_spacesInv h.reach
    obtain ⟨hlt, -, hnext, -⟩ := h.next
    obtain ⟨b, -, -, -, -, hab⟩ := vmmMapMemory_user hi.ok hi.current hlt (u32_lt _) hm ha
    have hr0 : r ≠ 0 := hr ▸ heapLimit_ne_zero (by omega)
    have hrlt : p'.heapLimit < 4294967296 := by
      rw [hlimit, hr]
      exact sub32_lt _ _
    unfold HeapFits
    split_ifs with hb
    · have hfirst := hg.first hr0 hb
      rw [if_pos hb] at hbase
      omega
    · obtain ⟨hb', hl⟩ := hg.next hr0 hb
      refine Or.inl ?_
      by_contra hno
      -- the heap would end with the last page, which is the kernel's
      obtain ⟨e, he, hu⟩ := hg.mapped hr0 4294963200 (by
        have hgr := h.heap.resolve_left fun hz => hb hz.1
        have := hgr.lower
        have := hgr.upper
        omega) (by omega)
      have hside := (reachable_split (h.mapStep hm) _ (hspace ▸ h.space) _ e he).1 hu
      exact absurd hside (by decide)
  · exact ⟨h.mapStep hm, hspace ▸ h.space, Or.inr (hgood hfit).2⟩

/-! ## All runs -/

theorem reachable_inv (hr : (processHeapSystem HeapFits).Reachable s) : s.Inv := by
  refine hr.invariant (P := Inv) ?_ ?_
  · rintro s ⟨hreach, hspace, hb, hl⟩
    exact ⟨hreach, hspace, Or.inl ⟨hb, hl⟩⟩
  · rintro s op s' - h ⟨hfit, hs⟩
    cases op with
    | alloc n =>
      obtain ⟨-, hcur, hsp, r, hx⟩ := hs
      obtain ⟨⟨vm', spaces'⟩, p'⟩ := s'
      simp only at hsp hx
      subst hsp
      rcases Nat.eq_zero_or_pos n with rfl | h0
      · rw [syscallAllocHeap, if_pos rfl] at hx
        obtain ⟨-, hx⟩ := Prod.mk.inj (Except.ok.inj hx)
        obtain ⟨rfl, rfl⟩ := Prod.mk.inj hx
        exact h
      · exact (h.call hcur h0 hx).2 (hfit n rfl h0)
    | vmm op =>
      obtain ⟨⟨hp, hspace, hpages⟩, hstep⟩ := hs
      refine ⟨h.reach.step hstep, hp ▸ hspace, ?_⟩
      rw [hp]
      refine h.heap.imp_right fun hg => ⟨hg.base, hg.limit, hg.lower, hg.upper, fun x hx hx' => ?_⟩
      obtain ⟨e, he, hu⟩ := hg.mapped x hx hx'
      exact ⟨e, (hpages hg.base x hx hx').trans he, hu⟩

end ProcessHeap

open ProcessHeap

/-- **Growing the heap**, in every run: the heap grows by exactly the pages asked for, or it
    stays as it is and `NULL` is returned, exactly if the request fits. -/
theorem heap_growth_exact (hr : (processHeapSystem HeapFits).Reachable s)
    (hcur : s.spaces.vm.currentPageDirectory = s.process.addressSpace) (h0 : 0 < n)
    (hx : s.spaces.vm.syscallAllocHeap s.process n = .ok (r, vm', p')) :
    HeapGrowth s n r vm' p' ↔ HeapFits s n :=
  ((reachable_inv hr).call hcur h0 hx).1

/-- A process in an empty address space. -/
def newProcess : ProcessHeap KernelHeap :=
  ⟨⟨emptyVm, [emptyVm.kernelPageDirectory]⟩,
    { (default : Process) with
      addressSpace := emptyVm.kernelPageDirectory, heapBase := 0, heapLimit := 0 }⟩

theorem newProcess_reachable {condition : ProcessHeap KernelHeap → ℕ → Prop} :
    (processHeapSystem condition).Reachable newProcess :=
  .init ⟨emptyVm_reachable, List.mem_singleton_self _, rfl, rfl⟩

theorem heap_growth_exact_first : ∃ r vm' p',
    newProcess.spaces.vm.syscallAllocHeap newProcess.process 1 = .ok (r, vm', p') ∧ r ≠ 0 ∧
      HeapGrowth newProcess 1 r vm' p' := by
  obtain ⟨⟨r, vm', p'⟩, hx, hne⟩ := exists_of_check
    (x := newProcess.spaces.vm.syscallAllocHeap newProcess.process 1)
    (P := fun res => res.1 != 0) (by decide +kernel)
  refine ⟨r, vm', p', hx, by simpa using hne, ?_⟩
  exact (heap_growth_exact newProcess_reachable rfl (by decide) hx).2
    (show (1 : ℕ) < 1048576 by decide)

/-- **A request for 2^20 pages**: nothing is mapped, and the new heap has no bytes. -/
theorem heap_growth_nothing : ¬ ∀ (s : ProcessHeap KernelHeap) (n r : ℕ) (vm' : Vm KernelHeap)
    (p' : Process), (processHeapSystem HeapFits).Reachable s →
      s.spaces.vm.currentPageDirectory = s.process.addressSpace → 0 < n → n < 4294967296 →
        s.spaces.vm.syscallAllocHeap s.process n = .ok (r, vm', p') → HeapGrowth s n r vm' p' := by
  intro hall
  obtain ⟨⟨r, vm', p'⟩, hx, -⟩ := exists_of_check
    (x := newProcess.spaces.vm.syscallAllocHeap newProcess.process 0x100000)
    (P := fun _ => true) (by decide +kernel)
  have hfit : (0x100000 : ℕ) < 1048576 :=
    ((reachable_inv newProcess_reachable).call rfl (by decide) hx).1.1
      (hall newProcess _ r vm' p' newProcess_reachable rfl (by decide) (by decide) hx)
  exact absurd hfit (by decide)

end Ttos
