/-
  Runs of spawns, exits, exceptions and key events, from the init process on.

  The parent pointers, states and saved registers of the process objects are a
  call stack (`Activations.Frames`): the running process is on top, the pending
  spawn calls below it, init at the bottom.  `spawn_discipline` is what follows
  for every reachable state and every interrupt.
-/
import Ttos.Lib.CallStack
import Ttos.Lib.Run
import Ttos.System.Interrupt

namespace Ttos

/-- The processes, and the pending spawn calls: who made them, with which
    registers, the latest first. -/
structure SpawnRun where
  kernel : Kernel
  pending : List (ℕ × CpuState)

namespace Interrupt

/-- The interrupt is a spawn system call. -/
def IsSpawn (i : Interrupt) : Prop :=
  i.state.interruptCode = syscallInterrupt ∧ i.state.eax = syscallSpawnNumber

/-- The interrupt comes from user mode. -/
def UserMode (i : Interrupt) : Prop := i.state.cs = userCsSelector

/-- The interrupt ends the process: an exit system call or an exception in user mode. -/
def Ends (i : Interrupt) : Prop :=
  (i.state.interruptCode = syscallInterrupt ∧ i.state.eax = syscallExitNumber) ∨
    (i.state.interruptCode < 32 ∧ i.UserMode)

/-- What the parent learns of a child that ended: the exit code's low byte, `128`
    and the exception, or `130` for Ctrl+C. -/
def childResult (i : Interrupt) : ℕ :=
  if i.state.interruptCode = syscallInterrupt then i.state.ebx % 256
  else if i.state.interruptCode = keyboardInterrupt then 130
  else 128 + i.state.interruptCode

/-- What can happen to the kernel: code runs in one of its two code segments, and
    the heap hands out a process object that is not in use (`kheap_isolates`). -/
def Possible (i : Interrupt) (k : Kernel) : Prop :=
  (i.state.cs = kernelCsSelector ∨ i.state.cs = userCsSelector) ∧ i.spawn.load.process ∉ k.live

end Interrupt

namespace Kernel

/-- The call stack the process objects make up. -/
def activations (k : Kernel) : Activations ℕ CpuState where
  caller p := (k.procs p).parent
  waits p := (k.procs p).state = .waiting
  saved p := (k.procs p).savedState
  nil := 0

/-- The current process runs on top of the pending spawn calls, with init at the
    bottom, and there are no other processes. -/
structure Stacked (init : ℕ) (k : Kernel) (pending : List (ℕ × CpuState)) : Prop where
  frames : k.activations.Frames k.currentProcess pending
  running : (k.procs k.currentProcess).state = .running
  ne_null : k.currentProcess ≠ 0
  root : (k.currentProcess :: pending.map Prod.fst).getLast? = some init
  perm : k.live.Perm (k.currentProcess :: pending.map Prod.fst)
  nodup : k.live.Nodup
  space : k.currentPageDirectory = (k.procs k.currentProcess).addressSpace

variable {init p q : ℕ} {k k' : Kernel} {pending rest : List (ℕ × CpuState)} {regs : CpuState}

@[simp] theorem modify_procs_same (k : Kernel) (p : ℕ) (f : Process → Process) :
    (k.modify p f).procs p = f (k.procs p) := by simp [modify]

theorem modify_procs_ne (f : Process → Process) (h : q ≠ p) :
    (k.modify p f).procs q = k.procs q := by simp [modify, h]

@[simp] theorem modify_current (f : Process → Process) :
    (k.modify p f).currentProcess = k.currentProcess := rfl

@[simp] theorem modify_live (f : Process → Process) : (k.modify p f).live = k.live := rfl

@[simp] theorem modify_space (f : Process → Process) :
    (k.modify p f).currentPageDirectory = k.currentPageDirectory := rfl

/-! ## Steps that keep the stack -/

/-- Whatever leaves parents, states and saved registers of the live processes
    alone keeps the stack; the registers saved for the current process are free. -/
theorem Stacked.congr (hs : Stacked init k pending) (hc : k'.currentProcess = k.currentProcess)
    (hl : k'.live = k.live) (hd : k'.currentPageDirectory = k.currentPageDirectory)
    (hp : ∀ p ∈ k.live, (k'.procs p).parent = (k.procs p).parent ∧
      (k'.procs p).state = (k.procs p).state ∧ (k'.procs p).addressSpace = (k.procs p).addressSpace ∧
      (p ≠ k.currentProcess → (k'.procs p).savedState = (k.procs p).savedState)) :
    Stacked init k' pending := by
  have hmem : ∀ p, p ∈ k.live ↔ p = k.currentProcess ∨ p ∈ pending.map Prod.fst := fun p => by
    rw [hs.perm.mem_iff, List.mem_cons]
  have hcur := hp k.currentProcess ((hmem _).2 (Or.inl rfl))
  have hnd : (k.currentProcess :: pending.map Prod.fst).Nodup := hs.perm.nodup_iff.1 hs.nodup
  refine ⟨?_, ?_, hc ▸ hs.ne_null, hc ▸ hs.root, ?_, hl ▸ hs.nodup, ?_⟩
  · rw [hc]
    refine hs.frames.congr (B := k'.activations) rfl hcur.1 fun q hq => ?_
    obtain ⟨h1, h2, -, h4⟩ := hp q ((hmem q).2 (Or.inr hq))
    refine ⟨h1, fun h => h2.trans h, h4 ?_⟩
    rintro rfl
    exact (List.nodup_cons.1 hnd).1 hq
  · rw [hc, hcur.2.1]
    exact hs.running
  · rw [hl, hc]
    exact hs.perm
  · rw [hd, hc, hcur.2.2.1]
    exact hs.space

/-- The current process may change what is its own. -/
theorem Stacked.modify_current (hs : Stacked init k pending) (f : Process → Process)
    (hf : ∀ p, (f p).parent = p.parent ∧ (f p).state = p.state ∧ (f p).addressSpace = p.addressSpace) :
    Stacked init (k.modify k.currentProcess f) pending := by
  refine hs.congr rfl rfl rfl fun p _ => ?_
  by_cases h : p = k.currentProcess
  · subst h
    rw [modify_procs_same]
    exact ⟨(hf _).1, (hf _).2.1, (hf _).2.2, fun h => absurd rfl h⟩
  · rw [modify_procs_ne f h]
    exact ⟨rfl, rfl, rfl, fun _ => rfl⟩

/-! ## Ending a process -/

/-- The root of the stack is the process without a parent. -/
theorem Stacked.parent_init (hs : Stacked init k pending) : (k.procs init).parent = 0 :=
  hs.frames.root init hs.root

/-- **Ending the current process** resumes the one that waits for it with the
    registers of its spawn call, except `eax`; without one the kernel stops. -/
theorem processTerminate_spec (hs : Stacked init k pending) {result : ℕ}
    (hres : (if (k.procs k.currentProcess).exceptionCode ≠ -1 then
        ((128 + (k.procs k.currentProcess).exceptionCode) % 4294967296).toNat
      else (k.procs k.currentProcess).exitCode % 256) = result) :
    (pending = [] ∧ processTerminate k k.currentProcess = .panic .initDied) ∨
    ∃ parent saved rest k', pending = (parent, saved) :: rest ∧
      (k.procs k.currentProcess).parent = parent ∧
      processTerminate k k.currentProcess = .restore k' { saved with eax := result } ∧
      k'.currentProcess = parent ∧ k'.live = k.live.erase k.currentProcess ∧
      Stacked init k' rest := by
  unfold processTerminate
  simp only [hres, processDestroy]
  cases pending with
  | nil =>
    have h0 : (k.procs k.currentProcess).parent = 0 := hs.frames
    exact Or.inl ⟨rfl, by simp only [h0, ne_eq, not_true_eq_false, if_false]⟩
  | cons frame rest =>
    obtain ⟨parent, saved⟩ := frame
    obtain ⟨h1, h2, h3, h4, h5⟩ := hs.frames
    have h1 : (k.procs k.currentProcess).parent = parent := h1
    have h2 : parent ≠ 0 := h2
    have h4 : (k.procs parent).savedState = saved := h4
    have hnd : (k.currentProcess :: parent :: rest.map Prod.fst).Nodup :=
      hs.perm.nodup_iff.1 hs.nodup
    obtain ⟨-, hnd⟩ := List.nodup_cons.1 hnd
    refine Or.inr ⟨parent, saved, rest, ?_⟩
    simp only [h1, ne_eq, h2, not_false_eq_true, if_true, true_and]
    refine ⟨_, congrArg (Outcome.restore _) ?_, rfl, rfl, ?_, ?_, h2, ?_, ?_, hs.nodup.erase _, ?_⟩
    · simp [switchAddressSpace, h4]
    · -- the frames below the parent are untouched
      refine h5.congr rfl ?_ fun q hq => ?_
      · simp [activations, switchAddressSpace]
      · have hne : q ≠ parent := by
          rintro rfl
          exact (List.nodup_cons.1 hnd).1 hq
        simp only [activations]
        rw [modify_procs_ne _ hne, modify_procs_ne _ hne]
        exact ⟨rfl, id, rfl⟩
    · simp
    · have := hs.root
      simpa [List.getLast?_cons_cons] using this
    · have := hs.perm.erase k.currentProcess
      rw [List.erase_cons_head] at this
      exact this
    · simp [switchAddressSpace]

/-! ## Creating a process -/

/-- `process_create` stops the kernel, leaves the processes as they are, or adds a
    ready process at the address the heap gave it. -/
theorem processCreate_cases (k : Kernel) (name path : List UInt8) (argv : List (List UInt8))
    (out inp err : ℕ) (a : LoadAnswers) :
    (∃ why, processCreate k name path argv out inp err a = .error (.panic why)) ∨
    (∃ n, processCreate k name path argv out inp err a = .ok (0, { k with nextPid := n })) ∨
    ∃ n P, a.process ≠ 0 ∧ P.state = .ready ∧ P.parent = 0 ∧ processCreate k name path argv out inp err a =
      .ok (a.process, { k with procs := Function.update k.procs a.process P,
                               live := a.process :: k.live, nextPid := n }) := by
  unfold processCreate
  cases a.fileStat with
  | none => exact Or.inr (Or.inl ⟨k.nextPid, rfl⟩)
  | some size =>
    simp only [List.erase_cons_head]
    by_cases h1 : a.executableData = 0
    · exact Or.inl ⟨_, if_pos h1⟩
    rw [if_neg h1]
    by_cases h2 : a.fileRead ≠ some size
    · exact Or.inr (Or.inl ⟨k.nextPid, if_pos h2⟩)
    rw [if_neg h2]
    by_cases h3 : a.process = 0
    · exact Or.inl ⟨_, if_pos h3⟩
    rw [if_neg h3]
    by_cases h4 : a.name = 0 ∨ a.path = 0
    · exact Or.inl ⟨_, if_pos h4⟩
    rw [if_neg h4]
    by_cases h5 : (!a.elfIsValid) = true
    · exact Or.inr (Or.inl ⟨_, if_pos h5⟩)
    rw [if_neg h5]
    by_cases h6 : a.addressSpace = 0
    · exact Or.inr (Or.inl ⟨_, if_pos h6⟩)
    rw [if_neg h6]
    by_cases h7 : (!a.elfLoad) = true
    · exact Or.inr (Or.inl ⟨k.nextPid + 1, by rw [if_pos h7]; simp [switchAddressSpace]⟩)
    rw [if_neg h7]
    by_cases h8 : a.userStackLimit = 0
    · exact Or.inl ⟨_, if_pos h8⟩
    rw [if_neg h8]
    by_cases h9 : a.argAddresses = 0
    · exact Or.inl ⟨_, if_pos h9⟩
    rw [if_neg h9]
    exact Or.inr (Or.inr ⟨_, _, h3, rfl, rfl, rfl⟩)

/-- Entering a new child puts it on top of the caller, which waits with the
    registers of its call. -/
theorem stacked_enter (hs : Stacked init k pending) {child : ℕ} (hne : child ≠ 0)
    (hf : child ∉ k.live) (hchild : (k'.procs child).parent = k.currentProcess)
    (hparent : k'.procs k.currentProcess =
      { k.procs k.currentProcess with savedState := regs, state := .waiting })
    (hother : ∀ p ∈ k.live, p ≠ k.currentProcess → k'.procs p = k.procs p)
    (hlive : k'.live = child :: k.live) :
    Stacked init
      ((({ k' with currentProcess := child }).modify child fun p => { p with state := .running }).switchAddressSpace
        ((({ k' with currentProcess := child }).modify child fun p => { p with state := .running }).procs
          child).addressSpace) ((k.currentProcess, regs) :: pending) := by
  have hmem : ∀ p, p ∈ k.live ↔ p = k.currentProcess ∨ p ∈ pending.map Prod.fst := fun p => by
    rw [hs.perm.mem_iff, List.mem_cons]
  have hnd : (k.currentProcess :: pending.map Prod.fst).Nodup := hs.perm.nodup_iff.1 hs.nodup
  have hcur : k.currentProcess ≠ child := by
    rintro rfl
    exact hf ((hmem _).2 (Or.inl rfl))
  set K := ({ k' with currentProcess := child }).modify child fun p => { p with state := .running } with hK
  have hKchild : K.procs child = { k'.procs child with state := .running } := by
    rw [hK, modify_procs_same]
  have hKother : ∀ p ∈ k.live, K.procs p = k'.procs p := fun p hp => by
    have : p ≠ child := by
      rintro rfl
      exact hf hp
    rw [hK, modify_procs_ne _ this]
  refine ⟨⟨?_, hs.ne_null, ?_, ?_, ?_⟩, ?_, hne, ?_, ?_, ?_, rfl⟩
  · show (K.procs child).parent = k.currentProcess
    rw [hKchild]
    exact hchild
  · show (K.procs k.currentProcess).state = .waiting
    rw [hKother _ ((hmem _).2 (Or.inl rfl)), hparent]
  · show (K.procs k.currentProcess).savedState = regs
    rw [hKother _ ((hmem _).2 (Or.inl rfl)), hparent]
  · refine hs.frames.congr rfl ?_ fun q hq => ?_
    · show (K.procs k.currentProcess).parent = _
      rw [hKother _ ((hmem _).2 (Or.inl rfl)), hparent]
      rfl
    · have hq' : q ∈ k.live := (hmem q).2 (Or.inr hq)
      have hqc : q ≠ k.currentProcess := by
        rintro rfl
        exact (List.nodup_cons.1 hnd).1 hq
      show (K.procs q).parent = _ ∧ (_ → (K.procs q).state = .waiting) ∧ (K.procs q).savedState = _
      rw [hKother q hq', hother q hq' hqc]
      exact ⟨rfl, id, rfl⟩
  · show (K.procs child).state = .running
    rw [hKchild]
  · show (child :: k.currentProcess :: pending.map Prod.fst).getLast? = some init
    rw [List.getLast?_cons_cons]
    exact hs.root
  · show k'.live.Perm _
    rw [hlive]
    exact hs.perm.cons child
  · show k'.live.Nodup
    rw [hlive]
    exact List.nodup_cons.2 ⟨hf, hs.nodup⟩

/-- **A spawn call** stops the kernel, returns `-1` with the stack as it was, or
    enters a new process on top of the caller. -/
theorem syscallSpawn_spec (hs : Stacked init k pending) (state : CpuState) (a : SpawnAnswers)
    (hf : a.load.process ∉ k.live) :
    (∃ why, syscallSpawn k state a = .error (.panic why)) ∨
    (∃ k', syscallSpawn k state a = .ok (minusOne, k') ∧ k'.currentProcess = k.currentProcess ∧
      k'.live = k.live ∧ Stacked init k' pending) ∨
    ∃ k' context, syscallSpawn k state a = .error (.enter k' context) ∧
      k'.currentProcess = a.load.process ∧ k'.live = a.load.process :: k.live ∧
      Stacked init k' ((k.currentProcess, state) :: pending) := by
  unfold syscallSpawn
  by_cases h1 : k.currentProcess = 0 ∨ state.ebx = 0
  · exact Or.inr (Or.inl ⟨k, if_pos h1, rfl, rfl, hs⟩)
  simp only [if_neg h1]
  by_cases h2 : a.kernelPath = 0
  · exact Or.inr (Or.inl ⟨k, if_pos h2, rfl, rfl, hs⟩)
  rw [if_neg h2]
  by_cases h3 : a.kernelArgv = 0
  · exact Or.inr (Or.inl ⟨k, if_pos h3, rfl, rfl, hs⟩)
  rw [if_neg h3]
  by_cases h4 : ((List.range a.userArgv.length).any fun index => a.kernelArg index = 0) = true
  · exact Or.inr (Or.inl ⟨k, if_pos h4, rfl, rfl, hs⟩)
  rw [if_neg h4]
  set k₁ := k.modify k.currentProcess fun p => { p with savedState := state } with hk₁
  have hs₁ : Stacked init k₁ pending := hs.modify_current _ fun p => ⟨rfl, rfl, rfl⟩
  rcases processCreate_cases k₁ "child".toUTF8.toList a.userPath a.userArgv
    (k₁.procs k.currentProcess).out (k₁.procs k.currentProcess).inp (k₁.procs k.currentProcess).err
    a.load with ⟨why, h⟩ | ⟨n, h⟩ | ⟨n, P, hne, hready, -, h⟩
  · exact Or.inl ⟨why, by rw [h]; rfl⟩
  · refine Or.inr (Or.inl ⟨{ k₁ with nextPid := n }, by rw [h]; rfl, rfl, rfl, ?_⟩)
    exact hs₁.congr rfl rfl rfl fun p _ => ⟨rfl, rfl, rfl, fun _ => rfl⟩
  · refine Or.inr (Or.inr ?_)
    set child := a.load.process with hchild
    have hcur : k.currentProcess ≠ child := by
      intro he
      exact hf (he ▸ hs.perm.mem_iff.2 (List.mem_cons_self ..))
    rw [h]
    simp only [Bind.bind, Except.bind, hne, if_false]
    set k₂ : Kernel := { k₁ with procs := Function.update k₁.procs child P,
                                 live := child :: k₁.live, nextPid := n } with hk₂
    set k₃ := (k₂.modify child fun p => { p with parent := k.currentProcess }).modify
      k.currentProcess fun p => { p with state := .waiting } with hk₃
    have hP : k₃.procs child = { P with parent := k.currentProcess } := by
      rw [hk₃, modify_procs_ne _ (Ne.symm hcur), modify_procs_same]
      simp [hk₂]
    have hparent : k₃.procs k.currentProcess =
        { k.procs k.currentProcess with savedState := state, state := .waiting } := by
      rw [hk₃, modify_procs_same, modify_procs_ne _ hcur]
      simp [hk₂, hcur, hk₁]
    have hother : ∀ p ∈ k.live, p ≠ k.currentProcess → k₃.procs p = k.procs p := fun p hp hne => by
      have hpc : p ≠ child := by
        rintro rfl
        exact hf hp
      rw [hk₃, modify_procs_ne _ hne, modify_procs_ne _ hpc]
      simp [hk₂, hpc, hk₁, modify_procs_ne, hne]
    have hst : (k₃.procs child).state = .ready := by
      rw [hP]
      exact hready
    unfold processRun
    rw [if_neg (by simp [hst])]
    exact ⟨_, _, rfl, rfl, rfl, stacked_enter hs hne hf (hP ▸ rfl) hparent hother rfl⟩

end Kernel

/-! ## Runs -/

/-- The init process was created and entered with no other process there. -/
def Booted (init : ℕ) (k : Kernel) : Prop :=
  ∃ k₀ out inp err a k₁ context, k₀.live = [] ∧ init ≠ 0 ∧
    Kernel.processCreate k₀ "init".toUTF8.toList "A:/init.elf".toUTF8.toList
      ["A:/init.elf".toUTF8.toList] out inp err a = .ok (init, k₁) ∧
    Kernel.processRun k₁ init = .error (.enter k context)

namespace SpawnRun

/-- The state after an interrupt: entering a child adds the caller's spawn call to
    the pending ones, resuming a process takes the latest away. -/
def next (s : SpawnRun) (i : Interrupt) : Outcome → Option SpawnRun
  | .panic _ => none
  | .hang => none
  | .ret k _ => some ⟨k, s.pending⟩
  | .restore k _ => some ⟨k, s.pending.tail⟩
  | .enter k _ => some ⟨k, (s.kernel.currentProcess, i.state) :: s.pending⟩

/-- What an interrupt may lead to: where the kernel may stop, which process goes
    on, and with which registers. -/
def Allowed (init : ℕ) (s : SpawnRun) (i : Interrupt) : Outcome → Prop
  | .panic why =>
    i.IsSpawn ∨ (why = .initDied ∧ s.kernel.currentProcess = init ∧ i.Ends) ∨
      (i.state.interruptCode < 32 ∧ ¬ i.UserMode)
  | .hang => False
  | .ret k state =>
    k.currentProcess = s.kernel.currentProcess ∧ k.live = s.kernel.live ∧ ¬ i.Ends ∧
      (i.IsSpawn → state = { i.state with eax := minusOne })
  | .restore k state => ∃ parent saved rest, s.pending = (parent, saved) :: rest ∧
      (s.kernel.procs s.kernel.currentProcess).parent = parent ∧ k.currentProcess = parent ∧
      k.live = s.kernel.live.erase s.kernel.currentProcess ∧
      state = { saved with eax := i.childResult } ∧ i.childResult < 2147483648 ∧
      (i.state.interruptCode = keyboardInterrupt →
        s.kernel.currentProcess ≠ init ∧ parent ≠ init)
  | .enter k _ =>
    i.IsSpawn ∧ k.currentProcess = i.spawn.load.process ∧ i.spawn.load.process ∉ s.kernel.live ∧
      k.live = i.spawn.load.process :: s.kernel.live

end SpawnRun

/-- The processes from init on, under any interrupts. -/
def spawnSystem (init : ℕ) : TransitionSystem SpawnRun Interrupt where
  init s := Booted init s.kernel ∧ s.pending = []
  step s i s' := i.Possible s.kernel ∧ s.next i (s.kernel.isrStage2 i) = some s'

namespace SpawnRun

open Kernel

variable {init : ℕ} {s s' : SpawnRun} {i : Interrupt} {o : Outcome}

theorem booted_stacked {k : Kernel} (hb : Booted init k) : Stacked init k [] := by
  obtain ⟨k₀, out, inp, err, a, k₁, context, hl, hne, hc, hr⟩ := hb
  rcases processCreate_cases k₀ "init".toUTF8.toList "A:/init.elf".toUTF8.toList
    ["A:/init.elf".toUTF8.toList] out inp err a with ⟨why, h⟩ | ⟨n, h⟩ | ⟨n, P, -, hready, hpar, h⟩
  · rw [h] at hc
    cases hc
  · rw [h] at hc
    obtain ⟨rfl, -⟩ := Prod.mk.inj (Except.ok.inj hc)
    exact absurd rfl hne
  · rw [h] at hc
    obtain ⟨rfl, rfl⟩ := Prod.mk.inj (Except.ok.inj hc)
    unfold processRun at hr
    rw [if_neg (by simp [hready])] at hr
    obtain ⟨rfl, -⟩ := Outcome.enter.inj (Except.error.inj hr)
    refine ⟨?_, ?_, hne, rfl, ?_, ?_, rfl⟩
    · show Process.parent _ = 0
      simp [Kernel.modify, switchAddressSpace, hpar]
    · simp [Kernel.modify, switchAddressSpace]
    · show (_ :: k₀.live).Perm _
      rw [hl]
      exact .refl _
    · show (_ :: k₀.live).Nodup
      rw [hl]
      simp

/-- The outcome of one interrupt, with the stack that comes after it. -/
def Steps (init : ℕ) (s : SpawnRun) (i : Interrupt) (o : Outcome) : Prop :=
  s.Allowed init i o ∧ ∀ s', s.next i o = some s' → Stacked init s'.kernel s'.pending

theorem steps_ret {k : Kernel} {state : CpuState} (h : Stacked init k s.pending)
    (hc : k.currentProcess = s.kernel.currentProcess) (hl : k.live = s.kernel.live) (he : ¬ i.Ends)
    (hsp : i.IsSpawn → state = { i.state with eax := minusOne }) :
    s.Steps init i (.ret k state) := by
  refine ⟨⟨hc, hl, he, hsp⟩, fun s' hs' => ?_⟩
  obtain rfl := Option.some.inj hs'
  exact h

/-- Ending the current process as the outcome of an interrupt. -/
theorem steps_terminate {k : Kernel} (hs : Stacked init k s.pending)
    (hcur : k.currentProcess = s.kernel.currentProcess) (hl : k.live = s.kernel.live)
    (hpar : (k.procs k.currentProcess).parent = (s.kernel.procs s.kernel.currentProcess).parent)
    (hres : (if (k.procs k.currentProcess).exceptionCode ≠ -1 then
        ((128 + (k.procs k.currentProcess).exceptionCode) % 4294967296).toNat
      else (k.procs k.currentProcess).exitCode % 256) = i.childResult)
    (hlt : i.childResult < 2147483648)
    (hend : i.Ends ∨ (i.state.interruptCode = keyboardInterrupt ∧ s.kernel.currentProcess ≠ init ∧
      (s.kernel.procs s.kernel.currentProcess).parent ≠ init)) :
    s.Steps init i (processTerminate k k.currentProcess) := by
  rcases processTerminate_spec hs hres with
    ⟨hp, h⟩ | ⟨parent, saved, rest, k', hp, hpp, h, hc, hkl, hst⟩
  · rw [h]
    have hroot : s.kernel.currentProcess = init := by
      have := hs.root
      rw [hp] at this
      simpa [hcur] using this
    refine ⟨Or.inr (Or.inl ⟨rfl, hroot, ?_⟩), fun s' hs' => by cases hs'⟩
    rcases hend with he | ⟨-, hne, -⟩
    · exact he
    · exact absurd hroot hne
  · rw [h]
    refine ⟨⟨parent, saved, rest, hp, hpar ▸ hpp, hc, ?_, rfl, hlt, fun hk => ?_⟩, fun s' hs' => ?_⟩
    · rw [hkl, hl, hcur]
    · rcases hend with he | ⟨-, h1, h2⟩
      · -- a key event is neither an exit call nor an exception
        rcases he with ⟨he, -⟩ | ⟨he, -⟩
        · rw [hk] at he; cases he
        · rw [hk] at he; exact absurd he (by decide)
      · exact ⟨h1, by rw [← hpp, hpar]; exact h2⟩
    · obtain rfl := Option.some.inj hs'
      rw [hp]
      exact hst

theorem syscall_step (hs : Stacked init s.kernel s.pending) (hf : i.Possible s.kernel)
    (hc : i.state.interruptCode = syscallInterrupt) :
    s.Steps init i (s.kernel.syscallHandler i) := by
  unfold syscallHandler
  by_cases h1 : i.state.eax = syscallExitNumber
  · rw [if_pos h1]
    unfold syscallExit
    rw [if_pos hs.ne_null]
    refine steps_terminate (hs.modify_current _ fun p => ⟨rfl, rfl, rfl⟩) rfl rfl ?_ ?_ ?_
      (Or.inl (Or.inl ⟨hc, h1⟩))
    · simp
    · simp [Interrupt.childResult, hc]
    · have : i.state.ebx % 256 < 256 := Nat.mod_lt _ (by decide)
      simp only [Interrupt.childResult, hc, if_true]
      omega
  rw [if_neg h1]
  have hne : ¬ i.Ends := by
    rintro (⟨-, h⟩ | ⟨h, -⟩)
    · exact h1 h
    · rw [hc] at h; exact absurd h (by decide)
  by_cases h2 : i.state.eax = syscallSpawnNumber
  · rw [if_pos h2]
    rcases syscallSpawn_spec hs i.state i.spawn hf.2 with
      ⟨why, h⟩ | ⟨k', h, hcur, hl, hst⟩ | ⟨k', context, h, hcur, hl, hst⟩
    · rw [h]
      exact ⟨Or.inl ⟨hc, h2⟩, fun s' hs' => by cases hs'⟩
    · rw [h]
      exact steps_ret hst hcur hl hne fun _ => rfl
    · rw [h]
      refine ⟨⟨⟨hc, h2⟩, hcur, hf.2, hl⟩, fun s' hs' => ?_⟩
      obtain rfl := Option.some.inj hs'
      exact hst
  · rw [if_neg h2]
    exact steps_ret hs rfl rfl hne fun h => absurd h.2 h2

theorem keyboard_step (hs : Stacked init s.kernel s.pending)
    (hc : i.state.interruptCode = keyboardInterrupt) :
    s.Steps init i (match s.kernel.ttyKeyboardListener i.key with
      | .ok k => .ret k i.state
      | .error o => o) := by
  have hne : ¬ i.Ends := by
    rintro (⟨h, -⟩ | ⟨h, -⟩)
    · rw [hc] at h; cases h
    · rw [hc] at h; exact absurd h (by decide)
  have hnsp : ¬ i.IsSpawn := by
    rintro ⟨h, -⟩
    rw [hc] at h; cases h
  set k : Kernel := { s.kernel with modifiers := (ttyDecode s.kernel.modifiers i.key).1 } with hk
  have hk' : Stacked init k s.pending := hs.congr rfl rfl rfl fun p _ => ⟨rfl, rfl, rfl, fun _ => rfl⟩
  unfold ttyKeyboardListener
  by_cases h1 : (ttyDecode s.kernel.modifiers i.key).2 = .interrupt
  · simp only [if_pos h1]
    by_cases h2 : k.currentProcess ≠ 0 ∧ (k.procs k.currentProcess).parent ≠ 0 ∧
        (k.procs (k.procs k.currentProcess).parent).parent ≠ 0
    · rw [if_pos h2]
      unfold processKillCurrent
      rw [if_neg h2.1]
      -- neither the current process nor its parent is the root, which has no parent
      have hcur : s.kernel.currentProcess ≠ init := fun h => h2.2.1 (h ▸ hk'.parent_init)
      have hpar : (s.kernel.procs s.kernel.currentProcess).parent ≠ init := fun h =>
        h2.2.2 (by rw [show (k.procs k.currentProcess).parent = init from h]; exact hk'.parent_init)
      refine steps_terminate (hk'.modify_current _ fun p => ⟨rfl, rfl, rfl⟩) rfl rfl ?_ ?_ ?_
        (Or.inr ⟨hc, hcur, hpar⟩)
      · simp only [modify_current, modify_procs_same]
      · rw [Interrupt.childResult, hc]
        simp [keyboardInterrupt, syscallInterrupt]
      · rw [Interrupt.childResult, hc]
        simp [keyboardInterrupt, syscallInterrupt]
    · rw [if_neg h2]
      exact steps_ret hk' rfl rfl hne fun h => absurd h hnsp
  · simp only [if_neg h1]
    exact steps_ret hk' rfl rfl hne fun h => absurd h hnsp

/-- **Every interrupt keeps the stack** and does what is allowed. -/
theorem isrStage2_steps (hs : Stacked init s.kernel s.pending) (hf : i.Possible s.kernel) :
    s.Steps init i (s.kernel.isrStage2 i) := by
  unfold isrStage2
  by_cases h1 : i.state.interruptCode = syscallInterrupt
  · rw [if_pos h1]
    exact syscall_step hs hf h1
  rw [if_neg h1]
  by_cases h2 : i.state.interruptCode = keyboardInterrupt
  · rw [if_pos h2]
    exact keyboard_step hs h2
  rw [if_neg h2]
  by_cases h3 : i.state.interruptCode < 32
  · rw [if_pos h3]
    rw [if_pos (show (0x3 : ℕ) = 3 from rfl)]
    by_cases h4 : i.state.cs &&& 1 ≠ 0 ∧ s.kernel.currentProcess ≠ 0
    · rw [if_pos h4]
      have hu : i.UserMode := by
        refine hf.1.resolve_left fun h => h4.1 ?_
        rw [h]
        rfl
      refine steps_terminate (hs.modify_current _ fun p => ⟨rfl, rfl, rfl⟩) rfl rfl ?_ ?_ ?_
        (Or.inl (Or.inr ⟨h3, hu⟩))
      · simp
      · have hne : (i.state.interruptCode : Int) ≠ -1 := by omega
        simp only [modify_current, modify_procs_same, hne, ne_eq, not_false_eq_true, if_true,
          Interrupt.childResult, if_neg h1, if_neg h2]
        omega
      · simp only [Interrupt.childResult, if_neg h1, if_neg h2]
        omega
    · rw [if_neg h4]
      refine ⟨Or.inr (Or.inr ⟨h3, fun hu => h4 ⟨?_, hs.ne_null⟩⟩), fun s' hs' => by cases hs'⟩
      rw [show i.state.cs = 0x1B from hu]
      decide
  · rw [if_neg h3]
    refine steps_ret hs rfl rfl ?_ fun h => absurd h.1 h1
    rintro (⟨h, -⟩ | ⟨h, -⟩)
    · exact h1 h
    · exact h3 h

/-- The call stack of a reachable state. -/
theorem reachable_stacked (hr : (spawnSystem init).Reachable s) : Stacked init s.kernel s.pending := by
  refine hr.invariant (P := fun s => Stacked init s.kernel s.pending) ?_ ?_
  · rintro s ⟨hb, hp⟩
    rw [hp]
    exact booted_stacked hb
  · rintro s i s' - hs ⟨hf, hn⟩
    exact (isrStage2_steps hs hf).2 s' hn

end SpawnRun

/-- **Spawn and exit discipline.** In every reachable state exactly the current
    process runs; the parent pointers lead from it through waiting processes to
    init and meet every process once; and every interrupt does only what
    `SpawnRun.Allowed` says. -/
theorem spawn_discipline {init : ℕ} {s : SpawnRun} (hr : (spawnSystem init).Reachable s) :
    (∀ p, (p ∈ s.kernel.live ∧ (s.kernel.procs p).state = .running) ↔ p = s.kernel.currentProcess) ∧
    (∃ chain : List ℕ, chain.head? = some s.kernel.currentProcess ∧ chain.getLast? = some init ∧
      chain.IsChain (fun p q => (s.kernel.procs p).parent = q) ∧ (s.kernel.procs init).parent = 0 ∧
      (∀ q ∈ chain.tail, (s.kernel.procs q).state = .waiting) ∧
      chain.Nodup ∧ s.kernel.live.Perm chain) ∧
    ∀ i, i.Possible s.kernel → s.Allowed init i (s.kernel.isrStage2 i) := by
  have hs := SpawnRun.reachable_stacked hr
  have hwait : ∀ q ∈ s.pending.map Prod.fst, (s.kernel.procs q).state = .waiting := fun q hq =>
    (hs.frames.waits_of_mem q hq).1
  refine ⟨fun p => ⟨fun ⟨hp, hrun⟩ => ?_, ?_⟩, ⟨_, rfl, hs.root, hs.frames.chain, hs.parent_init, hwait,
    hs.perm.nodup_iff.1 hs.nodup, hs.perm⟩, fun i hi => (SpawnRun.isrStage2_steps hs hi).1⟩
  · rcases List.mem_cons.1 (hs.perm.mem_iff.1 hp) with h | h
    · exact h
    · rw [hwait p h] at hrun
      cases hrun
  · rintro rfl
    exact ⟨hs.perm.mem_iff.2 (List.mem_cons_self ..), hs.running⟩

/-! ## A child that is spawned and exits -/

/-- The system call `number` of a program, with `ebx` as its argument. -/
def systemCall (number ebx : ℕ) (a : SpawnAnswers) : Interrupt where
  state := { (default : CpuState) with
    eax := number, ebx := ebx, interruptCode := syscallInterrupt, cs := userCsSelector,
    eip := 0x08048123 }
  spawn := a
  key := ⟨0, false⟩
  other := 0

/-- What loading a program of 52 bytes finds, when memory lasts: a process object at `process`. -/
def loaded (process : ℕ) : Kernel.LoadAnswers :=
  ⟨some 52, 0xD0001000, some 52, process, 0xD0002000, 0xD0003000, true, process + 0xFEC, true, 0x1000,
    0xD0006000, 0x08048000⟩

def spawns (process : ℕ) : Interrupt :=
  systemCall syscallSpawnNumber 0x0804A000
    ⟨"A:/a.elf".toUTF8.toList, [], 0xD0007000, 0xD0008000, fun _ => 0xD0009000, loaded process⟩

def exits (code : ℕ) : Interrupt :=
  systemCall syscallExitNumber code ⟨[], [], 0, 0, fun _ => 0, loaded 0xD0050014⟩

/-- Before the boot. -/
def emptyKernel : Kernel := ⟨default, [], 0, 0, 0x1000, 0x1000, ⟨false, false⟩⟩

/-- Init has been entered. -/
def bootedRun : SpawnRun :=
  match Kernel.processCreate emptyKernel "init".toUTF8.toList "A:/init.elf".toUTF8.toList
      ["A:/init.elf".toUTF8.toList] 0 0 0 (loaded 0xD0000014) with
  | .error _ => ⟨emptyKernel, []⟩
  | .ok (init, k) =>
    match Kernel.processRun k init with
    | .error (.enter k _) => ⟨k, []⟩
    | _ => ⟨k, []⟩

theorem bootedRun_reachable : (spawnSystem 0xD0000014).Reachable bootedRun :=
  .init ⟨⟨emptyKernel, 0, 0, 0, loaded 0xD0000014, _, _, rfl, by decide, rfl, rfl⟩, rfl⟩

/-- The run goes on with an interrupt that the kernel comes back from. -/
def SpawnRun.andThen (s : SpawnRun) (i : Interrupt) : SpawnRun :=
  (s.next i (s.kernel.isrStage2 i)).getD s

theorem SpawnRun.reachable_andThen {init : ℕ} {s : SpawnRun} {i : Interrupt}
    (hr : (spawnSystem init).Reachable s) (hp : i.Possible s.kernel)
    (h : (s.next i (s.kernel.isrStage2 i)).isSome) : (spawnSystem init).Reachable (s.andThen i) := by
  obtain ⟨s', hs'⟩ := Option.isSome_iff_exists.1 h
  rw [SpawnRun.andThen, hs']
  exact hr.step ⟨hp, hs'⟩

/-- The registers that are restored. -/
def Outcome.restored : Outcome → Option CpuState
  | .restore _ state => some state
  | _ => none

/-- Init has spawned a child and that one another. -/
def childRun : SpawnRun := (bootedRun.andThen (spawns 0xD0010014)).andThen (spawns 0xD0020014)

/-- It exits with code 263. -/
def resumedRun : SpawnRun := childRun.andThen (exits 263)

theorem childRun_reachable : (spawnSystem 0xD0000014).Reachable childRun := by
  have h := SpawnRun.reachable_andThen (i := spawns 0xD0010014) bootedRun_reachable
    ⟨Or.inr rfl, by decide +kernel⟩ (by decide +kernel)
  exact SpawnRun.reachable_andThen h ⟨Or.inr rfl, by decide +kernel⟩ (by decide +kernel)

/-- The parent of the child that exits goes on behind its spawn call, and learns the low byte of
    the code. -/
theorem spawn_discipline_child :
    childRun.pending = [(0xD0010014, (spawns 0xD0020014).state),
      (0xD0000014, (spawns 0xD0010014).state)] ∧
    (∀ p, (p ∈ childRun.kernel.live ∧ (childRun.kernel.procs p).state = .running) ↔
      p = 0xD0020014) ∧
    childRun.Allowed 0xD0000014 (exits 263) (childRun.kernel.isrStage2 (exits 263)) ∧
    (childRun.kernel.isrStage2 (exits 263)).restored =
      some { (spawns 0xD0020014).state with eax := 7 } ∧
    resumedRun.pending = [(0xD0000014, (spawns 0xD0010014).state)] ∧
    ∀ p, (p ∈ resumedRun.kernel.live ∧ (resumedRun.kernel.procs p).state = .running) ↔
      p = 0xD0010014 := by
  have hresumed : (spawnSystem 0xD0000014).Reachable resumedRun :=
    SpawnRun.reachable_andThen childRun_reachable ⟨Or.inr rfl, by decide +kernel⟩ (by decide +kernel)
  have hchild : childRun.kernel.currentProcess = 0xD0020014 := by decide +kernel
  have hparent : resumedRun.kernel.currentProcess = 0xD0010014 := by decide +kernel
  obtain ⟨hrunning, -, hallowed⟩ := spawn_discipline childRun_reachable
  rw [hchild] at hrunning
  refine ⟨by decide +kernel, hrunning, hallowed _ ⟨Or.inr rfl, by decide +kernel⟩,
    by decide +kernel, by decide +kernel, ?_⟩
  rw [← hparent]
  exact (spawn_discipline hresumed).1

end Ttos
