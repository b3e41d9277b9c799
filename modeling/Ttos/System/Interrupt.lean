/-
  The ways into the kernel that concern processes: the spawn and exit system
  calls (syscall.c), CPU exceptions (isr_stage2.c) and the keyboard's Ctrl+C
  (tty.c).  `isrStage2` is the common entry.
-/
import Ttos.System.Process

namespace Ttos

/-- `SYSCALL_EXIT` -/
abbrev syscallExitNumber : ℕ := 0x0B

/-- `SYSCALL_SPAWN` -/
abbrev syscallSpawnNumber : ℕ := 0x19

/-- `KEYBOARD_INTERRUPT` -/
abbrev keyboardInterrupt : ℕ := 33

/-- `SYSCALL_INTERRUPT` -/
abbrev syscallInterrupt : ℕ := 0x80

/-- The `uint32_t` value of `-1`. -/
abbrev minusOne : ℕ := 0xFFFFFFFF

/-- What the spawn system call finds in user memory and gets from the heap. -/
structure SpawnAnswers where
  userPath : List UInt8
  userArgv : List (List UInt8)
  kernelPath : ℕ
  kernelArgv : ℕ
  kernelArg : ℕ → ℕ
  load : Kernel.LoadAnswers

/-- An interrupt: the saved registers, and what the kernel finds when it handles it. -/
structure Interrupt where
  state : CpuState
  spawn : SpawnAnswers
  key : KeyboardEvent
  other : ℕ

namespace Kernel

/-- `syscall_spawn` -/
def syscallSpawn (k : Kernel) (state : CpuState) (a : SpawnAnswers) : Except Outcome (ℕ × Kernel) :=
  let parent := k.currentProcess
  if parent = 0 ∨ state.ebx = 0 then .ok (minusOne, k)
  else if a.kernelPath = 0 then .ok (minusOne, k)
  else if a.kernelArgv = 0 then .ok (minusOne, k)
  else if (List.range a.userArgv.length).any (fun index => a.kernelArg index = 0) then
    .ok (minusOne, k)
  else do
    let k := k.modify parent fun p => { p with savedState := state }
    let (child, k) ← processCreate k "child".toUTF8.toList a.userPath a.userArgv
      (k.procs parent).out (k.procs parent).inp (k.procs parent).err a.load
    if child = 0 then .ok (minusOne, k)
    else do
      let k := k.modify child fun p => { p with parent := parent }
      let k := k.modify parent fun p => { p with state := .waiting }
      let k ← processRun k child
      .ok (0, k)

/-- `syscall_exit`: does not return; without a process it spins. -/
def syscallExit (k : Kernel) (state : CpuState) : Outcome :=
  if k.currentProcess ≠ 0 then
    let k := k.modify k.currentProcess fun p => { p with exitCode := state.ebx, exceptionCode := -1 }
    processTerminate k k.currentProcess
  else .hang

/-- `syscall_handler`; the calls that do not concern processes return `other`. -/
def syscallHandler (k : Kernel) (i : Interrupt) : Outcome :=
  if i.state.eax = syscallExitNumber then syscallExit k i.state
  else if i.state.eax = syscallSpawnNumber then
    match syscallSpawn k i.state i.spawn with
    | .ok (eax, k) => .ret k { i.state with eax := eax }
    | .error o => o
  else .ret k { i.state with eax := i.other }

/-- `tty_keyboard_listener`, without the terminal's input buffer. -/
def ttyKeyboardListener (k : Kernel) (event : KeyboardEvent) : Except Outcome Kernel :=
  let r := ttyDecode k.modifiers event
  let k := { k with modifiers := r.1 }
  if r.2 = .interrupt then
    let current := k.currentProcess
    if current ≠ 0 ∧ (k.procs current).parent ≠ 0 ∧ (k.procs (k.procs current).parent).parent ≠ 0 then
      processKillCurrent k 130
    else .ok k
  else .ok k

/-- `isr_stage2`.  No listener is registered for the exceptions.  The test for
    user mode is written `cs & 0x3 == 3`, which is `cs & (0x3 == 3)`. -/
def isrStage2 (k : Kernel) (i : Interrupt) : Outcome :=
  if i.state.interruptCode = syscallInterrupt then syscallHandler k i
  else if i.state.interruptCode = keyboardInterrupt then
    match ttyKeyboardListener k i.key with
    | .ok k => .ret k i.state
    | .error o => o
  else if i.state.interruptCode < 32 then
    if i.state.cs &&& (if 0x3 = 3 then 1 else 0) ≠ 0 ∧ k.currentProcess ≠ 0 then
      let k := k.modify k.currentProcess fun p => { p with exceptionCode := i.state.interruptCode }
      processTerminate k k.currentProcess
    else .panic (.cpuException i.state.interruptCode)
  else .ret k i.state

end Kernel

end Ttos
