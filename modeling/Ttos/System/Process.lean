/-
  Processes (process.c, process.h).

  The process objects live in the kernel heap; `Kernel` holds them by address,
  with the static variables of process.c and vmm.c that they depend on.  What
  `process_create` gets from the file system, the loader and the heap is its
  input `LoadAnswers`.  Functions that may not come back return
  `Except Outcome`: `.error` is where control went instead.
-/
import Ttos.Lib.Word
import Ttos.Memory.Layout
import Ttos.System.Keyboard
import Mathlib.Logic.Function.Basic

namespace Ttos

/-! ## Process objects -/

/-- The frame the interrupt stub saves (`isr_cpu_state_t`). -/
structure CpuState where
  ds : ℕ
  edi : ℕ
  esi : ℕ
  ebp : ℕ
  esp : ℕ
  ebx : ℕ
  edx : ℕ
  ecx : ℕ
  eax : ℕ
  interruptCode : ℕ
  errorCode : ℕ
  eip : ℕ
  cs : ℕ
  eflags : ℕ
  useresp : ℕ
  ss : ℕ
deriving DecidableEq, Repr, Inhabited

/-- `process_state_t` -/
inductive ProcessState where
  | ready
  | running
  | exited
  | waiting
deriving DecidableEq, Repr, Inhabited

/-- The fields of `process_context_t` that are set and read. -/
structure ProcessContext where
  esp : ℕ
  eip : ℕ
  eflags : ℕ
deriving DecidableEq, Repr, Inhabited

/-- `PROCESS_MAX_FILE_DESCRIPTORS` -/
abbrev processMaxFileDescriptors : ℕ := 32

/-- `process_t`.  `exitCode` and `exceptionCode` are `int32_t`. -/
structure Process where
  pid : ℕ
  name : List UInt8
  path : List UInt8
  state : ProcessState
  addressSpace : ℕ
  context : ProcessContext
  parent : ℕ
  savedState : CpuState
  stackBase : ℕ
  stackLimit : ℕ
  heapBase : ℕ
  heapLimit : ℕ
  out : ℕ
  inp : ℕ
  err : ℕ
  files : List ℕ
  exitCode : ℕ
  exceptionCode : Int
deriving Inhabited

/-- The processes and what they share.  `live` lists the process objects that
    were allocated and not freed. -/
structure Kernel where
  procs : ℕ → Process
  live : List ℕ
  currentProcess : ℕ
  nextPid : ℕ
  currentPageDirectory : ℕ
  kernelPageDirectory : ℕ
  modifiers : Modifiers

/-- Reasons to stop the kernel. -/
inductive Panic where
  | kheapOutOfMemory
  | vmmOutOfUserSpaceMemory
  | initDied
  | cpuException (code : ℕ)
deriving DecidableEq, Repr

/-- Where control goes at the end of an interrupt: the kernel stops or hangs, the
    handler returns with the registers `state`, a saved state is restored, or a
    new process is entered. -/
inductive Outcome where
  | panic (why : Panic)
  | hang
  | ret (k : Kernel) (state : CpuState)
  | restore (k : Kernel) (state : CpuState)
  | enter (k : Kernel) (context : ProcessContext)

/-- The code segment the interrupt gates run in. -/
abbrev kernelCsSelector : ℕ := 0x08

/-- `USER_CS_SELECTOR` -/
abbrev userCsSelector : ℕ := 0x1B

namespace Kernel

/-- Change the process object at `p`. -/
def modify (k : Kernel) (p : ℕ) (f : Process → Process) : Kernel :=
  { k with procs := Function.update k.procs p (f (k.procs p)) }

/-- `vmm_switch_address_space` -/
def switchAddressSpace (k : Kernel) (space : ℕ) : Kernel := { k with currentPageDirectory := space }

/-! ## Creating a process -/

/-- What `process_create` gets from the functions it calls: `0` stands for
    `NULL`, `none` for an error. -/
structure LoadAnswers where
  fileStat : Option ℕ
  executableData : ℕ
  fileRead : Option ℕ
  process : ℕ
  name : ℕ
  path : ℕ
  elfIsValid : Bool
  addressSpace : ℕ
  elfLoad : Bool
  userStackLimit : ℕ
  argAddresses : ℕ
  entryPoint : ℕ

/-- The initial stack pointer: the argument strings, the `argv` array with its
    terminator, and `argc`. -/
def userEsp (userStackLimit : ℕ) (argv : List (List UInt8)) : ℕ :=
  let esp := u32 (userStackLimit + pageSize)
  let esp := argv.foldr (fun arg esp => sub32 esp (arg.length + 1)) esp
  let esp := esp / 4 * 4
  let esp := sub32 esp 4
  let esp := argv.foldr (fun _ esp => sub32 esp 4) esp
  sub32 esp 4

/-- `process_create`: the new process, or `NULL`.  A failed `file_open` is not
    noticed (the pointer is compared with `< 0`) and shows up as a failed read. -/
def processCreate (k : Kernel) (name path : List UInt8) (argv : List (List UInt8))
    (out inp err : ℕ) (a : LoadAnswers) : Except Outcome (ℕ × Kernel) :=
  match a.fileStat with
  | none => .ok (0, k)
  | some size =>
    if a.executableData = 0 then .error (.panic .kheapOutOfMemory)
    else if a.fileRead ≠ some size then .ok (0, k)
    else if a.process = 0 then .error (.panic .kheapOutOfMemory)
    else
      let pid := k.nextPid
      let k := { k with live := a.process :: k.live, nextPid := k.nextPid + 1 }
      if a.name = 0 ∨ a.path = 0 then .error (.panic .kheapOutOfMemory)
      else if !a.elfIsValid then .ok (0, { k with live := k.live.erase a.process })
      else
        let formerAddressSpace := k.currentPageDirectory
        if a.addressSpace = 0 then .ok (0, { k with live := k.live.erase a.process })
        else
          let k := k.switchAddressSpace a.addressSpace
          if !a.elfLoad then
            let k := { k with live := k.live.erase a.process }
            .ok (0, k.switchAddressSpace formerAddressSpace)
          else if a.userStackLimit = 0 then .error (.panic .vmmOutOfUserSpaceMemory)
          else if a.argAddresses = 0 then .error (.panic .kheapOutOfMemory)
          else
            let k := k.switchAddressSpace formerAddressSpace
            .ok (a.process, k.modify a.process fun p =>
              { p with
                pid := pid, name := name, path := path, state := .ready,
                addressSpace := a.addressSpace,
                stackBase := a.userStackLimit + pageSize - 1, stackLimit := a.userStackLimit,
                heapBase := 0, heapLimit := 0,
                context := ⟨userEsp a.userStackLimit argv, a.entryPoint, 0x200⟩,
                out := out, inp := inp, err := err,
                files := List.replicate processMaxFileDescriptors 0,
                parent := 0, exitCode := 0, exceptionCode := -1 })

/-! ## Running and ending a process -/

/-- `process_run`: does nothing for a process that is not ready. -/
def processRun (k : Kernel) (p : ℕ) : Except Outcome Kernel :=
  if (k.procs p).state ≠ .ready then .ok k
  else
    let k := { k with currentProcess := p }
    let k := k.modify p fun p => { p with state := .running }
    let k := k.switchAddressSpace (k.procs p).addressSpace
    .error (.enter k (k.procs p).context)

/-- `process_destroy`; `vmm_destroy_address_space` leaves the kernel's page
    directory active. -/
def processDestroy (k : Kernel) (p : ℕ) : Kernel :=
  { k with currentPageDirectory := k.kernelPageDirectory, live := k.live.erase p }

/-- `process_terminate`: resume the parent with the outcome as its `eax`. -/
def processTerminate (k : Kernel) (p : ℕ) : Outcome :=
  let exitCode := (k.procs p).exitCode
  let exceptionCode := (k.procs p).exceptionCode
  let parent := (k.procs p).parent
  let k := processDestroy k p
  if parent ≠ 0 then
    let k := k.switchAddressSpace (k.procs parent).addressSpace
    let k := { k with currentProcess := parent }
    let k := k.modify parent fun p => { p with state := .running }
    let eax := if exceptionCode ≠ -1 then ((128 + exceptionCode) % 4294967296).toNat else exitCode % 256
    let k := k.modify parent fun p => { p with savedState := { p.savedState with eax := eax } }
    .restore k (k.procs parent).savedState
  else .panic .initDied

/-- `process_kill_current` -/
def processKillCurrent (k : Kernel) (exitCode : ℕ) : Except Outcome Kernel :=
  if k.currentProcess = 0 then .ok k
  else
    let k := k.modify k.currentProcess fun p => { p with exitCode := exitCode, exceptionCode := -1 }
    .error (processTerminate k k.currentProcess)

end Kernel

end Ttos
