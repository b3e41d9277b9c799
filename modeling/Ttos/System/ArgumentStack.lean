/-
  The initial stack of a process: what `process_create` writes to it (process.c), and what
  `_start` reads from it (crt0.c).

  * `buildUserStack`: the arguments on the stack page;
  * `arguments_survive`: arguments that fit into the page arrive as they were;
  * `argument_copy_inside`: exactly those are written inside the page;
  * `argument_copy_leaves`: a string of 4096 bytes.
-/
import Ttos.Lib.CString
import Ttos.Lib.DownStack
import Ttos.Memory.UserMapping
import Ttos.Memory.VmmContract
import Ttos.System.Process

namespace Ttos

open DownStack

/-! ## Writing -/

/-- Copy the argument strings, and remember their addresses (`arg_addresses`). -/
def copyArguments (s : DownStack) (argv : List (List UInt8)) : DownStack × List ℕ :=
  argv.foldr (fun arg r =>
    let s := r.1.push (arg ++ [0])
    (s, s.sp :: r.2)) (s, [])

/-- The part of `process_create` that builds the stack; `memory` is the new address space. -/
def buildUserStack (userStackLimit : ℕ) (argv : List (List UInt8)) (memory : Mem) : DownStack :=
  let r := copyArguments ⟨memory, u32 (userStackLimit + pageSize), []⟩ argv
  let s := { r.1 with sp := r.1.sp / 4 * 4 }
  let s := s.push (Mem.bytes32 0)
  let s := r.2.foldr (fun address s => s.push (Mem.bytes32 address)) s
  s.push (Mem.bytes32 argv.length)

/-- What the arguments need of the stack page: the strings, up to a word boundary, and `argc`,
    the pointers and `NULL`. -/
def ArgumentsFit (argv : List (List UInt8)) : Prop :=
  ((argv.map (· ++ [(0 : UInt8)])).flatten.length + 3) / 4 * 4 + 4 * (argv.length + 2) ≤ pageSize

instance (argv : List (List UInt8)) : Decidable (ArgumentsFit argv) :=
  inferInstanceAs (Decidable (_ ≤ _))

/-- `process_create` gets as far as the stack. -/
structure StackReached (a : Kernel.LoadAnswers) : Prop where
  executable : a.fileStat ≠ none ∧ a.executableData ≠ 0 ∧ a.fileRead = a.fileStat
  objects : a.process ≠ 0 ∧ a.name ≠ 0 ∧ a.path ≠ 0
  loaded : a.elfIsValid = true ∧ a.addressSpace ≠ 0 ∧ a.elfLoad = true
  stack : a.userStackLimit ≠ 0 ∧ a.argAddresses ≠ 0

instance (a : Kernel.LoadAnswers) : Decidable (StackReached a) :=
  decidable_of_iff ((a.fileStat ≠ none ∧ a.executableData ≠ 0 ∧ a.fileRead = a.fileStat) ∧
      (a.process ≠ 0 ∧ a.name ≠ 0 ∧ a.path ≠ 0) ∧
      (a.elfIsValid = true ∧ a.addressSpace ≠ 0 ∧ a.elfLoad = true) ∧
      (a.userStackLimit ≠ 0 ∧ a.argAddresses ≠ 0))
    ⟨fun ⟨h1, h2, h3, h4⟩ => ⟨h1, h2, h3, h4⟩, fun ⟨h1, h2, h3, h4⟩ => ⟨h1, h2, h3, h4⟩⟩

/-- The writes of `process_create` to the new stack. -/
def argumentWrites (a : Kernel.LoadAnswers) (argv : List (List UInt8)) (memory : Mem) :
    List (ℕ × ℕ) :=
  if StackReached a then (buildUserStack a.userStackLimit argv memory).writes else []

/-! ## Reading -/

/-- The pointers from `a` on up to a `NULL`. -/
def pointersAt (m : Mem) : ℕ → ℕ → Option (List ℕ)
  | 0, _ => none
  | fuel + 1, a =>
    if m.load32 a = 0 then some [] else (pointersAt m fuel (a + 4)).map (m.load32 a :: ·)

/-- What `_start` calls `main` with: `argc`, and `argv` with the string behind each pointer. -/
def startArguments (m : Mem) (esp : ℕ) : Option (ℕ × List (List UInt8)) :=
  (pointersAt m pageSize (esp + 4)).map fun argv =>
    (m.load32 esp, argv.map fun p => m.string p pageSize)

/-- Where `argc` and `argv`, and then the strings are. -/
def argumentRanges (m : Mem) (esp : ℕ) (argv : List (List UInt8)) : List (ℕ × ℕ) :=
  (esp, 4 * (argv.length + 2)) ::
    List.zipWith (fun p arg => (p, arg.length + 1)) ((pointersAt m pageSize (esp + 4)).getD []) argv

/-- The process finds its arguments on its stack. -/
structure ArgumentsArrive (process : Process) (m : Mem) (argv : List (List UInt8)) : Prop where
  decoded : startArguments m process.context.esp = some (argv.length, argv)
  aligned : process.context.esp % 4 = 0
  inside : ∀ r ∈ argumentRanges m process.context.esp argv,
    process.stackLimit ≤ r.1 ∧ r.1 + r.2 ≤ process.stackBase + 1
  apart : (argumentRanges m process.context.esp argv).Pairwise fun r q => Apart r.1 r.2 q.1 q.2

/-! ## The strings -/

section
variable {s : DownStack} {m : Mem} {argv : List (List UInt8)} {limit : ℕ}

theorem copyArguments_fst (s : DownStack) (argv : List (List UInt8)) :
    (copyArguments s argv).1 = s.pushAll (argv.map (· ++ [0])) := by
  induction argv with
  | nil => rfl
  | cons arg argv ih =>
    rw [List.map_cons, pushAll_cons, ← ih]
    rfl

theorem copyArguments_length (s : DownStack) (argv : List (List UInt8)) :
    (copyArguments s argv).2.length = argv.length := by
  induction argv with
  | nil => rfl
  | cons arg argv ih =>
    show (copyArguments s argv).2.length + 1 = _
    rw [ih, List.length_cons]

theorem copyArguments_cons (s : DownStack) (arg : List UInt8) (argv : List (List UInt8)) :
    copyArguments s (arg :: argv) = ((copyArguments s argv).1.push (arg ++ [0]),
      ((copyArguments s argv).1.push (arg ++ [0])).sp :: (copyArguments s argv).2) := rfl

/-- **The strings** lie one after the other, each where its address says, in every memory that
    agrees with the stack on them. -/
theorem copyArguments_spec (hz : ∀ arg ∈ argv, 0 ∉ arg)
    (h : (argv.map (· ++ [(0 : UInt8)])).flatten.length ≤ s.sp) (hs : s.sp < 4294967296)
    (hm : ∀ x, (copyArguments s argv).1.sp ≤ x → x < s.sp → m x = (copyArguments s argv).1.memory x) :
    List.Forall₂ (fun p arg => m.HasString p arg ∧ (copyArguments s argv).1.sp ≤ p ∧
        p + (arg.length + 1) ≤ s.sp) (copyArguments s argv).2 argv ∧
      (List.zipWith (fun p (arg : List UInt8) => (p, arg.length + 1)) (copyArguments s argv).2
        argv).Pairwise fun r q => Apart r.1 r.2 q.1 q.2 := by
  induction argv with
  | nil => exact ⟨.nil, .nil⟩
  | cons arg argv ih =>
    rw [List.map_cons, List.flatten_cons, List.length_append, List.length_append,
      List.length_singleton] at h
    obtain ⟨hsp, -, -⟩ := pushAll_spec
      (show (argv.map (· ++ [(0 : UInt8)])).flatten.length ≤ s.sp by omega) hs
    rw [← copyArguments_fst] at hsp
    have hfit : (arg ++ [(0 : UInt8)]).length ≤ (copyArguments s argv).1.sp := by
      rw [List.length_append, List.length_singleton]
      omega
    have hlt : (copyArguments s argv).1.sp < 4294967296 := by omega
    have hnew := push_sp hfit hlt
    rw [List.length_append, List.length_singleton] at hnew hfit
    rw [copyArguments_cons] at hm ⊢
    dsimp only at hm ⊢
    have hstring : m.HasString ((copyArguments s argv).1.push (arg ++ [0])).sp arg := by
      refine Mem.hasString_of_hasBytes (hz arg (List.mem_cons_self ..)) fun j hj => ?_
      have hj' := hj
      rw [List.length_append, List.length_singleton] at hj'
      rw [hm _ (Nat.le_add_right _ _) (by omega)]
      exact push_hasBytes (by rw [List.length_append, List.length_singleton]; omega) hlt j hj
    obtain ⟨hall, hpair⟩ := ih (fun a ha => hz a (List.mem_cons_of_mem _ ha)) (by omega)
      fun x hx hx' => by
        rw [hm x (by omega) hx',
          push_above (by rw [List.length_append, List.length_singleton]; omega) hlt hx]
    constructor
    · refine .cons ⟨hstring, Nat.le_refl _, by omega⟩ (hall.imp ?_)
      rintro p arg' ⟨h1, h2, h3⟩
      exact ⟨h1, by omega, h3⟩
    · rw [List.zipWith_cons_cons]
      refine List.pairwise_cons.2 ⟨?_, hpair⟩
      intro q hq
      rw [← List.map_uncurry_zip_eq_zipWith] at hq
      obtain ⟨⟨p, arg'⟩, hp, rfl⟩ := List.mem_map.1 hq
      have hbelow := ((List.forall₂_iff_zip.1 hall).2 hp).2.1
      left
      show ((copyArguments s argv).1.push (arg ++ [0])).sp + (arg.length + 1) ≤ p
      omega

end

/-! ## The pointers -/

section
variable {m : Mem} {a fuel : ℕ} {ps : List ℕ} {argv : List (List UInt8)} {memory : Mem} {limit : ℕ}

theorem flatten_words (ps : List ℕ) : (ps.map Mem.bytes32).flatten.length = 4 * ps.length := by
  induction ps with
  | nil => rfl
  | cons p ps ih =>
    rw [List.map_cons, List.flatten_cons, List.length_append, ih, List.length_cons]
    show 4 + _ = _
    omega

theorem pointersAt_eq (hps : ∀ p ∈ ps, p ≠ 0 ∧ p < 4294967296) (hf : ps.length < fuel)
    (h : m.HasBytes a ((ps.map Mem.bytes32).flatten ++ Mem.bytes32 0)) :
    pointersAt m fuel a = some ps := by
  induction ps generalizing a fuel with
  | nil =>
    obtain ⟨fuel, rfl⟩ := Nat.exists_eq_add_one_of_ne_zero hf.ne'
    have h0 : m.load32 a = 0 := Mem.HasBytes.load32 h (by decide)
    rw [pointersAt, if_pos h0]
  | cons p ps ih =>
    obtain ⟨fuel, rfl⟩ := Nat.exists_eq_add_one_of_ne_zero (Nat.ne_zero_of_lt hf)
    obtain ⟨hp0, hp⟩ := hps p (List.mem_cons_self ..)
    rw [List.map_cons, List.flatten_cons, List.append_assoc, Mem.hasBytes_append] at h
    have hload : m.load32 a = p := Mem.HasBytes.load32 h.1 hp
    have hrest : m.HasBytes (a + 4) ((ps.map Mem.bytes32).flatten ++ Mem.bytes32 0) := h.2
    rw [pointersAt, hload, if_neg hp0,
      ih (fun q hq => hps q (List.mem_cons_of_mem _ hq)) (Nat.lt_of_succ_lt_succ hf) hrest]
    rfl

/-- The words on the stack: `argc`, the pointers and `NULL`. -/
def stackWords (argc : ℕ) (addresses : List ℕ) : List ℕ := argc :: (addresses ++ [0])

/-- The stack is the strings, and then the words from a word boundary on. -/
theorem buildUserStack_eq (limit : ℕ) (argv : List (List UInt8)) (memory : Mem) :
    let r := copyArguments ⟨memory, u32 (limit + pageSize), []⟩ argv
    buildUserStack limit argv memory = pushAll { r.1 with sp := r.1.sp / 4 * 4 }
      ((stackWords argv.length r.2).map Mem.bytes32) := by
  intro r
  rw [stackWords, List.map_cons, pushAll_cons, List.map_append, pushAll_append, buildUserStack]
  congr 1
  rw [pushAll, List.foldr_map]
  rfl

theorem copyArguments_sp (s : DownStack) (argv : List (List UInt8)) :
    (copyArguments s argv).1.sp =
      argv.foldr (fun arg esp => sub32 esp (arg.length + 1)) s.sp := by
  induction argv with
  | nil => rfl
  | cons arg argv ih =>
    rw [List.foldr_cons, ← ih, copyArguments_cons]
    show sub32 _ (arg ++ [0]).length = _
    rw [List.length_append, List.length_singleton]

theorem pushWords_sp (s : DownStack) (ps : List ℕ) {argv : List (List UInt8)}
    (h : ps.length = argv.length) :
    (ps.foldr (fun p s => s.push (Mem.bytes32 p)) s).sp =
      argv.foldr (fun _ esp => sub32 esp 4) s.sp := by
  induction ps generalizing argv with
  | nil =>
    obtain rfl := List.length_eq_zero_iff.1 h.symm
    rfl
  | cons p ps ih =>
    cases argv with
    | nil => cases h
    | cons arg argv =>
      rw [List.foldr_cons, List.foldr_cons, ← ih (Nat.succ.inj h)]
      rfl

/-- The stack pointer is the one of `Kernel.processCreate`. -/
theorem buildUserStack_sp (limit : ℕ) (argv : List (List UInt8)) (memory : Mem) :
    (buildUserStack limit argv memory).sp = Kernel.userEsp limit argv := by
  rw [buildUserStack, Kernel.userEsp]
  show sub32 (DownStack.sp _) 4 = sub32 _ 4
  obtain ⟨s, hs, hsp⟩ : ∃ s : DownStack, s = ⟨memory, u32 (limit + pageSize), []⟩ ∧
      s.sp = u32 (limit + pageSize) := ⟨_, rfl, rfl⟩
  rw [← hs, ← hsp, pushWords_sp _ _ (copyArguments_length _ argv), ← copyArguments_sp]
  rfl

/-- What the words need in bytes. -/
theorem stackWords_length (s : DownStack) (argv : List (List UInt8)) :
    ((stackWords argv.length (copyArguments s argv).2).map Mem.bytes32).flatten.length =
      4 * (argv.length + 2) := by
  rw [flatten_words, stackWords, List.length_cons, List.length_append, copyArguments_length,
    List.length_singleton]

end

/-! ## The stack page -/

/-- The stack page is one that `vmm_map_memory` found. -/
structure StackPage (limit : ℕ) : Prop where
  aligned : limit % 4096 = 0
  lower : 4096 ≤ limit
  upper : limit + 4096 ≤ 3221225472

section
variable {σ : Type} [Allocator σ] {vm vm' : Vm σ} {limit : ℕ} {argv : List (List UInt8)}
  {memory : Mem}

theorem stackPage_of_map (hm : vm.vmmMapMemory 0 pageSize 0 false true = .ok (limit, vm'))
    (h0 : limit ≠ 0) : StackPage limit := by
  obtain ⟨a, ha, hla⟩ := vmmMapMemory_place hm h0
  obtain ⟨ha0, -, -⟩ := Vm.vmmPlace_spec ha
  rw [Vm.vmmPlace, if_neg (fun hc => hc rfl)] at ha
  cases hf : vm.vmmFindFreeMemory pageSize false with
  | error e => rw [hf] at ha; cases ha
  | ok b =>
    rw [hf] at ha
    simp only at ha
    split at ha
    · cases ha
    · obtain rfl : b = a := Except.ok.inj ha
      have hfree := Vm.freeRange_user (by decide) (by decide) hf ha0
      have hal := hfree.aligned
      have hstart : 4096 ≤ b := hfree.start
      have hstop : b + 4096 * 1 ≤ 3221225472 := hfree.stop
      have hlimit : limit = b := by
        rw [hla]
        unfold vmmAlignDown
        omega
      subst hlimit
      exact ⟨hal, hstart, by omega⟩

/-- The stack pointer at the end of the page. -/
theorem StackPage.top (h : StackPage limit) (memory : Mem) :
    ∃ s : DownStack, s = ⟨memory, u32 (limit + pageSize), []⟩ ∧ s.sp = limit + 4096 ∧
      s.writes = [] := by
  have hup := h.upper
  refine ⟨_, rfl, u32_of_lt ?_, rfl⟩
  simp only [pageSize]
  omega

/-- **The writes stay on the stack page exactly when the arguments fit.** -/
theorem buildUserStack_inside (hp : StackPage limit) (argv : List (List UInt8)) (memory : Mem) :
    (∀ w ∈ (buildUserStack limit argv memory).writes, WriteInside limit pageSize w) ↔
      ArgumentsFit argv := by
  obtain ⟨s, hs, htop, hnone⟩ := hp.top memory
  obtain ⟨hal, hlo, hup⟩ := hp
  have hpage : pageSize = 4096 := rfl
  have hstrings : (∀ w ∈ (s.pushAll (argv.map (· ++ [0]))).writes, WriteInside limit pageSize w) ↔
      (∀ w ∈ s.writes, WriteInside limit pageSize w) ∧
        (argv.map (· ++ [(0 : UInt8)])).flatten.length ≤ s.sp - limit :=
    pushAll_inside_iff (by omega) (by omega) (by omega) (by omega)
  rw [← copyArguments_fst, hnone, htop,
    and_iff_right (fun w hw => absurd hw List.not_mem_nil)] at hstrings
  rw [buildUserStack_eq, ← hs]
  dsimp only
  rw [ArgumentsFit]
  by_cases hfit : (argv.map (· ++ [(0 : UInt8)])).flatten.length ≤ 4096
  · have hsp := (pushAll_spec
      (show (argv.map (· ++ [(0 : UInt8)])).flatten.length ≤ s.sp by omega) (by omega)).1
    rw [← copyArguments_fst] at hsp
    have hwords := stackWords_length s argv
    rw [pushAll_inside_iff (by omega) (by omega) (show limit ≤ (copyArguments s argv).1.sp / 4 * 4
      by omega) (show (copyArguments s argv).1.sp / 4 * 4 ≤ _ by omega), hstrings, hwords]
    show _ ∧ _ ≤ (copyArguments s argv).1.sp / 4 * 4 - limit ↔ _
    omega
  · refine iff_of_false (fun h => hfit ?_) (by omega)
    have hmem := hstrings.1 fun w hw => h w (mem_pushAll_writes hw)
    omega

/-- **Arguments that fit** are decoded as they were, from a stack pointer at a word boundary;
    the words and the strings are on the page, one behind the other. -/
theorem buildUserStack_spec (hp : StackPage limit) (hz : ∀ arg ∈ argv, 0 ∉ arg)
    (hfit : ArgumentsFit argv) (memory : Mem) :
    let s := buildUserStack limit argv memory
    startArguments s.memory s.sp = some (argv.length, argv) ∧ s.sp % 4 = 0 ∧
      (∀ r ∈ argumentRanges s.memory s.sp argv, limit ≤ r.1 ∧ r.1 + r.2 ≤ limit + 4096) ∧
      (argumentRanges s.memory s.sp argv).Pairwise fun r q => Apart r.1 r.2 q.1 q.2 := by
  obtain ⟨s, hs, htop, -⟩ := hp.top memory
  obtain ⟨hal, hlo, hup⟩ := hp
  have hpage : pageSize = 4096 := rfl
  rw [ArgumentsFit, hpage] at hfit
  have hsp := (pushAll_spec
    (show (argv.map (· ++ [(0 : UInt8)])).flatten.length ≤ s.sp by omega) (by omega)).1
  rw [← copyArguments_fst] at hsp
  have hwords := stackWords_length s argv
  rw [buildUserStack_eq, ← hs]
  dsimp only
  -- the stack below the strings
  obtain ⟨t, ht, htsp, htm⟩ : ∃ t : DownStack,
      t = { (copyArguments s argv).1 with sp := (copyArguments s argv).1.sp / 4 * 4 } ∧
      t.sp = (copyArguments s argv).1.sp / 4 * 4 ∧ t.memory = (copyArguments s argv).1.memory :=
    ⟨_, rfl, rfl, rfl⟩
  rw [← ht]
  obtain ⟨hend, hbytes, habove⟩ := pushAll_spec
    (show ((stackWords argv.length (copyArguments s argv).2).map Mem.bytes32).flatten.length ≤ t.sp
      by omega) (by omega)
  obtain ⟨u, hu⟩ : ∃ u, u = t.pushAll
      ((stackWords argv.length (copyArguments s argv).2).map Mem.bytes32) := ⟨_, rfl⟩
  rw [← hu] at hend hbytes habove ⊢
  obtain ⟨hall, hpair⟩ := copyArguments_spec (s := s) (m := u.memory) hz (by omega) (by omega)
    fun x hx _ => by rw [habove x (by omega), htm]
  rw [stackWords, List.map_cons, List.flatten_cons, Mem.hasBytes_append, List.map_append,
    List.flatten_append] at hbytes
  have hargc : u.memory.load32 u.sp = argv.length := Mem.HasBytes.load32 hbytes.1 (by omega)
  have hlen := copyArguments_length s argv
  have hpointers : pointersAt u.memory pageSize (u.sp + 4) = some (copyArguments s argv).2 := by
    have hnonzero : List.Forall₂ (fun p (_ : List UInt8) => (p ≠ 0 ∧ p < 4294967296) ∧ True)
        (copyArguments s argv).2 argv := hall.imp fun p arg h => ⟨by omega, trivial⟩
    exact pointersAt_eq ((List.forall₂_and_left ..).1 hnonzero).1 (by omega) hbytes.2
  have hstrings : (copyArguments s argv).2.map (fun p => u.memory.string p pageSize) = argv := by
    have heq : List.Forall₂ (fun p arg => u.memory.string p pageSize = arg)
        (copyArguments s argv).2 argv :=
      hall.imp fun p arg h => Mem.string_of_hasString h.1 (by omega)
    rwa [← List.forall₂_map_left_iff, List.forall₂_eq_eq_eq] at heq
  have hranges : argumentRanges u.memory u.sp argv = (u.sp, 4 * (argv.length + 2)) ::
      List.zipWith (fun p (arg : List UInt8) => (p, arg.length + 1)) (copyArguments s argv).2 argv := by
    rw [argumentRanges, hpointers, Option.getD_some]
  have hmem : ∀ r ∈ List.zipWith (fun p (arg : List UInt8) => (p, arg.length + 1))
      (copyArguments s argv).2 argv, (copyArguments s argv).1.sp ≤ r.1 ∧ r.1 + r.2 ≤ s.sp := by
    intro r hr
    rw [← List.map_uncurry_zip_eq_zipWith] at hr
    obtain ⟨⟨p, arg⟩, hp, rfl⟩ := List.mem_map.1 hr
    exact ((List.forall₂_iff_zip.1 hall).2 hp).2
  refine ⟨?_, by omega, ?_, ?_⟩
  · rw [startArguments, hpointers, hargc, Option.map_some, hstrings]
  · rw [hranges]
    intro r hr
    rcases List.mem_cons.1 hr with rfl | hr
    · dsimp only
      omega
    · have := hmem r hr
      omega
  · rw [hranges]
    refine List.pairwise_cons.2 ⟨fun r hr => ?_, hpair⟩
    have := hmem r hr
    left
    dsimp only
    omega

end

/-! ## Creating a process -/

section
variable {k k' : Kernel} {name path : List UInt8} {argv : List (List UInt8)} {out inp err p : ℕ}
  {a : Kernel.LoadAnswers}

/-- What `process_create` returns when it gets as far as the stack. -/
theorem processCreate_reached (k : Kernel) (name path : List UInt8) (argv : List (List UInt8))
    (out inp err : ℕ) (h : StackReached a) :
    ∃ k', k.processCreate name path argv out inp err a = .ok (a.process, k') ∧
      (k'.procs a.process).context.esp = Kernel.userEsp a.userStackLimit argv ∧
      (k'.procs a.process).stackLimit = a.userStackLimit ∧
      (k'.procs a.process).stackBase = a.userStackLimit + pageSize - 1 := by
  obtain ⟨⟨h1, h2, h3⟩, ⟨h4, h5, h6⟩, ⟨h7, h8, h9⟩, h10, h11⟩ := h
  obtain ⟨size, hsize⟩ := Option.ne_none_iff_exists'.1 h1
  rw [hsize] at h3
  rw [Kernel.processCreate, hsize]
  simp only [if_neg h2, h3, ne_eq, not_true_eq_false, if_false, if_neg h4, h5, h6, or_self, h7,
    Bool.not_true, Bool.false_eq_true, if_neg h8, h9, if_neg h10, if_neg h11]
  exact ⟨_, rfl, by simp [Kernel.modify], by simp [Kernel.modify], by simp [Kernel.modify]⟩

/-- Otherwise it returns `NULL` or does not return. -/
theorem processCreate_null (h : ¬ StackReached a)
    (hr : k.processCreate name path argv out inp err a = .ok (p, k')) : p = 0 := by
  by_contra hp
  refine h ?_
  unfold Kernel.processCreate at hr
  cases hs : a.fileStat with
  | none =>
    rw [hs] at hr
    exact absurd (Prod.mk.inj (Except.ok.inj hr)).1.symm hp
  | some size =>
    rw [hs] at hr
    have hnull : ∀ x : Kernel, (Except.ok (0, x) : Except Outcome (ℕ × Kernel)) ≠ .ok (p, k') :=
      fun x hx => hp (Prod.mk.inj (Except.ok.inj hx)).1.symm
    obtain ⟨h1, hr⟩ := else_of_ite_ok hr nofun
    obtain ⟨h2, hr⟩ := else_of_ite_ok hr (hnull _)
    obtain ⟨h3, hr⟩ := else_of_ite_ok hr nofun
    obtain ⟨h4, hr⟩ := else_of_ite_ok hr nofun
    obtain ⟨h5, hr⟩ := else_of_ite_ok hr (hnull _)
    obtain ⟨h6, hr⟩ := else_of_ite_ok hr (hnull _)
    obtain ⟨h7, hr⟩ := else_of_ite_ok hr (hnull _)
    obtain ⟨h8, hr⟩ := else_of_ite_ok hr nofun
    obtain ⟨h9, -⟩ := else_of_ite_ok hr nofun
    rw [not_or] at h4
    rw [Bool.not_eq_true', Bool.not_eq_false] at h5 h7
    exact ⟨⟨by simp [hs], h1, by rw [hs]; exact not_not.1 h2⟩, ⟨h3, h4⟩, ⟨h5, h6, h7⟩, h8, h9⟩

end

section
variable {σ : Type} [Allocator σ] {vm vm' : Vm σ} {k k' : Kernel} {name path : List UInt8}
  {argv : List (List UInt8)} {out inp err p : ℕ} {a : Kernel.LoadAnswers}

/-- **Arguments survive**: the process created finds on its stack what was passed, if it fits
    into a page. -/
theorem arguments_survive
    (hm : vm.vmmMapMemory 0 pageSize 0 false true = .ok (a.userStackLimit, vm'))
    (hz : ∀ arg ∈ argv, 0 ∉ arg) (hfit : ArgumentsFit argv) (memory : Mem)
    (hr : k.processCreate name path argv out inp err a = .ok (p, k')) (hp : p ≠ 0) :
    ArgumentsArrive (k'.procs p) (buildUserStack a.userStackLimit argv memory).memory argv := by
  have hreach : StackReached a := by
    by_contra h
    exact hp (processCreate_null h hr)
  obtain ⟨k₁, hr₁, hesp, hlimit, hbase⟩ := processCreate_reached k name path argv out inp err
    hreach
  obtain ⟨rfl, rfl⟩ := Prod.mk.inj (Except.ok.inj (hr.symm.trans hr₁))
  have hpage := stackPage_of_map hm hreach.stack.1
  obtain ⟨h1, h2, h3, h4⟩ := buildUserStack_spec hpage hz hfit memory
  rw [buildUserStack_sp, ← hesp] at h1 h2 h3 h4
  refine ⟨h1, h2, fun r hin => ?_, h4⟩
  have := h3 r hin
  rw [hlimit, hbase]
  simp only [pageSize]
  omega

/-- **Argument copying stays on the stack page exactly when the arguments fit**, or
    `process_create` does not get that far. -/
theorem argument_copy_inside
    (hm : vm.vmmMapMemory 0 pageSize 0 false true = .ok (a.userStackLimit, vm'))
    (k : Kernel) (name path : List UInt8) (argv : List (List UInt8)) (out inp err : ℕ)
    (memory : Mem) :
    ((∃ k', k.processCreate name path argv out inp err a = .ok (0, k')) ∨
      ∀ w ∈ argumentWrites a argv memory, WriteInside a.userStackLimit pageSize w) ↔
    (StackReached a → ArgumentsFit argv) := by
  by_cases hreach : StackReached a
  · have hpage := stackPage_of_map hm hreach.stack.1
    rw [argumentWrites, if_pos hreach, buildUserStack_inside hpage, imp_iff_right hreach]
    refine or_iff_right ?_
    rintro ⟨k', hr⟩
    obtain ⟨k₁, hr₁, -⟩ := processCreate_reached k name path argv out inp err hreach
    exact hreach.objects.1 (Prod.mk.inj (Except.ok.inj (hr₁.symm.trans hr))).1
  · rw [argumentWrites, if_neg hreach]
    exact iff_of_true (.inr fun w hw => absurd hw List.not_mem_nil) fun h => absurd h hreach

end

/-! ## Two processes -/

/-- Everything goes well, with the stack at the first page. -/
def goodAnswers : Kernel.LoadAnswers where
  fileStat := some 84
  executableData := 0xC0100000
  fileRead := some 84
  process := 0xC0200000
  name := 0xC0200200
  path := 0xC0200300
  elfIsValid := true
  addressSpace := 0xC0300000
  elfLoad := true
  userStackLimit := 0x1000
  argAddresses := 0xC0200400
  entryPoint := 0x400000

/-- The kernel before its first process. -/
def firstKernel : Kernel := ⟨fun _ => default, [], 0, 1, 0, 0, ⟨false, false⟩⟩

theorem goodAnswers_map : ∃ vm' : Vm KernelHeap,
    emptyVm.vmmMapMemory 0 pageSize 0 false true = .ok (goodAnswers.userStackLimit, vm') := by
  obtain ⟨⟨r, vm'⟩, h, hr⟩ := exists_of_check (x := emptyVm.vmmMapMemory 0 pageSize 0 false true)
    (P := fun res => res.1 == goodAnswers.userStackLimit) (by decide +kernel)
  obtain rfl : r = goodAnswers.userStackLimit := by simpa using hr
  exact ⟨vm', h⟩

theorem arguments_survive_two : ∃ k' p, p ≠ 0 ∧
    firstKernel.processCreate [0x73] [0x2F, 0x73] [[0x2F, 0x73], [0x78]] 1 2 3 goodAnswers =
      .ok (p, k') ∧
    ArgumentsArrive (k'.procs p)
      (buildUserStack goodAnswers.userStackLimit [[0x2F, 0x73], [0x78]] fun _ => 0).memory
      [[0x2F, 0x73], [0x78]] := by
  obtain ⟨vm', hm⟩ := goodAnswers_map
  obtain ⟨k', hr, -⟩ := processCreate_reached firstKernel [0x73] [0x2F, 0x73]
    [[0x2F, 0x73], [0x78]] 1 2 3 (show StackReached goodAnswers by decide)
  exact ⟨k', goodAnswers.process, by decide, hr,
    arguments_survive hm (by decide) (by decide) (fun _ => 0) hr (by decide)⟩

theorem argument_copy_inside_two :
    (∃ k', firstKernel.processCreate [0x73] [0x2F, 0x73] [[0x2F, 0x73], [0x78]] 1 2 3
      goodAnswers = .ok (0, k')) ∨
    ∀ w ∈ argumentWrites goodAnswers [[0x2F, 0x73], [0x78]] fun _ => 0,
      WriteInside goodAnswers.userStackLimit pageSize w := by
  obtain ⟨vm', hm⟩ := goodAnswers_map
  exact (argument_copy_inside hm firstKernel [0x73] [0x2F, 0x73] [[0x2F, 0x73], [0x78]] 1 2 3
    fun _ => 0).2 fun _ => by decide

/-- **A string of 4096 bytes** does not fit on the page with its end. -/
theorem argument_copy_leaves :
    ¬ ((∃ k', firstKernel.processCreate [0x73] [0x2F, 0x73] [List.replicate 4096 0x78] 1 2 3
        goodAnswers = .ok (0, k')) ∨
      ∀ w ∈ argumentWrites goodAnswers [List.replicate 4096 0x78] fun _ => 0,
        WriteInside goodAnswers.userStackLimit pageSize w) := by
  have hreach : StackReached goodAnswers := by decide
  have hpage : StackPage goodAnswers.userStackLimit := ⟨by decide, by decide, by decide⟩
  rintro (⟨k', hr⟩ | hw)
  · obtain ⟨k₁, hr₁, -⟩ := processCreate_reached firstKernel [0x73] [0x2F, 0x73]
      [List.replicate 4096 0x78] 1 2 3 hreach
    exact hreach.objects.1 (Prod.mk.inj (Except.ok.inj (hr₁.symm.trans hr))).1
  · rw [argumentWrites, if_pos hreach, buildUserStack_inside hpage, ArgumentsFit] at hw
    simp only [List.map_cons, List.map_nil, List.flatten_cons, List.flatten_nil,
      List.length_append, List.length_replicate, List.length_cons, List.length_nil, pageSize] at hw
    omega

end Ttos
