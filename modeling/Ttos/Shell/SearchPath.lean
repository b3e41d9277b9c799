/-
  The commands of the shell (userland/shell): `path`, which edits the directories a
  program is looked for in, and the search itself.

  The model of memory is that of `History.lean`; `spawn` may answer by all that
  happened before.

  * `pathCommand`, `candidates`, `spawnFirst`: what the commands are for.
  * `shellPath_spec`, `shellRun_spec`: the code does that, within its arrays.
-/
import Ttos.Shell.History
import Ttos.Shell.Tokens
import Ttos.Util.StringRows

namespace Ttos

def shellPathMax : ℕ := 128

def shellMaxPaths : ℕ := 8

/-- What the commands of the shell do to the outside, in order. -/
inductive ShellEvent where
  | printed (text : List UInt8)
  | spawned (path : List UInt8) (argv : List (List UInt8)) (status : ℤ)
deriving DecidableEq, Repr

/-- The answers of `spawn`, to a path and an argument vector after what happened before. -/
abbrev Spawn := List ShellEvent → List UInt8 → List (List UInt8) → ℤ

/-- Where the arrays of the shell lie.  `query` is on the stack while `shell_path` runs,
    `candidate` and `withExtension` are while `shell_run` does. -/
structure ShellArrays where
  history : ℕ
  searchPaths : ℕ
  line : ℕ
  query : ℕ
  candidate : ℕ
  withExtension : ℕ
  line_ne : line ≠ 0
  searchPaths_ne : searchPaths ≠ 0
  candidate_ne : candidate ≠ 0
  extension_ne : withExtension ≠ 0
  history_paths : Apart history 4096 searchPaths 1024
  history_line : Apart history 4096 line 256
  paths_line : Apart searchPaths 1024 line 256
  query_history : Apart query 128 history 4096
  query_paths : Apart query 128 searchPaths 1024
  query_line : Apart query 128 line 256
  candidate_history : Apart candidate 128 history 4096
  candidate_paths : Apart candidate 128 searchPaths 1024
  candidate_line : Apart candidate 128 line 256
  extension_history : Apart withExtension 128 history 4096
  extension_paths : Apart withExtension 128 searchPaths 1024
  extension_line : Apart withExtension 128 line 256
  candidate_extension : Apart candidate 128 withExtension 128

/-- The memory and the counters of the shell, and what it has done. -/
structure ShellState where
  shell : Shell
  searchPathCount : ℕ
  events : List ShellEvent

namespace ShellState

variable (s : ShellState)

def memory : Mem := s.shell.memory

def setMemory (m : Mem) : ShellState := { s with shell := ⟨m, s.shell.historyCount⟩ }

def print (text : List UInt8) : ShellState := { s with events := s.events ++ [.printed text] }

end ShellState

/-! ## The code -/

/-- A string in memory, as `printf` and the kernel read it. -/
def readString (fuel : ℕ) (m : Mem) (a : ℕ) : Option (List UInt8) := do
  let length ← strlen m fuel a 0
  return m.string a length

section

variable (fuel : ℕ) (arrays : ShellArrays) (spawn : Spawn)

/-- `search_paths[index]` -/
def searchSlot (index : ℕ) : ℕ := arrays.searchPaths + shellPathMax * index

/-- `shell_ends_with` -/
def shellEndsWith (m : Mem) (string : ℕ) (suffix : List UInt8) : Option Bool := do
  let stringLength ← strlen m fuel string 0
  if suffix.length > stringLength then return false
  return strcmp suffix m (string + (stringLength - suffix.length)) == 0

/-- The trailing slash of an entry of `length` characters. -/
def shellNormalize (m : Mem) (entry length : ℕ) : Mem :=
  if m (entry + (length - 1)) = 0x2F then m
  else (m.store8 (entry + length) 0x2F).store8 (entry + (length + 1)) 0

/-- `path` without arguments. -/
def shellPathList (s : ShellState) : Option ShellState :=
  (List.range s.searchPathCount).foldlM (fun s index => do
    let dir ← readString fuel s.memory (searchSlot arrays index)
    return s.print (dir ++ [0x0A])) s

/-- `path add` -/
def shellPathAdd (s : ShellState) (dir : ℕ) : Option ShellState := do
  let length ← strlen s.memory fuel dir 0
  if length = 0 ∨ shellPathMax - 1 ≤ length then
    return s.print (ascii "path: invalid directory\n")
  if shellMaxPaths ≤ s.searchPathCount then
    return s.print (ascii "path: search path is full\n")
  let entry := searchSlot arrays s.searchPathCount
  let m ← strcpy fuel s.memory entry dir
  return { s.setMemory (shellNormalize m entry length) with
    searchPathCount := s.searchPathCount + 1 }

/-- The loop that looks for the query from `index` on. -/
def shellPathFind (m : Mem) : ℕ → ℕ → Option (Option ℕ)
  | 0, _ => some none
  | n + 1, index => do
    if (← strcmpAt m fuel (searchSlot arrays index) arrays.query) = 0 then return some index
    shellPathFind m n (index + 1)

/-- `path remove` -/
def shellPathRemove (s : ShellState) (dir : ℕ) : Option ShellState := do
  let length ← strlen s.memory fuel dir 0
  if length = 0 ∨ shellPathMax - 1 ≤ length then
    return s.print (ascii "path: invalid directory\n")
  let m ← strcpy fuel s.memory arrays.query dir
  let m := shellNormalize m arrays.query length
  match ← shellPathFind fuel arrays m s.searchPathCount 0 with
  | some index =>
    let m ← (List.range' index (s.searchPathCount - 1 - index)).foldlM (fun m shift =>
      strcpy fuel m (searchSlot arrays shift) (searchSlot arrays (shift + 1))) m
    return { s.setMemory m with searchPathCount := s.searchPathCount - 1 }
  | none =>
    let text ← readString fuel m dir
    return (s.setMemory m).print (ascii "path: not in search path: " ++ text ++ [0x0A])

/-- `shell_path` -/
def shellPath (s : ShellState) (argv : List ℕ) : Option ShellState :=
  match argv with
  | [_] => shellPathList fuel arrays s
  | _ :: verb :: dir :: _ =>
    if strcmp (ascii "add") s.memory verb = 0 then shellPathAdd fuel arrays s dir
    else if strcmp (ascii "remove") s.memory verb = 0 then shellPathRemove fuel arrays s dir
    else some (s.print (ascii "usage: path [add <dir> | remove <dir>]\n"))
  | _ => some (s.print (ascii "usage: path [add <dir> | remove <dir>]\n"))

/-- `spawn`, which reads its arguments when it is called. -/
def shellSpawn (s : ShellState) (path : ℕ) (argv : List ℕ) : Option (ℤ × ShellState) := do
  let pathText ← readString fuel s.memory path
  let args ← argv.mapM (readString fuel s.memory)
  let status := spawn s.events pathText args
  return (status, { s with events := s.events ++ [.spawned pathText args status] })

/-- `shell_try_spawn` -/
def shellTrySpawn (s : ShellState) (path : ℕ) (argv : List ℕ) : Option (ℤ × ShellState) := do
  let (result, s) ← shellSpawn fuel spawn s path argv
  if 0 ≤ result then return (result, s)
  if ← shellEndsWith fuel s.memory path (ascii ".elf") then return (-1, s)
  let length ← strlen s.memory fuel path 0
  if shellPathMax ≤ length + 4 then return (-1, s)
  let m ← strcpy fuel s.memory arrays.withExtension path
  let m ← strcatLiteral fuel m arrays.withExtension (ascii ".elf")
  let (result, s) ← shellSpawn fuel spawn (s.setMemory m) arrays.withExtension argv
  if 0 ≤ result then return (result, s)
  return (-1, s)

/-- The loop of `shell_run` over the search path, from `index` on. -/
def shellRunFrom (name : ℕ) (argv : List ℕ) : ℕ → ℕ → ShellState → Option (ℤ × ShellState)
  | 0, _, s => some (-1, s)
  | n + 1, index, s => do
    let entryLength ← strlen s.memory fuel (searchSlot arrays index) 0
    let nameLength ← strlen s.memory fuel name 0
    if shellPathMax ≤ entryLength + nameLength then
      shellRunFrom name argv n (index + 1) s
    else
      let m ← strcpy fuel s.memory arrays.candidate (searchSlot arrays index)
      let m ← strcat fuel m arrays.candidate name
      let (result, s) ← shellTrySpawn fuel arrays spawn (s.setMemory m) arrays.candidate argv
      if 0 ≤ result then return (result, s)
      shellRunFrom name argv n (index + 1) s

/-- `shell_run`; `argv[0]` is `name`. -/
def shellRun (s : ShellState) (name : ℕ) (argv : List ℕ) : Option (ℤ × ShellState) := do
  let colon ← strpbrk s.memory [0x3A] fuel name
  if colon ≠ 0 then shellTrySpawn fuel arrays spawn s name argv
  else shellRunFrom fuel arrays spawn name argv s.searchPathCount 0 s

end

/-! ## What the commands are for -/

/-- A directory as it is kept, with a slash at its end. -/
def withSlash (dir : List UInt8) : List UInt8 :=
  if dir.getLast? = some 0x2F then dir else dir ++ [0x2F]

/-- The directories after `path`, and what it prints. -/
def pathCommand (paths : List (List UInt8)) (args : List (List UInt8)) :
    List (List UInt8) × List ShellEvent :=
  match args with
  | [_] => (paths, paths.map fun dir => .printed (dir ++ [0x0A]))
  | _ :: verb :: dir :: _ =>
    if verb = ascii "add" then
      if dir = [] ∨ shellPathMax - 1 ≤ dir.length then
        (paths, [.printed (ascii "path: invalid directory\n")])
      else if shellMaxPaths ≤ paths.length then
        (paths, [.printed (ascii "path: search path is full\n")])
      else (paths ++ [withSlash dir], [])
    else if verb = ascii "remove" then
      if dir = [] ∨ shellPathMax - 1 ≤ dir.length then
        (paths, [.printed (ascii "path: invalid directory\n")])
      else if withSlash dir ∈ paths then (paths.erase (withSlash dir), [])
      else (paths, [.printed (ascii "path: not in search path: " ++ dir ++ [0x0A])])
    else (paths, [.printed (ascii "usage: path [add <dir> | remove <dir>]\n")])
  | _ => (paths, [.printed (ascii "usage: path [add <dir> | remove <dir>]\n")])

/-- The files tried for a path: itself, and with the extension if it has none and fits. -/
def withElf (path : List UInt8) : List (List UInt8) :=
  if ascii ".elf" <:+ path ∨ shellPathMax ≤ path.length + 4 then [path]
  else [path, path ++ ascii ".elf"]

/-- The files tried in the directories, where the name fits. -/
def searched (paths : List (List UInt8)) (name : List UInt8) : List (List UInt8) :=
  (paths.filter fun dir => dir.length + name.length < shellPathMax).flatMap fun dir =>
    withElf (dir ++ name)

/-- The files tried for a command: a name with a colon is a path. -/
def candidates (paths : List (List UInt8)) (name : List UInt8) : List (List UInt8) :=
  if 0x3A ∈ name then withElf name else searched paths name

/-- The first of the files that can be started is run; whether there was one, and all that
    happened. -/
def spawnFirst (spawn : Spawn) (args : List (List UInt8)) :
    List (List UInt8) → List ShellEvent → Bool × List ShellEvent
  | [], events => (false, events)
  | path :: rest, events =>
    let status := spawn events path args
    if 0 ≤ status then (true, events ++ [.spawned path args status])
    else spawnFirst spawn args rest (events ++ [.spawned path args status])

theorem spawnFirst_append (spawn : Spawn) (args : List (List UInt8)) (l l' : List (List UInt8))
    (events : List ShellEvent) :
    spawnFirst spawn args (l ++ l') events =
      if (spawnFirst spawn args l events).1 = true then spawnFirst spawn args l events
      else spawnFirst spawn args l' (spawnFirst spawn args l events).2 := by
  induction l generalizing events with
  | nil => rfl
  | cons path l ih =>
    rw [List.cons_append, spawnFirst, spawnFirst]
    by_cases h : 0 ≤ spawn events path args
    · simp only [if_pos h, if_true]
    · simp only [if_neg h]
      exact ih _

/-! ## Strings -/

section

variable {fuel : ℕ} {m m' : Mem} {a : ℕ} {s t : List UInt8}

theorem readString_hasString (ha : a ≠ 0) (h : m.HasString a s) (hf : s.length < fuel) :
    readString fuel m a = some s := by
  rw [readString, strlen_hasString ha h hf, Nat.zero_add]
  exact congrArg some (Mem.string_of_hasBytes h.2.1 h.1)

theorem Mem.HasString.drop (h : m.HasString a s) {k : ℕ} (hk : k ≤ s.length) :
    m.HasString (a + k) (s.drop k) := by
  refine ⟨fun h0 => h.1 (List.mem_of_mem_drop h0), fun j hj => ?_, ?_⟩
  · rw [List.length_drop] at hj
    rw [List.getElem_drop, Nat.add_assoc]
    exact h.2.1 _ (by omega)
  · rw [List.length_drop, Nat.add_assoc, Nat.add_sub_cancel' hk]
    exact h.2.2

/-- `strcmp` with a literal. -/
theorem strcmp_literal (h : m.HasString a s) (h0 : 0 ∉ t) : strcmp t m a = 0 ↔ s = t := by
  rw [Mem.strcmp_eq_zero h0]
  exact ⟨fun ht => h.inj ht, fun ht => ht ▸ h⟩

/-- `shell_ends_with` -/
theorem shellEndsWith_spec (ha : a ≠ 0) (h : m.HasString a s) (hf : s.length < fuel)
    (h0 : 0 ∉ t) :
    shellEndsWith fuel m a t = some (decide (t <:+ s)) := by
  simp only [shellEndsWith, strlen_hasString ha h hf, Nat.zero_add, Option.bind_eq_bind,
    Option.bind_some]
  by_cases hlen : t.length > s.length
  · rw [if_pos hlen, decide_eq_false fun hsuf => absurd hsuf.length_le (by omega)]
    rfl
  · rw [if_neg hlen]
    have hdrop := h.drop (k := s.length - t.length) (by omega)
    have hiff : strcmp t m (a + (s.length - t.length)) = 0 ↔ t <:+ s := by
      rw [strcmp_literal hdrop h0, List.suffix_iff_eq_drop]
      exact eq_comm
    exact congrArg some (by rw [Bool.beq_eq_decide_eq, decide_eq_decide]; exact hiff)

/-- The slash at the end of a directory. -/
theorem shellNormalize_spec (h : m.HasString a s) (hne : s ≠ []) :
    (shellNormalize m a s.length).HasString a (withSlash s) ∧
      (withSlash s).length ≤ s.length + 1 ∧
      ∀ x, x < a ∨ a + s.length + 1 < x → shellNormalize m a s.length x = m x := by
  have hpos := List.length_pos_of_ne_nil hne
  have hlast : m (a + (s.length - 1)) = 0x2F ↔ s.getLast? = some 0x2F := by
    rw [h.2.1 _ (by omega), List.getLast?_eq_getElem?, List.getElem?_eq_getElem (by omega),
      Option.some.injEq]
  unfold shellNormalize withSlash
  by_cases hslash : s.getLast? = some 0x2F
  · rw [if_pos (hlast.2 hslash), if_pos hslash]
    exact ⟨h, Nat.le_succ _, fun _ _ => rfl⟩
  · rw [if_neg fun hc => hslash (hlast.1 hc), if_neg hslash]
    refine ⟨h.append (Mem.hasString_cons.2 ⟨by decide, ?_, Mem.hasString_nil.2 ?_⟩) fun x hx => ?_,
      ?_, fun x hx => ?_⟩
    · rw [Mem.store8_out (by omega), Mem.store8_in]
    · exact Mem.store8_in ..
    · rw [Mem.store8_out (by omega), Mem.store8_out (by omega)]
    · rw [List.length_append, List.length_singleton]
    · rw [Mem.store8_out (by omega), Mem.store8_out (by omega)]

end

/-! ## The arguments -/

/-- The arguments of a command lie in the line. -/
abbrev ArgvIs (arrays : ShellArrays) (m : Mem) (argv : List ℕ) (args : List (List UInt8)) : Prop :=
  List.Forall₂ (ArgAt m arrays.line (arrays.line + 255)) argv args

section

variable {fuel : ℕ} {arrays : ShellArrays} {spawn : Spawn} {s : ShellState} {m m' : Mem} {a : ℕ}
  {argv : List ℕ} {args : List (List UInt8)} {path : List UInt8}

theorem ArgAt.short {arg : List UInt8} (h : ArgAt m arrays.line (arrays.line + 255) a arg)
    (hfuel : shellLineMax ≤ fuel) : arg.length < fuel := by
  have hge := h.ge
  have hle := h.le
  unfold shellLineMax at hfuel
  omega

theorem ArgAt.ne_null {arg : List UInt8}
    (h : ArgAt m arrays.line (arrays.line + 255) a arg) : a ≠ 0 := by
  have hline := arrays.line_ne
  have hge := h.ge
  omega

theorem ArgvIs.read (h : ArgvIs arrays m argv args) (hfuel : shellLineMax ≤ fuel) :
    argv.mapM (readString fuel m) = some args := by
  induction h with
  | nil => rfl
  | cons harg _ ih =>
    rw [List.mapM_cons, readString_hasString harg.ne_null harg.text (harg.short hfuel), ih]
    rfl

/-! ## Running a program -/

/-- What running a program leaves as it is: all but the arrays on the stack. -/
structure Keeps (arrays : ShellArrays) (s s' : ShellState) : Prop where
  count : s'.searchPathCount = s.searchPathCount
  historyCount : s'.shell.historyCount = s.shell.historyCount
  frame : ∀ x, (x < arrays.candidate ∨ arrays.candidate + 128 ≤ x) →
    (x < arrays.withExtension ∨ arrays.withExtension + 128 ≤ x) → s'.memory x = s.memory x

theorem Keeps.trans {s₁ s₂ : ShellState} (h : Keeps arrays s s₁) (h' : Keeps arrays s₁ s₂) :
    Keeps arrays s s₂ where
  count := h'.count.trans h.count
  historyCount := h'.historyCount.trans h.historyCount
  frame x hx hx' := (h'.frame x hx hx').trans (h.frame x hx hx')

theorem Keeps.argAt {s' : ShellState} {arg : List UInt8} (h : Keeps arrays s s')
    (harg : ArgAt s.memory arrays.line (arrays.line + 255) a arg) :
    ArgAt s'.memory arrays.line (arrays.line + 255) a arg := by
  have hcand := arrays.candidate_line
  have hext := arrays.extension_line
  have hge := harg.ge
  have hle := harg.le
  unfold Apart at hcand hext
  exact ⟨hge, hle, harg.text.congr fun x hx hx' => h.frame x (by omega) (by omega)⟩

theorem Keeps.argvIs {s' : ShellState} (h : Keeps arrays s s')
    (hargv : ArgvIs arrays s.memory argv args) : ArgvIs arrays s'.memory argv args :=
  hargv.imp fun _ _ harg => h.argAt harg

/-- Only the first of the files is tried if it can be started. -/
theorem spawnFirst_withElf {events : List ShellEvent} (h : 0 ≤ spawn events path args) :
    spawnFirst spawn args (withElf path) events =
      (true, events ++ [.spawned path args (spawn events path args)]) := by
  unfold withElf
  split <;> rw [spawnFirst, if_pos h]

theorem shellSpawn_spec (ha : a ≠ 0) (hpath : s.memory.HasString a path)
    (hlen : path.length < fuel) (hargv : ArgvIs arrays s.memory argv args) (hfuel : shellLineMax ≤ fuel) :
    shellSpawn fuel spawn s a argv = some (spawn s.events path args,
      { s with events := s.events ++ [.spawned path args (spawn s.events path args)] }) := by
  simp only [shellSpawn, readString_hasString ha hpath hlen, hargv.read hfuel, Option.bind_eq_bind,
    Option.bind_some]
  rfl

variable (spawn) in
/-- **`shell_try_spawn`** -/
theorem shellTrySpawn_spec (ha : a ≠ 0) (hpath : s.memory.HasString a path)
    (hlen : path.length < fuel) (hargv : ArgvIs arrays s.memory argv args)
    (hfuel : shellLineMax ≤ fuel)
    (hapart : Apart arrays.withExtension 128 a (path.length + 1)) :
    ∃ r s', shellTrySpawn fuel arrays spawn s a argv = some (r, s') ∧
      (0 ≤ r ↔ (spawnFirst spawn args (withElf path) s.events).1 = true) ∧
      s'.events = (spawnFirst spawn args (withElf path) s.events).2 ∧ Keeps arrays s s' := by
  have h0 : (0 : UInt8) ∉ ascii ".elf" := by decide +kernel
  rw [shellTrySpawn, shellSpawn_spec ha hpath hlen hargv hfuel]
  simp only [Option.bind_eq_bind, Option.bind_some]
  by_cases hok : 0 ≤ spawn s.events path args
  · rw [if_pos hok, spawnFirst_withElf hok]
    exact ⟨_, _, rfl, iff_of_true hok rfl, rfl, rfl, rfl, fun _ _ _ => rfl⟩
  · rw [if_neg hok]
    generalize hs₁ : ({ s with
      events := s.events ++ [.spawned path args (spawn s.events path args)] } : ShellState) = s₁
    have hmem : s₁.memory = s.memory := by rw [← hs₁]; rfl
    rw [hmem, shellEndsWith_spec ha hpath hlen h0, strlen_hasString ha hpath hlen, Nat.zero_add]
    simp only [Option.bind_some, decide_eq_true_eq]
    have hfirst (rest : List (List UInt8)) : spawnFirst spawn args (path :: rest) s.events =
        spawnFirst spawn args rest s₁.events := by
      rw [spawnFirst, if_neg hok, ← hs₁]
    have hkeep : Keeps arrays s s₁ := by
      rw [← hs₁]
      exact ⟨rfl, rfl, fun _ _ _ => rfl⟩
    by_cases hone : ascii ".elf" <:+ path ∨ shellPathMax ≤ path.length + 4
    · -- no second file to try
      rw [withElf, if_pos hone, hfirst]
      refine ⟨-1, s₁, ?_, iff_of_false (by decide) Bool.false_ne_true, rfl, hkeep⟩
      by_cases hsuf : ascii ".elf" <:+ path
      · rw [if_pos hsuf]
        rfl
      · rw [if_neg hsuf, if_pos (hone.resolve_left hsuf)]
        rfl
    · rw [withElf, if_neg hone, hfirst]
      obtain ⟨hsuf, hfits⟩ := not_or.1 hone
      rw [if_neg hsuf, if_neg hfits]
      unfold shellPathMax at hfits
      unfold shellLineMax at hfuel
      unfold Apart at hapart
      have helf : (ascii ".elf").length = 4 := by decide +kernel
      obtain ⟨m₁, hcpy, hcopy, hframe₁⟩ := strcpy_hasString (b := arrays.withExtension) hpath hlen
        (by unfold Apart; omega)
      obtain ⟨m₂, hcat, hboth, hframe₂⟩ := strcatLiteral_hasString arrays.extension_ne
        hcopy h0 hlen
      have hkeep₂ : Keeps arrays s (s₁.setMemory m₂) := by
        refine hkeep.trans ⟨rfl, rfl, fun x _ hx => ?_⟩
        show m₂ x = s₁.memory x
        rw [hframe₂ x (by omega), hframe₁ x (by omega), hmem]
      rw [hcpy, Option.bind_some, hcat, Option.bind_some,
        shellSpawn_spec (s := s₁.setMemory m₂) arrays.extension_ne hboth (by rw [List.length_append]; omega)
          (hkeep₂.argvIs hargv) hfuel, Option.bind_some, spawnFirst]
      by_cases hok₂ : 0 ≤ spawn s₁.events (path ++ ascii ".elf") args
      · rw [if_pos hok₂]
        exact ⟨_, _, if_pos hok₂, iff_of_true hok₂ rfl, rfl, hkeep₂.count, hkeep₂.historyCount,
          hkeep₂.frame⟩
      · rw [if_neg hok₂, spawnFirst]
        exact ⟨_, _, if_neg hok₂, iff_of_false (by decide) Bool.false_ne_true, rfl, hkeep₂.count,
          hkeep₂.historyCount, hkeep₂.frame⟩

/-- The directories of the search path. -/
structure Searches (arrays : ShellArrays) (s : ShellState) (paths : List (List UInt8)) : Prop where
  count : s.searchPathCount = paths.length
  le : paths.length ≤ shellMaxPaths
  rows : Rows s.memory arrays.searchPaths shellPathMax paths

variable {paths pre suf : List (List UInt8)} {dir name : List UInt8} {b : ℕ}

theorem Searches.congr {s' : ShellState} (h : Searches arrays s paths)
    (hcount : s'.searchPathCount = s.searchPathCount)
    (hm : ∀ x, arrays.searchPaths ≤ x → x < arrays.searchPaths + 1024 → s'.memory x = s.memory x) :
    Searches arrays s' paths where
  count := hcount.trans h.count
  le := h.le
  rows := by
    refine h.rows.congr fun x hx hx' => hm x hx ?_
    have hle := h.le
    unfold shellPathMax at hx'
    unfold shellMaxPaths at hle
    omega

theorem Keeps.searches {s' : ShellState} (h : Keeps arrays s s')
    (hs : Searches arrays s paths) : Searches arrays s' paths := by
  have hcand := arrays.candidate_paths
  have hext := arrays.extension_paths
  unfold Apart at hcand hext
  exact hs.congr h.count fun x hx hx' => h.frame x (by omega) (by omega)

/-- A directory of the search path. -/
theorem Searches.get (h : Searches arrays s (pre ++ dir :: suf)) :
    s.memory.HasString (searchSlot arrays pre.length) dir ∧ dir.length < 128 ∧
      arrays.searchPaths ≤ searchSlot arrays pre.length ∧
      searchSlot arrays pre.length + 128 ≤ arrays.searchPaths + 1024 := by
  obtain ⟨hdir, hshort⟩ := h.rows.get
  refine ⟨hdir, hshort, Nat.le_add_right .., ?_⟩
  have hle := h.le
  rw [List.length_append, List.length_cons] at hle
  unfold shellMaxPaths at hle
  unfold searchSlot shellPathMax
  omega

theorem searched_cons (dir : List UInt8) (paths : List (List UInt8)) (name : List UInt8) :
    searched (dir :: paths) name =
      if dir.length + name.length < shellPathMax then withElf (dir ++ name) ++ searched paths name
      else searched paths name := by
  unfold searched
  rw [List.filter_cons]
  by_cases hfits : dir.length + name.length < shellPathMax
  · simp only [decide_eq_true hfits, if_true, if_pos hfits, List.flatMap_cons]
  · simp only [decide_eq_false hfits, if_neg hfits, Bool.false_eq_true, if_false]

variable (pre) in
/-- **The loop of `shell_run`** tries the directories in order. -/
theorem shellRunFrom_spec (h : Searches arrays s (pre ++ suf)) (hname : ArgAt s.memory arrays.line
      (arrays.line + 255) b name) (hargv : ArgvIs arrays s.memory argv args)
    (hfuel : shellLineMax ≤ fuel) :
    ∃ r s', shellRunFrom fuel arrays spawn b argv suf.length pre.length s = some (r, s') ∧
      (0 ≤ r ↔ (spawnFirst spawn args (searched suf name) s.events).1 = true) ∧
      s'.events = (spawnFirst spawn args (searched suf name) s.events).2 ∧ Keeps arrays s s' := by
  induction suf generalizing pre s with
  | nil =>
    exact ⟨-1, s, rfl, iff_of_false (by decide) Bool.false_ne_true, rfl, rfl, rfl, fun _ _ _ => rfl⟩
  | cons dir suf ih =>
    obtain ⟨hdir, hshort, hge, hslot⟩ := h.get
    have hnameShort := hname.short hfuel
    have hrest : Searches arrays s ((pre ++ [dir]) ++ suf) := by
      rw [List.append_assoc]
      exact h
    have hlen : (pre ++ [dir]).length = pre.length + 1 := by
      rw [List.length_append, List.length_singleton]
    have hfuel' : 256 ≤ fuel := hfuel
    have hslots := arrays.searchPaths_ne
    rw [List.length_cons, shellRunFrom, strlen_hasString (by omega) hdir (by omega),
      strlen_hasString hname.ne_null hname.text hnameShort, searched_cons]
    simp only [Nat.zero_add, Option.bind_eq_bind, Option.bind_some]
    by_cases hfits : dir.length + name.length < shellPathMax
    · rw [if_neg (not_le.2 hfits), if_pos hfits]
      unfold shellPathMax at hfits
      have hpaths := arrays.candidate_paths
      have hline := arrays.candidate_line
      have hext := arrays.candidate_extension
      have hnameGe := hname.ge
      have hnameLe := hname.le
      unfold Apart at hpaths hline hext
      obtain ⟨m₁, hcpy, hcopy, hframe₁⟩ := strcpy_hasString (b := arrays.candidate) hdir
        (by omega : dir.length < fuel) (by unfold Apart; omega)
      have hname₁ : m₁.HasString b name :=
        hname.text.congr fun x hx hx' => hframe₁ x (by omega)
      obtain ⟨m₂, hcat, hboth, hframe₂⟩ := strcat_hasString arrays.candidate_ne hname.ne_null
        hcopy hname₁ (by omega : dir.length < fuel) hnameShort (by unfold Apart; omega)
      have hkeep₂ : Keeps arrays s (s.setMemory m₂) := by
        refine ⟨rfl, rfl, fun x hx _ => ?_⟩
        show m₂ x = s.memory x
        rw [hframe₂ x (by omega), hframe₁ x (by omega)]
      obtain ⟨r, s₃, htry, hstarted, hevents, hkeep₃⟩ := shellTrySpawn_spec spawn
        (s := s.setMemory m₂) arrays.candidate_ne hboth (by rw [List.length_append]; omega)
        (hkeep₂.argvIs hargv) hfuel
        (by unfold Apart; rw [List.length_append]; omega)
      have hkeep := hkeep₂.trans hkeep₃
      rw [show (s.setMemory m₂).events = s.events from rfl] at hstarted hevents
      simp only [hcpy, hcat, htry, Option.bind_some]
      rw [spawnFirst_append]
      by_cases hr : 0 ≤ r
      · rw [if_pos hr, if_pos (hstarted.1 hr)]
        exact ⟨r, s₃, rfl, hstarted, hevents, hkeep⟩
      · obtain ⟨r', s', hrun, hstarted', hevents', hkeep'⟩ :=
          ih (pre ++ [dir]) (hkeep.searches hrest) (hkeep.argAt hname) (hkeep.argvIs hargv)
        rw [hlen] at hrun
        rw [hevents] at hstarted' hevents'
        rw [if_neg hr, if_neg fun hc => hr (hstarted.2 hc)]
        exact ⟨r', s', hrun, hstarted', hevents', hkeep.trans hkeep'⟩
    · rw [if_pos (not_lt.1 hfits), if_neg hfits, ← hlen]
      exact ih (pre ++ [dir]) hrest hname hargv

variable (spawn) in
/-- **`shell_run`** tries the candidates in order, and runs the first that can be started. -/
theorem shellRun_spec (h : Searches arrays s paths) (hname : ArgAt s.memory arrays.line
      (arrays.line + 255) b name) (hargv : ArgvIs arrays s.memory argv args)
    (hfuel : shellLineMax ≤ fuel) :
    ∃ r s', shellRun fuel arrays spawn s b argv = some (r, s') ∧
      (0 ≤ r ↔ (spawnFirst spawn args (candidates paths name) s.events).1 = true) ∧
      s'.events = (spawnFirst spawn args (candidates paths name) s.events).2 ∧ Keeps arrays s s' := by
  have hshort := hname.short hfuel
  rw [shellRun, candidates]
  by_cases hcolon : 0x3A ∈ name
  · obtain ⟨pre, suf, hsplit, hpre⟩ := List.eq_append_cons_of_mem hcolon
    have hnone : ∀ c ∈ pre, c ∉ [0x3A] := fun c hc hmem => hpre ((List.mem_singleton.1 hmem) ▸ hc)
    have hlen : pre.length < fuel := by
      have := congrArg List.length hsplit
      rw [List.length_append] at this
      omega
    have hfirst := strpbrk_first (hsplit ▸ hname.text) hnone (List.mem_singleton_self _) hlen
    have hge := hname.ge
    have hle := hname.le
    have hne := arrays.line_ne
    have hext := arrays.extension_line
    unfold Apart at hext
    rw [hfirst, if_pos hcolon]
    simp only [Option.bind_eq_bind, Option.bind_some]
    rw [if_pos (by omega)]
    exact shellTrySpawn_spec spawn hname.ne_null hname.text hshort hargv hfuel (by unfold Apart; omega)
  · have hnone : ∀ c ∈ name, c ∉ [0x3A] :=
      fun c hc hmem => hcolon ((List.mem_singleton.1 hmem) ▸ hc)
    rw [strpbrk_none hname.text hnone hshort, if_neg hcolon]
    simp only [Option.bind_eq_bind, Option.bind_some]
    rw [if_neg (not_not.2 rfl), h.count]
    exact shellRunFrom_spec [] h hname hargv hfuel

end

end Ttos
