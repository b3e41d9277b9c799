/-
  The shell as a whole (userland/shell): the loop of `main`, which reads a line,
  keeps it in the history, cuts it into arguments and runs the command.

  The loop is taken character by character, as `shell_read_line` gets them; the
  banner that is shown before it is left out.

  * `CommandLine`: what the shell is for, on lists.
  * `SessionIs`: the memory of the shell holds its state.
  * `shell_session_refines`: it does so after any keys.
-/
import Ttos.Shell.LineEditorSpec
import Ttos.Shell.PathCommand

namespace Ttos

/-! ## The code -/

/-- What `shell_help` prints. -/
def shellHelpText : List (List UInt8) := [
  ascii "Available commands:\n\n",
  ascii "help - Display this help message\n",
  ascii "path [add <dir> | remove <dir>] - Show or edit the command search path\n",
  ascii "<command> [args...] - Run a program, resolved via the search path\n",
  ascii "<path> [args...] - Run a program by its full path\n"]

/-- `shell_help` -/
def shellHelp (s : ShellState) : ShellState := shellHelpText.foldl ShellState.print s

/-- The prompt. -/
def shellPrompt : List UInt8 := ascii "> "

/-- The shell while it reads a line. -/
structure Session where
  reading : LineState
  searchPathCount : ℕ
  events : List ShellEvent

section

variable (fuel : ℕ) (arrays : ShellArrays) (spawn : Spawn)

/-- What the loop of `main` does with an argument vector. -/
def shellCommand (s : ShellState) (argv : List ℕ) : Option ShellState :=
  match argv with
  | [] => some s
  | name :: _ =>
    if strcmp (ascii "help") s.memory name = 0 then some (shellHelp s)
    else if strcmp (ascii "path") s.memory name = 0 then shellPath fuel arrays s argv
    else do
      let (result, s) ← shellRun fuel arrays spawn s name argv
      if result < 0 then
        let text ← readString fuel s.memory name
        return s.print (ascii "shell: command not found: " ++ text ++ [0x0A])
      return s

/-- The next call of `shell_read_line`. -/
def shellPrompts (s : ShellState) : Session :=
  ⟨shellReadStart shellPrompt arrays.line s.shell, s.searchPathCount, s.events⟩

/-- The rest of `shell_read_line` and of the loop when a line is complete. -/
def shellEnter (s : Session) : Option Session := do
  let shell ← shellHistoryAdd fuel arrays.history s.reading.shell arrays.line
  let (m, argv) ← shellTokenize fuel shell.memory arrays.line shellMaxArgs
  let s ← shellCommand fuel arrays spawn ⟨⟨m, shell.historyCount⟩, s.searchPathCount, s.events⟩ argv
  return shellPrompts arrays s

/-- The next character. -/
def shellChar (s : Session) (ch : UInt8) : Option Session := do
  let reading ← shellReadChar fuel arrays.history shellPrompt arrays.line shellLineMax s.reading ch
  if reading.phase = .done then shellEnter fuel arrays spawn { s with reading := reading }
  else return { s with reading := reading }

/-- `main` before the first character. -/
def shellMain (m : Mem) : Session :=
  shellPrompts arrays ⟨⟨strcpyLiteral m (searchSlot arrays 0) (ascii "A:/"), 0⟩, 1, []⟩

/-- `main` on the characters that come in. -/
def shellSession (m : Mem) (input : List UInt8) : Option Session :=
  input.foldlM (shellChar fuel arrays spawn) (shellMain arrays m)

end

/-! ## What it is for -/

/-- A command line: the line that is edited, the history, the directories and what has
    happened. -/
structure CommandLine where
  editor : Editor
  history : List (List UInt8)
  paths : List (List UInt8)
  events : List ShellEvent

namespace CommandLine

def start : CommandLine := ⟨emptyLine [], [], [ascii "A:/"], []⟩

variable (spawn : Spawn)

/-- The directories and the events after a command. -/
def command (paths : List (List UInt8)) (events : List ShellEvent) (args : List (List UInt8)) :
    List (List UInt8) × List ShellEvent :=
  match args with
  | [] => (paths, events)
  | name :: _ =>
    if name = ascii "help" then (paths, events ++ shellHelpText.map .printed)
    else if name = ascii "path" then
      ((pathCommand paths args).1, events ++ (pathCommand paths args).2)
    else
      let run := spawnFirst spawn args (candidates paths name) events
      (paths, if run.1 then run.2
        else run.2 ++ [.printed (ascii "shell: command not found: " ++ name ++ [0x0A])])

/-- A key; a complete line goes to the history and is run. -/
def key (c : CommandLine) (ch : UInt8) : CommandLine :=
  let editor := c.editor.step shellLineMax c.history ch
  if editor.phase = .done then
    let history := addLine c.history editor.text
    let after := command spawn c.paths c.events (tokens shellMaxArgs editor.text)
    ⟨emptyLine history, history, after.1, after.2⟩
  else { c with editor := editor }

end CommandLine

/-! ## Commands -/

section

variable {fuel : ℕ} {arrays : ShellArrays} {spawn : Spawn} {s : ShellState} {argv : List ℕ}
  {args paths : List (List UInt8)}

/-- What a command leaves as it is. -/
structure SparesLines (arrays : ShellArrays) (s s' : ShellState) : Prop where
  historyCount : s'.shell.historyCount = s.shell.historyCount
  frame : ∀ x, (x < arrays.searchPaths ∨ arrays.searchPaths + 1024 ≤ x) →
    (x < arrays.query ∨ arrays.query + 128 ≤ x) →
    (x < arrays.candidate ∨ arrays.candidate + 128 ≤ x) →
    (x < arrays.withExtension ∨ arrays.withExtension + 128 ≤ x) → s'.memory x = s.memory x

theorem Leaves.sparesLines {s' : ShellState} (h : Leaves arrays s s') : SparesLines arrays s s' where
  historyCount := h.historyCount
  frame x hx hx' _ _ := h.frame x hx hx'

theorem Keeps.sparesLines {s' : ShellState} (h : Keeps arrays s s') : SparesLines arrays s s' where
  historyCount := h.historyCount
  frame x _ _ hx hx' := h.frame x hx hx'

theorem foldl_print (texts : List (List UInt8)) (s : ShellState) :
    texts.foldl ShellState.print s = { s with events := s.events ++ texts.map .printed } := by
  induction texts generalizing s with
  | nil => rw [List.foldl_nil, List.map_nil, List.append_nil]
  | cons text texts ih =>
    rw [List.foldl_cons, ih, List.map_cons, List.append_cons]
    rfl

variable (spawn) in
/-- **One command.** -/
theorem shellCommand_spec (h : Searches arrays s paths) (hargv : ArgvIs arrays s.memory argv args)
    (hfuel : shellLineMax ≤ fuel) :
    ∃ s', shellCommand fuel arrays spawn s argv = some s' ∧
      Searches arrays s' (CommandLine.command spawn paths s.events args).1 ∧
      s'.events = (CommandLine.command spawn paths s.events args).2 ∧ SparesLines arrays s s' := by
  have hargv' := hargv
  cases hargv with
  | nil => exact ⟨s, rfl, h, rfl, rfl, fun _ _ _ _ _ => rfl⟩
  | @cons b name rest rest' hname hrest =>
    have hhelp := strcmp_literal hname.text (by decide +kernel : (0 : UInt8) ∉ ascii "help")
    have hpath := strcmp_literal hname.text (by decide +kernel : (0 : UInt8) ∉ ascii "path")
    rw [shellCommand, CommandLine.command]
    by_cases hh : name = ascii "help"
    · rw [if_pos (hhelp.2 hh), if_pos hh, shellHelp, foldl_print]
      exact ⟨_, rfl, h.congr rfl fun _ _ _ => rfl, rfl, rfl, fun _ _ _ _ _ => rfl⟩
    · rw [if_neg fun hc => hh (hhelp.1 hc), if_neg hh]
      by_cases hp : name = ascii "path"
      · rw [if_pos (hpath.2 hp), if_pos hp]
        obtain ⟨s', hrun, hs', hevents, hleaves⟩ := shellPath_spec h hargv' hfuel
        exact ⟨s', hrun, hs', hevents, hleaves.sparesLines⟩
      · rw [if_neg fun hc => hp (hpath.1 hc), if_neg hp]
        obtain ⟨r, s', hrun, hstarted, hevents, hkeep⟩ :=
          shellRun_spec spawn h hname hargv' hfuel
        have hname' := hkeep.argAt hname
        rw [hrun, Option.bind_eq_bind, Option.bind_some]
        dsimp only
        by_cases hr : r < 0
        · rw [if_pos hr, if_neg fun hc => absurd (hstarted.2 hc) (not_le.2 hr),
            readString_hasString hname'.ne_null hname'.text (hname'.short hfuel)]
          refine ⟨_, rfl, (hkeep.searches h).print _, ?_, hkeep.sparesLines.historyCount,
            hkeep.sparesLines.frame⟩
          rw [← hevents]
          rfl
        · rw [if_neg hr, if_pos (hstarted.1 (not_lt.1 hr))]
          exact ⟨s', rfl, hkeep.searches h, hevents, hkeep.sparesLines⟩

end

/-! ## The whole session -/

/-- The memory of the arrays of the shell. -/
def ShellArrays.Owns (arrays : ShellArrays) (x : ℕ) : Prop :=
  (arrays.history ≤ x ∧ x < arrays.history + 4096) ∨
    (arrays.searchPaths ≤ x ∧ x < arrays.searchPaths + 1024) ∨
    (arrays.line ≤ x ∧ x < arrays.line + 256) ∨ (arrays.query ≤ x ∧ x < arrays.query + 128) ∨
    (arrays.candidate ≤ x ∧ x < arrays.candidate + 128) ∨
    (arrays.withExtension ≤ x ∧ x < arrays.withExtension + 128)

/-- The shell holds the state of a command line, and the memory that is not its own is as in
    `m`. -/
structure SessionIs (arrays : ShellArrays) (m : Mem) (s : Session) (c : CommandLine) : Prop where
  edits : ∃ s₀, Edits arrays.history arrays.line shellLineMax c.history s₀ s.reading c.editor
  searches : Searches arrays ⟨s.reading.shell, s.searchPathCount, s.events⟩ c.paths
  events : s.events = c.events
  frame : ∀ x, ¬ arrays.Owns x → s.reading.shell.memory x = m x

section

variable {fuel : ℕ} {arrays : ShellArrays} {spawn : Spawn} {m : Mem} {s : Session}
  {c : CommandLine} {lines : List (List UInt8)}

/-- The line lies apart from the history. -/
theorem ShellArrays.line_apart (arrays : ShellArrays) (x : ℕ) (h : arrays.line ≤ x)
    (h' : x < arrays.line + shellLineMax) : ¬ InHistory arrays.history x := by
  have hline := arrays.history_line
  unfold Apart at hline
  unfold shellLineMax at h'
  unfold InHistory shellLineMax shellHistoryMax
  omega

/-- Memory apart from the array of the history is not in it. -/
theorem not_inHistory {history x : ℕ} (h : x < history ∨ history + 4096 ≤ x) :
    ¬ InHistory history x := by
  unfold InHistory shellLineMax shellHistoryMax
  omega

/-- The next line is read. -/
theorem sessionIs_prompts {s : ShellState} {paths : List (List UInt8)}
    (h : HistoryIs arrays.history s.shell lines) (hs : Searches arrays s paths)
    (hm : ∀ x, ¬ arrays.Owns x → s.memory x = m x) :
    SessionIs arrays m (shellPrompts arrays s) ⟨emptyLine lines, lines, paths, s.events⟩ where
  edits := ⟨s.shell, edits_start shellPrompt h arrays.line_apart (by decide)⟩
  searches := by
    have hline := arrays.paths_line
    unfold Apart at hline
    exact hs.congr rfl fun x hx hx' => Mem.store8_out (by omega)
  events := rfl
  frame x hx := by
    refine Eq.trans (Mem.store8_out ?_) (hm x hx)
    unfold ShellArrays.Owns at hx
    omega

/-- **A complete line.** -/
theorem shellEnter_spec {s₀ : Shell} {e : Editor}
    (he : Edits arrays.history arrays.line shellLineMax c.history s₀ s.reading e)
    (hs : Searches arrays ⟨s.reading.shell, s.searchPathCount, s.events⟩ c.paths)
    (hevents : s.events = c.events)
    (hm : ∀ x, ¬ arrays.Owns x → s.reading.shell.memory x = m x) (hfuel : shellLineMax ≤ fuel) :
    ∃ s', shellEnter fuel arrays spawn s = some s' ∧
      SessionIs arrays m s' ⟨emptyLine (addLine c.history e.text), addLine c.history e.text,
        (CommandLine.command spawn c.paths c.events (tokens shellMaxArgs e.text)).1,
        (CommandLine.command spawn c.paths c.events (tokens shellMaxArgs e.text)).2⟩ := by
  have hfits := he.fits
  rw [he.length] at hfits
  have hbuffer : ∀ x, arrays.line ≤ x → x ≤ arrays.line + e.text.length →
      ¬ InHistory arrays.history x := fun x hx hx' => arrays.line_apart x hx (by omega)
  -- the history
  obtain ⟨s₁, hadd, hs₁, hframe₁⟩ := shellHistoryAdd_spec he.history hfuel he.text hfits hbuffer
  have hline₁ : s₁.memory.HasString arrays.line e.text :=
    he.text.congr fun x hx hx' => hframe₁ x (hbuffer x hx hx')
  -- the arguments
  obtain ⟨m₂, argv, htokens, hargv, hframe₂⟩ :=
    shellTokenize_tokens shellMaxArgs hline₁ arrays.line_ne (hfits.trans_le hfuel)
  have hargv₂ : ArgvIs arrays m₂ argv (tokens shellMaxArgs e.text) :=
    hargv.imp fun _ _ harg => harg.mono le_rfl (by unfold shellLineMax at hfits; omega)
  have hhistory := arrays.history_line
  have hpathsHistory := arrays.history_paths
  have hpaths := arrays.paths_line
  unfold Apart at hhistory hpathsHistory hpaths
  unfold shellLineMax at hfits
  have hs₂ : Searches arrays ⟨⟨m₂, s₁.historyCount⟩, s.searchPathCount, s.events⟩ c.paths :=
    hs.congr rfl fun x hx hx' =>
      (hframe₂ x (by omega)).trans (hframe₁ x (not_inHistory (by omega)))
  obtain ⟨s₃, hrun, hs₃, hevents₃, hspares⟩ := shellCommand_spec spawn hs₂ hargv₂ hfuel
  -- what it leaves of the history
  have hlines₂ : HistoryIs arrays.history ⟨m₂, s₁.historyCount⟩ (addLine c.history e.text) := by
    refine hs₁.congr fun x hx => hframe₂ x ?_
    unfold InHistory shellLineMax shellHistoryMax at hx
    omega
  have hlines₃ : HistoryIs arrays.history s₃.shell (addLine c.history e.text) := by
    have h := hlines₂.congr (m := s₃.memory) fun x hx => by
      have hquery := arrays.query_history
      have hcandidate := arrays.candidate_history
      have hextension := arrays.extension_history
      unfold Apart at hquery hcandidate hextension
      unfold InHistory shellLineMax shellHistoryMax at hx
      exact hspares.frame x (by omega) (by omega) (by omega) (by omega)
    rw [← show s₃.shell.historyCount = s₁.historyCount from hspares.historyCount] at h
    exact h
  have hm₃ : ∀ x, ¬ arrays.Owns x → s₃.memory x = m x := by
    intro x hx
    have hx' := hm x hx
    unfold ShellArrays.Owns at hx
    rw [hspares.frame x (by omega) (by omega) (by omega) (by omega), ← hx',
      ← hframe₁ x (not_inHistory (by omega))]
    exact hframe₂ x (by omega)
  have hnext := sessionIs_prompts hlines₃ hs₃ hm₃
  rw [hevents₃] at hnext
  refine ⟨shellPrompts arrays s₃, ?_, ?_⟩
  · simp only [shellEnter, hadd, htokens, hrun, Option.bind_eq_bind, Option.bind_some]
    rfl
  · rw [← hevents]
    exact hnext

variable (spawn) in
/-- **The next character.** -/
theorem shellChar_spec (h : SessionIs arrays m s c) (hfuel : shellLineMax ≤ fuel) {ch : UInt8}
    (hch : ch ≠ 0) :
    ∃ s', shellChar fuel arrays spawn s ch = some s' ∧ SessionIs arrays m s' (c.key spawn ch) := by
  obtain ⟨s₀, he⟩ := h.edits
  obtain ⟨st, hread, he'⟩ : ∃ st, shellReadChar fuel arrays.history shellPrompt arrays.line shellLineMax
        s.reading ch = some st ∧ Edits arrays.history arrays.line shellLineMax c.history s₀ st
          (c.editor.step shellLineMax c.history ch) :=
    he.readChar arrays.line_ne arrays.line_apart (by decide) (fun _ => le_rfl) hfuel hch
  -- the character changes the line only
  have hline : ∀ x, (x < arrays.line ∨ arrays.line + 256 ≤ x) →
      st.shell.memory x = s.reading.shell.memory x :=
    fun x hx => (he'.frame x hx).trans (he.frame x hx).symm
  have hpaths := arrays.paths_line
  unfold Apart at hpaths
  have hs : Searches arrays ⟨st.shell, s.searchPathCount, s.events⟩ c.paths :=
    h.searches.congr rfl fun x hx hx' => hline x (by omega)
  have hm : ∀ x, ¬ arrays.Owns x → st.shell.memory x = m x := by
    intro x hx
    rw [← h.frame x hx]
    unfold ShellArrays.Owns at hx
    exact hline x (by omega)
  rw [shellChar, hread, Option.bind_eq_bind, Option.bind_some, CommandLine.key]
  dsimp only
  rw [he'.phase]
  by_cases hdone : (c.editor.step shellLineMax c.history ch).phase = .done
  · rw [if_pos hdone, if_pos hdone]
    exact shellEnter_spec (s := { s with reading := st }) he' hs h.events hm hfuel
  · rw [if_neg hdone, if_neg hdone]
    exact ⟨_, rfl, ⟨s₀, he'⟩, hs, h.events, hm⟩

/-- Before the first character. -/
theorem shellMain_spec (arrays : ShellArrays) (m : Mem) :
    SessionIs arrays m (shellMain arrays m) CommandLine.start := by
  have hroot : (ascii "A:/").length = 3 := by decide +kernel
  refine sessionIs_prompts (s := ⟨⟨strcpyLiteral m (searchSlot arrays 0) (ascii "A:/"), 0⟩, 1, []⟩)
    ⟨rfl, Nat.zero_le _, fun _ h => absurd h List.not_mem_nil, fun _ h => absurd h (Nat.not_lt_zero _)⟩
    ⟨rfl, by decide, ?_⟩ fun x hx => strcpyLiteral_out ?_
  · exact (Rows.nil (m := m)).concat (strcpyLiteral_hasString (by decide +kernel))
      (by decide +kernel) fun x hx hx' => absurd hx' (not_lt.2 hx)
  · unfold ShellArrays.Owns at hx
    rw [hroot]
    unfold searchSlot
    omega

/-- Any characters. -/
theorem sessionIs_run (h : SessionIs arrays m s c) (hfuel : shellLineMax ≤ fuel)
    {input : List UInt8} (h0 : 0 ∉ input) :
    ∃ s', input.foldlM (shellChar fuel arrays spawn) s = some s' ∧
      SessionIs arrays m s' (input.foldl (CommandLine.key spawn) c) := by
  induction input generalizing s c with
  | nil => exact ⟨s, rfl, h⟩
  | cons ch input ih =>
    rw [List.mem_cons, not_or] at h0
    obtain ⟨s₁, hstep, h₁⟩ := shellChar_spec spawn h hfuel (Ne.symm h0.1)
    obtain ⟨s', hrun, h'⟩ := ih h₁ h0.2
    refine ⟨s', ?_, h'⟩
    rw [List.foldlM_cons, hstep]
    exact hrun

/-- **The shell is a command line**: after any keys the line that is edited, the history and the
search path are in its memory as they should be, the programs it has started and the messages it
has printed are those of the commands entered, in order, and no memory outside its arrays has
been written. -/
theorem shell_session_refines (arrays : ShellArrays) (spawn : Spawn) (m : Mem) {input : List UInt8}
    (h0 : 0 ∉ input) :
    ∃ rounds, ∀ fuel ≥ rounds, ∃ s, shellSession fuel arrays spawn m input = some s ∧
      SessionIs arrays m s (input.foldl (CommandLine.key spawn) CommandLine.start) :=
  ⟨shellLineMax, fun _ hfuel => sessionIs_run (shellMain_spec arrays m) hfuel h0⟩

/-- Arrays in a row. -/
def shellRow : ShellArrays where
  history := 4096
  searchPaths := 8192
  line := 9216
  query := 9472
  candidate := 9600
  withExtension := 9728
  line_ne := by decide
  searchPaths_ne := by decide
  candidate_ne := by decide
  extension_ne := by decide
  history_paths := by unfold Apart; omega
  history_line := by unfold Apart; omega
  paths_line := by unfold Apart; omega
  query_history := by unfold Apart; omega
  query_paths := by unfold Apart; omega
  query_line := by unfold Apart; omega
  candidate_history := by unfold Apart; omega
  candidate_paths := by unfold Apart; omega
  candidate_line := by unfold Apart; omega
  extension_history := by unfold Apart; omega
  extension_paths := by unfold Apart; omega
  extension_line := by unfold Apart; omega
  candidate_extension := by unfold Apart; omega

/-- A directory is added, and a program found in it. -/
theorem shell_session_refines_found :
    ∃ rounds, ∀ fuel ≥ rounds, ∃ s,
      shellSession fuel shellRow (fun _ path _ => if path = ascii "B:/ls.elf" then 0 else -1)
        (fun _ => 0) (ascii "path add B:\nls x\n") = some s ∧
      s.events = [.spawned (ascii "A:/ls") [ascii "ls", ascii "x"] (-1),
        .spawned (ascii "A:/ls.elf") [ascii "ls", ascii "x"] (-1),
        .spawned (ascii "B:/ls") [ascii "ls", ascii "x"] (-1),
        .spawned (ascii "B:/ls.elf") [ascii "ls", ascii "x"] 0] := by
  obtain ⟨rounds, hrun⟩ := shell_session_refines shellRow
    (fun _ path _ => if path = ascii "B:/ls.elf" then 0 else -1) (fun _ => 0)
    (by decide +kernel : 0 ∉ ascii "path add B:\nls x\n")
  refine ⟨rounds, fun fuel hfuel => ?_⟩
  obtain ⟨s, hs, his⟩ := hrun fuel hfuel
  exact ⟨s, hs, his.events.trans (by decide +kernel)⟩

end

end Ttos
