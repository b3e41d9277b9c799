/-
  `more` (userland/more): a file page by page.

  * `moreNext`, `moreKey`: what the program does next, and what it does with a key.
  * `MorePages`: the text is printed in full pages, one for every key that turns the page, and the
    page behind them is on the screen from its first row on.
  * `more_pages`: so it is in every run, whatever keys are typed.
-/
import Ttos.Lib.Outcome
import Ttos.Userland.Console

namespace Ttos

open Allocator

/-! ## The code -/

/-- Where the program is: in its loops, in `getchar` behind a page, or behind the loops. -/
inductive MorePhase where
  | printing
  | waiting
  | done
deriving DecidableEq, Repr

/-- The local variables, with `pending` what the buffer holds behind `i`. -/
structure MoreState (σ δ : Type) where
  console : ConsoleState σ δ
  rows : ℕ
  cols : ℕ
  fd : ℕ
  buffer : Mem
  pending : List UInt8
  usedRows : ℕ
  usedCols : ℕ
  quit : Bool
  phase : MorePhase

abbrev MoreM (σ δ : Type) := StateT (MoreState σ δ) (Except ConsoleStop)

section

variable {σ δ α : Type}

def onConsole (x : ConsoleM σ δ α) : MoreM σ δ α := fun s =>
  (x s.console).map fun r => (r.1, { s with console := r.2 })

/-- The size of the terminal, or 25 by 80. -/
def moreSize (t : Tty) : ℕ × ℕ := if 1 < t.rows ∧ 0 < t.columns then (t.rows, t.columns) else (25, 80)

/-- The cursor as the program follows it. -/
def moreCount (ch : UInt8) (s : MoreState σ δ) : MoreState σ δ :=
  if ch = 0x0A then { s with usedRows := s.usedRows + 1, usedCols := 0 }
  else if s.cols ≤ s.usedCols + 1 then { s with usedRows := s.usedRows + 1, usedCols := 0 }
  else { s with usedCols := s.usedCols + 1 }

variable [Allocator σ] (machine : Machine σ δ) (process : ℕ)

/-- `putchar` -/
def putcharOut (ch : UInt8) : MoreM σ δ Unit := do
  let _ ← onConsole (syscallWriteOut [ch])

/-- The body of the inner loop: one character, and the prompt behind a page. -/
def moreChar (ch : UInt8) (pending : List UInt8) : MoreM σ δ Unit := do
  putcharOut ch
  modify fun s => moreCount ch { s with pending := pending }
  if (← get).rows - 1 ≤ (← get).usedRows then do
    putcharOut 0x3A
    modify fun s => { s with phase := .waiting }
  else pure ()

/-- The end of `main`. -/
def moreEnd : MoreM σ δ Unit := do
  let _ ← onConsole (onFds (syscallClose process ((← get).fd : Int)))
  modify fun s => { s with phase := .done }

/-- The outer loop fills the buffer. -/
def moreRead : MoreM σ δ Unit := do
  let (bytesRead, buffer) ← onConsole (onFds
    (syscallReadFile machine process ((← get).fd : Int) 512 (← get).buffer))
  if 0 < bytesRead then
    modify fun s => { s with buffer := buffer, pending := (List.range bytesRead.toNat).map buffer }
  else moreEnd process

/-- What the program does next while it does not wait for a key. -/
def moreNext : MoreM σ δ Unit := do
  if (← get).quit = true then moreEnd process
  else
    match (← get).pending with
    | ch :: pending => moreChar ch pending
    | [] => moreRead machine process

/-- The prompt character is erased. -/
def eraseOut : MoreM σ δ Unit := do
  putcharOut 0x08
  putcharOut 0x20
  putcharOut 0x08

/-- What `getchar` returned while the program waits: `q` quits, `n` and Enter go on. -/
def moreKey (c : UInt8) : MoreM σ δ Unit := do
  modify fun s => if c = 0x71 then { s with quit := true } else s
  if (← get).quit = true ∨ c = 0x6E ∨ c = 0x0A then do
    eraseOut
    modify fun s => { s with usedRows := 0, usedCols := 0, phase := .printing }
  else pure ()

/-- The state behind `fsio_open`. -/
def moreStart (size : ℕ × ℕ) (console : ConsoleState σ δ) (fd : ℕ) (buffer : Mem) : MoreState σ δ where
  console := console
  rows := size.1
  cols := size.2
  fd := fd
  buffer := buffer
  pending := []
  usedRows := 0
  usedCols := 0
  quit := false
  phase := .printing

/-- The loops until the next `getchar`, or until the end. -/
def moreLoop : ℕ → MoreM σ δ Unit
  | 0 => pure ()
  | k + 1 => do
    if (← get).phase = .printing then do
      moreNext machine process
      moreLoop k
    else pure ()

/-- The state and the keys read so far. -/
structure MoreHistory (σ δ : Type) where
  state : MoreState σ δ
  keys : List UInt8

/-- Runs of the program on the file at `path`; a step with a label is a key. -/
def moreSystem (console : ConsoleState σ δ) (path : List UInt8) (buffer : Mem) :
    TransitionSystem (MoreHistory σ δ) (Option UInt8) where
  init h := ∃ (fd : ℕ) (opened : ConsoleState σ δ),
    onFds (syscallOpen machine process path fileRdonly) console = .ok ((fd : Int), opened) ∧
      h = ⟨moreStart (moreSize console.tty.tty) opened fd buffer, []⟩
  step h label h' :=
    match label with
    | none => h.state.phase = .printing ∧ ∃ s, moreNext machine process h.state = .ok ((), s) ∧
        h' = ⟨s, h.keys⟩
    | some c => h.state.phase = .waiting ∧ ∃ s, moreKey c h.state = .ok ((), s) ∧
        h' = ⟨s, h.keys ++ [c]⟩

end

/-! ## Pages -/

/-- A character of a plain text: a line feed, or one that is printed. -/
def PlainChar (c : UInt8) : Prop := c ≠ 0 ∧ (c = 0x0A ∨ Glyph c)

/-- The row and the column behind a character. -/
def extentStep (q : ℕ × ℕ) (c : UInt8) : ℕ × ℕ :=
  if c = 0x0A ∨ 80 ≤ q.2 + 1 then (q.1 + 1, 0) else (q.1, q.2 + 1)

/-- The rows that a text fills from the beginning of a row on, and the columns of the next one. -/
def extent (text : List UInt8) : ℕ × ℕ := text.foldl extentStep (0, 0)

/-- A page of the terminal: all rows but the one of the prompt. -/
def FullPage (page : List UInt8) : Prop := extent page = (24, 0)

/-- The text that erases the prompt. -/
def moreErase : List UInt8 := [0x08, 0x20, 0x08]

/-- Pages with their prompts. -/
def moreTurned (pages : List (List UInt8)) : List UInt8 :=
  pages.flatMap fun page => page ++ 0x3A :: moreErase

/-- What is printed when `pages` were turned and `page` is the next one. -/
def morePrinted (pages : List (List UInt8)) (page : List UInt8) (phase : MorePhase) : List UInt8 :=
  moreTurned pages ++ (page ++ if phase = .waiting then [0x3A] else [])

/-- The keys that turn the page. -/
def turnsPage (c : UInt8) : Bool := c = 0x71 ∨ c = 0x6E ∨ c = 0x0A

theorem extent_append (text : List UInt8) (c : UInt8) :
    extent (text ++ [c]) = extentStep (extent text) c := by
  rw [extent, List.foldl_append]
  rfl

theorem extent_col_lt (text : List UInt8) : (extent text).2 < 80 := by
  induction text using List.reverseRecOn with
  | nil => decide
  | append_singleton text c ih =>
    rw [extent_append, extentStep]
    split_ifs with hend
    · exact Nat.zero_lt_succ _
    · show (extent text).2 + 1 < 80
      omega

/-- The character that reaches the last row of a page fills it. -/
theorem fullPage_append {page : List UInt8} {c : UInt8} (hrows : (extent page).1 < 24)
    (hfull : 24 ≤ (extent (page ++ [c])).1) : FullPage (page ++ [c]) := by
  rw [FullPage]
  rw [extent_append] at hfull ⊢
  unfold extentStep at hfull ⊢
  split_ifs at hfull ⊢ with hend
  · rw [Prod.mk.injEq]
    dsimp only at hfull
    omega
  · dsimp only at hfull
    omega

theorem morePrinted_waiting (pages : List (List UInt8)) (page : List UInt8) :
    morePrinted pages page .waiting = morePrinted pages page .printing ++ [0x3A] := by
  rw [morePrinted, morePrinted, if_pos rfl, if_neg (by decide), List.append_nil, List.append_assoc]

theorem morePrinted_turned (pages : List (List UInt8)) (page : List UInt8) :
    morePrinted (pages ++ [page]) [] .printing = morePrinted pages page .waiting ++ moreErase := by
  rw [morePrinted, morePrinted, if_pos rfl, if_neg (by decide), moreTurned, List.flatMap_append,
    List.flatMap_singleton, List.append_nil, List.append_nil, ← moreTurned, List.append_assoc,
    List.append_assoc]
  rfl

section

variable (fg bg : UInt8) {c : UInt8} {p : Paper} {text : List UInt8}

/-- A plain character takes the print position where the program counts it. -/
theorem Paper.print_plain (hc : c = 0x0A ∨ Glyph c) :
    (p.print 80 fg bg c).row = (if c = 0x0A ∨ 80 ≤ p.col + 1 then p.row + 1 else p.row) ∧
      (p.print 80 fg bg c).col = (if c = 0x0A ∨ 80 ≤ p.col + 1 then 0 else p.col + 1) := by
  unfold Paper.print Paper.strike Paper.wrap
  rcases hc with rfl | ⟨h8, h9, hA, hD, -⟩
  · rw [if_pos rfl, if_neg (by show ¬ 80 ≤ 0; omega), if_pos (Or.inl rfl), if_pos (Or.inl rfl)]
    exact ⟨rfl, rfl⟩
  · rw [if_neg hA, if_neg hD, if_neg h8, if_neg h9]
    show (if 80 ≤ p.col + 1 then _ else _ : Paper).row = _ ∧
      (if 80 ≤ p.col + 1 then _ else _ : Paper).col = _
    by_cases hfull : 80 ≤ p.col + 1
    · rw [if_pos hfull, if_pos (Or.inr hfull), if_pos (Or.inr hfull)]
      exact ⟨rfl, rfl⟩
    · rw [if_neg hfull, if_neg (by tauto), if_neg (by tauto)]
      exact ⟨rfl, rfl⟩

/-- Plain text moves the print position by its extent. -/
theorem Paper.print_text (htext : ∀ c ∈ text, PlainChar c) (hcol : p.col = 0) :
    (text.foldl (Paper.print 80 fg bg) p).row = p.row + (extent text).1 ∧
      (text.foldl (Paper.print 80 fg bg) p).col = (extent text).2 := by
  induction text using List.reverseRecOn with
  | nil => exact ⟨rfl, hcol⟩
  | append_singleton text c ih =>
    obtain ⟨hr, hc⟩ := ih fun c hc => htext c (List.mem_append_left _ hc)
    obtain ⟨hrow, hcol⟩ := Paper.print_plain fg bg (p := text.foldl (Paper.print 80 fg bg) p)
      (htext c (List.mem_append_right _ (List.mem_singleton_self c))).2
    rw [hr, hc] at hrow
    rw [hc] at hcol
    rw [List.foldl_append, List.foldl_cons, List.foldl_nil, hrow, hcol, extent_append, extentStep]
    split_ifs
    all_goals exact ⟨rfl, rfl⟩

theorem Paper.print_back (hx : p.col < 80) :
    (p.print 80 fg bg 0x08).row = p.row ∧ (p.print 80 fg bg 0x08).col = p.col - 1 := by
  have hstrike : p.strike fg bg 0x08 =
      ({ p with col := p.col - 1 } : Paper).mark (vgaTmEntry 0x20 fg bg) := rfl
  rw [Paper.print, hstrike, Paper.wrap, if_neg (by show ¬ 80 ≤ p.col - 1; omega)]
  exact ⟨rfl, rfl⟩

/-- The prompt printed and erased: the print position is at the beginning of the row again. -/
theorem Paper.print_prompt (hx : p.col = 0) :
    ((0x3A :: moreErase).foldl (Paper.print 80 fg bg) p).row = p.row ∧
      ((0x3A :: moreErase).foldl (Paper.print 80 fg bg) p).col = 0 := by
  obtain ⟨hr1, hc1⟩ := Paper.print_plain (p := p) fg bg (c := 0x3A) (by decide)
  rw [hx, if_neg (by decide)] at hr1 hc1
  obtain ⟨hr2, hc2⟩ := Paper.print_back fg bg (by rw [hc1]; decide)
  rw [hr1] at hr2
  rw [hc1] at hc2
  obtain ⟨hr3, hc3⟩ := Paper.print_plain fg bg (c := 0x20) (by decide)
  rw [hr2, hc2, if_neg (by decide)] at hr3
  rw [hc2, if_neg (by decide)] at hc3
  obtain ⟨hr4, hc4⟩ := Paper.print_back fg bg (by rw [hc3]; decide)
  rw [hr3] at hr4
  rw [hc3] at hc4
  exact ⟨hr4, hc4⟩

/-- Every page begins at the beginning of a row. -/
theorem Paper.print_pages {pages : List (List UInt8)} (hplain : ∀ page ∈ pages, ∀ c ∈ page, PlainChar c)
    (hfull : ∀ page ∈ pages, FullPage page) (hcol : p.col = 0) :
    ((moreTurned pages).foldl (Paper.print 80 fg bg) p).col = 0 := by
  induction pages generalizing p with
  | nil => exact hcol
  | cons page pages ih =>
    have hpage : (page.foldl (Paper.print 80 fg bg) p).col = 0 :=
      (Paper.print_text fg bg (hplain page List.mem_cons_self) hcol).2.trans
        (congrArg Prod.snd (hfull page List.mem_cons_self))
    rw [moreTurned, List.flatMap_cons, ← moreTurned, List.foldl_append, List.foldl_append]
    exact ih (fun q hq => hplain q (List.mem_cons_of_mem _ hq))
      (fun q hq => hfull q (List.mem_cons_of_mem _ hq)) (Paper.print_prompt fg bg hpage).2

end

/-! ## Runs -/

section

variable {σ δ α : Type} [Allocator σ] {machine : Machine σ δ} {images : ℕ → VolumeImage}
  {process a no offset : ℕ} {console : ConsoleState σ δ} {s : MoreState σ δ}
  {text page : List UInt8} {pages : List (List UInt8)}

/-- The descriptor of the program is open on the file, every other one is as it was on `console`. -/
structure MoreOpen (machine : Machine σ δ) (images : ℕ → VolumeImage) (process a no : ℕ)
    (console : ConsoleState σ δ) (offset : ℕ) (s : MoreState σ δ) : Prop where
  fd_ge : 3 ≤ s.fd
  fd_lt : s.fd < processMaxFileDescriptors
  closed : console.fds.files process s.fd = 0
  others : ∀ process' fd', (process', fd') ≠ (process, s.fd) →
    s.console.fds.files process' fd' = console.fds.files process' fd'
  reads : ReadsFile machine images process s.fd a no offset s.console.fds

theorem MoreOpen.same (h : MoreOpen machine images process a no console offset s)
    {console' : ConsoleState σ δ} (hsame : s.console.fds.Same console'.fds) {s' : MoreState σ δ}
    (hfd : s'.fd = s.fd) (hconsole : s'.console = console') :
    MoreOpen machine images process a no console offset s' where
  fd_ge := by rw [hfd]; exact h.fd_ge
  fd_lt := by rw [hfd]; exact h.fd_lt
  closed := by rw [hfd]; exact h.closed
  others process' fd' hne := by
    rw [hfd] at hne
    rw [hconsole, hsame.files]
    exact h.others process' fd' hne
  reads := by
    rw [hfd, hconsole]
    exact h.reads.same hsame

/-- The invariant of a run: `text` is what is printed, what the buffer holds, and what is not read
yet. -/
structure MoreAt (machine : Machine σ δ) (images : ℕ → VolumeImage) (process a no : ℕ)
    (console : ConsoleState σ δ) (text : List UInt8) (pages : List (List UInt8)) (page : List UInt8)
    (offset : ℕ) (s : MoreState σ δ) : Prop where
  rows : s.rows = 25
  cols : s.cols = 80
  output : s.console.tty = console.tty.puts (morePrinted pages page s.phase)
  text_eq : text = pages.flatten ++ (page ++ (s.pending ++ (images a).tree.rest no offset))
  full : ∀ page ∈ pages, FullPage page
  waiting : s.phase = .waiting → FullPage page ∧ s.quit = false
  printing : s.phase ≠ .waiting → extent page = (s.usedRows, s.usedCols) ∧ s.usedRows < 24
  quit : s.quit = true → page = []
  running : s.phase ≠ .done → MoreOpen machine images process a no console offset s
  ended : s.phase = .done → s.console.fds.files = console.fds.files ∧
    (s.quit = false → text = pages.flatten ++ page)

/-- How many steps there are at most until the next key. -/
def moreLeft (images : ℕ → VolumeImage) (a no offset : ℕ) (s : MoreState σ δ) : ℕ :=
  2 * ((images a).tree.length no - offset) + s.pending.length

/-! ## Steps -/

variable {c : UInt8}

omit [Allocator σ] in
theorem meets_onConsole {x : ConsoleM σ δ α} {Q : α → ConsoleState σ δ → Prop}
    (h : Meets NoRoom x s.console Q) :
    Meets NoRoom (onConsole x) s fun r s' => ∃ console', s' = { s with console := console' } ∧
      Q r console' := by
  rcases h.cases with ⟨e, hx, he⟩ | ⟨r, console', hx, hq⟩
  · exact Meets.of_error (by rw [onConsole, hx]; rfl) he
  · exact Meets.of_ok (by rw [onConsole, hx]; rfl) ⟨console', rfl, hq⟩

theorem meets_putcharOut (hc : c ≠ 0) :
    Meets NoRoom (putcharOut c) s fun _ s' => ∃ console', s' = { s with console := console' } ∧
      console'.tty = s.console.tty.puts [c] ∧ s.console.fds.Same console'.fds := by
  rw [putcharOut]
  have hsize : Request ([c].length + 1) := by
    rw [List.length_singleton]
    decide
  refine (meets_onConsole (meets_syscallWriteOut [c] hsize)).bind ?_
  rintro _ _ ⟨console', rfl, -, htty, hsame⟩
  refine Meets.pure ⟨console', rfl, ?_, hsame⟩
  rw [htty, puts_message _ (by rw [List.mem_singleton]; exact Ne.symm hc)]

theorem meets_eraseOut :
    Meets NoRoom eraseOut s fun _ s' => ∃ console', s' = { s with console := console' } ∧
      console'.tty = s.console.tty.puts moreErase ∧ s.console.fds.Same console'.fds := by
  rw [eraseOut]
  refine (meets_putcharOut (by decide)).bind ?_
  rintro _ _ ⟨console₁, rfl, htty₁, hsame₁⟩
  refine (meets_putcharOut (by decide)).bind ?_
  rintro _ _ ⟨console₂, rfl, htty₂, hsame₂⟩
  refine (meets_putcharOut (by decide)).mono ?_
  rintro _ _ ⟨console₃, rfl, htty₃, hsame₃⟩
  dsimp only at htty₂ htty₃ hsame₂ hsame₃
  refine ⟨console₃, rfl, ?_, (hsame₁.trans hsame₂).trans hsame₃⟩
  rw [htty₃, htty₂, htty₁, ← IdleTty.puts_append, ← IdleTty.puts_append]
  rfl

omit [Allocator σ] in
/-- The counters follow the print position. -/
theorem moreCount_eq (c : UInt8) (s : MoreState σ δ) (hcols : s.cols = 80) :
    moreCount c s = { s with
      usedRows := (extentStep (s.usedRows, s.usedCols) c).1
      usedCols := (extentStep (s.usedRows, s.usedCols) c).2 } := by
  unfold moreCount extentStep
  rw [hcols]
  by_cases hA : c = 0x0A
  · rw [if_pos hA, if_pos (Or.inl hA)]
  · rw [if_neg hA]
    by_cases hfull : 80 ≤ s.usedCols + 1
    · rw [if_pos hfull, if_pos (Or.inr hfull)]
    · rw [if_neg hfull, if_neg (by tauto)]

/-- **One character.** -/
theorem meets_moreChar {pending : List UInt8}
    (h : MoreAt machine images process a no console text pages page offset s)
    (hphase : s.phase = .printing) (hquit : s.quit = false) (hpending : s.pending = c :: pending)
    (hc : c ≠ 0) :
    Meets NoRoom (moreChar c pending) s fun _ s' =>
      MoreAt machine images process a no console text pages (page ++ [c]) offset s' ∧
        s'.quit = false ∧ s'.pending = pending := by
  have hrunning := h.running (by rw [hphase]; decide)
  obtain ⟨hextent, hrows⟩ := h.printing (by rw [hphase]; decide)
  have hstep : extent (page ++ [c]) = extentStep (s.usedRows, s.usedCols) c := by
    rw [extent_append, hextent]
  have htext : text = pages.flatten ++
      (page ++ [c] ++ (pending ++ (images a).tree.rest no offset)) := by
    rw [h.text_eq, hpending, List.append_assoc page]
    rfl
  have hprinted : (console.tty.puts (morePrinted pages page s.phase)).puts [c] =
      console.tty.puts (morePrinted pages (page ++ [c]) .printing) := by
    rw [← IdleTty.puts_append, hphase, morePrinted, morePrinted, if_neg (by decide), List.append_nil,
      List.append_nil, List.append_assoc]
  rw [moreChar]
  refine (meets_putcharOut hc).bind ?_
  rintro _ _ ⟨console₁, rfl, htty₁, hsame₁⟩
  rw [h.output, hprinted] at htty₁
  refine Meets.modify_bind (Meets.get_bind (Meets.get_bind ?_))
  rw [moreCount_eq c { s with console := console₁, pending := pending } h.cols]
  dsimp only
  rw [← hstep]
  have hrows25 := h.rows
  by_cases hfull : s.rows - 1 ≤ (extent (page ++ [c])).1
  · -- the page is full
    rw [if_pos hfull]
    have hpage : FullPage (page ++ [c]) :=
      fullPage_append (by rwa [hextent]) (by omega)
    refine (meets_putcharOut (by decide)).bind ?_
    rintro _ _ ⟨console₂, rfl, htty₂, hsame₂⟩
    refine Meets.of_ok rfl ⟨⟨h.rows, h.cols, ?_, htext, h.full, fun _ => ⟨hpage, hquit⟩,
      fun hne => absurd rfl hne, fun hq => absurd (hquit.symm.trans hq) Bool.false_ne_true, fun _ => ?_,
      fun hdone => by cases hdone⟩, hquit, rfl⟩
    · show console₂.tty = _
      rw [htty₂]
      show console₁.tty.puts [0x3A] = _
      rw [htty₁, ← IdleTty.puts_append, morePrinted_waiting]
    · have hopen₁ : MoreOpen machine images process a no console offset
          { s with console := console₁ } := hrunning.same hsame₁ rfl rfl
      exact hopen₁.same hsame₂ rfl rfl
  · rw [if_neg hfull]
    refine Meets.pure ⟨⟨h.rows, h.cols, ?_, htext, h.full, fun hw => ?_, fun _ => ⟨rfl, ?_⟩,
      fun hq => absurd (hquit.symm.trans hq) Bool.false_ne_true,
      fun _ => hrunning.same hsame₁ rfl rfl, fun hdone => ?_⟩, hquit, rfl⟩
    · rw [hphase]
      exact htty₁
    · rw [hphase] at hw
      cases hw
    · show (extent (page ++ [c])).1 < 24
      omega
    · rw [hphase] at hdone
      cases hdone

/-- **The end**: the descriptor is closed again. -/
theorem meets_moreEnd (h : MoreAt machine images process a no console text pages page offset s)
    (hphase : s.phase = .printing)
    (hall : s.quit = false → s.pending = [] ∧ (images a).tree.rest no offset = []) :
    Meets NoRoom (moreEnd process) s fun _ s' =>
      MoreAt machine images process a no console text pages page offset s' ∧ s'.quit = s.quit ∧
        s'.phase = .done := by
  obtain ⟨h3, hfd, hclosed, hothers, ho, h0, hr⟩ := h.running (by rw [hphase]; decide)
  rw [moreEnd]
  refine Meets.get_bind ?_
  refine (meets_onConsole (meets_onFds (meets_syscallClose ho h3 hfd h0 hr))).bind ?_
  rintro _ _ ⟨console', rfl, htty, -, o, hc, hfds⟩
  have hfiles : console'.fds.files = console.fds.files := by
    funext process' fd'
    rw [hfds]
    by_cases he : (process', fd') = (process, s.fd)
    · obtain ⟨rfl, rfl⟩ := Prod.mk.inj he
      exact (files_setFile_self _ _ _ _).trans hclosed.symm
    · exact (files_setFile_ne he _).trans (hothers process' fd' he)
  refine Meets.of_ok rfl ⟨⟨h.rows, h.cols, ?_, h.text_eq, h.full, fun hw => (by cases hw), fun _ =>
    h.printing (by rw [hphase]; decide), h.quit, fun hne => absurd rfl hne,
    fun _ => ⟨hfiles, fun hq => ?_⟩⟩, rfl, rfl⟩
  · show console'.tty = console.tty.puts (morePrinted pages page .done)
    rw [htty, h.output, hphase]
    rfl
  · obtain ⟨hpending, hrest⟩ := hall hq
    rw [h.text_eq, hpending, hrest, List.append_nil, List.append_nil]

/-- **The next piece of the file**, or the end. -/
theorem meets_moreRead (h : MoreAt machine images process a no console text pages page offset s)
    (hphase : s.phase = .printing) (hquit : s.quit = false) (hpending : s.pending = [])
    (hlt : (images a).tree.length no < 2147483648) :
    Meets NoRoom (moreRead machine process) s fun _ s' => ∃ offset',
      MoreAt machine images process a no console text pages page offset' s' ∧ s'.quit = false ∧
        (s'.phase = .printing →
          moreLeft images a no offset' s' < moreLeft images a no offset s) := by
  obtain ⟨h3, hfd, hclosed, hothers, hreads⟩ := h.running (by rw [hphase]; decide)
  rw [moreRead]
  refine Meets.get_bind (Meets.get_bind ?_)
  refine (meets_onConsole (meets_readNext hfd hlt hreads (by decide : 512 < 2147483648) s.buffer)).bind ?_
  rintro ⟨bytesRead, buffer⟩ _ ⟨console', rfl, htty, hfiles, -, hcount, hdata, hnext⟩
  dsimp only at hcount hdata ⊢
  have hopen : MoreOpen machine images process a no console
      (offset + available ((images a).tree.length no) offset 512) { s with console := console' } := by
    refine ⟨h3, hfd, hclosed, fun process' fd' hne => ?_, hnext⟩
    show console'.fds.files process' fd' = _
    rw [hfiles]
    exact hothers process' fd' hne
  have hle := hreads.reading.offset_le
  have havail : offset + available ((images a).tree.length no) offset 512 ≤
      (images a).tree.length no := by
    unfold available
    omega
  have hoffset : (images a).tree.rest no offset =
      (List.range bytesRead.toNat).map buffer ++
        (images a).tree.rest no (offset + available ((images a).tree.length no) offset 512) := by
    rw [FileTree.rest_append havail, hdata]
  have htext := h.text_eq
  rw [hpending, List.nil_append, hoffset] at htext
  split_ifs with hpos
  · -- some bytes were read
    refine Meets.of_ok rfl ⟨_, ⟨h.rows, h.cols, ?_, htext, h.full, fun hw => ?_, fun _ =>
      h.printing (by rw [hphase]; decide), h.quit, fun _ => ?_, fun hdone => ?_⟩, hquit, fun _ => ?_⟩
    · show console'.tty = _
      rw [htty]
      exact h.output
    · exact h.waiting hw
    · exact ⟨h3, hfd, hclosed, hopen.others, hnext⟩
    · rw [hphase] at hdone
      cases hdone
    · show 2 * _ + ((List.range bytesRead.toNat).map buffer).length < 2 * _ + s.pending.length
      rw [List.length_map, List.length_range, hcount, Int.toNat_natCast, hpending, List.length_nil]
      omega
  · -- the end of the file
    have hzero : available ((images a).tree.length no) offset 512 = 0 := by omega
    rw [hzero, Nat.add_zero] at hopen
    have hnone : (images a).tree.rest no offset = [] := by
      refine FileTree.rest_eq_nil ?_
      unfold available at hzero
      omega
    have hat : MoreAt machine images process a no console text pages page offset
        { s with console := console' } :=
      ⟨h.rows, h.cols, htty.trans h.output, h.text_eq, h.full, h.waiting, h.printing, h.quit,
        fun _ => hopen, fun hdone => by rw [hphase] at hdone; cases hdone⟩
    refine (meets_moreEnd hat hphase fun _ => ⟨hpending, hnone⟩).mono ?_
    rintro _ s' ⟨hat', hq, hdone⟩
    refine ⟨offset, hat', hq.trans hquit, fun hp => ?_⟩
    rw [hdone] at hp
    cases hp

/-- **One step.** -/
theorem meets_moreNext (htext : ∀ c ∈ text, PlainChar c)
    (h : MoreAt machine images process a no console text pages page offset s)
    (hphase : s.phase = .printing) (hlt : (images a).tree.length no < 2147483648) :
    Meets NoRoom (moreNext machine process) s fun _ s' => ∃ page' offset',
      MoreAt machine images process a no console text pages page' offset' s' ∧ s'.quit = s.quit ∧
        (s'.phase = .printing →
          moreLeft images a no offset' s' < moreLeft images a no offset s) := by
  rw [moreNext]
  refine Meets.get_bind ?_
  split_ifs with hquit
  · refine (meets_moreEnd h hphase fun hq => ?_).mono ?_
    · exact absurd (hq.symm.trans hquit) Bool.false_ne_true
    · rintro _ s' ⟨hat, hq, hdone⟩
      refine ⟨page, offset, hat, hq, fun hp => ?_⟩
      rw [hdone] at hp
      cases hp
  · rw [Bool.not_eq_true] at hquit
    refine Meets.get_bind ?_
    rw [hquit]
    cases hpending : s.pending with
    | nil =>
      refine (meets_moreRead h hphase hquit hpending hlt).mono ?_
      rintro _ s' ⟨offset', hat, hq, hleft⟩
      exact ⟨page, offset', hat, hq, hleft⟩
    | cons c pending =>
      have hc : c ∈ text := by
        rw [h.text_eq, hpending]
        exact List.mem_append_right _ (List.mem_append_right _ (List.mem_append_left _ List.mem_cons_self))
      refine (meets_moreChar h hphase hquit hpending (htext c hc).1).mono ?_
      rintro _ s' ⟨hat, hq, hp⟩
      refine ⟨page ++ [c], offset, hat, hq, fun _ => ?_⟩
      rw [moreLeft, moreLeft, hp, hpending, List.length_cons]
      omega

/-- **The loops** come to the next key, or to the end. -/
theorem meets_moreLoop (htext : ∀ c ∈ text, PlainChar c) {k : ℕ}
    (h : MoreAt machine images process a no console text pages page offset s)
    (hlt : (images a).tree.length no < 2147483648) (hk : moreLeft images a no offset s < k) :
    Meets NoRoom (moreLoop machine process k) s fun _ s' => s'.phase ≠ .printing := by
  induction k generalizing s page offset with
  | zero => exact absurd hk (Nat.not_lt_zero _)
  | succ k ih =>
    rw [moreLoop]
    refine Meets.get_bind ?_
    split_ifs with hphase
    · refine (meets_moreNext htext h hphase hlt).bind ?_
      rintro _ s' ⟨page', offset', hat, -, hleft⟩
      by_cases hp : s'.phase = .printing
      · have hless := hleft hp
        exact ih hat (by omega)
      · cases k with
        | zero => exact Meets.pure hp
        | succ k =>
          rw [moreLoop]
          refine Meets.get_bind ?_
          rw [if_neg hp]
          exact Meets.pure hp
    · exact Meets.pure hphase

/-- **A key** turns the page, or does nothing. -/
theorem meets_moreKey (h : MoreAt machine images process a no console text pages page offset s)
    (hphase : s.phase = .waiting) (c : UInt8) :
    Meets NoRoom (moreKey c) s fun _ s' => (s'.quit = true ↔ c = 0x71) ∧
      (s'.phase = .printing ↔ turnsPage c = true) ∧
      MoreAt machine images process a no console text
        (if turnsPage c then pages ++ [page] else pages) (if turnsPage c then [] else page) offset
        s' := by
  obtain ⟨hpage, hquit⟩ := h.waiting hphase
  have hopen := h.running (by rw [hphase]; decide)
  have hfirst : (if c = 0x71 then { s with quit := true } else s) =
      { s with quit := decide (c = 0x71) } := by
    by_cases hq : c = 0x71
    · rw [if_pos hq, decide_eq_true hq]
    · rw [if_neg hq, decide_eq_false hq, ← hquit]
  rw [moreKey]
  refine Meets.modify_bind ?_
  rw [hfirst]
  refine Meets.get_bind ?_
  dsimp only
  have hiff : decide (c = 0x71) = true ∨ c = 0x6E ∨ c = 0x0A ↔ c = 0x71 ∨ c = 0x6E ∨ c = 0x0A := by
    rw [decide_eq_true_iff]
  by_cases hturn : c = 0x71 ∨ c = 0x6E ∨ c = 0x0A
  · have hpages : turnsPage c = true := decide_eq_true hturn
    rw [if_pos (hiff.2 hturn), if_pos hpages, if_pos hpages]
    refine meets_eraseOut.bind ?_
    rintro _ _ ⟨console', rfl, htty, hsame⟩
    refine Meets.of_ok rfl ⟨decide_eq_true_iff, ⟨fun _ => hpages, fun _ => rfl⟩, h.rows, h.cols, ?_, ?_, ?_,
      fun hw => (by cases hw), fun _ => ⟨rfl, show 0 < 24 from Nat.zero_lt_succ _⟩, fun _ => rfl,
      fun _ => ?_, fun hdone => by cases hdone⟩
    · show console'.tty = console.tty.puts (morePrinted (pages ++ [page]) [] .printing)
      rw [morePrinted_turned, ← hphase, IdleTty.puts_append, ← h.output, htty]
    · rw [List.flatten_append, List.flatten_singleton, List.append_assoc]
      exact h.text_eq
    · intro q hq
      rcases List.mem_append.1 hq with hq | hq
      · exact h.full q hq
      · rw [List.mem_singleton.1 hq]
        exact hpage
    · exact hopen.same hsame rfl rfl
  · have hpages : ¬ turnsPage c = true := fun ht => hturn (of_decide_eq_true ht)
    have hq : decide (c = 0x71) = s.quit := by
      rw [hquit]
      exact decide_eq_false fun hq => hturn (Or.inl hq)
    rw [if_neg fun h => hturn (hiff.1 h), if_neg hpages, if_neg hpages, hq]
    refine Meets.pure ⟨⟨fun hs => ?_, fun hq => ?_⟩, ⟨fun hp => ?_, fun ht => absurd ht hpages⟩, h⟩
    · exact absurd (hquit.symm.trans hs) Bool.false_ne_true
    · exact absurd (Or.inl hq) hturn
    · rw [hphase] at hp
      cases hp

/-! ## The program -/

/-- The paper that a text is printed on behind what is on the screen. -/
def Paper.behind (t : Tty) (text : List UInt8) : Paper :=
  text.foldl (Paper.print 80 t.fgcolor t.bgcolor) (Paper.ofScreen t)

/-- What the program has shown: full pages, one for every key that turned the page, and one more
page, which is on the screen from its first row on; in the end all of the text, unless a key was
`q`. -/
structure MorePages (console : ConsoleState σ δ) (text : List UInt8) (pages : List (List UInt8))
    (page : List UInt8) (h : MoreHistory σ δ) : Prop where
  printed : pages.flatten ++ page <+: text
  turned : pages.length = (h.keys.filter turnsPage).length
  full : ∀ page ∈ pages, FullPage page
  waiting : h.state.phase = .waiting → FullPage page
  screen : ShowsPaper console.tty.tty.fgcolor console.tty.tty.bgcolor h.state.console.tty.tty
    (Paper.behind console.tty.tty (morePrinted pages page h.state.phase))
  column : (Paper.behind console.tty.tty (moreTurned pages)).col = 0
  shown : (Paper.behind console.tty.tty (morePrinted pages page h.state.phase)).top 25 ≤
    (Paper.behind console.tty.tty (moreTurned pages)).row
  quit : 0x71 ∈ h.keys → page = []
  finished : h.state.phase = .done → h.state.console.fds.files = console.fds.files ∧
    (0x71 ∉ h.keys → pages.flatten ++ page = text)

/-- The invariant of a run, with the keys. -/
def MoreKept (machine : Machine σ δ) (images : ℕ → VolumeImage) (process a no : ℕ)
    (console : ConsoleState σ δ) (text : List UInt8) (h : MoreHistory σ δ) : Prop :=
  ∃ pages page offset, MoreAt machine images process a no console text pages page offset h.state ∧
    pages.length = (h.keys.filter turnsPage).length ∧ (h.state.quit = true ↔ 0x71 ∈ h.keys)

theorem plain_output (hpages : ∀ page ∈ pages, ∀ c ∈ page, PlainChar c)
    (hpage : ∀ c ∈ page, PlainChar c) (phase : MorePhase) : 0x1B ∉ morePrinted pages page phase := by
  have hplain : ∀ c : UInt8, PlainChar c → 0x1B ≠ c := by
    rintro c ⟨-, rfl | hg⟩
    · decide
    · exact Ne.symm hg.2.2.2.2
  intro hmem
  rcases List.mem_append.1 hmem with hmem | hmem
  · obtain ⟨q, hq, hmem⟩ := List.mem_flatMap.1 hmem
    rcases List.mem_append.1 hmem with hmem | hmem
    · exact hplain _ (hpages q hq _ hmem) rfl
    · exact absurd hmem (by decide)
  · rcases List.mem_append.1 hmem with hmem | hmem
    · exact hplain _ (hpage _ hmem) rfl
    · split_ifs at hmem
      · exact absurd hmem (by decide)
      · cases hmem

/-- **On the screen**: the page of a state of the program. -/
theorem MoreAt.shows (h : MoreAt machine images process a no console text pages page offset s)
    (ht : TextScreen console.tty.tty) (hx : console.tty.tty.cursorX = 0)
    (htext : ∀ c ∈ text, PlainChar c) {keys : List UInt8}
    (hkeys : pages.length = (keys.filter turnsPage).length) (hquit : s.quit = true ↔ 0x71 ∈ keys) :
    MorePages console text pages page ⟨s, keys⟩ := by
  have hplain : ∀ q ∈ pages, ∀ c ∈ q, PlainChar c := fun q hq c hc => by
    refine htext c ?_
    rw [h.text_eq]
    exact List.mem_append_left _ (List.mem_flatten.2 ⟨q, hq, hc⟩)
  have hpage : ∀ c ∈ page, PlainChar c := fun c hc => by
    refine htext c ?_
    rw [h.text_eq]
    exact List.mem_append_right _ (List.mem_append_left _ hc)
  have hcol : (Paper.behind console.tty.tty (moreTurned pages)).col = 0 :=
    Paper.print_pages _ _ hplain h.full hx
  obtain ⟨hrow, hpos⟩ := Paper.print_text console.tty.tty.fgcolor console.tty.tty.bgcolor hpage hcol
  refine ⟨?_, hkeys, h.full, fun hw => (h.waiting hw).1, ?_, hcol, ?_, fun hq => h.quit (hquit.2 hq),
    fun hdone => ⟨(h.ended hdone).1, fun hq => ?_⟩⟩
  · rw [h.text_eq, ← List.append_assoc]
    exact List.prefix_append _ _
  · show ShowsPaper _ _ s.console.tty.tty _
    rw [h.output, IdleTty.tty_puts]
    exact (ht.shows.puts (plain_output hplain hpage _)).1
  · show (Paper.behind console.tty.tty (morePrinted pages page s.phase)).row + 1 - 25 ≤ _
    rw [morePrinted, Paper.behind, List.foldl_append, List.foldl_append, ← Paper.behind]
    by_cases hw : s.phase = .waiting
    · -- the prompt does not end its row
      have hextent : extent page = (24, 0) := (h.waiting hw).1
      rw [if_pos hw]
      obtain ⟨hprompt, -⟩ := Paper.print_plain console.tty.tty.fgcolor console.tty.tty.bgcolor
        (p := page.foldl (Paper.print 80 console.tty.tty.fgcolor console.tty.tty.bgcolor)
          (Paper.behind console.tty.tty (moreTurned pages))) (c := 0x3A) (by decide)
      rw [hpos, hrow, hextent, if_neg (by decide)] at hprompt
      rw [List.foldl_cons, List.foldl_nil, hprompt]
      omega
    · obtain ⟨hextent, hlt⟩ := h.printing hw
      rw [if_neg hw, List.foldl_nil, hrow, hextent]
      dsimp only
      omega
  · rw [(h.ended hdone).2 (Bool.eq_false_iff.2 fun ht => hq (hquit.1 ht))]

/-- The beginning: the file is open, and nothing is printed. -/
theorem moreKept_init (hs : OpenFiles machine images console.fds) (ht : TextScreen console.tty.tty)
    {path : CString} (hpath : FilePath images console.fds.io path.bytes)
    (htarget : pathTarget images console.fds.io path.bytes = some (a, ⟨.file, no⟩))
    (hlt : (images a).tree.length no < 2147483648) {buffer : Mem} {h : MoreHistory σ δ}
    (hi : (moreSystem machine process console path.bytes buffer).init h) :
    MoreKept machine images process a no console ((images a).tree.first no ((images a).tree.length no))
      h := by
  obtain ⟨fd, opened, hopen, rfl⟩ := hi
  have hadm : (FdCall.open process path fileRdonly).Admissible images console.fds := by
    refine ⟨hpath, by decide, fun a' id h' => ?_⟩
    obtain ⟨rfl, rfl⟩ := Prod.mk.inj (Option.some.inj (htarget.symm.trans h'))
    exact hlt
  have hsize : moreSize console.tty.tty = (25, 80) := by
    have hrows := ht.shows.shows.rows_eq
    have hcols := ht.shows.shows.columns_eq
    rw [moreSize, hrows, hcols]
    rfl
  obtain ⟨htty, hopened⟩ := (meets_onFds (meets_syscallOpen hs hadm)).of_run hopen
  rcases hopened with ⟨hr, -⟩ | ⟨o, fd', ptr, hfree, hc, hfds, ⟨hr, -⟩ | ⟨hr, h0, -, a', no', ht', hread⟩⟩
  · omega
  · omega
  · obtain rfl := Int.natCast_inj.1 hr
    obtain ⟨rfl, hid⟩ := Prod.mk.inj (Option.some.inj (htarget.symm.trans ht'))
    obtain rfl : no = no' := congrArg FileId.inode hid
    obtain ⟨h3, hfd, hclosed, -⟩ := freeFd_some hfree
    have hfile : opened.fds.files process fd = ptr := by
      rw [hfds]
      exact files_setFile_self _ _ _ _
    have hreads : ReadsFile machine images process fd a no 0 opened.fds := by
      refine ⟨by rw [hfds]; exact hs.change hc, by rwa [hfile], ?_⟩
      rw [hfile, hfds]
      exact hread
    refine ⟨[], [], 0, ⟨?_, ?_, htty, FileTree.rest_zero.symm, ?_, ?_, fun _ => ⟨rfl, ?_⟩,
      fun _ => rfl, fun _ => ⟨h3, hfd, hclosed, fun process' fd' hne => ?_, hreads⟩, ?_⟩, rfl, ?_⟩
    · rw [hsize]
      rfl
    · rw [hsize]
      rfl
    · rintro q hq
      cases hq
    · rintro hw
      cases hw
    · exact Nat.zero_lt_succ _
    · show opened.fds.files process' fd' = _
      rw [hfds]
      exact files_setFile_ne hne _
    · rintro hdone
      cases hdone
    · exact ⟨fun hq => absurd hq Bool.false_ne_true, fun hq => absurd hq List.not_mem_nil⟩

theorem moreKept_step (htext : ∀ c ∈ text, PlainChar c)
    (hlt : (images a).tree.length no < 2147483648) {path : List UInt8} {buffer : Mem}
    {h h' : MoreHistory σ δ} {label : Option UInt8}
    (hk : MoreKept machine images process a no console text h)
    (hs : (moreSystem machine process console path buffer).step h label h') :
    MoreKept machine images process a no console text h' := by
  obtain ⟨pages, page, offset, hat, hturned, hquit⟩ := hk
  cases label with
  | none =>
    obtain ⟨hphase, s', hrun, rfl⟩ := hs
    obtain ⟨page', offset', hat', hq, -⟩ := (meets_moreNext htext hat hphase hlt).of_run hrun
    exact ⟨pages, page', offset', hat', hturned, by rw [hq, hquit]⟩
  | some c =>
    obtain ⟨hphase, s', hrun, rfl⟩ := hs
    obtain ⟨hq, -, hat'⟩ := (meets_moreKey hat hphase c).of_run hrun
    have hbefore : 0x71 ∉ h.keys := fun hmem =>
      Bool.false_ne_true ((hat.waiting hphase).2.symm.trans (hquit.2 hmem))
    refine ⟨_, _, offset, hat', ?_, ?_⟩
    · rw [List.filter_append, List.length_append, ← hturned, List.filter_singleton]
      cases turnsPage c with
      | false => rfl
      | true => exact List.length_append
    · rw [hq, List.mem_append, List.mem_singleton]
      exact ⟨fun hc => Or.inr hc.symm, fun hmem => hmem.elim (absurd · hbefore) Eq.symm⟩

/-- **`more` shows its file page by page.**  In every state of every run, whatever keys are typed,
the text is printed in full pages, and the page behind them is on the screen from its first row on;
the program comes to the next key or to its end, and a key turns the page or does nothing. -/
theorem more_pages (hs : OpenFiles machine images console.fds) (ht : TextScreen console.tty.tty)
    (hx : console.tty.tty.cursorX = 0) {path : CString}
    (hpath : FilePath images console.fds.io path.bytes)
    (htarget : pathTarget images console.fds.io path.bytes = some (a, ⟨.file, no⟩))
    (hlt : (images a).tree.length no < 2147483648)
    (htext : ∀ c ∈ (images a).tree.first no ((images a).tree.length no), PlainChar c) {buffer : Mem}
    {h : MoreHistory σ δ} (hr : (moreSystem machine process console path.bytes buffer).Reachable h) :
    (∃ pages page, MorePages console ((images a).tree.first no ((images a).tree.length no)) pages page h) ∧
      (h.state.phase = .printing → ∃ steps, ∀ k ≥ steps,
        Meets NoRoom (moreLoop machine process k) h.state fun _ s' => s'.phase ≠ .printing) ∧
      (h.state.phase = .waiting → ∀ c, Meets NoRoom (moreKey c) h.state fun _ s' =>
        (s'.phase = .printing ↔ turnsPage c = true)) := by
  have hk : MoreKept machine images process a no console
      ((images a).tree.first no ((images a).tree.length no)) h :=
    hr.invariant (fun _ hi => moreKept_init hs ht hpath htarget hlt hi)
      fun _ _ _ _ hk hstep => moreKept_step htext hlt hk hstep
  obtain ⟨pages, page, offset, hat, hturned, hquit⟩ := hk
  refine ⟨⟨pages, page, hat.shows ht hx htext hturned hquit⟩, fun _ =>
    ⟨moreLeft images a no offset h.state + 1, fun k hk => meets_moreLoop htext hat hlt (by omega)⟩,
    fun hphase c => (meets_moreKey hat hphase c).mono fun _ _ hpost => hpost.2.1⟩

/-- The loops are steps of the run. -/
theorem moreLoop_reachable {path buffer keys} {k : ℕ} {s' : MoreState σ δ}
    (hr : (moreSystem machine process console path buffer).Reachable ⟨s, keys⟩)
    (h : moreLoop machine process k s = .ok ((), s')) :
    (moreSystem machine process console path buffer).Reachable ⟨s', keys⟩ := by
  induction k generalizing s with
  | zero =>
    obtain rfl : s = s' := congrArg Prod.snd (Except.ok.inj h)
    exact hr
  | succ k ih =>
    rw [moreLoop] at h
    obtain ⟨s₁, s₂, hget, h⟩ := exists_of_bind_run h
    obtain ⟨rfl, rfl⟩ : s = s₁ ∧ s = s₂ := Prod.mk.inj (Except.ok.inj hget)
    split_ifs at h with hphase
    · obtain ⟨⟨⟩, s₁, hnext, h⟩ := exists_of_bind_run h
      exact ih (hr.step (i := none) ⟨hphase, s₁, hnext, rfl⟩) h
    · obtain rfl : s = s' := congrArg Prod.snd (Except.ok.inj h)
      exact hr

/-- A run: the file is opened, a page is shown, a key is typed, and the next page is shown. -/
def moreTurn (machine : Machine σ δ) (process : ℕ) (console : ConsoleState σ δ) (path : List UInt8)
    (key : UInt8) (k : ℕ) : Except ConsoleStop (Int × MoreState σ δ × MoreState σ δ) :=
  (onFds (syscallOpen machine process path fileRdonly) console).bind fun r =>
    (moreLoop machine process k (moreStart (moreSize console.tty.tty) r.2 r.1.toNat fun _ => 0)).bind
      fun r₁ => (moreKey key r₁.2).bind fun r₂ =>
        (moreLoop machine process k r₂.2).map fun r₃ => (r.1, r₁.2, r₃.2)

theorem moreTurn_reachable {path key} {k : ℕ} {fd : Int} {s₁ s₃ : MoreState σ δ}
    (h : moreTurn machine process console path key k = .ok (fd, s₁, s₃)) (hfd : 0 ≤ fd)
    (hwaiting : s₁.phase = .waiting) :
    (moreSystem machine process console path fun _ => 0).Reachable ⟨s₃, [key]⟩ := by
  obtain ⟨⟨fd', opened⟩, hopen, h⟩ := exists_of_bind_ok h
  obtain ⟨⟨⟨⟩, t₁⟩, hfirst, h⟩ := exists_of_bind_ok h
  obtain ⟨⟨⟨⟩, t₂⟩, hkey, h⟩ := exists_of_bind_ok h
  obtain ⟨⟨⟨⟩, t₃⟩, hlast, h⟩ := exists_of_map_ok h
  obtain ⟨rfl, hrest⟩ := Prod.mk.inj h
  obtain ⟨rfl, rfl⟩ := Prod.mk.inj hrest
  have hinit : (moreSystem machine process console path fun _ => 0).Reachable
      ⟨moreStart (moreSize console.tty.tty) opened fd'.toNat fun _ => 0, []⟩ :=
    .init ⟨fd'.toNat, opened, by rw [Int.toNat_of_nonneg hfd]; exact hopen, rfl⟩
  have hturned := (moreLoop_reachable hinit hfirst).step (i := some key) ⟨hwaiting, t₂, hkey, rfl⟩
  exact moreLoop_reachable hturned hlast

end

/-! ## A run -/

/-- The small volume with a file of 25 rows: 24 empty ones, and an `x`. -/
def pageImage : Mem := ((dirImage.store32 5380 25).fill 7168 0x0A 24).store8 7192 0x78

/-- It is drive A of the new terminal. -/
def pageConsole : ConsoleState KernelHeap Unit :=
  { dirImageConsole with fds := ⟨rootImageIo pageImage, fun _ _ => 0⟩ }

theorem pageImage_root : RootImage pageImage where
  superblock := by decide +kernel
  descriptor := by decide +kernel
  inodes := by decide +kernel
  rootSize := by decide +kernel
  types := by decide +kernel
  rootBlocks := by decide +kernel
  first := by decide +kernel
  last := by decide +kernel

theorem pageImage_turn : returns (moreTurn dirImageMachine 1 pageConsole dirImageFile.bytes 0x6E 30)
    (fun r => 0 ≤ r.1 ∧ r.2.1.phase = .waiting ∧ r.2.2.phase = .done) = true := by
  decide +kernel

/-- **`more A:/hi`** shows a page of 24 rows, and behind the key `n` the last row. -/
theorem more_pages_turned : ∃ h : MoreHistory KernelHeap Unit, h.keys = [0x6E] ∧
    h.state.phase = .done ∧ ∃ page rest,
      MorePages pageConsole (List.replicate 24 0x0A ++ [0x78]) [page] rest h ∧
        page ++ rest = List.replicate 24 0x0A ++ [0x78] := by
  have htarget : pathTarget (fun _ => .ext2 pageImage fun _ => dirImageRoot) (rootImageIo pageImage)
      dirImageFile.bytes = some (1, ⟨.file, 3⟩) := by
    decide +kernel
  have hlength : ((VolumeImage.ext2 pageImage fun _ => dirImageRoot).tree.length 3) < 2147483648 := by
    decide +kernel
  have hdata : (VolumeImage.ext2 pageImage fun _ => dirImageRoot).tree.first 3
      ((VolumeImage.ext2 pageImage fun _ => dirImageRoot).tree.length 3) =
        List.replicate 24 0x0A ++ [0x78] := by
    decide +kernel
  have hopen : OpenFiles dirImageMachine (fun _ => .ext2 pageImage fun _ => dirImageRoot)
      pageConsole.fds := by
    refine ⟨rootImage_table pageImage_root, fun _ _ h0 => ?_, fun _ _ h0 => ?_, fun _ _ _ _ _ h0 => ?_⟩
    all_goals exact absurd rfl h0
  have hpath : FilePath (fun _ => .ext2 pageImage fun _ => dirImageRoot) (rootImageIo pageImage)
      dirImageFile.bytes := by
    intro a id h
    obtain ⟨-, rfl⟩ := Prod.mk.inj (Option.some.inj (h.symm.trans htarget))
    rfl
  have hplain : ∀ c ∈ (VolumeImage.ext2 pageImage fun _ => dirImageRoot).tree.first 3
      ((VolumeImage.ext2 pageImage fun _ => dirImageRoot).tree.length 3), PlainChar c := by
    rw [hdata]
    unfold PlainChar Glyph
    decide +kernel
  have hscreen : TextScreen pageConsole.tty.tty := ⟨rfl, rfl, by decide, by decide⟩
  obtain ⟨⟨fd, s₁, s₃⟩, hrun, hends⟩ := exists_of_check pageImage_turn
  obtain ⟨hfd, hwaiting, hdone⟩ := of_decide_eq_true hends
  obtain ⟨⟨pages, rest, hpages⟩, -⟩ := more_pages hopen hscreen rfl hpath htarget hlength hplain
    (moreTurn_reachable hrun hfd hwaiting)
  rw [hdata] at hpages
  have hone : (([0x6E] : List UInt8).filter turnsPage).length = 1 := by decide
  obtain ⟨page, rfl⟩ := List.length_eq_one_iff.1 (hpages.turned.trans hone)
  have hall := (hpages.finished hdone).2 (show (0x71 : UInt8) ∉ [0x6E] by decide)
  rw [List.flatten_singleton] at hall
  exact ⟨_, rfl, hdone, page, rest, hpages, hall⟩

end Ttos
