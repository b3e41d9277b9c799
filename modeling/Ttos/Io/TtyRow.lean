/-
  One row of the terminal, edited with escape sequences.

  * `ttyPuts_eq`: on an idle terminal `tty_puts` renders its text and nothing else;
  * `ShowsRow`: the row of the cursor shows a line, every other cell is as it was, and the
    hardware's cursor is where the terminal's is;
  * `ShowsRow.glyphs`, `ShowsRow.carriageReturn`, `ShowsRow.erase`, `ShowsRow.forward`,
    `ShowsRow.back`: what text and the sequences do to the row.
-/
import Ttos.Io.TtyPaper
import Ttos.Io.TtySequences
import Ttos.Util.Numeric

namespace Ttos

/-! ## The output buffer does not matter -/

def Tty.withOutput (t : Tty) (output : CircularBuffer UInt8) : Tty := { t with output := output }

section

variable (t : Tty) (output : CircularBuffer UInt8) (ch : UInt8)

theorem withOutput_foldl_write (cells : List ℕ) (cell : Tty → ℕ → ℕ)
    (hcell : ∀ t x, cell (Tty.withOutput t output) x = cell t x) :
    cells.foldl (fun t x => t.write (cell t x) 0x20) (t.withOutput output) =
      (cells.foldl (fun t x => t.write (cell t x) 0x20) t).withOutput output := by
  induction cells generalizing t with
  | nil => rfl
  | cons x cells ih =>
    rw [List.foldl_cons, List.foldl_cons, hcell]
    exact ih (t.write (cell t x) 0x20)

theorem withOutput_ttyClear :
    ttyClear (t.withOutput output) = (ttyClear t).withOutput output := by
  have hrows (ys : List ℕ) (t : Tty) :
      ys.foldl (fun t y => (List.range t.columns).foldl
        (fun t x => t.write (u32 (y * t.columns + x)) 0x20) t) (t.withOutput output) =
      (ys.foldl (fun t y => (List.range t.columns).foldl
        (fun t x => t.write (u32 (y * t.columns + x)) 0x20) t) t).withOutput output := by
    induction ys generalizing t with
    | nil => rfl
    | cons y ys ih =>
      have hrow := withOutput_foldl_write t output (List.range t.columns)
        (fun t x => u32 (y * t.columns + x)) fun _ _ => rfl
      rw [List.foldl_cons, List.foldl_cons, ← ih]
      exact congrArg (List.foldl _ · ys) hrow
  exact congrArg (fun t : Tty => (t.setCursor 0 0).moveCursor) (hrows (List.range t.rows) t)

theorem withOutput_ttyRenderChar :
    ttyRenderChar (t.withOutput output) ch = (ttyRenderChar t ch).withOutput output := by
  have hstrike (t : Tty) : strikeTty (t.withOutput output) ch =
      (strikeTty t ch).withOutput output := by
    unfold strikeTty
    split_ifs <;> first | rfl | contradiction
  have hwrap (t : Tty) : wrapTty (t.withOutput output) = (wrapTty t).withOutput output := by
    unfold wrapTty
    split_ifs <;> first | rfl | contradiction
  have hscroll (t : Tty) : scrollTty (t.withOutput output) = (scrollTty t).withOutput output := by
    unfold scrollTty
    split_ifs <;> first | rfl | contradiction
  rw [ttyRenderChar_eq, ttyRenderChar_eq, hstrike, hwrap, hscroll]
  rfl

theorem withOutput_commitParam :
    commitParam (t.withOutput output) = (commitParam t).withOutput output := by
  unfold commitParam
  split_ifs <;> first | rfl | contradiction

theorem withOutput_ttyCsiDispatch :
    ttyCsiDispatch (t.withOutput output) ch = (ttyCsiDispatch t ch).withOutput output := by
  have herase := withOutput_foldl_write t output (List.range' t.cursorX (t.columns - t.cursorX))
    (fun t x => u32 (t.cursorY * t.columns + x)) fun _ _ => rfl
  have hclear := withOutput_ttyClear t output
  unfold ttyCsiDispatch
  dsimp only
  split_ifs <;> first | rfl | contradiction | exact herase | exact hclear

theorem withOutput_ttyRender :
    ttyRender (t.withOutput output) ch = (ttyRender t ch).withOutput output := by
  have hchar := withOutput_ttyRenderChar t output ch
  have hcommit := withOutput_commitParam t output
  have hdispatch := withOutput_ttyCsiDispatch (commitParam t) output ch
  have hansi : (t.withOutput output).ansiState = t.ansiState := rfl
  unfold ttyRender
  rw [hansi, hcommit, hdispatch]
  cases t.ansiState with
  | normal =>
    dsimp only
    split_ifs
    · rfl
    · exact hchar
  | esc =>
    dsimp only
    split_ifs <;> rfl
  | csi =>
    dsimp only
    split_ifs <;> rfl

theorem withOutput_foldl_ttyRender (text : List UInt8) :
    text.foldl ttyRender (t.withOutput output) = (text.foldl ttyRender t).withOutput output := by
  induction text generalizing t with
  | nil => rfl
  | cons ch text ih => rw [List.foldl_cons, List.foldl_cons, withOutput_ttyRender, ih]

end

/-- **The terminal renders what is put on it**, with the output buffer empty again behind it. -/
theorem ttyPuts_eq (t : IdleTty) (text : List UInt8) :
    ∃ output, ttyPuts t.tty text = (text.foldl ttyRender t.tty).withOutput output := by
  induction text generalizing t with
  | nil => exact ⟨t.tty.output, rfl⟩
  | cons ch text ih =>
    obtain ⟨output, hput⟩ := tty_putchar t ch
    obtain ⟨output', hrest⟩ := ih (t.putchar ch)
    have hputs : ttyPuts t.tty (ch :: text) = ttyPuts (t.putchar ch).tty text := rfl
    have hfirst : (t.putchar ch).tty = (ttyRender t.tty ch).withOutput output :=
      hput.trans (withOutput_ttyRender t.tty output ch)
    refine ⟨output', ?_⟩
    rw [hputs, hrest, hfirst, withOutput_foldl_ttyRender]
    rfl

/-! ## A row -/

/-- A character that is printed where the cursor stands. -/
def Glyph (ch : UInt8) : Prop := ch ≠ 0x08 ∧ ch ≠ 0x09 ∧ ch ≠ 0x0A ∧ ch ≠ 0x0D ∧ ch ≠ 0x1B

instance (ch : UInt8) : Decidable (Glyph ch) := inferInstanceAs (Decidable (_ ∧ _))

/-- A line of text, blank behind its end. -/
def lineOf (text : List UInt8) : ℕ → UInt8 := fun i => text.getD i 0x20

/-- The screen of `t` with a line in row `row`. -/
def Tty.withLine (t : Tty) (row : ℕ) (line : ℕ → UInt8) : VideoMemory := fun cell =>
  if row * t.columns ≤ cell ∧ cell < row * t.columns + t.columns then
    vgaTmEntry (line (cell - row * t.columns)) t.fgcolor t.bgcolor
  else t.memory cell

/-- The terminal `t` has `line` in row `row`, with the cursor in column `x`, and what `base` shows
elsewhere. -/
structure HasRow (base : Tty) (row : ℕ) (line : ℕ → UInt8) (x : ℕ) (t : Tty) : Prop where
  mode_eq : t.mode = base.mode
  fg_eq : t.fgcolor = base.fgcolor
  bg_eq : t.bgcolor = base.bgcolor
  cursorX : t.cursorX = x
  cursorY : t.cursorY = row
  location : t.location = row * base.columns + x
  memory : t.memory = base.withLine row line

/-- ... and is between two escape sequences. -/
structure ShowsRow (base : Tty) (row : ℕ) (line : ℕ → UInt8) (x : ℕ) (t : Tty) : Prop where
  ansi : t.ansiState = .normal
  row : HasRow base row line x t

/-- A row of a screen whose cells have 16-bit numbers. -/
structure ScreenRow (base : Tty) (row : ℕ) : Prop where
  row_lt : row < base.rows
  cells_le : base.rows * base.columns ≤ 65536

section

variable {base t : Tty} {row x n : ℕ} {line : ℕ → UInt8} {ch : UInt8} {text : List UInt8}

theorem ScreenRow.end_le (hs : ScreenRow base row) :
    row * base.columns + base.columns ≤ base.rows * base.columns := by
  have h := Nat.mul_le_mul_right base.columns (Nat.succ_le_of_lt hs.row_lt)
  rwa [Nat.succ_mul] at h

namespace HasRow

theorem columns_eq (h : HasRow base row line x t) : t.columns = base.columns := by
  rw [t.columns_eq, base.columns_eq, h.mode_eq]

theorem rows_eq (h : HasRow base row line x t) : t.rows = base.rows := by
  rw [t.rows_eq, base.rows_eq, h.mode_eq]

theorem cells_eq (h : HasRow base row line x t) :
    t.mode.width * t.mode.height = base.rows * base.columns := by
  rw [h.mode_eq, base.rows_eq, base.columns_eq, Nat.mul_comm]

theorem congr {line' : ℕ → UInt8} (h : HasRow base row line x t)
    (hline : ∀ i < base.columns, line' i = line i) : HasRow base row line' x t where
  mode_eq := h.mode_eq
  fg_eq := h.fg_eq
  bg_eq := h.bg_eq
  cursorX := h.cursorX
  cursorY := h.cursorY
  location := h.location
  memory := by
    rw [h.memory]
    funext cell
    unfold Tty.withLine
    split_ifs with hin
    · rw [hline _ (by omega)]
    · rfl

theorem withOutput (h : HasRow base row line x t) (output : CircularBuffer UInt8) :
    HasRow base row line x (t.withOutput output) :=
  ⟨h.mode_eq, h.fg_eq, h.bg_eq, h.cursorX, h.cursorY, h.location, h.memory⟩

/-- A cell of the row. -/
theorem u32_cell (h : HasRow base row line x t) (hs : ScreenRow base row) {i : ℕ}
    (hi : i < base.columns) : u32 (t.cursorY * t.columns + i) = row * base.columns + i := by
  have hend := hs.end_le
  have hcells := hs.cells_le
  rw [h.cursorY, h.columns_eq]
  exact u32_of_lt (by omega)

/-- Another column of the cursor. -/
theorem setColumn (h : HasRow base row line x t) (hs : ScreenRow base row) {x' : ℕ}
    (hx' : x' < base.columns) :
    HasRow base row line x' (t.setCursor x' t.cursorY).moveCursor where
  mode_eq := h.mode_eq
  fg_eq := h.fg_eq
  bg_eq := h.bg_eq
  cursorX := rfl
  cursorY := h.cursorY
  location := by
    have hend := hs.end_le
    have hcells := hs.cells_le
    have hcell : (t.setCursor x' t.cursorY).cell = row * base.columns + x' := h.u32_cell hs hx'
    show vgaTmMoveCursor t.mode t.location (t.setCursor x' t.cursorY).cell = _
    rw [hcell, vgaTmMoveCursor, if_neg (by rw [h.cells_eq]; omega), Nat.mod_eq_of_lt (by omega)]
  memory := h.memory

/-- Writing in the row. -/
theorem write (h : HasRow base row line x t) (hs : ScreenRow base row) {i : ℕ}
    (hi : i < base.columns) (ch : UInt8) :
    HasRow base row (Function.update line i ch) x (t.write (row * base.columns + i) ch) where
  mode_eq := h.mode_eq
  fg_eq := h.fg_eq
  bg_eq := h.bg_eq
  cursorX := h.cursorX
  cursorY := h.cursorY
  location := h.location
  memory := by
    have hend := hs.end_le
    show vgaTmWrite t.mode t.memory (row * base.columns + i) ch t.fgcolor t.bgcolor = _
    rw [vgaTmWrite, if_neg (by rw [h.cells_eq]; omega), h.memory, h.fg_eq, h.bg_eq]
    funext cell
    by_cases hcell : cell = row * base.columns + i
    · have hin : row * base.columns ≤ cell ∧ cell < row * base.columns + base.columns := by omega
      rw [hcell] at hin ⊢
      rw [Function.update_self, Tty.withLine, if_pos hin, Nat.add_sub_cancel_left,
        Function.update_self]
    · rw [Function.update_of_ne hcell]
      unfold Tty.withLine
      split_ifs with hin
      · rw [Function.update_of_ne (by omega)]
      · rfl

/-- The loop of `ESC [ K`. -/
theorem blanks (h : HasRow base row line x t) (hs : ScreenRow base row) (first : ℕ)
    (hn : first + n ≤ base.columns) :
    HasRow base row (fun i => if first ≤ i ∧ i < first + n then 0x20 else line i) x
      ((List.range' first n).foldl
        (fun t x => t.write (u32 (t.cursorY * t.columns + x)) 0x20) t) := by
  induction n generalizing first t line with
  | zero => exact h.congr fun i _ => if_neg (by omega)
  | succ n ih =>
    have h1 := h.write hs (i := first) (by omega) 0x20
    have h2 := ih h1 (first + 1) (by omega)
    rw [List.range'_succ, List.foldl_cons, h.u32_cell hs (by omega)]
    refine h2.congr fun i _ => ?_
    by_cases hi : i = first
    · rw [hi, if_pos (by omega), if_neg (by omega), Function.update_self]
    · rw [Function.update_of_ne hi]
      by_cases hin : first ≤ i ∧ i < first + (n + 1)
      · rw [if_pos hin, if_pos (by omega)]
      · rw [if_neg hin, if_neg (by omega)]

end HasRow

namespace ShowsRow

theorem congr {line' : ℕ → UInt8} (h : ShowsRow base row line x t)
    (hline : ∀ i < base.columns, line' i = line i) : ShowsRow base row line' x t :=
  ⟨h.ansi, h.row.congr hline⟩

theorem withOutput (h : ShowsRow base row line x t) (output : CircularBuffer UInt8) :
    ShowsRow base row line x (t.withOutput output) := ⟨h.ansi, h.row.withOutput output⟩

/-- **A character** that is printed. -/
theorem glyph (h : ShowsRow base row line x t) (hs : ScreenRow base row)
    (hx : x + 1 < base.columns) (hg : Glyph ch) :
    ShowsRow base row (Function.update line x ch) (x + 1) (ttyRender t ch) := by
  obtain ⟨h8, h9, hA, hD, hE⟩ := hg
  have hcell : t.cell = row * base.columns + x := by
    rw [← h.row.u32_cell hs (by omega), Tty.cell, h.row.cursorX]
  have hw := h.row.write hs (i := x) (by omega) ch
  have hstrike : strikeTty t ch = (t.write t.cell ch).setCursor (x + 1) t.cursorY := by
    rw [strikeTty, if_neg hA, if_neg hD, if_neg h8, if_neg h9]
    show (t.write t.cell ch).setCursor (t.cursorX + 1) t.cursorY = _
    rw [h.row.cursorX]
  have hmove := hw.setColumn hs hx
  have hrender : ttyRender t ch = ttyRenderChar t ch := by
    rw [ttyRender, h.ansi]
    exact if_neg hE
  rw [hrender, ttyRenderChar_eq, hstrike, hcell]
  -- neither the end of the row nor the end of the screen
  have hwrap : wrapTty ((t.write (row * base.columns + x) ch).setCursor (x + 1) t.cursorY) =
      (t.write (row * base.columns + x) ch).setCursor (x + 1) t.cursorY :=
    if_neg (by show ¬ t.columns ≤ x + 1; rw [h.row.columns_eq]; omega)
  have hscroll : scrollTty ((t.write (row * base.columns + x) ch).setCursor (x + 1) t.cursorY) =
      (t.write (row * base.columns + x) ch).setCursor (x + 1) t.cursorY := by
    have hrow := hs.row_lt
    exact if_neg (by show ¬ t.rows ≤ t.cursorY; rw [h.row.rows_eq, h.row.cursorY]; omega)
  rw [hwrap, hscroll]
  exact ⟨h.ansi, hmove⟩

/-- **Text**, as far as the row is long enough. -/
theorem glyphs (h : ShowsRow base row line x t) (hs : ScreenRow base row) (text : List UInt8)
    (hx : x + text.length < base.columns) (hg : ∀ ch ∈ text, Glyph ch) :
    ShowsRow base row (fun i => if i < x then line i else text.getD (i - x) (line i))
      (x + text.length) (text.foldl ttyRender t) := by
  induction text generalizing t x line with
  | nil =>
    refine h.congr fun i _ => ?_
    split_ifs <;> rfl
  | cons ch text ih =>
    rw [List.length_cons] at hx
    have h1 := h.glyph hs (by omega) (hg ch List.mem_cons_self)
    have h2 := ih h1 (by omega) fun c hc => hg c (List.mem_cons_of_mem ch hc)
    rw [List.length_cons, Nat.add_comm text.length, ← Nat.add_assoc]
    refine h2.congr fun i _ => ?_
    rcases lt_trichotomy i x with hlt | rfl | hgt
    · rw [if_pos hlt, if_pos (by omega), Function.update_of_ne (by omega)]
    · rw [if_neg (by omega), if_pos (by omega), Nat.sub_self, Function.update_self]
      rfl
    · obtain ⟨k, rfl⟩ : ∃ k, i = x + 1 + k := ⟨i - (x + 1), by omega⟩
      rw [if_neg (by omega), if_neg (by omega), Function.update_of_ne (by omega),
        Nat.add_sub_cancel_left, Nat.add_assoc, Nat.add_sub_cancel_left, Nat.add_comm 1]
      rfl

/-- **Carriage return** -/
theorem carriageReturn (h : ShowsRow base row line x t) (hs : ScreenRow base row)
    (hx : x < base.columns) : ShowsRow base row line 0 (ttyRender t 0x0D) := by
  have h0 : 0 < base.columns := by omega
  have hrow := hs.row_lt
  have hrender : ttyRender t 0x0D = (t.setCursor 0 t.cursorY).moveCursor := by
    have hnormal : ttyRender t 0x0D = ttyRenderChar t 0x0D := by
      rw [ttyRender, h.ansi]
      rfl
    have hwrap : wrapTty (t.setCursor 0 t.cursorY) = t.setCursor 0 t.cursorY :=
      if_neg (by show ¬ t.columns ≤ 0; rw [h.row.columns_eq]; omega)
    have hscroll : scrollTty (t.setCursor 0 t.cursorY) = t.setCursor 0 t.cursorY :=
      if_neg (by show ¬ t.rows ≤ t.cursorY; rw [h.row.rows_eq, h.row.cursorY]; omega)
    have hstrike : strikeTty t 0x0D = t.setCursor 0 t.cursorY := rfl
    rw [hnormal, ttyRenderChar_eq, hstrike, hwrap, hscroll]
  rw [hrender]
  exact ⟨h.ansi, h.row.setColumn hs h0⟩

/-- The parser behind `ESC [` and one parameter: the parameter is kept, the row is as it was. -/
theorem parameter (h : ShowsRow base row line x t) (ds : Digits) (hds : ds.value < 4294967296) :
    ∃ t', (0x1B :: 0x5B :: ds.map digitByte).foldl ttyRender t = t' ∧ t'.ansiState = .csi ∧
      (commitParam t').ansiParams 0 = ds.value ∧ HasRow base row line x (commitParam t') := by
  obtain ⟨t₀, ht₀⟩ : ∃ t₀, t₀ = { t with ansiState := .csi, ansiParamCount := 0, ansiCurrent := 0 } :=
    ⟨_, rfl⟩
  have hstart : ttyRender (ttyRender t 0x1B) 0x5B = t₀ := by
    have hesc : ttyRender t 0x1B = { t with ansiState := .esc } := by
      rw [ttyRender, h.ansi]
      rfl
    rw [hesc, ht₀]
    rfl
  have hgroup := foldl_group (t := t₀) (by rw [ht₀]) (by rw [ht₀]) ds
  rw [u32_of_lt hds] at hgroup
  refine ⟨t₀.withCurrent ds.value, ?_, ?_, ?_, ?_⟩
  · rw [List.foldl_cons, List.foldl_cons, hstart, hgroup]
  · rw [ht₀]
    rfl
  · rw [ht₀]
    rfl
  · obtain ⟨h1, h2, h3, h4, h5, h6, h7⟩ := h.row
    rw [ht₀]
    exact ⟨h1, h2, h3, h4, h5, h6, h7⟩

/-- The final byte of a sequence. -/
theorem final (ht : t.ansiState = .csi) {command : UInt8}
    (hc : ¬ (0x30 ≤ command ∧ command ≤ 0x39)) (hc' : command ≠ 0x3B)
    (hd : HasRow base row line x (ttyCsiDispatch (commitParam t) command)) :
    ShowsRow base row line x (ttyRender t command) := by
  have hrender : ttyRender t command =
      { ttyCsiDispatch (commitParam t) command with ansiState := .normal } := by
    rw [ttyRender, ht]
    exact (if_neg hc).trans (if_neg hc')
  obtain ⟨h1, h2, h3, h4, h5, h6, h7⟩ := hd
  rw [hrender]
  exact ⟨rfl, h1, h2, h3, h4, h5, h6, h7⟩

/-- **Erasing the rest of the row**: `ESC [ K`. -/
theorem erase (h : ShowsRow base row line x t) (hs : ScreenRow base row) (hx : x < base.columns) :
    ShowsRow base row (fun i => if x ≤ i then 0x20 else line i) x
      ([0x1B, 0x5B, 0x4B].foldl ttyRender t) := by
  obtain ⟨t', ht', hcsi, hparam, hrow⟩ := h.parameter [] (by decide)
  have hfold : [0x1B, 0x5B, 0x4B].foldl ttyRender t = ttyRender t' 0x4B := by
    rw [← ht']
    rfl
  have hdispatch : ttyCsiDispatch (commitParam t') 0x4B =
      (List.range' (commitParam t').cursorX ((commitParam t').columns - (commitParam t').cursorX)).foldl
        (fun t x => t.write (u32 (t.cursorY * t.columns + x)) 0x20) (commitParam t') :=
    if_pos hparam
  have hb := hrow.blanks hs x (n := base.columns - x) (by omega)
  rw [hfold]
  refine final hcsi (by decide) (by decide) ?_
  rw [hdispatch, hrow.cursorX, hrow.columns_eq]
  refine hb.congr fun i hi => ?_
  by_cases hxi : x ≤ i
  · rw [if_pos hxi, if_pos (by omega)]
  · rw [if_neg hxi, if_neg (by omega)]

/-- **One column to the right**: `ESC [ C`. -/
theorem forward (h : ShowsRow base row line x t) (hs : ScreenRow base row)
    (hx : x + 1 < base.columns) :
    ShowsRow base row line (x + 1) ([0x1B, 0x5B, 0x43].foldl ttyRender t) := by
  obtain ⟨t', ht', hcsi, hparam, hrow⟩ := h.parameter [] (by decide)
  have hend := hs.end_le
  have hcells := hs.cells_le
  have hfold : [0x1B, 0x5B, 0x43].foldl ttyRender t = ttyRender t' 0x43 := by
    rw [← ht']
    rfl
  have hamount : ansiParam (commitParam t') 0 = 1 := by
    rw [ansiParam_eq, hparam]
    rfl
  have hdispatch : ttyCsiDispatch (commitParam t') 0x43 =
      ((commitParam t').setCursor (x + 1) (commitParam t').cursorY).moveCursor := by
    show ((commitParam t').setCursor (if (commitParam t').columns - 1 <
      u32 ((commitParam t').cursorX + ansiParam (commitParam t') 0) then _ else
      u32 ((commitParam t').cursorX + ansiParam (commitParam t') 0)) _).moveCursor = _
    rw [hamount, hrow.cursorX, hrow.columns_eq, u32_of_lt (by omega), if_neg (by omega)]
  rw [hfold]
  refine final hcsi (by decide) (by decide) ?_
  rw [hdispatch]
  exact hrow.setColumn hs hx

/-- **Back by a number of columns**: `ESC [` the number `D`. -/
theorem back (h : ShowsRow base row line x t) (hs : ScreenRow base row) (hx : x < base.columns)
    (ds : Digits) (hds : ds.value < 4294967296) :
    ShowsRow base row line (x - max ds.value 1)
      ((0x1B :: 0x5B :: (ds.map digitByte ++ [0x44])).foldl ttyRender t) := by
  obtain ⟨t', ht', hcsi, hparam, hrow⟩ := h.parameter ds hds
  have hfold : (0x1B :: 0x5B :: (ds.map digitByte ++ [0x44])).foldl ttyRender t =
      ttyRender t' 0x44 := by
    rw [← ht', ← List.cons_append, ← List.cons_append, List.foldl_append]
    rfl
  have hamount : ansiParam (commitParam t') 0 = max ds.value 1 := by rw [ansiParam_eq, hparam]
  have hdispatch : ttyCsiDispatch (commitParam t') 0x44 =
      ((commitParam t').setCursor (x - max ds.value 1) (commitParam t').cursorY).moveCursor := by
    show ((commitParam t').setCursor (if (commitParam t').cursorX < ansiParam (commitParam t') 0
      then 0 else (commitParam t').cursorX - ansiParam (commitParam t') 0) _).moveCursor = _
    rw [hamount, hrow.cursorX]
    congr 2
    split_ifs <;> omega
  rw [hfold]
  refine final hcsi (by decide) (by decide) ?_
  rw [hdispatch]
  exact hrow.setColumn hs (by omega)

end ShowsRow

end

end Ttos
