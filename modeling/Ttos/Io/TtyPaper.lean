/-
  The terminal as a window on endless paper.

  Paper has rows without end, and printing never scrolls: a character is put at the
  print position, control characters move it, and at the right edge the row ends.

  * `ShowsPaper`: the screen is the last rows of the paper that are begun, and the cursor
    is the print position.
  * `tty_shows_paper`: so it is after `tty_puts` of any text without an escape byte.
-/
import Ttos.Io.Stdout
import Ttos.Lib.MoveLoops

namespace Ttos

/-! ## Paper -/

/-- Paper with a print position. -/
structure Paper where
  cells : ℕ → ℕ → TmEntry
  row : ℕ
  col : ℕ

namespace Paper

/-- Put a character at the print position. -/
def mark (p : Paper) (entry : TmEntry) : Paper :=
  { p with cells := fun r c => if r = p.row ∧ c = p.col then entry else p.cells r c }

/-- The end of a row of `columns` characters. -/
def wrap (columns : ℕ) (p : Paper) : Paper :=
  if columns ≤ p.col then { p with row := p.row + 1, col := 0 } else p

/-- What a character does: line feed, carriage return, backspace and tabulator move, every other
one is printed. -/
def strike (fg bg : UInt8) (p : Paper) (ch : UInt8) : Paper :=
  if ch = 0x0A then { p with row := p.row + 1, col := 0 }
  else if ch = 0x0D then { p with col := 0 }
  else if ch = 0x08 then ({ p with col := p.col - 1 } : Paper).mark (vgaTmEntry 0x20 fg bg)
  else if ch = 0x09 then { p with col := (p.col + 8) / 8 * 8 }
  else { p.mark (vgaTmEntry ch fg bg) with col := p.col + 1 }

def print (columns : ℕ) (fg bg : UInt8) (p : Paper) (ch : UInt8) : Paper :=
  wrap columns (strike fg bg p ch)

/-- The first row that a screen of `rows` rows shows. -/
def top (rows : ℕ) (p : Paper) : ℕ := p.row + 1 - rows

end Paper

/-! ## The screen -/

/-- A terminal on the text mode, 80 by 25, between two escape sequences. -/
structure TextScreen (t : Tty) : Prop where
  mode_eq : t.mode = ⟨80, 25⟩
  ansi : t.ansiState = .normal
  x_lt : t.cursorX < 80
  y_lt : t.cursorY < 25

/-- The screen shows the 25 rows of the paper from `top` on, in the colors `fg` and `bg`; the rows
of the paper below the screen are blank. -/
structure ShowsFrom (fg bg : UInt8) (top : ℕ) (t : Tty) (p : Paper) : Prop where
  mode_eq : t.mode = ⟨80, 25⟩
  ansi : t.ansiState = .normal
  fg_eq : t.fgcolor = fg
  bg_eq : t.bgcolor = bg
  row : p.row = top + t.cursorY
  col : p.col = t.cursorX
  cells : ∀ y < 25, ∀ x < 80, t.memory (y * 80 + x) = p.cells (top + y) x
  blank : ∀ r, top + 25 ≤ r → ∀ x, p.cells r x = vgaTmEntry 0x20 fg bg

variable {fg bg ch : UInt8} {top x y : ℕ} {t : Tty} {p : Paper}

namespace ShowsFrom

theorem columns_eq (h : ShowsFrom fg bg top t p) : t.columns = 80 := by
  rw [t.columns_eq, h.mode_eq]

theorem rows_eq (h : ShowsFrom fg bg top t p) : t.rows = 25 := by
  rw [t.rows_eq, h.mode_eq]

theorem cell_eq (h : ShowsFrom fg bg top t p) (hx : t.cursorX < 80) (hy : t.cursorY < 25) :
    t.cell = t.cursorY * 80 + t.cursorX := by
  rw [Tty.cell, h.columns_eq]
  exact Nat.mod_eq_of_lt (by omega)

theorem setCursor (h : ShowsFrom fg bg top t p) :
    ShowsFrom fg bg top (t.setCursor x y) { p with row := top + y, col := x } :=
  ⟨h.mode_eq, h.ansi, h.fg_eq, h.bg_eq, rfl, rfl, h.cells, h.blank⟩

/-- A move within the row. -/
theorem setColumn (h : ShowsFrom fg bg top t p) :
    ShowsFrom fg bg top (t.setCursor x t.cursorY) { p with col := x } :=
  ⟨h.mode_eq, h.ansi, h.fg_eq, h.bg_eq, h.row, rfl, h.cells, h.blank⟩

/-- A move to the next row. -/
theorem nextRow (h : ShowsFrom fg bg top t p) :
    ShowsFrom fg bg top (t.setCursor 0 (t.cursorY + 1)) { p with row := p.row + 1, col := 0 } :=
  ⟨h.mode_eq, h.ansi, h.fg_eq, h.bg_eq, by rw [h.row]; rfl, rfl, h.cells, h.blank⟩

theorem moveCursor (h : ShowsFrom fg bg top t p) : ShowsFrom fg bg top t.moveCursor p :=
  ⟨h.mode_eq, h.ansi, h.fg_eq, h.bg_eq, h.row, h.col, h.cells, h.blank⟩

theorem location_moveCursor (h : ShowsFrom fg bg top t p) (hx : t.cursorX < 80)
    (hy : t.cursorY < 25) : t.moveCursor.location = t.cursorY * 80 + t.cursorX := by
  show vgaTmMoveCursor t.mode t.location t.cell = _
  rw [h.cell_eq hx hy, h.mode_eq, vgaTmMoveCursor, if_neg (by show ¬ 80 * 25 ≤ _; omega)]
  exact Nat.mod_eq_of_lt (by omega)

/-- A character on the screen is one on the paper. -/
theorem write (h : ShowsFrom fg bg top t p) (hx : t.cursorX < 80) (hy : t.cursorY < 25) :
    ShowsFrom fg bg top (t.write t.cell ch) (p.mark (vgaTmEntry ch fg bg)) := by
  refine ⟨h.mode_eq, h.ansi, h.fg_eq, h.bg_eq, h.row, h.col, ?_, ?_⟩
  · intro y hy' x hx'
    show vgaTmWrite t.mode t.memory t.cell ch t.fgcolor t.bgcolor (y * 80 + x) =
      if top + y = p.row ∧ x = p.col then _ else _
    rw [h.cell_eq hx hy, h.mode_eq, vgaTmWrite, if_neg (by show ¬ 80 * 25 ≤ _; omega), h.row, h.col,
      h.fg_eq, h.bg_eq]
    by_cases he : y = t.cursorY ∧ x = t.cursorX
    · rw [he.1, he.2, Function.update_self, if_pos ⟨rfl, rfl⟩]
    · rw [Function.update_of_ne (by omega), if_neg (by omega)]
      exact h.cells y hy' x hx'
  · intro r hr x
    show (if r = p.row ∧ x = p.col then _ else _) = _
    rw [h.row, if_neg (by omega)]
    exact h.blank r hr x

/-- Scrolling moves the window down by one row. -/
theorem scroll (h : ShowsFrom fg bg top t p) (hy : t.cursorY = 25) :
    ShowsFrom fg bg (top + 1) (t.scroll.setCursor t.cursorX (t.cursorY - 1)) p := by
  refine ⟨h.mode_eq, h.ansi, h.fg_eq, h.bg_eq, ?_, h.col, ?_, ?_⟩
  · show p.row = top + 1 + (t.cursorY - 1)
    rw [h.row]
    omega
  · intro y hy x hx
    show vgaTmScroll t.mode t.memory t.fgcolor t.bgcolor (y * 80 + x) = _
    rw [h.mode_eq, h.fg_eq, h.bg_eq, vgaTmScroll, foldl_fill (by decide),
      foldl_moveDown (by decide) (by decide)]
    show (if 80 * 25 ≤ _ ∧ _ < 80 * 25 + 80 then _ else
      if 80 ≤ _ ∧ _ < 80 + (80 * 25 - 80) then _ else _) = _
    by_cases hlast : y = 24
    · rw [if_pos (by omega), h.blank _ (by omega)]
    · rw [if_neg (by omega), if_pos (by omega)]
      have he : y * 80 + x + 80 = (y + 1) * 80 + x := by omega
      rw [he, h.cells (y + 1) (by omega) x hx]
      congr 1
      omega
  · intro r hr x
    exact h.blank r (by omega) x

end ShowsFrom

/-! ## One character -/

/-- The parts of `ttyRenderChar`. -/
def strikeTty (t : Tty) (ch : UInt8) : Tty :=
  if ch = 0x0A then t.setCursor 0 (t.cursorY + 1)
  else if ch = 0x0D then t.setCursor 0 t.cursorY
  else if ch = 0x08 then
    let t := if 0 < t.cursorX then t.setCursor (t.cursorX - 1) t.cursorY else t
    t.write t.cell 0x20
  else if ch = 0x09 then t.setCursor (u32 (t.cursorX + 8) / 8 * 8) t.cursorY
  else
    let t := t.write t.cell ch
    t.setCursor (t.cursorX + 1) t.cursorY

def wrapTty (t : Tty) : Tty :=
  if t.columns ≤ t.cursorX then t.setCursor 0 (t.cursorY + 1) else t

def scrollTty (t : Tty) : Tty :=
  if t.rows ≤ t.cursorY then (t.scroll.setCursor t.cursorX (t.cursorY - 1)).moveCursor else t

theorem ttyRenderChar_eq (t : Tty) (ch : UInt8) :
    ttyRenderChar t ch = (scrollTty (wrapTty (strikeTty t ch))).moveCursor := rfl

namespace ShowsFrom

theorem strikeTty (h : ShowsFrom fg bg top t p) (ch : UInt8) (hx : t.cursorX < 80)
    (hy : t.cursorY < 25) :
    ShowsFrom fg bg top (strikeTty t ch) (p.strike fg bg ch) ∧
      ((strikeTty t ch).cursorY < 25 ∨
        (strikeTty t ch).cursorY = 25 ∧ (strikeTty t ch).cursorX = 0) := by
  unfold Ttos.strikeTty Paper.strike
  split_ifs with h1 h2 h3 hpos h4
  · refine ⟨h.nextRow, ?_⟩
    show t.cursorY + 1 < 25 ∨ t.cursorY + 1 = 25 ∧ 0 = 0
    omega
  · exact ⟨h.setColumn, Or.inl hy⟩
  · have hback : ShowsFrom fg bg top (t.setCursor (t.cursorX - 1) t.cursorY)
        { p with col := p.col - 1 } := by
      rw [h.col]
      exact h.setColumn
    exact ⟨hback.write (by show t.cursorX - 1 < 80; omega) hy, Or.inl hy⟩
  · have hstay : ({ p with col := p.col - 1 } : Paper) = p := by
      have hcol : p.col - 1 = p.col := by
        rw [h.col]
        omega
      rw [hcol]
    rw [hstay]
    exact ⟨h.write hx hy, Or.inl hy⟩
  · have htab : (p.col + 8) / 8 * 8 = u32 (t.cursorX + 8) / 8 * 8 := by
      rw [h.col, u32, Nat.mod_eq_of_lt (by omega)]
    rw [htab]
    exact ⟨h.setColumn, Or.inl hy⟩
  · refine ⟨?_, Or.inl hy⟩
    rw [h.col]
    exact (h.write hx hy).setColumn

theorem wrapTty (h : ShowsFrom fg bg top t p)
    (hy : t.cursorY < 25 ∨ t.cursorY = 25 ∧ t.cursorX = 0) :
    ShowsFrom fg bg top (wrapTty t) (p.wrap 80) ∧ (wrapTty t).cursorX < 80 ∧
      (wrapTty t).cursorY ≤ 25 := by
  unfold Ttos.wrapTty Paper.wrap
  rw [h.columns_eq, h.col]
  split_ifs with hw
  · refine ⟨h.nextRow, Nat.zero_lt_succ 79, ?_⟩
    show t.cursorY + 1 ≤ 25
    omega
  · exact ⟨h, by omega, by omega⟩

theorem scrollTty (h : ShowsFrom fg bg top t p) (hy : t.cursorY ≤ 25) (htop : top ≤ p.top 25) :
    ShowsFrom fg bg (p.top 25) (scrollTty t) p ∧ (scrollTty t).cursorX = t.cursorX ∧
      (scrollTty t).cursorY < 25 := by
  have hrow := h.row
  unfold Ttos.scrollTty Paper.top
  unfold Paper.top at htop
  rw [h.rows_eq]
  split_ifs with hs
  · have he : p.row + 1 - 25 = top + 1 := by omega
    rw [he]
    refine ⟨(h.scroll (by omega)).moveCursor, rfl, ?_⟩
    show t.cursorY - 1 < 25
    omega
  · have he : p.row + 1 - 25 = top := by omega
    rw [he]
    exact ⟨h, rfl, by omega⟩

end ShowsFrom

theorem Paper.row_le_print (columns : ℕ) (p : Paper) : p.row ≤ (p.print columns fg bg ch).row := by
  have hstrike : p.row ≤ (p.strike fg bg ch).row := by
    unfold Paper.strike
    split_ifs
    · exact Nat.le_succ _
    all_goals exact le_rfl
  refine hstrike.trans ?_
  unfold Paper.print Paper.wrap
  split_ifs
  · exact Nat.le_succ _
  · exact le_rfl

/-- The screen shows the last rows of the paper that are begun. -/
structure ShowsPaper (fg bg : UInt8) (t : Tty) (p : Paper) : Prop where
  x_lt : t.cursorX < 80
  y_lt : t.cursorY < 25
  shows : ShowsFrom fg bg (p.top 25) t p

/-- **One character**, on the screen and on the paper. -/
theorem ShowsPaper.renderChar (h : ShowsPaper fg bg t p) (ch : UInt8) :
    ShowsPaper fg bg (ttyRenderChar t ch) (p.print 80 fg bg ch) ∧
      (ttyRenderChar t ch).location =
        (ttyRenderChar t ch).cursorY * 80 + (ttyRenderChar t ch).cursorX := by
  obtain ⟨h1, hy1⟩ := h.shows.strikeTty ch h.x_lt h.y_lt
  obtain ⟨h2, hx2, hy2⟩ := h1.wrapTty hy1
  have htop : p.top 25 ≤ (p.print 80 fg bg ch).top 25 :=
    Nat.sub_le_sub_right (Nat.succ_le_succ (p.row_le_print 80)) 25
  obtain ⟨h3, hx3, hy3⟩ := h2.scrollTty hy2 htop
  rw [← hx3] at hx2
  rw [ttyRenderChar_eq]
  generalize Ttos.scrollTty (Ttos.wrapTty (Ttos.strikeTty t ch)) = u at hx2 hy3 h3 ⊢
  exact ⟨⟨hx2, hy3, h3.moveCursor⟩, h3.location_moveCursor hx2 hy3⟩

/-! ## Text -/

/-- The paper that a screen is the beginning of. -/
def Paper.ofScreen (t : Tty) : Paper where
  cells r c := if r < 25 then t.memory (r * 80 + c) else vgaTmEntry 0x20 t.fgcolor t.bgcolor
  row := t.cursorY
  col := t.cursorX

theorem TextScreen.shows (h : TextScreen t) :
    ShowsPaper t.fgcolor t.bgcolor t (Paper.ofScreen t) := by
  have htop : (Paper.ofScreen t).top 25 = 0 := Nat.sub_eq_zero_of_le h.y_lt
  refine ⟨h.x_lt, h.y_lt, ?_⟩
  rw [htop]
  refine ⟨h.mode_eq, h.ansi, rfl, rfl, (Nat.zero_add _).symm, rfl, ?_, ?_⟩
  · intro y hy x _
    rw [Nat.zero_add]
    exact (if_pos hy).symm
  · intro r hr x
    exact if_neg (by omega)

/-- The output buffer is not on the screen. -/
theorem ShowsPaper.output (h : ShowsPaper fg bg t p) (output : CircularBuffer UInt8) :
    ShowsPaper fg bg { t with output := output } p :=
  ⟨h.x_lt, h.y_lt, h.shows.mode_eq, h.shows.ansi, h.shows.fg_eq, h.shows.bg_eq, h.shows.row,
    h.shows.col, h.shows.cells, h.shows.blank⟩

/-- A byte put on an idle terminal is rendered at once. -/
theorem tty_putchar (t : IdleTty) (ch : UInt8) :
    ∃ output, (t.putchar ch).tty = ttyRender { t.tty with output := output } ch := by
  have hc : (circularBufferEnqueue t.tty.output ch).contents = [ch] := by
    rw [CircularBuffer.contents_enqueue, t.idle]
    split <;> rfl
  have hsize : circularBufferSize (circularBufferEnqueue t.tty.output ch) = 1 := by
    rw [← CircularBuffer.length_contents, hc]
    rfl
  obtain ⟨hd, -⟩ := CircularBuffer.contents_dequeue (circularBufferEnqueue t.tty.output ch)
  rw [hc] at hd
  show ∃ output, ttyFlushLoop (circularBufferSize (circularBufferEnqueue t.tty.output ch))
    { t.tty with output := circularBufferEnqueue t.tty.output ch } = _
  rw [hsize, ttyFlushLoop]
  rcases hdq : circularBufferDequeue (circularBufferEnqueue t.tty.output ch) with ⟨_ | b, output⟩
  · rw [hdq] at hd
    cases hd
  · rw [hdq] at hd
    obtain rfl : b = ch := Option.some.inj hd
    exact ⟨output, rfl⟩

/-- Text printed on the terminal. -/
theorem ShowsPaper.puts {t : IdleTty} {text : List UInt8} (h : ShowsPaper fg bg t.tty p)
    (htext : 0x1B ∉ text) :
    ShowsPaper fg bg (ttyPuts t.tty text) (text.foldl (Paper.print 80 fg bg) p) ∧
      (text ≠ [] → (ttyPuts t.tty text).location =
        (ttyPuts t.tty text).cursorY * 80 + (ttyPuts t.tty text).cursorX) := by
  induction text generalizing t p with
  | nil => exact ⟨h, fun hne => absurd rfl hne⟩
  | cons ch text ih =>
    rw [List.mem_cons, not_or] at htext
    obtain ⟨hne, htext⟩ := htext
    obtain ⟨output, hput⟩ := tty_putchar t ch
    have hrender : (t.putchar ch).tty = ttyRenderChar { t.tty with output := output } ch := by
      rw [hput, ttyRender]
      have hansi : ({ t.tty with output := output } : Tty).ansiState = .normal := h.shows.ansi
      rw [hansi]
      exact if_neg (Ne.symm hne)
    obtain ⟨hshows, hloc⟩ := (h.output output).renderChar ch
    rw [← hrender] at hshows hloc
    obtain ⟨hall, hlast⟩ := ih hshows htext
    have hputs : ttyPuts t.tty (ch :: text) = ttyPuts (t.putchar ch).tty text := rfl
    rw [hputs, List.foldl_cons]
    refine ⟨hall, fun _ => ?_⟩
    cases text with
    | nil => exact hloc
    | cons ch' text => exact hlast (List.cons_ne_nil _ _)

/-- **The terminal is a window on the paper**: after any text without an escape byte the screen
shows the last 25 rows begun of the paper that the text is printed on, with the terminal's and the
hardware's cursor at the print position. -/
theorem tty_shows_paper {t : IdleTty} (ht : TextScreen t.tty) {text : List UInt8}
    (htext : 0x1B ∉ text) :
    let p := text.foldl (Paper.print 80 t.tty.fgcolor t.tty.bgcolor) (Paper.ofScreen t.tty)
    let t' := ttyPuts t.tty text
    (∀ y < 25, ∀ x < 80, t'.memory (y * 80 + x) = p.cells (p.top 25 + y) x) ∧
      p.top 25 + t'.cursorY = p.row ∧ t'.cursorX = p.col ∧
      (text ≠ [] → t'.location = t'.cursorY * 80 + t'.cursorX) := by
  intro p t'
  obtain ⟨h, hloc⟩ := ht.shows.puts htext
  exact ⟨h.shows.cells, h.shows.row.symm, h.shows.col.symm, hloc⟩

/-- The terminal as `tty_create` leaves it, on a screen full of letters. -/
def letterScreen : IdleTty :=
  IdleTty.create ⟨80, 25⟩ (fun _ => ⟨0x41, 0x0F⟩) 0 ttyKeyboardLayoutDeDE (fun _ => 0) fun _ => 0

/-- 25 line feeds and a letter: the letter is in the last row, and the cursor behind it. -/
theorem tty_shows_paper_lines :
    let t := ttyPuts letterScreen.tty (List.replicate 25 0x0A ++ [0x42])
    t.memory (24 * 80 + 0) = ⟨0x42, 0x0F⟩ ∧ 1 + t.cursorY = 25 ∧ t.cursorX = 1 ∧
      t.location = t.cursorY * 80 + t.cursorX := by
  have hscreen : TextScreen letterScreen.tty := ⟨rfl, rfl, by decide, by decide⟩
  have htext : 0x1B ∉ List.replicate 25 (0x0A : UInt8) ++ [0x42] := by decide
  obtain ⟨hcells, hrow, hcol, hloc⟩ := tty_shows_paper hscreen htext
  have hne : List.replicate 25 (0x0A : UInt8) ++ [0x42] ≠ [] := List.cons_ne_nil _ _
  have h24 := hcells 24 (by decide) 0 (by decide)
  refine ⟨h24.trans ?_, ?_, hcol.trans ?_, hloc hne⟩
  · decide +kernel
  · refine Eq.trans ?_ (hrow.trans ?_)
    · congr 1
    · decide +kernel
  · decide +kernel

end Ttos
