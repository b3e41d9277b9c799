/-
  The cells the terminal passes to the video driver.

  The functions of the output side once more, with a record of the cells given to `tm.write`
  and `tm.move_cursor`, and with the indexes into `ansi_params` checked.

  * `CursorOk`: the cursor is on the screen.
  * `tty_cursor_safe`: after every sequence of bytes; and the next byte passes cells of the
    screen only and computes what `ttyRender` computes.
-/
import Ttos.Io.Tty
import Ttos.Lib.Traced

namespace Ttos

/-! ## The calls of the driver -/

/-- An index into `ansi_params` that is out of range. -/
inductive TtyFault where
  | paramIndex (i : ℕ)
deriving DecidableEq, Repr

/-- A computation of the terminal, with the cells it passed to the driver. -/
abbrev TtyCalls (α : Type) := Traced ℕ TtyFault α

def tmWrite (t : Tty) (cell : ℕ) (ch : UInt8) : TtyCalls Tty := do
  Traced.tell cell
  return t.write cell ch

def tmMoveCursor (t : Tty) : TtyCalls Tty := do
  Traced.tell t.cell
  return t.moveCursor

/-- `ansi_params[i]` -/
def ansiParamRead (t : Tty) (i : ℕ) : TtyCalls ℕ :=
  Traced.lift (if i < ttyAnsiMaxParams then .ok (t.ansiParams i) else .error (.paramIndex i))

/-- `ansi_params[i] = value` -/
def ansiParamWrite (t : Tty) (i value : ℕ) : TtyCalls Tty :=
  Traced.lift (if i < ttyAnsiMaxParams then
    .ok { t with ansiParams := Function.update t.ansiParams i value } else .error (.paramIndex i))

def ttyClearCalls (t : Tty) : TtyCalls Tty := do
  let t ← (List.range t.rows).foldlM (fun t y => (List.range t.columns).foldlM
    (fun t x => tmWrite t (u32 (y * t.columns + x)) 0x20) t) t
  tmMoveCursor (t.setCursor 0 0)

/-- The first part of `tty_render_char`. -/
def ttyPutCharCalls (t : Tty) (ch : UInt8) : TtyCalls Tty :=
  if ch = 0x0A then return t.setCursor 0 (t.cursorY + 1)
  else if ch = 0x0D then return t.setCursor 0 t.cursorY
  else if ch = 0x08 then
    let t := if 0 < t.cursorX then t.setCursor (t.cursorX - 1) t.cursorY else t
    tmWrite t t.cell 0x20
  else if ch = 0x09 then return t.setCursor (u32 (t.cursorX + 8) / 8 * 8) t.cursorY
  else do
    let t ← tmWrite t t.cell ch
    return t.setCursor (t.cursorX + 1) t.cursorY

/-- The end of the screen. -/
def ttyScrollCalls (t : Tty) : TtyCalls Tty :=
  if t.rows ≤ t.cursorY then
    let t := t.scroll
    tmMoveCursor (t.setCursor t.cursorX (t.cursorY - 1))
  else return t

def ttyRenderCharCalls (t : Tty) (ch : UInt8) : TtyCalls Tty := do
  let t ← ttyPutCharCalls t ch
  -- end of line
  let t ← ttyScrollCalls (if t.columns ≤ t.cursorX then t.setCursor 0 (t.cursorY + 1) else t)
  tmMoveCursor t

/-- A parameter, `1` if it is absent or zero. -/
def ansiParamCalls (t : Tty) (i : ℕ) : TtyCalls ℕ := do
  let n ← ansiParamRead t i
  return if n = 0 then 1 else n

/-- The second parameter, `1` if it is not there. -/
def ansiColumnCalls (t : Tty) : TtyCalls ℕ :=
  if 1 < t.ansiParamCount then ansiParamCalls t 1 else return 1

def ttyCsiDispatchCalls (t : Tty) (command : UInt8) : TtyCalls Tty :=
  if command = 0x4A then do  -- 'J'
    let n ← ansiParamRead t 0
    if n = 2 then ttyClearCalls t else return t
  else if command = 0x48 ∨ command = 0x66 then do  -- 'H', 'f'
    let row ← ansiParamCalls t 0
    let col ← ansiColumnCalls t
    tmMoveCursor (t.setCursor (min col t.columns - 1) (min row t.rows - 1))
  else if command = 0x4B then do  -- 'K'
    let n ← ansiParamRead t 0
    if n = 0 then
      (List.range' t.cursorX (t.columns - t.cursorX)).foldlM
        (fun t x => tmWrite t (u32 (t.cursorY * t.columns + x)) 0x20) t
    else return t
  else if command = 0x43 then do  -- 'C'
    let amount ← ansiParamCalls t 0
    let maxX := t.columns - 1
    let x := u32 (t.cursorX + amount)
    tmMoveCursor (t.setCursor (if maxX < x then maxX else x) t.cursorY)
  else if command = 0x44 then do  -- 'D'
    let amount ← ansiParamCalls t 0
    tmMoveCursor (t.setCursor (if t.cursorX < amount then 0 else t.cursorX - amount) t.cursorY)
  else return t

/-- Commit the pending number as a parameter, if there is room. -/
def commitParamCalls (t : Tty) : TtyCalls Tty :=
  if t.ansiParamCount < ttyAnsiMaxParams then do
    let t ← ansiParamWrite t t.ansiParamCount t.ansiCurrent
    return { t with ansiParamCount := t.ansiParamCount + 1 }
  else return t

def ttyRenderCalls (t : Tty) (ch : UInt8) : TtyCalls Tty :=
  match t.ansiState with
  | .normal => if ch = 0x1B then return { t with ansiState := .esc } else ttyRenderCharCalls t ch
  | .esc =>
    if ch = 0x5B then return { t with ansiState := .csi, ansiParamCount := 0, ansiCurrent := 0 }
    else return { t with ansiState := .normal }
  | .csi =>
    if 0x30 ≤ ch ∧ ch ≤ 0x39 then
      return { t with ansiCurrent := u32 (t.ansiCurrent * 10 + (ch.toNat - 0x30)) }
    else if ch = 0x3B then do
      let t ← commitParamCalls t
      return { t with ansiCurrent := 0 }
    else do
      let t ← commitParamCalls t
      let t ← ttyCsiDispatchCalls t ch
      return { t with ansiState := .normal }

/-! ## The cursor -/

/-- The cursor is on the screen of `rows` and `columns`. -/
structure CursorOk (rows columns : ℕ) (t : Tty) : Prop where
  rows_eq : t.rows = rows
  columns_eq : t.columns = columns
  x_lt : t.cursorX < columns
  y_lt : t.cursorY < rows
  params : t.ansiParamCount ≤ ttyAnsiMaxParams

theorem cell_lt {rows columns x y : ℕ} (hx : x < columns) (hy : y < rows) :
    u32 (y * columns + x) < rows * columns :=
  calc u32 (y * columns + x) ≤ y * columns + x := Nat.mod_le _ _
    _ < y * columns + columns := by omega
    _ = (y + 1) * columns := (Nat.succ_mul y columns).symm
    _ ≤ rows * columns := Nat.mul_le_mul_right _ hy

section
variable {rows columns : ℕ} {t : Tty} {ch : UInt8}

theorem CursorOk.cell_lt (h : CursorOk rows columns t) : t.cell < rows * columns := by
  rw [Tty.cell, h.columns_eq]
  exact Ttos.cell_lt h.x_lt h.y_lt

/-- The cursor anywhere on the screen. -/
theorem CursorOk.setCursor {x y : ℕ} (h : CursorOk rows columns t) (hx : x < columns)
    (hy : y < rows) : CursorOk rows columns (t.setCursor x y) :=
  ⟨h.rows_eq, h.columns_eq, hx, hy, h.params⟩

theorem does_tmWrite {cell : ℕ} (h : cell < rows * columns) :
    (tmWrite t cell ch).Does (· < rows * columns) (t.write cell ch) :=
  (Traced.Does.tell (P := (· < rows * columns)) h).bind (.pure _)

theorem does_tmMoveCursor (h : CursorOk rows columns t) :
    (tmMoveCursor t).Does (· < rows * columns) t.moveCursor ∧ CursorOk rows columns t.moveCursor :=
  ⟨(Traced.Does.tell (P := (· < rows * columns)) h.cell_lt).bind (.pure _),
    ⟨h.rows_eq, h.columns_eq, h.x_lt, h.y_lt, h.params⟩⟩

/-- Cells of one row. -/
theorem does_writeCells {cells : List ℕ} {y : Tty → ℕ} (h : CursorOk rows columns t)
    (hy : ∀ t, CursorOk rows columns t → y t < rows) (hc : ∀ x ∈ cells, x < columns) :
    (cells.foldlM (fun t x => tmWrite t (u32 (y t * t.columns + x)) 0x20) t).Does (· < rows * columns)
        (cells.foldl (fun t x => t.write (u32 (y t * t.columns + x)) 0x20) t) ∧
      CursorOk rows columns (cells.foldl (fun t x => t.write (u32 (y t * t.columns + x)) 0x20) t) := by
  refine Traced.Does.foldlM (I := CursorOk rows columns) (fun t x hx ht => ?_) h
  refine ⟨does_tmWrite ?_, ⟨ht.rows_eq, ht.columns_eq, ht.x_lt, ht.y_lt, ht.params⟩⟩
  rw [ht.columns_eq]
  exact cell_lt (hc x hx) (hy t ht)

theorem does_ttyClear (h : CursorOk rows columns t) :
    (ttyClearCalls t).Does (· < rows * columns) (ttyClear t) ∧ CursorOk rows columns (ttyClear t) := by
  have hloop := Traced.Does.foldlM (P := (· < rows * columns)) (I := CursorOk rows columns)
    (f := fun t y => (List.range t.columns).foldlM
      (fun t x => tmWrite t (u32 (y * t.columns + x)) 0x20) t)
    (g := fun t y => (List.range t.columns).foldl
      (fun t x => t.write (u32 (y * t.columns + x)) 0x20) t) (l := List.range t.rows) ?_ h
  · obtain ⟨hd, hok⟩ := hloop
    have hx : 0 < columns := (Nat.zero_le _).trans_lt h.x_lt
    have hy : 0 < rows := (Nat.zero_le _).trans_lt h.y_lt
    obtain ⟨hm, hok'⟩ := does_tmMoveCursor (hok.setCursor hx hy)
    exact ⟨hd.bind hm, hok'⟩
  · intro t' y hy ht
    refine does_writeCells (y := fun _ => y) ht (fun _ _ => ?_) fun x hx => ?_
    · rw [← h.rows_eq]
      exact List.mem_range.1 hy
    · rw [← ht.columns_eq]
      exact List.mem_range.1 hx

/-- After a character the cursor may be behind the last column, or below the last row. -/
theorem does_ttyPutChar (h : CursorOk rows columns t) (ch : UInt8) : ∃ t',
    (ttyPutCharCalls t ch).Does (· < rows * columns) t' ∧ t'.rows = rows ∧ t'.columns = columns ∧
      t'.ansiParamCount ≤ ttyAnsiMaxParams ∧
      (t'.cursorY < rows ∨ t'.cursorX < columns ∧ t'.cursorY = rows) ∧
      t' = if ch = 0x0A then t.setCursor 0 (t.cursorY + 1)
        else if ch = 0x0D then t.setCursor 0 t.cursorY
        else if ch = 0x08 then
          let t := if 0 < t.cursorX then t.setCursor (t.cursorX - 1) t.cursorY else t
          t.write t.cell 0x20
        else if ch = 0x09 then t.setCursor (u32 (t.cursorX + 8) / 8 * 8) t.cursorY
        else
          let t := t.write t.cell ch
          t.setCursor (t.cursorX + 1) t.cursorY := by
  have hx := h.x_lt
  have hy := h.y_lt
  unfold ttyPutCharCalls
  split_ifs
  · refine ⟨_, .pure _, h.rows_eq, h.columns_eq, h.params, ?_, rfl⟩
    show t.cursorY + 1 < rows ∨ 0 < columns ∧ t.cursorY + 1 = rows
    omega
  · exact ⟨_, .pure _, h.rows_eq, h.columns_eq, h.params, Or.inl hy, rfl⟩
  · have hleft := h.setCursor (x := t.cursorX - 1) (by omega) hy
    exact ⟨_, does_tmWrite hleft.cell_lt, h.rows_eq, h.columns_eq, h.params, Or.inl hy, rfl⟩
  · exact ⟨_, does_tmWrite h.cell_lt, h.rows_eq, h.columns_eq, h.params, Or.inl hy, rfl⟩
  · exact ⟨_, .pure _, h.rows_eq, h.columns_eq, h.params, Or.inl hy, rfl⟩
  · exact ⟨_, (does_tmWrite h.cell_lt).bind (.pure _), h.rows_eq, h.columns_eq, h.params, Or.inl hy, rfl⟩

theorem does_ttyScroll (hrows : 0 < rows) (hr : t.rows = rows) (hc : t.columns = columns) (hx : t.cursorX < columns)
    (hy : t.cursorY ≤ rows) (hp : t.ansiParamCount ≤ ttyAnsiMaxParams) :
    (ttyScrollCalls t).Does (· < rows * columns)
        (if t.rows ≤ t.cursorY then (t.scroll.setCursor t.scroll.cursorX (t.scroll.cursorY - 1)).moveCursor
          else t) ∧
      CursorOk rows columns
        (if t.rows ≤ t.cursorY then (t.scroll.setCursor t.scroll.cursorX (t.scroll.cursorY - 1)).moveCursor
          else t) := by
  unfold ttyScrollCalls
  split_ifs with hend
  · refine does_tmMoveCursor ⟨hr, hc, hx, ?_, hp⟩
    show t.cursorY - 1 < rows
    omega
  · exact ⟨.pure _, ⟨hr, hc, hx, by omega, hp⟩⟩

theorem does_ttyRenderChar (h : CursorOk rows columns t) :
    (ttyRenderCharCalls t ch).Does (· < rows * columns) (ttyRenderChar t ch) ∧
      CursorOk rows columns (ttyRenderChar t ch) := by
  obtain ⟨t₁, hd, hr, hc, hp, hxy, ht₁⟩ := does_ttyPutChar h ch
  have hx := h.x_lt
  have hy := h.y_lt
  unfold ttyRenderChar
  rw [← ht₁]
  dsimp only
  -- end of line
  generalize ht₂ : (if t₁.columns ≤ t₁.cursorX then t₁.setCursor 0 (t₁.cursorY + 1) else t₁) = t₂
  have h₂ : t₂.rows = rows ∧ t₂.columns = columns ∧ t₂.ansiParamCount ≤ ttyAnsiMaxParams ∧
      t₂.cursorX < columns ∧ t₂.cursorY ≤ rows := by
    rw [← ht₂]
    split_ifs with hend
    · refine ⟨hr, hc, hp, (Nat.zero_le _).trans_lt hx, ?_⟩
      show t₁.cursorY + 1 ≤ rows
      omega
    · exact ⟨hr, hc, hp, by omega, by omega⟩
  obtain ⟨hr₂, hc₂, hp₂, hx₂, hy₂⟩ := h₂
  obtain ⟨hs, hok⟩ := does_ttyScroll ((Nat.zero_le _).trans_lt hy) hr₂ hc₂ hx₂ hy₂ hp₂
  obtain ⟨hm, hok'⟩ := does_tmMoveCursor hok
  refine ⟨hd.bind ?_, hok'⟩
  rw [ht₂]
  exact hs.bind hm

/-! ## Commands -/

theorem does_ansiParamRead {i : ℕ} (hi : i < ttyAnsiMaxParams) :
    (ansiParamRead t i).Does (· < rows * columns) (t.ansiParams i) :=
  .lift (if_pos hi)

theorem does_ansiParam {i : ℕ} (hi : i < ttyAnsiMaxParams) :
    (ansiParamCalls t i).Does (· < rows * columns) (ansiParam t i) :=
  (does_ansiParamRead hi).bind (.pure _)

theorem ansiParam_pos (t : Tty) (i : ℕ) : 0 < ansiParam t i := by
  unfold ansiParam
  split_ifs <;> omega

theorem does_commitParam (h : CursorOk rows columns t) :
    (commitParamCalls t).Does (· < rows * columns) (commitParam t) ∧
      CursorOk rows columns (commitParam t) := by
  unfold commitParamCalls commitParam
  split_ifs with hroom
  · have hw : (ansiParamWrite t t.ansiParamCount t.ansiCurrent).Does (· < rows * columns) _ :=
      .lift (if_pos hroom)
    exact ⟨hw.bind (.pure _), ⟨h.rows_eq, h.columns_eq, h.x_lt, h.y_lt, hroom⟩⟩
  · exact ⟨.pure _, h⟩

theorem does_ttyCsiDispatch (h : CursorOk rows columns t) (ch : UInt8) :
    (ttyCsiDispatchCalls t ch).Does (· < rows * columns) (ttyCsiDispatch t ch) ∧
      CursorOk rows columns (ttyCsiDispatch t ch) := by
  have hx := h.x_lt
  have hy := h.y_lt
  have h0 : 0 < ttyAnsiMaxParams := by decide
  have h1 : 1 < ttyAnsiMaxParams := by decide
  have hpos := ansiParam_pos t 0
  unfold ttyCsiDispatchCalls ttyCsiDispatch
  by_cases hJ : ch = 0x4A
  · rw [if_pos hJ, if_pos hJ]
    by_cases h2 : t.ansiParams 0 = 2
    · obtain ⟨hd, hok⟩ := does_ttyClear h
      rw [if_pos h2]
      exact ⟨(does_ansiParamRead h0).bind (by rw [if_pos h2]; exact hd), hok⟩
    · rw [if_neg h2]
      exact ⟨(does_ansiParamRead h0).bind (by rw [if_neg h2]; exact .pure _), h⟩
  rw [if_neg hJ, if_neg hJ]
  by_cases hH : ch = 0x48 ∨ ch = 0x66
  · rw [if_pos hH, if_pos hH]
    have hcol : (ansiColumnCalls t).Does (· < rows * columns)
        (if 1 < t.ansiParamCount then ansiParam t 1 else 1) := by
      unfold ansiColumnCalls
      split_ifs
      · exact does_ansiParam h1
      · exact .pure _
    have hmove := does_tmMoveCursor (h.setCursor
      (x := min (if 1 < t.ansiParamCount then ansiParam t 1 else 1) t.columns - 1)
      (y := min (ansiParam t 0) t.rows - 1)
      (by rw [h.columns_eq]; omega) (by rw [h.rows_eq]; omega))
    exact ⟨(does_ansiParam h0).bind (hcol.bind hmove.1), hmove.2⟩
  rw [if_neg hH, if_neg hH]
  by_cases hK : ch = 0x4B
  · rw [if_pos hK, if_pos hK]
    by_cases h2 : t.ansiParams 0 = 0
    · rw [if_pos h2]
      have hcells : ∀ x ∈ List.range' t.cursorX (t.columns - t.cursorX), x < columns := by
        intro x hmem
        have hm := List.mem_range'_1.1 hmem
        rw [h.columns_eq] at hm
        omega
      obtain ⟨hd, hok⟩ := does_writeCells (y := fun t => t.cursorY) h (fun t ht => ht.y_lt) hcells
      exact ⟨(does_ansiParamRead h0).bind (by rw [if_pos h2]; exact hd), hok⟩
    · rw [if_neg h2]
      exact ⟨(does_ansiParamRead h0).bind (by rw [if_neg h2]; exact .pure _), h⟩
  rw [if_neg hK, if_neg hK]
  by_cases hC : ch = 0x43
  · rw [if_pos hC, if_pos hC]
    have hmove := does_tmMoveCursor (h.setCursor (x := if t.columns - 1 < u32 (t.cursorX + ansiParam t 0)
      then t.columns - 1 else u32 (t.cursorX + ansiParam t 0)) (y := t.cursorY)
      (by rw [h.columns_eq]; split_ifs <;> omega) hy)
    exact ⟨(does_ansiParam h0).bind hmove.1, hmove.2⟩
  rw [if_neg hC, if_neg hC]
  by_cases hD : ch = 0x44
  · rw [if_pos hD, if_pos hD]
    have hmove := does_tmMoveCursor (h.setCursor (x := if t.cursorX < ansiParam t 0 then 0
      else t.cursorX - ansiParam t 0) (y := t.cursorY) (by split_ifs <;> omega) hy)
    exact ⟨(does_ansiParam h0).bind hmove.1, hmove.2⟩
  · rw [if_neg hD, if_neg hD]
    exact ⟨.pure _, h⟩

/-! ## The parser -/

/-- **One byte**: it passes cells of the screen only, and leaves the cursor on it. -/
theorem does_ttyRender (h : CursorOk rows columns t) (ch : UInt8) :
    (ttyRenderCalls t ch).Does (· < rows * columns) (ttyRender t ch) ∧
      CursorOk rows columns (ttyRender t ch) := by
  unfold ttyRenderCalls ttyRender
  cases t.ansiState with
  | normal =>
    dsimp only
    split_ifs
    · exact ⟨.pure _, ⟨h.rows_eq, h.columns_eq, h.x_lt, h.y_lt, h.params⟩⟩
    · exact does_ttyRenderChar h
  | esc =>
    dsimp only
    split_ifs
    · exact ⟨.pure _, ⟨h.rows_eq, h.columns_eq, h.x_lt, h.y_lt, Nat.zero_le _⟩⟩
    · exact ⟨.pure _, ⟨h.rows_eq, h.columns_eq, h.x_lt, h.y_lt, h.params⟩⟩
  | csi =>
    dsimp only
    obtain ⟨hc, hok⟩ := does_commitParam h
    split_ifs
    · exact ⟨.pure _, ⟨h.rows_eq, h.columns_eq, h.x_lt, h.y_lt, h.params⟩⟩
    · exact ⟨hc.bind (.pure _), ⟨hok.rows_eq, hok.columns_eq, hok.x_lt, hok.y_lt, hok.params⟩⟩
    · obtain ⟨hd, hok'⟩ := does_ttyCsiDispatch hok ch
      exact ⟨hc.bind (hd.bind (.pure _)),
        ⟨hok'.rows_eq, hok'.columns_eq, hok'.x_lt, hok'.y_lt, hok'.params⟩⟩

theorem cursorOk_foldl (h : CursorOk rows columns t) (bytes : List UInt8) :
    CursorOk rows columns (bytes.foldl ttyRender t) := by
  induction bytes generalizing t with
  | nil => exact h
  | cons ch bytes ih => exact ih (does_ttyRender h ch).2

end

/-- The next byte is rendered as `ttyRender` says: the indexes into the parameters are in range,
    and the cells passed to the driver are cells of the screen. -/
structure RenderSafe (rows columns : ℕ) (t : Tty) (ch : UInt8) : Prop where
  result : (ttyRenderCalls t ch).result = .ok (ttyRender t ch)
  cells : ∀ cell ∈ (ttyRenderCalls t ch).log, cell < rows * columns

/-- A terminal that `tty_create` has made. -/
inductive NewTerminal (mode : VgaVideoMode) : Tty → Prop
  | create (memory : VideoMemory) (location : ℕ) (layout : TtyKeyboardLayout) (stale : ℕ → UInt8)
      (stalev : ℕ → ℕ) : NewTerminal mode (ttyCreate mode memory location layout stale stalev)

/-- **The cursor stays on the screen**, for every terminal and every sequence of bytes, and
    every byte is rendered with cells of the screen only. -/
theorem tty_cursor_safe {mode : VgaVideoMode} (hrows : 1 ≤ mode.height) (hcolumns : 1 ≤ mode.width)
    {t : Tty} (ht : NewTerminal mode t) (bytes : List UInt8) :
    CursorOk mode.height mode.width (bytes.foldl ttyRender t) ∧
      ∀ ch, RenderSafe mode.height mode.width (bytes.foldl ttyRender t) ch := by
  have hstart : CursorOk mode.height mode.width t := by
    cases ht with
    | create => exact ⟨rfl, rfl, hcolumns, hrows, Nat.zero_le _⟩
  have hok := cursorOk_foldl hstart bytes
  refine ⟨hok, fun ch => ?_⟩
  obtain ⟨hd, -⟩ := does_ttyRender hok ch
  exact ⟨hd.result, hd.all⟩

theorem tty_cursor_safe_vga : ∃ t, NewTerminal ⟨80, 25⟩ t ∧
    CursorOk 25 80 ([0x41].foldl ttyRender t) ∧ ∀ ch, RenderSafe 25 80 ([0x41].foldl ttyRender t) ch := by
  have ht : NewTerminal ⟨80, 25⟩ _ :=
    .create (fun _ => ⟨0x20, 0x0F⟩) 0 ttyKeyboardLayoutDeDE (fun _ => 0) fun _ => 0
  exact ⟨_, ht, tty_cursor_safe (show 1 ≤ 25 by decide) (show 1 ≤ 80 by decide) ht [0x41]⟩

end Ttos
