/-
  The terminal (tty.c) over the text mode of the video driver (vga/tm).

  Output bytes pass the escape-sequence parser `ttyRender`, key events end up
  in the ring buffer `input`.  Characters are bytes; where the source compares
  a `char` with a number it is signed, which `charValue` says.
-/
import Ttos.Io.KeyboardLayout
import Ttos.Lib.Word
import Ttos.Util.CircularBuffer

namespace Ttos

/-- The value of a (signed) `char`. -/
def charValue (ch : UInt8) : ℤ := if ch.toNat < 128 then ch.toNat else ch.toNat - 256

/-! ## The text mode of the video driver -/

/-- `VGA_TM_ENTRY`: the character and its color byte. -/
structure TmEntry where
  ch : UInt8
  color : UInt8
deriving DecidableEq, Repr

def vgaTmEntry (ch fgcolor bgcolor : UInt8) : TmEntry :=
  ⟨ch, ((bgcolor &&& 0x0F) <<< 4) ||| (fgcolor &&& 0x0F)⟩

/-- The fields of `vga_current_video_mode` that the text mode uses. -/
structure VgaVideoMode where
  width : ℕ
  height : ℕ
deriving DecidableEq, Repr

/-- `vga_tm_video_memory` -/
abbrev VideoMemory := ℕ → TmEntry

def vgaTmWrite (mode : VgaVideoMode) (memory : VideoMemory) (cell : ℕ) (ch fg bg : UInt8) :
    VideoMemory :=
  if mode.width * mode.height ≤ cell then memory
  else Function.update memory cell (vgaTmEntry ch fg bg)

/-- `vga_tm_move_cursor` on the 16-bit cursor location register. -/
def vgaTmMoveCursor (mode : VgaVideoMode) (location cell : ℕ) : ℕ :=
  if mode.width * mode.height ≤ cell then location else cell % 65536

/-- `vga_tm_scroll`; 80 is the width of the only text mode. -/
def vgaTmScroll (mode : VgaVideoMode) (memory : VideoMemory) (fg bg : UInt8) : VideoMemory :=
  let shifted := (List.range' mode.width (mode.width * mode.height - mode.width)).foldl
    (fun m index => Function.update m (index - 80) (m index)) memory
  (List.range' (mode.width * mode.height) mode.width).foldl
    (fun m index => Function.update m (index - 80) (vgaTmEntry 0x20 fg bg)) shifted

/-! ## The terminal -/

/-- `tty_ansi_state_t` -/
inductive TtyAnsiState where
  | normal
  | esc
  | csi
deriving DecidableEq, Repr

def ttyBufferSize : ℕ := 1024

def ttyAnsiMaxParams : ℕ := 8

/-- `tty_t`.  The video device is its mode, its memory and its cursor;
    `tty_create` takes the rows and columns from the mode. -/
structure Tty where
  rows : ℕ
  columns : ℕ
  cursorX : ℕ
  cursorY : ℕ
  fgcolor : UInt8
  bgcolor : UInt8
  input : CircularBuffer UInt8
  output : CircularBuffer UInt8
  layout : TtyKeyboardLayout
  ansiState : TtyAnsiState
  ansiParams : ℕ → ℕ
  ansiParamCount : ℕ
  ansiCurrent : ℕ
  mode : VgaVideoMode
  memory : VideoMemory
  location : ℕ
  rows_eq : rows = mode.height
  columns_eq : columns = mode.width

namespace Tty

variable (t : Tty)

/-- `tm.write` at the terminal's colors. -/
def write (cell : ℕ) (ch : UInt8) : Tty :=
  { t with memory := vgaTmWrite t.mode t.memory cell ch t.fgcolor t.bgcolor }

/-- The cell of the cursor. -/
def cell : ℕ := u32 (t.cursorY * t.columns + t.cursorX)

/-- `tm.move_cursor` to the terminal's cursor. -/
def moveCursor : Tty := { t with location := vgaTmMoveCursor t.mode t.location t.cell }

def scroll : Tty := { t with memory := vgaTmScroll t.mode t.memory t.fgcolor t.bgcolor }

def setCursor (x y : ℕ) : Tty := { t with cursorX := x, cursorY := y }

end Tty

/-- `tty_create`; `stale` and `stalev` are what the allocated buffers and
    parameters hold, `memory` and `location` the state of the video device. -/
def ttyCreate (mode : VgaVideoMode) (memory : VideoMemory) (location : ℕ)
    (layout : TtyKeyboardLayout) (stale : ℕ → UInt8) (stalev : ℕ → ℕ) : Tty where
  rows := mode.height
  columns := mode.width
  cursorX := 0
  cursorY := 0
  fgcolor := 0x0F
  bgcolor := 0x00
  input := circularBufferCreate ttyBufferSize (by decide) stale
  output := circularBufferCreate ttyBufferSize (by decide) stale
  layout := layout
  ansiState := .normal
  ansiParams := stalev
  ansiParamCount := 0
  ansiCurrent := 0
  mode := mode
  memory := memory
  location := location
  rows_eq := rfl
  columns_eq := rfl

/-! ## Output -/

def ttyClear (t : Tty) : Tty :=
  (((List.range t.rows).foldl (fun t y => (List.range t.columns).foldl
    (fun t x => t.write (u32 (y * t.columns + x)) 0x20) t) t).setCursor 0 0).moveCursor

def ttyRenderChar (t : Tty) (ch : UInt8) : Tty :=
  let t :=
    if ch = 0x0A then t.setCursor 0 (t.cursorY + 1)
    else if ch = 0x0D then t.setCursor 0 t.cursorY
    else if ch = 0x08 then
      let t := if 0 < t.cursorX then t.setCursor (t.cursorX - 1) t.cursorY else t
      t.write t.cell 0x20
    else if ch = 0x09 then t.setCursor (u32 (t.cursorX + 8) / 8 * 8) t.cursorY
    else
      let t := t.write t.cell ch
      t.setCursor (t.cursorX + 1) t.cursorY
  -- end of line
  let t := if t.columns ≤ t.cursorX then t.setCursor 0 (t.cursorY + 1) else t
  -- end of screen
  let t := if t.rows ≤ t.cursorY then
      let t := t.scroll
      (t.setCursor t.cursorX (t.cursorY - 1)).moveCursor
    else t
  t.moveCursor

/-- A parameter, `1` if it is absent or zero. -/
def ansiParam (t : Tty) (i : ℕ) : ℕ := if t.ansiParams i = 0 then 1 else t.ansiParams i

def ttyCsiDispatch (t : Tty) (command : UInt8) : Tty :=
  if command = 0x4A then  -- 'J'
    if t.ansiParams 0 = 2 then ttyClear t else t
  else if command = 0x48 ∨ command = 0x66 then  -- 'H', 'f'
    let row := min (ansiParam t 0) t.rows
    let col := min (if 1 < t.ansiParamCount then ansiParam t 1 else 1) t.columns
    (t.setCursor (col - 1) (row - 1)).moveCursor
  else if command = 0x4B then  -- 'K'
    if t.ansiParams 0 = 0 then
      (List.range' t.cursorX (t.columns - t.cursorX)).foldl
        (fun t x => t.write (u32 (t.cursorY * t.columns + x)) 0x20) t
    else t
  else if command = 0x43 then  -- 'C'
    let amount := ansiParam t 0
    let maxX := t.columns - 1
    let x := u32 (t.cursorX + amount)
    (t.setCursor (if maxX < x then maxX else x) t.cursorY).moveCursor
  else if command = 0x44 then  -- 'D'
    let amount := ansiParam t 0
    (t.setCursor (if t.cursorX < amount then 0 else t.cursorX - amount) t.cursorY).moveCursor
  else t

/-- Commit the pending number as a parameter, if there is room. -/
def commitParam (t : Tty) : Tty :=
  if t.ansiParamCount < ttyAnsiMaxParams then
    { t with
      ansiParams := Function.update t.ansiParams t.ansiParamCount t.ansiCurrent
      ansiParamCount := t.ansiParamCount + 1 }
  else t

def ttyRender (t : Tty) (ch : UInt8) : Tty :=
  match t.ansiState with
  | .normal => if ch = 0x1B then { t with ansiState := .esc } else ttyRenderChar t ch
  | .esc =>
    if ch = 0x5B then { t with ansiState := .csi, ansiParamCount := 0, ansiCurrent := 0 }
    else { t with ansiState := .normal }
  | .csi =>
    if 0x30 ≤ ch ∧ ch ≤ 0x39 then
      { t with ansiCurrent := u32 (t.ansiCurrent * 10 + (ch.toNat - 0x30)) }
    else if ch = 0x3B then { commitParam t with ansiCurrent := 0 }
    else { ttyCsiDispatch (commitParam t) ch with ansiState := .normal }

/-- The loop of `tty_flush`; the buffer holds `n` bytes. -/
def ttyFlushLoop : ℕ → Tty → Tty
  | 0, t => t
  | n + 1, t =>
    match circularBufferDequeue t.output with
    | (none, _) => t
    | (some ch, output) => ttyFlushLoop n (ttyRender { t with output := output } ch)

def ttyFlush (t : Tty) : Tty := ttyFlushLoop (circularBufferSize t.output) t

def ttyPutchar (t : Tty) (ch : UInt8) : Tty :=
  ttyFlush { t with output := circularBufferEnqueue t.output ch }

/-- `tty_puts`, on the bytes before the terminating zero. -/
def ttyPuts (t : Tty) (str : List UInt8) : Tty := str.foldl ttyPutchar t

/-! ## Input -/

/-- `tty_getchar`; the byte `0xFF` is the `char` -1. -/
def ttyGetchar (t : Tty) : UInt8 × Tty :=
  match circularBufferDequeue t.input with
  | (none, _) => (0xFF, t)
  | (some ch, input) => (ch, { t with input := input })

def ttyKeycodeToChar (t : Tty) (keycode : ℕ) (shifted : Bool) : UInt8 :=
  match t.layout.keymap.find? fun entry => entry.keycode = keycode with
  | some entry => if shifted then entry.shifted else entry.normal
  | none => 0

/-- The bytes a key event puts into the input buffer, in order. -/
def ttyKeyInput (t : Tty) : KeyAction → List UInt8
  | .none | .interrupt => []
  | .arrow ch => [0x1B, 0x5B, UInt8.ofNat ch.toNat]
  | .key keycode shifted =>
    let ch := ttyKeycodeToChar t keycode shifted
    if ch ≠ 0 then [ch] else []

/-- `tty_keyboard_listener` on the standard terminal.  `interruptible` says
    that the current process has a parent which has a parent; the flag returned
    that the process is killed (`process_kill_current(130)`). -/
def ttyKeyboardListener (interruptible : Bool) (m : Modifiers) (t : Tty) (event : KeyboardEvent) :
    Modifiers × Tty × Bool :=
  match ttyDecode m event with
  | (m, .interrupt) =>
    if interruptible then (m, ttyPuts t [0x5E, 0x43, 0x0A], true) else (m, t, false)
  | (m, action) =>
    (m, { t with input := (ttyKeyInput t action).foldl circularBufferEnqueue t.input }, false)

/-! ## The ring buffers -/

/-- The input and the output buffer. -/
def Tty.rings (t : Tty) : CircularBuffer UInt8 × CircularBuffer UInt8 := (t.input, t.output)

theorem Tty.rings_write (t : Tty) (cell : ℕ) (ch : UInt8) : (t.write cell ch).rings = t.rings := rfl

theorem Tty.rings_setCursor (t : Tty) (x y : ℕ) : (t.setCursor x y).rings = t.rings := rfl

theorem Tty.rings_moveCursor (t : Tty) : t.moveCursor.rings = t.rings := rfl

theorem Tty.rings_scroll (t : Tty) : t.scroll.rings = t.rings := rfl

theorem rings_foldl_write (t : Tty) (cells : List ℕ) (cell : Tty → ℕ → ℕ) :
    (cells.foldl (fun t x => t.write (cell t x) 0x20) t).rings = t.rings := by
  induction cells generalizing t with
  | nil => rfl
  | cons x cells ih => rw [List.foldl_cons, ih]; rfl

theorem rings_ttyClear (t : Tty) : (ttyClear t).rings = t.rings := by
  show ((List.range t.rows).foldl _ t).rings = t.rings
  generalize List.range t.rows = ys
  induction ys generalizing t with
  | nil => rfl
  | cons y ys ih =>
    rw [List.foldl_cons, ih]
    exact rings_foldl_write t _ fun t x => u32 (y * t.columns + x)

theorem rings_ttyRenderChar (t : Tty) (ch : UInt8) : (ttyRenderChar t ch).rings = t.rings := by
  unfold ttyRenderChar
  simp only [apply_ite Tty.rings, Tty.rings_write, Tty.rings_setCursor, Tty.rings_moveCursor,
    Tty.rings_scroll, ite_self]

theorem rings_commitParam (t : Tty) : (commitParam t).rings = t.rings := by
  unfold commitParam
  split <;> rfl

theorem rings_ttyCsiDispatch (t : Tty) (command : UInt8) :
    (ttyCsiDispatch t command).rings = t.rings := by
  unfold ttyCsiDispatch
  dsimp only
  split
  · split
    · exact rings_ttyClear t
    · rfl
  split
  · rfl
  split
  · split
    · exact rings_foldl_write t _ fun t x => u32 (t.cursorY * t.columns + x)
    · rfl
  split
  · rfl
  split
  · rfl
  · rfl

/-- Rendering works on the screen, not on the buffers. -/
theorem rings_ttyRender (t : Tty) (ch : UInt8) : (ttyRender t ch).rings = t.rings := by
  unfold ttyRender
  split
  · split
    · rfl
    · exact rings_ttyRenderChar t ch
  · split <;> rfl
  · split
    · rfl
    · split
      · exact rings_commitParam t
      · exact (rings_ttyCsiDispatch _ ch).trans (rings_commitParam t)

theorem input_ttyFlushLoop (n : ℕ) (t : Tty) : (ttyFlushLoop n t).input = t.input := by
  induction n generalizing t with
  | zero => rfl
  | succ n ih =>
    unfold ttyFlushLoop
    split
    · rfl
    · rw [ih]
      exact congrArg Prod.fst (rings_ttyRender _ _)

/-- Output leaves the input buffer alone. -/
theorem input_ttyPuts (t : Tty) (str : List UInt8) : (ttyPuts t str).input = t.input := by
  unfold ttyPuts
  induction str generalizing t with
  | nil => rfl
  | cons ch str ih =>
    rw [List.foldl_cons, ih]
    exact input_ttyFlushLoop _ _

end Ttos
