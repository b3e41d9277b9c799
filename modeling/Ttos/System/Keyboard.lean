/-
  Keyboard events (keyboard.h) and what the terminal's listener makes of them
  (the decoding in `tty_keyboard_listener`, tty.c).

  `ttyDecode` is the part of the listener before it acts: it follows the
  modifier keys and says what the event asks for.
-/
import Mathlib.Data.Nat.Notation

namespace Ttos

/-- `KEYBOARD_KEYCODE` -/
def keyboardKeycode (type value : ℕ) : ℕ := type * 256 + value

def keycodeC : ℕ := keyboardKeycode 1 2
def keycodeLeft : ℕ := keyboardKeycode 3 0
def keycodeRight : ℕ := keyboardKeycode 3 1
def keycodeUp : ℕ := keyboardKeycode 3 2
def keycodeDown : ℕ := keyboardKeycode 3 3
def keycodeLeftControl : ℕ := keyboardKeycode 5 0
def keycodeLeftShift : ℕ := keyboardKeycode 5 1
def keycodeCapsLock : ℕ := keyboardKeycode 5 3
def keycodeRightShift : ℕ := keyboardKeycode 5 7
def keycodeRightControl : ℕ := keyboardKeycode 5 8

/-- `keyboard_event_t` -/
structure KeyboardEvent where
  keycode : ℕ
  pressed : Bool
deriving DecidableEq, Repr

/-- The listener's static variables. -/
structure Modifiers where
  shift : Bool
  ctrl : Bool
deriving DecidableEq, Repr

/-- What a key event asks for: nothing, an interrupt, an arrow's escape
    sequence, or the character of a key. -/
inductive KeyAction where
  | none
  | interrupt
  | arrow (ch : Char)
  | key (keycode : ℕ) (shifted : Bool)
deriving DecidableEq, Repr

/-- `tty_keyboard_listener` up to the point where it acts. -/
def ttyDecode (m : Modifiers) (event : KeyboardEvent) : Modifiers × KeyAction :=
  let isShift := event.keycode = keycodeLeftShift ∨ event.keycode = keycodeRightShift
  let isCtrl := event.keycode = keycodeLeftControl ∨ event.keycode = keycodeRightControl
  if !event.pressed then
    let m := if isShift then { m with shift := false } else m
    let m := if isCtrl then { m with ctrl := false } else m
    (m, .none)
  else if isShift then ({ m with shift := true }, .none)
  else if isCtrl then ({ m with ctrl := true }, .none)
  else if event.keycode = keycodeCapsLock then ({ m with shift := !m.shift }, .none)
  else if m.ctrl ∧ event.keycode = keycodeC then (m, .interrupt)
  else if event.keycode = keycodeUp then (m, .arrow 'A')
  else if event.keycode = keycodeDown then (m, .arrow 'B')
  else if event.keycode = keycodeRight then (m, .arrow 'C')
  else if event.keycode = keycodeLeft then (m, .arrow 'D')
  else (m, .key event.keycode m.shift)

end Ttos
