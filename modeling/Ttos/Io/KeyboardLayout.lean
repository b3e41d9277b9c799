/-
  The German keyboard layout (keyboard_layout.c).

  A `char` is its byte.  The source is UTF-8, so a letter outside ASCII is a
  two-byte constant of which `char` keeps the second byte.
-/
import Mathlib.Data.UInt
import Ttos.System.Keyboard

namespace Ttos

/-- `tty_keymap_entry_t` -/
structure TtyKeymapEntry where
  keycode : ℕ
  normal : UInt8
  shifted : UInt8
deriving DecidableEq, Repr

/-- `tty_keyboard_layout_t`; the keymap's length is `keymap_size`. -/
structure TtyKeyboardLayout where
  keymap : List TtyKeymapEntry

/-- A key of the latin block (`KEYBOARD_KEYCODE_TYPE_LATIN`). -/
def latinKey (value : ℕ) (normal shifted : UInt8) : TtyKeymapEntry :=
  ⟨keyboardKeycode 1 value, normal, shifted⟩

/-- A key that gives the same character with and without shift. -/
def controlKey (value : ℕ) (ch : UInt8) : TtyKeymapEntry := ⟨keyboardKeycode 5 value, ch, ch⟩

def ttyKeyboardLayoutDeDE : TtyKeyboardLayout where
  keymap := [
    latinKey 42 0x5E 0xB0,  -- '^', '°'
    latinKey 27 0x31 0x21, latinKey 28 0x32 0x22,
    latinKey 29 0x33 0xA7,  -- '3', '§'
    latinKey 30 0x34 0x24, latinKey 31 0x35 0x25, latinKey 32 0x36 0x26, latinKey 33 0x37 0x2F,
    latinKey 34 0x38 0x28, latinKey 35 0x39 0x29, latinKey 26 0x30 0x3D,
    latinKey 37 0x9F 0x3F,  -- 'ß', '?'
    latinKey 36 0x60 0x60, controlKey 5 0x08, controlKey 4 0x09,
    latinKey 16 0x71 0x51, latinKey 22 0x77 0x57, latinKey 4 0x65 0x45, latinKey 17 0x72 0x52,
    latinKey 19 0x74 0x54,
    latinKey 24 0x7A 0x5A,  -- KEYBOARD_KEYCODE_Y gives 'z', 'Z'
    latinKey 20 0x75 0x55, latinKey 8 0x69 0x49, latinKey 14 0x6F 0x4F, latinKey 15 0x70 0x50,
    latinKey 38 0xBC 0x9C,  -- 'ü', 'Ü'
    latinKey 39 0x2B 0x2A, controlKey 6 0x0A,
    latinKey 0 0x61 0x41, latinKey 18 0x73 0x53, latinKey 3 0x64 0x44, latinKey 5 0x66 0x46,
    latinKey 6 0x67 0x47, latinKey 7 0x68 0x48, latinKey 9 0x6A 0x4A, latinKey 10 0x6B 0x4B,
    latinKey 11 0x6C 0x4C,
    latinKey 40 0xB6 0x96,  -- 'ö', 'Ö'
    latinKey 41 0xA4 0x84,  -- 'ä', 'Ä'
    latinKey 46 0x23 0x27, controlKey 1 0x00,
    latinKey 25 0x79 0x59,  -- KEYBOARD_KEYCODE_Z gives 'y', 'Y'
    latinKey 23 0x78 0x58, latinKey 2 0x63 0x43, latinKey 21 0x76 0x56, latinKey 1 0x62 0x42,
    latinKey 13 0x6E 0x4E, latinKey 12 0x6D 0x4D, latinKey 43 0x2C 0x3B, latinKey 44 0x2E 0x3A,
    latinKey 45 0x2D 0x5F, latinKey 47 0x20 0x20]

/-- `keymap_size` is the number of entries listed. -/
theorem length_keymap_deDE : ttyKeyboardLayoutDeDE.keymap.length = 52 := by decide

end Ttos
