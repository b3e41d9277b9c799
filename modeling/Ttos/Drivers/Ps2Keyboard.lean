/-
  The PS/2 keyboard driver (keyboard.c): scan codes of set 1 read from the 8042 controller.

  * `Ps2Signal`: what a key sends when it is pressed or released;
  * `ps2_decode`: the handler takes one signal off the controller and reports its event;
  * `ps2_encoded`: what the handler reports was sent, whatever the bytes in the controller;
  * `ps2_reports_typed`: whole runs of keys and interrupts.
-/
import Mathlib.Data.UInt
import Mathlib.Data.List.GetD
import Ttos.Lib.Run
import Ttos.System.Keyboard

namespace Ttos

/-! ## The controller -/

/-- The 8042 controller: the bytes waiting in its output buffer, and the byte the data register
gives while there are none. -/
structure Ps2Controller where
  waiting : List UInt8
  last : UInt8
deriving DecidableEq, Repr

namespace Ps2Controller

/-- `inb(PS2_STATUS_REGISTER) & 0x01` -/
def status (c : Ps2Controller) : Bool := !c.waiting.isEmpty

/-- `inb(PS2_DATA_REGISTER)` -/
def data (c : Ps2Controller) : UInt8 × Ps2Controller :=
  match c.waiting with
  | [] => (c.last, c)
  | b :: bs => (b, ⟨bs, b⟩)

end Ps2Controller

/-! ## The driver -/

namespace Keycode

def latin (value : ℕ) : ℕ := keyboardKeycode 1 value
def function (value : ℕ) : ℕ := keyboardKeycode 2 value
def cursor (value : ℕ) : ℕ := keyboardKeycode 3 value
def keypad (value : ℕ) : ℕ := keyboardKeycode 4 value
def control (value : ℕ) : ℕ := keyboardKeycode 5 value
def media (value : ℕ) : ℕ := keyboardKeycode 6 value
def acpi (value : ℕ) : ℕ := keyboardKeycode 7 value

end Keycode

open Keycode

def keycodePrintScreen : ℕ := function 12
def keycodePause : ℕ := function 14

/-- `PS2_KEYBOARD_SET1_STANDARD_KEYCODES` -/
def ps2Standard : List ℕ := [
  /- 00 -/ 0, control 10, latin 27, latin 28, latin 29, latin 30, latin 31, latin 32,
  /- 08 -/ latin 33, latin 34, latin 35, latin 26, latin 37, latin 36, control 5, control 4,
  /- 10 -/ latin 16, latin 22, latin 4, latin 17, latin 19, latin 24, latin 20, latin 8,
  /- 18 -/ latin 14, latin 15, latin 38, latin 39, control 6, control 0, latin 0, latin 18,
  /- 20 -/ latin 3, latin 5, latin 6, latin 7, latin 9, latin 10, latin 11, latin 40,
  /- 28 -/ latin 41, latin 42, control 1, latin 46, latin 25, latin 23, latin 2, latin 21,
  /- 30 -/ latin 1, latin 13, latin 12, latin 43, latin 44, latin 45, control 7, keypad 15,
  /- 38 -/ control 2, latin 47, control 3, function 0, function 1, function 2, function 3, function 4,
  /- 40 -/ function 5, function 6, function 7, function 8, function 9, keypad 16, function 13, keypad 7,
  /- 48 -/ keypad 8, keypad 9, keypad 13, keypad 4, keypad 5, keypad 6, keypad 12, keypad 1,
  /- 50 -/ keypad 2, keypad 3, keypad 0, keypad 10, 0, 0, 0, function 10,
  /- 58 -/ function 11]

/-- `PS2_KEYBOARD_SET1_EXTENDED_KEYCODES` -/
def ps2Extended : List ℕ := [
  /- 00 -/ 0, 0, 0, 0, 0, 0, 0, 0,
  /- 08 -/ 0, 0, 0, 0, 0, 0, 0, 0,
  /- 10 -/ media 5, 0, 0, 0, 0, 0, 0, 0,
  /- 18 -/ 0, media 6, 0, 0, keypad 14, control 8, 0, 0,
  /- 20 -/ media 2, media 9, media 3, 0, media 4, 0, 0, 0,
  /- 28 -/ 0, 0, 0, 0, 0, 0, media 1, 0,
  /- 30 -/ media 0, 0, media 11, 0, 0, keypad 11, 0, 0,
  /- 38 -/ control 9, 0, 0, 0, 0, 0, 0, 0,
  /- 40 -/ 0, 0, 0, 0, 0, 0, 0, function 17,
  /- 48 -/ cursor 2, function 19, 0, cursor 0, 0, cursor 1, 0, function 18,
  /- 50 -/ cursor 3, function 20, function 15, function 16, 0, 0, 0, 0,
  /- 58 -/ 0, 0, 0, control 11, control 12, control 13, acpi 0, acpi 1,
  /- 60 -/ 0, 0, 0, acpi 2, 0, media 12, media 13, media 14,
  /- 68 -/ media 15, media 16, media 17, media 18, media 10, media 8]

/-- The call of the listener for a scan code's keycode, unless the table has none. -/
def ps2Report (keycode : ℕ) (pressed : Bool) : Option KeyboardEvent :=
  if keycode ≠ 0 then some ⟨keycode, pressed⟩ else none

/-- The nested tests for the rest of a sequence: each byte is read only after the one before it was
as expected. -/
def ps2Expect : List UInt8 → Ps2Controller → Bool × Ps2Controller
  | [], c => (true, c)
  | b :: bs, c =>
    let (scancode, c) := c.data
    if scancode = b then ps2Expect bs c else (false, c)

/-- The branch of the handler for the scan codes after `0xE0`. -/
def ps2ExtendedKey (c : Ps2Controller) : Option KeyboardEvent × Ps2Controller :=
  if c.status then
    let (scancode, c) := c.data
    if scancode = 0x2A then
      let (found, c) := ps2Expect [0xE0, 0x37] c
      (if found then some ⟨keycodePrintScreen, true⟩ else none, c)
    else if scancode = 0xB7 then
      let (found, c) := ps2Expect [0xE0, 0xAA] c
      (if found then some ⟨keycodePrintScreen, false⟩ else none, c)
    else if scancode ≤ 0x6D then
      (ps2Report (ps2Extended.getD scancode.toNat 0) true, c)
    else if 0x80 ≤ scancode ∧ scancode ≤ 0xED then
      (ps2Report (ps2Extended.getD (scancode - 0x80).toNat 0) false, c)
    else (none, c)
  else (none, c)

/-- `ps2_keyboard_interrupt_handler`: the event the listener is called with. -/
def ps2KeyboardInterruptHandler (c : Ps2Controller) : Option KeyboardEvent × Ps2Controller :=
  if c.status then
    let (scancode, c) := c.data
    -- standard key
    if scancode ≤ 0x58 then
      (ps2Report (ps2Standard.getD scancode.toNat 0) true, c)
    else if 0x80 ≤ scancode ∧ scancode ≤ 0xD8 then
      (ps2Report (ps2Standard.getD (scancode - 0x80).toNat 0) false, c)
    -- pause
    else if scancode = 0xE1 then
      let (found, c) := ps2Expect [0x1D, 0x45, 0xE1, 0x9D, 0xC5] c
      (if found then some ⟨keycodePause, true⟩ else none, c)
    -- extended key
    else if scancode = 0xE0 then
      ps2ExtendedKey c
    else (none, c)
  else (none, c)

/-! ## What the keys send -/

/-- A key of the keyboard pressed or released: the code carries that the driver knows it. -/
inductive Ps2Signal where
  | standard (code : ℕ) (known : ps2Standard.getD code 0 ≠ 0) (pressed : Bool)
  | extended (code : ℕ) (known : ps2Extended.getD code 0 ≠ 0) (pressed : Bool)
  | printScreen (pressed : Bool)
  | pause

namespace Ps2Signal

/-- A released key sends its code with the highest bit set. -/
def scancode (code : ℕ) (pressed : Bool) : UInt8 :=
  UInt8.ofNat (if pressed then code else code + 0x80)

/-- Scan code set 1. -/
def bytes : Ps2Signal → List UInt8
  | standard code _ pressed => [scancode code pressed]
  | extended code _ pressed => [0xE0, scancode code pressed]
  | printScreen true => [0xE0, 0x2A, 0xE0, 0x37]
  | printScreen false => [0xE0, 0xB7, 0xE0, 0xAA]
  | pause => [0xE1, 0x1D, 0x45, 0xE1, 0x9D, 0xC5]

def event : Ps2Signal → KeyboardEvent
  | standard code _ pressed => ⟨ps2Standard.getD code 0, pressed⟩
  | extended code _ pressed => ⟨ps2Extended.getD code 0, pressed⟩
  | printScreen pressed => ⟨keycodePrintScreen, pressed⟩
  | pause => ⟨keycodePause, true⟩

end Ps2Signal

/-! ## One interrupt -/

variable {c : Ps2Controller} {b last : UInt8} {bs rest : List UInt8} {code : ℕ} {pressed : Bool}

/-- A sequence whose neighbours differ is found only where it stands: a byte that the empty
controller repeats is not the next one. -/
theorem ps2Expect_found (h : (ps2Expect bs ⟨rest, last⟩).1 = true)
    (hne : List.IsChain (· ≠ ·) (last :: bs)) :
    rest = bs ++ (ps2Expect bs ⟨rest, last⟩).2.waiting := by
  induction bs generalizing rest last with
  | nil => rfl
  | cons b bs ih =>
    obtain ⟨hb, hbs⟩ := List.isChain_cons_cons.1 hne
    cases rest with
    | nil =>
      have h' : (if last = b then ps2Expect bs ⟨[], last⟩ else (false, ⟨[], last⟩)).1 = true := h
      rw [if_neg hb] at h'
      cases h'
    | cons b' rest =>
      have e : ps2Expect (b :: bs) ⟨b' :: rest, last⟩ =
        if b' = b then ps2Expect bs ⟨rest, b'⟩ else (false, ⟨rest, b'⟩) := rfl
      rw [e] at h ⊢
      split at h
      · rename_i hbb
        subst hbb
        rw [if_pos rfl, List.cons_append, ← ih h hbs]
      · cases h

/-- The tests take bytes off the front. -/
theorem ps2Expect_suffix : (ps2Expect bs c).2.waiting <:+ c.waiting := by
  induction bs generalizing c with
  | nil => exact List.suffix_rfl
  | cons b bs ih =>
    obtain ⟨waiting, last⟩ := c
    cases waiting with
    | nil =>
      show (if last = b then ps2Expect bs ⟨[], last⟩ else (false, ⟨[], last⟩)).2.waiting <:+ []
      split
      · exact ih
      · exact List.suffix_rfl
    | cons b' rest =>
      show (if b' = b then ps2Expect bs ⟨rest, b'⟩ else (false, ⟨rest, b'⟩)).2.waiting <:+ b' :: rest
      split
      · exact ih.trans (List.suffix_cons _ _)
      · exact List.suffix_cons _ _

/-- The handler on a byte `b` in front of `rest`. -/
theorem interruptHandler_cons :
    ps2KeyboardInterruptHandler ⟨b :: rest, last⟩ =
      if b ≤ 0x58 then (ps2Report (ps2Standard.getD b.toNat 0) true, ⟨rest, b⟩)
      else if 0x80 ≤ b ∧ b ≤ 0xD8 then
        (ps2Report (ps2Standard.getD (b - 0x80).toNat 0) false, ⟨rest, b⟩)
      else if b = 0xE1 then
        (if (ps2Expect [0x1D, 0x45, 0xE1, 0x9D, 0xC5] ⟨rest, b⟩).1 then some ⟨keycodePause, true⟩
          else none, (ps2Expect [0x1D, 0x45, 0xE1, 0x9D, 0xC5] ⟨rest, b⟩).2)
      else if b = 0xE0 then ps2ExtendedKey ⟨rest, b⟩
      else (none, ⟨rest, b⟩) := rfl

theorem extendedKey_cons :
    ps2ExtendedKey ⟨b :: rest, last⟩ =
      if b = 0x2A then
        (if (ps2Expect [0xE0, 0x37] ⟨rest, b⟩).1 then some ⟨keycodePrintScreen, true⟩ else none,
          (ps2Expect [0xE0, 0x37] ⟨rest, b⟩).2)
      else if b = 0xB7 then
        (if (ps2Expect [0xE0, 0xAA] ⟨rest, b⟩).1 then some ⟨keycodePrintScreen, false⟩ else none,
          (ps2Expect [0xE0, 0xAA] ⟨rest, b⟩).2)
      else if b ≤ 0x6D then (ps2Report (ps2Extended.getD b.toNat 0) true, ⟨rest, b⟩)
      else if 0x80 ≤ b ∧ b ≤ 0xED then
        (ps2Report (ps2Extended.getD (b - 0x80).toNat 0) false, ⟨rest, b⟩)
      else (none, ⟨rest, b⟩) := rfl

theorem lt_of_known {table : List ℕ} (h : table.getD code 0 ≠ 0) : code < table.length := by
  by_contra hn
  exact h (List.getD_eq_default _ _ (not_lt.1 hn))

theorem toNat_scancode_pressed (h : code < 128) : (Ps2Signal.scancode code true).toNat = code := by
  show (UInt8.ofNat code).toNat = code
  rw [UInt8.toNat_ofNat']
  omega

theorem toNat_scancode_released (h : code < 128) :
    (Ps2Signal.scancode code false).toNat = code + 128 := by
  show (UInt8.ofNat (code + 128)).toNat = code + 128
  rw [UInt8.toNat_ofNat']
  omega

theorem toNat_scancode_sub (h : code < 128) :
    (Ps2Signal.scancode code false - 0x80).toNat = code := by
  have hr := toNat_scancode_released h
  have hle : (0x80 : UInt8) ≤ Ps2Signal.scancode code false := by
    rw [UInt8.le_iff_toNat_le, hr]
    exact Nat.le_add_left _ _
  rw [UInt8.toNat_sub_of_le _ _ hle, hr]
  exact Nat.add_sub_cancel _ _

theorem ps2Report_known {table : List ℕ} (h : table.getD code 0 ≠ 0) :
    ps2Report (table.getD code 0) pressed = some ⟨table.getD code 0, pressed⟩ := if_pos h

theorem decode_standard (pressed : Bool) (h : ps2Standard.getD code 0 ≠ 0) (last : UInt8)
    (rest : List UInt8) :
    ps2KeyboardInterruptHandler ⟨Ps2Signal.scancode code pressed :: rest, last⟩ =
      (some ⟨ps2Standard.getD code 0, pressed⟩, ⟨rest, Ps2Signal.scancode code pressed⟩) := by
  have hc : code < 0x59 := lt_of_known h
  have hc' : code < 128 := by omega
  rw [interruptHandler_cons]
  cases pressed with
  | true =>
    have hp := toNat_scancode_pressed hc'
    have hle : Ps2Signal.scancode code true ≤ 0x58 := by
      rw [UInt8.le_iff_toNat_le, hp]
      exact Nat.le_of_lt_succ hc
    rw [if_pos hle, hp, ps2Report_known h]
  | false =>
    have hr := toNat_scancode_released hc'
    have hgt : ¬ Ps2Signal.scancode code false ≤ 0x58 := by
      rw [UInt8.le_iff_toNat_le, hr]
      show ¬ code + 128 ≤ 88
      omega
    have hin : 0x80 ≤ Ps2Signal.scancode code false ∧ Ps2Signal.scancode code false ≤ 0xD8 := by
      rw [UInt8.le_iff_toNat_le, UInt8.le_iff_toNat_le, hr]
      show 128 ≤ code + 128 ∧ code + 128 ≤ 216
      omega
    rw [if_neg hgt, if_pos hin, toNat_scancode_sub hc', ps2Report_known h]

theorem decode_extended (pressed : Bool) (h : ps2Extended.getD code 0 ≠ 0) (last : UInt8)
    (rest : List UInt8) :
    ps2KeyboardInterruptHandler ⟨0xE0 :: Ps2Signal.scancode code pressed :: rest, last⟩ =
      (some ⟨ps2Extended.getD code 0, pressed⟩, ⟨rest, Ps2Signal.scancode code pressed⟩) := by
  have hc : code < 0x6E := lt_of_known h
  have hc' : code < 128 := by omega
  -- the codes that begin a print screen sequence are not in the table
  have h2A : code ≠ 0x2A := by rintro rfl; exact h rfl
  have h37 : code ≠ 0x37 := by rintro rfl; exact h rfl
  have he : ps2KeyboardInterruptHandler ⟨0xE0 :: Ps2Signal.scancode code pressed :: rest, last⟩ =
      ps2ExtendedKey ⟨Ps2Signal.scancode code pressed :: rest, 0xE0⟩ := rfl
  rw [he, extendedKey_cons]
  cases pressed with
  | true =>
    have hp := toNat_scancode_pressed hc'
    have hne1 : Ps2Signal.scancode code true ≠ 0x2A := by
      rw [← UInt8.toNat_inj.ne, hp]
      exact h2A
    have hne2 : Ps2Signal.scancode code true ≠ 0xB7 := by
      rw [← UInt8.toNat_inj.ne, hp]
      show code ≠ 183
      omega
    have hle : Ps2Signal.scancode code true ≤ 0x6D := by
      rw [UInt8.le_iff_toNat_le, hp]
      exact Nat.le_of_lt_succ hc
    rw [if_neg hne1, if_neg hne2, if_pos hle, hp, ps2Report_known h]
  | false =>
    have hr := toNat_scancode_released hc'
    have hne1 : Ps2Signal.scancode code false ≠ 0x2A := by
      rw [← UInt8.toNat_inj.ne, hr]
      show code + 128 ≠ 42
      omega
    have hne2 : Ps2Signal.scancode code false ≠ 0xB7 := by
      rw [← UInt8.toNat_inj.ne, hr]
      show code + 128 ≠ 183
      omega
    have hgt : ¬ Ps2Signal.scancode code false ≤ 0x6D := by
      rw [UInt8.le_iff_toNat_le, hr]
      show ¬ code + 128 ≤ 109
      omega
    have hin : 0x80 ≤ Ps2Signal.scancode code false ∧ Ps2Signal.scancode code false ≤ 0xED := by
      rw [UInt8.le_iff_toNat_le, UInt8.le_iff_toNat_le, hr]
      show 128 ≤ code + 128 ∧ code + 128 ≤ 237
      omega
    rw [if_neg hne1, if_neg hne2, if_neg hgt, if_pos hin, toNat_scancode_sub hc', ps2Report_known h]

/-- **One signal**: the handler takes exactly its bytes and reports its event. -/
theorem ps2_decode (signal : Ps2Signal) (last : UInt8) (rest : List UInt8) :
    (ps2KeyboardInterruptHandler ⟨signal.bytes ++ rest, last⟩).1 = some signal.event ∧
      (ps2KeyboardInterruptHandler ⟨signal.bytes ++ rest, last⟩).2.waiting = rest := by
  cases signal with
  | standard code known pressed =>
    have h := decode_standard pressed known last rest
    exact ⟨congrArg Prod.fst h, congrArg (·.2.waiting) h⟩
  | extended code known pressed =>
    have h := decode_extended pressed known last rest
    exact ⟨congrArg Prod.fst h, congrArg (·.2.waiting) h⟩
  | printScreen pressed =>
    cases pressed with
    | true => exact ⟨rfl, rfl⟩
    | false => exact ⟨rfl, rfl⟩
  | pause => exact ⟨rfl, rfl⟩

theorem ps2Report_eq_some {keycode : ℕ} {event : KeyboardEvent}
    (h : ps2Report keycode pressed = some event) : keycode ≠ 0 ∧ event = ⟨keycode, pressed⟩ := by
  unfold ps2Report at h
  split at h
  · exact ⟨‹_›, (Option.some.inj h).symm⟩
  · cases h

theorem scancode_toNat : Ps2Signal.scancode b.toNat true = b := UInt8.ofNat_toNat

theorem scancode_sub_toNat (h : 0x80 ≤ b) : Ps2Signal.scancode (b - 0x80).toNat false = b := by
  show UInt8.ofNat ((b - 0x80).toNat + 128) = b
  have h' := UInt8.le_iff_toNat_le.1 h
  rw [UInt8.toNat_sub_of_le _ _ h]
  have e : b.toNat - (0x80 : UInt8).toNat + 128 = b.toNat := Nat.sub_add_cancel h'
  rw [e, UInt8.ofNat_toNat]

/-- What was reported was sent: the bytes taken are those of a signal with that event. -/
def Encodes (event : KeyboardEvent) (before after : List UInt8) : Prop :=
  ∃ signal : Ps2Signal, signal.event = event ∧ before = signal.bytes ++ after

theorem extendedKey_encoded {event : KeyboardEvent}
    (h : (ps2ExtendedKey ⟨rest, 0xE0⟩).1 = some event) :
    Encodes event (0xE0 :: rest) (ps2ExtendedKey ⟨rest, 0xE0⟩).2.waiting := by
  cases rest with
  | nil => cases h
  | cons b rest =>
    rw [extendedKey_cons] at h ⊢
    split_ifs at h ⊢ with h1 hf h2 hf h3 h4
    · subst h1
      cases h
      exact ⟨.printScreen true, rfl, congrArg (0xE0 :: 0x2A :: ·) (ps2Expect_found hf (by decide))⟩
    · subst h2
      cases h
      exact ⟨.printScreen false, rfl, congrArg (0xE0 :: 0xB7 :: ·) (ps2Expect_found hf (by decide))⟩
    · obtain ⟨known, rfl⟩ := ps2Report_eq_some h
      refine ⟨.extended b.toNat known true, rfl, ?_⟩
      rw [Ps2Signal.bytes, scancode_toNat]
      rfl
    · obtain ⟨known, rfl⟩ := ps2Report_eq_some h
      refine ⟨.extended (b - 0x80).toNat known false, rfl, ?_⟩
      rw [Ps2Signal.bytes, scancode_sub_toNat h4.1]
      rfl

/-- **Nothing is invented**: the handler reports an event only if the bytes in the controller
begin with a signal for it, and it takes exactly those. -/
theorem ps2_encoded {event : KeyboardEvent}
    (h : (ps2KeyboardInterruptHandler c).1 = some event) :
    Encodes event c.waiting (ps2KeyboardInterruptHandler c).2.waiting := by
  obtain ⟨waiting, last⟩ := c
  cases waiting with
  | nil => cases h
  | cons b rest =>
    rw [interruptHandler_cons] at h ⊢
    split_ifs at h ⊢ with h1 h2 h3 hf h4
    · obtain ⟨known, rfl⟩ := ps2Report_eq_some h
      refine ⟨.standard b.toNat known true, rfl, ?_⟩
      rw [Ps2Signal.bytes, scancode_toNat]
      rfl
    · obtain ⟨known, rfl⟩ := ps2Report_eq_some h
      refine ⟨.standard (b - 0x80).toNat known false, rfl, ?_⟩
      rw [Ps2Signal.bytes, scancode_sub_toNat h2.1]
      rfl
    · subst h3
      cases h
      exact ⟨.pause, rfl, congrArg (0xE1 :: ·) (ps2Expect_found hf (by decide))⟩
    · subst h4
      exact extendedKey_encoded h

theorem extendedKey_suffix : (ps2ExtendedKey ⟨rest, last⟩).2.waiting <:+ rest := by
  cases rest with
  | nil => exact List.suffix_rfl
  | cons b rest =>
    have hrest : rest <:+ b :: rest := List.suffix_cons b rest
    rw [extendedKey_cons]
    split_ifs
    all_goals first
      | exact hrest
      | exact ps2Expect_suffix.trans hrest

/-- Every interrupt takes bytes off the front. -/
theorem interruptHandler_suffix : (ps2KeyboardInterruptHandler c).2.waiting <:+ c.waiting := by
  obtain ⟨waiting, last⟩ := c
  cases waiting with
  | nil => exact List.suffix_rfl
  | cons b rest =>
    have hrest : rest <:+ b :: rest := List.suffix_cons b rest
    rw [interruptHandler_cons]
    split_ifs
    all_goals first
      | exact hrest
      | exact ps2Expect_suffix.trans hrest
      | exact extendedKey_suffix.trans hrest

/-! ## Runs of keys -/

/-- The controller, with the signals sent and the events reported so far. -/
structure Ps2Run where
  controller : Ps2Controller
  sent : List Ps2Signal
  reported : List KeyboardEvent

/-- A key is pressed or released, or the handler runs. -/
inductive Ps2Step where
  | key (signal : Ps2Signal)
  | interrupt

namespace Ps2Run

variable (s : Ps2Run)

def exec : Ps2Step → Ps2Run
  | .key signal =>
    { s with
      controller := ⟨s.controller.waiting ++ signal.bytes, s.controller.last⟩
      sent := s.sent ++ [signal] }
  | .interrupt =>
    let (event, controller) := ps2KeyboardInterruptHandler s.controller
    { s with controller := controller, reported := s.reported ++ event.toList }

/-- The signals the driver has not seen are those that wait. -/
def Pending (s : Ps2Run) : Prop :=
  ∃ seen unseen, s.sent = seen ++ unseen ∧ s.reported = seen.map Ps2Signal.event ∧
    s.controller.waiting = unseen.flatMap Ps2Signal.bytes

end Ps2Run

/-- Keys and interrupts in any order, from an empty controller. -/
def ps2System : TransitionSystem Ps2Run Ps2Step where
  init s := s.controller.waiting = [] ∧ s.sent = [] ∧ s.reported = []
  step s op s' := s' = s.exec op

theorem bytes_ne_nil (signal : Ps2Signal) : signal.bytes ≠ [] := by
  cases signal with
  | printScreen pressed => cases pressed <;> exact List.cons_ne_nil _ _
  | _ => exact List.cons_ne_nil _ _

theorem flatMap_bytes_eq_nil {signals : List Ps2Signal}
    (h : signals.flatMap Ps2Signal.bytes = []) : signals = [] := by
  cases signals with
  | nil => rfl
  | cons signal signals =>
    rw [List.flatMap_cons, List.append_eq_nil_iff] at h
    exact absurd h.1 (bytes_ne_nil signal)

/-- The handler with a signal in front. -/
theorem exec_interrupt_cons {s : Ps2Run} {signal : Ps2Signal}
    (h : s.controller.waiting = signal.bytes ++ rest) :
    (s.exec .interrupt).reported = s.reported ++ [signal.event] ∧
      (s.exec .interrupt).controller.waiting = rest := by
  obtain ⟨⟨waiting, last⟩, sent, reported⟩ := s
  obtain rfl : waiting = signal.bytes ++ rest := h
  obtain ⟨h1, h2⟩ := ps2_decode signal last rest
  refine ⟨?_, h2⟩
  show reported ++ (ps2KeyboardInterruptHandler ⟨signal.bytes ++ rest, last⟩).1.toList = _
  rw [h1]
  rfl

theorem exec_interrupt_nil {s : Ps2Run} (h : s.controller.waiting = []) :
    (s.exec .interrupt).reported = s.reported ∧ (s.exec .interrupt).controller.waiting = [] := by
  obtain ⟨⟨waiting, last⟩, sent, reported⟩ := s
  obtain rfl : waiting = [] := h
  exact ⟨List.append_nil _, rfl⟩

theorem Ps2Run.Pending.exec {s : Ps2Run} (hs : s.Pending) (op : Ps2Step) : (s.exec op).Pending := by
  obtain ⟨seen, unseen, h1, h2, h3⟩ := hs
  cases op with
  | key signal =>
    refine ⟨seen, unseen ++ [signal], ?_, h2, ?_⟩
    · show s.sent ++ [signal] = _
      rw [h1, List.append_assoc]
    · show s.controller.waiting ++ signal.bytes = _
      rw [h3, List.flatMap_append, List.flatMap_singleton]
  | interrupt =>
    cases unseen with
    | nil =>
      obtain ⟨e1, e2⟩ := exec_interrupt_nil h3
      exact ⟨seen, [], h1, e1.trans h2, e2⟩
    | cons signal unseen =>
      rw [List.flatMap_cons] at h3
      obtain ⟨e1, e2⟩ := exec_interrupt_cons h3
      refine ⟨seen ++ [signal], unseen, ?_, ?_, e2⟩
      · show s.sent = _
        rw [h1, List.append_assoc]
        rfl
      · rw [e1, h2, List.map_append]
        rfl

/-- **The keyboard is read right in every run**: what is reported is a prefix of what was sent, all
of it once no byte waits, and while bytes wait an interrupt reports one event more. -/
theorem ps2_reports_typed {s : Ps2Run} (h : ps2System.Reachable s) :
    s.reported <+: s.sent.map Ps2Signal.event ∧
      (s.controller.waiting = [] → s.reported = s.sent.map Ps2Signal.event) ∧
      (s.controller.waiting ≠ [] →
        (s.exec .interrupt).reported.length = s.reported.length + 1) := by
  have hp : s.Pending := by
    refine h.invariant ?_ ?_
    · rintro s ⟨h1, h2, h3⟩
      exact ⟨[], [], h2, h3, h1⟩
    · rintro s op _ - hs rfl
      exact hs.exec op
  obtain ⟨seen, unseen, h1, h2, h3⟩ := hp
  rw [h1, h2, List.map_append]
  refine ⟨List.prefix_append _ _, ?_, ?_⟩
  · intro hw
    rw [flatMap_bytes_eq_nil (h3.symm.trans hw), List.map_nil, List.append_nil]
  · intro hw
    cases unseen with
    | nil => exact absurd h3 hw
    | cons signal unseen =>
      rw [List.flatMap_cons] at h3
      rw [(exec_interrupt_cons h3).1, h2, List.length_append]
      rfl

/-- Print screen pressed, the key A pressed, one interrupt. -/
theorem ps2_reports_typed_print_screen :
    let s : Ps2Run := (((⟨⟨[], 0⟩, [], []⟩ : Ps2Run).exec (.key (.printScreen true))).exec
      (.key (.standard 0x1E (by decide) true))).exec .interrupt
    s.reported = [⟨keycodePrintScreen, true⟩] ∧
      (s.exec .interrupt).reported.length = 2 := by
  intro s
  have h0 : ps2System.Reachable ⟨⟨[], 0⟩, [], []⟩ := .init ⟨rfl, rfl, rfl⟩
  have h1 : ps2System.Reachable s := ((h0.step rfl).step rfl).step rfl
  exact ⟨rfl, (ps2_reports_typed h1).2.2 (List.cons_ne_nil _ _)⟩

/-! ## Runs of any bytes -/

/-- The controller, with the bytes received and the events reported so far. -/
structure Ps2Noise where
  controller : Ps2Controller
  received : List UInt8
  reported : List KeyboardEvent

/-- A byte arrives (`some`), or the handler runs. -/
def Ps2Noise.exec (s : Ps2Noise) : Option UInt8 → Ps2Noise
  | some b =>
    { s with
      controller := ⟨s.controller.waiting ++ [b], s.controller.last⟩
      received := s.received ++ [b] }
  | none =>
    let (event, controller) := ps2KeyboardInterruptHandler s.controller
    { s with controller := controller, reported := s.reported ++ event.toList }

/-- The signals of `events` stand in `bs`, in order and apart from each other. -/
inductive SignalsIn : List UInt8 → List KeyboardEvent → Prop
  | nil : SignalsIn [] []
  | skip {bs gap : List UInt8} {events : List KeyboardEvent} :
    SignalsIn bs events → SignalsIn (bs ++ gap) events
  | signal {bs : List UInt8} {events : List KeyboardEvent} (signal : Ps2Signal) :
    SignalsIn bs events → SignalsIn (bs ++ signal.bytes) (events ++ [signal.event])

/-- The bytes taken so far explain the events. -/
def Ps2Noise.Explained (s : Ps2Noise) : Prop :=
  ∃ taken, s.received = taken ++ s.controller.waiting ∧ SignalsIn taken s.reported

/-- Bytes and interrupts in any order, from an empty controller. -/
def ps2NoiseSystem : TransitionSystem Ps2Noise (Option UInt8) where
  init s := s.controller.waiting = [] ∧ s.received = [] ∧ s.reported = []
  step s op s' := s' = s.exec op

theorem Ps2Noise.Explained.exec {s : Ps2Noise} (hs : s.Explained) (op : Option UInt8) :
    (s.exec op).Explained := by
  obtain ⟨taken, h1, h2⟩ := hs
  cases op with
  | some b =>
    refine ⟨taken, ?_, h2⟩
    show s.received ++ [b] = taken ++ (s.controller.waiting ++ [b])
    rw [h1, List.append_assoc]
  | none =>
    show ∃ taken, s.received = taken ++ (ps2KeyboardInterruptHandler s.controller).2.waiting ∧
      SignalsIn taken (s.reported ++ (ps2KeyboardInterruptHandler s.controller).1.toList)
    cases he : (ps2KeyboardInterruptHandler s.controller).1 with
    | none =>
      obtain ⟨gap, hgap⟩ := interruptHandler_suffix (c := s.controller)
      refine ⟨taken ++ gap, ?_, ?_⟩
      · rw [h1, List.append_assoc, hgap]
      · rw [Option.toList_none, List.append_nil]
        exact h2.skip
    | some event =>
      obtain ⟨signal, rfl, hw⟩ := ps2_encoded he
      refine ⟨taken ++ signal.bytes, ?_, h2.signal signal⟩
      rw [h1, List.append_assoc, ← hw]

/-- **No event out of noise**: whatever bytes arrive and whenever the handler runs, the events
reported are those of signals that stand one after the other in the bytes received. -/
theorem ps2_never_invents {s : Ps2Noise} (h : ps2NoiseSystem.Reachable s) :
    SignalsIn s.received s.reported := by
  have hi : s.Explained := by
    refine h.invariant ?_ ?_
    · rintro s ⟨h1, h2, h3⟩
      refine ⟨[], ?_, ?_⟩
      · rw [h1, h2]
        rfl
      · rw [h3]
        exact .nil
    · rintro s op _ - hs rfl
      exact hs.exec op
  obtain ⟨taken, h1, h2⟩ := hi
  rw [h1]
  exact h2.skip

/-- The second byte of a key's signal that arrives after the interrupt is taken for another key:
of right control the driver reports left control. -/
theorem ps2_never_invents_split :
    let s : Ps2Noise := ((((⟨⟨[], 0⟩, [], []⟩ : Ps2Noise).exec (some 0xE0)).exec none).exec
      (some 0x1D)).exec none
    s.reported = [⟨keycodeLeftControl, true⟩] ∧ SignalsIn [0xE0, 0x1D] s.reported := by
  intro s
  have h0 : ps2NoiseSystem.Reachable ⟨⟨[], 0⟩, [], []⟩ := .init ⟨rfl, rfl, rfl⟩
  have h1 : ps2NoiseSystem.Reachable s := (((h0.step rfl).step rfl).step rfl).step rfl
  exact ⟨rfl, ps2_never_invents h1⟩

end Ttos
