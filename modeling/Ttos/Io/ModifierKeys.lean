/-
  The modifier keys: two shift keys, two control keys and caps lock against the
  two booleans of `tty_keyboard_listener`.

  * The system adds to the listener which keys are held, and how often caps lock
    was pressed; every key alternates between press and release.
  * `KeysRight`: the next key is taken as the keyboard stands.
  * `modifier_keys_right`: so it is while the keys do not overlap in the ways that
    two booleans cannot hold (`Representable`).
-/
import Ttos.Io.Tty
import Ttos.Lib.Run

namespace Ttos

/-- The listener's variables and the keyboard: the keys held, and whether caps lock was
pressed an odd number of times. -/
structure KeyboardState where
  modifiers : Modifiers
  held : ℕ → Bool
  capsOdd : Bool

namespace KeyboardState

variable (s : KeyboardState)

def shiftHeld : Bool := s.held keycodeLeftShift || s.held keycodeRightShift

def ctrlHeld : Bool := s.held keycodeLeftControl || s.held keycodeRightControl

/-- Characters are shifted. -/
def shifted : Bool := xor s.shiftHeld s.capsOdd

def exec (event : KeyboardEvent) : KeyboardState where
  modifiers := (ttyDecode s.modifiers event).1
  held := Function.update s.held event.keycode event.pressed
  capsOdd :=
    if event.keycode = keycodeCapsLock ∧ event.pressed then !s.capsOdd else s.capsOdd

end KeyboardState

def IsShift (keycode : ℕ) : Prop := keycode = keycodeLeftShift ∨ keycode = keycodeRightShift

def IsCtrl (keycode : ℕ) : Prop := keycode = keycodeLeftControl ∨ keycode = keycodeRightControl

def IsArrow (keycode : ℕ) : Prop :=
  keycode = keycodeUp ∨ keycode = keycodeDown ∨ keycode = keycodeRight ∨ keycode = keycodeLeft

/-- The keys that stand for a character. -/
def IsCharacterKey (keycode : ℕ) : Prop :=
  ¬ IsShift keycode ∧ ¬ IsCtrl keycode ∧ keycode ≠ keycodeCapsLock ∧ ¬ IsArrow keycode

instance (keycode : ℕ) : Decidable (IsShift keycode) := inferInstanceAs (Decidable (_ ∨ _))

instance (keycode : ℕ) : Decidable (IsCtrl keycode) := inferInstanceAs (Decidable (_ ∨ _))

instance (keycode : ℕ) : Decidable (IsArrow keycode) := inferInstanceAs (Decidable (_ ∨ _))

instance (keycode : ℕ) : Decidable (IsCharacterKey keycode) :=
  inferInstanceAs (Decidable (_ ∧ _))

/-- A key is pressed when it is not held, and released when it is. -/
def Alternates (s : KeyboardState) (event : KeyboardEvent) : Prop :=
  event.pressed = !s.held event.keycode

/-- The keyboard under a further condition `C` on its events; no key is held at the start. -/
def keyboardSystem (C : KeyboardState → KeyboardEvent → Prop) :
    TransitionSystem KeyboardState KeyboardEvent where
  init s := s.modifiers = ⟨false, false⟩ ∧ (∀ keycode, s.held keycode = false) ∧ s.capsOdd = false
  step s event s' := Alternates s event ∧ C s event ∧ s' = s.exec event

/-- **A character key that is pressed next is taken as the keyboard stands**: the byte
enqueued is that of the shifted form exactly if a shift key is held or caps lock is on, but
not both, and Ctrl+C is recognised exactly if a control key is held. -/
structure KeysRight (s : KeyboardState) : Prop where
  character : ∀ keycode, IsCharacterKey keycode → s.held keycode = false →
    ¬ (s.ctrlHeld ∧ keycode = keycodeC) → ∀ (t : Tty) (interruptible : Bool),
    (ttyKeyboardListener interruptible s.modifiers t ⟨keycode, true⟩).2.1.input =
      (ttyKeyInput t (.key keycode s.shifted)).foldl circularBufferEnqueue t.input
  interrupt : s.held keycodeC = false →
    ((ttyDecode s.modifiers ⟨keycodeC, true⟩).2 = .interrupt ↔ s.ctrlHeld)

/-- The events that two booleans can follow: no shift key is pressed while caps lock is on;
one is released only if the other is held and caps lock is on, or neither; and a control key
is released only if the other is not held. -/
def Representable (s : KeyboardState) (event : KeyboardEvent) : Prop :=
  if event.pressed then IsShift event.keycode → s.capsOdd = false
  else
    (event.keycode = keycodeLeftShift → s.held keycodeRightShift = s.capsOdd) ∧
    (event.keycode = keycodeRightShift → s.held keycodeLeftShift = s.capsOdd) ∧
    (event.keycode = keycodeLeftControl → s.held keycodeRightControl = false) ∧
    (event.keycode = keycodeRightControl → s.held keycodeLeftControl = false)

instance (s : KeyboardState) (event : KeyboardEvent) : Decidable (Representable s event) :=
  inferInstanceAs (Decidable (ite _ _ _))

/-- The booleans stand for the keyboard. -/
structure Represents (s : KeyboardState) : Prop where
  shift : s.modifiers.shift = s.shifted
  ctrl : s.modifiers.ctrl = s.ctrlHeld

/-! ## What an event does to the booleans -/

variable {s : KeyboardState} {m : Modifiers} {keycode : ℕ}

theorem not_isCtrl_of_isShift (h : IsShift keycode) : ¬ IsCtrl keycode := by
  rcases h with rfl | rfl <;> decide

theorem not_caps_of_isShift (h : IsShift keycode) : keycode ≠ keycodeCapsLock := by
  rcases h with rfl | rfl <;> decide

theorem not_caps_of_isCtrl (h : IsCtrl keycode) : keycode ≠ keycodeCapsLock := by
  rcases h with rfl | rfl <;> decide

/-- A release clears the boolean of its kind. -/
theorem ttyDecode_release :
    (ttyDecode m ⟨keycode, false⟩).1 =
      ⟨if IsShift keycode then false else m.shift, if IsCtrl keycode then false else m.ctrl⟩ := by
  show (if IsCtrl keycode then
      { (if IsShift keycode then { m with shift := false } else m) with ctrl := false }
    else if IsShift keycode then { m with shift := false } else m) = _
  split_ifs <;> rfl

/-- A press sets it, or toggles the shift. -/
theorem ttyDecode_press :
    (ttyDecode m ⟨keycode, true⟩).1 =
      if IsShift keycode then ⟨true, m.ctrl⟩ else if IsCtrl keycode then ⟨m.shift, true⟩
      else if keycode = keycodeCapsLock then ⟨!m.shift, m.ctrl⟩ else m := by
  show (if IsShift keycode then (_ : Modifiers × KeyAction) else if IsCtrl keycode then _
    else if keycode = keycodeCapsLock then _ else _).1 = _
  by_cases hs : IsShift keycode
  · rw [if_pos hs, if_pos hs]
  rw [if_neg hs, if_neg hs]
  by_cases hc : IsCtrl keycode
  · rw [if_pos hc, if_pos hc]
  rw [if_neg hc, if_neg hc]
  by_cases hcaps : keycode = keycodeCapsLock
  · rw [if_pos hcaps, if_pos hcaps]
  · rw [if_neg hcaps, if_neg hcaps]
    split_ifs <;> rfl

/-- What a character key asks for. -/
theorem ttyDecode_character (h : IsCharacterKey keycode) :
    (ttyDecode m ⟨keycode, true⟩).2 =
      if m.ctrl ∧ keycode = keycodeC then .interrupt else .key keycode m.shift := by
  obtain ⟨hs, hc, hcaps, ha⟩ := h
  unfold IsArrow at ha
  simp only [not_or] at ha
  show (if IsShift keycode then (_ : Modifiers × KeyAction) else if IsCtrl keycode then _
    else if keycode = keycodeCapsLock then _ else _).2 = _
  rw [if_neg hs, if_neg hc, if_neg hcaps]
  split
  · rfl
  · rw [if_neg ha.1, if_neg ha.2.1, if_neg ha.2.2.1, if_neg ha.2.2.2]

/-! ## Runs -/

theorem exec_shiftHeld {pressed : Bool} (hs : ¬ IsShift keycode) :
    (s.exec ⟨keycode, pressed⟩).shiftHeld = s.shiftHeld := by
  unfold IsShift at hs
  rw [not_or] at hs
  show (Function.update s.held keycode pressed _ || Function.update s.held keycode pressed _) = _
  rw [Function.update_of_ne (Ne.symm hs.1), Function.update_of_ne (Ne.symm hs.2)]
  rfl

theorem exec_ctrlHeld {pressed : Bool} (hc : ¬ IsCtrl keycode) :
    (s.exec ⟨keycode, pressed⟩).ctrlHeld = s.ctrlHeld := by
  unfold IsCtrl at hc
  rw [not_or] at hc
  show (Function.update s.held keycode pressed _ || Function.update s.held keycode pressed _) = _
  rw [Function.update_of_ne (Ne.symm hc.1), Function.update_of_ne (Ne.symm hc.2)]
  rfl

theorem exec_capsOdd {pressed : Bool} (h : ¬ (keycode = keycodeCapsLock ∧ pressed = true)) :
    (s.exec ⟨keycode, pressed⟩).capsOdd = s.capsOdd := if_neg h

theorem represents_iff :
    Represents s ↔ s.modifiers.shift = s.shifted ∧ s.modifiers.ctrl = s.ctrlHeld :=
  ⟨fun h => ⟨h.shift, h.ctrl⟩, fun h => ⟨h.1, h.2⟩⟩

/-- A press. -/
theorem Represents.press_iff (hr : Represents s) :
    Represents (s.exec ⟨keycode, true⟩) ↔ (IsShift keycode → s.capsOdd = false) := by
  have hdecode : (ttyDecode s.modifiers ⟨keycode, true⟩).1 = _ := ttyDecode_press
  rw [represents_iff]
  show (ttyDecode s.modifiers ⟨keycode, true⟩).1.shift = _ ∧
    (ttyDecode s.modifiers ⟨keycode, true⟩).1.ctrl = _ ↔ _
  rw [hdecode]
  by_cases hs : IsShift keycode
  · have hheld : (s.exec ⟨keycode, true⟩).shiftHeld = true := by
      rcases hs with rfl | rfl
      · rfl
      · exact Bool.or_true _
    rw [if_pos hs, exec_ctrlHeld (not_isCtrl_of_isShift hs), KeyboardState.shifted, hheld,
      exec_capsOdd fun h => not_caps_of_isShift hs h.1]
    simp [hs, hr.ctrl]
  · rw [if_neg hs, KeyboardState.shifted, exec_shiftHeld hs]
    by_cases hc : IsCtrl keycode
    · have hheld : (s.exec ⟨keycode, true⟩).ctrlHeld = true := by
        rcases hc with rfl | rfl
        · rfl
        · exact Bool.or_true _
      rw [if_pos hc, hheld, exec_capsOdd fun h => not_caps_of_isCtrl hc h.1]
      simp [hs, hr.shift, KeyboardState.shifted]
    · rw [if_neg hc, exec_ctrlHeld hc]
      by_cases hcaps : keycode = keycodeCapsLock
      · have hodd : (s.exec ⟨keycode, true⟩).capsOdd = !s.capsOdd := if_pos ⟨hcaps, rfl⟩
        rw [if_pos hcaps, hodd]
        simp [hs, hr.shift, hr.ctrl, KeyboardState.shifted]
      · rw [if_neg hcaps, exec_capsOdd fun h => hcaps h.1]
        simp [hs, hr.shift, hr.ctrl, KeyboardState.shifted]

/-- A release. -/
theorem Represents.release_iff (hr : Represents s) :
    Represents (s.exec ⟨keycode, false⟩) ↔
      (keycode = keycodeLeftShift → s.held keycodeRightShift = s.capsOdd) ∧
      (keycode = keycodeRightShift → s.held keycodeLeftShift = s.capsOdd) ∧
      (keycode = keycodeLeftControl → s.held keycodeRightControl = false) ∧
      (keycode = keycodeRightControl → s.held keycodeLeftControl = false) := by
  have hxor (a b : Bool) : false = xor a b ↔ a = b := by cases a <;> cases b <;> decide
  have hdecode : (ttyDecode s.modifiers ⟨keycode, false⟩).1 = _ := ttyDecode_release
  rw [represents_iff]
  show (ttyDecode s.modifiers ⟨keycode, false⟩).1.shift = _ ∧
    (ttyDecode s.modifiers ⟨keycode, false⟩).1.ctrl = _ ↔ _
  rw [hdecode, KeyboardState.shifted, exec_capsOdd fun h => absurd h.2 Bool.false_ne_true]
  by_cases hs : IsShift keycode
  · have hc := not_isCtrl_of_isShift hs
    rw [if_pos hs, if_neg hc, exec_ctrlHeld hc, and_iff_left hr.ctrl]
    rcases hs with rfl | rfl
    · have hheld : (s.exec ⟨keycodeLeftShift, false⟩).shiftHeld = s.held keycodeRightShift := rfl
      rw [hheld, hxor]
      exact ⟨fun h => ⟨fun _ => h, fun h => absurd h (by decide), fun h => absurd h (by decide),
        fun h => absurd h (by decide)⟩, fun h => h.1 rfl⟩
    · have hheld : (s.exec ⟨keycodeRightShift, false⟩).shiftHeld = s.held keycodeLeftShift :=
        Bool.or_false _
      rw [hheld, hxor]
      exact ⟨fun h => ⟨fun h => absurd h (by decide), fun _ => h, fun h => absurd h (by decide),
        fun h => absurd h (by decide)⟩, fun h => h.2.1 rfl⟩
  · have hs' := not_or.1 hs
    rw [if_neg hs, exec_shiftHeld hs, ← KeyboardState.shifted, and_iff_right hr.shift]
    by_cases hc : IsCtrl keycode
    · rw [if_pos hc]
      rcases hc with rfl | rfl
      · have hheld : (s.exec ⟨keycodeLeftControl, false⟩).ctrlHeld =
            s.held keycodeRightControl := rfl
        rw [hheld, eq_comm]
        exact ⟨fun h => ⟨fun h => absurd h (by decide), fun h => absurd h (by decide), fun _ => h,
          fun h => absurd h (by decide)⟩, fun h => h.2.2.1 rfl⟩
      · have hheld : (s.exec ⟨keycodeRightControl, false⟩).ctrlHeld =
            s.held keycodeLeftControl := Bool.or_false _
        rw [hheld, eq_comm]
        exact ⟨fun h => ⟨fun h => absurd h (by decide), fun h => absurd h (by decide),
          fun h => absurd h (by decide), fun _ => h⟩, fun h => h.2.2.2 rfl⟩
    · have hc' := not_or.1 hc
      rw [if_neg hc, exec_ctrlHeld hc]
      exact iff_of_true hr.ctrl ⟨fun h => absurd h hs'.1, fun h => absurd h hs'.2,
        fun h => absurd h hc'.1, fun h => absurd h hc'.2⟩

/-- **One event**: from a state they stand for, the booleans stand for the keyboard after the
event exactly if it is representable. -/
theorem Represents.exec_iff (hr : Represents s) (event : KeyboardEvent) :
    Represents (s.exec event) ↔ Representable s event := by
  obtain ⟨keycode, pressed⟩ := event
  cases pressed with
  | true => exact hr.press_iff
  | false => exact hr.release_iff

/-- Booleans that stand for the keyboard take the next key as it stands. -/
theorem Represents.keysRight (hr : Represents s) : KeysRight s where
  character keycode hkey _ hplain t interruptible := by
    have hdecode := ttyDecode_character (m := s.modifiers) hkey
    rw [hr.ctrl, if_neg hplain, hr.shift] at hdecode
    unfold ttyKeyboardListener
    split
    · rename_i heq
      rw [heq] at hdecode
      exact absurd hdecode KeyAction.noConfusion
    · rename_i heq
      rw [heq] at hdecode
      obtain rfl : _ = KeyAction.key keycode s.shifted := hdecode
      rfl
  interrupt _ := by
    rw [ttyDecode_character (by decide), ← hr.ctrl]
    simp

/-- **Modifier keys**: in a run of representable events, character keys are taken as the
keyboard stands. -/
theorem modifier_keys_right (h : (keyboardSystem Representable).Reachable s) : KeysRight s := by
  have hr : Represents s := by
    refine h.invariant ?_ ?_
    · rintro s ⟨hm, hheld, hcaps⟩
      constructor
      · rw [hm, KeyboardState.shifted, KeyboardState.shiftHeld, hheld, hheld, hcaps]
        rfl
      · rw [hm, KeyboardState.ctrlHeld, hheld, hheld]
        rfl
    · rintro s event _ - hr ⟨-, hc, rfl⟩
      exact (hr.exec_iff event).2 hc
  exact hr.keysRight

/-- The keyboard at the start. -/
def keyboardStart : KeyboardState := ⟨⟨false, false⟩, fun _ => false, false⟩

theorem keyboard_step {C : KeyboardState → KeyboardEvent → Prop} {s : KeyboardState}
    (h : (keyboardSystem C).Reachable s) (event : KeyboardEvent) (ha : Alternates s event)
    (hc : C s event) : (keyboardSystem C).Reachable (s.exec event) :=
  h.step ⟨ha, hc, rfl⟩

instance (s : KeyboardState) (event : KeyboardEvent) : Decidable (Alternates s event) :=
  inferInstanceAs (Decidable (_ = _))

/-- Caps lock pressed twice, the second time with a control key held. -/
theorem modifier_keys_right_caps :
    KeysRight ((((keyboardStart.exec ⟨keycodeCapsLock, true⟩).exec ⟨keycodeCapsLock, false⟩).exec
      ⟨keycodeLeftControl, true⟩).exec ⟨keycodeCapsLock, true⟩) := by
  have h0 : (keyboardSystem Representable).Reachable keyboardStart :=
    .init ⟨rfl, fun _ => rfl, rfl⟩
  have h1 := keyboard_step h0 ⟨keycodeCapsLock, true⟩ (by decide) (by decide)
  have h2 := keyboard_step h1 ⟨keycodeCapsLock, false⟩ (by decide) (by decide)
  have h3 := keyboard_step h2 ⟨keycodeLeftControl, true⟩ (by decide) (by decide)
  have h4 := keyboard_step h3 ⟨keycodeCapsLock, true⟩ (by decide) (by decide)
  exact modifier_keys_right h4

/-- **Two shift keys**: with the right one held, releasing the left one gives small letters. -/
theorem modifier_keys_wrong :
    ¬ ∀ s, (keyboardSystem fun _ _ => True).Reachable s → KeysRight s := by
  intro h
  have h0 : (keyboardSystem fun _ _ => True).Reachable keyboardStart :=
    .init ⟨rfl, fun _ => rfl, rfl⟩
  have h1 := keyboard_step h0 ⟨keycodeLeftShift, true⟩ (by decide) trivial
  have h2 := keyboard_step h1 ⟨keycodeRightShift, true⟩ (by decide) trivial
  have h3 := keyboard_step h2 ⟨keycodeLeftShift, false⟩ (by decide) trivial
  have hinput := (h _ h3).character (keyboardKeycode 1 0) (by decide) (by decide) (by decide)
    (ttyCreate ⟨80, 25⟩ (fun _ => ⟨0, 0⟩) 0 ttyKeyboardLayoutDeDE (fun _ => 0) fun _ => 0) false
  have hcontents := congrArg CircularBuffer.contents hinput
  revert hcontents
  decide

end Ttos
