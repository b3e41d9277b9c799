/-
  Typing: from the keys over the keyboard driver, the terminal's listener and the
  input buffer to the read syscall on file descriptor 0.

  Keys, keyboard interrupts and reads come in any order.

  * `typedText`: the text of the keys, with the modifiers followed;
  * `typing_delivered`: what the reads deliver is a prefix of that text, and all
    of it once neither the controller nor the buffer holds anything.
-/
import Ttos.Drivers.Ps2Keyboard
import Ttos.Io.Stdin

namespace Ttos

/-! ## The layout stays -/

theorem layout_foldl_write (t : Tty) (cells : List ℕ) (cell : Tty → ℕ → ℕ) :
    (cells.foldl (fun t x => t.write (cell t x) 0x20) t).layout = t.layout := by
  induction cells generalizing t with
  | nil => rfl
  | cons x cells ih => rw [List.foldl_cons, ih]; rfl

theorem layout_ttyClear (t : Tty) : (ttyClear t).layout = t.layout := by
  show ((List.range t.rows).foldl _ t).layout = t.layout
  generalize List.range t.rows = ys
  induction ys generalizing t with
  | nil => rfl
  | cons y ys ih =>
    rw [List.foldl_cons, ih]
    exact layout_foldl_write t _ fun t x => u32 (y * t.columns + x)

theorem layout_ttyRenderChar (t : Tty) (ch : UInt8) : (ttyRenderChar t ch).layout = t.layout := by
  have hw (t : Tty) (cell : ℕ) : (t.write cell ch).layout = t.layout := rfl
  have hb (t : Tty) (cell : ℕ) : (t.write cell 0x20).layout = t.layout := rfl
  have hc (t : Tty) (x y : ℕ) : (t.setCursor x y).layout = t.layout := rfl
  have hm (t : Tty) : t.moveCursor.layout = t.layout := rfl
  have hs (t : Tty) : t.scroll.layout = t.layout := rfl
  unfold ttyRenderChar
  simp only [apply_ite Tty.layout, hw, hb, hc, hm, hs, ite_self]

theorem layout_commitParam (t : Tty) : (commitParam t).layout = t.layout := by
  unfold commitParam
  split <;> rfl

theorem layout_ttyCsiDispatch (t : Tty) (command : UInt8) :
    (ttyCsiDispatch t command).layout = t.layout := by
  unfold ttyCsiDispatch
  dsimp only
  split
  · split
    · exact layout_ttyClear t
    · rfl
  split
  · rfl
  split
  · split
    · exact layout_foldl_write t _ fun t x => u32 (t.cursorY * t.columns + x)
    · rfl
  split
  · rfl
  split
  · rfl
  · rfl

theorem layout_ttyRender (t : Tty) (ch : UInt8) : (ttyRender t ch).layout = t.layout := by
  unfold ttyRender
  split
  · split
    · rfl
    · exact layout_ttyRenderChar t ch
  · split <;> rfl
  · split
    · rfl
    · split
      · exact layout_commitParam t
      · exact (layout_ttyCsiDispatch _ ch).trans (layout_commitParam t)

theorem layout_ttyPuts (t : Tty) (str : List UInt8) : (ttyPuts t str).layout = t.layout := by
  have hflush (n : ℕ) (t : Tty) : (ttyFlushLoop n t).layout = t.layout := by
    induction n generalizing t with
    | zero => rfl
    | succ n ih =>
      unfold ttyFlushLoop
      split
      · rfl
      · exact (ih _).trans (layout_ttyRender _ _)
  unfold ttyPuts
  induction str generalizing t with
  | nil => rfl
  | cons ch str ih =>
    rw [List.foldl_cons, ih]
    exact hflush _ _

theorem layout_ttyKeyboardListener (interruptible : Bool) (m : Modifiers) (t : Tty)
    (event : KeyboardEvent) :
    (ttyKeyboardListener interruptible m t event).2.1.layout = t.layout := by
  unfold ttyKeyboardListener
  split
  · cases interruptible with
    | true => exact layout_ttyPuts t _
    | false => rfl
  · rfl

theorem layout_ttyGetchar (t : Tty) : (ttyGetchar t).2.layout = t.layout := by
  unfold ttyGetchar
  split <;> rfl

theorem layout_syscallReadLoop (n i : ℕ) (t : Tty) :
    (syscallReadLoop n i t).2.2.layout = t.layout := by
  induction n generalizing i t with
  | zero => rfl
  | succ n ih =>
    by_cases h : charValue (ttyGetchar t).1 ≤ 0
    · rw [syscallReadLoop_neg h]
      exact layout_ttyGetchar t
    · rw [syscallReadLoop_pos (not_le.1 h)]
      exact (ih _ _).trans (layout_ttyGetchar t)

/-! ## The text of the keys -/

/-- The modifiers after some key events. -/
def modifiersAfter (m : Modifiers) (events : List KeyboardEvent) : Modifiers :=
  events.foldl (fun m event => (ttyDecode m event).1) m

/-- The bytes key events stand for on the terminal's layout. -/
def typedText (t : Tty) : Modifiers → List KeyboardEvent → List UInt8
  | _, [] => []
  | m, event :: events =>
    ttyKeyInput t (ttyDecode m event).2 ++ typedText t (ttyDecode m event).1 events

theorem typedText_append (t : Tty) (m : Modifiers) (events events' : List KeyboardEvent) :
    typedText t m (events ++ events') =
      typedText t m events ++ typedText t (modifiersAfter m events) events' := by
  induction events generalizing m with
  | nil => rfl
  | cons event events ih => rw [List.cons_append, typedText, ih, typedText, List.append_assoc]; rfl

theorem ttyKeyInput_congr {t t' : Tty} (h : t.layout = t'.layout) (action : KeyAction) :
    ttyKeyInput t action = ttyKeyInput t' action := by
  cases action with
  | key keycode shifted =>
    have hch : ttyKeycodeToChar t keycode shifted = ttyKeycodeToChar t' keycode shifted := by
      unfold ttyKeycodeToChar
      rw [h]
    show (if ttyKeycodeToChar t keycode shifted ≠ 0 then [ttyKeycodeToChar t keycode shifted]
      else []) = _
    rw [hch]
    rfl
  | _ => rfl

theorem typedText_congr {t t' : Tty} (h : t.layout = t'.layout) (m : Modifiers)
    (events : List KeyboardEvent) : typedText t m events = typedText t' m events := by
  induction events generalizing m with
  | nil => rfl
  | cons event events ih => rw [typedText, typedText, ih, ttyKeyInput_congr h]

theorem layout_stdin_exec (s : StdinState) (op : StdinOp) :
    (s.exec op).tty.layout = s.tty.layout := by
  cases op with
  | key interruptible event => exact layout_ttyKeyboardListener _ _ _ _
  | read size => exact layout_syscallReadLoop _ _ _

/-! ## The system -/

/-- The controller with the signals sent, and standard input. -/
structure TypingState where
  controller : Ps2Controller
  sent : List Ps2Signal
  stdin : StdinState

/-- A key is pressed or released, the keyboard interrupts, or a process reads. -/
inductive TypingStep where
  | key (signal : Ps2Signal)
  | interrupt (interruptible : Bool)
  | read (size : ℕ)

namespace TypingState

variable (s : TypingState)

def exec : TypingStep → TypingState
  | .key signal =>
    { s with
      controller := ⟨s.controller.waiting ++ signal.bytes, s.controller.last⟩
      sent := s.sent ++ [signal] }
  | .interrupt interruptible =>
    let (event, controller) := ps2KeyboardInterruptHandler s.controller
    { s with
      controller := controller
      stdin := event.elim s.stdin fun event => s.stdin.exec (.key interruptible event) }
  | .read size => { s with stdin := s.stdin.exec (.read size) }

/-- The buffer has room for the key the handler takes, and reads meet ASCII bytes only. -/
def Served : TypingStep → Prop
  | .key _ => True
  | .interrupt interruptible => ∀ event ∈ (ps2KeyboardInterruptHandler s.controller).1,
    Fits s.stdin (.key interruptible event)
  | .read size => ReadsAscii s.stdin (.read size)

instance : (op : TypingStep) → Decidable (s.Served op)
  | .key _ => .isTrue trivial
  | .interrupt interruptible =>
    inferInstanceAs (Decidable (∀ event ∈ (ps2KeyboardInterruptHandler s.controller).1,
      Fits s.stdin (.key interruptible event)))
  | .read size => inferInstanceAs (Decidable (ReadsAscii s.stdin (.read size)))

/-- What was typed. -/
def typed : List UInt8 := typedText s.stdin.tty ⟨false, false⟩ (s.sent.map Ps2Signal.event)

/-- The keys seen are in the buffer or read, the others wait. -/
structure Pending (seen unseen : List Ps2Signal) : Prop where
  sent : s.sent = seen ++ unseen
  waiting : s.controller.waiting = unseen.flatMap Ps2Signal.bytes
  modifiers : s.stdin.modifiers = modifiersAfter ⟨false, false⟩ (seen.map Ps2Signal.event)
  enqueued : s.stdin.enqueued = typedText s.stdin.tty ⟨false, false⟩ (seen.map Ps2Signal.event)
  stdin : StdinInv s.stdin

end TypingState

/-- Keys, keyboard interrupts and reads in any order; no key is held and nothing is pending at the
start. -/
def typingSystem : TransitionSystem TypingState TypingStep where
  init s := s.controller.waiting = [] ∧ s.sent = [] ∧ s.stdin.modifiers = ⟨false, false⟩ ∧
    s.stdin.tty.input.contents = [] ∧ s.stdin.enqueued = [] ∧ s.stdin.delivered = []
  step s op s' := s.Served op ∧ s' = s.exec op

variable {s : TypingState} {seen unseen : List Ps2Signal}

theorem modifiers_stdin_exec (s : StdinState) (interruptible : Bool) (event : KeyboardEvent) :
    (s.exec (.key interruptible event)).modifiers = (ttyDecode s.modifiers event).1 := by
  show (ttyKeyboardListener interruptible s.modifiers s.tty event).1 = _
  unfold ttyKeyboardListener
  split
  · rename_i m hd
    rw [hd]
    cases interruptible <;> rfl
  · rename_i m action _ hd
    rw [hd]

/-- The handler takes the next key. -/
theorem TypingState.Pending.interrupt {signal : Ps2Signal} (hs : s.Pending seen (signal :: unseen))
    (interruptible : Bool) (hc : s.Served (.interrupt interruptible)) :
    (s.exec (.interrupt interruptible)).Pending (seen ++ [signal]) unseen := by
  obtain ⟨⟨waiting, last⟩, sent, stdin⟩ := s
  obtain ⟨h1, rfl, h3, h4, h5⟩ := hs
  obtain ⟨he, hw⟩ := ps2_decode signal last (unseen.flatMap Ps2Signal.bytes)
  have hfits : Fits stdin (.key interruptible signal.event) := hc _ he
  have hexec : (TypingState.exec ⟨⟨(signal :: unseen).flatMap Ps2Signal.bytes, last⟩, sent, stdin⟩
      (.interrupt interruptible)).stdin = stdin.exec (.key interruptible signal.event) := by
    show (ps2KeyboardInterruptHandler ⟨signal.bytes ++ unseen.flatMap Ps2Signal.bytes, last⟩).1.elim
      stdin (fun event => stdin.exec (.key interruptible event)) = _
    rw [he]
    rfl
  refine ⟨?_, hw, ?_, ?_, ?_⟩
  · show sent = _
    rw [List.append_assoc]
    exact h1
  · rw [hexec, modifiers_stdin_exec, List.map_append]
    have h3' : stdin.modifiers = modifiersAfter ⟨false, false⟩ (seen.map Ps2Signal.event) := h3
    rw [h3', modifiersAfter, modifiersAfter, List.foldl_append]
    rfl
  · rw [hexec, typedText_congr (layout_stdin_exec _ _), List.map_append, typedText_append, ← h3, ← h4]
    show stdin.enqueued ++ _ = stdin.enqueued ++ (_ ++ [])
    rw [List.append_nil]
    rfl
  · rw [hexec]
    exact StdinInv.exec h5 hfits trivial

theorem TypingState.Pending.key (hs : s.Pending seen unseen) (signal : Ps2Signal) :
    (s.exec (.key signal)).Pending seen (unseen ++ [signal]) := by
  obtain ⟨h1, h2, h3, h4, h5⟩ := hs
  refine ⟨?_, ?_, h3, h4, h5⟩
  · show s.sent ++ [signal] = _
    rw [h1, List.append_assoc]
  · show s.controller.waiting ++ signal.bytes = _
    rw [h2, List.flatMap_append, List.flatMap_singleton]

theorem TypingState.Pending.read (hs : s.Pending seen unseen) {size : ℕ}
    (hc : s.Served (.read size)) : (s.exec (.read size)).Pending seen unseen := by
  obtain ⟨h1, h2, h3, h4, h5⟩ := hs
  refine ⟨h1, h2, h3, ?_, StdinInv.exec h5 trivial hc⟩
  show s.stdin.enqueued = typedText (s.stdin.exec (.read size)).tty _ _
  rw [typedText_congr (layout_stdin_exec _ _), h4]

/-- An interrupt with no byte waiting does nothing. -/
theorem TypingState.Pending.idle (hs : s.Pending seen []) (interruptible : Bool) :
    (s.exec (.interrupt interruptible)).Pending seen [] := by
  obtain ⟨⟨waiting, last⟩, sent, stdin⟩ := s
  obtain ⟨h1, rfl, h3, h4, h5⟩ := hs
  exact ⟨h1, rfl, h3, h4, h5⟩

theorem typing_pending (h : typingSystem.Reachable s) : ∃ seen unseen, s.Pending seen unseen := by
  refine h.invariant (P := fun s => ∃ seen unseen, s.Pending seen unseen) ?_ ?_
  · rintro s ⟨h1, h2, h3, h4, h5, h6⟩
    refine ⟨[], [], h2, h1, h3, h5, ?_⟩
    rw [StdinInv, h4, h5, h6]
    rfl
  · rintro s op _ - ⟨seen, unseen, hs⟩ ⟨hc, rfl⟩
    cases op with
    | key signal => exact ⟨_, _, hs.key signal⟩
    | interrupt interruptible =>
      cases unseen with
      | nil => exact ⟨_, _, hs.idle interruptible⟩
      | cons signal unseen => exact ⟨_, _, hs.interrupt interruptible hc⟩
    | read size => exact ⟨_, _, hs.read hc⟩

/-- **From the keys to the process**: the bytes read are a prefix of the text typed, and all of it
once no byte waits in the controller or in the buffer. -/
theorem typing_delivered (h : typingSystem.Reachable s) :
    s.stdin.delivered <+: s.typed ∧
      (s.controller.waiting = [] → s.stdin.tty.input.contents = [] →
        s.stdin.delivered = s.typed) := by
  obtain ⟨seen, unseen, hs⟩ := typing_pending h
  have htyped : s.typed = s.stdin.delivered ++ (s.stdin.tty.input.contents ++
      typedText s.stdin.tty (modifiersAfter ⟨false, false⟩ (seen.map Ps2Signal.event))
        (unseen.map Ps2Signal.event)) := by
    rw [TypingState.typed, hs.sent, List.map_append, typedText_append, ← hs.enqueued, hs.stdin,
      List.append_assoc]
  refine ⟨⟨_, htyped.symm⟩, ?_⟩
  intro hw hc
  rw [htyped, hc, flatMap_bytes_eq_nil (hs.waiting.symm.trans hw)]
  exact (List.append_nil _).symm

theorem typing_step {s : TypingState} (h : typingSystem.Reachable s) (op : TypingStep)
    (hc : s.Served op) : typingSystem.Reachable (s.exec op) := h.step ⟨hc, rfl⟩

/-- Shift and A pressed, two interrupts, and a read. -/
theorem typing_delivered_shift :
    let s := (((((TypingState.mk ⟨[], 0⟩ [] germanStdin).exec
      (.key (.standard 0x2A (by decide) true))).exec (.key (.standard 0x1E (by decide) true))).exec
      (.interrupt false)).exec (.interrupt false)).exec (.read 4)
    s.stdin.delivered = [0x41] ∧ s.stdin.delivered <+: s.typed := by
  have h0 : typingSystem.Reachable ⟨⟨[], 0⟩, [], germanStdin⟩ :=
    .init ⟨rfl, rfl, rfl, by decide, rfl, rfl⟩
  have h1 := typing_step h0 (.key (.standard 0x2A (by decide) true)) trivial
  have h2 := typing_step h1 (.key (.standard 0x1E (by decide) true)) trivial
  have h3 := typing_step h2 (.interrupt false) (by decide +kernel)
  have h4 := typing_step h3 (.interrupt false) (by decide +kernel)
  have h5 := typing_step h4 (.read 4) (by decide +kernel)
  exact ⟨by decide +kernel, (typing_delivered h5).1⟩

end Ttos
