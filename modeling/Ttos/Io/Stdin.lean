/-
  Standard input: key events against read syscalls on file descriptor 0.

  Interrupts are disabled during a syscall, so key events and reads alternate
  as whole steps; every interleaving of them is a run of `stdinSystem`.

  * `stdin_loses_nothing`: while the reads meet ASCII bytes only, what they
    deliver is a prefix of what was enqueued, and all of it once the buffer is
    drained;
  * `stdin_loses`: after one key with a byte from `0x80` on and one read, that
    byte is gone.
-/
import Ttos.Io.Tty
import Ttos.Lib.Run

namespace Ttos

/-! ## The read syscall -/

/-- The loop of `syscall_read` on fd 0 with `n` of `size` bytes to go and the
    loop variable at `i`: the return value, the bytes stored from `buffer[i]`
    on, and the terminal. -/
def syscallReadLoop : (n i : ℕ) → Tty → ℕ × List UInt8 × Tty
  | 0, i, t => (i, [], t)
  | n + 1, i, t =>
    let (ch, t) := ttyGetchar t
    -- the byte is out of the ring buffer when its sign is looked at
    if charValue ch ≤ 0 then (i, [], t)
    else
      let (ret, buffer, t) := syscallReadLoop n (i + 1) t
      (ret, ch :: buffer, t)

/-- `syscall_read` on fd 0. -/
def syscallReadIn (t : Tty) (size : ℕ) : ℕ × List UInt8 × Tty := syscallReadLoop size 0 t

/-- A byte whose `char` is positive. -/
def Ascii (ch : UInt8) : Prop := 0 < ch.toNat ∧ ch.toNat < 128

instance (ch : UInt8) : Decidable (Ascii ch) := inferInstanceAs (Decidable (_ ∧ _))

theorem charValue_pos (ch : UInt8) : 0 < charValue ch ↔ Ascii ch := by
  have := ch.toNat_lt
  unfold charValue Ascii
  split <;> omega

theorem ttyGetchar_nil {t : Tty} (h : t.input.contents = []) : ttyGetchar t = (0xFF, t) := by
  obtain ⟨hd, -⟩ := CircularBuffer.contents_dequeue t.input
  rw [h, List.head?_nil] at hd
  unfold ttyGetchar
  split
  · rfl
  · rename_i heq; rw [heq] at hd; cases hd

theorem ttyGetchar_cons {t : Tty} {ch : UInt8} {chs : List UInt8}
    (h : t.input.contents = ch :: chs) :
    (ttyGetchar t).1 = ch ∧ (ttyGetchar t).2.input.contents = chs ∧
      (ttyGetchar t).2.input.capacity = t.input.capacity := by
  obtain ⟨hd, hc⟩ := CircularBuffer.contents_dequeue t.input
  have hcap := CircularBuffer.capacity_dequeue t.input
  rw [h, List.head?_cons] at hd
  rw [h, List.tail_cons] at hc
  unfold ttyGetchar
  split
  · rename_i heq; rw [heq] at hd; cases hd
  · rename_i ch' input heq
    rw [heq] at hd hc hcap
    exact ⟨Option.some.inj hd, hc, hcap⟩

theorem syscallReadLoop_pos {n i : ℕ} {t : Tty} (h : 0 < charValue (ttyGetchar t).1) :
    syscallReadLoop (n + 1) i t =
      ((syscallReadLoop n (i + 1) (ttyGetchar t).2).1,
        (ttyGetchar t).1 :: (syscallReadLoop n (i + 1) (ttyGetchar t).2).2.1,
        (syscallReadLoop n (i + 1) (ttyGetchar t).2).2.2) := by
  rw [syscallReadLoop]
  exact if_neg (not_le.2 h)

theorem syscallReadLoop_neg {n i : ℕ} {t : Tty} (h : charValue (ttyGetchar t).1 ≤ 0) :
    syscallReadLoop (n + 1) i t = (i, [], (ttyGetchar t).2) := by
  rw [syscallReadLoop]
  exact if_pos h

/-- What the loop does to a buffer whose first `n` bytes are ASCII: it delivers
    them and leaves the rest. -/
theorem syscallReadLoop_ascii {n i : ℕ} {t : Tty}
    (h : ∀ ch ∈ t.input.contents.take n, Ascii ch) :
    (syscallReadLoop n i t).1 = i + (syscallReadLoop n i t).2.1.length ∧
      (syscallReadLoop n i t).2.1 = t.input.contents.take n ∧
      (syscallReadLoop n i t).2.2.input.contents = t.input.contents.drop n := by
  induction n generalizing i t with
  | zero => exact ⟨rfl, by simp [syscallReadLoop], by simp [syscallReadLoop]⟩
  | succ n ih =>
    cases hc : t.input.contents with
    | nil =>
      have hn : charValue (ttyGetchar t).1 ≤ 0 := by
        rw [ttyGetchar_nil hc]
        exact of_decide_eq_true rfl
      rw [syscallReadLoop_neg hn, ttyGetchar_nil hc, List.take_nil, List.drop_nil]
      exact ⟨rfl, rfl, hc⟩
    | cons ch chs =>
      obtain ⟨h1, h2, -⟩ := ttyGetchar_cons hc
      rw [hc, List.take_succ_cons] at h
      have hp : 0 < charValue (ttyGetchar t).1 := by
        rw [h1]
        exact (charValue_pos ch).2 (h ch List.mem_cons_self)
      have hrest : ∀ c ∈ (ttyGetchar t).2.input.contents.take n, Ascii c := by
        rw [h2]
        exact fun c hm => h c (List.mem_cons_of_mem _ hm)
      obtain ⟨e1, e2, e3⟩ := ih (i := i + 1) hrest
      rw [syscallReadLoop_pos hp]
      refine ⟨?_, ?_, ?_⟩
      · rw [e1, List.length_cons]; omega
      · rw [e2, h2, h1, List.take_succ_cons]
      · rw [e3, h2, List.drop_succ_cons]

/-- A byte among the first `n` that is not ASCII is taken out and not delivered. -/
theorem syscallReadLoop_lt {n i : ℕ} {t : Tty} (h : ∃ ch ∈ t.input.contents.take n, ¬ Ascii ch) :
    (syscallReadLoop n i t).2.1.length + (syscallReadLoop n i t).2.2.input.contents.length <
      t.input.contents.length := by
  induction n generalizing i t with
  | zero => simp at h
  | succ n ih =>
    obtain ⟨c, hm, hbad⟩ := h
    cases hc : t.input.contents with
    | nil => rw [hc] at hm; cases hm
    | cons ch chs =>
      obtain ⟨h1, h2, -⟩ := ttyGetchar_cons hc
      by_cases hp : 0 < charValue (ttyGetchar t).1
      · have hm' : c ∈ chs.take n := by
          rw [hc, List.take_succ_cons, List.mem_cons] at hm
          rcases hm with rfl | hm
          · exact absurd ((charValue_pos c).1 (h1 ▸ hp)) hbad
          · exact hm
        have := ih (i := i + 1) ⟨c, by rw [h2]; exact hm', hbad⟩
        rw [syscallReadLoop_pos hp]
        rw [h2] at this
        simp only [List.length_cons]
        omega
      · rw [syscallReadLoop_neg (not_lt.1 hp), h2]
        simp

/-! ## Key events -/

theorem contents_enqueueAll (b : CircularBuffer UInt8) (chs : List UInt8)
    (h : b.contents.length + chs.length ≤ b.capacity) :
    (chs.foldl circularBufferEnqueue b).contents = b.contents ++ chs ∧
      (chs.foldl circularBufferEnqueue b).capacity = b.capacity := by
  have hall := b.contents_foldl_enqueue chs
  rwa [Nat.sub_eq_zero_of_le h, List.drop_zero] at hall

/-- A key event appends its bytes, as far as they fit. -/
theorem input_ttyKeyboardListener (interruptible : Bool) {m : Modifiers} {t : Tty}
    {event : KeyboardEvent}
    (h : t.input.contents.length + (ttyKeyInput t (ttyDecode m event).2).length ≤
      t.input.capacity) :
    (ttyKeyboardListener interruptible m t event).2.1.input.contents =
        t.input.contents ++ ttyKeyInput t (ttyDecode m event).2 ∧
      (ttyKeyboardListener interruptible m t event).2.1.input.capacity = t.input.capacity := by
  unfold ttyKeyboardListener
  split
  · rename_i m' hd
    rw [hd]
    cases interruptible with
    | true => simp [ttyKeyInput, input_ttyPuts]
    | false => simp [ttyKeyInput]
  · rename_i m' action _ hd
    rw [hd] at h ⊢
    exact contents_enqueueAll t.input _ h

/-! ## The system -/

/-- The terminal and the listener's modifiers, with the bytes enqueued and the
    bytes delivered so far. -/
structure StdinState where
  modifiers : Modifiers
  tty : Tty
  enqueued : List UInt8
  delivered : List UInt8

/-- A key event, or a read of `size` bytes on fd 0. -/
inductive StdinOp where
  | key (interruptible : Bool) (event : KeyboardEvent)
  | read (size : ℕ)

/-- The bytes a key event puts into the input buffer. -/
def StdinState.keyInput (s : StdinState) (event : KeyboardEvent) : List UInt8 :=
  ttyKeyInput s.tty (ttyDecode s.modifiers event).2

def StdinState.exec (s : StdinState) : StdinOp → StdinState
  | .key interruptible event =>
    let (m, t, _) := ttyKeyboardListener interruptible s.modifiers s.tty event
    ⟨m, t, s.enqueued ++ s.keyInput event, s.delivered⟩
  | .read size =>
    let (ret, buffer, t) := syscallReadIn s.tty size
    ⟨s.modifiers, t, s.enqueued, s.delivered ++ buffer.take ret⟩

/-- The buffer is never asked to hold more than its capacity. -/
def Fits (s : StdinState) : StdinOp → Prop
  | .key _ event =>
    s.tty.input.contents.length + (s.keyInput event).length ≤ s.tty.input.capacity
  | .read _ => True

/-- The steps under a further condition `C`; nothing is pending at the start. -/
def stdinSystem (C : StdinState → StdinOp → Prop) : TransitionSystem StdinState StdinOp where
  init s := s.tty.input.contents = [] ∧ s.tty.input.capacity = ttyBufferSize ∧
    s.enqueued = [] ∧ s.delivered = []
  step s op s' := Fits s op ∧ C s op ∧ s' = s.exec op

/-- What is delivered is a prefix of what was enqueued, and all of it once the
    buffer is drained. -/
def NothingLost (s : StdinState) : Prop :=
  s.delivered <+: s.enqueued ∧ (s.tty.input.contents = [] → s.delivered = s.enqueued)

/-- The bytes a read takes are ASCII. -/
def ReadsAscii (s : StdinState) : StdinOp → Prop
  | .key _ _ => True
  | .read size => ∀ ch ∈ s.tty.input.contents.take size, Ascii ch

instance (s : StdinState) : (op : StdinOp) → Decidable (Fits s op)
  | .key _ _ => inferInstanceAs (Decidable (_ ≤ _))
  | .read _ => .isTrue trivial

instance (s : StdinState) : (op : StdinOp) → Decidable (ReadsAscii s op)
  | .key _ _ => .isTrue trivial
  | .read _ => inferInstanceAs (Decidable (∀ ch ∈ _, Ascii ch))

/-- The invariant: what was enqueued is what was delivered and what is pending. -/
def StdinInv (s : StdinState) : Prop := s.enqueued = s.delivered ++ s.tty.input.contents

theorem StdinInv.exec {s : StdinState} {op : StdinOp} (hi : StdinInv s) (hf : Fits s op)
    (hc : ReadsAscii s op) : StdinInv (s.exec op) := by
  cases op with
  | key interruptible event =>
    have h := (input_ttyKeyboardListener interruptible hf).1
    show s.enqueued ++ s.keyInput event =
      s.delivered ++ (ttyKeyboardListener interruptible s.modifiers s.tty event).2.1.input.contents
    rw [h, hi, List.append_assoc]
    rfl
  | read size =>
    obtain ⟨h1, h2, h3⟩ := syscallReadLoop_ascii (i := 0) hc
    show s.enqueued = s.delivered ++
      (syscallReadLoop size 0 s.tty).2.1.take (syscallReadLoop size 0 s.tty).1 ++
      (syscallReadLoop size 0 s.tty).2.2.input.contents
    rw [h1, zero_add, List.take_length, h2, h3, List.append_assoc, List.take_append_drop, hi]

/-- The condition is exact: a read keeps the invariant if and only if the bytes
    it takes are ASCII. -/
theorem StdinInv.read_iff {s : StdinState} {size : ℕ} (hi : StdinInv s) :
    StdinInv (s.exec (.read size)) ↔ ReadsAscii s (.read size) := by
  refine ⟨fun h => ?_, hi.exec trivial⟩
  by_contra hbad
  simp only [ReadsAscii, not_forall] at hbad
  obtain ⟨ch, hm, hb⟩ := hbad
  have hlt := syscallReadLoop_lt (i := 0) ⟨ch, hm, hb⟩
  have hle := List.length_take_le (syscallReadLoop size 0 s.tty).1
    (syscallReadLoop size 0 s.tty).2.1
  have e : s.delivered ++ s.tty.input.contents = s.delivered ++
      (syscallReadLoop size 0 s.tty).2.1.take (syscallReadLoop size 0 s.tty).1 ++
      (syscallReadLoop size 0 s.tty).2.2.input.contents := hi.symm.trans h
  have e' := congrArg List.length e
  simp only [List.length_append, List.length_take] at e' hle
  omega

/-- **Reads that meet ASCII bytes only lose nothing.** -/
theorem stdin_loses_nothing {s : StdinState} (h : (stdinSystem ReadsAscii).Reachable s) :
    NothingLost s := by
  have hi : StdinInv s := by
    refine h.invariant ?_ ?_
    · rintro s ⟨h1, -, h2, h3⟩
      rw [StdinInv, h1, h2, h3]
      rfl
    · rintro s op _ - hi ⟨hf, hc, rfl⟩
      exact hi.exec hf hc
  refine ⟨⟨_, hi.symm⟩, fun hn => ?_⟩
  rw [StdinInv, hn, List.append_nil] at hi
  exact hi.symm

/-! ## A run that loses a byte -/

/-- The terminal as `tty_create` leaves it, on the German layout. -/
def germanStdin : StdinState where
  modifiers := ⟨false, false⟩
  tty := ttyCreate ⟨80, 25⟩ (fun _ => ⟨0, 0⟩) 0 ttyKeyboardLayoutDeDE (fun _ => 0) fun _ => 0
  enqueued := []
  delivered := []

/-- Pressing the key of a latin character. -/
def pressLatin (value : ℕ) : StdinOp := .key false ⟨keyboardKeycode 1 value, true⟩

theorem stdin_step {C : StdinState → StdinOp → Prop} {s : StdinState}
    (h : (stdinSystem C).Reachable s) (op : StdinOp) (hf : Fits s op) (hc : C s op) :
    (stdinSystem C).Reachable (s.exec op) := h.step ⟨hf, hc, rfl⟩

theorem stdin_loses_nothing_ascii :
    let s := (germanStdin.exec (pressLatin 0)).exec (.read 1)
    NothingLost s ∧ s.delivered = [0x61] := by
  have h0 : (stdinSystem ReadsAscii).Reachable germanStdin :=
    .init ⟨by decide, rfl, rfl, rfl⟩
  have h1 := stdin_step h0 (pressLatin 0) (by decide +kernel) trivial
  have h2 := stdin_step h1 (.read 1) trivial (by decide +kernel)
  exact ⟨stdin_loses_nothing h2, by decide⟩

/-- **A byte from `0x80` on is taken out of the buffer and lost**: of `ß` and `a`
    the two reads deliver `a`. -/
theorem stdin_loses : ¬ ∀ s, (stdinSystem fun _ _ => True).Reachable s → NothingLost s := by
  intro h
  have h0 : (stdinSystem fun _ _ => True).Reachable germanStdin :=
    .init ⟨by decide, rfl, rfl, rfl⟩
  have h1 := stdin_step h0 (pressLatin 37) (by decide) trivial
  have h2 := stdin_step h1 (pressLatin 0) (by decide) trivial
  have h3 := stdin_step h2 (.read 1) trivial trivial
  have h4 := stdin_step h3 (.read 1) trivial trivial
  have hp := (h _ h4).1
  revert hp
  decide

end Ttos
