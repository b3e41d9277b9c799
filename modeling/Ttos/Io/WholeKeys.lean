/-
  Key presses against single-byte reads of the terminal's input buffer.

  An arrow key puts three bytes into the ring buffer, and a full buffer drops
  one of its oldest bytes for each of them.

  * The system adds to the terminal which keys were pressed, which of them are
    not yet read, and how much of the first of these is.
  * `WholeKeys`: the bytes read are those of whole keys, the last one perhaps
    begun only.
  * `whole_keys`: so it is while only whole keys are dropped (`DropsWhole`).
-/
import Ttos.Io.Stdin

namespace Ttos

/-! ## Keys as bytes -/

/-- The first `d` bytes of the keys are those of some whole keys. -/
def WholeBytes : ℕ → List (List UInt8) → Prop
  | 0, _ => True
  | _ + 1, [] => False
  | d + 1, key :: keys => key.length ≤ d + 1 ∧ WholeBytes (d + 1 - key.length) keys

/-- The keys without the first ones, of `d` bytes. -/
def dropKeys : ℕ → List (List UInt8) → List (List UInt8)
  | 0, keys => keys
  | _ + 1, [] => []
  | d + 1, key :: keys => dropKeys (d + 1 - key.length) keys

instance decidableWholeBytes : (d : ℕ) → (keys : List (List UInt8)) → Decidable (WholeBytes d keys)
  | 0, _ => isTrue (by simp [WholeBytes])
  | _ + 1, [] => isFalse not_false
  | d + 1, key :: keys =>
    have := decidableWholeBytes (d + 1 - key.length) keys
    inferInstanceAs (Decidable (key.length ≤ d + 1 ∧ WholeBytes (d + 1 - key.length) keys))

@[simp] theorem dropKeys_zero (keys : List (List UInt8)) : dropKeys 0 keys = keys := by
  cases keys <;> rfl

theorem dropKeys_sublist (d : ℕ) (keys : List (List UInt8)) : (dropKeys d keys).Sublist keys := by
  induction keys generalizing d with
  | nil => cases d <;> exact List.Sublist.refl _
  | cons key keys ih =>
    cases d with
    | zero => exact List.Sublist.refl _
    | succ d => exact (ih _).trans (List.sublist_cons_self key keys)

/-- Dropping the bytes of whole keys. -/
theorem flatten_dropKeys {d : ℕ} {keys : List (List UInt8)} (h : WholeBytes d keys) :
    (dropKeys d keys).flatten = keys.flatten.drop d ∧ d ≤ keys.flatten.length := by
  induction keys generalizing d with
  | nil =>
    cases d with
    | zero => exact ⟨rfl, Nat.zero_le _⟩
    | succ d => exact absurd h not_false
  | cons key keys ih =>
    cases d with
    | zero => exact ⟨rfl, Nat.zero_le _⟩
    | succ d =>
      obtain ⟨hle, hrest⟩ := h
      obtain ⟨hdrop, hlen⟩ := ih hrest
      rw [List.flatten_cons, List.length_append]
      refine ⟨?_, by omega⟩
      rw [dropKeys, hdrop, List.drop_append, List.drop_of_length_le hle, List.nil_append]

/-! ## The system -/

/-- The terminal and the listener's modifiers; the keys pressed, those of which bytes are still
unread, how many bytes of the first of these are read, and all bytes read. -/
structure KeyState where
  modifiers : Modifiers
  tty : Tty
  pressed : List (List UInt8)
  unread : List (List UInt8)
  begun : ℕ
  read : List UInt8

/-- A key event, or a read of one byte. -/
inductive KeyOp where
  | key (interruptible : Bool) (event : KeyboardEvent)
  | read

namespace KeyState

variable (s : KeyState)

/-- The bytes of the key of an event. -/
def encoding (event : KeyboardEvent) : List UInt8 :=
  ttyKeyInput s.tty (ttyDecode s.modifiers event).2

/-- How many bytes the event pushes out of the buffer. -/
def excess (event : KeyboardEvent) : ℕ :=
  s.tty.input.contents.length + (s.encoding event).length - s.tty.input.capacity

/-- The key of an event, if it has one. -/
def key (event : KeyboardEvent) : List (List UInt8) :=
  if s.encoding event = [] then [] else [s.encoding event]

def exec : KeyOp → KeyState
  | .key interruptible event =>
    let (m, t, _) := ttyKeyboardListener interruptible s.modifiers s.tty event
    ⟨m, t, s.pressed ++ s.key event, dropKeys (s.excess event) s.unread ++ s.key event, s.begun,
      s.read⟩
  | .read =>
    let (ch, t) := ttyGetchar s.tty
    -- an empty buffer has no byte to read
    if s.tty.input.contents = [] then { s with tty := t }
    else if s.begun + 1 = (s.unread.headD []).length then
      { s with tty := t, unread := s.unread.tail, begun := 0, read := s.read ++ [ch] }
    else { s with tty := t, begun := s.begun + 1, read := s.read ++ [ch] }

end KeyState

/-- An event pushes whole keys out of the buffer, none of which was begun. -/
def DropsWhole (s : KeyState) : KeyOp → Prop
  | .key _ event => s.excess event = 0 ∨ (s.begun = 0 ∧ WholeBytes (s.excess event) s.unread)
  | .read => True

instance (s : KeyState) : (op : KeyOp) → Decidable (DropsWhole s op)
  | .key _ _ => inferInstanceAs (Decidable (_ ∨ _))
  | .read => isTrue trivial

/-- The steps under a further condition `C`; nothing is pending at the start. -/
def keySystem (C : KeyState → KeyOp → Prop) : TransitionSystem KeyState KeyOp where
  init s := s.tty.input.contents = [] ∧ s.tty.input.capacity = ttyBufferSize ∧
    s.pressed = [] ∧ s.unread = [] ∧ s.begun = 0 ∧ s.read = []
  step s op s' := C s op ∧ s' = s.exec op

/-- **The bytes read are the bytes of whole keys**, in the order they were pressed and some
left out; of the last one they may be the first only. -/
def WholeKeys (s : KeyState) : Prop :=
  ∃ kept : List (List UInt8), kept.Sublist s.pressed ∧ s.read <+: kept.flatten

/-- The bytes in the buffer are those of the unread keys. -/
structure KeysInv (s : KeyState) : Prop where
  contents : s.tty.input.contents = s.unread.flatten.drop s.begun
  begun : s.begun = 0 ∨ s.begun < (s.unread.headD []).length
  nonempty : ∀ key ∈ s.unread, key ≠ []
  read : ∃ done, s.read = done.flatten ++ s.unread.flatten.take s.begun ∧
    (done ++ s.unread).Sublist s.pressed

theorem KeysInv.wholeKeys {s : KeyState} (h : KeysInv s) : WholeKeys s := by
  obtain ⟨done, hread, hsub⟩ := h.read
  refine ⟨done ++ s.unread, hsub, ?_⟩
  rw [hread, List.flatten_append]
  exact (List.prefix_append_right_inj _).2 (List.take_prefix _ _)

/-- What an event leaves in the buffer. -/
theorem input_key (interruptible : Bool) (s : KeyState) (event : KeyboardEvent) :
    (s.exec (.key interruptible event)).tty.input.contents =
        (s.tty.input.contents ++ s.encoding event).drop (s.excess event) ∧
      (s.exec (.key interruptible event)).tty.input.capacity = s.tty.input.capacity := by
  have hsame : (s.exec (.key interruptible event)).tty.input =
      (s.encoding event).foldl circularBufferEnqueue s.tty.input := by
    show (ttyKeyboardListener interruptible s.modifiers s.tty event).2.1.input =
      (ttyKeyInput s.tty (ttyDecode s.modifiers event).2).foldl _ _
    unfold ttyKeyboardListener
    split
    · rename_i m hd
      rw [hd]
      cases interruptible with
      | true => exact input_ttyPuts _ _
      | false => rfl
    · rename_i m action _ hd
      rw [hd]
  rw [hsame]
  exact s.tty.input.contents_foldl_enqueue (s.encoding event)

theorem flatten_key (s : KeyState) (event : KeyboardEvent) :
    (s.key event).flatten = s.encoding event := by
  unfold KeyState.key
  split
  · rename_i h
    rw [h]
    rfl
  · simp

theorem key_ne_nil (s : KeyState) (event : KeyboardEvent) : ∀ key ∈ s.key event, key ≠ [] := by
  intro key hkey
  unfold KeyState.key at hkey
  split at hkey
  · exact absurd hkey List.not_mem_nil
  · rename_i h
    rwa [List.mem_singleton.1 hkey]

/-- A key event. -/
theorem KeysInv.exec_key {s : KeyState} (h : KeysInv s) (interruptible : Bool)
    (event : KeyboardEvent) (hc : DropsWhole s (.key interruptible event)) :
    KeysInv (s.exec (.key interruptible event)) := by
  obtain ⟨done, hread, hsub⟩ := h.read
  have hbuffer := (input_key interruptible s event).1
  have hnonempty : ∀ key ∈ dropKeys (s.excess event) s.unread ++ s.key event, key ≠ [] := by
    intro key hkey
    rcases List.mem_append.1 hkey with hkey | hkey
    · exact h.nonempty key ((dropKeys_sublist _ _).subset hkey)
    · exact key_ne_nil s event key hkey
  rw [h.contents] at hbuffer
  rcases hc with hfits | ⟨hstart, hwhole⟩
  · -- there is room: everything unread stays
    have hbegun : s.begun ≤ s.unread.flatten.length := by
      rcases h.begun with h0 | hlt
      · omega
      · cases hu : s.unread with
        | nil => rw [hu] at hlt; exact absurd hlt (Nat.not_lt_zero _)
        | cons key keys =>
          rw [hu] at hlt
          rw [List.flatten_cons, List.length_append]
          exact hlt.le.trans (Nat.le_add_right _ _)
    rw [hfits, dropKeys_zero] at hnonempty
    rw [hfits, List.drop_zero] at hbuffer
    have hunread : (s.exec (.key interruptible event)).unread = s.unread ++ s.key event := by
      show dropKeys (s.excess event) s.unread ++ _ = _
      rw [hfits, dropKeys_zero]
    constructor
    · rw [hbuffer, hunread, List.flatten_append, flatten_key]
      exact (List.drop_append_of_le_length hbegun).symm
    · rw [hunread]
      refine h.begun.imp_right fun hlt => ?_
      cases hu : s.unread with
      | nil => rw [hu] at hlt; exact absurd hlt (Nat.not_lt_zero _)
      | cons key keys => rwa [hu] at hlt
    · rwa [hunread]
    · rw [hunread]
      refine ⟨done, ?_, ?_⟩
      · show s.read = done.flatten ++ List.take s.begun (s.unread ++ s.key event).flatten
        rw [List.flatten_append, List.take_append_of_le_length hbegun]
        exact hread
      · rw [← List.append_assoc]
        exact hsub.append (List.Sublist.refl _)
  · -- whole keys go, and no key is begun
    obtain ⟨hdrop, hle⟩ := flatten_dropKeys hwhole
    rw [hstart, List.drop_zero, List.drop_append_of_le_length hle, ← hdrop] at hbuffer
    rw [hstart, List.take_zero, List.append_nil] at hread
    constructor
    · show _ = (dropKeys (s.excess event) s.unread ++ s.key event).flatten.drop s.begun
      rw [hbuffer, hstart, List.drop_zero, List.flatten_append, flatten_key]
    · exact Or.inl hstart
    · exact hnonempty
    · refine ⟨done, ?_, ?_⟩
      · show s.read = done.flatten ++ List.take s.begun _
        rw [hstart, List.take_zero, List.append_nil, hread]
      · show (done ++ (dropKeys (s.excess event) s.unread ++ s.key event)).Sublist _
        rw [← List.append_assoc]
        refine List.Sublist.append ?_ (List.Sublist.refl _)
        exact ((List.Sublist.refl done).append (dropKeys_sublist _ _)).trans hsub

/-- A read from a buffer that is not empty. -/
theorem exec_read_cons {s : KeyState} {ch : UInt8} {chs : List UInt8}
    (hc : s.tty.input.contents = ch :: chs) :
    s.exec .read =
      if s.begun + 1 = (s.unread.headD []).length then
        { s with tty := (ttyGetchar s.tty).2, unread := s.unread.tail, begun := 0,
                 read := s.read ++ [ch] }
      else { s with tty := (ttyGetchar s.tty).2, begun := s.begun + 1, read := s.read ++ [ch] } := by
  have hne : s.tty.input.contents ≠ [] := by
    rw [hc]
    exact List.cons_ne_nil _ _
  rw [← (ttyGetchar_cons hc).1]
  exact if_neg hne

/-- A read of a byte. -/
theorem KeysInv.exec_read {s : KeyState} (h : KeysInv s) : KeysInv (s.exec .read) := by
  obtain ⟨done, hread, hsub⟩ := h.read
  cases hc : s.tty.input.contents with
  | nil =>
    have hsame : s.exec .read = s := by
      simp only [KeyState.exec, hc, if_true, ttyGetchar_nil hc]
    rwa [hsame]
  | cons ch chs =>
    obtain ⟨-, hchs, -⟩ := ttyGetchar_cons hc
    have hl := h.contents.symm.trans hc
    have hget : s.unread.flatten[s.begun]? = some ch := by
      rw [← List.head?_drop, hl]
      rfl
    have hdrop : s.unread.flatten.drop (s.begun + 1) = chs := by
      rw [← List.tail_drop, hl]
      rfl
    have htake : s.unread.flatten.take (s.begun + 1) = s.unread.flatten.take s.begun ++ [ch] := by
      rw [List.take_add_one, hget]
      rfl
    have hread' : s.read ++ [ch] = done.flatten ++ s.unread.flatten.take (s.begun + 1) := by
      rw [htake, ← List.append_assoc, ← hread]
    rw [exec_read_cons hc]
    cases hu : s.unread with
    | nil =>
      rw [hu, List.flatten_nil, List.drop_nil] at hl
      exact absurd hl.symm (List.cons_ne_nil _ _)
    | cons key keys =>
      rw [hu, List.flatten_cons] at hdrop hread'
      rw [hu] at hsub
      have hlt : s.begun < key.length := by
        rcases h.begun with h0 | hlt
        · rw [h0]
          exact List.length_pos_iff.2 (h.nonempty key (by rw [hu]; exact List.mem_cons_self ..))
        · rwa [hu] at hlt
      split
      · -- the last byte of the key
        rename_i hend
        rw [List.headD_cons] at hend
        rw [hend, List.drop_left] at hdrop
        rw [hend, List.take_left] at hread'
        constructor
        · show (ttyGetchar s.tty).2.input.contents = keys.flatten.drop 0
          rw [hchs, List.drop_zero, hdrop]
        · exact Or.inl rfl
        · exact fun k hk => h.nonempty k (by rw [hu]; exact List.mem_cons_of_mem _ hk)
        · refine ⟨done ++ [key], ?_, ?_⟩
          · show s.read ++ [ch] = (done ++ [key]).flatten ++ keys.flatten.take 0
            rw [hread', List.take_zero, List.append_nil, List.flatten_append, List.flatten_singleton]
          · show (done ++ [key] ++ keys).Sublist s.pressed
            rwa [List.append_assoc, List.singleton_append]
      · rename_i hend
        rw [List.headD_cons] at hend
        constructor
        · show (ttyGetchar s.tty).2.input.contents = (key :: keys).flatten.drop (s.begun + 1)
          rw [hchs, List.flatten_cons, hdrop]
        · refine Or.inr ?_
          show s.begun + 1 < key.length
          omega
        · exact fun k hk => h.nonempty k (by rw [hu]; exact hk)
        · exact ⟨done, hread', hsub⟩

/-- **Key events are atomic in the input stream**, while only whole keys are pushed out of
the buffer. -/
theorem whole_keys {s : KeyState} (h : (keySystem DropsWhole).Reachable s) : WholeKeys s := by
  have hi : KeysInv s := by
    refine h.invariant ?_ ?_
    · rintro s ⟨hc, -, hp, hu, hb, hr⟩
      constructor
      · rw [hc, hu]
        exact List.drop_nil.symm
      · exact Or.inl hb
      · rw [hu]
        exact fun _ h => absurd h List.not_mem_nil
      · refine ⟨[], ?_, ?_⟩
        · rw [hr, hu]
          exact List.take_nil.symm
        · rw [hu, hp]
          exact List.Sublist.refl _
    · rintro s op _ - hi ⟨hc, rfl⟩
      cases op with
      | key interruptible event => exact hi.exec_key interruptible event hc
      | read => exact hi.exec_read
  exact hi.wholeKeys

/-- The terminal as `tty_create` leaves it. -/
def germanKeys : KeyState where
  modifiers := germanStdin.modifiers
  tty := germanStdin.tty
  pressed := []
  unread := []
  begun := 0
  read := []

theorem key_step {C : KeyState → KeyOp → Prop} {s : KeyState} (h : (keySystem C).Reachable s)
    (op : KeyOp) (hc : C s op) : (keySystem C).Reachable (s.exec op) := h.step ⟨hc, rfl⟩

theorem germanKeys_reachable (C : KeyState → KeyOp → Prop) : (keySystem C).Reachable germanKeys :=
  .init ⟨by decide, rfl, rfl, rfl, rfl, rfl⟩

/-- Pressing the key *up*. -/
def pressUp : KeyOp := .key false ⟨keycodeUp, true⟩

def arrowUp : List UInt8 := [0x1B, 0x5B, 0x41]

theorem whole_keys_up :
    let s := ((germanKeys.exec pressUp).exec .read).exec .read
    WholeKeys s ∧ s.read = [0x1B, 0x5B] := by
  have h1 := key_step (germanKeys_reachable DropsWhole) pressUp (by decide +kernel)
  have h2 := key_step h1 .read trivial
  have h3 := key_step h2 .read trivial
  exact ⟨whole_keys h3, by decide⟩

/-! ## Arrow keys that fill the buffer -/

theorem encoding_up (s : KeyState) : s.encoding ⟨keycodeUp, true⟩ = arrowUp := by
  have hd : (ttyDecode s.modifiers ⟨keycodeUp, true⟩).2 = .arrow 'A' := by
    rcases s.modifiers with ⟨shift, ctrl⟩
    cases shift <;> cases ctrl <;> rfl
  unfold KeyState.encoding
  rw [hd]
  rfl

/-- `n` presses of *up* and no read. -/
theorem presses_up (n : ℕ) :
    ∃ s, (keySystem fun _ _ => True).Reachable s ∧
      s.tty.input.contents = (List.replicate n arrowUp).flatten.drop (n * 3 - ttyBufferSize) ∧
      s.tty.input.capacity = ttyBufferSize ∧ s.pressed = List.replicate n arrowUp ∧ s.read = [] := by
  induction n with
  | zero => exact ⟨germanKeys, germanKeys_reachable _, by decide, rfl, rfl, rfl⟩
  | succ n ih =>
    obtain ⟨s, hs, hc, hcap, hp, hr⟩ := ih
    obtain ⟨hc', hcap'⟩ := input_key false s ⟨keycodeUp, true⟩
    have hn : (List.replicate n arrowUp).flatten.length = n * 3 := by
      simp [arrowUp]
    have hlen : s.tty.input.contents.length = n * 3 - (n * 3 - ttyBufferSize) := by
      rw [hc, List.length_drop, hn]
    have hle : n * 3 - ttyBufferSize ≤ (List.replicate n arrowUp).flatten.length := by
      rw [hn]
      exact Nat.sub_le _ _
    refine ⟨s.exec pressUp, key_step hs _ trivial, ?_, hcap'.trans hcap, ?_, hr⟩
    · have hexcess : s.excess ⟨keycodeUp, true⟩ =
          n * 3 - (n * 3 - ttyBufferSize) + 3 - ttyBufferSize := by
        unfold KeyState.excess
        rw [encoding_up, hlen, hcap]
        rfl
      have hsum : n * 3 - ttyBufferSize + (n * 3 - (n * 3 - ttyBufferSize) + 3 - ttyBufferSize) =
          (n + 1) * 3 - ttyBufferSize := by
        omega
      rw [hexcess, encoding_up, hc, ← List.drop_append_of_le_length hle, List.drop_drop, hsum] at hc'
      rw [List.replicate_succ', List.flatten_append, List.flatten_singleton]
      exact hc'
    · show s.pressed ++ s.key ⟨keycodeUp, true⟩ = _
      have hkey : s.key ⟨keycodeUp, true⟩ = [arrowUp] := by
        unfold KeyState.key
        rw [encoding_up]
        rfl
      rw [hp, hkey, List.replicate_succ']

/-- **The 342nd arrow key pushes two bytes of the first one out of the buffer**: the byte read
next is the `A` of a key of which the rest is gone. -/
theorem torn_key : ¬ ∀ s, (keySystem fun _ _ => True).Reachable s → WholeKeys s := by
  intro h
  obtain ⟨s, hs, hc, -, hp, hr⟩ := presses_up 342
  have hfirst : s.tty.input.contents = 0x41 :: (List.replicate 341 arrowUp).flatten := hc
  obtain ⟨kept, hsub, hprefix⟩ := h _ (key_step hs .read trivial)
  rw [exec_read_cons hfirst] at hsub hprefix
  have hread : (0x41 : UInt8) :: [] <+: kept.flatten := by
    split at hprefix
    all_goals
      change s.read ++ [0x41] <+: kept.flatten at hprefix
      rwa [hr] at hprefix
  have hkept : ∀ key ∈ kept, key = arrowUp := by
    intro key hkey
    have hmem : key ∈ s.pressed := by
      split at hsub
      · exact hsub.subset hkey
      · exact hsub.subset hkey
    rw [hp] at hmem
    exact List.eq_of_mem_replicate hmem
  cases kept with
  | nil => exact absurd hread (by decide)
  | cons key keys =>
    rw [List.flatten_cons, hkept key List.mem_cons_self] at hread
    exact absurd (List.cons_prefix_cons.1 hread).1 (by decide)

end Ttos
