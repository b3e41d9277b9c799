/-
  Kernel line input: `tty_gets` (tty.c) over the kernel heap.

  The buffer has one byte at first and is doubled by `krealloc` when it is full.
  The writes into it are recorded, with the size it has at that time.

  * `tty_gets_exact`: the line arrives, and every write is inside the buffer,
    exactly when the heap serves the requests, no character is taken for "no
    input" or for the end of the string, and the line does not end with the
    buffer full.
  * `tty_gets_overruns`: the line of one character.
-/
import Mathlib.Data.List.ReduceOption
import Mathlib.Data.Nat.Log
import Ttos.Io.Tty
import Ttos.Lib.CString
import Ttos.Memory.HeapAnswers

namespace Ttos

/-! ## The line -/

/-- A character applied to the line kept so far, with the greatest length of the line. -/
def editStep (s : List UInt8 × ℕ) (ch : UInt8) : List UInt8 × ℕ :=
  let kept := if ch = 0x08 then s.1.dropLast else s.1 ++ [ch]
  (kept, max s.2 kept.length)

/-- The line typed: a backspace deletes the last character kept. -/
def editedLine (chs : List UInt8) : List UInt8 := (chs.foldl editStep ([], 0)).1

/-- The greatest length the line had. -/
def longestLine (chs : List UInt8) : ℕ := (chs.foldl editStep ([], 0)).2

/-! ## The code -/

/-- A write to `buffer[index]` of a buffer of `size` bytes. -/
structure BufferWrite where
  buffer : ℕ
  size : ℕ
  index : ℕ
deriving DecidableEq

/-- The write is inside a buffer that was allocated. -/
def BufferWrite.Inside (w : BufferWrite) : Prop := w.buffer ≠ 0 ∧ w.index < w.size

instance (w : BufferWrite) : Decidable w.Inside := inferInstanceAs (Decidable (_ ∧ _))

/-- The variables of `tty_gets`, the heap and the terminal, and the writes so far. -/
structure GetsState where
  heap : Kheap
  tty : Tty
  buffer : ℕ
  bufferSize : ℕ
  bufferIndex : ℕ
  writes : List BufferWrite

namespace GetsState

variable (s : GetsState)

/-- `buffer[buffer_index] = ch` -/
def put (ch : UInt8) : GetsState :=
  { s with
    heap := { s.heap with mem := s.heap.mem.store8 (s.buffer + s.bufferIndex) ch }
    writes := s.writes ++ [⟨s.buffer, s.bufferSize, s.bufferIndex⟩] }

/-- Double the buffer. -/
def grow : Option GetsState :=
  let size := u32 (s.bufferSize * 2)
  (s.heap.krealloc s.buffer size).map fun r =>
    { s with heap := r.2, buffer := r.1, bufferSize := size }

/-- A character other than the newline. -/
def char (ch : UInt8) : Option GetsState :=
  if ch = 0x08 then
    if s.bufferIndex = 0 then some s
    else some { s with bufferIndex := s.bufferIndex - 1, tty := ttyPutchar s.tty ch }
  else
    (if s.bufferIndex = s.bufferSize then s.grow else some s).map fun s =>
      { s.put ch with bufferIndex := u32 (s.bufferIndex + 1), tty := ttyPutchar s.tty ch }

end GetsState

/-- The loop of `tty_gets`.  `polls` are the bytes that the calls of `tty_getchar` find in the
input buffer, `none` if they find none; the loop does not end without a newline. -/
def ttyGetsLoop : List (Option UInt8) → GetsState → Option GetsState
  | [], _ => none
  | poll :: polls, s =>
    let ch := poll.getD 0xFF
    -- `-1` is an empty buffer, and the byte `0xFF`
    if ch = 0xFF then ttyGetsLoop polls s
    else if ch = 0x0A then some { s with tty := ttyPutchar s.tty ch }
    else (s.char ch).bind (ttyGetsLoop polls)

/-- `tty_gets`; it returns `buffer`. -/
def ttyGets (polls : List (Option UInt8)) (h : Kheap) (t : Tty) : Option GetsState := do
  let (buffer, h) ← h.kmalloc 1
  let s ← ttyGetsLoop polls ⟨h, t, buffer, 1, 0, []⟩
  some (s.put 0)

/-- **The call returned the line as a string**, and wrote inside its buffer only. -/
structure LineRead (line : List UInt8) (s : GetsState) : Prop where
  inside : ∀ w ∈ s.writes, w.Inside
  string : s.heap.mem.HasString s.buffer (editedLine line)

/-! ## The condition -/

/-- The requests that make a buffer of `2 ^ n` bytes: the buffer and the heap after them. -/
def growBuffer : ℕ → Kheap → Option (ℕ × Kheap)
  | 0, h => h.kmalloc 1
  | n + 1, h => do
    let (buffer, h) ← growBuffer n h
    h.krealloc buffer (2 ^ (n + 1))

/-- The heap serves each of these requests. -/
def HeapServes (h : Kheap) (n : ℕ) : Prop :=
  ∀ m ≤ n, ∃ buffer h', growBuffer m h = some (buffer, h') ∧ buffer ≠ 0

/-- The characters that the loop sees: the byte `0xFF` looks like an empty input buffer. -/
def seen (line : List UInt8) : List UInt8 := line.filter (· ≠ 0xFF)

structure LineFits (h : Kheap) (line : List UInt8) : Prop where
  served : HeapServes h (Nat.clog 2 (longestLine (seen line)))
  room : ¬ ∃ k, (editedLine (seen line)).length = 2 ^ k ∧ longestLine (seen line) = 2 ^ k
  same : editedLine (seen line) = editedLine line
  text : 0 ∉ editedLine line

/-! ## Sizes -/

/-- The smallest power of two that has room for `l` characters has room for one more. -/
theorem clog_room {l k : ℕ} (hk : k < 2 ^ Nat.clog 2 l) :
    Nat.clog 2 (max l (k + 1)) = Nat.clog 2 l := by
  refine le_antisymm (Nat.clog_le_of_le_pow ?_) (Nat.clog_mono_right 2 (le_max_left _ _))
  exact max_le (Nat.le_pow_clog (by decide) l) hk

/-- The full power of two has none. -/
theorem clog_full {l k : ℕ} (hl : k ≤ l) (hk : k = 2 ^ Nat.clog 2 l) :
    l = k ∧ Nat.clog 2 (max l (k + 1)) = Nat.clog 2 l + 1 := by
  have hle := Nat.le_pow_clog (by decide : 1 < 2) l
  have hlk : l = k := by omega
  refine ⟨hlk, ?_⟩
  rw [max_eq_right (by omega)]
  refine le_antisymm (Nat.clog_le_of_le_pow ?_) ?_
  · rw [pow_succ, hk]
    have := Nat.one_le_two_pow (n := Nat.clog 2 l)
    omega
  · refine Nat.succ_le_of_lt ?_
    by_contra hn
    have := (Nat.clog_le_iff_le_pow (by decide : 1 < 2)).1 (not_lt.1 hn)
    omega

theorem longest_mono (chs : List UInt8) (s : List UInt8 × ℕ) : s.2 ≤ (chs.foldl editStep s).2 := by
  induction chs generalizing s with
  | nil => exact le_rfl
  | cons ch chs ih => exact (le_max_left _ _).trans (ih (editStep s ch))

theorem HeapServes.mono {h : Kheap} {n n' : ℕ} (hs : HeapServes h n) (hle : n' ≤ n) :
    HeapServes h n' := fun m hm => hs m (hm.trans hle)

/-! ## The buffer -/

/-- The buffer of `2 ^ n` bytes holds the line kept.  The heap `hₙ` after the requests alone has
the same blocks as the present one. -/
structure GetsInv (base : ℕ) (h₀ : Kheap) (n : ℕ) (kept : List UInt8) (s : GetsState) (hₙ : Kheap)
    (bs : List Blk) (b : Blk) : Prop where
  good : KheapGood base s.heap bs
  served : HeapServes h₀ n
  grown : growBuffer n h₀ = some (s.buffer, hₙ)
  same : KheapGood base hₙ bs
  block : b ∈ allocated bs
  buffer : b.data = s.buffer
  size : s.bufferSize = 2 ^ n
  large : 2 ^ n ≤ b.size
  index : s.bufferIndex = kept.length
  fits : kept.length ≤ 2 ^ n
  bytes : s.heap.mem.HasBytes s.buffer kept
  inside : ∀ w ∈ s.writes, w.Inside

namespace GetsInv

variable {base n : ℕ} {h₀ hₙ : Kheap} {kept : List UInt8} {s : GetsState} {bs : List Blk} {b : Blk}

theorem size_lt (hi : GetsInv base h₀ n kept s hₙ bs b) : 2 ^ n < 67108864 := by
  have hrange : base ≤ b.addr ∧ b.addr + 20 + b.size ≤ base + 33554432 :=
    hi.good.inv.mem_range (mem_allocated.1 hi.block).1
  have := hi.large
  omega

theorem buffer_ne (hi : GetsInv base h₀ n kept s hₙ bs b) : s.buffer ≠ 0 := by
  rw [← hi.buffer]
  simp [Blk.data]

/-- A write where there is room. -/
theorem put (hi : GetsInv base h₀ n kept s hₙ bs b) (hroom : kept.length < 2 ^ n) (ch : UInt8) :
    KheapGood base (s.put ch).heap bs ∧ (s.put ch).heap.mem.HasBytes s.buffer (kept ++ [ch]) ∧
      ∀ w ∈ (s.put ch).writes, w.Inside := by
  have hbm := (mem_allocated.1 hi.block).1
  have haddr : s.buffer + s.bufferIndex = b.data + kept.length := by rw [hi.buffer, hi.index]
  refine ⟨hi.good.write fun x hx => Mem.store8_out ?_, ?_, ?_⟩
  · have hout := hi.good.inv.heap.out_of_header hbm hx
    have hlarge := hi.large
    rw [haddr]
    simp only [Blk.data, Blk.stop] at hout ⊢
    omega
  · show (s.heap.mem.store8 (s.buffer + s.bufferIndex) ch).HasBytes s.buffer (kept ++ [ch])
    rw [Mem.hasBytes_append]
    constructor
    · intro j hj
      rw [Mem.store8_out (by rw [hi.index]; omega)]
      exact hi.bytes j hj
    · intro j hj
      rw [List.length_singleton] at hj
      obtain rfl : j = 0 := by omega
      rw [hi.index]
      exact Mem.store8_in ..
  · intro w hw
    rcases List.mem_append.1 hw with hw | hw
    · exact hi.inside w hw
    · rw [List.mem_singleton.1 hw]
      refine ⟨hi.buffer_ne, ?_⟩
      show s.bufferIndex < s.bufferSize
      rw [hi.index, hi.size]
      exact hroom

/-- A character behind the line. -/
theorem append (hi : GetsInv base h₀ n kept s hₙ bs b) (hroom : kept.length < 2 ^ n) (ch : UInt8)
    (t : Tty) :
    GetsInv base h₀ n (kept ++ [ch])
      { s.put ch with bufferIndex := u32 (s.bufferIndex + 1), tty := t } hₙ bs b := by
  obtain ⟨hgood, hbytes, hinside⟩ := hi.put hroom ch
  have hsize := hi.size_lt
  constructor
  · exact hgood
  · exact hi.served
  · exact hi.grown
  · exact hi.same
  · exact hi.block
  · exact hi.buffer
  · exact hi.size
  · exact hi.large
  · show u32 (s.bufferIndex + 1) = _
    rw [hi.index, List.length_append, List.length_singleton]
    exact Nat.mod_eq_of_lt (by omega)
  · rw [List.length_append, List.length_singleton]
    exact hroom
  · exact hbytes
  · exact hinside

/-- A backspace. -/
theorem dropLast (hi : GetsInv base h₀ n kept s hₙ bs b) (t : Tty) :
    GetsInv base h₀ n kept.dropLast { s with bufferIndex := s.bufferIndex - 1, tty := t } hₙ bs b := by
  constructor
  · exact hi.good
  · exact hi.served
  · exact hi.grown
  · exact hi.same
  · exact hi.block
  · exact hi.buffer
  · exact hi.size
  · exact hi.large
  · rw [List.length_dropLast, ← hi.index]
  · rw [List.length_dropLast]
    exact (Nat.sub_le _ _).trans hi.fits
  · intro j hj
    rw [List.length_dropLast] at hj
    rw [List.getElem_dropLast]
    exact hi.bytes j (by omega)
  · exact hi.inside

/-- The buffer doubled: the heap has the room, and the line is in the new buffer; or there is no
buffer any more. -/
theorem grow (hi : GetsInv base h₀ n kept s hₙ bs b) :
    (∃ s' hₙ' bs' b', s.grow = some s' ∧ GetsInv base h₀ (n + 1) kept s' hₙ' bs' b') ∨
      ¬ HeapServes h₀ (n + 1) ∧ ∃ s', s.grow = some s' ∧ s'.buffer = 0 := by
  have hlt := hi.size_lt
  have hsize : u32 (s.bufferSize * 2) = 2 ^ (n + 1) := by
    rw [hi.size, ← pow_succ]
    exact Nat.mod_eq_of_lt (by rw [pow_succ]; omega)
  have hpos : 0 < 2 ^ (n + 1) := Nat.pos_of_ne_zero (by simp)
  unfold GetsState.grow
  rw [hsize, ← hi.buffer]
  dsimp only
  have hgrown : growBuffer (n + 1) h₀ = hₙ.krealloc b.data (2 ^ (n + 1)) := by
    rw [growBuffer, hi.grown, hi.buffer]
    rfl
  rcases Kheap.krealloc_agrees hi.same hi.good hi.block hpos with
    ⟨hk, hk'⟩ | ⟨c, h₁, h₂, bs₁, hk, hk', hg₁, hg₂, hc, hcs, hdata⟩
  · refine Or.inr ⟨fun hserves => ?_, _, by rw [hk']; rfl, rfl⟩
    obtain ⟨buffer, h', heq, hne⟩ := hserves (n + 1) le_rfl
    rw [hgrown, hk, Option.some.injEq, Prod.mk.injEq] at heq
    exact hne heq.1.symm
  · refine Or.inl ⟨{ s with heap := h₂, buffer := c.data, bufferSize := 2 ^ (n + 1) }, h₁, bs₁, c,
      by rw [hk']; rfl, ?_⟩
    have hcne : c.data ≠ 0 := by simp [Blk.data]
    constructor
    · exact hg₂
    · intro m hm
      rcases Nat.lt_or_eq_of_le hm with hm | rfl
      · exact hi.served m (by omega)
      · exact ⟨c.data, h₁, hgrown.trans hk, hcne⟩
    · exact hgrown.trans hk
    · exact hg₁
    · exact hc
    · rfl
    · rfl
    · exact hcs
    · exact hi.index
    · have := hi.fits
      rw [pow_succ]
      omega
    · intro j hj
      have := hi.fits
      have := hi.large
      show h₂.mem (c.data + j) = _
      rw [hdata j (by omega), hi.buffer]
      exact hi.bytes j hj
    · exact hi.inside

/-- One character: the line is edited, or a write has gone to no buffer. -/
theorem char {longest : ℕ} (hi : GetsInv base h₀ (Nat.clog 2 longest) kept s hₙ bs b)
    (hle : kept.length ≤ longest) (ch : UInt8) :
    (∃ s' hₙ' bs' b', s.char ch = some s' ∧
        GetsInv base h₀ (Nat.clog 2 (editStep (kept, longest) ch).2) (editStep (kept, longest) ch).1
          s' hₙ' bs' b') ∨
      ¬ HeapServes h₀ (Nat.clog 2 (editStep (kept, longest) ch).2) ∧
        ∃ s', s.char ch = some s' ∧ ∃ w ∈ s'.writes, ¬ w.Inside := by
  unfold GetsState.char editStep
  by_cases hb : ch = 0x08
  · left
    dsimp only
    rw [if_pos hb, if_pos hb, List.length_dropLast, max_eq_left ((Nat.sub_le _ _).trans hle)]
    by_cases h0 : s.bufferIndex = 0
    · have hnil : kept = [] := List.length_eq_zero_iff.1 (hi.index.symm.trans h0)
      subst hnil
      rw [if_pos h0]
      exact ⟨s, hₙ, bs, b, rfl, hi⟩
    · rw [if_neg h0]
      exact ⟨_, hₙ, bs, b, rfl, hi.dropLast _⟩
  · dsimp only
    rw [if_neg hb, if_neg hb, List.length_append, List.length_singleton]
    by_cases hfull : s.bufferIndex = s.bufferSize
    · rw [hi.index, hi.size] at hfull
      obtain ⟨-, hclog⟩ := clog_full hle hfull
      rw [if_pos (by rw [hi.index, hi.size]; exact hfull), hclog]
      rcases hi.grow with ⟨s', hₙ', bs', b', heq, hi'⟩ | ⟨hn, s', heq, h0⟩
      · left
        rw [heq]
        refine ⟨_, hₙ', bs', b', rfl, hi'.append ?_ ch _⟩
        rw [hfull, pow_succ]
        have := Nat.one_le_two_pow (n := Nat.clog 2 longest)
        omega
      · right
        rw [heq]
        refine ⟨hn, _, rfl, _, List.mem_append_right _ (List.mem_singleton_self _), fun hw => ?_⟩
        exact hw.1 h0
    · left
      have hroom : kept.length < 2 ^ Nat.clog 2 longest := by
        refine lt_of_le_of_ne hi.fits fun heq => hfull ?_
        rw [hi.index, hi.size, heq]
      rw [if_neg hfull, clog_room hroom]
      exact ⟨_, hₙ, bs, b, rfl, hi.append hroom ch _⟩

end GetsInv

/-! ## The loop -/

theorem char_writes {s s' : GetsState} {ch : UInt8} (h : s.char ch = some s') :
    ∀ w ∈ s.writes, w ∈ s'.writes := by
  intro w hw
  unfold GetsState.char at h
  split at h
  · split at h
    · rwa [← Option.some.inj h]
    · rwa [← Option.some.inj h]
  · rw [Option.map_eq_some_iff] at h
    obtain ⟨s₁, h₁, rfl⟩ := h
    refine List.mem_append_left _ ?_
    split at h₁
    · unfold GetsState.grow at h₁
      rw [Option.map_eq_some_iff] at h₁
      obtain ⟨r, -, rfl⟩ := h₁
      exact hw
    · rwa [← Option.some.inj h₁]

/-- What is written stays recorded. -/
theorem loop_writes {polls : List (Option UInt8)} {s s' : GetsState}
    (h : ttyGetsLoop polls s = some s') : ∀ w ∈ s.writes, w ∈ s'.writes := by
  induction polls generalizing s with
  | nil => cases h
  | cons poll polls ih =>
    intro w hw
    rw [ttyGetsLoop] at h
    split at h
    · exact ih h w hw
    split at h
    · rw [← Option.some.inj h]
      exact hw
    · rw [Option.bind_eq_some_iff] at h
      obtain ⟨s₁, h₁, h⟩ := h
      exact ih h w (char_writes h₁ w hw)

/-- Without a buffer the first write goes to none. -/
theorem loop_null {polls : List (Option UInt8)} {s s' : GetsState} (hb : s.buffer = 0)
    (hi : s.bufferIndex = 0) (hs : s.bufferSize = 1) (h : ttyGetsLoop polls s = some s') :
    s'.buffer = 0 ∨ ∃ w ∈ s'.writes, ¬ w.Inside := by
  induction polls generalizing s with
  | nil => cases h
  | cons poll polls ih =>
    rw [ttyGetsLoop] at h
    split at h
    · exact ih hb hi hs h
    split at h
    · rw [← Option.some.inj h]
      exact Or.inl hb
    · rw [Option.bind_eq_some_iff] at h
      obtain ⟨s₁, h₁, h⟩ := h
      unfold GetsState.char at h₁
      rw [if_pos hi, if_neg (by omega : ¬ s.bufferIndex = s.bufferSize)] at h₁
      split at h₁
      · obtain rfl := Option.some.inj h₁
        exact ih hb hi hs h
      · obtain rfl := Option.some.inj h₁
        refine Or.inr ⟨_, loop_writes h _ (List.mem_append_right _ (List.mem_singleton_self _)), ?_⟩
        exact fun hw => hw.1 hb

theorem foldl_editStep_le (chs : List UInt8) {s : List UInt8 × ℕ} (hs : s.1.length ≤ s.2) :
    (chs.foldl editStep s).1.length ≤ (chs.foldl editStep s).2 := by
  induction chs generalizing s with
  | nil => exact hs
  | cons ch chs ih => exact ih (le_max_right _ _)

/-- **The loop**: the line is edited to its end, or a write has gone to no buffer. -/
theorem GetsInv.loop {base : ℕ} {h₀ hₙ : Kheap} {kept : List UInt8} {longest : ℕ} {s : GetsState}
    {bs : List Blk} {b : Blk} (hi : GetsInv base h₀ (Nat.clog 2 longest) kept s hₙ bs b)
    (hle : kept.length ≤ longest) {polls : List (Option UInt8)} {line rest : List UInt8}
    (hpolls : polls.reduceOption = line ++ 0x0A :: rest) (hline : 0x0A ∉ line) :
    (∃ s' hₙ' bs' b', ttyGetsLoop polls s = some s' ∧
        GetsInv base h₀ (Nat.clog 2 ((seen line).foldl editStep (kept, longest)).2)
          ((seen line).foldl editStep (kept, longest)).1 s' hₙ' bs' b') ∨
      ¬ HeapServes h₀ (Nat.clog 2 ((seen line).foldl editStep (kept, longest)).2) ∧
        ∀ s', ttyGetsLoop polls s = some s' → ∃ w ∈ s'.writes, ¬ w.Inside := by
  induction polls generalizing s kept longest line hₙ bs b with
  | nil => exact absurd hpolls (by simp)
  | cons poll polls ih =>
    cases poll with
    | none =>
      rw [List.reduceOption_cons_of_none] at hpolls
      exact ih hi hle hpolls hline
    | some ch =>
      rw [List.reduceOption_cons_of_some] at hpolls
      cases line with
      | nil =>
        obtain rfl : ch = 0x0A := (List.cons.inj hpolls).1
        exact Or.inl ⟨_, hₙ, bs, b, rfl, hi.good, hi.served, hi.grown, hi.same, hi.block, hi.buffer,
          hi.size, hi.large, hi.index, hi.fits, hi.bytes, hi.inside⟩
      | cons c line =>
        obtain ⟨rfl, hrest⟩ := List.cons.inj hpolls
        rw [List.mem_cons, not_or] at hline
        have hnewline : ch ≠ 0x0A := fun h => hline.1 h.symm
        by_cases hff : ch = 0xFF
        · have hseen : seen (ch :: line) = seen line := List.filter_cons_of_neg (by simpa using hff)
          have hskip : ttyGetsLoop (some ch :: polls) s = ttyGetsLoop polls s := if_pos hff
          rw [hseen, hskip]
          exact ih hi hle hrest hline.2
        · have hseen : seen (ch :: line) = ch :: seen line := List.filter_cons_of_pos (by simpa using hff)
          have hstep : ttyGetsLoop (some ch :: polls) s = (s.char ch).bind (ttyGetsLoop polls) :=
            (if_neg hff).trans (if_neg hnewline)
          rw [hseen, hstep, List.foldl_cons]
          rcases hi.char hle ch with ⟨s', hₙ', bs', b', heq, hi'⟩ | ⟨hn, s', heq, w, hw, hout⟩
          · rw [heq]
            exact ih hi' (le_max_right _ _) hrest hline.2
          · rw [heq]
            refine Or.inr ⟨fun hserves => hn (hserves.mono ?_), fun s'' h => ⟨w, ?_, hout⟩⟩
            · exact Nat.clog_mono_right 2 (longest_mono _ _)
            · exact loop_writes h w hw

/-! ## The call -/

theorem dropLast_mono {xs ys : List UInt8} (h : xs.Sublist ys) : xs.dropLast.Sublist ys.dropLast := by
  rw [← List.reverse_sublist, ← List.tail_reverse, ← List.tail_reverse]
  exact h.reverse.tail

/-- What is not seen does no more than protect other characters from backspaces. -/
theorem seen_sublist {line : List UInt8} {s s' : List UInt8 × ℕ} (h : s.1.Sublist s'.1) :
    ((seen line).foldl editStep s).1.Sublist (line.foldl editStep s').1 := by
  induction line generalizing s s' with
  | nil => exact h
  | cons ch line ih =>
    by_cases hff : ch = 0xFF
    · have hseen : seen (ch :: line) = seen line := List.filter_cons_of_neg (by simpa using hff)
      rw [hseen, List.foldl_cons]
      refine ih ?_
      unfold editStep
      rw [if_neg (by rw [hff]; decide)]
      exact h.trans (List.sublist_append_left _ _)
    · have hseen : seen (ch :: line) = ch :: seen line := List.filter_cons_of_pos (by simpa using hff)
      rw [hseen, List.foldl_cons, List.foldl_cons]
      refine ih ?_
      unfold editStep
      dsimp only
      split
      · exact dropLast_mono h
      · exact h.append (List.Sublist.refl _)

/-- `tty_gets` on a well-formed heap. -/
theorem gets_iff {base : ℕ} {h : Kheap} {bs : List Blk} (hg : KheapGood base h bs) (t : Tty)
    {polls : List (Option UInt8)} {line rest : List UInt8}
    (hpolls : polls.reduceOption = line ++ 0x0A :: rest) (hline : 0x0A ∉ line) :
    (∃ r, ttyGets polls h t = some r ∧ LineRead line r) ↔ LineFits h line := by
  rcases Kheap.kmallocInt_spec hg 1 false with hk | ⟨b, h₁, bs₁, hk, hg₁, hp, -, hs, -, -⟩
  · -- no buffer at all
    refine iff_of_false ?_ fun hfits => ?_
    · rintro ⟨r, hr, hread⟩
      have hcall : ttyGets polls h t = (ttyGetsLoop polls ⟨h, t, 0, 1, 0, []⟩).bind
          fun s => some (s.put 0) := by
        unfold ttyGets Kheap.kmalloc
        rw [hk]
        rfl
      rw [hcall, Option.bind_eq_some_iff] at hr
      obtain ⟨s, hloop, hr⟩ := hr
      obtain rfl := Option.some.inj hr
      rcases loop_null rfl rfl rfl hloop with h0 | ⟨w, hw, hout⟩
      · exact (hread.inside _ (List.mem_append_right _ (List.mem_singleton_self _))).1 h0
      · exact hout (hread.inside w (List.mem_append_left _ hw))
    · obtain ⟨buffer, h', heq, hne⟩ := hfits.served 0 (Nat.zero_le _)
      rw [growBuffer, Kheap.kmalloc, hk, Option.some.injEq, Prod.mk.injEq] at heq
      exact hne heq.1.symm
  have hb0 : b.data ≠ 0 := by simp [Blk.data]
  have hcall : ttyGets polls h t = (ttyGetsLoop polls ⟨h₁, t, b.data, 1, 0, []⟩).bind
      fun s => some (s.put 0) := by
    unfold ttyGets Kheap.kmalloc
    rw [hk]
    rfl
  have hstart : GetsInv base h (Nat.clog 2 0) [] ⟨h₁, t, b.data, 1, 0, []⟩ h₁ bs₁ b := by
    rw [Nat.clog_zero_right]
    constructor
    · exact hg₁
    · intro m hm
      obtain rfl : m = 0 := Nat.le_zero.1 hm
      exact ⟨b.data, h₁, hk, hb0⟩
    · exact hk
    · exact hg₁
    · exact hp.mem_iff.2 List.mem_cons_self
    · rfl
    · rfl
    · exact hs
    · rfl
    · exact Nat.zero_le _
    · exact fun j hj => absurd hj (Nat.not_lt_zero _)
    · exact fun w hw => absurd hw List.not_mem_nil
  have hlength := foldl_editStep_le (seen line) (s := ([], 0)) le_rfl
  rw [hcall]
  rcases hstart.loop le_rfl hpolls hline with ⟨s, hₙ, bs', b', heq, hi⟩ | ⟨hn, hbad⟩
  · rw [heq]
    rcases Nat.lt_or_eq_of_le hi.fits with hroom | hfull
    · obtain ⟨-, hbytes, hinside⟩ := hi.put hroom 0
      constructor
      · rintro ⟨r, hr, hread⟩
        obtain rfl := Option.some.inj hr
        have h0 : 0 ∉ editedLine (seen line) := fun h =>
          hread.string.1 ((seen_sublist (List.Sublist.refl [])).subset h)
        constructor
        · exact hi.served
        · rintro ⟨k, hk1, hk2⟩
          have hclog : Nat.clog 2 (longestLine (seen line)) = k := by
            rw [hk2, Nat.clog_pow 2 k (by decide)]
          have hlt : (editedLine (seen line)).length < 2 ^ Nat.clog 2 (longestLine (seen line)) := hroom
          rw [hclog, hk1] at hlt
          exact lt_irrefl _ hlt
        · exact (Mem.hasString_of_hasBytes h0 hbytes).inj hread.string
        · exact hread.string.1
      · intro hfits
        refine ⟨_, rfl, hinside, ?_⟩
        have h0 : 0 ∉ editedLine (seen line) := hfits.same ▸ hfits.text
        have hstring := Mem.hasString_of_hasBytes h0 hbytes
        rwa [hfits.same] at hstring
    · -- the terminator goes behind the buffer
      refine iff_of_false ?_ fun hfits => hfits.room ?_
      · rintro ⟨r, hr, hread⟩
        obtain rfl := Option.some.inj hr
        have hw := hread.inside _ (List.mem_append_right _ (List.mem_singleton_self _))
        have hlt : s.bufferIndex < s.bufferSize := hw.2
        rw [hi.index, hi.size, hfull] at hlt
        exact lt_irrefl _ hlt
      · obtain ⟨heq, -⟩ := clog_full hlength hfull
        exact ⟨_, hfull, heq.trans hfull⟩
  · refine iff_of_false ?_ fun hfits => hn hfits.served
    rintro ⟨r, hr, hread⟩
    rw [Option.bind_eq_some_iff] at hr
    obtain ⟨s, hloop, hr⟩ := hr
    obtain rfl := Option.some.inj hr
    obtain ⟨w, hw, hout⟩ := hbad s hloop
    exact hout (hread.inside w (List.mem_append_left _ hw))

/-- **`tty_gets` reads a line** exactly when the heap serves the buffer's requests, the line does
not end with the buffer full, and neither `0xFF` nor a zero byte changes the line. -/
theorem tty_gets_exact {base : ℕ} {s : HeapRun} (hr : (heapSystem base).Reachable s) (t : Tty)
    {polls : List (Option UInt8)} {line rest : List UInt8}
    (hpolls : polls.reduceOption = line ++ 0x0A :: rest) (hline : 0x0A ∉ line) :
    (∃ r, ttyGets polls s.heap t = some r ∧ LineRead line r) ↔ LineFits s.heap line := by
  obtain ⟨bs, hi⟩ := HeapRun.reachable_inv hr
  exact gets_iff hi.good t hpolls hline

/-- A fresh heap, and a terminal. -/
def lineHeap : Kheap :=
  let h : Kheap := ⟨fun _ => 0, false, 0, 0, 0, 0, 0⟩
  (h.kheapInit 0xD0000000).getD h

def lineTty : Tty :=
  ttyCreate ⟨80, 25⟩ (fun _ => ⟨0, 0⟩) 0 ttyKeyboardLayoutDeDE (fun _ => 0) fun _ => 0

theorem lineHeap_reachable : (heapSystem 0xD0000000).Reachable ⟨lineHeap, []⟩ :=
  .init ⟨⟨by decide, by decide⟩, ⟨_, rfl⟩, rfl⟩

theorem lineHeap_serves : HeapServes lineHeap 2 := by
  have hserved : ∀ m < 3, (growBuffer m lineHeap).any fun r => r.1 ≠ 0 := by decide +kernel
  intro m hm
  obtain ⟨⟨buffer, h⟩, heq, hne⟩ := (Option.any_eq_true _ _).1 (hserved m (by omega))
  exact ⟨buffer, h, heq, by simpa using hne⟩

theorem tty_gets_exact_acd :
    ∃ r, ttyGets [none, some 0x61, some 0x62, none, some 0x08, some 0x63, some 0x64, some 0x0A]
      lineHeap lineTty = some r ∧ LineRead [0x61, 0x62, 0x08, 0x63, 0x64] r := by
  have hlongest : longestLine (seen [0x61, 0x62, 0x08, 0x63, 0x64]) = 3 := by decide
  have hlength : (editedLine (seen [0x61, 0x62, 0x08, 0x63, 0x64])).length = 3 := by decide
  have hpolls : List.reduceOption [none, some 0x61, some 0x62, none, some 0x08, some 0x63, some 0x64,
      some 0x0A] = [0x61, 0x62, 0x08, 0x63, 0x64] ++ 0x0A :: ([] : List UInt8) := rfl
  refine (tty_gets_exact lineHeap_reachable lineTty hpolls (by decide)).2 ?_
  constructor
  · rw [hlongest]
    exact lineHeap_serves.mono (Nat.clog_le_of_le_pow (by decide))
  · rintro ⟨k, hk, -⟩
    rw [hlength] at hk
    rcases k with _ | _ | k
    · exact absurd hk (by decide)
    · exact absurd hk (by decide)
    · rw [pow_succ, pow_succ] at hk
      omega
  · decide
  · decide

/-- **The line of one character** is followed by a zero byte behind the buffer of one byte. -/
theorem tty_gets_overruns :
    ¬ ∃ r, ttyGets [some 0x61, some 0x0A] lineHeap lineTty = some r ∧ LineRead [0x61] r := by
  obtain ⟨bs, hi⟩ := HeapRun.reachable_inv lineHeap_reachable
  have hpolls : List.reduceOption [some 0x61, some 0x0A] = [0x61] ++ 0x0A :: ([] : List UInt8) := rfl
  rw [gets_iff hi.good lineTty hpolls (by decide)]
  exact fun hfits => hfits.room ⟨0, by decide, by decide⟩

end Ttos
