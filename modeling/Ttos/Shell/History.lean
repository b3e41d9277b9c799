/-
  The history of the shell (userland/shell): `shell_history_add` on the array
  `history` of 16 lines of 256 bytes.

  * `addLine`: what adding a line means for the list of lines.
  * `shellHistoryAdd_spec`: the code does that, and writes to the array only.
  * `shell_history_law`: after any lines, the array holds the last 16 of them
    without empty ones and repetitions.
-/
import Ttos.Util.Strings
import Mathlib.Data.List.Destutter
import Mathlib.Data.List.DropRight

namespace Ttos

def shellLineMax : ℕ := 256

def shellHistoryMax : ℕ := 16

/-- The memory of the shell, and `history_count`. -/
structure Shell where
  memory : Mem
  historyCount : ℕ

section

variable (fuel history : ℕ)

/-- `history[index]` -/
def historySlot (index : ℕ) : ℕ := history + shellLineMax * index

/-- The loop of `shell_history_add` that drops the oldest entry. -/
def shellHistoryShift (m : Mem) : Option Mem :=
  (List.range (shellHistoryMax - 1)).foldlM (fun m index =>
    strcpy fuel m (historySlot history index) (historySlot history (index + 1))) m

/-- Drop the oldest entry once the ring is full. -/
def shellHistoryRoom (s : Shell) : Option Shell :=
  if s.historyCount = shellHistoryMax then
    (shellHistoryShift fuel history s.memory).map (⟨·, s.historyCount - 1⟩)
  else some s

/-- The line equals the last one of the history. -/
def shellHistoryRepeats (s : Shell) (line : ℕ) : Option Bool :=
  if 0 < s.historyCount then
    (strcmpAt s.memory fuel (historySlot history (s.historyCount - 1)) line).map (· == 0)
  else some false

/-- `shell_history_add` -/
def shellHistoryAdd (s : Shell) (line : ℕ) : Option Shell :=
  if s.memory line = 0 then some s
  else do
    if ← shellHistoryRepeats fuel history s line then return s
    let s ← shellHistoryRoom fuel history s
    let m ← strcpy fuel s.memory (historySlot history s.historyCount) line
    return ⟨m, s.historyCount + 1⟩

end

/-! ## The list of lines -/

/-- Adding a line to the lines of the history. -/
def addLine (lines : List (List UInt8)) (line : List UInt8) : List (List UInt8) :=
  if line = [] ∨ lines.getLast? = some line then lines
  else (if lines.length = shellHistoryMax then lines.tail else lines) ++ [line]

/-- The history holds `lines`. -/
structure HistoryIs (history : ℕ) (s : Shell) (lines : List (List UInt8)) : Prop where
  count : s.historyCount = lines.length
  full : lines.length ≤ shellHistoryMax
  short : ∀ line ∈ lines, line.length < shellLineMax
  slots : ∀ i (h : i < lines.length), s.memory.HasString (historySlot history i) lines[i]

/-- The memory of the array. -/
def InHistory (history x : ℕ) : Prop :=
  history ≤ x ∧ x < history + shellLineMax * shellHistoryMax

instance (history x : ℕ) : Decidable (InHistory history x) :=
  inferInstanceAs (Decidable (_ ∧ _))

variable {fuel history : ℕ} {s : Shell} {lines : List (List UInt8)}

/-- The history depends on the memory of the array only. -/
theorem HistoryIs.congr {m : Mem} (h : HistoryIs history s lines)
    (hm : ∀ x, InHistory history x → m x = s.memory x) :
    HistoryIs history ⟨m, s.historyCount⟩ lines where
  count := h.count
  full := h.full
  short := h.short
  slots i hi := by
    refine (h.slots i hi).congr fun x hx hx' => hm x ?_
    have hlen := h.short _ (List.getElem_mem hi)
    have hfull := h.full
    unfold InHistory
    unfold historySlot shellLineMax shellHistoryMax at *
    omega

/-- Copying a line into a slot: the slot holds it, and nothing else changes. -/
theorem strcpy_slot (history : ℕ) {m : Mem} {line : List UInt8} {i a : ℕ} (h : m.HasString a line)
    (hshort : line.length < shellLineMax) (hi : i < shellHistoryMax) (hfuel : shellLineMax ≤ fuel)
    (hapart : Apart (historySlot history i) shellLineMax a (line.length + 1)) :
    ∃ m', strcpy fuel m (historySlot history i) a = some m' ∧
      m'.HasString (historySlot history i) line ∧
      (∀ x, x < historySlot history i ∨ historySlot history (i + 1) ≤ x → m' x = m x) ∧
      ∀ x, ¬ InHistory history x → m' x = m x := by
  unfold Apart at hapart
  obtain ⟨m', hcpy, hline, hframe⟩ := strcpy_hasString h (hshort.trans_le hfuel)
    (show Apart (historySlot history i) (line.length + 1) a (line.length + 1) by
      unfold Apart; omega)
  refine ⟨m', hcpy, hline, fun x hx => hframe x ?_, fun x hx => hframe x ?_⟩
  · unfold historySlot shellLineMax at *
    omega
  · unfold InHistory at hx
    unfold historySlot shellLineMax shellHistoryMax at *
    omega

/-- The rounds of the loop: slots below `i` hold the next line already. -/
theorem shiftRounds (history : ℕ) (L : ℕ → List UInt8) (hL : ∀ k, (L k).length < shellLineMax)
    (hfuel : shellLineMax ≤ fuel) {n i : ℕ} {m : Mem} (hn : i + n + 1 = shellHistoryMax)
    (hm : ∀ k < shellHistoryMax,
      m.HasString (historySlot history k) (if k < i then L (k + 1) else L k)) :
    ∃ m', (List.range' i n).foldlM (fun m index =>
        strcpy fuel m (historySlot history index) (historySlot history (index + 1))) m = some m' ∧
      (∀ k < i + n, m'.HasString (historySlot history k) (L (k + 1))) ∧
      ∀ x, ¬ InHistory history x → m' x = m x := by
  induction n generalizing i m with
  | zero =>
    refine ⟨m, rfl, fun k hk => ?_, fun _ _ => rfl⟩
    have h := hm k (by omega)
    rwa [if_pos (by omega)] at h
  | succ n ih =>
    have hnext := hm (i + 1) (by omega)
    rw [if_neg (by omega)] at hnext
    have hapart : Apart (historySlot history i) shellLineMax (historySlot history (i + 1))
        ((L (i + 1)).length + 1) := by
      unfold Apart historySlot
      unfold shellLineMax
      omega
    obtain ⟨m₁, hcpy, hline, hkeep, hframe⟩ :=
      strcpy_slot history hnext (hL _) (by omega) hfuel hapart
    obtain ⟨m', hrest, hslots, hframe'⟩ := ih (i := i + 1) (m := m₁) (by omega) (by
      intro k hk
      by_cases hki : k = i
      · subst hki
        rw [if_pos (by omega)]
        exact hline
      · have h := hm k hk
        rw [show (if k < i + 1 then L (k + 1) else L k) = if k < i then L (k + 1) else L k by
          split <;> split <;> first | rfl | omega]
        refine h.congr fun x hx hx' => hkeep x ?_
        have hlen : (if k < i then L (k + 1) else L k).length < shellLineMax := by
          split <;> exact hL _
        unfold historySlot at *
        unfold shellLineMax at *
        rcases Nat.lt_or_gt_of_ne hki with hlt | hgt <;> omega)
    refine ⟨m', ?_, fun k hk => hslots k (by omega), fun x hx => ?_⟩
    · rw [List.range'_succ, List.foldlM_cons, hcpy]
      exact hrest
    · rw [hframe' x hx, hframe x hx]

/-- The loop moves every line one slot down. -/
theorem shellHistoryShift_spec {line : List UInt8} {rest : List (List UInt8)}
    (h : HistoryIs history s (line :: rest)) (hfull : (line :: rest).length = shellHistoryMax)
    (hfuel : shellLineMax ≤ fuel) :
    ∃ m, shellHistoryShift fuel history s.memory = some m ∧
      HistoryIs history ⟨m, rest.length⟩ rest ∧ ∀ x, ¬ InHistory history x → m x = s.memory x := by
  let L : ℕ → List UInt8 := fun k => (line :: rest)[k]?.getD []
  have hget (k : ℕ) (hk : k < (line :: rest).length) : L k = (line :: rest)[k] := by
    show ((line :: rest)[k]?).getD [] = _
    rw [List.getElem?_eq_getElem hk, Option.getD_some]
  have hL (k : ℕ) : (L k).length < shellLineMax := by
    by_cases hk : k < (line :: rest).length
    · rw [hget k hk]
      exact h.short _ (List.getElem_mem hk)
    · show ((line :: rest)[k]?.getD []).length < _
      rw [List.getElem?_eq_none (by omega)]
      decide
  obtain ⟨m, hrun, hslots, hframe⟩ := shiftRounds history L hL hfuel (n := 15) (i := 0)
    (m := s.memory) (by decide) (by
      intro k hk
      rw [if_neg (by omega), hget k (by omega)]
      exact h.slots k (by omega))
  rw [← List.range_eq_range'] at hrun
  refine ⟨m, hrun, ⟨rfl, ?_, fun l hl => h.short l (List.mem_cons_of_mem _ hl), fun i hi => ?_⟩,
    hframe⟩
  · exact (Nat.le_succ _).trans hfull.le
  · rw [List.length_cons] at hfull
    have hslot := hslots i (by unfold shellHistoryMax at hfull; omega)
    rwa [hget (i + 1) (by rw [List.length_cons]; omega), List.getElem_cons_succ] at hslot

/-- Room for one more line. -/
theorem shellHistoryRoom_spec (h : HistoryIs history s lines) (hfuel : shellLineMax ≤ fuel) :
    ∃ s', shellHistoryRoom fuel history s = some s' ∧
      HistoryIs history s' (if lines.length = shellHistoryMax then lines.tail else lines) ∧
      s'.historyCount < shellHistoryMax ∧
      ∀ x, ¬ InHistory history x → s'.memory x = s.memory x := by
  unfold shellHistoryRoom
  by_cases hfull : lines.length = shellHistoryMax
  · rw [if_pos (h.count.trans hfull), if_pos hfull]
    cases lines with
    | nil => exact absurd hfull (by decide)
    | cons line rest =>
      obtain ⟨m, hshift, hrest, hframe⟩ := shellHistoryShift_spec h hfull hfuel
      have hcount : s.historyCount - 1 = rest.length := by rw [h.count, List.length_cons]; omega
      rw [List.length_cons] at hfull
      refine ⟨_, by rw [hshift, Option.map_some, hcount], hrest, ?_, hframe⟩
      show rest.length < shellHistoryMax
      omega
  · rw [if_neg (fun hc => hfull (h.count.symm.trans hc)), if_neg hfull]
    refine ⟨s, rfl, h, ?_, fun _ _ => rfl⟩
    rw [h.count]
    exact lt_of_le_of_ne h.full hfull

/-- The test for a repetition. -/
theorem shellHistoryRepeats_spec (h : HistoryIs history s lines) (hfuel : shellLineMax ≤ fuel)
    {a : ℕ} {line : List UInt8} (hline : s.memory.HasString a line) :
    shellHistoryRepeats fuel history s a = some (decide (lines.getLast? = some line)) := by
  unfold shellHistoryRepeats
  rcases List.eq_nil_or_concat lines with rfl | ⟨init, last, rfl⟩
  · rw [if_neg (by rw [h.count]; exact Nat.lt_irrefl 0)]
    rfl
  · have hlen : s.historyCount = init.length + 1 := by simpa using h.count
    have hlast := h.slots init.length (by simp)
    have hshort := h.short last (by simp)
    simp only [List.concat_eq_append, List.getElem_concat_length] at hlast
    obtain ⟨r, hr, hiff⟩ := strcmpAt_hasString hlast hline (hshort.trans_le hfuel)
    rw [if_pos (by omega), hlen, Nat.add_sub_cancel, hr, Option.map_some]
    congr 1
    simp only [List.concat_eq_append, List.getLast?_concat, Option.some.injEq, ← hiff]
    rfl

/-- One more line behind those of the history. -/
theorem HistoryIs.snoc {m : Mem} {line : List UInt8} (h : HistoryIs history s lines)
    (hcount : s.historyCount < shellHistoryMax) (hshort : line.length < shellLineMax)
    (hslot : m.HasString (historySlot history s.historyCount) line)
    (hkeep : ∀ x < historySlot history s.historyCount, m x = s.memory x) :
    HistoryIs history ⟨m, s.historyCount + 1⟩ (lines ++ [line]) where
  count := by rw [h.count, List.length_append, List.length_singleton]
  full := by rw [List.length_append, List.length_singleton, ← h.count]; exact hcount
  short := by
    intro l hl
    rcases List.mem_append.1 hl with hl | hl
    · exact h.short l hl
    · rwa [List.mem_singleton.1 hl]
  slots i hi := by
    by_cases hlt : i < lines.length
    · rw [List.getElem_append_left hlt]
      refine (h.slots i hlt).congr fun x hx hx' => hkeep x ?_
      have hlen := h.short _ (List.getElem_mem hlt)
      rw [h.count]
      unfold historySlot at *
      unfold shellLineMax at *
      omega
    · rw [List.length_append, List.length_singleton] at hi
      obtain rfl : i = lines.length := by omega
      rw [h.count] at hslot
      simpa using hslot

/-- **`shell_history_add` adds the line to the history and writes nothing else.** -/
theorem shellHistoryAdd_spec (h : HistoryIs history s lines) (hfuel : shellLineMax ≤ fuel)
    {a : ℕ} {line : List UInt8} (hline : s.memory.HasString a line)
    (hshort : line.length < shellLineMax)
    (hapart : ∀ x, a ≤ x → x ≤ a + line.length → ¬ InHistory history x) :
    ∃ s', shellHistoryAdd fuel history s a = some s' ∧ HistoryIs history s' (addLine lines line) ∧
      ∀ x, ¬ InHistory history x → s'.memory x = s.memory x := by
  unfold shellHistoryAdd addLine
  by_cases hnil : line = []
  · subst hnil
    rw [if_pos (Mem.hasString_nil.1 hline), if_pos (Or.inl rfl)]
    exact ⟨s, rfl, h, fun _ _ => rfl⟩
  · have hne : s.memory a ≠ 0 := by
      obtain ⟨c, rest, rfl⟩ := List.exists_cons_of_ne_nil hnil
      obtain ⟨hc, ha, -⟩ := Mem.hasString_cons.1 hline
      rwa [ha]
    rw [if_neg hne, shellHistoryRepeats_spec h hfuel hline]
    by_cases hlast : lines.getLast? = some line
    · rw [if_pos (Or.inr hlast)]
      exact ⟨s, by simp [hlast], h, fun _ _ => rfl⟩
    · rw [if_neg (not_or.2 ⟨hnil, hlast⟩)]
      obtain ⟨s₁, hroom, hs₁, hcount, hframe⟩ := shellHistoryRoom_spec h hfuel
      have hline₁ : s₁.memory.HasString a line :=
        hline.congr fun x hx hx' => hframe x (hapart x hx hx')
      have hslotApart :
          Apart (historySlot history s₁.historyCount) shellLineMax a (line.length + 1) := by
        by_contra hover
        refine hapart (max a (historySlot history s₁.historyCount)) ?_ ?_ ?_
        all_goals
          unfold Apart at hover
          unfold InHistory historySlot at *
          unfold shellLineMax shellHistoryMax at *
          omega
      obtain ⟨m', hcpy, hslot, hkeep, hframe'⟩ :=
        strcpy_slot history hline₁ hshort hcount hfuel hslotApart
      refine ⟨⟨m', s₁.historyCount + 1⟩, ?_, ?_, fun x hx => ?_⟩
      · simp [hlast, hroom, hcpy]
      · exact hs₁.snoc hcount hshort hslot fun x hx => hkeep x (Or.inl hx)
      · exact (hframe' x hx).trans (hframe x hx)

/-! ## The law of the history -/

theorem destutter'_concat (a : List UInt8) (l : List (List UInt8)) (x : List UInt8) :
    (l ++ [x]).destutter' (· ≠ ·) a =
      if (l.destutter' (· ≠ ·) a).getLast? = some x then l.destutter' (· ≠ ·) a
      else l.destutter' (· ≠ ·) a ++ [x] := by
  induction l generalizing a with
  | nil =>
    by_cases hax : a = x
    · simp [hax]
    · simp [hax]
  | cons b l ih =>
    rw [List.cons_append]
    by_cases hab : a = b
    · rw [List.destutter'_cons_neg _ (not_not.2 hab), List.destutter'_cons_neg _ (not_not.2 hab), ih]
    · rw [List.destutter'_cons_pos _ hab, List.destutter'_cons_pos _ hab, ih]
      have hlast : (a :: l.destutter' (· ≠ ·) b).getLast? = (l.destutter' (· ≠ ·) b).getLast? := by
        obtain ⟨c, rest, hd⟩ := List.exists_cons_of_ne_nil (l.destutter'_ne_nil (· ≠ ·) (a := b))
        rw [hd, List.getLast?_cons_cons]
      rw [hlast]
      split <;> rfl

/-- One more line, without repeating the last one. -/
theorem destutter_concat (l : List (List UInt8)) (x : List UInt8) :
    (l ++ [x]).destutter (· ≠ ·) =
      if (l.destutter (· ≠ ·)).getLast? = some x then l.destutter (· ≠ ·)
      else l.destutter (· ≠ ·) ++ [x] := by
  cases l with
  | nil => simp
  | cons a l => exact destutter'_concat a l x

/-- The lines a history keeps: the last 16 without empty ones and repetitions. -/
def keptLines (lines : List (List UInt8)) : List (List UInt8) :=
  ((lines.filter (· ≠ [])).destutter (· ≠ ·)).rtake shellHistoryMax

theorem rtake_concat (d : List (List UInt8)) (x : List UInt8) :
    (d ++ [x]).rtake shellHistoryMax =
      (if (d.rtake shellHistoryMax).length = shellHistoryMax then (d.rtake shellHistoryMax).tail
        else d.rtake shellHistoryMax) ++ [x] := by
  rw [show shellHistoryMax = 15 + 1 from rfl, List.rtake_concat_succ]
  congr 1
  unfold List.rtake
  rw [List.length_drop, List.tail_drop]
  split
  · congr 1
    omega
  · rw [show d.length - 15 = 0 by omega, show d.length - (15 + 1) = 0 by omega]

/-- Adding the lines one by one keeps the last 16. -/
theorem foldl_addLine (lines : List (List UInt8)) : lines.foldl addLine [] = keptLines lines := by
  induction lines using List.reverseRecOn with
  | nil => rfl
  | append_singleton lines x ih =>
    rw [List.foldl_append, ih, List.foldl_cons, List.foldl_nil]
    unfold keptLines addLine
    rw [List.filter_append]
    by_cases hx : x = []
    · subst hx
      simp
    · have hlast (d : List (List UInt8)) : (d.rtake shellHistoryMax).getLast? = d.getLast? := by
        rw [List.rtake, List.getLast?_drop]
        split
        · rename_i h
          rw [List.length_eq_zero_iff.1 (by unfold shellHistoryMax at h; omega : d.length = 0)]
          rfl
        · rfl
      rw [hlast, List.filter_singleton, decide_eq_true hx, cond_true, destutter_concat]
      by_cases hrep : ((lines.filter (· ≠ [])).destutter (· ≠ ·)).getLast? = some x
      · rw [if_pos (Or.inr hrep), if_pos hrep]
      · rw [if_neg (not_or.2 ⟨hx, hrep⟩), if_neg hrep, rtake_concat]

/-! ## Entering lines -/

/-- A line as it is entered: what memory holds by then, and where the line lies in it. -/
structure EnteredLine (history : ℕ) where
  memory : Mem
  line : ℕ
  text : List UInt8
  holds : memory.HasString line text
  short : text.length < shellLineMax
  apart : ∀ x, line ≤ x → x ≤ line + text.length → ¬ InHistory history x

/-- A call of `shell_history_add`; the history is as the last call has left it. -/
def enterLine (fuel history : ℕ) (s : Shell) (e : EnteredLine history) : Option Shell :=
  shellHistoryAdd fuel history
    ⟨fun x => if InHistory history x then s.memory x else e.memory x, s.historyCount⟩ e.line

theorem enterLine_spec (h : HistoryIs history s lines) (hfuel : shellLineMax ≤ fuel)
    (e : EnteredLine history) :
    ∃ s', enterLine fuel history s e = some s' ∧ HistoryIs history s' (addLine lines e.text) := by
  have hsame := h.congr (m := fun x => if InHistory history x then s.memory x else e.memory x)
    fun x hx => if_pos hx
  have hline : Mem.HasString (fun x => if InHistory history x then s.memory x else e.memory x)
      e.line e.text :=
    e.holds.congr fun x hx hx' => if_neg (e.apart x hx hx')
  obtain ⟨s', hadd, hs', -⟩ := shellHistoryAdd_spec hsame hfuel hline e.short e.apart
  exact ⟨s', hadd, hs'⟩

theorem enterLines_spec (h : HistoryIs history s lines) (hfuel : shellLineMax ≤ fuel)
    (entered : List (EnteredLine history)) :
    ∃ s', entered.foldlM (enterLine fuel history) s = some s' ∧
      HistoryIs history s' ((entered.map (·.text)).foldl addLine lines) := by
  induction entered generalizing s lines with
  | nil => exact ⟨s, rfl, h⟩
  | cons e entered ih =>
    obtain ⟨s₁, hadd, hs₁⟩ := enterLine_spec h hfuel e
    obtain ⟨s', hrun, hs'⟩ := ih hs₁
    refine ⟨s', ?_, hs'⟩
    rw [List.foldlM_cons, hadd]
    exact hrun

/-- **The history law**: after any lines, `history[0 .. history_count)` is the last 16 of
them, in order, without empty lines and lines equal to the one before. -/
theorem shell_history_law (history : ℕ) (m : Mem) (entered : List (EnteredLine history)) :
    ∃ rounds, ∀ fuel ≥ rounds, ∃ s,
      entered.foldlM (enterLine fuel history) ⟨m, 0⟩ = some s ∧
      HistoryIs history s (keptLines (entered.map (·.text))) := by
  refine ⟨shellLineMax, fun fuel hfuel => ?_⟩
  have hstart : HistoryIs history ⟨m, 0⟩ [] :=
    ⟨rfl, Nat.zero_le _, fun _ h => absurd h List.not_mem_nil,
      fun _ h => absurd h (Nat.not_lt_zero _)⟩
  obtain ⟨s, hrun, hs⟩ := enterLines_spec hstart hfuel entered
  rw [foldl_addLine] at hs
  exact ⟨s, hrun, hs⟩

end Ttos
