/-
  `shell_read_line` is an editor on a list with a cursor.

  * `Edits`: the buffer holds the text and ends with it, cursor and history
    position are those of the editor, and nothing outside the buffer is touched.
  * `shell_read_line_refines`: this holds before and after any characters.
-/
import Ttos.Shell.LineEditor

namespace Ttos

/-! ## The loops -/

theorem shiftLeft_eq (buffer : ℕ) (m : Mem) (first n : ℕ) :
    (List.range' first n).foldl (fun m i => m.store8 (buffer + i) (m (buffer + (i + 1)))) m =
      m.copy (buffer + first) (buffer + first + 1) n := by
  induction n generalizing first m with
  | zero =>
    funext x
    rw [Mem.copy_out (by omega)]
    rfl
  | succ n ih =>
    rw [List.range'_succ, List.foldl_cons, ih]
    funext x
    unfold Mem.copy Mem.store8
    by_cases hx : x = buffer + first
    · subst hx
      rw [if_neg (by omega), if_pos rfl, if_pos (by omega)]
      congr 1
      omega
    · by_cases hin : buffer + first ≤ x ∧ x < buffer + first + (n + 1)
      · rw [if_pos (by omega), if_pos hin, if_neg (by omega)]
        congr 1
        omega
      · rw [if_neg (by omega), if_neg hin, if_neg hx]

theorem shiftRight_eq (buffer cursor : ℕ) (m : Mem) (i : ℕ) :
    shiftRight buffer cursor i m = m.copy (buffer + cursor + 1) (buffer + cursor) (i - cursor) := by
  induction i generalizing m with
  | zero =>
    funext x
    rw [Mem.copy_out (by omega)]
    rfl
  | succ i ih =>
    rw [shiftRight]
    split
    · rename_i hlt
      rw [ih]
      funext x
      unfold Mem.copy Mem.store8
      by_cases hx : x = buffer + (i + 1)
      · subst hx
        rw [if_neg (by omega), if_pos rfl, if_pos (by omega)]
        congr 1
        omega
      · by_cases hin : buffer + cursor + 1 ≤ x ∧ x < buffer + cursor + 1 + (i + 1 - cursor)
        · rw [if_pos (by omega), if_pos hin, if_neg (by omega)]
        · rw [if_neg (by omega), if_neg hin, if_neg hx]
    · funext x
      rw [Mem.copy_out (by omega)]

variable {m : Mem} {buffer : ℕ} {l r : List UInt8} {c : UInt8}

/-- Deleting the character between `l` and `r`. -/
theorem delete_hasString (h : m.HasString buffer (l ++ c :: r)) :
    ((shiftLeft buffer m (l.length + 1) (l ++ c :: r).length).store8
      (buffer + ((l ++ c :: r).length - 1)) 0).HasString buffer (l ++ r) := by
  obtain ⟨h0, hbytes, -⟩ := h
  have hlen : (l ++ c :: r).length = l.length + (r.length + 1) := by simp
  obtain ⟨hl, hcr⟩ := Mem.hasBytes_append.1 (show m.HasBytes buffer (l ++ c :: r) from hbytes)
  obtain ⟨-, hr⟩ := Mem.hasBytes_cons.1 hcr
  rw [shiftLeft, shiftLeft_eq, hlen]
  refine ⟨fun hz => h0 ?_, ?_, ?_⟩
  · rcases List.mem_append.1 hz with hz | hz
    · exact List.mem_append_left _ hz
    · exact List.mem_append_right _ (List.mem_cons_of_mem _ hz)
  · refine Mem.hasBytes_append.2 ⟨hl.congr fun x hx hx' => ?_, fun j hj => ?_⟩
    · rw [Mem.store8_out (by omega), Mem.copy_out (by omega)]
    · rw [Mem.store8_out (by omega), Mem.copy_in (by omega) (by omega), ← hr j hj]
      congr 1
      omega
  · rw [List.length_append, show l.length + (r.length + 1) - 1 = l.length + r.length by omega]
    exact Mem.store8_in ..

/-- Inserting a character between `l` and `r`. -/
theorem insert_hasString (h : m.HasString buffer (l ++ r)) (hc : c ≠ 0) :
    (insertChar buffer m (l ++ r).length l.length c).HasString buffer (l ++ c :: r) := by
  obtain ⟨h0, hbytes, -⟩ := h
  obtain ⟨hl, hr⟩ := Mem.hasBytes_append.1 (show m.HasBytes buffer (l ++ r) from hbytes)
  rw [insertChar, shiftRight_eq, List.length_append]
  refine ⟨fun hz => ?_, ?_, ?_⟩
  · rcases List.mem_append.1 hz with hz | hz
    · exact h0 (List.mem_append_left _ hz)
    · rcases List.mem_cons.1 hz with hz | hz
      · exact hc hz.symm
      · exact h0 (List.mem_append_right _ hz)
  · refine Mem.hasBytes_append.2 ⟨hl.congr fun x hx hx' => ?_, Mem.hasBytes_cons.2
      ⟨?_, fun j hj => ?_⟩⟩
    · rw [Mem.store8_out (by omega), Mem.store8_out (by omega), Mem.copy_out (by omega)]
    · rw [Mem.store8_out (by omega), Mem.store8_in]
    · rw [Mem.store8_out (by omega), Mem.store8_out (by omega), Mem.copy_in (by omega) (by omega),
        ← hr j hj]
      congr 1
      omega
  · rw [show (l ++ c :: r).length = l.length + r.length + 1 by simp; omega]
    exact Mem.store8_in ..

/-- The two ways to insert at the end of the line leave the same memory. -/
theorem appendChar_eq_insertChar (buffer : ℕ) (m : Mem) (length : ℕ) (ch : UInt8) :
    appendChar buffer m length ch = insertChar buffer m length length ch := by
  have hshift : m.copy (buffer + length + 1) (buffer + length) 0 = m :=
    funext fun x => Mem.copy_out (by omega)
  rw [appendChar, insertChar, shiftRight_eq, Nat.sub_self, hshift]

/-! ## The editor in memory -/

/-- The state of the function is that of the editor; `s` is the shell at the call. -/
structure Edits (history buffer size : ℕ) (lines : List (List UInt8)) (s : Shell)
    (st : LineState) (e : Editor) : Prop where
  text : st.shell.memory.HasString buffer e.text
  length : st.length = e.text.length
  cursor : st.cursor = e.before.length
  nav : st.nav = e.nav
  phase : st.phase = e.phase
  fits : st.length < size
  navLe : st.nav ≤ st.shell.historyCount
  history : HistoryIs history st.shell lines
  frame : ∀ x, x < buffer ∨ buffer + size ≤ x → st.shell.memory x = s.memory x

namespace Edits

variable {fuel history size : ℕ} {prompt : List UInt8} {lines : List (List UInt8)} {s : Shell}
  {st : LineState} {e : Editor}

theorem cursor_le (he : Edits history buffer size lines s st e) : st.cursor ≤ st.length := by
  rw [he.cursor, he.length, Editor.text, List.length_append, List.length_reverse]
  omega

theorem nul (he : Edits history buffer size lines s st e) :
    st.shell.memory (buffer + st.length) = 0 := by
  rw [he.length]
  exact he.text.2.2

/-- After writing to the buffer only. -/
theorem rewrite (he : Edits history buffer size lines s st e)
    (hapart : ∀ x, buffer ≤ x → x < buffer + size → ¬ InHistory history x) {st' : LineState}
    {e' : Editor} (hcount : st'.shell.historyCount = st.shell.historyCount)
    (hm : ∀ x, x < buffer ∨ buffer + size ≤ x → st'.shell.memory x = st.shell.memory x)
    (htext : st'.shell.memory.HasString buffer e'.text) (hlength : st'.length = e'.text.length)
    (hcursor : st'.cursor = e'.before.length) (hnav : st'.nav = e'.nav)
    (hphase : st'.phase = e'.phase) (hfits : st'.length < size)
    (hnavLe : st'.nav ≤ st'.shell.historyCount) :
    Edits history buffer size lines s st' e' where
  text := htext
  length := hlength
  cursor := hcursor
  nav := hnav
  phase := hphase
  fits := hfits
  navLe := hnavLe
  history := by
    have h := he.history.congr (m := st'.shell.memory) fun x hx => hm x (by
      by_contra hin
      exact hapart x (by omega) (by omega) hx)
    rwa [← hcount] at h
  frame x hx := (hm x hx).trans (he.frame x hx)

/-- Backspace. -/
theorem delete (he : Edits history buffer size lines s st e)
    (hapart : ∀ x, buffer ≤ x → x < buffer + size → ¬ InHistory history x) :
    Edits history buffer size lines s (shellDelete fuel prompt buffer st) e.delete := by
  obtain ⟨before, after, nav, phase⟩ := e
  unfold shellDelete
  cases before with
  | nil =>
    rw [if_neg (by rw [he.cursor]; exact Nat.lt_irrefl 0)]
    exact he
  | cons c before =>
    have hcursor := he.cursor
    have hlength := he.length
    have htext := he.text
    simp only [Editor.text, List.reverse_cons, List.append_assoc, List.singleton_append,
      List.length_cons] at hcursor hlength htext
    have hlen : (before.reverse ++ c :: after).length = before.length + (after.length + 1) := by simp
    have hdel := delete_hasString htext
    rw [List.length_reverse, ← hcursor, ← hlength] at hdel
    rw [if_pos (by omega)]
    have hfits := he.fits
    refine he.rewrite hapart rfl (fun x hx => ?_) hdel ?_ ?_ he.nav he.phase ?_ he.navLe
    · show ((shiftLeft buffer st.shell.memory st.cursor st.length).store8 _ 0) x = _
      rw [shiftLeft, shiftLeft_eq, Mem.store8_out (by omega), Mem.copy_out (by omega)]
    · show st.length - 1 = (before.reverse ++ after).length
      rw [List.length_append, List.length_reverse]
      omega
    · show st.cursor - 1 = before.length
      omega
    · show st.length - 1 < size
      omega

/-- A character inserted at the cursor, whatever is printed. -/
theorem insertAt (he : Edits history buffer size lines s st e)
    (hapart : ∀ x, buffer ≤ x → x < buffer + size → ¬ InHistory history x) (hc : c ≠ 0)
    (hroom : st.length + 1 < size) (printed : List UInt8) :
    Edits history buffer size lines s
      ({ st.setMemory (insertChar buffer st.shell.memory st.length st.cursor c) with
          length := st.length + 1, cursor := st.cursor + 1 }.print printed)
      { e with before := c :: e.before } := by
  have htext := he.text
  have hlength := he.length
  rw [Editor.text] at htext hlength
  have hins := insert_hasString htext hc
  rw [← hlength, List.length_reverse, ← he.cursor] at hins
  have hle := he.cursor_le
  refine he.rewrite hapart rfl (fun x hx => ?_) ?_ ?_ ?_ he.nav he.phase hroom he.navLe
  · show insertChar buffer st.shell.memory st.length st.cursor c x = _
    rw [insertChar, shiftRight_eq, Mem.store8_out (by omega), Mem.store8_out (by omega),
      Mem.copy_out (by omega)]
  · rw [Editor.text, List.reverse_cons, List.append_assoc, List.singleton_append]
    exact hins
  · show st.length + 1 = _
    rw [hlength, Editor.text, List.reverse_cons]
    simp only [List.length_append, List.length_reverse, List.length_singleton]
    omega
  · show st.cursor + 1 = (c :: e.before).length
    rw [he.cursor, List.length_cons]

/-- Printable input, on either path. -/
theorem insert (he : Edits history buffer size lines s st e)
    (hapart : ∀ x, buffer ≤ x → x < buffer + size → ¬ InHistory history x) (hc : c ≠ 0) :
    Edits history buffer size lines s (shellInsert fuel prompt buffer size st c)
      (e.insert size c) := by
  unfold shellInsert Editor.insert
  rw [← he.length]
  by_cases hroom : st.length + 1 < size
  · rw [if_pos hroom, if_pos hroom]
    split
    · rename_i hend
      have h := he.insertAt hapart hc hroom [c]
      rw [hend, ← appendChar_eq_insertChar] at h
      rw [hend]
      exact h
    · exact he.insertAt hapart hc hroom _
  · rw [if_neg hroom, if_neg hroom]
    exact he

/-- The line of the history, or the empty line, is written to the buffer. -/
theorem recallEntry (he : Edits history buffer size lines s st e)
    (hapart : ∀ x, buffer ≤ x → x < buffer + size → ¬ InHistory history x) (hsize : 0 < size)
    (hlarge : lines ≠ [] → shellLineMax ≤ size) (hfuel : shellLineMax ≤ fuel) (nav : ℕ) :
    ∃ m : Mem, Ttos.recallEntry fuel history buffer st.shell nav = some m ∧
      m.HasString buffer (lines[nav]?.getD []) ∧ (lines[nav]?.getD []).length < shellLineMax ∧
      (lines[nav]?.getD []).length < size ∧
      ∀ x, x < buffer ∨ buffer + size ≤ x → m x = st.shell.memory x := by
  unfold Ttos.recallEntry
  by_cases hnav : nav < lines.length
  · have hslot := he.history.slots nav hnav
    have hshort := he.history.short _ (List.getElem_mem hnav)
    have hfull := he.history.full
    have hsize' := hlarge (List.ne_nil_of_length_pos (by omega))
    have hslots : Apart buffer (lines[nav].length + 1) (historySlot history nav)
        (lines[nav].length + 1) := by
      by_contra hover
      refine hapart (max buffer (historySlot history nav)) ?_ ?_ ?_
      all_goals
        unfold Apart at hover
        unfold InHistory historySlot at *
        unfold shellLineMax shellHistoryMax at *
        omega
    obtain ⟨m, hcpy, hline, hframe⟩ := strcpy_hasString hslot (hshort.trans_le hfuel) hslots
    rw [he.history.count, if_pos hnav, List.getElem?_eq_getElem hnav, Option.getD_some]
    exact ⟨m, hcpy, hline, hshort, hshort.trans_le hsize', fun x hx => hframe x (by omega)⟩
  · rw [he.history.count, if_neg hnav, List.getElem?_eq_none (by omega), Option.getD_none]
    exact ⟨_, rfl, Mem.hasString_nil.2 (Mem.store8_in ..), by decide, hsize,
      fun x hx => Mem.store8_out (by omega)⟩

/-- A line of the history in place of the line. -/
theorem recalled (he : Edits history buffer size lines s st e) (hbuffer : buffer ≠ 0)
    (hapart : ∀ x, buffer ≤ x → x < buffer + size → ¬ InHistory history x) (hsize : 0 < size)
    (hlarge : lines ≠ [] → shellLineMax ≤ size) (hfuel : shellLineMax ≤ fuel) {nav : ℕ}
    (hnav : nav ≤ lines.length) :
    ∃ st', shellRecall fuel history prompt buffer st nav = some st' ∧
      Edits history buffer size lines s st' (e.recalled lines nav) := by
  obtain ⟨m, hm, htext, hshort, hfits, hframe⟩ :=
    he.recallEntry hapart hsize hlarge hfuel nav
  have hlen := strlen_hasString hbuffer htext (hshort.trans_le hfuel) 0
  rw [Nat.zero_add] at hlen
  refine ⟨_, by simp only [shellRecall, hm, hlen, Option.bind_eq_bind, Option.bind_some]; rfl, ?_⟩
  have htext' : (e.recalled lines nav).text = lines[nav]?.getD [] := by
    rw [Editor.text, Editor.recalled, List.reverse_reverse, List.append_nil]
  refine he.rewrite hapart rfl hframe ?_ ?_ ?_ rfl he.phase hfits ?_
  · rw [htext']
    exact htext
  · rw [htext']
    rfl
  · exact (List.length_reverse ..).symm
  · exact hnav.trans he.history.count.ge

/-- Moving the cursor leaves the line alone. -/
theorem move (he : Edits history buffer size lines s st e) {cursor : ℕ} (printed : List UInt8)
    {e' : Editor} (htext : e'.text = e.text) (hcursor : cursor = e'.before.length)
    (hnav : e'.nav = e.nav) (hphase : e'.phase = e.phase) :
    Edits history buffer size lines s ({ st with cursor := cursor }.print printed) e' where
  text := by rw [htext]; exact he.text
  length := by rw [htext]; exact he.length
  cursor := hcursor
  nav := by rw [hnav]; exact he.nav
  phase := by rw [hphase]; exact he.phase
  fits := he.fits
  navLe := he.navLe
  history := he.history
  frame := he.frame

theorem right (he : Edits history buffer size lines s st e) (printed : List UInt8) :
    Edits history buffer size lines s
      (if st.cursor < st.length then { st with cursor := st.cursor + 1 }.print printed else st)
      e.right := by
  obtain ⟨before, after, nav, phase⟩ := e
  have hcursor : st.cursor = before.length := he.cursor
  have hlength : st.length = (before.reverse ++ after).length := he.length
  rw [List.length_append, List.length_reverse] at hlength
  cases after with
  | nil =>
    rw [List.length_nil] at hlength
    rw [if_neg (by omega)]
    exact he
  | cons c after =>
    rw [List.length_cons] at hlength
    rw [if_pos (by omega)]
    refine he.move printed ?_ (congrArg (· + 1) hcursor) rfl rfl
    show (c :: before).reverse ++ after = before.reverse ++ c :: after
    rw [List.reverse_cons, List.append_assoc, List.singleton_append]

theorem left (he : Edits history buffer size lines s st e) (printed : List UInt8) :
    Edits history buffer size lines s
      (if 0 < st.cursor then { st with cursor := st.cursor - 1 }.print printed else st)
      e.left := by
  obtain ⟨before, after, nav, phase⟩ := e
  have hcursor : st.cursor = before.length := he.cursor
  cases before with
  | nil =>
    rw [List.length_nil] at hcursor
    rw [if_neg (by omega)]
    exact he
  | cons c before =>
    rw [List.length_cons] at hcursor
    rw [if_pos (by omega)]
    refine he.move printed ?_ (by rw [hcursor, Nat.add_sub_cancel]; rfl) rfl rfl
    show before.reverse ++ c :: after = (c :: before).reverse ++ after
    rw [List.reverse_cons, List.append_assoc, List.singleton_append]

/-- Waiting in another place. -/
theorem setPhase (he : Edits history buffer size lines s st e) (phase : ReadPhase) :
    Edits history buffer size lines s { st with phase := phase } { e with phase := phase } where
  text := he.text
  length := he.length
  cursor := he.cursor
  nav := he.nav
  phase := rfl
  fits := he.fits
  navLe := he.navLe
  history := he.history
  frame := he.frame

/-- The final byte of an escape sequence. -/
theorem final (he : Edits history buffer size lines s st e) (hbuffer : buffer ≠ 0)
    (hapart : ∀ x, buffer ≤ x → x < buffer + size → ¬ InHistory history x) (hsize : 0 < size)
    (hlarge : lines ≠ [] → shellLineMax ≤ size) (hfuel : shellLineMax ≤ fuel) (ch : UInt8) :
    ∃ st', shellFinal fuel history prompt buffer st ch = some st' ∧
      Edits history buffer size lines s st'
        (if ch = 0x41 then e.up lines else if ch = 0x42 then e.down lines
          else if ch = 0x43 then e.right else if ch = 0x44 then e.left else e) := by
  have hcount := he.history.count
  have hnav := he.nav
  have hnavLe := he.navLe
  unfold shellFinal Editor.up Editor.down
  rw [← hnav, ← hcount]
  by_cases hA : ch = 0x41
  · rw [if_pos hA, if_pos hA]
    split
    · exact he.recalled hbuffer hapart hsize hlarge hfuel (by omega)
    · exact ⟨st, rfl, he⟩
  · rw [if_neg hA, if_neg hA]
    by_cases hB : ch = 0x42
    · rw [if_pos hB, if_pos hB]
      split
      · exact he.recalled hbuffer hapart hsize hlarge hfuel (by omega)
      · exact ⟨st, rfl, he⟩
    · rw [if_neg hB, if_neg hB]
      by_cases hC : ch = 0x43
      · rw [if_pos hC, if_pos hC, ← apply_ite some]
        exact ⟨_, rfl, he.right _⟩
      · rw [if_neg hC, if_neg hC]
        by_cases hD : ch = 0x44
        · rw [if_pos hD, if_pos hD, ← apply_ite some]
          exact ⟨_, rfl, he.left _⟩
        · rw [if_neg hD, if_neg hD]
          exact ⟨st, rfl, he⟩

/-- The end of the line: the zero byte is written where it is. -/
theorem enter (he : Edits history buffer size lines s st e)
    (hapart : ∀ x, buffer ≤ x → x < buffer + size → ¬ InHistory history x) :
    Edits history buffer size lines s
      { (st.print [0x0A]).setMemory (st.shell.memory.store8 (buffer + st.length) 0) with
        phase := .done } { e with phase := .done } := by
  have hsame : st.shell.memory.store8 (buffer + st.length) 0 = st.shell.memory := by
    funext x
    by_cases hx : x = buffer + st.length
    · rw [hx, Mem.store8_in, he.nul]
    · exact Mem.store8_out hx
  refine he.rewrite hapart rfl (fun x _ => congrFun hsame x) ?_ he.length he.cursor he.nav rfl
    he.fits he.navLe
  show (st.shell.memory.store8 (buffer + st.length) 0).HasString buffer e.text
  rw [hsame]
  exact he.text

/-- **One character.** -/
theorem readChar (he : Edits history buffer size lines s st e) (hbuffer : buffer ≠ 0)
    (hapart : ∀ x, buffer ≤ x → x < buffer + size → ¬ InHistory history x) (hsize : 0 < size)
    (hlarge : lines ≠ [] → shellLineMax ≤ size) (hfuel : shellLineMax ≤ fuel) (hc : c ≠ 0) :
    ∃ st', shellReadChar fuel history prompt buffer size st c = some st' ∧
      Edits history buffer size lines s st' (e.step size lines c) := by
  unfold shellReadChar Editor.step
  rw [he.phase]
  cases hphase : e.phase with
  | char =>
    by_cases hn : c = 0x0A
    · rw [if_pos hn, if_pos hn]
      exact ⟨_, rfl, he.enter hapart⟩
    · rw [if_neg hn, if_neg hn]
      by_cases hb : c = 0x08
      · rw [if_pos hb, if_pos hb]
        exact ⟨_, rfl, he.delete hapart⟩
      · rw [if_neg hb, if_neg hb]
        by_cases hesc : c = 0x1B
        · rw [if_pos hesc, if_pos hesc]
          exact ⟨_, rfl, he.setPhase .bracket⟩
        · rw [if_neg hesc, if_neg hesc]
          exact ⟨_, rfl, he.insert hapart hc⟩
  | bracket => exact ⟨_, rfl, he.setPhase _⟩
  | final => exact (he.setPhase .char).final hbuffer hapart hsize hlarge hfuel c
  | done => exact ⟨st, rfl, he⟩

end Edits

/-! ## All characters -/

section

variable {fuel history size : ℕ} {prompt : List UInt8} {lines : List (List UInt8)} {s : Shell}

/-- The state before the first character. -/
theorem edits_start (prompt : List UInt8) (h : HistoryIs history s lines)
    (hapart : ∀ x, buffer ≤ x → x < buffer + size → ¬ InHistory history x) (hsize : 0 < size) :
    Edits history buffer size lines s (shellReadStart prompt buffer s) (emptyLine lines) where
  text := Mem.hasString_nil.2 (Mem.store8_in ..)
  length := rfl
  cursor := rfl
  nav := h.count
  phase := rfl
  fits := hsize
  navLe := le_rfl
  history := h.congr fun x hx => Mem.store8_out fun hb => hapart x (by omega) (by omega) hx
  frame x hx := Mem.store8_out (by omega)

/-- Any characters. -/
theorem edits_run {st : LineState} {e : Editor} (he : Edits history buffer size lines s st e)
    (hbuffer : buffer ≠ 0) (hapart : ∀ x, buffer ≤ x → x < buffer + size → ¬ InHistory history x)
    (hsize : 0 < size)
    (hlarge : lines ≠ [] → shellLineMax ≤ size) (hfuel : shellLineMax ≤ fuel)
    {input : List UInt8} (h0 : 0 ∉ input) :
    ∃ st', input.foldlM (shellReadChar fuel history prompt buffer size) st = some st' ∧
      Edits history buffer size lines s st' (input.foldl (fun e c => e.step size lines c) e) := by
  induction input generalizing st e with
  | nil => exact ⟨st, rfl, he⟩
  | cons c input ih =>
    rw [List.mem_cons, not_or] at h0
    obtain ⟨st₁, hstep, he₁⟩ := he.readChar hbuffer hapart hsize hlarge hfuel (Ne.symm h0.1)
    obtain ⟨st', hrun, he'⟩ := ih he₁ h0.2
    refine ⟨st', ?_, he'⟩
    rw [List.foldlM_cons, hstep]
    exact hrun

/-- **The line editor refines an editor on a list with a cursor**: for any characters, the
buffer holds its text and ends with it, the cursor is where it is, all stays in bounds, and
both ways to insert at the end are one.  When the line is complete, it is added to the
history, if it is short enough for it. -/
theorem shell_read_line_refines (prompt : List UInt8) (h : HistoryIs history s lines)
    (hbuffer : buffer ≠ 0) (hapart : ∀ x, buffer ≤ x → x < buffer + size → ¬ InHistory history x)
    (hsize : 2 ≤ size)
    (hlarge : lines ≠ [] → shellLineMax ≤ size) {input : List UInt8} (h0 : 0 ∉ input) :
    ∃ rounds, ∀ fuel ≥ rounds, ∃ st e,
      shellReadLoop fuel history prompt buffer size s input = some st ∧
      e = input.foldl (fun e c => e.step size lines c) (emptyLine lines) ∧
      Edits history buffer size lines s st e ∧
      st.cursor ≤ st.length ∧ st.length < size ∧ st.nav ≤ st.shell.historyCount ∧
      st.shell.memory (buffer + st.length) = 0 ∧
      (∀ m length ch, appendChar buffer m length ch = insertChar buffer m length length ch) ∧
      (st.phase = .done → st.length < shellLineMax → ∃ st',
        shellReadLine fuel history prompt buffer size s input = some st' ∧
        st'.shell.memory.HasString buffer e.text ∧
        HistoryIs history st'.shell (addLine lines e.text)) := by
  refine ⟨shellLineMax, fun fuel hfuel => ?_⟩
  obtain ⟨st, hrun, he⟩ := edits_run (edits_start prompt h hapart (by omega)) hbuffer
    hapart (by omega) hlarge hfuel h0
  generalize hfold : input.foldl (fun e c => e.step size lines c) (emptyLine lines) = e at he
  refine ⟨st, e, hrun, rfl, he, he.cursor_le, he.fits, he.navLe, he.nul,
    appendChar_eq_insertChar buffer, fun hdone hshort => ?_⟩
  have hfits := he.fits
  rw [he.length] at hshort hfits
  have hout : ∀ x, buffer ≤ x → x ≤ buffer + e.text.length → ¬ InHistory history x :=
    fun x hx hx' => hapart x hx (by omega)
  obtain ⟨s', hadd, hs', hframe⟩ := shellHistoryAdd_spec he.history hfuel he.text hshort hout
  refine ⟨{ st with shell := s' }, ?_, ?_, hs'⟩
  · simp only [shellReadLine, shellReadLoop, hrun, hdone, Option.bind_eq_bind, Option.bind_some,
      if_true, hadd]
    rfl
  · exact he.text.congr fun x hx hx' => hframe x (hout x hx hx')

/-- `ab`, one step to the left, `c`, and Enter: the line is `acb`. -/
theorem shell_read_line_acb :
    ∃ rounds, ∀ fuel ≥ rounds, ∃ st,
      shellReadLine fuel 0 [0x3E, 0x20] 4096 256 ⟨fun _ => 0, 0⟩
        [0x61, 0x62, 0x1B, 0x5B, 0x44, 0x63, 0x0A] = some st ∧
      HistoryIs 0 st.shell [[0x61, 0x63, 0x62]] := by
  have hstart : HistoryIs 0 ⟨fun _ => 0, 0⟩ [] :=
    ⟨rfl, Nat.zero_le _, fun _ h => absurd h List.not_mem_nil,
      fun _ h => absurd h (Nat.not_lt_zero _)⟩
  have hapart : ∀ x, 4096 ≤ x → x < 4096 + 256 → ¬ InHistory 0 x := by
    intro x hx _ hin
    exact absurd hin.2 (by unfold shellLineMax shellHistoryMax; omega)
  obtain ⟨rounds, hrun⟩ := shell_read_line_refines [0x3E, 0x20] hstart (by decide) hapart
    (by decide) (fun h => absurd rfl h)
    (by decide : (0 : UInt8) ∉ [0x61, 0x62, 0x1B, 0x5B, 0x44, 0x63, 0x0A])
  refine ⟨rounds, fun fuel hfuel => ?_⟩
  obtain ⟨st, e, -, rfl, he, -, -, -, -, -, hdone⟩ := hrun fuel hfuel
  obtain ⟨st', hline, -, hhistory⟩ := hdone he.phase (by rw [he.length]; decide)
  exact ⟨st', hline, hhistory⟩

end

end Ttos
