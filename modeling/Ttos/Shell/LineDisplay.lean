/-
  What the terminal shows of the line being edited: `shell_read_line` (userland/shell) prints,
  and the terminal renders it.

  * `Drawn`: what the function prints for one character, by what the character does to the
    editor;
  * `Drawn.shows`: rendered, it takes the row from the old line to the new one;
  * `shell_line_shown`: for any characters the row shows the prompt and the line, with the
    terminal's cursor at the editor's.
-/
import Ttos.Io.TtyRow
import Ttos.Shell.LineEditorSpec
import Mathlib.Data.List.GetD

namespace Ttos

/-! ## Numbers in escape sequences -/

/-- The digits of a number, the first one first. -/
def Digits.ofNat (n : ℕ) : Digits := (Nat.digits 10 n).reverse.map (Fin.ofNat 10)

theorem Digits.value_ofNat (n : ℕ) : (Digits.ofNat n).value = n := by
  have hfold (ds : List ℕ) (hds : ∀ d ∈ ds, d < 10) :
      (ds.reverse.map (Fin.ofNat 10)).foldl (fun n (d : Fin 10) => n * 10 + d.val) 0 =
        Nat.ofDigits 10 ds := by
    induction ds with
    | nil => rfl
    | cons d ds ih =>
      have hd : d % 10 = d := Nat.mod_eq_of_lt (hds d List.mem_cons_self)
      rw [List.reverse_cons, List.map_append, List.foldl_append,
        ih fun d hd => hds d (List.mem_cons_of_mem _ hd), Nat.ofDigits_cons]
      show Nat.ofDigits 10 ds * 10 + d % 10 = _
      rw [hd, Nat.mul_comm, Nat.add_comm]
  rw [Digits.value, Digits.ofNat, hfold _ fun d hd => Nat.digits_lt_base (by decide) hd,
    Nat.ofDigits_digits]

/-- What `%d` prints of a positive number are its digits. -/
theorem itoaText_eq_digits {n : ℕ} (h0 : n ≠ 0) (hn : n < 2147483648) :
    itoaText n 10 = (Digits.ofNat n).map digitByte := by
  rw [itoaText, if_neg h0, if_neg (by omega), digitChars, Digits.ofNat, List.map_map,
    ← List.map_reverse]
  refine List.map_congr_left fun d hd => ?_
  have hlt : d < 10 := Nat.digits_lt_base (by decide) (List.mem_reverse.1 hd)
  show UInt8.ofNat _ = UInt8.ofNat (0x30 + d % 10)
  rw [if_pos hlt, Nat.mod_eq_of_lt hlt]

/-! ## The whole line again -/

/-- What `shell_redraw` prints of an editor. -/
def Editor.redraw (prompt : List UInt8) (e : Editor) : List UInt8 :=
  0x0D :: prompt ++ e.text ++ [0x1B, 0x5B, 0x4B] ++
    if e.before.length < e.text.length then
      [0x1B, 0x5B] ++ itoaText (e.text.length - e.before.length) 10 ++ [0x44]
    else []

/-- The row shows the prompt and the line of the editor, the cursor is at its cursor. -/
abbrev ShowsEditor (base : Tty) (row : ℕ) (prompt : List UInt8) (e : Editor) (t : Tty) : Prop :=
  ShowsRow base row (lineOf (prompt ++ e.text)) (prompt.length + e.before.length) t

/-- A line that fits into the row behind the prompt, of characters that are printed. -/
structure Editor.Showable (base : Tty) (prompt : List UInt8) (e : Editor) : Prop where
  fits : prompt.length + e.text.length < base.columns
  glyphs : ∀ ch ∈ e.text, Glyph ch

variable {base t : Tty} {row x : ℕ} {line : ℕ → UInt8} {prompt : List UInt8} {e e' : Editor}

theorem Editor.before_le (e : Editor) : e.before.length ≤ e.text.length := by
  rw [Editor.text, List.length_append, List.length_reverse]
  exact Nat.le_add_right _ _

theorem ShowsRow.redraw (h : ShowsRow base row line x t) (hs : ScreenRow base row)
    (hx : x < base.columns) (hp : ∀ ch ∈ prompt, Glyph ch) (he : e.Showable base prompt) :
    ShowsEditor base row prompt e ((e.redraw prompt).foldl ttyRender t) := by
  obtain ⟨hfits, hglyphs⟩ := he
  have hbefore := e.before_le
  have hcells := hs.cells_le
  have hend := hs.end_le
  have hlength : (prompt ++ e.text).length = prompt.length + e.text.length := List.length_append
  have hreturn := h.carriageReturn hs hx
  have htext := hreturn.glyphs hs (prompt ++ e.text) (by omega) (by
    intro ch hch
    rcases List.mem_append.1 hch with hch | hch
    · exact hp ch hch
    · exact hglyphs ch hch)
  have herase := htext.erase hs (by omega)
  rw [Nat.zero_add, hlength] at herase
  -- the row is written, with the cursor behind the text
  have hline : ∀ i < base.columns, lineOf (prompt ++ e.text) i =
      if prompt.length + e.text.length ≤ i then 0x20
      else if i < 0 then line i else (prompt ++ e.text).getD (i - 0) (line i) := by
    intro i _
    by_cases hi : prompt.length + e.text.length ≤ i
    · rw [if_pos hi, lineOf, List.getD_eq_default _ _ (by omega)]
    · have hlt : i < (prompt ++ e.text).length := by omega
      rw [if_neg hi, if_neg (Nat.not_lt_zero i), Nat.sub_zero, lineOf, List.getD_eq_getElem _ _ hlt,
        List.getD_eq_getElem _ _ hlt]
  have hwritten := herase.congr hline
  have hfold : (e.redraw prompt).foldl ttyRender t =
      (if e.before.length < e.text.length then
        [0x1B, 0x5B] ++ itoaText (e.text.length - e.before.length) 10 ++ [0x44] else []).foldl
        ttyRender ([0x1B, 0x5B, 0x4B].foldl ttyRender
          ((prompt ++ e.text).foldl ttyRender (ttyRender t 0x0D))) := by
    rw [Editor.redraw, List.foldl_append, List.foldl_append, List.cons_append]
    rfl
  rw [hfold]
  split_ifs with hback
  · have hdigits := itoaText_eq_digits (n := e.text.length - e.before.length) (by omega) (by omega)
    have hmoved := hwritten.back hs (by omega) (Digits.ofNat (e.text.length - e.before.length))
      (by rw [Digits.value_ofNat]; omega)
    rw [Digits.value_ofNat] at hmoved
    rw [hdigits]
    have hx' : prompt.length + e.text.length - max (e.text.length - e.before.length) 1 =
        prompt.length + e.before.length := by omega
    rw [hx'] at hmoved
    exact hmoved
  · have hx' : prompt.length + e.text.length = prompt.length + e.before.length := by omega
    rw [hx'] at hwritten
    exact hwritten

/-! ## One character -/

/-- What `shell_read_line` prints when a character takes the editor from `e` to `e'`. -/
inductive Drawn (prompt : List UInt8) (e e' : Editor) : List UInt8 → Prop
  | nothing (htext : e'.text = e.text) (hcursor : e'.before.length = e.before.length) :
      Drawn prompt e e' []
  | echo (ch : UInt8) (htext : e'.text = e.text ++ [ch])
      (hend : e.before.length = e.text.length) (hcursor : e'.before.length = e.before.length + 1) :
      Drawn prompt e e' [ch]
  | forward (htext : e'.text = e.text) (hcursor : e'.before.length = e.before.length + 1) :
      Drawn prompt e e' [0x1B, 0x5B, 0x43]
  | back (htext : e'.text = e.text) (hcursor : e.before.length = e'.before.length + 1) :
      Drawn prompt e e' [0x1B, 0x5B, 0x44]
  | redraw : Drawn prompt e e' (e'.redraw prompt)

theorem Drawn.congr {e₁ : Editor} {out : List UInt8} (hd : Drawn prompt e₁ e' out)
    (htext : e₁.text = e.text) (hcursor : e₁.before.length = e.before.length) :
    Drawn prompt e e' out := by
  cases hd with
  | nothing h1 h2 => exact .nothing (h1.trans htext) (h2.trans hcursor)
  | echo ch h1 h2 h3 =>
    exact .echo ch (by rw [h1, htext]) (by rw [← hcursor, ← htext, h2]) (by rw [h3, hcursor])
  | forward h1 h2 => exact .forward (h1.trans htext) (by rw [h2, hcursor])
  | back h1 h2 => exact .back (h1.trans htext) (by rw [← hcursor, h2])
  | redraw => exact .redraw

/-- **What is printed takes the row from the old line to the new one.** -/
theorem Drawn.shows {out : List UInt8} (hd : Drawn prompt e e' out) (hs : ScreenRow base row)
    (hp : ∀ ch ∈ prompt, Glyph ch) (he : e.Showable base prompt) (he' : e'.Showable base prompt)
    (h : ShowsEditor base row prompt e t) :
    ShowsEditor base row prompt e' (out.foldl ttyRender t) := by
  have hbefore := e.before_le
  have hbefore' := e'.before_le
  have hfits := he.fits
  have hfits' := he'.fits
  cases hd with
  | nothing htext hcursor =>
    rw [ShowsEditor, htext, hcursor]
    exact h
  | echo ch htext hend hcursor =>
    have hlength : e'.text.length = e.text.length + 1 := by
      rw [htext, List.length_append, List.length_singleton]
    have hglyph : Glyph ch := he'.glyphs ch (by rw [htext]; exact List.mem_append_right _ List.mem_cons_self)
    have hprinted := h.glyph hs (by omega) hglyph
    rw [ShowsEditor, hcursor, htext, ← List.append_assoc]
    refine hprinted.congr fun i _ => ?_
    have hlen : (prompt ++ e.text).length = prompt.length + e.before.length := by
      rw [List.length_append, hend]
    rw [← hlen]
    rcases lt_trichotomy i (prompt ++ e.text).length with hlt | rfl | hgt
    · rw [Function.update_of_ne hlt.ne, lineOf, lineOf, List.getD_append _ _ _ _ hlt]
    · rw [Function.update_self, lineOf, List.getD_append_right _ _ _ _ le_rfl, Nat.sub_self]
      rfl
    · rw [Function.update_of_ne hgt.ne', lineOf, lineOf,
        List.getD_eq_default _ _ (by rw [List.length_append, List.length_singleton]; omega),
        List.getD_eq_default _ _ hgt.le]
  | forward htext hcursor =>
    rw [htext] at hfits' hbefore'
    rw [ShowsEditor, htext, hcursor, ← Nat.add_assoc]
    exact h.forward hs (by omega)
  | back htext hcursor =>
    have hmoved := h.back hs (by omega) [] (by decide)
    have hx : prompt.length + e.before.length - max (Digits.value []) 1 =
        prompt.length + e'.before.length := by
      show _ - 1 = _
      omega
    rw [hx] at hmoved
    rw [ShowsEditor, htext]
    exact hmoved
  | redraw => exact h.redraw hs (by omega) hp he'

/-! ## What is printed -/

section

variable {fuel history size buffer : ℕ} {lines : List (List UInt8)} {s : Shell}
  {st st' : LineState} {c : UInt8}

/-- The state `st'` has printed what takes the editor from `e` to `e'`. -/
def Prints (prompt : List UInt8) (e e' : Editor) (st st' : LineState) : Prop :=
  ∃ out, st'.printed = st.printed ++ out ∧ Drawn prompt e e' out

theorem prints_nothing (htext : e'.text = e.text) (hcursor : e'.before.length = e.before.length)
    (hprinted : st'.printed = st.printed) : Prints prompt e e' st st' :=
  ⟨[], by rw [hprinted, List.append_nil], .nothing htext hcursor⟩

/-- The redrawn line, on the memory of the function. -/
theorem prints_redraw (he' : Edits history buffer size lines s st' e') (hfuel : size ≤ fuel)
    (hprinted : st'.printed = st.printed ++
      shellRedraw fuel prompt buffer st'.shell.memory st'.length st'.cursor) :
    Prints prompt e e' st st' := by
  have hlength : e'.text.length < fuel := by
    rw [← he'.length]
    exact he'.fits.trans_le hfuel
  have hredraw : shellRedraw fuel prompt buffer st'.shell.memory st'.length st'.cursor =
      e'.redraw prompt := by
    rw [shellRedraw, Mem.string_of_hasString he'.text hlength, he'.length, he'.cursor]
    rfl
  exact ⟨_, hprinted.trans (by rw [hredraw]), .redraw⟩

namespace Edits

theorem prints_delete (he : Edits history buffer size lines s st e)
    (hapart : ∀ x, buffer ≤ x → x < buffer + size → ¬ InHistory history x) (hfuel : size ≤ fuel) :
    Prints prompt e e.delete st (shellDelete fuel prompt buffer st) := by
  by_cases h0 : 0 < st.cursor
  · refine prints_redraw (he.delete hapart) hfuel ?_
    rw [shellDelete, if_pos h0]
    rfl
  · have hnil : e.before = [] := List.length_eq_zero_iff.1 (by rw [← he.cursor]; omega)
    have hsame : e.delete = e := by
      rw [Editor.delete, hnil, List.tail_nil, ← hnil]
    rw [hsame, shellDelete, if_neg h0]
    exact prints_nothing rfl rfl rfl

theorem prints_insert (he : Edits history buffer size lines s st e)
    (hapart : ∀ x, buffer ≤ x → x < buffer + size → ¬ InHistory history x) (hfuel : size ≤ fuel)
    (hc : c ≠ 0) :
    Prints prompt e (e.insert size c) st (shellInsert fuel prompt buffer size st c) := by
  have he' : Edits history buffer size lines s (shellInsert fuel prompt buffer size st c)
    (e.insert size c) := he.insert hapart hc
  by_cases hroom : st.length + 1 < size
  · have hroom' : e.text.length + 1 < size := by rwa [← he.length]
    by_cases hend : st.cursor = st.length
    · have hafter : e.after = [] := by
        have hcursor := he.cursor
        have hlength := he.length
        rw [Editor.text, List.length_append, List.length_reverse] at hlength
        exact List.length_eq_zero_iff.1 (by omega)
      refine ⟨[c], ?_, .echo c ?_ ?_ ?_⟩
      · rw [shellInsert, if_pos hroom, if_pos hend]
        rfl
      · rw [Editor.insert, if_pos hroom', Editor.text, Editor.text]
        show (c :: e.before).reverse ++ e.after = e.before.reverse ++ e.after ++ [c]
        rw [hafter, List.reverse_cons, List.append_nil, List.append_nil]
      · rw [← he.cursor, ← he.length, hend]
      · rw [Editor.insert, if_pos hroom']
        rfl
    · refine prints_redraw he' hfuel ?_
      rw [shellInsert, if_pos hroom, if_neg hend]
      rfl
  · have hsame : e.insert size c = e := if_neg (by rwa [← he.length])
    rw [hsame, shellInsert, if_neg hroom]
    exact prints_nothing rfl rfl rfl

theorem prints_recall {nav : ℕ} (hrecall : shellRecall fuel history prompt buffer st nav = some st')
    (he' : Edits history buffer size lines s st' e') (hfuel : size ≤ fuel) :
    Prints prompt e e' st st' := by
  refine prints_redraw he' hfuel ?_
  rw [shellRecall] at hrecall
  obtain ⟨m, -, hrecall⟩ := Option.bind_eq_some_iff.1 hrecall
  obtain ⟨length, -, hrecall⟩ := Option.bind_eq_some_iff.1 hrecall
  rw [← Option.some.inj hrecall]
  rfl

theorem prints_right (he : Edits history buffer size lines s st e) :
    Prints prompt e e.right st (if st.cursor < st.length then
      { st with cursor := st.cursor + 1 }.print [0x1B, 0x5B, 0x43] else st) := by
  obtain ⟨before, after, nav, phase⟩ := e
  have hcursor : st.cursor = before.length := he.cursor
  have hlength : st.length = (before.reverse ++ after).length := he.length
  rw [List.length_append, List.length_reverse] at hlength
  cases after with
  | nil =>
    rw [List.length_nil] at hlength
    rw [if_neg (by omega)]
    exact prints_nothing rfl rfl rfl
  | cons c after =>
    rw [List.length_cons] at hlength
    rw [if_pos (by omega)]
    refine ⟨_, rfl, .forward ?_ rfl⟩
    show (c :: before).reverse ++ after = before.reverse ++ c :: after
    rw [List.reverse_cons, List.append_assoc, List.singleton_append]

theorem prints_left (he : Edits history buffer size lines s st e) :
    Prints prompt e e.left st (if 0 < st.cursor then
      { st with cursor := st.cursor - 1 }.print [0x1B, 0x5B, 0x44] else st) := by
  obtain ⟨before, after, nav, phase⟩ := e
  have hcursor : st.cursor = before.length := he.cursor
  cases before with
  | nil =>
    rw [List.length_nil] at hcursor
    rw [if_neg (by omega)]
    exact prints_nothing rfl rfl rfl
  | cons c before =>
    rw [List.length_cons] at hcursor
    rw [if_pos (by omega)]
    refine ⟨_, rfl, .back ?_ rfl⟩
    show before.reverse ++ c :: after = (c :: before).reverse ++ after
    rw [List.reverse_cons, List.append_assoc, List.singleton_append]

theorem prints_final (he : Edits history buffer size lines s st e) {e' : Editor}
    (hfinal : shellFinal fuel history prompt buffer st c = some st')
    (he' : Edits history buffer size lines s st' e') (hfuel : size ≤ fuel)
    (hstep : e' = if c = 0x41 then e.up lines else if c = 0x42 then e.down lines
      else if c = 0x43 then e.right else if c = 0x44 then e.left else e) :
    Prints prompt e e' st st' := by
  have hcount := he.history.count
  have hnav := he.nav
  unfold shellFinal at hfinal
  split_ifs at hfinal hstep with hA hup hB hdown hC hright hD hleft
  · exact prints_recall hfinal he' hfuel
  · rw [hstep, Editor.up, if_neg (by rwa [← hnav]), ← Option.some.inj hfinal]
    exact prints_nothing rfl rfl rfl
  · exact prints_recall hfinal he' hfuel
  · rw [hstep, Editor.down, if_neg (by rwa [← hnav, ← hcount]), ← Option.some.inj hfinal]
    exact prints_nothing rfl rfl rfl
  · have h : Prints prompt e e.right st _ := he.prints_right
    rw [if_pos hright] at h
    rw [hstep, ← Option.some.inj hfinal]
    exact h
  · have h : Prints prompt e e.right st _ := he.prints_right
    rw [if_neg hright] at h
    rw [hstep, ← Option.some.inj hfinal]
    exact h
  · have h : Prints prompt e e.left st _ := he.prints_left
    rw [if_pos hleft] at h
    rw [hstep, ← Option.some.inj hfinal]
    exact h
  · have h : Prints prompt e e.left st _ := he.prints_left
    rw [if_neg hleft] at h
    rw [hstep, ← Option.some.inj hfinal]
    exact h
  · rw [hstep, ← Option.some.inj hfinal]
    exact prints_nothing rfl rfl rfl

/-- **One character prints** what its step of the editor asks for. -/
theorem prints_readChar (he : Edits history buffer size lines s st e)
    (hapart : ∀ x, buffer ≤ x → x < buffer + size → ¬ InHistory history x) (hfuel : size ≤ fuel)
    (hc : c ≠ 0) (hread : shellReadChar fuel history prompt buffer size st c = some st')
    (he' : Edits history buffer size lines s st' (e.step size lines c))
    (hphase : (e.step size lines c).phase ≠ .done) :
    Prints prompt e (e.step size lines c) st st' := by
  unfold shellReadChar at hread
  rw [he.phase] at hread
  unfold Editor.step at he' hphase ⊢
  cases hp : e.phase with
  | char =>
    rw [hp] at hread he' hphase
    dsimp only at hread he' hphase ⊢
    split_ifs at hread he' hphase ⊢ with hn hb hesc
    · exact absurd rfl hphase
    · rw [← Option.some.inj hread]
      exact he.prints_delete hapart hfuel
    · rw [← Option.some.inj hread]
      exact prints_nothing rfl rfl rfl
    · rw [← Option.some.inj hread]
      exact he.prints_insert hapart hfuel hc
  | bracket =>
    rw [hp] at hread
    rw [← Option.some.inj hread]
    exact prints_nothing rfl rfl rfl
  | final =>
    rw [hp] at hread he'
    obtain ⟨out, hprinted, hdrawn⟩ := (he.setPhase .char).prints_final hread he' hfuel rfl
    exact ⟨out, hprinted, hdrawn.congr rfl rfl⟩
  | done =>
    rw [hp] at hphase
    exact absurd hp hphase

end Edits

/-! ## All characters -/

/-- A character of the terminal's input that is neither a tabulator nor a carriage return. -/
def LineInput (c : UInt8) : Prop := c ≠ 0 ∧ c ≠ 0x09 ∧ c ≠ 0x0D

instance (c : UInt8) : Decidable (LineInput c) := inferInstanceAs (Decidable (_ ∧ _))

theorem Editor.mem_text {ch : UInt8} (e : Editor) : ch ∈ e.text ↔ ch ∈ e.before ∨ ch ∈ e.after := by
  rw [Editor.text, List.mem_append, List.mem_reverse]

/-- The characters of the line are printed, those of the history and of the input being so. -/
theorem glyphs_step (hg : ∀ ch ∈ e.text, Glyph ch) (hlines : ∀ l ∈ lines, ∀ ch ∈ l, Glyph ch)
    (hc : LineInput c) : ∀ ch ∈ (e.step size lines c).text, Glyph ch := by
  obtain ⟨before, after, nav, phase⟩ := e
  have hrecalled (i : ℕ) : ∀ ch ∈ ((⟨before, after, nav, .char⟩ : Editor).recalled lines i).text,
      Glyph ch := by
    intro ch hch
    rw [Editor.recalled, Editor.text, List.reverse_reverse, List.append_nil] at hch
    cases hl : lines[i]? with
    | none =>
      rw [hl] at hch
      cases hch
    | some l =>
      rw [hl] at hch
      exact hlines l (List.mem_of_getElem? hl) ch hch
  unfold Editor.step
  cases phase with
  | char =>
    dsimp only
    split_ifs with hn hb hesc
    · exact hg
    · intro ch hch
      rcases (Editor.mem_text _).1 hch with hch | hch
      · exact hg ch ((Editor.mem_text _).2 (Or.inl (List.mem_of_mem_tail hch)))
      · exact hg ch ((Editor.mem_text _).2 (Or.inr hch))
    · exact hg
    · unfold Editor.insert
      split_ifs
      · intro ch hch
        rcases (Editor.mem_text _).1 hch with hch | hch
        · rcases List.mem_cons.1 hch with rfl | hch
          · exact ⟨hb, hc.2.1, hn, hc.2.2, hesc⟩
          · exact hg ch ((Editor.mem_text _).2 (Or.inl hch))
        · exact hg ch ((Editor.mem_text _).2 (Or.inr hch))
      · exact hg
  | bracket => exact hg
  | final =>
    dsimp only
    split_ifs
    · unfold Editor.up
      split_ifs
      · exact hrecalled _
      · exact hg
    · unfold Editor.down
      split_ifs
      · exact hrecalled _
      · exact hg
    · cases after with
      | nil => exact hg
      | cons a after =>
        intro ch hch
        refine hg ch ?_
        show ch ∈ before.reverse ++ a :: after
        have hch' : ch ∈ (a :: before).reverse ++ after := hch
        rwa [List.reverse_cons, List.append_assoc, List.singleton_append] at hch'
    · cases before with
      | nil => exact hg
      | cons b before =>
        intro ch hch
        refine hg ch ?_
        show ch ∈ (b :: before).reverse ++ after
        rw [List.reverse_cons, List.append_assoc, List.singleton_append]
        exact hch
    · exact hg
  | done => exact hg

/-- The step of an editor that is done. -/
theorem step_done (h : e.phase = .done) : e.step size lines c = e := by
  unfold Editor.step
  rw [h]

/-- **Any characters**, from a state whose line the row shows. -/
theorem shows_run (hs : ScreenRow base row) (hp : ∀ ch ∈ prompt, Glyph ch)
    (hlines : ∀ l ∈ lines, ∀ ch ∈ l, Glyph ch) (hbuffer : buffer ≠ 0)
    (hapart : ∀ x, buffer ≤ x → x < buffer + size → ¬ InHistory history x) (hsize : 0 < size)
    (hlarge : lines ≠ [] → shellLineMax ≤ size) (hfuel : shellLineMax ≤ fuel) (hfuel' : size ≤ fuel)
    (he : Edits history buffer size lines s st e) (hg : ∀ ch ∈ e.text, Glyph ch)
    (hshows : e.phase ≠ .done → ShowsEditor base row prompt e (st.printed.foldl ttyRender base))
    {input : List UInt8} (hinput : ∀ c ∈ input, LineInput c)
    (hfits : ∀ typed, typed <+: input → prompt.length +
      (typed.foldl (fun e c => e.step size lines c) e).text.length < base.columns) :
    ∃ st', input.foldlM (shellReadChar fuel history prompt buffer size) st = some st' ∧
      Edits history buffer size lines s st' (input.foldl (fun e c => e.step size lines c) e) ∧
      ((input.foldl (fun e c => e.step size lines c) e).phase ≠ .done →
        ShowsEditor base row prompt (input.foldl (fun e c => e.step size lines c) e)
          (st'.printed.foldl ttyRender base)) := by
  induction input generalizing st e with
  | nil => exact ⟨st, rfl, he, hshows⟩
  | cons c input ih =>
    have hc := hinput c List.mem_cons_self
    obtain ⟨st₁, hread, he₁⟩ := he.readChar hbuffer hapart hsize hlarge hfuel hc.1
    have hg₁ : ∀ ch ∈ (e.step size lines c).text, Glyph ch := glyphs_step hg hlines hc
    have hfit : prompt.length + e.text.length < base.columns := hfits [] List.nil_prefix
    have hfit₁ : prompt.length + (e.step size lines c).text.length < base.columns :=
      hfits [c] ⟨input, rfl⟩
    have hshows₁ : (e.step size lines c).phase ≠ .done → ShowsEditor base row prompt
        (e.step size lines c) (st₁.printed.foldl ttyRender base) := by
      intro hphase
      have hphase₀ : e.phase ≠ .done := fun hdone => hphase (by rw [step_done hdone, hdone])
      obtain ⟨out, hprinted, hdrawn⟩ := he.prints_readChar hapart hfuel' hc.1 hread he₁ hphase
      rw [hprinted, List.foldl_append]
      exact hdrawn.shows hs hp ⟨hfit, hg⟩ ⟨hfit₁, hg₁⟩ (hshows hphase₀)
    obtain ⟨st', hrun, he', hshows'⟩ := ih he₁ hg₁ hshows₁
      (fun c hc => hinput c (List.mem_cons_of_mem _ hc))
      fun typed htyped => hfits (c :: typed) (List.prefix_cons_inj c |>.2 htyped)
    refine ⟨st', ?_, he', hshows'⟩
    rw [List.foldlM_cons, hread]
    exact hrun

/-- The cursor at the beginning of a blank row. -/
structure BlankRow (t : Tty) : Prop where
  ansi : t.ansiState = .normal
  cursorX : t.cursorX = 0
  screen : ScreenRow t t.cursorY
  location : t.location = t.cursorY * t.columns
  blank : ∀ x < t.columns,
    t.memory (t.cursorY * t.columns + x) = vgaTmEntry 0x20 t.fgcolor t.bgcolor

theorem BlankRow.shows (h : BlankRow t) : ShowsRow t t.cursorY (lineOf []) 0 t := by
  refine ⟨h.ansi, rfl, rfl, rfl, h.cursorX, rfl, h.location, ?_⟩
  funext cell
  unfold Tty.withLine
  split_ifs with hin
  · have hcell := h.blank (cell - t.cursorY * t.columns) (by omega)
    rw [Nat.add_sub_cancel' hin.1] at hcell
    exact hcell
  · rfl

/-- The row of the cursor shows the line of the editor behind the prompt, the rest of the screen
is as it was on `base`, and the cursors of the terminal and of the hardware are at the editor's. -/
structure LineShown (base : Tty) (prompt line : List UInt8) (cursor : ℕ) (t : Tty) : Prop where
  row : ∀ x < base.columns, t.memory (base.cursorY * base.columns + x) =
    vgaTmEntry ((prompt ++ line).getD x 0x20) base.fgcolor base.bgcolor
  elsewhere : ∀ cell, cell < base.cursorY * base.columns ∨
    base.cursorY * base.columns + base.columns ≤ cell → t.memory cell = base.memory cell
  cursorX : t.cursorX = prompt.length + cursor
  cursorY : t.cursorY = base.cursorY
  location : t.location = base.cursorY * base.columns + t.cursorX

/-- **The terminal shows the line being edited.**  However it is typed, edited and recalled from
the history, as long as it stays within the row: the row shows the prompt and the line, blank
behind it, and the cursor is where the editor's is. -/
theorem shell_line_shown (t : IdleTty) (ht : BlankRow t.tty) (hp : ∀ ch ∈ prompt, Glyph ch)
    (h : HistoryIs history s lines) (hlines : ∀ l ∈ lines, ∀ ch ∈ l, Glyph ch)
    (hbuffer : buffer ≠ 0) (hapart : ∀ x, buffer ≤ x → x < buffer + size → ¬ InHistory history x)
    (hsize : 2 ≤ size)
    (hlarge : lines ≠ [] → shellLineMax ≤ size) {input : List UInt8}
    (hinput : ∀ c ∈ input, LineInput c)
    (hfits : ∀ typed, typed <+: input → prompt.length +
      (typed.foldl (fun e c => e.step size lines c) (emptyLine lines)).text.length <
        t.tty.columns) :
    ∃ rounds, ∀ fuel ≥ rounds, ∃ st e,
      shellReadLoop fuel history prompt buffer size s input = some st ∧
      e = input.foldl (fun e c => e.step size lines c) (emptyLine lines) ∧
      st.shell.memory.HasString buffer e.text ∧ st.cursor = e.before.length ∧
      (e.phase ≠ .done →
        LineShown t.tty prompt e.text e.before.length (ttyPuts t.tty st.printed)) := by
  refine ⟨max shellLineMax size, fun fuel hfuel => ?_⟩
  have hstart := edits_start prompt h hapart (by omega)
  have hempty : (emptyLine lines).text = [] := rfl
  have hfit : prompt.length < t.tty.columns := hfits [] List.nil_prefix
  -- the prompt is printed on the blank row
  have hprompt : ShowsEditor t.tty t.tty.cursorY prompt (emptyLine lines)
      (prompt.foldl ttyRender t.tty) := by
    have hprinted := ht.shows.glyphs ht.screen prompt (by omega) hp
    rw [Nat.zero_add] at hprinted
    rw [ShowsEditor, hempty, List.append_nil]
    refine hprinted.congr fun i _ => ?_
    rw [if_neg (Nat.not_lt_zero i)]
    rfl
  obtain ⟨st, hrun, he, hshows⟩ := shows_run ht.screen hp hlines hbuffer hapart (by omega) hlarge
    ((le_max_left _ _).trans hfuel) ((le_max_right _ _).trans hfuel) hstart
    (fun ch hch => absurd hch List.not_mem_nil) (fun _ => hprompt) hinput hfits
  refine ⟨st, _, hrun, rfl, he.text, he.cursor, fun hphase => ?_⟩
  obtain ⟨output, hputs⟩ := ttyPuts_eq t st.printed
  have hrow := ((hshows hphase).withOutput output).row
  rw [← hputs] at hrow
  refine ⟨fun x hx => ?_, fun cell hcell => ?_, ?_, hrow.cursorY, ?_⟩
  · rw [hrow.memory, Tty.withLine, if_pos (by omega), Nat.add_sub_cancel_left]
    rfl
  · rw [hrow.memory, Tty.withLine, if_neg (by omega)]
  · exact hrow.cursorX
  · rw [hrow.location, hrow.cursorX]

/-- A new terminal. -/
def blankScreen : IdleTty :=
  IdleTty.create ⟨80, 25⟩ (fun _ => ⟨0x20, 0x0F⟩) 0 ttyKeyboardLayoutDeDE (fun _ => 0) fun _ => 0

/-- `ab`, one step to the left, `c`: the row shows `> acb`, with the cursor on the `b`. -/
theorem shell_line_shown_acb :
    ∃ rounds, ∀ fuel ≥ rounds, ∃ st,
      shellReadLoop fuel 0 [0x3E, 0x20] 4096 256 ⟨fun _ => 0, 0⟩
        [0x61, 0x62, 0x1B, 0x5B, 0x44, 0x63] = some st ∧
      LineShown blankScreen.tty [0x3E, 0x20] [0x61, 0x63, 0x62] 2
        (ttyPuts blankScreen.tty st.printed) := by
  have hstart : HistoryIs 0 ⟨fun _ => 0, 0⟩ [] :=
    ⟨rfl, Nat.zero_le _, fun _ h => absurd h List.not_mem_nil,
      fun _ h => absurd h (Nat.not_lt_zero _)⟩
  have hapart : ∀ x, 4096 ≤ x → x < 4096 + 256 → ¬ InHistory 0 x := by
    intro x hx _ hin
    exact absurd hin.2 (by unfold shellLineMax shellHistoryMax; omega)
  have hblank : BlankRow blankScreen.tty :=
    ⟨rfl, rfl, ⟨by decide, by decide⟩, rfl, fun _ _ => rfl⟩
  have hglyph : ∀ ch ∈ ([0x3E, 0x20] : List UInt8), Glyph ch := by decide +kernel
  have hinput : ∀ c ∈ ([0x61, 0x62, 0x1B, 0x5B, 0x44, 0x63] : List UInt8), LineInput c := by decide +kernel
  obtain ⟨rounds, hrun⟩ := shell_line_shown blankScreen hblank hglyph hstart
    (fun _ h => absurd h List.not_mem_nil) (by decide) hapart (by decide) (fun h => absurd rfl h)
    hinput (by
      intro typed htyped
      revert typed
      simp only [← List.mem_inits]
      decide)
  refine ⟨rounds, fun fuel hfuel => ?_⟩
  obtain ⟨st, e, hread, rfl, -, -, hshown⟩ := hrun fuel hfuel
  exact ⟨st, hread, hshown (by decide)⟩

end

end Ttos
