/-
  Escape sequences that move the cursor.

  `csiBytes groups command`: ESC, a bracket, decimal parameters with semicolons between them,
  and the final byte.

  * `foldl_csi`: the terminal in front of the final byte, the parameters read modulo 2^32;
  * `csi_cursor_exact`: exactly when the cursor moves to where the numbers say;
  * `csi_cursor_wraps`: a parameter of ten digits.
-/
import Ttos.Io.Tty

namespace Ttos

/-! ## Sequences -/

/-- Decimal digits, the first one first. -/
abbrev Digits := List (Fin 10)

def digitByte (d : Fin 10) : UInt8 := UInt8.ofNat (0x30 + d.val)

/-- The number that digits stand for; no digits stand for 0. -/
def Digits.value (ds : Digits) : ℕ := ds.foldl (fun n (d : Fin 10) => n * 10 + d.val) 0

/-- The parameters: groups of digits with semicolons between them. -/
def paramBytes : List Digits → List UInt8
  | [] => []
  | [ds] => ds.map digitByte
  | ds :: dss => ds.map digitByte ++ 0x3B :: paramBytes dss

def csiBytes (groups : List Digits) (command : UInt8) : List UInt8 :=
  0x1B :: 0x5B :: (paramBytes groups ++ [command])

/-- The commands that move the cursor. -/
inductive CursorCommand where
  | position (f : Bool)
  | forward
  | back
deriving DecidableEq, Repr

/-- The final byte: `H` or `f`, `C`, `D`. -/
def CursorCommand.byte : CursorCommand → UInt8
  | position f => if f then 0x66 else 0x48
  | forward => 0x43
  | back => 0x44

/-- Parameter `i`, 0 if it is absent. -/
def paramValue (groups : List Digits) (i : ℕ) : ℕ := ((groups.map Digits.value)[i]?).getD 0

/-- Where the cursor is after a command, by the numbers. -/
def cursorAfter (t : Tty) (groups : List Digits) : CursorCommand → ℕ × ℕ
  | .position _ => (min (max (paramValue groups 1) 1) t.columns - 1,
      min (max (paramValue groups 0) 1) t.rows - 1)
  | .forward => (min (t.cursorX + max (paramValue groups 0) 1) (t.columns - 1), t.cursorY)
  | .back => (t.cursorX - max (paramValue groups 0) 1, t.cursorY)

/-! ## The parameters -/

namespace Tty

variable (t : Tty)

def withCurrent (n : ℕ) : Tty := { t with ansiCurrent := n }

/-- Keep a number as the next parameter, if there is room. -/
def keepParam (n : ℕ) : Tty := commitParam (t.withCurrent n)

/-- The parser behind the semicolon after the parameters `ns`. -/
def keepParams (ns : List ℕ) : Tty := ns.foldl (fun t n => (t.keepParam n).withCurrent 0) t

end Tty

theorem u32_digit (n d : ℕ) : u32 (u32 n * 10 + d) = u32 (n * 10 + d) := by
  unfold u32
  omega

theorem digitByte_mem (d : Fin 10) : 0x30 ≤ digitByte d ∧ digitByte d ≤ 0x39 := by
  revert d
  decide

theorem toNat_digitByte (d : Fin 10) : (digitByte d).toNat - 0x30 = d.val := by
  revert d
  decide

section
variable {t : Tty} {command : UInt8}

theorem ttyRender_digit (h : t.ansiState = .csi) (d : Fin 10) :
    ttyRender t (digitByte d) = t.withCurrent (u32 (t.ansiCurrent * 10 + d.val)) := by
  unfold ttyRender
  split
  · simp_all
  · simp_all
  · rw [if_pos (digitByte_mem d), toNat_digitByte]
    rfl

theorem ttyRender_semicolon (h : t.ansiState = .csi) :
    ttyRender t 0x3B = (commitParam t).withCurrent 0 := by
  rw [ttyRender, h]
  rfl

theorem ttyRender_final (h : t.ansiState = .csi) (c : CursorCommand) :
    ttyRender t c.byte = { ttyCsiDispatch (commitParam t) c.byte with ansiState := .normal } := by
  rw [ttyRender, h]
  cases c with
  | position f => cases f <;> rfl
  | forward => rfl
  | back => rfl

theorem foldl_digits (h : t.ansiState = .csi) (ds : Digits) (n : ℕ) :
    (ds.map digitByte).foldl ttyRender (t.withCurrent (u32 n)) =
      t.withCurrent (u32 (ds.foldl (fun n (d : Fin 10) => n * 10 + d.val) n)) := by
  induction ds generalizing n with
  | nil => rfl
  | cons d ds ih =>
    have hd : ttyRender (t.withCurrent (u32 n)) (digitByte d) =
        t.withCurrent (u32 (n * 10 + d.val)) := by
      rw [ttyRender_digit (t := t.withCurrent (u32 n)) h]
      exact congrArg t.withCurrent (u32_digit n d.val)
    rw [List.map_cons, List.foldl_cons, List.foldl_cons, hd]
    exact ih (n * 10 + d.val)

theorem foldl_group (h : t.ansiState = .csi) (h0 : t.ansiCurrent = 0) (ds : Digits) :
    (ds.map digitByte).foldl ttyRender t = t.withCurrent (u32 ds.value) := by
  have ht : t = t.withCurrent (u32 0) := by
    rw [u32_of_lt (by decide), ← h0]
    rfl
  have := foldl_digits h ds 0
  rwa [← ht] at this

theorem commitParam_state : (commitParam t).ansiState = t.ansiState := by
  unfold commitParam
  split_ifs <;> rfl

/-- The terminal in front of the final byte holds the parameters, the last one still pending. -/
theorem foldl_params (h : t.ansiState = .csi) (h0 : t.ansiCurrent = 0) {groups : List Digits}
    (hg : groups ≠ []) :
    ((paramBytes groups).foldl ttyRender t).ansiState = .csi ∧
      (commitParam ((paramBytes groups).foldl ttyRender t)).withCurrent 0 =
        t.keepParams (groups.map fun ds => u32 ds.value) := by
  induction groups generalizing t with
  | nil => exact absurd rfl hg
  | cons ds dss ih =>
    have hds := foldl_group h h0 ds
    cases dss with
    | nil =>
      rw [paramBytes, hds]
      exact ⟨h, rfl⟩
    | cons ds' dss =>
      have hk : ((t.keepParam (u32 ds.value)).withCurrent 0).ansiState = .csi :=
        commitParam_state.trans h
      have hfold : (paramBytes (ds :: ds' :: dss)).foldl ttyRender t =
          (paramBytes (ds' :: dss)).foldl ttyRender ((t.keepParam (u32 ds.value)).withCurrent 0) := by
        rw [paramBytes, List.foldl_append, hds, List.foldl_cons,
          ttyRender_semicolon (t := t.withCurrent (u32 ds.value)) h]
        · rfl
        · exact List.cons_ne_nil _ _
      rw [hfold]
      exact ih hk rfl (List.cons_ne_nil _ _)

end

/-- `t'` is `t` with the numbers kept as parameters, as far as there is room. -/
structure ParamsKept (t : Tty) (ns : List ℕ) (t' : Tty) : Prop where
  count : t'.ansiParamCount = min ttyAnsiMaxParams (t.ansiParamCount + ns.length)
  before : ∀ i < t.ansiParamCount, t'.ansiParams i = t.ansiParams i
  params : ∀ i n, t.ansiParamCount + i < ttyAnsiMaxParams → ns[i]? = some n →
    t'.ansiParams (t.ansiParamCount + i) = n
  cursorX : t'.cursorX = t.cursorX
  cursorY : t'.cursorY = t.cursorY
  rows : t'.rows = t.rows
  columns : t'.columns = t.columns

theorem keepParams_kept {t : Tty} (hc : t.ansiParamCount ≤ ttyAnsiMaxParams) (ns : List ℕ) :
    ParamsKept t ns (t.keepParams ns) := by
  induction ns generalizing t with
  | nil => exact ⟨(min_eq_right hc).symm, fun _ _ => rfl, by simp, rfl, rfl, rfl, rfl⟩
  | cons n ns ih =>
    obtain ⟨t₁, ht₁⟩ : ∃ t₁, t₁ = (t.keepParam n).withCurrent 0 := ⟨_, rfl⟩
    have hstep : t.keepParams (n :: ns) = t₁.keepParams ns := by rw [ht₁]; rfl
    rw [hstep]
    by_cases hroom : t.ansiParamCount < ttyAnsiMaxParams
    · rw [Tty.keepParam, commitParam,
        if_pos (show (t.withCurrent n).ansiParamCount < ttyAnsiMaxParams from hroom)] at ht₁
      have hcount : t₁.ansiParamCount = t.ansiParamCount + 1 := by rw [ht₁]; rfl
      have hparams : t₁.ansiParams = Function.update t.ansiParams t.ansiParamCount n := by
        rw [ht₁]
        rfl
      have hrec := ih (t := t₁) (by omega)
      refine ⟨?_, fun i hi => ?_, fun i m hi hm => ?_, hrec.cursorX.trans (by rw [ht₁]; rfl),
        hrec.cursorY.trans (by rw [ht₁]; rfl), hrec.rows.trans (by rw [ht₁]; rfl),
        hrec.columns.trans (by rw [ht₁]; rfl)⟩
      · rw [hrec.count, hcount, List.length_cons]
        omega
      · rw [hrec.before i (by omega), hparams, Function.update_of_ne hi.ne]
      · cases i with
        | zero =>
          obtain rfl : n = m := by simpa using hm
          rw [Nat.add_zero, hrec.before _ (by omega), hparams, Function.update_self]
        | succ i =>
          rw [← hrec.params i m (by omega) (by simpa using hm), hcount]
          exact congrArg _ (by omega)
    · rw [Tty.keepParam, commitParam,
        if_neg (show ¬ (t.withCurrent n).ansiParamCount < ttyAnsiMaxParams from hroom)] at ht₁
      have hcount : t₁.ansiParamCount = t.ansiParamCount := by rw [ht₁]; rfl
      have hrec := ih (t := t₁) (by omega)
      refine ⟨?_, fun i hi => ?_, fun i m hi => by omega, hrec.cursorX.trans (by rw [ht₁]; rfl),
        hrec.cursorY.trans (by rw [ht₁]; rfl), hrec.rows.trans (by rw [ht₁]; rfl),
        hrec.columns.trans (by rw [ht₁]; rfl)⟩
      · rw [hrec.count, hcount, List.length_cons]
        omega
      · rw [hrec.before i (by omega), ht₁]
        rfl

/-! ## The cursor -/

theorem ansiParam_eq (t : Tty) (i : ℕ) : ansiParam t i = max (t.ansiParams i) 1 := by
  unfold ansiParam
  split_ifs <;> omega

/-- The cursor of a command, on the parameters as they are kept. -/
def cursorKept (t : Tty) (p₁ p₂ : ℕ) : CursorCommand → ℕ × ℕ
  | .position _ => (min (max p₂ 1) t.columns - 1, min (max p₁ 1) t.rows - 1)
  | .forward => (min (u32 (t.cursorX + max p₁ 1)) (t.columns - 1), t.cursorY)
  | .back => (t.cursorX - max p₁ 1, t.cursorY)

theorem dispatch_cursor (t : Tty) {p₁ p₂ : ℕ} (h₁ : t.ansiParams 0 = p₁)
    (h₂ : (if 1 < t.ansiParamCount then ansiParam t 1 else 1) = max p₂ 1) (c : CursorCommand) :
    ((ttyCsiDispatch t c.byte).cursorX, (ttyCsiDispatch t c.byte).cursorY) = cursorKept t p₁ p₂ c := by
  have h₁ : ansiParam t 0 = max p₁ 1 := by rw [ansiParam_eq, h₁]
  cases c with
  | position f =>
    have hd : ttyCsiDispatch t (CursorCommand.position f).byte =
        (t.setCursor (min (if 1 < t.ansiParamCount then ansiParam t 1 else 1) t.columns - 1)
          (min (ansiParam t 0) t.rows - 1)).moveCursor := by
      cases f <;> rfl
    rw [hd, h₁, h₂]
    rfl
  | forward =>
    have hd : ttyCsiDispatch t CursorCommand.forward.byte =
        (t.setCursor (if t.columns - 1 < u32 (t.cursorX + ansiParam t 0) then t.columns - 1
          else u32 (t.cursorX + ansiParam t 0)) t.cursorY).moveCursor := rfl
    rw [hd, h₁]
    refine Prod.ext ?_ rfl
    show (if _ then _ else _) = min _ _
    split_ifs <;> omega
  | back =>
    have hd : ttyCsiDispatch t CursorCommand.back.byte =
        (t.setCursor (if t.cursorX < ansiParam t 0 then 0 else t.cursorX - ansiParam t 0)
          t.cursorY).moveCursor := rfl
    rw [hd, h₁]
    refine Prod.ext ?_ rfl
    show (if _ then _ else _) = t.cursorX - _
    split_ifs <;> omega

/-- No parameter is the same as one empty parameter. -/
theorem exists_groups (groups : List Digits) : ∃ groups' : List Digits, groups' ≠ [] ∧
    paramBytes groups' = paramBytes groups ∧ ∀ i, paramValue groups' i = paramValue groups i := by
  cases groups with
  | nil =>
    refine ⟨[[]], by simp, rfl, fun i => ?_⟩
    cases i <;> rfl
  | cons ds dss => exact ⟨ds :: dss, by simp, rfl, fun _ => rfl⟩

/-- **What a sequence does**: the parser is back where it was, and the cursor is where the
    parameters modulo 2^32 say. -/
theorem csi_cursor {t : Tty} (hn : t.ansiState = .normal) (groups : List Digits) (c : CursorCommand) :
    ((csiBytes groups c.byte).foldl ttyRender t).ansiState = .normal ∧
      (((csiBytes groups c.byte).foldl ttyRender t).cursorX,
        ((csiBytes groups c.byte).foldl ttyRender t).cursorY) =
        cursorKept t (u32 (paramValue groups 0)) (u32 (paramValue groups 1)) c := by
  obtain ⟨groups', hne, hbytes, hvalue⟩ := exists_groups groups
  rw [← hvalue 0, ← hvalue 1, csiBytes, ← hbytes]
  clear hbytes hvalue
  -- the terminal behind the bracket
  obtain ⟨t₀, ht₀⟩ : ∃ t₀, t₀ = { t with ansiState := .csi, ansiParamCount := 0, ansiCurrent := 0 } :=
    ⟨_, rfl⟩
  have hstart : ttyRender (ttyRender t 0x1B) 0x5B = t₀ := by
    have hesc : ttyRender t 0x1B = { t with ansiState := .esc } := by
      rw [ttyRender, hn]
      rfl
    rw [hesc, ht₀]
    rfl
  have hcsi : t₀.ansiState = .csi := by rw [ht₀]
  have hzero : t₀.ansiCurrent = 0 := by rw [ht₀]
  have hcount : t₀.ansiParamCount = 0 := by rw [ht₀]
  obtain ⟨hs, hk⟩ := foldl_params hcsi hzero hne
  have hkept := keepParams_kept (t := t₀) (by omega) (groups'.map fun ds => u32 ds.value)
  rw [← hk] at hkept
  rw [List.foldl_cons, List.foldl_cons, List.foldl_append, hstart, List.foldl_cons, List.foldl_nil,
    ttyRender_final hs]
  refine ⟨rfl, ?_⟩
  generalize commitParam ((paramBytes groups').foldl ttyRender t₀) = u at hkept
  have hp : ∀ i < ttyAnsiMaxParams, i < groups'.length →
      u.ansiParams i = u32 (paramValue groups' i) := by
    intro i hi hl
    have := hkept.params i (u32 groups'[i].value) (by omega) (by simp [hl])
    rw [hcount, Nat.zero_add] at this
    rw [paramValue, List.getElem?_map, List.getElem?_eq_getElem hl]
    exact this
  have hlen : 0 < groups'.length := List.length_pos_iff.2 hne
  have hu : u.ansiParamCount = min ttyAnsiMaxParams groups'.length := by
    have := hkept.count
    rw [hcount, List.length_map, Nat.zero_add] at this
    exact this
  have hcol : (if 1 < u.ansiParamCount then ansiParam u 1 else 1) =
      max (u32 (paramValue groups' 1)) 1 := by
    by_cases h : 1 < groups'.length
    · rw [if_pos (by rw [hu]; exact lt_min (by decide) h), ansiParam_eq, hp 1 (by decide) h]
    · rw [if_neg (by rw [hu]; omega), paramValue, List.getElem?_eq_none (by simpa using h)]
      rfl
  have hX : u.cursorX = t.cursorX := hkept.cursorX.trans (by rw [ht₀])
  have hY : u.cursorY = t.cursorY := hkept.cursorY.trans (by rw [ht₀])
  have hR : u.rows = t.rows := hkept.rows.trans (by rw [ht₀])
  have hC : u.columns = t.columns := hkept.columns.trans (by rw [ht₀])
  have hd := dispatch_cursor u (hp 0 (by decide) hlen) hcol c
  refine hd.trans ?_
  cases c <;> simp only [cursorKept, hX, hY, hR, hC]

/-! ## The numbers -/

/-- A parameter is read as the number it stands for, or as one that also reaches `n`. -/
def ParamOk (p n : ℕ) : Prop := p < 4294967296 ∨ n ≤ max (u32 p) 1

instance (p n : ℕ) : Decidable (ParamOk p n) := inferInstanceAs (Decidable (_ ∨ _))

/-- When 32 bits are enough for a command. -/
def CursorFits (t : Tty) (groups : List Digits) : CursorCommand → Prop
  | .position _ => ParamOk (paramValue groups 0) t.rows ∧ ParamOk (paramValue groups 1) t.columns
  | .forward => t.cursorX + max (paramValue groups 0) 1 < 4294967296 ∨
      t.columns - 1 ≤ u32 (t.cursorX + max (u32 (paramValue groups 0)) 1)
  | .back => ParamOk (paramValue groups 0) t.cursorX

/-- The cursor is where the numbers say, and the parser back in its normal state. -/
def FollowsCommand (t : Tty) (groups : List Digits) (c : CursorCommand) (t' : Tty) : Prop :=
  t'.ansiState = .normal ∧ (t'.cursorX, t'.cursorY) = cursorAfter t groups c

theorem clamp_iff {p n : ℕ} (h0 : 1 ≤ n) (hn : n < 4294967296) :
    min (max (u32 p) 1) n - 1 = min (max p 1) n - 1 ↔ ParamOk p n := by
  unfold ParamOk u32
  omega

/-- **Sequences follow their numbers exactly when these fit into 32 bits**, or the number
    modulo 2^32 reaches the same border of the screen. -/
theorem csi_cursor_exact (t : Tty) (hn : t.ansiState = .normal) (hrows : 1 ≤ t.rows)
    (hrows' : t.rows < 4294967296) (hcolumns : 1 ≤ t.columns) (hcolumns' : t.columns < 4294967296)
    (hx : t.cursorX < 4294967296) (groups : List Digits) (c : CursorCommand) :
    FollowsCommand t groups c ((csiBytes groups c.byte).foldl ttyRender t) ↔
      CursorFits t groups c := by
  obtain ⟨hs, hcur⟩ := csi_cursor hn groups c
  rw [FollowsCommand, and_iff_right hs, hcur]
  cases c with
  | position f =>
    rw [cursorKept, cursorAfter, Prod.mk.injEq, clamp_iff hcolumns hcolumns', clamp_iff hrows hrows']
    exact and_comm
  | forward =>
    rw [cursorKept, cursorAfter, Prod.mk.injEq, and_iff_left rfl, CursorFits]
    unfold u32
    omega
  | back =>
    rw [cursorKept, cursorAfter, Prod.mk.injEq, and_iff_left rfl, CursorFits, ParamOk]
    unfold u32
    omega

/-- A new terminal of 25 rows and 80 columns. -/
def newTerminal : Tty :=
  ttyCreate ⟨80, 25⟩ (fun _ => ⟨0x20, 0x0F⟩) 0 ttyKeyboardLayoutDeDE (fun _ => 0) fun _ => 0

/-- `ESC [ 5 ; 1 2 H` -/
theorem csi_cursor_exact_position : FollowsCommand newTerminal [[5], [1, 2]] (.position false)
    ((csiBytes [[5], [1, 2]] 0x48).foldl ttyRender newTerminal) :=
  (csi_cursor_exact newTerminal rfl (by decide) (by decide) (by decide) (by decide) (by decide)
    [[5], [1, 2]] (.position false)).2 ⟨Or.inl (by decide), Or.inl (by decide)⟩

/-- **A parameter of 2^32 + 1 moves the cursor by one column**, not to the last one. -/
theorem csi_cursor_wraps : ¬ FollowsCommand newTerminal [[4, 2, 9, 4, 9, 6, 7, 2, 9, 7]] .forward
    ((csiBytes [[4, 2, 9, 4, 9, 6, 7, 2, 9, 7]] 0x43).foldl ttyRender newTerminal) := by
  rintro ⟨-, h⟩
  have hcur := (csi_cursor (t := newTerminal) rfl [[4, 2, 9, 4, 9, 6, 7, 2, 9, 7]] .forward).2
  have hbyte : CursorCommand.forward.byte = 0x43 := rfl
  rw [hbyte, h] at hcur
  revert hcur
  decide

end Ttos
