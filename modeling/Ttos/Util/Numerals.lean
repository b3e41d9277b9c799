/-
  The texts `itoa` writes, read as numerals.

  * `readNumeral`: the number a numeral denotes.
  * `itoa_round_trip`: every text denotes the number it was written for.
-/
import Ttos.Util.Numeric

namespace Ttos

/-- libc's `itoa` (stdlib/itoa.c), with its own copy of the table and of `strrev`. -/
def libcItoa (fuel n base : ℕ) : Buffered Unit := itoa fuel n base

/-! ## Numerals -/

/-- The digit of a character: `0` to `9`, then `A` to `V`. -/
def digitOfChar (c : UInt8) : Option ℕ :=
  if 0x30 ≤ c.toNat ∧ c.toNat ≤ 0x39 then some (c.toNat - 0x30)
  else if 0x41 ≤ c.toNat ∧ c.toNat ≤ 0x56 then some (c.toNat - 0x41 + 10)
  else none

/-- Digits, the highest first, behind digits with the value `n`. -/
def readDigits (base : ℕ) : List UInt8 → ℕ → Option ℕ
  | [], n => some n
  | c :: s, n => do
    let d ← digitOfChar c
    if d < base then readDigits base s (base * n + d) else none

/-- A numeral without a sign. -/
def readNatural (base : ℕ) (s : List UInt8) : Option ℕ :=
  if s = [] then none else readDigits base s 0

/-- The number a numeral denotes. -/
def readNumeral (base : ℕ) : List UInt8 → Option ℤ
  | [] => none
  | c :: s =>
    if c = 0x2D then (readNatural base s).map fun n => -(n : ℤ)
    else (readNatural base (c :: s)).map fun n => (n : ℤ)

/-- Zero is `0`, and no other numeral begins with that digit. -/
def NoLeadingZero : List UInt8 → Prop
  | [] => False
  | c :: s => if c = 0x2D then s.head? ≠ some 0x30 else c = 0x30 → s = []

instance : DecidablePred NoLeadingZero
  | [] => inferInstanceAs (Decidable False)
  | _ :: _ => inferInstanceAs (Decidable (ite _ _ _))

/-! ## Digits -/

variable {base n d : ℕ}

theorem itoaChar_toNat (h : d < 36) :
    (itoaChar d).toNat = if d < 10 then 0x30 + d else 0x41 + (d - 10) := by
  rw [itoaChar, UInt8.toNat_ofNat']
  split <;> omega

theorem digitOfChar_itoaChar (h : d < 32) : digitOfChar (itoaChar d) = some d := by
  rw [digitOfChar, itoaChar_toNat (by omega)]
  by_cases hd : d < 10
  · rw [if_pos hd, if_pos (by omega), Nat.add_sub_cancel_left]
  · rw [if_neg hd, if_neg (by omega), if_pos (by omega), Nat.add_sub_cancel_left,
      Nat.sub_add_cancel (by omega)]

theorem itoaChar_ne_minus (h : d < 36) : itoaChar d ≠ 0x2D := by
  intro hc
  have hn : (itoaChar d).toNat = 0x2D := by rw [hc]; rfl
  rw [itoaChar_toNat h] at hn
  split at hn <;> omega

theorem itoaChar_eq_zero (h : d < 36) : itoaChar d = 0x30 ↔ d = 0 := by
  rw [← UInt8.toNat_inj, itoaChar_toNat h]
  show _ = 0x30 ↔ _
  split <;> omega

/-- Reading digits that were written. -/
theorem readDigits_map (hb : base ≤ 32) {ds : List ℕ} (h : ∀ d ∈ ds, d < base) (n : ℕ) :
    readDigits base (ds.map itoaChar) n = some (ds.foldl (fun n d => base * n + d) n) := by
  induction ds generalizing n with
  | nil => rfl
  | cons d ds ih =>
    have hd : d < base := h d (List.mem_cons_self ..)
    rw [List.map_cons, readDigits, digitOfChar_itoaChar (hd.trans_le hb)]
    show (if d < base then _ else _) = _
    rw [if_pos hd, ih fun e he => h e (List.mem_cons_of_mem _ he), List.foldl_cons]

/-- The digits of `n`, the highest first, are a numeral for it. -/
theorem readDigits_digitChars (hb : 2 ≤ base) (hb' : base ≤ 32) (n : ℕ) :
    readDigits base (digitChars base n).reverse 0 = some n := by
  have hlt : ∀ d ∈ (Nat.digits base n).reverse, d < base := fun d hd =>
    Nat.digits_lt_base (by omega) (List.mem_reverse.1 hd)
  rw [digitChars, ← List.map_reverse, readDigits_map hb' hlt, List.foldl_reverse]
  have hvalue := Nat.ofDigits_digits base n
  rw [Nat.ofDigits_eq_foldr] at hvalue
  simp only [Nat.add_comm (base * _)]
  exact congrArg some hvalue

theorem digitChars_ne_nil (h0 : n ≠ 0) : (digitChars base n).reverse ≠ [] := by
  rw [digitChars, ne_eq, List.reverse_eq_nil_iff, List.map_eq_nil_iff]
  exact Nat.digits_ne_nil_iff_ne_zero.2 h0

/-- The highest digit is a digit, and not zero. -/
theorem head_digitChars (hb : 2 ≤ base) (hb' : base ≤ 32) (h0 : n ≠ 0) :
    ∃ c s, (digitChars base n).reverse = c :: s ∧ c ≠ 0x2D ∧ c ≠ 0x30 := by
  obtain ⟨c, s, hcs⟩ := List.exists_cons_of_ne_nil (digitChars_ne_nil h0)
  have hne : Nat.digits base n ≠ [] := Nat.digits_ne_nil_iff_ne_zero.2 h0
  have hlt : (Nat.digits base n).getLast hne < base :=
    Nat.digits_lt_base (by omega) (List.getLast_mem hne)
  have hhead : c = itoaChar ((Nat.digits base n).getLast hne) := by
    have hh := congrArg List.head? hcs
    rw [digitChars, ← List.map_reverse, List.head?_map, List.head?_reverse,
      List.getLast?_eq_getLast_of_ne_nil hne, List.head?_cons] at hh
    exact (Option.some.inj hh).symm
  refine ⟨c, s, hcs, ?_, ?_⟩
  · rw [hhead]
    exact itoaChar_ne_minus (by omega)
  · rw [hhead, ne_eq, itoaChar_eq_zero (by omega)]
    exact Nat.getLast_digit_ne_zero base h0

/-! ## The texts -/

/-- The digits of a number are a numeral for it. -/
theorem digitChars_numeral (hb : 2 ≤ base) (hb' : base ≤ 32) (h0 : n ≠ 0) :
    NoLeadingZero (digitChars base n).reverse ∧
      readNumeral base (digitChars base n).reverse = some (n : ℤ) := by
  obtain ⟨c, s, hcs, hminus, hzero⟩ := head_digitChars hb hb' h0
  have hread := readDigits_digitChars hb hb' n
  rw [hcs] at hread ⊢
  rw [NoLeadingZero, if_neg hminus, readNumeral, if_neg hminus, readNatural,
    if_neg (List.cons_ne_nil c s), hread]
  exact ⟨fun h => absurd h hzero, rfl⟩

/-- With a sign in front they are one for its negation. -/
theorem minus_numeral (hb : 2 ≤ base) (hb' : base ≤ 32) (h0 : n ≠ 0) :
    NoLeadingZero (0x2D :: (digitChars base n).reverse) ∧
      readNumeral base (0x2D :: (digitChars base n).reverse) = some (-(n : ℤ)) := by
  obtain ⟨c, s, hcs, -, hzero⟩ := head_digitChars hb hb' h0
  have hread := readDigits_digitChars hb hb' n
  rw [NoLeadingZero, if_pos rfl, readNumeral, if_pos rfl, readNatural,
    if_neg (digitChars_ne_nil h0), hread, hcs, List.head?_cons]
  exact ⟨fun h => hzero (Option.some.inj h), rfl⟩

theorem zero_numeral (hb : 2 ≤ base) (hb' : base ≤ 32) : readNumeral base [0x30] = some 0 := by
  have hread : readDigits base ([0].map itoaChar) 0 = some (base * 0 + 0) :=
    readDigits_map hb' (fun d hd => by rw [List.mem_singleton.1 hd]; omega) 0
  have hchar : [0].map itoaChar = [0x30] := by decide
  rw [hchar] at hread
  rw [readNumeral, if_neg (by decide), readNatural, if_neg (List.cons_ne_nil _ _), hread]
  rfl

/-- What the text of a word denotes. -/
theorem itoaText_denotes (hb : 2 ≤ base) (hb' : base ≤ 32) (n : BitVec 32) :
    NoLeadingZero (itoaText n.toNat base) ∧
      readNumeral base (itoaText n.toNat base) = some (if base = 10 then n.toInt else n.toNat) := by
  have hn : n.toNat < 4294967296 := n.isLt
  have hint := BitVec.toInt_eq_toNat_cond n
  unfold itoaText
  by_cases h0 : n.toNat = 0
  · rw [if_pos h0, zero_numeral hb hb', hint, h0]
    exact ⟨by decide, by split <;> rfl⟩
  rw [if_neg h0]
  by_cases hneg : 2147483648 ≤ n.toNat ∧ base = 10
  · obtain ⟨hhigh, rfl⟩ := hneg
    obtain ⟨h1, h2⟩ := minus_numeral hb hb' (show 4294967296 - n.toNat ≠ 0 by omega)
    rw [if_pos ⟨hhigh, rfl⟩, if_pos rfl, h2, hint, if_neg (by omega)]
    exact ⟨h1, congrArg some (by omega)⟩
  · obtain ⟨h1, h2⟩ := digitChars_numeral hb hb' h0
    rw [if_neg hneg, h2]
    refine ⟨h1, congrArg some ?_⟩
    split
    · rename_i h10
      rw [hint, if_pos (by omega)]
    · rfl

/-- **The text that `itoa` leaves in the buffer is a numeral for the number**: for the signed
    one in base 10, for the unsigned one in the others.  libc's `itoa` leaves the same. -/
theorem itoa_round_trip (hb : 2 ≤ base) (hb' : base ≤ 32) (n : BitVec 32) (m : Mem) :
    ∃ text, NoLeadingZero text ∧
      readNumeral base text = some (if base = 10 then n.toInt else n.toNat) ∧
      ∃ rounds, ∀ fuel ≥ rounds,
        (∃ m', (itoa fuel n.toNat base m).result = .ok ((), m') ∧ m'.HasString 0 text) ∧
        ∃ m', (libcItoa fuel n.toNat base m).result = .ok ((), m') ∧ m'.HasString 0 text := by
  obtain ⟨hzero, hread⟩ := itoaText_denotes hb hb' n
  refine ⟨_, hzero, hread, 40, fun fuel hfuel => ?_⟩
  obtain ⟨m', huses, hstring⟩ := itoa_uses hb hb' n.isLt m hfuel
  exact ⟨⟨m', huses.result, hstring⟩, ⟨m', huses.result, hstring⟩⟩

theorem itoa_round_trip_minus_five :
    ∃ text, NoLeadingZero text ∧ readNumeral 10 text = some (-5) ∧
      ∃ rounds, ∀ fuel ≥ rounds,
        (∃ m', (itoa fuel 0xFFFFFFFB 10 fun _ => 0).result = .ok ((), m') ∧ m'.HasString 0 text) ∧
        ∃ m', (libcItoa fuel 0xFFFFFFFB 10 fun _ => 0).result = .ok ((), m') ∧ m'.HasString 0 text :=
  itoa_round_trip (by decide) (by decide) (-5) fun _ => 0

end Ttos
