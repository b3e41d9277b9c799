/-
  Arrays of strings, `char rows[n][width]`, and `strcat`.

  * `Rows`: the first rows of such an array hold the strings of a list.
  * `Rows.concat`, `Rows.shift`: a string copied behind the last one, and the
    loop that removes one by copying the others down.
  * `strcat_hasString`: a string behind another.
-/
import Ttos.Util.Strings

namespace Ttos

/-! ## `strcat` -/

/-- `strcpy` of a string literal. -/
def strcpyLiteral (m : Mem) (dest : ℕ) (literal : List UInt8) : Mem := fun x =>
  if dest ≤ x ∧ x < dest + (literal.length + 1) then literal[x - dest]?.getD 0 else m x

/-- `strcat` of a string literal. -/
def strcatLiteral (fuel : ℕ) (m : Mem) (dest : ℕ) (literal : List UInt8) : Option Mem := do
  let destLen ← strlen m fuel dest 0
  return strcpyLiteral m (dest + destLen) literal

/-- `strcat` -/
def strcat (fuel : ℕ) (m : Mem) (dest src : ℕ) : Option Mem := do
  let destLen ← strlen m fuel dest 0
  let srcLen ← strlen m fuel src 0
  let m := (List.range srcLen).foldl (fun m i => m.store8 (dest + destLen + i) (m (src + i))) m
  return m.store8 (dest + destLen + srcLen) 0

section

variable {m : Mem} {fuel a b n : ℕ} {s t : List UInt8}

theorem strcpyLiteral_hasString (h0 : 0 ∉ t) : (strcpyLiteral m b t).HasString b t := by
  refine ⟨h0, fun j hj => ?_, ?_⟩
  · rw [strcpyLiteral, if_pos (by omega), Nat.add_sub_cancel_left, List.getElem?_eq_getElem hj]
    rfl
  · rw [strcpyLiteral, if_pos (by omega), Nat.add_sub_cancel_left,
      List.getElem?_eq_none (Nat.le_refl _)]
    rfl

theorem strcpyLiteral_out {x : ℕ} (h : x < b ∨ b + t.length < x) : strcpyLiteral m b t x = m x := by
  rw [strcpyLiteral, if_neg (by omega)]

/-- A string behind another makes one. -/
theorem Mem.HasString.append {m' : Mem} (hs : m.HasString b s) (ht : m'.HasString (b + s.length) t)
    (hm : ∀ x < b + s.length, m' x = m x) : m'.HasString b (s ++ t) := by
  refine ⟨fun h0 => ?_, fun j hj => ?_, ?_⟩
  · rcases List.mem_append.1 h0 with h0 | h0
    · exact hs.1 h0
    · exact ht.1 h0
  · by_cases hjs : j < s.length
    · rw [List.getElem_append_left hjs, hm _ (by omega)]
      exact hs.2.1 j hjs
    · rw [List.length_append] at hj
      rw [List.getElem_append_right (by omega), ← ht.2.1 (j - s.length) (by omega)]
      congr 1
      omega
  · rw [List.length_append, ← Nat.add_assoc]
    exact ht.2.2

theorem strcatLiteral_hasString (hb : b ≠ 0) (hs : m.HasString b s) (h0 : 0 ∉ t) (hk : s.length < fuel) :
    ∃ m' : Mem, strcatLiteral fuel m b t = some m' ∧ m'.HasString b (s ++ t) ∧
      ∀ x, x < b ∨ b + (s.length + t.length) < x → m' x = m x := by
  refine ⟨strcpyLiteral m (b + s.length) t, ?_, ?_, fun x hx => strcpyLiteral_out (by omega)⟩
  · rw [strcatLiteral, strlen_hasString hb hs hk, Nat.zero_add]
    rfl
  · exact hs.append (strcpyLiteral_hasString h0) fun x hx => strcpyLiteral_out (by omega)

/-- The loop of `strcat`. -/
theorem strcat_loop (m : Mem) (hab : Apart b n a n) :
    (List.range n).foldl (fun m i => m.store8 (b + i) (m (a + i))) m = m.copy b a n := by
  induction n with
  | zero =>
    funext x
    exact (Mem.copy_out (by omega)).symm
  | succ n ih =>
    unfold Apart at ih hab
    rw [List.range_succ, List.foldl_append, ih (by omega), List.foldl_cons, List.foldl_nil]
    funext x
    unfold Mem.store8 Mem.copy
    rw [if_neg (by omega : ¬ (b ≤ a + n ∧ a + n < b + n))]
    by_cases hx : x = b + n
    · rw [if_pos hx, if_pos (by omega), show x - b = n by omega]
    · rw [if_neg hx]
      by_cases hin : b ≤ x ∧ x < b + n
      · rw [if_pos hin, if_pos (by omega)]
      · rw [if_neg hin, if_neg (by omega)]

/-- `strcat` with a string apart from where the result is. -/
theorem strcat_hasString (hb : b ≠ 0) (ha : a ≠ 0) (hs : m.HasString b s)
    (ht : m.HasString a t) (hks : s.length < fuel) (hkt : t.length < fuel)
    (hab : Apart b (s.length + t.length + 1) a (t.length + 1)) :
    ∃ m' : Mem, strcat fuel m b a = some m' ∧ m'.HasString b (s ++ t) ∧
      ∀ x, x < b ∨ b + (s.length + t.length) < x → m' x = m x := by
  unfold Apart at hab
  have hloop : Apart (b + s.length) t.length a t.length := by
    unfold Apart
    omega
  refine ⟨(m.copy (b + s.length) a t.length).store8 (b + s.length + t.length) 0, ?_, ?_,
    fun x hx => ?_⟩
  · simp only [strcat, strlen_hasString hb hs hks, strlen_hasString ha ht hkt, Nat.zero_add,
      Option.bind_eq_bind, Option.bind_some, strcat_loop m hloop]
    rfl
  · refine hs.append ⟨ht.1, fun j hj => ?_, Mem.store8_in ..⟩ fun x hx => ?_
    · rw [Mem.store8_out (by omega), Mem.copy_in (by omega) (by omega), Nat.add_sub_cancel_left]
      exact ht.2.1 j hj
    · rw [Mem.store8_out (by omega), Mem.copy_out (by omega)]
  · rw [Mem.store8_out (by omega), Mem.copy_out (by omega)]

end

/-! ## Rows -/

/-- The first rows of the array at `base` hold the strings. -/
structure Rows (m : Mem) (base width : ℕ) (rows : List (List UInt8)) : Prop where
  short : ∀ s ∈ rows, s.length < width
  slots : ∀ i (h : i < rows.length), m.HasString (base + width * i) rows[i]

namespace Rows

variable {m m' : Mem} {base width fuel a : ℕ} {rows pre suf : List (List UInt8)} {s t : List UInt8}

theorem nil : Rows m base width [] where
  short _ h := absurd h List.not_mem_nil
  slots _ h := absurd h (Nat.not_lt_zero _)

/-- A row lies in the array. -/
theorem slot_le {i n : ℕ} (hi : i < n) : width * i + width ≤ width * n := by
  rw [← Nat.mul_succ]
  exact Nat.mul_le_mul_left width hi

/-- The rows depend on the memory of the array only. -/
theorem congr (h : Rows m base width rows)
    (hm : ∀ x, base ≤ x → x < base + width * rows.length → m' x = m x) :
    Rows m' base width rows where
  short := h.short
  slots i hi := by
    refine (h.slots i hi).congr fun x hx hx' => hm x (by omega) ?_
    have hshort := h.short _ (List.getElem_mem hi)
    have hle : width * i + width ≤ width * rows.length := slot_le hi
    omega

theorem left (h : Rows m base width (rows ++ pre)) : Rows m base width rows where
  short s hs := h.short s (List.mem_append_left _ hs)
  slots i hi := by
    have hslot := h.slots i (by rw [List.length_append]; omega)
    rwa [List.getElem_append_left hi] at hslot

/-- The row behind those of `pre`. -/
theorem get (h : Rows m base width (pre ++ s :: suf)) :
    m.HasString (base + width * pre.length) s ∧ s.length < width := by
  refine ⟨?_, h.short s (List.mem_append_right _ (List.mem_cons_self ..))⟩
  have hslot := h.slots pre.length (by rw [List.length_append, List.length_cons]; omega)
  simpa using hslot

/-- A string copied into the row behind those of `pre`. -/
theorem strcpy (h : Rows m base width (pre ++ s :: suf)) (ht : m.HasString a t)
    (hshort : t.length < width) (hfuel : width ≤ fuel)
    (hapart : Apart (base + width * pre.length) (t.length + 1) a (t.length + 1)) :
    ∃ m' : Mem, Ttos.strcpy fuel m (base + width * pre.length) a = some m' ∧
      Rows m' base width (pre ++ t :: suf) ∧
      ∀ x, x < base + width * pre.length ∨ base + width * pre.length + width ≤ x → m' x = m x := by
  obtain ⟨m', hcpy, hrow, hframe⟩ := strcpy_hasString ht (hshort.trans_le hfuel) hapart
  refine ⟨m', hcpy, ⟨fun r hr => ?_, fun i hi => ?_⟩, fun x hx => hframe x (by omega)⟩
  · rcases List.mem_append.1 hr with hr | hr
    · exact h.short r (List.mem_append_left _ hr)
    · rcases List.mem_cons.1 hr with rfl | hr
      · exact hshort
      · exact h.short r (List.mem_append_right _ (List.mem_cons_of_mem _ hr))
  · by_cases hpre : i = pre.length
    · subst hpre
      simpa using hrow
    · have hlen : i < (pre ++ s :: suf).length := by
        simpa using hi
      have hsame : (pre ++ t :: suf)[i] = (pre ++ s :: suf)[i] := by
        rcases Nat.lt_or_gt_of_ne hpre with hlt | hgt
        · rw [List.getElem_append_left hlt, List.getElem_append_left hlt]
        · obtain ⟨k, hk⟩ : ∃ k, i - pre.length = k + 1 := ⟨i - pre.length - 1, by omega⟩
          rw [List.getElem_append_right (by omega), List.getElem_append_right (by omega)]
          simp only [hk, List.getElem_cons_succ]
      rw [hsame]
      refine (h.slots i hlen).congr fun x hx hx' => hframe x ?_
      have hrow := h.short _ (List.getElem_mem hlen)
      rcases Nat.lt_or_gt_of_ne hpre with hlt | hgt
      · have hle : width * i + width ≤ width * pre.length := slot_le hlt
        omega
      · have hle : width * pre.length + width ≤ width * i := slot_le hgt
        omega

/-- A string copied behind the last one. -/
theorem concat (h : Rows m base width rows) (ht : m'.HasString (base + width * rows.length) t)
    (hshort : t.length < width)
    (hm : ∀ x, base ≤ x → x < base + width * rows.length → m' x = m x) :
    Rows m' base width (rows ++ [t]) where
  short s hs := by
    rcases List.mem_append.1 hs with hs | hs
    · exact h.short s hs
    · rw [List.mem_singleton.1 hs]
      exact hshort
  slots i hi := by
    rw [List.length_append, List.length_singleton] at hi
    by_cases hlt : i < rows.length
    · rw [List.getElem_append_left hlt]
      exact (h.congr hm).slots i hlt
    · obtain rfl : i = rows.length := by omega
      simpa using ht

/-- **The loop that removes a row** copies every row behind it one down. -/
theorem shift (h : Rows m base width (pre ++ s :: suf)) (hfuel : width ≤ fuel) :
    ∃ m', (List.range' pre.length suf.length).foldlM (fun m i =>
        Ttos.strcpy fuel m (base + width * i) (base + width * (i + 1))) m = some m' ∧
      Rows m' base width (pre ++ suf) ∧
      ∀ x, x < base ∨ base + width * (pre.length + suf.length) ≤ x → m' x = m x := by
  induction suf generalizing pre s m with
  | nil =>
    refine ⟨m, rfl, ?_, fun _ _ => rfl⟩
    rw [List.append_nil]
    exact h.left
  | cons t suf ih =>
    have hnext : Rows m base width ((pre ++ [s]) ++ t :: suf) := by
      rw [List.append_assoc]
      exact h
    obtain ⟨ht, hshort⟩ := hnext.get
    rw [List.length_append, List.length_singleton] at ht
    have hapart : Apart (base + width * pre.length) (t.length + 1)
        (base + width * (pre.length + 1)) (t.length + 1) := by
      unfold Apart
      rw [Nat.mul_succ]
      omega
    obtain ⟨m₁, hcpy, hrows, hframe⟩ := h.strcpy ht hshort hfuel hapart
    rw [show pre ++ t :: t :: suf = (pre ++ [t]) ++ t :: suf by rw [List.append_assoc]; rfl] at hrows
    obtain ⟨m', hrest, hrows', hframe'⟩ := ih hrows
    rw [List.length_append, List.length_singleton] at hrest hframe'
    refine ⟨m', ?_, ?_, fun x hx => ?_⟩
    · rw [List.length_cons, List.range'_succ, List.foldlM_cons, hcpy]
      exact hrest
    · rw [List.append_assoc] at hrows'
      exact hrows'
    · have hsum : pre.length + 1 + suf.length = pre.length + (suf.length + 1) := by omega
      rw [List.length_cons] at hx
      rw [hsum] at hframe'
      have hle : width * pre.length + width ≤ width * (pre.length + (suf.length + 1)) :=
        slot_le (by omega)
      rw [hframe' x hx, hframe x (by omega)]

end Rows

end Ttos
