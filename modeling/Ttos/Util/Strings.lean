/-
  The string functions on strings in memory (util/string.c; libc's string/*.c are
  the same).

  A function that looks for the end of a string is given a number of rounds,
  and returns `none` if they do not get there.

  * `strlen_hasString`, `strcpy_hasString`, `strcmpAt_hasString`: what they return
    and write on strings that end.
  * `strsep_cut`, `strsep_last`: what `strsep` does with a string.
  * `hasString_strncpy`: what `strncpy` and a terminator behind it leave of a string.
-/
import Ttos.Lib.CString

namespace Ttos

/-- `strlen`, with the `len` counted so far; there is nothing at `NULL`. -/
def strlen (m : Mem) : ℕ → ℕ → ℕ → Option ℕ
  | 0, _, _ => none
  | k + 1, str, len =>
    if str ≠ 0 ∧ m str ≠ 0 then strlen m k (str + 1) (len + 1) else some len

/-- `strcpy` -/
def strcpy : ℕ → Mem → ℕ → ℕ → Option Mem
  | 0, _, _, _ => none
  | k + 1, m, d, s =>
    if m s = 0 then some (m.store8 d 0) else strcpy k (m.store8 d (m s)) (d + 1) (s + 1)

/-- `strcmp` of two strings in memory. -/
def strcmpAt (m : Mem) : ℕ → ℕ → ℕ → Option ℤ
  | 0, _, _ => none
  | k + 1, str1, str2 =>
    if m str1 ≠ 0 ∧ m str1 = m str2 then strcmpAt m k (str1 + 1) (str2 + 1)
    else some ((m str1).toNat - (m str2).toNat)

variable {m : Mem} {k : ℕ} {a b : ℕ} {s t : List UInt8}

theorem strlen_null (hk : 0 < k) (len : ℕ) : strlen m k 0 len = some len := by
  obtain ⟨k, rfl⟩ := Nat.exists_eq_add_one_of_ne_zero hk.ne'
  rw [strlen, if_neg fun h => h.1 rfl]

theorem strlen_hasString (ha : a ≠ 0) (h : m.HasString a s) (hk : s.length < k) (len : ℕ) :
    strlen m k a len = some (len + s.length) := by
  induction s generalizing a k len with
  | nil =>
    obtain ⟨k, rfl⟩ := Nat.exists_eq_add_one_of_ne_zero (by omega : k ≠ 0)
    rw [strlen, if_neg fun hc => hc.2 (Mem.hasString_nil.1 h)]
    rfl
  | cons c s ih =>
    obtain ⟨k, rfl⟩ := Nat.exists_eq_add_one_of_ne_zero (by omega : k ≠ 0)
    obtain ⟨hc, hat, hs⟩ := Mem.hasString_cons.1 h
    rw [strlen, if_pos ⟨ha, by rwa [hat]⟩, ih (Nat.succ_ne_zero a) hs (by simpa using hk),
      List.length_cons]
    congr 1
    omega

/-- A string that lies apart from what is written stays. -/
theorem Mem.HasString.congr {m' : Mem} (h : m.HasString a s)
    (hm : ∀ x, a ≤ x → x ≤ a + s.length → m' x = m x) : m'.HasString a s := by
  refine ⟨h.1, fun j hj => ?_, ?_⟩
  · rw [hm _ (by omega) (by omega)]
    exact h.2.1 j hj
  · rw [hm _ (by omega) le_rfl]
    exact h.2.2

theorem Mem.HasBytes.congr {m' : Mem} (h : m.HasBytes a s)
    (hm : ∀ x, a ≤ x → x < a + s.length → m' x = m x) : m'.HasBytes a s := by
  intro j hj
  rw [hm _ (by omega) (by omega)]
  exact h j hj

/-- Copying a string to a place apart from it; nothing else changes. -/
theorem strcpy_hasString (h : m.HasString a s) (hk : s.length < k)
    (hab : Apart b (s.length + 1) a (s.length + 1)) :
    ∃ m' : Mem, strcpy k m b a = some m' ∧ m'.HasString b s ∧
      ∀ x, x < b ∨ b + s.length < x → m' x = m x := by
  induction s generalizing a b k m with
  | nil =>
    obtain ⟨k, rfl⟩ := Nat.exists_eq_add_one_of_ne_zero (by omega : k ≠ 0)
    refine ⟨_, by rw [strcpy, if_pos (Mem.hasString_nil.1 h)], ?_, fun x hx => ?_⟩
    · exact Mem.hasString_nil.2 (Mem.store8_in ..)
    · rw [List.length_nil] at hx
      exact Mem.store8_out (by omega)
  | cons c s ih =>
    obtain ⟨k, rfl⟩ := Nat.exists_eq_add_one_of_ne_zero (by omega : k ≠ 0)
    obtain ⟨hc, ha, hs⟩ := Mem.hasString_cons.1 h
    rw [List.length_cons] at hk hab
    unfold Apart at hab
    have hs' : (m.store8 b (m a)).HasString (a + 1) s :=
      hs.congr fun x hx hx' => Mem.store8_out (by omega)
    obtain ⟨m', hcpy, hb, hframe⟩ := ih hs' (b := b + 1) (k := k) (by omega) (by unfold Apart; omega)
    refine ⟨m', ?_, ?_, fun x hx => ?_⟩
    · rw [strcpy, if_neg (by rwa [ha]), hcpy]
    · rw [Mem.hasString_cons, hframe b (by omega), Mem.store8_in]
      exact ⟨hc, ha, hb⟩
    · rw [List.length_cons] at hx
      rw [hframe x (by omega), Mem.store8_out (by omega)]

/-- Comparing two strings. -/
theorem strcmpAt_hasString (hs : m.HasString a s) (ht : m.HasString b t) (hk : s.length < k) :
    ∃ r, strcmpAt m k a b = some r ∧ (r = 0 ↔ s = t) := by
  induction s generalizing a b t k with
  | nil =>
    obtain ⟨k, rfl⟩ := Nat.exists_eq_add_one_of_ne_zero (by omega : k ≠ 0)
    have ha := Mem.hasString_nil.1 hs
    refine ⟨_, by rw [strcmpAt, if_neg (fun h => h.1 ha)], ?_⟩
    cases t with
    | nil => simp [ha, Mem.hasString_nil.1 ht]
    | cons d t =>
      obtain ⟨hd, hb, -⟩ := Mem.hasString_cons.1 ht
      have : d.toNat ≠ 0 := fun h0 => hd (UInt8.toNat_inj.1 h0)
      simp [ha, hb]
      omega
  | cons c s ih =>
    obtain ⟨k, rfl⟩ := Nat.exists_eq_add_one_of_ne_zero (by omega : k ≠ 0)
    obtain ⟨hc, ha, hs⟩ := Mem.hasString_cons.1 hs
    rw [strcmpAt]
    cases t with
    | nil =>
      have hb := Mem.hasString_nil.1 ht
      have : c.toNat ≠ 0 := fun h0 => hc (UInt8.toNat_inj.1 h0)
      rw [ha, hb, if_neg (fun h => hc h.2)]
      exact ⟨_, rfl, by simp; omega⟩
    | cons d t =>
      obtain ⟨hd, hb, ht⟩ := Mem.hasString_cons.1 ht
      rw [ha, hb]
      by_cases hcd : c = d
      · rw [if_pos ⟨hc, hcd⟩]
        obtain ⟨r, hr, hiff⟩ := ih hs ht (by simpa using hk)
        exact ⟨r, hr, by rw [hiff, hcd, List.cons.injEq]; simp⟩
      · rw [if_neg (fun h => hcd h.2)]
        refine ⟨_, rfl, iff_of_false (fun h => hcd (UInt8.toNat_inj.1 (by omega))) ?_⟩
        intro h
        exact hcd (List.cons.inj h).1

/-! ## Cutting -/

/-- `strpbrk` from `s` on; `0` is `NULL`, none a string without end. -/
def strpbrk (m : Mem) (accept : List UInt8) : ℕ → ℕ → Option ℕ
  | 0, _ => none
  | fuel + 1, s =>
    if m s = 0 then some 0
    else if m s ∈ accept then some s
    else strpbrk m accept fuel (s + 1)

/-- `strsep`: the token, the rest of the string, and the memory, in which a zero byte ends the
    token. -/
def strsep (m : Mem) (delim : List UInt8) (fuel start : ℕ) : Option (ℕ × ℕ × Mem) :=
  if start = 0 then some (0, 0, m)
  else
    match strpbrk m delim fuel start with
    | none => none
    | some p => if p = 0 then some (start, 0, m) else some (start, p + 1, m.store8 p 0)

section
variable {m : Mem} {accept s t : List UInt8} {c : UInt8} {a fuel : ℕ}

theorem strpbrk_none (h : m.HasString a s) (hn : ∀ b ∈ s, b ∉ accept) (hf : s.length < fuel) :
    strpbrk m accept fuel a = some 0 := by
  induction s generalizing a fuel with
  | nil =>
    obtain ⟨fuel, rfl⟩ := Nat.exists_eq_add_one_of_ne_zero (by omega : fuel ≠ 0)
    rw [strpbrk, if_pos (Mem.hasString_nil.1 h)]
  | cons b s ih =>
    obtain ⟨fuel, rfl⟩ := Nat.exists_eq_add_one_of_ne_zero (by omega : fuel ≠ 0)
    obtain ⟨hb, ha, hs⟩ := Mem.hasString_cons.1 h
    rw [strpbrk, ha, if_neg hb, if_neg (hn b (List.mem_cons_self ..))]
    exact ih hs (fun b h => hn b (List.mem_cons_of_mem _ h)) (by simpa using hf)

theorem strpbrk_first (h : m.HasString a (t ++ c :: s)) (hn : ∀ b ∈ t, b ∉ accept)
    (hc : c ∈ accept) (hf : t.length < fuel) : strpbrk m accept fuel a = some (a + t.length) := by
  induction t generalizing a fuel with
  | nil =>
    obtain ⟨fuel, rfl⟩ := Nat.exists_eq_add_one_of_ne_zero (by omega : fuel ≠ 0)
    obtain ⟨h0, ha, -⟩ := Mem.hasString_cons.1 h
    rw [strpbrk, ha, if_neg h0, if_pos hc]
    rfl
  | cons b t ih =>
    obtain ⟨fuel, rfl⟩ := Nat.exists_eq_add_one_of_ne_zero (by omega : fuel ≠ 0)
    obtain ⟨hb, ha, hs⟩ := Mem.hasString_cons.1 h
    rw [strpbrk, ha, if_neg hb, if_neg (hn b (List.mem_cons_self ..)),
      ih hs (fun b h => hn b (List.mem_cons_of_mem _ h)) (by simpa using hf), List.length_cons]
    congr 1
    omega

/-- The last token takes the whole string. -/
theorem strsep_last (h : m.HasString a s) (ha : a ≠ 0) (hn : ∀ b ∈ s, b ∉ accept)
    (hf : s.length < fuel) : strsep m accept fuel a = some (a, 0, m) := by
  rw [strsep, if_neg ha, strpbrk_none h hn hf]
  rfl

/-- A token ends at the first delimiter, which is overwritten. -/
theorem strsep_cut (h : m.HasString a (t ++ c :: s)) (ha : a ≠ 0) (hn : ∀ b ∈ t, b ∉ accept)
    (hc : c ∈ accept) (hf : t.length < fuel) :
    ∃ m', strsep m accept fuel a = some (a, a + t.length + 1, m') ∧ m'.HasString a t ∧
      m'.HasString (a + t.length + 1) s ∧ ∀ x < a, m' x = m x := by
  refine ⟨m.store8 (a + t.length) 0, ?_, ?_, ?_, fun x hx => Mem.store8_out (by omega)⟩
  · rw [strsep, if_neg ha, strpbrk_first h hn hc hf]
    show (if a + t.length = 0 then _ else _) = _
    rw [if_neg (by omega)]
  · obtain ⟨h0, h1, -⟩ := h
    refine ⟨fun hz => h0 (List.mem_append_left _ hz), fun j hj => ?_, Mem.store8_in ..⟩
    rw [Mem.store8_out (by omega), h1 j (by rw [List.length_append]; omega),
      List.getElem_append_left hj]
  · obtain ⟨h0, h1, h2⟩ := h
    rw [List.length_append, List.length_cons] at h2
    refine ⟨fun hz => h0 (by simp [hz]), fun j hj => ?_, ?_⟩
    · have := h1 (t.length + 1 + j) (by rw [List.length_append, List.length_cons]; omega)
      rw [Mem.store8_out (by omega), show a + t.length + 1 + j = a + (t.length + 1 + j) by omega,
        this, List.getElem_append_right (by omega)]
      simp only [Nat.add_assoc, Nat.add_sub_cancel_left, Nat.add_comm 1 j, List.getElem_cons_succ]
    · rw [Mem.store8_out (by omega), show a + t.length + 1 + s.length =
        a + (t.length + (s.length + 1)) by omega, h2]

end

/-! ## Bounded copies -/

/-- `strncpy`; what is left of `dest` behind the string is filled with zeros. -/
def strncpy : ℕ → Mem → ℕ → ℕ → Mem
  | 0, m, _, _ => m
  | n + 1, m, dest, src =>
    if m src = 0 then m.fill dest 0 (n + 1)
    else strncpy n (m.store8 dest (m src)) (dest + 1) (src + 1)

theorem strncpy_eq {n : ℕ} (h : m.HasString a s) (hapart : b + n ≤ a ∨ a + s.length < b) (x : ℕ) :
    strncpy n m b a x = if b ≤ x ∧ x < b + n then s[x - b]?.getD 0 else m x := by
  induction s generalizing m n a b with
  | nil =>
    cases n with
    | zero => rw [strncpy, if_neg (by omega)]
    | succ n =>
      rw [strncpy, if_pos (Mem.hasString_nil.1 h)]
      rfl
  | cons c s ih =>
    cases n with
    | zero => rw [strncpy, if_neg (by omega)]
    | succ n =>
      obtain ⟨hc, ha, hs⟩ := Mem.hasString_cons.1 h
      rw [List.length_cons] at hapart
      have hs' : (m.store8 b c).HasString (a + 1) s :=
        hs.congr fun x h1 h2 => Mem.store8_out (by omega)
      rw [strncpy, ha, if_neg hc, ih hs' (by omega)]
      by_cases hx : x = b
      · rw [hx, if_neg (by omega), if_pos (by omega), Mem.store8_in, Nat.sub_self]
        rfl
      · by_cases hin : b + 1 ≤ x ∧ x < b + 1 + n
        · obtain ⟨d, hd⟩ : ∃ d, x - b = d + 1 := ⟨x - b - 1, by omega⟩
          rw [if_pos hin, if_pos (by omega), hd, List.getElem?_cons_succ,
            show x - (b + 1) = d by omega]
        · rw [if_neg hin, if_neg (by omega), Mem.store8_out hx]

/-- A copy with its last byte made the terminator is the string, cut where it does not fit. -/
theorem hasString_strncpy {n : ℕ} (h : m.HasString a s)
    (hapart : b + (n + 1) ≤ a ∨ a + s.length < b) :
    ((strncpy (n + 1) m b a).store8 (b + n) 0).HasString b (s.take n) := by
  have hlen : (s.take n).length ≤ n := List.length_take_le ..
  refine ⟨fun h0 => h.1 (List.mem_of_mem_take h0), fun j hj => ?_, ?_⟩
  · have hjs : j < s.length := by
      rw [List.length_take] at hj
      omega
    rw [Mem.store8_out (by omega), strncpy_eq h hapart, if_pos (by omega),
      Nat.add_sub_cancel_left, List.getElem?_eq_getElem hjs, List.getElem_take]
    rfl
  · by_cases hn : (s.take n).length = n
    · rw [hn, Mem.store8_in]
    · have hs : s.length = (s.take n).length := by
        rw [List.length_take] at hn ⊢
        omega
      rw [Mem.store8_out (by omega), strncpy_eq h hapart, if_pos (by omega),
        Nat.add_sub_cancel_left, List.getElem?_eq_none (by omega)]
      rfl

/-- Elsewhere nothing changes. -/
theorem strncpy_out {n x : ℕ} (h : m.HasString a s) (hapart : b + (n + 1) ≤ a ∨ a + s.length < b)
    (hx : x < b ∨ b + (n + 1) ≤ x) : (strncpy (n + 1) m b a).store8 (b + n) 0 x = m x := by
  rw [Mem.store8_out (by omega), strncpy_eq h hapart, if_neg (by omega)]

end Ttos
