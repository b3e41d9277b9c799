/-
  The tokenizer of the shell (userland/shell): `shell_tokenize` cuts a line into
  arguments, in place.

  * `Renders args line`: the line is a way to write the arguments, each bare or
    in double quotes.
  * `shell_tokenize_round_trip`: cutting such a line gives the arguments back.
-/
import Ttos.Util.Strings

namespace Ttos

def shellMaxArgs : ℕ := 32

/-- The loop that skips leading spaces. -/
def skipSpaces (m : Mem) : ℕ → ℕ → Option ℕ
  | 0, _ => none
  | k + 1, rest => if m rest = 0x20 then skipSpaces m k (rest + 1) else some rest

/-- The token at `rest`, in quotes or up to a space. -/
def shellToken (fuel : ℕ) (m : Mem) (rest : ℕ) : Option (ℕ × ℕ × Mem) :=
  if m rest = 0x22 then strsep m [0x22] fuel (rest + 1) else strsep m [0x20] fuel rest

/-- The loop of `shell_tokenize`; `argv` is what was stored so far, `0` is `NULL`. -/
def shellTokenizeLoop (fuel maxArgs : ℕ) : ℕ → Mem → ℕ → List ℕ → Option (Mem × List ℕ)
  | 0, _, _, _ => none
  | k + 1, m, rest, argv =>
    if rest ≠ 0 ∧ argv.length < maxArgs then do
      let rest ← skipSpaces m fuel rest
      if m rest = 0 then return (m, argv)
      let (token, rest, m) ← shellToken fuel m rest
      shellTokenizeLoop fuel maxArgs k m rest
        (if token ≠ 0 ∧ m token ≠ 0 then argv ++ [token] else argv)
    else some (m, argv)

/-- `shell_tokenize`: the line as it is afterwards, and `argv[0 .. argc)`. -/
def shellTokenize (fuel : ℕ) (m : Mem) (line maxArgs : ℕ) : Option (Mem × List ℕ) :=
  shellTokenizeLoop fuel maxArgs fuel m line []

/-! ## Lines -/

/-- An argument is written bare, if it has no space, or in quotes. -/
def RenderedArg (arg text : List UInt8) : Prop :=
  (0x20 ∉ arg ∧ text = arg) ∨ text = 0x22 :: (arg ++ [0x22])

/-- A line with the arguments, one or more spaces between them, and any number before the
first and behind the last. -/
inductive Renders : List (List UInt8) → List UInt8 → Prop
  | spaces (n : ℕ) : Renders [] (List.replicate n 0x20)
  | word (n : ℕ) {arg text line : List UInt8} {args : List (List UInt8)} :
      RenderedArg arg text → Renders args line → (args ≠ [] → line.head? = some 0x20) →
      Renders (arg :: args) (List.replicate n 0x20 ++ (text ++ line))

/-- What can be written: not empty, and without a quote. -/
def Quotable (arg : List UInt8) : Prop := arg ≠ [] ∧ 0x22 ∉ arg

instance (arg : List UInt8) : Decidable (Quotable arg) := inferInstanceAs (Decidable (_ ∧ _))

theorem head_of_rendered {arg text : List UInt8} (h : RenderedArg arg text) (hq : Quotable arg) :
    ∃ c rest, text = c :: rest ∧ c ≠ 0x20 := by
  rcases h with ⟨hsp, rfl⟩ | rfl
  · obtain ⟨c, rest, rfl⟩ := List.exists_cons_of_ne_nil hq.1
    exact ⟨c, rest, rfl, fun hc => hsp (hc ▸ List.mem_cons_self ..)⟩
  · exact ⟨_, _, rfl, by decide⟩

/-- One leading space more or less. -/
theorem Renders.tail {args : List (List UInt8)} {line : List UInt8} (h : Renders args (0x20 :: line))
    (hq : ∀ arg ∈ args, Quotable arg) : Renders args line := by
  generalize hl : 0x20 :: line = l at h
  cases h with
  | spaces n =>
    cases n with
    | zero => exact absurd hl (by simp)
    | succ n =>
      rw [List.replicate_succ, List.cons.injEq] at hl
      rw [hl.2]
      exact .spaces n
  | word n htext hrest hsep =>
    cases n with
    | zero =>
      obtain ⟨c, rest, rfl, hc⟩ := head_of_rendered htext (hq _ (List.mem_cons_self ..))
      exact absurd (List.cons.inj hl).1.symm hc
    | succ n =>
      rw [List.replicate_succ, List.cons_append, List.cons.injEq] at hl
      rw [hl.2]
      exact .word n htext hrest hsep

/-! ## Cutting them -/

variable {m : Mem} {fuel a : ℕ}

theorem skipSpaces_spec {n : ℕ} {rest : List UInt8}
    (h : m.HasString a (List.replicate n 0x20 ++ rest))
    (hrest : rest.head? ≠ some 0x20) {k : ℕ} (hk : n < k) :
    skipSpaces m k a = some (a + n) ∧ m.HasString (a + n) rest := by
  induction n generalizing a k with
  | zero =>
    obtain ⟨k, rfl⟩ := Nat.exists_eq_add_one_of_ne_zero (by omega : k ≠ 0)
    have hne : m a ≠ 0x20 := by
      cases rest with
      | nil => rw [Mem.hasString_nil.1 h]; decide
      | cons c rest =>
        obtain ⟨-, ha, -⟩ := Mem.hasString_cons.1 h
        intro hc
        exact hrest (by rw [List.head?_cons, ← ha, hc])
    rw [skipSpaces, if_neg hne]
    exact ⟨rfl, h⟩
  | succ n ih =>
    obtain ⟨k, rfl⟩ := Nat.exists_eq_add_one_of_ne_zero (by omega : k ≠ 0)
    rw [List.replicate_succ, List.cons_append] at h
    obtain ⟨-, ha, hs⟩ := Mem.hasString_cons.1 h
    obtain ⟨hskip, hat⟩ := ih hs (k := k) (by omega)
    rw [skipSpaces, if_pos ha, hskip, show a + 1 + n = a + (n + 1) by omega] at *
    exact ⟨rfl, hat⟩

/-- Cutting one argument off: the token is the argument, and the rest of the line is
behind it, or `NULL` if nothing is left. -/
theorem shellToken_spec {arg text line : List UInt8} {args : List (List UInt8)}
    (htext : RenderedArg arg text) (hq : Quotable arg) (hqs : ∀ arg ∈ args, Quotable arg)
    (hline : Renders args line) (hsep : args ≠ [] → line.head? = some 0x20)
    (h : m.HasString a (text ++ line)) (ha : a ≠ 0) (hfuel : (text ++ line).length < fuel) :
    ∃ token rest m', shellToken fuel m a = some (token, rest, m') ∧ a ≤ token ∧
      m'.HasString token arg ∧ (∀ x < a, m' x = m x) ∧
      ((rest = 0 ∧ args = []) ∨
        ∃ line', token + arg.length < rest ∧ m'.HasString rest line' ∧ Renders args line' ∧
          line'.length < fuel) := by
  rcases htext with ⟨hsp, rfl⟩ | rfl
  · -- a bare argument ends at a space or at the end of the line
    obtain ⟨c, arg, rfl⟩ := List.exists_cons_of_ne_nil hq.1
    have hc : m a ≠ 0x22 := by
      rw [(Mem.hasString_cons.1 h).2.1]
      intro hc
      exact hq.2 (hc ▸ List.mem_cons_self ..)
    have hnone : ∀ b ∈ c :: arg, b ∉ [0x20] := by
      intro b hb hmem
      exact hsp (List.mem_singleton.1 hmem ▸ hb)
    rw [List.length_append] at hfuel
    rw [shellToken, if_neg hc]
    cases line with
    | nil =>
      rw [List.append_nil] at h
      have hargs : args = [] := by
        by_contra hne
        exact absurd (hsep hne) (by simp)
      exact ⟨a, 0, m, strsep_last h ha hnone (by omega), le_rfl, h, fun _ _ => rfl,
        Or.inl ⟨rfl, hargs⟩⟩
    | cons d line =>
      have hd : d = 0x20 := by
        by_cases hne : args = []
        · subst hne
          generalize hl : d :: line = l at hline
          cases hline with
          | spaces n =>
            cases n with
            | zero => exact absurd hl (by simp)
            | succ n => exact (List.cons.inj hl).1
        · exact Option.some.inj (hsep hne)
      subst hd
      obtain ⟨m', hcut, htoken, hrest, hframe⟩ :=
        strsep_cut h ha hnone (List.mem_singleton_self _) (by omega : (c :: arg).length < fuel)
      simp only [List.length_cons] at hfuel
      exact ⟨a, _, m', hcut, le_rfl, htoken, hframe,
        Or.inr ⟨line, Nat.lt_succ_self _, hrest, hline.tail hqs, by omega⟩⟩
  · -- an argument in quotes ends at the closing quote
    rw [List.cons_append, List.append_assoc, List.singleton_append] at h
    obtain ⟨-, hquote, hinner⟩ := Mem.hasString_cons.1 h
    have hnone : ∀ b ∈ arg, b ∉ [0x22] := by
      intro b hb hmem
      exact hq.2 (List.mem_singleton.1 hmem ▸ hb)
    simp only [List.length_append, List.length_cons, List.length_nil] at hfuel
    obtain ⟨m', hcut, htoken, hrest, hframe⟩ := strsep_cut hinner (Nat.succ_ne_zero a) hnone
      (List.mem_singleton_self _) (by omega : arg.length < fuel)
    rw [shellToken, if_pos hquote]
    exact ⟨a + 1, _, m', hcut, Nat.le_succ a, htoken, fun x hx => hframe x (by omega),
      Or.inr ⟨line, Nat.lt_succ_self _, hrest, hline, by omega⟩⟩

/-- The loop cuts off all the arguments of the line. -/
theorem shellTokenizeLoop_spec {args : List (List UInt8)} {line : List UInt8} {maxArgs k : ℕ}
    {argv : List ℕ} (hr : Renders args line) (hq : ∀ arg ∈ args, Quotable arg)
    (h : m.HasString a line) (ha : a ≠ 0) (hfuel : line.length < fuel) (hk : args.length + 1 < k)
    (hmax : argv.length + args.length ≤ maxArgs) :
    ∃ m' new, shellTokenizeLoop fuel maxArgs k m a argv = some (m', argv ++ new) ∧
      List.Forall₂ m'.HasString new args ∧ ∀ x < a, m' x = m x := by
  induction args generalizing m a k line argv with
  | nil =>
    obtain ⟨k, rfl⟩ := Nat.exists_eq_add_one_of_ne_zero (by omega : k ≠ 0)
    refine ⟨m, [], ?_, .nil, fun _ _ => rfl⟩
    rw [List.append_nil, shellTokenizeLoop]
    split
    · cases hr with
      | spaces n =>
        rw [List.length_replicate] at hfuel
        rw [← List.append_nil (List.replicate n 0x20)] at h
        obtain ⟨hskip, hend⟩ := skipSpaces_spec h (by simp) hfuel
        simp [hskip, Mem.hasString_nil.1 hend]
    · rfl
  | cons arg args ih =>
    obtain ⟨k, rfl⟩ := Nat.exists_eq_add_one_of_ne_zero (by omega : k ≠ 0)
    rw [List.length_cons] at hk hmax
    generalize hargs : arg :: args = all at hr
    cases hr with
    | spaces n => exact absurd hargs (by simp)
    | @word n arg' text line args' htext hline hsep =>
      obtain ⟨rfl, rfl⟩ := List.cons.inj hargs
      have hqarg := hq arg (List.mem_cons_self ..)
      have hqs : ∀ arg ∈ args, Quotable arg := fun b hb => hq b (List.mem_cons_of_mem _ hb)
      obtain ⟨c, text', htc, hc⟩ := head_of_rendered htext hqarg
      have hhead : (text ++ line).head? ≠ some 0x20 := by
        rw [htc, List.cons_append, List.head?_cons]
        exact fun h => hc (Option.some.inj h)
      rw [List.length_append, List.length_replicate] at hfuel
      obtain ⟨hskip, hat⟩ := skipSpaces_spec h hhead (by omega : n < fuel)
      have hne : m (a + n) ≠ 0 := by
        rw [htc, List.cons_append] at hat
        obtain ⟨h0, hc', -⟩ := Mem.hasString_cons.1 hat
        rwa [hc']
      obtain ⟨token, rest, m', htoken, hpos, harg, hframe, hrest⟩ :=
        shellToken_spec htext hqarg hqs hline hsep hat (by omega) (by omega : _ < fuel)
      have hpush : token ≠ 0 ∧ m' token ≠ 0 := by
        obtain ⟨d, arg', rfl⟩ := List.exists_cons_of_ne_nil hqarg.1
        obtain ⟨h0, hd, -⟩ := Mem.hasString_cons.1 harg
        exact ⟨by omega, by rwa [hd]⟩
      have hround : shellTokenizeLoop fuel maxArgs (k + 1) m a argv =
          shellTokenizeLoop fuel maxArgs k m' rest (argv ++ [token]) := by
        rw [shellTokenizeLoop, if_pos ⟨ha, by omega⟩]
        simp [hskip, hne, htoken, hpush]
      rw [hround]
      rcases hrest with ⟨rfl, rfl⟩ | ⟨line', hlt, hline', hr', hfuel'⟩
      · obtain ⟨k, rfl⟩ := Nat.exists_eq_add_one_of_ne_zero (by omega : k ≠ 0)
        refine ⟨m', [token], ?_, .cons harg .nil, fun x hx => hframe x (by omega)⟩
        rw [shellTokenizeLoop, if_neg (fun h => h.1 rfl)]
      · have hmax' : (argv ++ [token]).length + args.length ≤ maxArgs := by
          rw [List.length_append, List.length_singleton]
          omega
        obtain ⟨m'', new, hloop, hnew, hframe'⟩ :=
          ih (k := k) hr' hqs hline' (by omega) hfuel' (by omega) hmax'
        refine ⟨m'', token :: new, ?_, .cons ?_ hnew, fun x hx => ?_⟩
        · rw [hloop, List.append_assoc, List.singleton_append]
        · exact harg.congr fun x hx hx' => hframe' x (by omega)
        · rw [hframe' x (by omega), hframe x (by omega)]

/-- **Quoting round trip**: cutting a line gives the arguments it was written with, for any
mixture of bare and quoted ones and any spaces around them. -/
theorem shell_tokenize_round_trip {args : List (List UInt8)} {line : List UInt8}
    (hr : Renders args line) (hq : ∀ arg ∈ args, Quotable arg) (hlen : args.length ≤ shellMaxArgs)
    (h : m.HasString a line) (ha : a ≠ 0) :
    ∃ rounds, ∀ fuel ≥ rounds, ∃ m' argv, shellTokenize fuel m a shellMaxArgs = some (m', argv) ∧
      List.Forall₂ m'.HasString argv args := by
  refine ⟨line.length + args.length + 2, fun fuel hfuel => ?_⟩
  have hmax : ([] : List ℕ).length + args.length ≤ shellMaxArgs := by
    rw [List.length_nil, Nat.zero_add]
    exact hlen
  obtain ⟨m', argv, hloop, hargv, -⟩ := shellTokenizeLoop_spec hr hq h ha
    (by omega : line.length < fuel) (by omega : args.length + 1 < fuel) hmax
  exact ⟨m', argv, hloop, hargv⟩

/-- The line `a  "b c"`. -/
theorem shell_tokenize_quoted :
    ∃ rounds, ∀ fuel ≥ rounds, ∃ m' argv,
      shellTokenize fuel (Mem.ofList [0, 0x61, 0x20, 0x20, 0x22, 0x62, 0x20, 0x63, 0x22] fun _ => 0)
        1 shellMaxArgs = some (m', argv) ∧
      List.Forall₂ m'.HasString argv [[0x61], [0x62, 0x20, 0x63]] := by
  have hr : Renders [[0x61], [0x62, 0x20, 0x63]] [0x61, 0x20, 0x20, 0x22, 0x62, 0x20, 0x63, 0x22] :=
    .word 0 (Or.inl ⟨by decide, rfl⟩) (.word 2 (Or.inr rfl) (.spaces 0) (by simp)) fun _ => rfl
  exact shell_tokenize_round_trip hr (by decide) (by decide) ⟨by decide, by decide, by decide⟩
    (by decide)

end Ttos
