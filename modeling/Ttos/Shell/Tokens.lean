/-
  What `shell_tokenize` makes of any line (userland/shell).

  * `tokens`: the tokens of a line, at most so many of them.
  * `shellTokenize_tokens`: the code leaves these in the line, and writes nowhere else.
-/
import Ttos.Shell.Tokenize
import Mathlib.Data.List.TakeWhile

namespace Ttos

/-! ## The tokens of a line -/

/-- The string up to a delimiter, and what is behind it. -/
def cutAt (d : UInt8) (s : List UInt8) : List UInt8 × List UInt8 :=
  (s.takeWhile (· ≠ d), (s.dropWhile (· ≠ d)).tail)

/-- The line without its leading spaces. -/
def skipped (line : List UInt8) : List UInt8 := line.dropWhile (· = 0x20)

/-- A token in quotes ends at the next quote, one without at the next space. -/
def cutToken (s : List UInt8) : List UInt8 × List UInt8 :=
  if s.head? = some 0x22 then cutAt 0x22 s.tail else cutAt 0x20 s

/-- What is left behind `dropWhile` begins with what stopped it. -/
theorem dropWhile_head {p : UInt8 → Bool} {s left : List UInt8} {c : UInt8}
    (h : s.dropWhile p = c :: left) : p c = false := by
  have hstop := List.head_dropWhile_not p (by rw [h]; exact List.cons_ne_nil c left)
  simpa only [h, List.head_cons] using hstop

theorem skipped_length_le (line : List UInt8) : (skipped line).length ≤ line.length :=
  (List.dropWhile_sublist _).length_le

theorem cutAt_length_le (d : UInt8) (s : List UInt8) : (cutAt d s).2.length ≤ s.length := by
  show (s.dropWhile _).tail.length ≤ _
  rw [List.length_tail]
  exact (Nat.sub_le ..).trans (List.dropWhile_sublist _).length_le

theorem cutToken_length_lt {s : List UInt8} (h : s ≠ []) : (cutToken s).2.length < s.length := by
  have hpos := List.length_pos_of_ne_nil h
  unfold cutToken
  split
  · refine (cutAt_length_le ..).trans_lt ?_
    rw [List.length_tail]
    omega
  · show (s.dropWhile _).tail.length < _
    have hle := (List.dropWhile_sublist (fun c : UInt8 => decide (c ≠ 0x20)) (l := s)).length_le
    rw [List.length_tail]
    omega

/-- The tokens of a line, at most `maxArgs`; empty ones are left out. -/
def tokens (maxArgs : ℕ) (line : List UInt8) : List (List UInt8) :=
  if maxArgs = 0 ∨ skipped line = [] then []
  else if (cutToken (skipped line)).1 = [] then tokens maxArgs (cutToken (skipped line)).2
  else (cutToken (skipped line)).1 :: tokens (maxArgs - 1) (cutToken (skipped line)).2
termination_by line.length
decreasing_by
  all_goals
    rename_i hmore _
    rw [not_or] at hmore
    exact (cutToken_length_lt hmore.2).trans_le (skipped_length_le line)

theorem tokens_nil (maxArgs : ℕ) : tokens maxArgs [] = [] := by
  rw [tokens]
  exact if_pos (Or.inr rfl)

/-! ## The code -/

section

variable {m : Mem} {fuel a : ℕ} {s line : List UInt8}

/-- `rest` is what is left of a string: it lies at `rest` and ends where the string did, or `rest`
    is `NULL` and nothing is left. -/
def RestAt (m : Mem) (rest : ℕ) (left : List UInt8) (stop : ℕ) : Prop :=
  (rest = 0 ∧ left = []) ∨ (rest ≠ 0 ∧ rest + left.length = stop ∧ m.HasString rest left)

/-- `strsep` with one delimiter, on any string. -/
theorem strsep_cutAt (d : UInt8) (h : m.HasString a s) (ha : a ≠ 0) (hf : s.length < fuel) :
    ∃ rest m', strsep m [d] fuel a = some (a, rest, m') ∧ m'.HasString a (cutAt d s).1 ∧
      a + (cutAt d s).1.length ≤ a + s.length ∧
      RestAt m' rest (cutAt d s).2 (a + s.length) ∧
      (rest = 0 ∨ a + (cutAt d s).1.length < rest) ∧
      ∀ x, x < a ∨ a + s.length ≤ x → m' x = m x := by
  have hsplit : s = (cutAt d s).1 ++ s.dropWhile (· ≠ d) := (List.takeWhile_append_dropWhile ..).symm
  have hnone : ∀ b ∈ (cutAt d s).1, b ∉ [d] := by
    intro b hb hmem
    have hbd := List.mem_takeWhile_imp hb
    rw [List.mem_singleton.1 hmem] at hbd
    simp at hbd
  have hle : (cutAt d s).1.length ≤ s.length := (List.takeWhile_sublist _).length_le
  cases hdrop : s.dropWhile (· ≠ d) with
  | nil =>
    -- no delimiter: the token is the whole string
    rw [hdrop, List.append_nil] at hsplit
    have hleft : (cutAt d s).2 = [] := by
      show (s.dropWhile _).tail = []
      rw [hdrop]
      rfl
    rw [← hsplit] at hnone ⊢
    exact ⟨0, m, strsep_last h ha hnone hf, h, le_rfl, Or.inl ⟨rfl, hleft⟩,
      Or.inl rfl, fun _ _ => rfl⟩
  | cons c left =>
    have hc : c = d := by
      have hstop := dropWhile_head hdrop
      simpa using hstop
    subst hc
    have hleft : (cutAt c s).2 = left := by
      show (s.dropWhile _).tail = left
      rw [hdrop]
      rfl
    rw [hdrop] at hsplit
    have hlen : s.length = (cutAt c s).1.length + (left.length + 1) := by
      conv_lhs => rw [hsplit]
      rw [List.length_append, List.length_cons]
    have h' : m.HasString a ((cutAt c s).1 ++ c :: left) := hsplit ▸ h
    have hp : strpbrk m [c] fuel a = some (a + (cutAt c s).1.length) :=
      strpbrk_first h' hnone (List.mem_singleton_self c) (by omega)
    obtain ⟨m', hcut, htoken, hrest, -⟩ :=
      strsep_cut h' ha hnone (List.mem_singleton_self c) (by omega : _ < fuel)
    have hm' : m' = m.store8 (a + (cutAt c s).1.length) 0 := by
      rw [strsep, if_neg ha, hp] at hcut
      simp only [if_neg (by omega : a + (cutAt c s).1.length ≠ 0), Option.some.injEq,
        Prod.mk.injEq] at hcut
      exact hcut.2.2.symm
    refine ⟨a + (cutAt c s).1.length + 1, m', hcut, htoken, by omega,
      Or.inr ⟨Nat.succ_ne_zero _, ?_, ?_⟩, Or.inr (Nat.lt_succ_self _), fun x hx => ?_⟩
    · rw [hleft]
      omega
    · rw [hleft]
      exact hrest
    · rw [hm']
      exact Mem.store8_out (by omega)

/-- The token at the first character that is no space. -/
theorem shellToken_cutToken (h : m.HasString a s) (ha : a ≠ 0) (hne : s ≠ [])
    (hf : s.length < fuel) :
    ∃ token rest m', shellToken fuel m a = some (token, rest, m') ∧ a ≤ token ∧
      token + (cutToken s).1.length ≤ a + s.length ∧ m'.HasString token (cutToken s).1 ∧
      RestAt m' rest (cutToken s).2 (a + s.length) ∧
      (rest = 0 ∨ token + (cutToken s).1.length < rest) ∧
      ∀ x, x < a ∨ a + s.length ≤ x → m' x = m x := by
  obtain ⟨c, s, rfl⟩ := List.exists_cons_of_ne_nil hne
  obtain ⟨-, hc, htail⟩ := Mem.hasString_cons.1 h
  rw [List.length_cons] at hf ⊢
  have htoken : cutToken (c :: s) = if c = 0x22 then cutAt 0x22 s else cutAt 0x20 (c :: s) := by
    unfold cutToken
    simp only [List.head?_cons, Option.some.injEq, List.tail_cons]
  rw [shellToken, hc, htoken]
  by_cases hq : c = 0x22
  · rw [if_pos hq, if_pos hq]
    obtain ⟨rest, m', hcut, htoken, hle, hrest, hlt, hframe⟩ :=
      strsep_cutAt 0x22 htail (Nat.succ_ne_zero a) (by omega : s.length < fuel)
    refine ⟨_, rest, m', hcut, Nat.le_succ a, by omega, htoken, ?_, hlt, fun x hx => hframe x (by omega)⟩
    rw [show a + (s.length + 1) = a + 1 + s.length by omega]
    exact hrest
  · rw [if_neg hq, if_neg hq]
    obtain ⟨rest, m', hcut, htoken, hle, hrest, hlt, hframe⟩ := strsep_cutAt 0x20 h ha hf
    exact ⟨_, rest, m', hcut, le_rfl, hle, htoken, hrest, hlt, hframe⟩

/-- The loop that skips spaces. -/
theorem skipSpaces_skipped (h : m.HasString a line) (hf : line.length < fuel) :
    ∃ rest, skipSpaces m fuel a = some rest ∧ a ≤ rest ∧
      rest + (skipped line).length = a + line.length ∧ m.HasString rest (skipped line) := by
  have hspaces : line.takeWhile (· = 0x20) =
      List.replicate (line.takeWhile (· = 0x20)).length 0x20 :=
    List.eq_replicate_of_mem fun b hb => by simpa using List.mem_takeWhile_imp hb
  have hsplit : List.replicate (line.takeWhile (· = 0x20)).length 0x20 ++ skipped line = line := by
    rw [← hspaces]
    exact List.takeWhile_append_dropWhile ..
  have hhead : (skipped line).head? ≠ some 0x20 := by
    cases hs : skipped line with
    | nil => simp
    | cons c rest =>
      have hc : ¬ c = 0x20 := of_decide_eq_false (dropWhile_head hs)
      rwa [List.head?_cons, ne_eq, Option.some.injEq]
  have hlen : (line.takeWhile (· = 0x20)).length + (skipped line).length = line.length := by
    conv_rhs => rw [← hsplit]
    rw [List.length_append, List.length_replicate]
  rw [← hsplit] at h
  obtain ⟨hskip, hat⟩ := skipSpaces_spec h hhead (k := fuel) (by omega)
  exact ⟨_, hskip, Nat.le_add_right .., by omega, hat⟩

/-- A pointer to an argument, which lies between `lo` and `hi`. -/
structure ArgAt (m : Mem) (lo hi token : ℕ) (arg : List UInt8) : Prop where
  ge : lo ≤ token
  le : token + arg.length ≤ hi
  text : m.HasString token arg

theorem ArgAt.mono {lo lo' hi hi' token : ℕ} {arg : List UInt8} (h : ArgAt m lo hi token arg)
    (hlo : lo' ≤ lo) (hhi : hi ≤ hi') : ArgAt m lo' hi' token arg where
  ge := hlo.trans h.ge
  le := h.le.trans hhi
  text := h.text

/-- The arguments in the rest of a line are arguments in the line. -/
theorem RestAt.args {m' : Mem} {rest stop n : ℕ} {left : List UInt8} {new : List ℕ}
    (h : RestAt m rest left stop) (hnew : List.Forall₂ (ArgAt m' rest stop) new (tokens n left))
    (hle : rest = 0 ∨ a ≤ rest) : List.Forall₂ (ArgAt m' a stop) new (tokens n left) := by
  rcases h with ⟨-, rfl⟩ | ⟨hrest, -, -⟩
  · rw [tokens_nil] at hnew ⊢
    cases hnew
    exact .nil
  · exact hnew.imp fun _ _ harg => harg.mono (hle.resolve_left hrest) le_rfl

/-- One round of the loop. -/
theorem shellTokenizeLoop_round {maxArgs : ℕ} {argv : List ℕ} (h : m.HasString a line) (ha : a ≠ 0)
    (hfuel : line.length < fuel) (hmax : argv.length < maxArgs) (hne : skipped line ≠ []) :
    ∃ token rest m',
      (∀ k, shellTokenizeLoop fuel maxArgs (k + 1) m a argv =
        shellTokenizeLoop fuel maxArgs k m' rest
          (if (cutToken (skipped line)).1 = [] then argv else argv ++ [token])) ∧
      ArgAt m' a (a + line.length) token (cutToken (skipped line)).1 ∧
      RestAt m' rest (cutToken (skipped line)).2 (a + line.length) ∧
      (rest = 0 ∨ token + (cutToken (skipped line)).1.length < rest) ∧
      ∀ x, x < a ∨ a + line.length ≤ x → m' x = m x := by
  obtain ⟨start, hskip, hge, hlen, hstart⟩ := skipSpaces_skipped h hfuel
  obtain ⟨token, rest, m', htoken, hpos, hle, harg, hrest, hlt, hframe⟩ :=
    shellToken_cutToken hstart (by omega) hne ((skipped_length_le line).trans_lt hfuel)
  rw [hlen] at hle hrest hframe
  refine ⟨token, rest, m', fun k => ?_, ⟨hge.trans hpos, hle, harg⟩, hrest, hlt,
    fun x hx => hframe x (by omega)⟩
  have hfirst : m start ≠ 0 := by
    obtain ⟨c, s, hs⟩ := List.exists_cons_of_ne_nil hne
    rw [hs] at hstart
    obtain ⟨h0, hc, -⟩ := Mem.hasString_cons.1 hstart
    rwa [hc]
  have hpush : (token ≠ 0 ∧ m' token ≠ 0) ↔ (cutToken (skipped line)).1 ≠ [] := by
    cases hcut : (cutToken (skipped line)).1 with
    | nil =>
      rw [hcut] at harg
      exact iff_of_false (fun hc => hc.2 (Mem.hasString_nil.1 harg)) fun hc => hc rfl
    | cons c s =>
      rw [hcut] at harg
      obtain ⟨h0, hc, -⟩ := Mem.hasString_cons.1 harg
      exact iff_of_true ⟨by omega, by rwa [hc]⟩ (List.cons_ne_nil c s)
  rw [shellTokenizeLoop, if_pos ⟨ha, hmax⟩]
  simp only [hskip, htoken, Option.bind_eq_bind, Option.bind_some, if_neg hfirst, hpush, ne_eq,
    ite_not]

end

/-- **The loop of `shell_tokenize`** on any line. -/
theorem shellTokenizeLoop_tokens {fuel maxArgs n stop : ℕ} {line : List UInt8} {m : Mem} {a k : ℕ}
    (argv : List ℕ) (hn : n = maxArgs - argv.length) (h : RestAt m a line stop)
    (hfuel : line.length < fuel) (hk : line.length < k) :
    ∃ m' new, shellTokenizeLoop fuel maxArgs k m a argv = some (m', argv ++ new) ∧
      List.Forall₂ (ArgAt m' a stop) new (tokens n line) ∧
      ∀ x, a = 0 ∨ x < a ∨ stop ≤ x → m' x = m x := by
  induction n, line using tokens.induct generalizing m a k argv with
  | case1 n line hstop =>
    obtain ⟨k, rfl⟩ := Nat.exists_eq_add_one_of_ne_zero (by omega : k ≠ 0)
    refine ⟨m, [], ?_, ?_, fun _ _ => rfl⟩
    · rw [List.append_nil, shellTokenizeLoop]
      rcases h with ⟨rfl, -⟩ | ⟨ha, -, h⟩
      · rw [if_neg fun hc => hc.1 rfl]
      · by_cases hmax : argv.length < maxArgs
        · obtain ⟨rest, hskip, -, -, hrest⟩ := skipSpaces_skipped h hfuel
          rw [hstop.resolve_left (by omega)] at hrest
          simp [hskip, Mem.hasString_nil.1 hrest]
        · rw [if_neg fun hc => hmax hc.2]
    · rw [tokens, if_pos hstop]
      exact .nil
  | case2 n line hmore hempty ih =>
    -- an empty token is left out
    obtain ⟨k, rfl⟩ := Nat.exists_eq_add_one_of_ne_zero (by omega : k ≠ 0)
    rw [not_or] at hmore
    have hshorter := (cutToken_length_lt hmore.2).trans_le (skipped_length_le line)
    obtain ⟨ha, rfl, hline⟩ := h.resolve_left fun hc => hmore.2 (by rw [hc.2]; rfl)
    obtain ⟨token, rest, m', hround, hat, hrest, hlt, hframe⟩ :=
      shellTokenizeLoop_round hline ha hfuel (by omega : argv.length < maxArgs) hmore.2
    have hge := hat.ge
    obtain ⟨m'', new, hloop, hnew, hframe'⟩ :=
      ih argv hn hrest (by omega) (by omega : List.length _ < k)
    rw [hround, if_pos hempty, tokens, if_neg (not_or.2 hmore), if_pos hempty]
    refine ⟨m'', new, hloop, hrest.args hnew (by omega), fun x hx => ?_⟩
    rw [hframe' x (by omega), hframe x (by omega)]
  | case3 n line hmore htoken ih =>
    obtain ⟨k, rfl⟩ := Nat.exists_eq_add_one_of_ne_zero (by omega : k ≠ 0)
    rw [not_or] at hmore
    have hshorter := (cutToken_length_lt hmore.2).trans_le (skipped_length_le line)
    obtain ⟨ha, rfl, hline⟩ := h.resolve_left fun hc => hmore.2 (by rw [hc.2]; rfl)
    obtain ⟨token, rest, m', hround, hat, hrest, hlt, hframe⟩ :=
      shellTokenizeLoop_round hline ha hfuel (by omega : argv.length < maxArgs) hmore.2
    have hge := hat.ge
    obtain ⟨m'', new, hloop, hnew, hframe'⟩ :=
      ih (argv ++ [token]) (by rw [List.length_append, List.length_singleton]; omega) hrest
        (by omega) (by omega : List.length _ < k)
    rw [hround, if_neg htoken, tokens, if_neg (not_or.2 hmore), if_neg htoken]
    rw [List.append_assoc, List.singleton_append] at hloop
    refine ⟨m'', token :: new, hloop, .cons ⟨hge, hat.le, ?_⟩ (hrest.args hnew (by omega)),
      fun x hx => ?_⟩
    · exact hat.text.congr fun x hx hx' => hframe' x (by omega)
    · rw [hframe' x (by omega), hframe x (by omega)]

/-- **`shell_tokenize` on any line** leaves its tokens in it, at most `maxArgs`, and writes
nowhere else. -/
theorem shellTokenize_tokens {fuel : ℕ} (maxArgs : ℕ) {line : List UInt8} {m : Mem} {a : ℕ}
    (h : m.HasString a line) (ha : a ≠ 0) (hfuel : line.length < fuel) :
    ∃ m' argv, shellTokenize fuel m a maxArgs = some (m', argv) ∧
      List.Forall₂ (ArgAt m' a (a + line.length)) argv (tokens maxArgs line) ∧
      ∀ x, x < a ∨ a + line.length ≤ x → m' x = m x := by
  obtain ⟨m', argv, hloop, hargv, hframe⟩ := shellTokenizeLoop_tokens []
    (Nat.sub_zero maxArgs).symm (Or.inr ⟨ha, rfl, h⟩) hfuel hfuel
  exact ⟨m', argv, hloop, hargv, fun x hx => hframe x (Or.inr hx)⟩

end Ttos
