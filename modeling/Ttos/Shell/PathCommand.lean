/-
  The command `path` of the shell: `shell_path` does what `pathCommand` says.

  * `shellPathFind_spec`: the loop that looks for a directory finds the first one.
  * `shellPath_spec`: the directories after the command and what it prints; nothing
    outside `search_paths` and `query` is written.
-/
import Ttos.Shell.SearchPath

namespace Ttos

section

variable {fuel : ℕ} {arrays : ShellArrays} {s : ShellState} {m : Mem} {a : ℕ} {argv : List ℕ}
  {args paths pre suf : List (List UInt8)} {dir query : List UInt8}

/-- What `shell_path` leaves as it is. -/
structure Leaves (arrays : ShellArrays) (s s' : ShellState) : Prop where
  historyCount : s'.shell.historyCount = s.shell.historyCount
  frame : ∀ x, (x < arrays.searchPaths ∨ arrays.searchPaths + 1024 ≤ x) →
    (x < arrays.query ∨ arrays.query + 128 ≤ x) → s'.memory x = s.memory x

/-- A message is printed. -/
theorem leaves_print (arrays : ShellArrays) (s : ShellState) (text : List UInt8) :
    Leaves arrays s (s.print text) where
  historyCount := rfl
  frame _ _ _ := rfl

theorem Searches.print (h : Searches arrays s paths) (text : List UInt8) :
    Searches arrays (s.print text) paths := h.congr rfl fun _ _ _ => rfl

variable (pre) in
/-- `path` without arguments. -/
theorem shellPathList_spec (h : Searches arrays s (pre ++ suf)) (hfuel : shellLineMax ≤ fuel) :
    ∃ s', (List.range' pre.length suf.length).foldlM (fun s index => do
        let dir ← readString fuel s.memory (searchSlot arrays index)
        return s.print (dir ++ [0x0A])) s = some s' ∧
      Searches arrays s' (pre ++ suf) ∧
      s'.events = s.events ++ suf.map (fun dir => .printed (dir ++ [0x0A])) ∧
      Leaves arrays s s' := by
  induction suf generalizing pre s with
  | nil =>
    refine ⟨s, rfl, h, ?_, rfl, fun _ _ _ => rfl⟩
    rw [List.map_nil, List.append_nil]
  | cons dir suf ih =>
    obtain ⟨hdir, hshort, hge, -⟩ := h.get
    have hslots := arrays.searchPaths_ne
    have hfuel' : 256 ≤ fuel := hfuel
    have hrest : Searches arrays (s.print (dir ++ [0x0A])) ((pre ++ [dir]) ++ suf) := by
      rw [List.append_assoc]
      exact h.print _
    obtain ⟨s', hrun, hs', hevents, hleaves⟩ := ih (pre ++ [dir]) hrest
    rw [List.length_append, List.length_singleton] at hrun
    rw [List.append_assoc] at hs'
    refine ⟨s', ?_, hs', ?_, hleaves.historyCount, hleaves.frame⟩
    · rw [List.length_cons, List.range'_succ, List.foldlM_cons,
        readString_hasString (by omega) hdir (by omega)]
      exact hrun
    · rw [hevents, List.map_cons]
      exact List.append_assoc s.events [_] _

/-- The loop that looks for the query. -/
theorem shellPathFind_spec (h : Rows m arrays.searchPaths shellPathMax (pre ++ suf))
    (hquery : m.HasString arrays.query query) (hfuel : shellPathMax ≤ fuel) :
    (query ∉ suf ∧ shellPathFind fuel arrays m suf.length pre.length = some none) ∨
      ∃ before behind, suf = before ++ query :: behind ∧ query ∉ before ∧
        shellPathFind fuel arrays m suf.length pre.length =
          some (some (pre.length + before.length)) := by
  induction suf generalizing pre with
  | nil => exact Or.inl ⟨List.not_mem_nil, rfl⟩
  | cons dir suf ih =>
    obtain ⟨hdir, hshort⟩ := h.get
    obtain ⟨r, hr, hiff⟩ := strcmpAt_hasString hdir hquery (hshort.trans_le hfuel)
    have hround : shellPathFind fuel arrays m (dir :: suf).length pre.length =
        if r = 0 then some (some pre.length)
        else shellPathFind fuel arrays m suf.length (pre.length + 1) := by
      rw [List.length_cons, shellPathFind]
      show (strcmpAt m fuel (arrays.searchPaths + shellPathMax * pre.length) arrays.query).bind _ = _
      rw [hr, Option.bind_some]
      rfl
    rw [hround]
    by_cases hsame : dir = query
    · subst hsame
      exact Or.inr ⟨[], suf, rfl, List.not_mem_nil, by rw [if_pos (hiff.2 rfl)]; rfl⟩
    · rw [if_neg fun h0 => hsame (hiff.1 h0)]
      have hrest : Rows m arrays.searchPaths shellPathMax ((pre ++ [dir]) ++ suf) := by
        rw [List.append_assoc]
        exact h
      have hfound := ih hrest
      rw [List.length_append, List.length_singleton] at hfound
      rcases hfound with ⟨hnot, hfind⟩ | ⟨before, behind, rfl, hnot, hfind⟩
      · exact Or.inl ⟨List.not_mem_cons_of_ne_of_not_mem (Ne.symm hsame) hnot, hfind⟩
      · refine Or.inr ⟨dir :: before, behind, rfl, List.not_mem_cons_of_ne_of_not_mem (Ne.symm hsame) hnot, ?_⟩
        rw [hfind, List.length_cons]
        congr 2
        omega

/-- A directory that does not fit is refused. -/
theorem shellPath_invalid (hdir : ArgAt s.memory arrays.line (arrays.line + 255) a dir)
    (hfuel : shellLineMax ≤ fuel) (hbad : dir = [] ∨ shellPathMax - 1 ≤ dir.length) :
    shellPathAdd fuel arrays s a = some (s.print (ascii "path: invalid directory\n")) ∧
      shellPathRemove fuel arrays s a = some (s.print (ascii "path: invalid directory\n")) := by
  rw [← List.length_eq_zero_iff] at hbad
  rw [shellPathAdd, shellPathRemove, strlen_hasString hdir.ne_null hdir.text (hdir.short hfuel), Nat.zero_add]
  simp only [Option.bind_eq_bind, Option.bind_some]
  rw [if_pos hbad, if_pos hbad]
  exact ⟨rfl, rfl⟩

/-- No directory is added to a full search path. -/
theorem shellPathAdd_full (h : Searches arrays s paths)
    (hdir : ArgAt s.memory arrays.line (arrays.line + 255) a dir) (hfuel : shellLineMax ≤ fuel)
    (hok : ¬ (dir = [] ∨ shellPathMax - 1 ≤ dir.length)) (hfull : shellMaxPaths ≤ paths.length) :
    shellPathAdd fuel arrays s a = some (s.print (ascii "path: search path is full\n")) := by
  rw [← List.length_eq_zero_iff] at hok
  rw [shellPathAdd, strlen_hasString hdir.ne_null hdir.text (hdir.short hfuel), Nat.zero_add]
  simp only [Option.bind_eq_bind, Option.bind_some]
  rw [if_neg hok, h.count, if_pos hfull]
  rfl

/-- **`path add`** -/
theorem shellPathAdd_spec (h : Searches arrays s paths)
    (hdir : ArgAt s.memory arrays.line (arrays.line + 255) a dir) (hfuel : shellLineMax ≤ fuel)
    (hne : dir ≠ []) (hlen : dir.length < shellPathMax - 1) (hroom : paths.length < shellMaxPaths) :
    ∃ s', shellPathAdd fuel arrays s a = some s' ∧ Searches arrays s' (paths ++ [withSlash dir]) ∧
      s'.events = s.events ∧ Leaves arrays s s' := by
  have hpos := List.length_pos_of_ne_nil hne
  have hline := arrays.paths_line
  have hge := hdir.ge
  have hle := hdir.le
  have hcount := h.count
  rw [shellPathAdd, strlen_hasString hdir.ne_null hdir.text (hdir.short hfuel), Nat.zero_add]
  simp only [Option.bind_eq_bind, Option.bind_some]
  rw [if_neg (by omega), if_neg (by omega), hcount]
  unfold Apart at hline
  unfold shellMaxPaths at hroom
  unfold shellPathMax at hlen
  obtain ⟨e, he⟩ : ∃ e, searchSlot arrays paths.length = e := ⟨_, rfl⟩
  have heq : e = arrays.searchPaths + 128 * paths.length := he.symm
  rw [he]
  obtain ⟨m₁, hcpy, hcopy, hframe₁⟩ := strcpy_hasString (b := e) hdir.text (hdir.short hfuel)
    (by unfold Apart; omega)
  obtain ⟨hentry, hentryLen, hframe₂⟩ := shellNormalize_spec hcopy hne
  rw [hcpy]
  refine ⟨_, rfl, ⟨?_, ?_, ?_⟩, rfl, rfl, fun x hx _ => ?_⟩
  · rw [List.length_append, List.length_singleton]
  · rw [List.length_append, List.length_singleton]
    exact hroom
  · refine h.rows.concat ?_ (by unfold shellPathMax; omega) fun x hx hx' => ?_
    · show (shellNormalize m₁ e dir.length).HasString (searchSlot arrays paths.length) _
      rw [he]
      exact hentry
    · show shellNormalize m₁ e dir.length x = s.memory x
      unfold shellPathMax at hx'
      rw [hframe₂ x (by omega), hframe₁ x (by omega)]
  · show shellNormalize m₁ e dir.length x = s.memory x
    rw [hframe₂ x (by omega), hframe₁ x (by omega)]

/-- **`path remove`** -/
theorem shellPathRemove_spec (h : Searches arrays s paths)
    (hdir : ArgAt s.memory arrays.line (arrays.line + 255) a dir) (hfuel : shellLineMax ≤ fuel)
    (hne : dir ≠ []) (hlen : dir.length < shellPathMax - 1) :
    ∃ s', shellPathRemove fuel arrays s a = some s' ∧
      Searches arrays s'
        (if withSlash dir ∈ paths then paths.erase (withSlash dir) else paths) ∧
      s'.events = (if withSlash dir ∈ paths then s.events
        else s.events ++ [.printed (ascii "path: not in search path: " ++ dir ++ [0x0A])]) ∧
      Leaves arrays s s' := by
  have hpos := List.length_pos_of_ne_nil hne
  have hline := arrays.query_line
  have hpathsApart := arrays.query_paths
  have hge := hdir.ge
  have hle := hdir.le
  have hcount := h.count
  rw [shellPathRemove, strlen_hasString hdir.ne_null hdir.text (hdir.short hfuel), Nat.zero_add]
  simp only [Option.bind_eq_bind, Option.bind_some]
  rw [if_neg (by omega)]
  unfold Apart at hline hpathsApart
  unfold shellPathMax at hlen
  unfold shellLineMax at hfuel
  -- the query, as directories are kept
  obtain ⟨m₁, hcpy, hcopy, hframe₁⟩ := strcpy_hasString (b := arrays.query) hdir.text
    (hdir.short hfuel) (by unfold Apart; omega)
  obtain ⟨hquery, -, hframe₂⟩ := shellNormalize_spec hcopy hne
  rw [hcpy, Option.bind_some]
  generalize shellNormalize m₁ arrays.query dir.length = m₂ at hquery hframe₂
  have hframe : ∀ x, (x < arrays.query ∨ arrays.query + 128 ≤ x) → m₂ x = s.memory x := by
    intro x hx
    rw [hframe₂ x (by omega), hframe₁ x (by omega)]
  have hs₂ : Searches arrays (s.setMemory m₂) paths :=
    h.congr rfl fun x hx hx' => hframe x (by omega)
  have hrows : Rows m₂ arrays.searchPaths shellPathMax ([] ++ paths) := hs₂.rows
  have hfind := shellPathFind_spec hrows hquery (by unfold shellPathMax; omega : shellPathMax ≤ fuel)
  rw [List.length_nil] at hfind
  rw [hcount]
  rcases hfind with ⟨hnot, hfind⟩ | ⟨before, behind, rfl, hnot, hfind⟩
  · have hdir₂ : m₂.HasString a dir := hdir.text.congr fun x hx hx' => hframe x (by omega)
    rw [hfind, Option.bind_some, if_neg hnot, if_neg hnot]
    simp only [readString_hasString hdir.ne_null hdir₂ (hdir.short hfuel), Option.bind_some]
    exact ⟨_, rfl, hs₂.print _, rfl, rfl, fun x _ hx => hframe x hx⟩
  · have hmem : withSlash dir ∈ before ++ withSlash dir :: behind :=
      List.mem_append_right _ (List.mem_cons_self ..)
    rw [hfind, Option.bind_some, if_pos hmem, if_pos hmem, List.erase_append_right _ hnot,
      List.erase_cons_head]
    obtain ⟨m₃, hshift, hrows₃, hframe₃⟩ := Rows.shift hrows
      (by unfold shellPathMax; omega : shellPathMax ≤ fuel)
    have hrun : (List.range' before.length behind.length).foldlM (fun m shift =>
        strcpy fuel m (searchSlot arrays shift) (searchSlot arrays (shift + 1))) m₂ = some m₃ := hshift
    have hle' := h.le
    rw [List.length_append, List.length_cons] at hle' ⊢
    unfold shellMaxPaths at hle'
    unfold shellPathMax at hframe₃
    simp only [Nat.zero_add]
    rw [show before.length + (behind.length + 1) - 1 - before.length = behind.length by omega, hrun]
    refine ⟨_, rfl, ⟨?_, ?_, hrows₃⟩, rfl, rfl, fun x hx hx' => ?_⟩
    · show before.length + (behind.length + 1) - 1 = _
      rw [List.length_append]
      omega
    · rw [List.length_append]
      unfold shellMaxPaths
      omega
    · show m₃ x = s.memory x
      rw [hframe₃ x (by omega), hframe x hx']

/-- **`shell_path`** -/
theorem shellPath_spec (h : Searches arrays s paths) (hargv : ArgvIs arrays s.memory argv args)
    (hfuel : shellLineMax ≤ fuel) :
    ∃ s', shellPath fuel arrays s argv = some s' ∧
      Searches arrays s' (pathCommand paths args).1 ∧
      s'.events = s.events ++ (pathCommand paths args).2 ∧ Leaves arrays s s' := by
  have hprint (text : List UInt8) : Searches arrays (s.print text) paths ∧
      (s.print text).events = s.events ++ [.printed text] ∧ Leaves arrays s (s.print text) :=
    ⟨h.print text, rfl, leaves_print arrays s text⟩
  cases hargv with
  | nil => exact ⟨_, rfl, hprint _⟩
  | @cons _ _ rest rest' hname hrest =>
    cases hrest with
    | nil =>
      have hlist := shellPathList_spec [] h hfuel
      rw [List.length_nil, ← h.count, ← List.range_eq_range'] at hlist
      exact hlist
    | @cons verb verbText rest rest' hverb hrest =>
      cases hrest with
      | nil => exact ⟨_, rfl, hprint _⟩
      | @cons dir dirText rest rest' hdir hrest =>
        have hadd := strcmp_literal hverb.text (by decide +kernel : (0 : UInt8) ∉ ascii "add")
        have hremove := strcmp_literal hverb.text (by decide +kernel : (0 : UInt8) ∉ ascii "remove")
        rw [shellPath, pathCommand]
        by_cases hv : verbText = ascii "add"
        · rw [if_pos (hadd.2 hv), if_pos hv]
          by_cases hbad : dirText = [] ∨ shellPathMax - 1 ≤ dirText.length
          · rw [(shellPath_invalid hdir hfuel hbad).1, if_pos hbad]
            exact ⟨_, rfl, hprint _⟩
          · rw [if_neg hbad]
            by_cases hfull : shellMaxPaths ≤ paths.length
            · rw [shellPathAdd_full h hdir hfuel hbad hfull, if_pos hfull]
              exact ⟨_, rfl, hprint _⟩
            · rw [if_neg hfull, List.append_nil]
              obtain ⟨hne, hlen⟩ := not_or.1 hbad
              exact shellPathAdd_spec h hdir hfuel hne (not_le.1 hlen) (not_le.1 hfull)
        · rw [if_neg fun hc => hv (hadd.1 hc), if_neg hv]
          by_cases hv' : verbText = ascii "remove"
          · rw [if_pos (hremove.2 hv'), if_pos hv']
            by_cases hbad : dirText = [] ∨ shellPathMax - 1 ≤ dirText.length
            · rw [(shellPath_invalid hdir hfuel hbad).2, if_pos hbad]
              exact ⟨_, rfl, hprint _⟩
            · obtain ⟨hne, hlen⟩ := not_or.1 hbad
              have hspec := shellPathRemove_spec h hdir hfuel hne (not_le.1 hlen)
              rw [if_neg hbad]
              by_cases hmem : withSlash dirText ∈ paths
              · rw [if_pos hmem, List.append_nil]
                rw [if_pos hmem, if_pos hmem] at hspec
                exact hspec
              · rw [if_neg hmem]
                rw [if_neg hmem, if_neg hmem] at hspec
                exact hspec
          · rw [if_neg fun hc => hv' (hremove.1 hc), if_neg hv']
            exact ⟨_, rfl, hprint _⟩

end

end Ttos
