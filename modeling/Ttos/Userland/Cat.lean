/-
  `cat` (userland/cat).

  * `catMain`: the program, over the system calls it makes.
  * `cat_prints`: it prints the file that its path leads to, and leaves no descriptor open.
-/
import Ttos.Userland.Console

namespace Ttos

open Allocator

/-! ## The code -/

section

variable {σ δ : Type} [Allocator σ] (machine : Machine σ δ) (process : ℕ)

/-- The loop: `buffer` is the array on the stack. -/
def catLoop (fd : Int) : ℕ → Mem → ConsoleM σ δ Unit
  | 0, _ => throw (.files .diverge)
  | k + 1, buffer => do
    let (bytesRead, buffer) ← onFds (syscallReadFile machine process fd 512 buffer)
    if 0 < bytesRead then do
      let _ ← syscallWriteOut ((List.range bytesRead.toNat).map buffer)
      catLoop fd k buffer
    else pure ()

/-- `main` -/
def catMain (fuel : ℕ) (argv : List (List UInt8)) (buffer : Mem) : ConsoleM σ δ Int :=
  match argv with
  | _ :: path :: _ => do
    let fd ← onFds (syscallOpen machine process path fileRdonly)
    if fd < 0 then do
      let _ ← syscallWriteOut (ascii "cat: cannot open file\n")
      pure 1
    else do
      catLoop machine process fd fuel buffer
      let _ ← onFds (syscallClose process fd)
      let _ ← syscallWriteOut [0x0A]
      pure 0
  | _ => do
    let _ ← syscallWriteOut (ascii "usage: cat <path>\n")
    pure 1

end

/-! ## What is shown -/

/-- What `cat` shows of a file: of every 512 bytes those before the first zero byte. -/
def catShown (data : List UInt8) : List UInt8 :=
  if data = [] then [] else (data.take 512).takeWhile (· ≠ 0) ++ catShown (data.drop 512)
termination_by data.length
decreasing_by
  rename_i h
  have := List.length_pos_iff.2 h
  rw [List.length_drop]
  omega

theorem catShown_nil : catShown [] = [] := by rw [catShown, if_pos rfl]

/-- A text file is shown as it is. -/
theorem catShown_text {data : List UInt8} (h : 0 ∉ data) : catShown data = data := by
  induction data using catShown.induct with
  | case1 => exact catShown_nil
  | case2 data hne ih =>
    have hfirst : (data.take 512).takeWhile (· ≠ 0) = data.take 512 := by
      refine List.takeWhile_eq_self_iff.2 fun c hc => ?_
      refine decide_eq_true ?_
      rintro rfl
      exact h (List.mem_of_mem_take hc)
    rw [catShown, if_neg hne, hfirst, ih fun h0 => h (List.mem_of_mem_drop h0),
      List.take_append_drop]

section

variable {tree : FileTree} {no offset : ℕ}

/-- One round of the loop. -/
theorem catShown_rest (h : offset < tree.length no) :
    catShown (tree.rest no offset) =
      ((List.range (available (tree.length no) offset 512)).map
        fun j => tree.byte no (offset + j)).takeWhile (· ≠ 0) ++
      catShown (tree.rest no (offset + available (tree.length no) offset 512)) := by
  have hpiece : tree.rest no offset =
      ((List.range (available (tree.length no) offset 512)).map
        fun j => tree.byte no (offset + j)) ++
      tree.rest no (offset + available (tree.length no) offset 512) :=
    FileTree.rest_append (by unfold available; omega)
  have hne : tree.rest no offset ≠ [] := by
    intro h0
    have hlen : (tree.rest no offset).length = tree.length no - offset := by
      rw [FileTree.rest, List.length_map, List.length_range]
    rw [h0, List.length_nil] at hlen
    omega
  have hlen : ((List.range (available (tree.length no) offset 512)).map
      fun j => tree.byte no (offset + j)).length = available (tree.length no) offset 512 := by
    rw [List.length_map, List.length_range]
  rw [catShown, if_neg hne, hpiece]
  by_cases hfull : 512 ≤ tree.length no - offset
  · have havail : available (tree.length no) offset 512 = 512 := min_eq_left hfull
    rw [havail] at hlen ⊢
    rw [List.take_left' hlen, List.drop_left' hlen]
  · -- the last piece
    have havail : available (tree.length no) offset 512 = tree.length no - offset :=
      min_eq_right (by omega)
    rw [havail] at hlen ⊢
    rw [FileTree.rest_eq_nil (by omega : tree.length no ≤ offset + (tree.length no - offset)),
      List.append_nil, List.take_of_length_le (by omega), List.drop_eq_nil_of_le (by omega)]

end

/-! ## The program -/

section

variable {σ δ : Type} [Allocator σ] {machine : Machine σ δ} {images : ℕ → VolumeImage}
  {process fd a no offset : ℕ} {s : ConsoleState σ δ}

/-- **The loop** shows the rest of the file. -/
theorem meets_catLoop (hfd : fd < processMaxFileDescriptors)
    (hlt : (images a).tree.length no < 2147483648) {k : ℕ} (buffer : Mem)
    (h : ReadsFile machine images process fd a no offset s.fds)
    (hk : (images a).tree.length no - offset < k) :
    Meets NoRoom (catLoop machine process (fd : Int) k buffer) s fun _ s' =>
      s'.tty = s.tty.puts (catShown ((images a).tree.rest no offset)) ∧
        s'.fds.files = s.fds.files ∧ s'.fds.io.mountpoints = s.fds.io.mountpoints ∧
        ReadsFile machine images process fd a no ((images a).tree.length no) s'.fds := by
  induction k generalizing s offset buffer with
  | zero => exact absurd hk (Nat.not_lt_zero _)
  | succ k ih =>
    have hle := h.reading.offset_le
    rw [catLoop]
    refine (meets_readNext hfd hlt h (by decide) buffer).bind ?_
    rintro ⟨bytesRead, buffer'⟩ s₁ ⟨htty, hfiles, hmounts, hcount, hdata, h₁⟩
    dsimp only at hcount hdata ⊢
    split_ifs with hpos
    · -- some bytes were read
      rw [hcount] at hpos
      rw [hcount, Int.toNat_natCast] at hdata
      rw [hcount, Int.toNat_natCast]
      have hlen : available ((images a).tree.length no) offset 512 ≤ 512 := min_le_left _ _
      have hmore : offset < (images a).tree.length no := by
        unfold available at hpos
        omega
      have hsize : ((List.range (available ((images a).tree.length no) offset 512)).map buffer').length =
          available ((images a).tree.length no) offset 512 := by
        rw [List.length_map, List.length_range]
      refine (meets_syscallWriteOut _ ?_).bind ?_
      · rw [hsize]
        exact ⟨by omega, by omega⟩
      rintro _ s₂ ⟨-, htty₂, hsame⟩
      refine (ih buffer' (h₁.same hsame) (by omega)).mono ?_
      rintro _ s₃ ⟨htty₃, hfiles₃, hmounts₃, h₃⟩
      refine ⟨?_, hfiles₃.trans (hsame.files.trans hfiles),
        hmounts₃.trans (hsame.mountpoints.trans hmounts), h₃⟩
      rw [htty₃, htty₂, htty, hdata, ← IdleTty.puts_append, catShown_rest hmore]
    · -- the end of the file
      have hend : offset = (images a).tree.length no := by
        rw [hcount] at hpos
        unfold available at hpos
        omega
      have havail : available ((images a).tree.length no) offset 512 = 0 := by
        unfold available
        omega
      rw [havail, Nat.add_zero, hend] at h₁
      refine Meets.pure ⟨?_, hfiles, hmounts, h₁⟩
      rw [htty, FileTree.rest_eq_nil hend.ge, catShown_nil]
      rfl

/-- What `cat` did: there was no file to open, or it is on the terminal. -/
def CatDone (images : ℕ → VolumeImage) (process : ℕ) (path : List UInt8) (s : ConsoleState σ δ)
    (r : Int) (s' : ConsoleState σ δ) : Prop :=
  r = 1 ∧ s'.tty = s.tty.puts (ascii "cat: cannot open file\n") ∧
      (pathTarget images s.fds.io path = none ∨ s.fds.freeFd process = none) ∨
    r = 0 ∧ s.fds.freeFd process ≠ none ∧
      ∃ a no, pathTarget images s.fds.io path = some (a, ⟨.file, no⟩) ∧ s'.tty = s.tty.puts
        (catShown ((images a).tree.first no ((images a).tree.length no)) ++ [0x0A])

/-- The error message.  A failed call has changed no descriptor. -/
theorem meets_catFails {s₁ : ConsoleState σ δ} {path : List UInt8} (htty : s₁.tty = s.tty)
    (hs₁ : OpenFiles machine images s₁.fds) (hfiles : s₁.fds.files = s.fds.files)
    (hmounts : s₁.fds.io.mountpoints = s.fds.io.mountpoints)
    (hwhy : pathTarget images s.fds.io path = none ∨ s.fds.freeFd process = none) :
    Meets NoRoom (do
      let _ ← syscallWriteOut (ascii "cat: cannot open file\n")
      pure (1 : Int)) s₁ fun r s' =>
        CatDone images process path s r s' ∧ OpenFiles machine images s'.fds ∧
          s'.fds.files = s.fds.files ∧ s'.fds.io.mountpoints = s.fds.io.mountpoints := by
  have hmessage : 0 ∉ ascii "cat: cannot open file\n" := by decide +kernel
  have hrequest : Request ((ascii "cat: cannot open file\n").length + 1) := by decide +kernel
  refine (meets_syscallWriteOut _ hrequest).bind ?_
  rintro _ s₂ ⟨-, htty₂, hsame⟩
  refine Meets.pure ⟨Or.inl ⟨rfl, ?_, hwhy⟩, hsame.openFiles hs₁, hsame.files.trans hfiles,
    hsame.mountpoints.trans hmounts⟩
  rw [htty₂, htty, puts_message _ hmessage]

/-- The file that was opened is shown from its first byte on, and its descriptor closed. -/
theorem meets_catOpened (h3 : 3 ≤ fd) (hfd : fd < processMaxFileDescriptors)
    (hlt : (images a).tree.length no < 2147483648) {k : ℕ} (hk : 2147483648 ≤ k) (buffer : Mem)
    (h : ReadsFile machine images process fd a no 0 s.fds) :
    Meets NoRoom (do
      catLoop machine process (fd : Int) k buffer
      let _ ← onFds (syscallClose process (fd : Int))
      let _ ← syscallWriteOut [0x0A]
      pure (0 : Int)) s fun r s' =>
        r = 0 ∧ s'.tty = s.tty.puts
          (catShown ((images a).tree.first no ((images a).tree.length no)) ++ [0x0A]) ∧
        OpenFiles machine images s'.fds ∧
        s'.fds.files = Function.update s.fds.files process
          (Function.update (s.fds.files process) fd 0) ∧
        s'.fds.io.mountpoints = s.fds.io.mountpoints := by
  refine (meets_catLoop hfd hlt buffer h (by omega)).bind ?_
  rintro _ s₂ ⟨htty₂, hfiles₂, hmounts₂, ho₂, h0₂, hr₂⟩
  refine (meets_onFds (meets_syscallClose ho₂ h3 hfd h0₂ hr₂)).bind ?_
  rintro _ s₃ ⟨htty₃, -, o₃, hc₃, hs₃⟩
  refine (meets_syscallWriteOut [0x0A] (by decide)).bind ?_
  rintro _ s₄ ⟨-, htty₄, hsame⟩
  have ho₃ : OpenFiles machine images s₃.fds := by
    rw [hs₃]
    exact ho₂.change hc₃
  have hfiles₃ : s₃.fds.files = Function.update s₂.fds.files process
      (Function.update (s₂.fds.files process) fd 0) := by rw [hs₃]; rfl
  refine Meets.pure ⟨rfl, ?_, hsame.openFiles ho₃, ?_, ?_⟩
  · rw [htty₄, htty₃, htty₂, ← FileTree.rest_zero, IdleTty.puts_append]
    rfl
  · rw [hsame.files, hfiles₃, hfiles₂]
  · rw [hsame.mountpoints, hs₃]
    exact hmounts₂

/-- **`cat` prints its file.**  Whatever other descriptors are open, in this process or another,
it returns and leaves them as they are, and its own closed again. -/
theorem cat_prints (s : ConsoleState σ δ) (hs : OpenFiles machine images s.fds) (name : List UInt8)
    (path : CString) (hpath : FilePath images s.fds.io path.bytes)
    (hlt : ∀ a id, pathTarget images s.fds.io path.bytes = some (a, id) →
      (images a).tree.length id.inode < 2147483648) (buffer : Mem) :
    ∃ rounds, ∀ fuel ≥ rounds,
      Meets NoRoom (catMain machine process fuel [name, path.bytes] buffer) s fun r s' =>
        CatDone images process path.bytes s r s' ∧ OpenFiles machine images s'.fds ∧
          s'.fds.files = s.fds.files ∧ s'.fds.io.mountpoints = s.fds.io.mountpoints := by
  refine ⟨2147483648, fun fuel hfuel => ?_⟩
  have hadm : (FdCall.open process path fileRdonly).Admissible images s.fds :=
    ⟨hpath, by decide, hlt⟩
  rw [catMain]
  refine (meets_onFds (meets_syscallOpen hs hadm)).bind ?_
  rintro r s₁ ⟨htty, hopened⟩
  rcases hopened with ⟨rfl, hs₁, hcreat | hfull⟩ |
    ⟨o, fd, ptr, hfree, hc, hs₁, ⟨rfl, rfl, hnone⟩ | ⟨rfl, h0, -, a, no, htarget, hr⟩⟩
  · exact absurd rfl hcreat
  · rw [if_pos (by decide)]
    exact meets_catFails htty (by rw [hs₁]; exact hs) (by rw [hs₁]) (by rw [hs₁]) (Or.inr hfull)
  · obtain ⟨-, -, hclosed, -⟩ := freeFd_some hfree
    rw [if_pos (by decide)]
    refine meets_catFails htty (by rw [hs₁]; exact hs.change hc) ?_ (by rw [hs₁]; rfl)
      (Or.inl hnone)
    rw [hs₁, change_closed _ _ hclosed]
  · -- the file is open
    obtain ⟨h3, hfd, hclosed, -⟩ := freeFd_some hfree
    have hfile : s₁.fds.files process fd = ptr := by
      rw [hs₁]
      exact files_setFile_self _ _ _ _
    have hreads : ReadsFile machine images process fd a no 0 s₁.fds := by
      refine ⟨by rw [hs₁]; exact hs.change hc, by rwa [hfile], ?_⟩
      rw [hfile, hs₁]
      exact hr
    rw [if_neg (by omega)]
    refine (meets_catOpened h3 hfd (hlt a ⟨.file, no⟩ htarget) hfuel buffer hreads).mono ?_
    rintro _ s₂ ⟨rfl, htty₂, hopen₂, hfiles₂, hmounts₂⟩
    refine ⟨Or.inr ⟨rfl, ?_, a, no, htarget, by rw [htty₂, htty]⟩, hopen₂, ?_,
      hmounts₂.trans (by rw [hs₁]; rfl)⟩
    · rw [hfree]
      exact Option.some_ne_none fd
    · -- the descriptor is closed again
      have hset : s₁.fds.files = Function.update s.fds.files process
          (Function.update (s.fds.files process) fd ptr) := by rw [hs₁]; rfl
      rw [hfiles₂, hset, Function.update_self, Function.update_idem, Function.update_idem,
        ← hclosed, Function.update_eq_self, Function.update_eq_self]

end

/-! ## A run -/

/-- `cat A:/hi` prints `hi` and a line feed. -/
theorem cat_prints_hi : ∃ rounds, ∀ fuel ≥ rounds,
    Meets NoRoom (catMain dirImageMachine 1 fuel [ascii "cat", dirImageFile.bytes] fun _ => 0)
      dirImageConsole fun r s' =>
        r = 0 ∧ s'.tty = dirImageConsole.tty.puts [0x68, 0x69, 0x0A] ∧ s'.fds.files 1 3 = 0 := by
  have htarget : pathTarget dirImageImages dirImageIo dirImageFile.bytes = some (1, ⟨.file, 3⟩) := by
    decide +kernel
  have hdata : (dirImageImages 1).tree.first 3 ((dirImageImages 1).tree.length 3) = [0x68, 0x69] := by
    decide +kernel
  have hfree : dirImageFds.freeFd 1 = some 3 := by decide +kernel
  have hopen : OpenFiles dirImageMachine dirImageImages dirImageFds := by
    refine ⟨dirImageIo_table, fun _ _ h0 => ?_, fun _ _ h0 => ?_, fun _ _ _ _ _ h0 => ?_⟩
    all_goals exact absurd rfl h0
  have hfile : ∀ a id, pathTarget dirImageImages dirImageIo dirImageFile.bytes = some (a, id) →
      id = ⟨.file, 3⟩ ∧ a = 1 := by
    intro a id h
    obtain ⟨ha, hid⟩ := Prod.mk.inj (Option.some.inj (h.symm.trans htarget))
    exact ⟨hid, ha⟩
  have hlength : (dirImageImages 1).tree.length 3 < 2147483648 := by decide +kernel
  obtain ⟨rounds, hrun⟩ := cat_prints dirImageConsole hopen (ascii "cat") dirImageFile
    (fun a id h => by rw [(hfile a id h).1])
    (fun a id h => by
      obtain ⟨rfl, rfl⟩ := hfile a id h
      exact hlength) fun _ => 0
  refine ⟨rounds, fun fuel hfuel => (hrun fuel hfuel).mono ?_⟩
  rintro r s' ⟨⟨-, -, hnone | hfull⟩ | ⟨rfl, -, a, no, hpath, htty⟩, -, hfiles, -⟩
  · exact absurd (htarget.symm.trans hnone) (Option.some_ne_none _)
  · exact absurd (hfree.symm.trans hfull) (Option.some_ne_none _)
  · obtain ⟨hid, rfl⟩ := hfile a _ hpath
    obtain rfl : no = 3 := congrArg FileId.inode hid
    refine ⟨rfl, ?_, by rw [hfiles]; rfl⟩
    rw [htty, hdata, catShown_text (by decide)]
    rfl

end Ttos
