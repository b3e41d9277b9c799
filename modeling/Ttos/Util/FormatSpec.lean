/-
  What the formatters write, how they count it, and where they read and write.

  * `formatOps`: a format with its arguments as the operations of a writer.
  * `formatLoop_touches`: the loop does these operations, reads exactly the bytes
    of the format up to its zero byte, and uses of its local buffer exactly the
    elements the texts of the numbers lie in.
  * `formatLoop_stray`: behind a lone `%` at the end of the format it reads on.
-/
import Ttos.Util.Format

namespace Ttos

/-! ## Formats -/

/-- A character of a format, a conversion, or a `%` with nothing behind it. -/
inductive FormatPiece where
  | char (ch : UInt8)
  | conv (c : Conversion)
  | stray
deriving DecidableEq, Repr

/-- A format cut into its pieces. -/
def formatPieces : List UInt8 → List FormatPiece
  | [] => []
  | [c] => if c = 0x25 then [.stray] else [.char c]
  | c :: d :: f =>
    if c = 0x25 then .conv (conversion d) :: formatPieces f else .char c :: formatPieces (d :: f)

/-- How many arguments a conversion takes. -/
def Conversion.arity : Conversion → ℕ
  | .percent | .other => 0
  | .double => 2
  | _ => 1

/-- The first argument is one for the conversion; doubles are left out. -/
def Conversion.Takes : Conversion → List FormatArg → Prop
  | .percent, _ | .other, _ => True
  | .double, _ => False
  | .string, args => ∃ arg ∈ args.head?, arg.string.isSome
  | _, args => args ≠ []

instance : (c : Conversion) → (args : List FormatArg) → Decidable (c.Takes args)
  | .percent, _ | .other, _ => isTrue trivial
  | .double, _ => isFalse not_false
  | .string, args => inferInstanceAs (Decidable (∃ arg ∈ args.head?, arg.string.isSome))
  | .char, args | .decimal, args | .hex, args | .pointer, args | .binary, args =>
    inferInstanceAs (Decidable (args ≠ []))

/-- Every conversion finds its argument. -/
def ArgsMatch : List FormatPiece → List FormatArg → Prop
  | [], _ => True
  | .conv c :: ps, args => c.Takes args ∧ ArgsMatch ps (args.drop c.arity)
  | _ :: ps, args => ArgsMatch ps args

instance decidableArgsMatch : (ps : List FormatPiece) → (args : List FormatArg) →
    Decidable (ArgsMatch ps args)
  | [], _ => isTrue trivial
  | .conv c :: ps, args =>
    have := decidableArgsMatch ps (args.drop c.arity)
    inferInstanceAs (Decidable (c.Takes args ∧ ArgsMatch ps (args.drop c.arity)))
  | .char _ :: ps, args | .stray :: ps, args => decidableArgsMatch ps args

/-- The text of the number a conversion prints. -/
def Conversion.number : Conversion → List FormatArg → Option (List UInt8)
  | .decimal, arg :: _ => some (itoaText arg.word.toNat 10)
  | .hex, arg :: _ | .pointer, arg :: _ => some (itoaText arg.word.toNat 16)
  | .binary, arg :: _ => some (itoaText arg.word.toNat 2)
  | _, _ => none

/-- An operation of a writer. -/
inductive WriterOp where
  | putchar (ch : UInt8)
  | pre (letter : UInt8)
deriving DecidableEq, Repr

/-- The characters an operation writes. -/
def WriterOp.text : WriterOp → List UInt8
  | .putchar ch => [ch]
  | .pre letter => [0x30, letter]

def FormatWriter.apply {σ : Type} (w : FormatWriter σ) (o : Formatted σ) :
    WriterOp → Formatted σ
  | .putchar ch => w.putchar o ch
  | .pre letter => w.pre o letter

/-- The operations of one conversion. -/
def Conversion.ops (c : Conversion) (args : List FormatArg) : List WriterOp :=
  match c, args with
  | .percent, _ => [.putchar 0x25]
  | .char, arg :: _ => [.putchar (UInt8.ofNat arg.word.toNat)]
  | .string, arg :: _ => (arg.string.getD []).map .putchar
  | .hex, args => .pre 0x78 :: ((Conversion.hex.number args).getD []).map .putchar
  | .binary, args => .pre 0x62 :: ((Conversion.binary.number args).getD []).map .putchar
  | c, args => ((c.number args).getD []).map .putchar

/-- The operations for the pieces of a format, in order. -/
def formatOps : List FormatPiece → List FormatArg → List WriterOp
  | [], _ => []
  | .char ch :: ps, args => .putchar ch :: formatOps ps args
  | .conv c :: ps, args => c.ops args ++ formatOps ps (args.drop c.arity)
  | .stray :: ps, args => formatOps ps args

/-- The elements of the local buffer that a conversion uses. -/
def Conversion.buffers (c : Conversion) (args : List FormatArg) : Set FormatAccess :=
  {x | ∃ s ∈ c.number args, ∃ i ≤ s.length, x = .buffer i}

/-- The elements of the local buffers that the pieces of a format use. -/
def formatBuffers : List FormatPiece → List FormatArg → Set FormatAccess
  | [], _ => ∅
  | .conv c :: ps, args => c.buffers args ∪ formatBuffers ps (args.drop c.arity)
  | _ :: ps, args => formatBuffers ps args

/-! ## The loop -/

section

variable {σ : Type} (w : FormatWriter σ) (env : FormatEnv) {fuel : ℕ}

open Buffered

theorem foldl_putchar (s : List UInt8) (o : Formatted σ) :
    (s.map WriterOp.putchar).foldl w.apply o = s.foldl w.putchar o := by
  rw [List.foldl_map]
  rfl

theorem putBuffer_uses {k a : ℕ} {m : Mem} {s : List UInt8} (h : m.HasString a s)
    (hk : s.length < k) (o : Formatted σ) :
    Uses (putBuffer w k a o) m (Set.Icc a (a + s.length)) (s.foldl w.putchar o) m := by
  induction s generalizing k a o with
  | nil =>
    obtain ⟨k, rfl⟩ := Nat.exists_eq_add_one_of_ne_zero (by omega : k ≠ 0)
    have hr := (uses_load a m).bind
      (f := fun c => if c = 0 then pure o else putBuffer w k (a + 1) (w.putchar o c))
      (B := ∅) (by rw [if_pos (Mem.hasString_nil.1 h)]; exact .pure o m)
    exact hr.mono (by rw [Set.union_empty, List.length_nil, Nat.add_zero, Set.Icc_self])
  | cons c s ih =>
    obtain ⟨k, rfl⟩ := Nat.exists_eq_add_one_of_ne_zero (by omega : k ≠ 0)
    obtain ⟨hc, ha, hs⟩ := Mem.hasString_cons.1 h
    have hrest := ih hs (by simpa using hk) (w.putchar o c)
    rw [← ha] at hrest hc
    have hr := (uses_load a m).bind
      (f := fun c => if c = 0 then pure o else putBuffer w k (a + 1) (w.putchar o c))
      (by rw [if_neg hc]; exact hrest)
    rw [List.foldl_cons, ← ha]
    refine hr.mono ?_
    ext x
    rw [List.length_cons, Set.mem_union, Set.mem_singleton_iff, Set.mem_Icc, Set.mem_Icc]
    omega

/-- A number printed and copied. -/
theorem putNumber_touches {n base : ℕ} (hb : 2 ≤ base) (hb' : base ≤ 32) (hn : n < 4294967296)
    (hfuel : 40 ≤ fuel) (o : Formatted σ) :
    Traced.Touches (putNumber w env fuel (itoa fuel n base) o)
      {x | ∃ i ≤ (itoaText n base).length, x = .buffer i}
      ((itoaText n base).foldl w.putchar o) := by
  obtain ⟨m, hitoa, htext⟩ := itoa_uses hb hb' hn env.stack hfuel
  have hlen : (itoaText n base).length < fuel :=
    (itoaText_length_le hb hn).trans_lt (by omega)
  have hput := putBuffer_uses w htext hlen o
  rw [Nat.zero_add] at hput
  have hcopy := Traced.Touches.bind hput (f := fun copied => pure copied.1) (.pure _)
  refine (Traced.Touches.bind hitoa hcopy).mono ?_
  ext x
  constructor
  · rintro (⟨i, hi, rfl⟩ | ⟨i, hi, rfl⟩ | hx)
    · exact ⟨i, hi, rfl⟩
    · exact ⟨i, hi.2, rfl⟩
    · exact absurd hx (Set.notMem_empty _)
  · rintro ⟨i, hi, rfl⟩
    exact Or.inl ⟨i, hi, rfl⟩

theorem buffers_of_none {c : Conversion} {args : List FormatArg} (h : c.number args = none) :
    c.buffers args = ∅ := by
  ext x
  simp [Conversion.buffers, h]

theorem buffers_of_some {c : Conversion} {args : List FormatArg} {s : List UInt8}
    (h : c.number args = some s) : c.buffers args = {x | ∃ i ≤ s.length, x = .buffer i} := by
  ext x
  simp [Conversion.buffers, h]

/-- A conversion of a number, behind the prefix if it has one. -/
theorem putInt_touches (c : Conversion) {base : ℕ} (hb : 2 ≤ base) (hb' : base ≤ 32)
    (hfuel : 40 ≤ fuel) (arg : FormatArg) (args : List FormatArg) (o : Formatted σ)
    (hnumber : c.number (arg :: args) = some (itoaText arg.word.toNat base)) :
    Traced.Touches (do
        let o ← putNumber w env fuel (itoa fuel arg.word.toNat base) o
        return (args, o) : Formatting (List FormatArg × Formatted σ))
      (c.buffers (arg :: args)) (args, (itoaText arg.word.toNat base).foldl w.putchar o) := by
  rw [buffers_of_some hnumber]
  have h := putNumber_touches w env hb hb' arg.word.toNat_lt hfuel o
  exact (h.bind (f := fun o => pure (args, o)) (.pure _)).mono (Set.union_empty _)

theorem vaString_touches {arg : FormatArg} {str : List UInt8} (h : arg.string = some str)
    (args : List FormatArg) : Traced.Touches (vaString (arg :: args)) ∅ (str, args) := by
  have hstr : vaString (arg :: args) = pure (str, args) := by
    unfold vaString
    show Traced.bind (pure (arg, args)) _ = _
    simp only [Traced.bind, Traced.result_pure, h]
    rfl
  rw [hstr]
  exact .pure _

/-- One branch of the `switch` does the operations of the conversion. -/
theorem putConversion_touches {c : Conversion} {args : List FormatArg} (h : c.Takes args)
    (hfuel : 40 ≤ fuel) (o : Formatted σ) :
    Traced.Touches (putConversion w env fuel args o c) (c.buffers args)
      (args.drop c.arity, (c.ops args).foldl w.apply o) := by
  cases c with
  | percent | other =>
    rw [buffers_of_none rfl]
    exact .pure _
  | double => exact absurd h not_false
  | char =>
    obtain ⟨arg, args, rfl⟩ := List.exists_cons_of_ne_nil h
    rw [buffers_of_none rfl]
    exact .pure _
  | string =>
    obtain ⟨arg, harg, hstr⟩ := h
    obtain ⟨args, rfl⟩ := List.head?_eq_some_iff.1 harg
    obtain ⟨str, hs⟩ := Option.isSome_iff_exists.1 hstr
    have hputs := (vaString_touches hs args).bind
      (f := fun r => pure (r.2, r.1.foldl w.putchar o)) (.pure _)
    have hops : (Conversion.string.ops (arg :: args)).foldl w.apply o = str.foldl w.putchar o := by
      rw [← foldl_putchar]
      simp only [Conversion.ops, hs, Option.getD_some]
    rw [buffers_of_none rfl, hops]
    exact hputs.mono (Set.union_empty _)
  | decimal =>
    obtain ⟨arg, args, rfl⟩ := List.exists_cons_of_ne_nil h
    have hn := putInt_touches w env .decimal (by decide : 2 ≤ 10) (by decide) hfuel arg args o rfl
    rw [← foldl_putchar] at hn
    exact hn
  | pointer =>
    obtain ⟨arg, args, rfl⟩ := List.exists_cons_of_ne_nil h
    have hn := putInt_touches w env .pointer (by decide : 2 ≤ 16) (by decide) hfuel arg args o rfl
    rw [← foldl_putchar] at hn
    exact hn
  | hex =>
    obtain ⟨arg, args, rfl⟩ := List.exists_cons_of_ne_nil h
    have hn := putInt_touches w env .hex (by decide : 2 ≤ 16) (by decide) hfuel arg args (w.pre o 0x78) rfl
    rw [← foldl_putchar] at hn
    exact hn
  | binary =>
    obtain ⟨arg, args, rfl⟩ := List.exists_cons_of_ne_nil h
    have hn := putInt_touches w env .binary (by decide : 2 ≤ 2) (by decide) hfuel arg args (w.pre o 0x62) rfl
    rw [← foldl_putchar] at hn
    exact hn

/-! ### Rounds of the loop -/

theorem readFormat_bind {α : Type} (a : ℕ) (g : UInt8 → Formatting α) :
    readFormat env a >>= g = Traced.tell (.format a) >>= fun _ => g (env.memory a) := rfl

variable {w env} {a k : ℕ} {args : List FormatArg} {o : Formatted σ}

theorem formatLoop_end (ha : env.memory a = 0) :
    formatLoop w env fuel (k + 1) a args o = Traced.tell (.format a) >>= fun _ => pure o := by
  rw [formatLoop, readFormat_bind, ha, if_pos rfl]

theorem formatLoop_char {c : UInt8} (ha : env.memory a = c) (h0 : c ≠ 0) (hc : c ≠ 0x25) :
    formatLoop w env fuel (k + 1) a args o =
      Traced.tell (.format a) >>= fun _ => formatLoop w env fuel k (a + 1) args (w.putchar o c) := by
  rw [formatLoop, readFormat_bind, ha, if_neg h0, if_neg hc]

theorem formatLoop_percent (ha : env.memory a = 0x25) :
    formatLoop w env fuel (k + 1) a args o =
      Traced.tell (.format a) >>= fun _ => Traced.tell (.format (a + 1)) >>= fun _ =>
        putConversion w env fuel args o (conversion (env.memory (a + 1))) >>= fun r =>
          formatLoop w env fuel k (a + 2) r.1 r.2 := by
  rw [formatLoop, readFormat_bind, ha, if_neg (by decide), if_pos rfl, readFormat_bind]

/-- The bytes of a format of `len` characters at `a`, and the zero byte. -/
def formatBytes (a len : ℕ) : Set FormatAccess := Set.image .format (Set.Icc a (a + len))

theorem formatBytes_zero (a : ℕ) : formatBytes a 0 = {.format a} := by
  rw [formatBytes, Nat.add_zero, Set.Icc_self, Set.image_singleton]

theorem formatBytes_succ (a len : ℕ) :
    formatBytes a (len + 1) = {.format a} ∪ formatBytes (a + 1) len := by
  have h : Set.Icc a (a + (len + 1)) = {a} ∪ Set.Icc (a + 1) (a + 1 + len) := by
    ext x
    rw [Set.mem_union, Set.mem_singleton_iff, Set.mem_Icc, Set.mem_Icc]
    omega
  rw [formatBytes, h, Set.image_union, Set.image_singleton]
  rfl

/-- **The loop over the format.** -/
theorem formatLoop_touches {f : List UInt8}
    (h : env.memory.HasString a f) (hk : f.length < k) (hfuel : 40 ≤ fuel)
    (hm : ArgsMatch (formatPieces f) args) (hs : .stray ∉ formatPieces f) :
    Traced.Touches (formatLoop w env fuel k a args o)
      (formatBytes a f.length ∪ formatBuffers (formatPieces f) args)
      ((formatOps (formatPieces f) args).foldl w.apply o) := by
  induction f using formatPieces.induct generalizing a k args o with
  | case1 =>
    obtain ⟨k, rfl⟩ := Nat.exists_eq_add_one_of_ne_zero (by omega : k ≠ 0)
    rw [formatLoop_end (Mem.hasString_nil.1 h), List.length_nil, formatBytes_zero]
    exact (Traced.Touches.tell _).bind (.pure _)
  | case2 => exact absurd (by simp [formatPieces]) hs
  | case3 c hc =>
    obtain ⟨k, rfl⟩ := Nat.exists_eq_add_one_of_ne_zero (by omega : k ≠ 0)
    obtain ⟨h0, ha, hend⟩ := Mem.hasString_cons.1 h
    rw [List.length_singleton] at hk
    obtain ⟨k, rfl⟩ := Nat.exists_eq_add_one_of_ne_zero (by omega : k ≠ 0)
    rw [formatLoop_char ha h0 hc, formatLoop_end (Mem.hasString_nil.1 hend), List.length_singleton,
      formatBytes_succ, formatBytes_zero, formatPieces, if_neg hc]
    have hend := (Traced.Touches.tell (ε := FormatFault) (FormatAccess.format (a + 1))).bind
      (f := fun _ => pure (w.putchar o c)) (.pure _)
    exact ((Traced.Touches.tell _).bind hend).mono (Set.union_assoc ..).symm
  | case4 d f ih =>
    obtain ⟨k, rfl⟩ := Nat.exists_eq_add_one_of_ne_zero (by omega : k ≠ 0)
    obtain ⟨-, ha, hrest⟩ := Mem.hasString_cons.1 h
    obtain ⟨-, hd, hrest⟩ := Mem.hasString_cons.1 hrest
    rw [formatPieces, if_pos rfl] at hm hs ⊢
    rw [List.length_cons, List.length_cons] at hk
    have hconv := putConversion_touches w env hm.1 hfuel o
    have hloop := ih hrest (k := k) (by omega) hm.2
      (fun hx => hs (List.mem_cons_of_mem _ hx))
      (o := ((conversion d).ops args).foldl w.apply o)
    rw [formatLoop_percent ha, hd, List.length_cons, List.length_cons, formatBytes_succ,
      formatBytes_succ, formatOps, List.foldl_append]
    refine ((Traced.Touches.tell _).bind ((Traced.Touches.tell _).bind
      (hconv.bind (f := fun r => formatLoop w env fuel k (a + 2) r.1 r.2) hloop))).mono ?_
    rw [formatBuffers]
    ext x
    simp only [Set.mem_union, Nat.add_assoc]
    tauto
  | case5 c d f hc ih =>
    obtain ⟨k, rfl⟩ := Nat.exists_eq_add_one_of_ne_zero (by omega : k ≠ 0)
    obtain ⟨h0, ha, hrest⟩ := Mem.hasString_cons.1 h
    rw [formatPieces, if_neg hc] at hm hs ⊢
    rw [List.length_cons] at hk
    have hloop := ih hrest (k := k) (by omega) hm (fun hx => hs (List.mem_cons_of_mem _ hx))
      (o := w.putchar o c)
    rw [formatLoop_char ha h0 hc, List.length_cons, formatBytes_succ]
    exact ((Traced.Touches.tell _).bind hloop).mono (Set.union_assoc ..).symm

/-- A loop that returns has done a round, and has read the byte it stood at. -/
theorem formatLoop_round {r : Formatted σ}
    (hr : (formatLoop w env fuel k a args o).result = .ok r) :
    (∃ j, k = j + 1) ∧ .format a ∈ (formatLoop w env fuel k a args o).log := by
  cases k with
  | zero => exact absurd hr (by simp [formatLoop])
  | succ k =>
    refine ⟨⟨k, rfl⟩, ?_⟩
    rw [formatLoop, readFormat_bind] at hr ⊢
    obtain ⟨_, -, -, hlog⟩ := Traced.of_bind_ok hr
    rw [hlog]
    exact List.mem_append_left _ (List.mem_singleton_self _)

/-- Behind a lone `%` at its end, the loop goes on reading behind the format. -/
theorem formatLoop_stray {f : List UInt8} {r : Formatted σ}
    (h : env.memory.HasString a f) (hs : .stray ∈ formatPieces f)
    (hr : (formatLoop w env fuel k a args o).result = .ok r) :
    .format (a + f.length + 1) ∈ (formatLoop w env fuel k a args o).log := by
  induction f using formatPieces.induct generalizing a k args o with
  | case1 => exact absurd hs (by simp [formatPieces])
  | case2 =>
    obtain ⟨⟨k, rfl⟩, -⟩ := formatLoop_round hr
    obtain ⟨-, ha, hend⟩ := Mem.hasString_cons.1 h
    rw [formatLoop_percent ha, Mem.hasString_nil.1 hend] at hr ⊢
    obtain ⟨_, -, hr, hlog⟩ := Traced.of_bind_ok hr
    obtain ⟨_, -, hr, hlog'⟩ := Traced.of_bind_ok hr
    obtain ⟨q, hq, hr, hlog''⟩ := Traced.of_bind_ok hr
    have hread := (formatLoop_round hr).2
    rw [hlog, hlog', hlog'']
    exact List.mem_append_right _ (List.mem_append_right _ (List.mem_append_right _ hread))
  | case3 c hc => exact absurd hs (by simp [formatPieces, hc])
  | case4 d f ih =>
    obtain ⟨⟨k, rfl⟩, -⟩ := formatLoop_round hr
    obtain ⟨-, ha, hrest⟩ := Mem.hasString_cons.1 h
    obtain ⟨-, hd, hrest⟩ := Mem.hasString_cons.1 hrest
    rw [formatPieces, if_pos rfl] at hs
    have hs' : .stray ∈ formatPieces f := by simpa using hs
    rw [formatLoop_percent ha] at hr ⊢
    obtain ⟨_, -, hr, hlog⟩ := Traced.of_bind_ok hr
    obtain ⟨_, -, hr, hlog'⟩ := Traced.of_bind_ok hr
    obtain ⟨q, hq, hr, hlog''⟩ := Traced.of_bind_ok hr
    have hread := ih hrest hs' hr
    rw [show a + 1 + 1 + f.length + 1 = a + (0x25 :: d :: f).length + 1 by
      rw [List.length_cons, List.length_cons]; omega] at hread
    rw [hlog, hlog', hlog'']
    exact List.mem_append_right _ (List.mem_append_right _ (List.mem_append_right _ hread))
  | case5 c d f hc ih =>
    obtain ⟨⟨k, rfl⟩, -⟩ := formatLoop_round hr
    obtain ⟨h0, ha, hrest⟩ := Mem.hasString_cons.1 h
    rw [formatPieces, if_neg hc] at hs
    have hs' : .stray ∈ formatPieces (d :: f) := by simpa using hs
    rw [formatLoop_char ha h0 hc] at hr ⊢
    obtain ⟨_, -, hr, hlog⟩ := Traced.of_bind_ok hr
    have hread := ih hrest hs' hr
    rw [show a + 1 + (d :: f).length + 1 = a + (c :: d :: f).length + 1 by
      simp only [List.length_cons]; omega] at hread
    rw [hlog]
    exact List.mem_append_right _ hread

end

end Ttos
