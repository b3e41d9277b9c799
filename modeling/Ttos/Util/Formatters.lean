/-
  What the four formatters have in common, and where they part.

  * `formatters_agree`: they agree unless a `0x` or `0b` is written, which the
    stream formatters do not count.
  * `formatters_in_bounds`: they stay in bounds unless the format ends in a lone
    `%`, or a number with bit 31 set is written in base 2.
-/
import Ttos.Util.FormatSpec

namespace Ttos

/-! ## The same text, the same count -/

/-- The characters of a sequence of operations. -/
def opsText (ops : List WriterOp) : List UInt8 := ops.flatMap WriterOp.text

/-- How many prefixes are among the operations. -/
def prefixes : List WriterOp → ℕ
  | [] => 0
  | .putchar _ :: ops => prefixes ops
  | .pre _ :: ops => prefixes ops + 1

/-- A string is built character by character, and every character is counted. -/
theorem stringWriter_ops (str : ℕ) (ops : List WriterOp) {o : Formatted Mem} {s : List UInt8}
    (hs : o.target.HasBytes str s) (hc : o.count = s.length) :
    (ops.foldl (stringWriter str).apply o).target.HasBytes str (s ++ opsText ops) ∧
      (ops.foldl (stringWriter str).apply o).count = (s ++ opsText ops).length := by
  induction ops generalizing o s with
  | nil =>
    rw [opsText, List.flatMap_nil, List.append_nil]
    exact ⟨hs, hc⟩
  | cons op ops ih =>
    rw [List.foldl_cons, opsText, List.flatMap_cons, ← List.append_assoc]
    refine ih ?_ ?_
    · cases op with
      | putchar ch =>
        have h := hasBytes_snoc hs ch
        rw [← hc] at h
        exact h
      | pre letter =>
        have h := hasBytes_snoc (hasBytes_snoc hs 0x30) letter
        rw [List.length_append, ← hc, List.append_assoc] at h
        exact h
    · cases op with
      | putchar ch => simp [FormatWriter.apply, stringWriter, WriterOp.text, hc]
      | pre letter => simp [FormatWriter.apply, stringWriter, WriterOp.text, hc]

/-- A stream formatter writes the same characters and counts all but the prefixes. -/
theorem stream_ops {w : FormatWriter (List UInt8)}
    (hput : ∀ o ch, w.putchar o ch = ⟨o.target ++ [ch], o.count + 1⟩)
    (hpre : ∀ o letter, w.pre o letter = ⟨o.target ++ [0x30, letter], o.count⟩)
    (ops : List WriterOp) (o : Formatted (List UInt8)) :
    (ops.foldl w.apply o).target = o.target ++ opsText ops ∧
      (ops.foldl w.apply o).count + 2 * prefixes ops = o.count + (opsText ops).length := by
  induction ops generalizing o with
  | nil => simp [opsText, prefixes]
  | cons op ops ih =>
    rw [List.foldl_cons]
    obtain ⟨h1, h2⟩ := ih (w.apply o op)
    rw [h1]
    cases op with
    | putchar ch =>
      simp only [FormatWriter.apply, hput, opsText, prefixes, List.flatMap_cons,
        WriterOp.text] at h2 ⊢
      refine ⟨by simp, ?_⟩
      simp only [List.length_append, List.length_cons, List.length_nil]
      omega
    | pre letter =>
      simp only [FormatWriter.apply, hpre, opsText, prefixes, List.flatMap_cons,
        WriterOp.text] at h2 ⊢
      refine ⟨by simp, ?_⟩
      simp only [List.length_append, List.length_cons, List.length_nil]
      omega

theorem prefixes_append (xs ys : List WriterOp) : prefixes (xs ++ ys) = prefixes xs + prefixes ys := by
  induction xs with
  | nil => simp [prefixes]
  | cons x xs ih =>
    cases x with
    | putchar ch => simpa [prefixes] using ih
    | pre letter =>
      simp only [List.cons_append, prefixes, ih]
      omega

theorem prefixes_putchar (s : List UInt8) : prefixes (s.map .putchar) = 0 := by
  induction s with
  | nil => rfl
  | cons c s ih => exact ih

theorem prefixes_conversion (c : Conversion) (args : List FormatArg) :
    prefixes (c.ops args) = 0 ↔ c ≠ .hex ∧ c ≠ .binary := by
  cases c with
  | hex | binary => simp [Conversion.ops, prefixes]
  | percent => simp [Conversion.ops, prefixes]
  | char | string => cases args <;> simp [Conversion.ops, prefixes, prefixes_putchar]
  | decimal | pointer | double | other => simp [Conversion.ops, prefixes_putchar]

/-- Only `%x` and `%b` write a prefix. -/
theorem prefixes_eq_zero_iff (ps : List FormatPiece) (args : List FormatArg) :
    prefixes (formatOps ps args) = 0 ↔ .conv .hex ∉ ps ∧ .conv .binary ∉ ps := by
  induction ps generalizing args with
  | nil => simp [formatOps, prefixes]
  | cons p ps ih =>
    cases p with
    | char ch => simpa [formatOps, prefixes] using ih args
    | stray => simpa [formatOps] using ih args
    | conv c =>
      rw [formatOps, prefixes_append, Nat.add_eq_zero_iff, prefixes_conversion, ih]
      simp only [List.mem_cons, FormatPiece.conv.injEq, not_or, ne_comm (a := c)]
      tauto

section

variable {env : FormatEnv} {format : ℕ} {f : List UInt8} {args : List FormatArg}
  {dest : Mem} {str fuel : ℕ}

/-- The sequence of characters a format stands for. -/
def formatText (f : List UInt8) (args : List FormatArg) : List UInt8 :=
  opsText (formatOps (formatPieces f) args)

/-- What the two formatters that build a string return. -/
theorem formatToString_result (h : env.memory.HasString format f) (hk : f.length < fuel)
    (hfuel : 40 ≤ fuel) (hm : ArgsMatch (formatPieces f) args) (hs : .stray ∉ formatPieces f) :
    ∃ m : Mem, (formatToString fuel env format args dest str).result =
        .ok (m, int32 (formatText f args).length) ∧ m.HasBytes str (formatText f args ++ [0]) := by
  have hloop := formatLoop_touches (w := stringWriter str) (o := ⟨dest, 0⟩) h hk hfuel hm hs
  obtain ⟨htext, hcount⟩ := stringWriter_ops str (formatOps (formatPieces f) args)
    (o := ⟨dest, 0⟩) (s := []) (fun j hj => absurd hj (Nat.not_lt_zero _)) rfl
  rw [List.nil_append] at htext hcount
  have hresult := Traced.result_bind hloop.result
    (fun o => pure (o.target.store8 (str + o.count) 0, int32 o.count))
  rw [hcount] at hresult
  exact ⟨_, hresult, hasBytes_snoc htext 0⟩

/-- What a stream formatter returns: its count leaves the prefixes out. -/
theorem formatToStream_result {w : FormatWriter (List UInt8)}
    (hput : ∀ o ch, w.putchar o ch = ⟨o.target ++ [ch], o.count + 1⟩)
    (hpre : ∀ o letter, w.pre o letter = ⟨o.target ++ [0x30, letter], o.count⟩)
    (h : env.memory.HasString format f) (hk : f.length < fuel) (hfuel : 40 ≤ fuel)
    (hm : ArgsMatch (formatPieces f) args) (hs : .stray ∉ formatPieces f) (out : List UInt8) :
    (formatToStream fuel env format args w out).result =
      .ok (out ++ formatText f args,
        int32 ((formatText f args).length - 2 * prefixes (formatOps (formatPieces f) args))) := by
  have hloop := formatLoop_touches (w := w) (o := ⟨out, 0⟩) h hk hfuel hm hs
  obtain ⟨htext, hcount⟩ := stream_ops hput hpre (formatOps (formatPieces f) args) ⟨out, 0⟩
  have hresult := Traced.result_bind hloop.result (fun o => pure (o.target, int32 o.count))
  rw [Nat.zero_add] at hcount
  rw [htext, Nat.eq_sub_of_add_eq hcount] at hresult
  exact hresult

/-- **The four formatters agree**: the strings built by `strfmt` and `sprintf` are the
sequence written by `stream_printf` and `printf`, and all four return its length. -/
def FormattersAgree (env : FormatEnv) (format : ℕ) (args : List FormatArg) (dest : Mem)
    (str : ℕ) : Prop :=
  ∃ seq : List UInt8, ∃ rounds, ∀ fuel ≥ rounds,
    (∃ m : Mem, (vstrfmt fuel env format args dest str).result = .ok (m, seq.length) ∧
      m.HasBytes str (seq ++ [0])) ∧
    (∃ m : Mem, (vsprintf fuel env format args dest str).result = .ok (m, seq.length) ∧
      m.HasBytes str (seq ++ [0])) ∧
    (streamVprintf fuel env format args []).result = .ok (seq, seq.length) ∧
    (vprintf fuel env format args []).result = .ok (seq, seq.length)

theorem streamWriter_pre (o : Formatted (List UInt8)) (letter : UInt8) :
    streamWriter.pre o letter = ⟨o.target ++ [0x30, letter], o.count⟩ := by
  simp [streamWriter]

/-- Where they agree there is no prefix, and the length is one that an `int` can hold. -/
theorem FormattersAgree.counts (hagree : FormattersAgree env format args dest str)
    (h : env.memory.HasString format f) (hm : ArgsMatch (formatPieces f) args)
    (hs : .stray ∉ formatPieces f) :
    prefixes (formatOps (formatPieces f) args) = 0 ∧ (formatText f args).length < 2147483648 := by
  obtain ⟨seq, rounds, hagree⟩ := hagree
  have hk : f.length < rounds + f.length + 40 := by omega
  have hfuel : 40 ≤ rounds + f.length + 40 := by omega
  obtain ⟨⟨m, hstring, -⟩, -, hstream, -⟩ := hagree (rounds + f.length + 40) (by omega)
  rw [streamVprintf, formatToStream_result (fun _ _ => rfl) streamWriter_pre h hk hfuel hm hs]
    at hstream
  obtain ⟨htext, hcount⟩ := Prod.mk.inj (Except.ok.inj hstream)
  rw [List.nil_append] at htext
  have hlen : int32 (formatText f args).length = (formatText f args).length := by
    obtain ⟨m', hstring', -⟩ : ∃ m' : Mem, (vstrfmt (rounds + f.length + 40) env format args dest
        str).result = .ok (m', int32 (formatText f args).length) ∧ m'.HasBytes str _ :=
      formatToString_result h hk hfuel hm hs
    rw [hstring'] at hstring
    rw [(Prod.mk.inj (Except.ok.inj hstring)).2, htext]
  have hlt := int32_eq_iff.1 hlen
  have hpre := (stream_ops (w := streamWriter) (fun _ _ => rfl) streamWriter_pre
    (formatOps (formatPieces f) args) ⟨[], 0⟩).2
  rw [← htext, int32_of_lt (by omega)] at hcount
  rw [Nat.zero_add] at hpre
  rw [formatText] at hcount hlt ⊢
  omega

/-- **They agree exactly on the formats without `%x` and `%b`** whose text an `int` can
count: the stream formatters do not count the prefix they write there. -/
theorem formatters_agree (h : env.memory.HasString format f)
    (hm : ArgsMatch (formatPieces f) args) (hs : .stray ∉ formatPieces f) :
    FormattersAgree env format args dest str ↔
      (.conv .hex ∉ formatPieces f ∧ .conv .binary ∉ formatPieces f) ∧
        (formatText f args).length < 2147483648 := by
  rw [← prefixes_eq_zero_iff (formatPieces f) args]
  constructor
  · intro hagree
    exact hagree.counts h hm hs
  · rintro ⟨hpre, hlt⟩
    have hcount := int32_of_lt hlt
    refine ⟨formatText f args, f.length + 40, fun fuel hfuel => ⟨?_, ?_, ?_, ?_⟩⟩
    · rw [← hcount]
      exact formatToString_result h (by omega) (by omega) hm hs
    · rw [← hcount]
      exact formatToString_result h (by omega) (by omega) hm hs
    · rw [streamVprintf, formatToStream_result (fun _ _ => rfl) streamWriter_pre h (by omega)
        (by omega) hm hs, hpre, Nat.mul_zero, Nat.sub_zero, hcount]
      rfl
    · rw [vprintf, formatToStream_result (fun _ _ => rfl) (fun _ _ => rfl) h (by omega) (by omega)
        hm hs, hpre, Nat.mul_zero, Nat.sub_zero, hcount]
      rfl

/-- The format `f` at address 0, with nothing else around. -/
def formatAlone (f : List UInt8) : FormatEnv where
  memory := Mem.ofList f fun _ => 0
  stack := fun _ => 0
  gcvt := fun _ _ => pure ()

theorem formatAlone_hasString (h0 : 0 ∉ f) : (formatAlone f).memory.HasString 0 f := by
  refine ⟨h0, Mem.ofList_hasBytes f fun _ => 0, ?_⟩
  rw [Nat.zero_add]
  show f[f.length]?.getD 0 = 0
  rw [List.getElem?_eq_none le_rfl]
  rfl

/-- `%d%%` of -5. -/
theorem formatters_agree_minus_five :
    FormattersAgree (formatAlone [0x25, 0x64, 0x25, 0x25]) 0 [⟨0xFFFFFFFB, none⟩] (fun _ => 0) 0 :=
  (formatters_agree (formatAlone_hasString (by decide)) (by decide) (by decide)).2
    ⟨by decide, by decide⟩

/-- `%x` of 1: the stream formatters write `0x1` and return 1. -/
theorem formatters_disagree_on_hex :
    ¬ FormattersAgree (formatAlone [0x25, 0x78]) 0 [⟨1, none⟩] (fun _ => 0) 0 := fun h =>
  absurd (h.counts (formatAlone_hasString (by decide)) (by decide) (by decide)).1 (by decide)

/-! ## Staying in bounds -/

/-- The bytes of the format up to its zero byte, and the 32 elements of a local buffer. -/
def FormatAccess.InBounds (format len : ℕ) : FormatAccess → Prop
  | .format a => format ≤ a ∧ a ≤ format + len
  | .buffer i => i < 32

/-- With enough rounds the computation returns, and all it reads and writes is in bounds. -/
def StaysInBounds {α : Type} (format len : ℕ) (x : ℕ → Formatting α) : Prop :=
  ∃ rounds, ∀ fuel ≥ rounds,
    (∃ r, (x fuel).result = .ok r) ∧ (x fuel).All (FormatAccess.InBounds format len)

/-- The words that `%b` conversions print. -/
def binaryWords : List FormatPiece → List FormatArg → List UInt32
  | [], _ => []
  | .conv .binary :: ps, arg :: args => arg.word :: binaryWords ps args
  | .conv c :: ps, args => binaryWords ps (args.drop c.arity)
  | _ :: ps, args => binaryWords ps args

/-- The text of every other number fits. -/
theorem conversion_buffers_inBounds {c : Conversion} (hc : c ≠ .binary) (args : List FormatArg)
    {x : FormatAccess} (hx : x ∈ c.buffers args) (len : ℕ) : x.InBounds format len := by
  obtain ⟨s, hs, i, hi, rfl⟩ := hx
  have hlen : s.length ≤ 31 := by
    cases args with
    | nil => cases c <;> simp [Conversion.number] at hs
    | cons arg args =>
      have h10 := itoaText_ten_length arg.word.toNat_lt
      have h16 := itoaText_sixteen_length arg.word.toNat_lt
      cases c with
      | binary => exact absurd rfl hc
      | decimal =>
        obtain rfl : itoaText arg.word.toNat 10 = s := by simpa [Conversion.number] using hs
        omega
      | hex | pointer =>
        obtain rfl : itoaText arg.word.toNat 16 = s := by simpa [Conversion.number] using hs
        omega
      | percent | char | string | double | other => simp [Conversion.number] at hs
  exact Nat.lt_succ_of_le (hi.trans hlen)

theorem binary_buffers_inBounds (arg : FormatArg) (args : List FormatArg) (len : ℕ) :
    (∀ x ∈ Conversion.binary.buffers (arg :: args), x.InBounds format len) ↔
      arg.word.toNat < 2147483648 := by
  rw [← itoaText_two_length, buffers_of_some rfl]
  constructor
  · intro h
    exact Nat.le_of_lt_succ (h (.buffer _) ⟨_, le_rfl, rfl⟩)
  · rintro h x ⟨i, hi, rfl⟩
    exact Nat.lt_succ_of_le (hi.trans h)

/-- The local buffers are large enough exactly if no `%b` has a number with bit 31 set. -/
theorem formatBuffers_inBounds (format : ℕ) {ps : List FormatPiece} (hm : ArgsMatch ps args)
    (len : ℕ) :
    (∀ x ∈ formatBuffers ps args, x.InBounds format len) ↔
      ∀ n ∈ binaryWords ps args, n.toNat < 2147483648 := by
  induction ps generalizing args with
  | nil => simp [formatBuffers, binaryWords]
  | cons p ps ih =>
    cases p with
    | char ch => exact ih hm
    | stray => exact ih hm
    | conv c =>
      have hrest := ih hm.2
      have hboth : (∀ x ∈ formatBuffers (.conv c :: ps) args, x.InBounds format len) ↔
          (∀ x ∈ c.buffers args, x.InBounds format len) ∧
            ∀ x ∈ formatBuffers ps (args.drop c.arity), x.InBounds format len := by
        simp only [formatBuffers, Set.mem_union, or_imp, forall_and]
      by_cases hc : c = .binary
      · subst hc
        obtain ⟨arg, args, rfl⟩ := List.exists_cons_of_ne_nil hm.1
        rw [hboth, hrest, binary_buffers_inBounds, binaryWords, List.forall_mem_cons]
        rfl
      · have hwords : binaryWords (.conv c :: ps) args = binaryWords ps (args.drop c.arity) := by
          cases c <;> first | rfl | exact absurd rfl hc
        rw [hboth, hrest, hwords]
        exact and_iff_right fun x hx => conversion_buffers_inBounds hc args hx len

theorem formatBytes_inBounds {len : ℕ} {x : FormatAccess} (hx : x ∈ formatBytes format len) :
    x.InBounds format len := by
  obtain ⟨i, hi, rfl⟩ := hx
  exact hi

/-- The loop stays in bounds exactly if the format does not end in a lone `%`, and no
`%b` has a number with bit 31 set. -/
theorem formatLoop_staysInBounds {σ : Type} {w : FormatWriter σ}
    (h : env.memory.HasString format f) (hm : ArgsMatch (formatPieces f) args)
    (o : Formatted σ) :
    StaysInBounds format f.length (fun fuel => formatLoop w env fuel fuel format args o) ↔
      .stray ∉ formatPieces f ∧ ∀ n ∈ binaryWords (formatPieces f) args, n.toNat < 2147483648 := by
  rw [← formatBuffers_inBounds format hm f.length]
  constructor
  · rintro ⟨rounds, hstays⟩
    have hs : .stray ∉ formatPieces f := by
      intro hs
      obtain ⟨⟨r, hr⟩, hall⟩ := hstays rounds le_rfl
      have hread := hall _ (formatLoop_stray h hs hr)
      exact absurd hread.2 (by omega)
    refine ⟨hs, fun x hx => ?_⟩
    obtain ⟨-, hall⟩ := hstays (rounds + f.length + 40) (by omega)
    have hfuel : 40 ≤ rounds + f.length + 40 := by omega
    have hloop := formatLoop_touches (w := w) (o := o) h
      (by omega : f.length < rounds + f.length + 40) hfuel hm hs
    exact hloop.all_iff.1 hall x (Or.inr hx)
  · rintro ⟨hs, hbuffers⟩
    refine ⟨f.length + 40, fun fuel hfuel => ?_⟩
    have hfuel40 : 40 ≤ fuel := by omega
    have hloop := formatLoop_touches (w := w) (o := o) h (by omega : f.length < fuel)
      hfuel40 hm hs
    refine ⟨⟨_, hloop.result⟩, hloop.all_iff.2 ?_⟩
    rintro x (hx | hx)
    · exact formatBytes_inBounds hx
    · exact hbuffers x hx

/-- What is computed from the result does not matter. -/
theorem staysInBounds_map {α β : Type} {len : ℕ} (x : ℕ → Formatting α) (g : α → β) :
    StaysInBounds format len (fun fuel => x fuel >>= fun a => pure (g a)) ↔
      StaysInBounds format len x := by
  refine exists_congr fun rounds => forall₂_congr fun fuel _ => and_congr ?_ ?_
  · constructor
    · rintro ⟨r, hr⟩
      obtain ⟨a, ha, -⟩ := Traced.of_bind_ok hr
      exact ⟨a, ha⟩
    · rintro ⟨a, ha⟩
      exact ⟨g a, Traced.result_bind ha _⟩
  · rw [Traced.all_bind]
    exact and_iff_left fun a _ => (Traced.all_pure _).2 trivial

theorem formatToString_staysInBounds (h : env.memory.HasString format f)
    (hm : ArgsMatch (formatPieces f) args) :
    StaysInBounds format f.length (fun fuel => formatToString fuel env format args dest str) ↔
      .stray ∉ formatPieces f ∧ ∀ n ∈ binaryWords (formatPieces f) args, n.toNat < 2147483648 :=
  (staysInBounds_map _ _).trans (formatLoop_staysInBounds h hm _)

theorem formatToStream_staysInBounds (w : FormatWriter (List UInt8)) (out : List UInt8)
    (h : env.memory.HasString format f) (hm : ArgsMatch (formatPieces f) args) :
    StaysInBounds format f.length (fun fuel => formatToStream fuel env format args w out) ↔
      .stray ∉ formatPieces f ∧ ∀ n ∈ binaryWords (formatPieces f) args, n.toNat < 2147483648 :=
  (staysInBounds_map _ _).trans (formatLoop_staysInBounds h hm _)

/-- **The formatters stay in bounds exactly on the formats that do not end in a lone `%`
and whose `%b` conversions print no number with bit 31 set.** -/
theorem formatters_in_bounds (h : env.memory.HasString format f)
    (hm : ArgsMatch (formatPieces f) args) (stream stdout : List UInt8) :
    (StaysInBounds format f.length (fun fuel => vstrfmt fuel env format args dest str) ∧
      StaysInBounds format f.length (fun fuel => streamVprintf fuel env format args stream) ∧
      StaysInBounds format f.length (fun fuel => vprintf fuel env format args stdout) ∧
      StaysInBounds format f.length (fun fuel => vsprintf fuel env format args dest str)) ↔
      .stray ∉ formatPieces f ∧ ∀ n ∈ binaryWords (formatPieces f) args, n.toNat < 2147483648 := by
  unfold vstrfmt streamVprintf vprintf vsprintf
  rw [formatToString_staysInBounds h hm, formatToStream_staysInBounds _ _ h hm,
    formatToStream_staysInBounds _ _ h hm, and_self, and_self, and_self]

/-- `%b` of 5, the last of a format that ends in `%%`. -/
theorem formatters_in_bounds_five :
    StaysInBounds 0 4 (fun fuel =>
      vstrfmt fuel (formatAlone [0x25, 0x62, 0x25, 0x25]) 0 [⟨5, none⟩] (fun _ => 0) 0) := by
  have hwords : binaryWords (formatPieces [0x25, 0x62, 0x25, 0x25]) [⟨5, none⟩] = [5] := by decide
  refine ((formatters_in_bounds (formatAlone_hasString (by decide)) (by decide) [] []).2
    ⟨by decide, ?_⟩).1
  rw [hwords, List.forall_mem_singleton]
  decide

/-- The format `%` is read behind its end, and `%b` of `0x80000000` fills 33 elements. -/
theorem formatters_out_of_bounds :
    ¬ StaysInBounds 0 1 (fun fuel =>
        vstrfmt fuel (formatAlone [0x25]) 0 [] (fun _ => 0) 0) ∧
      ¬ StaysInBounds 0 2 (fun fuel =>
        vstrfmt fuel (formatAlone [0x25, 0x62]) 0 [⟨0x80000000, none⟩] (fun _ => 0) 0) := by
  constructor
  · intro h
    exact absurd ((formatToString_staysInBounds (formatAlone_hasString (by decide)) (by decide)).1 h)
      (by decide)
  · intro h
    have hword : 0x80000000 ∈ binaryWords (formatPieces [0x25, 0x62]) [⟨0x80000000, none⟩] := by decide
    have hlow := ((formatToString_staysInBounds (formatAlone_hasString (by decide)) (by decide)).1 h).2
    exact absurd (hlow _ hword) (by decide)

end

end Ttos
