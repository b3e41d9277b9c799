/-
  The four formatters: strfmt (util/string.c), stream_printf (io/stream.c), and
  printf and sprintf of libc.

  They are four copies of one loop.  They differ in where a character goes, and
  in whether the characters of the `0x` and `0b` prefixes are counted; a
  `FormatWriter` says both.

  * A variable argument is a word and, where it is the address of one, a string.
  * `gcvt` computes with floating point and is a parameter.
-/
import Ttos.Util.Numeric

namespace Ttos

/-- One word of a `va_list`, and the string it points to if it is the address of one. -/
structure FormatArg where
  word : UInt32
  string : Option (List UInt8)
deriving DecidableEq, Repr

/-- The branches of the `switch` on the character behind a `%`. -/
inductive Conversion where
  | percent
  | char
  | string
  | decimal
  | hex
  | pointer
  | binary
  | double
  | other
deriving DecidableEq, Repr

def conversion (ch : UInt8) : Conversion :=
  if ch = 0x25 then .percent
  else if ch = 0x63 then .char
  else if ch = 0x73 then .string
  else if ch = 0x64 then .decimal
  else if ch = 0x78 then .hex
  else if ch = 0x70 then .pointer
  else if ch = 0x62 then .binary
  else if ch = 0x66 then .double
  else .other

/-- What was written to, and the `count` of the formatter. -/
structure Formatted (σ : Type) where
  target : σ
  count : ℕ
deriving DecidableEq, Repr

/-- How a formatter writes a character, and the prefix `0x` or `0b` by its letter. -/
structure FormatWriter (σ : Type) where
  putchar : Formatted σ → UInt8 → Formatted σ
  pre : Formatted σ → UInt8 → Formatted σ

/-- What a formatter finds: the memory of its format, what its stack holds
    where the local buffers come to lie, and `gcvt` on the two words of a double. -/
structure FormatEnv where
  memory : Mem
  stack : Mem
  gcvt : UInt32 → UInt32 → Buffered Unit

/-- The computations of the formatters. -/
abbrev Formatting (α : Type) := Traced FormatAccess FormatFault α

/-- `va_arg` of a word. -/
def vaArg : List FormatArg → Formatting (FormatArg × List FormatArg)
  | [] => .lift (.error .argument)
  | arg :: args => pure (arg, args)

/-- A `va_arg` that is the address of a string. -/
def vaString (args : List FormatArg) : Formatting (List UInt8 × List FormatArg) := do
  let (arg, args) ← vaArg args
  match arg.string with
  | none => .lift (.error .argument)
  | some s => return (s, args)

section

variable {σ : Type} (w : FormatWriter σ) (env : FormatEnv) (fuel : ℕ)

/-- The loop that writes the local buffer from its element `i` on. -/
def putBuffer : ℕ → ℕ → Formatted σ → Buffered (Formatted σ)
  | 0, _, _ => Buffered.fail .endless
  | k + 1, i, o => do
    let ch ← Buffered.load i
    if ch = 0 then return o
    putBuffer k (i + 1) (w.putchar o ch)

/-- Write what `print` leaves in the local buffer. -/
def putNumber (print : Buffered Unit) (o : Formatted σ) : Formatting (Formatted σ) := do
  let printed ← print env.stack
  let copied ← putBuffer w fuel 0 o printed.2
  return copied.1

/-- One branch of the `switch`. -/
def putConversion (args : List FormatArg) (o : Formatted σ) :
    Conversion → Formatting (List FormatArg × Formatted σ)
  | .percent => return (args, w.putchar o 0x25)
  | .char => do
    let (ch, args) ← vaArg args
    return (args, w.putchar o (UInt8.ofNat ch.word.toNat))
  | .string => do
    let (str, args) ← vaString args
    return (args, str.foldl w.putchar o)
  | .decimal => do
    let (num, args) ← vaArg args
    return (args, ← putNumber w env fuel (itoa fuel num.word.toNat 10) o)
  | .hex => do
    let (num, args) ← vaArg args
    return (args, ← putNumber w env fuel (itoa fuel num.word.toNat 16) (w.pre o 0x78))
  | .pointer => do
    let (ptr, args) ← vaArg args
    return (args, ← putNumber w env fuel (itoa fuel ptr.word.toNat 16) o)
  | .binary => do
    let (num, args) ← vaArg args
    return (args, ← putNumber w env fuel (itoa fuel num.word.toNat 2) (w.pre o 0x62))
  | .double => do
    let (low, args) ← vaArg args
    let (high, args) ← vaArg args
    return (args, ← putNumber w env fuel (env.gcvt low.word high.word) o)
  | .other => return (args, o)

/-- `*format` -/
def readFormat (format : ℕ) : Formatting UInt8 := do
  Traced.tell (.format format)
  return env.memory format

/-- The loop over the format. -/
def formatLoop : ℕ → ℕ → List FormatArg → Formatted σ → Formatting (Formatted σ)
  | 0, _, _, _ => .lift (.error .endless)
  | k + 1, format, args, o => do
    let ch ← readFormat env format
    if ch = 0 then return o
    if ch = 0x25 then
      let ch ← readFormat env (format + 1)
      let (args, o) ← putConversion w env fuel args o (conversion ch)
      formatLoop k (format + 2) args o
    else formatLoop k (format + 1) args (w.putchar o ch)

end

/-! ## The four of them -/

/-- `str[count] = ch; count++`, and `str[count++]` twice for the prefix. -/
def stringWriter (str : ℕ) : FormatWriter Mem where
  putchar o ch := ⟨o.target.store8 (str + o.count) ch, o.count + 1⟩
  pre o letter :=
    ⟨(o.target.store8 (str + o.count) 0x30).store8 (str + (o.count + 1)) letter, o.count + 2⟩

/-- `putchar` counted, and the prefix not counted; a stream is what was written to it. -/
def streamWriter : FormatWriter (List UInt8) where
  putchar o ch := ⟨o.target ++ [ch], o.count + 1⟩
  pre o letter := ⟨o.target ++ [0x30] ++ [letter], o.count⟩

/-- As `streamWriter`, with the prefix by one `puts`. -/
def stdoutWriter : FormatWriter (List UInt8) where
  putchar o ch := ⟨o.target ++ [ch], o.count + 1⟩
  pre o letter := ⟨o.target ++ [0x30, letter], o.count⟩

section

variable (fuel : ℕ) (env : FormatEnv) (format : ℕ) (args : List FormatArg)

/-- Build the text at `str` of the memory `dest`, with a zero byte behind it; the
count is returned as an `int`. -/
def formatToString (dest : Mem) (str : ℕ) : Formatting (Mem × ℤ) := do
  let o ← formatLoop (stringWriter str) env fuel fuel format args ⟨dest, 0⟩
  return (o.target.store8 (str + o.count) 0, int32 o.count)

/-- Write the text behind what was written before. -/
def formatToStream (w : FormatWriter (List UInt8)) (written : List UInt8) :
    Formatting (List UInt8 × ℤ) := do
  let o ← formatLoop w env fuel fuel format args ⟨written, 0⟩
  return (o.target, int32 o.count)

/-- `vstrfmt`, the body of `strfmt`. -/
def vstrfmt (dest : Mem) (str : ℕ) : Formatting (Mem × ℤ) :=
  formatToString fuel env format args dest str

/-- `stream_vprintf`, the body of `stream_printf`. -/
def streamVprintf (stream : List UInt8) : Formatting (List UInt8 × ℤ) :=
  formatToStream fuel env format args streamWriter stream

/-- libc's `vprintf`, the body of `printf`. -/
def vprintf (stdout : List UInt8) : Formatting (List UInt8 × ℤ) :=
  formatToStream fuel env format args stdoutWriter stdout

/-- libc's `vsprintf`, the body of `sprintf`. -/
def vsprintf (dest : Mem) (str : ℕ) : Formatting (Mem × ℤ) :=
  formatToString fuel env format args dest str

end

end Ttos
