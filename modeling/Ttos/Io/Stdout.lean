/-
  Standard output: the write system call on file descriptors 1 and 2 (syscall.c, tty.c).

  The functions of the output side once more, with a record of the bytes that
  `tty_render` gets.

  * `ttyPutcharRendered_idle`: a byte put on the terminal is rendered, and
    nothing else.
  * `terminal_write_exact`: a write renders its bytes exactly when the message
    fits into the heap and has no zero byte.
  * `terminal_write_stops`: a zero byte cuts the output, and the full size is
    returned.
-/
import Mathlib.Data.List.TakeWhile
import Ttos.Io.Tty
import Ttos.Lib.CString
import Ttos.Memory.KheapPolicy
import Ttos.System.Interrupt

namespace Ttos

/-! ## The terminal -/

/-- The loop of `tty_flush`: the bytes rendered, and the terminal. -/
def ttyFlushRendered : ℕ → Tty → List UInt8 × Tty
  | 0, t => ([], t)
  | n + 1, t =>
    match circularBufferDequeue t.output with
    | (none, _) => ([], t)
    | (some ch, output) =>
      let (rendered, t) := ttyFlushRendered n (ttyRender { t with output := output } ch)
      (ch :: rendered, t)

/-- `tty_putchar` -/
def ttyPutcharRendered (t : Tty) (ch : UInt8) : List UInt8 × Tty :=
  let t := { t with output := circularBufferEnqueue t.output ch }
  ttyFlushRendered (circularBufferSize t.output) t

/-- `tty_puts` of the string at `str`; `none` if it has no end. -/
def ttyPutsRendered (m : Mem) : ℕ → ℕ → Tty → Option (List UInt8 × Tty)
  | 0, _, _ => none
  | k + 1, str, t =>
    if m str ≠ 0 then do
      let (rendered, t) := ttyPutcharRendered t (m str)
      let (rest, t) ← ttyPutsRendered m k (str + 1) t
      some (rendered ++ rest, t)
    else some ([], t)

/-- A terminal between two calls: everything is rendered. -/
structure IdleTty where
  tty : Tty
  idle : tty.output.contents = []

/-- The flush renders what the buffer holds. -/
theorem ttyFlushRendered_eq (n : ℕ) (t : Tty) :
    ttyFlushRendered n t = (t.output.contents.take n, ttyFlushLoop n t) ∧
      (ttyFlushLoop n t).output.contents = t.output.contents.drop n := by
  induction n generalizing t with
  | zero => exact ⟨rfl, rfl⟩
  | succ n ih =>
    obtain ⟨hd, ht⟩ := CircularBuffer.contents_dequeue t.output
    rw [ttyFlushRendered, ttyFlushLoop]
    rcases hdq : circularBufferDequeue t.output with ⟨_ | ch, output⟩
    · rw [hdq] at hd
      have hnil : t.output.contents = [] := List.head?_eq_none_iff.1 hd.symm
      rw [hnil]
      exact ⟨rfl, rfl⟩
    · rw [hdq] at hd ht
      have hcons : t.output.contents = ch :: output.contents := by
        rw [show output.contents = t.output.contents.tail from ht]
        exact List.eq_cons_of_mem_head? hd.symm
      obtain ⟨heq, hrest⟩ := ih (ttyRender { t with output := output } ch)
      have hout : (ttyRender { t with output := output } ch).output = output :=
        congrArg Prod.snd (rings_ttyRender { t with output := output } ch)
      rw [hout] at heq hrest
      rw [hcons]
      dsimp only
      rw [heq]
      exact ⟨rfl, hrest⟩

/-- **A byte put on an idle terminal is rendered**, and nothing else; the terminal is idle again. -/
theorem ttyPutcharRendered_idle (t : IdleTty) (ch : UInt8) :
    ttyPutcharRendered t.tty ch = ([ch], ttyPutchar t.tty ch) ∧
      (ttyPutchar t.tty ch).output.contents = [] := by
  have hc : (circularBufferEnqueue t.tty.output ch).contents = [ch] := by
    rw [CircularBuffer.contents_enqueue, t.idle]
    split <;> rfl
  have hsize : circularBufferSize (circularBufferEnqueue t.tty.output ch) = 1 := by
    rw [← CircularBuffer.length_contents, hc]
    rfl
  obtain ⟨heq, hrest⟩ := ttyFlushRendered_eq 1
    { t.tty with output := circularBufferEnqueue t.tty.output ch }
  rw [hc] at heq hrest
  unfold ttyPutcharRendered ttyPutchar ttyFlush
  dsimp only
  rw [hsize]
  exact ⟨heq, hrest⟩

namespace IdleTty

/-- The terminal as `tty_create` leaves it. -/
def create (mode : VgaVideoMode) (memory : VideoMemory) (location : ℕ) (layout : TtyKeyboardLayout)
    (stale : ℕ → UInt8) (stalev : ℕ → ℕ) : IdleTty where
  tty := ttyCreate mode memory location layout stale stalev
  idle := CircularBuffer.contents_create _ _ _

def putchar (t : IdleTty) (ch : UInt8) : IdleTty where
  tty := ttyPutchar t.tty ch
  idle := (ttyPutcharRendered_idle t ch).2

end IdleTty

/-- `tty_puts` stops at the first zero byte. -/
theorem ttyPutsRendered_eq {m : Mem} {str k : ℕ} {bytes : List UInt8} (t : IdleTty)
    (hb : m.HasBytes str bytes) (hz : m (str + bytes.length) = 0) (hk : bytes.length < k) :
    ttyPutsRendered m k str t.tty =
      some (bytes.takeWhile (· ≠ 0), ttyPuts t.tty (bytes.takeWhile (· ≠ 0))) := by
  induction bytes generalizing str k t with
  | nil =>
    obtain ⟨k, rfl⟩ := Nat.exists_eq_add_one_of_ne_zero (by omega : k ≠ 0)
    have hz' : m str = 0 := hz
    rw [ttyPutsRendered, if_neg (not_not.2 hz')]
    rfl
  | cons ch bytes ih =>
    obtain ⟨k, rfl⟩ := Nat.exists_eq_add_one_of_ne_zero (by omega : k ≠ 0)
    obtain ⟨hch, hrest⟩ := Mem.hasBytes_cons.1 hb
    rw [ttyPutsRendered, hch]
    by_cases h0 : ch = 0
    · rw [if_neg (not_not.2 h0), List.takeWhile_cons_of_neg (by simpa using h0)]
      rfl
    · have hz' : m (str + 1 + bytes.length) = 0 := by
        rw [← hz, List.length_cons]
        congr 1
        omega
      rw [if_pos h0, List.takeWhile_cons_of_pos (by simpa using h0), (ttyPutcharRendered_idle t ch).1]
      show (ttyPutsRendered m k (str + 1) (t.putchar ch).tty).bind _ = _
      rw [ih (t.putchar ch) hrest hz' (by simpa using hk)]
      rfl

/-! ## The system call -/

/-- The fields of the current process that the call looks at.  `syscall_open` hands out file
descriptors from 3 on, and `syscall_close` leaves those below alone. -/
structure Writer where
  out : ℕ
  err : ℕ
  files : ℕ → ℕ
  standard : ∀ fd < 3, files fd = 0

/-- How the call ended: it returned a value and rendered some bytes, or it wrote to the address
that a failed allocation returned. -/
inductive WriteEnd where
  | ret (value : ℕ) (rendered : List UInt8) (tty : Tty) (heap : Kheap)
  | nullMessage

/-- A write to a stream of the terminal, by way of a message in the kernel heap. -/
def writeStream (t : Tty) (h : Kheap) (user : Mem) (buffer size : ℕ) : Option WriteEnd := do
  let (message, h) ← h.kmalloc (u32 (size + 1))
  if message = 0 then some .nullMessage
  else
    let m := (h.mem.copyFrom message user buffer size).store8 (message + size) 0
    let (rendered, t) ← ttyPutsRendered m (size + 1) message t
    some (.ret size rendered t ({ h with mem := m }.kfree message))

/-- `syscall_write`; `user` is the memory of the process, `fileWrite` what `file_write` returns. -/
def syscallWrite (fileWrite : ℕ → ℕ) (process : Option Writer) (t : Tty) (h : Kheap) (user : Mem)
    (fd : ℤ) (buffer size : ℕ) : Option WriteEnd :=
  if fd < 0 ∨ (processMaxFileDescriptors : ℤ) ≤ fd then some (.ret minusOne [] t h)
  else
    match process with
    | none => some (.ret minusOne [] t h)
    | some p =>
      if p.out ≠ 0 ∧ fd = 1 then writeStream t h user buffer size
      else if p.err ≠ 0 ∧ fd = 2 then writeStream t h user buffer size
      else if p.files fd.toNat ≠ 0 then some (.ret (fileWrite (p.files fd.toNat)) [] t h)
      else some (.ret minusOne [] t h)

/-- The bytes of the user's buffer. -/
def userBytes (user : Mem) (buffer size : ℕ) : List UInt8 :=
  (List.range size).map fun i => user (buffer + i)

/-- **The bytes of the buffer are rendered in order and the size is returned**, or nothing is
rendered and the call fails. -/
def ByteExact (bytes : List UInt8) : WriteEnd → Prop
  | .ret value rendered _ _ =>
    value = minusOne ∧ rendered = [] ∨ value = bytes.length ∧ rendered = bytes
  | .nullMessage => False

/-- The stream of a file descriptor, `0` if it has none. -/
def streamOf (process : Option Writer) (fd : ℤ) : ℕ :=
  process.elim 0 fun p => if fd = 1 then p.out else p.err

/-- A free block of the heap has room for the message and its end. -/
def MessageFits (h : Kheap) (size : ℕ) : Prop :=
  ∃ bs, h.blocks = some bs ∧ ∃ b ∈ bs, b.free = true ∧ size + 1 ≤ b.size

variable {base size buffer : ℕ} {h : Kheap} {bs : List Blk} {user : Mem}

@[simp] theorem length_userBytes (user : Mem) (buffer size : ℕ) :
    (userBytes user buffer size).length = size := by
  simp [userBytes]

/-- `kmalloc(size + 1)` fails when no free block is large enough; when `size + 1` wraps, none is. -/
theorem message_null_iff (hg : KheapGood base h bs) (hsize : size < 4294967296) :
    (∃ h', h.kmalloc (u32 (size + 1)) = some (0, h')) ↔ ¬ MessageFits h size := by
  have hblocks : MessageFits h size ↔ ∃ b ∈ bs, b.free = true ∧ size + 1 ≤ b.size := by
    constructor
    · rintro ⟨bs', hbs, hb⟩
      obtain rfl : bs = bs' := by simpa [Kheap.blocks_eq hg.inv] using hbs
      exact hb
    · intro hb
      exact ⟨bs, Kheap.blocks_eq hg.inv, hb⟩
  rw [hblocks]
  by_cases hwrap : size + 1 = 4294967296
  · refine iff_of_true ⟨h, ?_⟩ ?_
    · rw [hwrap]
      rcases Kheap.kmallocInt_spec hg 0 false with hk | ⟨b, h', bs', -, -, -, hpos, -⟩
      · exact hk
      · exact absurd hpos (lt_irrefl 0)
    · rintro ⟨b, hb, -, hle⟩
      have hrange : base ≤ b.addr ∧ b.addr + 20 + b.size ≤ base + 33554432 := hg.inv.mem_range hb
      have := hg.inv.bounds
      omega
  · have hu : u32 (size + 1) = size + 1 := Nat.mod_eq_of_lt (by omega)
    rw [hu]
    refine (Kheap.kmallocInt_policy hg.inv (Nat.succ_pos size) false).null.trans ?_
    constructor
    · rintro hn ⟨b, hb, hf, hle⟩
      exact hn b hb ⟨hf, hle, by simp⟩
    · intro hn b hb hfits
      exact hn ⟨b, hb, hfits.1, hfits.2.1⟩

/-- What a write to a stream does. -/
theorem writeStream_spec (hg : KheapGood base h bs) (hsize : size < 4294967296) (t : IdleTty)
    (user : Mem) (buffer : ℕ) :
    (¬ MessageFits h size ∧ writeStream t.tty h user buffer size = some .nullMessage) ∨
      MessageFits h size ∧ ∃ h', writeStream t.tty h user buffer size =
        some (.ret size ((userBytes user buffer size).takeWhile (· ≠ 0))
          (ttyPuts t.tty ((userBytes user buffer size).takeWhile (· ≠ 0))) h') := by
  rcases Kheap.kmallocInt_spec hg (u32 (size + 1)) false with
    hk | ⟨b, h', bs', hk, hg', hp, -, hs, -, hout⟩
  · refine Or.inl ⟨(message_null_iff hg hsize).1 ⟨h, hk⟩, ?_⟩
    simp [writeStream, Kheap.kmalloc, hk]
  · have hb0 : b.data ≠ 0 := by simp [Blk.data]
    have hfits : MessageFits h size := by
      by_contra hn
      obtain ⟨h'', hk'⟩ := (message_null_iff hg hsize).2 hn
      rw [Kheap.kmalloc, hk, Option.some.injEq, Prod.mk.injEq] at hk'
      exact hb0 hk'.1
    refine Or.inr ⟨hfits, ?_⟩
    have hbytes : ((h'.mem.copyFrom b.data user buffer size).store8 (b.data + size) 0).HasBytes
        b.data (userBytes user buffer size) := by
      intro j hj
      rw [length_userBytes] at hj
      rw [Mem.store8_out (by omega), Mem.copyFrom_in (by omega) (by omega), Nat.add_sub_cancel_left]
      simp [userBytes]
    have hend : ((h'.mem.copyFrom b.data user buffer size).store8 (b.data + size) 0)
        (b.data + (userBytes user buffer size).length) = 0 := by
      rw [length_userBytes, Mem.store8_in]
    have hputs := ttyPutsRendered_eq t hbytes hend (k := size + 1) (by simp)
    exact ⟨_, by simp [writeStream, Kheap.kmalloc, hk, hb0, hputs]; rfl⟩

/-- The call on a file descriptor of the terminal: its stream decides. -/
theorem syscallWrite_terminal (fileWrite : ℕ → ℕ) (process : Option Writer) (t : Tty) (h : Kheap)
    (user : Mem) {fd : ℤ} (hfd : fd = 1 ∨ fd = 2) (buffer size : ℕ) :
    syscallWrite fileWrite process t h user fd buffer size =
      if streamOf process fd = 0 then some (.ret minusOne [] t h)
      else writeStream t h user buffer size := by
  have hrange : ¬ (fd < 0 ∨ (processMaxFileDescriptors : ℤ) ≤ fd) := by
    rcases hfd with rfl | rfl <;> decide
  unfold syscallWrite
  rw [if_neg hrange]
  cases process with
  | none => rfl
  | some p =>
    have h1 := p.standard 1 (by decide)
    have h2 := p.standard 2 (by decide)
    rcases hfd with rfl | rfl
    · by_cases hout : p.out = 0
      · simp [streamOf, hout, h1]
      · simp [streamOf, hout]
    · by_cases herr : p.err = 0
      · simp [streamOf, herr, h2]
      · simp [streamOf, herr]

theorem MessageFits.size_lt (hg : KheapGood base h bs) (hf : MessageFits h size) :
    size < minusOne := by
  obtain ⟨bs', hbs, b, hb, -, hle⟩ := hf
  obtain rfl : bs = bs' := by simpa [Kheap.blocks_eq hg.inv] using hbs
  have hrange : base ≤ b.addr ∧ b.addr + 20 + b.size ≤ base + 33554432 := hg.inv.mem_range hb
  have := hg.inv.bounds
  show size < 0xFFFFFFFF
  omega

theorem syscallWrite_exact (hg : KheapGood base h bs) (hsize : size < 4294967296)
    (fileWrite : ℕ → ℕ) (process : Option Writer) (t : IdleTty) (user : Mem) {fd : ℤ}
    (hfd : fd = 1 ∨ fd = 2) (buffer : ℕ) :
    ∃ r, syscallWrite fileWrite process t.tty h user fd buffer size = some r ∧
      (ByteExact (userBytes user buffer size) r ↔
        streamOf process fd = 0 ∨ MessageFits h size ∧ 0 ∉ userBytes user buffer size) := by
  rw [syscallWrite_terminal fileWrite process t.tty h user hfd]
  by_cases hs : streamOf process fd = 0
  · rw [if_pos hs]
    exact ⟨_, rfl, iff_of_true (Or.inl ⟨rfl, rfl⟩) (Or.inl hs)⟩
  rw [if_neg hs]
  rcases writeStream_spec hg hsize t user buffer with
    ⟨hn, heq⟩ | ⟨hf, h', heq⟩
  · refine ⟨_, heq, iff_of_false id ?_⟩
    rintro (h0 | ⟨hf, -⟩)
    · exact hs h0
    · exact hn hf
  · refine ⟨_, heq, ?_⟩
    have hall : (userBytes user buffer size).takeWhile (· ≠ 0) = userBytes user buffer size ↔
        0 ∉ userBytes user buffer size := by
      rw [List.takeWhile_eq_self_iff]
      constructor
      · intro hall h0
        simpa using hall 0 h0
      · intro h0 ch hch
        rw [decide_eq_true_iff]
        rintro rfl
        exact h0 hch
    constructor
    · rintro (⟨hm, -⟩ | ⟨-, heq'⟩)
      · exact absurd hm (hf.size_lt hg).ne
      · exact Or.inr ⟨hf, hall.1 heq'⟩
    · rintro (h0 | ⟨-, h0⟩)
      · exact absurd h0 hs
      · exact Or.inr ⟨(length_userBytes user buffer size).symm, hall.2 h0⟩

/-- **A write to the terminal is byte exact** exactly when it fails for want of a stream, or a free
block has room for the message and the buffer has no zero byte. -/
theorem terminal_write_exact {s : HeapRun} (hr : (heapSystem base).Reachable s)
    (hsize : size < 4294967296) (fileWrite : ℕ → ℕ) (process : Option Writer) (t : IdleTty)
    (user : Mem) {fd : ℤ} (hfd : fd = 1 ∨ fd = 2) (buffer : ℕ) :
    ∃ r, syscallWrite fileWrite process t.tty s.heap user fd buffer size = some r ∧
      (ByteExact (userBytes user buffer size) r ↔
        streamOf process fd = 0 ∨ MessageFits s.heap size ∧ 0 ∉ userBytes user buffer size) := by
  obtain ⟨bs, hi⟩ := HeapRun.reachable_inv hr
  exact syscallWrite_exact hi.good hsize fileWrite process t user hfd buffer

/-- A terminal, a process with its streams, and a fresh heap. -/
def freshTty : IdleTty :=
  .create ⟨80, 25⟩ (fun _ => ⟨0, 0⟩) 0 ttyKeyboardLayoutDeDE (fun _ => 0) fun _ => 0

def terminalWriter : Writer := ⟨0xD0001000, 0xD0002000, fun _ => 0, fun _ _ => rfl⟩

theorem messageFits_init : ∃ h, Kheap.kheapInit ⟨fun _ => 0, false, 0, 0, 0, 0, 0⟩ 0xD0000000 = some h ∧
    (heapSystem 0xD0000000).Reachable ⟨h, []⟩ ∧ MessageFits h 3 := by
  obtain ⟨h, hk, hr⟩ := heapSystem_init
  have hregion : KheapRegion 0xD0000000 := ⟨by decide, by decide⟩
  have hg := Kheap.kheapInit_spec hregion hk
  exact ⟨h, hk, hr, _, Kheap.blocks_eq hg.inv, _, List.mem_singleton_self _, rfl, by decide⟩

theorem terminal_write_exact_abc :
    ∃ h, Kheap.kheapInit ⟨fun _ => 0, false, 0, 0, 0, 0, 0⟩ 0xD0000000 = some h ∧
      ∃ r, syscallWrite (fun _ => 0) (some terminalWriter) freshTty.tty h
        (Mem.ofList [0x61, 0x62, 0x63] fun _ => 0) 1 0 3 = some r ∧
        ByteExact [0x61, 0x62, 0x63] r := by
  obtain ⟨h, hk, hr, hf⟩ := messageFits_init
  obtain ⟨r, heq, hexact⟩ := terminal_write_exact hr (by decide : 3 < 4294967296) (fun _ => 0)
    (some terminalWriter) freshTty (Mem.ofList [0x61, 0x62, 0x63] fun _ => 0) (Or.inl rfl : (1 : ℤ) = 1 ∨ _) 0
  exact ⟨h, hk, r, heq, hexact.2 (Or.inr ⟨hf, by decide⟩)⟩

/-- **A zero byte ends the output**: of the bytes `a`, `0`, `b` only the first is rendered. -/
theorem terminal_write_stops :
    ∃ h, Kheap.kheapInit ⟨fun _ => 0, false, 0, 0, 0, 0, 0⟩ 0xD0000000 = some h ∧
      ∃ r, syscallWrite (fun _ => 0) (some terminalWriter) freshTty.tty h
        (Mem.ofList [0x61, 0, 0x62] fun _ => 0) 1 0 3 = some r ∧
        ¬ ByteExact [0x61, 0, 0x62] r := by
  obtain ⟨h, hk, hr, -⟩ := messageFits_init
  obtain ⟨bs, hi⟩ := HeapRun.reachable_inv hr
  obtain ⟨r, heq, hexact⟩ := syscallWrite_exact hi.good (by decide : 3 < 4294967296) (fun _ => 0)
    (some terminalWriter) freshTty (Mem.ofList [0x61, 0, 0x62] fun _ => 0) (Or.inl rfl : (1 : ℤ) = 1 ∨ _) 0
  refine ⟨h, hk, r, heq, fun hb => ?_⟩
  rcases hexact.1 hb with h0 | ⟨-, h0⟩
  · exact absurd h0 (by decide)
  · exact absurd h0 (by decide)

end Ttos
