/-
  What programs see of the system: the files and the terminal.

  * `ConsoleState`: the kernel's file handling and the terminal of the process.
  * `meets_readNext`: a read returns the next bytes of its file.
  * `meets_syscallWriteOut`: a write to standard output puts the bytes before the first zero byte
    on the terminal, and leaves the open files as they are.
-/
import Ttos.Io.DescriptorRun
import Ttos.Io.TtyRow

namespace Ttos

open Allocator

/-! ## The terminal -/

namespace IdleTty

/-- `tty_puts` -/
def puts (t : IdleTty) (text : List UInt8) : IdleTty := text.foldl IdleTty.putchar t

theorem tty_puts (t : IdleTty) (text : List UInt8) : (t.puts text).tty = ttyPuts t.tty text := by
  induction text generalizing t with
  | nil => rfl
  | cons ch text ih => exact ih (t.putchar ch)

theorem puts_append (t : IdleTty) (text text' : List UInt8) :
    t.puts (text ++ text') = (t.puts text).puts text' := List.foldl_append

end IdleTty

/-! ## The code -/

variable {σ δ α : Type}

/-- The kernel's file handling and the terminal. -/
structure ConsoleState (σ δ : Type) where
  fds : FdState σ δ
  tty : IdleTty

/-- Why a program does not come back: a file system function did not, or the message of a write
was copied to the address that a failed allocation returned. -/
inductive ConsoleStop where
  | files (e : FsStop)
  | nullMessage
deriving DecidableEq, Repr

abbrev ConsoleM (σ δ : Type) := StateT (ConsoleState σ δ) (Except ConsoleStop)

/-- Run a computation on the files. -/
def onFds (x : FdM σ δ α) : ConsoleM σ δ α := fun s =>
  (x s.fds).mapError .files |>.map fun r => (r.1, { s with fds := r.2 })

/-- The kernel ran out of memory. -/
def NoRoom (e : ConsoleStop) : Prop := e = .files .kheapOutOfMemory ∨ e = .nullMessage

def ConsoleState.setHeap (s : ConsoleState σ δ) (heap : σ) : ConsoleState σ δ :=
  { s with fds := { s.fds with io := { s.fds.io with objects := { s.fds.io.objects with heap := heap } } } }

section
variable [Allocator σ]

/-- `syscall_write` on standard output: the bytes go to a message in the kernel heap, with a zero
byte behind them, and the message to `tty_puts`. -/
def syscallWriteOut (bytes : List UInt8) : ConsoleM σ δ Int := do
  let (message, heap) := alloc (← get).fds.io.objects.heap (bytes.length + 1) false
  modify fun s => s.setHeap heap
  if message = 0 then throw .nullMessage
  else
    modify fun s => { s with tty := s.tty.puts (bytes.takeWhile (· ≠ 0)) }
    modify fun s => s.setHeap (free heap message)
    pure bytes.length

end

/-- The same system call on the bytes of the heap: what it puts on the terminal. -/
theorem writeStream_puts {base size : ℕ} {h : Kheap} {bs : List Blk} (hg : KheapGood base h bs)
    (hsize : size < 4294967296) (t : IdleTty) (user : Mem) (buffer : ℕ) :
    writeStream t.tty h user buffer size = some .nullMessage ∨ ∃ rendered h',
      writeStream t.tty h user buffer size = some (.ret size rendered
        (t.puts ((userBytes user buffer size).takeWhile (· ≠ 0))).tty h') := by
  rw [IdleTty.tty_puts]
  rcases writeStream_spec hg hsize t user buffer with ⟨-, h⟩ | ⟨-, h', h⟩
  · exact Or.inl h
  · exact Or.inr ⟨_, h', h⟩

/-! ## Open files while programs run -/

variable [Allocator σ] {machine : Machine σ δ} {images : ℕ → VolumeImage} {s : FdState σ δ}

/-- The files are as they were; other blocks of the heap may be new. -/
structure FdState.Same (s s' : FdState σ δ) : Prop where
  files : s'.files = s.files
  mountpoints : s'.io.mountpoints = s.io.mountpoints
  objects : s'.io.objects.filesystems = s.io.objects.filesystems ∧
    s'.io.objects.nodes = s.io.objects.nodes ∧ s'.io.objects.files = s.io.objects.files
  live : ∀ p, Live s.io.objects.heap p → Live s'.io.objects.heap p

namespace FdState.Same

variable {s' s'' : FdState σ δ}

theorem held (h : s.Same s') (fd : ℕ) : s'.io.objects.held fd = s.io.objects.held fd := by
  obtain ⟨-, hnodes, hfiles⟩ := h.objects
  rw [Objects.held, Objects.held, hnodes, hfiles]

theorem root (h : s.Same s') (i : ℕ) : s'.io.root i = s.io.root i := by
  rw [IoState.root, IoState.root, h.objects.1, h.mountpoints]

theorem trans (h : s.Same s') (h' : s'.Same s'') : s.Same s'' where
  files := h'.files.trans h.files
  mountpoints := h'.mountpoints.trans h.mountpoints
  objects := ⟨h'.objects.1.trans h.objects.1, h'.objects.2.1.trans h.objects.2.1,
    h'.objects.2.2.trans h.objects.2.2⟩
  live p hp := h'.live p (h.live p hp)

theorem openFiles (h : s.Same s') (ho : OpenFiles machine images s) :
    OpenFiles machine images s' := by
  obtain ⟨hfs, hnodes, -⟩ := h.objects
  refine ⟨⟨fun i hi h0 => ?_, fun i hi h0 => ?_, fun i hi h0 => ?_⟩, ?_, ?_, ?_⟩
  · rw [h.mountpoints] at h0 ⊢
    rw [hfs]
    exact ho.volume i hi h0
  · rw [h.mountpoints] at h0
    rw [h.root]
    exact h.live _ (ho.rootLive i hi h0)
  · rw [h.mountpoints] at h0 ⊢
    rw [h.root, hnodes]
    exact ho.rootNode i hi h0
  · intro process fd h0 p hp
    rw [h.files] at h0 hp
    rw [h.held] at hp
    exact h.live p (ho.live process fd h0 p hp)
  · intro process fd h0 i hi hm
    rw [h.files] at h0 ⊢
    rw [h.mountpoints] at hm
    rw [h.root, h.held]
    exact ho.apart process fd h0 i hi hm
  · intro process fd process' fd' hne h0 h0'
    rw [h.files] at h0 h0' ⊢
    rw [h.held, h.held]
    exact ho.disjoint process fd process' fd' hne h0 h0'

theorem reading (h : s.Same s') {a no fd offset : ℕ} {image : VolumeImage}
    (hr : Reading machine image a no fd offset s.io.objects) :
    Reading machine image a no fd offset s'.io.objects :=
  hr.congr (congrFun h.objects.2.2 fd) (congrFun h.objects.2.1 _) h.objects.1

end FdState.Same

/-! ## The calls -/

variable {t : ConsoleState σ δ}

omit [Allocator σ] in
theorem meets_onFds {x : FdM σ δ α} {Q : α → FdState σ δ → Prop}
    (h : Meets OutOfMemory x t.fds Q) :
    Meets NoRoom (onFds x) t fun r t' => t'.tty = t.tty ∧ Q r t'.fds := by
  rcases h.cases with ⟨e, hx, he⟩ | ⟨r, s', hx, hq⟩
  · exact Meets.of_error (by rw [onFds, hx]; rfl) (Or.inl (congrArg _ he))
  · have hrun : onFds x t = .ok (r, { t with fds := s' }) := by rw [onFds, hx]; rfl
    exact Meets.of_ok hrun ⟨rfl, hq⟩

/-- **A write to standard output**: the terminal gets the bytes before the first zero byte. -/
theorem meets_syscallWriteOut (bytes : List UInt8) (hb : Request (bytes.length + 1)) :
    Meets NoRoom (syscallWriteOut bytes) t fun r t' => r = bytes.length ∧
      t'.tty = t.tty.puts (bytes.takeWhile (· ≠ 0)) ∧ t.fds.Same t'.fds := by
  rw [syscallWriteOut]
  refine Meets.get_bind ?_
  dsimp only
  refine Meets.modify_bind ?_
  split_ifs with h0
  · exact Meets.throw (Or.inr rfl)
  · refine Meets.modify_bind (Meets.modify_bind (Meets.pure ⟨rfl, rfl, rfl, rfl, ⟨rfl, rfl, rfl⟩, ?_⟩))
    intro p hp
    exact (free_live _ _ _).2 ⟨alloc_keeps hb hp, ne_of_live hb hp⟩

omit [Allocator σ] in
theorem puts_message {text : List UInt8} (t : IdleTty) (h : 0 ∉ text) :
    t.puts (text.takeWhile (· ≠ 0)) = t.puts text := by
  have hall : text.takeWhile (· ≠ 0) = text := by
    refine List.takeWhile_eq_self_iff.2 fun c hc => decide_eq_true ?_
    rintro rfl
    exact h hc
  rw [hall]

/-! ## Reading a file -/

/-- The bytes of a file from `offset` on. -/
def FileTree.rest (tree : FileTree) (no offset : ℕ) : List UInt8 :=
  (List.range (tree.length no - offset)).map fun j => tree.byte no (offset + j)

section

variable {tree : FileTree} {no offset : ℕ}

theorem FileTree.rest_eq_nil (h : tree.length no ≤ offset) : tree.rest no offset = [] := by
  rw [FileTree.rest, Nat.sub_eq_zero_of_le h]
  rfl

theorem FileTree.rest_zero : tree.rest no 0 = tree.first no (tree.length no) := by
  rw [FileTree.rest, FileTree.first, Nat.sub_zero]
  simp only [Nat.zero_add]

/-- One piece, and what is behind it. -/
theorem FileTree.rest_append {n : ℕ} (h : offset + n ≤ tree.length no) :
    tree.rest no offset = (List.range n).map (fun j => tree.byte no (offset + j)) ++
      tree.rest no (offset + n) := by
  have hlen : tree.length no - offset = n + (tree.length no - (offset + n)) := by omega
  rw [FileTree.rest, FileTree.rest, hlen, map_range_add]
  simp only [Nat.add_assoc]

end

/-- The descriptor `fd` of the process is open on a file, of which `offset` bytes are read. -/
structure ReadsFile (machine : Machine σ δ) (images : ℕ → VolumeImage) (process fd a no offset : ℕ)
    (s : FdState σ δ) : Prop where
  open_files : OpenFiles machine images s
  file : s.files process fd ≠ 0
  reading : Reading machine (images a) a no (s.files process fd) offset s.io.objects

variable {process fd a no offset : ℕ}

theorem ReadsFile.same {s s' : FdState σ δ} (h : ReadsFile machine images process fd a no offset s)
    (hs : s.Same s') : ReadsFile machine images process fd a no offset s' where
  open_files := hs.openFiles h.open_files
  file := by rw [hs.files]; exact h.file
  reading := by rw [hs.files]; exact hs.reading h.reading

/-- **A read** returns the next bytes of the file. -/
theorem meets_readNext (hfd : fd < processMaxFileDescriptors)
    (hlt : (images a).tree.length no < 2147483648)
    (h : ReadsFile machine images process fd a no offset t.fds) {size : ℕ} (hs : size < 2147483648)
    (buffer : Mem) :
    Meets NoRoom (onFds (syscallReadFile machine process (fd : Int) size buffer)) t fun r t' =>
      t'.tty = t.tty ∧ t'.fds.files = t.fds.files ∧ t'.fds.io.mountpoints = t.fds.io.mountpoints ∧
        r.1 = available ((images a).tree.length no) offset size ∧
        (List.range r.1.toNat).map r.2 =
          (List.range (available ((images a).tree.length no) offset size)).map
            (fun j => (images a).tree.byte no (offset + j)) ∧
        ReadsFile machine images process fd a no
          (offset + available ((images a).tree.length no) offset size) t'.fds := by
  obtain ⟨ho, h0, hr⟩ := h
  refine (meets_onFds (meets_syscallReadFile ho hfd h0 hr hlt hs buffer)).mono ?_
  rintro ⟨bytesRead, buffer'⟩ t₁ ⟨htty, ⟨hcount, hbytes⟩, o, hc, ht₁, hnext⟩
  dsimp only at hcount hbytes ⊢
  refine ⟨htty, by rw [ht₁, change_closed _ _ rfl], by rw [ht₁]; rfl, hcount, ?_, ?_⟩
  · rw [hcount, Int.toNat_natCast]
    exact List.map_congr_left fun j hj => (hbytes j).trans (if_pos (List.mem_range.1 hj))
  · rw [ht₁]
    refine ⟨ho.change hc, ?_, ?_⟩
    · rw [FdState.change, files_setFile_self]
      exact h0
    · rw [FdState.change, files_setFile_self]
      exact hnext

/-- The small volume as drive A, and a new terminal. -/
def dirImageConsole : ConsoleState KernelHeap Unit where
  fds := dirImageFds
  tty := IdleTty.create ⟨80, 25⟩ (fun _ => ⟨0x20, 0x0F⟩) 0 ttyKeyboardLayoutDeDE (fun _ => 0)
    fun _ => 0

end Ttos
