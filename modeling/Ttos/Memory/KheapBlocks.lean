/-
  The block list of the kernel heap as a list of blocks.

  * `Blk` is a block as a client sees it: its address, size and state.
  * `Linked m p bs n`: the headers of `bs` are linked in memory, with `p` in
    front of the first and `n` behind the last.
  * `KheapInv base h bs`: the heap `h` holds exactly the blocks `bs`, and they
    tile the heap region; `HeapInv base limit h bs` is the same for a region
    that ends at `limit`.
-/
import Ttos.Lib.Tiling
import Ttos.Memory.Kheap

namespace Ttos

/-! ## Header fields -/

namespace Mem

variable {m m' : Mem} {a b v : ℕ} {f : Bool}

/-- A header depends on its 20 bytes only. -/
theorem block_congr (h : ∀ x, a ≤ x → x < a + 20 → m' x = m x) : m'.block a = m.block a := by
  unfold block
  rw [load32_congr fun x h1 h2 => h x h1 (by omega),
    load32_congr fun x h1 h2 => h x (by omega) (by omega),
    h (a + 8) (by omega) (by omega),
    load32_congr fun x h1 h2 => h x (by omega) (by omega),
    load32_congr fun x h1 h2 => h x (by omega) (by omega)]

@[simp] theorem block_setMagic (m : Mem) (a v : ℕ) :
    (m.setMagic a v).block a = { m.block a with magic := v % 4294967296 } := by
  unfold block setMagic
  rw [load32_store32, load32_store32_ne (by omega), store32_out (by omega),
    load32_store32_ne (by omega), load32_store32_ne (by omega)]

@[simp] theorem block_setSize (m : Mem) (a v : ℕ) :
    (m.setSize a v).block a = { m.block a with size := v % 4294967296 } := by
  unfold block setSize
  rw [load32_store32, load32_store32_ne (by omega), store32_out (by omega),
    load32_store32_ne (by omega), load32_store32_ne (by omega)]

@[simp] theorem block_setFree (m : Mem) (a : ℕ) (f : Bool) :
    (m.setFree a f).block a = { m.block a with free := f } := by
  unfold block setFree
  rw [load32_store8_ne (by omega), load32_store8_ne (by omega), store8_in,
    load32_store8_ne (by omega), load32_store8_ne (by omega)]
  cases f <;> rfl

@[simp] theorem block_setPrev (m : Mem) (a v : ℕ) :
    (m.setPrev a v).block a = { m.block a with prev := v % 4294967296 } := by
  unfold block setPrev
  rw [load32_store32, load32_store32_ne (by omega), store32_out (by omega),
    load32_store32_ne (by omega), load32_store32_ne (by omega)]

@[simp] theorem block_setNext (m : Mem) (a v : ℕ) :
    (m.setNext a v).block a = { m.block a with next := v % 4294967296 } := by
  unfold block setNext
  rw [load32_store32, load32_store32_ne (by omega), store32_out (by omega),
    load32_store32_ne (by omega), load32_store32_ne (by omega)]

section
variable {x : ℕ} (h : x < a ∨ a + 20 ≤ x)
include h

theorem setMagic_out : m.setMagic a v x = m x := store32_out (by omega)

theorem setSize_out : m.setSize a v x = m x := store32_out (by omega)

theorem setFree_out : m.setFree a f x = m x := store8_out (by omega)

theorem setPrev_out : m.setPrev a v x = m x := store32_out (by omega)

theorem setNext_out : m.setNext a v x = m x := store32_out (by omega)

end

section
variable (h : b + 20 ≤ a ∨ a + 20 ≤ b)
include h

theorem block_setMagic_ne : (m.setMagic a v).block b = m.block b :=
  block_congr fun _ _ _ => setMagic_out (by omega)

theorem block_setSize_ne : (m.setSize a v).block b = m.block b :=
  block_congr fun _ _ _ => setSize_out (by omega)

theorem block_setFree_ne : (m.setFree a f).block b = m.block b :=
  block_congr fun _ _ _ => setFree_out (by omega)

theorem block_setPrev_ne : (m.setPrev a v).block b = m.block b :=
  block_congr fun _ _ _ => setPrev_out (by omega)

theorem block_setNext_ne : (m.setNext a v).block b = m.block b :=
  block_congr fun _ _ _ => setNext_out (by omega)

end

theorem block_fill_ne {n : ℕ} {w : UInt8} (h : b + 20 ≤ a ∨ a + n ≤ b) :
    (m.fill a w n).block b = m.block b :=
  block_congr fun _ _ _ => fill_out (by omega)

end Mem

/-! ## Linked blocks -/

/-- A block of the heap: the address of its header, the size of its payload,
    and whether it is free. -/
structure Blk where
  addr : ℕ
  size : ℕ
  free : Bool
deriving DecidableEq, Repr

namespace Blk

/-- The payload's address. -/
def data (b : Blk) : ℕ := b.addr + 20

/-- The end of the payload. -/
def stop (b : Blk) : ℕ := b.addr + 20 + b.size

end Blk

instance : Piece Blk where
  lo := Blk.addr
  hi := Blk.stop
  used b := !b.free

theorem Blk.ext_piece {b c : Blk} (h1 : Piece.lo b = Piece.lo c) (h2 : Piece.hi b = Piece.hi c)
    (h3 : Piece.used b = Piece.used c) : b = c := by
  obtain ⟨a, s, f⟩ := b
  obtain ⟨a', s', f'⟩ := c
  simp only [Piece.lo, Piece.hi, Piece.used, Blk.stop, Bool.not_eq_eq_eq_not, Bool.not_not] at h1 h2 h3
  simp only [Blk.mk.injEq]
  exact ⟨h1, by omega, h3⟩

/-- The address of the first block, or `n`. -/
def headAddr : List Blk → ℕ → ℕ
  | [], n => n
  | b :: _, _ => b.addr

/-- The address of the last block, or `p`. -/
def lastAddr : List Blk → ℕ → ℕ
  | [], p => p
  | b :: bs, _ => lastAddr bs b.addr

@[simp] theorem headAddr_nil (n : ℕ) : headAddr [] n = n := rfl

@[simp] theorem headAddr_cons (b : Blk) (bs : List Blk) (n : ℕ) : headAddr (b :: bs) n = b.addr := rfl

@[simp] theorem lastAddr_nil (p : ℕ) : lastAddr [] p = p := rfl

@[simp] theorem lastAddr_cons (b : Blk) (bs : List Blk) (p : ℕ) :
    lastAddr (b :: bs) p = lastAddr bs b.addr := rfl

@[simp] theorem headAddr_append (xs ys : List Blk) (n : ℕ) :
    headAddr (xs ++ ys) n = headAddr xs (headAddr ys n) := by cases xs <;> rfl

@[simp] theorem lastAddr_append : ∀ (xs ys : List Blk) (p : ℕ),
    lastAddr (xs ++ ys) p = lastAddr ys (lastAddr xs p)
  | [], _, _ => rfl
  | _ :: xs, ys, _ => lastAddr_append xs ys _

/-- The header of `b` in memory, between `p` and `n`. -/
def HeaderAt (m : Mem) (b : Blk) (p n : ℕ) : Prop :=
  m.block b.addr = ⟨kheapMagic, b.size, b.free, p, n⟩

/-- The headers of `bs` are linked, with `p` in front and `n` behind. -/
def Linked (m : Mem) : ℕ → List Blk → ℕ → Prop
  | _, [], _ => True
  | p, b :: bs, n => HeaderAt m b p (headAddr bs n) ∧ Linked m b.addr bs n

theorem linked_append {m : Mem} {n : ℕ} {ys : List Blk} : ∀ {xs : List Blk} {p : ℕ},
    Linked m p (xs ++ ys) n ↔ Linked m p xs (headAddr ys n) ∧ Linked m (lastAddr xs p) ys n
  | [], p => by simp [Linked]
  | x :: xs, p => by
    simp only [List.cons_append, Linked, headAddr_append, linked_append, lastAddr_cons, and_assoc]

/-- Links only depend on the headers. -/
theorem Linked.congr {m m' : Mem} {n : ℕ} : ∀ {bs : List Blk} {p : ℕ}, Linked m p bs n →
    (∀ b ∈ bs, m'.block b.addr = m.block b.addr) → Linked m' p bs n
  | [], _, _, _ => trivial
  | b :: _, _, ⟨h1, h2⟩, h =>
    ⟨(h b (by simp)).trans h1, h2.congr fun c hc => h c (by simp [hc])⟩

theorem Linked.magic {m : Mem} {n : ℕ} : ∀ {bs : List Blk} {p : ℕ}, Linked m p bs n →
    ∀ b ∈ bs, (m.block b.addr).magic = kheapMagic ∧ (m.block b.addr).size = b.size ∧
      (m.block b.addr).free = b.free
  | b :: _, _, ⟨h1, h2⟩, c, hc => by
    rcases List.mem_cons.1 hc with rfl | hc
    · rw [h1]; exact ⟨rfl, rfl, rfl⟩
    · exact h2.magic c hc

/-! ## The heap's invariant -/

/-- The region `vmm_map_memory` gave the heap: not at `NULL`, and it does not wrap
    around the end of the address space. -/
structure KheapRegion (base : ℕ) : Prop where
  lo : 0 < base
  hi : base + kheapHeapSize < 4294967296

/-- The heap holds exactly the blocks `bs`: they are linked from `kheap_head`
    to `kheap_tail` and tile the heap region. -/
structure KheapInv (base : ℕ) (h : Kheap) (bs : List Blk) : Prop where
  region : KheapRegion base
  enabled : h.enabled = true
  base_eq : h.base = base
  head : h.head = base
  tail : h.tail = lastAddr bs 0
  linked : Linked h.mem 0 bs 0
  tiles : Tiles base bs (base + kheapHeapSize)

/-- The same for a region `[base, limit)` of any size. -/
structure HeapInv (base limit : ℕ) (h : Kheap) (bs : List Blk) : Prop where
  pos : 0 < base
  limit_lt : limit < 4294967296
  enabled : h.enabled = true
  base_eq : h.base = base
  head : h.head = base
  tail : h.tail = lastAddr bs 0
  linked : Linked h.mem 0 bs 0
  tiles : Tiles base bs limit

theorem KheapInv.heap {base : ℕ} {h : Kheap} {bs : List Blk} (hi : KheapInv base h bs) :
    HeapInv base (base + kheapHeapSize) h bs :=
  ⟨hi.region.lo, hi.region.hi, hi.enabled, hi.base_eq, hi.head, hi.tail, hi.linked, hi.tiles⟩

theorem HeapInv.kheap {base : ℕ} {h : Kheap} {bs : List Blk}
    (hi : HeapInv base (base + kheapHeapSize) h bs) : KheapInv base h bs :=
  ⟨⟨hi.pos, hi.limit_lt⟩, hi.enabled, hi.base_eq, hi.head, hi.tail, hi.linked, hi.tiles⟩

namespace HeapInv

variable {base limit : ℕ} {h : Kheap} {bs xs ys : List Blk} {b : Blk}

theorem mem_range (hi : HeapInv base limit h bs) (hb : b ∈ bs) :
    base ≤ b.addr ∧ b.addr + 20 + b.size ≤ limit := by
  have := hi.tiles.mem b hb
  exact ⟨this.1, this.2.2⟩

theorem bounds (hi : HeapInv base limit h bs) : 0 < base ∧ limit < 4294967296 :=
  ⟨hi.pos, hi.limit_lt⟩

/-- What the invariant says around one block. -/
theorem split (hi : HeapInv base limit h (xs ++ b :: ys)) :
    Linked h.mem 0 xs b.addr ∧ HeaderAt h.mem b (lastAddr xs 0) (headAddr ys 0) ∧
      Linked h.mem b.addr ys 0 ∧ Tiles base xs b.addr ∧ Tiles b.stop ys limit := by
  obtain ⟨h1, h2, h3⟩ := linked_append.1 hi.linked
  obtain ⟨e, t1, rfl, -, t3⟩ := Tiles.append_iff.1 hi.tiles
  exact ⟨h1, h2, h3, t1, t3⟩

end HeapInv

namespace KheapInv

variable {base : ℕ} {h : Kheap} {bs xs ys : List Blk} {b : Blk}

theorem mem_range (hi : KheapInv base h bs) (hb : b ∈ bs) :
    base ≤ b.addr ∧ b.addr + 20 + b.size ≤ base + kheapHeapSize := hi.heap.mem_range hb

theorem bounds (hi : KheapInv base h bs) : 0 < base ∧ base + 33554432 < 4294967296 :=
  hi.heap.bounds

theorem split (hi : KheapInv base h (xs ++ b :: ys)) :
    Linked h.mem 0 xs b.addr ∧ HeaderAt h.mem b (lastAddr xs 0) (headAddr ys 0) ∧
      Linked h.mem b.addr ys 0 ∧ Tiles base xs b.addr ∧ Tiles b.stop ys (base + kheapHeapSize) :=
  hi.heap.split

end KheapInv

theorem headAddr_of_tiles {zs : List Blk} {a c n : ℕ} (ht : Tiles a zs c) (hac : a < c) :
    headAddr zs n = a := by
  cases zs with
  | nil => exact absurd (Tiles.nil_iff.1 ht) (by omega)
  | cons z zs => exact ht.1

theorem headAddr_lt {ys : List Blk} {a e : ℕ} (ht : Tiles a ys e) (he : e < 4294967296) :
    headAddr ys 0 < 4294967296 := by
  cases ys with
  | nil => simp
  | cons y ys =>
    have := ht.1
    have := ht.le
    simp only [Piece.lo] at *
    simp only [headAddr_cons]
    omega

/-- Exchanging the blocks of one part of the heap for others that tile the same
    part. -/
theorem HeapInv.replace {base limit a c : ℕ} {h h' : Kheap} {xs ys : List Blk} (zs zs' : List Blk)
    (hi : HeapInv base limit h (xs ++ (zs ++ ys))) (ht : Tiles a zs c) (ht' : Tiles a zs' c)
    (hac : a < c) (he : h'.enabled = h.enabled) (hb : h'.base = h.base) (hh : h'.head = h.head)
    (htl : h'.tail = lastAddr ys (lastAddr zs' (lastAddr xs 0)))
    (hl : Linked h'.mem (lastAddr xs 0) zs' (headAddr ys 0))
    (hl' : Linked h'.mem (lastAddr zs' (lastAddr xs 0)) ys 0)
    (hout : ∀ x < a, h'.mem x = h.mem x) : HeapInv base limit h' (xs ++ (zs' ++ ys)) := by
  obtain ⟨b, t1, t2⟩ := Tiles.append_iff.1 hi.tiles
  obtain ⟨d, t2, t3⟩ := Tiles.append_iff.1 t2
  obtain rfl : b = a := by
    rw [← headAddr_of_tiles (n := 0) ht hac]
    cases zs with
    | nil => exact absurd (Tiles.nil_iff.1 ht) (by omega)
    | cons z zs => exact t2.1.symm
  obtain rfl : d = c := t2.end_eq ht
  obtain ⟨l1, -⟩ := linked_append.1 hi.linked
  rw [headAddr_append, headAddr_of_tiles ht hac] at l1
  refine ⟨hi.pos, hi.limit_lt, he.trans hi.enabled, hb.trans hi.base_eq, hh.trans hi.head, ?_, ?_, ?_⟩
  · rw [lastAddr_append, lastAddr_append]; exact htl
  · refine linked_append.2 ⟨?_, linked_append.2 ⟨hl, hl'⟩⟩
    rw [headAddr_append, headAddr_of_tiles ht' hac]
    refine l1.congr fun x hx => Mem.block_congr fun y _ hy => hout y ?_
    have := (t1.mem x hx).2.2
    simp only [Piece.hi, Blk.stop] at this
    omega
  · exact Tiles.append_iff.2 ⟨b, t1, Tiles.append_iff.2 ⟨d, ht', t3⟩⟩

/-! ## Relinking -/

/-- No block of `bs` has its header at `x`. -/
def NoHeader (bs : List Blk) (x : ℕ) : Prop := ∀ c ∈ bs, x < c.addr ∨ c.addr + 20 ≤ x

theorem noHeader_append {xs ys : List Blk} {x : ℕ} :
    NoHeader (xs ++ ys) x ↔ NoHeader xs x ∧ NoHeader ys x := by
  simp only [NoHeader, List.mem_append, or_imp, forall_and]

theorem noHeader_cons {b : Blk} {ys : List Blk} {x : ℕ} :
    NoHeader (b :: ys) x ↔ (x < b.addr ∨ b.addr + 20 ≤ x) ∧ NoHeader ys x := by
  simp only [NoHeader, List.mem_cons, forall_eq_or_imp]

theorem noHeader_of_lt {ys : List Blk} {a e x : ℕ} (ht : Tiles a ys e) (hx : x < a) :
    NoHeader ys x := fun c hc => by
  have := (ht.mem c hc).1
  exact Or.inl (by simp only [Piece.lo] at this; omega)

namespace Kheap

variable {h : Kheap} {n v p a e x : ℕ} {ys : List Blk}

@[simp] theorem relinkNext_enabled : (relinkNext h n v).enabled = h.enabled := by
  unfold relinkNext; split <;> rfl

@[simp] theorem relinkNext_base : (relinkNext h n v).base = h.base := by
  unfold relinkNext; split <;> rfl

@[simp] theorem relinkNext_head : (relinkNext h n v).head = h.head := by
  unfold relinkNext; split <;> rfl

/-- Relinking writes to the header of the next block only. -/
theorem relinkNext_out (hx : NoHeader ys x) :
    (relinkNext h (headAddr ys 0) v).mem x = h.mem x := by
  cases ys with
  | nil => rfl
  | cons y ys =>
    unfold relinkNext
    split
    · exact Mem.setPrev_out (hx y (by simp))
    · rfl

theorem relinkNext_linked (ht : Tiles a ys e) (ha : 0 < a) (hv : v < 4294967296)
    (hl : Linked h.mem p ys 0) : Linked (relinkNext h (headAddr ys 0) v).mem v ys 0 := by
  cases ys with
  | nil => trivial
  | cons y ys =>
    obtain ⟨hy, -, hys⟩ := ht
    have hy0 : y.addr ≠ 0 := by have : y.addr = a := hy; omega
    obtain ⟨h1, h2⟩ := hl
    simp only [relinkNext, headAddr_cons, hy0, ne_eq, not_false_eq_true, if_true]
    refine ⟨?_, h2.congr fun c hc => Mem.block_setPrev_ne ?_⟩
    · unfold HeaderAt at h1 ⊢
      rw [Mem.block_setPrev, h1, Nat.mod_eq_of_lt hv]
    · have := (hys.mem c hc).1
      simp only [Piece.lo, Piece.hi, Blk.stop] at this
      omega

theorem relinkNext_tail (ht : Tiles a ys e) (ha : 0 < a) (hl : h.tail = lastAddr ys p) :
    (relinkNext h (headAddr ys 0) v).tail = lastAddr ys v := by
  cases ys with
  | nil => rfl
  | cons y ys =>
    obtain ⟨hy, -, -⟩ := ht
    have hy0 : y.addr ≠ 0 := by have : y.addr = a := hy; omega
    simpa [relinkNext, hy0] using hl

/-- `h` with the header of a free block written at `r`, between the blocks at `p`
    and `n`, and `n` linked back to it. -/
def linkFree (h : Kheap) (r s p n : ℕ) : Kheap :=
  let m := ((h.mem.setFree r true).setMagic r kheapMagic).setSize r s
  relinkNext { h with mem := (m.setNext r n).setPrev r p } n r

section
variable {r s : ℕ}

theorem linkFree_out (hx : x < r ∨ r + 20 ≤ x) (hx' : NoHeader ys x) :
    (linkFree h r s p (headAddr ys 0)).mem x = h.mem x := by
  unfold linkFree
  rw [relinkNext_out hx']
  simp only
  rw [Mem.setPrev_out hx, Mem.setNext_out hx, Mem.setSize_out hx, Mem.setMagic_out hx,
    Mem.setFree_out hx]

theorem linkFree_block (ht : Tiles e ys a) (hre : r + 20 ≤ e) (ha : a < 4294967296) (hs : s < 4294967296)
    (hp : p < 4294967296) : (linkFree h r s p (headAddr ys 0)).mem.block r
      = ⟨kheapMagic, s, true, p, headAddr ys 0⟩ := by
  unfold linkFree
  rw [Mem.block_congr fun x _ _ => relinkNext_out (noHeader_of_lt ht (by omega))]
  simp only [Mem.block_setPrev, Mem.block_setNext, Mem.block_setSize, Mem.block_setMagic,
    Mem.block_setFree, KheapBlock.mk.injEq, true_and]
  exact ⟨rfl, Nat.mod_eq_of_lt hs, Nat.mod_eq_of_lt hp, Nat.mod_eq_of_lt (headAddr_lt ht ha)⟩

theorem linkFree_linked (s p : ℕ) {q : ℕ} (ht : Tiles e ys a) (hr : 0 < r) (hre : r + 20 ≤ e) (ha : a < 4294967296)
    (hl : Linked h.mem q ys 0) :
    Linked (linkFree h r s p (headAddr ys 0)).mem r ys 0 := by
  have := ht.le
  refine relinkNext_linked ht (by omega) (by omega) (hl.congr fun c hc => ?_)
  have := (ht.mem c hc).1
  simp only [Piece.lo] at this
  rw [Mem.block_setPrev_ne (by omega), Mem.block_setNext_ne (by omega),
    Mem.block_setSize_ne (by omega), Mem.block_setMagic_ne (by omega),
    Mem.block_setFree_ne (by omega)]

theorem linkFree_tail {q : ℕ} (ht : Tiles e ys a) (he : 0 < e) (hl : h.tail = lastAddr ys q) :
    (linkFree h r s p (headAddr ys 0)).tail = lastAddr ys r :=
  relinkNext_tail ht he hl

end

@[simp] theorem linkFree_enabled {r s : ℕ} : (linkFree h r s p n).enabled = h.enabled :=
  relinkNext_enabled

@[simp] theorem linkFree_base {r s : ℕ} : (linkFree h r s p n).base = h.base := relinkNext_base

@[simp] theorem linkFree_head {r s : ℕ} : (linkFree h r s p n).head = h.head := relinkNext_head

end Kheap

/-! ## Writes that keep the invariant -/

namespace HeapInv

variable {base limit r x : ℕ} {h : Kheap} {bs xs ys : List Blk} {b c : Blk} {f : Bool} {m : Mem}

/-- A byte of a payload is in no header. -/
theorem noHeader (hi : HeapInv base limit h bs) (hc : c ∈ bs) (h1 : c.data ≤ x) (h2 : x < c.stop) :
    NoHeader bs x := by
  intro d hd
  unfold Blk.data at h1
  rcases hi.tiles.apart hc hd with rfl | h | h
  · exact Or.inr h1
  · simp only [Piece.hi, Piece.lo] at h; exact Or.inl (by omega)
  · simp only [Piece.hi, Piece.lo, Blk.stop] at h; exact Or.inr (by omega)

/-- Memory may change wherever there is no header. -/
theorem congr (hi : HeapInv base limit h bs)
    (hm : ∀ x, ¬ NoHeader bs x → m x = h.mem x) : HeapInv base limit { h with mem := m } bs := by
  refine ⟨hi.pos, hi.limit_lt, hi.enabled, hi.base_eq, hi.head, hi.tail, ?_, hi.tiles⟩
  refine hi.linked.congr fun c hc => Mem.block_congr fun x h1 h2 => hm x fun hn => ?_
  rcases hn c hc with h | h <;> omega

/-- Setting the `free` flag of a block. -/
theorem setFree (hi : HeapInv base limit h (xs ++ b :: ys)) (f : Bool) :
    HeapInv base limit { h with mem := h.mem.setFree b.addr f } (xs ++ { b with free := f } :: ys) := by
  obtain ⟨-, hb, hl, -, ht⟩ := hi.split
  have hbt : Tiles b.addr [{ b with free := f }] b.stop :=
    ⟨rfl, by simp only [Piece.hi, Blk.stop]; omega, rfl⟩
  have hbt' : Tiles b.addr [b] b.stop := ⟨rfl, by simp only [Piece.hi, Blk.stop]; omega, rfl⟩
  refine hi.replace [b] [{ b with free := f }] hbt' hbt
    (by simp only [Blk.stop]; omega) rfl rfl rfl ?_ ⟨?_, trivial⟩ ?_ ?_
  · simpa using hi.tail
  · unfold HeaderAt at hb ⊢
    rw [Mem.block_setFree, hb]
    rfl
  · refine hl.congr fun c hc => Mem.block_setFree_ne ?_
    have := (ht.mem c hc).1
    simp only [Piece.lo, Blk.stop] at this
    omega
  · exact fun x hx => Mem.setFree_out (Or.inl hx)

/-- Cutting a block in two: the header of the second half is linked in at `r`,
    then the first half's header is brought up to date. -/
theorem cut (hi : HeapInv base limit h (xs ++ b :: ys)) (s₁ s₂ : ℕ) (hr : r = b.addr + 20 + s₁)
    (hs : r + 20 + s₂ = b.stop)
    (hm : ∀ x, x < b.addr ∨ b.addr + 20 ≤ x →
      m x = (Kheap.linkFree h r s₂ b.addr (headAddr ys 0)).mem x)
    (hb : HeaderAt m ⟨b.addr, s₁, f⟩ (lastAddr xs 0) r) :
    HeapInv base limit { Kheap.linkFree h r s₂ b.addr (headAddr ys 0) with mem := m }
        (xs ++ ([⟨b.addr, s₁, f⟩, ⟨r, s₂, true⟩] ++ ys)) ∧
      ∀ x, NoHeader ([⟨b.addr, s₁, f⟩, ⟨r, s₂, true⟩] ++ ys) x → m x = h.mem x := by
  obtain ⟨-, -, hl, -, ht⟩ := hi.split
  have hbd := hi.bounds
  have hrg := hi.mem_range (b := b) (by simp)
  have hstop : b.stop = b.addr + 20 + b.size := rfl
  have hle := ht.le
  have hsz := hi.limit_lt
  have hout : ∀ x, (x < b.addr ∨ b.addr + 20 ≤ x) → (x < r ∨ r + 20 ≤ x) →
      NoHeader ys x → m x = h.mem x := fun x h1 h2 h3 => by
    rw [hm x h1, Kheap.linkFree_out h2 h3]
  have hbt : Tiles b.addr [Blk.mk b.addr s₁ f, ⟨r, s₂, true⟩] b.stop := by
    refine ⟨rfl, ?_, ?_, ?_, ?_⟩ <;> simp only [Piece.lo, Piece.hi, Blk.stop, Tiles] <;> omega
  have hbt' : Tiles b.addr [b] b.stop := ⟨rfl, by simp only [Piece.hi, Blk.stop]; omega, rfl⟩
  constructor
  · refine hi.replace [b] _ hbt' hbt (by omega) ?_ ?_ ?_ ?_ ⟨hb, ?_, trivial⟩ ?_ ?_
    · exact Kheap.linkFree_enabled
    · exact Kheap.linkFree_base
    · exact Kheap.linkFree_head
    · exact Kheap.linkFree_tail ht (by omega) (by simpa using hi.tail)
    · show m.block r = _
      rw [Mem.block_congr fun x _ _ => hm x (by omega)]
      exact Kheap.linkFree_block ht (by omega) hsz (by omega) (by omega)
    · show Linked m r ys 0
      refine (Kheap.linkFree_linked s₂ b.addr ht (by omega) (by omega) hsz hl).congr fun c hc => ?_
      have := (ht.mem c hc).1
      simp only [Piece.lo] at this
      exact Mem.block_congr fun x _ _ => hm x (by omega)
    · exact fun x hx => hout x (by omega) (by omega) (noHeader_of_lt ht (by omega))
  · intro x hx
    simp only [List.cons_append, List.nil_append, noHeader_cons] at hx
    exact hout x hx.1 hx.2.1 hx.2.2

end HeapInv

end Ttos
