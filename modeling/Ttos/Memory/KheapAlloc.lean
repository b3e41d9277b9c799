/-
  What the allocation functions of the kernel heap do to the block list.

  `kmallocSplit_spec` and `kmallocPad_spec` give the two steps of `kmalloc_heap`
  on a chosen block, `kheapFindBestFit_eq` the block that is chosen, and
  `kmallocHeap_spec` puts them together: either no block fits and nothing
  changes, or one free block is carved (`Blk.carve`).
-/
import Ttos.Memory.KheapBlocks

namespace Ttos

namespace Blk

/-- Taking `size` bytes from the front of a block: what is left becomes a free
    block when it is more than a header. -/
def split (b : Blk) (size : ℕ) : List Blk :=
  if 20 < b.size - size then [⟨b.addr, size, false⟩, ⟨b.addr + size + 20, b.size - size - 20, true⟩]
  else [⟨b.addr, b.size, false⟩]

/-- The distance from the payload to the first page boundary that leaves room
    for another header. -/
def padding (b : Blk) : ℕ := (b.addr + 40 + 4095) / 4096 * 4096 - (b.addr + 20)

/-- The block moved up to the page boundary. -/
def padded (b : Blk) : Blk := ⟨b.addr + b.padding, b.size - b.padding, true⟩

/-- The padding block in front of it. -/
def padBlock (b : Blk) : Blk := ⟨b.addr, b.padding - 20, true⟩

/-- A block can serve a request. -/
def Fits (b : Blk) (size : ℕ) (align : Bool) : Prop :=
  b.free = true ∧ size ≤ b.size ∧ (align = true → b.data % 4096 = 0 ∨ size + b.padding ≤ b.size)

instance (b : Blk) (size : ℕ) (align : Bool) : Decidable (b.Fits size align) :=
  inferInstanceAs (Decidable (_ ∧ _ ∧ _))

/-- What an allocation makes of a free block. -/
def carve (b : Blk) (size : ℕ) (align : Bool) : List Blk :=
  if align = true ∧ b.data % 4096 ≠ 0 then b.padBlock :: b.padded.split size else b.split size

/-- The payload address an allocation from the block returns. -/
def carved (b : Blk) (align : Bool) : ℕ :=
  if align = true ∧ b.data % 4096 ≠ 0 then b.padded.data else b.data

theorem carve_padded {b : Blk} (size : ℕ) (h : b.data % 4096 ≠ 0) :
    b.carve size true = b.padBlock :: b.padded.split size := if_pos ⟨rfl, h⟩

theorem carve_split {b : Blk} {align : Bool} (size : ℕ) (h : ¬ (align = true ∧ b.data % 4096 ≠ 0)) :
    b.carve size align = b.split size := if_neg h

theorem padding_ge (b : Blk) : 20 ≤ b.padding := by
  unfold padding; omega

theorem padded_data_mod (b : Blk) : b.padded.data % 4096 = 0 := by
  simp only [padded, data, padding]; omega

theorem tiles_split {b : Blk} {size : ℕ} (hs : size ≤ b.size) :
    Tiles b.addr (b.split size) b.stop := by
  unfold split
  split
  · refine ⟨rfl, ?_, ?_, ?_, ?_⟩ <;> simp only [Piece.lo, Piece.hi, stop, Tiles] <;> omega
  · refine ⟨rfl, ?_, ?_⟩ <;> simp only [Piece.hi, stop, Tiles]; omega

theorem split_head (b : Blk) (size : ℕ) : ∃ c ∈ b.split size, c.addr = b.addr := by
  unfold split
  split
  · exact ⟨_, List.mem_cons_self .., rfl⟩
  · exact ⟨_, List.mem_cons_self .., rfl⟩

end Blk

namespace Kheap

variable {base limit size : ℕ} {h : Kheap} {xs ys : List Blk} {b : Blk}

/-! ## Splitting the chosen block -/

theorem kmallocSplit_spec (hi : HeapInv base limit h (xs ++ b :: ys)) (hs : size ≤ b.size) :
    (kmallocSplit h b.addr size).1 = b.data ∧
      HeapInv base limit (kmallocSplit h b.addr size).2 (xs ++ (b.split size ++ ys)) ∧
      ∀ x, NoHeader (b.split size ++ ys) x → (kmallocSplit h b.addr size).2.mem x = h.mem x := by
  obtain ⟨-, hb, -, -, ht⟩ := hi.split
  have hbd := hi.bounds
  have hrg := hi.mem_range (b := b) (by simp)
  have hstop : b.stop = b.addr + 20 + b.size := rfl
  have hrem : sub32 (h.mem.block b.addr).size size = b.size - size := by
    rw [hb]
    show sub32 b.size size = _
    exact sub32_of_le hs (by omega)
  have hdata : u32 (b.addr + 20) = b.data := u32_of_lt (by omega)
  have hi0 := hi.setFree false
  unfold kmallocSplit Blk.split
  simp only [hrem, hdata]
  by_cases hlt : 20 < b.size - size
  · have hr : u32 (b.addr + 20 + size) = b.addr + 20 + size := u32_of_lt (by omega)
    have hr' : sub32 (b.size - size) 20 = b.size - size - 20 := sub32_of_le (by omega) (by omega)
    have hr2 : b.addr + size + 20 = b.addr + 20 + size := by omega
    simp only [if_pos hlt, hr2, hr, hr']
    set r := b.addr + 20 + size with hrdef
    -- the block's own header stays as it is while `r` is linked in
    have hnext : ((((h.mem.setFree b.addr false).setFree r true).setMagic r kheapMagic).setSize r
        (b.size - size - 20)).block b.addr = ⟨kheapMagic, b.size, false, lastAddr xs 0, headAddr ys 0⟩ := by
      rw [Mem.block_setSize_ne (by omega), Mem.block_setMagic_ne (by omega),
        Mem.block_setFree_ne (by omega), Mem.block_setFree, hb]
    rw [Mem.block_setPrev_ne (by omega), Mem.block_setNext_ne (by omega), hnext]
    have hcut := hi0.cut (f := false) (m := ((linkFree { h with mem := h.mem.setFree b.addr false } r (b.size - size - 20) b.addr
        (headAddr ys 0)).mem.setSize b.addr size).setNext b.addr r) size (b.size - size - 20) rfl
      (by simp only [Blk.stop]; omega)
      (fun x hx => by rw [Mem.setNext_out hx, Mem.setSize_out hx]) ?_
    · exact ⟨trivial, hcut.1, fun x hx => by
        have : x < b.addr ∨ b.addr + 20 ≤ x := hx ⟨b.addr, size, false⟩ (by simp)
        exact (hcut.2 x hx).trans (Mem.setFree_out this)⟩
    · show Mem.block _ b.addr = _
      rw [Mem.block_setNext, Mem.block_setSize, Mem.block_congr fun x _ _ => linkFree_out
        (by omega) (noHeader_of_lt ht (by omega)), Mem.block_setFree, hb]
      simp only [KheapBlock.mk.injEq, true_and]
      exact ⟨Nat.mod_eq_of_lt (by omega), Nat.mod_eq_of_lt (by omega)⟩
  · simp only [if_neg hlt]
    exact ⟨trivial, hi0, fun x hx => Mem.setFree_out (hx ⟨b.addr, b.size, false⟩ (by simp))⟩

/-! ## Padding -/

/-- The padding as the code computes it.  At the end of the address space both
    subtractions wrap, and the padding is larger than any block. -/
theorem padding_eq (hi : HeapInv base limit h (xs ++ b :: ys)) :
    sub32 (vmmAlignUp (u32 (b.addr + 40))) (u32 (b.addr + 20)) = b.padding := by
  have hbd := hi.bounds
  have hrg := hi.mem_range (b := b) (by simp)
  unfold sub32 vmmAlignUp u32 Blk.padding
  omega

theorem kheapFits_iff (hi : HeapInv base limit h (xs ++ b :: ys)) {align : Bool}
    (ha : align = true → limit ≤ base + kheapHeapSize) :
    kheapFits h.mem size align b.addr = true ↔ b.Fits size align := by
  obtain ⟨-, hb, -, -, -⟩ := hi.split
  have hbd := hi.bounds
  have hrg := hi.mem_range (b := b) (by simp)
  have hdata : u32 (b.addr + 20) = b.data := u32_of_lt (by omega)
  have hpad : b.padding < 8192 := by unfold Blk.padding; omega
  unfold kheapFits Blk.Fits
  rw [hb]
  simp only [padding_eq hi]
  rw [hdata]
  by_cases hf : b.free = true <;> by_cases hs : size ≤ b.size <;> cases align <;>
    simp only [hf, hs, Bool.and_true, Bool.and_false, decide_true, decide_false, if_true,
      Bool.false_eq_true, if_false, true_and, false_and, false_imp_iff, forall_const, and_false]
  have ha := ha rfl
  simp only [kheapHeapSize] at ha
  have hu : u32 (size + b.padding) = size + b.padding := u32_of_lt (by omega)
  by_cases ha : b.data % 4096 = 0
  · simp [vmmIsAligned, ha]
  · simp [vmmIsAligned, ha, hu]

theorem kmallocPad_spec (hi : KheapInv base h (xs ++ b :: ys)) {align : Bool}
    (hf : b.Fits size align) (ha : ¬ (align = true ∧ b.data % 4096 ≠ 0)) :
    kmallocPad h b.addr size align = some (b.addr, h) := by
  have hbd := hi.bounds
  have hrg := hi.mem_range (b := b) (by simp)
  simp only [kheapHeapSize] at hrg
  have hdata : u32 (b.addr + 20) = b.data := u32_of_lt (by omega)
  unfold kmallocPad
  cases align with
  | false => rfl
  | true =>
    have ha : b.data % 4096 = 0 := by simpa using ha
    simp [hdata, vmmIsAligned, ha]

theorem kmallocPad_spec' (hi : KheapInv base h (xs ++ b :: ys)) (hf : b.Fits size true)
    (ha : b.data % 4096 ≠ 0) :
    ∃ h', kmallocPad h b.addr size true = some (b.padded.addr, h') ∧
      KheapInv base h' (xs ++ ([b.padBlock, b.padded] ++ ys)) ∧
      ∀ x, NoHeader ([b.padBlock, b.padded] ++ ys) x → h'.mem x = h.mem x := by
  obtain ⟨-, hb, -, -, ht⟩ := hi.split
  obtain ⟨hfree, hs, hfit⟩ := hf
  have hfit := (hfit rfl).resolve_left ha
  have hbd := hi.bounds
  have hrg := hi.mem_range (b := b) (by simp)
  simp only [kheapHeapSize] at hrg
  have hdata : u32 (b.addr + 20) = b.data := u32_of_lt (by omega)
  have hge := b.padding_ge
  have hpad := padding_eq hi.heap
  rw [hdata] at hpad
  -- the block is large enough, so the page boundary does not wrap
  have hal : vmmAlignUp (u32 (b.addr + 40)) = b.padded.data := by
    unfold vmmAlignUp u32 Blk.padded Blk.data
    unfold Blk.padding at hfit ⊢
    dsimp only
    omega
  have hu : u32 (size + b.padding) = size + b.padding := u32_of_lt (by omega)
  have hnew : sub32 b.padded.data 20 = b.addr + b.padding := by
    rw [sub32_of_le (by simp [Blk.data]) (by simp only [Blk.padded, Blk.data]; omega)]
    simp [Blk.padded, Blk.data]
  have hsub : sub32 b.size b.padding = b.size - b.padding := sub32_of_le (by omega) (by omega)
  have hsub' : sub32 b.padding 20 = b.padding - 20 := sub32_of_le hge (by omega)
  unfold kmallocPad
  rw [hal] at hpad ⊢
  rw [hb]
  simp only [hdata, vmmIsAligned, ha, hpad, hu, hfit, hnew, beq_iff_eq, if_true, if_false]
  set r := b.addr + b.padding with hr
  have hbk : ((h.mem.setFree r true).setMagic r kheapMagic).block b.addr
      = ⟨kheapMagic, b.size, b.free, lastAddr xs 0, headAddr ys 0⟩ := by
    rw [Mem.block_setMagic_ne (by omega), Mem.block_setFree_ne (by omega), hb]
  have hnext : (((h.mem.setFree r true).setMagic r kheapMagic).setSize r (b.size - b.padding)).block
      b.addr = ⟨kheapMagic, b.size, b.free, lastAddr xs 0, headAddr ys 0⟩ := by
    rw [Mem.block_setSize_ne (by omega), hbk]
  rw [hbk]
  simp only [hsub]
  rw [Mem.block_setPrev_ne (by omega), Mem.block_setNext_ne (by omega), hnext]
  refine ⟨_, rfl, ?_⟩
  have hcut := hi.heap.cut (r := r) (f := true) (m := (((linkFree h r (b.size - b.padding) b.addr (headAddr ys 0)).mem.setFree b.addr true).setSize
      b.addr (b.padding - 20)).setNext b.addr r) (b.padding - 20) (b.size - b.padding) (by omega) (by simp only [Blk.stop]; omega)
    (fun x hx => by rw [Mem.setNext_out hx, Mem.setSize_out hx, Mem.setFree_out hx]) ?_
  · rw [hsub']
    exact ⟨hcut.1.kheap, hcut.2⟩
  · show Mem.block _ b.addr = _
    rw [Mem.block_setNext, Mem.block_setSize, Mem.block_setFree,
      Mem.block_congr fun x _ _ => linkFree_out (by omega) (noHeader_of_lt ht (by
        simp only [Blk.stop]; omega)), hb]
    simp only [KheapBlock.mk.injEq, true_and]
    exact ⟨Nat.mod_eq_of_lt (by omega), Nat.mod_eq_of_lt (by omega)⟩

/-! ## The chosen block -/

/-- The better of `best` and `b`: `b` when it fits and is smaller. -/
def better (size : ℕ) (align : Bool) (best : Option Blk) (b : Blk) : Option Blk :=
  if b.Fits size align then
    match best with
    | none => some b
    | some c => if b.size < c.size then some b else some c
  else best

/-- The smallest block of `bs` that fits, the first of several. -/
def bestFit (size : ℕ) (align : Bool) (bs : List Blk) : Option Blk :=
  bs.foldl (better size align) none

/-- The address of a block, `0` for none. -/
def addrOf (b : Option Blk) : ℕ := b.elim 0 Blk.addr

section
variable {align : Bool} {best : Option Blk} {c : Blk}

theorem better_mem (h : c ∈ better size align best b) :
    c ∈ best ∨ (c = b ∧ b.Fits size align) := by
  unfold better at h
  split at h
  next hf =>
    cases best with
    | none => exact Or.inr ⟨(Option.some.inj h).symm, hf⟩
    | some d =>
      simp only at h
      split at h
      · exact Or.inr ⟨(Option.some.inj h).symm, hf⟩
      · exact Or.inl h
  next => exact Or.inl h

theorem better_none (h : better size align best b = none) : best = none ∧ ¬ b.Fits size align := by
  unfold better at h
  split at h
  next => cases best <;> simp only at h <;> [cases h; (split at h <;> cases h)]
  next hf => exact ⟨h, hf⟩

theorem foldl_better_mem : ∀ {ys : List Blk} {best : Option Blk},
    c ∈ ys.foldl (better size align) best → c ∈ best ∨ (c ∈ ys ∧ c.Fits size align)
  | [], _, h => Or.inl h
  | y :: ys, best, h => by
    rcases foldl_better_mem (show c ∈ ys.foldl (better size align) _ from h) with h | ⟨hm, hf⟩
    · rcases better_mem h with h | ⟨rfl, hf⟩
      · exact Or.inl h
      · exact Or.inr ⟨by simp, hf⟩
    · exact Or.inr ⟨List.mem_cons_of_mem _ hm, hf⟩

theorem foldl_better_none : ∀ {ys : List Blk} {best : Option Blk},
    ys.foldl (better size align) best = none → best = none ∧ ∀ b ∈ ys, ¬ b.Fits size align
  | [], _, h => ⟨h, by simp⟩
  | y :: ys, best, h => by
    obtain ⟨h1, h2⟩ := foldl_better_none (show ys.foldl (better size align) _ = none from h)
    obtain ⟨h1, hy⟩ := better_none h1
    refine ⟨h1, fun b hb => ?_⟩
    rcases List.mem_cons.1 hb with rfl | hb
    · exact hy
    · exact h2 b hb

/-- One round of the loop, on a block of the heap. -/
theorem kheapFindBestFit_step (hi : HeapInv base limit h (xs ++ b :: ys))
    (ha : align = true → limit ≤ base + kheapHeapSize) (hbest : ∀ c ∈ best, c ∈ xs) :
    (if kheapFits h.mem size align b.addr = true then
        if addrOf best = 0 ∨ (h.mem.block b.addr).size < (h.mem.block (addrOf best)).size then b.addr
        else addrOf best
      else addrOf best) = addrOf (better size align best b) := by
  have hbd := hi.bounds
  unfold better
  by_cases hf : b.Fits size align
  · rw [if_pos ((kheapFits_iff hi ha).2 hf), if_pos hf]
    cases best with
    | none => simp [addrOf]
    | some c =>
      have hmem : c ∈ xs ++ b :: ys := by simp [hbest c rfl]
      have h0 : c.addr ≠ 0 := by have := (hi.mem_range hmem).1; omega
      simp only [addrOf, Option.elim, h0, (hi.linked.magic c hmem).2.1,
        (hi.linked.magic b (by simp)).2.1, false_or]
      split <;> rfl
  · rw [if_neg (fun h => hf ((kheapFits_iff hi ha).1 h)), if_neg hf]

/-- The loop over the blocks `ys` takes the best of them. -/
theorem kheapFindBestFitFrom_eq (ha : align = true → limit ≤ base + kheapHeapSize) :
    ∀ {ys xs : List Blk} {best : Option Blk} {fuel : ℕ}, HeapInv base limit h (xs ++ ys) →
      (∀ c ∈ best, c ∈ xs) → ys.length < fuel →
    kheapFindBestFitFrom h.mem size align fuel (headAddr ys 0) (addrOf best)
      = some (addrOf (ys.foldl (better size align) best))
  | [], _, _, fuel + 1, _, _, _ => by simp [kheapFindBestFitFrom]
  | y :: ys, xs, best, fuel + 1, hi, hbest, hlen => by
    have hbd := hi.bounds
    have hne : y.addr ≠ 0 := by have := (hi.mem_range (b := y) (by simp)).1; omega
    have hnext : (h.mem.block y.addr).next = headAddr ys 0 := by rw [hi.split.2.1]
    have hcons : xs ++ y :: ys = (xs ++ [y]) ++ ys := by simp
    show kheapFindBestFitFrom h.mem size align (fuel + 1) y.addr _ = _
    unfold kheapFindBestFitFrom
    simp only [hne, if_false, hnext, List.foldl_cons]
    rw [kheapFindBestFit_step hi ha hbest]
    refine kheapFindBestFitFrom_eq ha (hcons ▸ hi) (fun c hc => ?_) (by simpa using hlen)
    rw [List.mem_append, List.mem_singleton]
    rcases better_mem hc with h | ⟨h, -⟩
    · exact Or.inl (hbest c h)
    · exact Or.inr h

end

theorem length_le (hi : HeapInv base limit h xs) : base + 20 * xs.length ≤ limit := by
  have hlen : ∀ {bs : List Blk} {a e : ℕ}, Tiles a bs e → a + 20 * bs.length ≤ e := by
    intro bs
    induction bs with
    | nil => rintro a e h; exact (Tiles.nil_iff.1 h).le
    | cons b bs ih =>
      rintro a e ⟨rfl, -, h⟩
      have := ih h
      simp only [Piece.lo, Piece.hi, Blk.stop, List.length_cons] at this ⊢
      omega
  exact hlen hi.tiles

theorem length_lt_fuel (hi : KheapInv base h xs) : xs.length < kheapFuel := by
  have := length_le hi.heap
  unfold kheapFuel
  simp only [kheapHeapSize] at this ⊢
  omega

theorem kheapFindBestFit_eq (hi : KheapInv base h xs) {align : Bool} :
    kheapFindBestFit h size align = some (addrOf (bestFit size align xs)) := by
  have hh : h.head = headAddr xs 0 := by
    have := hi.bounds
    rw [hi.head, headAddr_of_tiles hi.tiles (by simp)]
  unfold kheapFindBestFit
  rw [hh]
  show kheapFindBestFitFrom h.mem size align kheapFuel (headAddr xs 0) (addrOf none) = _
  have hi' : HeapInv base (base + kheapHeapSize) h ([] ++ xs) := hi.heap
  exact kheapFindBestFitFrom_eq (fun _ => le_rfl) hi' (by simp) (length_lt_fuel hi)

/-! ## kmalloc -/

/-- `kmalloc_heap` after the search. -/
theorem kmallocHeap_eq (hi : KheapInv base h xs) (h0 : size ≠ 0) (align : Bool) :
    kmallocHeap h size align = match bestFit size align xs with
      | none => some (0, h)
      | some b => match kmallocPad h b.addr size align with
        | none => some (0, h)
        | some (a, h) => some (kmallocSplit h a size) := by
  unfold kmallocHeap
  rw [if_neg h0, kheapFindBestFit_eq hi]
  cases hb : bestFit size align xs with
  | none => rfl
  | some b =>
    obtain ⟨hmem, -⟩ : b ∈ xs ∧ b.Fits size align := by simpa using foldl_better_mem hb
    have hb0 : b.addr ≠ 0 := by
      have := (hi.mem_range hmem).1
      have := hi.bounds
      omega
    exact if_neg hb0

/-- The chosen block is carved, and only headers change. -/
theorem kmallocHeap_carve (ls : List Blk) (b : Blk) (rs : List Blk) (size : ℕ) (align : Bool)
    (hi : KheapInv base h (ls ++ b :: rs)) (h0 : size ≠ 0) (hb : bestFit size align (ls ++ b :: rs) = some b) :
    ∃ h', kmallocHeap h size align = some (b.carved align, h') ∧
      KheapInv base h' (ls ++ (b.carve size align ++ rs)) ∧
      ∀ x, NoHeader (b.carve size align ++ rs) x → h'.mem x = h.mem x := by
  have hf : b.Fits size align := by
    obtain ⟨-, hf⟩ : b ∈ ls ++ b :: rs ∧ b.Fits size align := by simpa using foldl_better_mem hb
    exact hf
  rw [kmallocHeap_eq hi h0, hb]
  by_cases ha : align = true ∧ b.data % 4096 ≠ 0
  · obtain ⟨rfl, ha⟩ := ha
    obtain ⟨h', hp, hi', hout⟩ := kmallocPad_spec' hi hf ha
    have hs : size ≤ b.padded.size := by
      have := (hf.2.2 rfl).resolve_left ha
      simp only [Blk.padded]
      omega
    have hsplit : ls ++ ([b.padBlock, b.padded] ++ rs) = (ls ++ [b.padBlock]) ++ b.padded :: rs := by
      simp
    obtain ⟨h1, h2, h3⟩ := kmallocSplit_spec (hsplit ▸ hi').heap hs
    refine ⟨(kmallocSplit h' b.padded.addr size).2, ?_, ?_, ?_⟩
    · rw [Blk.carved, if_pos ⟨rfl, ha⟩, ← h1]
      simp only [hp]
    · rw [Blk.carve_padded size ha, List.cons_append, List.append_cons]
      exact h2.kheap
    · intro x hx
      rw [Blk.carve_padded size ha, List.cons_append, noHeader_cons] at hx
      rw [h3 x hx.2]
      refine hout x ?_
      have hhead : x < b.padded.addr ∨ b.padded.addr + 20 ≤ x := by
        obtain ⟨c, hc, hca⟩ := b.padded.split_head size
        exact hca ▸ (noHeader_append.1 hx.2).1 c hc
      exact noHeader_cons.2 ⟨hx.1, noHeader_cons.2 ⟨hhead, (noHeader_append.1 hx.2).2⟩⟩
  · obtain ⟨h1, h2, h3⟩ := kmallocSplit_spec hi.heap hf.2.1
    refine ⟨(kmallocSplit h b.addr size).2, ?_, ?_, ?_⟩
    · rw [Blk.carved, if_neg ha, ← h1]
      simp only [kmallocPad_spec hi hf ha]
    · rw [Blk.carve_split size ha]; exact h2.kheap
    · rw [Blk.carve_split size ha]; exact h3

/-- **An allocation fails and changes nothing when no block fits, and otherwise
    carves one that does.** -/
theorem kmallocHeap_spec (hi : KheapInv base h xs) (size : ℕ) (align : Bool) :
    (kmallocHeap h size align = some (0, h) ∧ (size = 0 ∨ ∀ b ∈ xs, ¬ b.Fits size align)) ∨
    ∃ ls b rs h', xs = ls ++ b :: rs ∧ 0 < size ∧ b.Fits size align ∧
      kmallocHeap h size align = some (b.carved align, h') ∧
      KheapInv base h' (ls ++ (b.carve size align ++ rs)) ∧
      ∀ x, NoHeader (b.carve size align ++ rs) x → h'.mem x = h.mem x := by
  by_cases h0 : size = 0
  · exact Or.inl ⟨by simp [kmallocHeap, h0], Or.inl h0⟩
  cases hb : bestFit size align xs with
  | none =>
    rw [kmallocHeap_eq hi h0, hb]
    exact Or.inl ⟨rfl, Or.inr (foldl_better_none hb).2⟩
  | some b =>
    obtain ⟨hmem, hf⟩ : b ∈ xs ∧ b.Fits size align := by simpa using foldl_better_mem hb
    obtain ⟨ls, rs, rfl⟩ := List.append_of_mem hmem
    obtain ⟨h', h1, h2, h3⟩ := kmallocHeap_carve ls b rs size align hi h0 hb
    exact Or.inr ⟨ls, b, rs, h', rfl, by omega, hf, h1, h2, h3⟩

end Kheap

end Ttos
