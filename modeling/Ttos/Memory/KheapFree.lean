/-
  What freeing does to the block list.

  `HeapInv.join` is the one step behind both merges of `kfree`: a block takes
  in the block behind it.  `kfree_spec` says that freeing a block removes it
  from the allocated blocks, keeps the list coalesced, and writes only to
  headers and to free payloads.
-/
import Ttos.Memory.KheapAlloc

namespace Ttos

open Piece

/-- `p` with the block `b` behind it taken in. -/
def Blk.absorb (p b : Blk) : Blk := ⟨p.addr, p.size + 20 + b.size, p.free⟩

namespace HeapInv

variable {base limit : ℕ} {h : Kheap} {xs ys : List Blk} {p b : Blk}

/-- A block takes in the one behind it: its header is updated, the block after
    next is linked back to it, and its payload is cleared. -/
theorem join (hi : HeapInv base limit h (xs ++ p :: b :: ys)) {s : ℕ} (hs : s = p.size + 20 + b.size)
    {h₁ : Kheap} (hh : h₁ = Kheap.relinkNext
      { h with mem := (h.mem.setSize p.addr s).setNext p.addr (headAddr ys 0) } (headAddr ys 0) p.addr) :
    HeapInv base limit { h₁ with mem := h₁.mem.fill p.data 0 s } (xs ++ p.absorb b :: ys) ∧
      (h₁.mem.block p.addr).size = s ∧
      ∀ x, NoHeader (xs ++ p :: b :: ys) x → x < (p.absorb b).data ∨ (p.absorb b).stop ≤ x →
        h₁.mem.fill p.data 0 s x = h.mem x := by
  obtain ⟨-, hp, hl, -, ht⟩ := hi.split
  obtain ⟨-, hl⟩ := hl
  obtain ⟨hpb, -, ht⟩ := ht
  have hbd := hi.bounds
  have hrgp := hi.mem_range (b := p) (by simp)
  have hrgb := hi.mem_range (b := b) (by simp)
  have hbst : b.stop = b.addr + 20 + b.size := rfl
  have hpst : b.addr = p.addr + 20 + p.size := hpb
  have hle := ht.le
  have hsz := hi.limit_lt
  simp only [Piece.hi] at hle
  have ht : Tiles b.stop ys limit := ht
  set m := (h.mem.setSize p.addr s).setNext p.addr (headAddr ys 0) with hm
  have hm_out : ∀ x, x < p.addr ∨ p.addr + 20 ≤ x → m x = h.mem x := fun x hx => by
    rw [hm, Mem.setNext_out hx, Mem.setSize_out hx]
  have hout₁ : ∀ x, NoHeader ys x → h₁.mem x = m x := fun x hx => by
    rw [hh, Kheap.relinkNext_out hx]
  have hhead : m.block p.addr = ⟨kheapMagic, s, p.free, lastAddr xs 0, headAddr ys 0⟩ := by
    rw [hm, Mem.block_setNext, Mem.block_setSize, hp]
    simp only [KheapBlock.mk.injEq, true_and]
    exact ⟨Nat.mod_eq_of_lt (by omega), Nat.mod_eq_of_lt (headAddr_lt ht hsz)⟩
  have hhead₁ : h₁.mem.block p.addr = ⟨kheapMagic, s, p.free, lastAddr xs 0, headAddr ys 0⟩ := by
    rw [Mem.block_congr fun x _ _ => hout₁ x (noHeader_of_lt ht (by omega)), hhead]
  have hl₁ : Linked h₁.mem p.addr ys 0 := by
    rw [hh]
    refine Kheap.relinkNext_linked ht (by omega) (by omega) (hl.congr fun c hc => ?_)
    have := (ht.mem c hc).1
    simp only [Piece.lo] at this
    exact Mem.block_congr fun x _ _ => hm_out x (by omega)
  have hfill : ∀ x, x < p.addr + 20 ∨ b.stop ≤ x → h₁.mem.fill p.data 0 s x = h₁.mem x :=
    fun x hx => Mem.fill_out (by simp only [Blk.data]; omega)
  have habs : (p.absorb b).stop = b.stop := by simp only [Blk.absorb, Blk.stop]; omega
  refine ⟨?_, by rw [hhead₁], fun x hx hx' => ?_⟩
  · have hzs : Tiles p.addr [p, b] b.stop :=
      ⟨rfl, by simp only [Piece.hi, Blk.stop]; omega, hpst, by simp only [Piece.hi, Blk.stop]; omega, rfl⟩
    have hzs' : Tiles p.addr [p.absorb b] b.stop :=
      ⟨rfl, by simp only [Piece.hi, habs]; omega, by simp only [Piece.hi, habs, Tiles]⟩
    refine hi.replace [p, b] [p.absorb b] hzs hzs' (by omega) ?_ ?_ ?_ ?_ ⟨?_, trivial⟩ ?_ ?_
    · rw [hh]; exact Kheap.relinkNext_enabled
    · rw [hh]; exact Kheap.relinkNext_base
    · rw [hh]; exact Kheap.relinkNext_head
    · show h₁.tail = _
      rw [hh]
      exact Kheap.relinkNext_tail (p := b.addr) ht (by omega) (by simpa using hi.tail)
    · show Mem.block _ p.addr = _
      rw [Mem.block_congr fun x _ _ => hfill x (by omega), hhead₁, hs]
      rfl
    · refine hl₁.congr fun c hc => Mem.block_congr fun x _ _ => hfill x ?_
      have := (ht.mem c hc).1
      simp only [Piece.lo] at this
      omega
    · intro x hx
      show h₁.mem.fill p.data 0 s x = h.mem x
      rw [hfill x (by omega), hout₁ x (noHeader_of_lt ht (by omega)), hm_out x (by omega)]
  · obtain ⟨-, hx⟩ := noHeader_append.1 hx
    obtain ⟨hxp, hx⟩ := noHeader_cons.1 hx
    obtain ⟨-, hxy⟩ := noHeader_cons.1 hx
    rw [habs] at hx'
    rw [hfill x (by simpa only [Blk.data, Blk.absorb] using hx'), hout₁ x hxy, hm_out x hxp]

end HeapInv

namespace Kheap

variable {base limit : ℕ} {h : Kheap} {xs ys : List Blk} {b : Blk}

/-- Merging backwards: the block before `b` takes it in when it is free, and its
    payload, with the header of `b` in it, is cleared. -/
theorem kfreeMergePrev_spec (hi : HeapInv base limit h (xs ++ b :: ys)) :
    ∃ xs' b', (kfreeMergePrev h b.addr).1 = b'.addr ∧
      HeapInv base limit (kfreeMergePrev h b.addr).2 (xs' ++ b' :: ys) ∧
      ((xs' = xs ∧ b' = b ∧ ∀ p ∈ xs.getLast?, p.free = false) ∨
        ∃ p, xs = xs' ++ [p] ∧ p.free = true ∧ b' = p.absorb b ∧
          ∀ x, p.data ≤ x → x < b.stop → (kfreeMergePrev h b.addr).2.mem x = 0) ∧
      ∀ x, NoHeader (xs ++ b :: ys) x → x < b'.data ∨ b'.stop ≤ x →
        (kfreeMergePrev h b.addr).2.mem x = h.mem x := by
  obtain ⟨-, hb, -, -, -⟩ := hi.split
  have hbd := hi.bounds
  unfold kfreeMergePrev
  rw [hb]
  rcases List.eq_nil_or_concat' xs with rfl | ⟨xs', p, rfl⟩
  · exact ⟨[], b, by simp, by simpa using hi, Or.inl (by simp), by simp⟩
  have hp := hi.linked.magic p (by simp)
  have hrg := hi.mem_range (b := p) (by simp)
  have hrgb := hi.mem_range (b := b) (by simp)
  have hp0 : p.addr ≠ 0 := by omega
  simp only [lastAddr_append, lastAddr_cons, lastAddr_nil, hp.1, hp.2, hp0, ne_eq, not_false_eq_true,
    true_and]
  by_cases hf : p.free = true
  · have hi' : HeapInv base limit h (xs' ++ p :: b :: ys) := by simpa using hi
    have hpb : p.addr + 20 + p.size = b.addr := by
      obtain ⟨-, -, -, -, ht⟩ := hi'.split
      exact ht.1.symm
    have hs : u32 (p.size + b.size + 20) = p.size + 20 + b.size := by
      rw [u32_of_lt (by omega)]
      omega
    have hd : u32 (p.addr + 20) = p.data := u32_of_lt (by omega)
    have hbk : (h.mem.setSize p.addr (p.size + 20 + b.size)).block b.addr
        = ⟨kheapMagic, b.size, b.free, p.addr, headAddr ys 0⟩ := by
      rw [Mem.block_setSize_ne (by omega), hb]
      simp
    rw [if_pos hf]
    simp only [hs, hd, hbk]
    rw [Mem.block_setNext_ne (by omega), hbk]
    obtain ⟨h1, h2, h3⟩ := hi'.join rfl rfl
    have hcl : ∀ x, p.data ≤ x → x < b.stop → x < p.data + (p.size + 20 + b.size) := fun x _ hx => by
      simp only [Blk.data, Blk.stop] at hx ⊢
      omega
    refine ⟨xs', p.absorb b, rfl, ?_, Or.inr ⟨p, by simp, hf, rfl, fun x hx hx' => ?_⟩,
      fun x hx hx' => ?_⟩
    · rw [h2]; exact h1
    · rw [h2]; exact Mem.fill_in hx (hcl x hx hx')
    · rw [h2]; exact h3 x (by simpa using hx) hx'
  · rw [if_neg hf]
    refine ⟨xs' ++ [p], b, rfl, by simpa using hi, Or.inl ⟨by simp, rfl, ?_⟩, fun x _ _ => rfl⟩
    simpa using hf

/-- Merging forwards: `b` takes in the block behind it when that is free. -/
theorem kfreeMergeNext_spec (hi : HeapInv base limit h (xs ++ b :: ys)) :
    ∃ b' ys', HeapInv base limit (kfreeMergeNext h b.addr) (xs ++ b' :: ys') ∧
      ((b' = b ∧ ys' = ys ∧ ∀ n ∈ ys.head?, n.free = false) ∨
        ∃ n, ys = n :: ys' ∧ n.free = true ∧ b' = b.absorb n) ∧
      (∀ x, NoHeader (xs ++ b :: ys) x → x < b'.data ∨ b'.stop ≤ x →
        (kfreeMergeNext h b.addr).mem x = h.mem x) ∧
      ((∀ x, b.data ≤ x → x < b.stop → h.mem x = 0) →
        ∀ x, b.data ≤ x → x < b.stop → (kfreeMergeNext h b.addr).mem x = 0) ∧
      (kfreeMergeNext h b.addr).mem (b.addr + 8) = h.mem (b.addr + 8) := by
  obtain ⟨-, hb, hl, -, ht⟩ := hi.split
  have hbd := hi.bounds
  unfold kfreeMergeNext
  rw [hb]
  cases ys with
  | nil => exact ⟨b, [], by simp [hi]⟩
  | cons n ys =>
    have hn := hi.linked.magic n (by simp)
    have hrg := hi.mem_range (b := n) (by simp)
    have hrgb := hi.mem_range (b := b) (by simp)
    have hn0 : n.addr ≠ 0 := by omega
    simp only [headAddr_cons, hn.1, hn.2, hn0, ne_eq, not_false_eq_true, true_and]
    by_cases hf : n.free = true
    · have hnb : n.addr = b.addr + 20 + b.size := ht.1
      have hs : u32 (b.size + n.size + 20) = b.size + 20 + n.size := by
        rw [u32_of_lt (by omega)]
        omega
      have hd : u32 (b.addr + 20) = b.data := u32_of_lt (by omega)
      have hbk : (h.mem.setSize b.addr (b.size + 20 + n.size)).block n.addr
          = ⟨kheapMagic, n.size, n.free, b.addr, headAddr ys 0⟩ := by
        rw [Mem.block_setSize_ne (by omega)]
        exact hl.1
      rw [if_pos hf]
      simp only [hs, hd, hbk]
      rw [Mem.block_setNext_ne (by omega), hbk]
      obtain ⟨h1, h2, h3⟩ := hi.join rfl rfl
      have hfree : NoHeader ys (b.addr + 8) := noHeader_of_lt ht.2.2 (by simp only [Piece.hi, Blk.stop]; omega)
      refine ⟨b.absorb n, ys, ?_, Or.inr ⟨n, rfl, hf, rfl⟩, fun x hx hx' => ?_, fun _ x hx hx' => ?_, ?_⟩
      · rw [h2]; exact h1
      · rw [h2]; exact h3 x hx hx'
      · rw [h2]
        exact Mem.fill_in hx (by simp only [Blk.data, Blk.stop] at hx' ⊢; omega)
      · rw [h2, Mem.fill_out (by simp only [Blk.data]; omega), relinkNext_out hfree]
        exact (Mem.store32_out (by omega)).trans (Mem.store32_out (by omega))
    · rw [if_neg hf]
      refine ⟨b, n :: ys, hi, Or.inl ⟨rfl, rfl, ?_⟩, fun x _ _ => rfl, fun h0 => h0, rfl⟩
      simpa using hf

theorem kheapIsValidHeapAddress_of_mem (hi : KheapInv base h xs) (hb : b ∈ xs) (hs : 0 < b.size) :
    kheapIsValidHeapAddress h b.data = true := by
  have hbd := hi.bounds
  have hrg := hi.mem_range hb
  have hm := hi.linked.magic b hb
  simp only [kheapHeapSize] at hrg
  have h1 : u32 (base + 20) = base + 20 := u32_of_lt (by omega)
  have h2 : u32 (base + kheapHeapSize) = base + kheapHeapSize := u32_of_lt hbd.2
  have h3 : sub32 b.data 20 = b.addr := by
    rw [sub32_of_le (by simp [Blk.data]) (by simp only [Blk.data]; omega)]
    simp [Blk.data]
  unfold kheapIsValidHeapAddress
  rw [hi.enabled, hi.base_eq, h1, h2, h3, hm.1]
  have h4 : base + 20 ≤ b.data ∧ b.data < base + kheapHeapSize := by
    simp only [Blk.data, kheapHeapSize]
    omega
  simp [h4]

theorem kfreeMergePrev_apart (hi : HeapInv base limit h (xs ++ b :: ys))
    (hl : ∀ p ∈ xs.getLast?, p.free = false) : kfreeMergePrev h b.addr = (b.addr, h) := by
  unfold kfreeMergePrev
  rw [hi.split.2.1]
  refine if_neg fun hc => ?_
  rcases List.eq_nil_or_concat' xs with rfl | ⟨xs', p, rfl⟩
  · exact hc.1 rfl
  · obtain ⟨-, -, hfree⟩ := hc
    simp only [lastAddr_append, lastAddr_cons, lastAddr_nil] at hfree
    have hp := hi.linked.magic p (by simp)
    rw [hp.2.2, hl p (by simp)] at hfree
    cases hfree

theorem kfreeMergeNext_apart (hi : HeapInv base limit h (xs ++ b :: ys))
    (hr : ∀ n ∈ ys.head?, n.free = false) : kfreeMergeNext h b.addr = h := by
  unfold kfreeMergeNext
  rw [hi.split.2.1]
  refine if_neg fun hc => ?_
  cases ys with
  | nil => exact hc.1 rfl
  | cons n ys =>
    obtain ⟨-, -, hfree⟩ := hc
    simp only [headAddr_cons] at hfree
    have hn := hi.linked.magic n (by simp)
    rw [hn.2.2, hr n (by simp)] at hfree
    cases hfree

/-- The rest of `kfree` for a block of the heap: mark it free and merge it with its
    free neighbours. -/
def release (h : Kheap) (block : ℕ) : Kheap :=
  let r := kfreeMergePrev { h with mem := h.mem.setFree block true } block
  kfreeMergeNext r.2 r.1

/-- Releasing a block removes it from the allocated blocks, keeps the list
    coalesced, and writes to headers and to one free payload only. -/
theorem release_spec (hi : HeapInv base limit h (xs ++ b :: ys)) :
    ∃ bs z, HeapInv base limit (release h b.addr) bs ∧ z ∈ bs ∧ z.free = true ∧
      bs.filter used = (xs ++ ys).filter used ∧
      (Coalesced (xs ++ b :: ys) → b.free = false → Coalesced bs) ∧
      ∀ x, NoHeader (xs ++ b :: ys) x → x < z.data ∨ z.stop ≤ x →
        (release h b.addr).mem x = h.mem x := by
  obtain ⟨xs', b', h1, hi₁, hl, hout₁⟩ := kfreeMergePrev_spec (hi.setFree true)
  unfold release
  simp only [h1]
  obtain ⟨b'', ys', hi₂, hr, hout₂, -, -⟩ := kfreeMergeNext_spec hi₁
  have hfree' : b'.free = true := by
    rcases hl with ⟨-, rfl, -⟩ | ⟨p, -, hp, rfl, -⟩
    · rfl
    · exact hp
  have hfree : b''.free = true := by
    rcases hr with ⟨rfl, -, -⟩ | ⟨n, -, -, rfl⟩
    · exact hfree'
    · exact hfree'
  refine ⟨xs' ++ b'' :: ys', b'', hi₂, by simp, hfree, ?_, fun hc hf => ?_, fun x hx hx' => ?_⟩
  · have hxs : xs'.filter used = xs.filter used := by
      rcases hl with ⟨rfl, -, -⟩ | ⟨p, rfl, hp, -, -⟩
      · rfl
      · simp [used, hp]
    have hys : ys'.filter used = ys.filter used := by
      rcases hr with ⟨-, rfl, -⟩ | ⟨n, rfl, hn, -⟩
      · rfl
      · simp [used, hn]
    have hb : used b'' = false := by simp [used, hfree]
    simp [hb, hxs, hys]
  · obtain ⟨⟨hcx, -⟩, hcy, -⟩ := coalesced_append_cons.1 hc
    refine coalesced_append_cons.2 ⟨⟨?_, fun p hp => Or.inl ?_⟩, ?_, fun n hn => Or.inr ?_⟩
    · rcases hl with ⟨rfl, -, -⟩ | ⟨p, rfl, -, -⟩
      · exact hcx
      · exact hcx.left_of_append
    · rcases hl with ⟨rfl, -, hl⟩ | ⟨q, rfl, hq, -⟩
      · simp [used, hl p hp]
      · -- the block before a free one is in use
        exact ((coalesced_append_cons.1 hcx).1.2 p hp).resolve_right (by simp [used, hq])
    · rcases hr with ⟨-, rfl, -⟩ | ⟨n, rfl, -, -⟩
      · exact hcy
      · exact hcy.of_cons
    · rcases hr with ⟨-, rfl, hr⟩ | ⟨q, rfl, hq, -⟩
      · simp [used, hr n hn]
      · exact Tiles.unused_head hcy (by simp [used, hq]) n hn
  · -- the free flag, the backward merge and the forward merge leave `x` alone
    obtain ⟨hxx, hxy⟩ := noHeader_append.1 hx
    obtain ⟨hxb, hxy⟩ := noHeader_cons.1 hxy
    have hb'stop : b'.data ≤ b''.data ∧ b''.data ≤ b'.data ∧ b'.stop ≤ b''.stop := by
      rcases hr with ⟨rfl, -, -⟩ | ⟨n, -, -, rfl⟩
      · exact ⟨le_rfl, le_rfl, le_rfl⟩
      · refine ⟨le_rfl, le_rfl, ?_⟩
        simp only [Blk.absorb, Blk.stop]
        omega
    have hx₁ : NoHeader (xs' ++ b' :: ys) x := by
      refine noHeader_append.2 ?_
      rcases hl with ⟨rfl, rfl, -⟩ | ⟨p, rfl, -, rfl, -⟩
      · exact ⟨hxx, noHeader_cons.2 ⟨hxb, hxy⟩⟩
      · obtain ⟨hxx, hxp⟩ := noHeader_append.1 hxx
        exact ⟨hxx, noHeader_cons.2 ⟨hxp p (by simp), hxy⟩⟩
    rw [hout₂ x hx₁ hx', hout₁ x (noHeader_append.2 ⟨hxx, noHeader_cons.2 ⟨hxb, hxy⟩⟩) (by omega)]
    exact Mem.setFree_out hxb

/-- Releasing once more a block that was merged forwards only: its neighbours are in
    use, and its free flag is already set. -/
theorem release_mergeNext (hi : HeapInv base limit h (xs ++ b :: ys)) (hl : ∀ p ∈ xs.getLast?, p.free = false)
    (hc : Coalesced ys) (hset : h.mem (b.addr + 8) = 1) :
    release (kfreeMergeNext h b.addr) b.addr = kfreeMergeNext h b.addr := by
  obtain ⟨b', ys', hi', hr, -, -, hbyte⟩ := kfreeMergeNext_spec hi
  have hmem : { kfreeMergeNext h b.addr with mem := (kfreeMergeNext h b.addr).mem.setFree b.addr true }
      = kfreeMergeNext h b.addr := by
    refine congrArg (fun m : Mem => { kfreeMergeNext h b.addr with mem := m }) (funext fun x => ?_)
    by_cases hx : x = b.addr + 8
    · subst hx
      exact (Mem.store8_in _ _ _).trans (hbyte.trans hset).symm
    · exact Mem.store8_out hx
  have haddr : b'.addr = b.addr := by
    rcases hr with ⟨rfl, -, -⟩ | ⟨n, -, -, rfl⟩
    · rfl
    · rfl
  have hnext : ∀ n ∈ ys'.head?, n.free = false := by
    rcases hr with ⟨-, rfl, hr⟩ | ⟨n, rfl, hn, -⟩
    · exact hr
    · intro m hm
      simpa [used] using Tiles.unused_head hc (by simp [used, hn]) m hm
  have hprev := kfreeMergePrev_apart hi' hl
  have hnext := kfreeMergeNext_apart hi' hnext
  rw [haddr] at hprev hnext
  rw [release, hmem, hprev, hnext]

/-- What is left of the header of a released block: it was cleared, when the block
    before took it in, or releasing it again changes nothing. -/
theorem release_again (hi : HeapInv base limit h (xs ++ b :: ys)) (hc : Coalesced (xs ++ b :: ys)) :
    ((release h b.addr).mem.block b.addr).magic = 0 ∨
      release (release h b.addr) b.addr = release h b.addr := by
  have hi' := hi.setFree true
  have hcy : Coalesced ys := (coalesced_append_cons.1 hc).2.1
  obtain ⟨xs', b', h1, hi₁, hl, -⟩ := kfreeMergePrev_spec hi'
  have heq : release h b.addr
      = kfreeMergeNext (kfreeMergePrev { h with mem := h.mem.setFree b.addr true } b.addr).2 b'.addr := by
    simp only [release, h1]
  rcases hl with ⟨rfl, rfl, hl⟩ | ⟨p, rfl, -, rfl, hcl⟩
  · right
    have hprev := kfreeMergePrev_apart hi' hl
    rw [heq, hprev]
    exact release_mergeNext hi' hl hcy (Mem.store8_in _ _ _)
  · left
    dsimp only at hi₁ hcl
    generalize (kfreeMergePrev _ b.addr).2 = k at hi₁ hcl heq
    obtain ⟨-, -, -, -, -, hzero, -⟩ := kfreeMergeNext_spec hi₁
    have hpb : b.addr = p.stop := by
      have hi₂ : HeapInv base limit h (xs' ++ p :: b :: ys) := by simpa using hi
      exact hi₂.split.2.2.2.2.1
    rw [heq]
    generalize kfreeMergeNext k _ = k' at hzero ⊢
    refine Mem.load32_zero fun x hx hx' => hzero (fun y hy hy' => hcl y hy ?_) x ?_ ?_
    · simp only [Blk.absorb, Blk.stop] at hy' hpb ⊢
      omega
    · simp only [Blk.absorb, Blk.data, Blk.stop] at hpb ⊢
      omega
    · simp only [Blk.absorb, Blk.stop] at hpb ⊢
      omega

/-- Behind the address check `kfree` releases the block. -/
theorem kfree_of_valid {ptr a : ℕ} (h0 : ptr ≠ 0) (ha : sub32 ptr 20 = a)
    (hv : h.kheapIsValidHeapAddress ptr = true) : kfree h ptr = release h a := by
  subst ha
  unfold Kheap.kfree release
  rw [if_neg h0, hv]
  exact if_neg Bool.false_ne_true

/-- On a block in use `kfree` passes its address check. -/
theorem kfree_eq (hi : KheapInv base h xs) (hb : b ∈ xs) (hs : 0 < b.size) :
    kfree h b.data = release h b.addr := by
  have hbd := hi.bounds
  have hrg := hi.mem_range hb
  simp only [kheapHeapSize] at hrg
  have hblk : sub32 b.data 20 = b.addr := by
    rw [sub32_of_le (by simp [Blk.data]) (by simp only [Blk.data]; omega)]
    simp [Blk.data]
  exact kfree_of_valid (by simp [Blk.data]) hblk (kheapIsValidHeapAddress_of_mem hi hb hs)

/-- A block whose neighbours are in use is only marked free: its payload stays. -/
theorem kfree_apart (hi : KheapInv base h (xs ++ b :: ys)) (hs : 0 < b.size)
    (hl : ∀ p ∈ xs.getLast?, p.free = false) (hr : ∀ n ∈ ys.head?, n.free = false) :
    kfree h b.data = { h with mem := h.mem.setFree b.addr true } := by
  have hi' := hi.heap.setFree true
  rw [kfree_eq hi (by simp) hs, release, kfreeMergePrev_apart hi' hl, kfreeMergeNext_apart hi' hr]

/-- **Freeing an allocated block removes it from the allocated blocks, keeps the
    list coalesced, and writes to headers and to one free payload only.** -/
theorem kfree_spec (hi : KheapInv base h (xs ++ b :: ys)) (hs : 0 < b.size) :
    ∃ bs z, KheapInv base (kfree h b.data) bs ∧ z ∈ bs ∧ z.free = true ∧
      bs.filter used = (xs ++ ys).filter used ∧
      (Coalesced (xs ++ b :: ys) → b.free = false → Coalesced bs) ∧
      ∀ x, NoHeader (xs ++ b :: ys) x → x < z.data ∨ z.stop ≤ x →
        (kfree h b.data).mem x = h.mem x := by
  obtain ⟨bs, z, hi', h⟩ := release_spec hi.heap
  rw [kfree_eq hi (by simp) hs]
  exact ⟨bs, z, hi'.kheap, h⟩

end Kheap

end Ttos
