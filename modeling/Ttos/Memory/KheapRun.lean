/-
  Runs of the kernel heap.

  A client calls the heap's functions in any order, frees and reallocates only
  what it holds, and writes only into payloads it holds.  In every state such a
  run reaches:

  * `kheap_tiles`: the block list tiles the heap region and is doubly linked,
  * `kheap_isolates`: held payloads are disjoint and no call changes another
    client's bytes,
  * `kheap_canonical`: the block list is a function of the allocated blocks.
-/
import Ttos.Lib.Run
import Ttos.Memory.KheapSpec

namespace Ttos

open Piece

/-! ## The block list in memory -/

namespace Kheap

/-- The blocks from `current` on, through `next`. -/
def blocksFrom (m : Mem) : ℕ → ℕ → Option (List Blk)
  | 0, _ => none
  | fuel + 1, current =>
    if current = 0 then some []
    else (blocksFrom m fuel (m.block current).next).map
      (⟨current, (m.block current).size, (m.block current).free⟩ :: ·)

/-- The block list reached from `kheap_head`. -/
def blocks (h : Kheap) : Option (List Blk) := blocksFrom h.mem kheapFuel h.head

/-- The size of the payload at `ptr`, from its header. -/
def payloadSize (h : Kheap) (ptr : ℕ) : ℕ := (h.mem.block (sub32 ptr 20)).size

theorem blocksFrom_eq {m : Mem} : ∀ {bs : List Blk} {p fuel : ℕ}, Linked m p bs 0 →
    (∀ b ∈ bs, b.addr ≠ 0) → bs.length < fuel → blocksFrom m fuel (headAddr bs 0) = some bs
  | [], _, fuel + 1, _, _, _ => by simp [blocksFrom]
  | b :: bs, _, fuel + 1, ⟨hb, hl⟩, h0, hlen => by
    unfold HeaderAt at hb
    have hb0 : b.addr ≠ 0 := h0 b (by simp)
    have ih := blocksFrom_eq hl (fun c hc => h0 c (by simp [hc]))
      (show bs.length < fuel by simpa using hlen)
    simp [blocksFrom, hb0, hb, ih]

theorem blocks_eq {base : ℕ} {h : Kheap} {bs : List Blk} (hi : KheapInv base h bs) :
    h.blocks = some bs := by
  have hbd := hi.bounds
  have hh : h.head = headAddr bs 0 := by rw [hi.head, headAddr_of_tiles hi.tiles (by simp)]
  unfold blocks
  rw [hh]
  exact blocksFrom_eq hi.linked (fun b hb => by have := hi.mem_range hb; omega) (length_lt_fuel hi)

end Kheap

/-- The block list `bs` is what `kheap_head`, `next`, `prev` and `kheap_tail` say,
    and it tiles the heap region exactly. -/
structure KheapShape (base : ℕ) (h : Kheap) (bs : List Blk) : Prop where
  walk : h.blocks = some bs
  head : h.head = base
  first : ∃ b ∈ bs.head?, b.addr = base ∧ (h.mem.block b.addr).prev = 0
  neighbours : bs.IsChain fun b c => c.addr = b.addr + 20 + b.size ∧
    (h.mem.block b.addr).next = c.addr ∧ (h.mem.block c.addr).prev = b.addr
  last : ∃ b ∈ bs.getLast?, b.addr + 20 + b.size = base + kheapHeapSize ∧
    (h.mem.block b.addr).next = 0 ∧ h.tail = b.addr
  headers : ∀ b ∈ bs, (h.mem.block b.addr).magic = kheapMagic ∧
    (h.mem.block b.addr).size = b.size ∧ (h.mem.block b.addr).free = b.free

theorem neighbours_of_linked {m : Mem} : ∀ {bs : List Blk} {p a e : ℕ}, Linked m p bs 0 →
    Tiles a bs e → bs.IsChain fun b c => c.addr = b.addr + 20 + b.size ∧
      (m.block b.addr).next = c.addr ∧ (m.block c.addr).prev = b.addr
  | [], _, _, _, _, _ => List.isChain_nil
  | [b], _, _, _, _, _ => List.isChain_singleton b
  | b :: c :: bs, _, _, _, ⟨hb, hc, hl⟩, ⟨_, _, ht⟩ => by
    refine List.isChain_cons_cons.2 ⟨⟨ht.1, ?_, ?_⟩, neighbours_of_linked ⟨hc, hl⟩ ht⟩
    · rw [hb]; rfl
    · rw [hc]

theorem KheapInv.shape {base : ℕ} {h : Kheap} {bs : List Blk} (hi : KheapInv base h bs) :
    KheapShape base h bs := by
  have hne : base ≠ base + kheapHeapSize := by simp
  refine ⟨Kheap.blocks_eq hi, hi.head, ?_, neighbours_of_linked hi.linked hi.tiles, ?_, hi.linked.magic⟩
  · cases bs with
    | nil => exact absurd hi.tiles hne
    | cons b bs =>
      have h1 : HeaderAt h.mem b 0 (headAddr bs 0) := hi.linked.1
      exact ⟨b, rfl, hi.tiles.1, by rw [h1]⟩
  · rcases List.eq_nil_or_concat' bs with rfl | ⟨bs', b, rfl⟩
    · exact absurd hi.tiles hne
    · obtain ⟨-, hb, -, -, ht⟩ := hi.split
      exact ⟨b, by simp, ht, by rw [hb]; rfl, by simpa using hi.tail⟩

/-! ## Runs -/

/-- The heap and the payload pointers its clients hold. -/
structure HeapRun where
  heap : Kheap
  live : List ℕ

/-- What a client can do. -/
inductive HeapOp where
  | kmalloc (size : ℕ)
  | kmallocA (size : ℕ)
  | kcalloc (num size : ℕ)
  | krealloc (ptr size : ℕ)
  | kfree (ptr : ℕ)
  | write (addr : ℕ) (v : UInt8)

namespace HeapOp

/-- The number of bytes asked for. -/
def request : HeapOp → ℕ
  | kmalloc size => size
  | kmallocA size => size
  | kcalloc num size => u32 (num * size)
  | krealloc _ size => size
  | _ => 0

/-- The pointer handed over. -/
def target : HeapOp → ℕ
  | krealloc ptr _ => ptr
  | kfree ptr => ptr
  | _ => 0

end HeapOp

namespace HeapRun

/-- Holding a new pointer, unless it is `NULL`. -/
def grant (ptr : ℕ) (live : List ℕ) : List ℕ := if ptr = 0 then live else ptr :: live

/-- What the clients hold after a `krealloc` that returned `newPtr`. -/
def regrant (ptr size newPtr : ℕ) (live : List ℕ) : List ℕ :=
  if ptr = 0 then grant newPtr live
  else if size = 0 then live.erase ptr
  else if newPtr = 0 then live
  else newPtr :: live.erase ptr

/-- One step of a client: the pointer returned and the state afterwards. -/
def exec (s : HeapRun) : HeapOp → Option (ℕ × HeapRun)
  | .kmalloc size => (s.heap.kmalloc size).map fun r => (r.1, ⟨r.2, grant r.1 s.live⟩)
  | .kmallocA size => (s.heap.kmallocA size).map fun r => (r.1, ⟨r.2, grant r.1 s.live⟩)
  | .kcalloc num size => (s.heap.kcalloc num size).map fun r => (r.1, ⟨r.2, grant r.1 s.live⟩)
  | .krealloc ptr size =>
    (s.heap.krealloc ptr size).map fun r => (r.1, ⟨r.2, regrant ptr size r.1 s.live⟩)
  | .kfree ptr => some (0, ⟨s.heap.kfree ptr, s.live.erase ptr⟩)
  | .write addr v => some (0, ⟨{ s.heap with mem := s.heap.mem.store8 addr v }, s.live⟩)

/-- The calls a client may make: it frees and reallocates only `NULL` or what it
    holds, and writes only into what it holds. -/
def Admissible (s : HeapRun) : HeapOp → Prop
  | .krealloc ptr _ => ptr = 0 ∨ ptr ∈ s.live
  | .kfree ptr => ptr = 0 ∨ ptr ∈ s.live
  | .write addr _ => ∃ ptr ∈ s.live, ptr ≤ addr ∧ addr < ptr + s.heap.payloadSize ptr
  | _ => True

instance (s : HeapRun) : DecidablePred s.Admissible
  | .kmalloc _ | .kmallocA _ | .kcalloc _ _ => inferInstanceAs (Decidable True)
  | .krealloc ptr _ | .kfree ptr => inferInstanceAs (Decidable (ptr = 0 ∨ ptr ∈ s.live))
  | .write addr _ =>
    inferInstanceAs (Decidable (∃ ptr ∈ s.live, ptr ≤ addr ∧ addr < ptr + s.heap.payloadSize ptr))

/-- Calls in a row, which all are admissible. -/
def execAll (s : HeapRun) : List HeapOp → Option HeapRun
  | [] => some s
  | op :: ops => if s.Admissible op then (s.exec op).bind fun r => r.2.execAll ops else none

end HeapRun

/-- The heap with its clients, from `kheap_init` on. -/
def heapSystem (base : ℕ) : TransitionSystem HeapRun HeapOp where
  init s := KheapRegion base ∧ (∃ h, Kheap.kheapInit h base = some s.heap) ∧ s.live = []
  step s op s' := s.Admissible op ∧ ∃ r, s.exec op = some (r, s')

/-- The clients hold exactly the allocated blocks. -/
structure HeapRun.Inv (base : ℕ) (s : HeapRun) (bs : List Blk) : Prop where
  good : KheapGood base s.heap bs
  live : s.live.Perm ((allocated bs).map Blk.data)

namespace HeapRun.Inv

variable {base p : ℕ} {s : HeapRun} {bs bs' : List Blk} {b c : Blk} {h' : Kheap}

theorem data_inj (hg : KheapGood base h' bs) (hb : b ∈ bs) (hc : c ∈ bs) (h : b.data = c.data) :
    b = c := by
  simp only [Blk.data] at h
  exact hg.inv.tiles.eq_of_mem hb hc (p := b.addr)
    ⟨le_rfl, by simp only [Piece.hi, Blk.stop]; omega⟩
    ⟨by simp only [Piece.lo]; omega, by simp only [Piece.hi, Blk.stop]; omega⟩

theorem nodup (hg : KheapGood base h' bs) : ((allocated bs).map Blk.data).Nodup := by
  refine List.Nodup.map_on (fun b hb c hc h => ?_) (hg.inv.tiles.nodup.filter _)
  exact data_inj hg (mem_allocated.1 hb).1 (mem_allocated.1 hc).1 h

/-- A held pointer is the payload of an allocated block. -/
theorem mem_live (hi : s.Inv base bs) : p ∈ s.live ↔ ∃ b ∈ allocated bs, b.data = p := by
  rw [hi.live.mem_iff, List.mem_map]

theorem payloadSize_eq (hg : KheapGood base h' bs) (hb : b ∈ bs) :
    h'.payloadSize b.data = b.size := by
  obtain ⟨h1, h2⟩ := hg.inv.heap.block_of_mem hb
  rw [Kheap.payloadSize, h1, h2]

theorem grant_perm (hl : s.live.Perm ((allocated bs).map Blk.data))
    (hp : (allocated bs').Perm (b :: allocated bs)) :
    (grant b.data s.live).Perm ((allocated bs').map Blk.data) := by
  have hb : b.data ≠ 0 := by simp [Blk.data]
  rw [grant, if_neg hb]
  exact (hl.cons b.data).trans (hp.map Blk.data).symm

theorem erase_perm {cs : List Blk} (hl : s.live.Perm ((allocated bs).map Blk.data))
    (hp : (allocated bs).Perm (b :: cs)) : (s.live.erase b.data).Perm (cs.map Blk.data) := by
  have h := (hl.trans (hp.map Blk.data)).erase b.data
  simpa using h

theorem ne_of_allocated (hg : KheapGood base h' bs') (hp : (allocated bs').Perm (b :: allocated bs))
    (hc : c ∈ allocated bs) : c ≠ b := by
  rintro rfl
  have hn : (allocated bs').Nodup := hg.inv.tiles.nodup.filter _
  exact (List.nodup_cons.1 (hp.nodup_iff.1 hn)).1 hc

end HeapRun.Inv

namespace HeapRun

variable {base : ℕ} {s s' : HeapRun} {bs : List Blk} {op : HeapOp}

/-- What a call does: the invariant holds again, a pointer returned is a payload
    of the requested size and alignment, and blocks other than the one handed
    over keep their payloads. -/
structure StepSpec (base : ℕ) (s : HeapRun) (bs : List Blk) (op : HeapOp) (r : ℕ) (s' : HeapRun)
    (bs' : List Blk) : Prop where
  inv : s'.Inv base bs'
  result : r ≠ 0 → ∃ c ∈ allocated bs', c.data = r ∧ op.request ≤ c.size
  aligned : ∀ size, op = .kmallocA size → r % 4096 = 0
  kept : ∀ c ∈ allocated bs, c.data ≠ op.target → c ∈ allocated bs'
  frame : (∀ addr v, op ≠ .write addr v) → ∀ c ∈ allocated bs, c.data ≠ op.target →
    ∀ x, c.data ≤ x → x < c.stop → s'.heap.mem x = s.heap.mem x

/-- What the allocating functions have in common: `NULL` and an unchanged heap, or
    a new block. -/
def Served (base : ℕ) (h : Kheap) (bs : List Blk) (size : ℕ) (align : Bool)
    (res : Option (ℕ × Kheap)) : Prop :=
  res = some (0, h) ∨ ∃ b h' bs', res = some (b.data, h') ∧ KheapGood base h' bs' ∧
    (allocated bs').Perm (b :: allocated bs) ∧ size ≤ b.size ∧ (align = true → b.data % 4096 = 0) ∧
    ∀ c ∈ bs', c ≠ b → ∀ x, c.data ≤ x → x < c.stop → h'.mem x = h.mem x

theorem served_kmallocInt {h : Kheap} (hg : KheapGood base h bs) (size : ℕ) (align : Bool) :
    Served base h bs size align (h.kmallocInt size align) := by
  rcases Kheap.kmallocInt_spec hg size align with h1 | ⟨b, h', bs', h1, hg', hp, -, hs, ha, hout⟩
  · exact Or.inl h1
  · exact Or.inr ⟨b, h', bs', h1, hg', hp, hs, ha, fun c hc _ => hout c hc⟩

theorem served_kcalloc {h : Kheap} (hg : KheapGood base h bs) (num size : ℕ) :
    Served base h bs (u32 (num * size)) false (h.kcalloc num size) := by
  rcases Kheap.kcalloc_spec hg num size with h1 | ⟨b, h', bs', h1, hg', hp, hs, -, hout⟩
  · exact Or.inl h1
  · exact Or.inr ⟨b, h', bs', h1, hg', hp, hs, by simp, hout⟩

/-- An allocating call as a step. -/
theorem step_of_served {res : Option (ℕ × Kheap)} {align : Bool} (hi : s.Inv base bs)
    (hs : Served base s.heap bs op.request align res)
    (ha : ∀ size, op = .kmallocA size → align = true) :
    ∃ r s' bs', (res.map fun r => (r.1, HeapRun.mk r.2 (grant r.1 s.live))) = some (r, s') ∧
      StepSpec base s bs op r s' bs' := by
  rcases hs with rfl | ⟨b, h', bs', rfl, hg', hp, hs, hal, hout⟩
  · exact ⟨0, _, bs, rfl, hi, fun h => absurd rfl h, fun _ _ => rfl, fun c hc _ => hc,
      fun _ c hc _ x _ _ => rfl⟩
  · have hmem : ∀ c ∈ allocated bs, c ∈ allocated bs' := fun c hc =>
      hp.mem_iff.2 (List.mem_cons_of_mem _ hc)
    refine ⟨b.data, _, bs', rfl, ⟨hg', Inv.grant_perm hi.live hp⟩, fun _ => ⟨b, ?_, rfl, hs⟩,
      fun size h => hal (ha size h), fun c hc _ => hmem c hc, fun _ c hc _ => ?_⟩
    · exact hp.mem_iff.2 (List.mem_cons_self ..)
    · exact hout c (mem_allocated.1 (hmem c hc)).1 (Inv.ne_of_allocated hg' hp hc)

/-- Giving a block back. -/
theorem step_of_kfree {b : Blk} (op : HeapOp) (hi : s.Inv base bs) (hb : b ∈ allocated bs) (ht : op.target = b.data)
    (hA : ∀ size, op ≠ .kmallocA size) :
    ∃ bs', StepSpec base s bs op 0 ⟨s.heap.kfree b.data, s.live.erase b.data⟩ bs' := by
  obtain ⟨bs', hg', hp, hout⟩ := Kheap.kfree_good hi.good hb
  have hmem : ∀ c ∈ allocated bs, c.data ≠ op.target → c ∈ allocated bs' := fun c hc hne => by
    refine (List.mem_cons.1 (hp.mem_iff.1 hc)).resolve_left ?_
    rintro rfl
    exact hne ht.symm
  exact ⟨bs', ⟨hg', Inv.erase_perm hi.live hp⟩, fun h => absurd rfl h, fun size h => absurd h (hA size),
    hmem, fun _ c hc hne => hout c (hmem c hc hne)⟩

/-- A call that changes nothing. -/
theorem step_of_same (hi : s.Inv base bs) {r : ℕ} (hA : ∀ size, op ≠ .kmallocA size)
    (hr : r ≠ 0 → ∃ c ∈ allocated bs, c.data = r ∧ op.request ≤ c.size) :
    StepSpec base s bs op r s bs :=
  ⟨hi, hr, fun size h => absurd h (hA size), fun _ hc _ => hc, fun _ _ _ _ _ _ _ => rfl⟩

theorem step_krealloc (hi : s.Inv base bs) {ptr size : ℕ} (ha : s.Admissible (.krealloc ptr size)) :
    ∃ r s' bs', s.exec (.krealloc ptr size) = some (r, s') ∧
      StepSpec base s bs (.krealloc ptr size) r s' bs' := by
  have hA : ∀ n, HeapOp.krealloc ptr size ≠ .kmallocA n := by simp
  by_cases h0 : ptr = 0
  · subst h0
    have hex : s.exec (.krealloc 0 size)
        = (s.heap.kmalloc size).map fun r => (r.1, HeapRun.mk r.2 (grant r.1 s.live)) := by
      simp [exec, Kheap.krealloc, regrant]
    rw [hex]
    exact step_of_served hi (served_kmallocInt hi.good size false) (by simp)
  obtain ⟨b, hb, rfl⟩ := hi.mem_live.1 (ha.resolve_left h0)
  have hbm := (mem_allocated.1 hb).1
  by_cases hz : size = 0
  · subst hz
    have hex : s.exec (.krealloc b.data 0) = some (0, ⟨s.heap.kfree b.data, s.live.erase b.data⟩) := by
      simp [exec, Kheap.krealloc, h0, regrant]
    obtain ⟨bs', h⟩ := step_of_kfree (.krealloc b.data 0) hi hb rfl (by simp)
    exact ⟨0, _, bs', hex, h⟩
  by_cases hs : size ≤ b.size
  · obtain ⟨h1, h2⟩ := hi.good.inv.heap.block_of_mem hbm
    have hv := Kheap.kheapIsValidHeapAddress_of_mem hi.good.inv hbm (hi.good.nonempty b hb)
    have hex : s.exec (.krealloc b.data size)
        = some (b.data, ⟨s.heap, b.data :: s.live.erase b.data⟩) := by
      simp [exec, Kheap.krealloc, h0, hz, hv, h1, h2, hs, regrant]
    have hl : (b.data :: s.live.erase b.data).Perm s.live :=
      (List.perm_cons_erase (ha.resolve_left h0)).symm
    exact ⟨b.data, _, bs, hex, ⟨hi.good, hl.trans hi.live⟩, fun _ => ⟨b, hb, rfl, hs⟩,
      fun n h => absurd h (hA n), fun _ hc _ => hc, fun _ _ _ _ _ _ _ => rfl⟩
  · rcases Kheap.krealloc_grow hi.good hb (not_le.1 hs) with
      h1 | ⟨c, h', bs', h1, hg', hp, hcs, -, -, hout⟩
    · have hex : s.exec (.krealloc b.data size) = some (0, s) := by
        simp [exec, h1, regrant, h0, hz]
      exact ⟨0, s, bs, hex, step_of_same hi hA (fun h => absurd rfl h)⟩
    have hc0 : c.data ≠ 0 := by simp [Blk.data]
    have hex : s.exec (.krealloc b.data size) = some (c.data, ⟨h', c.data :: s.live.erase b.data⟩) := by
      simp [exec, h1, regrant, h0, hz, hc0]
    have hbc : c ≠ b := by rintro rfl; omega
    have hc : c ∈ allocated bs' :=
      (List.mem_cons.1 (hp.mem_iff.2 (List.mem_cons_self ..))).resolve_left hbc
    have hmem : ∀ d ∈ allocated bs, d.data ≠ b.data → d ∈ allocated bs' := fun d hd hne =>
      (List.mem_cons.1 (hp.mem_iff.2 (List.mem_cons_of_mem _ hd))).resolve_left (by
        rintro rfl; exact hne rfl)
    have hpe : (allocated bs').Perm (c :: (allocated bs).erase b) := by
      have := hp.erase b
      rwa [List.erase_cons_head, List.erase_cons_tail (by simpa using hbc)] at this
    refine ⟨c.data, _, bs', hex, ⟨hg', ?_⟩, fun _ => ⟨c, hc, rfl, hcs⟩, fun n h => absurd h (hA n),
      hmem, fun _ d hd hne => hout d (hmem d hd hne) ?_⟩
    · refine ((Inv.erase_perm hi.live (List.perm_cons_erase hb)).cons c.data).trans ?_
      exact (hpe.map Blk.data).symm
    · -- the new block is none of those that were there before
      rintro rfl
      have hn : (b :: allocated bs').Nodup := by
        refine List.nodup_cons.2 ⟨fun hbb => ?_, hg'.inv.tiles.nodup.filter _⟩
        rcases List.mem_cons.1 (hpe.mem_iff.1 hbb) with h | h
        · exact hbc h.symm
        · exact (List.Nodup.not_mem_erase (hi.good.inv.tiles.nodup.filter _)) h
      exact (List.nodup_cons.1 (hp.nodup_iff.1 hn)).1 hd

/-- **Every admissible call returns and does what its specification says.** -/
theorem exec_spec (hi : s.Inv base bs) (ha : s.Admissible op) :
    ∃ r s' bs', s.exec op = some (r, s') ∧ StepSpec base s bs op r s' bs' := by
  cases op with
  | kmalloc size => exact step_of_served hi (served_kmallocInt hi.good size false) (by simp)
  | kmallocA size => exact step_of_served hi (served_kmallocInt hi.good size true) (by simp)
  | kcalloc num size => exact step_of_served hi (served_kcalloc hi.good num size) (by simp)
  | krealloc ptr size => exact step_krealloc hi ha
  | kfree ptr =>
    by_cases h0 : ptr = 0
    · subst h0
      have hl : s.live.erase 0 = s.live := List.erase_of_not_mem fun h => by
        obtain ⟨b, -, hb⟩ := hi.mem_live.1 h
        simp [Blk.data] at hb
      refine ⟨0, s, bs, ?_, step_of_same hi (by simp) (fun h => absurd rfl h)⟩
      simp [exec, Kheap.kfree, hl]
    · obtain ⟨b, hb, rfl⟩ := hi.mem_live.1 (ha.resolve_left h0)
      obtain ⟨bs', h⟩ := step_of_kfree (.kfree b.data) hi hb rfl (by simp)
      exact ⟨0, _, bs', rfl, h⟩
  | write addr v =>
    obtain ⟨ptr, hptr, h1, h2⟩ := ha
    obtain ⟨b, hb, rfl⟩ := hi.mem_live.1 hptr
    have hbm := (mem_allocated.1 hb).1
    rw [Inv.payloadSize_eq hi.good hbm] at h2
    have hg : KheapGood base { s.heap with mem := s.heap.mem.store8 addr v } bs := by
      refine hi.good.write fun x hx => Mem.store8_out ?_
      rintro rfl
      exact hx (hi.good.inv.heap.noHeader hbm h1 (by simp only [Blk.stop, Blk.data] at h2 ⊢; omega))
    exact ⟨0, _, bs, rfl, ⟨hg, hi.live⟩, fun h => absurd rfl h, by simp, fun _ hc _ => hc,
      fun h => absurd rfl (h addr v)⟩

/-- The clients of a reachable state hold the allocated blocks of a well-formed heap. -/
theorem reachable_inv (hr : (heapSystem base).Reachable s) : ∃ bs, s.Inv base bs := by
  refine hr.invariant (P := fun s => ∃ bs, s.Inv base bs) ?_ ?_
  · rintro s ⟨hreg, ⟨h, hinit⟩, hl⟩
    exact ⟨_, Kheap.kheapInit_spec hreg hinit, by simp [hl, allocated, used]⟩
  · rintro s op s' - ⟨bs, hi⟩ ⟨ha, r, hex⟩
    obtain ⟨r', s'', bs', hex', hspec⟩ := exec_spec hi ha
    rw [hex] at hex'
    obtain ⟨rfl, rfl⟩ := Prod.mk.inj (Option.some.inj hex')
    exact ⟨bs', hspec.inv⟩

end HeapRun

/-! ## The heap's contract -/

section
variable {base : ℕ} {s : HeapRun}

theorem heapSystem_init : ∃ h, Kheap.kheapInit ⟨fun _ => 0, false, 0, 0, 0, 0, 0⟩ 0xD0000000 = some h ∧
    (heapSystem 0xD0000000).Reachable ⟨h, []⟩ :=
  ⟨_, rfl, .init ⟨⟨by decide, by decide⟩, ⟨_, rfl⟩, rfl⟩⟩

theorem reachable_execAll {ops : List HeapOp} {s' : HeapRun} (hr : (heapSystem base).Reachable s)
    (h : s.execAll ops = some s') : (heapSystem base).Reachable s' := by
  induction ops generalizing s with
  | nil =>
    obtain rfl : s = s' := Option.some.inj h
    exact hr
  | cons op ops ih =>
    rw [HeapRun.execAll] at h
    split at h
    · obtain ⟨r, hex, h⟩ := Option.bind_eq_some_iff.1 h
      exact ih (.step hr ⟨‹_›, r.1, hex⟩) h
    · cases h

/-- The heap of three clients: the second has asked for a page boundary, and the third one's block
    lies in the padding before it. -/
def threeClients : Option HeapRun :=
  (Kheap.kheapInit ⟨fun _ => 0, false, 0, 0, 0, 0, 0⟩ 0xD0000000).bind fun h =>
    (HeapRun.mk h []).execAll [.kmalloc 100, .kmallocA 64, .kcalloc 3 8, .write 0xD0000014 0x2A]

theorem threeClients_reachable : ∃ s, threeClients = some s ∧ (heapSystem 0xD0000000).Reachable s ∧
    s.live = [0xD000008C, 0xD0001000, 0xD0000014] := by
  have hlive : threeClients.map HeapRun.live = some [0xD000008C, 0xD0001000, 0xD0000014] := by
    decide +kernel
  obtain ⟨s, hs, hlive⟩ := Option.map_eq_some_iff.1 hlive
  obtain ⟨h, hinit, hrun⟩ := Option.bind_eq_some_iff.1 hs
  have h0 : (heapSystem 0xD0000000).Reachable ⟨h, []⟩ :=
    .init ⟨⟨by decide, by decide⟩, ⟨_, hinit⟩, rfl⟩
  exact ⟨s, hs, reachable_execAll h0 hrun, hlive⟩

/-- **The block list tiles the heap region**, in every reachable state, and every
    admissible call returns. -/
theorem kheap_tiles (hr : (heapSystem base).Reachable s) :
    (∃ bs, KheapShape base s.heap bs) ∧
      ∀ op, s.Admissible op → ∃ r s', s.exec op = some (r, s') := by
  obtain ⟨bs, hi⟩ := HeapRun.reachable_inv hr
  refine ⟨⟨bs, hi.good.inv.shape⟩, fun op ha => ?_⟩
  obtain ⟨r, s', -, hex, -⟩ := HeapRun.exec_spec hi ha
  exact ⟨r, s', hex⟩

/-- Two of the five blocks are free. -/
theorem kheap_tiles_small : ∃ s bs, threeClients = some s ∧ KheapShape 0xD0000000 s.heap bs ∧
    bs.map Blk.free = [false, false, true, false, true] := by
  obtain ⟨s, hs, hr, -⟩ := threeClients_reachable
  obtain ⟨⟨bs, hshape⟩, -⟩ := kheap_tiles hr
  have hfree : (threeClients.bind fun s => s.heap.blocks).map (List.map Blk.free) =
      some [false, false, true, false, true] := by decide +kernel
  rw [hs, Option.bind_some, hshape.walk] at hfree
  exact ⟨s, bs, hs, hshape, Option.some.inj hfree⟩

/-- **Held payloads are isolated.** They are disjoint, lie in the heap region and
    contain no header; a call returns what was asked for and changes no other
    client's bytes. -/
theorem kheap_isolates (hr : (heapSystem base).Reachable s) :
    (s.live.Nodup ∧
      (∀ p ∈ s.live, ∀ q ∈ s.live, p ≠ q →
        p + s.heap.payloadSize p ≤ q ∨ q + s.heap.payloadSize q ≤ p) ∧
      (∀ p ∈ s.live, base ≤ p ∧ p + s.heap.payloadSize p ≤ base + kheapHeapSize) ∧
      ∀ bs, s.heap.blocks = some bs → ∀ p ∈ s.live, ∀ b ∈ bs,
        b.addr + 20 ≤ p ∨ p + s.heap.payloadSize p ≤ b.addr) ∧
    ∀ op r s', s.Admissible op → s.exec op = some (r, s') →
      (r ≠ 0 → op.request ≤ s'.heap.payloadSize r) ∧
      (∀ size, op = .kmallocA size → r % 4096 = 0) ∧
      ((∀ addr v, op ≠ .write addr v) → ∀ p ∈ s.live, p ≠ op.target →
        p ∈ s'.live ∧ s'.heap.payloadSize p = s.heap.payloadSize p ∧
          ∀ i < s.heap.payloadSize p, s'.heap.mem (p + i) = s.heap.mem (p + i)) := by
  obtain ⟨bs, hi⟩ := HeapRun.reachable_inv hr
  have hsize : ∀ b ∈ allocated bs, s.heap.payloadSize b.data = b.size := fun b hb =>
    HeapRun.Inv.payloadSize_eq hi.good (mem_allocated.1 hb).1
  refine ⟨⟨?_, ?_, ?_, ?_⟩, fun op r s' ha hex => ?_⟩
  · exact hi.live.nodup_iff.2 (HeapRun.Inv.nodup hi.good)
  · intro p hp q hq hne
    obtain ⟨b, hb, rfl⟩ := hi.mem_live.1 hp
    obtain ⟨c, hc, rfl⟩ := hi.mem_live.1 hq
    rw [hsize b hb, hsize c hc]
    rcases hi.good.inv.tiles.apart (mem_allocated.1 hb).1 (mem_allocated.1 hc).1 with rfl | h | h
    · exact absurd rfl hne
    · simp only [Piece.hi, Piece.lo, Blk.stop, Blk.data] at h ⊢; omega
    · simp only [Piece.hi, Piece.lo, Blk.stop, Blk.data] at h ⊢; omega
  · intro p hp
    obtain ⟨b, hb, rfl⟩ := hi.mem_live.1 hp
    have := hi.good.inv.mem_range (mem_allocated.1 hb).1
    rw [hsize b hb]
    simp only [Blk.data]
    omega
  · intro bs' hbs p hp c hc
    obtain rfl : bs = bs' := by simpa [Kheap.blocks_eq hi.good.inv] using hbs
    obtain ⟨b, hb, rfl⟩ := hi.mem_live.1 hp
    rw [hsize b hb]
    rcases hi.good.inv.tiles.apart (mem_allocated.1 hb).1 hc with rfl | h | h
    · exact Or.inl le_rfl
    · simp only [Piece.hi, Piece.lo, Blk.stop, Blk.data] at h ⊢; omega
    · simp only [Piece.hi, Piece.lo, Blk.stop, Blk.data] at h ⊢; omega
  · obtain ⟨r', s'', bs', hex', hspec⟩ := HeapRun.exec_spec hi ha
    rw [hex] at hex'
    obtain ⟨rfl, rfl⟩ := Prod.mk.inj (Option.some.inj hex')
    have hsize' : ∀ b ∈ allocated bs', s'.heap.payloadSize b.data = b.size := fun b hb =>
      HeapRun.Inv.payloadSize_eq hspec.inv.good (mem_allocated.1 hb).1
    refine ⟨fun h0 => ?_, hspec.aligned, fun hw p hp hne => ?_⟩
    · obtain ⟨c, hc, rfl, hcs⟩ := hspec.result h0
      rwa [hsize' c hc]
    · obtain ⟨b, hb, rfl⟩ := hi.mem_live.1 hp
      have hb' := hspec.kept b hb hne
      rw [hsize b hb, hsize' b hb']
      refine ⟨hspec.inv.mem_live.2 ⟨b, hb', rfl⟩, rfl, fun i h => ?_⟩
      exact hspec.frame hw b hb hne _ (by omega) (by simp only [Blk.stop, Blk.data]; omega)

/-- Freeing the third client's block leaves the first one's byte. -/
theorem kheap_isolates_small : ∃ s, threeClients = some s ∧
    0xD0000014 + s.heap.payloadSize 0xD0000014 ≤ 0xD000008C ∧
      ∃ r s', s.exec (.kfree 0xD000008C) = some (r, s') ∧ s'.heap.mem 0xD0000014 = 0x2A := by
  obtain ⟨s, hs, hr, hlive⟩ := threeClients_reachable
  obtain ⟨⟨-, hdisjoint, -⟩, hcall⟩ := kheap_isolates hr
  have hmem : threeClients.map (fun s => s.heap.mem 0xD0000014) = some 0x2A := by decide +kernel
  have hsize : threeClients.map (fun s => s.heap.payloadSize 0xD0000014) = some 100 := by
    decide +kernel
  rw [hs] at hmem hsize
  have hmem : s.heap.mem 0xD0000014 = 0x2A := Option.some.inj hmem
  have hsize : s.heap.payloadSize 0xD0000014 = 100 := Option.some.inj hsize
  have hfirst : 0xD0000014 ∈ s.live := by rw [hlive]; decide
  have hthird : 0xD000008C ∈ s.live := by rw [hlive]; decide
  have hapart := hdisjoint _ hfirst _ hthird (by decide)
  refine ⟨s, hs, by omega, 0, _, rfl, ?_⟩
  obtain ⟨-, -, hkept⟩ := hcall (.kfree 0xD000008C) 0 _ (Or.inr hthird) rfl
  obtain ⟨-, -, hbytes⟩ := hkept (fun _ _ h => by cases h) _ hfirst (by decide)
  exact (hbytes 0 (by omega)).trans hmem

/-- Freeing several pointers, in order. -/
def Kheap.freeAll (h : Kheap) (ptrs : List ℕ) : Kheap := ptrs.foldl Kheap.kfree h

/-- Freeing held pointers leaves the blocks of the others. -/
theorem Kheap.freeAll_good : ∀ {ptrs : List ℕ} {h : Kheap} {bs : List Blk}, KheapGood base h bs →
    ptrs.Nodup → (∀ p ∈ ptrs, p ∈ (allocated bs).map Blk.data) →
    ∃ bs', KheapGood base (h.freeAll ptrs) bs' ∧
      (allocated bs').Perm ((allocated bs).filter fun b => b.data ∉ ptrs)
  | [], h, bs, hg, _, _ => ⟨bs, hg, by simp⟩
  | p :: ptrs, h, bs, hg, hn, hp => by
    obtain ⟨hpn, hn'⟩ := List.nodup_cons.1 hn
    obtain ⟨b, hb, rfl⟩ := List.mem_map.1 (hp p (by simp))
    obtain ⟨bs₁, hg₁, hperm, -⟩ := Kheap.kfree_good hg hb
    have hnd := (HeapRun.Inv.nodup hg)
    rw [(hperm.map Blk.data).nodup_iff, List.map_cons, List.nodup_cons] at hnd
    obtain ⟨bs', hg', hperm'⟩ := freeAll_good hg₁ hn' fun q hq => by
      have hq' := (hperm.map Blk.data).mem_iff.1 (hp q (by simp [hq]))
      refine (List.mem_cons.1 hq').resolve_left ?_
      rintro rfl
      exact hpn hq
    refine ⟨bs', hg', hperm'.trans (List.Perm.trans ?_ (hperm.filter _).symm)⟩
    rw [List.filter_cons, if_neg (by simp)]
    refine .of_eq (List.filter_congr fun c hc => ?_)
    have hne : c.data ≠ b.data := fun h => hnd.1 (h ▸ List.mem_map_of_mem hc)
    simp [hne]

/-- **Coalescing is complete and canonical.** No two neighbours are free, the free
    blocks are the maximal gaps between the allocated ones, and the block list is
    a function of the allocated blocks: freeing in any order gives the same list,
    and freeing what was just allocated restores it. -/
theorem kheap_canonical (hr : (heapSystem base).Reachable s) :
    ∃ bs, s.heap.blocks = some bs ∧
      (bs.IsChain fun b c => b.free = false ∨ c.free = false) ∧
      (∀ p q, (∃ b ∈ bs, b.free = true ∧ b.addr = p ∧ b.addr + 20 + b.size = q) ↔
        Gap (allocated bs) base (base + kheapHeapSize) p q) ∧
      (∀ s' bs', (heapSystem base).Reachable s' → s'.heap.blocks = some bs' →
        (∀ b, b.free = false → (b ∈ bs ↔ b ∈ bs')) → bs = bs') ∧
      (∀ ptrs ptrs' : List ℕ, ptrs.Nodup → (∀ p ∈ ptrs, p ∈ s.live) → ptrs.Perm ptrs' →
        (s.heap.freeAll ptrs).blocks = (s.heap.freeAll ptrs').blocks) ∧
      ∀ size p h', s.heap.kmalloc size = some (p, h') ∨ s.heap.kmallocA size = some (p, h') →
        (h'.kfree p).blocks = some bs := by
  obtain ⟨bs, hi⟩ := HeapRun.reachable_inv hr
  have hg := hi.good
  refine ⟨bs, Kheap.blocks_eq hg.inv, ?_, fun p q => ?_, ?_, ?_, ?_⟩
  · simpa [Coalesced, used] using hg.coalesced
  · rw [allocated, ← hg.inv.tiles.unused_iff hg.coalesced]
    simp only [used, Piece.lo, Piece.hi, Blk.stop, Bool.not_eq_eq_eq_not, Bool.not_false]
  · intro s' bs' hr' hbs' hsame
    obtain ⟨bs'', hi'⟩ := HeapRun.reachable_inv hr'
    obtain rfl : bs'' = bs' := by simpa [Kheap.blocks_eq hi'.good.inv] using hbs'
    refine hg.canonical hi'.good ?_
    refine (List.perm_ext_iff_of_nodup (hg.inv.tiles.nodup.filter _)
      (hi'.good.inv.tiles.nodup.filter _)).2 fun b => ?_
    rw [← allocated, ← allocated, mem_allocated, mem_allocated]
    exact ⟨fun h => ⟨(hsame b h.2).1 h.1, h.2⟩, fun h => ⟨(hsame b h.2).2 h.1, h.2⟩⟩
  · intro ptrs ptrs' hn hl hperm
    have hmem : ∀ p ∈ ptrs, p ∈ (allocated bs).map Blk.data := fun p hp =>
      hi.live.mem_iff.1 (hl p hp)
    obtain ⟨bs₁, hg₁, h1⟩ := Kheap.freeAll_good hg hn hmem
    obtain ⟨bs₂, hg₂, h2⟩ := Kheap.freeAll_good hg (hperm.nodup_iff.1 hn) fun p hp =>
      hmem p (hperm.mem_iff.2 hp)
    have hsame : (allocated bs).filter (fun b => b.data ∉ ptrs)
        = (allocated bs).filter fun b => b.data ∉ ptrs' :=
      List.filter_congr fun b _ => by simp [hperm.mem_iff]
    rw [Kheap.blocks_eq hg₁.inv, Kheap.blocks_eq hg₂.inv,
      hg₁.canonical hg₂ (h1.trans (hsame ▸ h2.symm))]
  · -- an allocation followed by a free
    have hround : ∀ size align p h', s.heap.kmallocInt size align = some (p, h') →
        (h'.kfree p).blocks = some bs := by
      intro size align p h' hk
      rcases Kheap.kmallocInt_spec hg size align with h1 | ⟨b, h₁, bs₁, h1, hg₁, hp₁, -⟩
      · rw [h1] at hk
        obtain ⟨rfl, rfl⟩ := Prod.mk.inj (Option.some.inj hk)
        exact Kheap.blocks_eq hg.inv
      · rw [h1] at hk
        obtain ⟨rfl, rfl⟩ := Prod.mk.inj (Option.some.inj hk)
        obtain ⟨bs₂, hg₂, hp₂, -⟩ := Kheap.kfree_good hg₁ (hp₁.mem_iff.2 (List.mem_cons_self ..))
        rw [Kheap.blocks_eq hg₂.inv, hg₂.canonical hg ((hp₂.symm.trans hp₁).cons_inv)]
    rintro size p h' (hk | hk)
    · exact hround size false p h' hk
    · exact hround size true p h' hk

/-- Two of the blocks are freed in either order. -/
theorem kheap_canonical_small : ∃ s, threeClients = some s ∧
    (s.heap.freeAll [0xD000008C, 0xD0001000]).blocks =
      (s.heap.freeAll [0xD0001000, 0xD000008C]).blocks := by
  obtain ⟨s, hs, hr, hlive⟩ := threeClients_reachable
  obtain ⟨bs, -, -, -, -, horder, -⟩ := kheap_canonical hr
  refine ⟨s, hs, horder _ _ (by decide) (fun p hp => ?_) (List.Perm.swap ..)⟩
  rw [hlive]
  exact List.mem_append_left [0xD0000014] hp

end

end Ttos
