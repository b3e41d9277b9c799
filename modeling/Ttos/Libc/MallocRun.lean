/-
  Runs of the user heap.

  A program calls the functions of malloc.c in any order, frees and reallocates only
  what it holds, and writes only into payloads it holds; whenever the heap asks for a
  page, the kernel may refuse.  In every state such a run reaches
  (`user_heap_contract`):

  * the blocks tile the range from `heap_head` to the heap limit, doubly linked, and
    no two free ones are neighbours,
  * held payloads are disjoint, and a call changes no payload but the one given back,
  * a call returns a payload of the size asked for, unless the product of `calloc`
    wraps around.
-/
import Ttos.Memory.KheapRun
import Ttos.Libc.MallocSpec

namespace Ttos

open Piece

/-! ## Runs -/

/-- The heap of a program and the payload pointers it holds. -/
structure UserHeapRun where
  heap : UserHeap
  live : List ℕ

/-- What a program can do. -/
inductive UserHeapOp where
  | malloc (size : ℕ)
  | calloc (num size : ℕ)
  | realloc (ptr size : ℕ)
  | free (ptr : ℕ)
  | write (addr : ℕ) (v : UInt8)

namespace UserHeapOp

/-- The number of bytes asked for; `calloc` asks for an array of `num` elements. -/
def request : UserHeapOp → ℕ
  | malloc size => size
  | calloc num size => num * size
  | realloc _ size => size
  | _ => 0

/-- The size `malloc` is called with. -/
def mallocSize : UserHeapOp → ℕ
  | calloc num size => u32 (num * size)
  | op => op.request

/-- The pointer a call that returned `r` gave back (`0` for none). -/
def released (r : ℕ) : UserHeapOp → ℕ
  | realloc ptr size => if size = 0 ∨ r ≠ 0 then ptr else 0
  | free ptr => ptr
  | _ => 0

end UserHeapOp

/-- The size of the payload at `ptr`, from its header. -/
def UserHeap.payloadSize (h : UserHeap) (ptr : ℕ) : ℕ := (h.mem.block (sub32 ptr 20)).size

namespace UserHeapRun

/-- One step of a program: the pointer returned and the state afterwards. -/
def exec (map : MapMemory) (s : UserHeapRun) : UserHeapOp → Option (ℕ × UserHeapRun)
  | .malloc size => (s.heap.malloc map size).map fun r => (r.1, ⟨r.2, HeapRun.grant r.1 s.live⟩)
  | .calloc num size =>
    (s.heap.calloc map num size).map fun r => (r.1, ⟨r.2, HeapRun.grant r.1 s.live⟩)
  | .realloc ptr size =>
    (s.heap.realloc map ptr size).map fun r => (r.1, ⟨r.2, HeapRun.regrant ptr size r.1 s.live⟩)
  | .free ptr => some (0, ⟨s.heap.free ptr, s.live.erase ptr⟩)
  | .write addr v => some (0, ⟨{ s.heap with mem := s.heap.mem.store8 addr v }, s.live⟩)

/-- The calls a program may make: it frees and reallocates only `NULL` or what it
    holds, and writes only into what it holds. -/
def Admissible (s : UserHeapRun) : UserHeapOp → Prop
  | .realloc ptr _ => ptr = 0 ∨ ptr ∈ s.live
  | .free ptr => ptr = 0 ∨ ptr ∈ s.live
  | .write addr _ => ∃ ptr ∈ s.live, ptr ≤ addr ∧ addr < ptr + s.heap.payloadSize ptr
  | _ => True

end UserHeapRun

/-- A program from its start on, with any answers of the kernel. -/
def userHeapSystem : TransitionSystem UserHeapRun UserHeapOp where
  init s := s.heap.Fresh ∧ s.live = []
  step s op s' := s.Admissible op ∧
    ∃ map, MapsUserMemory map ∧ ∃ r, s.exec map op = some (r, s')

/-- The block list `bs` is what `heap_head`, `next`, `prev` and `heap_tail` say, it
    tiles the range up to the heap limit exactly, and it is coalesced. -/
structure UserHeapShape (h : UserHeap) (bs : List Blk) : Prop where
  walk : Kheap.blocksFrom h.mem heapFuel h.heapHead = some bs
  fresh : h.heapHead = 0 → h.heapLimit = 0
  first : h.heapHead ≠ 0 → ∃ b ∈ bs.head?, b.addr = h.heapHead ∧ (h.mem.block b.addr).prev = 0
  neighbours : bs.IsChain fun b c => c.addr = b.addr + 20 + b.size ∧
    (h.mem.block b.addr).next = c.addr ∧ (h.mem.block c.addr).prev = b.addr
  last : h.heapHead ≠ 0 → ∃ b ∈ bs.getLast?, b.addr + 20 + b.size = h.heapLimit + 1 ∧
    (h.mem.block b.addr).next = 0 ∧ h.heapTail = b.addr
  headers : ∀ b ∈ bs, (h.mem.block b.addr).magic = heapMagic ∧
    (h.mem.block b.addr).size = b.size ∧ (h.mem.block b.addr).free = b.free
  coalesced : bs.IsChain fun b c => b.free = false ∨ c.free = false

namespace UserHeap

variable {h : UserHeap} {bs : List Blk} {b c : Blk}

theorem Grown.shape (hg : h.Grown bs) : UserHeapShape h bs := by
  have hi := hg.good.inv
  have hle := hg.le
  have hu := hg.user
  have hlen := Kheap.length_le hi
  have hh : h.heapHead = headAddr bs 0 := (headAddr_of_tiles hi.tiles (by omega)).symm
  have hne : ∀ b ∈ bs, b.addr ≠ 0 := fun b hb => by
    have := (hi.mem_range hb).1
    have := hi.pos
    omega
  have hfuel : bs.length < heapFuel := by
    show bs.length < 0x100000000
    omega
  refine ⟨?_, fun h0 => absurd h0 hg.head_pos, fun _ => ?_,
    neighbours_of_linked hi.linked hi.tiles, fun _ => ?_, hi.linked.magic, ?_⟩
  · rw [hh]
    generalize heapFuel = fuel at hfuel
    exact Kheap.blocksFrom_eq hi.linked hne hfuel
  · cases bs with
    | nil => exact absurd (Tiles.nil_iff.1 hi.tiles) (by omega)
    | cons b bs =>
      have h1 : h.mem.block b.addr = ⟨kheapMagic, b.size, b.free, 0, headAddr bs 0⟩ := hi.linked.1
      exact ⟨b, rfl, hi.tiles.1, by rw [h1]⟩
  · obtain rfl | ⟨ys, t, rfl⟩ := List.eq_nil_or_concat' bs
    · exact absurd (Tiles.nil_iff.1 hi.tiles) (by omega)
    · obtain ⟨-, ht, -, -, hstop⟩ := hi.split
      have h1 : h.mem.block t.addr = ⟨kheapMagic, t.size, t.free, lastAddr ys 0, 0⟩ := ht
      exact ⟨t, by simp, hstop, by rw [h1], hi.tail.trans (by simp)⟩
  · simpa [Coalesced, used] using hg.good.coalesced

theorem Holds.shape (hh : h.Holds bs) : UserHeapShape h bs := by
  rcases hh with ⟨hf, rfl⟩ | hg
  · refine ⟨?_, fun _ => hf.limit, fun h0 => absurd hf.head h0, List.isChain_nil,
      fun h0 => absurd hf.head h0, by simp, List.isChain_nil⟩
    rw [hf.head]
    rfl
  · exact hg.shape

theorem Holds.grown (hh : h.Holds bs) (hb : b ∈ allocated bs) : h.Grown bs := by
  rcases hh with ⟨-, rfl⟩ | hg
  · cases hb
  · exact hg

theorem Grown.payloadSize (hg : h.Grown bs) (hb : b ∈ bs) : h.payloadSize b.data = b.size := by
  obtain ⟨h1, h2⟩ := hg.good.inv.block_of_mem hb
  rw [UserHeap.payloadSize, h1]
  exact h2

theorem Grown.data_inj (hg : h.Grown bs) (hb : b ∈ bs) (hc : c ∈ bs) (he : b.data = c.data) :
    b = c := by
  simp only [Blk.data] at he
  exact hg.good.inv.tiles.eq_of_mem hb hc (p := b.addr)
    ⟨le_rfl, by simp only [Piece.hi, Blk.stop]; omega⟩
    ⟨by simp only [Piece.lo]; omega, by simp only [Piece.hi, Blk.stop]; omega⟩

theorem Holds.nodup (hh : h.Holds bs) : ((allocated bs).map Blk.data).Nodup := by
  rcases hh with ⟨-, rfl⟩ | hg
  · exact List.nodup_nil
  · refine List.Nodup.map_on (fun b hb c hc h => ?_) (hg.good.inv.tiles.nodup.filter _)
    exact hg.data_inj (mem_allocated.1 hb).1 (mem_allocated.1 hc).1 h

end UserHeap

namespace UserHeapRun

open UserHeap

/-- The program holds exactly the blocks in use. -/
structure Inv (s : UserHeapRun) (bs : List Blk) : Prop where
  holds : s.heap.Holds bs
  live : s.live.Perm ((allocated bs).map Blk.data)

/-- What a call does: the invariant holds again, a pointer returned is a payload of
    the size `malloc` was called with, blocks other than the one given back keep their
    payloads, and `realloc` moves the payload. -/
structure StepSpec (s : UserHeapRun) (bs : List Blk) (op : UserHeapOp) (r : ℕ) (s' : UserHeapRun)
    (bs' : List Blk) : Prop where
  inv : s'.Inv bs'
  result : r ≠ 0 → ∃ c ∈ allocated bs', c.data = r ∧ op.mallocSize ≤ c.size
  kept : ∀ c ∈ allocated bs, c.data ≠ op.released r → c ∈ allocated bs'
  frame : (∀ addr v, op ≠ .write addr v) → ∀ c ∈ allocated bs, c.data ≠ op.released r →
    ∀ x, c.data ≤ x → x < c.stop → s'.heap.mem x = s.heap.mem x
  moved : ∀ c ∈ allocated bs, ∀ size, op = .realloc c.data size → r ≠ 0 →
    ∀ i < c.size, s'.heap.mem (r + i) = s.heap.mem (c.data + i)

variable {map : MapMemory} {s s' : UserHeapRun} {bs : List Blk} {op : UserHeapOp} {p : ℕ}

/-- A held pointer is the payload of a block in use. -/
theorem Inv.mem_live (hi : s.Inv bs) : p ∈ s.live ↔ ∃ b ∈ allocated bs, b.data = p := by
  rw [hi.live.mem_iff, List.mem_map]

theorem Inv.live_pos (hi : s.Inv bs) (hp : p ∈ s.live) : p ≠ 0 := by
  obtain ⟨b, -, rfl⟩ := hi.mem_live.1 hp
  simp [Blk.data]

/-- An allocating call as a step. -/
theorem step_of_served {res : Option (ℕ × UserHeap)} (hi : s.Inv bs)
    (hs : Served (allocated bs) s.heap op.mallocSize res)
    (hn : ∀ c ∈ allocated bs, ∀ size, op ≠ .realloc c.data size) :
    ∃ r s' bs', (res.map fun r => (r.1, UserHeapRun.mk r.2 (HeapRun.grant r.1 s.live))) =
      some (r, s') ∧ StepSpec s bs op r s' bs' := by
  cases hs with
  | @refused h' bs' holds same keeps =>
    refine ⟨0, ⟨h', s.live⟩, bs', rfl, ⟨holds, same ▸ hi.live⟩, fun h => absurd rfl h,
      fun c hc _ => same ▸ hc, fun _ c hc _ => keeps c hc, fun c hc size he => absurd he (hn c hc size)⟩
  | @granted h' bs' b holds new fits keeps =>
    have hb : b.data ≠ 0 := by simp [Blk.data]
    refine ⟨b.data, ⟨h', HeapRun.grant b.data s.live⟩, bs', rfl, ⟨Or.inr holds, ?_⟩,
      fun _ => ⟨b, new.mem_iff.2 (List.mem_cons_self ..), rfl, fits⟩,
      fun c hc _ => new.mem_iff.2 (List.mem_cons_of_mem _ hc), fun _ c hc _ => keeps c hc,
      fun c hc size he => absurd he (hn c hc size)⟩
    rw [HeapRun.grant, if_neg hb]
    exact (hi.live.cons b.data).trans (new.map Blk.data).symm

/-- Giving a block back. -/
theorem step_of_free {b : Blk} (op : UserHeapOp) (hi : s.Inv bs) (hb : b ∈ allocated bs)
    (ht : op.released 0 = b.data) :
    ∃ bs', StepSpec s bs op 0 ⟨s.heap.free b.data, s.live.erase b.data⟩ bs' := by
  obtain ⟨bs', hg', hp, hout⟩ := free_spec (hi.holds.grown hb) hb
  have hmem : ∀ c ∈ allocated bs, c.data ≠ op.released 0 → c ∈ allocated bs' := fun c hc hne => by
    refine (List.mem_cons.1 (hp.mem_iff.1 hc)).resolve_left ?_
    rintro rfl
    exact hne ht.symm
  refine ⟨bs', ⟨Or.inr hg', ?_⟩, fun h => absurd rfl h, hmem,
    fun _ c hc hne => hout c (hmem c hc hne), fun _ _ _ _ h => absurd rfl h⟩
  have := (hi.live.trans (hp.map Blk.data)).erase b.data
  simpa using this

theorem step_realloc (hm : MapsUserMemory map) (hi : s.Inv bs) {ptr size : ℕ}
    (ha : s.Admissible (.realloc ptr size)) :
    ∃ r s' bs', s.exec map (.realloc ptr size) = some (r, s') ∧
      StepSpec s bs (.realloc ptr size) r s' bs' := by
  by_cases h0 : ptr = 0
  · subst h0
    have hex : s.exec map (.realloc 0 size) = (s.heap.malloc map size).map fun r =>
        (r.1, UserHeapRun.mk r.2 (HeapRun.grant r.1 s.live)) := by
      simp [exec, UserHeap.realloc, HeapRun.regrant]
    rw [hex]
    refine step_of_served hi (served_malloc hm hi.holds size) fun c hc n he => ?_
    have : c.data = 0 := (UserHeapOp.realloc.inj he).1.symm
    simp [Blk.data] at this
  obtain ⟨b, hb, rfl⟩ := hi.mem_live.1 (ha.resolve_left h0)
  have hbm := (mem_allocated.1 hb).1
  have hg := hi.holds.grown hb
  by_cases hz : size = 0
  · subst hz
    have hex : s.exec map (.realloc b.data 0) =
        some (0, ⟨s.heap.free b.data, s.live.erase b.data⟩) := by
      simp [exec, UserHeap.realloc, h0, HeapRun.regrant]
    obtain ⟨bs', h⟩ := step_of_free (.realloc b.data 0) hi hb (by simp [UserHeapOp.released])
    exact ⟨0, _, bs', hex, h⟩
  by_cases hs : size ≤ b.size
  · have h1 : sub32 b.data 20 = b.addr := (hg.good.inv.block_of_mem hbm).1
    have h2 : (s.heap.mem.block b.addr).size = b.size := (hg.good.inv.block_of_mem hbm).2
    have hex : s.exec map (.realloc b.data size) =
        some (b.data, ⟨s.heap, b.data :: s.live.erase b.data⟩) := by
      simp [exec, UserHeap.realloc, h0, hz, heapIsValidAddress_of_mem hg hbm, h1, h2, hs,
        HeapRun.regrant]
    have hl : (b.data :: s.live.erase b.data).Perm s.live :=
      (List.perm_cons_erase (ha.resolve_left h0)).symm
    refine ⟨b.data, _, bs, hex, ⟨hi.holds, hl.trans hi.live⟩, fun _ => ⟨b, hb, rfl, hs⟩,
      fun _ hc _ => hc, fun _ _ _ _ _ _ _ => rfl, fun c hc n he _ i _ => ?_⟩
    rw [(UserHeapOp.realloc.inj he).1]
  · rcases realloc_grow hm hg hb (not_le.1 hs) with
      ⟨h', bs', h1, hg', same, keeps⟩ | ⟨c, h', bs', h1, hg', hp, hcs, hcopy, hout⟩
    · have hex : s.exec map (.realloc b.data size) = some (0, ⟨h', s.live⟩) := by
        simp [exec, h1, HeapRun.regrant, h0, hz]
      exact ⟨0, _, bs', hex, ⟨Or.inr hg', same ▸ hi.live⟩, fun h => absurd rfl h,
        fun c hc _ => same ▸ hc, fun _ c hc _ => keeps c hc, fun _ _ _ _ h => absurd rfl h⟩
    have hc0 : c.data ≠ 0 := by simp [Blk.data]
    have hex : s.exec map (.realloc b.data size) =
        some (c.data, ⟨h', c.data :: s.live.erase b.data⟩) := by
      simp [exec, h1, HeapRun.regrant, h0, hz, hc0]
    have hrel : (UserHeapOp.realloc b.data size).released c.data = b.data := by
      simp [UserHeapOp.released, hc0]
    have hbc : c ≠ b := by rintro rfl; omega
    have hc : c ∈ allocated bs' :=
      (List.mem_cons.1 (hp.mem_iff.2 (List.mem_cons_self ..))).resolve_left hbc
    have hmem : ∀ d ∈ allocated bs, d.data ≠ b.data → d ∈ allocated bs' := fun d hd hne =>
      (List.mem_cons.1 (hp.mem_iff.2 (List.mem_cons_of_mem _ hd))).resolve_left (by
        rintro rfl; exact hne rfl)
    have hpe : (allocated bs').Perm (c :: (allocated bs).erase b) := by
      have := hp.erase b
      rwa [List.erase_cons_head, List.erase_cons_tail (by simpa using hbc)] at this
    refine ⟨c.data, _, bs', hex, ⟨Or.inr hg', ?_⟩, fun _ => ⟨c, hc, rfl, hcs⟩, ?_,
      fun _ d hd hne => ?_, fun d hd n he _ i hid => ?_⟩
    · have := (hi.live.trans ((List.perm_cons_erase hb).map Blk.data)).erase b.data
      refine (List.Perm.cons c.data (by simpa using this)).trans ?_
      exact (hpe.map Blk.data).symm
    · rw [hrel]
      exact hmem
    · rw [hrel] at hne
      refine hout d (hmem d hd hne) ?_
      -- the new block is none of those that were there before
      rintro rfl
      have hn : (b :: allocated bs').Nodup := by
        refine List.nodup_cons.2 ⟨fun hbb => ?_, hg'.good.inv.tiles.nodup.filter _⟩
        rcases List.mem_cons.1 (hpe.mem_iff.1 hbb) with h | h
        · exact hbc h.symm
        · exact (List.Nodup.not_mem_erase (hg.good.inv.tiles.nodup.filter _)) h
      exact (List.nodup_cons.1 (hp.nodup_iff.1 hn)).1 hd
    · obtain rfl : b = d := hg.data_inj hbm (mem_allocated.1 hd).1 (UserHeapOp.realloc.inj he).1
      exact hcopy i hid

/-- **Every admissible call returns and does what its specification says**, whatever
    the kernel answers. -/
theorem exec_spec (hm : MapsUserMemory map) (hi : s.Inv bs) (ha : s.Admissible op) :
    ∃ r s' bs', s.exec map op = some (r, s') ∧ StepSpec s bs op r s' bs' := by
  cases op with
  | malloc size => exact step_of_served hi (served_malloc hm hi.holds size) (by simp)
  | calloc num size => exact step_of_served hi (served_calloc hm hi.holds num size) (by simp)
  | realloc ptr size => exact step_realloc hm hi ha
  | free ptr =>
    by_cases h0 : ptr = 0
    · subst h0
      have hl : s.live.erase 0 = s.live := List.erase_of_not_mem fun h => hi.live_pos h rfl
      refine ⟨0, s, bs, ?_, hi, fun h => absurd rfl h, fun _ hc _ => hc,
        fun _ _ _ _ _ _ _ => rfl, by simp⟩
      simp [exec, UserHeap.free, hl]
    · obtain ⟨b, hb, rfl⟩ := hi.mem_live.1 (ha.resolve_left h0)
      obtain ⟨bs', h⟩ := step_of_free (.free b.data) hi hb rfl
      exact ⟨0, _, bs', rfl, h⟩
  | write addr v =>
    obtain ⟨ptr, hptr, h1, h2⟩ := ha
    obtain ⟨b, hb, rfl⟩ := hi.mem_live.1 hptr
    have hbm := (mem_allocated.1 hb).1
    have hg := hi.holds.grown hb
    rw [hg.payloadSize hbm] at h2
    refine ⟨0, _, bs, rfl, ⟨Or.inr (hg.write fun x hx => Mem.store8_out ?_), hi.live⟩,
      fun h => absurd rfl h, fun _ hc _ => hc, fun h => absurd rfl (h addr v), by simp⟩
    rintro rfl
    exact hx (hg.good.inv.noHeader hbm h1 (by simp only [Blk.stop, Blk.data] at h2 ⊢; omega))

/-- In a reachable state the program holds the blocks in use of a well-formed heap. -/
theorem reachable_inv (hr : userHeapSystem.Reachable s) : ∃ bs, s.Inv bs := by
  refine hr.invariant (P := fun s => ∃ bs, s.Inv bs) ?_ ?_
  · rintro s ⟨hf, hl⟩
    exact ⟨[], Or.inl ⟨hf, rfl⟩, by rw [hl]; exact List.Perm.refl _⟩
  · rintro s op s' - ⟨bs, hi⟩ ⟨ha, map, hm, r, hex⟩
    obtain ⟨r', s'', bs', hex', hspec⟩ := exec_spec hm hi ha
    rw [hex] at hex'
    obtain ⟨rfl, rfl⟩ := Prod.mk.inj (Option.some.inj hex')
    exact ⟨bs', hspec.inv⟩

end UserHeapRun

/-! ## The heap's contract -/

section
variable {s : UserHeapRun}

open UserHeapRun UserHeap

/-- **The contract of the user heap.** In every reachable state, whatever the kernel
    answered, the blocks tile the range from `heap_head` to the heap limit and are
    coalesced, and the payloads held are those in use; they are disjoint and contain
    no header.  Every call returns; it changes no payload but the one it gives back,
    `realloc` takes the payload along, and a pointer returned has the size asked for
    exactly when the call is no `calloc` whose product wraps around. -/
theorem user_heap_contract (hr : userHeapSystem.Reachable s) :
    (∃ bs, UserHeapShape s.heap bs ∧ s.live.Perm ((allocated bs).map Blk.data) ∧
      ∀ p ∈ s.live, ∀ b ∈ bs, b.addr + 20 ≤ p ∨ p + s.heap.payloadSize p ≤ b.addr) ∧
    (s.live.Nodup ∧
      (∀ p ∈ s.live, ∀ q ∈ s.live, p ≠ q →
        p + s.heap.payloadSize p ≤ q ∨ q + s.heap.payloadSize q ≤ p) ∧
      ∀ p ∈ s.live, s.heap.heapHead ≤ p ∧ p + s.heap.payloadSize p ≤ s.heap.heapLimit + 1) ∧
    ∀ map op, MapsUserMemory map → s.Admissible op → ∃ r s', s.exec map op = some (r, s') ∧
      (r ≠ 0 → (op.request ≤ s'.heap.payloadSize r ↔
        ∀ num size, op = .calloc num size → num * size < 4294967296)) ∧
      (∀ p size, op = .realloc p size → p ∈ s.live → r ≠ 0 →
        ∀ i < s.heap.payloadSize p, s'.heap.mem (r + i) = s.heap.mem (p + i)) ∧
      ((∀ addr v, op ≠ .write addr v) → ∀ p ∈ s.live, p ≠ op.released r →
        p ∈ s'.live ∧ s'.heap.payloadSize p = s.heap.payloadSize p ∧
          ∀ i < s.heap.payloadSize p, s'.heap.mem (p + i) = s.heap.mem (p + i)) := by
  obtain ⟨bs, hi⟩ := reachable_inv hr
  have hgr : ∀ b ∈ allocated bs, s.heap.Grown bs := fun b hb => hi.holds.grown hb
  have hsize : ∀ b ∈ allocated bs, s.heap.payloadSize b.data = b.size := fun b hb =>
    (hgr b hb).payloadSize (mem_allocated.1 hb).1
  have hstop : ∀ b : Blk, b.data + b.size = b.stop := fun _ => rfl
  refine ⟨⟨bs, hi.holds.shape, hi.live, fun p hp c hc => ?_⟩, ⟨?_, fun p hp q hq hne => ?_,
    fun p hp => ?_⟩, fun map op hm ha => ?_⟩
  · obtain ⟨b, hb, rfl⟩ := hi.mem_live.1 hp
    rw [hsize b hb, hstop]
    rcases (hgr b hb).good.inv.tiles.apart (mem_allocated.1 hb).1 hc with rfl | h | h
    · exact Or.inl le_rfl
    · exact Or.inr h
    · simp only [Piece.hi, Piece.lo, Blk.stop, Blk.data] at h ⊢; omega
  · exact hi.live.nodup_iff.2 hi.holds.nodup
  · obtain ⟨b, hb, rfl⟩ := hi.mem_live.1 hp
    obtain ⟨c, hc, rfl⟩ := hi.mem_live.1 hq
    rw [hsize b hb, hsize c hc, hstop, hstop]
    rcases (hgr b hb).good.inv.tiles.apart (mem_allocated.1 hb).1 (mem_allocated.1 hc).1
      with rfl | h | h
    · exact absurd rfl hne
    · simp only [Piece.hi, Piece.lo, Blk.data] at h ⊢; omega
    · simp only [Piece.hi, Piece.lo, Blk.data] at h ⊢; omega
  · obtain ⟨b, hb, rfl⟩ := hi.mem_live.1 hp
    have := (hgr b hb).good.inv.mem_range (mem_allocated.1 hb).1
    rw [hsize b hb]
    simp only [Blk.data]
    omega
  obtain ⟨r, s', bs', hex, hspec⟩ := exec_spec hm hi ha
  have hgr' : ∀ b ∈ allocated bs', s'.heap.Grown bs' := fun b hb => hspec.inv.holds.grown hb
  have hsize' : ∀ b ∈ allocated bs', s'.heap.payloadSize b.data = b.size := fun b hb =>
    (hgr' b hb).payloadSize (mem_allocated.1 hb).1
  refine ⟨r, s', hex, fun h0 => ?_, fun p size hop hp h0 => ?_, fun hw p hp hne => ?_⟩
  · obtain ⟨c, hc, rfl, hcs⟩ := hspec.result h0
    rw [hsize' c hc]
    have hcr := (hgr' c hc).good.inv.mem_range (mem_allocated.1 hc).1
    have hlim := (hgr' c hc).user
    constructor
    · -- a block is smaller than the address space
      rintro hreq num size rfl
      have hreq : num * size ≤ c.size := hreq
      omega
    · intro hwrap
      cases op with
      | calloc num size =>
        show num * size ≤ c.size
        rw [← u32_of_lt (hwrap num size rfl)]
        exact hcs
      | _ => exact hcs
  · obtain ⟨b, hb, rfl⟩ := hi.mem_live.1 hp
    rw [hsize b hb]
    exact hspec.moved b hb size hop h0
  · obtain ⟨b, hb, rfl⟩ := hi.mem_live.1 hp
    have hb' := hspec.kept b hb hne
    rw [hsize b hb, hsize' b hb']
    exact ⟨hspec.inv.mem_live.2 ⟨b, hb', rfl⟩, rfl, fun i h =>
      hspec.frame hw b hb hne _ (by omega) (by rw [← hstop]; omega)⟩

/-- A process that has just been started. -/
def freshRun : UserHeapRun := ⟨⟨fun _ => 0, 0, 0, 0, 0⟩, []⟩

/-- The page at `v`, or the first page of user memory. -/
def pageAt (v : ℕ) : ℕ := if v = 0 then 0x1000 else v / 4096 * 4096

/-- A kernel that maps what it is asked for below its own space. -/
def mapNext : MapMemory := fun v size m =>
  if 0 < pageAt v ∧ pageAt v + size ≤ 0xC0000000 then some (pageAt v, m) else none

theorem mapsUserMemory_mapNext : MapsUserMemory mapNext := by
  have hcase : ∀ {v size m a m'}, mapNext v size m = some (a, m') →
      0 < a ∧ a + size ≤ 0xC0000000 ∧ a = pageAt v ∧ m' = m := by
    intro v size m a m' h
    unfold mapNext at h
    split at h
    next hc =>
      obtain ⟨rfl, rfl⟩ := Prod.mk.inj (Option.some.inj h)
      exact ⟨hc.1, hc.2, rfl, rfl⟩
    next => cases h
  refine ⟨fun {v n m a m'} h => ?_, fun {v n m a m'} h hv => ?_, fun h _ => ?_⟩
  · obtain ⟨h1, h2, ha, -⟩ := hcase h
    refine ⟨h1, ?_, h2⟩
    rw [ha, pageAt]
    split <;> omega
  · obtain ⟨-, -, ha, -⟩ := hcase h
    rw [ha, pageAt, if_neg hv]
  · rw [(hcase h).2.2.2]

theorem freshRun_reachable : userHeapSystem.Reachable freshRun := .init ⟨⟨rfl, rfl, rfl⟩, rfl⟩

theorem heapIncreaseSize_freshRun : (heapIncreaseSize mapNext freshRun.heap 1).1 = true := by
  rfl

/-- A first request that fits into a page succeeds when the kernel gives that page. -/
theorem malloc_first {map : MapMemory} (h : UserHeap) (size : ℕ) (hm : MapsUserMemory map)
    (hf : h.Fresh) (hr : (heapIncreaseSize map h 1).1 = true) (h0 : 0 < size) (hs : size ≤ 4076) :
    ∃ p h', malloc map h size = some (p, h') ∧ p ≠ 0 := by
  rcases heapIncreaseSize_fresh hm hf with hr' | ⟨h₁, hr', hg⟩
  · rw [hr'] at hr
    cases hr
  have hb : Kheap.bestFit size false [⟨h₁.heapHead, 4076, true⟩] =
      some ⟨h₁.heapHead, 4076, true⟩ := by
    have hfits : Blk.Fits ⟨h₁.heapHead, 4076, true⟩ size false := ⟨rfl, hs, fun h => by cases h⟩
    exact if_pos hfits
  have hi : HeapInv h₁.heapHead (h₁.heapLimit + 1) h₁.asKheap ([] ++ [⟨h₁.heapHead, 4076, true⟩]) :=
    hg.good.inv
  have hsplit := Kheap.kmallocSplit_spec hi hs
  refine ⟨(mallocSplit h₁ h₁.heapHead size).1, (mallocSplit h₁ h₁.heapHead size).2, ?_, ?_⟩
  · rw [malloc, if_pos hf.head, hr']
    simp only [if_true]
    rw [mallocFit, if_neg h0.ne', heapFindBestFit_eq hg, hb]
    exact if_neg hg.head_pos
  · rw [mallocSplit_eq]
    refine hsplit.1.trans_ne ?_
    simp [Blk.data]

/-- The contract at work: the first `malloc(16)` of a process returns 16 bytes. -/
theorem user_heap_contract_malloc : ∃ r s', freshRun.exec mapNext (.malloc 16) = some (r, s') ∧
    r ≠ 0 ∧ 16 ≤ s'.heap.payloadSize r := by
  obtain ⟨p, h', hmalloc, hp⟩ := malloc_first freshRun.heap 16 mapsUserMemory_mapNext
    ⟨rfl, rfl, rfl⟩ heapIncreaseSize_freshRun (by decide) (by decide)
  obtain ⟨r, s', hex, hsize, -⟩ := (user_heap_contract freshRun_reachable).2.2 mapNext (.malloc 16)
    mapsUserMemory_mapNext trivial
  have hex' : freshRun.exec mapNext (.malloc 16) =
      some (p, ⟨h', HeapRun.grant p freshRun.live⟩) := by rw [exec, hmalloc]; rfl
  obtain ⟨rfl, rfl⟩ := Prod.mk.inj (Option.some.inj (hex'.symm.trans hex))
  exact ⟨p, _, hex, hp, (hsize hp).2 fun num size h => by cases h⟩

/-- A product that wraps around: `calloc(0x80000001, 2)` returns two bytes. -/
theorem user_heap_calloc_wraps : ¬ ∀ s, userHeapSystem.Reachable s → ∀ map op r s',
    MapsUserMemory map → s.Admissible op → s.exec map op = some (r, s') → r ≠ 0 →
      op.request ≤ s'.heap.payloadSize r := by
  intro hall
  obtain ⟨p, h', hmalloc, hp⟩ := malloc_first freshRun.heap 2 mapsUserMemory_mapNext
    ⟨rfl, rfl, rfl⟩ heapIncreaseSize_freshRun (by decide) (by decide)
  have hu : u32 (0x80000001 * 2) = 2 := by decide
  have hex : freshRun.exec mapNext (.calloc 0x80000001 2) =
      some (p, ⟨{ h' with mem := h'.mem.fill p 0 2 }, HeapRun.grant p freshRun.live⟩) := by
    rw [exec, calloc, hu, hmalloc]
    simp only [if_pos hp, Option.map_some]
  have hreq := hall _ freshRun_reachable _ (.calloc 0x80000001 2) _ _ mapsUserMemory_mapNext
    trivial hex hp
  have hlt : ∀ (m : Mem) a, (m.block a).size < 4294967296 := fun m a => Mem.load32_lt _ _
  have hsize := hlt (h'.mem.fill p 0 2) (sub32 p 20)
  have hreq : 0x80000001 * 2 ≤ ((h'.mem.fill p 0 2).block (sub32 p 20)).size := hreq
  omega

end

end Ttos
