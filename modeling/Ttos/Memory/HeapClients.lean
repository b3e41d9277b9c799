/-
  The blocks one client of the heap holds, while others work with the heap and
  when they are released.

  * `HeapRun.spared_run`: calls that leave the client's blocks alone keep them,
    every byte of them.
  * `Kheap.freeAll_restores`: releasing what was allocated restores the block list.
-/
import Ttos.Memory.KheapRun

namespace Ttos

variable {base : ℕ}

namespace HeapRun

/-- The call frees, reallocates or writes none of the blocks `kept`. -/
def Spares (kept : List ℕ) (s : HeapRun) (op : HeapOp) : Prop :=
  op.target ∉ kept ∧
    ∀ addr v, op = .write addr v → ∀ p ∈ kept, addr < p ∨ p + s.heap.payloadSize p ≤ addr

/-- A step of another client. -/
def SparingStep (kept : List ℕ) (s s' : HeapRun) : Prop :=
  ∃ op, s.Admissible op ∧ s.Spares kept op ∧ ∃ r, s.exec op = some (r, s')

variable {s s' : HeapRun} {bs : List Blk} {kept : List ℕ}

theorem spared_step (hi : s.Inv base bs) (h : SparingStep kept s s') :
    ∃ bs', s'.Inv base bs' ∧ ∀ b ∈ allocated bs, b.data ∈ kept →
      b ∈ allocated bs' ∧ ∀ x, b.data ≤ x → x < b.stop → s'.heap.mem x = s.heap.mem x := by
  obtain ⟨op, ha, ⟨htarget, hwrite⟩, r, hex⟩ := h
  obtain ⟨r', s'', bs', hex', hspec⟩ := exec_spec hi ha
  rw [hex] at hex'
  obtain ⟨rfl, rfl⟩ := Prod.mk.inj (Option.some.inj hex')
  refine ⟨bs', hspec.inv, fun b hb hk => ?_⟩
  have hne : b.data ≠ op.target := fun h => htarget (h ▸ hk)
  refine ⟨hspec.kept b hb hne, fun x h1 h2 => ?_⟩
  by_cases hw : ∃ addr v, op = .write addr v
  · obtain ⟨addr, v, rfl⟩ := hw
    have hout := hwrite addr v rfl b.data hk
    rw [Inv.payloadSize_eq hi.good (mem_allocated.1 hb).1] at hout
    obtain ⟨-, rfl⟩ := Prod.mk.inj (Option.some.inj hex)
    refine Mem.store8_out ?_
    rintro rfl
    simp only [Blk.data, Blk.stop] at h1 h2 hout
    omega
  · exact hspec.frame (fun addr v h => hw ⟨addr, v, h⟩) b hb hne x h1 h2

/-- **What other clients do leaves the blocks `kept` as they are.** -/
theorem spared_run (hi : s.Inv base bs) (h : Relation.ReflTransGen (SparingStep kept) s s') :
    ∃ bs', s'.Inv base bs' ∧ ∀ b ∈ allocated bs, b.data ∈ kept →
      b ∈ allocated bs' ∧ ∀ x, b.data ≤ x → x < b.stop → s'.heap.mem x = s.heap.mem x := by
  induction h with
  | refl => exact ⟨bs, hi, fun b hb _ => ⟨hb, fun _ _ _ => rfl⟩⟩
  | tail _ hstep ih =>
    obtain ⟨bs₁, hi₁, hk₁⟩ := ih
    obtain ⟨bs₂, hi₂, hk₂⟩ := spared_step hi₁ hstep
    refine ⟨bs₂, hi₂, fun b hb hk => ?_⟩
    obtain ⟨hb₁, hm₁⟩ := hk₁ b hb hk
    obtain ⟨hb₂, hm₂⟩ := hk₂ b hb₁ hk
    exact ⟨hb₂, fun x h1 h2 => (hm₂ x h1 h2).trans (hm₁ x h1 h2)⟩

end HeapRun

/-! ## Releasing -/

namespace Kheap

/-- `h'` is the heap `h` with the blocks at `ptrs` released: the other blocks in use are those of
`h`, and the free blocks are the gaps between them. -/
def Released (base : ℕ) (h : Kheap) (ptrs : List ℕ) (h' : Kheap) : Prop :=
  ∃ bs bs', h.blocks = some bs ∧ h'.blocks = some bs' ∧
    (∀ p ∈ ptrs, ∃ b ∈ bs, b.free = false ∧ b.data = p) ∧
    (∀ b, b.free = false → (b ∈ bs' ↔ b ∈ bs ∧ b.data ∉ ptrs)) ∧
    ∀ p q, (∃ b ∈ bs', b.free = true ∧ b.addr = p ∧ b.stop = q) ↔
      Gap (allocated bs') base (base + kheapHeapSize) p q

variable {h h' : Kheap} {bs bs' cs : List Blk} {ptrs : List ℕ}

theorem gaps_of_good (hg : KheapGood base h bs) (p q : ℕ) :
    (∃ b ∈ bs, b.free = true ∧ b.addr = p ∧ b.stop = q) ↔
      Gap (allocated bs) base (base + kheapHeapSize) p q := by
  rw [allocated, ← hg.inv.tiles.unused_iff hg.coalesced]
  simp only [Piece.used, Piece.lo, Piece.hi, Bool.not_eq_eq_eq_not, Bool.not_false]

theorem released_of_perm (hg : KheapGood base h bs) (hg' : KheapGood base h' bs')
    (hin : ∀ p ∈ ptrs, p ∈ (allocated bs).map Blk.data)
    (hp : (allocated bs').Perm ((allocated bs).filter fun b => b.data ∉ ptrs)) :
    Released base h ptrs h' := by
  refine ⟨bs, bs', blocks_eq hg.inv, blocks_eq hg'.inv, fun p hptr => ?_, fun b hb => ?_,
    gaps_of_good hg'⟩
  · obtain ⟨b, hb, rfl⟩ := List.mem_map.1 (hin p hptr)
    obtain ⟨hb, hf⟩ := mem_allocated.1 hb
    exact ⟨b, hb, hf, rfl⟩
  · have hmem := hp.mem_iff (a := b)
    rw [List.mem_filter, mem_allocated, mem_allocated, decide_eq_true_iff] at hmem
    constructor
    · intro h1
      exact ⟨(hmem.1 ⟨h1, hb⟩).1.1, (hmem.1 ⟨h1, hb⟩).2⟩
    · intro h1
      exact (hmem.2 ⟨⟨h1.1, hb⟩, h1.2⟩).1

theorem freeAll_released (hg : KheapGood base h bs) (hn : ptrs.Nodup)
    (hin : ∀ p ∈ ptrs, p ∈ (allocated bs).map Blk.data) :
    Released base h ptrs (h.freeAll ptrs) := by
  obtain ⟨bs', hg', hp⟩ := freeAll_good hg hn hin
  exact released_of_perm hg hg' hin hp

/-- The blocks in use but for the new ones `cs` are the old ones. -/
theorem filter_new (hg : KheapGood base h bs) (hp : (allocated bs).Perm (cs ++ allocated bs')) :
    ((allocated bs).filter fun b => b.data ∉ cs.map Blk.data).Perm (allocated bs') := by
  have hn := HeapRun.Inv.nodup hg
  rw [(hp.map Blk.data).nodup_iff, List.map_append, List.nodup_append] at hn
  refine (hp.filter _).trans ?_
  have hcs : cs.filter (fun b => b.data ∉ cs.map Blk.data) = [] := by
    refine List.filter_eq_nil_iff.2 fun b hb => ?_
    rw [decide_eq_true_iff, not_not]
    exact List.mem_map_of_mem hb
  have hold : (allocated bs').filter (fun b => b.data ∉ cs.map Blk.data) = allocated bs' := by
    refine List.filter_eq_self.2 fun b hb => ?_
    rw [decide_eq_true_iff]
    exact fun hb' => hn.2.2 _ hb' _ (List.mem_map_of_mem hb) rfl
  rw [List.filter_append, hcs, hold, List.nil_append]

/-- What is in use before an allocation and after it. -/
theorem new_nodup (hg : KheapGood base h bs) (hp : (allocated bs).Perm (cs ++ allocated bs')) :
    (cs.map Blk.data).Nodup ∧ ∀ p ∈ cs.map Blk.data, p ∈ (allocated bs).map Blk.data := by
  have hn := HeapRun.Inv.nodup hg
  have hperm := hp.map Blk.data
  rw [List.map_append] at hperm
  rw [hperm.nodup_iff, List.nodup_append] at hn
  exact ⟨hn.1, fun p hptr => hperm.mem_iff.2 (List.mem_append_left _ hptr)⟩

/-- **Releasing what was allocated restores the block list.** -/
theorem freeAll_restores (hg : KheapGood base h bs) (hg' : KheapGood base h' bs')
    (hp : (allocated bs).Perm (cs ++ allocated bs')) :
    (h.freeAll (cs.map Blk.data)).blocks = some bs' := by
  obtain ⟨hn, hin⟩ := new_nodup hg hp
  obtain ⟨bs₁, hg₁, hp₁⟩ := freeAll_good hg hn hin
  rw [blocks_eq hg₁.inv, hg₁.canonical hg' (hp₁.trans (filter_new hg hp))]

/-- An allocation changes nothing outside the heap. -/
theorem kmallocInt_outside (hg : KheapGood base h bs) {size : ℕ} {align : Bool} {ptr : ℕ}
    (hk : kmallocInt h size align = some (ptr, h')) {x : ℕ}
    (hx : x < base ∨ base + kheapHeapSize ≤ x) : h'.mem x = h.mem x := by
  have he : kmallocInt h size align = kmallocHeap h size align := if_pos hg.inv.enabled
  rw [he] at hk
  rcases kmallocHeap_spec hg.inv size align with ⟨h1, -⟩ | ⟨ls, b, rs, h₁, rfl, -, -, h1, hi', hout⟩
  · rw [h1] at hk
    obtain ⟨-, rfl⟩ := Prod.mk.inj (Option.some.inj hk)
    rfl
  · rw [h1] at hk
    obtain ⟨-, rfl⟩ := Prod.mk.inj (Option.some.inj hk)
    refine hout x fun c hc => ?_
    have := hi'.mem_range (List.mem_append_right _ hc)
    omega

end Kheap

end Ttos
