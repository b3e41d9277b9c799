/-
  Which block the kernel heap allocates from.

  * `KmallocPolicy`: best fit, the first block in address order of several; the second
    check of the padding never fails.
  * `kmalloc_policy`: `kmalloc` and `kmalloc_a` follow it in every reachable state.
-/
import Ttos.Lib.FirstLeast
import Ttos.Memory.KheapRun

namespace Ttos

/-- The result of an allocation from the blocks `bs`: `NULL` exactly when no block fits,
    and otherwise the first of the smallest blocks that fit is carved. -/
structure KmallocPolicy (h : Kheap) (bs : List Blk) (size : ℕ) (align : Bool)
    (res : Option (ℕ × Kheap)) : Prop where
  null : (∃ h', res = some (0, h')) ↔ ∀ b ∈ bs, ¬ b.Fits size align
  best : (∃ b ∈ bs, b.Fits size align) →
    ∃ b ls rs h', FirstLeast (fun b => b.Fits size align) Blk.size bs b ∧
      bs = ls ++ b :: rs ∧ res = some (b.carved align, h') ∧ b.carved align ≠ 0 ∧
      h'.blocks = some (ls ++ (b.carve size align ++ rs))
  check : ∀ a, h.kheapFindBestFit size align = some a → a ≠ 0 → h.kmallocPad a size align ≠ none

namespace Kheap

variable {base size : ℕ} {align : Bool} {h : Kheap} {bs : List Blk} {s : HeapRun}

theorem better_eq (size : ℕ) (align : Bool) :
    better size align = keepLeast (fun b : Blk => b.Fits size align) Blk.size := by
  ext1 best
  ext1 b
  unfold better keepLeast
  cases best <;> rfl

/-- The search for the best fit is the search for the first least block. -/
theorem bestFit_spec (size : ℕ) (align : Bool) (bs : List Blk) :
    (bestFit size align bs = none ∧ ∀ b ∈ bs, ¬ b.Fits size align) ∨
      ∃ b, bestFit size align bs = some b ∧
        FirstLeast (fun b : Blk => b.Fits size align) Blk.size bs b := by
  rw [bestFit, better_eq]
  exact foldl_keepLeast_spec Blk.size bs

theorem carved_ne_zero (b : Blk) : b.carved align ≠ 0 := by
  unfold Blk.carved
  split
  · simp [Blk.data]
  · simp [Blk.data]

/-- A block that fits passes the check in front of the split. -/
theorem kmallocPad_ne_none (hi : KheapInv base h bs) {b : Blk} (hb : b ∈ bs)
    (hf : b.Fits size align) : h.kmallocPad b.addr size align ≠ none := by
  obtain ⟨ls, rs, rfl⟩ := List.append_of_mem hb
  by_cases ha : align = true ∧ b.data % 4096 ≠ 0
  · obtain ⟨rfl, ha⟩ := ha
    obtain ⟨h', hp, -⟩ := kmallocPad_spec' hi hf ha
    rw [hp]
    exact Option.some_ne_none _
  · rw [kmallocPad_spec hi hf ha]
    exact Option.some_ne_none _

theorem kmallocInt_policy (hi : KheapInv base h bs) (h0 : 0 < size) (align : Bool) :
    KmallocPolicy h bs size align (h.kmallocInt size align) := by
  have he : h.kmallocInt size align = h.kmallocHeap size align := if_pos hi.enabled
  rw [he]
  refine ⟨?_, ?_, fun a ha h0 => ?_⟩
  · rcases bestFit_spec size align bs with ⟨hb, hn⟩ | ⟨b, hb, hl⟩
    · rw [kmallocHeap_eq hi h0.ne', hb]
      exact ⟨fun _ => hn, fun _ => ⟨h, rfl⟩⟩
    · obtain ⟨ls, rs, rfl⟩ := List.append_of_mem hl.mem
      obtain ⟨h', hk, -⟩ := kmallocHeap_carve ls b rs size align hi h0.ne' hb
      rw [hk]
      constructor
      · rintro ⟨h'', heq⟩
        exact absurd (congrArg Prod.fst (Option.some.inj heq)) (carved_ne_zero b)
      · intro hn
        exact absurd hl.sat (hn b hl.mem)
  · rintro ⟨c, hc, hf⟩
    rcases bestFit_spec size align bs with ⟨-, hn⟩ | ⟨b, hb, hl⟩
    · exact absurd hf (hn c hc)
    · obtain ⟨ls, rs, rfl⟩ := List.append_of_mem hl.mem
      obtain ⟨h', hk, hi', -⟩ := kmallocHeap_carve ls b rs size align hi h0.ne' hb
      exact ⟨b, ls, rs, h', hl, rfl, hk, carved_ne_zero b, blocks_eq hi'⟩
  · rw [kheapFindBestFit_eq hi] at ha
    rcases bestFit_spec size align bs with ⟨hb, -⟩ | ⟨b, hb, hl⟩
    · rw [hb] at ha
      exact absurd (Option.some.inj ha).symm h0
    · rw [hb] at ha
      obtain rfl : b.addr = a := Option.some.inj ha
      exact kmallocPad_ne_none hi hl.mem hl.sat

end Kheap

variable {base size : ℕ} {s : HeapRun}

/-- **The allocation policy**, in every reachable state: an allocation returns `NULL`
    only when no free block is large enough, padding included, and otherwise takes the
    first of the smallest that are. -/
theorem kmalloc_policy (hr : (heapSystem base).Reachable s) (h0 : 1 ≤ size) :
    ∃ bs, s.heap.blocks = some bs ∧ KmallocPolicy s.heap bs size false (s.heap.kmalloc size) ∧
      KmallocPolicy s.heap bs size true (s.heap.kmallocA size) := by
  obtain ⟨bs, hi⟩ := HeapRun.reachable_inv hr
  exact ⟨bs, Kheap.blocks_eq hi.good.inv, Kheap.kmallocInt_policy hi.good.inv h0 false,
    Kheap.kmallocInt_policy hi.good.inv h0 true⟩

/-- Two free blocks of the three clients' heap are large enough for 100 bytes. -/
theorem kmalloc_policy_small : ∃ s bs, threeClients = some s ∧ s.heap.blocks = some bs ∧
    KmallocPolicy s.heap bs 100 false (s.heap.kmalloc 100) ∧
      KmallocPolicy s.heap bs 100 true (s.heap.kmallocA 100) := by
  obtain ⟨s, hs, hr, -⟩ := threeClients_reachable
  obtain ⟨bs, hbs, hpolicy⟩ := kmalloc_policy hr (show 1 ≤ 100 by decide)
  exact ⟨s, bs, hs, hbs, hpolicy⟩

end Ttos
