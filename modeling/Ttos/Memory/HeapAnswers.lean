/-
  The block list decides what the heap answers.

  Two heaps with the same block list differ in the bytes of the payloads only.
  They return the same pointers, and have the same block list afterwards:
  `Kheap.kmalloc_agrees`, `Kheap.krealloc_agrees`.
-/
import Ttos.Memory.KheapCalls

namespace Ttos.Kheap

variable {base size : ℕ} {h h₂ : Kheap} {bs : List Blk} {b : Blk}

/-- An allocation on two heaps with the same blocks. -/
theorem kmalloc_agrees (hg : KheapGood base h bs) (hg₂ : KheapGood base h₂ bs) (size : ℕ) :
    (kmallocInt h size false = some (0, h) ∧ kmallocInt h₂ size false = some (0, h₂)) ∨
      ∃ c h' h₂' bs', kmallocInt h size false = some (c.data, h') ∧
        kmallocInt h₂ size false = some (c.data, h₂') ∧
        KheapGood base h' bs' ∧ KheapGood base h₂' bs' ∧
        (allocated bs').Perm (c :: allocated bs) ∧ size ≤ c.size := by
  have he : kmallocInt h size false = kmallocHeap h size false := if_pos hg.inv.enabled
  have he₂ : kmallocInt h₂ size false = kmallocHeap h₂ size false := if_pos hg₂.inv.enabled
  rw [he, he₂]
  by_cases h0 : size = 0
  · left
    simp [kmallocHeap, h0]
  cases hb : bestFit size false bs with
  | none =>
    left
    rw [kmallocHeap_eq hg.inv h0, kmallocHeap_eq hg₂.inv h0, hb]
    exact ⟨rfl, rfl⟩
  | some b =>
    obtain ⟨hmem, hf⟩ : b ∈ bs ∧ b.Fits size false := by simpa using foldl_better_mem hb
    obtain ⟨ls, rs, rfl⟩ := List.append_of_mem hmem
    obtain ⟨h', hk, hi', hout⟩ := kmallocHeap_carve ls b rs size false hg.inv h0 hb
    obtain ⟨h₂', hk₂, hi₂', hout₂⟩ := kmallocHeap_carve ls b rs size false hg₂.inv h0 hb
    obtain ⟨hg', hp, hs, -⟩ := hg.heap.carve (Nat.pos_of_ne_zero h0) hf hi'.heap hout
    obtain ⟨hg₂', -⟩ := hg₂.heap.carve (Nat.pos_of_ne_zero h0) hf hi₂'.heap hout₂
    refine Or.inr ⟨b.taken size false, h', h₂', _, ?_, ?_, hg'.kheap, hg₂'.kheap, hp, hs⟩
    · rw [hk, Blk.taken_data]
    · rw [hk₂, Blk.taken_data]

/-- A reallocation on two heaps with the same blocks. -/
theorem krealloc_agrees (hg : KheapGood base h bs) (hg₂ : KheapGood base h₂ bs)
    (hb : b ∈ Ttos.allocated bs) (h0 : 0 < size) :
    (krealloc h b.data size = some (0, h) ∧ krealloc h₂ b.data size = some (0, h₂)) ∨
      ∃ c h' h₂' bs', krealloc h b.data size = some (c.data, h') ∧
        krealloc h₂ b.data size = some (c.data, h₂') ∧
        KheapGood base h' bs' ∧ KheapGood base h₂' bs' ∧ c ∈ Ttos.allocated bs' ∧ size ≤ c.size ∧
        ∀ i < b.size, h₂'.mem (c.data + i) = h₂.mem (b.data + i) := by
  by_cases hs : size ≤ b.size
  · obtain ⟨r, h', heq, -, hsmall, -⟩ := krealloc_cases hg hb size
    obtain ⟨r₂, h₂', heq₂, -, hsmall₂, -⟩ := krealloc_cases hg₂ hb size
    obtain ⟨rfl, rfl⟩ := hsmall h0 hs
    obtain ⟨rfl, rfl⟩ := hsmall₂ h0 hs
    exact Or.inr ⟨b, h', h₂', bs, heq, heq₂, hg, hg₂, hb, hs, fun _ _ => rfl⟩
  rcases kmalloc_agrees hg hg₂ size with ⟨hk, hk₂⟩ | ⟨c, h₁, h₃, bs₁, hk, hk₂, hg₁, hg₃, hp, hcs⟩
  · exact Or.inl ⟨krealloc_null hg hb (not_le.1 hs) hk, krealloc_null hg₂ hb (not_le.1 hs) hk₂⟩
  · obtain ⟨heq, hmoved⟩ := krealloc_move hg hb (not_le.1 hs) hk hg₁ hp hcs
    obtain ⟨heq₂, hmoved₂⟩ := krealloc_move hg₂ hb (not_le.1 hs) hk₂ hg₃ hp hcs
    have hb₁ : b ∈ Ttos.allocated bs₁ := hp.mem_iff.2 (List.mem_cons_of_mem _ hb)
    obtain ⟨bs', hg', hp', -⟩ := kfree_good hmoved hb₁
    obtain ⟨bs₂', hg₂', hp₂', -⟩ := kfree_good hmoved₂ hb₁
    obtain rfl : bs' = bs₂' := hg'.canonical hg₂' (hp'.symm.trans hp₂').cons_inv
    have hcb : c ≠ b := by
      rintro rfl
      omega
    have hc : c ∈ Ttos.allocated bs' := by
      have := hp'.mem_iff.1 (hp.mem_iff.2 List.mem_cons_self)
      exact (List.mem_cons.1 this).resolve_left hcb
    refine Or.inr ⟨c, _, _, bs', heq, heq₂, hg', hg₂', hc, hcs, ?_⟩
    rcases krealloc_grow hg₂ hb (not_le.1 hs) with hn | ⟨c₂, h₄, bs₄, heq₄, -, -, -, -, hdata, -⟩
    · rw [heq₂, Option.some.injEq, Prod.mk.injEq] at hn
      exact absurd hn.1 (by simp [Blk.data])
    · rw [heq₂, Option.some.injEq, Prod.mk.injEq] at heq₄
      rw [heq₄.2, heq₄.1]
      exact hdata

end Ttos.Kheap
