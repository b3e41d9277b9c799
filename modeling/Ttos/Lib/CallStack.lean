/-
  A call stack that is spread over its activations.

  Every activation points to its caller, and a caller that waits holds what it
  needs to go on.  `Frames` says that following the caller pointers from an
  activation meets exactly the frames of a stack, and ends at `nil`.

  * `Frames.congr`: frames are kept by whatever leaves their activations alone.
  * `Frames.chain`: the activations form a chain of caller pointers.
-/
import Mathlib.Data.List.Chain

namespace Ttos

variable {ι ρ : Type*}

/-- The activations of a call stack: whom each was called by, whether it waits,
    and what it goes on with. -/
structure Activations (ι ρ : Type*) where
  caller : ι → ι
  waits : ι → Prop
  saved : ι → ρ
  nil : ι

namespace Activations

variable {A B : Activations ι ρ}

/-- The stack of waiting callers found from the activation `p`. -/
def Frames (A : Activations ι ρ) : ι → List (ι × ρ) → Prop
  | p, [] => A.caller p = A.nil
  | p, (q, r) :: fs => A.caller p = q ∧ q ≠ A.nil ∧ A.waits q ∧ A.saved q = r ∧ A.Frames q fs

theorem Frames.congr : ∀ {fs : List (ι × ρ)} {p : ι}, A.Frames p fs → B.nil = A.nil →
    B.caller p = A.caller p →
    (∀ q ∈ fs.map Prod.fst, B.caller q = A.caller q ∧ (A.waits q → B.waits q) ∧ B.saved q = A.saved q) →
    B.Frames p fs
  | [], _, h, hnil, hp, _ => hp.trans (h.trans hnil.symm)
  | (q, _) :: _, _, ⟨h1, h2, h3, h4, h5⟩, hnil, hp, hfs => by
    obtain ⟨hc, hw, hs⟩ := hfs q (by simp)
    refine ⟨hp.trans h1, hnil ▸ h2, hw h3, hs.trans h4, h5.congr hnil hc fun q' hq' => ?_⟩
    exact hfs q' (List.mem_cons_of_mem _ hq')

theorem Frames.waits_of_mem : ∀ {fs : List (ι × ρ)} {p : ι}, A.Frames p fs →
    ∀ q ∈ fs.map Prod.fst, A.waits q ∧ q ≠ A.nil
  | (_, _) :: _, _, ⟨_, h2, h3, _, h5⟩, q', hq' => by
    rcases List.mem_cons.1 hq' with rfl | hq'
    · exact ⟨h3, h2⟩
    · exact h5.waits_of_mem q' hq'

/-- Following the caller pointers meets the frames one after the other. -/
theorem Frames.chain : ∀ {fs : List (ι × ρ)} {p : ι}, A.Frames p fs →
    (p :: fs.map Prod.fst).IsChain (fun p q => A.caller p = q)
  | [], p, _ => List.isChain_singleton p
  | (_, _) :: _, _, ⟨h1, _, _, _, h5⟩ => List.isChain_cons_cons.2 ⟨h1, h5.chain⟩

/-- The last activation was called by nobody. -/
theorem Frames.root : ∀ {fs : List (ι × ρ)} {p : ι}, A.Frames p fs →
    ∀ q ∈ (p :: fs.map Prod.fst).getLast?, A.caller q = A.nil
  | [], p, h, q, hq => by
    obtain rfl : p = q := by simpa using hq
    exact h
  | (_, _) :: _, _, ⟨_, _, _, _, h5⟩, q, hq =>
    h5.root q (by simpa [List.getLast?_cons_cons] using hq)

end Activations

end Ttos
