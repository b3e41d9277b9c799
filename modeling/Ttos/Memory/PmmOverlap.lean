/-
  What the clean-up of the memory regions leaves.

  The clean-up works in 32 bits: a region that ends at or above 4 GiB is never
  found to overlap anything, and a region that is cut because it begins inside
  another of its type or a larger one is given a length that wraps.

  * `Settled`: what is left is disjoint, and no region has grown past its entry.
  * `RegionsFit`: the condition on the list that decides whether it will be.
-/
import Ttos.Memory.PmmRegions
import Mathlib.Data.List.Forall2
import Mathlib.Order.Nat

namespace Ttos

namespace PmmMemoryRegion

/-- The end of the region, as an exact integer. -/
def stop (r : PmmMemoryRegion) : ℕ := r.base + r.length

def Contains (r : PmmMemoryRegion) (x : ℕ) : Prop := r.base ≤ x ∧ x < r.stop

def Disjoint (a b : PmmMemoryRegion) : Prop := ∀ x, ¬ (a.Contains x ∧ b.Contains x)

/-- The region is a sub-interval of the entry, as exact integers, of its type. -/
structure Within (r : PmmMemoryRegion) (mmap : MultibootMemoryMap) : Prop where
  addr_le : mmap.addr.toNat ≤ r.base
  stop_le : r.stop ≤ mmap.addr.toNat + mmap.len.toNat
  type_eq : r.type = mmap.type.toNat

theorem disjoint_iff {a b : PmmMemoryRegion} (h : a.base ≤ b.base) :
    a.Disjoint b ↔ a.length = 0 ∨ b.length = 0 ∨ a.stop ≤ b.base := by
  simp only [Disjoint, Contains, stop]
  constructor
  · intro hd
    have := hd b.base
    omega
  · intro hc x hx
    omega

/-- The clean-up never finds an overlap for the region. -/
def Inert (r : PmmMemoryRegion) : Prop := u32 r.stop ≤ r.base

theorem inert_of_empty {r : PmmMemoryRegion} (h : r.length = 0) : r.Inert := by
  rw [Inert, stop, h]
  exact Nat.mod_le _ _

theorem inert_of_stop_ge {r : PmmMemoryRegion} (h : 4294967296 ≤ r.stop)
    (hl : r.length < 4294967296) : r.Inert := by
  unfold Inert u32
  simp only [stop] at *
  omega

/-- The region as the clean-up leaves it when it begins inside `r` and is not of a
    larger type. -/
def overwrite (r q : PmmMemoryRegion) : PmmMemoryRegion :=
  { q with length := sub32 r.base q.base }

theorem overwrite_length_eq {r q : PmmMemoryRegion} (h : q.base = r.base) :
    (r.overwrite q).length = 0 := by
  simp only [overwrite, sub32, u32]
  omega

theorem overwrite_length_lt {r q : PmmMemoryRegion} (h : r.base < q.base)
    (hq : q.base < 4294967296) : (r.overwrite q).length = r.base + 4294967296 - q.base := by
  simp only [overwrite, sub32, u32]
  omega

/-- The region, ended where the next one begins that is of a larger type. -/
def shorten (r : PmmMemoryRegion) : List PmmMemoryRegion → PmmMemoryRegion
  | [] => r
  | next :: _ => if next.base < r.stop then { r with length := next.base - r.base } else r

end PmmMemoryRegion

open PmmMemoryRegion

/-! ## One region -/

section
variable {r : PmmMemoryRegion} {rest covered : List PmmMemoryRegion}

theorem adjust_of_le (h : ∀ q ∈ rest, u32 r.stop ≤ q.base) :
    adjustOverlaps r rest = (r, rest) := by
  induction rest with
  | nil => rfl
  | cons q rest ih =>
    have hq : ¬ u32 (r.base + r.length) > q.base := not_lt.2 (h q (by simp))
    rw [adjustOverlaps, if_neg hq, ih fun x hx => h x (by simp [hx])]

theorem adjust_inert (hr : r.Inert) (h : ∀ q ∈ rest, r.base ≤ q.base) :
    adjustOverlaps r rest = (r, rest) :=
  adjust_of_le fun q hq => le_trans hr (h q hq)

/-- The regions the clean-up overwrites because of `r`. -/
theorem adjust_covered (hs : r.stop < 4294967296)
    (h : ∀ q ∈ covered, q.base < r.stop ∧ q.type ≤ r.type) :
    adjustOverlaps r (covered ++ rest) =
      ((adjustOverlaps r rest).1, covered.map r.overwrite ++ (adjustOverlaps r rest).2) := by
  induction covered with
  | nil => rfl
  | cons q covered ih =>
    obtain ⟨h1, h2⟩ := h q (by simp)
    have hq : u32 (r.base + r.length) > q.base := by
      have hu : u32 (r.base + r.length) = r.stop := u32_of_lt hs
      rwa [hu]
    rw [List.cons_append, adjustOverlaps, if_pos hq, if_neg (not_lt.2 h2),
      ih fun x hx => h x (by simp [hx])]
    rfl

/-- Behind them nothing changes, but `r` may end earlier. -/
theorem adjust_shorten (hs : r.stop < 4294967296) (hp : rest.Pairwise fun a b => a.base ≤ b.base)
    (hb : ∀ q ∈ rest, r.base ≤ q.base)
    (h : ∀ q tail, rest = q :: tail → q.base < r.stop → r.type < q.type) :
    adjustOverlaps r rest = (r.shorten rest, rest) := by
  have hu : u32 (r.base + r.length) = r.stop := u32_of_lt hs
  cases rest with
  | nil => rfl
  | cons q tail =>
    obtain ⟨hq, -⟩ := List.pairwise_cons.1 hp
    by_cases hlt : q.base < r.stop
    · have h1 : u32 (r.base + r.length) > q.base := by rwa [hu]
      have h2 : sub32 q.base r.base = q.base - r.base :=
        sub32_of_le (hb q (by simp)) (by omega)
      have h3 : adjustOverlaps { r with length := q.base - r.base } tail
          = ({ r with length := q.base - r.base }, tail) := by
        refine adjust_of_le fun x hx => (Nat.mod_le _ _).trans ?_
        have h4 := hq x hx
        have h5 := hb q (by simp)
        show r.base + (q.base - r.base) ≤ x.base
        omega
      rw [adjustOverlaps, if_pos h1, if_pos (h q tail rfl hlt), h2, h3, shorten, if_pos hlt]
    · have h3 : adjustOverlaps r (q :: tail) = (r, q :: tail) := by
        refine adjust_of_le fun x hx => ?_
        have h4 : u32 r.stop = r.stop := u32_of_lt hs
        rcases List.mem_cons.1 hx with rfl | hx
        · omega
        · have := hq x hx
          omega
      rw [h3, shorten, if_neg hlt]

theorem adjust_bases (r : PmmMemoryRegion) (rest : List PmmMemoryRegion) :
    (adjustOverlaps r rest).1.base = r.base ∧
    (adjustOverlaps r rest).1.type = r.type ∧
    (adjustOverlaps r rest).2.map (fun q => (q.base, q.type)) = rest.map fun q => (q.base, q.type) := by
  induction rest generalizing r with
  | nil => exact ⟨rfl, rfl, rfl⟩
  | cons q rest ih =>
    rw [adjustOverlaps]
    split_ifs
    · obtain ⟨h1, h2, h3⟩ := ih { r with length := sub32 q.base r.base }
      exact ⟨h1, h2, by simp [h3]⟩
    · obtain ⟨h1, h2, h3⟩ := ih r
      exact ⟨h1, h2, by simp [h3]⟩
    · obtain ⟨h1, h2, h3⟩ := ih r
      exact ⟨h1, h2, by simp [h3]⟩

end

/-! ## The list -/

theorem cleanUpFrom_bases : ∀ (n : ℕ) (rs : List PmmMemoryRegion), rs.length = n →
    (cleanUpFrom n rs).map (fun q => (q.base, q.type)) = rs.map fun q => (q.base, q.type)
  | 0, [], _ => rfl
  | n + 1, r :: rs, h => by
    obtain ⟨h1, h2, h3⟩ := adjust_bases r rs
    have hl : (adjustOverlaps r rs).2.length = n := by
      have := congrArg List.length h3
      simp only [List.length_map, List.length_cons] at this h
      omega
    rw [cleanUpFrom, List.map_cons, List.map_cons, cleanUpFrom_bases n _ hl, h1, h2, h3]

theorem mem_cleanUpFrom {n : ℕ} {rs : List PmmMemoryRegion} (h : rs.length = n)
    {x : PmmMemoryRegion} (hx : x ∈ cleanUpFrom n rs) : ∃ q ∈ rs, q.base = x.base := by
  have hm : (x.base, x.type) ∈ rs.map fun q => (q.base, q.type) := by
    rw [← cleanUpFrom_bases n rs h]
    exact List.mem_map_of_mem hx
  obtain ⟨q, hq, he⟩ := List.mem_map.1 hm
  exact ⟨q, hq, (Prod.mk.inj he).1⟩

/-- Inert regions in front stay as they are. -/
theorem cleanUpFrom_inert (n : ℕ) (rest : List PmmMemoryRegion) :
    ∀ front : List PmmMemoryRegion, (∀ r ∈ front, r.Inert) →
      (front ++ rest).Pairwise (fun a b => a.base ≤ b.base) →
      cleanUpFrom (front.length + n) (front ++ rest) = front ++ cleanUpFrom n rest
  | [], _, _ => by simp
  | r :: front, h, hp => by
    rw [List.cons_append, List.pairwise_cons] at hp
    have hadj := adjust_inert (h r (by simp)) hp.1
    rw [List.cons_append, List.length_cons, Nat.add_right_comm, cleanUpFrom, hadj,
      cleanUpFrom_inert n rest front (fun x hx => h x (by simp [hx])) hp.2]
    rfl

/-! ## What is left -/

/-- No two regions overlap, and none is longer than its entry. -/
structure Settled (regions : List PmmMemoryRegion) (entries : List MultibootMemoryMap) : Prop where
  disjoint : regions.Pairwise Disjoint
  length_le : List.Forall₂ (fun r mmap => r.length ≤ mmap.len.toNat) regions entries

theorem settled_cons {r : PmmMemoryRegion} {mmap : MultibootMemoryMap}
    {rs : List PmmMemoryRegion} {es : List MultibootMemoryMap} :
    Settled (r :: rs) (mmap :: es) ↔
      (∀ q ∈ rs, r.Disjoint q) ∧ r.length ≤ mmap.len.toNat ∧ Settled rs es := by
  constructor
  · intro h
    obtain ⟨h1, h2⟩ := List.pairwise_cons.1 h.disjoint
    obtain ⟨h3, h4⟩ := List.forall₂_cons.1 h.length_le
    exact ⟨h1, h3, h2, h4⟩
  · rintro ⟨h1, h3, h2, h4⟩
    exact ⟨.cons h1 h2, .cons h3 h4⟩

/-- A region of the list with the entry it was created for. -/
structure ListedRegion where
  region : PmmMemoryRegion
  entry : MultibootMemoryMap

def MultibootMemoryMap.listed (mmap : MultibootMemoryMap) : ListedRegion := ⟨mmap.region, mmap⟩

namespace ListedRegion

/-- `q` as the clean-up leaves it when `r` overwrites it. -/
def overwrite (r : PmmMemoryRegion) (q : ListedRegion) : ListedRegion :=
  { q with region := r.overwrite q.region }

end ListedRegion

abbrev regionsOf (xs : List ListedRegion) : List PmmMemoryRegion := xs.map (·.region)

abbrev entriesOf (xs : List ListedRegion) : List MultibootMemoryMap := xs.map (·.entry)

/-! ## Lists that fit -/

/-- The region is not empty, and of a larger type than the ones in front of it
    that begin where it does. -/
def Prevails (front : List ListedRegion) (r : PmmMemoryRegion) : Prop :=
  r.length ≠ 0 ∧
    ∀ q ∈ front, q.region.base = r.base → q.region.length ≠ 0 → q.region.type < r.type

/-- The regions behind `r` that begin inside it, up to the first of a larger type. -/
def covered (r : PmmMemoryRegion) (behind : List ListedRegion) : List ListedRegion :=
  behind.takeWhile fun q => q.region.base < r.stop ∧ q.region.type ≤ r.type

/-- Of the regions behind `r` that do not begin where it does, the first has an
    entry that reaches 4 GiB behind the base of `r`; the next begins at the same
    address and is of a larger type than `r`; and from it on all are empty. -/
def CoversLast (r : PmmMemoryRegion) (behind : List ListedRegion) : Prop :=
  ∃ q next tail, behind.dropWhile (fun q => q.region.base = r.base) = q :: next :: tail ∧
    next.region.base = q.region.base ∧ r.type < next.region.type ∧
    (∀ x ∈ next :: tail, x.region.length = 0) ∧
    r.base + 4294967296 ≤ q.region.base + q.entry.len.toNat

/-- The region covers only regions that begin where it does, and one that ends at
    or above 4 GiB has only empty ones behind it. -/
def Spares (r : PmmMemoryRegion) (behind : List ListedRegion) : Prop :=
  if r.stop < 4294967296 then
    (∀ q ∈ covered r behind, q.region.base = r.base) ∨ CoversLast r behind
  else ∀ q ∈ behind, q.region.length = 0

/-- Every region that prevails spares the ones behind it. -/
def RegionsFit (front : List ListedRegion) : List ListedRegion → Prop
  | [] => True
  | q :: behind => (Prevails front q.region → Spares q.region behind) ∧ RegionsFit (front ++ [q]) behind

/-- In the order of the sort; and an empty region does not come, with a larger type,
    behind one that is not empty and begins where it does. -/
structure Ordered (xs : List ListedRegion) : Prop where
  follows : xs.Pairwise fun a b => a.region.base ≤ b.region.base ∧
    (a.region.base = b.region.base → a.region.length ≠ 0 → b.region.length = 0 →
      b.region.type ≤ a.region.type)
  bound : ∀ q ∈ xs, q.region.base < 4294967296 ∧ q.region.length < 4294967296 ∧
    q.region.length ≤ q.entry.len.toNat

section
variable {front front' xs ys covd rest : List ListedRegion} {q : ListedRegion}
  {r : PmmMemoryRegion}

theorem Ordered.tail (h : Ordered (q :: xs)) : Ordered xs :=
  ⟨(List.pairwise_cons.1 h.follows).2, fun x hx => h.bound x (by simp [hx])⟩

theorem Ordered.right (h : Ordered (xs ++ ys)) : Ordered ys :=
  ⟨(List.pairwise_append.1 h.follows).2.1, fun x hx => h.bound x (by simp [hx])⟩

theorem Ordered.base_le (h : Ordered (q :: xs)) {x : ListedRegion} (hx : x ∈ xs) :
    q.region.base ≤ x.region.base := ((List.pairwise_cons.1 h.follows).1 x hx).1

theorem Ordered.bases (h : Ordered xs) :
    (regionsOf xs).Pairwise fun a b => a.base ≤ b.base :=
  List.pairwise_map.2 (h.follows.imp And.left)

theorem prevails_append : Prevails (front ++ [q]) r ↔ Prevails front r ∧
    (q.region.base = r.base → q.region.length ≠ 0 → q.region.type < r.type) := by
  simp only [Prevails, List.mem_append, List.mem_singleton]
  constructor
  · rintro ⟨h1, h2⟩
    exact ⟨⟨h1, fun x hx => h2 x (Or.inl hx)⟩, h2 q (Or.inr rfl)⟩
  · rintro ⟨⟨h1, h2⟩, h3⟩
    refine ⟨h1, fun x hx => ?_⟩
    rcases hx with hx | rfl
    · exact h2 x hx
    · exact h3

theorem fits_congr (h : ∀ q ∈ xs, Prevails front q.region ↔ Prevails front' q.region) :
    RegionsFit front xs ↔ RegionsFit front' xs := by
  induction xs generalizing front front' with
  | nil => exact Iff.rfl
  | cons q xs ih =>
    rw [RegionsFit, RegionsFit, h q (by simp)]
    refine and_congr_right fun _ => ih fun x hx => ?_
    rw [prevails_append, prevails_append, h x (by simp [hx])]

/-- Nothing prevails that is empty, or behind one as large that begins where it does. -/
def Hidden (front : List ListedRegion) (r : PmmMemoryRegion) : Prop :=
  r.length = 0 ∨
    ∃ q ∈ front, q.region.base = r.base ∧ q.region.length ≠ 0 ∧ r.type ≤ q.region.type

theorem Hidden.not_prevails (h : Hidden front r) : ¬ Prevails front r := by
  rintro ⟨h1, h2⟩
  rcases h with h | ⟨q, hq, hb, hl, ht⟩
  · exact h1 h
  · exact absurd (h2 q hq hb hl) (not_lt.2 ht)

theorem Hidden.append (h : Hidden front r) : Hidden (front ++ ys) r := by
  rcases h with h | ⟨q, hq, hc⟩
  · exact Or.inl h
  · exact Or.inr ⟨q, List.mem_append_left _ hq, hc⟩

theorem fits_append_hidden (h : ∀ q ∈ xs, Hidden front q.region) :
    RegionsFit front (xs ++ ys) ↔ RegionsFit (front ++ xs) ys := by
  induction xs generalizing front with
  | nil => simp
  | cons q xs ih =>
    have hq := (h q (by simp)).not_prevails
    have hx : RegionsFit (front ++ [q]) (xs ++ ys) ↔ RegionsFit (front ++ [q] ++ xs) ys :=
      ih fun x hx => (h x (by simp [hx])).append
    rw [List.cons_append, RegionsFit, hx, List.append_assoc, List.singleton_append]
    exact and_iff_right fun hp => absurd hp hq

/-- Empty regions in front do not matter. -/
theorem fits_of_empty (h : ∀ q ∈ front, q.region.length = 0) : RegionsFit front xs ↔ RegionsFit [] xs := by
  refine fits_congr fun q hq => ⟨fun hp => ⟨hp.1, by simp⟩, fun hp => ⟨hp.1, ?_⟩⟩
  intro x hx _ hl
  exact absurd (h x hx) hl

theorem fits_all_empty (h : ∀ q ∈ xs, q.region.length = 0) : RegionsFit front xs := by
  have hx : RegionsFit front (xs ++ []) ↔ RegionsFit (front ++ xs) [] :=
    fits_append_hidden fun q hq => Or.inl (h q hq)
  rw [List.append_nil] at hx
  exact hx.2 trivial

end

end Ttos
