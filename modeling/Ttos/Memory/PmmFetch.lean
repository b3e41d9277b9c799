/-
  When the list of memory regions is what the memory map says.

  * `settled_cleanUp`: the clean-up of an ordered list leaves it settled exactly
    if the list fits.
  * `fetched_regions`: so the list built for a memory map is sorted, disjoint and
    within the map exactly if the map fits.
-/
import Ttos.Memory.PmmOverlap
import Ttos.Memory.KernelHeap
import Mathlib.Data.List.TakeWhile

namespace Ttos

open PmmMemoryRegion

variable {xs ys covd rest behind : List ListedRegion} {q : ListedRegion} {r : PmmMemoryRegion}

/-! ## The regions behind one -/

theorem mem_covered {x : ListedRegion} (h : x ∈ covered r behind) :
    x.region.base < r.stop ∧ x.region.type ≤ r.type := by
  have hp := List.mem_takeWhile_imp h
  exact of_decide_eq_true hp

/-- The regions behind the covered ones. -/
def uncovered (r : PmmMemoryRegion) (behind : List ListedRegion) : List ListedRegion :=
  behind.dropWhile fun q => q.region.base < r.stop ∧ q.region.type ≤ r.type

theorem covered_append_uncovered (r : PmmMemoryRegion) (behind : List ListedRegion) :
    covered r behind ++ uncovered r behind = behind :=
  List.takeWhile_append_dropWhile

theorem uncovered_head {tail : List ListedRegion} (h : uncovered r behind = q :: tail)
    (hq : q.region.base < r.stop) : r.type < q.region.type := by
  have hp := List.head?_dropWhile_not
    (fun q : ListedRegion => decide (q.region.base < r.stop ∧ q.region.type ≤ r.type)) behind
  rw [uncovered] at h
  rw [h] at hp
  have hn := of_decide_eq_false hp
  omega

theorem regions_uncovered_head {r' : PmmMemoryRegion} {tail : List PmmMemoryRegion}
    (h : regionsOf (uncovered r behind) = r' :: tail) (hr : r'.base < r.stop) :
    r.type < r'.type := by
  obtain ⟨q, rest, hq, rfl, -⟩ := List.map_eq_cons_iff.1 h
  exact uncovered_head hq hr

/-- The first covered region that does not begin where `r` does. -/
theorem covered_split (h : ∃ x ∈ covered r behind, x.region.base ≠ r.base) :
    ∃ front q tail, behind = front ++ q :: tail ∧ (∀ x ∈ front, x.region.base = r.base) ∧
      (∀ x ∈ front, x.region.base < r.stop ∧ x.region.type ≤ r.type) ∧
      q.region.base ≠ r.base ∧ q.region.base < r.stop ∧ q.region.type ≤ r.type ∧
      covered r behind = front ++ q :: covered r tail ∧ uncovered r behind = uncovered r tail := by
  induction behind with
  | nil => simp [covered] at h
  | cons y behind ih =>
    by_cases hy : y.region.base < r.stop ∧ y.region.type ≤ r.type
    · have hc : covered r (y :: behind) = y :: covered r behind :=
        List.takeWhile_cons_of_pos (decide_eq_true hy)
      have hu : uncovered r (y :: behind) = uncovered r behind :=
        List.dropWhile_cons_of_pos (decide_eq_true hy)
      by_cases hb : y.region.base = r.base
      · obtain ⟨front, q, tail, h1, h2, h3, h4, h5, h6, h7, h8⟩ := ih (by
          obtain ⟨x, hx, hxb⟩ := h
          rw [hc] at hx
          rcases List.mem_cons.1 hx with rfl | hx
          · exact absurd hb hxb
          · exact ⟨x, hx, hxb⟩)
        refine ⟨y :: front, q, tail, by rw [h1]; rfl, ?_, ?_, h4, h5, h6, ?_, by rw [hu, h8]⟩
        · simpa using ⟨hb, h2⟩
        · simpa using ⟨hy, h3⟩
        · rw [hc, h7]
          rfl
      · exact ⟨[], y, behind, rfl, by simp, by simp, hb, hy.1, hy.2, hc, hu⟩
    · have hc : covered r (y :: behind) = [] := by
        rw [covered, List.takeWhile_cons_of_neg]
        simpa using hy
      obtain ⟨x, hx, -⟩ := h
      rw [hc] at hx
      exact absurd hx (by simp)

/-! ## One step of the clean-up -/

theorem regionsOf_overwrite : regionsOf (covd.map (ListedRegion.overwrite r) ++ rest)
    = (regionsOf covd).map r.overwrite ++ regionsOf rest := by
  simp [regionsOf, ListedRegion.overwrite, Function.comp_def]

theorem entriesOf_overwrite : entriesOf (covd.map (ListedRegion.overwrite r) ++ rest)
    = entriesOf (covd ++ rest) := by
  simp [entriesOf, ListedRegion.overwrite, Function.comp_def]

theorem bases_overwrite (h : (regionsOf (covd ++ rest)).Pairwise fun a b => a.base ≤ b.base) :
    (regionsOf (covd.map (ListedRegion.overwrite r) ++ rest)).Pairwise fun a b =>
      a.base ≤ b.base := by
  have hm : ∀ l : List PmmMemoryRegion,
      l.Pairwise (fun a b => a.base ≤ b.base) ↔ (l.map (·.base)).Pairwise (· ≤ ·) :=
    fun l => by rw [List.pairwise_map]
  rw [hm] at h ⊢
  rw [regionsOf_overwrite]
  simpa [regionsOf, PmmMemoryRegion.overwrite, Function.comp_def] using h

theorem cleanUp_inert (h : Ordered (q :: ys)) (hq : q.region.Inert) (n : ℕ) :
    cleanUpFrom (n + 1) (regionsOf (q :: ys)) = q.region :: cleanUpFrom n (regionsOf ys) := by
  have hadj : adjustOverlaps q.region (regionsOf ys) = (q.region, regionsOf ys) := by
    refine adjust_inert hq fun x hx => ?_
    obtain ⟨y, hy, rfl⟩ := List.mem_map.1 hx
    exact h.base_le hy
  rw [regionsOf, List.map_cons, cleanUpFrom, hadj]

theorem cleanUp_step (h : Ordered (q :: ys)) (hs : q.region.stop < 4294967296) (n : ℕ) :
    cleanUpFrom (n + 1) (regionsOf (q :: ys)) =
      q.region.shorten (regionsOf (uncovered q.region ys)) ::
        cleanUpFrom n (regionsOf ((covered q.region ys).map (ListedRegion.overwrite q.region) ++
          uncovered q.region ys)) := by
  have hy : Ordered (covered q.region ys ++ uncovered q.region ys) := by
    rw [covered_append_uncovered]
    exact h.tail
  have hu := hy.right
  have hadj : adjustOverlaps q.region (regionsOf ys) =
      (q.region.shorten (regionsOf (uncovered q.region ys)),
        (regionsOf (covered q.region ys)).map q.region.overwrite ++
          regionsOf (uncovered q.region ys)) := by
    have hy : regionsOf ys =
        regionsOf (covered q.region ys) ++ regionsOf (uncovered q.region ys) := by
      rw [← List.map_append, covered_append_uncovered]
    have hc : ∀ x ∈ regionsOf (covered q.region ys),
        x.base < q.region.stop ∧ x.type ≤ q.region.type := by
      intro x hx
      obtain ⟨y, hy, rfl⟩ := List.mem_map.1 hx
      exact mem_covered hy
    have hr : ∀ x ∈ regionsOf (uncovered q.region ys), q.region.base ≤ x.base := by
      intro x hx
      obtain ⟨y, hy, rfl⟩ := List.mem_map.1 hx
      exact h.base_le ((List.dropWhile_sublist _).mem hy)
    rw [hy, adjust_covered hs hc,
      adjust_shorten hs hu.bases hr fun x tail hx => regions_uncovered_head hx]
  rw [regionsOf, List.map_cons, cleanUpFrom, hadj, regionsOf_overwrite]

/-- Overwriting regions that begin where `q` does keeps the list ordered. -/
theorem Ordered.overwrite (h : Ordered (covd ++ rest))
    (hb : ∀ x ∈ covd, x.region.base = r.base) :
    Ordered (covd.map (ListedRegion.overwrite r) ++ rest) := by
  obtain ⟨h1, h2, h3⟩ := List.pairwise_append.1 h.follows
  have hz : ∀ x ∈ covd, (ListedRegion.overwrite r x).region.length = 0 := fun x hx =>
    overwrite_length_eq (hb x hx)
  constructor
  · refine List.pairwise_append.2 ⟨?_, h2, ?_⟩
    · rw [List.pairwise_map]
      refine h1.imp_of_mem fun {a b} ha _ hab => ⟨hab.1, fun _ hl _ => ?_⟩
      exact absurd (hz a ha) hl
    · intro a ha b hb
      obtain ⟨x, hx, rfl⟩ := List.mem_map.1 ha
      exact ⟨(h3 x hx b hb).1, fun _ hl _ => absurd (hz x hx) hl⟩
  · intro a ha
    rcases List.mem_append.1 ha with ha | ha
    · obtain ⟨x, hx, rfl⟩ := List.mem_map.1 ha
      have hx' := (h.bound x (by simp [hx])).1
      rw [hz x hx]
      exact ⟨hx', by decide, Nat.zero_le _⟩
    · exact h.bound a (by simp [ha])

/-! ## Empty regions -/

theorem disjoint_of_empty_left {a b : PmmMemoryRegion} (h : a.length = 0) : a.Disjoint b := by
  rintro x ⟨⟨h1, h2⟩, -⟩
  simp only [stop] at h2
  omega

theorem disjoint_of_empty_right {a b : PmmMemoryRegion} (h : b.length = 0) : a.Disjoint b := by
  rintro x ⟨-, h1, h2⟩
  simp only [stop] at h2
  omega

theorem settled_append_empty {rs : List PmmMemoryRegion} {es : List MultibootMemoryMap}
    (h : ∀ x ∈ covd, x.region.length = 0) :
    Settled (regionsOf covd ++ rs) (entriesOf covd ++ es) ↔ Settled rs es := by
  induction covd with
  | nil => exact Iff.rfl
  | cons x covd ih =>
    have hx : x.region.length = 0 := h x (by simp)
    rw [regionsOf, List.map_cons, entriesOf, List.map_cons, List.cons_append, List.cons_append,
      settled_cons, ih fun y hy => h y (by simp [hy])]
    constructor
    · exact fun hs => hs.2.2
    · exact fun hs => ⟨fun y _ => disjoint_of_empty_left hx, by omega, hs⟩

theorem settled_of_empty (h : ∀ x ∈ covd, x.region.length = 0) :
    Settled (regionsOf covd) (entriesOf covd) := by
  have hs := (settled_append_empty h).2 (⟨.nil, .nil⟩ : Settled [] [])
  simpa using hs

theorem cleanUp_of_empty (h : ∀ x ∈ xs, x.region.length = 0)
    (hp : (regionsOf xs).Pairwise fun a b => a.base ≤ b.base) :
    cleanUpFrom xs.length (regionsOf xs) = regionsOf xs := by
  have hi : ∀ x ∈ regionsOf xs, x.Inert := by
    intro x hx
    obtain ⟨y, hy, rfl⟩ := List.mem_map.1 hx
    exact inert_of_empty (h y hy)
  have hc := cleanUpFrom_inert 0 [] (regionsOf xs) hi (by rwa [List.append_nil])
  rw [List.append_nil, List.length_map] at hc
  rw [← Nat.add_zero xs.length, hc]
  exact List.append_nil _

theorem shorten_length_eq {rest : List PmmMemoryRegion} (hl : r.length ≠ 0)
    (h : (r.shorten rest).length = 0) (hb : ∀ x ∈ rest, r.base ≤ x.base) :
    ∃ next tail, rest = next :: tail ∧ next.base < r.stop ∧ next.base = r.base := by
  cases rest with
  | nil => exact absurd h hl
  | cons next tail =>
    have hn := hb next (by simp)
    rw [shorten] at h
    split at h
    · rename_i hlt
      exact ⟨next, tail, rfl, hlt, Nat.le_antisymm (Nat.le_of_sub_eq_zero h) hn⟩
    · exact absurd h hl

/-- Where the clean-up leaves nothing there was nothing. -/
theorem cleanUp_empty : ∀ (n : ℕ) (xs : List ListedRegion), xs.length = n → Ordered xs →
    (∀ x ∈ cleanUpFrom n (regionsOf xs), x.length = 0) → ∀ x ∈ xs, x.region.length = 0
  | 0, [], _, _, _ => by simp
  | n + 1, q :: ys, hn, ho, h => by
    have hn' : ys.length = n := Nat.succ.inj hn
    by_cases hi : q.region.length = 0 ∨ 4294967296 ≤ q.region.stop
    · have hq : q.region.Inert := hi.elim inert_of_empty
        fun hs => inert_of_stop_ge hs (ho.bound q (by simp)).2.1
      rw [cleanUp_inert ho hq] at h
      have hy := cleanUp_empty n ys hn' ho.tail fun x hx => h x (by simp [hx])
      intro x hx
      rcases List.mem_cons.1 hx with rfl | hx
      · exact h _ (by simp)
      · exact hy x hx
    · -- a region that is emptied is emptied by one of a larger type at its base
      exfalso
      have hl : q.region.length ≠ 0 := fun hc => hi (Or.inl hc)
      have hs : q.region.stop < 4294967296 := by omega
      rw [cleanUp_step ho hs] at h
      have hu : ∀ x ∈ regionsOf (uncovered q.region ys), q.region.base ≤ x.base := by
        intro x hx
        obtain ⟨y, hy, rfl⟩ := List.mem_map.1 hx
        exact ho.base_le ((List.dropWhile_sublist _).mem hy)
      obtain ⟨next, tail, hnext, hlt, hb⟩ := shorten_length_eq hl (h _ (by simp)) hu
      obtain ⟨m, rest, hm, rfl, -⟩ := List.map_eq_cons_iff.1 hnext
      have hy : Ordered (covered q.region ys ++ uncovered q.region ys) := by
        rw [covered_append_uncovered]
        exact ho.tail
      have hc : ∀ x ∈ covered q.region ys, x.region.base = q.region.base := by
        intro x hx
        have h1 := ho.base_le ((List.takeWhile_sublist _).mem hx)
        have h2 := ((List.pairwise_append.1 hy.follows).2.2 x hx m (by rw [hm]; simp)).1
        omega
      have hlen : ((covered q.region ys).map (ListedRegion.overwrite q.region) ++
          uncovered q.region ys).length = n := by
        rw [List.length_append, List.length_map, ← List.length_append, covered_append_uncovered, hn']
      have hz := cleanUp_empty n _ hlen (hy.overwrite hc) fun x hx =>
        h x (List.mem_cons_of_mem _ hx)
      have hmz : m.region.length = 0 := hz m (by rw [hm]; simp)
      have hmy : m ∈ ys := (List.dropWhile_sublist _).mem (by rw [← uncovered, hm]; simp)
      have h1 := ((List.pairwise_cons.1 ho.follows).1 m hmy).2 hb.symm hl hmz
      have h2 := uncovered_head hm hlt
      omega

/-! ## The clean-up of an ordered list -/

theorem fits_nil_cons : RegionsFit [] (q :: ys) ↔
    (q.region.length ≠ 0 → Spares q.region ys) ∧ RegionsFit [q] ys := by
  simp [RegionsFit, Prevails]

/-- An empty region in front. -/
theorem fits_empty_cons (h : q.region.length = 0) : RegionsFit [] (q :: ys) ↔ RegionsFit [] ys := by
  have hq : ∀ x ∈ [q], x.region.length = 0 := by simpa using h
  rw [fits_nil_cons, fits_of_empty hq]
  exact and_iff_right fun hl => absurd h hl

/-- A region in front that ends at or above 4 GiB. -/
theorem fits_long_cons (hl : q.region.length ≠ 0) (hs : 4294967296 ≤ q.region.stop) :
    RegionsFit [] (q :: ys) ↔ ∀ x ∈ ys, x.region.length = 0 := by
  rw [fits_nil_cons, Spares, if_neg (not_lt.2 hs)]
  exact ⟨fun h => h.1 hl, fun h => ⟨fun _ => h, fits_all_empty h⟩⟩

/-- A region in front that covers only regions that begin where it does. -/
theorem fits_covered_cons (ho : Ordered (q :: ys)) (hl : q.region.length ≠ 0)
    (hs : q.region.stop < 4294967296)
    (hc : ∀ x ∈ covered q.region ys, x.region.base = q.region.base) :
    RegionsFit [] (q :: ys) ↔ RegionsFit [] ((covered q.region ys).map (ListedRegion.overwrite q.region) ++
      uncovered q.region ys) := by
  have hz : ∀ x ∈ (covered q.region ys).map (ListedRegion.overwrite q.region),
      x.region.length = 0 := by
    intro x hx
    obtain ⟨y, hy, rfl⟩ := List.mem_map.1 hx
    exact overwrite_length_eq (hc y hy)
  rw [fits_append_hidden fun x hx => Or.inl (hz x hx), List.nil_append, fits_of_empty hz,
    fits_nil_cons, Spares, if_pos hs]
  have hy : RegionsFit [q] ys ↔ RegionsFit (q :: covered q.region ys) (uncovered q.region ys) := by
    conv_lhs => rw [← covered_append_uncovered q.region ys]
    refine fits_append_hidden fun x hx => Or.inr ⟨q, by simp, (hc x hx).symm, hl, ?_⟩
    exact (mem_covered hx).2
  rw [hy]
  have hu : RegionsFit (q :: covered q.region ys) (uncovered q.region ys) ↔
      RegionsFit [] (uncovered q.region ys) := by
    cases hm : uncovered q.region ys with
    | nil => exact Iff.rfl
    | cons m tail =>
      have hsub : ∀ x ∈ m :: tail, x ∈ ys := fun x hx =>
        (List.dropWhile_sublist _).mem (by rw [← uncovered, hm]; exact hx)
      have hmb := ho.base_le (hsub m (by simp))
      have hmt : m.region.base = q.region.base → q.region.type < m.region.type := fun hb =>
        uncovered_head hm (by simp only [stop] at *; omega)
      have hle : ∀ c ∈ q :: covered q.region ys,
          c.region.base = q.region.base ∧ c.region.type ≤ q.region.type := by
        intro c hcm
        rcases List.mem_cons.1 hcm with rfl | hcm
        · exact ⟨rfl, le_rfl⟩
        · exact ⟨hc c hcm, (mem_covered hcm).2⟩
      have hpm : Prevails (q :: covered q.region ys) m.region ↔ Prevails [] m.region := by
        constructor
        · exact fun hp => ⟨hp.1, by simp⟩
        · refine fun hp => ⟨hp.1, fun c hcm hcb _ => ?_⟩
          obtain ⟨h1, h2⟩ := hle c hcm
          have := hmt (by omega)
          omega
      rw [RegionsFit, RegionsFit, hpm]
      refine and_congr_right fun _ => fits_congr fun x hx => ?_
      rw [prevails_append, prevails_append]
      refine and_congr_left fun hxm => ?_
      constructor
      · exact fun hp => ⟨hp.1, by simp⟩
      · refine fun hp => ⟨hp.1, fun c hcm hcb _ => ?_⟩
        obtain ⟨h1, h2⟩ := hle c hcm
        -- between `q` and `x`, `m` begins where they do and is not empty
        have hmx : m.region.base ≤ x.region.base := by
          have hp' : Ordered (covered q.region ys ++ uncovered q.region ys) := by
            rw [covered_append_uncovered]
            exact ho.tail
          rw [hm] at hp'
          exact hp'.right.base_le hx
        have hb : m.region.base = q.region.base := by omega
        have hml : m.region.length ≠ 0 := fun hmz => by
          have h3 := ((List.pairwise_cons.1 ho.follows).1 m (hsub m (by simp))).2 hb.symm hl hmz
          have := hmt hb
          omega
        have := hxm (by omega) hml
        have := hmt hb
        omega
  rw [hu]
  exact and_iff_right fun _ => Or.inl hc

theorem shorten_length_le {rest : List PmmMemoryRegion} : (r.shorten rest).length ≤ r.length := by
  cases rest with
  | nil => exact le_rfl
  | cons next tail =>
    rw [shorten]
    split
    · rename_i h
      simp only [stop] at h
      show next.base - r.base ≤ r.length
      omega
    · exact le_rfl

theorem shorten_base {rest : List PmmMemoryRegion} : (r.shorten rest).base = r.base := by
  cases rest with
  | nil => rfl
  | cons next tail =>
    rw [shorten]
    split <;> rfl

theorem shorten_stop_le {rest : List PmmMemoryRegion}
    (hp : rest.Pairwise fun a b => a.base ≤ b.base) (hb : ∀ x ∈ rest, r.base ≤ x.base)
    {x : PmmMemoryRegion} (hx : x ∈ rest) : (r.shorten rest).stop ≤ x.base := by
  cases rest with
  | nil => exact absurd hx (by simp)
  | cons next tail =>
    have hn := hb next (by simp)
    have hle : next.base ≤ x.base := by
      rcases List.mem_cons.1 hx with rfl | hx
      · exact le_rfl
      · exact (List.pairwise_cons.1 hp).1 x hx
    rw [shorten]
    split
    · show r.base + (next.base - r.base) ≤ x.base
      omega
    · omega

/-- The clean-up below a region that covers only regions that begin where it does. -/
theorem settled_covered (ho : Ordered (q :: ys)) (hs : q.region.stop < 4294967296)
    (hc : ∀ x ∈ covered q.region ys, x.region.base = q.region.base) {n : ℕ} (hn : ys.length = n) :
    Settled (cleanUpFrom (n + 1) (regionsOf (q :: ys))) (entriesOf (q :: ys)) ↔
      Settled (cleanUpFrom n (regionsOf ((covered q.region ys).map
        (ListedRegion.overwrite q.region) ++ uncovered q.region ys)))
        (entriesOf ((covered q.region ys).map (ListedRegion.overwrite q.region) ++
          uncovered q.region ys)) := by
  have hy : Ordered (covered q.region ys ++ uncovered q.region ys) := by
    rw [covered_append_uncovered]
    exact ho.tail
  have hu := hy.right
  have hb : ∀ x ∈ regionsOf (uncovered q.region ys), q.region.base ≤ x.base := by
    intro x hx
    obtain ⟨y, hy, rfl⟩ := List.mem_map.1 hx
    exact ho.base_le ((List.dropWhile_sublist _).mem hy)
  have hz : ∀ x ∈ (covered q.region ys).map (ListedRegion.overwrite q.region),
      x.region.length = 0 := by
    intro x hx
    obtain ⟨y, hy, rfl⟩ := List.mem_map.1 hx
    exact overwrite_length_eq (hc y hy)
  have hzr : ∀ x ∈ regionsOf ((covered q.region ys).map (ListedRegion.overwrite q.region)),
      x.length = 0 := by
    intro x hx
    obtain ⟨y, hy, rfl⟩ := List.mem_map.1 hx
    exact hz y hy
  have hlen : (covered q.region ys).length + (uncovered q.region ys).length = n := by
    rw [← List.length_append, covered_append_uncovered, hn]
  have hcl : cleanUpFrom n (regionsOf ((covered q.region ys).map
      (ListedRegion.overwrite q.region) ++ uncovered q.region ys)) =
      regionsOf ((covered q.region ys).map (ListedRegion.overwrite q.region)) ++
        cleanUpFrom (uncovered q.region ys).length (regionsOf (uncovered q.region ys)) := by
    have h1 := cleanUpFrom_inert (uncovered q.region ys).length (regionsOf (uncovered q.region ys))
      (regionsOf ((covered q.region ys).map (ListedRegion.overwrite q.region)))
      (fun x hx => inert_of_empty (hzr x hx)) (by
        rw [← List.map_append]
        exact (hy.overwrite hc).bases)
    rw [List.length_map, List.length_map, hlen, ← List.map_append] at h1
    exact h1
  rw [cleanUp_step ho hs, entriesOf, List.map_cons, settled_cons, entriesOf_overwrite,
    covered_append_uncovered]
  constructor
  · exact fun h => h.2.2
  · refine fun h => ⟨fun x hx => ?_, shorten_length_le.trans (ho.bound q (by simp)).2.2, h⟩
    rw [hcl] at hx
    rcases List.mem_append.1 hx with hx | hx
    · exact disjoint_of_empty_right (hzr x hx)
    · obtain ⟨y, hym, hyb⟩ := mem_cleanUpFrom (List.length_map _) hx
      have h1 := shorten_stop_le hu.bases hb hym
      have h2 := hb y hym
      rw [disjoint_iff (by rw [shorten_base]; omega)]
      omega

/-! ## A region that covers one of a higher base -/

section
variable {front tail : List ListedRegion} {k : ListedRegion}
  (ho : Ordered (q :: (front ++ k :: tail))) (hs : q.region.stop < 4294967296)
  (hfb : ∀ x ∈ front, x.region.base = q.region.base)
  (hk : k.region.base ≠ q.region.base) (hks : k.region.base < q.region.stop)
include ho hs hk hks

omit hs in
theorem covers_base_lt : q.region.base < k.region.base ∧ k.region.base < 4294967296 ∧
    q.region.length ≠ 0 := by
  have h1 := ho.base_le (x := k) (by simp)
  have h2 := (ho.bound k (by simp)).1
  simp only [stop] at hks
  omega

/-- What overwrites `k` is overwritten with a length that wraps. -/
theorem overwrite_covers : (ListedRegion.overwrite q.region k).region.Inert ∧
    (ListedRegion.overwrite q.region k).region.stop = q.region.base + 4294967296 := by
  obtain ⟨h1, h2, h3⟩ := covers_base_lt ho hk hks
  have hl := overwrite_length_lt (r := q.region) (q := k.region) h1 h2
  have hst : (ListedRegion.overwrite q.region k).region.stop = q.region.base + 4294967296 := by
    show k.region.base + (q.region.overwrite k.region).length = _
    rw [hl]
    omega
  refine ⟨inert_of_stop_ge (by omega) ?_, hst⟩
  show (q.region.overwrite k.region).length < _
  omega

/-- The region that covers `k` fits only with nothing behind `k`. -/
theorem fits_covers (hft : ∀ x ∈ front, x.region.type ≤ q.region.type)
    (hkt : k.region.type ≤ q.region.type)
    (hcov : k ∈ covered q.region (front ++ k :: tail)) (hfb : ∀ x ∈ front, x.region.base = q.region.base) :
    RegionsFit [] (q :: (front ++ k :: tail)) ↔ ∃ next rest, tail = next :: rest ∧
      next.region.base = k.region.base ∧ q.region.type < next.region.type ∧
      (∀ x ∈ next :: rest, x.region.length = 0) ∧
      q.region.base + 4294967296 ≤ k.region.base + k.entry.len.toNat := by
  obtain ⟨h1, h2, h3⟩ := covers_base_lt ho hk hks
  have hd : (front ++ k :: tail).dropWhile (fun x => x.region.base = q.region.base) = k :: tail := by
    rw [List.dropWhile_append_of_pos fun x hx => decide_eq_true (hfb x hx),
      List.dropWhile_cons_of_neg (by simpa using hk)]
  have hsp : Spares q.region (front ++ k :: tail) ↔ ∃ next rest, tail = next :: rest ∧
      next.region.base = k.region.base ∧ q.region.type < next.region.type ∧
      (∀ x ∈ next :: rest, x.region.length = 0) ∧
      q.region.base + 4294967296 ≤ k.region.base + k.entry.len.toNat := by
    rw [Spares, if_pos hs, CoversLast, hd]
    constructor
    · rintro (h | ⟨q', next, rest, he, h⟩)
      · exact absurd (h k hcov) hk
      · obtain ⟨rfl, rfl⟩ := List.cons.inj he
        exact ⟨next, rest, rfl, h⟩
    · rintro ⟨next, rest, rfl, h⟩
      exact Or.inr ⟨k, next, rest, rfl, h⟩
  rw [fits_nil_cons, hsp]
  refine ⟨fun h => h.1 h3, fun h => ⟨fun _ => h, ?_⟩⟩
  obtain ⟨next, rest, rfl, hnb, hnt, hz, -⟩ := h
  rw [fits_append_hidden fun x hx => Or.inr ⟨q, by simp, (hfb x hx).symm, h3, hft x hx⟩, RegionsFit]
  refine ⟨fun _ => ?_, fits_all_empty hz⟩
  rw [Spares]
  split
  · refine Or.inl fun x hx => ?_
    have hc : covered k.region (next :: rest) = [] := by
      rw [covered, List.takeWhile_cons_of_neg]
      simp only [decide_eq_true_eq, not_and, not_le]
      omega
    rw [hc] at hx
    exact absurd hx (by simp)
  · exact hz

/-- What the clean-up makes of the list of such a region. -/
theorem cleanUp_covers (hcov : covered q.region (front ++ k :: tail) = front ++ k :: covered q.region tail)
    (hunc : uncovered q.region (front ++ k :: tail) = uncovered q.region tail)
    (hfb : ∀ x ∈ front, x.region.base = q.region.base) :
    cleanUpFrom (front.length + 1 + tail.length + 1) (regionsOf (q :: (front ++ k :: tail))) =
      q.region.shorten (regionsOf (uncovered q.region tail)) ::
        (regionsOf (front.map (ListedRegion.overwrite q.region)) ++
          q.region.overwrite k.region :: cleanUpFrom tail.length
            (regionsOf ((covered q.region tail).map (ListedRegion.overwrite q.region) ++
              uncovered q.region tail))) := by
  obtain ⟨hki, -⟩ := overwrite_covers ho hs hk hks
  have hsort : (regionsOf ((front ++ k :: covered q.region tail).map
      (ListedRegion.overwrite q.region) ++ uncovered q.region tail)).Pairwise
      fun a b => a.base ≤ b.base := by
    refine bases_overwrite ?_
    rw [List.append_assoc, List.cons_append, covered_append_uncovered]
    exact ho.tail.bases
  have hsplit : regionsOf ((front ++ k :: covered q.region tail).map
      (ListedRegion.overwrite q.region) ++ uncovered q.region tail) =
      (regionsOf (front.map (ListedRegion.overwrite q.region)) ++ [q.region.overwrite k.region]) ++
        regionsOf ((covered q.region tail).map (ListedRegion.overwrite q.region) ++
          uncovered q.region tail) := by
    simp [regionsOf, ListedRegion.overwrite]
  have hlen : front.length + 1 + tail.length =
      (regionsOf (front.map (ListedRegion.overwrite q.region)) ++
        [q.region.overwrite k.region]).length + tail.length := by
    simp
  rw [cleanUp_step ho hs, hcov, hunc, hsplit, hlen]
  rw [hsplit] at hsort
  rw [cleanUpFrom_inert tail.length _ _ (fun x hx => ?_) hsort, List.append_assoc,
    List.singleton_append]
  rcases List.mem_append.1 hx with hx | hx
  · obtain ⟨y, hy, rfl⟩ := List.mem_map.1 hx
    obtain ⟨z, hz, rfl⟩ := List.mem_map.1 hy
    exact inert_of_empty (overwrite_length_eq (hfb z hz))
  · obtain rfl := List.mem_singleton.1 hx
    exact hki

/-- The overwritten region reaches past 4 GiB, so nothing is left behind it. -/
theorem empty_of_covers (hd : ∀ x ∈ cleanUpFrom tail.length
      (regionsOf ((covered q.region tail).map (ListedRegion.overwrite q.region) ++
        uncovered q.region tail)), (q.region.overwrite k.region).Disjoint x) :
    ∀ x ∈ cleanUpFrom tail.length
      (regionsOf ((covered q.region tail).map (ListedRegion.overwrite q.region) ++
        uncovered q.region tail)), x.length = 0 := by
  obtain ⟨h1, h2, -⟩ := covers_base_lt ho hk hks
  obtain ⟨-, hkstop⟩ := overwrite_covers ho hs hk hks
  have hkl := overwrite_length_lt (r := q.region) (q := k.region) h1 h2
  have hkt : Ordered (k :: tail) := ho.tail.right
  intro x hx
  have hl : (regionsOf ((covered q.region tail).map (ListedRegion.overwrite q.region) ++
      uncovered q.region tail)).length = tail.length := by
    rw [List.length_map, List.length_append, List.length_map, ← List.length_append,
      covered_append_uncovered]
  obtain ⟨y, hy, hyb⟩ := mem_cleanUpFrom hl hx
  have hym : ∃ z ∈ tail, z.region.base = y.base := by
    rw [regionsOf_overwrite] at hy
    rcases List.mem_append.1 hy with hy | hy
    · obtain ⟨w, hw, rfl⟩ := List.mem_map.1 hy
      obtain ⟨z, hz, rfl⟩ := List.mem_map.1 hw
      exact ⟨z, (List.takeWhile_sublist _).mem hz, rfl⟩
    · obtain ⟨z, hz, rfl⟩ := List.mem_map.1 hy
      exact ⟨z, (List.dropWhile_sublist _).mem hz, rfl⟩
  obtain ⟨z, hzm, hzb⟩ := hym
  have hle := hkt.base_le hzm
  have hlt := (hkt.bound z (by simp [hzm])).1
  have hdis := (disjoint_iff (a := q.region.overwrite k.region) (b := x)
    (show k.region.base ≤ x.base by omega)).1 (hd x hx)
  change (q.region.overwrite k.region).stop = _ at hkstop
  omega

omit hs in
/-- A second covered region would be overwritten too, with a length that is not zero. -/
theorem covered_of_covers (hempty : ∀ x ∈ cleanUpFrom tail.length
      (regionsOf ((covered q.region tail).map (ListedRegion.overwrite q.region) ++
        uncovered q.region tail)), x.length = 0) : covered q.region tail = [] := by
  obtain ⟨h1, -, -⟩ := covers_base_lt ho hk hks
  have hkt : Ordered (k :: tail) := ho.tail.right
  cases hc : covered q.region tail with
  | nil => rfl
  | cons c cs =>
    exfalso
    obtain ⟨m, hm⟩ : ∃ m, tail.length = m + 1 := by
      cases tail with
      | nil => exact absurd hc (by simp [covered])
      | cons t ts => exact ⟨ts.length, rfl⟩
    have hct : c ∈ tail := (List.takeWhile_sublist _).mem (by rw [← covered, hc]; simp)
    have hcb := hkt.base_le hct
    have hclt := (hkt.bound c (by simp [hct])).1
    have hol := overwrite_length_lt (r := q.region) (q := c.region) (by omega) hclt
    have hoi : (ListedRegion.overwrite q.region c).region.Inert := by
      refine inert_of_stop_ge (r := q.region.overwrite c.region) ?_ (by omega)
      show _ ≤ c.region.base + (q.region.overwrite c.region).length
      omega
    have hsort : (regionsOf ((covered q.region tail).map (ListedRegion.overwrite q.region) ++
        uncovered q.region tail)).Pairwise fun a b => a.base ≤ b.base := by
      refine bases_overwrite ?_
      rw [covered_append_uncovered]
      exact hkt.tail.bases
    rw [hc, List.map_cons, List.cons_append, regionsOf, List.map_cons, ← regionsOf] at hsort
    rw [hc, List.map_cons, List.cons_append, regionsOf, List.map_cons, ← regionsOf, hm, cleanUpFrom,
      adjust_inert hoi (List.pairwise_cons.1 hsort).1] at hempty
    have hz : (q.region.overwrite c.region).length = 0 := hempty _ (List.mem_cons_self ..)
    omega

theorem settled_covers
    (hcov : covered q.region (front ++ k :: tail) = front ++ k :: covered q.region tail)
    (hunc : uncovered q.region (front ++ k :: tail) = uncovered q.region tail)
    (hfb : ∀ x ∈ front, x.region.base = q.region.base) :
    Settled (cleanUpFrom (front.length + 1 + tail.length + 1)
        (regionsOf (q :: (front ++ k :: tail)))) (entriesOf (q :: (front ++ k :: tail))) ↔
      ∃ next rest, tail = next :: rest ∧
        next.region.base = k.region.base ∧ q.region.type < next.region.type ∧
        (∀ x ∈ next :: rest, x.region.length = 0) ∧
        q.region.base + 4294967296 ≤ k.region.base + k.entry.len.toNat := by
  obtain ⟨h1, h2, h3⟩ := covers_base_lt ho hk hks
  have hkl := overwrite_length_lt (r := q.region) (q := k.region) h1 h2
  have hkt : Ordered (k :: tail) := ho.tail.right
  have hz : ∀ x ∈ front.map (ListedRegion.overwrite q.region), x.region.length = 0 := by
    intro x hx
    obtain ⟨y, hy, rfl⟩ := List.mem_map.1 hx
    exact overwrite_length_eq (hfb y hy)
  have he : entriesOf (front ++ k :: tail) =
      entriesOf (front.map (ListedRegion.overwrite q.region)) ++ k.entry :: entriesOf tail := by
    simp [entriesOf, ListedRegion.overwrite]
  rw [cleanUp_covers ho hs hk hks hcov hunc hfb, entriesOf, List.map_cons, settled_cons, ← entriesOf,
    he, settled_append_empty hz, settled_cons]
  constructor
  · rintro ⟨hd, -, hkd, hlen, -⟩
    have hempty := empty_of_covers ho hs hk hks hkd
    have hc := covered_of_covers ho hk hks hempty
    have hu : uncovered q.region tail = tail := by
      have h := covered_append_uncovered q.region tail
      rwa [hc, List.nil_append] at h
    rw [hc, hu, List.map_nil, List.nil_append] at hempty
    have hte := cleanUp_empty _ tail rfl hkt.tail hempty
    have hqk := hd (q.region.overwrite k.region) (by simp)
    rw [hu, disjoint_iff (by rw [shorten_base]; exact h1.le)] at hqk
    change _ ∨ _ ∨ (q.region.shorten (regionsOf tail)).stop ≤ k.region.base at hqk
    -- `q` must have been ended where `k` begins
    cases tail with
    | nil =>
      have hsh : q.region.shorten (regionsOf []) = q.region := rfl
      rw [hsh] at hqk
      omega
    | cons next rest =>
      have hnb := hkt.base_le (List.mem_cons_self ..)
      by_cases hlt : next.region.base < q.region.stop
      · have hsh : q.region.shorten (regionsOf (next :: rest)) =
            { q.region with length := next.region.base - q.region.base } := if_pos hlt
        rw [hsh] at hqk
        simp only [stop] at hqk
        exact ⟨next, rest, rfl, by omega, uncovered_head hu hlt, hte, by omega⟩
      · have hsh : q.region.shorten (regionsOf (next :: rest)) = q.region := if_neg hlt
        rw [hsh] at hqk
        omega
  · rintro ⟨next, rest, rfl, hnb, hnt, hte, hlen⟩
    have hc : covered q.region (next :: rest) = [] := by
      rw [covered, List.takeWhile_cons_of_neg]
      simp only [decide_eq_true_eq, not_and, not_le]
      omega
    have hu : uncovered q.region (next :: rest) = next :: rest := by
      have h := covered_append_uncovered q.region (next :: rest)
      rwa [hc, List.nil_append] at h
    have hcl := cleanUp_of_empty hte hkt.tail.bases
    have hzr : ∀ x ∈ regionsOf (next :: rest), x.length = 0 := by
      intro x hx
      obtain ⟨y, hy, rfl⟩ := List.mem_map.1 hx
      exact hte y hy
    have hsh : q.region.shorten (regionsOf (next :: rest)) =
        { q.region with length := next.region.base - q.region.base } :=
      if_pos (by rw [hnb]; exact hks)
    rw [hc, hu, List.map_nil, List.nil_append, hcl]
    refine ⟨fun x hx => ?_, shorten_length_le.trans (ho.bound q (by simp)).2.2,
      fun x hx => disjoint_of_empty_right (hzr x hx), by omega, settled_of_empty hte⟩
    rcases List.mem_append.1 hx with hx | hx
    · obtain ⟨y, hy, rfl⟩ := List.mem_map.1 hx
      exact disjoint_of_empty_right (hz y hy)
    · rcases List.mem_cons.1 hx with rfl | hx
      · rw [hsh]
        refine (disjoint_iff (a := { q.region with length := next.region.base - q.region.base })
          (b := q.region.overwrite k.region) h1.le).2 (Or.inr (Or.inr ?_))
        show q.region.base + (next.region.base - q.region.base) ≤ k.region.base
        omega
      · exact disjoint_of_empty_right (hzr x hx)

end

/-- **The clean-up** of an ordered list leaves it settled exactly if the list fits. -/
theorem settled_cleanUp : ∀ (n : ℕ) (xs : List ListedRegion), xs.length = n → Ordered xs →
    (Settled (cleanUpFrom n (regionsOf xs)) (entriesOf xs) ↔ RegionsFit [] xs)
  | 0, [], _, _ => ⟨fun _ => trivial, fun _ => ⟨.nil, .nil⟩⟩
  | n + 1, q :: ys, hn, ho => by
    have hn' : ys.length = n := Nat.succ.inj hn
    have hq := ho.bound q (by simp)
    by_cases hl : q.region.length = 0
    · rw [cleanUp_inert ho (inert_of_empty hl), entriesOf, List.map_cons, settled_cons,
        settled_cleanUp n ys hn' ho.tail, fits_empty_cons hl]
      exact ⟨fun h => h.2.2, fun h => ⟨fun x _ => disjoint_of_empty_left hl, hq.2.2, h⟩⟩
    by_cases hs : q.region.stop < 4294967296
    · by_cases hc : ∀ x ∈ covered q.region ys, x.region.base = q.region.base
      · have hlen : ((covered q.region ys).map (ListedRegion.overwrite q.region) ++
            uncovered q.region ys).length = n := by
          rw [List.length_append, List.length_map, ← List.length_append, covered_append_uncovered,
            hn']
        have hy : Ordered (covered q.region ys ++ uncovered q.region ys) := by
          rw [covered_append_uncovered]
          exact ho.tail
        rw [settled_covered ho hs hc hn', settled_cleanUp n _ hlen (hy.overwrite hc),
          fits_covered_cons ho hl hs hc]
      · push Not at hc
        obtain ⟨front, k, tail, rfl, h2, h3, h4, h5, h6, h7, h8⟩ := covered_split hc
        have hlen : front.length + 1 + tail.length = n := by
          rw [← hn', List.length_append, List.length_cons]
          omega
        rw [← hlen, settled_covers ho hs h4 h5 h7 h8 h2,
          fits_covers ho hs h4 h5 (fun x hx => (h3 x hx).2) h6 (by rw [h7]; simp) h2]
    · -- a region that is never found to overlap
      have hs' := not_lt.1 hs
      rw [cleanUp_inert ho (inert_of_stop_ge hs' hq.2.1), entriesOf, List.map_cons, settled_cons,
        settled_cleanUp n ys hn' ho.tail, fits_long_cons hl hs']
      constructor
      · rintro ⟨hd, -, -⟩
        refine cleanUp_empty n ys hn' ho.tail fun x hx => ?_
        obtain ⟨y, hy, hyb⟩ := mem_cleanUpFrom ((List.length_map _).trans hn') hx
        obtain ⟨z, hz, rfl⟩ := List.mem_map.1 hy
        have h1 := ho.base_le hz
        have h2 := (ho.bound z (by simp [hz])).1
        have h3 := hd x hx
        rw [disjoint_iff (by omega)] at h3
        omega
      · intro h
        refine ⟨fun x hx => disjoint_of_empty_right ?_, hq.2.2, fits_all_empty h⟩
        rw [← hn', cleanUp_of_empty h ho.tail.bases] at hx
        obtain ⟨z, hz, rfl⟩ := List.mem_map.1 hx
        exact h z hz

/-! ## The list of a memory map -/

/-- The entries in the order of the list: the region at a position was created for
    the entry at that position. -/
def regionEntries (entries : List MultibootMemoryMap) : List MultibootMemoryMap :=
  linkedListSort (fun a b => pmmMemoryRegionCompare a.region b.region) entries

/-- The list is sorted by base address, its regions are disjoint, and each is a
    sub-interval of its entry with the type of the entry. -/
structure FromBootLoader (entries : List MultibootMemoryMap) (regions : List PmmMemoryRegion) :
    Prop where
  sorted : regions.Pairwise fun a b => a.base ≤ b.base
  disjoint : regions.Pairwise Disjoint
  within : List.Forall₂ Within regions (regionEntries entries)

/-- All entries begin below 4 GiB, and in the order of the list they fit. -/
def MapFits (entries : List MultibootMemoryMap) : Prop :=
  (∀ mmap ∈ entries, mmap.addr.toNat < 4294967296) ∧
    RegionsFit [] ((regionEntries entries).map MultibootMemoryMap.listed)

variable {entries : List MultibootMemoryMap}

theorem sort_regions : linkedListSort pmmMemoryRegionCompare (entries.map (·.region)) =
    regionsOf ((regionEntries entries).map MultibootMemoryMap.listed) := by
  rw [linkedListSort_map, regionsOf, List.map_map]
  rfl

theorem entriesOf_listed : entriesOf (entries.map MultibootMemoryMap.listed) = entries := by
  rw [entriesOf, List.map_map]
  exact List.map_id _

theorem listed_ordered : Ordered ((regionEntries entries).map MultibootMemoryMap.listed) := by
  constructor
  · have h := sort_pairwise (entries.map (·.region))
    rw [sort_regions, regionsOf, List.pairwise_map] at h
    refine h.imp fun {a b} hab => ⟨hab.base_le, fun hb hl hz => ?_⟩
    unfold PmmMemoryRegion.Le at hab
    omega
  · intro q hq
    obtain ⟨mmap, -, rfl⟩ := List.mem_map.1 hq
    exact ⟨u32_lt _, u32_lt _, Nat.mod_le _ _⟩

theorem memoryRegions_eq : memoryRegions entries =
    cleanUpFrom (regionEntries entries).length
      (regionsOf ((regionEntries entries).map MultibootMemoryMap.listed)) := by
  rw [memoryRegions, sort_regions, cleanUpOverlaps, List.length_map, List.length_map]

theorem memoryRegions_bases (entries : List MultibootMemoryMap) : (memoryRegions entries).map (fun r => (r.base, r.type)) =
    (regionEntries entries).map fun mmap => (mmap.region.base, mmap.region.type) := by
  rw [memoryRegions_eq, cleanUpFrom_bases _ _ (by simp), regionsOf, List.map_map, List.map_map]
  rfl

theorem memoryRegions_sorted : (memoryRegions entries).Pairwise fun a b => a.base ≤ b.base := by
  have hm : ∀ l : List PmmMemoryRegion, l.Pairwise (fun a b => a.base ≤ b.base) ↔
      (l.map fun r => (r.base, r.type)).Pairwise fun x y => x.1 ≤ y.1 :=
    fun l => by rw [List.pairwise_map]
  rw [hm, memoryRegions_bases]
  have ho : Ordered ((regionEntries entries).map MultibootMemoryMap.listed) := listed_ordered
  have hb := ho.bases
  rw [regionsOf, List.map_map, List.pairwise_map] at hb
  exact List.pairwise_map.2 hb

/-- A region lies within its entry if the entry begins below 4 GiB and the region
    has not grown past it. -/
theorem within_iff : ∀ {rs : List PmmMemoryRegion} {es : List MultibootMemoryMap},
    rs.map (fun r => (r.base, r.type)) = es.map (fun e => (e.region.base, e.region.type)) →
    (List.Forall₂ Within rs es ↔ (∀ e ∈ es, e.addr.toNat < 4294967296) ∧
      List.Forall₂ (fun r e => r.length ≤ e.len.toNat) rs es)
  | [], [], _ => by simp
  | r :: rs, e :: es, h => by
    rw [List.map_cons, List.map_cons, List.cons.injEq, Prod.mk.injEq] at h
    obtain ⟨⟨hb, ht⟩, h⟩ := h
    have hb' : r.base = u32 e.addr.toNat := hb
    have hw : Within r e ↔ e.addr.toNat < 4294967296 ∧ r.length ≤ e.len.toNat := by
      constructor
      · rintro ⟨h1, h2, -⟩
        have hlt := u32_lt e.addr.toNat
        have hle : u32 e.addr.toNat ≤ e.addr.toNat := Nat.mod_le _ _
        simp only [stop] at h2
        omega
      · rintro ⟨h1, h2⟩
        rw [u32_of_lt h1] at hb'
        exact ⟨hb'.ge, by simp only [stop]; omega, ht⟩
    rw [List.forall₂_cons, List.forall₂_cons, within_iff h, hw, List.forall_mem_cons]
    tauto

theorem fromBootLoader_iff : FromBootLoader entries (memoryRegions entries) ↔ MapFits entries := by
  have hp : (regionEntries entries).Perm entries := linkedListSort_perm _ entries
  have ho : Ordered ((regionEntries entries).map MultibootMemoryMap.listed) := listed_ordered
  have hs := settled_cleanUp _ _ (List.length_map _) ho
  rw [← memoryRegions_eq, entriesOf_listed] at hs
  have hw := within_iff (memoryRegions_bases entries)
  have ha : (∀ e ∈ regionEntries entries, e.addr.toNat < 4294967296) ↔
      ∀ e ∈ entries, e.addr.toNat < 4294967296 := by
    simp only [hp.mem_iff]
  rw [ha] at hw
  rw [MapFits, ← hs]
  constructor
  · rintro ⟨-, hd, hin⟩
    exact ⟨(hw.1 hin).1, hd, (hw.1 hin).2⟩
  · rintro ⟨hlt, hd, hl⟩
    exact ⟨memoryRegions_sorted, hd, hw.2 ⟨hlt, hl⟩⟩

/-- **The list of memory regions**, when it is built, is sorted, disjoint and within
    the memory map exactly if the map fits. -/
theorem fetched_regions {σ : Type} [Allocator σ] (entries : List MultibootMemoryMap)
    (heap heap' : σ) (regions : List PmmMemoryRegion)
    (h : pmmFetchMemoryRegions entries heap = .ok (regions, heap')) :
    FromBootLoader entries regions ↔ MapFits entries := by
  rw [fetch_eq h]
  exact fromBootLoader_iff

/-- A reserved region at the end of available memory. -/
def reservedMap : List MultibootMemoryMap := [⟨0x1000, 0x3000, 1⟩, ⟨0x3000, 0x1000, 2⟩]

theorem mapFits_reservedMap : MapFits reservedMap := by
  have hs : regionEntries reservedMap = reservedMap := by decide +kernel
  refine ⟨by decide, ?_⟩
  rw [hs]
  refine fits_nil_cons.2 ⟨fun _ => ?_, ?_, trivial⟩
  · rw [Spares, if_pos (by decide +kernel)]
    exact Or.inl (by decide +kernel)
  · intro _
    rw [Spares, if_pos (by decide +kernel)]
    exact Or.inl (by decide +kernel)

/-- The available memory ends where the reserved region begins. -/
theorem fetched_regions_reserved :
    FromBootLoader reservedMap [⟨0x1000, 0x2000, 1⟩, ⟨0x3000, 0x1000, 2⟩] := by
  have hf : (pmmFetchMemoryRegions reservedMap placementHeap).map (·.1) =
      .ok [⟨0x1000, 0x2000, 1⟩, ⟨0x3000, 0x1000, 2⟩] := by decide +kernel
  obtain ⟨heap', h⟩ : ∃ heap', pmmFetchMemoryRegions reservedMap placementHeap =
      .ok ([⟨0x1000, 0x2000, 1⟩, ⟨0x3000, 0x1000, 2⟩], heap') := by
    cases hx : pmmFetchMemoryRegions reservedMap placementHeap with
    | error e => simp [hx, Except.map] at hf
    | ok r =>
      rw [hx] at hf
      exact ⟨r.2, by rw [← Except.ok.inj hf]⟩
  exact (fetched_regions reservedMap placementHeap heap' _ h).2 mapFits_reservedMap

/-- Two regions of available memory that overlap. -/
def overlappingMap : List MultibootMemoryMap := [⟨0x1000, 0x2000, 1⟩, ⟨0x2000, 0x2000, 1⟩]

theorem fetch_overlappingMap : (pmmFetchMemoryRegions overlappingMap placementHeap).map (·.1) =
    .ok [⟨0x1000, 0x2000, 1⟩, ⟨0x2000, 0xFFFFF000, 1⟩] := by
  decide +kernel

/-- The second region is left 4 GiB less 4 KiB long, past its entry and the address space. -/
theorem fetched_regions_not_disjoint :
    (pmmFetchMemoryRegions overlappingMap placementHeap).map (·.1) =
      .ok [⟨0x1000, 0x2000, 1⟩, ⟨0x2000, 0xFFFFF000, 1⟩] ∧
    ¬ FromBootLoader overlappingMap [⟨0x1000, 0x2000, 1⟩, ⟨0x2000, 0xFFFFF000, 1⟩] := by
  refine ⟨fetch_overlappingMap, fun h => ?_⟩
  have hd := (List.pairwise_cons.1 h.disjoint).1 ⟨0x2000, 0xFFFFF000, 1⟩ (by simp)
  exact hd 0x2000 (by simp [Contains, stop])

end Ttos
