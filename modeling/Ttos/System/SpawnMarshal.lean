/-
  The copies the spawn system call makes of its arguments (syscall.c).

  The path, the argument vector and the arguments are copied to the kernel heap,
  handed to `process_create`, and released.  `mem` is the memory of the parent's
  address space, the user's strings and the kernel heap in it.  A function
  returns `none` if it does not come back: a user string without end, or a
  panic of `process_create`.

  * `spawn_marshalling_neutral`: whichever allocation fails, the copies are gone
    from the block list, and nothing else is.
-/
import Ttos.Memory.HeapClients
import Ttos.Util.Strings

namespace Ttos

/-! ## The system call -/

/-- The rounds of `strlen`: a string lies in the address space. -/
abbrev stringRounds : ℕ := 0x100000000

/-- The rounds of the loop that counts the arguments, as many as the address space has words. -/
abbrev argvRounds : ℕ := 0x40000000

/-- `while(user_argv[argc] != NULL) argc++;` -/
def countArguments (m : Mem) (userArgv : ℕ) : ℕ → ℕ → Option ℕ
  | 0, _ => none
  | k + 1, argc =>
    if m.load32 (userArgv + 4 * argc) ≠ 0 then countArguments m userArgv k (argc + 1)
    else some argc

/-- Release the first `count` arguments of the vector `kernelArgv`. -/
def freeArguments (kernelArgv count : ℕ) (h : Kheap) : Kheap :=
  (List.range count).foldl (fun h index => h.kfree (h.mem.load32 (kernelArgv + 4 * index))) h

/-- Release the first `count` arguments, the vector and the path. -/
def releaseCopies (kernelPath count kernelArgv : ℕ) (h : Kheap) : Kheap :=
  ((freeArguments kernelArgv count h).kfree kernelArgv).kfree kernelPath

/-- The loop that copies the arguments, `k` of them from `index` on.  `.error` is a failure, with
everything released. -/
def copyUserArguments (userArgv kernelPath kernelArgv : ℕ) :
    ℕ → ℕ → Kheap → Option (Except Kheap Kheap)
  | 0, _, h => some (.ok h)
  | k + 1, index, h => do
    let n ← strlen h.mem stringRounds (h.mem.load32 (userArgv + 4 * index)) 0
    let length := u32 (n + 1)
    let (ptr, h) ← h.kmalloc length
    let h := { h with mem := h.mem.store32 (kernelArgv + 4 * index) ptr }
    if h.mem.load32 (kernelArgv + 4 * index) = 0 then
      some (.error (releaseCopies kernelPath index kernelArgv h))
    else
      let h := { h with
        mem := h.mem.copy (h.mem.load32 (kernelArgv + 4 * index))
          (h.mem.load32 (userArgv + 4 * index)) length }
      copyUserArguments userArgv kernelPath kernelArgv k (index + 1) h

/-- The copies, in the heap. -/
structure Marshalled where
  heap : Kheap
  path : ℕ
  argc : ℕ
  argv : ℕ

/-- `argc`: the vector ends with `NULL`. -/
def userArgc (m : Mem) (userArgv : ℕ) : Option ℕ :=
  if userArgv ≠ 0 then countArguments m userArgv argvRounds 0 else some 0

/-- `syscall_spawn` from the copied path to the call of `process_create`. -/
def marshalArguments (h : Kheap) (kernelPath userArgv : ℕ) : Option (Except Kheap Marshalled) := do
  let argc ← userArgc h.mem userArgv
  let (kernelArgv, h) ← h.kmalloc (u32 ((if 0 < argc then argc else 1) * 4))
  if kernelArgv = 0 then some (.error (h.kfree kernelPath))
  else
    (copyUserArguments userArgv kernelPath kernelArgv argc 0 h).map
      (Except.map fun h => ⟨h, kernelPath, argc, kernelArgv⟩)

/-- `syscall_spawn` before the call of `process_create`; `.error` returns -1. -/
def spawnMarshal (h : Kheap) (userPath userArgv : ℕ) : Option (Except Kheap Marshalled) := do
  let n ← strlen h.mem stringRounds userPath 0
  let pathLength := u32 (n + 1)
  let (kernelPath, h) ← h.kmalloc pathLength
  if kernelPath = 0 then some (.error h)
  else marshalArguments { h with mem := h.mem.copy kernelPath userPath pathLength } kernelPath userArgv

/-- How the system call came to the end of its part: it returns -1 before `process_create`, or
it has the child, or `NULL`, and has released the copies. -/
inductive SpawnEnd where
  | failed (heap : Kheap)
  | created (child : ℕ) (heap : Kheap)

/-- `syscall_spawn` up to the point where the copies are released.  `process_create` gets the
heap, the path, `argc` and the vector; saving the parent's registers is left out, they go to its
process object. -/
def spawnCall (processCreate : Kheap → ℕ → ℕ → ℕ → Option (ℕ × Kheap)) (h : Kheap)
    (parent userPath userArgv : ℕ) : Option SpawnEnd :=
  if parent = 0 ∨ userPath = 0 then some (.failed h)
  else
    match spawnMarshal h userPath userArgv with
    | none => none
    | some (.error h) => some (.failed h)
    | some (.ok m) =>
      match processCreate m.heap m.path m.argc m.argv with
      | none => none
      | some (child, h) => some (.created child (releaseCopies m.path m.argc m.argv h))

/-! ## The copies -/

/-- The blocks made for marshalling `count` arguments, in the order in which they are released. -/
def spawnCopies (m : Mem) (kernelPath count kernelArgv : ℕ) : List ℕ :=
  (List.range count).map (fun index => m.load32 (kernelArgv + 4 * index)) ++ [kernelArgv, kernelPath]

variable {base kernelPath kernelArgv userArgv : ℕ} {h h' : Kheap} {bs bs₀ bs' cs : List Blk}

/-- Only the first `count` arguments of the vector matter. -/
theorem spawnCopies_congr {m m' : Mem} {count : ℕ}
    (hm : ∀ x, kernelArgv ≤ x → x < kernelArgv + 4 * count → m' x = m x) :
    spawnCopies m' kernelPath count kernelArgv = spawnCopies m kernelPath count kernelArgv := by
  unfold spawnCopies
  congr 1
  refine List.map_congr_left fun i hi => Mem.load32_congr fun x h1 h2 => hm x (by omega) ?_
  have := List.mem_range.1 hi
  omega

/-- The loop finds the arguments in the vector although it frees blocks on its way. -/
theorem freeArguments_eq (v : Blk) (hv : v.data = kernelArgv) {indices : List ℕ}
    (hg : KheapGood base h bs) (hvb : v ∈ allocated bs) (hsize : ∀ i ∈ indices, 4 * i + 4 ≤ v.size)
    (hn : (indices.map fun i => h.mem.load32 (kernelArgv + 4 * i)).Nodup)
    (hin : ∀ i ∈ indices, h.mem.load32 (kernelArgv + 4 * i) ∈ (allocated bs).map Blk.data)
    (hne : ∀ i ∈ indices, h.mem.load32 (kernelArgv + 4 * i) ≠ kernelArgv) :
    indices.foldl (fun h i => h.kfree (h.mem.load32 (kernelArgv + 4 * i))) h =
      h.freeAll (indices.map fun i => h.mem.load32 (kernelArgv + 4 * i)) := by
  induction indices generalizing h bs with
  | nil => rw [List.map_nil, Kheap.freeAll, List.foldl_nil, List.foldl_nil]
  | cons i indices ih =>
    rw [List.map_cons, List.nodup_cons] at hn
    obtain ⟨b, hb, hbd⟩ := List.mem_map.1 (hin i List.mem_cons_self)
    obtain ⟨bs', hg', hp, hmem⟩ := Kheap.kfree_good hg hb
    rw [List.foldl_cons, List.map_cons, Kheap.freeAll, List.foldl_cons, ← hbd]
    generalize h.kfree b.data = h₁ at hg' hmem ⊢
    have hvb' : v ∈ allocated bs' := by
      refine (List.mem_cons.1 (hp.mem_iff.1 hvb)).resolve_left ?_
      rintro rfl
      exact hne i List.mem_cons_self (hbd.symm.trans hv)
    -- the vector is as before
    have hload : ∀ j ∈ indices,
        h₁.mem.load32 (kernelArgv + 4 * j) = h.mem.load32 (kernelArgv + 4 * j) := by
      intro j hj
      have hj4 := hsize j (List.mem_cons_of_mem _ hj)
      refine Mem.load32_congr fun x h1 h2 => hmem v hvb' x (by omega) ?_
      rw [← hv] at h2
      simp only [Blk.stop, Blk.data] at h2 ⊢
      omega
    have hmap := List.map_congr_left hload
    rw [← hmap] at hn ⊢
    refine ih hg' hvb' (fun j hj => hsize j (List.mem_cons_of_mem _ hj)) hn.2 ?_ ?_
    · intro j hj
      have hold := (hp.map Blk.data).mem_iff.1 (hin j (List.mem_cons_of_mem _ hj))
      rw [hload j hj]
      refine (List.mem_cons.1 hold).resolve_left fun heq => hn.1 ?_
      rw [← hbd, ← heq, ← hload j hj]
      exact List.mem_map_of_mem hj
    · intro j hj
      rw [hload j hj]
      exact hne j (List.mem_cons_of_mem _ hj)

/-- The heap `h` holds the blocks `bs₀`, the path, the vector with room for `slots` arguments, and
the first `count` arguments. -/
structure Copies (base : ℕ) (bs₀ : List Blk) (h : Kheap) (kernelPath slots count kernelArgv : ℕ)
    (bs cs : List Blk) : Prop where
  good : KheapGood base h bs
  perm : (allocated bs).Perm (cs ++ allocated bs₀)
  data : cs.map Blk.data = spawnCopies h.mem kernelPath count kernelArgv
  vector : ∃ v ∈ allocated bs, v.data = kernelArgv ∧ 4 * slots ≤ v.size
  count : count ≤ slots

theorem releaseCopies_eq {slots count : ℕ}
    (hc : (spawnCopies h.mem kernelPath count kernelArgv).Nodup) (hg : KheapGood base h bs)
    (hin : ∀ p ∈ spawnCopies h.mem kernelPath count kernelArgv, p ∈ (allocated bs).map Blk.data)
    (hv : ∃ v ∈ allocated bs, v.data = kernelArgv ∧ 4 * slots ≤ v.size) (hcount : count ≤ slots) :
    releaseCopies kernelPath count kernelArgv h =
      h.freeAll (spawnCopies h.mem kernelPath count kernelArgv) := by
  obtain ⟨v, hvb, hvd, hsize⟩ := hv
  have hargs : ∀ i ∈ List.range count, h.mem.load32 (kernelArgv + 4 * i) ∈
      (List.range count).map fun i => h.mem.load32 (kernelArgv + 4 * i) := fun i hi =>
    List.mem_map_of_mem hi
  unfold spawnCopies at hc hin
  rw [List.nodup_append] at hc
  have hfree : freeArguments kernelArgv count h = h.freeAll _ :=
    freeArguments_eq v hvd hg hvb
      (fun i hi => by have := List.mem_range.1 hi; omega) hc.1
      (fun i hi => hin _ (List.mem_append_left _ (hargs i hi)))
      fun i hi => hc.2.2 _ (hargs i hi) _ List.mem_cons_self
  rw [releaseCopies, hfree, spawnCopies, Kheap.freeAll, Kheap.freeAll, List.foldl_append]
  rfl

namespace Copies

variable {slots count : ℕ}

theorem held (hc : Copies base bs₀ h kernelPath slots count kernelArgv bs cs) :
    (spawnCopies h.mem kernelPath count kernelArgv).Nodup ∧
      ∀ p ∈ spawnCopies h.mem kernelPath count kernelArgv, p ∈ (allocated bs).map Blk.data := by
  rw [← hc.data]
  exact Kheap.new_nodup hc.good hc.perm

/-- **Releasing the copies restores the block list.** -/
theorem release {h₀ : Kheap} (hg₀ : KheapGood base h₀ bs₀)
    (hc : Copies base bs₀ h kernelPath slots count kernelArgv bs cs) :
    (releaseCopies kernelPath count kernelArgv h).blocks = some bs₀ := by
  rw [releaseCopies_eq hc.held.1 hc.good hc.held.2 hc.vector hc.count, ← hc.data]
  exact Kheap.freeAll_restores hc.good hg₀ hc.perm

/-- A failed allocation: `NULL` in the vector. -/
theorem store_null (hc : Copies base bs₀ h kernelPath slots count kernelArgv bs cs)
    (hlt : count < slots) (p : ℕ) :
    Copies base bs₀ { h with mem := h.mem.store32 (kernelArgv + 4 * count) p } kernelPath slots count
      kernelArgv bs cs := by
  obtain ⟨v, hv, hvd, hsize⟩ := hc.vector
  constructor
  · refine hc.good.write fun x hx => Mem.store32_out ?_
    have hout := hc.good.inv.heap.out_of_header (mem_allocated.1 hv).1 hx
    simp only [Blk.stop, Blk.data] at hout hvd
    omega
  · exact hc.perm
  · rw [hc.data]
    exact (spawnCopies_congr fun x h1 h2 => Mem.store32_out (by omega)).symm
  · exact ⟨v, hv, hvd, hsize⟩
  · exact hc.count

/-- The copy of one more argument. -/
theorem append (hc : Copies base bs₀ h kernelPath slots count kernelArgv bs cs) (hlt : count < slots)
    {b : Blk} (hg : KheapGood base h' bs') (hp : (allocated bs').Perm (b :: allocated bs))
    (hout : ∀ c ∈ bs', ∀ x, c.data ≤ x → x < c.stop → h'.mem x = h.mem x) {length : ℕ}
    (hlength : length ≤ b.size) (src : ℕ) :
    ∃ cs', Copies base bs₀
      { h' with
        mem := (h'.mem.store32 (kernelArgv + 4 * count) b.data).copy b.data src length }
      kernelPath slots (count + 1) kernelArgv bs' cs' := by
  obtain ⟨v, hv, hvd, hsize⟩ := hc.vector
  have hv' : v ∈ allocated bs' := hp.mem_iff.2 (List.mem_cons_of_mem _ hv)
  have hb' : b ∈ allocated bs' := hp.mem_iff.2 List.mem_cons_self
  have hvm := (mem_allocated.1 hv').1
  have hbm := (mem_allocated.1 hb').1
  have hvb : v ≠ b := by
    rintro rfl
    have hn : (allocated bs').Nodup := hg.inv.tiles.nodup.filter _
    exact (List.nodup_cons.1 (hp.nodup_iff.1 hn)).1 hv
  have hbound := hg.inv.bounds
  have hrange : base ≤ b.addr ∧ b.addr + 20 + b.size ≤ base + 33554432 := hg.inv.mem_range hbm
  have hstop : b.data + length ≤ b.stop := by
    simp only [Blk.data, Blk.stop]
    omega
  have hvstop : v.stop = kernelArgv + v.size := by
    rw [← hvd]
    rfl
  -- the copied bytes are not in the vector
  have hcopy : ∀ m : Mem, ∀ x, kernelArgv ≤ x → x < kernelArgv + 4 * slots →
      m.copy b.data src length x = m x := by
    intro m x h1 h2
    have := hg.inv.heap.payload_disjoint hbm hvm hvb (x := x) (by omega) (by omega)
    exact Mem.copy_out (by omega)
  obtain ⟨ca, cr, rfl, hca, hcr⟩ := List.map_eq_append_iff.1 hc.data
  refine ⟨ca ++ b :: cr, ?_, ?_, ?_, ⟨v, hv', hvd, hsize⟩, hlt⟩
  · refine hg.write fun x hx => ?_
    have hxb := hg.inv.heap.out_of_header hbm hx
    have hxv := hg.inv.heap.out_of_header hvm hx
    have hcopied : length = 0 ∨ x < b.data ∨ b.data + length ≤ x := by omega
    rw [Mem.copy_out (by omega)]
    exact Mem.store32_out (by omega)
  · refine hp.trans ((hc.perm.cons b).trans ?_)
    rw [List.append_assoc, List.append_assoc]
    exact List.perm_middle.symm
  · have hold : spawnCopies ((h'.mem.store32 (kernelArgv + 4 * count) b.data).copy b.data src length)
        kernelPath count kernelArgv = spawnCopies h.mem kernelPath count kernelArgv := by
      refine spawnCopies_congr fun x h1 h2 => ?_
      rw [hcopy _ x h1 (by omega), Mem.store32_out (by omega)]
      exact hout v hvm x (by omega) (by omega)
    have hnew : ((h'.mem.store32 (kernelArgv + 4 * count) b.data).copy b.data src length).load32
        (kernelArgv + 4 * count) = b.data := by
      rw [Mem.load32_congr (m := h'.mem.store32 (kernelArgv + 4 * count) b.data)
        fun x h1 h2 => hcopy _ x (by omega) (by omega), Mem.load32_store32]
      exact Nat.mod_eq_of_lt (by simp only [Blk.data]; omega)
    show _ = spawnCopies ((h'.mem.store32 (kernelArgv + 4 * count) b.data).copy b.data src length)
      kernelPath (count + 1) kernelArgv
    generalize (h'.mem.store32 (kernelArgv + 4 * count) b.data).copy b.data src length = m at hold hnew ⊢
    unfold spawnCopies at hold ⊢
    rw [List.append_left_inj] at hold
    rw [List.map_append, List.map_cons, hca, hcr, List.range_succ, List.map_append,
      List.map_singleton, hnew, hold, List.append_assoc, List.singleton_append]

end Copies

/-! ## The loop -/

/-- A string of the user: it ends, and it lies outside the kernel heap. -/
def UserString (base : ℕ) (m : Mem) (a : ℕ) : Prop :=
  ∃ s, m.HasString a s ∧ s.length < stringRounds ∧
    (a + s.length < base ∨ base + kheapHeapSize ≤ a)

/-- A vector of `argc` arguments and the `NULL` behind them. -/
structure UserVector (base : ℕ) (m : Mem) (userArgv argc : ℕ) : Prop where
  outside : userArgv + 4 * argc + 4 ≤ base ∨ base + kheapHeapSize ≤ userArgv
  arguments : ∀ i < argc, m.load32 (userArgv + 4 * i) ≠ 0 ∧ UserString base m (m.load32 (userArgv + 4 * i))
  null : m.load32 (userArgv + 4 * argc) = 0

/-- The two memories agree outside the heap. -/
def SameOutside (base : ℕ) (m m' : Mem) : Prop :=
  ∀ x, x < base ∨ base + kheapHeapSize ≤ x → m' x = m x

variable {m m' : Mem} {argc : ℕ}

theorem SameOutside.trans {m'' : Mem} (h : SameOutside base m m') (h' : SameOutside base m' m'') :
    SameOutside base m m'' := fun x hx => (h' x hx).trans (h x hx)

theorem UserString.congr {a : ℕ} (hs : UserString base m a) (hm : SameOutside base m m') :
    UserString base m' a := by
  obtain ⟨s, h1, h2, h3⟩ := hs
  exact ⟨s, h1.congr fun x hx hx' => hm x (by omega), h2, h3⟩

theorem UserString.strlen_eq {a : ℕ} (hs : UserString base m a) :
    ∃ n, strlen m stringRounds a 0 = some n := by
  obtain ⟨s, h1, h2, -⟩ := hs
  by_cases ha : a = 0
  · subst ha
    exact ⟨0, strlen_null (k := stringRounds) (by decide) 0⟩
  · exact ⟨_, strlen_hasString ha h1 h2 0⟩

theorem UserVector.congr (hv : UserVector base m userArgv argc) (hm : SameOutside base m m') :
    UserVector base m' userArgv argc := by
  have hload : ∀ i ≤ argc, m'.load32 (userArgv + 4 * i) = m.load32 (userArgv + 4 * i) := by
    intro i hi
    have := hv.outside
    exact Mem.load32_congr fun x h1 h2 => hm x (by omega)
  constructor
  · exact hv.outside
  · intro i hi
    rw [hload i hi.le]
    exact ⟨(hv.arguments i hi).1, (hv.arguments i hi).2.congr hm⟩
  · rw [hload argc le_rfl]
    exact hv.null

theorem UserVector.count (hv : UserVector base m userArgv argc) {k index : ℕ} (hi : index ≤ argc)
    (hk : argc - index < k) : countArguments m userArgv k index = some argc := by
  induction k generalizing index with
  | zero => exact absurd hk (Nat.not_lt_zero _)
  | succ k ih =>
    rw [countArguments]
    rcases Nat.eq_or_lt_of_le hi with rfl | hlt
    · rw [if_neg (not_not.2 hv.null)]
    · rw [if_pos (hv.arguments index hlt).1]
      exact ih hlt (by omega)

section
variable {h₀ : Kheap} {slots : ℕ}

/-- One round: an allocation fails and everything is released, or there is one more copy. -/
theorem copyUserArguments_step (hg₀ : KheapGood base h₀ bs₀) {count : ℕ}
    (hc : Copies base bs₀ h kernelPath slots count kernelArgv bs cs) (hlt : count < slots) (k : ℕ)
    {n : ℕ} (hn : strlen h.mem stringRounds (h.mem.load32 (userArgv + 4 * count)) 0 = some n) :
    (∃ h', copyUserArguments userArgv kernelPath kernelArgv (k + 1) count h = some (.error h') ∧
        h'.blocks = some bs₀) ∨
      ∃ h' bs' cs', copyUserArguments userArgv kernelPath kernelArgv (k + 1) count h =
          copyUserArguments userArgv kernelPath kernelArgv k (count + 1) h' ∧
        Copies base bs₀ h' kernelPath slots (count + 1) kernelArgv bs' cs' ∧
        SameOutside base h.mem h'.mem := by
  rcases Kheap.kmallocInt_spec hc.good (u32 (n + 1)) false with
    hk | ⟨b, h₁, bs₁, hk, hg₁, hp, -, hs, -, hout⟩
  · refine Or.inl ⟨_, ?_, (hc.store_null hlt 0).release hg₀⟩
    simp [copyUserArguments, hn, Kheap.kmalloc, hk, Mem.load32_store32]
  · obtain ⟨v, hv, hvd, hsize⟩ := hc.vector
    have hbm := (mem_allocated.1 (hp.mem_iff.2 List.mem_cons_self)).1
    have hvm := (mem_allocated.1 (hp.mem_iff.2 (List.mem_cons_of_mem _ hv))).1
    have hbound := hg₁.inv.bounds
    have hbrange : base ≤ b.addr ∧ b.addr + 20 + b.size ≤ base + 33554432 := hg₁.inv.mem_range hbm
    have hvrange : base ≤ v.addr ∧ v.addr + 20 + v.size ≤ base + 33554432 := hg₁.inv.mem_range hvm
    have hb0 : b.data ≠ 0 := by simp [Blk.data]
    have hb : b.data % 4294967296 = b.data := Nat.mod_eq_of_lt (by simp only [Blk.data]; omega)
    obtain ⟨cs', hc'⟩ := hc.append hlt hg₁ hp hout hs
      ((h₁.mem.store32 (kernelArgv + 4 * count) b.data).load32 (userArgv + 4 * count))
    refine Or.inr ⟨_, bs₁, cs', ?_, hc', fun x hx => ?_⟩
    · simp [copyUserArguments, hn, Kheap.kmalloc, hk, Mem.load32_store32, hb, hb0]
    · have hxsize : x < base ∨ base + 33554432 ≤ x := hx
      simp only [Blk.data] at hvd
      show (h₁.mem.store32 (kernelArgv + 4 * count) b.data).copy b.data _ _ x = h.mem x
      rw [Mem.copy_out (by simp only [Blk.data]; omega), Mem.store32_out (by omega)]
      exact Kheap.kmallocInt_outside hc.good hk hx

/-- **What the loop leaves**: everything is released, or all arguments are copied. -/
theorem copyUserArguments_spec (hg₀ : KheapGood base h₀ bs₀) {k count : ℕ} (hk : count + k = slots)
    (hc : Copies base bs₀ h kernelPath slots count kernelArgv bs cs) {r : Except Kheap Kheap}
    (hr : copyUserArguments userArgv kernelPath kernelArgv k count h = some r) :
    (∃ h', r = .error h' ∧ h'.blocks = some bs₀) ∨
      ∃ h' bs' cs', r = .ok h' ∧ Copies base bs₀ h' kernelPath slots slots kernelArgv bs' cs' := by
  induction k generalizing count h bs cs with
  | zero =>
    obtain rfl : count = slots := hk
    rw [copyUserArguments, Option.some.injEq] at hr
    exact Or.inr ⟨h, bs, cs, hr.symm, hc⟩
  | succ k ih =>
    cases hn : strlen h.mem stringRounds (h.mem.load32 (userArgv + 4 * count)) 0 with
    | none => simp [copyUserArguments, hn] at hr
    | some n =>
      rcases copyUserArguments_step hg₀ hc (by omega) k hn with
        ⟨h', heq, hb⟩ | ⟨h', bs', cs', heq, hc', -⟩
      · rw [heq, Option.some.injEq] at hr
        exact Or.inl ⟨h', hr.symm, hb⟩
      · rw [heq] at hr
        exact ih (by omega) hc' hr

/-- The loop ends on strings that end. -/
theorem copyUserArguments_isSome (hg₀ : KheapGood base h₀ bs₀) {k count : ℕ} (hk : count + k = slots)
    (hc : Copies base bs₀ h kernelPath slots count kernelArgv bs cs)
    (hv : UserVector base h.mem userArgv slots) :
    ∃ r, copyUserArguments userArgv kernelPath kernelArgv k count h = some r := by
  induction k generalizing count h bs cs with
  | zero => exact ⟨.ok h, rfl⟩
  | succ k ih =>
    obtain ⟨n, hn⟩ := (hv.arguments count (by omega)).2.strlen_eq
    rcases copyUserArguments_step hg₀ hc (by omega) k hn with
      ⟨h', heq, -⟩ | ⟨h', bs', cs', heq, hc', hsame⟩
    · exact ⟨_, heq⟩
    · rw [heq]
      exact ih (by omega) hc' (hv.congr hsame)

end

/-! ## The path and the vector -/

theorem countArguments_lt {k index argc : ℕ} (h : countArguments m userArgv k index = some argc) :
    argc < index + k := by
  induction k generalizing index with
  | zero => exact absurd h (by simp [countArguments])
  | succ k ih =>
    rw [countArguments] at h
    split at h
    · have := ih h
      omega
    · rw [Option.some.injEq] at h
      omega

theorem userArgc_lt {argc : ℕ} (h : userArgc m userArgv = some argc) : argc < argvRounds := by
  unfold userArgc at h
  split at h
  · simpa using countArguments_lt h
  · rw [Option.some.injEq] at h
    rw [← h]
    decide

/-- The copy of the path: the allocation fails and nothing changes, or there is one more block. -/
theorem spawnMarshal_path (userArgv : ℕ) (hg : KheapGood base h bs) {userPath n : ℕ}
    (hn : strlen h.mem stringRounds userPath 0 = some n) :
    spawnMarshal h userPath userArgv = some (.error h) ∨
      ∃ h' bs' b, spawnMarshal h userPath userArgv = marshalArguments h' b.data userArgv ∧
        KheapGood base h' bs' ∧ (allocated bs').Perm (b :: allocated bs) ∧
        SameOutside base h.mem h'.mem := by
  rcases Kheap.kmallocInt_spec hg (u32 (n + 1)) false with
    hk | ⟨b, h₁, bs₁, hk, hg₁, hp, -, hs, -, hout⟩
  · left
    simp [spawnMarshal, hn, Kheap.kmalloc, hk]
  · have hb0 : b.data ≠ 0 := by simp [Blk.data]
    have hbm := (mem_allocated.1 (hp.mem_iff.2 List.mem_cons_self)).1
    have hrange : base ≤ b.addr ∧ b.addr + 20 + b.size ≤ base + 33554432 := hg₁.inv.mem_range hbm
    refine Or.inr ⟨{ h₁ with mem := h₁.mem.copy b.data userPath (u32 (n + 1)) }, bs₁, b, ?_, ?_, hp, ?_⟩
    · simp [spawnMarshal, hn, Kheap.kmalloc, hk, hb0]
    · refine hg₁.write fun x hx => Mem.copy_out ?_
      have := hg₁.inv.heap.out_of_header hbm hx
      simp only [Blk.data, Blk.stop] at this ⊢
      omega
    · intro x hx
      have hxsize : x < base ∨ base + 33554432 ≤ x := hx
      show h₁.mem.copy b.data userPath (u32 (n + 1)) x = h.mem x
      rw [Mem.copy_out (by simp only [Blk.data]; omega)]
      exact Kheap.kmallocInt_outside hg hk hx

/-- The vector: the allocation fails and the path is released, or the loop starts. -/
theorem marshalArguments_vector (hg : KheapGood base h bs) (hg' : KheapGood base h' bs') {b : Blk}
    (hp : (allocated bs').Perm (b :: allocated bs)) {argc : ℕ}
    (hargc : userArgc h'.mem userArgv = some argc) :
    (∃ h'', marshalArguments h' b.data userArgv = some (.error h'') ∧ h''.blocks = some bs) ∨
      ∃ h'' bs'' cs kernelArgv, marshalArguments h' b.data userArgv =
          (copyUserArguments userArgv b.data kernelArgv argc 0 h'').map
            (Except.map fun h => ⟨h, b.data, argc, kernelArgv⟩) ∧
        Copies base bs h'' b.data argc 0 kernelArgv bs'' cs ∧
        SameOutside base h'.mem h''.mem := by
  have hlt : argc < 1073741824 := userArgc_lt hargc
  rcases Kheap.kmallocInt_spec hg' (u32 ((if 0 < argc then argc else 1) * 4)) false with
    hk | ⟨v, h₁, bs₁, hk, hg₁, hp₁, -, hs, -, hout⟩
  · refine Or.inl ⟨h'.kfree b.data, ?_, ?_⟩
    · simp only [marshalArguments, hargc, Kheap.kmalloc, hk, Option.bind_eq_bind, Option.bind_some,
        if_true]
    · have hpath : (allocated bs').Perm ([b] ++ allocated bs) := hp
      exact Kheap.freeAll_restores hg' hg hpath
  · have hv0 : v.data ≠ 0 := by simp [Blk.data]
    have hsize : 4 * argc ≤ v.size := by
      refine le_trans ?_ hs
      unfold u32
      split <;> omega
    refine Or.inr ⟨h₁, bs₁, [v, b], v.data, ?_, ?_, fun x hx => Kheap.kmallocInt_outside hg' hk hx⟩
    · simp only [marshalArguments, hargc, Kheap.kmalloc, hk, hv0, Option.bind_eq_bind, Option.bind_some,
        if_false]
    · exact ⟨hg₁, hp₁.trans (hp.cons v), rfl, ⟨v, hp₁.mem_iff.2 List.mem_cons_self, rfl, hsize⟩,
        Nat.zero_le _⟩

/-- **What marshalling leaves**: the block list as it was, or the copies and nothing else more. -/
theorem spawnMarshal_spec (hg : KheapGood base h bs) {userPath : ℕ} {r : Except Kheap Marshalled}
    (hr : spawnMarshal h userPath userArgv = some r) :
    (∃ h', r = .error h' ∧ h'.blocks = some bs) ∨
      ∃ m bs' cs, r = .ok m ∧ Copies base bs m.heap m.path m.argc m.argc m.argv bs' cs := by
  cases hn : strlen h.mem stringRounds userPath 0 with
  | none => simp [spawnMarshal, hn] at hr
  | some n =>
    rcases spawnMarshal_path userArgv hg hn with heq | ⟨h₁, bs₁, b, heq, hg₁, hp, -⟩
    · rw [heq, Option.some.injEq] at hr
      exact Or.inl ⟨h, hr.symm, Kheap.blocks_eq hg.inv⟩
    rw [heq] at hr
    cases hargc : userArgc h₁.mem userArgv with
    | none => simp [marshalArguments, hargc] at hr
    | some argc =>
      rcases marshalArguments_vector hg hg₁ hp hargc with
        ⟨h₂, heq₂, hb⟩ | ⟨h₂, bs₂, cs, kernelArgv, heq₂, hc, -⟩
      · rw [heq₂, Option.some.injEq] at hr
        exact Or.inl ⟨h₂, hr.symm, hb⟩
      · rw [heq₂, Option.map_eq_some_iff] at hr
        obtain ⟨r', hr', rfl⟩ := hr
        rcases copyUserArguments_spec hg (Nat.zero_add _) hc hr' with
          ⟨h₃, rfl, hb⟩ | ⟨h₃, bs₃, cs₃, rfl, hc₃⟩
        · exact Or.inl ⟨h₃, rfl, hb⟩
        · exact Or.inr ⟨_, bs₃, cs₃, rfl, hc₃⟩

/-- The marshalling ends on strings that end. -/
theorem spawnMarshal_isSome (hg : KheapGood base h bs) {userPath : ℕ}
    (hpath : UserString base h.mem userPath)
    (hargv : userArgv = 0 ∨ ∃ argc < argvRounds, UserVector base h.mem userArgv argc) :
    ∃ r, spawnMarshal h userPath userArgv = some r := by
  obtain ⟨n, hn⟩ := hpath.strlen_eq
  rcases spawnMarshal_path userArgv hg hn with heq | ⟨h₁, bs₁, b, heq, hg₁, hp, hsame₁⟩
  · exact ⟨_, heq⟩
  have hargc : ∃ argc, userArgc h₁.mem userArgv = some argc ∧
      (argc = 0 ∨ UserVector base h₁.mem userArgv argc) := by
    rcases hargv with rfl | ⟨argc, hlt, hv⟩
    · exact ⟨0, rfl, Or.inl rfl⟩
    · by_cases h0 : userArgv = 0
      · exact ⟨0, by rw [h0]; rfl, Or.inl rfl⟩
      · refine ⟨argc, ?_, Or.inr (hv.congr hsame₁)⟩
        rw [userArgc, if_pos h0]
        exact (hv.congr hsame₁).count (Nat.zero_le _) (by omega)
  obtain ⟨argc, hargc, hv⟩ := hargc
  rw [heq]
  rcases marshalArguments_vector hg hg₁ hp hargc with
    ⟨h₂, heq₂, -⟩ | ⟨h₂, bs₂, cs, kernelArgv, heq₂, hc, hsame₂⟩
  · exact ⟨_, heq₂⟩
  · have hloop : ∃ r, copyUserArguments userArgv b.data kernelArgv argc 0 h₂ = some r := by
      rcases hv with rfl | hv
      · exact ⟨_, rfl⟩
      · exact copyUserArguments_isSome hg (Nat.zero_add _) hc (hv.congr hsame₂)
    obtain ⟨r, hr⟩ := hloop
    rw [heq₂, hr]
    exact ⟨_, rfl⟩

/-! ## Neutrality -/

/-- `process_create` uses the heap as every client does, and leaves the path, the vector and the
arguments it is handed to its caller. -/
def LeavesCopies (base : ℕ) (processCreate : Kheap → ℕ → ℕ → ℕ → Option (ℕ × Kheap)) : Prop :=
  ∀ h bs path argc argv child h', KheapGood base h bs →
    processCreate h path argc argv = some (child, h') →
    ∃ live', Relation.ReflTransGen (HeapRun.SparingStep (spawnCopies h.mem path argc argv))
      ⟨h, (allocated bs).map Blk.data⟩ ⟨h', live'⟩

/-- What is released after another client has worked with the heap. -/
theorem Copies.release_later {slots : ℕ}
    (hc : Copies base bs₀ h kernelPath slots slots kernelArgv bs cs) {live : List ℕ}
    (hrun : Relation.ReflTransGen
      (HeapRun.SparingStep (spawnCopies h.mem kernelPath slots kernelArgv))
      ⟨h, (allocated bs).map Blk.data⟩ ⟨h', live⟩) :
    Kheap.Released base h' (spawnCopies h.mem kernelPath slots kernelArgv)
      (releaseCopies kernelPath slots kernelArgv h') := by
  have hi : HeapRun.Inv base ⟨h, (allocated bs).map Blk.data⟩ bs := ⟨hc.good, List.Perm.refl _⟩
  obtain ⟨bs', hi', hkept⟩ := HeapRun.spared_run hi hrun
  obtain ⟨hn, hin⟩ := hc.held
  obtain ⟨v, hv, hvd, hsize⟩ := hc.vector
  have hvk : v.data ∈ spawnCopies h.mem kernelPath slots kernelArgv := by
    rw [hvd]
    exact List.mem_append_right _ List.mem_cons_self
  obtain ⟨hv', hvmem⟩ := hkept v hv hvk
  have hsame : spawnCopies h'.mem kernelPath slots kernelArgv =
      spawnCopies h.mem kernelPath slots kernelArgv := by
    refine spawnCopies_congr fun x h1 h2 => hvmem x (by omega) ?_
    simp only [Blk.stop, Blk.data] at hvd ⊢
    omega
  have hin' : ∀ p ∈ spawnCopies h.mem kernelPath slots kernelArgv,
      p ∈ (allocated bs').map Blk.data := by
    intro p hp
    obtain ⟨b, hb, rfl⟩ := List.mem_map.1 (hin p hp)
    exact List.mem_map_of_mem (hkept b hb hp).1
  rw [releaseCopies_eq (hsame ▸ hn) hi'.good (hsame ▸ hin') ⟨v, hv', hvd, hsize⟩ le_rfl, hsame]
  exact Kheap.freeAll_released hi'.good hn hin'

/-- **Marshalling is neutral on the heap.**  Every return before `process_create` leaves the block
list as it was; after `process_create` the blocks released are exactly those that marshalling made,
and the others are as `process_create` left them.  On strings that end the marshalling ends. -/
theorem spawn_marshalling_neutral {s : HeapRun} (hr : (heapSystem base).Reachable s)
    {processCreate : Kheap → ℕ → ℕ → ℕ → Option (ℕ × Kheap)} (hpc : LeavesCopies base processCreate)
    (parent userPath userArgv : ℕ) :
    (∀ h', spawnCall processCreate s.heap parent userPath userArgv = some (.failed h') →
      h'.blocks = s.heap.blocks) ∧
    (∀ child h', spawnCall processCreate s.heap parent userPath userArgv = some (.created child h') →
      ∃ m left, spawnMarshal s.heap userPath userArgv = some (.ok m) ∧
        processCreate m.heap m.path m.argc m.argv = some (child, left) ∧
        Kheap.Released base m.heap (spawnCopies m.heap.mem m.path m.argc m.argv) s.heap ∧
        Kheap.Released base left (spawnCopies m.heap.mem m.path m.argc m.argv) h') ∧
    (UserString base s.heap.mem userPath →
      (userArgv = 0 ∨ ∃ argc < argvRounds, UserVector base s.heap.mem userArgv argc) →
      ∃ r, spawnMarshal s.heap userPath userArgv = some r) := by
  obtain ⟨bs, hi⟩ := HeapRun.reachable_inv hr
  refine ⟨fun h' hcall => ?_, fun child h' hcall => ?_, fun hpath hargv =>
    spawnMarshal_isSome hi.good hpath hargv⟩
  · unfold spawnCall at hcall
    split at hcall
    · cases hcall
      rfl
    split at hcall
    · cases hcall
    · rename_i hm
      rcases spawnMarshal_spec hi.good hm with ⟨h₁, heq, hb⟩ | ⟨m, bs', cs, heq, -⟩
      · cases heq
        cases hcall
        rw [hb, Kheap.blocks_eq hi.good.inv]
      · cases heq
    · split at hcall
      · cases hcall
      · cases hcall
  · unfold spawnCall at hcall
    split at hcall
    · cases hcall
    split at hcall
    · cases hcall
    · cases hcall
    · rename_i m hm
      rcases spawnMarshal_spec hi.good hm with ⟨h₁, heq, -⟩ | ⟨m', bs', cs, heq, hc⟩
      · cases heq
      cases heq
      split at hcall
      · cases hcall
      · rename_i child' left hcreate
        cases hcall
        obtain ⟨live, hrun⟩ := hpc _ _ _ _ _ _ _ hc.good hcreate
        refine ⟨m, left, hm, hcreate, ?_, hc.release_later hrun⟩
        have hold := Kheap.filter_new hc.good hc.perm
        rw [hc.data] at hold
        exact Kheap.released_of_perm hc.good hi.good hc.held.2 hold.symm

/-- The path `a`, and a vector with one argument `a`. -/
def spawnMemory : Mem := (Mem.store8 (fun _ => 0) 0x1000 0x61).store32 0x2000 0x1000

/-- `process_create` for a file that does not exist. -/
def noExecutable (h : Kheap) (_path _argc _argv : ℕ) : Option (ℕ × Kheap) := some (0, h)

/-- A fresh heap next to them. -/
def spawnHeap : Kheap :=
  let h : Kheap := ⟨spawnMemory, false, 0, 0, 0, 0, 0⟩
  (h.kheapInit 0xD0000000).getD h

theorem spawnHeap_path : UserString 0xD0000000 spawnHeap.mem 0x1000 := by
  refine ⟨[0x61], ?_, by decide, Or.inl (by decide)⟩
  rw [Mem.hasString_cons, Mem.hasString_nil]
  decide

theorem spawnHeap_argv : UserVector 0xD0000000 spawnHeap.mem 0x2000 1 := by
  have hload : spawnHeap.mem.load32 (0x2000 + 4 * 0) = 0x1000 := by decide
  constructor
  · exact Or.inl (by decide)
  · intro i hi
    obtain rfl : i = 0 := by omega
    rw [hload]
    exact ⟨by decide, spawnHeap_path⟩
  · decide

theorem spawn_marshalling_neutral_one :
    (∃ r, spawnMarshal spawnHeap 0x1000 0x2000 = some r) ∧
      ∀ child h', spawnCall noExecutable spawnHeap 0xD0100000 0x1000 0x2000 = some (.created child h') →
        ∃ left copies, Kheap.Released 0xD0000000 left copies h' := by
  have hr : (heapSystem 0xD0000000).Reachable ⟨spawnHeap, []⟩ :=
    .init ⟨⟨by decide, by decide⟩, ⟨_, rfl⟩, rfl⟩
  have hpc : LeavesCopies 0xD0000000 noExecutable := by
    rintro h bs path argc argv child h' - heq
    obtain ⟨-, rfl⟩ := Prod.mk.inj (Option.some.inj heq)
    exact ⟨_, .refl⟩
  obtain ⟨-, hcreated, hends⟩ := spawn_marshalling_neutral hr hpc 0xD0100000 0x1000 0x2000
  refine ⟨hends spawnHeap_path (Or.inr ⟨1, by decide, spawnHeap_argv⟩), fun child h' hcall => ?_⟩
  obtain ⟨m, left, -, -, -, hreleased⟩ := hcreated child h' hcall
  exact ⟨left, _, hreleased⟩

end Ttos
