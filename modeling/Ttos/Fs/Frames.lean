/-
  What the file systems do to the heap: they free only blocks of their own, and
  the objects they hand out are new.

  * `frame_kmalloc_bind`, `frame_kmallocBuffer_bind`, `frame_kfree_bind`,
    `frame_div_bind`: the rules for the operations.
  * `frame_ext2Readdir`, `frame_ext2Finddir`, `frame_ext2Read`, `frame_ext2Open` and the same
    for the initial ramdisk.
-/
import Ttos.Fs.Ext2
import Ttos.Fs.Initfs
import Ttos.Lib.Ownership

namespace Ttos

variable {σ δ α β : Type} [Allocator σ] {env : FsEnv σ δ} {own : Set ℕ} {new : α → Set ℕ}
  {size : ℕ}

/-! ## Rules -/

theorem kmallocOrPanic_ok {heap heap' : σ} {ptr : ℕ}
    (h : kmallocOrPanic size heap = .ok (ptr, heap')) :
    ptr ≠ 0 ∧ (ptr, heap') = Allocator.alloc heap size false := by
  unfold kmallocOrPanic at h
  split at h
  · cases h
  · rename_i h0
    have he := Except.ok.inj h
    rw [he] at h0
    exact ⟨h0, he.symm⟩

theorem frame_kmalloc_bind {f : ℕ → FsM σ α} (hs : Request size)
    (hf : ∀ ptr, ptr ≠ 0 → Frame (insert ptr own) new (f ptr)) :
    Frame own new (kmallocOrPanic size >>= f) :=
  Frame.alloc_bind hs (fun _ _ _ h => kmallocOrPanic_ok h) hf

theorem kmallocBuffer_eq : env.kmallocBuffer size = (do
    let ptr ← kmallocOrPanic size
    let heap ← get
    pure (ptr, env.stale heap ptr) : FsM σ (ℕ × Mem)) := by
  funext heap
  rw [FsEnv.kmallocBuffer, Bind.bind, Monad.toBind, StateT.instMonad]
  simp only [StateT.bind]
  cases kmallocOrPanic (σ := σ) size heap with
  | error e => rfl
  | ok r => rfl

omit [Allocator σ] in
theorem preserves_get [Allocator σ] : Preserves (get : FsM σ σ) := by
  intro s a s' hx _
  obtain ⟨rfl, rfl⟩ : s = a ∧ s = s' := Prod.mk.inj (Except.ok.inj hx)
  exact ⟨fun p hp _ => hp, fun p hp => absurd hp (Set.notMem_empty p)⟩

theorem frame_kmallocBuffer_bind {f : ℕ × Mem → FsM σ α} (hs : Request size)
    (hf : ∀ ptr buffer, ptr ≠ 0 → Frame (insert ptr own) new (f (ptr, buffer))) :
    Frame own new (env.kmallocBuffer size >>= f) := by
  rw [kmallocBuffer_eq, bind_assoc]
  refine frame_kmalloc_bind hs fun ptr h0 => ?_
  rw [bind_assoc]
  refine preserves_get.bind_preserves fun heap => ?_
  rw [pure_bind]
  exact hf ptr _ h0

theorem frame_kfree_bind {ptr : ℕ} {f : Unit → FsM σ α} (hp : ptr ∈ own)
    (hf : Frame (own \ {ptr}) new (f ())) : Frame own new (kfree ptr >>= f) :=
  Frame.free_bind hp (fun _ => rfl) hf

theorem preserves_div (a b : ℕ) : Preserves (divOrFault a b : FsM σ ℕ) := by
  rw [divOrFault]
  split
  · exact Frame.throw
  · exact Frame.pure (Set.empty_subset _)

theorem preserves_pure (a : α) : Preserves (pure a : FsM σ α) := Frame.pure (Set.empty_subset _)

/-- A buffer that is freed again after its use. -/
theorem preserves_buffer {f : ℕ × Mem → FsM σ α} {g : α → FsM σ β} {new : β → Set ℕ}
    (hs : Request size) (hf : ∀ r, Preserves (f r)) (hg : ∀ a, Frame ∅ new (g a)) :
    Frame ∅ new (do
      let r ← env.kmallocBuffer size
      let a ← f r
      kfree r.1
      g a) := by
  refine frame_kmallocBuffer_bind hs fun ptr buffer _ => ?_
  refine (hf _).bind_preserves fun a => frame_kfree_bind (Set.mem_insert ..) ?_
  have h : (insert ptr ∅ : Set ℕ) \ {ptr} = ∅ := by simp
  rw [h]
  exact hg a

/-! ## ext2 -/

section
variable {data : Ext2Fs} (hb : Request data.blockSize)
include hb

theorem preserves_readBgd (group : ℕ) : Preserves (ext2ReadBgd env data group) := by
  rw [ext2ReadBgd]
  split
  · exact preserves_pure _
  refine (preserves_div _ _).bind_preserves fun q => ?_
  refine frame_kmallocBuffer_bind hb fun ptr buffer _ => ?_
  refine frame_kfree_bind (Set.mem_insert ..) ?_
  exact Frame.pure (Set.empty_subset _)

theorem preserves_readInode (inodeNo : ℕ) : Preserves (ext2ReadInode env data inodeNo) := by
  rw [ext2ReadInode]
  split
  · exact preserves_pure _
  refine (preserves_div _ _).bind_preserves fun group => ?_
  refine (preserves_readBgd hb group).bind_preserves fun bgd => ?_
  cases bgd with
  | none => exact preserves_pure _
  | some bgd =>
    refine (preserves_div _ _).bind_preserves fun q => ?_
    refine frame_kmallocBuffer_bind hb fun ptr buffer _ => ?_
    refine frame_kfree_bind (Set.mem_insert ..) ?_
    exact Frame.pure (Set.empty_subset _)

omit hb in
theorem preserves_indirectBlock (buffer : Mem) (inode : Ext2Inode) (index : ℕ) :
    Preserves (σ := σ) (ext2IndirectBlock env data buffer inode index) := by
  rw [ext2IndirectBlock]
  dsimp only
  split
  · exact preserves_pure _
  split
  · exact preserves_pure _
  rw [ext2TripleIndirect]
  dsimp only
  split
  · refine (preserves_div _ _).bind_preserves fun q => ?_
    split_ifs <;> exact preserves_pure _
  · exact preserves_pure _

theorem preserves_inodeBlock (inode : Ext2Inode) (index : ℕ) :
    Preserves (ext2InodeBlock env data inode index) := by
  rw [ext2InodeBlock]
  split
  · exact preserves_pure _
  refine preserves_buffer hb (fun r => ?_) fun result => preserves_pure result
  exact preserves_indirectBlock r.2 inode _

theorem preserves_readLoop (inode : Ext2Inode) (offset size fuel bytesRead : ℕ) (blockBuffer buffer : Mem) :
    Preserves (ext2ReadLoop env data inode offset size fuel bytesRead blockBuffer buffer) := by
  induction fuel generalizing bytesRead blockBuffer buffer with
  | zero => exact Frame.throw
  | succ fuel ih =>
    rw [ext2ReadLoop]
    split
    · refine (preserves_div _ _).bind_preserves fun fileBlock => ?_
      refine (preserves_inodeBlock hb inode fileBlock).bind_preserves fun block => ?_
      split
      · exact ih _ _ _
      · exact ih _ _ _
    · exact preserves_pure _

theorem preserves_ext2Read (node : VfsNode Ext2Inode) (offset size : ℕ) (buffer : Mem) :
    Preserves (ext2Read env data node offset size buffer) := by
  rw [ext2Read]
  cases node.inodeData with
  | null => exact preserves_pure _
  | stale ptr => exact Frame.throw
  | loaded ptr inode =>
    dsimp only
    split
    · exact preserves_pure _
    generalize (if inode.iSize < u32 (offset + size) then inode.iSize - offset else size) = n
    split
    · exact preserves_pure _
    · exact preserves_buffer hb (fun r => preserves_readLoop hb inode offset n (n + 1) 0 r.2 buffer)
        fun a => preserves_pure _

theorem preserves_ext2Open (node : VfsNode Ext2Inode) : Preserves (ext2Open env data node) := by
  rw [ext2Open]
  split
  · exact preserves_pure _
  refine frame_kmalloc_bind (by decide) fun ptr _ => ?_
  refine (preserves_readInode hb node.inode).bind_preserves fun inode => ?_
  cases inode with
  | none => exact frame_kfree_bind (Set.mem_insert ..) (Frame.pure (Set.empty_subset _))
  | some inode => exact Frame.pure (Set.empty_subset _)

omit hb in
theorem frame_buildNode (filesystem inodeNo : ℕ) (name : List UInt8) (inode : Ext2Inode) :
    Frame (σ := σ) ∅ (fun r => {r.1}) (ext2BuildNode filesystem inodeNo name inode) :=
  frame_kmalloc_bind (by decide) fun _ _ => Frame.pure (by simp)

omit hb in
theorem preserves_readdirEntries (index : ℕ) (buffer : Mem) (fuel position current : ℕ) :
    Preserves (σ := σ) (ext2ReaddirEntries data index buffer fuel position current) := by
  induction fuel generalizing position current with
  | zero => exact Frame.throw
  | succ fuel ih =>
    rw [ext2ReaddirEntries]
    dsimp only
    split_ifs
    · exact preserves_pure _
    · exact preserves_pure _
    · exact ih _ _
    · exact ih _ _
    · exact preserves_pure _

omit hb in
theorem preserves_finddirEntries (name : List UInt8) (buffer : Mem) (fuel position : ℕ) :
    Preserves (σ := σ) (ext2FinddirEntries data name buffer fuel position) := by
  induction fuel generalizing position with
  | zero => exact Frame.throw
  | succ fuel ih =>
    rw [ext2FinddirEntries]
    dsimp only
    split_ifs
    · exact preserves_pure _
    · exact preserves_pure _
    · exact ih _
    · exact preserves_pure _

/-- The addresses of an optional new object. -/
def optionPtr (r : Option (ℕ × α)) : Set ℕ := {p | ∃ a, r = some (p, a)}

omit hb in
@[simp] theorem mem_optionPtr {p ptr : ℕ} {a : α} : p ∈ optionPtr (some (ptr, a)) ↔ p = ptr := by
  simp [optionPtr]

omit hb in
@[simp] theorem optionPtr_none : optionPtr (none : Option (ℕ × α)) = ∅ := by
  simp [optionPtr]

theorem frame_readdirBlocks (inode : Ext2Inode) (index n b current : ℕ) (buffer : Mem) :
    Frame ∅ optionPtr (ext2ReaddirBlocks env data inode index n b current buffer) := by
  induction n generalizing b current buffer with
  | zero => exact Frame.pure (by simp)
  | succ n ih =>
    rw [ext2ReaddirBlocks]
    refine (preserves_inodeBlock hb inode b).bind_preserves fun block => ?_
    split
    · exact ih _ _ _
    · refine (preserves_readdirEntries index _ _ _ _).bind_preserves fun r => ?_
      obtain ⟨_ | position, current'⟩ := r
      · exact ih _ _ _
      · exact frame_kmalloc_bind (by decide) fun ptr _ => Frame.pure (by
          intro p hp
          exact Set.mem_insert_iff.2 (Or.inl (mem_optionPtr.1 hp)))

theorem preserves_finddirBlocks (inode : Ext2Inode) (name : List UInt8) (n b : ℕ) (buffer : Mem) :
    Preserves (ext2FinddirBlocks env data inode name n b buffer) := by
  induction n generalizing b buffer with
  | zero => exact preserves_pure _
  | succ n ih =>
    rw [ext2FinddirBlocks]
    refine (preserves_inodeBlock hb inode b).bind_preserves fun block => ?_
    split
    · exact ih _ _
    · refine (preserves_finddirEntries name _ _ _).bind_preserves fun r => ?_
      cases r with
      | none => exact ih _ _
      | some child => exact preserves_pure _

theorem frame_ext2Readdir (node : VfsNode Ext2Inode) (index : ℕ) :
    Frame ∅ optionPtr (ext2Readdir env data node index) := by
  rw [ext2Readdir]
  refine (preserves_readInode hb node.inode).bind_preserves fun inode => ?_
  cases inode with
  | none => exact Frame.pure (by simp)
  | some inode =>
    refine frame_kmallocBuffer_bind hb fun ptr buffer _ => ?_
    refine (preserves_div _ _).bind_preserves fun totalBlocks => ?_
    refine (frame_readdirBlocks hb inode index totalBlocks 0 0 buffer).bind fun r hr => ?_
    refine frame_kfree_bind (by simp) (Frame.pure ?_)
    intro p hp
    refine ⟨Or.inr hp, ?_⟩
    rintro rfl
    exact hr p hp (Set.mem_insert ..)

theorem frame_ext2Finddir (node : VfsNode Ext2Inode) (name : List UInt8) :
    Frame ∅ optionPtr (ext2Finddir env data node name) := by
  rw [ext2Finddir]
  refine (preserves_readInode hb node.inode).bind_preserves fun inode => ?_
  cases inode with
  | none => exact Frame.pure (by simp)
  | some inode =>
    refine frame_kmallocBuffer_bind hb fun ptr buffer _ => ?_
    refine (preserves_div _ _).bind_preserves fun totalBlocks => ?_
    refine (preserves_finddirBlocks hb inode name totalBlocks 0 buffer).bind_preserves fun r => ?_
    refine frame_kfree_bind (by simp) ?_
    cases r with
    | none => exact Frame.pure (by simp)
    | some child =>
      refine (preserves_readInode hb child).bind_preserves fun childInode => ?_
      cases childInode with
      | none => exact Frame.pure (by simp)
      | some childInode =>
        dsimp only
        rw [map_eq_pure_bind]
        refine (frame_buildNode _ _ _ _).bind fun r _ => Frame.pure ?_
        intro p hp
        exact Or.inr (mem_optionPtr.1 hp)

end

/-! ## The initial ramdisk -/

theorem frame_initfsReaddir (index : ℕ) :
    Frame (σ := σ) ∅ optionPtr (initfsReaddir env index) := by
  rw [initfsReaddir]
  split
  · exact Frame.pure (by simp)
  refine frame_kmalloc_bind (by decide) fun ptr _ => ?_
  dsimp only
  split
  · exact Frame.pure (by simp)
  · exact Frame.pure fun p hp => Set.mem_insert_iff.2 (Or.inl (mem_optionPtr.1 hp))

theorem frame_initfsFileNode (filesystem index : ℕ) :
    Frame (σ := σ) ∅ (fun r => {r.1}) (initfsFileNode env filesystem index) :=
  frame_kmallocBuffer_bind (by decide) fun _ _ _ => Frame.pure (by simp)

theorem frame_initfsFindFrom (filesystem : ℕ) (name : List UInt8) (n index : ℕ) :
    Frame (σ := σ) ∅ optionPtr (initfsFindFrom env filesystem name n index) := by
  induction n generalizing index with
  | zero => exact Frame.pure (by simp)
  | succ n ih =>
    rw [initfsFindFrom]
    split
    · rw [map_eq_pure_bind]
      refine (frame_initfsFileNode filesystem index).bind fun r _ => Frame.pure ?_
      intro p hp
      exact Or.inr (mem_optionPtr.1 hp)
    · exact ih _

theorem frame_initfsFinddir (filesystem : ℕ) (name : List UInt8) :
    Frame (σ := σ) ∅ optionPtr (initfsFinddir env filesystem name) :=
  frame_initfsFindFrom _ _ _ _

theorem preserves_initfsOpen (node : VfsNode InitfsFileHeader) :
    Preserves (σ := σ) (initfsOpen env node) := by
  rw [initfsOpen]
  split
  · exact preserves_pure _
  split
  · exact preserves_pure _
  refine frame_kmallocBuffer_bind (by decide) fun ptr buffer _ => ?_
  dsimp only
  split <;> exact Frame.pure (Set.empty_subset _)

theorem preserves_initfsRead (node : VfsNode InitfsFileHeader) (offset size : ℕ) (buffer : Mem) :
    Preserves (σ := σ) (initfsRead env node offset size buffer) := by
  rw [initfsRead]
  cases node.inodeData with
  | null => exact preserves_pure _
  | stale ptr => exact Frame.throw
  | loaded ptr fileHeader =>
    dsimp only
    split <;> exact preserves_pure _

end Ttos
