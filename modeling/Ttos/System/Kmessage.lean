/-
  The kernel log (kmessage.c) and the system call that reads it (syscall_dmesg).

  `kmessage` does not use its `level`: every message is logged with the level INFO.

  * `KmessageRun`: the calls in order, other kernel code in between.
  * `KmessageRun.logged`: what the log holds then.
  * `dmesg_faithful`: `dmesg` returns levels and messages of the calls exactly if all the
    levels are INFO.
-/
import Ttos.Memory.KernelHeap
import Ttos.Util.LinkedList
import Ttos.Util.Strings

namespace Ttos

/-! ## The code -/

/-- `kmessage_message_t`: two pointers to strings. -/
structure KmessageMessage where
  level : ℕ
  message : ℕ
deriving DecidableEq, Repr

/-- `sizeof(kmessage_message_t)`, `sizeof(linked_list_t)` -/
abbrev kmessageMessageSize : ℕ := 8
abbrev linkedListSizeof : ℕ := 8

/-- The heap, the strings, the messages by their addresses, and `kmessage_messages`. -/
structure KmessageState (σ : Type*) where
  heap : σ
  mem : Mem
  messages : ℕ → KmessageMessage
  log : ListMemory

variable {σ : Type*} [Allocator σ]

/-- `kmessage_init`; `none` where it panics. -/
def kmessageInit (s : KmessageState σ) : Option (KmessageState σ) :=
  let list := Allocator.alloc s.heap linkedListSizeof false
  if list.1 = 0 then none
  else some { s with heap := list.2, log := linkedListCreate s.log.nodes }

/-- `kmessage`, the string of `KMESSAGE_LEVEL_INFO` at `levelInfo`; `none` where it panics. -/
def kmessage (levelInfo : ℕ) (s : KmessageState σ) (_level message : ℕ) :
    Option (KmessageState σ) :=
  let kmessageMessage := Allocator.alloc s.heap kmessageMessageSize false
  if kmessageMessage.1 = 0 then none
  else
    let messages := Function.update s.messages kmessageMessage.1 ⟨levelInfo, message⟩
    let node := Allocator.alloc kmessageMessage.2 linkedListNodeSize false
    if node.1 = 0 then none
    else some {
      heap := node.2
      mem := s.mem
      messages
      log := linkedListAppend (linkedListCreateNode s.log node.1 kmessageMessage.1) node.1 }

/-- `syscall_dmesg`: what it returns, and the memory then (`level[16]`, `message[256]` at
    `entry`). -/
def syscallDmesg (fuel : ℕ) (s : KmessageState σ) (index entry : ℕ) : Option (ℤ × Mem) :=
  if entry = 0 then some (-1, s.mem)
  else do
    let node ← linkedListGet fuel s.log index
    if node = 0 then pure (-1, s.mem)
    else
      let message := s.messages (s.log.nodes node).data
      let mem := (strncpy 16 s.mem entry message.level).store8 (entry + 15) 0
      let mem := (strncpy 256 mem (entry + 16) message.message).store8 (entry + 16 + 255) 0
      pure (0, mem)

/-! ## The calls -/

/-- `KMESSAGE_LEVEL_INFO` -/
def kmessageLevelInfo : List UInt8 := [73, 78, 70, 79]

/-- `KMESSAGE_LEVEL_WARN` -/
def kmessageLevelWarn : List UInt8 := [87, 65, 82, 78]

/-- The two arguments of a call, and the strings they point to. -/
structure KmessageCall where
  level : ℕ
  message : ℕ
  levelText : List UInt8
  messageText : List UInt8

/-- The strings of the calls, as they were. -/
structure Texts (levelInfo : ℕ) (calls : List KmessageCall) (m : Mem) : Prop where
  info : m.HasString levelInfo kmessageLevelInfo
  level : ∀ c ∈ calls, m.HasString c.level c.levelText
  message : ∀ c ∈ calls, m.HasString c.message c.messageText

/-- Other kernel code: it uses the heap and its own objects, and nothing of the log. -/
structure Elsewhere (s s' : KmessageState σ) : Prop where
  list : s'.log.list = s.log.list
  nodes : ∀ xs, s.log.Holds xs → ∀ b ∈ xs, s'.log.nodes b = s.log.nodes b ∧
    s'.messages (s.log.nodes b).data = s.messages (s.log.nodes b).data ∧
    ∀ p ∈ [b, (s.log.nodes b).data], Allocator.Live s.heap p → Allocator.Live s'.heap p

/-- The calls after `kmessage_init`, in order.  Pointers have 32 bits. -/
inductive KmessageRun (levelInfo : ℕ) : List KmessageCall → KmessageState σ → Prop
  | init {s s' : KmessageState σ} : Texts levelInfo [] s.mem → kmessageInit s = some s' →
    KmessageRun levelInfo [] s'
  | call {calls : List KmessageCall} {c : KmessageCall} {s s' : KmessageState σ} :
    KmessageRun levelInfo calls s → Texts levelInfo (calls ++ [c]) s.mem →
    kmessage levelInfo s c.level c.message = some s' → s'.log.list.tail < 2 ^ 32 →
    KmessageRun levelInfo (calls ++ [c]) s'
  | other {calls : List KmessageCall} {s s' : KmessageState σ} :
    KmessageRun levelInfo calls s → Elsewhere s s' → Texts levelInfo calls s'.mem →
    KmessageRun levelInfo calls s'

/-! ## The log -/

/-- The log holds the messages of the calls, all of them with the level INFO. -/
structure Logged (levelInfo : ℕ) (calls : List KmessageCall) (s : KmessageState σ)
    (xs : List ℕ) : Prop where
  holds : s.log.Holds xs
  bound : ∀ b ∈ xs, b < 2 ^ 32
  live : ∀ b ∈ xs, Allocator.Live s.heap b ∧ Allocator.Live s.heap (s.log.nodes b).data
  entries : (xs.map fun b => s.messages (s.log.nodes b).data) =
    calls.map fun c => ⟨levelInfo, c.message⟩

variable {levelInfo : ℕ} {calls : List KmessageCall} {c : KmessageCall} {s s' : KmessageState σ}
  {xs : List ℕ}

/-- **One call** adds its message. -/
theorem Logged.call (h : Logged levelInfo calls s xs)
    (hcall : kmessage levelInfo s c.level c.message = some s') (hbound : s'.log.list.tail < 2 ^ 32) :
    s'.mem = s.mem ∧ ∃ xs', Logged levelInfo (calls ++ [c]) s' xs' := by
  have hreq : Request kmessageMessageSize := by decide
  have hreq' : Request linkedListNodeSize := by decide
  unfold kmessage at hcall
  dsimp only at hcall
  split at hcall
  · exact nomatch hcall
  rename_i hp0
  split at hcall
  · exact nomatch hcall
  rename_i hn0
  obtain ⟨p, hp⟩ : ∃ p, (Allocator.alloc s.heap kmessageMessageSize false).1 = p := ⟨_, rfl⟩
  obtain ⟨heap₁, hheap₁⟩ : ∃ heap₁, (Allocator.alloc s.heap kmessageMessageSize false).2 = heap₁ :=
    ⟨_, rfl⟩
  have hpnew : Allocator.Live heap₁ p := hp ▸ hheap₁ ▸ Allocator.alloc_new hreq hp0
  have hkeep₁ {b : ℕ} (hb : Allocator.Live s.heap b) : Allocator.Live heap₁ b ∧ b ≠ p :=
    hp ▸ hheap₁ ▸ ⟨Allocator.alloc_keeps hreq hb, Allocator.ne_of_live hreq hb⟩
  rw [hp, hheap₁] at hcall
  rw [hheap₁] at hn0
  obtain ⟨node, hnode⟩ : ∃ node, (Allocator.alloc heap₁ linkedListNodeSize false).1 = node :=
    ⟨_, rfl⟩
  obtain ⟨heap₂, hheap₂⟩ : ∃ heap₂, (Allocator.alloc heap₁ linkedListNodeSize false).2 = heap₂ :=
    ⟨_, rfl⟩
  have hnnew : Allocator.Live heap₂ node := hnode ▸ hheap₂ ▸ Allocator.alloc_new hreq' hn0
  have hkeep₂ {b : ℕ} (hb : Allocator.Live heap₁ b) : Allocator.Live heap₂ b ∧ b ≠ node :=
    hnode ▸ hheap₂ ▸ ⟨Allocator.alloc_keeps hreq' hb, Allocator.ne_of_live hreq' hb⟩
  rw [hnode] at hn0
  rw [hnode, hheap₂, Option.some_inj] at hcall
  subst hcall
  have hnotin : node ∉ xs := fun hm => (hkeep₂ (hkeep₁ (h.live node hm).1).1).2 rfl
  have hdata {b : ℕ} (hb : b ∈ xs) : ((linkedListAppend (linkedListCreateNode s.log node p) node).nodes
      b).data = (s.log.nodes b).data := by
    have hne : b ≠ node := fun heq => hnotin (heq ▸ hb)
    simp [linkedListCreateNode, hne]
  have hdata' : ((linkedListAppend (linkedListCreateNode s.log node p) node).nodes node).data = p := by
    simp [linkedListCreateNode]
  have holds := (h.holds.createNode hnotin p).append hn0 hnotin
  refine ⟨rfl, xs ++ [node], holds, fun b hb => ?_, fun b hb => ?_, ?_⟩
  · rcases List.mem_append.1 hb with hb | hb
    · exact h.bound b hb
    · have htail := holds.tail_eq
      rw [List.getLastD_concat] at htail
      rw [List.mem_singleton.1 hb, ← htail]
      exact hbound
  · rcases List.mem_append.1 hb with hb | hb
    · obtain ⟨h1, h2⟩ := h.live b hb
      rw [hdata hb]
      exact ⟨(hkeep₂ (hkeep₁ h1).1).1, (hkeep₂ (hkeep₁ h2).1).1⟩
    · rw [List.mem_singleton.1 hb, hdata']
      exact ⟨hnnew, (hkeep₂ hpnew).1⟩
  · rw [List.map_append, List.map_append, ← h.entries]
    refine congrArg₂ (· ++ ·) (List.map_congr_left fun b hb => ?_) ?_
    · rw [hdata hb]
      exact Function.update_of_ne (hkeep₁ (h.live b hb).2).2 ..
    · show [Function.update s.messages p _ _] = _
      rw [hdata', Function.update_self]
      rfl

/-- Other code leaves the log as it is. -/
theorem Logged.other (h : Logged levelInfo calls s xs) (helse : Elsewhere s s') :
    Logged levelInfo calls s' xs := by
  have hnodes := helse.nodes xs h.holds
  refine ⟨h.holds.frame helse.list fun b hb => (hnodes b hb).1, h.bound, fun b hb => ?_, ?_⟩
  · obtain ⟨h1, -, h3⟩ := hnodes b hb
    rw [h1]
    exact ⟨h3 b (by simp) (h.live b hb).1, h3 _ (by simp) (h.live b hb).2⟩
  · rw [← h.entries]
    refine List.map_congr_left fun b hb => ?_
    obtain ⟨h1, h2, -⟩ := hnodes b hb
    rw [h1, h2]

/-- **What the log holds after a run.** -/
theorem KmessageRun.logged (h : KmessageRun levelInfo calls s) :
    Texts levelInfo calls s.mem ∧ ∃ xs, Logged levelInfo calls s xs := by
  induction h with
  | @init s s' htexts hinit =>
    unfold kmessageInit at hinit
    dsimp only at hinit
    split at hinit
    · exact nomatch hinit
    · obtain rfl := Option.some.inj hinit
      exact ⟨htexts, [], .nil rfl, fun b hb => absurd hb List.not_mem_nil,
        fun b hb => absurd hb List.not_mem_nil, rfl⟩
  | call _ htexts hcall hbound ih =>
    obtain ⟨hmem, xs', h'⟩ := ih.2.elim fun xs hxs => hxs.call hcall hbound
    exact ⟨hmem ▸ htexts, xs', h'⟩
  | other _ helse htexts ih => exact ⟨htexts, ih.2.imp fun xs hxs => hxs.other helse⟩

/-! ## Reading the log -/

/-- An entry of a process, apart from the strings of the kernel. -/
structure EntryAt (levelInfo : ℕ) (calls : List KmessageCall) (entry : ℕ) : Prop where
  ne_null : entry ≠ 0
  info : entry + 272 ≤ levelInfo ∨ levelInfo + kmessageLevelInfo.length < entry
  message : ∀ c ∈ calls, entry + 272 ≤ c.message ∨ c.message + c.messageText.length < entry

/-- `dmesg` with this index returns the call with this number, its level and its message cut to
    the size of the entry, and `-1` behind the last call. -/
def DmesgFaithful (fuel : ℕ) (calls : List KmessageCall) (s : KmessageState σ)
    (index entry : ℕ) : Prop :=
  match calls[index]? with
  | some c => ∃ m, syscallDmesg fuel s index entry = some (0, m) ∧
    m.HasString entry (c.levelText.take 15) ∧ m.HasString (entry + 16) (c.messageText.take 255)
  | none => syscallDmesg fuel s index entry = some (-1, s.mem)

variable {fuel index entry : ℕ}

/-- There are fewer calls than pointers. -/
theorem Logged.length_lt (h : Logged levelInfo calls s xs) : xs.length < 2 ^ 32 :=
  h.holds.length_lt h.bound

theorem Logged.length_eq (h : Logged levelInfo calls s xs) : xs.length = calls.length := by
  have hlen := congrArg List.length h.entries
  rwa [List.length_map, List.length_map] at hlen

/-- **What `dmesg` returns** for a message of the log. -/
theorem syscallDmesg_some (h : Logged levelInfo calls s xs) (htexts : Texts levelInfo calls s.mem)
    (hentry : EntryAt levelInfo calls entry) (hfuel : calls.length < fuel)
    (hc : calls[index]? = some c) : ∃ m, syscallDmesg fuel s index entry = some (0, m) ∧
      m.HasString entry kmessageLevelInfo ∧ m.HasString (entry + 16) (c.messageText.take 255) := by
  have hlen := h.length_eq
  have hmem : c ∈ calls := List.mem_of_getElem? hc
  obtain ⟨hindex, rfl⟩ := List.getElem?_eq_some_iff.1 hc
  have hx : index < xs.length := by omega
  have hget : linkedListGet fuel s.log index = some xs[index] := by
    rw [h.holds.get h.length_lt (by omega), List.getElem?_eq_getElem hx]
    rfl
  have hne : xs[index] ≠ 0 := fun h0 => h.holds.zero (h0 ▸ List.getElem_mem hx)
  have hentries : s.messages (s.log.nodes xs[index]).data = ⟨levelInfo, calls[index].message⟩ := by
    have hi := congrArg (fun ms => ms[index]?) h.entries
    simpa [List.getElem?_eq_getElem hx, List.getElem?_eq_getElem hindex] using hi
  have hlevel : entry + (15 + 1) ≤ levelInfo ∨ levelInfo + kmessageLevelInfo.length < entry := by
    have hinfo := hentry.info
    omega
  have hmsg := hentry.message _ hmem
  -- The second copy finds its string where it was, and leaves the first one alone.
  have hstring := (htexts.message _ hmem).congr fun x h1 h2 =>
    strncpy_out htexts.info hlevel (x := x) (by omega)
  have hmessage := hasString_strncpy (b := entry + 16) (n := 255) hstring (by omega)
  have hinfo := hasString_strncpy (b := entry) (n := 15) htexts.info hlevel
  refine ⟨_, ?_, hinfo.congr fun x h1 h2 => ?_, hmessage⟩
  · rw [syscallDmesg, if_neg hentry.ne_null, hget]
    show (if xs[index] = 0 then _ else _) = _
    rw [if_neg hne, hentries]
    rfl
  · have h3 : (kmessageLevelInfo.take 15).length = 4 := rfl
    rw [h3] at h2
    exact strncpy_out hstring (by omega) (by omega)

/-- Behind the last one. -/
theorem syscallDmesg_none (h : Logged levelInfo calls s xs) (h0 : entry ≠ 0)
    (hfuel : calls.length < fuel) (hc : calls[index]? = none) :
    syscallDmesg fuel s index entry = some (-1, s.mem) := by
  have hlen := h.length_eq
  have hget : linkedListGet fuel s.log index = some 0 := by
    rw [List.getElem?_eq_none_iff] at hc
    rw [h.holds.get h.length_lt (by omega), List.getElem?_eq_none (by omega)]
    rfl
  rw [syscallDmesg, if_neg h0, hget]
  rfl

/-- **`dmesg` is faithful exactly if every call has the level INFO.** -/
theorem dmesg_faithful (h : KmessageRun levelInfo calls s) (hentry : EntryAt levelInfo calls entry)
    (hfuel : calls.length < fuel) :
    (∀ index < 2 ^ 32, DmesgFaithful fuel calls s index entry) ↔
      ∀ c ∈ calls, c.levelText = kmessageLevelInfo := by
  obtain ⟨htexts, xs, hlog⟩ := h.logged
  constructor
  · intro hall c hc
    obtain ⟨index, hindex, rfl⟩ := List.getElem_of_mem hc
    have hget := List.getElem?_eq_getElem hindex
    have hlt := hlog.length_lt
    rw [hlog.length_eq] at hlt
    have hfaith := hall index (by omega)
    rw [DmesgFaithful, hget] at hfaith
    obtain ⟨m, hm, hlevel, -⟩ := hfaith
    obtain ⟨m', hm', hinfo, -⟩ := syscallDmesg_some hlog htexts hentry hfuel hget
    rw [hm, Option.some_inj] at hm'
    obtain rfl := congrArg Prod.snd hm'
    have htake := hlevel.inj hinfo
    have hlen := congrArg List.length htake
    rw [List.length_take, show kmessageLevelInfo.length = 4 from rfl] at hlen
    rwa [List.take_of_length_le (by omega)] at htake
  · intro hall index _
    unfold DmesgFaithful
    cases hc : calls[index]? with
    | none => exact syscallDmesg_none hlog hentry.ne_null hfuel hc
    | some c =>
      obtain ⟨m, hm, hlevel, hmessage⟩ := syscallDmesg_some hlog htexts hentry hfuel hc
      refine ⟨m, hm, ?_, hmessage⟩
      rw [hall c (List.mem_of_getElem? hc)]
      exact hlevel

/-! ## A call with another level -/

/-- One call after `kmessage_init`, where the heap serves it. -/
theorem exists_run (m : Mem) (c : KmessageCall) (htexts : Texts levelInfo [c] m) {heap heap₁ heap₂ : σ}
    (hlist : (Allocator.alloc heap linkedListSizeof false).1 ≠ 0)
    (hheap : (Allocator.alloc heap linkedListSizeof false).2 = heap₁)
    (hmessage : (Allocator.alloc heap₁ kmessageMessageSize false).1 ≠ 0)
    (hheap' : (Allocator.alloc heap₁ kmessageMessageSize false).2 = heap₂)
    (hnode : (Allocator.alloc heap₂ linkedListNodeSize false).1 ≠ 0)
    (hbound : (Allocator.alloc heap₂ linkedListNodeSize false).1 < 2 ^ 32) :
    ∃ s : KmessageState σ, KmessageRun levelInfo [c] s := by
  subst hheap hheap'
  let s : KmessageState σ := ⟨heap, m, fun _ => ⟨0, 0⟩, linkedListCreate fun _ => ⟨0, 0, 0⟩⟩
  have hinit : kmessageInit s = some { s with
      heap := (Allocator.alloc s.heap linkedListSizeof false).2
      log := linkedListCreate s.log.nodes } := if_neg hlist
  have hrun : KmessageRun levelInfo [] _ :=
    .init (s := s) ⟨htexts.info, fun _ hc => absurd hc List.not_mem_nil,
      fun _ hc => absurd hc List.not_mem_nil⟩ hinit
  exact ⟨_, .call hrun htexts ((if_neg hmessage).trans (if_neg hnode)) hbound⟩

/-- INFO, WARN and a message in memory. -/
def threeTexts : Mem := fun x =>
  ([73, 78, 70, 79, 0, 87, 65, 82, 78, 0, 104, 105, 0] : List UInt8)[x - 4096]?.getD 0

/-- `kmessage(KMESSAGE_LEVEL_WARN, "hi")` -/
def warnCall : KmessageCall := ⟨4101, 4106, kmessageLevelWarn, [104, 105]⟩

/-- `kmessage(KMESSAGE_LEVEL_INFO, "hi")` -/
def infoCall : KmessageCall := ⟨4096, 4106, kmessageLevelInfo, [104, 105]⟩

/-- The boot heap serves the list, the message and the node. -/
theorem placementHeap_serves : ∃ heap heap' : KernelHeap,
    (Allocator.alloc placementHeap linkedListSizeof false).1 ≠ 0 ∧
      (Allocator.alloc placementHeap linkedListSizeof false).2 = heap ∧
      (Allocator.alloc heap kmessageMessageSize false).1 ≠ 0 ∧
      (Allocator.alloc heap kmessageMessageSize false).2 = heap' ∧
      (Allocator.alloc heap' linkedListNodeSize false).1 ≠ 0 ∧
      (Allocator.alloc heap' linkedListNodeSize false).1 < 2 ^ 32 := by
  refine ⟨_, _, ?_, rfl, ?_, rfl, ?_, ?_⟩ <;> decide +kernel

theorem exists_run_texts (c : KmessageCall) (hc : c = warnCall ∨ c = infoCall) :
    ∃ s : KmessageState KernelHeap, KmessageRun 4096 [c] s ∧ EntryAt 4096 [c] 8192 := by
  obtain ⟨heap, heap', h1, hh, h2, hh', h3, h4⟩ := placementHeap_serves
  have htexts : Texts 4096 [c] threeTexts := by
    refine ⟨?_, fun d hd => ?_, fun d hd => ?_⟩
    · unfold Mem.HasString
      decide
    all_goals
      rw [List.mem_singleton.1 hd]
      unfold Mem.HasString
      rcases hc with rfl | rfl <;> decide
  obtain ⟨s, hs⟩ := exists_run threeTexts c htexts h1 hh h2 hh' h3 h4
  refine ⟨s, hs, by decide, .inr (by decide), fun d hd => .inr ?_⟩
  rw [List.mem_singleton.1 hd]
  rcases hc with rfl | rfl <;> decide

theorem dmesg_faithful_infoCall : ∃ s : KmessageState KernelHeap, KmessageRun 4096 [infoCall] s ∧
    ∀ index < 2 ^ 32, DmesgFaithful 2 [infoCall] s index 8192 := by
  obtain ⟨s, hs, hentry⟩ := exists_run_texts infoCall (.inr rfl)
  refine ⟨s, hs, (dmesg_faithful hs hentry (by decide)).2 fun c hc => ?_⟩
  rw [List.mem_singleton.1 hc]
  rfl

/-- A message logged with WARN is returned with INFO. -/
theorem dmesg_warnCall : ∃ s : KmessageState KernelHeap, KmessageRun 4096 [warnCall] s ∧
    EntryAt 4096 [warnCall] 8192 ∧ ¬ DmesgFaithful 2 [warnCall] s 0 8192 := by
  obtain ⟨s, hs, hentry⟩ := exists_run_texts warnCall (.inl rfl)
  refine ⟨s, hs, hentry, fun hfaith => ?_⟩
  obtain ⟨htexts, xs, hlog⟩ := hs.logged
  obtain ⟨m, hm, hlevel, -⟩ : ∃ m, syscallDmesg 2 s 0 8192 = some (0, m) ∧
    m.HasString 8192 (kmessageLevelWarn.take 15) ∧ _ := hfaith
  have hfuel : [warnCall].length < 2 := by decide
  have hget : [warnCall][0]? = some warnCall := rfl
  obtain ⟨m', hm', hinfo, -⟩ := syscallDmesg_some hlog htexts hentry hfuel hget
  rw [hm, Option.some_inj] at hm'
  obtain rfl := congrArg Prod.snd hm'
  exact absurd (hlevel.inj hinfo) (by decide)

end Ttos
