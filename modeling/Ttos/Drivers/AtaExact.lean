/-
  When ata_write and ata_read transfer exactly what they are asked to.

  * `AtaWhole`: a request that begins at a sector or lies in one; the loops transfer it
    (`ataWriteLoop_data`, `ataReadLoop_data`), to or from the master of the channel.
  * `ataReturned`: the number of bytes that is returned, for every request.
  * `ata_write_exact`, `ata_read_exact`: which requests are served right.
-/
import Ttos.Drivers.AtaLoops

namespace Ttos

/-! ## Requests that are transferred -/

/-- A request on the drive that begins at a sector or lies in one, with a buffer apart
    from the sector buffer. -/
structure AtaWhole (sectorBuffer offset size buffer : ℕ) : Prop where
  pos : 0 < size
  lt : offset + size < 4294967296
  whole : offset % 512 = 0 ∨ offset % 512 + size ≤ 512
  fits : buffer + size ≤ 4294967296
  apart : buffer + size ≤ sectorBuffer ∨ sectorBuffer + 512 ≤ buffer

/-- The loop has come to a sector, and the buffer to the byte that is transferred next. -/
def AtaLoop.At (offset buffer sector : ℕ) (l : AtaLoop) : Prop :=
  l.Steady sector (offset / 512) (offset % 512) ∧
    l.pointer = buffer + (max offset (512 * sector) - offset)

section
variable {device : AtaDevice} {sectorBuffer offset size buffer n sector : ℕ} {l : AtaLoop}
  {s : AtaState}

theorem ataEnd_of_lt (h0 : 0 < size) (h : offset + size < 4294967296) :
    ataEnd offset size = offset + size - 1 := by
  unfold ataEnd sub32 u32
  omega

/-- The bytes of the request in a sector: they are some, and the next ones are in the
    next sector. -/
theorem part_bounds (h0 : 0 < size) (hfirst : offset / 512 ≤ sector)
    (hlast : sector ≤ (offset + size - 1) / 512) :
    512 * sector ≤ max offset (512 * sector) ∧
      max offset (512 * sector) < min (offset + size) (512 * sector + 512) ∧
      max offset (512 * (sector + 1)) = 512 * sector + 512 := by
  refine ⟨le_max_right _ _, ?_, ?_⟩
  · rw [max_lt_iff, lt_min_iff, lt_min_iff]
    omega
  · rw [Nat.mul_succ]
    exact max_eq_right (by omega)

/-- Where a part begins in its sector: no later sector has an offset. -/
theorem part_offset (hw : offset % 512 = 0 ∨ offset % 512 + size ≤ 512) (h0 : 0 < size)
    (hfirst : offset / 512 ≤ sector) (hlast : sector ≤ (offset + size - 1) / 512) :
    offset % 512 = max offset (512 * sector) - 512 * sector := by
  rcases hw with hw | hw
  · rw [max_eq_right (by omega), hw, Nat.sub_self]
  · rw [max_eq_left (by omega)]
    omega

/-- The last part ends with the request. -/
theorem last_part (hw : offset % 512 = 0 ∨ offset % 512 + size ≤ 512) (h0 : 0 < size)
    (hfirst : offset / 512 ≤ sector) (hx : sector = (offset + size - 1) / 512) :
    (offset + size - 1) % 512 - offset % 512 + 1 =
      min (offset + size) (512 * sector + 512) - max offset (512 * sector) := by
  rw [min_eq_left (by omega)]
  rcases hw with hw | hw
  · rw [max_eq_right (by omega)]
    omega
  · rw [max_eq_left (by omega)]
    omega

/-- The others end with their sector, and only the first begins in it. -/
theorem inner_part (hw : offset % 512 = 0 ∨ offset % 512 + size ≤ 512)
    (hfirst : offset / 512 ≤ sector) (hx : sector < (offset + size - 1) / 512) :
    512 - offset % 512 = min (offset + size) (512 * sector + 512) - max offset (512 * sector) := by
  have h0 : offset % 512 = 0 := hw.resolve_right (by omega)
  rw [min_eq_right (by omega), max_eq_right (by omega), h0]
  omega

/-- The part of the request in a sector, and the loop behind it. -/
theorem AtaLoop.At.locate (h : AtaWhole sectorBuffer offset size buffer)
    (hl : l.At offset buffer sector) (hfirst : offset / 512 ≤ sector)
    (hlast : sector ≤ (offset + size - 1) / 512) :
    let l' := l.locate sector (offset / 512) (offset % 512) ((offset + size - 1) / 512)
      ((offset + size - 1) % 512)
    l'.offset = max offset (512 * sector) - 512 * sector ∧
      l'.size = min (offset + size) (512 * sector + 512) - max offset (512 * sector) ∧
      l'.pointer = buffer + (max offset (512 * sector) - offset) ∧
      (sector < (offset + size - 1) / 512 → l'.advance.At offset buffer (sector + 1)) := by
  intro l'
  obtain ⟨hsteady, hptr⟩ := hl
  obtain ⟨hpos, hlt, hw, hfits, -⟩ := h
  have hfo : offset % 512 < 512 := Nat.mod_lt _ (by decide)
  have hoff : l'.offset = max offset (512 * sector) - 512 * sector :=
    (locate_offset hsteady).trans (part_offset hw hpos hfirst hlast)
  have hp : l'.pointer = buffer + (max offset (512 * sector) - offset) :=
    locate_pointer.trans hptr
  have hsz : l'.size = min (offset + size) (512 * sector + 512) - max offset (512 * sector) := by
    by_cases hx : sector = (offset + size - 1) / 512
    · have hle : offset % 512 ≤ (offset + size - 1) % 512 := by
        clear hfirst hlast hx
        omega
      have hlo : (offset + size - 1) % 512 < 512 := Nat.mod_lt _ (by decide)
      rw [locate_size hfo hsteady, if_pos hx, sub32_of_le hle (by omega), u32_of_lt (by omega)]
      exact last_part hw hpos hfirst hx
    · rw [locate_size hfo hsteady, if_neg hx]
      exact inner_part hw hfirst (by omega)
  refine ⟨hoff, hsz, hp, fun hx => ⟨steady_next hfo hsteady hx.ne, ?_⟩⟩
  obtain ⟨hlo, hlohi, hnext⟩ := part_bounds hpos hfirst hlast
  have hge : offset ≤ max offset (512 * sector) := le_max_left _ _
  have hend : 512 * sector + 512 < offset + size := by omega
  have hsum : l'.pointer + l'.size = buffer + (512 * sector + 512 - offset) := by
    rw [min_eq_right hend.le] at hsz hlohi
    rw [hp, hsz, Nat.add_assoc, Nat.add_comm (_ - offset), Nat.sub_add_sub_cancel hlohi.le hge]
  show u32 (l'.pointer + l'.size) = _
  rw [hsum, hnext, u32_of_lt (by omega)]

/-- **The loop of `ata_write`** transfers the rest of the request. -/
theorem ataWriteLoop_data (h : AtaWhole sectorBuffer offset size buffer)
    (hn : sector + n = (offset + size - 1) / 512 + 1) (hfirst : offset / 512 ≤ sector)
    (hl : n ≠ 0 → l.At offset buffer sector) (x : ℕ) :
    (ataWriteLoop device sectorBuffer (offset / 512) (offset % 512) ((offset + size - 1) / 512)
      ((offset + size - 1) % 512) n sector l s).2.bus.byte (ataMaster device) x =
      if max offset (512 * sector) ≤ x ∧ x < offset + size then s.mem (buffer + (x - offset))
      else s.bus.byte (ataMaster device) x := by
  have hpos := h.pos
  have hlt := h.lt
  have hap := h.apart
  induction n generalizing sector l s with
  | zero =>
    rw [if_neg (by omega)]
    rfl
  | succ n ih =>
    rw [ataWriteLoop]
    obtain ⟨h1, h2, h3, h4⟩ := (hl (Nat.succ_ne_zero n)).locate h hfirst (by omega)
    generalize hl' : l.locate sector (offset / 512) (offset % 512) ((offset + size - 1) / 512)
      ((offset + size - 1) % 512) = l' at h1 h2 h3 h4
    show (ataWriteLoop device sectorBuffer _ _ _ _ n (sector + 1) l'.advance
      (ataWriteStep device sectorBuffer sector l' s)).2.bus.byte _ x = _
    rw [ih (by omega) (by omega) (fun hn0 => h4 (by omega))]
    obtain ⟨hlo, hlohi, hnext⟩ := part_bounds hpos hfirst (by omega)
    obtain ⟨h5, h6, h7⟩ := ataWriteStep_data device sectorBuffer l' s
      (show sector < 268435456 by omega) hlo hlohi.le (min_le_right _ _) h1 h2
    have hoff : offset ≤ max offset (512 * sector) := le_max_left _ _
    rw [hnext]
    clear h1 h2 h4 hnext hn hfirst
    generalize max offset (512 * sector) = lo at *
    by_cases hup : 512 * sector + 512 ≤ x ∧ x < offset + size
    · rw [if_pos hup, if_pos (by omega), h7 _ (by omega)]
    · rw [if_neg hup]
      by_cases hin : lo ≤ x ∧ x < min (offset + size) (512 * sector + 512)
      · have hptr : l'.pointer + (x - lo) = buffer + (x - offset) := by omega
        rw [h5 x hin.1 hin.2 (by omega), if_pos (by omega), hptr]
      · rw [h6 x hin, if_neg (by omega)]

/-- **The loop of `ata_read`** transfers the rest of the request, and writes nothing else
    but the sector buffer. -/
theorem ataReadLoop_data (h : AtaWhole sectorBuffer offset size buffer)
    (hn : sector + n = (offset + size - 1) / 512 + 1) (hfirst : offset / 512 ≤ sector)
    (hl : n ≠ 0 → l.At offset buffer sector) (x : ℕ)
    (hx : x < sectorBuffer ∨ sectorBuffer + 512 ≤ x) :
    (ataReadLoop device sectorBuffer (offset / 512) (offset % 512) ((offset + size - 1) / 512)
      ((offset + size - 1) % 512) n sector l s).2.mem x =
      if buffer + (max offset (512 * sector) - offset) ≤ x ∧ x < buffer + size then
        s.bus.byte (ataMaster device) (offset + (x - buffer))
      else s.mem x := by
  have hpos := h.pos
  have hlt := h.lt
  induction n generalizing sector l s with
  | zero =>
    rw [if_neg (by omega)]
    rfl
  | succ n ih =>
    rw [ataReadLoop]
    obtain ⟨h1, h2, h3, h4⟩ := (hl (Nat.succ_ne_zero n)).locate h hfirst (by omega)
    generalize hl' : l.locate sector (offset / 512) (offset % 512) ((offset + size - 1) / 512)
      ((offset + size - 1) % 512) = l' at h1 h2 h3 h4
    show (ataReadLoop device sectorBuffer _ _ _ _ n (sector + 1) l'.advance
      (ataReadStep device sectorBuffer sector l' s)).2.mem x = _
    rw [ih (by omega) (by omega) (fun hn0 => h4 (by omega))]
    obtain ⟨hlo, hlohi, hnext⟩ := part_bounds hpos hfirst (by omega)
    obtain ⟨h5, h6, h7⟩ := ataReadStep_data device sectorBuffer l' s
      (show sector < 268435456 by omega) hlo hlohi.le (min_le_right _ _) h1 h2
    have hoff : offset ≤ max offset (512 * sector) := le_max_left _ _
    rw [AtaBus.byte, h5, ← AtaBus.byte, hnext]
    clear h1 h2 h4 hnext hn hfirst
    generalize max offset (512 * sector) = lo at *
    by_cases hup : buffer + (512 * sector + 512 - offset) ≤ x ∧ x < buffer + size
    · rw [if_pos hup, if_pos (by omega)]
    · rw [if_neg hup]
      by_cases hin : l'.pointer ≤ x ∧
          x < l'.pointer + (min (offset + size) (512 * sector + 512) - lo)
      · have hxj : l'.pointer + (x - l'.pointer) = x := by omega
        have hbyte : lo + (x - l'.pointer) = offset + (x - buffer) := by omega
        have h8 := h6 (x - l'.pointer) (by omega)
        rw [hxj, hbyte] at h8
        rw [h8, if_pos (by omega)]
      · rw [h7 x hx hin, if_neg (by omega)]

end

/-! ## The number of bytes -/

/-- What `ata_write` and `ata_read` return for a request that is accepted. -/
def ataReturned (offset size : ℕ) : ℕ :=
  if ataSectors offset size = 0 then 0
  else u32 ((ataSectors offset size - 1) * (512 - offset % 512) +
    u32 (sub32 (ataEnd offset size % 512) (offset % 512) + 1))

section
variable {device : AtaDevice} {sectorBuffer offset size buffer : ℕ} {s : AtaState}

theorem ataSectors_eq (offset size : ℕ) :
    ataSectors offset size = ataEnd offset size / 512 + 1 - offset / 512 := rfl

theorem total_ataReturned (offset size buffer : ℕ) :
    (ataLoopEnd (offset / 512) (offset % 512) (ataEnd offset size / 512) (ataEnd offset size % 512)
      (ataSectors offset size) (offset / 512) ⟨buffer, 0, 0, 0⟩).total = ataReturned offset size := by
  unfold ataReturned
  cases hn : ataSectors offset size with
  | zero => rfl
  | succ n =>
    rw [ataSectors_eq] at hn
    rw [total_ataLoopEnd (Nat.mod_lt _ (by decide)) (by omega) (Or.inl rfl), if_neg (by omega),
      Nat.add_sub_cancel, Nat.zero_add]

theorem ataReturned_whole (h0 : 0 < size) (hlt : offset + size < 4294967296)
    (hw : offset % 512 = 0 ∨ offset % 512 + size ≤ 512) : ataReturned offset size = size := by
  have hend := ataEnd_of_lt h0 hlt
  rw [ataReturned, ataSectors_eq, hend, if_neg (by omega)]
  rcases hw with hw | hw
  · rw [hw]
    unfold sub32 u32
    omega
  · have hone : (offset + size - 1) / 512 + 1 - offset / 512 - 1 = 0 := by omega
    rw [hone, Nat.zero_mul]
    unfold sub32 u32
    omega

/-- Every sector but the last counts the offset of the first too little. -/
theorem ataReturned_split (h0 : 0 < size) (hlt : offset + size < 4294967296)
    (hw : ¬ (offset % 512 = 0 ∨ offset % 512 + size ≤ 512)) : ataReturned offset size ≠ size := by
  have hend := ataEnd_of_lt h0 hlt
  rw [ataReturned, ataSectors_eq, hend, if_neg (by omega)]
  generalize hn : (offset + size - 1) / 512 + 1 - offset / 512 - 1 = n
  have hn0 : 0 < n := by omega
  have hf0 : 0 < offset % 512 := by omega
  have hf : offset % 512 < 512 := Nat.mod_lt _ (by decide)
  have hl : (offset + size - 1) % 512 < 512 := Nat.mod_lt _ (by decide)
  have hsize : size + offset % 512 = 512 * n + (offset + size - 1) % 512 + 1 := by omega
  generalize (offset + size - 1) % 512 = last at hl hsize ⊢
  have hs : size < 4294967296 := by omega
  clear hw hn hend hlt h0
  generalize offset % 512 = f at hf0 hf hsize ⊢
  have hsum : n * (512 - f) + n * f = 512 * n := by
    rw [← Nat.mul_add, Nat.sub_add_cancel hf.le, Nat.mul_comm]
  have hlo : n ≤ n * f := Nat.le_mul_of_pos_right n hf0
  have hhi : n * f ≤ n * 511 := Nat.mul_le_mul_left n (by omega)
  generalize n * (512 - f) = a at hsum ⊢
  generalize n * f = b at hsum hlo hhi
  unfold sub32 u32
  omega

/-- A request that wraps around counts bytes in every sector the loop visits. -/
theorem ataReturned_wrapped (ho : offset < 4294967296) (hs : size < 4294967296)
    (hw : 4294967296 ≤ offset + size) (hn : ataSectors offset size ≠ 0) :
    ataReturned offset size ≠ 0 := by
  rw [ataReturned, if_neg hn]
  rw [ataSectors_eq] at hn ⊢
  by_cases h0 : offset + size = 4294967296
  · have hend : ataEnd offset size = 4294967295 := by
      unfold ataEnd sub32 u32
      omega
    rw [hend]
    generalize hm : 4294967295 / 512 + 1 - offset / 512 - 1 = m
    have hlast : u32 (sub32 (4294967295 % 512) (offset % 512) + 1) = 512 - offset % 512 := by
      unfold sub32 u32
      omega
    have hle : m * (512 - offset % 512) ≤ m * 512 := Nat.mul_le_mul_left m (by omega)
    have hle' : 0 < offset % 512 → m * (512 - offset % 512) ≤ m * 511 :=
      fun hf => Nat.mul_le_mul_left m (by omega)
    rw [hlast]
    generalize m * (512 - offset % 512) = a at hle hle'
    unfold u32
    omega
  · have hend : ataEnd offset size = offset + size - 4294967297 := by
      unfold ataEnd sub32 u32
      omega
    rw [hend] at hn ⊢
    have hone : (offset + size - 4294967297) / 512 + 1 - offset / 512 - 1 = 0 := by omega
    rw [hone, Nat.zero_mul]
    unfold sub32 u32
    omega

/-- An empty request behind the start counts nothing. -/
theorem ataReturned_empty (ho : offset < 4294967296) (h0 : 0 < offset) :
    ataReturned offset 0 = 0 := by
  have hend : ataEnd offset 0 = offset - 1 := by
    unfold ataEnd sub32 u32
    omega
  rw [ataReturned, ataSectors_eq, hend]
  split
  · rfl
  · have hone : (offset - 1) / 512 + 1 - offset / 512 - 1 = 0 := by omega
    rw [hone, Nat.zero_mul]
    unfold sub32 u32
    omega

/-! ## Calls -/

theorem ataAccepts_iff (hp : device.present = true) (hl : device.lbaSupported = true) :
    ataAccepts device offset size = true ↔ u32 (offset + size) ≤ device.size := by
  unfold ataAccepts
  simp [hp, hl]

theorem ataWrite_loop {r : AtaLoop × AtaState} (ha : ataAccepts device offset size = true)
    (h0 : sectorBuffer ≠ 0)
    (hr : ataWriteLoop device sectorBuffer (offset / ataSectorSize) (offset % ataSectorSize)
      (ataEnd offset size / ataSectorSize) (ataEnd offset size % ataSectorSize)
      (ataSectors offset size) (offset / ataSectorSize) ⟨buffer, 0, 0, 0⟩ s = r) :
    ataWrite sectorBuffer device offset size buffer s = .ok (r.1.total, r.2) := by
  rw [ataWrite, if_neg (by rw [ha]; decide), hr, if_neg h0]

theorem ataWrite_eq (buffer : ℕ) (s : AtaState) (ha : ataAccepts device offset size = true)
    (h0 : 0 < sectorBuffer) :
    ataWrite sectorBuffer device offset size buffer s = .ok (ataReturned offset size,
      (ataWriteLoop device sectorBuffer (offset / 512) (offset % 512) (ataEnd offset size / 512)
        (ataEnd offset size % 512) (ataSectors offset size) (offset / 512) ⟨buffer, 0, 0, 0⟩ s).2) := by
  have h : ataWrite sectorBuffer device offset size buffer s = _ :=
    ataWrite_loop ha (Nat.pos_iff_ne_zero.1 h0) rfl
  rw [ataWriteLoop_fst, show ataSectorSize = 512 from rfl, total_ataReturned] at h
  exact h

theorem ataRead_loop {r : AtaLoop × AtaState} (ha : ataAccepts device offset size = true)
    (h0 : sectorBuffer ≠ 0)
    (hr : ataReadLoop device sectorBuffer (offset / ataSectorSize) (offset % ataSectorSize)
      (ataEnd offset size / ataSectorSize) (ataEnd offset size % ataSectorSize)
      (ataSectors offset size) (offset / ataSectorSize) ⟨buffer, 0, 0, 0⟩ s = r) :
    ataRead sectorBuffer device offset size buffer s = .ok (r.1.total, r.2) := by
  rw [ataRead, if_neg (by rw [ha]; decide), hr, if_neg h0]

theorem ataRead_eq (buffer : ℕ) (s : AtaState) (ha : ataAccepts device offset size = true)
    (h0 : 0 < sectorBuffer) :
    ataRead sectorBuffer device offset size buffer s = .ok (ataReturned offset size,
      (ataReadLoop device sectorBuffer (offset / 512) (offset % 512) (ataEnd offset size / 512)
        (ataEnd offset size % 512) (ataSectors offset size) (offset / 512) ⟨buffer, 0, 0, 0⟩ s).2) := by
  have h : ataRead sectorBuffer device offset size buffer s = _ :=
    ataRead_loop ha (Nat.pos_iff_ne_zero.1 h0) rfl
  rw [ataReadLoop_fst, show ataSectorSize = 512 from rfl, total_ataReturned] at h
  exact h

/-- The local variables at each `memcpy` of a call. -/
def ataCallCopies (device : AtaDevice) (offset size buffer : ℕ) : List AtaLoop :=
  if ataAccepts device offset size then
    ataCopies (offset / ataSectorSize) (offset % ataSectorSize)
      (ataEnd offset size / ataSectorSize) (ataEnd offset size % ataSectorSize)
      (ataSectors offset size) (offset / ataSectorSize) ⟨buffer, 0, 0, 0⟩
  else []

theorem callCopies_le (h : ataSectors offset size = 0 ∨
      offset % 512 ≤ ataEnd offset size % 512 + 1) :
    ∀ c ∈ ataCallCopies device offset size buffer, c.offset + c.size ≤ 512 := by
  intro c hc
  rw [ataCallCopies] at hc
  split at hc
  · by_cases h0 : ataSectors offset size = 0
    · rw [h0] at hc
      cases hc
    · refine copies_le (Nat.mod_lt _ (by decide)) (Nat.mod_lt _ (by decide))
        (h.resolve_left h0) ?_ (Or.inl rfl) c hc
      rw [ataSectors_eq] at h0 ⊢
      simp only [ataSectorSize]
      omega
  · cases hc

/-- A call whose loop visits no sector, or that is refused, copies nothing. -/
theorem callCopies_idle (h : ataAccepts device offset size = false ∨ ataSectors offset size = 0) :
    ataCallCopies device offset size buffer = [] := by
  rw [ataCallCopies]
  rcases h with ha | h0
  · rw [if_neg (by rw [ha]; exact Bool.false_ne_true)]
  · rw [h0]
    exact ite_self _

/-- The copies for the rest of the request stay in the caller's buffer. -/
theorem copies_in_buffer (h : AtaWhole sectorBuffer offset size buffer)
    (hn : sector + n = (offset + size - 1) / 512 + 1) (hfirst : offset / 512 ≤ sector)
    (hl : n ≠ 0 → l.At offset buffer sector) :
    ∀ c ∈ ataCopies (offset / 512) (offset % 512) ((offset + size - 1) / 512)
      ((offset + size - 1) % 512) n sector l, buffer ≤ c.pointer ∧
        c.pointer + c.size ≤ buffer + size := by
  have hpos := h.pos
  induction n generalizing sector l with
  | zero =>
    intro c hc
    cases hc
  | succ n ih =>
    obtain ⟨-, hsize, hpointer, hnext⟩ := (hl (Nat.succ_ne_zero n)).locate h hfirst (by omega)
    obtain ⟨-, hlohi, -⟩ := part_bounds hpos hfirst (by omega)
    have hge : offset ≤ max offset (512 * sector) := le_max_left _ _
    have hle : min (offset + size) (512 * sector + 512) ≤ offset + size := min_le_left _ _
    intro c hc
    rcases List.mem_cons.1 hc with rfl | hc
    · rw [hsize, hpointer]
      omega
    · exact ih (by omega) (by omega) (fun hn0 => hnext (by omega)) c hc

/-! ## What is promised -/

/-- The request is not empty and lies on the drive. -/
def AtaFits (device : AtaDevice) (offset size : ℕ) : Prop := 0 < size ∧ offset + size ≤ device.size

/-- What a call of `ata_write` should do: nothing, or write the bytes of the request to the
    drive; and no copy leaves the sector buffer, or the buffer with the bytes. -/
def WritesExactly (sectorBuffer : ℕ) (device : AtaDevice) (offset size buffer : ℕ)
    (s : AtaState) : Prop :=
  ∃ ret s', ataWrite sectorBuffer device offset size buffer s = .ok (ret, s') ∧
    (¬ AtaFits device offset size →
      ret = 0 ∧ ∀ x, s'.bus.byte device.drive x = s.bus.byte device.drive x) ∧
    (AtaFits device offset size → ret = size ∧ ∀ x, s'.bus.byte device.drive x =
      if offset ≤ x ∧ x < offset + size then s.mem (buffer + (x - offset))
      else s.bus.byte device.drive x) ∧
    ∀ c ∈ ataCallCopies device offset size buffer, c.offset + c.size ≤ 512 ∧
      buffer ≤ c.pointer ∧ c.pointer + c.size ≤ buffer + size

/-- What a call of `ata_read` should do: nothing, or read the bytes of the request into the
    buffer; nothing else but the sector buffer is written, and no copy leaves that. -/
def ReadsExactly (sectorBuffer : ℕ) (device : AtaDevice) (offset size buffer : ℕ)
    (s : AtaState) : Prop :=
  ∃ ret s', ataRead sectorBuffer device offset size buffer s = .ok (ret, s') ∧
    (¬ AtaFits device offset size →
      ret = 0 ∧ ∀ x, x < sectorBuffer ∨ sectorBuffer + 512 ≤ x → s'.mem x = s.mem x) ∧
    (AtaFits device offset size → ret = size ∧
      (∀ j < size, s'.mem (buffer + j) = s.bus.byte device.drive (offset + j)) ∧
      ∀ x, x < sectorBuffer ∨ sectorBuffer + 512 ≤ x → ¬ (buffer ≤ x ∧ x < buffer + size) →
        s'.mem x = s.mem x) ∧
    ∀ c ∈ ataCallCopies device offset size buffer, c.offset + c.size ≤ 512

/-- A call for a present drive; the buffers are apart, and the one of a request that lies on
    the drive is large enough. -/
structure AtaCall (sectorBuffer : ℕ) (device : AtaDevice) (offset size buffer : ℕ) : Prop where
  present : device.present = true
  lba : device.lbaSupported = true
  device_lt : device.size < 4294967296
  offset_lt : offset < 4294967296
  size_lt : size < 4294967296
  sector_pos : 0 < sectorBuffer
  fits : offset + size ≤ device.size → buffer + size ≤ 4294967296
  apart : offset + size ≤ device.size →
    buffer < sectorBuffer ∧ buffer + size ≤ sectorBuffer ∨ sectorBuffer + 512 ≤ buffer

/-- The request does not lie on the drive, and the check says so, or the end that wraps
    around lies in a sector before that of the start. -/
def AtaRefused (device : AtaDevice) (offset size : ℕ) : Prop :=
  device.size < offset + size ∧ (device.size < u32 (offset + size) ∨
    (u32 (offset + size) ≠ 0 ∧ (u32 (offset + size) - 1) / 512 < offset / 512))

/-- The request lies on a master, and begins at a sector or lies in one. -/
def AtaServed (device : AtaDevice) (offset size : ℕ) : Prop :=
  AtaFits device offset size ∧ ataIsMaster device = true ∧
    (offset % 512 = 0 ∨ offset % 512 + size ≤ 512)

/-! ## Refused and empty requests -/

theorem not_fits_of_lt (h : device.size < offset + size) : ¬ AtaFits device offset size :=
  fun hc => absurd hc.2 (by omega)

/-- A call whose loop visits no sector, or that is refused. -/
theorem writesExactly_idle (hs0 : 0 < sectorBuffer) (hf : ¬ AtaFits device offset size)
    (h : ataAccepts device offset size = false ∨ ataSectors offset size = 0) :
    WritesExactly sectorBuffer device offset size buffer s := by
  have hcopies : ataCallCopies device offset size buffer = [] := callCopies_idle h
  by_cases ha : ataAccepts device offset size = true
  · have h0 : ataSectors offset size = 0 := h.resolve_left (by rw [ha]; decide)
    refine ⟨_, _, ataWrite_eq buffer s ha hs0, fun _ => ⟨?_, ?_⟩, fun hc => absurd hc hf, ?_⟩
    · rw [ataReturned, if_pos h0]
    · intro x
      rw [h0]
      rfl
    · rw [hcopies]
      exact fun c hc => absurd hc List.not_mem_nil
  · refine ⟨0, s, ?_, fun _ => ⟨rfl, fun _ => rfl⟩, fun hc => absurd hc hf, ?_⟩
    · rw [ataWrite, if_pos (Bool.eq_false_iff.2 ha)]
    · rw [hcopies]
      exact fun c hc => absurd hc List.not_mem_nil

theorem readsExactly_idle (hs0 : 0 < sectorBuffer) (hf : ¬ AtaFits device offset size)
    (h : ataAccepts device offset size = false ∨ ataSectors offset size = 0) :
    ReadsExactly sectorBuffer device offset size buffer s := by
  by_cases ha : ataAccepts device offset size = true
  · have h0 : ataSectors offset size = 0 := h.resolve_left (by rw [ha]; decide)
    refine ⟨_, _, ataRead_eq buffer s ha hs0, fun _ => ⟨?_, ?_⟩, fun hc => absurd hc hf,
      callCopies_le (Or.inl h0)⟩
    · rw [ataReturned, if_pos h0]
    · intro x _
      rw [h0]
      rfl
  · refine ⟨0, s, ?_, fun _ => ⟨rfl, fun _ _ => rfl⟩, fun hc => absurd hc hf, ?_⟩
    · rw [ataRead, if_pos (Bool.eq_false_iff.2 ha)]
    · intro c hc
      rw [ataCallCopies, if_neg ha] at hc
      cases hc

theorem AtaRefused.idle (h : AtaRefused device offset size) (hp : device.present = true)
    (hl : device.lbaSupported = true) :
    ataAccepts device offset size = false ∨ ataSectors offset size = 0 := by
  obtain ⟨h1, h2 | ⟨h2, h3⟩⟩ := h
  · refine Or.inl (Bool.eq_false_iff.2 fun ha => ?_)
    rw [ataAccepts_iff hp hl] at ha
    omega
  · refine Or.inr ?_
    rw [ataSectors_eq]
    have hend : ataEnd offset size = u32 (offset + size) - 1 := by
      unfold ataEnd sub32 u32 at *
      omega
    omega

/-! ## Empty requests -/

theorem ataEnd_empty (h0 : 0 < offset) (ho : offset < 4294967296) : ataEnd offset 0 = offset - 1 := by
  unfold ataEnd sub32 u32
  omega

/-- In the one sector an empty request visits nothing is copied. -/
theorem locate_empty (buffer : ℕ) (h0 : 0 < offset) (ho : offset < 4294967296)
    (hn : ataSectors offset 0 ≠ 0) :
    let l := (⟨buffer, 0, 0, 0⟩ : AtaLoop).locate (offset / 512) (offset / 512) (offset % 512)
      (ataEnd offset 0 / 512) (ataEnd offset 0 % 512)
    ataSectors offset 0 = 1 ∧ l.offset = offset - 512 * (offset / 512) ∧
      l.size = offset - offset := by
  intro l
  have hfo : offset % 512 < 512 := Nat.mod_lt _ (by decide)
  have hoff : l.offset = offset % 512 := locate_offset (Or.inl rfl)
  have hsize : l.size = if offset / 512 = ataEnd offset 0 / 512 then
      u32 (sub32 (ataEnd offset 0 % 512) (offset % 512) + 1) else 512 - offset % 512 :=
    locate_size hfo (Or.inl rfl)
  rw [ataSectors_eq, ataEnd_empty h0 ho] at hn
  rw [ataEnd_empty h0 ho, if_pos (by omega)] at hsize
  refine ⟨?_, by omega, ?_⟩
  · rw [ataSectors_eq, ataEnd_empty h0 ho]
    omega
  · rw [hsize]
    unfold sub32 u32
    omega

theorem writesExactly_empty (hs0 : 0 < sectorBuffer) (h0 : 0 < offset) (ho : offset < 4294967296) :
    WritesExactly sectorBuffer device offset 0 buffer s := by
  have hf : ¬ AtaFits device offset 0 := fun hc => absurd hc.1 (Nat.lt_irrefl 0)
  by_cases hn : ataSectors offset 0 = 0
  · exact writesExactly_idle hs0 hf (Or.inr hn)
  by_cases ha : ataAccepts device offset 0 = true
  · obtain ⟨hone, hoff, hsize⟩ := locate_empty buffer h0 ho hn
    refine ⟨_, _, ataWrite_eq buffer s ha hs0, fun _ => ⟨ataReturned_empty ho h0, ?_⟩,
      fun hc => absurd hc hf, ?_⟩
    · intro x
      obtain ⟨hother, -⟩ := ataWriteLoop_spec device sectorBuffer (offset / 512) (offset % 512)
        (ataEnd offset 0 / 512) (ataEnd offset 0 % 512) (ataSectors offset 0) (offset / 512)
        ⟨buffer, 0, 0, 0⟩ s
      by_cases hd : device.drive = ataMaster device
      · rw [hd, hone]
        exact (ataWriteStep_data device sectorBuffer _ s (by omega) (by omega)
          (Nat.le_refl offset) (by omega) hoff hsize).2.1 x (by omega)
      · rw [AtaBus.byte, hother.disks _ hd, AtaBus.byte]
    · intro c hc
      rw [ataCallCopies, if_pos ha, hone] at hc
      obtain rfl := List.mem_singleton.1 hc
      rw [locate_pointer]
      exact ⟨(Nat.add_le_add hoff.le hsize.le).trans (by omega), Nat.le_refl buffer,
        Nat.add_le_add_left (hsize.le.trans (by omega)) buffer⟩
  · exact writesExactly_idle hs0 hf (Or.inl (Bool.eq_false_iff.2 ha))

theorem readsExactly_empty (hs0 : 0 < sectorBuffer) (h0 : 0 < offset) (ho : offset < 4294967296) :
    ReadsExactly sectorBuffer device offset 0 buffer s := by
  have hf : ¬ AtaFits device offset 0 := fun hc => absurd hc.1 (Nat.lt_irrefl 0)
  by_cases hn : ataSectors offset 0 = 0
  · exact readsExactly_idle hs0 hf (Or.inr hn)
  by_cases ha : ataAccepts device offset 0 = true
  · obtain ⟨hone, hoff, hsize⟩ := locate_empty buffer h0 ho hn
    refine ⟨_, _, ataRead_eq buffer s ha hs0, fun _ => ⟨ataReturned_empty ho h0, ?_⟩,
      fun hc => absurd hc hf, callCopies_le (Or.inr ?_)⟩
    · intro x hx
      rw [hone]
      exact (ataReadStep_data device sectorBuffer _ s (by omega) (by omega)
        (Nat.le_refl offset) (by omega) hoff hsize).2.2 x hx (by omega)
    · rw [ataEnd_empty h0 ho]
      rw [ataSectors_eq, ataEnd_empty h0 ho] at hn
      omega
  · exact readsExactly_idle hs0 hf (Or.inl (Bool.eq_false_iff.2 ha))

/-! ## Served requests -/

theorem AtaCall.whole (h : AtaCall sectorBuffer device offset size buffer)
    (hf : AtaFits device offset size) (hw : offset % 512 = 0 ∨ offset % 512 + size ≤ 512) :
    AtaWhole sectorBuffer offset size buffer where
  pos := hf.1
  lt := lt_of_le_of_lt hf.2 h.device_lt
  whole := hw
  fits := h.fits hf.2
  apart := (h.apart hf.2).imp_left And.right

theorem AtaCall.accepts (h : AtaCall sectorBuffer device offset size buffer)
    (hf : offset + size ≤ device.size) : ataAccepts device offset size = true := by
  rw [ataAccepts_iff h.present h.lba, u32_of_lt (lt_of_le_of_lt hf h.device_lt)]
  exact hf

theorem AtaLoop.at_start (offset buffer : ℕ) :
    (⟨buffer, 0, 0, 0⟩ : AtaLoop).At offset buffer (offset / 512) := by
  refine ⟨Or.inl rfl, ?_⟩
  show buffer = _
  omega

/-- A request that begins at a sector or lies in one is written to the master. -/
theorem ataWrite_master (h : AtaCall sectorBuffer device offset size buffer)
    (hf : AtaFits device offset size) (hw : offset % 512 = 0 ∨ offset % 512 + size ≤ 512) :
    ∃ s', ataWrite sectorBuffer device offset size buffer s = .ok (size, s') ∧
      OnlyDrive (ataMaster device) s.bus s'.bus ∧
      ∀ x, s'.bus.byte (ataMaster device) x =
        if offset ≤ x ∧ x < offset + size then s.mem (buffer + (x - offset))
        else s.bus.byte (ataMaster device) x := by
  have hwhole := h.whole hf hw
  have ha := h.accepts hf.2
  have hend := ataEnd_of_lt hwhole.pos hwhole.lt
  obtain ⟨hother, -⟩ := ataWriteLoop_spec device sectorBuffer (offset / 512) (offset % 512)
    (ataEnd offset size / 512) (ataEnd offset size % 512) (ataSectors offset size) (offset / 512)
    ⟨buffer, 0, 0, 0⟩ s
  have heq := ataWrite_eq buffer s ha h.sector_pos
  rw [ataReturned_whole hwhole.pos hwhole.lt hw] at heq
  refine ⟨_, heq, hother, fun x => ?_⟩
  have hpos := hwhole.pos
  rw [ataSectors_eq, hend, ataWriteLoop_data hwhole (by omega) (Nat.le_refl _)
    (fun _ => AtaLoop.at_start offset buffer)]
  exact if_congr (by omega) rfl rfl

/-- A request that begins at a sector or lies in one is read from the master. -/
theorem ataRead_master (h : AtaCall sectorBuffer device offset size buffer)
    (hf : AtaFits device offset size) (hw : offset % 512 = 0 ∨ offset % 512 + size ≤ 512) :
    ∃ s', ataRead sectorBuffer device offset size buffer s = .ok (size, s') ∧
      ∀ x, x < sectorBuffer ∨ sectorBuffer + 512 ≤ x → s'.mem x =
        if buffer ≤ x ∧ x < buffer + size then s.bus.byte (ataMaster device) (offset + (x - buffer))
        else s.mem x := by
  have hwhole := h.whole hf hw
  have ha := h.accepts hf.2
  have hend := ataEnd_of_lt hwhole.pos hwhole.lt
  have heq := ataRead_eq buffer s ha h.sector_pos
  rw [ataReturned_whole hwhole.pos hwhole.lt hw] at heq
  refine ⟨_, heq, fun x hx => ?_⟩
  have hpos := hwhole.pos
  rw [ataSectors_eq, hend, ataReadLoop_data hwhole (by omega) (Nat.le_refl _)
    (fun _ => AtaLoop.at_start offset buffer) x hx]
  exact if_congr (by omega) rfl rfl

/-- The copies of such a request stay in the caller's buffer. -/
theorem callCopies_in_buffer (h : AtaWhole sectorBuffer offset size buffer) :
    ∀ c ∈ ataCallCopies device offset size buffer, buffer ≤ c.pointer ∧
      c.pointer + c.size ≤ buffer + size := by
  intro c hc
  have hpos := h.pos
  rw [ataCallCopies] at hc
  split at hc
  · rw [ataSectors_eq, ataEnd_of_lt h.pos h.lt] at hc
    exact copies_in_buffer h (by omega) (Nat.le_refl _) (fun _ => AtaLoop.at_start offset buffer) c hc
  · cases hc

/-- The copies of such a request stay in the sector buffer. -/
theorem callCopies_whole (h : AtaWhole sectorBuffer offset size buffer) :
    ∀ c ∈ ataCallCopies device offset size buffer, c.offset + c.size ≤ 512 := by
  refine callCopies_le (Or.inr ?_)
  have hpos := h.pos
  have hw := h.whole
  rw [ataEnd_of_lt h.pos h.lt]
  omega

theorem writesExactly_served (h : AtaCall sectorBuffer device offset size buffer)
    (hs : AtaServed device offset size) :
    WritesExactly sectorBuffer device offset size buffer s := by
  obtain ⟨hf, hm, hw⟩ := hs
  obtain ⟨s', heq, -, hbyte⟩ := ataWrite_master (s := s) h hf hw
  rw [ataMaster_eq_iff.2 hm] at hbyte
  have hwhole := h.whole hf hw
  exact ⟨size, s', heq, fun hc => absurd hf hc, fun _ => ⟨rfl, hbyte⟩,
    fun c hc => ⟨callCopies_whole hwhole c hc, callCopies_in_buffer hwhole c hc⟩⟩

theorem readsExactly_served (h : AtaCall sectorBuffer device offset size buffer)
    (hs : AtaServed device offset size) :
    ReadsExactly sectorBuffer device offset size buffer s := by
  obtain ⟨hf, hm, hw⟩ := hs
  have hwhole := h.whole hf hw
  have hap := hwhole.apart
  obtain ⟨s', heq, hmem⟩ := ataRead_master (s := s) h hf hw
  rw [ataMaster_eq_iff.2 hm] at hmem
  refine ⟨size, s', heq, fun hc => absurd hf hc, fun _ => ⟨rfl, ?_, ?_⟩, callCopies_whole hwhole⟩
  · intro j hj
    rw [hmem _ (by omega), if_pos (by omega), Nat.add_sub_cancel_left]
  · intro x hx hout
    rw [hmem x hx, if_neg hout]

/-! ## The empty request at the start -/

/-- Reading from a master full of ones leaves ones in memory. -/
theorem ataReadLoop_ones {last lastOffset n sector y : ℕ} {l : AtaLoop} (hlo : lastOffset < 512)
    (hn : sector + n = last + 1) (hlt : last < 268435456) (hl : l.Steady sector 0 0)
    (hd : ∀ lba x, s.bus.disks (ataMaster device) lba x = 1) (hm : s.mem y = 1)
    (hy : y < sectorBuffer ∨ sectorBuffer + 512 ≤ y) :
    (ataReadLoop device sectorBuffer 0 0 last lastOffset n sector l s).2.mem y = 1 := by
  induction n generalizing sector l s with
  | zero => exact hm
  | succ n ih =>
    rw [ataReadLoop]
    generalize hl' : l.locate sector 0 0 last lastOffset = l'
    have hoff : l'.offset = 512 * sector - 512 * sector := by
      rw [← hl', locate_offset hl]
      omega
    have hle : l'.size ≤ 512 := by
      rw [← hl', locate_size (by decide) hl]
      split
      · unfold sub32 u32
        omega
      · omega
    have hsize : l'.size = 512 * sector + l'.size - 512 * sector := by omega
    obtain ⟨h1, h2, h3⟩ := ataReadStep_data device sectorBuffer l' s
      (show sector < 268435456 by omega) (Nat.le_refl _) (by omega) (by omega) hoff hsize
    cases n with
    | zero =>
      show (ataReadStep device sectorBuffer sector l' s).mem y = 1
      by_cases hin : l'.pointer ≤ y ∧ y < l'.pointer + l'.size
      · have h4 := h2 (y - l'.pointer) (by omega)
        rw [Nat.add_sub_cancel' hin.1, AtaBus.byte, hd] at h4
        exact h4
      · rw [h3 y hy (by omega)]
        exact hm
    | succ n =>
      refine ih (s := ataReadStep device sectorBuffer sector l' s) (by omega) ?_ ?_ ?_
      · rw [← hl']
        exact steady_next (by decide) hl (by omega)
      · intro lba x
        rw [h1]
        exact hd lba x
      · by_cases hin : l'.pointer ≤ y ∧ y < l'.pointer + l'.size
        · have h4 := h2 (y - l'.pointer) (by omega)
          rw [Nat.add_sub_cancel' hin.1, AtaBus.byte, hd] at h4
          exact h4
        · rw [h3 y hy (by omega)]
          exact hm

/-- The first byte of memory that is written holds a one. -/
theorem ataReadLoop_start {first firstOffset last lastOffset count sector : ℕ}
    {r : AtaLoop × AtaState} (hfirst : first = 0) (hoffset : firstOffset = 0) (hsector : sector = 0)
    (hcount : count = last + 1) (h0 : last ≠ 0) (hlt : last < 268435456) (hlo : lastOffset < 512)
    (hd : ∀ lba x, s.bus.disks (ataMaster device) lba x = 1)
    (hb : buffer < sectorBuffer ∨ sectorBuffer + 512 ≤ buffer)
    (hr : ataReadLoop device sectorBuffer first firstOffset last lastOffset count sector
      ⟨buffer, 0, 0, 0⟩ s = r) : r.2.mem buffer = 1 := by
  subst hfirst hoffset hsector hcount hr
  have hsteady : (⟨buffer, 0, 0, 0⟩ : AtaLoop).Steady 0 0 0 := Or.inl rfl
  rw [ataReadLoop]
  have hnext : ((⟨buffer, 0, 0, 0⟩ : AtaLoop).locate 0 0 0 last lastOffset).advance.Steady 1 0 0 :=
    steady_next (by decide) hsteady h0.symm
  generalize hl : (⟨buffer, 0, 0, 0⟩ : AtaLoop).locate 0 0 0 last lastOffset = l at hnext
  have hoff : l.offset = 0 := hl ▸ locate_offset hsteady
  have hsize : l.size = 512 := by
    rw [← hl, locate_size (by decide) hsteady, if_neg h0.symm]
  have hptr : l.pointer = buffer := by
    rw [← hl, locate_pointer]
  obtain ⟨h1, h2, -⟩ := ataReadStep_data device sectorBuffer l s (show 0 < 268435456 by decide)
    (show 512 * 0 ≤ 0 by decide) (show 0 ≤ 512 by decide) (by decide) hoff hsize
  refine ataReadLoop_ones (s := ataReadStep device sectorBuffer 0 l s) hlo (by omega) hlt hnext ?_
    ?_ hb
  · intro lba x
    rw [h1]
    exact hd lba x
  · have h3 := h2 0 (by decide)
    rw [hptr] at h3
    exact h3.trans (hd _ _)

/-! ## The requests that are served right -/

/-- A controller at rest. -/
def restingState (disks : AtaDrive → UInt8) (byte : UInt8) : AtaState where
  bus :=
    { primary := ⟨0, 0, 0, 0, 0, .idle, 0⟩
      secondary := ⟨0, 0, 0, 0, 0, .idle, 0⟩
      disks := fun d _ _ => disks d
      commands := []
      latency := fun _ => 0 }
  mem := fun _ => byte

/-- What every call that does its work right needs, whether it writes or reads: it returns
    `ret`, which is 0 or the size. -/
theorem returned_right {ret : ℕ} (h : AtaCall sectorBuffer device offset size buffer)
    (h0 : 0 < size) (hret : ataAccepts device offset size = true → ret = ataReturned offset size)
    (hn : ¬ AtaFits device offset size → ret = 0) (hf : AtaFits device offset size → ret = size) :
    AtaRefused device offset size ∨ AtaFits device offset size ∧
      (offset % 512 = 0 ∨ offset % 512 + size ≤ 512) := by
  by_cases hfit : offset + size ≤ device.size
  · refine Or.inr ⟨⟨h0, hfit⟩, ?_⟩
    by_contra hw
    refine ataReturned_split h0 (lt_of_le_of_lt hfit h.device_lt) hw ?_
    rw [← hret (h.accepts hfit), hf ⟨h0, hfit⟩]
  · refine Or.inl ⟨by omega, ?_⟩
    by_contra hc
    push Not at hc
    obtain ⟨hle, hsec⟩ := hc
    have ha : ataAccepts device offset size = true := (ataAccepts_iff h.present h.lba).2 hle
    have ho := h.offset_lt
    have hs := h.size_lt
    have hwrap : 4294967296 ≤ offset + size := by
      by_contra hlt
      rw [u32_of_lt (by omega)] at hle
      omega
    refine ataReturned_wrapped ho hs hwrap ?_ ?_
    · rw [ataSectors_eq]
      unfold ataEnd
      by_cases hz : u32 (offset + size) = 0
      · rw [hz]
        have hm : sub32 0 1 = 4294967295 := by decide
        rw [hm]
        omega
      · have hm : sub32 (u32 (offset + size)) 1 = u32 (offset + size) - 1 := by
          have := u32_lt (offset + size)
          unfold sub32 at *
          unfold u32 at *
          omega
        have := hsec hz
        rw [hm]
        omega
    · rw [← hret ha]
      exact hn (not_fits_of_lt (by omega))

theorem ataAccepts_start (h : AtaCall sectorBuffer device 0 0 buffer) :
    ataAccepts device 0 0 = true := h.accepts (Nat.zero_le _)

theorem ataSectors_start : ataSectors 0 0 = 8388607 + 1 := by decide

theorem ataEnd_start : ataEnd 0 0 / 512 = 8388607 := by decide

/-- The empty request at the start takes a whole sector from the buffer. -/
theorem not_writesExactly_start (h : AtaCall sectorBuffer device 0 0 buffer) :
    ¬ WritesExactly sectorBuffer device 0 0 buffer s := by
  rintro ⟨-, -, -, -, -, hcopies⟩
  have hsteady : (⟨buffer, 0, 0, 0⟩ : AtaLoop).Steady 0 0 0 := Or.inl rfl
  have hsize : ((⟨buffer, 0, 0, 0⟩ : AtaLoop).locate 0 0 0 (ataEnd 0 0 / 512)
      (ataEnd 0 0 % 512)).size = 512 := by
    rw [locate_size (by decide) hsteady, if_neg (by rw [ataEnd_start]; decide)]
  obtain ⟨-, hge, hle⟩ := hcopies _ (by
    rw [ataCallCopies, if_pos (ataAccepts_start h), ataSectors_start]
    exact List.mem_cons_self ..)
  have h512 : _ + 512 ≤ buffer + 0 := hsize ▸ hle
  omega

/-- **Which writes are exact**, for every content of the drives and the memory: empty
    requests that do not begin at the start, requests that are refused, and
    requests on a master that begin at a sector or lie in one. -/
theorem ata_write_exact (h : AtaCall sectorBuffer device offset size buffer) :
    (∀ s, WritesExactly sectorBuffer device offset size buffer s) ↔
      (size = 0 ∧ 0 < offset) ∨ AtaRefused device offset size ∨ AtaServed device offset size := by
  constructor
  · intro hall
    by_cases h0 : size = 0
    · subst h0
      refine Or.inl ⟨rfl, ?_⟩
      by_contra hc
      obtain rfl : offset = 0 := by omega
      exact not_writesExactly_start h (hall (restingState (fun _ => 0) 1))
    · obtain ⟨ret, s', heq, hn, hf, -⟩ := hall (restingState (fun _ => 0) 1)
      have hret : ataAccepts device offset size = true → ret = ataReturned offset size := by
        intro ha
        rw [ataWrite_eq buffer _ ha h.sector_pos] at heq
        exact (congrArg Prod.fst (Except.ok.inj heq)).symm
      rcases returned_right h (by omega) hret (fun hc => (hn hc).1) (fun hc => (hf hc).1) with
        hr | ⟨hfit, hw⟩
      · exact Or.inr (Or.inl hr)
      · refine Or.inr (Or.inr ⟨hfit, ?_, hw⟩)
        by_contra hm
        have hne : device.drive ≠ ataMaster device := fun hd => hm (ataMaster_eq_iff.1 hd.symm)
        obtain ⟨s'', heq', hother, -⟩ := ataWrite_master (s := restingState (fun _ => 0) 1) h hfit hw
        rw [heq] at heq'
        obtain rfl : s' = s'' := congrArg Prod.snd (Except.ok.inj heq')
        have hone := (hf hfit).2 offset
        rw [if_pos ⟨Nat.le_refl _, by omega⟩, AtaBus.byte, hother.disks _ hne] at hone
        exact absurd (show (0 : UInt8) = 1 from hone) (by decide)
  · rintro (⟨rfl, hc⟩ | hc | hc) s
    · exact writesExactly_empty h.sector_pos hc h.offset_lt
    · exact writesExactly_idle h.sector_pos (not_fits_of_lt hc.1) (hc.idle h.present h.lba)
    · exact writesExactly_served h hc

/-- The empty request at the start is read, from every sector. -/
theorem ataRead_start (h : AtaCall sectorBuffer device 0 0 buffer)
    (hd : ∀ lba x, s.bus.disks (ataMaster device) lba x = 1) :
    ∃ s', ataRead sectorBuffer device 0 0 buffer s = .ok (ataReturned 0 0, s') ∧
      s'.mem buffer = 1 := by
  have hbuf := h.apart (Nat.zero_le _)
  refine ⟨_, ataRead_eq buffer s (ataAccepts_start h) h.sector_pos, ?_⟩
  exact ataReadLoop_start (Nat.zero_div 512) (Nat.zero_mod 512) (Nat.zero_div 512)
    (ataSectors_start.trans (congrArg (· + 1) ataEnd_start.symm)) (by rw [ataEnd_start]; decide)
    (by rw [ataEnd_start]; decide) (Nat.mod_lt _ (by decide)) hd (by omega) rfl

/-- With a drive full of ones the empty request at the start changes the memory. -/
theorem not_readsExactly_start (h : AtaCall sectorBuffer device 0 0 buffer) :
    ¬ ReadsExactly sectorBuffer device 0 0 buffer (restingState (fun _ => 1) 0) := by
  rintro ⟨ret, s', heq, hn, -⟩
  have hf : ¬ AtaFits device 0 0 := fun hc => absurd hc.1 (Nat.lt_irrefl 0)
  have hbuf := h.apart (Nat.zero_le _)
  obtain ⟨s'', heq', hone⟩ := ataRead_start (s := restingState (fun _ => 1) 0) h fun _ _ => rfl
  rw [heq] at heq'
  obtain rfl : s' = s'' := congrArg Prod.snd (Except.ok.inj heq')
  have hzero := (hn hf).2 buffer (by omega)
  rw [hone] at hzero
  exact absurd (show (1 : UInt8) = 0 from hzero) (by decide)

/-- **Which reads are exact**, for every content of the drives and the memory: empty
    requests that do not begin at the start, requests that are refused, and
    requests on a master that begin at a sector or lie in one. -/
theorem ata_read_exact (h : AtaCall sectorBuffer device offset size buffer) :
    (∀ s, ReadsExactly sectorBuffer device offset size buffer s) ↔
      (size = 0 ∧ 0 < offset) ∨ AtaRefused device offset size ∨ AtaServed device offset size := by
  constructor
  · intro hall
    by_cases h0 : size = 0
    · subst h0
      refine Or.inl ⟨rfl, ?_⟩
      by_contra hc
      obtain rfl : offset = 0 := by omega
      exact not_readsExactly_start h (hall _)
    · obtain ⟨ret, s', heq, hn, hf, -⟩ :=
        hall (restingState (fun d => if d = device.drive then 1 else 0) 0)
      have hret : ataAccepts device offset size = true → ret = ataReturned offset size := by
        intro ha
        rw [ataRead_eq buffer _ ha h.sector_pos] at heq
        exact (congrArg Prod.fst (Except.ok.inj heq)).symm
      rcases returned_right h (by omega) hret (fun hc => (hn hc).1) (fun hc => (hf hc).1) with
        hr | ⟨hfit, hw⟩
      · exact Or.inr (Or.inl hr)
      · refine Or.inr (Or.inr ⟨hfit, ?_, hw⟩)
        by_contra hm
        have hne : ataMaster device ≠ device.drive := fun hd => hm (ataMaster_eq_iff.1 hd)
        obtain ⟨s'', heq', hmem⟩ := ataRead_master
          (s := restingState (fun d => if d = device.drive then 1 else 0) 0) h hfit hw
        rw [heq] at heq'
        obtain rfl : s' = s'' := congrArg Prod.snd (Except.ok.inj heq')
        have hbuf := h.apart hfit.2
        have hone := (hf hfit).2.1 0 (by omega)
        have hzero := hmem buffer (by omega)
        rw [if_pos ⟨Nat.le_refl _, by omega⟩] at hzero
        have hbyte : (if ataMaster device = device.drive then (1 : UInt8) else 0) =
            if device.drive = device.drive then 1 else 0 := hzero.symm.trans hone
        rw [if_neg hne, if_pos rfl] at hbyte
        exact absurd hbyte (by decide)
  · rintro (⟨rfl, hc⟩ | hc | hc) s
    · exact readsExactly_empty h.sector_pos hc h.offset_lt
    · exact readsExactly_idle h.sector_pos (not_fits_of_lt hc.1) (hc.idle h.present h.lba)
    · exact readsExactly_served h hc

end

/-! ## Two requests -/

/-- A sector buffer at 4096 and a buffer at 8192, for a request in the first two sectors. -/
theorem presentDrive_call (drive : AtaDrive) {offset size : ℕ} (h : offset + size ≤ 1024) :
    AtaCall 4096 (presentDrive drive) offset size 8192 where
  present := rfl
  lba := rfl
  device_lt := by show 1048576 < 4294967296; decide
  offset_lt := by omega
  size_lt := by omega
  sector_pos := by decide
  fits _ := by omega
  apart _ := Or.inr (by decide)

/-- A whole sector. -/
theorem presentDrive_served : AtaServed (presentDrive .primaryMaster) 0 512 :=
  ⟨⟨by decide, by decide⟩, rfl, Or.inl (by decide)⟩

theorem ata_write_exact_sector :
    WritesExactly 4096 (presentDrive .primaryMaster) 0 512 8192 zeroDrives :=
  (ata_write_exact (presentDrive_call .primaryMaster (by decide))).2
    (Or.inr (Or.inr presentDrive_served)) zeroDrives

theorem ata_read_exact_sector :
    ReadsExactly 4096 (presentDrive .primaryMaster) 0 512 8192 zeroDrives :=
  (ata_read_exact (presentDrive_call .primaryMaster (by decide))).2
    (Or.inr (Or.inr presentDrive_served)) zeroDrives

/-- The halves of two sectors: 256 bytes are counted. -/
theorem halves_returned : ataReturned 256 512 = 256 := by decide

/-- **Two halves are not written**: 512 bytes from the middle of the first sector on. -/
theorem ata_write_halves :
    ¬ WritesExactly 4096 (presentDrive .primaryMaster) 256 512 8192 zeroDrives := by
  rintro ⟨ret, s', heq, -, hf, -⟩
  have hret := (hf ⟨by decide, by decide⟩).1
  rw [ataWrite_eq 8192 _ (by decide) (by decide), halves_returned] at heq
  have h256 : 256 = ret := congrArg Prod.fst (Except.ok.inj heq)
  omega

/-- **Two halves are not read**: 512 bytes from the middle of the first sector on. -/
theorem ata_read_halves :
    ¬ ReadsExactly 4096 (presentDrive .primaryMaster) 256 512 8192 zeroDrives := by
  rintro ⟨ret, s', heq, -, hf, -⟩
  have hret := (hf ⟨by decide, by decide⟩).1
  rw [ataRead_eq 8192 _ (by decide) (by decide), halves_returned] at heq
  have h256 : 256 = ret := congrArg Prod.fst (Except.ok.inj heq)
  omega

end Ttos
