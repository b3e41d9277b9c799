/-
  What the sector functions of the ATA driver transfer.

  * `lba_loadRegisters`: the registers hold the block address.
  * `ataReadSectorLba28_data`, `ataWriteSectorLba28_data`: one sector from the
    master of the device's channel to the sector buffer, and back.
-/
import Ttos.Drivers.AtaSpec

namespace Ttos

variable {device : AtaDevice} {lba : ℕ}

/-! ## The block address -/

theorem low_mod (lba : ℕ) : lba &&& 0x000000FF = lba % 256 :=
  Nat.and_two_pow_sub_one_eq_mod lba 8

theorem mid_mod (lba : ℕ) : (lba &&& 0x0000FF00) >>> 8 = lba / 256 % 256 := by
  have h : 0x0000FF00 >>> 8 = 2 ^ 8 - 1 := by decide
  rw [Nat.shiftRight_and_distrib, h, Nat.and_two_pow_sub_one_eq_mod, Nat.shiftRight_eq_div_pow]

theorem high_mod (lba : ℕ) : (lba &&& 0x00FF0000) >>> 16 = lba / 65536 % 256 := by
  have h : 0x00FF0000 >>> 16 = 2 ^ 8 - 1 := by decide
  rw [Nat.shiftRight_and_distrib, h, Nat.and_two_pow_sub_one_eq_mod, Nat.shiftRight_eq_div_pow]

theorem head_mod (lba : ℕ) : (0xE0 ||| ((lba >>> 24) &&& 0x0F)) % 16 = lba / 16777216 % 16 := by
  have h : (0x0F : ℕ) = 2 ^ 4 - 1 := by decide
  have h16 : (16 : ℕ) = 2 ^ 4 := by decide
  rw [h, Nat.and_two_pow_sub_one_eq_mod, Nat.shiftRight_eq_div_pow, h16, Nat.or_mod_two_pow,
    Nat.mod_mod]
  exact Nat.zero_or _

/-- The registers hold a block address of 28 bits. -/
theorem lba_loadRegisters (c : AtaChannel) (h : lba < 268435456) :
    (loadRegisters lba c).lba = lba := by
  show (0xE0 ||| ((lba >>> 24) &&& 0x0F)) % 16 * 16777216 +
    ((lba &&& 0x00FF0000) >>> 16) * 65536 + ((lba &&& 0x0000FF00) >>> 8) * 256 +
      (lba &&& 0x000000FF) = lba
  rw [head_mod, high_mod, mid_mod, low_mod]
  omega

/-! ## The command -/

theorem command_transfer (bus : AtaBus) (id : AtaChannelId) (code : ℕ) :
    (code = 0x20 → ((bus.command id code).channel id).transfer =
      .read (selectedDrive id (bus.channel id).driveHead) (bus.channel id).lba 0) ∧
    (code = 0x30 → ((bus.command id code).channel id).transfer =
      .write (selectedDrive id (bus.channel id).driveHead) (bus.channel id).lba 0) := by
  constructor
  · rintro rfl
    cases id <;> rfl
  · rintro rfl
    cases id <;> rfl

/-- The channel gets ready to transfer the sector of its master. -/
theorem ataSectorCommand_transfer (device : AtaDevice) (code : ℕ) (bus : AtaBus)
    (h : lba < 268435456) (hc : code = 0x20 ∨ code = 0x30) :
    (ataSectorCommand device lba code bus).disks = bus.disks ∧
    (code = 0x20 → ((ataSectorCommand device lba code bus).channel
      (ataChannelId device)).transfer = .read (ataMaster device) lba 0) ∧
    (code = 0x30 → ((ataSectorCommand device lba code bus).channel
      (ataChannelId device)).transfer = .write (ataMaster device) lba 0) := by
  obtain ⟨n, e⟩ := ataSectorCommand_eq device lba code bus
  generalize hb : bus.setChannel (ataChannelId device)
    (loadRegisters lba (bus.channel (ataChannelId device))) = bus₁ at e
  have hch : bus₁.channel (ataChannelId device) =
      loadRegisters lba (bus.channel (ataChannelId device)) := by
    rw [← hb, channel_setChannel]
  have hsel : selectedDrive (ataChannelId device) (bus₁.channel (ataChannelId device)).driveHead =
      ataMaster device := by
    rw [hch]
    exact selectedDrive_driver device lba
  have hlba : (bus₁.channel (ataChannelId device)).lba = lba := by
    rw [hch]
    exact lba_loadRegisters _ h
  obtain ⟨w1, -, w3⟩ := ataWait_spec device n (bus₁.command (ataChannelId device) code)
  obtain ⟨c1, -, -⟩ := command_spec bus₁ (ataChannelId device) hc
  obtain ⟨hr, hw⟩ := command_transfer bus₁ (ataChannelId device) code
  rw [hsel, hlba] at hr hw
  rw [e]
  refine ⟨?_, fun h20 => w3.trans (hr h20), fun h30 => w3.trans (hw h30)⟩
  rw [w1, c1, ← hb, disks_setChannel]

/-! ## Reading a sector -/

theorem inw_read {bus : AtaBus} {drive : AtaDrive} {pos : ℕ}
    (h : (bus.channel (ataChannelId device)).transfer = .read drive lba pos) :
    (bus.inw (ataGetIoBase device + ataDataRegister)).1 = bus.disks drive lba (2 * pos) ∧
    (bus.inw (ataGetIoBase device + ataDataRegister)).2.1 = bus.disks drive lba (2 * pos + 1) ∧
    (bus.inw (ataGetIoBase device + ataDataRegister)).2.2.disks = bus.disks ∧
    (pos + 1 ≠ 256 → ((bus.inw (ataGetIoBase device + ataDataRegister)).2.2.channel
      (ataChannelId device)).transfer = .read drive lba (pos + 1)) := by
  rw [AtaBus.inw, ataDataRegister, portRegister_ioBase device (by decide)]
  simp only [h, disks_setChannel, channel_setChannel, true_and]
  intro hne
  rw [if_neg hne]

/-- The words from `i` on. -/
theorem ataReadWords_data (drive : AtaDrive) (buffer : ℕ) : ∀ (n i : ℕ) (s : AtaState),
    i + n = 256 → (n ≠ 0 → (s.bus.channel (ataChannelId device)).transfer = .read drive lba i) →
    (ataReadWords (ataGetIoBase device) buffer n i s).bus.disks = s.bus.disks ∧
      ∀ x, (ataReadWords (ataGetIoBase device) buffer n i s).mem x =
        if buffer + 2 * i ≤ x ∧ x < buffer + 512 then s.bus.disks drive lba (x - buffer)
        else s.mem x
  | 0, i, s, hi, _ => by
    refine ⟨rfl, fun x => ?_⟩
    rw [if_neg (by omega)]
    rfl
  | n + 1, i, s, hi, ht => by
    obtain ⟨h1, h2, h3, h4⟩ := inw_read (ht (Nat.succ_ne_zero n))
    rw [ataReadWords]
    obtain ⟨h5, h6⟩ := ataReadWords_data drive buffer n (i + 1)
      ⟨(s.bus.inw (ataGetIoBase device + ataDataRegister)).2.2,
        (s.mem.store8 (buffer + 2 * i) (s.bus.inw (ataGetIoBase device + ataDataRegister)).1).store8
          (buffer + 2 * i + 1) (s.bus.inw (ataGetIoBase device + ataDataRegister)).2.1⟩
      (by omega) (fun hn => h4 (by omega))
    refine ⟨h5.trans h3, fun x => ?_⟩
    rw [h6 x, h1, h2, h3]
    dsimp only
    by_cases hx : buffer + 2 * (i + 1) ≤ x ∧ x < buffer + 512
    · rw [if_pos hx, if_pos ⟨by omega, hx.2⟩]
    · rw [if_neg hx]
      unfold Mem.store8
      by_cases hhi : x = buffer + 2 * i + 1
      · subst hhi
        rw [if_pos rfl, if_pos ⟨by omega, by omega⟩]
        congr 1
        omega
      · rw [if_neg hhi]
        by_cases hlo : x = buffer + 2 * i
        · subst hlo
          rw [if_pos rfl, if_pos ⟨by omega, by omega⟩, Nat.add_sub_cancel_left]
        · rw [if_neg hlo, if_neg (by omega)]

/-- **A sector is read** into the sector buffer. -/
theorem ataReadSectorLba28_data (device : AtaDevice) (buffer : ℕ) (s : AtaState)
    (h : lba < 268435456) :
    (ataReadSectorLba28 device lba buffer s).bus.disks = s.bus.disks ∧
      ∀ x, (ataReadSectorLba28 device lba buffer s).mem x =
        if buffer ≤ x ∧ x < buffer + 512 then s.bus.disks (ataMaster device) lba (x - buffer)
        else s.mem x := by
  obtain ⟨h1, h2, -⟩ := ataSectorCommand_transfer device 0x20 s.bus h (Or.inl rfl)
  unfold ataReadSectorLba28
  dsimp only
  generalize ataSectorCommand device lba 0x20 s.bus = bus at h1 h2
  obtain ⟨h3, h4⟩ := ataReadWords_data (ataMaster device) buffer 256 0 { s with bus := bus } rfl
    (fun _ => h2 rfl)
  rw [← h1]
  exact ⟨h3, h4⟩

/-! ## Writing a sector -/

theorem outw_write {bus : AtaBus} {drive : AtaDrive} {pos : ℕ} (lo hi : UInt8)
    (h : (bus.channel (ataChannelId device)).transfer = .write drive lba pos) :
    (bus.outw (ataGetIoBase device + ataDataRegister) lo hi).disks =
        storeWord bus.disks drive lba pos lo hi ∧
      (pos + 1 ≠ 256 → ((bus.outw (ataGetIoBase device + ataDataRegister) lo hi).channel
        (ataChannelId device)).transfer = .write drive lba (pos + 1)) := by
  rw [outw_ioBase, h]
  refine ⟨rfl, ?_⟩
  intro hne
  dsimp only
  rw [if_neg hne]
  cases ataChannelId device <;> rfl

/-- The words from `i` on. -/
theorem ataWriteWords_data (drive : AtaDrive) (buffer : ℕ) (mem : Mem) : ∀ (n i : ℕ) (bus : AtaBus),
    i + n = 256 → (n ≠ 0 → (bus.channel (ataChannelId device)).transfer = .write drive lba i) →
    ∀ d l x, (ataWriteWords (ataGetIoBase device) buffer mem n i bus).disks d l x =
      if d = drive ∧ l = lba ∧ 2 * i ≤ x ∧ x < 512 then mem (buffer + x) else bus.disks d l x
  | 0, i, bus, hi, _, d, l, x => by
    rw [if_neg (by omega)]
    rfl
  | n + 1, i, bus, hi, ht, d, l, x => by
    obtain ⟨h1, h2⟩ := outw_write (mem (buffer + 2 * i)) (mem (buffer + 2 * i + 1))
      (ht (Nat.succ_ne_zero n))
    rw [ataWriteWords, ataWriteWords_data drive buffer mem n (i + 1) _ (by omega)
      (fun hn => h2 (by omega)), h1]
    by_cases hd : d = drive
    · by_cases hl : l = lba
      · subst hd
        subst hl
        simp only [storeWord, Function.update_self, true_and]
        by_cases hx : 2 * (i + 1) ≤ x ∧ x < 512
        · rw [if_pos hx, if_pos ⟨by omega, hx.2⟩]
        · rw [if_neg hx]
          by_cases hhi : x = 2 * i + 1
          · subst hhi
            rw [Function.update_self, if_pos ⟨by omega, by omega⟩]
            congr 1
          · rw [Function.update_of_ne hhi]
            by_cases hlo : x = 2 * i
            · subst hlo
              rw [Function.update_self, if_pos ⟨by omega, by omega⟩]
            · rw [Function.update_of_ne hlo, if_neg (by omega)]
      · rw [if_neg (fun hc => hl hc.2.1), if_neg (fun hc => hl hc.2.1)]
        subst hd
        rw [storeWord, Function.update_self, Function.update_of_ne hl]
    · rw [if_neg (fun hc => hd hc.1), if_neg (fun hc => hd hc.1), storeWord,
        Function.update_of_ne hd]

/-- **A sector is written** from the sector buffer. -/
theorem ataWriteSectorLba28_data (device : AtaDevice) (buffer : ℕ) (s : AtaState)
    (h : lba < 268435456) :
    (ataWriteSectorLba28 device lba buffer s).mem = s.mem ∧
      ∀ d l x, (ataWriteSectorLba28 device lba buffer s).bus.disks d l x =
        if d = ataMaster device ∧ l = lba ∧ x < 512 then s.mem (buffer + x)
        else s.bus.disks d l x := by
  obtain ⟨h1, -, h2⟩ := ataSectorCommand_transfer device 0x30 s.bus h (Or.inr rfl)
  refine ⟨rfl, fun d l x => ?_⟩
  unfold ataWriteSectorLba28
  dsimp only
  rw [ataWriteWords_data (ataMaster device) buffer s.mem 256 0 _ rfl (fun _ => h2 rfl), h1]
  refine if_congr ?_ rfl rfl
  constructor
  · rintro ⟨hd, hl, -, hx⟩
    exact ⟨hd, hl, hx⟩
  · rintro ⟨hd, hl, hx⟩
    exact ⟨hd, hl, Nat.zero_le x, hx⟩

end Ttos
