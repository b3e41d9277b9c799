/-
  Which drives an ATA call reaches.

  * `OnlyDrive d`: every sector command went to `d` and only `d`'s sectors
    changed;
  * `ata_drive_confined`: an accepted call reaches only its own drive exactly
    when that drive is a master (or the call moves no sector);
  * `ata_slave_hits_master`: a write to a slave that changes the master.
-/
import Ttos.Drivers.Ata

namespace Ttos

variable {device : AtaDevice} {bus bus' : AtaBus} {d : AtaDrive}

/-! ## Registers -/

@[simp] theorem channel_setChannel (bus : AtaBus) (id : AtaChannelId) (c : AtaChannel) :
    (bus.setChannel id c).channel id = c := by cases id <;> rfl

@[simp] theorem setChannel_setChannel (bus : AtaBus) (id : AtaChannelId) (c c' : AtaChannel) :
    (bus.setChannel id c).setChannel id c' = bus.setChannel id c' := by cases id <;> rfl

@[simp] theorem disks_setChannel (bus : AtaBus) (id : AtaChannelId) (c : AtaChannel) :
    (bus.setChannel id c).disks = bus.disks := by cases id <;> rfl

@[simp] theorem commands_setChannel (bus : AtaBus) (id : AtaChannelId) (c : AtaChannel) :
    (bus.setChannel id c).commands = bus.commands := by cases id <;> rfl

/-- The channel of a device. -/
def ataChannelId (device : AtaDevice) : AtaChannelId :=
  match device.drive with
  | .primaryMaster | .primarySlave => .primary
  | .secondaryMaster | .secondarySlave => .secondary

/-- The master on the channel of a device. -/
def ataMaster (device : AtaDevice) : AtaDrive :=
  match device.drive with
  | .primaryMaster | .primarySlave => .primaryMaster
  | .secondaryMaster | .secondarySlave => .secondaryMaster

theorem ataMaster_eq_iff : ataMaster device = device.drive ↔ ataIsMaster device = true := by
  unfold ataMaster ataIsMaster
  cases device.drive <;> decide

theorem portRegister_ioBase (device : AtaDevice) {r : ℕ} (hr : r < 8) :
    portRegister (ataGetIoBase device + r) = some (ataChannelId device, r) := by
  have hi := hr
  unfold portRegister ataGetIoBase ataChannelId ataPrimaryIoBase ataSecondaryIoBase
  cases device.drive with
  | primaryMaster | primarySlave =>
    rw [if_pos (by dsimp only; omega), Nat.add_sub_cancel_left]
  | secondaryMaster | secondarySlave =>
    rw [if_neg (by dsimp only; omega), if_pos (by dsimp only; omega), Nat.add_sub_cancel_left]

/-- The drive/head value of the sector functions has bit 4 clear. -/
theorem selectedDrive_driver (device : AtaDevice) (lba : ℕ) :
    selectedDrive (ataChannelId device) (0xE0 ||| ((lba >>> 24) &&& 0x0F)) = ataMaster device := by
  have hb : (0xE0 ||| ((lba >>> 24) &&& 0x0F)).testBit 4 = false := by
    rw [Nat.testBit_or, Nat.testBit_and]
    simp [show Nat.testBit 0xE0 4 = false by decide, show Nat.testBit 0x0F 4 = false by decide]
  unfold selectedDrive ataChannelId ataMaster
  rw [hb]
  cases device.drive <;> rfl

/-! ## Only one drive -/

/-- From `bus` to `bus'`, every sector command went to `d` and no other drive's
    sectors changed. -/
structure OnlyDrive (d : AtaDrive) (bus bus' : AtaBus) : Prop where
  commands : ∃ new, bus'.commands = bus.commands ++ new ∧ ∀ c ∈ new, c.drive = d
  disks : ∀ d', d' ≠ d → bus'.disks d' = bus.disks d'

theorem OnlyDrive.of_eq (hc : bus'.commands = bus.commands) (hd : bus'.disks = bus.disks) :
    OnlyDrive d bus bus' :=
  ⟨⟨[], by rw [hc, List.append_nil], fun _ h => nomatch h⟩, fun _ _ => by rw [hd]⟩

theorem OnlyDrive.refl (d : AtaDrive) (bus : AtaBus) : OnlyDrive d bus bus := .of_eq rfl rfl

theorem OnlyDrive.trans {bus'' : AtaBus} (h : OnlyDrive d bus bus') (h' : OnlyDrive d bus' bus'') :
    OnlyDrive d bus bus'' := by
  obtain ⟨new, e, hn⟩ := h.commands
  obtain ⟨new', e', hn'⟩ := h'.commands
  refine ⟨⟨new ++ new', by rw [e', e, List.append_assoc], fun c hc => ?_⟩, fun d' hd => ?_⟩
  · rcases List.mem_append.1 hc with hc | hc
    · exact hn c hc
    · exact hn' c hc
  · rw [h'.disks d' hd, h.disks d' hd]

/-- A command that reached another drive rules `OnlyDrive` out. -/
theorem OnlyDrive.drive_eq {d' : AtaDrive} (h : OnlyDrive d bus bus') (h' : OnlyDrive d' bus bus')
    (hne : bus'.commands ≠ bus.commands) : d = d' := by
  obtain ⟨new, e, hn⟩ := h.commands
  obtain ⟨new', e', hn'⟩ := h'.commands
  have : new = new' := List.append_cancel_left (e.symm.trans e')
  subst this
  cases new with
  | nil => exact absurd (e.trans (List.append_nil _)) hne
  | cons c new =>
    rw [← hn c List.mem_cons_self, hn' c List.mem_cons_self]

/-! ## The driver's steps -/

/-- What a channel is writing goes to `d`. -/
def Targets (bus : AtaBus) (id : AtaChannelId) (d : AtaDrive) : Prop :=
  ∀ drive lba pos, (bus.channel id).transfer = .write drive lba pos → drive = d

theorem inbStatus_ioBase (device : AtaDevice) (bus : AtaBus) :
    bus.inbStatus (ataGetIoBase device + ataStatusRegister) =
      if (bus.channel (ataChannelId device)).busy = 0 then (0x40, bus)
      else (0x80, bus.setChannel (ataChannelId device)
        { bus.channel (ataChannelId device) with
          busy := (bus.channel (ataChannelId device)).busy - 1 }) := by
  rw [AtaBus.inbStatus, ataStatusRegister, portRegister_ioBase device (by decide)]
  rfl

/-- Waiting changes nothing but the time left. -/
theorem ataWait_spec (device : AtaDevice) (n : ℕ) (bus : AtaBus) :
    (ataWait (ataGetIoBase device) n bus).disks = bus.disks ∧
      (ataWait (ataGetIoBase device) n bus).commands = bus.commands ∧
      ((ataWait (ataGetIoBase device) n bus).channel (ataChannelId device)).transfer =
        (bus.channel (ataChannelId device)).transfer := by
  induction n generalizing bus with
  | zero => exact ⟨rfl, rfl, rfl⟩
  | succ n ih =>
    rw [ataWait, inbStatus_ioBase]
    by_cases hb : (bus.channel (ataChannelId device)).busy = 0
    · rw [if_pos hb]
      have h7 : Nat.testBit 0x40 7 = false := by decide
      simp only [h7, Bool.false_eq_true, if_false, and_self]
    · rw [if_neg hb]
      have h7 : Nat.testBit 0x80 7 = true := by decide
      simp only [h7, if_true]
      obtain ⟨h1, h2, h3⟩ := ih (bus.setChannel (ataChannelId device)
        { bus.channel (ataChannelId device) with
          busy := (bus.channel (ataChannelId device)).busy - 1 })
      rw [h1, h2, h3]
      simp

/-- The registers the sector functions load. -/
def loadRegisters (lba : ℕ) (c : AtaChannel) : AtaChannel :=
  { c with
    driveHead := 0xE0 ||| ((lba >>> 24) &&& 0x0F)
    sectorCount := 0x01
    lbaLow := lba &&& 0x000000FF
    lbaMid := (lba &&& 0x0000FF00) >>> 8
    lbaHigh := (lba &&& 0x00FF0000) >>> 16 }

theorem ataSectorCommand_eq (device : AtaDevice) (lba code : ℕ) (bus : AtaBus) :
    ∃ n, ataSectorCommand device lba code bus = ataWait (ataGetIoBase device) n
      ((bus.setChannel (ataChannelId device)
        (loadRegisters lba (bus.channel (ataChannelId device)))).command (ataChannelId device)
          code) := by
  unfold ataSectorCommand
  simp only [AtaBus.outb, ataDriveRegister, ataSectorCountRegister, ataLbaLowRegister,
    ataLbaMidRegister, ataLbaHighRegister, ataCommandRegister,
    portRegister_ioBase device (show 6 < 8 by decide),
    portRegister_ioBase device (show 2 < 8 by decide),
    portRegister_ioBase device (show 3 < 8 by decide),
    portRegister_ioBase device (show 4 < 8 by decide),
    portRegister_ioBase device (show 5 < 8 by decide),
    portRegister_ioBase device (show 7 < 8 by decide), channel_setChannel, setChannel_setChannel]
  exact ⟨_, rfl⟩

/-- A sector command goes to the selected drive. -/
theorem command_spec (bus : AtaBus) (id : AtaChannelId) {code : ℕ}
    (hc : code = 0x20 ∨ code = 0x30) :
    (bus.command id code).disks = bus.disks ∧
      (bus.command id code).commands = bus.commands ++
        [⟨selectedDrive id (bus.channel id).driveHead, code = 0x30, (bus.channel id).lba⟩] ∧
      Targets (bus.command id code) id (selectedDrive id (bus.channel id).driveHead) := by
  rcases hc with rfl | rfl
  · refine ⟨disks_setChannel _ _ _, rfl, fun drive lba pos ht => ?_⟩
    cases id <;> cases ht
  · refine ⟨disks_setChannel _ _ _, rfl, fun drive lba pos ht => ?_⟩
    cases id <;> cases ht <;> rfl

/-- A sector command reaches the master of the device's channel. -/
theorem ataSectorCommand_spec (device : AtaDevice) (lba : ℕ) {code : ℕ} (bus : AtaBus)
    (hc : code = 0x20 ∨ code = 0x30) :
    OnlyDrive (ataMaster device) bus (ataSectorCommand device lba code bus) ∧
      bus.commands.length < (ataSectorCommand device lba code bus).commands.length ∧
      Targets (ataSectorCommand device lba code bus) (ataChannelId device) (ataMaster device) := by
  obtain ⟨n, e⟩ := ataSectorCommand_eq device lba code bus
  obtain ⟨w1, w2, w3⟩ := ataWait_spec device n
    ((bus.setChannel (ataChannelId device)
      (loadRegisters lba (bus.channel (ataChannelId device)))).command (ataChannelId device) code)
  obtain ⟨c1, c2, c3⟩ := command_spec (bus.setChannel (ataChannelId device)
    (loadRegisters lba (bus.channel (ataChannelId device)))) (ataChannelId device) hc
  have hs : selectedDrive (ataChannelId device)
      (loadRegisters lba (bus.channel (ataChannelId device))).driveHead = ataMaster device :=
    selectedDrive_driver device lba
  rw [channel_setChannel, hs] at c2 c3
  rw [commands_setChannel] at c2
  rw [disks_setChannel] at c1
  rw [e]
  refine ⟨⟨⟨_, w2.trans c2, by simp⟩, fun d' _ => by rw [w1, c1]⟩, ?_, ?_⟩
  · rw [w2, c2, List.length_append, List.length_singleton]
    omega
  · intro drive l pos ht
    exact c3 drive l pos (w3.symm.trans ht)

/-- One word of a sector into the bytes of a drive. -/
def storeWord (disks : AtaDrive → ℕ → ℕ → UInt8) (drive : AtaDrive) (lba pos : ℕ)
    (lo hi : UInt8) : AtaDrive → ℕ → ℕ → UInt8 :=
  Function.update disks drive (Function.update (disks drive) lba
    (Function.update (Function.update (disks drive lba) (2 * pos) lo) (2 * pos + 1) hi))

theorem outw_ioBase (device : AtaDevice) (bus : AtaBus) (lo hi : UInt8) :
    bus.outw (ataGetIoBase device + ataDataRegister) lo hi =
      match (bus.channel (ataChannelId device)).transfer with
      | .write drive lba pos =>
        { bus.setChannel (ataChannelId device) { bus.channel (ataChannelId device) with
            transfer := if pos + 1 = 256 then .idle else .write drive lba (pos + 1) } with
          disks := storeWord bus.disks drive lba pos lo hi }
      | _ => bus := by
  rw [AtaBus.outw, ataDataRegister, portRegister_ioBase device (by decide)]
  rfl

/-- A word goes to the drive whose sector is being written. -/
theorem outw_spec (device : AtaDevice) (bus : AtaBus) (lo hi : UInt8)
    (ht : Targets bus (ataChannelId device) d) :
    OnlyDrive d bus (bus.outw (ataGetIoBase device + ataDataRegister) lo hi) ∧
      Targets (bus.outw (ataGetIoBase device + ataDataRegister) lo hi) (ataChannelId device) d ∧
      (bus.outw (ataGetIoBase device + ataDataRegister) lo hi).commands = bus.commands := by
  rw [outw_ioBase]
  cases hc : (bus.channel (ataChannelId device)).transfer with
  | idle => exact ⟨OnlyDrive.refl d bus, ht, rfl⟩
  | read drive lba pos => exact ⟨OnlyDrive.refl d bus, ht, rfl⟩
  | write drive lba pos =>
    have hd : drive = d := ht drive lba pos hc
    subst hd
    refine ⟨⟨⟨[], by simp, fun _ h => nomatch h⟩, fun d' hne => ?_⟩, ?_, commands_setChannel _ _ _⟩
    · exact Function.update_of_ne hne _ _
    · intro drive' lba' pos' ht'
      have hch : ∀ c : AtaChannel, ∀ disks, ({ bus.setChannel (ataChannelId device) c with
          disks := disks } : AtaBus).channel (ataChannelId device) = c := by
        intro c disks
        cases ataChannelId device <;> rfl
      rw [hch] at ht'
      dsimp only at ht'
      split_ifs at ht'
      cases ht'
      rfl

theorem ataWriteWords_spec (device : AtaDevice) (buffer : ℕ) (mem : Mem) (n i : ℕ) (bus : AtaBus)
    (ht : Targets bus (ataChannelId device) d) :
    OnlyDrive d bus (ataWriteWords (ataGetIoBase device) buffer mem n i bus) ∧
      (ataWriteWords (ataGetIoBase device) buffer mem n i bus).commands = bus.commands := by
  induction n generalizing i bus with
  | zero => exact ⟨OnlyDrive.refl d bus, rfl⟩
  | succ n ih =>
    obtain ⟨h1, h2, h3⟩ := outw_spec device bus (mem (buffer + 2 * i)) (mem (buffer + 2 * i + 1)) ht
    obtain ⟨h4, h5⟩ := ih (i + 1) _ h2
    exact ⟨h1.trans h4, h5.trans h3⟩

theorem inw_spec (device : AtaDevice) (bus : AtaBus) :
    (bus.inw (ataGetIoBase device + ataDataRegister)).2.2.disks = bus.disks ∧
      (bus.inw (ataGetIoBase device + ataDataRegister)).2.2.commands = bus.commands := by
  rw [AtaBus.inw, ataDataRegister, portRegister_ioBase device (by decide)]
  cases hc : (bus.channel (ataChannelId device)).transfer with
  | idle => simp only [hc, and_self]
  | write drive lba pos => simp only [hc, and_self]
  | read drive lba pos => simp only [hc, disks_setChannel, commands_setChannel, and_self]

/-- Reading words leaves the drives and the command log alone. -/
theorem ataReadWords_spec (device : AtaDevice) (buffer n i : ℕ) (s : AtaState) :
    (ataReadWords (ataGetIoBase device) buffer n i s).bus.disks = s.bus.disks ∧
      (ataReadWords (ataGetIoBase device) buffer n i s).bus.commands = s.bus.commands := by
  induction n generalizing i s with
  | zero => exact ⟨rfl, rfl⟩
  | succ n ih =>
    obtain ⟨h1, h2⟩ := inw_spec device s.bus
    rw [ataReadWords]
    obtain ⟨h3, h4⟩ := ih (i + 1) ⟨(s.bus.inw (ataGetIoBase device + ataDataRegister)).2.2,
      (s.mem.store8 (buffer + 2 * i) (s.bus.inw (ataGetIoBase device + ataDataRegister)).1).store8
        (buffer + 2 * i + 1) (s.bus.inw (ataGetIoBase device + ataDataRegister)).2.1⟩
    exact ⟨h3.trans h1, h4.trans h2⟩

/-- Each sector function gives a command to the master of the device's channel, and
    reaches no other drive. -/
theorem ataWriteSectorLba28_spec (device : AtaDevice) (lba buffer : ℕ) (s : AtaState) :
    OnlyDrive (ataMaster device) s.bus (ataWriteSectorLba28 device lba buffer s).bus ∧
      s.bus.commands.length < (ataWriteSectorLba28 device lba buffer s).bus.commands.length := by
  obtain ⟨h1, h2, h3⟩ := ataSectorCommand_spec device lba s.bus (Or.inr rfl)
  obtain ⟨h4, h5⟩ := ataWriteWords_spec device buffer s.mem 256 0 _ h3
  unfold ataWriteSectorLba28
  dsimp only
  exact ⟨h1.trans h4, by rw [h5]; exact h2⟩

theorem ataReadSectorLba28_spec (device : AtaDevice) (lba buffer : ℕ) (s : AtaState) :
    OnlyDrive (ataMaster device) s.bus (ataReadSectorLba28 device lba buffer s).bus ∧
      s.bus.commands.length < (ataReadSectorLba28 device lba buffer s).bus.commands.length := by
  obtain ⟨h1, h2, -⟩ := ataSectorCommand_spec device lba s.bus (Or.inl rfl)
  obtain ⟨h4, h5⟩ := ataReadWords_spec device buffer 256 0
    { s with bus := ataSectorCommand device lba 0x20 s.bus }
  unfold ataReadSectorLba28
  dsimp only
  exact ⟨h1.trans (.of_eq h5 h4), by rw [h5]; exact h2⟩

/-! ## The loops -/

theorem ataWriteLoop_spec (device : AtaDevice) (sectorBuffer first firstOffset last lastOffset : ℕ)
    (n sector : ℕ) (l : AtaLoop) (s : AtaState) :
    OnlyDrive (ataMaster device) s.bus
        (ataWriteLoop device sectorBuffer first firstOffset last lastOffset n sector l s).2.bus ∧
      s.bus.commands.length + n ≤
        (ataWriteLoop device sectorBuffer first firstOffset last lastOffset n sector l
          s).2.bus.commands.length := by
  induction n generalizing sector l s with
  | zero => exact ⟨OnlyDrive.refl _ _, le_rfl⟩
  | succ n ih =>
    rw [ataWriteLoop]
    generalize hr : ataReadSectorLba28 device sector sectorBuffer s = r
    obtain ⟨h1, h2⟩ := hr ▸ ataReadSectorLba28_spec device sector sectorBuffer s
    generalize l.locate sector first firstOffset last lastOffset = l'
    generalize hw : ataWriteSectorLba28 device sector sectorBuffer
      { r with mem := r.mem.copy (sectorBuffer + l'.offset) l'.pointer l'.size } = t
    obtain ⟨h3, h4⟩ := hw ▸ ataWriteSectorLba28_spec device sector sectorBuffer
      { r with mem := r.mem.copy (sectorBuffer + l'.offset) l'.pointer l'.size }
    obtain ⟨h5, h6⟩ := ih (sector + 1) l'.advance t
    refine ⟨(h1.trans h3).trans h5, le_trans ?_ h6⟩
    dsimp only at h4
    omega

theorem ataReadLoop_spec (device : AtaDevice) (sectorBuffer first firstOffset last lastOffset : ℕ)
    (n sector : ℕ) (l : AtaLoop) (s : AtaState) :
    OnlyDrive (ataMaster device) s.bus
        (ataReadLoop device sectorBuffer first firstOffset last lastOffset n sector l s).2.bus ∧
      s.bus.commands.length + n ≤
        (ataReadLoop device sectorBuffer first firstOffset last lastOffset n sector l
          s).2.bus.commands.length := by
  induction n generalizing sector l s with
  | zero => exact ⟨OnlyDrive.refl _ _, le_rfl⟩
  | succ n ih =>
    rw [ataReadLoop]
    generalize hr : ataReadSectorLba28 device sector sectorBuffer s = r
    obtain ⟨h1, h2⟩ := hr ▸ ataReadSectorLba28_spec device sector sectorBuffer s
    generalize l.locate sector first firstOffset last lastOffset = l'
    obtain ⟨h3, h4⟩ := ih (sector + 1) l'.advance
      { r with mem := r.mem.copy l'.pointer (sectorBuffer + l'.offset) l'.size }
    refine ⟨h1.trans h3, le_trans ?_ h4⟩
    dsimp only
    omega

/-- An accepted call gives a command for every sector, all of them to the master. -/
theorem ataWrite_spec {sectorBuffer offset size buffer ret : ℕ} {s s' : AtaState}
    (ha : ataAccepts device offset size = true)
    (h : ataWrite sectorBuffer device offset size buffer s = .ok (ret, s')) :
    OnlyDrive (ataMaster device) s.bus s'.bus ∧
      s.bus.commands.length + ataSectors offset size ≤ s'.bus.commands.length ∧
      (ataSectors offset size = 0 → s'.bus = s.bus) := by
  rw [ataWrite, if_neg (by rw [ha]; decide)] at h
  split_ifs at h
  generalize offset / ataSectorSize = first at h
  generalize offset % ataSectorSize = firstOffset at h
  generalize ataEnd offset size / ataSectorSize = last at h
  generalize ataEnd offset size % ataSectorSize = lastOffset at h
  generalize ataSectors offset size = n at h ⊢
  obtain ⟨h1, h2⟩ := ataWriteLoop_spec device sectorBuffer first firstOffset last lastOffset n first
    ⟨buffer, 0, 0, 0⟩ s
  generalize hl : ataWriteLoop device sectorBuffer first firstOffset last lastOffset n first
    ⟨buffer, 0, 0, 0⟩ s = res at h h1 h2
  obtain ⟨l, t⟩ := res
  cases h
  refine ⟨h1, h2, fun h0 => ?_⟩
  rw [h0, ataWriteLoop] at hl
  cases hl
  rfl

theorem ataRead_spec {sectorBuffer offset size buffer ret : ℕ} {s s' : AtaState}
    (ha : ataAccepts device offset size = true)
    (h : ataRead sectorBuffer device offset size buffer s = .ok (ret, s')) :
    OnlyDrive (ataMaster device) s.bus s'.bus ∧
      s.bus.commands.length + ataSectors offset size ≤ s'.bus.commands.length ∧
      (ataSectors offset size = 0 → s'.bus = s.bus) := by
  rw [ataRead, if_neg (by rw [ha]; decide)] at h
  split_ifs at h
  generalize offset / ataSectorSize = first at h
  generalize offset % ataSectorSize = firstOffset at h
  generalize ataEnd offset size / ataSectorSize = last at h
  generalize ataEnd offset size % ataSectorSize = lastOffset at h
  generalize ataSectors offset size = n at h ⊢
  obtain ⟨h1, h2⟩ := ataReadLoop_spec device sectorBuffer first firstOffset last lastOffset n first
    ⟨buffer, 0, 0, 0⟩ s
  generalize hl : ataReadLoop device sectorBuffer first firstOffset last lastOffset n first
    ⟨buffer, 0, 0, 0⟩ s = res at h h1 h2
  obtain ⟨l, t⟩ := res
  cases h
  refine ⟨h1, h2, fun h0 => ?_⟩
  rw [h0, ataReadLoop] at hl
  cases hl
  rfl

/-- What reaches only the master is confined to the device's drive exactly when that
    is the master, or when there was no command. -/
theorem onlyDrive_iff {sectors : ℕ} (h1 : OnlyDrive (ataMaster device) bus bus')
    (h2 : bus.commands.length + sectors ≤ bus'.commands.length) (h3 : sectors = 0 → bus' = bus) :
    OnlyDrive device.drive bus bus' ↔ ataIsMaster device = true ∨ sectors = 0 := by
  constructor
  · intro h
    by_cases h0 : sectors = 0
    · exact Or.inr h0
    · have hne : bus'.commands ≠ bus.commands := by
        intro he
        rw [he] at h2
        omega
      exact Or.inl (ataMaster_eq_iff.1 (h1.drive_eq h hne))
  · rintro (hm | h0)
    · rw [← ataMaster_eq_iff.2 hm]
      exact h1
    · rw [h3 h0]
      exact OnlyDrive.refl _ _

/-- **An accepted call reaches only its own drive exactly when that drive is the master
    of its channel**, or when the call covers no sector. -/
theorem ata_drive_confined (device : AtaDevice) (sectorBuffer offset size buffer : ℕ)
    (s : AtaState) (ha : ataAccepts device offset size = true) :
    (∀ ret s', ataWrite sectorBuffer device offset size buffer s = .ok (ret, s') →
      (OnlyDrive device.drive s.bus s'.bus ↔
        ataIsMaster device = true ∨ ataSectors offset size = 0)) ∧
    (∀ ret s', ataRead sectorBuffer device offset size buffer s = .ok (ret, s') →
      (OnlyDrive device.drive s.bus s'.bus ↔
        ataIsMaster device = true ∨ ataSectors offset size = 0)) := by
  constructor
  · intro ret s' h
    obtain ⟨h1, h2, h3⟩ := ataWrite_spec ha h
    exact onlyDrive_iff h1 h2 h3
  · intro ret s' h
    obtain ⟨h1, h2, h3⟩ := ataRead_spec ha h
    exact onlyDrive_iff h1 h2 h3

/-! ## A write to a slave -/

/-- Four drives of 1 MiB full of zeros, a memory full of ones. -/
def zeroDrives : AtaState where
  bus :=
    { primary := ⟨0, 0, 0, 0, 0, .idle, 0⟩
      secondary := ⟨0, 0, 0, 0, 0, .idle, 0⟩
      disks := fun _ _ _ => 0
      commands := []
      latency := fun _ => 1 }
  mem := fun _ => 1

def presentDrive (drive : AtaDrive) : AtaDevice := ⟨drive, true, true, 1048576⟩

/-- One sector from address 8192 to the start of a drive, with the sector buffer at 4096. -/
def writeFirstSector (drive : AtaDrive) : Except AtaPanic (ℕ × AtaState) :=
  ataWrite 4096 (presentDrive drive) 0 512 8192 zeroDrives

theorem ata_drive_confined_master :
    ∃ ret s', writeFirstSector .primaryMaster = .ok (ret, s') ∧
      OnlyDrive .primaryMaster zeroDrives.bus s'.bus := by
  have hr : returns (writeFirstSector .primaryMaster) (fun r => r.1 = 512) = true := by
    decide +kernel
  obtain ⟨⟨ret, s'⟩, h, -⟩ := exists_of_check hr
  exact ⟨ret, s', h, ((ata_drive_confined (presentDrive .primaryMaster) 4096 0 512 8192 zeroDrives
    rfl).1 ret s' h).2 (Or.inl rfl)⟩

/-- **A write to the primary slave changes the primary master.** -/
theorem ata_slave_hits_master : ¬ ∀ (device : AtaDevice) (sectorBuffer offset size buffer : ℕ)
    (s : AtaState), ataAccepts device offset size = true →
    ∀ ret s', ataWrite sectorBuffer device offset size buffer s = .ok (ret, s') →
      OnlyDrive device.drive s.bus s'.bus := by
  intro h
  have hr : returns (writeFirstSector .primarySlave)
      (fun r => r.2.bus.disks .primaryMaster 0 0 = 1) = true := by
    decide +kernel
  obtain ⟨⟨ret, s'⟩, hw, hone⟩ := exists_of_check hr
  have hd := (h (presentDrive .primarySlave) 4096 0 512 8192 zeroDrives rfl ret s' hw).disks
    .primaryMaster AtaDrive.noConfusion
  have h1 := of_decide_eq_true hone
  dsimp only at h1
  rw [hd] at h1
  revert h1
  decide

end Ttos
