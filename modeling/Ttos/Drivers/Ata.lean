/-
  The ATA driver (ata.c) over the two channels of an IDE controller.

  The upper half is the controller as the driver sees it: port numbers, the
  registers of a channel, and the drive that answers, which bit 4 of the
  drive/head register selects.  The lower half is the driver.
-/
import Mathlib.Logic.Function.Basic
import Ttos.Lib.Bytes
import Ttos.Lib.Outcome
import Ttos.Lib.Word

namespace Ttos

/-- `ata_drive_t` -/
inductive AtaDrive where
  | primaryMaster
  | primarySlave
  | secondaryMaster
  | secondarySlave
deriving DecidableEq, Repr

inductive AtaChannelId where
  | primary
  | secondary
deriving DecidableEq, Repr

/-! ## The controller -/

/-- What a channel transfers: the sector of a drive, from word `pos` on. -/
inductive AtaTransfer where
  | idle
  | read (drive : AtaDrive) (lba pos : ℕ)
  | write (drive : AtaDrive) (lba pos : ℕ)
deriving DecidableEq, Repr

/-- A channel: its register file, its transfer, and for how many reads of the
    status register it is still busy. -/
structure AtaChannel where
  sectorCount : ℕ
  lbaLow : ℕ
  lbaMid : ℕ
  lbaHigh : ℕ
  driveHead : ℕ
  transfer : AtaTransfer
  busy : ℕ
deriving Repr

/-- A sector command a drive got. -/
structure AtaCommand where
  drive : AtaDrive
  write : Bool
  lba : ℕ
deriving DecidableEq, Repr

/-- The controller with its drives: the bytes of each sector, the commands given
    so far, and how long the drives take for each of them. -/
structure AtaBus where
  primary : AtaChannel
  secondary : AtaChannel
  disks : AtaDrive → ℕ → ℕ → UInt8
  commands : List AtaCommand
  latency : ℕ → ℕ

namespace AtaBus

def channel (bus : AtaBus) : AtaChannelId → AtaChannel
  | .primary => bus.primary
  | .secondary => bus.secondary

def setChannel (bus : AtaBus) (id : AtaChannelId) (c : AtaChannel) : AtaBus :=
  match id with
  | .primary => { bus with primary := c }
  | .secondary => { bus with secondary := c }

end AtaBus

def ataPrimaryIoBase : ℕ := 0x1F0
def ataSecondaryIoBase : ℕ := 0x170

def ataDataRegister : ℕ := 0
def ataSectorCountRegister : ℕ := 2
def ataLbaLowRegister : ℕ := 3
def ataLbaMidRegister : ℕ := 4
def ataLbaHighRegister : ℕ := 5
def ataDriveRegister : ℕ := 6
def ataStatusRegister : ℕ := 7
def ataCommandRegister : ℕ := 7

def ataSectorSize : ℕ := 512

/-- The channel and register behind a port. -/
def portRegister (port : ℕ) : Option (AtaChannelId × ℕ) :=
  if ataPrimaryIoBase ≤ port ∧ port < ataPrimaryIoBase + 8 then
    some (.primary, port - ataPrimaryIoBase)
  else if ataSecondaryIoBase ≤ port ∧ port < ataSecondaryIoBase + 8 then
    some (.secondary, port - ataSecondaryIoBase)
  else none

/-- The drive that answers on a channel. -/
def selectedDrive (id : AtaChannelId) (driveHead : ℕ) : AtaDrive :=
  match id, driveHead.testBit 4 with
  | .primary, false => .primaryMaster
  | .primary, true => .primarySlave
  | .secondary, false => .secondaryMaster
  | .secondary, true => .secondarySlave

/-- The 28-bit block address in a channel's registers. -/
def AtaChannel.lba (c : AtaChannel) : ℕ :=
  c.driveHead % 16 * 16777216 + c.lbaHigh * 65536 + c.lbaMid * 256 + c.lbaLow

/-- A command starts the transfer of a sector of the selected drive. -/
def AtaBus.command (bus : AtaBus) (id : AtaChannelId) (code : ℕ) : AtaBus :=
  let c := bus.channel id
  let drive := selectedDrive id c.driveHead
  let busy := bus.latency bus.commands.length
  let start (transfer : AtaTransfer) (write : Bool) : AtaBus :=
    { bus.setChannel id { c with transfer := transfer, busy := busy } with
      commands := bus.commands ++ [⟨drive, write, c.lba⟩] }
  if code = 0x20 then start (.read drive c.lba 0) false
  else if code = 0x30 then start (.write drive c.lba 0) true
  else bus

/-- `outb` -/
def AtaBus.outb (bus : AtaBus) (port value : ℕ) : AtaBus :=
  match portRegister port with
  | some (id, 2) => bus.setChannel id { bus.channel id with sectorCount := value }
  | some (id, 3) => bus.setChannel id { bus.channel id with lbaLow := value }
  | some (id, 4) => bus.setChannel id { bus.channel id with lbaMid := value }
  | some (id, 5) => bus.setChannel id { bus.channel id with lbaHigh := value }
  | some (id, 6) => bus.setChannel id { bus.channel id with driveHead := value }
  | some (id, 7) => bus.command id value
  | _ => bus

/-- `inb` on a status register: bit 7 is set while the drive is busy. -/
def AtaBus.inbStatus (bus : AtaBus) (port : ℕ) : ℕ × AtaBus :=
  match portRegister port with
  | some (id, 7) =>
    let c := bus.channel id
    if c.busy = 0 then (0x40, bus) else (0x80, bus.setChannel id { c with busy := c.busy - 1 })
  | _ => (0x00, bus)

/-- `outw` of the word with the bytes `lo` and `hi` to a data register. -/
def AtaBus.outw (bus : AtaBus) (port : ℕ) (lo hi : UInt8) : AtaBus :=
  match portRegister port with
  | some (id, 0) =>
    let c := bus.channel id
    match c.transfer with
    | .write drive lba pos =>
      let sector := bus.disks drive lba
      let sector := Function.update (Function.update sector (2 * pos) lo) (2 * pos + 1) hi
      let transfer := if pos + 1 = 256 then .idle else .write drive lba (pos + 1)
      { bus.setChannel id { c with transfer := transfer } with
        disks := Function.update bus.disks drive
          (Function.update (bus.disks drive) lba sector) }
    | _ => bus
  | _ => bus

/-- `inw` on a data register: the two bytes of the word. -/
def AtaBus.inw (bus : AtaBus) (port : ℕ) : UInt8 × UInt8 × AtaBus :=
  match portRegister port with
  | some (id, 0) =>
    let c := bus.channel id
    match c.transfer with
    | .read drive lba pos =>
      let transfer := if pos + 1 = 256 then .idle else .read drive lba (pos + 1)
      (bus.disks drive lba (2 * pos), bus.disks drive lba (2 * pos + 1),
        bus.setChannel id { c with transfer := transfer })
    | _ => (0, 0, bus)
  | _ => (0, 0, bus)

/-! ## The driver -/

/-- `ata_device_t` -/
structure AtaDevice where
  drive : AtaDrive
  present : Bool
  lbaSupported : Bool
  size : ℕ
deriving DecidableEq, Repr

def ataGetIoBase (device : AtaDevice) : ℕ :=
  match device.drive with
  | .primaryMaster | .primarySlave => ataPrimaryIoBase
  | .secondaryMaster | .secondarySlave => ataSecondaryIoBase

def ataIsMaster (device : AtaDevice) : Bool :=
  match device.drive with
  | .primaryMaster | .secondaryMaster => true
  | .primarySlave | .secondarySlave => false

/-- The controller and the memory the driver copies from and to. -/
structure AtaState where
  bus : AtaBus
  mem : Mem

/-- `while(inb(status) & 0x80)`, with the reads the drive stays busy as fuel. -/
def ataWait (ioBase : ℕ) : ℕ → AtaBus → AtaBus
  | 0, bus => bus
  | n + 1, bus =>
    let (status, bus) := bus.inbStatus (ioBase + ataStatusRegister)
    if status.testBit 7 then ataWait ioBase n bus else bus

/-- How long the channel behind a port is busy. -/
def AtaBus.busyAt (bus : AtaBus) (ioBase : ℕ) : ℕ :=
  match portRegister (ioBase + ataStatusRegister) with
  | some (id, _) => (bus.channel id).busy + 1
  | none => 1

/-- The part the two sector functions share: select the drive, set the address,
    give the command and wait. -/
def ataSectorCommand (device : AtaDevice) (lba code : ℕ) (bus : AtaBus) : AtaBus :=
  let ioBase := ataGetIoBase device
  -- choose master/slave drives and set the LBA mode
  let bus := bus.outb (ioBase + ataDriveRegister) (0xE0 ||| ((lba >>> 24) &&& 0x0F))
  let bus := bus.outb (ioBase + ataSectorCountRegister) 0x01
  let bus := bus.outb (ioBase + ataLbaLowRegister) (lba &&& 0x000000FF)
  let bus := bus.outb (ioBase + ataLbaMidRegister) ((lba &&& 0x0000FF00) >>> 8)
  let bus := bus.outb (ioBase + ataLbaHighRegister) ((lba &&& 0x00FF0000) >>> 16)
  let bus := bus.outb (ioBase + ataCommandRegister) code
  ataWait ioBase (bus.busyAt ioBase) bus

/-- The words from `i` on, `n` of them, from memory to the drive. -/
def ataWriteWords (ioBase buffer : ℕ) (mem : Mem) : (n i : ℕ) → AtaBus → AtaBus
  | 0, _, bus => bus
  | n + 1, i, bus => ataWriteWords ioBase buffer mem n (i + 1)
      (bus.outw (ioBase + ataDataRegister) (mem (buffer + 2 * i)) (mem (buffer + 2 * i + 1)))

/-- The words from `i` on, `n` of them, from the drive to memory. -/
def ataReadWords (ioBase buffer : ℕ) : (n i : ℕ) → AtaState → AtaState
  | 0, _, s => s
  | n + 1, i, s =>
    let (lo, hi, bus) := s.bus.inw (ioBase + ataDataRegister)
    ataReadWords ioBase buffer n (i + 1)
      ⟨bus, (s.mem.store8 (buffer + 2 * i) lo).store8 (buffer + 2 * i + 1) hi⟩

def ataWriteSectorLba28 (device : AtaDevice) (lba buffer : ℕ) (s : AtaState) : AtaState :=
  let bus := ataSectorCommand device lba 0x30 s.bus
  { s with bus := ataWriteWords (ataGetIoBase device) buffer s.mem 256 0 bus }

def ataReadSectorLba28 (device : AtaDevice) (lba buffer : ℕ) (s : AtaState) : AtaState :=
  let bus := ataSectorCommand device lba 0x20 s.bus
  ataReadWords (ataGetIoBase device) buffer 256 0 { s with bus := bus }

/-- The local variables of the loops in `ata_write` and `ata_read`: `offset` and
    `size` are `write_offset` and `write_size` (`read_offset`, `read_size`). -/
structure AtaLoop where
  pointer : ℕ
  offset : ℕ
  size : ℕ
  total : ℕ
deriving DecidableEq, Repr

/-- The two `if`s of the loops. -/
def AtaLoop.locate (l : AtaLoop) (sector first firstOffset last lastOffset : ℕ) : AtaLoop :=
  let l := if sector = first then
      { l with offset := firstOffset, size := sub32 ataSectorSize firstOffset }
    else l
  if sector = last then { l with size := u32 (sub32 lastOffset l.offset + 1) } else l

/-- The end of an iteration: move the buffer pointer and count the bytes. -/
def AtaLoop.advance (l : AtaLoop) : AtaLoop :=
  { l with pointer := u32 (l.pointer + l.size), total := u32 (l.total + l.size) }

/-- The loop of `ata_write` with `n` sectors to go. -/
def ataWriteLoop (device : AtaDevice) (sectorBuffer first firstOffset last lastOffset : ℕ) :
    (n sector : ℕ) → AtaLoop → AtaState → AtaLoop × AtaState
  | 0, _, l, s => (l, s)
  | n + 1, sector, l, s =>
    let s := ataReadSectorLba28 device sector sectorBuffer s
    let l := l.locate sector first firstOffset last lastOffset
    let s := { s with mem := s.mem.copy (sectorBuffer + l.offset) l.pointer l.size }
    let s := ataWriteSectorLba28 device sector sectorBuffer s
    ataWriteLoop device sectorBuffer first firstOffset last lastOffset n (sector + 1) l.advance s

/-- The loop of `ata_read` with `n` sectors to go. -/
def ataReadLoop (device : AtaDevice) (sectorBuffer first firstOffset last lastOffset : ℕ) :
    (n sector : ℕ) → AtaLoop → AtaState → AtaLoop × AtaState
  | 0, _, l, s => (l, s)
  | n + 1, sector, l, s =>
    let s := ataReadSectorLba28 device sector sectorBuffer s
    let l := l.locate sector first firstOffset last lastOffset
    let s := { s with mem := s.mem.copy l.pointer (sectorBuffer + l.offset) l.size }
    ataReadLoop device sectorBuffer first firstOffset last lastOffset n (sector + 1) l.advance s

/-- The three checks at the start of `ata_write` and `ata_read`. -/
def ataAccepts (device : AtaDevice) (offset size : ℕ) : Bool :=
  u32 (offset + size) ≤ device.size ∧ device.present ∧ device.lbaSupported

/-- `offset + size - 1` -/
def ataEnd (offset size : ℕ) : ℕ := sub32 (u32 (offset + size)) 1

/-- The sectors the loops visit; the upper limit is below `2 ^ 23`. -/
def ataSectors (offset size : ℕ) : ℕ :=
  ataEnd offset size / ataSectorSize + 1 - offset / ataSectorSize

/-- The panic of a driver. -/
inductive AtaPanic where
  | kheapOutOfMemory
deriving DecidableEq, Repr

/-- `ata_write`; `sectorBuffer` is what `kmalloc(ATA_SECTOR_SIZE)` returns. -/
def ataWrite (sectorBuffer : ℕ) (device : AtaDevice) (offset size buffer : ℕ) (s : AtaState) :
    Except AtaPanic (ℕ × AtaState) :=
  if ataAccepts device offset size = false then .ok (0, s)
  else if sectorBuffer = 0 then .error .kheapOutOfMemory
  else
    let (l, s) := ataWriteLoop device sectorBuffer
      (offset / ataSectorSize) (offset % ataSectorSize)
      (ataEnd offset size / ataSectorSize) (ataEnd offset size % ataSectorSize)
      (ataSectors offset size) (offset / ataSectorSize) ⟨buffer, 0, 0, 0⟩ s
    .ok (l.total, s)

/-- `ata_read`; `sectorBuffer` is what `kmalloc(ATA_SECTOR_SIZE)` returns. -/
def ataRead (sectorBuffer : ℕ) (device : AtaDevice) (offset size buffer : ℕ) (s : AtaState) :
    Except AtaPanic (ℕ × AtaState) :=
  if ataAccepts device offset size = false then .ok (0, s)
  else if sectorBuffer = 0 then .error .kheapOutOfMemory
  else
    let (l, s) := ataReadLoop device sectorBuffer
      (offset / ataSectorSize) (offset % ataSectorSize)
      (ataEnd offset size / ataSectorSize) (ataEnd offset size % ataSectorSize)
      (ataSectors offset size) (offset / ataSectorSize) ⟨buffer, 0, 0, 0⟩ s
    .ok (l.total, s)

end Ttos
