import Os0.Errno
import Os0.Lib.Bytes
import Os0.Lib.Cmd
import Os0.Lib.Slice

/-! Block devices on ATA drives (`drivers/ata-bio.c`) and their registration
(`drivers/device.c`). The controller moves the sectors that a transfer asks for, and reports no
error. -/
namespace Os0

open Bytes Slice

@[irreducible] def ATA_SECTSIZE : Nat := 512
@[irreducible] def ATAPI_SECTSIZE : Nat := 2048

inductive IDEType
  | ata
  | atapi
  deriving DecidableEq, Repr

structure IDEDevice where
  reserved : Bool
  type : IDEType
  /-- `id_size`, in sectors. -/
  size : UInt32

structure SpecDevice where
  major : Nat
  minor : Nat
  /-- `sd_private`: the first sector of a partition. -/
  data : Nat
  deriving DecidableEq, Repr

/-- The drives and what their disks hold, `ata_temp_buffer`, and the buffer of the caller with
its length. -/
structure Ata where
  devices : Nat → IDEDevice
  disk : Nat → Mem
  temp : Mem
  buffer : Mem
  len : Nat

namespace Ata

/-- Why a call does not return 0. -/
inductive Stop
  /-- It accesses bytes outside of a buffer. -/
  | outside
  | errno (e : Errno)
  deriving DecidableEq, Repr

inductive Area
  | temp
  | buffer

def room (s : Ata) : Area → Nat
  | .temp => ATA_SECTSIZE
  | .buffer => s.len

def bytes (s : Ata) : Area → Mem
  | .temp => s.temp
  | .buffer => s.buffer

def put (s : Ata) (m : Mem) : Area → Ata
  | .temp => { s with temp := m }
  | .buffer => { s with buffer := m }

variable (s : Ata)

variable (m : Mem)

@[simp] theorem put_devices (area : Area) : (s.put m area).devices = s.devices := by
  cases area <;> rfl

@[simp] theorem put_disk (area : Area) : (s.put m area).disk = s.disk := by
  cases area <;> rfl

@[simp] theorem put_len (area : Area) : (s.put m area).len = s.len := by
  cases area <;> rfl

def load (area : Area) (pos n : Nat) : Cmd Ata Stop (List UInt8) := do
  let s ← Cmd.get
  if pos + n ≤ s.room area then pure (slice (s.bytes area) pos n) else Cmd.fail .outside

def save (area : Area) (pos : Nat) (data : List UInt8) : Cmd Ata Stop Unit := do
  let s ← Cmd.get
  if pos + data.length ≤ s.room area then
    Cmd.modify fun s => s.put (store (s.bytes area) pos data) area
  else Cmd.fail .outside

/-- The test at the start of `ata_read_sectors` and `ata_write_sectors`. -/
def accepts (s : Ata) (drive nsects lba : Nat) : Bool :=
  drive ≤ 3 && (s.devices drive).reserved && add32 lba nsects ≤ (s.devices drive).size.toNat

@[simp] theorem put_accepts (area : Area) : (s.put m area).accepts = s.accepts := by
  cases area <;> rfl

/-- `ata_read_sectors` into one of the buffers. -/
def ataReadSectors (drive nsects lba : Nat) (area : Area) (pos : Nat) : Cmd Ata Stop Unit := do
  let s ← Cmd.get
  if s.accepts drive nsects lba then
    match (s.devices drive).type with
    | .ata => save area pos (slice (s.disk drive) (lba * ATA_SECTSIZE) (nsects * ATA_SECTSIZE))
    | .atapi =>
      (List.range nsects).forM fun i => save area (pos + i * ATAPI_SECTSIZE)
        (slice (s.disk drive) (add32 lba i * ATAPI_SECTSIZE) ATAPI_SECTSIZE)
  else Cmd.fail (.errno .EINVAL)

/-- `ata_write_sectors` from one of the buffers. -/
def ataWriteSectors (drive nsects lba : Nat) (area : Area) (pos : Nat) : Cmd Ata Stop Unit := do
  let s ← Cmd.get
  if s.accepts drive nsects lba then
    match (s.devices drive).type with
    | .ata =>
      let data ← load area pos (nsects * ATA_SECTSIZE)
      Cmd.modify fun s => { s with
        disk := Function.update s.disk drive (store (s.disk drive) (lba * ATA_SECTSIZE) data) }
    | .atapi => Cmd.fail (.errno .EINVAL)
  else Cmd.fail (.errno .EINVAL)

/-- Read `n` bytes of one sector, from its byte `skip` on, through `ata_temp_buffer`. -/
def readThrough (drive lba skip pos n : Nat) : Cmd Ata Stop Unit := do
  ataReadSectors drive 1 lba .temp 0
  let data ← load .temp skip n
  save .buffer pos data

/-- Write `n` bytes of one sector, from its byte `skip` on, through `ata_temp_buffer`. -/
def writeThrough (drive lba skip pos n : Nat) : Cmd Ata Stop Unit := do
  ataReadSectors drive 1 lba .temp 0
  let data ← load .buffer pos n
  save .temp skip data
  ataWriteSectors drive 1 lba .temp 0

/-- How the bytes `[offset, offset + len)` lie on sectors. -/
structure Span where
  startLba : Nat
  midLba : Nat
  endLba : Nat
  sectors : Nat
  startDiff : Nat
  endDiff : Nat

/-- `offset / ATA_SECTSIZE` of an `off_t`, rounded towards 0. -/
def sectorOf (offset : Nat) : Nat :=
  if offset < 2147483648 then offset / ATA_SECTSIZE
  else sub32 0 ((4294967296 - offset) / ATA_SECTSIZE)

/-- The numbers that `ata_device_read` and `ata_device_write` compute first, as words of 32 bits.
`offset` is an `off_t`, which is signed; if it is negative, it is a multiple of the sector size. -/
def span (len offset : Nat) : Span :=
  let startLba := sectorOf offset
  let midLba := add32 startLba (if offset % ATA_SECTSIZE ≠ 0 then 1 else 0)
  let endLba := add32 offset len / ATA_SECTSIZE
  { startLba, midLba, endLba
    sectors := sub32 endLba midLba
    startDiff := sub32 (midLba * ATA_SECTSIZE) offset
    endDiff := sub32 (add32 offset len) (endLba * ATA_SECTSIZE) }

/-- `mid_lba > end_lba`, which are signed; `end_lba` is never negative. -/
def Span.single (p : Span) : Bool := p.midLba < 2147483648 && p.endLba < p.midLba

def partOffset (dev : SpecDevice) : Nat := if dev.minor ≠ 0 then dev.data else 0

/-- `sd_major - 1` as an `unsigned char`. -/
def driveOf (dev : SpecDevice) : Nat := (dev.major + 255) % 256

/-- The common form of `ata_device_read` and `ata_device_write`: one sector through
`ata_temp_buffer`, or whole sectors and then the bytes in front of and behind them. The number
of whole sectors is passed as an `unsigned char`. -/
def deviceTransfer (whole : (drive nsects lba pos : Nat) → Cmd Ata Stop Unit)
    (through : (drive lba skip pos n : Nat) → Cmd Ata Stop Unit)
    (dev : SpecDevice) (null : Bool) (len offset : Nat) : Cmd Ata Stop Unit :=
  if null then Cmd.fail (.errno .EINVAL)
  else if len = 0 then pure ()
  else
    let p := span len offset
    if p.single then
      through (driveOf dev) (add32 p.startLba (partOffset dev)) (ATA_SECTSIZE - p.startDiff) 0 len
    else do
      Cmd.when (0 < p.sectors)
        (whole (driveOf dev) (p.sectors % 256) (add32 p.midLba (partOffset dev)) p.startDiff)
      Cmd.when (p.startDiff ≠ 0)
        (through (driveOf dev) (add32 p.startLba (partOffset dev)) (ATA_SECTSIZE - p.startDiff) 0
          p.startDiff)
      Cmd.when (p.endDiff ≠ 0)
        (through (driveOf dev) (add32 p.endLba (partOffset dev)) 0
          (p.startDiff + p.sectors * ATA_SECTSIZE) p.endDiff)

def ataDeviceRead : SpecDevice → Bool → Nat → Nat → Cmd Ata Stop Unit :=
  deviceTransfer (fun drive nsects lba pos => ataReadSectors drive nsects lba .buffer pos)
    readThrough

def ataDeviceWrite : SpecDevice → Bool → Nat → Nat → Cmd Ata Stop Unit :=
  deviceTransfer (fun drive nsects lba pos => ataWriteSectors drive nsects lba .buffer pos)
    writeThrough

/-! ## Registration -/

/-- A device that is registered, and the sectors of a drive that it stands for. -/
structure BlockDevice where
  dev : SpecDevice
  drive : Nat
  first : Nat
  sectors : Nat
  deriving DecidableEq, Repr

/-- Where the entry `i` of the partition table starts. -/
def mbrEntry (i : Nat) : Nat := 0x1be + i * 16

/-- `device_disk_init`. The first 512 bytes of the disk are in `mbr_buffer`; what a longer
sector of an ATAPI drive overwrites behind it is left out. -/
def deviceDiskInit (s : Ata) (drive : Nat) : List BlockDevice :=
  if (s.devices drive).size = 0 then []
  else (List.range 4).filterMap fun i =>
    let mbr := s.disk drive
    if mbr (mbrEntry i + 4) = 0 then none
    else
      let lba := mbr.word (mbrEntry i + 8)
      some { dev := ⟨drive + 1, i + 1, lba⟩, drive, first := lba,
             sectors := mbr.word (mbrEntry i + 12) }

/-- The devices that `devices_init` registers for drives; at most 23 of the 64 entries of
`device_table` are taken. -/
def devicesInit (s : Ata) : List BlockDevice :=
  (List.range 4).flatMap fun i =>
    if (s.devices i).reserved then
      { dev := ⟨i + 2, 0, 0⟩, drive := i, first := 0, sectors := (s.devices i).size.toNat } ::
        s.deviceDiskInit i
    else []

/-! ## A device as an array of bytes -/

/-- The byte of the disk with which a range of the device starts. -/
def BlockDevice.origin (d : BlockDevice) (offset : Nat) : Nat := d.first * ATA_SECTSIZE + offset

/-- The bytes `[offset, offset + len)` lie within the device and its drive. -/
def BlockDevice.Within (d : BlockDevice) (s : Ata) (offset len : Nat) : Prop :=
  offset + len ≤ d.sectors * ATA_SECTSIZE ∧
    d.origin offset + len ≤ (s.devices d.drive).size.toNat * ATA_SECTSIZE

/-- Whatever the buffer holds, the command fills it with the bytes of the device. -/
def ReadsBy (s : Ata) (d : BlockDevice) (offset len : Nat) (c : Cmd Ata Stop Unit) : Prop :=
  ∀ buffer, ∃ t, c { s with buffer, len } = (.ok (), t) ∧
    slice t.buffer 0 len = slice (s.disk d.drive) (d.origin offset) len ∧ t.disk = s.disk

/-- Whatever the data, the command changes the bytes of the device to it, and no others. -/
def WritesBy (s : Ata) (d : BlockDevice) (offset len : Nat) (c : Cmd Ata Stop Unit) : Prop :=
  ∀ buffer, ∃ t, c { s with buffer, len } = (.ok (), t) ∧
    t.disk = Function.update s.disk d.drive
      (store (s.disk d.drive) (d.origin offset) (slice buffer 0 len))

/-- A read gives the bytes of the device. -/
def Reads (s : Ata) (d : BlockDevice) (offset len : Nat) : Prop :=
  s.ReadsBy d offset len (ataDeviceRead d.dev false len offset)

/-- A write changes the bytes of the device, and no others. -/
def Writes (s : Ata) (d : BlockDevice) (offset len : Nat) : Prop :=
  s.WritesBy d offset len (ataDeviceWrite d.dev false len offset)

/-- A read after a write gives what was written. -/
def ReadsBack (s : Ata) (d : BlockDevice) (offset len : Nat) : Prop :=
  ∀ buffer buffer', ∃ t u,
    ataDeviceWrite d.dev false len offset { s with buffer, len } = (.ok (), t) ∧
    ataDeviceRead d.dev false len offset { t with buffer := buffer' } = (.ok (), u) ∧
    slice u.buffer 0 len = slice buffer 0 len

end Ata

end Os0
