import Os0.Drivers.AtaBytes
import Os0.Fs.Ext2.Mount

/-! The bytes of a device that `ext2_read_blocks` and `ext2_write_blocks` (`fs/ext2/util.c`)
access: the number of the block becomes an offset, an `off_t` of 32 bits, which the device routine
turns into sectors. -/
namespace Os0

open Bytes Slice Cmd Ata

namespace Ata

variable {s : Ata} {len offset : Nat} {dev : SpecDevice} {drive first : Nat}

/-! ## Transfers of whole sectors -/

/-- The offset and the length of a transfer of whole sectors, as words. -/
structure WholeSectors (len offset : Nat) : Prop where
  offsetWord : offset < 4294967296
  lenWord : len < 4294967296
  start : offset % 512 = 0
  size : len % 512 = 0
  some : 0 < len

/-- The sector of an offset that is a multiple of 512: a negative one counts back from 0. -/
theorem sectorOf_eq (word : offset < 4294967296) (aligned : offset % 512 = 0) :
    sectorOf offset = offset / 512 + if offset < 2147483648 then 0 else 4286578688 := by
  unfold sectorOf sub32
  rw [sectsize]
  split
  · omega
  · omega

theorem span_endLba : (span len offset).endLba = (offset + len) % 4294967296 / 512 := by
  simp only [span, sectsize, add32]

theorem spares_empty {devices : Nat → IDEDevice} {d x : Nat} :
    Spares devices d x (ataDeviceWrite dev false 0 offset) := by
  unfold ataDeviceWrite deviceTransfer
  exact spares_pure

section

variable (h : WholeSectors len offset)
include h

theorem WholeSectors.midLba : (span len offset).midLba = sectorOf offset := by
  have start := h.start
  have sector := sectorOf_eq h.offsetWord h.start
  have word := h.offsetWord
  simp only [span, sectsize]
  rw [if_neg (by omega)]
  unfold add32
  split at sector
  · omega
  · omega

theorem WholeSectors.startDiff : (span len offset).startDiff = 0 := by
  have eq : (span len offset).startDiff = sub32 ((span len offset).midLba * ATA_SECTSIZE) offset :=
    rfl
  have start := h.start
  have word := h.offsetWord
  rw [eq, h.midLba, mul_sectsize, sectorOf_eq h.offsetWord h.start]
  unfold sub32
  split
  · omega
  · omega

theorem WholeSectors.endDiff : (span len offset).endDiff = 0 := by
  have eq : (span len offset).endDiff =
    sub32 (add32 offset len) ((span len offset).endLba * ATA_SECTSIZE) := rfl
  have start := h.start
  have size := h.size
  rw [eq, span_endLba, mul_sectsize]
  unfold sub32 add32
  omega

/-- The number of sectors is right up to what is lost of it as an `unsigned char`. -/
theorem WholeSectors.sectors :
    (span len offset).sectors % 256 = len / 512 % 256 ∧ 0 < (span len offset).sectors := by
  have eq : (span len offset).sectors = sub32 (span len offset).endLba (span len offset).midLba :=
    rfl
  have sector := sectorOf_eq h.offsetWord h.start
  rw [eq, h.midLba, span_endLba]
  obtain ⟨_, _, _, _, _⟩ := h
  unfold sub32
  split at sector
  · omega
  · omega

/-- A byte outside of the 255 sectors from the first one on is left alone. -/
theorem WholeSectors.spares {devices : Nat → IDEDevice} {d x : Nat}
    (apart : Apart devices d x (driveOf dev) (add32 (sectorOf offset) (partOffset dev)) 255) :
    Spares devices d x (ataDeviceWrite dev false len offset) := by
  have fewer {k : Nat} (few : k ≤ 255) :
      Apart devices d x (driveOf dev) (add32 (sectorOf offset) (partOffset dev)) k := by
    unfold Apart at apart ⊢
    rw [mul_sectsize, mul_sectsize] at apart ⊢
    exact apart.imp_right (.imp_right (.imp_right fun behind => by omega))
  refine spares_deviceWrite (fun _ => fewer (by decide)) fun _ => ⟨?_, ?_, ?_⟩
  · rw [h.midLba]
    exact fewer (by omega)
  · intro some
    exact absurd h.startDiff some
  · intro some
    exact absurd h.endDiff some

/-- Fewer than 256 sectors are moved from or to the sector of the offset. -/
theorem WholeSectors.transfer {R : Nat → Nat → Ata → Ata → Prop} {start : Nat}
    {whole : (drive nsects lba pos : Nat) → Cmd Ata Stop Unit}
    {through : (drive lba skip pos n : Nat) → Cmd Ata Stop Unit}
    (m : Moved dev drive first (512 * first + start) R whole through)
    (serves : Serves s dev drive first) (room : s.len = len) (place : 512 * sectorOf offset = start)
    (inside : 512 * first + start + len ≤ 512 * (s.devices drive).size.toNat)
    (few : len < 131072) :
    Cmd.Ends (deviceTransfer whole through dev false len offset) s (fun _ t => R 0 len s t)
      fun _ _ => False := by
  have some := h.some
  have size := h.size
  obtain ⟨count, any⟩ := h.sectors
  have several : (span len offset).single = false := by
    have sector := sectorOf_eq h.offsetWord h.start
    have word := h.offsetWord
    simp only [Span.single, h.midLba, span_endLba, Bool.and_eq_false_iff, decide_eq_false_iff_not]
    split at sector
    · omega
    · omega
  unfold deviceTransfer
  rw [if_neg Bool.false_ne_true, if_neg some.ne', serves.target, serves.base]
  dsimp only
  rw [several, h.midLba, h.startDiff, h.endDiff, count, Nat.mod_eq_of_lt (by omega)]
  simp only [Bool.false_eq_true, if_false]
  have moved : Cmd.Ends (whole drive (len / 512) (add32 (sectorOf offset) first) 0) s
      (fun _ t => R 0 (0 + 512 * (len / 512)) s t) fun _ _ => False :=
    m.whole serves (by omega) (by omega) (by omega)
  rw [show 0 + 512 * (len / 512) = len by omega] at moved
  refine ends_bind (ends_when (fun _ => moved.imp fun _ t done => ?_) fun none => absurd any none)
  exact ends_bind (ends_when (fun odd => absurd rfl odd) fun _ =>
    ends_when (fun odd => absurd rfl odd) fun _ => done)

end

end Ata

/-! ## Blocks -/

section

variable (dev : SpecDevice) (blksize block nblocks : Nat)

/-- The `off_t` that becomes of a block number; the number is a `uint32_t`. -/
def blockOffset : Nat := block % 4294967296 * blksize % 4294967296

def ext2ReadBlocks : Cmd Ata Stop Unit :=
  ataDeviceRead dev false (nblocks * blksize % 4294967296) (blockOffset blksize block)

def ext2WriteBlocks : Cmd Ata Stop Unit :=
  ataDeviceWrite dev false (nblocks * blksize % 4294967296) (blockOffset blksize block)

end

section

variable {s : Ata} {d : BlockDevice} {blksize block n : Nat}

/-- The blocks of a device are read and written at their place and nowhere else. -/
structure BlocksExact (s : Ata) (d : BlockDevice) (blksize block n : Nat) : Prop where
  reads : s.ReadsBy d (block * blksize) (n * blksize) (ext2ReadBlocks d.dev blksize block n)
  writes : s.WritesBy d (block * blksize) (n * blksize) (ext2WriteBlocks d.dev blksize block n)

theorem blockOffset_eq : blockOffset blksize block = block * blksize % 4294967296 := by
  unfold blockOffset
  rw [Nat.mul_mod, Nat.mod_mod, ← Nat.mul_mod]

/-- Blocks on a device lie where their offset says, modulo the size of a word, if they begin in the
first 2 GiB or in the last 2 GiB of the 2 TiB that sector numbers reach. -/
theorem sectorOf_blockOffset (size : blksize % 512 = 0) (within : block * blksize < 2199023255552) :
    512 * sectorOf (blockOffset blksize block) = block * blksize ↔
      block * blksize < 2147483648 ∨ 2196875771904 ≤ block * blksize := by
  have aligned : block * blksize % 512 = 0 := by
    rw [Nat.mul_mod, size, Nat.mul_zero, Nat.zero_mod]
  rw [blockOffset_eq, sectorOf_eq (Nat.mod_lt _ (by decide)) (by omega)]
  split
  · omega
  · omega

theorem wholeSectors_blocks (size : blksize % 512 = 0) (some : n * blksize % 4294967296 ≠ 0) :
    WholeSectors (n * blksize % 4294967296) (blockOffset blksize block) := by
  have aligned (k : Nat) : k * blksize % 512 = 0 := by
    rw [Nat.mul_mod, size, Nat.mul_zero, Nat.zero_mod]
  have start := aligned block
  have length := aligned n
  rw [blockOffset_eq]
  exact ⟨Nat.mod_lt _ (by decide), Nat.mod_lt _ (by decide), by omega, by omega, by omega⟩

/-- Blocks that are written at their place lie in a partition of an ATA drive, they are not more
than what one transfer moves, and their offset has the right sector. -/
theorem BlocksExact.condition (h : BlocksExact s d blksize block n) (mem : d ∈ s.devicesInit)
    (size : blksize % 512 = 0) (within : d.Within s (block * blksize) (n * blksize))
    (some : 0 < n * blksize) :
    d.dev.minor ≠ 0 ∧ (s.devices d.drive).type = .ata ∧ n * blksize < 131072 ∧
      512 * sectorOf (blockOffset blksize block) = block * blksize := by
  have reached {i : Nat} (lt : i < n * blksize) := h.writes.not_spares lt
  obtain ⟨part, ata⟩ := partition_of_not_spares mem (reached some)
  obtain ⟨target, base, -⟩ := serves mem part ata
  obtain ⟨-, inside⟩ := within
  rw [BlockDevice.origin, mul_sectsize, mul_sectsize] at inside
  have word := (s.devices d.drive).size.toNat_lt
  have any : n * blksize % 4294967296 ≠ 0 := by
    intro none
    refine reached some ?_
    rw [ext2WriteBlocks, none]
    exact spares_empty
  have whole := @wholeSectors_blocks blksize block n size any
  have sector := sectorOf_eq whole.offsetWord whole.start
  have place : 512 * sectorOf (blockOffset blksize block) = block * blksize := by
    by_contra wrong
    refine reached some (whole.spares (.inr (.inr ?_)))
    rw [base, BlockDevice.origin, mul_sectsize, mul_sectsize, mul_sectsize]
    have offset := @blockOffset_eq blksize block
    have start := whole.start
    unfold add32
    split at sector
    · omega
    · omega
  refine ⟨part, ata, ?_, place⟩
  by_contra many
  refine @reached (255 * 512) (by omega) (whole.spares (.inr (.inr (.inr ?_))))
  rw [base, add32_eq (by omega), BlockDevice.origin, mul_sectsize, mul_sectsize]
  omega

/-- What `ext2_read_blocks` and `ext2_write_blocks` access are exactly the bytes of the blocks, if
and only if there are none, or the device is a partition of an ATA drive, the blocks are fewer than
256 sectors, and they begin in the first 2 GiB of the device or from 2 TiB - 2 GiB on. -/
theorem ext2_blocks_exact_iff (mem : d ∈ s.devicesInit) (size : blksize % 512 = 0)
    (some : 0 < blksize) (within : d.Within s (block * blksize) (n * blksize)) :
    BlocksExact s d blksize block n ↔ n = 0 ∨ d.dev.minor ≠ 0 ∧
      (s.devices d.drive).type = .ata ∧ n * blksize < 131072 ∧
      (block * blksize < 2147483648 ∨ 2196875771904 ≤ block * blksize) := by
  have inside := within.2
  rw [BlockDevice.origin, mul_sectsize, mul_sectsize] at inside
  have word := (s.devices d.drive).size.toNat_lt
  rcases Nat.eq_zero_or_pos n with rfl | positive
  · refine iff_of_true ⟨?_, ?_⟩ (.inl rfl)
    · rw [ext2ReadBlocks, Nat.zero_mul]
      exact readsBy_empty
    · rw [ext2WriteBlocks, Nat.zero_mul]
      exact writesBy_empty
  have any : 0 < n * blksize := Nat.mul_pos positive some
  rw [or_iff_right positive.ne', ← sectorOf_blockOffset size (by omega)]
  constructor
  · exact fun exact => exact.condition mem size within any
  · rintro ⟨part, ata, few, place⟩
    have length : n * blksize % 4294967296 = n * blksize := Nat.mod_eq_of_lt (by omega)
    have whole := @wholeSectors_blocks blksize block n size (by omega)
    have h := serves mem part ata
    constructor
    · rw [ext2ReadBlocks, length]
      rw [length] at whole
      exact readsBy fun buffer => whole.transfer moved_read
        (h.congr (t := { s with buffer, len := n * blksize }) rfl) rfl place inside few
    · rw [ext2WriteBlocks, length]
      rw [length] at whole
      intro buffer
      obtain ⟨t, run, disk, -⟩ := writesBy (fun buffer => whole.transfer moved_write
        (h.congr (t := { s with buffer, len := n * blksize }) rfl) rfl place inside few) buffer
      exact ⟨t, run, disk⟩

end

/-- Two blocks of the partition `sda1`. -/
theorem ext2_blocks_exact_sda1 : BlocksExact twoDrives ⟨⟨1, 1, 1⟩, 0, 1, 10⟩ 1024 1 2 := by
  refine (ext2_blocks_exact_iff ?_ ?_ ?_ ?_).2 (.inr ⟨?_, ?_, ?_, .inl ?_⟩)
  · decide +kernel
  · decide
  · decide
  · rw [BlockDevice.Within, BlockDevice.origin, sectsize]
    decide
  · decide
  · rfl
  · decide
  · decide

/-- A drive with a partition of 4 GiB from sector 1 on. -/
def bigDrive : Ata where
  devices i := ⟨i < 1, .ata, 10000000⟩
  disk _ x := if x = 0x1c2 then 0x83 else if x = 0x1c6 then 1 else if x = 0x1cc then 0x80 else 0
  temp _ := 0
  buffer _ := 0
  len := 0

open Ext2Superblock in
/-- Block 2097152 of a file system of 4 GiB: its offset becomes negative. -/
theorem ext2_blocks_negative :
    fourGiB.ext2Openfs true false = .ok 512 ∧ 2097152 < fourGiB.count ∧
      fourGiB.EXT2_BLOCK_SIZE = 1024 ∧ ⟨⟨1, 1, 1⟩, 0, 1, 8388608⟩ ∈ bigDrive.devicesInit ∧
      BlockDevice.Within ⟨⟨1, 1, 1⟩, 0, 1, 8388608⟩ bigDrive (2097152 * 1024) (1 * 1024) ∧
      ¬BlocksExact bigDrive ⟨⟨1, 1, 1⟩, 0, 1, 8388608⟩ 1024 2097152 1 := by
  have mem : ⟨⟨1, 1, 1⟩, 0, 1, 8388608⟩ ∈ bigDrive.devicesInit := by decide +kernel
  have within :
      BlockDevice.Within ⟨⟨1, 1, 1⟩, 0, 1, 8388608⟩ bigDrive (2097152 * 1024) (1 * 1024) := by
    rw [BlockDevice.Within, BlockDevice.origin, sectsize]
    decide
  refine ⟨by decide +kernel, by decide +kernel, by decide, mem, within, fun exact => ?_⟩
  have place := (exact.condition mem (by decide) within (by decide)).2.2.2
  rw [sectorOf_blockOffset (by decide) (by decide)] at place
  omega

end Os0
