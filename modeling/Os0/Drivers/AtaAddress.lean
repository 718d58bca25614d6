import Mathlib.Data.Nat.Bitwise
import Os0.Lib.Bytes

/-! How `ata_access` (`drivers/ata.c`) tells a drive the sector at which a transfer starts. -/
namespace Os0.Ata

open Bytes

inductive LbaMode
  | chs
  | lba28
  | lba48
  deriving DecidableEq, Repr

/-- The addressing mode, `lba_io` as it is written to `ATA_REG_LBA0` to `ATA_REG_LBA5` (the last
three for LBA48 only), and `head`. -/
structure Address where
  mode : LbaMode
  lbaIo : Nat × Nat × Nat × Nat × Nat × Nat
  head : Nat
  deriving DecidableEq, Repr

/-- The parameters that `ata_access` sets; `cap` is `id_cap` of the drive. -/
def address (cap lba : Nat) : Address :=
  if 0x10000000 ≤ lba then
    { mode := .lba48
      lbaIo := (lba &&& 0x000000ff, (lba &&& 0x0000ff00) >>> 8, (lba &&& 0x00ff0000) >>> 16,
        (lba &&& 0xff000000) >>> 24, 0, 0)
      head := 0 }
  else if cap &&& 0x200 ≠ 0 then
    { mode := .lba28
      lbaIo := (lba &&& 0x00000ff, (lba &&& 0x000ff00) >>> 8, (lba &&& 0x0ff0000) >>> 16, 0, 0, 0)
      head := (lba &&& 0xf000000) >>> 24 }
  else
    let sect := (lba % 63 + 1) % 256
    let cyl := add32 (sub32 lba sect) 1 / 1008 % 65536
    { mode := .chs
      lbaIo := (sect, cyl &&& 0xff, (cyl >>> 8) &&& 0xff, 0, 0, 0)
      head := add32 (sub32 lba sect) 1 % 1008 / 63 % 256 }

/-- The byte written to `ATA_REG_HDDEVSEL`. -/
def Address.devsel (a : Address) (slavebit : Nat) : Nat :=
  ((if a.mode = .chs then 0xa0 else 0xe0) ||| slavebit <<< 4 ||| a.head) % 256

/-- The sector that a drive reads from its registers. -/
def decode : LbaMode → (devsel : Nat) → Nat × Nat × Nat × Nat × Nat × Nat → Nat
  | .chs, devsel, (sect, low, high, _) => ((low + high * 256) * 16 + devsel % 16) * 63 + sect - 1
  | .lba28, devsel, (a, b, c, _) => a + b * 256 + c * 65536 + devsel % 16 * 16777216
  | .lba48, _, (a, b, c, d, e, f) =>
    a + b * 256 + c * 65536 + d * 16777216 + e * 4294967296 + f * 1099511627776

theorem masked (n k w : Nat) : (n &&& (2 ^ w - 1) <<< k) >>> k = n / 2 ^ k % 2 ^ w := by
  rw [Nat.shiftRight_and_distrib, Nat.shiftLeft_shiftRight, Nat.and_two_pow_sub_one_eq_mod,
    Nat.shiftRight_eq_div_pow]

theorem Address.devsel_mod (a : Address) (slavebit : Nat) (low : a.head < 16) :
    a.devsel slavebit % 16 = a.head := by
  have parts (x : Nat) : (x ||| slavebit <<< 4 ||| a.head) % 2 ^ 4 = x % 2 ^ 4 ||| a.head := by
    rw [Nat.or_mod_two_pow, Nat.or_mod_two_pow, Nat.shiftLeft_eq, Nat.mul_mod_left, Nat.or_zero,
      Nat.mod_eq_of_lt low]
  rw [devsel, Nat.mod_mod_of_dvd _ (by decide)]
  refine (parts _).trans ?_
  split <;> exact Nat.zero_or _

/-- A drive that is told `a` takes it for sector `n`, and sector and head are in range for CHS. -/
def Address.Names (a : Address) (slavebit n : Nat) : Prop :=
  decode a.mode (a.devsel slavebit) a.lbaIo = n ∧
    (a.mode = .chs → 1 ≤ a.lbaIo.1 ∧ a.lbaIo.1 ≤ 63 ∧ a.head < 16)

theorem address_names (cap slavebit : Nat) (lba : UInt32)
    (small : (address cap lba.toNat).mode = .chs → lba.toNat < 66060288) :
    (address cap lba.toNat).Names slavebit lba.toNat := by
  have word := lba.toNat_lt
  generalize lba.toNat = n at *
  have low (m : Nat) : m &&& 0xff = m % 256 := Nat.and_two_pow_sub_one_eq_mod m 8
  have second : (n &&& 0xff00) >>> 8 = n / 256 % 256 := masked n 8 8
  have third : (n &&& 0xff0000) >>> 16 = n / 65536 % 256 := masked n 16 8
  unfold address Address.Names at *
  split_ifs at small ⊢
  · have fourth : (n &&& 0xff000000) >>> 24 = n / 16777216 % 256 := masked n 24 8
    refine ⟨?_, nofun⟩
    simp only [decode, low, second, third, fourth]
    omega
  · have fourth : (n &&& 0xf000000) >>> 24 = n / 16777216 % 16 := masked n 24 4
    refine ⟨?_, nofun⟩
    simp only [decode, low, second, third, fourth]
    rw [Address.devsel_mod _ _ (Nat.mod_lt _ (by decide))]
    dsimp only
    omega
  · have bound := small rfl
    -- the first sector of the track
    have track : add32 (sub32 n ((n % 63 + 1) % 256)) 1 = n / 63 * 63 := by
      unfold add32 sub32
      omega
    have head : n / 63 * 63 % 1008 / 63 % 256 = n / 63 % 16 := by
      rw [Nat.mul_mod_mul_right _ _ 16, Nat.mul_div_cancel _ (by decide)]
      omega
    simp only [track, low, head, Nat.mul_div_mul_right _ 16 (show 0 < 63 by decide)]
    refine ⟨?_, fun _ => ⟨by omega, by omega, by omega⟩⟩
    simp only [decode, Nat.shiftRight_eq_div_pow]
    rw [Address.devsel_mod _ _ (Nat.mod_lt _ (by decide))]
    dsimp only
    omega

/-- The last sector that CHS can name. -/
theorem address_names_last : (address 0 66060287).Names 1 66060287 :=
  address_names 0 1 66060287 fun _ => by decide

end Os0.Ata
