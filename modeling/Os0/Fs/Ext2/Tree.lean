import Os0.Fs.Ext2.Bmap
import Os0.Lib.PtrTree

/-! The blocks of one inode as a tree of pointer blocks on the device, what it takes for
that tree to be sound, and what reading, writing and allocating one block do to it. -/
namespace Os0

open Bytes Function

/-- A block size from 1024 to 65536, and no more blocks than 32-bit device offsets reach. -/
structure Geometry.Sound (g : Geometry) : Prop where
  log : g.logBlockSize ≤ 6
  small : g.blocksCount * g.blksize ≤ 4294967296

namespace Geometry

variable {g : Geometry}

section

variable (g : Geometry)

theorem blksize_eq : g.blksize = 2 ^ g.logBlockSize * 1024 := by
  rw [blksize, blockSizeBits, Nat.shiftLeft_eq, Nat.pow_add, Nat.one_mul]

theorem addrPerBlock_eq : g.addrPerBlock = 2 ^ g.logBlockSize * 256 := by
  rw [addrPerBlock, blksize_eq, Nat.shiftRight_eq_div_pow]
  omega

theorem blksize_eq_four : g.blksize = 4 * g.addrPerBlock := by
  rw [blksize_eq, addrPerBlock_eq]
  omega

theorem addrPerBlock_ge : 256 ≤ g.addrPerBlock := by
  have := Nat.one_le_two_pow (n := g.logBlockSize)
  rw [addrPerBlock_eq]
  omega

theorem addrPerBlock_pos : 0 < g.addrPerBlock :=
  lt_of_lt_of_le (by decide) g.addrPerBlock_ge

end

theorem blksize_ge (g : Geometry) : 1024 ≤ g.blksize := by
  have := g.addrPerBlock_ge
  rw [blksize_eq_four]
  omega

theorem offsetOf_eq (h : g.Sound) {b : Nat} (hb : b < g.blocksCount) :
    g.offsetOf b = b * g.blksize := by
  have pos := g.blksize_ge
  have below : b * g.blksize < g.blocksCount * g.blksize :=
    Nat.mul_lt_mul_of_pos_right hb (by omega)
  exact Nat.mod_eq_of_lt (below.trans_le h.small)

end Geometry

variable {b n start : Nat} {t u : Ext2Filesystem} {m : Bitmap32} {g : Geometry}

/-- Two positions in different blocks of `n` bytes are apart. -/
theorem block_apart {c i : Nat} (ne : c ≠ b) (hi : i < n) :
    c * n + i < b * n ∨ b * n + n ≤ c * n + i := by
  rcases Nat.lt_or_gt_of_ne ne with lt | gt
  · have := Nat.mul_le_mul_right n (Nat.succ_le_of_lt lt)
    rw [Nat.succ_mul] at this
    omega
  · have := Nat.mul_le_mul_right n (Nat.succ_le_of_lt gt)
    rw [Nat.succ_mul] at this
    omega

/-! ## The device by blocks -/

namespace Ext2Filesystem

/-- Byte `i` of block `b`. -/
def byte (fs : Ext2Filesystem) (b : Nat) : Mem := fun i => fs.dev (b * fs.geo.blksize + i)

/-- Pointer `i` of block `b`. -/
def entry (fs : Ext2Filesystem) (b i : Nat) : Nat := fs.dev.word (b * fs.geo.blksize + 4 * i)

/-- The file system after block `b` was overwritten. -/
def store (fs : Ext2Filesystem) (b : Nat) (buffer : Mem) : Ext2Filesystem :=
  { fs with dev := storeBytes fs.dev (b * fs.geo.blksize) fs.geo.blksize buffer }

/-- Block `b` is in the range of the bitmap and marked in use. -/
def Taken (fs : Ext2Filesystem) (b : Nat) : Prop :=
  fs.blockBitmap.start ≤ b ∧ b ≤ fs.blockBitmap.fin ∧ fs.blockBitmap.bit b = true

variable {fs : Ext2Filesystem} {b c i : Nat} {buffer : Mem}

theorem byte_store (hi : i < fs.geo.blksize) :
    (fs.store b buffer).byte c i = if c = b then buffer i else fs.byte c i := by
  unfold byte store storeBytes
  by_cases same : c = b
  · subst same
    simp only [if_true]
    rw [if_pos (by omega), Nat.add_sub_cancel_left]
  · simp only [if_neg same]
    rw [if_neg]
    have := block_apart same hi
    omega

theorem entry_store (hi : i < fs.geo.addrPerBlock) :
    (fs.store b buffer).entry c i = if c = b then blockPtr buffer i else fs.entry c i := by
  have four := fs.geo.blksize_eq_four
  have here : ∀ k, k < 4 → (fs.store b buffer).dev (c * fs.geo.blksize + 4 * i + k) =
      if c = b then buffer (4 * i + k) else fs.dev (c * fs.geo.blksize + 4 * i + k) := by
    intro k _
    rw [Nat.add_assoc]
    exact byte_store (by omega)
  unfold entry blockPtr Mem.word
  rw [show (fs.store b buffer).geo = fs.geo from rfl]
  have h0 := here 0 (by omega)
  simp only [Nat.add_zero] at h0
  rw [h0, here 1 (by omega), here 2 (by omega), here 3 (by omega)]
  split <;> rfl

end Ext2Filesystem

/-! ## Single commands -/

open Cmd

/-- The two file systems differ in the count of operations only. -/
def Idle (fs t : Ext2Filesystem) : Prop := ∃ n, t = { fs with ops := n }

theorem deviceOp_ends (fs : Ext2Filesystem) :
    Ends deviceOp fs (fun _ t => Idle fs t) (fun e _ => e.Outside) := by
  unfold Ends deviceOp
  cases fs.fault fs.ops with
  | none => exact ⟨_, rfl⟩
  | some e => trivial

variable {fs : Ext2Filesystem}

theorem ext2ReadBlock_ends (sound : fs.geo.Sound) (hb : b < fs.geo.blocksCount) :
    Ends (ext2ReadBlock b) fs (fun buffer t => Idle fs t ∧ buffer = fs.byte b)
      (fun e _ => e.Outside) := by
  apply ends_bind
  apply (deviceOp_ends fs).imp
  rintro _ t ⟨n, rfl⟩
  refine ⟨⟨n, rfl⟩, ?_⟩
  funext i
  exact congrArg (fun a => fs.dev (a + i)) (Geometry.offsetOf_eq sound hb)

theorem ext2WriteBlock_ends (sound : fs.geo.Sound) (hb : b < fs.geo.blocksCount) (buffer : Mem) :
    Ends (ext2WriteBlock buffer b) fs (fun _ t => Idle (fs.store b buffer) t)
      (fun e _ => e.Outside) := by
  apply ends_bind
  apply (deviceOp_ends fs).imp
  rintro _ t ⟨n, rfl⟩
  refine ⟨n, ?_⟩
  show ({ fs with ops := n, dev := _ } : Ext2Filesystem) = _
  rw [Geometry.offsetOf_eq sound hb]
  rfl

theorem firstClear_some {bit : Nat → Bool}
    (h : firstClear bit n start = some b) : start ≤ b ∧ b < start + n ∧ bit b = false := by
  induction n generalizing start with
  | zero => cases h
  | succ n ih =>
    unfold firstClear at h
    split at h
    · obtain ⟨_, _, clear⟩ := ih h
      exact ⟨by omega, by omega, clear⟩
    · rename_i clear
      cases h
      exact ⟨by omega, by omega, by simpa using clear⟩

theorem ext2FindFirstZeroBitmap_ok {fin : Nat} (h : ext2FindFirstZeroBitmap m start fin = .ok b) :
    m.start ≤ b ∧ b ≤ m.fin ∧ m.bit b = false := by
  unfold ext2FindFirstZeroBitmap at h
  split at h
  · cases h
  · split at h
    · cases h
    · split at h
      · cases h
        obtain ⟨_, _, clear⟩ := firstClear_some ‹_›
        exact ⟨by omega, by omega, clear⟩
      · cases h

theorem ext2NewBlockIn_ok {goal : Nat}
    (h : ext2NewBlockIn g m goal = .ok b) : m.start ≤ b ∧ b ≤ m.fin ∧ m.bit b = false := by
  unfold ext2NewBlockIn at h
  dsimp only at h
  split at h
  · split at h
    · exact ext2FindFirstZeroBitmap_ok h
    · cases h
  · exact ext2FindFirstZeroBitmap_ok h

/-- `b` was clear in the bitmap of `fs`; in `t` it is marked and zero. -/
structure Allocated (fs t : Ext2Filesystem) (b : Nat) : Prop where
  low : fs.blockBitmap.start ≤ b
  high : b ≤ fs.blockBitmap.fin
  clear : fs.blockBitmap.bit b = false
  dev : t.dev = (fs.store b fun _ => 0).dev
  bitmap : t.blockBitmap = { fs.blockBitmap with bit := Function.update fs.blockBitmap.bit b true }

/-- What no change to the blocks or the inodes touches. -/
structure Stays (fs t : Ext2Filesystem) : Prop where
  geo : t.geo = fs.geo
  revLevel : t.revLevel = fs.revLevel
  featureRoCompat : t.featureRoCompat = fs.featureRoCompat
  featureIncompat : t.featureIncompat = fs.featureIncompat
  fault : t.fault = fs.fault
  start : t.blockBitmap.start = fs.blockBitmap.start
  fin : t.blockBitmap.fin = fs.blockBitmap.fin
  tables : ∀ k, (t.groups k).inodeTable = (fs.groups k).inodeTable

/-- What no allocation or release of blocks changes. -/
structure Keeps (fs t : Ext2Filesystem) : Prop extends Stays fs t where
  inodes : t.inodes = fs.inodes
  icache : t.icache = fs.icache

theorem Stays.refl (fs : Ext2Filesystem) : Stays fs fs :=
  ⟨rfl, rfl, rfl, rfl, rfl, rfl, rfl, fun _ => rfl⟩

theorem Stays.trans {fs : Ext2Filesystem} (h : Stays fs t) (k : Stays t u) : Stays fs u where
  geo := k.geo.trans h.geo
  revLevel := k.revLevel.trans h.revLevel
  featureRoCompat := k.featureRoCompat.trans h.featureRoCompat
  featureIncompat := k.featureIncompat.trans h.featureIncompat
  fault := k.fault.trans h.fault
  start := k.start.trans h.start
  fin := k.fin.trans h.fin
  tables j := (k.tables j).trans (h.tables j)

theorem Keeps.refl (fs : Ext2Filesystem) : Keeps fs fs := ⟨.refl fs, rfl, rfl⟩

theorem Keeps.trans {fs : Ext2Filesystem} (h : Keeps fs t) (k : Keeps t u) : Keeps fs u :=
  ⟨h.toStays.trans k.toStays, k.inodes.trans h.inodes, k.icache.trans h.icache⟩

theorem Idle.keeps {fs : Ext2Filesystem} (h : Idle fs t) : Keeps fs t := by
  obtain ⟨n, rfl⟩ := h
  exact ⟨⟨rfl, rfl, rfl, rfl, rfl, rfl, rfl, fun _ => rfl⟩, rfl, rfl⟩

theorem keeps_store (fs : Ext2Filesystem) (b : Nat) (buffer : Mem) : Keeps fs (fs.store b buffer) :=
  ⟨⟨rfl, rfl, rfl, rfl, rfl, rfl, rfl, fun _ => rfl⟩, rfl, rfl⟩

theorem update_tables {groups : Nat → GroupDesc} {group : Nat} {d : GroupDesc}
    (same : d.inodeTable = (groups group).inodeTable) (k : Nat) :
    (update groups group d k).inodeTable = (groups k).inodeTable := by
  rw [update_apply]
  split_ifs with h
  · rw [h, same]
  · rfl

section

variable (fs : Ext2Filesystem)

variable (b group : Nat)

theorem keeps_blockAllocStats (inuse : Bool) : Keeps fs (ext2BlockAllocStats fs b inuse) := by
  unfold ext2BlockAllocStats Bitmap32.put
  split
  · exact .refl fs
  · refine ⟨⟨rfl, rfl, rfl, rfl, rfl, ?_, ?_, ?_⟩, rfl, rfl⟩
    · dsimp only
      split <;> rfl
    · dsimp only
      split <;> rfl
    · exact update_tables rfl

theorem keeps_clearBlockUninit : Keeps fs (ext2ClearBlockUninit fs group) := by
  unfold ext2ClearBlockUninit
  split
  · exact .refl fs
  · exact ⟨⟨rfl, rfl, rfl, rfl, rfl, rfl, rfl, update_tables rfl⟩, rfl, rfl⟩

theorem clearBlockUninit_blocks : (ext2ClearBlockUninit fs group).dev = fs.dev ∧
      (ext2ClearBlockUninit fs group).blockBitmap = fs.blockBitmap := by
  unfold ext2ClearBlockUninit
  split <;> exact ⟨rfl, rfl⟩

theorem blockAllocStats_dev (inuse : Bool) : (ext2BlockAllocStats fs b inuse).dev = fs.dev := by
  unfold ext2BlockAllocStats
  split <;> rfl

end

theorem blockAllocStats_bitmap (inuse : Bool) (low : fs.blockBitmap.start ≤ b)
    (high : b ≤ fs.blockBitmap.fin) (size : fs.blockBitmap.fin < fs.geo.blocksCount)
    (small : fs.geo.blocksCount ≤ 4294967296) :
    (ext2BlockAllocStats fs b inuse).blockBitmap =
      { fs.blockBitmap with bit := update fs.blockBitmap.bit b inuse } := by
  unfold ext2BlockAllocStats Bitmap32.put
  rw [if_neg (by omega)]
  rw [if_neg (by omega)]

theorem Geometry.Sound.count_le (h : g.Sound) : g.blocksCount ≤ 4294967296 := by
  have pos := g.blksize_ge
  exact le_trans (Nat.le_mul_of_pos_right g.blocksCount (by omega)) h.small

/-- A new block is clear in the bitmap; the search clears at most a flag of its group. -/
theorem ext2NewBlock_ends (fs : Ext2Filesystem) (goal : Nat) :
    Ends (ext2NewBlock goal) fs
      (fun b t => t = ext2ClearBlockUninit fs (fs.geo.groupOfBlock b) ∧
        fs.blockBitmap.start ≤ b ∧ b ≤ fs.blockBitmap.fin ∧ fs.blockBitmap.bit b = false)
      (fun e t => e.Outside ∧ t = fs) := by
  apply ends_bind
  apply ends_get
  cases search : ext2NewBlockIn fs.geo fs.blockBitmap goal with
  | error e => exact ends_fail ⟨trivial, rfl⟩
  | ok b =>
    apply ends_bind
    apply ends_modify
    exact ends_pure ⟨rfl, ext2NewBlockIn_ok search⟩

theorem ext2AllocBlock_ends (sound : fs.geo.Sound) (size : fs.blockBitmap.fin < fs.geo.blocksCount)
    (goal : Nat) :
    Ends (ext2AllocBlock goal) fs (fun b t => Keeps fs t ∧ Allocated fs t b)
      (fun e _ => e.Outside) := by
  apply ends_bind
  refine (ext2NewBlock_ends fs goal).mono ?_ fun e t => And.left
  rintro b fs₁ ⟨found, low, high, clear⟩
  have kept : Keeps fs fs₁ := found ▸ keeps_clearBlockUninit fs _
  obtain ⟨dev, bitmap⟩ : fs₁.dev = fs.dev ∧ fs₁.blockBitmap = fs.blockBitmap :=
    found ▸ clearBlockUninit_blocks fs _
  apply ends_bind
  apply (ext2WriteBlock_ends (kept.geo ▸ sound) (by rw [kept.geo]; omega) _).imp
  rintro _ t ⟨n, rfl⟩
  apply ends_bind
  apply ends_modify
  apply ends_pure
  refine ⟨kept.trans ((keeps_store _ b _).trans (.trans (Idle.keeps ⟨n, rfl⟩)
    (keeps_blockAllocStats _ b true))), low, high, clear, ?_, ?_⟩
  · simp only [blockAllocStats_dev, Ext2Filesystem.store, dev, kept.geo]
  · rw [← bitmap] at low high size ⊢
    exact blockAllocStats_bitmap true low high (kept.geo ▸ size) (kept.geo ▸ sound.count_le)

end Os0
