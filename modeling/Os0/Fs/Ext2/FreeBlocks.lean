import Os0.Fs.Ext2.Tree
import Os0.Lib.Tally

/-! The counts of free blocks over whole runs of allocations and releases. -/
namespace Os0

open Cmd Runs Tally Function Finset

/-- What `ext2_openfs` and `ext2_allocate_block_bitmap` check or set up for the blocks. -/
structure Ext2Filesystem.BlocksMounted (fs : Ext2Filesystem) : Prop where
  perGroup : 0 < fs.geo.blocksPerGroup
  first : fs.geo.firstDataBlock < fs.geo.blocksCount
  count : fs.geo.blocksCount < 2 ^ fs.countBits 32
  groups : fs.geo.groupDescCount =
    (fs.geo.blocksCount - fs.geo.firstDataBlock - 1) / fs.geo.blocksPerGroup + 1
  start : fs.blockBitmap.start = fs.geo.firstDataBlock
  fin : fs.blockBitmap.fin = fs.geo.blocksCount - 1
  narrow : fs.blockBitmap.fin ≤ 0xffffffff

namespace Geometry

/-- The blocks of the file system. -/
def allBlocks (g : Geometry) : Finset Nat := Finset.Ico g.firstDataBlock g.blocksCount

/-- The blocks of one group. -/
def groupBlocks (g : Geometry) (group : Nat) : Finset Nat :=
  g.allBlocks.filter fun b => g.groupOfBlock b = group

end Geometry

namespace Ext2Filesystem

/-- The count of the superblock is the sum of the counts of the groups, and each of these is
the number of clear bits of its group. -/
structure FreeBlocks (fs : Ext2Filesystem) : Prop where
  total : fs.freeBlocksCount =
    ∑ group ∈ Finset.range fs.geo.groupDescCount, (fs.groups group).freeBlocksCount
  groups : ∀ group < fs.geo.groupDescCount, (fs.groups group).freeBlocksCount =
    ((fs.geo.groupBlocks group).filter fun b => fs.blockBitmap.bit b = false).card

end Ext2Filesystem

inductive BlockCall
  /-- `ext2_alloc_block`, with or without a buffer. -/
  | alloc (goal : Nat) (buffer : Bool)
  /-- `ext2_block_alloc_stats`. -/
  | stats (block : Nat) (inuse : Bool)
  deriving DecidableEq, Repr

namespace BlockCall

def step (fs : Ext2Filesystem) : BlockCall → Ext2Filesystem
  | .alloc goal true => (ext2AllocBlock goal fs).2
  | .alloc goal false => (ext2AllocBlockZeroed goal fs).2
  | .stats block inuse => ext2BlockAllocStats fs block inuse

/-- A block in range that is clear is marked, and one that is set is released. -/
def proper (fs : Ext2Filesystem) : BlockCall → Bool
  | .alloc _ _ => true
  | .stats block inuse =>
    decide (block ∈ fs.geo.allBlocks) && fs.blockBitmap.bit block != inuse

end BlockCall

/-! ## Counters of fixed width -/

theorem adjustCount_take {bits count : Nat} (pos : 0 < count) (fits : count < 2 ^ bits) :
    adjustCount bits count 1 true + 1 = count := by
  rw [adjustCount, if_pos rfl, Nat.mod_eq_of_lt (a := 1) (by omega),
    show count + 2 ^ bits - 1 = count - 1 + 2 ^ bits by omega, Nat.add_mod_right,
    Nat.mod_eq_of_lt (by omega)]
  omega

theorem adjustCount_give {bits count : Nat} (fits : count + 1 < 2 ^ bits) :
    adjustCount bits count 1 false = count + 1 := by
  rw [adjustCount, if_neg (by decide), Nat.mod_eq_of_lt fits]

/-- The counter of the elements with a property follows when one element changes. -/
theorem adjustCount_eq {s : Finset Nat} {p q : Nat → Bool} {a bits : Nat} {inuse : Bool}
    (mem : a ∈ s) (was : p a = inuse) (now : q a = !inuse) (agree : ∀ b, b ≠ a → q b = p b)
    (fits : s.card < 2 ^ bits) :
    adjustCount bits (count s p) 1 inuse = count s q := by
  cases inuse with
  | true =>
    have le : count s p ≤ s.card := count_le
    have take : adjustCount bits (count s p) 1 true + 1 = count s p :=
      adjustCount_take (count_pos mem was) (by omega)
    have := count_gain ⟨now, was, fun b other => (agree b other).symm⟩ mem
    omega
  | false =>
    have := count_lt mem was
    rw [adjustCount_give (by omega), count_gain ⟨was, now, agree⟩ mem]

/-- The same for the counters of classes, of which the element is in one. -/
theorem adjustCount_counted {s groups : Finset Nat} {f n m : Nat → Nat} {p q : Nat → Bool}
    {a bits : Nat} {inuse : Bool} (h : Counted (fun i => s.filter fun b => f b = i) groups p n)
    (mem : a ∈ s) (was : p a = inuse) (now : q a = !inuse) (agree : ∀ b, b ≠ a → q b = p b)
    (member : f a ∈ groups) (fits : (s.filter fun b => f b = f a).card < 2 ^ bits)
    (here : m (f a) = adjustCount bits (n (f a)) 1 inuse) (off : ∀ i, i ≠ f a → m i = n i) :
    Counted (fun i => s.filter fun b => f b = i) groups q m := by
  refine h.change agree (fun i is => (mem_filter.1 is).2.symm) ?_ off
  rw [here, h (f a) member]
  exact adjustCount_eq (mem_filter.2 ⟨mem, rfl⟩) was now agree fits

open Os0.Geometry

namespace Ext2Filesystem

variable {fs t : Ext2Filesystem} {b : Nat}

theorem countBits_congr (incompat : t.featureIncompat = fs.featureIncompat) (width : Nat) :
    t.countBits width = fs.countBits width := by
  unfold countBits
  rw [incompat]

theorem countBits_ge (fs : Ext2Filesystem) (width : Nat) : width ≤ fs.countBits width := by
  unfold countBits
  split <;> omega

/-- The property that is counted. -/
def isFree (fs : Ext2Filesystem) : Nat → Bool := fun b => !fs.blockBitmap.bit b

/-- What a run keeps: the geometry of a mounted file system with cluster ratio 1, and right
counts. The count of the superblock is stated over all blocks. -/
structure BlockInv (fs : Ext2Filesystem) : Prop where
  mounted : fs.BlocksMounted
  ratio : fs.geo.clusterRatio = 1
  small : fs.geo.blocksPerGroup < 65536
  total : fs.freeBlocksCount = count fs.geo.allBlocks fs.isFree
  groups : Counted fs.geo.groupBlocks (Finset.range fs.geo.groupDescCount) fs.isFree
    fun group => (fs.groups group).freeBlocksCount

namespace BlocksMounted

variable (h : fs.BlocksMounted)
include h

theorem groupOfBlock_eq (mem : b ∈ fs.geo.allBlocks) :
    fs.geo.groupOfBlock b = (b - fs.geo.firstDataBlock) / fs.geo.blocksPerGroup := by
  obtain ⟨_, _⟩ := mem_Ico.1 mem
  have bound : b - fs.geo.firstDataBlock < 4294967296 := by
    have := h.narrow
    have := h.fin
    omega
  have le := Nat.div_le_self (b - fs.geo.firstDataBlock) fs.geo.blocksPerGroup
  have wraps : (b + 18446744073709551616 - fs.geo.firstDataBlock) % 18446744073709551616 =
      b - fs.geo.firstDataBlock := by omega
  rw [groupOfBlock, wraps, Nat.mod_eq_of_lt (by omega)]

theorem group_lt (mem : b ∈ fs.geo.allBlocks) : fs.geo.groupOfBlock b < fs.geo.groupDescCount := by
  obtain ⟨_, _⟩ := mem_Ico.1 mem
  rw [h.groupOfBlock_eq mem, h.groups]
  exact Nat.lt_succ_of_le (Nat.div_le_div_right (by omega))

theorem group_card_le (group : Nat) : (fs.geo.groupBlocks group).card ≤ fs.geo.blocksPerGroup :=
  card_filter_div_le h.perGroup (fun _ mem => (mem_Ico.1 mem).1)
    (fun _ => h.groupOfBlock_eq) group

end BlocksMounted

theorem BlockInv.freeBlocks (h : fs.BlockInv) : fs.FreeBlocks where
  total := by
    rw [h.total]
    refine (Counted.sum h.groups fun b mem => mem_range.2 (h.mounted.group_lt mem)).symm
  groups group lt := by
    refine (h.groups group (mem_range.2 lt)).trans ?_
    simp [count, isFree]

theorem BlockInv.congr (h : fs.BlockInv) (geo : t.geo = fs.geo)
    (incompat : t.featureIncompat = fs.featureIncompat) (bitmap : t.blockBitmap = fs.blockBitmap)
    (total : t.freeBlocksCount = fs.freeBlocksCount)
    (groups : ∀ group, (t.groups group).freeBlocksCount = (fs.groups group).freeBlocksCount) :
    t.BlockInv := by
  have bits := countBits_congr incompat
  have same : t.isFree = fs.isFree := by
    unfold isFree
    rw [bitmap]
  constructor
  case mounted =>
    obtain ⟨_, _, _, _, _, _, _⟩ := h.mounted
    constructor <;> simp only [geo, bits, bitmap] <;> assumption
  case ratio => exact geo ▸ h.ratio
  case small => exact geo ▸ h.small
  case total => rw [total, geo, same, h.total]
  case groups =>
    rw [geo, same]
    exact fun group lt => (groups group).trans (h.groups group lt)

/-- What `ext2_block_alloc_stats` does to the counts of a block in range. -/
structure CountsBlock (fs t : Ext2Filesystem) (b : Nat) (inuse : Bool) : Prop where
  geo : t.geo = fs.geo
  incompat : t.featureIncompat = fs.featureIncompat
  bitmap : t.blockBitmap = { fs.blockBitmap with bit := Function.update fs.blockBitmap.bit b inuse }
  total : t.freeBlocksCount =
    adjustCount (fs.countBits 32) fs.freeBlocksCount fs.geo.clusterRatio inuse
  group : (t.groups (fs.geo.groupOfBlock b)).freeBlocksCount =
    adjustCount (fs.countBits 16) (fs.groups (fs.geo.groupOfBlock b)).freeBlocksCount 1 inuse
  others : ∀ group, group ≠ fs.geo.groupOfBlock b →
    (t.groups group).freeBlocksCount = (fs.groups group).freeBlocksCount

theorem countsBlock_stats (h : fs.BlocksMounted) (mem : b ∈ fs.geo.allBlocks) (inuse : Bool) :
    CountsBlock fs (ext2BlockAllocStats fs b inuse) b inuse := by
  obtain ⟨low, _⟩ := mem_Ico.1 mem
  have fin := h.fin
  have narrow := h.narrow
  have bitmap := blockAllocStats_bitmap inuse (h.start ▸ low) (by omega) (by omega) (by omega)
  have stays := (keeps_blockAllocStats fs b inuse).toStays
  refine ⟨stays.geo, stays.featureIncompat, bitmap, ?_, ?_, fun group other => ?_⟩ <;>
    rw [ext2BlockAllocStats, if_neg (by omega)]
  · simp
  · simp [update_of_ne other]

theorem BlockInv.counts (h : fs.BlockInv) (mem : b ∈ fs.geo.allBlocks) {inuse : Bool}
    (changes : fs.blockBitmap.bit b ≠ inuse) (counts : CountsBlock fs t b inuse) : t.BlockInv := by
  have mounted := h.mounted
  have start : t.blockBitmap.start = fs.blockBitmap.start := by rw [counts.bitmap]
  have fin : t.blockBitmap.fin = fs.blockBitmap.fin := by rw [counts.bitmap]
  have bits := countBits_congr counts.incompat
  have room : 2 ^ 16 ≤ 2 ^ fs.countBits 16 :=
    Nat.pow_le_pow_right (by decide) (fs.countBits_ge 16)
  have card := mounted.group_card_le (fs.geo.groupOfBlock b)
  have all : fs.geo.allBlocks.card ≤ fs.geo.blocksCount := by
    rw [allBlocks, Nat.card_Ico]
    omega
  have small := h.small
  have blocks := mounted.count
  have agree (c : Nat) (other : c ≠ b) : t.isFree c = fs.isFree c := by
    simp [isFree, counts.bitmap, other]
  have now : t.isFree b = !inuse := by simp [isFree, counts.bitmap]
  have was : fs.isFree b = inuse := by
    cases inuse <;> simpa [isFree] using changes
  constructor
  case mounted =>
    obtain ⟨_, _, blocks, _, _, _, _⟩ := mounted
    constructor <;> simp only [counts.geo, bits, start, fin] <;> assumption
  case ratio => exact counts.geo ▸ h.ratio
  case small => exact counts.geo ▸ small
  case total =>
    rw [counts.total, h.ratio, h.total, counts.geo]
    exact adjustCount_eq mem was now agree (by omega)
  case groups =>
    rw [counts.geo]
    exact adjustCount_counted h.groups mem was now agree (mem_range.2 (mounted.group_lt mem))
      (card.trans_lt (by omega)) counts.group counts.others

/-- Only the device and the count of operations differ. -/
def Written (fs t : Ext2Filesystem) : Prop := ∃ dev n, t = { fs with dev := dev, ops := n }

section

variable (fs : Ext2Filesystem)

theorem deviceOp_written :
    Ends deviceOp fs (fun _ t => Written fs t) (fun _ t => Written fs t) := by
  unfold Ends deviceOp
  cases fs.fault fs.ops with
  | none => exact ⟨_, _, rfl⟩
  | some e => exact ⟨_, _, rfl⟩

theorem ext2WriteBlock_written (buffer : Bytes.Mem) (b : Nat) :
    Ends (ext2WriteBlock buffer b) fs (fun _ t => Written fs t) (fun _ t => Written fs t) := by
  apply ends_bind
  apply (deviceOp_written fs).imp
  rintro _ t ⟨-, n, rfl⟩
  exact ends_modify ⟨_, _, rfl⟩

theorem ext2ZeroBlock_written (b : Nat) :
    Ends (ext2ZeroBlock b) fs (fun _ t => Written fs t) (fun _ t => Written fs t) := by
  have memory : Ends kmallocOp fs (fun _ t => Written fs t) (fun _ t => Written fs t) := by
    unfold Ends kmallocOp
    cases fs.fault fs.ops with
    | none => exact ⟨_, _, rfl⟩
    | some e => exact ⟨_, _, rfl⟩
  apply ends_bind
  apply memory.imp
  rintro _ t ⟨-, n, rfl⟩
  refine (ext2WriteBlock_written _ _ b).mono ?_ ?_ <;>
  · rintro _ u ⟨-, -, rfl⟩
    exact ⟨_, _, rfl⟩

end

/-- An allocation, whatever writes the new block, and whether it succeeds or not. -/
theorem BlockInv.alloc (h : fs.BlockInv) {write : Nat → FsCmd Unit}
    (writes : ∀ b fs, Ends (write b) fs (fun _ t => Written fs t) (fun _ t => Written fs t))
    (goal : Nat) :
    Ends (do
      let block ← ext2NewBlock goal
      write block
      Cmd.modify fun fs => ext2BlockAllocStats fs block true
      pure block) fs (fun _ t => t.BlockInv) (fun _ t => t.BlockInv) := by
  apply ends_bind
  refine (ext2NewBlock_ends fs goal).mono ?_ ?_
  swap
  · rintro e t ⟨-, rfl⟩
    exact h
  rintro b fs₁ ⟨found, _, _, clear⟩
  have inv : fs₁.BlockInv := by
    rw [found]
    unfold ext2ClearBlockUninit
    split
    · exact h
    · refine h.congr rfl rfl rfl rfl fun group => ?_
      by_cases same : group = fs.geo.groupOfBlock b
      · simp [same]
      · simp [same]
  have kept : fs₁.geo = fs.geo := found ▸ (keeps_clearBlockUninit fs _).geo
  have bitmap : fs₁.blockBitmap = fs.blockBitmap := found ▸ (clearBlockUninit_blocks fs _).2
  apply ends_bind
  refine (writes b fs₁).mono ?_ ?_
  · rintro _ t ⟨dev, n, rfl⟩
    have inv : ({ fs₁ with dev := dev, ops := n } : Ext2Filesystem).BlockInv :=
      inv.congr rfl rfl rfl rfl fun _ => rfl
    have mem : b ∈ fs₁.geo.allBlocks := by
      have start := h.mounted.start
      have fin := h.mounted.fin
      have first := h.mounted.first
      rw [kept, allBlocks, mem_Ico]
      omega
    apply ends_bind
    apply ends_modify
    apply ends_pure
    refine inv.counts mem ?_ (countsBlock_stats inv.mounted mem true)
    rw [bitmap, clear]
    decide
  · rintro e t ⟨dev, n, rfl⟩
    exact inv.congr rfl rfl rfl rfl fun _ => rfl

theorem BlockInv.step (h : fs.BlockInv) {call : BlockCall} (proper : call.proper fs = true) :
    (call.step fs).BlockInv := by
  cases call with
  | alloc goal buffer =>
    cases buffer with
    | true => exact (h.alloc (fun b fs => ext2WriteBlock_written fs _ b) goal).after
    | false => exact (h.alloc (fun b fs => ext2ZeroBlock_written fs b) goal).after
  | stats _ inuse =>
    simp only [BlockCall.proper, Bool.and_eq_true, decide_eq_true_eq, bne_iff_ne] at proper
    exact h.counts proper.1 proper.2 (countsBlock_stats h.mounted proper.1 inuse)

end Ext2Filesystem

/-- Allocations and releases keep the counts of free blocks right. -/
theorem free_blocks_runs {fs fs' : Ext2Filesystem} {calls : List BlockCall}
    (mounted : fs.BlocksMounted) (ratio : fs.geo.clusterRatio = 1)
    (small : fs.geo.blocksPerGroup < 65536) (agree : fs.FreeBlocks)
    (run : Run (Guarded (fun fs call => call.proper fs = true) (graph fun fs call => call.step fs))
      fs calls fs') : fs'.FreeBlocks := by
  have groups : Counted fs.geo.groupBlocks (Finset.range fs.geo.groupDescCount) fs.isFree
      fun group => (fs.groups group).freeBlocksCount := by
    intro group lt
    refine (agree.groups group (Finset.mem_range.1 lt)).trans ?_
    simp [count, Ext2Filesystem.isFree]
  have start : fs.BlockInv :=
    { mounted, ratio, small, groups
      total := agree.total.trans
        (groups.sum fun b mem => Finset.mem_range.2 (mounted.group_lt mem)) }
  refine (run.invariant (I := Ext2Filesystem.BlockInv) ?_ start).freeBlocks
  rintro fs call _ h ⟨proper, rfl⟩
  exact h.step proper

/-- Two groups of four blocks of 1024 bytes and four inodes each. Blocks 1 to 3 and inodes 1
and 2 are in use, and both inodes are directories. -/
def smallFilesystem : Ext2Filesystem where
  geo :=
    { logBlockSize := 0
      blocksCount := 9
      firstDataBlock := 1
      blocksPerGroup := 4
      inodesCount := 8
      inodesPerGroup := 4
      inodeBlocksPerGroup := 1
      groupDescCount := 2
      clusterRatioBits := 0
      logGroupsPerFlex := 0
      inodeSize := 128
      firstInode := 3
      mntflags := 0 }
  dev _ := 0
  inodes ino :=
    { mode := if ino ≤ 2 then S_IFDIR else 0
      uid := 0
      size := 0
      atime := 0
      ctime := 0
      mtime := 0
      gid := 0
      linksCount := 0
      blocks := 0
      flags := 0
      block := fun _ => 0
      sizeHigh := 0
      blocksHi := 0 }
  revLevel := 1
  featureRoCompat := 0
  featureIncompat := 0
  freeBlocksCount := 5
  freeInodesCount := 6
  groups group :=
    { inodeTable := 3
      freeBlocksCount := if group = 0 then 1 else 4
      freeInodesCount := if group = 0 then 2 else 4
      usedDirsCount := if group = 0 then 2 else 0
      itableUnused := 0
      blockUninit := false
      inodeUninit := false }
  blockBitmap := ⟨1, 8, fun b => decide (b ≤ 3)⟩
  inodeBitmap := ⟨1, 8, fun ino => decide (ino ≤ 2)⟩
  icache := []
  icacheNext := 0
  fault _ := none
  heap _ _ := 0
  ops := 0

/-- Block 4 is allocated and block 2 is released. -/
theorem free_blocks_runs_at : ∃ fs : Ext2Filesystem, fs.blockBitmap.bit 4 = true ∧
    fs.blockBitmap.bit 2 = false ∧ fs.FreeBlocks := by
  have run : Run (Guarded (fun fs call => BlockCall.proper fs call = true) (graph BlockCall.step))
      smallFilesystem [.alloc 3 true, .stats 2 false] _ :=
    .cons ⟨rfl, rfl⟩ (.cons ⟨by decide, rfl⟩ (.nil _))
  exact ⟨_, by decide, by decide, free_blocks_runs
    ⟨by decide, by decide, by decide, by decide, rfl, rfl, by decide⟩ (by decide) (by decide)
    ⟨by decide, by decide⟩ run⟩

end Os0
