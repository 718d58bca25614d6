import Os0.Fs.Ext2.Model

/-! What `ext2_openfs` (`fs/ext2/super.c`) checks of a superblock. -/
namespace Os0

open Bytes

def EXT3_FT_INCOMPAT_JOURNAL_DEV : Nat := 0x0008
def EXT4_FT_RO_COMPAT_BIGALLOC : Nat := 0x0200
def EXT2_INCOMPAT_SUPPORTED : UInt32 := 0x3e7de
def EXT2_RO_COMPAT_SUPPORTED : UInt32 := 0xf77b

structure Ext2Superblock where
  inodesCount : UInt32
  blocksCount : UInt32
  firstDataBlock : UInt32
  logBlockSize : UInt32
  logClusterSize : UInt32
  blocksPerGroup : UInt32
  clustersPerGroup : UInt32
  inodesPerGroup : UInt32
  magic : UInt16
  revLevel : UInt32
  inodeSize : UInt16
  featureIncompat : UInt32
  featureRoCompat : UInt32
  descSize : UInt16
  blocksCountHi : UInt32
  logGroupsPerFlex : UInt8

namespace Ext2Superblock

variable (s : Ext2Superblock)

def is64Bit : Bool := hasFlag s.featureIncompat.toNat EXT4_FT_INCOMPAT_64BIT

/-- `ext2_blocks_count`, a signed number of 64 bits. -/
def count : Int :=
  (s.blocksCount.toNat + if s.is64Bit then s.blocksCountHi.toNat * 4294967296 else 0 : Int).bmod
    18446744073709551616

-- Shifts take their count modulo 32, as the processor does.
def EXT2_BLOCK_SIZE : UInt32 := 1024 <<< s.logBlockSize

def EXT2_INODE_SIZE : UInt32 := if s.revLevel = 0 then 128 else s.inodeSize.toUInt32

def EXT2_DESC_SIZE : UInt32 := if s.is64Bit then s.descSize.toUInt32 else 32

def EXT2_DESC_PER_BLOCK : UInt32 := s.EXT2_BLOCK_SIZE / s.EXT2_DESC_SIZE

def EXT2_MAX_BLOCKS_PER_GROUP : UInt32 :=
  (65528 * (((1024 : UInt32) <<< s.logClusterSize).toInt32 / s.EXT2_BLOCK_SIZE.toInt32)).toUInt32

/-- `f_cluster_ratio_bits`, an `int`. -/
def clusterRatioBits : Int := (s.logClusterSize.toNat - s.logBlockSize.toNat : Int).bmod 4294967296

/-- `f_inode_blocks_per_group`. -/
def inodeBlocksPerGroup : UInt32 :=
  (s.inodesPerGroup * s.EXT2_INODE_SIZE + s.EXT2_BLOCK_SIZE - 1) / s.EXT2_BLOCK_SIZE

/-- `ngroups`, by `div64_ceil`. -/
def groups : Nat :=
  let a := (s.count - s.firstDataBlock.toNat).toNat
  if a = 0 then 0 else (a - 1) / s.blocksPerGroup.toNat + 1

/-- The checks of `ext2_openfs` in their order, each with the error that it gives. `checksum` says
whether the stored checksum is right. -/
def checks (checksum rdonly : Bool) : List (Bool × Errno) :=
  let inosize := s.EXT2_INODE_SIZE
  [(hasFlag s.featureRoCompat.toNat EXT4_FT_RO_COMPAT_METADATA_CSUM && !checksum ||
      s.magic ≠ 0xef53 || 1 < s.revLevel, .EINVAL),
    (s.featureIncompat &&& ~~~EXT2_INCOMPAT_SUPPORTED ≠ 0 ||
      !rdonly && s.featureRoCompat &&& ~~~EXT2_RO_COMPAT_SUPPORTED ≠ 0, .ENOTSUP),
    (hasFlag s.featureIncompat.toNat EXT3_FT_INCOMPAT_JOURNAL_DEV, .ENOTSUP),
    (6 < s.logBlockSize, .EINVAL),
    (hasFlag s.featureRoCompat.toNat EXT4_FT_RO_COMPAT_BIGALLOC &&
      s.logBlockSize ≠ s.logClusterSize, .EINVAL),
    (inosize < 128 || s.EXT2_BLOCK_SIZE < inosize || inosize &&& (inosize - 1) ≠ 0, .EINVAL),
    (s.is64Bit && s.descSize < 64, .EINVAL),
    (s.blocksPerGroup ≠ s.clustersPerGroup <<< (s.logClusterSize - s.logBlockSize), .EINVAL),
    (s.inodesPerGroup = 0, .EINVAL),
    (s.blocksPerGroup = 0 || s.EXT2_MAX_BLOCKS_PER_GROUP < s.blocksPerGroup ||
      65536 - s.EXT2_BLOCK_SIZE / inosize ≤ s.inodeBlocksPerGroup || s.EXT2_DESC_PER_BLOCK = 0 ||
      s.count ≤ s.firstDataBlock.toNat, .EINVAL),
    (4294967296 ≤ s.groups, .EINVAL),
    (s.groups * s.inodesPerGroup.toNat ≠ s.inodesCount.toNat, .EINVAL)]

/-- `ext2_openfs` up to where the group descriptors are read; gives `f_group_desc_count`. -/
def ext2Openfs (checksum rdonly : Bool) : Except Errno Nat :=
  match (s.checks checksum rdonly).find? (·.1) with
  | some (_, e) => .error e
  | none => .ok s.groups

def ext2GroupOfBlock (block : Nat) : Nat :=
  (block - s.firstDataBlock.toNat) / s.blocksPerGroup.toNat % 4294967296

def ext2GroupOfInode (ino : Nat) : Nat := (ino - 1) / s.inodesPerGroup.toNat % 4294967296

/-- What the driver relies on once a file system is mounted. -/
structure Sound (groups : Nat) : Prop where
  ratio : 0 ≤ s.clusterRatioBits ∧ s.clusterRatioBits ≤ 16
  divisors : ∀ d ∈ [s.blocksPerGroup, s.inodesPerGroup, s.EXT2_BLOCK_SIZE, s.EXT2_INODE_SIZE,
    s.EXT2_DESC_SIZE, s.EXT2_DESC_PER_BLOCK], d ≠ 0
  shifts : ∀ c ∈ [(s.logBlockSize.toNat + 10 : Int), s.clusterRatioBits, s.logGroupsPerFlex.toNat],
    0 ≤ c ∧ c < 32
  blocks : ∀ block : Nat, s.firstDataBlock.toNat ≤ block → block < s.count →
    s.ext2GroupOfBlock block < groups
  inodes : ∀ ino, 1 ≤ ino → ino ≤ s.inodesCount.toNat → s.ext2GroupOfInode ino < groups

variable {s} {checksum rdonly : Bool} {n : Nat}

theorem ext2Openfs_ok (opened : s.ext2Openfs checksum rdonly = .ok n) :
    (∀ c ∈ s.checks checksum rdonly, ¬c.1) ∧ n = s.groups := by
  unfold ext2Openfs at opened
  split at opened
  case h_1 => cases opened
  case h_2 none => exact ⟨List.find?_eq_none.1 none, (Except.ok.inj opened).symm⟩

theorem clusterRatioBits_iff (log : s.logBlockSize.toNat ≤ 6) :
    0 ≤ s.clusterRatioBits ∧ s.clusterRatioBits ≤ 16 ↔
      s.logBlockSize.toNat ≤ s.logClusterSize.toNat ∧
        s.logClusterSize.toNat ≤ s.logBlockSize.toNat + 16 := by
  have word := s.logClusterSize.toNat_lt
  unfold clusterRatioBits
  rw [Int.bmod_def]
  omega

theorem ext2GroupOfBlock_lt (some : s.firstDataBlock.toNat < s.count) {block : Nat}
    (first : s.firstDataBlock.toNat ≤ block) (last : block < s.count) :
    s.ext2GroupOfBlock block < s.groups := by
  unfold groups
  rw [if_neg (by omega)]
  refine Nat.lt_succ_of_le ((Nat.mod_le _ _).trans (Nat.div_le_div_right ?_))
  omega

theorem ext2GroupOfInode_lt (all : s.groups * s.inodesPerGroup.toNat = s.inodesCount.toNat)
    {ino : Nat} (first : 1 ≤ ino) (last : ino ≤ s.inodesCount.toNat) :
    s.ext2GroupOfInode ino < s.groups := by
  refine (Nat.mod_le _ _).trans_lt (Nat.div_lt_of_lt_mul ?_)
  rw [Nat.mul_comm, all]
  omega

/-- An accepted superblock gives a sound file system if and only if the cluster size is at least
the block size and at most 2 ^ 16 times it, and `s_log_groups_per_flex` is a valid shift count:
neither is checked. -/
theorem ext2_openfs_sound_iff (opened : s.ext2Openfs checksum rdonly = .ok n) :
    s.Sound n ↔ s.logBlockSize.toNat ≤ s.logClusterSize.toNat ∧
      s.logClusterSize.toNat ≤ s.logBlockSize.toNat + 16 ∧ s.logGroupsPerFlex.toNat < 32 := by
  obtain ⟨passed, eq⟩ := ext2Openfs_ok opened
  simp only [checks, List.forall_mem_cons, Bool.not_eq_true, Bool.or_eq_false_iff,
    decide_eq_false_iff_not, UInt32.not_lt, not_le, not_not] at passed
  obtain ⟨-, -, -, log, -, ⟨⟨inode, -⟩, -⟩, -, -, ipg, ⟨⟨⟨⟨bpg, -⟩, -⟩, perBlock⟩, some⟩, -, all, -⟩ :=
    passed
  have log : s.logBlockSize.toNat ≤ 6 := log
  have ratio := clusterRatioBits_iff log
  rw [eq]
  constructor
  · intro sound
    have low := ratio.1 sound.ratio
    have flex := (sound.shifts s.logGroupsPerFlex.toNat (by simp)).2
    omega
  · rintro ⟨low, high, flex⟩
    have bits := ratio.2 ⟨low, high⟩
    constructor
    case ratio => exact bits
    case divisors =>
      have size : s.EXT2_BLOCK_SIZE ≠ 0 := by
        intro zero
        simp [EXT2_DESC_PER_BLOCK, zero] at perBlock
      have desc : s.EXT2_DESC_SIZE ≠ 0 := by
        intro zero
        simp [EXT2_DESC_PER_BLOCK, zero] at perBlock
      have inode : s.EXT2_INODE_SIZE ≠ 0 := by
        intro zero
        simp [zero] at inode
      simp [bpg, ipg, size, inode, desc, perBlock]
    case shifts =>
      simp only [List.forall_mem_cons]
      exact ⟨by omega, by omega, by omega, nofun⟩
    case blocks => exact fun _ => ext2GroupOfBlock_lt some
    case inodes => exact fun _ => ext2GroupOfInode_lt all

/-- A file system of 4 GiB with blocks of 1024 bytes. -/
def fourGiB : Ext2Superblock where
  inodesCount := 1048576
  blocksCount := 4194304
  firstDataBlock := 1
  logBlockSize := 0
  logClusterSize := 0
  blocksPerGroup := 8192
  clustersPerGroup := 8192
  inodesPerGroup := 2048
  magic := 0xef53
  revLevel := 1
  inodeSize := 128
  featureIncompat := 2
  featureRoCompat := 0
  descSize := 0
  blocksCountHi := 0
  logGroupsPerFlex := 0

theorem ext2_openfs_sound_fourGiB : fourGiB.ext2Openfs true false = .ok 512 ∧ fourGiB.Sound 512 :=
  have opened : fourGiB.ext2Openfs true false = .ok 512 := by decide +kernel
  ⟨opened, (ext2_openfs_sound_iff opened).2 (by decide)⟩

/-- The same superblock is accepted with a shift count of 32. -/
theorem ext2_openfs_flex_shift :
    ({ fourGiB with logGroupsPerFlex := 32 }).ext2Openfs true false = .ok 512 ∧
      ¬({ fourGiB with logGroupsPerFlex := 32 }).Sound 512 := by
  refine ⟨by decide +kernel, fun sound => ?_⟩
  have flex := (sound.shifts 32 (by simp)).2
  omega

end Ext2Superblock

end Os0
