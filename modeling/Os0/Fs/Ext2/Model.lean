import Mathlib.Algebra.Group.Int.Defs
import Mathlib.Algebra.Group.Nat.Defs
import Os0.Fs.Perm
import Os0.Lib.Cmd

/-! The ext2 file system below the file operations (`fs/ext2/util.c`, `fs/ext2/bitmap.c`):
the block device, the inode table with its cache, the bitmaps, the allocation of blocks
and inodes, and the block count of an inode.

The device is a flat array of bytes, except for the inode table, which is kept apart as a
map from inode numbers to inodes. Metadata and group descriptor checksums are left out. -/
namespace Os0

open Bytes

def EXT4_FT_INCOMPAT_64BIT : Nat := 0x0080
def EXT4_FT_RO_COMPAT_HUGE_FILE : Nat := 0x0008
def EXT4_FT_RO_COMPAT_GDT_CSUM : Nat := 0x0010
def EXT4_FT_RO_COMPAT_METADATA_CSUM : Nat := 0x0400
def EXT4_HUGE_FILE_FL : Nat := 0x00040000
def EXT4_EXTENTS_FL : Nat := 0x00080000
def EXT4_INLINE_DATA_FL : Nat := 0x10000000

def EXT2_NDIR_BLOCKS : Nat := 12
def EXT2_IND_BLOCK : Nat := EXT2_NDIR_BLOCKS
def EXT2_DIND_BLOCK : Nat := EXT2_IND_BLOCK + 1
def EXT2_TIND_BLOCK : Nat := EXT2_DIND_BLOCK + 1
def EXT2_N_BLOCKS : Nat := EXT2_TIND_BLOCK + 1

/-- Why a call returns a negative number. A failed device operation, a failed `kmalloc`
and a failed search for a free block keep their origin; `extents` stands for the calls into
`fs/ext2/extent.c`, which are not modelled. -/
inductive Failure
  | device (e : Errno)
  | memory
  | space (e : Errno)
  | extents
  | call (e : Errno)
  deriving DecidableEq, Repr

/-- The failures of the environment: the device, the heap or the free space. -/
def Failure.Outside : Failure → Prop
  | .device _ | .memory | .space _ => True
  | .extents | .call _ => False

/-- `Ext2Inode`: the fields that the modelled functions use. -/
structure Ext2Inode where
  mode : Nat
  uid : UInt16
  size : Nat
  atime : Nat
  ctime : Nat
  mtime : Nat
  gid : UInt16
  linksCount : Nat
  blocks : Nat
  flags : Nat
  block : Nat → Nat
  sizeHigh : Nat
  blocksHi : Nat

/-- `EXT2_I_SIZE`: the two halves share no bit. -/
def Ext2Inode.iSize (i : Ext2Inode) : Nat := i.size + i.sizeHigh * 4294967296

/-- The fields of the superblocks that never change while it is mounted; `inodeSize` is
`EXT2_INODE_SIZE` and `firstInode` is `EXT2_FIRST_INODE`. -/
structure Geometry where
  logBlockSize : Nat
  blocksCount : Nat
  firstDataBlock : Nat
  blocksPerGroup : Nat
  inodesCount : Nat
  inodesPerGroup : Nat
  inodeBlocksPerGroup : Nat
  groupDescCount : Nat
  clusterRatioBits : Nat
  logGroupsPerFlex : Nat
  inodeSize : Nat
  firstInode : Nat
  mntflags : Nat
  deriving DecidableEq, Repr

/-- `EXT2_BLOCK_SIZE_BITS`. -/
def Geometry.blockSizeBits (g : Geometry) : Nat := g.logBlockSize + 10

/-- `sb_blksize`. -/
def Geometry.blksize (g : Geometry) : Nat := 1 <<< g.blockSizeBits

/-- The number of block pointers in one block. -/
def Geometry.addrPerBlock (g : Geometry) : Nat := g.blksize >>> 2

/-- `EXT2_CLUSTER_RATIO`. -/
def Geometry.clusterRatio (g : Geometry) : Nat := 1 <<< g.clusterRatioBits

/-- A group descriptor: its inode table, its counters, and whether it is flagged
`EXT2_BG_BLOCK_UNINIT` and `EXT2_BG_INODE_UNINIT`. -/
structure GroupDesc where
  inodeTable : Nat
  freeBlocksCount : Nat
  freeInodesCount : Nat
  usedDirsCount : Nat
  itableUnused : Nat
  blockUninit : Bool
  inodeUninit : Bool
  deriving DecidableEq, Repr

/-- `Ext2Bitmap32`. -/
structure Bitmap32 where
  start : Nat
  fin : Nat
  bit : Nat → Bool

/-- A mounted file system: what is on the device and what `Ext2Filesystem` holds of it.
`fault n` is the error, if any, of the `n`-th operation on the device or the heap, and
`heap n` is what the memory that it allocates and the memory behind that hold. -/
structure Ext2Filesystem where
  geo : Geometry
  dev : Mem
  inodes : Nat → Ext2Inode
  revLevel : Nat
  featureRoCompat : Nat
  featureIncompat : Nat
  freeBlocksCount : Nat
  freeInodesCount : Nat
  groups : Nat → GroupDesc
  blockBitmap : Bitmap32
  inodeBitmap : Bitmap32
  icache : List (Nat × Ext2Inode)
  icacheNext : Nat
  fault : Nat → Option Errno
  heap : Nat → Mem
  ops : Nat

abbrev FsCmd := Cmd Ext2Filesystem Failure

/-! ## The device -/

/-- One operation on the device. -/
def deviceOp : FsCmd Unit := fun fs =>
  match fs.fault fs.ops with
  | none => (.ok (), { fs with ops := fs.ops + 1 })
  | some e => (.error (.device e), { fs with ops := fs.ops + 1 })

/-- One `kmalloc` whose result is checked. -/
def kmallocOp : FsCmd Unit := fun fs =>
  match fs.fault fs.ops with
  | none => (.ok (), { fs with ops := fs.ops + 1 })
  | some _ => (.error .memory, { fs with ops := fs.ops + 1 })

/-- The device offset of a block: a product of 32-bit numbers. -/
def Geometry.offsetOf (g : Geometry) (block : Nat) : Nat := block * g.blksize % 4294967296

/-- `ext2_read_blocks` of one block. -/
def ext2ReadBlock (block : Nat) : FsCmd Mem := do
  deviceOp
  let fs ← Cmd.get
  pure fun i => fs.dev (fs.geo.offsetOf block + i)

/-- The device after `len` bytes of `buffer` were written at `a`. -/
def storeBytes (dev : Mem) (a len : Nat) (buffer : Mem) : Mem := fun b =>
  if a ≤ b ∧ b < a + len then buffer (b - a) else dev b

/-- `ext2_write_blocks` of one block. -/
def ext2WriteBlock (buffer : Mem) (block : Nat) : FsCmd Unit := do
  deviceOp
  Cmd.modify fun fs =>
    { fs with dev := storeBytes fs.dev (fs.geo.offsetOf block) fs.geo.blksize buffer }

/-- `ext2_zero_blocks` of one block; the zeroed buffer is allocated on the first call. -/
def ext2ZeroBlock (block : Nat) : FsCmd Unit := do
  kmallocOp
  ext2WriteBlock (fun _ => 0) block

/-! ## Inodes -/

/-- The check that both `ext2_read_inode` and `ext2_update_inode` make of the location of
an inode table. -/
def Ext2Filesystem.tableInRange (fs : Ext2Filesystem) (group : Nat) : Bool :=
  let blockno := (fs.groups group).inodeTable
  blockno ≠ 0 ∧ fs.geo.firstDataBlock ≤ blockno ∧
    blockno + fs.geo.inodeBlocksPerGroup - 1 < fs.geo.blocksCount

/-- `ext2_read_inode`: the cache has four slots, which are filled in turn. -/
def ext2ReadInode (ino : Nat) : FsCmd Ext2Inode := do
  let fs ← Cmd.get
  if ino = 0 ∨ fs.geo.inodesCount < ino then Cmd.fail (.call .EINVAL)
  else
    match fs.icache.find? fun e => e.1 = ino with
    | some e => pure e.2
    | none =>
      let group := (ino - 1) / fs.geo.inodesPerGroup
      if fs.geo.groupDescCount < group then Cmd.fail (.call .EINVAL)
      else if ¬fs.tableInRange group then Cmd.fail (.call .EINVAL)
      else do
        deviceOp
        Cmd.modify fun fs =>
          { fs with
            icache := fs.icache.set fs.icacheNext (ino, fs.inodes ino)
            icacheNext := (fs.icacheNext + 1) % 4 }
        pure (fs.inodes ino)

/-- The cache entry of inode `ino`, if there is one, takes the new inode. -/
def cacheInode (ino : Nat) (inode : Ext2Inode) (icache : List (Nat × Ext2Inode)) :
    List (Nat × Ext2Inode) :=
  match icache.findIdx? fun e => e.1 = ino with
  | some k => icache.set k (ino, inode)
  | none => icache

/-- `ext2_update_inode` of the first 128 bytes of an inode. -/
def ext2UpdateInode (ino : Nat) (inode : Ext2Inode) : FsCmd Unit := do
  let fs ← Cmd.get
  if hasFlag fs.geo.mntflags MS_RDONLY then Cmd.fail (.call .EROFS)
  else do
    kmallocOp
    Cmd.when (128 < fs.geo.inodeSize) (ext2ReadInode ino >>= fun _ => pure ())
    Cmd.modify fun fs => { fs with icache := cacheInode ino inode fs.icache }
    let group := (ino - 1) / fs.geo.inodesPerGroup
    if ¬fs.tableInRange group then Cmd.fail (.call .EINVAL)
    else do
      deviceOp
      deviceOp
      Cmd.modify fun fs => { fs with inodes := Function.update fs.inodes ino inode }

/-! ## The block count of an inode -/

/-- The block count, with its high half where the file system has one. -/
def Ext2Filesystem.iblk (fs : Ext2Filesystem) (inode : Ext2Inode) : Nat :=
  if hasFlag fs.featureRoCompat EXT4_FT_RO_COMPAT_HUGE_FILE then
    inode.blocks + inode.blocksHi * 4294967296
  else inode.blocks

/-- What one block adds to the block count. -/
def Ext2Filesystem.iblkUnit (fs : Ext2Filesystem) (inode : Ext2Inode) : Nat :=
  (if hasFlag fs.featureRoCompat EXT4_FT_RO_COMPAT_HUGE_FILE ∧
      hasFlag inode.flags EXT4_HUGE_FILE_FL then 1
    else fs.geo.blksize / 512) * fs.geo.clusterRatio

/-- Store the block count `b`. -/
def Ext2Filesystem.setIblk (fs : Ext2Filesystem) (inode : Ext2Inode) (b : Nat) : Ext2Inode :=
  if hasFlag fs.featureRoCompat EXT4_FT_RO_COMPAT_HUGE_FILE then
    { inode with blocks := b % 4294967296, blocksHi := b / 4294967296 % 65536 }
  else { inode with blocks := b % 4294967296 }

def ext2IblkAddBlocks (fs : Ext2Filesystem) (inode : Ext2Inode) (nblocks : Nat) :
    Except Failure Ext2Inode :=
  let b := fs.iblk inode + nblocks * fs.iblkUnit inode
  if ¬hasFlag fs.featureRoCompat EXT4_FT_RO_COMPAT_HUGE_FILE ∧ 0xffffffff < b then
    .error (.call .EOVERFLOW)
  else .ok (fs.setIblk inode b)

def ext2IblkSubBlocks (fs : Ext2Filesystem) (inode : Ext2Inode) (nblocks : Nat) :
    Except Failure Ext2Inode :=
  let n := nblocks * fs.iblkUnit inode
  if fs.iblk inode < n then .error (.call .EOVERFLOW)
  else .ok (fs.setIblk inode (fs.iblk inode - n))

/-! ## The bitmaps and the allocation of blocks -/

/-- Set or clear one bit; a number outside the bitmap is ignored. -/
def Bitmap32.put (m : Bitmap32) (arg : Nat) (used : Bool) : Bitmap32 :=
  if 0xffffffff < arg ∨ arg < m.start ∨ m.fin < arg then m
  else { m with bit := Function.update m.bit arg used }

/-- The first clear bit among the `n` bits from `start` on. -/
def firstClear (bit : Nat → Bool) : Nat → Nat → Option Nat
  | 0, _ => none
  | n + 1, start => if bit start then firstClear bit n (start + 1) else some start

/-- `ext2_find_first_zero_bitmap` of a 32-bit bitmap. -/
def ext2FindFirstZeroBitmap (m : Bitmap32) (start fin : Nat) : Except Errno Nat :=
  if 0xffffffff < start ∨ 0xffffffff < fin then .error .EINVAL
  else if start < m.start ∨ m.fin < fin ∨ fin < start then .error .EINVAL
  else
    match firstClear m.bit (fin + 1 - start) start with
    | some b => .ok b
    | none => .error .ENOENT

/-- `ext2_group_of_block`, with the 64-bit subtraction. -/
def Geometry.groupOfBlock (g : Geometry) (block : Nat) : Nat :=
  (block + 18446744073709551616 - g.firstDataBlock) % 18446744073709551616 / g.blocksPerGroup
    % 4294967296

/-- The goal from which `ext2_new_block` searches. -/
def Geometry.blockGoal (g : Geometry) (goal : Nat) : Nat :=
  if goal = 0 ∨ g.blocksCount ≤ goal then goal / g.clusterRatio * g.clusterRatio else goal

/-- The search of `ext2_new_block`: from the goal to the last block, then from the first
data block to the goal. -/
def ext2NewBlockIn (g : Geometry) (m : Bitmap32) (goal : Nat) : Except Errno Nat :=
  let goal := g.blockGoal goal
  match ext2FindFirstZeroBitmap m goal (g.blocksCount - 1) with
  | .error .ENOENT =>
    if goal ≠ g.firstDataBlock then
      ext2FindFirstZeroBitmap m g.firstDataBlock
        ((goal + 18446744073709551615) % 18446744073709551616)
    else .error .ENOENT
  | r => r

def ext2HasGroupDescChecksum (fs : Ext2Filesystem) : Bool :=
  hasFlag fs.featureRoCompat EXT4_FT_RO_COMPAT_GDT_CSUM ||
    hasFlag fs.featureRoCompat EXT4_FT_RO_COMPAT_METADATA_CSUM

def ext2ClearBlockUninit (fs : Ext2Filesystem) (group : Nat) : Ext2Filesystem :=
  if fs.geo.groupDescCount ≤ group ∨ ¬ext2HasGroupDescChecksum fs ∨
      ¬(fs.groups group).blockUninit then fs
  else
    { fs with
      groups := Function.update fs.groups group { fs.groups group with blockUninit := false } }

/-- `ext2_new_block` of the block bitmap of the file system. -/
def ext2NewBlock (goal : Nat) : FsCmd Nat := do
  let fs ← Cmd.get
  match ext2NewBlockIn fs.geo fs.blockBitmap goal with
  | .ok b => do
    Cmd.modify fun fs => ext2ClearBlockUninit fs (fs.geo.groupOfBlock b)
    pure b
  | .error e => Cmd.fail (.space e)

/-- The width of the free counts: 16 bits in a group and 32 bits in the superblock,
doubled on a file system with 64-bit block numbers. -/
def Ext2Filesystem.countBits (fs : Ext2Filesystem) (width : Nat) : Nat :=
  if hasFlag fs.featureIncompat EXT4_FT_INCOMPAT_64BIT then 2 * width else width

/-- `count - inuse * n`, stored in `bits` bits. -/
def adjustCount (bits count n : Nat) (inuse : Bool) : Nat :=
  if inuse then (count + 2 ^ bits - n % 2 ^ bits) % 2 ^ bits else (count + n) % 2 ^ bits

/-- `ext2_block_alloc_stats`: `inuse` is 1 or -1. -/
def ext2BlockAllocStats (fs : Ext2Filesystem) (block : Nat) (inuse : Bool) : Ext2Filesystem :=
  if fs.geo.blocksCount ≤ block then fs
  else
    let group := fs.geo.groupOfBlock block
    let desc := fs.groups group
    { fs with
      blockBitmap := fs.blockBitmap.put block inuse
      groups := Function.update fs.groups group
        { desc with
          freeBlocksCount := adjustCount (fs.countBits 16) desc.freeBlocksCount 1 inuse
          blockUninit := false }
      freeBlocksCount :=
        adjustCount (fs.countBits 32) fs.freeBlocksCount fs.geo.clusterRatio inuse }

/-- `ext2_alloc_block` with a buffer: the new block is zeroed on the device before it is
marked in use. -/
def ext2AllocBlock (goal : Nat) : FsCmd Nat := do
  let block ← ext2NewBlock goal
  ext2WriteBlock (fun _ => 0) block
  Cmd.modify fun fs => ext2BlockAllocStats fs block true
  pure block

/-- `ext2_alloc_block` without a buffer. -/
def ext2AllocBlockZeroed (goal : Nat) : FsCmd Nat := do
  let block ← ext2NewBlock goal
  ext2ZeroBlock block
  Cmd.modify fun fs => ext2BlockAllocStats fs block true
  pure block

/-! ## The allocation of inodes -/

/-- `ext2_group_of_inode`, with the 64-bit subtraction. -/
def Geometry.groupOfInode (g : Geometry) (ino : Nat) : Nat :=
  (ino + 18446744073709551615) % 18446744073709551616 / g.inodesPerGroup % 4294967296

/-- What `ext2_inode_alloc_stats` stores in `bg_itable_unused`. -/
def Ext2Filesystem.itableUnused (fs : Ext2Filesystem) (group ino : Nat) : Nat :=
  let perGroup := fs.geo.inodesPerGroup
  let unused := (fs.groups group).itableUnused
  let firstUnused := (perGroup + 4294967296 - unused + group * perGroup + 1) % 4294967296
  if ext2HasGroupDescChecksum fs ∧ firstUnused ≤ ino then
    (group * perGroup + perGroup + 18446744073709551616 - ino) % 2 ^ fs.countBits 16
  else unused

/-- `ext2_inode_alloc_stats`: `inuse` is 1 or -1. -/
def ext2InodeAllocStats (fs : Ext2Filesystem) (ino : Nat) (inuse isdir : Bool) : Ext2Filesystem :=
  if fs.geo.inodesCount < ino then fs
  else
    let group := fs.geo.groupOfInode ino
    let desc := fs.groups group
    { fs with
      inodeBitmap := fs.inodeBitmap.put ino inuse
      groups := Function.update fs.groups group
        { desc with
          freeInodesCount := adjustCount (fs.countBits 16) desc.freeInodesCount 1 inuse
          -- The count goes down for a new directory and up for one that is gone.
          usedDirsCount :=
            if isdir then adjustCount (fs.countBits 16) desc.usedDirsCount 1 inuse
            else desc.usedDirsCount
          itableUnused := fs.itableUnused group ino
          inodeUninit := false }
      freeInodesCount := adjustCount 32 fs.freeInodesCount 1 inuse }

def ext2CheckInodeUninit (fs : Ext2Filesystem) (group : Nat) : Ext2Filesystem :=
  if fs.geo.groupDescCount ≤ group ∨ ¬ext2HasGroupDescChecksum fs ∨
      ¬(fs.groups group).inodeUninit then fs
  else
    let first := (group * fs.geo.inodesPerGroup + 1) % 4294967296
    { fs with
      inodeBitmap := (List.range fs.geo.inodesPerGroup).foldl
        (fun m i => m.put (first + i) false) fs.inodeBitmap
      groups := Function.update fs.groups group
        { fs.groups group with inodeUninit := false, blockUninit := false } }

/-- The last inode that the loop of `ext2_new_inode` looks at from `i` on: it goes one
further than the group of `i`. -/
def Geometry.searchUpto (g : Geometry) (start i : Nat) : Nat :=
  let upto := i + g.inodesPerGroup -
    (i + 18446744073709551615) % 18446744073709551616 % g.inodesPerGroup
  let upto := if i < start ∧ start ≤ upto then start - 1 else upto
  if g.inodesCount < upto then g.inodesCount else upto

/-- The loop of `ext2_new_inode`, which goes round the inodes once. -/
def searchInode (start : Nat) : Nat → Nat → FsCmd Nat
  | 0, _ => Cmd.fail (.space .ENOSPC)
  | fuel + 1, i => do
    Cmd.modify fun fs => ext2CheckInodeUninit fs (fs.geo.groupOfInode i)
    let fs ← Cmd.get
    let upto := fs.geo.searchUpto start i
    match ext2FindFirstZeroBitmap fs.inodeBitmap i upto with
    | .ok first => pure first
    | .error .ENOENT =>
      let next := if fs.geo.inodesCount < upto + 1 then fs.geo.firstInode else upto + 1
      if next = start then pure next else searchInode start fuel next
    | .error _ => Cmd.fail (.space .ENOSPC)

def Bitmap32.test (m : Bitmap32) (arg : Nat) : Bool :=
  if 0xffffffff < arg ∨ arg < m.start ∨ m.fin < arg then false else m.bit arg

/-- The inode from which `ext2_new_inode` searches. -/
def Geometry.startInode (g : Geometry) (dir : Nat) : Nat :=
  let group := (dir - 1) / g.inodesPerGroup % 4294967296
  let start := if 0 < dir then (group * g.inodesPerGroup + 1) % 4294967296 else 0
  max start g.firstInode

/-- `ext2_new_inode` of the inode bitmap of the file system. Two rounds over all inodes are
more than the loop can take. -/
def ext2NewInode (dir : Nat) : FsCmd Nat := do
  let fs ← Cmd.get
  let start := fs.geo.startInode dir
  if fs.geo.inodesCount < start then Cmd.fail (.space .ENOSPC)
  else do
    let i ← searchInode start (2 * fs.geo.inodesCount + 2) start
    let fs ← Cmd.get
    if fs.inodeBitmap.test i then Cmd.fail (.space .ENOSPC) else pure i

end Os0
