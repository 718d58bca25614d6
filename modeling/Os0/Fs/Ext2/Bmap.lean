import Os0.Fs.Ext2.Model

/-! The block map of an inode: looking a logical block up, allocating and setting it
(`fs/ext2/bmap.c`), and releasing every block from some point on (`ext2_dealloc_blocks` in
`fs/ext2/util.c`). Inodes with extents are left to `Failure.extents`. -/
namespace Os0

open Bytes

/-- The flags of `ext2_bmap`. -/
structure BmapFlags where
  alloc : Bool
  set : Bool
  zero : Bool
  deriving DecidableEq, Repr

/-- The pointers of a block read as an array of 32-bit numbers. -/
def blockPtr (buffer : Mem) (i : Nat) : Nat := buffer.word (4 * i)

/-- `block_ind_bmap`: look up, set or allocate entry `blockno` of the indirect block `ind`.
The source means to count the new block in `*blocks_alloc` but increments the pointer, so
no caller sees it counted. -/
def blockIndBmap (flags : BmapFlags) (ind blockno result : Nat) : FsCmd Nat := do
  if ind = 0 then
    if flags.set then Cmd.fail (.call .EINVAL) else pure 0
  else do
    let buffer ← ext2ReadBlock ind
    if flags.set then do
      ext2WriteBlock (buffer.setWord (4 * blockno) result) ind
      pure result
    else
      let b := blockPtr buffer blockno
      if b = 0 ∧ flags.alloc then do
        let goal := if blockno ≠ 0 then blockPtr buffer (blockno - 1) else ind
        let b ← ext2AllocBlock goal
        ext2WriteBlock (buffer.setWord (4 * blockno) b) ind
        pure b
      else pure b

def blockDindBmap (flags : BmapFlags) (dind blockno result : Nat) : FsCmd Nat := do
  let fs ← Cmd.get
  let b ← blockIndBmap { flags with set := false } dind (blockno / fs.geo.addrPerBlock) 0
  blockIndBmap flags b (blockno % fs.geo.addrPerBlock) result

def blockTindBmap (flags : BmapFlags) (tind blockno result : Nat) : FsCmd Nat := do
  let fs ← Cmd.get
  let b ← blockDindBmap { flags with set := false } tind (blockno / fs.geo.addrPerBlock) 0
  blockIndBmap flags b (blockno % fs.geo.addrPerBlock) result

def ext2FileBlockOffsetTooBig (g : Geometry) (inode : Ext2Inode) (offset : Nat) : Bool :=
  if 4294967295 ≤ offset then true
  else if hasFlag inode.flags EXT4_EXTENTS_FL then false
  else
    g.addrPerBlock + g.addrPerBlock * g.addrPerBlock +
      g.addrPerBlock * g.addrPerBlock * g.addrPerBlock + EXT2_NDIR_BLOCKS ≤ offset

/-- `ext2_is_inline_symlink`. -/
def Ext2Inode.isInlineSymlink (i : Ext2Inode) : Bool := isType i.mode S_IFLNK ∧ i.iSize < 60

/-- `ext2_find_inode_goal` of an inode without extents. -/
def ext2FindInodeGoal (g : Geometry) (ino : Nat) (inode : Ext2Inode) : Nat :=
  if ¬inode.isInlineSymlink ∧ ¬hasFlag inode.flags EXT4_INLINE_DATA_FL ∧ inode.block 0 ≠ 0 then
    inode.block 0
  else
    let group := (ino - 1) / g.inodesPerGroup
    let group :=
      if g.logGroupsPerFlex ≠ 0 then group / 2 ^ g.logGroupsPerFlex * 2 ^ g.logGroupsPerFlex
      else group
    g.firstDataBlock + g.blocksPerGroup * group

/-- What `ext2_bmap` works on: the file system, the inode, and `*physblock`. -/
structure MapState where
  fs : Ext2Filesystem
  inode : Ext2Inode
  phys : Nat

abbrev MapCmd := Cmd MapState Failure

def MapState.onFs {α : Type} (c : FsCmd α) : MapCmd α :=
  Cmd.zoom MapState.fs (fun s fs => { s with fs := fs }) c

def MapState.setPhys (b : Nat) : MapCmd Unit := Cmd.modify fun s => { s with phys := b }

def Ext2Inode.setBlock (i : Ext2Inode) (k b : Nat) : Ext2Inode :=
  { i with block := Function.update i.block k b }

def MapState.setBlock (k b : Nat) : MapCmd Unit :=
  Cmd.modify fun s => { s with inode := s.inode.setBlock k b }

/-- A logical block below `EXT2_NDIR_BLOCKS`. The result tells how many blocks were
counted as allocated and whether the inode was changed otherwise. -/
def bmapDirect (ino : Nat) (flags : BmapFlags) (block : Nat) : MapCmd (Nat × Bool) := do
  let s ← Cmd.get
  if flags.set then do
    MapState.setBlock block s.phys
    pure (0, true)
  else do
    MapState.setPhys (s.inode.block block)
    if s.inode.block block = 0 ∧ flags.alloc then do
      let goal :=
        if block = 0 then ext2FindInodeGoal s.fs.geo ino s.inode else s.inode.block (block - 1)
      let b ← MapState.onFs (ext2AllocBlock goal)
      MapState.setBlock block b
      MapState.setPhys b
      pure (1, false)
    else pure (0, false)

/-- The branch of `ext2_bmap` for the indirect block in slot `root` of the inode, which is
followed by `walk`; a missing indirect block is allocated next to the slot before. -/
def bmapIndirect (walk : Nat → Nat → FsCmd Nat) (root : Nat) (flags : BmapFlags) :
    MapCmd (Nat × Bool) := do
  let s ← Cmd.get
  let b := s.inode.block root
  if b = 0 then
    if ¬flags.alloc then
      if flags.set then Cmd.fail (.call .EINVAL) else pure (0, false)
    else do
      let b ← MapState.onFs (ext2AllocBlock (s.inode.block (root - 1)))
      MapState.setBlock root b
      let r ← MapState.onFs (walk b s.phys)
      MapState.setPhys r
      pure (1, false)
  else do
    let r ← MapState.onFs (walk b s.phys)
    MapState.setPhys r
    pure (0, false)

/-- The choice of the branch by the logical block. -/
def bmapLevel (ino : Nat) (flags : BmapFlags) (apb block : Nat) : MapCmd (Nat × Bool) :=
  if block < EXT2_NDIR_BLOCKS then bmapDirect ino flags block
  else
    let block := block - EXT2_NDIR_BLOCKS
    if block < apb then
      bmapIndirect (fun b => blockIndBmap flags b block) EXT2_IND_BLOCK flags
    else
      let block := block - apb
      if block < apb * apb then
        bmapIndirect (fun b => blockDindBmap flags b block) EXT2_DIND_BLOCK flags
      else
        let block := block - apb * apb
        bmapIndirect (fun b => blockTindBmap flags b block) EXT2_TIND_BLOCK flags

/-- The end of `ext2_bmap`: count the new blocks and write the inode back. An overflow of
the block count is not reported. -/
def bmapUpdate (ino blocksAlloc : Nat) : MapCmd Unit := do
  let s ← Cmd.get
  let inode :=
    match ext2IblkAddBlocks s.fs s.inode blocksAlloc with
    | .ok inode => inode
    | .error _ => s.inode
  Cmd.modify fun s => { s with inode := inode }
  MapState.onFs (ext2UpdateInode ino inode)

/-- `ext2_bmap` with an inode; `ownBuffer` is a call with `blockbuf` set to `NULL`. -/
def ext2Bmap (ino : Nat) (flags : BmapFlags) (block : Nat) (ownBuffer : Bool) :
    MapCmd Unit := do
  Cmd.when (¬flags.set) (MapState.setPhys 0)
  let s ← Cmd.get
  if ext2FileBlockOffsetTooBig s.fs.geo s.inode block then Cmd.fail (.call .EFBIG)
  else if hasFlag s.inode.flags EXT4_INLINE_DATA_FL then Cmd.fail (.call .EINVAL)
  else do
    Cmd.when ownBuffer (MapState.onFs kmallocOp)
    if hasFlag s.inode.flags EXT4_EXTENTS_FL then Cmd.fail .extents
    else do
      let changed ← bmapLevel ino flags s.fs.geo.addrPerBlock block
      let t ← Cmd.get
      Cmd.when (t.phys ≠ 0 ∧ flags.zero) (MapState.onFs (ext2ZeroBlock t.phys))
      Cmd.when (changed.1 ≠ 0 ∨ changed.2) (bmapUpdate ino changed.1)

/-! ## Releasing blocks -/

/-- What `ext2_dealloc_indirect_block` works on: the array of pointers is a part of the
inode or a buffer. -/
structure DeallocState where
  fs : Ext2Filesystem
  inode : Ext2Inode
  ptrs : Nat → Nat

abbrev DeallocCmd := Cmd DeallocState Failure

def DeallocState.onFs {α : Type} (c : FsCmd α) : DeallocCmd α :=
  Cmd.zoom DeallocState.fs (fun s fs => { s with fs := fs }) c

/-- A block that holds the array `ptrs`. -/
def ptrBlock (ptrs : Nat → Nat) : Mem := fun a => UInt8.ofNat (ptrs (a / 4) / 256 ^ (a % 4))

def ext2CheckZeroBlock (buffer : Mem) (blksize : Nat) : Bool :=
  (List.range blksize).all fun i => buffer i = 0

/-- Release in the block `b` that a pointer of a level above 0 leads to, and tell whether
nothing is left in it. -/
def deallocChild (dealloc : Nat → Nat → Nat → DeallocCmd Unit) (b offset start count : Nat) :
    DeallocCmd Bool := do
  let s ← Cmd.get
  let buffer ← DeallocState.onFs (ext2ReadBlock b)
  let first := (if offset < start then start - offset else 0) % 4294967296
  let rest := (count + 18446744073709551616 - offset) % 18446744073709551616
  let buffer ←
    Cmd.zoom (fun s : DeallocState => { s with ptrs := blockPtr buffer })
      (fun s t => { t with ptrs := s.ptrs }) do
        dealloc first rest (s.fs.geo.blksize >>> 2)
        let t ← Cmd.get
        pure (ptrBlock t.ptrs)
  DeallocState.onFs (ext2WriteBlock buffer b)
  pure (ext2CheckZeroBlock buffer s.fs.geo.blksize)

/-- Free the block in slot `i` of the array. -/
def DeallocState.free (i : Nat) : DeallocCmd Unit :=
  Cmd.modify fun s =>
    { s with
      fs := ext2BlockAllocStats s.fs (s.ptrs i) false
      ptrs := Function.update s.ptrs i 0 }

/-- The loop over the pointers, from the `i`-th on. `child` releases in the block that a
pointer leads to and tells whether the block itself can go. -/
def deallocSlots (child : Nat → Nat → Nat → Nat → DeallocCmd Bool) (level start count : Nat) :
    Nat → Nat → Nat → DeallocCmd Nat
  | 0, _, freed => pure freed
  | left + 1, i, freed => do
    let s ← Cmd.get
    let inc := 2 ^ ((s.fs.geo.blockSizeBits - 2) * level)
    let offset := i * inc
    if (start + count) % 18446744073709551616 ≤ offset then pure freed
    else if s.ptrs i = 0 ∨ offset + inc ≤ start then
      deallocSlots child level start count left (i + 1) freed
    else do
      let empty ← child (s.ptrs i) offset start count
      if empty then do
        DeallocState.free i
        deallocSlots child level start count left (i + 1) (freed + 1)
      else deallocSlots child level start count left (i + 1) freed

/-- The end of `ext2_dealloc_indirect_block`: the block count of the inode goes down by
what was released in this array. -/
def deallocCount (freed : Nat) : DeallocCmd Unit := do
  let s ← Cmd.get
  match ext2IblkSubBlocks s.fs s.inode freed with
  | .ok inode => Cmd.modify fun s => { s with inode := inode }
  | .error e => Cmd.fail e

def ext2DeallocIndirectBlock : Nat → Nat → Nat → Nat → DeallocCmd Unit
  | 0, start, count, max => do
    let freed ← deallocSlots (fun _ _ _ _ => pure true) 0 start count max 0 0
    deallocCount freed
  | level + 1, start, count, max => do
    let freed ←
      deallocSlots (deallocChild (ext2DeallocIndirectBlock level)) (level + 1) start count max 0 0
    deallocCount freed

/-- A file system and an inode of it in memory. -/
structure InodeState where
  fs : Ext2Filesystem
  inode : Ext2Inode

abbrev InodeCmd := Cmd InodeState Failure

def InodeState.onFs {α : Type} (c : FsCmd α) : InodeCmd α :=
  Cmd.zoom InodeState.fs (fun s fs => { s with fs := fs }) c

/-- Run on the slots of the inode from `base` on as the array of pointers. -/
def InodeState.onSlots {α : Type} (base : Nat) (c : DeallocCmd α) : InodeCmd α :=
  Cmd.zoom (fun s => ⟨s.fs, s.inode, fun i => s.inode.block (base + i)⟩)
    (fun _ t =>
      { fs := t.fs
        inode :=
          { t.inode with
            block := fun k => if base ≤ k then t.ptrs (k - base) else t.inode.block k } }) c

/-- The levels of `ext2_dealloc_indirect`: `left` levels remain, the slots of this one start
at `base`, there are `num` of them, and together they map `max` logical blocks. -/
def deallocLevels : Nat → Nat → Nat → Nat → Nat → Nat → Nat → InodeCmd Unit
  | 0, _, _, _, _, _, _ => pure ()
  | left + 1, level, base, num, max, start, count => do
    let s ← Cmd.get
    let next := if level = 0 then s.fs.geo.addrPerBlock else max * s.fs.geo.addrPerBlock
    if start < max then do
      InodeState.onSlots base (ext2DeallocIndirectBlock level start count num)
      if max < count then
        deallocLevels left (level + 1) (base + num) 1 next 0 (count - (max - start))
      else pure ()
    else deallocLevels left (level + 1) (base + num) 1 next (start - max) count

/-- `ext2_dealloc_indirect` from `start` to the end of the file. -/
def ext2DeallocIndirect (start fin : Nat) : InodeCmd Unit := do
  if 0xffffffff < start then pure ()
  else do
    let count :=
      if 0xffffffff ≤ fin ∨ 0xffffffff ≤ fin - start + 1 then 18446744073709551615 - start
      else fin - start + 1
    InodeState.onFs kmallocOp
    deallocLevels 4 0 0 EXT2_NDIR_BLOCKS EXT2_NDIR_BLOCKS start count

/-- `ext2_dealloc_blocks` with an inode. -/
def ext2DeallocBlocks (ino start fin : Nat) : InodeCmd Unit := do
  let s ← Cmd.get
  if fin < start then Cmd.fail (.call .EINVAL)
  else if hasFlag s.inode.flags EXT4_INLINE_DATA_FL then Cmd.fail (.call .ENOTSUP)
  else if hasFlag s.inode.flags EXT4_EXTENTS_FL then Cmd.fail .extents
  else do
    ext2DeallocIndirect start fin
    let s ← Cmd.get
    InodeState.onFs (ext2UpdateInode ino s.inode)

end Os0
