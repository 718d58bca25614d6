import Os0.Fs.Ext2.Vfs

/-! The iteration over the blocks of an inode (`ext2_block_iterate` in `fs/ext2/util.c`).
No caller sets `BLOCK_FLAG_DEPTH_TRAVERSE`, `BLOCK_FLAG_DATA_ONLY` or
`BLOCK_FLAG_NO_LARGE`; the translator block of file systems made by the Hurd is left out,
and inodes with extents are left to `Failure.extents`. -/
namespace Os0

open Bytes

/-- `BLOCK_CHANGED`, `BLOCK_ABORT` and `BLOCK_ERROR` of a return value. -/
structure BlockBits where
  changed : Bool
  abort : Bool
  error : Bool
  deriving DecidableEq, Repr

namespace BlockBits

def none : BlockBits := ⟨false, false, false⟩

def or (a b : BlockBits) : BlockBits :=
  ⟨a.changed || b.changed, a.abort || b.abort, a.error || b.error⟩

end BlockBits

/-- A file system, the inode whose blocks are visited, and what the visitor keeps. -/
structure DirState (σ : Type) where
  fs : Ext2Filesystem
  dir : VfsInode
  priv : σ

/-- The function called for each block: from the block and its logical number, the bits and
the block to store in its place. Blocks of pointers have the numbers -1, -2 and -3. -/
abbrev BlockFunc (σ : Type) := Nat → Int → DirState σ → BlockBits × Nat × DirState σ

/-- `Ext2BlockContext`; `buffers` is the memory from `b_ind_buf` on, which `b_dind_buf` and
`b_tind_buf` are a part of. -/
structure BlockContext (σ : Type) where
  state : DirState σ
  buffers : Mem
  blkcnt : Int
  err : Option Failure

/-- Where a block number is stored: in a slot of the inode or in a buffer. -/
inductive BlockRef
  | slot (k : Nat)
  | buffer (a : Nat)

section

variable {σ : Type}

def DirState.blockAt (s : DirState σ) (k : Nat) : Nat := s.dir.file.inode.block k

def DirState.setBlock (s : DirState σ) (k b : Nat) : DirState σ :=
  { s with dir := s.dir.setInode (s.dir.file.inode.setBlock k b) }

/-- Run a command on the file system; the error stays with the caller. -/
def DirState.onFs {α : Type} (c : FsCmd α) (s : DirState σ) : Except Failure α × DirState σ :=
  ((c s.fs).1, { s with fs := (c s.fs).2 })

def BlockRef.get (c : BlockContext σ) : BlockRef → Nat
  | .slot k => c.state.blockAt k
  | .buffer a => c.buffers.word a

def BlockRef.put (c : BlockContext σ) (b : Nat) : BlockRef → BlockContext σ
  | .slot k => { c with state := c.state.setBlock k b }
  | .buffer a => { c with buffers := c.buffers.setWord a b }

/-- Call the function for the block that `ref` names. -/
def BlockContext.visit (func : BlockFunc σ) (ref : BlockRef) (blkcnt : Int)
    (c : BlockContext σ) : BlockBits × BlockContext σ :=
  let (bits, b, state) := func (ref.get c) blkcnt c.state
  (bits, ref.put { c with state := state } (b % 4294967296))

/-- The loop over the pointers in the buffer at `base`. Places without a block are passed
over, unless blocks are to be appended. The result is what `changed` and `ret` have got. -/
def iterateSlots (append : Bool) (skip : Nat)
    (visit : BlockRef → BlockContext σ → BlockBits × BlockContext σ) (base : Nat) :
    Nat → Nat → BlockBits → BlockContext σ → BlockBits × BlockBits × BlockContext σ
  | 0, _, changed, c => (changed, .none, c)
  | left + 1, i, changed, c =>
    if ¬append ∧ c.buffers.word (base + 4 * i) = 0 then
      iterateSlots append skip visit base left (i + 1) changed
        { c with blkcnt := c.blkcnt + skip + 1 }
    else
      let (bits, c) := visit (.buffer (base + 4 * i)) c
      let changed := changed.or bits
      if bits.abort ∨ bits.error then (changed, { bits with changed := false }, c)
      else
        iterateSlots append skip visit base left (i + 1) changed
          { c with blkcnt := c.blkcnt + 1 }

/-- What the loop of `ext2_block_iterate_ind` does for a pointer; an error bit is of no
account there. -/
def visitData (func : BlockFunc σ) (ref : BlockRef) (c : BlockContext σ) :
    BlockBits × BlockContext σ :=
  let (bits, c) := c.visit func ref c.blkcnt
  ({ bits with error := false }, c)

/-- The end of `ext2_block_iterate_ind` and its relatives. -/
def iterateEnd (readOnly : Bool) (level : Nat) (ref : BlockRef) (ret changed : BlockBits)
    (c : BlockContext σ) : BlockBits × BlockContext σ :=
  if readOnly ∧ changed.changed then
    (changed.or ⟨false, true, true⟩, { c with err := some (.call .EROFS) })
  else if changed.changed then
    let base := level * c.state.fs.geo.blksize
    match DirState.onFs (ext2WriteBlock (fun i => c.buffers (base + i)) (ref.get c)) c.state with
    | (.ok _, state) => (ret, { c with state := state, err := none })
    | (.error e, state) =>
      (ret.or ⟨false, true, true⟩, { c with state := state, err := some e })
  else (ret, c)

/-- The common body of `ext2_block_iterate_ind`, `ext2_block_iterate_dind` and
`ext2_block_iterate_tind`, which are levels 0, 1 and 2. `limit` is `sb_blksize`, four times
the number of pointers in a block, so the loop runs on into the memory behind the buffer. -/
def iterateLevel (append readOnly : Bool) (func : BlockFunc σ) (level skip : Nat)
    (visit : BlockRef → BlockContext σ → BlockBits × BlockContext σ) (ref : BlockRef)
    (c : BlockContext σ) : BlockBits × BlockContext σ :=
  let (ret, c) := c.visit func ref (-(level + 1 : Int))
  let g := c.state.fs.geo
  let b := ref.get c
  if readOnly ∧ ret.changed then
    (ret.or ⟨false, true, true⟩, { c with err := some (.call .EROFS) })
  else if b = 0 ∨ ret.abort then
    (ret, { c with blkcnt := c.blkcnt + (g.blksize : Int) ^ (level + 1) })
  else if g.blocksCount ≤ b ∨ b < g.firstDataBlock then
    (ret.or ⟨false, false, true⟩, { c with err := some (.call .EINVAL) })
  else
    match DirState.onFs (ext2ReadBlock b) c.state with
    | (.error e, state) =>
      (ret.or ⟨false, false, true⟩, { c with state := state, err := some e })
    | (.ok block, state) =>
      let base := level * g.blksize
      let c :=
        { c with
          state := state
          err := none
          buffers := storeBytes c.buffers base g.blksize block }
      let (changed, stop, c) := iterateSlots append skip visit base g.blksize 0 .none c
      iterateEnd readOnly level ref (ret.or stop) changed c

def ext2BlockIterateInd (append readOnly : Bool) (func : BlockFunc σ) :
    BlockRef → BlockContext σ → BlockBits × BlockContext σ :=
  iterateLevel append readOnly func 0 0 (visitData func)

def ext2BlockIterateDind (append readOnly : Bool) (func : BlockFunc σ) (ref : BlockRef)
    (c : BlockContext σ) : BlockBits × BlockContext σ :=
  iterateLevel append readOnly func 1 c.state.fs.geo.blksize
    (ext2BlockIterateInd append readOnly func) ref c

def ext2BlockIterateTind (append readOnly : Bool) (func : BlockFunc σ) (ref : BlockRef)
    (c : BlockContext σ) : BlockBits × BlockContext σ :=
  iterateLevel append readOnly func 2 c.state.fs.geo.blksize
    (ext2BlockIterateDind append readOnly func) ref c

/-- The loop over the direct blocks, from slot `i` on. -/
def iterateDirect (append : Bool) (func : BlockFunc σ) :
    Nat → Nat → BlockBits → BlockContext σ → BlockBits × BlockContext σ
  | 0, _, ret, c => (ret, c)
  | left + 1, i, ret, c =>
    if c.state.blockAt i ≠ 0 ∨ append then
      let (bits, c) := c.visit func (.slot i) c.blkcnt
      let ret := ret.or bits
      if ret.abort then (ret, c)
      else iterateDirect append func left (i + 1) ret { c with blkcnt := c.blkcnt + 1 }
    else iterateDirect append func left (i + 1) ret { c with blkcnt := c.blkcnt + 1 }

/-- One of the three slots behind the direct blocks; `count` logical blocks are passed over
where there is nothing. -/
def iterateSlot (append : Bool) (k count : Nat)
    (walk : BlockRef → BlockContext σ → BlockBits × BlockContext σ)
    (r : BlockBits × BlockContext σ) : BlockBits × BlockContext σ :=
  let (ret, c) := r
  if ret.abort then r
  else if c.state.blockAt k ≠ 0 ∨ append then
    let (bits, c) := walk (.slot k) c
    (ret.or bits, c)
  else (ret, { c with blkcnt := c.blkcnt + count })

/-- All blocks, until one of them ends the iteration. -/
def iterateAll (append readOnly : Bool) (func : BlockFunc σ) (c : BlockContext σ) :
    BlockBits × BlockContext σ :=
  let limit := c.state.fs.geo.addrPerBlock
  let (ret, c) := iterateDirect append func EXT2_NDIR_BLOCKS 0 .none c
  if ret.abort then (ret, c)
  else if readOnly ∧ ret.changed then
    (ret.or ⟨false, true, true⟩, { c with err := some (.call .EROFS) })
  else
    iterateSlot append EXT2_TIND_BLOCK 0 (ext2BlockIterateTind append readOnly func)
      (iterateSlot append EXT2_DIND_BLOCK (limit * limit)
        (ext2BlockIterateDind append readOnly func)
        (iterateSlot append EXT2_IND_BLOCK limit
          (ext2BlockIterateInd append readOnly func) (ret, c)))

/-- The end of `ext2_block_iterate`: a change writes the inode back, and the result of that
replaces what there was. -/
def iterateResult (ret : BlockBits) (c : BlockContext σ) : Except Failure Unit × DirState σ :=
  if ret.changed then
    DirState.onFs (ext2UpdateInode c.state.dir.ino c.state.dir.file.inode) c.state
  else if ret.error then
    match c.err with
    | some e => (.error e, c.state)
    | none => (.ok (), c.state)
  else (.ok (), c.state)

/-- `ext2_block_iterate` without a buffer. -/
def ext2BlockIterate (append readOnly : Bool) (func : BlockFunc σ) :
    Cmd (DirState σ) Failure Unit := fun s =>
  if hasFlag s.dir.file.inode.flags EXT4_INLINE_DATA_FL then (.error (.call .ENOTSUP), s)
  else
    match DirState.onFs kmallocOp s with
    | (.error e, s) => (.error e, s)
    | (.ok _, t) =>
      if hasFlag s.dir.file.inode.flags EXT4_EXTENTS_FL then (.error .extents, t)
      else
        let (ret, c) := iterateAll append readOnly func ⟨t, s.fs.heap s.fs.ops, 0, none⟩
        iterateResult ret c

end

end Os0
