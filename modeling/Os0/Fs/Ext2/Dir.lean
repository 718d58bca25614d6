import Os0.Fs.Ext2.Iterate

/-! Directories (`fs/ext2/link.c` and `fs/ext2/util.c`): the records of a directory block, the
iteration over them, and removing an entry. Metadata checksums are left out. -/
namespace Os0

open Bytes

/-! ## Records -/

/-- `d_inode` of the record at offset `o`. -/
def dInode (b : Mem) (o : Nat) : Nat := b.word o

def dRecLen (b : Mem) (o : Nat) : Nat := b.half (o + 4)

/-- `d_name_len`; the upper byte is the type of the file. -/
def dNameLen (b : Mem) (o : Nat) : Nat := b.half (o + 6)

/-- The length of the name of a record. -/
def nameLength (b : Mem) (o : Nat) : Nat := dNameLen b o % 256

/-- Byte `i` of `d_name`. -/
def dName (b : Mem) (o i : Nat) : UInt8 := b (o + 8 + i)

def setInode (b : Mem) (o v : Nat) : Mem := b.setWord o v
def setRecLen (b : Mem) (o v : Nat) : Mem := b.setHalf (o + 4) v
def setNameLen (b : Mem) (o v : Nat) : Mem := b.setHalf (o + 6) v

/-- `strncpy` of a name of its own length to `d_name`. -/
def setName (b : Mem) (o : Nat) (name : List UInt8) : Mem := fun a =>
  if o + 8 ≤ a ∧ a < o + 8 + name.length then name.getD (a - (o + 8)) 0 else b a

/-- `strncmp` of a name with as many bytes of `d_name` finds no difference. -/
def sameName (b : Mem) (o : Nat) (name : List UInt8) : Bool :=
  (List.range name.length).all fun i => dName b o i = name.getD i 0

/-- `ext2_get_rec_len`: blocks of 65536 bytes have an encoding of their own. -/
def ext2GetRecLen (blksize len : Nat) : Nat :=
  if blksize < 65536 then len
  else if len = 65535 ∨ len = 0 then blksize
  else len - len % 4 + len % 4 * 65536

/-! ## The records of a block -/

/-- `DIRENT_CHANGED` and `DIRENT_ABORT` of a return value. -/
structure DirentBits where
  changed : Bool
  abort : Bool
  deriving DecidableEq, Repr

def DirentBits.none : DirentBits := ⟨false, false⟩

/-- The function called for each record: from the buffer and the offset in it, the bits and
the buffer after the call. -/
abbrev DirentFunc (σ : Type) := Mem → Nat → DirState σ → DirentBits × Mem × DirState σ

/-- `Ext2DirContext`: its `d_err`, and what the function keeps. -/
structure DirContext (σ : Type) where
  err : Option Failure
  priv : σ

/-- How the loop of `ext2_process_dir_block` ends: at a record that makes no sense, or with
the value of the last call, whether a record was changed, and whether a call ended it. -/
inductive Scan (σ : Type)
  | corrupt (s : DirState σ)
  | ends (last : DirentBits) (changed abort : Bool) (buffer : Mem) (s : DirState σ)

section

variable {σ : Type}

/-- The record at `o` lies in the block and has room for its name. -/
def recordOk (blksize : Nat) (b : Mem) (o : Nat) : Bool :=
  let len := ext2GetRecLen blksize (dRecLen b o)
  ¬(blksize < o + len ∨ len < 8 ∨ len % 4 ≠ 0 ∨ len < nameLength b o + 8)

/-- The loop of `ext2_process_dir_block`; `empty` is `DIRENT_FLAG_EMPTY`. A record takes at
least 8 bytes, so the loop makes less than `blksize` turns. -/
def scanBlock (empty : Bool) (func : DirentFunc σ) (blksize : Nat) :
    Nat → Nat → DirentBits → Bool → Mem → DirState σ → Scan σ
  | 0, _, last, changed, b, s => .ends last changed false b s
  | fuel + 1, o, last, changed, b, s =>
    if blksize - 8 ≤ o then .ends last changed false b s
    else if ¬recordOk blksize b o then .corrupt s
    else if dInode b o = 0 ∧ ¬empty then
      scanBlock empty func blksize fuel (o + ext2GetRecLen blksize (dRecLen b o)) last changed b s
    else
      let (bits, b', s) := func b o s
      let len := ext2GetRecLen blksize (dRecLen (if bits.changed then b' else b) o)
      if bits.abort then .ends bits (changed || bits.changed) true b' s
      else scanBlock empty func blksize fuel (o + len) bits (changed || bits.changed) b' s

/-- Run a record function on a context. -/
def DirState.inner (s : DirState (DirContext σ)) : DirState σ := ⟨s.fs, s.dir, s.priv.priv⟩

def DirState.outer (s : DirState σ) (err : Option Failure) : DirState (DirContext σ) :=
  ⟨s.fs, s.dir, ⟨err, s.priv⟩⟩

/-- `ext2_process_dir_block`. It takes a block of pointers for a directory block too. -/
def ext2ProcessDirBlock (empty : Bool) (func : DirentFunc σ) : BlockFunc (DirContext σ) :=
  fun block _ s =>
    match DirState.onFs (ext2ReadBlock block) s with
    | (.error e, s) => (⟨false, true, false⟩, block, { s with priv := ⟨some e, s.priv.priv⟩ })
    | (.ok b, s) =>
      let blksize := s.fs.geo.blksize
      match scanBlock empty func blksize blksize 0 .none false b s.inner with
      | .corrupt s => (⟨false, true, false⟩, block, s.outer (some (.call .EUCLEAN)))
      | .ends last changed abort b s =>
        if changed then
          match DirState.onFs (ext2WriteBlock b block) s with
          | (.error e, s) => (⟨false, true, false⟩, block, s.outer (some e))
          | (.ok _, s) => (⟨last.changed, last.abort || abort, false⟩, block, s.outer none)
        else (⟨last.changed, last.abort || abort, false⟩, block, s.outer none)

def ext2DirIterate (empty : Bool) (func : DirentFunc σ) : Cmd (DirState σ) Failure Unit := fun s =>
  if ¬isType s.dir.mode S_IFDIR then (.error (.call .ENOTDIR), s)
  else
    match DirState.onFs kmallocOp s with
    | (.error e, s) => (.error e, s)
    | (.ok _, s) =>
      match ext2BlockIterate false true (ext2ProcessDirBlock empty func) (s.outer none) with
      | (.error e, s) => (.error e, s.inner)
      | (.ok _, s) =>
        match s.priv.err with
        | some e => (.error e, s.inner)
        | none => (.ok (), s.inner)

end

/-- A file system and a directory on it. -/
abbrev DirCmd := Cmd VfsState Failure

/-- Iterate over the records of a directory, and get what the function has kept. -/
def iterateRecords {σ : Type} (empty : Bool) (func : DirentFunc σ) (priv : σ) : DirCmd σ :=
  Cmd.zoom (fun s : VfsState => (⟨s.fs, s.inode, priv⟩ : DirState σ)) (fun _ t => ⟨t.fs, t.dir⟩) do
    ext2DirIterate empty func
    let t ← Cmd.get
    pure t.priv

/-! ## Removing an entry -/

/-- `strcmp` of `d_name` with `.` or `..` finds no difference; a name need not end with a zero
byte, so the byte behind it counts. -/
def isDots (b : Mem) (o : Nat) : Bool :=
  dName b o 0 = 46 ∧ (dName b o 1 = 0 ∨ dName b o 1 = 46 ∧ dName b o 2 = 0)

/-- `ext2_check_empty`; what is kept is `empty`. -/
def ext2CheckEmpty : DirentFunc Bool := fun b o s =>
  if isDots b o then (.none, b, s) else (⟨false, true⟩, b, { s with priv := false })

/-- `Ext2Link`: what changes of it while an entry is removed; `prev` is the offset of
`l_prev`. -/
structure UnlinkState where
  prev : Nat
  done : Bool
  err : Option Failure
  deriving DecidableEq, Repr

section

variable {σ : Type}

/-- Take a link from the inode, and release it and its blocks when it was the last. Errors of
this are not looked at. -/
def dropLink (ino : Nat) (inode : Ext2Inode) (fs : Ext2Filesystem) : Ext2Filesystem :=
  let inode := { inode with linksCount := (inode.linksCount + 65535) % 65536 }
  if inode.linksCount = 0 then
    let fs := ext2InodeAllocStats fs ino false (isType inode.mode S_IFDIR)
    let t := (ext2DeallocBlocks ino 0 18446744073709551615 ⟨fs, inode⟩).2
    (ext2UpdateInode ino t.inode t.fs).2
  else (ext2UpdateInode ino inode fs).2

/-- The record goes: the one before it takes up its bytes, and the first of a block becomes
unused. -/
def removeRecord (b : Mem) (prev o : Nat) : Mem :=
  if o ≠ 0 then setRecLen b prev ((dRecLen b prev + dRecLen b o) % 65536) else setInode b o 0

/-- The name of the record is the one that is looked for, and the record is in use. -/
def isEntry (b : Mem) (o : Nat) (name : List UInt8) : Bool :=
  nameLength b o = name.length ∧ sameName b o name ∧ dInode b o ≠ 0

/-- What `ext2_process_unlink` does with the inode of the entry, and whether the entry goes.
Whether it is an empty directory is looked up in the directory that holds the entry. -/
def releaseEntry (ino : Nat) (s : DirState σ) : Bool × DirState σ :=
  match DirState.onFs (ext2ReadInode ino) s with
  | (.error _, s) => (true, s)
  | (.ok inode, s) =>
    if isType inode.mode S_IFDIR then
      let t := (ext2DirIterate true ext2CheckEmpty ⟨s.fs, s.dir, true⟩).2
      let s := { s with fs := t.fs, dir := t.dir }
      if t.priv then (true, { s with fs := dropLink ino inode s.fs }) else (false, s)
    else (true, { s with fs := dropLink ino inode s.fs })

def ext2ProcessUnlink (name : List UInt8) : DirentFunc UnlinkState := fun b o s =>
  let prev := s.priv.prev
  let s := { s with priv := { s.priv with prev := o } }
  if ¬isEntry b o name then (.none, b, s)
  else
    let (goes, s) := releaseEntry (dInode b o) s
    if goes then
      (⟨true, true⟩, removeRecord b prev o, { s with priv := { s.priv with done := true } })
    else (⟨false, true⟩, b, { s with priv := { s.priv with err := some (.call .ENOTEMPTY) } })

end

def ext2UnlinkDirent (name : List UInt8) : DirCmd Unit := do
  let s ← Cmd.get
  if hasFlag s.fs.geo.mntflags MS_RDONLY then Cmd.fail (.call .EROFS)
  else do
    let l ← iterateRecords true (ext2ProcessUnlink name) ⟨0, false, none⟩
    match l.err with
    | some e => Cmd.fail e
    | none => if l.done then pure () else Cmd.fail (.call .ENOENT)

def ext2Rmdir (name : List UInt8) : DirCmd Unit := ext2UnlinkDirent name

end Os0
