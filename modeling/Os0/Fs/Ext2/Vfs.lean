import Os0.Fs.Ext2.Bmap

/-! The inode that the virtual file system holds of an open file, and how it is written
back (`ext2_write_inode` in `fs/ext2/super.c`). -/
namespace Os0

open Bytes

/-- `Ext2File`; `valid` and `dirty` are `EXT2_FILE_BUFFER_VALID` and
`EXT2_FILE_BUFFER_DIRTY` of `f_flags`. -/
structure Ext2File where
  inode : Ext2Inode
  ino : Nat
  pos : Nat
  block : Nat
  physblock : Nat
  valid : Bool
  dirty : Bool
  buffer : Mem

/-- `VFSInode`; `file` is what `vi_private` points to. -/
structure VfsInode where
  uid : UInt16
  gid : UInt16
  ino : Nat
  nlink : Nat
  size : Int
  sectors : Nat
  mode : Nat
  atime : Nat
  mtime : Nat
  ctime : Nat
  file : Ext2File

/-- A file system and one inode of the virtual file system on it. -/
structure VfsState where
  fs : Ext2Filesystem
  inode : VfsInode

def VfsInode.setInode (i : VfsInode) (inode : Ext2Inode) : VfsInode :=
  { i with file := { i.file with inode := inode } }

end Os0
