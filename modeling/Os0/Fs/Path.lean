import Mathlib.Data.List.Basic
import Os0.Errno

/-! Path names (`fs/path.c`): `vfs_open_file`, which walks along a path, and `vfs_path_resolve`,
which rewrites it. Files are not symbolic links, and memory does not run out. -/
namespace Os0

/-- A component of a path. -/
abbrev Name := List Char

def dot : Name := ['.']
def dotdot : Name := ['.', '.']

/-- Components that both functions pass over. -/
def skipped (c : Name) : Bool := c = [] || c = dot

/-- Components that name an entry of a directory. -/
def ordinary (c : Name) : Bool := !skipped c && c ≠ dotdot

/-- An inode by its superblock and its number. -/
structure VFSInode where
  sb : Nat
  ino : Nat
  deriving DecidableEq, Repr

/-- An entry of `mount_table`. -/
structure VFSMount where
  mntpoint : VFSInode
  /-- `sb_root` of its superblock. -/
  root : VFSInode
  deriving DecidableEq, Repr

structure Vfs where
  isDir : VFSInode → Bool
  permCheckRead : VFSInode → Except Errno Unit
  /-- The lookup function of the file system of a directory. -/
  entry : VFSInode → Name → Except Errno VFSInode
  mounts : List VFSMount
  /-- `vfs_root_inode`. -/
  root : VFSInode
  cwd : VFSInode
  cwdpath : List Char

namespace Vfs

def vfsLookup (v : Vfs) (dir : VFSInode) (name : Name) : Except Errno VFSInode :=
  if !v.isDir dir then .error .ENOTDIR
  else match v.permCheckRead dir with
    | .error e => .error e
    | .ok _ => v.entry dir name

/-- `CHECK_ROOT_MOUNT` and `CHECK_PATH_MOUNT`: the root of the file system mounted on a
directory in its place. -/
def cross (v : Vfs) (dir : VFSInode) : VFSInode :=
  match v.mounts.find? fun m => m.mntpoint = dir with
  | some m => m.root
  | none => dir

/-- The loop of `vfs_open_file` over the components of a path. -/
def walk (v : Vfs) : VFSInode → List Name → Except Errno VFSInode
  | dir, [] => .ok dir
  | dir, c :: rest =>
    if skipped c then v.walk dir rest
    else match v.vfsLookup dir c with
      | .error e => .error e
      | .ok inode =>
        if rest ≠ [] ∧ !v.isDir inode then .error .ENOTDIR
        else v.walk (v.cross inode) rest

def vfsOpenFile (v : Vfs) : List Char → Except Errno VFSInode
  | '/' :: path => v.walk (v.cross v.root) (path.splitOn '/')
  | path => v.walk (v.cross v.cwd) (path.splitOn '/')

/-- Take the last component off a path that ends with a slash, if it has one. -/
def cutLast (result : List Char) : List Char :=
  match result.reverse.dropWhile (· ≠ '/') with
  | [] | [_] => result
  | _ :: before => (before.dropWhile (· ≠ '/')).reverse

/-- One round of the loop of `vfs_path_resolve`. -/
def resolveStep (result : List Char) (c : Name) : List Char :=
  if skipped c then result
  else if c = dotdot then cutLast result
  else result ++ c ++ ['/']

def vfsPathResolve (v : Vfs) (path : List Char) : List Char :=
  let buffer := if path.head? = some '/' then path else v.cwdpath ++ '/' :: path
  let result := (buffer.splitOn '/').foldl resolveStep ['/']
  if result ≠ ['/'] ∧ result.getLast? = some '/' then result.dropLast else result

/-- If the path leads to a file, the rewritten path leads to the same one. -/
def Agrees (v : Vfs) (path : List Char) : Prop :=
  ∀ inode, v.vfsOpenFile path = .ok inode → v.vfsOpenFile (v.vfsPathResolve path) = .ok inode

/-- The first `n` components of a path. -/
def leading (n : Nat) : List Char → List Char
  | '/' :: path => '/' :: ['/'].intercalate ((path.splitOn '/').take n)
  | path => ['/'].intercalate ((path.splitOn '/').take n)

/-! ## File systems and mounts -/

def isMountPoint (v : Vfs) (inode : VFSInode) : Bool := v.mounts.any fun m => m.mntpoint = inode

def isMountRoot (v : Vfs) (inode : VFSInode) : Bool := v.mounts.any fun m => m.root = inode

/-- The file systems are trees: an entry of a directory is on the file system of the directory,
`..` leads back to it, and in the root of a file system to the root, which has no other name. -/
structure Trees (v : Vfs) : Prop where
  sb : ∀ {dir c inode}, v.entry dir c = .ok inode → inode.sb = dir.sb
  parent : ∀ {dir c inode up}, ordinary c = true → v.entry dir c = .ok inode →
    v.entry inode dotdot = .ok up → up = dir
  root : ∀ {dir up}, dir = v.root ∨ v.isMountRoot dir = true → v.entry dir dotdot = .ok up →
    up = dir
  unnamed : ∀ {dir c inode}, ordinary c = true → v.entry dir c = .ok inode →
    v.isMountRoot inode = false

/-- No file system is mounted on itself, also not through others. -/
def MountsOrdered (v : Vfs) : Prop :=
  ∃ rank : Nat → Nat, ∀ m ∈ v.mounts, rank m.mntpoint.sb < rank m.root.sb

/-- The path of the current directory is an absolute path without `..` that leads to the current
directory. -/
structure CwdOk (v : Vfs) : Prop where
  absolute : v.cwdpath.head? = some '/'
  plain : dotdot ∉ v.cwdpath.splitOn '/'
  agrees : v.vfsOpenFile (v.cwdpath ++ ['/']) = .ok v.cwd

/-- No `..` is looked up in the root of a mounted file system, apart from the root of the whole
tree, and none leads to a mount point. `depth` is the number of names that lead to `dir`. -/
def tame (v : Vfs) : VFSInode → Nat → List Name → Bool
  | _, _, [] => true
  | dir, depth, c :: rest =>
    if skipped c then v.tame dir depth rest
    else match v.vfsLookup dir c with
      | .error _ => true
      | .ok inode =>
        (c ≠ dotdot || (depth = 0 || !v.isMountRoot dir) && !v.isMountPoint inode) &&
        (rest ≠ [] && !v.isDir inode ||
          v.tame (v.cross inode) (if c = dotdot then depth - 1 else depth + 1) rest)

/-- How deep the current directory is. -/
def cwdDepth (v : Vfs) : Nat := ((v.cwdpath.splitOn '/').filter fun c => !skipped c).length

/-- The condition on a path; a relative path also needs a current directory on which nothing is
mounted. -/
def tamePath (v : Vfs) : List Char → Bool
  | '/' :: path => v.tame (v.cross v.root) 0 (path.splitOn '/')
  | path => !v.isMountPoint v.cwd && v.tame v.cwd v.cwdDepth (path.splitOn '/')

end Vfs

end Os0
