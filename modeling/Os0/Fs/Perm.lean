import Os0.Lib.Bytes
import Os0.Process.Ids

/-! File permissions (`fs/perm.c`) and the part of `vfs_read` (`fs/vfs.c`) that comes
before the file system's own read. -/
namespace Os0

open Bytes

def S_IFMT : Nat := 0o170000
def S_IFIFO : Nat := 0o010000
def S_IFCHR : Nat := 0o020000
def S_IFDIR : Nat := 0o040000
def S_IFREG : Nat := 0o100000
def S_IFLNK : Nat := 0o120000
def S_IFSOCK : Nat := 0o140000

def S_ISUID : Nat := 0o4000
def S_ISGID : Nat := 0o2000
def S_IRUSR : Nat := 0o400
def S_IWUSR : Nat := 0o200
def S_IXUSR : Nat := 0o100
def S_IRGRP : Nat := 0o040
def S_IWGRP : Nat := 0o020
def S_IXGRP : Nat := 0o010
def S_IROTH : Nat := 0o004
def S_IWOTH : Nat := 0o002
def S_IXOTH : Nat := 0o001

def MS_NOEXEC : Nat := 0x0004
def MS_NOSUID : Nat := 0x0008
def MS_RDONLY : Nat := 0x0020

/-- `S_ISDIR` and its relatives: the file type bits of a mode. -/
def isType (mode type : Nat) : Bool := mode &&& S_IFMT = type

/-- The fields of a `VFSInode` that the checks read. -/
structure FileAttrs where
  mode : Nat
  uid : UInt16
  gid : UInt16
  size : Int
  mntflags : Nat
  deriving DecidableEq, Repr

/-- The common body of `vfs_perm_check_read` and `vfs_perm_check_write`: the bits of
the owner, of the group or of the others decide, and a directory needs the search
bit too. `none` is success. -/
def permCheck (usr grp oth : Nat) (c : Credentials) (f : FileAttrs) (real : Bool) : Option Errno :=
  let uid := if real then c.user.real else c.user.effective
  let gid := if real then c.group.real else c.group.effective
  let check (bit search : Nat) : Option Errno :=
    if ¬hasFlag f.mode bit then some .EACCES
    else if isType f.mode S_IFDIR ∧ ¬hasFlag f.mode search then some .EACCES
    else none
  if uid = 0 then none
  else if f.uid = uid then check usr S_IXUSR
  else if f.gid = gid then check grp S_IXGRP
  else check oth S_IXOTH

def vfsPermCheckRead : Credentials → FileAttrs → Bool → Option Errno :=
  permCheck S_IRUSR S_IRGRP S_IROTH

def vfsPermCheckWrite : Credentials → FileAttrs → Bool → Option Errno :=
  permCheck S_IWUSR S_IWGRP S_IWOTH

/-- `vfs_perm_check_exec`: the super-user too needs one execute bit. -/
def vfsPermCheckExec (c : Credentials) (f : FileAttrs) (real : Bool) : Option Errno :=
  let uid := if real then c.user.real else c.user.effective
  let gid := if real then c.group.real else c.group.effective
  let check (bit : Nat) : Option Errno := if ¬hasFlag f.mode bit then some .EACCES else none
  if uid = 0 then check (S_IXUSR ||| S_IXGRP ||| S_IXOTH)
  else if f.uid = uid then check S_IXUSR
  else if f.gid = gid then check S_IXGRP
  else check S_IXOTH

def vfsCanSeek (mode : Nat) : Bool :=
  ¬isType mode S_IFCHR ∧ ¬isType mode S_IFSOCK ∧ ¬isType mode S_IFIFO

/-- The length with which `vfs_read` calls the file system: `offset + len` is a 32-bit
sum, and a read is cut at the end of the file. -/
def vfsReadLen (c : Credentials) (f : FileAttrs) (len : Nat) (offset : Int) : Except Errno Nat :=
  match vfsPermCheckRead c f false with
  | some e => .error e
  | none =>
    if vfsCanSeek f.mode then
      if f.size < offset then .error .EINVAL
      else if f.size < (offset + len) % 4294967296 then
        .ok ((f.size - offset) % 4294967296).toNat
      else .ok len
    else .ok len

end Os0
