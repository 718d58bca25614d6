import Os0.Fs.Path
import Os0.Lib.Cmd
import Os0.Process.Files

/-! The system calls that take a path from the directory of a descriptor (`uapi/relvfs.c`), down
to `vfs_open_file` (`fs/path.c`) and `ext2_lookup` (`fs/ext2/inode.c`), with the references of
inodes that they take and give back. What the file systems answer is left open. -/
namespace Os0

open Bytes

def AT_FDCWD : Int := 0x0100
def AT_SYMLINK_FOLLOW : Nat := 0x0200
def AT_SYMLINK_NOFOLLOW : Nat := 0x0400
def AT_EACCESS : Nat := 0x0800
def AT_REMOVEDIR : Nat := 0x1000

def O_RDWR : Nat := 2
def O_CREAT : Nat := 0x100
def O_EXCL : Nat := 0x200
def O_TRUNC : Nat := 0x1000
def O_APPEND : Nat := 0x2000

def F_OK : Int := 0
def X_OK : Int := 1
def W_OK : Int := 2
def R_OK : Int := 4

def UTIME_NOW : Int := 1000000001
def UTIME_OMIT : Int := 1000000007

def S_IFBLK : Nat := 0o060000
def MS_NODEV : Nat := 0x0002
def MAXSYMLINKS : Int := 32

/-- Why a call stops: it returns an error, or it never returns, after a null pointer was read or
the kernel stack was used up. -/
inductive Halt
  | errno (e : Errno)
  | never
  deriving DecidableEq, Repr

/-- A time as seconds and a fraction. -/
structure Time where
  sec : Int
  frac : Int
  deriving DecidableEq, Repr

/-- What a call asks of a file system when it has the inodes. A name is null if there was no
memory for it. -/
inductive VfsOp
  | create (dir : Nat) (name : Option Name) (mode : Nat)
  | link (old dir : Nat) (name : Option Name)
  | unlink (dir : Nat) (name : Option Name)
  | symlink (dir : Nat) (old : String) (name : Option Name)
  | mkdir (dir : Nat) (name : Option Name) (mode : Nat)
  | rmdir (dir : Nat) (name : Option Name)
  | mknod (dir : Nat) (name : Option Name) (mode dev : Nat)
  | rename (olddir : Nat) (oldname : Option Name) (newdir : Nat) (newname : Option Name)
  | chmod (inode mode : Nat)
  | chown (inode : Nat) (uid gid : UInt16)
  | readlink (inode len : Nat)
  | truncate (inode : Nat)
  | getattr (inode : Nat)
  /-- `vfs_write_inode` after the times that are given were set. -/
  | writeInode (inode : Nat) (atime mtime : Option Time)

/-- What a call finds: the process that makes it, and the file systems, in a state `F` of theirs.
None of their functions holds a reference that it took when it returns, except for the one of the
inode that `entry` yields. -/
structure World (F : Type) where
  pid : Nat
  cred : Credentials
  umask : Nat
  /-- How many links within links the kernel stack has room for. -/
  depth : Nat
  attrs : F → Nat → FileAttrs
  /-- Whether the operations of an inode are those of ext2. -/
  ext2 : F → Nat → Bool
  /-- `vfs_root_inode`. -/
  root : Nat
  /-- The root of the file system that is mounted on an inode. -/
  mounted : F → Nat → Option Nat
  /-- Whether the next `kmalloc` finds memory. -/
  memory : F → Bool × F
  /-- The search of a directory for a name. -/
  entry : Nat → Option Name → F → Except Halt Nat × F
  /-- `ext2_readlink`. -/
  target : Nat → F → Except Halt (List Char) × F
  /-- `vfs_path_resolve` from a working directory. -/
  resolve : Option String → String → F → Option String × F
  op : VfsOp → F → Except Halt Int × F

structure Caller (F : Type) where
  files : Files
  /-- `p_cwdpath`. -/
  cwdpath : Option String
  fs : F

namespace Caller

variable {F : Type}

/-- `p_cwd` of the process `p`. -/
def cwd (s : Caller F) (p : Nat) : Option Nat := s.files.cwd p

def setCwd (p : Nat) (c : Option Nat) (s : Caller F) : Caller F :=
  { s with files := { s.files with cwd := Function.update s.files.cwd p c } }

def ref (i : Nat) (s : Caller F) : Caller F := { s with files := s.files.vfsRefInode (some i) }

def unref (i : Nat) (s : Caller F) : Caller F := { s with files := s.files.vfsUnrefInode (some i) }

/-- `vi_refcnt`. -/
def refcnt (s : Caller F) (i : Nat) : Int := (s.files.inodes i).refcnt

/-- `proc->p_files[fd]`, with the bounds of `fd` checked. -/
def file (s : Caller F) (p : Nat) (fd : Int) : Option ProcessFile :=
  ((Files.descriptor fd).bind fun n => s.files.files (p, n)).map s.files.table

end Caller

abbrev Call (F α : Type) : Type := Cmd (Caller F) Halt α

namespace Call

variable {F α : Type}

def errno (e : Errno) : Call F α := Cmd.fail (.errno e)

def never : Call F α := Cmd.fail .never

def ask (f : F → Except Halt α × F) : Call F α := fun s => ((f s.fs).1, { s with fs := (f s.fs).2 })

/-- Ask what cannot fail. -/
def answer (f : F → α × F) : Call F α := fun s => (.ok (f s.fs).1, { s with fs := (f s.fs).2 })

/-- Go on with the error that a function has returned. -/
def outcome (c : Call F α) : Call F (Except Errno α) := fun s =>
  match c s with
  | (.ok a, t) => (.ok (.ok a), t)
  | (.error (.errno e), t) => (.ok (.error e), t)
  | (.error .never, t) => (.error .never, t)

/-- Return what a permission check has returned. -/
def check : Option Errno → Call F Int
  | some e => errno e
  | none => pure 0

end Call

open Call

namespace World

variable {F α : Type} (w : World F)

def isDir (f : F) (i : Nat) : Bool := isType (w.attrs f i).mode S_IFDIR

def isLink (f : F) (i : Nat) : Bool := isType (w.attrs f i).mode S_IFLNK

def memoryLeft : Call F Bool := answer w.memory

/-- `strdup` of a buffer, without which a function returns `ENOMEM`. -/
def strdup : Call F Unit := do
  if ← w.memoryLeft then pure () else errno .ENOMEM

/-- `strdup` of a name, which is not checked. -/
def strdupName (name : Name) : Call F (Option Name) := do
  return if ← w.memoryLeft then some name else none

/-- What `ext2_lookup` does with a link `vi` in the directory `dir`. -/
def followLink (openFile : List Char → Call F Nat) (dir vi : Nat) : Call F Nat := do
  let s ← Cmd.get
  if ← w.memoryLeft then
    Cmd.modify (Caller.setCwd w.pid (some dir))
    Cmd.ensuring (ask (w.target vi) >>= openFile)
      fun t => (t.unref vi).setCwd w.pid (s.cwd w.pid)
  else
    Cmd.modify (Caller.unref vi)
    errno .ENOMEM

/-- `vfs_lookup`. The lookup of ext2 follows links, that of devfs does not. -/
def vfsLookup (openFile : List Char → Call F Nat) (dir : Nat) (name : Option Name)
    (symcount : Int) : Call F Nat := do
  let s ← Cmd.get
  if !w.isDir s.fs dir then errno .ENOTDIR
  else if MAXSYMLINKS ≤ symcount then errno .ELOOP
  else match vfsPermCheckRead w.cred (w.attrs s.fs dir) false with
    | some e => errno e
    | none => do
      let vi ← ask (w.entry dir name)
      Cmd.modify (Caller.ref vi)
      let t ← Cmd.get
      if w.ext2 t.fs dir ∧ 0 ≤ symcount ∧ w.isLink t.fs vi then
        w.followLink openFile dir vi
      else pure vi

/-- The rest of a turn of the loop of `vfs_open_file`: the inode that was looked up, or the root
of what is mounted on it, takes the place of `dir`. -/
def advance (walkOn : Nat → Call F Nat) (last : Bool) (dir inode : Nat) : Call F Nat := do
  Cmd.modify (Caller.unref dir)
  let s ← Cmd.get
  if !last ∧ !w.isDir s.fs inode then
    Cmd.modify (Caller.unref inode)
    errno .ENOTDIR
  else match w.mounted s.fs inode with
    | some root => do
      Cmd.modify fun t => (t.unref inode).ref root
      walkOn root
    | none => walkOn inode

/-- The loop of `vfs_open_file`; it holds a reference of `dir`. -/
def walk (openFile : List Char → Call F Nat) (follow : Int) : Nat → List Name → Call F Nat
  | dir, [] => pure dir
  | dir, c :: rest =>
    if skipped c then walk openFile follow dir rest
    else do
      let inode ← Cmd.onError
        (w.vfsLookup openFile dir (some c) (if rest = [] then follow else 1)) (Caller.unref dir)
      w.advance (fun next => walk openFile follow next rest) (rest = []) dir inode

/-- The path behind a slash at its start, if it has one. -/
def fromRoot : List Char → Option (List Char)
  | '/' :: path => some path
  | _ => none

def vfsOpenFile : Nat → List Char → Int → Call F Nat
  | 0, _, _ => never
  | depth + 1, path, follow => do
    w.strdup
    let s ← Cmd.get
    match if (fromRoot path).isSome then some w.root else s.cwd w.pid with
    | none => never
    | some start =>
      let dir := (w.mounted s.fs start).getD start
      Cmd.modify (Caller.ref dir)
      w.walk (fun target => vfsOpenFile depth target 0) follow dir
        (((fromRoot path).getD path).splitOn '/')

/-- `vfs_open_file` as the system calls call it. -/
def openFile (path : String) (follow : Int) : Call F Nat := w.vfsOpenFile w.depth path.toList follow

/-- `vfs_lookup` as the system calls call it. -/
def lookup (dir : Nat) (name : Option Name) (symcount : Int) : Call F Nat :=
  w.vfsLookup (fun target => w.vfsOpenFile w.depth target 0) dir name symcount

/-- What stands before and after the last slash of a path. -/
def lastSlash (path : List Char) : Option (List Char × Name) :=
  match path.reverse.dropWhile (· ≠ '/') with
  | [] => none
  | _ :: before => some (before.reverse, (path.reverse.takeWhile (· ≠ '/')).reverse)

/-- `sys_path_sep`. The directory of a path with one slash, at its start, is the working
directory. -/
def sysPathSep (path : String) : Call F (Nat × Option Name) := do
  w.strdup
  match lastSlash path.toList with
  | none => do
    let s ← Cmd.get
    match s.cwd w.pid with
    | none => never
    | some dir => do
      Cmd.modify (Caller.ref dir)
      let name ← w.strdupName path.toList
      return (dir, name)
  | some (before, after) => do
    let dir ← w.vfsOpenFile w.depth before 1
    let name ← w.strdupName after
    return (dir, name)

/-! ## The calls from the working directory (`uapi/vfs.c`) -/

/-- The body of the calls that open a file, ask for an operation on it and let go of it. -/
def onFile (path : String) (follow : Int) (op : Nat → VfsOp) : Call F Int := do
  let inode ← w.openFile path follow
  Cmd.ensuring (ask (w.op (op inode))) (Caller.unref inode)

/-- The body of `sys_mkdir`, `sys_mknod` and `sys_symlink`. -/
def makeEntry (path : String) (op : Nat → Option Name → VfsOp) : Call F Int := do
  let (dir, name) ← w.sysPathSep path
  match ← outcome (w.lookup dir name 0) with
  | .ok temp => do
    Cmd.modify fun s => (s.unref dir).unref temp
    errno .EEXIST
  | .error _ => Cmd.ensuring (ask (w.op (op dir name))) (Caller.unref dir)

/-- The body of `sys_unlink` and `sys_rmdir`. -/
def dropEntry (path : String) (op : Nat → Option Name → VfsOp) : Call F Int := do
  let (dir, name) ← w.sysPathSep path
  Cmd.ensuring (ask (w.op (op dir name))) (Caller.unref dir)

def sysMkdir (path : String) (mode : Nat) : Call F Int :=
  w.makeEntry path fun dir name => .mkdir dir name (mode - (mode &&& w.umask))

def sysMknod (path : String) (mode dev : Nat) : Call F Int :=
  w.makeEntry path fun dir name => .mknod dir name mode dev

def sysSymlink (old new : String) : Call F Int :=
  w.makeEntry new fun dir name => .symlink dir old name

def sysUnlink (path : String) : Call F Int := w.dropEntry path .unlink

def sysRmdir (path : String) : Call F Int := w.dropEntry path .rmdir

def sysStat64 (path : String) : Call F Int := w.onFile path 1 .getattr

def sysLstat64 (path : String) : Call F Int := w.onFile path 0 .getattr

def sysReadlink (path : String) (len : Nat) : Call F Int := do
  let inode ← w.openFile path 1
  let s ← Cmd.get
  if !w.isLink s.fs inode then
    Cmd.modify (Caller.unref inode)
    errno .EINVAL
  else Cmd.ensuring (ask (w.op (.readlink inode len))) (Caller.unref inode)

/-- `process_free_fd` on the way out of a call. -/
def freeFd (fd : Nat) (s : Caller F) : Caller F :=
  { s with files := (s.files.processFreeFd w.pid fd).2 }

def processAllocFd : Call F Nat := fun s =>
  match s.files.processAllocFd w.pid ⟨0, fileLimit_pos⟩ with
  | (.ok fd, files) => (.ok fd, { s with files })
  | (.error e, files) => (.error (.errno e), { s with files })

/-- The file that `sys_open` opens: one that it finds or one that it creates. -/
def findOrCreate (path : String) (flags mode : Nat) : Call F Nat := do
  match ← outcome (w.openFile path 1) with
  | .ok inode =>
    if hasFlag flags O_CREAT ∧ hasFlag flags O_EXCL then
      Cmd.modify (Caller.unref inode)
      errno .EEXIST
    else pure inode
  | .error e =>
    if hasFlag flags O_CREAT ∧ e = .ENOENT then do
      let (dir, name) ← w.sysPathSep path
      let _ ← Cmd.onError (ask (w.op (.create dir name (mode - (mode &&& w.umask)))))
        (Caller.unref dir)
      Cmd.ensuring (w.lookup dir name 1) (Caller.unref dir)
    else errno e

def truncate (inode : Nat) : Call F Unit := do
  let _ ← Cmd.onError (ask (w.op (.truncate inode))) (Caller.unref inode)

/-- `sys_open` until it has the inode for the descriptor. -/
def openInode (path : String) (flags mode : Nat) : Call F Nat := do
  let inode ← w.findOrCreate path flags mode
  Cmd.when (hasFlag flags O_TRUNC) (w.truncate inode)
  let s ← Cmd.get
  let attrs := w.attrs s.fs inode
  if hasFlag attrs.mntflags MS_NODEV ∧ (isType attrs.mode S_IFBLK ∨ isType attrs.mode S_IFCHR) then
    Cmd.modify (Caller.unref inode)
    errno Errno.ENXIO
  else pure inode

/-- The error of `sys_open` for the access mode. -/
def accessError (attrs : FileAttrs) (flags : Nat) : Option Errno :=
  if flags &&& O_ACCMODE = O_RDONLY then none
  else if flags &&& O_ACCMODE = O_WRONLY ∨ flags &&& O_ACCMODE = O_RDWR then
    if isType attrs.mode S_IFDIR then some .EISDIR else none
  else some .EINVAL

def fill (fd inode : Nat) (path : Option String) (mode offset : Int) (s : Caller F) : Caller F :=
  { s with files := s.files.fill w.pid fd (some inode) path mode offset }

/-- `sys_open` from where it has the inode on. Its errors give the inode back twice, once before
`process_free_fd` and once in it. -/
def fillFd (path : String) (flags fd inode : Nat) : Call F Int := do
  Cmd.modify (w.fill fd inode none 0 0)
  let s ← Cmd.get
  let attrs := w.attrs s.fs inode
  match accessError attrs flags with
  | some e => do
    Cmd.modify fun t => w.freeFd fd (t.unref inode)
    errno e
  | none => do
    match ← answer (w.resolve s.cwdpath path) with
    | none => do
      Cmd.modify fun t => w.freeFd fd (t.unref inode)
      errno .ENOMEM
    | some resolved => do
      let offset := if hasFlag flags O_APPEND then attrs.size else 0
      Cmd.modify (w.fill fd inode (some resolved) (flags &&& O_ACCMODE : Nat) offset)
      return fd

def sysOpen (path : String) (flags mode : Nat) : Call F Int := do
  let fd ← w.processAllocFd
  let inode ← Cmd.onError (w.openInode path flags mode) (w.freeFd fd)
  w.fillFd path flags fd inode

/-! ## The calls from the directory of a descriptor -/

/-- Make the directory of the descriptor the working directory. -/
def enter (fd : Int) : Call F Unit := do
  if fd = AT_FDCWD then pure ()
  else do
    let s ← Cmd.get
    match s.file w.pid fd with
    | none => errno .EBADF
    | some file => Cmd.modify (Caller.setCwd w.pid file.inode)

/-- Replace the path of the working directory too. -/
def enterPath (fd : Int) : Call F Unit := do
  if fd = AT_FDCWD then pure ()
  else do
    let s ← Cmd.get
    match s.file w.pid fd with
    | none => errno .EBADF
    | some file => Cmd.modify fun t => { t.setCwd w.pid file.inode with cwdpath := file.path }

/-- Run a call in the directory of the descriptor. -/
def relative (fd : Int) (body : Call F α) : Call F α := do
  let s ← Cmd.get
  w.enter fd
  Cmd.ensuring body (Caller.setCwd w.pid (s.cwd w.pid))

def sysOpenat (fd : Int) (path : String) (flags mode : Nat) : Call F Int := do
  let s ← Cmd.get
  w.enterPath fd
  Cmd.ensuring (w.sysOpen path flags mode)
    fun t => { t.setCwd w.pid (s.cwd w.pid) with cwdpath := s.cwdpath }

def sysMkdirat (fd : Int) (path : String) (mode : Nat) : Call F Int :=
  w.relative fd (w.sysMkdir path mode)

def sysMknodat (fd : Int) (path : String) (mode dev : Nat) : Call F Int :=
  w.relative fd (w.sysMknod path mode dev)

/-- `flags & AT_SYMLINK_NOFOLLOW ? 0 : 1`. -/
def followUnless (flags : Nat) : Int := if hasFlag flags AT_SYMLINK_NOFOLLOW then 0 else 1

def sysFchownat (fd : Int) (path : String) (uid gid : UInt16) (flags : Nat) : Call F Int :=
  w.relative fd (w.onFile path (followUnless flags) fun inode => .chown inode uid gid)

/-- Set the times of an inode and let go of it. -/
def setTimes (inode : Nat) (atime mtime : Option Time) : Call F Int :=
  Cmd.ensuring (ask (w.op (.writeInode inode atime mtime))) (Caller.unref inode)

/-- `sys_futimesat`. Where it returns `EPERM` it does not let go of the inode. -/
def sysFutimesat (fd : Int) (path : String) (atime mtime : Time) : Call F Int := do
  if 1000000 ≤ atime.frac ∨ 1000000 ≤ mtime.frac then errno .EINVAL
  else w.relative fd do
    let inode ← w.openFile path 1
    let s ← Cmd.get
    if w.cred.user.effective ≠ 0 ∨ w.cred.user.effective ≠ (w.attrs s.fs inode).uid then
      errno .EPERM
    else w.setTimes inode (some ⟨atime.sec, atime.frac * 1000⟩) (some ⟨mtime.sec, mtime.frac * 1000⟩)

def sysFstatat64 (fd : Int) (path : String) (flags : Nat) : Call F Int :=
  w.relative fd (if hasFlag flags AT_SYMLINK_NOFOLLOW then w.sysLstat64 path else w.sysStat64 path)

def sysUnlinkat (fd : Int) (path : String) (flags : Nat) : Call F Int :=
  w.relative fd (if hasFlag flags AT_REMOVEDIR then w.sysRmdir path else w.sysUnlink path)

def sysRenameat (oldfd : Int) (old : String) (newfd : Int) (new : String) : Call F Int := do
  let s ← Cmd.get
  w.enter oldfd
  let (oldDir, oldName) ← Cmd.onError (w.sysPathSep old) (Caller.setCwd w.pid (s.cwd w.pid))
  let (newDir, newName) ← Cmd.onError (do w.enter newfd; w.sysPathSep new)
    fun t => (t.unref oldDir).setCwd w.pid (s.cwd w.pid)
  Cmd.ensuring (ask (w.op (.rename oldDir oldName newDir newName)))
    fun t => ((t.unref oldDir).unref newDir).setCwd w.pid (s.cwd w.pid)

/-- `sys_linkat` until it has both inodes. -/
def linkatInodes (oldfd : Int) (old : String) (newfd : Int) (new : String) (flags : Nat) :
    Call F (Nat × Nat × Option Name) := do
  let s ← Cmd.get
  w.enter oldfd
  let oldInode ← Cmd.onError (w.openFile old (if hasFlag flags AT_SYMLINK_FOLLOW then 1 else 0))
    (Caller.setCwd w.pid (s.cwd w.pid))
  let (newDir, name) ← Cmd.onError (do w.enter newfd; w.sysPathSep new)
    fun t => (t.unref oldInode).setCwd w.pid (s.cwd w.pid)
  return (oldInode, newDir, name)

/-- `sys_linkat`. Where it returns `EEXIST` the working directory stays replaced. -/
def sysLinkat (oldfd : Int) (old : String) (newfd : Int) (new : String) (flags : Nat) :
    Call F Int := do
  let s ← Cmd.get
  let (oldInode, newDir, name) ← w.linkatInodes oldfd old newfd new flags
  match ← outcome (w.lookup newDir name 0) with
  | .ok temp => do
    Cmd.modify fun t => ((t.unref oldInode).unref newDir).unref temp
    errno .EEXIST
  | .error _ =>
    Cmd.ensuring (ask (w.op (.link oldInode newDir name)))
      fun t => ((t.unref oldInode).unref newDir).setCwd w.pid (s.cwd w.pid)

def sysSymlinkat (old : String) (fd : Int) (new : String) : Call F Int :=
  w.relative fd (w.sysSymlink old new)

def sysReadlinkat (fd : Int) (path : String) (len : Nat) : Call F Int :=
  w.relative fd (w.sysReadlink path len)

def sysFchmodat (fd : Int) (path : String) (mode flags : Nat) : Call F Int :=
  w.relative fd (w.onFile path (followUnless flags) fun inode => .chmod inode mode)

/-- `sys_faccessat`. The permission checks return at once, with the inode and the working
directory as they are then. -/
def sysFaccessat (fd : Int) (path : String) (mode : Int) (flags : Nat) : Call F Int := do
  let s ← Cmd.get
  w.enter fd
  let inode ← Cmd.onError (w.openFile path (followUnless flags))
    (Caller.setCwd w.pid (s.cwd w.pid))
  let t ← Cmd.get
  let attrs := w.attrs t.fs inode
  let real := !hasFlag flags AT_EACCESS
  if mode = X_OK then check (vfsPermCheckExec w.cred attrs real)
  else if mode = R_OK then check (vfsPermCheckRead w.cred attrs real)
  else if mode = W_OK then check (vfsPermCheckWrite w.cred attrs real)
  else do
    Cmd.modify fun t => (t.unref inode).setCwd w.pid (s.cwd w.pid)
    if mode = F_OK then pure 0 else errno .EINVAL

/-- `__sys_utime_ns_valid`. -/
def sysUtimeNsValid (nsec : Int) : Bool :=
  (0 ≤ nsec && nsec < 1000000000) || nsec = UTIME_NOW || nsec = UTIME_OMIT

/-- The time that `sys_utimensat` sets; `UTIME_NOW` stands for the time of the call. -/
def timeToSet (time : Time) : Option Time := if time.frac = UTIME_OMIT then none else some time

/-- `sys_utimensat` from `vfs_open_file` on. -/
def changeTimes (path : String) (atime mtime : Time) (flags : Nat) : Call F Int := do
  let inode ← w.openFile path (followUnless flags)
  let t ← Cmd.get
  if (atime.frac ≠ UTIME_OMIT ∨ mtime.frac ≠ UTIME_OMIT) ∧
      (w.cred.user.effective ≠ 0 ∨ w.cred.user.effective ≠ (w.attrs t.fs inode).uid) then
    Cmd.modify (Caller.unref inode)
    errno .EPERM
  else w.setTimes inode (timeToSet atime) (timeToSet mtime)

/-- `sys_utimensat`. With a null path it finds the inode of the descriptor, and then reads the
null path. -/
def sysUtimensat (fd : Int) (path : Option String) (atime mtime : Time) (flags : Nat) :
    Call F Int := do
  if !sysUtimeNsValid atime.frac ∨ !sysUtimeNsValid mtime.frac then errno .EINVAL
  else match path with
    | none => do
      let s ← Cmd.get
      match (s.file w.pid fd).bind ProcessFile.inode with
      | none => errno .EBADF
      | some _ => never
    | some path => do
      let s ← Cmd.get
      w.enter fd
      -- the working directory is put back unless it was null
      Cmd.ensuring (w.changeTimes path atime mtime flags)
        fun t => if (s.cwd w.pid).isSome then t.setCwd w.pid (s.cwd w.pid) else t

end World

/-- A call from the directory of a descriptor. -/
inductive AtCall
  | openat (fd : Int) (path : String) (flags mode : Nat)
  | mkdirat (fd : Int) (path : String) (mode : Nat)
  | mknodat (fd : Int) (path : String) (mode dev : Nat)
  | fchownat (fd : Int) (path : String) (uid gid : UInt16) (flags : Nat)
  | futimesat (fd : Int) (path : String) (atime mtime : Time)
  | fstatat64 (fd : Int) (path : String) (flags : Nat)
  | unlinkat (fd : Int) (path : String) (flags : Nat)
  | renameat (oldfd : Int) (old : String) (newfd : Int) (new : String)
  | linkat (oldfd : Int) (old : String) (newfd : Int) (new : String) (flags : Nat)
  | symlinkat (old : String) (fd : Int) (new : String)
  | readlinkat (fd : Int) (path : String) (len : Nat)
  | fchmodat (fd : Int) (path : String) (mode flags : Nat)
  | faccessat (fd : Int) (path : String) (mode : Int) (flags : Nat)
  | utimensat (fd : Int) (path : Option String) (atime mtime : Time) (flags : Nat)

namespace World

variable {F : Type} (w : World F)

def run : AtCall → Call F Int
  | .openat fd path flags mode => w.sysOpenat fd path flags mode
  | .mkdirat fd path mode => w.sysMkdirat fd path mode
  | .mknodat fd path mode dev => w.sysMknodat fd path mode dev
  | .fchownat fd path uid gid flags => w.sysFchownat fd path uid gid flags
  | .futimesat fd path atime mtime => w.sysFutimesat fd path atime mtime
  | .fstatat64 fd path flags => w.sysFstatat64 fd path flags
  | .unlinkat fd path flags => w.sysUnlinkat fd path flags
  | .renameat oldfd old newfd new => w.sysRenameat oldfd old newfd new
  | .linkat oldfd old newfd new flags => w.sysLinkat oldfd old newfd new flags
  | .symlinkat old fd new => w.sysSymlinkat old fd new
  | .readlinkat fd path len => w.sysReadlinkat fd path len
  | .fchmodat fd path mode flags => w.sysFchmodat fd path mode flags
  | .faccessat fd path mode flags => w.sysFaccessat fd path mode flags
  | .utimensat fd path atime mtime flags => w.sysUtimensat fd path atime mtime flags

end World

end Os0
