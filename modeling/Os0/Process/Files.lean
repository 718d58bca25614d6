import Os0.Fs.Pipe
import Os0.Lib.Refs
import Os0.Process.Exec
import Os0.Process.Table

/-! The table of open files that all processes share, the descriptors that point into it,
and the references of inodes that it holds (`process_alloc_fd` and `process_free_fd` in
`kernel/process.c`, `kernel/fcntl.c`, `sys_pipe` in `uapi/misc.c`, and the parts of
`_task_fork`, `process_exec` and `process_free` that concern descriptors). -/
namespace Os0

def PROCESS_FILE_LIMIT : Nat := 64
def PROCESS_SYS_FILE_LIMIT : Nat := 8192

theorem fileLimit_pos : 0 < PROCESS_FILE_LIMIT := by decide

/-- `ProcessFile`. -/
structure ProcessFile where
  inode : Option Nat
  path : Option String
  mode : Int
  offset : Int
  refcnt : Int

def ProcessFile.unused : ProcessFile := ⟨none, none, 0, 0, 0⟩

/-- What `sb_destroy_inode` has to do with an inode, apart from giving its memory back. -/
inductive InodeKind
  | plain
  | pipeEnd (write : Bool) (pipe : Nat)
  deriving DecidableEq, Repr

/-- The fields of `VFSInode` that its life depends on. -/
structure RefInode where
  refcnt : Int
  kind : InodeKind
  deriving DecidableEq, Repr

structure Files where
  /-- `process_fd_table`. -/
  table : Nat → ProcessFile
  /-- `process_fd_next`. -/
  next : Nat
  /-- `p_files`, by process and descriptor. -/
  files : Nat × Nat → Option Nat
  fdflags : Nat × Nat → Int
  /-- Whether the process has a task. -/
  live : Nat → Bool
  cwd : Nat → Option Nat
  inodes : Nat → RefInode
  /-- The name of the next inode. -/
  nextInode : Nat
  pipes : Nat → Pipe
  /-- The name of the next pipe. -/
  nextPipe : Nat
  /-- How often each pipe was given to `kfree`. -/
  released : Nat → Nat

namespace Files

/-- The kernel task alone, its working directory the root directory, inode 0. -/
def boot : Files where
  table := fun _ => .unused
  next := 0
  files := fun _ => none
  fdflags := fun _ => 0
  live := fun p => p = 0
  cwd := fun p => if p = 0 then some 0 else none
  inodes := fun i => ⟨if i = 0 then 2 else 0, .plain⟩
  nextInode := 1
  pipes := fun _ => .zero
  nextPipe := 0
  released := fun _ => 0

def setFile (s : Files) (p fd : Nat) (e : Option Nat) : Files :=
  { s with files := Function.update s.files (p, fd) e }

def setEntry (s : Files) (e : Nat) (file : ProcessFile) : Files :=
  { s with table := Function.update s.table e file }

def addRefcnt (s : Files) (e : Nat) (d : Int) : Files :=
  s.setEntry e { s.table e with refcnt := (s.table e).refcnt + d }

def addRef (s : Files) (i : Nat) (d : Int) : Files :=
  let inode := { s.inodes i with refcnt := (s.inodes i).refcnt + d }
  { s with inodes := Function.update s.inodes i inode }

def vfsRefInode (i : Option Nat) (s : Files) : Files :=
  match i with
  | none => s
  | some i => s.addRef i 1

def kfreePipe (s : Files) (q : Nat) : Files :=
  { s with released := Function.update s.released q (s.released q + 1) }

/-- `sb_destroy_inode`; for an end of a pipe it is `pipe_destroy_inode`. -/
def destroyInode (i : Nat) (s : Files) : Files :=
  match (s.inodes i).kind with
  | .plain => s
  | .pipeEnd write q =>
    let pipe := (s.pipes q).close write
    let s := { s with pipes := Function.update s.pipes q pipe }
    if pipe.bothClosed then s.kfreePipe q else s

def vfsUnrefInode (i : Option Nat) (s : Files) : Files :=
  match i with
  | none => s
  | some i =>
    let s := s.addRef i (-1)
    if (s.inodes i).refcnt = 0 then s.destroyInode i else s

/-- The search of `process_alloc_fd` in the table. -/
def freeEntry (s : Files) : Option Nat :=
  (List.range' s.next (PROCESS_SYS_FILE_LIMIT - s.next)).find? fun e => (s.table e).refcnt = 0

/-- The search for an unused descriptor from `fd` on. -/
def freeDescriptor (s : Files) (p fd : Nat) : Option Nat :=
  (List.range' fd (PROCESS_FILE_LIMIT - fd)).find? fun n => (s.files (p, n)).isNone

def processAllocFd (p : Nat) (fd : Fin PROCESS_FILE_LIMIT) (s : Files) :
    Except Errno Nat × Files :=
  match s.freeEntry with
  | none => (.error .ENFILE, s)
  | some e =>
    match s.freeDescriptor p fd with
    | none => (.error .EMFILE, s)
    | some n =>
      (.ok n, { (s.setFile p n (some e)).setEntry e { s.table e with refcnt := 1 } with
        next := e + 1 })

/-- `process_free_fd`. The search starts over at the entry even if it is still in use. -/
def processFreeFd (p fd : Nat) (s : Files) : Except Errno Unit × Files :=
  match s.files (p, fd) with
  | none => (.error .EBADF, s)
  | some e =>
    let s := (s.setFile p fd none).addRefcnt e (-1)
    let s := if (s.table e).refcnt = 0 then
        (s.vfsUnrefInode (s.table e).inode).setEntry e .unused
      else s
    (.ok (), if e < s.next then { s with next := e } else s)

/-- `process_free_fd` for each of the descriptors. -/
def freeAll (p : Nat) (fds : List Nat) (s : Files) : Files :=
  fds.foldl (fun s fd => (s.processFreeFd p fd).2) s

/-- Fill in the entry of a new descriptor. -/
def fill (p fd : Nat) (inode : Option Nat) (path : Option String) (mode offset : Int)
    (s : Files) : Files :=
  match s.files (p, fd) with
  | none => s
  | some e => s.setEntry e ⟨inode, path, mode, offset, (s.table e).refcnt⟩

/-- `fd < 0 || fd >= PROCESS_FILE_LIMIT` fails, with the descriptor as an index. -/
def descriptor (fd : Int) : Option Nat :=
  if 0 ≤ fd ∧ fd < PROCESS_FILE_LIMIT then some fd.toNat else none

def sysClose (p : Nat) (fd : Int) (s : Files) : Except Errno Unit × Files :=
  match descriptor fd with
  | none => (.error .EBADF, s)
  | some fd => s.processFreeFd p fd

/-- `fcntl_dupfd` for the descriptor `fd` of the entry `e`. -/
def fcntlDupfd (p fd e : Nat) (arg : Int) (cloexec : Bool) (s : Files) : Except Errno Int × Files :=
  match descriptor arg with
  | none => (.error .EINVAL, s)
  | some arg =>
    if fd = arg then (.ok fd, s)
    else
      match s.freeDescriptor p arg with
      | none => (.error .EMFILE, s)
      | some n =>
        let s := (s.setFile p n (some e)).addRefcnt e 1
        (.ok n, { s with
          fdflags := Function.update s.fdflags (p, n) (if cloexec then (FD_CLOEXEC : Int) else 0) })

inductive FcntlCmd
  | F_DUPFD
  | F_DUPFD_CLOEXEC
  | F_GETFD
  | F_SETFD
  | F_GETFL
  | F_SETFL
  | unknown
  deriving DecidableEq, Repr

def fcntl (p : Nat) (fd : Int) (cmd : FcntlCmd) (arg : Int) (s : Files) :
    Except Errno Int × Files :=
  match descriptor fd with
  | none => (.error .EBADF, s)
  | some fd =>
    match s.files (p, fd) with
    | none => (.error .EBADF, s)
    | some e =>
      match cmd with
      | .F_DUPFD => s.fcntlDupfd p fd e arg false
      | .F_DUPFD_CLOEXEC => s.fcntlDupfd p fd e arg true
      | .F_GETFD => (.ok (s.fdflags (p, fd)), s)
      | .F_SETFD => (.ok 0, { s with fdflags := Function.update s.fdflags (p, fd) arg })
      | .F_GETFL => (.ok (s.table e).mode, s)
      | .F_SETFL => (.ok 0, s.setEntry e { s.table e with mode := arg })
      | .unknown => (.error .EINVAL, s)

def sysDup (p : Nat) (fd : Int) (s : Files) : Except Errno Int × Files := s.fcntl p fd .F_DUPFD 0

def sysDup2 (p : Nat) (fd1 fd2 : Int) (s : Files) : Except Errno Int × Files :=
  (s.sysClose p fd2).2.fcntl p fd1 .F_DUPFD fd2

/-- What a lookup yields: a new inode, or one that is there already. -/
inductive Found
  | fresh
  | held (i : Nat)

/-- A lookup, which takes a reference to the inode. -/
def lookup (s : Files) : Found → Nat × Files
  | .fresh =>
    (s.nextInode, { s with
      inodes := Function.update s.inodes s.nextInode ⟨1, .plain⟩
      nextInode := s.nextInode + 1 })
  | .held i => (i, s.addRef i 1)

/-- How `sys_open` goes on behind `process_alloc_fd`. -/
inductive Opening
  /-- There is an error before the entry is filled in. -/
  | failed (e : Errno)
  /-- There is one afterwards; the inode is given back, and by `process_free_fd` once more. -/
  | refused (found : Found) (e : Errno)
  | opened (found : Found) (path : String) (mode offset : Int)

/-- The inode, if it is said to be there already. -/
def Opening.held : Opening → Option Nat
  | .failed _ | .refused .fresh _ | .opened .fresh .. => none
  | .refused (.held i) _ | .opened (.held i) .. => some i

/-- `process_alloc_fd` and what follows it in `sys_open`, where `fd` is 0, and in
`process_setup_std_streams`. -/
def openFile (p : Nat) (fd : Fin PROCESS_FILE_LIMIT) (how : Opening) (s : Files) :
    Except Errno Nat × Files :=
  match s.processAllocFd p fd with
  | (.error e, s) => (.error e, s)
  | (.ok n, s) =>
    match how with
    | .failed e => (.error e, (s.processFreeFd p n).2)
    | .refused found e =>
      let (i, s) := s.lookup found
      (.error e, (((s.fill p n (some i) none 0 0).vfsUnrefInode (some i)).processFreeFd p n).2)
    | .opened found path mode offset =>
      let (i, s) := s.lookup found
      (.ok n, s.fill p n (some i) (some path) mode offset)

/-- Which of the allocations of `sys_pipe` find memory. -/
structure PipeMemory where
  readInode : Bool
  writeInode : Bool
  pipe : Bool
  data : Bool

/-- The two inodes and the pipe that `sys_pipe` allocates. -/
def newPipe (s : Files) : Files :=
  { s with
    inodes := Function.update (Function.update s.inodes s.nextInode ⟨1, .pipeEnd false s.nextPipe⟩)
      (s.nextInode + 1) ⟨1, .pipeEnd true s.nextPipe⟩
    nextInode := s.nextInode + 2
    pipes := Function.update s.pipes s.nextPipe .zero
    nextPipe := s.nextPipe + 1 }

/-- The label `err` of `sys_pipe`: destroying the two inodes frees the pipe, and it is freed
once more. -/
def dropPipe (r w q : Nat) (s : Files) : Files :=
  ((s.vfsUnrefInode (some r)).vfsUnrefInode (some w)).kfreePipe q

/-- `sys_pipe`. `none` is a write through a null pointer: `pipe_destroy_inode` follows
`vi_private` of an inode without a pipe, or the entry of the read end is filled in after its
descriptor was freed. -/
def sysPipe (p : Nat) (memory : PipeMemory) (s : Files) : Option (Except Errno (Nat × Nat) × Files) :=
  if ¬(memory.readInode ∧ memory.writeInode ∧ memory.pipe) then
    if memory.readInode ∨ memory.writeInode then none else some (.error .ENOMEM, s)
  else
    let r := s.nextInode
    let w := s.nextInode + 1
    let q := s.nextPipe
    let s := s.newPipe
    if ¬memory.data then some (.error .ENOMEM, s.dropPipe r w q)
    else
      match s.processAllocFd p ⟨0, fileLimit_pos⟩ with
      | (.error _, s) => some (.error .ENFILE, s.dropPipe r w q)
      | (.ok readFd, s) =>
        match s.processAllocFd p ⟨0, fileLimit_pos⟩ with
        | (.error _, _) => none
        | (.ok writeFd, s) =>
          some (.ok (readFd, writeFd),
            (s.fill p readFd (some r) none O_RDONLY 0).fill p writeFd (some w) none O_WRONLY 0)

/-- The loop of `_task_fork` over the descriptors, from `fd` on. -/
def copyFiles (parent child : Nat) : List Nat → Files → Files
  | [], s => s
  | fd :: fds, s =>
    let t := s.setFile child fd (s.files (parent, fd))
    copyFiles parent child fds <|
      match s.files (parent, fd) with
      | none => t
      | some e => t.addRefcnt e 1

/-- The parts of `_task_fork` that concern files. Where memory runs out, nothing is copied. -/
def taskFork (parent : Nat) (memory : Bool) (s : Files) : Option Nat × Files :=
  match (List.range' 1 (PROCESS_LIMIT - 1)).find? fun pid => !s.live pid with
  | none => (none, s)
  | some child =>
    if ¬memory then (none, s)
    else
      let s := s.copyFiles parent child (List.range PROCESS_FILE_LIMIT)
      let s := { s with cwd := Function.update s.cwd child (s.cwd parent) }
      let s := s.vfsRefInode (s.cwd parent)
      (some child, { s with live := Function.update s.live child true })

/-- The parts of `process_free` that concern files. -/
def processFree (p : Nat) (s : Files) : Files :=
  if s.live p then
    let s := { s with live := Function.update s.live p false }
    let s := (s.vfsUnrefInode (s.cwd p)).freeAll p (List.range PROCESS_FILE_LIMIT)
    { s with fdflags := fun k => if k.1 = p then 0 else s.fdflags k }
  else s

/-- The loop of `process_exec` over the descriptors to be closed. -/
def closeOnExec (p : Nat) (s : Files) : Files :=
  s.freeAll p ((List.range PROCESS_FILE_LIMIT).filter fun fd =>
    decide (s.fdflags (p, fd) % 2 = (FD_CLOEXEC : Int)))

end Files

/-- What a process does to descriptors. -/
inductive FileCall
  | openFile (fd : Fin PROCESS_FILE_LIMIT) (how : Files.Opening)
  | pipe (memory : Files.PipeMemory)
  | close (fd : Int)
  | fcntl (fd : Int) (cmd : Files.FcntlCmd) (arg : Int)
  | dup (fd : Int)
  | dup2 (fd1 fd2 : Int)
  | fork (memory : Bool)
  | exec
  | exit

/-- The inode that an opening finds in use. -/
def FileCall.held : FileCall → Option Nat
  | .openFile _ how => how.held
  | _ => none

/-- The call of process `p`, which must exist. -/
def fileStep (s : Files) (call : Nat × FileCall) : Option Files :=
  let (p, call) := call
  if p < PROCESS_LIMIT ∧ s.live p ∧ call.held.all (· < s.nextInode) then
    match call with
    | .openFile fd how => some (s.openFile p fd how).2
    | .pipe memory => (s.sysPipe p memory).map (·.2)
    | .close fd => some (s.sysClose p fd).2
    | .fcntl fd cmd arg => some (s.fcntl p fd cmd arg).2
    | .dup fd => some (s.sysDup p fd).2
    | .dup2 fd1 fd2 => some (s.sysDup2 p fd1 fd2).2
    | .fork memory => some (s.taskFork p memory).2
    | .exec => some (s.closeOnExec p)
    | .exit => some (s.processFree p)
  else none

end Os0
