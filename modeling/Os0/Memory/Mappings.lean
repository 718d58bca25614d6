import Os0.Memory.Calls
import Os0.Process.Files

/-! The memory regions of all processes: `sys_mmap` and `sys_munmap` with the open files of
the caller, and the parts of `_task_fork` (`arch/i386/task.c`) and `process_free`
(`kernel/process.c`) that copy and free region tables. What those two do to page directories
is left open: a step is given the memory they leave. -/
namespace Os0

/-- The counts of references as the calls on an address space leave them. -/
def Files.setRefs (f : Files) (refs : Nat → Int) : Files :=
  { f with inodes := fun i => { f.inodes i with refcnt := refs i } }

/-- What `sys_mmap` reads of an inode. -/
structure InodeData where
  regular : Bool
  size : Int
  read : Nat → Int → List UInt8 × Option Errno

structure Mappings where
  files : Files
  mem : Memory
  /-- `p_mregions` of each process. -/
  regions : Nat → Option (SortedArray Nat)
  /-- The records that are allocated. -/
  records : Nat → Option Region
  /-- The name of the next record. -/
  next : Nat
  /-- Whether the coming calls of `kmalloc` find memory. -/
  kmallocs : List Bool
  /-- `t_pgdir` of each process. -/
  pgdir : Nat → Nat
  data : Nat → InodeData

namespace AddrSpace

/-- `sorted_array_new`, and whether it returns an array. -/
def newTable (a : AddrSpace) : Bool × AddrSpace :=
  match a.kmalloc with
  | (none, a) => (false, a)
  | (some _, a) =>
    match a.kmalloc with
    | (none, a) => (false, a)
    | (some _, a) => (true, a)

/-- The loop of `_task_fork` over the regions `ps` of the parent, with the new table in `a` if
it was made. The result tells whether there was memory for all copies; `none` is an insertion
into a table that was not made. The offset of a copy is not set. -/
def copyRegions (junk : Int) (made : Bool) : List Nat → AddrSpace → Option (Bool × AddrSpace)
  | [], a => some (true, a)
  | p :: ps, a =>
    match a.kmalloc with
    | (none, a) => some (false, a)
    | (some new, a) =>
      if ¬made then none
      else
        (a.records p).bind fun r =>
          ((a.countRef r.ino 1).addRegion new { r with offset := junk }).bind
            (copyRegions junk made ps)

end AddrSpace

namespace Mappings

/-- The names in the table of a process, none if it has no table. -/
def elems (s : Mappings) (p : Nat) : List Nat := ((s.regions p).map (·.elems)).getD []

/-- The regions of a process. -/
def table (s : Mappings) (p : Nat) : List Region := (s.elems p).filterMap s.records

/-- The address space of a process with the given table. The calls here do not look at the
heap. -/
def space (s : Mappings) (p : Nat) (regions : SortedArray Nat) : AddrSpace where
  mem := { s.mem with currDir := s.pgdir p }
  regions := regions
  records := s.records
  next := s.next
  kmallocs := s.kmallocs
  refs i := (s.files.inodes i).refcnt
  initBreak := 0
  brk := 0
  pid := p

/-- The state after a call that leaves process `p` with the address space `a`. -/
def back (s : Mappings) (p : Nat) (a : AddrSpace) : Mappings :=
  { s with
    files := s.files.setRefs a.refs
    mem := a.mem
    regions := Function.update s.regions p (some a.regions)
    records := a.records
    next := a.next
    kmallocs := a.kmallocs }

/-- The open file of a descriptor. -/
def openFile (s : Mappings) (p : Nat) (fd : Int) : Option OpenFile :=
  (Files.descriptor fd).bind fun fd => (s.files.files (p, fd)).bind fun e =>
    (s.files.table e).inode.map fun i =>
      { inode := i
        regular := (s.data i).regular
        size := (s.data i).size
        mode := ((s.files.table e).mode % 4294967296).toNat
        read := (s.data i).read }

/-- `sys_mmap` of process `p`; `none` also if it has no table. -/
def sysMmap (p addr len prot flags : Nat) (fd offset : Int) (s : Mappings) :
    Option (Except Errno Nat × Mappings) :=
  (s.regions p).bind fun regions =>
    ((s.space p regions).sysMmap addr len prot flags (s.openFile p fd) offset).map
      fun (ret, a) => (ret, s.back p a)

/-- `sys_munmap` of process `p`. -/
def sysMunmap (p addr len : Nat) (s : Mappings) : Option (Except Errno Unit × Mappings) :=
  (s.regions p).bind fun regions =>
    ((s.space p regions).sysMunmap addr len).map fun (ret, a) => (ret, s.back p a)

/-- `sorted_array_destroy` with `process_region_free`: the records go, the references of their
inodes stay. -/
def freeRegions (names : List Nat) (s : Mappings) : Mappings :=
  { s with records := fun n => if n ∈ names then none else s.records n }

/-- The label `err` of `_task_fork`, with the copies made so far in `a`. -/
def abandon (a : AddrSpace) (s : Mappings) : Mappings :=
  freeRegions a.regions.elems { s with
    files := s.files.setRefs a.refs
    records := a.records
    next := a.next
    kmallocs := a.kmallocs }

/-- The end of `_task_fork`, where nothing can fail any more. -/
def adopt (parent child dir : Nat) (made : Bool) (a : AddrSpace) (s : Mappings) : Mappings :=
  { s with
    files := ((s.files.setRefs a.refs).taskFork parent true).2
    regions := Function.update s.regions child (if made then some a.regions else none)
    records := a.records
    next := a.next
    kmallocs := a.kmallocs
    pgdir := Function.update s.pgdir child dir }

/-- `_task_fork` of the process `parent`. `pages` is the new page directory, if there were
frames for it and for the stack, and the memory after the call. `none` is a null pointer
followed, or `mregions` used before it is set. -/
def taskFork (parent : Nat) (pages : Option Nat × Memory) (junk : Int) (s : Mappings) :
    Option Mappings :=
  match (List.range' 1 (PROCESS_LIMIT - 1)).find? fun pid => !s.files.live pid with
  | none => some s
  | some child =>
    let s := { s with mem := pages.2 }
    match pages.1 with
    | none => some s
    | some dir =>
      -- the task
      match (s.space child (.place PROCESS_MMAP_LIMIT)).kmalloc with
      | (none, _) => none
      | (some _, a) =>
        let (made, a) := a.newTable
        (a.copyRegions junk made (s.elems parent)).bind fun
          | (false, a) => some (s.abandon a)
          | (true, a) =>
            -- `strdup` of the path of the working directory
            match a.kmalloc with
            | (none, a) => some (s.abandon a)
            | (some _, a) => some (s.adopt parent child dir made a)

/-- `process_free`, with the memory it leaves. -/
def processFree (p : Nat) (mem : Memory) (s : Mappings) : Mappings :=
  if s.files.live p then
    { s.freeRegions (s.elems p) with
      files := s.files.processFree p
      mem := mem
      regions := Function.update s.regions p none }
  else s

end Mappings

/-- What a process does to regions. -/
inductive MapCall
  | mmap (addr len prot flags : UInt32) (fd offset : Int)
  | munmap (addr len : UInt32)
  | fork (pages : Option Nat × Memory) (junk : Int)
  | exit (mem : Memory)

/-- The call of process `p`, which must exist. -/
def mapStep (s : Mappings) (call : Nat × MapCall) : Option Mappings :=
  let (p, call) := call
  if s.files.live p then
    match call with
    | .mmap addr len prot flags fd offset =>
      (s.sysMmap p addr.toNat len.toNat prot.toNat flags.toNat fd offset).map (·.2)
    | .munmap addr len => (s.sysMunmap p addr.toNat len.toNat).map (·.2)
    | .fork pages junk => s.taskFork p pages junk
    | .exit mem => some (s.processFree p mem)
  else none

end Os0
