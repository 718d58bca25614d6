import Os0.Memory.Mman
import Os0.Process.Ids
import Os0.Process.Table

/-! An element of `process_table` from one process to the next: what `process_free` leaves in it
and what `_task_fork` takes over. All fields of `Process` are here, with what a pointer of it
points to in its place. -/
namespace Os0

open Option

def NR_ITIMERS : Nat := 3

/-- `struct rlimit`. -/
structure RLimit where
  cur : Nat
  max : Nat
  deriving DecidableEq, Repr

/-- `struct rusage`: the two times in microseconds and the counters. -/
structure RUsage where
  utime : Int
  stime : Int
  counters : Fin 14 → Int

/-- `siginfo_t`. -/
structure SigInfo where
  signo : Int
  code : Int
  pid : Int
  uid : UInt16
  addr : Nat
  deriving DecidableEq, Repr

/-- `Process`. -/
structure ProcessRecord where
  files : Nat → Option Nat
  fdflags : Nat → Int
  /-- `p_sigactions`, `p_sigblocked`, `p_sigpending`, `p_sig`, `p_pause`, `p_term` and
  `p_waitstat`. -/
  signals : Signals
  task : Option ProcessTask
  mregions : Option (List Region)
  cwd : Option Nat
  cwdpath : Option String
  brk : Nat
  initbreak : Nat
  maxbreak : Nat
  maxfds : Nat
  addrspace : RLimit
  coresize : RLimit
  cputime : RLimit
  filesize : RLimit
  memlock : RLimit
  rusage : RUsage
  cusage : RUsage
  siginfo : SigInfo
  children : Nat
  umask : Nat
  cred : Credentials
  pgid : Int
  sid : Int
  itimers : Nat → ITimer

namespace ProcessRecord

/-- A process before the table was used. -/
def zero : ProcessRecord where
  files := fun _ => none
  fdflags := fun _ => 0
  signals := .cleared
  task := none
  mregions := none
  cwd := none
  cwdpath := none
  brk := 0
  initbreak := 0
  maxbreak := 0
  maxfds := 0
  addrspace := ⟨0, 0⟩
  coresize := ⟨0, 0⟩
  cputime := ⟨0, 0⟩
  filesize := ⟨0, 0⟩
  memlock := ⟨0, 0⟩
  rusage := ⟨0, 0, fun _ => 0⟩
  cusage := ⟨0, 0, fun _ => 0⟩
  siginfo := ⟨0, 0, 0, 0, 0⟩
  children := 0
  umask := 0
  cred := ⟨⟨0, 0, 0⟩, ⟨0, 0, 0⟩⟩
  pgid := 0
  sid := 0
  itimers := fun _ => ⟨0, 0, 0, 0⟩

/-- `process_clear` of a process that ends. -/
def processClear (p : ProcessRecord) : ProcessRecord :=
  { p with
    mregions := none
    task := none
    initbreak := 0
    brk := 0
    maxbreak := 0
    maxfds := 0
    signals := .cleared
    umask := 0
    cred := ⟨⟨0, 0, 0⟩, ⟨0, 0, 0⟩⟩
    pgid := 0
    sid := 0
    addrspace := ⟨0, 0⟩
    coresize := ⟨0, 0⟩
    cputime := ⟨0, 0⟩
    filesize := ⟨0, 0⟩
    memlock := ⟨0, 0⟩
    rusage := ⟨0, 0, fun _ => 0⟩
    cusage := ⟨0, 0, fun _ => 0⟩
    siginfo := ⟨0, 0, 0, 0, 0⟩ }

/-- `process_free`. The pointers to the working directory and its path stay. -/
def processFree (p : ProcessRecord) : ProcessRecord :=
  { p.processClear with
    files := fun _ => none
    fdflags := fun _ => 0 }

/-- The regions of a child; the memory for the `i`-th held `offsets i` where `pm_offset` is. -/
def copyRegions (offsets : Nat → Int) (regions : List Region) : List Region :=
  regions.mapIdx fun i r => { r with offset := offsets i }

/-- The part of `_task_fork` that fills the entry of the child of `ppid`. -/
def taskFork (parent : ProcessRecord) (ppid : Nat) (offsets : Nat → Int) (slot : ProcessRecord) :
    ProcessRecord :=
  { slot with
    files := parent.files
    cwd := parent.cwd
    cwdpath := parent.cwdpath
    cred := parent.cred
    pgid := parent.pgid
    sid := parent.sid
    maxbreak := parent.maxbreak
    maxfds := parent.maxfds
    addrspace := parent.addrspace
    coresize := parent.coresize
    cputime := parent.cputime
    filesize := parent.filesize
    memlock := parent.memlock
    signals := { slot.signals with
      blocked := parent.signals.blocked
      pending := parent.signals.pending }
    mregions := some (copyRegions offsets (parent.mregions.getD []))
    task := some ⟨ppid⟩ }

def sysSetitimer (which : Int) (new : ITimer) (p : ProcessRecord) :
    Except Errno ITimer × ProcessRecord :=
  if which < 0 ∨ (NR_ITIMERS : Int) ≤ which then (.error .EINVAL, p)
  else (.ok (p.itimers which.toNat),
    { p with itimers := Function.update p.itimers which.toNat new })

/-- What can happen to an entry. -/
inductive Event
  | fork (parent : ProcessRecord) (ppid : Nat) (offsets : Nat → Int)
  /-- A system call, a signal, a timer or a relative changes fields of a process that lives. -/
  | act (change : ProcessRecord → ProcessRecord)
  | free
  /-- Others write into an entry that is free. `process_send_signal` does not look at `p_task`: it
  is called for the parent of an orphan, for the group of a terminal, and by `sys_kill`, whose
  target can be freed behind its check. The loops over `t_ppid` count an orphan's children and its
  end in the entry of its parent before they read the task. -/
  | stray (sig : Nat) (term : Bool) (waitstat : Nat) (info : SigInfo) (children : Nat)

/-- One step in the history of an entry. -/
def step (p : ProcessRecord) : Event → Option ProcessRecord
  | .fork parent ppid offsets => if p.task.isNone then some (taskFork parent ppid offsets p) else none
  | .act change => if p.task.isSome then some { change p with task := p.task } else none
  | .free => if p.task.isSome then some p.processFree else none
  | .stray sig term waitstat info children =>
    if p.task.isNone then
      some { p with
        signals := { p.signals with sig, term, waitstat }
        siginfo := info
        children }
    else none

/-! ## What an entry holds when it is free -/

/-- What `process_free` leaves, or what others write later: the timers, the counter of children,
`p_siginfo`, and of the signals `p_sig`, `p_term` and `p_waitstat`. -/
def leftover (p : ProcessRecord) : ProcessRecord :=
  { zero with
    signals := { Signals.cleared with
      sig := p.signals.sig
      term := p.signals.term
      waitstat := p.signals.waitstat }
    siginfo := p.siginfo
    children := p.children
    itimers := p.itimers }

/-- Nothing but that and the pointers to the working directory. -/
def Blank (p : ProcessRecord) : Prop :=
  p = { p.leftover with cwd := p.cwd, cwdpath := p.cwdpath }

variable {p : ProcessRecord}

variable {k : Kernel} {pid : Nat}

theorem blank_zero : Blank zero := rfl

theorem blank_processFree (p : ProcessRecord) : Blank p.processFree := rfl

/-- Free entries are blank. -/
def FreeBlank (p : ProcessRecord) : Prop := p.task = none → p.Blank

theorem step_freeBlank {q : ProcessRecord} {e : Event} (blank : FreeBlank p)
    (h : p.step e = some q) : FreeBlank q := by
  intro free
  cases e with
  | fork =>
    obtain ⟨-, made⟩ := ite_none_right_eq_some.1 h
    cases made
    cases free
  | act =>
    obtain ⟨live, made⟩ := ite_none_right_eq_some.1 h
    cases made
    rw [free] at live
    cases live
  | free =>
    obtain ⟨-, made⟩ := ite_none_right_eq_some.1 h
    cases made
    exact blank_processFree p
  | stray =>
    obtain ⟨unused, made⟩ := ite_none_right_eq_some.1 h
    cases made
    unfold Blank
    rw [blank (isNone_iff_eq_none.1 unused)]
    rfl

/-- An entry with a history since the table was first used. -/
abbrev History (events : List Event) (p : ProcessRecord) : Prop :=
  Runs.Run (Runs.partialGraph step) zero events p

theorem History.freeBlank {events : List Event} (history : History events p) : FreeBlank p :=
  history.invariant (I := FreeBlank) (fun _ _ _ blank step => step_freeBlank blank step)
    fun _ => blank_zero

theorem taskFork_blank (blank : p.Blank) (parent : ProcessRecord) (ppid : Nat)
    (offsets : Nat → Int) : taskFork parent ppid offsets p =
      taskFork parent ppid offsets p.leftover := by
  rw [blank]
  rfl

/-- Two histories have left the same in an entry, as far as a fork keeps it. -/
structure SameLeft (p p' : ProcessRecord) : Prop where
  itimers : p.itimers = p'.itimers
  children : p.children = p'.children
  sig : p.signals.sig = p'.signals.sig
  term : p.signals.term = p'.signals.term
  waitstat : p.signals.waitstat = p'.signals.waitstat
  siginfo : p.siginfo = p'.siginfo

theorem SameLeft.leftover {p p' : ProcessRecord} (h : SameLeft p p') :
    p.leftover = p'.leftover := by
  simp only [ProcessRecord.leftover, h.itimers, h.children, h.sig, h.term, h.waitstat, h.siginfo]

/-- Two histories of an entry make no difference to a child in it if and only if they have left
the same timers, the same number of children, and the same signal with the same state. -/
theorem reused_entry_child {events events' : List Event} {p p' : ProcessRecord}
    (history : History events p) (history' : History events' p')
    (free : p.task = none) (free' : p'.task = none) (parent : ProcessRecord) (ppid : Nat)
    (offsets : Nat → Int) :
    taskFork parent ppid offsets p = taskFork parent ppid offsets p' ↔ SameLeft p p' := by
  constructor
  · intro same
    constructor
    case itimers => exact congrArg (·.itimers) same
    case children => exact congrArg (·.children) same
    case sig => exact congrArg (·.signals.sig) same
    case term => exact congrArg (·.signals.term) same
    case waitstat => exact congrArg (·.signals.waitstat) same
    case siginfo => exact congrArg (·.siginfo) same
  · intro left
    rw [taskFork_blank (history.freeBlank free), taskFork_blank (history'.freeBlank free'),
      left.leftover]

/-- A process that does nothing. -/
def plainLife : List Event := [.fork zero 0 fun _ => 0, .free]

theorem plainLife_history : History plainLife (taskFork zero 0 (fun _ => 0) zero).processFree :=
  .cons rfl (.cons rfl (.nil _))

theorem reused_entry_child_plain :
    taskFork zero 0 (fun _ => 0) (taskFork zero 0 (fun _ => 0) zero).processFree =
      taskFork zero 0 (fun _ => 0) zero :=
  (reused_entry_child plainLife_history (.nil zero) rfl rfl zero 0 fun _ => 0).2
    ⟨rfl, rfl, rfl, rfl, rfl, rfl⟩

/-- A process that sets a timer of five seconds. -/
def timerLife : List Event :=
  [.fork zero 0 fun _ => 0, .act fun p => (p.sysSetitimer 0 ⟨5, 0, 0, 0⟩).2, .free]

/-- The next process in the entry has the timer. -/
theorem timer_left_in_entry : ∃ p, History timerLife p ∧ p.task = none ∧
    taskFork zero 0 (fun _ => 0) p ≠ taskFork zero 0 (fun _ => 0) zero := by
  refine ⟨_, .cons rfl (.cons rfl (.cons rfl (.nil _))), rfl, fun same => ?_⟩
  have timers : ITimer.sec _ = ITimer.sec _ := congrArg (fun p => (p.itimers 0).sec) same
  exact absurd timers (by decide)

/-! ## The entries of the process table -/

/-- The fields that the model of the process table has. -/
def entry (p : ProcessRecord) : ProcessEntry where
  task := p.task
  children := p.children
  pgid := p.pgid
  sid := p.sid
  euid := p.cred.user.effective
  signals := p.signals
  timer := p.itimers 0

theorem entry_processClear (h : k.table pid = p.entry) :
    (k.processClear pid false).table pid = p.processFree.entry := by
  simp only [Kernel.processClear, Kernel.set_table, h]
  rfl

/-- `SIGCHLD` to a parent that is gone is one of the writes into a free entry. -/
theorem entry_notify (h : k.table pid = p.entry) (free : p.task = none) (blank : p.Blank) :
    ∃ q, p.step (.stray SIGCHLD p.signals.term p.signals.waitstat p.siginfo p.children) = some q ∧
      (k.notify pid).1.table pid = q.entry := by
  refine ⟨_, if_pos (by simp [free]), ?_⟩
  have default : p.signals.receive SIGCHLD = (p.signals, .caught) := by
    rw [show p.signals = p.leftover.signals from congrArg (·.signals) blank]
    simp [leftover, Signals.receive, Signals.isBlocked, Signals.isIgnored, Signals.exits,
      Signals.stopping, Signals.continued, Signals.cleared, SigSet.empty, SigAction.plain,
      SigAction.none, terminates, stops, SIGCHLD, SIGKILL, SIGSTOP, SIGCONT, SIG_IGN, SIG_DFL]
  have received : p.entry.signals.receive SIGCHLD = (p.entry.signals, .caught) := default
  simp only [Kernel.notify, h, received, Kernel.setSignals, Kernel.set_table]
  rfl

theorem entry_taskFork {parent : ProcessRecord} (h : k.table pid = p.entry)
    (h' : k.table k.current = parent.entry) (offsets : Nat → Int) :
    k.childEntry pid = (taskFork parent k.current offsets p).entry := by
  simp only [Kernel.childEntry, h, h']
  rfl

end ProcessRecord

end Os0
