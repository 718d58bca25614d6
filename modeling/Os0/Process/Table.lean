import Os0.Lib.ParentTree
import Os0.Process.Signal

/-! The process table and what moves it: fork, exit and wait4, the scheduler's interrupt
handler `irq8`, and the senders of signals (kill, the terminal, the interval timer).
System calls run with interrupts enabled, so a task may be switched away between two of
the steps below; what it still has to do is kept in its stack of frames. -/
namespace Os0

open Bytes List Option

def PROCESS_LIMIT : Nat := 256
def WNOHANG : Nat := 1

/-- `ProcessTask`; `t_pid` is the index of the entry that points to it. -/
structure ProcessTask where
  ppid : Nat
  deriving DecidableEq, Repr

/-- `struct itimerval`: the time left and the time to start again with. -/
structure ITimer where
  sec : Int
  usec : Nat
  intervalSec : Int
  intervalUsec : Nat
  deriving DecidableEq, Repr

/-- One element of `process_table`. -/
structure ProcessEntry where
  /-- `p_task`, `NULL` in a free entry. -/
  task : Option ProcessTask
  children : Nat
  pgid : Int
  sid : Int
  euid : UInt16
  signals : Signals
  /-- `p_itimers[ITIMER_REAL]`. -/
  timer : ITimer

/-- What a task still has to do in the kernel. -/
inductive Frame
  /-- A call of `process_send_signal` by `kill`, the terminal or the timer. -/
  | send (pid sig : Nat)
  /-- The end of `process_send_signal` after the task gave way to notify itself. -/
  | sent (pid sig : Nat)
  | killpg (i : Nat) (pgid : Int) (sig : Nat)
  | tty (i sig : Nat)
  | timer (i : Nat)
  | wait (pid : Int)
  /-- A signal handler in user mode. -/
  | handler
  deriving DecidableEq, Repr

/-- The fields of the active terminal that decide about signals. -/
structure Terminal where
  lflag : Nat
  cc : Nat → UInt8
  /-- `TTY_QUOTE_INPUT`. -/
  quote : Bool
  fgPgid : Int

structure Kernel where
  table : Nat → ProcessEntry
  /-- The tasks in the order of `task_queue`, the kernel task first. -/
  queue : List Nat
  current : Nat
  exitTask : Nat
  switchEnabled : Bool
  /-- `process_signal` and `process_signal_handler`. -/
  signal : Nat
  handler : Nat
  tty : Terminal
  kstack : Nat → List Frame

namespace Kernel

def set (k : Kernel) (pid : Nat) (e : ProcessEntry) : Kernel :=
  { k with table := fun i => if i = pid then e else k.table i }

def setSignals (k : Kernel) (pid : Nat) (signals : Signals) : Kernel :=
  k.set pid { k.table pid with signals }

def setStack (k : Kernel) (pid : Nat) (frames : List Frame) : Kernel :=
  { k with kstack := fun i => if i = pid then frames else k.kstack i }

/-- Enter a kernel function with these frames. -/
def push (k : Kernel) (frames : List Frame) : Kernel :=
  k.setStack k.current (frames ++ k.kstack k.current)

def live (k : Kernel) (pid : Nat) : Bool := (k.table pid).task.isSome

def parent (k : Kernel) (pid : Nat) : Option Nat := (k.table pid).task.map ProcessTask.ppid

def processValid (k : Kernel) (pid : Int) : Bool :=
  decide (0 ≤ pid) && decide (pid < PROCESS_LIMIT) && k.live pid.toNat

/-- The entries from `pid` upwards that the loops over `t_ppid` visit. `none`: a `NULL` task
is dereferenced, or the loop does not end. -/
def ancestors (k : Kernel) (pid : Nat) : Option (List Nat) :=
  ParentTree.walk k.parent 0 PROCESS_LIMIT pid

/-- Change `p_children` of each of the entries. -/
def adjustChildren (k : Kernel) (f : Nat → Nat) (pids : List Nat) : Kernel :=
  pids.foldl (fun k pid => k.set pid { k.table pid with children := f (k.table pid).children }) k

/-- `process_clear`. The child counter and the timers stay as they are. -/
def processClear (k : Kernel) (pid : Nat) (keepTask : Bool) : Kernel :=
  { k.set pid { k.table pid with
      task := if keepTask then (k.table pid).task else none
      pgid := 0
      sid := 0
      euid := 0
      signals := .cleared } with
    queue := if keepTask then k.queue else k.queue.erase pid }

def processFree (k : Kernel) (pid : Nat) : Option Kernel :=
  match (k.table pid).task with
  | none => some k
  | some task =>
    (k.ancestors task.ppid).map fun pids =>
      (k.adjustChildren (fun n => sub32 n 1) (pids ++ [0])).processClear pid false

/-- The search of `irq8` for a task to run: the rest of the queue, then its head, the kernel
task. A terminated task is passed over, and freed if it is `exit_task`. -/
def scan : List Nat → Kernel → Option (Nat × Kernel)
  | [], k => if (k.table 0).signals.term then none else some (0, k)
  | pid :: rest, k =>
    if (k.table pid).signals.term then
      if k.exitTask = pid then
        (k.processFree pid).bind fun k => scan rest { k with exitTask := 0 }
      else scan rest k
    else some (pid, k)

/-- The tasks behind the current one. -/
def behind (k : Kernel) : List Nat := (k.queue.dropWhile fun pid => pid != k.current).tail

/-- Continue `pid`: it looks for a signal to handle, and starts the handler first. -/
def switchTo (k : Kernel) (pid : Nat) : Kernel :=
  let (signals, function) := (k.table pid).signals.handle
  let k := { k.setSignals pid signals with
    current := pid
    signal := signals.sig
    handler := if signals.sig = 0 then k.handler else function }
  if k.signal ≠ 0 ∧ k.handler ≠ 0 then { k.push [.handler] with switchEnabled := false }
  else k

/-- A task switch; `task_yield` is the same by hand. -/
def irq8 (k : Kernel) : Option Kernel :=
  if k.switchEnabled then (scan k.behind k).map fun next => next.2.switchTo next.1
  else some k

/-- `process_send_signal (ppid, SIGCHLD)`, and whether it ends with `task_yield`. -/
def notify (k : Kernel) (ppid : Nat) : Kernel × Bool :=
  match (k.table ppid).signals.receive SIGCHLD with
  | (signals, .caught) =>
    ({ k.setSignals ppid (signals.arrive SIGCHLD) with switchEnabled := true }, ppid == k.current)
  | (signals, _) => ({ k.setSignals ppid signals with switchEnabled := true }, false)

/-- The end of `process_send_signal`. -/
def finishSend (k : Kernel) (pid sig : Nat) : Option Kernel :=
  let k := { k.setSignals pid ((k.table pid).signals.arrive sig) with switchEnabled := true }
  if pid = k.current then k.irq8 else some k

def notifyParent (k : Kernel) (ppid pid sig : Nat) : Option Kernel :=
  if ppid = 0 then k.finishSend pid sig
  else
    let (k, yields) := k.notify ppid
    if yields then (k.push [.sent pid sig]).irq8 else k.finishSend pid sig

/-- `process_send_signal`; `none` is the `NULL` dereference of a target without a task. -/
def sendSignal (k : Kernel) (pid sig : Nat) : Option Kernel :=
  match (k.table pid).signals.receive sig with
  | (signals, .returned) => some { k.setSignals pid signals with switchEnabled := true }
  | (signals, .caught) => (k.setSignals pid signals).finishSend pid sig
  | (signals, .exit) =>
    (k.table pid).task.bind fun task =>
      notifyParent { k.setSignals pid signals with exitTask := pid } task.ppid pid sig
  | (signals, .stop notifies) =>
    if notifies then
      (k.table pid).task.bind fun task =>
        (k.setSignals pid signals).notifyParent task.ppid pid sig
    else (k.setSignals pid signals).finishSend pid sig

/-- The first free entry. -/
def freeEntry (k : Kernel) : Option Nat :=
  (List.range' 1 (PROCESS_LIMIT - 1)).find? fun pid => !k.live pid

/-- The entry of a child: what it inherits, and what its slot held before. -/
def childEntry (k : Kernel) (pid : Nat) : ProcessEntry :=
  let proc := k.table pid
  let parent := k.table k.current
  { proc with
    task := some ⟨k.current⟩
    pgid := parent.pgid
    sid := parent.sid
    euid := parent.euid
    signals := { proc.signals with
      blocked := parent.signals.blocked
      pending := parent.signals.pending } }

/-- `sys_fork`; `memory` says whether the clone of the address space and the allocations
succeed. The first part of the result is the child, `none` for `-ENOMEM`. -/
def sysFork (k : Kernel) (memory : Bool) : Option (Option Nat × Kernel) :=
  match k.freeEntry with
  | none => some (none, { k with switchEnabled := true })
  | some pid =>
    if !memory then some (none, { k with switchEnabled := true })
    else
      (k.ancestors k.current).map fun pids =>
        let k := k.adjustChildren (fun n => add32 n 1) (pids ++ [0])
        (some pid, { (k.set pid (k.childEntry pid)).setStack pid (k.kstack k.current) with
          queue := k.queue ++ [pid]
          switchEnabled := true })

/-- `sys_exit` as one step. The source leaves interrupts enabled in it; that a timer interrupt
comes between the store to `p_term` and `task_yield` is not modelled. -/
def sysExit (k : Kernel) (code : Int) : Option Kernel :=
  if k.current = 0 then none
  else
    (k.table k.current).task.bind fun task =>
      let signals := { (k.table k.current).signals with
        term := true
        waitstat := (code % 256).toNat * 256 }
      let k := { k.setSignals k.current signals with exitTask := k.current }
      let k := if task.ppid = 0 then k else (k.notify task.ppid).1
      k.irq8

/-- The loop of `wait_get_status`: the child of the caller that `temp` is or descends from,
or 0. -/
def childAbove (k : Kernel) : Nat → Nat → Option Nat
  | fuel, temp =>
    if temp = 0 then some 0
    else match fuel with
      | 0 => none
      | fuel + 1 =>
        (k.parent temp).bind fun ppid =>
          if ppid = k.current then some temp else k.childAbove fuel ppid

/-- `wait_get_status`: the process and its status, or `none` for a result of 0. -/
def waitGetStatus (k : Kernel) (pid : Int) : Option (Option (Nat × Nat)) :=
  if k.exitTask = 0 then some none
  else if pid = -1 ∨ pid = 0 then
    (k.childAbove PROCESS_LIMIT k.exitTask).map fun temp =>
      if temp = 0 then none
      else if pid ≠ -1 ∧ (k.table k.current).pgid ≠ (k.table temp).pgid then none
      else some (temp, (k.table temp).signals.waitstat)
  else if (k.exitTask : Int) ≠ pid then some none
  else some (some (k.exitTask, (k.table k.exitTask).signals.waitstat))

end Kernel

/-- What a system call gives back to its caller. -/
inductive Reply
  | nothing
  | failed (e : Errno)
  | forked (pid : Nat)
  | waited (pid status : Nat)
  deriving DecidableEq, Repr

namespace Kernel

/-- One round of the loop of `wait4`; the frame stays until there is a status. -/
def poll (k : Kernel) (pid : Int) (rest : List Frame) : Option (Kernel × Reply) :=
  (k.waitGetStatus pid).map fun
    | none => (k, .nothing)
    | some (temp, status) => (k.setStack k.current rest, .waited temp status)

/-- `-pid` in the 16 bits of `pid_t`. -/
def negPid (pid : Int) : Int := if pid = -32768 then pid else -pid

/-- `wait4`. -/
def sysWait4 (k : Kernel) (pid : Int) (options : Nat) : Option (Kernel × Reply) :=
  let pid := if pid < -1 then negPid pid else pid
  if (k.table k.current).children = 0 then some (k, .failed .ECHILD)
  else if 0 < pid ∧ !k.processValid pid then some (k, .failed .ESRCH)
  else if hasFlag options WNOHANG then
    (k.waitGetStatus pid).map fun
      | none => (k, .nothing)
      | some (temp, status) => (k, .waited temp status)
  else some (k.push [.wait pid], .nothing)

/-- The checks of `sys_kill` for one process. -/
def mayKill (k : Kernel) (pid : Int) : Except Errno Unit :=
  if !k.processValid pid then .error .ESRCH
  else if (k.table k.current).euid ≠ 0 ∧
      (k.table k.current).euid ≠ (k.table pid.toNat).euid then .error .EPERM
  else .ok ()

def sysKill (k : Kernel) (pid sig : Int) : Kernel × Reply :=
  if sig < 0 ∨ (NSIG : Int) ≤ sig then (k, .failed .EINVAL)
  else if pid = -1 then (k, .failed .ENOSYS)
  else if pid ≤ 0 then (k.push [.killpg 1 (negPid pid) sig.toNat], .nothing)
  else match k.mayKill pid with
    | .error e => (k, .failed e)
    | .ok _ => (k.push [.send pid.toNat sig.toNat], .nothing)

def sysSetpgid (k : Kernel) (pid pgid : Int) : Kernel × Reply :=
  if pgid < 0 then (k, .failed .EINVAL)
  else
    let pid := if pid = 0 then (k.current : Int) else pid
    let pgid := if pgid = 0 then (k.current : Int) else pgid
    if !k.processValid pid then (k, .failed .ESRCH)
    else if (k.table pid.toNat).sid = pid then (k, .failed .EPERM)
    else if k.processValid pgid ∧ (k.table pid.toNat).sid ≠ (k.table pgid.toNat).sid then
      (k, .failed .EPERM)
    else (k.set pid.toNat { k.table pid.toNat with pgid }, .nothing)

def sysSetsid (k : Kernel) : Kernel × Reply :=
  if (List.range PROCESS_LIMIT).any fun i =>
      i != k.current && (k.table i).pgid == (k.current : Int) then
    (k, .failed .EPERM)
  else
    (k.set k.current { k.table k.current with pgid := k.current, sid := k.current }, .nothing)

/-- `TIOCSPGRP` on a descriptor that is a terminal or not. Only session 0 has one. -/
def tiocspgrp (k : Kernel) (tty : Bool) (pgid : Int) : Kernel × Reply :=
  if (k.table k.current).sid = 0 ∧ tty then
    ({ k with tty := { k.tty with fgPgid := pgid } }, .nothing)
  else (k, .failed .ENOTTY)

end Kernel

def VINTR : Nat := 0
def VQUIT : Nat := 1
def VERASE : Nat := 2
def VKILL : Nat := 3
def VEOF : Nat := 4
def VSUSP : Nat := 9
def VEOL : Nat := 10
def VREPRINT : Nat := 11
def VWERASE : Nat := 13
def VLNEXT : Nat := 14
def VEOL2 : Nat := 15

def ISIG : Nat := 0x1
def ICANON : Nat := 0x2
def IEXTEN : Nat := 0x8000

inductive LineEdit
  | flush
  | erase
  | kill
  | eraseWord
  | reprint
  | quote
  deriving DecidableEq, Repr

namespace Terminal

/-- `CHAR_MATCH`; a `char` of 0x80 or more is negative and matches nothing. -/
def charMatch (t : Terminal) (c : UInt8) (i : Nat) : Bool :=
  c.toNat < 0x80 && c == t.cc i && t.cc i != 0xff

/-- What canonical mode does with a character it takes for itself. -/
def canonical (t : Terminal) (c : UInt8) (bufferEmpty : Bool) : Option LineEdit :=
  if c == 10 || t.charMatch c VEOL || t.charMatch c VEOL2 then some .flush
  else if t.charMatch c VEOF && bufferEmpty then some .flush
  else if t.charMatch c VERASE then some .erase
  else if t.charMatch c VKILL then some .kill
  else if !hasFlag t.lflag IEXTEN then none
  else if t.charMatch c VWERASE then some .eraseWord
  else if t.charMatch c VREPRINT then some .reprint
  else if t.charMatch c VLNEXT then some .quote
  else none

/-- The signal that `tty_process_input` sends for a character, and the quoting state. -/
def input (t : Terminal) (c : UInt8) (bufferEmpty : Bool) : Terminal × Option Nat :=
  if t.quote then ({ t with quote := false }, none)
  else match (if hasFlag t.lflag ICANON then t.canonical c bufferEmpty else none) with
    | some edit => ({ t with quote := edit == .quote }, none)
    | none =>
      if !hasFlag t.lflag ISIG then (t, none)
      else if t.charMatch c VINTR then (t, some SIGINT)
      else if t.charMatch c VSUSP then (t, some SIGTSTP)
      else if t.charMatch c VQUIT then (t, some SIGQUIT)
      else (t, none)

end Terminal

/-- One millisecond of the interval timer, and whether it has run out. -/
def ITimer.tick (t : ITimer) : ITimer × Bool :=
  if t.sec = 0 ∧ t.usec = 0 then (t, false)
  else
    let t := if 1000 ≤ t.usec then { t with usec := t.usec - 1000 }
      else if 0 < t.sec then { t with sec := t.sec - 1, usec := 999000 - t.usec }
      else t
    if t.sec = 0 ∧ t.usec = 0 then
      ({ t with sec := t.intervalSec, usec := t.intervalUsec }, true)
    else (t, false)

namespace Kernel

/-- One round of a loop of the kernel over the table, or the call on top of the stack. -/
def runFrame (k : Kernel) : Option (Kernel × Reply) :=
  match k.kstack k.current with
  | .send pid sig :: rest =>
    ((k.setStack k.current rest).sendSignal pid sig).map (·, .nothing)
  | .sent pid sig :: rest =>
    ((k.setStack k.current rest).finishSend pid sig).map (·, .nothing)
  | .killpg i pgid sig :: rest =>
    if PROCESS_LIMIT ≤ i then some (k.setStack k.current rest, .nothing)
    else if (k.table i).pgid ≠ pgid then
      some (k.setStack k.current (.killpg (i + 1) pgid sig :: rest), .nothing)
    else match k.mayKill i with
      | .error e => some (k.setStack k.current rest, .failed e)
      | .ok _ =>
        some (k.setStack k.current (.send i sig :: .killpg (i + 1) pgid sig :: rest), .nothing)
  | .tty i sig :: rest =>
    if PROCESS_LIMIT ≤ i then some (k.setStack k.current rest, .nothing)
    else if (k.table i).pgid = k.tty.fgPgid then
      some (k.setStack k.current (.send i sig :: .tty (i + 1) sig :: rest), .nothing)
    else some (k.setStack k.current (.tty (i + 1) sig :: rest), .nothing)
  | .timer i :: rest =>
    if PROCESS_LIMIT ≤ i then some (k.setStack k.current rest, .nothing)
    else if !k.live i then some (k.setStack k.current (.timer (i + 1) :: rest), .nothing)
    else
      let (timer, out) := (k.table i).timer.tick
      let k := k.set i { k.table i with timer }
      some (k.setStack k.current
        (if out then .send i SIGALRM :: .timer (i + 1) :: rest else .timer (i + 1) :: rest),
        .nothing)
  | .wait pid :: rest => k.poll pid rest
  | .handler :: _ => none
  | [] => none

/-- The current task runs user code. -/
def inUser (k : Kernel) : Bool :=
  match k.kstack k.current with
  | [] | .handler :: _ => true
  | _ => false

end Kernel

inductive Syscall
  | fork (memory : Bool)
  | exit (code : Int)
  | wait4 (pid : Int) (options : Nat)
  | kill (pid sig : Int)
  | setpgid (pid pgid : Int)
  | setsid
  | tiocspgrp (tty : Bool) (pgid : Int)
  | sigaction (sig : Int) (act : SigAction)
  | sigprocmask (how : Int) (set : SigSet)
  | setitimer (value : ITimer)
  /-- A successful `execve`; the image decides about the effective user ID. -/
  | exec (euid : UInt16)

inductive Event
  /-- A system call of the current task. -/
  | call (c : Syscall)
  /-- The current task goes on in the kernel. -/
  | run
  /-- The scheduler's interrupt. -/
  | tick
  /-- The timer's interrupt. -/
  | clock
  /-- A character from the keyboard. -/
  | key (c : UInt8) (bufferEmpty : Bool)
  /-- The signal handler of the current task returns. -/
  | ret

namespace Kernel

def updateSignals (k : Kernel) : Except Errno Signals → Kernel × Reply
  | .ok signals => (k.setSignals k.current signals, .nothing)
  | .error e => (k, .failed e)

def syscall (k : Kernel) : Syscall → Option (Kernel × Reply)
  | .fork memory =>
    (k.sysFork memory).map fun
      | (none, k) => (k, .failed .ENOMEM)
      | (some pid, k) => (k, .forked pid)
  | .exit code => (k.sysExit code).map (·, .nothing)
  | .wait4 pid options => k.sysWait4 pid options
  | .kill pid sig => some (k.sysKill pid sig)
  | .setpgid pid pgid => some (k.sysSetpgid pid pgid)
  | .setsid => some k.sysSetsid
  | .tiocspgrp tty pgid => some (k.tiocspgrp tty pgid)
  | .sigaction sig act =>
    some (k.updateSignals ((k.table k.current).signals.sysSigaction sig act))
  | .sigprocmask how set =>
    some (k.updateSignals ((k.table k.current).signals.sysSigprocmask how set))
  | .setitimer value => some (k.set k.current { k.table k.current with timer := value }, .nothing)
  | .exec euid =>
    let k := k.processClear k.current true
    let k := { k.set k.current { k.table k.current with euid } with switchEnabled := true }
    k.irq8.map (·, .nothing)

/-- One step of the machine; `none` is a crash, a panic, or an event that cannot happen. -/
def step (k : Kernel) : Event → Option (Kernel × Reply)
  | .call c => if k.inUser then k.syscall c else none
  | .run => k.runFrame
  | .tick => k.irq8.map (·, .nothing)
  | .clock => some (k.push [.timer 0], .nothing)
  | .key c bufferEmpty =>
    let (tty, signal) := k.tty.input c bufferEmpty
    let k := { k with tty }
    match signal with
    | none => some (k, .nothing)
    | some sig => some (k.push [.tty 1 sig], .nothing)
  | .ret =>
    match k.kstack k.current with
    | .handler :: rest =>
      some ({ (k.setSignals k.current (k.table k.current).signals.handled).setStack
        k.current rest with switchEnabled := true }, .nothing)
    | _ => none

/-- The table alone, for runs of the machine. -/
def next (k : Kernel) (e : Event) : Option Kernel := (k.step e).map Prod.fst

/-- The kernel after `scheduler_init`: the kernel task and nothing else. -/
def boot (tty : Terminal) : Kernel where
  table pid :=
    { task := if pid = 0 then some ⟨0⟩ else none
      children := 0
      pgid := 0
      sid := 0
      euid := 0
      signals := .cleared
      timer := ⟨0, 0, 0, 0⟩ }
  queue := [0]
  current := 0
  exitTask := 0
  switchEnabled := true
  signal := 0
  handler := 0
  tty
  kstack _ := []

/-! ## What the parts of a step change -/

section Frames

variable (k : Kernel) (pid : Nat)

variable (signals : Signals) (frames : List Frame) {α : Type} {e : ProcessEntry} {pids : List Nat}

@[simp] theorem set_table (e : ProcessEntry) (p : Nat) :
    (k.set pid e).table p = if p = pid then e else k.table p := rfl

@[simp] theorem setSignals_table (p : Nat) : (k.setSignals pid signals).table p =
      if p = pid then { k.table pid with signals } else k.table p := rfl

@[simp] theorem setStack_table : (k.setStack pid frames).table = k.table :=
  rfl

@[simp] theorem setStack_kstack (p : Nat) :
    (k.setStack pid frames).kstack p = if p = pid then frames else k.kstack p := rfl

/-- A part of the entries that the new entry has kept. -/
theorem set_entry (part : ProcessEntry → α)
    (kept : part e = part (k.table pid)) (p : Nat) : part ((k.set pid e).table p) = part (k.table p) := by
  rw [set_table]
  split
  · rename_i same
    rw [same, kept]
  · rfl

theorem set_parent (task : e.task = (k.table pid).task) : (k.set pid e).parent = k.parent :=
  funext fun p => congrArg (·.map ProcessTask.ppid) (k.set_entry pid (·.task) task p)

theorem setSignals_entry {signals : Signals} (part : ProcessEntry → α)
    (kept : part { k.table pid with signals } = part (k.table pid)) (p : Nat) :
    part ((k.setSignals pid signals).table p) = part (k.table p) := k.set_entry pid part kept p

theorem setSignals_parent : (k.setSignals pid signals).parent = k.parent :=
  k.set_parent pid rfl

theorem live_eq (p : Nat) : k.live p = (k.parent p).isSome := by
  simp [live, parent]

/-- A list without repetitions changes each of its counters once. -/
theorem adjustChildren_eq (f : Nat → Nat) (nodup : pids.Nodup) :
    k.adjustChildren f pids = { k with table := fun p =>
      if p ∈ pids then { k.table p with children := f (k.table p).children } else k.table p } := by
  induction pids generalizing k with
  | nil => simp [adjustChildren]
  | cons pid pids ih =>
    obtain ⟨fresh, nodup⟩ := nodup_cons.1 nodup
    have step : k.adjustChildren f (pid :: pids) =
        (k.set pid { k.table pid with children := f (k.table pid).children }).adjustChildren f pids :=
      rfl
    rw [step, ih _ nodup, set]
    congr 1
    funext p
    by_cases same : p = pid
    · subst same
      simp [fresh]
    · simp [same]

theorem ancestors_nodup (h : k.ancestors pid = some pids) : (pids ++ [0]).Nodup := by
  have chain := ParentTree.chain_of_walk h
  refine nodup_append.2 ⟨chain.nodup, by simp, fun p mem q zero same => ?_⟩
  rw [mem_singleton.1 zero] at same
  exact chain.ne_root mem same

end Frames

/-- What freeing a process changes: the counters of `pids` and of the kernel task, its
entry, and its place in the queue. -/
structure Frees (k k' : Kernel) (pid : Nat) (pids : List Nat) : Prop where
  others : ∀ p, p ≠ pid → k'.table p = { k.table p with children := (k'.table p).children }
  children : ∀ p, (k'.table p).children =
    if p ∈ pids ++ [0] then sub32 (k.table p).children 1 else (k.table p).children
  task : (k'.table pid).task = none
  pgid : (k'.table pid).pgid = 0
  signals : (k'.table pid).signals = .cleared
  queue : k'.queue = k.queue.erase pid
  current : k'.current = k.current
  switchEnabled : k'.switchEnabled = k.switchEnabled
  handler : k'.handler = k.handler
  tty : k'.tty = k.tty
  kstack : k'.kstack = k.kstack

variable {k k' : Kernel} {pids : List Nat} {pid : Nat}

variable {reply : Reply}

theorem Frees.parent (h : Frees k k' pid pids) (q : Nat) :
    k'.parent q = if q = pid then none else k.parent q := by
  unfold Kernel.parent
  split
  · rename_i same
    rw [same, h.task]
    rfl
  · rename_i ne
    rw [h.others q ne]

theorem processFree_spec (live : k.live pid = true) (freed : k.processFree pid = some k') :
    ∃ ppid pids, k.parent pid = some ppid ∧
      k.ancestors ppid = some pids ∧ Frees k k' pid pids := by
  unfold processFree at freed
  split at freed
  · rename_i none
    simp [Kernel.live, none] at live
  rename_i task eq
  obtain ⟨pids, walk, rfl⟩ := map_eq_some_iff.1 freed
  rw [k.adjustChildren_eq _ (k.ancestors_nodup _ walk)]
  refine ⟨task.ppid, pids, by simp [parent, eq], walk, ?_⟩
  constructor <;> try rfl
  case others =>
    intro p ne
    simp only [processClear, set_table, ne, if_false]
    split <;> rfl
  case children =>
    intro p
    by_cases same : p = pid
    · subst same
      simp only [processClear, set_table, if_true]
      split <;> rfl
    · simp only [processClear, set_table, same, if_false]
      split <;> rfl
  all_goals simp [processClear]

/-- What a fork changes: the counters of `pids` and of the kernel task, the entry of the
child, its stack, and the end of the queue. -/
structure Forks (k k' : Kernel) (pid : Nat) (pids : List Nat) : Prop where
  others : ∀ p, p ≠ pid → k'.table p = { k.table p with children := (k'.table p).children }
  children : ∀ p, (k'.table p).children =
    if p ∈ pids ++ [0] then add32 (k.table p).children 1 else (k.table p).children
  task : (k'.table pid).task = some ⟨k.current⟩
  signals : (k'.table pid).signals = { (k.table pid).signals with
    blocked := (k'.table pid).signals.blocked
    pending := (k'.table pid).signals.pending }
  queue : k'.queue = k.queue ++ [pid]
  current : k'.current = k.current
  exitTask : k'.exitTask = k.exitTask
  switchEnabled : k'.switchEnabled = true
  handler : k'.handler = k.handler
  tty : k'.tty = k.tty
  kstack : ∀ p, k'.kstack p = if p = pid then k.kstack k.current else k.kstack p

theorem Forks.parent (h : Forks k k' pid pids) (q : Nat) :
    k'.parent q = if q = pid then some k.current else k.parent q := by
  unfold Kernel.parent
  split
  · rename_i same
    rw [same, h.task]
    rfl
  · rename_i ne
    rw [h.others q ne]

theorem freeEntry_spec (found : k.freeEntry = some pid) :
    pid ≠ 0 ∧ pid < PROCESS_LIMIT ∧ k.live pid = false := by
  have free := find?_some found
  have range := mem_range'_1.1 (mem_of_find?_eq_some found)
  exact ⟨by omega, by omega, by simpa using free⟩

theorem sysFork_spec {memory : Bool} {child : Option Nat}
    (forked : k.sysFork memory = some (child, k')) :
    (child = none ∧ k' = { k with switchEnabled := true }) ∨
      ∃ pid pids, child = some pid ∧ k.freeEntry = some pid ∧
        k.ancestors k.current = some pids ∧ Forks k k' pid pids := by
  unfold sysFork at forked
  split at forked
  · cases forked
    exact .inl ⟨rfl, rfl⟩
  rename_i pid found
  split at forked
  · cases forked
    exact .inl ⟨rfl, rfl⟩
  obtain ⟨pids, walk, eq⟩ := map_eq_some_iff.1 forked
  obtain ⟨rfl, rfl⟩ := eq
  rw [k.adjustChildren_eq _ (k.ancestors_nodup _ walk)]
  refine .inr ⟨pid, pids, rfl, found, walk, ?_⟩
  constructor <;> try rfl
  case others =>
    intro p ne
    simp only [setStack_table, set_table, ne, if_false]
    split <;> rfl
  case children =>
    intro p
    by_cases same : p = pid
    · subst same
      simp only [setStack_table, set_table, if_true, childEntry]
      split <;> rfl
    · simp only [setStack_table, set_table, same, if_false]
      split <;> rfl
  case task => simp [childEntry]
  case signals =>
    simp only [setStack_table, set_table, if_true, childEntry]
    split <;> rfl
  case kstack => exact fun p => rfl

/-- The kernel task heads the queue, and every task in it is live and is there once. -/
structure QueueOk (k : Kernel) : Prop where
  head : ∃ rest, k.queue = 0 :: rest
  unique : k.queue.Nodup
  live : ∀ p ∈ k.queue, k.live p = true

/-- A search of the queue passes over `exit_task` and frees it. -/
structure FreesExitTask (k k' : Kernel) (ppid : Nat) (pids : List Nat) : Prop where
  passed : k.exitTask ∈ k.behind.takeWhile fun p => (k.table p).signals.term
  parent : k.parent k.exitTask = some ppid
  walk : k.ancestors ppid = some pids
  frees : Frees k k' k.exitTask pids
  exitTask : k'.exitTask = 0

/-- Without an `exit_task` the search frees nothing. -/
theorem scan_zero (none : k.exitTask = 0) (nonzero : 0 ∉ pids)
    (found : scan pids k = some (pid, k')) :
    k' = k ∧ (pid = 0 ∨ pid ∈ pids) ∧ (k'.table pid).signals.term = false := by
  induction pids with
  | nil =>
    rw [scan] at found
    split at found
    · cases found
    · rename_i runs
      cases found
      exact ⟨rfl, .inl rfl, Bool.not_eq_true _ ▸ runs⟩
  | cons _ _ ih =>
    rw [mem_cons, not_or] at nonzero
    obtain ⟨away, nonzero⟩ := nonzero
    rw [scan, none, if_neg away] at found
    split at found
    · obtain ⟨same, mem, runs⟩ := ih nonzero found
      exact ⟨same, mem.imp_right (mem_cons_of_mem _), runs⟩
    · rename_i runs
      cases found
      exact ⟨rfl, .inr mem_cons_self, Bool.not_eq_true _ ▸ runs⟩

/-- The search ends with a task that may run, and frees `exit_task` if it passes over it. -/
theorem scan_once (nonzero : 0 ∉ pids) (unique : pids.Nodup)
    (found : scan pids k = some (pid, k')) :
    (pid = 0 ∨ pid ∈ pids) ∧ (k'.table pid).signals.term = false ∧
      (k' = k ∨ pid ≠ k.exitTask ∧ (k.exitTask ∈ pids.takeWhile fun p => (k.table p).signals.term) ∧
        ∃ k₁, k.processFree k.exitTask = some k₁ ∧ k' = { k₁ with exitTask := 0 }) := by
  induction pids with
  | nil =>
    rw [scan] at found
    split at found
    · cases found
    · rename_i runs
      cases found
      exact ⟨.inl rfl, Bool.not_eq_true _ ▸ runs, .inl rfl⟩
  | cons _ rest ih =>
    rw [mem_cons, not_or] at nonzero
    obtain ⟨away, nonzero⟩ := nonzero
    obtain ⟨fresh, unique⟩ := nodup_cons.1 unique
    rw [scan] at found
    split at found
    · rename_i term
      rw [takeWhile_cons, if_pos term]
      split at found
      · rename_i exited
        obtain ⟨k₁, freed, found⟩ := bind_eq_some_iff.1 found
        obtain ⟨same, mem, runs⟩ := scan_zero rfl nonzero found
        refine ⟨mem.imp_right (mem_cons_of_mem _), runs, .inr ⟨?_, ?_, k₁, exited ▸ freed, same⟩⟩
        · rw [exited]
          rintro rfl
          exact mem.elim (fun zero => away zero.symm) fresh
        · rw [exited]
          exact mem_cons_self
      · obtain ⟨mem, runs, rest⟩ := ih nonzero unique found
        refine ⟨mem.imp_right (mem_cons_of_mem _), runs, rest.imp_right ?_⟩
        exact fun ⟨other, passed, freed⟩ => ⟨other, mem_cons_of_mem _ passed, freed⟩
    · rename_i runs
      cases found
      exact ⟨.inr mem_cons_self, Bool.not_eq_true _ ▸ runs, .inl rfl⟩

namespace QueueOk

variable {k k' : Kernel}

theorem congr (h : QueueOk k) (queue : k'.queue = k.queue) (parent : k'.parent = k.parent) :
    QueueOk k' := by
  refine ⟨queue ▸ h.head, queue ▸ h.unique, fun p mem => ?_⟩
  rw [live_eq, parent, ← live_eq]
  exact h.live p (queue ▸ mem)

theorem free (h : QueueOk k) (nonzero : pid ≠ 0) (frees : Frees k k' pid pids) : QueueOk k' := by
  constructor
  case head =>
    obtain ⟨_, eq⟩ := h.head
    rw [frees.queue, eq, erase_cons_tail (by simpa using nonzero.symm)]
    exact ⟨_, rfl⟩
  case unique =>
    rw [frees.queue]
    exact h.unique.erase pid
  case live =>
    intro p mem
    rw [frees.queue, h.unique.mem_erase_iff] at mem
    rw [live_eq, frees.parent, if_neg mem.1, ← live_eq]
    exact h.live p mem.2

theorem fork (h : QueueOk k) (free : k.live pid = false) (forks : Forks k k' pid pids) :
    QueueOk k' := by
  constructor
  case head =>
    obtain ⟨rest, eq⟩ := h.head
    exact ⟨rest ++ [pid], by rw [forks.queue, eq]; rfl⟩
  case unique =>
    rw [forks.queue]
    refine nodup_append.2 ⟨h.unique, by simp, fun p mem q new eq => ?_⟩
    rw [mem_singleton.1 new] at eq
    have alive := h.live p mem
    rw [eq, free] at alive
    cases alive
  case live =>
    intro p mem
    rw [live_eq, forks.parent]
    split
    · rfl
    · rename_i old
      rw [← live_eq]
      exact h.live p (by simpa [forks.queue, old] using mem)

theorem boot (tty : Terminal) : QueueOk (.boot tty) := by
  refine ⟨⟨[], rfl⟩, by simp [Kernel.boot], fun p mem => ?_⟩
  rw [mem_singleton.1 mem]
  rfl

theorem behind_sublist : k.behind.Sublist k.queue :=
  (tail_sublist _).trans (dropWhile_sublist _)

theorem current_not_behind (h : QueueOk k) : k.current ∉ k.behind := by
  have rest := h.unique.sublist (dropWhile_sublist fun pid => pid != k.current)
  unfold behind
  cases eq : k.queue.dropWhile fun pid => pid != k.current with
  | nil => simp
  | cons =>
    have stopped := head_dropWhile_not (fun pid => pid != k.current) (l := k.queue)
      (by simp [eq])
    simp only [eq, head_cons, bne_eq_false_iff_eq] at stopped
    subst stopped
    exact (nodup_cons.1 (eq ▸ rest)).1

theorem zero_not_behind (h : QueueOk k) : 0 ∉ k.behind := by
  obtain ⟨rest, eq⟩ := h.head
  have fresh := (nodup_cons.1 (eq ▸ h.unique)).1
  intro mem
  by_cases here : k.current = 0
  · exact h.current_not_behind (here ▸ mem)
  · have tail : k.behind.Sublist rest := by
      rw [behind, eq, dropWhile_cons, if_pos (by simpa using Ne.symm here)]
      exact (tail_sublist _).trans (dropWhile_sublist _)
    exact fresh (tail.subset mem)

/-- A task switch, if it is allowed, goes to a task of the queue that may run. -/
theorem irq8 (h : QueueOk k) (switched : k.irq8 = some k') :
    (k.switchEnabled = false ∧ k' = k) ∨ ∃ pid k₁, k' = k₁.switchTo pid ∧ QueueOk k₁ ∧
      pid ∈ k₁.queue ∧ (k₁.table pid).signals.term = false ∧
      (k₁ = k ∨ ∃ ppid pids, FreesExitTask k k₁ ppid pids) := by
  unfold Kernel.irq8 at switched
  split at switched
  swap
  · rename_i off
    cases switched
    exact .inl ⟨Bool.not_eq_true _ ▸ off, rfl⟩
  obtain ⟨⟨pid, k₁⟩, found, rfl⟩ := map_eq_some_iff.1 switched
  obtain ⟨mem, runs, freed⟩ := scan_once h.zero_not_behind (behind_sublist.nodup h.unique) found
  have queued : pid ∈ k.queue := by
    rcases mem with rfl | mem
    · obtain ⟨_, eq⟩ := h.head
      rw [eq]
      exact mem_cons_self
    · exact behind_sublist.subset mem
  rcases freed with rfl | ⟨other, passed, _, freed, rfl⟩
  · exact .inr ⟨pid, k₁, rfl, h, queued, runs, .inl rfl⟩
  have mem := (takeWhile_sublist _).subset passed
  obtain ⟨ppid, pids, parent, walk, frees⟩ :=
    processFree_spec (h.live _ (behind_sublist.subset mem)) freed
  have nonzero : k.exitTask ≠ 0 := fun zero => h.zero_not_behind (zero ▸ mem)
  refine .inr ⟨pid, _, rfl, (h.free nonzero frees).congr rfl rfl, ?_, runs,
    .inr ⟨ppid, pids, passed, parent, walk, { frees with }, rfl⟩⟩
  rw [frees.queue, h.unique.mem_erase_iff]
  exact ⟨other, queued⟩

end QueueOk

/-- The switch to a task handles its pending signals, and may push the call of a handler. -/
theorem switchTo_spec (k : Kernel) (pid : Nat) : ∃ k₁ : Kernel, ∃ handler,
    k₁ = { k.setSignals pid (k.table pid).signals.handle.1 with
      current := pid
      signal := (k.table pid).signals.handle.1.sig
      handler } ∧
    (k.switchTo pid = k₁ ∨
      k.switchTo pid = { k₁.push [.handler] with switchEnabled := false }) := by
  refine ⟨_, if (k.table pid).signals.handle.1.sig = 0 then k.handler
    else (k.table pid).signals.handle.2, rfl, ?_⟩
  unfold switchTo
  dsimp only
  generalize (if (k.table pid).signals.handle.1.sig = 0 then k.handler
    else (k.table pid).signals.handle.2) = handler
  split
  · exact .inr rfl
  · exact .inl rfl

theorem switchTo_fields (k : Kernel) (pid : Nat) :
    (k.switchTo pid).parent = k.parent ∧ (k.switchTo pid).exitTask = k.exitTask ∧
      ∀ p, ((k.switchTo pid).table p).signals.term = (k.table p).signals.term ∧
        ((k.switchTo pid).table p).signals.waitstat = (k.table p).signals.waitstat ∧
        ((k.switchTo pid).table p).pgid = (k.table p).pgid := by
  obtain ⟨term, -, waitstat⟩ := (k.table pid).signals.handle_rest
  obtain ⟨k₁, _, def₁, eq⟩ := k.switchTo_spec pid
  have parent : k₁.parent = k.parent := def₁ ▸ k.setSignals_parent _ _
  have rest (p : Nat) : (k₁.table p).signals.term = (k.table p).signals.term ∧
      (k₁.table p).signals.waitstat = (k.table p).signals.waitstat ∧
      (k₁.table p).pgid = (k.table p).pgid := by
    rw [def₁]
    exact ⟨k.setSignals_entry pid (·.signals.term) term p,
      k.setSignals_entry pid (·.signals.waitstat) waitstat p, k.setSignals_entry pid (·.pgid) (by rfl) p⟩
  rcases eq with eq | eq <;> rw [eq] <;> exact ⟨parent, by rw [def₁]; rfl, rest⟩

/-- A signal from a child changes two fields of the parent's signals. -/
theorem notify_spec (k : Kernel) (ppid : Nat) : ∃ sig pending, (k.notify ppid).1 =
    { k.setSignals ppid { (k.table ppid).signals with sig, pending } with
      switchEnabled := true } := by
  obtain ⟨-, pending, eq⟩ := (k.table ppid).signals.receive_sigchld
  unfold notify
  split
  · rename_i signals received
    rw [received] at eq
    subst eq
    exact ⟨SIGCHLD, pending, rfl⟩
  · rename_i signals _ _ received
    rw [received] at eq
    subst eq
    exact ⟨_, pending, rfl⟩

/-- What an exit changes before it gives way: the process is marked as terminated and is
`exit_task`, and its parent may get a signal. -/
structure Exits (k k' : Kernel) (code : Int) : Prop where
  parent : k'.parent = k.parent
  exitTask : k'.exitTask = k.current
  current : k'.current = k.current
  queue : k'.queue = k.queue
  handler : k'.handler = k.handler
  tty : k'.tty = k.tty
  kstack : k'.kstack = k.kstack
  enabled : k.switchEnabled = true → k'.switchEnabled = true
  children : ∀ p, (k'.table p).children = (k.table p).children
  pgid : ∀ p, (k'.table p).pgid = (k.table p).pgid
  actions : ∀ p, (k'.table p).signals.actions = (k.table p).signals.actions
  term : ∀ p, (k'.table p).signals.term = if p = k.current then true else (k.table p).signals.term
  waitstat : ∀ p, (k'.table p).signals.waitstat =
    if p = k.current then (code % 256).toNat * 256 else (k.table p).signals.waitstat

theorem sysExit_spec {code : Int} (exited : k.sysExit code = some k') :
    k.current ≠ 0 ∧ k.live k.current = true ∧
      ∃ k₁ : Kernel, Exits k k₁ code ∧ k₁.irq8 = some k' := by
  unfold sysExit at exited
  split at exited
  · cases exited
  rename_i nonzero
  obtain ⟨task, some, exited⟩ := bind_eq_some_iff.1 exited
  refine ⟨nonzero, by simp [live, some], ?_⟩
  set k₁ : Kernel := { k.setSignals k.current { (k.table k.current).signals with
    term := true
    waitstat := (code % 256).toNat * 256 } with exitTask := k.current } with def₁
  have marked : Exits k k₁ code := by
    constructor <;> try rfl
    · exact k.setSignals_parent _ _
    · exact id
    all_goals
      intro p
      by_cases same : p = k.current <;> simp [def₁, same]
  split at exited
  · exact ⟨k₁, marked, exited⟩
  · obtain ⟨_, _, eq⟩ := k₁.notify_spec task.ppid
    change (k₁.notify task.ppid).1.irq8 = _ at exited
    rw [eq] at exited
    refine ⟨_, ?_, exited⟩
    constructor <;> try rfl
    case parent => exact (k₁.setSignals_parent _ _).trans marked.parent
    case children =>
      exact fun p => (k₁.setSignals_entry _ (·.children) (by rfl) p).trans (marked.children p)
    case pgid => exact fun p => (k₁.setSignals_entry _ (·.pgid) (by rfl) p).trans (marked.pgid p)
    case actions =>
      exact fun p => (k₁.setSignals_entry _ (·.signals.actions) (by rfl) p).trans (marked.actions p)
    case term => exact fun p => (k₁.setSignals_entry _ (·.signals.term) (by rfl) p).trans (marked.term p)
    case waitstat =>
      exact fun p => (k₁.setSignals_entry _ (·.signals.waitstat) (by rfl) p).trans (marked.waitstat p)
    case enabled => exact fun _ => rfl

/-- A change of group is a change of a live process's `p_pgid`. -/
theorem sysSetpgid_cases (k : Kernel) (pid pgid : Int) :
    (k.sysSetpgid pid pgid).1 = k ∨ ∃ p pgid', k.live p = true ∧
      (k.sysSetpgid pid pgid).1 = k.set p { k.table p with pgid := pgid' } := by
  unfold sysSetpgid
  split
  · exact .inl rfl
  dsimp only
  generalize (if pid = 0 then (k.current : Int) else pid) = pid
  generalize (if pgid = 0 then (k.current : Int) else pgid) = pgid
  split
  · exact .inl rfl
  rename_i valid
  split
  · exact .inl rfl
  split
  · exact .inl rfl
  · refine .inr ⟨pid.toNat, pgid, ?_, rfl⟩
    simp only [processValid, Bool.not_eq_true', Bool.not_eq_false, Bool.and_eq_true] at valid
    exact valid.2

theorem sysSetsid_cases (k : Kernel) :
    k.sysSetsid.1 = k ∨
      k.sysSetsid.1 = k.set k.current { k.table k.current with pgid := k.current, sid := k.current } := by
  unfold sysSetsid
  split
  · exact .inl rfl
  · exact .inr rfl

theorem sysWait4_cases {pid : Int} {options : Nat} (h : k.sysWait4 pid options = some (k', reply)) :
    ((k' = k ∨ ∃ arg, k' = k.push [.wait arg]) ∧ (reply = .nothing ∨ ∃ e, reply = .failed e)) ∨
      k' = k ∧ hasFlag options WNOHANG = true ∧ ∃ temp status, reply = .waited temp status ∧
        k.waitGetStatus (if pid < -1 then negPid pid else pid) = some (some (temp, status)) := by
  unfold sysWait4 at h
  dsimp only at h
  generalize (if pid < -1 then negPid pid else pid) = arg at h ⊢
  split at h
  · cases h
    exact .inl ⟨.inl rfl, .inr ⟨_, rfl⟩⟩
  split at h
  · cases h
    exact .inl ⟨.inl rfl, .inr ⟨_, rfl⟩⟩
  split at h
  · obtain ⟨result, found, eq⟩ := map_eq_some_iff.1 h
    cases result with
    | none =>
      cases eq
      exact .inl ⟨.inl rfl, .inl rfl⟩
    | some result =>
      cases eq
      exact .inr ⟨rfl, ‹_›, _, _, rfl, found⟩
  · cases h
    exact .inl ⟨.inr ⟨arg, rfl⟩, .inl rfl⟩

theorem poll_cases {pid : Int} {rest : List Frame} (h : k.poll pid rest = some (k', reply)) :
    (k' = k ∧ reply = .nothing) ∨ k' = k.setStack k.current rest ∧ ∃ temp status,
      reply = .waited temp status ∧ k.waitGetStatus pid = some (some (temp, status)) := by
  obtain ⟨result, found, eq⟩ := map_eq_some_iff.1 h
  cases result with
  | none =>
    cases eq
    exact .inl ⟨rfl, rfl⟩
  | some result =>
    cases eq
    exact .inr ⟨rfl, _, _, rfl, found⟩

end Kernel

end Os0
