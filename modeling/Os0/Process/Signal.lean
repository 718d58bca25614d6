import Os0.Errno
import Os0.Lib.Bytes
import Os0.Lib.Runs

/-! The signal state of one process (`kernel/process.c`, `uapi/signal.c`): the signal
that waits in `p_sig`, the pending and the blocked set, and what sending a signal and
scheduling the process in do to them. -/
namespace Os0

open Bytes

def NSIG : Nat := 48
def SIGHUP : Nat := 1
def SIGINT : Nat := 2
def SIGQUIT : Nat := 3
def SIGKILL : Nat := 9
def SIGALRM : Nat := 14
def SIGCHLD : Nat := 17
def SIGCONT : Nat := 18
def SIGSTOP : Nat := 19
def SIGTSTP : Nat := 20
def SIGSYS : Nat := 31

def SIG_DFL : Nat := 0
def SIG_IGN : Nat := 1

def SA_NOCLDSTOP : Nat := 0x1
def SA_SIGINFO : Nat := 0x4
def SA_NODEFER : Nat := 0x40000000

def SIG_BLOCK : Int := 0
def SIG_UNBLOCK : Int := 1
def SIG_SETMASK : Int := 2

/-- `sigset_t`: one bit for each signal below `NSIG`. -/
abbrev SigSet := Nat → Bool

namespace SigSet

def empty : SigSet := fun _ => false

/-- `sigaddset`. -/
def add (set : SigSet) (sig : Nat) : SigSet := fun i => i == sig || set i

/-- `sigdelset`. -/
def del (set : SigSet) (sig : Nat) : SigSet := fun i => i != sig && set i

def union (set other : SigSet) : SigSet := fun i => set i || other i

def diff (set other : SigSet) : SigSet := fun i => set i && !other i

@[simp] theorem empty_apply (i : Nat) : empty i = false := rfl

@[simp] theorem add_apply (set : SigSet) (sig i : Nat) :
    set.add sig i = (i == sig || set i) := rfl

@[simp] theorem del_apply (set : SigSet) (sig i : Nat) :
    set.del sig i = (i != sig && set i) := rfl

end SigSet

/-- `struct sigaction`, with functions as their addresses. -/
structure SigAction where
  handler : Nat
  sigaction : Nat
  flags : Nat
  mask : SigSet

def SigAction.none : SigAction := ⟨SIG_DFL, 0, 0, .empty⟩

/-- The action is `handler` and not a three-argument function. -/
def SigAction.plain (act : SigAction) (handler : Nat) : Bool :=
  !hasFlag act.flags SA_SIGINFO && act.handler == handler

/-- The function that runs: `SIG_DFL` is the null pointer. -/
def SigAction.function (act : SigAction) : Nat :=
  if hasFlag act.flags SA_SIGINFO then act.sigaction else act.handler

/-- The signals whose default action terminates the process: `SIGHUP` to `SIGFPE`,
`SIGUSR1`, `SIGSEGV`, `SIGUSR2`, `SIGPIPE`, `SIGALRM`, `SIGTERM`, `SIGSTKFLT`, `SIGXCPU`,
`SIGXFSZ`, `SIGVTALRM`, `SIGPROF`, `SIGIO`, `SIGPWR` and `SIGSYS`. -/
def terminates (sig : Nat) : Bool :=
  [1, 2, 3, 4, 5, 6, 7, 8, 10, 11, 12, 13, 14, 15, 16, 24, 25, 26, 27, 29, 30, 31].contains sig

/-- The signals whose default action stops the process: `SIGTSTP`, `SIGTTIN`, `SIGTTOU`. -/
def stops (sig : Nat) : Bool := [20, 21, 22].contains sig

/-- `WIFSTOPPED`. -/
def wifStopped (status : Nat) : Bool := status % 256 = 0x7f

/-- The fields of a process that signals read and write. -/
structure Signals where
  /-- `p_sig`: the signal to be handled, 0 for none. -/
  sig : Nat
  blocked : SigSet
  pending : SigSet
  actions : Nat → SigAction
  /-- `p_term`: terminated or stopped. -/
  term : Bool
  waitstat : Nat
  pause : Bool

/-- What `process_send_signal` has decided for its target. -/
inductive SendEffect
  | returned
  | exit
  | stop (notify : Bool)
  | caught
  deriving DecidableEq, Repr

namespace Signals

/-- The fields as `process_clear` leaves them. -/
def cleared : Signals := ⟨0, .empty, .empty, fun _ => .none, false, 0, false⟩

def isBlocked (p : Signals) (sig : Nat) : Bool := sig != SIGKILL && p.blocked sig

def isIgnored (p : Signals) (sig : Nat) : Bool :=
  sig != SIGKILL && (p.actions sig).plain SIG_IGN

def exits (p : Signals) (sig : Nat) : Bool :=
  sig == SIGKILL || (terminates sig && (p.actions sig).plain SIG_DFL)

def stopping (p : Signals) (sig : Nat) : Bool :=
  sig == SIGSTOP || (stops sig && (p.actions sig).plain SIG_DFL)

/-- `SIGCONT` lets a stopped process run again. -/
def continued (p : Signals) (sig : Nat) : Signals :=
  if sig = SIGCONT ∧ wifStopped p.waitstat then { p with term := false, waitstat := 0 } else p

/-- `process_send_signal` up to the notification of the parent. What follows it for
every effect but `returned` is `arrive`. -/
def receive (p : Signals) (sig : Nat) : Signals × SendEffect :=
  if p.isBlocked sig then ({ p with pending := p.pending.add sig }, .returned)
  else if p.isIgnored sig then (p, .returned)
  else if p.exits sig then ({ p.continued sig with term := true, waitstat := sig }, .exit)
  else if p.stopping sig then
    ({ p.continued sig with term := true, waitstat := sig * 256 + 0x7f },
      .stop (!hasFlag (p.actions sig).flags SA_NOCLDSTOP))
  else (p.continued sig, .caught)

/-- `p_sig = sig`. -/
def arrive (p : Signals) (sig : Nat) : Signals := { p with sig }

/-- The lowest pending signal that is not blocked, from `SIGHUP` to `SIGSYS`. -/
def firstPending (p : Signals) : Option Nat :=
  (List.range' SIGHUP SIGSYS).find? fun i => !p.blocked i && p.pending i

/-- A pending signal becomes the one to be handled if there is none yet. -/
def take (p : Signals) : Signals :=
  if p.sig = 0 then
    match p.firstPending with
    | some i => { p with sig := i, pending := p.pending.del i }
    | none => p
  else p

/-- `process_handle_signal`, with `process_signal` in `sig` and the function for
`process_signal_handler`. Nothing restores the blocked set that is saved before. -/
def handle (p : Signals) : Signals × Nat :=
  let p := p.take
  if p.sig = 0 then (p, 0)
  else
    let act := p.actions p.sig
    let blocked := p.blocked.union act.mask
    ({ p with
        pending := p.pending.del p.sig
        blocked := if hasFlag act.flags SA_NODEFER then blocked else blocked.add p.sig },
      act.function)

/-- `process_signal_handled`. -/
def handled (p : Signals) : Signals := { p with sig := 0, pause := false }

/-- `sys_sigprocmask` with a set. -/
def sysSigprocmask (p : Signals) (how : Int) (set : SigSet) : Except Errno Signals :=
  if how = SIG_BLOCK then .ok { p with blocked := p.blocked.union set }
  else if how = SIG_UNBLOCK then .ok { p with blocked := p.blocked.diff set }
  else if how = SIG_SETMASK then .ok { p with blocked := set }
  else .error .EINVAL

/-- `sys_sigaction` with an action. -/
def sysSigaction (p : Signals) (sig : Int) (act : SigAction) : Except Errno Signals :=
  if sig < 0 ∨ (NSIG : Int) ≤ sig ∨ sig = SIGKILL ∨ sig = SIGSTOP then .error .EINVAL
  else .ok { p with actions := fun i => if (i : Int) = sig then act else p.actions i }

variable {p : Signals} {sig : Nat}

section

variable (p : Signals)

theorem continued_sets (sig : Nat) :
    (p.continued sig).sig = p.sig ∧ (p.continued sig).blocked = p.blocked ∧
      (p.continued sig).pending = p.pending ∧ (p.continued sig).actions = p.actions := by
  unfold continued
  split <;> exact ⟨rfl, rfl, rfl, rfl⟩

theorem receive_cases (sig : Nat) : (p.isBlocked sig = true ∧
      p.receive sig = ({ p with pending := p.pending.add sig }, .returned)) ∨
    (p.isBlocked sig = false ∧ p.isIgnored sig = true ∧ p.receive sig = (p, .returned)) ∨
    (p.isBlocked sig = false ∧ p.isIgnored sig = false ∧ (p.receive sig).2 ≠ .returned ∧
      (p.receive sig).1.blocked = p.blocked ∧ (p.receive sig).1.pending = p.pending ∧
      (p.receive sig).1.actions = p.actions ∧ (p.receive sig).1.sig = p.sig) := by
  obtain ⟨same, blocked, pending, actions⟩ := continued_sets p sig
  unfold receive
  cases hb : p.isBlocked sig
  · cases hi : p.isIgnored sig
    · refine .inr (.inr ⟨rfl, rfl, ?_⟩)
      simp only [Bool.false_eq_true, if_false]
      split
      · exact ⟨nofun, blocked, pending, actions, same⟩
      · split
        all_goals exact ⟨nofun, blocked, pending, actions, same⟩
    · exact .inr (.inl ⟨rfl, rfl, rfl⟩)
  · exact .inl ⟨rfl, rfl⟩

/-- A child's signal neither terminates nor stops its parent. -/
theorem receive_sigchld : ((p.receive SIGCHLD).2 = .returned ∨ (p.receive SIGCHLD).2 = .caught) ∧
      ∃ pending, (p.receive SIGCHLD).1 = { p with pending } := by
  have exits : p.exits SIGCHLD = false := by simp [Signals.exits, terminates, SIGCHLD, SIGKILL]
  have stop : p.stopping SIGCHLD = false := by simp [stopping, stops, SIGCHLD, SIGSTOP]
  have continued : p.continued SIGCHLD = p := if_neg (by simp [SIGCHLD, SIGCONT])
  unfold receive
  rw [exits, stop, continued]
  split
  · exact ⟨.inl rfl, _, rfl⟩
  · split
    · exact ⟨.inl rfl, _, rfl⟩
    · exact ⟨.inr rfl, _, rfl⟩

/-- An alarm stops no process. -/
theorem receive_sigalrm (notifies : Bool) : (p.receive SIGALRM).2 ≠ .stop notifies := by
  have stop : p.stopping SIGALRM = false := by simp [stopping, stops, SIGALRM, SIGSTOP]
  unfold receive
  rw [stop]
  split
  · nofun
  · split
    · nofun
    · split <;> nofun

theorem take_rest :
    p.take.term = p.term ∧ p.take.actions = p.actions ∧ p.take.waitstat = p.waitstat := by
  unfold take
  split
  · split <;> exact ⟨rfl, rfl, rfl⟩
  · exact ⟨rfl, rfl, rfl⟩

theorem handle_rest :
    p.handle.1.term = p.term ∧ p.handle.1.actions = p.actions ∧
      p.handle.1.waitstat = p.waitstat := by
  unfold handle
  dsimp only
  split <;> exact p.take_rest

end

/-- Without handlers there is no function to run. -/
theorem handle_function (none : p.actions = fun _ => .none) : p.handle.2 = 0 := by
  unfold handle
  dsimp only
  split
  · rfl
  · dsimp only
    rw [p.take_rest.2.1, none]
    simp [SigAction.function, SigAction.none, hasFlag, SIG_DFL]

theorem sysSigprocmask_rest {q : Signals} {how : Int} {set : SigSet}
    (h : p.sysSigprocmask how set = .ok q) : ∃ blocked, q = { p with blocked } := by
  unfold sysSigprocmask at h
  split at h
  · cases h
    exact ⟨_, rfl⟩
  · split at h
    · cases h
      exact ⟨_, rfl⟩
    · split at h
      · cases h
        exact ⟨_, rfl⟩
      · cases h

end Signals

end Os0
