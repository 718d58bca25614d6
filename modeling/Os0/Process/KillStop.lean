import Os0.Process.SignalMask

/-! `SIGKILL` and `SIGSTOP` against what their target can do to its actions and its blocked set
(`uapi/signal.c`). -/
namespace Os0

/-- What changes the signal state of a process: its own calls, where a null pointer is `none`, and
what the kernel does to it in between. -/
inductive SignalCall
  | sigaction (sig : Int) (act : Option SigAction)
  | signal (sig : Int) (func : Nat)
  | sigprocmask (how : Int) (set : Option SigSet)
  /-- `sys_sigsuspend` up to its loop. -/
  | suspend (mask : SigSet)
  /-- The loop has ended and the call restores the mask. -/
  | resume
  | send (sig : Nat)
  | schedule
  | handled

/-- A process with the masks that its unfinished calls of `sys_sigsuspend` have saved. -/
structure Suspended where
  p : Signals
  saved : List SigSet

namespace Suspended

/-- A child has inherited two sets and has no actions. -/
def born (blocked pending : SigSet) : Suspended := ⟨{ Signals.cleared with blocked, pending }, []⟩

/-- The call, with or without success. -/
def step (s : Suspended) : SignalCall → Suspended
  | .sigaction sig act => { s with p := act.elim s.p (s.p.withAction sig) }
  | .signal sig func => { s with p := s.p.withAction sig ⟨func, 0, 0, .empty⟩ }
  | .sigprocmask how set =>
    match set.map (s.p.sysSigprocmask how) with
    | some (.ok p) => { s with p }
    | _ => s
  | .suspend mask => ⟨{ s.p with blocked := mask, pause := true }, s.p.blocked :: s.saved⟩
  | .resume =>
    match s.saved with
    | mask :: saved => if s.p.pause then s else ⟨{ s.p with blocked := mask }, saved⟩
    | [] => s
  | .send sig => { s with p := s.p.sent sig }
  | .schedule => { s with p := s.p.handle.1 }
  | .handled => { s with p := s.p.handled }

def run (s : Suspended) (calls : List SignalCall) : Suspended := calls.foldl step s

end Suspended

/-- The send has gone past the blocked set, the ignored signals and the handlers. -/
def SendEffect.marks : SendEffect → Bool
  | .exit | .stop _ => true
  | .returned | .caught => false

namespace Signals

/-- The signal is neither left pending nor ignored nor caught, and marks the process with this
status. -/
structure Struck (p : Signals) (sig status : Nat) : Prop where
  effect : (p.receive sig).2.marks = true
  term : (p.sent sig).term = true
  waitstat : (p.sent sig).waitstat = status

variable (p : Signals)

theorem sent_actions (sig : Nat) : (p.sent sig).actions = p.actions := by
  have same : (p.receive sig).1.actions = p.actions := by
    rcases p.receive_cases sig with ⟨-, eq⟩ | ⟨-, -, eq⟩ | ⟨-, -, -, -, -, same, -⟩
    · rw [eq]
    · rw [eq]
    · exact same
  unfold sent
  split <;> simp_all [arrive]

theorem withAction_sigstop (sig : Int) (act : SigAction) :
    (p.withAction sig act).actions SIGSTOP = p.actions SIGSTOP := by
  unfold withAction sysSigaction
  by_cases refused : sig < 0 ∨ (NSIG : Int) ≤ sig ∨ sig = SIGKILL ∨ sig = SIGSTOP
  · simp [refused]
  · have other : (SIGSTOP : Int) ≠ sig := fun eq => refused (.inr (.inr (.inr eq.symm)))
    simp [refused, other]

/-- Nothing that a process can do comes before `SIGKILL`. -/
theorem struck_sigkill : p.Struck SIGKILL SIGKILL := by
  have effect : p.receive SIGKILL = ({ p with term := true, waitstat := SIGKILL }, .exit) := by
    simp [receive, isBlocked, isIgnored, exits, continued, SIGKILL, SIGCONT]
  constructor <;> simp [sent, effect, arrive, SendEffect.marks]

/-- As long as it has no action, only the blocked set comes before `SIGSTOP`. -/
theorem struck_sigstop_iff {p : Signals} (default : p.actions SIGSTOP = .none) :
    p.Struck SIGSTOP (SIGSTOP * 256 + 0x7f) ↔ p.blocked SIGSTOP = false := by
  have known : p.isBlocked SIGSTOP = p.blocked SIGSTOP := by
    simp [isBlocked, SIGSTOP, SIGKILL]
  have kept : p.isIgnored SIGSTOP = false := by
    simp [isIgnored, default, SigAction.plain, SigAction.none, SIG_DFL, SIG_IGN]
  have spared : p.exits SIGSTOP = false := by simp [exits, terminates, SIGSTOP, SIGKILL]
  have same : p.continued SIGSTOP = p := if_neg (by simp [SIGSTOP, SIGCONT])
  have effect : p.receive SIGSTOP = if p.blocked SIGSTOP then
      ({ p with pending := p.pending.add SIGSTOP }, .returned)
      else ({ p with term := true, waitstat := SIGSTOP * 256 + 0x7f }, .stop true) := by
    simp [receive, known, kept, spared, same, stopping, default, SigAction.none, Bytes.hasFlag]
  constructor
  case mp =>
    intro struck
    have marks := struck.effect
    cases blocked : p.blocked SIGSTOP with
    | false => rfl
    | true => simp [effect, blocked, SendEffect.marks] at marks
  case mpr =>
    intro free
    constructor <;> simp [sent, effect, free, arrive, SendEffect.marks]

end Signals

namespace Suspended

theorem step_sigstop (s : Suspended) (c : SignalCall) :
    (s.step c).p.actions SIGSTOP = s.p.actions SIGSTOP := by
  cases c with
  | sigaction sig act =>
    cases act with
    | none => rfl
    | some act => exact s.p.withAction_sigstop sig act
  | signal sig => exact s.p.withAction_sigstop sig _
  | sigprocmask _ set =>
    simp only [step]
    split
    · rename_i p eq
      obtain ⟨set, -, ok⟩ := Option.map_eq_some_iff.1 eq
      obtain ⟨-, rfl⟩ := Signals.sysSigprocmask_rest ok
      rfl
    · rfl
  | suspend => rfl
  | resume =>
    simp only [step]
    split
    · split <;> rfl
    · rfl
  | send sig => exact congrFun (s.p.sent_actions sig) SIGSTOP
  | schedule => exact congrFun s.p.handle_rest.2.1 SIGSTOP
  | handled => rfl

theorem run_sigstop (s : Suspended) (calls : List SignalCall) :
    (s.run calls).p.actions SIGSTOP = s.p.actions SIGSTOP := by
  induction calls generalizing s with
  | nil => rfl
  | cons c calls ih => exact (ih (s.step c)).trans (s.step_sigstop c)

/-- Whatever a process has done since it was created, `SIGKILL` terminates it; `SIGSTOP` stops it if
and only if it is not blocked. -/
theorem kill_stop_iff (blocked pending : SigSet) (calls : List SignalCall) :
    let p := ((born blocked pending).run calls).p
    p.Struck SIGKILL SIGKILL ∧ p.Struck SIGSTOP (SIGSTOP * 256 + 0x7f) ↔
      p.blocked SIGSTOP = false := by
  intro p
  have default : p.actions SIGSTOP = .none := run_sigstop _ calls
  rw [← Signals.struck_sigstop_iff default]
  exact and_iff_right p.struck_sigkill

/-- One call of `sys_sigprocmask` is enough to make `SIGSTOP` wait. -/
theorem sigstop_left_pending :
    let p := ((born .empty .empty).run
      [.sigprocmask SIG_BLOCK (some fun sig => sig == SIGSTOP)]).p
    (p.receive SIGSTOP).2 = .returned ∧ (p.sent SIGSTOP).term = false ∧
      (p.sent SIGSTOP).pending SIGSTOP = true := by
  decide

end Suspended

end Os0
