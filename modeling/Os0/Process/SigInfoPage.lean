import Os0.Process.SignalMask

/-! The page at `TASK_SIGINFO_PAGE` that a signal handler reads: `process_handle_signal` takes a
frame for it whenever the scheduler switches to a process with a signal to handle, and
`process_signal_handled` gives back the frame that is mapped there (`kernel/process.c`, `irq8` and
`signal_trampoline` in `arch/i386/task.S`). -/
namespace Os0

open Runs

structure InfoPages where
  p : Signals
  /-- The frame that is mapped. -/
  page : Nat
  /-- The handlers that `irq8` has set up and that have not returned. -/
  handlers : Nat
  /-- The frames from `alloc_page` and those given to `free_page`. -/
  taken : List Nat
  freed : List Nat

inductive InfoStep
  | send (sig : Nat)
  | sigaction (sig : Int) (act : SigAction)
  | sigprocmask (how : Int) (set : SigSet)
  /-- The scheduler switches to the process; `alloc_page` would return this frame. -/
  | schedule (frame : Nat)
  /-- The handler returns. -/
  | handled

namespace InfoPages

def start (p : Signals) : InfoPages := ⟨p, 0, 0, [], []⟩

/-- A process that has been terminated or stopped is not scheduled. -/
def step (s : InfoPages) : InfoStep → Option InfoPages
  | .send sig => some { s with p := s.p.sent sig }
  | .sigaction sig act => some { s with p := s.p.withAction sig act }
  | .sigprocmask how set =>
    match s.p.sysSigprocmask how set with
    | .ok p => some { s with p }
    | .error _ => some s
  | .schedule frame =>
    if s.p.term then none
    else
      let (p, function) := s.p.handle
      -- no signal was sent
      if p.sig = 0 then some { s with p }
      -- the signal should be ignored by default
      else if function = 0 then some { s with p, page := frame, taken := frame :: s.taken }
      else some {
        p
        page := frame
        handlers := s.handlers + 1
        taken := frame :: s.taken
        freed := s.freed }
  | .handled =>
    match s.handlers with
    | 0 => none
    | n + 1 => some { s with p := s.p.handled, handlers := n, freed := s.page :: s.freed }

/-- At most one frame is in use behind the step, and a signal that it has handled or ignored by
default is no longer the current one. -/
def Balanced (s : InfoPages) (c : InfoStep) (t : InfoPages) : Prop :=
  t.taken.length ≤ t.freed.length + 1 ∧
  match c with
  | .schedule _ => s.p.take.sig ≠ 0 → (s.p.actions s.p.take.sig).function = 0 → t.p.sig = 0
  | .handled => t.p.sig = 0
  | _ => True

/-- The scheduler finds no signal, or one with a handler while no other handler is under way. -/
def Calm (s : InfoPages) (c : InfoStep) (_ : InfoPages) : Prop :=
  match c with
  | .schedule _ =>
    s.p.take.sig = 0 ∨ s.handlers = 0 ∧ (s.p.actions s.p.take.sig).function ≠ 0
  | _ => True

/-- Every frame in use belongs to a handler, and there is at most one of them. -/
structure Even (s : InfoPages) : Prop where
  count : s.taken.length = s.freed.length + s.handlers
  one : s.handlers ≤ 1

variable {s t : InfoPages} {c : InfoStep}

theorem schedule_cases {frame : Nat} (step : s.step (.schedule frame) = some t) :
    (s.p.take.sig = 0 ∧ t = { s with p := s.p.handle.1 }) ∨
    (s.p.take.sig ≠ 0 ∧ t.p = s.p.handle.1 ∧ t.p.sig = s.p.take.sig ∧ t.taken = frame :: s.taken ∧
      t.freed = s.freed ∧ t.handlers =
        if (s.p.actions s.p.take.sig).function = 0 then s.handlers else s.handlers + 1) := by
  have sig : s.p.handle.1.sig = s.p.take.sig := by
    unfold Signals.handle
    dsimp only
    split <;> rfl
  have function : s.p.take.sig ≠ 0 → s.p.handle.2 = (s.p.actions s.p.take.sig).function := by
    intro signal
    simp [Signals.handle, signal, s.p.take_rest.2.1]
  simp only [InfoPages.step] at step
  grind

/-- A step from an even state is balanced if and only if it is calm. -/
theorem balanced_iff_calm (even : Even s) (step : s.step c = some t) :
    Balanced s c t ↔ Calm s c t := by
  obtain ⟨count, _⟩ := even
  cases c with
  | schedule =>
    rcases schedule_cases step with ⟨none, rfl⟩ | ⟨signal, -, sig, taken, freed, -⟩
    · simp [Balanced, Calm, none, count]
      omega
    · simp only [Balanced, Calm, signal, sig, taken, freed, List.length_cons, count]
      grind
  | handled =>
    simp only [InfoPages.step] at step
    grind [Balanced, Calm, Signals.handled]
  | sigprocmask =>
    simp only [InfoPages.step] at step
    grind [Balanced, Calm]
  | send sig =>
    cases step
    simpa [Balanced, Calm, count] using by omega
  | sigaction sig =>
    cases step
    simpa [Balanced, Calm, count] using by omega

theorem even_kept (even : Even s) (step : s.step c = some t) (calm : Calm s c t) : Even t := by
  obtain ⟨count, one⟩ := even
  cases c with
  | schedule =>
    rcases schedule_cases step with ⟨-, rfl⟩ | ⟨signal, -, -, taken, freed, handlers⟩
    · exact ⟨count, one⟩
    · obtain ⟨_, function⟩ := calm.resolve_left signal
      rw [if_neg function] at handlers
      exact ⟨by simp [taken, freed, handlers, count]; omega, by omega⟩
  | handled =>
    simp only [InfoPages.step] at step
    split at step
    · cases step
    · cases step
      exact ⟨by simp only [List.length_cons]; omega, by dsimp only; omega⟩
  | sigprocmask =>
    simp only [InfoPages.step] at step
    split at step <;> cases step <;> exact ⟨count, one⟩
  | send sig | sigaction sig act =>
    cases step
    exact ⟨count, one⟩

/-- Over every run of a process: at most one frame is in use at every point, and no signal stays
the current one behind its handling, if and only if every switch to the process finds no signal, or
one with a handler while no other handler is under way. -/
theorem info_pages_balance_iff (p : Signals) (steps : List InfoStep) :
    Each step Balanced (start p) steps ↔ Each step Calm (start p) steps :=
  each_iff (fun _ _ _ => balanced_iff_calm) (fun _ _ _ => even_kept) ⟨rfl, Nat.zero_le 1⟩

/-- A process that is sent `SIGCHLD`, which is ignored by default, and scheduled twice: the signal
is still there, and two frames are in use. -/
theorem ignored_signal_takes_pages :
    (([.send SIGCHLD, .schedule 0x1c000000, .schedule 0x1c001000].foldlM step
      (start .cleared)).map fun s => (s.p.sig, s.taken.length, s.freed.length)) =
      some (SIGCHLD, 2, 0) := by
  decide

end InfoPages

end Os0
