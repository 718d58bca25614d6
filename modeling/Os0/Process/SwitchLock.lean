import Os0.Process.Table

/-! The flag `task_switch_enabled`. Its users (`sys_fork`, `sys_vfork`, `sys_execve`,
`process_send_signal`, `vga_display_putchar` and `vga_update_display`) set it to 0 and later to 1;
between the two, interrupts may come in. The scheduler and the rest of the kernel are those of
the process table. -/
namespace Os0

open Runs Function List Option Kernel

/-- A function that has set the flag to 0 and has not yet set it to 1 again. -/
inductive Section
  /-- `sys_fork` or `sys_vfork` in `task_fork`, and whether there is memory for the child. -/
  | fork (copy memory : Bool)
  /-- `sys_execve` in `process_exec`, and the effective user ID that a valid image gives. -/
  | exec (image : Option UInt16)
  /-- `process_send_signal` before its tests. -/
  | send (pid sig : Nat)
  /-- `process_send_signal` after the call that notifies the parent. -/
  | notified (pid sig : Nat)
  /-- `vga_display_putchar` or `vga_update_display`. -/
  | output
  deriving DecidableEq, Repr

/-- What a task still has to do. -/
inductive Item
  /-- Here `Frame.send` is a call of `process_send_signal` that is about to be made. -/
  | frame (f : Frame)
  | holds (c : Section)
  /-- The way of a new child out of `task_fork`. -/
  | forked
  | yield
  deriving DecidableEq, Repr

def Item.isHolds : Item → Bool
  | .holds _ => true
  | _ => false

/-- The kernel, the stacks of its tasks, and the flag as each return from fork, vfork and execve
left it. -/
structure Sched where
  kernel : Kernel
  stack : Nat → List Item
  returns : List Bool

inductive SwitchCall
  | fork (copy memory : Bool)
  /-- `found`: the tests in front of the critical section succeed. -/
  | execve (found : Bool) (image : Option UInt16)
  | exit (code : Int)
  /-- A call that does not touch the flag itself. -/
  | other (c : Syscall)

inductive SwitchEvent
  | call (c : SwitchCall)
  /-- The current task goes on. -/
  | run
  /-- The scheduler's interrupt. -/
  | tick
  /-- The timer's interrupt. -/
  | clock
  /-- A character from the keyboard. -/
  | key (c : UInt8) (bufferEmpty : Bool)
  /-- The current task writes to a console, in a system call or with `printk`. -/
  | putchar (c : UInt8)
  | update (active : Bool)
  /-- The current task sends a signal outside of the calls above, such as `SIGPIPE`. -/
  | signal (pid sig : Nat)
  /-- The signal handler of the current task returns. -/
  | ret

namespace Sched

def current (s : Sched) : Nat := s.kernel.current

def enabled (s : Sched) : Bool := s.kernel.switchEnabled

def top (s : Sched) : List Item := s.stack s.current

def setTop (s : Sched) (items : List Item) : Sched :=
  { s with stack := Function.update s.stack s.current items }

def setEnabled (s : Sched) (enabled : Bool) : Sched :=
  { s with kernel := { s.kernel with switchEnabled := enabled } }

/-- Return from fork, vfork or execve. -/
def logReturn (s : Sched) : Sched := { s with returns := s.enabled :: s.returns }

/-- Set the flag to 0. -/
def enter (s : Sched) (c : Section) (rest : List Item) : Sched :=
  (s.setEnabled false).setTop (.holds c :: rest)

/-- The kernel without frames of its own. -/
def bare (s : Sched) : Kernel := { s.kernel with kstack := fun _ => [] }

/-- Go on with the kernel `k`, whose frames come on top of `rest`. -/
def absorb (s : Sched) (k : Kernel) (rest : List Item) : Sched :=
  { s with kernel := k }.setTop ((k.kstack k.current).map Item.frame ++ rest)

/-- `irq8`. -/
def switch (s : Sched) : Option Sched :=
  s.bare.irq8.map fun k => s.absorb k (s.stack k.current)

/-- The end of `process_send_signal`. -/
def finishSend (s : Sched) (pid sig : Nat) (rest : List Item) : Sched :=
  let k := s.kernel.setSignals pid ((s.kernel.table pid).signals.arrive sig)
  ({ s with kernel := k }.setEnabled true).setTop
    (if pid = s.current then .yield :: rest else rest)

/-- `process_send_signal (ppid, SIGCHLD)` within `process_send_signal`. -/
def notifyParent (s : Sched) (ppid pid sig : Nat) (rest : List Item) : Sched :=
  if ppid = 0 then s.finishSend pid sig rest
  else s.enter (.send ppid SIGCHLD) (.holds (.notified pid sig) :: rest)

/-- `process_send_signal` from its tests on. -/
def sendSignal (s : Sched) (pid sig : Nat) (rest : List Item) : Option Sched :=
  let (signals, effect) := (s.kernel.table pid).signals.receive sig
  let s := { s with kernel := s.kernel.setSignals pid signals }
  match effect with
  | .returned => some ((s.setEnabled true).setTop rest)
  | .caught => some (s.finishSend pid sig rest)
  | .exit =>
    (s.kernel.table pid).task.map fun task =>
      notifyParent { s with kernel := { s.kernel with exitTask := pid } } task.ppid pid sig rest
  | .stop notifies =>
    if notifies then
      (s.kernel.table pid).task.map fun task => s.notifyParent task.ppid pid sig rest
    else some (s.finishSend pid sig rest)

/-- The rest of a function that holds the flag. -/
def finish (s : Sched) (rest : List Item) : Section → Option Sched
  | .fork _ memory =>
    (s.bare.sysFork memory).map fun
      | (none, k) => ({ s with kernel := k }.setTop rest).logReturn
      | (some pid, k) =>
        let s := ({ s with kernel := k }.setTop rest).logReturn
        { s with stack := Function.update s.stack pid (.forked :: rest) }
  | .exec none => some (s.setTop rest).logReturn
  | .exec (some euid) =>
    let k := s.kernel.processClear s.current true
    let k := k.set s.current { k.table s.current with euid }
    some (({ s with kernel := k }.setEnabled true).setTop [.yield]).logReturn
  | .send pid sig => s.sendSignal pid sig rest
  | .notified pid sig => some (s.finishSend pid sig rest)
  | .output => some ((s.setEnabled true).setTop rest)

def runItem (s : Sched) (rest : List Item) : Item → Option Sched
  | .frame (.send pid sig) => some (s.enter (.send pid sig) rest)
  | .frame (.sent _ _) | .frame .handler => none
  | .frame f => (s.bare.push [f]).runFrame.map fun r => s.absorb r.1 rest
  | .holds c => s.finish rest c
  | .forked => some ((s.setEnabled true).setTop rest).logReturn
  | .yield => (s.setTop rest).switch

def call (s : Sched) : SwitchCall → Option Sched
  | .fork copy memory => some (s.enter (.fork copy memory) s.top)
  | .execve found image => some (if found then s.enter (.exec image) s.top else s.logReturn)
  | .exit code =>
    if s.current = 0 then none
    else
      (s.kernel.table s.current).task.map fun task =>
        let signals := { (s.kernel.table s.current).signals with
          term := true
          waitstat := (code % 256).toNat * 256 }
        let k := { s.kernel.setSignals s.current signals with exitTask := s.current }
        let notice : List Item :=
          if task.ppid = 0 then [] else [.frame (.send task.ppid SIGCHLD)]
        setTop { s with kernel := k } (notice ++ .yield :: s.top)
  | .other (.fork _) | .other (.exit _) | .other (.exec _) => none
  | .other c => (s.bare.syscall c).map fun r => s.absorb r.1 s.top

/-- The current task runs user code. -/
def inUser (s : Sched) : Bool :=
  match s.top with
  | [] | .frame .handler :: _ => true
  | _ => false

/-- One step of the machine; `none` is a crash or an event that cannot happen. -/
def next (s : Sched) : SwitchEvent → Option Sched
  | .call c => if s.inUser then s.call c else none
  | .run =>
    match s.top with
    | [] => none
    | item :: rest => s.runItem rest item
  | .tick => s.switch
  | .clock => (s.bare.step .clock).map fun r => s.absorb r.1 s.top
  | .key c bufferEmpty => (s.bare.step (.key c bufferEmpty)).map fun r => s.absorb r.1 s.top
  | .putchar c => some (if c = 0 then s else s.enter .output s.top)
  | .update active => some (if active then s.enter .output s.top else s)
  | .signal pid sig => some (s.absorb (s.bare.push [.send pid sig]) s.top)
  | .ret =>
    match s.top with
    | .frame .handler :: rest =>
      ((s.bare.push [.handler]).step .ret).map fun r => s.absorb r.1 rest
    | _ => none

def boot (tty : Terminal) : Sched := ⟨.boot tty, fun _ => [], []⟩

/-! ## The condition -/

/-- The running task is between setting the flag to 0 and to 1. -/
def holding (s : Sched) : Bool := s.top.any Item.isHolds

/-- The signal ends or stops its target, and the parent of the target is notified. -/
def notifies (s : Sched) (pid sig : Nat) : Bool :=
  (match ((s.kernel.table pid).signals.receive sig).2 with
    | .exit | .stop true => true
    | _ => false) &&
  (s.kernel.parent pid).any (· ≠ 0)

/-- The step calls `process_send_signal` or writes to a console. -/
def nests (s : Sched) : SwitchEvent → Bool
  | .run =>
    match s.top with
    | .frame (.send _ _) :: _ => true
    | .holds (.send pid sig) :: _ => s.notifies pid sig
    | _ => false
  | .putchar c => c ≠ 0
  | .update active => active
  | _ => false

/-- The step returns from an execve that fails while the flag is 0. -/
def failsDisabled (s : Sched) : SwitchEvent → Bool
  | .call (.execve false _) => !s.enabled
  | .run => s.top.head? = some (.holds (.exec none))
  | _ => false

/-- No signal is sent and nothing is written to a console in a critical section, and no execve
fails while the flag is 0. -/
def disciplined (s : Sched) (e : SwitchEvent) : Bool :=
  !(s.nests e && s.holding) && !s.failsDisabled e

/-! ## What holds in every step -/

variable {s t : Sched} {k : Kernel} {rest items : List Item} {c : Section}

/-- No function among the items holds the flag. -/
def Free (items : List Item) : Prop := ∀ c, Item.holds c ∉ items

/-- Nothing holds the flag. -/
def Unheld (s : Sched) : Prop := ∀ p, Free (s.stack p)

/-- One function of the running task holds the flag, below calls that interrupts have made. -/
structure Held (s : Sched) (c : Section) (rest : List Item) : Prop where
  others : ∀ p ≠ s.current, Free (s.stack p)
  top : ∃ frames : List Frame, s.top = frames.map Item.frame ++ .holds c :: rest ∧
    .handler ∉ frames
  rest : Free rest
  disabled : s.enabled = false

structure Sound (s : Sched) : Prop where
  held : s.Unheld ∨ ∃ c rest, s.Held c rest
  returns : ∀ b ∈ s.returns, b = true

variable {pid : Nat} {e : SwitchEvent}

variable {f : Frame} {sig : Nat}

theorem Free.nil : Free [] := nofun

theorem Free.cons {item : Item} (h : Free items) (other : item.isHolds = false) :
    Free (item :: items) := by
  intro c mem
  rcases mem_cons.1 mem with rfl | mem
  · cases other
  · exact h c mem

theorem Free.tail {item : Item} (h : Free (item :: items)) : Free items :=
  fun c mem => h c (.tail _ mem)

theorem Free.frames (h : Free items) (frames : List Frame) :
    Free (frames.map Item.frame ++ items) := by
  induction frames with
  | nil => exact h
  | cons f frames ih => exact ih.cons rfl

theorem Unheld.setTop (others : ∀ p ≠ s.current, Free (s.stack p)) (top : Free items) :
    (s.setTop items).Unheld := by
  intro p
  by_cases here : p = s.current
  · subst here
    simpa [Sched.setTop] using top
  · simpa [Sched.setTop, here] using others p here

theorem Unheld.absorb (h : s.Unheld) (top : Free rest) : (s.absorb k rest).Unheld :=
  Unheld.setTop (fun p _ => h p) (top.frames _)

theorem Unheld.held_enter (h : s.Unheld) (free : Free rest) : (s.enter c rest).Held c rest where
  others p ne := by
    have off : (s.enter c rest).stack p = s.stack p := update_of_ne ne _ _
    exact off ▸ h p
  top := ⟨[], update_self _ _ _, nofun⟩
  rest := free
  disabled := rfl

theorem Unheld.enter (h : s.Unheld) (returns : ∀ b ∈ s.returns, b = true) (free : Free rest) :
    (s.enter c rest).Sound :=
  ⟨.inr ⟨c, rest, h.held_enter free⟩, returns⟩

theorem Unheld.switch (h : s.Unheld) (switched : s.switch = some t) :
    t.Unheld ∧ t.returns = s.returns := by
  obtain ⟨k, -, rfl⟩ := map_eq_some_iff.1 switched
  exact ⟨h.absorb (h _), rfl⟩

section

variable (h : s.Held c rest)
include h

theorem Held.holding : s.holding = true := by
  obtain ⟨_, top, -⟩ := h.top
  simp [Sched.holding, top, Item.isHolds]

/-- Where a function holds the flag, the task is not in user mode. -/
theorem Held.head :
    s.top = .holds c :: rest ∨ ∃ (f : Frame) (frames : List Frame), f ≠ .handler ∧
      .handler ∉ frames ∧ s.top = .frame f :: (frames.map Item.frame ++ .holds c :: rest) := by
  obtain ⟨frames, top, kernel⟩ := h.top
  cases frames with
  | nil => exact .inl top
  | cons f frames =>
    exact .inr ⟨f, frames, fun eq => kernel (eq ▸ .head _), fun mem => kernel (.tail _ mem), top⟩

theorem Held.not_inUser : s.inUser = false := by
  unfold inUser
  rcases h.head with top | ⟨f, _, ne, -, top⟩
  · rw [top]
  · rw [top]
    cases f <;> first | rfl | exact absurd rfl ne

/-- An interrupt in a critical section puts its calls on top. -/
theorem Held.absorb {frames : List Frame}
    (current : k.current = s.current) (disabled : k.switchEnabled = false)
    (fresh : .handler ∉ k.kstack k.current) (old : .handler ∉ frames) :
    (s.absorb k (frames.map Item.frame ++ .holds c :: rest)).Held c rest where
  others p ne := by
    have off : (s.absorb k (frames.map Item.frame ++ .holds c :: rest)).stack p = s.stack p :=
      update_of_ne ne _ _
    exact off ▸ h.others p (current ▸ ne)
  top := by
    refine ⟨k.kstack k.current ++ frames, ?_, by simp [fresh, old]⟩
    rw [map_append, append_assoc]
    exact update_self _ _ _
  rest := h.rest
  disabled := disabled

theorem Held.absorb_top (current : k.current = s.current)
    (disabled : k.switchEnabled = false) (fresh : .handler ∉ k.kstack k.current) :
    (s.absorb k s.top).Held c rest := by
  obtain ⟨_, top, old⟩ := h.top
  rw [top]
  exact h.absorb current disabled fresh old

end

/-- A round of a loop of the kernel neither switches tasks nor changes the flag. -/
theorem runFrame_loop {r : Kernel × Reply} (calls : ∀ pid sig, f ≠ .send pid sig)
    (sent : ∀ pid sig, f ≠ .sent pid sig) (done : (s.bare.push [f]).runFrame = some r) :
    r.1.current = s.current ∧ r.1.switchEnabled = s.enabled ∧ .handler ∉ r.1.kstack r.1.current := by
  have start : (s.bare.push [f]).current = s.current ∧ (s.bare.push [f]).switchEnabled = s.enabled :=
    ⟨rfl, rfl⟩
  have stack : (s.bare.push [f]).kstack (s.bare.push [f]).current = [f] := by
    simp [Kernel.push, Kernel.setStack, bare]
  generalize s.bare.push [f] = k at start stack done
  have stays (k' : Kernel) (current : k'.current = k.current)
      (enabled : k'.switchEnabled = k.switchEnabled) (frames : List Frame)
      (fresh : .handler ∉ frames) :
      (k'.setStack k.current frames).current = s.current ∧
        (k'.setStack k.current frames).switchEnabled = s.enabled ∧
        .handler ∉ (k'.setStack k.current frames).kstack (k'.setStack k.current frames).current := by
    refine ⟨current.trans start.1, enabled.trans start.2, ?_⟩
    simpa [Kernel.setStack, current] using fresh
  unfold Kernel.runFrame at done
  rw [stack] at done
  cases f with
  | send pid sig => exact absurd rfl (calls pid sig)
  | sent pid sig => exact absurd rfl (sent pid sig)
  | handler => cases done
  | killpg i _ sig =>
    dsimp only at done
    split at done
    · cases done
      exact stays k rfl rfl _ nofun
    split at done
    · cases done
      exact stays k rfl rfl _ (by simp)
    split at done
    · cases done
      exact stays k rfl rfl _ nofun
    · cases done
      exact stays k rfl rfl _ (by simp)
  | tty i sig =>
    dsimp only at done
    split at done
    · cases done
      exact stays k rfl rfl _ nofun
    split at done
    all_goals
      cases done
      exact stays k rfl rfl _ (by simp)
  | timer i =>
    dsimp only at done
    split at done
    · cases done
      exact stays k rfl rfl _ nofun
    split at done
    · cases done
      exact stays k rfl rfl _ (by simp)
    · cases done
      exact stays (k.set i _) rfl rfl _ (by split <;> simp)
  | wait pid =>
    obtain ⟨status, -, rfl⟩ := map_eq_some_iff.1 done
    cases status with
    | none => exact ⟨start.1, start.2, by simp [stack]⟩
    | some => exact stays k rfl rfl _ nofun

theorem Held.pop (h : s.Held c rest) (same : t.current = s.current) (stack : t.stack = s.stack)
    (free : Free items) : (t.setTop items).Unheld :=
  Unheld.setTop (fun p ne => stack ▸ h.others p (same ▸ ne)) free

theorem finishSend_unheld (h : s.Held c rest) (same : t.current = s.current)
    (stack : t.stack = s.stack) : (t.finishSend pid sig rest).Unheld := by
  refine h.pop same stack ?_
  split
  · exact h.rest.cons rfl
  · exact h.rest

theorem ppid_eq_zero {signals : Signals} {task : ProcessTask}
    (entry : ((s.kernel.setSignals pid signals).table pid).task = some task)
    (alone : (s.kernel.parent pid).any (· ≠ 0) = false) : task.ppid = 0 := by
  have parent : s.kernel.parent pid = some task.ppid := by
    rw [← s.kernel.setSignals_parent pid signals, parent, entry]
    rfl
  simpa [parent] using alone

/-- Without a parent to notify, sending a signal is one critical section. -/
theorem sendSignal_unheld (h : s.Held c rest) (alone : s.notifies pid sig = false)
    (sent : s.sendSignal pid sig rest = some t) : t.Unheld ∧ t.returns = s.returns := by
  unfold sendSignal at sent
  unfold notifies at alone
  generalize (s.kernel.table pid).signals.receive sig = received at sent alone
  obtain ⟨_, effect⟩ := received
  cases effect with
  | returned =>
    cases sent
    exact ⟨h.pop rfl rfl h.rest, rfl⟩
  | caught =>
    cases sent
    exact ⟨finishSend_unheld h rfl rfl, rfl⟩
  | exit =>
    obtain ⟨task, entry, rfl⟩ := map_eq_some_iff.1 sent
    unfold notifyParent
    rw [if_pos (ppid_eq_zero entry alone)]
    exact ⟨finishSend_unheld h rfl rfl, rfl⟩
  | stop notifies =>
    cases notifies with
    | false =>
      cases sent
      exact ⟨finishSend_unheld h rfl rfl, rfl⟩
    | true =>
      obtain ⟨task, entry, rfl⟩ := map_eq_some_iff.1 sent
      unfold notifyParent
      rw [if_pos (ppid_eq_zero entry alone)]
      exact ⟨finishSend_unheld h rfl rfl, rfl⟩

/-- Every critical section but that of a failing execve ends with the flag at 1. -/
theorem finish_sound (h : s.Held c rest) (returns : ∀ b ∈ s.returns, b = true)
    (alone : ∀ pid sig, c = .send pid sig → s.notifies pid sig = false) (loads : c ≠ .exec none)
    (done : s.finish rest c = some t) : t.Sound := by
  have logged : ∀ b ∈ true :: s.returns, b = true := forall_mem_cons.2 ⟨rfl, returns⟩
  cases c with
  | fork =>
    obtain ⟨⟨child, k⟩, forked, eq⟩ := map_eq_some_iff.1 done
    rcases Kernel.sysFork_spec forked with ⟨rfl, rfl⟩ | ⟨pid, _, rfl, -, -, forks⟩
    · cases eq
      exact ⟨.inl (h.pop rfl rfl h.rest), logged⟩
    · cases eq
      have current : k.current = s.current := forks.current
      have enabled : k.switchEnabled = true := forks.switchEnabled
      have parent : (setTop { s with kernel := k } rest).Unheld := h.pop current rfl h.rest
      refine ⟨.inl fun p => ?_, ?_⟩
      · by_cases child : p = pid
        · subst child
          simpa using h.rest.cons rfl
        · simpa [child, logReturn] using parent p
      · exact forall_mem_cons.2 ⟨enabled, returns⟩
  | exec image =>
    cases image with
    | none => exact absurd rfl loads
    | some =>
      cases done
      exact ⟨.inl (h.pop rfl rfl (Free.nil.cons rfl)), logged⟩
  | send pid sig =>
    obtain ⟨unheld, same⟩ := sendSignal_unheld h (alone pid sig rfl) done
    exact ⟨.inl unheld, same ▸ returns⟩
  | notified pid sig =>
    cases done
    exact ⟨.inl (finishSend_unheld h rfl rfl), returns⟩
  | output =>
    cases done
    exact ⟨.inl (h.pop rfl rfl h.rest), returns⟩

theorem Unheld.runFrame (h : s.Unheld) (returns : ∀ b ∈ s.returns, b = true) (free : Free rest)
    (step : s.runItem rest (.frame f) = some t) : t.Sound := by
  cases f with
  | send pid sig =>
    cases step
    exact h.enter returns free
  | sent pid sig => cases step
  | handler => cases step
  | killpg i pgid sig | tty i sig | timer i | wait pid =>
    obtain ⟨r, -, rfl⟩ := map_eq_some_iff.1 step
    exact ⟨.inl (h.absorb free), returns⟩

theorem Unheld.call (h : s.Unheld) (returns : ∀ b ∈ s.returns, b = true) {c : SwitchCall}
    (fine : s.failsDisabled (.call c) = false) (step : s.call c = some t) : t.Sound := by
  have top : Free s.top := h s.current
  cases c with
  | fork _ memory =>
    cases step
    exact h.enter returns top
  | execve found =>
    cases step
    cases found with
    | true => exact h.enter returns top
    | false => exact ⟨.inl h, forall_mem_cons.2 ⟨by simpa [failsDisabled] using fine, returns⟩⟩
  | exit code =>
    simp only [Sched.call] at step
    split at step
    · cases step
    obtain ⟨-, -, rfl⟩ := map_eq_some_iff.1 step
    refine ⟨.inl (Unheld.setTop (fun p _ => h p) ?_), returns⟩
    split
    · exact top.cons rfl
    · exact (top.cons rfl).cons rfl
  | other c =>
    cases c with
    | fork memory => cases step
    | exit code => cases step
    | exec => cases step
    | wait4 | kill | setpgid | setsid | tiocspgrp | sigaction | sigprocmask | setitimer =>
      simp only [Sched.call] at step
      obtain ⟨r, -, rfl⟩ := map_eq_some_iff.1 step
      exact ⟨.inl (h.absorb top), returns⟩

theorem Unheld.next (h : s.Unheld) (returns : ∀ b ∈ s.returns, b = true)
    (fine : s.failsDisabled e = false) (step : s.next e = some t) : t.Sound := by
  have top : Free s.top := h s.current
  cases e with
  | call c =>
    simp only [Sched.next] at step
    split at step
    · exact h.call returns fine step
    · cases step
  | run =>
    simp only [Sched.next] at step
    split at step
    · cases step
    case h_2 item rest stack =>
      rw [stack] at top
      have others := top.tail
      cases item with
      | frame f => exact h.runFrame returns others step
      | holds c => exact absurd (.head _) (top c)
      | forked =>
        cases step
        exact ⟨.inl (Unheld.setTop (fun p _ => h p) others), forall_mem_cons.2 ⟨rfl, returns⟩⟩
      | yield =>
        have popped : (s.setTop rest).Unheld := Unheld.setTop (fun p _ => h p) others
        obtain ⟨unheld, same⟩ := popped.switch step
        exact ⟨.inl unheld, same ▸ returns⟩
  | tick =>
    obtain ⟨unheld, same⟩ := h.switch step
    exact ⟨.inl unheld, same ▸ returns⟩
  | clock =>
    cases step
    exact ⟨.inl (h.absorb top), returns⟩
  | key c =>
    obtain ⟨r, -, rfl⟩ := map_eq_some_iff.1 step
    exact ⟨.inl (h.absorb top), returns⟩
  | putchar c =>
    cases step
    split
    · exact ⟨.inl h, returns⟩
    · exact h.enter returns top
  | update =>
    cases step
    split
    · exact h.enter returns top
    · exact ⟨.inl h, returns⟩
  | signal =>
    cases step
    exact ⟨.inl (h.absorb top), returns⟩
  | ret =>
    simp only [Sched.next] at step
    split at step
    case h_1 rest stack =>
      obtain ⟨r, -, rfl⟩ := map_eq_some_iff.1 step
      exact ⟨.inl (h.absorb (stack ▸ top).tail), returns⟩
    case h_2 => cases step

theorem Held.next (h : s.Held c rest) (returns : ∀ b ∈ s.returns, b = true)
    (fine : s.disciplined e = true) (step : s.next e = some t) : t.Sound := by
  obtain ⟨alone, loads⟩ : s.nests e = false ∧ s.failsDisabled e = false := by
    simpa [disciplined, h.holding] using fine
  have stays {u : Sched} (held : u.Held c rest) (same : u.returns = s.returns) : u.Sound :=
    ⟨.inr ⟨c, rest, held⟩, same ▸ returns⟩
  cases e with
  | call call =>
    simp [Sched.next, h.not_inUser] at step
  | run =>
    rcases h.head with top | ⟨f, frames, ne, old, top⟩
    · simp only [Sched.next, top] at step
      refine finish_sound h returns ?_ ?_ step
      · rintro pid sig rfl
        simpa [nests, top] using alone
      · rintro rfl
        simp [failsDisabled, top] at loads
    · simp only [Sched.next, top] at step
      simp only [nests, top] at alone
      cases f with
      | send pid sig => cases alone
      | sent pid sig => cases step
      | handler => cases step
      | killpg i pgid sig | tty i sig | timer i | wait pid =>
        obtain ⟨r, done, rfl⟩ := map_eq_some_iff.1 step
        obtain ⟨current, enabled, fresh⟩ := runFrame_loop (by simp) (by simp) done
        exact stays (h.absorb current (enabled.trans h.disabled) fresh old) rfl
  | tick =>
    have disabled : s.bare.switchEnabled = false := h.disabled
    have off : s.bare.irq8 = some s.bare := by simp [Kernel.irq8, disabled]
    simp only [Sched.next, switch, off, map_some, some.injEq] at step
    subst step
    exact stays (h.absorb_top rfl h.disabled nofun) rfl
  | clock =>
    cases step
    exact stays (h.absorb_top rfl h.disabled (by simp [Kernel.push, bare])) rfl
  | key key =>
    simp only [Sched.next, Kernel.step] at step
    split at step
    · cases step
      exact stays (h.absorb_top rfl h.disabled nofun) rfl
    · cases step
      exact stays (h.absorb_top rfl h.disabled (by simp [push, bare])) rfl
  | putchar c =>
    cases step
    have skipped : c = 0 := by simpa [nests] using alone
    rw [if_pos skipped]
    exact stays h rfl
  | update active =>
    cases step
    have skipped : active = false := alone
    rw [skipped]
    exact stays h rfl
  | signal pid sig =>
    cases step
    exact stays (h.absorb_top rfl h.disabled (by simp [Kernel.push, bare])) rfl
  | ret =>
    simp only [Sched.next] at step
    split at step
    case h_1 _ stack =>
      rcases h.head with top | ⟨f, frames, ne, -, top⟩
      · cases stack.symm.trans top
      · cases stack.symm.trans top
        exact absurd rfl ne
    case h_2 => cases step

theorem Sound.next (h : s.Sound) (fine : s.disciplined e = true)
    (step : s.next e = some t) : t.Sound := by
  rcases h.held with unheld | ⟨c, _, held⟩
  · have loads : s.failsDisabled e = false := by
      simp only [disciplined, Bool.and_eq_true, Bool.not_eq_true'] at fine
      exact fine.2
    exact unheld.next h.returns loads step
  · exact held.next h.returns fine step

theorem Sound.boot (tty : Terminal) : (boot tty).Sound := ⟨.inl fun _ => Free.nil, nofun⟩

theorem Sound.disabled (h : s.Sound) {p : Nat} (holds : .holds c ∈ s.stack p) :
    s.enabled = false := by
  rcases h.held with unheld | ⟨_, _, held⟩
  · exact absurd holds (unheld p c)
  · exact held.disabled

end Sched

/-- As long as no signal is sent and nothing is written to a console in a critical section, and
no execve fails while the flag is 0, the flag is 0 in every critical section until the function
that set it to 0 sets it to 1, and it is 1 after every return from fork, vfork and execve. -/
theorem task_switch_lock_runs {tty : Terminal} {events : List SwitchEvent} {s : Sched}
    (run : Run (Guarded (fun s e => s.disciplined e = true) (partialGraph Sched.next))
      (.boot tty) events s) :
    (∀ p c, .holds c ∈ s.stack p → s.enabled = false) ∧ ∀ b ∈ s.returns, b = true := by
  have sound : s.Sound := by
    refine run.invariant (I := Sched.Sound) ?_ (.boot tty)
    rintro s e t h ⟨fine, step⟩
    exact h.next fine step
  exact ⟨fun p c holds => sound.disabled holds, sound.returns⟩

/-- A terminal without special characters. -/
def quietTerminal : Terminal := ⟨0, fun _ => 0xff, false, 0⟩

/-- A child starts a fork while the timer's interrupt has just come in. -/
theorem task_switch_lock_runs_fork : ∃ s : Sched,
    s.stack 1 = [.frame (.timer 1), .holds (.fork true true)] ∧ s.returns = [true, true] ∧
      (∀ p c, .holds c ∈ s.stack p → s.enabled = false) ∧ ∀ b ∈ s.returns, b = true := by
  have runnable : (exec Sched.disciplined Sched.next (.boot quietTerminal)
      [.call (.fork true true), .run, .tick, .run, .call (.fork true true), .clock, .run]).any
      (fun s => s.stack 1 = [.frame (.timer 1), .holds (.fork true true)] &&
        s.returns = [true, true]) = true := by
    decide +kernel
  obtain ⟨s, hs, facts⟩ := (Option.any_eq_true _ _).1 runnable
  simp only [Bool.and_eq_true, decide_eq_true_eq] at facts
  exact ⟨s, facts.1, facts.2, task_switch_lock_runs (run_of_exec hs)⟩

/-- A timer that runs out during a fork sets the flag to 1, and an execve of an invalid image
leaves it at 0. -/
theorem timer_reenables_switch :
    (∃ events s, Run (partialGraph Sched.next) (.boot quietTerminal) events s ∧
      .holds (.fork true true) ∈ s.stack 1 ∧ s.enabled = true) ∧
    ∃ events s, Run (partialGraph Sched.next) (.boot quietTerminal) events s ∧ s.returns = [false] := by
  constructor
  · have fires : (exec (fun _ _ => true) Sched.next (.boot quietTerminal)
        [.call (.fork true true), .run, .tick, .run, .call (.other (.setitimer ⟨0, 1000, 0, 0⟩)),
          .call (.fork true true), .clock, .run, .run, .run, .run]).any
        (fun s => (s.stack 1).contains (.holds (.fork true true)) && s.enabled) = true := by
      decide +kernel
    obtain ⟨s, hs, facts⟩ := (Option.any_eq_true _ _).1 fires
    simp only [Bool.and_eq_true, List.contains_iff_mem] at facts
    exact ⟨_, s, (run_of_exec hs).mono fun _ _ _ step => step.2, facts⟩
  · have fails : (exec (fun _ _ => true) Sched.next (.boot quietTerminal)
        [.call (.execve true none), .run]).any (fun s => s.returns = [false]) = true := by
      decide +kernel
    obtain ⟨s, hs, facts⟩ := (Option.any_eq_true _ _).1 fails
    exact ⟨_, s, (run_of_exec hs).mono fun _ _ _ step => step.2, of_decide_eq_true facts⟩

end Os0
