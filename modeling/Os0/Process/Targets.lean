import Os0.Process.Table

/-! The targets of signals over whole runs. A call of `process_send_signal` is a frame on the
stack of the task that makes it, from the check of its target to the call itself. -/
namespace Os0

open Runs List Option Kernel

def Frame.targets (pid : Nat) : Frame → Bool
  | .send p _ => p == pid
  | _ => false

namespace Kernel

/-- The call that the current task makes next, if it is one of `process_send_signal`, has a
target with a task. -/
def SendsToLive (k : Kernel) : Prop :=
  ∀ pid sig rest, k.kstack k.current = .send pid sig :: rest → k.live pid = true

/-- A task of the queue is about to send a signal to `pid`. -/
def targeted (k : Kernel) (pid : Nat) : Bool :=
  k.queue.any fun p => (k.kstack p).any (Frame.targets pid)

/-- `pid` is no process to be freed, or no call waits to be made for it. -/
def spared (k : Kernel) (pid : Nat) : Bool := pid == 0 || !k.targeted pid

/-- The terminal has a foreground group when it looks for its processes, and where a task
switch may free `exit_task`, no task is about to send it a signal. -/
def aimed (k : Kernel) : Event → Bool
  | .tick | .call (.exec _) => k.spared k.exitTask
  | .run =>
    match k.kstack k.current with
    | .send pid _ :: rest =>
      let k := k.setStack k.current rest
      k.spared k.exitTask && k.spared pid
    | .sent _ _ :: _ => k.spared k.exitTask
    | .tty _ _ :: _ => decide (k.tty.fgPgid ≠ 0)
    | _ => true
  | _ => true

/-- What `spared` tests. -/
def Apart (k : Kernel) (pid : Nat) : Prop :=
  ∀ p ∈ k.queue, ∀ q sig, .send q sig ∈ k.kstack p → q = pid → pid = 0

variable {pid : Nat}

theorem apart_of_spared {k : Kernel} (spared : k.spared pid = true) : k.Apart pid := by
  rintro p mem q _ frame rfl
  by_contra nonzero
  have hit : k.targeted q = true :=
    any_eq_true.2 ⟨p, mem, any_eq_true.2 ⟨_, frame, by simp [Frame.targets]⟩⟩
  simp [Kernel.spared, nonzero, hit] at spared

/-- New frames for the current task that send nothing. -/
theorem Apart.setStack {k : Kernel} (apart : k.Apart pid) {frames : List Frame}
    (sends : ∀ q sig, .send q sig ∈ frames → .send q sig ∈ k.kstack k.current) :
    (k.setStack k.current frames).Apart pid := by
  intro p mem q sig frame
  rw [setStack_kstack] at frame
  split at frame
  · subst_vars
    exact apart _ mem q sig (sends q sig frame)
  · exact apart p mem q sig frame

/-- Free entries are in group 0, and signals that are about to be sent have live targets. -/
structure SendInv (k : Kernel) : Prop where
  queue : QueueOk k
  current : k.current ∈ k.queue
  free : ∀ p, k.live p = false → (k.table p).pgid = 0
  sends : ∀ p ∈ k.queue, ∀ q sig, .send q sig ∈ k.kstack p → k.live q = true

namespace SendInv

variable {k k' : Kernel}

section

variable (h : SendInv k)
include h

variable {sig : Nat}

theorem sendsToLive : k.SendsToLive := fun pid sig _ top =>
  h.sends k.current h.current pid sig (top ▸ mem_cons_self)

theorem congr (parent : k'.parent = k.parent) (queue : k'.queue = k.queue)
    (current : k'.current ∈ k.queue)
    (pgid : ∀ p, k.live p = false → (k.table p).pgid = 0 → (k'.table p).pgid = 0)
    (sends : ∀ p ∈ k.queue, ∀ q sig, .send q sig ∈ k'.kstack p →
      .send q sig ∈ k.kstack p ∨ k.live q = true) : SendInv k' := by
  have live (p : Nat) : k'.live p = k.live p := by rw [live_eq, live_eq, parent]
  constructor
  case queue => exact h.queue.congr queue parent
  case current => exact queue ▸ current
  case free =>
    intro p free
    rw [live] at free
    exact pgid p free (h.free p free)
  case sends =>
    intro p mem q sig frame
    rw [queue] at mem
    rw [live]
    exact (sends p mem q sig frame).elim (h.sends p mem q sig) id

theorem set {e : ProcessEntry} (task : e.task = (k.table pid).task)
    (pgid : k.live pid = true ∨ e.pgid = (k.table pid).pgid) : SendInv (k.set pid e) := by
  refine h.congr (k.set_parent pid task) rfl h.current (fun p free zero => ?_)
    (fun _ _ _ _ frame => .inl frame)
  by_cases same : p = pid
  · subst same
    rcases pgid with live | same
    · rw [free] at live
      cases live
    · simpa [same] using zero
  · simpa [same] using zero

theorem setSignals (pid : Nat) (signals : Signals) :
    SendInv (k.setSignals pid signals) := h.set rfl (.inr rfl)

theorem setStack {frames : List Frame} (sends : ∀ q sig, .send q sig ∈ frames →
      .send q sig ∈ k.kstack k.current ∨ k.live q = true) :
    SendInv (k.setStack k.current frames) := by
  refine h.congr rfl rfl h.current (fun _ _ zero => zero) (fun p mem q sig frame => ?_)
  rw [setStack_kstack] at frame
  split at frame
  · subst_vars
    exact sends q sig frame
  · exact .inl frame

theorem switchTo (mem : pid ∈ k.queue) : SendInv (k.switchTo pid) := by
  obtain ⟨k₁, _, def₁, eq⟩ := k.switchTo_spec pid
  have inv : SendInv k₁ := by
    rw [def₁]
    exact (h.setSignals pid _).congr rfl rfl mem (fun _ _ zero => zero) (fun _ _ _ _ frame => .inl frame)
  rcases eq with eq | eq <;> rw [eq]
  · exact inv
  · have pushed : SendInv (k₁.push [.handler]) :=
      inv.setStack fun q sig frame => .inl (by simpa using frame)
    exact pushed.congr rfl rfl pushed.current (fun _ _ zero => zero) (fun _ _ _ _ frame => .inl frame)

/-- A task switch, when no signal is about to be sent to the process that it may free. -/
theorem irq8 (apart : k.exitTask ∈ k.behind → k.Apart k.exitTask) (switched : k.irq8 = some k') :
    SendInv k' := by
  rcases h.queue.irq8 switched with ⟨-, rfl⟩ | ⟨_, k₁, rfl, queue, mem, -, rfl | ⟨_, _, freed⟩⟩
  · exact h
  · exact h.switchTo mem
  have behind := (takeWhile_sublist _).subset freed.passed
  have nonzero : k.exitTask ≠ 0 := fun zero => h.queue.zero_not_behind (zero ▸ behind)
  have old {p : Nat} (member : p ∈ k₁.queue) : p ∈ k.queue :=
    mem_of_mem_erase (freed.frees.queue ▸ member)
  have others {p : Nat} (ne : p ≠ k.exitTask) : k₁.live p = k.live p := by
    rw [live_eq, live_eq, freed.frees.parent, if_neg ne]
  refine switchTo ?_ mem
  constructor
  case queue => exact queue
  case current =>
    rw [freed.frees.queue, freed.frees.current, h.queue.unique.mem_erase_iff]
    exact ⟨fun same => h.queue.current_not_behind (same ▸ behind), h.current⟩
  case free =>
    intro p free
    by_cases same : p = k.exitTask
    · rw [same, freed.frees.pgid]
    · rw [freed.frees.others p same]
      exact h.free p (others same ▸ free)
  case sends =>
    intro p member q sig frame
    rw [freed.frees.kstack] at frame
    rw [others (mt (apart behind p (old member) q sig frame) nonzero)]
    exact h.sends p (old member) q sig frame

theorem exitTask (pid : Nat) : SendInv { k with exitTask := pid } :=
  h.congr rfl rfl h.current (fun _ _ zero => zero) (fun _ _ _ _ frame => .inl frame)

theorem enable : SendInv { k with switchEnabled := true } :=
  h.congr rfl rfl h.current (fun _ _ zero => zero) (fun _ _ _ _ frame => .inl frame)

section

variable (apart : k.Apart k.exitTask)
include apart

theorem finishSend (sent : k.finishSend pid sig = some k') : SendInv k' := by
  have inv := (h.setSignals pid ((k.table pid).signals.arrive sig)).enable
  simp only [Kernel.finishSend] at sent
  split at sent
  · exact inv.irq8 (fun _ => apart) sent
  · cases sent
    exact inv

theorem notifyParent {ppid : Nat} (sent : k.notifyParent ppid pid sig = some k') : SendInv k' := by
  unfold Kernel.notifyParent at sent
  split at sent
  · exact h.finishSend apart sent
  obtain ⟨s, _, eq⟩ := k.notify_spec ppid
  have inv : SendInv (k.notify ppid).1 := eq ▸ (h.setSignals _ _).enable
  have apart : (k.notify ppid).1.Apart (k.notify ppid).1.exitTask := by
    rw [eq]
    exact apart
  dsimp only at sent
  split at sent
  · have frames (q s : Nat) (frame : .send q s ∈ [.sent pid sig] ++ (k.notify ppid).1.kstack
        (k.notify ppid).1.current) : .send q s ∈ (k.notify ppid).1.kstack
        (k.notify ppid).1.current := by simpa using frame
    exact (inv.setStack fun q s frame => .inl (frames q s frame)).irq8
      (fun _ => apart.setStack frames) sent
  · exact inv.finishSend apart sent

theorem sendSignal (target : k.Apart pid) (sent : k.sendSignal pid sig = some k') : SendInv k' := by
  unfold Kernel.sendSignal at sent
  split at sent
  · cases sent
    exact (h.setSignals _ _).enable
  · exact (h.setSignals _ _).finishSend apart sent
  · obtain ⟨task, -, sent⟩ := bind_eq_some_iff.1 sent
    exact ((h.setSignals _ _).exitTask pid).notifyParent target sent
  · split at sent
    · obtain ⟨task, -, sent⟩ := bind_eq_some_iff.1 sent
      exact (h.setSignals _ _).notifyParent apart sent
    · exact (h.setSignals _ _).finishSend apart sent

end

theorem pop {f : Frame} {rest frames : List Frame} (stack : k.kstack k.current = f :: rest)
    (sends : ∀ q sig, .send q sig ∈ frames → .send q sig ∈ rest ∨ k.live q = true) :
    SendInv (k.setStack k.current frames) :=
  h.setStack fun q sig frame => (sends q sig frame).imp_left fun old =>
    stack ▸ mem_cons_of_mem _ old

end

theorem mayKill_live (may : k.mayKill pid = .ok ()) : k.live pid = true := by
  unfold mayKill at may
  split at may
  · cases may
  · rename_i valid
    simp only [processValid, Bool.not_eq_true', Bool.not_eq_false, Bool.and_eq_true] at valid
    exact valid.2

theorem run (h : SendInv k) (aimed : k.aimed .run = true) {reply : Reply}
    (done : k.runFrame = some (k', reply)) : SendInv k' := by
  unfold runFrame at done
  cases stack : k.kstack k.current with
  | nil => simp [stack] at done
  | cons f rest =>
    have popped : SendInv (k.setStack k.current rest) :=
      h.pop stack fun _ _ frame => .inl frame
    rw [stack] at done
    simp only [Kernel.aimed, stack] at aimed
    cases f with
    | send pid sig =>
      obtain ⟨k₁, sent, eq⟩ := map_eq_some_iff.1 done
      cases eq
      simp only [Bool.and_eq_true] at aimed
      exact popped.sendSignal (apart_of_spared aimed.1) (apart_of_spared aimed.2) sent
    | sent pid sig =>
      obtain ⟨k₁, sent, eq⟩ := map_eq_some_iff.1 done
      cases eq
      refine popped.finishSend ((apart_of_spared aimed).setStack fun q s frame => ?_) sent
      rw [stack]
      exact mem_cons_of_mem _ frame
    | killpg i _ sig =>
      dsimp only at done
      split at done
      · cases done
        exact popped
      split at done
      · cases done
        exact h.pop stack fun q s frame => .inl (by simpa using frame)
      split at done
      · cases done
        exact popped
      · rename_i may
        cases done
        refine h.pop stack fun q s frame => ?_
        simp only [mem_cons, Frame.send.injEq, reduceCtorEq, false_or] at frame
        rcases frame with ⟨rfl, -⟩ | old
        · exact .inr (mayKill_live may)
        · exact .inl old
    | tty i sig =>
      dsimp only at done
      split at done
      · cases done
        exact popped
      split at done
      · rename_i group
        cases done
        refine h.pop stack fun q s frame => ?_
        simp only [mem_cons, Frame.send.injEq, reduceCtorEq, false_or] at frame
        rcases frame with ⟨rfl, -⟩ | old
        · refine .inr ?_
          cases live : k.live q with
          | true => rfl
          | false =>
            rw [h.free q live] at group
            exact absurd group.symm (of_decide_eq_true aimed)
        · exact .inl old
      · cases done
        exact h.pop stack fun q s frame => .inl (by simpa using frame)
    | timer i =>
      dsimp only at done
      split at done
      · cases done
        exact popped
      split at done
      · cases done
        exact h.pop stack fun q s frame => .inl (by simpa using frame)
      · rename_i live
        have live : k.live i = true := by simpa using live
        cases done
        have inv : SendInv (k.set i { k.table i with timer := (k.table i).timer.tick.1 }) :=
          h.set rfl (.inl live)
        refine inv.pop stack fun q s frame => ?_
        split at frame
        · simp only [mem_cons, Frame.send.injEq, reduceCtorEq, false_or] at frame
          rcases frame with ⟨rfl, -⟩ | old
          · refine .inr ?_
            simpa [Kernel.live] using live
          · exact .inl old
        · exact .inl (by simpa using frame)
    | wait =>
      rcases poll_cases done with ⟨rfl, -⟩ | ⟨rfl, -⟩
      · exact h
      · exact popped
    | handler => cases done

theorem push (h : SendInv k) {f : Frame} (live : ∀ q sig, f = .send q sig → k.live q = true) :
    SendInv (k.push [f]) :=
  h.setStack fun q sig frame => (mem_cons.1 frame).symm.imp_right fun new => live q sig new.symm

theorem fork (h : SendInv k) {memory : Bool} {child : Option Nat}
    (forked : k.sysFork memory = some (child, k')) : SendInv k' := by
  rcases sysFork_spec forked with ⟨-, rfl⟩ | ⟨pid, _, -, found, -, forks⟩
  · exact h.enable
  obtain ⟨-, -, free⟩ := freeEntry_spec found
  have stays {p : Nat} (live : k.live p = true) : k'.live p = true := by
    rw [live_eq, forks.parent]
    split
    · rfl
    · rwa [← live_eq]
  constructor
  case queue => exact h.queue.fork free forks
  case current =>
    rw [forks.current, forks.queue]
    exact mem_append_left _ h.current
  case free =>
    intro p gone
    have old : p ≠ pid := by
      rintro rfl
      simp [live, forks.task] at gone
    rw [forks.others p old]
    refine h.free p ?_
    rwa [live_eq, forks.parent, if_neg old, ← live_eq] at gone
  case sends =>
    intro p mem q sig frame
    rw [forks.kstack] at frame
    split at frame
    · exact stays (h.sends _ h.current q sig frame)
    · rename_i old
      exact stays (h.sends p (by simpa [forks.queue, old] using mem) q sig frame)

theorem exit (h : SendInv k) {code : Int} (exited : k.sysExit code = some k') : SendInv k' := by
  obtain ⟨-, -, k₁, exits, switched⟩ := sysExit_spec exited
  have inv : SendInv k₁ := h.congr exits.parent exits.queue (exits.current ▸ h.current)
    (fun p _ zero => (exits.pgid p).trans zero) (fun _ _ _ _ frame => .inl (exits.kstack ▸ frame))
  refine inv.irq8 (fun behind => ?_) switched
  rw [exits.exitTask, ← exits.current] at behind
  exact absurd behind inv.queue.current_not_behind

theorem kill (h : SendInv k) (pid sig : Int) : SendInv (k.sysKill pid sig).1 := by
  unfold sysKill
  split
  · exact h
  split
  · exact h
  split
  · exact h.push nofun
  split
  · exact h
  · rename_i may
    refine h.push fun q s eq => ?_
    cases eq
    have cast : ((pid.toNat : Nat) : Int) = pid := Int.toNat_of_nonneg (by omega)
    exact mayKill_live (cast.symm ▸ may)

theorem updateSignals (h : SendInv k) (result : Except Errno Signals) :
    SendInv (k.updateSignals result).1 := by
  cases result with
  | ok => exact h.setSignals _ _
  | error e => exact h

theorem call (h : SendInv k) {c : Syscall} (aimed : k.aimed (.call c) = true) {reply : Reply}
    (done : k.syscall c = some (k', reply)) : SendInv k' := by
  have live := h.queue.live _ h.current
  cases c with
  | fork =>
    obtain ⟨⟨child, k₁⟩, forked, eq⟩ := map_eq_some_iff.1 done
    cases child <;> cases eq <;> exact h.fork forked
  | exit =>
    obtain ⟨k₁, exited, eq⟩ := map_eq_some_iff.1 done
    cases eq
    exact h.exit exited
  | wait4 pid =>
    rcases sysWait4_cases done with ⟨rfl | ⟨_, rfl⟩, -⟩ | ⟨rfl, -⟩
    · exact h
    · exact h.push nofun
    · exact h
  | kill pid sig =>
    obtain rfl := congrArg Prod.fst (some.inj done)
    exact h.kill pid sig
  | setpgid pid pgid =>
    obtain rfl := congrArg Prod.fst (some.inj done)
    rcases k.sysSetpgid_cases pid pgid with same | ⟨p, _, alive, eq⟩
    · exact same.symm ▸ h
    · exact eq.symm ▸ h.set rfl (.inl alive)
  | setsid =>
    obtain rfl := congrArg Prod.fst (some.inj done)
    rcases k.sysSetsid_cases with same | eq
    · exact same.symm ▸ h
    · exact eq.symm ▸ h.set rfl (.inl live)
  | tiocspgrp _ pgid =>
    obtain rfl := congrArg Prod.fst (some.inj done)
    unfold tiocspgrp
    split
    · exact h.congr rfl rfl h.current (fun _ _ zero => zero) (fun _ _ _ _ frame => .inl frame)
    · exact h
  | sigaction sig =>
    obtain rfl := congrArg Prod.fst (some.inj done)
    exact h.updateSignals _
  | sigprocmask =>
    obtain rfl := congrArg Prod.fst (some.inj done)
    exact h.updateSignals _
  | setitimer =>
    obtain rfl := congrArg Prod.fst (some.inj done)
    exact h.set rfl (.inr rfl)
  | exec euid =>
    obtain ⟨k₁, switched, eq⟩ := map_eq_some_iff.1 done
    cases eq
    have cleared : SendInv (k.processClear k.current true) := h.set rfl (.inl live)
    have inv : SendInv ((k.processClear k.current true).set k.current
        { (k.processClear k.current true).table k.current with euid }) :=
      cleared.set rfl (.inr rfl)
    exact inv.enable.irq8 (fun _ => apart_of_spared aimed) switched

theorem step (h : SendInv k) {e : Event} (aimed : k.aimed e = true) {reply : Reply}
    (done : k.step e = some (k', reply)) : SendInv k' := by
  cases e with
  | call c =>
    simp only [Kernel.step] at done
    split at done
    · exact h.call aimed done
    · cases done
  | run => exact h.run aimed done
  | tick =>
    obtain ⟨_, switched, eq⟩ := map_eq_some_iff.1 done
    cases eq
    exact h.irq8 (fun _ => apart_of_spared aimed) switched
  | clock =>
    cases done
    exact h.push nofun
  | key c bufferEmpty =>
    have inv : SendInv { k with tty := (k.tty.input c bufferEmpty).1 } :=
      h.congr rfl rfl h.current (fun _ _ zero => zero) (fun _ _ _ _ frame => .inl frame)
    simp only [Kernel.step] at done
    split at done
    · cases done
      exact inv
    · cases done
      exact inv.push nofun
  | ret =>
    simp only [Kernel.step] at done
    split at done
    · rename_i rest stack
      cases done
      exact ((h.setSignals _ _).pop stack fun _ _ frame => .inl frame).enable
    · cases done

theorem boot (tty : Terminal) : SendInv (.boot tty) where
  queue := .boot tty
  current := mem_singleton_self _
  free _ _ := rfl
  sends := nofun

end SendInv

end Kernel

/-- As long as the terminal has a foreground group and no switch frees a process that a task
is about to send a signal to, every call of `process_send_signal` has a live target. -/
theorem signal_targets_runs {tty : Terminal} {events : List Event} {k : Kernel}
    (run : Run (Guarded (fun k e => k.aimed e = true) (partialGraph Kernel.next))
      (.boot tty) events k) : k.SendsToLive := by
  have inv : k.SendInv := by
    refine run.invariant (I := Kernel.SendInv) ?_ (.boot tty)
    rintro k e _ h ⟨aimed, next⟩
    obtain ⟨⟨_, _⟩, done, rfl⟩ := Option.map_eq_some_iff.1 next
    exact h.step aimed done
  exact inv.sendsToLive

/-- A terminal that sends `SIGINT` for Ctrl-C. -/
def cookedTerminal : Terminal := ⟨ISIG, fun i => if i = VINTR then 3 else 0xff, false, 0⟩

/-- A process makes itself the foreground group, and Ctrl-C is a signal for it. -/
theorem signal_targets_runs_at : ∃ k : Kernel,
    k.kstack k.current = [.send 1 SIGINT, .tty 2 SIGINT] ∧ k.SendsToLive := by
  have runnable : (exec Kernel.aimed Kernel.next (.boot cookedTerminal)
      [.call (.fork true), .tick, .call (.setpgid 0 0), .call (.tiocspgrp true 1), .key 3 true,
        .run]).any (fun k => k.kstack k.current = [.send 1 SIGINT, .tty 2 SIGINT]) = true := by
    decide +kernel
  obtain ⟨k, hk, top⟩ := (Option.any_eq_true _ _).1 runnable
  exact ⟨k, of_decide_eq_true top, signal_targets_runs (run_of_exec hk)⟩

/-- Without a foreground group Ctrl-C is a signal for every free entry. -/
theorem terminal_signals_free_entry : ¬∀ (tty : Terminal) (events : List Event) (k : Kernel),
    Run (partialGraph Kernel.next) (.boot tty) events k → k.SendsToLive := by
  intro claim
  have free : (exec (fun _ _ => true) Kernel.next (.boot cookedTerminal) [.key 3 true, .run]).any
      (fun k => k.kstack k.current = [.send 1 SIGINT, .tty 2 SIGINT] && !k.live 1) = true := by
    decide +kernel
  obtain ⟨k, hk, facts⟩ := (Option.any_eq_true _ _).1 free
  simp only [Bool.and_eq_true, decide_eq_true_eq, Bool.not_eq_true'] at facts
  have live := claim _ _ k ((run_of_exec hk).mono fun _ _ _ step => step.2) _ _ _ facts.1
  rw [facts.2] at live
  cases live

end Os0
