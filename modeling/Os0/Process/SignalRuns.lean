import Os0.Process.Signal

/-! Signals over whole runs of one process: sends, mask changes and the steps that
handle a signal, with a record of the signals that have been sent and not handled. -/
namespace Os0

open Runs Option Bool

/-- The default action of `sig` is to do nothing. -/
def harmless (sig : Nat) : Bool :=
  !(sig == SIGKILL || terminates sig) && !(sig == SIGSTOP || stops sig)

namespace Signals

/-- Handling `sig` is to start its function, or to do nothing where that is the default. -/
def acts (p : Signals) (sig : Nat) : Bool :=
  ((p.actions sig).function != SIG_DFL && (p.actions sig).function != SIG_IGN) ||
    ((p.actions sig).function == SIG_DFL && harmless sig)

end Signals

structure SignalRun where
  p : Signals
  /-- The handlers that have been started and have not returned. -/
  handlers : Nat
  /-- Sent while neither blocked nor ignored, and not yet handled. -/
  due : SigSet
  /-- Sent while blocked, and not yet handled. -/
  held : SigSet

inductive SignalStep
  | send (sig : Nat)
  | mask (how : Int) (set : SigSet)
  /-- The scheduler switches to the process and looks for a signal. -/
  | schedule
  /-- The handler returns. -/
  | handled

namespace SignalRun

/-- Signals that were pending before the run count as sent while blocked. -/
def start (p : Signals) : SignalRun := ⟨p, 0, .empty, p.pending⟩

def step (s : SignalRun) : SignalStep → Option SignalRun
  | .send sig =>
    if NSIG ≤ sig then none
    else match s.p.receive sig with
      | (p, .returned) =>
        some { s with p, held := if s.p.isBlocked sig then s.held.add sig else s.held }
      -- the default action is taken at once; a terminated process owes nothing
      | (p, .exit) => some { s with p := p.arrive sig, due := .empty }
      | (p, .stop _) => some { s with p := p.arrive sig }
      | (p, .caught) =>
        some { s with p := p.arrive sig, due := if sig = 0 then s.due else s.due.add sig }
  | .mask how set =>
    match s.p.sysSigprocmask how set with
    | .ok p => some { s with p }
    | .error _ => some s
  | .schedule =>
    if s.p.term then none
    else
      let (p, function) := s.p.handle
      let acted := p.sig != 0 && p.acts p.sig
      some {
        p
        handlers := if p.sig != 0 && function != 0 then s.handlers + 1 else s.handlers
        due := if acted then s.due.del p.sig else s.due
        held := if acted then s.held.del p.sig else s.held }
  | .handled =>
    match s.handlers with
    | 0 => none
    | n + 1 => some { s with p := s.p.handled, handlers := n }

/-- What keeps a step from losing a signal: no signal arrives over another one that is
still to be handled, or while a handler runs; a blocked signal is one that the search
for pending signals visits; the signal to be handled has a function or nothing to do; and
a signal that has been handled does not stay in `p_sig` in front of an unblocked one, or
take a blocked one with it. -/
def calm (s : SignalRun) : SignalStep → Bool
  | .send sig =>
    if s.p.isBlocked sig then decide (SIGHUP ≤ sig ∧ sig ≤ SIGSYS)
    else if s.p.isIgnored sig || s.p.exits sig then true
    else s.handlers == 0 && (!s.due s.p.sig || s.p.sig == sig)
  | .mask _ _ => true
  | .schedule =>
    if s.p.sig = 0 then s.p.firstPending.all fun i => s.p.acts i
    else
      ((!s.due s.p.sig && !s.held s.p.sig) || s.p.acts s.p.sig) &&
        (!s.held s.p.sig || !s.p.blocked s.p.sig) &&
        (s.due s.p.sig || s.p.firstPending.isNone)
  | .handled => true

/-- The process is to handle `sig` as soon as it runs. -/
def Waiting (s : SignalRun) (sig : Nat) : Prop :=
  s.due sig = true ∨ s.held sig = true ∧ s.p.blocked sig = false

/-- Every signal that has not been handled is still on record, and the ones sent while
blocked are pending. -/
structure NothingLost (s : SignalRun) : Prop where
  due : ∀ sig, s.due sig = true → s.p.sig = sig ∨ s.p.pending sig = true
  held : ∀ sig, s.held sig = true → s.p.pending sig = true

/-- Scheduling the process handles one of the signals it waits for, if there is one, and
leaves the blocked ones pending. -/
structure HandlesOne (s t : SignalRun) : Prop where
  one : (∃ sig, s.Waiting sig) → ∃ sig, s.Waiting sig ∧ t.due sig = false ∧ t.held sig = false
  blocked : ∀ sig, s.held sig = true → s.p.blocked sig = true → t.p.pending sig = true

end SignalRun

namespace Signals

variable {p : Signals}

variable {i : Nat}

theorem firstPending_some (h : p.firstPending = some i) :
    p.blocked i = false ∧ p.pending i = true ∧ i ≠ 0 := by
  obtain ⟨found, mem⟩ := And.intro (List.find?_some h) (List.mem_of_find?_eq_some h)
  simp only [and_eq_true, not_eq_true'] at found
  have range := List.mem_range'_1.1 mem
  unfold SIGHUP at range
  exact ⟨found.1, found.2, by omega⟩

theorem firstPending_none (h : p.firstPending = none) (low : SIGHUP ≤ i)
    (high : i ≤ SIGSYS) (pending : p.pending i = true) : p.blocked i = true := by
  have all := List.find?_eq_none.1 h i (List.mem_range'_1.2 (by unfold SIGHUP SIGSYS at *; omega))
  simpa [pending] using all

theorem take_of_sig (h : p.sig ≠ 0) : p.take = p := if_neg h

theorem take_none (none : p.firstPending = none) : p.take = p := by
  unfold take
  rw [none]
  exact ite_self p

theorem take_some (free : p.sig = 0) (h : p.firstPending = some i) :
    p.take = { p with sig := i, pending := p.pending.del i } := by
  unfold take
  rw [if_pos free, h]

/-- What handling leaves, by the signal that is taken. -/
theorem handle_fields (p : Signals) :
    p.handle.1.sig = p.take.sig ∧
      ∀ i, p.handle.1.pending i = (p.take.pending i && (p.take.sig == 0 || i != p.take.sig)) := by
  unfold handle
  dsimp only
  split
  · rename_i zero
    refine ⟨rfl, fun i => ?_⟩
    simp [zero]
  · rename_i nonzero
    refine ⟨rfl, fun i => ?_⟩
    dsimp only
    rw [SigSet.del_apply, beq_eq_false_iff_ne.2 nonzero, Bool.false_or, Bool.and_comm]

theorem handle_acts (p : Signals) (sig : Nat) : p.handle.1.acts sig = p.acts sig := by
  unfold acts
  rw [p.handle_rest.2.1]

end Signals

/-- The record of a run that loses nothing. -/
structure SignalsInv (s : SignalRun) : Prop where
  due : ∀ i, s.due i = true → s.p.sig = i ∧ i ≠ 0 ∧ s.handlers = 0
  held : ∀ i, s.held i = s.p.pending i
  range : ∀ i, s.p.pending i = true → SIGHUP ≤ i ∧ i ≤ SIGSYS

open Signals

namespace SignalsInv

variable {s t : SignalRun}

section

variable (h : SignalsInv s)
include h

theorem nothingLost : s.NothingLost :=
  ⟨fun i due => .inl (h.due i due).1, fun i held => (h.held i) ▸ held⟩

theorem send {sig : Nat} (calm : s.calm (.send sig) = true)
    (step : s.step (.send sig) = some t) : SignalsInv t := by
  simp only [SignalRun.step] at step
  split at step
  · cases step
  rcases s.p.receive_cases sig with ⟨blocked, eq⟩ | ⟨unblocked, ignored, eq⟩ |
      ⟨unblocked, ignored, going, -, pending, -, same⟩
  · simp only [SignalRun.calm, blocked, if_true, decide_eq_true_eq] at calm
    simp only [eq, blocked, if_true, some.injEq] at step
    subst step
    refine ⟨h.due, fun i => ?_, fun i pending => ?_⟩
    · simp [h.held i]
    · rcases (by simpa using pending : i = sig ∨ s.p.pending i = true) with rfl | old
      · exact calm
      · exact h.range i old
  · simp only [eq, unblocked, false_eq_true, if_false, some.injEq] at step
    subst step
    exact { h with }
  · -- the signal arrives: the pending set is as before, and only `p_sig` may lose one
    have arrives {p : Signals} {e : SendEffect} (eq : s.p.receive sig = (p, e)) {due : SigSet}
        (new : ∀ i, due i = true → sig = i ∧ i ≠ 0 ∧ s.handlers = 0) :
        SignalsInv { s with p := p.arrive sig, due := due } := by
      rw [eq] at pending
      refine ⟨new, fun i => ?_, fun i mem => ?_⟩
      · rw [h.held i]
        exact (congrFun pending i).symm
      · exact h.range i ((congrFun pending i).symm.trans mem)
    have kept (alive : s.p.exits sig = false) {i : Nat} (due : s.due i = true) :
        sig = i ∧ i ≠ 0 ∧ s.handlers = 0 := by
      obtain ⟨rfl, nonzero, idle⟩ := h.due i due
      simp only [SignalRun.calm, unblocked, ignored, alive, due, Bool.false_eq_true, if_false,
        Bool.or_false, Bool.not_true, Bool.false_or, Bool.and_eq_true, beq_iff_eq] at calm
      exact ⟨calm.2.symm, nonzero, idle⟩
    have alive : (s.p.receive sig).2 ≠ .exit → s.p.exits sig = false := by
      intro other
      cases exits : s.p.exits sig with
      | false => rfl
      | true => simp [receive, unblocked, ignored, exits] at other
    cases eq : s.p.receive sig with
    | mk p e =>
      rw [eq] at step going alive
      cases e with
      | returned => exact absurd rfl going
      | exit =>
        simp only [some.injEq] at step
        subst step
        exact arrives eq nofun
      | stop =>
        simp only [some.injEq] at step
        subst step
        exact arrives eq fun i => kept (alive nofun)
      | caught =>
        simp only [some.injEq] at step
        subst step
        refine arrives eq fun i due => ?_
        have stays := alive nofun
        by_cases zero : sig = 0
        · rw [if_pos zero] at due
          exact kept stays due
        · rw [if_neg zero] at due
          rcases (by simpa using due : i = sig ∨ s.due i = true) with rfl | old
          · simp only [SignalRun.calm, unblocked, ignored, stays, Bool.false_eq_true, if_false,
              Bool.or_false, Bool.and_eq_true, beq_iff_eq] at calm
            exact ⟨rfl, zero, calm.1⟩
          · exact kept stays old

theorem mask {how : Int} {set : SigSet}
    (step : s.step (.mask how set) = some t) : SignalsInv t := by
  simp only [SignalRun.step] at step
  split at step
  · rename_i p eq
    cases step
    obtain ⟨-, rfl⟩ := sysSigprocmask_rest eq
    exact { h with }
  · cases step
    exact h

/-- Scheduling takes the signal in `p_sig` or else the first pending one; what is taken
is acted on, if it was sent at all. -/
theorem taken (calm : s.calm .schedule = true) (step : s.step .schedule = some t) :
    (t.due = s.due ∧ t.held = s.held ∧ (∀ i, t.p.pending i = s.p.pending i) ∧
      s.due s.p.sig = false ∧ s.p.firstPending = none) ∨
    (s.p.take.sig ≠ 0 ∧ t.due = s.due.del s.p.take.sig ∧ t.held = s.held.del s.p.take.sig ∧
      ∀ i, t.p.pending i = s.p.pending.del s.p.take.sig i) := by
  obtain ⟨sig, pending⟩ := s.p.handle_fields
  simp only [SignalRun.step] at step
  split at step
  · cases step
  simp only [some.injEq, handle_acts, sig] at step
  by_cases free : s.p.sig = 0
  · simp only [SignalRun.calm, free, if_true] at calm
    cases first : s.p.firstPending with
    | none =>
      have zero : s.p.take.sig = 0 := by rw [take_none first, free]
      simp only [zero, bne_self_eq_false, Bool.false_and, Bool.false_eq_true, if_false] at step
      subst step
      refine .inl ⟨rfl, rfl, fun i => ?_, ?_, rfl⟩
      · rw [pending i, take_none first]
        simp [free]
      · exact Bool.eq_false_iff.2 fun due => (h.due _ due).2.1 free
    | some i =>
      obtain ⟨-, -, nonzero⟩ := firstPending_some first
      have take : s.p.take.sig = i := by rw [take_some free first]
      have acts : s.p.acts i = true := by simpa [first] using calm
      simp only [take, bne_iff_ne.2 nonzero, acts, Bool.and_self, if_true] at step
      subst step
      refine .inr ⟨take ▸ nonzero, by rw [take], by rw [take], fun j => ?_⟩
      rw [pending j, take_some free first]
      simp only [SigSet.del_apply, beq_eq_false_iff_ne.2 nonzero, Bool.false_or]
      cases j != i <;> simp
  · have take : s.p.take = s.p := take_of_sig free
    rw [take] at step pending
    by_cases sent : s.due s.p.sig = false ∧ s.held s.p.sig = false
    · have drop {set : SigSet} (out : set s.p.sig = false) : set.del s.p.sig = set := by
        funext i
        by_cases same : i = s.p.sig
        · simp [same, out]
        · simp [same]
      rw [drop sent.1, drop sent.2] at step
      simp only [ite_self] at step
      subst step
      simp only [SignalRun.calm, if_neg free, sent.1, Bool.and_eq_true, Bool.false_or] at calm
      refine .inl ⟨rfl, rfl, fun i => ?_, sent.1, isNone_iff_eq_none.1 calm.2⟩
      have out : s.p.pending s.p.sig = false := (h.held _).symm.trans sent.2
      rw [pending i, beq_eq_false_iff_ne.2 free, Bool.false_or, Bool.and_comm]
      exact congrFun (drop out) i
    · have acts : s.p.acts s.p.sig = true := by
        simp only [SignalRun.calm, if_neg free, Bool.and_eq_true, Bool.or_eq_true,
          Bool.not_eq_true'] at calm
        exact calm.1.1.resolve_left sent
      simp only [bne_iff_ne.2 free, acts, Bool.and_self, if_true] at step
      subst step
      rw [take]
      refine .inr ⟨free, rfl, rfl, fun i => ?_⟩
      rw [pending i, beq_eq_false_iff_ne.2 free, Bool.false_or, Bool.and_comm, SigSet.del_apply]

/-- Where no signal is found, the ones that were sent while blocked still are. -/
theorem blocked_of_none (none : s.p.firstPending = none) {sig : Nat}
    (isHeld : s.held sig = true) : s.p.blocked sig = true := by
  rw [h.held] at isHeld
  obtain ⟨low, high⟩ := h.range sig isHeld
  exact firstPending_none none low high isHeld

end

/-- From pending signals a signal that is not blocked is taken. -/
theorem take_pending (free : s.p.sig = 0) (nonzero : s.p.take.sig ≠ 0) :
    s.p.blocked s.p.take.sig = false ∧ s.p.pending s.p.take.sig = true := by
  cases first : s.p.firstPending with
  | none => exact absurd (by rw [take_none first, free]) nonzero
  | some i =>
    rw [take_some free first]
    exact (firstPending_some first).imp_right And.left

theorem schedule (h : SignalsInv s) (calm : s.calm .schedule = true)
    (step : s.step .schedule = some t) : SignalsInv t ∧ s.HandlesOne t := by
  rcases h.taken calm step with ⟨due, held, pending, notDue, none⟩ | ⟨nonzero, due, held, pending⟩
  · have quiet (i : Nat) : s.due i = false := by
      refine eq_false_iff.2 fun isDue => ?_
      rw [← (h.due i isDue).1, notDue] at isDue
      cases isDue
    refine ⟨⟨fun i mem => ?_, fun i => ?_, fun i mem => h.range i (pending i ▸ mem)⟩, ?_, ?_⟩
    · rw [due, quiet i] at mem
      cases mem
    · rw [held, pending, h.held]
    · rintro ⟨sig, isDue | ⟨isHeld, unblocked⟩⟩
      · rw [quiet sig] at isDue
        cases isDue
      · rw [h.blocked_of_none none isHeld] at unblocked
        cases unblocked
    · intro sig isHeld _
      rw [pending, ← h.held, isHeld]
  · -- the signal that is taken is the only one that can be due
    have only (i : Nat) (isDue : s.due i = true) : i = s.p.take.sig := by
      obtain ⟨same, other, -⟩ := h.due i isDue
      rw [take_of_sig (same ▸ other), same]
    refine ⟨⟨fun i mem => ?_, fun i => ?_, fun i mem => ?_⟩, fun waiting => ?_, ?_⟩
    · rw [due] at mem
      obtain ⟨other, isDue⟩ : i ≠ s.p.take.sig ∧ s.due i = true := by simpa using mem
      exact absurd (only i isDue) other
    · rw [held, pending]
      simp [h.held]
    · rw [pending] at mem
      exact h.range i (by simpa using (by simpa using mem : _ ∧ s.p.pending i = true).2)
    · refine ⟨s.p.take.sig, ?_, by simp [due], by simp [held]⟩
      by_cases free : s.p.sig = 0
      · obtain ⟨unblocked, isPending⟩ := take_pending free nonzero
        exact .inr ⟨(h.held _).trans isPending, unblocked⟩
      · rw [take_of_sig free]
        obtain ⟨sig, isDue | ⟨isHeld, unblocked⟩⟩ := waiting
        · exact .inl ((h.due sig isDue).1 ▸ isDue)
        · simp only [SignalRun.calm, if_neg free, and_eq_true, or_eq_true] at calm
          rcases calm.2 with isDue | none
          · exact .inl isDue
          · rw [h.blocked_of_none (isNone_iff_eq_none.1 none) isHeld] at unblocked
            cases unblocked
    · intro sig isHeld isBlocked
      have other : sig ≠ s.p.take.sig := by
        rintro rfl
        by_cases free : s.p.sig = 0
        · rw [(take_pending free nonzero).1] at isBlocked
          cases isBlocked
        · rw [take_of_sig free] at isHeld isBlocked
          simp only [SignalRun.calm, if_neg free, isHeld, isBlocked, and_eq_true] at calm
          exact absurd calm.1.2 (by decide)
      rw [pending, ← (h.held sig).symm.trans isHeld]
      simp [other]

theorem handled (h : SignalsInv s) (step : s.step .handled = some t) : SignalsInv t := by
  simp only [SignalRun.step] at step
  split at step
  · cases step
  · rename_i running
    cases step
    refine ⟨fun i due => ?_, h.held, h.range⟩
    rw [(h.due i due).2.2] at running
    cases running

theorem step (h : SignalsInv s) {l : SignalStep} (calm : s.calm l = true)
    (step : s.step l = some t) : SignalsInv t := by
  cases l with
  | send => exact h.send calm step
  | mask => exact h.mask step
  | schedule => exact (h.schedule calm step).1
  | handled => exact h.handled step

end SignalsInv

/-- In runs whose steps are calm no signal is lost, and whenever the process is
scheduled it handles one of the signals it waits for. -/
theorem signal_runs_lose_nothing {p : Signals}
    (range : ∀ i, p.pending i = true → SIGHUP ≤ i ∧ i ≤ SIGSYS) {steps : List SignalStep}
    {s : SignalRun} (run : Run (Guarded (fun s l => s.calm l = true) (partialGraph SignalRun.step))
      (.start p) steps s) :
    s.NothingLost ∧ ∀ t, s.calm .schedule = true → s.step .schedule = some t → s.HandlesOne t := by
  have inv : SignalsInv s := by
    refine run.invariant (I := SignalsInv) ?_ ⟨nofun, fun i => rfl, range⟩
    rintro s l t h ⟨calm, step⟩
    exact h.step calm step
  exact ⟨inv.nothingLost, fun t calm step => (inv.schedule calm step).2⟩

/-- A process with functions for signals 10 and 12, and the default for all others. -/
def twoHandlers : Signals :=
  { Signals.cleared with
    actions := fun i => if i = 10 ∨ i = 12 then ⟨0x8000, 0, 0, .empty⟩ else .none }

/-- Signal 10 is sent while blocked and waits until the mask changes; then 12 is sent. -/
theorem signal_runs_lose_nothing_at : ∃ s t : SignalRun,
    s.p.sig = 12 ∧ s.held 10 = true ∧ s.NothingLost ∧
      s.step .schedule = some t ∧ s.HandlesOne t := by
  have runnable : (exec SignalRun.calm SignalRun.step (.start twoHandlers)
      [.mask SIG_BLOCK (fun i => i == 10), .send 10, .schedule, .send 12]).any (fun s =>
        s.p.sig = 12 && s.held 10 && s.calm .schedule && (s.step .schedule).isSome) = true := by
    decide +kernel
  obtain ⟨s, hs, facts⟩ := (Option.any_eq_true _ _).1 runnable
  simp only [Bool.and_eq_true, decide_eq_true_eq] at facts
  obtain ⟨⟨⟨sig, held⟩, calm⟩, next⟩ := facts
  obtain ⟨t, step⟩ := Option.isSome_iff_exists.1 next
  obtain ⟨kept, handles⟩ := signal_runs_lose_nothing (p := twoHandlers) nofun (run_of_exec hs)
  exact ⟨s, t, sig, held, kept, step, handles t calm step⟩

/-- Two signals with handlers, sent one after the other: the first is overwritten. -/
theorem second_signal_drops_first : ¬∀ (p : Signals) (steps : List SignalStep) (s : SignalRun),
    p.sig = 0 → Run (partialGraph SignalRun.step) (.start p) steps s → s.NothingLost := by
  intro claim
  have sent : (exec (fun _ _ => true) SignalRun.step (.start twoHandlers)
      [.send 10, .send 12]).any (fun s => s.due 10 && s.p.sig != 10 && !s.p.pending 10) = true := by
    decide +kernel
  obtain ⟨s, hs, facts⟩ := (Option.any_eq_true _ _).1 sent
  simp only [Bool.and_eq_true, bne_iff_ne, Bool.not_eq_true'] at facts
  have run := (run_of_exec hs).mono fun _ _ _ step => step.2
  rcases (claim twoHandlers _ s rfl run).due 10 facts.1.1 with current | pending
  · exact facts.1.2 current
  · rw [facts.2] at pending
    cases pending

end Os0
