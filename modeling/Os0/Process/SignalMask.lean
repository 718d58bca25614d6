import Os0.Process.Signal

/-! The blocked set of a process across the delivery of a signal: `process_handle_signal`, the
handler, and the return through `signal_trampoline` and `process_signal_handled`
(`kernel/process.c`, `arch/i386/task.S`). -/
namespace Os0

open Bytes Option

namespace SigSet

/-- Every signal of the one set is in the other. -/
def Within (set other : SigSet) : Prop := ∀ i, set i = true → other i = true

variable {set other third : SigSet}

theorem Within.refl (set : SigSet) : set.Within set := fun _ mem => mem

theorem Within.trans (first : set.Within other) (second : other.Within third) :
    set.Within third := fun i mem => second i (first i mem)

theorem Within.antisymm (first : set.Within other) (second : other.Within set) : set = other :=
  funext fun i => Bool.eq_iff_iff.2 ⟨first i, second i⟩

end SigSet

/-- What happens to a process from some moment on. A delivery has what happens while the handler
runs, and what happens once it has returned. Nothing here changes the mask by a system call. -/
inductive Course
  | done
  | send (sig : Nat) (rest : Course)
  | action (sig : Int) (act : SigAction) (rest : Course)
  | deliver (inner rest : Course)

namespace Signals

/-- `process_send_signal`, as far as its target is concerned. -/
def sent (p : Signals) (sig : Nat) : Signals :=
  match p.receive sig with
  | (q, .returned) => q
  | (q, _) => q.arrive sig

/-- `sys_sigaction`, with or without success. -/
def withAction (p : Signals) (sig : Int) (act : SigAction) : Signals :=
  match p.sysSigaction sig act with
  | .ok q => q
  | .error _ => p

/-- The scheduler returns to the process through the trampoline. -/
def caught (p : Signals) : Bool := p.handle.1.sig != 0 && p.handle.2 != 0

end Signals

/-- A process that has been terminated or stopped is not scheduled, and its handler does not
return. -/
def Course.run : Course → Signals → Option Signals
  | .done, p => some p
  | .send sig rest, p => rest.run (p.sent sig)
  | .action sig act rest, p => rest.run (p.withAction sig act)
  | .deliver inner rest, p =>
    if p.term then none
    else if p.caught then (inner.run p.handle.1).bind fun q => rest.run q.handled
    else rest.run p.handle.1

/-- The delivery of a signal with all that happens until its handler has returned. -/
def Signals.deliver (p : Signals) (inner : Course) : Option Signals :=
  (Course.deliver inner .done).run p

/-- `P` holds before every delivery of the course. -/
def Course.Each (P : Signals → Prop) : Course → Signals → Prop
  | .done, _ => True
  | .send sig rest, p => rest.Each P (p.sent sig)
  | .action sig act rest, p => rest.Each P (p.withAction sig act)
  | .deliver inner rest, p =>
    P p ∧ if p.caught then
        inner.Each P p.handle.1 ∧ ∀ q, inner.run p.handle.1 = some q → rest.Each P q.handled
      else rest.Each P p.handle.1

namespace Signals

variable {p q : Signals}

/-- If there is a signal to be delivered, then the mask of its action is blocked already, and so is
the signal itself unless `SA_NODEFER` is set. -/
def Quiet (p : Signals) : Prop :=
  p.take.sig ≠ 0 → (p.actions p.take.sig).mask.Within p.blocked ∧
    (hasFlag (p.actions p.take.sig).flags SA_NODEFER = true ∨ p.blocked p.take.sig = true)

variable (p : Signals)

theorem take_blocked : p.take.blocked = p.blocked := by
  unfold take
  split
  · split <;> rfl
  · rfl

theorem handle_blocked (i : Nat) :
    p.handle.1.blocked i = true ↔ p.blocked i = true ∨ p.take.sig ≠ 0 ∧
      ((p.actions p.take.sig).mask i = true ∨
        hasFlag (p.actions p.take.sig).flags SA_NODEFER = false ∧ i = p.take.sig) := by
  have actions := p.take_rest.2.1
  unfold handle
  dsimp only
  rw [actions]
  by_cases none : p.take.sig = 0
  · simp [none, take_blocked]
  · rw [if_neg none]
    cases nodefer : hasFlag (p.actions p.take.sig).flags SA_NODEFER with
    | true => simp [none, take_blocked, SigSet.union]
    | false =>
      have added : (p.take.blocked.union (p.actions p.take.sig).mask).add p.take.sig i = true ↔
          i = p.take.sig ∨ p.blocked i = true ∨ (p.actions p.take.sig).mask i = true := by
        simp [SigSet.union, take_blocked]
      simp only [Bool.false_eq_true, if_false]
      rw [added]
      grind

theorem handle_within : p.blocked.Within p.handle.1.blocked := fun i mem =>
  (p.handle_blocked i).2 (.inl mem)

/-- Nothing restores the mask, so it is the same only if nothing has been added. -/
theorem handle_quiet_iff : p.handle.1.blocked.Within p.blocked ↔ p.Quiet := by
  constructor
  case mp =>
    intro same signal
    refine ⟨fun i mem => same i ((p.handle_blocked i).2 (.inr ⟨signal, .inl mem⟩)), ?_⟩
    cases nodefer : hasFlag (p.actions p.take.sig).flags SA_NODEFER with
    | true => exact .inl rfl
    | false =>
      exact .inr (same _ ((p.handle_blocked _).2 (.inr ⟨signal, .inr ⟨nodefer, rfl⟩⟩)))
  case mpr =>
    intro quiet i mem
    rcases (p.handle_blocked i).1 mem with mem | ⟨signal, mem | ⟨nodefer, rfl⟩⟩
    · exact mem
    · exact (quiet signal).1 i mem
    · rcases (quiet signal).2 with flag | mem
      · rw [nodefer] at flag
        cases flag
      · exact mem

theorem sent_blocked (sig : Nat) : (p.sent sig).blocked = p.blocked := by
  have same : (p.receive sig).1.blocked = p.blocked := by
    rcases p.receive_cases sig with ⟨-, eq⟩ | ⟨-, -, eq⟩ | ⟨-, -, -, same, -⟩
    · rw [eq]
    · rw [eq]
    · exact same
  unfold sent
  split
  · rename_i q eq
    rwa [eq] at same
  · rename_i q _ _ eq
    rw [eq] at same
    exact same

theorem withAction_blocked (sig : Int) (act : SigAction) :
    (p.withAction sig act).blocked = p.blocked := by
  unfold withAction sysSigaction
  split
  · rename_i q eq
    split at eq
    · cases eq
    · cases eq
      rfl
  · rfl

end Signals

variable {p q : Signals} {c inner : Course}

/-- No signal is unblocked on the way. -/
theorem Course.run_within (ran : c.run p = some q) : p.blocked.Within q.blocked := by
  induction c generalizing p q with
  | done =>
    cases ran
    exact .refl _
  | send sig rest ih => exact p.sent_blocked sig ▸ ih ran
  | action sig act rest ih => exact p.withAction_blocked sig act ▸ ih ran
  | deliver _ rest ihInner ihRest =>
    rw [Course.run] at ran
    split at ran
    · cases ran
    · split at ran
      · obtain ⟨r, inside, after⟩ := bind_eq_some_iff.1 ran
        have later : r.handled.blocked.Within q.blocked := ihRest after
        exact p.handle_within.trans ((ihInner inside).trans later)
      · exact p.handle_within.trans (ihRest ran)

/-- The mask is what it was if and only if no delivery on the way has added to it. -/
theorem Course.run_blocked_iff (ran : c.run p = some q) :
    q.blocked.Within p.blocked ↔ c.Each Signals.Quiet p := by
  induction c generalizing p q with
  | done =>
    cases ran
    exact ⟨fun _ => trivial, fun _ => .refl _⟩
  | send sig rest ih => exact p.sent_blocked sig ▸ ih ran
  | action sig act rest ih => exact p.withAction_blocked sig act ▸ ih ran
  | deliver _ rest ihInner ihRest =>
    rw [Course.run] at ran
    split at ran
    · cases ran
    · split at ran
      case isTrue caught =>
        obtain ⟨r, inside, after⟩ := bind_eq_some_iff.1 ran
        have grown := run_within inside
        have later : r.handled.blocked.Within q.blocked := run_within after
        rw [Course.Each, if_pos caught, ← p.handle_quiet_iff, ← ihInner inside]
        constructor
        case mp =>
          intro same
          refine ⟨?_, ?_, ?_⟩
          · exact grown.trans (later.trans same)
          · exact later.trans (same.trans p.handle_within)
          · intro _ inside'
            cases inside.symm.trans inside'
            exact (ihRest after).1 (same.trans (p.handle_within.trans grown))
        case mpr =>
          rintro ⟨first, second, third⟩
          exact ((ihRest after).2 (third r inside)).trans (second.trans first)
      case isFalse caught =>
        have later := run_within ran
        rw [Course.Each, if_neg caught, ← p.handle_quiet_iff, ← ihRest ran]
        constructor
        case mp => exact fun same => ⟨later.trans same, same.trans p.handle_within⟩
        case mpr => exact fun ⟨first, second⟩ => second.trans first

/-- The blocked set after the handler has returned, whatever has been sent, handled and delivered
in the meantime. -/
theorem mask_restored_iff (returned : p.deliver inner = some q) :
    q.blocked = p.blocked ↔ (Course.deliver inner .done).Each Signals.Quiet p := by
  rw [← Course.run_blocked_iff returned]
  constructor
  case mp =>
    rintro same
    rw [same]
    exact .refl _
  case mpr => exact fun same => same.antisymm (Course.run_within returned)

/-- A process with a handler for `SIGINT` that is to handle this signal. -/
def interrupted (flags : Nat) : Signals :=
  { Signals.cleared with
    sig := SIGINT
    actions := fun i => if i = SIGINT then ⟨0x400000, 0, flags, .empty⟩ else .none }

/-- With `SA_NODEFER` the handler may be interrupted by the same signal. -/
theorem mask_restored_iff_nodefer : ∃ q,
    (interrupted SA_NODEFER).deliver (.send SIGINT (.deliver .done .done)) = some q ∧
    q.blocked = (interrupted SA_NODEFER).blocked := by
  have quiet : ∀ p : Signals, p.actions SIGINT = (interrupted SA_NODEFER).actions SIGINT →
      p.take.sig = SIGINT → p.Quiet := by
    intro p act signal _
    rw [signal, act]
    exact ⟨fun i mem => (nomatch mem), .inl (by decide)⟩
  cases ran : (interrupted SA_NODEFER).deliver (.send SIGINT (.deliver .done .done)) with
  | none => exact absurd (congrArg Option.isSome ran) (by decide)
  | some q =>
    refine ⟨q, rfl, (mask_restored_iff ran).2 ⟨quiet _ rfl (by decide), ?_⟩⟩
    rw [if_pos (by decide)]
    refine ⟨⟨quiet _ rfl (by decide), ?_⟩, fun _ _ => trivial⟩
    rw [if_pos (by decide)]
    exact ⟨trivial, fun _ _ => trivial⟩

/-- After the handler of `SIGINT` has run, `SIGINT` is blocked for good. -/
theorem signal_stays_blocked : (interrupted 0).blocked SIGINT = false ∧
    ((interrupted 0).deliver .done).map (fun q => (q.sig, q.blocked SIGINT)) = some (0, true) := by
  decide

end Os0
