import Mathlib.Logic.Basic

/-! Commands over a state that may stop with an error, and a rule of pre- and
postconditions for each way of building one. A command that fails leaves a state too. -/

/-- The outcome of a command and the state it leaves. -/
def Cmd (S E α : Type) : Type := S → Except E α × S

namespace Cmd

variable {S T E α β : Type}

instance : Monad (Cmd S E) where
  pure a := fun s => (.ok a, s)
  bind c f := fun s =>
    match c s with
    | (.ok a, t) => f a t
    | (.error e, t) => (.error e, t)

def get : Cmd S E S := fun s => (.ok s, s)

def modify (f : S → S) : Cmd S E Unit := fun s => (.ok (), f s)

def fail (e : E) : Cmd S E α := fun s => (.error e, s)

/-- Run a command under a condition. -/
def when (p : Prop) [Decidable p] (c : Cmd S E Unit) : Cmd S E Unit := if p then c else pure ()

/-- Run a command on a part of the state. -/
def zoom (part : S → T) (put : S → T → S) (c : Cmd T E α) : Cmd S E α := fun s =>
  ((c (part s)).1, put s (c (part s)).2)

/-- Change the state at the end of a command, however it ends. -/
def ensuring (c : Cmd S E α) (g : S → S) : Cmd S E α := fun s => ((c s).1, g (c s).2)

/-- Change the state at the end of a command that fails. -/
def onError (c : Cmd S E α) (g : S → S) : Cmd S E α := fun s =>
  match c s with
  | (.ok a, t) => (.ok a, t)
  | (.error e, t) => (.error e, g t)

/-- From `s` the command either returns and `Q` holds of the value and the state, or it
fails and `R` holds of the error and the state. -/
def Ends (c : Cmd S E α) (s : S) (Q : α → S → Prop) (R : E → S → Prop) : Prop :=
  match c s with
  | (.ok a, t) => Q a t
  | (.error e, t) => R e t

variable {c : Cmd S E α} {f : α → Cmd S E β} {s : S}
  {Q Q' : α → S → Prop} {R R' : E → S → Prop} {P : β → S → Prop}

theorem Ends.mono (h : Ends c s Q R) (value : ∀ a t, Q a t → Q' a t)
    (error : ∀ e t, R e t → R' e t) : Ends c s Q' R' := by
  unfold Ends at h ⊢
  split at h
  · exact value _ _ h
  · exact error _ _ h

theorem Ends.imp (h : Ends c s Q R) (value : ∀ a t, Q a t → Q' a t) : Ends c s Q' R :=
  h.mono value fun _ _ r => r

theorem Ends.and (h : Ends c s Q R) (h' : Ends c s Q' R') :
    Ends c s (fun a t => Q a t ∧ Q' a t) (fun e t => R e t ∧ R' e t) := by
  unfold Ends at h h' ⊢
  split at h
  all_goals
    rename_i run
    rw [run] at h'
    exact ⟨h, h'⟩

theorem ends_pure {a : α} (h : Q a s) : Ends (pure a : Cmd S E α) s Q R := h

theorem ends_get {Q : S → S → Prop} (h : Q s s) : Ends (get : Cmd S E S) s Q R := h

variable {g : S → S} {r : Except E α} {t : S}

theorem ends_modify {Q : Unit → S → Prop} (h : Q () (g s)) :
    Ends (modify g : Cmd S E Unit) s Q R := h

theorem ends_fail {e : E} (h : R e s) : Ends (fail e : Cmd S E α) s Q R := h

theorem ends_bind (h : Ends c s (fun a t => Ends (f a) t P R) R) : Ends (c >>= f) s P R := by
  unfold Ends at h ⊢
  change match (match c s with
    | (.ok a, t) => f a t
    | (.error e, t) => (.error e, t)) with
    | (.ok a, t) => P a t
    | (.error e, t) => R e t
  split at h
  · exact h
  · exact h

theorem ends_when {p : Prop} [Decidable p] {c : Cmd S E Unit} {Q : Unit → S → Prop}
    (yes : p → Ends c s Q R) (no : ¬p → Q () s) : Ends (when p c) s Q R := by
  unfold when
  split
  · exact yes ‹_›
  · exact no ‹_›

theorem ends_zoom {part : S → T} {put : S → T → S} {c : Cmd T E α}
    (h : Ends c (part s) (fun a t => Q a (put s t)) (fun e t => R e (put s t))) :
    Ends (zoom part put c) s Q R := by
  unfold Ends at h
  unfold Ends zoom
  split at h
  all_goals
    rename_i run
    simp only [run]
    exact h

theorem ends_ensuring (h : Ends c s (fun a t => Q a (g t)) (fun e t => R e (g t))) :
    Ends (ensuring c g) s Q R := by
  unfold Ends at h
  unfold Ends ensuring
  split at h
  all_goals
    rename_i run
    simp only [run]
    exact h

theorem ends_onError (h : Ends c s Q (fun e t => R e (g t))) : Ends (onError c g) s Q R := by
  unfold Ends at h ⊢
  unfold onError
  cases run : c s with
  | mk r t =>
    rw [run] at h
    cases r with
    | ok a => exact h
    | error e => exact h

theorem ends_forM {A : Type} {as : List A} {f : A → Cmd S E Unit} {I : S → Prop}
    (step : ∀ a ∈ as, ∀ s, I s → Ends (f a) s (fun _ t => I t) R) (start : I s) :
    Ends (as.forM f) s (fun _ t => I t) R := by
  induction as generalizing s with
  | nil => exact ends_pure start
  | cons a as ih =>
    obtain ⟨first, rest⟩ := List.forall_mem_cons.1 step
    exact ends_bind ((first s start).imp fun _ t inv => ih rest inv)

/-! ## Runs -/

theorem bind_ok {a : α} (run : c s = (.ok a, t)) : (c >>= f) s = f a t := by
  change (match c s with
    | (.ok a, t) => f a t
    | (.error e, t) => (.error e, t)) = _
  rw [run]

theorem bind_error {e : E} (run : c s = (.error e, t)) : (c >>= f) s = (.error e, t) := by
  change (match c s with
    | (.ok a, t) => f a t
    | (.error e, t) => (.error e, t)) = _
  rw [run]

theorem of_bind_ok {b : β} {u : S} (run : (c >>= f) s = (.ok b, u)) :
    ∃ a t, c s = (.ok a, t) ∧ f a t = (.ok b, u) := by
  cases first : c s with
  | mk r t =>
    cases r with
    | ok a => exact ⟨a, t, rfl, (bind_ok first).symm.trans run⟩
    | error e =>
      rw [bind_error first] at run
      cases run

theorem get_bind {f : S → Cmd S E β} : (get >>= f) s = f s s := rfl

theorem modify_bind {f : Unit → Cmd S E β} : (modify g >>= f) s = f () (g s) := rfl

theorem zoom_run {part : S → T} {put : S → T → S} {c : Cmd T E α} {t : T}
    (run : c (part s) = (r, t)) : zoom part put c s = (r, put s t) := by
  unfold zoom
  rw [run]

theorem ends_run {a : α} (run : c s = (.ok a, t)) (h : Q a t) : Ends c s Q R := by
  unfold Ends
  rw [run]
  exact h

theorem Ends.with_run (h : Ends c s Q R) : Ends c s (fun a t => c s = (.ok a, t) ∧ Q a t) R := by
  unfold Ends at h ⊢
  split at h
  case h_1 run => exact ⟨run, h⟩
  case h_2 => exact h

theorem ensuring_run (run : c s = (r, t)) : ensuring c g s = (r, g t) := by
  unfold ensuring
  rw [run]

theorem onError_run {a : α} (run : c s = (.ok a, t)) : onError c g s = (.ok a, t) := by
  unfold onError
  rw [run]

theorem Ends.succeeds (h : Ends c s Q fun _ _ => False) : ∃ a t, c s = (.ok a, t) ∧ Q a t := by
  unfold Ends at h
  split at h
  case h_1 a t run => exact ⟨a, t, run, h⟩
  case h_2 => exact h.elim

theorem Ends.after {P : S → Prop} (h : Ends c s (fun _ t => P t) (fun _ t => P t)) : P (c s).2 := by
  unfold Ends at h
  split at h
  all_goals
    rename_i run
    rw [run]
    exact h

/-- What a run of a command that ends with `Q` or `R` returned. -/
theorem Ends.of_run (h : Ends c s Q R) (run : c s = (r, t)) :
    match r with
    | .ok a => Q a t
    | .error e => R e t := by
  unfold Ends at h
  rw [run] at h
  cases r with
  | ok a => exact h
  | error e => exact h

end Cmd
