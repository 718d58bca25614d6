import Mathlib.Logic.Basic

/-! Runs of a labelled step relation. A run carries its labels, so a condition
on every step of a run is a condition on the relation it runs. -/
namespace Runs

open List Option

variable {S A : Type}

/-- `Run step s as t`: the labels `as`, taken in order from `s`, end in `t`. -/
inductive Run (step : S → A → S → Prop) : S → List A → S → Prop
  | nil (s : S) : Run step s [] s
  | cons {s t u : S} {a : A} {as : List A} :
      step s a t → Run step t as u → Run step s (a :: as) u

/-- The steps of `step` whose label satisfies `ok` in the state it starts from. -/
def Guarded (ok : S → A → Prop) (step : S → A → S → Prop) : S → A → S → Prop :=
  fun s a t => ok s a ∧ step s a t

/-- The relation of a total step function. -/
def graph (f : S → A → S) : S → A → S → Prop := fun s a t => f s a = t

variable {step : S → A → S → Prop} {f : S → A → Option S} {I : S → Prop} {s t : S} {as : List A}

theorem Run.append {s t u : S} {as bs : List A} (first : Run step s as t) (rest : Run step t bs u) :
    Run step s (as ++ bs) u := by
  induction first with
  | nil s => exact rest
  | cons head _ ih => exact .cons head (ih rest)

/-- The last step of a run. -/
theorem Run.last (run : Run step s as t) :
    as = [] ∧ t = s ∨ ∃ front a u, as = front ++ [a] ∧ Run step s front u ∧ step u a t := by
  induction run with
  | nil s => exact .inl ⟨rfl, rfl⟩
  | @cons s _ _ a _ head rest ih =>
    right
    obtain ⟨rfl, rfl⟩ | ⟨front, b, u, rfl, before, last⟩ := ih
    · exact ⟨[], a, s, rfl, .nil s, head⟩
    · exact ⟨a :: front, b, u, rfl, .cons head before, last⟩

/-- Steps that are determined by their labels make runs that are. -/
theorem Run.unique (det : ∀ s a t u, step s a t → step s a u → t = u) {u : S}
    (run : Run step s as t) (other : Run step s as u) : t = u := by
  induction run with
  | nil s =>
    cases other
    rfl
  | cons head _ ih =>
    cases other with
    | cons head' rest =>
      obtain rfl := det _ _ _ _ head head'
      exact ih rest

theorem Run.mono {step other : S → A → S → Prop} (weaker : ∀ s a t, step s a t → other s a t)
    (run : Run step s as t) : Run other s as t := by
  induction run with
  | nil s => exact .nil s
  | cons head _ ih => exact .cons (weaker _ _ _ head) ih

theorem Run.invariant (preserved : ∀ s a t, I s → step s a t → I t) (run : Run step s as t)
    (start : I s) : I t := by
  induction run with
  | nil s => exact start
  | cons first _ ih => exact ih (preserved _ _ _ start first)

/-- A reflexive and transitive relation that every step from an invariant state
respects relates the two ends of every run. -/
theorem Run.related {R : S → S → Prop} (refl : ∀ s, R s s) (trans : ∀ s t u, R s t → R t u → R s u)
    (preserved : ∀ s a t, I s → step s a t → I t ∧ R s t) (run : Run step s as t) (start : I s) :
    I t ∧ R s t := by
  induction run with
  | nil s => exact ⟨start, refl s⟩
  | cons first _ ih =>
    obtain ⟨next, related⟩ := preserved _ _ _ start first
    obtain ⟨last, rest⟩ := ih next
    exact ⟨last, trans _ _ _ related rest⟩

/-- The relation of a partial step function. -/
def partialGraph (f : S → A → Option S) : S → A → S → Prop := fun s a t => f s a = some t

/-- `P` holds of every step that the labels make from `s`. -/
def Each (f : S → A → Option S) (P : S → A → S → Prop) : S → List A → Prop
  | _, [] => True
  | s, a :: as => ∀ t, f s a = some t → P s a t ∧ Each f P t as

/-- Two properties of steps that agree in every state that the second of them leads to. -/
theorem each_iff {f : S → A → Option S} {P Q : S → A → S → Prop} {I : S → Prop}
    (same : ∀ s a t, I s → f s a = some t → (P s a t ↔ Q s a t))
    (kept : ∀ s a t, I s → f s a = some t → Q s a t → I t) {s : S} (start : I s) :
    Each f P s as ↔ Each f Q s as := by
  induction as generalizing s with
  | nil => exact Iff.rfl
  | cons a as ih =>
    constructor
    case mp =>
      intro each t step
      have now := (same s a t start step).1 (each t step).1
      exact ⟨now, (ih (kept s a t start step now)).1 (each t step).2⟩
    case mpr =>
      intro each t step
      obtain ⟨now, later⟩ := each t step
      exact ⟨(same s a t start step).2 now, (ih (kept s a t start step now)).2 later⟩

/-- Run a partial step function as long as every label is allowed. -/
def exec (ok : S → A → Bool) (f : S → A → Option S) : S → List A → Option S
  | s, [] => some s
  | s, a :: as => if ok s a then (f s a).bind fun t => exec ok f t as else none

theorem run_of_exec {ok : S → A → Bool} {f : S → A → Option S} {s t : S} {as : List A}
    (h : exec ok f s as = some t) :
    Run (Guarded (fun s a => ok s a = true) (partialGraph f)) s as t := by
  induction as generalizing s with
  | nil =>
    cases h
    exact .nil t
  | cons a as ih =>
    unfold exec at h
    split at h
    · obtain ⟨u, hu, rest⟩ := bind_eq_some_iff.1 h
      exact .cons ⟨‹_›, hu⟩ (ih rest)
    · cases h

/-- A run that is allowed to its end leads to what every such run leads to. -/
theorem exec_leads {ok : S → A → Bool} {f : S → A → Option S} {P : S → Prop}
    (ends : (exec ok f s as).isSome = true)
    (leads : ∀ t, Run (Guarded (fun s a => ok s a = true) (partialGraph f)) s as t → P t) :
    ∃ t, exec ok f s as = some t ∧ P t := by
  obtain ⟨t, ht⟩ := isSome_iff_exists.1 ends
  exact ⟨t, ht, leads t (run_of_exec ht)⟩

theorem run_graph (f : S → A → S) (s : S) (as : List A) : Run (graph f) s as (as.foldl f s) := by
  induction as generalizing s with
  | nil => exact .nil s
  | cons a as ih => exact .cons rfl (ih (f s a))

/-- A loop over `0, …, n - 1` with an invariant that counts the rounds. -/
theorem foldl_range {f : S → Nat → S} {I : Nat → S → Prop} {n : Nat}
    (kept : ∀ i < n, ∀ s, I i s → I (i + 1) (f s i)) {s : S} (start : I 0 s) :
    I n ((range n).foldl f s) := by
  induction n with
  | zero => exact start
  | succ n ih =>
    rw [range_succ, foldl_append]
    exact kept n (Nat.lt_succ_self n) _ (ih fun i lt => kept i (Nat.lt_succ_of_lt lt))

/-- A partial step function that is defined on the labels from every invariant state, and keeps
the invariant, is defined on all of them in turn. -/
theorem foldlM_invariant (as : List A) (kept : ∀ a ∈ as, ∀ s, I s → ∃ t, f s a = some t ∧ I t)
    {s : S} (start : I s) : ∃ t, as.foldlM f s = some t ∧ I t := by
  induction as generalizing s with
  | nil => exact ⟨s, rfl, start⟩
  | cons a as ih =>
    obtain ⟨first, rest⟩ := forall_mem_cons.1 kept
    obtain ⟨t, step, inv⟩ := first s start
    obtain ⟨u, steps, last⟩ := ih rest inv
    refine ⟨u, ?_, last⟩
    rw [foldlM_cons, step]
    exact steps

theorem foldlM_keeps (h : as.foldlM f s = some t) (start : I s)
    (kept : ∀ a ∈ as, ∀ s t, I s → f s a = some t → I t) : I t := by
  induction as generalizing s with
  | nil =>
    cases h
    exact start
  | cons a as ih =>
    obtain ⟨first, rest⟩ := forall_mem_cons.1 kept
    rw [foldlM_cons] at h
    obtain ⟨u, step, h⟩ := bind_eq_some_iff.1 h
    exact ih h (first s u start step) rest

end Runs
