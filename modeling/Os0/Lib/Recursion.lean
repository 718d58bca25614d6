import Mathlib.Data.Fintype.Card
import Mathlib.Data.Set.Finite.Basic
import Mathlib.Logic.Relation

/-! Recursive procedures whose calls are not known to end. The body of a procedure is a tree of
calls; evaluated to a depth, it may run out. A call ends if and only if there is no unending chain
of calls within calls. -/
namespace Recursion

open Option Relation

variable {J R : Type}

/-- What a body does: it returns, or it calls and goes on with the result. -/
inductive Body (J R : Type)
  | ret (r : R)
  | call (j : J) (next : R → Body J R)

namespace Body

/-- Run a body with the answers to its calls. -/
def run (answer : J → Option R) : Body J R → Option R
  | ret r => some r
  | call j next => (answer j).bind fun r => (next r).run answer

end Body

variable (body : J → Body J R)

/-- Evaluate a call to a depth of calls within calls. -/
def eval : Nat → J → Option R
  | 0, _ => none
  | n + 1, j => (body j).run (eval n)

def Returns (j : J) (r : R) : Prop := ∃ n, eval body n j = some r

/-- A body comes to a call. -/
inductive Calls : Body J R → J → Prop
  | here (j : J) (next : R → Body J R) : Calls (.call j next) j
  | later {j j' : J} {r : R} {next : R → Body J R} :
    Returns body j r → Calls (next r) j' → Calls (.call j next) j'

variable {body} {answer answer' : J → Option R} {n m : Nat} {j : J} {r r' : R} {b : Body J R}

theorem run_mono (more : ∀ j r, answer j = some r → answer' j = some r)
    (h : b.run answer = some r) : b.run answer' = some r := by
  induction b with
  | ret => exact h
  | call j _ ih =>
    obtain ⟨r', called, rest⟩ := bind_eq_some_iff.1 h
    exact bind_eq_some_iff.2 ⟨r', more j r' called, ih r' rest⟩

theorem eval_succ (h : eval body n j = some r) : eval body (n + 1) j = some r := by
  induction n generalizing j r with
  | zero => cases h
  | succ n ih => exact run_mono (fun _ _ => ih) h

theorem eval_mono (le : n ≤ m) (h : eval body n j = some r) : eval body m j = some r := by
  induction le with
  | refl => exact h
  | step _ ih => exact eval_succ ih

theorem Returns.unique (h : Returns body j r) (h' : Returns body j r') : r = r' := by
  obtain ⟨n, h⟩ := h
  obtain ⟨m, h'⟩ := h'
  have left := eval_mono (Nat.le_max_left n m) h
  rw [eval_mono (Nat.le_max_right n m) h'] at left
  exact (some.inj left).symm

/-- The calls of a body that has been run have been answered. -/
theorem Calls.answered {j' : J} (calls : Calls body b j') (h : b.run (eval body n) = some r) :
    ∃ r', eval body n j' = some r' := by
  induction calls with
  | here j =>
    obtain ⟨r', called, -⟩ := bind_eq_some_iff.1 h
    exact ⟨r', called⟩
  | later returns _ ih =>
    obtain ⟨r', called, rest⟩ := bind_eq_some_iff.1 h
    obtain rfl := returns.unique ⟨n, called⟩
    exact ih rest

/-- A body ends if the calls that it comes to do. -/
theorem exists_run (ends : ∀ j', Calls body b j' → ∃ r, Returns body j' r) :
    ∃ n r, b.run (eval body n) = some r := by
  induction b with
  | ret r => exact ⟨0, r, rfl⟩
  | call j next ih =>
    obtain ⟨r', n, called⟩ := ends j (.here j next)
    obtain ⟨m, r, rest⟩ := ih r' fun j' calls => ends j' (.later ⟨n, called⟩ calls)
    refine ⟨max n m, r, bind_eq_some_iff.2 ⟨r', eval_mono (Nat.le_max_left n m) called, ?_⟩⟩
    exact run_mono (fun _ _ => eval_mono (Nat.le_max_right n m)) rest

/-- A call ends if and only if no chain of calls within calls goes on for ever. -/
theorem exists_returns_iff :
    (∃ r, Returns body j r) ↔ Acc (fun j' j => Calls body (body j) j') j := by
  constructor
  · rintro ⟨r, n, h⟩
    induction n generalizing j r with
    | zero => cases h
    | succ n ih =>
      refine ⟨j, fun j' calls => ?_⟩
      obtain ⟨r', called⟩ := calls.answered h
      exact ih r' called
  · intro acc
    induction acc with
    | intro j _ ih =>
      obtain ⟨n, r, h⟩ := exists_run ih
      exact ⟨r, n + 1, h⟩

/-- Among finitely many, a chain goes on for ever only if it comes back to where it was. -/
theorem acc_iff_acyclic {α : Type} {r : α → α → Prop} {a : α}
    (finite : {b | TransGen r a b}.Finite) :
    Acc (fun b a => r a b) a ↔ ∀ b, TransGen r a b → ¬TransGen r b b := by
  constructor
  · intro acc
    clear finite
    induction acc with
    | intro a _ ih =>
      intro c reached cycle
      obtain ⟨b, first, rest⟩ := TransGen.head'_iff.1 reached
      exact ih b first c (TransGen.trans_right rest cycle) cycle
  · intro acyclic
    have : Finite {b // TransGen r a b} := finite.to_subtype
    have : IsTrans {b // TransGen r a b} fun c b => TransGen r b.1 c.1 :=
      ⟨fun _ _ _ first second => second.trans first⟩
    have : Std.Irrefl fun c b : {b // TransGen r a b} => TransGen r b.1 c.1 :=
      ⟨fun b => acyclic b.1 b.2⟩
    have ends := Finite.wellFounded_of_trans_of_irrefl
      fun c b : {b // TransGen r a b} => TransGen r b.1 c.1
    have reached : ∀ b : {b // TransGen r a b}, Acc (fun b a => r a b) b.1 := by
      intro b
      induction ends.apply b with
      | intro b _ ih => exact ⟨_, fun c step => ih ⟨c, b.2.tail step⟩ (.single step)⟩
    exact ⟨_, fun b step => reached ⟨b, .single step⟩⟩

end Recursion
