import Mathlib.Data.List.Chain
import Mathlib.Data.List.Nodup

/-! Doubly linked lists over a memory of cells, in which the first cell points back to the last
one. -/
namespace Linked

open Function List Option

variable {α : Type} {next : α → Option α} {prev : α → α} {head a b : α} {xs ys : List α}

/-- The cells from `head` on are `xs`. -/
structure Queue (next : α → Option α) (prev : α → α) (head : α) (xs : List α) : Prop where
  first : xs.head? = some head
  unique : xs.Nodup
  joined : xs.IsChain fun a b => next a = some b ∧ prev b = a
  last : ∀ a ∈ xs.getLast?, next a = none ∧ prev head = a

theorem Queue.mem_head (h : Queue next prev head xs) : head ∈ xs := mem_of_head? h.first

theorem Queue.head_not_tail (h : Queue next prev head xs) (mem : b ∈ xs.tail) : b ≠ head := by
  rintro rfl
  obtain ⟨_, rfl⟩ := head?_eq_some_iff.1 h.first
  exact (nodup_cons.1 h.unique).1 mem

variable [DecidableEq α]

theorem Queue.outside (h : Queue next prev head xs) (new : b ∉ xs) (target : Option α) :
    Queue (update next b target) prev head xs where
  first := h.first
  unique := h.unique
  joined := h.joined.imp_of_mem_imp fun c d mem _ link => by
    simpa [show c ≠ b from fun same => new (same ▸ mem)] using link
  last := fun c isLast => by
    have mem := mem_of_getLast? isLast
    simpa [show c ≠ b from fun same => new (same ▸ mem)] using h.last c isLast

theorem Queue.append (h : Queue next prev head xs) (last : a ∈ xs.getLast?) (new : b ∉ xs)
    (ends : next b = none) :
    Queue (update next a (some b)) (update (update prev b a) head b) head (xs ++ [b]) := by
  have mem : a ∈ xs := mem_of_getLast? last
  have other : b ≠ a := fun same => new (same ▸ mem)
  have notHead : b ≠ head := fun same => new (same ▸ h.mem_head)
  refine ⟨by simp [h.first], ?_, isChain_append.2 ⟨?_, isChain_singleton b, ?_⟩, ?_⟩
  · exact nodup_append.2 ⟨h.unique, by simp, by grind⟩
  · refine h.joined.imp_of_mem_tail_imp fun c d mem tail link => ?_
    -- A cell that is followed by another is not the last one.
    have early : c ≠ a := fun same => by simp [same, (h.last a last).1] at link
    have old : d ≠ b := fun same => new (same ▸ mem_of_mem_tail tail)
    simpa [early, old, h.head_not_tail tail] using link
  · intro c isLast d isHead
    obtain rfl : a = c := some.inj (last.symm.trans isLast)
    obtain rfl : b = d := by simpa using isHead
    simp [notHead]
  · simp [other, ends]

theorem Queue.remove (h : Queue next prev head (xs ++ b :: a :: ys)) :
    Queue (update next b (next a)) (match next a with
        | none => update prev head b
        | some c => update prev c b) head (xs ++ b :: ys) := by
  obtain ⟨front, ⟨link, -⟩, behind⟩ := isChain_append_cons_cons.1 h.joined
  have unique := h.unique
  have first : (xs ++ b :: ys).head? = some head := by simpa using h.first
  have less : (xs ++ b :: ys).Nodup := by grind
  have tail : ∀ c ∈ (xs ++ b :: ys).tail, c ≠ head := by
    obtain ⟨_, eq⟩ := head?_eq_some_iff.1 first
    rw [eq] at less ⊢
    exact fun c mem same => (nodup_cons.1 less).1 (same ▸ mem)
  -- In front of `b` no cell points to `a`.
  have front {prev' : α → α} (same : ∀ c ∈ (xs ++ [b]).tail, prev' c = prev c) :
      (xs ++ [b]).IsChain fun c d => update next b (next a) c = some d ∧ prev' d = c := by
    refine front.imp_of_mem_tail_imp fun c d _ mem joined => ?_
    have inside := mem_of_mem_tail mem
    have other : d ≠ a := by grind
    have early : c ≠ b := by
      rintro rfl
      exact other (some.inj (joined.1.symm.trans link))
    simpa [early, same d mem] using joined
  cases ys with
  | nil =>
    have ends : next a = none := (h.last a (by simp)).1
    rw [ends] at front ⊢
    exact ⟨first, less, front fun c mem => update_of_ne (tail c mem) .., by simp⟩
  | cons c ys =>
    obtain ⟨⟨onward, -⟩, behind⟩ := isChain_cons_cons.1 behind
    have notHead : head ≠ c := (tail c (by cases xs <;> simp)).symm
    rw [onward] at front ⊢
    have front := front fun d mem => by
      have inside := mem_of_mem_tail mem
      exact update_of_ne (by grind : d ≠ c) b prev
    refine ⟨first, less, isChain_append_cons_cons.2 ⟨front, by simp, ?_⟩, ?_⟩
    · refine behind.imp_of_mem_tail_imp fun d e mem later joined => ?_
      have apart : d ≠ b := by grind
      have later : e ≠ c := by grind
      simpa [apart, later] using joined
    · intro d isLast
      have apart : d ≠ b := by grind
      simpa [apart, notHead] using h.last d (by simpa using isLast)

end Linked
