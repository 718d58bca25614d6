import Os0.Lib.Tally

/-! Counting references: finitely many slots that each point to an object or to nothing, and
how many of them point to an object. -/
namespace Refs

open Function Finset

variable {κ α : Type} [DecidableEq α] {slots : Finset κ} {f : κ → Option α} {k : κ} {a b : α}

/-- How many of the slots point to `a`. -/
def refs (slots : Finset κ) (f : κ → Option α) (a : α) : Nat :=
  Tally.count slots fun k => decide (f k = some a)

theorem refs_pos (mem : k ∈ slots) (points : f k = some a) : 0 < refs slots f a :=
  Tally.count_pos mem (decide_eq_true points)

theorem refs_eq_zero_iff : refs slots f a = 0 ↔ ∀ k ∈ slots, f k ≠ some a := by
  constructor
  · intro none k mem points
    exact absurd none (refs_pos mem points).ne'
  · intro none
    unfold refs Tally.count
    rw [card_eq_zero, filter_eq_empty_iff]
    intro k mem
    simpa using none k mem

theorem exists_of_refs_pos (pos : 0 < refs slots f a) : ∃ k ∈ slots, f k = some a := by
  by_contra none
  push Not at none
  exact pos.ne' (refs_eq_zero_iff.2 none)

variable [DecidableEq κ]

theorem refs_point (empty : f k = none) (mem : k ∈ slots) :
    refs slots (update f k (some a)) b = refs slots f b + if b = a then 1 else 0 := by
  split_ifs with same
  · rw [same]
    refine Tally.count_gain (a := k) ⟨by simp [empty], by simp, fun j ne => ?_⟩ mem
    rw [update_of_ne ne]
  · refine Tally.count_congr fun j _ => ?_
    by_cases at_k : j = k
    · rw [at_k, update_self, empty]
      simp [Ne.symm same]
    · rw [update_of_ne at_k]

theorem refs_clear (held : f k = some a) (mem : k ∈ slots) :
    refs slots (update f k none) b + (if b = a then 1 else 0) = refs slots f b := by
  have back := refs_point (f := update f k none) (a := a) (b := b)
    (update_self ..) mem
  rw [update_idem, ← held, update_eq_self] at back
  exact back.symm

/-- `n` counts the references to every object. -/
def Counted (slots : Finset κ) (f : κ → Option α) (n : α → Int) : Prop :=
  ∀ a, n a = refs slots f a

theorem Counted.point {n m : α → Int} (h : Counted slots f n) (empty : f k = none)
    (mem : k ∈ slots) (up : ∀ b, m b = n b + if b = a then 1 else 0) :
    Counted slots (update f k (some a)) m := by
  intro b
  rw [up, h b, refs_point empty mem]
  split <;> simp

theorem Counted.clear {n m : α → Int} (h : Counted slots f n) (held : f k = some a)
    (mem : k ∈ slots) (down : ∀ b, m b = n b - if b = a then 1 else 0) :
    Counted slots (update f k none) m := by
  intro b
  have back := refs_clear (b := b) held mem
  rw [down, h b, ← back]
  split <;> simp

end Refs
