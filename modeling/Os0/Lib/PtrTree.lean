import Mathlib.Data.List.Induction

/-! Trees of pointer blocks. A block is named by a number, `entry b i` is the pointer in
place `i` of block `b`, 0 is no block, and an array of pointers holds the roots. A path is
a root followed by the places to take on the way down. -/
namespace PtrTree

open List

section Walks

variable (entry : Nat → Nat → Nat) (roots : Nat → Nat)

/-- The block reached from `b` along a list of places. -/
def walk : Nat → List Nat → Nat
  | b, [] => b
  | b, i :: p => if b = 0 then 0 else walk (entry b i) p

/-- The block at the end of a path. -/
def reach : List Nat → Nat
  | [] => 0
  | k :: p => walk entry (roots k) p

theorem walk_zero (p : List Nat) : walk entry 0 p = 0 := by
  cases p <;> simp [walk]

theorem walk_concat (b : Nat) (p : List Nat) (i : Nat) :
    walk entry b (p ++ [i]) = if walk entry b p = 0 then 0 else entry (walk entry b p) i := by
  induction p generalizing b with
  | nil => rfl
  | cons j p ih =>
    by_cases hb : b = 0
    · simp [walk, hb]
    · simp only [cons_append, walk, if_neg hb]
      exact ih (entry b j)

theorem reach_concat {p : List Nat} (h : p ≠ []) (i : Nat) :
    reach entry roots (p ++ [i]) =
      if reach entry roots p = 0 then 0 else entry (reach entry roots p) i := by
  cases p with
  | nil => exact absurd rfl h
  | cons k p => exact walk_concat entry (roots k) p i

theorem reach_cons (k : Nat) (p : List Nat) :
    reach entry roots (k :: p) = walk entry (roots k) p := rfl

end Walks

/-- The paths of a tree with `m` roots and `fan` places in a block, where `depth k` levels
lie below root `k`. -/
def Fits (m fan : Nat) (depth : Nat → Nat) : List Nat → Prop
  | [] => False
  | k :: p => k < m ∧ p.length ≤ depth k ∧ ∀ i ∈ p, i < fan

/-- A path to a block of pointers: there is a level below it. -/
def Inner (depth : Nat → Nat) : List Nat → Prop
  | [] => False
  | k :: p => p.length < depth k

/-- A path that ends at the last level. -/
def Leaf (depth : Nat → Nat) : List Nat → Prop
  | [] => False
  | k :: p => p.length = depth k

variable {m fan : Nat} {depth : Nat → Nat}

variable {p : List Nat}

theorem Fits.of_concat {i : Nat} (h : Fits m fan depth (p ++ [i])) (hp : p ≠ []) :
    Fits m fan depth p ∧ Inner depth p ∧ i < fan := by
  cases p with
  | nil => exact absurd rfl hp
  | cons k p =>
    obtain ⟨hk, len, places⟩ := h
    have len : (p ++ [i]).length ≤ depth k := len
    rw [length_append, length_singleton] at len
    refine ⟨⟨hk, by omega, fun j hj => places j (mem_append_left _ hj)⟩, ?_, ?_⟩
    · show p.length < depth k
      omega
    · exact places i (mem_append_right _ (mem_singleton_self i))

theorem Fits.concat {i : Nat} (h : Fits m fan depth p) (inner : Inner depth p) (hi : i < fan) :
    Fits m fan depth (p ++ [i]) := by
  cases p with
  | nil => exact h.elim
  | cons k p =>
    obtain ⟨hk, _, places⟩ := h
    have room : p.length < depth k := inner
    refine ⟨hk, ?_, ?_⟩
    · show (p ++ [i]).length ≤ depth k
      rw [length_append, length_singleton]
      omega
    · intro j hj
      rcases mem_append.1 hj with hj | hj
      · exact places j hj
      · rw [mem_singleton.1 hj]
        exact hi

theorem Inner.not_leaf (h : Inner depth p) : ¬Leaf depth p := by
  cases p with
  | nil => exact h.elim
  | cons k p =>
    intro leaf
    exact absurd (leaf : p.length = depth k) (Nat.ne_of_lt h)

/-- No block is reached along two paths. -/
def Distinct (m fan : Nat) (depth : Nat → Nat) (entry : Nat → Nat → Nat) (roots : Nat → Nat) :
    Prop :=
  ∀ p q, Fits m fan depth p → Fits m fan depth q → reach entry roots p ≠ 0 →
    reach entry roots p = reach entry roots q → p = q

variable {entry entry' : Nat → Nat → Nat} {roots roots' : Nat → Nat}

/-- Two trees agree on a set of paths, closed under cutting off the end, when they agree on
its roots and on the pointers that its paths follow. -/
theorem reach_congr_on {F : List Nat → Prop} (up : ∀ p i, p ≠ [] → F (p ++ [i]) → F p)
    (start : ∀ k, F [k] → roots' k = roots k)
    (same : ∀ p i, p ≠ [] → F (p ++ [i]) → reach entry roots p ≠ 0 →
      entry' (reach entry roots p) i = entry (reach entry roots p) i)
    (fits : F p) : reach entry' roots' p = reach entry roots p := by
  induction p using List.reverseRecOn with
  | nil => rfl
  | append_singleton p i ih =>
    by_cases hp : p = []
    · subst hp
      exact start i fits
    · rw [reach_concat _ _ hp, reach_concat _ _ hp, ih (up p i hp fits)]
      split_ifs with zero
      · rfl
      · rw [same p i hp fits zero]

/-- Two trees with the same roots and the same pointers in every block of pointers reach
the same blocks. -/
theorem reach_congr (start : ∀ k, k < m → roots' k = roots k)
    (same : ∀ p i, Fits m fan depth p → Inner depth p → i < fan → reach entry roots p ≠ 0 →
      entry' (reach entry roots p) i = entry (reach entry roots p) i)
    (fits : Fits m fan depth p) : reach entry' roots' p = reach entry roots p := by
  apply reach_congr_on (F := Fits m fan depth) _ _ _ fits
  · intro p i hp h
    exact (h.of_concat hp).1
  · intro k h
    exact start k h.1
  · intro p i hp h zero
    obtain ⟨fp, inner, hi⟩ := h.of_concat hp
    exact same p i fp inner hi zero

theorem reach_graft {g : List Nat} {new : Nat} (free : reach entry roots g = 0)
    (above : ∀ p i, p ≠ [] → p ++ [i] = g → reach entry roots p ≠ 0)
    (start : ∀ j, j < m → roots' j = if [j] = g then new else roots j)
    (empty : ∀ j, j < fan → entry' new j = 0)
    (same : ∀ q j, Fits m fan depth q → j < fan → reach entry roots q ≠ 0 →
      entry' (reach entry roots q) j = if q ++ [j] = g then new else entry (reach entry roots q) j)
    {q : List Nat} (fits : Fits m fan depth q) :
    reach entry' roots' q = if q = g then new else reach entry roots q := by
  induction q using List.reverseRecOn with
  | nil => exact fits.elim
  | append_singleton q j ih =>
    by_cases hq : q = []
    · subst hq
      exact start j fits.1
    · obtain ⟨fq, -, hj⟩ := fits.of_concat hq
      rw [reach_concat _ _ hq, reach_concat _ _ hq, ih fq]
      by_cases below : q = g
      · -- `q` leads to the new block, which is empty, and led nowhere before.
        have off : q ++ [j] ≠ g := by simp [← below]
        have was : reach entry roots q = 0 := below ▸ free
        rw [if_pos below, if_neg off, if_pos was]
        split
        · rfl
        · exact empty j hj
      · rw [if_neg below]
        by_cases zero : reach entry roots q = 0
        · rw [if_pos zero, if_pos zero, if_neg (fun eq => above q j hq eq zero)]
        · rw [if_neg zero, if_neg zero, same q j fq hj zero]

end PtrTree
