import Mathlib.Data.List.Basic

/-! Ranges of an unbounded memory as lists, and storing a list into a memory. -/
namespace Slice

open List

variable {α : Type} {m m' : Nat → α} {a b n k : Nat} {xs : List α}

/-- The `n` elements from `a` on. -/
def slice (m : Nat → α) (a n : Nat) : List α := (List.range n).map fun i => m (a + i)

/-- Overwrite the elements from `a` on. -/
def store (m : Nat → α) (a : Nat) (xs : List α) : Nat → α :=
  fun i => if a ≤ i ∧ i < a + xs.length then xs.getD (i - a) (m i) else m i

@[simp] theorem length_slice : (slice m a n).length = n := by simp [slice]

@[simp] theorem slice_zero : slice m a 0 = [] := rfl

theorem slice_congr (agree : ∀ i, a ≤ i → i < a + n → m i = m' i) : slice m a n = slice m' a n := by
  refine map_congr_left fun i hi => ?_
  have := mem_range.1 hi
  exact agree (a + i) (by omega) (by omega)

theorem slice_append : slice m a (n + k) = slice m a n ++ slice m (a + n) k := by
  simp [slice, range_add, Nat.add_assoc]

theorem slice_succ : slice m a (n + 1) = slice m a n ++ [m (a + n)] := by
  rw [slice_append]
  rfl

theorem take_slice (le : k ≤ n) : (slice m a n).take k = slice m a k := by
  simp [slice, ← map_take, take_range, Nat.min_eq_left le]

theorem drop_slice (le : k ≤ n) : (slice m a n).drop k = slice m (a + k) (n - k) := by
  obtain ⟨d, rfl⟩ := Nat.exists_eq_add_of_le le
  rw [slice_append, drop_left' length_slice, Nat.add_sub_cancel_left]

theorem slice_moved (moved : ∀ i, a ≤ i → i < a + n → m' i = m (i + k)) :
    slice m' a n = slice m (a + k) n := by
  refine map_congr_left fun i hi => ?_
  have := mem_range.1 hi
  rw [moved (a + i) (by omega) (by omega)]
  congr 1
  omega

theorem getD_slice {d : α} {i : Nat} (lt : i < n) : (slice m a n).getD i d = m (a + i) := by
  simp [slice, lt]

theorem store_slice_apply {i : Nat} :
    store m a (slice m' b n) i = if a ≤ i ∧ i < a + n then m' (b + (i - a)) else m i := by
  unfold store
  rw [length_slice]
  split
  · exact getD_slice (by omega)
  · rfl

theorem store_empty : store m a (slice m' b 0) = m := by
  funext i
  rw [store_slice_apply, if_neg (by omega)]

theorem slice_store_self : slice (store m a xs) a xs.length = xs := by
  refine ext_getElem (by simp) fun i hi _ => ?_
  have lt : i < xs.length := by simpa using hi
  simp [slice, store, lt]

theorem slice_store_off (off : b + n ≤ a ∨ a + xs.length ≤ b) :
    slice (store m a xs) b n = slice m b n := by
  refine slice_congr fun i low high => ?_
  unfold store
  rw [if_neg (by omega)]

end Slice
