import Mathlib.Algebra.Order.BigOperators.Group.Finset
import Mathlib.Order.Interval.Finset.Nat

/-! Counters for the elements of finite classes that have a property, while the property
changes at one element at a time. -/
namespace Tally

open Finset

variable {α ι : Type} {s : Finset α} {p q : α → Bool} {a : α}

/-- How many elements of `s` have the property `p`. -/
def count (s : Finset α) (p : α → Bool) : Nat := (s.filter fun a => p a = true).card

theorem count_congr (agree : ∀ b ∈ s, q b = p b) : count s q = count s p :=
  congrArg Finset.card (filter_congr fun b mem => by rw [agree b mem])

theorem count_le : count s p ≤ s.card := card_filter_le _ _

theorem count_pos (mem : a ∈ s) (has : p a = true) : 0 < count s p :=
  card_pos.2 ⟨a, mem_filter.2 ⟨mem, has⟩⟩

theorem count_lt (mem : a ∈ s) (lacks : p a = false) : count s p < s.card := by
  refine card_lt_card (filter_ssubset.2 ⟨a, mem, ?_⟩)
  simp [lacks]

/-- `q` is `p`, but for an element that has it in addition. -/
structure Gains (p q : α → Bool) (a : α) : Prop where
  lacks : p a = false
  has : q a = true
  agree : ∀ b, b ≠ a → q b = p b

theorem count_gain [DecidableEq α] (h : Gains p q a) (mem : a ∈ s) : count s q = count s p + 1 := by
  have eq : (s.filter fun b => q b = true) = insert a (s.filter fun b => p b = true) := by
    ext b
    by_cases same : b = a
    · simp [same, h.has, mem]
    · simp [same, h.agree b same]
  rw [count, eq, card_insert_of_notMem (by simp [h.lacks])]
  rfl

section Classes

variable [DecidableEq ι] {classes : ι → Finset α} {groups : Finset ι}
  {n m : ι → Nat} {i : ι}

/-- Every counter is the number of elements of its class with the property. -/
def Counted (classes : ι → Finset α) (groups : Finset ι) (p : α → Bool) (n : ι → Nat) : Prop :=
  ∀ i ∈ groups, n i = count (classes i) p

/-- Only the counter of the one class that the element is in changes. -/
theorem Counted.change (h : Counted classes groups p n) (agree : ∀ b, b ≠ a → q b = p b)
    (alone : ∀ j, a ∈ classes j → j = i) (here : m i = count (classes i) q)
    (off : ∀ j, j ≠ i → m j = n j) : Counted classes groups q m := by
  intro j member
  by_cases same : j = i
  · rw [same, here]
  · rw [off j same, h j member]
    refine (count_congr fun b mem => agree b ?_).symm
    rintro rfl
    exact same (alone j mem)

/-- The counters of the classes of a function sum up to the number of elements with the
property. -/
theorem Counted.sum {f : α → ι} (h : Counted (fun i => s.filter fun b => f b = i) groups p n)
    (range : ∀ b ∈ s, f b ∈ groups) : ∑ i ∈ groups, n i = count s p := by
  rw [count, card_eq_sum_card_fiberwise (f := f) (t := groups)]
  · refine sum_congr rfl fun i member => ?_
    rw [h i member, count, filter_filter, filter_filter]
    congr 1
    ext b
    simp only [mem_filter]
    tauto
  · intro b mem
    exact range b (mem_filter.1 mem).1

end Classes

/-- A class of elements that follow each other in steps of `size` has no more of them. -/
theorem card_filter_div_le {s : Finset Nat} {f : Nat → Nat} {first size : Nat} (pos : 0 < size)
    (low : ∀ b ∈ s, first ≤ b) (div : ∀ b ∈ s, f b = (b - first) / size) (i : Nat) :
    (s.filter fun b => f b = i).card ≤ size := by
  have sub : (s.filter fun b => f b = i) ⊆
      Finset.Ico (first + i * size) (first + i * size + size) := by
    intro b mem
    obtain ⟨mem, is⟩ := mem_filter.1 mem
    have low := low b mem
    have lower := Nat.div_mul_le_self (b - first) size
    have upper := Nat.lt_div_mul_add (a := b - first) pos
    rw [← div b mem, is] at lower upper
    rw [mem_Ico]
    omega
  have := card_le_card sub
  rwa [Nat.card_Ico, Nat.add_sub_cancel_left] at this

end Tally
