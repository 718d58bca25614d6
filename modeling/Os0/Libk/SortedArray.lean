import Mathlib.Data.List.Perm.Basic
import Mathlib.Order.Defs.Unbundled

/-! The sorted array of `libk/array.c`: elements kept in the order of a
comparison that is asked only at insertion. -/
namespace Os0

open List

/-- `sa_elems` up to `sa_size`, and `sa_max`. The comparison `sa_cmp` reads memory
that its owner changes, so each insertion is given the comparison of that moment. -/
structure SortedArray (α : Type) where
  elems : List α
  max : Nat
  deriving DecidableEq, Repr

/-- Put `item` in front of the first element that is not below it. -/
def insertBy {α : Type} (cmp : α → α → Bool) (item : α) : List α → List α
  | [] => [item]
  | elem :: rest => if cmp elem item then elem :: insertBy cmp item rest else item :: elem :: rest

namespace SortedArray

variable {α : Type}

/-- `sorted_array_place` on memory of `max` elements. -/
def place (max : Nat) : SortedArray α := ⟨[], max⟩

/-- `sorted_array_insert`. It never looks at `sa_max`: `none` is the write past
the end of a full array. -/
def insert (cmp : α → α → Bool) (array : SortedArray α) (item : α) : Option (SortedArray α) :=
  if array.elems.length < array.max then
    some { array with elems := insertBy cmp item array.elems }
  else none

/-- `sorted_array_remove`. An index past the end shifts nothing and still drops
the last element. -/
def remove (array : SortedArray α) (i : Nat) : SortedArray α :=
  if i < array.elems.length then { array with elems := array.elems.eraseIdx i }
  else { array with elems := array.elems.dropLast }

end SortedArray

variable {α : Type}

theorem insertBy_perm (cmp : α → α → Bool) (item : α) (elems : List α) :
    (insertBy cmp item elems).Perm (item :: elems) := by
  induction elems with
  | nil => exact List.Perm.refl _
  | cons elem rest ih =>
    unfold insertBy
    split
    · exact (ih.cons elem).trans (List.Perm.swap item elem rest)
    · exact List.Perm.refl _

theorem insertBy_append {cmp : α → α → Bool} {item : α} {pre : List α}
    (below : ∀ elem ∈ pre, cmp elem item = true) (post : List α) :
    insertBy cmp item (pre ++ post) = pre ++ insertBy cmp item post := by
  induction pre with
  | nil => rfl
  | cons elem pre ih =>
    obtain ⟨first, rest⟩ := forall_mem_cons.1 below
    rw [cons_append, insertBy, if_pos first, ih rest, cons_append]

theorem insertBy_map {β : Type} {cmp : α → α → Bool} {cmp' : β → β → Bool} {f : α → β}
    {item : α} {elems : List α} (same : ∀ elem ∈ elems, cmp elem item = cmp' (f elem) (f item)) :
    (insertBy cmp item elems).map f = insertBy cmp' (f item) (elems.map f) := by
  induction elems with
  | nil => rfl
  | cons elem _ ih =>
    obtain ⟨first, others⟩ := forall_mem_cons.1 same
    simp only [insertBy, map_cons, ← first]
    split
    · rw [map_cons, ih others]
    · rfl

theorem insertBy_sorted {cmp : α → α → Bool} {le : α → α → Prop} {item : α} {elems : List α}
    (trans : ∀ {x y z}, le x y → le y z → le x z) (below : ∀ {x y}, cmp x y → le x y)
    (above : ∀ {x y}, ¬cmp x y → le y x) (sorted : elems.Pairwise le) :
    (insertBy cmp item elems).Pairwise le := by
  induction elems with
  | nil => exact pairwise_singleton _ item
  | cons elem rest ih =>
    obtain ⟨first, others⟩ := pairwise_cons.1 sorted
    unfold insertBy
    split
    · rename_i less
      apply List.Pairwise.cons _ (ih others)
      intro b hb
      rcases mem_cons.1 ((insertBy_perm _ item rest).mem_iff.1 hb) with rfl | hb
      · exact below less
      · exact first b hb
    · rename_i more
      apply List.Pairwise.cons _ sorted
      intro b hb
      rcases mem_cons.1 hb with rfl | hb
      · exact above more
      · exact trans (above more) (first b hb)

namespace SortedArray

variable {α : Type}

theorem insert_of_room (cmp : α → α → Bool) {array : SortedArray α} (item : α)
    (room : array.elems.length < array.max) :
    ∃ array', array.insert cmp item = some array' ∧ array'.max = array.max ∧
      array'.elems.Perm (item :: array.elems) := by
  unfold insert
  rw [if_pos room]
  exact ⟨_, rfl, rfl, insertBy_perm cmp item array.elems⟩

theorem remove_perm [BEq α] [LawfulBEq α] {array : SortedArray α} {i : Nat} {item : α}
    (found : array.elems.idxOf? item = some i) :
    array.elems.Perm (item :: (array.remove i).elems) := by
  obtain ⟨hi, eq, -⟩ := idxOf?_eq_some_iff.1 found
  unfold remove
  rw [if_pos hi, ← eq]
  exact (getElem_cons_eraseIdx_perm hi).symm

@[simp] theorem remove_max (array : SortedArray α) (i : Nat) :
    (array.remove i).max = array.max := by
  unfold remove
  split <;> rfl

end SortedArray

/-! ## The cells -/

/-- All `sa_max` cells of `sa_elems`, and how many of them are in use. -/
structure SortedCells (α : Type) where
  elems : List α
  size : Nat
  deriving DecidableEq, Repr

namespace SortedCells

def used (a : SortedCells α) : List α := a.elems.take a.size

/-- The loop that looks for the place of an item, from `i` on with `n` elements left. -/
def seek (cmp : α → α → Bool) (item : α) (elems : List α) (i : Nat) : Nat → Option Nat
  | 0 => some i
  | n + 1 => elems[i]?.bind fun elem =>
    if cmp elem item then seek cmp item elems (i + 1) n else some i

/-- The loop that moves the elements behind `i` up by one cell. -/
def shiftUp (elems : List α) (temp : α) (i : Nat) : Nat → Option (List α)
  | 0 => some elems
  | n + 1 => elems[i + 1]?.bind fun elem => shiftUp (elems.set (i + 1) temp) elem (i + 1) n

/-- `sorted_array_insert` once the place is found. -/
def put (a : SortedCells α) (item : α) (i : Nat) : Option (SortedCells α) :=
  if i = a.size then
    if i < a.elems.length then some ⟨a.elems.set i item, a.size + 1⟩ else none
  else a.elems[i]?.bind fun temp =>
    (shiftUp (a.elems.set i item) temp i (a.size - i)).map (⟨·, a.size + 1⟩)

/-- `sorted_array_insert`, or `none` when it leaves the array. -/
def insert (cmp : α → α → Bool) (a : SortedCells α) (item : α) : Option (SortedCells α) :=
  (seek cmp item a.elems 0 a.size).bind (a.put item)

/-- The loop of `sorted_array_remove`. -/
def shiftDown (elems : List α) (i : Nat) : Nat → Option (List α)
  | 0 => some elems
  | n + 1 => elems[i + 1]?.bind fun elem => shiftDown (elems.set i elem) (i + 1) n

/-- `sorted_array_remove`. -/
def remove (a : SortedCells α) (i : Nat) : Option (SortedCells α) :=
  (shiftDown a.elems i (a.size - i)).map (⟨·, a.size - 1⟩)

variable {cmp : α → α → Bool} {item : α} (pre mid : List α) (last : α) (junk : List α)

theorem shiftUp_eq (x temp : α) :
    shiftUp (pre ++ x :: (mid ++ last :: junk)) temp pre.length (mid.length + 1) =
      some (pre ++ x :: temp :: (mid ++ junk)) := by
  induction mid generalizing pre x temp with
  | nil => simp [shiftUp]
  | cons y mid ih => simpa [shiftUp] using ih (pre ++ [x]) temp y

theorem shiftDown_eq (x : α) :
    shiftDown (pre ++ x :: (mid ++ last :: junk)) pre.length (mid.length + 1) =
      some (pre ++ (mid ++ last :: last :: junk)) := by
  induction mid generalizing pre x with
  | nil => simp [shiftDown]
  | cons y mid ih => simpa [shiftDown] using ih (pre ++ [y]) y

theorem seek_put :
    (seek cmp item (pre ++ (mid ++ last :: junk)) pre.length mid.length).bind
        (put ⟨pre ++ (mid ++ last :: junk), pre.length + mid.length⟩ item) =
      some ⟨pre ++ (insertBy cmp item mid ++ junk), pre.length + mid.length + 1⟩ := by
  induction mid generalizing pre with
  | nil => simp [seek, put, insertBy]
  | cons x mid ih =>
    have here : (pre ++ (x :: mid ++ last :: junk))[pre.length]? = some x := by simp
    rw [length_cons, seek, here, Option.bind_some]
    split
    · rename_i below
      simpa [insertBy, below, Nat.add_assoc, Nat.add_comm 1] using ih (pre ++ [x])
    · rename_i above
      simpa [put, insertBy, above] using shiftUp_eq pre mid last junk item x

/-- What is not above is transitive. -/
theorem not_trans [IsStrictWeakOrder α (cmp · · = true)] {x y z : α} (h : ¬cmp y x)
    (h' : ¬cmp z y) : ¬cmp z x := by
  intro below
  have first : ¬cmp x y := fun less => h' (trans_of (cmp · · = true) below less)
  have second : ¬cmp y z := fun less => h (trans_of (cmp · · = true) less below)
  have apart := @IsStrictWeakOrder.incomp_trans _ (cmp · · = true) _ x y z ⟨first, h⟩ ⟨second, h'⟩
  exact apart.2 below

/-- With a cell left and in the order of a strict weak order, inserting an item and removing any
element keep the order and every other element, and stay in the array. -/
theorem sorted_array_keeps [IsStrictWeakOrder α (cmp · · = true)] {a : SortedCells α}
    (room : a.size < a.elems.length) (sorted : a.used.Pairwise fun x y => ¬cmp y x) :
    (∀ item, ∃ t, a.insert cmp item = some t ∧ t.size = a.size + 1 ∧
      (t.used.Pairwise fun x y => ¬cmp y x) ∧ t.used.Perm (item :: a.used)) ∧
    ∀ i x, a.used[i]? = some x → ∃ t, a.remove i = some t ∧ t.size + 1 = a.size ∧
      (t.used.Pairwise fun x y => ¬cmp y x) ∧ a.used.Perm (x :: t.used) := by
  obtain ⟨elems, _⟩ := a
  obtain ⟨live, junk, whole, rfl, -⟩ := @exists_of_set _ _ (elems.get ⟨_, room⟩) _ room
  generalize elems[live.length] = last at whole
  subst whole
  simp only [used, take_left] at sorted ⊢
  constructor
  · intro item
    have done := @seek_put α cmp item [] live last junk
    have perm := insertBy_perm cmp item live
    have sorted := @insertBy_sorted _ cmp _ item _ not_trans (asymm_of (cmp · · = true)) id sorted
    simp only [nil_append, length_nil, Nat.zero_add, ← length_cons (a := item), ← perm.length_eq] at done
    refine ⟨_, done, perm.length_eq, ?_⟩
    rw [take_left]
    exact ⟨sorted, perm⟩
  · intro i x found
    obtain ⟨lt, rfl⟩ := List.getElem?_eq_some_iff.1 found
    obtain ⟨pre, mid, whole, rfl, -⟩ := @exists_of_set _ _ live[i] _ lt
    generalize live[pre.length] = x at whole
    subst whole
    have done := shiftDown_eq pre mid last junk x
    refine ⟨⟨pre ++ mid ++ last :: last :: junk, (pre ++ mid).length⟩, ?_, ?_, ?_⟩
    · simp [remove, done]
    · simp [Nat.add_assoc]
    rw [take_left]
    exact ⟨sorted.sublist ((sublist_cons_self x mid).append_left pre), perm_middle⟩

/-- Two numbers, a third put between them and the first taken out. -/
theorem sorted_array_keeps_two :
    (∃ t, (⟨[1, 3, 0], 2⟩ : SortedCells Nat).insert (· < ·) 2 = some t ∧ t.used.Perm [2, 1, 3]) ∧
    ∃ t, (⟨[1, 3, 0], 2⟩ : SortedCells Nat).remove 0 = some t ∧ [1, 3].Perm (1 :: t.used) := by
  have order : IsStrictWeakOrder Nat fun x y => decide (x < y) = true :=
    { irrefl := by simp
      trans := fun x y z => by simpa using Nat.lt_trans
      incomp_trans := fun x y z => by
        simp only [decide_eq_true_eq]
        omega }
  obtain ⟨insert, remove⟩ := @sorted_array_keeps Nat (· < ·) order ⟨[1, 3, 0], 2⟩ (by decide)
    (by decide)
  obtain ⟨t, done, -, -, perm⟩ := insert 2
  obtain ⟨t', done', -, -, perm'⟩ := remove 0 1 rfl
  exact ⟨⟨t, done, perm⟩, t', done', perm'⟩

end SortedCells

end Os0
