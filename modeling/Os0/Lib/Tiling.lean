import Mathlib.Data.List.Nodup

/-! Consecutive segments that tile an interval of the natural numbers. -/
namespace Tiling

open List

variable {β : Type} {start stop : β → Nat}

/-- The segments `[start b, stop b)` follow one another from `lo` to `hi`. -/
def Tiles (start stop : β → Nat) : Nat → List β → Nat → Prop
  | lo, [], hi => lo = hi
  | lo, b :: bs, hi => start b = lo ∧ Tiles start stop (stop b) bs hi

theorem tiles_append (lo hi : Nat) (xs ys : List β) :
    Tiles start stop lo (xs ++ ys) hi ↔
      ∃ mid, Tiles start stop lo xs mid ∧ Tiles start stop mid ys hi := by
  induction xs generalizing lo with
  | nil => simp [Tiles]
  | cons b _ ih => simp [Tiles, ih, and_assoc]

theorem Tiles.stop_unique {a c c' : Nat} {bs : List β} (h : Tiles start stop a bs c)
    (h' : Tiles start stop a bs c') : c = c' := by
  induction bs generalizing a with
  | nil => exact h.symm.trans h'
  | cons b bs ih => exact ih h.2 h'.2

/-- What stands before and behind a stretch of a tiling. -/
theorem Tiles.around {lo hi a c : Nat} {pre mid post : List β}
    (h : Tiles start stop lo (pre ++ mid ++ post) hi) (tiles : Tiles start stop a mid c)
    (nonempty : mid ≠ []) : Tiles start stop lo pre a ∧ Tiles start stop c post hi := by
  simp only [append_assoc, tiles_append] at h
  obtain ⟨a', hpre, _, hmid, hpost⟩ := h
  obtain ⟨b, _, rfl⟩ := exists_cons_of_ne_nil nonempty
  obtain rfl : a' = a := hmid.1.symm.trans tiles.1
  exact ⟨hpre, hmid.stop_unique tiles ▸ hpost⟩

/-- A stretch of a tiling can be exchanged for another tiling of it. -/
theorem Tiles.splice {lo hi a c : Nat} {pre old new post : List β}
    (h : Tiles start stop lo (pre ++ old ++ post) hi) (was : Tiles start stop a old c)
    (nonempty : old ≠ []) (now : Tiles start stop a new c) :
    Tiles start stop lo (pre ++ new ++ post) hi := by
  obtain ⟨hpre, hpost⟩ := h.around was nonempty
  simp only [append_assoc, tiles_append]
  exact ⟨a, hpre, c, now, hpost⟩

section Positive

variable {lo hi : Nat} {bs : List β} (positive : ∀ b, start b < stop b)
include positive

section

variable (h : Tiles start stop lo bs hi)
include h

theorem Tiles.le : lo ≤ hi := by
  induction bs generalizing lo with
  | nil => exact Nat.le_of_eq h
  | cons b bs ih =>
    have := positive b
    have := ih h.2
    have := h.1
    omega

theorem Tiles.bounds {b : β} (hb : b ∈ bs) : lo ≤ start b ∧ stop b ≤ hi := by
  induction bs generalizing lo with
  | nil => cases hb
  | cons c _ ih =>
    have := positive c
    have := h.1
    cases hb with
    | head => exact ⟨by omega, h.2.le positive⟩
    | tail _ hb =>
      have := ih h.2 hb
      omega

theorem Tiles.ordered : bs.Pairwise fun b c => stop b ≤ start c := by
  induction bs generalizing lo with
  | nil => exact .nil
  | cons b bs ih => exact .cons (fun c hc => (h.2.bounds positive hc).1) (ih h.2)

theorem Tiles.nodup : (bs.map start).Nodup := by
  refine pairwise_map.2 ((h.ordered positive).imp fun {b c} apart => ?_)
  have := positive b
  omega

/-- Two segments of a tiling that start at one place are the same. -/
theorem Tiles.eq_of_start {b c : β} (hb : b ∈ bs) (hc : c ∈ bs) (eq : start b = start c) :
    b = c := by
  have nodup := h.nodup positive
  exact inj_on_of_nodup_map nodup hb hc eq

end

theorem Tiles.apart {a c : Nat} {pre mid post : List β}
    (h : Tiles start stop lo (pre ++ mid ++ post) hi) (tiles : Tiles start stop a mid c)
    (nonempty : mid ≠ []) {b : β} (hb : b ∈ pre ++ post) : stop b ≤ a ∨ c ≤ start b := by
  obtain ⟨hpre, hpost⟩ := h.around tiles nonempty
  rcases mem_append.1 hb with hb | hb
  · exact .inl (hpre.bounds positive hb).2
  · exact .inr (hpost.bounds positive hb).1

theorem Tiles.apart_or_eq (h : Tiles start stop lo bs hi) {b c : β} (hb : b ∈ bs)
    (hc : c ∈ bs) : b = c ∨ stop b ≤ start c ∨ stop c ≤ start b := by
  obtain ⟨pre, post, rfl⟩ := append_of_mem hb
  have h : Tiles start stop lo (pre ++ [b] ++ post) hi := by simpa using h
  simp only [mem_append, mem_cons] at hc
  rcases hc with hc | rfl | hc
  · exact .inr (h.apart positive ⟨rfl, rfl⟩ (cons_ne_nil b [])
      (mem_append_left post hc)).symm
  · exact .inl rfl
  · exact .inr (h.apart positive ⟨rfl, rfl⟩ (cons_ne_nil b [])
      (mem_append_right pre hc)).symm

end Positive

end Tiling
