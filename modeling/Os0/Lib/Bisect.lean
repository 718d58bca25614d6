import Mathlib.Logic.Basic

/-! Binary search over indices with a probe that says on which side of an index
to go on. -/
namespace Bisect

inductive Outcome
  | found (i : Nat)
  | missing (bound : Nat)
  deriving DecidableEq, Repr

/-- Halve `[lo, hi)`: `.eq` stops at the middle, `.gt` goes on below it and `.lt`
above it. `none` is a probe that fails. -/
def search (probe : Nat → Option Ordering) : Nat → Nat → Nat → Option Outcome
  | 0, _, hi => some (.missing hi)
  | fuel + 1, lo, hi =>
    if lo < hi then
      match probe ((lo + (hi - 1)) / 2) with
      | none => none
      | some .eq => some (.found ((lo + (hi - 1)) / 2))
      | some .gt => search probe fuel lo ((lo + (hi - 1)) / 2)
      | some .lt => search probe fuel ((lo + (hi - 1)) / 2 + 1) hi
    else some (.missing hi)

variable {probe : Nat → Option Ordering} {fuel lo hi i : Nat}

/-- What is found is in range and was probed equal. -/
theorem search_found (h : search probe fuel lo hi = some (.found i)) :
    lo ≤ i ∧ i < hi ∧ probe i = some .eq := by
  induction fuel generalizing lo hi with
  | zero => cases h
  | succ fuel ih =>
    unfold search at h
    split at h
    · split at h
      · cases h
      · cases h
        exact ⟨by omega, by omega, ‹_›⟩
      · have := ih h
        exact ⟨by omega, by omega, this.2.2⟩
      · have := ih h
        exact ⟨by omega, by omega, this.2.2⟩
    · cases h

/-- When the probes below some index all say `.lt` and the others `.gt`, the search
ends at that index. -/
theorem search_boundary {k : Nat} (enough : hi - lo ≤ fuel) (hlo : lo ≤ k) (hhi : k ≤ hi)
    (below : ∀ i < k, probe i = some .lt) (above : ∀ i < hi, k ≤ i → probe i = some .gt) :
    search probe fuel lo hi = some (.missing k) := by
  induction fuel generalizing lo hi with
  | zero =>
    have : k = hi := by omega
    rw [this]
    rfl
  | succ fuel ih =>
    unfold search
    split
    · by_cases side : (lo + (hi - 1)) / 2 < k
      · rw [below _ side]
        exact ih (by omega) (by omega) hhi above
      · rw [above _ (by omega) (by omega)]
        exact ih (by omega) hlo (by omega) fun i hi' => above i (by omega)
    · have : k = hi := by omega
      rw [this]

/-- More rounds than there are indices change nothing: the search has ended. -/
theorem search_stable {more : Nat} (enough : hi - lo ≤ fuel) (enough' : hi - lo ≤ more) :
    search probe fuel lo hi = search probe more lo hi := by
  induction fuel generalizing more lo hi with
  | zero =>
    cases more with
    | zero => rfl
    | succ more => rw [search, search, if_neg (by omega)]
  | succ fuel ih =>
    cases more with
    | zero => rw [search, search, if_neg (by omega)]
    | succ more =>
      unfold search
      rw [@ih lo ((lo + (hi - 1)) / 2) more, @ih ((lo + (hi - 1)) / 2 + 1) hi more]
      all_goals omega

/-- Where every probe succeeds the search does. -/
theorem search_isSome (probes : ∀ i < hi, probe i ≠ none) : search probe fuel lo hi ≠ none := by
  induction fuel generalizing lo hi with
  | zero => exact nofun
  | succ fuel ih =>
    unfold search
    split
    · split
      · exact absurd ‹_› (probes _ (by omega))
      · exact nofun
      · exact ih fun i below => probes i (by omega)
      · exact ih probes
    · exact nofun

/-- An index that is probed equal is found where the probes below it say `.lt` and
those above it `.gt`. -/
theorem search_eq_found (enough : hi - lo ≤ fuel) (hlo : lo ≤ i) (hhi : i < hi)
    (here : probe i = some .eq) (below : ∀ j < i, probe j = some .lt)
    (above : ∀ j < hi, i < j → probe j = some .gt) :
    search probe fuel lo hi = some (.found i) := by
  induction fuel generalizing lo hi with
  | zero => omega
  | succ fuel ih =>
    rw [search, if_pos (by omega)]
    rcases Nat.lt_trichotomy ((lo + (hi - 1)) / 2) i with left | middle | right
    · rw [below _ left]
      exact ih (by omega) (by omega) hhi above
    · rw [middle, here]
    · rw [above _ (by omega) right]
      exact ih (by omega) hlo right fun j hj => above j (by omega)

end Bisect
