import Mathlib.Data.Set.Card

/-! Trees given by parent pointers: every node has a parent, up to a root. -/
namespace ParentTree

variable {α : Type}

/-- The nodes from `p` up to the root, without the root. `none`: a parent is missing, or
there are more than `fuel` nodes. -/
def walk [DecidableEq α] (parent : α → Option α) (root : α) : Nat → α → Option (List α)
  | 0, p => if p = root then some [] else none
  | fuel + 1, p =>
    if p = root then some []
    else (parent p).bind fun q => (walk parent root fuel q).map (p :: ·)

/-- `l` lists the nodes from `p` up to the root, without the root. -/
inductive Chain (parent : α → Option α) (root : α) : α → List α → Prop
  | root : Chain parent root root []
  | step {p q : α} {l : List α} :
      p ≠ root → parent p = some q → Chain parent root q l → Chain parent root p (p :: l)

/-- `p` is the parent of `q`, or above it. -/
inductive Above (parent : α → Option α) (root : α) : α → α → Prop
  | parent {p q : α} : q ≠ root → parent q = some p → Above parent root p q
  | step {p r q : α} : q ≠ root → parent q = some r → Above parent root p r →
      Above parent root p q

variable {parent other : α → Option α} {root : α}

namespace Chain

theorem unique {p : α} {l l' : List α} (h : Chain parent root p l) (h' : Chain parent root p l') :
    l = l' := by
  induction h generalizing l' with
  | root =>
    cases h' with
    | root => rfl
    | step ne => exact absurd rfl ne
  | step ne eq _ ih =>
    cases h' with
    | root => exact absurd rfl ne
    | step _ eq' rest =>
      obtain rfl := Option.some.inj (eq.symm.trans eq')
      rw [ih rest]

variable {l : List α}

theorem of_mem {p x : α} (h : Chain parent root p l) (mem : x ∈ l) :
    ∃ l', Chain parent root x l' ∧ l'.length ≤ l.length := by
  induction h with
  | root => cases mem
  | step ne eq rest ih =>
    rcases List.mem_cons.1 mem with rfl | tail
    · exact ⟨_, .step ne eq rest, le_rfl⟩
    · obtain ⟨l', chain, le⟩ := ih tail
      exact ⟨l', chain, Nat.le_succ_of_le le⟩

theorem ne_root {p x : α} (h : Chain parent root p l) (mem : x ∈ l) : x ≠ root := by
  induction h with
  | root => cases mem
  | step ne _ _ ih =>
    rcases List.mem_cons.1 mem with rfl | tail
    · exact ne
    · exact ih tail

theorem nodup {p : α} (h : Chain parent root p l) : l.Nodup := by
  induction h with
  | root => exact List.nodup_nil
  | step ne eq rest ih =>
    refine List.nodup_cons.2 ⟨fun again => ?_, ih⟩
    obtain ⟨_, chain, le⟩ := rest.of_mem again
    rw [chain.unique (.step ne eq rest)] at le
    exact absurd le (by simp)

theorem walk [DecidableEq α] {p : α} (h : Chain parent root p l) {fuel : Nat}
    (enough : l.length ≤ fuel) : ParentTree.walk parent root fuel p = some l := by
  induction h generalizing fuel with
  | root => cases fuel <;> simp [ParentTree.walk]
  | step ne eq _ ih =>
    cases fuel with
    | zero => exact absurd enough (by simp)
    | succ fuel => simp [ParentTree.walk, ne, eq, ih (Nat.le_of_succ_le_succ enough)]

theorem mem_self {p : α} (h : Chain parent root p l) (ne : p ≠ root) : p ∈ l := by
  cases h with
  | root => exact absurd rfl ne
  | step => exact (.head _)

theorem mem_node {p x : α} (h : Chain parent root p l) (mem : x ∈ l) : (parent x).isSome := by
  induction h with
  | root => cases mem
  | step _ eq _ ih =>
    rcases List.mem_cons.1 mem with rfl | tail
    · simp [eq]
    · exact ih tail

end Chain

theorem chain_of_walk [DecidableEq α] {fuel : Nat} {p : α} {l : List α}
    (h : walk parent root fuel p = some l) : Chain parent root p l := by
  induction fuel generalizing p l with
  | zero =>
    simp only [walk] at h
    split at h
    · cases h
      subst_vars
      exact .root
    · cases h
  | succ fuel ih =>
    simp only [walk] at h
    split at h
    · cases h
      subst_vars
      exact .root
    · rename_i ne
      obtain ⟨q, eq, rest⟩ := Option.bind_eq_some_iff.1 h
      obtain ⟨_, found, rfl⟩ := Option.map_eq_some_iff.1 rest
      exact .step ne eq (ih found)

/-- Above a child of `r` are `r`, what is above `r`, and nothing else. -/
theorem above_child_iff {p q r : α} (ne : q ≠ root) (eq : parent q = some r) :
    Above parent root p q ↔ p = r ∨ Above parent root p r := by
  constructor
  · intro h
    cases h with
    | parent _ eq' => exact .inl (Option.some.inj (eq'.symm.trans eq))
    | step _ eq' rest =>
      obtain rfl := Option.some.inj (eq'.symm.trans eq)
      exact .inr rest
  · rintro (rfl | rest)
    · exact .parent ne eq
    · exact .step ne eq rest

/-- The root, and a chain that leads to it: these are the nodes at or above `r`. -/
theorem at_or_above_iff {p r : α} {l : List α} (h : Chain parent root r l) :
    (p = r ∨ Above parent root p r) ↔ p ∈ l ∨ p = root := by
  induction h with
  | root =>
    constructor
    · rintro (rfl | above)
      · exact .inr rfl
      · cases above with
        | parent ne => exact absurd rfl ne
        | step ne => exact absurd rfl ne
    · rintro (mem | rfl)
      · cases mem
      · exact .inl rfl
  | step ne eq _ ih =>
    rw [above_child_iff ne eq, ih, List.mem_cons, or_assoc]

section Leaf

variable {c : α} (agree : ∀ q, q ≠ c → other q = parent q)
  (leaf : ∀ q, q ≠ root → parent q ≠ some c)

include agree leaf

/-- A node that is nobody's parent is in no other node's chain. -/
theorem chain_congr {q : α} {l : List α} (ne : q ≠ c) (h : Chain parent root q l) :
    Chain other root q l := by
  induction h with
  | root => exact .root
  | step away eq _ ih =>
    refine .step away ((agree _ ne).trans eq) (ih ?_)
    rintro rfl
    exact leaf _ away eq

theorem above_congr {p q : α} (ne : q ≠ c) : Above other root p q ↔ Above parent root p q := by
  constructor
  · intro h
    induction h with
    | parent away eq => exact .parent away ((agree _ ne).symm.trans eq)
    | step away eq _ ih =>
      have eq' := (agree _ ne).symm.trans eq
      refine .step away eq' (ih ?_)
      rintro rfl
      exact leaf _ away eq'
  · intro h
    induction h with
    | parent away eq => exact .parent away ((agree _ ne).trans eq)
    | step away eq _ ih =>
      refine .step away ((agree _ ne).trans eq) (ih ?_)
      rintro rfl
      exact leaf _ away eq

end Leaf

theorem Above.node {p q : α} (h : Above parent root p q) : (parent q).isSome := by
  cases h with
  | parent _ eq => simp [eq]
  | step _ eq => simp [eq]

/-- Every node leads to the root, and `size` counts the nodes below each node. -/
structure Counted (parent : α → Option α) (root : α) (size : α → Nat) : Prop where
  finite : {q | (parent q).isSome}.Finite
  chains : ∀ p, (parent p).isSome → ∃ l, Chain parent root p l
  count : ∀ p, size p = {q | Above parent root p q}.ncard

section Counted

variable {small big : α → Option α} {c r : α} {l : List α} {size size' : α → Nat}

/-- What a leaf `c` under `r` adds to a tree. -/
structure Leaf (small big : α → Option α) (root c r : α) (l : List α) : Prop where
  absent : small c = none
  child : big c = some r
  agree : ∀ q, q ≠ c → big q = small q
  away : c ≠ root
  leaf : ∀ q, q ≠ root → big q ≠ some c
  chain : Chain small root r l

namespace Leaf

theorem above_iff (h : Leaf small big root c r l) {p q : α} :
    Above big root p q ↔ Above small root p q ∨ q = c ∧ (p ∈ l ∨ p = root) := by
  have agree (q : α) (ne : q ≠ c) : small q = big q := (h.agree q ne).symm
  by_cases same : q = c
  · subst same
    have ne : r ≠ q := fun eq => h.leaf q h.away (eq ▸ h.child)
    rw [above_child_iff h.away h.child, ← above_congr agree h.leaf ne, at_or_above_iff h.chain]
    constructor
    · exact fun up => .inr ⟨rfl, up⟩
    · rintro (old | ⟨-, up⟩)
      · exact absurd old.node (by simp [h.absent])
      · exact up
  · rw [← above_congr agree h.leaf same]
    simp [same]

theorem finite_iff (h : Leaf small big root c r l) :
    {q | (big q).isSome}.Finite ↔ {q | (small q).isSome}.Finite := by
  have eq : {q | (big q).isSome} = insert c {q | (small q).isSome} := by
    ext q
    by_cases same : q = c
    · simp [same, h.child]
    · simp [same, h.agree q same]
  rw [eq, Set.finite_insert]

open Classical in
theorem ncard (h : Leaf small big root c r l) (finite : {q | (small q).isSome}.Finite) (p : α) :
    {q | Above big root p q}.ncard =
      {q | Above small root p q}.ncard + if p ∈ l ∨ p = root then 1 else 0 := by
  have fresh : c ∉ {q | Above small root p q} := fun old =>
    absurd (Above.node old) (by simp [h.absent])
  split
  · rename_i up
    have eq : {q | Above big root p q} = insert c {q | Above small root p q} := by
      ext q
      simp [h.above_iff, up, or_comm]
    rw [eq, Set.ncard_insert_of_notMem fresh (finite.subset fun q old => Above.node old)]
  · rename_i up
    have eq : {q | Above big root p q} = {q | Above small root p q} := by
      ext q
      simp [h.above_iff, up]
    rw [eq, add_zero]

theorem chains_iff (h : Leaf small big root c r l) :
    (∀ p, (big p).isSome → ∃ l, Chain big root p l) ↔
      ∀ p, (small p).isSome → ∃ l, Chain small root p l := by
  have agree (q : α) (ne : q ≠ c) : small q = big q := (h.agree q ne).symm
  have leaf (q : α) (ne : q ≠ root) : small q ≠ some c := by
    by_cases same : q = c
    · simp [same, h.absent]
    · exact agree q same ▸ h.leaf q ne
  have ne : r ≠ c := fun eq => h.leaf c h.away (eq ▸ h.child)
  constructor
  · intro chains p node
    have same : p ≠ c := by
      rintro rfl
      simp [h.absent] at node
    obtain ⟨l, chain⟩ := chains p ((h.agree p same).symm ▸ node)
    exact ⟨l, chain_congr agree h.leaf same chain⟩
  · intro chains p node
    by_cases same : p = c
    · subst same
      exact ⟨_, .step h.away h.child (chain_congr h.agree leaf ne h.chain)⟩
    · obtain ⟨l, chain⟩ := chains p (h.agree p same ▸ node)
      exact ⟨l, chain_congr h.agree leaf same chain⟩

end Leaf

/-- A tree keeps its counts when the counters on the way to a new leaf go up by one. -/
theorem Counted.grow (h : Counted small root size) (leaf : Leaf small big root c r l)
    (up : ∀ p, (p ∈ l ∨ p = root) → size' p = size p + 1)
    (same : ∀ p, ¬(p ∈ l ∨ p = root) → size' p = size p) : Counted big root size' where
  finite := leaf.finite_iff.2 h.finite
  chains := leaf.chains_iff.2 h.chains
  count p := by
    classical
    rw [leaf.ncard h.finite, ← h.count]
    split
    · exact up p ‹_›
    · exact same p ‹_›

/-- A tree keeps its counts when the counters above a leaf that goes away go down by one. -/
theorem Counted.prune (h : Counted big root size) (leaf : Leaf small big root c r l)
    (down : ∀ p, (p ∈ l ∨ p = root) → size' p + 1 = size p)
    (same : ∀ p, ¬(p ∈ l ∨ p = root) → size' p = size p) : Counted small root size' where
  finite := leaf.finite_iff.1 h.finite
  chains := leaf.chains_iff.1 h.chains
  count p := by
    classical
    have count := h.count p
    rw [leaf.ncard (leaf.finite_iff.1 h.finite)] at count
    split at count
    · exact add_right_cancel ((down p ‹_›).trans count)
    · exact (same p ‹_›).trans count

end Counted

end ParentTree
