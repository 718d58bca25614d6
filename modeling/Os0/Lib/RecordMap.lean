import Mathlib.Data.List.Nodup

/-! A finite map kept in a row of records. A record has a length and may be unused. -/
namespace RecordMap

open List Option

variable {K V : Type}

/-- A record: its length, and its entry if it is in use. -/
structure Record (K V : Type) where
  len : Nat
  entry : Option (K × V)

/-- The entries of a row of records. -/
def entries (rs : List (Record K V)) : List (K × V) := rs.filterMap Record.entry

@[simp] theorem entries_nil : entries ([] : List (Record K V)) = [] := rfl

@[simp] theorem entries_used (len : Nat) (e : K × V) (rs : List (Record K V)) :
    entries (⟨len, some e⟩ :: rs) = e :: entries rs := rfl

@[simp] theorem entries_unused (len : Nat) (rs : List (Record K V)) :
    entries (⟨len, none⟩ :: rs) = entries rs := rfl

/-! ## The map -/

section Find

variable [DecidableEq K]

/-- The value of the first entry with a key. -/
def find (k : K) : List (K × V) → Option V
  | [] => none
  | e :: es => if e.1 = k then some e.2 else find k es

@[simp] theorem find_nil (k : K) : find k ([] : List (K × V)) = none := rfl

theorem find_append (k : K) (es fs : List (K × V)) :
    find k (es ++ fs) = (find k es).or (find k fs) := by
  induction es with
  | nil => rfl
  | cons e es ih =>
    simp only [cons_append, find]
    split
    · rfl
    · exact ih

theorem mem_of_find {k : K} {v : V} {es : List (K × V)} (found : find k es = some v) :
    (k, v) ∈ es := by
  induction es with
  | nil => cases found
  | cons e es ih =>
    rw [find] at found
    split at found
    · rename_i same
      cases found
      rw [← same]
      exact mem_cons_self
    · exact mem_cons_of_mem e (ih found)

/-- The record is in use for the key. -/
def Record.has (r : Record K V) (k : K) : Bool := r.entry.any fun e => e.1 = k

theorem Record.has_iff {r : Record K V} {k : K} : r.has k = true ↔ ∃ v, r.entry = some (k, v) := by
  obtain ⟨-, entry⟩ := r
  cases entry with
  | none => simp [has]
  | some e =>
    obtain ⟨-, v⟩ := e
    simp [has]

theorem find_entries_cons (k : K) (r : Record K V) (rest : List (Record K V)) :
    find k (entries (r :: rest)) =
      if r.has k then r.entry.map Prod.snd else find k (entries rest) := by
  obtain ⟨-, entry⟩ := r
  cases entry with
  | none => simp [Record.has]
  | some e => simp [Record.has, find]

end Find

end RecordMap
