import Mathlib.Data.List.Basic

/-! Lists cut into parts at a separator. -/
namespace Split

open List

variable {α : Type} {sep : α} {xs ys part : List α} {parts : List (List α)}

section Splits

variable [BEq α]

theorem splitOn_cons (a : α) : (a :: xs).splitOn sep =
    if a == sep then [] :: xs.splitOn sep else (xs.splitOn sep).modifyHead (a :: ·) := by
  simp [List.splitOn, splitOnP_cons_eq_if_modifyHead]

variable [LawfulBEq α]

theorem splitOn_append_sep (xs ys : List α) :
    (xs ++ sep :: ys).splitOn sep = xs.splitOn sep ++ ys.splitOn sep :=
  splitOnP_append_cons xs ys (beq_self_eq_true sep)

theorem splitOn_part (plain : sep ∉ part) : part.splitOn sep = [part] := by
  simpa using splitOn_intercalate sep (forall_mem_singleton.2 plain) (by simp)

theorem splitOn_append_part (plain : sep ∉ part) (xs : List α) :
    (xs ++ sep :: part).splitOn sep = xs.splitOn sep ++ [part] := by
  rw [splitOn_append_sep, splitOn_part plain]

theorem sep_not_mem (mem : part ∈ xs.splitOn sep) : sep ∉ part := by
  induction xs generalizing part with
  | nil =>
    simp only [splitOn_nil, mem_singleton] at mem
    simp [mem]
  | cons a xs ih =>
    rw [splitOn_cons] at mem
    split at mem
    case isTrue =>
      rcases mem_cons.1 mem with rfl | mem
      · simp
      · exact ih mem
    case isFalse ne =>
      cases eq : xs.splitOn sep with
      | nil => exact absurd eq (splitOn_ne_nil sep xs)
      | cons first =>
        rw [eq] at ih mem
        rcases mem_cons.1 mem with rfl | mem
        · have first := ih (mem_cons_self ..)
          have other : sep ≠ a := fun same => ne (by simp [same])
          simp [other, first]
        · exact ih (.tail _ mem)

end Splits

theorem intercalate_take (sep : α) (parts : List (List α)) (n : Nat) :
    [sep].intercalate (parts.take n) <+: [sep].intercalate parts := by
  induction parts generalizing n with
  | nil => simp
  | cons _ parts ih =>
    cases n with
    | zero => simp
    | succ n =>
      cases parts with
      | nil => simp
      | cons next parts =>
        cases n with
        | zero => exact ⟨sep :: [sep].intercalate (next :: parts), by simp⟩
        | succ n =>
          have rest := ih (n + 1)
          simp only [take_succ_cons, intercalate_cons_cons] at rest ⊢
          exact (prefix_append_right_inj _).2 rest

/-- A separator behind every part, but for the last. -/
theorem dropLast_flatMap (some : parts ≠ []) :
    (parts.flatMap fun part => part ++ [sep]).dropLast = [sep].intercalate parts := by
  induction parts with
  | nil => exact absurd rfl some
  | cons part parts ih =>
    cases parts with
    | nil => simp
    | cons _ parts =>
      have rest := ih (by simp)
      rw [intercalate_cons_cons, ← rest, flatMap_cons, dropLast_append_of_ne_nil]
      simp

section Tokens

variable {p : α → Bool} {a : α} {word : List α}

/-- The parts between separators that are not empty. -/
def tokens (p : α → Bool) (xs : List α) : List (List α) :=
  (xs.splitOnP p).filter fun part => part ≠ []

@[simp] theorem tokens_nil : tokens p [] = [] := by simp [tokens]

theorem tokens_cons_sep (isSep : p a) : tokens p (a :: xs) = tokens p xs := by
  simp [tokens, splitOnP_cons_eq_if_modifyHead, isSep]

theorem tokens_dropWhile (xs : List α) : tokens p (xs.dropWhile p) = tokens p xs := by
  induction xs with
  | nil => rfl
  | cons a xs ih =>
    by_cases isSep : p a
    · rw [dropWhile_cons_of_pos isSep, ih, tokens_cons_sep isSep]
    · rw [dropWhile_cons_of_neg isSep]

theorem tokens_word (plain : ∀ x ∈ word, p x = false) (some : word ≠ []) : tokens p word =
    [word] := by
  simp only [tokens, splitOnP_eq_singleton plain]
  simp [some]

theorem tokens_word_sep (plain : ∀ x ∈ word, p x = false) (some : word ≠ []) (isSep : p a) :
    tokens p (word ++ a :: xs) = word :: tokens p xs := by
  rw [tokens, splitOnP_append_cons _ _ isSep, splitOnP_eq_singleton plain]
  simp [tokens, some]

theorem nil_not_mem_tokens : [] ∉ tokens p xs := by simp [tokens]

theorem flatten_splitOnP (xs : List α) : (xs.splitOnP p).flatten = xs.filter fun x => !p x := by
  induction xs with
  | nil => simp
  | cons a xs ih =>
    rw [splitOnP_cons_eq_if_modifyHead]
    by_cases isSep : p a
    · simp [isSep, ih]
    · cases parts : xs.splitOnP p with
      | nil => exact absurd parts (splitOnP_ne_nil p xs)
      | cons =>
        rw [parts] at ih
        simp [isSep, ← ih]

/-- Nothing but separators is left out. -/
theorem flatten_tokens (xs : List α) : (tokens p xs).flatten = xs.filter fun x => !p x := by
  rw [tokens, flatten_filter_ne_nil, flatten_splitOnP]

end Tokens

end Split
