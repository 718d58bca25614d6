import Mathlib.Algebra.GroupWithZero.Nat
import Mathlib.Data.List.Basic
import Os0.Lib.Bytes

/-! Strings of bytes that end with a 0, and vectors of pointers to them, in a byte-addressed memory
with 32-bit addresses. -/
namespace CStrings

open Bytes List

variable {m m' : Mem} {p v i fuel : Nat} {xs : List UInt8} {strs : List (List UInt8)}

/-- The string at `p` is `xs`. -/
def CString (m : Mem) : Nat → List UInt8 → Prop
  | p, [] => m p = 0
  | p, x :: xs => m p = x ∧ x ≠ 0 ∧ CString m (p + 1) xs

/-- The pointers from index `i` of the vector at `v` on lead to the strings `strs`, and a null
pointer ends it. -/
def Strings (m : Mem) (v : Nat) : Nat → List (List UInt8) → Prop
  | i, [] => m.word (v + 4 * i) = 0
  | i, xs :: strs =>
    m.word (v + 4 * i) ≠ 0 ∧ m.word (v + 4 * i) + xs.length < 4294967296 ∧
      CString m (m.word (v + 4 * i)) xs ∧ Strings m v (i + 1) strs

/-- None of these words and strings has a byte in `W`. -/
def Avoids (W : Nat → Prop) (m : Mem) (v : Nat) : Nat → List (List UInt8) → Prop
  | i, [] => ∀ a, v + 4 * i ≤ a → a < v + 4 * i + 4 → ¬W a
  | i, xs :: strs =>
    (∀ a, v + 4 * i ≤ a → a < v + 4 * i + 4 → ¬W a) ∧
      (∀ a, m.word (v + 4 * i) ≤ a → a ≤ m.word (v + 4 * i) + xs.length → ¬W a) ∧
      Avoids W m v (i + 1) strs

/-- The bytes of the strings, their ends included. -/
def area (strs : List (List UInt8)) : Nat := (strs.map fun xs => xs.length + 1).sum

@[simp] theorem area_nil : area [] = 0 := rfl

@[simp] theorem area_cons (xs : List UInt8) (strs : List (List UInt8)) :
    area (xs :: strs) = xs.length + 1 + area strs := rfl

theorem CString.congr (h : CString m p xs)
    (same : ∀ a, p ≤ a → a ≤ p + xs.length → m' a = m a) : CString m' p xs := by
  induction xs generalizing p with
  | nil => exact (same p (Nat.le_refl _) (by simp)).trans h
  | cons x xs ih =>
    simp only [length_cons] at same
    refine ⟨(same p (Nat.le_refl _) (by omega)).trans h.1, h.2.1, ih h.2.2 fun a lo hi => ?_⟩
    exact same a (by omega) (by omega)

theorem CString.last (h : CString m p xs) : m (p + xs.length) = 0 := by
  induction xs generalizing p with
  | nil => exact h
  | cons x xs ih =>
    rw [length_cons, ← Nat.add_assoc, Nat.add_right_comm]
    exact ih h.2.2

theorem CString.clean (h : CString m p xs) : (0 : UInt8) ∉ xs := by
  induction xs generalizing p with
  | nil => simp
  | cons x xs ih =>
    simp only [mem_cons, not_or]
    exact ⟨h.2.1.symm, ih h.2.2⟩

theorem CString.unique {ys : List UInt8} (h : CString m p xs) (k : CString m p ys) : xs = ys := by
  induction xs generalizing p ys with
  | nil =>
    cases ys with
    | nil => rfl
    | cons y ys => exact absurd (k.1.symm.trans h) k.2.1
  | cons x xs ih =>
    cases ys with
    | nil => exact absurd (h.1.symm.trans k) h.2.1
    | cons y ys => rw [h.1.symm.trans k.1, ih h.2.2 k.2.2]

theorem Strings.unique {strs' : List (List UInt8)} (h : Strings m v i strs)
    (k : Strings m v i strs') : strs = strs' := by
  induction strs generalizing i strs' with
  | nil =>
    cases strs' with
    | nil => rfl
    | cons _ _ => exact absurd h k.1
  | cons xs strs ih =>
    cases strs' with
    | nil => exact absurd k h.1
    | cons ys strs' => rw [h.2.2.1.unique k.2.2.1, ih h.2.2.2 k.2.2.2]

theorem Strings.congr {W : Nat → Prop} (h : Strings m v i strs) (clear : Avoids W m v i strs)
    (same : ∀ a, ¬W a → m' a = m a) : Strings m' v i strs ∧ Avoids W m' v i strs := by
  induction strs generalizing i with
  | nil =>
    refine ⟨?_, clear⟩
    have word : m'.word (v + 4 * i) = m.word (v + 4 * i) :=
      Mem.word_congr fun a lo hi => same a (clear a lo hi)
    exact word.trans h
  | cons _ strs ih =>
    obtain ⟨there, ends, string, rest⟩ := h
    obtain ⟨slot, bytes, clear⟩ := clear
    have word : m'.word (v + 4 * i) = m.word (v + 4 * i) :=
      Mem.word_congr fun a lo hi => same a (slot a lo hi)
    obtain ⟨later, later'⟩ := ih rest clear
    rw [Strings, Avoids, word]
    exact ⟨⟨there, ends, string.congr fun a lo hi => same a (bytes a lo hi), later⟩,
      slot, bytes, later'⟩

theorem cString_replicate {n : Nat} {x : UInt8} (nonzero : x ≠ 0) :
    CString m p (replicate n x) ↔ (∀ k < n, m (p + k) = x) ∧ m (p + n) = 0 := by
  induction n generalizing p with
  | zero => simp [CString]
  | succ n ih =>
    rw [replicate_succ, CString, ih, Nat.forall_lt_succ_left]
    simp only [Nat.add_zero, ne_eq, nonzero, not_false_eq_true, true_and, Nat.add_assoc,
      Nat.add_comm 1, and_assoc]

/-- `strlen`; without fuel there is no end. -/
def strlen (m : Mem) : Nat → Nat → Option Nat
  | 0, _ => none
  | fuel + 1, p => if m p = 0 then some 0 else (strlen m fuel (p + 1)).map (· + 1)

theorem strlen_eq (h : CString m p xs) (enough : xs.length < fuel) :
    strlen m fuel p = some xs.length := by
  induction xs generalizing p fuel with
  | nil =>
    obtain ⟨fuel, rfl⟩ := Nat.exists_eq_add_of_lt enough
    simp [strlen, show m p = 0 from h]
  | cons x xs ih =>
    cases fuel with
    | zero => cases enough
    | succ fuel =>
      obtain ⟨byte, nonzero, rest⟩ := h
      simp only [length_cons] at enough
      simp [strlen, byte, nonzero, ih rest (by omega : xs.length < fuel)]

/-- `stpcpy`: copy a string and return where its end is. -/
def stpcpy : Nat → Mem → Nat → Nat → Option (Nat × Mem)
  | 0, _, _, _ => none
  | fuel + 1, m, dest, src =>
    let m := m.set dest (m src)
    if m dest = 0 then some (dest, m) else stpcpy fuel m (dest + 1) (src + 1)

/-- The string `xs` with its end, put at `p`. -/
def put : Mem → Nat → List UInt8 → Mem
  | m, p, [] => m.set p 0
  | m, p, x :: xs => put (m.set p x) (p + 1) xs

theorem put_of_off {a : Nat} (off : a < p ∨ p + xs.length < a) : put m p xs a = m a := by
  induction xs generalizing m p with
  | nil => exact Mem.set_of_ne _ (by simp only [length_nil] at off; omega)
  | cons x xs ih =>
    simp only [length_cons] at off
    rw [put, ih (by omega), Mem.set_of_ne _ (by omega)]

theorem cString_put (clean : (0 : UInt8) ∉ xs) : CString (put m p xs) p xs := by
  induction xs generalizing m p with
  | nil => exact Mem.set_same ..
  | cons x xs ih =>
    simp only [mem_cons, not_or] at clean
    refine ⟨?_, fun zero => clean.1 zero.symm, ih clean.2⟩
    rw [put, put_of_off (by omega), Mem.set_same]

/-- The copy ends if and only if there is a string that does not reach into its own copy from below.
A copy to a lower address, or onto the string itself, reads each byte before it is written. -/
theorem stpcpy_some_iff {dest src last : Nat} :
    stpcpy fuel m dest src = some (last, m') ↔
      ∃ xs, CString m src xs ∧ ¬(src < dest ∧ dest ≤ src + xs.length) ∧ xs.length < fuel ∧
        dest + xs.length = last ∧ put m dest xs = m' := by
  induction fuel generalizing m dest src with
  | zero => simp [stpcpy]
  | succ fuel ih =>
    simp only [stpcpy, Mem.set_same]
    constructor
    · intro copied
      split at copied
      · rename_i zero
        cases copied
        refine ⟨[], zero, by simp, by simp, rfl, ?_⟩
        rw [put, zero]
      · rename_i nonzero
        obtain ⟨xs, string, free, short, ends, done⟩ := ih.1 copied
        -- the byte that has just been written is not the end of the string
        have apart : ¬(src < dest ∧ dest ≤ src + (xs.length + 1)) := by
          rintro ⟨below, reaches⟩
          have there : dest = src + 1 + xs.length := by omega
          have last := string.last
          rw [← there, Mem.set_same] at last
          exact nonzero last
        refine ⟨m src :: xs, ⟨rfl, nonzero, string.congr fun a lo hi => ?_⟩, apart, ?_, ?_, done⟩
        · exact (Mem.set_of_ne _ (by omega)).symm
        · simp only [length_cons]
          omega
        · simp only [length_cons]
          omega
    · rintro ⟨xs, string, free, short, rfl, rfl⟩
      cases xs with
      | nil =>
        have zero : m src = 0 := string
        rw [if_pos zero, zero]
        rfl
      | cons x xs =>
        obtain ⟨rfl, nonzero, rest⟩ := string
        simp only [length_cons] at free short
        rw [if_neg nonzero, ih]
        refine ⟨xs, rest.congr fun a lo hi => ?_, by omega, by omega, ?_, rfl⟩
        · exact Mem.set_of_ne _ (by omega)
        · simp only [length_cons]
          omega

end CStrings
