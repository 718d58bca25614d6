import Mathlib.Data.List.Induction
import Mathlib.Data.Nat.Digits.Defs

/-! Numerals (`libk/itoa.c`): the digits are written from the last one on and reversed in place. -/
namespace Os0

open List

def lowerDigits : List Char :=
  "zyxwvutsrqponmlkjihgfedcba9876543210123456789abcdefghijklmnopqrstuvwxyz".toList

def upperDigits : List Char :=
  "ZYXWVUTSRQPONMLKJIHGFEDCBA9876543210123456789ABCDEFGHIJKLMNOPQRSTUVWXYZ".toList

/-- The loop that writes the digits, and the last value of `temp`. From a value in the range of its
type no operation leaves that range. -/
def writeDigits (digits : List Char) (base : Int) (wide : 1 < base) (temp : Int) :
    List Char × Int :=
  let value := temp.tdiv base
  let c := digits.getD (35 + (temp - value * base)).toNat '\x00'
  if _more : value ≠ 0 then
    let rest := writeDigits digits base wide value
    (c :: rest.1, rest.2)
  else ([c], temp)
termination_by temp.natAbs
decreasing_by
  rw [Int.natAbs_tdiv]
  refine Nat.div_lt_self (Int.natAbs_pos.2 ?_) (by omega)
  rintro rfl
  exact _more (Int.zero_tdiv base)

/-- The loop that swaps the characters from both ends. -/
def swapEnds (text : List Char) (rev ptr : Nat) : List Char :=
  if rev < ptr then
    let c := text.getD ptr '\x00'
    swapEnds ((text.set ptr (text.getD rev '\x00')).set rev c) (rev + 1) (ptr - 1)
  else text
termination_by ptr - rev

/-- `_itoa`: what is in `result` at the end. -/
def itoaWith (digits : List Char) (value base : Int) : List Char :=
  if valid : 2 ≤ base ∧ base ≤ 36 then
    let (text, temp) := writeDigits digits base (by omega) value
    let text := if temp < 0 then text ++ ['-'] else text
    swapEnds (text ++ ['\x00']) 0 (text.length - 1)
  else ['\x00']

/-- `_utoa`, which does not use the table that it is given. -/
def utoaWith (_digits : List Char) (value : Nat) (base : Int) : List Char :=
  if valid : 2 ≤ base ∧ base ≤ 36 then
    let text := (writeDigits lowerDigits base (by omega) value).1
    swapEnds (text ++ ['\x00']) 0 (text.length - 1)
  else ['\x00']

def itoa : Int → Int → List Char := itoaWith lowerDigits
def itoaU : Int → Int → List Char := itoaWith upperDigits
def utoa : Nat → Int → List Char := utoaWith lowerDigits
def utoaU : Nat → Int → List Char := utoaWith upperDigits

/-! ## The numeral -/

/-- The digits of a number, from the last one on. Zero has one. -/
def numeralDigits (base n : Nat) : List Nat := if n = 0 then [0] else base.digits n

def digitChar (upper : Bool) (d : Nat) : Char :=
  Char.ofNat (if d < 10 then 48 + d else if upper then 55 + d else 87 + d)

def digitValue (c : Char) : Nat :=
  if c.isDigit then c.toNat - 48 else if c.isUpper then c.toNat - 55 else c.toNat - 87

/-- The canonical numeral of a value. -/
def canonical (upper : Bool) (base : Nat) (value : Int) : List Char :=
  (if value < 0 then ['-'] else []) ++
    (numeralDigits base value.natAbs).reverse.map (digitChar upper)

/-- The value of a numeral with an optional sign. -/
def parse (base : Nat) : List Char → Int
  | '-' :: text => -(text.foldl (fun n c => n * base + digitValue c) 0 : Nat)
  | text => (text.foldl (fun n c => n * base + digitValue c) 0 : Nat)

variable {base n : Nat}

theorem numeralDigits_lt (wide : 1 < base) {d : Nat} (hd : d ∈ numeralDigits base n) : d < base := by
  unfold numeralDigits at hd
  split at hd
  · rw [mem_singleton.1 hd]
    omega
  · exact Nat.digits_lt_base wide hd

theorem numeralDigits_eq (wide : 1 < base) : numeralDigits base n =
    n % base :: if n / base = 0 then [] else numeralDigits base (n / base) := by
  by_cases zero : n = 0
  · simp [numeralDigits, zero]
  · rw [numeralDigits, if_neg zero, Nat.digits_def' wide (by omega)]
    congr 1
    split
    · rename_i last
      rw [last, Nat.digits_zero]
    · rename_i more
      rw [numeralDigits, if_neg more]

def digitTable (upper : Bool) : List Char := if upper then upperDigits else lowerDigits

/-- The tables have each digit on both sides. -/
theorem digitTable_getD : ∀ upper, ∀ d < 36,
    (digitTable upper).getD (35 + d) '\x00' = digitChar upper d ∧
    (digitTable upper).getD (35 - d) '\x00' = digitChar upper d := by
  decide

theorem writeDigits_eq (upper : Bool) (high : base ≤ 36) (wide : 1 < (base : Int)) (value : Int) :
    (writeDigits (digitTable upper) base wide value).1 =
      (numeralDigits base value.natAbs).map (digitChar upper) ∧
    ((writeDigits (digitTable upper) base wide value).2 < 0 ↔ value < 0) := by
  have wide' : 1 < base := by omega
  have digit (temp : Int) : (digitTable upper).getD (35 + (temp - temp.tdiv base * base)).toNat
      '\x00' = digitChar upper (temp.natAbs % base) := by
    have lt : temp.natAbs % base < 36 := (Nat.mod_lt _ (by omega)).trans_le high
    have abs : (temp - temp.tdiv base * base).natAbs = temp.natAbs % base := by
      rw [Int.mul_comm, ← Int.tmod_def, Int.natAbs_tmod, Int.natAbs_natCast]
    obtain ⟨up, down⟩ := digitTable_getD upper _ lt
    have index : (35 + (temp - temp.tdiv base * base)).toNat = 35 + temp.natAbs % base ∨
        (35 + (temp - temp.tdiv base * base)).toNat = 35 - temp.natAbs % base := by omega
    rcases index with eq | eq
    · rw [eq, up]
    · rw [eq, down]
  have quotient (temp : Int) : (temp.tdiv base).natAbs = temp.natAbs / base := by
    rw [Int.natAbs_tdiv, Int.natAbs_natCast]
    rfl
  fun_induction writeDigits (digitTable upper) base wide value with
  | case1 temp value c more rest ih =>
    obtain ⟨text, sign⟩ := ih
    have left : temp.natAbs / base ≠ 0 := by
      rw [← quotient]
      exact Int.natAbs_ne_zero.2 more
    rw [numeralDigits_eq wide', if_neg left, map_cons, ← quotient]
    refine ⟨congrArg₂ cons (digit temp) text, sign.trans ?_⟩
    have down : 0 ≤ temp → 0 ≤ temp.tdiv base := fun pos => Int.tdiv_nonneg pos (by omega)
    have up : 0 ≤ -temp → 0 ≤ -temp.tdiv base := fun neg => by
      rw [← Int.neg_tdiv]
      exact Int.tdiv_nonneg neg (by omega)
    omega
  | case2 temp value c last =>
    have none : temp.natAbs / base = 0 := by
      rw [← quotient]
      exact Int.natAbs_eq_zero.2 (not_not.1 last)
    rw [numeralDigits_eq wide', if_pos none]
    exact ⟨congrArg (fun c => [c]) (digit temp), Iff.rfl⟩

theorem swapEnds_eq (pre mid post : List Char) :
    swapEnds (pre ++ (mid ++ post)) pre.length (pre.length + mid.length - 1) =
      pre ++ (mid.reverse ++ post) := by
  induction mid using List.bidirectionalRec generalizing pre post with
  | nil =>
    rw [swapEnds, if_neg (by simp)]
    rfl
  | singleton a =>
    rw [swapEnds, if_neg (by simp)]
    rfl
  | cons_append a mid b ih =>
    have text : pre ++ (a :: (mid ++ [b]) ++ post) = pre ++ a :: mid ++ b :: post := by simp
    have last : pre.length + (a :: (mid ++ [b])).length - 1 = (pre ++ a :: mid).length := by simp
    have right : (pre ++ a :: mid ++ b :: post).getD (pre ++ a :: mid).length '\x00' = b := by simp
    have left : (pre ++ a :: mid ++ b :: post).getD pre.length '\x00' = a := by simp
    have swapped : ((pre ++ a :: mid ++ b :: post).set (pre ++ a :: mid).length a).set pre.length b =
        pre ++ [b] ++ (mid ++ a :: post) := by simp
    have next := ih (pre ++ [b]) (a :: post)
    rw [text, last, swapEnds, if_pos (by simp)]
    dsimp only
    rw [right, left, swapped]
    simpa using next

theorem itoaWith_eq (upper : Bool) (low : 2 ≤ base) (high : base ≤ 36) (value : Int) :
    itoaWith (digitTable upper) value base = canonical upper base value ++ ['\x00'] := by
  have wide : 1 < (base : Int) := by omega
  obtain ⟨text, sign⟩ := writeDigits_eq upper high wide value
  have swap (text : List Char) := swapEnds_eq [] text ['\x00']
  simp only [nil_append, length_nil, Nat.zero_add] at swap
  unfold itoaWith canonical
  rw [dif_pos (by omega)]
  dsimp only
  rw [swap, text, map_reverse]
  by_cases neg : value < 0
  · rw [if_pos (sign.2 neg), if_pos neg, reverse_append, reverse_singleton]
  · rw [if_neg (mt sign.1 neg), if_neg neg, nil_append]

theorem utoaWith_eq (digits : List Char) (low : 2 ≤ base) (high : base ≤ 36) (value : Nat) :
    utoaWith digits value base = canonical false base value ++ ['\x00'] := by
  have wide : 1 < (base : Int) := by omega
  obtain ⟨text, sign⟩ := writeDigits_eq false high wide value
  rw [← itoaWith_eq false low high, utoaWith, itoaWith, dif_pos (by omega), dif_pos (by omega)]
  dsimp only
  rw [if_neg (by omega)]
  rfl

theorem digit_parses : ∀ upper, ∀ d < 36, digitValue (digitChar upper d) = d ∧
    digitChar upper d ≠ '-' := by
  decide

theorem foldl_numeral (upper : Bool) {digits : List Nat} (lt : ∀ d ∈ digits, d < 36) :
    (digits.reverse.map (digitChar upper)).foldl (fun n c => n * base + digitValue c) 0 =
      Nat.ofDigits base digits := by
  induction digits with
  | nil => rfl
  | cons d digits ih =>
    obtain ⟨first, rest⟩ := forall_mem_cons.1 lt
    rw [reverse_cons, map_append, foldl_append, ih rest, Nat.ofDigits_cons, Nat.add_comm,
      Nat.mul_comm]
    simp [(digit_parses upper d first).1]

/-- A numeral has its value. -/
theorem parse_canonical (upper : Bool) (low : 2 ≤ base) (high : base ≤ 36) (value : Int) :
    parse base (canonical upper base value) = value := by
  have lt : ∀ d ∈ numeralDigits base value.natAbs, d < 36 := fun d hd =>
    (numeralDigits_lt low hd).trans_le high
  have sum := @foldl_numeral base upper _ lt
  have whole : Nat.ofDigits base (numeralDigits base value.natAbs) = value.natAbs := by
    unfold numeralDigits
    split
    · rename_i zero
      rw [zero, Nat.ofDigits_singleton]
    · exact Nat.ofDigits_digits base _
  rw [whole] at sum
  unfold canonical
  by_cases neg : value < 0
  · rw [if_pos neg, singleton_append, parse, sum]
    omega
  · rw [if_neg neg, nil_append]
    unfold parse
    split
    · rename_i text eq
      have minus : '-' ∈ (numeralDigits base value.natAbs).reverse.map (digitChar upper) := by
        rw [eq]
        exact mem_cons_self
      obtain ⟨d, hd, same⟩ := mem_map.1 minus
      exact absurd same (digit_parses upper d (lt d (mem_reverse.1 hd))).2
    · rw [sum]
      omega

/-- The four functions write the numeral of any value in any base from 2 to 36, with a NUL behind
it, except that `utoa_u` does so only where no digit is a letter. -/
theorem numerals_written_iff (low : 2 ≤ base) (high : base ≤ 36) :
    (∀ value : Int, itoa value base = canonical false base value ++ ['\x00'] ∧
      itoaU value base = canonical true base value ++ ['\x00']) ∧
    (∀ value : Nat, utoa value base = canonical false base value ++ ['\x00'] ∧
      (utoaU value base = canonical true base value ++ ['\x00'] ↔
        ∀ d ∈ numeralDigits base value, d < 10)) ∧
    ∀ upper value, parse base (canonical upper base value) = value := by
  refine ⟨fun value => ⟨itoaWith_eq false low high value, itoaWith_eq true low high value⟩,
    fun value => ⟨utoaWith_eq _ low high value, ?_⟩, fun upper => parse_canonical upper low high⟩
  have cases : ∀ d < 36, digitChar false d = digitChar true d ↔ d < 10 := by decide
  rw [utoaU, utoaWith_eq _ low high, append_left_inj, canonical, canonical, append_right_inj,
    map_inj_left]
  simp only [mem_reverse, Int.natAbs_natCast]
  exact forall₂_congr fun d hd => cases d ((numeralDigits_lt low hd).trans_le high)

/-- The least `int` in base 2, and a number whose numeral has no letter. -/
theorem numerals_written_iff_ends :
    itoa (-2147483648) 2 = canonical false 2 (-2147483648) ++ ['\x00'] ∧
    utoaU 255 10 = canonical true 10 255 ++ ['\x00'] :=
  ⟨((@numerals_written_iff 2 le_rfl (by decide)).1 _).1,
    (((@numerals_written_iff 10 (by decide) (by decide)).2.1 255).2).2 (by decide)⟩

/-- `utoa_u` of 10 in base 16 writes a small letter. -/
theorem utoaU_small_letter : utoaU 10 16 ≠ canonical true 16 10 ++ ['\x00'] := by
  have written := @utoaWith_eq 16 upperDigits (by decide) (by decide) 10
  intro same
  exact absurd (written.symm.trans same) (by decide)

end Os0
