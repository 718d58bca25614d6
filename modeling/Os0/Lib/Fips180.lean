import Mathlib.Analysis.SpecialFunctions.Pow.NthRootLemmas
import Mathlib.Data.Fin.VecNotation
import Mathlib.Data.Nat.Nth
import Mathlib.Data.Nat.Prime.Defs

/-! SHA-256 as FIPS 180-4 defines it, for messages that are a whole number of bytes. -/
namespace Fips180

abbrev Word := BitVec 32

def rotr (n : Nat) (x : Word) : Word := x.rotateRight n

def shr (n : Nat) (x : Word) : Word := x >>> n

def ch (x y z : Word) : Word := (x &&& y) ^^^ (~~~x &&& z)

def maj (x y z : Word) : Word := (x &&& y) ^^^ (x &&& z) ^^^ (y &&& z)

def bigSigma0 (x : Word) : Word := rotr 2 x ^^^ rotr 13 x ^^^ rotr 22 x

def bigSigma1 (x : Word) : Word := rotr 6 x ^^^ rotr 11 x ^^^ rotr 25 x

def smallSigma0 (x : Word) : Word := rotr 7 x ^^^ rotr 18 x ^^^ shr 3 x

def smallSigma1 (x : Word) : Word := rotr 17 x ^^^ rotr 19 x ^^^ shr 10 x

/-- The first 32 bits of the fractional part of the `n`-th root of `p`. -/
def rootFraction (n p : Nat) : Word := BitVec.ofNat 32 (Nat.nthRoot n (p * (2 ^ 32) ^ n))

variable {t : Nat}

/-- The root lies between two numbers that differ by one in the last of the 32 bits. -/
theorem rootFraction_eq {n p whole : Nat} {k : Word}
    (lower : (whole * 2 ^ 32 + k.toNat) ^ n ≤ p * (2 ^ 32) ^ n)
    (upper : p * (2 ^ 32) ^ n < (whole * 2 ^ 32 + k.toNat + 1) ^ n) : rootFraction n p = k := by
  apply BitVec.eq_of_toNat_eq
  rw [rootFraction, Nat.nthRoot_eq_of_le_of_lt lower upper, BitVec.toNat_ofNat,
    Nat.mul_add_mod_of_lt k.isLt]

/-- The first 64 primes. -/
def primes : List Nat := [
  2, 3, 5, 7, 11, 13, 17, 19, 23, 29, 31, 37, 41, 43, 47, 53, 59, 61, 67, 71, 73, 79, 83, 89, 97,
  101, 103, 107, 109, 113, 127, 131, 137, 139, 149, 151, 157, 163, 167, 173, 179, 181, 191, 193,
  197, 199, 211, 223, 227, 229, 233, 239, 241, 251, 257, 263, 269, 271, 277, 281, 283, 293, 307,
  311]

theorem nth_prime (lt : t < 64) : Nat.nth Nat.Prime t = primes.getD t 0 := by
  have counted : ∀ t < 64, Nat.Prime (primes.getD t 0) ∧
      Nat.count Nat.Prime (primes.getD t 0) = t := by decide +kernel
  obtain ⟨prime, count⟩ := counted t lt
  nth_rewrite 1 [← count]
  exact Nat.nth_count prime

/-- The round constants: the cube roots of the first 64 primes. -/
noncomputable def k (t : Nat) : Word := rootFraction 3 (Nat.nth Nat.Prime t)

/-- The initial hash value: the square roots of the first eight primes. -/
noncomputable def h0 (i : Fin 8) : Word := rootFraction 2 (Nat.nth Nat.Prime i)

/-- The big-endian word at position `t` of a block. -/
def wordAt (block : Nat → UInt8) (t : Nat) : Word :=
  (block (4 * t)).toBitVec ++ (block (4 * t + 1)).toBitVec ++ (block (4 * t + 2)).toBitVec ++
    (block (4 * t + 3)).toBitVec

/-- The message schedule of a block. -/
def w (block : Nat → UInt8) (t : Nat) : Word :=
  if t < 16 then wordAt block t
  else
    smallSigma1 (w block (t - 2)) + w block (t - 7) + smallSigma0 (w block (t - 15)) +
      w block (t - 16)
termination_by t

theorem w_first {block : Nat → UInt8} (lt : t < 16) : w block t = wordAt block t := by
  rw [w, if_pos lt]

theorem w_later {block : Nat → UInt8} (le : 16 ≤ t) :
    w block t = smallSigma1 (w block (t - 2)) + w block (t - 7) + smallSigma0 (w block (t - 15)) +
      w block (t - 16) := by
  rw [w, if_neg (by omega)]

instance neZero_eight : NeZero 8 := ⟨by decide⟩

/-- The working variables `a` to `h` after `t` rounds. -/
noncomputable def rounds (h : Fin 8 → Word) (block : Nat → UInt8) : Nat → Fin 8 → Word
  | 0 => h
  | t + 1 =>
    let v := rounds h block t
    let t1 := v 7 + bigSigma1 (v 4) + ch (v 4) (v 5) (v 6) + k t + w block t
    let t2 := bigSigma0 (v 0) + maj (v 0) (v 1) (v 2)
    ![t1 + t2, v 0, v 1, v 2, v 3 + t1, v 4, v 5, v 6]

/-- The intermediate hash value after one more block. -/
noncomputable def compress (h : Fin 8 → Word) (block : Nat → UInt8) : Fin 8 → Word :=
  fun i => rounds h block 64 i + h i

/-- The intermediate hash value of the first `n` blocks of a message. -/
noncomputable def hashValue (message : Nat → UInt8) : Nat → Fin 8 → Word
  | 0 => h0
  | n + 1 => compress (hashValue message n) fun i => message (64 * n + i)

section Congr

variable {block block' : Nat → UInt8}

theorem w_congr (agree : ∀ i < 64, block i = block' i) (t : Nat) : w block t = w block' t := by
  induction t using Nat.strong_induction_on with
  | h t ih =>
    by_cases first : t < 16
    · simp only [w_first first, wordAt]
      rw [agree _ (by omega), agree _ (by omega), agree _ (by omega), agree _ (by omega)]
    · have later : 16 ≤ t := Nat.le_of_not_lt first
      simp only [w_later later, ih (t - 2) (by omega), ih (t - 7) (by omega),
        ih (t - 15) (by omega), ih (t - 16) (by omega)]

theorem compress_congr (agree : ∀ i < 64, block i = block' i) (h : Fin 8 → Word) :
    compress h block = compress h block' := by
  have same : ∀ t, rounds h block t = rounds h block' t := by
    intro t
    induction t with
    | zero => rfl
    | succ t ih => simp only [rounds, ih, w_congr agree]
  unfold compress
  rw [same]

theorem hashValue_congr {message message' : Nat → UInt8} {n : Nat}
    (agree : ∀ i < 64 * n, message i = message' i) : hashValue message n = hashValue message' n := by
  induction n with
  | zero => rfl
  | succ n ih =>
    simp only [hashValue]
    rw [ih fun i lt => agree i (by omega)]
    exact compress_congr (fun i lt => agree _ (by omega)) _

end Congr

/-- The number of zero bytes between the byte that starts the padding and the length. -/
def zeros (length : Nat) : Nat := (119 - length % 64) % 64

/-- The length in bits as eight bytes. -/
def lengthBytes (length : Nat) : List UInt8 :=
  (List.range 8).map fun i => UInt8.ofNat (8 * length / 256 ^ (7 - i))

/-- The padded message. -/
def pad (message : List UInt8) : List UInt8 :=
  message ++ 128 :: List.replicate (zeros message.length) 0 ++ lengthBytes message.length

/-- The four bytes of a word, the highest first. -/
def bytes (x : Word) : List UInt8 :=
  [⟨x.extractLsb 31 24⟩, ⟨x.extractLsb 23 16⟩, ⟨x.extractLsb 15 8⟩, ⟨x.extractLsb 7 0⟩]

/-- The message digest. -/
noncomputable def sha256 (message : List UInt8) : List UInt8 :=
  (List.ofFn (hashValue (fun i => (pad message).getD i 0) ((pad message).length / 64))).flatMap bytes

end Fips180
