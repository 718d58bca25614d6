import Mathlib.Data.Nat.Notation

/-! Byte-addressed memory with little-endian 16-bit and 32-bit words, and 32-bit unsigned
arithmetic on natural numbers. -/
namespace Bytes

/-- Addition of `uint32_t` values. -/
def add32 (a b : Nat) : Nat := (a + b) % 4294967296

/-- Subtraction of `uint32_t` values. -/
def sub32 (a b : Nat) : Nat := (a + (4294967296 - b)) % 4294967296

variable {a b : Nat} {m m' : Mem} {lo hi lo' hi' : Nat}

theorem add32_eq (h : a + b < 4294967296) : add32 a b = a + b :=
  Nat.mod_eq_of_lt h

theorem sub32_eq (hb : b ≤ a) (ha : a < 4294967296) : sub32 a b = a - b := by
  unfold sub32
  omega

/-- `word & mask` is not 0. -/
def hasFlag (word mask : Nat) : Bool := word &&& mask ≠ 0

abbrev Mem := Nat → UInt8

namespace Mem

def set (m : Mem) (a : Nat) (v : UInt8) : Mem := fun b => if b = a then v else m b

/-- The little-endian word at `a`. -/
def word (m : Mem) (a : Nat) : Nat :=
  (m a).toNat + 256 * (m (a + 1)).toNat + 65536 * (m (a + 2)).toNat +
    16777216 * (m (a + 3)).toNat

def setWord (m : Mem) (a v : Nat) : Mem := fun b =>
  if b = a then UInt8.ofNat v
  else if b = a + 1 then UInt8.ofNat (v / 256)
  else if b = a + 2 then UInt8.ofNat (v / 65536)
  else if b = a + 3 then UInt8.ofNat (v / 16777216)
  else m b

/-- The little-endian 16-bit word at `a`. -/
def half (m : Mem) (a : Nat) : Nat := (m a).toNat + 256 * (m (a + 1)).toNat

def setHalf (m : Mem) (a v : Nat) : Mem := fun b =>
  if b = a then UInt8.ofNat v else if b = a + 1 then UInt8.ofNat (v / 256) else m b

/-- Both memories hold the same bytes in `[lo, hi)`. -/
def AgreeOn (lo hi : Nat) (m m' : Mem) : Prop := ∀ a, lo ≤ a → a < hi → m' a = m a

/-- Both memories hold the same bytes outside `[lo, hi)`. -/
def AgreeOff (lo hi : Nat) (m m' : Mem) : Prop := ∀ a, a < lo ∨ hi ≤ a → m' a = m a

variable (v : Nat)

theorem word_lt (m : Mem) (a : Nat) : m.word a < 4294967296 := by
  have h0 := (m a).toNat_lt
  have h1 := (m (a + 1)).toNat_lt
  have h2 := (m (a + 2)).toNat_lt
  have h3 := (m (a + 3)).toNat_lt
  unfold word
  omega

theorem word_congr (h : AgreeOn a (a + 4) m m') : m'.word a = m.word a := by
  unfold word
  rw [h a (by omega) (by omega), h (a + 1) (by omega) (by omega),
    h (a + 2) (by omega) (by omega), h (a + 3) (by omega) (by omega)]

theorem half_congr (h : AgreeOn a (a + 2) m m') : m'.half a = m.half a := by
  unfold half
  rw [h a (by omega) (by omega), h (a + 1) (by omega) (by omega)]

@[simp] theorem set_same (m : Mem) (a : Nat) (v : UInt8) : m.set a v a = v := by
  simp [set]

theorem set_of_ne (v : UInt8) (h : b ≠ a) : m.set a v b = m b := by
  simp [set, h]

theorem setWord_of_off (h : b < a ∨ a + 4 ≤ b) : m.setWord a v b = m b := by
  unfold setWord
  rw [if_neg (by omega), if_neg (by omega), if_neg (by omega), if_neg (by omega)]

theorem word_setWord (m : Mem) {v : Nat} (h : v < 4294967296) : (m.setWord a v).word a = v := by
  simp only [word, setWord, if_true, UInt8.toNat_ofNat']
  rw [if_neg (by omega), if_neg (by omega), if_neg (by omega), if_neg (by omega),
    if_neg (by omega), if_neg (by omega)]
  simp only [UInt8.toNat_ofNat']
  omega

theorem word_setWord_of_off (h : b + 4 ≤ a ∨ a + 4 ≤ b) : (m.setWord a v).word b = m.word b :=
  word_congr fun c hl hh => setWord_of_off v (by omega)

theorem word_set_of_off (v : UInt8) (h : b + 4 ≤ a ∨ a + 1 ≤ b) : (m.set a v).word b = m.word b :=
  word_congr fun c hl hh => set_of_ne v (by omega)

section

variable (h : AgreeOff lo hi m m')
include h

theorem AgreeOff.trans {m'' : Mem} (k : AgreeOff lo hi m' m'') : AgreeOff lo hi m m'' :=
  fun a ha => (k a ha).trans (h a ha)

theorem AgreeOff.mono (hl : lo' ≤ lo) (hh : hi ≤ hi') : AgreeOff lo' hi' m m' :=
  fun a ha => h a (by omega)

theorem AgreeOff.agreeOn (apart : hi' ≤ lo ∨ hi ≤ lo') : AgreeOn lo' hi' m m' :=
  fun a hl hh => h a (by omega)

end

theorem AgreeOn.mono (h : AgreeOn lo hi m m') (hl : lo ≤ lo') (hh : hi' ≤ hi) :
    AgreeOn lo' hi' m m' :=
  fun a ha hb => h a (by omega) (by omega)

end Mem

end Bytes
