import Os0.Libk.Sha256

/-! The digest of `sha256_close` is the one of FIPS 180-4, however the message is split. -/
namespace Os0

open Bytes Fips180 Function List

theorem ror_eq_rotr {n : Nat} (lt : n < 32) (x : Word) : ror x n = rotr n x := by
  simp [ror, rotr, BitVec.rotateRight, BitVec.rotateRightAux, Nat.mod_eq_of_lt lt]

theorem sha256K_eq {t : Nat} (lt : t < 64) : sha256K.getD t 0 = k t := by
  have bounds : ∀ t < 64, ∃ whole < 7,
      (whole * 2 ^ 32 + (sha256K.getD t 0).toNat) ^ 3 ≤ primes.getD t 0 * (2 ^ 32) ^ 3 ∧
      primes.getD t 0 * (2 ^ 32) ^ 3 < (whole * 2 ^ 32 + (sha256K.getD t 0).toNat + 1) ^ 3 := by
    decide +kernel
  obtain ⟨whole, -, lower, upper⟩ := bounds t lt
  rw [k, nth_prime lt, rootFraction_eq lower upper]

theorem sha256Init_h (chunk : Mem) : (sha256Init chunk).h = h0 := by
  have bounds : ∀ i : Fin 8, ∃ whole < 7,
      (whole * 2 ^ 32 + ((sha256Init fun _ => 0).h i).toNat) ^ 2 ≤
        primes.getD i 0 * (2 ^ 32) ^ 2 ∧
      primes.getD i 0 * (2 ^ 32) ^ 2 <
        (whole * 2 ^ 32 + ((sha256Init fun _ => 0).h i).toNat + 1) ^ 2 := by
    decide +kernel
  funext i
  obtain ⟨whole, -, lower, upper⟩ := bounds i
  rw [h0, nth_prime (by omega), rootFraction_eq lower upper]
  rfl

theorem word_of_bytes (a b c d : BitVec 8) :
    a.setWidth 32 <<< 24 ||| b.setWidth 32 <<< 16 ||| c.setWidth 32 <<< 8 ||| d.setWidth 32 =
      (a ++ b ++ c ++ d : Word) := by
  ext i hi
  grind

/-- After `t` rounds on the block at `ptr`: the working variables are those of the standard, and
`w` holds the last 16 words of its schedule. -/
structure ChunkLoop.Follows (h : Fin 8 → Word) (mem : Mem) (ptr t : Nat) (s : ChunkLoop) :
    Prop where
  ah : s.ah = rounds h (fun i => mem (ptr + i)) t
  w : ∀ u, u < t → t ≤ u + 16 → s.w (u % 16) = Fips180.w (fun i => mem (ptr + i)) u
  ptr : t ≤ 16 → s.ptr = ptr + 4 * t

namespace ChunkLoop

variable {h : Fin 8 → Word} {mem : Mem} {ptr i j : Nat} {s : ChunkLoop}

theorem nextWord_ah : (s.nextWord mem i j).ah = s.ah := by
  unfold nextWord
  split <;> rfl

theorem nextWord_w_of_ne {u : Nat} (ne : u ≠ j) : (s.nextWord mem i j).w u = s.w u := by
  unfold nextWord
  split <;> exact update_of_ne ne ..

variable (follows : s.Follows h mem ptr (16 * i + j))
include follows

theorem Follows.nextWord_ptr (first : 16 * i + j < 16) :
    (s.nextWord mem i j).ptr = ptr + 4 * (16 * i + j + 1) := by
  have at_ptr := follows.ptr (by omega)
  simp only [nextWord, show i = 0 by omega, if_true]
  omega

theorem Follows.nextWord_w (lt : j < 16) :
    (s.nextWord mem i j).w j = Fips180.w (fun i => mem (ptr + i)) (16 * i + j) := by
  by_cases first : i = 0
  · have at_ptr := follows.ptr (by omega)
    simp only [nextWord, first, if_true, update_self, word_of_bytes]
    rw [w_first (by omega), wordAt, at_ptr, first]
    rfl
  · have earlier : ∀ d, 1 ≤ d → d ≤ 16 → s.w ((j + 16 - d) &&& 0xf) =
        Fips180.w (fun i => mem (ptr + i)) (16 * i + j - d) := by
      intro d _ _
      rw [Nat.and_two_pow_sub_one_eq_mod _ 4, ← follows.w _ (by omega) (by omega)]
      congr 1
      omega
    have at_15 := earlier 15 (by omega) (by omega)
    have at_2 := earlier 2 (by omega) (by omega)
    have at_7 := earlier 7 (by omega) (by omega)
    have at_16 := follows.w (16 * i + j - 16) (by omega) (by omega)
    rw [show (16 * i + j - 16) % 16 = j by omega] at at_16
    simp only [show j + 16 - 15 = j + 1 by omega, show j + 16 - 2 = j + 14 by omega,
      show j + 16 - 7 = j + 9 by omega] at at_15 at_2 at_7
    simp only [nextWord, first, if_false, update_self, at_15, at_2, at_7, at_16]
    rw [w_later (by omega : 16 ≤ 16 * i + j)]
    simp only [smallSigma0, smallSigma1, shr, ror_eq_rotr (by decide : 7 < 32),
      ror_eq_rotr (by decide : 18 < 32), ror_eq_rotr (by decide : 17 < 32),
      ror_eq_rotr (by decide : 19 < 32)]
    ac_rfl

theorem body_follows (hi : i < 4) (hj : j < 16) :
    (s.body mem i j).Follows h mem ptr (16 * i + j + 1) := by
  have index : (i <<< 4) ||| j = 16 * i + j := by
    rw [← Nat.shiftLeft_add_eq_or_of_lt (by omega), Nat.shiftLeft_eq, mul_comm]
  have word := follows.nextWord_w hj
  constructor
  case ah =>
    simp only [body, mix, nextWord_ah, index, sha256K_eq (by omega : 16 * i + j < 64), word,
      follows.ah, rounds, bigSigma0, bigSigma1, Fips180.ch, Fips180.maj,
      ror_eq_rotr (by decide : 2 < 32), ror_eq_rotr (by decide : 13 < 32),
      ror_eq_rotr (by decide : 22 < 32), ror_eq_rotr (by decide : 6 < 32),
      ror_eq_rotr (by decide : 11 < 32), ror_eq_rotr (by decide : 25 < 32)]
  case w =>
    intro u _ _
    by_cases last : u = 16 * i + j
    · rw [last, show (16 * i + j) % 16 = j by omega]
      exact word
    · have kept : (s.body mem i j).w (u % 16) = s.w (u % 16) := nextWord_w_of_ne (by omega)
      rw [kept]
      exact follows.w u (by omega) (by omega)
  case ptr =>
    intro le
    exact follows.nextWord_ptr le

end ChunkLoop

theorem sha256ConsumeChunk_eq (h : Fin 8 → Word) (mem : Mem) (ptr : Nat) :
    sha256ConsumeChunk h mem ptr = compress h fun i => mem (ptr + i) := by
  have start : (⟨h, fun _ => 0, ptr⟩ : ChunkLoop).Follows h mem ptr (16 * 0) := by
    constructor
    case ah => rfl
    case w =>
      intro u _
      omega
    case ptr => simp
  have follows := Runs.foldl_range (n := 4)
    (f := fun s i => (range 16).foldl (ChunkLoop.body mem i) s)
    (I := fun i (s : ChunkLoop) => s.Follows h mem ptr (16 * i))
    (fun i hi s follows => Runs.foldl_range (n := 16)
      (I := fun j (s : ChunkLoop) => s.Follows h mem ptr (16 * i + j))
      (fun j hj s follows => ChunkLoop.body_follows follows hi hj) follows) start
  funext i
  simp only [sha256ConsumeChunk, follows.ah, compress, BitVec.add_comm]

open SHA256Context

namespace SHA256Context

variable {ctx : SHA256Context} {message data : List UInt8}

/-- The message as the standard reads it. -/
def text (message : List UInt8) : Mem := fun i => message.getD i 0

variable {i : Nat}

theorem text_append_left (lt : i < message.length) : text (message ++ data) i = text message i := by
  exact getD_append _ _ _ _ lt

theorem text_append_right (le : message.length ≤ i) :
    text (message ++ data) i = text data (i - message.length) := by
  exact getD_append_right _ _ _ _ le

/-- The context has hashed the whole blocks of the message and buffers the rest. -/
structure Holds (ctx : SHA256Context) (message : List UInt8) : Prop where
  h : ctx.h = hashValue (text message) (message.length / 64)
  ptr : ctx.ptr = message.length % 64
  chunk : ∀ i < ctx.ptr, ctx.chunk i = text message (64 * (message.length / 64) + i)

theorem Holds.rem (holds : ctx.Holds message) : ctx.rem = 64 - message.length % 64 := by
  have := ctx.fits
  have := holds.ptr
  unfold SHA256_CHUNK_SIZE at *
  omega

theorem hashValue_append {n : Nat} (le : 64 * n ≤ message.length) :
    hashValue (text (message ++ data)) n = hashValue (text message) n :=
  hashValue_congr fun _ lt => text_append_left (by omega)

theorem Holds.consume (holds : ctx.Holds message) (rem : ctx.rem = 64)
    (enough : 64 ≤ data.length) : (ctx.consume data).Holds (message ++ data.take 64) := by
  have whole : message.length % 64 = 0 := by
    have := holds.rem
    omega
  have length : (message ++ data.take 64).length = message.length + 64 := by simp [enough]
  constructor
  case h =>
    rw [length, show (message.length + 64) / 64 = message.length / 64 + 1 by omega]
    simp only [SHA256Context.consume, sha256ConsumeChunk_eq, hashValue, holds.h]
    rw [hashValue_append (by omega)]
    refine compress_congr (fun i lt => ?_) _
    rw [text_append_right (by omega), show 64 * (message.length / 64) + i - message.length = i by
      omega]
    simp [text, getD_eq_getElem?_getD, lt]
  case ptr =>
    rw [length]
    have := holds.ptr
    simp only [SHA256Context.consume]
    omega
  case chunk =>
    intro i lt
    have := holds.ptr
    simp only [SHA256Context.consume] at lt
    omega

theorem consumed_eq (ctx : SHA256Context) (data : List UInt8) :
    ctx.consumed data = min data.length ctx.rem := by
  unfold consumed
  split <;> omega

section

variable (holds : ctx.Holds message)
include holds

/-- The buffer after `memcpy` goes on with the bytes of `data`. -/
theorem Holds.stored (lt : i < ctx.ptr + ctx.consumed data) :
    Slice.store ctx.chunk ctx.ptr (data.take (ctx.consumed data)) i =
      text (message ++ data.take (ctx.consumed data)) (64 * (message.length / 64) + i) := by
  have := holds.ptr
  have taken : (data.take (ctx.consumed data)).length = ctx.consumed data := by
    have := ctx.consumed_eq data
    rw [length_take]
    omega
  unfold Slice.store
  by_cases old : i < ctx.ptr
  · rw [if_neg (by omega), text_append_left (by omega)]
    exact holds.chunk i old
  · rw [if_pos (by omega), text_append_right (by omega),
      show 64 * (message.length / 64) + i - message.length = i - ctx.ptr by omega]
    simp only [text, getD_eq_getElem?_getD]
    rw [getElem?_eq_getElem (by omega)]
    rfl

theorem Holds.fill : (ctx.fill data).Holds (message ++ data.take (ctx.consumed data)) := by
  have ptr := holds.ptr
  have rem := holds.rem
  have consumed := ctx.consumed_eq data
  have length : (message ++ data.take (ctx.consumed data)).length =
      message.length + ctx.consumed data := by
    rw [length_append, length_take]
    omega
  unfold SHA256Context.fill
  split
  case isTrue _ =>
    constructor
    case h =>
      rw [length, show (message.length + ctx.consumed data) / 64 = message.length / 64 + 1 by omega]
      simp only [sha256ConsumeChunk_eq, hashValue, holds.h]
      rw [hashValue_append (by omega)]
      refine compress_congr (fun i lt => ?_) _
      rw [zero_add]
      exact holds.stored (by omega)
    case ptr =>
      rw [length]
      simp only
      omega
    case chunk =>
      intro i lt
      exact absurd lt (Nat.not_lt_zero i)
  case isFalse _ =>
    have same : (message.length + ctx.consumed data) / 64 = message.length / 64 := by omega
    constructor
    case h =>
      rw [length, same, hashValue_append (by omega)]
      exact holds.h
    case ptr =>
      rw [length]
      simp only
      omega
    case chunk =>
      intro i lt
      rw [length, same]
      exact holds.stored lt

theorem Holds.writeLoop : (ctx.writeLoop data).Holds (message ++ data) := by
  fun_induction SHA256Context.writeLoop ctx data generalizing message with
  | case1 ctx data empty =>
    rw [length_eq_zero_iff.1 empty, append_nil]
    exact holds
  | case2 ctx data _ whole ih =>
    have next := ih (holds.consume whole.1 whole.2)
    rwa [SHA256_CHUNK_SIZE, append_assoc, take_append_drop] at next
  | case3 ctx data _ _ ih =>
    have next := ih holds.fill
    rwa [append_assoc, take_append_drop] at next

end

theorem writeLoop_len (ctx : SHA256Context) (data : List UInt8) :
    (ctx.writeLoop data).len = ctx.len := by
  fun_induction writeLoop ctx data with
  | case1 => rfl
  | case2 ctx data _ _ ih => exact ih
  | case3 ctx data _ _ ih =>
    rw [ih]
    unfold fill
    split <;> rfl

/-- A context that has been written a message shorter than `2 ^ 32` bytes. -/
structure Written (ctx : SHA256Context) (message : List UInt8) : Prop extends
    ctx.Holds message where
  len : ctx.len = message.length

theorem sha256Init_written (chunk : Mem) : (sha256Init chunk).Written [] := by
  constructor
  case toHolds =>
    constructor
    case h => exact sha256Init_h chunk
    case ptr => rfl
    case chunk =>
      intro i lt
      exact absurd lt (Nat.not_lt_zero i)
  case len => rfl

theorem Written.sha256Write (written : ctx.Written message)
    (lt : (message ++ data).length < 2 ^ 32) : (ctx.sha256Write data).Written (message ++ data) := by
  constructor
  case toHolds =>
    have start : Holds { ctx with len := add32 ctx.len data.length } message := { written with }
    exact start.writeLoop
  case len =>
    rw [length_append] at lt ⊢
    rw [SHA256Context.sha256Write, writeLoop_len, written.len]
    exact add32_eq lt

theorem ofNat_and_255 (n : Nat) : UInt8.ofNat (n &&& 0xff) = UInt8.ofNat n := by
  rw [Nat.and_two_pow_sub_one_eq_mod _ 8]
  exact UInt8.ofNat_mod_size

theorem storeLength_apply (chunk : Mem) (pos len k i : Nat) :
    storeLength chunk pos len k i =
      if pos ≤ i ∧ i < pos + k then UInt8.ofNat (len / 256 ^ (pos + k - 1 - i)) else chunk i := by
  induction k generalizing chunk len with
  | zero => rw [if_neg (by omega), storeLength]
  | succ k ih =>
    rw [storeLength, ih]
    by_cases last : i = pos + k
    · rw [if_neg (by omega), if_pos (by omega), last, Mem.set_same, ofNat_and_255]
      simp
    · by_cases inside : pos ≤ i ∧ i < pos + k
      · have deeper : pos + (k + 1) - 1 - i = pos + k - 1 - i + 1 := by omega
        rw [if_pos inside, if_pos (by omega), deeper, Nat.shiftRight_eq_div_pow,
          Nat.div_div_eq_div_mul, Nat.pow_succ' (m := 256)]
      · rw [if_neg inside, if_neg (by omega), Mem.set_of_ne _ last]

/-- The padding as it stands behind the message. -/
theorem length_pad (message : List UInt8) :
    (pad message).length = message.length + 1 + zeros message.length + 8 := by
  simp [pad, lengthBytes]
  omega

theorem text_pad_message (lt : i < message.length) : text (pad message) i = text message i := by
  unfold pad
  rw [append_assoc]
  exact text_append_left lt

theorem text_pad_mark (message : List UInt8) : text (pad message) message.length = 128 := by
  unfold pad
  rw [append_assoc, text_append_right le_rfl]
  simp [text]

theorem text_pad_zero (low : message.length < i)
    (high : i < message.length + 1 + zeros message.length) : text (pad message) i = 0 := by
  unfold pad
  rw [text_append_left (by simp; omega), text_append_right (by omega)]
  obtain ⟨j, rfl⟩ : ∃ j, i = message.length + (j + 1) := ⟨i - message.length - 1, by omega⟩
  simp [text]

theorem text_pad_length {j : Nat} (lt : j < 8) :
    text (pad message) (message.length + 1 + zeros message.length + j) =
      UInt8.ofNat (8 * message.length / 256 ^ (7 - j)) := by
  unfold pad
  have front : (message ++ 128 :: replicate (zeros message.length) 0).length =
      message.length + 1 + zeros message.length := by
    simp
    omega
  rw [text_append_right (by omega), front, Nat.add_sub_cancel_left]
  simp [text, lengthBytes, lt]

/-- The last chunk, when it has room for the length behind the `pos` bytes it holds. -/
theorem closeLast_eq {h : Fin 8 → Word} {chunk block : Mem} {pos rem len : Nat}
    (fits : pos + rem = 64) (room : 8 ≤ rem) (before : ∀ i < pos, chunk i = block i)
    (zero : ∀ i, pos ≤ i → i < 56 → block i = 0)
    (length : ∀ j < 8, block (56 + j) = UInt8.ofNat (8 * len / 256 ^ (7 - j))) :
    closeLast h chunk pos rem len = compress h block := by
  have at_length : pos + (rem - 8) = 56 := by omega
  simp only [closeLast, sha256ConsumeChunk_eq, at_length]
  refine compress_congr (fun i lt => ?_) _
  rw [zero_add, storeLength_apply]
  by_cases upper : 56 ≤ i ∧ i < 56 + 7
  · obtain ⟨j, rfl⟩ := Nat.exists_eq_add_of_le upper.1
    rw [if_pos upper, length j (by omega), Nat.shiftRight_eq_div_pow,
      show 7 - j = 56 + 7 - 1 - (56 + j) + 1 by omega, Nat.pow_succ' (m := 256),
      ← Nat.div_div_eq_div_mul]
    congr 2
    omega
  · rw [if_neg upper]
    by_cases last : i = 63
    · rw [last, Mem.set_same, ofNat_and_255, Nat.shiftLeft_eq, length 7 (by omega)]
      congr 1
      omega
    · rw [Mem.set_of_ne _ last]
      unfold Slice.store
      rw [length_replicate]
      by_cases early : i < pos
      · rw [if_neg (by omega), before i early]
      · rw [if_pos (by omega), zero i (by omega) (by omega)]
        exact getD_replicate _ (by omega)

/-- The buffer with the mark behind the message. -/
theorem Holds.marked (holds : ctx.Holds message) (lt : i < ctx.ptr + 1) :
    ctx.chunk.set ctx.ptr 0x80 i = text (pad message) (64 * (message.length / 64) + i) := by
  have ptr := holds.ptr
  by_cases mark : i = ctx.ptr
  · rw [mark, Mem.set_same, show 64 * (message.length / 64) + ctx.ptr = message.length by omega]
    exact (text_pad_mark message).symm
  · rw [Mem.set_of_ne _ mark, text_pad_message (by omega)]
    exact holds.chunk i (by omega)

theorem Written.closeHash (written : ctx.Written message) :
    ctx.closeHash = hashValue (text (pad message)) ((pad message).length / 64) := by
  have ptr := written.ptr
  have rem := written.rem
  have length := length_pad message
  have length_at : ∀ n, 64 * n + 56 = message.length + 1 + zeros message.length → ∀ j < 8,
      text (pad message) (64 * n + (56 + j)) = UInt8.ofNat (8 * ctx.len / 256 ^ (7 - j)) := by
    intro n at_length j lt
    rw [written.len, ← add_assoc, at_length]
    exact text_pad_length lt
  have hashed : ctx.h = hashValue (text (pad message)) (message.length / 64) := by
    rw [written.h]
    exact hashValue_congr fun i lt => (text_pad_message (by omega)).symm
  unfold SHA256Context.closeHash
  by_cases spill : ctx.rem - 1 < 8
  · have zeros_eq : zeros message.length = 119 - message.length % 64 := by
      unfold zeros
      omega
    have first : sha256ConsumeChunk ctx.h (Slice.store (ctx.chunk.set ctx.ptr 0x80) (ctx.ptr + 1)
        (replicate (ctx.rem - 1) 0)) 0 =
        hashValue (text (pad message)) (message.length / 64 + 1) := by
      rw [sha256ConsumeChunk_eq, hashValue, hashed]
      refine compress_congr (fun i lt => ?_) _
      unfold Slice.store
      rw [zero_add, length_replicate]
      by_cases early : i < ctx.ptr + 1
      · rw [if_neg (by omega), written.marked early]
      · rw [if_pos (by omega), text_pad_zero (by omega) (by omega)]
        exact getD_replicate _ (by omega)
    rw [length, show (message.length + 1 + zeros message.length + 8) / 64 =
      message.length / 64 + 1 + 1 by omega]
    simp only [spill, if_true, first]
    rw [hashValue]
    apply closeLast_eq rfl (by decide)
    · intro i lt
      omega
    · intro i _ lt
      exact text_pad_zero (by omega) (by omega)
    · exact length_at _ (by omega)
  · have zeros_eq : zeros message.length = 55 - message.length % 64 := by
      unfold zeros
      omega
    rw [length, show (message.length + 1 + zeros message.length + 8) / 64 =
      message.length / 64 + 1 by omega]
    simp only [spill, if_false]
    rw [hashValue, ← hashed]
    apply closeLast_eq (by omega) (by omega)
    · intro i lt
      exact written.marked lt
    · intro i _ lt
      exact text_pad_zero (by omega) (by omega)
    · exact length_at _ (by omega)

theorem bytes_eq (x : Word) :
    [⟨((x >>> 24) &&& 0xff).setWidth 8⟩, ⟨((x >>> 16) &&& 0xff).setWidth 8⟩,
      ⟨((x >>> 8) &&& 0xff).setWidth 8⟩, ⟨(x &&& 0xff).setWidth 8⟩] = bytes x := by
  have byte : ∀ n, ((x >>> n) &&& 0xff).setWidth 8 = x.extractLsb' n 8 := by
    intro n
    apply BitVec.eq_of_toNat_eq
    have low : ∀ m, m &&& 255 = m % 256 := fun m => Nat.and_two_pow_sub_one_eq_mod m 8
    simp [low]
  have last : (x &&& 0xff).setWidth 8 = x.extractLsb' 0 8 := byte 0
  rw [byte, byte, byte, last]
  rfl

theorem Written.sha256Close (written : ctx.Written message) :
    ctx.sha256Close = Fips180.sha256 message := by
  unfold SHA256Context.sha256Close Fips180.sha256
  simp only [bytes_eq, written.closeHash]
  rw [ofFn_eq_map, flatMap_map]
  rfl

theorem sha256Data_eq (stack : Mem) (short : data.length < 2 ^ 32) :
    sha256Data stack data = Fips180.sha256 data :=
  ((sha256Init_written stack).sha256Write short).sha256Close

-- What the code computes is what the standard says, so the standard's definition can be evaluated.
example : Fips180.sha256 [0x61, 0x62, 0x63] =
    [0xba, 0x78, 0x16, 0xbf, 0x8f, 0x01, 0xcf, 0xea, 0x41, 0x41, 0x40, 0xde, 0x5d, 0xae, 0x22, 0x23,
      0xb0, 0x03, 0x61, 0xa3, 0x96, 0x17, 0x7a, 0x9c, 0xb4, 0x10, 0xff, 0x61, 0xf2, 0x00, 0x15,
      0xad] := by
  rw [← sha256Data_eq (fun _ => 0xff) (by decide)]
  decide +kernel

/-- However a message is split into writes, empty ones among them, the digest is that of the
standard for the whole message. -/
theorem sha256_any_split (chunk : Mem) (writes : List (List UInt8))
    (short : writes.flatten.length < 2 ^ 32) :
    (writes.foldl sha256Write (sha256Init chunk)).sha256Close =
      Fips180.sha256 writes.flatten := by
  have written : ∀ writes : List (List UInt8), ∀ ctx : SHA256Context, ∀ message : List UInt8,
      ctx.Written message → (message ++ writes.flatten).length < 2 ^ 32 →
      (writes.foldl sha256Write ctx).Written (message ++ writes.flatten) := by
    intro writes
    induction writes with
    | nil =>
      intro ctx message written _
      simpa using written
    | cons data writes ih =>
      intro ctx message written short
      rw [List.flatten_cons, ← List.append_assoc] at short ⊢
      have first : (message ++ data).length < 2 ^ 32 := by
        rw [List.length_append] at short
        omega
      exact ih _ _ (written.sha256Write first) short
  exact (written writes _ [] (sha256Init_written chunk) short).sha256Close

/-- Three writes of the message `abc`, one of them empty, over a buffer of garbage. -/
theorem sha256_any_split_abc :
    ([[0x61], [], [0x62, 0x63]].foldl sha256Write (sha256Init fun _ => 0xff)).sha256Close =
      Fips180.sha256 [0x61, 0x62, 0x63] :=
  sha256_any_split (fun _ => 0xff) [[0x61], [], [0x62, 0x63]] (by decide)

end SHA256Context

end Os0
