import Os0.Lib.Bytes
import Os0.Lib.Fips180
import Os0.Lib.Runs
import Os0.Lib.Slice

/-! SHA-256 of `libk/sha256.c`. -/
namespace Os0

open Bytes Fips180

def SHA256_CHUNK_SIZE : Nat := 64

def sha256K : List Word := [
  0x428a2f98, 0x71374491, 0xb5c0fbcf, 0xe9b5dba5, 0x3956c25b, 0x59f111f1,
  0x923f82a4, 0xab1c5ed5, 0xd807aa98, 0x12835b01, 0x243185be, 0x550c7dc3,
  0x72be5d74, 0x80deb1fe, 0x9bdc06a7, 0xc19bf174, 0xe49b69c1, 0xefbe4786,
  0x0fc19dc6, 0x240ca1cc, 0x2de92c6f, 0x4a7484aa, 0x5cb0a9dc, 0x76f988da,
  0x983e5152, 0xa831c66d, 0xb00327c8, 0xbf597fc7, 0xc6e00bf3, 0xd5a79147,
  0x06ca6351, 0x14292967, 0x27b70a85, 0x2e1b2138, 0x4d2c6dfc, 0x53380d13,
  0x650a7354, 0x766a0abb, 0x81c2c92e, 0x92722c85, 0xa2bfe8a1, 0xa81a664b,
  0xc24b8b70, 0xc76c51a3, 0xd192e819, 0xd6990624, 0xf40e3585, 0x106aa070,
  0x19a4c116, 0x1e376c08, 0x2748774c, 0x34b0bcb5, 0x391c0cb3, 0x4ed8aa4a,
  0x5b9cca4f, 0x682e6ff3, 0x748f82ee, 0x78a5636f, 0x84c87814, 0x8cc70208,
  0x90befffa, 0xa4506ceb, 0xbef9a3f7, 0xc67178f2]

def ror (x : Word) (n : Nat) : Word := (x >>> n) ||| (x <<< (32 - n))

/-- The variables of the loop in `sha256_consume_chunk`. -/
structure ChunkLoop where
  ah : Fin 8 → Word
  w : Nat → Word
  ptr : Nat

namespace ChunkLoop

/-- What the first pass reads, and the later ones compute, into `w[j]`. -/
def nextWord (mem : Mem) (i j : Nat) (s : ChunkLoop) : ChunkLoop :=
  if i = 0 then
    { s with
      w := Function.update s.w j
        ((mem s.ptr).toBitVec.setWidth 32 <<< 24 ||| (mem (s.ptr + 1)).toBitVec.setWidth 32 <<< 16 |||
          (mem (s.ptr + 2)).toBitVec.setWidth 32 <<< 8 ||| (mem (s.ptr + 3)).toBitVec.setWidth 32)
      ptr := s.ptr + 4 }
  else
    let s0 := ror (s.w ((j + 1) &&& 0xf)) 7 ^^^ ror (s.w ((j + 1) &&& 0xf)) 18 ^^^
      s.w ((j + 1) &&& 0xf) >>> 3
    let s1 := ror (s.w ((j + 14) &&& 0xf)) 17 ^^^ ror (s.w ((j + 14) &&& 0xf)) 19 ^^^
      s.w ((j + 14) &&& 0xf) >>> 10
    { s with w := Function.update s.w j (s.w j + (s0 + s.w ((j + 9) &&& 0xf) + s1)) }

/-- The rest of the loop's body. -/
def mix (i j : Nat) (s : ChunkLoop) : ChunkLoop :=
  let ah := s.ah
  let s1 := ror (ah 4) 6 ^^^ ror (ah 4) 11 ^^^ ror (ah 4) 25
  let ch := (ah 4 &&& ah 5) ^^^ (~~~ah 4 &&& ah 6)
  let t1 := ah 7 + s1 + ch + sha256K.getD ((i <<< 4) ||| j) 0 + s.w j
  let s0 := ror (ah 0) 2 ^^^ ror (ah 0) 13 ^^^ ror (ah 0) 22
  let maj := (ah 0 &&& ah 1) ^^^ (ah 0 &&& ah 2) ^^^ (ah 1 &&& ah 2)
  let t2 := s0 + maj
  { s with ah := ![t1 + t2, ah 0, ah 1, ah 2, ah 3 + t1, ah 4, ah 5, ah 6] }

def body (mem : Mem) (i : Nat) (s : ChunkLoop) (j : Nat) : ChunkLoop :=
  (s.nextWord mem i j).mix i j

end ChunkLoop

/-- `sha256_consume_chunk`. What `w` starts with is never read. -/
def sha256ConsumeChunk (h : Fin 8 → Word) (mem : Mem) (ptr : Nat) : Fin 8 → Word :=
  let s := (List.range 4).foldl (fun s i => (List.range 16).foldl (ChunkLoop.body mem i) s)
    ⟨h, fun _ => 0, ptr⟩
  fun i => h i + s.ah i

/-- `SHA256Context`; `s_ptr` is an offset into `s_chunk`. -/
structure SHA256Context where
  chunk : Mem
  ptr : Nat
  rem : Nat
  len : Nat
  h : Fin 8 → Word
  fits : ptr + rem = SHA256_CHUNK_SIZE
  room : 0 < rem

/-- `sha256_init` on a context with `chunk` in its buffer. -/
def sha256Init (chunk : Mem) : SHA256Context where
  chunk := chunk
  ptr := 0
  rem := SHA256_CHUNK_SIZE
  len := 0
  h := ![0x6a09e667, 0xbb67ae85, 0x3c6ef372, 0xa54ff53a, 0x510e527f, 0x9b05688c, 0x1f83d9ab,
    0x5be0cd19]
  fits := rfl
  room := by decide

namespace SHA256Context

/-- The first branch of the loop in `sha256_write`. -/
def consume (ctx : SHA256Context) (data : List UInt8) : SHA256Context :=
  { ctx with h := sha256ConsumeChunk ctx.h (fun i => data.getD i 0) 0 }

/-- How much of `data` the second branch takes. -/
def consumed (ctx : SHA256Context) (data : List UInt8) : Nat :=
  if data.length < ctx.rem then data.length else ctx.rem

theorem consumed_le (ctx : SHA256Context) (data : List UInt8) : ctx.consumed data ≤ ctx.rem := by
  unfold consumed
  split <;> omega

/-- The second branch. -/
def fill (ctx : SHA256Context) (data : List UInt8) : SHA256Context :=
  let chunk := Slice.store ctx.chunk ctx.ptr (data.take (ctx.consumed data))
  if full : ctx.rem - ctx.consumed data = 0 then
    { ctx with
      chunk := chunk, h := sha256ConsumeChunk ctx.h chunk 0, ptr := 0, rem := SHA256_CHUNK_SIZE
      fits := rfl, room := by decide }
  else
    { ctx with
      chunk := chunk, ptr := ctx.ptr + ctx.consumed data, rem := ctx.rem - ctx.consumed data
      fits := by have := ctx.fits; have := ctx.consumed_le data; omega
      room := by omega }

/-- The loop in `sha256_write`. -/
def writeLoop (ctx : SHA256Context) (data : List UInt8) : SHA256Context :=
  if data.length = 0 then ctx
  else if ctx.rem = SHA256_CHUNK_SIZE ∧ SHA256_CHUNK_SIZE ≤ data.length then
    writeLoop (ctx.consume data) (data.drop SHA256_CHUNK_SIZE)
  else
    writeLoop (ctx.fill data) (data.drop (ctx.consumed data))
termination_by data.length
decreasing_by
  · simp only [List.length_drop, SHA256_CHUNK_SIZE]
    omega
  · have := ctx.room
    simp only [List.length_drop, consumed]
    split <;> omega

def sha256Write (ctx : SHA256Context) (data : List UInt8) : SHA256Context :=
  writeLoop { ctx with len := add32 ctx.len data.length } data

/-- The loop that stores the upper seven bytes of the length at `pos`. -/
def storeLength (chunk : Mem) (pos len : Nat) : Nat → Mem
  | 0 => chunk
  | i + 1 => storeLength (chunk.set (pos + i) (UInt8.ofNat (len &&& 0xff))) pos (len >>> 8) i

/-- `sha256_close` from where the last chunk has room for the length. -/
def closeLast (h : Fin 8 → Word) (chunk : Mem) (pos rem len : Nat) : Fin 8 → Word :=
  let chunk : Mem := Slice.store chunk pos (List.replicate (rem - 8) 0)
  let pos := pos + (rem - 8)
  let chunk := chunk.set (pos + 7) (UInt8.ofNat (len <<< 3 &&& 0xff))
  sha256ConsumeChunk h (storeLength chunk pos (len >>> 5) 7) 0

/-- `sha256_close` up to the words of the digest. -/
def closeHash (ctx : SHA256Context) : Fin 8 → Word :=
  let chunk := ctx.chunk.set ctx.ptr 0x80
  let pos := ctx.ptr + 1
  let rem := ctx.rem - 1
  if rem < 8 then
    let chunk := Slice.store chunk pos (List.replicate rem 0)
    closeLast (sha256ConsumeChunk ctx.h chunk 0) chunk 0 SHA256_CHUNK_SIZE ctx.len
  else
    closeLast ctx.h chunk pos rem ctx.len

/-- `sha256_close`: the bytes left in `s_digest`. -/
def sha256Close (ctx : SHA256Context) : List UInt8 :=
  let h := ctx.closeHash
  (List.finRange 8).flatMap fun i =>
    [⟨((h i >>> 24) &&& 0xff).setWidth 8⟩, ⟨((h i >>> 16) &&& 0xff).setWidth 8⟩,
      ⟨((h i >>> 8) &&& 0xff).setWidth 8⟩, ⟨(h i &&& 0xff).setWidth 8⟩]

/-- `sha256_data`; `stack` is what the buffer of its context holds at first. -/
def sha256Data (stack : Mem) (data : List UInt8) : List UInt8 :=
  ((sha256Init stack).sha256Write data).sha256Close

end SHA256Context

end Os0
