import Os0.Fs.Ext2.Dir

/-! `ext2_process_dir_block` and `ext2_dirent_valid` (`fs/ext2/util.c`) on a block of arbitrary
bytes, with all flags but `DIRENT_FLAG_INLINE`, for a function that does not modify the block. -/
namespace Os0

open Bytes

/-- The header of the record at an offset is read, or the record is handed to the function. -/
inductive DirEvent
  | read (o : Nat)
  | call (o : Nat)

variable (blksize : Nat) (b : Mem)

def recLenAt (o : Nat) : Nat := ext2GetRecLen blksize (dRecLen b o)

/-- `ext2_dirent_valid`: its result and what it reads. Only a length that is no multiple of 4
makes it go on. -/
def ext2DirentValid (final o : Nat) : Bool × List DirEvent :=
  if o < final ∧ o ≤ blksize - 12 then
    let len := recLenAt blksize b o
    if len < 8 ∨ len % 4 = 0 ∨ len < nameLength b o + 8 then (false, [.read o])
    else
      let rest := ext2DirentValid final (o + len)
      (rest.1, .read o :: rest.2)
  else (o = final, [])
termination_by final - o

/-- The search for a deleted entry, in steps of 4 bytes: where it ends and what is read. -/
def skipDeleted (final o : Nat) : Nat × List DirEvent :=
  if o < final then
    let valid := ext2DirentValid blksize b final o
    if valid.1 then (o, valid.2)
    else
      let rest := skipDeleted final (o + 4)
      (rest.1, valid.2 ++ rest.2)
  else (o, [])
termination_by final - o

/-- The offset after the record at `o`; `removed` is `DIRENT_FLAG_REMOVED`. -/
def nextRecord (removed : Bool) (o : Nat) : Nat × List DirEvent :=
  let len := recLenAt blksize b o
  let size := (nameLength b o + 11) / 4 * 4
  if removed ∧ len ≠ size then skipDeleted blksize b (o + len) (o + size)
  else (o + len, [])

theorem le_skipDeleted (final o : Nat) : o ≤ (skipDeleted blksize b final o).1 := by
  fun_induction skipDeleted blksize b final o with grind

theorem lt_nextRecord (removed : Bool) {o : Nat} (ok : recordOk blksize b o = true) :
    o < (nextRecord blksize b removed o).1 := by
  have search := le_skipDeleted blksize b
  unfold nextRecord recordOk at *
  grind [recLenAt]

/-- The loop of `ext2_process_dir_block` from the offset `o` on, with the three flags. `csum` is the
size of a checksum tail, `aborts` says which calls return `DIRENT_ABORT`, and `n` calls were made
before. -/
def processDirBlock (empty removed checksum : Bool) (csum : Nat) (aborts : Nat → Bool) (n o : Nat) :
    List DirEvent :=
  if o < blksize - 8 then
    if _ok : recordOk blksize b o = true then
      let tail := o = blksize - csum ∧ dRecLen b o = csum ∧ dNameLen b o = 0xde00
      let next := nextRecord blksize b removed o
      if dInode b o = 0 ∧ ¬(if tail then checksum else empty) then
        .read o :: next.2 ++ processDirBlock empty removed checksum csum aborts n next.1
      else if aborts n then [.read o, .call o]
      else .read o :: .call o :: next.2 ++
        processDirBlock empty removed checksum csum aborts (n + 1) next.1
    else [.read o]
  else []
termination_by blksize - o
decreasing_by all_goals have := lt_nextRecord blksize b removed _ok; omega

/-- The header, or the header, the name and the whole record, lie in the block. -/
def DirEvent.Inside : DirEvent → Prop
  | .read o => o + 8 ≤ blksize
  | .call o => nameLength b o + 8 ≤ recLenAt blksize b o ∧ o + recLenAt blksize b o ≤ blksize

variable {blksize b} {final o : Nat}

theorem ext2DirentValid_inside (pos : 0 < o) :
    ∀ e ∈ (ext2DirentValid blksize b final o).2, e.Inside blksize b := by
  fun_induction ext2DirentValid blksize b final o with grind [DirEvent.Inside]

theorem skipDeleted_inside (pos : 0 < o) :
    ∀ e ∈ (skipDeleted blksize b final o).2, e.Inside blksize b := by
  have valid := @ext2DirentValid_inside blksize b final
  fun_induction skipDeleted blksize b final o with grind

theorem nextRecord_inside (removed : Bool) (o : Nat) :
    ∀ e ∈ (nextRecord blksize b removed o).2, e.Inside blksize b := by
  unfold nextRecord
  dsimp only
  split
  · exact skipDeleted_inside (by omega)
  · nofun

/-- Whatever the block holds, the loop ends, reads headers in the block only, and hands over
records that lie in it. -/
theorem process_dir_block_inside (blksize : Nat) (b : Mem) (empty removed checksum : Bool)
    (csum : Nat) (aborts : Nat → Bool) (n o : Nat) :
    ∀ e ∈ processDirBlock blksize b empty removed checksum csum aborts n o, e.Inside blksize b := by
  have search := @nextRecord_inside blksize b removed
  fun_induction processDirBlock blksize b empty removed checksum csum aborts n o with
    grind [DirEvent.Inside, recordOk, recLenAt]

/-- Two records, the second with room behind its name. -/
def twoRecords : Mem := fun i =>
  [1, 0, 0, 0, 12, 0, 1, 0, 0x61, 0, 0, 0, 2, 0, 0, 0, 20, 0, 1, 0, 0x62].getD i 0

/-- Both are handed over, and nothing is found in the room behind the second. -/
theorem process_dir_block_inside_two :
    (DirEvent.call 0).Inside 32 twoRecords ∧ (DirEvent.call 12).Inside 32 twoRecords := by
  have first : nextRecord 32 twoRecords true 0 = (12, []) := by
    rw [nextRecord, if_neg (by decide +kernel)]
    rfl
  have second : nextRecord 32 twoRecords true 12 = (32, []) := by
    rw [nextRecord, if_pos (by decide +kernel)]
    change skipDeleted 32 twoRecords 32 24 = _
    simp [skipDeleted, ext2DirentValid]
  have ok : recordOk 32 twoRecords 0 = true ∧ recordOk 32 twoRecords 12 = true ∧
      dInode twoRecords 0 = 1 ∧ dInode twoRecords 12 = 2 := by decide +kernel
  have events : processDirBlock 32 twoRecords false true false 0 (fun _ => false) 0 0 =
      [.read 0, .call 0, .read 12, .call 12] := by
    simp [processDirBlock, first, second, ok]
  have inside := process_dir_block_inside 32 twoRecords false true false 0 (fun _ => false) 0 0
  rw [events] at inside
  exact ⟨inside _ (by simp), inside _ (by simp)⟩

end Os0
