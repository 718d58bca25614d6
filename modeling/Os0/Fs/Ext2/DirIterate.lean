import Os0.Fs.Ext2.BmapSpec
import Os0.Fs.Ext2.DirBlock

/-! The iteration over a directory that keeps to its direct blocks, when no operation on the
device or the heap fails: what it takes for the blocks to show the records of a directory, and
how the loop over them runs for each of the record functions. -/
namespace Os0

open Bytes Mem RecordMap Function List Option Cmd DirState

/-- Every operation on the device and the heap succeeds. -/
def Ext2Filesystem.Quiet (fs : Ext2Filesystem) : Prop := ∀ n, fs.fault n = none

theorem Ext2Filesystem.Quiet.congr {fs t : Ext2Filesystem} (h : fs.Quiet)
    (same : t.fault = fs.fault) : t.Quiet :=
  fun n => (congrFun same n).trans (h n)

/-! ## Single operations -/

open Os0.Geometry

section

variable {fs : Ext2Filesystem} {b : Nat}

theorem deviceOp_quiet (quiet : fs.Quiet) :
    deviceOp fs = (.ok (), { fs with ops := fs.ops + 1 }) := by
  unfold deviceOp
  rw [quiet]

theorem kmallocOp_quiet (quiet : fs.Quiet) :
    kmallocOp fs = (.ok (), { fs with ops := fs.ops + 1 }) := by
  unfold kmallocOp
  rw [quiet]

theorem ext2ReadBlock_quiet (quiet : fs.Quiet) (sound : fs.geo.Sound)
    (hb : b < fs.geo.blocksCount) :
    ext2ReadBlock b fs = (.ok (fs.byte b), { fs with ops := fs.ops + 1 }) := by
  refine (bind_ok (deviceOp_quiet quiet)).trans ?_
  change (Except.ok fun i => fs.dev (fs.geo.offsetOf b + i), _) = _
  rw [offsetOf_eq sound hb]
  rfl

theorem ext2WriteBlock_quiet (quiet : fs.Quiet) (sound : fs.geo.Sound)
    (hb : b < fs.geo.blocksCount) (buffer : Mem) :
    ext2WriteBlock buffer b fs = (.ok (), { fs.store b buffer with ops := fs.ops + 1 }) := by
  refine (bind_ok (deviceOp_quiet quiet)).trans ?_
  change (Except.ok (), { fs with
    ops := fs.ops + 1, dev := storeBytes fs.dev (fs.geo.offsetOf b) fs.geo.blksize buffer }) = _
  rw [offsetOf_eq sound hb]
  rfl

end

/-! ## The loop over the direct blocks -/

section

variable {σ : Type} {append : Bool} {func : BlockFunc σ} {left i : Nat} {ret bits : BlockBits}
  {c : BlockContext σ} {t : DirState σ}

theorem visit_slot {n : Int} (narrow : c.state.blockAt i < 4294967296)
    (call : func (c.state.blockAt i) n c.state = (bits, c.state.blockAt i, t))
    (same : t.dir = c.state.dir) : c.visit func (.slot i) n = (bits, { c with state := t }) := by
  have put : t.setBlock i (c.state.blockAt i) = t := by
    obtain ⟨_, dir, _⟩ := t
    obtain rfl : dir = c.state.dir := same
    unfold setBlock blockAt VfsInode.setInode Ext2Inode.setBlock
    simp only [update_eq_self]
  unfold BlockContext.visit BlockRef.get
  rw [call]
  simp only [BlockRef.put, Nat.mod_eq_of_lt narrow, put]

theorem iterateDirect_hole (hole : c.state.blockAt i = 0) :
    iterateDirect false func (left + 1) i ret c =
      iterateDirect false func left (i + 1) ret { c with blkcnt := c.blkcnt + 1 } := by
  rw [iterateDirect, if_neg (by simp [hole])]

section

variable (there : c.state.blockAt i ≠ 0) (narrow : c.state.blockAt i < 4294967296)
  (call : func (c.state.blockAt i) c.blkcnt c.state = (bits, c.state.blockAt i, t))
  (same : t.dir = c.state.dir)
include there narrow call same

theorem iterateDirect_next (continues : (ret.or bits).abort = false) :
    iterateDirect append func (left + 1) i ret c =
      iterateDirect append func left (i + 1) (ret.or bits)
        { c with state := t, blkcnt := c.blkcnt + 1 } := by
  rw [iterateDirect, if_pos (.inl there), visit_slot narrow call same]
  simp only [continues, Bool.false_eq_true, if_false]

theorem iterateDirect_stop (stops : (ret.or bits).abort = true) :
    iterateDirect append func (left + 1) i ret c = (ret.or bits, { c with state := t }) := by
  rw [iterateDirect, if_pos (.inl there), visit_slot narrow call same]
  simp only [stops, if_true]

end

/-- The slots behind the direct blocks are empty. -/
def Ext2Inode.DirectOnly (inode : Ext2Inode) : Prop :=
  inode.block EXT2_IND_BLOCK = 0 ∧ inode.block EXT2_DIND_BLOCK = 0 ∧
    inode.block EXT2_TIND_BLOCK = 0

theorem ext2BlockIterate_eq {readOnly : Bool} {s : DirState σ} {r : BlockBits × BlockContext σ}
    (quiet : s.fs.Quiet) (mapped : BlockMapped s.dir.file.inode)
    (all : iterateAll append readOnly func
      ⟨{ s with fs := { s.fs with ops := s.fs.ops + 1 } }, s.fs.heap s.fs.ops, 0, none⟩ = r) :
    ext2BlockIterate append readOnly func s = iterateResult r.1 r.2 := by
  unfold ext2BlockIterate
  rw [if_neg (by simp [mapped.inline]), onFs, kmallocOp_quiet quiet]
  simp only [mapped.extents, Bool.false_eq_true, if_false, all]

/-- An iteration that ends among the direct blocks. -/
theorem ext2BlockIterate_abort {readOnly changed : Bool} {s : DirState σ} (quiet : s.fs.Quiet)
    (mapped : BlockMapped s.dir.file.inode)
    (loop : iterateDirect append func EXT2_NDIR_BLOCKS 0 .none
      ⟨{ s with fs := { s.fs with ops := s.fs.ops + 1 } }, s.fs.heap s.fs.ops, 0, none⟩ =
        (⟨changed, true, false⟩, c)) :
    ext2BlockIterate append readOnly func s =
      if changed then
        onFs (ext2UpdateInode c.state.dir.ino c.state.dir.file.inode) c.state
      else (.ok (), c.state) := by
  rw [ext2BlockIterate_eq quiet mapped rfl, iterateAll, loop]
  simp only [if_true, iterateResult, Bool.false_eq_true, if_false]

/-- Without indirect blocks the iteration is the loop over the direct blocks; a change writes
the inode back. -/
theorem ext2BlockIterate_direct {s : DirState σ} (quiet : s.fs.Quiet)
    (mapped : BlockMapped s.dir.file.inode)
    (loop : iterateDirect false func EXT2_NDIR_BLOCKS 0 .none
      ⟨{ s with fs := { s.fs with ops := s.fs.ops + 1 } }, s.fs.heap s.fs.ops, 0, none⟩ = (ret, c))
    (error : ret.error = false) (direct : c.state.dir.file.inode.DirectOnly) :
    ext2BlockIterate false true func s =
      if ret.changed then
        onFs (ext2UpdateInode c.state.dir.ino c.state.dir.file.inode) c.state
      else (.ok (), c.state) := by
  obtain ⟨changed, abort, _⟩ := ret
  cases error
  cases abort with
  | true => exact ext2BlockIterate_abort quiet mapped loop
  | false =>
    rw [ext2BlockIterate_eq quiet mapped rfl, iterateAll, loop]
    obtain ⟨ind, dind, tind⟩ := direct
    cases changed with
    | true => simp [iterateResult, BlockBits.or]
    | false => simp [iterateResult, iterateSlot, blockAt, ind, dind, tind]

end

/-! ## Directories -/

/-- The direct blocks in `slots` show the records `content`, and no block is in two slots. -/
structure Shown (g : Geometry) (dev : Mem) (slots : Nat → Nat)
    (content : Nat → List DirRecord) : Prop where
  inside : ∀ k < EXT2_NDIR_BLOCKS, slots k < g.blocksCount
  hole : ∀ k < EXT2_NDIR_BLOCKS, slots k = 0 → content k = []
  records : ∀ k < EXT2_NDIR_BLOCKS, slots k ≠ 0 →
    Records g.blksize (fun i => dev (slots k * g.blksize + i)) 0 (content k) g.blksize
  apart : ∀ j < EXT2_NDIR_BLOCKS, ∀ k < EXT2_NDIR_BLOCKS, slots j ≠ 0 → slots j = slots k → j = k

/-- The entries in `left` blocks from block `i` on. -/
def listingFrom (content : Nat → List DirRecord) : Nat → Nat → List (List UInt8 × Nat)
  | 0, _ => []
  | left + 1, i => entries (content i) ++ listingFrom content left (i + 1)

/-- The entries of a directory. -/
def listing (content : Nat → List DirRecord) : List (List UInt8 × Nat) :=
  listingFrom content EXT2_NDIR_BLOCKS 0

section

variable {g : Geometry} {dev dev' : Mem} {slots : Nat → Nat} {content : Nat → List DirRecord}

theorem storeBytes_self {a len i : Nat} {buffer : Mem} (hi : i < len) :
    storeBytes dev a len buffer (a + i) = buffer i := by
  unfold storeBytes
  rw [if_pos (by omega), Nat.add_sub_cancel_left]

theorem storeBytes_off {a len x : Nat} {buffer : Mem} (off : x < a ∨ a + len ≤ x) :
    storeBytes dev a len buffer x = dev x := by
  unfold storeBytes
  rw [if_neg (by omega)]

theorem Shown.congr (h : Shown g dev slots content)
    (bytes : ∀ k < EXT2_NDIR_BLOCKS, slots k ≠ 0 → ∀ i < g.blksize,
      dev' (slots k * g.blksize + i) = dev (slots k * g.blksize + i)) :
    Shown g dev' slots content where
  inside := h.inside
  hole := h.hole
  records k hk there := (h.records k hk there).congr fun i _ hi => bytes k hk there i hi
  apart := h.apart

end

/-! ## One block -/

section

variable {σ : Type} {empty abort : Bool} {func : DirentFunc σ} {s : DirState (DirContext σ)}
  {t : DirState σ} {b : Nat} {n : Int} {last : DirentBits} {buffer : Mem}

theorem processDirBlock_kept (quiet : s.fs.Quiet) (sound : s.fs.geo.Sound)
    (hb : b < s.fs.geo.blocksCount)
    (scan : scanBlock empty func s.fs.geo.blksize s.fs.geo.blksize 0 .none false (s.fs.byte b)
      ⟨{ s.fs with ops := s.fs.ops + 1 }, s.dir, s.priv.priv⟩ = .ends last false abort buffer t) :
    ext2ProcessDirBlock empty func b n s =
      (⟨last.changed, last.abort || abort, false⟩, b, t.outer none) := by
  unfold ext2ProcessDirBlock onFs
  rw [ext2ReadBlock_quiet quiet sound hb]
  simp only [DirState.inner]
  rw [scan]
  simp

theorem processDirBlock_written (quiet : s.fs.Quiet) (sound : s.fs.geo.Sound)
    (hb : b < s.fs.geo.blocksCount)
    (scan : scanBlock empty func s.fs.geo.blksize s.fs.geo.blksize 0 .none false (s.fs.byte b)
      ⟨{ s.fs with ops := s.fs.ops + 1 }, s.dir, s.priv.priv⟩ = .ends last true abort buffer t)
    (quiet' : t.fs.Quiet) (geo : t.fs.geo = s.fs.geo) :
    ext2ProcessDirBlock empty func b n s =
      (⟨last.changed, last.abort || abort, false⟩, b,
        ⟨{ t.fs.store b buffer with ops := t.fs.ops + 1 }, t.dir, ⟨none, t.priv⟩⟩) := by
  unfold ext2ProcessDirBlock onFs
  rw [ext2ReadBlock_quiet quiet sound hb]
  simp only [DirState.inner]
  rw [scan]
  simp only [if_true]
  rw [ext2WriteBlock_quiet quiet' (geo ▸ sound) (geo ▸ hb)]
  rfl

end

/-! ## One iteration -/

section

variable {σ : Type} {empty changed abort : Bool} {func : DirentFunc σ}
  {fs fs' u : Ext2Filesystem} {dir dir' : VfsInode} {priv priv' : σ} {buffers : Mem} {m : Int}

/-- Without indirect blocks an iteration over the records is the loop over the direct blocks.
After a change the inode is written back. -/
theorem ext2DirIterate_direct (quiet : fs.Quiet) (type : isType dir.mode S_IFDIR = true)
    (mapped : BlockMapped dir.file.inode)
    (loop : iterateDirect false (ext2ProcessDirBlock empty func) EXT2_NDIR_BLOCKS 0 .none
      ⟨⟨{ fs with ops := fs.ops + 2 }, dir, ⟨none, priv⟩⟩, fs.heap (fs.ops + 1), 0, none⟩ =
        (⟨changed, abort, false⟩, ⟨⟨fs', dir', ⟨none, priv'⟩⟩, buffers, m, none⟩))
    (direct : dir'.file.inode.DirectOnly)
    (update : if changed then ext2UpdateInode dir'.ino dir'.file.inode fs' = (.ok (), u)
      else u = fs') :
    ext2DirIterate empty func ⟨fs, dir, priv⟩ = (.ok (), ⟨u, dir', priv'⟩) := by
  have iterate := @ext2BlockIterate_direct _ (ext2ProcessDirBlock empty func) _ _
    ⟨{ fs with ops := fs.ops + 1 }, dir, ⟨none, priv⟩⟩ quiet mapped loop rfl direct
  unfold ext2DirIterate
  rw [if_neg (by simp [type]), onFs, kmallocOp_quiet quiet]
  simp only [outer]
  rw [iterate]
  cases changed with
  | true =>
    rw [onFs, update]
    rfl
  | false =>
    rw [update]
    rfl

theorem iterateRecords_run {t : DirState σ}
    (iterate : ext2DirIterate empty func ⟨fs, dir, priv⟩ = (.ok (), t)) :
    iterateRecords empty func priv ⟨fs, dir⟩ = (.ok t.priv, ⟨t.fs, t.dir⟩) := by
  have run : (ext2DirIterate empty func >>= fun _ => Cmd.get >>= fun t => pure t.priv)
      ⟨fs, dir, priv⟩ = (.ok t.priv, t) := (bind_ok iterate).trans rfl
  exact zoom_run run

end

/-! ## Searching -/

section

variable {fs : Ext2Filesystem} {dir : VfsInode} {content : Nat → List DirRecord}
  {left i : Nat} {buffers : Mem} {m : Int}

theorem Shown.narrow {slots : Nat → Nat} (shown : Shown fs.geo fs.dev slots content)
    (sound : fs.geo.Sound) (hi : i < EXT2_NDIR_BLOCKS) : slots i < 4294967296 :=
  lt_of_lt_of_le (shown.inside i hi) sound.count_le

/-- A function that only reads: `hit i` is what it finds in block `i`, and `outcome left i` what it
finds first in `left` blocks from block `i` on. -/
structure Searches {σ : Type} (fs : Ext2Filesystem) (dir : VfsInode)
    (content : Nat → List DirRecord) (empty : Bool) (func : DirentFunc σ) (p : σ)
    (hit : Nat → Option σ) (outcome : Nat → Nat → Option σ) : Prop where
  start : ∀ i, outcome 0 i = none
  step : ∀ left i, outcome (left + 1) i = (hit i).or (outcome left (i + 1))
  holes : ∀ i, content i = [] → hit i = none
  scan : ∀ i n, Records fs.geo.blksize (fs.byte (dir.file.inode.block i)) 0 (content i)
      fs.geo.blksize →
    scanBlock empty func fs.geo.blksize fs.geo.blksize 0 .none false
      (fs.byte (dir.file.inode.block i)) ⟨{ fs with ops := n }, dir, p⟩ =
        .ends ⟨false, (hit i).isSome⟩ false (hit i).isSome (fs.byte (dir.file.inode.block i))
          ⟨{ fs with ops := n }, dir, (hit i).getD p⟩

theorem iterate_search {σ : Type} {empty : Bool} {func : DirentFunc σ} {p : σ} {k : Nat}
    {hit : Nat → Option σ} {outcome : Nat → Nat → Option σ} (quiet : fs.Quiet)
    (sound : fs.geo.Sound) (shown : Shown fs.geo fs.dev dir.file.inode.block content)
    (search : Searches fs dir content empty func p hit outcome)
    (upto : i + left ≤ EXT2_NDIR_BLOCKS) :
    ∃ n m', iterateDirect false (ext2ProcessDirBlock empty func) left i .none
      ⟨⟨{ fs with ops := k }, dir, ⟨none, p⟩⟩, buffers, m, none⟩ =
        (⟨false, (outcome left i).isSome, false⟩,
          ⟨⟨{ fs with ops := n }, dir, ⟨none, (outcome left i).getD p⟩⟩, buffers, m', none⟩) := by
  induction left generalizing i k m with
  | zero => exact ⟨k, m, by rw [search.start]; rfl⟩
  | succ left ih =>
    have hi : i < EXT2_NDIR_BLOCKS := by omega
    rw [search.step]
    by_cases hole : dir.file.inode.block i = 0
    · obtain ⟨n, m', result⟩ := @ih (i + 1) (m + 1) k (by omega)
      rw [search.holes i (shown.hole i hi hole), none_or]
      exact ⟨n, m', Eq.trans (iterateDirect_hole hole) result⟩
    · have scanned := search.scan i (k + 1) (shown.records i hi hole)
      have call := @processDirBlock_kept _ _ _ _ ⟨{ fs with ops := k }, dir, ⟨none, p⟩⟩ _ _ m _ _
        quiet sound (shown.inside i hi) scanned
      cases found : hit i with
      | some q =>
        rw [found] at call
        exact ⟨k + 1, m, Eq.trans
          (iterateDirect_stop hole (shown.narrow sound hi) call rfl rfl) rfl⟩
      | none =>
        rw [found] at call
        obtain ⟨n, m', result⟩ := @ih (i + 1) (m + 1) (k + 1) (by omega)
        exact ⟨n, m', Eq.trans
          (iterateDirect_next hole (shown.narrow sound hi) call rfl rfl) result⟩

/-! ## Looking for entries besides `.` and `..` -/

/-- All records in `left` blocks from block `i` on are `.` or `..`. -/
def dotsFrom (bytes : Nat → Mem) (content : Nat → List DirRecord) : Nat → Nat → Bool
  | 0, _ => true
  | left + 1, i =>
    (offsets 0 (content i)).all (isDots (bytes i)) && dotsFrom bytes content left (i + 1)

end

end Os0
