import Os0.Fs.Ext2.DirMap

/-! When `ext2_unlink_dirent` removes an entry. Whether the entry of a directory can go is
asked of the directory that holds the entry, so it can only if that one has nothing but `.` and
`..` in it. -/
namespace Os0

open Bytes Mem RecordMap Function Option

/-- The blocks of a directory. -/
def DirBlocks (slots : Nat → Nat) (b : Nat) : Prop :=
  ∃ k < EXT2_NDIR_BLOCKS, slots k ≠ 0 ∧ slots k = b

/-- All records of the directory are `.` or `..`. -/
def OnlyDots (fs : Ext2Filesystem) (dir : VfsInode) (content : Nat → List DirRecord) : Bool :=
  dotsFrom (fun k => fs.byte (dir.file.inode.block k)) content EXT2_NDIR_BLOCKS 0

/-- The entry of inode `ino` can be removed: no directory, or `.` and `..` only. -/
def Removable (fs : Ext2Filesystem) (dir : VfsInode) (content : Nat → List DirRecord)
    (ino : Nat) : Prop :=
  isType (fs.inodes ino).mode S_IFDIR = false ∨ OnlyDots fs dir content = true

/-- What the removal of the last link to `ino` needs: the blocks of pointers of that inode lie in
the file system, and none of them is a block of the directory. -/
def TargetApart (fs : Ext2Filesystem) (dir : VfsInode) (ino : Nat) : Prop :=
  (fs.inodes ino).lastLink = true →
    ClearInode (DirBlocks dir.file.inode.block) fs (fs.inodes ino).block

section

variable {fs t : Ext2Filesystem} {dir : VfsInode} {content : Nat → List DirRecord}
  {name : List UInt8} {ino left i : Nat} {buffers : Mem} {m : Int}

theorem Shown.shrinks (shown : Shown fs.geo fs.dev dir.file.inode.block content)
    (h : Shrinks (DirBlocks dir.file.inode.block) fs t) :
    Shown t.geo t.dev dir.file.inode.block content := by
  rw [h.stays.geo]
  apply shown.congr
  intro k hk there j hj
  have kept := h.kept _ ⟨k, hk, there, rfl⟩ j hj
  unfold Ext2Filesystem.byte at kept
  rw [h.stays.geo] at kept
  exact kept

section

variable (ok : DirOk fs dir content)
include ok

theorem DirOk.shrinks
    (h : Shrinks (DirBlocks dir.file.inode.block) fs t) : DirOk t dir content where
  quiet n := (congrFun h.stays.fault n).trans (ok.quiet n)
  sound := h.stays.geo ▸ ok.sound
  type := ok.type
  mapped := ok.mapped
  direct := ok.direct
  shown := ok.shown.shrinks h

theorem checkEmpty_run :
    ∃ n, ext2DirIterate true ext2CheckEmpty ⟨fs, dir, true⟩ =
      (.ok (), ⟨{ fs with ops := n }, dir, OnlyDots fs dir content⟩) := by
  let dots left i := dotsFrom (fun k => fs.byte (dir.file.inode.block k)) content left i
  let block i := (offsets 0 (content i)).all (isDots (fs.byte (dir.file.inode.block i)))
  have search : Searches fs dir content true ext2CheckEmpty true
      (fun i => if block i then none else some false)
      fun left i => if dots left i then none else some false := by
    constructor
    case start => exact fun _ => rfl
    case step =>
      intro left i
      have step : dots (left + 1) i = (block i && dots left (i + 1)) := rfl
      rw [step]
      cases block i <;> rfl
    case holes =>
      intro i hole
      simp [block, hole, offsets]
    case scan =>
      intro i n recs
      rw [scan_empty recs (Nat.le_of_eq (Nat.zero_add _).symm)]
      split <;> rfl
  obtain ⟨n, run⟩ := search_run ok search
  refine ⟨n, run.trans ?_⟩
  have outcome : OnlyDots fs dir content = dots EXT2_NDIR_BLOCKS 0 := rfl
  rw [outcome]
  cases dots EXT2_NDIR_BLOCKS 0 <;> rfl

theorem releaseEntry_run {σ : Type} (inode : InodeOk fs ino)
    (cache : CacheOk fs) (apart : TargetApart fs dir ino) (q : σ) :
    ∃ goes t, releaseEntry ino (⟨fs, dir, q⟩ : DirState σ) = (goes, ⟨t, dir, q⟩) ∧
      (goes = true ↔ Removable fs dir content ino) ∧
      Shrinks (DirBlocks dir.file.inode.block) fs t ∧ (goes = false → Recached fs t) := by
  obtain ⟨fs₁, read, cached, -⟩ := ext2ReadInode_quiet ok.quiet inode cache
  have first : Shrinks (DirBlocks dir.file.inode.block) fs fs₁ := by
    have untouched := (ext2ReadInode_untouched fs ino).of_run read
    exact Untouched.shrinks untouched
  have dropped : ∀ {t}, Shrinks (DirBlocks dir.file.inode.block) fs t →
      Shrinks (DirBlocks dir.file.inode.block) fs (dropLink ino (fs.inodes ino) t) := by
    intro t step
    refine step.trans (dropLink_shrinks (step.stays.geo ▸ ok.sound) ino fun last L => ?_)
    exact (apart last L).shrinks step
  unfold releaseEntry DirState.onFs Removable
  rw [read]
  dsimp only
  cases type : isType (fs.inodes ino).mode S_IFDIR with
  | false =>
    exact ⟨true, _, if_neg Bool.false_ne_true, iff_of_true rfl (.inl rfl), dropped first, nofun⟩
  | true =>
    obtain ⟨n, empty⟩ := checkEmpty_run (ok.shrinks first)
    have same : OnlyDots fs₁ dir content = OnlyDots fs dir content := by
      obtain ⟨n, c, k, rfl⟩ := cached
      rfl
    rw [same] at empty
    have second : Shrinks (DirBlocks dir.file.inode.block) fs { fs₁ with ops := n } :=
      first.trans (Untouched.shrinks (Idle.untouched ⟨n, rfl⟩))
    rw [if_pos rfl, empty]
    cases dots : OnlyDots fs dir content with
    | true => exact ⟨true, _, if_pos rfl, iff_of_true rfl (.inr rfl), dropped second, nofun⟩
    | false =>
      refine ⟨false, _, if_neg Bool.false_ne_true, iff_of_false nofun ?_, second, fun _ => ?_⟩
      · rintro (no | no)
        · cases no
        · cases no
      · obtain ⟨n, c, k, rfl⟩ := cached
        exact ⟨_, _, _, rfl⟩

end

/-- What comes of the removal of the entry of inode `ino`: if it stays, nothing has changed. -/
structure Unlinked (fs t : Ext2Filesystem) (dir : VfsInode) (ino : Nat)
    (content : Nat → List DirRecord) (goes : Bool) : Prop where
  removable : goes = true ↔ Removable fs dir content ino
  stays : Stays fs t
  kept : goes = false → Recached fs t

/-- What the loop reports. -/
def unlinkReport (goes : Bool) (prev : Nat) : UnlinkState :=
  if goes then ⟨prev, true, none⟩ else ⟨prev, false, some (.call .ENOTEMPTY)⟩

theorem unlink_scan {k : Nat} (p : Nat) (ok : DirOk fs dir content) (hk : k < EXT2_NDIR_BLOCKS)
    (there : dir.file.inode.block k ≠ 0) (name : List UInt8) :
    Unlinks (fs.byte (dir.file.inode.block k)) name (content k)
      ⟨{ fs with ops := fs.ops + 1 }, dir, ⟨p, false, none⟩⟩
      (scanBlock true (ext2ProcessUnlink name) fs.geo.blksize fs.geo.blksize 0 .none false
        (fs.byte (dir.file.inode.block k)) ⟨{ fs with ops := fs.ops + 1 }, dir, ⟨p, false, none⟩⟩) :=
  scan_unlink (ok.shown.records k hk there) (Nat.le_add_left _ _)

theorem block_unlink {k p : Nat} (n : Int) (ok : DirOk fs dir content) (inode : InodeOk fs ino)
    (cache : CacheOk fs) (apart : TargetApart fs dir ino) (hk : k < EXT2_NDIR_BLOCKS)
    (there : dir.file.inode.block k ≠ 0) (found : find name (entries (content k)) = some ino) :
    ∃ goes t p', ext2ProcessDirBlock true (ext2ProcessUnlink name) (dir.file.inode.block k) n
        ⟨fs, dir, ⟨none, ⟨p, false, none⟩⟩⟩ =
      (⟨goes, true, false⟩, dir.file.inode.block k, ⟨t, dir, ⟨none, unlinkReport goes p'⟩⟩) ∧
      Unlinked fs t dir ino content goes := by
  have scan := unlink_scan p ok hk there name
  have idle : Idle fs { fs with ops := fs.ops + 1 } := ⟨_, rfl⟩
  have ok₁ : DirOk { fs with ops := fs.ops + 1 } dir content := { ok with }
  have apart₁ : TargetApart { fs with ops := fs.ops + 1 } dir ino :=
    fun last L => (apart last L).shrinks (Untouched.shrinks idle.untouched)
  obtain ⟨goes, t, release, removable, shrinks, kept⟩ := releaseEntry_run ok₁
    (inode.stays idle.keeps.toStays) (cache.congr rfl rfl) apart₁ (⟨p, false, none⟩ : UnlinkState)
  have removable : goes = true ↔ Removable fs dir content ino := removable
  have stays : Stays fs t := idle.keeps.toStays.trans shrinks.stays
  have hb := ok.shown.inside k hk
  unfold Unlinks at scan
  rw [found] at scan
  dsimp only at scan
  rw [release] at scan
  cases goes with
  | true =>
    obtain ⟨_, p', scan⟩ := scan
    have quiet : t.Quiet := ok.quiet.congr stays.fault
    have call := @processDirBlock_written UnlinkState _ _ _ ⟨fs, dir, ⟨none, ⟨p, false, none⟩⟩⟩ _ _
      n _ _ ok.quiet ok.sound hb scan quiet stays.geo
    refine ⟨true, _, p', call, removable, ?_, nofun⟩
    exact stays.trans ((keeps_store t _ _).trans (Idle.keeps ⟨_, rfl⟩)).toStays
  | false =>
    obtain ⟨p', scan⟩ := scan
    have call := @processDirBlock_kept UnlinkState _ _ _ ⟨fs, dir, ⟨none, ⟨p, false, none⟩⟩⟩ _ _
      n _ _ ok.quiet ok.sound hb scan
    exact ⟨false, t, p', call, removable, stays, kept⟩

theorem iterate_unlink {p : Nat} (ok : DirOk fs dir content) (inode : InodeOk fs ino)
    (cache : CacheOk fs) (apart : TargetApart fs dir ino) (upto : i + left ≤ EXT2_NDIR_BLOCKS)
    (found : find name (listingFrom content left i) = some ino) :
    ∃ goes t p' m', iterateDirect false (ext2ProcessDirBlock true (ext2ProcessUnlink name)) left i .none
        ⟨⟨fs, dir, ⟨none, ⟨p, false, none⟩⟩⟩, buffers, m, none⟩ =
      (⟨goes, true, false⟩, ⟨⟨t, dir, ⟨none, unlinkReport goes p'⟩⟩, buffers, m', none⟩) ∧
      Unlinked fs t dir ino content goes := by
  induction left generalizing i fs m p with
  | zero => cases found
  | succ left ih =>
    have hi : i < EXT2_NDIR_BLOCKS := by omega
    rw [listingFrom, find_append] at found
    by_cases hole : dir.file.inode.block i = 0
    · rw [ok.shown.hole i hi hole] at found
      obtain ⟨goes, t, p', m', result, after⟩ :=
        @ih fs (i + 1) (m + 1) p ok inode cache apart (by omega) found
      exact ⟨goes, t, p', m', Eq.trans (iterateDirect_hole hole) result, after⟩
    · have narrow := ok.shown.narrow ok.sound hi
      cases here : find name (entries (content i)) with
      | some =>
        rw [here, some_or] at found
        cases found
        obtain ⟨goes, t, p', call, after⟩ :=
          @block_unlink fs dir content name ino i p m ok inode cache apart hi hole here
        exact ⟨goes, t, p', m, Eq.trans (iterateDirect_stop hole narrow call rfl rfl) rfl, after⟩
      | none =>
        rw [here, none_or] at found
        have scan := unlink_scan p ok hi hole name
        unfold Unlinks at scan
        rw [here] at scan
        obtain ⟨q, scan⟩ := scan
        have call := @processDirBlock_kept UnlinkState _ _ _ ⟨fs, dir, ⟨none, ⟨p, false, none⟩⟩⟩
          _ _ m _ _ ok.quiet ok.sound (ok.shown.inside i hi) scan
        have idle : Idle fs { fs with ops := fs.ops + 1 } := ⟨_, rfl⟩
        obtain ⟨goes, t, p', m', result, unlinked⟩ :=
          @ih { fs with ops := fs.ops + 1 } (i + 1) (m + 1) q { ok with }
            (inode.stays idle.keeps.toStays) (cache.congr rfl rfl)
            (fun last L => (apart last L).shrinks (Untouched.shrinks idle.untouched)) (by omega) found
        exact ⟨goes, t, p', m', Eq.trans (iterateDirect_next hole narrow call rfl rfl) result,
          unlinked.removable, idle.keeps.toStays.trans unlinked.stays, unlinked.kept⟩

/-- How `ext2_unlink_dirent` ends for a directory that has the entry. -/
theorem ext2UnlinkDirent_run (ok : DirOk fs dir content) (writable : DirWritable fs dir)
    (inode : InodeOk fs ino) (apart : TargetApart fs dir ino)
    (found : find name (listing content) = some ino) :
    ∃ goes t, (goes = true ↔ Removable fs dir content ino) ∧
      ext2UnlinkDirent name ⟨fs, dir⟩ =
        (if goes then .ok () else .error (.call .ENOTEMPTY), ⟨t, dir⟩) ∧
      (goes = false → Recached fs t) := by
  have idle : Idle fs { fs with ops := fs.ops + 2 } := ⟨_, rfl⟩
  obtain ⟨goes, t, p, m, loop, unlinked⟩ :=
    @iterate_unlink { fs with ops := fs.ops + 2 } dir content name ino EXT2_NDIR_BLOCKS 0
      (fs.heap (fs.ops + 1)) 0 0 { ok with }
      (inode.stays idle.keeps.toStays) (writable.cache.congr rfl rfl)
      (fun last L => (apart last L).shrinks (Untouched.shrinks idle.untouched)) (by omega) found
  have stays : Stays fs t := idle.keeps.toStays.trans unlinked.stays
  have quiet : t.Quiet := ok.quiet.congr stays.fault
  have update : ∃ u, if goes then ext2UpdateInode dir.ino dir.file.inode t = (.ok (), u)
      else u = t := by
    cases goes with
    | true =>
      exact ext2UpdateInode_returns quiet (writable.inode.stays stays)
        (stays.geo ▸ writable.writable) dir.file.inode
    | false => exact ⟨t, rfl⟩
  obtain ⟨u, written⟩ := update
  have iterate := ext2DirIterate_direct ok.quiet ok.type ok.mapped loop ok.direct written
  have run : ext2UnlinkDirent name ⟨fs, dir⟩ =
      (if goes then .ok () else .error (.call .ENOTEMPTY), ⟨u, dir⟩) := by
    unfold ext2UnlinkDirent
    rw [Cmd.get_bind, if_neg (by simp [writable.writable]),
      Cmd.bind_ok (iterateRecords_run iterate)]
    cases goes with
    | true => rfl
    | false => rfl
  refine ⟨goes, u, unlinked.removable, run, ?_⟩
  rintro rfl
  obtain rfl : u = t := written
  exact unlinked.kept rfl

end

end Os0
