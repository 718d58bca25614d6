import Os0.Fs.Ext2.DirIterate
import Os0.Fs.Ext2.Release

/-! Directories that keep to their direct blocks, on a file system whose operations succeed: the
inodes they need, and searching them. -/
namespace Os0

open Bytes Mem RecordMap Cmd

/-! ## The inode table when nothing fails -/

section

variable {fs : Ext2Filesystem} {ino : Nat}

section

variable (quiet : fs.Quiet) (ok : InodeOk fs ino)
include quiet ok

theorem ext2ReadInode_returns : ∃ inode t, ext2ReadInode ino fs = (.ok inode, t) := by
  unfold ext2ReadInode
  rw [get_bind, if_neg (by have := ok.pos; have := ok.count; omega)]
  cases fs.icache.find? fun e => e.1 = ino with
  | some e => exact ⟨e.2, fs, rfl⟩
  | none =>
    rw [if_neg (not_lt.2 ok.group), if_neg (by simp [ok.table])]
    exact ⟨_, _, (bind_ok (deviceOp_quiet quiet)).trans rfl⟩

theorem ext2ReadInode_quiet (cache : CacheOk fs) :
    ∃ t, ext2ReadInode ino fs = (.ok (fs.inodes ino), t) ∧ Recached fs t ∧ CacheOk t := by
  obtain ⟨_, t, run⟩ := ext2ReadInode_returns quiet ok
  obtain ⟨rfl, cached, ok'⟩ := (ext2ReadInode_ends ok cache).of_run run
  exact ⟨t, run, cached, ok'⟩

theorem ext2UpdateInode_returns (writable : hasFlag fs.geo.mntflags MS_RDONLY = false)
    (inode : Ext2Inode) : ∃ t, ext2UpdateInode ino inode fs = (.ok (), t) := by
  have ok' : InodeOk { fs with ops := fs.ops + 1 } ino := ok.stays (Idle.keeps ⟨_, rfl⟩).toStays
  have large : ∃ t, Cmd.when (128 < fs.geo.inodeSize) (ext2ReadInode ino >>= fun _ => pure ())
      { fs with ops := fs.ops + 1 } = (.ok (), t) ∧ t.Quiet := by
    unfold Cmd.when
    split
    · obtain ⟨inode, t, run⟩ := @ext2ReadInode_returns { fs with ops := fs.ops + 1 } ino quiet ok'
      refine ⟨t, (bind_ok run).trans rfl, fun n => ?_⟩
      have untouched := (ext2ReadInode_untouched { fs with ops := fs.ops + 1 } ino).of_run run
      rw [untouched.fault]
      exact quiet n
    · exact ⟨_, rfl, quiet⟩
  obtain ⟨t, run, quiet'⟩ := large
  have device : ∀ (u : Ext2Filesystem) (f : Ext2Filesystem → Ext2Filesystem), u.Quiet →
      ∃ v, (deviceOp >>= fun _ => deviceOp >>= fun _ => Cmd.modify f) u = (.ok (), v) :=
    fun u f quiet => ⟨_, (bind_ok (deviceOp_quiet quiet)).trans
      ((bind_ok (@deviceOp_quiet { u with ops := u.ops + 1 } quiet)).trans rfl)⟩
  unfold ext2UpdateInode
  rw [get_bind, if_neg (by simp [writable]), bind_ok (kmallocOp_quiet quiet),
    bind_ok run, modify_bind, if_neg (by simp [ok.table])]
  exact device _ _ quiet'

end

end

/-! ## Directories -/

/-- A directory that keeps to its direct blocks, on a file system whose operations succeed. -/
structure DirOk (fs : Ext2Filesystem) (dir : VfsInode) (content : Nat → List DirRecord) :
    Prop where
  quiet : fs.Quiet
  sound : fs.geo.Sound
  type : isType dir.mode S_IFDIR = true
  mapped : BlockMapped dir.file.inode
  direct : dir.file.inode.DirectOnly
  shown : Shown fs.geo fs.dev dir.file.inode.block content

section

variable {fs : Ext2Filesystem} {dir : VfsInode} {content : Nat → List DirRecord}

theorem search_run {σ : Type} {empty : Bool} {func : DirentFunc σ} {p : σ}
    {hit : Nat → Option σ} {outcome : Nat → Nat → Option σ} (ok : DirOk fs dir content)
    (search : Searches fs dir content empty func p hit outcome) :
    ∃ n, ext2DirIterate empty func ⟨fs, dir, p⟩ =
      (.ok (), ⟨{ fs with ops := n }, dir, (outcome EXT2_NDIR_BLOCKS 0).getD p⟩) := by
  obtain ⟨n, m, loop⟩ := iterate_search ok.quiet ok.sound ok.shown search
    (Nat.le_of_eq (Nat.zero_add _))
  exact ⟨n, ext2DirIterate_direct ok.quiet ok.type ok.mapped loop ok.direct rfl⟩

/-- The inode of the directory can be written back. -/
structure DirWritable (fs : Ext2Filesystem) (dir : VfsInode) : Prop where
  writable : hasFlag fs.geo.mntflags MS_RDONLY = false
  inode : InodeOk fs dir.ino
  cache : CacheOk fs

end

end Os0
