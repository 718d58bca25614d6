import Os0.Fs.Ext2.DirUnlink
import Os0.Fs.Ext2.FreeBlocks

/-! Removing a directory (`ext2_rmdir`): when a directory goes that has nothing but `.` and `..`
in it, and no other. -/
namespace Os0

open Bytes Mem RecordMap List

/-- A directory in its direct blocks, on a file system of at most 4 GiB that can be written and
whose operations succeed. Every entry has an inode. -/
structure Directory (s : VfsState) (content : Nat → List DirRecord) : Prop where
  ok : DirOk s.fs s.inode content
  writable : DirWritable s.fs s.inode
  inodes : ∀ e ∈ listing content, InodeOk s.fs e.2

/-- Inode `ino` is a directory with the records `sub` in its direct blocks. -/
structure Subdirectory (fs : Ext2Filesystem) (ino : Nat) (sub : Nat → List DirRecord) : Prop where
  type : isType (fs.inodes ino).mode S_IFDIR = true
  direct : (fs.inodes ino).DirectOnly
  shown : Shown fs.geo fs.dev (fs.inodes ino).block sub

/-- There is nothing but `.` and `..` in a directory. -/
def Vacant (sub : Nat → List DirRecord) : Prop :=
  ∀ e ∈ listing sub, e.1 = [46] ∨ e.1 = [46, 46]

/-- What removing a directory with the records `sub` is to do. -/
structure RemovesDirectory (s : VfsState) (name : List UInt8) (sub : Nat → List DirRecord) :
    Prop where
  success : (ext2Rmdir name s).1 = .ok () ↔ Vacant sub
  failure : ¬Vacant sub → (ext2Rmdir name s).1 = .error (.call .ENOTEMPTY) ∧
    ∃ t, (ext2Rmdir name s).2 = ⟨t, s.inode⟩ ∧ Recached s.fs t

section

variable {s : VfsState} {content : Nat → List DirRecord} {name : List UInt8} {ino : Nat}

/-- A directory is removed as it should if it is as empty as the one that holds its entry. -/
theorem rmdir_iff {sub : Nat → List DirRecord} (h : Directory s content)
    (present : find name (listing content) = some ino) (target : Subdirectory s.fs ino sub)
    (apart : TargetApart s.fs s.inode ino) :
    RemovesDirectory s name sub ↔ (Vacant sub ↔ OnlyDots s.fs s.inode content = true) := by
  obtain ⟨fs, dir⟩ := s
  have inode : InodeOk fs ino := h.inodes (name, ino) (mem_of_find present)
  obtain ⟨goes, t, removable, run, kept⟩ :=
    ext2UnlinkDirent_run h.ok h.writable inode apart present
  have asked : goes = true ↔ OnlyDots fs dir content = true := by
    rw [removable, Removable, target.type]
    exact or_iff_right nofun
  rw [← asked]
  have run : ext2Rmdir name ⟨fs, dir⟩ = _ := run
  constructor
  · intro removes
    rw [← removes.success, run]
    cases goes with
    | true => exact iff_of_true rfl rfl
    | false => exact iff_of_false nofun nofun
  · intro same
    constructor
    case success =>
      rw [run, same]
      cases goes with
      | true => exact iff_of_true rfl rfl
      | false => exact iff_of_false nofun nofun
    case failure =>
      rw [run, same]
      intro refused
      obtain rfl : goes = false := Bool.eq_false_iff.2 refused
      exact ⟨rfl, t, rfl, kept rfl⟩

end

/-! ## A small directory -/

/-- A record with a name. -/
def putRecord (b : Mem) (o len ino : Nat) (name : List UInt8) : Mem :=
  setName (setNameLen (setRecLen (setInode b o ino) o len) o name.length) o name

/-- A block with `.`, `..`, the directories `d` and `e` and the file `f`. -/
def smallBlock : Mem :=
  putRecord (putRecord (putRecord (putRecord (putRecord (fun _ => 0) 0 12 2 [46]) 12 12 2 [46, 46])
    24 12 3 [100]) 36 12 5 [101]) 48 976 4 [102]

def smallRecords : List DirRecord :=
  [⟨12, some ([46], 2)⟩, ⟨12, some ([46, 46], 2)⟩, ⟨12, some ([100], 3)⟩, ⟨12, some ([101], 5)⟩,
    ⟨976, some ([102], 4)⟩]

/-- The block of `e`, with a file `g`. -/
def fullBlock : Mem :=
  putRecord (putRecord (putRecord (fun _ => 0) 0 12 5 [46]) 12 12 2 [46, 46]) 24 1000 4 [103]

def fullRecords : List DirRecord :=
  [⟨12, some ([46], 5)⟩, ⟨12, some ([46, 46], 2)⟩, ⟨1000, some ([103], 4)⟩]

/-- A directory of one block. -/
def oneBlock (rs : List DirRecord) (k : Nat) : List DirRecord := if k = 0 then rs else []

/-- The root directory has block 4; inode 3 is a directory without a block, inode 4 a file, and
inode 5 a directory with block 5. -/
def smallRoot : VfsState where
  fs :=
    { smallFilesystem with
      dev := storeBytes (storeBytes (fun _ => 0) 5120 1024 fullBlock) 4096 1024 smallBlock
      blockBitmap := ⟨1, 8, fun b => decide (b ≤ 5)⟩
      inodeBitmap := ⟨1, 8, fun ino => decide (ino ≤ 5)⟩
      inodes := fun ino =>
        { smallFilesystem.inodes ino with
          mode := if ino = 4 then S_IFREG else S_IFDIR
          linksCount := 2
          block := fun k => if ino = 2 ∧ k = 0 then 4 else if ino = 5 ∧ k = 0 then 5 else 0 } }
  inode :=
    { uid := 0
      gid := 0
      ino := 2
      nlink := 3
      size := 1024
      sectors := 2
      mode := S_IFDIR
      atime := 0
      mtime := 0
      ctime := 0
      file :=
        { inode :=
            { smallFilesystem.inodes 2 with
              linksCount := 3, size := 1024, block := fun k => if k = 0 then 4 else 0 }
          ino := 2
          pos := 0
          block := 0
          physblock := 0
          valid := false
          dirty := false
          buffer := fun _ => 0 } }

section

variable {b : Mem}

theorem recordAt_used {o len ino : Nat} {name : List UInt8}
    (facts : ext2GetRecLen 1024 (dRecLen b o) = len ∧
      (12 ≤ len ∧ len % 4 = 0 ∧ nameLength b o + 8 ≤ len) ∧
      dInode b o = ino ∧ ino ≠ 0 ∧ nameLength b o = name.length ∧
      name ≠ [] ∧ ∀ i < name.length, dName b o i = name.getD i 0) :
    RecordAt 1024 b o ⟨len, some (name, ino)⟩ := by
  obtain ⟨length, fits, inode, nonzero, named, some, bytes⟩ := facts
  refine ⟨length, fits.1, fits.2.1, fits.2.2, nofun, ?_⟩
  rintro _ _ ⟨⟩
  exact ⟨inode, nonzero, named, some, bytes⟩

/-- A directory of one block shows the records in it. -/
theorem oneBlock_shown {slots : Nat → Nat} {n : Nat} {rs : List DirRecord}
    (first : ∀ k, slots k = if k = 0 then n else 0) (there : 0 < n) (inside : n < 9)
    (stored : ∀ i < 1024, smallRoot.fs.dev (n * 1024 + i) = b i) (records : Records 1024 b 0 rs 1024) :
    Shown smallRoot.fs.geo smallRoot.fs.dev slots (oneBlock rs) := by
  have size : smallRoot.fs.geo.blksize = 1024 := by decide
  have only : ∀ k, slots k ≠ 0 → k = 0 := by
    intro k used
    rw [first] at used
    by_contra other
    exact used (if_neg other)
  constructor
  case inside =>
    intro k _
    rw [first]
    split
    · exact inside
    · decide
  case hole =>
    intro k _ hole
    rw [first] at hole
    split at hole
    · omega
    · exact if_neg ‹_›
  case records =>
    intro k _ used
    obtain rfl := only k used
    rw [first, if_pos rfl, size]
    exact records.congr fun i _ hi => stored i hi
  case apart =>
    intro j _ k _ used eq
    rw [only j used, only k (eq ▸ used)]

end

theorem smallRoot_shown : Shown smallRoot.fs.geo smallRoot.fs.dev
    smallRoot.inode.file.inode.block (oneBlock smallRecords) := by
  refine oneBlock_shown (fun _ => rfl) (by decide) (by decide)
    (fun i hi => storeBytes_self hi) (b := smallBlock) ?_
  exact ⟨recordAt_used (by decide +kernel), recordAt_used (by decide +kernel),
    recordAt_used (by decide +kernel), recordAt_used (by decide +kernel),
    recordAt_used (by decide +kernel), rfl⟩

theorem fullDirectory_shown : Shown smallRoot.fs.geo smallRoot.fs.dev
    (smallRoot.fs.inodes 5).block (oneBlock fullRecords) := by
  refine oneBlock_shown (n := 5) (b := fullBlock) ?_ (by decide) (by decide) ?_ ?_
  · intro k
    simp [smallRoot]
  · intro i hi
    change storeBytes _ 4096 1024 smallBlock _ = _
    rw [storeBytes_off (by omega)]
    exact storeBytes_self hi
  · exact ⟨recordAt_used (by decide +kernel), recordAt_used (by decide +kernel),
      recordAt_used (by decide +kernel), rfl⟩

theorem smallRoot_directory : Directory smallRoot (oneBlock smallRecords) where
  ok :=
    { quiet := fun _ => rfl
      sound := ⟨by decide, by decide⟩
      type := by decide
      mapped := ⟨by decide, by decide⟩
      direct := ⟨rfl, rfl, rfl⟩
      shown := smallRoot_shown }
  writable :=
    { writable := by decide
      inode := ⟨by decide, by decide, by decide, by decide⟩
      cache := ⟨by simp [smallRoot, smallFilesystem], by simp [smallRoot, smallFilesystem]⟩ }
  inodes := by
    have listed : listing (oneBlock smallRecords) =
        [([46], 2), ([46, 46], 2), ([100], 3), ([101], 5), ([102], 4)] := by decide
    rw [listed]
    intro e he
    simp only [mem_cons, not_mem_nil, or_false] at he
    rcases he with rfl | rfl | rfl | rfl | rfl
    all_goals exact ⟨by decide, by decide, by decide, by decide⟩

/-- The directory `e` is not empty, and is not removed. -/
theorem rmdir_iff_full : Subdirectory smallRoot.fs 5 (oneBlock fullRecords) ∧
    RemovesDirectory smallRoot [101] (oneBlock fullRecords) := by
  have target : Subdirectory smallRoot.fs 5 (oneBlock fullRecords) :=
    ⟨by decide, ⟨rfl, rfl, rfl⟩, fullDirectory_shown⟩
  refine ⟨target, (rmdir_iff smallRoot_directory (by decide) target
    fun last => absurd last (by decide)).2 (iff_of_false (fun vacant => ?_) (by decide +kernel))⟩
  exact absurd (vacant ([103], 4) (by decide)) (by decide)

/-- The empty directory `d` is not removed. -/
theorem rmdir_keeps_empty : ¬∀ (s : VfsState) (content sub : Nat → List DirRecord)
    (name : List UInt8) (ino : Nat), Directory s content → find name (listing content) = some ino →
      Subdirectory s.fs ino sub → TargetApart s.fs s.inode ino → RemovesDirectory s name sub := by
  intro claim
  have target : Subdirectory smallRoot.fs 3 fun _ => [] := by
    refine ⟨by decide, ⟨rfl, rfl, rfl⟩, ?_, fun _ _ _ => rfl, ?_, ?_⟩
    · intro k _
      exact Nat.zero_lt_succ _
    · exact fun _ _ there => absurd rfl there
    · exact fun _ _ _ _ there => absurd rfl there
  have removes := claim smallRoot (oneBlock smallRecords) _ [100] 3 smallRoot_directory (by decide) target
    fun last => absurd last (by decide)
  have refused : (ext2Rmdir [100] smallRoot).1 = .error (.call .ENOTEMPTY) := by
    decide +kernel
  have empty : listing (fun _ => []) = [] := by decide
  rw [removes.success.2 (by rw [Vacant, empty]; nofun)] at refused
  cases refused

end Os0
