import Os0.Fs.PathAgree
import Os0.Fs.RelVfs

/-! Splitting a path (`sys_path_sep` of `uapi/util.c`) and opening it. -/
namespace Os0

open List

namespace Vfs

variable {v : Vfs} {dir inode top : VFSInode} {name : Name} {comps : List Name}
  {path before : List Char}

def sysPathSep (v : Vfs) (path : List Char) : Except Errno (VFSInode × Name) :=
  match World.lastSlash path with
  | none => .ok (v.cwd, path)
  | some (before, after) => (v.vfsOpenFile before).map fun dir => (dir, after)

/-- What the walk finds for the last component of a path in the directory `top`, or what is mounted
there, is what the component names in the directory `dir`. -/
def SameEntry (v : Vfs) (dir top : VFSInode) (name : Name) : Prop :=
  if skipped name then v.vfsLookup dir name = .ok top
  else ∃ file, v.vfsLookup top name = .ok file ∧ v.vfsLookup dir name = .ok (v.cross file)

/-- With a slash behind its first character a path is split in the directory in which the walk
looks its last component up; without a slash, below the mounts on the current directory; and with
one slash, at its start, in the current directory in place of the root. -/
def SplitsAlike (v : Vfs) (path : List Char) : Prop :=
  match World.lastSlash path with
  | none => v.SameEntry v.cwd (v.cross v.cwd) path
  | some ([], name) => v.SameEntry (v.cross v.cwd) (v.cross v.root) name
  | some (before, name) => ∃ dir, v.vfsOpenFile before = .ok dir ∧ v.SameEntry dir dir name

theorem walk_concat (walked : v.walk dir (comps ++ [name]) = .ok inode) :
    ∃ top, v.walk dir comps = .ok top ∧ v.walk top [name] = .ok inode := by
  induction comps generalizing dir with
  | nil => exact ⟨dir, rfl, walked⟩
  | cons c comps ih =>
    cases skip : skipped c with
    | true =>
      rw [cons_append, walk_skip skip] at walked
      rw [walk_skip skip]
      exact ih walked
    | false =>
      obtain ⟨_, found, isDir, walked⟩ := walk_cons_ok skip walked
      rw [walk_entry skip found fun _ => isDir (by simp)]
      exact ih walked

theorem sameEntry_iff (walked : v.walk top [name] = .ok inode) :
    v.vfsLookup dir name = .ok inode ↔ v.SameEntry dir top name := by
  unfold SameEntry
  cases skip : skipped name with
  | true =>
    rw [walk_skip skip] at walked
    obtain rfl : top = inode := Except.ok.inj walked
    rfl
  | false =>
    obtain ⟨file, found, -, walked⟩ := walk_cons_ok skip walked
    obtain rfl : v.cross file = inode := Except.ok.inj walked
    simp [found]

theorem name_reverse (plain : '/' ∉ name) : ∀ c ∈ name.reverse, decide (c ≠ '/') = true := by
  intro c mem
  rw [decide_eq_true_eq]
  rintro rfl
  exact plain (mem_reverse.1 mem)

theorem lastSlash_concat (plain : '/' ∉ name) :
    World.lastSlash (before ++ '/' :: name) = some (before, name) := by
  have back : (before ++ '/' :: name).reverse = name.reverse ++ '/' :: before.reverse := by simp
  rw [World.lastSlash, back, dropWhile_append_of_pos (name_reverse plain),
    takeWhile_append_of_pos (name_reverse plain)]
  simp

/-- The last slash of a path, if it has one. -/
theorem lastSlash_cases (path : List Char) : ('/' ∉ path ∧ World.lastSlash path = none) ∨
    ∃ before name, '/' ∉ name ∧ path = before ++ '/' :: name := by
  by_cases slash : '/' ∈ path
  · obtain ⟨name, before, eq, plain⟩ := eq_append_cons_of_mem (mem_reverse.2 slash)
    refine .inr ⟨before.reverse, name.reverse, by simpa using plain, ?_⟩
    simpa using congrArg List.reverse eq
  · have none : (path.reverse ++ []).dropWhile (· ≠ '/') = [] := by
      rw [dropWhile_append_of_pos (name_reverse slash), dropWhile_nil]
    rw [append_nil] at none
    exact .inl ⟨slash, by rw [World.lastSlash, none]⟩

/-- What `vfs_open_file` finds along a path before its last component. -/
theorem vfsOpenFile_concat (more : before ≠ []) (plain : '/' ∉ name)
    (opens : v.vfsOpenFile (before ++ '/' :: name) = .ok inode) :
    ∃ top, v.vfsOpenFile before = .ok top ∧ v.walk top [name] = .ok inode := by
  have parts := Split.splitOn_append_part plain
  by_cases absolute : before.head? = some '/'
  · obtain ⟨front, rfl⟩ := head?_eq_some_iff.1 absolute
    have walked : v.walk (v.cross v.root) (front.splitOn '/' ++ [name]) = .ok inode := by
      rw [← parts]
      exact opens
    exact walk_concat walked
  · rw [vfsOpenFile_relative absolute]
    rw [vfsOpenFile_relative (by cases before <;> simp_all), parts] at opens
    exact walk_concat opens

/-- Where a path leads to a file, splitting it and looking its last component up gives the same
file exactly if the directory of the split has it under this name. -/
theorem split_consistent_iff (opens : v.vfsOpenFile path = .ok inode) :
    (∃ dir name, v.sysPathSep path = .ok (dir, name) ∧ v.vfsLookup dir name = .ok inode) ↔
      v.SplitsAlike path := by
  unfold sysPathSep SplitsAlike
  obtain ⟨plain, none⟩ | ⟨before, name, plain, rfl⟩ := lastSlash_cases path
  · rw [vfsOpenFile_relative (fun slash => plain (List.mem_of_head? slash)),
      Split.splitOn_part plain] at opens
    rw [none, ← sameEntry_iff opens]
    simp
  · rw [lastSlash_concat plain]
    cases before with
    | nil =>
      have walked : v.walk (v.cross v.root) (name.splitOn '/') = .ok inode := opens
      rw [Split.splitOn_part plain] at walked
      have here : v.vfsOpenFile [] = .ok (v.cross v.cwd) := by simp [vfsOpenFile, walk, skipped]
      simp [here, Except.map, ← sameEntry_iff walked]
    | cons a before =>
      obtain ⟨_, found, walked⟩ := vfsOpenFile_concat (by simp) plain opens
      simp [found, Except.map, ← sameEntry_iff walked]

theorem split_consistent_up : mounted.SplitsAlike "../usr".toList := by
  have opens : mounted.vfsOpenFile "../usr".toList = .ok ⟨1, 13⟩ := by decide
  exact (split_consistent_iff opens).1 ⟨⟨1, 2⟩, "usr".toList, by decide, by decide⟩

/-- From `/usr`, the path `/usr` is split into the directory `/usr` and the name `usr`, which is
not there. -/
theorem split_root_entry : mounted.vfsOpenFile "/usr".toList = .ok ⟨1, 13⟩ ∧
    ¬∃ dir name, mounted.sysPathSep "/usr".toList = .ok (dir, name) ∧
      mounted.vfsLookup dir name = .ok ⟨1, 13⟩ := by
  refine ⟨by decide, ?_⟩
  rintro ⟨dir, name, parts, found⟩
  have here : mounted.sysPathSep "/usr".toList = .ok (⟨1, 13⟩, "usr".toList) := by decide
  cases here.symm.trans parts
  exact absurd found (by decide)

end Vfs

end Os0
