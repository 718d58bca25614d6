import Os0.Fs.Ext2.FreeBlocks

/-! The counts of free inodes and of directories over whole runs of allocations and
releases. -/
namespace Os0

open Cmd Runs Tally Function

namespace Geometry

/-- The inodes of the file system. -/
def allInodes (g : Geometry) : Finset Nat := Finset.Icc 1 g.inodesCount

/-- The inodes of one group. -/
def groupInodes (g : Geometry) (group : Nat) : Finset Nat :=
  g.allInodes.filter fun ino => g.groupOfInode ino = group

end Geometry

namespace Ext2Filesystem

/-- What `ext2_openfs`, `ext2_allocate_inode_bitmap` and `ext2_read_bitmap` check or set up
for the inodes. -/
structure InodesMounted (fs : Ext2Filesystem) : Prop where
  perGroup : 0 < fs.geo.inodesPerGroup
  count : fs.geo.inodesCount = fs.geo.groupDescCount * fs.geo.inodesPerGroup
  narrow : fs.geo.inodesCount < 4294967296
  start : fs.inodeBitmap.start = 1
  fin : fs.inodeBitmap.fin = fs.geo.inodesCount
  uninit : ext2HasGroupDescChecksum fs = true → ∀ group < fs.geo.groupDescCount,
    (fs.groups group).inodeUninit = true →
      ∀ ino ∈ fs.geo.groupInodes group, fs.inodeBitmap.bit ino = false

end Ext2Filesystem

/-- A file system, and which of its inodes are directories: what `S_ISDIR` says of the mode
that is written before an inode is counted and read before it is released. -/
structure InodeRun where
  fs : Ext2Filesystem
  isDir : Nat → Bool

inductive InodeCall
  /-- An allocation near the inode `dir`; `ext2_mkdir` allocates a directory. -/
  | alloc (dir : Nat) (isdir : Bool)
  | free (ino : Nat)
  deriving DecidableEq, Repr

namespace InodeRun

def step (r : InodeRun) : InodeCall → InodeRun
  | .alloc dir isdir =>
    match ext2NewInode dir r.fs with
    | (.ok ino, fs) => ⟨ext2InodeAllocStats fs ino true isdir, Function.update r.isDir ino isdir⟩
    | (.error _, fs) => { r with fs }
  | .free ino => { r with fs := ext2InodeAllocStats r.fs ino false (r.isDir ino) }

/-- An inode that is released is in range and in use. -/
def proper (r : InodeRun) : InodeCall → Bool
  | .alloc _ _ => true
  | .free ino => decide (ino ∈ r.fs.geo.allInodes) && r.fs.inodeBitmap.bit ino

/-- No directory comes or goes. -/
def filesOnly (r : InodeRun) : InodeCall → Bool
  | .alloc _ isdir => !isdir
  | .free ino => r.proper (.free ino) && !r.isDir ino

/-- The free counts are the numbers of clear bits, and the directory counts those of the
directories in use. -/
structure InodesCounted (r : InodeRun) : Prop where
  total : r.fs.freeInodesCount =
    (r.fs.geo.allInodes.filter fun ino => r.fs.inodeBitmap.bit ino = false).card
  free : ∀ group < r.fs.geo.groupDescCount, (r.fs.groups group).freeInodesCount =
    ((r.fs.geo.groupInodes group).filter fun ino => r.fs.inodeBitmap.bit ino = false).card
  dirs : ∀ group < r.fs.geo.groupDescCount, (r.fs.groups group).usedDirsCount =
    ((r.fs.geo.groupInodes group).filter fun ino =>
      r.fs.inodeBitmap.bit ino = true ∧ r.isDir ino = true).card

end InodeRun

/-! ## The search for an inode -/

theorem Bitmap32.put_clear {m : Bitmap32} {arg : Nat} (clear : m.bit arg = false) :
    m.put arg false = m := by
  unfold Bitmap32.put
  split
  · rfl
  · rw [← clear, update_eq_self]

theorem Bitmap32.foldl_put_clear {m : Bitmap32} {f : Nat → Nat} {l : List Nat}
    (clear : ∀ i ∈ l, m.bit (f i) = false) : l.foldl (fun m i => m.put (f i) false) m = m := by
  induction l with
  | nil => rfl
  | cons i _ ih =>
    rw [List.foldl_cons, put_clear (clear i (.head _))]
    exact ih fun j mem => clear j (.tail _ mem)

namespace Ext2Filesystem

variable {fs t : Ext2Filesystem} {ino : Nat}

/-- What a search for an inode keeps; it may clear flags of groups without inodes in use. -/
structure Searched (fs t : Ext2Filesystem) : Prop where
  geo : t.geo = fs.geo
  roCompat : t.featureRoCompat = fs.featureRoCompat
  incompat : t.featureIncompat = fs.featureIncompat
  bitmap : t.inodeBitmap = fs.inodeBitmap
  total : t.freeInodesCount = fs.freeInodesCount
  free : ∀ group, (t.groups group).freeInodesCount = (fs.groups group).freeInodesCount
  dirs : ∀ group, (t.groups group).usedDirsCount = (fs.groups group).usedDirsCount
  uninit : ∀ group, (t.groups group).inodeUninit = true → (fs.groups group).inodeUninit = true

theorem Searched.refl (fs : Ext2Filesystem) : Searched fs fs :=
  ⟨rfl, rfl, rfl, rfl, rfl, fun _ => rfl, fun _ => rfl, fun _ => id⟩

theorem Searched.trans {u : Ext2Filesystem} (h : Searched fs t) (k : Searched t u) :
    Searched fs u where
  geo := k.geo.trans h.geo
  roCompat := k.roCompat.trans h.roCompat
  incompat := k.incompat.trans h.incompat
  bitmap := k.bitmap.trans h.bitmap
  total := k.total.trans h.total
  free group := (k.free group).trans (h.free group)
  dirs group := (k.dirs group).trans (h.dirs group)
  uninit group flag := h.uninit group (k.uninit group flag)

namespace InodesMounted

section

variable (h : fs.InodesMounted)
include h

theorem congr (s : Searched fs t) : t.InodesMounted := by
  constructor
  case perGroup => exact s.geo ▸ h.perGroup
  case count => exact s.geo ▸ h.count
  case narrow => exact s.geo ▸ h.narrow
  case start => exact s.bitmap ▸ h.start
  case fin => exact s.bitmap ▸ s.geo ▸ h.fin
  case uninit =>
    rw [ext2HasGroupDescChecksum, s.roCompat, s.geo, s.bitmap]
    exact fun csum group lt flag => h.uninit csum group lt (s.uninit group flag)

theorem groupOfInode_eq (mem : ino ∈ fs.geo.allInodes) :
    fs.geo.groupOfInode ino = (ino - 1) / fs.geo.inodesPerGroup := by
  obtain ⟨_, _⟩ := Finset.mem_Icc.1 mem
  have narrow := h.narrow
  have le := Nat.div_le_self (ino - 1) fs.geo.inodesPerGroup
  have wraps : (ino + 18446744073709551615) % 18446744073709551616 = ino - 1 := by omega
  rw [Geometry.groupOfInode, wraps, Nat.mod_eq_of_lt (by omega)]

theorem group_lt (mem : ino ∈ fs.geo.allInodes) :
    fs.geo.groupOfInode ino < fs.geo.groupDescCount := by
  obtain ⟨_, _⟩ := Finset.mem_Icc.1 mem
  rw [h.groupOfInode_eq mem, Nat.div_lt_iff_lt_mul h.perGroup, ← h.count]
  omega

theorem mem_groupInodes {group i : Nat} (lt : group < fs.geo.groupDescCount)
    (hi : i < fs.geo.inodesPerGroup) :
    group * fs.geo.inodesPerGroup + 1 + i ∈ fs.geo.groupInodes group := by
  have le := Nat.mul_le_mul_right fs.geo.inodesPerGroup (Nat.succ_le_of_lt lt)
  rw [Nat.succ_mul, ← h.count] at le
  have mem : group * fs.geo.inodesPerGroup + 1 + i ∈ fs.geo.allInodes :=
    Finset.mem_Icc.2 (by omega)
  refine Finset.mem_filter.2 ⟨mem, ?_⟩
  rw [h.groupOfInode_eq mem,
    show group * fs.geo.inodesPerGroup + 1 + i - 1 = i + fs.geo.inodesPerGroup * group by
      rw [mul_comm]; omega,
    Nat.add_mul_div_left _ _ h.perGroup, Nat.div_eq_of_lt hi, zero_add]

theorem group_card_le (group : Nat) : (fs.geo.groupInodes group).card ≤ fs.geo.inodesPerGroup :=
  card_filter_div_le h.perGroup (fun _ mem => (Finset.mem_Icc.1 mem).1)
    (fun _ => h.groupOfInode_eq) group

theorem checkInodeUninit (group : Nat) : Searched fs (ext2CheckInodeUninit fs group) := by
  unfold ext2CheckInodeUninit
  split
  · exact .refl fs
  rename_i some
  simp only [not_or, not_not, not_le] at some
  obtain ⟨lt, csum, flag⟩ := some
  have last : group * fs.geo.inodesPerGroup + 1 < 4294967296 := by
    have mem := (Finset.mem_filter.1 (h.mem_groupInodes lt h.perGroup)).1
    have := (Finset.mem_Icc.1 mem).2
    have := h.narrow
    omega
  constructor
  case bitmap =>
    refine Bitmap32.foldl_put_clear fun i mem => ?_
    rw [Nat.mod_eq_of_lt last]
    exact h.uninit csum group lt flag _ (h.mem_groupInodes lt (List.mem_range.1 mem))
  case free | dirs =>
    intro k
    by_cases same : k = group
    · simp [same]
    · simp [same]
  case uninit =>
    intro k flag
    by_cases same : k = group
    · simp [same] at flag
    · simpa [same] using flag
  all_goals rfl

end

end InodesMounted

theorem ext2FindFirstZeroBitmap_none {m : Bitmap32} {start fin : Nat}
    (h : ext2FindFirstZeroBitmap m start fin = .error .ENOENT) : m.start ≤ start := by
  unfold ext2FindFirstZeroBitmap at h
  split at h
  · cases h
  · split at h
    · cases h
    · omega

/-- The loop ends with an inode in range: a round that finds nothing has started in the
bitmap. -/
theorem searchInode_ends {start : Nat} (high : start ≤ fs.geo.inodesCount)
    (h : fs.InodesMounted) (fuel : Nat) {i : Nat} (low : i = start ∨ 1 ≤ start) :
    Ends (searchInode start fuel i) fs
      (fun ino t => Searched fs t ∧ 1 ≤ ino ∧ ino ≤ fs.geo.inodesCount)
      (fun _ t => Searched fs t) := by
  induction fuel generalizing fs i with
  | zero => exact ends_fail (.refl fs)
  | succ fuel ih =>
    have searched := h.checkInodeUninit (fs.geo.groupOfInode i)
    rw [searchInode]
    apply ends_bind
    apply ends_modify
    generalize ext2CheckInodeUninit fs (fs.geo.groupOfInode i) = fs₁ at searched ⊢
    have mounted := h.congr searched
    apply ends_bind
    apply ends_get
    dsimp only
    split
    · rename_i found
      obtain ⟨lo, hi, -⟩ := ext2FindFirstZeroBitmap_ok found
      rw [mounted.start] at lo
      rw [mounted.fin, searched.geo] at hi
      exact ends_pure ⟨searched, lo, hi⟩
    · rename_i none
      have positive : 1 ≤ start := by
        have := ext2FindFirstZeroBitmap_none none
        rw [mounted.start] at this
        omega
      generalize (if fs₁.geo.inodesCount < fs₁.geo.searchUpto start i + 1 then fs₁.geo.firstInode
        else fs₁.geo.searchUpto start i + 1) = next
      split
      · subst_vars
        exact ends_pure ⟨searched, positive, high⟩
      · refine (ih (searched.geo ▸ high) mounted (.inr positive)).mono ?_ ?_
        · rintro ino t ⟨rest, lo, hi⟩
          exact ⟨searched.trans rest, lo, searched.geo ▸ hi⟩
        · exact fun _ t rest => searched.trans rest
    · exact ends_fail searched

theorem ext2NewInode_ends (h : fs.InodesMounted) (dir : Nat) :
    Ends (ext2NewInode dir) fs
      (fun ino t => Searched fs t ∧ ino ∈ fs.geo.allInodes ∧ fs.inodeBitmap.bit ino = false)
      (fun _ t => Searched fs t) := by
  apply ends_bind
  apply ends_get
  dsimp only
  split
  · exact ends_fail (.refl fs)
  apply ends_bind
  refine (searchInode_ends (by omega) h _ (.inl rfl)).mono ?_ fun _ _ => id
  rintro ino t ⟨searched, lo, hi⟩
  apply ends_bind
  apply ends_get
  split
  · exact ends_fail searched
  · rename_i clear
    have mounted := h.congr searched
    have fin := mounted.fin
    have narrow := mounted.narrow
    rw [searched.geo] at fin narrow
    rw [Bitmap32.test, if_neg (by rw [mounted.start]; omega), searched.bitmap] at clear
    exact ends_pure ⟨searched, Finset.mem_Icc.2 ⟨lo, hi⟩, by simpa using clear⟩

end Ext2Filesystem

/-! ## The counts -/

namespace InodeRun

open Ext2Filesystem

variable {r : InodeRun} {t : Ext2Filesystem} {ino : Nat}

def isFree (r : InodeRun) : Nat → Bool := fun ino => !r.fs.inodeBitmap.bit ino

def isUsedDir (r : InodeRun) : Nat → Bool := fun ino => r.fs.inodeBitmap.bit ino && r.isDir ino

/-- What a run keeps. -/
structure InodeInv (r : InodeRun) : Prop where
  mounted : r.fs.InodesMounted
  small : r.fs.geo.inodesPerGroup < 2 ^ r.fs.countBits 16
  total : r.fs.freeInodesCount = count r.fs.geo.allInodes r.isFree
  free : Counted r.fs.geo.groupInodes (Finset.range r.fs.geo.groupDescCount) r.isFree
    fun group => (r.fs.groups group).freeInodesCount
  dirs : Counted r.fs.geo.groupInodes (Finset.range r.fs.geo.groupDescCount) r.isUsedDir
    fun group => (r.fs.groups group).usedDirsCount

theorem inv_iff : r.InodeInv ↔ r.fs.InodesMounted ∧
    r.fs.geo.inodesPerGroup < 2 ^ r.fs.countBits 16 ∧ r.InodesCounted := by
  have free (group : Nat) : count (r.fs.geo.groupInodes group) r.isFree =
      ((r.fs.geo.groupInodes group).filter fun ino => r.fs.inodeBitmap.bit ino = false).card := by
    simp [count, isFree]
  have dirs (group : Nat) : count (r.fs.geo.groupInodes group) r.isUsedDir =
      ((r.fs.geo.groupInodes group).filter fun ino =>
        r.fs.inodeBitmap.bit ino = true ∧ r.isDir ino = true).card := by
    simp [count, isUsedDir]
  have total : count r.fs.geo.allInodes r.isFree =
      (r.fs.geo.allInodes.filter fun ino => r.fs.inodeBitmap.bit ino = false).card := by
    simp [count, isFree]
  constructor
  · intro h
    refine ⟨h.mounted, h.small, h.total.trans total, fun group lt => ?_, fun group lt => ?_⟩
    · exact (h.free group (Finset.mem_range.2 lt)).trans (free group)
    · exact (h.dirs group (Finset.mem_range.2 lt)).trans (dirs group)
  · rintro ⟨mounted, small, h⟩
    refine ⟨mounted, small, h.total.trans total.symm, fun group lt => ?_, fun group lt => ?_⟩
    · exact (h.free group (Finset.mem_range.1 lt)).trans (free group).symm
    · exact (h.dirs group (Finset.mem_range.1 lt)).trans (dirs group).symm

theorem InodeInv.searched (h : r.InodeInv) (s : Searched r.fs t) : InodeInv { r with fs := t } := by
  have bits := countBits_congr s.incompat 16
  have free : isFree { r with fs := t } = r.isFree := by
    funext c
    simp [isFree, s.bitmap]
  have usedDir : isUsedDir { r with fs := t } = r.isUsedDir := by
    funext c
    simp [isUsedDir, s.bitmap]
  constructor
  case mounted => exact h.mounted.congr s
  case small => exact bits ▸ s.geo ▸ h.small
  case total =>
    simp only [free, s.total, s.geo]
    exact h.total
  case free =>
    simp only [free, s.geo, s.free]
    exact h.free
  case dirs =>
    simp only [usedDir, s.geo, s.dirs]
    exact h.dirs

/-- What `ext2_inode_alloc_stats` does to the counts of an inode in range that is no
directory. -/
structure CountsInode (fs t : Ext2Filesystem) (ino : Nat) (inuse : Bool) : Prop where
  geo : t.geo = fs.geo
  roCompat : t.featureRoCompat = fs.featureRoCompat
  incompat : t.featureIncompat = fs.featureIncompat
  bitmap : t.inodeBitmap =
    { fs.inodeBitmap with bit := Function.update fs.inodeBitmap.bit ino inuse }
  total : t.freeInodesCount = adjustCount 32 fs.freeInodesCount 1 inuse
  group : (t.groups (fs.geo.groupOfInode ino)).freeInodesCount =
    adjustCount (fs.countBits 16) (fs.groups (fs.geo.groupOfInode ino)).freeInodesCount 1 inuse
  others : ∀ group, group ≠ fs.geo.groupOfInode ino →
    (t.groups group).freeInodesCount = (fs.groups group).freeInodesCount
  dirs : ∀ group, (t.groups group).usedDirsCount = (fs.groups group).usedDirsCount
  uninit : ∀ group, (t.groups group).inodeUninit = true →
    group ≠ fs.geo.groupOfInode ino ∧ (fs.groups group).inodeUninit = true

theorem countsInode_stats {fs : Ext2Filesystem} (h : fs.InodesMounted)
    (mem : ino ∈ fs.geo.allInodes) (inuse : Bool) :
    CountsInode fs (ext2InodeAllocStats fs ino inuse false) ino inuse := by
  obtain ⟨_, _⟩ := Finset.mem_Icc.1 mem
  have fin := h.fin
  have start := h.start
  have narrow := h.narrow
  have put : fs.inodeBitmap.put ino inuse =
      { fs.inodeBitmap with bit := update fs.inodeBitmap.bit ino inuse } := by
    rw [Bitmap32.put, if_neg (by omega)]
  rw [ext2InodeAllocStats, if_neg (by omega), put]
  constructor
  case group => simp
  case others =>
    intro group other
    simp [other]
  case dirs =>
    intro group
    by_cases same : group = fs.geo.groupOfInode ino
    · simp [same]
    · simp [same]
  case uninit =>
    intro group flag
    by_cases same : group = fs.geo.groupOfInode ino
    · simp [same] at flag
    · exact ⟨same, by simpa [same] using flag⟩
  all_goals rfl

theorem InodeInv.counts (h : r.InodeInv) (mem : ino ∈ r.fs.geo.allInodes) {inuse : Bool}
    (changes : r.fs.inodeBitmap.bit ino ≠ inuse) (counts : CountsInode r.fs t ino inuse)
    {isDir : Nat → Bool} (same : (⟨t, isDir⟩ : InodeRun).isUsedDir = r.isUsedDir) :
    InodeInv ⟨t, isDir⟩ := by
  have mounted := h.mounted
  have bits := countBits_congr counts.incompat 16
  have card := mounted.group_card_le (r.fs.geo.groupOfInode ino)
  have all : r.fs.geo.allInodes.card = r.fs.geo.inodesCount := by
    rw [Geometry.allInodes, Nat.card_Icc]
    omega
  have small := h.small
  have narrow := mounted.narrow
  have agree (c : Nat) (other : c ≠ ino) : (⟨t, isDir⟩ : InodeRun).isFree c = r.isFree c := by
    simp [isFree, counts.bitmap, other]
  have now : (⟨t, isDir⟩ : InodeRun).isFree ino = !inuse := by simp [isFree, counts.bitmap]
  have was : r.isFree ino = inuse := by
    cases inuse <;> simpa [isFree] using changes
  constructor
  case mounted =>
    refine ⟨counts.geo ▸ mounted.perGroup, counts.geo ▸ mounted.count, counts.geo ▸ narrow,
      ?_, ?_, ?_⟩
    · rw [counts.bitmap]
      exact mounted.start
    · rw [counts.bitmap, counts.geo]
      exact mounted.fin
    · rw [ext2HasGroupDescChecksum, counts.roCompat, counts.geo, counts.bitmap]
      intro csum g lt flag c inside
      obtain ⟨other, flag⟩ := counts.uninit g flag
      have ne : c ≠ ino := by
        rintro rfl
        exact other (Finset.mem_filter.1 inside).2.symm
      exact (update_of_ne ne _ _).trans (mounted.uninit csum g lt flag c inside)
  case small => exact bits ▸ counts.geo ▸ small
  case dirs =>
    rw [same, counts.geo]
    exact fun g lt => (counts.dirs g).trans (h.dirs g lt)
  case total =>
    rw [counts.geo, counts.total, h.total]
    exact adjustCount_eq mem was now agree (by omega)
  case free =>
    rw [counts.geo]
    exact adjustCount_counted h.free mem was now agree (Finset.mem_range.2 (mounted.group_lt mem))
      (card.trans_lt small) counts.group counts.others

theorem InodeInv.step (h : r.InodeInv) {call : InodeCall} (files : r.filesOnly call = true) :
    (r.step call).InodeInv := by
  cases call with
  | alloc dir isdir =>
    have isFile : isdir = false := by simpa [filesOnly] using files
    subst isFile
    have ends := ext2NewInode_ends h.mounted dir
    unfold Ends at ends
    unfold InodeRun.step
    split at ends
    · rename_i ino fs run
      obtain ⟨searched, mem, clear⟩ := ends
      have inv := h.searched searched
      simp only [run]
      rw [← searched.geo] at mem
      rw [← searched.bitmap] at clear
      have counts := countsInode_stats inv.mounted mem true
      refine inv.counts mem (by simp [clear]) counts ?_
      funext c
      by_cases same : c = ino
      · subst same
        simp [isUsedDir, counts.bitmap, clear]
      · simp [isUsedDir, counts.bitmap, same]
    · rename_i e fs run
      simp only [run]
      exact h.searched ends
  | free ino =>
    simp only [filesOnly, proper, Bool.and_eq_true, decide_eq_true_eq, Bool.not_eq_true'] at files
    obtain ⟨⟨mem, used⟩, isFile⟩ := files
    have counts := countsInode_stats h.mounted mem false
    simp only [InodeRun.step, isFile]
    refine h.counts mem (by simp [used]) counts ?_
    funext c
    by_cases same : c = ino
    · subst same
      simp [isUsedDir, counts.bitmap, isFile]
    · simp [isUsedDir, counts.bitmap, same]

end InodeRun

/-- As long as no directory comes or goes, the counts of inodes stay right. -/
theorem free_inodes_runs {r r' : InodeRun} {calls : List InodeCall}
    (mounted : r.fs.InodesMounted) (small : r.fs.geo.inodesPerGroup < 2 ^ r.fs.countBits 16)
    (agree : r.InodesCounted)
    (run : Run (Guarded (fun r call => r.filesOnly call = true) (graph InodeRun.step))
      r calls r') : r'.InodesCounted := by
  refine (InodeRun.inv_iff.1 (run.invariant (I := InodeRun.InodeInv) ?_
    (InodeRun.inv_iff.2 ⟨mounted, small, agree⟩))).2.2
  rintro r call _ h ⟨files, rfl⟩
  exact h.step files

def smallInodes : InodeRun := ⟨smallFilesystem, fun ino => decide (ino ≤ 2)⟩

theorem smallInodes_mounted : smallInodes.fs.InodesMounted :=
  ⟨by decide, by decide, by decide, rfl, rfl, nofun⟩

theorem smallInodes_counted : smallInodes.InodesCounted := ⟨by decide, by decide, by decide⟩

/-- Inode 3 is allocated for a file and released. -/
theorem free_inodes_runs_at : ∃ r : InodeRun, r.fs.inodeBitmap.bit 4 = true ∧
    r.fs.inodeBitmap.bit 3 = false ∧ r.InodesCounted := by
  have run : Run (Guarded (fun r call => InodeRun.filesOnly r call = true) (graph InodeRun.step))
      smallInodes [.alloc 1 false, .alloc 1 false, .free 3] _ :=
    .cons ⟨rfl, rfl⟩ (.cons ⟨rfl, rfl⟩ (.cons ⟨by decide, rfl⟩ (.nil _)))
  exact ⟨_, by decide, by decide,
    free_inodes_runs smallInodes_mounted (by decide) smallInodes_counted run⟩

/-- A new directory makes the count of directories go down. -/
theorem mkdir_uncounts_directory : ¬∀ (r r' : InodeRun) (calls : List InodeCall),
    r.fs.InodesMounted → r.InodesCounted →
      Run (Guarded (fun r call => r.proper call = true) (graph InodeRun.step)) r calls r' →
        r'.InodesCounted := by
  intro claim
  have counted := claim smallInodes _ [.alloc 1 true] smallInodes_mounted smallInodes_counted
    (.cons ⟨rfl, rfl⟩ (.nil _))
  exact absurd (counted.dirs 0 (by decide)) (by decide)

end Os0
