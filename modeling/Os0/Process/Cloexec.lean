import Os0.Process.PipeLife

/-! Which descriptors an exec closes. The flags are kept apart from the descriptors, in
`p_fdflags`, and only `fcntl` writes them. -/
namespace Os0

open Function List Option

namespace Files

variable {s t : Files} {p : Nat} {k : Nat × Nat}

/-- `p_fdflags[i] & FD_CLOEXEC`. -/
def cloexec (s : Files) (k : Nat × Nat) : Bool := decide (s.fdflags k % 2 = (FD_CLOEXEC : Int))

/-- The descriptor is opened on the way from `s` to `t`. -/
def New (s t : Files) (k : Nat × Nat) : Prop := s.files k = none ∧ t.files k ≠ none

instance (s t : Files) (k : Nat × Nat) : Decidable (New s t k) :=
  inferInstanceAs (Decidable (_ ∧ _))

/-- The mark of a new descriptor. -/
def firstMark (p : Nat) (marks : Nat × Nat → Bool) (k : Nat × Nat) : FileCall → Bool
  | .fork _ => marks (p, k.2)
  | .fcntl _ .F_DUPFD_CLOEXEC _ => true
  | _ => false

/-- Which descriptors are to be closed on exec: the flag belongs to the descriptor, from its
opening on. -/
def marksAfter (s t : Files) (p : Nat) (marks : Nat × Nat → Bool) (call : FileCall)
    (k : Nat × Nat) : Bool :=
  match call with
  | .fcntl fd .F_SETFD arg =>
    if k.1 = p ∧ descriptor fd = some k.2 then decide (arg % 2 = (FD_CLOEXEC : Int)) else marks k
  | .dup2 _ fd2 => if k.1 = p ∧ descriptor fd2 = some k.2 then false else marks k
  | call => if New s t k then firstMark p marks k call else marks k

/-- The flags left behind are clear where a descriptor is opened, and a process that forks has
none set. -/
def Untainted (s : Files) (p : Nat) : FileCall → Prop
  | .openFile fd (.opened ..) =>
    ∀ n t, s.processAllocFd p fd = (.ok n, t) → s.cloexec (p, n) = false
  | .pipe memory => memory = ⟨true, true, true, true⟩ →
    ∀ n t, s.processAllocFd p ⟨0, fileLimit_pos⟩ = (.ok n, t) → s.cloexec (p, n) = false ∧
      ∀ m u, t.processAllocFd p ⟨0, fileLimit_pos⟩ = (.ok m, u) → s.cloexec (p, m) = false
  | .fork memory => memory = true → (∃ pid, 1 ≤ pid ∧ pid < PROCESS_LIMIT ∧ s.live pid = false) →
    ∀ fd, s.files (p, fd) ≠ none → s.cloexec (p, fd) = false
  | _ => True

/-! ### What the calls do to flags -/

section

variable (s : Files)

variable (i : Option Nat)

@[simp] theorem vfsUnrefInode_fdflags : (s.vfsUnrefInode i).fdflags = s.fdflags :=
  (unref_fields s i).2.2.1

theorem vfsRefInode_fdflags : (s.vfsRefInode i).fdflags = s.fdflags := by
  cases i <;> rfl

@[simp] theorem fill_fdflags (p fd : Nat) (inode : Option Nat) (path : Option String)
    (mode offset : Int) : (s.fill p fd inode path mode offset).fdflags = s.fdflags := by
  unfold fill setEntry
  grind

@[simp] theorem lookup_fdflags (found : Found) : (s.lookup found).2.fdflags = s.fdflags := by
  cases found <;> rfl

@[simp] theorem processFreeFd_fdflags (p fd : Nat) :
    (s.processFreeFd p fd).2.fdflags = s.fdflags := by
  cases points : s.files (p, fd) with
  | none =>
    unfold processFreeFd
    rw [points]
  | some e =>
    obtain ⟨v, eq, ⟨rfl, -⟩ | ⟨rfl, -⟩⟩ := processFreeFd_cases points
    · rw [eq]
      rfl
    · rw [eq]
      exact vfsUnrefInode_fdflags _ _

@[simp] theorem freeAll_fdflags (p : Nat) (fds : List Nat) :
    (s.freeAll p fds).fdflags = s.fdflags := by
  induction fds generalizing s with
  | nil => rfl
  | cons fd fds ih => exact (ih _).trans (processFreeFd_fdflags s p fd)

@[simp] theorem copyFiles_fdflags (parent child : Nat) (fds : List Nat) :
    (s.copyFiles parent child fds).fdflags = s.fdflags := by
  induction fds generalizing s with
  | nil => rfl
  | cons _ fds ih =>
    unfold copyFiles
    rw [ih]
    split <;> rfl

/-- `sys_open` keeps the flags; only if it succeeds there is a new descriptor. -/
theorem openFile_new (p : Nat) (fd : Fin PROCESS_FILE_LIMIT) (how : Opening) :
    (s.openFile p fd how).2.fdflags = s.fdflags ∧
      ((∀ k, New s (s.openFile p fd how).2 k → s.cloexec k = false) ↔
        Untainted s p (.openFile fd how)) := by
  unfold openFile
  generalize alloc : s.processAllocFd p fd = result
  obtain ⟨r, t⟩ := result
  obtain ⟨e, rfl, rfl⟩ | ⟨n, e, rfl, _, -, made⟩ := processAllocFd_cases alloc
  · cases how <;> grind [New, Untainted]
  have flags : t.fdflags = s.fdflags := by rw [made]; rfl
  have files : t.files = update s.files (p, n) (some e) := by rw [made]; rfl
  have shut {u : Files} (same : SameSlots t u) (k) : ¬New s (u.processFreeFd p n).2 k := by
    rw [New, processFreeFd_files, same.files, files]
    grind
  cases how with
  | failed e => exact ⟨by simp [flags], by simp [shut (.refl t), Untainted]⟩
  | refused found e =>
    have filled := (lookup_same t found).trans (fill_same _ p n (some (t.lookup found).1) none 0 0)
    have same := filled.trans (vfsUnrefInode_same _ (some (t.lookup found).1))
    exact ⟨by simp [flags], by simp [shut same, Untainted]⟩
  | opened found path mode offset =>
    have same := (lookup_same t found).trans
      (fill_same _ p n (some (t.lookup found).1) (some path) mode offset)
    simp only [New, Untainted, same.files, files, alloc]
    exact ⟨by simp [flags], by grind⟩

theorem newPipe_alloc (p : Nat) (fd : Fin PROCESS_FILE_LIMIT) :
    s.newPipe.processAllocFd p fd =
      ((s.processAllocFd p fd).1, (s.processAllocFd p fd).2.newPipe) := by
  have entry : s.newPipe.freeEntry = s.freeEntry := rfl
  have descriptor : s.newPipe.freeDescriptor p fd = s.freeDescriptor p fd := rfl
  unfold processAllocFd
  rw [entry, descriptor]
  split
  · rfl
  · split <;> rfl

@[simp] theorem dropPipe_fdflags (r w q : Nat) : (s.dropPipe r w q).fdflags = s.fdflags :=
  (vfsUnrefInode_fdflags _ (some w)).trans (vfsUnrefInode_fdflags s (some r))

end

variable {fd arg : Int} {cmd : FcntlCmd} {parent : Nat}

theorem sysPipe_new {memory : PipeMemory} {r : Except Errno (Nat × Nat)}
    (call : s.sysPipe p memory = some (r, t)) : t.fdflags = s.fdflags ∧
      ((∀ k, New s t k → s.cloexec k = false) ↔ Untainted s p (.pipe memory)) := by
  rcases sysPipe_cases call with ⟨-, same, fails⟩ | ⟨n, m, u', v', rfl, rfl, first, second, rfl⟩
  · have kept : t.fdflags = s.fdflags ∧ t.files = s.files := by
      rcases same with rfl | rfl
      · exact ⟨rfl, rfl⟩
      · exact ⟨dropPipe_fdflags .., (dropPipe_same ..).files⟩
    rw [newPipe_alloc] at fails
    grind [New, Untainted]
  rw [newPipe_alloc] at first
  generalize alloc : s.processAllocFd p ⟨0, fileLimit_pos⟩ = result at first
  obtain ⟨a, u⟩ := result
  obtain ⟨rfl, rfl⟩ := Prod.mk.inj first
  rw [newPipe_alloc] at second
  generalize alloc' : u.processAllocFd p ⟨0, fileLimit_pos⟩ = result at second
  obtain ⟨b, v⟩ := result
  obtain ⟨rfl, rfl⟩ := Prod.mk.inj second
  obtain ⟨_, ⟨⟩, -⟩ | ⟨n, e, ⟨⟩, _, -, made⟩ := processAllocFd_cases alloc
  obtain ⟨_, ⟨⟩, -⟩ | ⟨m, e', ⟨⟩, free', -, made'⟩ := processAllocFd_cases alloc'
  have flags : v.newPipe.fdflags = s.fdflags := by rw [made', made]; rfl
  have same := (fill_same v.newPipe p n (some s.nextInode) none O_RDONLY 0).trans
    (fill_same _ p m (some (s.nextInode + 1)) none O_WRONLY 0)
  have files : v.newPipe.files =
      update (update s.files (p, n) (some e)) (p, m) (some e') := by
    rw [made', made]
    rfl
  have new (k : Nat × Nat) : New s v.newPipe k ↔ k = (p, n) ∨ k = (p, m) := by
    rw [made] at free'
    rw [New, files]
    change update s.files (p, n) (some e) (p, m) = none at free'
    rw [update_apply] at free'
    rw [update_apply, update_apply]
    grind
  refine ⟨by simpa using flags, ?_⟩
  simp only [New, same.files] at new ⊢
  simp only [new, forall_eq_or_imp, forall_eq, Untainted, alloc]
  constructor
  case mp =>
    rintro ⟨low, high⟩ - i u' call
    cases call
    refine ⟨low, fun j v' call => ?_⟩
    cases alloc'.symm.trans call
    exact high
  case mpr =>
    intro clear
    obtain ⟨low, high⟩ := clear trivial n u rfl
    exact ⟨low, high m v alloc'⟩

/-- What `fcntl` does to descriptors and their flags. -/
theorem fcntl_flags {r : Except Errno Int}
    (call : s.fcntl p fd cmd arg = (r, t)) : t.live = s.live ∧
    ((t.files = s.files ∧ t.fdflags = s.fdflags ∧
        (cmd = .F_SETFD → ∀ n, descriptor fd = some n → s.files (p, n) = none)) ∨
      (cmd = .F_SETFD ∧ t.files = s.files ∧
        ∃ n, descriptor fd = some n ∧ ∀ k, t.fdflags k = if k = (p, n) then arg else s.fdflags k) ∨
      ((cmd = .F_DUPFD ∨ cmd = .F_DUPFD_CLOEXEC) ∧
        ∃ n e, (∃ a, descriptor arg = some a ∧ s.freeDescriptor p a = some n) ∧
          (∀ k, t.files k = if k = (p, n) then some e else s.files k) ∧
          ∀ k, t.fdflags k = if k = (p, n) then if cmd = .F_DUPFD then 0 else 1
            else s.fdflags k)) := by
  rcases fcntl_cases call with ⟨_, -, rfl, unset⟩ | ⟨n, e, index, -, ⟨rfl, other, -⟩ | ⟨rfl, rfl⟩ |
    ⟨rfl, rfl⟩ | ⟨dup, a, m, bound, -, free, -, rfl⟩⟩
  · exact ⟨rfl, .inl ⟨rfl, rfl, unset⟩⟩
  · exact ⟨rfl, .inl ⟨rfl, rfl, fun set => absurd set other⟩⟩
  · exact ⟨rfl, .inr (.inl ⟨rfl, rfl, n, index, update_apply _ _ _⟩)⟩
  · exact ⟨rfl, .inl ⟨rfl, rfl, nofun⟩⟩
  · exact ⟨rfl, .inr (.inr ⟨dup, m, e, ⟨a, bound, free⟩, update_apply _ _ _,
      update_apply _ _ _⟩)⟩

theorem copyFiles_files {child : Nat} (other : child ≠ parent) (s : Files) (fds : List Nat)
    (k : Nat × Nat) : (s.copyFiles parent child fds).files k =
      if k.1 = child ∧ k.2 ∈ fds then s.files (parent, k.2) else s.files k := by
  induction fds generalizing s with
  | nil => simp [copyFiles]
  | cons fd fds ih =>
    have first : ∀ u : Files, u.files = update s.files (child, fd) (s.files (parent, fd)) →
        (u.copyFiles parent child fds).files k =
          if k.1 = child ∧ k.2 ∈ fd :: fds then s.files (parent, k.2) else s.files k := by
      intro u files
      rw [ih, files, update_apply, update_apply]
      grind
    cases points : s.files (parent, fd) <;> exact first _ (by rw [points]; rfl)

/-- A child's descriptors are those of its parent, its flags those it had before. -/
theorem taskFork_cases {memory : Bool} {r : Option Nat} (live : s.live parent = true)
    (call : s.taskFork parent memory = (r, t)) : t.fdflags = s.fdflags ∧
      ((t = s ∧ ¬(memory = true ∧ ∃ pid, 1 ≤ pid ∧ pid < PROCESS_LIMIT ∧ s.live pid = false)) ∨
      ∃ child, memory = true ∧ 1 ≤ child ∧ child < PROCESS_LIMIT ∧ s.live child = false ∧
        t.live = update s.live child true ∧ ∀ k, t.files k =
          if k.1 = child ∧ k.2 < PROCESS_FILE_LIMIT then s.files (parent, k.2) else s.files k) := by
  unfold taskFork at call
  split at call
  case h_1 none =>
    cases call
    refine ⟨rfl, .inl ⟨rfl, ?_⟩⟩
    rintro ⟨-, pid, low, high, dead⟩
    have := find?_eq_none.1 none pid (mem_range'_1.2 (by omega))
    simp [dead] at this
  case h_2 child found =>
    obtain ⟨low, high, dead⟩ := freePid_eq_some found
    split at call
    · grind
    have other : child ≠ parent := by grind
    cases call
    have copied := copyFiles_files other s (range PROCESS_FILE_LIMIT)
    have flags := copyFiles_fdflags s parent child (range PROCESS_FILE_LIMIT)
    have lives := copyFiles_live s parent child (range PROCESS_FILE_LIMIT)
    generalize s.copyFiles parent child (range PROCESS_FILE_LIMIT) = u at copied flags lives
    have same := vfsRefInode_same { u with cwd := update u.cwd child (u.cwd parent) }
      (update u.cwd child (u.cwd parent) parent)
    refine ⟨?_, .inr ⟨child, by simpa using ‹¬¬memory = true›, low, high, dead, ?_, ?_⟩⟩
    · exact (vfsRefInode_fdflags ..).trans flags
    · dsimp only
      rw [same.live, lives]
    · intro k
      simp only [same.files, copied, mem_range]

/-! ### Marks and flags -/

/-- Every open descriptor has its mark as its flag. -/
def Agree (s : Files) (marks : Nat × Nat → Bool) : Prop :=
  ∀ k, s.files k ≠ none → marks k = s.cloexec k

/-- A process without a task has no flag set. -/
def IdleFlags (s : Files) : Prop := ∀ k, s.live k.1 = false → s.cloexec k = false

/-- Under an exec the descriptors of `p` that are marked are closed, and no others. -/
def ExecLaw (s : Files) (marks : Nat × Nat → Bool) : Prop :=
  ∀ p k, (s.closeOnExec p).files k = if k.1 = p ∧ marks k = true then none else s.files k

variable {marks : Nat × Nat → Bool}

theorem execLaw_iff (ok : Ok s) : ExecLaw s marks ↔ Agree s marks := by
  have closed (p : Nat) (k : Nat × Nat) : (s.closeOnExec p).files k =
      if k.1 = p ∧ s.cloexec k = true then none else s.files k := by
    unfold closeOnExec cloexec
    simp only [freeAll_files, mem_filter, mem_range]
    cases points : s.files k with
    | none => simp
    | some e =>
      have inside := (mem_slots.1 (ok.table.inside k e points).1).2
      grind
  simp only [ExecLaw, closed, Agree]
  constructor
  case mp =>
    intro law k points
    have here := law k.1 k
    grind
  case mpr => grind

/-- Where the flags of open descriptors stay, only new descriptors matter. -/
theorem agree_iff_new {first : Nat × Nat → Bool} (agree : Agree s marks)
    (kept : ∀ k, s.files k ≠ none → t.files k ≠ none → t.cloexec k = s.cloexec k) :
    Agree t (fun k => if New s t k then first k else marks k) ↔
      ∀ k, New s t k → first k = t.cloexec k := by
  unfold Agree New at *
  grind

theorem agree_iff_flags (agree : Agree s marks) (flags : t.fdflags = s.fdflags) :
    Agree t (fun k => if New s t k then false else marks k) ↔
      ∀ k, New s t k → s.cloexec k = false := by
  have kept (k : Nat × Nat) : t.cloexec k = s.cloexec k := by unfold cloexec; rw [flags]
  rw [@agree_iff_new s t marks (fun _ => false) agree fun k _ _ => kept k]
  simp only [kept, eq_comm]

theorem IdleFlags.of_same (idle : IdleFlags s) (live : t.live = s.live)
    (flags : t.fdflags = s.fdflags) : IdleFlags t := by
  unfold IdleFlags cloexec at *
  rw [live, flags]
  exact idle

theorem fcntl_agree {fd arg : Int} {cmd : FcntlCmd} (agree : Agree s marks) :
    Agree (s.fcntl p fd cmd arg).2
      (s.marksAfter (s.fcntl p fd cmd arg).2 p marks (.fcntl fd cmd arg)) := by
  generalize call : s.fcntl p fd cmd arg = result
  obtain ⟨r, t⟩ := result
  unfold Agree at *
  have := (fcntl_flags call).2
  cases cmd <;> simp only [marksAfter, firstMark, New, cloexec] at * <;>
    grind [freeDescriptor_eq_some, FD_CLOEXEC]

theorem fcntl_idle (live : s.live p = true) (idle : IdleFlags s) :
    IdleFlags (s.fcntl p fd cmd arg).2 := by
  generalize call : s.fcntl p fd cmd arg = result
  obtain ⟨same, _⟩ := fcntl_flags call
  intro k dead
  rw [same] at dead
  have old := idle k dead
  unfold cloexec at *
  grind

theorem sysClose_same (s : Files) (p : Nat) (fd : Int) :
    (s.sysClose p fd).2.live = s.live ∧ (s.sysClose p fd).2.fdflags = s.fdflags ∧
      ∀ k, (s.sysClose p fd).2.files k =
        if k.1 = p ∧ descriptor fd = some k.2 then none else s.files k := by
  unfold sysClose
  cases index : descriptor fd with
  | none => simp
  | some n =>
    refine ⟨(processFreeFd_keeps s p n).live, processFreeFd_fdflags s p n, fun k => ?_⟩
    rw [processFreeFd_files, update_apply]
    grind

/-- `fd2` is closed, so the new descriptor is `fd2`. -/
theorem sysDup2_agree {fd1 fd2 : Int} (agree : Agree s marks) :
    Agree (s.sysDup2 p fd1 fd2).2
      (s.marksAfter (s.sysDup2 p fd1 fd2).2 p marks (.dup2 fd1 fd2)) := by
  obtain ⟨-, flags, files⟩ := sysClose_same s p fd2
  unfold sysDup2
  generalize (s.sysClose p fd2).2 = u at flags files
  have closed : Agree u marks := by
    unfold Agree cloexec at *
    grind
  have dup := @fcntl_agree u p marks fd1 fd2 .F_DUPFD closed
  generalize call : u.fcntl p fd1 .F_DUPFD fd2 = result at dup
  have cases := (fcntl_flags call).2
  have self {n : Nat} : descriptor fd2 = some n → u.freeDescriptor p n = some n := by
    intro index
    refine freeDescriptor_self (by grind) ?_
    unfold descriptor at index
    grind
  unfold Agree at *
  simp only [marksAfter, firstMark, New] at *
  grind

theorem processFree_fdflags (live : s.live p = true) (k : Nat × Nat) :
    (s.processFree p).fdflags k = if k.1 = p then 0 else s.fdflags k := by
  unfold processFree
  rw [if_pos live]
  dsimp only
  rw [freeAll_fdflags, vfsUnrefInode_fdflags]

/-- What one call has to fulfil, given that it was so before. -/
theorem fileStep_agree {call : FileCall} (sound : Sound s) (idle : IdleFlags s)
    (agree : Agree s marks) (step : fileStep s (p, call) = some t) :
    (Agree t (s.marksAfter t p marks call) ↔ Untainted s p call) ∧ IdleFlags t := by
  have ok := sound.ok
  have moves := (@fileStep_moves s t p call 0 (fun _ => 0) sound.clean step).2.2
  unfold fileStep at step
  simp only at step
  split at step
  case isFalse => cases step
  case isTrue valid =>
    obtain ⟨-, live, -⟩ := valid
    cases call with
    | openFile fd how =>
      cases step
      obtain ⟨flags, new⟩ := openFile_new s p fd how
      exact ⟨(agree_iff_flags agree flags).trans new,
        idle.of_same (moves.resolve_right nofun).keeps.live flags⟩
    | pipe memory =>
      obtain ⟨⟨r, u⟩, made, rfl⟩ := map_eq_some_iff.1 step
      obtain ⟨flags, new⟩ := sysPipe_new made
      exact ⟨(agree_iff_flags agree flags).trans new,
        idle.of_same (moves.resolve_right nofun).keeps.live flags⟩
    | close fd =>
      cases step
      obtain ⟨lives, flags, files⟩ := sysClose_same s p fd
      refine ⟨(agree_iff_flags agree flags).trans ?_, idle.of_same lives flags⟩
      simp only [New, files, Untainted]
      grind
    | fcntl fd =>
      cases step
      exact ⟨iff_of_true (fcntl_agree agree) trivial, fcntl_idle live idle⟩
    | dup fd =>
      cases step
      exact ⟨iff_of_true (@fcntl_agree s p marks fd 0 .F_DUPFD agree) trivial,
        fcntl_idle live idle⟩
    | dup2 _ fd2 =>
      cases step
      refine ⟨iff_of_true (sysDup2_agree agree) trivial, ?_⟩
      obtain ⟨kept, flags, -⟩ := sysClose_same s p fd2
      exact fcntl_idle (kept ▸ live) (idle.of_same kept flags)
    | fork memory =>
      cases step
      generalize call : s.taskFork p memory = result
      obtain ⟨r, t⟩ := result
      obtain ⟨flags, cases⟩ := taskFork_cases live call
      have kept (k : Nat × Nat) : t.cloexec k = s.cloexec k := by unfold cloexec; rw [flags]
      constructor
      case left =>
        refine (@agree_iff_new s t marks (fun k => marks (p, k.2)) agree fun k _ _ => kept k).trans ?_
        simp only [kept]
        obtain ⟨rfl, _⟩ | ⟨child, room, low, high, dead, -, files⟩ := cases
        · grind [New, Untainted]
        constructor
        case mp =>
          intro same _ _ fd points
          obtain ⟨e, points'⟩ := ne_none_iff_exists'.1 points
          have narrow := (mem_slots.1 (ok.table.inside _ _ points').1).2
          have new : New s t (child, fd) := ⟨ok.idle _ dead, by simpa [files, narrow] using points⟩
          rw [← agree _ points, same _ new]
          exact idle _ dead
        case mpr =>
          rintro clear ⟨i, fd⟩ ⟨empty, points⟩
          rw [files] at points
          have own : i = child ∧ fd < PROCESS_FILE_LIMIT := by
            by_contra other
            rw [if_neg other] at points
            exact points empty
          rw [if_pos own] at points
          rw [agree _ points, clear room ⟨child, low, high, dead⟩ fd points, own.1, idle _ dead]
      case right =>
        intro k dead
        rw [kept]
        refine idle k ?_
        obtain ⟨rfl, -⟩ | ⟨child, -, -, -, -, lives, -⟩ := cases
        · exact dead
        · rw [lives, update_apply] at dead
          grind
    | exec =>
      cases step
      have flags : (s.closeOnExec p).fdflags = s.fdflags := freeAll_fdflags ..
      refine ⟨(agree_iff_flags agree flags).trans ?_, idle.of_same (freeAll_keeps ..).live flags⟩
      simp only [New, closeOnExec, freeAll_files, Untainted]
      grind
    | exit =>
      cases step
      have files := processFree_files ok.table live
      have flags := @processFree_fdflags s p live
      constructor
      case left =>
        unfold Agree cloexec at *
        simp only [marksAfter, New, firstMark, Untainted, files, flags]
        grind
      case right =>
        intro k dead
        have old := idle k
        rw [processFree_live s live, update_apply] at dead
        unfold cloexec at *
        grind [FD_CLOEXEC]

end Files

/-- A state with the marks that its descriptors should have. -/
structure MarkedFiles where
  files : Files
  marks : Nat × Nat → Bool

def markStep (s : MarkedFiles) (call : Nat × FileCall) : Option MarkedFiles :=
  (fileStep s.files call).map fun t => ⟨t, s.files.marksAfter t call.1 s.marks call.2⟩

def MarkedFiles.boot : MarkedFiles := ⟨.boot, fun _ => false⟩

/-- After every call an exec of any process would close exactly the marked descriptors, if and
only if every call meets clear flags. -/
theorem close_on_exec_iff (calls : List (Nat × FileCall)) :
    Runs.Each markStep (fun _ _ t => t.files.ExecLaw t.marks) .boot calls ↔
      Runs.Each markStep (fun s call _ => s.files.Untainted call.1 call.2) .boot calls := by
  have step (s : MarkedFiles) (call : Nat × FileCall) (t : MarkedFiles)
      (inv : s.files.Sound ∧ s.files.IdleFlags ∧ s.files.Agree s.marks) (h : markStep s call = some t) :
      t.files.Sound ∧ t.files.IdleFlags ∧
        (t.files.Agree t.marks ↔ s.files.Untainted call.1 call.2) := by
    obtain ⟨u, step, rfl⟩ := Option.map_eq_some_iff.1 h
    obtain ⟨iff, idle⟩ := Files.fileStep_agree inv.1 inv.2.1 inv.2.2 step
    exact ⟨(@fileStep_sound _ _ _ 0 (fun _ => 0) inv.1 step).1, idle, iff⟩
  refine @Runs.each_iff MarkedFiles (Nat × FileCall) calls markStep _ _
    (fun s => s.files.Sound ∧ s.files.IdleFlags ∧ s.files.Agree s.marks) ?_ ?_ _ ?_
  · intro s call t inv h
    obtain ⟨ok, -, iff⟩ := step s call t inv h
    exact (Files.execLaw_iff ok.ok).trans iff
  · intro s call t inv h clear
    obtain ⟨ok, idle, iff⟩ := step s call t inv h
    exact ⟨ok, idle, iff.2 clear⟩
  · exact ⟨Files.boot_sound, fun _ _ => rfl, fun _ points => absurd rfl points⟩

/-- The descriptor 0 is closed with its flag set and opened again. -/
def reopened : List (Nat × FileCall) :=
  let openFile := .openFile ⟨0, fileLimit_pos⟩ (.opened .fresh "/a" 0 0)
  [(0, openFile), (0, .fcntl 0 .F_SETFD 1), (0, .close 0), (0, openFile)]

/-- An exec then closes it, although its flag was not set since. -/
theorem reopened_closed :
    ¬Runs.Each markStep (fun _ _ t => t.files.ExecLaw t.marks) .boot reopened := by
  intro law
  have last := (((law _ rfl).2 _ rfl).2 _ rfl).2 _ rfl
  have now := last.1 0 (0, 0)
  revert now
  decide +kernel

end Os0
