import Os0.Fs.RelVfsRefs

/-! What `sys_open` leaves behind when it fails. -/
namespace Os0

open Function Cmd Files

variable {F : Type} {w : World F} {s t u : Caller F} {n e : Nat}

/-- Entries that are not in use are as `process_free_fd` leaves them. -/
def Caller.Tidy (s : Caller F) : Prop :=
  ∀ e, (s.files.table e).refcnt = 0 → s.files.table e = .unused

/-- They are so in every state that calls of processes lead to. -/
theorem Caller.Tidy.of_run {calls : List (Nat × FileCall)} (run : FileRun calls s.files) :
    s.Tidy :=
  run.sound.reset

/-- The descriptors, the table of open files and the references of inodes are as they were. -/
structure Undone (s t : Caller F) : Prop where
  files : t.files.files = s.files.files
  table : t.files.table = s.files.table
  refs : ∀ i, t.refcnt i = s.refcnt i

/-- From `s` to `t` the descriptor `n` has taken the entry `e`. -/
structure Taken (p n e : Nat) (s t : Caller F) : Prop where
  free : s.files.files (p, n) = none
  unused : s.files.table e = .unused
  files : t.files.files = Function.update s.files.files (p, n) (some e)
  table : ∃ file : ProcessFile, file.refcnt = 1 ∧
    t.files.table = Function.update s.files.table e file

theorem ends_alloc_taken (tidy : s.Tidy) :
    Cmd.Ends w.processAllocFd s (fun n t => ∃ e, Taken w.pid n e s t) (fun _ t => t = s) := by
  unfold Cmd.Ends World.processAllocFd processAllocFd
  cases entry : s.files.freeEntry with
  | none => rfl
  | some e =>
    cases free : s.files.freeDescriptor w.pid 0 with
    | none => rfl
    | some n =>
      obtain ⟨zero, -⟩ := freeEntry_eq_some entry
      exact ⟨e, (freeDescriptor_eq_some free).1, tidy e zero, rfl, _, rfl, rfl⟩

section

variable (h : Taken w.pid n e s t)
include h

theorem Taken.owes {d : Nat → Int} (owes : Owes t d u) :
    Taken w.pid n e s u where
  free := h.free
  unused := h.unused
  files := owes.files.trans h.files
  table := by rw [owes.table]; exact h.table

theorem Taken.fill (i : Nat) (path : Option String) (mode offset : Int) :
    Taken w.pid n e s (w.fill n i path mode offset t) := by
  have points : t.files.files (w.pid, n) = some e := by rw [h.files, update_self]
  have filled : (w.fill n i path mode offset t).files =
      t.files.setEntry e ⟨some i, path, mode, offset, (t.files.table e).refcnt⟩ := by
    simp [World.fill, Files.fill, points]
  obtain ⟨_, one, table⟩ := h.table
  exact ⟨h.free, h.unused, by rw [filled]; exact h.files,
    ⟨some i, path, mode, offset, (t.files.table e).refcnt⟩, by simp [table, one],
    by simp [filled, setEntry, table]⟩

theorem Taken.freeFd :
    (w.freeFd n t).files.files = s.files.files ∧ (w.freeFd n t).files.table = s.files.table := by
  have points : t.files.files (w.pid, n) = some e := by rw [h.files, update_self]
  obtain ⟨_, one, table⟩ := h.table
  constructor
  · simp only [World.freeFd, processFreeFd_files, h.files, update_idem]
    exact update_eq_self_iff.2 h.free.symm
  · have zero : (((t.files.setFile w.pid n none).addRefcnt e (-1)).table e).refcnt = 0 := by
      simp [addRefcnt, setEntry, setFile, table, one]
    have reset : update s.files.table e .unused = s.files.table :=
      update_eq_self_iff.2 h.unused.symm
    simp only [World.freeFd, Files.processFreeFd, points, if_pos zero]
    split <;> simp [Files.setEntry, Files.unref_table, Files.addRefcnt, Files.setFile, table, reset]

end

/-- Whatever the error, descriptors and table are put back. -/
theorem ends_sysOpen_tables (tidy : s.Tidy) (path : String) (flags mode : Nat) :
    Cmd.Ends (w.sysOpen path flags mode) s (fun _ _ => True) fun h t => h ≠ .never →
      t.files.files = s.files.files ∧ t.files.table = s.files.table := by
  refine ends_bind ((ends_alloc_taken tidy).mono ?_ ?_)
  case refine_2 =>
    rintro h t rfl -
    exact ⟨rfl, rfl⟩
  rintro n u ⟨e, taken⟩
  refine ends_bind (ends_onError ((settles_openInode path flags mode u).mono ?_ ?_))
  case refine_2 => exact fun h t owes fails => (taken.owes (owes fails)).freeFd
  intro inode t owes
  have filled := (taken.owes owes).fill inode none 0 0
  have back {v : Caller F} (stays : Owes (w.fill n inode none 0 0 t) 0 v) :=
    (filled.owes (stays.trans (.unref v inode))).freeFd
  refine ends_bind (ends_modify (ends_bind (ends_get ?_)))
  dsimp only
  split
  · exact ends_bind (ends_modify (ends_fail fun _ => back (.refl _)))
  · refine ends_bind (ends_run rfl ?_)
    split
    · exact ends_bind (ends_modify (ends_fail fun _ => back (answer_owes _ _)))
    · exact ends_bind (ends_modify (ends_pure trivial))

/-- A failing `sys_open` undoes what it did if and only if it does not fail once it has the inode
and has stored it: the access mode suits the file, and there is memory for the path. -/
theorem open_fails_iff (tidy : s.Tidy) (path : String) (flags mode : Nat) :
    (∀ err t, w.sysOpen path flags mode s = (.error (.errno err), t) → Undone s t) ↔
      ∀ n u inode t, w.processAllocFd s = (.ok n, u) →
        w.openInode path flags mode u = (.ok inode, t) → w.Fills t path flags inode := by
  have clean : s.files.Clean := fun e zero => by rw [Files.inodeOf, tidy e zero]; rfl
  constructor
  case mp =>
    intro law n u inode t alloc opens
    by_contra fails
    obtain ⟨same, -, e, sole⟩ := (ends_processAllocFd clean).of_run alloc
    have owes : Owes u (one inode) t := (settles_openInode path flags mode u).of_run opens
    obtain ⟨err, v, late, twice⟩ := (owes.sole sole).fillFd_fails fails
    have run : w.sysOpen path flags mode s = (.error (.errno err), v) := by
      unfold World.sysOpen
      rw [Cmd.bind_ok alloc, Cmd.bind_ok (Cmd.onError_run opens), late]
    have undone := (law err v run).refs inode
    have odd := ((same.trans (owes.restored w.pid)).trans twice).refs inode
    simp at odd
    omega
  case mpr =>
    intro fine err t run
    have returns : Halt.errno err ≠ .never := by rintro ⟨⟩
    obtain ⟨files, table⟩ := (ends_sysOpen_tables tidy path flags mode).of_run run returns
    exact ⟨files, table, (ends_sysOpen clean fine).of_run run returns⟩

theorem open_fails_iff_missing : smallCaller.Tidy ∧
    ∀ err t, smallWorld.sysOpen "b" 0 0 smallCaller = (.error (.errno err), t) →
      Undone smallCaller t := by
  have tidy : smallCaller.Tidy := .of_run (.nil boot)
  refine ⟨tidy, (open_fails_iff tidy "b" 0 0).2 fun n u inode t alloc opens => ?_⟩
  cases alloc
  cases opens

/-- The root directory opened for writing loses a reference that others hold. -/
theorem open_directory_unrefs :
    (smallWorld.sysOpen "/" O_WRONLY 0 smallCaller).1 = .error (.errno .EISDIR) ∧
      ¬Undone smallCaller (smallWorld.sysOpen "/" O_WRONLY 0 smallCaller).2 := by
  refine ⟨by decide, fun undone => ?_⟩
  exact absurd (undone.refs 0) (by decide)

end Os0
