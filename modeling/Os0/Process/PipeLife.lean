import Os0.Process.FileTable

/-! Over every run of calls the table of open files counts descriptors, and a pipe is released
once, when no descriptor refers to either of its ends any more. -/
namespace Os0

open Refs Function List Option Files

namespace Files

/-- The entries of the table that can be in use. -/
@[irreducible] def entries : Finset Nat := Finset.range PROCESS_SYS_FILE_LIMIT

variable {path : Option String} {mode offset : Int} {memory : PipeMemory}

variable {file : ProcessFile} {found : Found} {q' readFd writeFd : Nat}
  {r : Except Errno (Nat × Nat)}

theorem mem_entries {e : Nat} : e ∈ entries ↔ e < PROCESS_SYS_FILE_LIMIT := by
  unfold entries
  rw [Finset.mem_range]

/-- Unused entries have no inode. -/
def Clean (s : Files) : Prop := ∀ e, (s.table e).refcnt = 0 → s.inodeOf e = none

/-- Unused entries are as `process_free_fd` leaves them. -/
def AllReset (s : Files) : Prop := ∀ e, (s.table e).refcnt = 0 → s.table e = .unused

theorem AllReset.clean {s : Files} (reset : AllReset s) : Clean s := fun e zero => by
  rw [inodeOf, reset e zero]
  rfl

/-- An entry that is out of use was so before, or it is as `process_free_fd` leaves it. -/
def Resets (s t : Files) : Prop :=
  ∀ e, (t.table e).refcnt = 0 → t.table e = s.table e ∨ t.table e = .unused

/-- What has no name yet is not referred to, and no working directory is a pipe. -/
structure Tidy (s : Files) : Prop where
  entry : ∀ e i, s.inodeOf e = some i → i < s.nextInode
  cwd : ∀ p i, s.cwd p = some i → (s.inodes i).kind = .plain ∧ i < s.nextInode
  pipe : ∀ i b q, (s.inodes i).kind = .pipeEnd b q → q < s.nextPipe ∧ i < s.nextInode
  unreleased : ∀ q, s.nextPipe ≤ q → s.released q = 0

/-- The ends of the pipe `q`, each with the number of its references, and whether the pipe is
still there. -/
structure Holds (q : Nat) (ends : Bool → Nat) (s : Files) : Prop where
  kind : ∀ b, (s.inodes (ends b)).kind = .pipeEnd b q
  only : ∀ i b, (s.inodes i).kind = .pipeEnd b q → i = ends b
  counted : ∀ b, (s.inodes (ends b)).refcnt = refs entries s.inodeOf (ends b)
  closed : ∀ b, (s.pipes q).closed b = true ↔ (s.inodes (ends b)).refcnt = 0
  released : s.released q = if (s.pipes q).bothClosed then 1 else 0

/-- A step that leaves inodes and pipes alone. -/
structure SameInodes (s t : Files) : Prop where
  inode : t.inodeOf = s.inodeOf
  cwd : t.cwd = s.cwd
  inodes : t.inodes = s.inodes
  nextInode : t.nextInode = s.nextInode
  pipes : t.pipes = s.pipes
  nextPipe : t.nextPipe = s.nextPipe
  released : t.released = s.released

variable {s t u : Files} {p fd e n q i j : Nat} {ends : Bool → Nat}

theorem SameInodes.refl (s : Files) : SameInodes s s := ⟨rfl, rfl, rfl, rfl, rfl, rfl, rfl⟩

theorem SameInodes.trans (h : SameInodes s t) (k : SameInodes t u) : SameInodes s u where
  inode := k.inode.trans h.inode
  cwd := k.cwd.trans h.cwd
  inodes := k.inodes.trans h.inodes
  nextInode := k.nextInode.trans h.nextInode
  pipes := k.pipes.trans h.pipes
  nextPipe := k.nextPipe.trans h.nextPipe
  released := k.released.trans h.released

/-- The ends of a pipe stay counted where a step keeps their inodes and the references to them. -/
theorem Holds.congr (h : Holds q ends s) (inodes : ∀ b, t.inodes (ends b) = s.inodes (ends b))
    (kinds : ∀ j b, (t.inodes j).kind = .pipeEnd b q → (s.inodes j).kind = .pipeEnd b q)
    (count : ∀ b, refs entries t.inodeOf (ends b) = refs entries s.inodeOf (ends b))
    (pipe : t.pipes q = s.pipes q) (released : t.released q = s.released q) :
    Holds q ends t where
  kind b := by rw [inodes]; exact h.kind b
  only j b kind := h.only j b (kinds j b kind)
  counted b := by rw [inodes, count]; exact h.counted b
  closed b := by rw [inodes, pipe]; exact h.closed b
  released := by rw [pipe, released]; exact h.released

/-- New names go to new inodes and new pipes. -/
theorem Tidy.grow (h : Tidy s) (inode : t.inodeOf = s.inodeOf) (cwd : t.cwd = s.cwd)
    (old : ∀ i, i < s.nextInode → (t.inodes i).kind = (s.inodes i).kind)
    (new : ∀ i b q, s.nextInode ≤ i → (t.inodes i).kind = .pipeEnd b q →
      q < t.nextPipe ∧ i < t.nextInode)
    (inodes : s.nextInode ≤ t.nextInode) (pipes : s.nextPipe ≤ t.nextPipe)
    (released : ∀ q, s.nextPipe ≤ q → t.released q = s.released q) : Tidy t where
  entry e i points := (h.entry e i (inode ▸ points)).trans_le inodes
  cwd p i at_ := by
    obtain ⟨plain, lt⟩ := h.cwd p i (cwd ▸ at_)
    exact ⟨(old i lt).trans plain, lt.trans_le inodes⟩
  pipe i b q kind := by
    rcases lt_or_ge i s.nextInode with lt | ge
    · have named := (h.pipe i b q ((old i lt).symm.trans kind)).1
      exact ⟨named.trans_le pipes, lt.trans_le inodes⟩
    · exact new i b q ge kind
  unreleased q later := by
    have later := pipes.trans later
    rw [released q later]
    exact h.unreleased q later

theorem SameInodes.holds (h : SameInodes s t) (held : Holds q ends s) : Holds q ends t :=
  held.congr (fun _ => by rw [h.inodes]) (fun _ _ => by rw [h.inodes]; exact id)
    (fun _ => by rw [h.inode]) (by rw [h.pipes]) (by rw [h.released])

theorem SameInodes.tidy (h : SameInodes s t) (tidy : Tidy s) : Tidy t where
  entry := by rw [h.inode, h.nextInode]; exact tidy.entry
  cwd := by rw [h.cwd, h.inodes, h.nextInode]; exact tidy.cwd
  pipe := by rw [h.inodes, h.nextPipe, h.nextInode]; exact tidy.pipe
  unreleased := by rw [h.nextPipe, h.released]; exact tidy.unreleased

/-! ### References to inodes -/

theorem Holds.ends_ne (h : Holds q ends s) (b : Bool) : ends (!b) ≠ ends b := by
  intro same
  have kind := h.kind (!b)
  rw [same, h.kind b] at kind
  cases b <;> cases kind

theorem Holds.off_plain (h : Holds q ends s) (plain : (s.inodes i).kind = .plain) (b : Bool) :
    i ≠ ends b := by
  rintro rfl
  rw [h.kind b] at plain
  cases plain

theorem addRef_kind (s : Files) (i : Nat) (d : Int) (j : Nat) :
    ((s.addRef i d).inodes j).kind = (s.inodes j).kind := by
  by_cases same : j = i
  · rw [same]
    simp [addRef]
  · simp [addRef, same]

theorem addRef_of_ne (s : Files) (d : Int) (ne : j ≠ i) : (s.addRef i d).inodes j = s.inodes j := by
  simp [addRef, ne]

theorem Tidy.addRef (h : Tidy s) (i : Nat) (d : Int) : Tidy (s.addRef i d) where
  __ := h
  cwd p j at_ := by
    rw [addRef_kind]
    exact h.cwd p j at_
  pipe j b q kind := by
    rw [addRef_kind] at kind
    exact h.pipe j b q kind

theorem Holds.addRef (h : Holds q ends s) (d : Int) (off : ∀ b, i ≠ ends b) :
    Holds q ends (s.addRef i d) :=
  h.congr (fun b => addRef_of_ne s d (off b).symm) (fun j _ => by rw [addRef_kind]; exact id)
    (fun _ => rfl) rfl rfl

theorem Tidy.kfreePipe (h : Tidy s) (named : q < s.nextPipe) : Tidy (s.kfreePipe q) := by
  refine { h with unreleased := fun j later => ?_ }
  change s.nextPipe ≤ j at later
  have ne : j ≠ q := by omega
  simpa [Files.kfreePipe, ne] using h.unreleased j later

theorem Tidy.destroyInode (h : Tidy s) (i : Nat) : Tidy (s.destroyInode i) := by
  unfold Files.destroyInode
  split
  · exact h
  · rename_i b q kind
    dsimp only
    have closed : Tidy { s with pipes := update s.pipes q ((s.pipes q).close b) } :=
      { h with }
    split
    · exact closed.kfreePipe (h.pipe i b q kind).1
    · exact closed

theorem Holds.destroyInode (h : Holds q ends s) (off : ∀ b, i ≠ ends b) :
    Holds q ends (s.destroyInode i) := by
  unfold Files.destroyInode
  split
  · exact h
  · rename_i b q' kind
    have ne : q ≠ q' := by
      rintro rfl
      exact off b (h.only i b kind)
    dsimp only
    split
    · exact h.congr (fun _ => rfl) (fun _ _ => id) (fun _ => rfl) (by simp [kfreePipe, ne])
        (by simp [kfreePipe, ne])
    · exact h.congr (fun _ => rfl) (fun _ _ => id) (fun _ => rfl) (by simp [ne]) rfl

theorem Tidy.unref (h : Tidy s) (i : Option Nat) : Tidy (s.vfsUnrefInode i) := by
  cases i with
  | none => exact h
  | some i =>
    unfold vfsUnrefInode
    dsimp only
    split
    · exact (h.addRef i (-1)).destroyInode i
    · exact h.addRef i (-1)

theorem Holds.unref (h : Holds q ends s) (off : ∀ b, i ≠ ends b) :
    Holds q ends (s.vfsUnrefInode (some i)) := by
  unfold vfsUnrefInode
  dsimp only
  split
  · exact (h.addRef (-1) off).destroyInode off
  · exact h.addRef (-1) off

theorem unref_inodeOf (s : Files) (i : Option Nat) : (s.vfsUnrefInode i).inodeOf = s.inodeOf := by
  unfold inodeOf
  rw [unref_table]

theorem inodeOf_setEntry (s : Files) (e : Nat) (file : ProcessFile) :
    (s.setEntry e file).inodeOf = update s.inodeOf e file.inode := by
  funext j
  by_cases same : j = e
  · rw [same]
    simp [inodeOf, setEntry]
  · simp [inodeOf, setEntry, same]

theorem setEntry_inodes (inode : file.inode = s.inodeOf e) : SameInodes s (s.setEntry e file) := by
  refine ⟨?_, rfl, rfl, rfl, rfl, rfl, rfl⟩
  rw [inodeOf_setEntry, inode]
  exact update_eq_self e s.inodeOf

theorem addRefcnt_inodes (s : Files) (p fd : Nat) (o : Option Nat) (e : Nat) (d : Int) :
    SameInodes s ((s.setFile p fd o).addRefcnt e d) := by
  have same : SameInodes (s.setFile p fd o) ((s.setFile p fd o).addRefcnt e d) :=
    setEntry_inodes rfl
  exact { same with }

theorem fill_eq {inode : Option Nat}
    (points : s.files (p, fd) = some e) : s.fill p fd inode path mode offset =
      s.setEntry e ⟨inode, path, mode, offset, (s.table e).refcnt⟩ := by
  unfold fill
  rw [points]

theorem Holds.setEntry (h : Holds q ends s)
    (before : ∀ b, s.inodeOf e ≠ some (ends b)) (after : ∀ b, file.inode ≠ some (ends b)) :
    Holds q ends (s.setEntry e file) := by
  refine h.congr (fun _ => rfl) (fun _ _ => id) (fun b => ?_) rfl rfl
  refine Tally.count_congr fun j _ => ?_
  rw [inodeOf_setEntry]
  by_cases same : j = e
  · rw [same, update_self]
    simp [before b, after b]
  · rw [update_of_ne same]

/-! ### The last descriptor of an entry -/

theorem closeEntry_inodeOf (s : Files) (e : Nat) :
    (s.closeEntry e).inodeOf = update s.inodeOf e none := by
  unfold closeEntry
  rw [inodeOf_setEntry, unref_inodeOf]
  rfl

theorem Tidy.closeEntry (h : Tidy s) (e : Nat) : Tidy (s.closeEntry e) := by
  have dropped := h.unref (s.inodeOf e)
  refine { dropped with entry := fun j i points => ?_ }
  rw [closeEntry_inodeOf, update_apply] at points
  split_ifs at points with same
  rw [← unref_inodeOf s (s.inodeOf e)] at points
  exact dropped.entry j i points

/-- The number of references to an end after one of its entries was closed. -/
theorem refs_closeEntry {a : Nat} (mem : e ∈ entries) (at_e : s.inodeOf e = some i) :
    (refs entries (s.closeEntry e).inodeOf a : Int) =
      refs entries s.inodeOf a - if a = i then 1 else 0 := by
  have back := refs_clear (b := a) at_e mem
  rw [closeEntry_inodeOf]
  split_ifs at back ⊢ with same
  · omega
  · omega

/-- Where the closed entry was one of an end, the end loses a reference. -/
theorem Holds.closeEnd (h : Holds q ends s) (mem : e ∈ entries) {b : Bool}
    (at_e : s.inodeOf e = some (ends b)) : Holds q ends (s.closeEntry e) := by
  have pos : 0 < refs entries s.inodeOf (ends b) := refs_pos mem at_e
  have count := h.counted b
  have open_ : (s.pipes q).closed b = false := by
    rw [← Bool.not_eq_true, h.closed b]
    omega
  have refcnt (a : Bool) : ((s.addRef (ends b) (-1)).inodes (ends a)).refcnt =
      refs entries (s.closeEntry e).inodeOf (ends a) := by
    rw [refs_closeEntry mem at_e, ← h.counted a]
    by_cases same : ends a = ends b
    · rw [same]
      simp [Files.addRef, sub_eq_add_neg]
    · simp [Files.addRef, same]
  have other (a : Bool) (ne : a ≠ b) : (s.pipes q).closed a = true ↔
      ((s.addRef (ends b) (-1)).inodes (ends a)).refcnt = 0 := by
    have at_other : a = !b := by cases a <;> cases b <;> simp_all
    rw [at_other, addRef_of_ne s _ (h.ends_ne b)]
    exact h.closed (!b)
  have unreleased : s.released q = 0 := by
    rw [h.released, if_neg]
    unfold Pipe.bothClosed
    cases b <;> simp [open_]
  -- only the pipe is left to look at
  suffices rest : (∀ a, ((s.closeEntry e).pipes q).closed a = true ↔
        ((s.addRef (ends b) (-1)).inodes (ends a)).refcnt = 0) ∧
      (s.closeEntry e).released q = if ((s.closeEntry e).pipes q).bothClosed then 1 else 0 by
    have inodes : (s.closeEntry e).inodes = (s.addRef (ends b) (-1)).inodes := by
      obtain ⟨_, _, eq⟩ := vfsUnrefInode_eq s (ends b)
      unfold closeEntry
      rw [at_e, eq]
      rfl
    constructor
    case kind => exact fun a => inodes ▸ (addRef_kind ..).trans (h.kind a)
    case only =>
      intro j a kind
      rw [inodes, addRef_kind] at kind
      exact h.only j a kind
    case counted => exact inodes ▸ refcnt
    case closed => exact inodes ▸ rest.1
    case released => exact rest.2
  have target : s.closeEntry e = (s.vfsUnrefInode (some (ends b))).setEntry e .unused := by
    unfold closeEntry
    rw [at_e]
  unfold vfsUnrefInode at target
  dsimp only at target
  split at target
  · -- the end is destroyed
    rename_i last
    have shut (a : Bool) : ((s.pipes q).close b).closed a = true ↔
        ((s.addRef (ends b) (-1)).inodes (ends a)).refcnt = 0 := by
      rw [Pipe.closed_close]
      by_cases same : b = a
      · rw [← same]
        simp [last]
      · simpa [same] using other a (Ne.symm same)
    unfold Files.destroyInode at target
    rw [addRef_kind, h.kind b] at target
    dsimp only at target
    split at target
    · rename_i both
      have closed : ((s.pipes q).close b).bothClosed = true := by
        simpa [Files.addRef] using both
      rw [target]
      refine ⟨?_, ?_⟩
      · simpa [Files.setEntry, kfreePipe, Files.addRef] using shut
      · simp [Files.setEntry, kfreePipe, Files.addRef, unreleased, closed]
    · rename_i both
      have closed : ¬((s.pipes q).close b).bothClosed = true := by
        simpa [Files.addRef] using both
      rw [target]
      refine ⟨?_, ?_⟩
      · simpa [Files.setEntry, Files.addRef] using shut
      · simp [Files.setEntry, Files.addRef, unreleased, closed]
  · rename_i last
    rw [target]
    refine ⟨fun a => ?_, h.released⟩
    by_cases same : a = b
    · rw [same]
      change (s.pipes q).closed b = true ↔ _
      simp [open_, last]
    · exact other a same

theorem Holds.closeEntry (h : Holds q ends s) (mem : e ∈ entries) :
    Holds q ends (s.closeEntry e) := by
  by_cases at_end : ∃ b, s.inodeOf e = some (ends b)
  · obtain ⟨b, at_e⟩ := at_end
    exact h.closeEnd mem at_e
  · push Not at at_end
    unfold Files.closeEntry
    cases at_e : s.inodeOf e with
    | none => exact h.setEntry at_end fun _ => nofun
    | some i =>
      have off : ∀ b, i ≠ ends b := fun b same => at_end b (by rw [at_e, same])
      refine (h.unref off).setEntry (fun b => ?_) fun _ => nofun
      rw [unref_inodeOf]
      exact at_end b

/-! ### Entries that are not in use -/

theorem Resets.of_table (same : t.table = s.table) : Resets s t := fun _ _ => .inl (by rw [same])

theorem Resets.trans (h : Resets s t) (k : Resets t u) : Resets s u := by
  intro e zero
  rcases k e zero with same | unused
  · rw [same] at zero ⊢
    exact h e zero
  · exact .inr unused

theorem Resets.all (h : Resets s t) (reset : AllReset s) : AllReset t := by
  intro e zero
  rcases h e zero with same | unused
  · rw [same] at zero ⊢
    exact reset e zero
  · exact unused

theorem Resets.clean (h : Resets s t) (clean : Clean s) : Clean t := by
  intro e zero
  unfold inodeOf
  rcases h e zero with same | unused
  · rw [same] at zero ⊢
    exact clean e zero
  · rw [unused]
    rfl

theorem setEntry_resets (used : file.refcnt ≠ 0) : Resets s (s.setEntry e file) := by
  intro j zero
  by_cases here : j = e
  · subst here
    simp only [setEntry, update_self] at zero
    exact absurd zero used
  · exact .inl (update_of_ne here _ _)

/-! ### The calls -/

/-- A step of a process. The ends of the pipe stay counted, provided that `P`. -/
structure Moves (P : Prop) (q : Nat) (ends : Bool → Nat) (p : Nat) (s t : Files) : Prop where
  keeps : Keeps p s t
  resets : TableOk s → Resets s t
  tidy : TableOk s → Clean s → Tidy s → Tidy t
  held : P → TableOk s → Clean s → Tidy s → Holds q ends s → Holds q ends t

variable {P : Prop}

theorem Moves.trans (h : Moves P q ends p s t) (k : Moves P q ends p t u) :
    Moves P q ends p s u where
  keeps := h.keeps.trans k.keeps
  resets ok := (h.resets ok).trans (k.resets (h.keeps.ok ok))
  tidy ok clean tidy :=
    k.tidy (h.keeps.ok ok) ((h.resets ok).clean clean) (h.tidy ok clean tidy)
  held yes ok clean tidy held :=
    k.held yes (h.keeps.ok ok) ((h.resets ok).clean clean) (h.tidy ok clean tidy)
      (h.held yes ok clean tidy held)

theorem Moves.of_same (keeps : Keeps p s t) (same : SameInodes s t)
    (resets : TableOk s → Resets s t) : Moves P q ends p s t where
  keeps := keeps
  resets := resets
  tidy _ _ := same.tidy
  held _ _ _ _ := same.holds

theorem Moves.refl (s : Files) : Moves P q ends p s s :=
  .of_same (.refl p s) (.refl s) fun _ => .of_table rfl

theorem share_moves {k : Nat × Nat} (points : s.files k = some e) (empty : s.files (p, n) = none)
    (mem : (p, n) ∈ slots) : Moves P q ends p s ((s.setFile p n (some e)).addRefcnt e 1) := by
  refine .of_same (share_keeps points empty mem) (addRefcnt_inodes s p n _ e 1) fun ok => ?_
  have pos := ok.refcnt_pos points
  have used : (s.table e).refcnt + 1 ≠ 0 := by omega
  exact setEntry_resets (s := s.setFile p n (some e)) used

/-- What a successful `process_alloc_fd` leaves: a descriptor of an entry that was unused. -/
structure Allocated (p n e : Nat) (s t : Files) : Prop where
  points : t.files (p, n) = some e
  refcnt : (t.table e).refcnt = 1
  unused : (s.table e).refcnt = 0
  same : SameInodes s t
  others : ∀ j, j ≠ e → (t.table j).refcnt = (s.table j).refcnt
  files : ∀ k e', s.files k = some e' → t.files k = some e'

theorem processAllocFd_ok {fd : Fin PROCESS_FILE_LIMIT} (h : s.processAllocFd p fd = (.ok n, t)) :
    ∃ e, Allocated p n e s t := by
  rcases processAllocFd_cases h with ⟨_, ⟨⟩, -⟩ | ⟨n, e, ⟨⟩, empty, unused, rfl⟩
  refine ⟨e, ?_⟩
  constructor
  case points => exact update_self ..
  case refcnt => simp [setEntry]
  case unused => exact unused
  case same =>
    refine ⟨?_, rfl, rfl, rfl, rfl, rfl, rfl⟩
    refine (inodeOf_setEntry _ e _).trans ?_
    exact update_eq_self e s.inodeOf
  case others =>
    intro j ne
    simp [setEntry, setFile, ne]
  case files =>
    intro k _ points
    have ne : k ≠ (p, n) := by
      rintro rfl
      rw [empty] at points
      cases points
    exact (update_of_ne ne _ _).trans points

theorem processAllocFd_moves (s : Files) (fd : Fin PROCESS_FILE_LIMIT) (hp : p < PROCESS_LIMIT) :
    Moves P q ends p s (s.processAllocFd p fd).2 := by
  have keeps := processAllocFd_keeps s fd hp
  cases result : s.processAllocFd p fd with
  | mk r t =>
    rw [result] at keeps
    cases r with
    | error e =>
      rcases processAllocFd_cases result with ⟨_, -, rfl⟩ | ⟨_, _, ⟨⟩, _⟩
      exact .refl t
    | ok n =>
      obtain ⟨e, made⟩ := processAllocFd_ok result
      refine .of_same keeps made.same fun _ => ?_
      rcases processAllocFd_cases result with ⟨_, ⟨⟩, -⟩ | ⟨n, e, ⟨⟩, -, -, rfl⟩
      exact (setEntry_resets (s := s.setFile p n (some e)) one_ne_zero).trans (.of_table rfl)

theorem processFreeFd_moves (s : Files) (p fd : Nat) :
    Moves P q ends p s (s.processFreeFd p fd).2 := by
  have keeps := processFreeFd_keeps s p fd
  cases points : s.files (p, fd) with
  | none =>
    unfold processFreeFd
    rw [points]
    exact .refl s
  | some e =>
    have same : SameInodes s (s.leave p fd e) := addRefcnt_inodes s p fd none e (-1)
    have off (j : Nat) (ne : j ≠ e) : (s.leave p fd e).table j = s.table j := update_of_ne ne _ _
    obtain ⟨v, eq, ⟨rfl, more⟩ | ⟨rfl, -⟩⟩ := processFreeFd_cases points
    · rw [eq] at keeps ⊢
      refine .of_same keeps (same.trans ⟨rfl, rfl, rfl, rfl, rfl, rfl, rfl⟩) fun _ j zero => ?_
      by_cases at_e : j = e
      · exact absurd (at_e ▸ zero) more
      · exact .inl (off j at_e)
    · rw [eq] at keeps ⊢
      generalize s.leave p fd e = u at same off keeps ⊢
      have moved : SameInodes (u.closeEntry e) { u.closeEntry e with next := min e s.next } :=
        ⟨rfl, rfl, rfl, rfl, rfl, rfl, rfl⟩
      constructor
      case keeps => exact keeps
      case resets =>
        intro _ j _
        by_cases at_e : j = e
        · exact .inr (by simp [closeEntry, setEntry, at_e])
        · exact .inl (by simp [closeEntry, setEntry, unref_table, at_e, off])
      case tidy => exact fun _ _ tidy => moved.tidy ((same.tidy tidy).closeEntry e)
      case held =>
        intro _ ok _ _ held
        have mem : e ∈ entries := mem_entries.2 (ok.inside _ _ points).2
        exact moved.holds ((same.holds held).closeEntry mem)

theorem freeAll_moves (s : Files) (p : Nat) (fds : List Nat) :
    Moves P q ends p s (s.freeAll p fds) := by
  induction fds generalizing s with
  | nil => exact .refl s
  | cons fd fds ih => exact (processFreeFd_moves s p fd).trans (ih _)

theorem Moves.of_slots (slots : SameSlots s t) (table : t.table = s.table)
    (tidy : Tidy s → Tidy t) (held : P → Tidy s → Holds q ends s → Holds q ends t) :
    Moves P q ends p s t where
  keeps := slots.keeps
  resets _ := .of_table table
  tidy _ _ := tidy
  held yes _ _ := held yes

theorem unref_moves (s : Files) (i : Nat) :
    Moves (∀ b, i ≠ ends b) q ends p s (s.vfsUnrefInode (some i)) :=
  .of_slots (vfsUnrefInode_same s _) (unref_table s _) (fun tidy => tidy.unref _)
    fun off _ held => held.unref off

theorem Moves.imp {Q : Prop} (h : Moves P q ends p s t)
    (weaken : Q → Tidy s → Holds q ends s → P) : Moves Q q ends p s t where
  __ := h
  held yes ok clean tidy held := h.held (weaken yes tidy held) ok clean tidy held

/-- The inode of a lookup has a name, and it is no end of a pipe if an inode that was there
already is none. -/
theorem lookup_moves (s : Files) (found : Found) (named : ∀ i, found = .held i → i < s.nextInode) :
    Moves (∀ i, found = .held i → (s.inodes i).kind = .plain) q ends p s (s.lookup found).2 ∧
      (s.lookup found).1 < (s.lookup found).2.nextInode := by
  cases found with
  | held i =>
    refine ⟨.of_slots (addRef_same s i 1) rfl (fun tidy => tidy.addRef i 1) ?_, named i rfl⟩
    intro plain _ held
    exact held.addRef 1 (held.off_plain (plain i rfl))
  | fresh =>
    have off (j : Nat) (ne : j ≠ s.nextInode) : (s.lookup .fresh).2.inodes j = s.inodes j :=
      update_of_ne ne _ _
    have kinds (j : Nat) (b : Bool) (q : Nat)
        (kind : ((s.lookup .fresh).2.inodes j).kind = .pipeEnd b q) :
        j ≠ s.nextInode ∧ (s.inodes j).kind = .pipeEnd b q := by
      by_cases same : j = s.nextInode
      · simp [lookup, same] at kind
      · exact ⟨same, by rwa [off j same] at kind⟩
    refine ⟨.of_slots (lookup_same s .fresh) rfl (fun tidy => ?_) fun _ tidy held => ?_,
      Nat.lt_succ_self _⟩
    · refine tidy.grow rfl rfl (fun i lt => by rw [off i (by omega)]) (fun i b q ge kind => ?_)
        (Nat.le_succ _) le_rfl fun _ _ => rfl
      obtain ⟨ne, old⟩ := kinds i b q kind
      have := (tidy.pipe i b q old).2
      omega
    · refine held.congr (fun b => off _ ?_) (fun j b kind => (kinds j b q kind).2)
        (fun _ => rfl) rfl rfl
      have := (tidy.pipe _ _ _ (held.kind b)).2
      omega

theorem fill_moves (points : s.files (p, fd) = some e)
    (empty : s.inodeOf e = none) (named : i < s.nextInode) :
    Moves (∀ b, i ≠ ends b) q ends p s (s.fill p fd (some i) path mode offset) := by
  have keeps := (fill_same s p fd (some i) path mode offset).keeps (p := p)
  rw [fill_eq points] at keeps ⊢
  constructor
  case keeps => exact keeps
  case resets =>
    intro ok
    have pos := ok.refcnt_pos points
    exact setEntry_resets pos.ne'
  case tidy =>
    intro _ _ tidy
    refine { tidy with entry := fun j i' at_ => ?_ }
    rw [inodeOf_setEntry] at at_
    rw [update_apply] at at_
    split_ifs at at_ with same
    · cases at_
      exact named
    · exact tidy.entry j i' at_
  case held =>
    intro off _ _ _ held
    refine held.setEntry (fun b => ?_) fun b => ?_
    · rw [empty]
      rintro ⟨⟩
    · simpa using off b

theorem lookup_plain (plain : ∀ i, found = .held i → (s.inodes i).kind = .plain) :
    ((s.lookup found).2.inodes (s.lookup found).1).kind = .plain := by
  cases found with
  | fresh => simp [lookup]
  | held i => exact (addRef_kind s i 1 i).trans (plain i rfl)

theorem fill_inodes (s : Files) (p fd : Nat) (inode : Option Nat) (path : Option String)
    (mode offset : Int) : (s.fill p fd inode path mode offset).inodes = s.inodes := by
  unfold fill
  split <;> rfl

/-- The new entry gets the inode of a lookup. -/
theorem lookup_fill_moves
    (points : s.files (p, n) = some e) (empty : s.inodeOf e = none)
    (named : ∀ i, found = .held i → i < s.nextInode) :
    Moves (∀ i, found = .held i → (s.inodes i).kind = .plain) q ends p s
      ((s.lookup found).2.fill p n (some (s.lookup found).1) path mode offset) := by
  obtain ⟨looked, lt⟩ := @lookup_moves p q ends s found named
  have same := lookup_same s found
  have filled : Moves _ q ends p (s.lookup found).2
      ((s.lookup found).2.fill p n (some (s.lookup found).1) path mode offset) :=
    fill_moves (e := e) (by rw [same.files]; exact points)
      (by cases found <;> exact empty) lt
  exact looked.trans (filled.imp fun plain _ held b => held.off_plain (lookup_plain plain) b)

section

variable (s : Files)

theorem openFile_moves (fd : Fin PROCESS_FILE_LIMIT) (how : Opening)
    (hp : p < PROCESS_LIMIT) (clean : Clean s) (named : ∀ i, how.held = some i → i < s.nextInode) :
    Moves (∀ i, how.held = some i → (s.inodes i).kind = .plain) q ends p s
      (s.openFile p fd how).2 := by
  have alloc : Moves (∀ i, how.held = some i → (s.inodes i).kind = .plain) q ends p s
      (s.processAllocFd p fd).2 := processAllocFd_moves s fd hp
  unfold openFile
  split
  · rename_i e t result
    rw [result] at alloc
    exact alloc
  rename_i n t result
  rw [result] at alloc
  obtain ⟨e, made⟩ := processAllocFd_ok result
  have empty : t.inodeOf e = none := by
    rw [made.same.inode]
    exact clean e made.unused
  rw [← made.same.nextInode] at named
  rw [← made.same.inodes] at alloc ⊢
  refine alloc.trans ?_
  cases how with
  | failed e => exact processFreeFd_moves t p n
  | refused found e =>
    have known (i : Nat) (at_ : found = .held i) : (Opening.refused found e).held = some i :=
      at_ ▸ rfl
    have filled : Moves _ q ends p t
        ((t.lookup found).2.fill p n (some (t.lookup found).1) none 0 0) :=
      lookup_fill_moves made.points empty fun i at_ => named i (known i at_)
    have dropped : Moves _ q ends p _ _ :=
      unref_moves ((t.lookup found).2.fill p n (some (t.lookup found).1) none 0 0) (t.lookup found).1
    refine ((filled.imp fun plain _ _ i at_ => plain i (known i at_)).trans
      (dropped.imp fun plain _ held b => ?_)).trans (processFreeFd_moves _ p n)
    refine held.off_plain ?_ b
    rw [fill_inodes]
    exact lookup_plain fun i at_ => plain i (known i at_)
  | opened found path mode offset =>
    have known (i : Nat) (at_ : found = .held i) :
        (Opening.opened found path mode offset).held = some i := at_ ▸ rfl
    have filled : Moves _ q ends p t
        ((t.lookup found).2.fill p n (some (t.lookup found).1) (some path) mode offset) :=
      lookup_fill_moves made.points empty fun i at_ => named i (known i at_)
    exact filled.imp fun plain _ _ i at_ => plain i (known i at_)

theorem sysClose_moves (p : Nat) (fd : Int) : Moves P q ends p s (s.sysClose p fd).2 := by
  unfold sysClose
  split
  · exact .refl s
  · exact processFreeFd_moves s p _

theorem flags_moves (flags : Nat × Nat → Int) : Moves P q ends p s { s with fdflags := flags } :=
  .of_same (SameSlots.keeps ⟨rfl, rfl, rfl, fun _ => rfl⟩) ⟨rfl, rfl, rfl, rfl, rfl, rfl, rfl⟩
    fun _ => .of_table rfl

theorem fcntl_moves (fd : Int) (cmd : FcntlCmd) (arg : Int) (hp : p < PROCESS_LIMIT) :
    Moves P q ends p s (s.fcntl p fd cmd arg).2 := by
  generalize call : s.fcntl p fd cmd arg = result
  obtain ⟨r, t⟩ := result
  rcases fcntl_cases call with ⟨_, -, rfl, -⟩ | ⟨n, e, -, points, ⟨rfl, -⟩ | ⟨-, rfl⟩ | ⟨-, rfl⟩ |
    ⟨-, a, m, -, -, free, -, rfl⟩⟩
  · exact .refl t
  · exact .refl t
  · exact flags_moves s _
  · have same : SameInodes s (s.setEntry e { s.table e with mode := arg }) := setEntry_inodes rfl
    have slots : SameSlots s (s.setEntry e { s.table e with mode := arg }) := setEntry_same rfl
    exact .of_same slots.keeps same fun ok => setEntry_resets (ok.refcnt_pos points).ne'
  · obtain ⟨empty, narrow⟩ := freeDescriptor_eq_some free
    exact (share_moves points empty (mem_slots.2 ⟨hp, narrow⟩)).trans (flags_moves _ _)

theorem sysDup2_moves (fd1 fd2 : Int) (hp : p < PROCESS_LIMIT) :
    Moves P q ends p s (s.sysDup2 p fd1 fd2).2 :=
  (sysClose_moves s p fd2).trans (fcntl_moves _ fd1 .F_DUPFD fd2 hp)

/-! ### Pipes -/

end

theorem Moves.kfreePipe (named : q' < s.nextPipe) : Moves (q ≠ q') q ends p s (s.kfreePipe q') := by
  refine .of_slots ⟨rfl, rfl, rfl, fun _ => rfl⟩ rfl (fun tidy => tidy.kfreePipe named)
    fun ne _ held => ?_
  exact { held with released := (update_of_ne ne _ _).trans held.released }

/-- The inodes `r` and `r + 1` and the pipe `q'` are none of the pipe `q`. -/
def Other (q : Nat) (ends : Bool → Nat) (r q' : Nat) : Prop :=
  (∀ b, r ≠ ends b) ∧ (∀ b, r + 1 ≠ ends b) ∧ q ≠ q'

theorem Holds.other (held : Holds q ends s) (tidy : Tidy s) :
    Other q ends s.nextInode s.nextPipe := by
  have named (b : Bool) := tidy.pipe _ _ _ (held.kind b)
  refine ⟨fun b => ?_, fun b => ?_, ?_⟩
  · have := (named b).2
    omega
  · have := (named b).2
    omega
  · have := (named true).1
    omega

theorem dropPipe_moves {r : Nat} (named : q' < s.nextPipe) :
    Moves (Other q ends r q') q ends p s (s.dropPipe r (r + 1) q') := by
  have first : Moves (Other q ends r q') q ends p s (s.vfsUnrefInode (some r)) :=
    (unref_moves s r).imp fun other _ _ => other.1
  have second : Moves (Other q ends r q') q ends p (s.vfsUnrefInode (some r)) _ :=
    (unref_moves _ (r + 1)).imp fun other _ _ => other.2.1
  refine (first.trans second).trans (Moves.imp (.kfreePipe ?_) fun other _ _ => other.2.2)
  rw [(unref_fields _ _).2.2.2, (unref_fields _ _).2.2.2]
  exact named

theorem newPipe_moves (s : Files) :
    Moves (Other q ends s.nextInode s.nextPipe) q ends p s s.newPipe := by
  have off (j : Nat) (ne : j ≠ s.nextInode) (ne' : j ≠ s.nextInode + 1) :
      s.newPipe.inodes j = s.inodes j :=
    (update_of_ne ne' _ _).trans (update_of_ne ne _ _)
  have kinds (j : Nat) (b : Bool) (q : Nat) (kind : (s.newPipe.inodes j).kind = .pipeEnd b q) :
      (j = s.nextInode ∨ j = s.nextInode + 1) ∧ q = s.nextPipe ∨
        (s.inodes j).kind = .pipeEnd b q := by
    by_cases first : j = s.nextInode
    · simp [newPipe, first] at kind
      exact .inl ⟨.inl first, kind.2.symm⟩
    · by_cases second : j = s.nextInode + 1
      · simp [newPipe, second] at kind
        exact .inl ⟨.inr second, kind.2.symm⟩
      · rw [off j first second] at kind
        exact .inr kind
  refine .of_slots ⟨rfl, rfl, rfl, fun _ => rfl⟩ rfl (fun tidy => ?_) fun other tidy held => ?_
  · refine tidy.grow rfl rfl (fun i lt => by rw [off i (by omega) (by omega)])
      (fun i b q ge kind => ?_) (Nat.le_add_right _ 2) (Nat.le_succ _) fun _ _ => rfl
    change q < s.nextPipe + 1 ∧ i < s.nextInode + 2
    rcases kinds i b q kind with ⟨_, rfl⟩ | old
    · omega
    · have := tidy.pipe i b q old
      omega
  · obtain ⟨first, second, ne⟩ := other
    refine held.congr (fun b => off (ends b) (first b).symm (second b).symm) (fun j b kind => ?_)
      (fun _ => rfl) (update_of_ne ne _ _) rfl
    rcases kinds j b q kind with ⟨-, eq⟩ | old
    · exact absurd eq ne
    · exact old

/-- All that `sys_pipe` can do; in the end it makes two descriptors, each of an entry of its
own. -/
theorem sysPipe_cases (h : s.sysPipe p memory = some (r, t)) : ((∃ err, r = .error err) ∧
      (t = s ∨ t = s.newPipe.dropPipe s.nextInode (s.nextInode + 1) s.nextPipe) ∧
      (memory ≠ ⟨true, true, true, true⟩ ∨
        ∃ err u, s.newPipe.processAllocFd p ⟨0, fileLimit_pos⟩ = (.error err, u))) ∨
      ∃ readFd writeFd u v, r = .ok (readFd, writeFd) ∧ memory = ⟨true, true, true, true⟩ ∧
        s.newPipe.processAllocFd p ⟨0, fileLimit_pos⟩ = (.ok readFd, u) ∧
        u.processAllocFd p ⟨0, fileLimit_pos⟩ = (.ok writeFd, v) ∧
        t = (v.fill p readFd (some s.nextInode) none O_RDONLY 0).fill p writeFd
          (some (s.nextInode + 1)) none O_WRONLY 0 := by
  obtain ⟨_, _, _, _⟩ := memory
  unfold sysPipe at h
  split at h
  · split at h
    · cases h
    · cases h
      exact .inl ⟨⟨_, rfl⟩, .inl rfl, .inl (by grind)⟩
  dsimp only at h
  split at h
  · cases h
    exact .inl ⟨⟨_, rfl⟩, .inr rfl, .inl (by grind)⟩
  split at h
  · rename_i e u result
    rcases processAllocFd_cases result with ⟨_, -, rfl⟩ | ⟨_, _, ⟨⟩, -⟩
    cases h
    exact .inl ⟨⟨_, rfl⟩, .inr rfl, .inr ⟨e, _, result⟩⟩
  rename_i readFd u result
  split at h
  · cases h
  rename_i writeFd v result'
  cases h
  exact .inr ⟨readFd, writeFd, u, v, rfl, by grind, result, result', rfl⟩

/-- Two descriptors of two entries that have no inode yet. -/
structure TwoEntries (p readFd writeFd e e' : Nat) (v : Files) : Prop where
  read : v.files (p, readFd) = some e
  write : v.files (p, writeFd) = some e'
  apart : e ≠ e'
  readEmpty : v.inodeOf e = none
  writeEmpty : v.inodeOf e' = none

theorem twoEntries {v : Files} {fd fd' : Fin PROCESS_FILE_LIMIT}
    (clean : Clean s) (first : s.processAllocFd p fd = (.ok readFd, u))
    (second : u.processAllocFd p fd' = (.ok writeFd, v)) :
    ∃ e e', TwoEntries p readFd writeFd e e' v ∧ SameInodes s v := by
  obtain ⟨e, made⟩ := processAllocFd_ok first
  obtain ⟨e', made'⟩ := processAllocFd_ok second
  have apart : e ≠ e' := by
    rintro rfl
    have := made'.unused
    rw [made.refcnt] at this
    cases this
  have same := made.same.trans made'.same
  refine ⟨e, e', ⟨made'.files _ _ made.points, made'.points, apart, ?_, ?_⟩, same⟩
  · rw [same.inode]
    exact clean e made.unused
  · rw [same.inode]
    refine clean e' ?_
    rw [← made.others e' apart.symm]
    exact made'.unused

theorem sysPipe_moves
    (hp : p < PROCESS_LIMIT) (clean : Clean s) (h : s.sysPipe p memory = some (r, t)) :
    Moves P q ends p s t := by
  have weaken : P → Tidy s → Holds q ends s → Other q ends s.nextInode s.nextPipe :=
    fun _ tidy held => held.other tidy
  have made : Moves (Other q ends s.nextInode s.nextPipe) q ends p s s.newPipe := newPipe_moves s
  have alloc : Moves (Other q ends s.nextInode s.nextPipe) q ends p s.newPipe
      (s.newPipe.processAllocFd p ⟨0, fileLimit_pos⟩).2 := processAllocFd_moves _ _ hp
  rcases sysPipe_cases h with ⟨-, rfl | rfl, -⟩ |
    ⟨readFd, writeFd, u, v, -, -, first, second, rfl⟩
  · exact .refl t
  · exact (made.trans (dropPipe_moves (Nat.lt_succ_self _))).imp weaken
  · have clean' : Clean s.newPipe := clean
    obtain ⟨e, e', two, same⟩ := twoEntries clean' first second
    have alloc' : Moves (Other q ends s.nextInode s.nextPipe) q ends p u
        (u.processAllocFd p ⟨0, fileLimit_pos⟩).2 := processAllocFd_moves _ _ hp
    rw [first] at alloc
    rw [second] at alloc'
    have named : v.nextInode = s.nextInode + 2 := same.nextInode
    have read : Moves _ q ends p v (v.fill p readFd (some s.nextInode) none O_RDONLY 0) :=
      fill_moves two.read two.readEmpty (by omega)
    have same' := fill_same v p readFd (some s.nextInode) none O_RDONLY 0
    have write : Moves _ q ends p _
        ((v.fill p readFd (some s.nextInode) none O_RDONLY 0).fill p writeFd
          (some (s.nextInode + 1)) none O_WRONLY 0) :=
      fill_moves (e := e') (by rw [same'.files]; exact two.write)
        (by
          rw [fill_eq two.read, inodeOf_setEntry, update_of_ne two.apart.symm]
          exact two.writeEmpty)
        (by
          rw [fill_eq two.read]
          change _ < v.nextInode
          omega)
    refine Moves.imp ?_ weaken
    exact made.trans (alloc.trans (alloc'.trans ((read.imp fun other _ _ => other.1).trans
      (write.imp fun other _ _ => other.2.1))))

/-- The ends of the pipe that `sys_pipe` makes of the names `r` and `r + 1`. -/
def pipeEnds (r : Nat) (b : Bool) : Nat := if b then r + 1 else r

theorem sysPipe_holds (table : TableOk s) (hp : p < PROCESS_LIMIT) (clean : Clean s) (tidy : Tidy s)
    (h : s.sysPipe p memory = some (.ok (readFd, writeFd), t)) :
    Holds s.nextPipe (pipeEnds s.nextInode) t := by
  rcases sysPipe_cases h with ⟨⟨_, ⟨⟩⟩, -⟩ | ⟨_, _, u, v, ⟨⟩, -, first, second, rfl⟩
  have clean' : Clean s.newPipe := clean
  obtain ⟨e, e', two, same⟩ := twoEntries clean' first second
  have keeps : Keeps p s v := by
    have made : Keeps p s s.newPipe := SameSlots.keeps ⟨rfl, rfl, rfl, fun _ => rfl⟩
    have alloc := processAllocFd_keeps s.newPipe ⟨0, fileLimit_pos⟩ hp
    have alloc' := processAllocFd_keeps u ⟨0, fileLimit_pos⟩ hp
    rw [first] at alloc
    rw [second] at alloc'
    exact made.trans (alloc.trans alloc')
  have inside := (keeps.ok table).inside
  have mem : e ∈ entries := mem_entries.2 (inside _ _ two.read).2
  have mem' : e' ∈ entries := mem_entries.2 (inside _ _ two.write).2
  -- both entries are filled in
  have filled : (v.fill p readFd (some s.nextInode) none O_RDONLY 0).fill p writeFd
      (some (s.nextInode + 1)) none O_WRONLY 0 =
      (v.setEntry e ⟨some s.nextInode, none, O_RDONLY, 0, (v.table e).refcnt⟩).setEntry e'
        ⟨some (s.nextInode + 1), none, O_WRONLY, 0, (v.table e').refcnt⟩ := by
    have other : ((v.setEntry e ⟨some s.nextInode, none, O_RDONLY, 0,
        (v.table e).refcnt⟩).table e').refcnt = (v.table e').refcnt := by
      simp [setEntry, two.apart.symm]
    rw [fill_eq two.read, fill_eq (e := e') (by exact two.write), other]
  rw [filled]
  have inode (j : Nat) : v.inodeOf j = s.inodeOf j := congrFun same.inode j
  have zero (b : Bool) : refs entries v.inodeOf (pipeEnds s.nextInode b) = 0 := by
    refine refs_eq_zero_iff.2 fun j _ at_ => ?_
    rw [inode] at at_
    have := tidy.entry j _ at_
    cases b <;> simp [pipeEnds] at this
  have count (b : Bool) : refs entries (update (update v.inodeOf e
      (some s.nextInode)) e' (some (s.nextInode + 1))) (pipeEnds s.nextInode b) = 1 := by
    have empty : update v.inodeOf e (some s.nextInode) e' = none := by
      rw [update_of_ne two.apart.symm]
      exact two.writeEmpty
    rw [refs_point empty mem', refs_point two.readEmpty mem, zero b]
    cases b <;> simp [pipeEnds]
  have ends (b : Bool) : v.inodes (pipeEnds s.nextInode b) = ⟨1, .pipeEnd b s.nextPipe⟩ := by
    rw [same.inodes]
    cases b <;> simp [pipeEnds, newPipe]
  have pipe : v.pipes s.nextPipe = .zero := by
    rw [same.pipes]
    exact update_self ..
  constructor
  case kind =>
    intro b
    exact congrArg RefInode.kind (ends b)
  case only =>
    intro i b kind
    change (v.inodes i).kind = _ at kind
    rw [same.inodes] at kind
    by_cases second : i = s.nextInode + 1
    · simp [newPipe, second] at kind
      rw [second, kind]
      rfl
    · by_cases first : i = s.nextInode
      · simp [newPipe, first] at kind
        rw [first, kind]
        rfl
      · have old : (s.newPipe.inodes i).kind = (s.inodes i).kind := by
          simp [newPipe, first, second]
        rw [old] at kind
        have := (tidy.pipe i b _ kind).1
        omega
  case counted =>
    intro b
    rw [inodeOf_setEntry, inodeOf_setEntry, count]
    exact congrArg RefInode.refcnt (ends b)
  case closed =>
    intro b
    change (v.pipes s.nextPipe).closed b = true ↔ (v.inodes (pipeEnds s.nextInode b)).refcnt = 0
    rw [ends, pipe]
    cases b <;> simp [Pipe.zero, Pipe.closed]
  case released =>
    change v.released s.nextPipe = if (v.pipes s.nextPipe).bothClosed then 1 else 0
    rw [pipe, same.released]
    exact tidy.unreleased s.nextPipe le_rfl

/-! ### Whole runs -/

/-- What holds in every state of a run. -/
structure Sound (s : Files) : Prop where
  ok : Ok s
  reset : AllReset s
  tidy : Tidy s

theorem Sound.clean (sound : Sound s) : Clean s := sound.reset.clean

theorem Moves.sound (h : Moves P q ends p s t) (sound : Sound s) (live : s.live p = true) :
    Sound t where
  ok := h.keeps.ok_all sound.ok live
  reset := (h.resets sound.ok.table).all sound.reset
  tidy := h.tidy sound.ok.table sound.clean sound.tidy

theorem Moves.holds (h : Moves P q ends p s t) (yes : P) (sound : Sound s)
    (held : Holds q ends s) : Holds q ends t :=
  h.held yes sound.ok.table sound.clean sound.tidy held

theorem copyFiles_same (s : Files) (parent child : Nat) (fds : List Nat) :
    SameInodes s (s.copyFiles parent child fds) := by
  induction fds generalizing s with
  | nil => exact .refl s
  | cons fd fds ih =>
    refine SameInodes.trans ?_ (ih _)
    cases s.files (parent, fd) with
    | none => exact ⟨rfl, rfl, rfl, rfl, rfl, rfl, rfl⟩
    | some e => exact addRefcnt_inodes s child fd _ e 1

theorem copyFiles_resets {parent child : Nat} {fds : List Nat} (h : ∀ e, 0 ≤ (s.table e).refcnt) :
    Resets s (s.copyFiles parent child fds) := by
  induction fds generalizing s with
  | nil => exact .of_table rfl
  | cons fd fds ih =>
    unfold copyFiles
    cases points : s.files (parent, fd) with
    | none => exact Resets.trans (.of_table rfl) (ih (s := s.setFile child fd none) h)
    | some e =>
      have up := addRefcnt_refcnt s child fd (some e) e 1
      have used : (s.table e).refcnt + 1 ≠ 0 := by
        have := h e
        omega
      refine Resets.trans (setEntry_resets (s := s.setFile child fd (some e)) used) (ih fun j => ?_)
      have := h j
      refine (up j).symm ▸ ?_
      split <;> omega

theorem taskFork_sound {parent : Nat} {memory : Bool} (sound : Sound s) :
    Sound (s.taskFork parent memory).2 ∧
      (Holds q ends s → Holds q ends (s.taskFork parent memory).2) := by
  have ok : Ok (s.taskFork parent memory).2 := taskFork_ok sound.ok
  unfold taskFork at ok ⊢
  split
  · exact ⟨sound, id⟩
  rename_i child found
  rw [found] at ok
  dsimp only at ok
  split
  · exact ⟨sound, id⟩
  rename_i enough
  rw [if_neg enough] at ok
  dsimp only at ok ⊢
  have same := copyFiles_same s parent child (range PROCESS_FILE_LIMIT)
  have copied := @copyFiles_resets s parent child (range PROCESS_FILE_LIMIT) fun e => by
    have count : (s.table e).refcnt = refs slots s.files e := sound.ok.table.counted e
    omega
  generalize s.copyFiles parent child (range PROCESS_FILE_LIMIT) = t at same copied ok ⊢
  have reset := copied.all sound.reset
  have tidy : Tidy { t with cwd := update t.cwd child (t.cwd parent) } := by
    have tidy := same.tidy sound.tidy
    refine { tidy with cwd := fun p i at_ => ?_ }
    change update t.cwd child (t.cwd parent) p = some i at at_
    rw [update_apply] at at_
    split_ifs at at_ with new
    · exact tidy.cwd parent i at_
    · exact tidy.cwd p i at_
  have held (h : Holds q ends s) :
      Holds q ends { t with cwd := update t.cwd child (t.cwd parent) } := by
    have h := same.holds h
    exact { h with }
  generalize dir : update t.cwd child (t.cwd parent) parent = cwd at ok ⊢
  cases cwd with
  | none =>
    exact ⟨⟨ok, reset, { tidy with }⟩, fun h => { held h with }⟩
  | some i =>
    have added := tidy.addRef i 1
    refine ⟨⟨ok, reset, { added with }⟩, fun h => ?_⟩
    have plain := (tidy.cwd parent i dir).1
    have h := (held h).addRef 1 ((held h).off_plain plain)
    exact { h with }

theorem processFree_sound (sound : Sound s) (p : Nat) :
    Sound (s.processFree p) ∧ (Holds q ends s → Holds q ends (s.processFree p)) := by
  have ok : Ok (s.processFree p) := processFree_ok sound.ok p
  unfold processFree at ok ⊢
  split
  · rename_i live
    rw [if_pos live] at ok
    dsimp only at ok ⊢
    have table : TableOk { s with live := update s.live p false } :=
      { sound.ok.table with }
    have tidy : Tidy { s with live := update s.live p false } := { sound.tidy with }
    have left : Moves True q ends p { s with live := update s.live p false }
        (vfsUnrefInode (s.cwd p) { s with live := update s.live p false }) := by
      cases dir : s.cwd p with
      | none => exact .refl _
      | some i =>
        refine (unref_moves _ i).imp fun _ _ held => held.off_plain ?_
        exact (sound.tidy.cwd p i dir).1
    have moved := left.trans (freeAll_moves _ p (range PROCESS_FILE_LIMIT))
    generalize freeAll p (range PROCESS_FILE_LIMIT)
      (vfsUnrefInode (s.cwd p) { s with live := update s.live p false }) = t at moved ok ⊢
    have reset := (moved.resets table).all sound.reset
    have tidy' := moved.tidy table sound.clean tidy
    refine ⟨⟨ok, reset, { tidy' with }⟩, fun h => ?_⟩
    have h := moved.held trivial table sound.clean tidy { h with }
    exact { h with }
  · exact ⟨sound, id⟩

theorem boot_sound : Sound boot where
  ok := boot_ok
  reset := fun _ _ => rfl
  tidy :=
    { entry := nofun
      cwd := fun p i at_ => by
        by_cases kernel : p = 0
        · simp [boot, kernel] at at_
          simp [boot, ← at_]
        · simp [boot, kernel] at at_
      pipe := nofun
      unreleased := fun _ _ => rfl }

end Files

open Files

/-- The inode that a call opens, if it was there before, is no end of a pipe. -/
def OpensNoPipe (s : Files) (call : Nat × FileCall) : Prop :=
  ∀ i, call.2.held = some i → (s.inodes i).kind = .plain

/-- All calls but fork and exit move descriptors of the process that makes them. -/
theorem fileStep_moves {s t : Files} {p : Nat} {call : FileCall} {q : Nat} {ends : Bool → Nat}
    (clean : s.Clean) (h : fileStep s (p, call) = some t) : p < PROCESS_LIMIT ∧ s.live p = true ∧
      (Moves (OpensNoPipe s (p, call)) q ends p s t ∨
        (∃ memory, call = .fork memory ∧ t = (s.taskFork p memory).2) ∨
        call = .exit ∧ t = s.processFree p) := by
  unfold fileStep at h
  dsimp only at h
  split at h
  · rename_i valid
    obtain ⟨hp, live, named⟩ := valid
    refine ⟨hp, live, ?_⟩
    cases call with
    | openFile fd how =>
      cases h
      refine .inl (openFile_moves s fd how hp clean fun i at_ => ?_)
      simpa [FileCall.held, at_] using named
    | pipe memory =>
      obtain ⟨⟨r, u⟩, made, rfl⟩ := map_eq_some_iff.1 h
      exact .inl (sysPipe_moves hp clean made)
    | close fd =>
      cases h
      exact .inl (sysClose_moves s p fd)
    | fcntl fd cmd arg =>
      cases h
      exact .inl (fcntl_moves s fd cmd arg hp)
    | dup fd =>
      cases h
      exact .inl (fcntl_moves s fd .F_DUPFD 0 hp)
    | dup2 fd1 fd2 =>
      cases h
      exact .inl (sysDup2_moves s fd1 fd2 hp)
    | fork memory =>
      cases h
      exact .inr (.inl ⟨memory, rfl, rfl⟩)
    | exec =>
      cases h
      exact .inl (freeAll_moves s p _)
    | exit =>
      cases h
      exact .inr (.inr ⟨rfl, rfl⟩)
  · cases h

theorem fileStep_sound {s t : Files} {call : Nat × FileCall} {q : Nat} {ends : Bool → Nat}
    (sound : s.Sound) (h : fileStep s call = some t) :
    t.Sound ∧ (OpensNoPipe s call → s.Holds q ends → t.Holds q ends) := by
  obtain ⟨p, call⟩ := call
  obtain ⟨-, live, m | ⟨memory, rfl, rfl⟩ | ⟨rfl, rfl⟩⟩ := @fileStep_moves s t p call q ends sound.clean h
  · exact ⟨m.sound sound live, fun yes held => m.holds yes sound held⟩
  · have := @taskFork_sound s q ends p memory sound
    exact ⟨this.1, fun _ => this.2⟩
  · have := @processFree_sound s q ends sound p
    exact ⟨this.1, fun _ => this.2⟩

/-- A run of calls of all processes, from boot. -/
abbrev FileRun (calls : List (Nat × FileCall)) (s : Files) : Prop :=
  Runs.Run (Runs.partialGraph fileStep) .boot calls s

variable {s : Files}

variable {calls : List (Nat × FileCall)} {q : Nat} {ends : Bool → Nat}

theorem FileRun.sound (run : FileRun calls s) : s.Sound :=
  Runs.Run.invariant (I := Files.Sound)
    (fun _ _ _ sound step => (@fileStep_sound _ _ _ 0 (fun _ => 0) sound step).1) run boot_sound

theorem processAllocFd_full {p : Nat} {fd : Fin PROCESS_FILE_LIMIT}
    (table : s.TableOk) (full : (s.processAllocFd p fd).1 = .error .ENFILE) :
    ∀ e < PROCESS_SYS_FILE_LIMIT, (s.table e).refcnt ≠ 0 := by
  have none : s.freeEntry = none := by
    unfold processAllocFd at full
    split at full
    · assumption
    · split at full <;> cases full
  intro e _
  by_cases low : e < s.next
  · exact table.used e low
  · have searched := find?_eq_none.1 none e (mem_range'_1.2 (by omega))
    simpa using searched

/-- The table of open files over any calls of any processes. -/
theorem open_file_table {calls : List (Nat × FileCall)} {s : Files} (run : FileRun calls s) :
    (∀ e < PROCESS_SYS_FILE_LIMIT, (s.table e).refcnt = Refs.refs slots s.files e) ∧
      (∀ e < s.next, (s.table e).refcnt ≠ 0) ∧
        ∀ p fd, (s.processAllocFd p fd).1 = .error .ENFILE →
          ∀ e < PROCESS_SYS_FILE_LIMIT, (s.table e).refcnt ≠ 0 := by
  have table := run.sound.ok.table
  exact ⟨fun e _ => table.counted e, table.used, fun p fd full => processAllocFd_full table full⟩

/-- The kernel task opens a file and forks; the child duplicates its descriptor and the kernel
task closes its own. -/
def sharedFile : List (Nat × FileCall) :=
  [(0, .openFile ⟨0, fileLimit_pos⟩ (.opened .fresh "/" 0 0)), (0, .fork true),
    (1, .fcntl 0 .F_DUPFD 1), (0, .close 0)]

theorem open_file_table_shared : ∃ s, FileRun sharedFile s ∧
    (s.table 0).refcnt = 2 ∧ Refs.refs slots s.files 0 = 2 := by
  have counted : ∀ s, FileRun sharedFile s → (s.table 0).refcnt = 2 →
      FileRun sharedFile s ∧ (s.table 0).refcnt = 2 ∧ Refs.refs slots s.files 0 = 2 := by
    intro s run two
    have count := (open_file_table run).1 0 (by decide)
    rw [two] at count
    exact ⟨run, two, by exact_mod_cast count.symm⟩
  exact ⟨_, counted _ (.cons rfl (.cons rfl (.cons rfl (.cons rfl (.nil _))))) (by decide +kernel)⟩

/-- A descriptor of some process refers to one of the ends. -/
def Files.Refers (s : Files) (ends : Bool → Nat) : Prop :=
  ∃ k e b, s.files k = some e ∧ s.inodeOf e = some (ends b)

/-- The pipe is there as long as a descriptor refers to one of its ends. -/
theorem Files.Holds.released_iff (h : s.Holds q ends)
    (sound : s.Sound) : (s.Refers ends → s.released q = 0) ∧ (¬s.Refers ends → s.released q = 1) := by
  have table := sound.ok.table
  have refers_of (b : Bool) (there : refs entries s.inodeOf (ends b) ≠ 0) : s.Refers ends := by
    obtain ⟨e, -, at_e⟩ := exists_of_refs_pos (Nat.pos_of_ne_zero there)
    have used : (s.table e).refcnt ≠ 0 := by
      intro zero
      rw [sound.clean e zero] at at_e
      cases at_e
    have count : (s.table e).refcnt = refs slots s.files e := table.counted e
    obtain ⟨k, -, points⟩ := (exists_of_refs_pos (by omega) : ∃ k ∈ slots, s.files k = some e)
    exact ⟨k, e, b, points, at_e⟩
  rw [h.released]
  constructor
  · rintro ⟨k, e, b, points, at_e⟩
    have mem : e ∈ entries := mem_entries.2 (table.inside k e points).2
    have pos := refs_pos mem at_e
    have open_ : (s.pipes q).closed b = false := by
      rw [← Bool.not_eq_true, h.closed b, h.counted b]
      omega
    unfold Pipe.bothClosed
    cases b <;> simp [open_]
  · intro free
    have closed (b : Bool) : (s.pipes q).closed b = true := by
      rw [h.closed b, h.counted b]
      by_contra there
      exact free (refers_of b (by exact_mod_cast there))
    unfold Pipe.bothClosed
    rw [closed, closed]
    rfl

/-- The runs that start with the two descriptors of a new pipe. -/
abbrev PipeRun (s : Files) (calls : List (Nat × FileCall)) (t : Files) : Prop :=
  Runs.Run (Runs.Guarded OpensNoPipe (Runs.partialGraph fileStep)) s calls t

theorem PipeRun.holds {t : Files}
    (run : PipeRun s calls t) (start : s.Sound ∧ s.Holds q ends) : t.Sound ∧ t.Holds q ends := by
  refine Runs.Run.invariant (I := fun s : Files => s.Sound ∧ s.Holds q ends) ?_ run start
  rintro s call t ⟨sound, held⟩ ⟨guard, step⟩
  have next := @fileStep_sound s t call q ends sound step
  exact ⟨next.1, next.2 guard held⟩

/-- From the return of `sys_pipe` on, the pipe is released exactly in the step in which the last
descriptor that refers to one of its ends goes away. -/
theorem pipe_released_once {before calls : List (Nat × FileCall)} {s t u : Files} {p : Nat}
    {memory : PipeMemory} {fds : Nat × Nat} (start : FileRun before s)
    (caller : p < PROCESS_LIMIT ∧ s.live p = true)
    (made : s.sysPipe p memory = some (.ok fds, t)) (run : PipeRun t calls u) :
    (u.Refers (pipeEnds s.nextInode) → u.released s.nextPipe = 0) ∧
      (¬u.Refers (pipeEnds s.nextInode) → u.released s.nextPipe = 1) ∧
      ∀ call v, OpensNoPipe u call → fileStep u call = some v →
        (v.released s.nextPipe = u.released s.nextPipe + 1 ↔
          u.Refers (pipeEnds s.nextInode) ∧ ¬v.Refers (pipeEnds s.nextInode)) := by
  have sound := start.sound
  have held := sysPipe_holds sound.ok.table caller.1 sound.clean sound.tidy made
  have moved : Moves True s.nextPipe (pipeEnds s.nextInode) p s t :=
    sysPipe_moves caller.1 sound.clean made
  have reached := run.holds ⟨moved.sound sound caller.2, held⟩
  have now := reached.2.released_iff reached.1
  refine ⟨now.1, now.2, fun call v guard step => ?_⟩
  have next := @fileStep_sound u v call s.nextPipe (pipeEnds s.nextInode) reached.1 step
  have later := (next.2 guard reached.2).released_iff next.1
  constructor
  · intro _
    constructor
    · by_contra gone
      have one := now.2 gone
      by_cases back : v.Refers (pipeEnds s.nextInode)
      · have := later.1 back
        omega
      · have := later.2 back
        omega
    · intro still
      have := later.1 still
      omega
  · rintro ⟨here, gone⟩
    rw [now.1 here, later.2 gone]

/-- The kernel task makes a pipe and forks; the child closes both ends and the kernel task the
first one. The pipe goes with the last descriptor. -/
theorem pipe_released_once_shared : ∃ t u v, Files.boot.sysPipe 0 ⟨true, true, true, true⟩ =
      some (.ok (0, 1), t) ∧
    PipeRun t [(0, .fork true), (1, .close 0), (1, .close 1), (0, .close 0)] u ∧
    fileStep u (0, .close 1) = some v ∧ u.released 0 = 0 ∧ v.released 0 = 1 := by
  have last : ∀ t u v, Files.boot.sysPipe 0 ⟨true, true, true, true⟩ = some (.ok (0, 1), t) →
      PipeRun t [(0, .fork true), (1, .close 0), (1, .close 1), (0, .close 0)] u →
      fileStep u (0, .close 1) = some v → u.files (0, 1) = some 1 → u.inodeOf 1 = some 2 →
      u.released 0 = 0 := by
    intro t u v made run _ points at_
    have once := pipe_released_once (.nil _) ⟨by decide, rfl⟩ made run
    exact once.1 ⟨(0, 1), 1, true, points, at_⟩
  have quiet (s : Files) (p : Nat) (call : FileCall) (none : call.held = none) :
      OpensNoPipe s (p, call) := by
    intro i at_
    rw [none] at at_
    cases at_
  refine ⟨_, _, _, rfl, .cons ⟨quiet _ _ _ rfl, rfl⟩ (.cons ⟨quiet _ _ _ rfl, rfl⟩
    (.cons ⟨quiet _ _ _ rfl, rfl⟩ (.cons ⟨quiet _ _ _ rfl, rfl⟩ (.nil _)))), rfl, ?_, ?_⟩
  · exact last _ _ _ rfl (.cons ⟨quiet _ _ _ rfl, rfl⟩ (.cons ⟨quiet _ _ _ rfl, rfl⟩
      (.cons ⟨quiet _ _ _ rfl, rfl⟩ (.cons ⟨quiet _ _ _ rfl, rfl⟩ (.nil _))))) rfl
      (by decide +kernel) (by decide +kernel)
  · decide +kernel

end Os0
