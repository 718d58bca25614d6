import Mathlib.Algebra.Group.Pi.Lemmas
import Mathlib.Tactic.Abel
import Os0.Fs.RelVfs
import Os0.Process.PipeLife

/-! Which of the calls from the directory of a descriptor put the working directory back and let
go of every inode. -/
namespace Os0

open Bytes Call Option Cmd Files World Caller

variable {F α β : Type} {s t u : Caller F} {d d' : Nat → Int} {i : Nat}

/-! ## References on balance -/

/-- One reference of an inode. -/
abbrev one (i : Nat) : Nat → Int := Pi.single i 1

/-- From `s` to `t` the process stays where it is with its descriptors, and has taken the
references `d` on balance. -/
structure Owes (s : Caller F) (d : Nat → Int) (t : Caller F) : Prop where
  cwd : t.files.cwd = s.files.cwd
  cwdpath : t.cwdpath = s.cwdpath
  files : t.files.files = s.files.files
  table : t.files.table = s.files.table
  refs : ∀ i, t.refcnt i = s.refcnt i + d i

variable {flags : Nat}

variable {call : AtCall}

theorem Owes.refl (s : Caller F) : Owes s 0 s := ⟨rfl, rfl, rfl, rfl, by simp⟩

theorem Owes.trans (h : Owes s d t) (k : Owes t d' u) : Owes s (d + d') u where
  cwd := k.cwd.trans h.cwd
  cwdpath := k.cwdpath.trans h.cwdpath
  files := k.files.trans h.files
  table := k.table.trans h.table
  refs i := by rw [k.refs, h.refs, Pi.add_apply, add_assoc]

theorem Owes.ref (s : Caller F) (i : Nat) : Owes s (one i) (s.ref i) := by
  refine ⟨rfl, rfl, rfl, rfl, fun j => ?_⟩
  have up : (s.ref i).refcnt j = s.refcnt j + if i = j then 1 else 0 :=
    addRef_refcnt s.files i j 1
  simp only [up, Pi.single_apply, eq_comm]

theorem Owes.unref (s : Caller F) (i : Nat) : Owes s (-one i) (s.unref i) where
  cwd := unref_cwd s.files _
  cwdpath := rfl
  files := (vfsUnrefInode_same s.files _).files
  table := unref_table s.files _
  refs j := by
    have down : (s.unref i).refcnt j = s.refcnt j - if some i = some j then 1 else 0 :=
      unref_refcnt s.files (some i) j
    simp only [down, Pi.neg_apply, Pi.single_apply, some.injEq, sub_eq_add_neg, eq_comm]

/-- Whatever the call returns, it has taken the references `ok` on balance, and `err` with an
error. -/
def Settles (c : Call F α) (err : Nat → Int) (ok : α → Nat → Int) : Prop :=
  ∀ s, Cmd.Ends c s (fun a t => Owes s (ok a) t) (fun h t => h ≠ .never → Owes s err t)

variable {c : Call F α} {f : α → Call F β} {err err' : Nat → Int} {ok ok' : α → Nat → Int}
  {out : β → Nat → Int}

theorem Settles.bind (h : Settles c err ok)
    (rest : ∀ a, Settles (f a) (err - ok a) (fun b => out b - ok a)) :
    Settles (c >>= f) err out := by
  intro s
  refine ends_bind ((h s).imp fun a t owes => ?_)
  refine (rest a t).mono (fun b u more => ?_) (fun h u more fails => ?_)
  · simpa using owes.trans more
  · simpa using owes.trans (more fails)

theorem Settles.cast (h : Settles c err ok) (same : err = err') (same' : ∀ a, ok a = ok' a) :
    Settles c err' ok' := by
  obtain rfl := same
  obtain rfl := funext same'
  exact h

theorem settles_get {f : Caller F → Call F β} (h : ∀ s, Settles (f s) err out) :
    Settles (Cmd.get >>= f) err out := fun s => h s s

theorem settles_pure {a : α} (h : ok a = 0) : Settles (pure a : Call F α) err ok := by
  intro s
  refine ends_pure ?_
  rw [h]
  exact .refl s

theorem settles_errno (e : Errno) : Settles (errno e : Call F α) 0 ok :=
  fun s => ends_fail fun _ => .refl s

theorem settles_never : Settles (never : Call F α) err ok :=
  fun _ => ends_fail fun fails => absurd rfl fails

theorem settles_ask (f : F → Except Halt α × F) : Settles (ask f) 0 fun _ => 0 := by
  intro s
  have owes : Owes s 0 { s with fs := (f s.fs).2 } := ⟨rfl, rfl, rfl, rfl, by simp [refcnt]⟩
  unfold Cmd.Ends ask
  cases (f s.fs).1 with
  | ok a => exact owes
  | error h => exact fun _ => owes

theorem answer_owes (f : F → α × F) (s : Caller F) : Owes s 0 { s with fs := (f s.fs).2 } :=
  ⟨rfl, rfl, rfl, rfl, by simp [refcnt]⟩

theorem answer_bind {g : F → α × F} :
    (answer g >>= f) s = f (g s.fs).1 { s with fs := (g s.fs).2 } := rfl

variable {R : Halt → Caller F → Prop} {g : Caller F → Caller F} {path : String}

theorem settles_modify (h : ∀ s, Owes s d (g s)) :
    Settles (Cmd.modify g : Call F Unit) err fun _ => d := fun s => ends_modify (h s)

theorem Settles.ensuring (h : Settles c err ok) (after : ∀ s, Owes s d (g s)) :
    Settles (Cmd.ensuring c g) (err + d) fun a => ok a + d :=
  fun s => ends_ensuring ((h s).mono (fun _ t owes => owes.trans (after t))
    fun _ t owes fails => (owes fails).trans (after t))

theorem Settles.onError (h : Settles c err ok) (after : ∀ s, Owes s d (g s)) :
    Settles (Cmd.onError c g) (err + d) ok :=
  fun s => ends_onError ((h s).mono (fun _ _ owes => owes)
    fun _ t owes fails => (owes fails).trans (after t))

theorem ends_outcome {Q : Except Errno α → Caller F → Prop}
    (h : Cmd.Ends c s (fun a t => Q (.ok a) t) fun h t => h ≠ .never → ∀ e, Q (.error e) t)
    (never : ∀ t, R .never t) : Cmd.Ends (outcome c) s Q R := by
  unfold Cmd.Ends at h ⊢
  unfold Call.outcome
  cases run : c s with
  | mk r t =>
    rw [run] at h
    cases r with
    | ok a => exact h
    | error e =>
      cases e with
      | errno e => exact h nofun e
      | never => exact never t

theorem Settles.outcome (h : Settles c err ok) :
    Settles (outcome c) err' fun r => match r with
      | .ok a => ok a
      | .error _ => err := by
  intro s
  refine ends_outcome ((h s).mono (fun _ _ owes => owes) fun _ _ owes fails _ => owes fails) ?_
  exact fun _ fails => absurd rfl fails

theorem Owes.setCwd {p : Nat} {c : Option Nat} (h : Owes (s.setCwd p c) d t) :
    Owes s d (t.setCwd p (s.cwd p)) where
  __ := h
  cwd := by simp [Caller.setCwd, h.cwd, Caller.cwd]

variable (w : World F)

theorem settles_memoryLeft : Settles w.memoryLeft err fun _ => 0 :=
  fun s => answer_owes w.memory s

theorem settles_strdup : Settles w.strdup 0 fun _ => 0 := by
  refine (settles_memoryLeft w).bind fun left => ?_
  cases left with
  | false => exact (settles_errno _).cast (by simp) fun _ => rfl
  | true => exact settles_pure (by simp)

theorem settles_strdupName (name : Name) : Settles (w.strdupName name) err fun _ => 0 :=
  (settles_memoryLeft w).bind fun _ => settles_pure (by simp)

/-! ## Lookups -/

section Lookup

variable {w} {openFile : List Char → Call F Nat} (opens : ∀ path, Settles (openFile path) 0 one)

include opens

variable (dir : Nat)

theorem settles_followLink (vi : Nat) :
    Settles (w.followLink openFile dir vi) (-one vi) fun inode => one inode - one vi := by
  intro s
  refine ends_bind (ends_get ?_)
  refine ends_bind ((settles_memoryLeft w s).imp fun left t owes => ?_)
  cases left with
  | false =>
    refine ends_bind (ends_modify (ends_fail fun _ => ?_))
    simpa using owes.trans (.unref t vi)
  | true =>
    refine ends_bind (ends_modify (ends_ensuring ?_))
    have body : Settles (ask (w.target vi) >>= openFile) 0 one :=
      (settles_ask _).bind fun path => (opens path).cast (by simp) (by simp)
    have home : s.cwd w.pid = t.cwd w.pid := by simp [Caller.cwd, owes.cwd]
    refine (body (t.setCwd w.pid (some dir))).mono (fun a u more => ?_) fun h u more fails => ?_
    · have back := owes.trans (more.trans (.unref u vi)).setCwd
      simpa [home, sub_eq_add_neg] using back
    · have back := owes.trans ((more fails).trans (.unref u vi)).setCwd
      simpa [home] using back

theorem settles_vfsLookup (name : Option Name) (symcount : Int) :
    Settles (w.vfsLookup openFile dir name symcount) 0 one := by
  refine settles_get fun s => ?_
  split
  · exact settles_errno _
  split
  · exact settles_errno _
  split
  · exact settles_errno _
  refine (settles_ask _).bind fun vi => ?_
  refine (settles_modify fun s => .ref s vi).bind fun _ => settles_get fun t => ?_
  split
  · exact (settles_followLink opens dir vi).cast (by simp) (by simp)
  · exact settles_pure (by simp)

omit opens in
theorem settles_advance {walkOn : Nat → Call F Nat}
    (walks : ∀ dir, Settles (walkOn dir) (-one dir) fun inode => one inode - one dir)
    (last : Bool) (dir inode : Nat) :
    Settles (w.advance walkOn last dir inode) (-one dir - one inode)
      fun i => one i - one dir - one inode := by
  refine (settles_modify (.unref · dir)).bind fun _ => settles_get fun s => ?_
  split
  · refine (settles_modify (.unref · inode)).bind fun _ => (settles_errno _).cast ?_ fun _ => rfl
    abel
  split
  · rename_i root _
    have move (t : Caller F) : Owes t (-one inode + one root) ((t.unref inode).ref root) :=
      (Owes.unref t inode).trans (.ref _ root)
    refine (settles_modify move).bind fun _ => (walks root).cast ?_ fun _ => ?_
    all_goals abel
  · refine (walks inode).cast ?_ fun _ => ?_
    all_goals abel

theorem settles_walk (follow : Int) (dir : Nat) (names : List Name) :
    Settles (w.walk openFile follow dir names) (-one dir) fun inode => one inode - one dir := by
  induction names generalizing dir with
  | nil => exact settles_pure (by simp)
  | cons c _ ih =>
    unfold walk
    split
    · exact ih dir
    refine (((settles_vfsLookup opens dir (some c) _).onError (.unref · dir)).cast
      (zero_add _) fun _ => rfl).bind fun inode => ?_
    exact (settles_advance ih _ dir inode).cast (by abel) (by simp)

end Lookup

theorem settles_vfsOpenFile (depth : Nat) (path : List Char) (follow : Int) :
    Settles (w.vfsOpenFile depth path follow) 0 one := by
  induction depth generalizing path follow with
  | zero => exact settles_never
  | succ depth ih =>
    refine (settles_strdup w).bind fun _ => settles_get fun s => ?_
    split
    · exact settles_never
    refine (settles_modify (.ref · _)).bind fun _ => ?_
    refine (settles_walk (ih · 0) follow _ _).cast ?_ fun _ => ?_
    all_goals simp

/-- Along any path, through any mounts and links, `vfs_open_file` leaves one more reference of the
inode that it returns and no other, and with an error none. -/
theorem open_file_references (depth : Nat) (path : List Char) (follow : Int) (s : Caller F) :
    Cmd.Ends (w.vfsOpenFile depth path follow) s
      (fun inode t => t.refcnt = Function.update s.refcnt inode (s.refcnt inode + 1))
      fun h t => h ≠ .never → t.refcnt = s.refcnt := by
  refine (settles_vfsOpenFile w depth path follow s).mono (fun inode t owes => ?_)
    fun h t owes fails => ?_
  · funext i
    rw [owes.refs, one, Function.update_apply, Pi.single_apply]
    split
    case isTrue same => rw [same]
    case isFalse => rw [add_zero]
  · funext i
    rw [(owes fails).refs, Pi.zero_apply, add_zero]

theorem settles_openFile (path : String) (follow : Int) : Settles (w.openFile path follow) 0 one :=
  settles_vfsOpenFile w _ _ _

theorem settles_lookup (dir : Nat) (name : Option Name) (symcount : Int) :
    Settles (w.lookup dir name symcount) 0 one :=
  settles_vfsLookup (settles_vfsOpenFile w _ · 0) dir name symcount

theorem settles_sysPathSep (path : String) : Settles (w.sysPathSep path) 0 fun r => one r.1 := by
  refine (settles_strdup w).bind fun _ => ?_
  split
  · refine settles_get fun s => ?_
    split
    · exact settles_never
    refine (settles_modify (.ref · _)).bind fun _ => ?_
    exact (settles_strdupName w _).bind fun _ => settles_pure (by simp)
  · refine ((settles_vfsOpenFile w _ _ _).cast (by simp) fun _ => rfl).bind fun dir => ?_
    exact (settles_strdupName w _).bind fun _ => settles_pure (by simp)

/-! ## The calls that let go of what they take -/

/-- An operation on an inode, and the end of the reference to it. -/
theorem settles_release (op : VfsOp) (i : Nat) :
    Settles (Cmd.ensuring (ask (w.op op)) (unref i)) (-one i) fun _ => -one i :=
  ((settles_ask _).ensuring (.unref · i)).cast (zero_add _) fun _ => zero_add _

section

variable (path : String)

variable (op : Nat → Option Name → VfsOp)

theorem settles_onFile (follow : Int) (op : Nat → VfsOp) :
    Settles (w.onFile path follow op) 0 fun _ => 0 :=
  (settles_openFile w path follow).bind fun inode =>
    (settles_release w _ inode).cast (by simp) (by simp)

theorem settles_makeEntry : Settles (w.makeEntry path op) 0 fun _ => 0 := by
  refine (settles_sysPathSep w path).bind fun ⟨dir, name⟩ => ?_
  refine (settles_lookup w dir name 0).outcome.bind fun found => ?_
  cases found with
  | ok temp =>
    have move (t : Caller F) : Owes t (-one dir + -one temp) ((t.unref dir).unref temp) :=
      (Owes.unref t dir).trans (.unref _ temp)
    refine (settles_modify move).bind fun _ => (settles_errno _).cast ?_ fun _ => rfl
    abel
  | error e => exact (settles_release w _ dir).cast (by simp) (by simp)

theorem settles_dropEntry : Settles (w.dropEntry path op) 0 fun _ => 0 :=
  (settles_sysPathSep w path).bind fun r => (settles_release w _ r.1).cast (by simp) (by simp)

theorem settles_sysReadlink (len : Nat) : Settles (w.sysReadlink path len) 0 fun _ => 0 := by
  refine (settles_openFile w path 1).bind fun inode => settles_get fun s => ?_
  split
  · refine (settles_modify (.unref · inode)).bind fun _ => (settles_errno _).cast ?_ fun _ => rfl
    simp
  · exact (settles_release w _ inode).cast (by simp) (by simp)

/-! ## Other working directories -/

end

/-- The directory that a descriptor stands for. -/
def World.startDir (s : Caller F) (fd : Int) : Option Nat :=
  if fd = AT_FDCWD then s.cwd w.pid else (s.file w.pid fd).bind ProcessFile.inode

theorem setCwd_self (s : Caller F) (p : Nat) : s.setCwd p (s.cwd p) = s := by
  simp [Caller.setCwd, Caller.cwd]

variable {w}

theorem ends_enter {fd : Int} {Q : Unit → Caller F → Prop} (bad : R (.errno .EBADF) s)
    (good : w.enter fd s = (.ok (), s.setCwd w.pid (w.startDir s fd)) →
      Q () (s.setCwd w.pid (w.startDir s fd))) : Cmd.Ends (w.enter fd) s Q R := by
  unfold enter startDir at *
  split
  case isTrue here =>
    rw [if_pos here, if_pos here, setCwd_self] at good
    exact ends_pure (good rfl)
  case isFalse away =>
    rw [if_neg away, if_neg away, Cmd.get_bind] at good
    refine Cmd.ends_bind (Cmd.ends_get ?_)
    cases file : s.file w.pid fd with
    | none => exact ends_fail bad
    | some f =>
      rw [file] at good
      exact ends_modify (good rfl)

theorem Owes.startDir (h : Owes s d t) (fd : Int) : w.startDir t fd = w.startDir s fd := by
  simp [World.startDir, Caller.cwd, Caller.file, h.cwd, h.files, h.table]

theorem Owes.switch {p : Nat} {c c' : Option Nat} (h : Owes (s.setCwd p c) d t)
    (k : Owes (t.setCwd p c') d' u) : Owes (s.setCwd p c') (d + d') u where
  cwd := by simp [k.cwd, Caller.setCwd, h.cwd]
  cwdpath := k.cwdpath.trans h.cwdpath
  files := k.files.trans h.files
  table := k.table.trans h.table
  refs i := by
    have first := h.refs i
    have second := k.refs i
    simp only [Caller.refcnt, Caller.setCwd, Pi.add_apply] at first second ⊢
    omega

theorem Settles.relative (h : Settles c 0 ok) (fd : Int) : Settles (w.relative fd c) 0 ok := by
  intro s
  refine ends_bind (ends_get (ends_bind (ends_enter (fun _ => .refl s) fun _ => ?_)))
  refine ends_ensuring ((h _).mono (fun a t owes => owes.setCwd) fun e t owes fails => ?_)
  exact (owes fails).setCwd

theorem settles_sysRenameat (oldfd : Int) (old : String) (newfd : Int) (new : String) :
    Settles (w.sysRenameat oldfd old newfd new) 0 fun _ => 0 := by
  intro s
  refine ends_bind (ends_get (ends_bind (ends_enter (fun _ => .refl s) fun _ => ?_)))
  refine ends_bind (ends_onError ((settles_sysPathSep w old _).mono ?_ ?_))
  case refine_2 => exact fun _ t owes fails => (owes fails).setCwd
  rintro ⟨oldDir, _⟩ t owes
  refine ends_bind (ends_onError (ends_bind (ends_enter (fun _ => ?_) fun _ => ?_)))
  · simpa using (owes.trans (.unref t oldDir)).setCwd
  refine (settles_sysPathSep w new _).mono ?_ ?_
  case refine_2 =>
    intro e u more fails
    simpa using ((owes.switch (more fails)).trans (.unref u oldDir)).setCwd
  rintro ⟨newDir, _⟩ u more
  refine ends_ensuring ((settles_ask _ u).mono (fun _ v same => ?_) fun e v same fails => ?_)
  · have all := (((owes.switch more).trans same).trans (.unref v oldDir)).trans (.unref _ newDir)
    simpa using all.setCwd
  · have all :=
      (((owes.switch more).trans (same fails)).trans (.unref v oldDir)).trans (.unref _ newDir)
    simpa using all.setCwd

theorem settles_setTimes (i : Nat) (atime mtime : Option Time) :
    Settles (w.setTimes i atime mtime) (-one i) fun _ => -one i := settles_release w _ i

/-! ## Descriptors -/

/-- The descriptor `fd` is the only one of the entry `e`, which has the inode. -/
structure Sole (p fd e : Nat) (inode : Option Nat) (t : Caller F) : Prop where
  narrow : fd < PROCESS_FILE_LIMIT
  points : t.files.files (p, fd) = some e
  last : (t.files.table e).refcnt = 1
  inode : (t.files.table e).inode = inode

/-- The process is where it was, and has taken the references `d` on balance. -/
structure Restored (p : Nat) (s : Caller F) (d : Nat → Int) (t : Caller F) : Prop where
  cwd : t.cwd p = s.cwd p
  cwdpath : t.cwdpath = s.cwdpath
  refs : ∀ i, t.refcnt i = s.refcnt i + d i

theorem Owes.restored (h : Owes s d t) (p : Nat) : Restored p s d t :=
  ⟨congrFun h.cwd p, h.cwdpath, h.refs⟩

theorem Restored.refl (p : Nat) (s : Caller F) : Restored p s 0 s := (Owes.refl s).restored p

theorem Restored.trans {p : Nat} (h : Restored p s d t) (k : Restored p t d' u) :
    Restored p s (d + d') u where
  cwd := k.cwd.trans h.cwd
  cwdpath := k.cwdpath.trans h.cwdpath
  refs i := by rw [k.refs, h.refs, Pi.add_apply, add_assoc]

variable {p fd e : Nat} {inode : Option Nat}

theorem Owes.sole (h : Owes s d t) (sole : Sole p fd e inode s) : Sole p fd e inode t where
  narrow := sole.narrow
  points := by rw [h.files, sole.points]
  last := by rw [h.table, sole.last]
  inode := by rw [h.table, sole.inode]

/-- The references that an entry holds. -/
def holds : Option Nat → Nat → Int
  | none => 0
  | some i => one i

theorem ends_processAllocFd (clean : s.files.Clean) :
    Cmd.Ends w.processAllocFd s
      (fun fd t => Restored w.pid s 0 t ∧ t.fs = s.fs ∧ ∃ e, Sole w.pid fd e none t)
      (fun _ t => t = s) := by
  unfold Cmd.Ends World.processAllocFd Files.processAllocFd
  cases entry : s.files.freeEntry with
  | none => rfl
  | some e =>
    cases free : s.files.freeDescriptor w.pid 0 with
    | none => rfl
    | some fd =>
      obtain ⟨zero, -⟩ := freeEntry_eq_some entry
      obtain ⟨-, narrow⟩ := freeDescriptor_eq_some free
      refine ⟨⟨rfl, rfl, by simp [refcnt, setEntry, setFile]⟩, rfl, e, ?_⟩
      constructor
      case narrow => exact narrow
      case points => simp [setEntry, setFile]
      case last => simp [setEntry]
      case inode => simpa [setEntry, inodeOf] using clean e zero

section

variable (h : Sole w.pid fd e inode t)
include h

theorem Sole.filled (i : Nat) (path : Option String)
    (mode offset : Int) : (w.fill fd i path mode offset t).files =
      t.files.setEntry e ⟨some i, path, mode, offset, 1⟩ := by
  simp [World.fill, Files.fill, h.points, h.last]

theorem Sole.fill (i : Nat) (path : Option String) (mode offset : Int) :
    Restored w.pid t 0 (w.fill fd i path mode offset t) ∧
      Sole w.pid fd e (some i) (w.fill fd i path mode offset t) := by
  have filled := h.filled i path mode offset
  refine ⟨⟨?_, rfl, ?_⟩, ⟨h.narrow, ?_, ?_, ?_⟩⟩
  · simp [Caller.cwd, filled, Files.setEntry]
  · simp [Caller.refcnt, filled, Files.setEntry]
  · simp [filled, setEntry, h.points]
  · simp [filled, setEntry]
  · simp [filled, setEntry]

theorem Sole.freeFd : Restored w.pid t (-holds inode) (w.freeFd fd t) := by
  have zero : (((t.files.setFile w.pid fd none).addRefcnt e (-1)).table e).refcnt = 0 := by
    simp [Files.addRefcnt, Files.setEntry, Files.setFile, h.last]
  have held : (((t.files.setFile w.pid fd none).addRefcnt e (-1)).table e).inode = inode := by
    simp [Files.addRefcnt, Files.setEntry, Files.setFile, h.inode]
  have freed : (w.freeFd fd t).files.cwd = t.files.cwd ∧ ∀ i, (w.freeFd fd t).refcnt i =
      t.refcnt i - if inode = some i then 1 else 0 := by
    simp only [World.freeFd, Caller.refcnt, Files.processFreeFd, h.points, if_pos zero, held]
    have cwd := Files.unref_cwd ((t.files.setFile w.pid fd none).addRefcnt e (-1)) inode
    have refs := Files.unref_refcnt ((t.files.setFile w.pid fd none).addRefcnt e (-1)) inode
    split
    all_goals exact ⟨cwd, refs⟩
  refine ⟨congrFun freed.1 w.pid, rfl, fun i => ?_⟩
  rw [freed.2]
  cases inode with
  | none => simp [holds]
  | some j => simp only [holds, Pi.neg_apply, Pi.single_apply, some.injEq, sub_eq_add_neg,
      eq_comm]

end

theorem settles_findOrCreate (path : String) (flags mode : Nat) :
    Settles (w.findOrCreate path flags mode) 0 one := by
  refine (settles_openFile w path 1).outcome.bind fun found => ?_
  cases found with
  | ok inode =>
    dsimp only
    split
    · refine (settles_modify (.unref · inode)).bind fun _ => (settles_errno _).cast ?_ fun _ => rfl
      abel
    · exact settles_pure (by simp)
  | error e =>
    dsimp only
    split
    · refine ((settles_sysPathSep w path).cast (by simp) fun _ => rfl).bind fun ⟨dir, name⟩ => ?_
      refine (((settles_ask _).onError (.unref · dir)).cast (by simp) fun _ => rfl).bind fun _ => ?_
      exact ((settles_lookup w dir name 1).ensuring (.unref · dir)).cast (by simp)
        (by simp [sub_eq_add_neg])
    · exact (settles_errno _).cast (by simp) fun _ => rfl

theorem settles_truncate (inode : Nat) : Settles (w.truncate inode) (-one inode) fun _ => 0 :=
  (((settles_ask _).onError (.unref · inode)).cast (zero_add _) fun _ => rfl).bind fun _ =>
    settles_pure (by simp)

theorem settles_openInode (path : String) (flags mode : Nat) :
    Settles (w.openInode path flags mode) 0 one := by
  refine (settles_findOrCreate path flags mode).bind fun inode => ?_
  have truncates : Settles (Cmd.when (hasFlag flags O_TRUNC) (w.truncate inode)) (-one inode)
      fun _ => 0 := by
    intro s
    exact ends_when (fun _ => settles_truncate inode s) fun _ => .refl s
  refine (truncates.cast (by simp) fun _ => rfl).bind fun _ => settles_get fun s => ?_
  dsimp only
  split
  · refine (settles_modify (.unref · inode)).bind fun _ => (settles_errno _).cast ?_ fun _ => rfl
    abel
  · exact settles_pure (by simp)

/-- `sys_open` from the inode on does not fail. -/
def World.Fills (t : Caller F) (path : String) (flags inode : Nat) : Prop :=
  World.accessError (w.attrs t.fs inode) flags = none ∧ (w.resolve t.cwdpath path t.fs).1.isSome

theorem Sole.fillFd (h : Sole w.pid fd e inode t) (fills : w.Fills t path flags i) :
    ∃ u, w.fillFd path flags fd i t = (.ok (fd : Int), u) ∧ Restored w.pid t 0 u ∧
      Sole w.pid fd e (some i) u := by
  obtain ⟨allowed, resolves⟩ := fills
  obtain ⟨resolved, value⟩ := isSome_iff_exists.1 resolves
  obtain ⟨same, sole⟩ := h.fill i none 0 0
  generalize start : w.fill fd i none 0 0 t = v at same sole
  have fs : v.fs = t.fs := by rw [← start]; rfl
  have asks := answer_owes (w.resolve v.cwdpath path) v
  obtain ⟨same', sole'⟩ := (asks.sole sole).fill i (some resolved) (flags &&& O_ACCMODE : Nat)
    (if hasFlag flags O_APPEND then (w.attrs v.fs i).size else 0)
  refine ⟨_, ?_, ?_, sole'⟩
  · unfold World.fillFd
    rw [Cmd.modify_bind, Cmd.get_bind, start]
    rw [show accessError (w.attrs v.fs i) flags = none by rw [fs, allowed]]
    dsimp only
    rw [answer_bind, show (w.resolve v.cwdpath path v.fs).1 = some resolved by
      rw [same.cwdpath, fs, value]]
    rfl
  · simpa using (same.trans (asks.restored w.pid)).trans same'

/-- An error after the inode was stored gives it back once too often. -/
theorem Sole.fillFd_fails (h : Sole w.pid fd e inode t) (fails : ¬w.Fills t path flags i) :
    ∃ err u, w.fillFd path flags fd i t = (.error (.errno err), u) ∧
      Restored w.pid t (-one i + -one i) u := by
  obtain ⟨same, sole⟩ := h.fill i none 0 0
  generalize start : w.fill fd i none 0 0 t = v at same sole
  have fs : v.fs = t.fs := by rw [← start]; rfl
  have twice {u : Caller F} (owes : Owes v 0 u) :
      Restored w.pid t (-one i + -one i) (w.freeFd fd (u.unref i)) := by
    have gone := owes.trans (.unref u i)
    simpa [holds] using (same.trans (gone.restored w.pid)).trans (gone.sole sole).freeFd
  unfold World.fillFd
  rw [Cmd.modify_bind, Cmd.get_bind, start]
  cases allowed : accessError (w.attrs v.fs i) flags with
  | some err => exact ⟨err, _, rfl, twice (.refl v)⟩
  | none =>
    dsimp only
    rw [answer_bind]
    cases resolved : (w.resolve v.cwdpath path v.fs).1 with
    | none => exact ⟨.ENOMEM, _, rfl, twice (answer_owes (w.resolve v.cwdpath path) v)⟩
    | some =>
      refine absurd ⟨fs ▸ allowed, ?_⟩ fails
      rw [← fs, ← same.cwdpath, resolved]
      rfl

/-! ## Transparent calls -/

namespace World

variable (w)

/-- The reference that may be left at the end: the one of the descriptor that `openat` returns. -/
def kept (t : Caller F) (r : Int) : AtCall → Nat → Int
  | .openat .. => holds ((t.file w.pid r).bind ProcessFile.inode)
  | _ => 0

/-- However the call ends, the process is in the directory that it was in, and every reference
that was taken has been given back. -/
def Transparent (s : Caller F) (call : AtCall) : Prop :=
  Cmd.Ends (w.run call) s (fun r t => Restored w.pid s (w.kept t r call) t)
    fun h t => h ≠ .never → Restored w.pid s 0 t

/-- Open a path from the directory of a descriptor. -/
def openFrom (fd : Int) (path : String) (follow : Int) : Call F Nat :=
  w.enter fd >>= fun _ => w.openFile path follow

/-- The descriptor and the inode that `openat` gets. -/
def openatInode (fd : Int) (path : String) (flags mode : Nat) : Call F (Nat × Nat) := do
  w.enterPath fd
  let n ← w.processAllocFd
  let inode ← w.openInode path flags mode
  return (n, inode)

/-- The working directory when both inodes of `linkat` are there. -/
def lastDir (s : Caller F) (oldfd newfd : Int) : Option Nat :=
  w.startDir (s.setCwd w.pid (w.startDir s oldfd)) newfd

/-- The calls that stay away from the paths on which something is forgotten. -/
def Careful (s : Caller F) : AtCall → Prop
  | .openat fd path flags mode => ∀ n inode t,
    w.openatInode fd path flags mode s = (.ok (n, inode), t) → w.Fills t path flags inode
  | .futimesat fd path atime mtime => atime.frac < 1000000 → mtime.frac < 1000000 →
    ∀ inode t, w.openFrom fd path 1 s = (.ok inode, t) →
      w.cred.user.effective = 0 ∧ (w.attrs t.fs inode).uid = 0
  | .linkat oldfd old newfd new flags => ∀ oldInode newDir name t temp u,
    w.linkatInodes oldfd old newfd new flags s = (.ok (oldInode, newDir, name), t) →
    w.lookup newDir name 0 t = (.ok temp, u) → w.lastDir s oldfd newfd = s.cwd w.pid
  | .faccessat fd path mode flags => mode = X_OK ∨ mode = R_OK ∨ mode = W_OK →
    ∀ inode t, w.openFrom fd path (followUnless flags) s ≠ (.ok inode, t)
  | _ => True

end World

/-- A call that always settles, with nothing to be careful about. -/
theorem settled_iff (h : Settles (w.run call) 0 fun _ => 0)
    (other : ∀ t r, w.kept t r call = 0) (easy : w.Careful s call) :
    w.Transparent s call ↔ w.Careful s call := by
  refine iff_of_true ?_ easy
  refine (h s).mono (fun r t owes => ?_) fun e t owes fails => (owes fails).restored w.pid
  rw [other]
  exact owes.restored w.pid

theorem World.Transparent.restored {r : Except Halt Int}
    (h : w.Transparent s call) (run : w.run call s = (r, t)) (returns : r ≠ .error .never)
    (other : ∀ t r, w.kept t r call = 0) : Restored w.pid s 0 t := by
  have ends := h.of_run run
  cases r with
  | ok r =>
    dsimp only at ends
    rwa [other] at ends
  | error e => exact ends fun never => returns (congrArg _ never)

/-- A balance that is not even. -/
theorem Restored.absurd {p : Nat} (even : Restored p s 0 t)
    (odd : ∀ i, t.refcnt i = s.refcnt i + d i) (i : Nat) (ne : d i ≠ 0) : False := by
  have h := even.refs i
  have k := odd i
  simp only [Pi.zero_apply] at h
  omega

theorem openFrom_ok {fd : Int} {follow : Int} {inode : Nat}
    (run : w.openFrom fd path follow s = (.ok inode, t)) :
    w.enter fd s = (.ok (), s.setCwd w.pid (w.startDir s fd)) ∧
      w.openFile path follow (s.setCwd w.pid (w.startDir s fd)) = (.ok inode, t) := by
  obtain ⟨⟨⟩, u, enters, opens⟩ := of_bind_ok run
  have spec : Cmd.Ends (w.enter fd) s (fun _ u => u = s.setCwd w.pid (w.startDir s fd))
    fun _ _ => True := ends_enter trivial fun _ => rfl
  have here : u = s.setCwd w.pid (w.startDir s fd) := spec.of_run enters
  subst here
  exact ⟨enters, opens⟩

/-- From the directory of the descriptor, which could be entered. -/
theorem ends_relative {fd : Int} {Q : α → Caller F → Prop} (bad : R (.errno .EBADF) s)
    (good : w.enter fd s = (.ok (), s.setCwd w.pid (w.startDir s fd)) →
      Cmd.Ends c (s.setCwd w.pid (w.startDir s fd)) (fun a t => Q a (t.setCwd w.pid (s.cwd w.pid)))
        fun h t => R h (t.setCwd w.pid (s.cwd w.pid))) :
    Cmd.Ends (w.relative fd c) s Q R := by
  refine ends_bind (ends_get (ends_bind (ends_enter bad fun run => ?_)))
  exact ends_ensuring (good run)

theorem futimesat_iff (s : Caller F) (fd : Int) (path : String) (atime mtime : Time) :
    w.Transparent s (.futimesat fd path atime mtime) ↔
      w.Careful s (.futimesat fd path atime mtime) := by
  constructor
  · intro transparent _ _ inode t opens
    by_contra denied
    obtain ⟨enters, run⟩ := openFrom_ok opens
    have call : w.run (.futimesat fd path atime mtime) s =
        (.error (.errno .EPERM), t.setCwd w.pid (s.cwd w.pid)) := by
      change w.sysFutimesat fd path atime mtime s = _
      unfold sysFutimesat relative
      rw [if_neg (by omega), Cmd.get_bind, Cmd.bind_ok enters]
      refine Cmd.ensuring_run ?_
      rw [Cmd.bind_ok run, Cmd.get_bind, if_pos]
      · rfl
      · by_contra both
        push Not at both
        exact denied ⟨both.1, both.2 ▸ both.1⟩
    have owes : Owes _ (one inode) t := (settles_openFile w path 1 _).of_run run
    have even := transparent.restored call nofun fun _ _ => rfl
    exact even.absurd owes.setCwd.refs inode (by simp)
  · intro careful
    change Cmd.Ends (w.sysFutimesat fd path atime mtime) s _ _
    unfold sysFutimesat
    split
    · exact ends_fail fun _ => .refl w.pid s
    refine ends_relative (fun _ => .refl w.pid s) fun enters => ?_
    refine ends_bind ((settles_openFile w path 1 _).with_run.mono ?_ ?_)
    case refine_2 => exact fun h t owes fails => (owes fails).setCwd.restored w.pid
    rintro inode t ⟨run, owes⟩
    obtain ⟨root, mine⟩ := careful (by omega) (by omega) inode t ((bind_ok enters).trans run)
    refine ends_bind (ends_get ?_)
    rw [if_neg (by simp [root, mine])]
    refine (settles_setTimes inode _ _ t).mono (fun _ u more => ?_) fun h u more fails => ?_
    · simpa [kept] using (owes.trans more).setCwd.restored w.pid
    · simpa using (owes.trans (more fails)).setCwd.restored w.pid

theorem check_run (o : Option Errno) (s : Caller F) :
    ∃ r, check o s = (r, s) ∧ r ≠ .error .never := by
  cases o with
  | none => exact ⟨_, rfl, nofun⟩
  | some e => exact ⟨_, rfl, nofun⟩

theorem faccessat_iff (s : Caller F) (fd : Int) (path : String) (mode : Int) (flags : Nat) :
    w.Transparent s (.faccessat fd path mode flags) ↔
      w.Careful s (.faccessat fd path mode flags) := by
  constructor
  · intro transparent asks inode t opens
    obtain ⟨enters, run⟩ := openFrom_ok opens
    have call : ∃ r, w.run (.faccessat fd path mode flags) s = (r, t) ∧ r ≠ .error .never := by
      change ∃ r, w.sysFaccessat fd path mode flags s = (r, t) ∧ _
      unfold sysFaccessat
      rw [Cmd.get_bind, Cmd.bind_ok enters, Cmd.bind_ok (Cmd.onError_run run), Cmd.get_bind]
      split
      · exact check_run _ t
      split
      · exact check_run _ t
      rw [if_pos (by tauto)]
      exact check_run _ t
    obtain ⟨r, call, returns⟩ := call
    have owes : Owes _ (one inode) t := (settles_openFile w path _ _).of_run run
    have even := transparent.restored call returns fun _ _ => rfl
    exact even.absurd owes.refs inode (by simp)
  · intro careful
    refine ends_bind (ends_get (ends_bind
      (ends_enter (fun _ => .refl w.pid s) fun enters => ?_)))
    refine ends_bind (ends_onError ((settles_openFile w path _ _).with_run.mono ?_ ?_))
    case refine_2 => exact fun h t owes fails => (owes fails).setCwd.restored w.pid
    rintro inode t ⟨run, owes⟩
    have idle (asks : mode = X_OK ∨ mode = R_OK ∨ mode = W_OK) : False :=
      careful asks inode t ((bind_ok enters).trans run)
    refine ends_bind (ends_get ?_)
    rw [if_neg fun x => idle (.inl x), if_neg fun r => idle (.inr (.inl r)),
      if_neg fun m => idle (.inr (.inr m))]
    have back : Restored w.pid s 0 ((t.unref inode).setCwd w.pid (s.cwd w.pid)) := by
      simpa using (owes.trans (.unref t inode)).setCwd.restored w.pid
    refine ends_bind (ends_modify ?_)
    split
    · exact ends_pure back
    · exact ends_fail fun _ => back

theorem ends_linkatInodes (s : Caller F) (oldfd : Int) (old : String) (newfd : Int) (new : String)
    (flags : Nat) :
    Cmd.Ends (w.linkatInodes oldfd old newfd new flags) s
      (fun r t => Owes (s.setCwd w.pid (w.lastDir s oldfd newfd)) (one r.1 + one r.2.1) t)
      fun h t => h ≠ .never → Owes s 0 t := by
  refine ends_bind (ends_get (ends_bind (ends_enter (fun _ => .refl s) fun _ => ?_)))
  refine ends_bind (ends_onError ((settles_openFile w old _ _).mono ?_ ?_))
  case refine_2 => exact fun _ t owes fails => (owes fails).setCwd
  intro oldInode t owes
  refine ends_bind (ends_onError (ends_bind (ends_enter (fun _ => ?_) fun _ => ?_)))
  · simpa using (owes.trans (.unref t oldInode)).setCwd
  rw [owes.startDir]
  refine (settles_sysPathSep w new _).mono ?_ ?_
  case refine_2 =>
    intro e u more fails
    simpa using ((owes.switch (more fails)).trans (.unref u oldInode)).setCwd
  rintro ⟨_, _⟩ u more
  exact ends_pure (owes.switch more)

theorem linkat_iff (s : Caller F) (oldfd : Int) (old : String) (newfd : Int) (new : String)
    (flags : Nat) :
    w.Transparent s (.linkat oldfd old newfd new flags) ↔
      w.Careful s (.linkat oldfd old newfd new flags) := by
  constructor
  · intro transparent oldInode newDir name t temp u inodes found
    have call : w.run (.linkat oldfd old newfd new flags) s =
        (.error (.errno .EEXIST), ((u.unref oldInode).unref newDir).unref temp) := by
      change w.sysLinkat oldfd old newfd new flags s = _
      unfold sysLinkat
      rw [Cmd.get_bind, Cmd.bind_ok inodes]
      have lookup : outcome (w.lookup newDir name 0) t = (.ok (.ok temp), u) := by
        unfold outcome
        rw [found]
      dsimp only
      rw [bind_ok lookup]
      rfl
    have even := transparent.restored call nofun fun _ _ => rfl
    have first : Owes (s.setCwd w.pid (w.lastDir s oldfd newfd)) _ t :=
      (ends_linkatInodes s oldfd old newfd new flags).of_run inodes
    have second : Owes t (one temp) u := (settles_lookup w newDir name 0 t).of_run found
    have all := (((first.trans second).trans (.unref u oldInode)).trans
      (.unref _ newDir)).trans (.unref _ temp)
    have last := congrFun all.cwd w.pid
    rw [← even.cwd]
    simpa [Caller.setCwd, Caller.cwd] using last.symm
  · intro careful
    refine ends_bind (ends_get (ends_bind ?_))
    refine (ends_linkatInodes s oldfd old newfd new flags).with_run.mono ?_ ?_
    case refine_2 => exact fun h t owes fails => (owes fails).restored w.pid
    rintro ⟨oldInode, newDir, name⟩ t ⟨inodes, owes⟩
    refine ends_bind (ends_outcome ?_ fun _ fails => absurd rfl fails)
    refine (settles_lookup w newDir name 0 t).with_run.mono ?_ ?_
    · rintro temp u ⟨found, more⟩
      have home := careful oldInode newDir name t temp u inodes found
      rw [home, setCwd_self] at owes
      refine ends_bind (ends_modify (ends_fail fun _ => ?_))
      have all := (((owes.trans more).trans (.unref u oldInode)).trans
        (.unref _ newDir)).trans (.unref _ temp)
      have even : one oldInode + one newDir + one temp + -one oldInode + -one newDir + -one temp = 0 := by
        abel
      rw [even] at all
      exact all.restored w.pid
    · intro h u more fails _
      have back {v : Caller F} (same : Owes u 0 v) : Restored w.pid s 0
          (((v.unref oldInode).unref newDir).setCwd w.pid (s.cwd w.pid)) := by
        have all := (((owes.trans (more fails)).trans same).trans (.unref v oldInode)).trans
          (.unref _ newDir)
        simpa using all.setCwd.restored w.pid
      exact ends_ensuring ((settles_ask _ u).mono (fun _ v same => back same)
        fun _ v same fails => back (same fails))

theorem Sole.file (h : Sole p fd e inode t) :
    (t.file p (fd : Int)).bind ProcessFile.inode = inode := by
  have narrow := h.narrow
  have index : descriptor (fd : Int) = some fd := by
    unfold descriptor
    rw [if_pos ⟨by omega, by omega⟩, Int.toNat_natCast]
  simp [Caller.file, index, h.points, h.inode]

theorem ends_enterPath {fd : Int} {Q : Unit → Caller F → Prop} (bad : R (.errno .EBADF) s)
    (good : ∀ t : Caller F, t.files.table = s.files.table → t.refcnt = s.refcnt → Q () t) :
    Cmd.Ends (w.enterPath fd) s Q R := by
  unfold enterPath
  split
  · exact ends_pure (good s rfl rfl)
  · refine ends_bind (ends_get ?_)
    cases s.file w.pid fd with
    | none => exact ends_fail bad
    | some => exact ends_modify (good _ rfl rfl)

/-- The references when `sys_open` returns, if its last part does not fail. -/
theorem ends_sysOpen (clean : s.files.Clean) {mode : Nat}
    (fine : ∀ n u inode t, w.processAllocFd s = (.ok n, u) → w.openInode path flags mode u =
      (.ok inode, t) → w.Fills t path flags inode) :
    Cmd.Ends (w.sysOpen path flags mode) s
      (fun r t => ∀ i, t.refcnt i = s.refcnt i +
        holds ((t.file w.pid r).bind ProcessFile.inode) i)
      fun h t => h ≠ .never → ∀ i, t.refcnt i = s.refcnt i := by
  refine ends_bind ((ends_processAllocFd clean).with_run.mono ?_ ?_)
  case refine_2 =>
    rintro h t rfl -
    exact fun _ => rfl
  rintro n u ⟨alloc, same, -, e, sole⟩
  refine ends_bind (ends_onError ((settles_openInode path flags mode u).with_run.mono ?_ ?_))
  case refine_2 =>
    intro h t owes fails i
    have back := (same.trans ((owes fails).restored w.pid)).trans ((owes fails).sole sole).freeFd
    simpa [holds] using back.refs i
  rintro inode t ⟨opens, owes⟩
  obtain ⟨v, run, stay, sole⟩ := (owes.sole sole).fillFd (fine n u inode t alloc opens)
  refine ends_run run fun i => ?_
  rw [sole.file]
  simpa [holds] using ((same.trans (owes.restored w.pid)).trans stay).refs i

theorem openat_iff (clean : s.files.Clean) (fd : Int) (path : String) (flags mode : Nat) :
    w.Transparent s (.openat fd path flags mode) ↔ w.Careful s (.openat fd path flags mode) := by
  have still {t : Caller F} (table : t.files.table = s.files.table) : t.files.Clean := fun e zero => by
    rw [inodeOf, table]
    exact clean e (table ▸ zero)
  constructor
  · intro transparent n inode t run
    by_contra fails
    obtain ⟨⟨⟩, s₁, enters, run⟩ := of_bind_ok run
    obtain ⟨_, s₂, alloc, run⟩ := of_bind_ok run
    obtain ⟨_, _, opens, run⟩ := of_bind_ok run
    cases run
    have spec : Cmd.Ends (w.enterPath fd) s
        (fun _ t => t.files.table = s.files.table ∧ t.refcnt = s.refcnt) fun _ _ => True :=
      ends_enterPath trivial fun _ table refs => ⟨table, refs⟩
    obtain ⟨table, refs⟩ := spec.of_run enters
    obtain ⟨same, -, e, sole⟩ := (ends_processAllocFd (still table)).of_run alloc
    have owes : Owes s₂ (one inode) t := (settles_openInode path flags mode s₂).of_run opens
    obtain ⟨err, u, late, twice⟩ := (owes.sole sole).fillFd_fails fails
    have opened : w.sysOpen path flags mode s₁ = (.error (.errno err), u) := by
      unfold sysOpen
      rw [bind_ok alloc, bind_ok (onError_run opens), late]
    have call : w.run (.openat fd path flags mode) s = (.error (.errno err),
        { u.setCwd w.pid (s.cwd w.pid) with cwdpath := s.cwdpath }) := by
      change w.sysOpenat fd path flags mode s = _
      unfold sysOpenat
      rw [Cmd.get_bind, Cmd.bind_ok enters]
      exact Cmd.ensuring_run opened
    have even : Restored w.pid s 0 _ := transparent.of_run call (by rintro ⟨⟩)
    have all := (same.trans (owes.restored w.pid)).trans twice
    refine even.absurd (fun i => ?_) inode (d := 0 + one inode + (-one inode + -one inode)) (by simp)
    rw [← refs]
    exact all.refs i
  · intro careful
    refine ends_bind (ends_get (ends_bind ?_))
    have enters : Cmd.Ends (w.enterPath fd) s
        (fun _ t => t.files.table = s.files.table ∧ t.refcnt = s.refcnt)
        fun h t => h ≠ .never → Restored w.pid s 0 t :=
      ends_enterPath (fun _ => .refl w.pid s) fun _ table refs => ⟨table, refs⟩
    refine enters.with_run.imp fun _ s₁ entered => ?_
    obtain ⟨enters, table, refs⟩ := entered
    refine ends_ensuring ((ends_sysOpen (still table) ?_).mono ?_ ?_)
    · intro n u inode t alloc opens
      refine careful n inode t ?_
      unfold openatInode
      rw [bind_ok enters, bind_ok alloc, bind_ok opens]
      rfl
    · intro r t count
      refine ⟨by simp [Caller.setCwd, Caller.cwd], rfl, fun i => ?_⟩
      rw [← refs]
      exact count i
    · intro h t count fails
      refine ⟨by simp [Caller.setCwd, Caller.cwd], rfl, fun i => ?_⟩
      rw [← refs, Pi.zero_apply, add_zero]
      exact count fails i

theorem settles_changeTimes (path : String) (atime mtime : Time) (flags : Nat) :
    Settles (w.changeTimes path atime mtime flags) 0 fun _ => 0 := by
  refine (settles_openFile w path _).bind fun inode => settles_get fun s => ?_
  split
  · refine (settles_modify (.unref · inode)).bind fun _ => (settles_errno _).cast ?_ fun _ => rfl
    abel
  · exact (settles_setTimes inode _ _).cast (by simp) (by simp)

theorem utimensat_transparent (home : (s.cwd w.pid).isSome) (fd : Int) (path : Option String)
    (atime mtime : Time) (flags : Nat) : w.Transparent s (.utimensat fd path atime mtime flags) := by
  change Cmd.Ends (w.sysUtimensat fd path atime mtime flags) s _ _
  unfold sysUtimensat
  split
  · exact ends_fail fun _ => .refl w.pid s
  cases path with
  | none =>
    refine ends_bind (ends_get ?_)
    split
    · exact ends_fail fun _ => .refl w.pid s
    · exact ends_fail fun fails => absurd rfl fails
  | some path =>
    refine ends_bind (ends_get (ends_bind (ends_enter (fun _ => .refl w.pid s) fun _ => ?_)))
    simp only [home, if_true]
    refine ends_ensuring ((settles_changeTimes path atime mtime flags _).mono ?_ ?_)
    · exact fun _ t owes => owes.setCwd.restored w.pid
    · exact fun _ t owes fails => (owes fails).setCwd.restored w.pid

/-- A call is transparent if and only if it is careful: `openat` does not fail after it has stored
the inode, `futimesat` is a call of the super-user on a file of theirs, `linkat` does not find the
new name or has not left the working directory, and `faccessat` does not check permissions. -/
theorem at_call_transparent (clean : s.files.Clean) (home : (s.cwd w.pid).isSome)
    (call : AtCall) : w.Transparent s call ↔ w.Careful s call := by
  cases call with
  | openat fd path flags mode => exact openat_iff clean fd path flags mode
  | futimesat fd path atime mtime => exact futimesat_iff s fd path atime mtime
  | linkat oldfd old newfd new flags => exact linkat_iff s oldfd old newfd new flags
  | faccessat fd path mode flags => exact faccessat_iff s fd path mode flags
  | utimensat fd path atime mtime flags =>
    exact iff_of_true (utimensat_transparent home fd path atime mtime flags) trivial
  | mkdirat fd path mode =>
    exact settled_iff ((settles_makeEntry w path _).relative fd) (fun _ _ => rfl) trivial
  | mknodat fd path mode =>
    exact settled_iff ((settles_makeEntry w path _).relative fd) (fun _ _ => rfl) trivial
  | fchownat fd path _ _ flags =>
    exact settled_iff ((settles_onFile w path _ _).relative fd) (fun _ _ => rfl) trivial
  | fstatat64 fd path flags =>
    refine settled_iff (Settles.relative ?_ fd) (fun _ _ => rfl) trivial
    split
    · exact settles_onFile w path 0 _
    · exact settles_onFile w path 1 _
  | unlinkat fd path flags =>
    refine settled_iff (Settles.relative ?_ fd) (fun _ _ => rfl) trivial
    split
    · exact settles_dropEntry w path .rmdir
    · exact settles_dropEntry w path .unlink
  | renameat oldfd old newfd new =>
    exact settled_iff (settles_sysRenameat oldfd old newfd new) (fun _ _ => rfl) trivial
  | symlinkat old fd new =>
    exact settled_iff ((settles_makeEntry w new _).relative fd) (fun _ _ => rfl) trivial
  | readlinkat fd path len =>
    exact settled_iff ((settles_sysReadlink w path len).relative fd) (fun _ _ => rfl) trivial
  | fchmodat fd path mode flags =>
    exact settled_iff ((settles_onFile w path _ _).relative fd) (fun _ _ => rfl) trivial

/-- A root directory with a file `a`, inode 5, and the super-user in it. -/
def smallWorld : World Unit where
  pid := 0
  cred := ⟨⟨0, 0, 0⟩, ⟨0, 0, 0⟩⟩
  umask := 0
  depth := 1
  attrs := fun _ i => ⟨if i = 0 then 0o040755 else 0o100644, 0, 0, 0, 0⟩
  ext2 := fun _ _ => true
  root := 0
  mounted := fun _ _ => none
  memory := fun f => (true, f)
  entry := fun _ name f => (if name = some ['a'] then .ok 5 else .error (.errno .ENOENT), f)
  target := fun _ f => (.error (.errno .EINVAL), f)
  resolve := fun _ path f => (some path, f)
  op := fun _ f => (.ok 0, f)

def smallCaller : Caller Unit := ⟨Files.boot, some "/", ()⟩

theorem at_call_transparent_exists :
    smallWorld.Transparent smallCaller (.faccessat AT_FDCWD "a" F_OK 0) :=
  (at_call_transparent (fun _ _ => rfl) rfl _).2 fun asks => absurd asks (by decide)

/-- `faccessat` with `R_OK` keeps its reference of the file. -/
theorem faccessat_keeps_inode :
    ¬smallWorld.Transparent smallCaller (.faccessat AT_FDCWD "a" R_OK 0) := by
  intro transparent
  have run : (smallWorld.run (.faccessat AT_FDCWD "a" R_OK 0) smallCaller).1 = .ok 0 := by decide
  have even : Restored 0 smallCaller 0
      (smallWorld.run (.faccessat AT_FDCWD "a" R_OK 0) smallCaller).2 :=
    transparent.restored (Prod.ext run rfl) nofun fun _ _ => rfl
  exact absurd (even.refs 5) (by decide)

end Os0
