import Os0.Fs.RelVfs
import Os0.Lib.Recursion
import Os0.Lib.Split

/-! Path lookup through symbolic links. While the file systems do not change, `vfs_open_file` is a
recursive procedure that calls itself for the target of each link it meets, with no count of the
links; it ends if and only if the links it meets do not nest for ever. -/
namespace Os0

open Call Recursion List Option Cmd Relation

namespace World

variable (w : World Unit)

/-- A path, the directory that it starts from and whether a link at its end is followed. -/
structure Job where
  cwd : Nat
  path : List Char
  follow : Int

/-- What a lookup comes to before it follows a link. -/
inductive Found
  | stop (e : Errno)
  | inode (i : Nat)
  | link (target : List Char)

/-- A reply, as long as there is one. -/
def errnoOf : Halt → Errno
  | .errno e => e
  | .never => Errno.EIO

def find (dir : Nat) (name : Name) (symcount : Int) : Found :=
  if !w.isDir () dir then .stop .ENOTDIR
  else if MAXSYMLINKS ≤ symcount then .stop .ELOOP
  else match vfsPermCheckRead w.cred (w.attrs () dir) false with
    | some e => .stop e
    | none => match (w.entry dir (some name) ()).1 with
      | .error h => .stop (errnoOf h)
      | .ok vi =>
        if w.ext2 () dir ∧ 0 ≤ symcount ∧ w.isLink () vi then
          match (w.target vi ()).1 with
          | .error h => .stop (errnoOf h)
          | .ok path => .link path
        else .inode vi

/-- A lookup as a part of a body. -/
def seek (dir : Nat) (name : Name) (symcount : Int)
    (next : Except Errno Nat → Body Job (Except Errno Nat)) : Body Job (Except Errno Nat) :=
  match w.find dir name symcount with
  | .stop e => next (.error e)
  | .inode i => next (.ok i)
  | .link target => .call ⟨dir, target, 0⟩ next

def advanceBody (walkOn : Nat → Body Job (Except Errno Nat)) (last : Bool) :
    Except Errno Nat → Body Job (Except Errno Nat)
  | .error e => .ret (.error e)
  | .ok inode =>
    if !last ∧ !w.isDir () inode then .ret (.error .ENOTDIR)
    else walkOn ((w.mounted () inode).getD inode)

/-- The walk along the names as a body of calls. -/
def walkBody (follow : Int) : Nat → List Name → Body Job (Except Errno Nat)
  | dir, [] => .ret (.ok dir)
  | dir, c :: rest =>
    if skipped c then walkBody follow dir rest
    else w.seek dir c (if rest = [] then follow else 1)
      (w.advanceBody (fun next => walkBody follow next rest) (rest = []))

/-- Where the walk along a path starts. -/
def start (cwd : Nat) (path : List Char) : Nat :=
  let dir := if (fromRoot path).isSome then w.root else cwd
  (w.mounted () dir).getD dir

def names (path : List Char) : List Name := ((fromRoot path).getD path).splitOn '/'

def openBody (job : Job) : Body Job (Except Errno Nat) :=
  w.walkBody job.follow (w.start job.cwd job.path) (names job.path)

/-- A link is met on the way of the first job, and the second is to follow it. -/
def Meets (job link : Job) : Prop := Calls w.openBody (w.openBody job) link

/-- The targets of the links of ext2, each with the directory that it is resolved in. -/
def linkJobs : Set Job :=
  {job | w.ext2 () job.cwd = true ∧ job.follow = 0 ∧ ∃ name vi,
    (w.entry job.cwd (some name) ()).1 = .ok vi ∧ w.isLink () vi = true ∧
    (w.target vi ()).1 = .ok job.path}

/-- No link that is met is met again while its own target is resolved. -/
def NoneAgain (job : Job) : Prop :=
  ∀ link, TransGen w.Meets job link → ¬TransGen w.Meets link link

/-- What `vfs_open_file` does when there is memory, every function of the file systems returns,
and a file is in one file system. -/
structure Sound (s : Caller Unit) : Prop where
  memory : (w.memory ()).1 = true
  entry : ∀ dir name, (w.entry dir name ()).1 ≠ .error .never
  target : ∀ i, (w.target i ()).1 ≠ .error .never
  home : ∃ dir, s.cwd w.pid = some dir ∧ w.isLink () dir = false
  root : w.isLink () w.root = false
  mounts : ∀ i r, w.mounted () i = some r → w.isDir () i = true ∧ w.isLink () r = false
  ext2 : ∀ dir name i, w.ext2 () dir = true → (w.entry dir name ()).1 = .ok i → w.ext2 () i = true
  other : ∀ dir name i, w.ext2 () dir = false → (w.entry dir name ()).1 = .ok i →
    w.ext2 () i = true → w.isLink () i = false

variable {w} {s : Caller Unit}

/-- What is returned for a result, or for none. -/
def halt : Option (Except Errno Nat) → Except Halt Nat
  | none => .error .never
  | some (.error e) => .error (.errno e)
  | some (.ok i) => .ok i

variable {dir i vi : Nat} {k : Int} {path : List Char}

variable {answer : Job → Option (Except Errno Nat)} (follow : Int)

theorem halt_injective {a b : Option (Except Errno Nat)} (h : halt a = halt b) : a = b := by
  rcases a with - | (e | i) <;> rcases b with - | (e' | i') <;> cases h <;> rfl

theorem errno_errnoOf {α : Type} {x : Except Halt α} {h : Halt} (eq : x = .error h)
    (returns : x ≠ .error .never) : Halt.errno (errnoOf h) = h := by
  cases h with
  | errno e => rfl
  | never => exact absurd eq returns

section Fst

variable {F α β : Type} {c : Call F α} {f : α → Call F β} {t : Caller F}

theorem bind_fst_error {h : Halt} (run : (c t).1 = .error h) : ((c >>= f) t).1 = .error h := by
  have eq : c t = (.error h, (c t).2) := Prod.ext run rfl
  rw [bind_error eq]

theorem bind_fst_ok {a : α} (run : (c t).1 = .ok a) : ((c >>= f) t).1 = (f a (c t).2).1 := by
  have eq : c t = (.ok a, (c t).2) := Prod.ext run rfl
  rw [bind_ok eq]

theorem onError_fst (g : Caller F → Caller F) : (Cmd.onError c g t).1 = (c t).1 := by
  unfold Cmd.onError
  split
  case h_1 run => rw [run]
  case h_2 run => rw [run]

end Fst

section Embed

variable {openFile : List Char → Call Unit Nat} {answer : Job → Option (Except Errno Nat)}
  (sound : w.Sound s)
  (opens : ∀ path t dir, t.cwd w.pid = some dir → (openFile path t).1 = halt (answer ⟨dir, path, 0⟩))

include sound opens

theorem followLink_fst (dir vi : Nat) (t : Caller Unit) :
    (w.followLink openFile dir vi t).1 = match (w.target vi ()).1 with
      | .error h => .error h
      | .ok path => halt (answer ⟨dir, path, 0⟩) := by
  unfold followLink
  rw [Cmd.get_bind, bind_fst_ok (a := true) (congrArg Except.ok sound.memory), if_pos rfl,
    Cmd.modify_bind]
  change ((ask (w.target vi) >>= openFile) _).1 = _
  cases target : (w.target vi ()).1 with
  | error h => exact bind_fst_error target
  | ok path =>
    rw [bind_fst_ok (c := ask (w.target vi)) target]
    exact opens path _ dir (by simp [ask, Caller.cwd, Caller.setCwd])

theorem vfsLookup_fst (dir : Nat) (c : Name) (symcount : Int) (t : Caller Unit) :
    (w.vfsLookup openFile dir (some c) symcount t).1 = match w.find dir c symcount with
      | .stop e => .error (.errno e)
      | .inode i => .ok i
      | .link path => halt (answer ⟨dir, path, 0⟩) := by
  unfold vfsLookup find
  rw [Cmd.get_bind]
  split
  · rfl
  split
  · rfl
  cases vfsPermCheckRead w.cred (w.attrs () dir) false with
  | some e => rfl
  | none =>
    cases entry : (w.entry dir (some c) ()).1 with
    | error h =>
      rw [bind_fst_error (c := ask (w.entry dir (some c))) entry]
      exact (congrArg _ (errno_errnoOf entry (sound.entry dir _))).symm
    | ok vi =>
      rw [bind_fst_ok (c := ask (w.entry dir (some c))) entry, Cmd.modify_bind, Cmd.get_bind]
      dsimp only
      split_ifs with link
      · rw [followLink_fst sound opens]
        cases target : (w.target vi ()).1 with
        | error h => exact (congrArg _ (errno_errnoOf target (sound.target vi))).symm
        | ok path => rfl
      · rfl

omit sound opens in
theorem advance_fst {walkOn : Nat → Call Unit Nat} {walkOn' : Nat → Body Job (Except Errno Nat)}
    (walks : ∀ dir t, (walkOn dir t).1 = halt ((walkOn' dir).run answer)) (last : Bool)
    (dir inode : Nat) (t : Caller Unit) :
    (w.advance walkOn last dir inode t).1 =
      halt ((w.advanceBody walkOn' last (.ok inode)).run answer) := by
  unfold advance advanceBody
  rw [Cmd.modify_bind, Cmd.get_bind]
  generalize t.unref dir = u
  dsimp only
  split
  · rfl
  cases w.mounted () inode with
  | none => exact walks inode _
  | some root => exact walks root _

theorem walk_fst (follow : Int) (dir : Nat) (names : List Name) (t : Caller Unit) :
    (w.walk openFile follow dir names t).1 = halt ((w.walkBody follow dir names).run answer) := by
  induction names generalizing dir t with
  | nil => rfl
  | cons c rest ih =>
    unfold walk walkBody
    split
    · exact ih dir t
    have looked := vfsLookup_fst sound opens dir c (if rest = [] then follow else 1) t
    rw [← onError_fst (Caller.unref dir)] at looked
    unfold seek
    cases found : w.find dir c (if rest = [] then follow else 1) with
    | stop e =>
      rw [found] at looked
      exact bind_fst_error looked
    | inode i =>
      rw [found] at looked
      rw [bind_fst_ok looked]
      exact advance_fst ih _ dir i _
    | link target =>
      cases result : answer ⟨dir, target, 0⟩ with
      | none =>
        simp only [found, result] at looked
        simp only [Body.run, result]
        exact bind_fst_error looked
      | some r =>
        simp only [found, result] at looked
        simp only [Body.run, result]
        cases r with
        | error e => exact bind_fst_error looked
        | ok i =>
          rw [bind_fst_ok looked]
          exact advance_fst ih _ dir i _

end Embed

theorem vfsOpenFile_fst (sound : w.Sound s) (n : Nat) (path : List Char) (follow : Int) (dir : Nat)
    (t : Caller Unit) (cwd : t.cwd w.pid = some dir) :
    (w.vfsOpenFile n path follow t).1 = halt (eval w.openBody n ⟨dir, path, follow⟩) := by
  induction n generalizing path follow dir t with
  | zero => rfl
  | succ n ih =>
    have left : w.memoryLeft t = (.ok true, { t with fs := (w.memory t.fs).2 }) :=
      Prod.ext (congrArg Except.ok sound.memory) rfl
    have duplicated : w.strdup t = (.ok (), { t with fs := (w.memory t.fs).2 }) := by
      unfold World.strdup
      rw [bind_ok left]
      rfl
    unfold vfsOpenFile
    rw [Cmd.bind_ok duplicated, Cmd.get_bind]
    have stays : ({ t with fs := (w.memory t.fs).2 } : Caller Unit).cwd w.pid = some dir := cwd
    rw [stays]
    have begins : (if (fromRoot path).isSome then some w.root else some dir) =
        some (if (fromRoot path).isSome then w.root else dir) := by
      split <;> rfl
    rw [begins]
    exact walk_fst sound (fun path t dir cwd => ih path 0 dir t cwd) follow _ _ _

/-! ## The last name of a path -/

/-- `vfs_open_file` behind the last directory. -/
def lookLast (w : World Unit) (follow : Int) (c : Name) (answer : Job → Option (Except Errno Nat)) :
    Except Errno Nat → Option (Except Errno Nat)
  | .error e => some (.error e)
  | .ok dir => (w.walkBody follow dir [c]).run answer

variable {c : Name}

theorem run_seek
    {next next' : Except Errno Nat → Body Job (Except Errno Nat)}
    {then' : Except Errno Nat → Option (Except Errno Nat)}
    (same : ∀ r, (next r).run answer = ((next' r).run answer).bind then') :
    (w.seek dir c k next).run answer = ((w.seek dir c k next').run answer).bind then' := by
  unfold seek
  cases w.find dir c k with
  | stop e => exact same _
  | inode i => exact same _
  | link => simp only [Body.run, bind_assoc, same]

/-- The walk along a path is the walk to its last directory and a lookup there. -/
theorem run_walk_last (c : Name) (answer : Job → Option (Except Errno Nat))
    (dir : Nat) (ds : List Name) :
    (w.walkBody follow dir (ds ++ [c])).run answer =
      ((w.walkBody follow dir (ds ++ [[]])).run answer).bind (w.lookLast follow c answer) := by
  induction ds generalizing dir with
  | nil => rfl
  | cons d ds ih =>
    simp only [cons_append, walkBody, append_eq_nil_iff, cons_ne_nil, and_false,
      if_false, decide_false]
    split
    · exact ih dir
    refine run_seek fun r => ?_
    cases r with
    | error e => rfl
    | ok i =>
      simp only [advanceBody]
      split
      · rfl
      · exact ih _

theorem walkBody_follow (follow' : Int) (dir : Nat) (ds : List Name) :
    w.walkBody follow dir (ds ++ [[]]) = w.walkBody follow' dir (ds ++ [[]]) := by
  induction ds generalizing dir with
  | nil => rfl
  | cons d ds ih =>
    simp only [cons_append, walkBody, append_eq_nil_iff, cons_ne_nil, and_false,
      if_false, decide_false]
    simp only [ih]

/-- A path that ends with the name `c` behind the text `before`. -/
structure Last (path before : List Char) (c : Name) : Prop where
  path : path = before ++ c
  ends : before = [] ∨ ∃ dirs, before = dirs ++ ['/']
  name : '/' ∉ c
  proper : skipped c = false

theorem fromRoot_eq_none {a : Char} (ne : a ≠ '/') (path : List Char) :
    fromRoot (a :: path) = none := by
  unfold fromRoot
  split
  · rename_i eq
    cases eq
    exact absurd rfl ne
  · rfl

theorem Last.split {before : List Char} (h : Last path before c) (dir : Nat) :
    w.start dir path = w.start dir before ∧
      ∃ ds, names before = ds ++ [[]] ∧ names path = ds ++ [c] := by
  obtain ⟨rfl, ends, plain, proper⟩ := h
  have slash (dirs : List Char) : (dirs ++ ['/']).splitOn '/' = dirs.splitOn '/' ++ [[]] :=
    Split.splitOn_append_sep dirs []
  rcases ends with rfl | ⟨dirs, rfl⟩
  · obtain ⟨a, c, rfl⟩ : ∃ a rest, c = a :: rest := by
      cases c with
      | nil => exact absurd proper (by decide)
      | cons a c => exact ⟨a, c, rfl⟩
    have ne : a ≠ '/' := fun eq => plain (eq ▸ mem_cons_self ..)
    have relative := fromRoot_eq_none ne c
    have empty : fromRoot [] = none := rfl
    refine ⟨by simp [start, relative, empty], [], rfl, ?_⟩
    simp only [names, nil_append, relative, getD_none, Split.splitOn_part plain]
  · rw [append_assoc, singleton_append]
    cases dirs with
    | nil => exact ⟨rfl, [], rfl, Split.splitOn_part plain⟩
    | cons a dirs =>
      by_cases root : a = '/'
      · subst root
        exact ⟨rfl, dirs.splitOn '/', slash dirs, Split.splitOn_append_part plain dirs⟩
      · have relative := fromRoot_eq_none root
        refine ⟨by simp [start, relative], (a :: dirs).splitOn '/', ?_, ?_⟩
        · simpa [names, relative] using slash (a :: dirs)
        · simpa [names, relative] using Split.splitOn_append_part plain (a :: dirs)

/-! ## Links at the end -/

variable (w) in
/-- A link of ext2 is never the result of following links. -/
def Plain (i : Nat) : Prop := w.ext2 () i = true → w.isLink () i = false

theorem isLink_of_isDir (dir : w.isDir () i = true) : w.isLink () i = false := by
  simp only [isDir, isLink, isType, decide_eq_true_eq, decide_eq_false_iff_not] at dir ⊢
  rw [dir]
  decide

theorem find_plain (sound : w.Sound s) (nonneg : 0 ≤ k)
    (found : w.find dir c k = .inode i) : w.Plain i := by
  intro ext2
  simp only [find] at found
  split at found
  · cases found
  split at found
  · cases found
  split at found
  · cases found
  split at found
  · cases found
  rename_i entry
  split at found
  · split at found <;> cases found
  rename_i straight
  cases found
  cases here : w.ext2 () dir with
  | true =>
    cases link : w.isLink () i with
    | true => exact absurd ⟨here, nonneg, link⟩ straight
    | false => rfl
  | false => exact sound.other dir _ i here entry ext2

theorem find_link {target : List Char} (found : w.find dir c k = .link target) :
    (⟨dir, target, 0⟩ : Job) ∈ w.linkJobs := by
  simp only [find] at found
  split at found
  · cases found
  split at found
  · cases found
  split at found
  · cases found
  split at found
  · cases found
  rename_i entry
  split at found
  · rename_i link
    split at found
    · cases found
    · rename_i at_target
      cases found
      exact ⟨link.1, rfl, _, _, entry, link.2.2, at_target⟩
  · cases found

/-- Every job that is met is that of a link. -/
theorem walk_calls {follow : Int} {ds : List Name} {job : Job}
    (calls : Calls w.openBody (w.walkBody follow dir ds) job) : job ∈ w.linkJobs := by
  induction ds generalizing dir with
  | nil => cases calls
  | cons c rest ih =>
    unfold walkBody at calls
    split at calls
    · exact ih calls
    have on {r : Except Errno Nat} (calls : Calls w.openBody
        (w.advanceBody (fun next => w.walkBody follow next rest) (rest = []) r) job) :
        job ∈ w.linkJobs := by
      cases r with
      | error e => cases calls
      | ok i =>
        simp only [advanceBody] at calls
        split at calls
        · cases calls
        · exact ih calls
    unfold seek at calls
    cases found : w.find dir c (if rest = [] then follow else 1) with
    | stop e =>
      rw [found] at calls
      exact on calls
    | inode i =>
      rw [found] at calls
      exact on calls
    | link target =>
      rw [found] at calls
      cases calls with
      | here => exact find_link found
      | later _ later => exact on later

/-- Where there are finitely many links, the chains that do not end are the ones that come back. -/
theorem acc_meets_iff (finite : w.linkJobs.Finite) (job : Job) :
    Acc (fun link job => w.Meets job link) job ↔ w.NoneAgain job := by
  refine acc_iff_acyclic (finite.subset ?_)
  intro link met
  obtain ⟨_, -, last⟩ := TransGen.tail'_iff.1 met
  exact walk_calls last

theorem find_link_dir {target : List Char}
    (found : w.find dir c k = .link target) : w.isDir () dir = true := by
  by_contra no
  simp only [find] at found
  rw [if_pos (by simpa using no)] at found
  cases found

theorem mounted_plain (sound : w.Sound s) (plain : w.Plain i) :
    w.Plain ((w.mounted () i).getD i) := by
  cases mounted : w.mounted () i with
  | none => exact plain
  | some r => exact fun _ => (sound.mounts i r mounted).2

theorem walk_plain (sound : w.Sound s)
    (plain : ∀ dir path i, w.isDir () dir = true → answer ⟨dir, path, 0⟩ = some (.ok i) → w.Plain i)
    {follow : Int} (nonneg : 0 ≤ follow) (at_dir : w.Plain dir) {ds : List Name}
    (h : (w.walkBody follow dir ds).run answer = some (.ok i)) : w.Plain i := by
  induction ds generalizing dir with
  | nil =>
    cases h
    exact at_dir
  | cons c rest ih =>
    unfold walkBody at h
    split at h
    · exact ih at_dir h
    have on {j : Nat} (at_j : w.Plain j)
        (h : (w.advanceBody (fun next => w.walkBody follow next rest) (rest = []) (.ok j)).run
          answer = some (.ok i)) : w.Plain i := by
      simp only [advanceBody] at h
      split at h
      · cases h
      · exact ih (mounted_plain sound at_j) h
    unfold seek at h
    cases found : w.find dir c (if rest = [] then follow else 1) with
    | stop e =>
      rw [found] at h
      cases h
    | inode j =>
      rw [found] at h
      refine on (find_plain sound ?_ found) h
      split <;> omega
    | link target =>
      rw [found] at h
      obtain ⟨r, called, rest⟩ := bind_eq_some_iff.1 h
      cases r with
      | error e => cases rest
      | ok j => exact on (plain dir target j (find_link_dir found) called) rest

theorem eval_plain (sound : w.Sound s) {n : Nat} {cwd : Nat} {follow : Int}
    (nonneg : 0 ≤ follow) (home : w.isLink () cwd = false)
    (h : eval w.openBody n ⟨cwd, path, follow⟩ = some (.ok i)) : w.Plain i := by
  induction n generalizing cwd path follow i with
  | zero => cases h
  | succ n ih =>
    refine walk_plain sound (fun dir path i isDir called => ?_) nonneg ?_ h
    · exact ih (by omega) (isLink_of_isDir isDir) called
    · refine mounted_plain sound fun _ => ?_
      split
      · exact sound.root
      · exact home

variable (w) in
/-- The path ends with the name of the link `vi`, in the directory `dir`. -/
def EndsInLink (s : Caller Unit) (path : List Char) (dir vi : Nat) : Prop :=
  ∃ before c, Last path before c ∧ (∃ n, (w.vfsOpenFile n before 1 s).1 = .ok dir) ∧
    w.isDir () dir = true ∧ vfsPermCheckRead w.cred (w.attrs () dir) false = none ∧
    (w.entry dir (some c) ()).1 = .ok vi ∧ w.isLink () vi = true

variable (w) in
/-- The lookup of a path ends, and yields a link at its end if that is not to be followed. -/
def Resolves (s : Caller Unit) (path : List Char) (follow : Int) : Prop :=
  (∃ n, (w.vfsOpenFile n path follow s).1 ≠ .error .never) ∧
    (follow = 0 → ∀ dir vi, w.EndsInLink s path dir vi →
      ∃ n, (w.vfsOpenFile n path follow s).1 = .ok vi)

theorem find_last (isDir : w.isDir () dir = true)
    (perm : vfsPermCheckRead w.cred (w.attrs () dir) false = none)
    (entry : (w.entry dir (some c) ()).1 = .ok vi) (link : w.isLink () vi = true) :
    w.find dir c 0 = if w.ext2 () dir then
      match (w.target vi ()).1 with
      | .error h => .stop (errnoOf h)
      | .ok path => .link path
      else .inode vi := by
  unfold find
  rw [if_neg (by simp [isDir]), if_neg (by decide), perm]
  simp only [entry, link, and_true, le_refl]

theorem lookLast_eq (proper : skipped c = false) (answer : Job → Option (Except Errno Nat)) :
    w.lookLast 0 c answer (.ok dir) =
      (w.seek dir c 0 (w.advanceBody (fun next => .ret (.ok next)) true)).run answer := by
  simp [lookLast, walkBody, proper]

section

variable (sound : w.Sound s)
include sound

theorem lookLast_inode (proper : skipped c = false)
    (found : w.find dir c 0 = .inode vi) (link : w.isLink () vi = true)
    (answer : Job → Option (Except Errno Nat)) :
    w.lookLast 0 c answer (.ok dir) = some (.ok vi) := by
  have unmounted : w.mounted () vi = none := by
    cases mounted : w.mounted () vi with
    | none => rfl
    | some r =>
      have isDir := (sound.mounts vi r mounted).1
      rw [isLink_of_isDir isDir] at link
      cases link
  rw [lookLast_eq proper, seek, found]
  simp [advanceBody, unmounted, Body.run]

theorem lookLast_link {n : Nat} {target : List Char}
    (proper : skipped c = false) (found : w.find dir c 0 = .link target)
    (ext2 : w.ext2 () vi = true) (link : w.isLink () vi = true) :
    w.lookLast 0 c (eval w.openBody n) (.ok dir) ≠ some (.ok vi) := by
  intro result
  rw [lookLast_eq proper, seek, found] at result
  obtain ⟨r, called, rest⟩ := bind_eq_some_iff.1 result
  cases r with
  | error e => cases rest
  | ok j =>
    have at_j : w.Plain j :=
      eval_plain sound le_rfl (isLink_of_isDir (find_link_dir found)) called
    have at_vi : w.Plain vi := by
      have moved := mounted_plain sound at_j
      simp only [advanceBody] at rest
      split at rest
      · cases rest
      · cases rest
        exact moved
    rw [at_vi ext2] at link
    cases link

theorem eval_last {d k : Nat} (cwd : s.cwd w.pid = some dir)
    {before : List Char} (last : Last path before c)
    (opened : (w.vfsOpenFile k before 1 s).1 = .ok d) (n : Nat) (le : k ≤ n) :
    eval w.openBody (n + 1) ⟨dir, path, 0⟩ = w.lookLast 0 c (eval w.openBody n) (.ok d) := by
  rw [vfsOpenFile_fst sound k before 1 dir s cwd] at opened
  have first : eval w.openBody k ⟨dir, before, 1⟩ = some (.ok d) := halt_injective opened
  have first := eval_mono (Nat.le_succ_of_le le) first
  obtain ⟨start, _, befores, all⟩ := last.split (w := w) dir
  change (w.walkBody 1 (w.start dir before) (names before)).run _ = _ at first
  change (w.walkBody 0 (w.start dir path) (names path)).run _ = _
  rw [befores, walkBody_follow 1 0] at first
  rw [all, start, run_walk_last, first]
  rfl

theorem lookup_ends_iff (cwd : s.cwd w.pid = some dir) (path : List Char) (follow : Int) :
    (∃ n, (w.vfsOpenFile n path follow s).1 ≠ .error .never) ↔
      Acc (fun link job => w.Meets job link) ⟨dir, path, follow⟩ := by
  refine Iff.trans ?_ exists_returns_iff
  constructor
  · rintro ⟨n, returns⟩
    rw [vfsOpenFile_fst sound n path follow dir s cwd] at returns
    cases result : eval w.openBody n ⟨dir, path, follow⟩ with
    | none => exact absurd (by rw [result]; rfl) returns
    | some r => exact ⟨r, n, result⟩
  · rintro ⟨r, n, result⟩
    refine ⟨n, ?_⟩
    rw [vfsOpenFile_fst sound n path follow dir s cwd, result]
    cases r <;> exact nofun

end

theorem resolves_iff (sound : w.Sound s) {dir : Nat} (cwd : s.cwd w.pid = some dir)
    (path : List Char) (follow : Int) :
    w.Resolves s path follow ↔ Acc (fun link job => w.Meets job link) ⟨dir, path, follow⟩ ∧
      (follow = 0 → ∀ d vi, w.EndsInLink s path d vi → w.ext2 () d = false) := by
  refine and_congr (lookup_ends_iff sound cwd path follow) (imp_congr_right fun zero => ?_)
  subst zero
  refine forall₃_congr fun d vi ends => ?_
  obtain ⟨_, c, last, ⟨k, opened⟩, isDir, perm, entry, link⟩ := ends
  have found := find_last isDir perm entry link
  have result := eval_last sound cwd last opened
  constructor
  · rintro ⟨n, yields⟩
    by_contra ext2
    rw [Bool.not_eq_false] at ext2
    rw [vfsOpenFile_fst sound n path 0 dir s cwd] at yields
    have yields : eval w.openBody n ⟨dir, path, 0⟩ = some (.ok vi) := halt_injective yields
    have late := eval_mono (le_trans (le_max_left n k) (Nat.le_succ _)) yields
    rw [result _ (le_max_right n k)] at late
    rw [if_pos ext2] at found
    cases target : (w.target vi ()).1 with
    | error h =>
      rw [target] at found
      rw [lookLast_eq last.proper, seek, found] at late
      cases late
    | ok path =>
      rw [target] at found
      exact lookLast_link sound last.proper found (sound.ext2 d _ vi ext2 entry) link late
  · intro other
    rw [if_neg (by simp [other])] at found
    refine ⟨k + 1, ?_⟩
    rw [vfsOpenFile_fst sound _ path 0 dir s cwd, result k le_rfl,
      lookLast_inode sound last.proper found link]
    rfl

/-- A lookup ends, and yields a link that is not to be followed, if and only if no unending chain of
links is met, each within the target of the one before, and a link at the end of the path that is
not to be followed is not one of ext2. With finitely many links the first means that none is met
again while its own target is resolved. -/
theorem links_resolve (sound : w.Sound s) {dir : Nat} (cwd : s.cwd w.pid = some dir)
    (path : List Char) (follow : Int) :
    (w.Resolves s path follow ↔ Acc (fun link job => w.Meets job link) ⟨dir, path, follow⟩ ∧
      (follow = 0 → ∀ d vi, w.EndsInLink s path d vi → w.ext2 () d = false)) ∧
    (w.linkJobs.Finite → (w.Resolves s path follow ↔ w.NoneAgain ⟨dir, path, follow⟩ ∧
      (follow = 0 → ∀ d vi, w.EndsInLink s path d vi → w.ext2 () d = false))) := by
  have ends := resolves_iff sound cwd path follow
  refine ⟨ends, fun finite => ?_⟩
  rw [ends, acc_meets_iff finite]

/-- A directory of ext2 with a link `a` and a file `b`. -/
def linkWorld (target : List Char) : World Unit where
  pid := 0
  cred := ⟨⟨0, 0, 0⟩, ⟨0, 0, 0⟩⟩
  umask := 0
  depth := 1
  attrs := fun _ i =>
    ⟨if i = 0 then 0o040755 else if i = 5 then 0o120777 else 0o100644, 0, 0, 0, 0⟩
  ext2 := fun _ _ => true
  root := 0
  mounted := fun _ _ => none
  memory := fun f => (true, f)
  entry := fun _ name f => (if name = some ['a'] then .ok 5 else if name = some ['b'] then .ok 6
    else .error (.errno .ENOENT), f)
  target := fun _ f => (.ok target, f)
  resolve := fun _ path f => (some path, f)
  op := fun _ f => (.ok 0, f)

def linkCaller : Caller Unit := ⟨Files.boot, some "/", ()⟩

theorem linkWorld_root (target : List Char) : (linkWorld target).isLink () 0 = false := by
  simp only [isLink, linkWorld, if_true]
  decide

theorem linkWorld_sound (target : List Char) : (linkWorld target).Sound linkCaller where
  memory := rfl
  entry _ name := by
    simp only [linkWorld]
    split
    · exact nofun
    · split <;> exact nofun
  target _ := nofun
  home := ⟨0, rfl, linkWorld_root target⟩
  root := linkWorld_root target
  mounts := nofun
  ext2 _ _ _ _ _ := rfl
  other := nofun

/-- The lookup of a link to the file follows it. -/
theorem links_resolve_file : (linkWorld ['b']).Resolves linkCaller ['a'] 1 := by
  refine (links_resolve (linkWorld_sound ['b']) rfl ['a'] 1).1.2 ⟨⟨_, fun link met => ?_⟩, nofun⟩
  cases met with
  | here =>
    refine ⟨_, fun next met => ?_⟩
    cases met
  | @later _ _ r _ _ met =>
    cases r with
    | error e => cases met
    | ok i =>
      change Calls _ (.ret (Except.ok i)) _ at met
      cases met

/-- The lookup of a link to itself does not end. -/
theorem self_link_never_ends : ¬(linkWorld ['a']).Resolves linkCaller ['a'] 1 := by
  rintro ⟨⟨n, returns⟩, -⟩
  have nested (n : Nat) : eval (linkWorld ['a']).openBody n ⟨0, ['a'], 0⟩ = none := by
    induction n with
    | zero => rfl
    | succ n ih => exact congrArg (Option.bind · _) ih
  rw [vfsOpenFile_fst (linkWorld_sound ['a']) n ['a'] 1 0 linkCaller rfl] at returns
  cases n with
  | zero => exact returns rfl
  | succ n =>
    have never : eval (linkWorld ['a']).openBody (n + 1) ⟨0, ['a'], 1⟩ = none :=
      congrArg (Option.bind · _) (nested n)
    exact returns (by rw [never]; rfl)

end World

end Os0
