import Os0.Process.Exec

/-! The credentials of a process across `execve`. -/
namespace Os0

open Bytes List Option

/-- The IDs, the process group, the session, the file creation mask and the mask of
blocked signals are the same in both. -/
structure SameCredentials (p p' : Process) : Prop where
  cred : p'.cred = p.cred
  pgid : p'.pgid = p.pgid
  sid : p'.sid = p.sid
  umask : p'.umask = p.umask
  sigblocked : p'.sigblocked = p.sigblocked

/-- The image that an exec of a file loads: the file itself, or what the interpreter
named in its first line leads to. -/
inductive Image (env : ExecEnv) (c : Credentials) : ExecFile → ExecFile → Prop
  | binary {f : ExecFile} {bytes : List UInt8} : vfsRead c f 2 0 = .ok bytes →
      execBuffer env bytes 2 ≠ [0x23, 0x21] → Image env c f f
  | script {f g image : ExecFile} {head bytes line : List UInt8} : vfsRead c f 2 0 = .ok head →
      execBuffer env head 2 = [0x23, 0x21] → vfsRead c f 127 2 = .ok bytes →
      hashbangLine (execBuffer env bytes 127) = some line →
      env.openFile c ((scriptWords line).headD []) = .ok g → Image env c g image →
      Image env c f image

/-- A file leads to an image, itself or that of the interpreter that its first line names, and the
arguments with the words of the lines in front of them are accepted. -/
inductive LeadsToImage (env : ExecEnv) (c : Credentials) (envp : List (List UInt8)) :
    ExecFile → List (List UInt8) → Prop
  | binary {f : ExecFile} {argv : List (List UInt8)} {bytes : List UInt8} :
      vfsRead c f 2 0 = .ok bytes → execBuffer env bytes 2 ≠ [0x23, 0x21] →
      taskSetupExec argv envp = none → LeadsToImage env c envp f argv
  | script {f g : ExecFile} {argv : List (List UInt8)} {head bytes line : List UInt8} :
      vfsRead c f 2 0 = .ok head → execBuffer env head 2 = [0x23, 0x21] →
      vfsRead c f 127 2 = .ok bytes → hashbangLine (execBuffer env bytes 127) = some line →
      argv.length + (scriptWords line).length ≤ 255 →
      env.openFile c ((scriptWords line).headD []) = .ok g →
      LeadsToImage env c envp g (scriptWords line ++ argv) → LeadsToImage env c envp f argv

/-- The effective user ID that an image gives: its owner's if it is set-user-ID on a
file system that allows it, otherwise 0. -/
def imageUser (image : ExecFile) : UInt16 :=
  if ¬hasFlag image.attrs.mntflags MS_NOSUID ∧ hasFlag image.attrs.mode S_ISUID then image.attrs.uid
  else 0

/-- The effective group ID that an image gives. -/
def imageGroup (image : ExecFile) : UInt16 :=
  if ¬hasFlag image.attrs.mntflags MS_NOSUID ∧ hasFlag image.attrs.mode S_ISGID then image.attrs.gid
  else 0

/-- A process that has already what an exec of the image sets. -/
structure AlreadyReset (p : Process) (image : ExecFile) : Prop where
  user : p.cred.user = ⟨0, imageUser image, 0⟩
  group : p.cred.group = ⟨0, imageGroup image, 0⟩
  pgid : p.pgid = 0
  sid : p.sid = 0
  umask : p.umask = 0
  sigblocked : p.sigblocked = 0

structure ExecCall where
  env : ExecEnv
  path : List UInt8
  argv : List (List UInt8)
  envp : List (List UInt8)

/-- The path names a file without set-user-ID and set-group-ID bits that leads to the
image. -/
def Loads (p : Process) (call : ExecCall) (image : ExecFile) : Prop :=
  ∃ f, call.env.openFile p.cred call.path = .ok f ∧ hasFlag f.attrs.mode S_ISUID = false ∧
    hasFlag f.attrs.mode S_ISGID = false ∧ Image call.env p.cred f image

/-- A successful `execve` of a file without set-ID bits. -/
def ExecStep (p : Process) (call : ExecCall) (p' : Process) : Prop :=
  ∃ f entry, call.env.openFile p.cred call.path = .ok f ∧ hasFlag f.attrs.mode S_ISUID = false ∧
    hasFlag f.attrs.mode S_ISGID = false ∧
    sysExecve call.env p call.path call.argv call.envp = some (.ok entry, p')

section Load

variable {env : ExecEnv} {p p' : Process} {f : ExecFile} {argv envp : List (List UInt8)}
  {ret : Except ExecError Nat}

variable {depth : Nat}

theorem closeOnExec_same (p : Process) : SameCredentials p (closeOnExec p) := by
  unfold closeOnExec
  generalize range p.files.length = fds
  induction fds generalizing p with
  | nil => exact ⟨rfl, rfl, rfl, rfl, rfl⟩
  | cons fd fds ih =>
    rw [foldl_cons]
    split
    · have one : SameCredentials p (processFreeFd p fd) := by
        unfold processFreeFd
        split <;> exact ⟨rfl, rfl, rfl, rfl, rfl⟩
      have rest := ih (processFreeFd p fd)
      exact ⟨rest.cred.trans one.cred, rest.pgid.trans one.pgid, rest.sid.trans one.sid,
        rest.umask.trans one.umask, rest.sigblocked.trans one.sigblocked⟩
    · exact ih p

theorem processClear_reset {q : Process} (h : processClear env p = some q) :
    q.cred = ⟨⟨0, 0, 0⟩, ⟨0, 0, 0⟩⟩ ∧ q.pgid = 0 ∧ q.sid = 0 ∧ q.umask = 0 ∧ q.sigblocked = 0 := by
  obtain ⟨s, -, rfl⟩ := map_eq_some_iff.1 h
  exact ⟨rfl, rfl, rfl, rfl, rfl⟩

/-- A process into which `process_exec` has loaded an image. -/
theorem execBinary_reset {entry : Nat}
    (h : execBinary env p f argv envp = some (.ok entry, p')) : AlreadyReset p' f := by
  unfold execBinary at h
  split at h
  · cases h
  · obtain ⟨q, cleared, h⟩ := bind_eq_some_iff.1 h
    obtain ⟨cred, pgid, sid, umask, sigblocked⟩ := processClear_reset cleared
    have same := closeOnExec_same q
    obtain ⟨⟨result, s⟩, -, h⟩ := bind_eq_some_iff.1 h
    cases result with
    | error e =>
      obtain ⟨_, -, eq⟩ := map_eq_some_iff.1 h
      cases eq
    | ok =>
      obtain ⟨-, rfl⟩ := h
      have cred' : (closeOnExec q).cred = ⟨⟨0, 0, 0⟩, ⟨0, 0, 0⟩⟩ := same.cred.trans cred
      constructor
      case user =>
        unfold setImageIds imageUser
        by_cases nosuid : hasFlag f.attrs.mntflags MS_NOSUID = true
        · simp [nosuid, cred']
        · by_cases suid : hasFlag f.attrs.mode S_ISUID = true <;> simp [nosuid, suid, cred']
      case group =>
        unfold setImageIds imageGroup
        by_cases nosuid : hasFlag f.attrs.mntflags MS_NOSUID = true
        · simp [nosuid, cred']
        · by_cases sgid : hasFlag f.attrs.mode S_ISGID = true <;> simp [nosuid, sgid, cred']
      case pgid =>
        unfold setImageIds
        split <;> exact same.pgid.trans pgid
      case sid =>
        unfold setImageIds
        split <;> exact same.sid.trans sid
      case umask =>
        unfold setImageIds
        split <;> exact same.umask.trans umask
      case sigblocked =>
        unfold setImageIds
        split <;> exact same.sigblocked.trans sigblocked

/-- An exec fails and leaves the process alone, or loads the image that it has come to. The
induction is on the levels of interpreters. -/
theorem processExec_cases
    (h : processExec env depth p f argv envp = some (ret, p')) :
    (p' = p ∧ ∃ e, ret = .error e) ∨ LeadsToImage env p.cred envp f argv ∧ ∃ image argv',
      Image env p.cred f image ∧ taskSetupExec argv' envp = none ∧
        execBinary env p image argv' envp = some (ret, p') := by
  induction depth generalizing f argv with
  | zero => cases h
  | succ depth ih =>
    unfold processExec at h
    split at h
    · cases h
      exact .inl ⟨rfl, _, rfl⟩
    · rename_i bytes first
      split at h
      · rename_i isScript
        split at h
        · cases h
          exact .inl ⟨rfl, _, rfl⟩
        · rename_i bytes' second
          obtain ⟨_, found, h⟩ := bind_eq_some_iff.1 h
          split at h
          · cases h
          split at h
          · cases h
            exact .inl ⟨rfl, _, rfl⟩
          split at h
          · cases h
            exact .inl ⟨rfl, _, rfl⟩
          · rename_i g opened
            refine (ih h).imp_right ?_
            rintro ⟨leads, image, argv', chain, loaded⟩
            exact ⟨.script first isScript second found (by omega) opened leads, image, argv',
              .script first isScript second found opened chain, loaded⟩
      · rename_i notScript
        cases accepted : taskSetupExec argv envp with
        | some e =>
          unfold execBinary at h
          rw [accepted] at h
          cases h
          exact .inl ⟨rfl, _, rfl⟩
        | none =>
          exact .inr ⟨.binary first notScript accepted, f, argv, .binary first notScript, accepted, h⟩

theorem Image.unique {c : Credentials} {image image' : ExecFile} (h : Image env c f image)
    (h' : Image env c f image') : image = image' := by
  induction h with
  | binary first notScript =>
    cases h' with
    | binary => rfl
    | script first' mark =>
      obtain rfl := Except.ok.inj (first.symm.trans first')
      exact absurd mark notScript
  | script first mark second line opened _ ih =>
    cases h' with
    | binary first' notScript =>
      obtain rfl := Except.ok.inj (first.symm.trans first')
      exact absurd mark notScript
    | script first' _ second' line' opened' rest =>
      obtain rfl := Except.ok.inj (second.symm.trans second')
      obtain rfl := Option.some.inj (line.symm.trans line')
      obtain rfl := Except.ok.inj (opened.symm.trans opened')
      exact ih rest

theorem LeadsToImage.loads (leads : LeadsToImage env p.cred envp f argv)
    (h : processExec env depth p f argv envp = some (ret, p')) :
    ∃ image argv', taskSetupExec argv' envp = none ∧
      execBinary env p image argv' envp = some (ret, p') := by
  induction leads generalizing depth with
  | binary first notScript accepted =>
    cases depth with
    | zero => cases h
    | succ depth =>
      simp only [processExec, first, notScript, if_false] at h
      exact ⟨_, _, accepted, h⟩
  | script first mark second line _ opened _ ih =>
    cases depth with
    | zero => cases h
    | succ depth =>
      simp only [processExec, first, mark, if_true, second, line, bind_some] at h
      rw [if_neg (by omega), if_neg (by omega), opened] at h
      exact ih h

theorem processExec_reset {entry : Nat}
    (h : processExec env depth p f argv envp = some (.ok entry, p')) :
    ∃ image, Image env p.cred f image ∧ AlreadyReset p' image := by
  obtain ⟨-, e, eq⟩ | ⟨-, image, _, chain, -, loaded⟩ := processExec_cases h
  · cases eq
  · exact ⟨image, chain, execBinary_reset loaded⟩

end Load

variable {p p' : Process}

theorem exec_resets {call : ExecCall} (step : ExecStep p call p') :
    ∃ image, Loads p call image ∧ AlreadyReset p' image := by
  obtain ⟨f, _, opened, nosuid, nosgid, h⟩ := step
  unfold sysExecve at h
  rw [opened] at h
  dsimp only at h
  split at h
  · cases h
  split at h
  · cases h
  split at h
  · cases h
  · obtain ⟨⟨result, q⟩, loaded, eq⟩ := map_eq_some_iff.1 h
    cases result with
    | error e => cases eq
    | ok =>
      obtain ⟨image, leads, reset⟩ := processExec_reset loaded
      obtain ⟨-, rfl⟩ := eq
      exact ⟨image, ⟨f, opened, nosuid, nosgid, leads⟩, reset.user, reset.group, reset.pgid,
        reset.sid, reset.umask, reset.sigblocked⟩

/-- The credentials survive an exec exactly if they are already what the image sets. -/
theorem AlreadyReset.same_iff {image : ExecFile} (after : AlreadyReset p' image) :
    SameCredentials p p' ↔ AlreadyReset p image := by
  constructor
  · intro same
    exact ⟨same.cred ▸ after.user, same.cred ▸ after.group, same.pgid ▸ after.pgid,
      same.sid ▸ after.sid, same.umask ▸ after.umask, same.sigblocked ▸ after.sigblocked⟩
  · intro before
    constructor
    case cred =>
      have user := after.user.trans before.user.symm
      have group := after.group.trans before.group.symm
      cases hp : p.cred
      cases hp' : p'.cred
      simp_all
    case pgid => exact after.pgid.trans before.pgid.symm
    case sid => exact after.sid.trans before.sid.symm
    case umask => exact after.umask.trans before.umask.symm
    case sigblocked => exact after.sigblocked.trans before.sigblocked.symm

theorem Loads.unique {call : ExecCall} {image image' : ExecFile} (h : Loads p call image)
    (h' : Loads p call image') : image = image' := by
  obtain ⟨f, opened, -, -, leads⟩ := h
  obtain ⟨f', opened', -, -, leads'⟩ := h'
  obtain rfl := Except.ok.inj (opened.symm.trans opened')
  exact leads.unique leads'

theorem execStep_unique (p : Process) (call : ExecCall) (q q' : Process) (step : ExecStep p call q)
    (step' : ExecStep p call q') : q = q' := by
  obtain ⟨_, _, -, -, -, done⟩ := step
  obtain ⟨_, _, -, -, -, done'⟩ := step'
  rw [done] at done'
  cases done'
  rfl

/-- A successful exec keeps the credentials exactly for a process that has nothing to
lose: every ID 0 but what the image sets, and no group, session or mask. After a run
of execs from a process with no user ID 0 the effective user ID is not 0 exactly if the
run is empty or the image that its last exec loads is set-user-ID for another user. -/
theorem exec_keeps_credentials_iff (p : Process) : (∀ call p', ExecStep p call p' →
      ∃ image, Loads p call image ∧ (SameCredentials p p' ↔ AlreadyReset p image)) ∧
    ∀ calls p', Runs.Run ExecStep p calls p' →
      p.cred.user.real ≠ 0 ∧ p.cred.user.effective ≠ 0 ∧ p.cred.user.saved ≠ 0 →
      (p'.cred.user.effective ≠ 0 ↔ calls = [] ∨ ∃ before call q image,
        calls = before ++ [call] ∧ Runs.Run ExecStep p before q ∧ Loads q call image ∧
          imageUser image ≠ 0) := by
  constructor
  · intro call p' step
    obtain ⟨image, loads, reset⟩ := exec_resets step
    exact ⟨image, loads, reset.same_iff⟩
  · rintro calls p' run ⟨-, nonzero, -⟩
    obtain ⟨rfl, rfl⟩ | ⟨before, call, q, rfl, earlier, last⟩ := run.last
    · exact ⟨fun _ => .inl rfl, fun _ => nonzero⟩
    · obtain ⟨image, loads, reset⟩ := exec_resets last
      rw [reset.user]
      constructor
      · exact fun other => .inr ⟨before, call, q, image, rfl, earlier, loads, other⟩
      · rintro (none | ⟨before', call', q', image', same, earlier', loads', other⟩)
        · exact absurd none (by simp)
        · obtain ⟨rfl, rfl⟩ := append_singleton_inj.1 same
          obtain rfl := earlier.unique execStep_unique earlier'
          rwa [loads.unique loads']

/-- An executable of one writable segment: the ELF header and a program header. -/
def sampleBytes : List UInt8 :=
  [0x7f, 0x45, 0x4c, 0x46, 1, 1, 1] ++ List.replicate 9 0 ++
    [2, 0, 3, 0, 1, 0, 0, 0, 0, 0, 0x40, 0, 52, 0, 0, 0] ++ List.replicate 8 0 ++
    [52, 0, 32, 0, 1, 0, 0, 0, 0, 0, 0, 0] ++
    [1, 0, 0, 0, 0, 0, 0, 0, 0, 0, 0x40, 0, 0, 0, 0, 0, 0, 0, 0, 0, 0, 0x10, 0, 0, 6, 0, 0, 0,
      0, 0x10, 0, 0]

def sampleImage : ExecFile where
  attrs := ⟨0o100755, 0, 0, 84, 0⟩
  ops len offset := .ok ((sampleBytes.drop offset.toNat).take len)

def sampleCall : ExecCall where
  env := {
    openFile := fun _ _ => .ok sampleImage
    rtldSetup := fun _ _ => none
    junk := fun _ => 0
    junkBreak := 0
    heapStart := KHEAP_DATA_VADDR
    heapEnd := KHEAP_DATA_VADDR + KHEAP_DATA_LEN
    depth := 4 }
  path := [0x61]
  argv := []
  envp := []

/-- A process without memory that has the given IDs. -/
def sampleProcess (c : Credentials) : Process where
  space := ⟨onePage 768 [4, 5], .place PROCESS_MMAP_LIMIT, fun _ => none, 0, List.replicate 5 true,
    fun _ => 1, 0, 0, 1⟩
  cred := c
  pgid := 0
  sid := 0
  umask := 0
  sigblocked := 0
  sigpending := 0
  sigactions _ := 0
  maxbreak := 0
  maxfds := 0
  pause := 0
  sig := 0
  term := 0
  waitstat := 0
  files := []
  fdflags := []
  fdRefs _ := 0
  pgcopied := false
  execData := ([], [])

theorem sampleCall_image {c : Credentials} {image : ExecFile}
    (h : Image sampleCall.env c sampleImage image)
    (readable : vfsReadLen c sampleImage.attrs 2 0 = .ok 2) : image = sampleImage := by
  have read : vfsRead c sampleImage 2 0 = .ok [0x7f, 0x45] := by
    unfold vfsRead
    rw [readable]
    rfl
  cases h with
  | binary => rfl
  | script first isScript =>
    rw [read] at first
    cases first
    exact absurd isScript (by decide)

theorem exec_keeps_credentials_iff_at : ∃ p',
    ExecStep (sampleProcess ⟨⟨0, 0, 0⟩, ⟨0, 0, 0⟩⟩) sampleCall p' ∧
      SameCredentials (sampleProcess ⟨⟨0, 0, 0⟩, ⟨0, 0, 0⟩⟩) p' := by
  have done : ((sysExecve sampleCall.env (sampleProcess ⟨⟨0, 0, 0⟩, ⟨0, 0, 0⟩⟩) sampleCall.path
      sampleCall.argv sampleCall.envp).map fun r => r.1.toOption) = some (some 0x400000) := by
    decide +kernel
  obtain ⟨⟨ret, p'⟩, eq, ok⟩ := Option.map_eq_some_iff.1 done
  cases ret with
  | error e => cases ok
  | ok entry =>
    have step : ExecStep (sampleProcess ⟨⟨0, 0, 0⟩, ⟨0, 0, 0⟩⟩) sampleCall p' :=
      ⟨sampleImage, entry, rfl, rfl, rfl, eq⟩
    obtain ⟨_, ⟨f, opened, -, -, leads⟩, iff⟩ := (exec_keeps_credentials_iff _).1 _ _ step
    cases opened
    cases sampleCall_image leads rfl
    exact ⟨p', step, iff.2 ⟨rfl, rfl, rfl, rfl, rfl, rfl⟩⟩

/-- A process of user 1000 that executes a plain file becomes one of user 0. -/
theorem exec_makes_root : ¬∀ p call p', ExecStep p call p' → SameCredentials p p' := by
  intro claim
  have done : ((sysExecve sampleCall.env (sampleProcess ⟨⟨1000, 1000, 1000⟩, ⟨100, 100, 100⟩⟩)
      sampleCall.path sampleCall.argv sampleCall.envp).map fun r =>
        (r.1.toOption, r.2.cred.user)) = some (some 0x400000, ⟨0, 0, 0⟩) := by
    decide +kernel
  obtain ⟨⟨ret, p'⟩, eq, ok⟩ := Option.map_eq_some_iff.1 done
  cases ret with
  | error e => cases ok
  | ok entry =>
    have step : ExecStep (sampleProcess ⟨⟨1000, 1000, 1000⟩, ⟨100, 100, 100⟩⟩) sampleCall p' :=
      ⟨sampleImage, entry, rfl, rfl, rfl, eq⟩
    have same := claim _ _ _ step
    have zero : p'.cred.user = ⟨0, 0, 0⟩ := (Prod.mk.inj ok).2
    rw [same.cred] at zero
    exact absurd zero (by decide)

end Os0
