import Os0.Errno
import Os0.Lib.Runs
import Mathlib.Data.Set.Insert

/-! The user and group IDs of a process and the system calls of `uapi/id.c`
that set them. `uid_t` and `gid_t` are 16 bits wide. -/
namespace Os0

/-- The real, effective and saved ID of one kind. -/
structure Ids where
  real : UInt16
  effective : UInt16
  saved : UInt16
  deriving DecidableEq, Repr

/-- The IDs of a process: `p_uid`, `p_euid`, `p_suid` and their group versions. -/
structure Credentials where
  user : Ids
  group : Ids
  deriving DecidableEq, Repr

/-- `(uid_t) -1` and `(gid_t) -1`, the argument that leaves an ID alone. -/
def keepId : UInt16 := 65535

namespace Ids

/-- Replace all three IDs by `id`; an unprivileged caller may only name its real ID. -/
def assign (privileged : Bool) (ids : Ids) (id : UInt16) : Except Errno Ids :=
  if !privileged && ids.real != id then .error .EPERM
  else .ok ⟨id, id, id⟩

def setEffective (ids : Ids) (effective : UInt16) : Ids :=
  if effective = keepId then ids
  else
    let saved := if ids.real ≠ effective then effective else ids.saved
    { ids with effective, saved }

def setReal (ids : Ids) (real : UInt16) : Ids :=
  if real = keepId then ids else { ids with real, saved := ids.effective }

/-- Set the real and the effective ID. The effective ID is assigned first, and
the saved ID follows from what has been assigned by then. -/
def assignRE (privileged : Bool) (ids : Ids) (real effective : UInt16) : Except Errno Ids :=
  if !privileged && real != keepId && real != ids.real && real != ids.effective then
    .error .EPERM
  else if !privileged && effective != keepId && effective != ids.real
      && effective != ids.effective && effective != ids.saved then
    .error .EPERM
  else .ok ((ids.setEffective effective).setReal real)

def holds (ids : Ids) (id : UInt16) : Bool :=
  id == ids.real || id == ids.effective || id == ids.saved

/-- Set each of the three IDs; an unprivileged caller may permute what it has. -/
def assignRES (privileged : Bool) (ids : Ids) (real effective saved : UInt16) :
    Except Errno Ids :=
  if !privileged && real != keepId && !ids.holds real then .error .EPERM
  else if !privileged && effective != keepId && !ids.holds effective then .error .EPERM
  else if !privileged && saved != keepId && !ids.holds saved then .error .EPERM
  else .ok {
    real := if real = keepId then ids.real else real
    effective := if effective = keepId then ids.effective else effective
    saved := if saved = keepId then ids.saved else saved }

/-- The set `{real, effective, saved}`. -/
def toSet (ids : Ids) : Set UInt16 := {ids.real, ids.effective, ids.saved}

variable {ids next : Ids} {id : UInt16}

variable {S : Set UInt16} {real effective : UInt16}

theorem mem_toSet (ids : Ids) (id : UInt16) :
    id ∈ ids.toSet ↔ id = ids.real ∨ id = ids.effective ∨ id = ids.saved := Iff.rfl

theorem holds_iff (ids : Ids) (id : UInt16) : ids.holds id = true ↔ id ∈ ids.toSet := by
  simp [holds, mem_toSet, or_assoc]

theorem toSet_subset (hr : ids.real ∈ S)
    (he : ids.effective ∈ S) (hs : ids.saved ∈ S) : ids.toSet ⊆ S := by
  rintro - (rfl | rfl | rfl)
  · exact hr
  · exact he
  · exact hs

theorem real_mem (ids : Ids) : ids.real ∈ ids.toSet := .inl rfl

theorem effective_mem (ids : Ids) : ids.effective ∈ ids.toSet := .inr (.inl rfl)

theorem saved_mem (ids : Ids) : ids.saved ∈ ids.toSet := .inr (.inr rfl)

theorem assign_subset (h : assign false ids id = .ok next) : next.toSet ⊆ ids.toSet := by
  unfold assign at h
  split at h
  · cases h
  · rename_i allowed
    have same : ids.real = id := by simpa using allowed
    cases h
    exact toSet_subset (same ▸ ids.real_mem) (same ▸ ids.real_mem) (same ▸ ids.real_mem)

theorem setEffective_subset (h : id = keepId ∨ id ∈ ids.toSet) :
    (ids.setEffective id).toSet ⊆ ids.toSet := by
  unfold setEffective
  split
  · exact subset_rfl
  · rename_i set
    have held := h.resolve_left set
    refine toSet_subset ids.real_mem held ?_
    split
    · exact held
    · exact ids.saved_mem

theorem setReal_subset (h : id = keepId ∨ id ∈ S)
    (held : ids.toSet ⊆ S) : (ids.setReal id).toSet ⊆ S := by
  unfold setReal
  split
  · exact held
  · rename_i set
    exact toSet_subset (h.resolve_left set) (held ids.effective_mem) (held ids.effective_mem)

theorem assignRE_subset
    (h : assignRE false ids real effective = .ok next) : next.toSet ⊆ ids.toSet := by
  unfold assignRE at h
  split at h
  · cases h
  · split at h
    · cases h
    · cases h
      have hr : real = keepId ∨ real ∈ ids.toSet := by
        rw [mem_toSet]; grind
      have he : effective = keepId ∨ effective ∈ ids.toSet := by
        rw [mem_toSet]; grind
      exact setReal_subset hr (setEffective_subset he)

theorem assignRES_subset {saved : UInt16}
    (h : assignRES false ids real effective saved = .ok next) : next.toSet ⊆ ids.toSet := by
  have chosen {old new : UInt16} (hold : old ∈ ids.toSet)
      (allowed : ¬(!false && new != keepId && !ids.holds new) = true) :
      (if new = keepId then old else new) ∈ ids.toSet := by
    split
    · exact hold
    · rename_i set
      rw [← holds_iff]
      simpa [set] using allowed
  unfold assignRES at h
  split at h
  · cases h
  · rename_i realAllowed
    split at h
    · cases h
    · rename_i effectiveAllowed
      split at h
      · cases h
      · rename_i savedAllowed
        cases h
        exact toSet_subset (chosen ids.real_mem realAllowed)
          (chosen ids.effective_mem effectiveAllowed) (chosen ids.saved_mem savedAllowed)

end Ids

namespace Credentials

def privileged (c : Credentials) : Bool := c.user.effective == 0

def setUser (c : Credentials) (user : Except Errno Ids) : Except Errno Credentials :=
  user.map fun user => { c with user }

def setGroup (c : Credentials) (group : Except Errno Ids) : Except Errno Credentials :=
  group.map fun group => { c with group }

end Credentials

def sysSetuid (c : Credentials) (uid : UInt16) : Except Errno Credentials :=
  c.setUser (c.user.assign c.privileged uid)

def sysSetgid (c : Credentials) (gid : UInt16) : Except Errno Credentials :=
  c.setGroup (c.group.assign c.privileged gid)

def sysSetreuid (c : Credentials) (ruid euid : UInt16) : Except Errno Credentials :=
  c.setUser (c.user.assignRE c.privileged ruid euid)

def sysSetregid (c : Credentials) (rgid egid : UInt16) : Except Errno Credentials :=
  c.setGroup (c.group.assignRE c.privileged rgid egid)

def sysSetresuid (c : Credentials) (ruid euid suid : UInt16) : Except Errno Credentials :=
  c.setUser (c.user.assignRES c.privileged ruid euid suid)

def sysSetresgid (c : Credentials) (rgid egid sgid : UInt16) : Except Errno Credentials :=
  c.setGroup (c.group.assignRES c.privileged rgid egid sgid)

inductive IdCall
  | setuid (uid : UInt16)
  | setgid (gid : UInt16)
  | setreuid (ruid euid : UInt16)
  | setregid (rgid egid : UInt16)
  | setresuid (ruid euid suid : UInt16)
  | setresgid (rgid egid sgid : UInt16)
  deriving DecidableEq, Repr

namespace IdCall

def exec (c : Credentials) : IdCall → Except Errno Credentials
  | setuid uid => sysSetuid c uid
  | setgid gid => sysSetgid c gid
  | setreuid ruid euid => sysSetreuid c ruid euid
  | setregid rgid egid => sysSetregid c rgid egid
  | setresuid ruid euid suid => sysSetresuid c ruid euid suid
  | setresgid rgid egid sgid => sysSetresgid c rgid egid sgid

def onGroup : IdCall → Bool
  | setgid _ | setregid _ _ | setresgid _ _ _ => true
  | setuid _ | setreuid _ _ | setresuid _ _ _ => false

/-- The credentials after the call. Every check precedes every assignment, so a
refused call leaves them as they were. -/
def step (c : Credentials) (call : IdCall) : Credentials :=
  match call.exec c with
  | .ok next => next
  | .error _ => c

variable {c : Credentials}

/-- What an unprivileged caller can do: no kind of ID gains a value, and group
calls leave the user IDs alone. -/
theorem exec_unprivileged {next : Credentials} {call : IdCall}
    (unprivileged : c.privileged = false) (h : call.exec c = .ok next) :
    (next.user.toSet ⊆ c.user.toSet ∧ next.group.toSet ⊆ c.group.toSet) ∧
      (call.onGroup = true → next.user = c.user) := by
  have user {r : Except Errno Ids} (hr : ∀ {ids}, r = .ok ids → ids.toSet ⊆ c.user.toSet)
      (h : c.setUser r = .ok next) :
      next.user.toSet ⊆ c.user.toSet ∧ next.group.toSet ⊆ c.group.toSet := by
    cases r with
    | error e => cases h
    | ok ids => cases h; exact ⟨hr rfl, subset_rfl⟩
  have group {r : Except Errno Ids} (hr : ∀ {ids}, r = .ok ids → ids.toSet ⊆ c.group.toSet)
      (h : c.setGroup r = .ok next) :
      (next.user.toSet ⊆ c.user.toSet ∧ next.group.toSet ⊆ c.group.toSet) ∧
        next.user = c.user := by
    cases r with
    | error e => cases h
    | ok ids => cases h; exact ⟨⟨subset_rfl, hr rfl⟩, rfl⟩
  cases call with
  | setuid =>
    simp only [exec, sysSetuid, unprivileged] at h
    exact ⟨user Ids.assign_subset h, nofun⟩
  | setreuid =>
    simp only [exec, sysSetreuid, unprivileged] at h
    exact ⟨user Ids.assignRE_subset h, nofun⟩
  | setresuid =>
    simp only [exec, sysSetresuid, unprivileged] at h
    exact ⟨user Ids.assignRES_subset h, nofun⟩
  | setgid =>
    simp only [exec, sysSetgid, unprivileged] at h
    exact (group Ids.assign_subset h).imp_right fun same _ => same
  | setregid =>
    simp only [exec, sysSetregid, unprivileged] at h
    exact (group Ids.assignRE_subset h).imp_right fun same _ => same
  | setresgid =>
    simp only [exec, sysSetresgid, unprivileged] at h
    exact (group Ids.assignRES_subset h).imp_right fun same _ => same

theorem step_unprivileged (call : IdCall) (unprivileged : c.privileged = false) :
    ((step c call).user.toSet ⊆ c.user.toSet ∧ (step c call).group.toSet ⊆ c.group.toSet) ∧
      (call.onGroup = true → (step c call).user = c.user) := by
  unfold step
  split
  · exact exec_unprivileged unprivileged ‹_›
  · exact ⟨⟨subset_rfl, subset_rfl⟩, fun _ => rfl⟩

end IdCall

variable (c : Credentials)

variable (calls : List IdCall)

theorem privileged_eq_false_iff : c.privileged = false ↔ c.user.effective ≠ 0 := by
  simp [Credentials.privileged]

/-- The credentials after a sequence of ID calls. -/
def idCalls (c : Credentials) (calls : List IdCall) : Credentials :=
  calls.foldl IdCall.step c

theorem idCalls_subset (nonzero : (0 : UInt16) ∉ c.user.toSet) :
    (0 : UInt16) ∉ (idCalls c calls).user.toSet ∧
      (idCalls c calls).user.toSet ⊆ c.user.toSet ∧
      (idCalls c calls).group.toSet ⊆ c.group.toSet := by
  have run := Runs.run_graph IdCall.step c calls
  refine run.related (I := fun d => (0 : UInt16) ∉ d.user.toSet)
    (R := fun d e => e.user.toSet ⊆ d.user.toSet ∧ e.group.toSet ⊆ d.group.toSet)
    (fun d => ⟨subset_rfl, subset_rfl⟩)
    (fun d e f h k => ⟨k.1.trans h.1, k.2.trans h.2⟩) ?_ nonzero
  rintro d call _ hd rfl
  have unprivileged : d.privileged = false :=
    (privileged_eq_false_iff d).2 fun zero => hd (zero ▸ d.user.effective_mem)
  obtain ⟨gained, -⟩ := IdCall.step_unprivileged call unprivileged
  exact ⟨fun zero => hd (gained.1 zero), gained⟩

theorem groupCalls_subset
    (unprivileged : c.user.effective ≠ 0) (group : ∀ call ∈ calls, call.onGroup = true) :
    (idCalls c calls).group.toSet ⊆ c.group.toSet := by
  induction calls generalizing c with
  | nil => exact subset_rfl
  | cons call calls ih =>
    obtain ⟨gained, same⟩ :=
      IdCall.step_unprivileged call ((privileged_eq_false_iff c).2 unprivileged)
    have user := same (group call (.head _))
    refine (ih (IdCall.step c call) (user ▸ unprivileged) fun k hk => ?_).trans gained.2
    exact group k (.tail _ hk)

/-- A process with no user ID 0 gains no user ID by any sequence of ID calls, and
one with a non-zero effective user ID gains no group ID by the group calls. -/
theorem id_calls_gain_nothing (c : Credentials) :
    (c.user.real ≠ 0 → c.user.effective ≠ 0 → c.user.saved ≠ 0 → ∀ calls : List IdCall,
      (idCalls c calls).user.toSet ⊆ c.user.toSet ∧
        (0 : UInt16) ∉ (idCalls c calls).user.toSet) ∧
    (c.user.effective ≠ 0 → ∀ calls : List IdCall, (∀ call ∈ calls, call.onGroup = true) →
      (idCalls c calls).group.toSet ⊆ c.group.toSet) := by
  refine ⟨fun hr he hs calls => ?_, fun he calls group => groupCalls_subset c calls he group⟩
  have nonzero : (0 : UInt16) ∉ c.user.toSet := by
    rintro (zero | zero | zero)
    · exact hr zero.symm
    · exact he zero.symm
    · exact hs zero.symm
  obtain ⟨zero, user, -⟩ := idCalls_subset c calls nonzero
  exact ⟨user, zero⟩

theorem id_calls_gain_nothing_at : (0 : UInt16) ∉ (idCalls ⟨⟨1000, 1001, 1002⟩, ⟨0, 5, 6⟩⟩
      [.setreuid keepId 1002, .setresuid 1001 keepId 1000, .setuid 0]).user.toSet ∧
    (idCalls ⟨⟨0, 1001, 0⟩, ⟨7, 5, 6⟩⟩ [.setresgid 6 7 5, .setregid 6 keepId]).group.toSet ⊆
      Ids.toSet ⟨7, 5, 6⟩ :=
  ⟨((id_calls_gain_nothing ⟨⟨1000, 1001, 1002⟩, ⟨0, 5, 6⟩⟩).1
      (by decide) (by decide) (by decide) _).2,
    (id_calls_gain_nothing ⟨⟨0, 1001, 0⟩, ⟨7, 5, 6⟩⟩).2 (by decide) _ (by decide)⟩

/-- ID calls lead to the superuser exactly where one of the user IDs is 0. -/
theorem superuser_reachable_iff (c : Credentials) :
    (∃ calls, (idCalls c calls).user.effective = 0) ↔ 0 ∈ c.user.toSet := by
  constructor
  · rintro ⟨calls, zero⟩
    by_contra nonzero
    exact (idCalls_subset c calls nonzero).1 (zero ▸ Ids.effective_mem _)
  · intro held
    rw [← Ids.holds_iff] at held
    refine ⟨[.setresuid keepId 0 keepId], ?_⟩
    simp [idCalls, IdCall.step, IdCall.exec, sysSetresuid, Credentials.setUser, Ids.assignRES,
      held, keepId, Except.map]

end Os0
