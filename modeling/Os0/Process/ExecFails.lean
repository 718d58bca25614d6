import Os0.Memory.Regions
import Os0.Process.ExecIds

/-! What a failed exec leaves of the process. `process_exec` clears the process before it has looked
at the image. -/
namespace Os0

open Option

/-- The memory, the credentials, the signals, the limits and the descriptors are the same in both. -/
structure ExecUnchanged (p p' : Process) : Prop where
  regions : p'.space.regions = p.space.regions ∧ p'.space.table = p.space.table
  pages : p'.space.mem.currDir = p.space.mem.currDir ∧ ∀ v,
    p'.space.mem.entryAt p.space.mem.currDir v = p.space.mem.entryAt p.space.mem.currDir v
  brk : p'.space.initBreak = p.space.initBreak ∧ p'.space.brk = p.space.brk
  cred : p'.cred = p.cred ∧ p'.pgid = p.pgid ∧ p'.sid = p.sid ∧ p'.umask = p.umask
  signals : p'.sigblocked = p.sigblocked ∧ p'.sigpending = p.sigpending ∧
    p'.sigactions = p.sigactions
  limits : p'.maxbreak = p.maxbreak ∧ p'.maxfds = p.maxfds
  descriptors : p'.files = p.files ∧ p'.fdflags = p.fdflags

theorem ExecUnchanged.refl (p : Process) : ExecUnchanged p p :=
  ⟨⟨rfl, rfl⟩, ⟨rfl, fun _ => rfl⟩, ⟨rfl, rfl⟩, ⟨rfl, rfl, rfl, rfl⟩, ⟨rfl, rfl, rfl⟩, ⟨rfl, rfl⟩,
    ⟨rfl, rfl⟩⟩

section Fail

variable {env : ExecEnv} {p p' : Process} {f : ExecFile} {argv envp : List (List UInt8)}
  {e : ExecError}

theorem execBinary_fails (accepted : taskSetupExec argv envp = none)
    (h : execBinary env p f argv envp = some (.error e, p')) : p'.space.regions = .place 0 := by
  unfold execBinary at h
  rw [accepted] at h
  obtain ⟨q, -, h⟩ := bind_eq_some_iff.1 h
  obtain ⟨⟨result, s⟩, -, h⟩ := bind_eq_some_iff.1 h
  cases result with
  | ok => cases h
  | error =>
    obtain ⟨_, destroyed, eq⟩ := map_eq_some_iff.1 h
    cases eq
    unfold AddrSpace.destroyRegions at destroyed
    split at destroyed <;> cases destroyed
    rfl

/-- Everything a failed `process_exec` can have done: nothing if no image was reached, and
otherwise the table is gone. -/
theorem processExec_fails {depth : Nat}
    (h : processExec env depth p f argv envp = some (.error e, p')) :
    (¬LeadsToImage env p.cred envp f argv ∧ p' = p) ∨
      (LeadsToImage env p.cred envp f argv ∧ p'.space.regions = .place 0) := by
  by_cases leads : LeadsToImage env p.cred envp f argv
  · obtain ⟨_, _, accepted, loaded⟩ := leads.loads h
    exact .inr ⟨leads, execBinary_fails accepted loaded⟩
  · obtain ⟨same, -⟩ | ⟨reached, -⟩ := processExec_cases h
    · exact .inl ⟨leads, same⟩
    · exact absurd reached leads

/-- A failed exec leaves a process with a region table alone if and only if it has not come to an
image. -/
theorem exec_failure_harmless_iff {depth : Nat} (table : p.space.regions.max = PROCESS_MMAP_LIMIT)
    (failed : processExec env depth p f argv envp = some (.error e, p')) :
    ExecUnchanged p p' ↔ ¬LeadsToImage env p.cred envp f argv := by
  rcases processExec_fails failed with ⟨notLeads, rfl⟩ | ⟨leads, gone⟩
  · exact iff_of_true (.refl _) notLeads
  · refine iff_of_false (fun same => ?_) (not_not_intro leads)
    rw [same.regions.1] at gone
    rw [gone] at table
    exact absurd table (by decide)

end Fail

/-- A file that only its owner may read. -/
def secretFile : ExecFile where
  attrs := ⟨0o100700, 0, 0, 0, 0⟩
  ops _ _ := .ok []

def plainUser : Credentials := ⟨⟨1000, 1000, 1000⟩, ⟨100, 100, 100⟩⟩

/-- A user's process that tries to execute it. -/
theorem exec_failure_harmless_iff_unreadable :
    processExec sampleCall.env 4 (sampleProcess plainUser) secretFile [] [] =
      some (.error (.errno Errno.EIO), sampleProcess plainUser) ∧
    ExecUnchanged (sampleProcess plainUser) (sampleProcess plainUser) := by
  have denied : vfsRead (sampleProcess plainUser).cred secretFile 2 0 = .error .EACCES := by
    decide +kernel
  have failed : processExec sampleCall.env 4 (sampleProcess plainUser) secretFile [] [] =
      some (.error (.errno Errno.EIO), sampleProcess plainUser) := by
    unfold processExec
    rw [denied]
  refine ⟨failed, (exec_failure_harmless_iff rfl failed).2 fun leads => ?_⟩
  cases leads with
  | binary read => cases denied.symm.trans read
  | script read => cases denied.symm.trans read

/-- A file of two letters. -/
def textImage : ExecFile where
  attrs := ⟨0o100755, 0, 0, 2, 0⟩
  ops len offset := .ok ((([0x68, 0x69] : List UInt8).drop offset.toNat).take len)

/-- A user's process that executes it is told that this is no executable, and has become the
super-user's. -/
theorem failed_exec_makes_root : (sampleProcess plainUser).space.regions.max = PROCESS_MMAP_LIMIT ∧
    ∃ p', processExec sampleCall.env 4 (sampleProcess plainUser) textImage [] [] =
        some (.error (.errno .ENOEXEC), p') ∧ ¬ExecUnchanged (sampleProcess plainUser) p' := by
  have done : (processExec sampleCall.env 4 (sampleProcess plainUser) textImage [] []).map
      (fun x => (x.1, x.2.cred.user)) = some (.error (.errno .ENOEXEC), ⟨0, 0, 0⟩) := by
    decide +kernel
  obtain ⟨⟨ret, p'⟩, call, eq⟩ := map_eq_some_iff.1 done
  simp only [Prod.mk.injEq] at eq
  obtain ⟨rfl, user⟩ := eq
  refine ⟨rfl, p', call, fun same => ?_⟩
  rw [same.cred.1] at user
  exact absurd user (by decide)

end Os0
