import Os0.Process.FileTable

/-! Which descriptor `sys_dup`, `F_DUPFD` and `sys_dup2` return, and what they leave of the others
(`kernel/fcntl.c`, `uapi/misc.c`). -/
namespace Os0

open Function List Option

inductive DupCall
  | dup (fd : Int)
  | dupfd (fd arg : Int)
  | dup2 (fd1 fd2 : Int)

namespace Files

variable {s t : Files} {p : Nat}

/-- The entry of a descriptor, if it is open. -/
def opened (s : Files) (p : Nat) (fd : Int) : Option Nat :=
  (descriptor fd).bind fun n => s.files (p, n)

/-- The descriptor `r` is the lowest from `n` on that was not open, it is not `fd`, and refers to
the open file of `fd`. -/
structure Duplicate (s t : Files) (p : Nat) (fd n r : Int) : Prop where
  low : n ≤ r
  free : s.opened p r = none
  lowest : ∀ m, n ≤ m → m < r → (s.opened p m).isSome = true
  other : r ≠ fd
  same : t.opened p r = s.opened p fd

/-- What a call should do. -/
def DupLaw (s : Files) (p : Nat) : DupCall → Prop
  | .dup fd => ∀ r t, s.sysDup p fd = (.ok r, t) → Duplicate s t p fd 0 r
  | .dupfd fd arg => ∀ r t, s.fcntl p fd .F_DUPFD arg = (.ok r, t) → Duplicate s t p fd arg r
  | .dup2 fd1 fd2 =>
    ((s.opened p fd1).isSome = true → (descriptor fd2).isSome = true →
      ∃ t, s.sysDup2 p fd1 fd2 = (.ok fd2, t) ∧ t.opened p fd2 = s.opened p fd1) ∧
    (s.opened p fd1 = none → ∃ e t, s.sysDup2 p fd1 fd2 = (.error e, t) ∧ t.files = s.files)

/-- The call does not name one open descriptor twice, and `sys_dup2` has nothing to close when it
has nothing to duplicate. -/
def Distinct (s : Files) (p : Nat) : DupCall → Prop
  | .dup fd => (s.opened p fd).isSome = true → fd ≠ 0
  | .dupfd fd arg => (s.opened p fd).isSome = true → fd ≠ arg
  | .dup2 fd1 fd2 => ((s.opened p fd1).isSome = true → fd1 ≠ fd2) ∧
      (s.opened p fd1 = none → s.opened p fd2 = none)

variable {fd arg : Int}

theorem descriptor_eq_some {n : Nat} :
    descriptor fd = some n ↔ fd = n ∧ n < PROCESS_FILE_LIMIT := by
  unfold descriptor
  grind

theorem dupfd_cases {r : Int} (call : s.fcntl p fd .F_DUPFD arg = (.ok r, t)) :
    (s.opened p fd).isSome = true ∧ ((fd = arg ∧ r = fd ∧ t = s) ∨
      (fd ≠ arg ∧ Duplicate s t p fd arg r)) := by
  rcases fcntl_cases call with ⟨_, ⟨⟩, -⟩ | ⟨n, e, index, points, rest⟩
  have source : s.opened p fd = some e := by simp [opened, index, points]
  obtain ⟨rfl, -⟩ := descriptor_eq_some.1 index
  refine ⟨by simp [source], ?_⟩
  rcases rest with ⟨rfl, -, same⟩ | ⟨⟨⟩, -⟩ | ⟨⟨⟩, -⟩ | ⟨-, a, m, bound, _, found, ⟨⟩, rfl⟩
  · obtain ⟨⟨⟩, target⟩ := same rfl
    exact .inl ⟨(descriptor_eq_some.1 target).1.symm, rfl, rfl⟩
  · obtain ⟨rfl, -⟩ := descriptor_eq_some.1 bound
    obtain ⟨free, mem, before⟩ := find?_range'_eq_some.1 found
    have range := mem_range'_1.1 mem
    have empty : s.files (p, m) = none := by simpa using free
    have inside : descriptor (m : Int) = some m := descriptor_eq_some.2 ⟨rfl, by omega⟩
    refine .inr ⟨by omega, ?_⟩
    constructor
    case low => omega
    case free => simp [opened, inside, empty]
    case lowest =>
      intro l above below
      have taken := before l.toNat (by omega) (by omega)
      have inside : descriptor l = some l.toNat := descriptor_eq_some.2 ⟨by omega, by omega⟩
      simpa [opened, inside, isSome_iff_ne_none] using taken
    case other =>
      rintro same
      rw [Int.ofNat_inj.1 same, points] at empty
      cases empty
    case same => simp [opened, inside, setFile, addRefcnt, setEntry, points, index]

theorem dupfd_same (source : (s.opened p fd).isSome = true) :
    s.fcntl p fd .F_DUPFD fd = (.ok fd, s) := by
  obtain ⟨e, source⟩ := isSome_iff_exists.1 source
  obtain ⟨n, index, points⟩ := bind_eq_some_iff.1 source
  obtain ⟨rfl, -⟩ := descriptor_eq_some.1 index
  simp [fcntl, index, points, fcntlDupfd]

theorem fcntl_closed {cmd : FcntlCmd} (closed : s.opened p fd = none) :
    s.fcntl p fd cmd arg = (.error .EBADF, s) := by
  unfold fcntl
  cases index : descriptor fd with
  | none => rfl
  | some n =>
    have empty : s.files (p, n) = none := by simpa [opened, index] using closed
    simp [empty]

theorem sysClose_files (s : Files) (p : Nat) (fd : Int) : (s.sysClose p fd).2.files =
    match descriptor fd with
    | none => s.files
    | some n => update s.files (p, n) none := by
  unfold sysClose
  cases index : descriptor fd with
  | none => rfl
  | some n => exact processFreeFd_files s p n

theorem sysClose_opened (s : Files) (p : Nat) (fd m : Int) :
    (s.sysClose p fd).2.opened p m = if m = fd then none else s.opened p m := by
  cases index : descriptor m with
  | none => simp [opened, index]
  | some n =>
    have name := descriptor_eq_some.1 index
    simp only [opened, index, bind_some, sysClose_files]
    cases target : descriptor fd with
    | none => grind
    | some b =>
      have := descriptor_eq_some.1 target
      grind

/-- With `fd2` closed the search of `fcntl_dupfd` ends where it starts. -/
theorem dupfd_free {fd1 fd2 : Int} (source : (s.opened p fd1).isSome = true)
    (free : s.opened p fd2 = none) (range : (descriptor fd2).isSome = true) :
    ∃ t, s.fcntl p fd1 .F_DUPFD fd2 = (.ok fd2, t) ∧ t.opened p fd2 = s.opened p fd1 := by
  obtain ⟨e, source⟩ := isSome_iff_exists.1 source
  obtain ⟨a, index, points⟩ := bind_eq_some_iff.1 source
  obtain ⟨b, target⟩ := isSome_iff_exists.1 range
  obtain ⟨rfl, -⟩ := descriptor_eq_some.1 index
  obtain ⟨rfl, inside⟩ := descriptor_eq_some.1 target
  have empty : s.files (p, b) = none := by simpa [opened, target] using free
  have other : a ≠ b := by
    rintro rfl
    rw [points] at empty
    cases empty
  simp [fcntl, index, points, fcntlDupfd, target, other, freeDescriptor_self empty inside, opened,
    setFile, addRefcnt, setEntry]

theorem dup2_law_iff {fd1 fd2 : Int} : DupLaw s p (.dup2 fd1 fd2) ↔ Distinct s p
    (.dup2 fd1 fd2) := by
  simp only [DupLaw, Distinct, sysDup2]
  cases source : s.opened p fd1 with
  | none =>
    have closed : (s.sysClose p fd2).2.opened p fd1 = none := by
      rw [sysClose_opened, source, ite_self]
    simp only [isSome_none, Bool.false_eq_true, false_implies, true_and, true_implies,
      fcntl_closed closed]
    constructor
    case mp =>
      rintro ⟨e, t, same, kept⟩
      cases same
      rw [sysClose_files] at kept
      cases target : descriptor fd2 with
      | none => simp [opened, target]
      | some b =>
        rw [target] at kept
        simpa [opened, target] using (congrFun kept (p, b)).symm
    case mpr =>
      intro free
      refine ⟨_, _, rfl, ?_⟩
      rw [sysClose_files]
      cases target : descriptor fd2 with
      | none => rfl
      | some b =>
        have empty : s.files (p, b) = none := by simpa [opened, target] using free
        exact update_eq_self_iff.2 empty.symm
  | some e =>
    simp only [isSome_some, true_implies, reduceCtorEq, false_implies, and_true]
    constructor
    case mp =>
      rintro law rfl
      obtain ⟨n, index, -⟩ := bind_eq_some_iff.1 source
      obtain ⟨t, call, -⟩ := law (by simp [index])
      rw [fcntl_closed (by rw [sysClose_opened, if_pos rfl])] at call
      cases call
    case mpr =>
      intro other range
      have kept : (s.sysClose p fd2).2.opened p fd1 = some e := by
        rw [sysClose_opened, if_neg other, source]
      have free : (s.sysClose p fd2).2.opened p fd2 = none := by rw [sysClose_opened, if_pos rfl]
      rw [← kept]
      exact dupfd_free (by simp [kept]) free range

theorem dupfd_law_iff : DupLaw s p (.dupfd fd arg) ↔ Distinct s p (.dupfd fd arg) := by
  constructor
  case mp =>
    rintro law source rfl
    exact (law fd s (dupfd_same source)).other rfl
  case mpr =>
    intro distinct r t call
    obtain ⟨source, ⟨same, -, -⟩ | ⟨-, duplicate⟩⟩ := dupfd_cases call
    · exact absurd same (distinct source)
    · exact duplicate

/-- Duplication does what it should exactly where the call does not name one open descriptor
twice and `sys_dup2` closes nothing in vain. -/
theorem duplication_iff (s : Files) (p : Nat) (call : DupCall) :
    s.DupLaw p call ↔ s.Distinct p call := by
  cases call with
  | dup fd => exact dupfd_law_iff
  | dupfd fd => exact dupfd_law_iff
  | dup2 => exact dup2_law_iff

/-- A process whose descriptor 0 alone is open. -/
def oneDescriptor : Files :=
  (boot.openFile 0 ⟨0, fileLimit_pos⟩ (.opened .fresh "/a" 0 0)).2

/-- `sys_dup(0)` returns 0, and `sys_dup2(1, 0)` fails but closes the descriptor 0. -/
theorem dup_of_zero : (oneDescriptor.opened 0 0).isSome = true ∧
    (oneDescriptor.sysDup 0 0).1 = .ok 0 ∧ ¬oneDescriptor.DupLaw 0 (.dup 0) ∧
    (oneDescriptor.sysDup2 0 1 0).1 = .error .EBADF ∧ ¬oneDescriptor.DupLaw 0 (.dup2 1 0) := by
  refine ⟨by decide, rfl, fun law => (law 0 oneDescriptor rfl).other rfl, rfl, fun law => ?_⟩
  obtain ⟨e, t, call, kept⟩ := law.2 (by decide)
  have closed : (oneDescriptor.sysDup2 0 1 0).2.files (0, 0) ≠ oneDescriptor.files (0, 0) := by
    decide
  rw [call] at closed
  exact closed (congrFun kept (0, 0))

end Files

end Os0
