import Os0.Process.Files

/-! Priorities and resource limits (`uapi/misc.c`). A higher priority value is a lower priority:
`PRIO_MAX` is below `PRIO_MIN`. -/
namespace Os0

open Runs Function Option

def PRIO_MAX : Int := -20
def PRIO_MIN : Int := 19
/-- `TASK_STACK_SIZE - SYSCALL_STACK_SIZE`. -/
def USER_STACK_SIZE : Int := 0x5000 - 0x1000
def RLIM_INFINITY : Int := -1
def LONG_MAX : Int := 0x7fffffff

/-- The value of an `int` or `long` that has this value modulo `2 ^ 32`. -/
def wrap32 (n : Int) : Int := (n + 0x80000000) % 0x100000000 - 0x80000000

/-- `struct rlimit`; `rlim_t` is signed. -/
structure Rlim where
  cur : Int
  max : Int
  deriving DecidableEq, Repr

inductive Resource
  | AS
  | CORE
  | CPU
  | DATA
  | FSIZE
  | MEMLOCK
  | NICE
  | NOFILE
  | NPROC
  | RSS
  | STACK
  | unknown
  deriving DecidableEq, Repr

inductive PrioWhich
  | PROCESS
  | PGRP
  | USER
  | unknown
  deriving DecidableEq, Repr

/-- One element of `process_table`. -/
structure LimitEntry where
  /-- Whether `p_task` is not null. -/
  task : Bool
  priority : Int
  uid : UInt16
  euid : UInt16
  pgid : Int
  maxbreak : Int
  maxfds : Int
  addrspace : Rlim
  coresize : Rlim
  cputime : Rlim
  filesize : Rlim
  memlock : Rlim

/-- The limits that are reported for a process. -/
def LimitEntry.limit (p : LimitEntry) : Resource → Option Rlim
  | .AS => some p.addrspace
  | .CORE => some p.coresize
  | .CPU => some p.cputime
  | .DATA => some ⟨p.maxbreak, PROCESS_BREAK_LIMIT⟩
  | .FSIZE => some p.filesize
  | .MEMLOCK => some p.memlock
  | .NICE => some ⟨PRIO_MIN + 1 - p.priority, PRIO_MIN + 1 - PRIO_MAX⟩
  | .NOFILE => some ⟨p.maxfds, PROCESS_FILE_LIMIT⟩
  | .NPROC => some ⟨RLIM_INFINITY, PROCESS_LIMIT⟩
  | .RSS => some ⟨RLIM_INFINITY, LONG_MAX⟩
  | .STACK => some ⟨USER_STACK_SIZE, USER_STACK_SIZE⟩
  | .unknown => none

structure Limits where
  table : Nat → LimitEntry
  current : Nat
  /-- What is read as `p_task->t_priority` at an index without a process: a fault for a null
  pointer, and anything outside of the table. -/
  outside : Int → Option Int

namespace Limits

variable (s : Limits)

def proc : LimitEntry := s.table s.current

def set (i : Nat) (e : LimitEntry) : Limits := { s with table := Function.update s.table i e }

def processValid (pid : Int) : Bool :=
  decide (0 ≤ pid) && decide (pid < PROCESS_LIMIT) && (s.table pid.toNat).task

/-- `process_table[pid].p_task->t_priority`. -/
def priorityAt (pid : Int) : Option Int :=
  if s.processValid pid then some (s.table pid.toNat).priority else s.outside pid

/-- Between `PRIO_MAX` and `PRIO_MIN`. -/
def clamp (prio : Int) : Int :=
  let prio := if PRIO_MIN < prio then PRIO_MIN else prio
  if prio < PRIO_MAX then PRIO_MAX else prio

def sysNice (inc : Int) : Except Errno Int × Limits :=
  let prio := wrap32 (s.proc.priority + inc)
  if s.proc.euid ≠ 0 ∧ inc < 0 then (.error .EPERM, s)
  else (.ok (clamp prio), s.set s.current { s.proc with priority := clamp prio })

/-- The loops of `sys_setpriority`. -/
def setAll (member : LimitEntry → Bool) (prio : Int) : Limits :=
  { s with table := fun i =>
      let e := s.table i
      if i < PROCESS_LIMIT ∧ e.task ∧ member e then { e with priority := prio } else e }

/-- The effective user ID is one of the caller's two. -/
def related (e : LimitEntry) : Bool := e.euid == s.proc.uid || e.euid == s.proc.euid

/-- The process at this index may have its priority set, as far as a caller that is not the
superuser is concerned. -/
def mayPrioritise (pid prio : Int) : Bool :=
  s.proc.euid == 0 || (decide ((s.table pid.toNat).priority ≤ prio) && s.related (s.table pid.toNat))

/-- `(pid_t) who`. -/
def toPid (who : UInt16) : Int := if who.toNat < 0x8000 then who.toNat else who.toNat - 0x10000

/-- The process and the user that `who` stands for, where 0 is the caller's. -/
def target (who : UInt16) : Int := if who ≠ 0 then toPid who else s.current

def user (who : UInt16) : UInt16 := if who ≠ 0 then who else s.proc.uid

/-- `sys_setpriority`. `none`: a null pointer has been followed. -/
def sysSetpriority (which : PrioWhich) (who : UInt16) (prio : Int) :
    Option (Except Errno Unit × Limits) :=
  let pid := s.target who
  let uid := s.user who
  let prio := clamp prio
  match which with
  | .PROCESS =>
    if !s.processValid pid then some (.error .ESRCH, s)
    else if !s.mayPrioritise pid prio then some (.error .EPERM, s)
    else some (.ok (), s.set pid.toNat { s.table pid.toNat with priority := prio })
  | .PGRP =>
    if !s.processValid pid then some (.error .ESRCH, s)
    else if !s.mayPrioritise pid prio then some (.error .EPERM, s)
    else some (.ok (), s.setAll (fun e => e.pgid == pid) prio)
  | .USER =>
    -- the user is taken for a process here
    if s.proc.euid = 0 then some (.ok (), s.setAll (fun e => e.uid == uid) prio)
    else (s.priorityAt pid).map fun old =>
      if prio < old then (.error .EPERM, s)
      else if s.proc.uid ≠ uid ∧ s.proc.euid ≠ uid then (.error .EPERM, s)
      else (.ok (), s.setAll (fun e => e.uid == uid) prio)
  | .unknown => some (.error .EINVAL, s)

/-- Store a pair unless its hard limit is above the one of `old`. -/
def lower (old new : Rlim) (stored : LimitEntry) : Option (Except Errno Unit × Limits) :=
  some (if old.max < new.max then (.error .EPERM, s) else (.ok (), s.set s.current stored))

/-- Store something unless the hard limit is above a constant. -/
def below (bound : Int) (new : Rlim) (stored : LimitEntry) : Option (Except Errno Unit × Limits) :=
  s.lower ⟨bound, bound⟩ new stored

/-- The `switch` of `sys_setrlimit`. -/
def storeLimit (resource : Resource) (new : Rlim) : Option (Except Errno Unit × Limits) :=
  let p := s.proc
  match resource with
  | .AS => s.lower p.addrspace new { p with addrspace := new }
  | .CORE => s.lower p.coresize new { p with coresize := new }
  | .CPU => s.lower p.cputime new { p with cputime := new }
  | .DATA => s.below PROCESS_BREAK_LIMIT new { p with maxbreak := new.cur }
  | .FSIZE => s.lower p.filesize new { p with filesize := new }
  -- the check is about the one pair and the assignment to another
  | .MEMLOCK => s.lower p.memlock new { p with filesize := new }
  | .NICE => s.sysSetpriority .PROCESS 0 (wrap32 (PRIO_MIN + 1 - new.cur))
  | .NOFILE => s.below PROCESS_FILE_LIMIT new { p with maxfds := new.cur }
  | .NPROC => s.below PROCESS_LIMIT new p
  | .RSS => some (.ok (), s)
  | .STACK => s.below USER_STACK_SIZE new p
  | .unknown => some (.error .EINVAL, s)

def sysSetrlimit (resource : Resource) (new : Rlim) : Option (Except Errno Unit × Limits) :=
  if new.max < new.cur then some (.error .EINVAL, s) else s.storeLimit resource new

/-- `sys_getrlimit`; `none` is `-EINVAL`. -/
def sysGetrlimit (resource : Resource) : Option Rlim := s.proc.limit resource

end Limits

/-- The value of an `int` or `long`. -/
def Fits32 (n : Int) : Prop := -0x80000000 ≤ n ∧ n < 0x80000000

instance (n : Int) : Decidable (Fits32 n) := inferInstanceAs (Decidable (_ ∧ _))

/-- The calls that set priorities. -/
inductive PrioCall
  | nice (inc : Int)
  | setpriority (which : PrioWhich) (who : UInt16) (prio : Int)
  | setrlimitNice (new : Rlim)

namespace Limits

def prioStep (s : Limits) : PrioCall → Option Limits
  | .nice inc => if Fits32 inc then some (s.sysNice inc).2 else none
  | .setpriority which who prio => (s.sysSetpriority which who prio).map (·.2)
  | .setrlimitNice new => (s.sysSetrlimit .NICE new).map (·.2)

/-- No priority value has gone down, and none has changed of a process that is not the caller's. -/
def Protects (s : Limits) (_ : PrioCall) (t : Limits) : Prop :=
  ∀ i < PROCESS_LIMIT, (s.table i).task = true → (s.table i).priority ≤ (t.table i).priority ∧
    (s.related (s.table i) = false → (t.table i).priority = (s.table i).priority)

/-- All members have a priority value up to `prio`, and those that are not the caller's have it
already. -/
def Modest (s : Limits) (member : LimitEntry → Bool) (prio : Int) : Prop :=
  ∀ i < PROCESS_LIMIT, (s.table i).task = true → member (s.table i) = true →
    (s.table i).priority ≤ prio ∧ (s.related (s.table i) = false → (s.table i).priority = prio)

/-- The increment does not overflow, and a group or a user that the caller may set the priority of
has no process whose priority it may not set. -/
def Allowed (s : Limits) (c : PrioCall) (_ : Limits) : Prop :=
  match c with
  | .nice inc => inc < 0 ∨ s.proc.priority + inc < 0x80000000
  | .setpriority .PGRP who prio =>
    s.processValid (s.target who) = true → s.mayPrioritise (s.target who) (clamp prio) = true →
      s.Modest (fun e => e.pgid == s.target who) (clamp prio)
  | .setpriority .USER who prio =>
    (∃ old, s.priorityAt (s.target who) = some old ∧ old ≤ clamp prio) →
      s.proc.uid = s.user who ∨ s.proc.euid = s.user who →
      s.Modest (fun e => e.uid == s.user who) (clamp prio)
  | _ => True

/-- What a process that is not the superuser finds, and keeps. -/
structure Unprivileged (s : Limits) : Prop where
  euid : s.proc.euid ≠ 0
  small : s.current < PROCESS_LIMIT
  live : s.proc.task = true
  range : ∀ i, PRIO_MAX ≤ (s.table i).priority ∧ (s.table i).priority ≤ PRIO_MIN

variable {s t : Limits}

variable {which : PrioWhich} {new : Rlim} {p : LimitEntry}

variable {old : Rlim} {ret : Except Errno Unit}

theorem clamp_range (prio : Int) : PRIO_MAX ≤ clamp prio ∧ clamp prio ≤ PRIO_MIN := by
  simp only [clamp, PRIO_MAX, PRIO_MIN]
  grind

variable {r : Except Errno Unit} {prio : Int} {who : UInt16} {c : Resource × Rlim}

theorem clamp_of_range (low : PRIO_MAX ≤ prio) (high : prio ≤ PRIO_MIN) : clamp prio = prio := by
  simp only [clamp, PRIO_MAX, PRIO_MIN] at *
  grind

theorem protects_self (c : PrioCall) : Protects s c s := fun _ _ _ => ⟨le_rfl, fun _ => rfl⟩

theorem protects_setAll_iff (c : PrioCall) (member : LimitEntry → Bool) (prio : Int) :
    Protects s c (s.setAll member prio) ↔ s.Modest member prio := by
  simp only [Protects, Modest, setAll]
  grind

/-- Setting the priority of one process concerns this process only. -/
theorem protects_set_iff (c : PrioCall) {i : Nat} (small : i < PROCESS_LIMIT)
    (live : (s.table i).task = true) (own : s.related (s.table i) = true) :
    Protects s c (s.set i { s.table i with priority := prio }) ↔ (s.table i).priority ≤ prio := by
  simp only [Protects, set, update_apply]
  grind

theorem sysSetpriority_cases
    (call : s.sysSetpriority which who prio = some (r, t)) :
    (∃ e, r = .error e ∧ t = s) ∨ r = .ok () ∧
    ((which = .PROCESS ∧ s.processValid (s.target who) = true ∧
      s.mayPrioritise (s.target who) (clamp prio) = true ∧
      t = s.set (s.target who).toNat { s.table (s.target who).toNat with priority := clamp prio }) ∨
    (which = .PGRP ∧ s.processValid (s.target who) = true ∧
      s.mayPrioritise (s.target who) (clamp prio) = true ∧
      t = s.setAll (fun e => e.pgid == s.target who) (clamp prio)) ∨
    (which = .USER ∧ t = s.setAll (fun e => e.uid == s.user who) (clamp prio) ∧
      (s.proc.euid ≠ 0 → (∃ old, s.priorityAt (s.target who) = some old ∧ old ≤ clamp prio) ∧
        (s.proc.uid = s.user who ∨ s.proc.euid = s.user who)))) := by
  unfold sysSetpriority at call
  cases which with
  | PROCESS => grind
  | PGRP => grind
  | USER =>
    by_cases superuser : s.proc.euid = 0
    · simp_all
    · simp only [superuser, if_false] at call
      obtain ⟨old, _, call⟩ := map_eq_some_iff.1 call
      grind
  | unknown => grind

theorem target_toNat (valid : s.processValid (s.target who) = true) :
    (s.target who).toNat < PROCESS_LIMIT ∧ (s.table (s.target who).toNat).task = true := by
  simp only [processValid, Bool.and_eq_true, decide_eq_true_eq] at valid
  exact ⟨by omega, valid.2⟩

/-- The calls of `sys_setpriority` that are made by a process that is not the superuser. -/
theorem setpriority_protects_iff (caller : s.proc.euid ≠ 0) (c : PrioCall)
    (call : s.sysSetpriority which who prio = some (r, t)) :
    Protects s c t ↔ Allowed s (.setpriority which who prio) t := by
  rcases sysSetpriority_cases call with ⟨e, rfl, rfl⟩ | ⟨rfl, ⟨rfl, valid, may, rfl⟩ |
    ⟨rfl, valid, may, rfl⟩ | ⟨rfl, rfl, may⟩⟩
  · refine iff_of_true (protects_self c) ?_
    -- what would be too much is not refused
    cases which with
    | PGRP =>
      intro valid may
      simp [sysSetpriority, valid, may] at call
    | USER =>
      rintro ⟨_, read, _⟩ _
      simp [sysSetpriority, caller, read] at call
      grind
    | PROCESS | unknown => trivial
  · obtain ⟨small, live⟩ := target_toNat valid
    simp only [mayPrioritise, Bool.or_eq_true, beq_iff_eq, caller, false_or, Bool.and_eq_true,
      decide_eq_true_eq] at may
    exact iff_of_true ((protects_set_iff c small live may.2).2 may.1) trivial
  · rw [protects_setAll_iff]
    exact ⟨fun modest _ _ => modest, fun allowed => allowed valid may⟩
  · rw [protects_setAll_iff]
    exact ⟨fun modest _ _ => modest, fun allowed => allowed (may caller).1 (may caller).2⟩

/-- A call either protects the others or is one that is not allowed. -/
theorem protects_iff_allowed {c : PrioCall} (caller : s.Unprivileged)
    (step : s.prioStep c = some t) : Protects s c t ↔ Allowed s c t := by
  have self : s.related s.proc = true := by simp [related]
  cases c with
  | nice =>
    have range := caller.range s.current
    simp only [prioStep, sysNice, caller.euid, ne_eq, not_false_eq_true, true_and] at step
    split at step
    case isFalse => cases step
    case isTrue _ =>
      split at step
      case isTrue lower =>
        cases step
        exact iff_of_true (protects_self _) (.inl lower)
      case isFalse _ =>
        cases step
        rw [proc, protects_set_iff _ caller.small caller.live self]
        simp only [Allowed, proc, Fits32, clamp, wrap32, PRIO_MAX, PRIO_MIN] at *
        grind
  | setpriority =>
    obtain ⟨⟨r, t⟩, call, rfl⟩ := map_eq_some_iff.1 step
    exact setpriority_protects_iff caller.euid _ call
  | setrlimitNice =>
    obtain ⟨⟨r, t⟩, call, rfl⟩ := map_eq_some_iff.1 step
    simp only [sysSetrlimit] at call
    split at call
    case isTrue => 
      cases call
      exact iff_of_true (protects_self _) trivial
    case isFalse =>
      simp only [storeLimit] at call
      exact setpriority_protects_iff caller.euid _ call

/-- A call changes nothing but priorities, and leaves them in their range. -/
structure Reprioritised (s t : Limits) : Prop where
  current : t.current = s.current
  entries : ∀ i, ∃ prio, t.table i = { s.table i with priority := prio } ∧
    (prio = (s.table i).priority ∨ PRIO_MAX ≤ prio ∧ prio ≤ PRIO_MIN)

theorem Reprioritised.refl (s : Limits) : Reprioritised s s := ⟨rfl, fun _ => ⟨_, rfl, .inl rfl⟩⟩

theorem set_reprioritised (i : Nat) (prio : Int) :
    Reprioritised s (s.set i { s.table i with priority := clamp prio }) := by
  refine ⟨rfl, fun j => ?_⟩
  by_cases same : j = i
  · subst same
    exact ⟨_, update_self .., .inr (clamp_range prio)⟩
  · exact ⟨_, update_of_ne same .., .inl rfl⟩

theorem setAll_reprioritised (member : LimitEntry → Bool) (prio : Int) :
    Reprioritised s (s.setAll member (clamp prio)) := by
  refine ⟨rfl, fun j => ?_⟩
  simp only [setAll]
  split
  · exact ⟨_, rfl, .inr (clamp_range prio)⟩
  · exact ⟨_, rfl, .inl rfl⟩

theorem sysSetpriority_reprioritised
    (call : s.sysSetpriority which who prio = some (r, t)) : Reprioritised s t := by
  rcases sysSetpriority_cases call with ⟨e, -, rfl⟩ | ⟨-, ⟨-, -, -, rfl⟩ | ⟨-, -, -, rfl⟩ |
    ⟨-, rfl, -⟩⟩
  · exact .refl _
  · exact set_reprioritised _ _
  · exact setAll_reprioritised _ _
  · exact setAll_reprioritised _ _

theorem prioStep_reprioritised {c : PrioCall} (step : s.prioStep c = some t) :
    Reprioritised s t := by
  cases c with
  | nice =>
    simp only [prioStep, sysNice] at step
    split at step
    · cases step
      split
      · exact .refl s
      · exact set_reprioritised s.current _
    · cases step
  | setpriority =>
    obtain ⟨⟨r, t⟩, call, rfl⟩ := map_eq_some_iff.1 step
    exact sysSetpriority_reprioritised call
  | setrlimitNice =>
    obtain ⟨⟨r, t⟩, call, rfl⟩ := map_eq_some_iff.1 step
    simp only [sysSetrlimit] at call
    split at call
    · cases call
      exact .refl s
    · simp only [storeLimit] at call
      exact sysSetpriority_reprioritised call

theorem unprivileged_kept {c : PrioCall} (caller : s.Unprivileged)
    (step : s.prioStep c = some t) : t.Unprivileged := by
  obtain ⟨current, entries⟩ := prioStep_reprioritised step
  obtain ⟨prio, own, -⟩ := entries s.current
  have proc : t.proc = { s.proc with priority := prio } := by rw [Limits.proc, current, own]; rfl
  constructor
  case euid => exact proc ▸ caller.euid
  case small => exact current ▸ caller.small
  case live => exact proc ▸ caller.live
  case range =>
    intro i
    obtain ⟨prio, eq, rfl | range⟩ := entries i
    · exact eq ▸ caller.range i
    · exact eq ▸ range

/-- Over every sequence of calls by a process that is not the superuser: no priority value goes down
and none changes of a process of somebody else, if and only if every call is allowed. -/
theorem priorities_protected_iff (caller : s.Unprivileged) (calls : List PrioCall) :
    Each prioStep Protects s calls ↔ Each prioStep Allowed s calls :=
  each_iff (fun _ _ _ => protects_iff_allowed) (fun _ _ _ caller step _ => unprivileged_kept caller step) caller

/-! ### Resource limits -/

/-- The resources for which `sys_setrlimit` stores something. -/
def settable : Resource → Bool
  | .NPROC | .RSS | .STACK | .unknown => false
  | _ => true

def limitStep (s : Limits) (c : Resource × Rlim) : Option Limits :=
  if Fits32 c.2.cur ∧ Fits32 c.2.max then (s.sysSetrlimit c.1 c.2).map (·.2) else none

/-- No hard limit has gone up, a limit that has been set is what was asked for, and the others are
what they were. -/
structure LimitLaw (s : Limits) (c : Resource × Rlim) (t : Limits) : Prop where
  hard : ∀ q old new, s.sysGetrlimit q = some old → t.sysGetrlimit q = some new →
    new.max ≤ old.max
  stored : (s.sysSetrlimit c.1 c.2).map (·.1) = some (.ok ()) → settable c.1 = true →
    t.sysGetrlimit c.1 = some c.2
  others : ∀ q, q ≠ c.1 → t.sysGetrlimit q = s.sysGetrlimit q

/-- The pair is refused, or the resource keeps all of it. -/
def Storable (s : Limits) (c : Resource × Rlim) (_ : Limits) : Prop :=
  c.2.max < c.2.cur ∨
  match c.1 with
  | .DATA => PROCESS_BREAK_LIMIT ≤ c.2.max
  | .NOFILE => PROCESS_FILE_LIMIT ≤ c.2.max
  | .MEMLOCK => s.proc.memlock.max < c.2.max ∨ s.proc.memlock = c.2 ∧ s.proc.filesize = c.2
  | .NICE => s.mayPrioritise s.current (clamp (wrap32 (PRIO_MIN + 1 - c.2.cur))) = false ∨
      1 ≤ c.2.cur ∧ c.2.max = PRIO_MIN + 1 - PRIO_MAX
  | _ => True

/-- The caller is a process. -/
structure Running (s : Limits) : Prop where
  small : s.current < PROCESS_LIMIT
  live : s.proc.task = true

@[simp] theorem set_proc (e : LimitEntry) : (s.set s.current e).proc = e :=
  update_self ..

theorem law_refused {e : Errno} (call : s.sysSetrlimit c.1 c.2 = some (.error e, s)) :
    LimitLaw s c s where
  hard q old new before after := by
    cases before.symm.trans after
    exact le_rfl
  stored ok := by simp [call] at ok
  others _ _ := rfl

/-- The law for a call that has replaced the entry of the caller. -/
theorem law_stored_iff {r : Resource}
    (call : s.sysSetrlimit r new = some (.ok (), s.set s.current p)) :
    LimitLaw s (r, new) (s.set s.current p) ↔
      (∀ a b, s.proc.limit r = some a → p.limit r = some b → b.max ≤ a.max) ∧
      (settable r = true → p.limit r = some new) ∧ ∀ q, q ≠ r → p.limit q = s.proc.limit q := by
  constructor
  case mp =>
    intro law
    have hard := law.hard r
    have stored := law.stored (by simp [call])
    have others := law.others
    simp only [sysGetrlimit, set_proc] at hard stored others
    exact ⟨hard, stored, others⟩
  case mpr =>
    rintro ⟨hard, stored, others⟩
    constructor <;> simp only [sysGetrlimit, set_proc]
    case hard =>
      intro q a b before after
      by_cases same : q = r
      · subst same
        exact hard a b before after
      · rw [others q same] at after
        cases before.symm.trans after
        exact le_rfl
    case stored => exact fun _ => stored
    case others => exact others

/-- The law for a call that has stored `p` unless the hard limit of `old` was too low. -/
theorem law_lower_iff {r : Resource}
    (eq : s.sysSetrlimit r new = s.lower old new p) (call : s.sysSetrlimit r new = some (ret, t)) :
    LimitLaw s (r, new) t ↔ old.max < new.max ∨ new.max ≤ old.max ∧
      (∀ a b, s.proc.limit r = some a → p.limit r = some b → b.max ≤ a.max) ∧
      (settable r = true → p.limit r = some new) ∧ ∀ q, q ≠ r → p.limit q = s.proc.limit q := by
  by_cases above : old.max < new.max
  · simp only [lower, above, if_true] at eq
    cases eq.symm.trans call
    exact iff_of_true (law_refused eq) (.inl above)
  · simp only [lower, above, if_false] at eq
    cases eq.symm.trans call
    rw [law_stored_iff eq]
    simp only [above, not_lt.1 above, true_and, false_or]

theorem law_iff_storable (caller : s.Running) (step : s.limitStep c = some t) :
    LimitLaw s c t ↔ Storable s c t := by
  obtain ⟨r, new⟩ := c
  simp only [limitStep] at step
  split at step
  case isFalse => cases step
  case isTrue _ =>
  obtain ⟨⟨_, t⟩, call, rfl⟩ := map_eq_some_iff.1 step
  by_cases order : new.max < new.cur
  · have refused : s.sysSetrlimit r new = some (.error .EINVAL, s) := by simp [sysSetrlimit, order]
    cases refused.symm.trans call
    exact iff_of_true (law_refused refused) (.inl order)
  have eq : s.sysSetrlimit r new = s.storeLimit r new := if_neg order
  simp only [Storable, order, false_or]
  cases r with
  | AS | CORE | CPU | FSIZE =>
    rw [law_lower_iff eq call]
    refine iff_of_true ((lt_or_ge _ _).imp_right fun room => ⟨room, ?_, fun _ => rfl, ?_⟩) trivial
    · rintro a b ⟨⟩ ⟨⟩
      exact room
    · intro q other
      cases q <;> trivial
  | NPROC | STACK =>
    rw [law_lower_iff eq call]
    refine iff_of_true ((lt_or_ge _ _).imp_right fun room => ⟨room, ?_, nofun, fun _ _ => rfl⟩) trivial
    rintro a b ⟨⟩ ⟨⟩
    exact le_rfl
  | DATA | NOFILE =>
    rw [law_lower_iff eq call]
    constructor
    case mp =>
      rintro (above | ⟨-, -, stored, -⟩)
      · exact above.le
      · exact le_of_eq (congrArg Rlim.max (some.inj (stored rfl)))
    case mpr =>
      refine fun enough => (lt_or_eq_of_le enough).imp_right fun same => ⟨same.ge, ?_, ?_, ?_⟩
      · rintro a b ⟨⟩ ⟨⟩
        exact le_rfl
      · simp only [LimitEntry.limit, same, implies_true]
      · intro q other
        cases q <;> trivial
  | MEMLOCK =>
    rw [law_lower_iff eq call]
    constructor
    case mp =>
      rintro (above | ⟨-, -, stored, others⟩)
      · exact .inl above
      · exact .inr ⟨some.inj (stored rfl), (some.inj (others .FSIZE (by decide))).symm⟩
    case mpr =>
      refine Or.imp_right fun ⟨lock, size⟩ => ⟨le_of_eq (by rw [lock]), ?_, ?_, ?_⟩
      · rintro a b ⟨⟩ ⟨⟩
        exact le_rfl
      · exact fun _ => congrArg some lock
      · intro q other
        cases q <;> simp_all [LimitEntry.limit]
  | NICE =>
    have valid : s.processValid s.current = true := by
      simp [processValid, caller.small, show (s.table s.current).task = true from caller.live]
    simp only [storeLimit, sysSetpriority, target, ne_eq, not_true_eq_false, if_false, valid,
      Bool.not_true, Bool.false_eq_true, Int.toNat_natCast] at eq
    cases may : s.mayPrioritise s.current (clamp (wrap32 (PRIO_MIN + 1 - new.cur))) with
    | false =>
      simp only [may, Bool.not_false, if_true] at eq
      cases eq.symm.trans call
      exact iff_of_true (law_refused eq) (.inl rfl)
    | true =>
      simp only [may, Bool.not_true, Bool.false_eq_true, if_false] at eq
      cases eq.symm.trans call
      rw [law_stored_iff eq]
      simp only [Bool.true_eq_false, false_or]
      constructor
      case mp =>
        rintro ⟨-, stored, -⟩
        have same := some.inj (stored rfl)
        have cur := congrArg Rlim.cur same
        have range := clamp_range (wrap32 (PRIO_MIN + 1 - new.cur))
        simp only [PRIO_MAX, PRIO_MIN] at cur range
        exact ⟨by omega, (congrArg Rlim.max same).symm⟩
      case mpr =>
        rintro ⟨_, high⟩
        refine ⟨?_, fun _ => ?_, ?_⟩
        · rintro a b ⟨⟩ ⟨⟩
          exact le_rfl
        · have same : wrap32 (PRIO_MIN + 1 - new.cur) = PRIO_MIN + 1 - new.cur := by
            simp only [wrap32, PRIO_MAX, PRIO_MIN] at *
            omega
          rw [same, clamp_of_range (by omega) (by omega)]
          simp [LimitEntry.limit, ← high]
        · intro q other
          cases q <;> first | exact absurd rfl other | rfl
  | RSS | unknown =>
    cases eq.symm.trans call
    refine iff_of_true ⟨?_, ?_, fun _ _ => rfl⟩ trivial
    · intro q a b before after
      cases before.symm.trans after
      exact le_rfl
    · simp [settable]

theorem lower_running
    (caller : s.Running) (call : s.lower old new p = some (ret, t))
    (task : p.task = s.proc.task) : t.Running := by
  obtain ⟨-, rfl⟩ | ⟨-, rfl⟩ : ret = .error .EPERM ∧ s = t ∨ ret = .ok () ∧ s.set s.current p = t := by
    unfold lower at call
    grind
  · exact caller
  · exact ⟨caller.small, (congrArg LimitEntry.task (set_proc p)).trans (task.trans caller.live)⟩

theorem running_kept (caller : s.Running) (step : s.limitStep c = some t) : t.Running := by
  obtain ⟨r, _⟩ := c
  simp only [limitStep] at step
  split at step
  case isFalse => cases step
  obtain ⟨⟨_, t⟩, call, rfl⟩ := map_eq_some_iff.1 step
  simp only [sysSetrlimit] at call
  split at call
  · cases call
    exact caller
  · cases r with
    | NICE =>
      simp only [storeLimit] at call
      obtain ⟨current, entries⟩ := sysSetpriority_reprioritised call
      obtain ⟨_, own, -⟩ := entries s.current
      refine ⟨current ▸ caller.small, ?_⟩
      rw [proc, current, own]
      exact caller.live
    | RSS | unknown =>
      cases call
      exact caller
    | AS | CORE | CPU | DATA | FSIZE | MEMLOCK | NOFILE | NPROC | STACK =>
      exact lower_running caller call rfl

/-- Over every sequence of calls: no hard limit goes up, what a successful call sets is reported, and
the other limits stay, if and only if every call is refused or asks for what its resource keeps. -/
theorem limits_lawful_iff (caller : s.Running) (calls : List (Resource × Rlim)) :
    Each limitStep LimitLaw s calls ↔ Each limitStep Storable s calls :=
  each_iff (fun _ _ _ => law_iff_storable)
    (fun _ _ _ caller step _ => running_kept caller step) caller

/-- Three processes of the users 1, 1 and 2 with these priorities, the last two of one group. The
limits are those of `scheduler_init`. -/
def sample (first second third : Int) : Limits where
  table i :=
    { task := i < 4
      priority := if i = 1 then first else if i = 2 then second else if i = 3 then third else 19
      uid := if i = 0 then 0 else if i = 3 then 2 else 1
      euid := if i = 0 then 0 else if i = 3 then 2 else 1
      pgid := if i = 0 then 0 else if i = 1 then 1 else 2
      maxbreak := PROCESS_BREAK_LIMIT
      maxfds := PROCESS_FILE_LIMIT
      addrspace := ⟨RLIM_INFINITY, LONG_MAX⟩
      coresize := ⟨0, 0⟩
      cputime := ⟨RLIM_INFINITY, LONG_MAX⟩
      filesize := ⟨RLIM_INFINITY, LONG_MAX⟩
      memlock := ⟨RLIM_INFINITY, LONG_MAX⟩ }
  current := 1
  outside _ := none

theorem limits_lawful_iff_files :
    Each limitStep LimitLaw (sample 0 0 0) [(.NOFILE, ⟨16, 64⟩), (.FSIZE, ⟨100, 1000⟩)] := by
  refine (limits_lawful_iff ⟨by decide, by decide⟩ _).2 ?_
  rintro t -
  exact ⟨.inr (by decide), fun u _ => ⟨.inr trivial, trivial⟩⟩

/-- Locking memory limits the size of files. -/
theorem memlock_sets_filesize : ¬Each limitStep LimitLaw (sample 0 0 0) [(.MEMLOCK, ⟨0, 0⟩)] := by
  intro law
  have done : (limitStep (sample 0 0 0) (.MEMLOCK, ⟨0, 0⟩)).map (·.sysGetrlimit .FSIZE) =
      some (some ⟨0, 0⟩) := by decide
  obtain ⟨t, step, size⟩ := Option.map_eq_some_iff.1 done
  have same := (law t step).1.others .FSIZE (by decide)
  rw [size] at same
  exact absurd same (by decide)

theorem priorities_protected_iff_nice :
    Each prioStep Protects (sample 0 5 5) [.nice 3, .setpriority .PROCESS 2 7] := by
  refine (priorities_protected_iff ⟨by decide, by decide, by decide, fun i => ?_⟩ _).2 ?_
  · simp only [sample, PRIO_MAX, PRIO_MIN]
    grind
  · rintro t -
    exact ⟨.inr (by decide), fun u _ => ⟨trivial, trivial⟩⟩

/-- A process with priority 1 raises it to the highest by asking for the lowest; a process of
user 1 sets the priority of a process of user 2, which is in a group with its own. -/
theorem priority_taken : ¬Each prioStep Protects (sample 1 0 0) [.nice 0x7fffffff] ∧
    ¬Each prioStep Protects (sample 0 0 0) [.setpriority .PGRP 2 5] := by
  constructor
  · intro law
    have done : (prioStep (sample 1 0 0) (.nice 0x7fffffff)).map (fun t => (t.table 1).priority) =
        some PRIO_MAX := by decide
    obtain ⟨t, step, highest⟩ := Option.map_eq_some_iff.1 done
    have same := ((law t step).1 1 (by decide) (by decide)).1
    rw [highest] at same
    exact absurd same (by decide)
  · intro law
    have done : (prioStep (sample 0 0 0) (.setpriority .PGRP 2 5)).map
        (fun t => (t.table 3).priority) = some 5 := by decide
    obtain ⟨t, step, taken⟩ := Option.map_eq_some_iff.1 done
    have same := ((law t step).1 3 (by decide) (by decide)).2 (by decide)
    rw [taken] at same
    exact absurd same (by decide)

end Limits

end Os0
