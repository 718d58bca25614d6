import Os0.Process.Tree

/-! Exit statuses over whole runs. A process keeps its number from fork to its end, while
its entry in the table is used again, so the record of exits and waits is by number. -/
namespace Os0

open Bytes Runs ParentTree List Option Kernel

inductive Notice
  /-- A process, the one that forked it, and its status. -/
  | exited (id parent status : Nat)
  /-- A status that `wait4` gave to a process. -/
  | collected (id caller status : Nat)
  deriving DecidableEq, Repr

def Notice.collects (id : Nat) : Notice → Bool
  | .collected i _ _ => i == id
  | .exited _ _ _ => false

structure History where
  kernel : Kernel
  /-- The number of the process in each entry, and of the process that forked it. -/
  ids : Nat → Nat
  creators : Nat → Nat
  next : Nat
  log : List Notice

namespace History

def boot (tty : Terminal) : History := ⟨.boot tty, fun _ => 0, fun _ => 0, 1, []⟩

def step (h : History) (e : Event) : Option History :=
  (h.kernel.step e).map fun (kernel, reply) =>
    match e, reply with
    | .call (.exit code), _ =>
      { h with
        kernel
        log := .exited (h.ids h.kernel.current) (h.creators h.kernel.current)
          ((code % 256).toNat * 256) :: h.log }
    | .call (.fork _), .forked pid =>
      { h with
        kernel
        ids := fun p => if p = pid then h.next else h.ids p
        creators := fun p => if p = pid then h.ids h.kernel.current else h.creators p
        next := h.next + 1 }
    | .call (.wait4 _ _), .waited pid status | .run, .waited pid status =>
      { h with
        kernel
        log := .collected (h.ids pid) (h.ids h.kernel.current) status :: h.log }
    | _, _ => { h with kernel }

def isCollected (h : History) (id : Nat) : Bool := h.log.any (Notice.collects id)

/-- The caller is the parent of `exit_task` and has not had its status yet, or the call is
not about `exit_task`: a wait for any child by a process that is not above it, or a wait for
another process. -/
def waits (h : History) (arg : Int) : Bool :=
  let k := h.kernel
  k.exitTask == 0 ||
    (k.parent k.exitTask == some k.current && !h.isCollected (h.ids k.exitTask)) ||
    (if arg = -1 ∨ arg = 0 then
      k.current != 0 && !((k.ancestors k.exitTask).any fun pids => pids.contains k.current)
    else decide ((k.exitTask : Int) ≠ arg))

/-- Processes exit after their children and one at a time; the scheduler passes over an
exited process after its parent has waited; and who waits while a status is there is its
parent, once, or has nothing to do with it. -/
def orderly (h : History) : Event → Bool
  | .call (.exit _) => h.kernel.childless h.kernel.current && h.kernel.exitTask == 0
  | .call (.wait4 pid options) =>
    !hasFlag options WNOHANG || h.waits (if pid < -1 then Kernel.negPid pid else pid)
  | .run =>
    match h.kernel.kstack h.kernel.current with
    | .wait arg :: _ => h.waits arg
    | _ => true
  | .tick =>
    let passed := h.kernel.behind.takeWhile fun pid => (h.kernel.table pid).signals.term
    !passed.contains h.kernel.exitTask || h.isCollected (h.ids h.kernel.exitTask)
  | e => e.lifecycle

/-- Each status is collected once at most and by the process that forked the child, and
until then it stays where `wait4` finds it. -/
structure StatusesKept (h : History) : Prop where
  once : ∀ id, (h.log.filter (Notice.collects id)).length ≤ 1
  own : ∀ id caller status, .collected id caller status ∈ h.log →
    .exited id caller status ∈ h.log
  kept : ∀ id parent status, .exited id parent status ∈ h.log → h.isCollected id = false →
    h.kernel.exitTask ≠ 0 ∧ h.ids h.kernel.exitTask = id ∧
      (h.kernel.table h.kernel.exitTask).signals.term = true ∧
      (h.kernel.table h.kernel.exitTask).signals.waitstat = status

/-- `pid` is a terminated child of the caller, of its group if `arg` is 0. -/
structure EndedChild (k : Kernel) (arg : Int) (pid : Nat) : Prop where
  term : (k.table pid).signals.term = true
  child : k.parent pid = some k.current
  group : arg = 0 → (k.table pid).pgid = (k.table k.current).pgid

end History

namespace Kernel

variable {k : Kernel}

theorem childAbove_stranger (nonzero : k.current ≠ 0) {fuel temp found : Nat} {pids : List Nat}
    (chain : Chain k.parent 0 temp pids) (stranger : k.current ∉ pids)
    (done : k.childAbove fuel temp = some found) : found = 0 := by
  induction fuel generalizing temp pids with
  | zero =>
    simp only [childAbove] at done
    split at done <;> cases done
    rfl
  | succ fuel ih =>
    rw [childAbove] at done
    split at done
    · cases done
      rfl
    cases chain with
    | root => exact absurd rfl ‹¬_›
    | step _ parent rest =>
      rename_i q l _
      simp only [parent, bind_some] at done
      have stranger' : k.current ∉ l := fun mem => stranger (.tail _ mem)
      split at done
      · rename_i up
        subst up
        exact absurd (rest.mem_self nonzero) stranger'
      · exact ih rest stranger' done

theorem childAbove_parent (nonzero : k.exitTask ≠ 0)
    (parent : k.parent k.exitTask = some k.current) :
    k.childAbove PROCESS_LIMIT k.exitTask = some k.exitTask := by
  rw [PROCESS_LIMIT, childAbove]
  simp [nonzero, parent]

end Kernel

namespace History

/-- What the record says of the processes that are there, and the other way round. -/
structure StatusInv (h : History) : Prop where
  ended : h.kernel.exitTask ≠ 0 →
    (h.kernel.table h.kernel.exitTask).signals.term = true
  only : ∀ p, (h.kernel.table p).signals.term = true → p = h.kernel.exitTask
  numbered : ∀ p, h.kernel.live p = true → h.ids p < h.next
  distinct : ∀ p q, h.kernel.live p = true → h.kernel.live q = true → h.ids p = h.ids q → p = q
  creators : ∀ p q, p ≠ 0 → h.kernel.parent p = some q → h.creators p = h.ids q
  known : ∀ id parent status, .exited id parent status ∈ h.log → id < h.next
  running : ∀ p, h.kernel.live p = true → (h.kernel.table p).signals.term = false →
    ∀ parent status, .exited (h.ids p) parent status ∉ h.log
  recorded : ∀ p, (h.kernel.table p).signals.term = true →
    .exited (h.ids p) (h.creators p) (h.kernel.table p).signals.waitstat ∈ h.log
  kept : h.StatusesKept

namespace StatusInv

variable {h : History} {k : Kernel}

section

variable (inv : h.StatusInv)
include inv

theorem congr (parent : k.parent = h.kernel.parent) (exitTask : k.exitTask = h.kernel.exitTask)
    (term : ∀ p, (k.table p).signals.term = (h.kernel.table p).signals.term)
    (waitstat : ∀ p, (k.table p).signals.waitstat = (h.kernel.table p).signals.waitstat) :
    StatusInv { h with kernel := k } := by
  have live (p : Nat) : k.live p = h.kernel.live p := by
    rw [live_eq, live_eq, parent]
  constructor
  case ended =>
    intro nonzero
    rw [term, exitTask]
    exact inv.ended (exitTask ▸ nonzero)
  case only => exact fun p terminated => (inv.only p (term p ▸ terminated)).trans exitTask.symm
  case numbered => exact fun p alive => inv.numbered p (live p ▸ alive)
  case distinct => exact fun p q hp hq => inv.distinct p q (live p ▸ hp) (live q ▸ hq)
  case creators => exact fun p q nonzero eq => inv.creators p q nonzero (parent ▸ eq)
  case known => exact inv.known
  case running => exact fun p alive runs => inv.running p (live p ▸ alive) (term p ▸ runs)
  case recorded =>
    intro p terminated
    rw [waitstat]
    exact inv.recorded p (term p ▸ terminated)
  case kept =>
    refine ⟨inv.kept.once, inv.kept.own, fun id up status mem waiting => ?_⟩
    rw [exitTask, term, waitstat]
    exact inv.kept.kept id up status mem waiting

theorem set {pid : Nat} {e : ProcessEntry} (task : e.task = (h.kernel.table pid).task)
    (term : e.signals.term = (h.kernel.table pid).signals.term)
    (waitstat : e.signals.waitstat = (h.kernel.table pid).signals.waitstat) :
    StatusInv { h with kernel := h.kernel.set pid e } := by
  exact inv.congr (h.kernel.set_parent pid task) rfl
    (h.kernel.set_entry pid (·.signals.term) term)
    (h.kernel.set_entry pid (·.signals.waitstat) waitstat)

/-- Freeing `exit_task` after its status was collected. -/
theorem free {pids : List Nat} (frees : Kernel.Frees h.kernel k h.kernel.exitTask pids)
    (none : k.exitTask = 0) (collected : h.isCollected (h.ids h.kernel.exitTask) = true) :
    StatusInv { h with kernel := k } := by
  have stays {p : Nat} (alive : k.live p = true) : p ≠ h.kernel.exitTask := by
    rintro rfl
    simp [Kernel.live, frees.task] at alive
  have old {p : Nat} (alive : k.live p = true) : h.kernel.live p = true := by
    have away := stays alive
    rwa [live_eq, frees.parent, if_neg away, ← live_eq] at alive
  have nobody (p : Nat) : (k.table p).signals.term ≠ true := by
    intro terminated
    by_cases same : p = h.kernel.exitTask
    · simp [same, frees.signals, Signals.cleared] at terminated
    · rw [frees.others p same] at terminated
      exact same (inv.only p terminated)
  constructor
  case ended => exact fun nonzero => absurd none nonzero
  case only => exact fun p terminated => absurd terminated (nobody p)
  case numbered => exact fun p alive => inv.numbered p (old alive)
  case distinct => exact fun p q hp hq => inv.distinct p q (old hp) (old hq)
  case creators =>
    intro p q nonzero eq
    have eq : k.parent p = some q := eq
    rw [frees.parent] at eq
    split at eq
    · cases eq
    · exact inv.creators p q nonzero eq
  case known => exact inv.known
  case running =>
    intro p alive runs
    have runs : (k.table p).signals.term = false := runs
    rw [frees.others p (stays alive)] at runs
    exact inv.running p (old alive) runs
  case recorded => exact fun p terminated => absurd terminated (nobody p)
  case kept =>
    refine ⟨inv.kept.once, inv.kept.own, fun id up status mem waiting => ?_⟩
    obtain ⟨-, same, -⟩ := inv.kept.kept id up status mem waiting
    rw [← same] at waiting
    exact absurd collected (by rw [show h.isCollected _ = false from waiting]; simp)

/-- A new process gets a number that no notice has. -/
theorem fork (life : h.kernel.LifeInv) (ready : h.kernel.Ready) {pid : Nat} {pids : List Nat}
    (found : h.kernel.freeEntry = some pid) (forks : Kernel.Forks h.kernel k pid pids) :
    StatusInv { h with
      kernel := k
      ids := fun p => if p = pid then h.next else h.ids p
      creators := fun p => if p = pid then h.ids h.kernel.current else h.creators p
      next := h.next + 1 } := by
  obtain ⟨nonzero, -, free⟩ := Kernel.freeEntry_spec found
  have old {p : Nat} (ne : p ≠ pid) : k.live p = h.kernel.live p := by
    rw [live_eq, live_eq, forks.parent, if_neg ne]
  have apart {p : Nat} (alive : h.kernel.live p = true) : p ≠ pid := by
    rintro rfl
    rw [free] at alive
    cases alive
  have statuses (p : Nat) : (k.table p).signals.term = (h.kernel.table p).signals.term ∧
      (k.table p).signals.waitstat = (h.kernel.table p).signals.waitstat := by
    by_cases same : p = pid
    · rw [same, forks.signals]
      exact ⟨rfl, rfl⟩
    · rw [forks.others p same]
      exact ⟨rfl, rfl⟩
  have ended {p : Nat} (terminated : (k.table p).signals.term = true) :
      (h.kernel.table p).signals.term = true ∧ p ≠ pid := by
    rw [(statuses p).1] at terminated
    exact ⟨terminated, apart (life.terminated p terminated).2.1⟩
  have number {p : Nat} (alive : k.live p = true) :
      (p = pid ∨ h.kernel.live p = true ∧ h.ids p < h.next ∧ p ≠ pid) := by
    by_cases same : p = pid
    · exact .inl same
    · have alive := old same ▸ alive
      exact .inr ⟨alive, inv.numbered p alive, same⟩
  constructor
  case ended =>
    intro nonzero
    rw [(statuses _).1, forks.exitTask]
    exact inv.ended (forks.exitTask ▸ nonzero)
  case only =>
    exact fun p terminated => (inv.only p (ended terminated).1).trans forks.exitTask.symm
  case numbered =>
    intro p alive
    dsimp only
    rcases number alive with rfl | ⟨-, lt, ne⟩
    · simp
    · rw [if_neg ne]
      omega
  case distinct =>
    intro p q hp hq same
    dsimp only at same
    rcases number hp with rfl | ⟨hp, lt, ne⟩ <;> rcases number hq with rfl | ⟨hq, _, ne'⟩
    · rfl
    · rw [if_pos rfl, if_neg ne'] at same
      omega
    · rw [if_pos rfl, if_neg ne] at same
      omega
    · rw [if_neg ne, if_neg ne'] at same
      exact inv.distinct p q hp hq same
  case creators =>
    intro p q away eq
    have up : k.parent p = some q := eq
    rw [forks.parent] at up
    dsimp only
    split at up
    · cases up
      rw [if_pos ‹_›, if_neg (apart ready.live)]
    · have ne : q ≠ pid := by
        rintro rfl
        exact life.free_is_leaf nonzero free p up
      rw [if_neg ‹_›, if_neg ne]
      exact inv.creators p q away up
  case known => exact fun id up status mem => Nat.lt_succ_of_lt (inv.known id up status mem)
  case running =>
    intro p alive runs up status
    dsimp only
    rcases number alive with rfl | ⟨alive, -, ne⟩
    · rw [if_pos rfl]
      exact fun mem => lt_irrefl _ (inv.known _ _ _ mem)
    · rw [if_neg ne]
      exact inv.running p alive ((statuses p).1 ▸ runs) up status
  case recorded =>
    intro p terminated
    obtain ⟨was, ne⟩ := ended terminated
    dsimp only
    rw [if_neg ne, if_neg ne, (statuses p).2]
    exact inv.recorded p was
  case kept =>
    refine ⟨inv.kept.once, inv.kept.own, fun id up status mem waiting => ?_⟩
    obtain ⟨away, same, terminated, stat⟩ := inv.kept.kept id up status mem waiting
    show k.exitTask ≠ 0 ∧ (if k.exitTask = pid then _ else _) = id ∧
      (k.table k.exitTask).signals.term = true ∧ (k.table k.exitTask).signals.waitstat = status
    rw [(statuses _).1, (statuses _).2, forks.exitTask,
      if_neg (apart (life.terminated _ terminated).2.1)]
    exact ⟨away, same, terminated, stat⟩

/-- An exit, when the last status has been collected and its process freed. -/
theorem exit (life : h.kernel.LifeInv) (ready : h.kernel.Ready) (nonzero : h.kernel.current ≠ 0)
    (none : h.kernel.exitTask = 0) {code : Int} (exits : Kernel.Exits h.kernel k code) :
    StatusInv { h with
      kernel := k
      log := .exited (h.ids h.kernel.current) (h.creators h.kernel.current)
        ((code % 256).toNat * 256) :: h.log } := by
  have live (p : Nat) : k.live p = h.kernel.live p := by
    rw [Kernel.live_eq, Kernel.live_eq, exits.parent]
  have ended {p : Nat} (terminated : (k.table p).signals.term = true) :
      p = h.kernel.current := by
    rw [exits.term] at terminated
    split at terminated
    · assumption
    · have zero := inv.only p terminated
      rw [none] at zero
      exact absurd zero (life.terminated p terminated).1
  constructor
  case ended =>
    intro _
    rw [exits.term, exits.exitTask, if_pos rfl]
  case only => exact fun p terminated => (ended terminated).trans exits.exitTask.symm
  case numbered => exact fun p alive => inv.numbered p (live p ▸ alive)
  case distinct => exact fun p q hp hq => inv.distinct p q (live p ▸ hp) (live q ▸ hq)
  case creators => exact fun p q away eq => inv.creators p q away (exits.parent ▸ eq)
  case known =>
    intro id up status mem
    rcases mem_cons.1 mem with new | old
    · cases new
      exact inv.numbered _ ready.live
    · exact inv.known id up status old
  case running =>
    intro p alive runs up status mem
    have alive : h.kernel.live p = true := live p ▸ alive
    have runs : (k.table p).signals.term = false := runs
    rw [exits.term] at runs
    split at runs
    · cases runs
    rename_i other
    rcases mem_cons.1 mem with new | old
    · injection new with same
      exact other (inv.distinct _ _ alive ready.live same)
    · exact inv.running p alive runs up status old
  case recorded =>
    intro p terminated
    rw [exits.waitstat, ended terminated, if_pos rfl]
    exact mem_cons_self
  case kept =>
    refine ⟨inv.kept.once, fun id caller status mem => ?_, fun id up status mem waiting => ?_⟩
    · rcases mem_cons.1 mem with new | old
      · cases new
      · exact mem_cons_of_mem _ (inv.kept.own id caller status old)
    · show k.exitTask ≠ 0 ∧ h.ids k.exitTask = id ∧ (k.table k.exitTask).signals.term = true ∧
        (k.table k.exitTask).signals.waitstat = status
      rcases mem_cons.1 mem with new | old
      · cases new
        rw [exits.exitTask, exits.term, exits.waitstat, if_pos rfl, if_pos rfl]
        exact ⟨nonzero, rfl, rfl, rfl⟩
      · exact absurd none (inv.kept.kept id up status old waiting).1

/-- A wait that finds something finds `exit_task`, and the caller is its parent. -/
theorem waits (life : h.kernel.LifeInv) {arg : Int} (waits : h.waits arg = true) {temp status : Nat}
    (found : h.kernel.waitGetStatus arg = some (some (temp, status))) :
    temp ≠ 0 ∧ status = (h.kernel.table temp).signals.waitstat ∧
      h.isCollected (h.ids temp) = false ∧ EndedChild h.kernel arg temp := by
  rw [Kernel.waitGetStatus] at found
  split at found
  · cases found
  rename_i nonzero
  have term := inv.ended nonzero
  obtain ⟨_, walk, chain⟩ := life.ancestors (life.terminated _ term).2.1
  rw [History.waits, walk] at waits
  simp only [nonzero, Bool.or_eq_true, Bool.and_eq_true, beq_iff_eq, false_or,
    Bool.not_eq_true'] at waits
  split at found
  · rename_i any
    rcases waits with ⟨child, waiting⟩ | stranger
    · simp only [childAbove_parent nonzero child, map_some, nonzero, if_false,
        some.injEq] at found
      split at found
      · cases found
      rename_i group
      cases found
      refine ⟨nonzero, rfl, waiting, term, child, fun zero => ?_⟩
      by_contra differ
      exact group ⟨by omega, fun eq => differ eq.symm⟩
    · simp only [any, if_true, any_some, Bool.and_eq_true, bne_iff_ne, ne_eq,
        Bool.not_eq_true', contains_eq_mem, decide_eq_false_iff_not] at stranger
      obtain ⟨_, above, eq⟩ := map_eq_some_iff.1 found
      rw [if_pos (childAbove_stranger stranger.1 chain stranger.2 above)] at eq
      cases eq
  · rename_i one
    split at found
    · cases found
    rename_i same
    cases found
    rcases waits with ⟨child, waiting⟩ | stranger
    · exact ⟨nonzero, rfl, waiting, term, child, fun zero => absurd (.inr zero) one⟩
    · simp only [one, if_false, decide_eq_true_eq] at stranger
      exact absurd stranger same

theorem collect {temp : Nat} (waiting : h.isCollected (h.ids temp) = false) (nonzero : temp ≠ 0)
    (term : (h.kernel.table temp).signals.term = true)
    (child : h.kernel.parent temp = some h.kernel.current) :
    StatusInv { h with
      log := .collected (h.ids temp) (h.ids h.kernel.current)
        (h.kernel.table temp).signals.waitstat :: h.log } := by
  have none : h.log.filter (Notice.collects (h.ids temp)) = [] := by
    rw [filter_eq_nil_iff]
    intro notice mem collects
    rw [isCollected, List.any_eq_false] at waiting
    exact waiting notice mem collects
  have isNew {id up status : Nat} (mem : Notice.exited id up status ∈
      (.collected (h.ids temp) (h.ids h.kernel.current)
        (h.kernel.table temp).signals.waitstat :: h.log : List Notice)) :
      Notice.exited id up status ∈ h.log := by
    rcases mem_cons.1 mem with new | old
    · cases new
    · exact old
  refine { inv with known := ?known, running := ?running, recorded := ?recorded, kept := ?kept }
  case known => exact fun id up status mem => inv.known id up status (isNew mem)
  case running => exact fun p alive runs up status mem => inv.running p alive runs up status (isNew mem)
  case recorded => exact fun p terminated => mem_cons_of_mem _ (inv.recorded p terminated)
  case kept =>
    constructor
    case once =>
      intro id
      by_cases same : h.ids temp = id
      · subst same
        simp [Notice.collects, none]
      · simpa [Notice.collects, same] using inv.kept.once id
    case own =>
      intro id caller status mem
      rcases mem_cons.1 mem with new | old
      · cases new
        rw [← inv.creators temp _ nonzero child]
        exact mem_cons_of_mem _ (inv.recorded temp term)
      · exact mem_cons_of_mem _ (inv.kept.own id caller status old)
    case kept =>
      intro id up status mem open'
      refine inv.kept.kept id up status (isNew mem) ?_
      rw [isCollected, any_cons, Bool.or_eq_false_iff] at open'
      exact open'.2

/-- A switch frees `exit_task` if it passes over it. -/
theorem irq8 (life : h.kernel.LifeInv)
    (passed : (h.kernel.exitTask ∈ h.kernel.behind.takeWhile fun p =>
      (h.kernel.table p).signals.term) → h.isCollected (h.ids h.kernel.exitTask) = true)
    (switched : h.kernel.irq8 = some k) : StatusInv { h with kernel := k } := by
  rcases life.queue.irq8 switched with ⟨-, rfl⟩ | ⟨pid, k₁, rfl, -, -, -, rest⟩
  · exact inv
  have before : StatusInv { h with kernel := k₁ } := by
    rcases rest with rfl | ⟨_, _, freed⟩
    · exact inv
    · exact inv.free freed.frees freed.exitTask (passed freed.passed)
  obtain ⟨parent, exitTask, signals⟩ := k₁.switchTo_fields pid
  exact before.congr parent exitTask (fun p => (signals p).1) (fun p => (signals p).2.1)

theorem step (life : h.kernel.LifeInv) (ready : h.kernel.Ready) {e : Event} {h' : History}
    (orderly : h.orderly e = true) (next : h.step e = some h') : h'.StatusInv := by
  obtain ⟨⟨k, _⟩, done, rfl⟩ := map_eq_some_iff.1 next
  cases e with
  | run =>
    cases stack : h.kernel.kstack h.kernel.current with
    | nil => simp [Kernel.step, Kernel.runFrame, stack] at done
    | cons f =>
      obtain ⟨arg, rfl⟩ := life.frames _ f (stack ▸ mem_cons_self)
      simp only [Kernel.step, Kernel.runFrame, stack] at done
      rcases Kernel.poll_cases done with ⟨rfl, rfl⟩ | ⟨rfl, temp, status, rfl, found⟩
      · exact inv
      · simp only [History.orderly, stack] at orderly
        obtain ⟨nonzero, rfl, waiting, ended⟩ := inv.waits life orderly found
        exact (inv.collect waiting nonzero ended.term ended.child).congr rfl rfl (fun _ => rfl)
          (fun _ => rfl)
  | tick =>
    obtain ⟨k₁, switched, eq⟩ := map_eq_some_iff.1 done
    cases eq
    refine inv.irq8 life (fun mem => ?_) switched
    simpa [History.orderly, mem] using orderly
  | clock => cases orderly
  | key c => cases orderly
  | ret => cases orderly
  | call c =>
    simp only [Kernel.step] at done
    split at done
    swap
    · cases done
    cases c with
    | fork =>
      obtain ⟨⟨_, k₁⟩, forked, eq⟩ := map_eq_some_iff.1 done
      rcases Kernel.sysFork_spec forked with ⟨rfl, rfl⟩ | ⟨pid, _, rfl, found, _, forks⟩
      · cases eq
        exact inv.congr rfl rfl (fun _ => rfl) (fun _ => rfl)
      · cases eq
        exact inv.fork life ready found forks
    | exit =>
      obtain ⟨k₁, exited, eq⟩ := map_eq_some_iff.1 done
      cases eq
      obtain ⟨nonzero, live, _, exits, switched⟩ := Kernel.sysExit_spec exited
      simp only [History.orderly, Bool.and_eq_true, beq_iff_eq] at orderly
      have life := life.exits orderly.1 nonzero live exits
      have inv := inv.exit ‹_› ready nonzero orderly.2 exits
      refine inv.irq8 life (fun mem => ?_) switched
      have behind := (takeWhile_sublist _).subset mem
      rw [exits.exitTask, ← exits.current] at behind
      exact absurd behind life.queue.current_not_behind
    | wait4 pid =>
      rcases Kernel.sysWait4_cases done with
        ⟨rfl | ⟨arg, rfl⟩, rfl | ⟨e, rfl⟩⟩ | ⟨rfl, flag, temp, status, rfl, found⟩
      · exact inv
      · exact inv
      · exact inv.congr rfl rfl (fun _ => rfl) (fun _ => rfl)
      · exact inv.congr rfl rfl (fun _ => rfl) (fun _ => rfl)
      · simp only [History.orderly, flag, Bool.not_true, Bool.false_or] at orderly
        obtain ⟨nonzero, rfl, waiting, ended⟩ := inv.waits life orderly found
        exact inv.collect waiting nonzero ended.term ended.child
    | setpgid pid pgid =>
      obtain rfl := congrArg Prod.fst (some.inj done)
      rcases h.kernel.sysSetpgid_cases pid pgid with same | ⟨p, _, -, eq⟩
      · show StatusInv { h with kernel := (h.kernel.sysSetpgid pid pgid).1 }
        rw [same]
        exact inv
      · show StatusInv { h with kernel := (h.kernel.sysSetpgid pid pgid).1 }
        rw [eq]
        exact inv.set rfl rfl rfl
    | setsid =>
      obtain rfl := congrArg Prod.fst (some.inj done)
      rcases h.kernel.sysSetsid_cases with same | eq
      · rw [same]
        exact inv
      · rw [eq]
        exact inv.set rfl rfl rfl
    | sigprocmask =>
      obtain rfl := congrArg Prod.fst (some.inj done)
      show StatusInv { h with kernel := (h.kernel.updateSignals _).1 }
      unfold Kernel.updateSignals
      split
      · rename_i signals eq
        obtain ⟨_, rfl⟩ := Signals.sysSigprocmask_rest eq
        exact inv.set rfl rfl rfl
      · exact inv
    | kill pid sig => cases orderly
    | tiocspgrp _ pgid => cases orderly
    | sigaction sig => cases orderly
    | setitimer => cases orderly
    | exec => cases orderly

end

theorem boot (tty : Terminal) : StatusInv (.boot tty) := by
  have only {p : Nat} (alive : (Kernel.boot tty).live p = true) : p = 0 := by
    by_contra other
    simp [Kernel.boot, Kernel.live, other] at alive
  constructor
  case ended => exact fun nonzero => absurd rfl nonzero
  case only => rintro _ ⟨⟩
  case numbered => exact fun _ _ => Nat.one_pos
  case distinct => exact fun p q hp hq _ => (only hp).trans (only hq).symm
  case creators => exact fun p q _ _ => rfl
  case known => rintro _ _ _ ⟨⟩
  case running => rintro _ _ _ _ _ ⟨⟩
  case recorded => rintro _ ⟨⟩
  case kept => exact ⟨fun _ => Nat.zero_le _, by rintro _ _ _ ⟨⟩, by rintro _ _ _ ⟨⟩⟩

end StatusInv

theorem orderly_exitsLast {h : History} {e : Event} (orderly : h.orderly e = true) :
    h.kernel.exitsLast e = true := by
  cases e with
  | call c =>
    cases c with
    | exit => exact (Bool.and_eq_true_iff.1 orderly).1
    | wait4 => rfl
    | _ => exact orderly
  | run => rfl
  | tick => rfl
  | clock => cases orderly
  | key c => cases orderly
  | ret => cases orderly

theorem step_kernel {h h' : History} {e : Event} (next : h.step e = some h') :
    ∃ reply, h.kernel.step e = some (h'.kernel, reply) := by
  obtain ⟨⟨k, reply⟩, done, rfl⟩ := map_eq_some_iff.1 next
  refine ⟨reply, done.trans ?_⟩
  dsimp only
  split <;> rfl

end History

/-- In an orderly run every status is collected once at most and by the parent, until then
it stays, and a wait for any child finds a terminated child. -/
theorem exit_status_runs {tty : Terminal} {events : List Event} {h : History}
    (run : Run (Guarded (fun h e => h.orderly e = true) (partialGraph History.step))
      (.boot tty) events h) :
    h.StatusesKept ∧ ∀ arg temp status, arg = -1 ∨ arg = 0 → h.waits arg = true →
      h.kernel.waitGetStatus arg = some (some (temp, status)) →
        History.EndedChild h.kernel arg temp := by
  have inv : (h.kernel.LifeInv ∧ h.kernel.Ready) ∧ h.StatusInv := by
    refine run.invariant (I := fun h => (h.kernel.LifeInv ∧ h.kernel.Ready) ∧ h.StatusInv) ?_
      ⟨Kernel.LifeInv.boot tty, .boot tty⟩
    rintro h e _ ⟨⟨life, ready⟩, inv⟩ ⟨orderly, next⟩
    obtain ⟨_, done⟩ := History.step_kernel next
    exact ⟨life.step ready (History.orderly_exitsLast orderly) done,
      inv.step life ready orderly next⟩
  exact ⟨inv.2.kept, fun arg temp status _ waits found => (inv.2.waits inv.1.1 waits found).2.2.2⟩

/-- A child exits, its parent waits for it, and the scheduler frees it. -/
theorem exit_status_runs_at : ∃ h : History,
    h.log = [.collected 2 1 1792, .exited 2 1 1792] ∧ h.kernel.live 2 = false ∧
      h.StatusesKept := by
  have runnable : (exec History.orderly History.step (.boot rawTerminal)
      [.call (.fork true), .tick, .call (.fork true), .tick, .call (.exit 7), .tick,
        .call (.wait4 (-1) 0), .run, .tick]).any
        (fun h => h.log = [.collected 2 1 1792, .exited 2 1 1792] && !h.kernel.live 2) = true := by
    decide +kernel
  obtain ⟨h, hh, facts⟩ := (Option.any_eq_true _ _).1 runnable
  simp only [Bool.and_eq_true, decide_eq_true_eq, Bool.not_eq_true'] at facts
  exact ⟨h, facts.1, facts.2, (exit_status_runs (run_of_exec hh)).1⟩

/-- A parent that waits twice gets the status of its one child twice. -/
theorem status_delivered_twice : ¬∀ (tty : Terminal) (events : List Event) (h : History),
    Run (Guarded (fun _ e => e.lifecycle = true) (partialGraph History.step)) (.boot tty) events h →
      h.StatusesKept := by
  intro claim
  have twice : (exec (fun _ e => e.lifecycle) History.step (.boot rawTerminal)
      [.call (.fork true), .tick, .call (.fork true), .tick, .call (.exit 7), .tick,
        .call (.wait4 (-1) WNOHANG), .call (.wait4 (-1) WNOHANG)]).any
        (fun h => (h.log.filter (Notice.collects 2)).length = 2) = true := by
    decide +kernel
  obtain ⟨h, hh, facts⟩ := (Option.any_eq_true _ _).1 twice
  have once := (claim _ _ h (run_of_exec hh)).once 2
  rw [of_decide_eq_true facts] at once
  exact absurd once (by decide)

end Os0
