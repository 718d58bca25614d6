import Mathlib.Data.Finset.Card
import Os0.Lib.Linked
import Os0.Lib.Runs

/-! The task queue as `arch/i386/task.c` links it, through `t_next` and `t_prev`. A task is the
address of its structure. -/
namespace Os0

open Function Runs List Option

structure TaskQueue where
  /-- `task_queue`. -/
  head : Nat
  next : Nat → Option Nat
  prev : Nat → Nat

namespace TaskQueue

def schedulerInit (q : TaskQueue) (task : Nat) : TaskQueue :=
  { head := task, next := update q.next task none, prev := update q.prev task task }

/-- The loop of `_task_fork` for the last task; `none` if it takes more than `fuel` rounds. -/
def lastTask (q : TaskQueue) : Nat → Nat → Option Nat
  | 0, _ => none
  | fuel + 1, temp =>
    match q.next temp with
    | none => some temp
    | some task => q.lastTask fuel task

/-- What `_task_fork` does to the queue. -/
def taskFork (q : TaskQueue) (fuel task : Nat) : Option TaskQueue :=
  let q := { q with next := update q.next task none }
  (q.lastTask fuel q.head).map fun temp =>
    { q with
      next := update q.next temp (some task)
      prev := update (update q.prev task temp) q.head task }

/-- What `task_free` does to the queue. -/
def taskFree (q : TaskQueue) (task : Nat) : TaskQueue :=
  let q := { q with next := update q.next (q.prev task) (q.next task) }
  { q with
    prev := match q.next task with
      | none => update q.prev q.head (q.prev task)
      | some t => update q.prev t (q.prev task) }

/-- The queue holds the tasks `tasks` in this order. -/
def Holds (q : TaskQueue) (tasks : List Nat) : Prop := Linked.Queue q.next q.prev q.head tasks

variable {q t : TaskQueue} {task fuel : Nat} {tasks : List Nat}

theorem schedulerInit_holds (q : TaskQueue) (task : Nat) : (q.schedulerInit task).Holds [task] :=
  ⟨rfl, nodup_singleton task, isChain_singleton task, by simp [schedulerInit]⟩

theorem lastTask_eq (joined : tasks.IsChain fun a b => q.next a = some b ∧ q.prev b = a)
    {temp last : Nat} (first : tasks.head? = some temp) (isLast : tasks.getLast? = some last)
    (ends : q.next last = none) :
    q.lastTask fuel temp = if tasks.length ≤ fuel then some last else none := by
  induction tasks generalizing temp fuel with
  | nil => cases first
  | cons a tasks ih =>
    obtain rfl : a = temp := some.inj first
    cases fuel with
    | zero => simp [lastTask]
    | succ fuel =>
      cases tasks with
      | nil =>
        obtain rfl : a = last := some.inj isLast
        simp [lastTask, ends]
      | cons b tasks =>
        obtain ⟨⟨link, -⟩, joined⟩ := isChain_cons_cons.1 joined
        simp only [lastTask, link, ih joined rfl (by simpa using isLast), length_cons,
          Nat.add_le_add_iff_right]

theorem taskFork_holds (fuel : Nat) (h : q.Holds tasks) (new : task ∉ tasks) :
    ∃ t, (q.taskFork fuel task = if tasks.length ≤ fuel then some t else none) ∧
      t.head = q.head ∧ t.Holds (tasks ++ [task]) := by
  have outside := h.outside new none
  obtain ⟨last, isLast⟩ : ∃ last, tasks.getLast? = some last := by
    obtain ⟨-, rfl⟩ := head?_eq_some_iff.1 h.first
    exact ⟨_, getLast?_eq_some_getLast (by simp)⟩
  have found : lastTask { q with next := update q.next task none } fuel q.head =
      if tasks.length ≤ fuel then some last else none :=
    lastTask_eq outside.joined h.first isLast (outside.last last isLast).1
  refine ⟨{ q with
    next := update (update q.next task none) last (some task)
    prev := update (update q.prev task last) q.head task }, ?_, rfl,
    outside.append isLast new (update_self ..)⟩
  simp only [taskFork, found]
  split <;> rfl

theorem taskFree_holds (h : q.Holds tasks) (mem : task ∈ tasks) (other : task ≠ q.head) :
    (q.taskFree task).Holds (tasks.erase task) := by
  obtain ⟨front, ys, rfl⟩ := append_of_mem mem
  obtain rfl | ⟨xs, b, rfl⟩ := eq_nil_or_concat front
  · exact absurd (some.inj h.first) other
  rw [concat_eq_append, append_assoc, singleton_append] at h ⊢
  obtain ⟨-, ⟨-, back⟩, -⟩ := isChain_append_cons_cons.1 h.joined
  have unique := h.unique
  have apart : task ≠ b := by grind
  have erased : (xs ++ b :: task :: ys).erase task = xs ++ b :: ys := by
    rw [erase_append_right _ (by grind), erase_cons_tail (by simpa using apart.symm),
      erase_cons_head]
  have removed := h.remove
  rw [erased]
  unfold Holds taskFree
  simp only [back, update_of_ne apart]
  cases onward : q.next task <;> simpa only [onward] using removed

inductive Action
  | fork (task : Nat)
  | free (task : Nat)

/-- Forks that succeed and calls of `task_free`, with the tasks that are live. The task of a fork
is from `kmalloc`, where no live task is. -/
inductive Step : TaskQueue × Finset Nat → Action → TaskQueue × Finset Nat → Prop
  | fork {q t : TaskQueue} {live : Finset Nat} {fuel task : Nat} :
      task ∉ live → q.taskFork fuel task = some t → Step (q, live) (.fork task) (t, insert task live)
  | free {q : TaskQueue} {live : Finset Nat} {task : Nat} :
      task ∈ live → task ≠ q.head → Step (q, live) (.free task) (q.taskFree task, live.erase task)

/-- The queue holds exactly the live tasks, the initial one first. -/
def Intact (init : Nat) (s : TaskQueue × Finset Nat) : Prop :=
  s.1.head = init ∧ ∃ tasks, s.1.Holds tasks ∧ tasks.toFinset = s.2

theorem Step.intact {init : Nat} {a : Action} {s t : TaskQueue × Finset Nat}
    (intact : Intact init s) (step : Step s a t) : Intact init t := by
  obtain ⟨head, tasks, holds, same⟩ := intact
  cases step with
  | @fork q t live fuel task new forked =>
    obtain rfl : tasks.toFinset = live := same
    obtain ⟨t', eq, head', holds⟩ := taskFork_holds fuel holds (by simpa using new)
    obtain rfl : t' = t := by
      rw [eq] at forked
      split at forked
      · exact some.inj forked
      · cases forked
    refine ⟨head'.trans head, tasks ++ [task], holds, ?_⟩
    ext t
    simp
  | @free q live task mem other =>
    obtain rfl : tasks.toFinset = live := same
    refine ⟨head, tasks.erase task, taskFree_holds holds (by simpa using mem) other, ?_⟩
    ext t
    simp [holds.unique.mem_erase_iff]

/-- Whatever is forked and freed, the queue is a finite list of exactly the live tasks, linked in
both directions, and the loop of the next fork ends. -/
theorem task_queue_intact (q : TaskQueue) (init : Nat) {as : List Action} {t : TaskQueue}
    {live : Finset Nat} (run : Run Step (q.schedulerInit init, {init}) as (t, live)) :
    (t.head = init ∧ ∃ tasks, t.Holds tasks ∧ tasks.toFinset = live) ∧
      ∀ task ∉ live, (t.taskFork live.card task).isSome := by
  have intact : Intact init (t, live) := by
    have start : Intact init (q.schedulerInit init, {init}) :=
      ⟨rfl, [init], schedulerInit_holds q init, by simp⟩
    exact run.invariant (fun _ _ _ intact step => step.intact intact) start
  refine ⟨intact, fun task new => ?_⟩
  obtain ⟨-, tasks, holds, rfl⟩ := intact
  obtain ⟨_, eq, -⟩ := taskFork_holds tasks.toFinset.card holds (by simpa using new)
  rw [eq, if_pos (List.toFinset_card_of_nodup holds.unique).ge]
  rfl

/-- The kernel task at 0, two forks, and the end of the first. -/
theorem task_queue_intact_freed : ∃ (t : TaskQueue) (live : Finset Nat), live = {0, 2} ∧
    (t.head = 0 ∧ ∃ tasks, t.Holds tasks ∧ tasks.toFinset = live) ∧
      ∀ task ∉ live, (t.taskFork live.card task).isSome :=
  ⟨_, _, by decide, task_queue_intact ⟨0, fun _ => none, fun _ => 0⟩ 0
    (.cons (.fork (by decide) (rfl : taskFork _ 1 1 = _))
      (.cons (.fork (by decide) (rfl : taskFork _ 2 2 = _))
        (.cons (.free (by decide : 1 ∈ _) (by decide)) (.nil _))))⟩

end TaskQueue

end Os0
