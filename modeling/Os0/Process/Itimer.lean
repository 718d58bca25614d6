import Os0.Process.Table

/-! The real-time interval timer of a process: the countdown of `task_timer_tick` in
`arch/i386/task.c`, once in every millisecond. -/
namespace Os0

open Function List Option

open ITimer

namespace ITimer

/-- Both times are a number of seconds and less than a million microseconds. -/
structure Valid (t : ITimer) : Prop where
  sec : 0 ≤ t.sec
  usec : t.usec < 1000000
  intervalSec : 0 ≤ t.intervalSec
  intervalUsec : t.intervalUsec < 1000000

/-- The time left in milliseconds, rounded up. -/
def millis (t : ITimer) : Nat := t.sec.toNat * 1000 + (t.usec + 999) / 1000

/-- The time to start again with. -/
def again (t : ITimer) : ITimer := { t with sec := t.intervalSec, usec := t.intervalUsec }

/-- The `n`-th tick from now on is one that an accurate timer signals. -/
def Due (t : ITimer) (n : Nat) : Prop :=
  t.millis ≠ 0 ∧ (n = t.millis ∨
    t.again.millis ≠ 0 ∧ t.millis ≤ n ∧ (n - t.millis) % t.again.millis = 0)

/-- Whole milliseconds. -/
def Whole (t : ITimer) : Prop := t.usec % 1000 = 0 ∧ t.intervalUsec % 1000 = 0

variable {t : ITimer}

theorem tick_cases (valid : t.Valid) (even : t.usec % 1000 = 0) :
    (t.millis = 0 ∧ t.tick = (t, false)) ∨ (t.millis = 1 ∧ t.tick = (t.again, true)) ∨
    ∃ t' : ITimer, t.tick = (t', false) ∧ t'.Valid ∧ t'.usec % 1000 = 0 ∧ t'.again = t.again ∧
      0 < t'.millis ∧ t.millis = t'.millis + 1 := by
  obtain ⟨low, _, intervalLow, intervalHigh⟩ := valid
  unfold tick
  split
  case isTrue zero => exact .inl ⟨by simp [millis, zero.1, zero.2], rfl⟩
  case isFalse _ =>
    right
    rcases lt_or_ge t.usec 1000 with small | large
    · have positive : 0 < t.sec := by omega
      simp only [not_le.2 small, positive, if_true, if_false]
      refine .inr ⟨{ t with sec := t.sec - 1, usec := 999000 - t.usec }, if_neg (by omega), ?_, ?_,
        by simp only [again], ?_⟩
      · exact ⟨by dsimp only; omega, by dsimp only; omega, intervalLow, intervalHigh⟩
      · dsimp only
        omega
      · simp only [millis]
        omega
    · simp only [large, if_true]
      split
      case isTrue out =>
        have once : t.usec = 1000 := by omega
        have left : t.millis = 1 := by simp [millis, out.1, once]
        exact .inl ⟨left, by simp only [again]⟩
      case isFalse more =>
        refine .inr ⟨{ t with usec := t.usec - 1000 }, rfl, ?_, ?_, by simp only [again], ?_⟩
        · exact ⟨low, by dsimp only; omega, intervalLow, intervalHigh⟩
        · dsimp only
          omega
        · simp only [millis] at more ⊢
          omega

/-- The multiples of the interval, counted from its end or from its start. -/
theorem due_again {n : Nat} (once : t.millis = 1) (later : 0 < n) :
    t.again.Due n ↔ t.Due (n + 1) := by
  have same : t.again.again = t.again := rfl
  unfold Due
  rw [same, once]
  by_cases none : t.again.millis = 0
  · simp only [none]
    omega
  have wraps : t.again.millis ≤ n → (n - t.again.millis) % t.again.millis = n % t.again.millis :=
    fun le => (Nat.mod_eq_sub_mod le).symm
  have reached : n % t.again.millis = 0 → t.again.millis ≤ n := fun multiple =>
    Nat.le_of_dvd later (Nat.dvd_of_mod_eq_zero multiple)
  constructor
  case mp =>
    rintro ⟨-, rfl | ⟨-, le, multiple⟩⟩
    · exact ⟨by decide, .inr ⟨none, by omega, by simp⟩⟩
    · exact ⟨by decide, .inr ⟨none, by omega, (wraps le).symm.trans multiple⟩⟩
  case mpr =>
    rintro ⟨-, _ | ⟨-, -, multiple⟩⟩
    · omega
    · exact ⟨none, .inr ⟨none, reached multiple, (wraps (reached multiple)).trans multiple⟩⟩

/-- A tick signals when it should, and the timer goes on as if it had been counted from the
start. -/
theorem tick_due (valid : t.Valid) (whole : t.Whole) :
    (t.tick.2 = true ↔ t.Due 1) ∧ t.tick.1.Valid ∧ t.tick.1.Whole ∧
      ∀ n, 0 < n → (t.tick.1.Due n ↔ t.Due (n + 1)) := by
  rcases tick_cases valid whole.1 with ⟨off, eq⟩ | ⟨once, eq⟩ |
    ⟨t', eq, valid', even, same, left, less⟩
  · rw [eq]
    refine ⟨?_, valid, whole, fun n _ => ?_⟩ <;> simp [Due, off]
  · rw [eq]
    refine ⟨?_, ?_, ⟨whole.2, whole.2⟩, fun n later => due_again once later⟩
    · simp [Due, once]
    · exact ⟨valid.intervalSec, valid.intervalUsec, valid.intervalSec, valid.intervalUsec⟩
  · rw [eq]
    have interval : t'.intervalUsec = t.intervalUsec := congrArg usec same
    refine ⟨?_, valid', ⟨even, interval ▸ whole.2⟩, fun n later => ?_⟩
    · simp only [Due, less]
      constructor
      · nofun
      · omega
    · simp only [Due, less, same]
      have shift : n + 1 - (t'.millis + 1) = n - t'.millis := by omega
      rw [shift]
      omega

/-- Microseconds that are no whole milliseconds never run out. -/
theorem tick_stuck (odd : t.usec % 1000 ≠ 0) (small : t.usec < 1000000) :
    t.tick.2 = false ∧ t.tick.1.usec % 1000 ≠ 0 ∧ t.tick.1.usec < 1000000 := by
  unfold tick
  split
  case isTrue _ => omega
  case isFalse =>
    rcases lt_or_ge t.usec 1000 with below | above
    · by_cases positive : 0 < t.sec
      · simp only [not_le.2 below, positive, if_true, if_false]
        rw [if_neg (by omega)]
        exact ⟨rfl, by dsimp only; omega, by dsimp only; omega⟩
      · simp only [not_le.2 below, positive, if_false]
        rw [if_neg (by omega)]
        exact ⟨rfl, odd, small⟩
    · simp only [above, if_true]
      rw [if_neg (by omega)]
      exact ⟨rfl, by dsimp only; omega, by dsimp only; omega⟩

end ITimer

/-- A round of the loop of `task_timer_tick`, and whether it calls `process_send_signal`. -/
def tickRound (table : Nat → ProcessEntry) (i : Nat) : (Nat → ProcessEntry) × Bool :=
  if (table i).task.isNone then (table, false)
  else
    let (timer, out) := (table i).timer.tick
    (Function.update table i { table i with timer }, out)

/-- The loop, with the processes that are sent `SIGALRM` and those that it does not come to: where
sending the signal makes the interrupted task give way (`yields`), it resumes with that task, if
ever. -/
def tickLoop (yields : Nat → Bool) :
    List Nat → (Nat → ProcessEntry) → (Nat → ProcessEntry) × List Nat × List Nat
  | [], table => (table, [], [])
  | i :: is, table =>
    let (table, out) := tickRound table i
    if out then
      if yields i then (table, [i], is)
      else
        let (table, sent, left) := tickLoop yields is table
        (table, i :: sent, left)
    else tickLoop yields is table

namespace Kernel

/-- `process_send_signal (i, SIGALRM)` ends or goes through a `task_yield` of the current task: it
is the current task that gets the signal, or that gets `SIGCHLD` because the signal ends its
child. -/
def alarmYields (k : Kernel) (i : Nat) : Bool :=
  match ((k.table i).signals.receive SIGALRM).2 with
  | .returned => false
  | .exit => i == k.current || (k.parent i).any fun ppid =>
      ppid != 0 && ppid == k.current && ((k.table ppid).signals.receive SIGCHLD).2 == .caught
  | _ => i == k.current

/-- `task_timer_tick`, without the accounting of processor time: the timers after the loop, who is
sent `SIGALRM`, and who the loop does not come to. -/
def taskTimerTick (k : Kernel) : (Nat → ProcessEntry) × List Nat × List Nat :=
  tickLoop k.alarmYields (List.range PROCESS_LIMIT) k.table

theorem finishSend_other {k : Kernel} {i sig : Nat} (other : i ≠ k.current) :
    ∃ k', k.finishSend i sig = some k' ∧ k'.current = k.current ∧ k'.kstack = k.kstack :=
  ⟨_, if_neg other, rfl, rfl⟩

theorem notify_stays {k : Kernel} {ppid : Nat}
    (deaf : ppid = k.current → ((k.table ppid).signals.receive SIGCHLD).2 ≠ .caught) :
    (k.notify ppid).2 = false ∧ (k.notify ppid).1.current = k.current ∧
      (k.notify ppid).1.kstack = k.kstack := by
  unfold notify
  generalize (k.table ppid).signals.receive SIGCHLD = received at deaf ⊢
  obtain ⟨signals, effect⟩ := received
  cases effect with
  | caught => exact ⟨beq_eq_false_iff_ne.2 fun same => deaf same rfl, rfl, rfl⟩
  | returned => exact ⟨rfl, rfl, rfl⟩
  | exit => exact ⟨rfl, rfl, rfl⟩
  | stop => exact ⟨rfl, rfl, rfl⟩

theorem notifyParent_stays {k : Kernel} {ppid i sig : Nat} (other : i ≠ k.current)
    (deaf : ppid ≠ 0 → ppid = k.current →
      ((k.table ppid).signals.receive SIGCHLD).2 ≠ .caught) :
    ∃ k', k.notifyParent ppid i sig = some k' ∧ k'.current = k.current ∧ k'.kstack = k.kstack := by
  unfold notifyParent
  split
  · exact finishSend_other other
  · rename_i child
    obtain ⟨silent, current, frames⟩ := notify_stays (deaf child)
    simp only [silent, Bool.false_eq_true, if_false]
    rw [← current, ← frames]
    exact finishSend_other (current ▸ other)

/-- Where the task does not give way, it goes on with the loop. -/
theorem sendSignal_stays {k : Kernel} {i : Nat} (live : k.live i = true)
    (stays : k.alarmYields i = false) : ∃ k', k.sendSignal i SIGALRM = some k' ∧
      k'.current = k.current ∧ k'.kstack = k.kstack := by
  obtain ⟨task, isTask⟩ := isSome_iff_exists.1 live
  have goesOn := Signals.receive_sigalrm (k.table i).signals
  unfold alarmYields at stays
  unfold sendSignal
  generalize (k.table i).signals.receive SIGALRM = received at stays goesOn ⊢
  obtain ⟨signals, effect⟩ := received
  cases effect with
  | returned => exact ⟨_, rfl, rfl, rfl⟩
  | caught => exact finishSend_other (beq_eq_false_iff_ne.1 stays)
  | stop notifies => exact absurd rfl (goesOn notifies)
  | exit =>
    obtain ⟨other, deaf⟩ : i ≠ k.current ∧ (task.ppid ≠ 0 → task.ppid = k.current →
        ((k.table task.ppid).signals.receive SIGCHLD).2 ≠ .caught) := by
      simpa [parent, isTask] using stays
    simp only [isTask, bind_some]
    refine notifyParent_stays other fun child own => ?_
    have apart : task.ppid ≠ i := fun same => other (same.symm.trans own)
    simpa only [setSignals, set, apart, if_false] using deaf child own

end Kernel

/-- The rounds are those of the machine that interleaves them with everything else. -/
theorem Kernel.runFrame_timer {k : Kernel} {i : Nat} {rest : List Frame}
    (top : k.kstack k.current = .timer i :: rest) (inside : i < PROCESS_LIMIT) :
    ∃ k', k.runFrame = some (k', .nothing) ∧ k'.table = (tickRound k.table i).1 ∧
      k'.kstack k.current = if (tickRound k.table i).2 then
        .send i SIGALRM :: .timer (i + 1) :: rest else .timer (i + 1) :: rest := by
  unfold runFrame
  rw [top]
  simp only [not_le.2 inside, if_false, live, tickRound, not_isSome]
  by_cases free : (k.table i).task.isNone = true
  · simp only [free, if_true]
    exact ⟨_, rfl, rfl, by simp [setStack]⟩
  · simp only [free]
    exact ⟨_, rfl, funext fun j => by simp [setStack, set, update_apply],
      by simp [setStack, set]⟩

variable {table : Nat → ProcessEntry} {p : Nat} {yields : Nat → Bool} {is : List Nat}

theorem tickRound_other (table : Nat → ProcessEntry) {i : Nat} (ne : i ≠ p) :
    (tickRound table i).1 p = table p := by
  unfold tickRound
  split
  · rfl
  · exact update_of_ne ne.symm _ _

theorem tickRound_own (live : (table p).task.isSome = true) :
    (tickRound table p).2 = (table p).timer.tick.2 ∧
      (tickRound table p).1 p = { table p with timer := (table p).timer.tick.1 } := by
  unfold tickRound
  rw [if_neg (by simpa [isSome_iff_ne_none] using live)]
  exact ⟨rfl, update_self ..⟩

theorem tickRound_congr {table' : Nat → ProcessEntry} (same : table' p = table p) :
    (tickRound table' p).2 = (tickRound table p).2 := by
  unfold tickRound
  rw [same]
  split <;> rfl

theorem tickLoop_other (table : Nat → ProcessEntry) (absent : p ∉ is) :
    (tickLoop yields is table).1 p = table p ∧ p ∉ (tickLoop yields is table).2.1 := by
  induction is generalizing table with
  | nil => simp [tickLoop]
  | cons i is ih =>
    obtain ⟨ne, rest⟩ := ne_and_not_mem_of_not_mem_cons absent
    have same := tickRound_other table ne.symm
    have later := ih (tickRound table i).1 rest
    simp only [tickLoop]
    split_ifs
    · exact ⟨same, by simpa using ne⟩
    · exact ⟨later.1.trans same, by simpa using ⟨ne, later.2⟩⟩
    · exact ⟨later.1.trans same, later.2⟩

/-- A process that the loop comes to has its timer ticked once, and is signalled if it is out. -/
theorem tickLoop_own (nodup : is.Nodup) (mem : p ∈ is) (live : (table p).task.isSome = true)
    (reached : p ∉ (tickLoop yields is table).2.2) :
    (tickLoop yields is table).1 p = { table p with timer := (table p).timer.tick.1 } ∧
      (p ∈ (tickLoop yields is table).2.1 ↔ (table p).timer.tick.2 = true) := by
  induction is generalizing table with
  | nil => cases mem
  | cons i is ih =>
    obtain ⟨new, nodup⟩ := nodup_cons.1 nodup
    simp only [tickLoop] at reached ⊢
    by_cases first : i = p
    · subst first
      obtain ⟨out, own⟩ := tickRound_own live
      have others := @tickLoop_other i yields is (tickRound table i).1 new
      rw [← out, ← own]
      split_ifs with fires gives
      · simp [fires]
      · simp [fires, others.1]
      · simp [fires, others]
    · have same := tickRound_other table first
      have rest : p ∈ is := (mem_cons.1 mem).resolve_left (Ne.symm first)
      rw [← same] at live
      have later := @ih (tickRound table i).1 nodup rest live
      rw [same] at later
      split_ifs at reached ⊢ with fires gives
      · exact absurd rest reached
      · simpa [Ne.symm first] using later reached
      · exact later reached

/-- The loop of a tick leaves no process behind that comes before everyone who makes the task give
way. -/
theorem tickLoop_reaches (sorted : is.Pairwise (· < ·))
    (stays : ∀ i ∈ is, i < p → (tickRound table i).2 = true → yields i = false) :
    p ∉ (tickLoop yields is table).2.2 := by
  induction is generalizing table with
  | nil => exact not_mem_nil
  | cons i is ih =>
    obtain ⟨above, sorted⟩ := pairwise_cons.1 sorted
    have later : p ∉ (tickLoop yields is (tickRound table i).1).2.2 := by
      refine ih sorted fun j mem below => ?_
      rw [tickRound_congr (tickRound_other table (above j mem).ne)]
      exact stays j (mem_cons_of_mem i mem) below
    simp only [tickLoop]
    split_ifs with fires gives
    · intro rest
      have kept := stays i mem_cons_self (above p rest) fires
      rw [gives] at kept
      cases kept
    · exact later
    · exact later

namespace Kernel

/-- A loop that was cut short is still to come to process `p`. -/
def OwesRound (k : Kernel) (p : Nat) : Prop := ∃ task i, i ≤ p ∧ Frame.timer i ∈ k.kstack task

/-- A tick now comes to process `p`, once: no process before it makes the interrupted task give
way, and no earlier loop is still to come to it. -/
structure TicksOnce (k : Kernel) (p : Nat) : Prop where
  reached : ∀ i < p, (tickRound k.table i).2 = true → k.alarmYields i = false
  settled : ¬k.OwesRound p

end Kernel

/-- The ticks from some moment on, as far as process `p` is concerned. In between everything may
change, but the process lives and does not set its timer; that is ticked as well by loops that were
cut short and go on late. -/
structure TickRun (p : Nat) where
  before : Nat → Kernel
  late : Nat → Nat
  live : ∀ n, (before n).live p = true
  owed : ∀ n, late n ≠ 0 → p ∈ (before n).taskTimerTick.2.2 ∨ (before n).OwesRound p
  next : ∀ n, ((before (n + 1)).table p).timer =
    (fun t : ITimer => t.tick.1)^[late n] ((before n).taskTimerTick.1 p).timer

namespace TickRun

/-- Process `p` is sent `SIGALRM` at the `n`-th tick. -/
def Signals (run : TickRun p) (n : Nat) : Prop := p ∈ (run.before n).taskTimerTick.2.1

/-- Every tick comes to the process once. -/
def Steady (run : TickRun p) : Prop := ∀ n, (run.before n).TicksOnce p

/-- The timer when the `n`-th tick comes. -/
def timer (run : TickRun p) (n : Nat) : ITimer := ((run.before n).table p).timer

section

variable (run : TickRun p) (small : p < PROCESS_LIMIT) (steady : run.Steady)
include small steady

theorem step (n : Nat) : run.timer (n + 1) = (run.timer n).tick.1 ∧
    (run.Signals n ↔ (run.timer n).tick.2 = true) := by
  have reached : p ∉ (run.before n).taskTimerTick.2.2 :=
    tickLoop_reaches pairwise_lt_range fun i _ => (steady n).reached i
  have onTime : run.late n = 0 := by
    by_contra late
    exact (run.owed n late).elim reached (steady n).settled
  have own := tickLoop_own nodup_range (mem_range.2 small) (run.live n) reached
  refine ⟨?_, own.2⟩
  unfold timer
  rw [run.next n, onTime]
  exact congrArg ProcessEntry.timer own.1

/-- Whole milliseconds stay so, and what is due stays so. -/
theorem accurate (valid : (run.timer 0).Valid) (whole : (run.timer 0).Whole) (n : Nat) :
    (run.timer n).Valid ∧ (run.timer n).Whole ∧
      ∀ m, 0 < m → ((run.timer n).Due m ↔ (run.timer 0).Due (n + m)) := by
  induction n with
  | zero => exact ⟨valid, whole, fun m _ => by rw [zero_add]⟩
  | succ n ih =>
    obtain ⟨valid, whole, due⟩ := ih
    obtain ⟨-, valid', whole', next⟩ := tick_due valid whole
    rw [(run.step small steady n).1]
    refine ⟨valid', whole', fun m later => ?_⟩
    rw [next m later, due (m + 1) (by omega), show n + 1 + m = n + (m + 1) by omega]

/-- When whole milliseconds have run out, the timer is at its interval. -/
theorem reaches {n : Nat} {t : ITimer} (start : run.timer n = t) (valid : t.Valid)
    (even : t.usec % 1000 = 0) (left : t.millis ≠ 0) : run.timer (n + t.millis) = t.again := by
  have next := (run.step small steady n).1
  rw [start] at next
  induction ticks : t.millis generalizing n t with
  | zero => exact absurd ticks left
  | succ m ih =>
    rcases tick_cases valid even with ⟨off, -⟩ | ⟨_, eq⟩ |
      ⟨t', eq, valid', even', same, left', less⟩
    · exact absurd off left
    · rw [eq] at next
      rwa [show m = 0 by omega]
    · have next : run.timer (n + 1) = t' := by rw [next, eq]
      have later := ih next valid' even' (by omega)
        ((run.step small steady (n + 1)).1.trans (by rw [next])) (by omega)
      rwa [same, show n + 1 + m = n + (m + 1) by omega] at later

/-- A timer that is not of whole milliseconds signals no more. -/
theorem silent {n : Nat} (odd : (run.timer n).usec % 1000 ≠ 0)
    (range : (run.timer n).usec < 1000000) (m : Nat) :
    ¬run.Signals (n + m) ∧ (run.timer (n + m)).usec % 1000 ≠ 0 ∧
      (run.timer (n + m)).usec < 1000000 := by
  induction m with
  | zero => exact ⟨by simp [(run.step small steady n).2, (tick_stuck odd range).1], odd, range⟩
  | succ m ih =>
    obtain ⟨-, still⟩ := tick_stuck ih.2.1 ih.2.2
    rw [← (run.step small steady (n + m)).1] at still
    refine ⟨?_, still⟩
    rw [← add_assoc, (run.step small steady _).2, (tick_stuck still.1 still.2).1]
    nofun

end

end TickRun

/-- Process `p` has this timer, and there is no other but the kernel task, which runs. -/
def Kernel.timed (p : Nat) (timer : ITimer) : Kernel :=
  let k := Kernel.boot ⟨0, fun _ => 0, false, 0⟩
  k.set p { k.table p with task := some ⟨0⟩, timer }

theorem Kernel.timed_ticksOnce (p : Nat) (timer : ITimer) : (Kernel.timed p timer).TicksOnce p where
  reached i below fires := by
    have other : (Kernel.timed p timer).table i = (Kernel.boot ⟨0, fun _ => 0, false, 0⟩).table i :=
      if_neg below.ne
    rw [tickRound, other] at fires
    split at fires <;> cases fires
  settled := by
    rintro ⟨task, i, -, pending⟩
    cases pending

namespace TickRun

theorem timed_next (small : p < PROCESS_LIMIT) (timer : ITimer) :
    ((Kernel.timed p timer).taskTimerTick.1 p).timer = timer.tick.1 := by
  have own : (Kernel.timed p timer).table p = _ := if_pos rfl
  have reached : p ∉ (Kernel.timed p timer).taskTimerTick.2.2 :=
    tickLoop_reaches pairwise_lt_range fun i _ => (Kernel.timed_ticksOnce p timer).reached i
  have ticked := tickLoop_own nodup_range (mem_range.2 small) (by rw [own]; rfl) reached
  rw [own] at ticked
  exact congrArg ProcessEntry.timer ticked.1

/-- Only process `p` has a timer, and nothing comes in between. -/
def alone (small : p < PROCESS_LIMIT) (timer : ITimer) : TickRun p where
  before n := Kernel.timed p ((fun t : ITimer => t.tick.1)^[n] timer)
  late _ := 0
  live _ := by simp [Kernel.timed, Kernel.live, Kernel.set]
  owed _ late := absurd rfl late
  next n := by
    rw [iterate_zero, id, timed_next small, iterate_succ_apply']
    simp [Kernel.timed, Kernel.set]

theorem alone_steady (small : p < PROCESS_LIMIT) (timer : ITimer) : (alone small timer).Steady :=
  fun _ => Kernel.timed_ticksOnce p _

theorem alone_timer (small : p < PROCESS_LIMIT) (timer : ITimer) :
    (alone small timer).timer 0 = timer := by
  simp [TickRun.timer, alone, Kernel.timed, Kernel.set]

end TickRun

/-- From the moment it sets its timer on, a process is sent `SIGALRM` at exactly the ticks at which
this is due, in every run whose ticks come to it once, if and only if both times are whole
milliseconds. -/
theorem alarm_ticks_iff {k k' : Kernel} {new : ITimer} {reply : Reply}
    (set : k.syscall (.setitimer new) = some (k', reply)) (valid : new.Valid)
    (positive : 0 < new.sec ∨ 0 < new.usec) (small : k.current < PROCESS_LIMIT) :
    (∀ run : TickRun k.current, run.timer 0 = (k'.table k.current).timer → run.Steady →
      ∀ n, run.Signals n ↔ new.Due (n + 1)) ↔ new.Whole := by
  obtain ⟨rfl, -⟩ := Prod.mk.inj (Option.some.inj set)
  have timer : ((k.set k.current { k.table k.current with timer := new }).table k.current).timer =
      new := by simp [Kernel.set]
  rw [timer]
  constructor
  case mp =>
    intro exact
    have steady := TickRun.alone_steady small new
    have start := TickRun.alone_timer small new
    generalize TickRun.alone small new = run at steady start
    by_contra broken
    have some : new.millis ≠ 0 := by unfold ITimer.millis; omega
    have due : run.Signals (new.millis - 1) :=
      (exact run start steady _).2 ⟨some, .inl (by omega)⟩
    by_cases even : new.usec % 1000 = 0
    · have odd : new.again.usec % 1000 ≠ 0 := fun whole => broken ⟨even, whole⟩
      have interval : new.again.millis ≠ 0 := by
        unfold ITimer.millis
        omega
      have again := run.reaches small steady start valid even some
      rw [Nat.zero_add] at again
      have quiet := (run.silent small steady (again ▸ odd) (again ▸ valid.intervalUsec)
        (new.again.millis - 1)).1
      refine quiet ((exact run start steady _).2 ⟨some, .inr ⟨interval, by omega, ?_⟩⟩)
      rw [show new.millis + (new.again.millis - 1) + 1 - new.millis = new.again.millis by omega]
      exact Nat.mod_self _
    · have quiet := (run.silent small steady (start ▸ even) (start ▸ valid.usec)
        (new.millis - 1)).1
      exact quiet (by rwa [Nat.zero_add])
  case mpr =>
    rintro whole run rfl steady n
    have here := run.accurate small steady valid whole n
    rw [(run.step small steady n).2, (ITimer.tick_due here.1 here.2.1).1, here.2.2 1 (by decide)]

/-- A second, and half a second again and again. -/
theorem alarm_ticks_iff_seconds : ∃ run : TickRun 1, run.timer 0 = ⟨1, 0, 0, 500000⟩ ∧
    run.Steady ∧ ∀ n, run.Signals n ↔ (⟨1, 0, 0, 500000⟩ : ITimer).Due (n + 1) := by
  have small : 1 < PROCESS_LIMIT := by decide
  have start := TickRun.alone_timer small ⟨1, 0, 0, 500000⟩
  have steady := TickRun.alone_steady small ⟨1, 0, 0, 500000⟩
  have accurate := (@alarm_ticks_iff { Kernel.timed 1 ⟨0, 0, 0, 0⟩ with current := 1 } _
    ⟨1, 0, 0, 500000⟩ _ rfl ⟨by decide, by decide, by decide, by decide⟩ (.inl (by decide))
    small).2 ⟨by decide, by decide⟩
  exact ⟨_, start, steady, accurate _ start steady⟩

/-- A timer of one and a half milliseconds is due at the second tick and never signalled. -/
theorem short_timer_never_signals : ∃ run : TickRun 1, run.timer 0 = ⟨0, 1500, 0, 0⟩ ∧
    run.Steady ∧ (⟨0, 1500, 0, 0⟩ : ITimer).Due 2 ∧ ∀ n, ¬run.Signals n := by
  have small : 1 < PROCESS_LIMIT := by decide
  have start := TickRun.alone_timer small ⟨0, 1500, 0, 0⟩
  refine ⟨_, start, TickRun.alone_steady small _, ⟨by decide, .inl (by decide)⟩, fun n => ?_⟩
  have quiet := (TickRun.silent _ small (TickRun.alone_steady small ⟨0, 1500, 0, 0⟩)
    (by rw [start]; decide) (by rw [start]; decide) n).1
  rwa [Nat.zero_add] at quiet

end Os0
