import Mathlib.Algebra.Group.Int.Defs
import Mathlib.Algebra.GroupWithZero.Nat
import Os0.Errno
import Os0.Lib.Runs

/-! The clock of `arch/i386/timer.c`, `arch/i386/rtc.c` and `uapi/time.c`: a tick counter and a
seconds counter, both advanced by the timer interrupt, and a call that reads one after the other.
A tick may come between any two steps. -/
namespace Os0

inductive ClockId
  | realtime
  | monotonic
  | other (id : Int)

/-- `struct timespec`. -/
structure Timespec where
  tvSec : Int
  tvNsec : Nat
  deriving DecidableEq

/-- Lexicographic order. -/
def Timespec.NotAfter (a b : Timespec) : Prop :=
  a.tvSec < b.tvSec ∨ a.tvSec = b.tvSec ∧ a.tvNsec ≤ b.tvNsec

instance (a b : Timespec) : Decidable (a.NotAfter b) := inferInstanceAs (Decidable (_ ∨ _))

theorem Timespec.NotAfter.trans {a b c : Timespec} (first : a.NotAfter b) (rest : b.NotAfter c) :
    a.NotAfter c := by
  unfold Timespec.NotAfter at *
  omega

/-- `tick`, `rtc_time` and the channel 0 entry of `timer_freq`. -/
structure Clock where
  tick : Nat
  rtcTime : Int
  timerFreq : Nat
  tick_lt : tick < 2 ^ 32

namespace Clock

/-- The value of `++tick`, an `unsigned long`. -/
def nextTick (c : Clock) : Nat := (c.tick + 1) % 2 ^ 32

variable (c : Clock)

theorem nextTick_lt : c.nextTick < 2 ^ 32 := Nat.mod_lt _ (by decide)

/-- The next tick is one that counts a second. -/
def secondDue (c : Clock) : Bool := c.nextTick % c.timerFreq == 0

/-- `rtc_time++`, an `int64_t`. -/
def nextSecond (c : Clock) : Int := if c.rtcTime = 2 ^ 63 - 1 then -2 ^ 63 else c.rtcTime + 1

/-- `timer_tick`, without the scheduler's part in it. -/
def timerTick (c : Clock) : Clock :=
  if c.secondDue then
    { c with tick := c.nextTick, tick_lt := c.nextTick_lt, rtcTime := c.nextSecond }
  else { c with tick := c.nextTick, tick_lt := c.nextTick_lt }

def time (c : Clock) : Int := c.rtcTime

def timerGetRemMs (c : Clock) : Nat := c.tick % 1000

/-- What `sys_clock_gettime` stores in `tv_nsec`. -/
def remNs (c : Clock) : Nat := c.timerGetRemMs * 1000000 % 2 ^ 32

/-- What a call returns that no tick interrupts. -/
def now (c : Clock) : Timespec := ⟨c.time, c.remNs⟩

theorem remNs_eq : c.remNs = c.tick % 1000 * 1000000 := by
  unfold remNs timerGetRemMs
  omega

theorem timerTick_freq : c.timerTick.timerFreq = c.timerFreq := by
  unfold timerTick
  split <;> rfl

theorem timerTick_quiet {c : Clock} (quiet : c.secondDue = false) :
    c.timerTick.rtcTime = c.rtcTime := by
  simp [timerTick, quiet]

/-- A tick moves the time it shows forward, also where the tick counter wraps around: zero is
a multiple of the frequency, so a second is counted there. -/
theorem now_timerTick {c : Clock} (freq : c.timerFreq = 1000)
    (room : c.secondDue = true → c.rtcTime < 2 ^ 63 - 1) : c.now.NotAfter c.timerTick.now := by
  unfold timerTick
  cases due : c.secondDue with
  | true =>
    have := room due
    left
    simp only [now, time, nextSecond, if_true]
    omega
  | false =>
    right
    simp only [secondDue, freq, beq_eq_false_iff_ne] at due
    have unwrapped : c.nextTick = c.tick + 1 := by
      have := c.tick_lt
      unfold nextTick at *
      omega
    simp only [now, time, remNs_eq, unwrapped, Bool.false_eq_true, if_false, true_and] at due ⊢
    omega

end Clock

/-- A process at the clock: the seconds a call under way has read, and what the calls so far
returned, the latest first. -/
structure ClockUser where
  clock : Clock
  call : Option Int
  returned : List Timespec

namespace ClockUser

inductive Event
  | tick
  -- the first statement of `sys_clock_gettime`
  | readSeconds (id : ClockId)
  -- the second one, and the return
  | readNanoseconds

/-- What the first statement leaves in `tp`; a clock that does not exist is an error. -/
def sysClockGettime (c : Clock) : ClockId → Except Errno Int
  | .realtime => .ok c.time
  | .monotonic => .ok c.time
  | .other _ => .error .EINVAL

def step (u : ClockUser) : Event → Option ClockUser
  | .tick => some { u with clock := u.clock.timerTick }
  | .readSeconds id =>
    match u.call with
    | some _ => none
    | none =>
      match sysClockGettime u.clock id with
      | .error _ => some u
      | .ok seconds => some { u with call := some seconds }
  | .readNanoseconds =>
    match u.call with
    | none => none
    | some seconds =>
      some { u with call := none, returned := ⟨seconds, u.clock.remNs⟩ :: u.returned }

/-- A tick that counts a second does not come between the two reads of a call, and the seconds
counter has room for it. -/
def Undivided (u : ClockUser) : Event → Prop
  | .tick => u.clock.secondDue = true → u.call = none ∧ u.clock.rtcTime < 2 ^ 63 - 1
  | _ => True

instance (u : ClockUser) (e : Event) : Decidable (u.Undivided e) := by
  cases e <;> unfold Undivided <;> infer_instance

/-- A process that has made no call yet. -/
def start (c : Clock) : ClockUser := ⟨c, none, []⟩

/-- What the calls returned is in order and not after the present time, and a call under way has
the present seconds. -/
structure InOrder (u : ClockUser) : Prop where
  freq : u.clock.timerFreq = 1000
  call : ∀ seconds, u.call = some seconds → seconds = u.clock.rtcTime
  past : ∀ t ∈ u.returned, t.NotAfter u.clock.now
  sorted : u.returned.Pairwise fun later earlier => earlier.NotAfter later

variable {u : ClockUser}

theorem inOrder_tick (h : u.InOrder) (ok : u.Undivided .tick) :
    InOrder { u with clock := u.clock.timerTick } := by
  have forward := Clock.now_timerTick h.freq fun due => (ok due).2
  constructor
  case freq => exact (Clock.timerTick_freq _).trans h.freq
  case call =>
    intro seconds reading
    cases due : u.clock.secondDue with
    | true =>
      rw [(ok due).1] at reading
      cases reading
    | false => exact (h.call seconds reading).trans (Clock.timerTick_quiet due).symm
  case past =>
    intro t mem
    exact (h.past t mem).trans forward
  case sorted => exact h.sorted

theorem inOrder_return (h : u.InOrder) {seconds : Int} (reading : u.call = some seconds) :
    InOrder { u with call := none, returned := ⟨seconds, u.clock.remNs⟩ :: u.returned } := by
  have present : (⟨seconds, u.clock.remNs⟩ : Timespec) = u.clock.now := by
    rw [h.call seconds reading]
    rfl
  constructor
  case freq => exact h.freq
  case call =>
    intro _ none
    cases none
  case past =>
    rw [present]
    intro t mem
    cases mem with
    | head => exact .inr ⟨rfl, Nat.le_refl _⟩
    | tail _ mem => exact h.past t mem
  case sorted =>
    rw [present]
    exact List.pairwise_cons.2 ⟨h.past, h.sorted⟩

theorem step_inOrder {v : ClockUser} {e : Event} (h : u.InOrder) (ok : u.Undivided e)
    (step : u.step e = some v) : v.InOrder := by
  cases e with
  | tick =>
    cases step
    exact inOrder_tick h ok
  | readSeconds id =>
    cases reading : u.call with
    | some => simp [ClockUser.step, reading] at step
    | none =>
      have call : ∀ seconds, some u.clock.time = some seconds → seconds = u.clock.rtcTime := by
        rintro _ ⟨⟩
        rfl
      cases id <;> simp only [ClockUser.step, reading, sysClockGettime] at step <;> cases step
      · exact { h with call }
      · exact { h with call }
      · exact h
  | readNanoseconds =>
    cases reading : u.call with
    | none => simp [ClockUser.step, reading] at step
    | some seconds =>
      simp only [ClockUser.step, reading] at step
      cases step
      exact inOrder_return h reading

/-- Whatever the counters start from, the times that one call after the other returns never go
back, as long as no second is counted between the two reads of a call. -/
theorem clock_never_back {c : Clock} (freq : c.timerFreq = 1000) {events : List Event}
    {u : ClockUser}
    (run : Runs.Run (Runs.Guarded Undivided (Runs.partialGraph step)) (start c) events u) :
    u.returned.Pairwise fun later earlier => earlier.NotAfter later := by
  have begun : InOrder (start c) := by
    constructor
    case freq => exact freq
    all_goals simp [start]
  exact (run.invariant (I := InOrder) (fun _ _ _ inv h => step_inOrder inv h.1 h.2) begun).sorted

/-- Two calls around the end of the first second, the tick that ends it between them. -/
theorem clock_never_back_second :
    ∃ u, Runs.Run (Runs.Guarded Undivided (Runs.partialGraph step)) (start ⟨999, 0, 1000, by decide⟩)
        [.readSeconds .realtime, .readNanoseconds, .tick, .readSeconds .realtime,
          .readNanoseconds] u ∧
      u.returned = [⟨1, 0⟩, ⟨0, 999000000⟩] ∧
      u.returned.Pairwise fun later earlier => earlier.NotAfter later := by
  have run := @Runs.run_of_exec _ _ (fun u e => decide (Undivided u e)) step
    (start ⟨999, 0, 1000, by decide⟩) _
    [.readSeconds .realtime, .readNanoseconds, .tick, .readSeconds .realtime, .readNanoseconds] rfl
  simp only [decide_eq_true_eq] at run
  exact ⟨_, run, rfl, clock_never_back rfl run⟩

/-- The second of two calls reads the seconds, then a tick counts the next one, then the call
reads a remainder of zero: it returns a time almost a second before the first call's. -/
theorem clock_back_at_second :
    ∃ u, Runs.Run (Runs.partialGraph step) (start ⟨999, 0, 1000, by decide⟩)
        [.readSeconds .realtime, .readNanoseconds, .readSeconds .realtime, .tick,
          .readNanoseconds] u ∧
      u.returned = [⟨0, 0⟩, ⟨0, 999000000⟩] ∧
      ¬u.returned.Pairwise fun later earlier => earlier.NotAfter later := by
  refine ⟨_, .cons rfl (.cons rfl (.cons rfl (.cons rfl (.cons rfl (.nil _))))), rfl, ?_⟩
  decide

end ClockUser

/-! ## The time at boot -/

/-- `dpm`, the days of each month. -/
def dpm : List Nat := [31, 28, 31, 30, 31, 30, 31, 31, 30, 31, 30, 31]

/-- The clock registers that `rtc_init` reads. -/
structure CmosClock where
  (second minute hour dom month year bstat : Nat)

namespace CmosClock

/-- The value of a register. -/
def read (bcd : Bool) (x : Nat) : Nat := if bcd then (x &&& 0x0f) + (x >>> 4) * 10 else x

/-- The value of the register of the hour. -/
def readHour (bcd twelve : Bool) (x : Nat) : Nat :=
  let hour := if bcd then (x &&& 0x0f) + ((x &&& 0x70) >>> 4) * 10 ||| x &&& 0x80 else x
  if twelve ∧ hour &&& 0x80 ≠ 0 then ((hour &&& 0x7f) + 12) % 24 else hour

/-- `rtc_time` after `rtc_init`, from registers that do not change. `doy` is an `unsigned char`,
and the sum is made in an `int`, which is taken to wrap. -/
def rtcInit (r : CmosClock) : Int :=
  let bcd : Bool := r.bstat &&& 0x04 = 0
  let posixYear := read bcd r.year + 100
  let doy := (read bcd r.dom + 255 + (dpm.take (read bcd r.month - 1)).sum) % 256
  Int.bmod (read bcd r.second + read bcd r.minute * 60 +
    readHour bcd (r.bstat &&& 0x02 = 0) r.hour * 3600 + doy * 86400 +
    (posixYear - 70) * 31536000 + ((posixYear - 69) / 4 : Nat) * 86000 -
    ((posixYear - 1) / 100 : Nat) * 86400 + ((posixYear + 299) / 400 : Nat) * 86400) 4294967296

end CmosClock

def leapYear (year : Nat) : Bool := year % 4 = 0 ∧ (year % 100 ≠ 0 ∨ year % 400 = 0)

/-- The days of the months of a year of the Gregorian calendar. -/
def monthDays (year : Nat) : List Nat := dpm.set 1 (if leapYear year then 29 else 28)

/-- A time of the years from 2000 to 2099. Months and days count from 0. -/
structure CivilTime where
  year : Fin 100
  month : Fin 12
  day : Nat
  hour : Fin 24
  (minute second : Fin 60)
  day_lt : day < (monthDays (2000 + year)).getD month 0

namespace CivilTime

/-- The seconds since the start of 1970. -/
def seconds (t : CivilTime) : Int :=
  (((List.range (30 + t.year)).map fun y => (monthDays (1970 + y)).sum).sum +
    ((monthDays (2000 + t.year)).take t.month).sum + t.day : Nat) * 86400 +
    t.hour * 3600 + t.minute * 60 + t.second

def write (bcd : Bool) (x : Nat) : Nat := if bcd then x / 10 * 16 + x % 10 else x

def writeHour (bcd twelve : Bool) (hour : Nat) : Nat :=
  if twelve then write bcd ((hour + 11) % 12 + 1) + (if 12 ≤ hour then 0x80 else 0)
  else write bcd hour

/-- The registers at a time, in the formats that `bstat` gives. -/
def registers (t : CivilTime) (bstat : Nat) : CmosClock :=
  let bcd : Bool := bstat &&& 0x04 = 0
  { second := write bcd t.second
    minute := write bcd t.minute
    hour := writeHour bcd (bstat &&& 0x02 = 0) t.hour
    dom := write bcd (t.day + 1)
    month := write bcd (t.month + 1)
    year := write bcd t.year
    bstat }

open CmosClock

theorem read_write (bcd : Bool) {x : Nat} (lt : x < 100) : read bcd (write bcd x) = x := by
  revert x bcd
  decide

/-- Noon and midnight come out as each other with a 12-hour clock. -/
theorem readHour_writeHour : ∀ (bcd twelve : Bool) (hour : Fin 24),
    readHour bcd twelve (writeHour bcd twelve hour) = hour ∨
      readHour bcd twelve (writeHour bcd twelve hour) + 12 = hour ∨
      readHour bcd twelve (writeHour bcd twelve hour) = hour + 12 := by
  decide

theorem years_days : ∀ y : Fin 100, ((List.range (30 + y)).map fun y =>
    (monthDays (1970 + y)).sum).sum = 365 * (30 + y) + (31 + y) / 4 := by
  decide +kernel

theorem months_days : ∀ (y : Fin 100) (month : Fin 12), (monthDays (2000 + y)).getD month 0 < 32 ∧
    ((dpm.take month).sum = ((monthDays (2000 + y)).take month).sum ∨
      (dpm.take month).sum + 1 = ((monthDays (2000 + y)).take month).sum) ∧
    (dpm.take month).sum < 335 := by
  decide +kernel

/-- A sum that is off by less than a word stays wrong when it wraps. -/
theorem bmod_ne_of_near {x t : Int} (ne : x ≠ t) (low : t < x + 4294967296)
    (high : x < t + 4294967296) : x.bmod 4294967296 ≠ t := by
  have wraps := Int.bmod_add_bdiv x 4294967296
  omega

/-- The time at boot is never right: each leap day of the years before counts 400 seconds less. -/
theorem rtc_init_wrong (t : CivilTime) (bstat : Nat) : (t.registers bstat).rtcInit ≠ t.seconds := by
  obtain ⟨short, leap, low⟩ := months_days t.year t.month
  have day := t.day_lt
  have years := years_days t.year
  unfold rtcInit registers seconds
  dsimp only
  generalize decide (bstat &&& 0x04 = 0) = bcd
  generalize decide (bstat &&& 0x02 = 0) = twelve
  have hour := readHour_writeHour bcd twelve t.hour
  rw [read_write bcd (by omega), read_write bcd (by omega), read_write bcd (by omega),
    read_write bcd (by omega), read_write bcd (by omega), Nat.add_sub_cancel, years]
  apply bmod_ne_of_near
  · omega
  · omega
  · omega

/-- The first second of 2000, on a binary 24-hour clock. -/
theorem rtc_init_behind :
    ¬∀ (t : CivilTime) (bstat : Nat), (t.registers bstat).rtcInit = t.seconds :=
  fun claim => absurd (claim ⟨0, 0, 0, 0, 0, 0, by decide⟩ 6) (by decide)

end CivilTime

end Os0
