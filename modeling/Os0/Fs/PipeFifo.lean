import Os0.Fs.Pipe
import Os0.Lib.Runs
import Os0.Lib.Slice

/-! Reading and writing a pipe (`pipe_read` and `pipe_write` in `fs/pipe.c`). System calls
run with interrupts enabled, so other processes go on while a call waits in its loop, and
between the copying of the bytes and the update of the index that belongs to it. -/
namespace Os0

open Bytes Slice Function List

/-- Where a process is in its call. -/
inductive PipeStage
  | idle
  /-- In the loop of `pipe_read`. -/
  | reading (len : Nat)
  /-- Before the `memcpy` of `pipe_read`. -/
  | copyOut (len : Nat)
  /-- Before `p_readptr += len`. -/
  | copied (bytes : List UInt8)
  /-- In the loop of `pipe_write`. -/
  | waiting (bytes : List UInt8)
  /-- Before the `memmove` of `pipe_write`. -/
  | compacting (bytes : List UInt8)
  /-- Before the `memcpy` of `pipe_write`. -/
  | copyIn (bytes : List UInt8)
  /-- Before `p_writeptr += len`. -/
  | stored (bytes : List UInt8)
  deriving DecidableEq, Repr

structure PipeState where
  pipe : Pipe
  stage : Nat → PipeStage
  /-- The bytes of all writes that have returned. -/
  written : List UInt8
  /-- The bytes of all reads that have returned. -/
  got : List UInt8
  /-- Whether an index behind the buffer was used. -/
  outside : Bool

inductive PipeAct
  | read (len : UInt32)
  | write (bytes : List UInt8)
  /-- Go on with the call. -/
  | go
  | close (writeEnd : Bool)

namespace PipeState

def empty : PipeState := ⟨.zero, fun _ => .idle, [], [], false⟩

def setStage (s : PipeState) (p : Nat) (stage : PipeStage) : PipeState :=
  { s with stage := Function.update s.stage p stage }

/-- Enter `pipe_read`. -/
def startRead (s : PipeState) (p len : Nat) : PipeState :=
  if s.pipe.dataEnd then s else s.setStage p (.reading len)

/-- The test of the loop of `pipe_read`. -/
def testRead (s : PipeState) (p len : Nat) : PipeState :=
  if s.pipe.writeptr < add32 s.pipe.readptr len then
    if s.pipe.writeClosed then
      { s with pipe := { s.pipe with dataEnd := true } }.setStage p
        (.copyOut (sub32 s.pipe.writeptr s.pipe.readptr))
    else s
  else s.setStage p (.copyOut len)

/-- The `memcpy` of `pipe_read`. -/
def copyOut (s : PipeState) (p len : Nat) : PipeState :=
  { s with outside := s.outside || decide (0 < len ∧ PIPE_LENGTH < s.pipe.readptr + len) }.setStage p
    (.copied (slice s.pipe.data s.pipe.readptr len))

/-- The end of `pipe_read`. -/
def endRead (s : PipeState) (p : Nat) (bytes : List UInt8) : PipeState :=
  { s with
    pipe := { s.pipe with readptr := add32 s.pipe.readptr bytes.length }
    got := s.got ++ bytes }.setStage p .idle

/-- Enter `pipe_write`. -/
def startWrite (s : PipeState) (p : Nat) (bytes : List UInt8) : PipeState :=
  if s.pipe.readClosed then s
  else if PIPE_LENGTH < add32 s.pipe.writeptr bytes.length then s.setStage p (.waiting bytes)
  else s.setStage p (.copyIn bytes)

/-- The test of the loop of `pipe_write`. -/
def testWrite (s : PipeState) (p : Nat) (bytes : List UInt8) : PipeState :=
  if s.pipe.readptr < sub32 PIPE_LENGTH s.pipe.writeptr then
    if s.pipe.readClosed then s.setStage p .idle else s
  else s.setStage p (.compacting bytes)

/-- The unread bytes are moved to the start of the buffer. -/
def compact (s : PipeState) (p : Nat) (bytes : List UInt8) : PipeState :=
  let r := s.pipe.readptr
  let n := sub32 PIPE_LENGTH r
  { s with
    pipe := { s.pipe with
      data := fun i => if i < n then s.pipe.data (r + i) else s.pipe.data i
      writeptr := sub32 s.pipe.writeptr r
      readptr := 0 }
    outside := s.outside || decide (PIPE_LENGTH < r) }.setStage p (.copyIn bytes)

/-- The `memcpy` of `pipe_write`. -/
def copyIn (s : PipeState) (p : Nat) (bytes : List UInt8) : PipeState :=
  { s with
    pipe := { s.pipe with data := store s.pipe.data s.pipe.writeptr bytes }
    outside := s.outside ||
      decide (0 < bytes.length ∧ PIPE_LENGTH < s.pipe.writeptr + bytes.length) }.setStage p
    (.stored bytes)

/-- The end of `pipe_write`. -/
def endWrite (s : PipeState) (p : Nat) (bytes : List UInt8) : PipeState :=
  { s with
    pipe := { s.pipe with writeptr := add32 s.pipe.writeptr bytes.length }
    written := s.written ++ bytes }.setStage p .idle

/-- Go on with a call. -/
def go (s : PipeState) (p : Nat) : PipeState :=
  match s.stage p with
  | .idle => s
  | .reading len => s.testRead p len
  | .copyOut len => s.copyOut p len
  | .copied bytes => s.endRead p bytes
  | .waiting bytes => s.testWrite p bytes
  | .compacting bytes => s.compact p bytes
  | .copyIn bytes => s.copyIn p bytes
  | .stored bytes => s.endWrite p bytes

end PipeState

/-- A step of process `p`, or the end of the last descriptor of an end. A process makes one call
at a time. -/
def pipeStep (s : PipeState) (act : Nat × PipeAct) : Option PipeState :=
  let (p, act) := act
  match act with
  | .read len => if s.stage p = .idle then some (s.startRead p len.toNat) else none
  | .write bytes =>
    if s.stage p = .idle ∧ bytes.length < 4294967296 then some (s.startWrite p bytes) else none
  | .go => some (s.go p)
  | .close writeEnd => some { s with pipe := s.pipe.close writeEnd }

/-- A read that has left its loop. -/
def PipeStage.holdsRead : PipeStage → Bool
  | .copyOut _ | .copied _ => true
  | _ => false

/-- A write that has left its loop. -/
def PipeStage.holdsWrite : PipeStage → Bool
  | .compacting _ | .copyIn _ | .stored _ => true
  | _ => false

namespace PipeState

def NoReader (s : PipeState) : Prop := ∀ p, (s.stage p).holdsRead = false

def NoWriter (s : PipeState) : Prop := ∀ p, (s.stage p).holdsWrite = false

/-- The unread bytes are moved when no read is behind its loop, and the bytes of the write fit
in behind them. -/
def OrderlyGo (s : PipeState) : PipeStage → Prop
  | .reading len =>
    s.pipe.readptr + len < 4294967296 ∧
      (s.pipe.readptr + len ≤ s.pipe.writeptr ∨ s.pipe.writeClosed = true → s.NoReader)
  | .waiting _ => PIPE_LENGTH ≤ s.pipe.readptr + s.pipe.writeptr → s.NoWriter
  | .compacting bytes =>
    s.NoReader ∧ s.pipe.writeptr - s.pipe.readptr + bytes.length ≤ PIPE_LENGTH
  | _ => True

/-- No two reads and no two writes are behind their loops at once, and no sum of an index and a
length wraps around. -/
def Orderly (s : PipeState) : Nat × PipeAct → Prop
  | (_, .write bytes) =>
    s.pipe.writeptr + bytes.length < 4294967296 ∧
      (s.pipe.writeptr + bytes.length ≤ PIPE_LENGTH → s.NoWriter)
  | (p, .go) => s.OrderlyGo (s.stage p)
  | _ => True

/-- What a process behind its loop relies on. -/
def StageOk (pipe : Pipe) : PipeStage → Prop
  | .copyOut len => pipe.readptr + len ≤ pipe.writeptr
  | .copied bytes =>
    pipe.readptr + bytes.length ≤ pipe.writeptr ∧
      slice pipe.data pipe.readptr bytes.length = bytes
  | .copyIn bytes => pipe.writeptr + bytes.length ≤ PIPE_LENGTH
  | .stored bytes =>
    pipe.writeptr + bytes.length ≤ PIPE_LENGTH ∧
      slice pipe.data pipe.writeptr bytes.length = bytes
  | _ => True

/-- The indices are in order and the buffer holds what was written and not yet read. -/
structure PipeOk (pipe : Pipe) (written got : List UInt8) : Prop where
  le : pipe.readptr ≤ pipe.writeptr
  bound : pipe.writeptr ≤ PIPE_LENGTH
  history : written = got ++ slice pipe.data pipe.readptr (pipe.writeptr - pipe.readptr)

structure Good (s : PipeState) : Prop where
  pipe : PipeOk s.pipe s.written s.got
  inside : s.outside = false
  stages : ∀ p, StageOk s.pipe (s.stage p)
  oneReader : ∀ p p', (s.stage p).holdsRead = true → (s.stage p').holdsRead = true → p = p'
  oneWriter : ∀ p p', (s.stage p).holdsWrite = true → (s.stage p').holdsWrite = true → p = p'

variable {s t : PipeState} {p len : Nat} {bytes : List UInt8} {st : PipeStage}

variable {pipe pipe' : Pipe}

theorem one_update {stage : Nat → PipeStage} {holds : PipeStage → Bool}
    (one : ∀ p p', holds (stage p) = true → holds (stage p') = true → p = p')
    (enter : holds st = true → holds (stage p) = true ∨ ∀ p, holds (stage p) = false) (i j : Nat)
    (hi : holds (update stage p st i) = true)
    (hj : holds (update stage p st j) = true) : i = j := by
  have alone (k : Nat) (ne : k ≠ p) (new : holds st = true) (old : holds (stage k) = true) :
      k = p := by
    rcases enter new with mine | free
    · exact one k p old mine
    · rw [free k] at old
      cases old
  by_cases at_i : i = p <;> by_cases at_j : j = p
  · rw [at_i, at_j]
  · rw [at_i, update_self] at hi
    rw [update_of_ne at_j] at hj
    rw [at_i, alone j at_j hi hj]
  · rw [at_j, update_self] at hj
    rw [update_of_ne at_i] at hi
    rw [at_j, alone i at_i hj hi]
  · rw [update_of_ne at_i] at hi
    rw [update_of_ne at_j] at hj
    exact one i j hi hj

/-- A step of process `p`: what it has to keep of the pipe, for itself and for the others. -/
theorem Good.step (h : Good s) (p : Nat) (st : PipeStage) (stage : t.stage = update s.stage p st)
    (pipe : PipeOk t.pipe t.written t.got) (inside : t.outside = false) (mine : StageOk t.pipe st)
    (others : ∀ p', p' ≠ p → StageOk s.pipe (s.stage p') → StageOk t.pipe (s.stage p'))
    (reader : st.holdsRead = true → (s.stage p).holdsRead = true ∨ s.NoReader)
    (writer : st.holdsWrite = true → (s.stage p).holdsWrite = true ∨ s.NoWriter) : Good t where
  pipe := pipe
  inside := inside
  stages p' := by
    rw [stage]
    rw [update_apply]
    split_ifs with same
    · exact mine
    · exact others p' same (h.stages p')
  oneReader := by
    rw [stage]
    exact one_update h.oneReader reader
  oneWriter := by
    rw [stage]
    exact one_update h.oneWriter writer

/-- Flags are of no account to the others. -/
theorem StageOk.congr (h : StageOk pipe st)
    (readptr : pipe'.readptr = pipe.readptr) (writeptr : pipe'.writeptr = pipe.writeptr)
    (data : pipe'.data = pipe.data) : StageOk pipe' st := by
  cases st <;> simp_all [StageOk]

theorem PipeOk.congr {written got : List UInt8} (h : PipeOk pipe written got)
    (readptr : pipe'.readptr = pipe.readptr) (writeptr : pipe'.writeptr = pipe.writeptr)
    (data : pipe'.data = pipe.data) : PipeOk pipe' written got := by
  obtain ⟨_, _, history⟩ := h
  exact ⟨by omega, by omega, by rw [readptr, writeptr, data]; exact history⟩

/-- A step that only moves process `p` on to a stage that is not behind a loop. -/
theorem Good.move (h : Good s) (mine : StageOk s.pipe st)
    (reader : st.holdsRead = true → (s.stage p).holdsRead = true ∨ s.NoReader)
    (writer : st.holdsWrite = true → (s.stage p).holdsWrite = true ∨ s.NoWriter) :
    Good (s.setStage p st) :=
  h.step p st rfl h.pipe h.inside mine (fun _ _ => id) reader writer

theorem bound32 (h : pipe.writeptr ≤ PIPE_LENGTH) : pipe.writeptr < 4294967296 := by
  unfold PIPE_LENGTH PIPE_BLKSIZE PIPE_BLOCKS at h
  omega

section

variable (h : Good s)
include h

theorem Good.at_stage (at_ : s.stage p = st) : StageOk s.pipe st := at_ ▸ h.stages p

theorem Good.testRead (narrow : s.pipe.readptr + len < 4294967296)
    (alone : s.pipe.readptr + len ≤ s.pipe.writeptr ∨ s.pipe.writeClosed = true → s.NoReader) :
    Good (s.testRead p len) := by
  obtain ⟨le, bound, -⟩ := h.pipe
  unfold PipeState.testRead
  rw [add32_eq narrow, sub32_eq le (bound32 bound)]
  split
  · split
    · rename_i closed
      refine h.step p (.copyOut (s.pipe.writeptr - s.pipe.readptr)) rfl
        (h.pipe.congr rfl rfl rfl) h.inside ?_ (fun _ _ ok => ok.congr rfl rfl rfl)
        (fun _ => .inr (alone (.inr closed))) nofun
      change s.pipe.readptr + (s.pipe.writeptr - s.pipe.readptr) ≤ s.pipe.writeptr
      omega
    · exact h
  · exact h.move (by change _ ≤ _; omega) (fun _ => .inr (alone (.inl (by omega)))) nofun

theorem Good.copyOut (at_ : s.stage p = .copyOut len) : Good (s.copyOut p len) := by
  obtain ⟨-, _, -⟩ := h.pipe
  have room : s.pipe.readptr + len ≤ s.pipe.writeptr := h.at_stage at_
  refine h.step p (.copied (slice s.pipe.data s.pipe.readptr len)) rfl h.pipe ?_ ?_
    (fun _ _ ok => ok) (fun _ => .inl ?_) nofun
  · change (s.outside || decide (0 < len ∧ PIPE_LENGTH < s.pipe.readptr + len)) = false
    rw [h.inside, Bool.false_or, decide_eq_false_iff_not]
    omega
  · refine ⟨?_, ?_⟩
    · rw [length_slice]
      exact room
    · rw [length_slice]
      rfl
  · rw [at_]
    rfl

/-- The others while the read index moves: no other read is behind its loop. -/
theorem Good.endRead (at_ : s.stage p = .copied bytes) : Good (s.endRead p bytes) := by
  obtain ⟨-, bound, history⟩ := h.pipe
  obtain ⟨room, same⟩ : s.pipe.readptr + bytes.length ≤ s.pipe.writeptr ∧
      slice s.pipe.data s.pipe.readptr bytes.length = bytes := h.at_stage at_
  have mine : (s.stage p).holdsRead = true := by
    rw [at_]
    rfl
  have wide := bound32 bound
  unfold PipeState.endRead
  rw [add32_eq (by omega)]
  refine h.step p .idle rfl ⟨room, bound, ?_⟩ h.inside trivial (fun p' ne ok => ?_) nofun nofun
  · change s.written = (s.got ++ bytes) ++ slice s.pipe.data (s.pipe.readptr + bytes.length)
      (s.pipe.writeptr - (s.pipe.readptr + bytes.length))
    have split : s.pipe.writeptr - s.pipe.readptr =
        bytes.length + (s.pipe.writeptr - (s.pipe.readptr + bytes.length)) := by omega
    rw [history, split, slice_append, same, append_assoc]
  · have other : (s.stage p').holdsRead = false := by
      by_contra reads
      exact ne (h.oneReader p' p (by simpa using reads) mine)
    cases stage : s.stage p' with
    | copyOut len | copied bytes' =>
      rw [stage] at other
      cases other
    | idle | reading | waiting | compacting => trivial
    | copyIn bytes' | stored bytes' =>
      rw [stage] at ok
      exact ok

theorem Good.startWrite (narrow : s.pipe.writeptr + bytes.length < 4294967296)
    (alone : s.pipe.writeptr + bytes.length ≤ PIPE_LENGTH → s.NoWriter) :
    Good (s.startWrite p bytes) := by
  unfold PipeState.startWrite
  rw [add32_eq narrow]
  split
  · exact h
  · split
    · exact h.move trivial nofun nofun
    · exact h.move (by change _ ≤ _; omega) nofun fun _ => .inr (alone (by omega))

theorem Good.testWrite (alone : PIPE_LENGTH ≤ s.pipe.readptr + s.pipe.writeptr → s.NoWriter) :
    Good (s.testWrite p bytes) := by
  obtain ⟨-, bound, -⟩ := h.pipe
  unfold PipeState.testWrite
  rw [sub32_eq bound (by decide)]
  split
  · split
    · exact h.move trivial nofun nofun
    · exact h
  · exact h.move trivial nofun fun _ => .inr (alone (by omega))

/-- No other write is behind its loop, so nobody else relies on the write index or on the
buffer behind it. -/
theorem Good.others_write {p' : Nat} (mine : (s.stage p).holdsWrite = true) (ne : p' ≠ p) :
    (s.stage p').holdsWrite = false := by
  by_contra writes
  exact ne (h.oneWriter p' p (by simpa using writes) mine)

theorem Good.compact (at_ : s.stage p = .compacting bytes) (alone : s.NoReader)
    (fits : s.pipe.writeptr - s.pipe.readptr + bytes.length ≤ PIPE_LENGTH) :
    Good (s.compact p bytes) := by
  obtain ⟨le, bound, history⟩ := h.pipe
  have mine : (s.stage p).holdsWrite = true := by
    rw [at_]
    rfl
  unfold PipeState.compact
  dsimp only
  rw [sub32_eq le (bound32 bound), sub32_eq (by omega) (by decide)]
  refine h.step p (.copyIn bytes) rfl ⟨Nat.zero_le _, ?_, ?_⟩ ?_ fits (fun p' ne ok => ?_) nofun
    (fun _ => .inl mine)
  · change s.pipe.writeptr - s.pipe.readptr ≤ PIPE_LENGTH
    omega
  · change s.written = s.got ++ slice _ 0 (s.pipe.writeptr - s.pipe.readptr - 0)
    have moved : slice (fun i => if i < PIPE_LENGTH - s.pipe.readptr then
        s.pipe.data (s.pipe.readptr + i) else s.pipe.data i) 0
          (s.pipe.writeptr - s.pipe.readptr) =
        slice s.pipe.data (0 + s.pipe.readptr) (s.pipe.writeptr - s.pipe.readptr) :=
      slice_moved fun i _ high => by rw [if_pos (by omega), Nat.add_comm]
    rw [Nat.sub_zero, history]
    refine congrArg _ ?_
    rw [Nat.zero_add] at moved
    exact moved.symm
  · change (s.outside || decide (PIPE_LENGTH < s.pipe.readptr)) = false
    rw [h.inside, Bool.false_or, decide_eq_false_iff_not]
    omega
  · have noRead := alone p'
    have noWrite := h.others_write mine ne
    cases stage : s.stage p' with
    | copyOut | copied =>
      rw [stage] at noRead
      cases noRead
    | copyIn | stored =>
      rw [stage] at noWrite
      cases noWrite
    | idle | reading | waiting | compacting => trivial

theorem Good.copyIn (at_ : s.stage p = .copyIn bytes) : Good (s.copyIn p bytes) := by
  obtain ⟨le, bound, history⟩ := h.pipe
  have room : s.pipe.writeptr + bytes.length ≤ PIPE_LENGTH := h.at_stage at_
  have mine : (s.stage p).holdsWrite = true := by
    rw [at_]
    rfl
  -- what is stored lies behind the bytes to be read
  have below {a n : Nat} (inside : a + n ≤ s.pipe.writeptr) :
      slice (store s.pipe.data s.pipe.writeptr bytes) a n = slice s.pipe.data a n :=
    slice_store_off (.inl inside)
  refine h.step p (.stored bytes) rfl ⟨le, bound, ?_⟩ ?_ ⟨room, slice_store_self⟩
    (fun p' ne ok => ?_) nofun (fun _ => .inl mine)
  · change s.written = s.got ++ slice (store s.pipe.data s.pipe.writeptr bytes) _ _
    rw [below (by change s.pipe.readptr + (s.pipe.writeptr - s.pipe.readptr) ≤ _; omega)]
    exact history
  · change (s.outside || decide (0 < bytes.length ∧ _)) = false
    rw [h.inside, Bool.false_or, decide_eq_false_iff_not]
    omega
  · have noWrite := h.others_write mine ne
    cases stage : s.stage p' with
    | idle | reading | waiting | compacting => trivial
    | copyOut =>
      rw [stage] at ok
      exact ok
    | copied =>
      rw [stage] at ok
      exact ⟨ok.1, (below ok.1).trans ok.2⟩
    | copyIn | stored =>
      rw [stage] at noWrite
      cases noWrite

theorem Good.endWrite (at_ : s.stage p = .stored bytes) : Good (s.endWrite p bytes) := by
  obtain ⟨_, _, history⟩ := h.pipe
  obtain ⟨room, same⟩ : s.pipe.writeptr + bytes.length ≤ PIPE_LENGTH ∧
      slice s.pipe.data s.pipe.writeptr bytes.length = bytes := h.at_stage at_
  have mine : (s.stage p).holdsWrite = true := by
    rw [at_]
    rfl
  unfold PipeState.endWrite
  rw [add32_eq (by unfold PIPE_LENGTH PIPE_BLKSIZE PIPE_BLOCKS at room; omega)]
  refine h.step p .idle rfl ⟨?_, room, ?_⟩ h.inside trivial (fun p' ne ok => ?_) nofun nofun
  · change s.pipe.readptr ≤ s.pipe.writeptr + bytes.length
    omega
  · change s.written ++ bytes = s.got ++ slice s.pipe.data s.pipe.readptr
      (s.pipe.writeptr + bytes.length - s.pipe.readptr)
    have split : s.pipe.writeptr + bytes.length - s.pipe.readptr =
        s.pipe.writeptr - s.pipe.readptr + bytes.length := by omega
    have start : s.pipe.readptr + (s.pipe.writeptr - s.pipe.readptr) = s.pipe.writeptr := by omega
    rw [split, slice_append, start, same, history, append_assoc]
  · have noWrite := h.others_write mine ne
    cases stage : s.stage p' with
    | idle | reading | waiting | compacting => trivial
    | copyOut =>
      rw [stage] at ok
      exact Nat.le_trans ok (Nat.le_add_right _ _)
    | copied =>
      rw [stage] at ok
      exact ⟨Nat.le_trans ok.1 (Nat.le_add_right _ _), ok.2⟩
    | copyIn | stored =>
      rw [stage] at noWrite
      cases noWrite

theorem Good.go (orderly : s.Orderly (p, .go)) : Good (s.go p) := by
  change s.OrderlyGo (s.stage p) at orderly
  unfold PipeState.go
  cases stage : s.stage p with
  | idle => exact h
  | reading len =>
    rw [stage] at orderly
    exact h.testRead orderly.1 orderly.2
  | copyOut len => exact h.copyOut stage
  | copied bytes => exact h.endRead stage
  | waiting bytes =>
    rw [stage] at orderly
    exact h.testWrite orderly
  | compacting bytes =>
    rw [stage] at orderly
    exact h.compact stage orderly.1 orderly.2
  | copyIn bytes => exact h.copyIn stage
  | stored bytes => exact h.endWrite stage

theorem Good.close (writeEnd : Bool) : Good { s with pipe := s.pipe.close writeEnd } where
  pipe := by
    cases writeEnd <;> exact h.pipe.congr rfl rfl rfl
  inside := h.inside
  stages p := by
    cases writeEnd <;> exact (h.stages p).congr rfl rfl rfl
  oneReader := h.oneReader
  oneWriter := h.oneWriter

end

theorem empty_good : Good empty where
  pipe := ⟨Nat.le_refl _, Nat.zero_le _, rfl⟩
  inside := rfl
  stages := fun _ => trivial
  oneReader := nofun
  oneWriter := nofun

end PipeState

open PipeState

theorem pipeStep_good {s t : PipeState} {act : Nat × PipeAct} (h : s.Good) (orderly : s.Orderly act)
    (step : pipeStep s act = some t) : t.Good := by
  obtain ⟨p, act⟩ := act
  cases act with
  | read =>
    unfold pipeStep at step
    dsimp only at step
    split at step
    · cases step
      unfold startRead
      split
      · exact h
      · exact h.move trivial nofun nofun
    · cases step
  | write =>
    unfold pipeStep at step
    dsimp only at step
    split at step
    · cases step
      exact h.startWrite orderly.1 orderly.2
    · cases step
  | go =>
    cases step
    exact h.go orderly
  | close writeEnd =>
    cases step
    exact h.close writeEnd

/-- Bytes come out in the order they went in, and every index stays in the buffer. -/
structure PipeState.Fifo (s : PipeState) : Prop where
  le : s.pipe.readptr ≤ s.pipe.writeptr
  bound : s.pipe.writeptr ≤ PIPE_LENGTH
  inside : s.outside = false
  order : s.got <+: s.written

/-- A pipe over any orderly interleaving of reads, writes and closes. -/
theorem pipe_fifo_runs {acts : List (Nat × PipeAct)} {s : PipeState}
    (run : Runs.Run (Runs.Guarded Orderly (Runs.partialGraph pipeStep)) .empty acts s) : s.Fifo := by
  have good : s.Good := run.invariant (I := fun s : PipeState => s.Good)
    (fun _ _ _ good step => pipeStep_good good step.1 step.2) empty_good
  refine ⟨good.pipe.le, good.pipe.bound, good.inside, ?_⟩
  rw [good.pipe.history]
  exact List.prefix_append _ _

/-- Orderly steps. -/
abbrev OrderlyStep : PipeState → Nat × PipeAct → PipeState → Prop :=
  Runs.Guarded Orderly (Runs.partialGraph pipeStep)

/-- No call is under way on an open pipe. -/
structure PipeState.Rests (s : PipeState) (r w got : Nat) (written : List UInt8) : Prop where
  idle : s.stage = fun _ => .idle
  readptr : s.pipe.readptr = r
  writeptr : s.pipe.writeptr = w
  readable : s.pipe.dataEnd = false
  writable : s.pipe.readClosed = false
  got : s.got.length = got
  written : s.written = written

namespace PipeState.Rests

variable {s : PipeState} {r w got : Nat} {written : List UInt8} (h : s.Rests r w got written)
include h

theorem noWriter : s.NoWriter := by
  intro p
  rw [h.idle]
  rfl

/-- One call alone at a stage where it does not hold what the others wait for. -/
theorem alone {holds : PipeStage → Bool} {st : PipeStage} (idle : holds .idle = false)
    (free : holds st = false) (p q : Nat) : holds ((s.setStage p st).stage q) = false := by
  simp only [setStage, h.idle, update_apply]
  split_ifs
  · exact free
  · exact idle

/-- A write that has room. -/
theorem write (p : Nat) (bytes : List UInt8) (room : w + bytes.length ≤ PIPE_LENGTH) :
    ∃ t, Runs.Run OrderlyStep s [(p, .write bytes), (p, .go), (p, .go)] t ∧
      t.Rests r (w + bytes.length) got (written ++ bytes) := by
  have small : w + bytes.length < 4294967296 := by
    unfold PIPE_LENGTH PIPE_BLKSIZE PIPE_BLOCKS at room
    omega
  have started : s.startWrite p bytes = s.setStage p (.copyIn bytes) := by
    unfold startWrite
    rw [h.writable, h.writeptr, add32_eq small, if_neg (by decide), if_neg (by omega)]
  have idle : s.stage p = .idle := by rw [h.idle]
  have first : pipeStep s (p, .write bytes) = some (s.setStage p (.copyIn bytes)) := by
    rw [← started]
    exact if_pos ⟨idle, by omega⟩
  refine ⟨_, .cons ⟨⟨by rw [h.writeptr]; exact small, fun _ => h.noWriter⟩, first⟩
    (.cons ⟨?_, rfl⟩ (.cons ⟨?_, rfl⟩ (.nil _))), ?_⟩
  · simp [Orderly, OrderlyGo, setStage]
  · simp [Orderly, OrderlyGo, setStage, go, copyIn]
  · constructor
    all_goals simp [setStage, go, copyIn, endWrite, h.idle, h.readptr, h.writeptr, h.readable,
      h.writable, h.got, h.written, add32_eq small]

/-- A write to a pipe that has to be moved up first. -/
theorem writeFull (p : Nat) (bytes : List UInt8) (full : PIPE_LENGTH < w + bytes.length)
    (le : r ≤ w) (bound : w ≤ PIPE_LENGTH) (read : PIPE_LENGTH ≤ r + w)
    (fits : w - r + bytes.length ≤ PIPE_LENGTH) :
    ∃ t, Runs.Run OrderlyStep s [(p, .write bytes), (p, .go), (p, .go), (p, .go), (p, .go)] t ∧
      t.Rests 0 (w - r + bytes.length) got (written ++ bytes) := by
  have length : PIPE_LENGTH = 16384 := rfl
  have small : w + bytes.length < 4294967296 := by omega
  have started : s.startWrite p bytes = s.setStage p (.waiting bytes) := by
    unfold startWrite
    rw [h.writable, h.writeptr, add32_eq small, if_neg (by decide), if_pos full]
  have idle : s.stage p = .idle := by rw [h.idle]
  have first : pipeStep s (p, .write bytes) = some (s.setStage p (.waiting bytes)) := by
    rw [← started]
    exact if_pos ⟨idle, by omega⟩
  have second : (s.setStage p (.waiting bytes)).go p = s.setStage p (.compacting bytes) := by
    simp only [go, testWrite, setStage, update_self, update_idem, h.readptr, h.writeptr]
    rw [sub32_eq bound (by decide), if_neg (by omega)]
  have third : (s.setStage p (.compacting bytes)).go p = s.compact p bytes := by
    simp only [go, compact, setStage, update_self, update_idem]
    rfl
  have wide : w < 4294967296 := by omega
  have total : w - r + bytes.length < 4294967296 := by omega
  refine ⟨_, .cons ⟨⟨by rw [h.writeptr]; exact small, fun _ => h.noWriter⟩, first⟩
    (.cons ⟨?_, congrArg some second⟩ (.cons ⟨?_, congrArg some third⟩ (.cons ⟨?_, rfl⟩
      (.cons ⟨?_, rfl⟩ (.nil _))))), ?_⟩
  · simp only [Orderly, setStage, update_self]
    exact fun _ => h.alone rfl rfl p
  · simp only [Orderly, setStage, update_self]
    refine ⟨h.alone rfl rfl p, ?_⟩
    rw [h.readptr, h.writeptr]
    exact fits
  · simp [Orderly, OrderlyGo, setStage, compact]
  · simp [Orderly, OrderlyGo, setStage, go, copyIn, compact]
  · constructor
    all_goals simp [setStage, go, copyIn, endWrite, compact, h.idle, h.readptr, h.writeptr,
      h.readable, h.writable, h.got, h.written, sub32_eq le wide, add32_eq total]

/-- A read of bytes that are there. -/
theorem read (p : Nat) (len : UInt32) (there : r + len.toNat ≤ w) (bound : w ≤ PIPE_LENGTH) :
    ∃ t, Runs.Run OrderlyStep s [(p, .read len), (p, .go), (p, .go), (p, .go)] t ∧
      t.Rests (r + len.toNat) w (got + len.toNat) written := by
  have length : PIPE_LENGTH = 16384 := rfl
  have small : r + len.toNat < 4294967296 := by omega
  have idle : s.stage p = .idle := by rw [h.idle]
  have first : pipeStep s (p, .read len) = some (s.setStage p (.reading len.toNat)) := by
    refine (if_pos idle).trans (congrArg some ?_)
    rw [startRead, h.readable, if_neg (by decide)]
  have second : (s.setStage p (.reading len.toNat)).go p = s.setStage p (.copyOut len.toNat) := by
    simp only [go, testRead, setStage, update_self, update_idem, h.readptr, h.writeptr]
    rw [add32_eq small, if_neg (by omega)]
  refine ⟨_, .cons ⟨trivial, first⟩ (.cons ⟨?_, congrArg some second⟩ (.cons ⟨?_, rfl⟩
    (.cons ⟨?_, rfl⟩ (.nil _)))), ?_⟩
  · simp only [Orderly, setStage, update_self]
    exact ⟨by rw [h.readptr]; exact small, fun _ => h.alone rfl rfl p⟩
  · simp [Orderly, OrderlyGo, setStage]
  · simp [Orderly, OrderlyGo, setStage, go, copyOut]
  · constructor
    all_goals simp [setStage, go, copyOut, endRead, h.idle, h.readptr, h.writeptr, h.readable,
      h.writable, h.got, h.written, length_slice, add32_eq small]

end PipeState.Rests

theorem empty_rests : PipeState.empty.Rests 0 0 0 [] :=
  ⟨rfl, rfl, rfl, rfl, rfl, rfl, rfl⟩

/-- The pipe is filled and read, and the next byte goes to its start again. -/
theorem pipe_fifo_runs_compacted : ∃ acts s, Runs.Run OrderlyStep .empty acts s ∧ s.Fifo ∧
    s.written = List.replicate 16384 0 ++ [7] ∧ s.got = s.written := by
  have full : (List.replicate 16384 (0 : UInt8)).length = 16384 := List.length_replicate
  obtain ⟨_, first, rests⟩ := empty_rests.write 1 (List.replicate 16384 0) (by rw [full]; decide)
  rw [full] at rests
  obtain ⟨_, second, rests⟩ := rests.read 2 16384 (by decide) (by decide)
  obtain ⟨_, third, rests⟩ := rests.writeFull 1 [7] (by decide) (by decide) (by decide)
    (by decide) (by decide)
  obtain ⟨s, fourth, rests⟩ := rests.read 2 1 (by decide) (by decide)
  have run := ((first.append second).append third).append fourth
  have fifo := pipe_fifo_runs run
  refine ⟨_, s, run, fifo, rests.written, fifo.order.eq_of_length ?_⟩
  rw [rests.got, rests.written, List.length_append, List.nil_append, full]
  rfl

/-- A write to a full pipe: the loop asks for `p_readptr < PIPE_LENGTH - p_writeptr`, which is
false right away, and the byte is stored behind the buffer. -/
theorem full_pipe_overruns : ¬∀ (acts : List (Nat × PipeAct)) (s : PipeState),
    Runs.Run (Runs.partialGraph pipeStep) .empty acts s → s.Fifo := by
  intro claim
  have full : (List.replicate 16384 (0 : UInt8)).length = 16384 := List.length_replicate
  obtain ⟨s, first, rests⟩ := empty_rests.write 1 (List.replicate 16384 0) (by rw [full]; decide)
  rw [full] at rests
  have second : pipeStep s (1, .write [1]) = some (s.startWrite 1 [1]) :=
    if_pos ⟨by rw [rests.idle], by decide⟩
  have waits : s.startWrite 1 [1] = s.setStage 1 (.waiting [1]) := by
    simp [PipeState.startWrite, rests.writable, rests.writeptr, add32, PIPE_LENGTH, PIPE_BLKSIZE,
      PIPE_BLOCKS]
  rw [waits] at second
  have more : Runs.Run (Runs.partialGraph pipeStep) s
      [(1, .write [1]), (1, .go), (1, .go), (1, .go)]
      ((((s.setStage 1 (.waiting [1])).go 1).go 1).go 1) :=
    .cons second (.cons rfl (.cons rfl (.cons rfl (.nil _))))
  have outside : ((((s.setStage 1 (.waiting [1])).go 1).go 1).go 1).outside = true := by
    simp [PipeState.go, PipeState.setStage, PipeState.testWrite, PipeState.compact,
      PipeState.copyIn, rests.readptr, rests.writeptr, sub32, PIPE_LENGTH, PIPE_BLKSIZE,
      PIPE_BLOCKS]
  have fifo := claim _ _ ((first.mono fun _ _ _ step => step.2).append more)
  rw [fifo.inside] at outside
  cases outside

end Os0
