import Os0.Drivers.LineEdit

/-! Reads of a terminal in canonical mode and the lines that were typed. `tty_read` copies what is
in the buffer, wherever a line ends in it; the readers get the lines all the same as long as no
read asks for more than the line it is in, and no edit goes back into a line that has ended. -/
namespace Os0

open List

/-- A read as it should be: the front of the first line, and the lines that are left. -/
def takeLine (len : Nat) : List (List UInt8) → List UInt8 × List (List UInt8)
  | [] => ([], [])
  | line :: lines => (line.take len, if line.length ≤ len then lines else line.drop len :: lines)

/-- A terminal with the lines whose end has come, as far as they are unread, and what its readers
should have got. -/
structure ReaderState extends LineState where
  lines : List (List UInt8)
  due : List UInt8

namespace ReaderState

/-- The line that is being typed: what is in the buffer `line` behind the lines that have ended. -/
def typing (s : ReaderState) (line : List UInt8) : List UInt8 := line.drop s.lines.flatten.length

/-- A byte comes in, which may end the line that is being typed, or a read is made. -/
def step (s : ReaderState) (call : LineCall) : Option ReaderState :=
  (lineStep s.toLineState call).map fun t =>
    match call with
    | .byte _ c =>
      let line := s.typing t.editor.line
      { t with
        lines := if s.tty.lineAct c = .endLine ∧ line ≠ [] then s.lines ++ [line] else s.lines
        due := s.due }
    | .read len _ =>
      { t with lines := (takeLine len s.lines).2, due := s.due ++ (takeLine len s.lines).1 }

/-- The read asks for nothing, or there is nothing unread, or it asks for no more than is left of
a line that has ended, or there is nothing behind that line. -/
def readOk (s : ReaderState) (len : Nat) : Bool :=
  len == 0 || match s.lines with
    | [] => s.editor.line == []
    | line :: _ => decide (len ≤ line.length) || s.editor.line == line

/-- A byte that can be handled takes nothing away from a line that has ended. -/
def callOk (s : ReaderState) : LineCall → Bool
  | .byte shown c => lineOk s.toLineState (.byte shown c) &&
      s.lines.flatten.isPrefixOf (s.editor.edit s.tty c).line
  | .read len _ => s.readOk len

/-- A terminal with nothing to read. -/
def fresh (tty : TTY) : ReaderState where
  toLineState := .fresh tty
  lines := []
  due := []

/-- The lines that have ended are at the front of what is unread, and the readers got what they
should. -/
structure Delivers (s : ReaderState) : Prop where
  line : LineOk s.toLineState
  front : s.lines.flatten <+: s.editor.line
  got : s.got = s.due

variable {s t : ReaderState} {len : Nat} {nonblock : Bool}

theorem flatten_typing {line : List UInt8} (front : s.lines.flatten <+: line) :
    s.lines.flatten ++ s.typing line = line :=
  prefix_iff_eq_append.1 front

/-- The bytes at the front of the buffer are those of the first line exactly if the read does not
go beyond it. -/
theorem take_line_iff (front : s.lines.flatten <+: s.editor.line) :
    s.editor.line.take len = (takeLine len s.lines).1 ↔ s.readOk len = true := by
  unfold readOk takeLine
  obtain ⟨rest, line⟩ := front
  rw [← line]
  cases s.lines with
  | nil => simp
  | cons first lines =>
    simp only [flatten_cons, append_assoc, Bool.or_eq_true, beq_iff_eq, decide_eq_true_eq,
      append_right_eq_self]
    generalize lines.flatten ++ rest = behind
    rw [take_append, append_right_eq_self, take_eq_nil_iff, Nat.sub_eq_zero_iff_le]
    exact ⟨.inr, fun ok => ok.elim (fun none => .inl (none ▸ Nat.zero_le _)) id⟩

theorem drop_line (front : s.lines.flatten <+: s.editor.line) (ok : s.readOk len = true) :
    (takeLine len s.lines).2.flatten <+: s.editor.line.drop len := by
  unfold readOk at ok
  unfold takeLine
  obtain ⟨rest, line⟩ := front
  rw [← line] at ok ⊢
  cases ended : s.lines with
  | nil => exact nil_prefix
  | cons first lines =>
    simp only [ended, flatten_cons, append_assoc, Bool.or_eq_true, beq_iff_eq, decide_eq_true_eq,
      append_right_eq_self] at ok ⊢
    rw [drop_append]
    split
    · rename_i whole
      have short : len = first.length ∨ lines.flatten ++ rest = [] :=
        ok.elim (fun none => .inl (by omega)) (Or.imp_left fun short => by omega)
      rcases short with exactly | alone
      · rw [exactly, drop_length, Nat.sub_self]
        exact prefix_append _ _
      · rw [(append_eq_nil_iff.1 alone).1]
        exact nil_prefix
    · rename_i part
      rw [show len - first.length = 0 by omega]
      exact ⟨rest, by simp⟩

section

variable (h : Delivers s)
include h

theorem Delivers.read (ok : s.readOk len = true)
    (step : s.step (.read len nonblock) = some t) : Delivers t := by
  obtain ⟨u, made, rfl⟩ := Option.map_eq_some_iff.1 step
  have line := lineStep_ok h.line rfl made
  obtain ⟨tty, eq, -⟩ := @TTY.read_delivers s.tty s.editor len nonblock h.line.tty h.line.shows
  unfold lineStep at made
  dsimp only at made
  split at made
  · cases made
  · rw [eq] at made
    cases made
    refine ⟨line, drop_line h.front ok, ?_⟩
    exact congrArg₂ (· ++ ·) h.got ((take_line_iff h.front).2 ok)

theorem Delivers.byte {shown : ShownTTY} {c : UInt8}
    (fine : lineOk s.toLineState (.byte shown c) = true)
    (kept : s.lines.flatten <+: (s.editor.edit s.tty c).line)
    (step : s.step (.byte shown c) = some t) : Delivers t := by
  obtain ⟨u, made, rfl⟩ := Option.map_eq_some_iff.1 step
  have line := lineStep_ok h.line fine made
  obtain ⟨tty, eq, -⟩ :=
    @TTY.processInput_edits s.tty shown c s.editor h.line.tty h.line.shows fine
  unfold lineStep at made
  dsimp only at made
  rw [eq] at made
  cases made
  refine ⟨line, ?_, h.got⟩
  dsimp only
  split
  · simp only [flatten_append, flatten_singleton, flatten_typing kept, prefix_rfl]
  · exact kept

theorem Delivers.step {call : LineCall} (ok : s.callOk call = true)
    (step : s.step call = some t) : Delivers t := by
  cases call with
  | read => exact h.read ok step
  | byte =>
    obtain ⟨fine, kept⟩ := Bool.and_eq_true_iff.1 ok
    exact h.byte fine ( isPrefixOf_iff_prefix.1 kept) step

end

theorem fresh_delivers {tty : TTY} (ok : tty.Ok) : Delivers (fresh tty) :=
  ⟨fresh_ok ok, nil_prefix, rfl⟩

end ReaderState

open ReaderState

/-- In every run of bytes and reads in which no byte takes anything away from a line that has ended
and no read goes beyond the line it is in, every read returns the front of the first line that is
left. In every state that is reached, the next read does so exactly if it does not go beyond that
line. -/
theorem reads_return_lines {tty : TTY} {calls : List LineCall} {s : ReaderState} (ok : tty.Ok)
    (run : Runs.Run (Runs.Guarded (fun s call => s.callOk call = true)
      (Runs.partialGraph ReaderState.step)) (.fresh tty) calls s) :
    s.outside = false ∧ s.got = s.due ∧ s.tty.inbuf.unread = s.lines.flatten ++
      s.typing s.editor.line ∧ ∀ len nonblock,
      (∃ t, s.tty.read len nonblock = some ((takeLine len s.lines).1, t)) ↔
        s.readOk len = true := by
  have inv : Delivers s := run.invariant (I := Delivers)
    (fun _ _ _ h step => h.step step.1 step.2) (fresh_delivers ok)
  refine ⟨inv.line.inside, inv.got, ?_, fun len nonblock => ?_⟩
  · rw [inv.line.shows.line]
    exact (flatten_typing inv.front).symm
  · obtain ⟨t, read, -⟩ :=
      @TTY.read_delivers s.tty s.editor len nonblock inv.line.tty inv.line.shows
    rw [← take_line_iff inv.front, read]
    constructor
    · rintro ⟨_, same⟩
      exact congrArg Prod.fst (Option.some.inj same)
    · intro same
      exact ⟨t, by rw [same]⟩

/-- A line is read in two pieces while the next one is typed and edited. -/
theorem reads_return_lines_twice : ∃ s, Runs.exec callOk ReaderState.step (.fresh defaultTty)
      [typed 'a', typed 'b', typed '\n', .read 2 false, typed 'c', .byte ⟨true, 0⟩ 0o37,
        typed 'd', .read 1 false] = some s ∧
    s.got = [97, 98, 10] ∧ s.got = s.due ∧ s.tty.inbuf.unread = [100] := by
  have done : (Runs.exec callOk ReaderState.step (.fresh defaultTty)
      [typed 'a', typed 'b', typed '\n', .read 2 false, typed 'c', .byte ⟨true, 0⟩ 0o37,
        typed 'd', .read 1 false]).map (fun s => (s.got, s.tty.inbuf.unread)) =
      some ([97, 98, 10], [100]) := by decide +kernel
  obtain ⟨s, ends, facts⟩ := Option.map_eq_some_iff.1 done
  obtain ⟨got, unread⟩ := Prod.mk.inj facts
  have lines := reads_return_lines defaultTty_ok (Runs.run_of_exec ends)
  exact ⟨s, ends, got, lines.2.1, unread⟩

/-- Two lines are typed, and one read returns both. -/
theorem two_lines_in_one_read :
    ¬∀ (tty : TTY) (calls : List LineCall) (s : ReaderState), tty.Ok →
      tty.lflag TTY.ICANON = true →
      Runs.Run (Runs.partialGraph ReaderState.step) (.fresh tty) calls s → s.got = s.due := by
  intro claim
  have after : (Runs.exec (fun _ _ => true) ReaderState.step (.fresh defaultTty)
      [typed 'a', typed '\n', typed 'b', typed '\n', .read 4 false]).map
        (fun s => (s.got, s.due)) = some ([97, 10, 98, 10], [97, 10]) := by decide +kernel
  obtain ⟨s, ends, facts⟩ := Option.map_eq_some_iff.1 after
  obtain ⟨got, due⟩ := Prod.mk.inj facts
  have same := claim defaultTty _ s defaultTty_ok (by decide)
    ((Runs.run_of_exec ends).mono fun _ _ _ step => step.2)
  rw [got, due] at same
  cases same

end Os0
