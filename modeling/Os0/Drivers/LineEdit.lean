import Os0.Drivers.LineInput
import Os0.Drivers.TerminalSafe

/-! The line discipline of a terminal is an editor of the line that has not been read. -/
namespace Os0

open Bytes Slice List Nat

namespace TTYInputBuffer

variable {b : TTYInputBuffer} {e : Editor} {eof c : UInt8}

/-- The buffer holds the line of an editor. -/
structure Shows (b : TTYInputBuffer) (e : Editor) : Prop where
  order : b.start ≤ b.stop
  inside : b.stop ≤ TTY_BUFFER_SIZE
  line : b.unread = e.line

variable {n : Nat}

theorem Shows.length (h : Shows b e) : e.line.length = b.stop - b.start := by
  rw [← h.line, unread, length_slice]

theorem unread_cut (first : b.start ≤ n) (last : n ≤ b.stop) :
    ({ b with stop := n } : TTYInputBuffer).unread = b.unread.take (n - b.start) := by
  unfold unread
  rw [take_slice (by omega)]

theorem Shows.cut {line : List UInt8} (h : Shows b e) (first : b.start ≤ n)
    (last : n ≤ b.stop) (same : line = e.line.take (n - b.start)) :
    Shows { b with stop := n } { e with line } := by
  have inside := h.inside
  refine ⟨first, show n ≤ TTY_BUFFER_SIZE by omega, ?_⟩
  rw [unread_cut first last, h.line]
  exact same.symm

theorem shows_clear (b : TTYInputBuffer) (e : Editor) :
    Shows { b with start := 0, stop := 0 } { e with line := [] } :=
  ⟨le_rfl, zero_le _, rfl⟩

/-- Without the need to make room, a byte goes to the end. -/
theorem addChar_shows {canonical : Bool} (h : Shows b e)
    (room : b.stop < TTY_BUFFER_SIZE - 1 ∨ b.start = 0)
    (fits : b.stop < TTY_BUFFER_SIZE ∨ ¬canonical ∨ c ≠ ch '\n') :
    ∃ b', b.addChar canonical c = some b' ∧ Shows b' (e.accept canonical c) := by
  have order := h.order
  have stays : b.makeRoom = some b := by
    unfold makeRoom
    rw [if_neg (by omega)]
  have full : TTY_BUFFER_SIZE - 1 ≤ b.stop ↔ TTY_BUFFER_SIZE - 1 ≤ e.line.length := by
    rw [h.length]
    omega
  unfold addChar Editor.accept
  rw [stays, Option.bind_some]
  simp only [← full]
  split
  · exact ⟨b, rfl, h⟩
  · rename_i taken
    have space : b.stop < TTY_BUFFER_SIZE := by
      rcases fits with lt | refused
      · exact lt
      · by_contra no
        exact taken ⟨by omega, refused⟩
    rw [if_pos space]
    refine ⟨_, rfl, le_succ_of_le order, space, ?_⟩
    change slice (Function.update b.data b.stop c) b.start (b.stop + 1 - b.start) = e.line ++ [c]
    have length : b.stop + 1 - b.start = b.stop - b.start + 1 := by omega
    have last : b.start + (b.stop - b.start) = b.stop := by omega
    rw [length, slice_succ, last, Function.update_self, ← h.line]
    refine congrArg (· ++ [c]) (slice_congr fun i _ high => ?_)
    rw [Function.update_of_ne (by omega)]

theorem Shows.last (h : Shows b e) (some_ : b.start < b.stop) :
    e.line.getLast? = some (b.data (b.stop - 1)) := by
  have length : b.stop - b.start = b.stop - 1 - b.start + 1 := by omega
  have last : b.start + (b.stop - 1 - b.start) = b.stop - 1 := by omega
  rw [← h.line, unread, length, slice_succ, last]
  simp

theorem eraseInput_shows (h : Shows b e)
    (safe : b.start < b.stop ∨ b.stop = 0 ∨ isControl eof (b.data (b.stop - 1)) = true) :
    ∃ len b', b.eraseInput eof = some (len, b') ∧ Shows b' (e.erase eof) := by
  have inside := h.inside
  unfold eraseInput Editor.erase
  by_cases any : b.start < b.stop
  · rw [if_pos (by omega), if_pos (by omega), h.last any, Option.all_some]
    split
    · exact ⟨0, b, rfl, h⟩
    · refine ⟨1, _, rfl, h.cut (by omega) (by omega) ?_⟩
      rw [dropLast_eq_take, h.length]
      congr 1
      omega
  · have empty : e.line = [] := by
      rw [← length_eq_zero_iff, h.length]
      omega
    rw [empty, getLast?_nil, Option.all_none, if_pos rfl]
    rcases safe with lt | _ | _
    · exact absurd lt any
    · rw [if_neg (by omega)]
      exact ⟨0, b, rfl, h⟩
    · split
      · rw [if_pos (show b.stop - 1 < TTY_BUFFER_SIZE by omega)]
        exact ⟨0, b, rfl, h⟩
      · exact ⟨0, b, rfl, h⟩

/-- A scan that stops in front of the buffer has passed what `rdropWhile` drops. -/
theorem scanBack_spec {more : UInt8 → Bool} (first : b.start ≤ n) (inside : n ≤ TTY_BUFFER_SIZE)
    (stops : 0 < b.start ∨ (slice b.data b.start (n - b.start)).rdropWhile more ≠ []) :
    ∃ k, b.scanBack more n = some k ∧ b.start ≤ k ∧ k ≤ n ∧
      (slice b.data b.start (n - b.start)).rdropWhile more = slice b.data b.start (k - b.start) := by
  induction n with
  | zero =>
    have zero : b.start = 0 := by omega
    rcases stops with _ | some_
    · omega
    · rw [zero] at some_
      exact absurd (rdropWhile_nil more) some_
  | succ n ih =>
    unfold scanBack
    by_cases within : b.start ≤ n
    · have length : n + 1 - b.start = n - b.start + 1 := by omega
      have last : b.start + (n - b.start) = n := by omega
      rw [if_pos within, if_pos (by omega)]
      rw [length, slice_succ, last] at stops
      rw [length, slice_succ, last]
      by_cases passed : more (b.data n) = true
      · rw [rdropWhile_concat_pos _ _ _ passed] at stops ⊢
        obtain ⟨k, eq, low, _, same⟩ := ih within (by omega) stops
        rw [if_pos passed]
        exact ⟨k, eq, low, by omega, same⟩
      · rw [rdropWhile_concat_neg _ _ _ passed, if_neg passed]
        refine ⟨n + 1, rfl, first, le_rfl, ?_⟩
        rw [length, slice_succ, last]
    · rw [if_neg within]
      have here : n + 1 - b.start = 0 := by omega
      refine ⟨n + 1, rfl, first, le_rfl, ?_⟩
      rw [here, slice_zero, rdropWhile_nil]

theorem eraseInputWord_shows (h : Shows b e) (safe : 0 < b.start ∨ (e.eraseWord eof).line ≠ []) :
    ∃ len b', b.eraseInputWord eof = some (len, b') ∧ Shows b' (e.eraseWord eof) := by
  unfold Editor.eraseWord at *
  rw [← h.line, unread] at safe ⊢
  have gap : 0 < b.start ∨
      (slice b.data b.start (b.stop - b.start)).rdropWhile (isGap eof) ≠ [] := by
    refine safe.imp_right fun some_ none => some_ ?_
    rw [none, rdropWhile_nil]
  obtain ⟨k, eq, low, _, same⟩ := scanBack_spec h.order h.inside gap
  rw [same] at safe ⊢
  have inside := h.inside
  obtain ⟨_, eq', low', _, same'⟩ := scanBack_spec low (by omega) safe
  unfold eraseInputWord
  rw [eq, Option.bind_some, eq', Option.map_some, same']
  refine ⟨_, _, rfl, h.cut low' (by omega) ?_⟩
  rw [← h.line, unread, take_slice (by omega)]

/-- The last `c` of the line, if the line has one, and the bytes in front of it. -/
theorem memrchr_spec {n : Nat} (first : b.start ≤ n) (c : UInt8) :
    match memrchr b.data c n with
    | none => (slice b.data b.start (n - b.start)).rdropWhile (· ≠ c) = []
    | some i => i < n ∧ (if i < b.start then
        (slice b.data b.start (n - b.start)).rdropWhile (· ≠ c) = []
      else ((slice b.data b.start (n - b.start)).rdropWhile (· ≠ c)).dropLast =
        slice b.data b.start (i - b.start)) := by
  induction n with
  | zero =>
    have zero : b.start = 0 := by omega
    rw [zero]
    rfl
  | succ n ih =>
    unfold memrchr
    by_cases within : b.start ≤ n
    · have length : n + 1 - b.start = n - b.start + 1 := by omega
      have last : b.start + (n - b.start) = n := by omega
      rw [length, slice_succ, last]
      split_ifs with found
      · refine ⟨lt_succ_self n, ?_⟩
        rw [if_neg (by omega), rdropWhile_concat_neg _ _ _ (by simp [found]),
          dropLast_concat]
      · rw [rdropWhile_concat_pos _ _ _ (by simp [found])]
        have ih := ih within
        split
        · rename_i none
          rw [none] at ih
          exact ih
        · rename_i i at_
          rw [at_] at ih
          exact ⟨lt_succ_of_lt ih.1, ih.2⟩
    · have here : n + 1 - b.start = 0 := by omega
      rw [here, slice_zero, rdropWhile_nil]
      -- whatever is found lies in front of the line
      have below : ∀ m i, memrchr b.data c m = some i → i < m := by
        intro m
        induction m with
        | zero => exact nofun
        | succ m ih =>
          intro i at_
          unfold memrchr at at_
          split at at_
          · cases at_
            exact lt_succ_self _
          · exact lt_succ_of_lt (ih i at_)
      split
      · rfl
      · rename_i i at_
        have low := below (n + 1) i at_
        rw [if_pos (by omega)]
        exact ⟨low, rfl⟩

theorem killInput_shows (h : Shows b e) :
    ∃ len b', b.killInput eof = some (len, b') ∧ Shows b' (e.kill eof) := by
  unfold killInput Editor.kill
  rw [if_pos h.inside]
  split_ifs with off
  · exact ⟨_, _, rfl, shows_clear b e⟩
  · have spec := @memrchr_spec b b.stop h.order eof
    rw [← unread, h.line] at spec
    split
    · rename_i none
      rw [none] at spec
      rw [spec]
      exact ⟨_, _, rfl, shows_clear b e⟩
    · rename_i i at_
      rw [at_] at spec
      dsimp only at spec
      obtain ⟨_, rest⟩ := spec
      split
      · rename_i old
        rw [if_pos old] at rest
        rw [rest]
        exact ⟨_, _, rfl, shows_clear b e⟩
      · rename_i new
        rw [if_neg new] at rest
        refine ⟨_, _, rfl, h.cut (by omega) (by omega) ?_⟩
        rw [rest, ← h.line, unread, take_slice (by omega)]

end TTYInputBuffer

namespace TTY

open TTYInputBuffer

variable {tty : TTY} {shown : ShownTTY} {c : UInt8} {e : Editor}

/-! ### The echo -/

theorem eraseLeft_safe (ok : tty.Ok) :
    Safe shown tty (vgaPutentry shown (ch ' ') (tty.column - 1) tty.row
      { tty with column := tty.column - 1 }) := by
  have column := ok.column
  have left : Ok { tty with column := tty.column - 1 } := ok.setColumn (by omega)
  exact (vgaPutentry_safe left.column left.row left).after (.same rfl)

theorem vgaEraseChar_safe (ok : tty.Ok) : Safe shown tty (tty.vgaEraseChar shown) := by
  unfold vgaEraseChar
  split
  · exact (eraseLeft_safe ok).setcurs
  · exact ⟨tty, rfl, ok, .same rfl⟩

theorem safe_loop {α : Type} {f : TTY → α → Option TTY} {as : List α}
    (body : ∀ a t, t.Ok → Safe shown t (f t a)) (ok : tty.Ok) : Safe shown tty (as.foldlM f tty) := by
  exact Runs.foldlM_invariant as (I := fun t : TTY => t.Ok ∧ Leaves shown tty t)
    (fun a _ t ⟨ok, leaves⟩ => (body a t ok).after leaves) ⟨ok, .same rfl⟩

theorem vgaEraseLine_safe {len : Nat} (ok : tty.Ok) : Safe shown tty (tty.vgaEraseLine shown len) :=
  (safe_loop (fun _ _ => eraseLeft_safe) ok).setcurs

theorem processOutput_safe {arg : Nat} (ok : tty.Ok) : Safe shown tty
    (tty.processOutput shown c arg) := by
  unfold processOutput
  split
  · split
    · exact vgaEraseChar_safe ok
    · exact ⟨tty, rfl, ok, .same rfl⟩
  split
  · exact vgaEraseLine_safe ok
  split
  · exact vgaEraseLine_safe ok
  split
  · exact vt100WriteChar_safe ok
  split
  · split
    · exact (vt100WriteChar_safe ok).bind fun _ => vt100WriteChar_safe
    · exact ⟨tty, rfl, ok, .same rfl⟩
  · exact vt100WriteChar_safe ok

/-! ### The input -/

/-- The byte can be handled: one that is accepted needs no room to be made and fits; an erase
does not meet bytes that were read; a word erase stops inside of the buffer. -/
def inputOk (c : UInt8) (tty : TTY) : Bool :=
  let b := tty.inbuf
  let eof := tty.termios.cc .VEOF
  let accepts := (b.stop < TTY_BUFFER_SIZE - 1 || b.start == 0) &&
    (b.stop < TTY_BUFFER_SIZE || !tty.lflag ICANON || c != ch '\n')
  match tty.lineAct c with
  | .quoted | .plain => accepts
  | .endLine => c == 0 || accepts
  | .erase => b.start < b.stop || b.stop == 0 || isControl eof (b.data (b.stop - 1))
  | .eraseWord => 0 < b.start || (b.unread.rdropWhile (isGap eof)).rdropWhile (isWord eof) != []
  | .endOfFile | .kill | .reprint | .quoteNext | .signal => true

/-- A terminal whose buffer holds the line of an editor, under the settings of `tty`. -/
def Edits (tty : TTY) (e : Editor) (result : Option TTY) : Prop :=
  ∃ t, result = some t ∧ t.Ok ∧ Shows t.inbuf e ∧ t.termios = tty.termios

theorem Ok.setFlag (ok : tty.Ok) (flags : UInt32) : Ok { tty with flags } := { ok with }

theorem Ok.setBuffer (ok : tty.Ok) (inbuf : TTYInputBuffer) : (tty.setInbuf inbuf).Ok :=
  { ok with }

theorem inputBufferAddChar_edits (ok : tty.Ok) (h : Shows tty.inbuf e)
    (accepts : ((tty.inbuf.stop < TTY_BUFFER_SIZE - 1 || tty.inbuf.start == 0) &&
      (tty.inbuf.stop < TTY_BUFFER_SIZE || !tty.lflag ICANON || c != ch '\n')) = true) :
    Edits tty (e.accept (tty.lflag ICANON) c) (tty.inputBufferAddChar c) := by
  simp only [Bool.and_eq_true, Bool.or_eq_true, decide_eq_true_eq, beq_iff_eq, Bool.not_eq_true',
    bne_iff_ne, or_assoc, ← Bool.not_eq_true] at accepts
  obtain ⟨b, eq, shows⟩ := addChar_shows h accepts.1 accepts.2
  unfold inputBufferAddChar
  rw [eq]
  exact ⟨_, rfl, ok.setBuffer b, shows, rfl⟩

theorem takeInput_edits (ok : tty.Ok) (h : Shows tty.inbuf e) (fine : tty.inputOk c = true) :
    Edits tty (e.edit tty c) ((tty.takeInput shown c).map (·.2)) := by
  have edited {result : Option (Nat × TTYInputBuffer)} {e : Editor}
      (shows : ∃ len b', result = some (len, b') ∧ Shows b' e) :
      Edits tty e ((result.map fun r => (r.1, tty.setInbuf r.2)).map (·.2)) := by
    obtain ⟨len, b, rfl, shows⟩ := shows
    exact ⟨_, rfl, ok.setBuffer b, shows, rfl⟩
  unfold inputOk at fine
  unfold takeInput Editor.edit
  cases act : tty.lineAct c <;> rw [act] at fine <;> dsimp only at fine ⊢
  case quoted =>
    obtain ⟨t, eq, ok', shows, termios⟩ := @inputBufferAddChar_edits (tty.clearFlags TTY_QUOTE_INPUT)
      c e (ok.setFlag _) h fine
    rw [eq]
    exact ⟨t, rfl, ok', shows, termios⟩
  case endLine =>
    unfold flushInputLine
    by_cases zero : c = 0
    · rw [if_neg (not_not.2 zero), if_neg (not_not.2 zero)]
      exact ⟨_, rfl, ok.setFlag _, h, rfl⟩
    · rw [if_pos zero, if_pos zero]
      obtain ⟨t, eq, ok', shows, termios⟩ := inputBufferAddChar_edits ok h
        ((Bool.or_eq_true _ _ ▸ fine).resolve_left (by simpa using zero))
      rw [eq]
      exact ⟨_, rfl, ok'.setFlag _, shows, termios⟩
  case endOfFile => exact ⟨_, rfl, ok.setFlag _, h, rfl⟩
  case erase =>
    refine edited (eraseInput_shows h ?_)
    simpa [or_assoc] using fine
  case kill => exact edited (killInput_shows h)
  case eraseWord =>
    refine edited (eraseInputWord_shows h ?_)
    unfold Editor.eraseWord
    rw [← h.line]
    simpa using fine
  case reprint =>
    unfold reprintInput
    rw [if_pos h.inside]
    obtain ⟨t, eq, ok', leaves⟩ :=
      @safe_loop tty shown _ (fun tty c => tty.processOutput shown c 0) tty.inbuf.unread
        (fun _ _ => processOutput_safe) ok
    rw [eq]
    exact ⟨t, rfl, ok', leaves.inbuf ▸ h, leaves.termios⟩
  case quoteNext => exact ⟨_, rfl, ok.setFlag _, h, rfl⟩
  case signal => exact ⟨_, rfl, ok, h, rfl⟩
  case plain =>
    obtain ⟨t, eq, ok', shows, termios⟩ := inputBufferAddChar_edits ok h fine
    rw [eq]
    exact ⟨t, rfl, ok', shows, termios⟩

theorem processInput_edits (ok : tty.Ok) (h : Shows tty.inbuf e) (fine : tty.inputOk c = true) :
    Edits tty (e.edit tty c) (tty.processInput shown c) := by
  obtain ⟨_, result, ok', shows, termios⟩ := @takeInput_edits tty shown c e ok h fine
  obtain ⟨⟨arg, next'⟩, taken, rfl⟩ := Option.map_eq_some_iff.1 result
  have echo (d : UInt8) : Edits tty (e.edit tty c) (next'.processOutput shown d arg) := by
    obtain ⟨t, eq, ok'', leaves⟩ := @processOutput_safe next' shown d arg ok'
    exact ⟨t, eq, ok'', leaves.inbuf ▸ shows, leaves.termios.trans termios⟩
  unfold processInput
  rw [taken, Option.bind_some]
  dsimp only
  split
  · exact ⟨_, rfl, ok', shows, termios⟩
  split
  · exact echo c
  split
  · exact echo _
  · exact ⟨_, rfl, ok', shows, termios⟩

/-- `tty_read` delivers the front of the line. -/
theorem read_delivers {len : Nat} {nonblock : Bool} (ok : tty.Ok) (h : Shows tty.inbuf e) :
    ∃ t, tty.read len nonblock = some (e.line.take len, t) ∧ t.Ok ∧
      Shows t.inbuf (e.deliver len) := by
  have order := h.order
  have inside := h.inside
  have length := h.length
  have size : sub32 tty.inbuf.stop tty.inbuf.start = e.line.length := by
    rw [length]
    unfold TTY_BUFFER_SIZE at inside
    exact sub32_eq order (by omega)
  unfold read
  split
  · rename_i nothing
    have empty : e.line = [] := by
      rw [← length_eq_zero_iff, length]
      unfold readsNothing at nothing
      simp only [Bool.and_eq_true] at nothing
      have none := nothing.2
      split at none
      · have := of_decide_eq_true none
        omega
      · have := beq_iff_eq.1 none
        omega
    refine ⟨tty, by rw [empty, take_nil], ok, order, inside, ?_⟩
    rw [h.line, empty]
    exact (congrArg (List.drop len) empty |>.trans drop_nil).symm
  · have count : (if sub32 tty.inbuf.stop tty.inbuf.start < len then
        sub32 tty.inbuf.stop tty.inbuf.start else len) = min len e.line.length := by
      rw [size]
      split <;> omega
    unfold readReady
    dsimp only
    rw [count, if_pos (by omega)]
    have bytes : slice tty.inbuf.data tty.inbuf.start (min len e.line.length) = e.line.take len := by
      have front : e.line.take len = e.line.take (min len e.line.length) := by
        rw [take_eq_take_min]
      rw [front, ← take_slice (n := tty.inbuf.stop - tty.inbuf.start) (by omega)]
      exact congrArg _ h.line
    rw [bytes]
    refine ⟨_, rfl, ?_, ?_⟩
    · split
      · exact (ok.setBuffer _).setFlag _
      · exact ok.setBuffer _
    · split
      · have rest : e.line.drop len = [] := drop_eq_nil_of_le (by omega)
        refine ⟨le_rfl, zero_le _, ?_⟩
        exact rest.symm
      · refine ⟨show tty.inbuf.start + min len e.line.length ≤ tty.inbuf.stop by omega, inside, ?_⟩
        have whole : min len e.line.length = len := by omega
        change slice tty.inbuf.data (tty.inbuf.start + min len e.line.length)
          (tty.inbuf.stop - (tty.inbuf.start + min len e.line.length)) = e.line.drop len
        rw [whole, ← h.line, unread, drop_slice (by omega)]
        congr 1
        omega

end TTY

/-- Every call is of a terminal in order whose buffer holds the line of the editor, and the
readers got what the editor has delivered. -/
structure LineOk (s : LineState) : Prop where
  tty : s.tty.Ok
  shows : s.tty.inbuf.Shows s.editor
  got : s.got = s.editor.delivered
  inside : s.outside = false

/-- Reads are always in order, bytes under `TTY.inputOk`. -/
def lineOk (s : LineState) : LineCall → Bool
  | .byte _ c => s.tty.inputOk c
  | .read _ _ => true

theorem Editor.edit_delivered (tty : TTY) (c : UInt8) (e : Editor) :
    (e.edit tty c).delivered = e.delivered := by
  have accept : (e.accept (tty.lflag TTY.ICANON) c).delivered = e.delivered := by
    unfold Editor.accept
    split <;> rfl
  unfold Editor.edit
  split
  · exact accept
  · exact accept
  · split
    · exact accept
    · rfl
  · unfold Editor.erase
    split <;> rfl
  all_goals rfl

theorem lineStep_ok {s t : LineState} {call : LineCall} (h : LineOk s)
    (fine : lineOk s call = true) (step : lineStep s call = some t) : LineOk t := by
  cases call with
  | byte shown c =>
    obtain ⟨tty, eq, ok, shows, -⟩ := @TTY.processInput_edits s.tty shown c s.editor h.tty h.shows fine
    unfold lineStep at step
    dsimp only at step
    rw [eq] at step
    cases step
    exact ⟨ok, shows, h.got.trans (s.editor.edit_delivered _ _).symm, h.inside⟩
  | read len nonblock =>
    obtain ⟨tty, eq, ok, shows⟩ := @TTY.read_delivers s.tty s.editor len nonblock h.tty h.shows
    unfold lineStep at step
    dsimp only at step
    split at step
    · cases step
    rw [eq] at step
    cases step
    exact ⟨ok, shows, congrArg (· ++ _) h.got, h.inside⟩

/-- A terminal with nothing to read. -/
def LineState.fresh (tty : TTY) : LineState where
  tty := { tty with inbuf := ⟨tty.inbuf.data, 0, 0⟩ }
  editor := ⟨[], []⟩
  got := []
  outside := false

theorem fresh_ok {tty : TTY} (ok : tty.Ok) : LineOk (.fresh tty) :=
  ⟨ok.setBuffer _, ⟨le_rfl, zero_le _, rfl⟩, rfl, rfl⟩

/-- Every run of bytes and reads that meet `lineOk`, from a terminal in order with any settings,
keeps the indices in order, makes no access outside of a buffer and delivers to the readers
what the editor delivers; the rest of the line is in the buffer. -/
theorem line_discipline_edits {tty : TTY} {calls : List LineCall} {t : LineState} (ok : tty.Ok)
    (run : Runs.Run (Runs.Guarded (fun s call => lineOk s call = true)
      (Runs.partialGraph lineStep)) (.fresh tty) calls t) :
    t.tty.inbuf.start ≤ t.tty.inbuf.stop ∧ t.tty.inbuf.stop ≤ TTY_BUFFER_SIZE ∧
      t.outside = false ∧ t.got = t.editor.delivered ∧ t.tty.inbuf.unread = t.editor.line := by
  have inv : LineOk t := run.invariant (I := LineOk)
    (fun _ _ _ h step => lineStep_ok h step.1 step.2) (fresh_ok ok)
  exact ⟨inv.shows.order, inv.shows.inside, inv.inside, inv.got, inv.shows.line⟩

/-- A byte for the terminal that is shown. -/
def typed (c : Char) : LineCall := .byte ⟨true, 0⟩ (ch c)

/-- `a`, `b`, an erase, `c` and the end of the line: the reader gets `ac` and the rest stays. -/
theorem line_discipline_edits_ac : ∃ t, Runs.exec lineOk lineStep (.fresh defaultTty)
      [typed 'a', typed 'b', .byte ⟨true, 0⟩ 0o37, typed 'c', typed '\n', .read 2 false] = some t ∧
    t.got = t.editor.delivered ∧ t.got = [97, 99] ∧ t.tty.inbuf.unread = [10] := by
  have done : (Runs.exec lineOk lineStep (.fresh defaultTty)
      [typed 'a', typed 'b', .byte ⟨true, 0⟩ 0o37, typed 'c', typed '\n', .read 2 false]).map
        (fun t => (t.got, t.tty.inbuf.unread)) = some ([97, 99], [10]) := by decide +kernel
  obtain ⟨t, ht, facts⟩ := Option.map_eq_some_iff.1 done
  simp only [Prod.mk.injEq] at facts
  obtain ⟨-, -, -, got, -⟩ := line_discipline_edits defaultTty_ok (Runs.run_of_exec ht)
  exact ⟨t, ht, got, facts.1, facts.2⟩

/-- Two bytes of `ab` and the end of the line are read; two erases then erase a byte that was
read. -/
theorem erase_passes_start :
    ¬∀ (tty : TTY) (calls : List LineCall) (t : LineState), tty.Ok →
      Runs.Run (Runs.partialGraph lineStep) (.fresh tty) calls t →
      t.tty.inbuf.start ≤ t.tty.inbuf.stop ∧ t.tty.inbuf.stop ≤ TTY_BUFFER_SIZE ∧
        t.outside = false ∧ t.got = t.editor.delivered ∧ t.tty.inbuf.unread = t.editor.line := by
  intro claim
  have after : (Runs.exec (fun _ _ => true) lineStep (.fresh defaultTty)
      [typed 'a', typed 'b', typed '\n', .read 2 false, .byte ⟨true, 0⟩ 0o37,
        .byte ⟨true, 0⟩ 0o37]).map (fun t => (t.tty.inbuf.start, t.tty.inbuf.stop)) =
      some (2, 1) := by decide +kernel
  obtain ⟨t, ht, facts⟩ := Option.map_eq_some_iff.1 after
  simp only [Prod.mk.injEq] at facts
  have order := (claim defaultTty _ t defaultTty_ok
    ((Runs.run_of_exec ht).mono fun _ _ _ step => step.2)).1
  omega

end Os0
