import Os0.Drivers.Terminal
import Os0.Lib.Runs

/-! Whatever is written to a terminal, its cursor stays on the screen, its parser in a defined
state, no access is outside of its buffers, and the display follows it if it is shown. -/
namespace Os0

open List Option

namespace TTY

/-- The cursor is on the screen, the parameter index inside the buffer of parameters and the
parser in one of its states; there are no parameters before a sequence has got to them. -/
structure Ok (tty : TTY) : Prop where
  row : tty.row < VGA_SCREEN_HEIGHT
  column : tty.column < VGA_SCREEN_WIDTH
  item : tty.curritem < 8
  state : tty.state ∈ [0, VT100_STATE_ESC, VT100_STATE_CSI, VT100_STATE_LP, VT100_STATE_RP,
    VT100_STATE_BQ]
  idle : tty.state = 0 ∨ tty.state = VT100_STATE_ESC →
    tty.curritem = 0 ∧ ∀ i < 8, tty.statebuf i = 0

/-- The hardware buffer shows the screen of the terminal. -/
def Mirrored (tty : TTY) : Prop :=
  ∀ i < VGA_SCREEN_WIDTH * VGA_SCREEN_HEIGHT, tty.hdw i = tty.screenbuf i

/-- What an output routine leaves alone: the input, and the hardware buffer if another terminal is
shown. The hardware buffer goes on showing the screen if it is this one. -/
structure Leaves (shown : ShownTTY) (tty t : TTY) : Prop where
  inbuf : t.inbuf = tty.inbuf
  termios : t.termios = tty.termios
  hidden : shown.active = false → t.hdw = tty.hdw
  mirrored : shown.active = true → tty.Mirrored → t.Mirrored

/-- An output routine that stays inside the buffers. -/
def Safe (shown : ShownTTY) (tty : TTY) (result : Option TTY) : Prop :=
  ∃ t, result = some t ∧ t.Ok ∧ Leaves shown tty t

/-- A routine that changes nothing but the screen. -/
def Paints (shown : ShownTTY) (tty : TTY) (result : Option TTY) : Prop :=
  ∃ screenbuf hdw, result = some { tty with screenbuf, hdw } ∧
    (shown.active = false → hdw = tty.hdw)

variable {tty t : TTY} {result : Option TTY} {shown : ShownTTY} {c : UInt8}

variable {f : TTY → Option TTY} {x y first last : Nat}

theorem Leaves.same (h : (t.inbuf, t.termios, t.screenbuf, t.hdw) =
    (tty.inbuf, tty.termios, tty.screenbuf, tty.hdw)) : Leaves shown tty t := by
  simp only [Prod.mk.injEq] at h
  obtain ⟨inbuf, termios, screen, hdw⟩ := h
  refine ⟨inbuf, termios, fun _ => hdw, fun _ mirrored => ?_⟩
  unfold Mirrored
  rw [hdw, screen]
  exact mirrored

theorem Leaves.trans {u : TTY} (h : Leaves shown tty t) (h' : Leaves shown t u) :
    Leaves shown tty u where
  inbuf := h'.inbuf.trans h.inbuf
  termios := h'.termios.trans h.termios
  hidden other := (h'.hidden other).trans (h.hidden other)
  mirrored this before := h'.mirrored this (h.mirrored this before)

theorem Safe.after (h : Safe shown t result) (leaves : Leaves shown tty t) :
    Safe shown tty result := by
  obtain ⟨u, eq, ok, leaves'⟩ := h
  exact ⟨u, eq, ok, leaves.trans leaves'⟩

theorem Safe.bind (h : Safe shown tty result) (next : ∀ t : TTY, t.Ok → Safe shown t (f t)) :
    Safe shown tty (result.bind f) := by
  obtain ⟨t, rfl, ok, leaves⟩ := h
  exact (next t ok).after leaves

/-! ### The screen -/

theorem Paints.refl (tty : TTY) : Paints shown tty (some tty) :=
  ⟨tty.screenbuf, tty.hdw, rfl, fun _ => rfl⟩

theorem Paints.bind (h : Paints shown tty result)
    (next : ∀ t : TTY, Paints shown t (f t)) : Paints shown tty (result.bind f) := by
  obtain ⟨screenbuf, hdw, rfl, kept⟩ := h
  obtain ⟨screenbuf', hdw', eq, kept'⟩ := next { tty with screenbuf, hdw }
  exact ⟨screenbuf', hdw', eq, fun other => (kept' other).trans (kept other)⟩

theorem paints_loop {α : Type} {f : TTY → α → Option TTY} {as : List α}
    (body : ∀ a ∈ as, ∀ t, Paints shown t (f t a)) (tty : TTY) :
    Paints shown tty (as.foldlM f tty) := by
  obtain ⟨t, eq, screenbuf, hdw, same, kept⟩ := Runs.foldlM_invariant as
    (I := fun t : TTY => ∃ screenbuf hdw, t = { tty with screenbuf, hdw } ∧
      (shown.active = false → hdw = tty.hdw))
    (fun a mem t => by
      rintro ⟨screenbuf, hdw, rfl, kept⟩
      obtain ⟨screenbuf', hdw', eq, kept'⟩ := body a mem { tty with screenbuf, hdw }
      exact ⟨_, eq, screenbuf', hdw', rfl, fun other => (kept' other).trans (kept other)⟩)
    ⟨tty.screenbuf, tty.hdw, rfl, fun _ => rfl⟩
  exact ⟨screenbuf, hdw, same ▸ eq, kept⟩

theorem vgaPutentry_eq (hx : x < VGA_SCREEN_WIDTH) (hy : y < VGA_SCREEN_HEIGHT) (tty : TTY) :
    ∃ i e, tty.vgaPutentry shown c x y = some { tty with
      screenbuf := Function.update tty.screenbuf i e
      hdw := if shown.active then Function.update tty.hdw i e else tty.hdw } := by
  have inside : vgaGetindex x y < VGA_SCREEN_WIDTH * VGA_SCREEN_HEIGHT := by
    unfold vgaGetindex VGA_SCREEN_WIDTH VGA_SCREEN_HEIGHT at *
    omega
  unfold vgaPutentry
  rw [if_pos inside]
  exact ⟨_, _, rfl⟩

theorem vgaPutentry_paints (hx : x < VGA_SCREEN_WIDTH) (hy : y < VGA_SCREEN_HEIGHT)
    (tty : TTY) : Paints shown tty (tty.vgaPutentry shown c x y) := by
  obtain ⟨_, _, eq⟩ := @vgaPutentry_eq shown c x y hx hy tty
  exact ⟨_, _, eq, fun other => if_neg (ne_true_of_eq_false other)⟩

theorem vgaPutentry_safe (hx : x < VGA_SCREEN_WIDTH) (hy : y < VGA_SCREEN_HEIGHT) (ok : tty.Ok) :
    Safe shown tty (tty.vgaPutentry shown c x y) := by
  obtain ⟨i, e, eq⟩ := @vgaPutentry_eq shown c x y hx hy tty
  refine ⟨_, eq, { ok with }, rfl, rfl, fun other => if_neg (ne_true_of_eq_false other), ?_⟩
  intro this mirrored k hk
  simp only [this, if_true, Function.update_apply, mirrored k hk]

theorem blankLine_paints (hy : y < VGA_SCREEN_HEIGHT)
    (inside : last ≤ VGA_SCREEN_WIDTH) (tty : TTY) :
    Paints shown tty (tty.blankLine shown y first last) := by
  refine paints_loop (fun x mem t => vgaPutentry_paints ?_ hy t) tty
  have := mem_range'_1.1 mem
  omega

theorem blankLines_paints (inside : last ≤ VGA_SCREEN_HEIGHT) (tty : TTY) :
    Paints shown tty (tty.blankLines shown first last) := by
  refine paints_loop (fun y mem t => blankLine_paints ?_ (Nat.le_refl _) t) tty
  have := mem_range'_1.1 mem
  omega

/-- After the screen is copied the hardware buffer shows it, whatever has happened before. -/
theorem vgaUpdateDisplay_safe {screenbuf hdw : Nat → UInt16} (ok : tty.Ok)
    (kept : shown.active = false → hdw = tty.hdw) :
    Safe shown tty (some (vgaUpdateDisplay shown { tty with screenbuf, hdw })) := by
  unfold vgaUpdateDisplay
  split
  · rename_i this
    refine ⟨_, rfl, { ok with }, rfl, rfl, fun other => ?_, fun _ _ _ hi => if_pos hi⟩
    rw [this] at other
    cases other
  · rename_i other
    exact ⟨_, rfl, { ok with }, rfl, rfl, kept, fun this => absurd this other⟩

theorem wrap_safe (ok : tty.Ok) : Safe shown tty (tty.wrap shown) := by
  unfold wrap
  split
  · have moved := @paints_loop shown _ moveUp (range' VGA_SCREEN_WIDTH
      (VGA_SCREEN_WIDTH * VGA_SCREEN_HEIGHT - VGA_SCREEN_WIDTH)) (fun i mem t => by
        have inside := (mem_range'_1.1 mem).2
        unfold moveUp
        rw [if_pos (by unfold VGA_SCREEN_WIDTH VGA_SCREEN_HEIGHT at *; omega)]
        exact ⟨_, _, rfl, fun _ => rfl⟩) tty
    obtain ⟨_, _, painted, kept⟩ := moved.bind fun t =>
      @blankLine_paints shown (VGA_SCREEN_HEIGHT - 1) 0 VGA_SCREEN_WIDTH (by decide) (Nat.le_refl _) t
    obtain ⟨_, first, second⟩ := bind_eq_some_iff.1 painted
    rw [first, bind_eq_bind, bind_some, second]
    exact vgaUpdateDisplay_safe ok kept
  · have row := ok.row
    exact ⟨_, rfl, { ok with row := show tty.row + 1 < VGA_SCREEN_HEIGHT by omega }, .same rfl⟩

theorem Ok.setColumn (ok : tty.Ok) (inside : x < VGA_SCREEN_WIDTH) : Ok { tty with column := x } :=
  { ok with column := inside }

theorem advance_safe (ok : tty.Ok) : Safe shown tty (tty.advance shown) := by
  unfold advance
  split
  · have first : Ok { tty with column := 0 } := ok.setColumn (by decide)
    exact (wrap_safe first).after (.same rfl)
  · have column := ok.column
    exact ⟨_, rfl, ok.setColumn (by omega), .same rfl⟩

/-- The last column is 79, whose three low bits are set. -/
theorem tab_inside : ∀ x < VGA_SCREEN_WIDTH, x ||| 7 < VGA_SCREEN_WIDTH := by
  decide +kernel

theorem putcharBody_safe (ok : tty.Ok) : Safe shown tty (tty.putcharBody shown c) := by
  have first : Ok { tty with column := 0 } := ok.setColumn (by decide)
  have lineStart : Safe shown tty (some { tty with column := 0 }) := ⟨_, rfl, first, .same rfl⟩
  have newline : Safe shown tty ({ tty with column := 0 }.wrap shown) :=
    (wrap_safe first).after (.same rfl)
  unfold putcharBody
  split
  · exact ⟨tty, rfl, ok, .same rfl⟩
  split
  · split
    · exact lineStart
    · exact newline
  split
  · exact wrap_safe ok
  split
  · split
    · exact ⟨tty, rfl, ok, .same rfl⟩
    split
    · exact newline
    · exact lineStart
  split
  · exact (advance_safe (ok.setColumn (tab_inside _ ok.column))).after (.same rfl)
  · exact (vgaPutentry_safe ok.column ok.row ok).bind fun _ => advance_safe

theorem Safe.setcurs (h : Safe shown tty result) : Safe shown tty (result.map vgaSetcurs) := by
  obtain ⟨_, rfl, ok, leaves⟩ := h
  exact ⟨_, rfl, { ok with }, leaves.trans (.same rfl)⟩

theorem vgaDisplayPutchar_safe (ok : tty.Ok) : Safe shown tty (tty.vgaDisplayPutchar shown c) := by
  unfold vgaDisplayPutchar
  split
  · exact ⟨tty, rfl, ok, .same rfl⟩
  · exact (putcharBody_safe ok).setcurs

/-! ### The parser -/

theorem resetState_ok (row : tty.row < VGA_SCREEN_HEIGHT) (column : tty.column < VGA_SCREEN_WIDTH) :
    tty.resetState.Ok :=
  ⟨row, column, Nat.zero_lt_succ _, mem_cons_self, fun _ =>
    ⟨rfl, fun _ lt => if_pos lt⟩⟩

theorem resetState_safe (ok : tty.Ok) : Safe shown tty (some tty.resetState) :=
  ⟨_, rfl, resetState_ok ok.row ok.column, .same rfl⟩

theorem Paints.reset (h : Paints shown tty result) (ok : tty.Ok) :
    Safe shown tty (result.map fun t => (t.vgaUpdateDisplay shown).resetState) := by
  obtain ⟨screenbuf, hdw, rfl, kept⟩ := h
  exact (vgaUpdateDisplay_safe ok kept).bind fun _ => resetState_safe

theorem clearScreen_safe (ok : tty.Ok) : Safe shown tty (tty.clearScreen shown) := by
  refine Paints.reset ?_ ok
  have width := Nat.le_of_lt ok.column
  split
  · exact (blankLine_paints ok.row (Nat.le_refl _) tty).bind (blankLines_paints (Nat.le_refl _))
  · exact (blankLine_paints ok.row width tty).bind (blankLines_paints (Nat.le_of_lt ok.row))
  · exact blankLines_paints (Nat.le_refl _) tty
  · exact .refl tty

theorem clearLine_safe (ok : tty.Ok) : Safe shown tty (tty.clearLine shown) := by
  refine Paints.reset ?_ ok
  split
  · exact blankLine_paints ok.row (Nat.le_refl _) tty
  · exact blankLine_paints ok.row (Nat.le_of_lt ok.column) tty
  · exact blankLine_paints ok.row (Nat.le_refl _) tty
  · exact .refl tty

/-- Colors and flags change, and nothing else. -/
theorem sgrItem_eq {i : Nat} (inside : i < 8) (tty : TTY) :
    ∃ color flags, tty.sgrItem i = some { tty with color, flags } := by
  unfold sgrItem
  rw [if_pos inside]
  dsimp only
  split
  · exact ⟨_, _, rfl⟩
  split
  · exact ⟨_, _, rfl⟩
  split
  · exact ⟨_, _, rfl⟩
  split
  all_goals exact ⟨_, _, rfl⟩

theorem setSgr_safe (ok : tty.Ok) : Safe shown tty tty.setSgr := by
  obtain ⟨t, eq, color, flags, same⟩ := Runs.foldlM_invariant
    (range (tty.curritem + 1))
    (I := fun t : TTY => ∃ color flags, t = { tty with color, flags }) (f := sgrItem)
    (fun i mem t => by
      rintro ⟨color, flags, rfl⟩
      have inside := mem_range.1 mem
      have item := ok.item
      obtain ⟨color', flags', eq⟩ := sgrItem_eq (show i < 8 by omega) { tty with color, flags }
      exact ⟨_, eq, color', flags', rfl⟩)
    ⟨tty.color, tty.flags, rfl⟩
  unfold setSgr
  rw [eq, same]
  exact ⟨_, rfl, resetState_ok ok.row ok.column, .same rfl⟩

theorem position_lt {item : UInt8} {size : Nat} (pos : 0 < size) : position item size < size := by
  unfold position
  split <;> omega

theorem setCursorPos_safe (tty : TTY) : Safe shown tty (some tty.setCursorPos) :=
  ⟨_, rfl, resetState_ok (position_lt (by decide)) (position_lt (by decide)), .same rfl⟩

theorem addDigitChar_safe (ok : tty.Ok) (inside : tty.state ≠ 0 ∧ tty.state ≠ VT100_STATE_ESC) :
    Safe shown tty (tty.addDigitChar c) := by
  unfold addDigitChar
  rw [if_pos ok.item]
  refine ⟨_, rfl, { ok with idle := fun idle => ?_ }, .same rfl⟩
  exact absurd idle (not_or.2 inside)

theorem handleEsc_safe (ok : tty.Ok) : Safe shown tty (some (tty.handleEsc c)) := by
  -- the parser goes on, without parameters so far
  have goes (state : Nat) (defined : state ∈ [0, VT100_STATE_ESC, VT100_STATE_CSI, VT100_STATE_LP,
      VT100_STATE_RP, VT100_STATE_BQ]) (inside : ¬(state = 0 ∨ state = VT100_STATE_ESC)) :
      Safe shown tty (some { tty with state }) :=
    ⟨_, rfl, { ok with state := defined, idle := fun idle => absurd idle inside }, .same rfl⟩
  have keypad (on : Bool) : Safe shown tty (some (tty.setAltKeypad on)) := by
    cases on <;> exact ⟨_, rfl, resetState_ok ok.row ok.column, .same rfl⟩
  unfold handleEsc
  split
  · exact goes _ (by decide) (by decide)
  split
  · exact goes _ (by decide) (by decide)
  split
  · exact goes _ (by decide) (by decide)
  split
  · exact keypad true
  split
  · exact keypad false
  · exact resetState_safe ok

theorem handleCsi_safe (ok : tty.Ok) (csi : tty.state = VT100_STATE_CSI) :
    Safe shown tty (tty.handleCsi shown c) := by
  have inside : tty.state ≠ 0 ∧ tty.state ≠ VT100_STATE_ESC := by
    rw [csi]
    decide
  unfold handleCsi
  split
  · exact ⟨_, rfl, ⟨ok.row, ok.column, ok.item, show VT100_STATE_BQ ∈ _ by decide, fun idle =>
      absurd idle (show ¬(VT100_STATE_BQ = 0 ∨ VT100_STATE_BQ = VT100_STATE_ESC) by decide)⟩,
      .same rfl⟩
  split
  · exact resetState_safe ok
  split
  · exact setSgr_safe ok
  split
  · exact setCursorPos_safe tty
  split
  · exact clearScreen_safe ok
  split
  · exact clearLine_safe ok
  split
  · split
    · exact resetState_safe ok
    · have item := ok.item
      exact ⟨_, rfl, ⟨ok.row, ok.column, show tty.curritem + 1 < 8 by omega, ok.state, fun idle =>
        absurd idle (not_or.2 inside)⟩, .same rfl⟩
  split
  · exact addDigitChar_safe ok inside
  · exact resetState_safe ok

theorem handleEscapedChar_safe (ok : tty.Ok) : Safe shown tty (tty.handleEscapedChar shown c) := by
  unfold handleEscapedChar
  split
  · exact handleEsc_safe ok
  split
  · exact handleCsi_safe ok ‹_›
  split
  · rename_i bq
    refine addDigitChar_safe ok ?_
    rw [bq.1]
    decide
  · exact resetState_safe ok

theorem vt100WriteChar_safe (ok : tty.Ok) : Safe shown tty (tty.vt100WriteChar shown c) := by
  unfold vt100WriteChar
  split
  · exact handleEscapedChar_safe ok
  rename_i outside
  have outside : tty.state = 0 := not_not.1 outside
  split
  · exact ⟨_, rfl, ⟨ok.row, ok.column, ok.item, show VT100_STATE_ESC ∈ _ by decide, fun _ =>
      ok.idle (.inl outside)⟩, .same rfl⟩
  split
  · exact vgaDisplayPutchar_safe ok
  · exact ⟨tty, rfl, ok, .same rfl⟩

end TTY

theorem defaultTty_ok : defaultTty.Ok where
  row := by decide
  column := by decide
  item := by decide
  state := by decide
  idle := fun _ => ⟨rfl, fun _ _ => rfl⟩

/-- Every string of bytes, written while any terminal is shown, is processed without an access
outside of the screen buffer or the buffer of parameters. Then the cursor is on the screen, the
index of the parameter below 8, the parser in one of its states, and outside of a sequence
there are no parameters. -/
theorem terminal_stays_inside (data : List (ShownTTY × UInt8)) :
    ∃ t, defaultTty.writeData data = some t ∧ t.row < 25 ∧ t.column < 80 ∧ t.curritem < 8 ∧
      t.state ∈ [0, VT100_STATE_ESC, VT100_STATE_CSI, VT100_STATE_LP, VT100_STATE_RP,
        VT100_STATE_BQ] ∧
      (t.state = 0 → t.curritem = 0 ∧ ∀ i < 8, t.statebuf i = 0) := by
  obtain ⟨t, eq, ok⟩ := Runs.foldlM_invariant data (I := TTY.Ok)
    (f := fun tty (byte : ShownTTY × UInt8) => tty.vt100WriteChar byte.1 byte.2)
    (fun byte _ tty ok => by
      obtain ⟨t, eq, ok', -⟩ := @TTY.vt100WriteChar_safe tty byte.1 byte.2 ok
      exact ⟨t, eq, ok'⟩)
    defaultTty_ok
  exact ⟨t, eq, ok.row, ok.column, ok.item, ok.state, fun outside => ok.idle (.inl outside)⟩

/-! ### Cursor addressing -/

/-- The digits of a decimal numeral as bytes, and the number that they make of `n`. -/
def numeral (digits : List (Fin 10)) : List UInt8 := digits.map fun d => ch '0' + .ofNat d
def numeralValue (n : Nat) (digits : List (Fin 10)) : Nat :=
  digits.foldl (fun n d => n * 10 + d.val) n

/-- `ESC [ r ; c H`. -/
def cursorBytes (r c : List (Fin 10)) : List UInt8 :=
  27 :: ch '[' :: (numeral r ++ ch ';' :: (numeral c ++ [ch 'H']))

namespace TTY

variable {tty : TTY} {shown : ShownTTY}

theorem vt100WriteChar_digit (csi : tty.state = VT100_STATE_CSI) (d : Fin 10) :
    tty.vt100WriteChar shown (ch '0' + .ofNat d) = tty.addDigitChar (ch '0' + .ofNat d) := by
  have other : ∀ d : Fin 10, isdigit (ch '0' + .ofNat d) ∧ ch '0' + UInt8.ofNat d ∉
      [ch '?', ch 'h', ch 'l', ch 'r', ch 'm', ch 'H', ch 'J', ch 'K', ch ';'] := by decide
  have := other d
  simp only [mem_cons, not_or] at this
  simp [vt100WriteChar, handleEscapedChar, handleCsi, csi, this, VT100_STATE_CSI, VT100_STATE_ESC]

/-- A numeral is added up modulo 256 in the parameter that it belongs to. -/
theorem writeData_numeral (digits : List (Fin 10)) (k : Nat) {n : Nat}
    (csi : tty.state = VT100_STATE_CSI) (item : tty.curritem = k) (inside : k < 8)
    (so_far : tty.statebuf k = .ofNat n) :
    tty.writeData ((numeral digits).map (shown, ·)) = some { tty with
      statebuf := Function.update tty.statebuf k (.ofNat (numeralValue n digits)) } := by
  induction digits generalizing tty n with
  | nil =>
    rw [numeralValue, foldl_nil, ← so_far, Function.update_eq_self]
    rfl
  | cons d digits ih =>
    have sum : UInt8.ofNat n * 10 + (ch '0' + .ofNat d) - ch '0' = .ofNat (n * 10 + d) := by
      rw [UInt8.add_comm (ch '0'), ← UInt8.add_assoc, UInt8.add_sub_cancel, UInt8.ofNat_add,
        UInt8.ofNat_mul]
      rfl
    subst item
    rw [numeral, map_cons, map_cons, writeData, foldlM_cons, vt100WriteChar_digit csi, addDigitChar,
      if_pos inside, so_far, sum]
    refine (@ih { tty with statebuf := Function.update tty.statebuf _ (.ofNat (n * 10 + d)) } _ csi
      rfl (Function.update_self ..)).trans ?_
    simp [numeralValue]

theorem position_exact_iff {n size : Nat} (pos : 1 < size) (small : size ≤ 256) :
    position (.ofNat n) size = min (max n 1) size - 1 ↔ n < 256 ∨ size ≤ n % 256 := by
  rw [position, UInt8.toNat_ofNat']
  split <;> omega

/-- The cursor gets to the row and the column that the numerals name, as far as the screen goes,
and the screen stays. -/
def CursorAddressed (tty : TTY) (shown : ShownTTY) (r c : List (Fin 10)) : Prop :=
  ∃ t, tty.writeData ((cursorBytes r c).map (shown, ·)) = some t ∧
    t.row = min (max (numeralValue 0 r) 1) 25 - 1 ∧
    t.column = min (max (numeralValue 0 c) 1) 80 - 1 ∧ t.cursor = vgaGetindex t.column t.row ∧
    t.screenbuf = tty.screenbuf ∧ t.hdw = tty.hdw

/-- Each parameter is a byte, so the cursor gets there exactly if each number is below 256 or its
last byte is at the edge as well. -/
theorem cursor_addressed_iff (ok : tty.Ok) (outside : tty.state = 0) (r c : List (Fin 10)) :
    CursorAddressed tty shown r c ↔ (numeralValue 0 r < 256 ∨ 25 ≤ numeralValue 0 r % 256) ∧
      (numeralValue 0 c < 256 ∨ 80 ≤ numeralValue 0 c % 256) := by
  obtain ⟨item, zero⟩ := ok.idle (.inl outside)
  have row := @position_exact_iff (numeralValue 0 r) 25 (by decide) (by decide)
  have column := @position_exact_iff (numeralValue 0 c) 80 (by decide) (by decide)
  have done : ∃ t, tty.writeData ((cursorBytes r c).map (shown, ·)) = some t ∧
      t.row = position (.ofNat (numeralValue 0 r)) 25 ∧
      t.column = position (.ofNat (numeralValue 0 c)) 80 ∧ t.cursor = vgaGetindex t.column t.row ∧
      t.screenbuf = tty.screenbuf ∧ t.hdw = tty.hdw := by
    clear row column ok
    cases tty
    cases outside
    cases item
    simp only [cursorBytes, map_cons, map_append, map_nil, writeData, foldlM_cons, foldlM_append,
      foldlM_nil]
    exact ⟨_, bind_eq_some_iff.2 ⟨_, rfl, bind_eq_some_iff.2 ⟨_, rfl, bind_eq_some_iff.2
      ⟨_, writeData_numeral r 0 rfl rfl (by decide) (zero 0 (by decide)), bind_eq_some_iff.2
      ⟨_, rfl, bind_eq_some_iff.2
      ⟨_, writeData_numeral c 1 rfl rfl (by decide) (zero 1 (by decide)), rfl⟩⟩⟩⟩⟩, rfl, rfl, rfl,
      rfl, rfl⟩
  obtain ⟨t, eq, at_row, at_column, same⟩ := done
  rw [← row, ← column, ← at_row, ← at_column]
  constructor
  · rintro ⟨_, eq', there, there', -⟩
    cases eq.symm.trans eq'
    exact ⟨there, there'⟩
  · rintro ⟨there, there'⟩
    exact ⟨t, eq, there, there', same⟩

/-- Row 12 and no column, and a row behind the last one. -/
theorem cursor_addressed_iff_rows : CursorAddressed defaultTty ⟨true, 0⟩ [1, 2] [] ∧
    CursorAddressed defaultTty ⟨true, 0⟩ [3, 0, 0] [] :=
  ⟨(cursor_addressed_iff defaultTty_ok rfl _ _).2 (by decide),
    (cursor_addressed_iff defaultTty_ok rfl _ _).2 (by decide)⟩

/-- Row 257 is the first and not the last. -/
theorem cursor_row_wraps : ¬CursorAddressed defaultTty ⟨true, 0⟩ [2, 5, 7] [1] := by
  rintro ⟨t, done, row, -⟩
  have first : (defaultTty.writeData ((cursorBytes [2, 5, 7] [1]).map (⟨true, 0⟩, ·))).map (·.row) =
      some 0 := by decide +kernel
  rw [done, map_some, row] at first
  exact absurd first (by decide)

end TTY

end Os0
