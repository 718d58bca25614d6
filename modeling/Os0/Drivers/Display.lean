import Os0.Drivers.LineEdit

/-! Several terminals on one display (`drivers/vga.c`, `tty_set_active` in `drivers/tty-line.c`):
the hardware buffer shows the screen of the active terminal. -/
namespace Os0

open TTY Function

/-- `ttys`, of which only entries are used that have a terminal, `active_tty` and `vga_hdw_buf`,
which a routine for one terminal finds in its `hdw`. -/
structure Display where
  ttys : Nat → TTY
  active : Nat
  hdw : Nat → UInt16

/-- The output routines for one terminal; those for strings are loops over them. -/
inductive OutputCall
  | putchar (c : UInt8)
  | writeChar (c : UInt8)
  | processOutput (c : UInt8) (arg : Nat)
  | eraseChar
  | eraseLine (len : Nat)
  | clear

inductive DisplayCall
  | output (term : Nat) (call : OutputCall)
  | setActive (term : Nat)

def TTY.vgaClear (shown : ShownTTY) (tty : TTY) : TTY :=
  { tty with screenbuf := fun i =>
      if i < VGA_SCREEN_WIDTH * VGA_SCREEN_HEIGHT then vgaMkentry (ch ' ') tty.color
      else tty.screenbuf i }.vgaUpdateDisplay shown

def OutputCall.run (shown : ShownTTY) (tty : TTY) : OutputCall → Option TTY
  | putchar c => tty.vgaDisplayPutchar shown c
  | writeChar c => tty.vt100WriteChar shown c
  | processOutput c arg => tty.processOutput shown c arg
  | eraseChar => tty.vgaEraseChar shown
  | eraseLine len => tty.vgaEraseLine shown len
  | clear => some (tty.vgaClear shown)

theorem OutputCall.run_safe {shown : ShownTTY} {tty : TTY} (ok : tty.Ok) (call : OutputCall) :
    Safe shown tty (call.run shown tty) := by
  cases call with
  | putchar => exact vgaDisplayPutchar_safe ok
  | writeChar => exact vt100WriteChar_safe ok
  | processOutput => exact processOutput_safe ok
  | eraseChar => exact vgaEraseChar_safe ok
  | eraseLine => exact vgaEraseLine_safe ok
  | clear => exact vgaUpdateDisplay_safe ok fun _ => rfl

namespace Display

/-- `none` is an access outside of a buffer. -/
def step (d : Display) : DisplayCall → Option Display
  | .output term call =>
    (call.run ⟨term == d.active, (d.ttys d.active).termios.iflag⟩
      { d.ttys term with hdw := d.hdw }).map fun t =>
        { d with ttys := update d.ttys term t, hdw := t.hdw }
  | .setActive term =>
    some { d with active := term, hdw := { d.ttys term with hdw := d.hdw }.copyScreen.hdw }

/-- The display after `vga_init`; terminal 0 is `default_tty`. -/
def vgaInit (ttys : Nat → TTY) (hdw : Nat → UInt16) : Display where
  ttys := update ttys 0 defaultTty
  active := 0
  hdw := { defaultTty with hdw }.copyScreen.hdw

/-- The hardware buffer shows the screen of the active terminal. -/
def Mirrors (d : Display) : Prop :=
  ∀ i < VGA_SCREEN_WIDTH * VGA_SCREEN_HEIGHT, d.hdw i = (d.ttys d.active).screenbuf i

theorem update_ok {ttys : Nat → TTY} {t : TTY} (ok : ∀ k, (ttys k).Ok) (new : t.Ok) (term k : Nat) :
    (update ttys term t k).Ok := by
  rw [update_apply]
  split
  · exact new
  · exact ok k

/-- Output to the active terminal keeps its screen on the display, and other output keeps off the
display. -/
theorem step_mirrors {d : Display} (ok : ∀ k, (d.ttys k).Ok) (mirrors : d.Mirrors)
    (call : DisplayCall) : ∃ d', d.step call = some d' ∧ (∀ k, (d'.ttys k).Ok) ∧ d'.Mirrors := by
  cases call with
  | setActive term => exact ⟨_, rfl, ok, fun _ hi => if_pos hi⟩
  | output term call =>
    have start : TTY.Ok { d.ttys term with hdw := d.hdw } := { ok term with }
    obtain ⟨t, run, ok', leaves⟩ :=
      @OutputCall.run_safe ⟨term == d.active, (d.ttys d.active).termios.iflag⟩ _ start call
    refine ⟨_, congrArg (Option.map _) run, update_ok ok ok' term, ?_⟩
    change ∀ i < _, t.hdw i = (update d.ttys term t d.active).screenbuf i
    by_cases this : term = d.active
    · subst this
      rw [update_self]
      exact leaves.mirrored (beq_self_eq_true _) mirrors
    · rw [update_of_ne (Ne.symm this), leaves.hidden (beq_eq_false_iff_ne.2 this)]
      exact mirrors

/-- After any output to any terminals and any switches between them. -/
theorem display_mirrors {ttys : Nat → TTY} (hdw : Nat → UInt16) (ok : ∀ k, (ttys k).Ok)
    (calls : List DisplayCall) :
    ∃ d, calls.foldlM step (vgaInit ttys hdw) = some d ∧ d.Mirrors := by
  obtain ⟨d, run, -, mirrors⟩ := Runs.foldlM_invariant calls
    (I := fun d : Display => (∀ k, (d.ttys k).Ok) ∧ d.Mirrors)
    (fun call _ d good => d.step_mirrors good.1 good.2 call)
    (s := vgaInit ttys hdw) ⟨update_ok ok defaultTty_ok 0, fun _ hi => if_pos hi⟩
  exact ⟨d, run, mirrors⟩

/-- Output to a terminal that is not shown until later. -/
theorem display_mirrors_two : ∃ d, [.output 1 (.writeChar 65), .setActive 1, .output 0 .clear].foldlM
    step (vgaInit (fun _ => defaultTty) fun _ => 0) = some d ∧ d.Mirrors :=
  display_mirrors _ (fun _ => defaultTty_ok) _

end Display

end Os0
