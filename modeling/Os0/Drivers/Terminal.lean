import Mathlib.Logic.Function.Basic
import Os0.Libk.Ctype

/-! Terminals: the screen (`drivers/vga.c`), the VT100 emulation (`drivers/vt100.c`) and the
parts of `drivers/tty-line.c` that it uses. Port output and the speaker are left out. -/
namespace Os0

def VGA_SCREEN_WIDTH : Nat := 80
def VGA_SCREEN_HEIGHT : Nat := 25
def TTY_BUFFER_SIZE : Nat := 4096

def TTY_INPUT_READY : UInt32 := 0x0001
def TTY_REVERSE_VIDEO : UInt32 := 0x0002
def TTY_QUOTE_INPUT : UInt32 := 0x0004
def TTY_ALT_KEYPAD : UInt32 := 0x0008

def INLCR : UInt32 := 0x0040
def IGNCR : UInt32 := 0x0080
def ICRNL : UInt32 := 0x0100

/-- The states of the VT100 emulation; 0 is that outside of a sequence. -/
def VT100_STATE_ESC : Nat := 1
def VT100_STATE_CSI : Nat := 2
def VT100_STATE_LP : Nat := 3
def VT100_STATE_RP : Nat := 4
def VT100_STATE_BQ : Nat := 5

inductive VGAColor
  | black | blue | green | cyan | red | magenta | brown | lightGrey
  | darkGrey | lightBlue | lightGreen | lightCyan | lightRed | lightMagenta | yellow | white
  deriving DecidableEq, Repr

def VGAColor.code : VGAColor → UInt8
  | black => 0 | blue => 1 | green => 2 | cyan => 3
  | red => 4 | magenta => 5 | brown => 6 | lightGrey => 7
  | darkGrey => 8 | lightBlue => 9 | lightGreen => 10 | lightCyan => 11
  | lightRed => 12 | lightMagenta => 13 | yellow => 14 | white => 15

def vgaMkcolor (fg bg : VGAColor) : UInt8 := fg.code ||| bg.code <<< 4
def vgaSetfg (color : UInt8) (fg : VGAColor) : UInt8 := (color &&& (0xf0 : UInt8)) ||| fg.code
def vgaSetbg (color : UInt8) (bg : VGAColor) : UInt8 := (color &&& (0x0f : UInt8)) ||| bg.code <<< 4
def VGA_DEFAULT_COLOR : UInt8 := vgaMkcolor .lightGrey .black

/-- `vga_mkentry`, which extends the sign of the character. -/
def vgaMkentry (c color : UInt8) : UInt16 :=
  (if c < 128 then c.toUInt16 else c.toUInt16 ||| 0xff00) ||| color.toUInt16 <<< 8

def vgaGetindex (x y : Nat) : Nat := y * VGA_SCREEN_WIDTH + x

structure TTYInputBuffer where
  data : Nat → UInt8
  start : Nat
  /-- `tb_end`. -/
  stop : Nat

/-- The entries of `c_cc` that the line discipline reads. -/
inductive ControlChar
  | VINTR | VQUIT | VERASE | VKILL | VEOF | VTIME | VMIN | VSUSP | VEOL | VREPRINT | VWERASE
  | VLNEXT | VEOL2
  deriving DecidableEq, Repr

structure Termios where
  iflag : UInt32
  lflag : UInt32
  cc : ControlChar → UInt8

structure TTY where
  screenbuf : Nat → UInt16
  inbuf : TTYInputBuffer
  row : Nat
  column : Nat
  color : UInt8
  flags : UInt32
  termios : Termios
  state : Nat
  statebuf : Nat → UInt8
  curritem : Nat
  /-- `vga_hdw_buf`. -/
  hdw : Nat → UInt16
  /-- The position given to the cursor. -/
  cursor : Nat

/-- What the output routines see of the terminal that is shown: whether it is this one, and its
`c_iflag`. -/
structure ShownTTY where
  active : Bool
  iflag : UInt32

namespace TTY

def setFlags (tty : TTY) (mask : UInt32) : TTY := { tty with flags := tty.flags ||| mask }
def clearFlags (tty : TTY) (mask : UInt32) : TTY := { tty with flags := tty.flags &&& ~~~mask }
def hasFlags (tty : TTY) (mask : UInt32) : Bool := tty.flags &&& mask != 0

/-- `vga_putentry`; `none` is a write outside of the screen buffer. -/
def vgaPutentry (shown : ShownTTY) (c : UInt8) (x y : Nat) (tty : TTY) : Option TTY :=
  let color := if tty.hasFlags TTY_REVERSE_VIDEO then
      (tty.color &&& 0xf0) >>> 4 ||| (tty.color &&& 0x0f) <<< 4
    else tty.color
  let i := vgaGetindex x y
  if i < VGA_SCREEN_WIDTH * VGA_SCREEN_HEIGHT then
    some { tty with
      screenbuf := Function.update tty.screenbuf i (vgaMkentry c color)
      hdw := if shown.active then Function.update tty.hdw i (vgaMkentry c color) else tty.hdw }
  else none

/-- Put blanks into the columns from `first` to `last` of a line. -/
def blankLine (shown : ShownTTY) (y first last : Nat) (tty : TTY) : Option TTY :=
  (List.range' first (last - first)).foldlM (fun tty x => tty.vgaPutentry shown (ch ' ') x y) tty

/-- Put blanks into the lines from `first` to `last`. -/
def blankLines (shown : ShownTTY) (first last : Nat) (tty : TTY) : Option TTY :=
  (List.range' first (last - first)).foldlM
    (fun tty y => tty.blankLine shown y 0 VGA_SCREEN_WIDTH) tty

def vgaSetcurs (tty : TTY) : TTY := { tty with cursor := vgaGetindex tty.column tty.row }

/-- Copy the screen buffer to the hardware. -/
def copyScreen (tty : TTY) : TTY :=
  { tty with hdw := fun i =>
      if i < VGA_SCREEN_WIDTH * VGA_SCREEN_HEIGHT then tty.screenbuf i else tty.hdw i }

def vgaUpdateDisplay (shown : ShownTTY) (tty : TTY) : TTY :=
  if shown.active then tty.copyScreen else tty

/-- Move an entry of the screen buffer one line up. -/
def moveUp (tty : TTY) (i : Nat) : Option TTY :=
  if i < VGA_SCREEN_WIDTH * VGA_SCREEN_HEIGHT then
    some { tty with
      screenbuf := Function.update tty.screenbuf (i - VGA_SCREEN_WIDTH) (tty.screenbuf i) }
  else none

/-- The label `wrap` of `vga_display_putchar`. -/
def wrap (shown : ShownTTY) (tty : TTY) : Option TTY :=
  if tty.row + 1 = VGA_SCREEN_HEIGHT then do
    let tty ← (List.range' VGA_SCREEN_WIDTH
      (VGA_SCREEN_WIDTH * VGA_SCREEN_HEIGHT - VGA_SCREEN_WIDTH)).foldlM moveUp tty
    let tty ← tty.blankLine shown (VGA_SCREEN_HEIGHT - 1) 0 VGA_SCREEN_WIDTH
    some (tty.vgaUpdateDisplay shown)
  else some { tty with row := tty.row + 1 }

/-- The end of `vga_display_putchar` for a character that takes a column. -/
def advance (shown : ShownTTY) (tty : TTY) : Option TTY :=
  if tty.column + 1 = VGA_SCREEN_WIDTH then { tty with column := 0 }.wrap shown
  else some { tty with column := tty.column + 1 }

/-- The `switch` of `vga_display_putchar`. -/
def putcharBody (shown : ShownTTY) (c : UInt8) (tty : TTY) : Option TTY :=
  if c = 7 then some tty
  else if c = ch '\n' then
    if shown.iflag &&& INLCR != 0 then some { tty with column := 0 }
    else { tty with column := 0 }.wrap shown
  else if c = 11 ∨ c = 12 then tty.wrap shown
  else if c = ch '\r' then
    if shown.iflag &&& IGNCR != 0 then some tty
    else if shown.iflag &&& ICRNL != 0 then { tty with column := 0 }.wrap shown
    else some { tty with column := 0 }
  else if c = ch '\t' then { tty with column := tty.column ||| 7 }.advance shown
  else (tty.vgaPutentry shown c tty.column tty.row).bind (advance shown)

def vgaDisplayPutchar (shown : ShownTTY) (c : UInt8) (tty : TTY) : Option TTY :=
  if c = 0 then some tty else (tty.putcharBody shown c).map vgaSetcurs

/-- `tty_reset_state`. -/
def resetState (tty : TTY) : TTY :=
  { tty with
    state := 0
    statebuf := fun i => if i < 8 then 0 else tty.statebuf i
    curritem := 0 }

/-- `tty_add_digit_char`; `none` is a write outside of `t_statebuf`. -/
def addDigitChar (c : UInt8) (tty : TTY) : Option TTY :=
  if tty.curritem < 8 then
    some { tty with
      statebuf := Function.update tty.statebuf tty.curritem
        (tty.statebuf tty.curritem * 10 + c - ch '0') }
  else none

/-- `tty_set_alt_keypad`. -/
def setAltKeypad (on : Bool) (tty : TTY) : TTY :=
  (if on then tty.setFlags TTY_ALT_KEYPAD else tty.clearFlags TTY_ALT_KEYPAD).resetState

/-- The colors that the parameters 30 to 37 and 40 to 47 stand for. -/
def sgrColor : Nat → VGAColor
  | 0 => .black
  | 1 => .red
  | 2 => .green
  | 3 => .yellow
  | 4 => .blue
  | 5 => .magenta
  | 6 => .cyan
  | _ => .white

/-- The loop body of `vt100_set_sgr`. -/
def sgrItem (tty : TTY) (i : Nat) : Option TTY :=
  if i < 8 then
    let item := (tty.statebuf i).toNat
    some (
      if item = 0 then { tty.clearFlags TTY_REVERSE_VIDEO with color := VGA_DEFAULT_COLOR }
      else if item = 7 then tty.setFlags TTY_REVERSE_VIDEO
      else if 30 ≤ item ∧ item ≤ 37 then
        { tty with color := vgaSetfg tty.color (sgrColor (item - 30)) }
      else if 40 ≤ item ∧ item ≤ 47 then
        { tty with color := vgaSetbg tty.color (sgrColor (item - 40)) }
      else tty)
  else none

/-- `vt100_set_sgr`. -/
def setSgr (tty : TTY) : Option TTY :=
  ((List.range (tty.curritem + 1)).foldlM sgrItem tty).map resetState

/-- A parameter of `vt100_set_cursor_pos`, counted from 1. -/
def position (item : UInt8) (size : Nat) : Nat :=
  if size ≤ item.toNat - 1 then size - 1 else item.toNat - 1

/-- `vt100_set_cursor_pos`. -/
def setCursorPos (tty : TTY) : TTY :=
  ({ tty with
    row := position (tty.statebuf 0) VGA_SCREEN_HEIGHT
    column := position (tty.statebuf 1) VGA_SCREEN_WIDTH } : TTY).vgaSetcurs.resetState

/-- `vt100_clear_screen`. -/
def clearScreen (shown : ShownTTY) (tty : TTY) : Option TTY :=
  (match (tty.statebuf 0).toNat with
    | 0 => (tty.blankLine shown tty.row tty.column VGA_SCREEN_WIDTH).bind
        (blankLines shown (tty.row + 1) VGA_SCREEN_HEIGHT)
    | 1 => (tty.blankLine shown tty.row 0 tty.column).bind (blankLines shown 0 tty.row)
    | 2 => tty.blankLines shown 0 VGA_SCREEN_HEIGHT
    | _ => some tty).map fun (tty : TTY) => (tty.vgaUpdateDisplay shown).resetState

/-- `vt100_clear_line`. -/
def clearLine (shown : ShownTTY) (tty : TTY) : Option TTY :=
  (match (tty.statebuf 0).toNat with
    | 0 => tty.blankLine shown tty.row tty.column VGA_SCREEN_WIDTH
    | 1 => tty.blankLine shown tty.row 0 tty.column
    | 2 => tty.blankLine shown tty.row 0 VGA_SCREEN_WIDTH
    | _ => some tty).map fun (tty : TTY) => (tty.vgaUpdateDisplay shown).resetState

/-- `vt100_handle_escaped_char` behind `^[`. -/
def handleEsc (c : UInt8) (tty : TTY) : TTY :=
  if c = ch '[' then { tty with state := VT100_STATE_CSI }
  else if c = ch '(' then { tty with state := VT100_STATE_LP }
  else if c = ch ')' then { tty with state := VT100_STATE_RP }
  else if c = ch '=' then tty.setAltKeypad true
  else if c = ch '>' then tty.setAltKeypad false
  else tty.resetState

/-- `vt100_handle_escaped_char` behind `^[[`. Setting and resetting modes and the scrolling
region only ends the sequence. -/
def handleCsi (shown : ShownTTY) (c : UInt8) (tty : TTY) : Option TTY :=
  if c = ch '?' then some { tty with state := VT100_STATE_BQ }
  else if c = ch 'h' ∨ c = ch 'l' ∨ c = ch 'r' then some tty.resetState
  else if c = ch 'm' then tty.setSgr
  else if c = ch 'H' then some tty.setCursorPos
  else if c = ch 'J' then tty.clearScreen shown
  else if c = ch 'K' then tty.clearLine shown
  else if c = ch ';' then
    if tty.curritem + 1 = 8 then some tty.resetState
    else some { tty with curritem := tty.curritem + 1 }
  else if isdigit c then tty.addDigitChar c
  else some tty.resetState

/-- `vt100_handle_escaped_char`. Choosing a character set only ends the sequence. -/
def handleEscapedChar (shown : ShownTTY) (c : UInt8) (tty : TTY) : Option TTY :=
  if tty.state = VT100_STATE_ESC then some (tty.handleEsc c)
  else if tty.state = VT100_STATE_CSI then tty.handleCsi shown c
  else if tty.state = VT100_STATE_BQ ∧ isdigit c then tty.addDigitChar c
  else some tty.resetState

def vt100WriteChar (shown : ShownTTY) (c : UInt8) (tty : TTY) : Option TTY :=
  if tty.state ≠ 0 then tty.handleEscapedChar shown c
  else if c = 27 then some { tty with state := VT100_STATE_ESC }
  else if isspace c || isgraph c then tty.vgaDisplayPutchar shown c
  else some tty

/-- `tty_write_data`, with what is shown at each byte. -/
def writeData (data : List (ShownTTY × UInt8)) (tty : TTY) : Option TTY :=
  data.foldlM (fun tty byte => tty.vt100WriteChar byte.1 byte.2) tty

end TTY

def ControlChar.default : ControlChar → UInt8
  | VINTR => 3
  | VQUIT => 0o34
  | VERASE => 0o37
  | VKILL => 0o25
  | VEOF => 4
  | VTIME => 0
  | VMIN => 1
  | VSUSP => 0o32
  | VEOL => 0xff
  | VREPRINT => 0o22
  | VWERASE => 0o27
  | VLNEXT => 0o26
  | VEOL2 => 0xff

/-- `default_tty`, whose screen `vga_init` has blanked. -/
def defaultTty : TTY where
  screenbuf := fun _ => vgaMkentry (ch ' ') VGA_DEFAULT_COLOR
  inbuf := ⟨fun _ => 0, 0, 0⟩
  row := 0
  column := 0
  color := VGA_DEFAULT_COLOR
  flags := 0
  termios :=
    { iflag := 0x0002 ||| 0x0020 ||| ICRNL ||| 0x2000 ||| 0x0400 ||| 0x0800
      lflag := 0x0008 ||| 0x0002 ||| 0x0001 ||| 0x8000 ||| 0x0010 ||| 0x0800 ||| 0x0200
      cc := ControlChar.default }
  state := 0
  statebuf := fun _ => 0
  curritem := 0
  hdw := fun _ => vgaMkentry (ch ' ') VGA_DEFAULT_COLOR
  cursor := 0

end Os0
