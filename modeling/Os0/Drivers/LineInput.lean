import Mathlib.Data.List.DropRight
import Os0.Drivers.Terminal
import Os0.Lib.Bytes
import Os0.Lib.Slice

/-! The line discipline of terminals (`drivers/tty-line.c`): bytes that come in, line editing,
the echo, and `tty_read`. `none` is an access outside of a buffer. -/
namespace Os0

open Bytes Slice

namespace TTY

def ISIG : UInt32 := 0x0001
def ICANON : UInt32 := 0x0002
def ECHO : UInt32 := 0x0008
def ECHOE : UInt32 := 0x0010
def ECHOK : UInt32 := 0x0020
def ECHONL : UInt32 := 0x0040
def ECHOCTL : UInt32 := 0x0200
def ECHOKE : UInt32 := 0x0800
def IEXTEN : UInt32 := 0x8000

end TTY

/-- A `char` that equals a control character: 0xff turns the character off, and bytes from 128
on are negative and equal none. -/
def isControl (cc c : UInt8) : Bool := c < 128 && c == cc && cc != 0xff

namespace TTYInputBuffer

/-- The bytes that have not been read. -/
def unread (b : TTYInputBuffer) : List UInt8 := slice b.data b.start (b.stop - b.start)

/-- Make room at the end of a full buffer; `tb_start` stays. -/
def makeRoom (b : TTYInputBuffer) : Option TTYInputBuffer :=
  if TTY_BUFFER_SIZE - 1 ≤ b.stop ∧ 0 < b.start then
    if b.start ≤ b.stop ∧ b.stop ≤ TTY_BUFFER_SIZE then
      some { b with
        data := fun i => if i < b.stop - b.start then b.data (b.start + i) else b.data i
        stop := b.stop - b.start }
    else none
  else some b

/-- `tty_input_buffer_add_char`. -/
def addChar (canonical : Bool) (c : UInt8) (b : TTYInputBuffer) : Option TTYInputBuffer :=
  b.makeRoom.bind fun b =>
    if TTY_BUFFER_SIZE - 1 ≤ b.stop ∧ (¬canonical ∨ c ≠ ch '\n') then some b
    else if b.stop < TTY_BUFFER_SIZE then
      some { b with data := Function.update b.data b.stop c, stop := b.stop + 1 }
    else none

/-- `tty_erase_input`, with the number of bytes erased. -/
def eraseInput (eof : UInt8) (b : TTYInputBuffer) : Option (Nat × TTYInputBuffer) :=
  if 0 < b.stop then
    if b.stop - 1 < TTY_BUFFER_SIZE then
      if isControl eof (b.data (b.stop - 1)) then some (0, b)
      else some (1, { b with stop := b.stop - 1 })
    else none
  else some (0, b)

/-- A loop of `tty_erase_input_word` from `i = n - 1` downwards. The test `i >= tb_start`
compares unsigned numbers, so at `i = -1` the byte in front of `tb_data` is read. -/
def scanBack (more : UInt8 → Bool) (b : TTYInputBuffer) : Nat → Option Nat
  | 0 => none
  | n + 1 =>
    if b.start ≤ n then
      if n < TTY_BUFFER_SIZE then
        if more (b.data n) then scanBack more b n else some (n + 1)
      else none
    else some (n + 1)

/-- The bytes that the two loops of `tty_erase_input_word` pass. -/
def isGap (eof c : UInt8) : Bool := isspace c && !isControl eof c
def isWord (eof c : UInt8) : Bool := !isspace c && !isControl eof c

/-- `tty_erase_input_word`. -/
def eraseInputWord (eof : UInt8) (b : TTYInputBuffer) : Option (Nat × TTYInputBuffer) :=
  (b.scanBack (isGap eof) b.stop).bind fun n => (b.scanBack (isWord eof) n).map fun n =>
    (b.stop - n, { b with stop := n })

/-- `memrchr`: the last of the first `n` bytes that equals `c`. -/
def memrchr (data : Nat → UInt8) (c : UInt8) : Nat → Option Nat
  | 0 => none
  | n + 1 => if data n = c then some n else memrchr data c n

/-- `tty_kill_input`. -/
def killInput (eof : UInt8) (b : TTYInputBuffer) : Option (Nat × TTYInputBuffer) :=
  if b.stop ≤ TTY_BUFFER_SIZE then
    match if eof = 0xff then none else memrchr b.data eof b.stop with
    | none => some (sub32 b.stop b.start, { b with start := 0, stop := 0 })
    | some i =>
      if i < b.start then some (sub32 b.stop b.start, { b with start := 0, stop := 0 })
      else some (b.stop - i, { b with stop := i })
  else none

end TTYInputBuffer

namespace TTY

/-- `CHAR_MATCH`. -/
def charMatch (tty : TTY) (c : UInt8) (k : ControlChar) : Bool := isControl (tty.termios.cc k) c

def lflag (tty : TTY) (mask : UInt32) : Bool := tty.termios.lflag &&& mask != 0

def vgaEraseChar (shown : ShownTTY) (tty : TTY) : Option TTY :=
  if 0 < tty.column then
    (vgaPutentry shown (ch ' ') (tty.column - 1) tty.row
      { tty with column := tty.column - 1 }).map vgaSetcurs
  else some tty

def vgaEraseLine (shown : ShownTTY) (len : Nat) (tty : TTY) : Option TTY :=
  ((List.range (min len tty.column)).foldlM (fun tty _ =>
    vgaPutentry shown (ch ' ') (tty.column - 1) tty.row
      { tty with column := tty.column - 1 }) tty).map vgaSetcurs

/-- `tty_process_output`. -/
def processOutput (shown : ShownTTY) (c : UInt8) (arg : Nat) (tty : TTY) : Option TTY :=
  if tty.lflag ICANON ∧ tty.charMatch c .VERASE ∧ tty.lflag ECHOE then
    if arg ≠ 0 then tty.vgaEraseChar shown else some tty
  else if tty.lflag ICANON ∧ tty.charMatch c .VWERASE ∧ tty.lflag ECHOE then
    tty.vgaEraseLine shown arg
  else if tty.lflag ICANON ∧ tty.charMatch c .VKILL ∧ tty.lflag (ECHOK ||| ECHOKE) then
    tty.vgaEraseLine shown arg
  else if c = ch '\n' ∨ c = ch '\t' then tty.vt100WriteChar shown c
  else if iscntrl c ∧ tty.lflag ECHOCTL then
    if ¬tty.charMatch c .VEOF ∨ 0 < tty.column then
      (tty.vt100WriteChar shown (ch '^')).bind (vt100WriteChar shown (c + 0x40))
    else some tty
  else tty.vt100WriteChar shown c

/-- What `tty_process_input` does with a byte. -/
inductive LineAct
  /-- The byte was quoted. -/
  | quoted
  | endLine
  | endOfFile
  | erase
  | kill
  | eraseWord
  | reprint
  | quoteNext
  | signal
  | plain
  deriving DecidableEq, Repr

/-- The tests of `tty_process_input`, in their order. -/
def lineAct (c : UInt8) (tty : TTY) : LineAct :=
  if tty.hasFlags TTY_QUOTE_INPUT then .quoted
  else if tty.lflag ICANON ∧ (c = ch '\n' ∨ tty.charMatch c .VEOL ∨ tty.charMatch c .VEOL2) then
    .endLine
  else if tty.lflag ICANON ∧ tty.charMatch c .VEOF ∧ tty.inbuf.stop = 0 then .endOfFile
  else if tty.lflag ICANON ∧ tty.charMatch c .VERASE then .erase
  else if tty.lflag ICANON ∧ tty.charMatch c .VKILL then .kill
  else if tty.lflag ICANON ∧ tty.lflag IEXTEN ∧ tty.charMatch c .VWERASE then .eraseWord
  else if tty.lflag ICANON ∧ tty.lflag IEXTEN ∧ tty.charMatch c .VREPRINT then .reprint
  else if tty.lflag ICANON ∧ tty.lflag IEXTEN ∧ tty.charMatch c .VLNEXT then .quoteNext
  else if tty.lflag ISIG ∧ (tty.charMatch c .VINTR ∨ tty.charMatch c .VSUSP ∨
      tty.charMatch c .VQUIT) then .signal
  else .plain

def setInbuf (tty : TTY) (inbuf : TTYInputBuffer) : TTY := { tty with inbuf }

/-- `tty_input_buffer_add_char` on a terminal. -/
def inputBufferAddChar (c : UInt8) (tty : TTY) : Option TTY :=
  (tty.inbuf.addChar (tty.lflag ICANON) c).map tty.setInbuf

/-- `tty_flush_input_line`. -/
def flushInputLine (delim : UInt8) (tty : TTY) : Option TTY :=
  (if delim ≠ 0 then tty.inputBufferAddChar delim else some tty).map
    fun (tty : TTY) => tty.setFlags TTY_INPUT_READY

/-- `tty_reprint_input`. -/
def reprintInput (shown : ShownTTY) (tty : TTY) : Option TTY :=
  if tty.inbuf.stop ≤ TTY_BUFFER_SIZE then
    tty.inbuf.unread.foldlM (fun tty c => tty.processOutput shown c 0) tty
  else none

/-- The part of `tty_process_input` in front of the echo, with the argument for the echo. -/
def takeInput (shown : ShownTTY) (c : UInt8) (tty : TTY) : Option (Nat × TTY) :=
  let edit (result : Option (Nat × TTYInputBuffer)) : Option (Nat × TTY) :=
    result.map fun (len, inbuf) => (len, tty.setInbuf inbuf)
  match tty.lineAct c with
  | .quoted => ((tty.clearFlags TTY_QUOTE_INPUT).inputBufferAddChar c).map fun tty => (0, tty)
  | .endLine => (tty.flushInputLine c).map fun tty => (0, tty)
  | .endOfFile => (tty.flushInputLine 0).map fun tty => (0, tty)
  | .erase => edit (tty.inbuf.eraseInput (tty.termios.cc .VEOF))
  | .kill => edit (tty.inbuf.killInput (tty.termios.cc .VEOF))
  | .eraseWord => edit (tty.inbuf.eraseInputWord (tty.termios.cc .VEOF))
  | .reprint => (tty.reprintInput shown).map fun tty => (0, tty)
  | .quoteNext => some (0, tty.setFlags TTY_QUOTE_INPUT)
  | .signal => some (0, tty)
  | .plain => (tty.inputBufferAddChar c).map fun tty => (0, tty)

/-- `tty_process_input`. The processes that get a signal are left out. -/
def processInput (shown : ShownTTY) (c : UInt8) (tty : TTY) : Option TTY :=
  (tty.takeInput shown c).bind fun (arg, next) =>
    if tty.lineAct c = .signal then some next
    else if next.lflag ECHO then next.processOutput shown c arg
    else if c = ch '\n' ∧ next.lflag ECHONL then next.processOutput shown (ch '\n') arg
    else some next

/-- `tty_read` from the label `data_ready` on. -/
def readReady (len : Nat) (tty : TTY) : Option (List UInt8 × TTY) :=
  let b := tty.inbuf
  let len := if sub32 b.stop b.start < len then sub32 b.stop b.start else len
  if b.start + len ≤ TTY_BUFFER_SIZE then
    some (slice b.data b.start len,
      if b.start + len = b.stop then
        (tty.setInbuf { b with start := 0, stop := 0 }).clearFlags TTY_INPUT_READY
      else tty.setInbuf { b with start := b.start + len })
  else none

/-- Whether `tty_read` has to wait for input. The loops that wait for time to pass end at any
time. -/
def readWaits (nonblock : Bool) (tty : TTY) : Bool :=
  if tty.lflag ICANON then !tty.hasFlags TTY_INPUT_READY
  else !nonblock && tty.termios.cc .VTIME == 0 &&
    decide (sub32 tty.inbuf.stop tty.inbuf.start < (tty.termios.cc .VMIN).toNat)

/-- `tty_read` returns at once because there is nothing to read. -/
def readsNothing (nonblock : Bool) (tty : TTY) : Bool :=
  !tty.lflag ICANON && !nonblock && tty.termios.cc .VMIN == 0 &&
    if tty.termios.cc .VTIME = 0 then decide (tty.inbuf.stop ≤ tty.inbuf.start)
    else tty.inbuf.start == tty.inbuf.stop

/-- `tty_read`, when it need not wait. -/
def read (len : Nat) (nonblock : Bool) (tty : TTY) : Option (List UInt8 × TTY) :=
  if tty.readsNothing nonblock then some ([], tty) else tty.readReady len

end TTY

/-- What the line discipline is for: an editor of the line that has not been read yet. -/
structure Editor where
  delivered : List UInt8
  line : List UInt8
  deriving DecidableEq, Repr

namespace Editor

open TTYInputBuffer

/-- A byte is accepted unless the line is full; there is room for the end of a line. -/
def accept (canonical : Bool) (c : UInt8) (e : Editor) : Editor :=
  if TTY_BUFFER_SIZE - 1 ≤ e.line.length ∧ (¬canonical ∨ c ≠ ch '\n') then e
  else { e with line := e.line ++ [c] }

/-- Erase the last byte if it is not the end of a file. -/
def erase (eof : UInt8) (e : Editor) : Editor :=
  if e.line.getLast?.all (isControl eof) then e else { e with line := e.line.dropLast }

def eraseWord (eof : UInt8) (e : Editor) : Editor :=
  { e with line := (e.line.rdropWhile (isGap eof)).rdropWhile (isWord eof) }

/-- Erase the line back to the last end of a file. -/
def kill (eof : UInt8) (e : Editor) : Editor :=
  { e with line := if eof = 0xff then [] else (e.line.rdropWhile (· ≠ eof)).dropLast }

def deliver (len : Nat) (e : Editor) : Editor :=
  ⟨e.delivered ++ e.line.take len, e.line.drop len⟩

/-- The edit that a terminal makes for a byte. -/
def edit (tty : TTY) (c : UInt8) (e : Editor) : Editor :=
  match tty.lineAct c with
  | .quoted | .plain => e.accept (tty.lflag TTY.ICANON) c
  | .endLine => if c ≠ 0 then e.accept (tty.lflag TTY.ICANON) c else e
  | .erase => e.erase (tty.termios.cc .VEOF)
  | .kill => e.kill (tty.termios.cc .VEOF)
  | .eraseWord => e.eraseWord (tty.termios.cc .VEOF)
  | .endOfFile | .reprint | .quoteNext | .signal => e

end Editor

/-- A terminal, the editor it should be, what its readers got, and whether there was an access
outside of a buffer. -/
structure LineState where
  tty : TTY
  editor : Editor
  got : List UInt8
  outside : Bool

inductive LineCall
  | byte (shown : ShownTTY) (c : UInt8)
  | read (len : Nat) (nonblock : Bool)

/-- A byte comes in, or a read that need not wait is made. -/
def lineStep (s : LineState) : LineCall → Option LineState
  | .byte shown c =>
    match s.tty.processInput shown c with
    | none => some { s with outside := true }
    | some tty => some { s with tty, editor := s.editor.edit s.tty c }
  | .read len nonblock =>
    if s.tty.readWaits nonblock then none
    else
      match s.tty.read len nonblock with
      | none => some { s with outside := true }
      | some (bytes, tty) =>
        some { s with tty, editor := s.editor.deliver len, got := s.got ++ bytes }

end Os0
