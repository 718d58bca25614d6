import Os0.Lib.Bytes

/-! The object that the two ends of a pipe share (`fs/pipe.c`). -/
namespace Os0

def PIPE_BLKSIZE : Nat := 4096
def PIPE_BLOCKS : Nat := 4
def PIPE_LENGTH : Nat := PIPE_BLKSIZE * PIPE_BLOCKS

/-- `Pipe`, with a field for each of its flags. -/
structure Pipe where
  readptr : Nat
  writeptr : Nat
  data : Nat → UInt8
  readClosed : Bool
  writeClosed : Bool
  dataEnd : Bool

namespace Pipe

/-- A pipe as `kzalloc` leaves it. -/
def zero : Pipe := ⟨0, 0, fun _ => 0, false, false, false⟩

/-- `pipe_destroy_inode` up to the release of the pipe: the end of the inode is closed. -/
def close (writeEnd : Bool) (pipe : Pipe) : Pipe :=
  if writeEnd then { pipe with writeClosed := true } else { pipe with readClosed := true }

def closed (writeEnd : Bool) (pipe : Pipe) : Bool :=
  if writeEnd then pipe.writeClosed else pipe.readClosed

/-- Whether `pipe_destroy_inode` frees the pipe. -/
def bothClosed (pipe : Pipe) : Bool := pipe.closed false && pipe.closed true

theorem closed_close (a b : Bool) (pipe : Pipe) :
    (pipe.close a).closed b = (decide (a = b) || pipe.closed b) := by
  cases a <;> cases b <;> simp [close, closed]

end Pipe

end Os0
