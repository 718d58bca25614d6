import Os0.Process.Files

/-! What `sys_pipe` leaves behind when it lacks memory or descriptors. -/
namespace Os0

open Files

/-- What `sys_pipe` allocates. -/
inductive PipeObject
  | readInode
  | writeInode
  | pipe
  | data
  deriving DecidableEq, Repr

/-- Whether the object is allocated. -/
def Files.PipeMemory.made (memory : PipeMemory) : PipeObject → Bool
  | .readInode => memory.readInode
  | .writeInode => memory.writeInode
  | .pipe => memory.pipe
  | .data => memory.readInode && memory.writeInode && memory.pipe && memory.data

/-- A pipe and how often `kfree` was given each object. -/
structure PipeHeap where
  pipe : Pipe
  freed : PipeObject → Nat

namespace PipeHeap

def start : PipeHeap := ⟨.zero, fun _ => 0⟩

def kfree (o : PipeObject) (h : PipeHeap) : PipeHeap :=
  { h with freed := Function.update h.freed o (h.freed o + 1) }

/-- `vfs_unref_inode` for an end of the pipe, whose only reference it gives back:
`pipe_destroy_inode`, which does not free the inode. -/
def unrefEnd (write data : Bool) (h : PipeHeap) : PipeHeap :=
  let h := { h with pipe := h.pipe.close write }
  if h.pipe.bothClosed then (if data then h.kfree .data else h).kfree .pipe else h

/-- The label `err` of `sys_pipe`. Before it `sys_munmap` is given the buffer, which is not in a
region of the process. -/
def err (memory : PipeMemory) (h : PipeHeap) : PipeHeap :=
  if memory.readInode ∧ memory.writeInode ∧ memory.pipe then
    ((h.unrefEnd false memory.data).unrefEnd true memory.data).kfree .pipe
  else if memory.pipe then h.kfree .pipe
  else h

end PipeHeap

/-- Some inode, the pipe, its buffer or a descriptor is not to be had. -/
def PipeLacks (p : Nat) (memory : PipeMemory) (s : Files) : Prop :=
  memory = ⟨true, true, true, true⟩ → ∀ readFd writeFd t u,
    s.processAllocFd p ⟨0, fileLimit_pos⟩ = (.ok readFd, t) →
    t.processAllocFd p ⟨0, fileLimit_pos⟩ ≠ (.ok writeFd, u)

/-- The call returns an error, so that it does not store descriptors either, and nothing is left
of it. -/
def PipeUndone (p : Nat) (memory : PipeMemory) (s : Files) : Prop :=
  ∃ e t, s.sysPipe p memory = some (.error e, t) ∧ t.files = s.files ∧ t.table = s.table ∧
    ∀ o, (PipeHeap.start.err memory).freed o = if memory.made o then 1 else 0

/-- The inodes are never freed, and the pipe is freed twice. -/
theorem err_not_once {memory : PipeMemory}
    (all : memory.readInode = true ∧ memory.writeInode = true ∧ memory.pipe = true) :
    (PipeHeap.start.err memory).freed .readInode = 0 ∧
      (PipeHeap.start.err memory).freed .pipe = 2 := by
  obtain ⟨_, _, _, data⟩ := memory
  obtain ⟨rfl, rfl, rfl⟩ := all
  cases data <;> exact ⟨rfl, rfl⟩

/-- A `sys_pipe` that lacks something is undone if and only if it lacks both inodes. -/
theorem pipe_fails_iff (p : Nat) (memory : PipeMemory) (s : Files) :
    (PipeLacks p memory s → PipeUndone p memory s) ↔
      (PipeLacks p memory s → memory.readInode = false ∧ memory.writeInode = false) := by
  refine forall_congr' fun lacks => ?_
  constructor
  case mp =>
    rintro ⟨e, t, call, -, -, once⟩
    by_cases all : memory.readInode = true ∧ memory.writeInode = true ∧ memory.pipe = true
    · have leaked := once .readInode
      rw [(err_not_once all).1, PipeMemory.made, all.1] at leaked
      cases leaked
    · unfold sysPipe at call
      rw [if_pos all] at call
      split at call
      · cases call
      · simp_all
  case mpr =>
    rintro ⟨read, write⟩
    obtain ⟨r, w, pipe, _⟩ := memory
    obtain rfl : r = false := read
    obtain rfl : w = false := write
    refine ⟨.ENOMEM, s, rfl, rfl, rfl, fun o => ?_⟩
    cases pipe <;> cases o <;> rfl

/-- Without memory for the buffer the pipe is freed twice and the inodes are kept. -/
theorem pipe_without_buffer :
    PipeLacks 0 ⟨true, true, true, false⟩ .boot ∧ ¬PipeUndone 0 ⟨true, true, true, false⟩ .boot := by
  refine ⟨nofun, fun ⟨_, _, _, _, _, once⟩ => absurd (once .pipe) (by decide)⟩

end Os0
