import Os0.Memory.Held
import Os0.Memory.MapRefs
import Os0.Process.Segments

/-! `_task_fork` (`arch/i386/task.c`) on the memory of the parent, for `fork` and for `vfork`, and the
exit of a process (`process_clear` in `kernel/process.c`, `task_free`). The parent is the current
process. -/
namespace Os0

open Function List Option

def TASK_STACK_BOTTOM : Nat := 0xff400000
def TASK_STACK_ADDR : Nat := 0xff405000
def TASK_STACK_SIZE : Nat := 0x5000
def TASK_EXIT_PAGE : Nat := 0xff406000

/-- What `_task_fork` depends on beside the parent. -/
structure ForkEnv where
  /-- An entry of `process_table` is free. -/
  slot : Bool
  /-- The pages of `sys_exit_halt` and `signal_trampoline`. -/
  exitHalt : Nat
  trampoline : Nat
  /-- `pm_offset` of a copied region, which is not set. -/
  junk : Int

namespace Memory

/-- The loop that gives the child a stack. The first component is the offset for which there was
no frame. -/
def mapStack (dir : Nat) : List Nat → Memory → Option (Option Nat × Memory)
  | [], m => some (none, m)
  | i :: is, m =>
    if m.allocPage.1 = 0 then some (some i, m.allocPage.2)
    else
      (m.allocPage.2.mapPage dir m.allocPage.1 (TASK_STACK_BOTTOM + i)
        (PAGE_FLAG_WRITE ||| PAGE_FLAG_USER)).bind fun m' =>
          (m'.mapPage m'.currDir m.allocPage.1 (PAGE_COPY_VADDR + i)
            (PAGE_FLAG_WRITE ||| PAGE_FLAG_USER)).bind (mapStack dir is)

/-- What happens when there is no frame for offset `i`: the loop over the frames below counts in
`j` and looks at `PAGE_COPY_VADDR + i`. -/
def undoStack (i : Nat) (m : Memory) : Memory :=
  m.releaseFrames ((pageRange 0 i).map fun _ => PAGE_COPY_VADDR + i)

/-- `memcpy` of the stack. -/
def copyStack (m : Memory) : Option Memory :=
  (pageRange 0 TASK_STACK_SIZE).foldlM
    (fun m i => m.copyPage (PAGE_COPY_VADDR + i) (TASK_STACK_BOTTOM + i)) m

/-- The stack and the pages of the kernel in the directory of the child. -/
def childPages (env : ForkEnv) (dir : Nat) (m : Memory) : Option (Option Nat × Memory) :=
  (m.mapStack dir (pageRange 0 TASK_STACK_SIZE)).bind fun
    | (some i, m) => some (none, (m.undoStack i).pageDirFree dir)
    | (none, m) =>
      m.copyStack.bind fun m =>
        (m.mapPage dir (m.getPaddr m.currDir env.exitHalt) TASK_EXIT_PAGE PAGE_FLAG_USER).bind
          fun m =>
            (m.mapPage dir (m.getPaddr m.currDir env.trampoline) env.trampoline
              PAGE_FLAG_USER).map fun m => (some dir, m)

/-- `_task_fork` up to the allocation of the task: the directory of the child, which is the
parent's own if it is not copied. -/
def taskPages (env : ForkEnv) (copy : Bool) (m : Memory) : Option (Option Nat × Memory) :=
  if copy then
    (m.pageDirClone m.currDir).bind fun
      | (none, m) => some (none, m)
      | (some dir, m) => m.childPages env dir
  else m.childPages env m.currDir

end Memory

namespace AddrSpace

/-- The label `err` of `_task_fork`, with the copies made so far in the table of `a`. -/
def abandonFork (copy : Bool) (dir : Nat) (a : AddrSpace) : AddrSpace :=
  let m := a.mem.releaseFrames ((pageRange 0 TASK_STACK_SIZE).map fun i => PAGE_COPY_VADDR + i)
  let m := if copy then m.pageDirFree dir else m
  { a with
    mem := (Memory.regionsFree dir (m, []) (a.table.map fun r => ⟨r.base, r.len⟩)).1
    records := fun p => if p ∈ a.regions.elems then none else a.records p }

/-- `_task_fork`: the directory of the child and its region table, none if there was no memory for
one, and the state of the parent. `none` is a panic or a page fault, or `mregions` used before it is
set. -/
def taskFork (env : ForkEnv) (copy : Bool) (s : AddrSpace) :
    Option (Option (Nat × Option (SortedArray Nat)) × AddrSpace) :=
  if ¬env.slot then some (none, s)
  else
    (s.mem.taskPages env copy).bind fun
      | (none, m) => some (none, { s with mem := m })
      | (some dir, m) =>
        match { s with mem := m, regions := .place PROCESS_MMAP_LIMIT }.kmalloc with
        | (none, _) => none
        | (some _, a) =>
          let (made, a) := a.newTable
          (a.copyRegions env.junk made s.regions.elems).bind fun
            | (false, a) => some (none, { a.abandonFork copy dir with regions := s.regions })
            | (true, a) =>
              -- `strdup` of the path of the working directory
              match a.kmalloc with
              | (none, a) => some (none, { a.abandonFork copy dir with regions := s.regions })
              | (some _, a) => some (some (dir, if made then some a.regions else none),
                  { a with regions := s.regions })

/-- The address space of the child. The entry of `process_table` has been cleared by the process
that had it, and its break is not set. -/
def forkChild (dir : Nat) (regions : Option (SortedArray Nat)) (s : AddrSpace) : AddrSpace :=
  { s with
    mem := { s.mem with currDir := dir }
    regions := regions.getD (.place 0)
    initBreak := 0
    brk := 0 }

/-- `process_clear` of a process that has exited, with `task_free`. -/
def processExit (pgcopied : Bool) (s : AddrSpace) : Option AddrSpace :=
  s.destroyRegions.map fun s =>
    let m := s.mem.releaseFrames (pageRange s.initBreak s.brk)
    let m := m.releaseFrames (pageRange TASK_STACK_BOTTOM TASK_STACK_ADDR)
    let m := if pgcopied then m.pageDirFree m.currDir else m
    { s with mem := m, initBreak := 0, brk := 0 }

end AddrSpace

namespace AddrSpace

variable {s s' : AddrSpace}

theorem addRegion_table {p : Nat} {r : Region} (h : s.addRegion p r = some s') :
    ∀ x ∈ s'.table, x = r ∨ x ∈ s.table := by
  intro x mem
  obtain ⟨q, hq, record⟩ := mem_filterMap.1 mem
  unfold addRegion SortedArray.insert at h
  split at h
  · obtain ⟨_, inserted, rfl⟩ := map_eq_some_iff.1 h
    split at inserted
    · cases inserted
      change update s.records p (some r) q = some x at record
      rw [update_apply] at record
      split_ifs at record with new
      · exact .inl (some.inj record).symm
      · refine .inr (mem_filterMap.2 ⟨q, ?_, record⟩)
        have listed := (insertBy_perm _ _ _).mem_iff.1 hq
        exact (mem_cons.1 listed).resolve_left new
    · cases inserted
  · cases h

end AddrSpace

end Os0
