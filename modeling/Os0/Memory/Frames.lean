import Os0.Lib.Runs
import Os0.Memory.Paging
import Mathlib.Data.List.Nodup

/-! The page-frame allocator over whole runs: `alloc_page` takes a freed frame
from the stack, or the next one above all frames handed out so far. -/
namespace Os0

open Bytes Runs List

def KERNEL_PADDR : Nat := 0x00100000
def MEM_ALLOC_START : Nat := 0x1c000000
def MIN_MEMORY : Nat := 524288

/-- `mem_init` for `mem` KiB of upper memory, with `mem_maxaddr`. `placed` says whether
`stack_place` had memory for the stack; `none` is a panic. -/
def memInit (m : Memory) (mem : Nat) (placed : Bool) : Option (Memory × Nat) :=
  if mem < MIN_MEMORY then none
  else if !placed then none
  else some ({ m with pageStack := [], currAddr := MEM_ALLOC_START },
    add32 (mem * 1024 % 4294967296) KERNEL_PADDR)

/-- The allocator, the bound of memory, and the frames handed out and not yet freed. -/
structure FrameState where
  mem : Memory
  maxAddr : Nat
  live : List Nat

inductive FrameCall
  | alloc
  | free (addr : Nat)

namespace FrameState

/-- A call of `alloc_page`, or of `free_page` on an address in an allocated frame. -/
def step (s : FrameState) : FrameCall → Option FrameState
  | .alloc =>
    let (addr, mem) := s.mem.allocPage
    some { s with mem, live := if addr = 0 then s.live else addr :: s.live }
  | .free addr =>
    if frame addr ∈ s.live then
      some { s with mem := s.mem.freePage addr, live := s.live.erase (frame addr) }
    else none

/-- Memory has a frame beyond those in use. -/
def room (s : FrameState) : FrameCall → Bool
  | .alloc => MEM_ALLOC_START + PAGE_SIZE * s.live.length < s.maxAddr
  | .free _ => true

/-- What an allocation has to return. -/
structure GoodFrame (s : FrameState) (addr : Nat) : Prop where
  aligned : addr % PAGE_SIZE = 0
  fresh : addr ∉ s.live
  below : addr < s.maxAddr

end FrameState

/-- The frame `alloc_page` carves in its `i`-th use of new memory. -/
def frameAt (i : Nat) : Nat := MEM_ALLOC_START + PAGE_SIZE * i

theorem frameAt_inj {i j : Nat} (h : frameAt i = frameAt j) : i = j := by
  unfold frameAt PAGE_SIZE at h
  omega

theorem frameAt_succ (i : Nat) : frameAt (i + 1) = frameAt i + PAGE_SIZE := by
  simp [frameAt, mul_add, add_assoc]

/-- The frames in use and those on the stack are together the first `n` frames of
memory, each once, and all of them are below the bound. -/
structure FramesInv (s : FrameState) (n : Nat) : Prop where
  frames : (s.live ++ s.mem.pageStack).Perm ((List.range n).map frameAt)
  next : s.mem.currAddr = frameAt n % 4294967296
  below : ∀ i < n, frameAt i < s.maxAddr
  bound : s.maxAddr < 4294967296

namespace FramesInv

variable {s : FrameState} {n : Nat}

section

variable (h : FramesInv s n)
include h

theorem length : s.live.length + s.mem.pageStack.length = n := by
  simpa using h.frames.length_eq

theorem nodup : (s.live ++ s.mem.pageStack).Nodup := by
  refine h.frames.nodup_iff.2 ?_
  exact List.Nodup.map (fun _ _ => frameAt_inj) nodup_range

theorem mem {addr : Nat} (used : addr ∈ s.live ++ s.mem.pageStack) : ∃ i < n, addr = frameAt i := by
  obtain ⟨i, lt, rfl⟩ := mem_map.1 (h.frames.mem_iff.1 used)
  exact ⟨i, mem_range.1 lt, rfl⟩

/-- Memory ends before the stack can hold as many frames as it has entries for. -/
theorem stack_not_full : s.mem.pageStack.length ≠ PAGE_STACK_NELEM := by
  intro _
  have last := h.below (PAGE_STACK_NELEM - 1) (by have := h.length; unfold PAGE_STACK_NELEM at *; omega)
  have := h.bound
  unfold frameAt MEM_ALLOC_START PAGE_SIZE PAGE_STACK_NELEM at last
  omega

/-- A freed frame is on top of the stack: it is handed out again. -/
theorem alloc_freed {addr : Nat} {rest : List Nat} (top : s.mem.pageStack = addr :: rest) :
    s.mem.allocPage = (addr, { s.mem with pageStack := rest }) := by
  obtain ⟨i, -, rfl⟩ := h.mem (mem_append_right _ (top ▸ mem_cons_self : addr ∈ _))
  have nonzero : frameAt i ≠ 0 := by unfold frameAt MEM_ALLOC_START; omega
  simp [Memory.allocPage, top, nonzero]

/-- With every frame in use and room for one more, the next one is new. -/
theorem alloc_new (none : s.mem.pageStack = []) (room : s.room .alloc = true) :
    frameAt n < s.maxAddr ∧ s.mem.allocPage =
      (frameAt n, { s.mem with currAddr := frameAt (n + 1) % 4294967296 }) := by
  have all : s.live.length = n := by simpa [none] using h.length
  have lt : frameAt n < s.maxAddr := by
    simpa only [FrameState.room, decide_eq_true_eq, all, frameAt] using room
  have bound := h.bound
  have curr : s.mem.currAddr = frameAt n := by
    rw [h.next, Nat.mod_eq_of_lt (by omega)]
  refine ⟨lt, ?_⟩
  simp [Memory.allocPage, none, curr, add32, frameAt_succ]

theorem alloc_good (room : s.room .alloc = true) :
    s.mem.allocPage.1 ≠ 0 ∧ s.GoodFrame s.mem.allocPage.1 := by
  have aligned (i : Nat) : frameAt i ≠ 0 ∧ frameAt i % PAGE_SIZE = 0 := by
    unfold frameAt MEM_ALLOC_START PAGE_SIZE
    omega
  cases top : s.mem.pageStack with
  | nil =>
    obtain ⟨lt, eq⟩ := h.alloc_new top room
    rw [eq]
    refine ⟨(aligned n).1, (aligned n).2, fun used => ?_, lt⟩
    obtain ⟨i, lt, same⟩ := h.mem (mem_append_left _ used)
    have := frameAt_inj same
    omega
  | cons addr =>
    rw [h.alloc_freed top]
    obtain ⟨-, -, apart⟩ := nodup_append.1 h.nodup
    have onStack : addr ∈ s.mem.pageStack := top ▸ mem_cons_self
    obtain ⟨i, lt, rfl⟩ := h.mem (mem_append_right _ onStack)
    refine ⟨(aligned i).1, (aligned i).2, fun used => ?_, h.below i lt⟩
    exact apart _ used _ onStack rfl

theorem alloc (room : s.room .alloc = true) {t : FrameState} (step : s.step .alloc = some t) :
    ∃ n, FramesInv t n := by
  have good := h.alloc_good room
  cases top : s.mem.pageStack with
  | nil =>
    obtain ⟨lt, eq⟩ := h.alloc_new top room
    rw [eq] at good
    simp only [FrameState.step, eq, good.1, if_false, Option.some.injEq] at step
    subst step
    refine ⟨n + 1, ?_, rfl, ?_, h.bound⟩
    · have frames := h.frames
      rw [top, append_nil] at frames
      simpa [range_succ, top] using (frames.cons (frameAt n)).trans (perm_append_singleton _ _).symm
    · intro i le
      rcases Nat.lt_succ_iff_lt_or_eq.1 le with old | rfl
      · exact h.below i old
      · exact lt
  | cons =>
    rw [h.alloc_freed top] at good
    simp only [FrameState.step, h.alloc_freed top, good.1, if_false, Option.some.injEq] at step
    subst step
    refine ⟨n, ?_, h.next, h.below, h.bound⟩
    have frames := h.frames
    rw [top] at frames
    exact perm_middle.symm.trans frames

theorem free {addr : Nat} {t : FrameState} (step : s.step (.free addr) = some t) :
    FramesInv t n := by
  simp only [FrameState.step] at step
  split at step
  · rename_i used
    cases step
    have pushed : s.mem.freePage addr =
        { s.mem with pageStack := frame addr :: s.mem.pageStack } := by
      simp [Memory.freePage, h.stack_not_full]
    simp only [pushed]
    refine ⟨?_, h.next, h.below, h.bound⟩
    have back := perm_middle.trans ((perm_cons_erase used).symm.append_right s.mem.pageStack)
    exact back.trans h.frames
  · cases step

end

end FramesInv

theorem memInit_inv {m m₀ : Memory} {mem max : Nat} {placed : Bool}
    (init : memInit m mem placed = some (m₀, max)) : FramesInv ⟨m₀, max, []⟩ 0 := by
  simp only [memInit] at init
  split at init
  · cases init
  · split at init
    · cases init
    · simp only [Option.some.injEq, Prod.mk.injEq] at init
      obtain ⟨rfl, rfl⟩ := init
      exact ⟨by simp, rfl, by simp, Nat.mod_lt _ (by decide)⟩

/-- From `mem_init` on, as long as no more frames are in use than memory has above
`MEM_ALLOC_START`, every result of `alloc_page` is a frame of memory that is not in use. -/
theorem alloc_page_runs {m m₀ : Memory} {mem max : Nat} {placed : Bool}
    (init : memInit m mem placed = some (m₀, max)) {calls : List FrameCall} {s : FrameState}
    (run : Run (Guarded (fun s call => s.room call = true) (partialGraph FrameState.step))
      ⟨m₀, max, []⟩ calls s) (room : s.room .alloc = true) :
    s.mem.allocPage.1 ≠ 0 ∧ s.GoodFrame s.mem.allocPage.1 := by
  have inv : ∃ n, FramesInv s n := by
    refine run.invariant (I := fun s => ∃ n, FramesInv s n) ?_ ⟨0, memInit_inv init⟩
    rintro s call t ⟨n, h⟩ ⟨ok, step⟩
    cases call with
    | alloc => exact h.alloc ok step
    | free => exact ⟨n, h.free step⟩
  obtain ⟨n, h⟩ := inv
  exact h.alloc_good room

def bareMemory : Memory := ⟨fun _ _ => 0, fun _ _ => 0, 0, [], 0, [], []⟩

theorem alloc_page_runs_at : ∃ s : FrameState,
    s.live = [0x1c000000] ∧ s.mem.allocPage.1 = 0x1c001000 ∧
      s.GoodFrame s.mem.allocPage.1 := by
  have runnable : (exec FrameState.room FrameState.step
      ⟨{ bareMemory with currAddr := MEM_ALLOC_START }, 0x20100000, []⟩
      [.alloc, .alloc, .free 0x1c001004]).any (fun s => s.room .alloc && s.live = [0x1c000000] &&
        s.mem.allocPage.1 = 0x1c001000) = true := by
    decide +kernel
  obtain ⟨s, hs, facts⟩ := (Option.any_eq_true _ _).1 runnable
  simp only [Bool.and_eq_true, decide_eq_true_eq] at facts
  have init : memInit bareMemory 524288 true =
      some ({ bareMemory with currAddr := MEM_ALLOC_START }, 0x20100000) := rfl
  have good := alloc_page_runs init (run_of_exec hs) facts.1.1
  exact ⟨s, facts.1.2, facts.2, good.2⟩

/-- Nothing is ever freed: the bump pointer moves one frame a call. -/
theorem alloc_only (max n : Nat) (lt : frameAt n < 4294967296) :
    ∃ live, Run (partialGraph FrameState.step)
      ⟨{ bareMemory with currAddr := MEM_ALLOC_START }, max, []⟩ (replicate n .alloc)
      ⟨{ bareMemory with currAddr := frameAt n }, max, live⟩ := by
  induction n with
  | zero =>
    have first : frameAt 0 = MEM_ALLOC_START := by simp [frameAt]
    exact ⟨[], first ▸ .nil _⟩
  | succ n ih =>
    rw [frameAt_succ] at lt
    have next : add32 (frameAt n) PAGE_SIZE = frameAt (n + 1) := by
      rw [add32_eq lt, frameAt_succ]
    obtain ⟨live, run⟩ := ih (by omega)
    have nonzero : frameAt n ≠ 0 := by unfold frameAt MEM_ALLOC_START; omega
    refine ⟨frameAt n :: live, ?_⟩
    rw [replicate_succ']
    refine run.append (.cons ?_ (.nil _))
    simp [partialGraph, FrameState.step, Memory.allocPage, bareMemory, next, nonzero]

/-- With 512 MiB of upper memory the 16641st frame handed out is the first one behind
the end of memory. -/
theorem alloc_page_passes_end : ¬∀ (m m₀ : Memory) (mem max : Nat) (placed : Bool),
    memInit m mem placed = some (m₀, max) → ∀ calls s,
      Run (partialGraph FrameState.step) ⟨m₀, max, []⟩ calls s →
      s.mem.allocPage.1 ≠ 0 → s.GoodFrame s.mem.allocPage.1 := by
  intro claim
  obtain ⟨_, run⟩ := alloc_only 0x20100000 16640 (by decide)
  have good := claim bareMemory _ 524288 0x20100000 true rfl _ _ run
    (show frameAt 16640 ≠ 0 by decide)
  exact absurd (show frameAt 16640 < 0x20100000 from good.below) (by decide)

end Os0
