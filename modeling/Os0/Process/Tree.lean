import Os0.Process.Table

/-! The process tree over whole runs of forks, exits and waits: parents are live, and the
child counters count the processes below each process. -/
namespace Os0

open Bytes Runs ParentTree List Option Finset Kernel

namespace Kernel

/-- Every parent is the kernel task or live, and every child counter is right. -/
structure ProcessTree (k : Kernel) : Prop where
  parents : ∀ p, k.live p = true → ∃ q, k.parent p = some q ∧ (q = 0 ∨ k.live q = true)
  children : ∀ p, k.live p = true →
    (k.table p).children = {q | k.live q = true ∧ Above k.parent 0 p q}.ncard

/-- No process has `pid` as its parent. -/
def childless (k : Kernel) (pid : Nat) : Bool :=
  (List.range PROCESS_LIMIT).all fun q => k.parent q != some pid

end Kernel

/-- The events of a run of forks, exits and waits; groups, sessions and masks may change. -/
def Event.lifecycle : Event → Bool
  | .call (.fork _) | .call (.exit _) | .call (.wait4 _ _) | .call (.setpgid _ _)
  | .call .setsid | .call (.sigprocmask _ _) | .run | .tick => true
  | _ => false

namespace Kernel

/-- A process that exits has no children left. -/
def exitsLast (k : Kernel) : Event → Bool
  | .call (.exit _) => k.childless k.current
  | e => e.lifecycle

/-- What holds of the table at any time, also while the scheduler searches it. -/
structure LifeInv (k : Kernel) : Prop where
  counted : Counted k.parent 0 fun p => (k.table p).children
  nodes : ∀ p, k.live p = true → p < PROCESS_LIMIT
  root : k.parent 0 = some 0
  terminated : ∀ p, (k.table p).signals.term = true →
    p ≠ 0 ∧ k.live p = true ∧ ∀ q, k.parent q ≠ some p
  queue : QueueOk k
  actions : ∀ p, (k.table p).signals.actions = fun _ => .none
  enabled : k.switchEnabled = true
  handler : k.handler = 0
  frames : ∀ p, ∀ f ∈ k.kstack p, ∃ pid, f = .wait pid

/-- Between two events the current task is one that may run. -/
structure Ready (k : Kernel) : Prop where
  live : k.live k.current = true
  term : (k.table k.current).signals.term = false

namespace LifeInv

variable {k k' : Kernel}

section

variable (h : LifeInv k)
include h

variable {pid : Nat}

theorem tree : k.ProcessTree where
  parents p live := by
    obtain ⟨l, chain⟩ := h.counted.chains p (k.live_eq p ▸ live)
    cases chain with
    | root => exact ⟨0, h.root, .inl rfl⟩
    | step _ eq rest =>
      refine ⟨_, eq, ?_⟩
      cases rest with
      | root => exact .inl rfl
      | step _ eq' => exact .inr (by rw [live_eq, eq']; rfl)
  children p _ := by
    rw [h.counted.count p]
    congr 1
    ext q
    exact ⟨fun above => ⟨by rw [live_eq]; exact above.node, above⟩, fun ⟨_, above⟩ => above⟩

theorem count_lt (p : Nat) : (k.table p).children ≤ PROCESS_LIMIT := by
  have le := Set.ncard_le_ncard (s := {q | Above k.parent 0 p q}) (t := ↑(Finset.range PROCESS_LIMIT))
    (fun q above => Finset.mem_coe.2 (Finset.mem_range.2 (h.nodes q (by rw [live_eq]; exact above.node))))
    (Finset.finite_toSet _)
  rw [Set.ncard_coe_finset, Finset.card_range] at le
  rw [h.counted.count p]
  exact le

theorem ancestors {p : Nat} (live : k.live p = true) :
    ∃ l, k.ancestors p = some l ∧ Chain k.parent 0 p l := by
  obtain ⟨l, chain⟩ := h.counted.chains p (k.live_eq p ▸ live)
  refine ⟨l, chain.walk ?_, chain⟩
  have sub : l.toFinset ⊆ Finset.range PROCESS_LIMIT := by
    intro q mem
    rw [Finset.mem_range]
    exact h.nodes q (by rw [live_eq]; exact chain.mem_node (mem_toFinset.1 mem))
  have le := card_le_card sub
  rwa [toFinset_card_of_nodup chain.nodup, card_range] at le

/-- Changes to signals, groups and stacks that terminate only childless processes. -/
theorem congr (parent : k'.parent = k.parent)
    (children : ∀ p, (k'.table p).children = (k.table p).children)
    (term : ∀ p, (k'.table p).signals.term = true → (k.table p).signals.term = true ∨
      p ≠ 0 ∧ k.live p = true ∧ ∀ q, k.parent q ≠ some p)
    (actions : ∀ p, (k'.table p).signals.actions = (k.table p).signals.actions)
    (queue : k'.queue = k.queue) (enabled : k'.switchEnabled = true) (handler : k'.handler = 0)
    (frames : ∀ p, ∀ f ∈ k'.kstack p, ∃ pid, f = .wait pid) : LifeInv k' where
  counted := by
    have eq : (fun p => (k'.table p).children) = fun p => (k.table p).children := funext children
    rw [parent, eq]
    exact h.counted
  nodes p live := h.nodes p (by rwa [live_eq, parent, ← live_eq] at live)
  root := parent ▸ h.root
  terminated p terminated := by
    rw [live_eq, parent, ← live_eq]
    exact (term p terminated).elim (h.terminated p) id
  queue := h.queue.congr queue parent
  actions p := (actions p).trans (h.actions p)
  enabled := enabled
  handler := handler
  frames := frames

theorem free {pid : Nat} (term : (k.table pid).signals.term = true) {ppid : Nat} {pids : List Nat}
    (parent : k.parent pid = some ppid) (walk : k.ancestors ppid = some pids)
    (frees : Frees k k' pid pids) : LifeInv k' := by
  obtain ⟨nonzero, -, childless⟩ := h.terminated pid term
  have others {q : Nat} (ne : q ≠ pid) : k'.live q = k.live q := by
    rw [live_eq, live_eq, frees.parent, if_neg ne]
  have ne : ppid ≠ pid := fun eq => childless pid (eq ▸ parent)
  have leaf : Leaf k'.parent k.parent 0 pid ppid pids :=
    { absent := by rw [frees.parent, if_pos rfl]
      child := parent
      agree := fun q ne => by rw [frees.parent, if_neg ne]
      away := nonzero
      leaf := fun q _ => childless q
      chain := chain_congr (fun q ne => by rw [frees.parent, if_neg ne]) (fun q _ => childless q)
        ne (chain_of_walk walk) }
  have path (p : Nat) : p ∈ pids ++ [0] ↔ p ∈ pids ∨ p = 0 := by simp
  refine ⟨h.counted.prune leaf (fun p up => ?_) (fun p up => ?_), ?_, ?_, ?_,
    h.queue.free nonzero frees, ?_, frees.switchEnabled.trans h.enabled,
    frees.handler.trans h.handler, ?_⟩
  · have count := h.counted.count p
    rw [leaf.ncard (leaf.finite_iff.1 h.counted.finite), if_pos up] at count
    have lt := lt_of_le_of_lt (h.count_lt p) (show PROCESS_LIMIT < 4294967296 by decide)
    rw [frees.children, if_pos ((path p).2 up), sub32_eq (by omega) lt]
    omega
  · rw [frees.children, if_neg (fun mem => up ((path p).1 mem))]
  · intro p alive
    have same : p ≠ pid := by
      rintro rfl
      simp [live, frees.task] at alive
    exact h.nodes p (others same ▸ alive)
  · rw [frees.parent, if_neg nonzero.symm]
    exact h.root
  · intro p terminated
    have same : p ≠ pid := by
      rintro rfl
      simp [frees.signals, Signals.cleared] at terminated
    rw [frees.others p same] at terminated
    obtain ⟨away, alive, noChild⟩ := h.terminated p terminated
    refine ⟨away, (others same).trans alive, fun q => ?_⟩
    rw [frees.parent]
    split
    · rintro ⟨⟩
    · exact noChild q
  · intro p
    by_cases same : p = pid
    · rw [same, frees.signals]
      rfl
    · rw [frees.others p same]
      exact h.actions p
  · intro p f mem
    rw [frees.kstack] at mem
    exact h.frames p f mem

theorem switchTo (live : k.live pid = true) (runs : (k.table pid).signals.term = false) :
    LifeInv (k.switchTo pid) ∧ Ready (k.switchTo pid) := by
  obtain ⟨term, actions, -⟩ := (k.table pid).signals.handle_rest
  have function := Signals.handle_function (h.actions pid)
  have plain : k.switchTo pid =
      { k.setSignals pid (k.table pid).signals.handle.1 with
        current := pid
        signal := (k.table pid).signals.handle.1.sig
        handler := 0 } := by
    unfold Kernel.switchTo
    dsimp only
    rw [function, h.handler, ite_self]
    exact if_neg (by simp)
  rw [plain]
  constructor
  · refine h.congr (k.setSignals_parent _ _) (k.setSignals_entry pid (·.children) (by rfl))
      (fun p terminated => .inl ?_) (k.setSignals_entry pid (·.signals.actions) actions) rfl h.enabled rfl
      h.frames
    exact (k.setSignals_entry pid (·.signals.term) term p).symm.trans terminated
  · refine ⟨?_, ?_⟩
    · simpa [Kernel.live] using live
    · simpa [term] using runs

theorem irq8 (switched : k.irq8 = some k') : LifeInv k' ∧ Ready k' := by
  rcases h.queue.irq8 switched with ⟨off, -⟩ | ⟨pid, _, rfl, queue, mem, runs, rfl | ⟨_, _, freed⟩⟩
  · rw [h.enabled] at off
    cases off
  · exact h.switchTo (queue.live pid mem) runs
  · have term := all_eq_true.1 all_takeWhile _ freed.passed
    exact (h.free term freed.parent freed.walk freed.frees).switchTo (queue.live pid mem) runs

theorem exits (childless : k.childless k.current = true) (nonzero : k.current ≠ 0)
    (live : k.live k.current = true) {code : Int} (exits : Exits k k' code) : LifeInv k' := by
  have noChild (q : Nat) : k.parent q ≠ some k.current := by
    intro eq
    have lt := h.nodes q (by rw [live_eq, eq]; rfl)
    have := List.all_eq_true.1 childless q (List.mem_range.2 lt)
    simp [eq] at this
  refine h.congr exits.parent exits.children (fun p terminated => ?_) exits.actions exits.queue
    (exits.enabled h.enabled) (exits.handler.trans h.handler) (exits.kstack ▸ h.frames)
  rw [exits.term] at terminated
  split at terminated
  · subst_vars
    exact .inr ⟨nonzero, live, noChild⟩
  · exact .inl terminated

theorem free_is_leaf (nonzero : pid ≠ 0) (free : k.live pid = false) (q : Nat) :
    k.parent q ≠ some pid := by
  intro eq
  obtain ⟨r, parent, zero | live⟩ := h.tree.parents q (by rw [live_eq, eq]; rfl)
  · exact nonzero (some.inj (eq.symm.trans (parent.trans (congrArg some zero))))
  · obtain rfl := some.inj (eq.symm.trans parent)
    rw [free] at live
    cases live

/-- A new child is a leaf under the process that forks. -/
theorem fork (ready : Ready k) {memory : Bool} {child : Option Nat}
    (forked : k.sysFork memory = some (child, k')) : LifeInv k' ∧ Ready k' := by
  rcases sysFork_spec forked with ⟨-, rfl⟩ | ⟨pid, pids, -, found, walk, forks⟩
  · exact ⟨h.congr rfl (fun _ => rfl) (fun _ => .inl) (fun _ => rfl) rfl rfl h.handler h.frames,
      ready.live, ready.term⟩
  obtain ⟨nonzero, lt, free⟩ := freeEntry_spec found
  have others {q : Nat} (ne : q ≠ pid) : k'.live q = k.live q := by
    rw [live_eq, live_eq, forks.parent, if_neg ne]
  have signals (p : Nat) : (k'.table p).signals.term = (k.table p).signals.term ∧
      (k'.table p).signals.actions = (k.table p).signals.actions := by
    by_cases same : p = pid
    · rw [same, forks.signals]
      exact ⟨rfl, rfl⟩
    · rw [forks.others p same]
      exact ⟨rfl, rfl⟩
  have apart : k.current ≠ pid := by
    rintro rfl
    exact absurd ready.live (by simp [free])
  have leaf : Leaf k.parent k'.parent 0 pid k.current pids :=
    { absent := by
        rw [live_eq] at free
        exact not_isSome_iff_eq_none.1 (by simp [free])
      child := by rw [forks.parent, if_pos rfl]
      agree := fun q ne => by rw [forks.parent, if_neg ne]
      away := nonzero
      leaf := fun q _ => by
        rw [forks.parent]
        split
        · exact fun eq => apart (some.inj eq)
        · exact h.free_is_leaf nonzero free q
      chain := chain_of_walk walk }
  have path (p : Nat) : p ∈ pids ++ [0] ↔ p ∈ pids ∨ p = 0 := by simp
  constructor
  · refine ⟨h.counted.grow leaf (fun p up => ?_) (fun p up => ?_), ?_, ?_, ?_,
      h.queue.fork free forks, ?_, forks.switchEnabled, forks.handler.trans h.handler, ?_⟩
    · rw [forks.children, if_pos ((path p).2 up)]
      have := h.count_lt p
      exact add32_eq (by unfold PROCESS_LIMIT at this; omega)
    · rw [forks.children, if_neg (fun mem => up ((path p).1 mem))]
    · intro p alive
      by_cases is : p = pid
      · exact is ▸ lt
      · exact h.nodes p (others is ▸ alive)
    · rw [forks.parent, if_neg nonzero.symm]
      exact h.root
    · intro p terminated
      rw [(signals p).1] at terminated
      obtain ⟨away, alive, noChild⟩ := h.terminated p terminated
      have is : p ≠ pid := by
        rintro rfl
        rw [free] at alive
        cases alive
      refine ⟨away, others is ▸ alive, fun q => ?_⟩
      rw [forks.parent]
      split
      · intro eq
        rw [← some.inj eq, ready.term] at terminated
        cases terminated
      · exact noChild q
    · exact fun p => (signals p).2.trans (h.actions p)
    · intro p f mem
      rw [forks.kstack] at mem
      split at mem <;> exact h.frames _ f mem
  · refine ⟨?_, ?_⟩
    · rw [forks.current, others apart]
      exact ready.live
    · rw [forks.current, (signals _).1]
      exact ready.term

section

variable (ready : Ready k)
include ready

/-- Groups, sessions, masks and the frames of a waiting task are no part of the tree. -/
theorem unmoved (current : k'.current = k.current)
    (table : ∀ p, (k'.table p).task = (k.table p).task ∧
      (k'.table p).children = (k.table p).children ∧
      (k'.table p).signals.term = (k.table p).signals.term ∧
      (k'.table p).signals.actions = (k.table p).signals.actions) (queue : k'.queue = k.queue)
    (enabled : k'.switchEnabled = k.switchEnabled) (handler : k'.handler = k.handler)
    (frames : ∀ p, ∀ f ∈ k'.kstack p, ∃ pid, f = .wait pid) : LifeInv k' ∧ Ready k' := by
  have parent : k'.parent = k.parent := by
    funext p
    unfold parent
    rw [(table p).1]
  refine ⟨h.congr parent (fun p => (table p).2.1) (fun p terminated => ?_)
    (fun p => (table p).2.2.2) queue (enabled.trans h.enabled) (handler.trans h.handler) frames,
    ?_, ?_⟩
  · exact .inl ((table p).2.2.1 ▸ terminated)
  · rw [current, live_eq, parent, ← live_eq]
    exact ready.live
  · rw [current, (table _).2.2.1]
    exact ready.term

theorem run {reply : Reply} (done : k.runFrame = some (k', reply)) : LifeInv k' ∧ Ready k' := by
  unfold runFrame at done
  cases stack : k.kstack k.current with
  | nil => simp [stack] at done
  | cons f =>
    obtain ⟨_, rfl⟩ := h.frames k.current f (stack ▸ mem_cons_self)
    rw [stack] at done
    rcases poll_cases done with ⟨rfl, -⟩ | ⟨rfl, -⟩
    · exact ⟨h, ready⟩
    · refine h.unmoved ready rfl (fun p => ⟨rfl, rfl, rfl, rfl⟩) rfl rfl rfl fun p f mem => ?_
      rw [setStack_kstack] at mem
      split at mem
      · exact h.frames k.current f (stack ▸ mem_cons_of_mem _ mem)
      · exact h.frames p f mem

theorem wait4 {pid : Int} {options : Nat} {reply : Reply}
    (done : k.sysWait4 pid options = some (k', reply)) : LifeInv k' ∧ Ready k' := by
  rcases sysWait4_cases done with ⟨rfl | ⟨-, rfl⟩, -⟩ | ⟨rfl, -⟩
  · exact ⟨h, ready⟩
  · refine h.unmoved ready rfl (fun p => ⟨rfl, rfl, rfl, rfl⟩) rfl rfl rfl fun p f mem => ?_
    rw [push, setStack_kstack] at mem
    split at mem
    · rcases mem_cons.1 mem with rfl | old
      · exact ⟨_, rfl⟩
      · exact h.frames _ f old
    · exact h.frames p f mem
  · exact ⟨h, ready⟩

theorem set {e : ProcessEntry} (task : e.task = (k.table pid).task)
    (children : e.children = (k.table pid).children)
    (term : e.signals.term = (k.table pid).signals.term)
    (actions : e.signals.actions = (k.table pid).signals.actions) :
    LifeInv (k.set pid e) ∧ Ready (k.set pid e) := by
  refine h.unmoved ready rfl (fun p => ?_) rfl rfl rfl h.frames
  by_cases same : p = pid
  · subst same
    simp [task, children, term, actions]
  · simp [same]

end

theorem step (ready : Ready k) {e : Event} {reply : Reply} (last : k.exitsLast e = true)
    (done : k.step e = some (k', reply)) : LifeInv k' ∧ Ready k' := by
  cases e with
  | run => exact h.run ready done
  | tick =>
    obtain ⟨k₁, switched, eq⟩ := map_eq_some_iff.1 done
    cases eq
    exact h.irq8 switched
  | clock => cases last
  | key c => cases last
  | ret => cases last
  | call c =>
    simp only [Kernel.step] at done
    split at done
    swap
    · cases done
    cases c with
    | fork =>
      obtain ⟨⟨child, k₁⟩, forked, eq⟩ := map_eq_some_iff.1 done
      cases child <;> cases eq <;> exact h.fork ready forked
    | exit =>
      obtain ⟨k₁, exited, eq⟩ := map_eq_some_iff.1 done
      cases eq
      obtain ⟨nonzero, live, _, exits, switched⟩ := sysExit_spec exited
      exact (h.exits last nonzero live exits).irq8 switched
    | wait4 pid => exact h.wait4 ready done
    | setpgid pid pgid =>
      obtain rfl := congrArg Prod.fst (some.inj done)
      rcases k.sysSetpgid_cases pid pgid with same | ⟨p, _, -, eq⟩
      · rw [same]
        exact ⟨h, ready⟩
      · rw [eq]
        exact h.set ready rfl rfl rfl rfl
    | setsid =>
      obtain rfl := congrArg Prod.fst (some.inj done)
      rcases k.sysSetsid_cases with same | eq
      · rw [same]
        exact ⟨h, ready⟩
      · rw [eq]
        exact h.set ready rfl rfl rfl rfl
    | sigprocmask =>
      obtain rfl := congrArg Prod.fst (some.inj done)
      unfold updateSignals
      split
      · rename_i signals eq
        obtain ⟨_, rfl⟩ := Signals.sysSigprocmask_rest eq
        exact h.set ready rfl rfl rfl rfl
      · exact ⟨h, ready⟩
    | kill pid sig => cases last
    | tiocspgrp _ pgid => cases last
    | sigaction sig => cases last
    | setitimer => cases last
    | exec => cases last

end

theorem boot (tty : Terminal) : LifeInv (.boot tty) ∧ Ready (.boot tty) := by
  have parents (p : Nat) : (Kernel.boot tty).parent p = if p = 0 then some 0 else none := by
    by_cases zero : p = 0 <;> simp [Kernel.boot, Kernel.parent, zero]
  have only {p : Nat} (live : ((Kernel.boot tty).parent p).isSome) : p = 0 := by
    by_contra other
    simp [parents, other] at live
  refine ⟨⟨⟨?_, ?_, ?_⟩, ?_, by simp [parents], by rintro _ ⟨⟩, .boot tty, fun _ => rfl,
    rfl, rfl, by rintro _ _ ⟨⟩⟩, rfl, rfl⟩
  · exact (Set.finite_singleton 0).subset fun q live => only live
  · intro p live
    exact ⟨[], only live ▸ .root⟩
  · intro p
    have empty : {q | Above (Kernel.boot tty).parent 0 p q} = ∅ := by
      refine Set.eq_empty_of_forall_notMem fun q above => ?_
      have zero := only (Above.node above)
      cases above with
      | parent away => exact away zero
      | step away => exact away zero
    rw [empty, Set.ncard_empty]
    rfl
  · intro p live
    rw [live_eq] at live
    rw [only live]
    decide

end LifeInv

end Kernel

/-- As long as processes exit after their children, every parent is live and every child
counter is the number of live processes below. -/
theorem process_tree_runs {tty : Terminal} {events : List Event} {k : Kernel}
    (run : Run (Guarded (fun k e => k.exitsLast e = true) (partialGraph Kernel.next))
      (.boot tty) events k) : k.ProcessTree := by
  have inv : k.LifeInv ∧ k.Ready := by
    refine run.invariant (I := fun k => k.LifeInv ∧ k.Ready) ?_ (Kernel.LifeInv.boot tty)
    rintro k e _ ⟨h, ready⟩ ⟨last, next⟩
    obtain ⟨⟨_, _⟩, done, rfl⟩ := Option.map_eq_some_iff.1 next
    exact h.step ready last done
  exact inv.1.tree

def rawTerminal : Terminal := ⟨0, fun _ => 0, false, 0⟩

/-- The kernel forks a process that forks another one, which exits and is freed. -/
theorem process_tree_runs_at : ∃ k : Kernel,
    (k.table 1).children = 0 ∧ k.live 1 = true ∧ k.live 2 = false ∧ k.ProcessTree := by
  have runnable : (exec Kernel.exitsLast Kernel.next (.boot rawTerminal)
      [.call (.fork true), .tick, .call (.fork true), .tick, .call (.exit 7), .tick, .tick]).any
        (fun k => (k.table 1).children = 0 && k.live 1 && !k.live 2) = true := by
    decide +kernel
  obtain ⟨k, hk, facts⟩ := (Option.any_eq_true _ _).1 runnable
  simp only [Bool.and_eq_true, decide_eq_true_eq, Bool.not_eq_true'] at facts
  exact ⟨k, facts.1.1, facts.1.2, facts.2, process_tree_runs (run_of_exec hk)⟩

/-- A process that exits before its child leaves the child with a parent that is gone. -/
theorem parent_exits_first : ¬∀ (tty : Terminal) (events : List Event) (k : Kernel),
    Run (Guarded (fun _ e => e.lifecycle = true) (partialGraph Kernel.next)) (.boot tty) events k →
      k.ProcessTree := by
  intro claim
  have orphan : (exec (fun _ e => e.lifecycle) Kernel.next (.boot rawTerminal)
      [.call (.fork true), .tick, .call (.fork true), .call (.exit 7), .tick, .tick]).any
        (fun k => k.parent 2 == some 1 && !k.live 1) = true := by
    decide +kernel
  obtain ⟨k, hk, facts⟩ := (Option.any_eq_true _ _).1 orphan
  simp only [Bool.and_eq_true, beq_iff_eq, Bool.not_eq_true'] at facts
  obtain ⟨parent, gone⟩ := facts
  obtain ⟨q, eq, zero | live⟩ := (claim _ _ k (run_of_exec hk)).parents 2
    (by rw [Kernel.live_eq, parent]; rfl)
  · rw [parent, zero] at eq
    cases eq
  · rw [parent] at eq
    cases eq
    rw [gone] at live
    cases live

end Os0
