import Os0.Heap.Alloc
import Os0.Heap.Free
import Os0.Lib.Runs

/-! Runs of the kernel heap: allocations, frees of live pointers and writes of the
clients into what they hold. -/
namespace Os0

open Bytes Runs Function List Option

/-- A pointer that `heap_alloc` returned and the size it was asked for. -/
structure Allocation where
  ptr : Nat
  size : Nat
  deriving DecidableEq, Repr

structure HeapState where
  heap : MemHeap
  live : List Allocation

inductive HeapCall
  | alloc (size : Nat) (aligned : Bool)
  | free (ptr : Nat)
  | store (addr : Nat) (byte : UInt8)
  deriving DecidableEq, Repr

namespace HeapState

def init (mem : Mem) : Option HeapState := (heapInit mem).map fun heap => ⟨heap, []⟩

def step (s : HeapState) : HeapCall → Option HeapState
  | .alloc size aligned => (heapAlloc s.heap size aligned).map fun (heap, ptr) =>
    match ptr with
    | none => ⟨heap, s.live⟩
    | some ptr => ⟨heap, ⟨ptr, size⟩ :: s.live⟩
  | .free ptr => (heapFree s.heap ptr).map fun heap =>
    ⟨heap, s.live.filter fun a => a.ptr != ptr⟩
  | .store addr byte => some { s with heap := { s.heap with mem := s.heap.mem.set addr byte } }

/-- What the kernel is allowed to do: ask for sizes that do not wrap, free live
pointers, and write inside live payloads. -/
def allowed (s : HeapState) : HeapCall → Bool
  | .alloc size _ => size + 24 < 4294967296
  | .free ptr => s.live.any fun a => a.ptr == ptr
  | .store addr _ => s.live.any fun a => a.ptr ≤ addr && addr < a.ptr + a.size

/-- The block in front of this header is free. -/
def leftFree (s : HeapState) (header : Nat) : Bool :=
  s.heap.index.elems.any fun p => p + s.heap.mhSize p + 24 == header && !s.heap.mhAlloc p

/-- There is a block behind this one, and it is free. -/
def rightFree (s : HeapState) (header : Nat) : Bool :=
  s.heap.index.elems.any fun p => p == header + s.heap.mhSize header + 24 && !s.heap.mhAlloc p

/-- The index has room for the blocks an allocation adds, and no block is freed
that has a free left neighbour but no free right neighbour. -/
def safe (s : HeapState) : HeapCall → Bool
  | .alloc size aligned =>
    s.heap.index.elems.length + s.heap.blocksAdded size aligned ≤ s.heap.index.max
  | .free ptr => !s.leftFree (ptr - 16) || s.rightFree (ptr - 16)
  | .store _ _ => true

def safeStep (s : HeapState) (call : HeapCall) : Bool := s.allowed call && s.safe call

end HeapState

/-- The blocks tile the heap, each footer points back to its own header, the index
holds each header once and nothing else, and live payloads are apart. -/
structure HeapOk (s : HeapState) : Prop where
  blocks : ∃ bs : List Block,
    BlocksTile KHEAP_DATA_VADDR bs (KHEAP_DATA_VADDR + KHEAP_DATA_LEN) ∧
    (∀ b ∈ bs, b.Stored s.heap.mem) ∧
    s.heap.index.elems.Perm (bs.map Block.addr) ∧ s.heap.index.elems.Nodup
  apart : s.live.Pairwise fun a c => a.ptr + a.size ≤ c.ptr ∨ c.ptr + c.size ≤ a.ptr

/-- The live pointers are the payloads of the allocated blocks. -/
structure LiveIn (bs : List Block) (live : List Allocation) : Prop where
  pointers : (live.map Allocation.ptr).Perm ((bs.filter Block.alloc).map fun b => b.addr + 16)
  fits : ∀ a ∈ live, ∃ b ∈ bs, b.alloc = true ∧ b.addr + 16 = a.ptr ∧ a.size ≤ b.size

/-- The invariant of the runs. -/
structure HeapInv (s : HeapState) (bs : List Block) : Prop extends s.heap.WellFormed bs where
  addr : s.heap.addr = KHEAP_DATA_VADDR
  size : s.heap.size = KHEAP_DATA_LEN
  live : LiveIn bs s.live

variable {s : HeapState} {bs : List Block}

open Block

variable {bs' : List Block} {heap' : MemHeap} {size ptr : Nat} (mem : Mem)

theorem HeapInv.ok (h : HeapInv s bs) : HeapOk s where
  blocks := by
    have tiles := h.tiles
    rw [h.addr, h.size] at tiles
    exact ⟨bs, tiles, h.stored, h.index,
      h.index.nodup_iff.2 (tiles.nodup positive)⟩
  apart := by
    have nodup : (s.live.map Allocation.ptr).Nodup := by
      refine h.live.pointers.nodup_iff.2 ?_
      refine pairwise_map.2 (((h.tiles.ordered positive).filter _).imp ?_)
      intro b c apart
      have := b.positive
      omega
    refine (pairwise_map.1 nodup).imp_of_mem ?_
    intro a c ha hc different
    obtain ⟨b, hb, -, _, _⟩ := h.live.fits a ha
    obtain ⟨d, hd, -, _, _⟩ := h.live.fits c hc
    rcases h.tiles.apart_or_eq positive hb hd with rfl | before | behind
    · omega
    · simp only [stop] at before
      omega
    · simp only [stop] at behind
      omega

theorem mem_of_ne {α : Type} {pre post : List α} {b c : α} (hc : c ∈ pre ++ [b] ++ post)
    (different : c ≠ b) : c ∈ pre ++ post := by
  simp only [mem_append, mem_singleton] at hc ⊢
  exact hc.elim (fun hc => .inl (hc.resolve_right different)) .inr

theorem HeapInv.alloc (h : HeapInv s bs) (spec : MemHeap.Allocated size ptr s.heap heap' bs bs') :
    HeapInv ⟨heap', ⟨ptr, size⟩ :: s.live⟩ bs' := by
  obtain ⟨_, b, _, left, n, right, rfl, free, rfl, _, fits, others, -⟩ := spec.stretch
  have none_left : left.filter Block.alloc = [] :=
    filter_eq_nil_iff.2 fun c hc => by simp [others c (mem_append_left _ hc)]
  have none_right : right.filter Block.alloc = [] :=
    filter_eq_nil_iff.2 fun c hc => by simp [others c (mem_append_right _ hc)]
  refine ⟨spec.wellFormed, spec.same.addr.trans h.addr, spec.same.size.trans h.size, ?_, ?_⟩
  · have pointers := h.live.pointers
    have payload : ptr - 16 + 16 = ptr := by omega
    simp only [filter_append, filter_cons, filter_nil, free, none_left, none_right,
      map_append, map_cons, map_nil, if_true, Bool.false_eq_true, if_false,
      append_nil, nil_append, payload] at pointers ⊢
    simpa using (pointers.cons ptr).trans perm_middle.symm
  · intro a ha
    rcases mem_cons.1 ha with rfl | ha
    · exact ⟨⟨ptr - 16, n, true⟩, by simp, rfl, by dsimp only; omega, fits⟩
    · obtain ⟨c, hc, alloc, start, size⟩ := h.live.fits a ha
      have different : c ≠ b := by
        rintro rfl
        simp [free] at alloc
      exact ⟨c, mem_around (mem_of_ne hc different), alloc, start, size⟩

theorem HeapInv.free {pre post bs' : List Block} {b : Block} {heap' : MemHeap}
    (h : HeapInv s (pre ++ [b] ++ post)) (wf : heap'.WellFormed bs') (same : s.heap.SameRange heap')
    (alloc : b.alloc = true) (freed : MemHeap.Freed pre post bs') :
    HeapInv ⟨heap', s.live.filter fun a => a.ptr != b.addr + 16⟩ bs' := by
  have live := freed.filter
  have others : ∀ c ∈ pre ++ post, c.addr ≠ b.addr := by
    intro c hc same
    have := h.tiles.apart positive ⟨rfl, rfl⟩ (cons_ne_nil b []) hc
    have := b.positive
    have := c.positive
    omega
  refine ⟨wf, same.addr.trans h.addr, same.size.trans h.size, ?_, ?_⟩
  · have kept : ∀ cs : List Block, (∀ c ∈ cs, c ∈ pre ++ post) →
        (cs.filter Block.alloc).filter ((fun p => p != b.addr + 16) ∘ fun c => c.addr + 16)
          = cs.filter Block.alloc := by
      intro cs hcs
      refine filter_eq_self.2 fun c hc => ?_
      simpa using others c (hcs c (mem_of_mem_filter hc))
    have pointers := h.live.pointers.filter fun p => p != b.addr + 16
    rw [List.filter_map, List.filter_map, List.filter_append, List.filter_append,
      List.filter_append, List.filter_append, kept pre fun c => List.mem_append_left post,
      kept post fun c => mem_append_right pre] at pointers
    rw [live, filter_append]
    simpa [filter_cons, alloc, comp_def] using pointers
  · intro a ha
    obtain ⟨ha, different⟩ := mem_filter.1 ha
    obtain ⟨c, hc, used, start, size⟩ := h.live.fits a ha
    have hne : c ≠ b := by
      rintro rfl
      simp [start] at different
    have kept : c ∈ bs'.filter Block.alloc := by
      rw [live]
      exact mem_filter.2 ⟨mem_of_ne hc hne, used⟩
    exact ⟨c, (mem_filter.1 kept).1, used, start, size⟩

theorem HeapInv.store {addr : Nat} (byte : UInt8) (h : HeapInv s bs) {a : Allocation}
    (ha : a ∈ s.live) (from_ : a.ptr ≤ addr) (upto : addr < a.ptr + a.size) :
    HeapInv { s with heap := { s.heap with mem := s.heap.mem.set addr byte } } bs := by
  obtain ⟨b, hb, -, _, _⟩ := h.live.fits a ha
  obtain ⟨pre, post, rfl⟩ := append_of_mem hb
  have wf : s.heap.WellFormed (pre ++ [b] ++ post) := by simpa using h.toWellFormed
  have wf' := (wf.formed.set byte (x := addr) (by omega) (by unfold footer; omega)).1
  rw [if_neg (by omega)] at wf'
  have wf' := wf'.wellFormed wf.toShape rfl rfl
  exact ⟨by simpa using wf', h.addr, h.size, h.live⟩

open HeapState

open MemHeap

theorem HeapState.init_inv : ∃ s bs, init mem = some s ∧ HeapInv s bs ∧ MemHeap.Apart bs := by
  unfold init heapInit
  simp only [mhSize, setSize, setAlloc, setCigam,
    setHeader, setMagic, indexInsert, Option.map_map]
  generalize heapCmp _ = cmp
  obtain ⟨_, inserted, _, perm⟩ := SortedArray.insert_of_room cmp KHEAP_DATA_VADDR
    (show (SortedArray.place KHEAP_INDEX_NELEM : SortedArray Nat).elems.length <
      (SortedArray.place KHEAP_INDEX_NELEM : SortedArray Nat).max by decide)
  rw [inserted]
  simp (disch := decide) only [map_some, comp_apply, Mem.word_set_of_off,
    Mem.word_setWord]
  have footer : add32 (add32 KHEAP_DATA_VADDR headerSize)
      (KHEAP_DATA_LEN - headerSize - footerSize) = KHEAP_DATA_VADDR + 16 + (KHEAP_DATA_LEN - 24) := by
    decide
  have low : 8 ≤ KHEAP_DATA_VADDR := by decide
  have high : KHEAP_DATA_VADDR + KHEAP_DATA_LEN ≤ 0xfffff000 := by decide
  rw [footer]
  refine ⟨_, [⟨KHEAP_DATA_VADDR, KHEAP_DATA_LEN - 24, false⟩], rfl,
    ⟨⟨⟨low, high, ⟨rfl, rfl⟩, perm⟩, ?_⟩, rfl, rfl, ⟨List.Perm.refl _, by rintro _ ⟨⟩⟩⟩,
    isChain_singleton _⟩
  simp only [forall_mem_cons, not_mem_nil, false_imp_iff, implies_true, and_true]
  refine ⟨⟨?_, ?_, ?_⟩, ?_, ?_⟩ <;>
    simp (disch := first | omega | decide) only [Block.footer, Mem.word_setWord_of_off,
      Mem.word_set_of_off, Mem.word_setWord, Mem.setWord_of_off, Mem.set_same]
  · rfl
  · decide

/-- A free left neighbour is one that `safe` sees, and a free right neighbour that
`safe` sees is the next block. -/
theorem HeapInv.safe_free {pre post : List Block} {b : Block} (h : HeapInv s (pre ++ [b] ++ post))
    (safe : s.safe (.free (b.addr + 16)) = true) :
    (∃ l ∈ pre.getLast?, l.alloc = false) → ∃ r ∈ post.head?, r.alloc = false := by
  rintro ⟨l, hl, free⟩
  have listed : ∀ c ∈ pre ++ [b] ++ post, c.addr ∈ s.heap.index.elems := fun c hc =>
    h.index.mem_iff.2 (mem_map_of_mem hc)
  have left : s.leftFree b.addr = true := by
    obtain ⟨front, rfl⟩ : ∃ front, pre = front ++ [l] := getLast?_eq_some_iff.1 hl
    have mem : l ∈ front ++ [l] ++ [b] ++ post := by simp
    have stored := h.stored l mem
    have shape : s.heap.Shape (front ++ l :: b :: post) := by simpa using h.toShape
    have size : s.heap.mhSize l.addr = l.size := stored.size
    have flag : s.heap.mhAlloc l.addr = false := stored.alloc.trans free
    have start : l.addr + l.size + 24 = b.addr := shape.next.1.symm
    simp only [leftFree, List.any_eq_true]
    exact ⟨l.addr, listed l mem, by simp [size, flag, start]⟩
  have right : s.rightFree b.addr = true := by simpa [HeapState.safe, left] using safe
  simp only [rightFree, List.any_eq_true, Bool.and_eq_true, beq_iff_eq,
    Bool.not_eq_true'] at right
  obtain ⟨p, hp, start, flag⟩ := right
  obtain ⟨r, hr, rfl⟩ := List.mem_map.1 (h.index.mem_iff.1 hp)
  have size : s.heap.mhSize b.addr = b.size := (h.stored b (by simp)).size
  rw [size] at start
  have shape : s.heap.Shape (pre ++ b :: post) := by simpa using h.toShape
  have next := shape.next
  cases post with
  | nil =>
    have stop : b.addr + b.size + 24 = s.heap.addr + s.heap.size := next
    have := (h.bounds hr).2
    omega
  | cons c post =>
    have same : c = r := h.tiles.eq_of_start positive (by simp) hr (next.1.trans start.symm)
    exact ⟨c, rfl, same ▸ (h.stored r hr).alloc.symm.trans flag⟩

/-- The block that served a request was free, so its neighbours are allocated, and the free
remainders stay between them and the new block. -/
theorem MemHeap.Serves.apart {heap : MemHeap} {aligned : Bool}
    (serves : MemHeap.Serves size ptr aligned heap heap' bs bs')
    (apart : MemHeap.Apart bs) : MemHeap.Apart bs' := by
  obtain ⟨pre, b, post, left, n, right, rfl, free, rfl, -, -, one, one', -, -⟩ :=
    serves.stretch
  obtain ⟨first, hpost, joint⟩ := isChain_append.1 apart
  obtain ⟨hpre, -, joint'⟩ := isChain_append.1 first
  have before : ∀ l ∈ pre.getLast?, l.alloc = true := fun l hl =>
    (joint' l hl b rfl).resolve_right (by simp [free])
  have behind : ∀ r ∈ post.head?, r.alloc = true := fun r hr =>
    (joint b (by simp) r hr).resolve_left (by simp [free])
  have short : ∀ cs : List Block, cs.length ≤ 1 → MemHeap.Apart cs := by
    rintro (_ | ⟨c, _ | ⟨d, cs⟩⟩) le
    · exact .nil
    · exact .singleton c
    · simp at le
  have middle : MemHeap.Apart (left ++ ⟨ptr - 16, n, true⟩ :: right) := by
    refine (short left one).append ((short right one').cons fun _ _ => .inl rfl) ?_
    rintro l - _ ⟨⟩
    exact .inr rfl
  refine (hpre.append middle fun l hl _ _ => .inl (before l hl)).append hpost ?_
  exact fun _ _ r hr => .inr (behind r hr)

theorem HeapInv.step {call : HeapCall} (h : HeapInv s bs) (ok : s.safeStep call = true) :
    ∃ t bs', s.step call = some t ∧ HeapInv t bs' ∧ (MemHeap.Apart bs → MemHeap.Apart bs') := by
  obtain ⟨allowed, safe⟩ := Bool.and_eq_true_iff.1 ok
  cases call with
  | alloc size aligned =>
    simp only [HeapState.allowed, HeapState.safe, decide_eq_true_eq] at allowed safe
    rcases heapAlloc_spec aligned h.toWellFormed allowed safe with eq | ⟨heap', ptr, bs', eq, serves⟩
    · refine ⟨s, bs, ?_, h, id⟩
      simp only [HeapState.step, eq, map_some]
    · refine ⟨⟨heap', ⟨ptr, size⟩ :: s.live⟩, bs', ?_, h.alloc (serves.allocated h.toShape),
        serves.apart⟩
      simp only [HeapState.step, eq, map_some]
  | free ptr =>
    simp only [HeapState.allowed, List.any_eq_true, beq_iff_eq] at allowed
    obtain ⟨a, ha, rfl⟩ := allowed
    obtain ⟨b, hb, used, start, -⟩ := h.live.fits a ha
    obtain ⟨pre, post, rfl⟩ := append_of_mem hb
    have h : HeapInv s (pre ++ [b] ++ post) := by simpa using h
    rw [← start] at safe ⊢
    obtain ⟨heap', bs', eq, wf, freed, same⟩ := heapFree_spec h.toWellFormed (h.safe_free safe)
    refine ⟨_, bs', ?_, h.free wf same used freed, fun apart => ?_⟩
    · simp only [HeapState.step, eq, map_some]
    · exact freed.apart (b := b) (by simpa using apart)
  | store _ byte =>
    simp only [HeapState.allowed, List.any_eq_true, Bool.and_eq_true, decide_eq_true_eq] at allowed
    obtain ⟨a, ha, from_, upto⟩ := allowed
    exact ⟨_, bs, rfl, h.store byte ha from_ upto, id⟩

/-- Every run of allowed and safe calls keeps the invariant, and free blocks apart. -/
theorem HeapState.run_inv :
    ∃ s₀, init mem = some s₀ ∧ ∀ calls s,
      Run (Guarded (fun s call => s.safeStep call = true) (partialGraph step))
        s₀ calls s →
      ∃ bs, HeapInv s bs ∧ MemHeap.Apart bs := by
  obtain ⟨s₀, bs, eq, start, apart⟩ := init_inv mem
  refine ⟨s₀, eq, fun calls s run => ?_⟩
  refine run.invariant (I := fun s => ∃ bs, HeapInv s bs ∧ MemHeap.Apart bs) ?_ ⟨bs, start, apart⟩
  rintro s call t ⟨bs, h, apart⟩ ⟨ok, step⟩
  obtain ⟨t', bs', step', h', apart'⟩ := h.step ok
  obtain rfl : t' = t := some.inj (step'.symm.trans step)
  exact ⟨bs', h', apart' apart⟩

/-- From `heap_init` on, as long as no free merges to the left only and the index
has room, the heap's blocks, footers, index and live payloads stay in order, and
every further call of that kind succeeds. -/
theorem heap_runs_ok (mem : Mem) :
    ∃ s₀, HeapState.init mem = some s₀ ∧ ∀ calls s,
      Run (Guarded (fun s call => s.safeStep call = true) (partialGraph HeapState.step))
        s₀ calls s →
      HeapOk s ∧ ∀ call, s.safeStep call = true → ∃ t, s.step call = some t := by
  obtain ⟨s₀, eq, runs⟩ := HeapState.run_inv mem
  refine ⟨s₀, eq, fun calls s run => ?_⟩
  obtain ⟨_, h, -⟩ := runs calls s run
  refine ⟨h.ok, fun call ok => ?_⟩
  obtain ⟨t, -, step, -⟩ := h.step ok
  exact ⟨t, step⟩

theorem heap_runs_ok_at : ∃ s₀ s, HeapState.init (fun _ => 0) = some s₀ ∧
    Run (Guarded (fun s call => s.safeStep call = true) (partialGraph HeapState.step)) s₀
      [.alloc 8 false, .alloc 8 false, .alloc 100 true, .store 0xd0000012 7, .free 0xd0000030,
        .free 0xd0000010] s ∧ HeapOk s := by
  obtain ⟨s₀, init, runs⟩ := heap_runs_ok fun _ => 0
  have runnable : ((HeapState.init fun _ => 0).bind fun s => exec HeapState.safeStep HeapState.step s
      [.alloc 8 false, .alloc 8 false, .alloc 100 true, .store 0xd0000012 7, .free 0xd0000030,
        .free 0xd0000010]).isSome = true := by
    decide +kernel
  obtain ⟨s, hs⟩ := Option.isSome_iff_exists.1 runnable
  rw [init, Option.bind_some] at hs
  have run := run_of_exec hs
  exact ⟨s₀, s, init, run, (runs _ s run).1⟩

/-- Three blocks, of which the first and then the second are freed: the merged
block's footer still points to the second header. -/
theorem heap_free_leaves_stale_footer :
    ¬∀ (mem : Mem) (s₀ : HeapState) (calls : List HeapCall) (s : HeapState),
      HeapState.init mem = some s₀ →
      Run (Guarded (fun s call => s.allowed call = true) (partialGraph HeapState.step))
        s₀ calls s → HeapOk s := by
  intro claim
  have final : ((HeapState.init fun _ => 0).bind fun s => exec HeapState.allowed HeapState.step s
      [.alloc 8 false, .alloc 8 false, .alloc 8 false, .free 0xd0000010, .free 0xd0000030]).any
        (fun s => s.heap.mem.word 0xd0000004 == 40 && s.heap.mem.word 0xd000003c != 0xd0000000)
      = true := by
    decide +kernel
  obtain ⟨s, hs, facts⟩ := (Option.any_eq_true _ _).1 final
  obtain ⟨s₀, init, hs⟩ := Option.bind_eq_some_iff.1 hs
  simp only [Bool.and_eq_true, beq_iff_eq, bne_iff_ne] at facts
  obtain ⟨bs, tiles, stored, -⟩ := (claim _ s₀ _ s init (run_of_exec hs)).blocks
  cases bs with
  | nil =>
    have empty : KHEAP_DATA_VADDR = KHEAP_DATA_VADDR + KHEAP_DATA_LEN := tiles
    exact absurd empty (by decide)
  | cons b bs =>
    have block := stored b List.mem_cons_self
    have addr : b.addr = 0xd0000000 := tiles.1
    have size : b.size = 40 := by
      rw [← block.size, addr]
      exact facts.1
    have footer : s.heap.mem.word 0xd000003c = 0xd0000000 := by
      have header := block.header
      rwa [Block.footer, addr, size] at header
    exact facts.2 footer

/-- No two adjacent blocks are free, and when nothing is allocated any more the heap is the one
block it was at first. -/
structure HeapState.Coalesced (s : HeapState) : Prop where
  apart : ∀ p ∈ s.heap.index.elems, ∀ q ∈ s.heap.index.elems, p + s.heap.mhSize p + 24 = q →
    s.heap.mhAlloc p = true ∨ s.heap.mhAlloc q = true
  whole : s.live = [] → s.heap.index.elems = [KHEAP_DATA_VADDR] ∧
    s.heap.mhSize KHEAP_DATA_VADDR = KHEAP_DATA_LEN - 24 ∧
    s.heap.mhAlloc KHEAP_DATA_VADDR = false

theorem HeapInv.apart_headers (h : HeapInv s bs) (apart : MemHeap.Apart bs) {p q : Nat}
    (hp : p ∈ s.heap.index.elems) (hq : q ∈ s.heap.index.elems)
    (next : p + s.heap.mhSize p + 24 = q) : s.heap.mhAlloc p = true ∨ s.heap.mhAlloc q = true := by
  obtain ⟨b, hb, rfl⟩ := mem_map.1 (h.index.mem_iff.1 hp)
  obtain ⟨c, hc, rfl⟩ := mem_map.1 (h.index.mem_iff.1 hq)
  have size : s.heap.mhSize b.addr = b.size := (h.stored b hb).size
  have flag : s.heap.mhAlloc b.addr = b.alloc := (h.stored b hb).alloc
  have flag' : s.heap.mhAlloc c.addr = c.alloc := (h.stored c hc).alloc
  rw [size] at next
  rw [flag, flag']
  obtain ⟨_, post, rfl⟩ := append_of_mem hb
  have tiles := h.toShape.next
  cases post with
  | nil =>
    have stop : b.addr + b.size + 24 = s.heap.addr + s.heap.size := tiles
    have := (h.bounds hc).2
    omega
  | cons d post =>
    have same : d = c := h.tiles.eq_of_start positive (by simp) hc (tiles.1.trans next)
    exact same ▸ (isChain_append_cons_cons.1 apart).2.1

theorem HeapInv.whole (h : HeapInv s bs) (apart : MemHeap.Apart bs) (live : s.live = []) :
    bs = [⟨KHEAP_DATA_VADDR, KHEAP_DATA_LEN - 24, false⟩] := by
  have tiles := h.tiles
  rw [h.addr, h.size] at tiles
  have none : ∀ b ∈ bs, b.alloc = false := by
    have pointers := h.live.pointers
    rw [live, map_nil, nil_perm, map_eq_nil_iff, filter_eq_nil_iff] at pointers
    simpa using pointers
  have short : ∀ b c cs, bs ≠ b :: c :: cs := by
    rintro b c cs rfl
    have := (isChain_cons_cons.1 apart).1
    simp [none b, none c] at this
  cases bs with
  | nil =>
    have empty : KHEAP_DATA_VADDR = KHEAP_DATA_VADDR + KHEAP_DATA_LEN := tiles
    exact absurd empty (by decide)
  | cons b cs =>
    cases cs with
    | cons c cs => exact absurd rfl (short b c cs)
    | nil =>
      obtain ⟨addr, stop⟩ := tiles
      have stop : b.addr + b.size + 24 = KHEAP_DATA_VADDR + KHEAP_DATA_LEN := stop
      have free := none b mem_cons_self
      obtain ⟨a, n, _⟩ := b
      simp only at addr stop free
      rw [addr, free, show n = KHEAP_DATA_LEN - 24 by omega]

/-- From `heap_init` on, as long as no free merges to the left only and the index has room, free
neighbours are merged, in every state of the run. -/
theorem heap_coalesces (mem : Mem) :
    ∃ s₀, HeapState.init mem = some s₀ ∧ ∀ calls s,
      Run (Guarded (fun s call => s.safeStep call = true) (partialGraph HeapState.step))
        s₀ calls s → s.Coalesced := by
  obtain ⟨s₀, eq, runs⟩ := HeapState.run_inv mem
  refine ⟨s₀, eq, fun calls s run => ?_⟩
  obtain ⟨_, h, apart⟩ := runs calls s run
  constructor
  case apart => exact fun p hp q hq next => h.apart_headers apart hp hq next
  case whole =>
    intro live
    obtain rfl := h.whole apart live
    have stored := h.stored _ List.mem_cons_self
    exact ⟨List.perm_singleton.1 h.index, stored.size, stored.alloc⟩

/-- Two blocks freed in the opposite order. -/
theorem heap_coalesces_back : ∃ s₀ s, HeapState.init (fun _ => 0) = some s₀ ∧
    Run (Guarded (fun s call => s.safeStep call = true) (partialGraph HeapState.step)) s₀
      [.alloc 8 false, .alloc 8 false, .free 0xd0000030, .free 0xd0000010] s ∧
    s.live = [] ∧ s.Coalesced := by
  obtain ⟨s₀, init, runs⟩ := heap_coalesces fun _ => 0
  have runnable : ((HeapState.init fun _ => 0).bind fun s => exec HeapState.safeStep HeapState.step s
      [.alloc 8 false, .alloc 8 false, .free 0xd0000030, .free 0xd0000010]).any
        (fun s => s.live.isEmpty) = true := by
    decide +kernel
  obtain ⟨s, hs, live⟩ := (Option.any_eq_true _ _).1 runnable
  rw [init, Option.bind_some] at hs
  have run := run_of_exec hs
  exact ⟨s₀, s, init, run, List.isEmpty_iff.1 live, runs _ s run⟩

/-- Three blocks freed in the order they were allocated in: the second merges into the first, the
third does not find the first behind the footer that still names the second, and the heap ends as
two free blocks side by side. -/
theorem heap_free_leaves_neighbours :
    ¬∀ (mem : Mem) (s₀ : HeapState) (calls : List HeapCall) (s : HeapState),
      HeapState.init mem = some s₀ →
      Run (Guarded (fun s call => s.allowed call = true) (partialGraph HeapState.step))
        s₀ calls s → s.Coalesced := by
  intro claim
  have final : ((HeapState.init fun _ => 0).bind fun s => exec HeapState.allowed HeapState.step s
      [.alloc 8 false, .alloc 8 false, .alloc 8 false, .free 0xd0000010, .free 0xd0000030,
        .free 0xd0000050]).any
        (fun s => s.live.isEmpty && s.heap.index.elems.length == 2) = true := by
    decide +kernel
  obtain ⟨s, hs, facts⟩ := (Option.any_eq_true _ _).1 final
  obtain ⟨s₀, init, hs⟩ := Option.bind_eq_some_iff.1 hs
  simp only [Bool.and_eq_true, beq_iff_eq, List.isEmpty_iff] at facts
  obtain ⟨index, -⟩ := (claim _ s₀ _ s init (run_of_exec hs)).whole facts.1
  rw [index] at facts
  exact absurd facts.2 (by decide)

end Os0
