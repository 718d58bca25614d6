import Mathlib.Algebra.GroupWithZero.Nat
import Os0.Heap.Blocks
import Mathlib.Data.List.Find

/-! `heap_alloc` on a well-formed heap: what carving at a page boundary and
splitting do to the block list, and what the loop over the index returns. -/
namespace Os0

open Bytes Tiling Function List Option Mem Block

namespace MemHeap

variable {heap heap' : MemHeap} {pre post : List Block} {b : Block} {size : Nat}

variable {bs : List Block}

theorem magic_lt : MEM_MAGIC < 4294967296 := by decide

theorem cigam_lt : MEM_CIGAM < 4294967296 := by decide

section

variable (h : heap.Formed (pre ++ [b] ++ post))
include h

theorem splitBlock_spec (fits : size + 24 < b.size)
    (room : heap.index.elems.length < heap.index.max) :
    ∃ heap', heap.splitBlock b.addr size = some heap' ∧
      (heap'.Formed (pre ++ [⟨b.addr, size, true⟩,
          ⟨b.addr + size + 24, b.size - size - 24, false⟩] ++ post) ∧
        Mem.AgreeOff b.addr b.stop heap.mem heap'.mem) ∧
      heap.SameRange heap' := by
  obtain ⟨_, _, stored⟩ := h.block
  have magic := magic_lt
  have cigam := cigam_lt
  have footer := @footer_start b.addr size (by omega)
  have newHeader : add32 (b.addr + 16 + size) footerSize = b.addr + size + 24 := by
    unfold add32 footerSize; omega
  have newSize : sub32 (sub32 (sub32 b.size size) headerSize) footerSize
      = b.size - size - 24 := by
    unfold sub32 headerSize footerSize; omega
  unfold splitBlock
  simp only [mhSize, stored.size, footer, newHeader, newSize, setSize, setAlloc, setCigam,
    setHeader, setMagic, indexInsert, Option.map_map]
  generalize heapCmp _ = cmp
  obtain ⟨_, inserted, max, perm⟩ :=
    SortedArray.insert_of_room cmp (b.addr + size + 24) room
  rw [inserted]
  simp (disch := omega) only [map_some, comp_apply, word_set_of_off,
    word_setWord, footer_start]
  refine ⟨_, rfl, h.divide rfl rfl ⟨rfl, rfl, ?_⟩ perm ?_ ?_, rfl, rfl, max⟩
  · simp only [Tiles, stop]
    omega
  · intro a ha
    simp only [stop] at ha
    simp (disch := omega) only [setWord_of_off, set_of_ne]
  · simp only [forall_mem_cons, not_mem_nil, false_imp_iff, implies_true, and_true]
    refine ⟨⟨⟨?_, ?_, ?_⟩, ?_, ?_⟩, ⟨?_, ?_, ?_⟩, ?_, ?_⟩ <;>
      simp (disch := omega) only [Block.footer, Mem.word_setWord_of_off, Mem.word_set_of_off,
        Mem.word_setWord, Mem.setWord_of_off, Mem.set_of_ne, Mem.set_same]
    · exact stored.magic
    · decide
    · decide

/-- Allocating the front of a block leaves at most one free block behind it. -/
theorem takeBlock_spec (hsize : size + 24 < 4294967296)
    (fits : size ≤ b.size) (room : size + 24 < b.size → heap.index.elems.length < heap.index.max) :
    ∃ heap' n rest, heap.takeBlock b.addr size = some (heap', some (b.addr + 16)) ∧
      size ≤ n ∧ rest.length ≤ 1 ∧ (∀ c ∈ rest, c.alloc = false) ∧
      (heap'.Formed (pre ++ ⟨b.addr, n, true⟩ :: rest ++ post) ∧
        Mem.AgreeOff b.addr b.stop heap.mem heap'.mem) ∧
      heap.SameRange heap' := by
  obtain ⟨_, _, stored⟩ := h.block
  have ptr := @payload_start b.addr (by omega)
  have need := framed_size hsize
  unfold takeBlock
  simp only [mhSize, stored.size, ptr, need]
  by_cases larger : size + 24 < b.size
  · obtain ⟨heap', split, spec, same⟩ := splitBlock_spec h larger (room larger)
    rw [if_pos larger, split]
    exact ⟨heap', size, [⟨b.addr + size + 24, b.size - size - 24, false⟩], rfl, le_rfl,
      le_rfl, by simp, spec, same⟩
  · rw [if_neg larger, if_pos fits]
    have taken := h.set 1 le_rfl (by unfold footer; omega)
    rw [if_pos rfl] at taken
    exact ⟨_, b.size, [], rfl, fits, by simp, by simp, taken, rfl, rfl, rfl⟩

/-- Carving at a page boundary inside a block leaves its front as it was, free or
not, and gives the rest, allocated, a header right below the boundary. -/
theorem carvePage_spec {addr : Nat}
    (front : b.addr + 40 < addr) (back : addr < b.addr + 16 + b.size)
    (room : heap.index.elems.length < heap.index.max) :
    ∃ heap', heap.carvePage b.addr addr = some (heap', addr - 16) ∧
      (heap'.Formed (pre ++ [⟨b.addr, addr - b.addr - 40, b.alloc⟩,
          ⟨addr - 16, b.addr + 16 + b.size - addr, true⟩] ++ post) ∧
        Mem.AgreeOff b.addr b.stop heap.mem heap'.mem) ∧
      heap.SameRange heap' ∧
      heap'.index.elems.length = heap.index.elems.length + 1 := by
  obtain ⟨_, _, stored⟩ := h.block
  have magic := magic_lt
  have cigam := cigam_lt
  have footer := @footer_start b.addr b.size (by omega)
  have pageHeader : sub32 addr headerSize = addr - 16 := by
    unfold sub32 headerSize; omega
  have prevFooter : sub32 (addr - 16) footerSize = addr - 24 := by
    unfold sub32 footerSize; omega
  have pageSize : add32 (add32 (sub32 b.size addr) b.addr) headerSize
      = b.addr + 16 + b.size - addr := by
    unfold add32 sub32 headerSize; omega
  have prevSize : sub32 (sub32 (addr - 24) b.addr) headerSize = addr - b.addr - 40 := by
    unfold sub32 headerSize; omega
  have stays : heap.mem.word (b.addr + 16 + b.size) = MEM_CIGAM := stored.cigam
  unfold carvePage
  simp (disch := omega) only [mhSize, mfCigam, stored.size, footer, pageHeader, prevFooter,
    prevSize, stays, setSize, setAlloc, setCigam, setHeader, setMagic, indexInsert,
    word_setWord_of_off, pageSize, ne_eq, not_true_eq_false, if_false, Option.map_map]
  generalize heapCmp _ = cmp
  obtain ⟨_, inserted, max, perm⟩ := SortedArray.insert_of_room cmp (addr - 16) room
  rw [inserted]
  refine ⟨_, rfl, h.divide rfl rfl ⟨rfl, ?_, ?_⟩ perm ?_ ?_, ⟨rfl, rfl, max⟩, perm.length_eq⟩
  · simp only [stop]
    omega
  · simp only [Tiles, stop]
    omega
  · intro a ha
    simp only [stop] at ha
    simp (disch := omega) only [setWord_of_off, set_of_ne]
  · have prevFooterAt : b.addr + 16 + (addr - b.addr - 40) = addr - 24 := by omega
    have footerAt : addr - 16 + 16 + (b.addr + 16 + b.size - addr) = b.addr + 16 + b.size := by
      omega
    simp only [forall_mem_cons, not_mem_nil, false_imp_iff, implies_true, and_true]
    refine ⟨⟨⟨?_, ?_, ?_⟩, ?_, ?_⟩, ⟨?_, ?_, ?_⟩, ?_, ?_⟩ <;>
      simp (disch := omega) only [Block.footer, prevFooterAt, footerAt, Mem.word_setWord_of_off,
        Mem.word_set_of_off, Mem.word_setWord, Mem.setWord_of_off, Mem.set_of_ne, Mem.set_same]
    · exact stored.magic
    · exact stored.alloc
    · decide
    · exact stays

end

/-- The request has to be carved out at a page boundary. -/
def carves (aligned : Bool) (header : Nat) : Bool := aligned && (header + 16) % PAGE_SIZE ≠ 0

/-- The page boundary behind the start of the payload. -/
def boundary (header : Nat) : Nat := (header + 16) / PAGE_SIZE * PAGE_SIZE + PAGE_SIZE

/-- The payload a block offers to a request. -/
def payload (heap : MemHeap) (aligned : Bool) (header : Nat) : Nat :=
  if carves aligned header then header + 16 + heap.mhSize header - boundary header
  else heap.mhSize header

/-- `heap_alloc` can serve the request from this block: it is free, what it offers
is enough, and a carved page leaves room for a block in front of it. -/
def fits (heap : MemHeap) (size : Nat) (aligned : Bool) (header : Nat) : Bool :=
  !heap.mhAlloc header && decide (size ≤ heap.payload aligned header) &&
    (!carves aligned header ||
      (decide (boundary header < header + 16 + heap.mhSize header) &&
        decide (header + 40 < boundary header)))

/-- How many blocks the request adds when this block serves it. -/
def added (heap : MemHeap) (size : Nat) (aligned : Bool) (header : Nat) : Nat :=
  (if carves aligned header then 1 else 0) +
    (if size + 24 < heap.payload aligned header then 1 else 0)

/-- A free block that the search goes wrong on: the page boundary behind the start of its payload
is the end of the address space, so its address wraps to 0 and passes for one inside the block. -/
def overruns (heap : MemHeap) (size : Nat) (aligned : Bool) (header : Nat) : Bool :=
  !heap.mhAlloc header && carves aligned header && decide (boundary header = 0x100000000) &&
    decide (header + 40 < 0x100000000) && decide (size ≤ header + 16 + heap.mhSize header)

/-- A free block has become a stretch with one allocated block of at least `size`
bytes, whose payload starts at `ptr`. -/
structure Allocated (size ptr : Nat) (heap heap' : MemHeap) (bs bs' : List Block) : Prop where
  stretch : ∃ pre b post left n right, bs = pre ++ [b] ++ post ∧ b.alloc = false ∧
    bs' = pre ++ (left ++ ⟨ptr - 16, n, true⟩ :: right) ++ post ∧ 16 ≤ ptr ∧ size ≤ n ∧
    (∀ c ∈ left ++ right, c.alloc = false) ∧
    Mem.AgreeOff b.addr b.stop heap.mem heap'.mem
  wellFormed : heap'.WellFormed bs'
  same : heap.SameRange heap'

/-- What a call that succeeds has done: one free block is now an allocated block of at least
`size` bytes with at most one free block on either side. Its payload starts at `ptr`, at a page
boundary if that was asked for. Nothing outside the block has changed. -/
structure Serves (size ptr : Nat) (aligned : Bool) (heap heap' : MemHeap) (bs bs' : List Block) :
    Prop where
  stretch : ∃ pre b post left n right, bs = pre ++ [b] ++ post ∧ b.alloc = false ∧
    bs' = pre ++ (left ++ ⟨ptr - 16, n, true⟩ :: right) ++ post ∧ 16 ≤ ptr ∧ size ≤ n ∧
    left.length ≤ 1 ∧ right.length ≤ 1 ∧ (∀ c ∈ left ++ right, c.alloc = false) ∧
    Mem.AgreeOff b.addr b.stop heap.mem heap'.mem
  page : aligned = true → ptr % PAGE_SIZE = 0
  formed : heap'.Formed bs'
  same : heap.SameRange heap'

theorem Serves.allocated {ptr : Nat} {aligned : Bool} {bs' : List Block}
    (h : Serves size ptr aligned heap heap' bs bs') (old : heap.Shape bs) :
    Allocated size ptr heap heap' bs bs' := by
  constructor
  case stretch =>
    obtain ⟨pre, b, post, left, n, right, was, free, now, low, enough, -, -, others, agree⟩ :=
      h.stretch
    exact ⟨pre, b, post, left, n, right, was, free, now, low, enough, others, agree⟩
  case wellFormed => exact h.formed.wellFormed old h.same.addr h.same.size
  case same => exact h.same

section

variable (h : heap.Formed (pre ++ [b] ++ post))
include h

variable (aligned : Bool)

theorem tryBlock_eq :
    heap.tryBlock size aligned b.addr =
      if b.alloc then some (heap, none)
      else if carves aligned b.addr then
        if b.addr + 16 + b.size ≤ pageAddr b.addr then some (heap, none)
        else if sub32 (b.addr + 16 + b.size) (pageAddr b.addr) < size then some (heap, none)
        else if 40 < sub32 (pageAddr b.addr) b.addr then
          (heap.carvePage b.addr (pageAddr b.addr)).bind fun carved =>
            carved.1.takeBlock carved.2 size
        else some (heap, none)
      else heap.takeBlock b.addr size := by
  obtain ⟨_, _, stored⟩ := h.block
  have ptr := @payload_start b.addr (by omega)
  have footer : add32 (b.addr + 16) b.size = b.addr + 16 + b.size := by
    unfold add32; omega
  have gap : headerSize * 2 + footerSize = 40 := rfl
  unfold tryBlock
  simp only [mhMagic, mhAlloc, mhSize, stored.magic, stored.alloc, stored.size, ptr, footer,
    ge_iff_le, gt_iff_lt, gap, ne_eq, not_true_eq_false, decide_false, Bool.false_or]
  rfl

/-- In the last page the boundary is taken to be at 0. -/
theorem pageAddr_cases :
    boundary b.addr < 0x100000000 ∧ pageAddr b.addr = boundary b.addr ∨
      boundary b.addr = 0x100000000 ∧ pageAddr b.addr = 0 := by
  obtain ⟨_, _, -⟩ := h.block
  have ptr := @payload_start b.addr (by omega)
  unfold pageAddr
  rw [ptr]
  unfold boundary add32 PAGE_SIZE
  omega

theorem fits_iff :
    heap.fits size aligned b.addr = true ↔ b.alloc = false ∧
      if carves aligned b.addr then
        size ≤ b.addr + 16 + b.size - boundary b.addr ∧ boundary b.addr < b.addr + 16 + b.size ∧
          b.addr + 40 < boundary b.addr
      else size ≤ b.size := by
  have stored := h.stored b (by simp)
  unfold fits payload
  simp only [mhAlloc, mhSize, stored.alloc, stored.size]
  cases carves aligned b.addr <;> cases b.alloc <;> simp

theorem overruns_iff :
    heap.overruns size aligned b.addr = true ↔ b.alloc = false ∧ carves aligned b.addr = true ∧
      boundary b.addr = 0x100000000 ∧ b.addr + 40 < 0x100000000 ∧
      size ≤ b.addr + 16 + b.size := by
  have stored := h.stored b (by simp)
  unfold overruns
  simp only [mhAlloc, mhSize, stored.alloc, stored.size]
  cases carves aligned b.addr <;> cases b.alloc <;> simp [and_assoc]

variable (hsize : size + 24 < 4294967296)
include hsize

theorem takeBlock_small (small : b.size < size) :
    heap.takeBlock b.addr size = some (heap, none) := by
  have stored := h.stored b (by simp)
  have need := framed_size hsize
  unfold takeBlock
  simp only [mhSize, stored.size, need]
  rw [if_neg (by omega), if_neg (by omega)]

theorem tryBlock_of_not_fits
    (unfit : ¬heap.fits size aligned b.addr = true)
    (within : ¬heap.overruns size aligned b.addr = true) :
    heap.tryBlock size aligned b.addr = some (heap, none) := by
  rw [fits_iff h] at unfit
  rw [overruns_iff h] at within
  rw [tryBlock_eq h aligned]
  cases free : b.alloc with
  | true => rfl
  | false =>
    simp only [free, true_and] at unfit within
    by_cases carved : carves aligned b.addr = true
    · simp only [carved, if_true, Bool.false_eq_true, if_false, true_and] at unfit within ⊢
      have page := pageAddr_cases h
      have behind : b.addr + 16 < boundary b.addr := by
        unfold boundary PAGE_SIZE
        omega
      split
      · rfl
      · split
        · rfl
        · unfold sub32 at *
          rw [if_neg (by omega)]
    · simp only [carved, if_false, Bool.false_eq_true] at unfit ⊢
      exact takeBlock_small h hsize (by omega)

theorem tryBlock_of_fits
    (fit : heap.fits size aligned b.addr = true)
    (room : heap.index.elems.length + heap.added size aligned b.addr ≤ heap.index.max) :
    ∃ heap' ptr bs', heap.tryBlock size aligned b.addr = some (heap', some ptr) ∧
      Serves size ptr aligned heap heap' (pre ++ [b] ++ post) bs' := by
  obtain ⟨free, enough⟩ := (fits_iff h aligned).1 fit
  have stored := h.stored b (by simp)
  have hb : heap.mhSize b.addr = b.size := stored.size
  simp only [added, payload, hb] at room
  by_cases carved : carves aligned b.addr = true
  · simp only [carved, if_true] at enough room
    obtain ⟨size_le, back, front⟩ := enough
    obtain ⟨_, _, -⟩ := h.block
    have page : pageAddr b.addr = boundary b.addr := by
      have := pageAddr_cases h
      omega
    rw [tryBlock_eq h aligned, free]
    simp only [carved, if_true, Bool.false_eq_true, if_false, page, sub32]
    rw [if_neg (by omega), if_neg (by omega), if_pos (by omega)]
    obtain ⟨carvedHeap, eq, ⟨formed, agree⟩, same, _⟩ := carvePage_spec h front back (by omega)
    have formed : carvedHeap.Formed ((pre ++ [⟨b.addr, boundary b.addr - b.addr - 40, b.alloc⟩])
        ++ [⟨boundary b.addr - 16, b.addr + 16 + b.size - boundary b.addr, true⟩] ++ post) := by
      simpa using formed
    obtain ⟨heap', n, right, taken, hn, one, hright, ⟨formed', agree'⟩, same'⟩ :=
      takeBlock_spec formed hsize size_le (fun larger => by
        have max := same.max
        rw [if_pos larger] at room
        omega)
    have ptr : boundary b.addr - 16 + 16 = boundary b.addr := by omega
    refine ⟨heap', boundary b.addr, pre ++ ([⟨b.addr, boundary b.addr - b.addr - 40, b.alloc⟩] ++
      ⟨boundary b.addr - 16, n, true⟩ :: right) ++ post,
      by rw [eq, bind_some, taken, ptr], ?_⟩
    constructor
    case stretch =>
      refine ⟨pre, b, post, [⟨b.addr, boundary b.addr - b.addr - 40, b.alloc⟩], n, right, rfl,
        free, rfl, by omega, hn, le_rfl, one, ?_, ?_⟩
      · intro c hc
        rcases mem_append.1 hc with hc | hc
        · rw [mem_singleton.1 hc]
          exact free
        · exact hright c hc
      · refine agree.trans (agree'.mono ?_ ?_) <;> simp only [stop] <;> omega
    case page =>
      intro _
      unfold boundary PAGE_SIZE
      omega
    case formed => simpa using formed'
    case same => exact same.trans same'
  · have page : aligned = true → (b.addr + 16) % PAGE_SIZE = 0 := by
      rintro rfl
      simpa [carves] using carved
    have plain : heap.tryBlock size aligned b.addr = heap.takeBlock b.addr size := by
      rw [tryBlock_eq h aligned, free]
      simp only [carved, if_false, Bool.false_eq_true]
    rw [plain]
    simp only [carved, if_false, Bool.false_eq_true] at enough room
    obtain ⟨heap', n, right, taken, hn, one, hright, ⟨formed', agree⟩, same⟩ :=
      takeBlock_spec h hsize enough (fun larger => by rw [if_pos larger] at room; omega)
    exact ⟨heap', b.addr + 16, _, taken, ⟨pre, b, post, [], n, right, rfl, free, rfl, by omega, hn,
      Nat.zero_le _, one, hright, agree⟩, page, formed', same⟩

end

theorem indexInsert_length (mem : Mem) (header : Nat)
    (room : heap.index.elems.length < heap.index.max) :
    ∃ heap', indexInsert { heap with mem := mem } header = some heap' ∧ heap'.mem = mem ∧
      heap'.index.max = heap.index.max ∧
      heap'.index.elems.length = heap.index.elems.length + 1 := by
  unfold indexInsert
  generalize heapCmp _ = cmp
  obtain ⟨_, inserted, max, perm⟩ := SortedArray.insert_of_room cmp header room
  rw [inserted]
  exact ⟨_, rfl, rfl, max, perm.length_eq⟩

/-- Whatever memory holds, a split enters one more header. -/
theorem splitBlock_length (header size : Nat) (room : heap.index.elems.length < heap.index.max) :
    ∃ heap', heap.splitBlock header size = some heap' ∧
      heap'.index.elems.length = heap.index.elems.length + 1 := by
  unfold splitBlock
  simp only [setSize, setAlloc, setCigam, setHeader, setMagic]
  generalize Mem.set _ _ 0 = mem
  obtain ⟨heap', inserted, -, -, length⟩ := indexInsert_length mem
    (add32 (add32 (add32 header headerSize) size) footerSize) room
  rw [inserted]
  exact ⟨_, rfl, length⟩

/-- At a wrapped boundary the carved block is entered above the end of memory, with the payload
at address 0. -/
theorem carvePage_wrapped (h : heap.Formed (pre ++ [b] ++ post))
    (gap : b.addr + 40 < 0x100000000) (room : heap.index.elems.length < heap.index.max) :
    ∃ heap', heap.carvePage b.addr 0 = some (heap', 0xfffffff0) ∧
      heap'.mhSize 0xfffffff0 = b.addr + 16 + b.size ∧ heap'.index.max = heap.index.max ∧
      heap'.index.elems.length = heap.index.elems.length + 1 := by
  obtain ⟨_, _, stored⟩ := h.block
  have footer := @footer_start b.addr b.size (by omega)
  have pageHeader : sub32 0 headerSize = 0xfffffff0 := by decide
  have prevFooter : sub32 0xfffffff0 footerSize = 0xffffffe8 := by decide
  have pageSize : add32 (add32 (sub32 b.size 0) b.addr) headerSize = b.addr + 16 + b.size := by
    unfold add32 sub32 headerSize; omega
  have stays : heap.mem.word (b.addr + 16 + b.size) = MEM_CIGAM := stored.cigam
  unfold carvePage
  simp (disch := omega) only [mhSize, mfCigam, stored.size, footer, pageHeader, prevFooter,
    stays, setSize, setAlloc, setCigam, setHeader, setMagic, word_setWord_of_off, pageSize,
    ne_eq, not_true_eq_false, if_false]
  generalize written : setWord _ (b.addr + 4) _ = mem
  obtain ⟨heap', inserted, same, max, length⟩ := indexInsert_length mem 0xfffffff0 room
  rw [inserted]
  refine ⟨heap', rfl, ?_, max, length⟩
  rw [same, ← written]
  simp (disch := omega) only [word_setWord_of_off, word_set_of_off, word_setWord]

/-- A block the search overruns at gives the null pointer and leaves a header in the index that
is none of a block. -/
theorem tryBlock_of_overruns (h : heap.Formed (pre ++ [b] ++ post)) (aligned : Bool)
    (hsize : size + 24 < 4294967296) (passes : heap.overruns size aligned b.addr = true)
    (room : heap.index.elems.length + 2 ≤ heap.index.max) :
    ∃ heap', heap.tryBlock size aligned b.addr = some (heap', some 0) ∧
      heap.index.elems.length < heap'.index.elems.length := by
  obtain ⟨free, carved, wraps, gap, enough⟩ := (overruns_iff h aligned).1 passes
  obtain ⟨_, _, -⟩ := h.block
  have page : pageAddr b.addr = 0 := by
    have := pageAddr_cases h
    omega
  rw [tryBlock_eq h aligned, free]
  simp only [carved, if_true, Bool.false_eq_true, if_false, page, sub32]
  unfold boundary PAGE_SIZE at wraps
  rw [if_neg (by omega), if_neg (by omega), if_pos (by omega)]
  obtain ⟨carvedHeap, eq, size_eq, _, _⟩ := carvePage_wrapped h gap (by omega)
  have ptr : add32 0xfffffff0 headerSize = 0 := by decide
  have need := framed_size hsize
  rw [eq, bind_some]
  simp only [takeBlock, size_eq, ptr, need]
  by_cases larger : b.addr + 16 + b.size > size + 24
  · obtain ⟨heap', split, _⟩ := @splitBlock_length carvedHeap 0xfffffff0 size
      (by omega)
    rw [if_pos larger, split]
    exact ⟨heap', rfl, by omega⟩
  · rw [if_neg larger, if_pos enough]
    refine ⟨_, rfl, ?_⟩
    simp only [setAlloc]
    omega

/-- The entry at which the search ends. -/
def reached (heap : MemHeap) (size : Nat) (aligned : Bool) (headers : List Nat) : Option Nat :=
  headers.find? fun p => heap.fits size aligned p || heap.overruns size aligned p

theorem allocLoop_eq (aligned : Bool) (hsize : size + 24 < 4294967296)
    (h : heap.Formed bs) (headers : List Nat) (listed : ∀ p ∈ headers, p ∈ bs.map Block.addr) :
    match heap.reached size aligned headers with
    | none => allocLoop size aligned headers heap = some (heap, none)
    | some p =>
      if heap.overruns size aligned p then
        heap.index.elems.length + 2 ≤ heap.index.max →
          ∃ heap', allocLoop size aligned headers heap = some (heap', some 0) ∧
            heap.index.elems.length < heap'.index.elems.length
      else
        heap.index.elems.length + heap.added size aligned p ≤ heap.index.max →
          ∃ heap' ptr bs', allocLoop size aligned headers heap = some (heap', some ptr) ∧
            Serves size ptr aligned heap heap' bs bs' := by
  induction headers with
  | nil => rfl
  | cons header rest ih =>
    obtain ⟨b, hb, rfl⟩ := mem_map.1 (listed header mem_cons_self)
    obtain ⟨pre, post, rfl⟩ := append_of_mem hb
    have h' : heap.Formed (pre ++ [b] ++ post) := by simpa using h
    have ih := ih fun p hp => listed p (.tail _ hp)
    by_cases passes : heap.overruns size aligned b.addr = true
    · have first : heap.reached size aligned (b.addr :: rest) = some b.addr :=
        find?_cons_of_pos (by simp [passes])
      simp only [first, passes, if_true]
      intro room
      obtain ⟨heap', eq, length⟩ := tryBlock_of_overruns h' aligned hsize passes room
      exact ⟨heap', by simp only [allocLoop, eq], length⟩
    · by_cases fit : heap.fits size aligned b.addr = true
      · have first : heap.reached size aligned (b.addr :: rest) = some b.addr :=
          find?_cons_of_pos (by simp [fit])
        simp only [first, passes, if_false, Bool.false_eq_true]
        intro room
        obtain ⟨heap', ptr, bs', eq, serves⟩ := tryBlock_of_fits h' aligned hsize fit room
        exact ⟨heap', ptr, bs', by simp only [allocLoop, eq], by simpa using serves⟩
      · have later : heap.reached size aligned (b.addr :: rest) = heap.reached size aligned rest :=
          find?_cons_of_neg (by simp [fit, passes])
        have skip : allocLoop size aligned (b.addr :: rest) heap =
            allocLoop size aligned rest heap := by
          rw [allocLoop, tryBlock_of_not_fits h' aligned hsize fit passes]
        simp only [later, skip]
        exact ih

/-- How many blocks a request adds: those that its first fitting block is cut into. -/
def blocksAdded (heap : MemHeap) (size : Nat) (aligned : Bool) : Nat :=
  match heap.index.elems.find? (heap.fits size aligned) with
  | none => 0
  | some header => heap.added size aligned header

/-- A heap below the last page is never overrun. -/
theorem Formed.not_overruns (h : heap.Formed bs) (top : heap.addr + heap.size ≤ 0xfffff000)
    (aligned : Bool) {p : Nat} (hp : p ∈ heap.index.elems) :
    heap.overruns size aligned p = false := by
  obtain ⟨b, hb, rfl⟩ := mem_map.1 (h.index.mem_iff.1 hp)
  obtain ⟨-, _⟩ := h.bounds hb
  have below : boundary b.addr ≠ 0x100000000 := by
    unfold boundary PAGE_SIZE
    omega
  simp [overruns, below]

end MemHeap

/-- On a well-formed heap whose index has room for the blocks it adds, `heap_alloc`
returns `NULL` and does nothing when no block fits, and otherwise allocates from a
free block. -/
theorem heapAlloc_spec {heap : MemHeap} {bs : List Block} {size : Nat} (aligned : Bool)
    (h : heap.WellFormed bs) (hsize : size + 24 < 4294967296)
    (room : heap.index.elems.length + heap.blocksAdded size aligned ≤ heap.index.max) :
    heapAlloc heap size aligned = some (heap, none) ∨
    ∃ heap' ptr bs', heapAlloc heap size aligned = some (heap', some ptr) ∧
      MemHeap.Serves size ptr aligned heap heap' bs bs' := by
  have loop := MemHeap.allocLoop_eq aligned hsize h.formed heap.index.elems
    fun p hp => h.index.mem_iff.1 hp
  have reached : heap.reached size aligned heap.index.elems =
      heap.index.elems.find? (heap.fits size aligned) :=
    find?_congr fun p hp => by rw [h.formed.not_overruns h.high aligned hp, Bool.or_false]
  rw [reached] at loop
  unfold MemHeap.blocksAdded at room
  cases found : heap.index.elems.find? (heap.fits size aligned) with
  | none =>
    rw [found] at loop
    exact .inl loop
  | some p =>
    simp only [found, h.formed.not_overruns h.high aligned (mem_of_find?_eq_some found),
      Bool.false_eq_true, if_false] at loop room
    exact .inr (loop room)

/-- What `heap_alloc` is for: it returns a pointer that is not null and serves the request with
it, or the null pointer and leaves the heap as it was. -/
def AllocMeets (heap : MemHeap) (bs : List Block) (size : Nat) (aligned : Bool) : Prop :=
  ∃ heap' ptr, heapAlloc heap size aligned = some (heap', ptr) ∧
    if ptr.getD 0 = 0 then heap' = heap
    else ∃ bs', MemHeap.Serves size (ptr.getD 0) aligned heap heap' bs bs'

/-- On every well-formed heap, `heap_alloc` meets its specification exactly if its search does not
end at a free block in the last page of the address space. -/
theorem allocMeets_iff {heap : MemHeap} {bs : List Block} {size : Nat} (aligned : Bool)
    (h : heap.Formed bs) (room : heap.index.elems.length + 2 ≤ heap.index.max)
    (hsize : size + 24 < 2 ^ 32) :
    AllocMeets heap bs size aligned ↔
      ∀ p, heap.reached size aligned heap.index.elems = some p →
        heap.overruns size aligned p = false := by
  have loop := MemHeap.allocLoop_eq aligned hsize h heap.index.elems
    fun p hp => h.index.mem_iff.1 hp
  cases found : heap.reached size aligned heap.index.elems with
  | none =>
    rw [found] at loop
    refine ⟨fun _ _ => nofun, fun _ => ⟨heap, none, loop, ?_⟩⟩
    simp
  | some p =>
    rw [found] at loop
    cases passes : heap.overruns size aligned p with
    | true =>
      simp only [passes, if_true] at loop
      obtain ⟨heap', eq, longer⟩ := loop room
      constructor
      · rintro ⟨_, ptr, eq', meets⟩
        obtain ⟨rfl, rfl⟩ := Prod.mk.inj (Option.some.inj (eq.symm.trans eq'))
        rw [meets] at longer
        exact absurd longer (Nat.lt_irrefl _)
      · intro clear
        rw [clear p rfl] at passes
        cases passes
    | false =>
      simp only [passes, if_false, Bool.false_eq_true] at loop
      have two : heap.added size aligned p ≤ 2 := by
        unfold MemHeap.added
        split <;> split <;> omega
      obtain ⟨heap', ptr, bs', eq, serves⟩ := loop (by omega)
      refine ⟨fun _ q hq => Option.some.inj hq ▸ passes, fun _ => ⟨heap', some ptr, eq, ?_⟩⟩
      obtain ⟨-, -, -, -, -, -, -, -, -, _, -⟩ := serves.stretch
      have nonzero : ptr ≠ 0 := by omega
      rw [Option.getD_some, if_neg nonzero]
      exact ⟨bs', serves⟩

/-- On every well-formed heap that ends below the last page, `heap_alloc` meets its specification.
On the others it does exactly if its search does not end at a free block in the last page. -/
theorem heapAlloc_meets_iff {heap : MemHeap} {bs : List Block} {size : Nat} (aligned : Bool)
    (h : heap.Formed bs) (room : heap.index.elems.length + 2 ≤ heap.index.max)
    (hsize : size + 24 < 2 ^ 32) :
    (heap.addr + heap.size ≤ 0xfffff000 → AllocMeets heap bs size aligned) ∧
    (AllocMeets heap bs size aligned ↔
      ∀ p, heap.reached size aligned heap.index.elems = some p →
        heap.overruns size aligned p = false) := by
  have exactly := allocMeets_iff aligned h room hsize
  refine ⟨fun high => exactly.2 ?_, exactly⟩
  intro p found
  exact h.not_overruns high aligned (mem_of_find?_eq_some found)

/-- A heap of one free block with a header at `addr`, in memory that is otherwise zero. -/
def oneBlockHeap (addr size : Nat) : MemHeap where
  mem := (((Mem.setWord (fun _ => 0) addr MEM_MAGIC).setWord (addr + 4) size).setWord
    (addr + 16 + size) MEM_CIGAM).setWord (addr + 16 + size + 4) addr
  index := ⟨[addr], 8⟩
  addr := addr
  size := size + 24

theorem oneBlockHeap_formed {addr size : Nat} (top : addr + (size + 24) ≤ 0x100000000) :
    (oneBlockHeap addr size).Formed [⟨addr, size, false⟩] := by
  have magic := MemHeap.magic_lt
  have cigam := MemHeap.cigam_lt
  constructor
  case toLaid => exact ⟨top, ⟨rfl, rfl⟩, List.Perm.refl _⟩
  case stored =>
    simp only [forall_mem_cons, not_mem_nil, false_imp_iff, implies_true, and_true]
    refine ⟨⟨?_, ?_, ?_⟩, ?_, ?_⟩ <;>
      simp (disch := omega) only [oneBlockHeap, footer, word_setWord_of_off,
        word_setWord, setWord_of_off]
    rfl

/-- A page-aligned request to a heap well below the last page. -/
theorem heapAlloc_meets_iff_at : AllocMeets (oneBlockHeap 0xd0000000 0x3000)
    [⟨0xd0000000, 0x3000, false⟩] 100 true :=
  (heapAlloc_meets_iff true (oneBlockHeap_formed (by decide)) (by decide) (by decide)).1
    (by decide)

/-- A page-aligned request to a heap of 512 bytes in the last page. -/
theorem heapAlloc_overruns_last_page :
    (oneBlockHeap 0xfffff100 0x1e8).Formed [⟨0xfffff100, 0x1e8, false⟩] ∧
      ¬AllocMeets (oneBlockHeap 0xfffff100 0x1e8) [⟨0xfffff100, 0x1e8, false⟩] 16 true := by
  have formed : (oneBlockHeap 0xfffff100 0x1e8).Formed [⟨0xfffff100, 0x1e8, false⟩] :=
    oneBlockHeap_formed (by decide)
  refine ⟨formed, ?_⟩
  rintro ⟨_, _, eq, meets⟩
  have null : (heapAlloc (oneBlockHeap 0xfffff100 0x1e8) 16 true).map
      (fun r => (r.2, r.1.index.elems.length)) = some (some 0, 3) := by
    decide +kernel
  rw [eq] at null
  obtain ⟨rfl, length⟩ := Prod.mk.inj (Option.some.inj null)
  rw [meets] at length
  cases length

end Os0
