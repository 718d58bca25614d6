import Os0.Heap.Model
import Os0.Lib.Tiling

/-! The heap as a list of blocks: what memory holds for a block, and when the
blocks, the footers and the index agree. -/
namespace Os0

open Bytes Tiling List

structure Block where
  addr : Nat
  size : Nat
  alloc : Bool
  deriving DecidableEq, Repr

namespace Block

def stop (b : Block) : Nat := b.addr + b.size + 24

/-- Where the footer stands. -/
def footer (b : Block) : Nat := b.addr + 16 + b.size

structure HeaderStored (mem : Mem) (b : Block) : Prop where
  magic : mem.word b.addr = MEM_MAGIC
  size : mem.word (b.addr + 4) = b.size
  alloc : (mem (b.addr + 8) != 0) = b.alloc

/-- Memory holds the block: its header, and a footer that points back to it. -/
structure Stored (mem : Mem) (b : Block) : Prop extends HeaderStored mem b where
  cigam : mem.word b.footer = MEM_CIGAM
  header : mem.word (b.footer + 4) = b.addr

variable {mem mem' : Mem} {b : Block}

theorem positive (b : Block) : b.addr < b.stop := by
  unfold stop
  omega

theorem HeaderStored.frame (h : HeaderStored mem b)
    (agree : Mem.AgreeOn b.addr (b.addr + 16) mem mem') : HeaderStored mem' b where
  magic := (Mem.word_congr (agree.mono (by omega) (by omega))).trans h.magic
  size := (Mem.word_congr (agree.mono (by omega) (by omega))).trans h.size
  alloc := by rw [agree (b.addr + 8) (by omega) (by omega)]; exact h.alloc

theorem Stored.frame (h : Stored mem b)
    (agree : Mem.AgreeOn b.addr b.stop mem mem') : Stored mem' b where
  toHeaderStored := h.toHeaderStored.frame (agree.mono (by omega) (by unfold stop; omega))
  cigam := (Mem.word_congr
    (agree.mono (by unfold footer; omega) (by unfold footer stop; omega))).trans h.cigam
  header := (Mem.word_congr
    (agree.mono (by unfold footer; omega) (by unfold footer stop; omega))).trans h.header

end Block

theorem mem_around {α : Type} {pre mid post : List α} {c : α} (hc : c ∈ pre ++ post) :
    c ∈ pre ++ mid ++ post := by
  simp only [mem_append] at hc ⊢
  exact hc.elim (fun hc => .inl (.inl hc)) .inr

abbrev BlocksTile (lo : Nat) (bs : List Block) (hi : Nat) : Prop :=
  Tiles Block.addr Block.stop lo bs hi

open Block

namespace MemHeap

/-- The blocks tile a range of 32-bit addresses and the index lists their headers. -/
structure Laid (heap : MemHeap) (bs : List Block) : Prop where
  top : heap.addr + heap.size ≤ 0x100000000
  tiles : BlocksTile heap.addr bs (heap.addr + heap.size)
  index : heap.index.elems.Perm (bs.map Block.addr)

structure Formed (heap : MemHeap) (bs : List Block) : Prop extends Laid heap bs where
  stored : ∀ b ∈ bs, b.Stored heap.mem

/-- The blocks tile the heap range and the index lists their headers. The range
keeps clear of the last page, so that no page boundary behind a header wraps. -/
structure Shape (heap : MemHeap) (bs : List Block) : Prop where
  low : 8 ≤ heap.addr
  high : heap.addr + heap.size ≤ 0xfffff000
  tiles : BlocksTile heap.addr bs (heap.addr + heap.size)
  index : heap.index.elems.Perm (bs.map Block.addr)

structure WellFormed (heap : MemHeap) (bs : List Block) : Prop extends Shape heap bs where
  stored : ∀ b ∈ bs, b.Stored heap.mem

/-- What no operation changes: the heap's range and the capacity of its index. -/
structure SameRange (heap heap' : MemHeap) : Prop where
  addr : heap'.addr = heap.addr
  size : heap'.size = heap.size
  max : heap'.index.max = heap.index.max

variable {heap heap' : MemHeap} {pre post : List Block} {b : Block}

theorem SameRange.trans {heap'' : MemHeap} (h : heap.SameRange heap')
    (k : heap'.SameRange heap'') : heap.SameRange heap'' :=
  ⟨k.addr.trans h.addr, k.size.trans h.size, k.max.trans h.max⟩

section

variable {heap heap' : MemHeap} {bs bs' pre old new post : List Block} {b : Block}

theorem Shape.laid (h : heap.Shape bs) : heap.Laid bs :=
  ⟨Nat.le_trans h.high (by decide), h.tiles, h.index⟩

theorem WellFormed.formed (h : heap.WellFormed bs) : heap.Formed bs := ⟨h.toShape.laid, h.stored⟩

theorem Formed.wellFormed (h : heap'.Formed bs') (old : heap.Shape bs)
    (addr : heap'.addr = heap.addr) (size : heap'.size = heap.size) : heap'.WellFormed bs' :=
  ⟨⟨addr ▸ old.low, addr ▸ size ▸ old.high, h.tiles, h.index⟩, h.stored⟩

theorem Laid.bounds (h : heap.Laid bs) (hb : b ∈ bs) :
    heap.addr ≤ b.addr ∧ b.addr + b.size + 24 ≤ heap.addr + heap.size :=
  h.tiles.bounds positive hb

theorem Shape.bounds (h : heap.Shape bs) (hb : b ∈ bs) :
    heap.addr ≤ b.addr ∧ b.addr + b.size + 24 ≤ heap.addr + heap.size :=
  h.laid.bounds hb

theorem payload_start {a : Nat} (h : a + 16 < 4294967296) : add32 a headerSize = a + 16 :=
  add32_eq h

theorem footer_start {a size : Nat} (h : a + 16 + size < 4294967296) :
    add32 (add32 a headerSize) size = a + 16 + size := by
  rw [payload_start (by omega), add32_eq h]

theorem framed_size {size : Nat} (h : size + 24 < 4294967296) :
    add32 (add32 size headerSize) footerSize = size + 24 := by
  rw [payload_start (by omega)]
  exact add32_eq h

theorem Formed.block (h : heap.Formed (pre ++ [b] ++ post)) :
    heap.addr ≤ b.addr ∧ b.addr + b.size + 24 ≤ 0x100000000 ∧ b.Stored heap.mem := by
  have mem : b ∈ pre ++ [b] ++ post := by simp
  obtain ⟨low, high⟩ := h.bounds mem
  exact ⟨low, Nat.le_trans high h.top, h.stored b mem⟩

/-- A stretch of the heap is rewritten: the heap's bounds stay, and the index gets the new headers
for the old. -/
structure Splices (heap heap' : MemHeap) (pre old new post : List Block) (lo hi : Nat) :
    Prop where
  addr : heap'.addr = heap.addr
  size : heap'.size = heap.size
  was : BlocksTile lo old hi
  nonempty : old ≠ []
  now : BlocksTile lo new hi
  index : heap'.index.elems.Perm ((pre ++ new ++ post).map Block.addr)

variable {lo hi : Nat}

theorem Laid.splice (h : heap.Laid (pre ++ old ++ post))
    (k : Splices heap heap' pre old new post lo hi) : heap'.Laid (pre ++ new ++ post) where
  top := k.addr ▸ k.size ▸ h.top
  tiles := by
    rw [k.addr, k.size]
    exact h.tiles.splice k.was k.nonempty k.now
  index := k.index

theorem Shape.splice (h : heap.Shape (pre ++ old ++ post))
    (k : Splices heap heap' pre old new post lo hi) : heap'.Shape (pre ++ new ++ post) where
  low := k.addr ▸ h.low
  high := k.addr ▸ k.size ▸ h.high
  tiles := (h.laid.splice k).tiles
  index := k.index

theorem Formed.splice (h : heap.Laid (pre ++ old ++ post))
    (others : ∀ b ∈ pre ++ post, b.Stored heap.mem)
    (k : Splices heap heap' pre old new post lo hi) (agree : Mem.AgreeOff lo hi heap.mem heap'.mem)
    (stored : ∀ b ∈ new, b.Stored heap'.mem) : heap'.Formed (pre ++ new ++ post) where
  toLaid := h.splice k
  stored := by
    intro b hb
    by_cases hn : b ∈ new
    · exact stored b hn
    · have other : b ∈ pre ++ post := by
        simp only [mem_append] at hb ⊢
        exact hb.elim (fun hb => hb.elim .inl fun hb => absurd hb hn) .inr
      exact (others b other).frame (agree.agreeOn (h.tiles.apart positive k.was k.nonempty other))

end

/-- Rewrite one block as several, the first of them with the old header. -/
theorem Formed.divide {rest : List Block}
    {first : Block} (h : heap.Formed (pre ++ [b] ++ post)) (addr : heap'.addr = heap.addr)
    (size : heap'.size = heap.size) (now : BlocksTile b.addr (first :: rest) b.stop)
    (index : heap'.index.elems.Perm (rest.map Block.addr ++ heap.index.elems))
    (agree : Mem.AgreeOff b.addr b.stop heap.mem heap'.mem)
    (stored : ∀ c ∈ first :: rest, c.Stored heap'.mem) :
    heap'.Formed (pre ++ first :: rest ++ post) ∧
      Mem.AgreeOff b.addr b.stop heap.mem heap'.mem := by
  refine ⟨?_, agree⟩
  refine Formed.splice h.toLaid (fun c hc => h.stored c (mem_around hc))
    ⟨addr, size, ⟨rfl, rfl⟩, cons_ne_nil b [], now, ?_⟩ agree stored
  rw [perm_iff_count]
  intro a
  have new := index.count_eq a
  have old := h.index.count_eq a
  have head : first.addr = b.addr := now.1
  simp only [map_append, map_cons, map_nil, count_append, count_cons,
    count_nil, head] at new old ⊢
  omega

/-- Write one byte of a block: its flag, or a byte that says nothing about it. -/
theorem Formed.set {x : Nat}
    (h : heap.Formed (pre ++ [b] ++ post)) (byte : UInt8) (low : b.addr + 8 ≤ x)
    (high : x < b.footer) :
    MemHeap.Formed { heap with mem := heap.mem.set x byte }
        (pre ++ [⟨b.addr, b.size, if x = b.addr + 8 then byte != 0 else b.alloc⟩] ++ post) ∧
      Mem.AgreeOff b.addr b.stop heap.mem (heap.mem.set x byte) := by
  obtain ⟨-, -, stored⟩ := h.block
  unfold footer at high
  refine h.divide rfl rfl ⟨rfl, rfl⟩ (List.Perm.refl _) ?_ ?_
  · intro a ha
    simp only [stop] at ha
    exact Mem.set_of_ne _ (by omega)
  · simp only [forall_mem_cons, not_mem_nil, false_imp_iff, implies_true, and_true]
    refine ⟨⟨?_, ?_, ?_⟩, ?_, ?_⟩
    case refine_3 =>
      by_cases flag : x = b.addr + 8
      · rw [flag, Mem.set_same, if_pos rfl]
      · rw [Mem.set_of_ne _ (Ne.symm flag), if_neg flag]
        exact stored.alloc
    all_goals simp (disch := omega) only [footer, Mem.word_set_of_off]
    · exact stored.magic
    · exact stored.size
    · exact stored.cigam
    · exact stored.header

end MemHeap

end Os0
