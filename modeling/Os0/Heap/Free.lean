import Os0.Heap.Blocks
import Mathlib.Data.List.Chain

/-! `heap_free` on a well-formed heap: the two unifications, and the calls after
which every footer still points back to its own header. -/
namespace Os0

open Bytes Tiling List Option Block

namespace MemHeap

variable {heap : MemHeap} {pre post : List Block} {b l r : Block}

section

variable (h : heap.Shape (pre ++ b :: post))
include h

theorem Shape.next : BlocksTile b.stop post (heap.addr + heap.size) := by
  have tiles : BlocksTile heap.addr (pre ++ [b] ++ post) (heap.addr + heap.size) := by
    simpa using h.tiles
  exact (tiles.around ⟨rfl, rfl⟩ (cons_ne_nil b [])).2

theorem nextHeader_eq : add32 (add32 (add32 b.addr headerSize) footerSize) b.size = b.stop := by
  obtain ⟨_, _⟩ := h.bounds (mem_append_right pre mem_cons_self)
  have top := h.high
  unfold add32 headerSize footerSize stop
  omega

theorem unifyRight_skip (stored : b.HeaderStored heap.mem)
    (taken : ∀ r ∈ post.head?, r.HeaderStored heap.mem ∧ r.alloc = true) :
    heap.unifyRight b.addr = heap := by
  have next := h.next
  have size : heap.mhSize b.addr = b.size := stored.size
  unfold unifyRight
  simp only [size, nextHeader_eq h]
  cases post with
  | nil =>
    have : ¬b.stop < add32 heap.addr heap.size := by
      have : b.stop = heap.addr + heap.size := next
      unfold add32
      omega
    simp [this]
  | cons r post =>
    obtain ⟨header, alloc⟩ := taken r rfl
    have : heap.mhAlloc b.stop = true := by
      have start : r.addr = b.stop := next.1
      have flag := header.alloc
      rwa [start, alloc] at flag
    simp [this]

end

variable {i : Nat} {bs : List Block}

theorem Shape.adjacent (h : heap.Shape (pre ++ [b, r] ++ post)) : r.addr = b.stop := by
  have h : heap.Shape (pre ++ b :: r :: post) := by simpa using h
  exact h.next.1

/-- Taking the header of the second of two merged blocks out of the index. -/
theorem index_merge {removed : List Nat} {merged : Block}
    (h : heap.Shape (pre ++ [b, r] ++ post)) (perm : heap.index.elems.Perm (r.addr :: removed))
    (head : merged.addr = b.addr) : removed.Perm ((pre ++ [merged] ++ post).map Block.addr) := by
  rw [perm_iff_count]
  intro a
  have old := h.index.count_eq a
  have new := perm.count_eq a
  simp only [map_append, map_cons, map_nil, count_append, count_cons,
    count_nil, head] at old new ⊢
  omega

theorem exists_idxOf (h : heap.Shape (pre ++ post)) (hb : b ∈ pre ++ post) :
    ∃ i, heap.index.elems.idxOf? b.addr = some i := by
  have listed : b.addr ∈ heap.index.elems := h.index.mem_iff.2 (mem_map_of_mem hb)
  exact isSome_iff_exists.1 (isSome_idxOf?.2 listed)

/-- Right unification needs only the header of the block: it writes the footer
of the merged block itself. -/
theorem unifyRight_merge (h : heap.Shape (pre ++ [b, r] ++ post))
    (stored : b.HeaderStored heap.mem) (others : ∀ c ∈ pre ++ post, c.Stored heap.mem)
    (right : r.Stored heap.mem) (free : r.alloc = false) :
    (heap.unifyRight b.addr).WellFormed (pre ++ [⟨b.addr, b.size + 24 + r.size, b.alloc⟩] ++ post) ∧
      heap.SameRange (heap.unifyRight b.addr) := by
  have mem : r ∈ pre ++ [b, r] ++ post := by simp
  obtain ⟨-, _⟩ := h.bounds mem
  have top := h.high
  have start : r.addr = b.addr + b.size + 24 := h.adjacent
  obtain ⟨i, found⟩ := exists_idxOf h mem
  have perm := SortedArray.remove_perm found
  have bound : r.addr < add32 heap.addr heap.size := by unfold add32; omega
  have footer := @footer_start r.addr r.size (by omega)
  have merged : add32 b.size (add32 (add32 headerSize footerSize) r.size)
      = b.size + 24 + r.size := by
    unfold add32 headerSize footerSize; omega
  have next : add32 (add32 (add32 b.addr headerSize) footerSize) b.size = r.addr := by
    unfold add32 headerSize footerSize; omega
  have cigam : heap.mem.word (r.addr + 16 + r.size) = MEM_CIGAM := right.cigam
  unfold unifyRight
  simp (disch := omega) only [mhSize, mhMagic, mhAlloc, mfCigam, stored.size, next, bound,
    right.magic, right.alloc, free, right.size, found, footer, cigam, setHeader, setSize,
    Mem.word_setWord_of_off, merged, decide_true, Bool.not_false, Bool.and_self, if_true]
  refine ⟨Formed.wellFormed (Formed.splice h.laid others ⟨rfl, rfl, ⟨rfl, start, rfl⟩,
    cons_ne_nil _ _, ⟨rfl, ?_⟩, index_merge h perm rfl⟩ ?_ ?_) h rfl rfl, rfl, rfl,
    SortedArray.remove_max _ _⟩
  · simp only [Tiles, Block.stop]
    omega
  · intro a ha
    simp only [Block.stop] at ha
    simp (disch := omega) only [indexRemove, Mem.setWord_of_off]
  · have footerAt : b.addr + 16 + (b.size + 24 + r.size) = r.addr + 16 + r.size := by omega
    simp only [forall_mem_cons, not_mem_nil, false_imp_iff, implies_true, and_true]
    refine ⟨⟨?_, ?_, ?_⟩, ?_, ?_⟩ <;>
      simp (disch := omega) only [Block.footer, footerAt, indexRemove, Mem.word_setWord_of_off,
        Mem.word_setWord, Mem.setWord_of_off]
    · exact stored.magic
    · exact stored.alloc
    · exact cigam

theorem unifyLeft_skip (h : heap.Shape (pre ++ b :: post))
    (taken : ∀ l ∈ pre.getLast?, l.Stored heap.mem ∧ l.alloc = true) :
    heap.unifyLeft b.addr i = (heap, b.addr) := by
  have low := h.low
  have top := h.high
  obtain ⟨_, _⟩ := h.bounds (mem_append_right pre mem_cons_self)
  have footer : sub32 b.addr footerSize = b.addr - 8 := by
    unfold sub32 footerSize; omega
  unfold unifyLeft
  simp only [footer]
  rcases eq_nil_or_concat pre with rfl | ⟨front, l, rfl⟩
  · have first : b.addr = heap.addr := h.tiles.1
    rw [if_neg (by omega)]
  · obtain ⟨stored, alloc⟩ := taken l (by simp)
    have h : heap.Shape (front ++ [l, b] ++ post) := by simpa using h
    have start : b.addr = l.addr + l.size + 24 := h.adjacent
    have back : b.addr - 8 + 4 = l.footer + 4 := by
      simp only [Block.footer]
      omega
    have prev : heap.mfHeader (b.addr - 8) = l.addr := by
      unfold mfHeader
      rw [back]
      exact stored.header
    have flag : heap.mhAlloc l.addr = true := stored.alloc.trans alloc
    simp [prev, flag]

/-- Left unification merges the headers, and leaves the footer of the merged block
pointing at the header it has just removed. -/
theorem unifyLeft_merge (h : heap.WellFormed (pre ++ [l, b] ++ post))
    (free : l.alloc = false) (found : heap.index.elems.idxOf? b.addr = some i) :
    ∃ heap', heap.unifyLeft b.addr i = (heap', l.addr) ∧
      heap'.Shape (pre ++ [⟨l.addr, l.size + 24 + b.size, false⟩] ++ post) ∧
      (∀ c ∈ pre ++ post, c.Stored heap'.mem) ∧
      Block.HeaderStored heap'.mem ⟨l.addr, l.size + 24 + b.size, false⟩ ∧ heap.SameRange heap' := by
  have left := h.stored l (by simp)
  have stored := h.stored b (by simp)
  obtain ⟨_, -⟩ := h.bounds (show l ∈ pre ++ [l, b] ++ post by simp)
  obtain ⟨-, _⟩ := h.bounds (show b ∈ pre ++ [l, b] ++ post by simp)
  have top := h.high
  have start : b.addr = l.addr + l.size + 24 := h.toShape.adjacent
  have perm := SortedArray.remove_perm found
  have footer : sub32 b.addr footerSize = l.addr + 16 + l.size := by
    unfold sub32 footerSize; omega
  have inside : heap.addr ≤ l.addr + 16 + l.size := by omega
  have cigam : heap.mem.word (l.addr + 16 + l.size) = MEM_CIGAM := left.cigam
  have back : heap.mem.word (l.addr + 16 + l.size + 4) = l.addr := left.header
  have merged : add32 l.size (add32 (add32 b.size headerSize) footerSize)
      = l.size + 24 + b.size := by
    unfold add32 headerSize footerSize; omega
  have agree : Mem.AgreeOff l.addr b.stop heap.mem
      ((heap.mem.setWord (l.addr + 4) (l.size + 24 + b.size)).setWord b.addr 0) := by
    intro a ha
    simp only [Block.stop] at ha
    simp (disch := omega) only [Mem.setWord_of_off]
  unfold unifyLeft
  simp only [mhSize, mhMagic, mhAlloc, mfCigam, mfHeader, footer, inside, cigam, back, left.magic,
    left.alloc, left.size, stored.size, free, merged, setSize, setMagic, decide_true,
    Bool.not_false, Bool.and_self, if_true]
  refine ⟨_, rfl, ?_, ?_, ⟨?_, ?_, ?_⟩, rfl, rfl, SortedArray.remove_max _ _⟩
  · refine h.toShape.splice ⟨rfl, rfl, ⟨rfl, start, rfl⟩, cons_ne_nil _ _, ⟨rfl, ?_⟩,
      index_merge h.toShape perm rfl⟩
    simp only [Tiles, Block.stop]
    omega
  · intro c hc
    exact (h.stored c (mem_around hc)).frame (agree.agreeOn
      (h.tiles.apart Block.positive ⟨rfl, start, rfl⟩ (cons_ne_nil _ _) hc))
  all_goals
    simp (disch := omega) only [indexRemove, Block.footer, Mem.word_setWord_of_off,
      Mem.word_setWord, Mem.setWord_of_off]
  · exact left.magic
  · exact left.alloc.trans free

/-- What is left in front of a freed block: a free neighbour is merged into it. -/
def MergesLeft (pre front : List Block) : Prop :=
  (front = pre ∧ ∀ l ∈ pre.getLast?, l.alloc = true) ∨ ∃ l, pre = front ++ [l] ∧ l.alloc = false

/-- What is left behind a freed block. -/
def MergesRight (post back : List Block) : Prop :=
  (back = post ∧ ∀ r ∈ post.head?, r.alloc = true) ∨ ∃ r, post = r :: back ∧ r.alloc = false

/-- The blocks after the one between `pre` and `post` has been freed. -/
def Freed (pre post bs : List Block) : Prop :=
  ∃ front m back, bs = front ++ [m] ++ back ∧ m.alloc = false ∧ MergesLeft pre front ∧
    MergesRight post back

theorem Freed.filter (freed : Freed pre post bs) :
    bs.filter alloc = (pre ++ post).filter alloc := by
  obtain ⟨_, m, _, rfl, _, left, right⟩ := freed
  rcases left with ⟨rfl, -⟩ | ⟨l, rfl, _⟩ <;> rcases right with ⟨rfl, -⟩ | ⟨r, rfl, _⟩ <;>
    simp [*]

/-- Of two neighbours, one is allocated. -/
abbrev Apart (bs : List Block) : Prop :=
  bs.IsChain fun b c => b.alloc = true ∨ c.alloc = true

theorem Freed.apart (freed : Freed pre post bs)
    (apart : Apart (pre ++ [b] ++ post)) : Apart bs := by
  obtain ⟨front, m, back, rfl, -, left, right⟩ := freed
  obtain ⟨first, hpost, -⟩ := isChain_append.1 apart
  obtain ⟨hpre, -, -⟩ := isChain_append.1 first
  have before : Apart front ∧ ∀ l ∈ front.getLast?, l.alloc = true := by
    rcases left with ⟨rfl, taken⟩ | ⟨l, rfl, hl⟩
    · exact ⟨hpre, taken⟩
    · obtain ⟨hfront, -, joint⟩ := isChain_append.1 hpre
      exact ⟨hfront, fun k hk => (joint k hk l rfl).resolve_right (by simp [hl])⟩
  have behind : Apart back ∧ ∀ r ∈ back.head?, r.alloc = true := by
    rcases right with ⟨rfl, taken⟩ | ⟨r, rfl, hr⟩
    · exact ⟨hpost, taken⟩
    · change ([r] ++ back).IsChain _ at hpost
      obtain ⟨-, hback, joint⟩ := isChain_append.1 hpost
      exact ⟨hback, fun k hk => (joint r rfl k hk).resolve_left (by simp [hr])⟩
  refine (before.1.append (isChain_singleton m) ?_).append behind.1 ?_
  · exact fun l hl _ _ => .inl (before.2 l hl)
  · exact fun _ _ r hr => .inr (behind.2 r hr)

/-- After either unification with the left, the one with the right ends in a
well-formed heap, provided the footer is right or about to be overwritten. -/
theorem unifyRight_spec (h : heap.Shape (pre ++ [b] ++ post)) (free : b.alloc = false)
    (stored : b.HeaderStored heap.mem) (others : ∀ c ∈ pre ++ post, c.Stored heap.mem)
    (footer : (∃ r ∈ post.head?, r.alloc = false) ∨ b.Stored heap.mem) :
    ∃ m back, (heap.unifyRight b.addr).WellFormed (pre ++ [m] ++ back) ∧ m.alloc = false ∧
      MergesRight post back ∧ heap.SameRange (heap.unifyRight b.addr) := by
  by_cases merges : ∃ r ∈ post.head?, r.alloc = false
  · obtain ⟨r, hr, unused⟩ := merges
    obtain ⟨post, rfl⟩ : ∃ rest, post = r :: rest := by
      cases post with
      | nil => cases hr
      | cons c rest => cases hr; exact ⟨rest, rfl⟩
    have h : heap.Shape (pre ++ [b, r] ++ post) := by simpa using h
    obtain ⟨wf, same⟩ := unifyRight_merge h stored
      (fun c hc => others c ((mem_append.1 hc).elim (mem_append_left _)
        fun hc => mem_append_right _ (mem_cons_of_mem r hc)))
      (others r (by simp)) unused
    exact ⟨_, post, wf, free, .inr ⟨r, rfl, unused⟩, same⟩
  · have taken : ∀ r ∈ post.head?, r.alloc = true := by
      simpa only [not_exists, not_and, Bool.not_eq_false] using merges
    have h : heap.Shape (pre ++ b :: post) := by simpa using h
    have skip : heap.unifyRight b.addr = heap := by
      refine unifyRight_skip h stored fun r hr => ⟨(others r ?_).toHeaderStored, taken r hr⟩
      exact mem_append_right pre (mem_of_mem_head? hr)
    rw [skip]
    refine ⟨b, post, ⟨by simpa using h, fun c hc => ?_⟩, free, .inl ⟨rfl, taken⟩, rfl, rfl, rfl⟩
    simp only [mem_append, mem_singleton] at hc
    rcases hc with (hc | rfl) | hc
    · exact others c (mem_append_left _ hc)
    · exact footer.resolve_left merges
    · exact others c (mem_append_right _ hc)

end MemHeap

/-- `heap_free` keeps the heap well formed and frees just this block, unless it
merges to the left and not to the right. -/
theorem heapFree_spec {heap : MemHeap} {pre post : List Block} {b : Block}
    (h : heap.WellFormed (pre ++ [b] ++ post))
    (safe : (∃ l ∈ pre.getLast?, l.alloc = false) → ∃ r ∈ post.head?, r.alloc = false) :
    ∃ heap' bs, heapFree heap (b.addr + 16) = some heap' ∧ heap'.WellFormed bs ∧
      MemHeap.Freed pre post bs ∧ heap.SameRange heap' := by
  have mem : b ∈ pre ++ [b] ++ post := by simp
  have stored := h.stored b mem
  obtain ⟨_, _⟩ := h.bounds mem
  have top := h.high
  have header : sub32 (b.addr + 16) headerSize = b.addr := by
    unfold sub32 headerSize; omega
  obtain ⟨i, found⟩ := MemHeap.exists_idxOf h.toShape mem
  have magic : heap.mhMagic b.addr = MEM_MAGIC := stored.magic
  unfold heapFree
  rw [if_neg (by omega)]
  simp only [header, magic, found, ne_eq, not_true_eq_false, if_false]
  have freed : (heap.setAlloc b.addr 0).WellFormed (pre ++ [⟨b.addr, b.size, false⟩] ++ post) := by
    have freed := (h.formed.set 0 le_rfl (by unfold footer; omega)).1
    rw [if_pos rfl] at freed
    exact freed.wellFormed h.toShape rfl rfl
  have found : (heap.setAlloc b.addr 0).index.elems.idxOf? b.addr = some i := found
  have same : heap.SameRange (heap.setAlloc b.addr 0) := ⟨rfl, rfl, rfl⟩
  generalize heap.setAlloc b.addr 0 = heap₀ at freed found same
  by_cases merges : ∃ l ∈ pre.getLast?, l.alloc = false
  · have right := safe merges
    obtain ⟨l, hl, unused⟩ := merges
    obtain ⟨front, rfl⟩ : ∃ front, pre = front ++ [l] := getLast?_eq_some_iff.1 hl
    have freed : heap₀.WellFormed (front ++ [l, ⟨b.addr, b.size, false⟩] ++ post) := by
      simpa using freed
    obtain ⟨heap', eq, shape, others, header, same'⟩ :=
      MemHeap.unifyLeft_merge freed unused found
    obtain ⟨m, back, wf, free, right, same''⟩ :=
      MemHeap.unifyRight_spec shape rfl header others (.inl right)
    rw [eq]
    exact ⟨_, _, rfl, wf, ⟨front, m, back, rfl, free, .inr ⟨l, rfl, unused⟩, right⟩,
      (same.trans same').trans same''⟩
  · have taken : ∀ l ∈ pre.getLast?, l.alloc = true := by
      simpa only [not_exists, not_and, Bool.not_eq_false] using merges
    have skip : heap₀.unifyLeft b.addr i = (heap₀, b.addr) := by
      have shape : heap₀.Shape (pre ++ ⟨b.addr, b.size, false⟩ :: post) := by
        simpa using freed.toShape
      have skip := MemHeap.unifyLeft_skip (i := i) shape fun l hl =>
        ⟨freed.stored l (by simp [mem_of_mem_getLast? hl]), taken l hl⟩
      exact skip
    have block := freed.stored ⟨b.addr, b.size, false⟩ (by simp)
    obtain ⟨m, back, wf, free, right, same'⟩ := MemHeap.unifyRight_spec freed.toShape rfl
      block.toHeaderStored (fun c hc => freed.stored c (mem_around hc)) (.inr block)
    rw [skip]
    exact ⟨_, _, rfl, wf, ⟨pre, m, back, rfl, free, .inl ⟨rfl, taken⟩, right⟩, same.trans same'⟩

end Os0
