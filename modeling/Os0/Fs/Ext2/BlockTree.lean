import Os0.Fs.Ext2.InodeTable

/-! The tree of blocks of an inode: what it takes for the tree to be sound, and that it stays
sound when a free block is added to it. -/
namespace Os0

open Bytes PtrTree Function List Ext2Filesystem

/-- The number of levels below slot `k` of an inode. -/
def slotDepth (k : Nat) : Nat := k - 11

/-- The paths of the block tree of an inode. -/
def OnPath (g : Geometry) : List Nat → Prop := Fits EXT2_N_BLOCKS g.addrPerBlock slotDepth

/-- The tree of blocks below `roots` is sound: no block is used twice, every block is marked
in use, and block 0 is never free. -/
structure Tree (fs : Ext2Filesystem) (roots : Nat → Nat) : Prop where
  sound : fs.geo.Sound
  size : fs.blockBitmap.fin < fs.geo.blocksCount
  reserved : fs.blockBitmap.start = 0 → fs.blockBitmap.bit 0 = true
  distinct : Distinct EXT2_N_BLOCKS fs.geo.addrPerBlock slotDepth fs.entry roots
  taken : ∀ p, OnPath fs.geo p → reach fs.entry roots p ≠ 0 → fs.Taken (reach fs.entry roots p)

section

variable {fs t u : Ext2Filesystem} {roots roots' : Nat → Nat} {p q : List Nat} {r : Nat}

variable {i b : Nat}

theorem Tree.lt (h : Tree fs roots) (fits : OnPath fs.geo p) (there : reach fs.entry roots p ≠ 0) :
    reach fs.entry roots p < fs.geo.blocksCount :=
  lt_of_le_of_lt (h.taken p fits there).2.1 h.size

/-- The tree with block `r` at the end of `p`: `r` is what was there, or a block that was
free. -/
structure Adds (fs t : Ext2Filesystem) (roots roots' : Nat → Nat) (p : List Nat) (r : Nat) :
    Prop where
  keeps : Keeps fs t
  tree : Tree t roots'
  reach : ∀ q, OnPath fs.geo q →
    reach t.entry roots' q = if q = p then r else reach fs.entry roots q
  nonzero : r ≠ 0
  new : PtrTree.reach fs.entry roots p = r ∨ fs.blockBitmap.bit r = false
  zero : PtrTree.reach fs.entry roots p = 0 → ∀ i, i < fs.geo.blksize → t.byte r i = 0
  marks : ∀ b, fs.blockBitmap.bit b = true → t.blockBitmap.bit b = true
  kept : ∀ b, fs.Taken b →
    (∀ q, OnPath fs.geo q → Inner slotDepth q → PtrTree.reach fs.entry roots q ≠ b) →
    ∀ i, i < fs.geo.blksize → t.byte b i = fs.byte b i

theorem Idle.entry (h : Idle fs t) : t.entry = fs.entry := by
  obtain ⟨n, rfl⟩ := h
  rfl

/-! ## Adding one block -/

theorem Allocated.of_idle (idle : Idle fs t) (h : Allocated t u r) : Allocated fs u r := by
  obtain ⟨n, rfl⟩ := idle
  exact { h with }

namespace Allocated

variable (tree : Tree fs roots) (alloc : Allocated fs t r)
include tree alloc

theorem nonzero : r ≠ 0 := by
  intro zero
  have low := alloc.low
  rw [zero] at low
  have clear := alloc.clear
  rw [zero, tree.reserved (by omega)] at clear
  cases clear

theorem fresh (fits : OnPath fs.geo q) : reach fs.entry roots q ≠ r := by
  intro eq
  have marked := (tree.taken q fits (eq ▸ alloc.nonzero tree)).2.2
  rw [eq, alloc.clear] at marked
  cases marked

omit tree in
theorem ne_of_taken {b : Nat} (taken : fs.Taken b) : b ≠ r := by
  intro eq
  have marked := taken.2.2
  rw [eq, alloc.clear] at marked
  cases marked

theorem lt : r < fs.geo.blocksCount := lt_of_le_of_lt alloc.high tree.size

end Allocated

/-- The tree stays sound when a newly allocated block is added to it. -/
theorem Tree.grow (tree : Tree fs roots) (alloc : Allocated fs t r) (keeps : Keeps fs u)
    (bitmap : u.blockBitmap = t.blockBitmap) (reach : ∀ q, OnPath fs.geo q →
      PtrTree.reach u.entry roots' q = if q = p then r else PtrTree.reach fs.entry roots q) :
    Tree u roots' := by
  have bit : u.blockBitmap.bit = update fs.blockBitmap.bit r true := by
    rw [bitmap, alloc.bitmap]
  refine ⟨keeps.geo ▸ tree.sound, ?_, ?_, ?_, ?_⟩
  · rw [keeps.fin, keeps.geo]
    exact tree.size
  · intro start
    rw [bit, update_of_ne (alloc.nonzero tree).symm]
    exact tree.reserved (keeps.start ▸ start)
  · rw [keeps.geo]
    intro q q' fits fits' there same
    rw [reach q fits] at there same
    rw [reach q' fits'] at same
    by_cases hq : q = p <;> by_cases hq' : q' = p
    · exact hq.trans hq'.symm
    · rw [if_pos hq, if_neg hq'] at same
      exact absurd same.symm (alloc.fresh tree fits')
    · rw [if_neg hq, if_pos hq'] at same
      exact absurd same (alloc.fresh tree fits)
    · rw [if_neg hq] at there same
      rw [if_neg hq'] at same
      exact tree.distinct q q' fits fits' there same
  · intro q fits there
    rw [keeps.geo] at fits
    unfold Ext2Filesystem.Taken
    rw [reach q fits] at there ⊢
    rw [keeps.start, keeps.fin, bit]
    by_cases hq : q = p
    · rw [if_pos hq]
      exact ⟨alloc.low, alloc.high, update_self r true fs.blockBitmap.bit⟩
    · rw [if_neg hq] at there ⊢
      obtain ⟨low, high, marked⟩ := tree.taken q fits there
      rw [update_of_ne (alloc.fresh tree fits)]
      exact ⟨low, high, marked⟩

section

variable (alloc : Allocated fs t r)
include alloc

theorem Allocated.entry (keeps : Keeps fs t)
    (hi : i < fs.geo.addrPerBlock) : t.entry b i = if b = r then 0 else fs.entry b i := by
  have same : t.entry b i = (fs.store r fun _ => 0).entry b i := by
    unfold Ext2Filesystem.entry
    rw [alloc.dev, keeps.geo]
    rfl
  rw [same, entry_store hi]
  rfl

theorem Allocated.byte (keeps : Keeps fs t)
    (hi : i < fs.geo.blksize) : t.byte b i = if b = r then 0 else fs.byte b i := by
  have same : t.byte b i = (fs.store r fun _ => 0).byte b i := by
    unfold Ext2Filesystem.byte
    rw [alloc.dev, keeps.geo]
    rfl
  rw [same, byte_store hi]

theorem Allocated.marks (hb : fs.blockBitmap.bit b = true) : t.blockBitmap.bit b = true := by
  rw [alloc.bitmap]
  by_cases eq : b = r
  · rw [eq]
    exact update_self r true fs.blockBitmap.bit
  · exact (update_of_ne eq true fs.blockBitmap.bit).trans hb

end

theorem adds_root {k : Nat} (tree : Tree fs roots) (hole : roots k = 0)
    (keeps : Keeps fs t) (alloc : Allocated fs t r) :
    Adds fs t roots (update roots k r) [k] r := by
  have slots : ∀ q, OnPath fs.geo q →
      PtrTree.reach t.entry (update roots k r) q =
        if q = [k] then r else PtrTree.reach fs.entry roots q := by
    intro q fits
    have free : PtrTree.reach fs.entry roots [k] = 0 := hole
    refine reach_graft free ?_ ?_ ?_ ?_ fits
    · intro p i hp eq
      exact absurd (append_inj' (eq.trans (nil_append [k]).symm) rfl).1 hp
    · intro j _
      simp only [List.cons.injEq, and_true, update_apply]
    · intro j hj
      rw [alloc.entry keeps hj, if_pos rfl]
    · intro q j fq hj _
      have off : q ++ [j] ≠ [k] := by
        intro eq
        obtain ⟨rfl, -⟩ := append_inj' (eq.trans (nil_append [k]).symm) rfl
        exact fq
      rw [alloc.entry keeps hj, if_neg (alloc.fresh tree fq), if_neg off]
  exact {
    keeps := keeps
    tree := tree.grow alloc keeps rfl slots
    reach := slots
    nonzero := alloc.nonzero tree
    new := .inr alloc.clear
    zero := fun _ i hi => by rw [alloc.byte keeps hi, if_pos rfl]
    marks := fun b hb => alloc.marks hb
    kept := fun b taken _ i hi => by
      rw [alloc.byte keeps hi, if_neg (alloc.ne_of_taken taken)] }

theorem blockPtr_byte (fs : Ext2Filesystem) (b i : Nat) : blockPtr
    (fs.byte b) i = fs.entry b i := by
  unfold blockPtr entry byte Mem.word
  simp only [Nat.add_assoc]

theorem blockPtr_setWord (buffer : Mem) {j v : Nat} (hv : v < 4294967296) :
    blockPtr (buffer.setWord (4 * i) v) j = if j = i then v else blockPtr buffer j := by
  unfold blockPtr
  split_ifs with eq
  · rw [eq, Mem.word_setWord buffer hv]
  · rw [Mem.word_setWord_of_off v (by omega)]

theorem adds_slot (tree : Tree fs roots) (fits : OnPath fs.geo p)
    (inner : Inner slotDepth p) (there : reach fs.entry roots p ≠ 0)
    (hole : fs.entry (reach fs.entry roots p) i = 0) (keeps : Keeps fs t) (alloc : Allocated fs t r)
    (idle : Idle (t.store (reach fs.entry roots p)
      ((fs.byte (reach fs.entry roots p)).setWord (4 * i) r)) u) :
    Adds fs u roots roots (p ++ [i]) r := by
  have hp : p ≠ [] := by
    rintro rfl
    exact fits
  have small : r < 4294967296 := lt_of_lt_of_le (alloc.lt tree) tree.sound.count_le
  have apart : r ≠ reach fs.entry roots p := fun eq => alloc.fresh tree fits eq.symm
  have entry : ∀ b j, j < fs.geo.addrPerBlock → u.entry b j =
      if b = reach fs.entry roots p then (if j = i then r else fs.entry b j)
      else if b = r then 0 else fs.entry b j := by
    intro b j hj
    rw [idle.entry, entry_store (keeps.geo ▸ hj), blockPtr_setWord _ small,
      blockPtr_byte, alloc.entry keeps hj]
    by_cases eq : b = reach fs.entry roots p
    · rw [if_pos eq, if_pos eq, eq]
    · rw [if_neg eq, if_neg eq]
  have keeps' : Keeps fs u := keeps.trans (.trans (keeps_store t _ _) idle.keeps)
  have slots : ∀ q, OnPath fs.geo q → PtrTree.reach u.entry roots q =
      if q = p ++ [i] then r else PtrTree.reach fs.entry roots q := by
    intro q fq
    refine reach_graft ?_ ?_ ?_ ?_ ?_ fq
    · rw [reach_concat _ _ hp, if_neg there, hole]
    · intro q j _ eq
      obtain ⟨rfl, -⟩ := append_inj' eq rfl
      exact there
    · intro j _
      rw [if_neg]
      intro eq
      exact hp (append_inj' ((nil_append [j]).trans eq) rfl).1.symm
    · intro j hj
      rw [entry _ j hj, if_neg apart, if_pos rfl]
    · intro q j fq hj some
      rw [entry _ j hj]
      by_cases eq : reach fs.entry roots q = reach fs.entry roots p
      · obtain rfl : q = p := tree.distinct q p fq fits some eq
        simp only [if_true, append_right_inj, List.cons.injEq, and_true]
      · rw [if_neg eq, if_neg (alloc.fresh tree fq), if_neg]
        intro same
        exact eq (congrArg _ (append_inj' same rfl).1)
  have bitmap : u.blockBitmap = t.blockBitmap := by
    obtain ⟨n, rfl⟩ := idle
    rfl
  have byte : ∀ b j, j < fs.geo.blksize → b ≠ reach fs.entry roots p →
      u.byte b j = if b = r then 0 else fs.byte b j := by
    intro b j hj off
    have stored : u.byte b j = (t.store (reach fs.entry roots p)
        ((fs.byte (reach fs.entry roots p)).setWord (4 * i) r)).byte b j := by
      obtain ⟨n, rfl⟩ := idle
      rfl
    rw [stored, byte_store (keeps.geo ▸ hj), if_neg off, alloc.byte keeps hj]
  exact {
    keeps := keeps'
    tree := tree.grow alloc keeps' bitmap slots
    reach := slots
    nonzero := alloc.nonzero tree
    new := .inr alloc.clear
    zero := fun _ j hj => by rw [byte r j hj apart, if_pos rfl]
    marks := fun b hb => bitmap ▸ alloc.marks hb
    kept := fun b taken off j hj => by
      rw [byte b j hj (off p fits inner).symm, if_neg (alloc.ne_of_taken taken)] }

end

end Os0
