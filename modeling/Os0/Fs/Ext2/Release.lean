import Os0.Fs.Ext2.Dir
import Os0.Fs.Ext2.Extend

/-! What the release of an inode leaves alone. `ext2_dealloc_blocks` writes blocks of pointers
of the inode only, and only to take pointers out of them, whether it succeeds or not. -/
namespace Os0

open Bytes Cmd Function

/-- No block of pointers that is reached from a pointer of level `L` to `b` is in `K`. Blocks of
data, of level 0, are not written. -/
def Clear (K : Nat → Prop) (fs : Ext2Filesystem) : Nat → Nat → Prop
  | 0, _ => True
  | L + 1, b => b = 0 ∨ b < fs.geo.blocksCount ∧ ¬K b ∧
      ∀ i < fs.geo.addrPerBlock, Clear K fs L (fs.entry b i)

/-- The blocks in `K` are as before, and blocks of pointers have lost pointers at most. -/
structure Shrinks (K : Nat → Prop) (fs t : Ext2Filesystem) : Prop where
  stays : Stays fs t
  kept : ∀ b, K b → ∀ i < fs.geo.blksize, t.byte b i = fs.byte b i
  entries : ∀ b i, i < fs.geo.addrPerBlock → t.entry b i = 0 ∨ t.entry b i = fs.entry b i

section

variable {K : Nat → Prop} {fs t u : Ext2Filesystem} {L b : Nat}

theorem clear_zero (K : Nat → Prop) (fs : Ext2Filesystem) (L : Nat) : Clear K fs L 0 := by
  cases L with
  | zero => trivial
  | succ L => exact .inl rfl

theorem Shrinks.trans (h : Shrinks K fs t) (k : Shrinks K t u) : Shrinks K fs u where
  stays := h.stays.trans k.stays
  kept c hc i hi := (k.kept c hc i (h.stays.geo ▸ hi)).trans (h.kept c hc i hi)
  entries c i hi := by
    rcases k.entries c i (h.stays.geo ▸ hi) with zero | same
    · exact .inl zero
    · rw [same]
      exact h.entries c i hi

theorem Untouched.shrinks (h : Untouched fs t) : Shrinks K fs t where
  stays := h.toStays
  kept c _ i _ := by
    unfold Ext2Filesystem.byte
    rw [h.dev, h.geo]
  entries c i _ := by
    unfold Ext2Filesystem.entry
    rw [h.dev, h.geo]
    exact .inr rfl

theorem Shrinks.refl (K : Nat → Prop) (fs : Ext2Filesystem) : Shrinks K fs fs :=
  Untouched.shrinks (Idle.untouched ⟨fs.ops, rfl⟩)

theorem Clear.shrinks (clear : Clear K fs L b) (h : Shrinks K fs t) : Clear K t L b := by
  induction L generalizing b with
  | zero => trivial
  | succ L ih =>
    rcases clear with rfl | ⟨hb, out, below⟩
    · exact .inl rfl
    · refine .inr ⟨h.stays.geo ▸ hb, out, fun i hi => ?_⟩
      rw [h.stays.geo] at hi
      rcases h.entries b i hi with zero | same
      · rw [zero]
        exact clear_zero K t L
      · rw [same]
        exact ih (below i hi)

/-- A block of pointers is written that has lost pointers since `fs`. -/
theorem Shrinks.store (h : Shrinks K fs t) (out : ¬K b) {ptrs : Nat → Nat}
    (lost : ∀ i < fs.geo.addrPerBlock, ptrs i = 0 ∨ ptrs i = fs.entry b i)
    (idle : Idle (t.store b (ptrBlock ptrs)) u) : Shrinks K fs u := by
  have geo := h.stays.geo
  have bytes : ∀ c i, u.byte c i = (t.store b (ptrBlock ptrs)).byte c i := by
    obtain ⟨n, rfl⟩ := idle
    exact fun _ _ => rfl
  constructor
  case stays => exact h.stays.trans ((keeps_store t b _).trans idle.keeps).toStays
  case kept =>
    intro c hc i hi
    have other : c ≠ b := by
      rintro rfl
      exact out hc
    rw [bytes, Ext2Filesystem.byte_store (geo ▸ hi), if_neg other]
    exact h.kept c hc i hi
  case entries =>
    intro c i hi
    have narrow : ptrs i < 4294967296 := by
      rcases lost i hi with _ | same
      · omega
      · rw [same]
        exact Mem.word_lt _ _
    have entry : u.entry c i = (t.store b (ptrBlock ptrs)).entry c i := by
      obtain ⟨n, rfl⟩ := idle
      rfl
    rw [entry, Ext2Filesystem.entry_store (geo ▸ hi), blockPtr_ptrBlock narrow]
    split
    · rename_i same
      rw [same]
      exact lost i hi
    · exact h.entries c i hi

end

/-! ## The blocks of an inode -/

/-- What releasing in an array of pointers leaves, whether it succeeds or not. -/
structure Releases (K : Nat → Prop) (s t : DeallocState) : Prop where
  fs : Shrinks K s.fs t.fs
  block : t.inode.block = s.inode.block
  ptrs : ∀ i, t.ptrs i = 0 ∨ t.ptrs i = s.ptrs i

section

variable {K : Nat → Prop} {s t u : DeallocState} {L : Nat}

variable {m start count : Nat}

theorem Releases.refl (K : Nat → Prop) (s : DeallocState) : Releases K s s :=
  ⟨.refl K s.fs, rfl, fun _ => .inr rfl⟩

theorem Releases.trans (h : Releases K s t) (k : Releases K t u) : Releases K s u where
  fs := h.fs.trans k.fs
  block := k.block.trans h.block
  ptrs i := by
    rcases k.ptrs i with zero | same
    · exact .inl zero
    · rw [same]
      exact h.ptrs i

theorem Releases.clear (h : Releases K s t) (clear : ∀ i < m, Clear K s.fs L (s.ptrs i)) :
    ∀ i < m, Clear K t.fs L (t.ptrs i) := by
  intro i hi
  rcases h.ptrs i with zero | same
  · rw [zero]
    exact clear_zero K t.fs L
  · rw [same]
    exact (clear i hi).shrinks h.fs

theorem deallocFree_releases (K : Nat → Prop) (s : DeallocState) (i : Nat) :
    Ends (DeallocState.free i) s (fun _ t => Releases K s t) (fun _ t => Releases K s t) := by
  apply ends_modify
  have keeps := keeps_blockAllocStats s.fs (s.ptrs i) false
  have dev := blockAllocStats_dev s.fs (s.ptrs i) false
  refine ⟨⟨keeps.toStays, ?_, ?_⟩, rfl, fun j => ?_⟩
  · intro c _ i _
    unfold Ext2Filesystem.byte
    rw [dev, keeps.geo]
  · intro c i _
    unfold Ext2Filesystem.entry
    rw [dev, keeps.geo]
    exact .inr rfl
  · by_cases same : j = i
    · rw [same]
      exact .inl (update_self _ _ _)
    · exact .inr (update_of_ne same _ _)

theorem deallocSlots_releases
    {child : Nat → Nat → Nat → Nat → DeallocCmd Bool}
    (childOk : ∀ (s : DeallocState) (b offset : Nat), s.fs.geo.Sound → b ≠ 0 → Clear K s.fs L b →
      Ends (child b offset start count) s (fun _ t => Releases K s t) (fun _ t => Releases K s t))
    {left i freed : Nat} (sound : s.fs.geo.Sound) (clear : ∀ i < m, Clear K s.fs L (s.ptrs i))
    (upto : i + left ≤ m) :
    Ends (deallocSlots child L start count left i freed) s (fun _ t => Releases K s t)
      (fun _ t => Releases K s t) := by
  induction left generalizing i freed s with
  | zero => exact ends_pure (.refl K s)
  | succ left ih =>
    have next : ∀ {u freed}, Releases K s u →
        Ends (deallocSlots child L start count left (i + 1) freed) u (fun _ t => Releases K s t)
          (fun _ t => Releases K s t) := by
      intro u freed step
      exact (ih (step.fs.stays.geo ▸ sound) (step.clear clear) (by omega)).mono
        (fun _ _ rest => step.trans rest) (fun _ _ rest => step.trans rest)
    apply ends_bind
    apply ends_get
    dsimp only
    split
    · exact ends_pure (.refl K s)
    · split
      · exact next (.refl K s)
      · rename_i visited
        rw [not_or] at visited
        apply ends_bind
        apply (childOk s (s.ptrs i) _ sound visited.1 (clear i (by omega))).imp
        intro empty t step
        cases empty with
        | true =>
          rw [if_pos rfl]
          apply ends_bind
          refine (deallocFree_releases K t i).mono ?_ fun _ _ free => step.trans free
          intro _ u free
          exact next (step.trans free)
        | false =>
          rw [if_neg (by decide)]
          exact next step

theorem deallocCount_releases (K : Nat → Prop) (s : DeallocState) (freed : Nat) :
    Ends (deallocCount freed) s (fun _ t => Releases K s t) (fun _ t => Releases K s t) := by
  apply ends_bind
  apply ends_get
  split
  · rename_i sub
    apply ends_modify
    refine ⟨.refl K s.fs, ?_, fun _ => .inr rfl⟩
    unfold ext2IblkSubBlocks at sub
    dsimp only at sub
    split at sub
    · cases sub
    · cases sub
      rw [setIblk_fields]
  · exact ends_fail (.refl K s)

theorem deallocOnFs_releases {α : Type} {c : FsCmd α} {Q : α → Ext2Filesystem → Prop}
    (h : Ends c s.fs Q (fun _ t => Shrinks K s.fs t)) :
    Ends (DeallocState.onFs c) s (fun a t => ∃ fs, t = { s with fs := fs } ∧ Q a fs)
      (fun _ t => Releases K s t) :=
  ends_zoom (h.mono (fun _ fs q => ⟨fs, rfl, q⟩) fun _ _ k => ⟨k, rfl, fun _ => .inr rfl⟩)

/-- Releasing in the block of a pointer of level `L + 1`. -/
theorem deallocChild_releases {dealloc : Nat → Nat → Nat → DeallocCmd Unit}
    (deallocOk : ∀ (s : DeallocState) (start count : Nat), s.fs.geo.Sound →
      (∀ i < s.fs.geo.addrPerBlock, Clear K s.fs L (s.ptrs i)) →
      Ends (dealloc start count s.fs.geo.addrPerBlock) s (fun _ t => Releases K s t)
        (fun _ t => Releases K s t))
    {b : Nat} (offset : Nat) (sound : s.fs.geo.Sound) (there : b ≠ 0)
    (clear : Clear K s.fs (L + 1) b) :
    Ends (deallocChild dealloc b offset start count) s (fun _ t => Releases K s t)
      (fun _ t => Releases K s t) := by
  obtain ⟨hb, out, below⟩ := clear.resolve_left there
  apply ends_bind
  apply ends_get
  apply ends_bind
  refine (deallocOnFs_releases ((ext2ReadBlock_either sound hb).mono (fun _ _ h => h)
    fun _ _ idle => idle.untouched.shrinks)).imp ?_
  rintro _ _ ⟨fs, rfl, idle, rfl⟩
  have first : Shrinks K s.fs fs := idle.untouched.shrinks
  have geo := first.stays.geo
  have inner : ∀ i < fs.geo.addrPerBlock, Clear K fs L (blockPtr (s.fs.byte b) i) := by
    intro i hi
    rw [blockPtr_byte]
    exact (below i (geo ▸ hi)).shrinks first
  have work := deallocOk ⟨fs, s.inode, blockPtr (s.fs.byte b)⟩
    ((if offset < start then start - offset else 0) % 4294967296)
    ((count + 18446744073709551616 - offset) % 18446744073709551616) (geo ▸ sound) inner
  rw [geo] at work
  apply ends_bind
  apply ends_zoom
  apply ends_bind
  refine work.mono ?_ fun _ t h => ⟨first.trans h.fs, h.block, fun _ => .inr rfl⟩
  intro _ t h
  apply ends_bind
  apply ends_get
  apply ends_pure
  -- The pointers that are left go back to the block.
  have second : Shrinks K s.fs t.fs := first.trans h.fs
  have lost : ∀ i < s.fs.geo.addrPerBlock, t.ptrs i = 0 ∨ t.ptrs i = s.fs.entry b i := by
    intro i _
    rw [← blockPtr_byte]
    exact h.ptrs i
  have hb' : b < t.fs.geo.blocksCount := by
    rw [second.stays.geo]
    exact hb
  have write : Ends (ext2WriteBlock (ptrBlock t.ptrs) b) t.fs
      (fun _ fs => Idle (t.fs.store b (ptrBlock t.ptrs)) fs) (fun _ fs => Shrinks K t.fs fs) :=
    (ext2WriteBlock_either (second.stays.geo ▸ sound) hb' _).mono (fun _ _ h => h)
      fun _ _ idle => idle.untouched.shrinks
  apply ends_bind
  refine (@deallocOnFs_releases K ⟨t.fs, t.inode, s.ptrs⟩ _ _ _ write).mono ?_ ?_
  · rintro _ _ ⟨_, rfl, idle'⟩
    exact ends_pure ⟨second.store out lost idle', h.block, fun _ => .inr rfl⟩
  · intro _ u k
    exact ⟨second.trans k.fs, k.block.trans h.block, k.ptrs⟩

theorem ext2DeallocIndirectBlock_releases (sound : s.fs.geo.Sound)
    (clear : ∀ i < m, Clear K s.fs L (s.ptrs i)) :
    Ends (ext2DeallocIndirectBlock L start count m) s (fun _ t => Releases K s t)
      (fun _ t => Releases K s t) := by
  have counts : ∀ {t : DeallocState} {freed : Nat}, Releases K s t →
      Ends (deallocCount freed) t (fun _ t => Releases K s t) (fun _ t => Releases K s t) :=
    fun step => (deallocCount_releases K _ _).mono (fun _ _ k => step.trans k)
      fun _ _ k => step.trans k
  induction L generalizing s start count m with
  | zero =>
    apply ends_bind
    apply (deallocSlots_releases _ sound clear (by omega)).imp
    · intro _ t step
      exact counts step
    · intro t _ _ _ _ _
      exact ends_pure (.refl K t)
  | succ L ih =>
    apply ends_bind
    apply (deallocSlots_releases _ sound clear (by omega)).imp
    · intro _ t step
      exact counts step
    · intro t b offset sound there clear
      refine deallocChild_releases ?_ offset sound there clear
      intro t start count sound clear
      exact ih sound clear fun step => (deallocCount_releases K _ _).mono
        (fun _ _ k => step.trans k) fun _ _ k => step.trans k

end

/-! ## An inode -/

/-- No block of pointers of an inode is in `K`. -/
def ClearInode (K : Nat → Prop) (fs : Ext2Filesystem) (block : Nat → Nat) : Prop :=
  ∀ L, Clear K fs (L + 1) (block (EXT2_IND_BLOCK + L))

/-- The slots of a level of `ext2_dealloc_indirect`. -/
def LevelSlots (level base num : Nat) : Prop :=
  level = 0 ∧ base = 0 ∧ num = EXT2_NDIR_BLOCKS ∨
    ∃ L, level = L + 1 ∧ base = EXT2_IND_BLOCK + L ∧ num = 1

section

variable {K : Nat → Prop} {s t u : InodeState}

/-- What releasing in an inode leaves, whether it succeeds or not. -/
structure ReleasesInode (K : Nat → Prop) (s t : InodeState) : Prop where
  fs : Shrinks K s.fs t.fs
  block : ∀ k, t.inode.block k = 0 ∨ t.inode.block k = s.inode.block k

theorem ReleasesInode.trans (h : ReleasesInode K s t) (k : ReleasesInode K t u) :
    ReleasesInode K s u where
  fs := h.fs.trans k.fs
  block i := by
    rcases k.block i with zero | same
    · exact .inl zero
    · rw [same]
      exact h.block i

theorem onSlots_releases {α : Type} {base : Nat} {c : DeallocCmd α}
    (h : Ends c ⟨s.fs, s.inode, fun i => s.inode.block (base + i)⟩
      (fun _ t => Releases K ⟨s.fs, s.inode, fun i => s.inode.block (base + i)⟩ t)
      (fun _ t => Releases K ⟨s.fs, s.inode, fun i => s.inode.block (base + i)⟩ t)) :
    Ends (InodeState.onSlots base c) s (fun _ t => ReleasesInode K s t)
      (fun _ t => ReleasesInode K s t) := by
  have put : ∀ t : DeallocState,
      Releases K ⟨s.fs, s.inode, fun i => s.inode.block (base + i)⟩ t →
      ReleasesInode K s ⟨t.fs, { t.inode with
        block := fun k => if base ≤ k then t.ptrs (k - base) else t.inode.block k }⟩ := by
    intro t k
    refine ⟨k.fs, fun i => ?_⟩
    dsimp only
    split
    · rename_i le
      have lost := k.ptrs (i - base)
      dsimp only at lost
      rwa [Nat.add_sub_cancel' le] at lost
    · rw [k.block]
      exact .inr rfl
  exact ends_zoom (h.mono (fun _ t k => put t k) fun _ t k => put t k)

theorem deallocLevels_releases {left level base num max start count : Nat}
    (sound : s.fs.geo.Sound) (clear : ClearInode K s.fs s.inode.block)
    (slots : LevelSlots level base num) :
    Ends (deallocLevels left level base num max start count) s (fun _ t => ReleasesInode K s t)
      (fun _ t => ReleasesInode K s t) := by
  induction left generalizing level base num max start count s with
  | zero => exact ends_pure ⟨.refl K s.fs, fun _ => .inr rfl⟩
  | succ left ih =>
    have next : LevelSlots (level + 1) (base + num) 1 := by
      rcases slots with ⟨rfl, rfl, rfl⟩ | ⟨L, rfl, rfl, rfl⟩
      · exact .inr ⟨0, rfl, rfl, rfl⟩
      · exact .inr ⟨L + 1, rfl, rfl, rfl⟩
    apply ends_bind
    apply ends_get
    dsimp only
    split
    · apply ends_bind
      have level_ok : ∀ i < num, Clear K s.fs level (s.inode.block (base + i)) := by
        intro i _
        rcases slots with ⟨rfl, -, -⟩ | ⟨L, rfl, rfl, rfl⟩
        · trivial
        · obtain rfl : i = 0 := by omega
          exact clear L
      apply (onSlots_releases (ext2DeallocIndirectBlock_releases sound level_ok)).imp
      intro _ t step
      split
      · refine (ih (step.fs.stays.geo ▸ sound) ?_ next).mono (fun _ _ k => step.trans k)
          fun _ _ k => step.trans k
        intro L
        rcases step.block (EXT2_IND_BLOCK + L) with zero | same
        · rw [zero]
          exact clear_zero K t.fs _
        · rw [same]
          exact (clear L).shrinks step.fs
      · exact ends_pure step
    · exact ih sound clear next

theorem ext2DeallocBlocks_shrinks {ino start fin : Nat} (sound : s.fs.geo.Sound)
    (clear : ClearInode K s.fs s.inode.block) :
    Ends (ext2DeallocBlocks ino start fin) s (fun _ t => Shrinks K s.fs t.fs)
      (fun _ t => Shrinks K s.fs t.fs) := by
  have same : Shrinks K s.fs s.fs := .refl K s.fs
  apply ends_bind
  apply ends_get
  split
  · exact ends_fail same
  · split
    · exact ends_fail same
    · split
      · exact ends_fail same
      · have indirect : Ends (ext2DeallocIndirect start fin) s (fun _ t => Shrinks K s.fs t.fs)
            (fun _ t => Shrinks K s.fs t.fs) := by
          unfold ext2DeallocIndirect
          split
          · exact ends_pure same
          · apply ends_bind
            apply ends_zoom
            refine (kmallocOp_idle s.fs).mono ?_ fun _ _ idle => idle.untouched.shrinks
            intro _ fs idle
            have first : Shrinks K s.fs fs := idle.untouched.shrinks
            exact (@deallocLevels_releases K ⟨fs, s.inode⟩ _ _ _ _ _ _ _
              (first.stays.geo ▸ sound) (fun L => (clear L).shrinks first)
              (.inl ⟨rfl, rfl, rfl⟩)).mono (fun _ _ k => first.trans k.fs)
                fun _ _ k => first.trans k.fs
        apply ends_bind
        apply indirect.imp
        intro _ t step
        apply ends_bind
        apply ends_get
        apply ends_zoom
        exact (ext2UpdateInode_untouched t.fs ino t.inode).mono
          (fun _ _ k => step.trans k.shrinks) fun _ _ k => step.trans k.shrinks

end

/-- The inode loses its last link with the next one. -/
def Ext2Inode.lastLink (inode : Ext2Inode) : Bool := (inode.linksCount + 65535) % 65536 = 0

theorem inodeAllocStats_untouched (fs : Ext2Filesystem) (ino : Nat) (inuse isdir : Bool) :
    Untouched fs (ext2InodeAllocStats fs ino inuse isdir) := by
  unfold ext2InodeAllocStats
  split
  · exact Idle.untouched ⟨fs.ops, rfl⟩
  · exact ⟨⟨rfl, rfl, rfl, rfl, rfl, rfl, rfl, update_tables rfl⟩, rfl, rfl⟩

/-- What `ext2_process_unlink` does to the inode of an entry. -/
theorem dropLink_shrinks {K : Nat → Prop} {fs : Ext2Filesystem} {inode : Ext2Inode}
    (sound : fs.geo.Sound) (ino : Nat)
    (clear : inode.lastLink = true → ClearInode K fs inode.block) :
    Shrinks K fs (dropLink ino inode fs) := by
  unfold dropLink
  generalize 18446744073709551615 = fin
  dsimp only
  split
  · rename_i last
    have last : inode.lastLink = true := by
      rw [Ext2Inode.lastLink, last]
      rfl
    have stats := inodeAllocStats_untouched fs ino false (isType inode.mode S_IFDIR)
    generalize ext2InodeAllocStats fs ino false (isType inode.mode S_IFDIR) = fs₁ at stats ⊢
    generalize (inode.linksCount + 65535) % 65536 = links
    have released := (@ext2DeallocBlocks_shrinks K ⟨fs₁, { inode with linksCount := links }⟩ ino 0
      fin (stats.geo ▸ sound) fun L => (clear last L).shrinks stats.shrinks).after
    exact stats.shrinks.trans (released.trans (ext2UpdateInode_untouched _ ino _).after.shrinks)
  · exact (ext2UpdateInode_untouched fs ino _).after.shrinks

end Os0
