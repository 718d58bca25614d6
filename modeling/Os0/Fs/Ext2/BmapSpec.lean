import Os0.Fs.Ext2.BlockTree

/-! The paths of the logical blocks of an inode, which `ext2_bmap` follows. -/
namespace Os0

open Bytes PtrTree

/-- The path of a logical block. -/
def blockPath (apb block : Nat) : List Nat :=
  if block < 12 then [block]
  else if block - 12 < apb then [12, block - 12]
  else if block - 12 - apb < apb * apb then
    [13, (block - 12 - apb) / apb, (block - 12 - apb) % apb]
  else
    [14, (block - 12 - apb - apb * apb) / apb / apb, (block - 12 - apb - apb * apb) / apb % apb,
      (block - 12 - apb - apb * apb) % apb]

/-- One more than the largest logical block that can be mapped. -/
def Geometry.maxBlocks (g : Geometry) : Nat :=
  g.addrPerBlock + g.addrPerBlock * g.addrPerBlock +
    g.addrPerBlock * g.addrPerBlock * g.addrPerBlock + EXT2_NDIR_BLOCKS

theorem blockPath_cases (apb block : Nat) :
    block < 12 ∧ blockPath apb block = [block] ∨
      (∃ n, block = 12 + n ∧ n < apb ∧ blockPath apb block = [12, n]) ∨
      (∃ n, block = 12 + apb + n ∧ n < apb * apb ∧ blockPath apb block = [13, n / apb, n % apb]) ∨
      ∃ n, block = 12 + apb + apb * apb + n ∧
        blockPath apb block = [14, n / apb / apb, n / apb % apb, n % apb] := by
  unfold blockPath
  by_cases direct : block < 12
  · exact .inl ⟨direct, if_pos direct⟩
  · rw [if_neg direct]
    by_cases ind : block - 12 < apb
    · exact .inr (.inl ⟨block - 12, by omega, ind, if_pos ind⟩)
    · rw [if_neg ind]
      by_cases dind : block - 12 - apb < apb * apb
      · exact .inr (.inr (.inl ⟨block - 12 - apb, by omega, dind, if_pos dind⟩))
      · exact .inr (.inr (.inr ⟨block - 12 - apb - apb * apb, by omega, if_neg dind⟩))

theorem leaf_blockPath (apb block : Nat) : Leaf slotDepth (blockPath apb block) := by
  obtain ⟨_, path⟩ | ⟨n, _, _, path⟩ | ⟨n, _, _, path⟩ | ⟨n, _, path⟩ := blockPath_cases apb block
  · rw [path]
    show 0 = block - 11
    omega
  · rw [path]
    rfl
  · rw [path]
    rfl
  · rw [path]
    rfl

section

variable {g : Geometry} {block : Nat}

/-- What remains of a logical block in the range of the triple indirect block. -/
theorem triple_lt {n : Nat}
    (h : 12 + g.addrPerBlock + g.addrPerBlock * g.addrPerBlock + n < g.maxBlocks) :
    n / g.addrPerBlock < g.addrPerBlock * g.addrPerBlock := by
  unfold Geometry.maxBlocks EXT2_NDIR_BLOCKS at h
  apply Nat.div_lt_of_lt_mul
  rw [← Nat.mul_assoc]
  omega

theorem onPath_blockPath (h : block < g.maxBlocks) : OnPath g (blockPath g.addrPerBlock block) := by
  have pos := g.addrPerBlock_pos
  obtain ⟨direct, path⟩ | ⟨n, _, inside, path⟩ | ⟨n, _, inside, path⟩ | ⟨n, rfl, path⟩ :=
    blockPath_cases g.addrPerBlock block
  · rw [path]
    exact ⟨direct.trans (by decide), Nat.zero_le _, by simp⟩
  · rw [path]
    exact ⟨by decide, le_rfl, by simpa using inside⟩
  · rw [path]
    refine ⟨by decide, le_rfl, ?_⟩
    simpa using ⟨Nat.div_lt_of_lt_mul inside, Nat.mod_lt n pos⟩
  · rw [path]
    refine ⟨by decide, le_rfl, ?_⟩
    simpa using ⟨Nat.div_lt_of_lt_mul (triple_lt h), Nat.mod_lt _ pos, Nat.mod_lt n pos⟩

end

/-! ## `ext2_bmap` -/

section

variable {s : MapState} {ino block : Nat}

/-- What holds of every branch with its path holds of `bmapLevel` with the path of the
logical block. -/
theorem bmapLevel_cases {P : MapCmd (Nat × Bool) → List Nat → Prop} {flags : BmapFlags} {apb : Nat}
    (direct : block < 12 → P (bmapDirect ino flags block) [block])
    (ind : ∀ n, n < apb → P (bmapIndirect (fun b => blockIndBmap flags b n) 12 flags) [12, n])
    (dind : ∀ n, n < apb * apb →
      P (bmapIndirect (fun b => blockDindBmap flags b n) 13 flags) [13, n / apb, n % apb])
    (tind : ∀ n, block = 12 + apb + apb * apb + n →
      P (bmapIndirect (fun b => blockTindBmap flags b n) 14 flags)
        [14, n / apb / apb, n / apb % apb, n % apb]) :
    P (bmapLevel ino flags apb block) (blockPath apb block) := by
  unfold bmapLevel blockPath
  by_cases h : block < EXT2_NDIR_BLOCKS
  · rw [if_pos h, if_pos (show block < 12 from h)]
    exact direct h
  · rw [if_neg h, if_neg (show ¬block < 12 from h)]
    by_cases h1 : block - EXT2_NDIR_BLOCKS < apb
    · rw [if_pos h1, if_pos (show block - 12 < apb from h1)]
      exact ind _ h1
    · rw [if_neg h1, if_neg (show ¬block - 12 < apb from h1)]
      by_cases h2 : block - EXT2_NDIR_BLOCKS - apb < apb * apb
      · rw [if_pos h2, if_pos (show block - 12 - apb < apb * apb from h2)]
        exact dind _ h2
      · rw [if_neg h2, if_neg (show ¬block - 12 - apb < apb * apb from h2)]
        refine tind _ ?_
        unfold EXT2_NDIR_BLOCKS at h h1 h2 ⊢
        omega

/-- A block-mapped inode: neither extents nor inline data. -/
structure BlockMapped (inode : Ext2Inode) : Prop where
  extents : hasFlag inode.flags EXT4_EXTENTS_FL = false
  inline : hasFlag inode.flags EXT4_INLINE_DATA_FL = false

theorem tooBig_iff (mapped : BlockMapped s.inode) (g : Geometry) :
    ext2FileBlockOffsetTooBig g s.inode block = false ↔
      block < 4294967295 ∧ block < g.maxBlocks := by
  unfold ext2FileBlockOffsetTooBig Geometry.maxBlocks
  rw [mapped.extents]
  by_cases h : 4294967295 ≤ block
  · simp only [h, if_true]
    exact ⟨fun k => Bool.noConfusion k, fun k => absurd k.1 (not_lt.2 h)⟩
  · simp only [h, if_false, Bool.false_eq_true, decide_eq_false_iff_not, not_le]
    exact ⟨fun k => ⟨Nat.lt_of_not_le h, k⟩, fun k => k.2⟩

theorem iblkAdd_fields {fs : Ext2Filesystem} {inode inode' : Ext2Inode} {n : Nat}
    (h : ext2IblkAddBlocks fs inode n = .ok inode') :
    inode' = { inode with blocks := inode'.blocks, blocksHi := inode'.blocksHi } := by
  unfold ext2IblkAddBlocks Ext2Filesystem.setIblk at h
  dsimp only at h
  split at h
  · cases h
  · split at h <;> cases h <;> rfl

theorem setIblk_fields (fs : Ext2Filesystem) (inode : Ext2Inode) (b : Nat) :
    fs.setIblk inode b = { inode with
      blocks := (fs.setIblk inode b).blocks, blocksHi := (fs.setIblk inode b).blocksHi } := by
  unfold Ext2Filesystem.setIblk
  split <;> rfl

end

theorem blockPtr_ptrBlock {ptrs : Nat → Nat} {i : Nat} (h : ptrs i < 4294967296) :
    blockPtr (ptrBlock ptrs) i = ptrs i := by
  have q0 : 4 * i / 4 = i := by omega
  have q1 : (4 * i + 1) / 4 = i := by omega
  have q2 : (4 * i + 2) / 4 = i := by omega
  have q3 : (4 * i + 3) / 4 = i := by omega
  have r0 : 4 * i % 4 = 0 := by omega
  have r1 : (4 * i + 1) % 4 = 1 := by omega
  have r2 : (4 * i + 2) % 4 = 2 := by omega
  have r3 : (4 * i + 3) % 4 = 3 := by omega
  simp only [blockPtr, ptrBlock, Mem.word, q0, q1, q2, q3, r0, r1, r2, r3, UInt8.toNat_ofNat']
  omega

end Os0
