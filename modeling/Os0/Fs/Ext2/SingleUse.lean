import Os0.Fs.Ext2.Extend
import Os0.Fs.Ext2.FreeBlocks

/-! No block is used in two places, over whole runs of allocating calls of `ext2_bmap` on
several inodes. -/
namespace Os0

open PtrTree Runs Function

/-- Pointer `i` of block `b`, as `ext2_read_blocks` reads it. -/
def Ext2Filesystem.pointer (fs : Ext2Filesystem) (b i : Nat) : Nat :=
  blockPtr (fun j => fs.dev (fs.geo.offsetOf b + j)) i

/-- A file system, and the inodes in memory that the calls are given. -/
structure MapRun where
  fs : Ext2Filesystem
  inodes : Nat → Ext2Inode

/-- A call of `ext2_bmap` with `BMAP_ALLOC`; `zero` is `BMAP_ZERO`. -/
structure BmapCall where
  ino : Nat
  block : Nat
  zero : Bool
  ownBuffer : Bool
  deriving DecidableEq, Repr

namespace MapRun

def step (r : MapRun) (call : BmapCall) : MapRun :=
  let t := (ext2Bmap call.ino ⟨true, false, call.zero⟩ call.block call.ownBuffer
    ⟨r.fs, r.inodes call.ino, 0⟩).2
  ⟨t.fs, Function.update r.inodes call.ino t.inode⟩

/-- The block in one place of an inode: a slot of it, followed by the pointers to take. -/
def blockAt (r : MapRun) (ino : Nat) (p : List Nat) : Nat :=
  reach r.fs.pointer (r.inodes ino).block p

/-- The bitmap marks every block of the given inodes, and block 0 if it covers it. -/
structure MarksInUse (r : MapRun) (files : Set Nat) : Prop where
  blocks : ∀ ino ∈ files, ∀ p, OnPath r.fs.geo p → r.blockAt ino p ≠ 0 →
    r.fs.Taken (r.blockAt ino p)
  boot : r.fs.blockBitmap.start = 0 → r.fs.blockBitmap.bit 0 = true

/-- No block is used in two places. -/
def SingleUse (r : MapRun) (files : Set Nat) : Prop :=
  ∀ i ∈ files, ∀ j ∈ files, ∀ p q, OnPath r.fs.geo p → OnPath r.fs.geo q →
    r.blockAt i p ≠ 0 → r.blockAt i p = r.blockAt j q → i = j ∧ p = q

end MapRun

/-! ## All trees -/

namespace MapRun

variable {r : MapRun} {files : Set Nat}

/-- What a run keeps: every inode has a sound tree, and the trees share no block. -/
structure MapInv (r : MapRun) (files : Set Nat) : Prop where
  mapped : ∀ ino ∈ files, BlockMapped (r.inodes ino)
  tree : ∀ ino ∈ files, Tree r.fs (r.inodes ino).block
  apart : ∀ i ∈ files, ∀ j ∈ files, i ≠ j → ∀ p q, OnPath r.fs.geo p → OnPath r.fs.geo q →
    reach r.fs.entry (r.inodes i).block p ≠ 0 →
      reach r.fs.entry (r.inodes i).block p ≠ reach r.fs.entry (r.inodes j).block q

theorem MapInv.step (h : r.MapInv files) {call : BmapCall} (file : call.ino ∈ files) :
    (r.step call).MapInv files := by
  have extended := (@ext2Bmap_extends ⟨r.fs, r.inodes call.ino, 0⟩ call.ino call.block
    (h.mapped _ file) (h.tree _ file) call.zero call.ownBuffer).after
  unfold MapRun.step
  generalize (ext2Bmap call.ino _ call.block call.ownBuffer _).2 = t at extended ⊢
  obtain ⟨grown, flags⟩ := extended
  have geo : t.fs.geo = r.fs.geo := grown.stays.geo
  have others : ∀ j ∈ files, j ≠ call.ino → ∀ q, OnPath r.fs.geo q →
      reach t.fs.entry (r.inodes j).block q = reach r.fs.entry (r.inodes j).block q :=
    fun j mem ne => grown.others (h.tree j mem) (h.apart j mem _ file ne)
  -- What the call put into the tree of its inode was in no other tree.
  have news : ∀ j ∈ files, j ≠ call.ino → ∀ p q, OnPath r.fs.geo p → OnPath r.fs.geo q →
      reach t.fs.entry t.inode.block p ≠ 0 →
        reach t.fs.entry t.inode.block p ≠ reach t.fs.entry (r.inodes j).block q := by
    intro j mem ne p q fp fq there eq
    rw [others j mem ne q fq] at eq
    rcases grown.fresh p fp there with same | free
    · rw [same] at there eq
      exact h.apart _ file j mem ne.symm p q fp fq there eq
    · have taken := (h.tree j mem).taken q fq (eq ▸ there)
      rw [eq, taken.2.2] at free
      cases free
  constructor
  case mapped =>
    intro i mem
    by_cases same : i = call.ino
    · subst same
      have mapped := h.mapped _ mem
      simp only [update_self]
      exact ⟨flags ▸ mapped.extents, flags ▸ mapped.inline⟩
    · simpa only [update_of_ne same] using h.mapped i mem
  case tree =>
    intro i mem
    by_cases same : i = call.ino
    · subst same
      simpa only [update_self] using grown.tree
    · simp only [update_of_ne same]
      exact (h.tree i mem).congr grown.stays grown.marks (others i mem same)
  case apart =>
    intro i hi j hj ne p q fp fq there
    rw [geo] at fp fq
    by_cases si : i = call.ino <;> by_cases sj : j = call.ino
    · exact absurd (si.trans sj.symm) ne
    · subst si
      simp only [update_self, update_of_ne sj] at there ⊢
      exact news j hj sj p q fp fq there
    · subst sj
      simp only [update_self, update_of_ne si] at there ⊢
      intro eq
      exact news i hi si q p fq fp (eq ▸ there) eq.symm
    · simp only [update_of_ne si, update_of_ne sj] at there ⊢
      rw [others i hi si p fp] at there ⊢
      rw [others j hj sj q fq]
      exact h.apart i hi j hj ne p q fp fq there

theorem pointer_eq {fs : Ext2Filesystem} (sound : fs.geo.Sound) {b : Nat}
    (hb : b < fs.geo.blocksCount) (i : Nat) : fs.pointer b i = fs.entry b i := by
  rw [Ext2Filesystem.pointer, Geometry.offsetOf_eq sound hb]
  exact blockPtr_byte fs b i

theorem MapInv.blockAt_eq (h : r.MapInv files) {ino : Nat} (file : ino ∈ files) {p : List Nat}
    (fits : OnPath r.fs.geo p) : r.blockAt ino p = reach r.fs.entry (r.inodes ino).block p := by
  have tree := h.tree ino file
  refine reach_congr (fun _ _ => rfl) ?_ fits
  intro q i fq _ _ there
  exact pointer_eq tree.sound (tree.lt fq there) i

theorem MapInv.singleUse (h : r.MapInv files) : r.SingleUse files := by
  intro i hi j hj p q fp fq there eq
  rw [h.blockAt_eq hi fp] at there eq
  rw [h.blockAt_eq hj fq] at eq
  by_cases same : i = j
  · subst same
    exact ⟨rfl, (h.tree i hi).distinct p q fp fq there eq⟩
  · exact absurd eq (h.apart i hi j hj same p q fp fq there)

theorem mapInv_of_singleUse (mounted : r.fs.BlocksMounted) (sound : r.fs.geo.Sound)
    (mapped : ∀ ino ∈ files, BlockMapped (r.inodes ino)) (marks : r.MarksInUse files)
    (single : r.SingleUse files) : r.MapInv files := by
  have size : r.fs.blockBitmap.fin < r.fs.geo.blocksCount := by
    have := mounted.fin
    have := mounted.first
    omega
  have at_entry : ∀ ino ∈ files, ∀ p, OnPath r.fs.geo p →
      reach r.fs.entry (r.inodes ino).block p = r.blockAt ino p := by
    intro ino file p fits
    refine reach_congr (fun _ _ => rfl) ?_ fits
    intro q i fq _ _ there
    have taken := marks.blocks ino file q fq there
    exact (pointer_eq sound (taken.2.1.trans_lt size) i).symm
  constructor
  case mapped => exact mapped
  case tree =>
    intro ino file
    refine ⟨sound, size, marks.boot, ?_, ?_⟩
    · intro p q fp fq there eq
      rw [at_entry ino file p fp] at there eq
      rw [at_entry ino file q fq] at eq
      exact (single ino file ino file p q fp fq there eq).2
    · intro p fits there
      rw [at_entry ino file p fits] at there ⊢
      exact marks.blocks ino file p fits there
  case apart =>
    intro i hi j hj ne p q fp fq there eq
    rw [at_entry i hi p fp] at there eq
    rw [at_entry j hj q fq] at eq
    exact ne (single i hi j hj p q fp fq there eq).1

end MapRun

/-- On a device of at most 4 GiB no block gets a second use. -/
theorem bmap_single_use_runs {files : Set Nat} {r r' : MapRun} {calls : List BmapCall}
    (mounted : r.fs.BlocksMounted) (log : r.fs.geo.logBlockSize ≤ 6)
    (small : r.fs.geo.blocksCount * r.fs.geo.blksize ≤ 4294967296)
    (mapped : ∀ ino ∈ files, BlockMapped (r.inodes ino)) (marks : r.MarksInUse files)
    (single : r.SingleUse files)
    (run : Run (Guarded (fun _ call => call.ino ∈ files) (graph MapRun.step)) r calls r') :
    r'.SingleUse files := by
  refine (run.invariant (I := fun r : MapRun => r.MapInv files) ?_
    (MapRun.mapInv_of_singleUse mounted ⟨log, small⟩ mapped marks single)).singleUse
  rintro r call _ h ⟨file, rfl⟩
  exact h.step file

theorem MapRun.blockAt_empty {r : MapRun} {ino : Nat} (empty : (r.inodes ino).block = fun _ => 0)
    (p : List Nat) : r.blockAt ino p = 0 := by
  unfold MapRun.blockAt
  rw [empty]
  cases p with
  | nil => rfl
  | cons k p => exact walk_zero _ p

theorem blockMapped_of_flags {inode : Ext2Inode} (flags : inode.flags = 0) : BlockMapped inode := by
  constructor <;> rw [flags] <;> decide

/-- Two files without blocks. -/
def emptyFiles : MapRun := ⟨smallFilesystem, smallFilesystem.inodes⟩

/-- Each of the two files gets its first block. -/
theorem bmap_single_use_runs_at : ∃ r : MapRun, r.blockAt 3 [0] = 4 ∧ r.blockAt 4 [0] = 5 ∧
    r.SingleUse ({3, 4} : Set Nat) := by
  have run : Run (Guarded (fun _ call => call.ino ∈ ({3, 4} : Set Nat)) (graph MapRun.step))
      emptyFiles [⟨3, 0, false, true⟩, ⟨4, 0, true, false⟩] _ :=
    .cons ⟨.inl rfl, rfl⟩ (.cons ⟨.inr rfl, rfl⟩ (.nil _))
  have empty (ino : Nat) (p : List Nat) : emptyFiles.blockAt ino p = 0 :=
    MapRun.blockAt_empty rfl p
  refine ⟨_, by decide +kernel, by decide +kernel, bmap_single_use_runs
    ⟨by decide, by decide, by decide, by decide, rfl, rfl, by decide⟩ (by decide) (by decide)
    (fun _ _ => blockMapped_of_flags rfl) ⟨fun ino _ p _ there => absurd (empty ino p) there, nofun⟩
    (fun i _ _ _ p _ _ _ there _ => absurd (empty i p) there) run⟩

/-- A device of 4 GiB and 100 blocks more, on which the last two free blocks are 4194354 and
4194355. Inode 11 has the indirect block 50, and the twelfth block of inode 12 is 4194353. -/
def largeDevice : MapRun where
  fs :=
    { smallFilesystem with
      geo :=
        { smallFilesystem.geo with
          blocksCount := 4194404
          blocksPerGroup := 8192
          inodesCount := 2052
          groupDescCount := 513 }
      blockBitmap := ⟨1, 4194403, fun b => b != 4194354 && b != 4194355⟩ }
  inodes ino :=
    { smallFilesystem.inodes ino with
      block := fun k =>
        if ino = 11 ∧ k = 12 then 50 else if ino = 12 ∧ k = 11 then 4194353 else 0 }

theorem largeDevice_blockAt {ino : Nat} {p : List Nat} (there : largeDevice.blockAt ino p ≠ 0) :
    ino = 11 ∧ p = [12] ∧ largeDevice.blockAt ino p = 50 ∨
      ino = 12 ∧ p = [11] ∧ largeDevice.blockAt ino p = 4194353 := by
  cases p with
  | nil => exact absurd rfl there
  | cons k p =>
    cases p with
    | nil =>
      have slot : largeDevice.blockAt ino [k] =
          if ino = 11 ∧ k = 12 then 50 else if ino = 12 ∧ k = 11 then 4194353 else 0 := rfl
      rw [slot] at there ⊢
      by_cases first : ino = 11 ∧ k = 12
      · simp [first]
      · by_cases second : ino = 12 ∧ k = 11
        · simp [second]
        · simp [first, second] at there
    | cons i p =>
      have flat (b : Nat) : largeDevice.fs.pointer b i = 0 := rfl
      have gone : largeDevice.blockAt ino (k :: i :: p) = 0 := by
        rw [MapRun.blockAt, reach_cons, walk, flat, walk_zero, ite_self]
      exact absurd gone there

/-- The blocks 50 and 4194354 have the same place on the device. -/
theorem indirect_blocks_alias : ¬∀ (files : Set Nat) (r r' : MapRun) (calls : List BmapCall),
    r.fs.BlocksMounted → r.fs.geo.logBlockSize ≤ 6 → (∀ n, r.fs.fault n = none) →
      (∀ ino ∈ files, BlockMapped (r.inodes ino)) → r.MarksInUse files → r.SingleUse files →
        Run (Guarded (fun _ call => call.ino ∈ files) (graph MapRun.step)) r calls r' →
          r'.SingleUse files := by
  intro claim
  have marks : largeDevice.MarksInUse ({11, 12} : Set Nat) := by
    refine ⟨fun ino _ p _ there => ?_, nofun⟩
    rcases largeDevice_blockAt there with ⟨-, -, at_slot⟩ | ⟨-, -, at_slot⟩ <;> rw [at_slot]
    all_goals exact ⟨by decide, by decide, by decide⟩
  have single : largeDevice.SingleUse ({11, 12} : Set Nat) := by
    intro i _ j _ p q _ _ there eq
    rcases largeDevice_blockAt there with ⟨hi, hp, at_p⟩ | ⟨hi, hp, at_p⟩ <;>
      rcases largeDevice_blockAt (eq ▸ there) with ⟨hj, hq, at_q⟩ | ⟨hj, hq, at_q⟩
    · exact ⟨hi.trans hj.symm, hp.trans hq.symm⟩
    · rw [at_p, at_q] at eq
      exact absurd eq (by decide)
    · rw [at_p, at_q] at eq
      exact absurd eq (by decide)
    · exact ⟨hi.trans hj.symm, hp.trans hq.symm⟩
  have used := claim {11, 12} largeDevice _ [⟨12, 12, false, true⟩]
    ⟨by decide, by decide, by decide, by decide, rfl, rfl, by decide⟩ (by decide) (fun _ => rfl)
    (fun _ _ => blockMapped_of_flags rfl) marks single (.cons ⟨.inr rfl, rfl⟩ (.nil _))
  have places : ∀ g : Geometry, OnPath g [12, 0] := fun g =>
    ⟨by decide, by decide, by simpa using g.addrPerBlock_pos⟩
  exact absurd (used 11 (.inl rfl) 12 (.inr rfl) [12, 0] [12, 0] (places _) (places _)
    (by decide +kernel) (by decide +kernel)).1 (by decide)

end Os0
