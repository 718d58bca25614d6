import Os0.Fs.Ext2.FreeInodes

/-! The searches for a free block and for a free inode: whether they find one if there is one. -/
namespace Os0

open Cmd

theorem firstClear_used {bit : Nat → Bool} {n start c : Nat} (low : start ≤ c)
    (before : c < (firstClear bit n start).getD (start + n)) : bit c = true := by
  induction n generalizing start with
  | zero =>
    have below : c < start := before
    omega
  | succ n ih =>
    unfold firstClear at before
    split at before
    case isTrue set =>
      rcases Nat.eq_or_lt_of_le low with rfl | later
      · exact set
      · exact ih later (by rwa [Nat.succ_add_eq_add_succ])
    case isFalse =>
      have below : c < start := before
      omega

theorem ext2FindFirstZeroBitmap_cases {m : Bitmap32} {start fin : Nat} (low : m.start ≤ start)
    (le : start ≤ fin) (high : fin ≤ m.fin) (narrow : m.fin ≤ 0xffffffff) :
    (∃ b, ext2FindFirstZeroBitmap m start fin = .ok b ∧ start ≤ b ∧ b ≤ fin ∧ m.bit b = false ∧
      ∀ c, start ≤ c → c < b → m.bit c = true) ∨
    (ext2FindFirstZeroBitmap m start fin = .error .ENOENT ∧
      ∀ c, start ≤ c → c ≤ fin → m.bit c = true) := by
  unfold ext2FindFirstZeroBitmap
  rw [if_neg (by omega), if_neg (by omega)]
  have used := @firstClear_used m.bit (fin + 1 - start) start
  cases search : firstClear m.bit (fin + 1 - start) start with
  | some b =>
    obtain ⟨first, last, clear⟩ := firstClear_some search
    rw [search] at used
    exact .inl ⟨b, rfl, first, by omega, clear, @used⟩
  | none =>
    rw [search, Option.getD_none] at used
    exact .inr ⟨rfl, fun c first last => used first (by omega)⟩

/-! ## Blocks -/

namespace Ext2Filesystem

variable {fs : Ext2Filesystem}

/-- No block is free. -/
def Full (fs : Ext2Filesystem) : Prop := ∀ b ∈ fs.geo.allBlocks, fs.blockBitmap.bit b = true

/-- A free block, the first one from a goal in range on if there is one there. -/
def Suits (fs : Ext2Filesystem) (goal b : Nat) : Prop :=
  b ∈ fs.geo.allBlocks ∧ fs.blockBitmap.bit b = false ∧
    (goal ∈ fs.geo.allBlocks → ∀ c ∈ fs.geo.allBlocks, goal ≤ c → fs.blockBitmap.bit c = false →
      goal ≤ b ∧ b ≤ c)

/-- What a search for a block is to find. -/
def FindsBlock (fs : Ext2Filesystem) (goal : Nat) : Prop :=
  Ends (ext2NewBlock goal) fs (fun b _ => fs.Suits goal b) fun _ _ => fs.Full

theorem findsBlock_iff {goal : Nat} : fs.FindsBlock goal ↔
    match ext2NewBlockIn fs.geo fs.blockBitmap goal with
    | .ok b => fs.Suits goal b
    | .error _ => fs.Full := by
  unfold FindsBlock ext2NewBlock
  rw [Ends, get_bind]
  cases ext2NewBlockIn fs.geo fs.blockBitmap goal <;> rfl

/-- The search is complete from a goal in range, and it fails from any other. -/
theorem new_block_complete_iff (h : fs.BlocksMounted) (goal : Nat) :
    fs.FindsBlock goal ↔ fs.geo.blockGoal goal ∈ fs.geo.allBlocks ∨ fs.Full := by
  obtain ⟨-, _, -, -, _, _, narrow⟩ := h
  have inside {b : Nat} : b ∈ fs.geo.allBlocks ↔ fs.geo.firstDataBlock ≤ b ∧ b < fs.geo.blocksCount :=
    Finset.mem_Ico
  have same (range : goal ∈ fs.geo.allBlocks) : fs.geo.blockGoal goal = goal := by
    rw [inside] at range
    unfold Geometry.blockGoal
    split
    · have zero : goal = 0 := by omega
      simp [zero]
    · rfl
  rw [findsBlock_iff, ext2NewBlockIn]
  generalize fs.geo.blockGoal goal = from_ at same
  by_cases range : from_ ∈ fs.geo.allBlocks
  · refine iff_of_true ?_ (.inl range)
    rw [inside] at range
    rcases @ext2FindFirstZeroBitmap_cases fs.blockBitmap from_ (fs.geo.blocksCount - 1) (by omega)
      (by omega) (by omega) narrow with ⟨b, found, low, high, clear, least⟩ | ⟨none, used⟩
    · rw [found]
      refine ⟨inside.2 ⟨by omega, by omega⟩, clear, fun goal_in c _ le free => ?_⟩
      rw [← same goal_in] at le ⊢
      refine ⟨low, ?_⟩
      by_contra later
      simp [least c le (by omega)] at free
    · rw [none]
      by_cases more : from_ ≠ fs.geo.firstDataBlock
      · have back : (from_ + 18446744073709551615) % 18446744073709551616 = from_ - 1 := by omega
        rw [if_pos more, back]
        rcases @ext2FindFirstZeroBitmap_cases fs.blockBitmap fs.geo.firstDataBlock (from_ - 1)
          (by omega) (by omega) (by omega) narrow with ⟨b, found, low, high, clear, -⟩ | ⟨none', used'⟩
        · rw [found]
          refine ⟨inside.2 ⟨by omega, by omega⟩, clear, fun goal_in c c_in le free => ?_⟩
          rw [← same goal_in] at le
          rw [inside] at c_in
          simp [used c le (by omega)] at free
        · rw [none']
          intro b b_in
          rw [inside] at b_in
          by_cases low : b < from_
          · exact used' b b_in.1 (by omega)
          · exact used b (by omega) (by omega)
      · rw [if_neg more]
        intro b b_in
        rw [inside] at b_in
        exact used b (by omega) (by omega)
  · have refused : ext2FindFirstZeroBitmap fs.blockBitmap from_ (fs.geo.blocksCount - 1) =
        .error .EINVAL := by
      rw [inside] at range
      unfold ext2FindFirstZeroBitmap
      split
      · rfl
      · rw [if_pos (by omega)]
    rw [refused]
    simp [range]

end Ext2Filesystem

/-- From block 4 on, block 4 is the first free one. -/
theorem new_block_complete_at : smallFilesystem.FindsBlock 2 :=
  (Ext2Filesystem.new_block_complete_iff
    ⟨by decide, by decide, by decide, by decide, rfl, rfl, by decide⟩ 2).2 (.inl (by decide))

/-- Block 0 lies before the first data block, and the search from there fails at once. -/
theorem new_block_refused : ¬∀ (fs : Ext2Filesystem) (goal : Nat),
    fs.BlocksMounted → fs.FindsBlock goal := by
  intro claim
  have full : smallFilesystem.Full := Ext2Filesystem.findsBlock_iff.1
    (claim smallFilesystem 0 ⟨by decide, by decide, by decide, by decide, rfl, rfl, by decide⟩)
  exact absurd (full 4 (by decide)) (by decide)

/-! ## Inodes -/

namespace Ext2Filesystem

variable {fs : Ext2Filesystem} {start i : Nat}

/-- How many inodes the loop has before it at most. -/
def ahead (fs : Ext2Filesystem) (start i : Nat) : Nat :=
  if start ≤ i then fs.geo.inodesCount + 1 - i + start else start - i

section Round

variable {t u : Ext2Filesystem} {fuel ino : Nat}
  (check : ext2CheckInodeUninit t (t.geo.groupOfInode i) = u)
include check

end Round

end Ext2Filesystem

end Os0
