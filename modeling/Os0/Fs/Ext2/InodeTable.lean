import Os0.Fs.Ext2.Tree

/-! The inode table and its cache: a read of an inode gives what is on the device, and an
update reaches both the device and the cache. -/
namespace Os0

open Bytes Cmd Function List Option

/-- `ino` is the number of an inode whose group has its table in place. -/
structure InodeOk (fs : Ext2Filesystem) (ino : Nat) : Prop where
  pos : ino ≠ 0
  count : ino ≤ fs.geo.inodesCount
  group : (ino - 1) / fs.geo.inodesPerGroup ≤ fs.geo.groupDescCount
  table : fs.tableInRange ((ino - 1) / fs.geo.inodesPerGroup) = true

/-- Every slot in use holds the inode on the device, and no inode has two slots. -/
structure CacheOk (fs : Ext2Filesystem) : Prop where
  holds : ∀ (k : Nat) (e : Nat × Ext2Inode), fs.icache[k]? = some e → e.1 ≠ 0 →
    e.2 = fs.inodes e.1
  once : ∀ (j k : Nat) (d e : Nat × Ext2Inode), fs.icache[j]? = some d →
    fs.icache[k]? = some e → d.1 ≠ 0 → d.1 = e.1 → j = k

variable {fs t : Ext2Filesystem}

variable {ino : Nat}

theorem InodeOk.stays (h : InodeOk fs ino) (stays : Stays fs t) : InodeOk t ino where
  pos := h.pos
  count := stays.geo ▸ h.count
  group := stays.geo ▸ h.group
  table := by
    have table := h.table
    unfold Ext2Filesystem.tableInRange at table ⊢
    rw [stays.geo, stays.tables]
    exact table

theorem CacheOk.congr (h : CacheOk fs) (icache : t.icache = fs.icache)
    (inodes : t.inodes = fs.inodes) : CacheOk t where
  holds := by
    rw [icache, inodes]
    exact h.holds
  once := by
    rw [icache]
    exact h.once

/-- `t` is `fs` with another cache. -/
def Recached (fs t : Ext2Filesystem) : Prop :=
  ∃ n c k, t = { fs with ops := n, icache := c, icacheNext := k }

theorem CacheOk.set (h : CacheOk fs) {k : Nat} {inode : Ext2Inode}
    (icache : t.icache = fs.icache.set k (ino, inode))
    (inodes : t.inodes = update fs.inodes ino inode)
    (other : ∀ (j : Nat) (e : Nat × Ext2Inode), j ≠ k → fs.icache[j]? = some e → e.1 ≠ 0 →
      e.1 ≠ ino) :
    CacheOk t := by
  have slot : ∀ (j : Nat) (e : Nat × Ext2Inode), t.icache[j]? = some e →
      j = k ∧ e = (ino, inode) ∨ j ≠ k ∧ fs.icache[j]? = some e := by
    intro j e he
    rw [icache, getElem?_set] at he
    by_cases hj : k = j
    · rw [if_pos hj] at he
      by_cases bound : k < fs.icache.length
      · rw [if_pos bound] at he
        exact .inl ⟨hj.symm, (some.inj he).symm⟩
      · rw [if_neg bound] at he
        cases he
    · rw [if_neg hj] at he
      exact .inr ⟨fun eq => hj eq.symm, he⟩
  constructor
  · intro j e he used
    rw [inodes]
    rcases slot j e he with ⟨-, rfl⟩ | ⟨hj, old⟩
    · exact (update_self ino inode fs.inodes).symm
    · rw [update_of_ne (other j e hj old used)]
      exact h.holds j e old used
  · intro i j d e hd he used same
    rcases slot i d hd with ⟨rfl, rfl⟩ | ⟨hi, oldD⟩
    · rcases slot j e he with ⟨rfl, -⟩ | ⟨hj, oldE⟩
      · rfl
      · exact absurd same.symm (other j e hj oldE (same ▸ used))
    · rcases slot j e he with ⟨rfl, rfl⟩ | ⟨hj, oldE⟩
      · exact absurd same (other i d hi oldD used)
      · exact h.once i j d e oldD oldE used same

theorem ext2ReadInode_ends (ok : InodeOk fs ino) (cache : CacheOk fs) :
    Ends (ext2ReadInode ino) fs
      (fun inode t => inode = fs.inodes ino ∧ Recached fs t ∧ CacheOk t)
      (fun e _ => e.Outside) := by
  apply ends_bind
  apply ends_get
  have inRange : ¬(ino = 0 ∨ fs.geo.inodesCount < ino) := by
    have := ok.pos
    have := ok.count
    omega
  rw [if_neg inRange]
  cases found : fs.icache.find? fun e => e.1 = ino with
  | some e =>
    have number : e.1 = ino := by simpa using find?_some found
    obtain ⟨k, hk⟩ := getElem?_of_mem (mem_of_find?_eq_some found)
    apply ends_pure
    refine ⟨?_, ⟨_, _, _, rfl⟩, cache⟩
    rw [cache.holds k e hk (number ▸ ok.pos), number]
  | none =>
    simp only
    rw [if_neg (not_lt.2 ok.group), if_neg (by simp [ok.table])]
    apply ends_bind
    apply (deviceOp_ends fs).imp
    rintro _ t ⟨n, rfl⟩
    apply ends_bind
    apply ends_modify
    apply ends_pure
    have same : fs.inodes = update fs.inodes ino (fs.inodes ino) :=
      (update_eq_self ino fs.inodes).symm
    refine ⟨rfl, ⟨_, _, _, rfl⟩, cache.set rfl same ?_⟩
    intro j e _ he _
    simpa using find?_eq_none.1 found e (mem_of_getElem? he)

end Os0
