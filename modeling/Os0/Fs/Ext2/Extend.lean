import Os0.Fs.Ext2.BmapSpec

/-! What an allocating call of `ext2_bmap` does to the tree of its inode and to the blocks
outside of it when it may fail half way: the blocks it leaves behind are then marked in the
bitmap and belong to no tree, or to the tree of its inode only. -/
namespace Os0

open Bytes PtrTree Cmd Function

section

variable {fs t u : Ext2Filesystem} {roots roots' roots'' : Nat → Nat} {p q : List Nat} {r : Nat}

/-! ## What leaves the blocks alone -/

/-- The blocks and their bitmap are as before. -/
structure Untouched (fs t : Ext2Filesystem) : Prop extends Stays fs t where
  dev : t.dev = fs.dev
  bitmap : t.blockBitmap = fs.blockBitmap

variable {b : Nat}

theorem Untouched.trans (h : Untouched fs t) (k : Untouched t u) : Untouched fs u :=
  ⟨h.toStays.trans k.toStays, k.dev.trans h.dev, k.bitmap.trans h.bitmap⟩

theorem Idle.untouched (h : Idle fs t) : Untouched fs t := by
  obtain ⟨n, rfl⟩ := h
  exact ⟨(Idle.keeps ⟨n, rfl⟩).toStays, rfl, rfl⟩

section

variable (fs : Ext2Filesystem)

variable (ino : Nat)

theorem deviceOp_idle : Ends deviceOp fs (fun _ t => Idle fs t) (fun _ t => Idle fs t) := by
  unfold Ends deviceOp
  cases fs.fault fs.ops with
  | none => exact ⟨_, rfl⟩
  | some e => exact ⟨_, rfl⟩

theorem kmallocOp_idle : Ends kmallocOp fs (fun _ t => Idle fs t) (fun _ t => Idle fs t) := by
  unfold Ends kmallocOp
  cases fs.fault fs.ops with
  | none => exact ⟨_, rfl⟩
  | some e => exact ⟨_, rfl⟩

theorem ext2ReadInode_untouched :
    Ends (ext2ReadInode ino) fs (fun _ t => Untouched fs t) (fun _ t => Untouched fs t) := by
  have same : Untouched fs fs := Idle.untouched ⟨_, rfl⟩
  apply ends_bind
  apply ends_get
  split
  · exact ends_fail same
  · split
    · exact ends_pure same
    · dsimp only
      split
      · exact ends_fail same
      · split
        · exact ends_fail same
        · apply ends_bind
          refine (deviceOp_idle fs).mono ?_ fun _ _ idle => idle.untouched
          rintro _ t ⟨n, rfl⟩
          apply ends_bind
          apply ends_modify
          exact ends_pure ⟨⟨rfl, rfl, rfl, rfl, rfl, rfl, rfl, fun _ => rfl⟩, rfl, rfl⟩

theorem ext2UpdateInode_untouched (inode : Ext2Inode) :
    Ends (ext2UpdateInode ino inode) fs (fun _ t => Untouched fs t)
      (fun _ t => Untouched fs t) := by
  have same : Untouched fs fs := Idle.untouched ⟨_, rfl⟩
  apply ends_bind
  apply ends_get
  split
  · exact ends_fail same
  · apply ends_bind
    refine (kmallocOp_idle fs).mono ?_ fun _ _ idle => idle.untouched
    intro _ fs₁ idle
    have first := idle.untouched
    apply ends_bind
    have read : Ends (Cmd.when (128 < fs.geo.inodeSize) (ext2ReadInode ino >>= fun _ => pure ()))
        fs₁ (fun _ t => Untouched fs t) (fun _ t => Untouched fs t) := by
      apply ends_when
      · intro _
        apply ends_bind
        refine (ext2ReadInode_untouched fs₁ ino).mono ?_ fun _ _ h => first.trans h
        intro _ _ h
        exact ends_pure (first.trans h)
      · intro _
        exact first
    apply read.imp
    intro _ fs₂ second
    apply ends_bind
    apply ends_modify
    have third : Untouched fs { fs₂ with icache := cacheInode ino inode fs₂.icache } :=
      second.trans ⟨⟨rfl, rfl, rfl, rfl, rfl, rfl, rfl, fun _ => rfl⟩, rfl, rfl⟩
    dsimp only
    split
    · exact ends_fail third
    · apply ends_bind
      refine (deviceOp_idle _).mono ?_ fun _ _ idle => third.trans idle.untouched
      intro _ _ idle
      apply ends_bind
      refine (deviceOp_idle _).mono ?_ fun _ _ idle' =>
        third.trans (idle.untouched.trans idle'.untouched)
      intro _ _ idle'
      exact ends_modify ((third.trans (idle.untouched.trans idle'.untouched)).trans
        ⟨⟨rfl, rfl, rfl, rfl, rfl, rfl, rfl, fun _ => rfl⟩, rfl, rfl⟩)

end

/-- An allocation that fails takes no block. -/
theorem ext2AllocBlock_either (sound : fs.geo.Sound)
    (size : fs.blockBitmap.fin < fs.geo.blocksCount) (goal : Nat) :
    Ends (ext2AllocBlock goal) fs (fun b t => Keeps fs t ∧ Allocated fs t b)
      (fun _ t => Untouched fs t) := by
  have found := ext2AllocBlock_ends sound size goal
  have fails : Ends (ext2AllocBlock goal) fs (fun _ _ => True) (fun _ t => Untouched fs t) := by
    apply ends_bind
    refine (ext2NewBlock_ends fs goal).mono ?_ ?_
    · rintro b - ⟨rfl, -⟩
      have cleared : Untouched fs (ext2ClearBlockUninit fs (fs.geo.groupOfBlock b)) :=
        ⟨(keeps_clearBlockUninit fs _).toStays, (clearBlockUninit_blocks fs _).1,
          (clearBlockUninit_blocks fs _).2⟩
      apply ends_bind
      refine Ends.mono (Q := fun _ _ => True) (R := fun _ t => Idle _ t) ?_ ?_
        fun _ _ idle => cleared.trans idle.untouched
      · apply ends_bind
        refine (deviceOp_idle _).imp fun _ _ _ => ?_
        exact ends_modify trivial
      · intro _ _ _
        apply ends_bind
        exact ends_modify (ends_pure trivial)
    · rintro e t ⟨-, rfl⟩
      exact Idle.untouched ⟨_, rfl⟩
  exact (found.and fails).mono (fun _ _ h => h.1) fun _ _ h => h.2

/-! ## One tree -/

/-- From `fs` to `t` the tree got no blocks but free ones, and no block of another tree was
written. -/
structure Extends (fs t : Ext2Filesystem) (roots roots' : Nat → Nat) : Prop where
  stays : Stays fs t
  tree : Tree t roots'
  fresh : ∀ q, OnPath fs.geo q → reach t.entry roots' q ≠ 0 →
    reach t.entry roots' q = reach fs.entry roots q ∨
      fs.blockBitmap.bit (reach t.entry roots' q) = false
  marks : ∀ b, fs.blockBitmap.bit b = true → t.blockBitmap.bit b = true
  kept : ∀ b, b ≠ 0 → fs.Taken b → (∀ q, OnPath fs.geo q → reach fs.entry roots q ≠ b) →
    ∀ i, i < fs.geo.blksize → t.byte b i = fs.byte b i

theorem Extends.taken (h : Extends fs t roots roots') (taken : fs.Taken b) : t.Taken b :=
  ⟨h.stays.start ▸ taken.1, h.stays.fin ▸ taken.2.1, h.marks b taken.2.2⟩

theorem Extends.trans (h : Extends fs t roots roots') (k : Extends t u roots' roots'') :
    Extends fs u roots roots'' := by
  have geo := h.stays.geo
  refine ⟨h.stays.trans k.stays, k.tree, ?_, fun b hb => k.marks b (h.marks b hb), ?_⟩
  · intro q fits there
    rcases k.fresh q (geo ▸ fits) there with same | free
    · rw [same] at there ⊢
      exact h.fresh q fits there
    · right
      by_contra marked
      rw [h.marks _ (by simpa using marked)] at free
      cases free
  · intro b nonzero taken off i hi
    rw [k.kept b nonzero (h.taken taken) ?_ i (geo ▸ hi), h.kept b nonzero taken off i hi]
    intro q fits eq
    rw [geo] at fits
    rcases h.fresh q fits (eq ▸ nonzero) with same | free
    · exact off q fits (same.symm.trans eq)
    · rw [eq, taken.2.2] at free
      cases free

/-- Both trees reach the same blocks, and more blocks may be marked. -/
theorem Tree.congr (tree : Tree fs roots) (stays : Stays fs t)
    (marks : ∀ b, fs.blockBitmap.bit b = true → t.blockBitmap.bit b = true)
    (same : ∀ q, OnPath fs.geo q → reach t.entry roots' q = reach fs.entry roots q) :
    Tree t roots' := by
  refine ⟨stays.geo ▸ tree.sound, ?_, ?_, ?_, ?_⟩
  · rw [stays.fin, stays.geo]
    exact tree.size
  · rw [stays.start]
    exact fun start => marks 0 (tree.reserved start)
  · rw [stays.geo]
    intro q q' fits fits' there eq
    rw [same q fits] at there eq
    rw [same q' fits'] at eq
    exact tree.distinct q q' fits fits' there eq
  · intro q fits there
    rw [stays.geo] at fits
    rw [same q fits] at there ⊢
    obtain ⟨low, high, marked⟩ := tree.taken q fits there
    exact ⟨stays.start ▸ low, stays.fin ▸ high, marks _ marked⟩

theorem Untouched.extends (h : Untouched fs t) (tree : Tree fs roots) :
    Extends fs t roots roots := by
  have same : ∀ q, OnPath fs.geo q → reach t.entry roots q = reach fs.entry roots q := by
    intro q _
    have entry : t.entry = fs.entry := by
      funext b i
      rw [Ext2Filesystem.entry, h.dev, h.geo]
      rfl
    rw [entry]
  have marks : ∀ b, fs.blockBitmap.bit b = true → t.blockBitmap.bit b = true := by
    rw [h.bitmap]
    exact fun _ => id
  refine ⟨h.toStays, tree.congr h.toStays marks same, fun q fits _ => .inl (same q fits), marks, ?_⟩
  intro b _ _ _ i _
  rw [Ext2Filesystem.byte, h.dev, h.geo]
  rfl

theorem Adds.extends (h : Adds fs t roots roots' p r) : Extends fs t roots roots' where
  stays := h.keeps.toStays
  tree := h.tree
  fresh q fits _ := by
    rw [h.reach q fits]
    split_ifs with eq
    · rw [eq]
      exact h.new.imp Eq.symm id
    · exact .inl rfl
  marks := h.marks
  kept b _ taken off := h.kept b taken fun q fits _ => off q fits

/-- A block that was allocated and then found no place. -/
theorem Allocated.extends (tree : Tree fs roots) (keeps : Keeps fs t) (alloc : Allocated fs t r) :
    Extends fs t roots roots := by
  have same : ∀ q, OnPath fs.geo q → reach t.entry roots q = reach fs.entry roots q := by
    intro q fits
    refine reach_congr (fun _ _ => rfl) ?_ fits
    intro q j fq _ hj _
    rw [alloc.entry keeps hj, if_neg (alloc.fresh tree fq)]
  have marks : ∀ b, fs.blockBitmap.bit b = true → t.blockBitmap.bit b = true :=
    fun b hb => alloc.marks hb
  refine ⟨keeps.toStays, tree.congr keeps.toStays marks same, ?_, marks, ?_⟩
  · intro q fits _
    exact .inl (same q fits)
  · intro b _ taken _ i hi
    rw [alloc.byte keeps hi, if_neg (alloc.ne_of_taken taken)]

theorem Tree.store_leaf (tree : Tree fs roots) (fits : OnPath fs.geo p)
    (leaf : Leaf slotDepth p) (buffer : Mem) :
    Extends fs (fs.store (reach fs.entry roots p) buffer) roots roots := by
  have stays := (keeps_store fs (reach fs.entry roots p) buffer).toStays
  have same : ∀ q, OnPath fs.geo q →
      reach (fs.store (reach fs.entry roots p) buffer).entry roots q = reach fs.entry roots q := by
    intro q fq
    refine reach_congr (fun _ _ => rfl) ?_ fq
    intro q j fq inner hj there
    rw [Ext2Filesystem.entry_store hj, if_neg]
    intro eq
    rw [tree.distinct q p fq fits there eq] at inner
    exact inner.not_leaf leaf
  refine ⟨stays, tree.congr stays (fun _ => id) same, ?_, fun _ => id, ?_⟩
  · intro q fits _
    exact .inl (same q fits)
  · intro b _ _ off i hi
    rw [Ext2Filesystem.byte_store hi, if_neg (off p fits).symm]

/-! ## Following a path -/

theorem ext2ReadBlock_either (sound : fs.geo.Sound) (hb : b < fs.geo.blocksCount) :
    Ends (ext2ReadBlock b) fs (fun buffer t => Idle fs t ∧ buffer = fs.byte b)
      (fun _ t => Idle fs t) := by
  have fails : Ends (ext2ReadBlock b) fs (fun _ _ => True) (fun _ t => Idle fs t) := by
    apply ends_bind
    exact (deviceOp_idle fs).imp fun _ _ _ => trivial
  exact ((ext2ReadBlock_ends sound hb).and fails).mono (fun _ _ h => h.1) fun _ _ h => h.2

theorem ext2WriteBlock_either (sound : fs.geo.Sound) (hb : b < fs.geo.blocksCount) (buffer : Mem) :
    Ends (ext2WriteBlock buffer b) fs (fun _ t => Idle (fs.store b buffer) t)
      (fun _ t => Idle fs t) := by
  have fails : Ends (ext2WriteBlock buffer b) fs (fun _ _ => True) (fun _ t => Idle fs t) := by
    apply ends_bind
    exact (deviceOp_idle fs).imp fun _ _ _ => trivial
  exact ((ext2WriteBlock_ends sound hb buffer).and fails).mono (fun _ _ h => h.1) fun _ _ h => h.2

theorem ext2ZeroBlock_extends (tree : Tree fs roots) (fits : OnPath fs.geo p)
    (leaf : Leaf slotDepth p) (there : reach fs.entry roots p ≠ 0) :
    Ends (ext2ZeroBlock (reach fs.entry roots p)) fs (fun _ t => Extends fs t roots roots)
      (fun _ t => Extends fs t roots roots) := by
  apply ends_bind
  refine (kmallocOp_idle fs).mono ?_ fun _ _ idle => idle.untouched.extends tree
  intro _ t idle
  have first := idle.untouched.extends tree
  have lt : reach fs.entry roots p < t.geo.blocksCount := idle.keeps.geo ▸ tree.lt fits there
  refine (ext2WriteBlock_either first.tree.sound lt _).mono ?_
    fun _ _ h => first.trans (h.untouched.extends first.tree)
  intro _ u idle'
  have stored := first.tree.store_leaf (idle.keeps.geo ▸ fits) leaf fun _ => 0
  rw [idle.entry] at stored
  exact first.trans (stored.trans (idle'.untouched.extends stored.tree))

/-- `c` returns the block at the end of `p`; whatever happens, it only extends the tree. -/
def Follows (c : FsCmd Nat) (fs : Ext2Filesystem) (roots : Nat → Nat) (p : List Nat) : Prop :=
  Ends c fs (fun r t => Extends fs t roots roots ∧ reach t.entry roots p = r ∧ r ≠ 0)
    (fun _ t => Extends fs t roots roots)

theorem follows_bind {c : FsCmd Nat} {f : Nat → FsCmd Nat} (first : Follows c fs roots p)
    (next : ∀ t, Extends fs t roots roots → reach t.entry roots p ≠ 0 →
      Follows (f (reach t.entry roots p)) t roots q) : Follows (c >>= f) fs roots q := by
  apply ends_bind
  apply first.imp
  rintro _ t ⟨extends₁, rfl, there⟩
  refine (next t extends₁ there).mono ?_ fun _ _ extends₂ => extends₁.trans extends₂
  rintro r u ⟨extends₂, at_end⟩
  exact ⟨extends₁.trans extends₂, at_end⟩

section

variable (flags : BmapFlags) (alloc : flags.alloc = true) (set : flags.set = false)
  (tree : Tree fs roots) (fits : OnPath fs.geo p) (inner : Inner slotDepth p)
  (there : reach fs.entry roots p ≠ 0)
include alloc set tree fits inner there

variable {n : Nat}

theorem blockIndBmap_follows {i : Nat} (hi : i < fs.geo.addrPerBlock) (result : Nat) :
    Follows (blockIndBmap flags (reach fs.entry roots p) i result) fs roots (p ++ [i]) := by
  have hp : p ≠ [] := by
    rintro rfl
    exact fits
  have fits' : OnPath fs.geo (p ++ [i]) := Fits.concat fits inner hi
  have lt := tree.lt fits there
  have child : reach fs.entry roots (p ++ [i]) = fs.entry (reach fs.entry roots p) i := by
    rw [reach_concat _ _ hp, if_neg there]
  unfold Follows blockIndBmap
  simp only [alloc, set, Bool.false_eq_true, if_false, and_true]
  rw [if_neg there]
  apply ends_bind
  refine (ext2ReadBlock_either tree.sound lt).mono ?_ fun _ _ idle => idle.untouched.extends tree
  rintro _ t ⟨idle, rfl⟩
  rw [blockPtr_byte]
  by_cases hole : fs.entry (reach fs.entry roots p) i = 0
  · rw [if_pos hole]
    have read := idle.untouched.extends tree
    apply ends_bind
    refine (ext2AllocBlock_either read.tree.sound read.tree.size _).mono ?_
      fun _ _ h => read.trans (h.extends read.tree)
    rintro r u ⟨keeps, allocated⟩
    have keeps : Keeps fs u := idle.keeps.trans keeps
    have allocated := allocated.of_idle idle
    have lost := allocated.extends tree keeps
    apply ends_bind
    refine (ext2WriteBlock_either lost.tree.sound (keeps.geo ▸ lt) _).mono ?_
      fun _ _ h => lost.trans (h.untouched.extends lost.tree)
    intro _ v idle'
    have adds := adds_slot tree fits inner there hole keeps allocated idle'
    refine ends_pure ⟨adds.extends, ?_, adds.nonzero⟩
    rw [adds.reach _ fits', if_pos rfl]
  · rw [if_neg hole]
    refine ends_pure ⟨idle.untouched.extends tree, ?_, hole⟩
    rw [idle.entry, child]

theorem blockDindBmap_follows (hn : n < fs.geo.addrPerBlock * fs.geo.addrPerBlock)
    (inner' : Inner slotDepth (p ++ [n / fs.geo.addrPerBlock])) (result : Nat) :
    Follows (blockDindBmap flags (reach fs.entry roots p) n result) fs roots
      (p ++ [n / fs.geo.addrPerBlock] ++ [n % fs.geo.addrPerBlock]) := by
  have hi : n / fs.geo.addrPerBlock < fs.geo.addrPerBlock := Nat.div_lt_of_lt_mul hn
  have hj : n % fs.geo.addrPerBlock < fs.geo.addrPerBlock := Nat.mod_lt _ fs.geo.addrPerBlock_pos
  have fits' : OnPath fs.geo (p ++ [n / fs.geo.addrPerBlock]) := Fits.concat fits inner hi
  apply ends_bind
  apply ends_get
  apply follows_bind
    (blockIndBmap_follows { flags with set := false } alloc rfl tree fits inner there hi _)
  intro t h there'
  exact blockIndBmap_follows flags alloc set h.tree (h.stays.geo ▸ fits') inner' there'
    (h.stays.geo ▸ hj) result

theorem blockTindBmap_follows
    (hn : n / fs.geo.addrPerBlock < fs.geo.addrPerBlock * fs.geo.addrPerBlock)
    (inner' : Inner slotDepth (p ++ [n / fs.geo.addrPerBlock / fs.geo.addrPerBlock]))
    (inner'' : Inner slotDepth (p ++ [n / fs.geo.addrPerBlock / fs.geo.addrPerBlock] ++
      [n / fs.geo.addrPerBlock % fs.geo.addrPerBlock])) (result : Nat) :
    Follows (blockTindBmap flags (reach fs.entry roots p) n result) fs roots
      (p ++ [n / fs.geo.addrPerBlock / fs.geo.addrPerBlock] ++
        [n / fs.geo.addrPerBlock % fs.geo.addrPerBlock] ++ [n % fs.geo.addrPerBlock]) := by
  have pos := fs.geo.addrPerBlock_pos
  have fits' : OnPath fs.geo (p ++ [n / fs.geo.addrPerBlock / fs.geo.addrPerBlock] ++
      [n / fs.geo.addrPerBlock % fs.geo.addrPerBlock]) :=
    Fits.concat (Fits.concat fits inner (Nat.div_lt_of_lt_mul hn)) inner' (Nat.mod_lt _ pos)
  have hk : n % fs.geo.addrPerBlock < fs.geo.addrPerBlock := Nat.mod_lt _ pos
  apply ends_bind
  apply ends_get
  apply follows_bind (blockDindBmap_follows { flags with set := false } alloc rfl tree fits inner
    there hn inner' _)
  intro t h there'
  exact blockIndBmap_follows flags alloc set h.tree (h.stays.geo ▸ fits') inner'' there'
    (h.stays.geo ▸ hk) result

end

end

/-! ## `ext2_bmap` -/

section

variable {s t u : MapState} {ino block : Nat}

/-- The inode keeps its flags and extends its tree. -/
structure MapExtends (s t : MapState) : Prop where
  tree : Extends s.fs t.fs s.inode.block t.inode.block
  flags : t.inode.flags = s.inode.flags

variable (flags : BmapFlags)

theorem MapExtends.trans (h : MapExtends s t) (k : MapExtends t u) : MapExtends s u :=
  ⟨h.tree.trans k.tree, k.flags.trans h.flags⟩

theorem onFs_either (s : MapState) {α : Type} {c : FsCmd α} {Q : α → Ext2Filesystem → Prop}
    {R : Failure → Ext2Filesystem → Prop} (h : Ends c s.fs Q R) :
    Ends (MapState.onFs c) s (fun a t => ∃ fs, t = { s with fs := fs } ∧ Q a fs)
      (fun e t => ∃ fs, t = { s with fs := fs } ∧ R e fs) :=
  ends_zoom (h.mono (fun _ fs q => ⟨fs, rfl, q⟩) fun _ fs r => ⟨fs, rfl, r⟩)

/-- What a branch of `ext2_bmap` does, whether it fails or not. -/
def Maps (c : MapCmd (Nat × Bool)) (s : MapState) (p : List Nat) : Prop :=
  Ends c s (fun _ t => MapExtends s t ∧ t.phys = reach t.fs.entry t.inode.block p)
    (fun _ t => MapExtends s t)

section

variable (alloc : flags.alloc = true)
include alloc

theorem bmapDirect_maps
    (set : flags.set = false) (tree : Tree s.fs s.inode.block) :
    Maps (bmapDirect ino flags block) s [block] := by
  unfold Maps bmapDirect
  simp only [alloc, set, Bool.false_eq_true, if_false, and_true]
  apply ends_bind
  apply ends_get
  apply ends_bind
  apply ends_modify
  by_cases hole : s.inode.block block = 0
  · rw [if_pos hole]
    apply ends_bind
    refine (onFs_either ⟨s.fs, s.inode, s.inode.block block⟩
      (ext2AllocBlock_either tree.sound tree.size _)).mono ?_ ?_
    · rintro b _ ⟨fs, rfl, keeps, allocated⟩
      apply ends_bind
      apply ends_modify
      apply ends_bind
      apply ends_modify
      refine ends_pure ⟨⟨(adds_root tree hole keeps allocated).extends, rfl⟩, ?_⟩
      exact (update_self block b s.inode.block).symm
    · rintro e _ ⟨fs, rfl, h⟩
      exact ⟨h.extends tree, rfl⟩
  · rw [if_neg hole]
    exact ends_pure ⟨⟨Untouched.extends (Idle.untouched ⟨_, rfl⟩) tree, rfl⟩, rfl⟩

theorem bmapIndirect_maps
    (tree : Tree s.fs s.inode.block) {walk : Nat → Nat → FsCmd Nat} {k : Nat} {p : List Nat}
    (follow : ∀ fs roots, Tree fs roots → fs.geo = s.fs.geo → roots k ≠ 0 →
      Follows (walk (roots k) s.phys) fs roots p) : Maps (bmapIndirect walk k flags) s p := by
  unfold Maps bmapIndirect
  simp only [alloc, not_true_eq_false, if_false]
  apply ends_bind
  apply ends_get
  split_ifs with zero
  · apply ends_bind
    refine (onFs_either s (ext2AllocBlock_either tree.sound tree.size _)).mono ?_ ?_
    · rintro b _ ⟨fs, rfl, keeps, allocated⟩
      have adds := adds_root tree zero keeps allocated
      apply ends_bind
      apply ends_modify
      apply ends_bind
      have self : update s.inode.block k b k = b :=
        update_self k b s.inode.block
      have next := follow fs _ adds.tree keeps.geo (by rw [self]; exact adds.nonzero)
      rw [self] at next
      refine (onFs_either ⟨fs, _, s.phys⟩ next).mono ?_ ?_
      · rintro r _ ⟨fs', rfl, h, rfl, -⟩
        apply ends_bind
        apply ends_modify
        exact ends_pure ⟨⟨adds.extends.trans h, rfl⟩, rfl⟩
      · rintro e _ ⟨fs', rfl, h⟩
        exact ⟨adds.extends.trans h, rfl⟩
    · rintro e _ ⟨fs, rfl, h⟩
      exact ⟨h.extends tree, rfl⟩
  · apply ends_bind
    refine (onFs_either s (follow s.fs _ tree rfl zero)).mono ?_ ?_
    · rintro r _ ⟨fs, rfl, h, rfl, -⟩
      apply ends_bind
      apply ends_modify
      exact ends_pure ⟨⟨h, rfl⟩, rfl⟩
    · rintro e _ ⟨fs, rfl, h⟩
      exact ⟨h, rfl⟩

theorem bmapLevel_maps
    (set : flags.set = false) (tree : Tree s.fs s.inode.block)
    (small : block < s.fs.geo.maxBlocks) :
    Maps (bmapLevel ino flags s.fs.geo.addrPerBlock block) s
      (blockPath s.fs.geo.addrPerBlock block) := by
  have root : ∀ k, k < EXT2_N_BLOCKS → OnPath s.fs.geo [k] :=
    fun k hk => ⟨hk, Nat.zero_le _, by simp⟩
  apply bmapLevel_cases (P := fun c p => Maps c s p)
  · intro _
    exact bmapDirect_maps flags alloc set tree
  · intro n hn
    apply bmapIndirect_maps flags alloc tree
    intro fs roots tree' geo there
    rw [← geo] at hn root
    exact blockIndBmap_follows flags alloc set tree' (root 12 (by decide)) (show 0 < 1 by decide)
      there hn _
  · intro n hn
    apply bmapIndirect_maps flags alloc tree
    intro fs roots tree' geo there
    rw [← geo] at hn root ⊢
    exact blockDindBmap_follows flags alloc set tree' (root 13 (by decide)) (show 0 < 2 by decide)
      there hn (show 1 < 2 by decide) _
  · intro n hn
    have lt := triple_lt (hn ▸ small)
    apply bmapIndirect_maps flags alloc tree
    intro fs roots tree' geo there
    rw [← geo] at lt root ⊢
    exact blockTindBmap_follows flags alloc set tree' (root 14 (by decide)) (show 0 < 3 by decide)
      there lt (show 1 < 3 by decide) (show 2 < 3 by decide) _

end

theorem bmapUpdate_extends (tree : Tree s.fs s.inode.block) (n : Nat) :
    Ends (bmapUpdate ino n) s (fun _ t => MapExtends s t) (fun _ t => MapExtends s t) := by
  apply ends_bind
  apply ends_get
  have writes : ∀ inode : Ext2Inode, inode.block = s.inode.block → inode.flags = s.inode.flags →
      Ends (MapState.onFs (ext2UpdateInode ino inode)) ⟨s.fs, inode, s.phys⟩
        (fun _ t => MapExtends s t) (fun _ t => MapExtends s t) := by
    intro inode block flags
    have done : ∀ fs, Untouched s.fs fs → MapExtends s ⟨fs, inode, s.phys⟩ := by
      intro fs h
      refine ⟨?_, flags⟩
      rw [block]
      exact h.extends tree
    refine (onFs_either ⟨s.fs, inode, s.phys⟩ (ext2UpdateInode_untouched s.fs ino inode)).mono ?_ ?_
    all_goals
      rintro _ _ ⟨fs, rfl, h⟩
      exact done fs h
  cases added : ext2IblkAddBlocks s.fs s.inode n with
  | error e =>
    apply ends_bind
    apply ends_modify
    exact writes s.inode rfl rfl
  | ok inode =>
    apply ends_bind
    apply ends_modify
    have fields := iblkAdd_fields added
    exact writes inode (by rw [fields]) (by rw [fields])

/-- A call with `BMAP_ALLOC`, whether it fails or not. -/
theorem ext2Bmap_extends (mapped : BlockMapped s.inode) (tree : Tree s.fs s.inode.block)
    (zero own : Bool) :
    Ends (ext2Bmap ino ⟨true, false, zero⟩ block own) s (fun _ t => MapExtends s t)
      (fun _ t => MapExtends s t) := by
  have idles : ∀ (fs : Ext2Filesystem) (phys : Nat), Idle s.fs fs →
      MapExtends s ⟨fs, s.inode, phys⟩ :=
    fun fs phys idle => ⟨idle.untouched.extends tree, rfl⟩
  apply ends_bind
  apply ends_when
  · intro _
    apply ends_modify
    apply ends_bind
    apply ends_get
    cases big : ext2FileBlockOffsetTooBig s.fs.geo s.inode block with
    | true => exact ends_fail (idles s.fs 0 ⟨_, rfl⟩)
    | false =>
      rw [if_neg (by simp), if_neg (by simp [mapped.inline])]
      have small := ((tooBig_iff mapped _).1 big).2
      have buffer : Ends (Cmd.when (own = true) (MapState.onFs kmallocOp)) { s with phys := 0 }
          (fun _ t => ∃ fs, t = ⟨fs, s.inode, 0⟩ ∧ Idle s.fs fs) (fun _ t => MapExtends s t) := by
        apply ends_when
        · intro _
          refine (onFs_either ⟨s.fs, s.inode, 0⟩ (kmallocOp_idle s.fs)).mono (fun _ _ h => h) ?_
          rintro _ _ ⟨fs, rfl, idle⟩
          exact idles fs 0 idle
        · intro _
          exact ⟨s.fs, rfl, _, rfl⟩
      apply ends_bind
      apply buffer.imp
      rintro _ _ ⟨fs, rfl, idle⟩
      rw [if_neg (by simp [mapped.extents])]
      have geo : fs.geo = s.fs.geo := idle.keeps.geo
      have first := idles fs 0 idle
      apply ends_bind
      rw [show ({ s with phys := 0 } : MapState).fs.geo = fs.geo from geo.symm]
      refine (bmapLevel_maps (s := ⟨fs, s.inode, 0⟩) ⟨true, false, zero⟩ rfl rfl first.tree.tree
        (geo ▸ small)).mono ?_ fun _ _ h => first.trans h
      rintro ⟨n, _⟩ t ⟨second, phys⟩
      have both := first.trans second
      apply ends_bind
      apply ends_get
      apply ends_bind
      have fits : OnPath t.fs.geo (blockPath fs.geo.addrPerBlock block) := by
        rw [second.tree.stays.geo]
        exact onPath_blockPath (geo ▸ small)
      have zeroed : Ends (Cmd.when (t.phys ≠ 0 ∧ zero = true)
          (MapState.onFs (ext2ZeroBlock t.phys))) t (fun _ t => MapExtends s t)
          (fun _ t => MapExtends s t) := by
        apply ends_when
        · rintro ⟨there, -⟩
          rw [phys] at there ⊢
          refine (onFs_either t (ext2ZeroBlock_extends second.tree.tree fits
            (leaf_blockPath _ _) there)).mono ?_ ?_
          all_goals
            rintro _ _ ⟨_, rfl, h⟩
            exact both.trans ⟨h, rfl⟩
        · intro _
          exact both
      apply zeroed.imp
      intro _ u h
      apply ends_when
      · intro _
        exact (bmapUpdate_extends h.tree.tree n).mono (fun _ _ k => h.trans k)
          fun _ _ k => h.trans k
      · intro _
        exact h
  · intro set
    exact absurd Bool.false_ne_true set

end

variable {fs t : Ext2Filesystem}

theorem Ext2Filesystem.entry_of_bytes {b i : Nat}
    (same : ∀ i, i < fs.geo.blksize → t.byte b i = fs.byte b i) (hi : i < fs.geo.addrPerBlock) :
    t.entry b i = fs.entry b i := by
  have four := fs.geo.blksize_eq_four
  rw [← blockPtr_byte, ← blockPtr_byte]
  unfold blockPtr Mem.word
  rw [same _ (by omega), same _ (by omega), same _ (by omega), same _ (by omega)]

/-- A tree that shares no block with the one that is extended stays as it is. -/
theorem Extends.others {roots roots' others : Nat → Nat}
    (h : Extends fs t roots roots') (tree : Tree fs others)
    (apart : ∀ p q, OnPath fs.geo p → OnPath fs.geo q → reach fs.entry others p ≠ 0 →
      reach fs.entry others p ≠ reach fs.entry roots q) :
    ∀ q, OnPath fs.geo q → reach t.entry others q = reach fs.entry others q := by
  intro q fits
  refine reach_congr (fun _ _ => rfl) ?_ fits
  intro p i fp _ hi there
  refine Ext2Filesystem.entry_of_bytes ?_ hi
  exact h.kept _ there (tree.taken p fp there) fun q fq eq => apart p q fp fq there eq.symm

end Os0
