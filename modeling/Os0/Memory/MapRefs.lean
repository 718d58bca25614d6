import Os0.Memory.Mappings
import Os0.Process.PipeLife

/-! The references of inodes against the entries, working directories and memory regions that
hold them. -/
namespace Os0

open Refs Function

namespace Files

variable {s t : Files} {p fd e i : Nat}

@[irreducible] def processes : Finset Nat := Finset.range PROCESS_LIMIT

theorem mem_processes : p ∈ processes ↔ p < PROCESS_LIMIT := by
  unfold processes
  rw [Finset.mem_range]

/-- The working directory of a process that exists. -/
def dirOf (s : Files) (p : Nat) : Option Nat := if s.live p then s.cwd p else none

/-- The references to an inode that neither entries nor working directories hold. -/
def spare (s : Files) (i : Nat) : Int :=
  (s.inodes i).refcnt - refs entries s.inodeOf i - refs processes s.dirOf i

theorem spare_congr (same : SameInodes s t) (live : t.live = s.live) : t.spare i = s.spare i := by
  have dir : t.dirOf = s.dirOf := by
    funext p
    rw [dirOf, dirOf, live, same.cwd]
  rw [spare, spare, same.inodes, same.inode, dir]

theorem dirOf_congr (live : t.live = s.live) (cwd : t.cwd = s.cwd) : t.dirOf = s.dirOf := by
  funext p
  rw [dirOf, dirOf, live, cwd]

theorem closeEntry_spare (mem : e ∈ entries) : (s.closeEntry e).spare i = s.spare i := by
  have dir : (s.closeEntry e).dirOf = s.dirOf :=
    dirOf_congr (vfsUnrefInode_same s _).live (unref_cwd s _)
  have count : ((s.closeEntry e).inodes i).refcnt =
      (s.inodes i).refcnt - if s.inodeOf e = some i then 1 else 0 := unref_refcnt s _ i
  rw [spare, spare, dir, count]
  cases at_e : s.inodeOf e with
  | none =>
    have same : (s.closeEntry e).inodeOf = s.inodeOf := by
      unfold closeEntry
      rw [inodeOf_setEntry, unref_inodeOf]
      exact (congrArg _ at_e.symm).trans (update_eq_self e s.inodeOf)
    rw [same]
    simp
  | some j =>
    rw [refs_closeEntry mem at_e]
    by_cases same : i = j
    · simp [same]
    · simp [same, Ne.symm same]

theorem processFreeFd_spare (table : TableOk s) : (s.processFreeFd p fd).2.spare i = s.spare i := by
  cases points : s.files (p, fd) with
  | none =>
    unfold processFreeFd
    rw [points]
  | some e =>
    have mem : e ∈ entries := mem_entries.2 (table.inside _ _ points).2
    have same : SameInodes s (s.leave p fd e) := addRefcnt_inodes s p fd none e (-1)
    obtain ⟨v, eq, ⟨rfl, -⟩ | ⟨rfl, -⟩⟩ := processFreeFd_cases points
    · rw [eq]
      exact spare_congr (same.trans ⟨rfl, rfl, rfl, rfl, rfl, rfl, rfl⟩) rfl
    · rw [eq]
      exact (closeEntry_spare mem).trans (spare_congr same rfl)

theorem freeAll_spare (table : TableOk s) (fds : List Nat) :
    (s.freeAll p fds).spare i = s.spare i := by
  induction fds generalizing s with
  | nil => rfl
  | cons fd fds ih =>
    exact (ih ((processFreeFd_keeps s p fd).ok table)).trans (processFreeFd_spare table)

theorem setRefs_spare (s : Files) (refs : Nat → Int) (i : Nat) :
    (s.setRefs refs).spare i = s.spare i + refs i - (s.inodes i).refcnt := by
  have same : (s.setRefs refs).spare i =
      refs i - Refs.refs entries s.inodeOf i - Refs.refs processes s.dirOf i := rfl
  rw [same, spare]
  omega

theorem setRefs_ok (ok : Ok s) (refs : Nat → Int) : Ok (s.setRefs refs) := by
  have same : SameSlots s (s.setRefs refs) := ⟨rfl, rfl, rfl, fun _ => rfl⟩
  exact ⟨same.ok ok.table, ok.idle⟩

/-- The child shares the entries of its parent and holds its working directory once more. -/
theorem taskFork_spare (parent i : Nat) : (s.taskFork parent true).2.spare i = s.spare i := by
  unfold taskFork
  split
  · rfl
  rename_i child found
  obtain ⟨-, inside, dead⟩ := freePid_eq_some found
  have mem : child ∈ processes := mem_processes.2 inside
  rw [if_neg (by simp)]
  dsimp only
  have same := copyFiles_same s parent child (List.range PROCESS_FILE_LIMIT)
  have live := copyFiles_live s parent child (List.range PROCESS_FILE_LIMIT)
  generalize s.copyFiles parent child (List.range PROCESS_FILE_LIMIT) = t at same live
  have dir : update t.cwd child (t.cwd parent) parent = s.cwd parent := by
    rw [same.cwd]
    rw [update_apply]
    split_ifs with self
    · rfl
    · rfl
  rw [dir]
  have empty : s.dirOf child = none := by
    rw [dirOf, dead]
    rfl
  -- the working directories with the one of the child
  have dirs (u : Files) (cwd : u.cwd = update t.cwd child (t.cwd parent))
      (still : u.live = t.live) : dirOf { u with live := update u.live child true } =
        update s.dirOf child (s.cwd parent) := by
    funext q
    by_cases new : q = child
    · rw [new, update_self]
      simp [dirOf, cwd, same.cwd]
    · rw [update_of_ne new]
      simp [dirOf, cwd, same.cwd, still, live, new]
  cases at_ : s.cwd parent with
  | none =>
    have unchanged := dirs { t with cwd := update t.cwd child (t.cwd parent) } rfl rfl
    rw [at_, ← empty, update_eq_self] at unchanged
    unfold spare vfsRefInode
    rw [unchanged]
    change (t.inodes i).refcnt - Refs.refs entries t.inodeOf i - _ = _
    rw [same.inodes, same.inode]
  | some j =>
    have added := dirs (addRef { t with cwd := update t.cwd child (t.cwd parent) } j 1) rfl rfl
    rw [at_] at added
    unfold spare vfsRefInode
    rw [added, refs_point empty mem, addRef_refcnt]
    change (t.inodes i).refcnt + _ - Refs.refs entries t.inodeOf i - _ = _
    rw [same.inodes, same.inode]
    by_cases same : i = j
    · simp [same]
      omega
    · simp [same, Ne.symm same]

theorem taskFork_live {parent child : Nat}
    (found : (List.range' 1 (PROCESS_LIMIT - 1)).find? (fun pid => !s.live pid) = some child) :
    (s.taskFork parent true).2.live = update s.live child true := by
  unfold taskFork
  rw [found]
  dsimp only
  rw [if_neg (by simp)]
  rw [(vfsRefInode_same _ _).live]
  dsimp only
  rw [copyFiles_live]

theorem processFree_spare (table : TableOk s) (live : s.live p = true) (mem : p ∈ processes)
    (i : Nat) : (s.processFree p).spare i = s.spare i := by
  unfold processFree
  rw [if_pos live]
  dsimp only
  generalize hu : vfsUnrefInode (s.cwd p) { s with live := update s.live p false } = u
  have same : SameSlots { s with live := update s.live p false } u :=
    hu ▸ vfsUnrefInode_same _ _
  have table' : TableOk u := same.ok { table with }
  generalize List.range PROCESS_FILE_LIMIT = fds
  have freed := @freeAll_spare u p i table' fds
  change (u.freeAll p fds).spare i = _
  rw [freed]
  have held : s.dirOf p = s.cwd p := by
    rw [dirOf, if_pos live]
  have dirs : u.dirOf = update s.dirOf p none := by
    have cwd : u.cwd = s.cwd := hu ▸ unref_cwd _ _
    funext q
    by_cases gone : q = p
    · rw [gone, update_self]
      simp [dirOf, same.live]
    · rw [update_of_ne gone]
      simp [dirOf, same.live, cwd, gone]
  have entry : u.inodeOf = s.inodeOf := hu ▸ unref_inodeOf _ _
  have count : (u.inodes i).refcnt = (s.inodes i).refcnt - if s.cwd p = some i then 1 else 0 :=
    hu ▸ unref_refcnt _ _ i
  rw [spare, spare, dirs, entry, count]
  cases at_ : s.cwd p with
  | none =>
    have unchanged : update s.dirOf p none = s.dirOf := by
      rw [← held.trans at_, update_eq_self]
    rw [unchanged]
    simp
  | some j =>
    have back := refs_clear (b := i) (held.trans at_) mem
    rw [← back]
    by_cases same : i = j
    · simp [same]
      omega
    · simp [same, Ne.symm same]

end Files

open AddrSpace

namespace AddrSpace

open Bytes

variable {s s' : AddrSpace} {rs : List Region}

variable {len base : Nat} {ps : List Nat}

variable {hint : Nat} {junk : Int} {done : Bool} {a a' : AddrSpace}

theorem findGap_cases {start : Nat} (h : s.findGap len start ps = some base) :
    base = start ∨ ∃ p ∈ ps, ∃ r, s.records p = some r ∧ base = regionEnd r := by
  induction ps generalizing start with
  | nil =>
    cases h
    exact .inl rfl
  | cons p ps ih =>
    unfold findGap at h
    split at h
    · cases h
    · rename_i r record
      split at h
      · cases h
        exact .inl rfl
      · right
        rcases ih h with rfl | ⟨q, hq, there⟩
        · exact ⟨p, (.head _), r, record, rfl⟩
        · exact ⟨q, List.mem_cons_of_mem p hq, there⟩

/-- `sys_mmap` chooses the hint or the end of a region. -/
theorem mmapPlace_cases (t : Rows s rs)
    (h : s.mmapPlace hint len = some base) : base = hint ∨ ∃ r ∈ rs, base = regionEnd r := by
  have known : ∀ p ∈ s.regions.elems, ∀ r, s.records p = some r → r ∈ rs := by
    intro p hp r record
    have there : s.records p ∈ rs.map some := t.records ▸ List.mem_map_of_mem hp
    rw [record] at there
    simpa using there
  have gap : ∀ {start k : Nat}, s.findGap len start (s.regions.elems.drop k) = some base →
      base = start ∨ ∃ r ∈ rs, base = regionEnd r := by
    intro start k h
    rcases findGap_cases h with same | ⟨p, hp, r, record, eq⟩
    · exact .inl same
    · exact .inr ⟨r, known p (List.mem_of_mem_drop hp) r record, eq⟩
  unfold mmapPlace at h
  dsimp only at h
  split at h
  · cases h
    exact .inl rfl
  split at h
  · split at h
    · obtain ⟨before, at_, h⟩ := Option.bind_eq_some_iff.1 h
      rcases gap h with rfl | there
      · rw [t.region_eq] at at_
        exact .inr ⟨before, List.mem_of_getElem? at_, rfl⟩
      · exact .inr there
    · exact gap h
  · cases h

theorem mmapPlace_aligned (t : Rows s rs) (page : hint % 4096 = 0)
    (low : hint < 4294967296) (h : s.mmapPlace hint len = some base) :
    base % 4096 = 0 ∧ base < 4294967296 := by
  rcases mmapPlace_cases t h with rfl | ⟨r, hr, rfl⟩
  · exact ⟨page, low⟩
  · have whole := t.whole r hr
    have base := whole.base
    have pages := whole.pages
    unfold regionEnd add32
    omega

theorem sysMmap_balanced {addr prot flags : Nat} {fd : Option OpenFile} {offset : Int}
    {ret : Except Errno Nat} (t : Rows s rs) (low : addr < 4294967296)
    (h : s.sysMmap addr len prot flags fd offset = some (ret, s'))
    (noFile : s.mapsFile addr len prot flags fd offset = false) :
    ∃ rs', Rows s' rs' ∧ Balanced s s' rs rs' := by
  rcases sysMmap_cases h with rfl | ⟨_, _, placed, page, space, -, regions, records, next, -, -,
    refs, rfl | ⟨next', r, rbase, rlen, quiet, added⟩⟩
  · exact ⟨rs, t, .of_eq rfl rfl rfl le_rfl⟩
  · exact ⟨rs, t.congr regions records next, .of_eq refs regions records next⟩
  · have hint : mmapHint addr % 4096 = 0 ∧ mmapHint addr < 4294967296 := by
      unfold mmapHint
      split
      · exact ⟨page, low⟩
      · exact ⟨rfl, by decide⟩
    obtain ⟨aligned, small⟩ := mmapPlace_aligned t hint.1 hint.2 placed
    have whole : r.Whole := by
      refine ⟨rbase ▸ aligned, ?_, rbase ▸ small, ?_⟩ <;> rw [rlen]
      · exact (roundPage_spec len).1
      · exact (roundPage_spec len).2
    obtain ⟨s₂, added', rows, facts⟩ := t.enter regions records (by omega) whole
      (t.length_eq ▸ space)
    obtain rfl : s₂ = s' := Option.some.inj (added'.symm.trans added)
    refine ⟨_, rows, .add regions records next (fun i => ?_) facts⟩
    simp [refs, quiet noFile]

/-- How many calls of `kmalloc` in a row find memory. -/
def supply (s : AddrSpace) : Nat := (s.kmallocs.takeWhile id).length

theorem supply_of_none (h : s.kmalloc = (none, s')) : s.supply = 0 := by
  unfold kmalloc at h
  unfold supply
  split at h <;> cases h <;> simp [*]

theorem kmalloc_supply {p : Nat} (h : s.kmalloc = (some p, s')) :
    s.kmallocs = true :: s'.kmallocs ∧ s.supply = s'.supply + 1 := by
  unfold kmalloc at h
  unfold supply
  split at h <;> cases h
  simp [*]

/-- Copying regions counts a reference for each copy, and goes on as long as there is memory. -/
theorem copyRegions_spec (t : Rows a rs) (room : rs.length + ps.length ≤ PROCESS_MMAP_LIMIT)
    (old : ∀ p ∈ ps, p < a.next) (whole : ∀ p ∈ ps, ∀ r, a.records p = some r → r.Whole)
    (h : copyRegions junk true ps a = some (done, a')) :
    ∃ rs', Rows a' rs' ∧ Balanced a a' rs rs' ∧
      (if done then a.supply = a'.supply + ps.length else a.supply ≤ ps.length) ∧
      rs'.Perm (rs ++ ((ps.filterMap a.records).take a.supply).map
        fun r => { r with offset := junk }) := by
  induction ps generalizing a rs with
  | nil =>
    cases h
    exact ⟨rs, t, .of_eq rfl rfl rfl le_rfl, rfl, by simp⟩
  | cons p ps ih =>
    unfold copyRegions at h
    cases hk : a.kmalloc with
    | mk name a₁ =>
      rw [hk] at h
      obtain ⟨-, regions, records, -, -, next, named⟩ := kmalloc_fields hk
      cases name with
      | none =>
        cases h
        refine ⟨rs, t.congr regions records next, .of_eq (kmalloc_refs hk) regions records next, ?_⟩
        simp [supply_of_none hk]
      | some new =>
        obtain ⟨rfl, _⟩ := named new rfl
        obtain ⟨r, record, h⟩ := Option.bind_eq_some_iff.1 h
        obtain ⟨a₂, added, h⟩ := Option.bind_eq_some_iff.1 h
        obtain ⟨-, cregions, crecords, _, ckmallocs, -⟩ := countRef_fields a₁ r.ino 1
        have hrecords := crecords.trans records
        rw [records] at record
        have mine := whole p (.head _) r record
        have copy_whole : Region.Whole { r with offset := junk } := { mine with }
        rw [List.length_cons] at room
        obtain ⟨a₂', added', t₂, facts⟩ := t.enter (cregions.trans regions) hrecords (by omega)
          copy_whole (by omega)
        obtain rfl : a₂' = a₂ := Option.some.inj (added'.symm.trans added)
        have one : Balanced a a₂' rs (insertBy baseBelow { r with offset := junk } rs) := by
          refine .add (cregions.trans regions) hrecords (by omega) (fun i => ?_) facts
          rw [countRef_refs, kmalloc_refs hk]
        have below (q : Nat) (hq : q ∈ ps) : q < a.next := old q (List.mem_cons_of_mem p hq)
        have same (q : Nat) (hq : q ∈ ps) : a₂'.records q = a.records q := by
          have := below q hq
          rw [facts.records, hrecords, update_of_ne (by omega)]
        have whole' : ∀ q ∈ ps, ∀ r, a₂'.records q = some r → r.Whole := by
          intro q hq r hr
          rw [same q hq] at hr
          exact whole q (List.mem_cons_of_mem p hq) r hr
        obtain ⟨rs', rows, balanced, made, perm⟩ := ih t₂
          (by rw [(insertBy_perm _ _ _).length_eq, List.length_cons]; omega)
          (fun q hq => lt_of_lt_of_le (below q hq) one.next) whole' h
        have supply : a.supply = a₂'.supply + 1 := by
          rw [(kmalloc_supply hk).2]
          unfold supply
          rw [facts.kmallocs, ckmallocs]
        refine ⟨rs', rows, one.trans balanced, ?_, ?_⟩
        · rw [supply, List.length_cons]
          cases done <;> simp only [if_true, if_false, Bool.false_eq_true] at made ⊢ <;> omega
        · rw [List.filterMap_congr same] at perm
          rw [List.filterMap_cons_some record, supply, List.take_succ_cons, List.map_cons]
          exact perm.trans (((insertBy_perm _ _ _).append_right _).trans List.perm_middle.symm)

theorem copyRegions_unmade
    (h : copyRegions junk false ps a = some (done, a')) :
    a'.regions = a.regions ∧ a'.records = a.records ∧ a'.refs = a.refs ∧ a.next ≤ a'.next := by
  cases ps with
  | nil =>
    cases h
    exact ⟨rfl, rfl, rfl, le_rfl⟩
  | cons p ps =>
    unfold copyRegions at h
    cases hk : a.kmalloc with
    | mk name =>
      rw [hk] at h
      obtain ⟨-, regions, records, -, -, next, -⟩ := kmalloc_fields hk
      cases name with
      | none =>
        cases h
        exact ⟨regions, records, kmalloc_refs hk, next⟩
      | some => cases h

theorem newTable_fields {made : Bool} (h : s.newTable = (made, s')) :
    s'.regions = s.regions ∧ s'.records = s.records ∧ s'.refs = s.refs ∧ s.next ≤ s'.next ∧
      (made = true → s.kmallocs = true :: true :: s'.kmallocs) := by
  unfold newTable at h
  split at h
  · rename_i s₁ hk
    cases h
    obtain ⟨-, regions, records, -, -, next, -⟩ := kmalloc_fields hk
    exact ⟨regions, records, kmalloc_refs hk, next, nofun⟩
  · rename_i s₁ hk
    obtain ⟨-, regions, records, -, -, next, -⟩ := kmalloc_fields hk
    split at h
    all_goals
      rename_i hk'
      cases h
      obtain ⟨-, regions', records', -, -, next', -⟩ := kmalloc_fields hk'
      refine ⟨regions'.trans regions, records'.trans records,
        (kmalloc_refs hk').trans (kmalloc_refs hk), next.trans next', ?_⟩
    · exact nofun
    · intro _
      rw [(kmalloc_supply hk).1, (kmalloc_supply hk').1]

end AddrSpace

open Mappings

namespace Mappings

open AddrSpace Files

variable {s t : Mappings} {p : Nat} {others : Nat → Nat}

/-- How many regions of all processes refer to an inode. -/
def mapped (s : Mappings) (i : Nat) : Nat := ∑ p ∈ processes, inoCount (s.table p) i

/-- Every inode counts the entries of open files, the regions and the working directories that
point to it, and the references that the rest of the kernel holds to `others`, such as that of
a mounted file system to its root. -/
def Counts (others : Nat → Nat) (s : Mappings) : Prop :=
  ∀ i, (s.files.inodes i).refcnt =
    refs entries s.files.inodeOf i + s.mapped i + refs processes s.files.dirOf i + others i

/-- The tables of the processes are well-formed and share no records. -/
structure Tables (s : Mappings) : Prop where
  rows : ∀ p regions, s.regions p = some regions → Rows (s.space p regions) (s.table p)
  apart : ∀ p q, p ≠ q → ∀ n ∈ s.elems p, n ∉ s.elems q

structure Ok (others : Nat → Nat) (s : Mappings) : Prop where
  files : s.files.Ok
  inside : ∀ p, s.files.live p = true → p < PROCESS_LIMIT
  idle : ∀ p, s.files.live p = false → s.regions p = none
  tables : s.Tables
  counts : s.Counts others

variable {rs' : List Region}

theorem counts_iff : s.Counts others ↔ ∀ i, s.files.spare i = s.mapped i + others i := by
  refine forall_congr' fun i => ?_
  unfold spare
  omega

variable {regions : SortedArray Nat}

theorem elems_of_some (h : s.regions p = some regions) : s.elems p = regions.elems := by
  rw [elems, h]
  rfl

theorem elems_of_none (h : s.regions p = none) : s.elems p = [] := by
  rw [elems, h]
  rfl

theorem table_of_none (h : s.regions p = none) : s.table p = [] := by
  rw [table, elems_of_none h]
  rfl

theorem Tables.named (h : s.Tables) : ∀ n ∈ s.elems p, n < s.next := by
  intro n hn
  cases at_ : s.regions p with
  | none =>
    rw [elems_of_none at_] at hn
    cases hn
  | some regions =>
    rw [elems_of_some at_] at hn
    exact (h.rows p regions at_).named n hn

theorem Tables.source (h : s.Tables) : (s.elems p).length ≤ PROCESS_MMAP_LIMIT ∧
    (s.elems p).length = (s.table p).length ∧
      ∀ n ∈ s.elems p, ∀ r, s.records n = some r → r.Whole := by
  cases at_ : s.regions p with
  | none =>
    rw [elems_of_none at_, table_of_none at_]
    exact ⟨Nat.zero_le _, rfl, nofun⟩
  | some regions =>
    have rows := h.rows p regions at_
    have length : regions.elems.length = (s.table p).length := rows.length_eq
    have size := rows.size
    rw [elems_of_some at_]
    refine ⟨by omega, length, fun n hn r record => rows.whole r ?_⟩
    rw [table, elems_of_some at_]
    exact List.mem_filterMap.2 ⟨n, hn, record⟩

theorem Tables.step (h : s.Tables) (p : Nat) (off : ∀ q, q ≠ p → t.regions q = s.regions q)
    (agree : ∀ q, q ≠ p → ∀ n ∈ s.elems q, t.records n = s.records n) (next : s.next ≤ t.next)
    (mine : ∀ regions, t.regions p = some regions → ∃ rs, Rows (t.space p regions) rs)
    (fresh : ∀ n ∈ t.elems p, n ∈ s.elems p ∨ s.next ≤ n) :
    t.Tables ∧ ∀ q, q ≠ p → t.table q = s.table q := by
  have elems (q : Nat) (ne : q ≠ p) : t.elems q = s.elems q := by
    rw [elems, elems, off q ne]
  have table (q : Nat) (ne : q ≠ p) : t.table q = s.table q := by
    rw [table, table, elems q ne]
    exact List.filterMap_congr (agree q ne)
  refine ⟨⟨fun q regions at_ => ?_, fun q q' ne n hn hn' => ?_⟩, table⟩
  · by_cases same : q = p
    · subst same
      obtain ⟨rs, rows⟩ := mine regions at_
      have eq : t.table q = rs := by
        rw [Mappings.table, elems_of_some at_]
        exact rows.table_eq
      exact eq ▸ rows
    · rw [table q same]
      rw [off q same] at at_
      have rows := h.rows q regions at_
      refine rows.frame rfl (fun n hn => ?_) next
      exact agree q same n (by rw [elems_of_some at_]; exact hn)
  · by_cases here : q = p
    · rw [here] at hn ne
      rw [elems q' (Ne.symm ne)] at hn'
      rcases fresh n hn with old | new
      · exact h.apart p q' ne n old hn'
      · exact absurd (h.named n hn') (by omega)
    · rw [elems q here] at hn
      by_cases there : q' = p
      · rw [there] at hn'
        rcases fresh n hn' with old | new
        · exact h.apart q p here n hn old
        · exact absurd (h.named n hn) (by omega)
      · rw [elems q' there] at hn'
        exact h.apart q q' ne n hn hn'

theorem mapped_step (mem : p ∈ processes) (off : ∀ q, q ≠ p → t.table q = s.table q) (i : Nat) :
    t.mapped i + inoCount (s.table p) i = s.mapped i + inoCount (t.table p) i := by
  unfold mapped
  rw [← Finset.add_sum_erase _ _ mem, ← Finset.add_sum_erase _ _ mem]
  have rest : ∑ q ∈ processes.erase p, inoCount (t.table q) i =
      ∑ q ∈ processes.erase p, inoCount (s.table q) i :=
    Finset.sum_congr rfl fun q hq => by rw [off q (Finset.ne_of_mem_erase hq)]
  omega

/-- What a call does that leaves the process `p` with the regions `rs'`. -/
structure Recounts (s t : Mappings) (p : Nat) (refs : Nat → Int) (rs' : List Region) : Prop where
  tables : t.Tables
  table : t.table p = rs'
  off : ∀ q, q ≠ p → t.table q = s.table q
  refs : ∀ i, refs i - inoCount rs' i = (s.files.inodes i).refcnt - inoCount (s.table p) i

/-- A call that works on the table `regions` of `p`, or on an empty one if `p` has none. -/
theorem Tables.recounts {a : AddrSpace} (h : s.Tables)
    (start : regions.elems = s.elems p) (rows : Rows a rs')
    (balanced : Balanced (s.space p regions) a (s.table p) rs')
    (off : ∀ q, q ≠ p → t.regions q = s.regions q) (mine : t.regions p = some a.regions)
    (records : t.records = a.records) (next : t.next = a.next) : Recounts s t p a.refs rs' := by
  have agree (q : Nat) (ne : q ≠ p) (n : Nat) (hn : n ∈ s.elems q) : t.records n = s.records n := by
    rw [records]
    refine balanced.frame n (h.named n hn) fun there => ?_
    change n ∈ regions.elems at there
    rw [start] at there
    exact h.apart p q (Ne.symm ne) n there hn
  have own : Rows (t.space p a.regions) rs' := rows.congr rfl records next.symm.le
  obtain ⟨tables, others⟩ := h.step p off agree (next ▸ balanced.next)
    (fun regions' at_ => by
      obtain rfl := Option.some.inj (mine.symm.trans at_)
      exact ⟨rs', own⟩)
    (fun n hn => by
      rw [elems_of_some mine] at hn
      rw [← start]
      exact balanced.fresh n hn)
  refine ⟨tables, ?_, others, balanced.refs⟩
  rw [table, elems_of_some mine]
  exact own.table_eq

theorem Recounts.counts {refs : Nat → Int} (h : Recounts s t p refs rs')
    (mem : p ∈ processes) (counts : s.Counts others)
    (files : ∀ i, t.files.spare i = (s.files.setRefs refs).spare i) : t.Counts others := by
  rw [counts_iff] at counts ⊢
  intro i
  have moved := mapped_step mem h.off i
  have change := h.refs i
  rw [h.table] at moved
  rw [files, setRefs_spare, counts i]
  omega

section

variable (h : s.Ok others) (live : s.files.live p = true)
include h live

variable {addr len : Nat}

/-- `sys_mmap` and `sys_munmap` change the table of the caller only. -/
theorem Ok.back {a : AddrSpace} {rs' : List Region} (at_ : s.regions p = some regions)
    (rows : Rows a rs') (balanced : Balanced (s.space p regions) a (s.table p) rs') :
    (s.back p a).Ok others := by
  have recounts : Recounts s (s.back p a) p a.refs rs' :=
    h.tables.recounts (elems_of_some at_).symm rows balanced
      (fun q ne => update_of_ne ne _ _) (update_self ..) rfl rfl
  constructor
  case files => exact setRefs_ok h.files _
  case inside => exact h.inside
  case idle =>
    intro q dead
    change update s.regions p (some a.regions) q = none
    have ne : q ≠ p := by
      rintro rfl
      exact absurd (live.symm.trans dead) (by decide)
    rw [update_of_ne ne]
    exact h.idle q dead
  case tables => exact recounts.tables
  case counts => exact recounts.counts (mem_processes.2 (h.inside p live)) h.counts fun _ => rfl

theorem sysMmap_ok {prot flags : Nat} {fd offset : Int} {ret : Except Errno Nat}
    (low : addr < 4294967296) (quiet : ∀ regions, s.regions p = some regions →
      (s.space p regions).mapsFile addr len prot flags (s.openFile p fd) offset = false)
    (eq : s.sysMmap p addr len prot flags fd offset = some (ret, t)) : t.Ok others := by
  obtain ⟨regions, at_, eq⟩ := Option.bind_eq_some_iff.1 eq
  obtain ⟨⟨_, a⟩, called, same⟩ := Option.map_eq_some_iff.1 eq
  cases same
  obtain ⟨_, rows, balanced⟩ :=
    sysMmap_balanced (h.tables.rows p regions at_) low called (quiet regions at_)
  exact h.back live at_ rows balanced

theorem sysMunmap_ok {ret : Except Errno Unit} (fine : ∀ regions, s.regions p = some regions →
      (s.space p regions).unmapFine (regions.elems.length + 1) addr len = true)
    (eq : s.sysMunmap p addr len = some (ret, t)) : t.Ok others := by
  obtain ⟨regions, at_, eq⟩ := Option.bind_eq_some_iff.1 eq
  obtain ⟨⟨_, a⟩, called, same⟩ := Option.map_eq_some_iff.1 eq
  cases same
  have rows := h.tables.rows p regions at_
  have enough : above (s.table p) addr < regions.elems.length + 1 := by
    have := List.countP_le_length (p := fun q : Region => decide (addr < q.fin)) (l := s.table p)
    have length : regions.elems.length = (s.table p).length := rows.length_eq
    unfold above
    omega
  obtain ⟨_, _, _, called', unmapped, balanced⟩ :=
    munmapFuel_spec rows enough (fine regions at_)
  obtain ⟨rfl, rfl⟩ := Prod.mk.inj (Option.some.inj (called'.symm.trans called))
  exact h.back live at_ unmapped.rows balanced

theorem processFree_ok {mem : Memory} (anonymous : ∀ r ∈ s.table p, r.ino = none) :
    (s.processFree p mem).Ok others := by
  unfold processFree
  rw [if_pos live]
  have inside := mem_processes.2 (h.inside p live)
  obtain ⟨tables, off⟩ := h.tables.step (t := { s.freeRegions (s.elems p) with
      files := s.files.processFree p
      mem := mem
      regions := update s.regions p none }) p
    (fun q ne => update_of_ne ne _ _)
    (fun q ne n hn => if_neg fun there => h.tables.apart p q (Ne.symm ne) n there hn)
    le_rfl
    (fun regions at_ => by
      change update s.regions p none p = some regions at at_
      rw [update_self] at at_
      cases at_)
    (fun n hn => by
      rw [elems_of_none (update_self ..)] at hn
      cases hn)
  have gone (q : Nat) : (s.files.processFree p).live q = update s.files.live p false q :=
    congrFun (processFree_live s.files live) q
  constructor
  case files => exact Files.processFree_ok h.files p
  case inside =>
    intro q alive
    rw [gone, update_apply] at alive
    split_ifs at alive with same
    exact h.inside q alive
  case idle =>
    intro q dead
    change update s.regions p none q = none
    rw [gone] at dead
    by_cases same : q = p
    · rw [same, update_self]
    · rw [update_of_ne same] at dead ⊢
      exact h.idle q dead
  case tables => exact tables
  case counts =>
    rw [counts_iff]
    intro i
    have moved := mapped_step inside off i
    have empty : table { s.freeRegions (s.elems p) with
        files := s.files.processFree p
        mem := mem
        regions := update s.regions p none } p = [] :=
      table_of_none (update_self ..)
    rw [empty] at moved
    have none : inoCount (s.table p) i = 0 := by
      unfold inoCount
      rw [List.countP_eq_zero]
      intro r hr
      simp [anonymous r hr]
    have zero : inoCount [] i = 0 := rfl
    rw [processFree_spare h.files.table live inside, counts_iff.1 h.counts i]
    omega

end

theorem Ok.setMem (h : s.Ok others) (mem : Memory) : Ok others { s with mem } where
  __ := h
  tables := ⟨fun p regions at_ => (h.tables.rows p regions at_).congr rfl rfl le_rfl,
    h.tables.apart⟩

theorem place_rows (s : Mappings) (p : Nat) : Rows (s.space p (.place PROCESS_MMAP_LIMIT)) [] where
  max := rfl
  size := Nat.zero_le _
  records := rfl
  nodup := List.nodup_nil
  named := nofun
  sorted := .nil
  whole := nofun

section Fork

variable {parent child dir : Nat} {a : AddrSpace} {rs' : List Region}

variable (h : s.Ok others)
include h

variable (dead : s.files.live child = false)
include dead

theorem Ok.no_regions : s.elems child = [] ∧ s.table child = [] :=
  ⟨elems_of_none (h.idle child dead), table_of_none (h.idle child dead)⟩

/-- A fork that gives up frees the copies, which must have no inode. -/
theorem abandon_ok
    (inside : child ∈ processes)
    (balanced : Balanced (s.space child (.place PROCESS_MMAP_LIMIT)) a [] rs')
    (anonymous : ∀ i, inoCount rs' i = 0) : (s.abandon a).Ok others := by
  obtain ⟨-, noTable⟩ := h.no_regions dead
  have agree (q : Nat) (n : Nat) (hn : n ∈ s.elems q) : (s.abandon a).records n = s.records n := by
    have named := h.tables.named n hn
    have out : n ∉ a.regions.elems := by
      intro there
      rcases balanced.fresh n there with old | new
      · cases old
      · change s.next ≤ n at new
        omega
    change (if n ∈ a.regions.elems then none else a.records n) = s.records n
    rw [if_neg out]
    exact balanced.frame n named nofun
  obtain ⟨tables, off⟩ := h.tables.step (t := s.abandon a) child (fun _ _ => rfl)
    (fun q _ => agree q) balanced.next
    (fun regions at_ => by
      rw [show (s.abandon a).regions child = none from h.idle child dead] at at_
      cases at_)
    (fun n hn => .inl hn)
  constructor
  case files => exact setRefs_ok h.files _
  case inside => exact h.inside
  case idle => exact h.idle
  case tables => exact tables
  case counts =>
    rw [counts_iff]
    intro i
    have moved := mapped_step inside off i
    have empty : (s.abandon a).table child = [] := table_of_none (h.idle child dead)
    have refs := balanced.refs i
    rw [anonymous i] at refs
    change a.refs i - (0 : Nat) = (s.files.inodes i).refcnt - (0 : Nat) at refs
    rw [empty, noTable] at moved
    change (s.files.setRefs a.refs).spare i = _
    rw [setRefs_spare, counts_iff.1 h.counts i]
    omega

/-- The child of a fork that succeeds gets the copies, with the references they count. -/
theorem adopt_ok {made : Bool}
    (found : (List.range' 1 (PROCESS_LIMIT - 1)).find? (fun pid => !s.files.live pid) = some child)
    (inside : child ∈ processes) (rows : Rows a rs')
    (balanced : Balanced (s.space child (.place PROCESS_MMAP_LIMIT)) a [] rs')
    (unmade : made = false → rs' = []) : (s.adopt parent child dir made a).Ok others := by
  obtain ⟨noElems, noTable⟩ := h.no_regions dead
  have recounts : Recounts s (s.adopt parent child dir made a) child a.refs rs' := by
    cases made with
    | true =>
      have start : (SortedArray.place PROCESS_MMAP_LIMIT : SortedArray Nat).elems = s.elems child :=
        noElems.symm
      refine h.tables.recounts start rows ?_ (fun q ne => update_of_ne ne _ _)
        (update_self ..) rfl rfl
      rw [noTable]
      exact balanced
    | false =>
      have none : (s.adopt parent child dir false a).regions child = none :=
        update_self ..
      obtain ⟨tables, off⟩ := h.tables.step (t := s.adopt parent child dir false a) child
        (fun q ne => update_of_ne ne _ _)
        (fun q _ n hn => balanced.frame n (h.tables.named n hn) nofun) balanced.next
        (fun regions at_ => by
          rw [none] at at_
          cases at_)
        (fun n hn => by
          rw [elems_of_none none] at hn
          cases hn)
      refine ⟨tables, ?_, off, ?_⟩
      · rw [table_of_none none, unmade rfl]
      · rw [noTable]
        exact balanced.refs
  have live : (s.adopt parent child dir made a).files.live =
      update s.files.live child true := @taskFork_live (s.files.setRefs a.refs) _ _ found
  constructor
  case files => exact taskFork_ok (setRefs_ok h.files _)
  case inside =>
    intro q alive
    rw [live] at alive
    by_cases same : q = child
    · exact same ▸ mem_processes.1 inside
    · rw [update_of_ne same] at alive
      exact h.inside q alive
  case idle =>
    intro q gone
    rw [live] at gone
    have ne : q ≠ child := by
      rintro rfl
      rw [update_self] at gone
      cases gone
    rw [update_of_ne ne] at gone
    change update s.regions child _ q = none
    rw [update_of_ne ne]
    exact h.idle q gone
  case tables => exact recounts.tables
  case counts => exact recounts.counts inside h.counts fun i => taskFork_spare parent i

end Fork

/-- A fork with the calls of `kmalloc` that are to come loses no reference: all copies and the
path of the working directory find memory, or the copies that do have no inode. -/
def forkFine (rs : List Region) (kmallocs : List Bool) : Bool :=
  match kmallocs with
  | true :: true :: true :: rest =>
    decide (rs.length < (rest.takeWhile id).length) ||
      (rs.take (rest.takeWhile id).length).all fun r => r.ino.isNone
  | _ => true

theorem taskFork_ok {parent : Nat} {pages : Option Nat × Memory} {junk : Int} (h : s.Ok others)
    (fine : (List.range' 1 (PROCESS_LIMIT - 1)).all s.files.live = true ∨ pages.1 = none ∨
      forkFine (s.table parent) s.kmallocs = true)
    (eq : s.taskFork parent pages junk = some t) : t.Ok others := by
  unfold taskFork at eq
  split at eq
  · cases eq
    exact h
  rename_i child found
  obtain ⟨-, inside, dead⟩ := freePid_eq_some found
  have free : (List.range' 1 (PROCESS_LIMIT - 1)).all s.files.live ≠ true := by
    intro all
    have alive := List.all_eq_true.1 all child (List.mem_of_find?_eq_some found)
    exact absurd (alive.symm.trans dead) (by decide)
  have fine := fine.resolve_left free
  have inside := mem_processes.2 inside
  have h := h.setMem pages.2
  dsimp only at eq
  change pages.1 = none ∨ forkFine (table { s with mem := pages.2 } parent)
    { s with mem := pages.2 }.kmallocs = true at fine
  change Files.live { s with mem := pages.2 }.files child = false at dead
  change (List.range' 1 (PROCESS_LIMIT - 1)).find?
    (fun pid => !{ s with mem := pages.2 }.files.live pid) = some child at found
  generalize ({ s with mem := pages.2 } : Mappings) = s at *
  split at eq
  · cases eq
    exact h
  rename_i dir some_
  rw [some_] at fine
  have fine := fine.resolve_left nofun
  split at eq
  · cases eq
  rename_i name a₀ hk
  obtain ⟨-, regions₀, records₀, -, -, next₀, -⟩ := kmalloc_fields hk
  cases hn : a₀.newTable with
  | mk made a₁ =>
    rw [hn] at eq
    obtain ⟨regions₁, records₁, refs₁, next₁, supply₁⟩ := newTable_fields hn
    obtain ⟨⟨done, a₂⟩, copied, eq⟩ := Option.bind_eq_some_iff.1 eq
    have start : Balanced (s.space child (.place PROCESS_MMAP_LIMIT)) a₁ [] [] :=
      .of_eq (refs₁.trans (kmalloc_refs hk)) (regions₁.trans regions₀) (records₁.trans records₀)
        (next₀.trans next₁)
    have rows₁ : Rows a₁ [] := (place_rows s child).congr (regions₁.trans regions₀)
      (records₁.trans records₀) (next₀.trans next₁)
    -- the copies, and that none of them has an inode if the fork gives up
    have copies : ∃ rs', Rows a₂ rs' ∧ Balanced a₁ a₂ [] rs' ∧ (made = false → rs' = []) ∧
        (done = false ∨ a₂.supply = 0 → ∀ i, inoCount rs' i = 0) := by
      cases made with
      | false =>
        obtain ⟨regions, records, refs, next⟩ := copyRegions_unmade copied
        exact ⟨[], rows₁.congr regions records next, .of_eq refs regions records next,
          fun _ => rfl, fun _ _ => rfl⟩
      | true =>
        obtain ⟨_, _, whole⟩ := @Tables.source s parent h.tables
        have records : a₁.records = s.records := records₁.trans records₀
        have next : s.next ≤ a₁.next := next₀.trans next₁
        obtain ⟨rs', rows, balanced, short, perm⟩ := copyRegions_spec rows₁
          (by rw [List.length_nil]; omega)
          (fun n hn => lt_of_lt_of_le (h.tables.named n hn) next)
          (by rw [records]; exact whole) copied
        refine ⟨rs', rows, balanced, nofun, fun failed i => ?_⟩
        have memory : s.kmallocs = true :: true :: true :: a₁.kmallocs := by
          rw [← supply₁ rfl]
          exact (kmalloc_supply hk).1
        have short : a₁.supply ≤ (s.elems parent).length := by
          rcases failed with rfl | _
          · exact short
          · split at short <;> omega
        rw [memory] at fine
        unfold forkFine at fine
        rw [Bool.or_eq_true, decide_eq_true_eq] at fine
        have lost : ¬(s.table parent).length < a₁.supply := by omega
        have none := List.all_eq_true.1 (fine.resolve_left lost)
        rw [inoCount_perm perm, inoCount, List.nil_append, List.countP_map, List.countP_eq_zero]
        intro r hr
        rw [records] at hr
        simp [Option.isNone_iff_eq_none.1 (none r hr)]
    obtain ⟨rs', rows, balanced, unmade, anonymous⟩ := copies
    have balanced := start.trans balanced
    cases done with
    | false =>
      cases eq
      exact abandon_ok h dead inside balanced (anonymous (.inl rfl))
    | true =>
      dsimp only at eq
      split at eq
      · rename_i a₃ hk₃
        cases eq
        obtain ⟨-, regions, records, -, -, next, -⟩ := kmalloc_fields hk₃
        exact abandon_ok h dead inside
          (balanced.trans (.of_eq (kmalloc_refs hk₃) regions records next))
          (anonymous (.inr (supply_of_none hk₃)))
      · rename_i a₃ hk₃
        cases eq
        obtain ⟨-, regions, records, -, -, next, -⟩ := kmalloc_fields hk₃
        exact adopt_ok h dead found inside (rows.congr regions records next)
          (balanced.trans (.of_eq (kmalloc_refs hk₃) regions records next)) unmade

end Mappings

/-- The calls that keep the references of inodes. A mapping fails or is anonymous; an unmapping
leaves no freed record in the table; a fork loses no copy of a region with an inode; a process
that exits has no region with an inode. -/
def mapOk (s : Mappings) : Nat × MapCall → Bool
  | (p, .mmap addr len prot flags fd offset) => (s.regions p).all fun regions =>
      !(s.space p regions).mapsFile addr.toNat len.toNat prot.toNat flags.toNat (s.openFile p fd)
        offset
  | (p, .munmap addr len) => (s.regions p).all fun regions =>
      (s.space p regions).unmapFine (regions.elems.length + 1) addr.toNat len.toNat
  | (p, .fork pages _) => (List.range' 1 (PROCESS_LIMIT - 1)).all s.files.live ||
      pages.1.isNone || Mappings.forkFine (s.table p) s.kmallocs
  | (p, .exit _) => (s.table p).all fun r => r.ino.isNone

variable {s : Mappings} {others : Nat → Nat}

theorem mapStep_ok {t : Mappings} {call : Nat × MapCall}
    (h : s.Ok others) (ok : mapOk s call = true) (step : mapStep s call = some t) :
    t.Ok others := by
  obtain ⟨p, call⟩ := call
  unfold mapStep at step
  dsimp only at step
  split at step
  case isFalse => cases step
  case isTrue live =>
    cases call with
    | mmap addr len =>
      obtain ⟨⟨ret, t'⟩, called, rfl⟩ := Option.map_eq_some_iff.1 step
      refine sysMmap_ok h live addr.toNat_lt (fun regions at_ => ?_) called
      unfold mapOk at ok
      dsimp only at ok
      rw [at_, Option.all_some] at ok
      simpa using ok
    | munmap addr len =>
      obtain ⟨⟨ret, t'⟩, called, rfl⟩ := Option.map_eq_some_iff.1 step
      refine sysMunmap_ok h live (fun regions at_ => ?_) called
      unfold mapOk at ok
      dsimp only at ok
      rw [at_, Option.all_some] at ok
      exact ok
    | fork =>
      refine taskFork_ok h ?_ step
      unfold mapOk at ok
      rw [Bool.or_eq_true, Bool.or_eq_true, or_assoc] at ok
      exact ok.imp_right (Or.imp_left Option.isNone_iff_eq_none.1)
    | exit =>
      cases step
      refine processFree_ok h live fun r hr => ?_
      unfold mapOk at ok
      dsimp only at ok
      exact Option.isNone_iff_eq_none.1 (List.all_eq_true.1 ok r hr)

/-- A region belongs to a process that exists and counts as a reference to its inode. -/
theorem Mappings.Ok.referenced {p i : Nat} {r : Region}
    (h : s.Ok others) (mem : r ∈ s.table p) (ino : r.ino = some i) :
    0 < (s.files.inodes i).refcnt := by
  have live : s.files.live p = true := by
    by_contra dead
    rw [table_of_none (h.idle p (by simpa using dead))] at mem
    cases mem
  have one : 0 < inoCount (s.table p) i :=
    List.countP_pos_iff.2 ⟨r, mem, by simpa using ino⟩
  have all : inoCount (s.table p) i ≤ s.mapped i :=
    Finset.single_le_sum (f := fun p => inoCount (s.table p) i)
      (fun _ _ => Nat.zero_le _) (Files.mem_processes.2 (h.inside p live))
  have count := h.counts i
  omega

/-- Every run of calls that meet `mapOk` keeps the count of every inode, and an inode that a
region refers to has a reference. -/
theorem region_references_counted {s t : Mappings} {others : Nat → Nat}
    {calls : List (Nat × MapCall)} (start : s.Ok others)
    (run : Runs.Run (Runs.Guarded (fun s call => mapOk s call = true)
      (Runs.partialGraph mapStep)) s calls t) :
    t.Counts others ∧
      ∀ p, ∀ r ∈ t.table p, ∀ i, r.ino = some i → 0 < (t.files.inodes i).refcnt := by
  have ok : t.Ok others := run.invariant (I := fun s : Mappings => s.Ok others)
    (fun _ _ _ h step => mapStep_ok h step.1 step.2) start
  exact ⟨ok.counts, fun p r mem i ino => ok.referenced mem ino⟩

/-- Process 1 has inode 1, a file of three pages of zeroes, open as descriptor 3, and a region
of all of it. -/
def oneRegion : Mappings where
  files := { Files.boot with
    table := Function.update (fun _ => .unused) 0 ⟨some 1, some "/file", 0, 0, 1⟩
    next := 1
    files := Function.update (fun _ => none) (1, 3) (some 0)
    live := fun p => decide (p ≤ 1)
    cwd := Function.update (Function.update (fun _ => none) 0 (some 0)) 1 (some 0)
    inodes := fun i => ⟨if i = 0 then 3 else if i = 1 then 2 else 0, .plain⟩
    nextInode := 2 }
  mem := onePage 768 [4, 5]
  regions := Function.update (fun _ => none) 1 (some ⟨[0], PROCESS_MMAP_LIMIT⟩)
  records := Function.update (fun _ => none) 0
    (some ⟨0x40000000, 0x3000, PROT_READ, MAP_PRIVATE, some 1, 0⟩)
  next := 1
  kmallocs := List.replicate 8 true
  pgdir := fun _ => 1
  data := fun _ => ⟨true, 0x3000, fun n _ => (List.replicate n 0, none)⟩

/-- The root directory has a reference from the mounted file system. -/
def rootHeld (i : Nat) : Nat := if i = 0 then 1 else 0

theorem refs_none {κ : Type} [DecidableEq κ] (slots : Finset κ) (i : Nat) :
    refs slots (fun _ => none) i = 0 :=
  refs_eq_zero_iff.2 fun _ _ => nofun

theorem oneRegion_ok : oneRegion.Ok rootHeld := by
  have table : oneRegion.table 1 = [⟨0x40000000, 0x3000, PROT_READ, MAP_PRIVATE, some 1, 0⟩] := rfl
  have empty (p : Nat) (ne : p ≠ 1) : oneRegion.regions p = none := by
    simp [oneRegion, ne]
  have elems (p n : Nat) (mem : n ∈ oneRegion.elems p) : p = 1 := by
    by_contra ne
    rw [elems_of_none (empty p ne)] at mem
    cases mem
  constructor
  case files =>
    refine ⟨⟨?_, ?_, ?_⟩, ?_⟩
    · have none : Counted Files.slots (fun _ => none) fun _ : Nat => 0 := fun e => by
        rw [refs_none]
        rfl
      refine none.point rfl (Files.mem_slots.2 ⟨by decide, by decide⟩) fun e => ?_
      by_cases first : e = 0
      · subst first
        rfl
      · change (update (fun _ => ProcessFile.unused) 0 _ e).refcnt = _
        rw [update_of_ne first, if_neg first]
        rfl
    · intro e lt
      obtain rfl : e = 0 := Nat.lt_one_iff.1 lt
      exact by decide
    · intro k e points
      change update (fun _ => none) (1, 3) (some 0) k = some e at points
      rw [update_apply] at points
      split_ifs at points with same
      cases points
      exact ⟨same ▸ Files.mem_slots.2 ⟨by decide, by decide⟩, by decide⟩
    · intro k dead
      have ne : k ≠ (1, 3) := by
        rintro rfl
        exact absurd dead (by decide)
      simp [oneRegion, ne]
  case inside =>
    intro p live
    have le : p ≤ 1 := of_decide_eq_true live
    unfold PROCESS_LIMIT
    omega
  case idle =>
    intro p dead
    have lt : ¬p ≤ 1 := of_decide_eq_false dead
    exact empty p (by omega)
  case tables =>
    refine ⟨fun p regions at_ => ?_, fun p q ne n hn hn' => ne ?_⟩
    · by_cases first : p = 1
      · subst first
        obtain rfl : ⟨[0], PROCESS_MMAP_LIMIT⟩ = regions := Option.some.inj at_
        constructor
        case max => rfl
        case size => decide
        case records => rfl
        case nodup => exact List.nodup_singleton 0
        case named =>
          intro n hn
          cases List.mem_singleton.1 hn
          exact Nat.one_pos
        case sorted => exact List.pairwise_singleton _ _
        case whole =>
          intro r hr
          cases List.mem_singleton.1 hr
          exact ⟨rfl, rfl, by decide, by decide⟩
      · rw [empty p first] at at_
        cases at_
    · exact (elems p n hn).trans (elems q n hn').symm
  case counts =>
    intro i
    have entry : refs Files.entries oneRegion.files.inodeOf i = if i = 1 then 1 else 0 := by
      have points : oneRegion.files.inodeOf = update (fun _ => none) 0 (some 1) := by
        funext e
        by_cases first : e = 0
        · subst first
          rfl
        · change (update (fun _ => ProcessFile.unused) 0 _ e).inode = _
          rw [update_of_ne first, update_of_ne first]
          rfl
      rw [points, refs_point rfl (Files.mem_entries.2 (by decide)), refs_none, zero_add]
    have dirs : refs Files.processes oneRegion.files.dirOf i = if i = 0 then 2 else 0 := by
      have points : oneRegion.files.dirOf =
          update (update (fun _ => none) 0 (some 0)) 1 (some 0) := by
        funext p
        by_cases first : p ≤ 1
        · exact if_pos (decide_eq_true first)
        · rw [update_of_ne (by omega), update_of_ne (by omega)]
          exact if_neg (by simpa [oneRegion] using first)
      rw [points, refs_point (update_of_ne (by decide) _ _)
        (Files.mem_processes.2 (by decide)), refs_point rfl (Files.mem_processes.2 (by decide)),
        refs_none]
      split <;> rfl
    have regions : oneRegion.mapped i = if i = 1 then 1 else 0 := by
      unfold mapped
      rw [Finset.sum_eq_single_of_mem 1 (Files.mem_processes.2 (by decide)), table,
        inoCount_cons]
      · by_cases first : i = 1
        · subst first
          rfl
        · simp [first, Ne.symm first, inoCount]
      · intro p _ ne
        rw [table_of_none (empty p ne)]
        rfl
    rw [entry, dirs, regions]
    change (if i = 0 then 3 else if i = 1 then 2 else 0 : Int) = _
    unfold rootHeld
    split <;> split <;> simp_all

/-- The region is split, the two parts are inherited by a child, and the child unmaps both
and exits. -/
theorem region_references_counted_split : ∃ t, Runs.exec mapOk mapStep oneRegion
      [(1, .munmap 0x40001000 0x1000), (1, .fork (some 4, onePage 768 [5]) 0),
        (2, .munmap 0x40000000 0x1000), (2, .munmap 0x40002000 0x1000),
        (2, .exit (onePage 768 [5]))] = some t ∧ t.Counts rootHeld := by
  refine Runs.exec_leads (by decide +kernel) fun t run => ?_
  exact (region_references_counted oneRegion_ok run).1

/-- A second mapping of the file takes no reference: three pointers to its inode, two
references. -/
theorem mmap_takes_no_reference :
    ¬∀ (s t : Mappings) (others : Nat → Nat) (calls : List (Nat × MapCall)), s.Ok others →
      Runs.Run (Runs.partialGraph mapStep) s calls t → t.Counts others := by
  intro claim
  have after : (mapStep oneRegion (1, .mmap 0x40004000 0x1000 4 2 3 0)).map (fun t =>
      ((t.files.inodes 1).refcnt, AddrSpace.inoCount (t.table 1) 1, t.files.inodeOf 0)) =
        some (2, 2, some 1) := by decide +kernel
  obtain ⟨t, step, facts⟩ := Option.map_eq_some_iff.1 after
  have count := claim oneRegion t rootHeld _ oneRegion_ok (.cons step (.nil t)) 1
  simp only [Prod.mk.injEq] at facts
  obtain ⟨_, _, points⟩ := facts
  have entry := refs_pos (Files.mem_entries.2 (by decide)) points
  have all : AddrSpace.inoCount (t.table 1) 1 ≤ t.mapped 1 :=
    Finset.single_le_sum (f := fun p => AddrSpace.inoCount (t.table p) 1)
      (fun _ _ => Nat.zero_le _) (Files.mem_processes.2 (by decide))
  omega

end Os0
