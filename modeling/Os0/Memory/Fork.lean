import Os0.Memory.Clone

/-! What a fork shares: the clone of the parent's directory, and the frames that
parent and child free when both release their memory regions. -/
namespace Os0

open Bytes List Option Memory

/-- `pm_base` and `pm_len` of a `ProcessMemoryRegion`. -/
structure MappedRange where
  base : Nat
  len : Nat
  deriving DecidableEq, Repr

namespace Memory

/-- The loop body of `process_region_free`, with the frames it has given to
`free_page`. -/
def releasePage (dir : Nat) (s : Memory × List Nat) (vaddr : Nat) : Memory × List Nat :=
  let paddr := s.1.getPaddr dir vaddr
  let s := if paddr ≠ 0 then (s.1.freePage paddr, s.2 ++ [frame paddr]) else s
  (s.1.unmapPage dir vaddr, s.2)

/-- `process_region_free`. -/
def regionFree (dir : Nat) (s : Memory × List Nat) (r : MappedRange) : Memory × List Nat :=
  (pageRange r.base (add32 r.base r.len)).foldl (releasePage dir) s

/-- `sorted_array_destroy` of a region table with `process_region_free`. -/
def regionsFree (dir : Nat) (s : Memory × List Nat) (rs : List MappedRange) : Memory × List Nat :=
  rs.foldl (regionFree dir) s

end Memory

/-- The isolation a fork should give: user pages in frames of their own with the
same contents and flags, kernel pages shared, and no frame freed twice when parent
and child release the regions they both record. -/
structure ForkIsolated (m m' : Memory) (parent child : Nat) (rs : List MappedRange) : Prop where
  user : ∀ v < RELOC_VADDR, present (m.entryAt parent v) = true →
    present (m'.entryAt child v) = true ∧
    frame (m'.entryAt child v) ≠ frame (m.entryAt parent v) ∧
    m'.frames (frame (m'.entryAt child v)) = m.frames (frame (m.entryAt parent v)) ∧
    pageFlags (m'.entryAt child v) = pageFlags (m.entryAt parent v)
  kernel : ∀ v, RELOC_VADDR ≤ v → v < TASK_LOCAL_BOUND → present (m.entryAt parent v) = true →
    present (m'.entryAt child v) = true ∧
    frame (m'.entryAt child v) = frame (m.entryAt parent v) ∧
    frame (m'.entryAt child v) = frame (m'.entryAt parent v)
  once : (Memory.regionsFree child (Memory.regionsFree parent (m', []) rs) rs).2.Nodup

namespace Memory

variable {m : Memory} {dir : Nat}

variable {v : Nat}

variable {s : Memory × List Nat}

theorem pdi_local (h : v < TASK_LOCAL_BOUND) : pdi v < 1023 :=
  pdi_lt (h.trans (by decide))

theorem tableVaddr_lt (h : v < TASK_LOCAL_BOUND) :
    tableVaddr (pdi v) (pti v) < TASK_LOCAL_BOUND := by
  unfold tableVaddr pdi pti TASK_LOCAL_BOUND at *
  omega

theorem releasePage_absent (page : v % 4096 = 0)
    (absent : s.1.entryAt dir v = 0) : releasePage dir s v = s := by
  unfold entryAt entry at absent
  unfold releasePage getPaddr unmapPage
  by_cases there : present (s.1.pages dir (pdi v)) = true
  · rw [if_pos there] at absent
    have zero : add32 (frame 0) (pageFlags v) = 0 := by
      unfold add32 frame pageFlags
      omega
    have same : s.1.setWord (s.1.table dir (pdi v)) (pti v) 0 = s.1 := by
      unfold setWord
      congr 1
      funext o j
      split
      · rename_i at_
        rw [at_.1, at_.2, absent]
      · rfl
    simp only [if_pos there, absent, zero, ne_eq, not_true_eq_false, if_false, same]
  · simp only [if_neg there, ne_eq, not_true_eq_false, if_false]

theorem regionsFree_absent {rs : List MappedRange} {bound : Nat}
    (small : bound < 4294967296) (user : ∀ r ∈ rs, r.base % 4096 = 0 ∧ r.base + r.len ≤ bound)
    (absent : ∀ v < bound, s.1.entryAt dir v = 0) : regionsFree dir s rs = s := by
  have pages : ∀ vs : List Nat, (∀ v ∈ vs, v % 4096 = 0 ∧ v < bound) →
      vs.foldl (releasePage dir) s = s := by
    intro vs
    induction vs with
    | nil => exact fun _ => rfl
    | cons v vs ih =>
      intro hvs
      obtain ⟨⟨page, low⟩, rest⟩ := forall_mem_cons.1 hvs
      rw [foldl_cons, releasePage_absent page (absent v low)]
      exact ih rest
  unfold regionsFree
  induction rs with
  | nil => rfl
  | cons r rs ih =>
    obtain ⟨⟨page, low⟩, rest⟩ := forall_mem_cons.1 user
    have first : regionFree dir s r = s := by
      refine pages _ fun v hv => ?_
      obtain ⟨-, _, _⟩ := pageRange_mem hv
      have stop : add32 r.base r.len = r.base + r.len := add32_eq (by omega)
      omega
    rw [foldl_cons, first]
    exact ih rest

theorem DirOk.entry_eq_zero (ok : m.DirOk dir) {p t : Nat} (hp : p < 1023) (ht : t < 1024)
    (absent : present (m.entry dir p t) = false) : m.entry dir p t = 0 := by
  unfold entry at absent ⊢
  split
  · rename_i there
    rw [if_pos there] at absent
    exact ok.absent p hp there t ht absent
  · rfl

end Memory

/-- Fork isolation holds exactly for a parent without user pages: `page_table_clone`
links every page below `TASK_LOCAL_BOUND`, user pages included. -/
theorem fork_isolated_iff {m m' : Memory} {child : Nat} {rs : List MappedRange}
    (ok : m.DirOk m.currDir) (fresh : m.Fresh (m.Owned m.currDir))
    (user : ∀ r ∈ rs, r.base % 4096 = 0 ∧ r.base + r.len ≤ RELOC_VADDR)
    (clone : m.pageDirClone m.currDir = some (some child, m')) :
    ForkIsolated m m' m.currDir child rs ↔
      ∀ v < RELOC_VADDR, present (m.entryAt m.currDir v) = false := by
  obtain ⟨linked, kept, stage⟩ := Memory.pageDirClone_spec ok fresh rfl clone
  have below : ∀ v < RELOC_VADDR, v < TASK_LOCAL_BOUND := by
    intro v hv
    unfold RELOC_VADDR at hv
    unfold TASK_LOCAL_BOUND
    omega
  have link : ∀ v < TASK_LOCAL_BOUND, m'.entryAt child v = m.entryAt m.currDir v := fun v hv =>
    linked _ (Memory.pdi_local hv) _ (pti_lt v) (Memory.tableVaddr_lt hv)
  constructor
  · intro isolated v hv
    by_contra there
    obtain ⟨-, different, -⟩ := isolated.user v hv (by simpa using there)
    exact different (congrArg frame (link v (below v hv)))
  · intro none
    have zero : ∀ v < RELOC_VADDR, m.entryAt m.currDir v = 0 := fun v hv =>
      ok.entry_eq_zero (Memory.pdi_local (below v hv)) (pti_lt v) (none v hv)
    have zeroChild : ∀ v < RELOC_VADDR, m'.entryAt child v = 0 := fun v hv =>
      (link v (below v hv)).trans (zero v hv)
    have zeroParent : ∀ v < RELOC_VADDR, m'.entryAt m.currDir v = 0 := by
      intro v hv
      by_cases staged : Memory.stagedAny (pdi v) (pti v)
      · unfold Memory.entryAt
        have was := zero v hv
        unfold Memory.entryAt at was
        rw [staged.1, staged.2] at was ⊢
        rcases stage with same | gone
        · exact same.trans was
        · exact gone
      · exact (kept _ (Memory.pdi_local (below v hv)) _ (pti_lt v) staged).trans (zero v hv)
    refine ⟨fun v hv there => ?_, fun v high low there => ?_, ?_⟩
    · rw [none v hv] at there
      cases there
    · have same := link v low
      have parent : m'.entryAt m.currDir v = m.entryAt m.currDir v := by
        refine kept _ (Memory.pdi_local low) _ (pti_lt v) fun staged => ?_
        have := staged.1
        unfold pdi at this
        unfold RELOC_VADDR at high
        omega
      rw [same, parent]
      exact ⟨there, rfl, rfl⟩
    · have parentFree : Memory.regionsFree m.currDir (m', []) rs = (m', []) :=
        Memory.regionsFree_absent (by decide) user zeroParent
      have childFree : Memory.regionsFree child (m', []) rs = (m', []) :=
        Memory.regionsFree_absent (by decide) user zeroChild
      rw [parentFree, childFree]
      exact List.nodup_nil

/-- A directory with one page, entry 0 of table `p`, and memory for these objects. -/
def onePage (p : Nat) (objects : List Nat) : Memory where
  pages o j :=
    if o = 1 then (if j = p then 7 else if j = 1023 then 2 else 0)
    else if o = 2 then (if j = p then 3 else 0)
    else if o = 3 then (if j = 0 then 0x20000007 else 0)
    else 0
  frames _ _ := 0
  currDir := 1
  pageStack := []
  currAddr := 0x20001000
  supply := objects.map some
  released := []

namespace Memory

variable {p : Nat} {objects : List Nat}

theorem onePage_ok (hp : p < 1023) (nodup : objects.Nodup) (new : ∀ object ∈ objects, 4 ≤ object) :
    (onePage p objects).DirOk 1 ∧ (onePage p objects).Fresh ((onePage p objects).Owned 1) ∧
      ∀ q < 1023, present ((onePage p objects).pages 1 q) = true → q = p := by
  have only : ∀ q < 1023, present ((onePage p objects).pages 1 q) = true → q = p := by
    intro q hq there
    by_contra other
    have zero : (onePage p objects).pages 1 q = 0 := by
      change (if q = p then 7 else if q = 1023 then 2 else 0) = 0
      rw [if_neg other, if_neg (by omega)]
    rw [zero] at there
    exact absurd there (by decide)
  have vmap : (onePage p objects).pages 1 1023 = 2 := by
    change (if 1023 = p then 7 else if 1023 = 1023 then 2 else 0) = 2
    rw [if_neg (by omega), if_pos rfl]
  have table : (onePage p objects).table 1 p = 3 := by
    unfold table
    rw [vmap]
    exact if_pos rfl
  refine ⟨⟨?_, ?_, ?_, ?_⟩, ⟨?_, ?_⟩, only⟩
  · rw [vmap]
    decide
  · intro q hq there
    rw [only q hq there, table, vmap]
    decide
  · intro q hq r hr thereq therer _
    rw [only q hq thereq, only r hr therer]
  · intro q hq there t ht
    rw [only q hq there, table]
    exact eq_zero_of_absent (p := t = 0) (w := 0x20000007) rfl
  · change (List.filterMap id (objects.map some)).Nodup
    rw [filterMap_map]
    exact filterMap_some.symm ▸ nodup
  · intro object supplied
    obtain ⟨n, hn, eq⟩ := mem_map.1 supplied
    obtain rfl := some.inj eq
    have := new n hn
    refine ⟨by omega, ?_⟩
    rintro (_ | two | ⟨q, hq, there, three⟩)
    · omega
    · rw [vmap] at two
      omega
    · rw [only q hq there, table] at three
      omega

theorem onePage_clone (hp : p < 960) (nodup : objects.Nodup)
    (new : ∀ object ∈ objects, 4 ≤ object) (enough : 1025 ≤ objects.length) :
    ∃ child m', (onePage p objects).pageDirClone 1 = some (some child, m') := by
  obtain ⟨ok, fresh, only⟩ := onePage_ok (show p < 1023 by omega) nodup new
  refine pageDirClone_links ok fresh rfl (fun q hq => or_iff_not_imp_left.2 fun high t _ => ?_) rfl
    enough
  exact if_neg fun there => high (only q hq there ▸ hp)

end Memory

theorem newObjects : (range' 4 1025).Nodup ∧ (∀ object ∈ range' 4 1025, 4 ≤ object) ∧
    1025 ≤ (range' 4 1025).length := by
  refine ⟨nodup_range', fun object ho => ?_, le_of_eq length_range'.symm⟩
  exact (mem_range'_1.1 ho).1

theorem fork_isolated_iff_at : ∃ child m',
    (onePage 768 (List.range' 4 1025)).pageDirClone 1 = some (some child, m') ∧
      ForkIsolated (onePage 768 (List.range' 4 1025)) m' 1 child [⟨0x400000, 0x2000⟩] := by
  obtain ⟨nodup, new, enough⟩ := newObjects
  obtain ⟨ok, fresh, only⟩ := Memory.onePage_ok (show 768 < 1023 by decide) nodup new
  obtain ⟨child, m', clone⟩ := Memory.onePage_clone (show 768 < 960 by decide) nodup new enough
  refine ⟨child, m', clone, (fork_isolated_iff ok fresh (by decide) clone).2 fun v hv => ?_⟩
  unfold Memory.entryAt Memory.entry
  rw [if_neg]
  · rfl
  · intro there
    have := only (pdi v) (by unfold pdi RELOC_VADDR at *; omega) there
    unfold pdi RELOC_VADDR at *
    omega

/-- A parent with a page at `0x400000`: the child maps the same frame there. -/
theorem fork_shares_user_page :
    ¬∀ (m m' : Memory) (child : Nat) (rs : List MappedRange), m.DirOk m.currDir →
      m.Fresh (m.Owned m.currDir) →
      (∀ r ∈ rs, r.base % 4096 = 0 ∧ r.base + r.len ≤ RELOC_VADDR) →
      m.pageDirClone m.currDir = some (some child, m') →
      ForkIsolated m m' m.currDir child rs := by
  intro claim
  obtain ⟨nodup, new, enough⟩ := newObjects
  generalize List.range' 4 1025 = objects at nodup new enough
  obtain ⟨ok, fresh, -⟩ := Memory.onePage_ok (show 1 < 1023 by decide) nodup new
  obtain ⟨child, m', clone⟩ := Memory.onePage_clone (show 1 < 960 by decide) nodup new enough
  have isolated := claim (onePage 1 objects) m' child [⟨0x400000, 0x1000⟩] ok fresh (by decide) clone
  have there : present ((onePage 1 objects).entryAt 1 0x400000) = true := by
    simp [Memory.entryAt, Memory.entry, Memory.table, onePage, present, pdi, pti]
  obtain ⟨-, different, -⟩ := isolated.user 0x400000 (by decide) there
  have linked := (Memory.pageDirClone_spec ok fresh rfl clone).1 1 (by decide) 0 (by decide)
    (by decide)
  exact different (congrArg frame linked)

end Os0
