import Os0.Memory.Calls

/-! When `sys_munmap` takes away exactly the pages it is asked for. The recursion into the
next region passes on `len - region->pm_len`: this is what is left of the range only if the
range starts at the base of the region. -/
namespace Os0

open Bytes Function List Option

variable {start stop : Nat}

theorem mem_pageRange {v : Nat} (aligned : start % 4096 = 0) :
    v ∈ pageRange start stop ↔ start ≤ v ∧ v < stop ∧ v % 4096 = 0 := by
  constructor
  · intro h
    have := pageRange_mem h
    omega
  · rintro ⟨_, _, _⟩
    refine mem_map.2 ⟨(v - start) / 4096, mem_range.2 ?_, ?_⟩ <;> omega

theorem pageRange_nodup (start stop : Nat) : (pageRange start stop).Nodup := by
  apply List.Nodup.map _ nodup_range
  intro i j eq
  dsimp only at eq
  omega

theorem pageRange_nil (le : stop ≤ start) : pageRange start stop = [] := by
  unfold pageRange
  rw [show (stop - start + 4095) / 4096 = 0 by omega]
  rfl

namespace Memory

variable {m : Memory}

/-- The pages of `[lo, hi)` are unmapped and their frames freed, each once and from the
lowest on. The tables of the directory are its own, and the last 4 MiB, where the directory
keeps the list of its tables, are not in the range. -/
structure Drops (m m' : Memory) (lo hi : Nat) : Prop where
  frames : m'.frames = m.frames
  currDir : m'.currDir = m.currDir
  currAddr : m'.currAddr = m.currAddr
  supply : m'.supply = m.supply
  released : m'.released = m.released
  entries : m.OwnTables m.currDir → hi ≤ 0xffc00000 → ∀ v < 0xffc00000,
    m'.entryAt m.currDir v = if lo ≤ v ∧ v < hi then 0 else m.entryAt m.currDir v
  stack : m.OwnTables m.currDir → hi ≤ 0xffc00000 →
    m.pageStack.length + (pageRange lo hi).length ≤ PAGE_STACK_NELEM →
    m'.pageStack =
      ((pageRange lo hi).map fun v => frame (m.getPaddr m.currDir v)).reverse ++ m.pageStack

variable {m' : Memory}

section

variable (m : Memory)

variable (v : Nat)

theorem freePage_fields (addr : Nat) :
    (m.freePage addr).pages = m.pages ∧ (m.freePage addr).frames = m.frames ∧
      (m.freePage addr).currDir = m.currDir ∧ (m.freePage addr).currAddr = m.currAddr ∧
      (m.freePage addr).supply = m.supply ∧ (m.freePage addr).released = m.released := by
  unfold freePage
  split <;> exact ⟨rfl, rfl, rfl, rfl, rfl, rfl⟩

theorem unmapPage_fields (dir v : Nat) :
    (m.unmapPage dir v).frames = m.frames ∧ (m.unmapPage dir v).currDir = m.currDir ∧
      (m.unmapPage dir v).currAddr = m.currAddr ∧ (m.unmapPage dir v).supply = m.supply ∧
      (m.unmapPage dir v).released = m.released ∧ (m.unmapPage dir v).pageStack = m.pageStack := by
  unfold unmapPage
  split <;> exact ⟨rfl, rfl, rfl, rfl, rfl, rfl⟩

theorem dropPage_eq : ∃ pages pageStack, m.dropPage v = { m with pages, pageStack } := by
  unfold dropPage unmapPage freePage
  split <;> split <;> exact ⟨_, _, rfl⟩

theorem dropPage_currDir : (m.dropPage v).currDir = m.currDir := by
  obtain ⟨_, _, eq⟩ := m.dropPage_eq v
  rw [eq]

theorem dropPage_stack (room : m.pageStack.length < PAGE_STACK_NELEM) :
    (m.dropPage v).pageStack = frame (m.getPaddr m.currDir v) :: m.pageStack := by
  rw [dropPage, ((m.freePage _).unmapPage_fields m.currDir v).2.2.2.2.2, freePage,
    if_neg (ne_of_lt room)]

end

variable {dir v : Nat} {vs : List Nat}

/-- Only the words of the paging objects matter for the entries. -/
theorem entry_congr (pages : m'.pages = m.pages) (dir p t : Nat) :
    m'.entry dir p t = m.entry dir p t := by
  unfold Memory.entry Memory.table
  rw [pages]

theorem getPaddr_congr (pages : m'.pages = m.pages) (dir v : Nat) :
    m'.getPaddr dir v = m.getPaddr dir v := by
  simp only [getPaddr, table, pages]

theorem OwnTables.congr (own : m.OwnTables dir)
    (pages : m'.pages = m.pages) : m'.OwnTables dir := by
  constructor <;> simp only [Memory.table, pages]
  · exact own.vmap_ne
  · exact own.table_ne
  · exact own.distinct

theorem unmapPage_entries (own : m.OwnTables dir) (low : v < 0xffc00000) (base : v % 4096 = 0) :
    (m.unmapPage dir v).OwnTables dir ∧ ∀ w < 0xffc00000,
      (m.unmapPage dir v).entryAt dir w = if frame w = v then 0 else m.entryAt dir w := by
  cases there : present (m.pages dir (pdi v)) with
  | true =>
    have puts := unmapPage_puts own (pdi_lt low) there
    refine ⟨puts.own, fun w hw => ?_⟩
    rw [entryAt, puts.entry _ (pdi_lt hw)]
    simp only [indices_frame base]
    rfl
  | false =>
    have same' : m.unmapPage dir v = m := by simp [unmapPage, there]
    rw [same']
    refine ⟨own, fun w hw => ?_⟩
    split
    · rename_i eq
      obtain ⟨hp, -⟩ := (indices_frame base).2 eq
      simp [entryAt, Memory.entry, hp, there]
    · rfl

theorem dropPage_entries (own : m.OwnTables m.currDir) (low : v < 0xffc00000)
    (base : v % 4096 = 0) :
    (m.dropPage v).OwnTables m.currDir ∧ ∀ w < 0xffc00000,
      (m.dropPage v).entryAt m.currDir w = if frame w = v then 0 else m.entryAt m.currDir w := by
  obtain ⟨pages, -⟩ := m.freePage_fields (m.getPaddr m.currDir v)
  obtain ⟨own', entries⟩ := unmapPage_entries (own.congr pages) low base
  refine ⟨own', fun w hw => ?_⟩
  rw [dropPage, entries w hw, entryAt, entryAt, entry_congr pages]

theorem dropPages_eq (vs : List Nat) (m : Memory) :
    ∃ pages pageStack, vs.foldl dropPage m = { m with pages, pageStack } := by
  induction vs generalizing m with
  | nil => exact ⟨_, _, rfl⟩
  | cons v vs ih =>
    obtain ⟨_, _, first⟩ := m.dropPage_eq v
    obtain ⟨_, _, rest⟩ := ih (m.dropPage v)
    exact ⟨_, _, rest.trans (by rw [first])⟩

theorem dropPages_entries (own : m.OwnTables m.currDir)
    (pages : ∀ v ∈ vs, v < 0xffc00000 ∧ v % 4096 = 0) :
    ∀ w < 0xffc00000, (vs.foldl dropPage m).entryAt m.currDir w =
      if frame w ∈ vs then 0 else m.entryAt m.currDir w := by
  induction vs generalizing m with
  | nil => simp
  | cons v vs ih =>
    intro w hw
    obtain ⟨⟨low, base⟩, rest⟩ := forall_mem_cons.1 pages
    obtain ⟨own', entries⟩ := dropPage_entries own low base
    have dir := m.dropPage_currDir v
    rw [← dir] at own'
    have later := ih own' rest w hw
    rw [dir] at later
    rw [foldl_cons, later, entries w hw]
    by_cases first : frame w = v
    · simp [first]
    · simp [first]

theorem dropPages_stack (own : m.OwnTables m.currDir)
    (pages : ∀ v ∈ vs, v < 0xffc00000 ∧ v % 4096 = 0) (nodup : vs.Nodup)
    (room : m.pageStack.length + vs.length ≤ PAGE_STACK_NELEM) :
    (vs.foldl dropPage m).pageStack =
      (vs.map fun v => frame (m.getPaddr m.currDir v)).reverse ++ m.pageStack := by
  induction vs generalizing m with
  | nil => rfl
  | cons v vs ih =>
    obtain ⟨⟨low, base⟩, rest⟩ := forall_mem_cons.1 pages
    obtain ⟨notin, nodup⟩ := nodup_cons.1 nodup
    obtain ⟨own', entries⟩ := dropPage_entries own low base
    have dir := m.dropPage_currDir v
    rw [← dir] at own'
    rw [length_cons] at room
    have top := m.dropPage_stack v (by omega)
    have later := ih own' rest nodup (by rw [top, length_cons]; omega)
    -- the other pages still have the frames they had
    have same : (vs.map fun w => frame ((m.dropPage v).getPaddr m.currDir w)) =
        vs.map fun w => frame (m.getPaddr m.currDir w) := by
      apply map_congr_left
      intro w hw
      obtain ⟨low', base'⟩ := rest w hw
      have other : frame w ≠ v := by
        rw [frame_base base']
        rintro rfl
        exact notin hw
      rw [getPaddr_base base', getPaddr_base base', entries w low', if_neg other]
    rw [foldl_cons, later, dir, same, top]
    simp

theorem dropPages_drops {lo hi : Nat} (base : lo % 4096 = 0) (base' : hi % 4096 = 0) :
    Drops m ((pageRange lo hi).foldl dropPage m) lo hi := by
  obtain ⟨_, _, eq⟩ := dropPages_eq (pageRange lo hi) m
  have pages : hi ≤ 0xffc00000 → ∀ v ∈ pageRange lo hi, v < 0xffc00000 ∧ v % 4096 = 0 := by
    intro low v hv
    have := (mem_pageRange base).1 hv
    omega
  constructor
  case entries =>
    intro own low v hv
    have inside : frame v ∈ pageRange lo hi ↔ lo ≤ v ∧ v < hi := by
      rw [mem_pageRange base, frame]
      omega
    rw [dropPages_entries own (pages low) v hv]
    simp only [inside]
  case stack => exact fun own low => dropPages_stack own (pages low) (pageRange_nodup lo hi)
  all_goals rw [eq]

end Memory

/-- The length of a range rounded up to whole pages. -/
def roundUp (len : Nat) : Nat := (len + 4095) / 4096 * 4096

theorem roundPage_roundUp {len : Nat} (pos : 0 < len) (small : len < 4294967296) :
    roundPage len = roundUp len % 4294967296 := by
  unfold roundPage roundUp add32 sub32
  omega

namespace AddrSpace

variable {s s' : AddrSpace} {rs : List Region}

/-- The pages of `[lo, hi)` have been taken from the address space: they are unmapped and
freed, the regions show the other pages as before, the inodes have the references of the
regions, and nothing else is different. -/
structure Unmaps (s s' : AddrSpace) (rs : List Region) (lo hi : Nat) : Prop where
  mem : Memory.Drops s.mem s'.mem lo hi
  table : ∃ rs', Rows s' rs' ∧ rs'.Pairwise Region.Apart ∧ Cut rs rs' lo hi ∧
    ∀ i, s'.refs i - inoCount rs' i = s.refs i - inoCount rs i
  others : ∀ p < s.next, p ∉ s.regions.elems → s'.records p = s.records p
  initBreak : s'.initBreak = s.initBreak
  brk : s'.brk = s.brk
  pid : s'.pid = s.pid

variable {rs' : List Region} {r : Region} {ret : Except Errno Unit} {fuel addr len : Nat}

variable {p mid temp : Nat}

theorem munmapBelow_pid (h : s.munmapBelow mid p temp = some (ret, s')) : s'.pid = s.pid := by
  obtain ⟨r, -, eq⟩ := map_eq_some_iff.1 h
  split at eq <;> cases eq
  · rfl
  · cases r.ino <;> rfl

theorem addRegion_pid (h : s.addRegion p r = some s') : s'.pid = s.pid := by
  unfold addRegion at h
  split at h
  · obtain ⟨-, -, rfl⟩ := map_eq_some_iff.1 h
    rfl
  · cases h

theorem munmapRest_pid {vaddr : Nat}
    (h : s.munmapRest mid p temp vaddr = some (ret, s')) : s'.pid = s.pid := by
  obtain ⟨r, -, h⟩ := bind_eq_some_iff.1 h
  split at h
  · have kept : s.kmalloc.2.pid = s.pid := by
      unfold kmalloc
      split <;> rfl
    split at h <;> rename_i s₁ hk <;> rw [hk] at kept
    · cases h
      exact kept
    · obtain ⟨_, added, h⟩ := bind_eq_some_iff.1 h
      have count : (s₁.countRef r.ino 1).pid = s₁.pid := by cases r.ino <;> rfl
      exact (munmapBelow_pid h).trans ((addRegion_pid added).trans (count.trans kept))
  · exact munmapBelow_pid h

section

variable (t : Rows s rs)
include t

theorem munmapFuel_pid (h : munmapFuel fuel s addr len = some (ret, s')) : s'.pid = s.pid := by
  induction fuel generalizing s s' addr len ret with
  | zero => cases h
  | succ fuel ih =>
    rcases munmapFuel_cases t fuel addr len with eq | ⟨mid, p, r, -, -, eq⟩ <;> rw [eq] at h
    · cases h
      rfl
    split at h
    · obtain ⟨⟨ret, s₂⟩, inner, h⟩ := bind_eq_some_iff.1 h
      obtain ⟨-, -, -, -, -, -, -, pid⟩ := s.dropped_fields addr r.fin
      have first := (ih (rows_dropped t addr r.fin) inner).trans pid
      cases ret with
      | error e =>
        cases h
        exact first
      | ok => exact (munmapRest_pid h).trans first
    · obtain ⟨-, -, -, -, -, -, -, pid⟩ := s.dropped_fields addr (add32 addr (roundPage len))
      exact (munmapRest_pid h).trans pid

/-- A straight range is fine for `sys_munmap` if there is room for the region behind it. -/
theorem unmapFine_of_straight (apart : rs.Pairwise Region.Apart)
    (straight : Straight rs addr (roundPage len))
    (room : (∃ r ∈ rs, r.base < addr + roundPage len ∧ addr + roundPage len < r.fin) →
      rs.length < PROCESS_MMAP_LIMIT) :
    s.unmapFine fuel addr len = true := by
  induction fuel generalizing addr len with
  | zero => rfl
  | succ fuel ih =>
    unfold unmapFine
    split
    · rfl
    split
    · rename_i mid search
      obtain ⟨p, r, at_mid, record, mem, ok, lower, upper⟩ := findRegion_found t search
      have found : AtRegion s rs addr mid p r :=
        ⟨search, at_mid, record, mem, ok, lower, upper, by omega⟩
      have stop : add32 addr (roundPage len) = addr + roundPage len := add32_eq straight.fits
      rw [t.region_eq, t.get at_mid record, all_some, ok.end_eq]
      dsimp only
      rw [stop]
      split
      · rename_i past
        obtain ⟨-, next, same⟩ := straight.next apart found past
        exact ih next (by rw [same]; exact room)
      · rw [decide_eq_true_eq]
        have pos := straight.pos
        by_cases inside : addr + roundPage len < r.fin
        · have free := room ⟨r, mem, by omega, inside⟩
          exact .inr (.inr ⟨fun _ => by omega, t.length_eq ▸ free⟩)
        · exact .inl (by omega)
    · rfl

theorem addRegion_room (h : s.addRegion p r = some s') : rs.length < PROCESS_MMAP_LIMIT := by
  unfold addRegion SortedArray.insert at h
  split at h
  · obtain ⟨_, inserted, -⟩ := map_eq_some_iff.1 h
    split at inserted
    · rename_i room
      rw [← t.length_eq, ← t.max]
      exact room
    · cases inserted
  · cases h

/-- Where `sys_munmap` ends inside a region and succeeds, the table had room for another. -/
theorem munmapRest_room {vaddr : Nat} (record : s.records p = some r)
    (ok : r.Ok) (inside : vaddr < r.fin) (h : s.munmapRest mid p temp vaddr = some (.ok (), s')) :
    rs.length < PROCESS_MMAP_LIMIT := by
  unfold munmapRest at h
  rw [record, bind_some, ok.end_eq, if_pos inside] at h
  split at h
  · cases h
  · rename_i new s₁ hk
    obtain ⟨_, added, -⟩ := bind_eq_some_iff.1 h
    obtain ⟨-, regions, records, -, -, next, -⟩ := kmalloc_fields hk
    obtain ⟨-, regions', records', next', -⟩ := countRef_fields s₁ r.ino 1
    have t₁ := t.congr (regions'.trans regions) (records'.trans records) (next' ▸ next)
    exact addRegion_room t₁ added

/-- A full table has no room for the region behind a straight range: the call fails, or
writes behind the table. -/
theorem munmapFuel_full (apart : rs.Pairwise Region.Apart)
    (straight : Straight rs addr (roundPage len)) (mem : r ∈ rs)
    (lower : r.base < addr + roundPage len) (upper : addr + roundPage len < r.fin)
    (full : PROCESS_MMAP_LIMIT ≤ rs.length) : munmapFuel fuel s addr len ≠ some (.ok (), s') := by
  induction fuel generalizing s s' addr len with
  | zero => nofun
  | succ fuel ih =>
    intro h
    rcases munmapFuel_cases t fuel addr len with eq | ⟨_, p, q, found, -, eq⟩ <;> rw [eq] at h
    · cases h
    have stop : add32 addr (roundPage len) = addr + roundPage len := add32_eq straight.fits
    rw [stop] at h
    split at h
    · rename_i past
      obtain ⟨-, next, same⟩ := straight.next apart found past
      obtain ⟨⟨ret, _⟩, inner, h⟩ := bind_eq_some_iff.1 h
      cases ret with
      | error e => cases h
      | ok =>
        rw [← same] at lower upper
        exact ih (rows_dropped t addr q.fin) next lower upper inner
    · have first := found.lower
      -- the range ends in the region it starts in, so that is the region it splits
      have same : q = r := by
        by_contra other
        rcases apart.forall found.mem mem other with above | above <;>
          unfold Region.fin at * <;> omega
      subst same
      have room := munmapRest_room (rows_dropped t addr _) (found.dropped _ _).2 found.ok (by omega) h
      omega

end

/-- An insertion goes no further than an element that is not below the item. -/
theorem insertBy_shifts {cmp : Nat → Nat → Bool} {item elem i : Nat} {elems : List Nat}
    (at_i : elems[i]? = some elem) (stop : cmp elem item = false) :
    (insertBy cmp item elems)[i + 1]? = some elem := by
  induction elems generalizing i with
  | nil => cases at_i
  | cons _ _ ih =>
    unfold insertBy
    split
    · rename_i below
      cases i with
      | zero =>
        cases at_i
        rw [stop] at below
        cases below
      | succ i => exact ih at_i
    · exact at_i

/-- Unmapping nothing at the base of a region frees its record and leaves it in the table: the
copy of the region goes in front of it, and is removed in its place. -/
theorem munmapRest_dangles (t : Rows s rs) (at_mid : s.regions.elems[mid]? = some p)
    (record : s.records p = some r) (ok : r.Ok)
    (h : s.munmapRest mid p r.base r.base = some (.ok (), s')) :
    p ∈ s'.regions.elems ∧ s'.records p = none ∧
      ∀ q < s.next, q ≠ p → s'.records q = s.records q := by
  have inside : r.base < r.fin := Nat.lt_add_of_pos_right ok.pos
  have room := munmapRest_room t record ok inside h
  have named : p < s.next := t.named p (mem_of_getElem? at_mid)
  unfold munmapRest at h
  rw [record, bind_some, ok.end_eq, if_pos inside] at h
  split at h
  · cases h
  rename_i new s₁ hk
  obtain ⟨-, regions, records, -, -, _, names⟩ := kmalloc_fields hk
  obtain ⟨rfl, _⟩ := names new rfl
  obtain ⟨-, cregions, crecords, _, -⟩ := countRef_fields s₁ r.ino 1
  generalize hpiece : ({ r with
    base := r.base
    len := sub32 r.fin r.base
    offset := (r.offset + r.base - r.base).bmod 4294967296 } : Region) = piece at h
  have base : piece.base = r.base := by rw [← hpiece]
  have piece_ok : piece.Ok := by
    apply (behind_ok ok ok.base piece _).1
    rw [Region.behind, if_pos inside, ← hpiece, sub32_eq inside.le ok.fits]
    exact mem_singleton_self _
  obtain ⟨s₂, eq, -, added⟩ := t.enter (cregions.trans regions) (crecords.trans records) (by omega)
    piece_ok.whole room
  rw [eq, bind_some] at h
  obtain ⟨_, elems, compare⟩ := added.elems
  rw [cregions, regions] at elems compare
  rw [crecords, records] at compare
  have update : s₂.records = update s.records s.next (some piece) := by
    rw [added.records, crecords, records]
  -- the record is one place further up than `mid`
  have stays : s₂.regions.elems[mid + 1]? = some p := by
    rw [elems]
    apply insertBy_shifts at_mid
    rw [compare p (mem_of_getElem? at_mid) r record, base]
    exact decide_eq_false (lt_irrefl _)
  have record₂ : s₂.records p = some r := by
    rw [update, update_of_ne (by omega)]
    exact record
  rw [munmapBelow, record₂, map_some, if_neg (lt_irrefl _)] at h
  cases h
  obtain ⟨-, -, drecords, -⟩ := countRef_fields (s₂.setRecord p none) r.ino (-1)
  obtain ⟨_, _⟩ := List.getElem?_eq_some_iff.1 stays
  refine ⟨?_, ?_, fun q named' other => ?_⟩
  · change p ∈ (s₂.regions.remove mid).elems
    rw [SortedArray.remove, if_pos (by omega)]
    refine mem_iff_getElem?.2 ⟨mid, ?_⟩
    rw [getElem?_eraseIdx_of_ge le_rfl]
    exact stays
  · change ((s₂.setRecord p none).countRef r.ino (-1)).records p = none
    rw [drecords]
    exact update_self _ _ _
  · change ((s₂.setRecord p none).countRef r.ino (-1)).records q = s.records q
    rw [drecords]
    change Function.update s₂.records p none q = _
    rw [Function.update_of_ne other, update, Function.update_of_ne (by omega)]

theorem rows_no_dangling (t : Rows s rs) (there : p ∈ s.regions.elems)
    (freed : s.records p = none) : False := by
  have entry : s.records p ∈ rs.map some := t.records ▸ mem_map_of_mem there
  rw [freed] at entry
  obtain ⟨r, -, eq⟩ := mem_map.1 entry
  cases eq

/-- Unmapping an empty range leaves the address it starts at in a region, or a freed record in
the table. -/
theorem munmapRest_empty (t : Rows s rs) (found : AtRegion s rs addr mid p r)
    (h : s.munmapRest mid p addr addr = some (.ok (), s')) (t' : Rows s' rs') :
    ∃ page, Shows rs' addr page := by
  obtain ⟨-, at_mid, record, _, ok, lower, upper, page⟩ := found
  rcases Nat.eq_or_lt_of_le lower with base | _
  · subst base
    obtain ⟨there, freed, -⟩ := munmapRest_dangles t at_mid record ok h
    exact (rows_no_dangling t' there freed).elim
  · have room := munmapRest_room t record ok upper h
    obtain ⟨_, _, rs₁, eq, u, -, -, parts⟩ := munmapRest_spec t at_mid record ok lower upper page
      le_rfl upper.le page fun _ _ => ⟨fun eq => by omega, room⟩
    rw [h] at eq
    cases eq
    obtain ⟨_, -, now⟩ := parts rfl
    have same : rs' = rs₁ := t'.table_eq.symm.trans u.rows.table_eq
    refine ⟨r.page addr, ?_⟩
    rw [same, shows_perm now, shows_append, shows_append, shows_behind lower]
    exact .inl (.inr ⟨⟨⟨lower, upper⟩, rfl⟩, le_rfl⟩)

/-- The ranges that `sys_munmap` takes away: those that start at the base of a region or stay
inside the region they start in, that end below the end of the address space, and that leave
no more regions than the table holds while it splits one. -/
structure Unmappable (rs : List Region) (lo hi : Nat) : Prop where
  fits : hi < 4294967296
  inside : ∀ r ∈ rs, r.base < lo → lo < r.fin → hi ≤ r.fin
  room : (∃ r ∈ rs, r.base < hi ∧ hi < r.fin) → rs.length < PROCESS_MMAP_LIMIT

theorem Unmappable.straight (h : Unmappable rs addr (addr + roundUp len))
    (pos : 0 < len) (small : len < 4294967296) :
    roundPage len = roundUp len ∧ Straight rs addr (roundPage len) := by
  have fits := h.fits
  have whole : roundPage len = roundUp len := by
    rw [roundPage_roundUp pos small, Nat.mod_eq_of_lt (by omega)]
  rw [whole]
  exact ⟨rfl, by unfold roundUp; omega, fits, h.inside⟩

theorem above_le_length (rs : List Region) (addr : Nat) : above rs addr ≤ rs.length :=
  countP_le_length

theorem apart_at_end {q : Region} (apart : rs.Pairwise Region.Apart) (hr : r ∈ rs) (hq : q ∈ rs)
    (lower : q.base < r.fin) (upper : r.fin < q.fin) : False := by
  have other : r ≠ q := by
    rintro rfl
    omega
  rcases apart.forall hr hq other with above | above <;> unfold Region.fin at * <;> omega

section Recursion

variable {addr rest mid p : Nat} {r : Region} {s₁ s₂ : AddrSpace} (t₁ : Rows s₁ rs)
  (apart : rs.Pairwise Region.Apart) (at_mid : s₁.regions.elems[mid]? = some p)
  (record : s₁.records p = some r) (mem : r ∈ rs) (ok : r.Ok) (lower : r.base < addr)
  (upper : addr < r.fin) (page : addr % 4096 = 0) (whole : roundPage rest = rest) {fuel : Nat}
  (inner : munmapFuel fuel s₁ r.fin rest = some (.ok (), s₂))
  (outer : s₂.munmapRest mid p addr r.fin = some (.ok (), s'))

include t₁ apart at_mid record mem ok lower upper whole inner outer

/-- The recursion unmaps `rest` bytes behind the region, and what is behind them stays. -/
theorem munmap_leaves (page : addr % 4096 = 0) (enough : above rs r.fin < fuel) (pos : 0 < rest)
    (fits : r.fin + rest < 4294967296) {v : Nat} {seen : Nat × Nat × Option Nat × Int}
    (behind : r.fin + rest ≤ v) (shown : Shows rs v seen) (t' : Rows s' rs') :
    Shows rs' v seen := by
  have straight : Straight rs r.fin (roundPage rest) := by
    rw [whole]
    exact ⟨pos, fits, fun q hq below above => (apart_at_end apart mem hq below above).elim⟩
  have room : (∃ q ∈ rs, q.base < r.fin + roundPage rest ∧ r.fin + roundPage rest < q.fin) →
      rs.length < PROCESS_MMAP_LIMIT := by
    rintro ⟨q, hq, below, above⟩
    by_contra full
    exact munmapFuel_full t₁ apart straight hq below above (Nat.le_of_not_lt full) inner
  obtain ⟨ret, s₃, _, eq, u, -, exactly⟩ :=
    munmapFuel_exact t₁ enough (unmapFine_of_straight t₁ apart straight room)
  rw [inner] at eq
  cases eq
  obtain ⟨cut, -⟩ := exactly rfl apart straight
  obtain ⟨ret, s₃, rs₃, eq, u', -, -, last⟩ :=
    u.cut t₁ at_mid record ok lower.le upper page
  rw [outer] at eq
  cases eq
  have same : rs' = rs₃ := t'.table_eq.symm.trans u'.rows.table_eq
  rw [same, last rfl apart v seen, cut v seen]
  exact ⟨⟨shown, by omega⟩, by omega⟩

/-- A recursion for an empty range leaves a freed record in the table. -/
theorem munmap_breaks (pos : 0 < fuel) (empty : add32 r.fin rest ≤ r.fin) : ¬Rows s' rs' := by
  obtain ⟨n, rfl⟩ := Nat.exists_eq_add_of_lt pos
  rw [zero_add] at inner
  rcases munmapFuel_cases t₁ n r.fin rest with eq | ⟨_, p', q, found, -, eq⟩ <;> rw [eq] at inner
  · cases inner
  rw [whole, if_neg (not_lt.2 (empty.trans found.upper.le)),
    max_eq_left empty] at inner
  obtain ⟨-, records, next, -⟩ := s₁.dropped_fields r.fin (add32 r.fin rest)
  have base : q.base = r.fin := by
    have first := found.lower
    by_contra other
    exact apart_at_end apart mem found.mem (by omega) found.upper
  obtain ⟨at₂, record₂⟩ := found.dropped r.fin (add32 r.fin rest)
  rw [← base] at inner
  obtain ⟨there, freed, kept⟩ := munmapRest_dangles (rows_dropped t₁ _ _) (base ▸ at₂)
    (base ▸ record₂) found.ok inner
  have other : p ≠ p' := by
    rintro rfl
    rw [found.record] at record
    cases record
    omega
  have named : p < s₁.next := t₁.named p (mem_of_getElem? at_mid)
  have record' : s₂.records p = some r := by
    rw [kept p (by rw [base, next]; exact named) other, base, records]
    exact record
  unfold munmapRest munmapBelow at outer
  rw [record', bind_some, ok.end_eq, if_neg (lt_irrefl _), map_some,
    if_pos lower] at outer
  cases outer
  intro t'
  apply rows_no_dangling t' there
  exact (update_of_ne other.symm _ _).trans freed

end Recursion

/-- A range that starts inside a region and leaves it is not unmapped by a call that succeeds. -/
theorem sysMunmap_stops_short (t : Rows s rs) (apart : rs.Pairwise Region.Apart)
    (fits : addr + roundPage len < 4294967296) (mem : r ∈ rs) (lower : r.base < addr)
    (upper : addr < r.fin) (past : r.fin < addr + roundPage len)
    (covered : ∃ q ∈ rs, q.Holds (r.base + roundPage len))
    (h : s.sysMunmap addr len = some (.ok (), s')) (t' : Rows s' rs') :
    ∃ v page, addr ≤ v ∧ v < addr + roundPage len ∧ Shows rs' v page := by
  unfold sysMunmap at h
  rcases munmapFuel_cases t s.regions.elems.length addr len with eq | ⟨_, p, q, found, -, eq⟩ <;>
    rw [eq] at h
  · cases h
  have same : q = r := by
    by_contra other
    exact Region.Holds.not_apart ⟨found.lower, found.upper⟩ ⟨le_of_lt lower, upper⟩
      (apart.forall found.mem mem other)
  subst same
  rw [add32_eq fits, if_pos past] at h
  obtain ⟨⟨ret, _⟩, inner, h⟩ := bind_eq_some_iff.1 h
  cases ret with
  | error e => cases h
  | ok =>
    have t₁ := rows_dropped t addr q.fin
    obtain ⟨at₁, record₁⟩ := found.dropped addr q.fin
    have whole := (roundPage_spec len).1
    have pages := found.ok.pages
    have fin : q.fin = q.base + q.len := rfl
    have rest_whole : roundPage (sub32 (roundPage len) q.len) = sub32 (roundPage len) q.len := by
      apply roundPage_eq <;> unfold sub32 <;> omega
    have enough : above rs q.fin < s.regions.elems.length := by
      have := above_lt mem upper
      have := above_le_length rs addr
      rw [t.length_eq]
      omega
    by_cases long : q.len < roundPage len
    · have rest : sub32 (roundPage len) q.len = roundPage len - q.len :=
        sub32_eq long.le (by omega)
      obtain ⟨b, hb, holds⟩ := covered
      refine ⟨q.base + roundPage len, b.page (q.base + roundPage len), by omega, by omega, ?_⟩
      exact munmap_leaves t₁ apart at₁ record₁ mem found.ok lower upper rest_whole inner h found.page
        enough (by omega) (by omega) (by omega) ⟨b, hb, holds, rfl⟩ t'
    · have empty : add32 q.fin (sub32 (roundPage len) q.len) ≤ q.fin := by
        unfold add32 sub32
        omega
      exact (munmap_breaks t₁ apart at₁ record₁ mem found.ok lower upper rest_whole inner h
        (by omega) empty t').elim

/-- A range up to the end of the address space is not unmapped by a call that succeeds. -/
theorem sysMunmap_wraps (t : Rows s rs) (wraps : add32 addr (roundPage len) ≤ addr)
    (h : s.sysMunmap addr len = some (.ok (), s')) (t' : Rows s' rs') :
    ∃ page, Shows rs' addr page := by
  unfold sysMunmap at h
  rcases munmapFuel_cases t s.regions.elems.length addr len with eq | ⟨_, p, r, found, -, eq⟩ <;>
    rw [eq] at h
  · cases h
  have none : s.dropped addr (add32 addr (roundPage len)) = s := by
    rw [dropped, pageRange_nil wraps]
    rfl
  rw [if_neg (not_lt.2 (wraps.trans found.upper.le)), none,
    max_eq_left wraps] at h
  exact munmapRest_empty t found h t'

/-- A call of `sys_munmap` that does not fail, on a range that the regions cover, takes away
exactly the range if and only if the range is one it can take. -/
theorem sysMunmap_exact_iff {addr len : Nat} (t : Rows s rs) (apart : rs.Pairwise Region.Apart)
    (page : addr % 4096 = 0) (low : addr < 4294967296) (pos : 0 < len) (small : len < 4294967296)
    (covered : ∀ v, addr ≤ v → v < addr + roundUp len → ∃ r ∈ rs, r.Holds v)
    (succeeds : ∀ e s', s.sysMunmap addr len ≠ some (.error e, s')) :
    (∃ s', s.sysMunmap addr len = some (.ok (), s') ∧
      Unmaps s s' rs addr (addr + roundUp len)) ↔ Unmappable rs addr (addr + roundUp len) := by
  have up : 0 < roundUp len ∧ roundUp len % 4096 = 0 ∧ roundUp len ≤ 4294967296 := by
    unfold roundUp
    omega
  have rounded := roundPage_roundUp pos small
  constructor
  · rintro ⟨s', h, exactly⟩
    obtain ⟨rs', t', -, cut, -⟩ := exactly.table
    have gone : ∀ v, addr ≤ v → v < addr + roundUp len → ∀ page, ¬Shows rs' v page :=
      fun v first last page shown => ((cut v page).1 shown).2 ⟨first, last⟩
    have fits : addr + roundUp len < 4294967296 := by
      by_contra wraps
      have wraps : add32 addr (roundPage len) ≤ addr := by
        unfold add32
        omega
      obtain ⟨page, shown⟩ := sysMunmap_wraps t wraps h t'
      exact gone addr (Nat.le_refl _) (by omega) page shown
    have whole : roundPage len = roundUp len := by
      rw [rounded, Nat.mod_eq_of_lt (by omega)]
    have inside : ∀ r ∈ rs, r.base < addr → addr < r.fin → addr + roundUp len ≤ r.fin := by
      intro r hr lower upper
      by_contra past
      rw [← whole] at fits past
      have first : ∃ q ∈ rs, q.Holds (r.base + roundPage len) := by
        by_cases short : r.base + roundPage len < addr
        · exact ⟨r, hr, by omega, by omega⟩
        · exact covered _ (by omega) (by omega)
      obtain ⟨v, page, lower', upper', shown⟩ := sysMunmap_stops_short t apart fits hr lower upper
        (by omega) first h t'
      exact gone v lower' (whole ▸ upper') page shown
    refine ⟨fits, inside, ?_⟩
    rintro ⟨r, hr, lower, upper⟩
    by_contra full
    rw [← whole] at fits inside lower upper
    exact munmapFuel_full t apart ⟨by omega, fits, inside⟩ hr lower upper (Nat.le_of_not_lt full) h
  · intro cleanly
    obtain ⟨whole, straight⟩ := cleanly.straight pos small
    have enough : above rs addr < s.regions.elems.length + 1 := by
      have := above_le_length rs addr
      rw [t.length_eq]
      omega
    have fine : s.unmapFine (s.regions.elems.length + 1) addr len = true := by
      apply unmapFine_of_straight t apart straight
      rw [whole]
      exact cleanly.room
    obtain ⟨ret, s', rs', eq, unmapped, balanced, exactly⟩ := munmapFuel_exact t enough fine
    cases ret with
    | error e => exact absurd eq (succeeds e s')
    | ok =>
      obtain ⟨cut, mem⟩ := exactly rfl apart straight
      rw [whole] at cut mem
      refine ⟨s', eq, ?_, ⟨rs', unmapped.rows, unmapped.trims.apart apart, cut, balanced.refs⟩,
        balanced.frame, unmapped.kept.initBreak, unmapped.kept.brk, munmapFuel_pid t eq⟩
      rw [mem]
      exact Memory.dropPages_drops page (by omega)

/-- Two regions of two pages each, side by side. -/
def lowRegion : Region := ⟨0x1000, 0x2000, PROT_READ, MAP_PRIVATE, none, 0⟩
def highRegion : Region := ⟨0x3000, 0x2000, PROT_READ, MAP_PRIVATE, some 7, 0⟩

/-- Their address space: the directory is at 1, the list of its tables at 2, a table at 3. -/
def twoRegions : AddrSpace where
  mem :=
    { pages := fun o i =>
        if o = 1 then (if i = 0 then 0x3007 else if i = 1023 then 2 else 0)
        else if o = 2 then (if i = 0 then 3 else 0)
        else if o = 3 ∧ 1 ≤ i ∧ i ≤ 4 then 0x100007 + i * 4096 else 0
      frames := fun _ _ => 0
      currDir := 1
      pageStack := []
      currAddr := 0x200000
      supply := []
      released := [] }
  regions := ⟨[1, 2], PROCESS_MMAP_LIMIT⟩
  records := fun p => if p = 1 then some lowRegion else if p = 2 then some highRegion else none
  next := 3
  kmallocs := [true]
  refs := fun _ => 1
  initBreak := 0
  brk := 0
  pid := 1

theorem twoRegions_rows : Rows twoRegions [lowRegion, highRegion] where
  max := rfl
  size := by decide
  records := rfl
  nodup := by decide
  named := by decide
  sorted := by simp [lowRegion, highRegion]
  whole := by
    intro r hr
    simp only [mem_cons, not_mem_nil, or_false] at hr
    rcases hr with rfl | rfl <;> exact ⟨by decide, by decide, by decide, by decide⟩

theorem twoRegions_apart : [lowRegion, highRegion].Pairwise Region.Apart := by
  simp [Region.Apart, Region.fin, lowRegion, highRegion]

/-- The first region and a page of the second, unmapped from the base of the first on. -/
theorem sysMunmap_exact_iff_from_base :
    ∃ s', twoRegions.sysMunmap 0x1000 0x3000 = some (.ok (), s') ∧
      Unmaps twoRegions s' [lowRegion, highRegion] 0x1000 0x4000 := by
  have done : (twoRegions.sysMunmap 0x1000 0x3000).map (·.1.toBool) = some true := by
    decide +kernel
  refine (sysMunmap_exact_iff twoRegions_rows twoRegions_apart (by decide) (by decide) (by decide)
    (by decide) (fun v first last => ?_) fun e s' failed => ?_).2 ?_
  · have last : v < 0x4000 := last
    by_cases low : v < 0x3000
    · exact ⟨lowRegion, by simp, first, low⟩
    · exact ⟨highRegion, by simp, Nat.le_of_not_lt low, Nat.lt_trans last (by decide)⟩
  · rw [failed] at done
    cases done
  · refine ⟨by decide, fun r hr lower upper => ?_, fun _ => by decide⟩
    simp only [List.mem_cons, List.not_mem_nil, or_false] at hr
    rcases hr with rfl | rfl <;> revert lower upper <;> decide

/-- A range of three pages that starts at the second page of the first region: the call
succeeds, and the last page is still in a region. -/
theorem munmap_leaves_last_page :
    Rows twoRegions [lowRegion, highRegion] ∧ [lowRegion, highRegion].Pairwise Region.Apart ∧
    (∀ v, 0x2000 ≤ v → v < 0x5000 → ∃ r ∈ [lowRegion, highRegion], r.Holds v) ∧
    (∀ e s', twoRegions.sysMunmap 0x2000 0x3000 ≠ some (.error e, s')) ∧
    ¬∃ s', twoRegions.sysMunmap 0x2000 0x3000 = some (.ok (), s') ∧
      Unmaps twoRegions s' [lowRegion, highRegion] 0x2000 0x5000 := by
  have done : (twoRegions.sysMunmap 0x2000 0x3000).map (fun x => (x.1.toBool, x.2.table)) =
      some (true, [⟨0x1000, 0x1000, PROT_READ, MAP_PRIVATE, none, 0⟩,
        ⟨0x4000, 0x1000, PROT_READ, MAP_PRIVATE, some 7, 0x1000⟩]) := by decide +kernel
  refine ⟨twoRegions_rows, twoRegions_apart, fun v first last => ?_, fun e s' failed => ?_, ?_⟩
  · by_cases low : v < 0x3000
    · exact ⟨lowRegion, by simp, Nat.le_trans (by decide) first, low⟩
    · exact ⟨highRegion, by simp, Nat.le_of_not_lt low, last⟩
  · rw [failed] at done
    cases done
  · rintro ⟨s', call, unmaps⟩
    rw [call] at done
    have table := (Prod.mk.inj (Option.some.inj done)).2
    obtain ⟨rs', rows, -, cut, -⟩ := unmaps.table
    obtain rfl : s'.table = rs' := rows.table_eq
    have kept : Shows s'.table 0x4000 (Region.page _ 0x4000) :=
      ⟨_, by rw [table]; exact .tail _ (.head _), ⟨by decide, by decide⟩, rfl⟩
    exact ((cut _ _).1 kept).2 (by decide)

/-- In a table of regions that lie one behind the other and do not wrap, the search for an address
ends within as many rounds as there are regions and looks at no entry outside of the table; it
finds the region that holds the address exactly if there is one. -/
theorem find_region_exact (records : s.regions.elems.map s.records = rs.map some)
    (apart : rs.Pairwise fun r q => r.base + r.len ≤ q.base)
    (fits : ∀ r ∈ rs, r.base + r.len < 4294967296) (addr : Nat) :
    (∀ rounds ≥ rs.length,
      Bisect.search (s.probeAt addr) rounds 0 rs.length = s.findRegion addr) ∧
    ∃ o, s.findRegion addr = some o ∧
      ∀ i, o = .found i ↔ ∃ r, s.region i = some r ∧ r.base ≤ addr ∧ addr < r.base + r.len := by
  have size : s.regions.elems.length = rs.length := by simpa using congrArg List.length records
  have probe (i : Nat) (h : i < rs.length) : s.probeAt addr i = some
      (if rs[i].base ≤ addr ∧ addr < rs[i].base + rs[i].len then .eq
        else if addr < rs[i].base then .gt else .lt) := by
    rw [probeAt, region_of_records records, getElem?_eq_getElem h, map_some, regionEnd,
      add32_eq (fits _ (getElem_mem h))]
  have order := pairwise_iff_getElem.1 apart
  rw [findRegion, size]
  refine ⟨fun rounds enough => Bisect.search_stable (by omega) (by omega), ?_⟩
  have ends : Bisect.search (s.probeAt addr) rs.length 0 rs.length ≠ none := by
    apply Bisect.search_isSome
    intro i inside
    rw [probe i inside]
    exact nofun
  obtain ⟨o, search⟩ := ne_none_iff_exists'.1 ends
  refine ⟨o, search, fun i => ⟨?_, ?_⟩⟩
  · rintro rfl
    obtain ⟨-, inside, eq⟩ := Bisect.search_found search
    rw [probe i inside] at eq
    refine ⟨rs[i], by rw [region_of_records records, getElem?_eq_getElem inside], ?_⟩
    grind
  · rintro ⟨r, region, held⟩
    obtain ⟨inside, rfl⟩ := List.getElem?_eq_some_iff.1 (region_of_records records i ▸ region)
    refine some.inj (search.symm.trans (Bisect.search_eq_found (by omega) (by omega) inside ?_
      (fun j below => ?_) fun j inside' above => ?_))
    · rw [probe i inside, if_pos held]
    · have := order j i (by omega) inside below
      rw [probe j (by omega), if_neg (by omega), if_neg (by omega)]
    · have := order i j inside inside' above
      rw [probe j inside', if_neg (by omega), if_pos (by omega)]

/-- The search for the second page of the second region. -/
theorem find_region_exact_two :
    ∃ o, twoRegions.findRegion 0x4000 = some o ∧ ∀ i, o = .found i ↔
      ∃ r, twoRegions.region i = some r ∧ r.base ≤ 0x4000 ∧ 0x4000 < r.base + r.len :=
  (find_region_exact twoRegions_rows.records (by simp [lowRegion, highRegion])
    (by simp [lowRegion, highRegion]) 0x4000).2

end AddrSpace

end Os0
