import Os0.Memory.FileMap
import Os0.Process.Exec

/-! The segments of an image: the pages that `process_load_segment` maps, and the record from
which they are released. -/
namespace Os0

open Bytes Function List Option AddrSpace

/-- The pages of the loops of `process_load_segment`. -/
def segmentPages (h : Phdr) : List Nat := pageRange (frame h.vaddr) (add32 h.vaddr h.memsz)

/-- The record that it enters. -/
def segmentRecord (h : Phdr) : Region where
  base := frame h.vaddr
  len := roundPage h.memsz
  prot := (if hasFlag h.flags PF_R then PROT_READ else 0) |||
    (if hasFlag h.flags PF_W then PROT_WRITE else 0) |||
    (if hasFlag h.flags PF_X then PROT_EXEC else 0)
  flags := MAP_PRIVATE ||| MAP_ANONYMOUS
  ino := none
  offset := 0

/-- What `vfs_read` returns for the bytes of a segment. -/
def segmentBytes (c : Credentials) (f : ExecFile) (h : Phdr) : Except Errno (List UInt8) :=
  if 0 < h.filesz then vfsRead c f h.filesz (toOff h.offset) else .ok []

section Parts

variable {c : Credentials} {f : ExecFile} {s s' : AddrSpace} {h : Phdr} {ret : Except ExecError Nat}

theorem fillSegment_cases (call : fillSegment c f s h = some (ret, s')) :
    (∃ e, segmentBytes c f h = .error e ∧ ret = .error (.errno Errno.EIO) ∧ s' = s) ∨
    ∃ bytes m₁ m₂ m₃, segmentBytes c f h = .ok bytes ∧
      s.mem.fill h.vaddr bytes.length (fun i => bytes.getD i 0) = some m₁ ∧
      m₁.fill (add32 h.vaddr h.filesz) (sub32 h.memsz h.filesz) (fun _ => 0) = some m₂ ∧
      (if hasFlag h.flags PF_W then some m₂ else m₂.remap PAGE_FLAG_USER (segmentPages h)) =
        some m₃ ∧
      ret = .ok (add32 h.vaddr h.memsz) ∧ s' = { s with mem := m₃ } := by
  unfold fillSegment at call
  dsimp only at call
  rw [← segmentBytes] at call
  cases read : segmentBytes c f h with
  | error e =>
    rw [read] at call
    cases call
    exact .inl ⟨e, rfl, rfl, rfl⟩
  | ok bytes =>
    rw [read] at call
    obtain ⟨m₁, first, call⟩ := bind_eq_some_iff.1 call
    obtain ⟨m₂, second, call⟩ := bind_eq_some_iff.1 call
    obtain ⟨m₃, third, call⟩ := map_eq_some_iff.1 call
    cases call
    exact .inr ⟨bytes, m₁, m₂, m₃, rfl, first, second, third, rfl, rfl⟩

theorem processLoadSegment_cases (call : processLoadSegment c f s h = some (ret, s')) :
    add32 h.vaddr h.memsz ≤ 0xfffff000 ∧ ∃ missing m,
      s.mem.mapNew (PAGE_FLAG_USER ||| PAGE_FLAG_WRITE) (segmentPages h) = some (missing, m) ∧
      ((missing ≠ none ∧ ret = .error (.errno .ENOMEM) ∧ s' = { s with mem := m }) ∨
        (missing = none ∧ { s with mem := m }.kmalloc = (none, s') ∧
          ret = .error (.errno .ENOMEM)) ∨
        ∃ p s₁ s₂, missing = none ∧ { s with mem := m }.kmalloc = (some p, s₁) ∧
          s₁.addRegion p (segmentRecord h) = some s₂ ∧ fillSegment c f s₂ h = some (ret, s')) := by
  unfold processLoadSegment at call
  split at call
  · cases call
  obtain ⟨⟨missing, m⟩, mapped, call⟩ := bind_eq_some_iff.1 call
  refine ⟨by omega, missing, m, mapped, ?_⟩
  cases missing with
  | some v =>
    cases call
    exact .inl ⟨by simp, rfl, rfl⟩
  | none =>
    dsimp only at call
    cases hk : { s with mem := m }.kmalloc with
    | mk name s₁ =>
      rw [hk] at call
      cases name with
      | none =>
        cases call
        exact .inr (.inl ⟨rfl, rfl, rfl⟩)
      | some p =>
        obtain ⟨s₂, added, call⟩ := bind_eq_some_iff.1 call
        exact .inr (.inr ⟨p, s₁, s₂, rfl, rfl, added, call⟩)

end Parts

namespace Memory

variable {m m' : Memory} {dir : Nat}

variable {lo count : Nat} {byte : Nat → UInt8} {vs : List Nat} (freed : List Nat)

theorem fill_fields (h : m.fill lo count byte = some m') :
    m'.pages = m.pages ∧ m'.currDir = m.currDir := by
  refine fill_keeps (I := fun n => n.pages = m.pages ∧ n.currDir = m.currDir) h ⟨rfl, rfl⟩
    fun _ p _ n n' same filled => ?_
  unfold fillPage at filled
  split at filled
  · cases filled
    exact same
  · cases filled

/-- Mapped pages that are filled and then made read-only unless they are to be written keep their
frames, and the other entries stay. -/
theorem protect_spec {m₁ m₂ m₃ : Memory} {w : Bool} (first : m.fill lo count byte = some m₁)
    {lo' count' : Nat}
    {byte' : Nat → UInt8} (second : m₁.fill lo' count' byte' = some m₂)
    (third : (if w then some m₂ else m₂.remap PAGE_FLAG_USER vs) = some m₃)
    (current : m.currDir = dir) (own : m.OwnTables dir)
    (pages : ∀ v ∈ vs, v < 0xffc00000 ∧ v % 4096 = 0 ∧ present (m.entryAt dir v) = true) :
    m₃.currDir = dir ∧ m₃.OwnTables dir ∧ m₃.frames = m₂.frames ∧
    (∀ v < 0xffc00000, m₃.getPaddr dir v = m.getPaddr dir v) ∧
    ∀ v < 0xffc00000, frame v ∉ vs → m₃.entryAt dir v = m.entryAt dir v := by
  obtain ⟨pages₁, dir₁⟩ := fill_fields first
  obtain ⟨pages₂, dir₂⟩ := fill_fields second
  have same : m₂.pages = m.pages := pages₂.trans pages₁
  obtain rfl : m₂.currDir = dir := dir₂.trans (dir₁.trans current)
  have own' := own.congr same
  have entries := entryAt_congr same m₂.currDir
  have paddr := getPaddr_congr same m₂.currDir
  split at third
  · cases third
    exact ⟨rfl, own', rfl, fun v _ => paddr v, fun v _ _ => entries v⟩
  · have flagged := remap_mapped third own' (by simpa only [entries] using pages)
    exact ⟨flagged.currDir, flagged.own, flagged.frames,
      fun v low => (flagged.paddr v low).trans (paddr v),
      fun v low out => (flagged.kept v low out).trans (entries v)⟩

theorem releasePage_spec {v : Nat} (own : m.OwnTables dir)
    (low : v < 0xffc00000) (base : v % 4096 = 0) :
    (releasePage dir (m, freed) v).1.OwnTables dir ∧
    (∀ w < 0xffc00000, (releasePage dir (m, freed) v).1.entryAt dir w =
      if frame w = v then 0 else m.entryAt dir w) ∧
    (∀ x ∈ freed, x ∈ (releasePage dir (m, freed) v).2) ∧
    (m.getPaddr dir v ≠ 0 → frame (m.getPaddr dir v) ∈ (releasePage dir (m, freed) v).2) := by
  unfold releasePage
  by_cases none : m.getPaddr dir v = 0
  · obtain ⟨own', entries⟩ := unmapPage_entries own low base
    simp only [none, ne_eq, not_true_eq_false, if_false]
    exact ⟨own', entries, fun _ hx => hx, fun h => h.elim⟩
  · obtain ⟨pages, -⟩ := m.freePage_fields (m.getPaddr dir v)
    obtain ⟨own', entries⟩ := unmapPage_entries (own.congr pages) low base
    simp only [ne_eq, none, not_false_eq_true, if_true]
    refine ⟨own', fun w hw => ?_, fun x hx => mem_append_left _ hx, fun _ => by simp⟩
    rw [entries w hw, entryAt, entryAt, entry_congr pages]

theorem releasePages_spec (own : m.OwnTables dir)
    (pages : ∀ v ∈ vs, v < 0xffc00000 ∧ v % 4096 = 0) :
    (∀ w < 0xffc00000, (vs.foldl (releasePage dir) (m, freed)).1.entryAt dir w =
      if frame w ∈ vs then 0 else m.entryAt dir w) ∧
    (∀ x ∈ freed, x ∈ (vs.foldl (releasePage dir) (m, freed)).2) ∧
    ∀ v ∈ vs, m.getPaddr dir v ≠ 0 →
      frame (m.getPaddr dir v) ∈ (vs.foldl (releasePage dir) (m, freed)).2 := by
  induction vs generalizing m freed with
  | nil => simp
  | cons v vs ih =>
    obtain ⟨⟨low, base⟩, rest⟩ := forall_mem_cons.1 pages
    obtain ⟨own', entries, kept, new⟩ := releasePage_spec freed own low base
    generalize hs : releasePage dir (m, freed) v = s at *
    obtain ⟨m₁, freed₁⟩ := s
    obtain ⟨entries', kept', new'⟩ := ih freed₁ own' rest
    rw [foldl_cons, hs]
    refine ⟨fun w hw => ?_, fun x hx => kept' x (kept x hx), ?_⟩
    · rw [entries' w hw, entries w hw]
      by_cases first : frame w = v <;> simp [first]
    · intro w hw there
      by_cases first : w = v
      · subst first
        exact kept' _ (new there)
      · have hw : w ∈ vs := (mem_cons.1 hw).resolve_left first
        obtain ⟨low', base'⟩ := rest w hw
        have other : frame w ≠ v := by rwa [frame_base base']
        have same : m₁.getPaddr dir w = m.getPaddr dir w := by
          rw [getPaddr_base base', getPaddr_base base', entries w low', if_neg other]
        rw [← same] at there ⊢
        exact new' w hw there

end Memory

/-- The release of all regions: the memory behind it and the frames that it frees. -/
def AddrSpace.released (s : AddrSpace) : Memory × List Nat :=
  Memory.regionsFree s.mem.currDir (s.mem, []) (s.table.map fun r => ⟨r.base, r.len⟩)

/-- The pages of the regions, in the order in which they are released. -/
def AddrSpace.regionPages (s : AddrSpace) : List Nat :=
  s.table.flatMap fun r => pageRange r.base (regionEnd r)

variable {h : Phdr}

theorem AddrSpace.released_eq (s : AddrSpace) : s.released =
    s.regionPages.foldl (Memory.releasePage s.mem.currDir) (s.mem, []) := by
  rw [released, Memory.regionsFree, foldl_map, regionPages, foldl_flatMap]
  rfl

theorem AddrSpace.destroyRegions_mem {s s' : AddrSpace} (h : s.destroyRegions = some s') :
    s'.mem = s.released.1 := by
  unfold destroyRegions at h
  split at h <;> cases h
  rfl

/-- The record of a segment covers the pages that were mapped, and the release of the table
unmaps them and frees the frames that the load took. -/
structure SegmentAccounted (s s' : AddrSpace) (h : Phdr) : Prop where
  record : ∃ p r, p ∈ s'.regions.elems ∧ p ∉ s.regions.elems ∧ s'.records p = some r ∧
    ∀ v, v ∈ pageRange r.base (AddrSpace.regionEnd r) ↔ v ∈ segmentPages h
  unmapped : ∀ v ∈ segmentPages h, s'.released.1.entryAt s'.mem.currDir v = 0
  freed : ∀ x ∈ s.mem.framesFrom (segmentPages h).length, x ∈ s'.released.2

/-- The bytes of the pages in front of a segment and of the segment. -/
def segmentSpan (h : Phdr) : Nat := h.vaddr % 4096 + h.memsz

theorem segmentPages_eq (nowrap : h.vaddr + h.memsz < 4294967296) :
    segmentPages h = pageRange (frame h.vaddr) (frame h.vaddr + roundUp (segmentSpan h)) := by
  rw [segmentPages, add32_eq nowrap, pageRange, pageRange]
  congr 2
  unfold roundUp segmentSpan frame
  omega

theorem mem_segmentPages (nowrap : h.vaddr + h.memsz < 4294967296) (v : Nat) :
    v ∈ segmentPages h ↔ frame h.vaddr ≤ v ∧ v < frame h.vaddr + roundUp (segmentSpan h) ∧
      v % 4096 = 0 := by
  rw [segmentPages_eq nowrap, mem_pageRange (frame_aligned _)]

theorem mem_recordPages (pos : 0 < h.memsz) (low : h.vaddr + h.memsz < 0x80000000)
    (v : Nat) : v ∈ pageRange (segmentRecord h).base (regionEnd (segmentRecord h)) ↔
      frame h.vaddr ≤ v ∧ v < frame h.vaddr + roundUp h.memsz ∧ v % 4096 = 0 := by
  have whole : (segmentRecord h).len = roundUp h.memsz :=
    roundPage_whole (by unfold roundUp; omega)
  have stop : regionEnd (segmentRecord h) = frame h.vaddr + roundUp h.memsz := by
    rw [regionEnd, whole]
    apply add32_eq
    simp only [segmentRecord, roundUp, frame]
    omega
  rw [stop]
  exact mem_pageRange (by simp only [segmentRecord, frame]; omega)

section Accounted

variable {c : Credentials} {f : ExecFile} {s s' : AddrSpace} {rs : List Region} {h : Phdr}
  {stop : Nat} (t : Rows s rs) (ok : s.mem.DirOk s.mem.currDir)
  (fresh : s.mem.Fresh (s.mem.Owned s.mem.currDir))
  (frames : AddrSpace.FreshFrames s.mem (frame h.vaddr) (roundUp (segmentSpan h)))
  (low : h.vaddr + h.memsz < 0x80000000)
  (done : processLoadSegment c f s h = some (.ok stop, s'))

include t low done

/-- A segment that is loaded has its record in the table, beside the others. -/
theorem loadSegment_record : ∃ p, p ∉ s.regions.elems ∧
    s'.records p = some (segmentRecord h) ∧ Rows s' (insertBy baseBelow (segmentRecord h) rs) ∧
    (∀ q, q ∈ s'.regions.elems ↔ q = p ∨ q ∈ s.regions.elems) := by
  obtain ⟨-, _, m, -, ⟨-, failed, -⟩ | ⟨-, -, failed⟩ | ⟨p, s₁, _, -, hk, added, filled⟩⟩ :=
    processLoadSegment_cases done
  · cases failed
  · cases failed
  obtain ⟨-, regions, records, -, -, next, named⟩ := kmalloc_fields hk
  obtain ⟨rfl, next'⟩ := named p rfl
  have t₁ : Rows s₁ rs := t.congr regions records next
  have new : s.next ∉ s.regions.elems := fun there => lt_irrefl _ (t.named _ there)
  have whole : (segmentRecord h).Whole := by
    constructor <;> simp only [segmentRecord, frame, roundPage, add32, sub32] <;> omega
  obtain ⟨s₃, eq, rows, entered⟩ := t.enter regions records
    (next' ▸ Nat.lt_succ_self _) whole (addRegion_room t₁ added)
  obtain rfl := some.inj (eq.symm.trans added)
  obtain ⟨-, -, error, -⟩ | ⟨-, -, -, _, -, -, -, -, -, rfl⟩ := fillSegment_cases filled
  · cases error
  refine ⟨s.next, new, ?_, rows.congr rfl rfl le_rfl, fun q => ?_⟩
  · change s₃.records s.next = _
    rw [entered.records, update_self]
  · obtain ⟨cmp, elems, -⟩ := entered.elems
    rw [elems, (insertBy_perm cmp s.next s₁.regions.elems).mem_iff, mem_cons, regions]

omit t in
include ok fresh frames in
/-- Its pages have the frames that `alloc_page` gave, also after they have been filled and
protected. -/
theorem loadSegment_frames : s'.mem.currDir = s.mem.currDir ∧ s'.mem.OwnTables s.mem.currDir ∧
    ∀ v, frame h.vaddr ≤ v → v < frame h.vaddr + roundUp (segmentSpan h) → v % 4096 = 0 →
      ∃ x, (s.mem.framesFrom (roundUp (segmentSpan h) / 4096))[(v - frame h.vaddr) / 4096]? =
        some x ∧ x ≠ 0 ∧ s'.mem.getPaddr s.mem.currDir v = x := by
  obtain ⟨-, _, m, mapped, ⟨-, failed, -⟩ | ⟨-, -, failed⟩ |
    ⟨p, s₁, s₂, rfl, hk, added, filled⟩⟩ := processLoadSegment_cases done
  · cases failed
  · cases failed
  have page := frame_aligned h.vaddr
  have pages : roundUp (segmentSpan h) % 4096 = 0 := by
    unfold roundUp
    omega
  have fits : frame h.vaddr + roundUp (segmentSpan h) ≤ 0xffc00000 := by
    unfold roundUp segmentSpan frame
    omega
  rw [segmentPages_eq (by omega)] at mapped
  obtain ⟨maps, -⟩ := newPages_maps ok fresh page pages fits mapped
  have entry := @newPages_entry _ _ _ _ _ ok fresh frames page pages fits mapped
  have start : s₂.mem = m := (addRegion_mem added).trans (kmalloc_fields hk).1
  obtain ⟨-, -, error, -⟩ | ⟨_, _, _, _, -, first, second, third, -, rfl⟩ :=
    fillSegment_cases filled
  · cases error
  rw [start] at first
  obtain ⟨dir, own, -, paddr, -⟩ := Memory.protect_spec first second third maps.currDir maps.ok.own
    (by
      intro v hv
      obtain ⟨lower, upper, base⟩ := (mem_segmentPages (by omega) v).1 hv
      obtain ⟨-, -, -, -, -, there⟩ := entry lower upper
      exact ⟨by omega, base, there⟩)
  refine ⟨dir, own, fun v lower upper base => ?_⟩
  obtain ⟨x, at_, nonzero, small, eq, -⟩ := entry lower upper
  refine ⟨x, at_, nonzero, ?_⟩
  rw [paddr v (by omega), Memory.getPaddr_base base, eq]
  exact Nat.mod_eq_of_lt small

omit t low in
theorem loadSegment_stop : stop = add32 h.vaddr h.memsz := by
  obtain ⟨-, _, _, -, ⟨-, failed, -⟩ | ⟨-, -, failed⟩ | ⟨_, _, _, -, -, -, filled⟩⟩ :=
    processLoadSegment_cases done
  · cases failed
  · cases failed
  obtain ⟨-, -, error, -⟩ | ⟨_, _, _, _, -, -, -, -, eq, -⟩ := fillSegment_cases filled
  · cases error
  · cases eq
    rfl

end Accounted

/-- The record of a segment accounts for it if and only if the part of the first page in front
of the segment takes no further page. -/
theorem loadSegment_accounted_iff {c : Credentials} {f : ExecFile} {s s' : AddrSpace}
    {rs : List Region} {h : Phdr} {stop : Nat} (t : Rows s rs)
    (user : ∀ r ∈ rs, r.fin ≤ 0xffc00000) (ok : s.mem.DirOk s.mem.currDir)
    (fresh : s.mem.Fresh (s.mem.Owned s.mem.currDir))
    (frames : AddrSpace.FreshFrames s.mem (frame h.vaddr) (roundUp (segmentSpan h)))
    (pos : 0 < h.memsz) (nowrap : h.vaddr + h.memsz < 4294967296)
    (done : processLoadSegment c f s h = some (.ok stop, s')) (success : stop < 0x80000000) :
    SegmentAccounted s s' h ↔ roundUp (segmentSpan h) = roundUp h.memsz := by
  have low : h.vaddr + h.memsz < 0x80000000 := by
    rwa [loadSegment_stop done, add32_eq nowrap] at success
  obtain ⟨p, new, record, rows, elems⟩ := loadSegment_record t low done
  have inPages := mem_segmentPages nowrap
  have inRecord := mem_recordPages pos low
  constructor
  · rintro ⟨⟨q, r, there, other, held, covers⟩, -, -⟩
    obtain rfl : q = p := ((elems q).1 there).resolve_right other
    obtain rfl : segmentRecord h = r := Option.some.inj (record.symm.trans held)
    have le : roundUp h.memsz ≤ roundUp (segmentSpan h) := by
      unfold roundUp segmentSpan
      omega
    by_contra differ
    -- the first page behind the record
    have behind := covers (frame h.vaddr + roundUp h.memsz)
    rw [inRecord, inPages] at behind
    have page : (frame h.vaddr + roundUp h.memsz) % 4096 = 0 := by
      unfold frame roundUp
      omega
    omega
  · intro same
    obtain ⟨dir, own, paddr⟩ := loadSegment_frames ok fresh frames low done
    have covers : ∀ v, v ∈ pageRange (segmentRecord h).base
        (AddrSpace.regionEnd (segmentRecord h)) ↔ v ∈ segmentPages h := by
      intro v
      rw [inRecord, inPages, same]
    have table : ∀ r, r ∈ s'.table ↔ r = segmentRecord h ∨ r ∈ rs := by
      intro r
      rw [rows.table_eq, (insertBy_perm baseBelow (segmentRecord h) rs).mem_iff, List.mem_cons]
    have mine : ∀ v ∈ segmentPages h, v ∈ s'.regionPages := fun v hv =>
      List.mem_flatMap.2 ⟨_, (table _).2 (.inl rfl), (covers v).2 hv⟩
    have pages : ∀ v ∈ s'.regionPages, v < 0xffc00000 ∧ v % 4096 = 0 := by
      intro v hv
      obtain ⟨r, hr, hv⟩ := List.mem_flatMap.1 hv
      rcases (table r).1 hr with rfl | hr
      · have inside := (inRecord v).1 hv
        unfold frame roundUp at inside
        omega
      · have base := (t.whole r hr).base
        have fin := user r hr
        rw [AddrSpace.regionEnd, add32_eq (by unfold Region.fin at fin; omega)] at hv
        have inside := (mem_pageRange base).1 hv
        unfold Region.fin at fin
        omega
    obtain ⟨entries, -, frees⟩ := Memory.releasePages_spec [] own pages
    rw [← dir, ← AddrSpace.released_eq] at entries frees
    constructor
    case record => exact ⟨p, segmentRecord h, (elems p).2 (.inl rfl), new, record, covers⟩
    case unmapped =>
      intro v hv
      have range := (inPages v).1 hv
      rw [entries v (pages v (mine v hv)).1, frame_base range.2.2, if_pos (mine v hv)]
    case freed =>
      intro x hx
      have count : (segmentPages h).length = roundUp (segmentSpan h) / 4096 := by
        rw [segmentPages_eq nowrap, pageRange_length]
        unfold roundUp
        omega
      rw [count] at hx
      obtain ⟨i, hi⟩ := List.mem_iff_getElem?.1 hx
      have bound := (List.getElem?_eq_some_iff.1 hi).1
      rw [Memory.framesFrom_length] at bound
      have page : frame h.vaddr + i * 4096 ∈ segmentPages h := by
        rw [inPages]
        unfold frame
        omega
      obtain ⟨lower, upper, base⟩ := (inPages _).1 page
      obtain ⟨_, at_, nonzero, eq⟩ := paddr _ lower upper base
      have index : (frame h.vaddr + i * 4096 - frame h.vaddr) / 4096 = i := by omega
      rw [index, hi, Option.some.injEq] at at_
      subst at_
      have freed := frees _ (mine _ page)
      rw [dir, eq] at freed
      rw [frame_base (frames.valid x hx).1] at freed
      exact freed nonzero

/-- A header for memory that the file has no bytes for. -/
def plainHeader (vaddr memsz : Nat) : Phdr := ⟨PT_LOAD, 0, vaddr, 0, memsz, PF_R ||| PF_W⟩

def emptyFile : ExecFile := ⟨⟨0o100755, 0, 0, 0, 0⟩, fun _ _ => .ok []⟩

/-- A segment at the start of a page. -/
theorem loadSegment_accounted_iff_aligned :
    ∃ s', processLoadSegment ⟨⟨0, 0, 0⟩, ⟨0, 0, 0⟩⟩ emptyFile AddrSpace.usedFrame
        (plainHeader 0x1000 100) = some (.ok 0x1064, s') ∧
      SegmentAccounted AddrSpace.usedFrame s' (plainHeader 0x1000 100) := by
  have done : (processLoadSegment ⟨⟨0, 0, 0⟩, ⟨0, 0, 0⟩⟩ emptyFile AddrSpace.usedFrame
      (plainHeader 0x1000 100)).map (·.1.toOption) = some (some 0x1064) := by decide +kernel
  obtain ⟨⟨ret, s'⟩, call, eq⟩ := Option.map_eq_some_iff.1 done
  cases ret with
  | error e => cases eq
  | ok =>
    cases eq
    have frames : AddrSpace.FreshFrames AddrSpace.usedFrame.mem
        (frame (plainHeader 0x1000 100).vaddr) (roundUp (segmentSpan (plainHeader 0x1000 100))) :=
      AddrSpace.usedFrame_fresh
    exact ⟨s', call, (loadSegment_accounted_iff AddrSpace.usedFrame_table.rows (by simp)
      AddrSpace.usedFrame_dir ⟨by decide, by simp [AddrSpace.usedFrame]⟩ frames
      (by decide) (by decide) call (by decide)).2 (by decide)⟩

/-- A segment of `0x200` bytes that starts at `0x1f00`: its second page stays when the table is
released. -/
theorem segment_leaves_page :
    Rows AddrSpace.usedFrame [] ∧
    ∃ s', processLoadSegment ⟨⟨0, 0, 0⟩, ⟨0, 0, 0⟩⟩ emptyFile AddrSpace.usedFrame
        (plainHeader 0x1f00 0x200) = some (.ok 0x2100, s') ∧
      ¬SegmentAccounted AddrSpace.usedFrame s' (plainHeader 0x1f00 0x200) := by
  have done : (processLoadSegment ⟨⟨0, 0, 0⟩, ⟨0, 0, 0⟩⟩ emptyFile AddrSpace.usedFrame
      (plainHeader 0x1f00 0x200)).map (fun x => (x.1.toOption,
        x.2.released.1.entryAt x.2.mem.currDir 0x2000)) = some (some 0x2100, 0x400007) := by
    decide +kernel
  obtain ⟨⟨ret, s'⟩, call, eq⟩ := Option.map_eq_some_iff.1 done
  simp only [Prod.mk.injEq] at eq
  obtain ⟨ok, stays⟩ := eq
  cases ret with
  | error e => cases ok
  | ok =>
    cases ok
    refine ⟨AddrSpace.usedFrame_table.rows, s', call, fun accounted => ?_⟩
    have gone := accounted.unmapped 0x2000 (by decide +kernel)
    rw [stays] at gone
    exact absurd gone (by decide)

end Os0
