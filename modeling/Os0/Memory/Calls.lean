import Os0.Lib.Runs
import Os0.Memory.Regions

/-! What the calls of `uapi/mman.c` do to the memory and to the region table. -/
namespace Os0

open Bytes Function List Option Region Memory Nat

/-- `m'` comes from `m` by taking and returning frames, by writing data, and by
mapping and unmapping pages of the current directory whose address satisfies `P`. -/
inductive Touches (P : Nat → Prop) : Memory → Memory → Prop
  | refl (m : Memory) : Touches P m m
  | alloc {m m' : Memory} : Touches P m m' → Touches P m m'.allocPage.2
  | free {m m' : Memory} (paddr : Nat) : Touches P m m' → Touches P m (m'.freePage paddr)
  | map {m m' m'' : Memory} {paddr v flags : Nat} : Touches P m m' → P v →
      m'.mapPage m'.currDir paddr v flags = some m'' → Touches P m m''
  | unmap {m m' : Memory} {v : Nat} : Touches P m m' → P v →
      Touches P m (m'.unmapPage m'.currDir v)
  | data {m m' : Memory} (frames : Nat → Nat → UInt8) : Touches P m m' →
      Touches P m { m' with frames }

namespace Touches

variable {P Q : Nat → Prop} {m m' m'' : Memory}

theorem trans (h : Touches P m m') (k : Touches P m' m'') : Touches P m m'' := by
  induction k with
  | refl => exact h
  | alloc _ ih => exact .alloc ih
  | free paddr _ ih => exact .free paddr ih
  | map _ hv mapped ih => exact .map ih hv mapped
  | unmap _ hv ih => exact .unmap ih hv
  | data frames _ ih => exact .data frames ih

theorem mono (h : Touches P m m') (weaken : ∀ v, P v → Q v) : Touches Q m m' := by
  induction h with
  | refl => exact .refl _
  | alloc _ ih => exact .alloc ih
  | free paddr _ ih => exact .free paddr ih
  | map _ hv mapped ih => exact .map ih (weaken _ hv) mapped
  | unmap _ hv ih => exact .unmap ih (weaken _ hv)
  | data frames _ ih => exact .data frames ih

end Touches

namespace Memory

variable {P : Nat → Prop} {m m' : Memory} {vs : List Nat}

variable {flags lo count : Nat} {byte : Nat → UInt8}

theorem mapNew_touches {failed : Option Nat} (inside : ∀ v ∈ vs, P v)
    (h : m.mapNew flags vs = some (failed, m')) :
    Touches P m m' ∧ ∀ v, failed = some v → v ∈ vs := by
  induction vs generalizing m with
  | nil =>
    cases h
    exact ⟨.refl _, nofun⟩
  | cons v vs ih =>
    obtain ⟨first, rest⟩ := forall_mem_cons.1 inside
    unfold mapNew at h
    split at h
    · cases h
      refine ⟨.alloc (.refl m), fun w hw => ?_⟩
      cases hw
      exact mem_cons_self
    · obtain ⟨m₁, mapped, h⟩ := bind_eq_some_iff.1 h
      obtain ⟨touches, failure⟩ := ih rest h
      have one : Touches P m m₁ := .map (.alloc (.refl m)) first mapped
      exact ⟨one.trans touches, fun w hw => mem_cons_of_mem v (failure w hw)⟩

theorem remap_touches (inside : ∀ v ∈ vs, P v) (h : m.remap flags vs = some m') :
    Touches P m m' := by
  induction vs generalizing m with
  | nil =>
    cases h
    exact .refl _
  | cons v vs ih =>
    obtain ⟨first, rest⟩ := forall_mem_cons.1 inside
    obtain ⟨m₁, mapped, h⟩ := bind_eq_some_iff.1 h
    have one : Touches P m m₁ := .map (.refl m) first mapped
    exact one.trans (ih rest h)

theorem releaseFrames_touches (P : Nat → Prop) (m : Memory) (vs : List Nat) :
    Touches P m (m.releaseFrames vs) := by
  unfold releaseFrames
  induction vs generalizing m with
  | nil => exact .refl m
  | cons v vs ih =>
    rw [foldl_cons]
    split
    · exact (Touches.free _ (.refl m)).trans (ih _)
    · exact ih m

theorem dropPages_touches (inside : ∀ v ∈ vs, P v) : Touches P m (vs.foldl dropPage m) := by
  induction vs generalizing m with
  | nil => exact .refl m
  | cons v vs ih =>
    obtain ⟨first, rest⟩ := forall_mem_cons.1 inside
    have free : Touches P m (m.freePage (m.getPaddr m.currDir v)) := .free _ (.refl m)
    have dir : (m.freePage (m.getPaddr m.currDir v)).currDir = m.currDir := by
      unfold freePage
      split <;> rfl
    have one : Touches P m (m.dropPage v) := by
      have unmap := free.unmap first
      rw [dir] at unmap
      exact unmap
    exact one.trans (ih rest)

/-- What a write to a page of the range keeps, `fill` keeps. -/
theorem fill_keeps {I : Memory → Prop} (h : m.fill lo count byte = some m') (start : I m)
    (kept : count ≠ 0 → ∀ p ∈ pageRange (frame lo) (lo + count), ∀ n n', I n →
      n.fillPage lo (lo + count) byte p = some n' → I n') : I m' := by
  unfold fill at h
  split at h
  · cases h
    exact start
  · exact Runs.foldlM_keeps h start (kept ‹_›)

theorem fill_touches (P : Nat → Prop) (h : m.fill lo count byte = some m') : Touches P m m' := by
  refine fill_keeps h (.refl m) fun _ p _ n n' touches filled => ?_
  unfold fillPage at filled
  split at filled
  · cases filled
    exact .data _ touches
  · cases filled

end Memory

theorem pageRange_length (start stop : Nat) :
    (pageRange start stop).length = (stop - start + 4095) / 4096 := by
  simp [pageRange]

theorem pageRange_append {start mid stop : Nat} (le : start ≤ mid) (le' : mid ≤ stop)
    (aligned : (mid - start) % 4096 = 0) :
    pageRange start stop = pageRange start mid ++ pageRange mid stop := by
  have count : (stop - start + 4095) / 4096 =
      (mid - start + 4095) / 4096 + (stop - mid + 4095) / 4096 := by omega
  unfold pageRange
  rw [count, List.range_add, List.map_append, List.map_map]
  congr 1
  apply List.map_congr_left
  intro i _
  simp only [Function.comp_apply]
  omega

theorem roundPage_spec (len : Nat) : roundPage len % 4096 = 0 ∧ roundPage len < 4294967296 := by
  unfold roundPage add32 sub32
  omega

variable {rs : List Region} {r : Region} {s : AddrSpace} {offset : Int} {addr : Nat}

theorem stop_page (page : addr % 4096 = 0) (len : Nat) : add32 addr (roundPage len) % 4096 = 0 := by
  have := (roundPage_spec len).1
  unfold add32
  omega

theorem roundPage_eq {len : Nat} (pages : len % 4096 = 0) (small : len < 4294967296) :
    roundPage len = len := by
  unfold roundPage add32 sub32
  omega

namespace AddrSpace

variable {s s' : AddrSpace} {rs : List Region}

/-- The parts of an address space that a call on `s` from `addr` on leaves alone:
the table up to the regions that start at `addr`, and the regions that end there. -/
structure Kept (s s' : AddrSpace) (addr : Nat) : Prop where
  order : ∀ pre, pre <+: s.regions.elems →
    (∀ p ∈ pre, ∃ r, s.records p = some r ∧ r.base < addr) → pre <+: s'.regions.elems ∧
      ∀ p ∈ pre, (s'.records p).map Region.base = (s.records p).map Region.base
  records : ∀ p < s.next, ∀ r, s.records p = some r → r.fin ≤ addr → s'.records p = some r
  next : s.next ≤ s'.next
  initBreak : s'.initBreak = s.initBreak
  brk : s'.brk = s.brk

variable {p mid temp vaddr : Nat} {rs' rest : List Region} {s'' : AddrSpace}

variable {addr' : Nat} {r' : Region} {rs'' : List Region}

theorem Kept.refl (s : AddrSpace) (addr : Nat) : Kept s s addr :=
  ⟨fun _ h _ => ⟨h, fun _ _ => rfl⟩, fun _ _ _ h _ => h, le_rfl, rfl, rfl⟩

theorem Kept.trans (h : Kept s s' addr')
    (k : Kept s' s'' addr) (le : addr ≤ addr') : Kept s s'' addr := by
  constructor
  case order =>
    intro pre there below
    have below' : ∀ p ∈ pre, ∃ r, s.records p = some r ∧ r.base < addr' := by
      intro p hp
      obtain ⟨r, hr, lt⟩ := below p hp
      exact ⟨r, hr, lt.trans_le le⟩
    obtain ⟨there', bases⟩ := h.order pre there below'
    have next : ∀ p ∈ pre, ∃ r, s'.records p = some r ∧ r.base < addr := by
      intro p hp
      obtain ⟨r, hr, lt⟩ := below p hp
      have same := bases p hp
      rw [hr] at same
      obtain ⟨r', hr', eq⟩ := map_eq_some_iff.1 same
      exact ⟨r', hr', eq ▸ lt⟩
    obtain ⟨there'', bases'⟩ := k.order pre there' next
    exact ⟨there'', fun p hp => (bases' p hp).trans (bases p hp)⟩
  case records =>
    intro p named r hr stop
    have hr' := h.records p named r hr (stop.trans le)
    exact k.records p (named.trans_le h.next) r hr' stop
  case next => exact h.next.trans k.next
  case initBreak => exact k.initBreak.trans h.initBreak
  case brk => exact k.brk.trans h.brk

theorem Kept.of_eq (regions : s'.regions = s.regions) (records : s'.records = s.records)
    (next : s.next ≤ s'.next) (initBreak : s'.initBreak = s.initBreak) (brk : s'.brk = s.brk) :
    Kept s s' addr := by
  refine ⟨?_, ?_, next, initBreak, brk⟩
  · intro _ there _
    rw [regions, records]
    exact ⟨there, fun _ _ => rfl⟩
  · intro p _ r hr _
    rw [records]
    exact hr

theorem Kept.setRecord (record : s.records p = some r)
    (stop : addr < r.fin) (base : r'.base = r.base) : Kept s (s.setRecord p (some r')) addr := by
  constructor
  case order =>
    intro _ there _
    refine ⟨there, fun q hq => ?_⟩
    by_cases same : q = p
    · subst same
      change (update s.records q (some r') q).map Region.base = _
      rw [update_self, record, map_some, map_some, base]
    · exact congrArg _ (update_of_ne same _ _)
  case records =>
    intro q _ b hb _
    change update s.records p (some r') q = some b
    rw [update_of_ne]
    · exact hb
    · rintro rfl
      rw [record] at hb
      cases hb
      omega
  case next => exact le_rfl
  case initBreak => rfl
  case brk => rfl

theorem Kept.add {cmp : Nat → Nat → Bool} (t : Rows s rs) (new : p = s.next)
    (above : addr ≤ r.base) (elems : s'.regions.elems = insertBy cmp p s.regions.elems)
    (compare : ∀ q ∈ s.regions.elems, ∀ b, s.records q = some b → cmp q p =
      decide (b.base < r.base))
    (records : s'.records = update s.records p (some r)) (next : s.next ≤ s'.next)
    (initBreak : s'.initBreak = s.initBreak) (brk : s'.brk = s.brk) : Kept s s' addr := by
  refine ⟨?_, ?_, next, initBreak, brk⟩
  · intro pre there below
    obtain ⟨post, eq⟩ := there
    have old : ∀ q ∈ pre, q ∈ s.regions.elems := fun q hq => eq ▸ mem_append_left post hq
    constructor
    · rw [elems, ← eq, insertBy_append]
      · exact prefix_append _ _
      · intro q hq
        obtain ⟨b, hb, lt⟩ := below q hq
        rw [compare q (old q hq) b hb]
        exact decide_eq_true (lt.trans_le above)
    · intro q hq
      rw [records, update_of_ne]
      have := t.named q (old q hq)
      omega
  · intro q _ b hb _
    rw [records, update_of_ne (by omega)]
    exact hb

theorem Kept.drop (at_mid : s.regions.elems[mid]? = some p)
    (record : s.records p = some r) (base : r.base = addr) (pos : 0 < r.len)
    (regions : s'.regions = s.regions.remove mid)
    (records : s'.records = update s.records p none) (next : s.next ≤ s'.next)
    (initBreak : s'.initBreak = s.initBreak) (brk : s'.brk = s.brk) : Kept s s' addr := by
  obtain ⟨hmid, _⟩ := List.getElem?_eq_some_iff.1 at_mid
  refine ⟨?_, ?_, next, initBreak, brk⟩
  · intro pre there below
    obtain ⟨post, eq⟩ := there
    have notin : p ∉ pre := by
      intro hpre
      obtain ⟨b, hb, _⟩ := below p hpre
      rw [record] at hb
      cases hb
      omega
    have behind : pre.length ≤ mid := by
      by_contra short
      have : (pre ++ post)[mid]? = some p := eq ▸ at_mid
      rw [getElem?_append_left (by omega)] at this
      exact notin (mem_of_getElem? this)
    constructor
    · rw [regions, SortedArray.remove, if_pos hmid, ← eq,
        eraseIdx_append_of_length_le behind]
      exact prefix_append _ _
    · intro q hq
      rw [records, update_of_ne]
      rintro rfl
      exact notin hq
  · intro q _ b hb below
    rw [records, update_of_ne]
    · exact hb
    · rintro rfl
      rw [record] at hb
      cases hb
      unfold fin at below
      omega

theorem Kept.get (kept : Kept s s' addr) (t : Rows s rs)
    (at_mid : s.regions.elems[mid]? = some p) (record : s.records p = some r)
    (below : r.base < addr) : s'.regions.elems[mid]? = some p := by
  obtain ⟨_, _⟩ := List.getElem?_eq_some_iff.1 at_mid
  obtain ⟨hmid', hr⟩ := List.getElem?_eq_some_iff.1 (t.get at_mid record)
  have front : ∀ q ∈ s.regions.elems.take (mid + 1),
      ∃ b, s.records q = some b ∧ b.base < addr := by
    intro q hq
    obtain ⟨j, _, rfl⟩ := mem_take_iff_getElem.1 hq
    have bound : j < rs.length := t.length_eq ▸ (by omega)
    have entry := t.region_eq j
    rw [region, getElem?_eq_getElem (by omega), getElem?_eq_getElem bound] at entry
    refine ⟨rs[j], entry, lt_of_le_of_lt ?_ below⟩
    rcases lt_or_eq_of_le (show j ≤ mid by omega) with less | rfl
    · rw [← hr]
      exact pairwise_iff_getElem.1 t.sorted j mid bound hmid' less
    · rw [hr]
  obtain ⟨⟨_, eq⟩, -⟩ := kept.order _ ( take_prefix _ _) front
  rw [← eq, getElem?_append_left (by rw [length_take]; omega), getElem?_take,
    if_pos (lt_succ_self mid)]
  exact at_mid

/-- What an unmapping from `addr` on does. -/
structure Unmapped (s s' : AddrSpace) (rs rs' : List Region) (addr : Nat) : Prop where
  rows : Rows s' rs'
  pieces : ∀ q ∈ rs', q ∈ rs ∨ q.Ok
  trims : Trims rs rs'
  kept : Kept s s' addr
  touches : ∀ bound, (∀ r ∈ rs, r.fin ≤ bound) → Touches (· < bound) s.mem s'.mem

theorem Unmapped.table (h : Unmapped s s' rs rs' addr) (t : Table s rs) : Table s' rs' := by
  apply h.rows.toTable
  intro q hq
  rcases h.pieces q hq with old | ok
  · exact t.ok q old
  · exact ok

theorem Unmapped.refl (t : Rows s rs) (addr : Nat) : Unmapped s s rs rs addr :=
  ⟨t, fun _ => .inl, .refl rs, .refl s addr, fun _ _ => .refl _⟩

theorem Unmapped.trans
    (h : Unmapped s s' rs rs' addr') (k : Unmapped s' s'' rs' rs'' addr) (le : addr ≤ addr') :
    Unmapped s s'' rs rs'' addr := by
  constructor
  case rows => exact k.rows
  case pieces =>
    intro q hq
    rcases k.pieces q hq with old | ok
    · exact h.pieces q old
    · exact .inr ok
  case trims => exact h.trims.trans k.trims
  case kept => exact h.kept.trans k.kept le
  case touches =>
    intro bound hb
    apply (h.touches bound hb).trans (k.touches bound _)
    intro q hq
    obtain ⟨b, hb', -, stop⟩ := h.trims.within q hq
    exact stop.trans (hb b hb')

@[simp] theorem countRef_fields (s : AddrSpace) (ino : Option Nat) (d : Int) :
    (s.countRef ino d).mem = s.mem ∧ (s.countRef ino d).regions = s.regions ∧
      (s.countRef ino d).records = s.records ∧ (s.countRef ino d).next = s.next ∧
      (s.countRef ino d).kmallocs = s.kmallocs ∧ (s.countRef ino d).initBreak = s.initBreak ∧
      (s.countRef ino d).brk = s.brk := by
  cases ino <;> exact ⟨rfl, rfl, rfl, rfl, rfl, rfl, rfl⟩

theorem kmalloc_fields {p : Option Nat} (h : s.kmalloc = (p, s')) :
    s'.mem = s.mem ∧ s'.regions = s.regions ∧ s'.records = s.records ∧
      s'.initBreak = s.initBreak ∧ s'.brk = s.brk ∧ s.next ≤ s'.next ∧
      (∀ name, p = some name → name = s.next ∧ s'.next = s.next + 1) := by
  unfold kmalloc at h
  split at h <;> cases h
  · exact ⟨rfl, rfl, rfl, rfl, rfl, le_succ _, fun _ h => by cases h; exact ⟨rfl, rfl⟩⟩
  · exact ⟨rfl, rfl, rfl, rfl, rfl, le_rfl, nofun⟩
  · exact ⟨rfl, rfl, rfl, rfl, rfl, le_rfl, nofun⟩

theorem kmalloc_some (h : s.kmalloc = (some p, s')) : s.kmallocs.head? = some true := by
  unfold kmalloc at h
  split at h <;> cases h
  simp [*]

theorem kmalloc_refs {p : Option Nat} (h : s.kmalloc = (p, s')) : s'.refs = s.refs := by
  unfold kmalloc at h
  split at h <;> cases h <;> rfl

@[simp] theorem countRef_refs (s : AddrSpace) (ino : Option Nat) (d : Int) (i : Nat) :
    (s.countRef ino d).refs i = s.refs i + if ino = some i then d else 0 := by
  cases ino with
  | none => simp [countRef]
  | some j =>
    unfold countRef
    by_cases same : i = j
    · simp [same]
    · simp [same, Ne.symm same]

/-- How many of the regions refer to the inode `i`. -/
def inoCount (rs : List Region) (i : Nat) : Nat := rs.countP fun r => r.ino = some i

theorem inoCount_cons (r : Region) (rs : List Region) (i : Nat) :
    inoCount (r :: rs) i = inoCount rs i + if r.ino = some i then 1 else 0 := by
  simp [inoCount, countP_cons]

theorem inoCount_perm (h : rs.Perm rs') (i : Nat) :
    inoCount rs i = inoCount rs' i := h.countP_eq _

/-- The references of inodes follow the regions of the table, and the records of other
tables are left alone. -/
structure Balanced (s s' : AddrSpace) (rs rs' : List Region) : Prop where
  refs : ∀ i, s'.refs i - inoCount rs' i = s.refs i - inoCount rs i
  frame : ∀ p < s.next, p ∉ s.regions.elems → s'.records p = s.records p
  fresh : ∀ p ∈ s'.regions.elems, p ∈ s.regions.elems ∨ s.next ≤ p
  next : s.next ≤ s'.next

theorem Balanced.of_eq (refs : s'.refs = s.refs) (regions : s'.regions = s.regions)
    (records : s'.records = s.records) (next : s.next ≤ s'.next) : Balanced s s' rs rs :=
  ⟨fun i => by rw [refs], fun p _ _ => by rw [records],
    fun p hp => .inl (by rw [← regions]; exact hp), next⟩

theorem Balanced.trans (h : Balanced s s' rs rs')
    (k : Balanced s' s'' rs' rs'') : Balanced s s'' rs rs'' := by
  constructor
  case refs => exact fun i => (k.refs i).trans (h.refs i)
  case frame =>
    intro p named other
    have other' : p ∉ s'.regions.elems := by
      intro there
      rcases h.fresh p there with old | new
      · exact other old
      · omega
    exact (k.frame p (named.trans_le h.next) other').trans (h.frame p named other)
  case fresh =>
    intro p hp
    have next := h.next
    rcases k.fresh p hp with old | new
    · exact h.fresh p old
    · exact .inr (by omega)
  case next => exact h.next.trans k.next

theorem Balanced.set
    (mine : p ∈ s.regions.elems) (was : rs.Perm (r :: rest)) (now : rs'.Perm (r' :: rest))
    (ino : r'.ino = r.ino) : Balanced s (s.setRecord p (some r')) rs rs' := by
  constructor
  case refs =>
    intro i
    rw [inoCount_perm was, inoCount_perm now, inoCount_cons, inoCount_cons, ino]
    rfl
  case frame =>
    intro q _ other
    apply update_of_ne
    rintro rfl
    exact other mine
  case fresh => exact fun q hq => .inl hq
  case next => exact le_rfl

theorem Balanced.drop (at_mid : s.regions.elems[mid]? = some p) (was : rs.Perm (r :: rest)) :
    Balanced s { (s.setRecord p none).countRef r.ino (-1) with regions := s.regions.remove mid }
      rs rest := by
  obtain ⟨hmid, hp⟩ := List.getElem?_eq_some_iff.1 at_mid
  obtain ⟨-, -, records, next, -⟩ := countRef_fields (s.setRecord p none) r.ino (-1)
  constructor
  case refs =>
    intro i
    rw [countRef_refs, inoCount_perm was, inoCount_cons]
    change s.refs i + _ - _ = _
    split <;> push_cast <;> omega
  case frame =>
    intro q _ other
    rw [records]
    apply update_of_ne
    rintro rfl
    exact other (hp ▸ getElem_mem hmid)
  case fresh =>
    intro q hq
    rw [SortedArray.remove, if_pos hmid] at hq
    exact .inl ((eraseIdx_sublist _ mid).mem hq)
  case next => exact next.symm.le

theorem Balanced.add {s₁ s₂ : AddrSpace} (regions : s₁.regions = s.regions)
    (records : s₁.records = s.records) (next : s.next ≤ s₁.next)
    (refs : ∀ i, s₁.refs i = s.refs i + if r.ino = some i then 1 else 0)
    (added : Added s₁ s₂ s.next r) : Balanced s s₂ rs (insertBy baseBelow r rs) := by
  obtain ⟨_, elems, -⟩ := added.elems
  constructor
  case refs =>
    intro i
    rw [inoCount_perm (insertBy_perm _ _ _), inoCount_cons, added.refs, refs]
    split <;> push_cast <;> omega
  case frame =>
    intro p named _
    rw [added.records, records, update_of_ne (by omega)]
  case fresh =>
    intro p hp
    rw [elems, regions, (insertBy_perm _ _ _).mem_iff, mem_cons] at hp
    rcases hp with rfl | hp
    · exact .inr le_rfl
    · exact .inl hp
  case next =>
    rw [added.next]
    exact next

theorem below_part :
    (r.below temp).Pairwise Region.Apart ∧ ∀ q ∈ r.below temp, r.base ≤ q.base ∧ q.fin ≤ temp := by
  unfold below
  split
  · refine ⟨pairwise_singleton _ _, fun q hq => ?_⟩
    cases mem_singleton.1 hq
    refine ⟨le_rfl, ?_⟩
    unfold fin
    dsimp only
    omega
  · exact ⟨.nil, nofun⟩

theorem below_ok (ok : r.Ok) (upper : temp < r.fin) (page : temp % 4096 = 0) :
    ∀ q ∈ r.below temp, q.Ok := by
  intro q hq
  have fits := ok.fits
  have aligned := ok.base
  unfold below at hq
  split at hq
  · cases mem_singleton.1 hq
    constructor
    case base => exact aligned
    case pages => show (temp - r.base) % 4096 = 0; omega
    case pos => show 0 < temp - r.base; omega
    case fits => show r.base + (temp - r.base) < 4294967296; omega
  · cases hq

theorem behind_ok (ok : r.Ok) (page : vaddr % 4096 = 0) :
    ∀ q ∈ r.behind vaddr, q.Ok ∧ q.base = vaddr ∧ q.fin = r.fin := by
  intro q hq
  have fits := ok.fits
  have aligned := ok.fin_page
  unfold behind at hq
  split at hq
  · cases mem_singleton.1 hq
    have stop : vaddr + (r.fin - vaddr) = r.fin := by omega
    refine ⟨⟨page, ?_, ?_, ?_⟩, rfl, stop⟩
    · show (r.fin - vaddr) % 4096 = 0
      omega
    · show 0 < r.fin - vaddr
      omega
    · show vaddr + (r.fin - vaddr) < 4294967296
      omega
  · cases hq

/-- The parts of a region around a range in it are regions, and the others stay. -/
theorem parts_trim (ok : r.Ok) (lower : r.base ≤ temp)
    (upper : temp < r.fin) (page : temp % 4096 = 0) (forth : temp ≤ vaddr)
    (page' : vaddr % 4096 = 0) (was : rs.Perm (r :: rest))
    (now : rs'.Perm (r.below temp ++ r.behind vaddr ++ rest)) :
    (∀ q ∈ rs', q ∈ rs ∨ q.Ok) ∧ Trims rs rs' := by
  obtain ⟨apart, below⟩ : (r.below temp).Pairwise Region.Apart ∧ _ := below_part
  have behind := behind_ok ok page'
  refine ⟨fun q hq => ?_, Trims.of_perm was now (fun q hq => ?_) ?_⟩
  · rcases mem_append.1 (now.mem_iff.1 hq) with hq | hq
    · rcases mem_append.1 hq with hq | hq
      · exact .inr (below_ok ok upper page q hq)
      · exact .inr (behind q hq).1
    · exact .inl (was.mem_iff.2 (mem_cons_of_mem r hq))
  · rcases mem_append.1 hq with hq | hq
    · have := below q hq
      omega
    · have := behind q hq
      omega
  · rw [pairwise_append]
    refine ⟨apart, ?_, fun q hq b hb => .inl ?_⟩
    · unfold Region.behind
      split
      · exact pairwise_singleton _ _
      · exact .nil
    · have := below q hq
      have := behind b hb
      omega

variable (t : Rows s rs)
include t

section

variable (at_mid : s.regions.elems[mid]? = some p)
include at_mid

variable (record : s.records p = some r)
include record

theorem rows_perm : mid < rs.length ∧ rs.Perm (r :: rs.eraseIdx mid) := by
  obtain ⟨hmid, rfl⟩ := List.getElem?_eq_some_iff.1 (t.get at_mid record)
  exact ⟨hmid, (getElem_cons_eraseIdx_perm hmid).symm⟩

/-- The end of `sys_munmap` keeps the part of region `mid` below `temp`, if there is one. -/
theorem munmapBelow_spec (ok : r.Ok)
    (lower : r.base ≤ temp) (upper : temp < r.fin) (page : temp % 4096 = 0) :
    ∃ s' rs' rest, s.munmapBelow mid p temp = some (.ok (), s') ∧ Rows s' rs' ∧
      Kept s s' temp ∧ s'.mem = s.mem ∧ rs.Perm (r :: rest) ∧ rs'.Perm (r.below temp ++ rest) ∧
      Balanced s s' rs rs' := by
  obtain ⟨hmid, perm⟩ := rows_perm t at_mid record
  have parts := below_ok ok upper page
  have fits := ok.fits
  unfold munmapBelow
  rw [record, map_some]
  unfold below at parts ⊢
  split
  · rename_i inside
    have len : sub32 temp r.base = temp - r.base := sub32_eq lower (by omega)
    rw [len]
    rw [if_pos inside] at parts
    have shorter := parts _ (mem_singleton_self _)
    have now := set_perm_cons_eraseIdx hmid { r with len := temp - r.base }
    refine ⟨_, _, _, rfl, t.set at_mid record shorter.whole rfl, ?_, rfl, perm, now, ?_⟩
    · exact Kept.setRecord record upper rfl
    · exact .set (mem_of_getElem? at_mid) perm now rfl
  · obtain ⟨hmem, -, records, hnext, -, hinit, hbrk⟩ :=
      countRef_fields (s.setRecord p none) r.ino (-1)
    refine ⟨_, _, _, rfl, t.drop at_mid rfl records hnext, ?_, hmem, perm, .refl _,
      .drop at_mid perm⟩
    exact Kept.drop at_mid record (by omega) ok.pos rfl records hnext.symm.le hinit hbrk

/-- A new record for the upper part of region `mid` goes behind region `mid`. -/
theorem splitOff_spec {new : Nat} {piece : Region} {s₁ : AddrSpace} (ok : piece.Whole)
    (above : r.base < piece.base) (ino : piece.ino = r.ino)
    (room : rs.length < PROCESS_MMAP_LIMIT) (hk : s.kmalloc = (some new, s₁)) :
    ∃ s', (s₁.countRef r.ino 1).addRegion new piece = some s' ∧
      Rows s' (insertBy baseBelow piece rs) ∧ Kept s s' piece.base ∧
      s'.regions.elems[mid]? = some p ∧ s'.records p = some r ∧ s'.mem = s.mem ∧
      Balanced s s' rs (insertBy baseBelow piece rs) := by
  obtain ⟨hmem, hregions, hrecords, hinit, hbrk, _, named⟩ := kmalloc_fields hk
  obtain ⟨rfl, _⟩ := named new rfl
  obtain ⟨cmem, cregions, crecords, _, -, cinit, cbrk⟩ := countRef_fields s₁ r.ino 1
  have regions : (s₁.countRef r.ino 1).regions = s.regions := cregions.trans hregions
  have records : (s₁.countRef r.ino 1).records = s.records := crecords.trans hrecords
  obtain ⟨s', eq, t', added⟩ := t.enter regions records (by omega) ok room
  obtain ⟨_, elems, compare⟩ := added.elems
  rw [regions] at elems compare
  rw [records] at compare
  have update : s'.records = update s.records s.next (some piece) := by
    rw [added.records, records]
  have kept : Kept s s' piece.base := by
    apply Kept.add t rfl le_rfl elems compare update
    · rw [added.next]
      omega
    · exact added.initBreak.trans (cinit.trans hinit)
    · exact added.brk.trans (cbrk.trans hbrk)
  have old : p < s.next := t.named p (mem_of_getElem? at_mid)
  have balanced : Balanced s s' rs (insertBy baseBelow piece rs) := by
    refine .add regions records (by omega) (fun i => ?_) added
    rw [countRef_refs, kmalloc_refs hk, ino]
  refine ⟨s', eq, t', kept, kept.get t at_mid record above, ?_, added.mem.trans (cmem.trans hmem),
    balanced⟩
  rw [update, update_of_ne (by omega)]
  exact record

/-- Behind its loop `sys_munmap` leaves the two parts of region `mid` around
`[temp, vaddr)`. -/
theorem munmapRest_spec (ok : r.Ok)
    (lower : r.base ≤ temp) (upper : temp < r.fin) (page : temp % 4096 = 0) (forth : temp ≤ vaddr)
    (last : vaddr ≤ r.fin) (page' : vaddr % 4096 = 0)
    (safe : vaddr < r.fin → s.kmallocs.head? = some true → (temp = r.base → temp < vaddr) ∧
      rs.length < PROCESS_MMAP_LIMIT) :
    ∃ ret s' rs', s.munmapRest mid p temp vaddr = some (ret, s') ∧ Unmapped s s' rs rs' temp ∧
      Balanced s s' rs rs' ∧ s'.mem = s.mem ∧ (ret = .ok () → ∃ rest, rs.Perm (r :: rest) ∧
        rs'.Perm (r.below temp ++ r.behind vaddr ++ rest)) := by
  have touches : ∀ {s' : AddrSpace}, s'.mem = s.mem → ∀ bound, (∀ r ∈ rs, r.fin ≤ bound) →
      Touches (· < bound) s.mem s'.mem := by
    intro s' same bound _
    rw [same]
    exact .refl _
  unfold munmapRest
  rw [record, bind_some, ok.end_eq]
  split
  case isFalse out =>
    obtain ⟨s', rs', rest, eq, rows, kept, mem, was, now, balanced⟩ :=
      munmapBelow_spec t at_mid record ok lower upper page
    have now : rs'.Perm (r.below temp ++ r.behind vaddr ++ rest) := by
      rw [behind, if_neg out, append_nil]
      exact now
    obtain ⟨pieces, trims⟩ := parts_trim ok lower upper page forth page' was now
    exact ⟨_, s', rs', eq, ⟨rows, pieces, trims, kept, touches mem⟩, balanced, mem,
      fun _ => ⟨rest, was, now⟩⟩
  case isTrue inside =>
    cases hk : s.kmalloc with
    | mk name s₁ =>
      cases name with
      | none =>
        obtain ⟨hmem, hregions, hrecords, hinit, hbrk, hnext, -⟩ := kmalloc_fields hk
        refine ⟨_, s₁, rs, rfl, ⟨t.congr hregions hrecords hnext, fun _ => .inl, .refl rs, ?_,
          touches hmem⟩, .of_eq (kmalloc_refs hk) hregions hrecords hnext, hmem, nofun⟩
        exact Kept.of_eq hregions hrecords hnext hinit hbrk
      | some new =>
        dsimp only
        have fits := ok.fits
        have behind : r.behind vaddr = [_] := if_pos inside
        rw [sub32_eq last (by omega)]
        generalize hpiece : ({ r with
          base := vaddr
          len := r.fin - vaddr
          offset := (r.offset + vaddr - r.base).bmod 4294967296 } : Region) = piece at behind
        obtain ⟨piece_ok, _, -⟩ := behind_ok ok page' piece (by simp [behind])
        obtain ⟨_, room⟩ := safe inside (kmalloc_some hk)
        obtain ⟨_, added, t₂, above, at₂, record₂, mem₂, split⟩ :=
          splitOff_spec t at_mid record piece_ok.whole (by omega) (by rw [← hpiece]) room hk
        rw [added, bind_some]
        obtain ⟨s', rs', rest, eq, rows, kept, mem, was, now, balanced⟩ :=
          munmapBelow_spec t₂ at₂ record₂ ok lower upper page
        obtain ⟨-, perm⟩ := rows_perm t at_mid record
        -- `rest` holds the new region and the other regions of `rs`
        have others : rest.Perm (piece :: rs.eraseIdx mid) := by
          have all : (r :: rest).Perm (piece :: r :: rs.eraseIdx mid) :=
            was.symm.trans ((insertBy_perm _ _ _).trans (perm.cons piece))
          exact (all.trans (List.Perm.swap _ _ _)).cons_inv
        have now : rs'.Perm (r.below temp ++ r.behind vaddr ++ rs.eraseIdx mid) := by
          rw [behind, append_assoc]
          exact now.trans (others.append_left _)
        obtain ⟨pieces, trims⟩ := parts_trim ok lower upper page forth page' perm now
        exact ⟨_, s', rs', eq, ⟨rows, pieces, trims, above.trans kept (by omega),
          touches (mem.trans mem₂)⟩, split.trans balanced, mem.trans mem₂, fun _ => ⟨_, perm, now⟩⟩

end

theorem findRegion_found (h : s.findRegion addr = some (.found mid)) :
    ∃ p r, s.regions.elems[mid]? = some p ∧ s.records p = some r ∧ r ∈ rs ∧ r.Ok ∧
      r.base ≤ addr ∧ addr < r.fin := by
  obtain ⟨-, -, probed⟩ := Bisect.search_found h
  obtain ⟨r, hr, order⟩ := map_eq_some_iff.1 probed
  obtain ⟨p, at_mid, record⟩ := bind_eq_some_iff.1 hr
  have whole := t.get_whole at_mid record
  have mem := mem_of_getElem? (t.get at_mid record)
  split at order
  · rename_i inside
    have ok := whole.ok inside.1 inside.2
    rw [ok.end_eq] at inside
    exact ⟨p, r, at_mid, record, mem, ok, inside.1, inside.2⟩
  · split at order <;> cases order

theorem findRegion_isSome : s.findRegion addr ≠ none := by
  apply Bisect.search_isSome
  intro i inside
  unfold probeAt
  rw [t.region_eq, getElem?_eq_getElem (t.length_eq ▸ inside)]
  exact nofun

end AddrSpace

/-- An unmapping at `addr` that leaves no freed record in the table and does not
write behind it. Where it starts at the base of a region it has to unmap something:
otherwise the region's record is freed and a copy of it, put in front of it, removed.
Where it ends inside a region there must be room for another one. Behind the end
of a region it goes on with the length that `sys_munmap` passes on. -/
def unmapSafe (rs : List Region) : Nat → Nat → Nat → Bool
  | 0, _, _ => true
  | fuel + 1, addr, len =>
    rs.all fun r =>
      if r.base ≤ addr ∧ addr < r.fin then
        let stop := add32 addr (roundPage len)
        decide (addr = r.base → addr < stop) &&
          decide (stop < r.fin → rs.length < PROCESS_MMAP_LIMIT) &&
          (decide (stop ≤ r.fin) || unmapSafe rs fuel r.fin (sub32 (roundPage len) r.len))
      else true

namespace AddrSpace

/-- The same for the regions that the search finds. Without memory for another record no
region is split, and nothing goes wrong. -/
def unmapFine (s : AddrSpace) : Nat → Nat → Nat → Bool
  | 0, _, _ => true
  | fuel + 1, addr, len =>
    if addr = 0 ∨ addr % 4096 ≠ 0 then true
    else
      match s.findRegion addr with
      | some (.found mid) =>
        (s.region mid).all fun r =>
          let stop := add32 addr (roundPage len)
          if regionEnd r < stop then s.unmapFine fuel (regionEnd r) (sub32 (roundPage len) r.len)
          else decide (regionEnd r ≤ stop ∨ s.kmallocs.head? ≠ some true ∨
            (addr = r.base → addr < stop) ∧ s.regions.elems.length < PROCESS_MMAP_LIMIT)
      | _ => true

variable {len prot flags fuel mid p base : Nat} {m : Memory}

variable {ret : Except Errno Unit} {m' : Memory} {bytes : Nat} {fd : Option OpenFile} {f : OpenFile}

theorem unmapFine_mem (s : AddrSpace) (mem : Memory) (fuel addr len : Nat) :
    unmapFine { s with mem } fuel addr len = s.unmapFine fuel addr len := by
  induction fuel generalizing addr len with
  | zero => rfl
  | succ fuel ih =>
    unfold unmapFine
    simp only [ih]
    rfl

theorem unmapFine_of_safe (t : Table s rs)
    (safe : unmapSafe rs fuel addr len = true) : s.unmapFine fuel addr len = true := by
  induction fuel generalizing addr len with
  | zero => rfl
  | succ fuel ih =>
    unfold unmapFine
    split
    · rfl
    split
    · rename_i found
      obtain ⟨p, r, at_mid, record, mem, ok, lower, upper⟩ := findRegion_found t.rows found
      have safe := all_eq_true.1 safe r mem
      rw [if_pos ⟨lower, upper⟩] at safe
      simp only [Bool.and_eq_true, Bool.or_eq_true, decide_eq_true_eq] at safe
      obtain ⟨⟨progress, room⟩, further⟩ := safe
      rw [t.region_eq, t.get at_mid record, all_some, ok.end_eq]
      dsimp only
      split
      · exact ih (further.resolve_left (by omega))
      · rw [decide_eq_true_eq]
        by_cases inside : add32 addr (roundPage len) < r.fin
        · exact .inr (.inr ⟨progress, t.length_eq ▸ room inside⟩)
        · exact .inl (by omega)
    · rfl

/-- The number of regions that end above an address: it bounds the recursion. -/
def above (rs : List Region) (addr : Nat) : Nat := rs.countP fun q => addr < q.fin

theorem above_lt (mem : r ∈ rs) (inside : addr < r.fin) : above rs r.fin < above rs addr := by
  obtain ⟨front, back, rfl⟩ := append_of_mem mem
  have fewer : ∀ l : List Region, above l r.fin ≤ above l addr := by
    intro l
    apply countP_mono_left
    intro q _ hq
    have := of_decide_eq_true hq
    exact decide_eq_true (by omega)
  have hfront := fewer front
  have hback := fewer back
  unfold above at *
  rw [countP_append, countP_append, countP_cons, countP_cons]
  simp only [decide_eq_true inside, lt_irrefl, decide_false, Bool.false_eq_true, if_false,
    if_true]
  omega

/-- The region that holds `addr`, as the search finds it. -/
structure AtRegion (s : AddrSpace) (rs : List Region) (addr mid p : Nat) (r : Region) : Prop where
  search : s.findRegion addr = some (.found mid)
  at_mid : s.regions.elems[mid]? = some p
  record : s.records p = some r
  mem : r ∈ rs
  ok : r.Ok
  lower : r.base ≤ addr
  upper : addr < r.fin
  page : addr % 4096 = 0

/-- The pages of `[lo, hi)` have been freed and unmapped. -/
def dropped (s : AddrSpace) (lo hi : Nat) : AddrSpace :=
  { s with mem := (pageRange lo hi).foldl Memory.dropPage s.mem }

theorem dropped_fields (s : AddrSpace) (lo hi : Nat) :
    (s.dropped lo hi).regions = s.regions ∧ (s.dropped lo hi).records = s.records ∧
      (s.dropped lo hi).next = s.next ∧ (s.dropped lo hi).kmallocs = s.kmallocs ∧
      (s.dropped lo hi).refs = s.refs ∧ (s.dropped lo hi).initBreak = s.initBreak ∧
      (s.dropped lo hi).brk = s.brk ∧ (s.dropped lo hi).pid = s.pid := by
  exact ⟨rfl, rfl, rfl, rfl, rfl, rfl, rfl, rfl⟩

theorem rows_dropped (t : Rows s rs) (lo hi : Nat) : Rows (s.dropped lo hi) rs :=
  have ⟨regions, records, next, _⟩ := s.dropped_fields lo hi
  t.congr regions records next.symm.le

theorem AtRegion.dropped (found : AtRegion s rs addr mid p r) (lo hi : Nat) :
    (s.dropped lo hi).regions.elems[mid]? = some p ∧ (s.dropped lo hi).records p = some r := by
  exact ⟨found.at_mid, found.record⟩

/-- One level of `sys_munmap`: it fails at once, or takes the pages of the region it finds and
goes on behind them. -/
theorem munmapFuel_cases (t : Rows s rs) (fuel addr len : Nat) :
    munmapFuel (fuel + 1) s addr len = some (.error .EINVAL, s) ∨
    ∃ mid p r, AtRegion s rs addr mid p r ∧ addr ≠ 0 ∧ munmapFuel (fuel + 1) s addr len =
      if r.fin < add32 addr (roundPage len) then
        (munmapFuel fuel (s.dropped addr r.fin) r.fin (sub32 (roundPage len) r.len)).bind fun
          | (.error e, s) => some (.error e, s)
          | (.ok (), s) => s.munmapRest mid p addr r.fin
      else (s.dropped addr (add32 addr (roundPage len))).munmapRest mid p addr
        (max addr (add32 addr (roundPage len))) := by
  rw [munmapFuel.eq_2]
  split
  · exact .inl rfl
  · split
    · exact absurd ‹_› (findRegion_isSome t)
    · exact .inl rfl
    · rename_i mid found
      obtain ⟨p, r, at_mid, record, mem, ok, lower, upper⟩ := findRegion_found t found
      right
      refine ⟨mid, p, r, ⟨found, at_mid, record, mem, ok, lower, upper, by omega⟩, by omega, ?_⟩
      rw [at_mid, bind_some, record, bind_some, ok.end_eq]
      dsimp only
      rw [pageRange_length]
      generalize hstop : add32 addr (roundPage len) = stop
      have aligned := ok.fin_page
      have aligned' : stop % 4096 = 0 := hstop ▸ stop_page (by omega) len
      by_cases past : r.fin < stop
      · have vaddr : addr + (min stop r.fin - addr + 4095) / 4096 * 4096 = r.fin := by omega
        rw [vaddr, if_pos past, if_pos past, min_eq_right past.le]
        rfl
      · have vaddr : addr + (min stop r.fin - addr + 4095) / 4096 * 4096 = max addr stop := by omega
        rw [vaddr, if_neg past, if_neg (by omega), min_eq_left (by omega)]
        rfl

/-- A range that starts where a region does, or that does not leave the region it starts in. -/
structure Straight (rs : List Region) (addr len : Nat) : Prop where
  pos : 0 < len
  fits : addr + len < 4294967296
  inside : ∀ r ∈ rs, r.base < addr → addr < r.fin → addr + len ≤ r.fin

/-- Behind the first region of a straight range, the length that `sys_munmap` passes on is the
right one. -/
theorem Straight.next (straight : Straight rs addr (roundPage len))
    (apart : rs.Pairwise Region.Apart) (found : AtRegion s rs addr mid p r)
    (past : r.fin < addr + roundPage len) :
    addr = r.base ∧ Straight rs r.fin (roundPage (sub32 (roundPage len) r.len)) ∧
      r.fin + roundPage (sub32 (roundPage len) r.len) = addr + roundPage len := by
  have fits := straight.fits
  have start : addr = r.base := by
    by_contra apart
    have lower := found.lower
    have := straight.inside r found.mem (by omega) found.upper
    omega
  have whole := (roundPage_spec len).1
  have pages := found.ok.pages
  have fin : r.fin = addr + r.len := by rw [start, fin]
  have rest : roundPage (sub32 (roundPage len) r.len) = roundPage len - r.len := by
    rw [sub32_eq (by omega) (by omega), roundPage_eq (by omega) (by omega)]
  refine ⟨start, ⟨by omega, by omega, fun q hq lower upper => ?_⟩, by omega⟩
  have other : r ≠ q := by
    rintro rfl
    omega
  rcases apart.forall found.mem hq other with above | above <;> unfold Region.fin at * <;> omega

/-- Behind its recursion `sys_munmap` cuts off the end of the region it has found. -/
theorem Unmapped.cut {s₂ : AddrSpace} {rs₂ : List Region}
    (u : Unmapped s s₂ rs rs₂ r.fin) (t : Rows s rs) (at_mid : s.regions.elems[mid]? = some p)
    (record : s.records p = some r) (ok : r.Ok) (lower : r.base ≤ addr) (upper : addr < r.fin)
    (page : addr % 4096 = 0) :
    ∃ ret s' rs', s₂.munmapRest mid p addr r.fin = some (ret, s') ∧ Unmapped s₂ s' rs₂ rs' addr ∧
      Balanced s₂ s' rs₂ rs' ∧ s'.mem = s₂.mem ∧
      (ret = .ok () → rs.Pairwise Region.Apart → Cut rs₂ rs' addr r.fin) := by
  have named : p < s.next := t.named p (mem_of_getElem? at_mid)
  have record₂ : s₂.records p = some r := u.kept.records p named r record le_rfl
  have at₂ : s₂.regions.elems[mid]? = some p := u.kept.get t at_mid record (by omega)
  obtain ⟨ret, s', rs', eq, u', rest, mem, parts⟩ := munmapRest_spec u.rows at₂ record₂ ok
    lower upper page upper.le le_rfl ok.fin_page
    (fun lt => absurd lt (lt_irrefl _))
  refine ⟨ret, s', rs', eq, u', rest, mem, fun done apart => ?_⟩
  obtain ⟨_, was, now⟩ := parts done
  exact Cut.of_perm was now (u.trims.apart apart) lower upper.le le_rfl

/-- A safe `sys_munmap` returns, only trims regions and counts the references. A straight range
is cut out of the regions, and its pages are dropped in their order. -/
theorem munmapFuel_exact (t : Rows s rs)
    (enough : above rs addr < fuel) (fine : s.unmapFine fuel addr len = true) :
    ∃ ret s' rs', munmapFuel fuel s addr len = some (ret, s') ∧ Unmapped s s' rs rs' addr ∧
      Balanced s s' rs rs' ∧ (ret = .ok () → rs.Pairwise Region.Apart →
        Straight rs addr (roundPage len) → Cut rs rs' addr (addr + roundPage len) ∧
          s'.mem = (pageRange addr (addr + roundPage len)).foldl dropPage s.mem) := by
  induction fuel generalizing s rs addr len with
  | zero => omega
  | succ fuel ih =>
    rcases munmapFuel_cases t fuel addr len with eq | ⟨_, p, r, found, _, eq⟩
    · exact ⟨_, s, rs, eq, .refl t addr, .of_eq rfl rfl rfl le_rfl, nofun⟩
    obtain ⟨search, at_mid, record, mem, ok, lower, upper, page⟩ := id found
    unfold unmapFine at fine
    rw [if_neg (by omega), search] at fine
    dsimp only at fine
    rw [t.region_eq, t.get at_mid record, all_some, ok.end_eq] at fine
    rw [eq]
    have aligned := ok.fin_page
    -- the pages that the loop unmaps lie in the region
    have drop : ∀ hi ≤ r.fin, ∀ a, Unmapped s (s.dropped addr hi) rs rs a ∧
        Balanced s (s.dropped addr hi) rs rs := by
      intro hi le a
      obtain ⟨regions, records, next, -, refs, initBreak, brk, -⟩ := s.dropped_fields addr hi
      refine ⟨⟨rows_dropped t addr hi, fun _ => .inl, .refl rs,
        .of_eq regions records next.symm.le initBreak brk, fun bound hb =>
          dropPages_touches fun v hv => ?_⟩,
        .of_eq refs regions records next.symm.le⟩
      have := (pageRange_mem hv).2.1
      have := hb r mem
      omega
    split
    case isTrue past =>
      have enough' : above rs r.fin < fuel := by
        have := above_lt mem upper
        omega
      rw [if_pos past, ← unmapFine_mem s (s.dropped addr r.fin).mem] at fine
      obtain ⟨first, balanced₁⟩ := drop r.fin le_rfl r.fin
      obtain ⟨ret, s₂, rs₂, eq, u, balanced, exactly⟩ := ih first.rows enough' fine
      have balanced₂ := balanced₁.trans balanced
      rw [eq, bind_some]
      have u₂ := first.trans u le_rfl
      cases ret with
      | error e =>
        exact ⟨_, s₂, rs₂, rfl, u₂.trans (.refl u.rows addr) upper.le, balanced₂, nofun⟩
      | ok =>
        obtain ⟨ret, s', rs', eq', u', rest, mem', last⟩ :=
          u₂.cut t at_mid record ok lower upper page
        refine ⟨ret, s', rs', eq', u₂.trans u' upper.le, balanced₂.trans rest,
          fun done apart straight => ?_⟩
        have whole : add32 addr (roundPage len) = addr + roundPage len := add32_eq straight.fits
        rw [whole] at past
        obtain ⟨_, next, stop⟩ := straight.next apart found past
        obtain ⟨cut, pages⟩ := exactly rfl apart next
        rw [stop] at cut pages
        refine ⟨cut.trans (last done apart) upper.le past.le, ?_⟩
        rw [mem', pages, dropped, ← foldl_append,
          ← pageRange_append (by omega) (by omega) (by omega)]
    case isFalse within =>
      rw [if_neg within, decide_eq_true_eq] at fine
      generalize hstop : add32 addr (roundPage len) = stop at fine within ⊢
      have aligned' : stop % 4096 = 0 := hstop ▸ stop_page page len
      have safe : max addr stop < r.fin → s.kmallocs.head? = some true →
          (addr = r.base → addr < max addr stop) ∧ rs.length < PROCESS_MMAP_LIMIT := by
        intro lt memory
        rcases fine with _ | noMemory | ⟨_, room⟩
        · omega
        · exact absurd memory noMemory
        · exact ⟨by omega, t.length_eq ▸ room⟩
      obtain ⟨first, balanced₁⟩ := drop stop (by omega) addr
      obtain ⟨at₁, record₁⟩ := found.dropped addr stop
      rw [← (s.dropped_fields addr stop).2.2.2.1] at safe
      obtain ⟨ret, s', rs', eq, u, rest, mem', parts⟩ := munmapRest_spec first.rows at₁ record₁ ok
        lower upper page (by omega) (by omega) (by omega) safe
      refine ⟨ret, s', rs', eq, first.trans u le_rfl, balanced₁.trans rest,
        fun done apart straight => ?_⟩
      have whole : stop = addr + roundPage len := by
        rw [← hstop]
        exact add32_eq straight.fits
      obtain ⟨_, was, now⟩ := parts done
      rw [max_eq_right (by omega), whole] at now
      rw [mem', whole]
      exact ⟨Cut.of_perm was now apart lower (by omega) (by omega), rfl⟩

theorem munmapFuel_spec (t : Rows s rs)
    (enough : above rs addr < fuel) (fine : s.unmapFine fuel addr len = true) :
    ∃ ret s' rs', munmapFuel fuel s addr len = some (ret, s') ∧ Unmapped s s' rs rs' addr ∧
      Balanced s s' rs rs' := by
  obtain ⟨ret, s', rs', eq, unmapped, balanced, -⟩ := munmapFuel_exact t enough fine
  exact ⟨ret, s', rs', eq, unmapped, balanced⟩

/-- What a change of protection does: the regions stay where they are. -/
structure Reprotected (s s' : AddrSpace) (rs rs' : List Region) : Prop where
  table : Table s' rs'
  ranges : rs'.map (fun r => (r.base, r.len)) = rs.map fun r => (r.base, r.len)
  regions : s'.regions = s.regions
  initBreak : s'.initBreak = s.initBreak
  brk : s'.brk = s.brk

theorem Reprotected.trans {s' s'' : AddrSpace} {rs' rs'' : List Region}
    (h : Reprotected s s' rs rs') (k : Reprotected s' s'' rs' rs'') : Reprotected s s'' rs rs'' where
  table := k.table
  ranges := k.ranges.trans h.ranges
  regions := k.regions.trans h.regions
  initBreak := k.initBreak.trans h.initBreak
  brk := k.brk.trans h.brk

theorem Reprotected.trims {s' : AddrSpace} {rs' : List Region}
    (h : Reprotected s s' rs rs') : Trims rs rs' := by
  constructor
  · intro q hq
    have there : (q.base, q.len) ∈ rs.map fun r => (r.base, r.len) :=
      h.ranges ▸ mem_map_of_mem hq
    obtain ⟨r, hr, eq⟩ := mem_map.1 there
    simp only [Prod.mk.injEq] at eq
    refine ⟨r, hr, le_of_eq eq.1, ?_⟩
    unfold fin
    omega
  · intro apart
    have ranges : (rs.map fun r => (r.base, r.len)).Pairwise
        fun a b => a.1 + a.2 ≤ b.1 ∨ b.1 + b.2 ≤ a.1 := pairwise_map.2 apart
    rw [← h.ranges, pairwise_map] at ranges
    exact ranges

variable {s s' : AddrSpace} {rs rs' : List Region}

theorem protectRest_spec {pgflags : Nat} (bound : Nat) (t : Table s rs)
    (at_mid : s.regions.elems[mid]? = some p) (inside : addr + len ≤ bound)
    (h : s.protectRest p addr len prot pgflags = some (ret, s')) :
    ∃ rs', Reprotected s s' rs rs' ∧ Touches (· < bound) s.mem s'.mem := by
  obtain ⟨r, record, h⟩ := bind_eq_some_iff.1 h
  split at h
  · cases h
    exact ⟨rs, ⟨t, rfl, rfl, rfl, rfl⟩, .refl _⟩
  · obtain ⟨m, mapped, eq⟩ := map_eq_some_iff.1 h
    cases eq
    have ok := t.get_ok at_mid record
    have ok' : Region.Ok { r with prot } := { ok with }
    have table := t.set at_mid record ok' rfl
    refine ⟨_, ⟨table.congr rfl rfl le_rfl, ?_, rfl, rfl, rfl⟩, ?_⟩
    · obtain ⟨hmid, hr⟩ := List.getElem?_eq_some_iff.1 (t.get at_mid record)
      rw [map_set]
      have hmid' : mid < (rs.map fun r => (r.base, r.len)).length := by simpa using hmid
      have there : (rs.map fun r => (r.base, r.len))[mid] = (r.base, r.len) := by
        rw [getElem_map, hr]
      rw [← there]
      exact set_getElem_self hmid'
    · apply remap_touches _ mapped
      intro v hv
      have below := (pageRange_mem hv).2.1
      unfold add32 at below
      omega

theorem mprotectFuel_cases (t : Rows s rs) (fuel addr len prot : Nat) :
    mprotectFuel (fuel + 1) s addr len prot = some (.error .EINVAL, s) ∨
    ∃ mid p r, AtRegion s rs addr mid p r ∧ mprotectFuel (fuel + 1) s addr len prot =
      if r.fin - addr < roundPage len then
        (mprotectFuel fuel s r.fin (roundPage len - (r.fin - addr)) (prot &&& PROT_MASK)).bind fun
          | (.error e, s) => some (.error e, s)
          | (.ok (), s) => s.protectRest p addr (roundPage len - (r.fin - addr))
              (prot &&& PROT_MASK) (if prot ≠ PROT_NONE then PAGE_FLAG_USER else 0)
      else s.protectRest p addr (roundPage len) (prot &&& PROT_MASK)
        (if prot ≠ PROT_NONE then PAGE_FLAG_USER else 0) := by
  rw [mprotectFuel.eq_2]
  split
  · exact .inl rfl
  split
  · exact .inl rfl
  split
  · exact absurd ‹_› (findRegion_isSome t)
  · exact .inl rfl
  · rename_i mid found
    obtain ⟨p, r, at_mid, record, mem, ok, lower, upper⟩ := findRegion_found t found
    have rem : sub32 r.fin addr = r.fin - addr := sub32_eq upper.le ok.fits
    have small := (roundPage_spec len).2
    refine .inr ⟨mid, p, r, ⟨found, at_mid, record, mem, ok, lower, upper, by omega⟩, ?_⟩
    rw [at_mid, bind_some, record, bind_some, ok.end_eq]
    rw [rem]
    by_cases longer : r.fin - addr < roundPage len
    · rw [if_pos longer, if_pos longer]
      generalize left : sub32 (roundPage len) (r.fin - addr) = n
      rw [sub32_eq longer.le small] at left
      subst left
      rfl
    · rw [if_neg longer, if_neg longer]

/-- `sys_mprotect` leaves the layout alone, and what it remaps lies below the end of
the highest region. Its recursion covers `[addr, addr + len)` with regions before a
page is remapped. -/
theorem mprotectFuel_spec {bound : Nat} {s' : AddrSpace} (t : Table s rs)
    (hb : ∀ r ∈ rs, r.fin ≤ bound)
    (h : mprotectFuel fuel s addr len prot = some (ret, s')) :
    ∃ rs', Reprotected s s' rs rs' ∧ Touches (· < bound) s.mem s'.mem ∧
      (ret = .ok () → roundPage len = 0 ∨ addr + roundPage len ≤ bound) := by
  induction fuel generalizing s s' rs addr len prot ret with
  | zero => cases h
  | succ fuel ih =>
    rcases mprotectFuel_cases t.rows fuel addr len prot with eq | ⟨_, p, r, found, eq⟩
    · cases eq.symm.trans h
      exact ⟨rs, ⟨t, rfl, rfl, rfl, rfl⟩, .refl _, nofun⟩
    rw [eq] at h
    obtain ⟨_, _⟩ := roundPage_spec len
    have high := hb r found.mem
    have page := found.page
    have upper := found.upper
    have aligned := found.ok.fin_page
    split at h
    case isTrue _ =>
      obtain ⟨⟨ret₁, _⟩, inner, h⟩ := bind_eq_some_iff.1 h
      obtain ⟨rs₁, p₁, touches₁, covered⟩ := ih t hb inner
      cases ret₁ with
      | error e =>
        cases h
        exact ⟨rs₁, p₁, touches₁, nofun⟩
      | ok =>
        have covered := covered rfl
        rw [roundPage_eq (by omega) (by omega)] at covered
        have inside : addr + roundPage len ≤ bound := by omega
        obtain ⟨rs₂, p₂, touches₂⟩ :=
          protectRest_spec bound p₁.table (p₁.regions ▸ found.at_mid) (by omega) h
        exact ⟨rs₂, p₁.trans p₂, touches₁.trans touches₂, fun _ => .inr inside⟩
    case isFalse _ =>
      have inside : addr + roundPage len ≤ bound := by omega
      obtain ⟨rs₂, p₂, touches₂⟩ := protectRest_spec bound t found.at_mid inside h
      exact ⟨rs₂, p₂, touches₂, fun _ => .inr inside⟩

theorem processSetBreak_cases {ret : Nat} (h : s.processSetBreak addr = some (ret, s')) :
    s'.regions = s.regions ∧ s'.records = s.records ∧ s'.next = s.next ∧
      s'.initBreak = s.initBreak ∧ Touches (· < PROCESS_BREAK_LIMIT) s.mem s'.mem ∧
      (s'.brk = s.brk ∨ s.brk ≤ addr ∧ addr < PROCESS_BREAK_LIMIT ∧ s'.brk = addr) := by
  unfold processSetBreak at h
  split at h
  · cases h
    exact ⟨rfl, rfl, rfl, rfl, .refl _, .inl rfl⟩
  · rename_i range
    obtain ⟨⟨failed, m⟩, mapped, h⟩ := bind_eq_some_iff.1 h
    have touches : Touches (· < PROCESS_BREAK_LIMIT) s.mem m := by
      apply (mapNew_touches _ mapped).1
      intro v hv
      have := (pageRange_mem hv).2.1
      omega
    cases failed with
    | some v =>
      cases h
      exact ⟨rfl, rfl, rfl, rfl, touches, .inl rfl⟩
    | none =>
      obtain ⟨_, filled, eq⟩ := map_eq_some_iff.1 h
      cases eq
      refine ⟨rfl, rfl, rfl, rfl, touches.trans (fill_touches _ filled), .inr ?_⟩
      exact ⟨by omega, by omega, rfl⟩

theorem mmapData_touches {file : Option OpenFile} {e : Option Errno} (P : Nat → Prop)
    (h : mmapData m base bytes flags file offset = some (e, m')) : Touches P m m' := by
  unfold mmapData at h
  split at h
  · split at h
    · cases h
      exact .refl _
    · obtain ⟨m₁, filled, eq⟩ := map_eq_some_iff.1 h
      cases eq
      exact fill_touches P filled
  · obtain ⟨m₁, filled, h⟩ := bind_eq_some_iff.1 h
    have first := fill_touches P filled
    split at h
    · cases h
      exact first
    · split at h
      · cases h
        exact first
      · obtain ⟨_, zeroed, eq⟩ := map_eq_some_iff.1 h
        cases eq
        exact first.trans (fill_touches P zeroed)

theorem mmapCheck_none
    (h : s.mmapCheck addr len prot flags fd offset = none) :
    addr % 4096 = 0 ∧ s.regions.elems.length < PROCESS_MMAP_LIMIT := by
  unfold mmapCheck at h
  dsimp only at h
  split at h
  · cases h
  split at h
  · cases h
  split at h
  · cases h
  split at h
  · cases h
  split at h
  · cases h
  split at h
  · cases h
  exact ⟨by omega, by omega⟩

/-- `sys_mmap` gets as far as entering a region with an inode: the arguments of a file are
taken, and there are frames, data and memory for the record. -/
def mapsFile (s : AddrSpace) (addr len prot flags : Nat) (fd : Option OpenFile) (offset : Int) :
    Bool :=
  !hasFlag flags MAP_ANONYMOUS && s.mmapCheck addr len prot flags fd offset == none &&
    ((s.mmapPlace (mmapHint addr) (roundPage len)).bind fun base =>
      (s.mem.mapNew PAGE_FLAG_WRITE (pageRange base (add32 base (roundPage len)))).map (·.1)) ==
        some none &&
    (fd.all fun f => (f.read len offset).2.isNone) && s.kmallocs.head? == some true

theorem mapsFile_of (file : hasFlag flags MAP_ANONYMOUS = false)
    (taken : s.mmapCheck addr len prot flags (some f) offset = none)
    (placed : s.mmapPlace (mmapHint addr) (roundPage len) = some base)
    (mapped : s.mem.mapNew PAGE_FLAG_WRITE (pageRange base (add32 base (roundPage len))) =
      some (none, m))
    (read : (f.read len offset).2 = none) (memory : s.kmallocs.head? = some true) :
    s.mapsFile addr len prot flags (some f) offset = true := by
  unfold mapsFile
  rw [file, taken, placed, memory, bind_some, mapped, map_some, all_some, read]
  rfl

theorem mmapData_read
    (h : mmapData m base bytes flags (some f) offset = some (none, m')) :
    (f.read bytes offset).2 = none := by
  obtain ⟨_, -, h⟩ := bind_eq_some_iff.1 h
  cases read : (f.read bytes offset).2 with
  | none => rfl
  | some e =>
    rw [read] at h
    cases h

/-- Everything `sys_mmap` can do: fail and leave the table alone, or enter one new
region of the rounded length where the search said. -/
theorem sysMmap_cases {ret : Except Errno Nat}
    (h : s.sysMmap addr len prot flags fd offset = some (ret, s')) :
    s' = s ∨ ∃ base s₁, s.mmapPlace (mmapHint addr) (roundPage len) = some base ∧
      addr % 4096 = 0 ∧ s.regions.elems.length < PROCESS_MMAP_LIMIT ∧
      Touches (fun v => base ≤ v ∧ v < add32 base (roundPage len)) s.mem s₁.mem ∧
      s₁.regions = s.regions ∧ s₁.records = s.records ∧ s.next ≤ s₁.next ∧
      s₁.initBreak = s.initBreak ∧ s₁.brk = s.brk ∧ s₁.refs = s.refs ∧
      (s' = s₁ ∨ s₁.next = s.next + 1 ∧ ∃ r : Region, r.base = base ∧ r.len = roundPage len ∧
        (s.mapsFile addr len prot flags fd offset = false → r.ino = none) ∧
        s₁.addRegion s.next r = some s') := by
  unfold sysMmap at h
  cases hc : s.mmapCheck addr len prot flags fd offset with
  | some e =>
    rw [hc] at h
    cases h
    exact .inl rfl
  | none =>
    rw [hc] at h
    obtain ⟨base, placed, h⟩ := bind_eq_some_iff.1 h
    have checked := mmapCheck_none hc
    right
    obtain ⟨⟨failed, m₁⟩, mapped, h⟩ := bind_eq_some_iff.1 h
    have pages : ∀ v ∈ pageRange base (add32 base (roundPage len)),
        base ≤ v ∧ v < add32 base (roundPage len) := by
      intro v hv
      have := pageRange_mem hv
      exact ⟨this.1, this.2.1⟩
    have touches₁ := (mapNew_touches pages mapped).1
    cases failed with
    | some v =>
      cases h
      refine ⟨base, { s with mem := m₁.releaseFrames (pageRange base v) }, placed, checked.1,
        checked.2, ?_, rfl, rfl, le_rfl, rfl, rfl, rfl, .inl rfl⟩
      exact touches₁.trans (releaseFrames_touches _ _ _)
    | none =>
      obtain ⟨⟨e, m₂⟩, data, h⟩ := bind_eq_some_iff.1 h
      have touches₂ := touches₁.trans (mmapData_touches _ data)
      cases e with
      | some e =>
        cases h
        exact ⟨base, { s with mem := m₂ }, placed, checked.1, checked.2, touches₂, rfl, rfl,
          le_rfl, rfl, rfl, rfl, .inl rfl⟩
      | none =>
        obtain ⟨m₃, mapped', h⟩ := bind_eq_some_iff.1 h
        have touches₃ := touches₂.trans (remap_touches pages mapped')
        cases hk : kmalloc { s with mem := m₃ } with
        | mk name s₁ =>
          rw [hk] at h
          obtain ⟨hmem, hregions, hrecords, hinit, hbrk, hnext, named⟩ := kmalloc_fields hk
          have hrefs := kmalloc_refs hk
          cases name with
          | none =>
            cases h
            have freed := releaseFrames_touches
              (fun v => base ≤ v ∧ v < add32 base (roundPage len)) s₁.mem
              (pageRange base (add32 base (roundPage len)))
            generalize s₁.mem.releaseFrames _ = m₄ at freed
            refine ⟨base, { s₁ with mem := m₄ }, placed, checked.1, checked.2, ?_,
              hregions, hrecords, hnext, hinit, hbrk, hrefs, .inl rfl⟩
            rw [hmem] at freed
            exact touches₃.trans freed
          | some new =>
            obtain ⟨rfl, hnext'⟩ := named new rfl
            obtain ⟨_, added, eq⟩ := map_eq_some_iff.1 h
            cases eq
            refine ⟨base, s₁, placed, checked.1, checked.2, ?_, hregions, hrecords, hnext, hinit,
              hbrk, hrefs, .inr ⟨hnext', ⟨base, roundPage len, _, _, _, _⟩, rfl, rfl,
                fun noFile => ?_, added⟩⟩
            · rw [hmem]
              exact touches₃
            · by_cases anonymous : hasFlag flags MAP_ANONYMOUS = true
              · rw [if_pos anonymous]
                rfl
              rw [if_neg anonymous] at data ⊢
              cases fd with
              | none => rfl
              | some f =>
                have memory := kmalloc_some hk
                rw [mapsFile_of (by simpa using anonymous) hc placed mapped (mmapData_read data)
                  memory] at noFile
                cases noFile

end AddrSpace

end Os0
