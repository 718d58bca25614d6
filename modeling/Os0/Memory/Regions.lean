import Os0.Memory.Mman
import Mathlib.Data.List.Nodup
import Mathlib.Data.List.Pairwise

/-! The region table of a process as a list of regions, and what each call does to
the list. -/
namespace Os0

open Bytes Function List Region

namespace Region

/-- The address behind a region. -/
def fin (r : Region) : Nat := r.base + r.len

/-- A region of whole pages inside the address space. -/
structure Ok (r : Region) : Prop where
  base : r.base % 4096 = 0
  pages : r.len % 4096 = 0
  pos : 0 < r.len
  fits : r.fin < 4294967296

/-- A region of whole pages as `sys_mmap` makes them: it may be empty or end behind the
address space. -/
structure Whole (r : Region) : Prop where
  base : r.base % 4096 = 0
  pages : r.len % 4096 = 0
  low : r.base < 4294967296
  short : r.len < 4294967296

variable {r : Region}

theorem Ok.whole (ok : r.Ok) : r.Whole := by
  have fits := ok.fits
  unfold fin at fits
  exact ⟨ok.base, ok.pages, by omega, by omega⟩

/-- A region that the searches can find is not empty and does not wrap. -/
theorem Whole.ok {addr : Nat} (whole : r.Whole) (lower : r.base ≤ addr)
    (upper : addr < AddrSpace.regionEnd r) : r.Ok := by
  have short := whole.short
  unfold AddrSpace.regionEnd add32 at upper
  have fits : r.fin < 4294967296 := by
    unfold fin
    omega
  exact ⟨whole.base, whole.pages, by unfold fin at fits; omega, fits⟩

def Apart (r q : Region) : Prop := r.fin ≤ q.base ∨ q.fin ≤ r.base

theorem Apart.symm {q : Region} (h : r.Apart q) : q.Apart r := Or.symm h

instance : Std.Symm Apart := ⟨fun _ _ => Apart.symm⟩

theorem Ok.end_eq (ok : r.Ok) : AddrSpace.regionEnd r = r.fin :=
  add32_eq ok.fits

theorem Ok.fin_page (ok : r.Ok) : r.fin % 4096 = 0 := by
  have := ok.base
  have := ok.pages
  unfold fin
  omega

end Region

/-- The regions of the table whose records are allocated. -/
def AddrSpace.table (s : AddrSpace) : List Region := s.regions.elems.filterMap s.records

/-- The table holds the records of `rs`, each once. -/
structure Table (s : AddrSpace) (rs : List Region) : Prop where
  max : s.regions.max = PROCESS_MMAP_LIMIT
  size : rs.length ≤ PROCESS_MMAP_LIMIT
  records : s.regions.elems.map s.records = rs.map some
  nodup : s.regions.elems.Nodup
  named : ∀ p ∈ s.regions.elems, p < s.next
  sorted : rs.Pairwise fun r q => r.base ≤ q.base
  ok : ∀ r ∈ rs, r.Ok

/-- The same, with any regions that `sys_mmap` may make. -/
structure Rows (s : AddrSpace) (rs : List Region) : Prop where
  max : s.regions.max = PROCESS_MMAP_LIMIT
  size : rs.length ≤ PROCESS_MMAP_LIMIT
  records : s.regions.elems.map s.records = rs.map some
  nodup : s.regions.elems.Nodup
  named : ∀ p ∈ s.regions.elems, p < s.next
  sorted : rs.Pairwise fun r q => r.base ≤ q.base
  whole : ∀ r ∈ rs, r.Whole

variable {s s' : AddrSpace} {rs rs' rs'' : List Region}

theorem table_of_records (records : s.regions.elems.map s.records = rs.map some) :
    s.table = rs := by
  have same : s.regions.elems.filterMap s.records =
      (s.regions.elems.map s.records).filterMap id := by simp [filterMap_map]
  rw [AddrSpace.table, same, records, filterMap_map]
  exact filterMap_some

theorem region_of_records (records : s.regions.elems.map s.records = rs.map some) (i : Nat) :
    s.region i = rs[i]? := by
  have same : s.region i = (s.regions.elems.map s.records)[i]?.bind id := by
    simp [AddrSpace.region, Option.bind_map]
  rw [same, records]
  simp [Option.bind_map]

theorem Table.rows (t : Table s rs) : Rows s rs :=
  { t with whole := fun r hr => (t.ok r hr).whole }

theorem Rows.toTable (t : Rows s rs) (ok : ∀ r ∈ rs, r.Ok) : Table s rs :=
  { t with ok }

namespace Rows

variable {i p : Nat} {r : Region}

variable (t : Rows s rs)
include t

theorem length_eq : s.regions.elems.length = rs.length := by
  simpa using congrArg List.length t.records

theorem table_eq : s.table = rs := table_of_records t.records

theorem region_eq (i : Nat) : s.region i = rs[i]? := region_of_records t.records i

theorem get (at_i : s.regions.elems[i]? = some p)
    (record : s.records p = some r) : rs[i]? = some r := by
  rw [← t.region_eq, AddrSpace.region, at_i]
  exact record

theorem get_whole (at_i : s.regions.elems[i]? = some p) (record : s.records p = some r) : r.Whole :=
  t.whole r (mem_of_getElem? (t.get at_i record))

theorem frame (regions : s'.regions = s.regions)
    (records : ∀ p ∈ s.regions.elems, s'.records p = s.records p) (next : s.next ≤ s'.next) :
    Rows s' rs where
  max := by rw [regions]; exact t.max
  size := t.size
  records := by
    rw [regions, ← t.records]
    exact map_congr_left records
  nodup := by rw [regions]; exact t.nodup
  named := by
    intro p hp
    rw [regions] at hp
    exact lt_of_lt_of_le (t.named p hp) next
  sorted := t.sorted
  whole := t.whole

theorem congr (regions : s'.regions = s.regions) (records : s'.records = s.records)
    (next : s.next ≤ s'.next) : Rows s' rs :=
  t.frame regions (fun p _ => by rw [records]) next

theorem set {r' : Region} (at_i : s.regions.elems[i]? = some p)
    (record : s.records p = some r) (whole : r'.Whole) (base : r'.base = r.base) :
    Rows (s.setRecord p (some r')) (rs.set i r') := by
  obtain ⟨hi, hp⟩ := List.getElem?_eq_some_iff.1 at_i
  have index : s.regions.elems.idxOf p = i := by
    rw [← hp]
    exact t.nodup.idxOf_getElem i hi
  have bases : (rs.set i r').map Region.base = rs.map Region.base := by
    rw [map_set, base]
    apply ext_getElem?
    intro j
    rw [getElem?_set]
    split
    · rename_i same
      subst same
      have := t.get at_i record
      rw [length_map, if_pos (t.length_eq ▸ hi), getElem?_map, this]
      rfl
    · rfl
  constructor
  case max => exact t.max
  case size => simpa using t.size
  case records =>
    change s.regions.elems.map (update s.records p (some r')) = _
    rw [List.Nodup.map_update t.nodup, if_pos (hp ▸ getElem_mem hi), index, t.records, map_set]
  case nodup => exact t.nodup
  case named => exact t.named
  case sorted =>
    have sorted := pairwise_map.2 t.sorted
    rw [← bases] at sorted
    exact pairwise_map.1 sorted
  case whole =>
    intro q hq
    rcases mem_or_eq_of_mem_set hq with hq | rfl
    · exact t.whole q hq
    · exact whole

theorem drop (at_i : s.regions.elems[i]? = some p) (regions : s'.regions = s.regions.remove i)
    (records : s'.records = update s.records p none) (next : s'.next = s.next) :
    Rows s' (rs.eraseIdx i) := by
  obtain ⟨hi, hp⟩ := List.getElem?_eq_some_iff.1 at_i
  have elems : s'.regions.elems = s.regions.elems.eraseIdx i := by
    rw [regions, SortedArray.remove, if_pos hi]
  have gone : p ∉ s.regions.elems.eraseIdx i := by
    rw [← List.Nodup.erase_getElem t.nodup i hi, hp]
    exact List.Nodup.not_mem_erase t.nodup
  constructor
  case max => rw [regions, SortedArray.remove_max]; exact t.max
  case size => exact le_trans (length_eraseIdx_le rs i) t.size
  case records =>
    rw [elems, records]
    have same : (s.regions.elems.eraseIdx i).map (update s.records p none) =
        (s.regions.elems.eraseIdx i).map s.records := by
      apply map_congr_left
      intro q hq
      apply update_of_ne
      rintro rfl
      exact gone hq
    rw [same, ← eraseIdx_map, t.records, eraseIdx_map]
  case nodup =>
    rw [elems]
    exact t.nodup.sublist (eraseIdx_sublist _ i)
  case named =>
    intro q hq
    rw [elems] at hq
    rw [next]
    exact t.named q ((eraseIdx_sublist _ i).mem hq)
  case sorted => exact t.sorted.sublist (eraseIdx_sublist rs i)
  case whole => exact fun q hq => t.whole q ((eraseIdx_sublist rs i).mem hq)

end Rows

/-- The order of `process_mregion_cmp`. -/
def baseBelow (r q : Region) : Bool := r.base < q.base

/-- `process_mregion_cmp` on two records. -/
def recordBelow : Option Region → Option Region → Bool
  | some a, some b => a.base < b.base
  | _, _ => false

/-- The record `r` has been entered under the name `p`. -/
structure Added (s s' : AddrSpace) (p : Nat) (r : Region) : Prop where
  elems : ∃ cmp, s'.regions.elems = insertBy cmp p s.regions.elems ∧
    ∀ q ∈ s.regions.elems, ∀ b, s.records q = some b → cmp q p = decide (b.base < r.base)
  records : s'.records = Function.update s.records p (some r)
  next : s'.next = s.next
  mem : s'.mem = s.mem
  initBreak : s'.initBreak = s.initBreak
  brk : s'.brk = s.brk
  refs : s'.refs = s.refs
  kmallocs : s'.kmallocs = s.kmallocs

variable {r : Region}

theorem Rows.add {p : Nat} (t : Rows s rs) (new : p ∉ s.regions.elems) (named : p < s.next)
    (whole : r.Whole) (room : rs.length < PROCESS_MMAP_LIMIT) :
    ∃ s', s.addRegion p r = some s' ∧ Rows s' (insertBy baseBelow r rs) ∧ Added s s' p r := by
  have live : (s.regions.elems.all fun q => (s.records q).isSome) = true := by
    rw [all_eq_true]
    intro q hq
    have there : s.records q ∈ rs.map some := t.records ▸ mem_map_of_mem hq
    obtain ⟨b, -, hb⟩ := mem_map.1 there
    rw [← hb]
    rfl
  have space : (s.setRecord p r).regions.elems.length < (s.setRecord p r).regions.max := by
    change s.regions.elems.length < s.regions.max
    rw [t.length_eq, t.max]
    exact room
  have others : ∀ q ∈ s.regions.elems, (s.setRecord p r).records q = s.records q := by
    intro q hq
    apply update_of_ne
    rintro rfl
    exact new hq
  have self : (s.setRecord p r).records p = some r := update_self _ _ _
  have compare : ∀ q ∈ s.regions.elems, ∀ b, s.records q = some b →
      (s.setRecord p r).processMregionCmp q p = decide (b.base < r.base) := by
    intro q hq b hb
    unfold AddrSpace.processMregionCmp
    rw [others q hq, hb, self]
  unfold AddrSpace.addRegion SortedArray.insert
  rw [if_pos live, if_pos space]
  refine ⟨_, rfl, ⟨?_, ?_, ?_, ?_, ?_, ?_, ?_⟩, ⟨_, rfl, compare⟩, rfl, rfl, rfl, rfl, rfl, rfl,
    rfl⟩
  · exact t.max
  · rw [(insertBy_perm baseBelow r rs).length_eq]
    exact room
  · have lift : (insertBy baseBelow r rs).map some = insertBy recordBelow
        (some r) (rs.map some) := insertBy_map fun _ _ => rfl
    have down : (insertBy (s.setRecord p r).processMregionCmp p s.regions.elems).map
        (s.setRecord p r).records = insertBy recordBelow
        ((s.setRecord p r).records p) (s.regions.elems.map (s.setRecord p r).records) :=
      insertBy_map fun _ _ => rfl
    rw [lift]
    refine down.trans ?_
    rw [self, map_congr_left others, t.records]
  · apply (insertBy_perm _ p s.regions.elems).nodup_iff.2
    exact nodup_cons.2 ⟨new, t.nodup⟩
  · intro q hq
    rcases mem_cons.1 ((insertBy_perm _ p s.regions.elems).mem_iff.1 hq) with rfl | hq
    · exact named
    · exact t.named q hq
  · exact insertBy_sorted Nat.le_trans (fun less => (of_decide_eq_true less).le)
      (fun more => not_lt.1 fun less => more (decide_eq_true less)) t.sorted
  · intro q hq
    rcases mem_cons.1 ((insertBy_perm _ r rs).mem_iff.1 hq) with rfl | hq
    · exact whole
    · exact t.whole q hq

/-- The same behind a `kmalloc`, which gives the record its name. -/
theorem Rows.enter {s₁ : AddrSpace} (t : Rows s rs) (regions : s₁.regions = s.regions)
    (records : s₁.records = s.records) (next : s.next < s₁.next) (whole : r.Whole)
    (room : rs.length < PROCESS_MMAP_LIMIT) : ∃ s', s₁.addRegion s.next r = some s' ∧
      Rows s' (insertBy baseBelow r rs) ∧ Added s₁ s' s.next r := by
  refine (t.congr regions records next.le).add (fun there => ?_) next whole room
  rw [regions] at there
  exact lt_irrefl _ (t.named _ there)

namespace Table

variable {i p : Nat}

variable (t : Table s rs)
include t

theorem length_eq : s.regions.elems.length = rs.length := t.rows.length_eq

theorem table_eq : s.table = rs := table_of_records t.records

theorem region_eq (i : Nat) : s.region i = rs[i]? := t.rows.region_eq i

theorem get (at_i : s.regions.elems[i]? = some p)
    (record : s.records p = some r) : rs[i]? = some r := t.rows.get at_i record

theorem get_ok (at_i : s.regions.elems[i]? = some p) (record : s.records p = some r) : r.Ok :=
  t.ok r (mem_of_getElem? (t.get at_i record))

theorem congr (regions : s'.regions = s.regions) (records : s'.records = s.records)
    (next : s.next ≤ s'.next) : Table s' rs :=
  (t.rows.congr regions records next).toTable t.ok

theorem set {r' : Region} (at_i : s.regions.elems[i]? = some p)
    (record : s.records p = some r) (ok : r'.Ok) (base : r'.base = r.base) :
    Table (s.setRecord p (some r')) (rs.set i r') := by
  apply (t.rows.set at_i record ok.whole base).toTable
  intro q hq
  rcases mem_or_eq_of_mem_set hq with hq | rfl
  · exact t.ok q hq
  · exact ok

theorem enter {s₁ : AddrSpace} (regions : s₁.regions = s.regions)
    (records : s₁.records = s.records) (next : s.next < s₁.next) (ok : r.Ok)
    (room : rs.length < PROCESS_MMAP_LIMIT) : ∃ s', s₁.addRegion s.next r = some s' ∧
      Table s' (insertBy baseBelow r rs) ∧ Added s₁ s' s.next r := by
  obtain ⟨s', eq, rows, added⟩ := t.rows.enter regions records next ok.whole room
  refine ⟨s', eq, rows.toTable fun q hq => ?_, added⟩
  rcases mem_cons.1 ((insertBy_perm _ r rs).mem_iff.1 hq) with rfl | hq
  · exact ok
  · exact t.ok q hq

end Table

/-- Every region of `rs'` is a part of one of `rs`, and regions that were apart
have not come to overlap. -/
structure Trims (rs rs' : List Region) : Prop where
  within : ∀ q ∈ rs', ∃ r ∈ rs, r.base ≤ q.base ∧ q.fin ≤ r.fin
  apart : rs.Pairwise Region.Apart → rs'.Pairwise Region.Apart

theorem Trims.refl (rs : List Region) : Trims rs rs :=
  ⟨fun q hq => ⟨q, hq, le_rfl, le_rfl⟩, id⟩

theorem Trims.trans (h : Trims rs rs') (k : Trims rs' rs'') : Trims rs rs'' := by
  constructor
  · intro q hq
    obtain ⟨r', hr', lower', upper'⟩ := k.within q hq
    obtain ⟨r, hr, lower, upper⟩ := h.within r' hr'
    exact ⟨r, hr, lower.trans lower', upper'.trans upper⟩
  · exact fun apart => k.apart (h.apart apart)

/-- One region is replaced by parts of it that are apart. -/
theorem Trims.of_perm {rest pieces : List Region} (was : rs.Perm (r :: rest))
    (now : rs'.Perm (pieces ++ rest)) (within : ∀ q ∈ pieces, r.base ≤ q.base ∧ q.fin ≤ r.fin)
    (apart : pieces.Pairwise Region.Apart) : Trims rs rs' := by
  constructor
  · intro q hq
    rcases mem_append.1 (now.mem_iff.1 hq) with hq | hq
    · exact ⟨r, was.mem_iff.2 mem_cons_self, within q hq⟩
    · exact ⟨q, was.mem_iff.2 (mem_cons_of_mem r hq), le_rfl, le_rfl⟩
  · intro before
    rw [was.pairwise_iff Region.Apart.symm] at before
    rw [now.pairwise_iff Region.Apart.symm, pairwise_append]
    obtain ⟨first, others⟩ := pairwise_cons.1 before
    refine ⟨apart, others, fun q hq b hb => ?_⟩
    obtain ⟨lower, upper⟩ := within q hq
    rcases first b hb with h | h
    · exact .inl (upper.trans h)
    · exact .inr (h.trans lower)

namespace Region

def Holds (r : Region) (v : Nat) : Prop := r.base ≤ v ∧ v < r.fin

/-- What a region says of an address: its protection, flags, inode and offset in the file. -/
def page (r : Region) (v : Nat) : Nat × Nat × Option Nat × Int :=
  (r.prot, r.flags, r.ino, (r.offset + v - r.base).bmod 4294967296)

/-- The part of a region below an address in it. -/
def below (r : Region) (temp : Nat) : List Region :=
  if r.base < temp then [{ r with len := temp - r.base }] else []

/-- The part of a region from an address in it on. -/
def behind (r : Region) (vaddr : Nat) : List Region :=
  if vaddr < r.fin then
    [{ r with
      base := vaddr
      len := r.fin - vaddr
      offset := (r.offset + vaddr - r.base).bmod 4294967296 }]
  else []

theorem Holds.not_apart {q : Region} {v : Nat} (h : r.Holds v) (k : q.Holds v) : ¬r.Apart q := by
  rintro (above | above) <;> unfold Holds at h k <;> omega

end Region

/-- Some region of `rs` holds `v` and says `page` of it. -/
def Shows (rs : List Region) (v : Nat) (page : Nat × Nat × Option Nat × Int) : Prop :=
  ∃ r ∈ rs, r.Holds v ∧ r.page v = page

section Shows

variable {r : Region} {v : Nat} {page : Nat × Nat × Option Nat × Int}

@[simp] theorem shows_cons :
    Shows (r :: rs) v page ↔ (r.Holds v ∧ r.page v = page) ∨ Shows rs v page := by
  simp [Shows]

@[simp] theorem shows_append : Shows (rs ++ rs') v page ↔ Shows rs v page ∨ Shows rs' v page := by
  simp only [Shows, mem_append, or_and_right, exists_or]

theorem shows_perm (perm : rs.Perm rs') : Shows rs v page ↔ Shows rs' v page := by
  simp only [Shows, perm.mem_iff]

theorem shows_below {temp : Nat} (last : temp ≤ r.fin) :
    Shows (r.below temp) v page ↔ (r.Holds v ∧ r.page v = page) ∧ v < temp := by
  unfold below
  split
  · have stop : fin { r with len := temp - r.base } = temp := by
      unfold fin
      dsimp only
      omega
    simp only [shows_cons, Region.Holds, stop]
    simp only [Region.page, Shows, not_mem_nil, false_and, exists_false, or_false]
    constructor
    · rintro ⟨⟨lower, upper⟩, eq⟩
      exact ⟨⟨⟨lower, by omega⟩, eq⟩, upper⟩
    · rintro ⟨⟨⟨lower, -⟩, eq⟩, upper⟩
      exact ⟨⟨lower, upper⟩, eq⟩
  · simp only [Shows, not_mem_nil, false_and, exists_false, false_iff, not_and, and_imp,
      Region.Holds]
    omega

theorem shows_behind {vaddr : Nat} (first : r.base ≤ vaddr) :
    Shows (r.behind vaddr) v page ↔ (r.Holds v ∧ r.page v = page) ∧ vaddr ≤ v := by
  unfold Region.behind
  split
  · have stop : Region.fin { r with
        base := vaddr
        len := r.fin - vaddr
        offset := (r.offset + vaddr - r.base).bmod 4294967296 } = r.fin := by
      unfold Region.fin at *
      dsimp only
      omega
    have offset : ((r.offset + vaddr - r.base).bmod 4294967296 + v - vaddr).bmod 4294967296 =
        (r.offset + v - r.base).bmod 4294967296 := by
      rw [add_sub_assoc, Int.bmod_add_bmod]
      congr 1
      omega
    simp only [shows_cons, Region.Holds, stop]
    simp only [Region.page, offset, Shows, not_mem_nil, false_and, exists_false, or_false]
    constructor
    · rintro ⟨⟨lower, upper⟩, eq⟩
      exact ⟨⟨⟨by omega, upper⟩, eq⟩, lower⟩
    · rintro ⟨⟨⟨-, upper⟩, eq⟩, lower⟩
      exact ⟨⟨lower, upper⟩, eq⟩
  · simp only [Shows, not_mem_nil, false_and, exists_false, false_iff, not_and, and_imp,
      Region.Holds]
    omega

end Shows

/-- `rs'` says what `rs` says outside of `[lo, hi)`, and nothing inside. -/
def Cut (rs rs' : List Region) (lo hi : Nat) : Prop :=
  ∀ v page, Shows rs' v page ↔ Shows rs v page ∧ ¬(lo ≤ v ∧ v < hi)

theorem Cut.trans {lo mid hi : Nat} (upper : Cut rs rs' mid hi) (lower : Cut rs' rs'' lo mid)
    (le : lo ≤ mid) (le' : mid ≤ hi) : Cut rs rs'' lo hi := by
  intro v page
  rw [lower v page, upper v page, and_assoc]
  apply and_congr_right
  intro _
  omega

/-- One region is replaced by its parts around a range in it. -/
theorem Cut.of_perm {rest : List Region} {lo hi : Nat} (was : rs.Perm (r :: rest))
    (now : rs'.Perm (r.below lo ++ r.behind hi ++ rest)) (apart : rs.Pairwise Region.Apart)
    (first : r.base ≤ lo) (le : lo ≤ hi) (last : hi ≤ r.fin) : Cut rs rs' lo hi := by
  rw [was.pairwise_iff Region.Apart.symm] at apart
  obtain ⟨others, -⟩ := pairwise_cons.1 apart
  intro v page
  rw [shows_perm now, shows_perm was, shows_append, shows_append, shows_cons,
    shows_below (le.trans last), shows_behind (first.trans le)]
  have outside : Shows rest v page → ¬(lo ≤ v ∧ v < hi) := by
    rintro ⟨q, hq, holds, -⟩ ⟨lower, _⟩
    exact Region.Holds.not_apart ⟨first.trans lower, by omega⟩ holds (others q hq)
  constructor
  · rintro ((⟨own, lt⟩ | ⟨own, _⟩) | other)
    · exact ⟨.inl own, by omega⟩
    · exact ⟨.inl own, by omega⟩
    · exact ⟨.inr other, outside other⟩
  · rintro ⟨own | other, _⟩
    · by_cases lt : v < lo
      · exact .inl (.inl ⟨own, lt⟩)
      · exact .inl (.inr ⟨own, by omega⟩)
    · exact .inr other

end Os0
