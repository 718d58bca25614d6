import Os0.Memory.Calls
import Os0.Memory.Fork
import Mathlib.Data.List.TakeWhile

/-! The layout of an address space over every run of its calls: regions sorted,
page-aligned, not empty, disjoint, and apart from the heap. -/
namespace Os0

open Bytes List Option AddrSpace Region

def startsBy (addr : Nat) (r : Region) : Bool := r.base ≤ addr

/-- The regions based at or below an address, in a sorted table. -/
def regionsBelow (rs : List Region) (addr : Nat) : List Region := rs.takeWhile (startsBy addr)

/-- The regions based above an address, in a sorted table. -/
def regionsAbove (rs : List Region) (addr : Nat) : List Region := rs.dropWhile (startsBy addr)

/-- Where the search for a gap starts: at the end of the region in front of the hint
when there is one behind it too, otherwise at the hint. -/
def searchStart (rs : List Region) (hint : Nat) : Nat :=
  if regionsAbove rs hint = [] then hint
  else ((regionsBelow rs hint).getLast?.map Region.fin).getD hint

/-- The first gap of `len` bytes in front of one of `rs`, or the end of the last. -/
def gapFit (len : Nat) : Nat → List Region → Nat
  | start, [] => start
  | start, r :: rs => if len ≤ sub32 r.base start then start else gapFit len r.fin rs

/-- There is room for `len` bytes below `limit`, at the start of the search or
behind one of the regions above the hint. -/
def hasRoom (rs : List Region) (hint len limit : Nat) : Bool :=
  (searchStart rs hint :: (regionsAbove rs hint).map Region.fin).any fun c =>
    searchStart rs hint ≤ c ∧ c + len ≤ limit ∧
      (regionsAbove rs hint).all fun r => r.fin ≤ c ∨ c + len ≤ r.base

section Place

variable {s : AddrSpace} {rs : List Region} {hint len : Nat}

variable {r : Region} {start : Nat}

theorem regions_split (rs : List Region) (hint : Nat) :
    regionsBelow rs hint ++ regionsAbove rs hint = rs := takeWhile_append_dropWhile

theorem mem_below (h : r ∈ regionsBelow rs hint) : r ∈ rs ∧ r.base ≤ hint := by
  have low : startsBy hint r = true := mem_takeWhile_imp h
  exact ⟨(takeWhile_sublist _).mem h, of_decide_eq_true low⟩

theorem mem_above (sorted : rs.Pairwise fun r q => r.base ≤ q.base)
    (h : r ∈ regionsAbove rs hint) : r ∈ rs ∧ hint < r.base := by
  refine ⟨(dropWhile_sublist _).mem h, ?_⟩
  induction rs with
  | nil => cases h
  | cons q rs ih =>
    obtain ⟨first, rest⟩ := pairwise_cons.1 sorted
    unfold regionsAbove at h
    by_cases low : startsBy hint q = true
    · rw [dropWhile_cons_of_pos low] at h
      exact ih rest h
    · rw [dropWhile_cons_of_neg low] at h
      have low : ¬q.base ≤ hint := fun le => low (decide_eq_true le)
      rcases mem_cons.1 h with rfl | h
      · omega
      · have := first r h
        omega

variable {qs : List Region}

theorem findGap_eq {ps : List Nat} (records : ps.map s.records = qs.map some) (ok : ∀ q ∈ qs, q.Ok)
    (vaddr : Nat) : s.findGap len vaddr ps = some (gapFit len vaddr qs) := by
  induction ps generalizing qs vaddr with
  | nil =>
    cases qs with
    | nil => rfl
    | cons q qs => cases records
  | cons p ps ih =>
    cases qs with
    | nil => cases records
    | cons q qs =>
      obtain ⟨first, rest⟩ := forall_mem_cons.1 ok
      simp only [map_cons, List.cons.injEq] at records
      unfold findGap gapFit
      rw [records.1]
      dsimp only
      rw [first.end_eq]
      split
      · rfl
      · exact ih records.2 rest _

theorem mmapPlace_eq (t : Table s rs) (hint len : Nat) : s.mmapPlace hint len =
    some (gapFit len (searchStart rs hint) (regionsAbove rs hint)) := by
  have split := regions_split rs hint
  have size := t.size
  unfold PROCESS_MMAP_LIMIT at size
  have lengths := congrArg List.length split
  rw [length_append] at lengths
  have behind : (regionsBelow rs hint ++ regionsAbove rs hint).drop (regionsBelow rs hint).length =
      regionsAbove rs hint := drop_left
  rw [split] at behind
  have front : ∀ i < (regionsBelow rs hint).length, rs[i]? = (regionsBelow rs hint)[i]? := by
    intro i low
    rw [← getElem?_append_left low, split]
  have gap : ∀ start, s.findGap len start (s.regions.elems.drop (regionsBelow rs hint).length) =
      some (gapFit len start (regionsAbove rs hint)) := by
    intro start
    apply findGap_eq
    · rw [map_drop, t.records, ← map_drop, behind]
    · exact fun q hq => t.ok q (mem_above t.sorted hq).1
  have search : Bisect.search (s.probeAbove hint) rs.length 0 rs.length =
      some (.missing (regionsBelow rs hint).length) := by
    apply Bisect.search_boundary
    · omega
    · omega
    · omega
    · intro i low
      have here := front i low
      rw [getElem?_eq_getElem low] at here
      have base := (mem_below (getElem_mem low)).2
      unfold probeAbove
      rw [t.region_eq, here, map_some, if_neg (by omega)]
    · intro i _ above
      have here : rs[i]? = (regionsAbove rs hint)[i - (regionsBelow rs hint).length]? := by
        rw [← getElem?_append_right above, split]
      have low : i - (regionsBelow rs hint).length < (regionsAbove rs hint).length := by omega
      rw [getElem?_eq_getElem low] at here
      have base := (mem_above t.sorted (getElem_mem low)).2
      unfold probeAbove
      rw [t.region_eq, here, map_some, if_pos base]
  unfold mmapPlace
  dsimp only
  rw [t.length_eq, search]
  dsimp only
  unfold searchStart
  split
  · have nil : rs = [] := eq_nil_of_length_eq_zero ‹_›
    rw [nil]
    rfl
  · split
    · -- the hint lies between two regions
      rename_i between
      have k : 0 < (regionsBelow rs hint).length ∧ (regionsBelow rs hint).length < rs.length := by
        unfold sub32 at between
        omega
      have last : s.region ((regionsBelow rs hint).length - 1) =
          (regionsBelow rs hint).getLast? := by
        rw [t.region_eq, getLast?_eq_getElem?, front _ (by omega)]
      have some : ∃ b, (regionsBelow rs hint).getLast? = some b := by
        cases h : (regionsBelow rs hint).getLast? with
        | none =>
          rw [getLast?_eq_none_iff] at h
          simp [h] at k
        | some b => exact ⟨b, rfl⟩
      obtain ⟨b, hb⟩ := some
      have ok := t.ok b (mem_below (mem_of_getLast? hb)).1
      have above : regionsAbove rs hint ≠ [] := by
        intro nil
        simp [nil] at lengths
        omega
      rw [last, hb, bind_some, ok.end_eq, gap, if_neg above]
      rfl
    · rename_i outside
      rw [gap]
      congr 2
      split
      · rfl
      · rename_i above
        have below : regionsBelow rs hint = [] := by
          apply eq_nil_of_length_eq_zero
          have := length_pos_of_ne_nil above
          unfold sub32 at outside
          omega
        rw [below]
        rfl

/-- A gap below a free stretch is found no later than there. -/
theorem gapFit_le {c : Nat} (from_start : start ≤ c)
    (free : ∀ q ∈ qs, q.fin ≤ c ∨ c + len ≤ q.base) (ok : ∀ q ∈ qs, q.Ok) :
    gapFit len start qs ≤ c := by
  induction qs generalizing start with
  | nil => exact from_start
  | cons q qs ih =>
    obtain ⟨first, rest⟩ := forall_mem_cons.1 free
    obtain ⟨okq, okqs⟩ := forall_mem_cons.1 ok
    unfold gapFit
    split
    · exact from_start
    · rename_i small
      apply ih _ rest okqs
      rcases first with h | h
      · exact h
      · have fits := okq.fits
        unfold fin at fits
        rw [sub32_eq (by omega) (by omega)] at small
        omega

/-- In a table of disjoint regions the gap is a gap. -/
theorem gapFit_free (len : Nat) (ok : ∀ q ∈ qs, q.Ok)
    (sorted : qs.Pairwise fun r q => r.base ≤ q.base) (apart : qs.Pairwise Region.Apart)
    (behind : ∀ q ∈ qs, start ≤ q.base) :
    start ≤ gapFit len start qs ∧
      ∀ q ∈ qs, q.fin ≤ gapFit len start qs ∨ gapFit len start qs + len ≤ q.base := by
  induction qs generalizing start with
  | nil => exact ⟨le_rfl, nofun⟩
  | cons q qs ih =>
    obtain ⟨okq, okqs⟩ := forall_mem_cons.1 ok
    obtain ⟨lower, sorted'⟩ := pairwise_cons.1 sorted
    obtain ⟨disjoint, apart'⟩ := pairwise_cons.1 apart
    obtain ⟨first, -⟩ := forall_mem_cons.1 behind
    have fits := okq.fits
    unfold fin at fits
    unfold gapFit
    split
    · rename_i large
      rw [sub32_eq first (by omega)] at large
      refine ⟨le_rfl, fun b hb => .inr ?_⟩
      rcases mem_cons.1 hb with rfl | hb
      · omega
      · have := lower b hb
        omega
    · have next : ∀ b ∈ qs, q.fin ≤ b.base := by
        intro b hb
        have := lower b hb
        have := (okqs b hb).pos
        rcases disjoint b hb with h | h
        · exact h
        · unfold fin at h
          omega
      obtain ⟨le, free⟩ := ih okqs sorted' apart' next
      have up : start ≤ q.fin := by
        unfold fin
        omega
      refine ⟨up.trans le, fun b hb => ?_⟩
      rcases mem_cons.1 hb with rfl | hb
      · exact .inl le
      · exact free b hb

theorem gapFit_aligned (ok : ∀ q ∈ qs, q.Ok) (page : start % 4096 = 0) :
    gapFit len start qs % 4096 = 0 := by
  induction qs generalizing start with
  | nil => exact page
  | cons q qs ih =>
    obtain ⟨first, rest⟩ := forall_mem_cons.1 ok
    unfold gapFit
    split
    · exact page
    · apply ih rest
      have := first.base
      have := first.pages
      unfold fin
      omega

theorem searchStart_aligned (ok : ∀ r ∈ rs, r.Ok) (page : hint % 4096 = 0) :
    searchStart rs hint % 4096 = 0 := by
  unfold searchStart
  split
  · exact page
  · cases h : (regionsBelow rs hint).getLast? with
    | none => exact page
    | some b =>
      have okb := ok b (mem_below (mem_of_getLast? h)).1
      have := okb.base
      have := okb.pages
      change (b.base + b.len) % 4096 = 0
      omega

theorem fin_le_last {last : Region} (ok : ∀ r ∈ rs, r.Ok)
    (sorted : rs.Pairwise fun r q => r.base ≤ q.base) (apart : rs.Pairwise Region.Apart)
    (h : rs.getLast? = some last) (hr : r ∈ rs) : r.fin ≤ last.fin := by
  induction rs with
  | nil => cases hr
  | cons q rs ih =>
    obtain ⟨okq, okrs⟩ := forall_mem_cons.1 ok
    obtain ⟨lower, sorted'⟩ := pairwise_cons.1 sorted
    obtain ⟨disjoint, apart'⟩ := pairwise_cons.1 apart
    cases rs with
    | nil =>
      cases h
      cases mem_singleton.1 hr
      exact le_rfl
    | cons b bs =>
      have there : last ∈ b :: bs := mem_of_getLast? h
      rcases mem_cons.1 hr with rfl | hr
      · have := lower last there
        have := (okrs last there).pos
        rcases disjoint last there with h | h <;> unfold fin at * <;> omega
      · exact ih okrs sorted' apart' h hr

/-- The place for a new region is apart from every region, unless the hint lies
inside the highest one. -/
theorem place_apart (len : Nat) (ok : ∀ r ∈ rs, r.Ok)
    (sorted : rs.Pairwise fun r q => r.base ≤ q.base)
    (apart : rs.Pairwise Region.Apart)
    (high : ∀ r, rs.getLast? = some r → r.base ≤ hint → r.fin ≤ hint) :
    searchStart rs hint ≤ gapFit len (searchStart rs hint) (regionsAbove rs hint) ∧
    ∀ r ∈ rs, r.fin ≤ gapFit len (searchStart rs hint) (regionsAbove rs hint) ∨
      gapFit len (searchStart rs hint) (regionsAbove rs hint) + len ≤ r.base := by
  have split := regions_split rs hint
  have low : (regionsBelow rs hint).Sublist rs := takeWhile_sublist _
  have up : (regionsAbove rs hint).Sublist rs := dropWhile_sublist _
  -- the search starts behind the regions below the hint ...
  have behind : ∀ r ∈ regionsBelow rs hint, r.fin ≤ searchStart rs hint := by
    intro r hr
    have nonempty : regionsBelow rs hint ≠ [] := ne_nil_of_mem hr
    obtain ⟨last, hlast⟩ : ∃ last, (regionsBelow rs hint).getLast? = some last :=
      ⟨_, getLast?_eq_some_getLast nonempty⟩
    have le : r.fin ≤ last.fin := fin_le_last (fun q hq => ok q (low.mem hq))
      (sorted.sublist low) (apart.sublist low) hlast hr
    unfold searchStart
    split
    · rename_i none
      rw [none, append_nil] at split
      rw [split] at hlast
      have base := (mem_below (mem_of_getLast? (split ▸ hlast))).2
      exact le.trans (high last hlast base)
    · rw [hlast]
      exact le
  -- ... and in front of those above it
  have front : ∀ r ∈ regionsAbove rs hint, searchStart rs hint ≤ r.base := by
    intro r hr
    have above := (mem_above sorted hr).2
    unfold searchStart
    split
    · omega
    · cases h : (regionsBelow rs hint).getLast? with
      | none => exact above.le
      | some last =>
        have there := mem_of_getLast? h
        have base := (mem_below there).2
        rw [← split, pairwise_append] at apart
        rcases apart.2.2 last there r hr with h | h
        · exact h
        · unfold fin at h
          omega
  obtain ⟨le, free⟩ := gapFit_free len (fun q hq => ok q (up.mem hq)) (sorted.sublist up)
    (apart.sublist up) front
  refine ⟨le, fun r hr => ?_⟩
  rw [← split] at hr
  rcases mem_append.1 hr with hr | hr
  · exact .inl (le_trans (behind r hr) le)
  · exact free r hr

theorem place_below {limit : Nat} (ok : ∀ r ∈ rs, r.Ok) (room : hasRoom rs hint len limit = true) :
    gapFit len (searchStart rs hint) (regionsAbove rs hint) + len ≤ limit := by
  obtain ⟨c, -, hc⟩ := any_eq_true.1 room
  obtain ⟨start, _, free⟩ := of_decide_eq_true hc
  have up : (regionsAbove rs hint).Sublist rs := dropWhile_sublist _
  have le : gapFit len (searchStart rs hint) (regionsAbove rs hint) ≤ c := by
    apply gapFit_le start
    · intro q hq
      exact of_decide_eq_true (all_eq_true.1 free q hq)
    · exact fun q hq => ok q (up.mem hq)
  omega

theorem place_aligned (len : Nat) (ok : ∀ r ∈ rs, r.Ok) (page : hint % 4096 = 0) :
    gapFit len (searchStart rs hint) (regionsAbove rs hint) % 4096 = 0 := by
  have up : (regionsAbove rs hint).Sublist rs := dropWhile_sublist _
  exact gapFit_aligned (fun q hq => ok q (up.mem hq)) (searchStart_aligned ok page)

end Place

variable {s : AddrSpace} {rs : List Region}

/-- A mapping that its checks refuse does nothing. -/
theorem sysMmap_refused {s' : AddrSpace} {addr len prot flags : Nat} {fd : Option OpenFile}
    {offset : Int} {ret : Except Errno Nat}
    (refused : (s.mmapCheck addr len prot flags fd offset).isSome = true)
    (h : s.sysMmap addr len prot flags fd offset = some (ret, s')) : s' = s := by
  obtain ⟨e, check⟩ := isSome_iff_exists.1 refused
  unfold sysMmap at h
  rw [check] at h
  cases h
  rfl

/-- A mapping with room for it below `limit` touches pages below `limit` only; it
leaves the table alone or enters a region at the first gap. Unless the region has an inode,
the references are as before. -/
theorem sysMmap_spec {s' : AddrSpace} {addr len prot flags limit : Nat}
    {fd : Option OpenFile} {offset : Int} {ret : Except Errno Nat} (t : Table s rs)
    (nonzero : roundPage len ≠ 0) (room : hasRoom rs (mmapHint addr) (roundPage len) limit = true)
    (small : limit < 4294967296) (h : s.sysMmap addr len prot flags fd offset = some (ret, s')) :
    s'.brk = s.brk ∧ s'.initBreak = s.initBreak ∧ Touches (· < limit) s.mem s'.mem ∧
      (Table s' rs ∧ AddrSpace.Balanced s s' rs rs ∨
        ∃ r : Region, r.base = gapFit (roundPage len)
          (searchStart rs (mmapHint addr)) (regionsAbove rs (mmapHint addr)) ∧
        r.len = roundPage len ∧ Table s' (insertBy baseBelow r rs) ∧
        (s.mapsFile addr len prot flags fd offset = false →
          AddrSpace.Balanced s s' rs (insertBy baseBelow r rs))) := by
  rcases sysMmap_cases h with rfl | ⟨base, s₁, placed, page, space, touches, regions,
    records, next, init, brk, refs, new⟩
  · exact ⟨rfl, rfl, .refl _, .inl ⟨t, .of_eq rfl rfl rfl le_rfl⟩⟩
  have hint_page : mmapHint addr % 4096 = 0 := by
    unfold mmapHint
    split
    · exact page
    · rfl
  have aligned := place_aligned (roundPage len) t.ok hint_page
  have below := place_below t.ok room
  rw [mmapPlace_eq t] at placed
  rw [some.inj placed] at aligned below
  have touches : Touches (· < limit) s.mem s₁.mem := by
    apply touches.mono
    rintro v ⟨-, lt⟩
    unfold add32 at lt
    omega
  have table := t.congr regions records next
  rcases new with rfl | ⟨_, r, rbase, rlen, noFile, added⟩
  · exact ⟨brk, init, touches, .inl ⟨table, .of_eq refs regions records next⟩⟩
  · have ok : r.Ok := by
      constructor
      case base => rw [rbase]; exact aligned
      case pages => rw [rlen]; exact (roundPage_spec _).1
      case pos => rw [rlen]; omega
      case fits => unfold fin; rw [rbase, rlen]; omega
    obtain ⟨s₂, added', table', facts⟩ := t.enter regions records (by omega) ok
      (t.length_eq ▸ space)
    obtain rfl : s₂ = s' := some.inj (added'.symm.trans added)
    refine ⟨facts.brk.trans brk, facts.initBreak.trans init, facts.mem ▸ touches, .inr ?_⟩
    refine ⟨r, rbase.trans (some.inj placed).symm, rlen, table', fun quiet => ?_⟩
    refine .add regions records next (fun i => ?_) facts
    simp [refs, noFile quiet]

theorem sysMunmap_spec {addr len : Nat} (t : Table s rs)
    (safe : unmapSafe rs (s.regions.elems.length + 1) addr len = true) :
    ∃ ret s' rs', s.sysMunmap addr len = some (ret, s') ∧ AddrSpace.Unmapped s s' rs rs' addr ∧
      AddrSpace.Balanced s s' rs rs' := by
  apply munmapFuel_spec t.rows _ (unmapFine_of_safe t safe)
  have := countP_le_length (p := fun q : Region => decide (addr < q.fin)) (l := rs)
  unfold above
  rw [t.length_eq]
  omega

/-- The layout of an address space: its table holds the regions `rs`, sorted by
base, page-aligned and not empty, disjoint, and apart from the heap. -/
structure Layout (s : AddrSpace) (rs : List Region) : Prop where
  records : s.regions.elems.map s.records = rs.map some
  sorted : rs.Pairwise fun r q => r.base < q.base
  shape : ∀ r ∈ rs, r.base % PAGE_SIZE = 0 ∧ 0 < r.len
  disjoint : rs.Pairwise fun r q =>
    ∀ v, ¬((r.base ≤ v ∧ v < r.base + r.len) ∧ q.base ≤ v ∧ v < q.base + q.len)
  heap : ∀ r ∈ rs, ∀ v, s.initBreak ≤ v → v < s.brk → ¬(r.base ≤ v ∧ v < r.base + r.len)

/-- The layout as the calls keep it. -/
structure LayoutInv (s : AddrSpace) (rs : List Region) : Prop where
  table : Table s rs
  apart : rs.Pairwise Region.Apart
  heap : ∀ r ∈ rs, s.brk ≤ s.initBreak ∨ r.fin ≤ s.initBreak ∨ s.brk ≤ r.base

theorem LayoutInv.layout (inv : LayoutInv s rs) : Layout s rs := by
  constructor
  case records => exact inv.table.records
  case sorted =>
    apply (inv.table.sorted.and inv.apart).imp_of_mem
    rintro r q hr hq ⟨le, apart⟩
    have := (inv.table.ok r hr).pos
    have := (inv.table.ok q hq).pos
    rcases apart with h | h <;> unfold fin at h <;> omega
  case shape => exact fun r hr => ⟨(inv.table.ok r hr).base, (inv.table.ok r hr).pos⟩
  case disjoint =>
    apply inv.apart.imp
    rintro r q (h | h) v inside <;> unfold fin at h <;> omega
  case heap =>
    intro r hr v low high inside
    rcases inv.heap r hr with h | h | h <;> (try unfold fin at h) <;> omega

/-- The calls that keep the layout. A mapping that is not refused has a length that does not
round to 0; its hint is not inside the highest region; the search for a gap starts behind
the heap; and there is a gap below the end of the address space. An unmapping is safe.
The heap does not grow into a region. -/
def layoutOk (s : AddrSpace) : MemCall → Bool
  | .mmap addr len prot flags fd offset =>
    (s.mmapCheck addr.toNat len.toNat prot.toNat flags.toNat fd offset).isSome ||
    roundPage len.toNat ≠ 0 &&
      (s.table.getLast?.all fun r =>
        decide (r.base ≤ AddrSpace.mmapHint addr.toNat → r.fin ≤ AddrSpace.mmapHint addr.toNat)) &&
      decide (s.brk ≤ s.initBreak ∨ s.brk ≤ searchStart s.table (AddrSpace.mmapHint addr.toNat)) &&
      hasRoom s.table (AddrSpace.mmapHint addr.toNat) (roundPage len.toNat) 0xffffffff
  | .munmap addr len => unmapSafe s.table (s.regions.elems.length + 1) addr.toNat len.toNat
  | .mprotect _ _ _ => true
  | .setBreak addr | .brk addr => s.table.all fun r =>
      decide (addr.toNat < s.brk ∨ PROCESS_BREAK_LIMIT ≤ addr.toNat ∨ r.fin ≤ s.brk ∨
        addr.toNat ≤ r.base)

section Steps

variable {s t : AddrSpace} {rs : List Region}

variable {addr len : UInt32}

variable (inv : LayoutInv s rs)
include inv

theorem layout_mmap {prot flags : UInt32} {fd : Option OpenFile} {offset : Int}
    (ok : layoutOk s (.mmap addr len prot flags fd offset) = true)
    (h : memStep s (.mmap addr len prot flags fd offset) = some t) : ∃ rs', LayoutInv t rs' := by
  obtain ⟨⟨_, _⟩, result, rfl⟩ := map_eq_some_iff.1 h
  unfold layoutOk at ok
  rw [inv.table.table_eq] at ok
  simp only [Bool.or_eq_true, Bool.and_eq_true, decide_eq_true_eq, ne_eq] at ok
  obtain refused | ⟨⟨⟨nonzero, high⟩, _⟩, room⟩ := ok
  · obtain rfl := sysMmap_refused refused result
    exact ⟨rs, inv⟩
  obtain ⟨brk, init, -, ⟨table, -⟩ | ⟨r, rbase, rlen, table, -⟩⟩ :=
    sysMmap_spec inv.table nonzero room (by decide) result
  · refine ⟨rs, table, inv.apart, ?_⟩
    rw [brk, init]
    exact inv.heap
  · have high : ∀ last, rs.getLast? = some last → last.base ≤ mmapHint addr.toNat →
        last.fin ≤ mmapHint addr.toNat := by
      intro last hlast
      rw [hlast] at high
      exact of_decide_eq_true high
    obtain ⟨_, free⟩ :=
      place_apart (roundPage len.toNat) inv.table.ok inv.table.sorted inv.apart high
    have perm := insertBy_perm baseBelow r rs
    refine ⟨_, table, ?_, ?_⟩
    · rw [perm.pairwise_iff Region.Apart.symm, pairwise_cons]
      refine ⟨fun q hq => ?_, inv.apart⟩
      have apart := free q hq
      rw [← rbase, ← rlen] at apart
      exact apart.symm
    · intro q hq
      rw [brk, init]
      rcases mem_cons.1 (perm.mem_iff.1 hq) with rfl | hq
      · omega
      · exact inv.heap q hq

theorem layout_trims {rs' : List Region} (table : Table t rs')
    (trims : Trims rs rs') (init : t.initBreak = s.initBreak) (brk : t.brk = s.brk) :
    LayoutInv t rs' := by
  refine ⟨table, trims.apart inv.apart, fun q hq => ?_⟩
  obtain ⟨r, hr, _, _⟩ := trims.within q hq
  have := inv.heap r hr
  omega

/-- A safe `sys_munmap` returns and keeps the layout. -/
theorem layout_munmap (ok : layoutOk s (.munmap addr len) = true) :
    ∃ ret t rs', s.sysMunmap addr.toNat len.toNat = some (ret, t) ∧ LayoutInv t rs' := by
  unfold layoutOk at ok
  rw [inv.table.table_eq] at ok
  obtain ⟨ret, t, rs', eq, u, -⟩ := sysMunmap_spec inv.table ok
  exact ⟨ret, t, rs', eq, layout_trims inv (u.table inv.table) u.trims u.kept.initBreak u.kept.brk⟩

theorem layout_mprotect {prot : UInt32}
    (h : memStep s (.mprotect addr len prot) = some t) : ∃ rs', LayoutInv t rs' := by
  obtain ⟨⟨_, _⟩, result, rfl⟩ := map_eq_some_iff.1 h
  have below : ∀ r ∈ rs, r.fin ≤ 4294967296 := fun r hr => le_of_lt (inv.table.ok r hr).fits
  obtain ⟨rs', p, -⟩ := mprotectFuel_spec inv.table below result
  exact ⟨rs', layout_trims inv p.table p.trims p.initBreak p.brk⟩

theorem layout_setBreak {ret : Nat} (ok : layoutOk s (.setBreak addr) = true)
    (h : s.processSetBreak addr.toNat = some (ret, t)) : ∃ rs', LayoutInv t rs' := by
  unfold layoutOk at ok
  rw [inv.table.table_eq] at ok
  obtain ⟨regions, records, next, _, -, _⟩ := processSetBreak_cases h
  refine ⟨rs, inv.table.congr regions records next.symm.le, inv.apart, fun r hr => ?_⟩
  have grow := of_decide_eq_true (all_eq_true.1 ok r hr)
  have heap := inv.heap r hr
  have pos := (inv.table.ok r hr).pos
  unfold fin at *
  omega

theorem layout_step {call : MemCall} (ok : layoutOk s call = true)
    (h : memStep s call = some t) : ∃ rs', LayoutInv t rs' := by
  cases call with
  | mmap addr len prot => exact layout_mmap inv ok h
  | munmap addr len =>
    obtain ⟨ret, t', rs', eq, inv'⟩ := layout_munmap inv ok
    simp only [memStep, eq, map_some, some.injEq] at h
    exact ⟨rs', h ▸ inv'⟩
  | mprotect addr len prot => exact layout_mprotect inv h
  | setBreak addr =>
    obtain ⟨⟨ret, t'⟩, result, rfl⟩ := map_eq_some_iff.1 h
    exact layout_setBreak inv ok result
  | brk addr =>
    obtain ⟨⟨ret, t'⟩, result, rfl⟩ := map_eq_some_iff.1 h
    unfold sysBrk at result
    split at result
    · cases result
      exact ⟨rs, inv⟩
    · obtain ⟨⟨brk, t⟩, result, eq⟩ := map_eq_some_iff.1 result
      cases eq
      exact layout_setBreak inv ok result

end Steps

/-- Every run of calls that meet `layoutOk` keeps the layout, and every further
`sys_munmap` that meets it returns. -/
theorem layout_runs {s t : AddrSpace} {rs : List Region} {calls : List MemCall}
    (start : LayoutInv s rs) (run : Runs.Run (Runs.Guarded (fun s call => layoutOk s call = true)
      (Runs.partialGraph memStep)) s calls t) :
    (∃ rs', Layout t rs') ∧ ∀ addr len, layoutOk t (.munmap addr len) = true →
      (t.sysMunmap addr.toNat len.toNat).isSome = true := by
  have keep : ∀ s call t, (∃ rs, LayoutInv s rs) →
      Runs.Guarded (fun s call => layoutOk s call = true) (Runs.partialGraph memStep) s call t →
      ∃ rs, LayoutInv t rs := by
    rintro s call t ⟨rs, inv⟩ ⟨ok, h⟩
    exact layout_step inv ok h
  obtain ⟨rs', inv⟩ := run.invariant keep ⟨rs, start⟩
  refine ⟨⟨rs', inv.layout⟩, fun addr len ok => ?_⟩
  obtain ⟨_, _, -, eq, -⟩ := layout_munmap inv ok
  rw [eq]
  rfl

/-- A process without regions whose heap starts at `0x8001000`. -/
def emptySpace (m : Memory) : AddrSpace where
  mem := m
  regions := .place PROCESS_MMAP_LIMIT
  records _ := none
  next := 0
  kmallocs := [true, true, true, true]
  refs _ := 1
  initBreak := 0x8001000
  brk := 0x8001000
  pid := 1

theorem emptySpace_table (m : Memory) : Table (emptySpace m) [] where
  max := rfl
  size := Nat.zero_le _
  records := rfl
  nodup := nodup_nil
  named := fun _ h => absurd h not_mem_nil
  sorted := List.Pairwise.nil
  ok := fun _ h => absurd h not_mem_nil

theorem emptySpace_layout (m : Memory) : LayoutInv (emptySpace m) [] :=
  ⟨emptySpace_table m, List.Pairwise.nil, fun _ h => absurd h not_mem_nil⟩

/-- A private anonymous mapping for reading and writing. -/
def mapAnonymous (addr len : UInt32) : MemCall := .mmap addr len 6 6 none 0

theorem layout_runs_at : ∃ t, Runs.exec layoutOk memStep (emptySpace (onePage 768 [4, 5, 6, 7]))
      [mapAnonymous 0 0x2000, mapAnonymous 0x40010000 0x3000, .munmap 0x40011000 0x1000,
        .mprotect 0x40000000 0x1000 4, .setBreak 0x8001800] = some t ∧ ∃ rs, Layout t rs := by
  refine Runs.exec_leads (by decide +kernel) fun t run => ?_
  exact (layout_runs (emptySpace_layout _) run).1

/-- Two mappings without a hint: the second is put on top of the first, because the
hint is the base of the highest region. -/
theorem mmap_twice_overlaps :
    ¬∀ (s t : AddrSpace) (rs : List Region) (calls : List MemCall), LayoutInv s rs →
      Runs.Run (Runs.partialGraph memStep) s calls t → ∃ rs', Layout t rs' := by
  intro claim
  have ranges : ((memStep (emptySpace (onePage 768 [4, 5])) (mapAnonymous 0 0x1000)).bind fun s =>
      (memStep s (mapAnonymous 0 0x1000)).map fun t => t.table.map Region.base) =
      some [0x40000000, 0x40000000] := by decide +kernel
  obtain ⟨s, first, ranges⟩ := Option.bind_eq_some_iff.1 ranges
  obtain ⟨t, second, ranges⟩ := Option.map_eq_some_iff.1 ranges
  obtain ⟨rs, layout⟩ := claim _ t [] _ (emptySpace_layout _)
    (.cons first (.cons second (.nil t)))
  rw [table_of_records layout.records] at ranges
  have sorted := List.pairwise_map.2 layout.sorted
  rw [ranges] at sorted
  exact absurd sorted (by decide)

end Os0
