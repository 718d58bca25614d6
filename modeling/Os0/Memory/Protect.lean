import Os0.Memory.UnmapExact

/-! What `sys_mprotect` does page by page. Behind its recursion it remaps as many bytes as the
recursion has done, not as many as are left of the region it is in, and it sets the
protection of a whole region also where the range covers a part of it. -/
namespace Os0

open Bytes List Option Region Nat

/-- `PAGE_FLAG_WRITE` and `PAGE_FLAG_USER` of a page-table entry. -/
def pageProt (word : Nat) : Nat := word / 2 % 4

/-- The page flags that `sys_mprotect` has for a protection. -/
def protFlags (prot : Nat) : Nat :=
  (if prot ≠ PROT_NONE then PAGE_FLAG_USER else 0) |||
    (if hasFlag prot PROT_WRITE then PAGE_FLAG_WRITE else 0)

theorem pageProt_entry {paddr : Nat} (aligned : paddr % 4096 = 0) (flags : Nat) :
    pageProt (paddr ||| PAGE_FLAG_PRESENT ||| pageFlags flags) = pageProt flags := by
  have zero : paddr / 2 ^ 1 % 2 ^ 2 = 0 := by omega
  have one : PAGE_FLAG_PRESENT / 2 ^ 1 % 2 ^ 2 = 0 := rfl
  have masked : pageFlags flags / 2 ^ 1 % 2 ^ 2 = flags / 2 ^ 1 % 2 ^ 2 := by
    unfold pageFlags
    omega
  unfold pageProt
  rw [show 4 = 2 ^ 2 from rfl, show (paddr ||| PAGE_FLAG_PRESENT ||| pageFlags flags) / 2 =
    (paddr ||| PAGE_FLAG_PRESENT ||| pageFlags flags) / 2 ^ 1 from rfl, or_div_two_pow,
    or_div_two_pow, or_mod_two_pow, or_mod_two_pow, zero, one, masked]
  simp

namespace Memory

variable {m m' m'' : Memory} {R R' : Nat → Prop} {flags : Nat}

/-- The pages of `R` have got the protection of `flags`, and no page another frame. -/
structure Reflagged (m m' : Memory) (flags : Nat) (R : Nat → Prop) : Prop where
  own : m'.OwnTables m.currDir
  currDir : m'.currDir = m.currDir
  dir : m'.pages m.currDir = m.pages m.currDir
  frames : m'.frames = m.frames
  paddr : ∀ v < 0xffc00000, m'.getPaddr m.currDir v = m.getPaddr m.currDir v
  inside : ∀ v < 0xffc00000, R v → pageProt (m'.entryAt m.currDir v) = pageProt flags
  frame : ∀ v < 0xffc00000, R v →
    frame (m'.entryAt m.currDir v) = frame (m.entryAt m.currDir v) % 4294967296
  kept : ∀ v < 0xffc00000, ¬R v → m'.entryAt m.currDir v = m.entryAt m.currDir v

variable {v : Nat}

theorem Reflagged.refl (own : m.OwnTables m.currDir) (flags : Nat) :
    Reflagged m m flags fun _ => False :=
  ⟨own, rfl, rfl, rfl, fun _ _ => rfl, fun _ _ none => none.elim, fun _ _ none => none.elim,
    fun _ _ _ => rfl⟩

section

variable (h : Reflagged m m' flags R)
include h

theorem Reflagged.outside (low : v < 0xffc00000)
    (out : ¬R v) : pageProt (m'.entryAt m.currDir v) = pageProt (m.entryAt m.currDir v) := by
  rw [h.kept v low out]

theorem Reflagged.trans (k : Reflagged m' m'' flags R') :
    Reflagged m m'' flags fun v => R v ∨ R' v := by
  have dir := h.currDir
  constructor
  case own => exact dir ▸ k.own
  case currDir => exact k.currDir.trans dir
  case dir => exact (dir ▸ k.dir).trans h.dir
  case frames => exact k.frames.trans h.frames
  case paddr => exact fun v hv => (dir ▸ k.paddr v hv).trans (h.paddr v hv)
  case inside =>
    intro v hv either
    by_cases later : R' v
    · exact dir ▸ k.inside v hv later
    · exact (dir ▸ k.outside hv later).trans (h.inside v hv (either.resolve_right later))
  case frame =>
    intro v hv either
    by_cases earlier : R v
    · have first := h.frame v hv earlier
      by_cases later : R' v
      · rw [← dir, k.frame v hv later, dir, first, mod_mod]
      · rw [← dir, k.kept v hv later, dir, first]
    · rw [← dir, k.frame v hv (either.resolve_left earlier), dir, h.kept v hv earlier]
  case kept =>
    intro v hv neither
    simp only [not_or] at neither
    exact (dir ▸ k.kept v hv neither.2).trans (h.kept v hv neither.1)

theorem Reflagged.mono (same : ∀ v, R v ↔ R' v) : Reflagged m m' flags R' := by
  obtain rfl : R = R' := funext fun v => propext (same v)
  exact h

end

theorem remapPage_spec (own : m.OwnTables m.currDir) (low : v < 0xffc00000)
    (base : v % 4096 = 0) (there : present (m.pages m.currDir (pdi v)) = true) (flags : Nat) :
    ∃ m', m.mapPage m.currDir (m.getPaddr m.currDir v) v flags = some m' ∧
      Reflagged m m' flags fun w => frame w = v := by
  have high := pdi_lt low
  have paddr : m.getPaddr m.currDir v = _ := getPaddr_base base
  have aligned : m.getPaddr m.currDir v % 4096 = 0 := by
    rw [paddr]
    unfold add32 frame
    omega
  have puts := setWord_puts (pti v) (m.getPaddr m.currDir v ||| PAGE_FLAG_PRESENT ||| pageFlags flags)
    own high there
  have words := setWord_words (pti v)
    (m.getPaddr m.currDir v ||| PAGE_FLAG_PRESENT ||| pageFlags flags) own high there
  refine ⟨_, if_pos there, ?_⟩
  generalize hm : m.setWord (m.table m.currDir (pdi v)) (pti v) _ = m' at puts words
  have dir : m'.currDir = m.currDir := by rw [← hm]; rfl
  have entry : ∀ w < 0xffc00000, m'.entryAt m.currDir w = if frame w = v then
      m.getPaddr m.currDir v ||| PAGE_FLAG_PRESENT ||| pageFlags flags
      else m.entryAt m.currDir w := by
    intro w hw
    rw [entryAt, puts.entry _ (pdi_lt hw)]
    simp only [indices_frame base]
    rfl
  constructor
  case own => exact puts.own
  case currDir => exact dir
  case dir => exact words
  case frames => rw [← hm]; rfl
  case paddr =>
    intro w hw
    have shape : ∀ n : Memory, present (n.pages m.currDir (pdi w)) = true →
        n.getPaddr m.currDir w = add32 (frame (n.entryAt m.currDir w)) (pageFlags w) := by
      intro n here
      simp [getPaddr, entryAt, Memory.entry, here]
    by_cases here : present (m.pages m.currDir (pdi w)) = true
    · rw [shape m here, shape m' (by rw [words]; exact here), entry w hw]
      split
      · rename_i eq
        obtain ⟨hp, ht⟩ := (indices_frame base).2 eq
        have self : m.entryAt m.currDir w = m.entryAt m.currDir v := by
          rw [entryAt, entryAt, hp, ht]
        rw [frame_entry aligned, paddr, self]
        unfold add32
        omega
      · rfl
    · simp [getPaddr, words, here]
  case inside =>
    intro w hw eq
    rw [entry w hw, if_pos eq, pageProt_entry aligned]
  case frame =>
    intro w hw eq
    obtain ⟨hp, ht⟩ := (indices_frame base).2 eq
    rw [entry w hw, if_pos eq, frame_entry aligned, paddr, add32, add_zero, entryAt, entryAt, hp, ht]
  case kept =>
    intro w hw ne
    rw [entry w hw, if_neg ne]

theorem remap_spec {vs : List Nat} (own : m.OwnTables m.currDir)
    (pages : ∀ v ∈ vs, v < 0xffc00000 ∧ v % 4096 = 0 ∧ present (m.pages m.currDir (pdi v)) = true)
    (flags : Nat) :
    ∃ m', m.remap flags vs = some m' ∧ Reflagged m m' flags fun w => frame w ∈ vs := by
  induction vs generalizing m with
  | nil => exact ⟨m, rfl, (Reflagged.refl own flags).mono (by simp)⟩
  | cons v vs ih =>
    obtain ⟨⟨low, base, there⟩, rest⟩ := forall_mem_cons.1 pages
    obtain ⟨_, mapped, first⟩ := remapPage_spec own low base there flags
    obtain ⟨m', eq, others⟩ := ih (first.currDir.symm ▸ first.own) (by
      intro w hw
      rw [first.currDir, first.dir]
      exact rest w hw)
    refine ⟨m', ?_, (first.trans others).mono (by simp)⟩
    rw [remap, mapped, bind_some, eq]

theorem present_dir {dir : Nat} (there : present (m.entryAt dir v) = true) :
    present (m.pages dir (pdi v)) = true := by
  by_contra absent
  rw [entryAt, entry, if_neg absent] at there
  cases there

theorem remap_mapped {vs : List Nat} (done : m.remap flags vs = some m')
    (own : m.OwnTables m.currDir) (pages : ∀ v ∈ vs, v < 0xffc00000 ∧ v % 4096 = 0 ∧
      present (m.entryAt m.currDir v) = true) : Reflagged m m' flags fun w => frame w ∈ vs := by
  obtain ⟨_, eq, flagged⟩ := remap_spec own
    (fun v hv => (pages v hv).imp_right (And.imp_right present_dir)) flags
  obtain rfl := some.inj (eq.symm.trans done)
  exact flagged

end Memory

namespace Region

/-- The range has an address of the region. -/
def Meets (r : Region) (lo hi : Nat) : Prop := max lo r.base < min hi r.fin

instance (r : Region) (lo hi : Nat) : Decidable (r.Meets lo hi) :=
  inferInstanceAs (Decidable (_ < _))

/-- The record has the protection already: `PROT_EXEC` is ignored. -/
def SameProt (r : Region) (prot : Nat) : Prop := r.prot ||| PROT_EXEC = prot ||| PROT_EXEC

instance (r : Region) (prot : Nat) : Decidable (r.SameProt prot) :=
  inferInstanceAs (Decidable (_ = _))

/-- The record after a range has been protected. -/
def protect (lo hi prot : Nat) (r : Region) : Region :=
  if r.Meets lo hi ∧ ¬r.SameProt prot then { r with prot } else r

/-- The addresses that are remapped for a region: its part of the range if the range ends in it,
and otherwise as many bytes as the range has behind it. -/
def Remaps (r : Region) (lo hi prot v : Nat) : Prop :=
  r.Meets lo hi ∧ ¬r.SameProt prot ∧ max lo r.base ≤ v ∧
    v < if hi ≤ r.fin then hi else max lo r.base + (hi - r.fin)

theorem protect_range (lo hi prot : Nat) (r : Region) :
    (r.protect lo hi prot).base = r.base ∧ (r.protect lo hi prot).len = r.len := by
  unfold protect
  split <;> exact ⟨rfl, rfl⟩

theorem protect_holds {lo hi prot v : Nat} {r : Region} :
    (r.protect lo hi prot).Holds v ↔ r.Holds v := by
  obtain ⟨base, len⟩ := r.protect_range lo hi prot
  simp [Holds, fin, base, len]

end Region

namespace AddrSpace

variable {s s' : AddrSpace} {rs : List Region}

/-- The tables of the current directory are its own, and the pages of all regions are mapped
in it, below the last 4 MiB. -/
structure Mapped (s : AddrSpace) (rs : List Region) : Prop where
  own : s.mem.OwnTables s.mem.currDir
  low : ∀ r ∈ rs, r.fin ≤ 0xffc00000
  there : ∀ r ∈ rs, ∀ v, r.Holds v → present (s.mem.entryAt s.mem.currDir v) = true

variable {r : Region} {v : Nat}

theorem Mapped.table (mapped : Mapped s rs) (hr : r ∈ rs) (hv : r.Holds v) :
    v < 0xffc00000 ∧ present (s.mem.pages s.mem.currDir (pdi v)) = true := by
  have low := mapped.low r hr
  exact ⟨hv.2.trans_le low, Memory.present_dir (mapped.there r hr v hv)⟩

/-- What a successful `sys_mprotect` of `[lo, hi)` has done. The region at `lo` is the last to
be remapped, with flags that depend on bits of `prot` outside of `__PROT_MASK`. -/
structure Protected (s s' : AddrSpace) (rs : List Region) (lo hi prot : Nat) : Prop where
  regions : s'.regions = s.regions
  rows : Rows s' (rs.map (Region.protect lo hi (prot &&& PROT_MASK)))
  own : s'.mem.OwnTables s.mem.currDir
  currDir : s'.mem.currDir = s.mem.currDir
  dir : s'.mem.pages s.mem.currDir = s.mem.pages s.mem.currDir
  paddr : ∀ v < 0xffc00000,
    s'.mem.getPaddr s.mem.currDir v = s.mem.getPaddr s.mem.currDir v
  first : ∀ r ∈ rs, r.Holds lo → ∀ v < 0xffc00000, r.Remaps lo hi (prot &&& PROT_MASK) v →
    pageProt (s'.mem.entryAt s.mem.currDir v) = pageProt (protFlags prot)
  rest : ∀ v < 0xffc00000, (∃ r ∈ rs, r.Remaps lo hi (prot &&& PROT_MASK) v) →
    (∀ r ∈ rs, r.Holds lo → ¬r.Remaps lo hi (prot &&& PROT_MASK) v) →
    pageProt (s'.mem.entryAt s.mem.currDir v) = pageProt (protFlags (prot &&& PROT_MASK))
  others : ∀ v < 0xffc00000, (∀ r ∈ rs, ¬r.Remaps lo hi (prot &&& PROT_MASK) v) →
    pageProt (s'.mem.entryAt s.mem.currDir v) = pageProt (s.mem.entryAt s.mem.currDir v)

theorem masked_masked (prot : Nat) : prot &&& PROT_MASK &&& PROT_MASK = prot &&& PROT_MASK := by
  rw [Nat.and_assoc, Nat.and_self]

theorem hasFlag_masked (prot : Nat) : hasFlag (prot &&& PROT_MASK) PROT_WRITE =
    hasFlag prot PROT_WRITE := by
  unfold hasFlag
  rw [Nat.and_assoc]
  rfl

theorem protFlags_masked {prot : Nat} (some : prot ≠ PROT_NONE → prot &&& PROT_MASK ≠ PROT_NONE) :
    protFlags prot = protFlags (prot &&& PROT_MASK) := by
  unfold protFlags
  rw [hasFlag_masked]
  by_cases none : prot = PROT_NONE
  · rw [none]
    rfl
  · rw [if_pos none, if_pos (some none)]

variable {lo hi prot : Nat}

/-- Where the flags do not depend on other bits, all remapped pages get the same. -/
theorem Protected.entry (h : Protected s s' rs lo hi prot)
    (masked : ∀ r ∈ rs, r.Holds lo → ¬r.SameProt (prot &&& PROT_MASK) → prot ≠ PROT_NONE →
      prot &&& PROT_MASK ≠ PROT_NONE) (hv : v < 0xffc00000)
    (remaps : ∃ r ∈ rs, r.Remaps lo hi (prot &&& PROT_MASK) v) :
    pageProt (s'.mem.entryAt s.mem.currDir v) = pageProt (protFlags (prot &&& PROT_MASK)) := by
  by_cases first : ∃ r ∈ rs, r.Holds lo ∧ r.Remaps lo hi (prot &&& PROT_MASK) v
  · obtain ⟨r, hr, holds, here⟩ := first
    rw [h.first r hr holds v hv here, protFlags_masked (masked r hr holds here.2.1)]
  · exact h.rest v hv remaps fun r hr holds here => first ⟨r, hr, holds, here⟩

/-- With a masked protection all remapped pages have the same flags. -/
theorem Protected.remapped (h : Protected s s' rs lo hi (prot &&& PROT_MASK))
    (hv : v < 0xffc00000)
    (remaps : ∃ r ∈ rs, r.Remaps lo hi (prot &&& PROT_MASK) v) :
    pageProt (s'.mem.entryAt s.mem.currDir v) = pageProt (protFlags (prot &&& PROT_MASK)) := by
  have entry := h.entry (v := v)
  rw [masked_masked] at entry
  exact entry (fun _ _ _ _ some => some) hv remaps

/-- The end of a level: the record gets the protection and the pages get the flags, unless the
record has the protection already. -/
theorem protectRest_reflags {mid p addr n prot pgflags : Nat} (t : Rows s rs)
    (at_mid : s.regions.elems[mid]? = some p) (record : s.records p = some r)
    (own : s.mem.OwnTables s.mem.currDir) (base : addr % 4096 = 0) (pages : n % 4096 = 0)
    (there : ∀ v, addr ≤ v → v < addr + n →
      v < 0xffc00000 ∧ present (s.mem.pages s.mem.currDir (pdi v)) = true)
    (fits : addr + n < 4294967296) :
    ∃ s', s.protectRest p addr n prot pgflags = some (.ok (), s') ∧ s'.regions = s.regions ∧
      Rows s' (rs.set mid (if r.SameProt prot then r else { r with prot })) ∧
      Memory.Reflagged s.mem s'.mem
        (pgflags ||| if hasFlag prot PROT_WRITE then PAGE_FLAG_WRITE else 0)
        fun v => ¬r.SameProt prot ∧ addr ≤ v ∧ v < addr + n := by
  rw [protectRest, record, bind_some]
  by_cases same : r.SameProt prot
  · refine ⟨s, if_pos same, rfl, ?_, (Memory.Reflagged.refl own _).mono (by simp [same])⟩
    obtain ⟨_, eq⟩ := List.getElem?_eq_some_iff.1 (t.get at_mid record)
    rwa [if_pos same, ← eq, set_getElem_self]
  · have valid : ∀ v ∈ pageRange addr (addr + n), v < 0xffc00000 ∧ v % 4096 = 0 ∧
        present (s.mem.pages s.mem.currDir (pdi v)) = true := by
      intro v hv
      obtain ⟨lower, upper, aligned⟩ := (mem_pageRange base).1 hv
      obtain ⟨low, here⟩ := there v lower upper
      exact ⟨low, aligned, here⟩
    obtain ⟨m, mapped, flagged⟩ := Memory.remap_spec own valid
      (pgflags ||| if hasFlag prot PROT_WRITE then PAGE_FLAG_WRITE else 0)
    have whole : Region.Whole { r with prot } := by
      obtain ⟨h1, h2, h3, h4⟩ := t.get_whole at_mid record
      exact ⟨h1, h2, h3, h4⟩
    rw [add32_eq fits, mapped]
    refine ⟨{ s.setRecord p (some { r with prot }) with mem := m }, if_neg same, rfl, ?_,
      flagged.mono fun v => ?_⟩
    · rw [if_neg same]
      exact (t.set at_mid record whole rfl).congr rfl rfl le_rfl
    · rw [mem_pageRange base, frame]
      simp only [same, not_false_eq_true, true_and]
      omega

theorem Protected.refl (t : Rows s rs) (own : s.mem.OwnTables s.mem.currDir) (hi prot : Nat) :
    Protected s s rs hi hi prot := by
  have misses : ∀ r : Region, ¬r.Meets hi hi := fun r h => by
    unfold Region.Meets at h
    omega
  have same : rs.map (protect hi hi (prot &&& PROT_MASK)) = rs := by
    conv_rhs => rw [← map_id rs]
    apply map_congr_left
    intro r _
    exact if_neg fun h => misses r h.1
  constructor
  case regions => rfl
  case rows => rwa [same]
  case own => exact own
  case currDir => rfl
  case dir => rfl
  case paddr => exact fun _ _ => rfl
  case first => exact fun r _ _ v _ h => (misses r h.1).elim
  case rest =>
    rintro v - ⟨r, -, h⟩
    exact (misses r h.1).elim
  case others => exact fun _ _ _ => rfl

section Level

variable {addr hi mid p prot : Nat} {r q : Region} (apart : rs.Pairwise Region.Apart)
  (found : AtRegion s rs addr mid p r) (hq : q ∈ rs)

include apart found hq

theorem eq_of_holds (holds : q.Holds addr) : q = r := by
  by_contra other
  exact Region.Holds.not_apart holds ⟨found.lower, found.upper⟩ (apart.forall hq found.mem other)

/-- For the other regions it makes no difference where in the first one a range starts. -/
theorem level_meets (other : q ≠ r) : q.Meets addr hi ↔ q.Meets (min r.fin hi) hi := by
  have lower := found.lower
  have upper := found.upper
  unfold Region.Meets
  rcases apart.forall hq found.mem other with below | above <;> unfold fin at * <;> omega

theorem level_remaps (other : q ≠ r) (v : Nat) :
    q.Remaps addr hi prot v ↔ q.Remaps (min r.fin hi) hi prot v := by
  have upper := found.upper
  unfold Region.Remaps
  rw [level_meets apart found hq other]
  apply and_congr_right
  intro here
  have same : max addr q.base = max (min r.fin hi) q.base := by
    unfold Region.Meets at here
    rcases apart.forall hq found.mem other with below | above <;> unfold fin at * <;> omega
  rw [same]

end Level

/-- A level of the recursion adds the region it is in to what the deeper levels have done. -/
theorem protect_level {addr hi mid p prot n : Nat} {s₁ : AddrSpace} (t : Rows s rs)
    (apart : rs.Pairwise Region.Apart) (mapped : Mapped s rs) (found : AtRegion s rs addr mid p r)
    (lt : addr < hi) (aligned : hi % 4096 = 0)
    (covered : ∀ v, addr ≤ v → v < hi → ∃ q ∈ rs, q.Holds v)
    (inner : Protected s s₁ rs (min r.fin hi) hi (prot &&& PROT_MASK))
    (count : n = if hi ≤ r.fin then hi - addr else hi - r.fin) :
    ∃ s', s₁.protectRest p addr n (prot &&& PROT_MASK)
        (if prot ≠ PROT_NONE then PAGE_FLAG_USER else 0) = some (.ok (), s') ∧
      Protected s s' rs addr hi prot := by
  have lower := found.lower
  have upper := found.upper
  have base := found.page
  have fin_aligned := found.ok.fin_page
  have size : n ≤ hi - addr ∧ n % 4096 = 0 := by
    rw [count]
    split <;> omega
  have missed : ¬r.Meets (min r.fin hi) hi := by
    unfold Region.Meets
    omega
  have met : r.Meets addr hi := by
    unfold Region.Meets
    omega
  have own_remaps : ∀ v, r.Remaps addr hi (prot &&& PROT_MASK) v ↔
      ¬r.SameProt (prot &&& PROT_MASK) ∧ addr ≤ v ∧ v < addr + n := by
    intro v
    unfold Region.Remaps
    rw [count, max_eq_left lower]
    simp only [met, true_and]
    apply and_congr_right
    intro _
    split <;> omega
  have rows := inner.rows
  have kept := inner.others
  rw [masked_masked] at rows kept
  have at₁ : s₁.regions.elems[mid]? = some p := by
    rw [inner.regions]
    exact found.at_mid
  have in_rs : rs[mid]? = some r := t.get found.at_mid found.record
  have record₁ : s₁.records p = some r := by
    have entry := rows.region_eq mid
    rw [AddrSpace.region, at₁, bind_some, getElem?_map, in_rs, map_some] at entry
    rw [entry, protect, if_neg fun h => missed h.1]
  -- the regions that are remapped, at this level and at deeper ones
  have either : ∀ v, (∃ q ∈ rs, q.Remaps addr hi (prot &&& PROT_MASK) v) ↔
      r.Remaps addr hi (prot &&& PROT_MASK) v ∨
        ∃ q ∈ rs, q.Remaps (min r.fin hi) hi (prot &&& PROT_MASK) v := by
    intro v
    constructor
    · rintro ⟨q, hq, remaps⟩
      by_cases same : q = r
      · exact .inl (same ▸ remaps)
      · exact .inr ⟨q, hq, (level_remaps apart found hq same v).1 remaps⟩
    · rintro (remaps | ⟨q, hq, remaps⟩)
      · exact ⟨r, found.mem, remaps⟩
      · have other : q ≠ r := by
          rintro rfl
          exact missed remaps.1
        exact ⟨q, hq, (level_remaps apart found hq other v).2 remaps⟩
  have there : ∀ v, addr ≤ v → v < addr + n →
      v < 0xffc00000 ∧ present (s₁.mem.pages s₁.mem.currDir (pdi v)) = true := by
    intro v first _
    obtain ⟨q, hq, holds⟩ := covered v first (by omega)
    rw [inner.currDir, inner.dir]
    exact mapped.table hq holds
  have fits : addr + n < 4294967296 := by
    obtain ⟨q, hq, holds⟩ := covered (hi - 1) (by omega) (by omega)
    have low := mapped.low q hq
    unfold Region.Holds at holds
    omega
  obtain ⟨s', eq, regions, rows', flagged⟩ := protectRest_reflags rows at₁ record₁
    (inner.currDir.symm ▸ inner.own) base size.2 there fits
  rw [hasFlag_masked] at flagged
  refine ⟨s', eq, ?_⟩
  have dir := inner.currDir
  have changed : (rs.map (protect (min r.fin hi) hi (prot &&& PROT_MASK))).set mid
      (if r.SameProt (prot &&& PROT_MASK) then r else { r with prot := prot &&& PROT_MASK }) =
      rs.map (protect addr hi (prot &&& PROT_MASK)) := by
    obtain ⟨bound, at_mid⟩ := List.getElem?_eq_some_iff.1 in_rs
    apply ext_getElem
    · simp
    intro i _ hi''
    rw [length_map] at hi''
    rw [getElem_set, getElem_map, getElem_map]
    split
    · rename_i eq
      subst eq
      rw [at_mid, protect]
      simp only [met, true_and, ite_not]
    · rename_i ne
      have other : rs[i] ≠ r := by
        intro eq
        have pair := pairwise_iff_getElem.1 apart
        have holds : r.Holds addr := ⟨lower, upper⟩
        rcases lt_or_gt_of_ne ne with less | less
        · have := pair mid i bound hi'' less
          rw [eq, at_mid] at this
          exact holds.not_apart holds this
        · have := pair i mid hi'' bound less
          rw [eq, at_mid] at this
          exact holds.not_apart holds this
      simp only [protect, level_meets apart found (getElem_mem hi'') other]
  constructor
  case regions => exact regions.trans inner.regions
  case rows => exact changed ▸ rows'
  case own => exact dir ▸ flagged.own
  case currDir => exact flagged.currDir.trans dir
  case dir => exact (dir ▸ flagged.dir).trans inner.dir
  case paddr => exact fun v hv => (dir ▸ flagged.paddr v hv).trans (inner.paddr v hv)
  case first =>
    intro q hq holds v hv remaps
    rw [eq_of_holds apart found hq holds, own_remaps] at remaps
    exact dir ▸ flagged.inside v hv remaps
  case rest =>
    intro v hv some none
    have here := none r found.mem ⟨lower, upper⟩
    exact (dir ▸ flagged.outside hv (mt (own_remaps v).2 here)).trans
      (inner.remapped hv (((either v).1 some).resolve_left here))
  case others =>
    intro v hv none
    refine (dir ▸ flagged.outside hv (mt (own_remaps v).2 (none r found.mem))).trans
      (kept v hv fun q hq remaps => ?_)
    obtain ⟨b, hb, h⟩ := (either v).2 (.inr ⟨q, hq, remaps⟩)
    exact none b hb h

/-- `sys_mprotect` on mapped regions fails or protects the range level by level. -/
theorem mprotectFuel_protects {fuel addr len prot : Nat} (t : Rows s rs)
    (apart : rs.Pairwise Region.Apart) (mapped : Mapped s rs) (pos : 0 < roundPage len)
    (covered : ∀ v, addr ≤ v → v < addr + roundPage len → ∃ q ∈ rs, q.Holds v)
    (enough : above rs addr < fuel) :
    (∃ e s', mprotectFuel fuel s addr len prot = some (.error e, s')) ∨
    ∃ s', mprotectFuel fuel s addr len prot = some (.ok (), s') ∧
      Protected s s' rs addr (addr + roundPage len) prot := by
  induction fuel generalizing addr len prot with
  | zero => omega
  | succ fuel ih =>
    rcases mprotectFuel_cases t fuel addr len prot with eq | ⟨_, p, r, found, eq⟩ <;> rw [eq]
    · exact .inl ⟨_, _, rfl⟩
    have upper := found.upper
    have base := found.page
    have whole := (roundPage_spec len).1
    have small := (roundPage_spec len).2
    have fin_aligned := found.ok.fin_page
    split
    · rename_i longer
      have rest : roundPage (roundPage len - (r.fin - addr)) = roundPage len - (r.fin - addr) :=
        roundPage_eq (by omega) (by omega)
      have stop : r.fin + roundPage (roundPage len - (r.fin - addr)) = addr + roundPage len := by
        omega
      have enough' : above rs r.fin < fuel := by
        have := above_lt found.mem upper
        omega
      have inner := @ih r.fin (roundPage len - (r.fin - addr)) (prot &&& PROT_MASK) (by omega)
        (fun v first last => covered v (by omega) (by omega)) enough'
      rcases inner with ⟨e, s₁, failed⟩ | ⟨s₁, done, inner⟩
      · rw [failed]
        exact .inl ⟨e, s₁, rfl⟩
      · rw [done, bind_some]
        rw [stop, ← min_eq_left (show r.fin ≤ addr + roundPage len by omega)] at inner
        refine .inr (protect_level t apart mapped found (by omega) (by omega) covered inner ?_)
        rw [if_neg (by omega)]
        omega
    · have inner : Protected s s rs (min r.fin (addr + roundPage len)) (addr + roundPage len)
          (prot &&& PROT_MASK) := by
        rw [Nat.min_eq_right (by omega)]
        exact Protected.refl t mapped.own _ _
      refine .inr (protect_level t apart mapped found (by omega) (by omega) covered inner ?_)
      rw [if_pos (by omega)]
      omega

/-- What a `sys_mprotect` of `[lo, hi)` is for: the pages of the range have the protection, the
other pages theirs, every page its frame, and the records agree with the page table. -/
structure Protects (s s' : AddrSpace) (lo hi prot : Nat) : Prop where
  range : ∀ v, lo ≤ v → v < hi → pageProt (s'.mem.entryAt s.mem.currDir v) =
    pageProt (protFlags (prot &&& PROT_MASK))
  outside : ∀ v < 0xffc00000, ¬(lo ≤ v ∧ v < hi) →
    pageProt (s'.mem.entryAt s.mem.currDir v) = pageProt (s.mem.entryAt s.mem.currDir v)
  paddr : ∀ v < 0xffc00000,
    s'.mem.getPaddr s.mem.currDir v = s.mem.getPaddr s.mem.currDir v
  records : ∃ rs', Rows s' rs' ∧ ∀ r ∈ rs', ∀ v, r.Holds v →
    pageProt (s'.mem.entryAt s.mem.currDir v) = pageProt (protFlags r.prot)

/-- The calls that do so. Bits outside of `__PROT_MASK` do not decide whether there is any access
to the first region. A page of the range is remapped or has the protection, and so has a region
that the range meets; outside of the range the pages of a region have the protection that its
record gets or keeps. -/
structure Protectable (s : AddrSpace) (rs : List Region) (lo hi prot : Nat) : Prop where
  masked : ∀ r ∈ rs, r.Holds lo → ¬r.SameProt (prot &&& PROT_MASK) → prot ≠ PROT_NONE →
    prot &&& PROT_MASK ≠ PROT_NONE
  range : ∀ r ∈ rs, ∀ v, r.Holds v → lo ≤ v → v < hi →
    pageProt (protFlags (r.protect lo hi (prot &&& PROT_MASK)).prot) =
      pageProt (protFlags (prot &&& PROT_MASK)) ∧
    ((∃ q ∈ rs, q.Remaps lo hi (prot &&& PROT_MASK) v) ∨
      pageProt (s.mem.entryAt s.mem.currDir v) = pageProt (protFlags (prot &&& PROT_MASK)))
  rest : ∀ r ∈ rs, ∀ v, r.Holds v → ¬(lo ≤ v ∧ v < hi) →
    pageProt (s.mem.entryAt s.mem.currDir v) =
      pageProt (protFlags (r.protect lo hi (prot &&& PROT_MASK)).prot)

theorem pageProt_some {prot : Nat} (some : prot ≠ PROT_NONE) :
    pageProt (protFlags prot) ≠ pageProt (protFlags PROT_NONE) := by
  unfold protFlags
  rw [if_pos some]
  cases hasFlag prot PROT_WRITE <;> decide

/-- A region remaps the first page of a range that starts in it. -/
theorem remaps_first (holds : r.Holds lo) (lt : lo < hi) (differs : ¬r.SameProt prot) :
    r.Remaps lo hi prot lo := by
  unfold Region.Holds at holds
  refine ⟨?_, differs, ?_, ?_⟩
  · unfold Region.Meets
    omega
  · omega
  · split <;> omega

theorem Protected.protects_iff (h : Protected s s' rs lo hi prot) (mapped : Mapped s rs)
    (lt : lo < hi) (covered : ∀ v, lo ≤ v → v < hi → ∃ r ∈ rs, r.Holds v) :
    Protects s s' lo hi prot ↔ Protectable s rs lo hi prot := by
  have low : ∀ r ∈ rs, ∀ v, r.Holds v → v < 0xffc00000 := fun r hr v hv =>
    (mapped.table hr hv).1
  constructor
  · intro protects
    have masked : ∀ r ∈ rs, r.Holds lo → ¬r.SameProt (prot &&& PROT_MASK) → prot ≠ PROT_NONE →
        prot &&& PROT_MASK ≠ PROT_NONE := by
      intro r hr holds differs some none
      have page := h.first r hr holds lo (low r hr lo holds) (remaps_first holds lt differs)
      rw [protects.range lo le_rfl lt, none] at page
      exact pageProt_some some page.symm
    obtain ⟨rs', rows, agree⟩ := protects.records
    have same : rs' = _ := rows.table_eq.symm.trans h.rows.table_eq
    have agree : ∀ r ∈ rs, ∀ v, r.Holds v → pageProt (s'.mem.entryAt s.mem.currDir v) =
        pageProt (protFlags (r.protect lo hi (prot &&& PROT_MASK)).prot) := by
      intro r hr v hv
      exact agree _ (same ▸ mem_map_of_mem hr) v (protect_holds.2 hv)
    refine ⟨masked, fun r hr v hv first last => ?_, fun r hr v hv out => ?_⟩
    · have page := protects.range v first last
      refine ⟨(agree r hr v hv).symm.trans page, ?_⟩
      by_cases remaps : ∃ q ∈ rs, q.Remaps lo hi (prot &&& PROT_MASK) v
      · exact .inl remaps
      · have kept := h.others v (low r hr v hv) fun q hq here => remaps ⟨q, hq, here⟩
        exact .inr (kept.symm.trans page)
    · exact (protects.outside v (low r hr v hv) out).symm.trans (agree r hr v hv)
  · intro able
    have range : ∀ v, lo ≤ v → v < hi → pageProt (s'.mem.entryAt s.mem.currDir v) =
        pageProt (protFlags (prot &&& PROT_MASK)) := by
      intro v first last
      obtain ⟨r, hr, hv⟩ := covered v first last
      by_cases remaps : ∃ q ∈ rs, q.Remaps lo hi (prot &&& PROT_MASK) v
      · exact h.entry able.masked (low r hr v hv) remaps
      · have kept := h.others v (low r hr v hv) fun q hq here => remaps ⟨q, hq, here⟩
        exact kept.trans ((able.range r hr v hv first last).2.resolve_left remaps)
    have outside : ∀ v < 0xffc00000, ¬(lo ≤ v ∧ v < hi) →
        pageProt (s'.mem.entryAt s.mem.currDir v) = pageProt (s.mem.entryAt s.mem.currDir v) := by
      intro v hv out
      refine h.others v hv fun r _ remaps => out ?_
      obtain ⟨meets, -, first, last⟩ := remaps
      unfold Region.Meets at meets
      split at last <;> omega
    refine ⟨range, outside, h.paddr, _, h.rows, ?_⟩
    intro q hq v hv
    obtain ⟨r, hr, rfl⟩ := mem_map.1 hq
    rw [protect_holds] at hv
    by_cases inside : lo ≤ v ∧ v < hi
    · rw [range v inside.1 inside.2, (able.range r hr v hv inside.1 inside.2).1]
    · rw [outside v (low r hr v hv) inside, able.rest r hr v hv inside]

/-- A call of `sys_mprotect` that does not fail, on a range that mapped regions cover, gives
exactly the range the protection, and leaves records that agree with the page table, if and only
if the range and the protections before it are as in `Protectable`. -/
theorem sysMprotect_exact_iff {addr len prot : Nat} (t : Rows s rs)
    (apart : rs.Pairwise Region.Apart) (mapped : Mapped s rs) (pos : 0 < len)
    (small : len < 4294967296)
    (covered : ∀ v, addr ≤ v → v < addr + roundUp len → ∃ r ∈ rs, r.Holds v)
    (succeeds : ∀ e s', s.sysMprotect addr len prot ≠ some (.error e, s')) :
    (∃ s', s.sysMprotect addr len prot = some (.ok (), s') ∧
      Protects s s' addr (addr + roundUp len) prot) ↔
    Protectable s rs addr (addr + roundUp len) prot := by
  have up : 0 < roundUp len := by
    unfold roundUp
    omega
  have low : addr + roundUp len ≤ 0xffc00000 := by
    obtain ⟨r, hr, holds⟩ := covered (addr + roundUp len - 1) (by omega) (by omega)
    have := (mapped.table hr holds).1
    omega
  have whole : roundPage len = roundUp len := by
    rw [roundPage_roundUp pos small, Nat.mod_eq_of_lt (by omega)]
  have enough : above rs addr < s.regions.elems.length + 1 := by
    have := above_le_length rs addr
    rw [t.length_eq]
    omega
  obtain ⟨e, s', failed⟩ | ⟨s', done, protects⟩ := @mprotectFuel_protects s rs
    (s.regions.elems.length + 1) addr len prot t apart mapped (whole ▸ up) (whole ▸ covered) enough
  · exact absurd failed (succeeds e s')
  · rw [whole] at protects
    have iff := protects.protects_iff mapped (by omega) covered
    constructor
    · rintro ⟨s₁, eq, exactly⟩
      rw [show s₁ = s' by simpa using (Option.some.inj (eq.symm.trans done))] at exactly
      exact iff.1 exactly
    · exact fun able => ⟨s', done, iff.2 able⟩

/-- The two regions of `twoRegions`, with pages that agree with their records. -/
def readOnlyRegions : AddrSpace :=
  { twoRegions with
    mem := { twoRegions.mem with
      pages := fun o i =>
        if o = 3 ∧ 1 ≤ i ∧ i ≤ 4 then 0x100005 + i * 4096 else twoRegions.mem.pages o i } }

theorem readOnlyRegions_rows : Rows readOnlyRegions [lowRegion, highRegion] :=
  twoRegions_rows.congr rfl rfl le_rfl

theorem readOnlyRegions_entry (first : 0x1000 ≤ v) (last : v < 0x5000) :
    readOnlyRegions.mem.entryAt 1 v = 0x100005 + v / 4096 * 4096 := by
  have dir : pdi v = 0 := by
    unfold pdi
    omega
  have index : pti v = v / 4096 := by
    unfold pti
    omega
  have there : present (readOnlyRegions.mem.pages 1 0) = true := by decide
  have table : readOnlyRegions.mem.table 1 0 = 3 := by decide
  rw [Memory.entryAt, dir, index, Memory.entry, if_pos there, table]
  exact if_pos ⟨rfl, by omega, by omega⟩

theorem readOnlyRegions_mapped : Mapped readOnlyRegions [lowRegion, highRegion] := by
  have only : ∀ p < 1023, present (readOnlyRegions.mem.pages 1 p) = true → p = 0 := by
    intro p hp there
    by_contra other
    have : readOnlyRegions.mem.pages 1 p = 0 := by
      simp [readOnlyRegions, twoRegions, other, show p ≠ 1023 by omega]
    rw [this] at there
    cases there
  constructor
  case own =>
    constructor
    case vmap_ne => decide
    case table_ne =>
      intro p hp there
      rw [only p hp there]
      decide
    case distinct =>
      intro p hp q hq there there' _
      rw [only p hp there, only q hq there']
  case low =>
    intro r hr
    simp only [mem_cons, not_mem_nil, or_false] at hr
    rcases hr with rfl | rfl <;> decide
  case there =>
    intro r hr v hv
    have range : 0x1000 ≤ v ∧ v < 0x5000 := by
      simp only [mem_cons, not_mem_nil, or_false] at hr
      rcases hr with rfl | rfl <;>
        simp only [Region.Holds, fin, lowRegion, highRegion] at hv <;> omega
    change present (readOnlyRegions.mem.entryAt 1 v) = true
    rw [readOnlyRegions_entry range.1 range.2, present, decide_eq_true_eq]
    omega

/-- Both regions are made writable as a whole: there are as many bytes behind the first as in
it. -/
theorem sysMprotect_exact_iff_both :
    ∃ s', readOnlyRegions.sysMprotect 0x1000 0x4000 (PROT_READ ||| PROT_WRITE) =
      some (.ok (), s') ∧
      Protects readOnlyRegions s' 0x1000 0x5000 (PROT_READ ||| PROT_WRITE) := by
  have done : (readOnlyRegions.sysMprotect 0x1000 0x4000 (PROT_READ ||| PROT_WRITE)).map
      (·.1.toBool) = some true := by decide +kernel
  have cases : ∀ r ∈ [lowRegion, highRegion], r = lowRegion ∨ r = highRegion := by simp
  refine (sysMprotect_exact_iff readOnlyRegions_rows twoRegions_apart readOnlyRegions_mapped
    (by decide) (by decide) (fun v first last => ?_) fun e s' failed => ?_).2 ?_
  · have last : v < 0x5000 := last
    by_cases low : v < 0x3000
    · exact ⟨lowRegion, by simp, first, low⟩
    · exact ⟨highRegion, by simp, Nat.le_of_not_lt low, last⟩
  · rw [failed] at done
    cases done
  · constructor
    case masked => exact fun _ _ _ _ _ => by decide
    case range =>
      intro r hr v hv first last
      have last : v < 0x5000 := last
      refine ⟨?_, .inl ?_⟩
      · rcases cases r hr with rfl | rfl <;> decide
      · by_cases low : v < 0x3000
        · exact ⟨lowRegion, by simp, by decide, by decide, first, low⟩
        · exact ⟨highRegion, by simp, by decide, by decide, Nat.le_of_not_lt low, last⟩
    case rest =>
      intro r hr v hv out
      refine absurd ?_ out
      rcases cases r hr with rfl | rfl <;>
        simp only [Region.Holds, Region.fin, lowRegion, highRegion] at hv <;>
        exact ⟨by omega, Nat.lt_of_lt_of_le hv.2 (by decide)⟩

/-- The first region and a page of the second are made writable: the second page of the first
region is not. -/
theorem mprotect_skips_a_page :
    Rows readOnlyRegions [lowRegion, highRegion] ∧ [lowRegion, highRegion].Pairwise Region.Apart ∧
    Mapped readOnlyRegions [lowRegion, highRegion] ∧
    (∀ v, 0x1000 ≤ v → v < 0x4000 → ∃ r ∈ [lowRegion, highRegion], r.Holds v) ∧
    (∀ e s', readOnlyRegions.sysMprotect 0x1000 0x3000 (PROT_READ ||| PROT_WRITE) ≠
      some (.error e, s')) ∧
    ¬∃ s', readOnlyRegions.sysMprotect 0x1000 0x3000 (PROT_READ ||| PROT_WRITE) =
        some (.ok (), s') ∧
      Protects readOnlyRegions s' 0x1000 0x4000 (PROT_READ ||| PROT_WRITE) := by
  have done : (readOnlyRegions.sysMprotect 0x1000 0x3000 (PROT_READ ||| PROT_WRITE)).map
      (fun x => (x.1.toBool, pageProt (x.2.mem.entryAt 1 0x2000))) = some (true, 2) := by
    decide +kernel
  refine ⟨readOnlyRegions_rows, twoRegions_apart, readOnlyRegions_mapped, fun v first last => ?_,
    fun e s' failed => ?_, ?_⟩
  · by_cases low : v < 0x3000
    · exact ⟨lowRegion, by simp, first, low⟩
    · exact ⟨highRegion, by simp, Nat.le_of_not_lt low, Nat.lt_trans last (by decide)⟩
  · rw [failed] at done
    cases done
  · rintro ⟨s', call, protects⟩
    rw [call] at done
    have same := protects.range 0x2000 (by decide) (by decide)
    rw [show readOnlyRegions.mem.currDir = 1 from rfl,
      (Prod.mk.inj (Option.some.inj done)).2] at same
    exact absurd same (by decide)

end AddrSpace

end Os0
