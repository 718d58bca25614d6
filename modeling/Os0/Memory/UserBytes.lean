import Mathlib.Data.List.TakeWhile
import Os0.Memory.UnmapExact
import Os0.Memory.Clone

/-! The bytes that a process sees: what mapping new pages and filling them does to each address
of the current directory. -/
namespace Os0

open List Option

namespace Memory

variable {m m' : Memory} {flags v : Nat} {vs : List Nat} {missing : Option Nat}

/-- The byte that the current directory has at an address. -/
def userByte (m : Memory) (v : Nat) : UInt8 := m.frames (frame (m.entryAt m.currDir v)) (v % 4096)

/-- What the next `n` calls of `alloc_page` return. -/
def framesFrom : Nat → Memory → List Nat
  | 0, _ => []
  | n + 1, m => m.allocPage.1 :: framesFrom n m.allocPage.2

variable {dir paddr lo : Nat} {byte : Nat → UInt8}

theorem framesFrom_length (n : Nat) (m : Memory) : (m.framesFrom n).length = n := by
  induction n generalizing m with
  | zero => rfl
  | succ n ih => rw [framesFrom, length_cons, ih]

theorem mapPage_fields (h : m.mapPage dir paddr v flags = some m') :
    m'.frames = m.frames ∧ m'.currDir = m.currDir ∧ m'.pageStack = m.pageStack ∧
      m'.currAddr = m.currAddr := by
  unfold mapPage kvalloc at h
  split at h
  · cases h
    exact ⟨rfl, rfl, rfl, rfl⟩
  · cases supply : m.supply with
    | nil =>
      rw [supply] at h
      cases h
    | cons object =>
      rw [supply] at h
      cases object with
      | none => cases h
      | some =>
        cases h
        exact ⟨rfl, rfl, rfl, rfl⟩

/-- The frames to come depend on the stack and on the address of new memory only. -/
theorem framesFrom_congr {n : Nat} (stack : m'.pageStack = m.pageStack)
    (addr : m'.currAddr = m.currAddr) : m'.framesFrom n = m.framesFrom n := by
  induction n generalizing m m' with
  | zero => rfl
  | succ n ih =>
    have same : m'.allocPage.1 = m.allocPage.1 ∧
        m'.allocPage.2.pageStack = m.allocPage.2.pageStack ∧
        m'.allocPage.2.currAddr = m.allocPage.2.currAddr := by
      unfold allocPage
      rw [stack, addr]
      cases m.pageStack with
      | nil => exact ⟨rfl, rfl, rfl⟩
      | cons =>
        dsimp only
        split <;> exact ⟨rfl, rfl, rfl⟩
    rw [framesFrom, framesFrom, same.1, ih same.2.1 same.2.2]

/-- The pages `vs` have got the frames `fs`, in this order, and nothing else is different. -/
structure MapsNew (m m' : Memory) (flags : Nat) (vs fs : List Nat) : Prop where
  ok : m'.DirOk m.currDir
  fresh : m'.Fresh (m'.Owned m.currDir)
  currDir : m'.currDir = m.currDir
  frames : m'.frames = m.frames
  new : ∀ x ∈ vs.zip fs, ∀ v, frame v = x.1 →
    m'.entryAt m.currDir v = x.2 ||| PAGE_FLAG_PRESENT ||| pageFlags flags
  old : ∀ v < 0xffc00000, frame v ∉ vs → m'.entryAt m.currDir v = m.entryAt m.currDir v

theorem MapsNew.entry {i x : Nat} {fs : List Nat} (maps : MapsNew m m' flags vs fs)
    (page : vs[i]? = some (frame v)) (new : fs[i]? = some x) (aligned : x % 4096 = 0) :
    frame (m'.entryAt m.currDir v) = x ∧ present (m'.entryAt m.currDir v) = true := by
  have pair : (frame v, x) ∈ vs.zip fs :=
    mem_of_getElem? (getElem?_zip_eq_some.2 ⟨page, new⟩)
  rw [maps.new _ pair v rfl]
  exact ⟨frame_entry aligned _, present_entry _ _⟩

theorem entryAt_frame (m : Memory) (dir v : Nat) : m.entryAt dir (frame v) = m.entryAt dir v := by
  have indices := (indices_frame (frame_aligned v)).2 (rfl : frame v = frame v)
  rw [entryAt, entryAt, ← indices.1, ← indices.2]

theorem mapPage_entryAt (ok : m.DirOk dir) (fresh : m.Fresh (m.Owned dir))
    (low : v < 0xffc00000) (base : v % 4096 = 0) (h : m.mapPage dir paddr v flags = some m') :
    m'.DirOk dir ∧ m'.Fresh (m'.Owned dir) ∧
      (∀ w, frame w = v → m'.entryAt dir w = paddr ||| PAGE_FLAG_PRESENT ||| pageFlags flags) ∧
      ∀ w < 0xffc00000, frame w ≠ v → m'.entryAt dir w = m.entryAt dir w := by
  obtain ⟨changes, entry⟩ :=
    @mapPage_spec m m' dir (fun _ => False) ok fresh paddr v flags (pdi_lt low) h
  refine ⟨changes.ok, changes.fresh fresh, ?_, ?_⟩
  · rintro w rfl
    rw [← entryAt_frame]
    exact entry
  · intro w hw ne
    exact changes.entry _ (pdi_lt hw) _ (pti_lt w) (mt (indices_frame base).1 ne)

/-- The pages of `vs` that `mapNew` reaches before `alloc_page` fails. -/
def framed (m : Memory) (vs : List Nat) : List Nat :=
  ((vs.zip (m.framesFrom vs.length)).takeWhile (·.2 ≠ 0)).map (·.1)

theorem framed_cons (m : Memory) (v : Nat) (vs : List Nat) : m.framed (v :: vs) =
    if m.allocPage.1 = 0 then [] else v :: m.allocPage.2.framed vs := by
  rw [framed, length_cons, framesFrom, zip_cons_cons, takeWhile_cons]
  split
  · rename_i nonzero
    rw [if_neg (by simpa using nonzero)]
    rfl
  · rename_i zero
    rw [if_pos (by simpa using zero)]
    rfl

theorem framed_subset (hv : v ∈ m.framed vs) : v ∈ vs := by
  obtain ⟨⟨v, x⟩, hx, rfl⟩ := mem_map.1 hv
  exact (of_mem_zip ((takeWhile_sublist _).mem hx)).1

theorem framed_all (all : ∀ f ∈ m.framesFrom vs.length, f ≠ 0) : m.framed vs = vs := by
  have whole : (vs.zip (m.framesFrom vs.length)).takeWhile (·.2 ≠ 0) =
      vs.zip (m.framesFrom vs.length) := by
    rw [takeWhile_eq_self_iff]
    intro x hx
    simpa using all x.2 (of_mem_zip hx).2
  rw [framed, whole, map_fst_zip (by rw [framesFrom_length])]

/-- New pages are mapped as far as there are frames. -/
theorem mapNew_framed (ok : m.DirOk m.currDir) (fresh : m.Fresh (m.Owned m.currDir))
    (pages : ∀ v ∈ m.framed vs, v < 0xffc00000 ∧ v % 4096 = 0) (nodup : vs.Nodup)
    (h : m.mapNew flags vs = some (missing, m')) :
    MapsNew m m' flags (m.framed vs) (m.framesFrom vs.length) ∧
      (missing = none → ∀ f ∈ m.framesFrom vs.length, f ≠ 0) := by
  induction vs generalizing m with
  | nil =>
    cases h
    exact ⟨⟨ok, fresh, rfl, rfl, by simp [framed], fun _ _ _ => rfl⟩, by simp [framesFrom]⟩
  | cons v vs ih =>
    obtain ⟨notin, nodup⟩ := nodup_cons.1 nodup
    obtain ⟨apages, aframes, adir, -⟩ := m.allocPage_fields
    have taken : Changes m m.allocPage.2 m.currDir (fun _ _ => False) fun _ => False :=
      allocPage_changes ok
    have same (w : Nat) : m.allocPage.2.entryAt m.currDir w = m.entryAt m.currDir w := by
      rw [entryAt, entryAt, entry_congr apages]
    unfold mapNew at h
    rw [framed_cons] at pages ⊢
    split at h
    · rename_i zero
      cases h
      rw [if_pos zero]
      exact ⟨⟨taken.ok, taken.fresh fresh, adir, aframes, by simp, fun w _ _ => same w⟩, by rintro ⟨⟩⟩
    rename_i nonzero
    rw [if_neg nonzero] at pages ⊢
    obtain ⟨⟨low, base⟩, rest⟩ := forall_mem_cons.1 pages
    obtain ⟨m₁, mapped, h⟩ := bind_eq_some_iff.1 h
    rw [adir] at mapped
    obtain ⟨ok₁, fresh₁, here, others⟩ :=
      mapPage_entryAt taken.ok (taken.fresh fresh) low base mapped
    obtain ⟨frames₁, dir₁, stack₁, addr₁⟩ := mapPage_fields mapped
    have dir : m₁.currDir = m.currDir := dir₁.trans adir
    have supply : m₁.framesFrom vs.length = m.allocPage.2.framesFrom vs.length :=
      framesFrom_congr stack₁ addr₁
    have reached : m₁.framed vs = m.allocPage.2.framed vs := by rw [framed, framed, supply]
    obtain ⟨later, nonzeros⟩ := ih (dir.symm ▸ ok₁) (dir.symm ▸ fresh₁) (reached ▸ rest) nodup h
    rw [supply, reached] at later
    rw [supply] at nonzeros
    constructor
    · constructor
      case ok => exact dir ▸ later.ok
      case fresh => exact dir ▸ later.fresh
      case currDir => exact later.currDir.trans dir
      case frames => exact later.frames.trans (frames₁.trans aframes)
      case new =>
        intro x hx w hw
        rw [length_cons, framesFrom, zip_cons_cons, mem_cons] at hx
        rcases hx with rfl | hx
        · have low' : w < 0xffc00000 := by
            unfold frame at hw
            omega
          rw [← dir, later.old w low' (by rw [hw]; exact fun hv => notin (framed_subset hv)), dir]
          exact here w hw
        · rw [← dir]
          exact later.new x hx w hw
      case old =>
        intro w hw outside
        simp only [mem_cons, not_or] at outside
        rw [← dir, later.old w hw outside.2, dir, others w hw outside.1, same]
    · intro none
      rw [length_cons, framesFrom]
      exact forall_mem_cons.2 ⟨nonzero, nonzeros none⟩

theorem mapNew_spec (ok : m.DirOk m.currDir) (fresh : m.Fresh (m.Owned m.currDir))
    (pages : ∀ v ∈ vs, v < 0xffc00000 ∧ v % 4096 = 0) (nodup : vs.Nodup)
    (h : m.mapNew flags vs = some (none, m')) :
    MapsNew m m' flags vs (m.framesFrom vs.length) ∧ ∀ f ∈ m.framesFrom vs.length, f ≠ 0 := by
  obtain ⟨maps, all⟩ := mapNew_framed ok fresh (fun v hv => pages v (framed_subset hv)) nodup h
  rw [framed_all (all rfl)] at maps
  exact ⟨maps, all rfl⟩

/-- A write to one page of a range whose pages no other page shares a frame with. -/
theorem fillPage_userByte {hi p : Nat} (low : p < 0xffc00000)
    (base : p % 4096 = 0) (alone : ∀ w < 0xffc00000, frame (m.entryAt m.currDir w) =
      frame (m.entryAt m.currDir p) → frame w = p) (h : m.fillPage lo hi byte p = some m') :
    m'.pages = m.pages ∧ m'.currDir = m.currDir ∧ ∀ v < 0xffc00000, m'.userByte v =
      if frame v = p ∧ lo ≤ v ∧ v < hi then byte (v - lo) else m.userByte v := by
  have same : p % 4294967296 = p := by omega
  unfold fillPage at h
  rw [same] at h
  split at h
  · cases h
    refine ⟨rfl, rfl, fun v hv => ?_⟩
    have here : frame (m.entryAt m.currDir v) = frame (m.entryAt m.currDir p) ↔ frame v = p := by
      refine ⟨alone v hv, ?_⟩
      rintro rfl
      rw [entryAt_frame]
    change (if frame (m.entryAt m.currDir v) = frame (m.entryAt m.currDir p) ∧ v % 4096 < 4096 ∧
      lo ≤ p + v % 4096 ∧ p + v % 4096 < hi then byte (p + v % 4096 - lo) else m.userByte v) = _
    simp only [here]
    by_cases inside : frame v = p
    · have split : p + v % 4096 = v := by
        unfold frame at inside
        omega
      simp only [inside, split, true_and]
      simp only [Nat.mod_lt v (show 4096 > 0 by decide), true_and]
    · simp [inside]
  · cases h

theorem fill_userByte {count : Nat} (low : lo + count ≤ 0xffc00000)
    (alone : ∀ v, lo ≤ v → v < lo + count → ∀ w < 0xffc00000, frame (m.entryAt m.currDir w) =
      frame (m.entryAt m.currDir v) → frame w = frame v) (h : m.fill lo count byte = some m') :
    m'.pages = m.pages ∧ m'.currDir = m.currDir ∧ ∀ v < 0xffc00000, m'.userByte v =
      if lo ≤ v ∧ v < lo + count then byte (v - lo) else m.userByte v := by
  unfold fill at h
  split at h
  · rename_i none
    cases h
    refine ⟨rfl, rfl, fun v _ => ?_⟩
    rw [if_neg (by omega)]
  have range : ∀ p ∈ pageRange (frame lo) (lo + count), p % 4096 = 0 ∧ frame lo ≤ p ∧
      p < lo + count := by
    intro p hp
    have inside := pageRange_mem hp
    unfold frame at inside ⊢
    omega
  have steps : ∀ ps : List Nat, (∀ p ∈ ps, p % 4096 = 0 ∧ frame lo ≤ p ∧ p < lo + count) →
      ∀ n : Memory, n.pages = m.pages → n.currDir = m.currDir →
      ps.foldlM (fillPage lo (lo + count) byte) n = some m' →
      m'.pages = m.pages ∧ m'.currDir = m.currDir ∧ ∀ v < 0xffc00000, m'.userByte v =
        if frame v ∈ ps ∧ lo ≤ v ∧ v < lo + count then byte (v - lo) else n.userByte v := by
    intro ps
    induction ps with
    | nil =>
      intro _ n pages dir h
      cases h
      exact ⟨pages, dir, fun v _ => by simp⟩
    | cons p ps ih =>
      intro valid n pages dir h
      obtain ⟨⟨base, first, _⟩, rest⟩ := forall_mem_cons.1 valid
      obtain ⟨n₁, filled, h⟩ := bind_eq_some_iff.1 h
      have entries : ∀ w, n.entryAt n.currDir w = m.entryAt m.currDir w := by
        intro w
        rw [dir, entryAt, entryAt, entry_congr pages]
      have alone' : ∀ w < 0xffc00000, frame (n.entryAt n.currDir w) =
          frame (n.entryAt n.currDir p) → frame w = p := by
        intro w hw eq
        rw [entries, entries] at eq
        -- an address of the page that the range has
        have here : frame (max lo p) = p := by
          unfold frame at first ⊢
          omega
        have page := alone (max lo p) (by omega) (by omega) w hw
        rw [← entryAt_frame m m.currDir (max lo p), here] at page
        exact page eq
      obtain ⟨pages₁, dir₁, bytes⟩ := fillPage_userByte (by omega) base alone' filled
      obtain ⟨pages', dir', bytes'⟩ := ih rest n₁ (pages₁.trans pages) (dir₁.trans dir) h
      refine ⟨pages', dir', fun v hv => ?_⟩
      rw [bytes' v hv, bytes v hv]
      by_cases inside : lo ≤ v ∧ v < lo + count
      · by_cases at_p : frame v = p <;> simp [inside, at_p]
      · simp [inside]
  obtain ⟨pages, dir, bytes⟩ := steps _ range m rfl rfl h
  refine ⟨pages, dir, fun v hv => ?_⟩
  rw [bytes v hv]
  by_cases inside : lo ≤ v ∧ v < lo + count
  · have page : frame v ∈ pageRange (frame lo) (lo + count) := by
      rw [mem_pageRange (frame_aligned lo)]
      unfold frame
      omega
    simp [inside, page]
  · simp [inside]

end Memory

end Os0
