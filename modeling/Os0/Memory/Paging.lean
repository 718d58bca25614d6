import Os0.Heap.Model
import Mathlib.Data.Nat.Bitwise

/-! Two-level page tables (`arch/i386/paging.c`) and the page-frame allocator
(`kernel/memory.c`). Directories, tables and the per-directory list of table
addresses are objects of 1024 words, named by their kernel address. -/
namespace Os0

open Bytes List Option

def RELOC_VADDR : Nat := 0xc0000000
def TASK_LOCAL_BOUND : Nat := 0xf0000000
def PAGE_COPY_VADDR : Nat := 0x1000
def PAGE_STACK_NELEM : Nat := 0x100000

def PAGE_FLAG_PRESENT : Nat := 1
def PAGE_FLAG_WRITE : Nat := 2
def PAGE_FLAG_USER : Nat := 4

/-- `word & PAGE_FLAG_PRESENT`. -/
def present (word : Nat) : Bool := word % 2 = 1

/-- `word & 0xfffff000`. -/
def frame (word : Nat) : Nat := word / 4096 * 4096

/-- `word & 0xfff`. -/
def pageFlags (word : Nat) : Nat := word % 4096

/-- The directory index of an address. -/
def pdi (vaddr : Nat) : Nat := vaddr / 4194304

/-- The table index of an address. -/
def pti (vaddr : Nat) : Nat := vaddr / 4096 % 1024

variable {v w : Nat}

theorem pdi_lt (low : v < 0xffc00000) : pdi v < 1023 := by
  unfold pdi
  omega

theorem pti_lt (v : Nat) : pti v < 1024 := by
  unfold pti
  omega

theorem pdi_user : pdi v < 768 ↔ v < RELOC_VADDR := by
  unfold pdi RELOC_VADDR
  omega

theorem frame_aligned (v : Nat) : frame v % 4096 = 0 := Nat.mul_mod_left _ _

theorem frame_base (base : v % 4096 = 0) : frame v = v := by
  unfold frame
  omega

theorem indices_iff : pdi w = pdi v ∧ pti w = pti v ↔ w / 4096 = v / 4096 := by
  unfold pdi pti
  omega

theorem indices_frame (base : v % 4096 = 0) : pdi w = pdi v ∧ pti w = pti v ↔ frame w = v := by
  rw [indices_iff, frame]
  omega

/-- An entry of a table in which one word is present. -/
theorem eq_zero_of_absent {p : Prop} [Decidable p] (there : present w = true)
    (gone : present (if p then w else 0) = false) : (if p then w else 0) = 0 := by
  split at gone
  case isTrue =>
    rw [there] at gone
    cases gone
  case isFalse other => exact if_neg other

/-- The addresses of `for (addr = start; addr < stop; addr += PAGE_SIZE)`. -/
def pageRange (start stop : Nat) : List Nat :=
  (List.range ((stop - start + 4095) / 4096)).map fun i => start + i * 4096

theorem pageRange_mem {start stop : Nat} (h : v ∈ pageRange start stop) :
    start ≤ v ∧ v < stop ∧ v % 4096 = start % 4096 := by
  obtain ⟨i, hi, rfl⟩ := mem_map.1 h
  have := mem_range.1 hi
  omega

structure Memory where
  /-- Word `i` of the paging object at a kernel address. -/
  pages : Nat → Nat → Nat
  /-- The bytes of a physical frame. -/
  frames : Nat → Nat → UInt8
  currDir : Nat
  /-- `page_stack`, its top first. -/
  pageStack : List Nat
  currAddr : Nat
  /-- What the coming calls of `kvalloc` return, `none` for `NULL`. -/
  supply : List (Option Nat)
  /-- The objects given to `kfree`. -/
  released : List Nat

namespace Memory

def setWord (m : Memory) (object i word : Nat) : Memory :=
  { m with pages := fun o j => if o = object ∧ j = i then word else m.pages o j }

/-- `memset (object, 0, PAGE_SIZE)`. -/
def zeroPage (m : Memory) (object : Nat) : Memory :=
  { m with pages := fun o j => if o = object then 0 else m.pages o j }

def kvalloc (m : Memory) : Option Nat × Memory :=
  match m.supply with
  | [] => (none, m)
  | object :: rest => (object, { m with supply := rest })

def kfree (m : Memory) (object : Nat) : Memory :=
  { m with released := object :: m.released }

/-- `alloc_page`: a frame, or 0. -/
def allocPage (m : Memory) : Nat × Memory :=
  match m.pageStack with
  | addr :: rest =>
    if addr = 0 then
      (m.currAddr, { m with pageStack := rest, currAddr := add32 m.currAddr PAGE_SIZE })
    else (addr, { m with pageStack := rest })
  | [] => (m.currAddr, { m with currAddr := add32 m.currAddr PAGE_SIZE })

/-- `free_page`: a full stack loses the frame. -/
def freePage (m : Memory) (addr : Nat) : Memory :=
  if m.pageStack.length = PAGE_STACK_NELEM then m
  else { m with pageStack := frame addr :: m.pageStack }

/-- `((uint32_t *) dir[PAGE_DIR_SIZE - 1])[i]`: the address of table `i`. -/
def table (m : Memory) (dir i : Nat) : Nat := m.pages (m.pages dir 1023) i

def getPaddr (m : Memory) (dir vaddr : Nat) : Nat :=
  if present (m.pages dir (pdi vaddr)) then
    add32 (frame (m.pages (m.table dir (pdi vaddr)) (pti vaddr))) (pageFlags vaddr)
  else 0

/-- `map_page`; `none` is the panic when there is no memory for a table. -/
def mapPage (m : Memory) (dir paddr vaddr flags : Nat) : Option Memory :=
  let entry := paddr ||| PAGE_FLAG_PRESENT ||| pageFlags flags
  if present (m.pages dir (pdi vaddr)) then
    some (m.setWord (m.table dir (pdi vaddr)) (pti vaddr) entry)
  else
    match m.kvalloc with
    | (none, _) => none
    | (some table, m) =>
      let m := m.zeroPage table
      let m := m.setWord dir (pdi vaddr)
        (m.getPaddr m.currDir table ||| PAGE_FLAG_WRITE ||| PAGE_FLAG_USER ||| PAGE_FLAG_PRESENT)
      let m := m.setWord (m.pages dir 1023) (pdi vaddr) table
      some (m.setWord table (pti vaddr) entry)

def unmapPage (m : Memory) (dir vaddr : Nat) : Memory :=
  if present (m.pages dir (pdi vaddr)) then m.setWord (m.table dir (pdi vaddr)) (pti vaddr) 0
  else m

/-- The page-table entry for directory index `p` and table index `t`. -/
def entry (m : Memory) (dir p t : Nat) : Nat :=
  if present (m.pages dir p) then m.pages (m.table dir p) t else 0

/-- The page-table entry of an address. -/
def entryAt (m : Memory) (dir vaddr : Nat) : Nat := m.entry dir (pdi vaddr) (pti vaddr)

/-- The paging objects that belong to a directory. -/
def Owned (m : Memory) (dir object : Nat) : Prop :=
  object = dir ∨ object = m.pages dir 1023 ∨
    ∃ p < 1023, present (m.pages dir p) = true ∧ object = m.table dir p

/-- The objects of a directory are its own, and entries that are not present are 0. -/
structure DirOk (m : Memory) (dir : Nat) : Prop where
  vmap_ne : m.pages dir 1023 ≠ dir
  table_ne : ∀ p < 1023, present (m.pages dir p) = true →
    m.table dir p ≠ dir ∧ m.table dir p ≠ m.pages dir 1023
  distinct : ∀ p < 1023, ∀ q < 1023, present (m.pages dir p) = true →
    present (m.pages dir q) = true → m.table dir p = m.table dir q → p = q
  absent : ∀ p < 1023, present (m.pages dir p) = true → ∀ t < 1024,
    present (m.pages (m.table dir p) t) = false → m.pages (m.table dir p) t = 0

/-- `kvalloc` returns new objects: each once, and none that is in use. -/
structure Fresh (m : Memory) (used : Nat → Prop) : Prop where
  nodup : (m.supply.filterMap id).Nodup
  unused : ∀ object, some object ∈ m.supply → object ≠ 0 ∧ ¬used object

/-- What an operation may do to the memory when it works on `dir`: change the
entries `touched`, give `dir` further tables out of the supply, and write the
objects `other`, which are none of `dir`. -/
structure Changes (m m' : Memory) (dir : Nat) (touched : Nat → Nat → Prop)
    (other : Nat → Prop) : Prop where
  ok : m'.DirOk dir
  kept : ∀ p < 1023, present (m.pages dir p) = true →
    present (m'.pages dir p) = true ∧ m'.table dir p = m.table dir p
  entry : ∀ p < 1023, ∀ t < 1024, ¬touched p t → m'.entry dir p t = m.entry dir p t
  supply : ∃ used, m.supply = used ++ m'.supply ∧
    ∀ object, m'.Owned dir object → m.Owned dir object ∨ some object ∈ used
  outside : ∀ object, ¬m.Owned dir object → some object ∉ m.supply → ¬other object →
    ∀ i, m'.pages object i = m.pages object i
  currDir : m'.currDir = m.currDir
  vmap : m'.pages dir 1023 = m.pages dir 1023

variable {m m' m'' : Memory} {dir : Nat} {touched : Nat → Nat → Prop} {other : Nat → Prop}

variable {vaddr word paddr flags : Nat}

variable {object p t table : Nat} {rest : List (Option Nat)}

theorem Fresh.head {used : Nat → Prop} (fresh : m.Fresh used)
    (supply : m.supply = some object :: rest) :
    some object ∈ m.supply ∧ ¬used object ∧ some object ∉ rest := by
  have supplied : some object ∈ m.supply := supply ▸ mem_cons_self
  refine ⟨supplied, (fresh.unused object supplied).2, fun again => ?_⟩
  have nodup := fresh.nodup
  simp only [supply, filterMap_cons, id_eq, nodup_cons] at nodup
  exact nodup.1 (mem_filterMap.2 ⟨_, again, rfl⟩)

section

variable (h : Changes m m' dir touched other)
include h

theorem Changes.owned {object : Nat} (ho : m'.Owned dir object) :
    m.Owned dir object ∨ some object ∈ m.supply := by
  obtain ⟨_, eq, owned⟩ := h.supply
  rw [eq]
  exact (owned object ho).imp_right (mem_append_left _)

theorem Changes.suffix : m'.supply <:+ m.supply := by
  obtain ⟨used, eq, -⟩ := h.supply
  exact ⟨used, eq.symm⟩

/-- The objects still to come stay new: what has become part of `dir` is used up. -/
theorem Changes.fresh (fresh : m.Fresh (m.Owned dir)) : m'.Fresh (m'.Owned dir) := by
  obtain ⟨used, eq, owned⟩ := h.supply
  have nodup := fresh.nodup
  rw [eq, filterMap_append, nodup_append] at nodup
  refine ⟨nodup.2.1, fun object supplied => ?_⟩
  obtain ⟨nonzero, unowned⟩ := fresh.unused object (eq ▸ mem_append_right used supplied)
  refine ⟨nonzero, fun ho => ?_⟩
  rcases owned object ho with ho | ho
  · exact unowned ho
  · exact nodup.2.2 object (mem_filterMap.2 ⟨_, ho, rfl⟩) object
      (mem_filterMap.2 ⟨_, supplied, rfl⟩) rfl

theorem Changes.trans (k : Changes m' m'' dir touched other) :
    Changes m m'' dir touched other where
  ok := k.ok
  kept := fun p hp there => by
    obtain ⟨there', same⟩ := h.kept p hp there
    obtain ⟨there'', same'⟩ := k.kept p hp there'
    exact ⟨there'', same'.trans same⟩
  entry := fun p hp t ht apart => (k.entry p hp t ht apart).trans (h.entry p hp t ht apart)
  supply := by
    obtain ⟨used, eq, owned⟩ := h.supply
    obtain ⟨used', eq', owned'⟩ := k.supply
    refine ⟨used ++ used', by rw [eq, eq', append_assoc], fun object ho => ?_⟩
    rcases owned' object ho with ho | ho
    · exact (owned object ho).imp_right (mem_append_left _)
    · exact .inr (mem_append_right _ ho)
  outside := fun object unowned unsupplied hother i => by
    have unowned' : ¬m'.Owned dir object := fun ho => (h.owned ho).elim unowned unsupplied
    have unsupplied' : some object ∉ m'.supply := fun ho => unsupplied (h.suffix.mem ho)
    rw [k.outside object unowned' unsupplied' hother, h.outside object unowned unsupplied hother]
  currDir := k.currDir.trans h.currDir
  vmap := k.vmap.trans h.vmap

theorem Changes.mono {touched' : Nat → Nat → Prop} {other' : Nat → Prop}
    (ht : ∀ p t, touched p t → touched' p t)
    (ho : ∀ object, other object → other' object ∨ some object ∈ m.supply) :
    Changes m m' dir touched' other' where
  __ := h
  entry := fun p hp t htt apart => h.entry p hp t htt fun k => apart (ht p t k)
  outside := fun object unowned unsupplied hother =>
    h.outside object unowned unsupplied fun k => (ho object k).elim hother unsupplied

end

theorem owned_congr
    (agree : ∀ object, m.Owned dir object → ∀ i, m'.pages object i = m.pages object i) :
    m'.pages dir = m.pages dir ∧ (∀ p, m'.table dir p = m.table dir p) ∧
      ∀ object, m'.Owned dir object ↔ m.Owned dir object := by
  have words : m'.pages dir = m.pages dir := funext (agree dir (.inl rfl))
  have tables : ∀ p, m'.table dir p = m.table dir p := fun p => by
    unfold table
    rw [words]
    exact agree _ (.inr (.inl rfl)) p
  refine ⟨words, tables, fun object => ?_⟩
  simp only [Owned, words, tables]

/-- An operation that leaves the objects of `dir` alone. -/
theorem Changes.of_agree (ok : m.DirOk dir)
    (agree : ∀ object, m.Owned dir object → ∀ i, m'.pages object i = m.pages object i)
    (outside : ∀ object, ¬other object → ∀ i, m'.pages object i = m.pages object i)
    (suffix : m'.supply <:+ m.supply) (currDir : m'.currDir = m.currDir) :
    Changes m m' dir touched other := by
  obtain ⟨words, tables, owned⟩ := owned_congr agree
  have inside : ∀ p < 1023, present (m.pages dir p) = true → ∀ t,
      m'.pages (m.table dir p) t = m.pages (m.table dir p) t := fun p hp there =>
    agree _ (.inr (.inr ⟨p, hp, there, rfl⟩))
  refine ⟨⟨?_, ?_, ?_, ?_⟩, ?_, ?_, ?_, ?_, currDir, congrFun words 1023⟩
  · rw [words]
    exact ok.vmap_ne
  · intro p hp there
    rw [words] at there ⊢
    rw [tables]
    exact ok.table_ne p hp there
  · intro p hp q hq
    rw [words, tables, tables]
    exact ok.distinct p hp q hq
  · intro p hp there t ht
    rw [words] at there
    rw [tables, inside p hp there]
    exact ok.absent p hp there t ht
  · intro p hp there
    rw [words, tables]
    exact ⟨there, rfl⟩
  · intro p hp t ht _
    unfold Memory.entry
    rw [words, tables]
    split_ifs with there
    · rw [inside p hp there]
    · rfl
  · obtain ⟨used, eq⟩ := suffix
    exact ⟨used, eq.symm, fun object ho => .inl ((owned object).1 ho)⟩
  · exact fun object _ _ hother => outside object hother

theorem Changes.of_pages (ok : m.DirOk dir) (pages : m'.pages = m.pages)
    (suffix : m'.supply <:+ m.supply) (currDir : m'.currDir = m.currDir) :
    Changes m m' dir touched other :=
  of_agree ok (fun _ _ _ => by rw [pages]) (fun _ _ _ => by rw [pages]) suffix currDir

theorem present_or (a b : Nat) : present (a ||| b) = (present a || present b) := by
  unfold present
  rcases Nat.mod_two_eq_zero_or_one a with h | h <;>
    rcases Nat.mod_two_eq_zero_or_one b with k | k <;> simp_all

theorem present_flag : present PAGE_FLAG_PRESENT = true := by decide

theorem present_entry (paddr flags : Nat) :
    present (paddr ||| PAGE_FLAG_PRESENT ||| pageFlags flags) = true := by
  simp [present_or, present_flag]

theorem setWord_pages (m : Memory) (object i word o j : Nat) :
    (m.setWord object i word).pages o j = if o = object ∧ j = i then word else m.pages o j := rfl

theorem setWord_of_ne {i o j : Nat} (h : o ≠ object ∨ j ≠ i) :
    (m.setWord object i word).pages o j = m.pages o j := by
  rw [setWord_pages, if_neg]
  rintro ⟨rfl, rfl⟩
  exact h.elim (fun h => h rfl) fun h => h rfl

/-- The tables of the present entries of a directory are its own and distinct. -/
structure OwnTables (m : Memory) (dir : Nat) : Prop where
  vmap_ne : m.pages dir 1023 ≠ dir
  table_ne : ∀ p < 1023, present (m.pages dir p) = true →
    m.table dir p ≠ dir ∧ m.table dir p ≠ m.pages dir 1023
  distinct : ∀ p < 1023, ∀ q < 1023, present (m.pages dir p) = true →
    present (m.pages dir q) = true → m.table dir p = m.table dir q → p = q

theorem DirOk.own (ok : m.DirOk dir) : m.OwnTables dir := { ok with }

/-- `m'` has the tables that `m` has, and one entry of them is new. -/
structure Puts (m m' : Memory) (dir p t word : Nat) : Prop where
  own : m'.OwnTables dir
  vmap : m'.pages dir 1023 = m.pages dir 1023
  there : present (m'.pages dir p) = true
  entry : ∀ q < 1023, ∀ u,
    m'.entry dir q u = if q = p ∧ u = t then word else m.entry dir q u

section SetWord

variable {p : Nat} (t word : Nat) (own : m.OwnTables dir) (hp : p < 1023)
  (there : present (m.pages dir p) = true)

include own hp there

theorem setWord_words : (m.setWord (m.table dir p) t word).pages dir = m.pages dir :=
  funext fun _ => setWord_of_ne (.inl (own.table_ne p hp there).1.symm)

theorem setWord_table (q : Nat) :
    (m.setWord (m.table dir p) t word).table dir q = m.table dir q := by
  change (m.setWord (m.table dir p) t word).pages
    ((m.setWord (m.table dir p) t word).pages dir 1023) q = _
  rw [setWord_words t word own hp there]
  exact setWord_of_ne (.inl (own.table_ne p hp there).2.symm)

theorem setWord_puts : Puts m (m.setWord (m.table dir p) t word) dir p t word := by
  have words := setWord_words t word own hp there
  have tables := setWord_table t word own hp there
  constructor
  case own =>
    constructor <;> simp only [words, tables]
    · exact own.vmap_ne
    · exact own.table_ne
    · exact own.distinct
  case vmap => rw [words]
  case there => rwa [words]
  case entry =>
    intro q hq u
    unfold Memory.entry
    rw [words, tables, setWord_pages]
    by_cases thereq : present (m.pages dir q) = true
    · rw [if_pos thereq, if_pos thereq]
      have same : m.table dir q = m.table dir p ↔ q = p :=
        ⟨own.distinct q hq p hp thereq there, fun eq => by rw [eq]⟩
      simp only [same]
    · rw [if_neg thereq, if_neg thereq, if_neg]
      rintro ⟨rfl, -⟩
      exact thereq there

end SetWord

theorem setWord_changes (ok : m.DirOk dir) (hp : p < 1023)
    (there : present (m.pages dir p) = true) (valid : present word = false → word = 0) :
    Changes m (m.setWord (m.table dir p) t word) dir (fun q u => q = p ∧ u = t) other ∧
      (m.setWord (m.table dir p) t word).entry dir p t = word := by
  have words := setWord_words t word ok.own hp there
  have tables := setWord_table t word ok.own hp there
  have puts := setWord_puts t word ok.own hp there
  constructor
  case left =>
    constructor
    case ok =>
      constructor
      case vmap_ne => exact puts.own.vmap_ne
      case table_ne => exact puts.own.table_ne
      case distinct => exact puts.own.distinct
      case absent =>
        intro q hq thereq u hu
        rw [words] at thereq
        rw [tables, setWord_pages]
        split
        · exact valid
        · exact ok.absent q hq thereq u hu
    case kept =>
      intro q hq thereq
      rw [words, tables]
      exact ⟨thereq, rfl⟩
    case entry =>
      intro q hq u hu apart
      rw [puts.entry q hq, if_neg apart]
    case supply =>
      refine ⟨[], rfl, fun object owned => .inl ?_⟩
      simpa only [Owned, words, tables] using owned
    case outside =>
      intro object unowned _ _ i
      refine setWord_of_ne (.inl ?_)
      rintro rfl
      exact unowned (.inr (.inr ⟨p, hp, there, rfl⟩))
    case currDir => rfl
    case vmap => exact puts.vmap
  case right => rw [puts.entry p hp, if_pos ⟨rfl, rfl⟩]

/-- The memory after a new, zeroed table has been entered for index `p` and given
its first entry. -/
def addTable (m : Memory) (dir p t table word dirWord : Nat) (rest : List (Option Nat)) : Memory :=
  (((zeroPage { m with supply := rest } table).setWord dir p dirWord).setWord
    (m.pages dir 1023) p table).setWord table t word

section AddTable

variable {p table : Nat} (t word dirWord : Nat) (rest : List (Option Nat)) (own : m.OwnTables dir)
  (hp : p < 1023) (unowned : ¬m.Owned dir table)

include unowned

theorem addTable_pages (o j : Nat) : (m.addTable dir p t table word dirWord rest).pages o j =
      if o = table then (if j = t then word else 0)
      else if o = m.pages dir 1023 ∧ j = p then table
      else if o = dir ∧ j = p then dirWord else m.pages o j := by
  have notDir : table ≠ dir := fun eq => unowned (.inl eq)
  have notMap : table ≠ m.pages dir 1023 := fun eq => unowned (.inr (.inl eq))
  simp only [addTable, setWord_pages, zeroPage]
  by_cases ho : o = table
  · subst ho
    simp [notDir, notMap]
  · simp [ho]

include own

theorem addTable_inside {q : Nat} (hq : q < 1023) (there : present (m.pages dir q) = true)
    (u : Nat) :
    (m.addTable dir p t table word dirWord rest).pages (m.table dir q) u =
      m.pages (m.table dir q) u := by
  have new : m.table dir q ≠ table := fun eq => unowned (.inr (.inr ⟨q, hq, there, eq.symm⟩))
  obtain ⟨_, _⟩ := own.table_ne q hq there
  rw [addTable_pages t word dirWord rest unowned, if_neg new, if_neg (by tauto), if_neg (by tauto)]

include hp

theorem addTable_dir :
    (m.addTable dir p t table word dirWord rest).pages dir 1023 = m.pages dir 1023 ∧
    (∀ q, (m.addTable dir p t table word dirWord rest).pages dir q =
      if q = p then dirWord else m.pages dir q) ∧
    ∀ q, (m.addTable dir p t table word dirWord rest).table dir q =
      if q = p then table else m.table dir q := by
  have notDir : dir ≠ table := fun eq => unowned (.inl eq.symm)
  have notMap : m.pages dir 1023 ≠ table := fun eq => unowned (.inr (.inl eq.symm))
  have notBoth := own.vmap_ne
  have vmap : (m.addTable dir p t table word dirWord rest).pages dir 1023 = m.pages dir 1023 := by
    rw [addTable_pages t word dirWord rest unowned, if_neg notDir, if_neg (by omega), if_neg (by omega)]
  refine ⟨vmap, fun q => ?_, fun q => ?_⟩
  · rw [addTable_pages t word dirWord rest unowned, if_neg notDir, if_neg (by tauto)]
    simp only [true_and]
  · unfold Memory.table
    rw [vmap, addTable_pages t word dirWord rest unowned, if_neg notMap]
    simp only [true_and, notBoth, false_and, if_false]

theorem addTable_own : (m.addTable dir p t table word dirWord rest).OwnTables dir := by
  obtain ⟨vmap, words, tables⟩ := addTable_dir t word dirWord rest own hp unowned
  have notTable : ∀ q < 1023, present (m.pages dir q) = true → m.table dir q ≠ table :=
    fun q hq there eq => unowned (.inr (.inr ⟨q, hq, there, eq.symm⟩))
  constructor
  case vmap_ne =>
    rw [vmap]
    exact own.vmap_ne
  case table_ne =>
    intro q hq there
    rw [vmap, tables]
    rw [words] at there
    split
    · exact ⟨fun eq => unowned (.inl eq), fun eq => unowned (.inr (.inl eq))⟩
    · rw [if_neg ‹_›] at there
      exact own.table_ne q hq there
  case distinct =>
    intro q hq r hr thereq therer same
    rw [words] at thereq therer
    rw [tables, tables] at same
    by_cases first : q = p <;> by_cases second : r = p
    · exact first.trans second.symm
    · rw [if_neg second] at therer same
      rw [if_pos first] at same
      exact absurd same.symm (notTable r hr therer)
    · rw [if_neg first] at thereq same
      rw [if_pos second] at same
      exact absurd same (notTable q hq thereq)
    · rw [if_neg first] at thereq same
      rw [if_neg second] at therer same
      exact own.distinct q hq r hr thereq therer same

theorem addTable_puts (absent : present (m.pages dir p) = false) (there : present dirWord = true) :
    Puts m (m.addTable dir p t table word dirWord rest) dir p t word := by
  obtain ⟨vmap, words, tables⟩ := addTable_dir t word dirWord rest own hp unowned
  constructor
  case own => exact addTable_own t word dirWord rest own hp unowned
  case vmap => exact vmap
  case there => rwa [words, if_pos rfl]
  case entry =>
    intro q hq u
    unfold Memory.entry
    rw [words, tables]
    by_cases eq : q = p
    · subst eq
      simp [there, absent, addTable_pages t word dirWord rest unowned]
    · simp only [eq, if_false, false_and]
      split
      · exact addTable_inside t word dirWord rest own unowned hq ‹_› u
      · rfl

end AddTable

theorem addTable_changes (ok : m.DirOk dir) {dirWord : Nat} (hp : p < 1023)
    (absent : present (m.pages dir p) = false)
    (unowned : ¬m.Owned dir table) (supply : m.supply = some table :: rest)
    (valid : present word = false → word = 0) (there : present dirWord = true) :
    Changes m (m.addTable dir p t table word dirWord rest) dir (fun q u => q = p ∧ u = t) other ∧
      (m.addTable dir p t table word dirWord rest).entry dir p t = word := by
  obtain ⟨vmap, words, tables⟩ := addTable_dir t word dirWord rest ok.own hp unowned
  have puts := addTable_puts t word dirWord rest ok.own hp unowned absent there
  have other_p : ∀ q, present (m.pages dir q) = true → q ≠ p := by
    rintro q thereq rfl
    rw [absent] at thereq
    cases thereq
  constructor
  case left =>
    constructor
    case ok =>
      constructor
      case vmap_ne => exact puts.own.vmap_ne
      case table_ne => exact puts.own.table_ne
      case distinct => exact puts.own.distinct
      case absent =>
        intro q hq thereq u hu
        rw [words] at thereq
        rw [tables]
        by_cases eq : q = p
        · rw [if_pos eq, addTable_pages t word dirWord rest unowned, if_pos rfl]
          split
          · exact valid
          · exact fun _ => rfl
        · rw [if_neg eq] at thereq ⊢
          rw [addTable_inside t word dirWord rest ok.own unowned hq thereq]
          exact ok.absent q hq thereq u hu
    case kept =>
      intro q hq thereq
      rw [words, tables, if_neg (other_p q thereq), if_neg (other_p q thereq)]
      exact ⟨thereq, rfl⟩
    case entry =>
      intro q hq u hu apart
      rw [puts.entry q hq, if_neg apart]
    case supply =>
      refine ⟨[some table], supply, ?_⟩
      rintro object (rfl | rfl | ⟨q, hq, thereq, rfl⟩)
      · exact .inl (.inl rfl)
      · rw [vmap]
        exact .inl (.inr (.inl rfl))
      · rw [words] at thereq
        rw [tables]
        split
        · exact .inr (mem_singleton_self _)
        · rw [if_neg ‹_›] at thereq
          exact .inl (.inr (.inr ⟨q, hq, thereq, rfl⟩))
    case outside =>
      intro object outside unsupplied _ i
      have h1 : object ≠ table := fun eq => unsupplied (eq ▸ supply ▸ mem_cons_self)
      have h2 : object ≠ m.pages dir 1023 := fun eq => outside (.inr (.inl eq))
      rw [addTable_pages t word dirWord rest unowned, if_neg h1, if_neg (by tauto), if_neg (by tauto)]
    case currDir => rfl
    case vmap => exact vmap
  case right => rw [puts.entry p hp, if_pos ⟨rfl, rfl⟩]

/-- `map_page` writes an entry of a table that is there, or of a new one. -/
theorem mapPage_cases (low : pdi vaddr < 1023)
    (fresh : ∀ table rest, m.supply = some table :: rest → ¬m.Owned dir table)
    (h : m.mapPage dir paddr vaddr flags = some m') :
    (present (m.pages dir (pdi vaddr)) = true ∧
      m' = m.setWord (m.table dir (pdi vaddr)) (pti vaddr)
        (paddr ||| PAGE_FLAG_PRESENT ||| pageFlags flags)) ∨
    present (m.pages dir (pdi vaddr)) = false ∧ ∃ table rest dirWord,
      m.supply = some table :: rest ∧ present dirWord = true ∧
      m' = m.addTable dir (pdi vaddr) (pti vaddr) table
        (paddr ||| PAGE_FLAG_PRESENT ||| pageFlags flags) dirWord rest := by
  unfold mapPage at h
  cases there : present (m.pages dir (pdi vaddr)) with
  | true =>
    simp only [there, if_true] at h
    exact .inl ⟨rfl, (some.inj h).symm⟩
  | false =>
    right
    unfold kvalloc at h
    cases hs : m.supply with
    | nil => simp [hs, there] at h
    | cons object rest =>
      cases object with
      | none => simp [hs, there] at h
      | some table =>
        have notDir : dir ≠ table := fun eq => fresh table rest hs (.inl eq.symm)
        simp only [hs, there, Bool.false_eq_true, if_false] at h
        generalize hd : (_ ||| PAGE_FLAG_PRESENT : Nat) = dirWord at h
        have vmap : (Memory.setWord (zeroPage { m with supply := rest } table) dir (pdi vaddr)
            dirWord).pages dir 1023 = m.pages dir 1023 := by
          rw [setWord_of_ne (.inr (by omega))]
          exact if_neg notDir
        rw [vmap] at h
        refine ⟨rfl, table, rest, dirWord, rfl, ?_, (some.inj h).symm⟩
        simp [← hd, present_or, present_flag]

theorem mapPage_spec (ok : m.DirOk dir) (fresh : m.Fresh (m.Owned dir)) {paddr vaddr flags : Nat}
    (low : pdi vaddr < 1023) (h : m.mapPage dir paddr vaddr flags = some m') :
    Changes m m' dir (fun p t => p = pdi vaddr ∧ t = pti vaddr) other ∧
      m'.entry dir (pdi vaddr) (pti vaddr) = paddr ||| PAGE_FLAG_PRESENT ||| pageFlags flags := by
  have valid : present (paddr ||| PAGE_FLAG_PRESENT ||| pageFlags flags) = false →
      paddr ||| PAGE_FLAG_PRESENT ||| pageFlags flags = 0 := by
    intro absent
    rw [present_entry] at absent
    cases absent
  have unowned : ∀ table rest, m.supply = some table :: rest → ¬m.Owned dir table :=
    fun table rest supply => (fresh.unused table (supply ▸ mem_cons_self)).2
  obtain ⟨there, rfl⟩ | ⟨absent, table, rest, _, supply, there, rfl⟩ :=
    mapPage_cases low unowned h
  · exact setWord_changes ok low there valid
  · exact addTable_changes ok low absent (unowned table rest supply) supply valid there

theorem unmapPage_spec (ok : m.DirOk dir) {vaddr : Nat} (low : pdi vaddr < 1023) :
    Changes m (m.unmapPage dir vaddr) dir (fun p t => p = pdi vaddr ∧ t = pti vaddr) other ∧
      (m.unmapPage dir vaddr).entry dir (pdi vaddr) (pti vaddr) = 0 := by
  unfold unmapPage
  split
  · exact setWord_changes ok low ‹_› fun _ => rfl
  · rename_i absent
    refine ⟨Changes.of_pages ok rfl (suffix_refl _) rfl, ?_⟩
    unfold entry
    rw [if_neg absent]

theorem mapPage_puts (own : m.OwnTables dir) (low : pdi vaddr < 1023)
    (fresh : ∀ table rest, m.supply = some table :: rest → ¬m.Owned dir table)
    (h : m.mapPage dir paddr vaddr flags = some m') :
    Puts m m' dir (pdi vaddr) (pti vaddr) (paddr ||| PAGE_FLAG_PRESENT ||| pageFlags flags) := by
  obtain ⟨there, rfl⟩ | ⟨absent, table, rest, _, supply, there, rfl⟩ :=
    mapPage_cases low fresh h
  · exact setWord_puts _ _ own low there
  · exact addTable_puts _ _ _ _ own low (fresh table rest supply) absent there

theorem mapPage_isSome (dir paddr vaddr flags : Nat) (alloc : m.kvalloc.1 = some table) :
    ∃ m', m.mapPage dir paddr vaddr flags = some m' := by
  unfold mapPage
  split
  · exact ⟨_, rfl⟩
  · cases h : m.kvalloc with
    | mk =>
      rw [h] at alloc
      cases alloc
      exact ⟨_, rfl⟩

theorem frame_entry (aligned : paddr % 4096 = 0) (flags : Nat) :
    frame (paddr ||| PAGE_FLAG_PRESENT ||| pageFlags flags) = paddr := by
  have low : PAGE_FLAG_PRESENT / 2 ^ 12 = 0 := by decide
  have masked : pageFlags flags / 2 ^ 12 = 0 := by
    unfold pageFlags
    omega
  unfold frame
  rw [show 4096 = 2 ^ 12 from rfl, Nat.or_div_two_pow, Nat.or_div_two_pow, low, masked, Nat.or_zero,
    Nat.or_zero]
  omega

/-- The translation of a page's first byte is the frame in its entry, 0 if there is no table. -/
theorem getPaddr_base (base : vaddr % 4096 = 0) :
    m.getPaddr dir vaddr = add32 (frame (m.entryAt dir vaddr)) 0 := by
  unfold getPaddr entryAt Memory.entry
  rw [pageFlags, base]
  split <;> rfl

/-- One written entry changes no other page. -/
theorem Puts.getPaddr_other {b : Nat}
    (puts : Puts m m' dir (pdi vaddr) (pti vaddr) word) (hb : b < 0xffc00000)
    (base : b % 4096 = 0) (apart : b / 4096 ≠ vaddr / 4096) :
    m'.getPaddr dir b = m.getPaddr dir b := by
  rw [getPaddr_base base, getPaddr_base base, entryAt, entryAt, puts.entry _ (pdi_lt hb),
    if_neg (mt indices_iff.1 apart)]

theorem mapPage_getPaddr (aligned : paddr % 4096 = 0) (high : paddr < 2 ^ 32)
    (puts : Puts m m' dir (pdi vaddr) (pti vaddr)
      (paddr ||| PAGE_FLAG_PRESENT ||| pageFlags flags)) (low : pdi vaddr < 1023)
    (same : v / 4096 = vaddr / 4096) : m'.getPaddr dir v = paddr + v % 4096 := by
  have indices := indices_iff.2 same
  have entry := puts.entry (pdi vaddr) low (pti vaddr)
  rw [if_pos ⟨rfl, rfl⟩, Memory.entry, if_pos puts.there] at entry
  rw [getPaddr, indices.1, indices.2, if_pos puts.there, entry, frame_entry aligned]
  exact add32_eq (by unfold pageFlags; omega)

theorem unmapPage_puts (own : m.OwnTables dir) (low : pdi vaddr < 1023)
    (there : present (m.pages dir (pdi vaddr)) = true) :
    Puts m (m.unmapPage dir vaddr) dir (pdi vaddr) (pti vaddr) 0 := by
  rw [unmapPage, if_pos there]
  exact setWord_puts _ _ own low there

/-- Reading the translation back after a page has been mapped or unmapped, in a directory whose
tables are its own, when the allocator returns memory that is none of the directory's. -/
theorem page_table_laws {m : Memory} {dir table : Nat} (own : m.OwnTables dir)
    (alloc : m.kvalloc.1 = some table) (fresh : ¬m.Owned dir table) {p a flags : Nat}
    (aligned : p % 4096 = 0) (hp : p < 2 ^ 32) (ha : a < 0xffc00000) :
    (∃ m', m.mapPage dir p a flags = some m' ∧
      (∀ v, v / 4096 = a / 4096 → m'.getPaddr dir v = p + v % 4096) ∧
      (∀ b < 0xffc00000, b % 4096 = 0 → b / 4096 ≠ a / 4096 →
        m'.getPaddr dir b = m.getPaddr dir b) ∧
      m'.OwnTables dir) ∧
    (m.unmapPage dir a).getPaddr dir (a / 4096 * 4096) = 0 ∧
    (∀ b < 0xffc00000, b % 4096 = 0 → b / 4096 ≠ a / 4096 →
      (m.unmapPage dir a).getPaddr dir b = m.getPaddr dir b) ∧
    (m.unmapPage dir a).OwnTables dir := by
  have low := pdi_lt ha
  have unowned : ∀ object rest, m.supply = some object :: rest → ¬m.Owned dir object := by
    intro object rest supply
    simp only [kvalloc, supply, Option.some.injEq] at alloc
    rwa [alloc]
  obtain ⟨m', mapped⟩ := mapPage_isSome dir p a flags alloc
  have puts := mapPage_puts own low unowned mapped
  refine ⟨⟨m', mapped, fun v same => mapPage_getPaddr aligned hp puts low same,
    fun b hb base apart => puts.getPaddr_other hb base apart, puts.own⟩, ?_⟩
  have base : a / 4096 * 4096 % 4096 = 0 := Nat.mul_mod_left _ _
  have indices := indices_iff.2 (show a / 4096 * 4096 / 4096 = a / 4096 by omega)
  cases there : present (m.pages dir (pdi a)) with
  | true =>
    have puts := unmapPage_puts own low there
    refine ⟨?_, fun b hb base apart => puts.getPaddr_other hb base apart, puts.own⟩
    rw [getPaddr_base base, entryAt, indices.1, indices.2, puts.entry _ low, if_pos ⟨rfl, rfl⟩]
    rfl
  | false =>
    have same : m.unmapPage dir a = m := by simp [unmapPage, there]
    rw [same]
    refine ⟨?_, fun _ _ _ _ => rfl, own⟩
    rw [getPaddr, indices.1, there]
    rfl

/-- A directory at 1 without tables, the list of its tables at 2, and memory for one more. -/
def newDir : Memory :=
  ⟨fun o i => if o = 1 ∧ i = 1023 then 2 else 0, fun _ _ => 0, 1, [], 0, [some 3], []⟩

theorem newDir_own : newDir.OwnTables 1 := by
  have none : ∀ p < 1023, present (newDir.pages 1 p) = false := by
    intro p hp
    simp [newDir, show p ≠ 1023 by omega, present]
  constructor
  case vmap_ne => decide
  case table_ne =>
    intro p hp there
    rw [none p hp] at there
    cases there
  case distinct =>
    intro p hp q _ there
    rw [none p hp] at there
    cases there

/-- A page mapped into the new directory, which takes a new table. -/
theorem page_table_laws_new_table :
    ∃ m', newDir.mapPage 1 0x5000 0x400123 7 = some m' ∧ m'.getPaddr 1 0x400abc = 0x5abc ∧
      m'.getPaddr 1 0x401000 = 0 ∧ m'.OwnTables 1 := by
  have unowned : ¬newDir.Owned 1 3 := by
    rintro (eq | eq | ⟨p, _, there, -⟩)
    · cases eq
    · cases eq
    · simp [newDir, show p ≠ 1023 by omega, present] at there
  have alloc : newDir.kvalloc.1 = some 3 := rfl
  obtain ⟨⟨m', mapped, inside, outside, own⟩, -⟩ := @page_table_laws newDir 1 3 newDir_own alloc
    unowned 0x5000 0x400123 7 (by decide) (by decide) (by decide)
  exact ⟨m', mapped, inside 0x400abc (by decide),
    outside 0x401000 (by decide) (by decide) (by decide), own⟩

end Memory

end Os0
