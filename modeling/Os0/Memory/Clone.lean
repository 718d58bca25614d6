import Os0.Memory.Paging

/-! Cloning page tables and directories for a fork (`arch/i386/paging.c`). An
outer `none` is a panic or a kernel page fault, an inner `none` is `NULL`. -/
namespace Os0

open List Option Memory

namespace Memory

/-- `memcpy` of the page at `src` over the page at `dst`, both in the current
directory. -/
def copyPage (m : Memory) (dst src : Nat) : Option Memory :=
  let target := m.entryAt m.currDir dst
  let source := m.entryAt m.currDir src
  if present target && present source then
    some { m with frames := Function.update m.frames (frame target) (m.frames (frame source)) }
  else none

/-- The address of entry `i` of table `index`. -/
def tableVaddr (index i : Nat) : Nat := index * 4194304 + i * 4096

/-- One iteration of `page_table_clone`. It gives `false` when it is out of frames. -/
def cloneEntry (index orig table i : Nat) (m : Memory) : Option (Bool × Memory) :=
  let vaddr := tableVaddr index i
  if present (m.pages orig i) = false then some (true, m.setWord table i 0)
  else if vaddr < TASK_LOCAL_BOUND then some (true, m.setWord table i (m.pages orig i))
  else
    let (buffer, m) := m.allocPage
    if buffer = 0 then some (false, m)
    else do
      let m ← m.mapPage m.currDir buffer PAGE_COPY_VADDR PAGE_FLAG_WRITE
      let m ← m.copyPage PAGE_COPY_VADDR vaddr
      some (true, m.setWord table i (buffer ||| pageFlags (m.pages orig i)))

/-- The loop of `page_table_clone`. -/
def cloneEntries (index orig table : Nat) : List Nat → Memory → Option (Bool × Memory)
  | [], m => some (true, m)
  | i :: rest, m =>
    match cloneEntry index orig table i m with
    | some (true, m) => cloneEntries index orig table rest m
    | result => result

def pageTableClone (m : Memory) (index orig : Nat) : Option (Option Nat × Memory) :=
  match m.kvalloc with
  | (none, m) => some (none, m)
  | (some table, m) =>
    (cloneEntries index orig table (List.range 1024) m).map fun (done, m) =>
      if done then (some table, m.unmapPage m.currDir PAGE_COPY_VADDR)
      else (none, (m.kfree table).unmapPage m.currDir PAGE_COPY_VADDR)

def pageDirFree (m : Memory) (dir : Nat) : Memory :=
  let vmap := m.pages dir 1023
  let m := (List.range 1023).foldl (fun m i =>
    let table := m.pages vmap i
    let m := if KHEAP_DATA_VADDR ≤ table && table < KHEAP_DATA_VADDR + KHEAP_DATA_LEN then
      m.kfree table else m
    (m.setWord dir i 0).setWord vmap i 0) m
  (m.kfree vmap).kfree dir

/-- `memcmp (table, page_empty, PAGE_SIZE) == 0`. -/
def tableEmpty (m : Memory) (table : Nat) : Bool :=
  (List.range 1024).all fun i => m.pages table i = 0

/-- One iteration of `page_dir_clone`; `false` when there is no memory. -/
def cloneTable (orig dir vmap i : Nat) (m : Memory) : Option (Bool × Memory) :=
  let table := m.table orig i
  if present (m.pages orig i) = false then some (true, m.setWord vmap i 0)
  else if m.tableEmpty table then some (true, (m.setWord dir i 0).setWord vmap i 0)
  else
    (m.pageTableClone i table).map fun (clone, m) =>
      match clone with
      | none => (false, m.setWord vmap i 0)
      | some clone =>
        let m := m.setWord vmap i clone
        (true, m.setWord dir i (m.getPaddr m.currDir clone ||| PAGE_FLAG_PRESENT |||
          PAGE_FLAG_WRITE ||| PAGE_FLAG_USER))

/-- The loop of `page_dir_clone`. -/
def cloneTables (orig dir vmap : Nat) : List Nat → Memory → Option (Bool × Memory)
  | [], m => some (true, m)
  | i :: rest, m =>
    match cloneTable orig dir vmap i m with
    | some (true, m) => cloneTables orig dir vmap rest m
    | result => result

def pageDirClone (m : Memory) (orig : Nat) : Option (Option Nat × Memory) :=
  match m.kvalloc with
  | (none, m) => some (none, m)
  | (some dir, m) =>
    let m := m.zeroPage dir
    match m.kvalloc with
    | (none, m) => some (none, m.kfree dir)
    | (some vmap, m) =>
      let m := m.setWord dir 1023 vmap
      (cloneTables orig dir vmap (List.range 1023) m).map fun (done, m) =>
        if done then (some dir, m) else (none, m.pageDirFree dir)

/-- The state in which a table of the current directory `dir` is being cloned into
the object `table`. -/
structure CloningTable (m : Memory) (dir index orig table : Nat) : Prop where
  ok : m.DirOk dir
  fresh : m.Fresh (m.Owned dir)
  curr : m.currDir = dir
  low : index < 1023
  there : present (m.pages dir index) = true
  orig_eq : m.table dir index = orig
  unowned : ¬m.Owned dir table
  unsupplied : some table ∉ m.supply

/-- The entry that stages the copies: it is used only for tables above the bound. -/
def staged (index p t : Nat) : Prop := p = 0 ∧ t = 1 ∧ 960 ≤ index

variable {m m' : Memory} {dir index orig table i : Nat}

variable {touched : Nat → Nat → Prop} {other : Nat → Prop}

variable {objects : List Nat}

variable {dst src : Nat} {ps : List Nat} {rest : List (Option Nat)}

theorem CloningTable.next (h : m.CloningTable dir index orig table)
    (changes : Changes m m' dir touched other) : m'.CloningTable dir index orig table where
  ok := changes.ok
  fresh := changes.fresh h.fresh
  curr := changes.currDir.trans h.curr
  low := h.low
  there := (changes.kept index h.low h.there).1
  orig_eq := (changes.kept index h.low h.there).2.trans h.orig_eq
  unowned := fun owned => (changes.owned owned).elim h.unowned h.unsupplied
  unsupplied := fun supplied => h.unsupplied (changes.suffix.mem supplied)

theorem setWord_outside (ok : m.DirOk dir) {object j word : Nat} (unowned : ¬m.Owned dir object)
    (allowed : other object) : Changes m (m.setWord object j word) dir touched other := by
  refine Changes.of_agree ok (fun o ho k => setWord_of_ne (.inl ?_))
    (fun o ho k => setWord_of_ne (.inl ?_)) (suffix_refl _) rfl
  · rintro rfl
    exact unowned ho
  · rintro rfl
    exact ho allowed

theorem allocPage_fields (m : Memory) :
    m.allocPage.2.pages = m.pages ∧ m.allocPage.2.frames = m.frames ∧
      m.allocPage.2.currDir = m.currDir ∧ m.allocPage.2.supply = m.supply := by
  unfold allocPage
  split
  · split <;> exact ⟨rfl, rfl, rfl, rfl⟩
  · exact ⟨rfl, rfl, rfl, rfl⟩

theorem allocPage_changes (ok : m.DirOk dir) : Changes m m.allocPage.2 dir touched other := by
  obtain ⟨pages, -, curr, supply⟩ := m.allocPage_fields
  exact Changes.of_pages ok pages (supply ▸ suffix_refl _) curr

theorem copyPage_fields (h : m.copyPage dst src = some m') :
    m'.pages = m.pages ∧ m'.currDir = m.currDir ∧ m'.supply = m.supply ∧
      m'.pageStack = m.pageStack ∧ m'.currAddr = m.currAddr := by
  unfold copyPage at h
  dsimp only at h
  split at h
  · cases h
    exact ⟨rfl, rfl, rfl, rfl, rfl⟩
  · cases h

theorem copyPage_changes (ok : m.DirOk dir) (h : m.copyPage dst src = some m') :
    Changes m m' dir touched other := by
  obtain ⟨pages, curr, supply, -⟩ := copyPage_fields h
  exact Changes.of_pages ok pages (supply ▸ suffix_refl _) curr

section

variable (h : m.CloningTable dir index orig table)
include h

theorem CloningTable.entry_eq (t : Nat) : m.entry dir index t = m.pages orig t := by
  unfold entry
  rw [if_pos h.there, h.orig_eq]

/-- One entry: it is written to the clone and nowhere else, and below the bound it
is the parent's. -/
theorem cloneEntry_spec (hi : i < 1024)
    (clone : cloneEntry index orig table i m = some (true, m')) :
    Changes m m' dir (staged index) (· = table) ∧
      (tableVaddr index i < TASK_LOCAL_BOUND → m'.pages table i = m.entry dir index i) ∧
      ∀ j, j ≠ i → m'.pages table j = m.pages table j := by
  have written (m : Memory) (word : Nat) : (m.setWord table i word).pages table i = word := by
    rw [setWord_pages, if_pos ⟨rfl, rfl⟩]
  rw [h.entry_eq]
  unfold cloneEntry at clone
  dsimp only at clone
  split at clone
  · rename_i absent
    cases clone
    refine ⟨setWord_outside h.ok h.unowned rfl, fun _ => ?_, fun j hj => setWord_of_ne (.inr hj)⟩
    rw [written, ← h.orig_eq]
    rw [← h.orig_eq] at absent
    exact (h.ok.absent index h.low h.there i hi absent).symm
  · split at clone
    · cases clone
      exact ⟨setWord_outside h.ok h.unowned rfl, fun _ => written m _,
        fun j hj => setWord_of_ne (.inr hj)⟩
    · rename_i above
      split at clone
      · cases clone
      · obtain ⟨m₁, mapped, clone⟩ := bind_eq_some_iff.1 clone
        obtain ⟨m₂, copied, clone⟩ := bind_eq_some_iff.1 clone
        cases clone
        have high : 960 ≤ index := by
          unfold tableVaddr TASK_LOCAL_BOUND at above
          omega
        have alloc : Changes m m.allocPage.2 dir (staged index) (fun _ => False) :=
          allocPage_changes h.ok
        have h₀ := h.next alloc
        have map : Changes m.allocPage.2 m₁ dir (staged index) (fun _ => False) := by
          rw [h₀.curr] at mapped
          refine (mapPage_spec h₀.ok h₀.fresh (by decide) mapped).1.mono ?_ fun _ k => .inl k
          rintro p t ⟨rfl, rfl⟩
          exact ⟨rfl, rfl, high⟩
        have h₁ := h₀.next map
        have copy : Changes m₁ m₂ dir (staged index) (fun _ => False) := copyPage_changes h₁.ok copied
        have h₂ := h₁.next copy
        have before := (alloc.trans map).trans copy
        have same := before.outside table h.unowned h.unsupplied id
        refine ⟨(before.mono (fun _ _ k => k) fun _ k => k.elim).trans
          (setWord_outside h₂.ok h₂.unowned rfl),
          fun below => absurd below above, fun j hj => ?_⟩
        rw [setWord_of_ne (.inr hj), same]

theorem cloneEntries_spec {is : List Nat} (small : ∀ i ∈ is, i < 1024) (nodup : is.Nodup)
    (clone : cloneEntries index orig table is m = some (true, m')) :
    Changes m m' dir (staged index) (· = table) ∧
      (∀ i ∈ is, tableVaddr index i < TASK_LOCAL_BOUND → m'.pages table i = m.entry dir index i) ∧
      ∀ j, j ∉ is → m'.pages table j = m.pages table j := by
  induction is generalizing m with
  | nil =>
    cases clone
    exact ⟨Changes.of_pages h.ok rfl (suffix_refl _) rfl,
      nofun, fun _ _ => rfl⟩
  | cons i is ih =>
    obtain ⟨hi, small⟩ := forall_mem_cons.1 small
    obtain ⟨new, nodup⟩ := nodup_cons.1 nodup
    unfold cloneEntries at clone
    split at clone
    · rename_i m₁ first
      obtain ⟨changes, value, others⟩ := cloneEntry_spec h hi first
      obtain ⟨changes', values, others'⟩ := ih (h.next changes) small nodup clone
      refine ⟨changes.trans changes', fun j hj below => ?_, fun j hj => ?_⟩
      · rcases mem_cons.1 hj with rfl | hj
        · rw [others' j new, value below]
        · rw [values j hj below]
          refine changes.entry index h.low j (small j hj) ?_
          rintro ⟨rfl, -, _⟩
          omega
      · rw [mem_cons, not_or] at hj
        rw [others' j hj.2, others j hj.1]
    · rename_i result stop
      rw [clone] at stop
      exact absurd rfl (stop m')

end

/-- The entry that `page_table_clone` unmaps in the current directory. -/
def stagedAny (p t : Nat) : Prop := p = 0 ∧ t = 1

theorem pageTableClone_spec (ok : m.DirOk dir) (fresh : m.Fresh (m.Owned dir))
    (curr : m.currDir = dir) (low : index < 1023) (there : present (m.pages dir index) = true)
    (clone : m.pageTableClone index (m.table dir index) = some (some table, m')) :
    Changes m m' dir stagedAny (fun _ => False) ∧
      (some table ∈ m.supply ∧ ¬m'.Owned dir table ∧ some table ∉ m'.supply) ∧
      (∀ i < 1024, tableVaddr index i < TASK_LOCAL_BOUND →
        m'.pages table i = m.entry dir index i) ∧
      m'.entry dir 0 1 = 0 := by
  unfold pageTableClone kvalloc at clone
  cases hs : m.supply with
  | nil => simp [hs] at clone
  | cons object rest =>
    cases object with
    | none => simp [hs] at clone
    | some object =>
      simp only [hs] at clone
      obtain ⟨⟨done, m₂⟩, loop, clone⟩ := map_eq_some_iff.1 clone
      cases done with
      | false => simp at clone
      | true =>
        simp only [if_true, Prod.mk.injEq, some.injEq] at clone
        obtain ⟨rfl, rfl⟩ := clone
        obtain ⟨supplied, unowned, once⟩ := fresh.head hs
        have taken : Changes m { m with supply := rest } dir stagedAny (· = object) :=
          Changes.of_pages ok rfl (hs ▸ suffix_cons _ _) rfl
        have start : CloningTable { m with supply := rest } dir index (m.table dir index) object :=
          ⟨taken.ok, taken.fresh fresh, curr, low, there, rfl, unowned, once⟩
        obtain ⟨changes, values, -⟩ :=
          cloneEntries_spec start (fun i hi => mem_range.1 hi) nodup_range loop
        have h₂ := start.next changes
        obtain ⟨unmap, zero⟩ : Changes m₂ (m₂.unmapPage m₂.currDir PAGE_COPY_VADDR) dir stagedAny
            (fun _ => False) ∧ (m₂.unmapPage m₂.currDir PAGE_COPY_VADDR).entry dir 0 1 = 0 := by
          rw [h₂.curr]
          exact unmapPage_spec h₂.ok (show pdi PAGE_COPY_VADDR < 1023 by decide)
        have h₃ := h₂.next unmap
        have inner : Changes { m with supply := rest } m₂ dir stagedAny (· = object) :=
          changes.mono (fun _ _ k => ⟨k.1, k.2.1⟩) fun _ k => .inl k
        have outer : Changes m₂ (m₂.unmapPage m₂.currDir PAGE_COPY_VADDR) dir stagedAny
            (· = object) := unmap.mono (fun _ _ k => k) fun _ k => k.elim
        refine ⟨((taken.trans inner).trans outer).mono (fun _ _ k => k)
          fun o ho => .inr (ho ▸ supplied), ⟨mem_cons_self, h₃.unowned, h₃.unsupplied⟩,
          fun i hi below => ?_, zero⟩
        rw [unmap.outside object h₂.unowned h₂.unsupplied id i]
        exact values i (mem_range.2 hi) below

/-- The state in which the current directory `dir` is being cloned into the objects
`child` and `vmap`. -/
structure CloningDir (m : Memory) (dir child vmap : Nat) : Prop where
  ok : m.DirOk dir
  fresh : m.Fresh (m.Owned dir)
  curr : m.currDir = dir
  child_unowned : ¬m.Owned dir child
  vmap_unowned : ¬m.Owned dir vmap
  child_unsupplied : some child ∉ m.supply
  vmap_unsupplied : some vmap ∉ m.supply
  apart : child ≠ vmap
  map : m.pages child 1023 = vmap

/-- The objects the clone of a directory writes. -/
def isChild (child vmap object : Nat) : Prop := object = child ∨ object = vmap

variable {child vmap p : Nat}

theorem CloningDir.next (h : m.CloningDir dir child vmap) (changes : Changes m m' dir touched other)
    (map : m'.pages child 1023 = vmap) : m'.CloningDir dir child vmap where
  ok := changes.ok
  fresh := changes.fresh h.fresh
  curr := changes.currDir.trans h.curr
  child_unowned := fun owned => (changes.owned owned).elim h.child_unowned h.child_unsupplied
  vmap_unowned := fun owned => (changes.owned owned).elim h.vmap_unowned h.vmap_unsupplied
  child_unsupplied := fun supplied => h.child_unsupplied (changes.suffix.mem supplied)
  vmap_unsupplied := fun supplied => h.vmap_unsupplied (changes.suffix.mem supplied)
  apart := h.apart
  map := map

/-- What an iteration has put into slot `p` of the child. -/
structure Cloned (m : Memory) (dir child vmap p : Nat) (parent : Nat → Nat) : Prop where
  entry : ∀ t < 1024, tableVaddr p t < TASK_LOCAL_BOUND → m.entry child p t = parent t
  own : present (m.pages child p) = true →
    ¬m.Owned dir (m.pages vmap p) ∧ some (m.pages vmap p) ∉ m.supply ∧
      ¬isChild child vmap (m.pages vmap p)

theorem tableEmpty_iff (m : Memory) (table : Nat) :
    m.tableEmpty table = true ↔ ∀ i < 1024, m.pages table i = 0 := by
  simp [tableEmpty]

theorem cloned_empty (quiet : Changes m m' dir (fun _ _ => False) (isChild child vmap))
    (slot : present (m'.pages child p) = false) (nothing : ∀ t < 1024, m.entry dir p t = 0) :
    Changes m m' dir stagedAny (isChild child vmap) ∧ m'.Cloned dir child vmap p (m.entry dir p) ∧
      (m'.entry dir 0 1 = m.entry dir 0 1 ∨ m'.entry dir 0 1 = 0) := by
  refine ⟨quiet.mono (fun _ _ k => k.elim) fun _ k => .inl k, ⟨fun t ht _ => ?_, fun there => ?_⟩,
    .inl (quiet.entry 0 (by decide) 1 (by decide) id)⟩
  · rw [nothing t ht]
    unfold entry
    rw [slot]
    rfl
  · rw [slot] at there
    cases there

theorem cloneTable_spec (h : m.CloningDir dir child vmap) (low : p < 1023)
    (empty : present (m.pages child p) = false)
    (clone : cloneTable dir child vmap p m = some (true, m')) :
    (Changes m m' dir stagedAny (isChild child vmap) ∧
      m'.Cloned dir child vmap p (m.entry dir p) ∧
      (m'.entry dir 0 1 = m.entry dir 0 1 ∨ m'.entry dir 0 1 = 0)) ∧
    ∀ q, q ≠ p → m'.pages child q = m.pages child q ∧ m'.pages vmap q = m.pages vmap q := by
  unfold cloneTable at clone
  dsimp only at clone
  split at clone
  · rename_i absent
    cases clone
    refine ⟨cloned_empty (setWord_outside h.ok h.vmap_unowned (.inr rfl)) ?_ fun t ht => ?_,
      fun q hq => ⟨setWord_of_ne (.inl h.apart), setWord_of_ne (.inr hq)⟩⟩
    · rw [setWord_of_ne (.inl h.apart)]
      exact empty
    · unfold entry
      rw [absent]
      rfl
  · rename_i there
    split at clone
    · rename_i nothing
      cases clone
      have first : Changes m (m.setWord child p 0) dir (fun _ _ => False) (isChild child vmap) :=
        setWord_outside h.ok h.child_unowned (.inl rfl)
      have second : Changes (m.setWord child p 0) ((m.setWord child p 0).setWord vmap p 0) dir
          (fun _ _ => False) (isChild child vmap) :=
        setWord_outside first.ok
          (fun owned => (first.owned owned).elim h.vmap_unowned h.vmap_unsupplied) (.inr rfl)
      refine ⟨cloned_empty (first.trans second) ?_ fun t ht => ?_, fun q hq => ?_⟩
      · rw [setWord_of_ne (.inl h.apart), setWord_pages, if_pos ⟨rfl, rfl⟩]
        rfl
      · unfold entry
        rw [(tableEmpty_iff _ _).1 nothing t ht]
        exact ite_self 0
      · rw [setWord_of_ne (.inl h.apart), setWord_of_ne (.inr hq), setWord_of_ne (.inr hq),
          setWord_of_ne (.inr hq)]
        exact ⟨rfl, rfl⟩
    · obtain ⟨⟨result, m₁⟩, cloned, clone⟩ := map_eq_some_iff.1 clone
      cases result with
      | none => simp at clone
      | some c =>
        simp only [Prod.mk.injEq, true_and] at clone
        generalize hd : (_ ||| PAGE_FLAG_USER : Nat) = word at clone
        have there' : present word = true := by simp [← hd, present_or, present_flag]
        obtain ⟨table, ⟨supplied, unowned, unsupplied⟩, values, zero⟩ :=
          pageTableClone_spec h.ok h.fresh h.curr low (by simpa using there) cloned
        have map₁ : m₁.pages child 1023 = vmap :=
          (table.outside child h.child_unowned h.child_unsupplied id 1023).trans h.map
        have h₁ := h.next table map₁
        have first : Changes m₁ (m₁.setWord vmap p c) dir (fun _ _ => False) (isChild child vmap) :=
          setWord_outside h₁.ok h₁.vmap_unowned (.inr rfl)
        have second : Changes (m₁.setWord vmap p c) m' dir
            (fun _ _ => False) (isChild child vmap) := by
          rw [← clone]
          exact setWord_outside first.ok
            (fun owned => (first.owned owned).elim h₁.child_unowned h₁.child_unsupplied) (.inl rfl)
        have c_ne_child : c ≠ child := fun eq => h.child_unsupplied (eq ▸ supplied)
        have c_ne_vmap : c ≠ vmap := fun eq => h.vmap_unsupplied (eq ▸ supplied)
        have inner := first.trans second
        have pages : ∀ o j, o ≠ child ∨ j ≠ p → o ≠ vmap ∨ j ≠ p →
            m'.pages o j = m₁.pages o j := by
          intro o j h1 h2
          rw [← clone, setWord_of_ne h1, setWord_of_ne h2]
        have slot : m'.pages child p = word := by
          rw [← clone, setWord_pages, if_pos ⟨rfl, rfl⟩]
        have clone_at : m'.pages vmap p = c := by
          rw [← clone, setWord_of_ne (.inl h.apart.symm), setWord_pages, if_pos ⟨rfl, rfl⟩]
        have map' : m'.pages child 1023 = vmap :=
          (pages child 1023 (.inr (by omega)) (.inr (by omega))).trans map₁
        refine ⟨⟨(table.mono (fun _ _ k => k) fun _ k => k.elim).trans
          (inner.mono (fun _ _ k => k.elim) fun _ k => .inl k), ⟨fun t ht below => ?_, fun _ => ?_⟩,
          .inr ((inner.entry 0 (by decide) 1 (by decide) id).trans zero)⟩, fun q hq => ⟨?_, ?_⟩⟩
        · unfold Memory.entry Memory.table
          rw [slot, if_pos there', map', clone_at, pages c t (.inl c_ne_child) (.inl c_ne_vmap)]
          exact values t ht below
        · rw [clone_at]
          exact ⟨fun owned => (inner.owned owned).elim unowned unsupplied,
            fun supplied => unsupplied (inner.suffix.mem supplied),
            fun mine => mine.elim c_ne_child c_ne_vmap⟩
        · rw [pages child q (.inr hq) (.inr hq),
            table.outside child h.child_unowned h.child_unsupplied id]
        · rw [pages vmap q (.inr hq) (.inr hq),
            table.outside vmap h.vmap_unowned h.vmap_unsupplied id]

theorem Cloned.next {parent : Nat → Nat} (h : m.Cloned dir child vmap p parent)
    (map : m.pages child 1023 = vmap) (changes : Changes m m' dir touched (isChild child vmap))
    (slot : ∀ q, q = p ∨ q = 1023 → m'.pages child q = m.pages child q)
    (slot' : m'.pages vmap p = m.pages vmap p) : m'.Cloned dir child vmap p parent := by
  have map' : m'.pages child 1023 = vmap := (slot 1023 (.inr rfl)).trans map
  refine ⟨fun t ht below => ?_, fun there => ?_⟩
  · rw [← h.entry t ht below]
    unfold Memory.entry Memory.table
    rw [slot p (.inl rfl), map, map', slot']
    split
    · rename_i there
      obtain ⟨unowned, unsupplied, other⟩ := h.own there
      exact changes.outside _ unowned unsupplied other t
    · rfl
  · rw [slot p (.inl rfl)] at there
    obtain ⟨unowned, unsupplied, other⟩ := h.own there
    rw [slot']
    exact ⟨fun owned => (changes.owned owned).elim unowned unsupplied,
      fun supplied => unsupplied (changes.suffix.mem supplied), other⟩

/-- The loop: every slot gets the entries the parent has when its turn comes. Only
the staging entry can have changed by then. -/
theorem cloneTables_spec (h : m.CloningDir dir child vmap)
    (low : ∀ p ∈ ps, p < 1023) (nodup : ps.Nodup)
    (empty : ∀ p ∈ ps, present (m.pages child p) = false)
    (clone : cloneTables dir child vmap ps m = some (true, m')) :
    Changes m m' dir stagedAny (isChild child vmap) ∧
      (∀ p ∈ ps, ∃ parent : Nat → Nat, m'.Cloned dir child vmap p parent ∧
        ∀ t < 1024, ps.head? = some p ∨ ¬stagedAny p t → parent t = m.entry dir p t) ∧
      (∀ q, q ∉ ps → m'.pages child q = m.pages child q ∧ m'.pages vmap q = m.pages vmap q) ∧
      (m'.entry dir 0 1 = m.entry dir 0 1 ∨ m'.entry dir 0 1 = 0) := by
  induction ps generalizing m with
  | nil =>
    cases clone
    exact ⟨Changes.of_pages h.ok rfl (suffix_refl _) rfl,
      nofun, fun _ _ => ⟨rfl, rfl⟩, .inl rfl⟩
  | cons p ps ih =>
    obtain ⟨hp, lows⟩ := forall_mem_cons.1 low
    obtain ⟨new, nodup⟩ := nodup_cons.1 nodup
    obtain ⟨emptyp, empties⟩ := forall_mem_cons.1 empty
    unfold cloneTables at clone
    split at clone
    · rename_i m₁ first
      obtain ⟨⟨changes, cloned, stage⟩, others⟩ := cloneTable_spec h hp emptyp first
      have map₁ : m₁.pages child 1023 = vmap := (others 1023 (by omega)).1.trans h.map
      have empty₁ : ∀ q ∈ ps, present (m₁.pages child q) = false := fun q hq => by
        rw [(others q fun eq => new (eq ▸ hq)).1]
        exact empties q hq
      obtain ⟨changes', rest, others', stage'⟩ := ih (h.next changes map₁) lows nodup empty₁ clone
      refine ⟨changes.trans changes', fun q hq => ?_, fun q hq => ?_, ?_⟩
      · rcases mem_cons.1 hq with rfl | hq
        · refine ⟨m.entry dir q, cloned.next map₁ changes' ?_ (others' q new).2,
            fun _ _ _ => rfl⟩
          rintro r (rfl | rfl)
          · exact (others' r new).1
          · exact (others' 1023 fun mem => absurd (lows 1023 mem) (by decide)).1
        · obtain ⟨parent, done, same⟩ := rest q hq
          refine ⟨parent, done, fun t ht apart => ?_⟩
          have apart : ¬stagedAny q t := by
            refine apart.resolve_left fun head => new ?_
            cases head
            exact hq
          rw [same t ht (.inr apart)]
          exact changes.entry q (lows q hq) t ht apart
      · rw [mem_cons, not_or] at hq
        rw [(others' q hq.2).1, (others' q hq.2).2]
        exact others q hq.1
      · rcases stage' with same | zero
        · rw [same]
          exact stage
        · exact .inr zero
    · rename_i stop
      rw [clone] at stop
      exact absurd rfl (stop m')

/-- The memory when the loop of `page_dir_clone` begins. -/
def cloneStart (m : Memory) (child vmap : Nat) (rest : List (Option Nat)) : Memory :=
  (zeroPage { m with supply := rest } child).setWord child 1023 vmap

theorem cloneStart_spec (ok : m.DirOk dir) (fresh : m.Fresh (m.Owned dir)) (curr : m.currDir = dir)
    (supply : m.supply = some child :: some vmap :: rest) :
    (m.cloneStart child vmap rest).CloningDir dir child vmap ∧
      Changes m (m.cloneStart child vmap rest) dir (fun _ _ => False) (· = child) ∧
      ∀ p ∈ range 1023, present ((m.cloneStart child vmap rest).pages child p) = false := by
  obtain ⟨-, unowned, once⟩ := fresh.head supply
  rw [mem_cons, not_or] at once
  have mapUnowned : ¬m.Owned dir vmap := (fresh.unused vmap (by simp [supply])).2
  have mapOnce : some vmap ∉ rest := by
    have nodup := fresh.nodup
    simp only [supply, filterMap_cons, id_eq, nodup_cons] at nodup
    exact fun again => nodup.2.1 (mem_filterMap.2 ⟨_, again, rfl⟩)
  have pages : ∀ o j, (m.cloneStart child vmap rest).pages o j =
      if o = child then (if j = 1023 then vmap else 0) else m.pages o j := by
    intro o j
    simp only [cloneStart, setWord_pages, zeroPage]
    by_cases ho : o = child <;> simp [ho]
  have agree : ∀ o, m.Owned dir o → ∀ j,
      (m.cloneStart child vmap rest).pages o j = m.pages o j := by
    intro o ho j
    rw [pages, if_neg]
    rintro rfl
    exact unowned ho
  obtain ⟨-, -, owned⟩ := owned_congr agree
  have start : Changes m (m.cloneStart child vmap rest) dir (fun _ _ => False) (· = child) :=
    Changes.of_agree ok agree (fun o ho j => by rw [pages, if_neg ho])
      (supply ▸ ⟨[some child, some vmap], rfl⟩) rfl
  refine ⟨⟨start.ok, start.fresh fresh, curr, fun ho => unowned ((owned child).1 ho),
    fun ho => mapUnowned ((owned vmap).1 ho), once.2, mapOnce, fun eq => once.1 (congrArg some eq),
    by rw [pages, if_pos rfl, if_pos rfl]⟩, start, fun p hp => ?_⟩
  have := mem_range.1 hp
  rw [pages, if_pos rfl, if_neg (by omega)]
  rfl

/-- A successful `page_dir_clone` of the current directory: below the bound every
entry of the child is the parent's own, frame and flags; the parent keeps all its
entries, except that the staging entry may have been unmapped. -/
theorem pageDirClone_spec (ok : m.DirOk dir) (fresh : m.Fresh (m.Owned dir))
    (curr : m.currDir = dir) (clone : m.pageDirClone dir = some (some child, m')) :
    (∀ p < 1023, ∀ t < 1024, tableVaddr p t < TASK_LOCAL_BOUND →
      m'.entry child p t = m.entry dir p t) ∧
    (∀ p < 1023, ∀ t < 1024, ¬stagedAny p t → m'.entry dir p t = m.entry dir p t) ∧
    (m'.entry dir 0 1 = m.entry dir 0 1 ∨ m'.entry dir 0 1 = 0) := by
  unfold pageDirClone kvalloc at clone
  rcases hs : m.supply with _ | ⟨_ | object, _ | ⟨_ | vmap, rest⟩⟩
  case cons.some.cons.some =>
    simp only [hs] at clone
    obtain ⟨⟨done, _⟩, loop, clone⟩ := map_eq_some_iff.1 clone
    cases done with
    | false => simp at clone
    | true =>
      simp only [if_true, Prod.mk.injEq, some.injEq] at clone
      obtain ⟨rfl, rfl⟩ := clone
      obtain ⟨h₀, start, empty⟩ := cloneStart_spec ok fresh curr hs
      obtain ⟨changes, slots, -, stage⟩ := cloneTables_spec h₀
        (fun p hp => mem_range.1 hp) nodup_range empty loop
      have same : ∀ p < 1023, ∀ t < 1024,
          (m.cloneStart object vmap rest).entry dir p t = m.entry dir p t :=
        fun p hp t ht => start.entry p hp t ht id
      refine ⟨fun p hp t ht below => ?_, fun p hp t ht apart => ?_, ?_⟩
      · obtain ⟨_, cloned, value⟩ := slots p (mem_range.2 hp)
        rw [cloned.entry t ht below, value t ht ?_, same p hp t ht]
        by_cases first : p = 0
        · left
          rw [first, head?_range]
          rfl
        · exact .inr fun staged => first staged.1
      · rw [changes.entry p hp t ht apart, same p hp t ht]
      · rw [← same 0 (by decide) 1 (by decide)]
        exact stage
  all_goals simp [hs, zeroPage] at clone

/-- Below the bound a table is cloned by links alone, which cannot fail. -/
theorem cloneEntries_links (m : Memory) (orig table : Nat) {is : List Nat} (low : index < 960)
    (small : ∀ i ∈ is, i < 1024) :
    ∃ m', cloneEntries index orig table is m = some (true, m') ∧ m'.supply = m.supply := by
  induction is generalizing m with
  | nil => exact ⟨m, rfl, rfl⟩
  | cons i is ih =>
    obtain ⟨_, small⟩ := forall_mem_cons.1 small
    have below : tableVaddr index i < TASK_LOCAL_BOUND := by
      unfold tableVaddr TASK_LOCAL_BOUND
      omega
    unfold cloneEntries cloneEntry
    dsimp only
    split_ifs
    · exact ih (m.setWord table i 0) small
    · exact ih (m.setWord table i _) small

theorem pageTableClone_links (m : Memory) (orig : Nat)
    (low : index < 960) (supply : m.supply = some table :: rest) :
    ∃ m', m.pageTableClone index orig = some (some table, m') ∧ m'.supply = rest := by
  obtain ⟨m₁, loop, same⟩ := cloneEntries_links { m with supply := rest } orig table low fun i hi =>
    (mem_range (n := 1024)).1 hi
  refine ⟨m₁.unmapPage m₁.currDir PAGE_COPY_VADDR, ?_, ?_⟩
  · unfold pageTableClone kvalloc
    simp only [supply, loop, map_some, if_true]
  · unfold unmapPage
    split <;> exact same

theorem cloneTable_links (child vmap : Nat)
    (low : p < 960 ∨ ∀ t < 1024, m.entry dir p t = 0) (supply : m.supply = objects.map some)
    (enough : objects ≠ []) :
    ∃ m', cloneTable dir child vmap p m = some (true, m') ∧
      (m'.supply = m.supply ∨ m'.supply = objects.tail.map some) := by
  unfold cloneTable
  dsimp only
  split
  · exact ⟨_, rfl, .inl rfl⟩
  rename_i there
  split
  · exact ⟨_, rfl, .inl rfl⟩
  rename_i filled
  rcases low with low | none
  · obtain ⟨_, objects, rfl⟩ := exists_cons_of_ne_nil enough
    obtain ⟨_, clone, rest⟩ := pageTableClone_links m (m.table dir p) low supply
    rw [clone]
    exact ⟨_, rfl, .inr rest⟩
  · refine absurd ((tableEmpty_iff _ _).2 fun t ht => ?_) filled
    have zero := none t ht
    rwa [entry, if_pos (by simpa using there)] at zero

theorem cloneTables_links (h : m.CloningDir dir child vmap)
    (low : ∀ p ∈ ps, p < 1023) (nodup : ps.Nodup)
    (empty : ∀ p ∈ ps, present (m.pages child p) = false)
    (links : ∀ p ∈ ps, p < 960 ∨ ∀ t < 1024, m.entry dir p t = 0)
    (supply : m.supply = objects.map some) (enough : ps.length ≤ objects.length) :
    ∃ m', cloneTables dir child vmap ps m = some (true, m') := by
  induction ps generalizing m objects with
  | nil => exact ⟨m, rfl⟩
  | cons p ps ih =>
    obtain ⟨hp, lows⟩ := forall_mem_cons.1 low
    obtain ⟨new, nodup⟩ := nodup_cons.1 nodup
    obtain ⟨emptyp, empties⟩ := forall_mem_cons.1 empty
    obtain ⟨linkp, links⟩ := forall_mem_cons.1 links
    rw [length_cons] at enough
    obtain ⟨m₁, first, left⟩ := cloneTable_links child vmap linkp supply
      (length_pos_iff.1 (by omega))
    obtain ⟨⟨changes, -, -⟩, others⟩ := cloneTable_spec h hp emptyp first
    have map₁ : m₁.pages child 1023 = vmap := (others 1023 (by omega)).1.trans h.map
    have empty₁ : ∀ q ∈ ps, present (m₁.pages child q) = false := fun q hq => by
      rw [(others q fun eq => new (eq ▸ hq)).1]
      exact empties q hq
    have links₁ : ∀ q ∈ ps, q < 960 ∨ ∀ t < 1024, m₁.entry dir q t = 0 := by
      refine fun q hq => or_iff_not_imp_left.2 fun high t ht => ?_
      rw [changes.entry q (lows q hq) t ht fun staged => high (by have := staged.1; omega)]
      exact (links q hq).resolve_left high t ht
    unfold cloneTables
    rw [first]
    rcases left with same | used
    · exact ih (h.next changes map₁) lows nodup empty₁ links₁ (same.trans supply) (by omega)
    · exact ih (h.next changes map₁) lows nodup empty₁ links₁ used (by rw [length_tail]; omega)

/-- With memory for the objects of the clone, and no page at or above the bound,
`page_dir_clone` succeeds. -/
theorem pageDirClone_links (ok : m.DirOk dir)
    (fresh : m.Fresh (m.Owned dir)) (curr : m.currDir = dir)
    (links : ∀ p < 1023, p < 960 ∨ ∀ t < 1024, m.entry dir p t = 0)
    (supply : m.supply = objects.map some) (enough : 1025 ≤ objects.length) :
    ∃ child m', m.pageDirClone dir = some (some child, m') := by
  rcases objects with _ | ⟨child, _ | ⟨vmap, objects⟩⟩
  case cons.cons =>
    simp only [length_cons] at enough
    obtain ⟨h₀, start, empty⟩ := cloneStart_spec ok fresh curr supply
    obtain ⟨m', loop⟩ := cloneTables_links h₀ (fun p hp => mem_range.1 hp) nodup_range
      empty (fun p hp => (links p (mem_range.1 hp)).imp_right fun none t ht =>
        (start.entry p (mem_range.1 hp) t ht id).trans (none t ht)) rfl
      (by rw [length_range]; omega)
    refine ⟨child, m', ?_⟩
    unfold pageDirClone kvalloc
    simp only [supply]
    change Option.map _ (cloneTables dir child vmap (range 1023)
      (m.cloneStart child vmap (objects.map some))) = _
    rw [loop]
    rfl
  all_goals simp at enough

end Memory

end Os0
