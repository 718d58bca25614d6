import Os0.Process.HostileImage
import Os0.Process.TaskFork

/-! What `sys_vfork` and the child that shares the parent's page directory leave of the parent's
memory. -/
namespace Os0

open Bytes List Option Memory

/-- The two functions are in pages of the kernel. -/
structure ForkEnv.Kernel (env : ForkEnv) : Prop where
  exitHalt : RELOC_VADDR ≤ env.exitHalt ∧ env.exitHalt < 0xffc00000 ∧ env.exitHalt % 4096 = 0
  trampoline : RELOC_VADDR ≤ env.trampoline ∧ env.trampoline < 0xffc00000 ∧
    env.trampoline % 4096 = 0

/-- `_task_fork` maps the new stack here as well. -/
def Staged (v : Nat) : Prop := PAGE_COPY_VADDR ≤ v ∧ v < PAGE_COPY_VADDR + TASK_STACK_SIZE

namespace Memory

variable {m m' : Memory} {v f : Nat} {bytes : Nat → UInt8} {is : List Nat} {env : ForkEnv} {dir : Nat}

theorem mem_stackOffsets {i : Nat} : i ∈ pageRange 0 TASK_STACK_SIZE ↔ i < TASK_STACK_SIZE ∧
    i % 4096 = 0 := by
  rw [mem_pageRange (by decide)]
  simp

theorem mapStack_dir {missing : Option Nat} (h : m.mapStack dir is = some (missing, m')) :
    m'.currDir = m.currDir := by
  induction is generalizing m with
  | nil =>
    cases h
    rfl
  | cons i is ih =>
    have start := m.allocPage_fields.2.2.1
    unfold mapStack at h
    split at h
    · cases h
      exact start
    · obtain ⟨_, first, h⟩ := bind_eq_some_iff.1 h
      obtain ⟨_, second, h⟩ := bind_eq_some_iff.1 h
      exact (ih h).trans ((mapPage_fields second).2.1.trans ((mapPage_fields first).2.1.trans start))

theorem copyStack_fields (h : m.copyStack = some m') :
    m'.pages = m.pages ∧ m'.currDir = m.currDir ∧ m'.supply = m.supply ∧
      m'.pageStack = m.pageStack ∧ m'.currAddr = m.currAddr := by
  refine Runs.foldlM_keeps (I := fun n => n.pages = m.pages ∧ n.currDir = m.currDir ∧
    n.supply = m.supply ∧ n.pageStack = m.pageStack ∧ n.currAddr = m.currAddr) h
    ⟨rfl, rfl, rfl, rfl, rfl⟩ fun i _ n n' ⟨pages, curr, supply, stack, addr⟩ copied => ?_
  obtain ⟨pages₁, curr₁, supply₁, stack₁, addr₁⟩ := copyPage_fields copied
  exact ⟨pages₁.trans pages, curr₁.trans curr, supply₁.trans supply, stack₁.trans stack,
    addr₁.trans addr⟩

theorem childPages_cases {child : Nat} (h : m.childPages env dir = some (some child, m')) :
    child = dir ∧ ∃ m₁ m₂ m₃, m.mapStack dir (pageRange 0 TASK_STACK_SIZE) = some (none, m₁) ∧
      m₁.copyStack = some m₂ ∧
      m₂.mapPage dir (m₂.getPaddr m₂.currDir env.exitHalt) TASK_EXIT_PAGE PAGE_FLAG_USER =
        some m₃ ∧
      m₃.mapPage dir (m₃.getPaddr m₃.currDir env.trampoline) env.trampoline PAGE_FLAG_USER =
        some m' := by
  obtain ⟨⟨missing, m₁⟩, stack, h⟩ := bind_eq_some_iff.1 h
  cases missing with
  | some i => cases h
  | none =>
    obtain ⟨m₂, copied, h⟩ := bind_eq_some_iff.1 h
    obtain ⟨m₃, halt, h⟩ := bind_eq_some_iff.1 h
    obtain ⟨_, trampoline, h⟩ := map_eq_some_iff.1 h
    cases h
    exact ⟨rfl, m₁, m₂, m₃, stack, copied, halt, trampoline⟩

theorem childPages_dir {child : Nat} (h : m.childPages env dir = some (some child, m')) :
    m'.currDir = m.currDir ∧ child = dir := by
  obtain ⟨rfl, _, _, _, stack, copied, halt, trampoline⟩ := childPages_cases h
  exact ⟨(mapPage_fields trampoline).2.1.trans ((mapPage_fields halt).2.1.trans
    ((copyStack_fields copied).2.1.trans (mapStack_dir stack))), rfl⟩

section Kept

section

variable (held : Held dir v f bytes m)
include held

theorem Held.stackPage {i : Nat} (reserved : Reserved f m) (user : v < RELOC_VADDR)
    (apart : ¬Staged v) (offset : i < TASK_STACK_SIZE ∧ i % 4096 = 0) (nonzero : m.allocPage.1 ≠ 0)
    {m₁ m₂ : Memory} (first : m.allocPage.2.mapPage dir m.allocPage.1 (TASK_STACK_BOTTOM + i)
      (PAGE_FLAG_WRITE ||| PAGE_FLAG_USER) = some m₁)
    (second : m₁.mapPage m₁.currDir m.allocPage.1 (PAGE_COPY_VADDR + i)
      (PAGE_FLAG_WRITE ||| PAGE_FLAG_USER) = some m₂) : Held dir v f bytes m₂ ∧ Reserved f m₂ := by
  obtain ⟨reserved₁, _, aligned, small⟩ := reserved.allocPage held.taken nonzero
  obtain ⟨-, -, stack₁, addr₁⟩ := mapPage_fields first
  obtain ⟨-, -, stack₂, addr₂⟩ := mapPage_fields second
  have different : m.allocPage.1 % 4294967296 ≠ f := by rwa [Nat.mod_eq_of_lt small]
  unfold Staged PAGE_COPY_VADDR TASK_STACK_SIZE at apart
  unfold TASK_STACK_SIZE at offset
  unfold RELOC_VADDR at user
  unfold TASK_STACK_BOTTOM at first
  unfold PAGE_COPY_VADDR at second
  have held₁ := held.allocPage.mapPage (by omega) (by omega) aligned (fun _ => different)
    (fun same => by omega) first
  rw [held₁.curr] at second
  have held₂ := held₁.mapPage (by omega) (by omega) aligned (fun _ => different)
    (fun same => by omega) second
  exact ⟨held₂, (reserved₁.congr stack₁ addr₁).congr stack₂ addr₂⟩

theorem Held.mapStack (reserved : Reserved f m) (user : v < RELOC_VADDR) (apart : ¬Staged v)
    (offsets : ∀ i ∈ is, i < TASK_STACK_SIZE ∧ i % 4096 = 0)
    (h : m.mapStack dir is = some (none, m')) : Held dir v f bytes m' ∧ Reserved f m' := by
  induction is generalizing m with
  | nil =>
    cases h
    exact ⟨held, reserved⟩
  | cons i is ih =>
    obtain ⟨offset, rest⟩ := forall_mem_cons.1 offsets
    unfold mapStack at h
    split at h
    · cases h
    · rename_i nonzero
      obtain ⟨_, first, h⟩ := bind_eq_some_iff.1 h
      obtain ⟨_, second, h⟩ := bind_eq_some_iff.1 h
      obtain ⟨held₂, reserved₂⟩ := held.stackPage reserved user apart offset nonzero first second
      exact ih held₂ reserved₂ rest h

theorem Held.copyStack (apart : ¬Staged v) (h : m.copyStack = some m') :
    Held dir v f bytes m' ∧ m'.pageStack = m.pageStack ∧ m'.currAddr = m.currAddr := by
  refine Runs.foldlM_keeps (I := fun n => Held dir v f bytes n ∧ n.pageStack = m.pageStack ∧
    n.currAddr = m.currAddr) h ⟨held, rfl, rfl⟩ fun i mem n n' ⟨held, stack, addr⟩ copied => ?_
  have offset := mem_stackOffsets.1 mem
  have target : PAGE_COPY_VADDR + i < 0xffc00000 ∧ frame (PAGE_COPY_VADDR + i) ≠ v := by
    unfold Staged PAGE_COPY_VADDR TASK_STACK_SIZE at *
    unfold frame
    omega
  obtain ⟨held₁, stack₁, addr₁⟩ := held.copyPage target.1 target.2 copied
  exact ⟨held₁, stack₁.trans stack, addr₁.trans addr⟩

/-- A page of the kernel is mapped a second time. -/
theorem Held.mapAlias {src dst flags : Nat} (user : v < RELOC_VADDR)
    (kernel : RELOC_VADDR ≤ src ∧ src < 0xffc00000 ∧ src % 4096 = 0)
    (target : RELOC_VADDR ≤ dst ∧ dst < 0xffc00000 ∧ dst % 4096 = 0)
    (h : m.mapPage dir (m.getPaddr m.currDir src) dst flags = some m') :
    Held dir v f bytes m' ∧ m'.pageStack = m.pageStack ∧ m'.currAddr = m.currAddr := by
  obtain ⟨-, -, stack, addr⟩ := mapPage_fields h
  rw [held.curr] at h
  obtain ⟨aligned, small⟩ := getPaddr_page (m := m) kernel.2.2 dir
  refine ⟨held.mapPage target.2.1 target.2.2 aligned (fun _ => ?_) (fun same => by omega) h,
    stack, addr⟩
  rw [Nat.mod_eq_of_lt small]
  exact held.alone src kernel.2.1 kernel.2.2 (by omega)

theorem Held.childPages {child : Nat} (reserved : Reserved f m) (user : v < RELOC_VADDR)
    (apart : ¬Staged v) (kernel : env.Kernel) (h : m.childPages env dir = some (some child, m')) :
    Held dir v f bytes m' ∧ Reserved f m' := by
  obtain ⟨-, _, _, _, stack, copied, halt, trampoline⟩ := childPages_cases h
  obtain ⟨held₁, reserved₁⟩ := held.mapStack reserved user apart (fun i => mem_stackOffsets.1) stack
  obtain ⟨held₂, stack₂, addr₂⟩ := held₁.copyStack apart copied
  obtain ⟨held₃, stack₃, addr₃⟩ := held₂.mapAlias user kernel.exitHalt (by decide) halt
  obtain ⟨held₄, stack₄, addr₄⟩ :=
    held₃.mapAlias user kernel.trampoline kernel.trampoline trampoline
  exact ⟨held₄, reserved₁.congr (stack₄.trans (stack₃.trans stack₂))
    (addr₄.trans (addr₃.trans addr₂))⟩

end

end Kept

section Lost

/-- The page does not have the frame any more. -/
structure Lost (dir v f : Nat) (m : Memory) : Prop where
  curr : m.currDir = dir
  ok : m.DirOk dir
  fresh : m.Fresh (m.Owned dir)
  gone : m.getPaddr dir v ≠ f

theorem Lost.mapPage {w paddr flags : Nat} (curr : m.currDir = dir) (ok : m.DirOk dir)
    (fresh : m.Fresh (m.Owned dir)) (gone : w ≠ v → m.getPaddr dir v ≠ f)
    (pages : v < 0xffc00000 ∧ v % 4096 = 0 ∧ w < 0xffc00000 ∧ w % 4096 = 0)
    (aligned : paddr % 4096 = 0) (other : w = v → paddr % 4294967296 ≠ f)
    (h : m.mapPage dir paddr w flags = some m') : Lost dir v f m' := by
  obtain ⟨lowV, baseV, low, base⟩ := pages
  obtain ⟨ok', fresh', here, others⟩ := mapPage_entryAt ok fresh low base h
  have page := frame_base baseV
  refine ⟨(mapPage_fields h).2.1.trans curr, ok', fresh', ?_⟩
  rw [getPaddr_base baseV]
  by_cases same : w = v
  · rw [here v (page.trans same.symm), frame_entry aligned]
    exact other same
  · rw [others v lowV (by omega), ← getPaddr_base baseV]
    exact gone same

/-- The pages of the stack and those where it is staged lose what they had. -/
theorem Lost.mapStack (curr : m.currDir = dir) (ok : m.DirOk dir) (fresh : m.Fresh (m.Owned dir))
    (reserved : Reserved f m) (taken : f ∉ m.pageStack) (page : v < 0xffc00000 ∧ v % 4096 = 0)
    (gone : (∀ i ∈ is, PAGE_COPY_VADDR + i ≠ v ∧ TASK_STACK_BOTTOM + i ≠ v) →
      m.getPaddr dir v ≠ f) (offsets : ∀ i ∈ is, i < TASK_STACK_SIZE ∧ i % 4096 = 0)
    (h : m.mapStack dir is = some (none, m')) : Lost dir v f m' := by
  induction is generalizing m with
  | nil =>
    cases h
    exact ⟨curr, ok, fresh, gone (by simp)⟩
  | cons i is ih =>
    obtain ⟨offset, rest⟩ := forall_mem_cons.1 offsets
    unfold TASK_STACK_SIZE at offset
    unfold mapStack at h
    split at h
    · cases h
    · rename_i nonzero
      obtain ⟨m₁, first, h⟩ := bind_eq_some_iff.1 h
      obtain ⟨m₂, second, h⟩ := bind_eq_some_iff.1 h
      obtain ⟨reserved₁, _, aligned, small⟩ := reserved.allocPage taken nonzero
      have different : m.allocPage.1 % 4294967296 ≠ f := by rwa [Nat.mod_eq_of_lt small]
      obtain ⟨pages, -, dir₀, -⟩ := m.allocPage_fields
      obtain ⟨-, dir₁, stack₁, addr₁⟩ := mapPage_fields first
      obtain ⟨-, dir₂, stack₂, addr₂⟩ := mapPage_fields second
      have curr₁ : m₁.currDir = dir := dir₁.trans (dir₀.trans curr)
      rw [curr₁] at second
      have start : Changes m m.allocPage.2 dir (fun _ _ => False) fun _ => False :=
        allocPage_changes ok
      have stackPage : TASK_STACK_BOTTOM + i < 0xffc00000 ∧ (TASK_STACK_BOTTOM + i) % 4096 = 0 := by
        unfold TASK_STACK_BOTTOM
        omega
      have copyPage : PAGE_COPY_VADDR + i < 0xffc00000 ∧ (PAGE_COPY_VADDR + i) % 4096 = 0 := by
        unfold PAGE_COPY_VADDR
        omega
      obtain ⟨ok₁, fresh₁, -, -⟩ := mapPage_entryAt start.ok (start.fresh fresh) stackPage.1
        stackPage.2 first
      obtain ⟨ok₂, fresh₂, -, -⟩ := mapPage_entryAt ok₁ fresh₁ copyPage.1 copyPage.2 second
      have lost : (∀ j ∈ is, PAGE_COPY_VADDR + j ≠ v ∧ TASK_STACK_BOTTOM + j ≠ v) →
          Lost dir v f m₂ := by
        intro notLater
        refine Lost.mapPage curr₁ ok₁ fresh₁ (fun apart => ?_) ⟨page.1, page.2, copyPage⟩ aligned
          (fun _ => different) second
        refine (Lost.mapPage (dir₀.trans curr) start.ok (start.fresh fresh) (fun apart' => ?_)
          ⟨page.1, page.2, stackPage⟩ aligned (fun _ => different) first).gone
        rw [getPaddr_congr pages]
        exact gone (forall_mem_cons.2 ⟨⟨apart, apart'⟩, notLater⟩)
      refine ih (dir₂.trans curr₁) ok₂ fresh₂
        ((reserved₁.congr stack₁ addr₁).congr stack₂ addr₂) ?_ (fun later => (lost later).gone)
        rest h
      rw [stack₂, stack₁]
      exact fun mem => taken (m.allocPage_stack f mem)

theorem Lost.of_pages (lost : Lost dir v f m) (pages : m'.pages = m.pages)
    (curr : m'.currDir = m.currDir) (supply : m'.supply = m.supply) : Lost dir v f m' := by
  have changes : Changes m m' dir (fun _ _ => False) fun _ => False :=
    Changes.of_agree lost.ok (fun _ _ _ => by rw [pages]) (fun _ _ _ => by rw [pages])
      (supply ▸ suffix_refl _) curr
  refine ⟨curr.trans lost.curr, changes.ok, changes.fresh lost.fresh, ?_⟩
  rw [getPaddr_congr pages]
  exact lost.gone

theorem Lost.mapAlias {src dst flags : Nat} (lost : Lost dir v f m)
    (page : v < 0xffc00000 ∧ v % 4096 = 0) (base : src % 4096 = 0)
    (target : dst < 0xffc00000 ∧ dst % 4096 = 0) (other : dst ≠ v)
    (h : m.mapPage dir (m.getPaddr m.currDir src) dst flags = some m') : Lost dir v f m' := by
  rw [lost.curr] at h
  exact Lost.mapPage lost.curr lost.ok lost.fresh (fun _ => lost.gone)
    ⟨page.1, page.2, target⟩ (getPaddr_page base dir).1 (fun same => absurd same other) h

theorem Lost.childPages {child : Nat} (curr : m.currDir = dir) (ok : m.DirOk dir)
    (fresh : m.Fresh (m.Owned dir)) (reserved : Reserved f m) (taken : f ∉ m.pageStack)
    (page : v < 0xffc00000 ∧ v % 4096 = 0)
    (covered : ∃ i ∈ pageRange 0 TASK_STACK_SIZE, PAGE_COPY_VADDR + i = v ∨ TASK_STACK_BOTTOM + i = v)
    (other : TASK_EXIT_PAGE ≠ v ∧ env.trampoline ≠ v) (kernel : env.Kernel)
    (h : m.childPages env dir = some (some child, m')) : Lost dir v f m' := by
  obtain ⟨-, _, _, _, stack, copied, halt, trampoline⟩ := childPages_cases h
  have lost₁ := Lost.mapStack curr ok fresh reserved taken page
    (fun none => by
      obtain ⟨i, mem, here⟩ := covered
      exact absurd here (not_or.2 (none i mem)))
    (fun i => mem_stackOffsets.1) stack
  obtain ⟨pages₂, dir₂, supply₂, -⟩ := copyStack_fields copied
  have lost₂ := lost₁.of_pages pages₂ dir₂ supply₂
  have lost₃ := lost₂.mapAlias page kernel.exitHalt.2.2 (by decide) other.1 halt
  exact lost₃.mapAlias page kernel.trampoline.2.2 kernel.trampoline.2 other.2 trampoline

end Lost

end Memory

namespace AddrSpace

variable {s s' : AddrSpace} {rs : List Region} {env : ForkEnv} {copy : Bool} {dir : Nat}
  {regions : Option (SortedArray Nat)}

theorem newTable_mem {made : Bool} (h : s.newTable = (made, s')) : s'.mem = s.mem := by
  unfold newTable at h
  split at h
  · rename_i s₁ hk
    cases h
    exact (kmalloc_fields hk).1
  · rename_i s₁ hk
    split at h
    all_goals
      rename_i hk'
      cases h
      exact (kmalloc_fields hk').1.trans (kmalloc_fields hk).1

theorem copyRegions_mem {junk : Int} {made done : Bool} {ps : List Nat}
    (h : s.copyRegions junk made ps = some (done, s')) : s'.mem = s.mem := by
  induction ps generalizing s with
  | nil =>
    cases h
    rfl
  | cons p ps ih =>
    unfold copyRegions at h
    cases hk : s.kmalloc with
    | mk name s₁ =>
      rw [hk] at h
      have mem := (kmalloc_fields hk).1
      cases name with
      | none =>
        cases h
        exact mem
      | some =>
        dsimp only at h
        split at h
        · cases h
        · obtain ⟨r, -, h⟩ := bind_eq_some_iff.1 h
          obtain ⟨_, added, h⟩ := bind_eq_some_iff.1 h
          exact (ih h).trans ((addRegion_mem added).trans
            ((countRef_fields s₁ r.ino 1).1.trans mem))

theorem taskFork_cases (h : s.taskFork env copy = some (some (dir, regions), s')) :
    ∃ (a₁ : AddrSpace) (made : Bool) (a₂ : AddrSpace), s.mem.taskPages env copy = some (some dir, a₁.mem) ∧
      a₁.regions = .place PROCESS_MMAP_LIMIT ∧ a₁.records = s.records ∧ s.next ≤ a₁.next ∧
      a₁.copyRegions env.junk made s.regions.elems = some (true, a₂) ∧
      regions = (if made then some a₂.regions else none) ∧
      s'.mem = a₂.mem ∧ s'.records = a₂.records ∧ a₂.next ≤ s'.next := by
  unfold taskFork at h
  split at h
  · cases h
  · obtain ⟨⟨found, m⟩, pages, h⟩ := bind_eq_some_iff.1 h
    cases found with
    | none => cases h
    | some =>
      dsimp only at h
      split at h
      · cases h
      · rename_i a hk
        cases table : a.newTable with
        | mk made a₁ =>
          rw [table] at h
          obtain ⟨⟨done, a₂⟩, copied, h⟩ := bind_eq_some_iff.1 h
          cases done with
          | false => cases h
          | true =>
            dsimp only at h
            split at h
            · cases h
            · rename_i hk'
              cases h
              obtain ⟨mem, regions, records, -, -, next, -⟩ := kmalloc_fields hk
              obtain ⟨regions₁, records₁, -, next₁, -⟩ := newTable_fields table
              obtain ⟨mem₃, regions₃, records₃, -, -, next₃, -⟩ := kmalloc_fields hk'
              have mem₁ := (newTable_mem table).trans mem
              refine ⟨a₁, made, a₂, ?_, regions₁.trans regions, records₁.trans records, ?_, copied,
                ?_, mem₃, records₃, next₃⟩
              · rw [pages, mem₁]
              · exact next.trans next₁
              · rw [regions₃]

/-- The child releases the pages of the parent's regions. -/
theorem forkChild_regions (t : Rows s rs)
    (h : s.taskFork env copy = some (some (dir, regions), s')) :
    ∀ v, v ∈ (s'.forkChild dir regions).regionPages ↔ v ∈ s.regionPages := by
  obtain ⟨a₁, made, _, -, regions₁, records₁, next₁, copied, table, -, records', next'⟩ :=
    taskFork_cases h
  cases made with
  | false =>
    have none : s.regions.elems = [] := by
      cases elems : s.regions.elems with
      | nil => rfl
      | cons p =>
        rw [elems] at copied
        unfold copyRegions at copied
        split at copied <;> cases copied
    rw [table]
    simp [forkChild, SortedArray.place, regionPages, AddrSpace.table, none]
  | true =>
    have t₁ : Rows a₁ [] := by
      constructor <;> simp [regions₁, SortedArray.place]
    have named : ∀ p ∈ s.regions.elems, p < a₁.next := fun p hp =>
      lt_of_lt_of_le (t.named p hp) next₁
    obtain ⟨rs', rows, -, all, perm⟩ := copyRegions_spec t₁ (by
        have := t.size
        rw [t.length_eq]
        simpa using this) named (by
        intro p hp r hr
        rw [records₁] at hr
        have mem : r ∈ s.table := mem_filterMap.2 ⟨p, hp, hr⟩
        rw [t.table_eq] at mem
        exact t.whole r mem) copied
    rw [if_pos rfl] at all
    rw [records₁, take_of_length_le
      (le_trans (length_filterMap_le ..) (by omega))] at perm
    have child : Rows (s'.forkChild dir regions) rs' := by
      rw [table]
      exact rows.congr rfl records' next'
    intro v
    have copies : rs'.Perm (rs.map fun r => { r with offset := env.junk }) := by
      rw [← t.table_eq]
      exact perm
    simp only [regionPages, child.table_eq, t.table_eq, mem_flatMap]
    constructor
    · rintro ⟨r, hr, hv⟩
      obtain ⟨r₀, hr₀, rfl⟩ := mem_map.1 (copies.mem_iff.1 hr)
      exact ⟨r₀, hr₀, hv⟩
    · rintro ⟨r, hr, hv⟩
      exact ⟨_, copies.mem_iff.2 (mem_map_of_mem hr), hv⟩

/-- The pages of the regions and of the heap. -/
def userPages (s : AddrSpace) : List Nat := s.regionPages ++ pageRange s.initBreak s.brk

/-- The pages of the regions and of the heap of `s` that are mapped have the same frames in `m`,
with the same contents, and none of these is free. -/
def PagesKept (s : AddrSpace) (m : Memory) : Prop :=
  ∀ v ∈ s.userPages, present (s.mem.entryAt s.mem.currDir v) = true →
    present (m.entryAt s.mem.currDir v) = true ∧
    frame (m.entryAt s.mem.currDir v) = frame (s.mem.entryAt s.mem.currDir v) ∧
    m.frames (frame (s.mem.entryAt s.mem.currDir v)) =
      s.mem.frames (frame (s.mem.entryAt s.mem.currDir v)) ∧
    frame (s.mem.entryAt s.mem.currDir v) ∉ m.pageStack

/-- A process whose regions and heap are in user space, in frames of their own that are not
free. -/
structure Parent (s : AddrSpace) (rs : List Region) : Prop where
  rows : Rows s rs
  user : ∀ v ∈ s.userPages, v < RELOC_VADDR ∧ v % 4096 = 0
  held : ∀ v ∈ s.userPages, present (s.mem.entryAt s.mem.currDir v) = true →
    Memory.Held s.mem.currDir v (frame (s.mem.entryAt s.mem.currDir v))
      (s.mem.frames (frame (s.mem.entryAt s.mem.currDir v))) s.mem ∧
    Memory.Reserved (frame (s.mem.entryAt s.mem.currDir v)) s.mem

section Kept

variable {m : Memory}

theorem PagesKept.of_held
    (held : ∀ v ∈ s.userPages, present (s.mem.entryAt s.mem.currDir v) = true →
      Memory.Held s.mem.currDir v (frame (s.mem.entryAt s.mem.currDir v))
        (s.mem.frames (frame (s.mem.entryAt s.mem.currDir v))) m) : PagesKept s m := by
  intro v hv there
  have kept := held v hv there
  exact ⟨kept.there, kept.mapped, kept.bytes, kept.taken⟩

theorem PagesKept.paddr (parent : Parent s rs) (kept : PagesKept s m) {v : Nat}
    (hv : v ∈ s.userPages) (there : present (s.mem.entryAt s.mem.currDir v) = true) :
    m.getPaddr s.mem.currDir v = frame (s.mem.entryAt s.mem.currDir v) := by
  have small := (parent.held v hv there).1.small
  rw [getPaddr_base (parent.user v hv).2, (kept v hv there).2.1, add32_eq (by omega),
    add_zero]

section Call

variable (parent : Parent s rs) (kernel : env.Kernel)
  (forked : s.taskFork env false = some (some (dir, regions), s'))

include forked

theorem vfork_pages : s.mem.childPages env s.mem.currDir = some (some dir, s'.mem) := by
  obtain ⟨_, _, _, pages, -, -, -, copied, -, mem', -⟩ := taskFork_cases forked
  rw [mem', copyRegions_mem copied]
  exact pages

/-- The child has the memory and the directory of the parent. -/
theorem vfork_shares : (s'.forkChild dir regions).mem = s'.mem := by
  obtain ⟨curr, rfl⟩ := childPages_dir (vfork_pages forked)
  rw [← curr]
  rfl

include parent kernel

/-- A page that is not used for the new stack survives the call. -/
theorem vfork_held {v : Nat} (hv : v ∈ s.userPages)
    (there : present (s.mem.entryAt s.mem.currDir v) = true) (apart : ¬Staged v) :
    Memory.Held s.mem.currDir v (frame (s.mem.entryAt s.mem.currDir v))
      (s.mem.frames (frame (s.mem.entryAt s.mem.currDir v))) s'.mem ∧
    Memory.Reserved (frame (s.mem.entryAt s.mem.currDir v)) s'.mem := by
  obtain ⟨held, reserved⟩ := parent.held v hv there
  exact held.childPages reserved (parent.user v hv).1 apart kernel (vfork_pages forked)

theorem vfork_lost {v : Nat} (hv : v ∈ s.userPages)
    (there : present (s.mem.entryAt s.mem.currDir v) = true) (staged : Staged v) :
    Memory.Lost s.mem.currDir v (frame (s.mem.entryAt s.mem.currDir v)) s'.mem := by
  obtain ⟨held, reserved⟩ := parent.held v hv there
  have user := (parent.user v hv).1
  have high := kernel.trampoline.1
  unfold Staged PAGE_COPY_VADDR TASK_STACK_SIZE at staged
  have covered : ∃ i ∈ pageRange 0 TASK_STACK_SIZE,
      PAGE_COPY_VADDR + i = v ∨ TASK_STACK_BOTTOM + i = v := by
    refine ⟨v - 0x1000, ?_, .inl (Nat.add_sub_cancel' staged.1)⟩
    rw [mem_stackOffsets]
    have base := held.base
    unfold TASK_STACK_SIZE
    omega
  refine Memory.Lost.childPages held.curr held.ok held.fresh reserved held.taken
    ⟨held.low, held.base⟩ covered ⟨?_, by omega⟩ kernel (vfork_pages forked)
  unfold TASK_EXIT_PAGE
  omega

/-- What the call itself does to the parent. -/
theorem vfork_keeps_iff : PagesKept s s'.mem ↔
    ∀ v ∈ s.userPages, present (s.mem.entryAt s.mem.currDir v) = true → ¬Staged v := by
  constructor
  case mp =>
    intro kept v hv there staged
    exact (vfork_lost parent kernel forked hv there staged).gone (kept.paddr parent hv there)
  case mpr =>
    intro apart
    exact .of_held fun v hv there => (vfork_held parent kernel forked hv there (apart v hv there)).1

end Call

end Kept

section Exit

theorem destroyRegions_breaks (h : s.destroyRegions = some s') :
    s'.initBreak = s.initBreak ∧ s'.brk = s.brk := by
  unfold destroyRegions at h
  split at h <;> cases h
  exact ⟨rfl, rfl⟩

theorem processExit_mem (h : s.processExit false = some s') :
    s'.mem = (s.released.1.releaseFrames (pageRange s.initBreak s.brk)).releaseFrames
      (pageRange TASK_STACK_BOTTOM TASK_STACK_ADDR) := by
  obtain ⟨a, destroyed, eq⟩ := map_eq_some_iff.1 h
  have mem := destroyRegions_mem destroyed
  obtain ⟨initBreak, brk⟩ := destroyRegions_breaks destroyed
  rw [← eq]
  simp only [Bool.false_eq_true, if_false]
  rw [mem, initBreak, brk]

/-- The release of the regions, and of the frames of pages of the kernel, spares a page. -/
theorem release_held {v f : Nat} {bytes : Nat → UInt8} {vs : List Nat}
    (held : Memory.Held s.mem.currDir v f bytes s.mem) (user : v < RELOC_VADDR)
    (pages : ∀ w ∈ s.regionPages, w < 0xffc00000 ∧ w % 4096 = 0 ∧ w ≠ v)
    (kernel : ∀ w ∈ vs, RELOC_VADDR ≤ w ∧ w < 0xffc00000 ∧ w % 4096 = 0) :
    Memory.Held s.mem.currDir v f bytes (s.released.1.releaseFrames vs) := by
  have released : Memory.Held s.mem.currDir v f bytes s.released.1 := by
    rw [released_eq]
    exact held.releasePages [] pages
  refine released.releaseFrames fun w mem => ?_
  obtain ⟨_, low, base⟩ := kernel w mem
  exact ⟨low, base, by omega⟩

/-- The pages of the regions are unmapped, and no other page. -/
theorem release_entries (own : s.mem.OwnTables s.mem.currDir)
    (pages : ∀ v ∈ s.regionPages, v < 0xffc00000 ∧ v % 4096 = 0) (vs : List Nat) :
    ∀ w < 0xffc00000, (s.released.1.releaseFrames vs).entryAt s.mem.currDir w =
      if frame w ∈ s.regionPages then 0 else s.mem.entryAt s.mem.currDir w := by
  intro w low
  have entries := (releasePages_spec [] own pages).1 w low
  rw [← released_eq] at entries
  rw [entryAt_congr (releaseFrames_fields s.released.1 vs).1, entries]

/-- Nothing of the parent is in the way: its regions have no mapped page, and its heap has none
where the new stack is mapped. -/
def Spared (s : AddrSpace) : Prop :=
  (∀ v ∈ s.regionPages, present (s.mem.entryAt s.mem.currDir v) = false) ∧
  ∀ v ∈ pageRange s.initBreak s.brk, present (s.mem.entryAt s.mem.currDir v) = true → ¬Staged v

theorem Spared.region {v : Nat} (spared : Spared s)
    (there : present (s.mem.entryAt s.mem.currDir v) = true) : v ∉ s.regionPages := by
  intro mem
  rw [spared.1 v mem] at there
  cases there

theorem Spared.apart (spared : Spared s) :
    ∀ v ∈ s.userPages, present (s.mem.entryAt s.mem.currDir v) = true → ¬Staged v := by
  intro v mem there
  exact spared.2 v ((mem_append.1 mem).resolve_left (spared.region there)) there

section Child

variable (parent : Parent s rs) (kernel : env.Kernel)
  (forked : s.taskFork env false = some (some (dir, regions), s'))

include parent forked

/-- The child has the directory of the parent, and its regions have the same pages. -/
theorem forkChild_pages : (s'.forkChild dir regions).mem.currDir = s.mem.currDir ∧
    (∀ v, v ∈ (s'.forkChild dir regions).regionPages ↔ v ∈ s.regionPages) ∧
    ∀ v ∈ (s'.forkChild dir regions).regionPages, v < 0xffc00000 ∧ v % 4096 = 0 := by
  have pages := forkChild_regions parent.rows forked
  refine ⟨?_, pages, fun v mem => ?_⟩
  · rw [vfork_shares forked]
    exact (childPages_dir (vfork_pages forked)).1
  · obtain ⟨low, base⟩ := parent.user v (mem_append_left _ ((pages v).1 mem))
    unfold RELOC_VADDR at low
    exact ⟨by omega, base⟩

include kernel

/-- The release of the child's regions takes the pages of the parent's. -/
theorem vfork_release_iff {vs : List Nat}
    (high : ∀ w ∈ vs, RELOC_VADDR ≤ w ∧ w < 0xffc00000 ∧ w % 4096 = 0) :
    PagesKept s ((s'.forkChild dir regions).released.1.releaseFrames vs) ↔ Spared s := by
  obtain ⟨curr, pages, childUser⟩ := forkChild_pages parent forked
  have shares := vfork_shares forked
  constructor
  case mp =>
    intro kept
    have entries : ∀ v ∈ s.userPages, present (s.mem.entryAt s.mem.currDir v) = true →
        ((s'.forkChild dir regions).released.1.releaseFrames vs).entryAt s.mem.currDir v =
          if v ∈ s.regionPages then 0 else s'.mem.entryAt s.mem.currDir v := by
      intro v mem there
      have own : (s'.forkChild dir regions).mem.OwnTables
          (s'.forkChild dir regions).mem.currDir := by
        rw [curr, shares]
        by_cases staged : Staged v
        · exact (vfork_lost parent kernel forked mem there staged).ok.own
        · exact (vfork_held parent kernel forked mem there staged).1.ok.own
      obtain ⟨low, base⟩ := parent.user v mem
      unfold RELOC_VADDR at low
      have entry := release_entries own childUser vs v (by omega)
      rw [curr, frame_base base, shares] at entry
      rw [entry]
      simp only [pages]
    constructor
    case left =>
      intro v region
      have mem : v ∈ s.userPages := mem_append_left _ region
      by_contra mapped
      have there : present (s.mem.entryAt s.mem.currDir v) = true := by simpa using mapped
      have still := (kept v mem there).1
      rw [entries v mem there, if_pos region] at still
      cases still
    case right =>
      intro v heap there staged
      have mem : v ∈ s.userPages := mem_append_right _ heap
      have same := kept.paddr parent mem there
      have base := (parent.user v mem).2
      rw [getPaddr_base base, entries v mem there] at same
      split at same
      · exact (parent.held v mem there).1.nonzero same.symm
      · rw [← getPaddr_base base] at same
        exact (vfork_lost parent kernel forked mem there staged).gone same
  case mpr =>
    intro spared
    refine .of_held fun v mem there => ?_
    have held := (vfork_held parent kernel forked mem there (spared.apart v mem there)).1
    rw [← shares, ← curr] at held
    have kept := release_held held (parent.user v mem).1
      (fun w there' => ⟨(childUser w there').1, (childUser w there').2, by
        rintro rfl
        exact spared.region there ((pages w).1 there')⟩) high
    rwa [curr] at kept

/-- The exit of the child. -/
theorem vfork_exit_iff {s'' : AddrSpace}
    (exited : (s'.forkChild dir regions).processExit false = some s'') :
    PagesKept s s''.mem ↔ Spared s := by
  have none : pageRange (s'.forkChild dir regions).initBreak (s'.forkChild dir regions).brk = [] :=
    pageRange_nil le_rfl
  rw [processExit_mem exited, none]
  refine vfork_release_iff parent kernel forked fun w mem => ?_
  obtain ⟨lower, upper, base⟩ := pageRange_mem mem
  unfold TASK_STACK_BOTTOM at lower base
  unfold TASK_STACK_ADDR at upper
  unfold RELOC_VADDR
  omega

end Child

end Exit

end AddrSpace

end Os0
