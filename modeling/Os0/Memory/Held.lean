import Os0.Memory.Fork
import Os0.Memory.UserBytes

/-! A page that keeps its frame. What works on the current directory without touching the page
leaves it mapped to the same frame with the same contents. -/
namespace Os0

open Bytes Function List Option Memory

namespace Memory

/-- Page `v` of the current directory `dir` has the frame `f` with these bytes. No other page has
this frame, and it is not free. -/
structure Held (dir v f : Nat) (bytes : Nat → UInt8) (m : Memory) : Prop where
  curr : m.currDir = dir
  ok : m.DirOk dir
  fresh : m.Fresh (m.Owned dir)
  low : v < 0xffc00000
  base : v % 4096 = 0
  nonzero : f ≠ 0
  small : f < 4294967296
  there : present (m.entryAt dir v) = true
  mapped : frame (m.entryAt dir v) = f
  alone : ∀ w < 0xffc00000, w % 4096 = 0 → w ≠ v → m.getPaddr dir w ≠ f
  bytes : m.frames f = bytes
  taken : f ∉ m.pageStack

/-- `alloc_page` returns page-aligned addresses, and not `f` until it has returned 0. -/
structure Reserved (f : Nat) (m : Memory) : Prop where
  stack : ∀ x ∈ m.pageStack, x % 4096 = 0 ∧ x < 4294967296
  addr : m.currAddr % 4096 = 0 ∧ m.currAddr < 4294967296
  ahead : f < m.currAddr ∨ m.currAddr = 0

variable {m m' : Memory} {dir v f w : Nat} {bytes : Nat → UInt8} {flags : Nat} {vs : List Nat}

theorem getPaddr_page (base : v % 4096 = 0) (dir : Nat) :
    m.getPaddr dir v % 4096 = 0 ∧ m.getPaddr dir v < 4294967296 := by
  rw [getPaddr_base base]
  unfold add32 frame
  omega

namespace Held

section

variable (held : Held dir v f bytes m)
include held

theorem paddr : m.getPaddr dir v = f := by
  rw [getPaddr_base held.base, held.mapped]
  exact Nat.mod_eq_of_lt held.small

theorem other (low : w < 0xffc00000) (apart : frame w ≠ v) : frame (m.entryAt dir w) ≠ f := by
  intro same
  have page : frame w < 0xffc00000 ∧ frame w % 4096 = 0 := by
    unfold frame
    omega
  refine held.alone (frame w) page.1 page.2 apart ?_
  rw [getPaddr_base page.2, entryAt_frame, same]
  exact Nat.mod_eq_of_lt held.small

theorem of_pages (pages : m'.pages = m.pages)
    (curr : m'.currDir = m.currDir) (supply : m'.supply = m.supply)
    (frames : m'.frames f = m.frames f) (stack : f ∉ m'.pageStack) : Held dir v f bytes m' := by
  have changes : Changes m m' dir (fun _ _ => False) fun _ => False :=
    .of_pages held.ok pages (supply ▸ suffix_refl _) curr
  have entries : m'.entryAt dir v = m.entryAt dir v := entry_congr pages _ _ _
  refine { held with
    curr := curr.trans held.curr, ok := changes.ok, fresh := changes.fresh held.fresh
    there := ?there, mapped := ?mapped, alone := ?alone, bytes := frames.trans held.bytes
    taken := stack }
  case there => rw [entries, held.there]
  case mapped => rw [entries, held.mapped]
  case alone =>
    intro w low base apart
    rw [getPaddr_congr pages]
    exact held.alone w low base apart

end

section Pages

variable {paddr : Nat}

variable (held : Held dir v f bytes m)
include held

/-- Another page may get another frame, and the page its own once more. -/
theorem mapPage (low : w < 0xffc00000) (base : w % 4096 = 0)
    (aligned : paddr % 4096 = 0) (apart : w ≠ v → paddr % 4294967296 ≠ f)
    (own : w = v → paddr = f) (h : m.mapPage dir paddr w flags = some m') :
    Held dir v f bytes m' := by
  obtain ⟨ok, fresh, here, others⟩ := mapPage_entryAt held.ok held.fresh low base h
  obtain ⟨frames, curr, stack, -⟩ := mapPage_fields h
  have page := frame_base held.base
  refine { held with
    curr := curr.trans held.curr, ok, fresh, there := ?there, mapped := ?mapped, alone := ?alone
    bytes := (congrFun frames f).trans held.bytes, taken := stack ▸ held.taken }
  case there =>
    by_cases same : w = v
    · rw [here v (page.trans same.symm)]
      exact present_entry _ _
    · rw [others v held.low (by omega), held.there]
  case mapped =>
    by_cases same : w = v
    · rw [here v (page.trans same.symm), frame_entry aligned, own same]
    · rw [others v held.low (by omega), held.mapped]
  case alone =>
    intro u lowU baseU other
    have pageU := frame_base baseU
    rw [getPaddr_base baseU]
    by_cases same : w = u
    · rw [here u (pageU.trans same.symm), frame_entry aligned]
      exact apart (same ▸ other)
    · rw [others u lowU (by omega), ← getPaddr_base baseU]
      exact held.alone u lowU baseU other

theorem unmapPage (low : w < 0xffc00000) (base : w % 4096 = 0)
    (apart : w ≠ v) : Held dir v f bytes (m.unmapPage dir w) := by
  have high := pdi_lt low
  obtain ⟨changes, -⟩ := @unmapPage_spec m dir (fun _ => False) held.ok w high
  obtain ⟨-, entries⟩ := unmapPage_entries held.ok.own low base
  obtain ⟨frames, curr, -, -, -, stack⟩ := m.unmapPage_fields dir w
  have page : frame v ≠ w := by
    rw [frame_base held.base]
    exact apart.symm
  refine { held with
    curr := curr.trans held.curr, ok := changes.ok, fresh := changes.fresh held.fresh
    there := ?there, mapped := ?mapped, alone := ?alone
    bytes := (congrFun frames f).trans held.bytes, taken := stack ▸ held.taken }
  case there => rw [entries v held.low, if_neg page, held.there]
  case mapped => rw [entries v held.low, if_neg page, held.mapped]
  case alone =>
    intro u lowU baseU other
    rw [getPaddr_base baseU, entries u lowU]
    split
    · exact held.nonzero.symm
    · rw [← getPaddr_base baseU]
      exact held.alone u lowU baseU other

theorem freePage (other : frame paddr ≠ f) : Held dir v f bytes (m.freePage paddr) := by
  obtain ⟨pages, frames, curr, -, supply, -⟩ := m.freePage_fields paddr
  refine held.of_pages pages curr supply (by rw [frames]) ?_
  unfold Memory.freePage
  split
  · exact held.taken
  · simp only [mem_cons, not_or]
    exact ⟨other.symm, held.taken⟩

theorem freePaddr (low : w < 0xffc00000) (base : w % 4096 = 0)
    (apart : w ≠ v) : Held dir v f bytes (m.freePage (m.getPaddr dir w)) := by
  refine held.freePage ?_
  rw [frame_base (getPaddr_page base dir).1]
  exact held.alone w low base apart

theorem releasePage (log : List Nat) (low : w < 0xffc00000)
    (base : w % 4096 = 0) (apart : w ≠ v) : Held dir v f bytes (releasePage dir (m, log) w).1 := by
  unfold Memory.releasePage
  dsimp only
  split
  · exact (held.freePaddr low base apart).unmapPage low base apart
  · exact held.unmapPage low base apart

theorem releasePages (log : List Nat) (pages : ∀ w ∈ vs, w < 0xffc00000 ∧ w % 4096 = 0 ∧ w ≠ v) :
    Held dir v f bytes (vs.foldl (Memory.releasePage dir) (m, log)).1 := by
  induction vs generalizing m log with
  | nil => exact held
  | cons w vs ih =>
    obtain ⟨⟨low, base, apart⟩, rest⟩ := forall_mem_cons.1 pages
    exact ih (held.releasePage log low base apart) _ rest

theorem releaseFrames
    (pages : ∀ w ∈ vs, w < 0xffc00000 ∧ w % 4096 = 0 ∧ w ≠ v) :
    Held dir v f bytes (m.releaseFrames vs) := by
  induction vs generalizing m with
  | nil => exact held
  | cons w vs ih =>
    obtain ⟨⟨low, base, apart⟩, rest⟩ := forall_mem_cons.1 pages
    unfold releaseFrames
    rw [foldl_cons, held.curr]
    split
    · exact ih (held.freePaddr low base apart) rest
    · exact ih held rest

/-- Giving pages the frames they have. -/
theorem remap (pages : ∀ w ∈ vs, w < 0xffc00000 ∧ w % 4096 = 0) (h : m.remap flags vs = some m') :
    Held dir v f bytes m' ∧ m'.pageStack = m.pageStack ∧ m'.currAddr = m.currAddr := by
  induction vs generalizing m with
  | nil =>
    cases h
    exact ⟨held, rfl, rfl⟩
  | cons w vs ih =>
    obtain ⟨⟨low, base⟩, rest⟩ := forall_mem_cons.1 pages
    obtain ⟨_, mapped, h⟩ := bind_eq_some_iff.1 h
    rw [held.curr] at mapped
    obtain ⟨aligned, small⟩ := getPaddr_page (m := m) base dir
    have held₁ := held.mapPage low base aligned
      (fun apart => by
        rw [Nat.mod_eq_of_lt small]
        exact held.alone w low base apart)
      (fun same => same ▸ held.paddr) mapped
    obtain ⟨-, -, stack₁, addr₁⟩ := mapPage_fields mapped
    obtain ⟨held', stack', addr'⟩ := ih held₁ rest h
    exact ⟨held', stack'.trans stack₁, addr'.trans addr₁⟩

end Pages

end Held

theorem releaseFrames_fields (m : Memory) (vs : List Nat) :
    (m.releaseFrames vs).pages = m.pages ∧ (m.releaseFrames vs).currDir = m.currDir ∧
      (m.releaseFrames vs).supply = m.supply := by
  induction vs generalizing m with
  | nil => exact ⟨rfl, rfl, rfl⟩
  | cons v vs ih =>
    unfold releaseFrames
    rw [foldl_cons]
    split
    · obtain ⟨pages, -, curr, -, supply, -⟩ := m.freePage_fields (m.getPaddr m.currDir v)
      obtain ⟨pages', curr', supply'⟩ := ih (m.freePage (m.getPaddr m.currDir v))
      exact ⟨pages'.trans pages, curr'.trans curr, supply'.trans supply⟩
    · exact ih m

section Frames

theorem allocPage_stack (m : Memory) : ∀ x ∈ m.allocPage.2.pageStack, x ∈ m.pageStack := by
  unfold allocPage
  split
  · rename_i stack
    rw [stack]
    split <;> exact fun x mem => mem_cons_of_mem _ mem
  · exact fun x mem => mem

theorem Held.allocPage (held : Held dir v f bytes m) : Held dir v f bytes m.allocPage.2 := by
  obtain ⟨pages, frames, curr, supply⟩ := m.allocPage_fields
  exact held.of_pages pages curr supply (by rw [frames])
    fun mem => held.taken (m.allocPage_stack f mem)

namespace Reserved

variable (reserved : Reserved f m)
include reserved

theorem allocPage (taken : f ∉ m.pageStack) (nonzero : m.allocPage.1 ≠ 0) :
    Reserved f m.allocPage.2 ∧ m.allocPage.1 ≠ f ∧ m.allocPage.1 % 4096 = 0 ∧
      m.allocPage.1 < 4294967296 := by
  obtain ⟨stack, addr, ahead⟩ := reserved
  have bump : m.currAddr ≠ 0 → (add32 m.currAddr PAGE_SIZE % 4096 = 0 ∧
      add32 m.currAddr PAGE_SIZE < 4294967296) ∧
      (f < add32 m.currAddr PAGE_SIZE ∨ add32 m.currAddr PAGE_SIZE = 0) ∧ m.currAddr ≠ f := by
    intro _
    unfold add32 PAGE_SIZE
    omega
  unfold Memory.allocPage at nonzero ⊢
  split
  · rename_i eq
    rw [eq] at stack taken nonzero
    obtain ⟨first, others⟩ := forall_mem_cons.1 stack
    dsimp only at nonzero
    split
    · rename_i zero
      rw [if_pos zero] at nonzero
      obtain ⟨addr', ahead', other⟩ := bump nonzero
      exact ⟨⟨others, addr', ahead'⟩, other, addr⟩
    · refine ⟨⟨others, addr, ahead⟩, ?_, first⟩
      rintro rfl
      exact taken (mem_cons_self ..)
  · rename_i eq
    rw [eq] at nonzero
    obtain ⟨addr', ahead', other⟩ := bump nonzero
    refine ⟨⟨?_, addr', ahead'⟩, other, addr⟩
    rw [eq]
    simp

theorem congr (stack : m'.pageStack = m.pageStack)
    (addr : m'.currAddr = m.currAddr) : Reserved f m' :=
  ⟨stack ▸ reserved.stack, addr ▸ reserved.addr, addr ▸ reserved.ahead⟩

theorem freePage (base : w % 4096 = 0) (dir : Nat) :
    Reserved f (m.freePage (m.getPaddr dir w)) := by
  obtain ⟨aligned, small⟩ := getPaddr_page (m := m) base dir
  unfold Memory.freePage
  split
  · exact reserved
  · refine ⟨?_, reserved.addr, reserved.ahead⟩
    rw [frame_base aligned]
    exact forall_mem_cons.2 ⟨⟨aligned, small⟩, reserved.stack⟩

theorem releasePages (log : List Nat) (pages : ∀ w ∈ vs, w % 4096 = 0) :
    Reserved f (vs.foldl (releasePage dir) (m, log)).1 := by
  induction vs generalizing m log with
  | nil => exact reserved
  | cons w vs ih =>
    obtain ⟨base, rest⟩ := forall_mem_cons.1 pages
    have one : Reserved f (releasePage dir (m, log) w).1 := by
      obtain ⟨-, -, addr, -, -, stack⟩ := unmapPage_fields
        (if m.getPaddr dir w ≠ 0 then (m.freePage (m.getPaddr dir w), log ++ [frame (m.getPaddr dir w)])
          else (m, log)).1 dir w
      refine Reserved.congr ?_ stack addr
      split
      · exact reserved.freePage base dir
      · exact reserved
    exact ih one _ rest

end Reserved

theorem Held.mapNew {missing : Option Nat} (held : Held dir v f bytes m) (reserved : Reserved f m)
    (pages : ∀ w ∈ vs, w < 0xffc00000 ∧ w % 4096 = 0 ∧ w ≠ v)
    (h : m.mapNew flags vs = some (missing, m')) :
    Held dir v f bytes m' ∧ (missing = none → Reserved f m') := by
  induction vs generalizing m with
  | nil =>
    cases h
    exact ⟨held, fun _ => reserved⟩
  | cons w vs ih =>
    obtain ⟨⟨low, base, apart⟩, rest⟩ := forall_mem_cons.1 pages
    unfold mapNew at h
    split at h
    · cases h
      exact ⟨held.allocPage, by rintro ⟨⟩⟩
    · rename_i nonzero
      obtain ⟨_, mapped, h⟩ := bind_eq_some_iff.1 h
      obtain ⟨reserved₁, _, aligned, small⟩ := reserved.allocPage held.taken nonzero
      obtain ⟨-, -, stack₁, addr₁⟩ := mapPage_fields mapped
      rw [held.allocPage.curr] at mapped
      have held₁ := held.allocPage.mapPage low base aligned
        (fun _ => by rwa [Nat.mod_eq_of_lt small]) (fun same => absurd same apart) mapped
      exact ih held₁ (reserved₁.congr stack₁ addr₁) rest h

end Frames

section Bytes

variable {byte : Nat → UInt8} {lo hi count : Nat}

variable (held : Held dir v f bytes m)
include held

theorem Held.fillPage (low : w % 4294967296 < 0xffc00000)
    (base : w % 4096 = 0) (apart : w % 4294967296 ≠ v) (h : m.fillPage lo hi byte w = some m') :
    Held dir v f bytes m' ∧ m'.pageStack = m.pageStack ∧ m'.currAddr = m.currAddr := by
  unfold Memory.fillPage at h
  split at h
  · cases h
    refine ⟨held.of_pages rfl rfl rfl ?_ held.taken, rfl, rfl⟩
    have page : frame (w % 4294967296) = w % 4294967296 := frame_base (by omega)
    have other := held.other low (page.symm ▸ apart)
    rw [← held.curr] at other
    funext o
    exact if_neg fun here => other here.1.symm
  · cases h

theorem Held.fill (pages : ∀ a, lo ≤ a → a < lo + count →
      frame a % 4294967296 < 0xffc00000 ∧ frame a % 4294967296 ≠ v)
    (h : m.fill lo count byte = some m') :
    Held dir v f bytes m' ∧ m'.pageStack = m.pageStack ∧ m'.currAddr = m.currAddr := by
  refine fill_keeps (I := fun n => Held dir v f bytes n ∧ n.pageStack = m.pageStack ∧
    n.currAddr = m.currAddr) h ⟨held, rfl, rfl⟩ fun some w mem n n' ⟨held, stack, addr⟩ filled => ?_
  obtain ⟨lower, _, aligned⟩ := pageRange_mem mem
  have base : w % 4096 = 0 := by
    unfold frame at aligned
    omega
  -- the page has an address of the range
  have inside := pages (max lo w) (le_max_left ..) (by omega)
  have page : frame (max lo w) = w := by
    unfold frame at lower ⊢
    omega
  rw [page] at inside
  obtain ⟨held', stack', addr'⟩ := held.fillPage inside.1 base inside.2 filled
  exact ⟨held', stack'.trans stack, addr'.trans addr⟩

theorem Held.copyPage {src : Nat} (low : w < 0xffc00000)
    (apart : frame w ≠ v) (h : m.copyPage w src = some m') :
    Held dir v f bytes m' ∧ m'.pageStack = m.pageStack ∧ m'.currAddr = m.currAddr := by
  unfold Memory.copyPage at h
  dsimp only at h
  split at h
  · cases h
    refine ⟨held.of_pages rfl rfl rfl ?_ held.taken, rfl, rfl⟩
    have other := held.other low apart
    rw [← held.curr] at other
    exact update_of_ne other.symm _ _
  · cases h

end Bytes

end Memory

end Os0
