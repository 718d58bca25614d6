import Os0.Memory.Layout
import Os0.Memory.UnmapExact

/-! What the calls of a process can reach: page-table entries below `RELOC_VADDR`, as
long as every mapping finds its place there. -/
namespace Os0

open List Option

namespace Touches

theorem changes {m m' : Memory} (h : Touches (· < RELOC_VADDR) m m') (ok : m.DirOk m.currDir)
    (fresh : m.Fresh (m.Owned m.currDir)) :
    Memory.Changes m m' m.currDir (fun p _ => p < 768) (fun _ => False) := by
  induction h with
  | refl =>
    exact .of_pages ok rfl (suffix_refl _) rfl
  | alloc _ before => exact before.trans (Memory.allocPage_changes before.ok)
  | @free m' paddr _ before =>
    obtain ⟨pages, -, dir, -, supply, -⟩ := m'.freePage_fields paddr
    exact before.trans (.of_pages before.ok pages (supply ▸ suffix_refl _) dir)
  | @map m' _ paddr v _ _ low mapped before =>
    have user := pdi_user.2 low
    rw [before.currDir] at mapped
    apply before.trans
    apply (Memory.mapPage_spec before.ok (before.fresh fresh) (by omega) mapped).1.mono
    · rintro p t ⟨rfl, -⟩
      exact user
    · exact fun _ => .inl
  | @unmap m' v _ low before =>
    have user := pdi_user.2 low
    rw [before.currDir]
    apply before.trans
    apply (Memory.unmapPage_spec before.ok (show pdi v < 1023 by omega)).1.mono
    · rintro p t ⟨rfl, -⟩
      exact user
    · exact fun _ => .inl
  | data _ _ before =>
    exact before.trans (.of_pages before.ok rfl (suffix_refl _) rfl)

end Touches

/-- A process whose regions all lie below the kernel. The last word of a directory
is the address of its list of tables, which is not a present entry. -/
structure ReachInv (s : AddrSpace) (rs : List Region) : Prop where
  table : Table s rs
  low : ∀ r ∈ rs, r.fin ≤ RELOC_VADDR
  dir : s.mem.DirOk s.mem.currDir
  fresh : s.mem.Fresh (s.mem.Owned s.mem.currDir)
  last : present (s.mem.pages s.mem.currDir 1023) = false

/-- The two address spaces have the same entries for the kernel's addresses. -/
def SameKernel (s t : AddrSpace) : Prop :=
  ∀ v, RELOC_VADDR ≤ v → v < 4294967296 →
    t.mem.entryAt t.mem.currDir v = s.mem.entryAt s.mem.currDir v

/-- The calls that stay below the kernel: a mapping that is not refused has a length that does
not round to 0 and there is a gap for it below `RELOC_VADDR`; an unmapping is safe. -/
def reachOk (s : AddrSpace) : MemCall → Bool
  | .mmap addr len prot flags fd offset =>
    (s.mmapCheck addr.toNat len.toNat prot.toNat flags.toNat fd offset).isSome ||
    roundPage len.toNat ≠ 0 &&
      hasRoom s.table (AddrSpace.mmapHint addr.toNat) (roundPage len.toNat) RELOC_VADDR
  | .munmap addr len => unmapSafe s.table (s.regions.elems.length + 1) addr.toNat len.toNat
  | .mprotect _ _ _ | .setBreak _ | .brk _ => true

section Steps

variable {s t : AddrSpace} {rs rs' : List Region}

variable (inv : ReachInv s rs)
include inv

theorem ReachInv.next (table : Table t rs')
    (low : ∀ r ∈ rs', r.fin ≤ RELOC_VADDR) (touches : Touches (· < RELOC_VADDR) s.mem t.mem) :
    ReachInv t rs' ∧ SameKernel s t := by
  have changes := touches.changes inv.dir inv.fresh
  have slot : present (t.mem.pages s.mem.currDir 1023) = false := by
    rw [changes.vmap]
    exact inv.last
  refine ⟨⟨table, low, ?_, ?_, ?_⟩, fun v high small => ?_⟩
  · rw [changes.currDir]
    exact changes.ok
  · rw [changes.currDir]
    exact changes.fresh inv.fresh
  · rw [changes.currDir]
    exact slot
  · unfold Memory.entryAt
    rw [changes.currDir]
    have kernel : ¬pdi v < 768 := mt pdi_user.1 (not_lt.2 high)
    by_cases last : pdi v < 1023
    · exact changes.entry _ last _ (pti_lt v) kernel
    · have top : pdi v = 1023 := by
        unfold pdi at *
        omega
      unfold Memory.entry
      rw [top, slot, inv.last]
      rfl

theorem reach_setBreak {addr ret : Nat}
    (h : s.processSetBreak addr = some (ret, t)) : ∃ rs', ReachInv t rs' ∧ SameKernel s t := by
  obtain ⟨regions, records, next, -, touches, -⟩ := AddrSpace.processSetBreak_cases h
  refine ⟨rs, inv.next (inv.table.congr regions records next.symm.le) inv.low ?_⟩
  apply touches.mono
  intro v hv
  unfold PROCESS_BREAK_LIMIT at hv
  unfold RELOC_VADDR
  omega

theorem reach_step {call : MemCall} (ok : reachOk s call = true)
    (h : memStep s call = some t) : ∃ rs', ReachInv t rs' ∧ SameKernel s t := by
  cases call with
  | mmap addr len prot =>
    obtain ⟨⟨ret, t'⟩, result, rfl⟩ := map_eq_some_iff.1 h
    unfold reachOk at ok
    rw [inv.table.table_eq] at ok
    simp only [Bool.or_eq_true, Bool.and_eq_true, decide_eq_true_eq, ne_eq] at ok
    obtain refused | ⟨nonzero, room⟩ := ok
    · obtain rfl := sysMmap_refused refused result
      exact ⟨rs, inv, fun _ _ _ => rfl⟩
    obtain ⟨-, -, touches, ⟨table, -⟩ | ⟨r, rbase, rlen, table, -⟩⟩ :=
      sysMmap_spec inv.table nonzero room (by decide) result
    · exact ⟨rs, inv.next table inv.low touches⟩
    · refine ⟨_, inv.next table ?_ touches⟩
      intro q hq
      rcases mem_cons.1 ((insertBy_perm _ r rs).mem_iff.1 hq) with rfl | hq
      · unfold Region.fin
        rw [rbase, rlen]
        exact place_below inv.table.ok room
      · exact inv.low q hq
  | munmap addr len =>
    obtain ⟨⟨ret, t'⟩, result, rfl⟩ := map_eq_some_iff.1 h
    unfold reachOk at ok
    rw [inv.table.table_eq] at ok
    obtain ⟨_, _, rs', eq, u, -⟩ := sysMunmap_spec inv.table ok
    obtain ⟨rfl, rfl⟩ := Prod.mk.inj (some.inj (eq.symm.trans result))
    refine ⟨rs', inv.next (u.table inv.table) ?_ (u.touches RELOC_VADDR inv.low)⟩
    intro q hq
    obtain ⟨r, hr, -, upper⟩ := u.trims.within q hq
    exact upper.trans (inv.low r hr)
  | mprotect addr len prot =>
    obtain ⟨⟨ret, t'⟩, result, rfl⟩ := map_eq_some_iff.1 h
    obtain ⟨rs', p, touches, -⟩ := AddrSpace.mprotectFuel_spec inv.table inv.low result
    refine ⟨rs', inv.next p.table ?_ touches⟩
    intro q hq
    obtain ⟨r, hr, -, upper⟩ := p.trims.within q hq
    exact upper.trans (inv.low r hr)
  | setBreak addr =>
    obtain ⟨⟨ret, t'⟩, result, rfl⟩ := map_eq_some_iff.1 h
    exact reach_setBreak inv result
  | brk addr =>
    obtain ⟨⟨ret, t'⟩, result, rfl⟩ := map_eq_some_iff.1 h
    unfold AddrSpace.sysBrk at result
    split at result
    · cases result
      exact ⟨rs, inv, fun _ _ _ => rfl⟩
    · obtain ⟨⟨brk, t⟩, result, eq⟩ := map_eq_some_iff.1 result
      cases eq
      exact reach_setBreak inv result

end Steps

/-- No run of calls that meet `reachOk` creates, removes or changes an entry for an
address of the kernel. -/
theorem kernel_out_of_reach {s t : AddrSpace} {rs : List Region} {calls : List MemCall}
    (start : ReachInv s rs) (run : Runs.Run (Runs.Guarded (fun s call => reachOk s call = true)
      (Runs.partialGraph memStep)) s calls t) : SameKernel s t := by
  have trans : ∀ s t u, SameKernel s t → SameKernel t u → SameKernel s u :=
    fun s t u h k v high small => (k v high small).trans (h v high small)
  have keep : ∀ s call t, (∃ rs, ReachInv s rs) →
      Runs.Guarded (fun s call => reachOk s call = true) (Runs.partialGraph memStep) s call t →
      (∃ rs, ReachInv t rs) ∧ SameKernel s t := by
    rintro s call t ⟨rs, inv⟩ ⟨ok, h⟩
    obtain ⟨rs', inv', same⟩ := reach_step inv ok h
    exact ⟨⟨rs', inv'⟩, same⟩
  exact (run.related (fun _ _ _ _ => rfl) trans keep ⟨rs, start⟩).2

theorem emptySpace_reach {p : Nat} {objects : List Nat} (hp : p < 1023) (nodup : objects.Nodup)
    (new : ∀ object ∈ objects, 4 ≤ object) : ReachInv (emptySpace (onePage p objects)) [] := by
  obtain ⟨ok, fresh, -⟩ := Memory.onePage_ok hp nodup new
  refine ⟨emptySpace_table _, fun _ h => absurd h not_mem_nil, ok, fresh, ?_⟩
  change present (if 1023 = p then 7 else if 1023 = 1023 then 2 else 0) = false
  rw [if_neg (by omega), if_pos rfl]
  rfl

theorem kernel_out_of_reach_at : ∃ t, Runs.exec reachOk memStep
      (emptySpace (onePage 768 [4, 5, 6, 7]))
      [mapAnonymous 0 0x2000, mapAnonymous 0 0x2000, mapAnonymous 0xb0000000 0x3000,
        .munmap 0xb0001000 0x1000, .mprotect 0x40000000 0x1000 4, .brk 0x8001800] = some t ∧
      SameKernel (emptySpace (onePage 768 [4, 5, 6, 7])) t := by
  refine Runs.exec_leads (by decide +kernel) fun t run => ?_
  have start : ReachInv (emptySpace (onePage 768 [4, 5, 6, 7])) [] :=
    emptySpace_reach (by decide) (by decide) (by decide)
  exact kernel_out_of_reach start run

/-- A mapping with the hint `0xc0000000` replaces the kernel's page there. -/
theorem mmap_replaces_kernel_page :
    ¬∀ (s t : AddrSpace) (rs : List Region) (calls : List MemCall), ReachInv s rs →
      Runs.Run (Runs.partialGraph memStep) s calls t → SameKernel s t := by
  intro claim
  have entries : (memStep (emptySpace (onePage 768 [4, 5])) (mapAnonymous 0xc0000000 0x1000)).map
      (fun t => t.mem.entryAt t.mem.currDir 0xc0000000) = some 0x20001007 := by decide +kernel
  obtain ⟨t, step, entry⟩ := Option.map_eq_some_iff.1 entries
  have start : ReachInv (emptySpace (onePage 768 [4, 5])) [] :=
    emptySpace_reach (by decide) (by decide) (by decide)
  have same := claim _ t [] _ start (.cons step (.nil t)) 0xc0000000 (by decide) (by decide)
  rw [entry] at same
  exact absurd same (by decide +kernel)

end Os0
