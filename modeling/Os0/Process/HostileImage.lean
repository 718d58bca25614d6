import Os0.Process.Segments

/-! What a program header can make the loader do. `process_load_phdrs` checks none of the fields
of a header before it maps and writes what they say. -/
namespace Os0

open Bytes List Option AddrSpace

/-- `process_load_phdrs`, from the headers `is` on, calls `process_load_segment` for a header in
a state. -/
inductive SegmentCall (env : ExecEnv) (c : Credentials) (f : ExecFile) (eh : Ehdr) :
    List Nat → AddrSpace → AddrSpace → Phdr → Prop
  | here {i : Nat} {is : List Nat} {s : AddrSpace} {bytes : List UInt8} :
      vfsRead c f 32 (toOff (add32 eh.phoff (eh.phentsize * i))) = .ok bytes →
      (decodePhdr (execBuffer env bytes 32)).type = PT_LOAD →
      SegmentCall env c f eh (i :: is) s s (decodePhdr (execBuffer env bytes 32))
  | loaded {i stop : Nat} {is : List Nat} {s s' s₀ : AddrSpace} {h : Phdr} {bytes : List UInt8} :
      vfsRead c f 32 (toOff (add32 eh.phoff (eh.phentsize * i))) = .ok bytes →
      (decodePhdr (execBuffer env bytes 32)).type = PT_LOAD →
      processLoadSegment c f s (decodePhdr (execBuffer env bytes 32)) = some (.ok stop, s') →
      stop < 0x80000000 → SegmentCall env c f eh is s' s₀ h →
      SegmentCall env c f eh (i :: is) s s₀ h
  | skipped {i : Nat} {is : List Nat} {s s₀ : AddrSpace} {h : Phdr} {bytes : List UInt8} :
      vfsRead c f 32 (toOff (add32 eh.phoff (eh.phentsize * i))) = .ok bytes →
      (decodePhdr (execBuffer env bytes 32)).type ≠ PT_LOAD →
      SegmentCall env c f eh is s s₀ h → SegmentCall env c f eh (i :: is) s s₀ h

variable {c : Credentials}

variable {env : ExecEnv} {f : ExecFile} {eh : Ehdr} {is : List Nat} {s : AddrSpace}

variable {s' : AddrSpace} {link : LinkInfo} {pbreak : Nat} {ret : Except ExecError (Nat × LinkInfo)}

/-- These are the calls that change the address space. What they keep is kept by the loop, and the
loop ends with the first of them that fails, of which less is asked. -/
theorem loadHeaders_keeps {I J : AddrSpace → Prop} (weaken : ∀ s, I s → J s)
    (calls : ∀ s₀ h s₁ r, SegmentCall env c f eh is s s₀ h → I s₀ → processLoadSegment c f s₀ h =
      some (r, s₁) → J s₁ ∧ ∀ stop, r = .ok stop → I s₁)
    (start : I s) (done : loadHeaders env c f eh is s link pbreak = some (ret, s')) :
    J s' ∧ ∀ x, ret = .ok x → I s' := by
  induction is generalizing s link pbreak with
  | nil =>
    unfold loadHeaders at done
    split at done <;> cases done <;> exact ⟨weaken _ start, fun _ _ => start⟩
  | cons i is ih =>
    unfold loadHeaders at done
    cases read : vfsRead c f 32 (toOff (add32 eh.phoff (eh.phentsize * i))) with
    | error e =>
      rw [read] at done
      cases done
      exact ⟨weaken _ start, fun _ _ => start⟩
    | ok bytes =>
      rw [read] at done
      dsimp only at done
      by_cases load : (decodePhdr (execBuffer env bytes 32)).type = PT_LOAD
      · rw [if_pos load] at done
        obtain ⟨⟨r, s₁⟩, call, done⟩ := bind_eq_some_iff.1 done
        obtain ⟨weak, strong⟩ := calls _ _ _ _ (.here read load) start call
        cases r with
        | error e =>
          cases done
          exact ⟨weak, nofun⟩
        | ok stop =>
          dsimp only at done
          split at done
          · cases done
            exact ⟨weak, nofun⟩
          · refine ih (fun s₀ h s₂ r later => ?_) (strong stop rfl) done
            exact calls s₀ h s₂ r (.loaded read load call (by omega) later)
      · have rest : ∀ s₀ h s₁ r, SegmentCall env c f eh is s s₀ h → I s₀ →
            processLoadSegment c f s₀ h = some (r, s₁) → J s₁ ∧ ∀ stop, r = .ok stop → I s₁ :=
          fun s₀ h s₁ r later => calls s₀ h s₁ r (.skipped read load later)
        rw [if_neg load] at done
        split at done
        · exact ih rest start done
        · split at done <;> exact ih rest start done

namespace Memory

variable {m m' : Memory}

/-- A byte that `fill` changes is in the frame of a page of the range. -/
theorem fill_frames {lo count x o : Nat} {byte : Nat → UInt8} (h : m.fill lo count byte = some m')
    (changed : m'.frames x o ≠ m.frames x o) : ∃ v, lo ≤ v ∧ v < lo + count ∧
      frame (m.entryAt m.currDir (frame v % 4294967296)) = x := by
  have steps : m'.pages = m.pages ∧ m'.currDir = m.currDir ∧ (m'.frames x o ≠ m.frames x o →
      ∃ v, lo ≤ v ∧ v < lo + count ∧
        frame (m.entryAt m.currDir (frame v % 4294967296)) = x) := by
    refine fill_keeps (I := fun n => n.pages = m.pages ∧ n.currDir = m.currDir ∧
      (n.frames x o ≠ m.frames x o → ∃ v, lo ≤ v ∧ v < lo + count ∧
        frame (m.entryAt m.currDir (frame v % 4294967296)) = x)) h ⟨rfl, rfl, fun h => absurd rfl h⟩
      fun _ p mem n n' ⟨pages, dir, before⟩ filled => ?_
    have base := (pageRange_mem mem).2.2
    unfold fillPage at filled
    split at filled
    · cases filled
      refine ⟨pages, dir, fun differ => ?_⟩
      by_cases here : x = frame (n.entryAt n.currDir (p % 4294967296)) ∧ o < 4096 ∧
          lo ≤ p + o ∧ p + o < lo + count
      · refine ⟨p + o, here.2.2.1, here.2.2.2, ?_⟩
        have page : frame (p + o) = p := by
          unfold frame at base ⊢
          omega
        rw [page, here.1, dir, entryAt, entryAt, entry_congr pages]
      · dsimp only at differ
        rw [if_neg here] at differ
        exact before differ
    · cases filled
  exact steps.2.2 changed

/-- The directory is sound, there are new objects for its tables, and the frames that
`alloc_page` has to give are pages. -/
structure Ready (m : Memory) : Prop where
  ok : m.DirOk m.currDir
  fresh : m.Fresh (m.Owned m.currDir)
  stack : ∀ x ∈ m.pageStack, x % 4096 = 0
  addr : m.currAddr % 4096 = 0

namespace Ready

variable {flags : Nat} {vs : List Nat} {missing : Option Nat}

section

variable (ready : m.Ready)
include ready

theorem of_pages (pages : m'.pages = m.pages) (curr : m'.currDir = m.currDir)
    (supply : m'.supply = m.supply) (stack : ∀ x ∈ m'.pageStack, x % 4096 = 0)
    (addr : m'.currAddr % 4096 = 0) : m'.Ready := by
  have changes : Changes m m' m.currDir (fun _ _ => False) fun _ => False :=
    .of_pages ready.ok pages (supply ▸ suffix_refl _) curr
  exact ⟨curr ▸ changes.ok, curr ▸ changes.fresh ready.fresh, stack, addr⟩

theorem allocPage : m.allocPage.1 % 4096 = 0 ∧ m.allocPage.2.Ready := by
  obtain ⟨pages, -, curr, supply⟩ := m.allocPage_fields
  have bump : add32 m.currAddr PAGE_SIZE % 4096 = 0 := by
    have := ready.addr
    unfold add32 PAGE_SIZE
    omega
  have given : m.allocPage.1 % 4096 = 0 ∧ (∀ x ∈ m.allocPage.2.pageStack, x % 4096 = 0) ∧
      m.allocPage.2.currAddr % 4096 = 0 := by
    have stack := ready.stack
    unfold Memory.allocPage
    split
    · rename_i eq
      rw [eq] at stack
      obtain ⟨first, rest⟩ := forall_mem_cons.1 stack
      split
      · exact ⟨ready.addr, rest, bump⟩
      · exact ⟨first, rest, ready.addr⟩
    · exact ⟨ready.addr, stack, bump⟩
  exact ⟨given.1, ready.of_pages pages curr supply given.2.1 given.2.2⟩

theorem mapPage {paddr v : Nat} (low : v < 0xffc00000) (base : v % 4096 = 0)
    (h : m.mapPage m.currDir paddr v flags = some m') : m'.Ready := by
  obtain ⟨ok, fresh, -, -⟩ := mapPage_entryAt ready.ok ready.fresh low base h
  obtain ⟨-, curr, stack, addr⟩ := mapPage_fields h
  exact ⟨curr ▸ ok, curr ▸ fresh, stack ▸ ready.stack, addr ▸ ready.addr⟩

theorem fill {lo count : Nat} {byte : Nat → UInt8} (h : m.fill lo count byte = some m') :
    m'.Ready := by
  refine fill_keeps h ready fun _ p _ n n' ready filled => ?_
  unfold fillPage at filled
  split at filled
  · cases filled
    exact ready.of_pages rfl rfl rfl ready.stack ready.addr
  · cases filled

end

theorem framesFrom (ready : m.Ready) (n : Nat) : ∀ x ∈ m.framesFrom n, x % 4096 = 0 := by
  induction n generalizing m with
  | zero => exact fun _ mem => absurd mem not_mem_nil
  | succ n ih => exact forall_mem_cons.2 ⟨ready.allocPage.1, ih ready.allocPage.2⟩

theorem mapNew (ready : m.Ready) (pages : ∀ v ∈ m.framed vs, v < 0xffc00000 ∧ v % 4096 = 0)
    (h : m.mapNew flags vs = some (missing, m')) : m'.Ready := by
  induction vs generalizing m with
  | nil =>
    cases h
    exact ready
  | cons v vs ih =>
    unfold Memory.mapNew at h
    rw [framed_cons] at pages
    split at h
    · cases h
      exact ready.allocPage.2
    · rename_i nonzero
      rw [if_neg nonzero] at pages
      obtain ⟨⟨low, base⟩, rest⟩ := forall_mem_cons.1 pages
      obtain ⟨_, mapped, h⟩ := bind_eq_some_iff.1 h
      obtain ⟨-, -, stack, addr⟩ := mapPage_fields mapped
      refine ih (ready.allocPage.2.mapPage low base mapped) ?_ h
      rwa [framed, framesFrom_congr stack addr]

theorem remap (ready : m.Ready) (pages : ∀ v ∈ vs, v < 0xffc00000 ∧ v % 4096 = 0)
    (h : m.remap flags vs = some m') : m'.Ready := by
  induction vs generalizing m with
  | nil =>
    cases h
    exact ready
  | cons v vs ih =>
    obtain ⟨⟨low, base⟩, rest⟩ := forall_mem_cons.1 pages
    obtain ⟨_, mapped, h⟩ := bind_eq_some_iff.1 h
    exact ih (ready.mapPage low base mapped) rest h

end Ready

end Memory

/-- The pages of a segment that get a frame: all of them, unless `alloc_page` fails. -/
def framedPages (s : AddrSpace) (h : Phdr) : List Nat := s.mem.framed (segmentPages h)

/-- There are frames for the pages and memory for the record. -/
def segmentHeld (s : AddrSpace) (h : Phdr) : Bool :=
  (s.mem.framesFrom (segmentPages h).length).all (· ≠ 0) && s.kmallocs.head? == some true

/-- Start and length of what is written for a segment: the bytes of the file and the zeroes
behind them. -/
def segmentWrites (c : Credentials) (f : ExecFile) (s : AddrSpace) (h : Phdr) : List (Nat × Nat) :=
  if segmentHeld s h then
    match segmentBytes c f h with
    | .error _ => []
    | .ok bytes => [(h.vaddr, bytes.length), (add32 h.vaddr h.filesz, sub32 h.memsz h.filesz)]
  else []

/-- A call of `process_load_segment` stays in user space: it maps pages below the kernel, its
record has a place in the table, it writes to the pages that it has mapped, and the length of the
zeroes is no difference below 0. -/
structure SegmentSafe (c : Credentials) (f : ExecFile) (s : AddrSpace) (h : Phdr) : Prop where
  maps : ∀ v ∈ framedPages s h, v < RELOC_VADDR
  record : segmentHeld s h = true → s.regions.elems.length < s.regions.max
  writes : ∀ w ∈ segmentWrites c f s h, ∀ v, w.1 ≤ v → v < w.1 + w.2 → frame v ∈ framedPages s h
  clear : segmentWrites c f s h ≠ [] → h.filesz ≤ h.memsz

/-- A header that asks for no more than it may, and a table with room for its record. -/
structure Confined (s : AddrSpace) (h : Phdr) : Prop where
  room : s.regions.elems.length < s.regions.max
  bytes : h.filesz ≤ h.memsz
  user : h.vaddr + h.memsz ≤ RELOC_VADDR ∨ h.memsz = 0 ∧ h.vaddr % 4096 = 0

/-- A segment for which there is memory, and whose bytes are all in the file. -/
def Supplied (c : Credentials) (f : ExecFile) (s : AddrSpace) (h : Phdr) : Prop :=
  segmentHeld s h = true ∧ ∃ bytes, segmentBytes c f h = .ok bytes ∧ bytes.length = h.filesz

section Pages

variable {s : AddrSpace} {h : Phdr} {v : Nat}

theorem framedPages_held (held : segmentHeld s h = true) : framedPages s h = segmentPages h := by
  simp only [segmentHeld, Bool.and_eq_true, List.all_eq_true, decide_eq_true_eq] at held
  exact Memory.framed_all held.1

theorem mem_loopPages : v ∈ segmentPages h ↔
    frame h.vaddr ≤ v ∧ v < add32 h.vaddr h.memsz ∧ v % 4096 = 0 := by
  rw [segmentPages, mem_pageRange (frame_aligned _)]

end Pages

section Safety

variable {c : Credentials} {f : ExecFile} {s : AddrSpace} {h : Phdr}

theorem segmentBytes_length {bytes : List UInt8} (reads : ∀ len offset bytes,
    vfsRead c f len offset = .ok bytes → bytes.length ≤ len)
    (ok : segmentBytes c f h = .ok bytes) : bytes.length ≤ h.filesz := by
  unfold segmentBytes at ok
  split at ok
  · exact reads _ _ _ ok
  · cases ok
    exact Nat.zero_le _

theorem mem_segmentWrites {w : Nat × Nat} (hw : w ∈ segmentWrites c f s h) :
    segmentHeld s h = true ∧ ∃ bytes, segmentBytes c f h = .ok bytes ∧
      (w = (h.vaddr, bytes.length) ∨ w = (add32 h.vaddr h.filesz, sub32 h.memsz h.filesz)) := by
  unfold segmentWrites at hw
  split at hw
  · rename_i held
    cases read : segmentBytes c f h with
    | error e => simp [read] at hw
    | ok bytes => exact ⟨held, bytes, rfl, by simpa [read] using hw⟩
  · cases hw

theorem segmentWrites_supplied (supplied : Supplied c f s h) : segmentWrites c f s h =
    [(h.vaddr, h.filesz), (add32 h.vaddr h.filesz, sub32 h.memsz h.filesz)] := by
  obtain ⟨held, _, read, length⟩ := supplied
  simp [segmentWrites, held, read, length]

theorem Confined.safe (confined : Confined s h) (reads : ∀ len offset bytes,
    vfsRead c f len offset = .ok bytes → bytes.length ≤ len) : SegmentSafe c f s h := by
  obtain ⟨room, bytes, user⟩ := confined
  have stop : add32 h.vaddr h.memsz ≤ h.vaddr + h.memsz := Nat.mod_le _ _
  constructor
  case maps =>
    intro v hv
    obtain ⟨lower, upper, _⟩ := mem_loopPages.1 (Memory.framed_subset hv)
    rcases user with user | ⟨none, aligned⟩
    · omega
    · unfold frame at lower
      omega
  case record => exact fun _ => room
  case writes =>
    intro w hw v lower upper
    obtain ⟨held, _, ok, which⟩ := mem_segmentWrites hw
    have count := segmentBytes_length reads ok
    rw [framedPages_held held, mem_loopPages]
    have inside : h.vaddr ≤ v ∧ v < h.vaddr + h.memsz := by
      rcases user with user | ⟨none, aligned⟩
      · unfold RELOC_VADDR at user
        rcases which with rfl | rfl
        · dsimp only at lower upper
          omega
        · rw [add32_eq (by omega), sub32_eq bytes (by omega)] at lower upper
          omega
      · rcases which with rfl | rfl
        · dsimp only at lower upper
          omega
        · have empty : sub32 h.memsz h.filesz = 0 := by
            rw [sub32_eq bytes (by omega)]
            omega
          rw [empty] at upper
          omega
    rcases user with user | ⟨none, aligned⟩
    · unfold RELOC_VADDR at user
      rw [add32_eq (by omega)]
      unfold frame
      omega
    · omega
  case clear => exact fun _ => bytes

/-- If there is memory for a segment and its bytes are in the file, only a confined header is
loaded safely. -/
theorem SegmentSafe.confined (safe : SegmentSafe c f s h) (supplied : Supplied c f s h)
    (small : h.vaddr < 4294967296 ∧ h.memsz < 4294967296) : Confined s h := by
  have held := supplied.1
  have framed := framedPages_held held
  have written := segmentWrites_supplied supplied
  have bytes : h.filesz ≤ h.memsz := safe.clear (by simp [written])
  refine ⟨safe.record held, bytes, ?_⟩
  by_contra outside
  simp only [not_or, not_and, not_le] at outside
  obtain ⟨high, _⟩ := outside
  have maps := safe.maps
  have writes := safe.writes
  rw [framed] at maps writes
  simp only [written, forall_mem_cons, mem_loopPages] at maps writes
  obtain ⟨first, second, -⟩ := writes
  rw [sub32_eq bytes small.2] at second
  unfold RELOC_VADDR at high maps
  by_cases nowrap : h.vaddr + h.memsz < 4294967296
  · -- the last page is the kernel's
    rw [add32_eq nowrap] at maps
    have last := maps (frame (h.vaddr + (h.memsz - 1)))
    unfold frame at last
    omega
  · have stop : add32 h.vaddr h.memsz = h.vaddr + h.memsz - 4294967296 := by
      unfold add32
      omega
    rw [stop] at first second
    -- at most one page is mapped, and there are more bytes than that
    have start : frame h.vaddr < h.vaddr + h.memsz - 4294967296 := by
      by_cases file : 0 < h.filesz
      · exact (first h.vaddr le_rfl (by omega)).2.1
      · have none : h.filesz = 0 := by omega
        have here : add32 h.vaddr h.filesz = h.vaddr := by
          rw [none]
          exact Nat.mod_eq_of_lt small.1
        rw [here] at second
        exact (second h.vaddr le_rfl (by omega)).2.1
    have next := first (h.vaddr + 4096)
    have next' := second (h.vaddr + h.filesz + 4096)
    have wrapped := second (h.vaddr + h.filesz - 4294967296)
    unfold frame at start next next' wrapped
    unfold add32 at next' wrapped
    omega

/-- The entries for the kernel's addresses stay. -/
def KernelKept (m m' : Memory) : Prop :=
  m'.currDir = m.currDir ∧ ∀ v, RELOC_VADDR ≤ v → v < 0xffc00000 →
    m'.entryAt m.currDir v = m.entryAt m.currDir v

/-- What a safe call does to the memory: the entries of the kernel stay, the memory is ready for
the next call, and the bytes that change are in frames that it has got from `alloc_page`. -/
theorem SegmentSafe.effects {s' : AddrSpace} {ret : Except ExecError Nat}
    (safe : SegmentSafe c f s h) (ready : s.mem.Ready)
    (call : processLoadSegment c f s h = some (ret, s')) :
    KernelKept s.mem s'.mem ∧ s'.mem.Ready ∧ ∀ x o, s'.mem.frames x o ≠ s.mem.frames x o →
      x ∈ s.mem.framesFrom (segmentPages h).length := by
  obtain ⟨-, _, m, mapped, which⟩ := processLoadSegment_cases call
  have pages : ∀ v ∈ s.mem.framed (segmentPages h), v < 0xffc00000 ∧ v % 4096 = 0 := by
    intro v hv
    have low := safe.maps v hv
    unfold RELOC_VADDR at low
    exact ⟨by omega, (mem_loopPages.1 (Memory.framed_subset hv)).2.2⟩
  obtain ⟨maps, all⟩ :=
    Memory.mapNew_framed ready.ok ready.fresh pages (pageRange_nodup _ _) mapped
  have ready₀ := ready.mapNew pages mapped
  have dir := maps.currDir
  have frames := maps.frames
  have kernel : KernelKept s.mem m := by
    refine ⟨dir, fun v high low => maps.old v low fun there => ?_⟩
    have := safe.maps _ there
    unfold RELOC_VADDR frame at *
    omega
  rcases which with ⟨-, -, rfl⟩ | ⟨-, hk, -⟩ | ⟨p, _, s₂, rfl, hk, added, filled⟩
  · exact ⟨kernel, ready₀, fun x o differ => absurd (by rw [frames]) differ⟩
  · have mem := (kmalloc_fields hk).1
    rw [mem]
    exact ⟨kernel, ready₀, fun x o differ => absurd (by rw [frames]) differ⟩
  · have start : s₂.mem = m := (addRegion_mem added).trans (kmalloc_fields hk).1
    have held : segmentHeld s h = true := by
      have memory := kmalloc_some hk
      simp only [segmentHeld, Bool.and_eq_true, List.all_eq_true, memory, beq_self_eq_true,
        and_true]
      exact fun x hx => decide_eq_true (all rfl x hx)
    have whole := framedPages_held held
    obtain ⟨e, -, -, rfl⟩ | ⟨bytes, m₁, _, m₃, read, first, second, third, -, rfl⟩ :=
      fillSegment_cases filled
    · rw [start]
      exact ⟨kernel, ready₀, fun x o differ => absurd (by rw [frames]) differ⟩
    change s.mem.framed (segmentPages h) = segmentPages h at whole
    rw [whole] at pages maps
    have new : ∀ v ∈ segmentPages h,
        frame (m.entryAt s.mem.currDir v) ∈ s.mem.framesFrom (segmentPages h).length ∧
          present (m.entryAt s.mem.currDir v) = true := by
      intro v hv
      obtain ⟨i, at_⟩ := List.mem_iff_getElem?.1 hv
      have bound := (List.getElem?_eq_some_iff.1 at_).1
      rw [← Memory.framesFrom_length (segmentPages h).length s.mem] at bound
      have member := List.getElem_mem bound
      rw [← frame_base (pages v hv).2] at at_
      obtain ⟨eq, there⟩ := maps.entry at_ (List.getElem?_eq_getElem bound)
        (ready.framesFrom _ _ member)
      exact ⟨eq ▸ member, there⟩
    rw [start] at first
    obtain ⟨pages₁, dir₁⟩ := Memory.fill_fields first
    obtain ⟨dir₃, -, frames₃, -, kept⟩ := Memory.protect_spec first second third dir maps.ok.own
      (fun v hv => ⟨(pages v hv).1, (pages v hv).2, (new v hv).2⟩)
    have written : segmentWrites c f s h =
        [(h.vaddr, bytes.length), (add32 h.vaddr h.filesz, sub32 h.memsz h.filesz)] := by
      simp [segmentWrites, held, read]
    have target : ∀ w ∈ segmentWrites c f s h, ∀ v, w.1 ≤ v → v < w.1 + w.2 →
        frame (m.entryAt s.mem.currDir (frame v % 4294967296)) ∈
          s.mem.framesFrom (segmentPages h).length := by
      intro w hw v lower upper
      have page := safe.writes w hw v lower upper
      rw [framedPages, whole] at page
      rw [Nat.mod_eq_of_lt (by have := (pages _ page).1; omega)]
      exact (new _ page).1
    rw [written] at target
    obtain ⟨target₁, target₂, -⟩ :=
      List.forall_mem_cons.1 target |>.imp_right List.forall_mem_cons.1
    have ready₂ := (ready₀.fill first).fill second
    have ready₃ : m₃.Ready := by
      split at third
      · cases third
        exact ready₂
      · exact ready₂.remap pages third
    refine ⟨⟨dir₃, fun v high low => ?_⟩, ready₃, fun x o => ?_⟩
    · rw [← kernel.2 v high low]
      refine kept v low fun there => ?_
      have below := safe.maps (frame v) (by rwa [framedPages, whole])
      unfold RELOC_VADDR frame at *
      omega
    · change m₃.frames x o ≠ _ → _
      rw [frames₃]
      intro differ
      by_cases early : m₁.frames x o = m.frames x o
      · rw [← frames, ← early] at differ
        obtain ⟨v, lower, upper, rfl⟩ := Memory.fill_frames second differ
        rw [dir₁, dir, entryAt_congr pages₁]
        exact target₂ v lower upper
      · obtain ⟨v, lower, upper, rfl⟩ := Memory.fill_frames first early
        rw [dir]
        exact target₁ v lower upper

end Safety

theorem leBytes_lt (b : List UInt8) (i n : Nat) : leBytes b i n < 256 ^ n := by
  induction n generalizing i with
  | zero => simp [leBytes]
  | succ n ih =>
    have low := (b.getD i 0).toNat_lt
    have high := ih (i + 1)
    rw [leBytes, pow_succ]
    omega

theorem SegmentCall.small
    {s₀ : AddrSpace} {h : Phdr} (call : SegmentCall env c f eh is s s₀ h) :
    h.vaddr < 4294967296 ∧ h.memsz < 4294967296 := by
  induction call with
  | here => exact ⟨leBytes_lt _ _ 4, leBytes_lt _ _ 4⟩
  | loaded _ _ _ _ _ ih => exact ih
  | skipped _ _ _ ih => exact ih

/-- The loader leaves the kernel's pages alone, as long as the segments that it takes up are
safe. -/
theorem loadHeaders_keeps_kernel (ready : s.mem.Ready)
    (safe : ∀ s₀ h, SegmentCall env c f eh is s s₀ h → SegmentSafe c f s₀ h)
    (done : loadHeaders env c f eh is s link pbreak = some (ret, s')) :
    KernelKept s.mem s'.mem ∧ s'.mem.Ready := by
  refine (loadHeaders_keeps (I := fun t => KernelKept s.mem t.mem ∧ t.mem.Ready)
    (fun _ same => same) ?_ ⟨⟨rfl, fun _ _ _ => rfl⟩, ready⟩ done).1
  rintro s₀ h s₁ r call ⟨⟨dir, same⟩, ready₀⟩ step
  obtain ⟨⟨dir', kernel⟩, ready₁, -⟩ := (safe s₀ h call).effects ready₀ step
  have kept : KernelKept s.mem s₁.mem := by
    refine ⟨dir'.trans dir, fun v high low => ?_⟩
    rw [← dir, kernel v high low, dir, same v high low]
  exact ⟨⟨kept, ready₁⟩, fun _ _ => ⟨kept, ready₁⟩⟩

/-- The segments of confined headers are loaded safely; and if there is memory for the segments
that the loader takes up, and their bytes are in the file, no others are. -/
theorem load_phdrs_safe_iff {env : ExecEnv} {c : Credentials} {f : ExecFile} (eh : Ehdr)
    (is : List Nat) (s : AddrSpace) (reads : ∀ len offset bytes,
      vfsRead c f len offset = .ok bytes → bytes.length ≤ len) :
    ((∀ s₀ h, SegmentCall env c f eh is s s₀ h → Confined s₀ h) →
      ∀ s₀ h, SegmentCall env c f eh is s s₀ h → SegmentSafe c f s₀ h) ∧
    ((∀ s₀ h, SegmentCall env c f eh is s s₀ h → Supplied c f s₀ h) →
      ((∀ s₀ h, SegmentCall env c f eh is s s₀ h → SegmentSafe c f s₀ h) ↔
        ∀ s₀ h, SegmentCall env c f eh is s s₀ h → Confined s₀ h)) := by
  have enough : (∀ s₀ h, SegmentCall env c f eh is s s₀ h → Confined s₀ h) →
      ∀ s₀ h, SegmentCall env c f eh is s s₀ h → SegmentSafe c f s₀ h :=
    fun confined s₀ h call => (confined s₀ h call).safe reads
  refine ⟨enough, fun supplied => ⟨fun safe s₀ h call => ?_, enough⟩⟩
  exact (safe s₀ h call).confined (supplied s₀ h call) call.small

theorem vfsReadLen_le {attrs : FileAttrs} {len n : Nat} {offset : Int} (pos : 0 ≤ offset)
    (h : vfsReadLen c attrs len offset = .ok n) : n ≤ len := by
  unfold vfsReadLen at h
  split at h
  · cases h
  split at h
  · split at h
    · cases h
    split at h <;> cases h <;> omega
  · cases h
    exact le_rfl

/-- A file as an ext2 file system reads it: behind the end, and at a negative offset, there is
nothing. -/
def imageFile (bytes : List UInt8) : ExecFile where
  attrs := ⟨0o100755, 0, 0, bytes.length, 0⟩
  ops len offset := .ok (if 0 ≤ offset then (bytes.drop offset.toNat).take len else [])

theorem imageFile_reads (c : Credentials) (file : List UInt8) (len : Nat) (offset : Int)
    (bytes : List UInt8) (h : vfsRead c (imageFile file) len offset = .ok bytes) :
    bytes.length ≤ len := by
  unfold vfsRead at h
  cases read : vfsReadLen c (imageFile file).attrs len offset with
  | error e =>
    rw [read] at h
    cases h
  | ok n =>
    rw [read] at h
    cases h
    split
    · rename_i pos
      have := vfsReadLen_le pos read
      simp only [length_take]
      omega
    · exact Nat.zero_le _

/-- A program header for `0x1000` bytes of memory at an address whose third and fourth byte are
given. -/
def headerBytes (third fourth : UInt8) : List UInt8 :=
  [1, 0, 0, 0, 0, 0, 0, 0, 0, 0, third, fourth, 0, 0, 0, 0, 0, 0, 0, 0, 0, 0x10, 0, 0, 6, 0, 0, 0,
    0, 0x10, 0, 0]

def rootUser : Credentials := ⟨⟨0, 0, 0⟩, ⟨0, 0, 0⟩⟩

def plainEnv : ExecEnv where
  openFile _ _ := .error .ENOENT
  rtldSetup _ _ := none
  junk _ := 0
  junkBreak := 0
  heapStart := 0
  heapEnd := 0
  depth := 4

/-- An ELF header for one program header at the start of the file. -/
def oneHeader : Ehdr := ⟨[], ET_EXEC, EM_386, 0, 0, 32, 1⟩

/-- One segment at `0x400000`. -/
theorem load_phdrs_safe_iff_one :
    vfsRead rootUser (imageFile (headerBytes 0x40 0)) 32 (toOff (add32 0 (32 * 0))) =
      .ok (headerBytes 0x40 0) ∧
    ∀ s₀ h, SegmentCall plainEnv rootUser (imageFile (headerBytes 0x40 0)) oneHeader
      [0] AddrSpace.usedFrame s₀ h →
    SegmentSafe rootUser (imageFile (headerBytes 0x40 0)) s₀ h := by
  have read : vfsRead rootUser (imageFile (headerBytes 0x40 0)) 32 (toOff (add32 0 (32 * 0))) =
      .ok (headerBytes 0x40 0) := by decide +kernel
  refine ⟨read, (load_phdrs_safe_iff oneHeader [0] AddrSpace.usedFrame
    (imageFile_reads _ _)).1 fun s₀ h call => ?_⟩
  cases call with
  | here read' =>
    cases read.symm.trans read'
    exact ⟨by decide, by decide, .inl (by decide +kernel)⟩
  | loaded _ _ _ _ later => cases later
  | skipped _ _ later => cases later

/-- An address space whose kernel has the page `0xc0100000`. -/
def kernelPage : AddrSpace :=
  { AddrSpace.usedFrame with
    mem := { AddrSpace.usedFrame.mem with
      pages := fun o i =>
        if o = 1 ∧ i = 768 then 0x4007 else if o = 2 ∧ i = 768 then 4
        else if o = 4 ∧ i = 256 then 0x100003 else AddrSpace.usedFrame.mem.pages o i }
    kmallocs := [true, true] }

theorem kernelPage_tables {p : Nat} (high : p < 1023)
    (there : present (kernelPage.mem.pages 1 p) = true) : p = 0 ∨ p = 768 := by
  by_cases kernel : p = 768
  · exact .inr kernel
  · have same : kernelPage.mem.pages 1 p = usedFrame.mem.pages 1 p := by simp [kernelPage, kernel]
    exact .inl (usedFrame_only high (same ▸ there))

theorem kernelPage_ready : kernelPage.mem.Ready := by
  refine ⟨⟨by decide, fun p high there => ?_, fun p high q high' there there' same => ?_,
    fun p high there i _ gone => ?_⟩, ⟨by decide, by simp [kernelPage, usedFrame]⟩, by decide,
    by decide⟩
  · rcases kernelPage_tables high there with rfl | rfl <;> decide
  · rcases kernelPage_tables high there with rfl | rfl <;>
      rcases kernelPage_tables high' there' with rfl | rfl <;>
      first | rfl | exact absurd same (by decide)
  · rcases kernelPage_tables high there with rfl | rfl
    · exact eq_zero_of_absent rfl gone
    · exact eq_zero_of_absent (p := 4 = 4 ∧ i = 256) (w := 0x100003) rfl gone

/-- One segment below a kernel that has a page. -/
theorem loadHeaders_keeps_kernel_page : ∃ x,
    loadHeaders plainEnv rootUser (imageFile (headerBytes 0x10 0)) oneHeader [0] kernelPage
      ⟨false, 0, 0, 0⟩ 0 = some x ∧
    (KernelKept kernelPage.mem x.2.mem ∧ x.2.mem.Ready) ∧
    kernelPage.mem.entryAt 1 0xc0100000 = 0x100003 := by
  refine (isSome_iff_exists.1 (by decide +kernel)).imp fun x done =>
    ⟨done, loadHeaders_keeps_kernel kernelPage_ready (fun s₀ h call => ?_) done, by decide +kernel⟩
  have read : vfsRead rootUser (imageFile (headerBytes 0x10 0)) 32 (toOff (add32 0 (32 * 0))) =
      .ok (headerBytes 0x10 0) := by decide +kernel
  cases call with
  | here read' =>
    cases read.symm.trans read'
    exact Confined.safe ⟨by decide, by decide, .inl (by decide +kernel)⟩ (imageFile_reads _ _)
  | loaded _ _ _ _ later => cases later
  | skipped _ _ later => cases later

/-- A segment at `0xc0100000`: the kernel's page there becomes a page of the process. -/
theorem hostile_header_maps_kernel :
    (¬∀ s₀ h, SegmentCall plainEnv rootUser (imageFile (headerBytes 0x10 0xc0)) oneHeader [0]
      kernelPage s₀ h → SegmentSafe rootUser (imageFile (headerBytes 0x10 0xc0)) s₀ h) ∧
    ∃ x, loadHeaders plainEnv rootUser (imageFile (headerBytes 0x10 0xc0)) oneHeader [0] kernelPage
      ⟨false, 0, 0, 0⟩ 0 = some x ∧ ¬KernelKept kernelPage.mem x.2.mem := by
  constructor
  · intro safe
    have read : vfsRead rootUser (imageFile (headerBytes 0x10 0xc0)) 32
        (toOff (add32 oneHeader.phoff (oneHeader.phentsize * 0))) = .ok (headerBytes 0x10 0xc0) := by
      decide +kernel
    have maps := (safe _ _ (.here read (by decide +kernel))).maps 0xc0100000 (by decide +kernel)
    exact absurd maps (by decide)
  · have done : (loadHeaders plainEnv rootUser (imageFile (headerBytes 0x10 0xc0)) oneHeader [0]
        kernelPage ⟨false, 0, 0, 0⟩ 0).map (fun x => x.2.mem.entryAt 1 0xc0100000) =
        some 0x300007 := by decide +kernel
    obtain ⟨x, call, entry⟩ := Option.map_eq_some_iff.1 done
    refine ⟨x, call, fun kept => ?_⟩
    have same := kept.2 0xc0100000 (by decide) (by decide)
    rw [show kernelPage.mem.currDir = 1 from rfl, entry] at same
    exact absurd same (by decide +kernel)

end Os0
