import Os0.Process.ExecFails
import Os0.Process.Vfork

/-! An `execve` in the directory that `sys_vfork` has left the child. It gives up the regions that
were copied from the parent's table and loads an image between the pages of the parent. -/
namespace Os0

open Bytes List Option AddrSpace

/-- A region below the kernel that does not have the page. -/
structure Region.Spares (v : Nat) (r : Region) : Prop where
  base : r.base % 4096 = 0
  low : r.base + r.len ≤ RELOC_VADDR
  apart : v ∉ pageRange r.base (AddrSpace.regionEnd r)

/-- A segment below the kernel that does not have the page. -/
structure Phdr.Spares (v : Nat) (h : Phdr) : Prop where
  bytes : h.filesz ≤ h.memsz
  low : h.vaddr + h.memsz ≤ RELOC_VADDR
  apart : v ∉ segmentPages h

/-- A page is held, and no region of the process has it. -/
structure AddrSpace.Around (dir v f : Nat) (bytes : Nat → UInt8) (s : AddrSpace) : Prop where
  held : Memory.Held dir v f bytes s.mem
  apart : ∀ r ∈ s.table, r.Spares v

/-- A program header of an executable file. -/
def HasHeader (env : ExecEnv) (image : ExecFile) (h : Phdr) : Prop :=
  ∃ head i bytes, vfsRead rootUser image 52 0 = .ok head ∧
    (decodeEhdr (execBuffer env head 52)).ok = true ∧
    i < (decodeEhdr (execBuffer env head 52)).phnum ∧
    vfsRead rootUser image 32 (toOff (add32 (decodeEhdr (execBuffer env head 52)).phoff
      ((decodeEhdr (execBuffer env head 52)).phentsize * i))) = .ok bytes ∧
    h = decodePhdr (execBuffer env bytes 32)

/-- An image that is loaded without the page. -/
structure ImageApart (env : ExecEnv) (image : ExecFile) (v : Nat) : Prop where
  /-- A file system returns no more bytes than it is asked for. -/
  reads : ∀ len offset bytes, vfsRead rootUser image len offset = .ok bytes → bytes.length ≤ len
  segments : ∀ h, HasHeader env image h → h.type = PT_LOAD → h.Spares v
  /-- Only an image that names a dynamic linker has it loaded. -/
  linker : ∀ h, HasHeader env image h → h.type = PT_INTERP ∨ h.type = PT_DYNAMIC →
    ∀ s link ret s' dir f bytes, env.rtldSetup s link = some (ret, s') →
      s.Around dir v f bytes → Memory.Reserved f s.mem → s'.Around dir v f bytes

/-- The exec passes every check that comes before `process_clear`, and this is the image. -/
def ExecCall.ComesTo (call : ExecCall) (c : Credentials) (image : ExecFile) : Prop :=
  ∃ f, call.env.openFile c call.path = .ok f ∧ hasFlag f.attrs.mntflags MS_NOEXEC = false ∧
    isType f.attrs.mode S_IFDIR = false ∧ vfsPermCheckExec c f.attrs false = none ∧
    LeadsToImage call.env c call.envp f call.argv ∧ Image call.env c f image

section Segment

variable {v : Nat} {h : Phdr}

variable (apart : h.Spares v)
include apart

theorem Phdr.Spares.page {w : Nat} (mem : w ∈ segmentPages h) :
    w < 0xffc00000 ∧ w % 4096 = 0 ∧ w ≠ v := by
  obtain ⟨_, _, base⟩ := mem_loopPages.1 mem
  have stop : add32 h.vaddr h.memsz ≤ h.vaddr + h.memsz := Nat.mod_le _ _
  have low := apart.low
  unfold RELOC_VADDR at low
  refine ⟨by omega, base, ?_⟩
  rintro rfl
  exact apart.apart mem

/-- The addresses of the segment are in its pages. -/
theorem Phdr.Spares.address {a : Nat} (lower : h.vaddr ≤ a) (upper : a < h.vaddr + h.memsz) :
    frame a % 4294967296 < 0xffc00000 ∧ frame a % 4294967296 ≠ v := by
  have low := apart.low
  unfold RELOC_VADDR at low
  have mem : frame a ∈ segmentPages h := by
    rw [mem_loopPages, add32_eq (by omega)]
    unfold frame
    omega
  obtain ⟨small, -, other⟩ := apart.page mem
  rw [Nat.mod_eq_of_lt (by omega)]
  exact ⟨small, other⟩

theorem Phdr.Spares.record : (segmentRecord h).Spares v := by
  obtain ⟨-, low, notin⟩ := apart
  have whole : (segmentRecord h).len = roundUp h.memsz := by
    apply roundPage_whole
    unfold RELOC_VADDR at low
    unfold roundUp
    omega
  have fits : (segmentRecord h).base + (segmentRecord h).len ≤ RELOC_VADDR := by
    rw [whole]
    unfold RELOC_VADDR at low ⊢
    simp only [segmentRecord, frame, roundUp]
    omega
  constructor
  case base =>
    simp only [segmentRecord, frame]
    omega
  case low => exact fits
  case apart =>
    intro mem
    obtain ⟨lower, upper, aligned⟩ := pageRange_mem mem
    rw [regionEnd, add32_eq (by unfold RELOC_VADDR at fits; omega), whole] at upper
    apply notin
    rw [mem_loopPages, add32_eq (by unfold RELOC_VADDR at low; omega)]
    simp only [segmentRecord, frame, roundUp] at lower upper aligned ⊢
    omega

end Segment

namespace AddrSpace

variable {s s' : AddrSpace} {dir v f : Nat} {bytes : Nat → UInt8}

section

variable (around : s.Around dir v f bytes)
include around

theorem Around.congr (mem : s'.mem = s.mem)
    (table : ∀ r ∈ s'.table, r ∈ s.table) : s'.Around dir v f bytes :=
  ⟨mem ▸ around.held, fun r hr => around.apart r (table r hr)⟩

theorem Around.pages : ∀ w ∈ s.regionPages, w < 0xffc00000 ∧ w % 4096 = 0 ∧ w ≠ v := by
  intro w mem
  obtain ⟨r, hr, mem⟩ := mem_flatMap.1 mem
  obtain ⟨_, low, apart⟩ := around.apart r hr
  obtain ⟨_, upper, _⟩ := pageRange_mem mem
  unfold RELOC_VADDR at low
  rw [regionEnd, add32_eq (by omega)] at upper
  refine ⟨by omega, by omega, ?_⟩
  rintro rfl
  exact apart mem

theorem Around.destroy (h : s.destroyRegions = some s') : Memory.Held dir v f bytes s'.mem := by
  rw [destroyRegions_mem h, released_eq, around.held.curr]
  exact around.held.releasePages [] around.pages

end

theorem kmalloc_table {p : Option Nat} (h : s.kmalloc = (p, s')) :
    s'.mem = s.mem ∧ s'.table = s.table := by
  obtain ⟨mem, regions, records, -⟩ := kmalloc_fields h
  exact ⟨mem, by rw [table, table, regions, records]⟩

theorem newRegions_table {made : Bool} (h : s.newRegions = (made, s')) :
    s'.mem = s.mem ∧ (s'.table = s.table ∨ s'.table = []) := by
  unfold newRegions at h
  cases first : s.kmalloc with
  | mk p s₁ =>
    obtain ⟨mem₁, table₁⟩ := kmalloc_table first
    rw [first] at h
    cases p with
    | none =>
      cases h
      exact ⟨mem₁, .inl table₁⟩
    | some p =>
      dsimp only at h
      cases second : s₁.kmalloc with
      | mk q =>
        obtain ⟨mem₂, table₂⟩ := kmalloc_table second
        rw [second] at h
        cases q with
        | none =>
          cases h
          exact ⟨mem₂.trans mem₁, .inl (table₂.trans table₁)⟩
        | some q =>
          cases h
          exact ⟨mem₂.trans mem₁, .inr rfl⟩

end AddrSpace

section Load

variable {s s' : AddrSpace} {dir v f : Nat} {bytes : Nat → UInt8} {c : Credentials}
  {image : ExecFile} {h : Phdr} {ret : Except ExecError Nat}

/-- The bytes of a segment are written to its own pages. -/
theorem AddrSpace.Around.fillSegment (around : s.Around dir v f bytes)
    (reserved : Memory.Reserved f s.mem) (apart : h.Spares v)
    (reads : ∀ len offset bytes, vfsRead c image len offset = .ok bytes → bytes.length ≤ len)
    (call : fillSegment c image s h = some (ret, s')) :
    s'.Around dir v f bytes ∧ Memory.Reserved f s'.mem := by
  obtain ⟨-, -, -, rfl⟩ | ⟨_, _, _, _, ok, first, second, third, -, rfl⟩ :=
    fillSegment_cases call
  · exact ⟨around, reserved⟩
  have count := segmentBytes_length reads ok
  have fits := apart.bytes
  have low := apart.low
  unfold RELOC_VADDR at low
  obtain ⟨held₁, stack₁, addr₁⟩ := around.held.fill
    (fun a lower upper => apart.address lower (by omega)) first
  rw [add32_eq (by omega), sub32_eq fits (by omega)] at second
  obtain ⟨held₂, stack₂, addr₂⟩ := held₁.fill
    (fun a lower upper => apart.address (by omega) (by omega)) second
  have reserved₂ := (reserved.congr stack₁ addr₁).congr stack₂ addr₂
  split at third
  · cases third
    exact ⟨⟨held₂, around.apart⟩, reserved₂⟩
  · obtain ⟨held₃, stack₃, addr₃⟩ := held₂.remap
      (fun w mem => ⟨(apart.page mem).1, (apart.page mem).2.1⟩) third
    exact ⟨⟨held₃, around.apart⟩, reserved₂.congr stack₃ addr₃⟩

theorem AddrSpace.Around.loadSegment (around : s.Around dir v f bytes)
    (reserved : Memory.Reserved f s.mem) (apart : h.Spares v)
    (reads : ∀ len offset bytes, vfsRead c image len offset = .ok bytes → bytes.length ≤ len)
    (call : processLoadSegment c image s h = some (ret, s')) :
    s'.Around dir v f bytes ∧ ∀ stop, ret = .ok stop → Memory.Reserved f s'.mem := by
  obtain ⟨-, _, m, mapped, which⟩ := processLoadSegment_cases call
  obtain ⟨held, taken⟩ := around.held.mapNew reserved (fun w mem => apart.page mem) mapped
  have mapped : { s with mem := m }.Around dir v f bytes := ⟨held, around.apart⟩
  rcases which with ⟨-, rfl, rfl⟩ | ⟨-, hk, rfl⟩ | ⟨p, _, s₂, rfl, hk, added, filled⟩
  · exact ⟨mapped, nofun⟩
  · obtain ⟨mem, table⟩ := kmalloc_table hk
    exact ⟨mapped.congr mem (fun r hr => table ▸ hr), nofun⟩
  · obtain ⟨mem, table⟩ := kmalloc_table hk
    have mem₂ : s₂.mem = m := (addRegion_mem added).trans mem
    have around₂ : s₂.Around dir v f bytes := by
      refine ⟨mem₂ ▸ held, fun r hr => ?_⟩
      rcases addRegion_table added r hr with rfl | old
      · exact apart.record
      · exact around.apart r (table ▸ old)
    obtain ⟨around', reserved'⟩ := around₂.fillSegment (mem₂ ▸ taken rfl) apart reads filled
    exact ⟨around', fun _ _ => reserved'⟩

/-- The header of a segment is one of those of the file. -/
theorem SegmentCall.header {env : ExecEnv} {eh : Ehdr} {is : List Nat} {s₀ : AddrSpace}
    (call : SegmentCall env c image eh is s s₀ h) : ∃ i ∈ is, ∃ bytes,
      vfsRead c image 32 (toOff (add32 eh.phoff (eh.phentsize * i))) = .ok bytes ∧
      (decodePhdr (execBuffer env bytes 32)).type = PT_LOAD ∧
      h = decodePhdr (execBuffer env bytes 32) := by
  induction call with
  | here read load => exact ⟨_, mem_cons_self, _, read, load, rfl⟩
  | loaded _ _ _ _ _ ih =>
    obtain ⟨i, mem, rest⟩ := ih
    exact ⟨i, mem_cons_of_mem _ mem, rest⟩
  | skipped _ _ _ ih =>
    obtain ⟨i, mem, rest⟩ := ih
    exact ⟨i, mem_cons_of_mem _ mem, rest⟩

variable {env : ExecEnv}

/-- One of the headers asks for the dynamic linker. -/
def NamesLinker (env : ExecEnv) (c : Credentials) (image : ExecFile) (eh : Ehdr) (is : List Nat) :
    Prop :=
  ∃ i ∈ is, ∃ bytes, vfsRead c image 32 (toOff (add32 eh.phoff (eh.phentsize * i))) = .ok bytes ∧
    ((decodePhdr (execBuffer env bytes 32)).type = PT_INTERP ∨
      (decodePhdr (execBuffer env bytes 32)).type = PT_DYNAMIC)

theorem loadHeaders_active {eh : Ehdr} {is : List Nat} {link link' : LinkInfo} {pbreak stop : Nat}
    (done : loadHeaders env c image eh is s link pbreak = some (.ok (stop, link'), s'))
    (active : link'.active = true) : link.active = true ∨ NamesLinker env c image eh is := by
  induction is generalizing s link pbreak with
  | nil =>
    unfold loadHeaders at done
    split at done <;> cases done
    exact .inl active
  | cons i is ih =>
    have later : ∀ {t : AddrSpace} {l : LinkInfo} {b : Nat}, l.active = link.active →
        loadHeaders env c image eh is t l b = some (.ok (stop, link'), s') →
        link.active = true ∨ NamesLinker env c image eh (i :: is) := by
      intro t l b same rest
      obtain before | ⟨j, mem, found⟩ := ih rest
      · exact .inl (same ▸ before)
      · exact .inr ⟨j, mem_cons_of_mem _ mem, found⟩
    unfold loadHeaders at done
    cases read : vfsRead c image 32 (toOff (add32 eh.phoff (eh.phentsize * i))) with
    | error e =>
      rw [read] at done
      cases done
    | ok bytes =>
      rw [read] at done
      dsimp only at done
      split at done
      · obtain ⟨⟨r, t⟩, -, done⟩ := bind_eq_some_iff.1 done
        cases r with
        | error e => cases done
        | ok =>
          dsimp only at done
          split at done
          · cases done
          · refine later ?_ done
            split <;> rfl
      split at done
      · rename_i interp
        exact .inr ⟨i, mem_cons_self, bytes, read, .inl interp⟩
      split at done
      · rename_i dynamic
        exact .inr ⟨i, mem_cons_self, bytes, read, .inr dynamic⟩
      · exact later rfl done

theorem AddrSpace.Around.remapSegments (around : s.Around dir v f bytes)
    (call : processRemapSegments s = some s') : s'.Around dir v f bytes := by
  obtain ⟨m, steps, rfl⟩ := map_eq_some_iff.1 call
  refine ⟨?_, around.apart⟩
  refine Runs.foldlM_keeps steps around.held fun r mem m₀ m₁ held first => ?_
  refine (held.remap (fun w mem' => ?_) first).1
  have short := (around.apart r (mem_filter.1 mem).1).low
  obtain ⟨lower, upper, aligned⟩ := pageRange_mem mem'
  unfold RELOC_VADDR at short
  unfold LD_SO_LOAD_ADDR at lower upper aligned
  rw [add32_eq (by omega)] at upper
  omega

theorem AddrSpace.Around.linkImage {entry pbreak : Nat} {link : LinkInfo}
    (around : s.Around dir v f bytes) (reserved : Memory.Reserved f s.mem)
    (linker : link.active = true → ∀ s link ret s' dir f bytes,
      env.rtldSetup s link = some (ret, s') → s.Around dir v f bytes →
      Memory.Reserved f s.mem → s'.Around dir v f bytes)
    (call : linkImage env s entry pbreak link = some (ret, s')) : s'.Around dir v f bytes := by
  unfold Os0.linkImage at call
  dsimp only at call
  have start : ∀ brk, { s with brk := brk, initBreak := brk }.Around dir v f bytes :=
    fun _ => ⟨around.held, around.apart⟩
  split at call
  · rename_i active
    split at call
    · cases call
      exact start _
    · obtain ⟨⟨r, s₁⟩, loaded, eq⟩ := map_eq_some_iff.1 call
      have around₁ := linker active _ _ _ _ _ _ _ loaded (start _) reserved
      cases r with
      | error e =>
        cases eq
        exact around₁
      | ok entry =>
        cases eq
        exact around₁
  · obtain ⟨s₁, remapped, eq⟩ := map_eq_some_iff.1 call
    cases eq
    exact (start _).remapSegments remapped

theorem AddrSpace.Around.loadImage (held : Memory.Held dir v f bytes s.mem)
    (table : s.table = []) (reserved : Memory.Reserved f s.mem) (apart : ImageApart env image v)
    (call : loadImage env rootUser image s = some (ret, s')) : s'.Around dir v f bytes := by
  unfold Os0.loadImage at call
  cases made : s.newRegions with
  | mk b s₁ =>
    obtain ⟨mem₁, table₁⟩ := newRegions_table made
    have none₁ : s₁.table = [] := table₁.elim (fun same => same.trans table) id
    have around₁ : s₁.Around dir v f bytes := ⟨mem₁ ▸ held, by simp [none₁]⟩
    rw [made] at call
    cases b with
    | false =>
      cases call
      exact around₁
    | true =>
      dsimp only at call
      cases hk : s₁.kmalloc with
      | mk p s₂ =>
        obtain ⟨mem₂, table₂⟩ := kmalloc_table hk
        have around₂ : s₂.Around dir v f bytes := around₁.congr mem₂ fun r hr => table₂ ▸ hr
        rw [hk] at call
        cases p with
        | none =>
          cases call
          exact around₂
        | some p =>
          cases read : vfsRead rootUser image 52 0 with
          | error e =>
            rw [read] at call
            cases call
            exact around₂
          | ok head =>
            rw [read] at call
            dsimp only at call
            split at call
            · cases call
              exact around₂
            rename_i good
            rw [Bool.not_eq_true, Bool.not_eq_false] at good
            obtain ⟨⟨r, _⟩, loaded, call⟩ := bind_eq_some_iff.1 call
            unfold processLoadPhdrs at loaded
            cases hk' : s₂.kmalloc with
            | mk q s₃ =>
              obtain ⟨mem₃, table₃⟩ := kmalloc_table hk'
              have around₃ : s₃.Around dir v f bytes :=
                around₂.congr mem₃ fun r hr => table₃ ▸ hr
              rw [hk'] at loaded
              cases q with
              | none =>
                cases loaded
                cases call
                exact around₃
              | some q =>
                have reserved₃ : Memory.Reserved f s₃.mem := by
                  rw [mem₃, mem₂, mem₁]
                  exact reserved
                obtain ⟨around₄, reserved₄⟩ := loadHeaders_keeps
                  (I := fun t => t.Around dir v f bytes ∧ Memory.Reserved f t.mem)
                  (J := fun t => t.Around dir v f bytes) (fun _ both => both.1)
                  (fun s₀ h t r at_ both step => by
                    obtain ⟨i, mem, bytes', got, load, rfl⟩ := at_.header
                    obtain ⟨kept, still⟩ := both.1.loadSegment both.2 (apart.segments _
                      ⟨head, i, bytes', read, good, mem_range.1 mem, got, rfl⟩ load)
                      apart.reads step
                    exact ⟨kept, fun stop done => ⟨kept, still stop done⟩⟩)
                  ⟨around₃, reserved₃⟩ loaded
                cases r with
                | error e =>
                  cases call
                  exact around₄
                | ok x =>
                  refine around₄.linkImage (reserved₄ x rfl).2 (fun active => ?_) call
                  obtain none | ⟨i, mem, bytes', got, type⟩ := loadHeaders_active loaded active
                  · cases none
                  · exact apart.linker _
                      ⟨head, i, bytes', read, good, mem_range.1 mem, got, rfl⟩ type

end Load

section Exec

variable {env : ExecEnv} {p : Process}

theorem closeOnExec_space (p : Process) : (closeOnExec p).space = p.space := by
  unfold closeOnExec
  generalize range p.files.length = fds
  induction fds generalizing p with
  | nil => rfl
  | cons _ fds ih =>
    rw [foldl_cons]
    split
    · rw [ih]
      unfold processFreeFd
      split <;> rfl
    · exact ih p

/-- What `process_clear` leaves of a directory that is not the process's own. -/
theorem processClear_shared {q : Process} (shared : p.pgcopied = false)
    (h : processClear env p = some q) :
    q.space.mem = p.space.released.1.releaseFrames (pageRange p.space.initBreak p.space.brk) ∧
      q.space.table = [] ∧ q.cred = rootUser := by
  obtain ⟨s, destroyed, rfl⟩ := map_eq_some_iff.1 h
  obtain ⟨initBreak, brk⟩ := destroyRegions_breaks destroyed
  refine ⟨?_, ?_, rfl⟩
  · simp only [shared, Bool.false_eq_true, if_false]
    rw [destroyRegions_mem destroyed, initBreak, brk]
  · unfold destroyRegions at destroyed
    split at destroyed <;> cases destroyed
    rfl

theorem ExecCall.ComesTo.unique {call : ExecCall} {c : Credentials} {image image' : ExecFile}
    (h : call.ComesTo c image) (h' : call.ComesTo c image') : image = image' := by
  obtain ⟨f, opened, -, -, -, -, leads⟩ := h
  obtain ⟨f', opened', -, -, -, -, leads'⟩ := h'
  obtain rfl := Except.ok.inj (opened.symm.trans opened')
  exact leads.unique leads'

/-- An exec leaves the memory alone, or loads the image that it has come to. -/
theorem sysExecve_cases {call : ExecCall} {p' : Process} {ret : Except ExecError Nat}
    (done : sysExecve call.env p call.path call.argv call.envp = some (ret, p')) :
    p'.space = p.space ∨ ∃ image argv p₁, call.ComesTo p.cred image ∧
      taskSetupExec argv call.envp = none ∧
      (∃ r, execBinary call.env p image argv call.envp = some (r, p₁)) ∧ p'.space = p₁.space := by
  unfold sysExecve at done
  cases opened : call.env.openFile p.cred call.path with
  | error e =>
    rw [opened] at done
    cases done
    exact .inl rfl
  | ok f =>
    rw [opened] at done
    dsimp only at done
    split at done
    · cases done
      exact .inl rfl
    rename_i exec
    split at done
    · cases done
      exact .inl rfl
    rename_i file
    split at done
    · cases done
      exact .inl rfl
    rename_i allowed
    obtain ⟨⟨r, p₁⟩, ran, eq⟩ := map_eq_some_iff.1 done
    have same : p'.space = p₁.space := by
      cases r with
      | error e =>
        cases eq
        rfl
      | ok =>
        cases eq
        rfl
    obtain ⟨rfl, -⟩ | ⟨leads, image, argv', chain, accepted, loaded⟩ := processExec_cases ran
    · exact .inl same
    · rw [Bool.not_eq_true] at exec file
      exact .inr ⟨image, argv', p₁, ⟨f, opened, exec, file, allowed, leads, chain⟩, accepted,
        ⟨r, loaded⟩, same⟩

end Exec

namespace AddrSpace

section Child

variable {s s' : AddrSpace} {rs : List Region} {env : ForkEnv} {dir : Nat}
  {regions : Option (SortedArray Nat)} (parent : Parent s rs) (kernel : env.Kernel)
  (forked : s.taskFork env false = some (some (dir, regions), s')) {call : ExecCall} {p p' : Process}
  {ret : Except ExecError Nat} (child : p.space = s'.forkChild dir regions)
  (shared : p.pgcopied = false)

include parent kernel forked child shared

/-- What an exec gives up before it loads the image. -/
theorem vfork_clear_iff (cleared : processClear call.env p = some p') :
    PagesKept s p'.space.mem ↔ Spared s := by
  have none : pageRange p.space.initBreak p.space.brk = [] := by
    rw [child]
    exact pageRange_nil le_rfl
  rw [(processClear_shared shared cleared).1, none, child]
  exact vfork_release_iff parent kernel forked (by simp)

/-- A page of the heap that the image does not have is still there when the image has been loaded,
or could not be loaded. -/
theorem vfork_image_held {image : ExecFile} {argv : List (List UInt8)} {v : Nat}
    (spared : Spared s) (mem : v ∈ s.userPages)
    (there : present (s.mem.entryAt s.mem.currDir v) = true)
    (apart : ImageApart call.env image v) (accepted : taskSetupExec argv call.envp = none)
    (loaded : execBinary call.env p image argv call.envp = some (ret, p')) :
    Memory.Held s.mem.currDir v (frame (s.mem.entryAt s.mem.currDir v))
      (s.mem.frames (frame (s.mem.entryAt s.mem.currDir v))) p'.space.mem := by
  obtain ⟨curr, pages, childUser⟩ := forkChild_pages parent forked
  have shares := vfork_shares forked
  obtain ⟨held, reserved⟩ :=
    vfork_held parent kernel forked mem there (spared.apart v mem there)
  unfold execBinary at loaded
  rw [accepted] at loaded
  obtain ⟨q, cleared, loaded⟩ := bind_eq_some_iff.1 loaded
  obtain ⟨mem', table, cred⟩ := processClear_shared
    (p := { p with execData := (argv, call.envp) }) shared cleared
  have none : pageRange p.space.initBreak p.space.brk = [] := by
    rw [child]
    exact pageRange_nil le_rfl
  rw [none, child] at mem'
  have other : ∀ w ∈ (s'.forkChild dir regions).regionPages,
      w < 0xffc00000 ∧ w % 4096 = 0 ∧ w ≠ v := by
    intro w region
    refine ⟨(childUser w region).1, (childUser w region).2, ?_⟩
    rintro rfl
    exact spared.region there ((pages w).1 region)
  have held' : Memory.Held s.mem.currDir v (frame (s.mem.entryAt s.mem.currDir v))
      (s.mem.frames (frame (s.mem.entryAt s.mem.currDir v))) q.space.mem := by
    rw [mem', released_eq, curr, shares]
    exact held.releasePages [] other
  have reserved' : Memory.Reserved (frame (s.mem.entryAt s.mem.currDir v)) q.space.mem := by
    rw [mem', released_eq, shares]
    exact reserved.releasePages [] fun w region => (other w region).2.1
  have space := closeOnExec_space q
  rw [(closeOnExec_same q).cred, cred, space] at loaded
  obtain ⟨⟨r, t⟩, load, loaded⟩ := bind_eq_some_iff.1 loaded
  have around := Around.loadImage held' table reserved' apart load
  cases r with
  | error e =>
    obtain ⟨_, destroyed, eq⟩ := map_eq_some_iff.1 loaded
    cases eq
    exact around.destroy destroyed
  | ok =>
    cases loaded
    unfold setImageIds
    split <;> exact around.held

omit shared in
/-- An exec that comes to no image leaves the parent what the call has left. -/
theorem vfork_refused_iff
    (done : sysExecve call.env p call.path call.argv call.envp = some (ret, p'))
    (refused : ∀ image, ¬call.ComesTo p.cred image) : PagesKept s p'.space.mem ↔
      ∀ v ∈ s.userPages, present (s.mem.entryAt s.mem.currDir v) = true → ¬Staged v := by
  have same : p'.space = p.space := by
    rcases sysExecve_cases done with eq | ⟨image, _, _, comes, -⟩
    · exact eq
    · exact absurd comes (refused image)
  rw [same, child, vfork_shares forked]
  exact vfork_keeps_iff parent kernel forked

/-- One that does gives up the regions and loads the image. -/
theorem vfork_exec_keeps {image : ExecFile}
    (done : sysExecve call.env p call.path call.argv call.envp = some (ret, p'))
    (comes : call.ComesTo p.cred image) (spared : Spared s)
    (clear : ∀ v ∈ pageRange s.initBreak s.brk, present (s.mem.entryAt s.mem.currDir v) = true →
      ImageApart call.env image v) : PagesKept s p'.space.mem := by
  rcases sysExecve_cases done with eq | ⟨image', argv', p₁, comes', accepted, ⟨r, loaded⟩, eq⟩
  · rw [eq, child, vfork_shares forked]
    exact (vfork_keeps_iff parent kernel forked).2 spared.apart
  · obtain rfl := comes.unique comes'
    rw [eq]
    refine .of_held fun v mem there => ?_
    have heap := (mem_append.1 mem).resolve_left (spared.region there)
    exact vfork_image_held parent kernel forked child shared spared mem there
      (clear v heap there) accepted loaded

end Child

/-- What is left of a parent's pages: by the call itself, by the exit of the child, by the part of
an exec that gives up the old image, by an exec that is refused before that, and by an exec of an
image that is apart from the heap. -/
theorem vfork_preserves_iff {s s' : AddrSpace} {rs : List Region} {env : ForkEnv} {dir : Nat}
    {regions : Option (SortedArray Nat)} (parent : Parent s rs) (kernel : env.Kernel)
    (forked : s.taskFork env false = some (some (dir, regions), s')) :
    (PagesKept s s'.mem ↔
      ∀ v ∈ s.userPages, present (s.mem.entryAt s.mem.currDir v) = true → ¬Staged v) ∧
    (∀ s'', (s'.forkChild dir regions).processExit false = some s'' →
      (PagesKept s s''.mem ↔ Spared s)) ∧
    ∀ (call : ExecCall) (p : Process), p.space = s'.forkChild dir regions → p.pgcopied = false →
      (∀ q, processClear call.env p = some q → (PagesKept s q.space.mem ↔ Spared s)) ∧
      ∀ ret p', sysExecve call.env p call.path call.argv call.envp = some (ret, p') →
        ((∀ image, ¬call.ComesTo p.cred image) → (PagesKept s p'.space.mem ↔
          ∀ v ∈ s.userPages, present (s.mem.entryAt s.mem.currDir v) = true → ¬Staged v)) ∧
        ∀ image, call.ComesTo p.cred image → Spared s →
          (∀ v ∈ pageRange s.initBreak s.brk,
            present (s.mem.entryAt s.mem.currDir v) = true → ImageApart call.env image v) →
          PagesKept s p'.space.mem := by
  refine ⟨vfork_keeps_iff parent kernel forked, ?_, ?_⟩
  · exact fun s'' exited => vfork_exit_iff parent kernel forked exited
  · intro call p child shared
    refine ⟨fun q cleared => ?_, fun ret p' done => ⟨fun refused => ?_, ?_⟩⟩
    · exact vfork_clear_iff parent kernel forked child shared cleared
    · exact vfork_refused_iff parent kernel forked child done refused
    · intro image comes spared clear
      exact vfork_exec_keeps parent kernel forked child shared done comes spared clear

/-- A directory with a user page at `0x10000` and a page of the kernel at `0xc0100000`. -/
def onePage : Memory where
  pages o i :=
    if o = 1 then
      if i = 0 then 0x3007 else if i = 768 then 0x4003 else if i = 1023 then 2 else 0
    else if o = 2 then (if i = 0 then 3 else if i = 768 then 4 else 0)
    else if o = 3 then (if i = 16 then 0x102007 else 0)
    else if o = 4 then (if i = 256 then 0x200003 else 0)
    else 0
  frames _ _ := 0x55
  currDir := 1
  pageStack := []
  currAddr := 0x400000
  supply := [some 5]
  released := []

theorem onePage_tables {i : Nat} (high : i < 1023) (there : present (onePage.pages 1 i) = true) :
    i = 0 ∨ i = 768 := by
  by_contra other
  rw [not_or] at other
  have none : onePage.pages 1 i = 0 := by
    simp [onePage, other, show i ≠ 1023 by omega]
  rw [none] at there
  cases there

theorem onePage_dir : onePage.DirOk 1 := by
  constructor
  case vmap_ne => decide
  case table_ne =>
    intro i hi there
    rcases onePage_tables hi there with rfl | rfl <;> decide
  case distinct =>
    intro i hi j hj hi' hj'
    rcases onePage_tables hi hi' with rfl | rfl <;> rcases onePage_tables hj hj' with rfl | rfl <;>
      decide
  case absent =>
    intro i hi there j _ gone
    rcases onePage_tables hi there with rfl | rfl
    · exact eq_zero_of_absent (p := j = 16) (w := 0x102007) rfl gone
    · exact eq_zero_of_absent (p := j = 256) (w := 0x200003) rfl gone

theorem onePage_frame {w : Nat} (low : w < 0xffc00000) (base : w % 4096 = 0) (other : w ≠ 0x10000) :
    onePage.getPaddr 1 w ≠ 0x102000 := by
  have high := pdi_lt low
  unfold Memory.getPaddr
  split
  · rename_i there
    rcases onePage_tables high there with eq | eq
    · have index : pti w ≠ 16 := by
        unfold pdi at eq
        unfold pti
        omega
      have word : onePage.pages (onePage.table 1 (pdi w)) (pti w) = 0 := by
        rw [eq]
        exact if_neg index
      unfold add32 frame pageFlags
      omega
    · have word : onePage.pages (onePage.table 1 (pdi w)) (pti w) = 0x200003 ∨
          onePage.pages (onePage.table 1 (pdi w)) (pti w) = 0 := by
        rw [eq]
        change (if pti w = 256 then 0x200003 else 0) = 0x200003 ∨
          (if pti w = 256 then 0x200003 else 0) = 0
        split
        · exact .inl rfl
        · exact .inr rfl
      rcases word with word | word <;> rw [word] <;> unfold add32 frame pageFlags <;> omega
  · decide

theorem onePage_held : Memory.Held 1 0x10000 0x102000 (fun _ => 0x55) onePage ∧
    Memory.Reserved 0x102000 onePage := by
  constructor
  · constructor
    case curr => rfl
    case ok => exact onePage_dir
    case fresh =>
      refine ⟨by decide, fun object new => ?_⟩
      obtain rfl : object = 5 := by simpa [onePage] using new
      refine ⟨by decide, ?_⟩
      rintro (eq | eq | ⟨i, high, there, eq⟩)
      · cases eq
      · cases eq
      · rcases onePage_tables high there with rfl | rfl <;> cases eq
    case low => decide
    case base => decide
    case nonzero => decide
    case small => decide
    case there => decide
    case mapped => decide
    case alone => exact fun w low base other => onePage_frame low base other
    case bytes => rfl
    case taken => simp [onePage]
  · exact ⟨by simp [onePage], by decide, by decide⟩

/-- A parent whose heap is the page. -/
def heapParent : AddrSpace where
  mem := onePage
  regions := .place PROCESS_MMAP_LIMIT
  records _ := none
  next := 1
  kmallocs := List.replicate 4 true
  refs _ := 1
  initBreak := 0x10000
  brk := 0x11000
  pid := 1

def pageRegion : Region :=
  ⟨0x10000, 0x1000, PROT_READ ||| PROT_WRITE, MAP_PRIVATE ||| MAP_ANONYMOUS, none, 0⟩

/-- A parent with a region that is the page, and no heap. -/
def regionParent : AddrSpace where
  mem := onePage
  regions := ⟨[1], PROCESS_MMAP_LIMIT⟩
  records p := if p = 1 then some pageRegion else none
  next := 2
  kmallocs := List.replicate 5 true
  refs _ := 1
  initBreak := 0x11000
  brk := 0x11000
  pid := 1

def forkEnv : ForkEnv := ⟨true, 0xc0100000, 0xc0100000, 0⟩

theorem forkEnv_kernel : forkEnv.Kernel := ⟨by decide, by decide⟩

theorem regionParent_ok : Parent regionParent [pageRegion] := by
  constructor
  case rows => exact ⟨rfl, by decide, by decide, by decide, by decide, by simp, by
    simpa using ⟨by decide, by decide, by decide, by decide⟩⟩
  case user =>
    decide
  case held =>
    have pages : regionParent.userPages = [0x10000] := by decide +kernel
    rw [pages]
    intro v mem _
    obtain rfl := mem_singleton.1 mem
    exact onePage_held

theorem heapParent_ok : Parent heapParent [] := by
  constructor
  case rows => exact ⟨rfl, by decide, rfl, by decide, by decide, .nil, by simp⟩
  case user =>
    decide
  case held =>
    have pages : heapParent.userPages = [0x10000] := by decide +kernel
    rw [pages]
    intro v mem _
    obtain rfl := mem_singleton.1 mem
    exact onePage_held

/-- The parent keeps its heap when the child exits. -/
theorem vfork_preserves_iff_heap : ∃ (s' s'' : AddrSpace) (dir : Nat)
    (regions : Option (SortedArray Nat)),
    heapParent.taskFork forkEnv false = some (some (dir, regions), s') ∧
    (s'.forkChild dir regions).processExit false = some s'' ∧ PagesKept heapParent s''.mem := by
  have runs : ((heapParent.taskFork forkEnv false).bind fun x => x.1.bind fun c =>
      (x.2.forkChild c.1 c.2).processExit false).isSome = true := by decide +kernel
  obtain ⟨s'', run⟩ := Option.isSome_iff_exists.1 runs
  obtain ⟨⟨r, s'⟩, forked, run⟩ := Option.bind_eq_some_iff.1 run
  obtain ⟨⟨dir, regions⟩, rfl, exited⟩ := Option.bind_eq_some_iff.1 run
  refine ⟨s', s'', dir, regions, forked, exited, ?_⟩
  refine ((vfork_preserves_iff heapParent_ok forkEnv_kernel forked).2.1 s'' exited).2 ⟨?_, ?_⟩
  · have none : heapParent.regionPages = [] := by decide
    simp [none]
  · have heap : pageRange heapParent.initBreak heapParent.brk = [0x10000] := by decide +kernel
    intro v mem _
    obtain rfl := List.mem_singleton.1 mem
    unfold Staged
    decide

/-- The child's exit unmaps the page of the parent's region and frees its frame. -/
theorem vfork_exit_takes_region : Parent regionParent [pageRegion] ∧
    ((regionParent.taskFork forkEnv false).bind fun x => x.1.bind fun c =>
      (x.2.forkChild c.1 c.2).processExit false).map (fun s =>
        (present (regionParent.mem.entryAt 1 0x10000), present (s.mem.entryAt 1 0x10000),
          decide (0x102000 ∈ regionParent.mem.pageStack), decide (0x102000 ∈ s.mem.pageStack))) =
      some (true, false, false, true) :=
  ⟨regionParent_ok, by decide +kernel⟩

end AddrSpace

end Os0
