import Os0.Fs.Perm
import Os0.Memory.Layout
import Os0.Memory.Protect
import Os0.Memory.UserBytes

/-! The contents of a file mapping. `sys_mmap` zeroes as many bytes as the read has left of the
rounded length, but from the requested length on: behind the end of the file the old bytes
of the frames stay, and bytes behind the mapping are zeroed. -/
namespace Os0

open Bytes Function List Option Memory

/-- The read operation of a file system, for a file with the contents `data`. -/
def readData (data : List UInt8) (len : Nat) (offset : Int) : List UInt8 × Option Errno :=
  ((data.drop offset.toNat).take len, none)

/-- `vfs_read` of such a file. -/
def vfsReadData (c : Credentials) (attrs : FileAttrs) (data : List UInt8) (len : Nat)
    (offset : Int) : List UInt8 × Option Errno :=
  match vfsReadLen c attrs len offset with
  | .error e => ([], some e)
  | .ok len => readData data len offset

variable {read : List UInt8} {offset : Int} {f : OpenFile} {data : List UInt8}

theorem vfsReadData_ok {c : Credentials} {attrs : FileAttrs} {len offset : Nat}
    (size : attrs.size = data.length) (within : offset ≤ data.length)
    (done : (vfsReadData c attrs data len offset).2 = none) :
    vfsReadData c attrs data len offset = readData data len offset := by
  unfold vfsReadData at done ⊢
  cases read : vfsReadLen c attrs len offset with
  | error e =>
    rw [read] at done
    cases done
  | ok n =>
    have cut : n = len ∨ data.length < offset + len ∧ n = data.length - offset := by
      unfold vfsReadLen at read
      split at read
      · cases read
      split at read
      · rw [if_neg (by omega)] at read
        split at read
        · cases read
          omega
        · cases read
          exact .inl rfl
      · cases read
        exact .inl rfl
    rcases cut with rfl | ⟨_, rfl⟩
    · rfl
    · dsimp only
      rw [readData, readData, Int.toNat_natCast, take_of_length_le (by simp),
        take_of_length_le (by rw [length_drop]; omega)]

namespace AddrSpace

variable {s s' : AddrSpace} {rs : List Region}

/-- What `sys_mmap` writes for a file, and where. -/
def mmapWrites (base bytes : Nat) (read : List UInt8) : List (Nat × List UInt8) :=
  [(base, read), (add32 base bytes, List.replicate (sub32 (roundPage bytes) read.length) 0)]

def writeAll (m : Memory) (writes : List (Nat × List UInt8)) : Option Memory :=
  writes.foldlM (fun m w => m.fill w.1 w.2.length fun i => w.2.getD i 0) m

variable {m m' : Memory} {base flags bytes len addr prot : Nat}

theorem writeAll_zeroes (m : Memory) (base lo n : Nat) (read : List UInt8) :
    writeAll m [(base, read), (lo, replicate n 0)] =
      (m.fill base read.length fun i => read.getD i 0).bind fun m => m.fill lo n fun _ => 0 := by
  have zero : ∀ i, (replicate n (0 : UInt8)).getD i 0 = 0 := by
    intro i
    rw [getD_eq_getElem?_getD, getElem?_replicate]
    split <;> rfl
  simp only [writeAll, foldlM_cons, foldlM_nil, Option.pure_def, Option.bind_eq_bind,
    Option.bind_fun_some, length_replicate, zero]

theorem mmapData_file
    (init : hasFlag flags MAP_UNINITIALIZED = false) (reads : f.read bytes offset = (read, none)) :
    mmapData m base bytes flags (some f) offset =
      (m.fill base read.length fun i => read.getD i 0).bind fun m =>
        (m.fill (add32 base bytes) (sub32 (roundPage bytes) read.length) fun _ => 0).map
          fun m => (none, m) := by
  simp only [mmapData, reads, init, Bool.false_eq_true, if_false]

theorem mmapData_writes
    (init : hasFlag flags MAP_UNINITIALIZED = false) (reads : f.read bytes offset = (read, none)) :
    mmapData m base bytes flags (some f) offset =
      (writeAll m (mmapWrites base bytes read)).map fun m => (none, m) := by
  rw [mmapData_file init reads, mmapWrites, writeAll_zeroes, map_bind, comp_def]

theorem addRegion_mem {p : Nat} {r : Region} (h : s.addRegion p r = some s') : s'.mem = s.mem := by
  unfold addRegion at h
  split at h
  · obtain ⟨-, -, rfl⟩ := map_eq_some_iff.1 h
    rfl
  · cases h

theorem sysMmap_parts {fd : Option OpenFile}
    (h : s.sysMmap addr len prot flags fd offset = some (.ok base, s')) :
    ∃ m₁ m₂ pgflags, s.mmapCheck addr len prot flags fd offset = none ∧
      s.mmapPlace (mmapHint addr) (roundPage len) = some base ∧
      s.mem.mapNew PAGE_FLAG_WRITE (pageRange base (add32 base (roundPage len))) =
        some (none, m₁) ∧
      mmapData m₁ base len flags (if hasFlag flags MAP_ANONYMOUS then none else fd) offset =
        some (none, m₂) ∧
      m₂.remap pgflags (pageRange base (add32 base (roundPage len))) = some s'.mem := by
  unfold sysMmap at h
  cases checked : s.mmapCheck addr len prot flags fd offset with
  | some e =>
    rw [checked] at h
    cases h
  | none =>
    rw [checked] at h
    obtain ⟨_, placed, h⟩ := bind_eq_some_iff.1 h
    obtain ⟨⟨failed, m₁⟩, mapped, h⟩ := bind_eq_some_iff.1 h
    cases failed with
    | some v => cases h
    | none =>
      obtain ⟨⟨e, m₂⟩, data, h⟩ := bind_eq_some_iff.1 h
      cases e with
      | some e => cases h
      | none =>
        obtain ⟨m₃, remapped, h⟩ := bind_eq_some_iff.1 h
        cases hk : kmalloc { s with mem := m₃ } with
        | mk name =>
          rw [hk] at h
          cases name with
          | none => cases h
          | some =>
            obtain ⟨_, added, eq⟩ := map_eq_some_iff.1 h
            cases eq
            have mem : s'.mem = m₃ := (addRegion_mem added).trans (kmalloc_fields hk).1
            exact ⟨m₁, m₂, _, rfl, placed, mapped, data, mem ▸ remapped⟩

/-- `alloc_page` has frames for `[base, base + len)` that are distinct and not mapped at any
page outside of it. -/
structure FreshFrames (m : Memory) (base len : Nat) : Prop where
  nodup : (m.framesFrom (len / 4096)).Nodup
  valid : ∀ f ∈ m.framesFrom (len / 4096), f % 4096 = 0 ∧ f < 4294967296
  unused : ∀ f ∈ m.framesFrom (len / 4096), ∀ v < 0xffc00000, ¬(base ≤ v ∧ v < base + len) →
    present (m.entryAt m.currDir v) = true → frame (m.entryAt m.currDir v) ≠ f

theorem entryAt_absent {dir v : Nat} (ok : m.DirOk dir) (low : v < 0xffc00000)
    (absent : present (m.entryAt dir v) = false) : m.entryAt dir v = 0 := by
  unfold entryAt entry at absent ⊢
  split at absent
  · rename_i there
    rw [if_pos there]
    exact ok.absent _ (pdi_lt low) there _ (pti_lt v) absent
  · rename_i there
    rw [if_neg there]

section NewPages

variable {m m₁ : Memory} {base len flags : Nat} (ok : m.DirOk m.currDir)
  (fresh : m.Fresh (m.Owned m.currDir)) (frames : FreshFrames m base len)
  (page : base % 4096 = 0) (pages : len % 4096 = 0) (fits : base + len ≤ 0xffc00000)
  (mapped : m.mapNew flags (pageRange base (base + len)) = some (none, m₁))

include ok fresh page pages fits mapped

theorem newPages_maps : Memory.MapsNew m m₁ flags (pageRange base (base + len))
    (m.framesFrom (len / 4096)) ∧ ∀ f ∈ m.framesFrom (len / 4096), f ≠ 0 := by
  have count : (pageRange base (base + len)).length = len / 4096 := by
    rw [pageRange_length]
    omega
  rw [← count]
  apply mapNew_spec ok fresh _ (pageRange_nodup _ _) mapped
  intro v hv
  have := (mem_pageRange page).1 hv
  omega

/-- The rest of the address space is as before. -/
theorem newPages_others {v : Nat} (low : v < 0xffc00000) (outside : ¬(base ≤ v ∧ v < base + len)) :
    m₁.userByte v = m.userByte v := by
  obtain ⟨maps, -⟩ := newPages_maps ok fresh page pages fits mapped
  have notin : frame v ∉ pageRange base (base + len) := by
    rw [mem_pageRange page]
    unfold frame
    omega
  rw [userByte, userByte, maps.currDir, maps.old v low notin, maps.frames]

include frames

/-- A new page has one of the new frames, and each page its own. -/
theorem newPages_entry {v : Nat} (first : base ≤ v) (last : v < base + len) :
    ∃ f, (m.framesFrom (len / 4096))[(v - base) / 4096]? = some f ∧ f ≠ 0 ∧ f < 4294967296 ∧
      frame (m₁.entryAt m.currDir v) = f ∧ present (m₁.entryAt m.currDir v) = true := by
  obtain ⟨maps, nonzero⟩ := newPages_maps ok fresh page pages fits mapped
  have bound : (v - base) / 4096 < (m.framesFrom (len / 4096)).length := by
    rw [framesFrom_length]
    omega
  have here : (pageRange base (base + len))[(v - base) / 4096]? = some (frame v) := by
    rw [pageRange, getElem?_map, getElem?_range (by omega), map_some, frame]
    exact congrArg some (by omega)
  have member := getElem_mem bound
  have new := getElem?_eq_getElem bound
  obtain ⟨aligned, small⟩ := frames.valid _ member
  exact ⟨_, new, nonzero _ member, small, maps.entry here new aligned⟩

theorem newPages_alone {v w : Nat} (first : base ≤ v) (last : v < base + len) (low : w < 0xffc00000)
    (same : frame (m₁.entryAt m.currDir w) = frame (m₁.entryAt m.currDir v)) :
    frame w = frame v := by
  obtain ⟨maps, -⟩ := newPages_maps ok fresh page pages fits mapped
  obtain ⟨f, at_v, nonzero, -, entry, -⟩ :=
    newPages_entry ok fresh frames page pages fits mapped first last
  by_cases inside : base ≤ w ∧ w < base + len
  · obtain ⟨_, at_w, -, -, entry', -⟩ :=
      newPages_entry ok fresh frames page pages fits mapped inside.1 inside.2
    rw [entry, entry'] at same
    subst same
    obtain ⟨_, hv⟩ := List.getElem?_eq_some_iff.1 at_v
    obtain ⟨_, hw⟩ := List.getElem?_eq_some_iff.1 at_w
    have index := (frames.nodup.getElem_inj_iff).1 (hw.trans hv.symm)
    unfold frame
    omega
  · have outside : frame w ∉ pageRange base (base + len) := by
      rw [mem_pageRange page]
      unfold frame
      omega
    rw [maps.old w low outside, entry] at same
    cases there : present (m.entryAt m.currDir w) with
    | true => exact absurd same (frames.unused f (mem_of_getElem? at_v) w low inside there)
    | false =>
      rw [entryAt_absent ok low there] at same
      exact absurd same.symm nonzero

end NewPages

/-- The region at `base` shows the file: byte `k` of it is byte `offset + k` of the file if the
call asked for it and the file has it, and 0 otherwise. Nothing outside of the region has been
written. -/
structure FileMapped (s s' : AddrSpace) (base bytes : Nat) (data : List UInt8) (offset : Nat) :
    Prop where
  byte : ∀ k < roundUp bytes,
    s'.mem.userByte (base + k) = if k < bytes then data.getD (offset + k) 0 else 0
  writes : ∀ w ∈ mmapWrites base bytes (readData data bytes offset).1, w.2 ≠ [] →
    base ≤ w.1 ∧ w.1 + w.2.length ≤ base + roundUp bytes
  others : ∀ v < 0xffc00000, ¬(base ≤ v ∧ v < base + roundUp bytes) →
    s'.mem.userByte v = s.mem.userByte v

theorem roundPage_whole (fits : roundUp len < 4294967296) : roundPage len = roundUp len := by
  unfold roundPage add32 sub32
  unfold roundUp at fits ⊢
  omega

theorem entryAt_congr (pages : m'.pages = m.pages) (dir v : Nat) :
    m'.entryAt dir v = m.entryAt dir v := entry_congr pages _ _ _

/-- What the two writes leave at each address, if they stay in pages that share no frame. -/
theorem writeAll_userByte (count : read.length = bytes)
    (room : bytes ≤ len) (fits : base + len ≤ 0xffc00000)
    (alone : ∀ v, base ≤ v → v < base + len → ∀ w < 0xffc00000, frame (m.entryAt m.currDir w) =
      frame (m.entryAt m.currDir v) → frame w = frame v)
    (h : writeAll m [(base, read), (base + bytes, replicate (len - bytes) 0)] = some m') :
    m'.pages = m.pages ∧ m'.currDir = m.currDir ∧ ∀ v < 0xffc00000, m'.userByte v =
      if base ≤ v ∧ v < base + len then read.getD (v - base) 0 else m.userByte v := by
  rw [writeAll_zeroes] at h
  obtain ⟨_, first, second⟩ := bind_eq_some_iff.1 h
  obtain ⟨pages₁, dir₁, bytes₁⟩ := fill_userByte (by omega)
    (fun v lo hi => alone v lo (by omega)) first
  obtain ⟨pages₂, dir₂, bytes₂⟩ := fill_userByte (by omega) (by
    intro v lo hi w
    rw [dir₁, entryAt_congr pages₁, entryAt_congr pages₁]
    exact alone v (by omega) (by omega) w) second
  refine ⟨pages₂.trans pages₁, dir₂.trans dir₁, fun v hv => ?_⟩
  rw [bytes₂ v hv, bytes₁ v hv]
  split
  · rename_i behind
    rw [if_pos (by omega), getD_eq_default _ _ (by omega)]
  · rename_i notbehind
    split
    · rw [if_pos (by omega)]
    · rw [if_neg (by omega)]

/-- Changing the rights of pages with frames below 2³² changes no byte. -/
theorem reflagged_userByte {R : Nat → Prop} (h : Memory.Reflagged m m' flags R)
    (small : ∀ v < 0xffc00000, R v → frame (m.entryAt m.currDir v) < 4294967296) {v : Nat}
    (low : v < 0xffc00000) : m'.userByte v = m.userByte v := by
  rw [userByte, userByte, h.currDir, h.frames]
  by_cases inside : R v
  · rw [h.frame v low inside, Nat.mod_eq_of_lt (small v low inside)]
  · rw [h.kept v low inside]

/-- The bytes of a mapping whose file reaches the requested length. -/
theorem fileMapped_of_long {offset : Nat}
    (ok : s.mem.DirOk s.mem.currDir) (fresh : s.mem.Fresh (s.mem.Owned s.mem.currDir))
    (frames : FreshFrames s.mem base (roundUp bytes)) (file : hasFlag flags MAP_ANONYMOUS = false)
    (init : hasFlag flags MAP_UNINITIALIZED = false)
    (reads : f.read bytes offset = readData data bytes offset) (page : base % 4096 = 0)
    (done : s.sysMmap addr bytes prot flags (some f) offset = some (.ok base, s'))
    (fits : base + roundUp bytes ≤ 0xffc00000) (long : offset + bytes ≤ data.length) :
    FileMapped s s' base bytes data offset := by
  have up : roundUp bytes % 4096 = 0 ∧ bytes ≤ roundUp bytes := by
    unfold roundUp
    omega
  have whole : roundPage bytes = roundUp bytes := roundPage_whole (by omega)
  obtain ⟨m₁, m₂, _, -, -, mapped, filled, remapped⟩ := sysMmap_parts done
  rw [whole, add32_eq (by omega)] at mapped remapped
  rw [if_neg (by simp [file]), mmapData_writes init reads] at filled
  obtain ⟨m, written, eq⟩ := map_eq_some_iff.1 filled
  obtain rfl : m = m₂ := congrArg Prod.snd eq
  have count : (readData data bytes offset).1.length = bytes := by
    rw [readData, length_take, length_drop, Int.toNat_natCast]
    omega
  have contents : ∀ k, (readData data bytes offset).1.getD k 0 =
      if k < bytes then data.getD (offset + k) 0 else 0 := by
    intro k
    simp only [readData, Int.toNat_natCast, getD_eq_getElem?_getD, getElem?_take,
      getElem?_drop]
    split <;> rfl
  have ranges : mmapWrites base bytes (readData data bytes offset).1 =
      [(base, (readData data bytes offset).1),
        (base + bytes, replicate (roundUp bytes - bytes) 0)] := by
    rw [mmapWrites, count, whole, sub32_eq up.2 (by omega), add32_eq (by omega)]
  change writeAll m₁ (mmapWrites base bytes (readData data bytes offset).1) = some m at written
  generalize hread : (readData data bytes offset).1 = read at *
  generalize hlen : roundUp bytes = len at *
  obtain ⟨maps, -⟩ := newPages_maps ok fresh page up.1 fits mapped
  have entry := @newPages_entry _ _ _ _ _ ok fresh frames page up.1 fits mapped
  obtain ⟨pages, dir, bytes'⟩ := writeAll_userByte count up.2 fits (by
    intro v first last w low
    rw [maps.currDir]
    exact newPages_alone ok fresh frames page up.1 fits mapped first last low) (ranges ▸ written)
  have dir' : m.currDir = s.mem.currDir := dir.trans maps.currDir
  have flagged := remap_mapped remapped (dir' ▸ maps.ok.own.congr pages) (by
    intro v hv
    have range := (mem_pageRange page).1 hv
    obtain ⟨-, -, -, -, -, there⟩ := entry range.1 range.2.1
    rw [dir', entryAt_congr pages]
    exact ⟨by omega, range.2.2, there⟩)
  have same : ∀ v < 0xffc00000, s'.mem.userByte v = m.userByte v := by
    intro v low
    apply reflagged_userByte flagged _ low
    intro w low' inside
    rw [mem_pageRange page] at inside
    obtain ⟨f, -, -, small, eq, -⟩ := entry (v := w) (by unfold frame at inside; omega)
      (by unfold frame at inside; omega)
    rw [dir', entryAt_congr pages, eq]
    exact small
  constructor
  case byte =>
    intro k hk
    rw [same _ (by omega), bytes' _ (by omega), if_pos (by omega), Nat.add_sub_cancel_left,
      contents]
  case writes =>
    rw [hread, hlen, ranges]
    simp only [forall_mem_cons, length_replicate]
    exact ⟨fun _ => by omega, fun _ => by omega, by simp⟩
  case others =>
    intro v low outside
    rw [hlen] at outside
    rw [same v low, bytes' v low, if_neg outside]
    exact newPages_others ok fresh page up.1 fits mapped low outside

/-- An offset that `sys_mmap` takes is not behind the end of the file. -/
theorem mmapCheck_offset (file : hasFlag flags MAP_ANONYMOUS = false)
    (taken : s.mmapCheck addr len prot flags (some f) offset = none) : offset ≤ f.size := by
  by_contra behind
  have bad : f.size < offset := by omega
  unfold mmapCheck at taken
  simp only [file, Bool.false_eq_true, if_false, bad, if_true] at taken
  split at taken
  · cases taken
  rename_i none
  split at none
  · cases none
  split at none <;> cases none

/-- The rest of the rounded length starts behind the requested length, so a short read leaves
the region. -/
theorem long_of_writes {offset : Nat} (fits : base + roundUp bytes ≤ 0xffc00000)
    (within : offset ≤ data.length)
    (writes : ∀ w ∈ mmapWrites base bytes (readData data bytes offset).1, w.2 ≠ [] → base ≤ w.1 ∧
      w.1 + w.2.length ≤ base + roundUp bytes) :
    offset + bytes ≤ data.length := by
  have up : bytes ≤ roundUp bytes := by
    unfold roundUp
    omega
  have count : (readData data bytes offset).1.length = min bytes (data.length - offset) := by
    rw [readData, length_take, length_drop, Int.toNat_natCast]
  rw [mmapWrites, count, roundPage_whole (by omega), sub32_eq (by omega) (by omega),
    add32_eq (by omega)] at writes
  by_contra short
  have rest := writes _ (mem_cons_of_mem _ (mem_singleton_self _)) (by
    rw [Ne, replicate_eq_nil_iff]
    omega)
  simp only [length_replicate] at rest
  omega

/-- A file mapping shows the file if and only if the file has all the bytes that were asked
for. -/
theorem sysMmap_file_iff {addr bytes prot flags offset base : Nat} {f : OpenFile}
    {data : List UInt8} {c : Credentials} {attrs : FileAttrs} (t : Table s rs)
    (ok : s.mem.DirOk s.mem.currDir) (fresh : s.mem.Fresh (s.mem.Owned s.mem.currDir))
    (frames : FreshFrames s.mem base (roundUp bytes)) (size : attrs.size = data.length)
    (same : f.size = attrs.size) (reads : f.read = vfsReadData c attrs data)
    (file : hasFlag flags MAP_ANONYMOUS = false) (init : hasFlag flags MAP_UNINITIALIZED = false)
    (done : s.sysMmap addr bytes prot flags (some f) offset = some (.ok base, s'))
    (fits : base + roundUp bytes ≤ 0xffc00000) :
    FileMapped s s' base bytes data offset ↔ offset + bytes ≤ data.length := by
  obtain ⟨_, _, -, taken, placed, -, filled, -⟩ := sysMmap_parts done
  have within : offset ≤ data.length := by
    have := mmapCheck_offset file taken
    omega
  constructor
  · intro mapped
    exact long_of_writes fits within mapped.writes
  · intro long
    have read : f.read bytes offset = readData data bytes offset := by
      rw [if_neg (by simp [file])] at filled
      have allowed := mmapData_read filled
      rw [reads] at allowed ⊢
      exact vfsReadData_ok size within allowed
    have page : base % 4096 = 0 := by
      rw [mmapPlace_eq t] at placed
      rw [← Option.some.inj placed]
      apply place_aligned _ t.ok
      have := (mmapCheck_none taken).1
      unfold mmapHint PROCESS_BREAK_LIMIT
      split <;> omega
    exact fileMapped_of_long ok fresh frames file init read page done fits long

/-- An address space with one page, at `0x2000`, and a frame to come that has been used. -/
def usedFrame : AddrSpace where
  mem :=
    { pages := fun o i =>
        if o = 1 then (if i = 0 then 0x3007 else if i = 1023 then 2 else 0)
        else if o = 2 then (if i = 0 then 3 else 0)
        else if o = 3 ∧ i = 2 then 0x102007 else 0
      frames := fun _ _ => 0x55
      currDir := 1
      pageStack := [0x300000]
      currAddr := 0x400000
      supply := []
      released := [] }
  regions := ⟨[], PROCESS_MMAP_LIMIT⟩
  records := fun _ => none
  next := 1
  kmallocs := [true]
  refs := fun _ => 1
  initBreak := 0
  brk := 0
  pid := 1

/-- A file that everyone may read, opened by the super-user. -/
def textAttrs (data : List UInt8) : FileAttrs := ⟨0o100644, 0, 0, data.length, 0⟩

def textFile (data : List UInt8) : OpenFile where
  inode := 7
  regular := true
  size := data.length
  mode := 0
  read := vfsReadData ⟨⟨0, 0, 0⟩, ⟨0, 0, 0⟩⟩ (textAttrs data) data

theorem usedFrame_table : Table usedFrame [] where
  max := rfl
  size := by decide
  records := rfl
  nodup := nodup_nil
  named := by simp [usedFrame]
  sorted := List.Pairwise.nil
  ok := by simp

theorem textFile_read (data : List UInt8) : (textFile data).read =
    vfsReadData ⟨⟨0, 0, 0⟩, ⟨0, 0, 0⟩⟩ (textAttrs data) data := rfl

theorem textFile_size (data : List UInt8) :
    (textAttrs data).size = data.length ∧ (textFile data).size = (textAttrs data).size := ⟨rfl, rfl⟩

theorem usedFrame_only {p : Nat} (high : p < 1023)
    (there : present (usedFrame.mem.pages 1 p) = true) : p = 0 := by
  by_contra other
  have : usedFrame.mem.pages 1 p = 0 := by
    simp [usedFrame, other, show p ≠ 1023 by omega]
  rw [this] at there
  cases there

theorem usedFrame_word (i : Nat) : usedFrame.mem.pages (usedFrame.mem.table 1 0) i =
    if i = 2 then 0x102007 else 0 := by
  simp [usedFrame, Memory.table]

theorem usedFrame_dir : usedFrame.mem.DirOk 1 := by
  constructor
  case vmap_ne => decide
  case table_ne =>
    intro p hp there
    cases usedFrame_only hp there
    decide
  case distinct =>
    intro p hp q hq hp' hq' _
    rw [usedFrame_only hp hp', usedFrame_only hq hq']
  case absent =>
    intro p hp there i _ gone
    cases usedFrame_only hp there
    exact eq_zero_of_absent rfl gone

theorem usedFrame_fresh : FreshFrames usedFrame.mem 0x1000 0x1000 where
  nodup := by decide
  valid := by decide
  unused := by
    intro f hf v _ _ _ same
    have used : f = 0x300000 := by simpa [usedFrame, framesFrom, allocPage] using hf
    have entry : usedFrame.mem.entryAt 1 v = 0x102007 ∨ usedFrame.mem.entryAt 1 v = 0 := by
      unfold entryAt entry
      split
      · rename_i present
        rw [usedFrame_only (pdi_lt (by omega)) present, usedFrame_word]
        split
        · exact .inl rfl
        · exact .inr rfl
      · exact .inr rfl
    subst used
    rcases entry with entry | entry <;>
      · change frame (usedFrame.mem.entryAt 1 v) = _ at same
        rw [entry] at same
        revert same
        decide

/-- A hundred bytes of a file that has two hundred. -/
theorem sysMmap_file_iff_long :
    ∃ s', usedFrame.sysMmap 0x1000 100 PROT_READ MAP_PRIVATE (some (textFile (.replicate 200 0x41)))
        0 = some (.ok 0x1000, s') ∧
      FileMapped usedFrame s' 0x1000 100 (.replicate 200 0x41) 0 := by
  have done : (usedFrame.sysMmap 0x1000 100 PROT_READ MAP_PRIVATE
      (some (textFile (.replicate 200 0x41))) 0).map (·.1.toOption) = some (some 0x1000) := by
    decide +kernel
  obtain ⟨⟨ret, s'⟩, call, eq⟩ := Option.map_eq_some_iff.1 done
  cases ret with
  | error e => cases eq
  | ok =>
    cases eq
    refine ⟨s', call, ?_⟩
    refine (sysMmap_file_iff usedFrame_table usedFrame_dir ⟨by decide, by simp [usedFrame]⟩
      usedFrame_fresh (textFile_size _).1 (textFile_size _).2 (textFile_read _) (by decide)
      (by decide) call (by decide)).2 ?_
    rw [List.length_replicate]
    decide

/-- A hundred bytes of a file that has ten: the eleventh byte of the region is an old byte of the
frame, and the page behind the region has lost its first byte. -/
theorem mmap_zeroes_behind_region :
    Table usedFrame [] ∧ ∃ s', usedFrame.sysMmap 0x1000 100 PROT_READ MAP_PRIVATE
        (some (textFile (.replicate 10 0x41))) 0 = some (.ok 0x1000, s') ∧
      ¬FileMapped usedFrame s' 0x1000 100 (.replicate 10 0x41) 0 ∧
      s'.mem.userByte 0x2000 ≠ usedFrame.mem.userByte 0x2000 := by
  have done : (usedFrame.sysMmap 0x1000 100 PROT_READ MAP_PRIVATE
      (some (textFile (.replicate 10 0x41))) 0).map (fun x => (x.1.toOption,
        x.2.mem.userByte 0x100a, x.2.mem.userByte 0x2000)) = some (some 0x1000, 0x55, 0) := by
    decide +kernel
  obtain ⟨⟨ret, s'⟩, call, eq⟩ := Option.map_eq_some_iff.1 done
  simp only [Prod.mk.injEq] at eq
  obtain ⟨ok, old, behind⟩ := eq
  cases ret with
  | error e => cases ok
  | ok =>
    cases ok
    refine ⟨usedFrame_table, s', call, fun shown => ?_, ?_⟩
    · exact absurd (old.symm.trans (shown.byte 10 (by decide))) (by decide)
    · rw [behind]
      decide +kernel

end AddrSpace

end Os0
