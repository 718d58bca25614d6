import Os0.Errno
import Os0.Lib.Bisect
import Os0.Memory.Paging

/-! The calls that shape a process' address space: `sys_mmap`, `sys_munmap` and
`sys_mprotect` (`uapi/mman.c`), `process_set_break` (`kernel/process.c`) and
`sys_brk` (`uapi/misc.c`). -/
namespace Os0

open Bytes

def PROT_READ : Nat := 4
def PROT_WRITE : Nat := 2
def PROT_EXEC : Nat := 1
def PROT_NONE : Nat := 0
def PROT_MASK : Nat := 7

def MAP_SHARED : Nat := 1
def MAP_PRIVATE : Nat := 2
def MAP_ANONYMOUS : Nat := 4
def MAP_UNINITIALIZED : Nat := 0x400

def PROCESS_MMAP_LIMIT : Nat := 64
def PROCESS_BREAK_LIMIT : Nat := 0x40000000

def O_RDONLY : Nat := 0
def O_WRONLY : Nat := 1
def O_ACCMODE : Nat := 3

/-- `((len - 1) | (PAGE_SIZE - 1)) + 1`, which is 0 for 0 and for a length in the
last page of the address space. -/
def roundPage (len : Nat) : Nat := add32 (sub32 len 1 / 4096 * 4096 + 4095) 1

namespace Memory

/-- Give new frames to the pages `vs`. The first component is the page that
`alloc_page` had no frame for; `none` is a panic of `map_page`. -/
def mapNew (flags : Nat) : List Nat → Memory → Option (Option Nat × Memory)
  | [], m => some (none, m)
  | v :: vs, m =>
    if m.allocPage.1 = 0 then some (some v, m.allocPage.2)
    else (m.allocPage.2.mapPage m.allocPage.2.currDir m.allocPage.1 v flags).bind (mapNew flags vs)

/-- Map the pages `vs` to the frames they have, with new flags. -/
def remap (flags : Nat) : List Nat → Memory → Option Memory
  | [], m => some m
  | v :: vs, m => (m.mapPage m.currDir (m.getPaddr m.currDir v) v flags).bind (remap flags vs)

/-- The error path of `sys_mmap`: frames go back, the entries stay. -/
def releaseFrames (vs : List Nat) (m : Memory) : Memory :=
  vs.foldl (fun m v => if m.getPaddr m.currDir v ≠ 0 then m.freePage (m.getPaddr m.currDir v) else m) m

/-- The loop body of `sys_munmap`. -/
def dropPage (m : Memory) (v : Nat) : Memory :=
  (m.freePage (m.getPaddr m.currDir v)).unmapPage m.currDir v

/-- Write `byte 0`, `byte 1`, ... to the part of `[lo, hi)` in a page. `none` is a
page fault. Page tables are not in `frames`: nothing writes them as data. -/
def fillPage (lo hi : Nat) (byte : Nat → UInt8) (m : Memory) (page : Nat) : Option Memory :=
  if present (m.entryAt m.currDir (page % 4294967296)) then
    some { m with frames := fun f o =>
      if f = frame (m.entryAt m.currDir (page % 4294967296)) ∧ o < 4096 ∧ lo ≤ page + o ∧
        page + o < hi then byte (page + o - lo) else m.frames f o }
  else none

/-- Write `count` bytes at `lo`. -/
def fill (lo count : Nat) (byte : Nat → UInt8) (m : Memory) : Option Memory :=
  if count = 0 then some m
  else (pageRange (frame lo) (lo + count)).foldlM (fillPage lo (lo + count) byte) m

end Memory

/-- `ProcessMemoryRegion`. -/
structure Region where
  base : Nat
  len : Nat
  prot : Nat
  flags : Nat
  ino : Option Nat
  offset : Int
  deriving DecidableEq, Repr

/-- What `sys_mmap` sees of an open file: its inode, and what `vfs_read` of so many
bytes at an offset puts into the buffer, with the error if it fails. -/
structure OpenFile where
  inode : Nat
  regular : Bool
  size : Int
  mode : Nat
  read : Nat → Int → List UInt8 × Option Errno

structure AddrSpace where
  mem : Memory
  /-- `p_mregions`: the names of the records, in the order of the table. -/
  regions : SortedArray Nat
  /-- The records that are allocated. -/
  records : Nat → Option Region
  /-- The name of the next record. -/
  next : Nat
  /-- Whether the coming calls of `kmalloc` find memory. -/
  kmallocs : List Bool
  /-- `vi_refcnt` of the inodes. -/
  refs : Nat → Int
  initBreak : Nat
  brk : Nat
  pid : Nat

namespace AddrSpace

def kmalloc (s : AddrSpace) : Option Nat × AddrSpace :=
  match s.kmallocs with
  | true :: rest => (some s.next, { s with next := s.next + 1, kmallocs := rest })
  | false :: rest => (none, { s with kmallocs := rest })
  | [] => (none, s)

def setRecord (s : AddrSpace) (p : Nat) (r : Option Region) : AddrSpace :=
  { s with records := Function.update s.records p r }

/-- The record behind `sa_elems[i]`; `none` is a freed record. -/
def region (s : AddrSpace) (i : Nat) : Option Region := s.regions.elems[i]?.bind s.records

def processMregionCmp (s : AddrSpace) (a b : Nat) : Bool :=
  match s.records a, s.records b with
  | some a, some b => a.base < b.base
  | _, _ => false

/-- Fill in a new record and insert it; `none` when the comparison reads a freed
record or the table is full. -/
def addRegion (s : AddrSpace) (p : Nat) (r : Region) : Option AddrSpace :=
  if s.regions.elems.all fun q => (s.records q).isSome then
    ((s.setRecord p r).regions.insert (s.setRecord p r).processMregionCmp p).map fun regions =>
      { s.setRecord p r with regions }
  else none

/-- `vfs_ref_inode` and `vfs_unref_inode`, which count up and down. -/
def countRef (s : AddrSpace) (ino : Option Nat) (d : Int) : AddrSpace :=
  match ino with
  | none => s
  | some ino => { s with refs := fun i => if i = ino then s.refs i + d else s.refs i }

/-- `pm_base + pm_len`. -/
def regionEnd (r : Region) : Nat := add32 r.base r.len

/-- The checks of `sys_mmap` on its arguments, in their order. -/
def mmapCheck (s : AddrSpace) (addr len prot flags : Nat) (fd : Option OpenFile) (offset : Int) :
    Option Errno :=
  let badFile : Option Errno :=
    if hasFlag flags MAP_ANONYMOUS then none
    else match fd with
      | none => some .EBADF
      | some f =>
        if ¬f.regular then some .EBADF
        else if offset % 4096 ≠ 0 then some .EINVAL
        else if f.size < offset then some .EINVAL
        else none
  let badMode : Option Errno :=
    if hasFlag flags MAP_ANONYMOUS then none
    else match fd with
      | none => none
      | some f =>
        if ¬hasFlag prot PROT_WRITE ∧ f.mode &&& O_ACCMODE = O_WRONLY then some .EACCES
        else if ¬hasFlag prot PROT_READ ∧ f.mode &&& O_ACCMODE = O_RDONLY then some .EACCES
        else none
  match badFile with
  | some e => some e
  | none =>
    if len = 0 then some .EINVAL
    else if PROCESS_MMAP_LIMIT ≤ s.regions.elems.length then some .ENOMEM
    else match badMode with
      | some e => some e
      | none =>
        if ¬hasFlag flags MAP_SHARED ∧ ¬hasFlag flags MAP_PRIVATE then some .EINVAL
        else if addr % 4096 ≠ 0 then some .EINVAL
        else none

/-- Where `sys_mmap` would like to have the mapping. -/
def mmapHint (addr : Nat) : Nat := if addr ≠ 0 then addr else PROCESS_BREAK_LIMIT

/-- The probe of the search for the first region above an address. -/
def probeAbove (s : AddrSpace) (addr i : Nat) : Option Ordering :=
  (s.region i).map fun r => if addr < r.base then .gt else .lt

/-- The loop over the regions behind `vaddr` for a gap of `len` bytes. -/
def findGap (s : AddrSpace) (len : Nat) : Nat → List Nat → Option Nat
  | vaddr, [] => some vaddr
  | vaddr, p :: ps =>
    match s.records p with
    | none => none
    | some r => if len ≤ sub32 r.base vaddr then some vaddr else findGap s len (regionEnd r) ps

/-- The address `sys_mmap` chooses. `last` is -1 when every region is above the
hint, and `last < sa_size - 1` compares it as an unsigned number. -/
def mmapPlace (s : AddrSpace) (hint len : Nat) : Option Nat :=
  let size := s.regions.elems.length
  if size = 0 then some hint
  else
    match Bisect.search (s.probeAbove hint) size 0 size with
    | some (.missing k) =>
      if sub32 k 1 < sub32 size 1 then
        (s.region (k - 1)).bind fun before =>
          s.findGap len (regionEnd before) (s.regions.elems.drop k)
      else s.findGap len hint (s.regions.elems.drop k)
    | _ => none

/-- The contents of a new mapping, with the error of a failed read. The zeroes
behind the file's bytes start at `base + bytes`, not at `base + ret`. -/
def mmapData (m : Memory) (base bytes flags : Nat) (file : Option OpenFile) (offset : Int) :
    Option (Option Errno × Memory) :=
  match file with
  | none =>
    if hasFlag flags MAP_UNINITIALIZED then some (none, m)
    else (m.fill base (roundPage bytes) fun _ => 0).map fun m => (none, m)
  | some f =>
    (m.fill base (f.read bytes offset).1.length fun i => (f.read bytes offset).1.getD i 0).bind
      fun m =>
        match (f.read bytes offset).2 with
        | some e => some (some e, m)
        | none =>
          if hasFlag flags MAP_UNINITIALIZED then some (none, m)
          else
            (m.fill (add32 base bytes)
              (sub32 (roundPage bytes) (f.read bytes offset).1.length) fun _ => 0).map
                fun m => (none, m)

/-- `sys_mmap` from the label `map` on. -/
def mmapAt (s : AddrSpace) (base bytes prot flags : Nat) (file : Option OpenFile)
    (offset : Int) : Option (Except Errno Nat × AddrSpace) :=
  let len := roundPage bytes
  let pages := pageRange base (add32 base len)
  let pgflags := (if flags ≠ PROT_NONE then PAGE_FLAG_USER else 0) |||
    (if hasFlag prot PROT_WRITE then PAGE_FLAG_WRITE else 0)
  (s.mem.mapNew PAGE_FLAG_WRITE pages).bind fun
    | (some v, m) =>
      some (.error .ENOMEM, { s with mem := m.releaseFrames (pageRange base v) })
    | (none, m) =>
      (mmapData m base bytes flags file offset).bind fun
        | (some e, m) => some (.error e, { s with mem := m })
        | (none, m) =>
          (m.remap pgflags pages).bind fun m =>
            match { s with mem := m }.kmalloc with
            | (none, s) => some (.error .ENOMEM, { s with mem := s.mem.releaseFrames pages })
            | (some p, s) =>
              (s.addRegion p ⟨base, len, prot &&& PROT_MASK, flags, file.map (·.inode), offset⟩).map
                fun s => (.ok base, s)

/-- `sys_mmap`; `fd` is the open file of the descriptor. -/
def sysMmap (s : AddrSpace) (addr len prot flags : Nat) (fd : Option OpenFile) (offset : Int) :
    Option (Except Errno Nat × AddrSpace) :=
  match s.mmapCheck addr len prot flags fd offset with
  | some e => some (.error e, s)
  | none =>
    (s.mmapPlace (mmapHint addr) (roundPage len)).bind fun base =>
      s.mmapAt base len prot flags (if hasFlag flags MAP_ANONYMOUS then none else fd) offset

/-- The probe of the search for the region that holds an address. -/
def probeAt (s : AddrSpace) (addr i : Nat) : Option Ordering :=
  (s.region i).map fun r =>
    if r.base ≤ addr ∧ addr < regionEnd r then .eq else if addr < r.base then .gt else .lt

/-- The search of `sys_munmap` and `sys_mprotect`. -/
def findRegion (s : AddrSpace) (addr : Nat) : Option Bisect.Outcome :=
  Bisect.search (s.probeAt addr) s.regions.elems.length 0 s.regions.elems.length

/-- The end of `sys_munmap`: keep the pages of region `mid` below `temp`, or drop
its record. -/
def munmapBelow (s : AddrSpace) (mid p temp : Nat) : Option (Except Errno Unit × AddrSpace) :=
  (s.records p).map fun r =>
    if r.base < temp then (.ok (), s.setRecord p (some { r with len := sub32 temp r.base }))
    else
      (.ok (), { (s.setRecord p none).countRef r.ino (-1) with regions := s.regions.remove mid })

/-- `sys_munmap` behind its loop: the pages of region `mid` from `vaddr` on become
a region of their own. -/
def munmapRest (s : AddrSpace) (mid p temp vaddr : Nat) : Option (Except Errno Unit × AddrSpace) :=
  (s.records p).bind fun r =>
    if vaddr < regionEnd r then
      match s.kmalloc with
      | (none, s) => some (.error .ENOMEM, s)
      | (some new, s) =>
        ((s.countRef r.ino 1).addRegion new { r with
          base := vaddr
          len := sub32 (regionEnd r) vaddr
          offset := (r.offset + vaddr - r.base).bmod 4294967296 }).bind fun s =>
            s.munmapBelow mid p temp
    else s.munmapBelow mid p temp

/-- `sys_munmap` with a bound on its recursion. The loop stops at the end of the
region it has found; the call for what is behind it passes `len - region->pm_len`. -/
def munmapFuel : Nat → AddrSpace → Nat → Nat → Option (Except Errno Unit × AddrSpace)
  | 0, _, _, _ => none
  | fuel + 1, s, addr, len =>
    if addr = 0 ∨ addr % 4096 ≠ 0 then some (.error .EINVAL, s)
    else
      match s.findRegion addr with
      | none => none
      | some (.missing _) => some (.error .EINVAL, s)
      | some (.found mid) =>
        s.regions.elems[mid]?.bind fun p => (s.records p).bind fun r =>
          let stop := add32 addr (roundPage len)
          let pages := pageRange addr (min stop (regionEnd r))
          let vaddr := addr + pages.length * 4096
          let s := { s with mem := pages.foldl Memory.dropPage s.mem }
          if vaddr < stop then
            (munmapFuel fuel s vaddr (sub32 (roundPage len) r.len)).bind fun
              | (.error e, s) => some (.error e, s)
              | (.ok (), s) => s.munmapRest mid p addr vaddr
          else s.munmapRest mid p addr vaddr

/-- `sys_munmap`. Each recursion ends in another region, further up. -/
def sysMunmap (s : AddrSpace) (addr len : Nat) : Option (Except Errno Unit × AddrSpace) :=
  munmapFuel (s.regions.elems.length + 1) s addr len

/-- `sys_mprotect` behind its recursion. -/
def protectRest (s : AddrSpace) (p addr len prot pgflags : Nat) :
    Option (Except Errno Unit × AddrSpace) :=
  (s.records p).bind fun r =>
    if r.prot ||| PROT_EXEC = prot ||| PROT_EXEC then some (.ok (), s)
    else
      (s.mem.remap (pgflags ||| if hasFlag prot PROT_WRITE then PAGE_FLAG_WRITE else 0)
        (pageRange addr (add32 addr len))).map fun m =>
          (.ok (), { s.setRecord p (some { r with prot }) with mem := m })

/-- `sys_mprotect` with a bound on its recursion. Behind the recursion `len` is the
length of the part that the recursion has done, not of the part still to do. -/
def mprotectFuel : Nat → AddrSpace → Nat → Nat → Nat → Option (Except Errno Unit × AddrSpace)
  | 0, _, _, _, _ => none
  | fuel + 1, s, addr, len, prot =>
    if addr % 4096 ≠ 0 then some (.error .EINVAL, s)
    else if len = 0 then some (.error .EINVAL, s)
    else
      match s.findRegion addr with
      | none => none
      | some (.missing _) => some (.error .EINVAL, s)
      | some (.found mid) =>
        s.regions.elems[mid]?.bind fun p => (s.records p).bind fun r =>
          let rem := sub32 (regionEnd r) addr
          let pgflags := if prot ≠ PROT_NONE then PAGE_FLAG_USER else 0
          if rem < roundPage len then
            (mprotectFuel fuel s (regionEnd r) (sub32 (roundPage len) rem) (prot &&& PROT_MASK)).bind
              fun
              | (.error e, s) => some (.error e, s)
              | (.ok (), s) =>
                s.protectRest p addr (sub32 (roundPage len) rem) (prot &&& PROT_MASK) pgflags
          else s.protectRest p addr (roundPage len) (prot &&& PROT_MASK) pgflags

def sysMprotect (s : AddrSpace) (addr len prot : Nat) : Option (Except Errno Unit × AddrSpace) :=
  mprotectFuel (s.regions.elems.length + 1) s addr len prot

/-- `process_set_break`, which returns the break. -/
def processSetBreak (s : AddrSpace) (addr : Nat) : Option (Nat × AddrSpace) :=
  if addr < s.brk ∨ PROCESS_BREAK_LIMIT ≤ addr then some (s.brk, s)
  else
    (s.mem.mapNew (PAGE_FLAG_USER ||| PAGE_FLAG_WRITE) (pageRange (roundPage s.brk) addr)).bind fun
      | (some _, m) => some (s.brk, { s with mem := m })
      | (none, m) =>
        (m.fill s.brk (addr - s.brk) fun _ => 0).map fun m =>
          (addr, { s with mem := m, brk := addr })

def sysBrk (s : AddrSpace) (addr : Nat) : Option (Except Errno Nat × AddrSpace) :=
  if s.pid = 0 then some (.error .EINVAL, s)
  else (s.processSetBreak addr).map fun (brk, s) => (.ok brk, s)

end AddrSpace

/-- A call, with the file that the descriptor of an `mmap` names. -/
inductive MemCall
  | mmap (addr len prot flags : UInt32) (fd : Option OpenFile) (offset : Int)
  | munmap (addr len : UInt32)
  | mprotect (addr len prot : UInt32)
  | setBreak (addr : UInt32)
  | brk (addr : UInt32)

/-- The address space after a call; `none` is a panic, a page fault in the kernel
or the use of a freed record. -/
def memStep (s : AddrSpace) : MemCall → Option AddrSpace
  | .mmap addr len prot flags fd offset =>
    (s.sysMmap addr.toNat len.toNat prot.toNat flags.toNat fd offset).map (·.2)
  | .munmap addr len => (s.sysMunmap addr.toNat len.toNat).map (·.2)
  | .mprotect addr len prot => (s.sysMprotect addr.toNat len.toNat prot.toNat).map (·.2)
  | .setBreak addr => (s.processSetBreak addr.toNat).map (·.2)
  | .brk addr => (s.sysBrk addr.toNat).map (·.2)

end Os0
