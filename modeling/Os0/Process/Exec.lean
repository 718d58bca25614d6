import Os0.Fs.Perm
import Os0.Libk.Ctype
import Os0.Memory.Fork
import Os0.Memory.Mman

/-! `sys_execve` (`uapi/misc.c`) and the loading of an image, `process_exec` and its
helpers (`kernel/process.c`). -/
namespace Os0

open Bytes

def ARG_MAX : Nat := 262144
def FD_CLOEXEC : Nat := 1
def LD_SO_LOAD_ADDR : Nat := 0x8000
def PT_LOAD : Nat := 1
def PT_DYNAMIC : Nat := 2
def PT_INTERP : Nat := 3
def PF_X : Nat := 1
def PF_W : Nat := 2
def PF_R : Nat := 4
def ELFCLASS32 : UInt8 := 1
def ELFDATA2LSB : UInt8 := 1
def ET_EXEC : Nat := 2
def EM_386 : Nat := 3

/-- A file as `execve` sees it: `ops` is `vi_ops->vfs_read` of a length and an offset. -/
structure ExecFile where
  attrs : FileAttrs
  ops : Nat → Int → Except Errno (List UInt8)

/-- The fields of `DynamicLinkInfo` that `process_exec` sets and reads. -/
structure LinkInfo where
  active : Bool
  loadbase : Nat
  interp : Nat
  dynamic : Nat
  deriving DecidableEq, Repr

/-- What an exec depends on beside the process. -/
structure ExecEnv where
  /-- `vfs_open_file` of a path, followed through links. -/
  openFile : Credentials → List UInt8 → Except Errno ExecFile
  /-- `rtld_setup`: the entry point of the dynamic linker, which it loads. -/
  rtldSetup : AddrSpace → LinkInfo → Option (Except Errno Nat × AddrSpace)
  /-- The bytes of a buffer that a short read has not written. -/
  junk : Nat → UInt8
  /-- `pbreak` of an image without a segment. -/
  junkBreak : Nat
  /-- `mh_addr` and `mh_addr + mh_size` of the kernel heap. -/
  heapStart : Nat
  heapEnd : Nat
  /-- The levels of interpreters that the kernel stack has room for. -/
  depth : Nat

/-- The fields of a `Process` that an exec reads or resets. -/
structure Process where
  space : AddrSpace
  cred : Credentials
  pgid : Int
  sid : Int
  umask : Nat
  sigblocked : Nat
  sigpending : Nat
  /-- `p_sigactions`: the handler of each signal, 0 for the default. -/
  sigactions : Nat → Nat
  maxbreak : Nat
  maxfds : Nat
  pause : Int
  sig : Int
  term : Int
  waitstat : Int
  /-- `p_files`: the entries of `process_fd_table`. -/
  files : List (Option Nat)
  fdflags : List Nat
  /-- `pf_refcnt` of these entries. -/
  fdRefs : Nat → Int
  /-- `p_task->t_pgcopied`. -/
  pgcopied : Bool
  /-- The arguments and the environment at `EXEC_DATA_VADDR`. -/
  execData : List (List UInt8) × List (List UInt8)

/-- Why an exec fails. An address at or above `0x80000000` that is returned for the
program break is a negative `int`, which the caller takes for an error. -/
inductive ExecError
  | errno (e : Errno)
  | address (a : Nat)
  deriving DecidableEq, Repr

namespace Memory

/-- The loop body of `page_dir_exec_free`. -/
def dropTable (dir lo hi : Nat) (m : Memory) (i : Nat) : Memory :=
  let m := if lo ≤ m.table dir i ∧ m.table dir i < hi then m.kfree (m.table dir i) else m
  (m.setWord dir i 0).setWord (m.pages dir 1023) i 0

def pageDirExecFree (dir lo hi : Nat) (m : Memory) : Memory :=
  (List.range 768).foldl (dropTable dir lo hi) m

end Memory

namespace AddrSpace

/-- `sorted_array_destroy` of the region table with `process_region_free`; the table
becomes `NULL`, which has room for nothing. `none` is a freed record in the table. -/
def destroyRegions (s : AddrSpace) : Option AddrSpace :=
  if s.regions.elems.all fun p => (s.records p).isSome then
    some { s with
      mem := (Memory.regionsFree s.mem.currDir (s.mem, [])
        ((s.regions.elems.filterMap s.records).map fun r => ⟨r.base, r.len⟩)).1
      regions := .place 0
      records := fun p => if p ∈ s.regions.elems then none else s.records p }
  else none

/-- `sorted_array_new`: the array and its elements are two allocations. -/
def newRegions (s : AddrSpace) : Bool × AddrSpace :=
  match s.kmalloc with
  | (none, s) => (false, s)
  | (some _, s) =>
    match s.kmalloc with
    | (none, s) => (false, s)
    | (some _, s) => (true, { s with regions := .place PROCESS_MMAP_LIMIT })

end AddrSpace

/-- `vfs_read` into a buffer that does not hold a file's data for good. -/
def vfsRead (c : Credentials) (f : ExecFile) (len : Nat) (offset : Int) :
    Except Errno (List UInt8) :=
  match vfsReadLen c f.attrs len offset with
  | .error e => .error e
  | .ok len => f.ops len offset

/-- A buffer of `n` bytes behind a read. -/
def execBuffer (env : ExecEnv) (bytes : List UInt8) (n : Nat) : List UInt8 :=
  (List.range n).map fun i => bytes.getD i (env.junk i)

/-- The little-endian number of `n` bytes at `i`. -/
def leBytes (b : List UInt8) (i : Nat) : Nat → Nat
  | 0 => 0
  | n + 1 => (b.getD i 0).toNat + 256 * leBytes b (i + 1) n

/-- The hashbang line: the buffer up to a newline or its end. `none` is a buffer with
neither, which `strchr` leaves behind. -/
def hashbangLine (buffer : List UInt8) : Option (List UInt8) :=
  if buffer.any fun c => c = 10 ∨ c = 0 then
    some (buffer.takeWhile fun c => ¬(c = 10 ∨ c = 0))
  else none

/-- The words of the hashbang line. Behind spaces at its end there is an empty one. -/
def hashbangWords : Nat → List UInt8 → List (List UInt8)
  | 0, _ => []
  | fuel + 1, line =>
    let line := line.dropWhile isspace
    match line.dropWhile fun c => ¬isspace c with
    | [] => [line.takeWhile fun c => ¬isspace c]
    | _ :: rest => (line.takeWhile fun c => ¬isspace c) :: hashbangWords fuel rest

/-- The words of a script's first line; the length bounds their number. -/
def scriptWords (line : List UInt8) : List (List UInt8) := hashbangWords (line.length + 1) line

/-- The check of `task_setup_exec`, on a sum of unsigned 32-bit numbers. -/
def taskSetupExec (argv envp : List (List UInt8)) : Option Errno :=
  if ARG_MAX ≤ (((argv ++ envp).map fun arg => arg.length + 1).sum +
      4 * (argv.length + envp.length + 4)) % 4294967296 then some .E2BIG
  else none

/-- The fields of `Elf32_Ehdr` that are used. -/
structure Ehdr where
  ident : List UInt8
  type : Nat
  machine : Nat
  entry : Nat
  phoff : Nat
  phentsize : Nat
  phnum : Nat
  deriving DecidableEq, Repr

def decodeEhdr (b : List UInt8) : Ehdr where
  ident := b.take 16
  type := leBytes b 16 2
  machine := leBytes b 18 2
  entry := leBytes b 24 4
  phoff := leBytes b 28 4
  phentsize := leBytes b 42 2
  phnum := leBytes b 44 2

/-- A 32-bit little-endian executable for this machine, with the magic number. -/
def Ehdr.ok (h : Ehdr) : Bool :=
  h.ident.take 4 = [0x7f, 0x45, 0x4c, 0x46] ∧ h.ident.getD 4 0 = ELFCLASS32 ∧
    h.ident.getD 5 0 = ELFDATA2LSB ∧ h.type = ET_EXEC ∧ h.machine = EM_386

/-- The fields of `Elf32_Phdr` that are used. -/
structure Phdr where
  type : Nat
  offset : Nat
  vaddr : Nat
  filesz : Nat
  memsz : Nat
  flags : Nat
  deriving DecidableEq, Repr

def decodePhdr (b : List UInt8) : Phdr where
  type := leBytes b 0 4
  offset := leBytes b 4 4
  vaddr := leBytes b 8 4
  filesz := leBytes b 16 4
  memsz := leBytes b 20 4
  flags := leBytes b 24 4

/-- A `uint32_t` as an `off_t`. -/
def toOff (n : Nat) : Int := (n : Int).bmod 4294967296

/-- The contents and the protection of a segment whose pages are mapped. -/
def fillSegment (c : Credentials) (f : ExecFile) (s : AddrSpace) (h : Phdr) :
    Option (Except ExecError Nat × AddrSpace) :=
  let bytes := if 0 < h.filesz then vfsRead c f h.filesz (toOff h.offset) else .ok []
  match bytes with
  | .error _ => some (.error (.errno Errno.EIO), s)
  | .ok bytes =>
    (s.mem.fill h.vaddr bytes.length fun i => bytes.getD i 0).bind fun m =>
      (m.fill (add32 h.vaddr h.filesz) (sub32 h.memsz h.filesz) fun _ => 0).bind fun m =>
        (if hasFlag h.flags PF_W then some m
          else m.remap PAGE_FLAG_USER
            (pageRange (frame h.vaddr) (add32 h.vaddr h.memsz))).map fun m =>
              (.ok (add32 h.vaddr h.memsz), { s with mem := m })

/-- `process_load_segment`, which returns the address behind the segment. `none` also
when that address is in the last page: the loop over the pages then does not end. -/
def processLoadSegment (c : Credentials) (f : ExecFile) (s : AddrSpace) (h : Phdr) :
    Option (Except ExecError Nat × AddrSpace) :=
  if 0xfffff000 < add32 h.vaddr h.memsz then none
  else
    (s.mem.mapNew (PAGE_FLAG_USER ||| PAGE_FLAG_WRITE)
      (pageRange (frame h.vaddr) (add32 h.vaddr h.memsz))).bind fun
      | (some _, m) => some (.error (.errno .ENOMEM), { s with mem := m })
      | (none, m) =>
        match { s with mem := m }.kmalloc with
        | (none, s) => some (.error (.errno .ENOMEM), s)
        | (some p, s) =>
          (s.addRegion p
            { base := frame h.vaddr
              len := roundPage h.memsz
              prot := (if hasFlag h.flags PF_R then PROT_READ else 0) |||
                (if hasFlag h.flags PF_W then PROT_WRITE else 0) |||
                (if hasFlag h.flags PF_X then PROT_EXEC else 0)
              flags := MAP_PRIVATE ||| MAP_ANONYMOUS
              ino := none
              offset := 0 }).bind fun s => fillSegment c f s h

/-- The loop of `process_load_phdrs` over the program headers `is`, with the program
break so far. -/
def loadHeaders (env : ExecEnv) (c : Credentials) (f : ExecFile) (eh : Ehdr) :
    List Nat → AddrSpace → LinkInfo → Nat → Option (Except ExecError (Nat × LinkInfo) × AddrSpace)
  | [], s, link, pbreak =>
    if 0x80000000 ≤ pbreak then some (.error (.address pbreak), s) else some (.ok (pbreak, link), s)
  | i :: is, s, link, pbreak =>
    match vfsRead c f 32 (toOff (add32 eh.phoff (eh.phentsize * i))) with
    | .error e => some (.error (.errno e), s)
    | .ok bytes =>
      let h := decodePhdr (execBuffer env bytes 32)
      if h.type = PT_LOAD then
        (processLoadSegment c f s h).bind fun
          | (.error e, s) => some (.error e, s)
          | (.ok stop, s) =>
            if 0x80000000 ≤ stop then some (.error (.address stop), s)
            else loadHeaders env c f eh is s
              (if h.offset = 0 then { link with loadbase := h.vaddr } else link) stop
      else if h.type = PT_INTERP then
        loadHeaders env c f eh is s { link with active := true, interp := h.vaddr } pbreak
      else if h.type = PT_DYNAMIC then
        loadHeaders env c f eh is s { link with active := true, dynamic := h.vaddr } pbreak
      else loadHeaders env c f eh is s link pbreak

def processLoadPhdrs (env : ExecEnv) (c : Credentials) (f : ExecFile) (eh : Ehdr) (s : AddrSpace) :
    Option (Except ExecError (Nat × LinkInfo) × AddrSpace) :=
  match s.kmalloc with
  | (none, s) => some (.error (.errno .ENOMEM), s)
  | (some _, s) => loadHeaders env c f eh (List.range eh.phnum) s ⟨false, 0, 0, 0⟩ env.junkBreak

/-- `process_remap_segments`: it remaps pages at `LD_SO_LOAD_ADDR` for every segment. -/
def processRemapSegments (s : AddrSpace) : Option AddrSpace :=
  (((s.regions.elems.filterMap s.records).filter fun r : Region =>
    ¬hasFlag r.prot PROT_WRITE).foldlM
    (fun (m : Memory) (r : Region) => m.remap PAGE_FLAG_USER
      (pageRange LD_SO_LOAD_ADDR (add32 LD_SO_LOAD_ADDR r.len))) s.mem).map fun m =>
        { s with mem := m }

/-- The last part of `process_exec` on the memory: the break, and the dynamic linker
if there is one. -/
def linkImage (env : ExecEnv) (s : AddrSpace) (entry pbreak : Nat) (link : LinkInfo) :
    Option (Except ExecError Nat × AddrSpace) :=
  let brk := if pbreak % 4096 ≠ 0 then add32 (frame pbreak) PAGE_SIZE else pbreak
  let s := { s with brk := brk, initBreak := brk }
  if link.active then
    if link.loadbase = 0 ∨ link.dynamic = 0 then some (.error (.errno .ENOEXEC), s)
    else (env.rtldSetup s link).map fun
      | (.error e, s) => (.error (.errno e), s)
      | (.ok entry, s) => (.ok entry, s)
  else (processRemapSegments s).map fun s => (.ok entry, s)

/-- `process_exec` from the new region table to the loaded image. -/
def loadImage (env : ExecEnv) (c : Credentials) (f : ExecFile) (s : AddrSpace) :
    Option (Except ExecError Nat × AddrSpace) :=
  match s.newRegions with
  | (false, s) => some (.error (.errno .ENOMEM), s)
  | (true, s) =>
    match s.kmalloc with
    | (none, s) => some (.error (.errno .ENOMEM), s)
    | (some _, s) =>
      match vfsRead c f 52 0 with
      | .error e => some (.error (.errno e), s)
      | .ok bytes =>
        let eh := decodeEhdr (execBuffer env bytes 52)
        if ¬eh.ok then some (.error (.errno .ENOEXEC), s)
        else
          (processLoadPhdrs env c f eh s).bind fun
            | (.error e, s) => some (.error e, s)
            | (.ok (pbreak, link), s) => linkImage env s eh.entry pbreak link

/-- `process_clear` of the current process with `partial` set: its memory goes, and its
IDs, masks and limits are reset. -/
def processClear (env : ExecEnv) (p : Process) : Option Process :=
  p.space.destroyRegions.map fun s =>
    let m := s.mem.releaseFrames (pageRange s.initBreak s.brk)
    let m := if p.pgcopied then m.pageDirExecFree m.currDir env.heapStart env.heapEnd else m
    { p with
      space := { s with mem := m, initBreak := 0, brk := 0 }
      maxbreak := 0
      maxfds := 0
      pause := 0
      sig := 0
      term := 0
      waitstat := 0
      umask := 0
      cred := ⟨⟨0, 0, 0⟩, ⟨0, 0, 0⟩⟩
      pgid := 0
      sid := 0
      sigactions := fun _ => 0
      sigblocked := 0
      sigpending := 0 }

def processFreeFd (p : Process) (fd : Nat) : Process :=
  match p.files.getD fd none with
  | none => p
  | some file =>
    { p with
      files := p.files.set fd none
      fdRefs := fun g => if g = file then p.fdRefs g - 1 else p.fdRefs g }

/-- Close the descriptors that are marked close-on-exec. -/
def closeOnExec (p : Process) : Process :=
  (List.range p.files.length).foldl
    (fun p fd => if hasFlag (p.fdflags.getD fd 0) FD_CLOEXEC then processFreeFd p fd else p) p

/-- The set-ID bits of the image. -/
def setImageIds (f : ExecFile) (p : Process) : Process :=
  if hasFlag f.attrs.mntflags MS_NOSUID then p
  else
    { p with cred :=
      { user := if hasFlag f.attrs.mode S_ISUID then { p.cred.user with effective := f.attrs.uid }
          else p.cred.user
        group := if hasFlag f.attrs.mode S_ISGID then { p.cred.group with effective := f.attrs.gid }
          else p.cred.group } }

/-- `process_exec` of a file that is not a script. -/
def execBinary (env : ExecEnv) (p : Process) (f : ExecFile) (argv envp : List (List UInt8)) :
    Option (Except ExecError Nat × Process) :=
  match taskSetupExec argv envp with
  | some e => some (.error (.errno e), p)
  | none =>
    (processClear env { p with execData := (argv, envp) }).bind fun p =>
      (loadImage env (closeOnExec p).cred f (closeOnExec p).space).bind fun
        | (.error e, s) => s.destroyRegions.map fun s => (.error e, { closeOnExec p with space := s })
        | (.ok entry, s) => some (.ok entry, setImageIds f { closeOnExec p with space := s })

/-- `process_exec` and `process_exec_sh`, which calls it for the interpreter of a
script. A vector of more than 255 arguments is copied past the end of `new_argv`. -/
def processExec (env : ExecEnv) :
    Nat → Process → ExecFile → List (List UInt8) → List (List UInt8) →
      Option (Except ExecError Nat × Process)
  | 0, _, _, _, _ => none
  | depth + 1, p, f, argv, envp =>
    match vfsRead p.cred f 2 0 with
    | .error _ => some (.error (.errno Errno.EIO), p)
    | .ok bytes =>
      if execBuffer env bytes 2 = [0x23, 0x21] then
        match vfsRead p.cred f 127 2 with
        | .error _ => some (.error (.errno Errno.EIO), p)
        | .ok bytes =>
          (hashbangLine (execBuffer env bytes 127)).bind fun line =>
            if 255 < argv.length then none
            else if 255 - argv.length < (scriptWords line).length then
              some (.error (.errno Errno.EIO), p)
            else
              match env.openFile p.cred ((scriptWords line).headD []) with
              | .error e => some (.error (.errno e), p)
              | .ok g => processExec env depth p g (scriptWords line ++ argv) envp
      else execBinary env p f argv envp

/-- `sys_execve`. On success `task_exec` clears the signal handlers once more and
enters the image. -/
def sysExecve (env : ExecEnv) (p : Process) (path : List UInt8) (argv envp : List (List UInt8)) :
    Option (Except ExecError Nat × Process) :=
  match env.openFile p.cred path with
  | .error e => some (.error (.errno e), p)
  | .ok f =>
    if hasFlag f.attrs.mntflags MS_NOEXEC then some (.error (.errno .EACCES), p)
    else if isType f.attrs.mode S_IFDIR then some (.error (.errno .EISDIR), p)
    else
      match vfsPermCheckExec p.cred f.attrs false with
      | some e => some (.error (.errno e), p)
      | none =>
        (processExec env env.depth p f argv envp).map fun
          | (.error e, p) => (.error e, p)
          | (.ok entry, p) => (.ok entry, { p with sigactions := fun _ => 0 })

end Os0
