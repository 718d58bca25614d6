import Os0.Lib.Bytes
import Os0.Libk.SortedArray

/-! The kernel heap of `kernel/heap.c`. A block is a 16-byte header, its payload
and an 8-byte footer that points back to the header; the index lists the headers.
`none` is a failed assertion or a write past the end of the index. -/
namespace Os0

open Bytes

def MEM_MAGIC : Nat := 0xefbeadde
def MEM_CIGAM : Nat := 0xdeadbeef
def KHEAP_DATA_VADDR : Nat := 0xd0000000
def KHEAP_DATA_LEN : Nat := 0x10000000
def KHEAP_INDEX_NELEM : Nat := 0x8000
def PAGE_SIZE : Nat := 0x1000

/-- `sizeof (MemHeader)`. -/
def headerSize : Nat := 16

/-- `sizeof (MemFooter)`. -/
def footerSize : Nat := 8

/-- The memory the heap lives in, `mh_index`, `mh_addr` and `mh_size`. -/
structure MemHeap where
  mem : Mem
  index : SortedArray Nat
  addr : Nat
  size : Nat

namespace MemHeap

/-! `MemHeader` has `mh_magic` at 0, `mh_size` at 4 and the byte `mh_alloc` at 8;
`MemFooter` has `mf_cigam` at 0 and `mf_header` at 4. -/

def mhMagic (heap : MemHeap) (header : Nat) : Nat := heap.mem.word header

def mhSize (heap : MemHeap) (header : Nat) : Nat := heap.mem.word (header + 4)

def mhAlloc (heap : MemHeap) (header : Nat) : Bool := heap.mem (header + 8) != 0

def mfCigam (heap : MemHeap) (footer : Nat) : Nat := heap.mem.word footer

def mfHeader (heap : MemHeap) (footer : Nat) : Nat := heap.mem.word (footer + 4)

def setMagic (heap : MemHeap) (header magic : Nat) : MemHeap :=
  { heap with mem := heap.mem.setWord header magic }

def setSize (heap : MemHeap) (header size : Nat) : MemHeap :=
  { heap with mem := heap.mem.setWord (header + 4) size }

def setAlloc (heap : MemHeap) (header : Nat) (alloc : UInt8) : MemHeap :=
  { heap with mem := heap.mem.set (header + 8) alloc }

def setCigam (heap : MemHeap) (footer cigam : Nat) : MemHeap :=
  { heap with mem := heap.mem.setWord footer cigam }

def setHeader (heap : MemHeap) (footer header : Nat) : MemHeap :=
  { heap with mem := heap.mem.setWord (footer + 4) header }

def heapCmp (heap : MemHeap) (a b : Nat) : Bool := decide (heap.mhSize a < heap.mhSize b)

def indexInsert (heap : MemHeap) (header : Nat) : Option MemHeap :=
  (heap.index.insert heap.heapCmp header).map fun index => { heap with index }

def indexRemove (heap : MemHeap) (i : Nat) : MemHeap :=
  { heap with index := heap.index.remove i }

/-- The first page boundary behind the start of the payload. -/
def pageAddr (header : Nat) : Nat :=
  add32 (add32 header headerSize / PAGE_SIZE * PAGE_SIZE) PAGE_SIZE

/-- Cut the free block in two so that the payload of the second, already marked
allocated, starts at the page boundary `addr`; returns the second header. -/
def carvePage (heap : MemHeap) (header addr : Nat) : Option (MemHeap × Nat) :=
  let footer := add32 (add32 header headerSize) (heap.mhSize header)
  let pageHeader := sub32 addr headerSize
  let prevFooter := sub32 pageHeader footerSize
  if heap.mfCigam footer ≠ MEM_CIGAM then none
  else
    let heap := heap.setHeader footer pageHeader
    let heap := heap.setMagic pageHeader MEM_MAGIC
    let heap := heap.setSize pageHeader
      (add32 (add32 (sub32 (heap.mhSize header) addr) header) headerSize)
    let heap := heap.setAlloc pageHeader 1
    let heap := heap.setCigam prevFooter MEM_CIGAM
    let heap := heap.setHeader prevFooter header
    let heap := heap.setSize header (sub32 (sub32 prevFooter header) headerSize)
    (heap.indexInsert pageHeader).map fun heap => (heap, pageHeader)

/-- Allocate the first `size` bytes and make the rest a free block. -/
def splitBlock (heap : MemHeap) (header size : Nat) : Option MemHeap :=
  let footer := add32 (add32 header headerSize) size
  let newSize := sub32 (sub32 (sub32 (heap.mhSize header) size) headerSize) footerSize
  let heap := heap.setSize header size
  let heap := heap.setAlloc header 1
  let heap := heap.setCigam footer MEM_CIGAM
  let heap := heap.setHeader footer header
  let newHeader := add32 footer footerSize
  let heap := heap.setMagic newHeader MEM_MAGIC
  let heap := heap.setSize newHeader newSize
  let heap := heap.setAlloc newHeader 0
  (heap.indexInsert newHeader).map fun heap =>
    let newFooter := add32 (add32 newHeader headerSize) (heap.mhSize newHeader)
    let heap := heap.setCigam newFooter MEM_CIGAM
    heap.setHeader newFooter newHeader

/-- The end of the loop body: allocate `size` bytes of the block, if they fit.
A result without a pointer goes on to the next index entry. -/
def takeBlock (heap : MemHeap) (header size : Nat) : Option (MemHeap × Option Nat) :=
  if heap.mhSize header > add32 (add32 size headerSize) footerSize then
    (heap.splitBlock header size).map fun heap => (heap, some (add32 header headerSize))
  else if heap.mhSize header ≥ size then
    some (heap.setAlloc header 1, some (add32 header headerSize))
  else some (heap, none)

/-- The loop body of `heap_alloc`. -/
def tryBlock (heap : MemHeap) (size : Nat) (aligned : Bool) (header : Nat) :
    Option (MemHeap × Option Nat) :=
  if heap.mhMagic header ≠ MEM_MAGIC || heap.mhAlloc header then some (heap, none)
  else if aligned && add32 header headerSize % PAGE_SIZE ≠ 0 then
    let addr := pageAddr header
    let blockEnd := add32 (add32 header headerSize) (heap.mhSize header)
    if addr ≥ blockEnd then some (heap, none)
    else if sub32 blockEnd addr < size then some (heap, none)
    else if sub32 addr header > headerSize * 2 + footerSize then do
      let (heap, header) ← heap.carvePage header addr
      heap.takeBlock header size
    else some (heap, none)
  else heap.takeBlock header size

/-- The loop of `heap_alloc`. An iteration that goes on has left the heap as it
was, so the entries still to visit are those of the index at the call. -/
def allocLoop (size : Nat) (aligned : Bool) : List Nat → MemHeap → Option (MemHeap × Option Nat)
  | [], heap => some (heap, none)
  | header :: rest, heap =>
    match heap.tryBlock size aligned header with
    | some (heap, none) => allocLoop size aligned rest heap
    | result => result

end MemHeap

/-- `heap_alloc`: the heap after the call and the pointer, `none` for `NULL`. -/
def heapAlloc (heap : MemHeap) (size : Nat) (aligned : Bool) : Option (MemHeap × Option Nat) :=
  MemHeap.allocLoop size aligned heap.index.elems heap

namespace MemHeap

/-- Left unification. It gives the header to go on with. -/
def unifyLeft (heap : MemHeap) (header i : Nat) : MemHeap × Nat :=
  let footer := sub32 header footerSize
  if footer ≥ heap.addr then
    let prevHeader := heap.mfHeader footer
    if heap.mfCigam footer = MEM_CIGAM && heap.mhMagic prevHeader = MEM_MAGIC
        && !heap.mhAlloc prevHeader then
      let heap := heap.setSize prevHeader
        (add32 (heap.mhSize prevHeader)
          (add32 (add32 (heap.mhSize header) headerSize) footerSize))
      let heap := heap.setMagic header 0
      (heap.indexRemove i, prevHeader)
    else (heap, header)
  else (heap, header)

/-- Right unification, which repoints the footer of the block it swallows. -/
def unifyRight (heap : MemHeap) (header : Nat) : MemHeap :=
  let nextHeader := add32 (add32 (add32 header headerSize) footerSize) (heap.mhSize header)
  if nextHeader < add32 heap.addr heap.size && heap.mhMagic nextHeader = MEM_MAGIC
      && !heap.mhAlloc nextHeader then
    match heap.index.elems.idxOf? nextHeader with
    | none => heap
    | some i =>
      let footer := add32 (add32 nextHeader headerSize) (heap.mhSize nextHeader)
      if heap.mfCigam footer = MEM_CIGAM then
        let heap := heap.setHeader footer header
        let heap := heap.setSize header
          (add32 (heap.mhSize header)
            (add32 (add32 headerSize footerSize) (heap.mhSize nextHeader)))
        heap.indexRemove i
      else heap
  else heap

end MemHeap

def heapFree (heap : MemHeap) (ptr : Nat) : Option MemHeap :=
  if ptr = 0 then some heap
  else
    let header := sub32 ptr headerSize
    if heap.mhMagic header ≠ MEM_MAGIC then none
    else
      match heap.index.elems.idxOf? header with
      | none => some heap
      | some i =>
        let heap := heap.setAlloc header 0
        let (heap, header) := heap.unifyLeft header i
        some (heap.unifyRight header)

/-- `heap_init` on memory with arbitrary contents. -/
def heapInit (mem : Mem) : Option MemHeap :=
  let header := KHEAP_DATA_VADDR
  let heap : MemHeap := ⟨mem, .place KHEAP_INDEX_NELEM, KHEAP_DATA_VADDR, KHEAP_DATA_LEN⟩
  let heap := heap.setMagic header MEM_MAGIC
  let heap := heap.setSize header (KHEAP_DATA_LEN - headerSize - footerSize)
  let heap := heap.setAlloc header 0
  (heap.indexInsert header).map fun heap =>
    let footer := add32 (add32 header headerSize) (heap.mhSize header)
    let heap := heap.setCigam footer MEM_CIGAM
    heap.setHeader footer header

end Os0
