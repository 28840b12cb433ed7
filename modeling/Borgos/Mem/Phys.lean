import Borgos.Mem.Page

/-! # `bootmem.c` and `phys.c`: from the boot memory map to the free lists

The boot memory map is the list of its entries, without the terminating `BOOTMEMTYPE_END` entry.
`physInit` is `phys_init`: it chooses the limits, lays out the descriptors (`physPagemapInit`) and
releases every unused frame below the boot page table's limit (`physFreepagesLow`). Log output is
left out.
-/
namespace Borgos.Mem
open Borgos.Foundations Borgos.Kcore
set_option autoImplicit false

inductive BootMemType where
  | FREE
  | RESERVED
  | ACPI_RECLAIMABLE
  | NVS
  | UNKNOWN
deriving DecidableEq, Repr

/-- `struct bootmem_memmapentry`, two 64-bit numbers and a type. -/
structure MemmapEntry where
  addr : ℕ
  size : ℕ
  type : BootMemType
  addr_lt : addr < 2 ^ 64
  size_lt : size < 2 ^ 64

/-- `mapentry->addr+mapentry->size-1`. -/
def MemmapEntry.endAddr (e : MemmapEntry) : ℕ := (e.addr + e.size + wordSize - 1) % wordSize

/-- What `phys_init` finds: the memory map and the physical range of the kernel image. The boot heap
is part of the state. -/
structure BootInfo where
  memmap : List MemmapEntry
  bootimageStart : ℕ
  bootimageEnd : ℕ

/-- `sizeof(page_t)`. -/
def sizeofPage : ℕ := 40

/-- `bootmem_alloc_phys` for a power-of-two alignment: the block's address. -/
def bootmemAllocPhys (size align : ℕ) : Prog Phys ℕ := do
  let s ← Prog.get
  let ptr := (s.bootmeminfo.heaptop + align - 1) % wordSize / align * align
  Prog.modify fun s => { s with bootmeminfo := { s.bootmeminfo with heaptop := (ptr + size) % wordSize } }
  pure ptr

/-- `bootmem_alloc_virt`. -/
def bootmemAllocVirt (size align : ℕ) : Prog Phys ℕ := do
  let ptr ← bootmemAllocPhys size align
  pure (p2v ptr)

/-- `_is_aligned_to_order`. -/
def isAlignedToOrder (pfn order : ℕ) : ℕ :=
  let mask := pagesize * 2 ^ order - 1
  if pfn2phys pfn &&& mask = 0 then order else 0

/-- The loop of `_testordertofree`: the first frame from `p` on, at most `fuel` away, that does not
belong to a run of free frames of the zone and segment of `pfn`. -/
def testordertofreeScan (s : Phys) (pfn maxPgdPfn : ℕ) : ℕ → ℕ → ℕ
  | 0, p => p
  | fuel + 1, p =>
    if p ≤ s.pfnMax ∧ p < maxPgdPfn then
      if (s.pageframemap pfn).zone ≠ (s.pageframemap p).zone then p
      else if (s.pageframemap pfn).memsegment ≠ (s.pageframemap p).memsegment then p
      else if (s.pageframemap p).usecount > 0 then p
      else if p > s.pfnMax then p
      else if p > maxPgdPfn then p
      else testordertofreeScan s pfn maxPgdPfn fuel (p + 1)
    else p

/-- `_testordertofree`: the largest order at which the run of free frames from `pfn` can be freed. -/
def testordertofree (s : Phys) (pfn maxPgdPfn : ℕ) : ℕ :=
  let possible := testordertofreeScan s pfn maxPgdPfn (2 ^ allocbuddyMaxorder) pfn - pfn
  if possible ≥ 64 ∧ isAlignedToOrder pfn 6 > 0 then 6
  else if possible ≥ 32 ∧ isAlignedToOrder pfn 5 > 0 then 5
  else if possible ≥ 16 ∧ isAlignedToOrder pfn 4 > 0 then 4
  else if possible ≥ 8 ∧ isAlignedToOrder pfn 3 > 0 then 3
  else if possible ≥ 4 ∧ isAlignedToOrder pfn 2 > 0 then 2
  else if possible ≥ 2 ∧ isAlignedToOrder pfn 1 > 0 then 1
  else 0

/-- `PFN_DMA16_MAX`; `PFN_DMA16_MIN` is 0. -/
def pfnDma16Max : ℕ := 255

/-- `phys_zone_for_pfn`. -/
def physZoneForPfn (s : Phys) (pfn : ℕ) : Zone :=
  if pfn ≥ s.pfnNormalMin ∧ pfn ≤ s.pfnNormalMax then .NORMAL
  else if pfn > s.pfnNormalMax ∧ pfn ≤ s.pfnMax then .HIGH
  else if pfn ≤ pfnDma16Max then .DMA16
  else .UNKNOWN

/-! ## The page descriptors -/

/-- `for (p=lo; p<=hi; p++) body`. -/
def forRange (lo hi : ℕ) (body : ℕ → Phys → Phys) (s : Phys) : Phys :=
  (List.range' lo (hi + 1 - lo)).foldl (fun s p => body p s) s

/-- `for (adr_t p=addr; p<end; p+=PAGESIZE) body`. The counter wraps when no address congruent to
`addr` lies between `end` and the top of the address space, and then the loop never ends. -/
def forPages (addr end_ : ℕ) (body : ℕ → Phys → Phys) : Prog Phys Unit :=
  if addr < end_ ∧ wordSize - pagesize + addr % pagesize < end_ then Prog.stuck
  else Prog.modify fun s =>
    (List.range ((end_ - addr + pagesize - 1) / pagesize)).foldl (fun s i => body (addr + pagesize * i) s) s

/-- `int pfn = PHYS2PFN(p)`, as the comparison with `PFN_MAX` reads it. -/
def framePfn (p : ℕ) : ℕ := toSize (toInt (phys2pfn p))

/-- `page_init` and the zone of one descriptor. -/
def initFrame (p : ℕ) (s : Phys) : Phys :=
  { (s.setPage p fun _ => { pageInit with zone := some (physZoneForPfn s p) }) with
    links := initListHead s.links (.page p) }

/-- `pageframemap[pfn].usecount = usecount; pageframemap[pfn].memsegment = memsegment`. -/
def markFrame (s : Phys) (pfn usecount : ℕ) (memsegment : ℤ) : Phys :=
  s.setPage pfn fun p => { p with usecount, memsegment }

/-- The frames the marking loops treat apart: the kernel image and the boot heap. -/
structure Reserve where
  pfnKernelMin : ℕ
  pfnKernelMax : ℕ
  pfnBootmemMin : ℕ
  pfnBootmemMax : ℕ

/-- The body of the first marking loop. -/
def markFreeBody (r : Reserve) (mapentryidx : ℕ) (p : ℕ) (s : Phys) : Phys :=
  let pfn := framePfn p
  if pfn ≤ s.pfnMax then
    if pfn ≥ r.pfnKernelMin ∧ pfn ≤ r.pfnKernelMax then s
    else if pfn ≥ r.pfnBootmemMin ∧ pfn ≤ r.pfnBootmemMax then s
    else markFrame s pfn 0 mapentryidx
  else s

/-- One entry of the first pass. -/
def markFreeEntry (r : Reserve) (mapentryidx : ℕ) (e : MemmapEntry) : Prog Phys Unit :=
  if e.type = .FREE then
    if phys2pfn e.addr < maxpgdPfn then forPages e.addr e.endAddr (markFreeBody r mapentryidx)
    else pure ()
  else pure ()

/-- The body of the second marking loop on a FREE entry. -/
def markReservedFreeBody (r : Reserve) (mapentryidx : ℕ) (p : ℕ) (s : Phys) : Phys :=
  let pfn := framePfn p
  if pfn ≤ s.pfnMax then
    if pfn ≥ r.pfnKernelMin ∧ pfn ≤ r.pfnKernelMax then markFrame s pfn 999 mapentryidx
    else if pfn ≥ r.pfnBootmemMin ∧ pfn ≤ r.pfnBootmemMax then markFrame s pfn 998 mapentryidx
    else s
  else s

/-- The body of the second marking loop on a RESERVED entry. -/
def markReservedBody (mapentryidx : ℕ) (p : ℕ) (s : Phys) : Phys :=
  let pfn := framePfn p
  if pfn ≤ s.pfnMax then markFrame s pfn 888 mapentryidx else s

/-- One entry of the second pass. ACPI, NVS and UNKNOWN entries are passed over. -/
def markReservedEntry (r : Reserve) (mapentryidx : ℕ) (e : MemmapEntry) : Prog Phys Unit :=
  match e.type with
  | .FREE => forPages e.addr e.endAddr (markReservedFreeBody r mapentryidx)
  | .RESERVED => forPages e.addr e.endAddr (markReservedBody mapentryidx)
  | _ => pure ()

/-- `while (mapentry->type != BOOTMEMTYPE_END)`, with the running entry index. -/
def forEntries (body : ℕ → MemmapEntry → Prog Phys Unit) : ℕ → List MemmapEntry → Prog Phys Unit
  | _, [] => pure ()
  | idx, e :: es => do
    body idx e
    forEntries body (idx + 1) es

/-- `phys_pagemap_init`. -/
def physPagemapInit (b : BootInfo) (pfnCount : ℕ) : Prog Phys Unit := do
  let _ ← bootmemAllocVirt (pfnCount * sizeofPage % wordSize) pagesize
  Prog.modify fun s => forRange 0 s.pfnMax initFrame s
  let nextptr ← bootmemAllocPhys 1 1
  let s ← Prog.get
  let r : Reserve := ⟨phys2pfn b.bootimageStart, phys2pfn b.bootimageEnd,
    phys2pfn s.bootmeminfo.addr, phys2pfn nextptr⟩
  Prog.modify fun s => forRange r.pfnKernelMin r.pfnKernelMax (fun p s => s.setUsecount p 999) s
  forEntries (markFreeEntry r) 0 b.memmap
  forEntries (markReservedEntry r) 0 b.memmap

/-! ## Releasing the frames -/

/-- `phys_freepages_low` from frame `p` on; the result lists the blocks it released. -/
def physFreepagesLowFrom : ℕ → ℕ → Prog Phys (List Block)
  | 0, p => do
    let s ← Prog.get
    if p ≤ s.pfnMax ∧ p ≤ maxbootpgdPfn then Prog.stuck else pure []
  | fuel + 1, p => do
    let s ← Prog.get
    if p ≤ s.pfnMax ∧ p ≤ maxbootpgdPfn then
      if (s.pageframemap p).order < 1 ∧ (s.pageframemap p).usecount < 1 then do
        let freeorder := testordertofree s p maxbootpgdPfn
        Prog.modify fun s => s.setOrder p freeorder
        Prog.modify fun s => s.setUsecount p 1
        pageFreePagePfn p
        let rest ← physFreepagesLowFrom fuel (p + (2 ^ freeorder - 1) + 1)
        pure (⟨p, freeorder⟩ :: rest)
      else physFreepagesLowFrom fuel (p + 1)
    else pure []

/-- `phys_freepages_low`. -/
def physFreepagesLow : Prog Phys (List Block) := do
  let s ← Prog.get
  physFreepagesLowFrom (s.pfnMax + 1) 0

/-! ## `phys_init` -/

/-- `phys_init_memoryzones`: every free list of every zone is empty. It goes through `ZONECOUNT` zones: `memoryzone` is
taken to have as many elements as `page.c` declares; `phys.c` defines it with 4. -/
def physInitMemoryzones (s : Phys) : Phys :=
  let heads := [Zone.NORMAL, .DMA16, .DMA32, .HIGH, .UNKNOWN].flatMap fun z =>
    (List.range (allocbuddyMaxorder + 1)).map fun k => Node.freelist z k
  { s with links := heads.foldl initListHead s.links }

/-- One step of the search for the NORMAL entry and the top entry. -/
def chooseEntry (acc : Option MemmapEntry × Option MemmapEntry) (ptr : MemmapEntry) :
    Option MemmapEntry × Option MemmapEntry :=
  if ptr.type = .FREE ∧ ptr.size > 1024 * 1024 then
    (match acc.1 with
      | none => some ptr
      | some l => if ptr.size < l.size ∧ l.addr < 4 * 1024 * 1024 * 1024 then some ptr else some l,
     match acc.2 with
      | none => some ptr
      | some t => if ptr.addr > t.addr then some ptr else some t)
  else acc

/-- The assignments to `PFN_MAX`, `PFN_NORMAL_MIN` and `PFN_NORMAL_MAX`. -/
def setLimits (largestnormal top : MemmapEntry) (s : Phys) : Phys :=
  let contigLow := pagealignUp largestnormal.addr
  let contigHigh := pagealignDown largestnormal.endAddr
  let topHigh := pagealignDown top.endAddr
  { s with
    pfnMax := min (topHigh / pagesize) maxpgdPfn
    pfnNormalMin := contigLow / pagesize
    pfnNormalMax := contigHigh / pagesize }

/-- `phys_init`: the result lists the blocks `phys_freepages_low` released. -/
def physInit (b : BootInfo) : Prog Phys (List Block) := do
  Prog.modify physInitMemoryzones
  match b.memmap.foldl chooseEntry (none, none) with
  | (none, _) => Prog.panic "UNABLE TO FIND NORMAL MEMORY"
  | (_, none) => Prog.panic "UNABLE TO FIND TOP MEMORY"
  | (some largestnormal, some top) => do
    Prog.modify (setLimits largestnormal top)
    let s ← Prog.get
    physPagemapInit b (s.pfnMax + 1)
    physFreepagesLow

end Borgos.Mem
