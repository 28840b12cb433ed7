import Borgos.Foundations.Outcome
import Borgos.Mem.Page

/-! # `kmalloc.c`: the slab allocator

Headers are records at their addresses: `pageHdr` at the start of a page, `blockHdr` at the start of a
block. `sizeof(struct page_hdr)` is 32 and `sizeof(struct memblock_hdr)` is 16. `page_alloc_page` is a
parameter. What it keeps for itself is `phys`; it returns the virtual address of the page. The lock
and log output are left out. Pointers are numbers below `2^64`, 0 is `NULL`.
-/
namespace Borgos.Mem
open Borgos.Foundations
set_option autoImplicit false

/-- `bh` is the union as its eight bytes: `next` is all of them, `size` the lower four. -/
structure MemblockHdr where
  flags : ℕ
  bh : ℕ
deriving DecidableEq, Repr

namespace MemblockHdr

def next (b : MemblockHdr) : ℕ := b.bh

def size (b : MemblockHdr) : ℕ := b.bh % 2 ^ 32

def setNext (b : MemblockHdr) (next : ℕ) : MemblockHdr := { b with bh := next }

def setSize (b : MemblockHdr) (size : ℕ) : MemblockHdr :=
  { b with bh := b.bh / 2 ^ 32 * 2 ^ 32 + size % 2 ^ 32 }

end MemblockHdr

structure PageHdr where
  next : ℕ
  firstfree : ℕ
  order : ℕ
  nfree : ℕ
deriving DecidableEq, Repr

structure SizeDescriptor where
  firstfree : ℕ
  size : ℕ
  nblocks : ℕ
  nmallocs : ℕ
  nfrees : ℕ
  nbytesmalloced : ℕ
  npages : ℕ
  gfporder : ℕ
  ntotal : ℕ
  nfree : ℕ
deriving DecidableEq, Repr

structure Slab (ρ : Type) where
  zoneslabs : Zone → ℕ → SizeDescriptor
  pageHdr : ℕ → PageHdr
  blockHdr : ℕ → MemblockHdr
  phys : ρ

def pageHdrSize : ℕ := 32

def memblockHdrSize : ℕ := 16

def memblockFree : ℕ := 0x8000

/-- `~MEMBLOCK_FREE` as a `uint32_t`. -/
def notMemblockFree : ℕ := 0xFFFF7FFF

def slabsizecount : ℕ := 8

def maxGetFreePageTries : ℕ := 4

/-- `a += b` and `a -= b` on a `uint32_t`. -/
def add32 (a b : ℕ) : ℕ := (a + b) % 2 ^ 32

def sub32 (a b : ℕ) : ℕ := (a + 2 ^ 32 - b % 2 ^ 32) % 2 ^ 32

/-- `a++` and `a--` on a `uint16_t`. -/
def inc16 (a : ℕ) : ℕ := (a + 1) % 2 ^ 16

def dec16 (a : ℕ) : ℕ := (a + 2 ^ 16 - 1) % 2 ^ 16

variable {ρ : Type}

namespace Slab

def setSizes (s : Slab ρ) (zone : Zone) (order : ℕ) (f : SizeDescriptor → SizeDescriptor) : Slab ρ :=
  { s with zoneslabs := fun z => if z = zone then
      Function.update (s.zoneslabs z) order (f (s.zoneslabs z order)) else s.zoneslabs z }

def setPageHdr (s : Slab ρ) (page : ℕ) (f : PageHdr → PageHdr) : Slab ρ :=
  { s with pageHdr := Function.update s.pageHdr page (f (s.pageHdr page)) }

def setBlockHdr (s : Slab ρ) (block : ℕ) (f : MemblockHdr → MemblockHdr) : Slab ρ :=
  { s with blockHdr := Function.update s.blockHdr block (f (s.blockHdr block)) }

end Slab

/-! ## Start -/

/-- Block size and number of blocks `kmalloc_calc_sizes` computes for class `i`. -/
def calcSize (i : ℕ) : ℕ × ℕ :=
  let grosssize := 2 ^ (i + 5)
  let pagenetsize := pagesize - pageHdrSize
  if grosssize ≥ pagesize then (grosssize - pageHdrSize, 1)
  else if grosssize ≥ 256 then
    let count := pagesize / grosssize
    (pagenetsize / count &&& 0xFFF0, count)
  else (grosssize, pagenetsize / grosssize)

/-- `kmalloc_calc_sizes`. -/
def kmallocCalcSizes : Prog (Slab ρ) Unit :=
  Prog.modify fun s => { s with zoneslabs := fun z i => if i < slabsizecount then
    { s.zoneslabs z i with size := (calcSize i).1, nblocks := (calcSize i).2 } else s.zoneslabs z i }

/-- The check of one zone in `kmalloc_init`; the class of size 0 ends it. -/
def kmallocCheck (zone : Zone) : ℕ → ℕ → Prog (Slab ρ) Unit
  | 0, _ => Prog.stuck
  | fuel + 1, order => do
    let s ← Prog.get
    let d := s.zoneslabs zone order
    if d.size = 0 then pure ()
    else if (d.nblocks * d.size % 2 ^ 32 + pageHdrSize) > pagesize * 2 ^ d.gfporder % 2 ^ 32 then
      Prog.panic "This only happens if someone messes with kmalloc"
    else kmallocCheck zone fuel (order + 1)

/-- `kmalloc_init`. -/
def kmallocInit : Prog (Slab ρ) Unit := do
  kmallocCalcSizes
  kmallocCheck .NORMAL (slabsizecount + 1) 0
  kmallocCheck .DMA16 (slabsizecount + 1) 0
  kmallocCheck .DMA32 (slabsizecount + 1) 0
  kmallocCheck .HIGH (slabsizecount + 1) 0
  kmallocCheck .UNKNOWN (slabsizecount + 1) 0

/-! ## `kmalloc` -/

def getOrderFrom (sizes : ℕ → SizeDescriptor) (size : ℕ) : ℕ → ℕ → Option ℕ
  | 0, _ => none
  | fuel + 1, order =>
    if (sizes order).size = 0 then none
    else if size ≤ (sizes order).size then some order
    else getOrderFrom sizes size fuel (order + 1)

/-- `get_order`; `none` is -1. -/
def getOrder (sizes : ℕ → SizeDescriptor) (size : ℕ) : Option ℕ :=
  getOrderFrom sizes (add32 size memblockHdrSize) (slabsizecount + 1) 0

/-- A page without a free block leaves the list of its class. -/
def kmallocUnlinkFull (zone : Zone) (order page : ℕ) : Prog (Slab ρ) Unit := do
  let s ← Prog.get
  if (s.pageHdr page).nfree = 0 then do
    Prog.modify fun s => s.setSizes zone order fun d => { d with firstfree := (s.pageHdr page).next }
    Prog.modify fun s => s.setPageHdr page fun h => { h with next := 0 }
  else pure ()

/-- `kmalloc` when the first page of the class is `page`. -/
def kmallocFromPage (zone : Zone) (order size flags page : ℕ) : Prog (Slab ρ) ℕ := do
  let s ← Prog.get
  let block := (s.pageHdr page).firstfree
  if (s.blockHdr block).flags &&& memblockFree ≠ 0 then do
    Prog.modify fun s => s.setPageHdr page fun h => { h with firstfree := (s.blockHdr block).next }
    Prog.modify fun s => s.setPageHdr page fun h => { h with nfree := dec16 h.nfree }
    kmallocUnlinkFull zone order page
    Prog.modify fun s => s.setSizes zone order fun d => { d with nmallocs := add32 d.nmallocs 1 }
    Prog.modify fun s => s.setSizes zone order fun d => { d with nbytesmalloced := add32 d.nbytesmalloced size }
    Prog.modify fun s => s.setSizes zone order fun d => { d with nfree := sub32 d.nfree 1 }
    Prog.modify fun s => s.setBlockHdr block fun b => { b with flags := (b.flags ||| flags) &&& notMemblockFree }
    Prog.modify fun s => s.setBlockHdr block fun b => b.setSize size
    pure ((block + memblockHdrSize) % wordSize)
  else Prog.panic "page->firstfree is not free! "

/-- All blocks of a new page but the last are chained to the next one. -/
def kmallocInitBlocks (blocksize : ℕ) : ℕ → ℕ → Prog (Slab ρ) ℕ
  | 0, p => pure p
  | n + 1, p => do
    Prog.modify fun s => s.setBlockHdr p fun b => { b with flags := b.flags ||| memblockFree }
    Prog.modify fun s => s.setBlockHdr p fun b => b.setNext ((p + blocksize) % wordSize)
    let s ← Prog.get
    kmallocInitBlocks blocksize n (s.blockHdr p).next

section PageSource
variable (pageAllocPage : ℕ → Prog (Slab ρ) ℕ)

/-- `kmalloc` gets a new page for a class. -/
def kmallocNewPage (zone : Zone) (order flags : ℕ) : Prog (Slab ρ) Unit := do
  let page ← pageAllocPage flags
  if page = 0 then Prog.panic "Unable to get new page for malloc \n"
  else do
    Prog.modify fun s => s.setSizes zone order fun d => { d with npages := add32 d.npages 1 }
    Prog.modify fun s => s.setSizes zone order fun d => { d with ntotal := add32 d.ntotal d.nblocks }
    Prog.modify fun s => s.setSizes zone order fun d => { d with nfree := add32 d.nfree d.nblocks }
    let s ← Prog.get
    let nblocks := (s.zoneslabs zone order).nblocks
    let first := (page + pageHdrSize) % wordSize
    let last ← kmallocInitBlocks (s.zoneslabs zone order).size (nblocks - 1) first
    Prog.modify fun s => s.setBlockHdr last fun b => { b with flags := b.flags ||| memblockFree }
    Prog.modify fun s => s.setBlockHdr last fun b => b.setNext 0
    Prog.modify fun s => s.setPageHdr page fun h => { h with order := order % 2 ^ 16 }
    Prog.modify fun s => s.setPageHdr page fun h => { h with nfree := nblocks % 2 ^ 16 }
    Prog.modify fun s => s.setPageHdr page fun h => { h with firstfree := first }
    Prog.modify fun s => s.setPageHdr page fun h => { h with next := (s.zoneslabs zone order).firstfree }
    Prog.modify fun s => s.setSizes zone order fun d => { d with firstfree := page }

/-- The loop of `kmalloc`. -/
def kmallocTries (zone : Zone) (order size flags : ℕ) : ℕ → Prog (Slab ρ) ℕ
  | 0 => Prog.panic "Unable to do malloc \n"
  | tries + 1 => do
    let s ← Prog.get
    if (s.zoneslabs zone order).firstfree ≠ 0 then
      kmallocFromPage zone order size flags (s.zoneslabs zone order).firstfree
    else do
      kmallocNewPage pageAllocPage zone order flags
      kmallocTries zone order size flags tries

/-- `kmalloc`. -/
def kmalloc (size flags : ℕ) : Prog (Slab ρ) ℕ := do
  if flags &&& gfpDma32 ≠ 0 then Prog.panic "kmalloc of DMA32 not enabled yet!"
  else do
    let s ← Prog.get
    match getOrder (s.zoneslabs (zoneOfFlags flags)) (size % 2 ^ 32) with
    | none => Prog.panic "kmalloc of large page"
    | some order => kmallocTries pageAllocPage (zoneOfFlags flags) order size flags maxGetFreePageTries

end PageSource

/-! ## `kfree` -/

/-- A page that has a free block again goes back to its class, unless it is linked already. -/
def kfreeRelink (zone : Zone) (order page : ℕ) : Prog (Slab ρ) Unit := do
  let s ← Prog.get
  if (s.pageHdr page).nfree = 1 then
    if (s.pageHdr page).next ≠ 0 then pure ()
    else do
      Prog.modify fun s => s.setPageHdr page fun h => { h with next := (s.zoneslabs zone order).firstfree }
      Prog.modify fun s => s.setSizes zone order fun d => { d with firstfree := page }
  else pure ()

/-- `kfree`. -/
def kfree (ptr : ℕ) : Prog (Slab ρ) Unit := do
  let s ← Prog.get
  let p := (ptr + wordSize - memblockHdrSize) % wordSize
  if (s.blockHdr p).flags &&& memblockFree ≠ 0 then Prog.panic "Try to free a FREE block ?? \n"
  else
    let zone := zoneOfFlags (s.blockHdr p).flags
    if (s.blockHdr p).flags &&& gfpDma32 ≠ 0 then Prog.panic "kmalloc free of DMA32 not enabled yet!"
    else do
      let page := pagealignDown p
      let order := (s.pageHdr page).order
      let size := (s.blockHdr p).size
      Prog.modify fun s => s.setBlockHdr p fun b => { b with flags := b.flags ||| memblockFree }
      Prog.modify fun s => s.setBlockHdr p fun b => b.setNext (s.pageHdr page).firstfree
      Prog.modify fun s => s.setPageHdr page fun h => { h with firstfree := p }
      Prog.modify fun s => s.setPageHdr page fun h => { h with nfree := inc16 h.nfree }
      kfreeRelink zone order page
      Prog.modify fun s => s.setSizes zone order fun d => { d with nfrees := add32 d.nfrees 1 }
      Prog.modify fun s => s.setSizes zone order fun d => { d with nbytesmalloced := sub32 d.nbytesmalloced size }
      Prog.modify fun s => s.setSizes zone order fun d => { d with nfree := add32 d.nfree 1 }

end Borgos.Mem
