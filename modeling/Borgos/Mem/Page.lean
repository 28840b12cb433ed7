import Borgos.Foundations.Outcome
import Borgos.Foundations.Dyadic
import Borgos.Kcore.List
import Borgos.Mem.Layout

/-! # `page.c`: the buddy allocator

The page descriptors are a function of the frame number. The array has `PFN_MAX + 1` entries; what a
descriptor beyond them holds is whatever the memory after the array holds, so the model says nothing
about it. A `page_t*` is its frame number (`PAGE2PFN`, `&pageframemap[pfn]`), the nodes of the free
lists are the heads `memoryzone[z].free_area[k].freelist` and the `pagelist` fields of descriptors.
-/
namespace Borgos.Mem
open Borgos.Foundations Borgos.Kcore
set_option autoImplicit false

/-- The indices `ZONENORMAL` .. `ZONEUNKNOWN` of `memoryzone`. -/
inductive Zone where
  | NORMAL
  | DMA16
  | DMA32
  | HIGH
  | UNKNOWN
deriving DecidableEq, Repr

structure Page where
  order : ℤ
  usecount : ℕ
  zone : Option Zone
  memsegment : ℤ
deriving DecidableEq, Repr

inductive Node where
  | freelist (zone : Zone) (order : ℕ)
  | page (pfn : ℕ)
deriving DecidableEq, Repr

/-- `struct bootmem_info`. -/
structure BootmemInfo where
  addr : ℕ
  heaptop : ℕ
  maxsize : ℕ
deriving DecidableEq, Repr

/-- The globals of `page.c` and `phys.c`. -/
structure Phys where
  pageframemap : ℕ → Page
  links : Links Node
  pfnMax : ℕ
  pfnNormalMin : ℕ
  pfnNormalMax : ℕ
  bootmeminfo : BootmemInfo

namespace Phys

def setPage (s : Phys) (pfn : ℕ) (f : Page → Page) : Phys :=
  { s with pageframemap := Function.update s.pageframemap pfn (f (s.pageframemap pfn)) }

def setOrder (s : Phys) (pfn : ℕ) (order : ℤ) : Phys := s.setPage pfn fun p => { p with order }

def setUsecount (s : Phys) (pfn usecount : ℕ) : Phys := s.setPage pfn fun p => { p with usecount }

def listDelPage (s : Phys) (pfn : ℕ) : Phys := { s with links := listDel s.links (.page pfn) }

def listAddPage (s : Phys) (pfn : ℕ) (zone : Zone) (order : ℕ) : Phys :=
  { s with links := listAdd s.links (.page pfn) (.freelist zone order) }

/-- The frame numbers on `memoryzone[zone].free_area[order].freelist`, in list order. -/
def freelist (s : Phys) (zone : Zone) (order : ℕ) : List ℕ :=
  (listEntries s.links (.freelist zone order) (s.pfnMax + 2)
    (s.links (.freelist zone order)).next).filterMap fun
      | .page pfn => some pfn
      | .freelist _ _ => none

end Phys

/-- `_addToBuddyFreeList`. The first argument bounds the recursion through the orders. -/
def addToBuddyFreeList : ℕ → ℕ → ℕ → Prog Phys Unit
  | 0, _, _ => Prog.stuck
  | fuel + 1, idx, order => do
    let s ← Prog.get
    match (s.pageframemap idx).zone with
    | none => Prog.stuck
    | some zone =>
      let size := 2 ^ order
      let rest := idx % 2 ^ (order + 1)
      let buddyidx := if rest = 0 then idx + size else idx - rest
      if order > allocbuddyMaxorder then Prog.panic "cant add page with order > MAXORDER\n"
      else do
        -- remove page from whatever list it belongs to
        Prog.modify fun s => s.listDelPage idx
        if order ≥ allocbuddyMaxorder then Prog.modify fun s => s.listAddPage idx zone order
        else do
          let s ← Prog.get
          if (s.pageframemap buddyidx).usecount > 0 then
            Prog.modify fun s => s.listAddPage idx zone order
          else
            match listForEachFind s.links (.freelist zone order) (fun n => n = Node.page buddyidx)
                (s.pfnMax + 2) with
            | none => Prog.stuck
            | some none => Prog.modify fun s => s.listAddPage idx zone order
            | some (some _) => do
              Prog.modify fun s => s.listDelPage buddyidx
              if rest = 0 then do
                -- the buddy becomes a tag-along of this page
                Prog.modify fun s => s.setOrder idx ((s.pageframemap idx).order + 1)
                Prog.modify fun s => s.setOrder buddyidx (-1)
                addToBuddyFreeList fuel idx (order + 1)
              else do
                Prog.modify fun s => s.setOrder buddyidx ((s.pageframemap buddyidx).order + 1)
                Prog.modify fun s => s.setOrder idx (-1)
                addToBuddyFreeList fuel buddyidx (order + 1)

/-- `_findFreePageInBuddy`: the frame number of a free block of the order, or -1. -/
def findFreePageInBuddy (zone : Zone) : ℕ → ℕ → Prog Phys ℤ
  | 0, _ => Prog.stuck
  | fuel + 1, order => do
    if order > allocbuddyMaxorder then Prog.panic "order > MAXORDER\n"
    else do
      let s ← Prog.get
      if listEmpty s.links (.freelist zone order) then do
        let higherOrderIdx ← findFreePageInBuddy zone fuel (order + 1)
        if higherOrderIdx > 0 then do
          -- split in half
          let baseidx := higherOrderIdx.toNat
          let buddyidx := baseidx + 2 ^ order
          Prog.modify fun s => s.listDelPage baseidx
          Prog.modify fun s => s.setOrder baseidx order
          Prog.modify fun s => s.listAddPage baseidx zone order
          Prog.modify fun s => s.setOrder buddyidx order
          Prog.modify fun s => s.listAddPage buddyidx zone order
          pure higherOrderIdx
        else pure (-1)
      else
        match (s.links (.freelist zone order)).next with
        | some (.page pidx) => pure (pidx : ℤ)
        | _ => Prog.stuck

/-- The zone `_alloc_pages_byorder` serves a request from. -/
def zoneOfFlags (flags : ℕ) : Zone := if flags &&& gfpDma16 ≠ 0 then .DMA16 else .NORMAL

/-- `_alloc_pages_byorder`. -/
def allocPagesByorder (flags order : ℕ) : Prog Phys ℕ := do
  let idx ← findFreePageInBuddy (zoneOfFlags flags) (allocbuddyMaxorder + 2) order
  if idx = -1 then Prog.panic "Out of memory \n"
  else do
    let pfn := idx.toNat
    Prog.modify fun s => s.listDelPage pfn
    Prog.modify fun s => s.setUsecount pfn (((s.pageframemap pfn).usecount + 1) % 2 ^ 32)
    pure pfn

/-- The message of `page_free_page_pfn`'s panic. -/
def freeUsedMessage : String :=
  "Try to free page with count > 0, this might not be a problem, but want to try to trap it for now.... :-) "

/-- `page_free_page_pfn`. A negative order would be an undefined shift. -/
def pageFreePagePfn (pfn : ℕ) : Prog Phys Unit := do
  let s ← Prog.get
  let order := (s.pageframemap pfn).order
  let usecount := ((s.pageframemap pfn).usecount + 2 ^ 32 - 1) % 2 ^ 32
  Prog.modify fun s => s.setUsecount pfn usecount
  if usecount = 0 then
    if order < 0 then Prog.stuck
    else addToBuddyFreeList (allocbuddyMaxorder + 2) pfn order.toNat
  else Prog.panic freeUsedMessage

/-- `page_alloc_page`. The bytes of the block, which it clears, are not part of this state. -/
def pageAllocPage (flags : ℕ) : Prog Phys ℕ := allocPagesByorder flags 0

/-- `page_alloc_pages`. -/
def pageAllocPages (flags order : ℕ) : Prog Phys ℕ := allocPagesByorder flags order

/-- `page_alloc_pages_virt`. -/
def pageAllocPagesVirt (flags order : ℕ) : Prog Phys ℕ := do
  let pfn ← allocPagesByorder flags order
  pure (pfn2virt pfn)

/-- `page_init`. -/
def pageInit : Page := ⟨0, 444, none, 4242⟩

end Borgos.Mem
