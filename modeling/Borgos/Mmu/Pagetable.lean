import Borgos.Foundations.Outcome
import Borgos.Foundations.Forest
import Borgos.Mem.Layout

/-! # `pagetable.c`, `mmu.c`: four-level page tables

Physical memory, as far as page tables go, is a function from the frame number and the index to the
64-bit word. The kernel reaches a table through the direct map, so a `pgtblrecord_t*` is the virtual
address `P2V` of its frame. `page_alloc_pages_virt(0,0)` is a parameter that works on the state `phys`
of the page allocator. Log output and the CR3 switch are left out.
-/
namespace Borgos.Mmu
open Borgos.Foundations Borgos.Mem
set_option autoImplicit false

structure Tables (ρ : Type) where
  mem : ℕ → ℕ → ℕ
  kernelpagetable : ℕ
  phys : ρ

/-- The frame behind a pointer into the direct map. -/
def frameOf (table : ℕ) : ℕ := phys2pfn (v2p table)

/-! ## Entries -/

/-- `entry->p`. -/
def entryP (e : ℕ) : ℕ := e % 2

/-- `entry->ps0`. -/
def entryPs (e : ℕ) : ℕ := e / 2 ^ 7 % 2

/-- `entry->base`, bits 12 to 47. -/
def entryBase (e : ℕ) : ℕ := e / 2 ^ 12 % 2 ^ 36

/-- `_pagetable_subtblentry_setbase`, `_mmu_pte_setbase`. -/
def entrySetbase (e base : ℕ) : ℕ := e / 2 ^ 48 * 2 ^ 48 + (base / 2 ^ 12) % 2 ^ 36 * 2 ^ 12 + e % 2 ^ 12

/-- `_pagetable_subtblentry_setrawflags`; the mask is `~0xFFFF000000000FFF`. -/
def subtblentrySetrawflags (e flags : ℕ) : ℕ := (e &&& 0x0000FFFFFFFFF000) ||| flags

/-- `_mmu_pte_setrawflags`, a field of nine bits. -/
def pteSetrawflags (e flags : ℕ) : ℕ := e / 2 ^ 9 * 2 ^ 9 + flags % 2 ^ 9

/-- `_pagetable_subtblentry_getbase`. -/
def subtblentryGetbase (e : ℕ) : ℕ := p2v (entryBase e * 2 ^ 12)

def lvl1idx (vaddr : ℕ) : ℕ := vaddr / 2 ^ 12 % 2 ^ 9

def lvl2idx (vaddr : ℕ) : ℕ := vaddr / 2 ^ 21 % 2 ^ 9

def lvl3idx (vaddr : ℕ) : ℕ := vaddr / 2 ^ 30 % 2 ^ 9

def lvl4idx (vaddr : ℕ) : ℕ := vaddr / 2 ^ 39 % 2 ^ 9

def mmuDevice : ℕ := 0x01

def mmuUser : ℕ := 0x02

def mmuPteUs : ℕ := 2 ^ 2

def mmuPtePwt : ℕ := 2 ^ 3

def mmuPtePcd : ℕ := 2 ^ 4

/-! ## The hardware's view -/

/-- What a walk ends with: a frame of 4 KiB, and the bits of the last entry that are not its base. -/
structure Translation where
  frame : ℕ
  flags : ℕ
deriving DecidableEq, Repr

def entryFlags (e : ℕ) : ℕ := e / 2 ^ 48 * 2 ^ 48 + e % 2 ^ 12

/-- The walk of the processor from the table in frame `root`; an entry of level 3 or 2 with the PS bit
maps 1 GiB or 2 MiB. -/
def hardwareWalk (mem : ℕ → ℕ → ℕ) (root vaddr : ℕ) : Option Translation :=
  let e4 := mem root (lvl4idx vaddr)
  if entryP e4 = 0 then none
  else
    let e3 := mem (entryBase e4) (lvl3idx vaddr)
    if entryP e3 = 0 then none
    else if entryPs e3 = 1 then
      some ⟨entryBase e3 / 2 ^ 18 * 2 ^ 18 + lvl2idx vaddr * 2 ^ 9 + lvl1idx vaddr, entryFlags e3⟩
    else
      let e2 := mem (entryBase e3) (lvl2idx vaddr)
      if entryP e2 = 0 then none
      else if entryPs e2 = 1 then
        some ⟨entryBase e2 / 2 ^ 9 * 2 ^ 9 + lvl1idx vaddr, entryFlags e2⟩
      else
        let e1 := mem (entryBase e2) (lvl1idx vaddr)
        if entryP e1 = 0 then none else some ⟨entryBase e1, entryFlags e1⟩

/-! ## `pagetable.c` -/

variable {ρ : Type}

namespace Tables

def entry (s : Tables ρ) (table idx : ℕ) : ℕ := s.mem (frameOf table) idx

def setEntry (s : Tables ρ) (table idx : ℕ) (f : ℕ → ℕ) : Tables ρ :=
  { s with mem := setCell s.mem (frameOf table) idx (f (s.entry table idx)) }

/-- The loop that sets the words of a page to 0. -/
def clearPage (s : Tables ρ) (table : ℕ) : Tables ρ :=
  { s with mem := Function.update s.mem (frameOf table) fun _ => 0 }

end Tables

section Allocator
variable (pageAllocPagesVirt : Prog ρ ℕ)

/-- A call of the page allocator. -/
def allocTable : Prog (Tables ρ) ℕ := Prog.zoom Tables.phys (fun phys s => { s with phys }) pageAllocPagesVirt

/-- `pagetable_alloc`. -/
def pagetableAlloc : Prog (Tables ρ) ℕ := do
  let tbl ← allocTable pageAllocPagesVirt
  if tbl = 0 then Prog.panic "page_alloc_pages_virt failed\n"
  else do
    Prog.modify fun s => s.clearPage tbl
    pure tbl

/-- `pagetable_init`. -/
def pagetableInit : Prog (Tables ρ) ℕ := pagetableAlloc pageAllocPagesVirt

/-- The part of `pagetable_walk_getsubtable` that makes a missing table. -/
def pagetableEnsureSubtable (table idx tblcreateflags : ℕ) : Prog (Tables ρ) Unit := do
  let s ← Prog.get
  if entryP (s.entry table idx) = 0 then do
    let tbl ← pagetableAlloc pageAllocPagesVirt
    Prog.modify fun s => s.setEntry table idx fun e => entrySetbase e (v2p tbl)
    Prog.modify fun s => s.setEntry table idx fun e => subtblentrySetrawflags e tblcreateflags
  else pure ()

/-- `pagetable_walk_getsubtable`. -/
def pagetableWalkGetsubtable (table idx tblcreateflags : ℕ) : Prog (Tables ρ) ℕ := do
  if idx > 512 then Prog.panic "Index > 512 not allowed for pagetable\n"
  else do
    pagetableEnsureSubtable pageAllocPagesVirt table idx tblcreateflags
    let s ← Prog.get
    pure (subtblentryGetbase (s.entry table idx))

/-- `pagetable_walk_getlvl1table`. -/
def pagetableWalkGetlvl1table (lvl4table vaddr tblcreateflags : ℕ) : Prog (Tables ρ) ℕ := do
  let lvl3table ← pagetableWalkGetsubtable pageAllocPagesVirt lvl4table (lvl4idx vaddr) tblcreateflags
  let lvl2table ← pagetableWalkGetsubtable pageAllocPagesVirt lvl3table (lvl3idx vaddr) tblcreateflags
  pagetableWalkGetsubtable pageAllocPagesVirt lvl2table (lvl2idx vaddr) tblcreateflags

/-! ## `mmu.c` -/

/-- The leaf flags of `mmu_map_page`. -/
def pteflagsOf (flags : ℕ) : ℕ :=
  (0x23 ||| if flags &&& mmuDevice ≠ 0 then mmuPtePcd ||| mmuPtePwt else 0) |||
    if flags &&& mmuUser ≠ 0 then mmuPteUs else 0

/-- The flags of the tables it makes on the way. -/
def dircreateflagsOf (flags : ℕ) : ℕ := 0x23 ||| if flags &&& mmuUser ≠ 0 then mmuPteUs else 0

/-- `mmu_map_page`. -/
def mmuMapPage (pagetable paddr vaddr flags : ℕ) : Prog (Tables ρ) Unit := do
  if lvl4idx vaddr > 256 then Prog.panic "Mapping of kernelpages > lvl4idx of 256 is not allowed\n"
  else if lvl4idx vaddr > 0 ∧ lvl4idx vaddr < 256 then
    Prog.panic "Mapping of userpages > 512Gb is not allowed\n"
  else do
    let lvl1tbl ← pagetableWalkGetlvl1table pageAllocPagesVirt pagetable vaddr (dircreateflagsOf flags)
    Prog.modify fun s => s.setEntry lvl1tbl (lvl1idx vaddr) fun e => entrySetbase e paddr
    Prog.modify fun s => s.setEntry lvl1tbl (lvl1idx vaddr) fun e => pteSetrawflags e (pteflagsOf flags)

/-- `mmu_map_kernelpage`. -/
def mmuMapKernelpage (paddr vaddr flags : ℕ) : Prog (Tables ρ) Unit := do
  let s ← Prog.get
  mmuMapPage pageAllocPagesVirt s.kernelpagetable paddr vaddr flags

/-- The loop of `mmu_map_range`. -/
def mmuMapRangeLoop (pagetable vaddrEnd flags : ℕ) : ℕ → ℕ → ℕ → Prog (Tables ρ) Unit
  | 0, _, _ => Prog.stuck
  | fuel + 1, paddr, vaddr =>
    if vaddr < vaddrEnd then do
      mmuMapPage pageAllocPagesVirt pagetable paddr vaddr flags
      mmuMapRangeLoop pagetable vaddrEnd flags fuel ((paddr + pagesize) % wordSize) ((vaddr + pagesize) % wordSize)
    else pure ()

/-- As many rounds as there are pages: more than that, and the loop never ends. -/
def rangeFuel : ℕ := 2 ^ 52 + 1

/-- `mmu_map_range`. -/
def mmuMapRange (pagetable paddr vaddr bytes flags : ℕ) : Prog (Tables ρ) Unit :=
  mmuMapRangeLoop pageAllocPagesVirt pagetable ((vaddr + bytes) % wordSize) flags rangeFuel paddr vaddr

/-- `PFN2PHYS` of an `int`. -/
def pfnPhys (pfn : ℤ) : ℕ := toSize pfn * pagesize % wordSize

/-- `PFN2VIRT` of an `int`. -/
def pfnVirt (pfn : ℤ) : ℕ := p2v (pfnPhys pfn)

/-- The loop of `mmu_map_device_region`, `n` frames from `pfn` on. -/
def mmuMapDeviceLoop : ℕ → ℤ → Prog (Tables ρ) Unit
  | 0, _ => pure ()
  | n + 1, pfn => do
    let s ← Prog.get
    mmuMapPage pageAllocPagesVirt s.kernelpagetable (pfnPhys pfn) (pfnVirt pfn) mmuDevice
    mmuMapDeviceLoop n (pfn + 1)

/-- The number of rounds of `for (int pfn = pfnstart; pfn <= pfnend; pfn++)`. -/
def rounds (pfnstart pfnend : ℤ) : ℕ := (pfnend - pfnstart + 1).toNat

/-- `pfn++` after the last round of a loop up to `INT_MAX` has no defined value. -/
def leaveLoop (pfnend : ℤ) : Prog (Tables ρ) Unit := if pfnend = 2 ^ 31 - 1 then Prog.stuck else pure ()

/-- `mmu_map_device_region`. -/
def mmuMapDeviceRegion (adrstart adrend : ℕ) : Prog (Tables ρ) Unit := do
  let pfnstart := toInt (phys2pfn adrstart)
  let pfnend := toInt (phys2pfn adrend)
  mmuMapDeviceLoop pageAllocPagesVirt (rounds pfnstart pfnend) pfnstart
  leaveLoop pfnend

end Allocator

/-- One round of the loop of `mmu_init_user_pagetable`. -/
def mmuCopyEntry (kpgdir upgdir i : ℕ) (s : Tables ρ) : Tables ρ :=
  if s.entry kpgdir i > 0 then s.setEntry upgdir i fun _ => s.entry kpgdir i else s

/-- `mmu_init_user_pagetable`. -/
def mmuInitUserPagetable (kpgdir upgdir : ℕ) : Prog (Tables ρ) Unit :=
  Prog.modify fun s => (List.range' 256 256).foldl (fun s i => mmuCopyEntry kpgdir upgdir i s) s

end Borgos.Mmu
