import Borgos.Mem.BootSpec

/-! # The indices into `pageframemap` and `memoryzone`

The trace of a function lists the elements of the two arrays it names, in order, from the state it is called in. Where a
loop or a call decides what comes next, the trace follows the program itself.
-/
namespace Borgos.Mem
open Borgos.Foundations Borgos.Kcore
set_option autoImplicit false

/-- `ZONECOUNT`. -/
def zonecount : ℕ := 5

/-- `zone_t memoryzone[4]`. -/
def memoryzoneLength : ℕ := 4

def Zone.index : Zone → ℕ
  | .NORMAL => 0
  | .DMA16 => 1
  | .DMA32 => 2
  | .HIGH => 3
  | .UNKNOWN => 4

inductive Access where
  | frame (i : ℕ)
  | zone (z : ℕ)
deriving DecidableEq

/-- The element exists. -/
def Access.InRange (pfnMax : ℕ) : Access → Prop
  | .frame i => i ≤ pfnMax
  | .zone z => z < memoryzoneLength

/-! ## `page.c` -/

def addToBuddyFreeListTrace : ℕ → ℕ → ℕ → Phys → List Access
  | 0, _, _, _ => []
  | fuel + 1, idx, order, s =>
    match (s.pageframemap idx).zone with
    | none => []
    | some zone =>
      let rest := idx % 2 ^ (order + 1)
      let buddyidx := if rest = 0 then idx + 2 ^ order else idx - rest
      if order ≥ allocbuddyMaxorder then []
      else if (s.pageframemap buddyidx).usecount > 0 then [.frame buddyidx]
      else
        let s := s.listDelPage idx
        match listForEachFind s.links (.freelist zone order) (fun n => n = Node.page buddyidx) (s.pfnMax + 2) with
        | some (some _) =>
          let s := s.listDelPage buddyidx
          let (whole, half) := if rest = 0 then (idx, buddyidx) else (buddyidx, idx)
          .frame buddyidx :: addToBuddyFreeListTrace fuel whole (order + 1)
            ((s.setOrder whole ((s.pageframemap whole).order + 1)).setOrder half (-1))
        | _ => [.frame buddyidx]

def findFreePageInBuddyTrace (zone : Zone) : ℕ → ℕ → Phys → List Access
  | 0, _, _ => []
  | fuel + 1, order, s =>
    if order > allocbuddyMaxorder then []
    else if listEmpty s.links (.freelist zone order) then
      findFreePageInBuddyTrace zone fuel (order + 1) s ++
        match findFreePageInBuddy zone fuel (order + 1) s with
        | .ok higherOrderIdx _ =>
          if higherOrderIdx > 0 then [.frame higherOrderIdx.toNat, .frame (higherOrderIdx.toNat + 2 ^ order)] else []
        | _ => []
    else []

def allocPagesByorderTrace (flags order : ℕ) (s : Phys) : List Access :=
  .zone (zoneOfFlags flags).index :: findFreePageInBuddyTrace (zoneOfFlags flags) (allocbuddyMaxorder + 2) order s ++
    match findFreePageInBuddy (zoneOfFlags flags) (allocbuddyMaxorder + 2) order s with
    | .ok idx _ => if idx = -1 then [] else [.frame idx.toNat]
    | _ => []

def pageFreePagePfnTrace (pfn : ℕ) (s : Phys) : List Access :=
  let usecount := ((s.pageframemap pfn).usecount + 2 ^ 32 - 1) % 2 ^ 32
  .frame pfn ::
    if usecount = 0 then
      addToBuddyFreeListTrace (allocbuddyMaxorder + 2) pfn (s.pageframemap pfn).order.toNat (s.setUsecount pfn usecount)
    else []

/-! ## `phys.c` -/

/-- `for(int zi=0;zi<ZONECOUNT;zi++)`. -/
def zonesTrace : List Access := (List.range zonecount).map .zone

/-- The descriptors the scan of `_testordertofree` looks at. -/
def testordertofreeScanTrace (s : Phys) (pfn maxPgdPfn : ℕ) : ℕ → ℕ → List Access
  | 0, _ => []
  | fuel + 1, p =>
    if p ≤ s.pfnMax ∧ p < maxPgdPfn then
      .frame p ::
        if (s.pageframemap pfn).zone ≠ (s.pageframemap p).zone ∨
            (s.pageframemap pfn).memsegment ≠ (s.pageframemap p).memsegment ∨ (s.pageframemap p).usecount > 0 then []
        else testordertofreeScanTrace s pfn maxPgdPfn fuel (p + 1)
    else []

def testordertofreeTrace (s : Phys) (pfn maxPgdPfn : ℕ) : List Access :=
  .frame pfn :: testordertofreeScanTrace s pfn maxPgdPfn (2 ^ allocbuddyMaxorder) pfn

/-- The frames a marking loop over an entry writes to. -/
def markTrace (s : Phys) (writes : ℕ → Bool) (e : MemmapEntry) : List Access :=
  ((List.range ((e.endAddr - e.addr + pagesize - 1) / pagesize)).map fun i =>
    framePfn (e.addr + pagesize * i)).filterMap
    fun pfn => if pfn ≤ s.pfnMax ∧ writes pfn then some (.frame pfn) else none

def Reserve.kept (r : Reserve) (pfn : ℕ) : Bool :=
  (r.pfnKernelMin ≤ pfn ∧ pfn ≤ r.pfnKernelMax) ∨ (r.pfnBootmemMin ≤ pfn ∧ pfn ≤ r.pfnBootmemMax)

def markFreeTrace (s : Phys) (r : Reserve) (e : MemmapEntry) : List Access :=
  if e.type = .FREE ∧ phys2pfn e.addr < maxpgdPfn then markTrace s (fun pfn => !r.kept pfn) e else []

def markReservedTrace (s : Phys) (r : Reserve) (e : MemmapEntry) : List Access :=
  match e.type with
  | .FREE => markTrace s r.kept e
  | .RESERVED => markTrace s (fun _ => true) e
  | _ => []

def physPagemapInitTrace (b : BootInfo) (r : Reserve) (s : Phys) : List Access :=
  ((List.range (s.pfnMax + 1)).flatMap fun p => [.frame p, .zone (physZoneForPfn s p).index]) ++
    (List.range' r.pfnKernelMin (r.pfnKernelMax + 1 - r.pfnKernelMin)).map .frame ++
    b.memmap.flatMap (markFreeTrace s r) ++ b.memmap.flatMap (markReservedTrace s r)

def physFreepagesLowTrace : ℕ → ℕ → Phys → List Access
  | 0, _, _ => []
  | fuel + 1, p, s =>
    if p ≤ s.pfnMax ∧ p ≤ maxbootpgdPfn then
      if (s.pageframemap p).order < 1 ∧ (s.pageframemap p).usecount < 1 then
        let freeorder := testordertofree s p maxbootpgdPfn
        let s' := (s.setOrder p freeorder).setUsecount p 1
        .frame p :: testordertofreeTrace s p maxbootpgdPfn ++ pageFreePagePfnTrace p s' ++
          match pageFreePagePfn p s' with
          | .ok _ s'' => physFreepagesLowTrace fuel (p + (2 ^ freeorder - 1) + 1) s''
          | _ => []
      else .frame p :: physFreepagesLowTrace fuel (p + 1) s
    else []

/-- `phys_init` from its start. -/
def physInitTrace (b : BootInfo) (s : Phys) : List Access :=
  zonesTrace ++
    match b.memmap.foldl chooseEntry (none, none) with
    | (some largestnormal, some top) =>
      let s := setLimits largestnormal top (physInitMemoryzones s)
      physPagemapInitTrace b (reserveOf b s (s.pfnMax + 1)) s ++
        match physPagemapInit b (s.pfnMax + 1) s with
        | .ok _ s => physFreepagesLowTrace (s.pfnMax + 1) 0 s
        | _ => []
    | _ => []

/-! ## Runs -/

inductive PageOp where
  | alloc (flags order : ℕ)
  | free (pfn : ℕ)

def PageOp.trace : PageOp → Phys → List Access
  | .alloc flags order, s => allocPagesByorderTrace flags order s
  | .free pfn, s => pageFreePagePfnTrace pfn s

/-- The state after the operation; `none` if it does not return. -/
def PageOp.run : PageOp → Phys → Option Phys
  | .alloc flags order, s =>
    match pageAllocPages flags order s with
    | .ok _ s' => some s'
    | _ => none
  | .free pfn, s =>
    match pageFreePagePfn pfn s with
    | .ok _ s' => some s'
    | _ => none

def runTrace : List PageOp → Phys → List Access
  | [], _ => []
  | op :: ops, s =>
    op.trace s ++
      match op.run s with
      | some s' => runTrace ops s'
      | none => []

/-- From power-on through any sequence of allocations and frees. -/
def systemTrace (b : BootInfo) (s₀ : Phys) (ops : List PageOp) : List Access :=
  physInitTrace b s₀ ++
    match physInit b s₀ with
    | .ok _ s => runTrace ops s
    | _ => []

/-- Every index is inside its array. -/
def IndexingInRange (b : BootInfo) (s₀ : Phys) (ops : List PageOp) : Prop :=
  ∀ largestnormal top, b.memmap.foldl chooseEntry (none, none) = (some largestnormal, some top) →
    ∀ a ∈ systemTrace b s₀ ops, a.InRange (setLimits largestnormal top s₀).pfnMax

theorem mem_zonesTrace {a : Access} : a ∈ zonesTrace ↔ ∃ z < zonecount, a = .zone z := by
  simp [zonesTrace, eq_comm]

theorem zone_four_mem (b : BootInfo) (s₀ : Phys) (ops : List PageOp) : Access.zone 4 ∈ systemTrace b s₀ ops := by
  apply List.mem_append_left
  apply List.mem_append_left
  exact mem_zonesTrace.mpr ⟨4, by decide, rfl⟩

/-- The loop over `ZONECOUNT` zones initialises one zone beyond the end of `memoryzone`, on every machine on which
NORMAL memory is found. -/
theorem indexing_out_of_range (b : BootInfo) (s₀ : Phys) (ops : List PageOp) {largestnormal top : MemmapEntry}
    (h : b.memmap.foldl chooseEntry (none, none) = (some largestnormal, some top)) : ¬IndexingInRange b s₀ ops := by
  intro hrange
  exact absurd (hrange _ _ h _ (zone_four_mem b s₀ ops)) (Nat.lt_irrefl memoryzoneLength)

theorem indexing_out_of_range_alloc : ¬IndexingInRange twoBanks powerOn [.alloc 0 0] :=
  indexing_out_of_range twoBanks powerOn _ twoBanks_chosen

/-- On the two banks, before any allocation. -/
theorem twoBanks_zone_four : Access.zone 4 ∈ systemTrace twoBanks powerOn [] ∧
    ¬IndexingInRange twoBanks powerOn [] := by
  have hlast := zone_four_mem twoBanks powerOn []
  exact ⟨hlast, fun h => absurd (h _ _ twoBanks_chosen _ hlast) (Nat.lt_irrefl memoryzoneLength)⟩

end Borgos.Mem
