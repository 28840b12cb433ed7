import Borgos.Acpi.Map
import Borgos.Boot.Multiboot2

/-! # `acpi.c`: finding the root table

Memory is seen through the kernel's addresses and is not written to; a pointer is 0 where the source has `NULL`. The
boot memory map and the page allocator are parameters. Log output is left out.
-/
namespace Borgos.Acpi
open Borgos.Foundations Borgos.Mem Borgos.Mmu FlatMemory
open Borgos.Boot (Byte Memory u32 u64)
set_option autoImplicit false

structure AcpiInfo where
  version : ℕ
  sdtadr : ℕ
  sdtptrsize : ℕ
  entrycount : ℕ
  entries : ℕ
  uefiRsdpAdr : ℕ
  uefiXsdpAdr : ℕ

/-- The page tables and `acpi_info`. -/
structure AcpiState (ρ : Type) where
  tables : Tables ρ
  acpiInfo : AcpiInfo

/-! ## The structures in memory -/

/-- `"RSD PTR "`. -/
def rsdPtr : List Byte := [0x52, 0x53, 0x44, 0x20, 0x50, 0x54, 0x52, 0x20]

/-- `rsdp->revision`. -/
def revision (mem : Memory) (r : ℕ) : ℕ := (mem (r + 15)).toNat

def rsdtAddress (mem : Memory) (r : ℕ) : ℕ := u32 mem (r + 16)

/-- `length` of an `XSDP_t`. -/
def xsdpLength (mem : Memory) (r : ℕ) : ℕ := u32 mem (r + 20)

def xsdtAddress (mem : Memory) (r : ℕ) : ℕ := u64 mem (r + 24)

def sizeofXsdp : ℕ := 36

/-- `length` of an `SDT_t`. -/
def sdtLength (mem : Memory) (t : ℕ) : ℕ := u32 mem (t + 4)

def sizeofSdt : ℕ := 36

def checksumOk (mem : Memory) (p len : ℕ) : Bool := (load mem p len).foldl (· + ·) 0 = 0#8

def rsdpValid (mem : Memory) (r : ℕ) : Bool :=
  if load mem r 8 ≠ rsdPtr then false
  else if ¬ checksumOk mem r 20 then false
  else if revision mem r ≥ 2 then
    if xsdpLength mem r < sizeofXsdp then false
    else if xsdpLength mem r > 4096 then false
    else checksumOk mem r (xsdpLength mem r)
  else true

/-- The loop over the BIOS region. -/
@[irreducible] def scanBios (mem : Memory) : Option ℕ :=
  ((List.range ((0xFFFFF - 0xE0000 + 15) / 16)).map fun i => p2v 0xE0000 + i * 16).find? fun addr => load mem addr 8 =
    rsdPtr

/-! ## The functions -/

section Functions
variable {ρ : Type} (mem : Memory)

def setInfo (f : AcpiInfo → AcpiInfo) : Prog (AcpiState ρ) Unit :=
  Prog.modify fun s => { s with acpiInfo := f s.acpiInfo }

def acpiFindRsdp : Prog (AcpiState ρ) ℕ := do
  let s ← Prog.get
  if s.acpiInfo.uefiXsdpAdr ≠ 0 then do
    setInfo fun i => { i with version := 2 }
    pure (p2v s.acpiInfo.uefiXsdpAdr)
  else if s.acpiInfo.uefiRsdpAdr ≠ 0 then do
    setInfo fun i => { i with version := 1 }
    pure (p2v s.acpiInfo.uefiRsdpAdr)
  else
    match scanBios mem with
    | some addr => do
      setInfo fun i => { i with version := 0 }
      pure addr
    | none => pure 0

/-- The branch of `acpi_tables_init` for version 2; its result is `rsdp` behind it. -/
def tryXsdp (rsdp : ℕ) : Prog (AcpiState ρ) ℕ := do
  let s ← Prog.get
  if s.acpiInfo.version = 2 then
    if ¬ rsdpValid mem rsdp then
      if s.acpiInfo.uefiRsdpAdr ≠ 0 then do
        setInfo fun i => { i with version := 1 }
        pure (p2v s.acpiInfo.uefiRsdpAdr)
      else pure rsdp
    else do
      setInfo fun i => { i with version := 2, sdtptrsize := 8, sdtadr := p2v (xsdtAddress mem rsdp) }
      pure rsdp
  else pure rsdp

/-- The branches for versions 1 and 0. -/
def useRsdp (version rsdp : ℕ) (msg : String) : Prog (AcpiState ρ) Unit := do
  let s ← Prog.get
  if s.acpiInfo.version = version then
    if ¬ rsdpValid mem rsdp then Prog.panic msg
    else setInfo fun i => { i with version := 1, sdtptrsize := 4, sdtadr := p2v (rsdtAddress mem rsdp) }
  else pure ()

def countEntries : Prog (AcpiState ρ) Unit :=
  setInfo fun i =>
    let size := if i.version ≥ 2 then 8 else 4
    { i with
      entrycount := (sdtLength mem i.sdtadr + wordSize - sizeofSdt) % wordSize / size
      entries := (i.sdtadr + sizeofSdt) % wordSize }

def acpiGetSdt (tbl entrysize idx : ℕ) : Prog (AcpiState ρ) ℕ :=
  if entrysize = 4 then pure (p2v (u32 mem (tbl + idx * 4)))
  else if entrysize = 8 then pure (p2v (u64 mem (tbl + idx * 8)))
  else Prog.panic "Unexpected entrysize"

section Mapping
variable (pageAllocPagesVirt : Prog ρ ℕ) (memmap : List MemmapEntry)

def mapAcpiMem (adrPhys : ℕ) : Prog (AcpiState ρ) Unit :=
  Prog.zoom AcpiState.tables (fun tables s => { s with tables }) (acpiMapAcpiMem pageAllocPagesVirt adrPhys memmap)

/-- `n` rounds of the loop of `acpi_memmap_acpi_entries`, from `i` on. -/
def acpiMemmapLoop : ℕ → ℕ → Prog (AcpiState ρ) Unit
  | 0, _ => pure ()
  | n + 1, i => do
    let s ← Prog.get
    let sdt ← acpiGetSdt mem s.acpiInfo.entries s.acpiInfo.sdtptrsize i
    mapAcpiMem pageAllocPagesVirt memmap (v2p sdt)
    acpiMemmapLoop n (i + 1)

/-- The counter is an `int`: its overflow has no meaning. -/
def acpiMemmapAcpiEntries : Prog (AcpiState ρ) Unit := do
  let s ← Prog.get
  if s.acpiInfo.sdtadr = 0 then Prog.panic "SDT root not set"
  else if s.acpiInfo.entrycount < 2 ^ 31 then acpiMemmapLoop mem pageAllocPagesVirt memmap s.acpiInfo.entrycount 0
  else do
    acpiMemmapLoop mem pageAllocPagesVirt memmap (2 ^ 31) 0
    Prog.stuck

/-- `acpi_tables_init` up to its last store to `acpi_info`. -/
def acpiSelectRoot : Prog (AcpiState ρ) Unit := do
  let rsdp ← acpiFindRsdp mem
  if rsdp = 0 then Prog.panic "Unable to find RSDP"
  else do
    let rsdp ← tryXsdp mem rsdp
    useRsdp mem 1 rsdp "RSDP not valid\n"
    useRsdp mem 0 rsdp "RSDP (from scan) not valid\n"
    let s ← Prog.get
    mapAcpiMem pageAllocPagesVirt memmap (v2p s.acpiInfo.sdtadr)
    countEntries mem

def acpiTablesInit : Prog (AcpiState ρ) Unit := do
  acpiSelectRoot mem pageAllocPagesVirt memmap
  acpiMemmapAcpiEntries mem pageAllocPagesVirt memmap

end Mapping
end Functions

/-- `acpi_info` when the boot loader's tags are read. -/
def startInfo (uefiXsdpAdr uefiRsdpAdr : ℕ) : AcpiInfo := ⟨0, 0, 0, 0, 0, uefiRsdpAdr, uefiXsdpAdr⟩

end Borgos.Acpi
