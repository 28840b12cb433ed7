import Borgos.Apic.Ioapic
import Borgos.Boot.Multiboot2
import Borgos.Foundations.Monotone

/-! # `halinit.c`: the processors and I/O APICs of the MADT

Pointers into the table are offsets from its start, and the table does not reach to the end of the address space. Every
read of the table is remembered. The loop over the entries takes a bound on its rounds and is stuck when it is used up.
Log output is left out.
-/
namespace Borgos.Acpi
open Borgos.Foundations Borgos.Mem Borgos.Apic
open Borgos.Boot (Byte Memory u32)
set_option autoImplicit false

def maxCpu : ℕ := 64

/-- `sizeof(MADT_t)`. -/
def sizeofMadt : ℕ := 44

def madtTypeCpulapic : ℕ := 0

def madtTypeIoapic : ℕ := 1

def madtTypeIoapicintoverride : ℕ := 2

def cpuStatusHalted : ℕ := 0

/-- What the function and `cpu_init_cpustate` set of a `cpu_t`. -/
structure Cpu where
  cpuid : ℕ
  status : ℕ
  ticksIn1ms : ℕ
  xapicLogicalid : Byte

/-- A read of `len` bytes at an offset of the table. -/
structure TableRead where
  offset : ℕ
  len : ℕ
deriving DecidableEq

structure MadtState (H : Type) where
  cpu : ℕ → Cpu
  cpuNumcores : ℕ
  apicIdCpumap : Byte → Option ℕ
  cpulapicadr : ℕ
  apic : ApicState H
  reads : List TableRead

/-! ## The fields of an entry -/

section Fields
variable (t : Memory) (p : ℕ)

def entryType : ℕ := (t p).toNat

def entrySize : ℕ := (t (p + 1)).toNat

/-- `apicid` of a local APIC. -/
def lapicApicid : Byte := t (p + 3)

/-- `irqsource` of an override. -/
def overrideSource : Byte := t (p + 3)

def tableLength : ℕ := u32 t 4

end Fields

/-! ## The functions -/

section Functions
variable {H : Type} (t : Memory)

def readAt (offset len : ℕ) : Prog (MadtState H) Unit :=
  Prog.modify fun s => { s with reads := s.reads ++ [⟨offset, len⟩] }

def cpuInitCpustate (cpun : ℕ) : Prog (MadtState H) Unit :=
  Prog.modify fun s =>
    { s with
      cpu := Function.update s.cpu cpun { s.cpu cpun with cpuid := cpun, status := cpuStatusHalted, ticksIn1ms := 0 } }

def onApic (x : Prog (ApicState H) Unit) : Prog (MadtState H) Unit :=
  Prog.zoom MadtState.apic (fun apic s => { s with apic }) x

/-- An entry of type 0; `cpu` is the slot of the executing processor. The result is `numcores` behind it. -/
def parseCpulapic (cpu p numcores : ℕ) : Prog (MadtState H) ℕ := do
  readAt (p + 3) 1
  let s ← Prog.get
  let apicid := lapicApicid t p
  if apicid = (s.cpu cpu).xapicLogicalid then pure numcores
  else if apicid.toNat < 255 then
    if numcores ≥ maxCpu then Prog.panic "THIS computer has more cores than MAXCPU!\n"
    else do
      cpuInitCpustate numcores
      Prog.modify fun s =>
        { s with
          cpu := Function.update s.cpu (cpu + numcores) { s.cpu (cpu + numcores) with xapicLogicalid := apicid }
          apicIdCpumap := Function.update s.apicIdCpumap apicid (some (cpu + numcores))
          cpuNumcores := s.cpuNumcores + 1 }
      pure (numcores + 1)
  else pure numcores

section Kmalloc
variable (kmalloc : H → Option H)

def parseIoapic (p : ℕ) : Prog (MadtState H) Unit := do
  readAt (p + 2) 1
  readAt (p + 4) 4
  readAt (p + 8) 4
  onApic (apicIoapicAdd kmalloc (t (p + 2)) (BitVec.ofNat 64 (p2v (u32 t (p + 4)))) (BitVec.ofNat 32 (u32 t (p + 8))))

def parseOverride (p : ℕ) : Prog (MadtState H) Unit := do
  readAt (p + 2) 1
  readAt (p + 3) 1
  readAt (p + 8) 2
  readAt (p + 4) 4
  onApic (apicIoapicIrqoverrideAdd kmalloc (t (p + 2)) (overrideSource t p) (t (p + 9) ++ t (p + 8))
    (BitVec.ofNat 32 (u32 t (p + 4))))

/-- One round of the loop but for the step to the next entry. -/
def parseEntry (cpu p numcores : ℕ) : Prog (MadtState H) ℕ := do
  readAt p 1
  if entryType t p = madtTypeCpulapic then parseCpulapic t cpu p numcores
  else if entryType t p = madtTypeIoapic then do
    parseIoapic t kmalloc p
    pure numcores
  else if entryType t p = madtTypeIoapicintoverride then do
    parseOverride t kmalloc p
    pure numcores
  else pure numcores

def madtLoop (cpu entriesEnd : ℕ) : ℕ → ℕ → ℕ → Prog (MadtState H) Unit
  | 0, _, _ => Prog.stuck
  | fuel + 1, p, numcores =>
    if p < entriesEnd then do
      let numcores ← parseEntry t kmalloc cpu p numcores
      readAt (p + 1) 1
      madtLoop cpu entriesEnd fuel (p + entrySize t p) numcores
    else pure ()

/-- `entriesstart + entriessize`: the size is computed in 64 bits, and so is the sum. -/
def entriesEnd : ℕ := (sizeofMadt + (tableLength t + wordSize - sizeofMadt) % wordSize) % wordSize

/-- `hal_parse_APIC_from_madt` on the processor with the local APIC id `apicid`. -/
def halParseApicFromMadt (apicid : Byte) (fuel : ℕ) : Prog (MadtState H) Unit := do
  readAt 36 4
  readAt 40 4
  Prog.modify fun s => { s with cpulapicadr := p2v (u32 t 36) }
  let s ← Prog.get
  match s.apicIdCpumap apicid with
  | none => Prog.stuck
  | some cpu => do
    readAt 4 4
    madtLoop t kmalloc cpu (entriesEnd t) fuel sizeofMadt 1

end Kmalloc
end Functions

/-- The state of the boot processor before: it has slot 0, and nothing else is registered. -/
def bootState {H : Type} (apicid : Byte) (regs : Registers) (heap : H) : MadtState H where
  cpu := fun n => ⟨n, cpuStatusHalted, 0, if n = 0 then apicid else 0⟩
  cpuNumcores := 1
  apicIdCpumap := fun a => if a = apicid then some 0 else none
  cpulapicadr := 0
  apic := ⟨fun _ => none, 0, fun _ => none, regs, [], heap⟩
  reads := []

end Borgos.Acpi
