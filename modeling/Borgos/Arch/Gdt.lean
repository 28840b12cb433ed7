import Borgos.Acpi.Madt
import Borgos.Foundations.BitField
import Borgos.Foundations.LittleEndian
import Borgos.Kcore.Proc
import Borgos.Libc.Mem
import Borgos.Mem.Page

/-! # `gdt.c`, `gdt.h`: the descriptor tables

A byte of the memory is a number. What the functions log, and the loading of the tables into the processor, are left
out.
-/
namespace Borgos.Arch
open Borgos.Foundations FlatMemory Borgos.Mem
set_option autoImplicit false

/-- `GDTSIZE` -/
def gdtsize : ℕ := 16

/-- `sizeof(gdt_entry_64_t)` -/
def entrySize : ℕ := 8

/-- `sizepercpu` -/
def sizepercpu : ℕ := gdtsize * entrySize

/-- The loop of `gdt_setup_gdt` after `i` rounds: two `uint64_t` for each entry. -/
def clearEntries (mem : ℕ → ℕ) (gdt : ℕ) : ℕ → ℕ → ℕ
  | 0 => mem
  | i + 1 =>
    let entry64raw := gdt + i * entrySize
    let mem := storeNat (clearEntries mem gdt i) entry64raw 8 0
    let entry64raw := entry64raw + 8
    storeNat mem entry64raw 8 0

/-! ## `gdt_entry_64_t` -/

namespace GdtEntry64

def lim15_0 : BitField := ⟨0, 16⟩
def base15_0 : BitField := ⟨16, 16⟩
def base23_16 : BitField := ⟨32, 8⟩
def type : BitField := ⟨40, 4⟩
def s : BitField := ⟨44, 1⟩
def dpl : BitField := ⟨45, 2⟩
def p : BitField := ⟨47, 1⟩
def lim19_16 : BitField := ⟨48, 4⟩
def avl : BitField := ⟨52, 1⟩
def l : BitField := ⟨53, 1⟩
def db : BitField := ⟨54, 1⟩
def g : BitField := ⟨55, 1⟩
def base31_24 : BitField := ⟨56, 8⟩

end GdtEntry64

def loadEntry (mem : ℕ → ℕ) (entry : ℕ) : BitVec 64 := BitVec.ofNat 64 (loadNat mem entry entrySize)

def storeEntry (mem : ℕ → ℕ) (entry : ℕ) (e : BitVec 64) : ℕ → ℕ := storeNat mem entry entrySize e.toNat

/-- Assignments to the fields of an entry. -/
def assign (mem : ℕ → ℕ) (entry : ℕ) (l : List (BitField × ℕ)) : ℕ → ℕ :=
  l.foldl (fun mem a => storeEntry mem entry (a.1.set (loadEntry mem entry) a.2)) mem

/-- What all four descriptors have in common. -/
def descriptor (type dpl l db : ℕ) : List (BitField × ℕ) :=
  [(GdtEntry64.lim15_0, 0xFFFF), (GdtEntry64.base15_0, 0x0000), (GdtEntry64.base23_16, 0x00), (GdtEntry64.type, type),
    (GdtEntry64.s, 1), (GdtEntry64.dpl, dpl), (GdtEntry64.p, 1), (GdtEntry64.lim19_16, 0xF), (GdtEntry64.avl, 0),
    (GdtEntry64.l, l), (GdtEntry64.db, db), (GdtEntry64.g, 1), (GdtEntry64.base31_24, 0x00)]

def kcode64 : List (BitField × ℕ) := descriptor ((1 <<< 1) ||| (1 <<< 3) ||| (1 <<< 0)) 0 1 0

def kdata64 : List (BitField × ℕ) := descriptor ((1 <<< 1) ||| (1 <<< 0)) 0 0 1

def udata64 : List (BitField × ℕ) := descriptor ((1 <<< 1) ||| (1 <<< 0)) 3 0 1

def ucode64 : List (BitField × ℕ) := descriptor ((1 <<< 1) ||| (1 <<< 3) ||| (1 <<< 0)) 3 1 0

def gdtSetupGdt (mem : ℕ → ℕ) (gdt : ℕ) : ℕ → ℕ :=
  let mem := clearEntries mem gdt gdtsize
  let mem := assign mem (gdt + 1 * entrySize) kcode64
  let mem := assign mem (gdt + 2 * entrySize) kdata64
  let mem := assign mem (gdt + 3 * entrySize) udata64
  assign mem (gdt + 4 * entrySize) ucode64

/-! ## The tables of the processors -/

structure GdtrPtr where
  size : ℕ
  base : ℕ

/-- What `gdt_init_per_cpu` sets of an `arch_cpu_info`. -/
structure ArchCpuInfo where
  perCpuGdt : ℕ
  gdtptr : GdtrPtr

structure GdtState where
  phys : Phys
  mem : ℕ → ℕ
  perCpuGdtpage : ℕ
  cpu : ℕ → ArchCpuInfo

/-- `gdt_init`: the memory and `gdtr`. -/
def gdtInit (mem : ℕ → ℕ) (bootgdt : ℕ) : (ℕ → ℕ) × GdtrPtr :=
  (gdtSetupGdt mem bootgdt, ⟨gdtsize * entrySize - 1, bootgdt⟩)

/-- The body of the loop of `gdt_init_per_cpu`. -/
def buildGdt (s : GdtState) (i : ℕ) : GdtState :=
  let gdtp := s.perCpuGdtpage + sizepercpu * i
  { s with
    mem := gdtSetupGdt s.mem gdtp
    cpu := Function.update s.cpu i ⟨gdtp, ⟨gdtsize * entrySize - 1, gdtp⟩⟩ }

/-- The loop after `i` rounds. -/
def buildGdts (s : GdtState) : ℕ → GdtState
  | 0 => s
  | i + 1 => buildGdt (buildGdts s i) i

/-- `page_alloc_pages_virt` with the bytes of the block, which it clears. -/
def pageAllocPagesVirt (flags order : ℕ) : Prog GdtState ℕ := do
  let newmem ← Prog.zoom GdtState.phys (fun phys s => { s with phys }) (Mem.pageAllocPagesVirt flags order)
  Prog.modify fun s => { s with mem := Libc.memset s.mem newmem 0 (pagesize <<< order) }
  pure newmem

/-- `ZONENORMAL` -/
def zonenormal : ℕ := 0

def gdtInitPerCpu (cpuNumcores : ℕ) : Prog GdtState Unit := do
  if gdtsize * 16 * 16 ≠ pagesize then Prog.panic "Current allocation is based on 16cpu gdt's per PAGE"
  else do
    let porder := Kcore.sizeToPageorder (cpuNumcores * sizepercpu)
    let page ← pageAllocPagesVirt zonenormal porder
    Prog.modify fun s => buildGdts { s with perCpuGdtpage := page } cpuNumcores

end Borgos.Arch
