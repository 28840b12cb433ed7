import Borgos.Arch.Context
import Borgos.Foundations.WordBytes
import Borgos.Kcore.Scheduler
import Borgos.Libc.Mem
import Borgos.Mmu.Blocks

/-! # `proc.c`, `arch_proc.c`: user processes

`proc_create_userproc` and `archproc_prepare_startinit`, on the memory the page tables are in. `page_alloc_pages` and
`kmalloc` are parameters over one state; what `kmalloc` stores in its own pages belongs to that state. A `proc_t` is a
record at its address, without `plist`. The kernel reaches all memory through the direct map, which keeps order and
distance, so byte loops and stack pointers go by physical address. The lock and log output are left out.
-/
namespace Borgos.Kcore
open Borgos.Foundations Borgos.Foundations.WordBytes Borgos.Mem Borgos.Mmu
set_option autoImplicit false

/-! ## Records -/

structure ArchCpuContext where
  sp : ℕ
  cr3 : ℕ
  rsp0 : ℕ
  rsp0Stackpage : ℕ
deriving DecidableEq, Repr

/-- `proc_t`. The name is what stands before the first 0. -/
structure ProcT extends Proc where
  pid : ℕ
  name : List Char
  pgdir : ℕ
  upgdir : ℕ
  kstackaddr : ℕ
  kstacksize : ℕ
  archcpuContext : ArchCpuContext
  ustackaddr : ℕ
  ustackaddrvirt : ℕ
  ustacksize : ℕ
deriving DecidableEq, Repr

/-- All bytes 0. -/
def ProcT.zero : ProcT := ⟨⟨.UNUSED, 0, 0, false⟩, 0, [], 0, 0, 0, 0, ⟨0, 0, 0, 0⟩, 0, 0, 0⟩

structure Kernel (ρ : Type) where
  tables : Tables ρ
  ptable : ℕ → ℕ
  proc : ℕ → ProcT

def maxproc : ℕ := 16

/-- `strlcpy`: what `dst` holds afterwards. -/
def strlcpy (src : List Char) (size : ℕ) : List Char := (src.takeWhile fun c => c ≠ '\x00').take (size - 1)

/-- The loop of `size_to_pageorder`. A 64-bit number is 0 after 64 shifts. -/
def pageorderLoop : ℕ → ℕ → ℕ → ℕ
  | 0, order, _ => order
  | n + 1, order, size => if size ≠ 0 then pageorderLoop n (order + 1) (size / 2) else order

/-- `size_to_pageorder`. -/
def sizeToPageorder (size : ℕ) : ℕ := pageorderLoop 64 0 ((size + wordSize - 1) % wordSize / pagesize)

/-! ## Memory -/

/-- `*d++ = *s++`, `n` times. -/
def copyUp (mem : ℕ → ℕ → ℕ) (d s : ℕ) : ℕ → ℕ → ℕ → ℕ
  | 0 => mem
  | n + 1 => copyUp (putByte pagesize mem d (byteAt pagesize mem s)) (d + 1) (s + 1) n

/-- `*--d = *--s`, `n` times. -/
def copyDown (mem : ℕ → ℕ → ℕ) (d s : ℕ) : ℕ → ℕ → ℕ → ℕ
  | 0 => mem
  | n + 1 => copyDown (putByte pagesize mem (d - 1) (byteAt pagesize mem (s - 1))) (d - 1) (s - 1) n

/-- `memcpy`. -/
def memcpy (mem : ℕ → ℕ → ℕ) (dst src n : ℕ) : ℕ → ℕ → ℕ :=
  if src < dst ∧ src + n > dst then copyDown mem (dst + n) (src + n) n else copyUp mem dst src n

/-- `*(--sp) = w` for each word. -/
def pushWords (mem : ℕ → ℕ → ℕ) (sp : ℕ) : List ℕ → ℕ → ℕ → ℕ
  | [] => mem
  | w :: ws => pushWords (setCell mem ((sp - 8) / pagesize) ((sp - 8) % pagesize / 8) w) (sp - 8) ws

/-- `memset` of a block of pages to 0. -/
def clearFrames (mem : ℕ → ℕ → ℕ) (b : Block) : ℕ → ℕ → ℕ := fun f => if f ∈ b.frames then fun _ => 0 else mem f

variable {ρ : Type}

def onTables {α : Type} (x : Prog (Tables ρ) α) : Prog (Kernel ρ) α :=
  Prog.zoom Kernel.tables (fun tables s => { s with tables }) x

def modifyMem (f : (ℕ → ℕ → ℕ) → ℕ → ℕ → ℕ) : Prog (Kernel ρ) Unit :=
  onTables (Prog.modify fun s => { s with mem := f s.mem })

def modifyProc (p : ℕ) (f : ProcT → ProcT) : Prog (Kernel ρ) Unit :=
  Prog.modify fun s => { s with proc := Function.update s.proc p (f (s.proc p)) }

/-! ## `pagetable_debugwalk` -/

/-- `pagetable_dbgwalk_getsubtable`. -/
def pagetableDbgwalkGetsubtable (table idx : ℕ) : Prog (Tables ρ) ℕ := do
  if idx > 512 then Prog.panic "Index > 512 not allowed for pagetable\n"
  else do
    let s ← Prog.get
    if entryP (s.entry table idx) = 0 then Prog.panic "Entry not present\n"
    else pure (subtblentryGetbase (s.entry table idx))

/-- `mmu_debug_walkadr`. -/
def mmuDebugWalkadr (pagetable vaddr : ℕ) : Prog (Tables ρ) Unit := do
  let lvl3table ← pagetableDbgwalkGetsubtable pagetable (lvl4idx vaddr)
  let lvl2table ← pagetableDbgwalkGetsubtable lvl3table (lvl3idx vaddr)
  let _ ← pagetableDbgwalkGetsubtable lvl2table (lvl2idx vaddr)
  pure ()

/-! ## `proc.c` -/

section Allocators
variable (alloc : ℕ → Prog ρ ℕ) (kmalloc : Prog ρ ℕ)

/-- `page_alloc_pages(0, order)`, as the number of the first frame. -/
def pageAllocPages (order : ℕ) : Prog (Kernel ρ) ℕ := do
  let pfn ← onTables (allocTable (alloc order))
  modifyMem fun mem => clearFrames mem ⟨pfn, order⟩
  pure pfn

/-- `proc_alloc`. -/
def procAlloc : Prog (Kernel ρ) ℕ := do
  let p ← onTables (allocTable kmalloc)
  if p = 0 then Prog.panic "No more mem for a new proc"
  else do
    modifyProc p fun _ => { ProcT.zero with state := .EMBRYO, pid := 0, ncli := 0, pgdir := 0 }
    pure p

/-- The first entry of `ptable` that is 0, from 1 on. -/
def freePid (ptable : ℕ → ℕ) : Option ℕ := (List.range' 1 (maxproc - 1)).find? fun i => ptable i = 0

/-- `proc_newpid`. -/
def procNewpid (p : ℕ) : Prog (Kernel ρ) ℕ := do
  let s ← Prog.get
  match freePid s.ptable with
  | some pid => do
    Prog.modify fun s => { s with ptable := Function.update s.ptable pid p }
    modifyProc p fun q => { q with pid }
    pure pid
  | none => Prog.panic "No avaliable pid\n"

/-- `PAGESIZE << (9+9+9)`. -/
def ustacktop : ℕ := pagesize * 2 ^ 27

/-- `proc_create_userproc`. -/
def procCreateUserproc (name : List Char) : Prog (Kernel ρ) ℕ := do
  let p ← procAlloc kmalloc
  let _ ← procNewpid p
  let stackpage ← pageAllocPages alloc 2
  let stackaddr := pfn2virt stackpage
  let stacksize := pagesize * 2 ^ 2
  let s ← Prog.get
  modifyProc p fun q => { q with
    name := strlcpy name 32, kstackaddr := stackaddr, kstacksize := stacksize, pgdir := s.tables.kernelpagetable
    sliceTicks := 0x0FFFFFFFFFFFFFFF, state := .EMBRYO }
  let pgdirpage ← pageAllocPages alloc 0
  modifyProc p fun q => { q with upgdir := pfn2virt pgdirpage }
  let s ← Prog.get
  onTables (Prog.modify fun t => t.clearPage (s.proc p).upgdir)
  onTables (mmuInitUserPagetable (s.proc p).pgdir (s.proc p).upgdir)
  let ustackpage ← pageAllocPages alloc 2
  let ustacksize := pagesize * 2 ^ 2
  modifyProc p fun q => { q with
    ustackaddrvirt := pfn2virt ustackpage, ustackaddr := ustacktop - ustacksize, ustacksize := ustacksize }
  let s ← Prog.get
  let paddr := v2p (pfn2virt ustackpage)
  let vaddr := (s.proc p).ustackaddr
  onTables (mmuMapRange (allocPageVirt alloc) (s.proc p).upgdir paddr vaddr (s.proc p).ustacksize mmuUser)
  pure p

/-! ## `arch_proc.c` -/

/-- The fields the frames are built from. -/
def ProcT.stacks (q : ProcT) : Arch.ProcStacks where
  kstackaddr := BitVec.ofNat 64 q.kstackaddr
  kstacksize := BitVec.ofNat 64 q.kstacksize
  pgdir := BitVec.ofNat 64 q.pgdir
  upgdir := BitVec.ofNat 64 q.upgdir
  ustackaddr := BitVec.ofNat 64 q.ustackaddr
  ustackaddrvirt := BitVec.ofNat 64 q.ustackaddrvirt
  ustacksize := BitVec.ofNat 64 q.ustacksize

/-- The frames `archproc_prepare_startinit` pushes, from the top. -/
def startinitStack (x : Arch.Trampolines) (q : ProcT) : List ℕ := (Arch.startinitFrame x q.stacks).map BitVec.toNat

/-- The linker's symbols: the image is `startinit_end - startinit_start` bytes long and stands at `startinit_lma`. -/
structure Startinit where
  lma : ℕ
  len : ℕ

/-- `archproc_prepare_startinit`. -/
def archprocPrepareStartinit (x : Arch.Trampolines) (startinit : Startinit) (p : ℕ) : Prog (Kernel ρ) Unit := do
  let rsp0stackpage ← pageAllocPages alloc 2
  let rsp0stackaddr := pfn2virt rsp0stackpage
  let rsp0stacksize := pagesize * 2 ^ 2
  modifyProc p fun q => { q with archcpuContext := { q.archcpuContext with
    rsp0Stackpage := rsp0stackaddr, rsp0 := (rsp0stackaddr + rsp0stacksize) % wordSize } }
  let ubin ← pageAllocPages alloc (sizeToPageorder startinit.len)
  let ubinptr := pfn2virt ubin
  let s ← Prog.get
  let q := s.proc p
  onTables (mmuMapRange (allocPageVirt alloc) q.upgdir (v2p ubinptr) 0x400000 startinit.len mmuUser)
  onTables (mmuDebugWalkadr q.upgdir 0x400000)
  modifyMem fun mem => memcpy mem (v2p ubinptr) (v2p (p2v startinit.lma)) startinit.len
  let sp := q.ustackaddrvirt + q.ustacksize - 64
  let frame := startinitStack x q
  modifyMem fun mem => pushWords mem (v2p sp) frame
  modifyProc p fun q => { q with
    ncli := 1, intenable := true
    archcpuContext := { q.archcpuContext with sp := sp - 8 * frame.length, cr3 := v2p q.upgdir } }

end Allocators

end Borgos.Kcore
