import Borgos.Foundations.Outcome
import Borgos.Libc.Mem
import Borgos.Mem.Layout

/-! # `multiboot2.c`: relocating the boot information

`multiboot2_set_bootmem` chooses where the boot memory starts, moves the multiboot2 information block there and the
modules behind it. Memory is a flat array of bytes; the kernel's own variables are kept apart from it. The loops
over the tags and over the memory map take a bound on their iterations and are stuck when it is used up.
-/
namespace Borgos.Boot
open Borgos.Foundations Borgos.Mem FlatMemory
set_option autoImplicit false

abbrev Byte := BitVec 8

abbrev Memory := ℕ → Byte

/-! ## Constants -/

def multibootTagTypeModule : ℕ := 3

def multibootTagTypeMmap : ℕ := 6

def multibootMemoryAvailable : ℕ := 1

def bootmemStartmb : ℕ := 16

/-- `mod_table` has 16 entries. -/
def modTableSize : ℕ := 16

/-! ## Reading memory -/

/-- A number from its bytes, the low one first. -/
def ofBytes (bs : List Byte) : ℕ := bs.foldr (fun b n => b.toNat + 256 * n) 0

def u32 (mem : Memory) (a : ℕ) : ℕ := ofBytes (load mem a 4)

def u64 (mem : Memory) (a : ℕ) : ℕ := ofBytes (load mem a 8)

def tagType (mem : Memory) (tag : ℕ) : ℕ := u32 mem tag

def tagSize (mem : Memory) (tag : ℕ) : ℕ := u32 mem (tag + 4)

/-- `tag + ((tag->size + 7) & ~7)`. -/
def tagNext (mem : Memory) (tag : ℕ) : ℕ := tag + (tagSize mem tag + 7) % 2 ^ 32 / 8 * 8

def modStart (mem : Memory) (tag : ℕ) : ℕ := u32 mem (tag + 8)

def modEnd (mem : Memory) (tag : ℕ) : ℕ := u32 mem (tag + 12)

/-! ## State -/

structure BootmemInfo where
  addr : ℕ
  heaptop : ℕ
  maxsize : ℕ

/-- `module_entry_t`. -/
structure ModuleEntry where
  modStart : ℕ
  modEnd : ℕ
  modName : List Byte

/-- Memory, `mbi_addr`, `bootmem` and the first `modules_count` entries of `mod_table`. -/
structure BootInfo where
  mem : Memory
  mbiAddr : ℕ
  bootmem : BootmemInfo
  modTable : List ModuleEntry

inductive BootResult where
  | ok
  | error
deriving DecidableEq

/-! ## The functions -/

/-- `multiboot2_gettag` from `tag` on. -/
def gettagFrom (tagtype : ℕ) : ℕ → ℕ → Prog BootInfo (Option ℕ)
  | 0, _ => Prog.stuck
  | fuel + 1, tag => fun s =>
    if tagType s.mem tag = 0 then .ok none s
    else if tagType s.mem tag = tagtype then .ok (some tag) s
    else gettagFrom tagtype fuel (tagNext s.mem tag) s

def multiboot2Gettag (fuel tagtype : ℕ) : Prog BootInfo (Option ℕ) := fun s => gettagFrom tagtype fuel (s.mbiAddr + 8) s

/-- The loop of `multiboot2_check_moduleoverlap` from `tag` on. -/
def checkModuleoverlapFrom (newMbi : ℕ) : ℕ → ℕ → Prog BootInfo Unit
  | 0, _ => Prog.stuck
  | fuel + 1, tag => fun s =>
    if tagType s.mem tag = 0 then .ok () s
    else if tagType s.mem tag = multibootTagTypeModule ∧ (modStart s.mem tag > newMbi ∨ modEnd s.mem tag > newMbi) then
      .panic "Multiboot2 overlap" s
    else checkModuleoverlapFrom newMbi fuel (tagNext s.mem tag) s

def multiboot2CheckModuleoverlap (fuel newMbi : ℕ) : Prog BootInfo Unit := fun s =>
  checkModuleoverlapFrom newMbi fuel (s.mbiAddr + 8) s

def multiboot2Relocate (newMbi : ℕ) : Prog BootInfo Unit :=
  Prog.modify fun s =>
    { s with
      mem := Libc.memcpy s.mem newMbi s.mbiAddr (u32 s.mem s.mbiAddr)
      mbiAddr := newMbi }

/-- `module_add`. A store beyond `mod_table` has no meaning. -/
def moduleAdd (start stop name : ℕ) : Prog BootInfo Unit := fun s =>
  if s.modTable.length < modTableSize then
    .ok () { s with modTable := s.modTable ++ [⟨start, stop, (load s.mem name 31).takeWhile (· ≠ 0)⟩] }
  else .stuck

/-- One module tag: the copy behind `heaptop`, its registration and the new `heaptop`. -/
def relocateModule (tag : ℕ) : Prog BootInfo Unit := do
  let s ← Prog.get
  let newmodstart := s.bootmem.heaptop
  let modlen := (modEnd s.mem tag + wordSize - modStart s.mem tag) % wordSize
  Prog.modify fun s => { s with mem := Libc.memcpy s.mem newmodstart (modStart s.mem tag) modlen }
  moduleAdd (p2v newmodstart) (p2v ((newmodstart + modlen) % wordSize)) (tag + 16)
  Prog.modify fun s => { s with bootmem := { s.bootmem with heaptop := (s.bootmem.heaptop + modlen) % wordSize } }

/-- The loop of `multiboot2_relocate_modules` from `tag` on. -/
def relocateModulesFrom : ℕ → ℕ → Prog BootInfo Unit
  | 0, _ => Prog.stuck
  | fuel + 1, tag => do
    let s ← Prog.get
    if tagType s.mem tag = 0 then pure ()
    else if tagType s.mem tag = multibootTagTypeModule then
      relocateModule tag
      let s ← Prog.get
      relocateModulesFrom fuel (tagNext s.mem tag)
    else relocateModulesFrom fuel (tagNext s.mem tag)

def multiboot2RelocateModules (fuel : ℕ) : Prog BootInfo Unit := fun s => relocateModulesFrom fuel (s.mbiAddr + 8) s

section Mmap
variable (mem : Memory) (mmap i : ℕ)

def entryAddr : ℕ := u64 mem (mmap + 16 + 24 * i)

def entryLen : ℕ := u64 mem (mmap + 16 + 24 * i + 8)

def entryType : ℕ := u32 mem (mmap + 16 + 24 * i + 16)

/-- The loop reaches entry `i`. -/
def entryReached : Prop := i * u32 mem (mmap + 8) % 2 ^ 32 < tagSize mem mmap

instance : Decidable (entryReached mem mmap i) := inferInstanceAs (Decidable (_ < _))

/-- Available memory of more than 1 MB. -/
def entryUsable : Prop := entryType mem mmap i = multibootMemoryAvailable ∧ entryLen mem mmap i > 1024 * 1024

instance : Decidable (entryUsable mem mmap i) := inferInstanceAs (Decidable (_ ∧ _))

end Mmap

/-- The last byte of an entry. -/
def entryEnd (start len : ℕ) : ℕ := (start + len + (wordSize - 1)) % wordSize

/-- There are at least 8 MB above `BOOTMEM_STARTMB`. -/
def startsAtStartmb (start len : ℕ) : Prop :=
  entryEnd start len > bootmemStartmb * 1024 * 1024 + 8 * 1024 * 1024

instance (start len : ℕ) : Decidable (startsAtStartmb start len) := inferInstanceAs (Decidable (_ > _))

/-- `bootmemstart`, aligned. -/
def bootmemStart (start len bootimageEnd : ℕ) : ℕ :=
  pagealignUp
    (if startsAtStartmb start len then bootmemStartmb * 1024 * 1024
    else if bootimageEnd ≥ start ∧ bootimageEnd < entryEnd start len then pagealignUp bootimageEnd
    else start)

/-- `mbisstart+mbisize`, where both are `uint32_t`. -/
def blockEnd (mbisstart mbisize : ℕ) : ℕ := (mbisstart % 2 ^ 32 + mbisize) % 2 ^ 32

/-- The body of the loop once an entry has been found. -/
def setBootmemAt (fuel start len bootimageEnd : ℕ) : Prog BootInfo BootResult :=
  let bootmemstart := bootmemStart start len bootimageEnd
  if startsAtStartmb start len ∧ bootimageEnd ≥ bootmemStartmb * 1024 * 1024 then
    Prog.panic "BootImage INSIDE bootmemstart set by BOOTMEM_STARTMB"
  else do
    Prog.modify fun s =>
      { s with bootmem := ⟨bootmemstart, bootmemstart, (start + len + wordSize - bootmemstart) % wordSize⟩ }
    multiboot2CheckModuleoverlap fuel bootmemstart
    multiboot2Relocate bootmemstart
    Prog.modify fun s => { s with bootmem := { s.bootmem with heaptop := blockEnd s.mbiAddr (u32 s.mem s.mbiAddr) } }
    multiboot2RelocateModules fuel
    pure .ok

/-- The loop over the memory map from entry `i` on. -/
def setBootmemFrom (fuel mmap bootimageEnd : ℕ) : ℕ → ℕ → Prog BootInfo BootResult
  | 0, _ => Prog.stuck
  | n + 1, i => fun s =>
    if entryReached s.mem mmap i then
      if entryUsable s.mem mmap i then
        setBootmemAt fuel (entryAddr s.mem mmap i) (entryLen s.mem mmap i) bootimageEnd s
      else setBootmemFrom fuel mmap bootimageEnd n (i + 1) s
    else .ok .error s

def multiboot2SetBootmem (fuel bootimageEnd : ℕ) : Prog BootInfo BootResult := do
  let mmaptag ← multiboot2Gettag fuel multibootTagTypeMmap
  match mmaptag with
  | some mmap => setBootmemFrom fuel mmap bootimageEnd fuel 0
  | none => pure .error

end Borgos.Boot
