import Borgos.Foundations.MaskedRegister
import Borgos.Foundations.Outcome
import Borgos.Mmu.Pagetable

/-! # `pci_config.cpp`, `pci.c`: base address registers

The configuration space of one device: a register is named by its offset, and of each only some bits can be written. The
device has the address of its registers. Log output is left out.
-/
namespace Borgos.Pci
open Borgos.Foundations Borgos.Mmu
open Borgos.Mem (p2v wordSize)
set_option autoImplicit false

inductive BarType where
  | unknown
  | io
  | mem
deriving DecidableEq

inductive BarWidth where
  | unknown
  | w32
  | w64
deriving DecidableEq

/-- `pcibar_t`. -/
structure PciBar where
  addr : BitVec 64
  size : BitVec 64
  bartype : BarType
  barwidth : BarWidth
  prefetchable : Bool
deriving DecidableEq

structure BarState where
  reg : ℕ → BitVec 32
  writable : ℕ → BitVec 32
  bar : ℕ → PciBar

def maxBars : ℕ := 6

/-! ## The registers -/

def pciConfigRead32 (offsett : ℕ) : Prog BarState (BitVec 32) := do
  let s ← Prog.get
  pure (s.reg offsett)

def pciConfigWrite32 (offsett : ℕ) (data : BitVec 32) : Prog BarState Unit :=
  Prog.modify fun s =>
    { s with reg := Function.update s.reg offsett (masked (s.writable offsett) (s.reg offsett) data) }

/-! ## `pci_config_parse_bars` -/

def baroffsett (baridx : ℕ) : ℕ := 0x10 + baridx * 4

/-- The branch for a memory BAR of 32 bits: `base` and `size`. -/
def parseMem32 (offsett : ℕ) (bardata : BitVec 32) : Prog BarState (BitVec 64 × BitVec 32) := do
  let base := (bardata &&& ~~~0xF).setWidth 64
  pciConfigWrite32 offsett 0xFFFFFFFF
  let readbacklow ← pciConfigRead32 offsett
  let size := readbacklow &&& ~~~0xF
  let size := ~~~size + 1
  pciConfigWrite32 offsett bardata
  pure (base, size)

/-- The branch for 64 bits. The size is kept in 32 bits here too. -/
def parseMem64 (offsett : ℕ) (bardata : BitVec 32) : Prog BarState (BitVec 64 × BitVec 32) := do
  let addressHi ← pciConfigRead32 (offsett + 4)
  let base := ((addressHi.setWidth 64 <<< 32) + bardata.setWidth 64) &&& ~~~0xF
  pciConfigWrite32 offsett 0xFFFFFFF0
  pciConfigWrite32 (offsett + 4) 0xFFFFFFFF
  let readbackLow ← pciConfigRead32 offsett
  let readbackHi ← pciConfigRead32 (offsett + 4)
  let readbackLow := readbackLow &&& ~~~0xF
  let readback := (readbackHi.setWidth 64 <<< 32) + readbackLow.setWidth 64
  let size := (~~~readback + 1).setWidth 32
  pciConfigWrite32 offsett bardata
  pciConfigWrite32 (offsett + 4) addressHi
  pure (base, size)

/-- One round of the loop but for the stores to `pcidev->bar`. -/
def parseBar (baridx : ℕ) : Prog BarState PciBar := do
  let offsett := baroffsett baridx
  let bardata ← pciConfigRead32 offsett
  if bardata &&& 0x01 ≠ 0 then pure ⟨(bardata &&& ~~~0b11).setWidth 64, 0, .io, .unknown, false⟩
  else if bardata = 0 then pure ⟨0, 0, .unknown, .unknown, false⟩
  else
    let mtype := (bardata &&& 0x06) >>> 1
    let prefetchable := decide (bardata &&& 0b1000 ≠ 0)
    if mtype = 0 then do
      let (base, size) ← parseMem32 offsett bardata
      pure ⟨base, size.setWidth 64, .mem, .w32, prefetchable⟩
    else if mtype = 2 then do
      let (base, size) ← parseMem64 offsett bardata
      pure ⟨base, size.setWidth 64, .mem, .w64, prefetchable⟩
    -- Type 1 has an unknown width, and type 3 is not looked at.
    else pure ⟨0, 0, .mem, .unknown, prefetchable⟩

/-- The loop from `baridx` on, with its rounds left. -/
def parseBarsFrom : ℕ → ℕ → Prog BarState Unit
  | 0, _ => pure ()
  | rounds + 1, baridx => do
    let bar ← parseBar baridx
    Prog.modify fun s => { s with bar := Function.update s.bar baridx bar }
    parseBarsFrom rounds (baridx + 1)

def pciConfigParseBars (maxbars : ℕ) : Prog BarState Unit := parseBarsFrom maxbars 0

/-! ## `pci_iomap` -/

/-- The end of the region is computed in 64 bits. -/
def pciIomap {ρ : Type} (pageAllocPagesVirt : Prog ρ ℕ) (pcibar : PciBar) : Prog (Tables ρ) ℕ := do
  mmuMapDeviceRegion pageAllocPagesVirt pcibar.addr.toNat (pcibar.addr + pcibar.size - 1).toNat
  pure (p2v pcibar.addr.toNat)

/-! ## Standard registers -/

/-- A memory BAR of `2 ^ k` bytes with addresses of `w` bits. -/
structure MemBar (w : ℕ) where
  k : ℕ
  addr : BitVec w
  prefetchable : Bool
  four_le : 4 ≤ k
  lt : k < w
  aligned : 2 ^ k ∣ addr.toNat

/-- What a device implements: nothing, an I/O BAR with any writable bits but for the lowest two, or memory. -/
inductive Bar where
  | unused
  | io (value writable : BitVec 32) (hio : value &&& 0b11 = 1)
  | mem32 (m : MemBar 32)
  | mem64 (m : MemBar 64)

/-- A register: what it holds, and which bits can be written. -/
structure BarRegister where
  value : BitVec 32
  writable : BitVec 32

def MemBar.flags {w : ℕ} (m : MemBar w) : BitVec 32 := if m.prefetchable then 0b1000 else 0

def Bar.registers : Bar → List BarRegister
  | .unused => [⟨0, 0⟩]
  | .io value writable _ => [⟨value, writable &&& ~~~0b11⟩]
  | .mem32 m => [⟨m.addr ||| m.flags, highBits 32 m.k⟩]
  | .mem64 m =>
    [⟨m.addr.setWidth 32 ||| 0b100 ||| m.flags, (highBits 64 m.k).setWidth 32⟩,
      ⟨(m.addr >>> 32).setWidth 32, (highBits 64 m.k >>> 32).setWidth 32⟩]

/-- The BARs with the indices of their (first) registers. -/
def barsFrom : ℕ → List Bar → List (ℕ × Bar)
  | _, [] => []
  | i, b :: bars => (i, b) :: barsFrom (i + b.registers.length) bars

/-- A configuration space of type 0 whose six BAR registers are standard. -/
structure Type0Space where
  state : BarState
  bars : List Bar
  count : (bars.flatMap Bar.registers).length = maxBars
  holds : ∀ i r, (bars.flatMap Bar.registers)[i]? = some r →
    state.reg (baroffsett i) = r.value ∧ state.writable (baroffsett i) = r.writable

end Borgos.Pci
