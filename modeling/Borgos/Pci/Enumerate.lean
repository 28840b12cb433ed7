import Borgos.Mem.Layout
import Borgos.Pci.Config

/-! # `pci_config.cpp`, `hwdb.cpp`, `vector.cpp`: the enumeration of the devices

The configuration registers are what memory holds at an address. A request that `kmalloc` does not serve is a panic. The
device database is a `Vector<void*>`: its array is allocated with `new`, so by `kmalloc`, and doubled when it is full.
Log output is left out.
-/
namespace Borgos.Pci.Ecam
open Borgos.Foundations
open Borgos.Mem (p2v wordSize maxKmalloc)
set_option autoImplicit false

structure PciConfigRegion where
  baseAddress : BitVec 64
  pciSegmentGroup : BitVec 16
  busNumberStart : BitVec 8
  busNumberEnd : BitVec 8

/-- What the enumeration sets of a `pcidevice_t`. -/
structure EcamDevice where
  bustype : ℕ
  location : PciLocation
  ecamConfigRegAdr : ℕ
deriving DecidableEq

structure Allocator (H : Type) where
  kmalloc : ℕ → H → Option H
  kfree : H → H
  large : ∀ n heap, maxKmalloc < n → n + 16 < 2 ^ 32 → kmalloc n heap = none

/-- `Vector<void*>` of devices: `m_arr` as far as `m_size`, and `m_capacity`. -/
structure DeviceVector where
  arr : List EcamDevice
  capacity : ℕ

structure EnumState (H : Type) where
  devicevector : DeviceVector
  heap : H

def sizeofPcidevice : ℕ := 240

def sizeofEntry : ℕ := 8

def sizeofPointer : ℕ := 8

section Functions
variable {H : Type} (A : Allocator H)

def callKmalloc (size : ℕ) : Prog (EnumState H) Unit := do
  let s ← Prog.get
  match A.kmalloc size s.heap with
  | some heap => Prog.modify fun s => { s with heap }
  | none => Prog.panic "kmalloc"

/-! ## The database -/

/-- `Vector::resize`. The elements are copied. -/
def vectorResize : Prog (EnumState H) Unit := do
  Prog.modify fun s => { s with devicevector := { s.devicevector with capacity := s.devicevector.capacity * 2 } }
  let s ← Prog.get
  callKmalloc A (sizeofPointer * s.devicevector.capacity)
  Prog.modify fun s => { s with heap := A.kfree s.heap }

/-- `Vector::push_back`. -/
def vectorPushBack (device : EcamDevice) : Prog (EnumState H) Unit := do
  let s ← Prog.get
  if s.devicevector.arr.length = s.devicevector.capacity then vectorResize A
  Prog.modify fun s => { s with devicevector := { s.devicevector with arr := s.devicevector.arr ++ [device] } }

def hwdbDevicedbAdd (device : EcamDevice) : Prog (EnumState H) Unit := do
  callKmalloc A sizeofEntry
  vectorPushBack A device

/-! ## The enumeration -/

/-- `_pci_location_to_ecam_offset`. -/
def pciLocationToEcamOffset (pciloc : PciLocation) : ℕ :=
  pciloc.bus * 2 ^ 20 + pciloc.slot * 2 ^ 15 + pciloc.function * 2 ^ 12

/-- `_pci_config_regs_from_ecamaddr`. -/
def pciConfigRegsFromEcamaddr (regionBaseAddress : BitVec 64) (pciloc : PciLocation) : ℕ :=
  p2v ((regionBaseAddress.toNat + pciLocationToEcamOffset pciloc) % wordSize)

variable (regs : ℕ → PciConfigRegs)

def pciConfigEnumerateFunction (pciConfigRegion : PciConfigRegion) (pciSegmentGroup : BitVec 16)
    (bus slot function : BitVec 8) : Prog (EnumState H) Unit :=
  let pciloc : PciLocation := ⟨pciSegmentGroup.toNat, bus.toNat, slot.toNat, function.toNat⟩
  let adr := pciConfigRegsFromEcamaddr pciConfigRegion.baseAddress pciloc
  if (regs adr).vendorId = 0xffff then pure ()
  else
    match (regs adr).headerType % 128 with
    | 0 => do
      callKmalloc A sizeofPcidevice
      hwdbDevicedbAdd A ⟨deviceBustypePcie, pciloc, adr⟩
    | 1 => pure ()
    | 2 => pure ()
    | _ => Prog.panic "Unexpected PCI header type"

def pciConfigEnumerateSlot (pciConfigRegion : PciConfigRegion) (pciSegmentGroup : BitVec 16) (bus slot : BitVec 8) :
    Prog (EnumState H) Unit := do
  let adr := pciConfigRegsFromEcamaddr pciConfigRegion.baseAddress ⟨pciSegmentGroup.toNat, bus.toNat, slot.toNat, 0⟩
  if (regs adr).vendorId = 0xffff then pure ()
  else do
    pciConfigEnumerateFunction A regs pciConfigRegion pciSegmentGroup bus slot 0
    if (regs adr).headerType / 128 % 2 ≠ 0 then
      (List.range' 1 7).forM fun func =>
        pciConfigEnumerateFunction A regs pciConfigRegion pciSegmentGroup bus slot (BitVec.ofNat 8 func)

/-- The values of `busidx`, which is an `int`. -/
def PciConfigRegion.busidxs (r : PciConfigRegion) : List ℕ :=
  List.range' r.busNumberStart.toNat (r.busNumberEnd.toNat + 1 - r.busNumberStart.toNat)

def pciConfigEnumerateRegions (vecRegions : List PciConfigRegion) : Prog (EnumState H) Unit :=
  vecRegions.forM fun pciConfigRegion =>
    pciConfigRegion.busidxs.forM fun busidx =>
      (List.range 32).forM fun slotidx =>
        pciConfigEnumerateSlot A regs pciConfigRegion pciConfigRegion.pciSegmentGroup (BitVec.ofNat 8 busidx)
          (BitVec.ofNat 8 slotidx)

end Functions
end Borgos.Pci.Ecam
