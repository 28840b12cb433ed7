import Borgos.Foundations.Outcome

/-! # Matching PCI devices with drivers

`pci_config_driver_init` calls, for every device and every driver that lists it, the driver's `probe` and then its
`attach`. It ignores what `probe` returned. What `attach` goes by is the device's `initialized` word, and the device's
record is a heap block of which the enumeration fills in three fields only.
-/
namespace Borgos.Pci
open Borgos.Foundations
set_option autoImplicit false

/-! ## Devices -/

structure PciLocation where
  segmentgroup : ℕ
  bus : ℕ
  slot : ℕ
  function : ℕ
deriving DecidableEq

/-- The registers of the configuration space that the enumeration and the matching read. -/
structure PciConfigRegs where
  vendorId : ℕ
  deviceId : ℕ
  headerType : ℕ
deriving DecidableEq

/-- `pcidevice_t`. The configuration registers behind `ecam_config_reg_adr` stand in place of their address. -/
structure PciDevice where
  bustype : ℕ
  initialized : ℤ
  location : PciLocation
  regs : PciConfigRegs
deriving DecidableEq

def deviceBustypePcie : ℕ := 1

/-- `pci_config_enumerate_function`: `block` is what `kmalloc` returned. -/
def pciConfigEnumerateFunction (pciloc : PciLocation) (regs : PciConfigRegs) (block : PciDevice) :
    Prog (List PciDevice) Unit :=
  if regs.vendorId = 0xffff then pure ()
  else
    match regs.headerType % 128 with
    | 0 => Prog.modify fun db =>
        db ++ [{ block with bustype := deviceBustypePcie, location := pciloc, regs := regs }]
    | 1 => pure ()
    | 2 => pure ()
    | _ => Prog.panic "Unexpected PCI header type"

/-! ## Drivers -/

structure PciDeviceId where
  vendor : ℕ
  device : ℕ
deriving DecidableEq

/-- Where a driver's `attach` registers a device. -/
inductive Registry where
  | usbAttachHcd
  | netIfAttachIf
deriving DecidableEq

/-- What a probe does: it returns a code and may have set `dev->initialized` to 1, or it panics. -/
inductive ProbeOutcome where
  | returned (res : ℤ) (marks : Bool)
  | panicked (msg : String)
deriving DecidableEq

/-- A PCI driver. `probe i` is the outcome of its probe of the device at position `i` of the device list. The drivers
that register a device (xhci, uhci, rtl8139) set `initialized` in the statement before their `return 0` and nowhere
else; `attach` of the others only logs. -/
structure PciDriver where
  idents : List PciDeviceId
  registry : Option Registry
  probe : ℕ → ProbeOutcome
  marks_iff : ∀ i res marks, registry.isSome → probe i = .returned res marks → (marks = true ↔ res = 0)

/-- `_pcidriverhandlesident`. -/
def pcidriverhandlesident (vendor device : ℕ) : List PciDeviceId → ℤ
  | [] => -1
  | id :: ids =>
    if id.vendor = 0xFFFF then -1
    else if id.vendor = vendor ∧ id.device = device then 0
    else pcidriverhandlesident vendor device ids

/-! ## The double loop -/

/-- A call of `usb_attach_hcd` or `net_if_attach_if`, with the positions of the device and of the driver. -/
structure Attachment where
  device : ℕ
  driver : ℕ
  registry : Registry
deriving DecidableEq

/-- `initialized i` is the word of the device at position `i`. -/
structure PciState where
  initialized : ℕ → ℤ
  attached : List Attachment

namespace PciDriver

def runProbe (d : PciDriver) (i : ℕ) : Prog PciState Unit :=
  match d.probe i with
  | .panicked msg => Prog.panic msg
  | .returned _ marks =>
    if marks then Prog.modify fun s => { s with initialized := Function.update s.initialized i 1 }
    else pure ()

/-- `xhcihcd_pci_attach`, `uhcihcd_pci_attach` and `rtl8139_pci_attach` have one text. -/
def runAttach (d : PciDriver) (i j : ℕ) : Prog PciState Unit := do
  let s ← Prog.get
  match d.registry with
  | none => pure ()
  | some r =>
    if s.initialized i ≠ 0 then Prog.modify fun s => { s with attached := s.attached ++ [⟨i, j, r⟩] }
    else pure ()

end PciDriver

def driverLoop (i : ℕ) (dev : PciDevice) : ℕ → List PciDriver → Prog PciState Unit
  | _, [] => pure ()
  | j, d :: ds =>
    if pcidriverhandlesident dev.regs.vendorId dev.regs.deviceId d.idents = 0 then do
      d.runProbe i
      d.runAttach i j
      driverLoop i dev (j + 1) ds
    else driverLoop i dev (j + 1) ds

def deviceLoop (drivers : List PciDriver) : ℕ → List PciDevice → Prog PciState Unit
  | _, [] => pure ()
  | i, dev :: devs => do
    driverLoop i dev 0 drivers
    deviceLoop drivers (i + 1) devs

/-- Nothing is attached, and each record has the word that its block had. -/
def PciState.start (devices : List PciDevice) : PciState where
  initialized i := (devices[i]?.map PciDevice.initialized).getD 0
  attached := []

/-- `pci_config_driver_init`. -/
def pciConfigDriverInit (devices : List PciDevice) (drivers : List PciDriver) : Outcome PciState Unit :=
  deviceLoop drivers 0 devices (PciState.start devices)

end Borgos.Pci
