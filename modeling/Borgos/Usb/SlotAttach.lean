import Borgos.Usb.RootHub
import Borgos.Usb.Xhci

/-! # `xhcihcd_device_attach_internal`

The path from a connected port to an addressed device: Enable Slot, the device's structures, Address Device. The two
commands and the page allocations have given outcomes. The calls of `kmalloc` that do not panic return a block, so that
`devices[slot]` is the only trace of it.
-/
namespace Borgos.Usb
open Borgos.Foundations Borgos.Mem
set_option autoImplicit false

inductive UsbSpeed where
  | unknown
  | low
  | full
  | high
  | super
  | superPlus
deriving DecidableEq

def xhciDefaultMaxPacket : UsbSpeed → BitVec 32
  | .low => 8#32
  | .full => 8#32
  | .high => 64#32
  | .super => 512#32
  | .superPlus => 512#32
  | .unknown => 8#32

/-! ## State -/

/-- The input context of a device: the control context, the slot context and the one of endpoint 0. -/
structure InputContext where
  dropFlags : BitVec 32
  addFlags : BitVec 32
  slotDw0 : BitVec 32
  slotDw1 : BitVec 32
  slotDw2 : BitVec 32
  slotDw3 : BitVec 32
  ep0Dw0 : BitVec 32
  ep0Dw1 : BitVec 32
  ep0DeqLo : BitVec 32
  ep0DeqHi : BitVec 32
  ep0Dw4 : BitVec 32
deriving DecidableEq

def InputContext.zero : InputContext := ⟨0#32, 0#32, 0#32, 0#32, 0#32, 0#32, 0#32, 0#32, 0#32, 0#32, 0#32⟩

/-- The fields of `xhci_device_t` that attaching fills in. -/
structure SlotDevice where
  slotId : ℕ
  address : ℕ
  speed : UsbSpeed
  rootPort : ℕ
  devCtxVirt : ℕ
  inCtxVirt : ℕ
deriving DecidableEq

/-- The driver, its protocols, the device context base address array and what belongs to the device of each slot. -/
structure SlotState where
  hc : Xhci
  protocols : List XhciProtocol
  dcbapp : ℕ → ℕ
  device : ℕ → SlotDevice
  inCtx : ℕ → InputContext

namespace SlotState

def setDevice (s : SlotState) (slot : ℕ) (f : SlotDevice → SlotDevice) : SlotState :=
  { s with device := Function.update s.device slot (f (s.device slot)) }

/-- The zeroed device of a slot, not in use yet. -/
def install (s : SlotState) (slot rootPort : ℕ) (speed : UsbSpeed) : SlotState :=
  { s with
    hc :=
      { s.hc with
        devices := Function.update s.hc.devices slot (some false)
        ep0Ring := Function.update s.hc.ep0Ring slot ⟨0, fun _ => Trb.zero, 0, false⟩
        xferPending := Function.update s.hc.xferPending slot false
        xferCode := Function.update s.hc.xferCode slot 0#32
        xferResidual := Function.update s.hc.xferResidual slot 0#32
        eps := Function.update s.hc.eps slot fun _ => none }
    device := Function.update s.device slot ⟨slot % 256, 0, speed, rootPort, 0, 0⟩ }

end SlotState

/-! ## Commands -/

/-- How a command ends: with its completion event, or by the driver giving up. -/
inductive CommandOutcome where
  | completed (code slotId : BitVec 32)
  | timeout
deriving DecidableEq

/-- `xhcihcd_command_execute`: the slot id it stores, if any, and its result. -/
def executeCommand (trb : Trb) (outcome : CommandOutcome) : Prog SlotState (Option (BitVec 32) × UsbResult) := do
  Prog.zoom SlotState.hc (fun hc s => { s with hc := hc }) (xhcihcdCommandExecute trb)
  match outcome with
  | .timeout => do
    Prog.modify fun s => { s with hc := xhcihcdCommandTimeout s.hc }
    pure (none, .error)
  | .completed code slotId => do
    Prog.modify fun s => { s with hc := { s.hc with cmdCode := code, cmdSlotId := slotId, cmdPending := false } }
    let s ← Prog.get
    pure (some (xhcihcdCommandResult s.hc).1, (xhcihcdCommandResult s.hc).2)

def enableSlotTrb (slotType : ℕ) : Trb :=
  ⟨0#32, 0#32, 0#32, xhciTrbSetType 9#32 ||| ((BitVec.ofNat 32 slotType &&& 0x1F#32) <<< 16)⟩

def addressDeviceTrb (inCtxVirt : ℕ) (slotId : BitVec 32) : Trb :=
  ⟨BitVec.ofNat 32 (v2p inCtxVirt), BitVec.ofNat 32 (v2p inCtxVirt / 2 ^ 32), 0#32,
    xhciTrbSetType 11#32 ||| ((slotId &&& 0xFF#32) <<< 24)⟩

/-! ## Structures of a device -/

/-- What the three calls of `page_alloc_pages_virt` return. -/
structure AttachPages where
  devCtx : ℕ
  inCtx : ℕ
  ep0Ring : ℕ
deriving DecidableEq

/-- `xhci_device_alloc_structures`. -/
def xhciDeviceAllocStructures (slot : ℕ) (pages : AttachPages) : Prog SlotState UsbResult := do
  Prog.modify fun s => s.setDevice slot fun d => { d with devCtxVirt := pages.devCtx }
  if pages.devCtx = 0 then pure .error
  else do
    Prog.modify fun s => s.setDevice slot fun d => { d with inCtxVirt := pages.inCtx }
    if pages.inCtx = 0 then pure .error
    else do
      Prog.modify fun s => { s with inCtx := Function.update s.inCtx slot InputContext.zero }
      if pages.ep0Ring = 0 then pure .error
      else do
        Prog.modify fun s => { s with hc := { s.hc with
          ep0Ring := Function.update s.hc.ep0Ring slot (ProducerRing.init pages.ep0Ring) } }
        pure .ok

/-- The input context for the default control endpoint; `ring` is the address of its ring. -/
def addressContext (rootPort : ℕ) (speed : UsbSpeed) (ring : ℕ) : InputContext where
  dropFlags := 0#32
  addFlags := 1#32 <<< 0 ||| 1#32 <<< 1
  slotDw0 := (1#32 &&& 0x1F#32) <<< 27
  slotDw1 := (BitVec.ofNat 32 rootPort &&& 0xFF#32) <<< 16
  slotDw2 := 0#32
  slotDw3 := 0#32
  ep0Dw0 := 0#32
  ep0Dw1 := ((4#32 &&& 0x07#32) <<< 3) ||| ((3#32 &&& 0x03#32) <<< 1) |||
    ((xhciDefaultMaxPacket speed &&& 0xFFFF#32) <<< 16)
  ep0DeqLo := BitVec.ofNat 32 (v2p ring) ||| 1#32
  ep0DeqHi := BitVec.ofNat 32 (v2p ring / 2 ^ 32)
  ep0Dw4 := 8#32

namespace SlotState

/-- The input context is filled in, and the controller gets the output context. -/
def giveContexts (s : SlotState) (slot rootPort : ℕ) (speed : UsbSpeed) : SlotState :=
  { s with
    inCtx := Function.update s.inCtx slot (addressContext rootPort speed (s.hc.ep0Ring slot).ring)
    dcbapp := Function.update s.dcbapp slot (v2p (s.device slot).devCtxVirt) }

/-- The device has its address and is in use. -/
def putInUse (s : SlotState) (slot address : ℕ) : SlotState :=
  { s.setDevice slot fun d => { d with address := address } with
    hc :=
      { s.hc with
        devices := Function.update s.hc.devices slot (some true)
        addressToSlot := Function.update s.hc.addressToSlot address (s.device slot).slotId } }

end SlotState

/-! ## `xhcihcd_device_attach_internal` -/

/-- What happens around one call: the two commands, the pages, and the address in the output slot context. -/
structure AttachEnv where
  enableSlot : CommandOutcome
  pages : AttachPages
  addressDevice : CommandOutcome
  address : BitVec 8

def slotTypeFor (protocols : List XhciProtocol) (rootPort : ℕ) : ℕ :=
  match xhciProtocolForPort protocols rootPort with
  | some proto => proto.slotType
  | none => 0

/-- The part after the device has been installed in its slot. -/
def addressSlot (rootPort : ℕ) (speed : UsbSpeed) (env : AttachEnv) (slotId : BitVec 32) :
    Prog SlotState UsbResult := do
  let slot := slotId.toNat
  let res ← xhciDeviceAllocStructures slot env.pages
  if res ≠ .ok then pure res
  else do
    Prog.modify fun s => s.giveContexts slot rootPort speed
    let s ← Prog.get
    let out ← executeCommand (addressDeviceTrb (s.device slot).inCtxVirt slotId) env.addressDevice
    if out.2 ≠ .ok then pure out.2
    else do
      Prog.modify fun s => s.putInUse slot env.address.toNat
      pure .ok

def xhcihcdDeviceAttachInternal (rootPort : ℕ) (speed : UsbSpeed) (env : AttachEnv) : Prog SlotState UsbResult := do
  let s ← Prog.get
  let out ← executeCommand (enableSlotTrb (slotTypeFor s.protocols rootPort)) env.enableSlot
  let slotId := out.1.getD 0#32
  if slotId = 0#32 ∨ slotId.toNat > xhciMaxSlotsSupported then pure .error
  else if out.2 ≠ .ok then pure .error
  else do
    let s ← Prog.get
    match s.hc.devices slotId.toNat with
    | some _ => Prog.panic "xhcidev->devices[slot_id] already has a device"
    | none => do
      Prog.modify fun s => s.install slotId.toNat rootPort speed
      addressSlot rootPort speed env slotId

end Borgos.Usb
