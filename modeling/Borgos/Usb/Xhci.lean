import Borgos.Foundations.Forest
import Borgos.Foundations.Outcome
import Borgos.Usb.EventRing
import Borgos.Usb.ProducerRing

/-! # `xhci_hcd.c`: commands, control transfers and endpoint requests

The functions that wait for an interrupt are cut where they wait: a first part up to the wait loop, and the parts that
follow when the loop saw the completion or gave up. The contexts that the controller is told of and log output are left
out. Devices are indexed by slot, endpoints by slot and DCI, requests by a number; a `NULL` device or endpoint is
`none`.
-/
namespace Borgos.Usb
open Borgos.Foundations Borgos.Mem
set_option autoImplicit false

inductive UsbResult where
  | ok
  | error
deriving DecidableEq, Repr

inductive HcdState where
  | undefined
  | init
  | setup
  | started
  | dead
deriving DecidableEq, Repr

/-- What the driver reads of `struct USB20_endpoint_descriptor`. -/
structure EndpointDescriptor where
  bEndpointAddress : BitVec 8
  bmAttributes : BitVec 8
deriving DecidableEq, Repr

/-- `usb_xfer_request_t`, with the address of its device. -/
structure XferRequest where
  address : ℕ
  endpointDesc : Option EndpointDescriptor
  xferbuf : ℕ
  xferlen : BitVec 16
  hasCallback : Bool
  status : UsbResult
  actualXferlen : ℕ

/-- `xhci_endpoint_t`; the ring is at address 0 until it has been allocated. -/
structure Endpoint where
  ring : ProducerRing
  configured : Bool
  halted : Bool
  req : Option ℕ

/-- A zeroed endpoint. -/
def Endpoint.zeroed : Endpoint := ⟨⟨0, fun _ => Trb.zero, 0, false⟩, false, false, none⟩

/-- `xhci_hcd_device_t` and the devices it points to. `devices slot` is `in_use`. `doorbells` are the writes to the
doorbell registers, slot and target. -/
structure Xhci where
  hcdstate : HcdState
  cmdRing : ProducerRing
  cmdPending : Bool
  cmdTrbPhys : ℕ
  cmdCode : BitVec 32
  cmdSlotId : BitVec 32
  devices : ℕ → Option Bool
  addressToSlot : ℕ → ℕ
  ep0Ring : ℕ → ProducerRing
  xferPending : ℕ → Bool
  xferCode : ℕ → BitVec 32
  xferResidual : ℕ → BitVec 32
  eps : ℕ → ℕ → Option Endpoint
  requests : ℕ → XferRequest
  doorbells : List (ℕ × ℕ)

def xhciMaxSlotsSupported : ℕ := 32

def xhciMaxDci : ℕ := 31

def xhciDbCmdTarget : ℕ := 0

def xhciDbEp0Target : ℕ := 1

def xhciCcInvalid : BitVec 32 := 0#32

def xhciCcSuccess : BitVec 32 := 1#32

def xhciCcShortPacket : BitVec 32 := 13#32

namespace Xhci

def setEp (s : Xhci) (slot dci : ℕ) (ep : Endpoint) : Xhci :=
  { s with eps := setCell s.eps slot dci (some ep) }

def setRequest (s : Xhci) (r : ℕ) (q : XferRequest) : Xhci :=
  { s with requests := Function.update s.requests r q }

end Xhci

/-- `xhcihcd_doorbell`. -/
def xhcihcdDoorbell (slot target : ℕ) (s : Xhci) : Xhci := { s with doorbells := s.doorbells ++ [(slot, target)] }

/-- The address of the TRB a ring will write next. -/
def ProducerRing.enqueueAddress (r : ProducerRing) : ℕ := (v2p r.ring + r.enqueueSlot * xhciTrbSize) % wordSize

/-! ## Commands -/

/-- `xhcihcd_command_execute` up to the wait loop. -/
def xhcihcdCommandExecute (trb : Trb) : Prog Xhci Unit := do
  let s ← Prog.get
  if s.hcdstate = .dead then Prog.panic "HCD IS DEAD\n"
  else
    Prog.modify fun s => xhcihcdDoorbell 0 xhciDbCmdTarget
      { s with
        cmdCode := xhciCcInvalid
        cmdTrbPhys := s.cmdRing.enqueueAddress
        cmdSlotId := 0#32
        cmdPending := true
        cmdRing := xhcihcdRingEnqueue s.cmdRing trb }

/-- The result when the wait loop ended with `cmd_pending` clear: the slot id and the code of the event. -/
def xhcihcdCommandResult (s : Xhci) : BitVec 32 × UsbResult :=
  (s.cmdSlotId, if s.cmdCode = xhciCcSuccess then .ok else .error)

/-- The wait loop gave up. -/
def xhcihcdCommandTimeout (s : Xhci) : Xhci := { s with cmdPending := false }

/-! ## Control transfers -/

/-- The eight bytes of `usb_setup_packet_t` as two words; `bmRequestType` is the first byte. -/
structure SetupPacket where
  lo : BitVec 32
  hi : BitVec 32

def SetupPacket.dirIn (setup : SetupPacket) : Bool := setup.lo.getLsbD 7

def xhciTrtNoData : BitVec 32 := 0#32

def xhciTrtOutData : BitVec 32 := 2#32

def xhciTrtInData : BitVec 32 := 3#32

/-- `XHCI_TRB_SET_TRT`. -/
def xhciTrbSetTrt (t : BitVec 32) : BitVec 32 := (t &&& 3#32) <<< 16

def xhciTrbIoc : BitVec 32 := 1#32 <<< 5

def xhciTrbIsp : BitVec 32 := 1#32 <<< 2

def xhciTrbIdt : BitVec 32 := 1#32 <<< 6

def xhciTrbDirIn : BitVec 32 := 1#32 <<< 16

/-- The transfer type of a control transfer. -/
def controlTrt (setup : SetupPacket) (buffer : ℕ) (length : BitVec 16) : BitVec 32 :=
  if length ≠ 0#16 ∧ buffer ≠ 0 then if setup.dirIn then xhciTrtInData else xhciTrtOutData else xhciTrtNoData

def setupStage (setup : SetupPacket) (trt : BitVec 32) : Trb :=
  ⟨setup.lo, setup.hi, 8#32, xhciTrbSetType 2#32 ||| xhciTrbSetTrt trt ||| xhciTrbIdt⟩

def dataStage (buffer : ℕ) (length : BitVec 16) (trt : BitVec 32) : Trb :=
  ⟨BitVec.ofNat 32 (v2p buffer), BitVec.ofNat 32 (v2p buffer / 2 ^ 32), length.setWidth 32,
    if trt = xhciTrtInData then xhciTrbSetType 3#32 ||| xhciTrbDirIn else xhciTrbSetType 3#32⟩

def statusStage (trt : BitVec 32) : Trb :=
  ⟨0#32, 0#32, 0#32,
    if trt = xhciTrtInData then xhciTrbSetType 4#32 ||| xhciTrbIoc
    else xhciTrbSetType 4#32 ||| xhciTrbIoc ||| xhciTrbDirIn⟩

/-- The ring of endpoint 0 with the stages before the last one. -/
def enqueueStages (r : ProducerRing) (setup : SetupPacket) (buffer : ℕ) (length : BitVec 16) : ProducerRing :=
  let trt := controlTrt setup buffer length
  let r := xhcihcdRingEnqueue r (setupStage setup trt)
  if trt ≠ xhciTrtNoData then xhcihcdRingEnqueue r (dataStage buffer length trt) else r

/-- `xhcihcd_control_transfer_hw` up to the wait loop. -/
def xhcihcdControlTransferHw (slot : ℕ) (setup : SetupPacket) (buffer : ℕ) (length : BitVec 16) (s : Xhci) : Xhci :=
  let r := enqueueStages (s.ep0Ring slot) setup buffer length
  xhcihcdDoorbell slot xhciDbEp0Target { s with
    xferCode := Function.update s.xferCode slot xhciCcInvalid
    xferResidual := Function.update s.xferResidual slot 0#32
    xferPending := Function.update s.xferPending slot true
    ep0Ring := Function.update s.ep0Ring slot (xhcihcdRingEnqueue r (statusStage (controlTrt setup buffer length))) }

/-- The actual length and the result when the wait loop ended with `xfer_pending` clear. -/
def xhcihcdControlResult (s : Xhci) (slot : ℕ) (length : BitVec 16) : ℕ × UsbResult :=
  (if (s.xferResidual slot).toNat ≤ length.toNat then length.toNat - (s.xferResidual slot).toNat else 0,
    if s.xferCode slot = xhciCcSuccess ∨ s.xferCode slot = xhciCcShortPacket then .ok else .error)

/-- The wait loop gave up, or the controller is dead. -/
def xhcihcdControlTimeout (s : Xhci) (slot : ℕ) : Xhci :=
  { s with xferPending := Function.update s.xferPending slot false }

/-! ## Events -/

/-- `xhcihcd_handle_command_completion`. -/
def xhcihcdHandleCommandCompletion (trb : Trb) : Prog Xhci Unit := do
  let s ← Prog.get
  if s.cmdPending = false ∨ trb.parameter ≠ s.cmdTrbPhys then pure ()
  else
    Prog.modify fun s =>
      { s with
        cmdCode := xhciEvtCompCode trb.status
        cmdSlotId := xhciTrbGetSlot trb.control
        cmdPending := false }

/-- The request of an endpoint is complete: the fields of the request, the endpoint without it. -/
def completeRequest (code residual : BitVec 32) (slot dci r : ℕ) (ep : Endpoint) (s : Xhci) : Xhci :=
  let q := s.requests r
  let good := code = xhciCcSuccess ∨ code = xhciCcShortPacket
  (s.setRequest r
    { q with
      actualXferlen := if residual.toNat ≤ q.xferlen.toNat then q.xferlen.toNat - residual.toNat else 0
      status := if good then .ok else .error }).setEp slot dci
    { ep with
      halted := if good then ep.halted else true
      req := none }

/-- `xhcihcd_handle_transfer_event` up to the callback; the result is the request whose callback is due. -/
def xhcihcdTransferComplete (trb : Trb) : Prog Xhci (Option ℕ) := do
  let s ← Prog.get
  let slot := (xhciTrbGetSlot trb.control).toNat
  let dci := (xhciEvtEpId trb.control).toNat
  let code := xhciEvtCompCode trb.status
  let residual := xhciEvtXferLen trb.status
  if slot = 0 ∨ slot > xhciMaxSlotsSupported then pure none
  else match s.devices slot with
    | none => Prog.panic "DeviceForSlot is NULL"
    | some false => pure none
    | some true =>
      if dci = xhciDbEp0Target then
        if s.xferPending slot = false then pure none
        else do
          Prog.modify fun s =>
            { s with
              xferCode := Function.update s.xferCode slot code
              xferResidual := Function.update s.xferResidual slot residual
              xferPending := Function.update s.xferPending slot false }
          pure none
      else if dci < 2 ∨ dci > xhciMaxDci then pure none
      else match s.eps slot dci with
        | none => Prog.panic "xhcihcd_handle_transfer_event WITH ep==NULL"
        | some ep => match ep.req with
          | none => pure none
          | some r => do
            Prog.modify (completeRequest code residual slot dci r ep)
            pure (if (s.requests r).hasCallback then some r else none)

/-- `xhcihcd_handle_transfer_event`. -/
def xhcihcdHandleTransferEvent (xferCbFunc : ℕ → Prog Xhci Unit) (trb : Trb) : Prog Xhci Unit := do
  match ← xhcihcdTransferComplete trb with
  | none => pure ()
  | some r => xferCbFunc r

/-- The handlers of the event ring. -/
def xhciHandlers (xferCbFunc : ℕ → Prog Xhci Unit) : EventHandlers Xhci :=
  ⟨xhcihcdHandleTransferEvent xferCbFunc, xhcihcdHandleCommandCompletion⟩

/-! ## Endpoint requests -/

/-- `xhci_ep_dci`. -/
def xhciEpDci (bEndpointAddress : BitVec 8) : ℕ :=
  (bEndpointAddress &&& 0x0F#8).toNat * 2 + if bEndpointAddress &&& 0x80#8 ≠ 0#8 then 1 else 0

/-- The checks of `xhcihcd_submit_endp_xfer_request` before it looks at the endpoint. -/
def xhcihcdSubmitTarget (r : ℕ) : Prog Xhci (Option (ℕ × ℕ × EndpointDescriptor)) := do
  let s ← Prog.get
  match (s.requests r).endpointDesc with
  | none => pure none
  | some desc =>
    if s.hcdstate ≠ .started then pure none
    else
      let slot := s.addressToSlot (s.requests r).address
      if slot = 0 ∨ slot > xhciMaxSlotsSupported then pure none
      else match s.devices slot with
        | none => Prog.panic "DeviceForSlot is NULL"
        | some false => pure none
        | some true =>
          let dci := xhciEpDci desc.bEndpointAddress
          if dci < 2 ∨ dci > xhciMaxDci then pure none else pure (some (slot, dci, desc))

/-- The endpoint, allocated when it is used for the first time. -/
def xhcihcdEnsureEndpoint (slot dci : ℕ) : Prog Xhci Endpoint := do
  let s ← Prog.get
  match s.eps slot dci with
  | some ep => pure ep
  | none => do
    Prog.modify fun s => s.setEp slot dci Endpoint.zeroed
    pure Endpoint.zeroed

/-- The Normal TRB of a request. -/
def normalTrb (q : XferRequest) : Trb :=
  ⟨BitVec.ofNat 32 (v2p q.xferbuf), BitVec.ofNat 32 (v2p q.xferbuf / 2 ^ 32), q.xferlen.setWidth 32 &&& 0x1FFFF#32,
    xhciTrbSetType 1#32 ||| xhciTrbIoc ||| xhciTrbIsp⟩

/-- The rest of `xhcihcd_submit_endp_xfer_request` for a configured endpoint. -/
def xhcihcdSubmitQueue (r slot dci : ℕ) : Prog Xhci UsbResult := do
  let s ← Prog.get
  let q := s.requests r
  match s.eps slot dci with
  | none => Prog.stuck
  | some ep =>
    if ep.halted then pure .error
    else if ep.req ≠ none then pure .error
    else if q.xferlen.toNat = 0 ∨ q.xferlen.toNat > 0x10000 ∨ v2p q.xferbuf % 2 ^ 16 + q.xferlen.toNat > 0x10000 then
      pure .error
    else do
      Prog.modify fun s => xhcihcdDoorbell slot dci ((s.setRequest r { q with actualXferlen := 0 }).setEp slot dci
        { ep with
          req := some r
          ring := xhcihcdRingEnqueue ep.ring (normalTrb q) })
      pure .ok

/-- `xhcihcd_configure_endpoint` up to the wait for its command; `false` when it returns an error before.
`page` is what `page_alloc_pages_virt` returns if the ring is not there yet. -/
def xhcihcdConfigureEndpoint (page slot dci : ℕ) (desc : EndpointDescriptor) (cmd : Trb) : Prog Xhci Bool := do
  let s ← Prog.get
  match s.eps slot dci with
  | none => Prog.stuck
  | some ep =>
    if desc.bmAttributes &&& 3#8 ≠ 3#8 ∧ desc.bmAttributes &&& 3#8 ≠ 2#8 then pure false
    else
      let ringVirt := if ep.ring.ring = 0 then page else ep.ring.ring
      if ringVirt = 0 then pure false
      else do
        Prog.modify fun s => s.setEp slot dci
          { ep with
            ring := ProducerRing.init ringVirt
            req := none
            halted := false }
        xhcihcdCommandExecute cmd
        pure true

/-- A submit has returned, or it waits for the Configure Endpoint command. -/
inductive SubmitState where
  | returned (res : UsbResult)
  | configuring (slot dci : ℕ)
deriving DecidableEq

/-- `xhcihcd_submit_endp_xfer_request` up to the wait in `xhcihcd_configure_endpoint`, if it gets there. -/
def xhcihcdSubmitEndpXferRequest (page : ℕ) (cmd : Trb) (r : ℕ) : Prog Xhci SubmitState := do
  match ← xhcihcdSubmitTarget r with
  | none => pure (.returned .error)
  | some (slot, dci, desc) => do
    let ep ← xhcihcdEnsureEndpoint slot dci
    if ep.configured then do
      let res ← xhcihcdSubmitQueue r slot dci
      pure (.returned res)
    else do
      let waits ← xhcihcdConfigureEndpoint page slot dci desc cmd
      pure (if waits then .configuring slot dci else .returned .error)

/-- The rest of it when `xhcihcd_command_execute` has returned `res`. -/
def xhcihcdSubmitResume (r slot dci : ℕ) (res : UsbResult) : Prog Xhci UsbResult := do
  let s ← Prog.get
  match res, s.eps slot dci with
  | .error, _ => pure .error
  | .ok, none => Prog.stuck
  | .ok, some ep => do
    Prog.modify fun s => s.setEp slot dci { ep with configured := true }
    xhcihcdSubmitQueue r slot dci

/-! ## A started controller -/

/-- A keyboard in slot 1 with address 5, and a request of 8 bytes for its interrupt IN endpoint 1. -/
def keyboardHc : Xhci where
  hcdstate := .started
  cmdRing := ProducerRing.init 0xFFFF800000100000
  cmdPending := false
  cmdTrbPhys := 0
  cmdCode := 0#32
  cmdSlotId := 0#32
  devices slot := if slot = 1 then some true else none
  addressToSlot address := if address = 5 then 1 else 0
  ep0Ring _ := ProducerRing.init 0xFFFF800000101000
  xferPending _ := false
  xferCode _ := 0#32
  xferResidual _ := 0#32
  eps _ _ := none
  requests _ := ⟨5, some ⟨0x81#8, 3#8⟩, 0xFFFF800000200000, 8#16, true, .ok, 0⟩
  doorbells := []

end Borgos.Usb
