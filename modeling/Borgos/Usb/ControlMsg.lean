import Borgos.Libc.Mem
import Borgos.Mem.SlabHeap
import Borgos.Usb.ConfigDescriptor
import Borgos.Usb.Xhci

/-! # `usb_core.c`: control messages

A message is staged through a request, a setup block and a transfer buffer, all from `kmalloc`. Requests and setup
blocks are records kept by address, the buffers are bytes in memory. `kmalloc`, `kfree` and the host controller are
parameters; every address given to `kfree` is recorded.
-/
namespace Borgos.Usb
open Borgos.Foundations Borgos.Foundations.FlatMemory Borgos.Mem Borgos.Libc
set_option autoImplicit false

/-- `struct USB20_control_setup_data`. -/
structure SetupData where
  bmRequestType : BitVec 8
  bRequest : BitVec 8
  wValue : BitVec 16
  wIndex : BitVec 16
  wLength : BitVec 16
deriving DecidableEq, Repr

def SetupData.zeroed : SetupData := ⟨0#8, 0#8, 0#16, 0#16, 0#16⟩

/-- Bit 7 of `bmRequestType`: from the device to the host. -/
def SetupData.dirIn (d : SetupData) : Bool := d.bmRequestType.getLsbD 7

/-- `struct usb_xfer_request`. -/
structure UsbXferRequest where
  dev : ℕ
  endpointDesc : Option EndpointDescriptor
  xferbuf : ℕ
  xferlen : BitVec 16
  setupData : ℕ
  status : UsbStatus
  actualXferlen : ℕ

def UsbXferRequest.zeroed : UsbXferRequest := ⟨0, none, 0, 0#16, 0, 0, 0⟩

def sizeofUsbXferRequest : ℕ := 72

def sizeofSetupData : ℕ := 8

def gfpDma16 : ℕ := 0x01

/-- The memory, the requests and setup blocks in it, what has been freed, and the bus. -/
structure UsbState (ρ δ : Type) where
  heap : Heap ρ
  requests : ℕ → UsbXferRequest
  setups : ℕ → SetupData
  freed : List ℕ
  bus : δ

variable {ρ δ : Type}

namespace UsbState

def setRequest (s : UsbState ρ δ) (r : ℕ) (q : UsbXferRequest) : UsbState ρ δ :=
  { s with requests := Function.update s.requests r q }

def setSetup (s : UsbState ρ δ) (a : ℕ) (d : SetupData) : UsbState ρ δ :=
  { s with setups := Function.update s.setups a d }

def setMem (s : UsbState ρ δ) (mem : ℕ → ℕ) : UsbState ρ δ := { s with heap := { s.heap with mem := mem } }

end UsbState

/-- A command of the allocator. -/
def onHeap {α : Type} (x : Prog (Heap ρ) α) : Prog (UsbState ρ δ) α :=
  Prog.zoom (fun s => s.heap) (fun h s => { s with heap := h }) x

/-- The operations of `usb_hcd_t` that submit a request. -/
structure UsbHcd (ρ δ : Type) where
  submitCtrlXferRequest : ℕ → Prog (UsbState ρ δ) UsbStatus
  submitEndpXferRequest : ℕ → Prog (UsbState ρ δ) UsbStatus

section Messages
variable (kmalloc : ℕ → ℕ → Prog (Heap ρ) ℕ) (kfree : ℕ → Prog (Heap ρ) Unit)

/-- `usb_alloc_xfer_request`. -/
def usbAllocXferRequest (bufsize : BitVec 16) : Prog (UsbState ρ δ) ℕ := do
  let req ← onHeap (kmalloc sizeofUsbXferRequest 0)
  Prog.modify fun s => s.setRequest req UsbXferRequest.zeroed
  if req = 0 then Prog.panic "usb_alloc_xfer_request"
  else do
    let xferbuf ← onHeap (kmalloc bufsize.toNat gfpDma16)
    Prog.modify fun s => s.setRequest req { s.requests req with xferbuf := xferbuf }
    let setup ← onHeap (kmalloc sizeofSetupData gfpDma16)
    Prog.modify fun s => s.setRequest req { s.requests req with setupData := setup }
    Prog.modify fun s => s.setMem (store s.heap.mem xferbuf (List.replicate bufsize.toNat 0))
    Prog.modify fun s => s.setSetup setup SetupData.zeroed
    Prog.modify fun s => s.setRequest req { s.requests req with xferlen := bufsize }
    pure req

/-- `kfree`, with its argument recorded. -/
def freeBlock (p : ℕ) : Prog (UsbState ρ δ) Unit := do
  onHeap (kfree p)
  Prog.modify fun s => { s with freed := s.freed ++ [p] }

/-- `usb_free_xfer_request`. -/
def usbFreeXferRequest (req : ℕ) : Prog (UsbState ρ δ) Unit := do
  let s ← Prog.get
  freeBlock kfree (s.requests req).setupData
  if (s.requests req).xferbuf ≠ 0 then freeBlock kfree (s.requests req).xferbuf else pure ()
  freeBlock kfree req

/-- `usb_submit_xfer_request`. -/
def usbSubmitXferRequest (hcd : UsbHcd ρ δ) (req : ℕ) : Prog (UsbState ρ δ) UsbStatus := do
  let s ← Prog.get
  match (s.requests req).endpointDesc with
  | some _ => hcd.submitEndpXferRequest req
  | none => hcd.submitCtrlXferRequest req

/-- `usb_control_msg`. -/
def usbControlMsg (hcd : UsbHcd ρ δ) (dev : ℕ) (endpointDesc : Option EndpointDescriptor)
    (bRequest bmRequestType : BitVec 8) (wValue wIndex : BitVec 16) (data : ℕ) (wLength : BitVec 16) :
    Prog (UsbState ρ δ) UsbStatus := do
  let req ← usbAllocXferRequest kmalloc wLength
  Prog.modify fun s => s.setRequest req
    { s.requests req with
      dev := dev
      endpointDesc := endpointDesc
      xferlen := wLength }
  Prog.modify fun s => s.setSetup (s.requests req).setupData ⟨bmRequestType, bRequest, wValue, wIndex, wLength⟩
  let res ← usbSubmitXferRequest hcd req
  if res ≠ usbOk then Prog.panic "usb_control_msg"
  else do
    let s ← Prog.get
    let q := s.requests req
    if q.status ≠ usbOk then Prog.panic "usb_control_msg"
    else if q.actualXferlen ≠ q.xferlen.toNat then Prog.panic "usb_control_msg actual_xferlen differs"
    else do
      Prog.modify fun s => s.setMem (memcpy s.heap.mem data q.xferbuf wLength.toNat)
      usbFreeXferRequest kfree req
      pure q.status

end Messages

/-! ## What the controller is relied on for -/

/-- A controller that moves `xferbuf` faithfully: the bytes `reply` for IN, the buffer itself for OUT, and that reports
the whole length. -/
structure Transfers (submit : ℕ → Prog (UsbState ρ δ) UsbStatus) (reply : δ → SetupData → ℕ → ℕ)
    (received : δ → List ℕ) : Prop where
  returns : ∀ r s, (s.requests r).status = usbOk → ∃ mem bus, submit r s = .ok usbOk
    { s.setMem mem with
      bus := bus
      requests := Function.update s.requests r { s.requests r with actualXferlen := (s.requests r).xferlen.toNat } } ∧
    ((s.setups (s.requests r).setupData).dirIn = true →
      mem = store s.heap.mem (s.requests r).xferbuf
        ((List.range (s.requests r).xferlen.toNat).map (reply s.bus (s.setups (s.requests r).setupData)))) ∧
    ((s.setups (s.requests r).setupData).dirIn = false →
      mem = s.heap.mem ∧ received bus = load s.heap.mem (s.requests r).xferbuf (s.requests r).xferlen.toNat)

end Borgos.Usb
