import Borgos.Foundations.Outcome
import Borgos.Mem.Layout

/-! # `usb_core.c`: the configuration descriptor

`usb_read_configuration_descriptor` reads the descriptor of a device into a buffer of `wTotalLength` bytes and walks
its chain of descriptors. Pointers into the buffer are offsets. A read outside the buffer, of a pointer that this
parse has not set, or of an array out of its range, has no meaning: it is stuck.
-/
namespace Borgos.Usb
open Borgos.Foundations
open Borgos.Mem (KmallocService)
set_option autoImplicit false

/-! ## Constants -/

/-- `USBRESULT`. -/
abbrev UsbStatus := ℤ

def usbOk : UsbStatus := 0

def usbStatusInvalidData : UsbStatus := 1002

def usbStatusOutOfMemory : UsbStatus := 1003

def usbStatusDeviceUnsupported : UsbStatus := 1004

def usbDeviceMaxInterfaces : ℕ := 8

def usbDeviceMaxEndpoints : ℕ := 8

def usbDescriptorTypeInterface : BitVec 8 := 4#8

def usbDescriptorTypeEndpoint : BitVec 8 := 5#8

def sizeofDescriptorHeader : ℕ := 2

def sizeofInterfaceDescriptor : ℕ := 9

def sizeofEndpointDescriptor : ℕ := 7

/-! ## The parser -/

/-- The buffer `dev->config_descriptor` points at. -/
abbrev ConfigBuffer := List (BitVec 8)

/-- The pointers of `usb_device_t` that this parse has set, and the local variables of the loop. -/
structure ConfigParse where
  interfaces : ℕ → Option ℕ
  endpoints : ℕ → ℕ → Option ℕ
  interfaceIdx : ℤ
  endpointIdx : ℤ
  inAlternateSetting : Bool

namespace ConfigParse

def start : ConfigParse := ⟨fun _ => none, fun _ _ => none, -1, -1, false⟩

def setInterface (p : ConfigParse) (i off : ℕ) : ConfigParse :=
  { p with interfaces := Function.update p.interfaces i (some off) }

def setEndpoint (p : ConfigParse) (i j off : ℕ) : ConfigParse :=
  { p with endpoints := Function.update p.endpoints i (Function.update (p.endpoints i) j (some off)) }

end ConfigParse

/-- A byte of the buffer. -/
def readByte (buf : ConfigBuffer) (i : ℕ) : Prog ConfigParse (BitVec 8) := fun p =>
  match buf[i]? with
  | some b => .ok b p
  | none => .stuck

/-- `dev->interfaces[interface_idx]->bNumEndpoints`. -/
def currentNumEndpoints (buf : ConfigBuffer) : Prog ConfigParse (BitVec 8) := fun p =>
  match p.interfaces p.interfaceIdx.toNat with
  | some off => readByte buf (off + 4) p
  | none => .stuck

/-- What the body of the loop does next: another iteration, or a result. -/
inductive BodyExit where
  | next
  | exit (res : UsbStatus)

/-- The test of the endpoint count, made when an interface descriptor follows. -/
def endpointCountWrong (buf : ConfigBuffer) : Prog ConfigParse Bool := do
  let p ← Prog.get
  if p.interfaceIdx ≥ 0 ∧ p.inAlternateSetting = false then
    let n ← currentNumEndpoints buf
    pure (decide (p.endpointIdx + 1 ≠ n.toNat))
  else
    pure false

/-- `case USB_DESCRIPTOR_TYPE_INTERFACE`. -/
def parseInterface (buf : ConfigBuffer) (i : ℕ) : Prog ConfigParse BodyExit := do
  if i + sizeofInterfaceDescriptor > buf.length then
    pure (.exit usbStatusInvalidData)
  else
    let wrong ← endpointCountWrong buf
    if wrong then
      pure (.exit usbStatusInvalidData)
    else
      let bAlternateSetting ← readByte buf (i + 3)
      if bAlternateSetting ≠ 0 then
        Prog.modify fun p => { p with inAlternateSetting := true }
        pure .next
      else
        Prog.modify fun p =>
          { p with
            inAlternateSetting := false
            interfaceIdx := p.interfaceIdx + 1 }
        let p ← Prog.get
        if p.interfaceIdx ≥ usbDeviceMaxInterfaces then
          pure (.exit usbStatusDeviceUnsupported)
        else
          Prog.modify fun p => { p.setInterface p.interfaceIdx.toNat i with endpointIdx := -1 }
          pure .next

/-- `case USB_DESCRIPTOR_TYPE_ENDPOINT`. -/
def parseEndpoint (buf : ConfigBuffer) (i : ℕ) : Prog ConfigParse BodyExit := do
  let p ← Prog.get
  if p.interfaceIdx < 0 then
    pure (.exit usbStatusInvalidData)
  else if i + sizeofEndpointDescriptor > buf.length then
    pure (.exit usbStatusInvalidData)
  else if p.inAlternateSetting = false then
    Prog.modify fun p => { p with endpointIdx := p.endpointIdx + 1 }
    let p ← Prog.get
    if p.endpointIdx ≥ usbDeviceMaxEndpoints then
      pure (.exit usbStatusDeviceUnsupported)
    else
      Prog.modify fun p => p.setEndpoint p.interfaceIdx.toNat p.endpointIdx.toNat i
      pure .next
  else
    pure .next

/-- The body of the loop after the test of `bLength`. -/
def parseDescriptor (buf : ConfigBuffer) (i : ℕ) (bDescriptorType : BitVec 8) : Prog ConfigParse BodyExit :=
  if bDescriptorType = usbDescriptorTypeInterface then parseInterface buf i
  else if bDescriptorType = usbDescriptorTypeEndpoint then parseEndpoint buf i
  else pure .next

/-- The loop from offset `i` on. -/
def parseLoop (buf : ConfigBuffer) (i : ℕ) : Prog ConfigParse BodyExit :=
  if h : i + sizeofDescriptorHeader ≤ buf.length then
    have hi : i + 1 < buf.length := h
    let bLength := buf[i].toNat
    if hlen : bLength < sizeofDescriptorHeader then
      pure (.exit usbStatusInvalidData)
    else do
      let r ← parseDescriptor buf i buf[i + 1]
      match r with
      | .next => parseLoop buf (i + bLength)
      | .exit res => pure (.exit res)
  else
    pure .next
termination_by buf.length - i
decreasing_by
  have : ¬buf[i].toNat < 2 := hlen
  omega

/-- After the loop: the number of interfaces. -/
def finishParse (buf : ConfigBuffer) : Prog ConfigParse UsbStatus := do
  let p ← Prog.get
  let bNumInterfaces ← readByte buf 4
  if p.interfaceIdx + 1 ≠ bNumInterfaces.toNat then
    pure usbStatusInvalidData
  else
    pure usbOk

/-- Everything after the second read. -/
def parseConfiguration (buf : ConfigBuffer) : Prog ConfigParse UsbStatus := do
  let r ← parseLoop buf 0
  match r with
  | .next => finishParse buf
  | .exit res => pure res

/-- What the calls of `usb_get_configuration_descriptor` and `kmalloc` give: the result of the first read and the
`wTotalLength` it found, how requests are served, the result of the second read and what the buffer then holds. -/
structure ConfigReads where
  first : UsbStatus
  wTotalLength : BitVec 16
  memory : KmallocService
  second : UsbStatus
  buf : ConfigBuffer
  length_buf : buf.length = wTotalLength.toNat

def usbReadConfigurationDescriptor (r : ConfigReads) : Prog ConfigParse UsbStatus :=
  if r.first ≠ usbOk then pure r.first
  else
    match r.memory.result r.wTotalLength.toNat with
    | .panic => Prog.panic "kmalloc"
    | .null => pure usbStatusOutOfMemory
    | .block =>
      if r.second ≠ usbOk then pure r.second
      else parseConfiguration r.buf

/-! ## `usb_kbd_probe_attach` -/

def usbClassCodeInterfaceSpecific : BitVec 8 := 0#8

def usbClassCodeHid : BitVec 8 := 3#8

def hidSubclassBoot : BitVec 8 := 1#8

def hidBootProtocolKeyboard : BitVec 8 := 1#8

def usbTransferTypeInterrupt : BitVec 8 := 3#8

def usbDirectionIn : BitVec 8 := 1#8

/-- `dev->interfaces[i]`. -/
def readInterface (i : ℕ) : Prog ConfigParse ℕ := fun p =>
  match p.interfaces i with
  | some off => .ok off p
  | none => .stuck

/-- `dev->endpoints[i][j]`. -/
def readEndpoint (i j : ℕ) : Prog ConfigParse ℕ := fun p =>
  match p.endpoints i j with
  | some off => .ok off p
  | none => .stuck

/-- The loop over the endpoints of interface `i`, with `n` of them still to look at. -/
def findInterruptEndpoint (buf : ConfigBuffer) (i : ℕ) : ℕ → ℕ → Prog ConfigParse (Option ℕ)
  | 0, _ => pure none
  | n + 1, j => do
    let off ← readEndpoint i j
    let bmAttributes ← readByte buf (off + 3)
    let bEndpointAddress ← readByte buf (off + 2)
    if bmAttributes &&& 3#8 = usbTransferTypeInterrupt ∧ bEndpointAddress >>> 7 = usbDirectionIn then
      pure (some off)
    else
      findInterruptEndpoint buf i n (j + 1)

/-- One iteration of the loop over the interfaces: the endpoint found, if the interface is a boot keyboard. -/
def probeInterface (buf : ConfigBuffer) (i : ℕ) : Prog ConfigParse (Option ℕ) := do
  let off ← readInterface i
  let bInterfaceClass ← readByte buf (off + 5)
  if bInterfaceClass ≠ usbClassCodeHid then
    pure none
  else
    let bInterfaceSubClass ← readByte buf (off + 6)
    let bInterfaceProtocol ← readByte buf (off + 7)
    if bInterfaceSubClass ≠ hidSubclassBoot ∨ bInterfaceProtocol ≠ hidBootProtocolKeyboard then
      pure none
    else
      let bNumEndpoints ← readByte buf (off + 4)
      findInterruptEndpoint buf i bNumEndpoints.toNat 0

/-- The loop over the interfaces, with `n` of them still to look at. -/
def probeInterfaces (buf : ConfigBuffer) : ℕ → ℕ → Prog ConfigParse (Option (ℕ × ℕ))
  | 0, _ => pure none
  | n + 1, i => do
    let found ← probeInterface buf i
    match found with
    | some ep => pure (some (i, ep))
    | none => probeInterfaces buf n (i + 1)

/-- The search of `usb_kbd_probe_attach`: the index of the keyboard's interface and its endpoint. -/
def usbKbdProbeAttach (bDeviceClass : BitVec 8) (buf : ConfigBuffer) : Prog ConfigParse (Option (ℕ × ℕ)) :=
  if usbClassCodeInterfaceSpecific ≠ bDeviceClass then pure none
  else do
    let bNumInterfaces ← readByte buf 4
    probeInterfaces buf bNumInterfaces.toNat 0

end Borgos.Usb
