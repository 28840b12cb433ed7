import Borgos.Usb.StringDescriptor

/-! # `usb_core.c`: attaching a device

`usb_alloc_device` takes a block from the heap and sets some of its fields; `usb_attach_device` reads the descriptors,
configures the device and looks for a driver. The previous contents of the block are a parameter: the pointers of
`interfaces` and `endpoints` that the parse does not set are what the block held. A read outside the configuration
buffer is stuck. Drivers are given the fields that usb.h marks as set by the core.
-/
namespace Borgos.Usb
open Borgos.Foundations
open Borgos.Mem (KmallocService)
set_option autoImplicit false

def usbDescriptorTypeDevice : BitVec 16 := 1#16

def usbDescriptorTypeConfiguration : BitVec 16 := 2#16

def usbDeviceRequestSetAddress : BitVec 8 := 5#8

def usbDeviceRequestSetConfiguration : BitVec 8 := 9#8

/-- `USB_BMREQUESTTYPE_DIR_OUT | USB_BMREQUESTTYPE_TYPE_STANDARD | USB_BMREQUESTTYPE_RECIPIENT_DEVICE`. -/
def bmRequestTypeWrite : BitVec 8 := 0x00#8

def sizeofDeviceDescriptor : ℕ := 18

def sizeofConfigurationDescriptor : BitVec 16 := 9#16

/-- A pointer to a descriptor: set by the parse, at an offset of the configuration buffer, or left over from the
heap. -/
inductive DescriptorPtr where
  | parsed (off : ℕ)
  | stale (bits : BitVec 64)
deriving DecidableEq

/-- `usb_device_t`; `driver` is a pointer. -/
structure UsbDevice where
  usbHcd : ℕ
  address : BitVec 8
  isRootHub : BitVec 8
  speed : ℕ
  configuration : BitVec 8
  descriptor : Vector (BitVec 8) sizeofDeviceDescriptor
  configDescriptor : Option ConfigBuffer
  interfaces : ℕ → DescriptorPtr
  endpoints : ℕ → ℕ → DescriptorPtr
  product : Vector (BitVec 8) usbMaxstringlen
  manufacturer : Vector (BitVec 8) usbMaxstringlen
  driver : ℕ

/-- The characters before the terminator. -/
def cString (v : Vector (BitVec 8) usbMaxstringlen) : List (BitVec 8) := v.toList.takeWhile (· ≠ 0#8)

/-- The fields of a device that the core sets for its driver, as far as it sets them. -/
structure DeviceView where
  usbHcd : ℕ
  address : BitVec 8
  isRootHub : BitVec 8
  speed : ℕ
  configuration : BitVec 8
  descriptor : Vector (BitVec 8) sizeofDeviceDescriptor
  configDescriptor : Option ConfigBuffer
  interfaces : ℕ → DescriptorPtr
  endpoints : ℕ → ℕ → DescriptorPtr
  product : List (BitVec 8)
  manufacturer : List (BitVec 8)

def UsbDevice.view (d : UsbDevice) : DeviceView :=
  ⟨d.usbHcd, d.address, d.isRootHub, d.speed, d.configuration, d.descriptor, d.configDescriptor, d.interfaces,
    d.endpoints, cString d.product, cString d.manufacturer⟩

/-- `descriptor.iManufacturer`. -/
def UsbDevice.iManufacturer (d : UsbDevice) : BitVec 8 := (d.descriptor[14]?).getD 0#8

/-- `descriptor.iProduct`. -/
def UsbDevice.iProduct (d : UsbDevice) : BitVec 8 := (d.descriptor[15]?).getD 0#8

/-- `struct usb_device_driver` at the address `addr`. -/
structure UsbDeviceDriver (ω : Type) where
  addr : ℕ
  probe : DeviceView → Prog ω UsbStatus
  bindDevice : DeviceView → Prog ω UsbStatus

/-- The device, the bus and `nextUsbAdress`. -/
structure AttachState (ω : Type) where
  dev : UsbDevice
  bus : ω
  nextUsbAdress : BitVec 8

section
variable {ω : Type} (bus : UsbBus ω)

def busMsg (d : SetupData) : Prog (AttachState ω) (List (BitVec 8)) :=
  Prog.zoom (fun s => s.bus) (fun w s => { s with bus := w }) (bus.msg d)

def modifyDev (f : UsbDevice → UsbDevice) : Prog (AttachState ω) Unit := Prog.modify fun s => { s with dev := f s.dev }

/-- The bytes `bs` over the first bytes of a descriptor. -/
def overwrite {n : ℕ} (v : Vector (BitVec 8) n) (bs : List (BitVec 8)) : Vector (BitVec 8) n :=
  Vector.ofFn fun i : Fin n => bs[i.val]?.getD v[i]

/-- `usb_read_device_descriptor`. -/
def usbReadDeviceDescriptor (maxlen : BitVec 16) : Prog (AttachState ω) Unit := do
  let bytes ← busMsg bus
    ⟨bmRequestTypeRead, usbDeviceRequestGetDescriptor, usbDescriptorTypeDevice <<< 8, 0#16, maxlen⟩
  modifyDev fun d => { d with descriptor := overwrite d.descriptor bytes }

/-- `usb_set_address`. -/
def usbSetAddress (address : BitVec 8) : Prog (AttachState ω) Unit := do
  let _ ← busMsg bus ⟨bmRequestTypeWrite, usbDeviceRequestSetAddress, address.setWidth 16, 0#16, 0#16⟩
  modifyDev fun d => { d with address := address }

/-- What the stack holds where `usb_get_ascii_string` has its buffers. -/
structure StackBuffers where
  buf : Vector (BitVec 8) sizeofStringBuf
  alignedbuf : Vector (BitVec 16) usbMaxstringlen

/-- A string of a device: its index in the device descriptor and its buffer. -/
structure StringField where
  index : UsbDevice → BitVec 8
  get : UsbDevice → Vector (BitVec 8) usbMaxstringlen
  set : UsbDevice → Vector (BitVec 8) usbMaxstringlen → UsbDevice

def productField : StringField := ⟨UsbDevice.iProduct, UsbDevice.product, fun d v => { d with product := v }⟩

def manufacturerField : StringField :=
  ⟨UsbDevice.iManufacturer, UsbDevice.manufacturer, fun d v => { d with manufacturer := v }⟩

/-- `usb_get_ascii_string` into the buffer of a string. -/
def readStringField (field : StringField) (stack : StackBuffers) (iString : BitVec 8) :
    Prog (AttachState ω) UsbStatus :=
  Prog.zoom (fun s => ⟨stack.buf, stack.alignedbuf, field.get s.dev, s.bus⟩)
    (fun r s => { s with dev := field.set s.dev r.strbuf, bus := r.bus })
    (usbGetAsciiString bus (iString.setWidth 32) : Prog (StringRead ω usbMaxstringlen) UsbStatus)

/-- A string, if there is one. -/
def usbReadStringField (field : StringField) (stack : StackBuffers) : Prog (AttachState ω) Unit := do
  let s ← Prog.get
  if field.index s.dev = 0#8 then pure ()
  else do
    let _ ← readStringField bus field stack (field.index s.dev)
    pure ()

/-- The product string, if there is one. -/
def usbReadProductString (stack : StackBuffers) : Prog (AttachState ω) Unit := usbReadStringField bus productField stack

/-- The manufacturer string, if there is one. -/
def usbReadManufacturerString (stack : StackBuffers) : Prog (AttachState ω) Unit :=
  usbReadStringField bus manufacturerField stack

/-- `usb_get_configuration_descriptor` for configuration 0. -/
def usbGetConfigurationDescriptor (buflen : BitVec 16) : Prog (AttachState ω) (List (BitVec 8)) :=
  busMsg bus ⟨bmRequestTypeRead, usbDeviceRequestGetDescriptor, usbDescriptorTypeConfiguration <<< 8, 0#16, buflen⟩

/-- `wTotalLength` of the nine bytes of a configuration descriptor. -/
def totalLength (bytes : List (BitVec 8)) : BitVec 16 :=
  (bytes.getD 3 0#8).setWidth 16 <<< 8 ||| (bytes.getD 2 0#8).setWidth 16

/-- The pointers that the parse has set, over those the device had. -/
def UsbDevice.setParsed (d : UsbDevice) (p : ConfigParse) : UsbDevice :=
  { d with
    interfaces := fun i => ((p.interfaces i).map .parsed).getD (d.interfaces i)
    endpoints := fun i j => ((p.endpoints i j).map .parsed).getD (d.endpoints i j) }

/-- `usb_read_configuration_descriptor(dev, 0)`. -/
def usbReadConfiguration (memory : KmallocService) : Prog (AttachState ω) UsbStatus := do
  let desc ← usbGetConfigurationDescriptor bus sizeofConfigurationDescriptor
  match memory.result (totalLength desc).toNat with
  | .panic => Prog.panic "kmalloc"
  | .null => pure usbStatusOutOfMemory
  | .block => do
    let buf ← usbGetConfigurationDescriptor bus (totalLength desc)
    modifyDev fun d => { d with configDescriptor := some buf }
    Prog.zoom (fun _ => ConfigParse.start) (fun p s => { s with dev := s.dev.setParsed p }) (parseConfiguration buf)

/-- `usb_set_configuration(dev, dev->config_descriptor->bConfigurationValue)`. -/
def usbSetConfiguration : Prog (AttachState ω) Unit := do
  let s ← Prog.get
  match s.dev.configDescriptor.bind (·[5]?) with
  | none => Prog.stuck
  | some value => do
    let _ ← busMsg bus ⟨bmRequestTypeWrite, usbDeviceRequestSetConfiguration, value.setWidth 16, 0#16, 0#16⟩
    modifyDev fun d => { d with configuration := value }

/-- The part of `usb_attach_device` that gives the device an address if it has none. -/
def usbAssignAddress : Prog (AttachState ω) Unit := do
  let s ← Prog.get
  if s.dev.address.toNat > 0 then pure ()
  else do
    Prog.modify fun s => { s with nextUsbAdress := s.nextUsbAdress + 1#8 }
    usbSetAddress bus s.nextUsbAdress

/-- `usb_attach_device` up to the search for a driver. -/
def usbConfigureDevice (stack : StackBuffers) (memory : KmallocService) : Prog (AttachState ω) Unit := do
  modifyDev fun d => { d with descriptor := d.descriptor.set 7 8#8 (by decide) }
  usbReadDeviceDescriptor bus 8#16
  usbAssignAddress bus
  usbReadDeviceDescriptor bus (BitVec.ofNat 16 sizeofDeviceDescriptor)
  usbReadProductString bus stack
  usbReadManufacturerString bus stack
  let res ← usbReadConfiguration bus memory
  if res ≠ usbOk then Prog.panic "Failed to read configuration descriptor"
  else usbSetConfiguration bus

/-- The loop of `usb_try_to_bind_device_driver`: the last result, and the address of the driver if one is bound. -/
def tryDrivers (view : DeviceView) : List (UsbDeviceDriver ω) → UsbStatus → Prog ω (UsbStatus × ℕ)
  | [], res => pure (res, 0)
  | d :: ds, _ => do
    let res ← d.probe view
    if res = usbOk then do
      let res ← d.bindDevice view
      if res ≠ usbStatusDeviceUnsupported then pure (res, if res = usbOk then d.addr else 0)
      else tryDrivers view ds res
    else tryDrivers view ds res

/-- `usb_try_to_bind_device_driver`. -/
def usbTryToBindDeviceDriver (drivers : List (UsbDeviceDriver ω)) : Prog (AttachState ω) UsbStatus := do
  let s ← Prog.get
  if s.dev.driver ≠ 0 then pure usbOk
  else do
    let r ← Prog.zoom (fun s => s.bus) (fun w s => { s with bus := w })
      (tryDrivers s.dev.view drivers usbStatusDeviceUnsupported)
    modifyDev fun d => { d with driver := r.2 }
    pure r.1

/-- `usb_attach_device`. -/
def usbAttachDevice (stack : StackBuffers) (memory : KmallocService) (drivers : List (UsbDeviceDriver ω)) :
    Prog (AttachState ω) UsbStatus := do
  usbConfigureDevice bus stack memory
  let res ← usbTryToBindDeviceDriver drivers
  pure (if res = usbStatusDeviceUnsupported then usbOk else res)

end

end Borgos.Usb
