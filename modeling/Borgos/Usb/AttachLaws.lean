import Borgos.Foundations.Lockstep
import Borgos.Usb.Attach

/-! # When binding a driver does not depend on the heap

Two runs that differ in the previous contents of the blocks go in lockstep up to the search for a driver. What the
blocks held is left over in the driver pointer, and in the descriptor pointers that the parse does not set.
-/
namespace Borgos.Usb
open Borgos.Foundations
open Borgos.Mem (KmallocService)
set_option autoImplicit false

variable {ω : Type}

/-! ## Reading a string into two buffers -/

section Strings
variable {n k : ℕ} {s t : StringRead ω n}

end Strings

/-! ## Two devices -/

section Devices
variable {x y : UsbDevice} {s t : AttachState ω} (bus : UsbBus ω)

/-- Two pointers are the same, or what the two blocks held there. -/
def LeftOver (old old' ptr ptr' : DescriptorPtr) : Prop := ptr = ptr' ∨ ptr = old ∧ ptr' = old'

/-- The parse sets the same pointers in both devices. -/
theorem LeftOver.setParsed {old old' ptr ptr' : DescriptorPtr} (h : LeftOver old old' ptr ptr') (p : Option ℕ) :
    LeftOver old old' ((p.map .parsed).getD ptr) ((p.map .parsed).getD ptr') := by
  cases p with
  | none => exact h
  | some off => exact .inl rfl

/-- The two devices are the same for their drivers, except for pointers that are left over from `x` and `y`. -/
structure AlikeView (x y : UsbDevice) (view view' : DeviceView) : Prop where
  interfaces : ∀ i, LeftOver (x.interfaces i) (y.interfaces i) (view.interfaces i) (view'.interfaces i)
  endpoints : ∀ i j, LeftOver (x.endpoints i j) (y.endpoints i j) (view.endpoints i j) (view'.endpoints i j)
  rest : view = { view' with interfaces := view.interfaces, endpoints := view.endpoints }

theorem LeftOver.eq {old ptr ptr' : DescriptorPtr} (h : LeftOver old old ptr ptr') : ptr = ptr' := by
  rcases h with rfl | ⟨rfl, rfl⟩
  · rfl
  · rfl

/-- Blocks that held the same pointers give the drivers the same device. -/
theorem AlikeView.eq {view view' : DeviceView} (h : AlikeView x y view view') (hi : x.interfaces = y.interfaces)
    (he : x.endpoints = y.endpoints) : view = view' := by
  have hinterfaces : view.interfaces = view'.interfaces := funext fun i => by
    have := h.interfaces i
    rw [hi] at this
    exact this.eq
  have hendpoints : view.endpoints = view'.endpoints := funext fun i => funext fun j => by
    have := h.endpoints i j
    rw [he] at this
    exact this.eq
  rw [h.rest, hinterfaces, hendpoints]

/-- Ready for the search. -/
structure AlikeSet (x y : UsbDevice) (s t : AttachState ω) : Prop where
  bus : s.bus = t.bus
  view : AlikeView x y s.dev.view t.dev.view
  drivers : s.dev.driver = x.driver ∧ t.dev.driver = y.driver

end Devices

/-! ## The search for a driver -/

section Search
variable {view : DeviceView} {d : UsbDeviceDriver ω} {ds : List (UsbDeviceDriver ω)} {w w' w'' : ω} {res : UsbStatus}
  {k : ℕ}

/-- What `usb_attach_device` makes of the answer of the drivers. -/
def reported (res : UsbStatus) : UsbStatus := if res = usbStatusDeviceUnsupported then usbOk else res

/-- Asked in registration order, after the answer `last`, the drivers settle on a result of the attachment and on the
driver at `k`, or on none. -/
inductive Settles (view : DeviceView) : List (UsbDeviceDriver ω) → UsbStatus → ω → UsbStatus → ℕ → Prop
  | nobody (last : UsbStatus) (w : ω) : Settles view [] last w (reported last) 0
  | unwilling {d : UsbDeviceDriver ω} {ds : List (UsbDeviceDriver ω)} {last res r : UsbStatus} {w w' : ω} {k : ℕ}
      (hprobe : d.probe view w = .ok res w') (hres : res ≠ usbOk) (h : Settles view ds res w' r k) :
      Settles view (d :: ds) last w r k
  | stepsBack {d : UsbDeviceDriver ω} {ds : List (UsbDeviceDriver ω)} {last r : UsbStatus} {w w' w'' : ω} {k : ℕ}
      (hprobe : d.probe view w = .ok usbOk w') (hbind : d.bindDevice view w' = .ok usbStatusDeviceUnsupported w'')
      (h : Settles view ds usbStatusDeviceUnsupported w'' r k) : Settles view (d :: ds) last w r k
  | fails {d : UsbDeviceDriver ω} {last res : UsbStatus} {w w' w'' : ω} (ds : List (UsbDeviceDriver ω))
      (hprobe : d.probe view w = .ok usbOk w') (hbind : d.bindDevice view w' = .ok res w'')
      (hun : res ≠ usbStatusDeviceUnsupported) (hres : res ≠ usbOk) : Settles view (d :: ds) last w res 0
  | bound {d : UsbDeviceDriver ω} {last : UsbStatus} {w w' w'' : ω} (ds : List (UsbDeviceDriver ω))
      (hprobe : d.probe view w = .ok usbOk w') (hbind : d.bindDevice view w' = .ok usbOk w'') :
      Settles view (d :: ds) last w usbOk d.addr

/-- Drivers that answer alike for two devices settle on the same. -/
theorem Settles.congr {view view' : DeviceView} {ds : List (UsbDeviceDriver ω)} {last r : UsbStatus} {w : ω} {k : ℕ}
    (h : Settles view ds last w r k)
    (hsame : ∀ d ∈ ds, d.probe view = d.probe view' ∧ d.bindDevice view = d.bindDevice view') :
    Settles view' ds last w r k := by
  induction h with
  | nobody last w => exact .nobody last w
  | unwilling hprobe hres _ ih =>
    have hd := hsame _ List.mem_cons_self
    exact .unwilling (hd.1 ▸ hprobe) hres (ih fun d hmem => hsame d (List.mem_cons_of_mem _ hmem))
  | stepsBack hprobe hbind _ ih =>
    have hd := hsame _ List.mem_cons_self
    exact .stepsBack (hd.1 ▸ hprobe) (hd.2 ▸ hbind) (ih fun d hmem => hsame d (List.mem_cons_of_mem _ hmem))
  | fails ds hprobe hbind hun hres =>
    have hd := hsame _ List.mem_cons_self
    exact .fails ds (hd.1 ▸ hprobe) (hd.2 ▸ hbind) hun hres
  | bound ds hprobe hbind =>
    have hd := hsame _ List.mem_cons_self
    exact .bound ds (hd.1 ▸ hprobe) (hd.2 ▸ hbind)

end Search

/-! ## Attaching -/

section Attach
variable (bus : UsbBus ω) (stack : StackBuffers) (memory : KmallocService) (drivers : List (UsbDeviceDriver ω))

/-- `usb_attach_device` returns `res`, and the device has the driver at `k`. -/
def Attaches (s : AttachState ω) (res : UsbStatus) (k : ℕ) : Prop :=
  ∃ v, usbAttachDevice bus stack memory drivers s = .ok res v ∧ v.dev.driver = k

variable {drivers}

variable (drivers)

/-- Drivers that do not look at pointers left over from the heap settle on the same. -/
theorem settles_of_blind {x y : UsbDevice} {u v : AttachState ω} (h : AlikeSet x y u v)
    (hblind : ∀ d ∈ drivers, ∀ view view', AlikeView x y view view' →
      d.probe view = d.probe view' ∧ d.bindDevice view = d.bindDevice view') (res : UsbStatus) (k : ℕ) :
    Settles u.dev.view drivers usbStatusDeviceUnsupported u.bus res k ↔
      Settles v.dev.view drivers usbStatusDeviceUnsupported v.bus res k := by
  rw [h.bus]
  constructor
  · intro hs
    exact hs.congr fun d hd => hblind d hd _ _ h.view
  · intro hs
    refine hs.congr fun d hd => ?_
    obtain ⟨hprobe, hbind⟩ := hblind d hd _ _ h.view
    exact ⟨hprobe.symm, hbind.symm⟩

/-- On blocks that held the same pointers all drivers settle on the same. -/
theorem settles_of_pointers {x y : UsbDevice} {u v : AttachState ω} (h : AlikeSet x y u v)
    (hi : x.interfaces = y.interfaces) (he : x.endpoints = y.endpoints) (res : UsbStatus) (k : ℕ) :
    Settles u.dev.view drivers usbStatusDeviceUnsupported u.bus res k ↔
      Settles v.dev.view drivers usbStatusDeviceUnsupported v.bus res k := by
  refine settles_of_blind drivers h (fun d _ view view' hview => ?_) res k
  rw [hview.eq hi he]
  exact ⟨rfl, rfl⟩

end Attach

/-! ## A device without interfaces -/

end Borgos.Usb
