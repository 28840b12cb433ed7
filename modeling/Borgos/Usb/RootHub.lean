import Borgos.Foundations.Outcome

/-! # `xhci_hcd.c`: protocols and root hubs

The extended capability chain declares port ranges, each with a major revision and a slot type.
`xhcihcd_parse_protocols` collects them in a table of four entries, `xhcihcd_hub_init` makes one root hub for each major
revision, and `xhcihcd_hub_enumerate` visits the ports of a hub. The words of a register set are read by their offset.
-/
namespace Borgos.Usb
open Borgos.Foundations
set_option autoImplicit false

def xhciMaxProtocols : ℕ := 4

def xhciMaxRootHubs : ℕ := xhciMaxProtocols

def xhciExtCapProtocolId : ℕ := 2

def xhciExtCapId (x : ℕ) : ℕ := x % 256

def xhciExtCapNext (x : ℕ) : ℕ := x / 2 ^ 8 % 256

/-- `xhci_protocol_t`. -/
structure XhciProtocol where
  major : ℕ
  minor : ℕ
  slotType : ℕ
  portOffset : ℕ
  portCount : ℕ
deriving DecidableEq

namespace XhciProtocol

/-- The first port number after the range. -/
def portEnd (p : XhciProtocol) : ℕ := p.portOffset + p.portCount

def Has (p : XhciProtocol) (port : ℕ) : Prop := p.portOffset ≤ port ∧ port < p.portEnd

instance (p : XhciProtocol) (port : ℕ) : Decidable (p.Has port) := inferInstanceAs (Decidable (_ ∧ _))

end XhciProtocol

/-! ## `xhcihcd_parse_protocols` -/

/-- The words of one entry of the chain that are read. -/
structure ExtCap where
  dw0 : ℕ
  dw2 : ℕ
  dw3 : ℕ
deriving DecidableEq

def ExtCap.at (read : ℕ → ℕ) (offset : ℕ) : ExtCap := ⟨read offset, read (offset + 8), read (offset + 12)⟩

/-- The fields of a Supported Protocol capability. -/
def ExtCap.protocol (e : ExtCap) : XhciProtocol where
  major := e.dw0 / 2 ^ 24 % 256
  minor := e.dw0 / 2 ^ 16 % 256
  slotType := e.dw3 % 32
  portOffset := e.dw2 % 256
  portCount := e.dw2 / 2 ^ 8 % 256

/-- The loop over the table: the first entry of the same major revision that is adjacent takes the range in. -/
def mergeInto (c : XhciProtocol) : List XhciProtocol → Option (List XhciProtocol)
  | [] => none
  | p :: ps =>
    if p.major ≠ c.major then (mergeInto c ps).map (p :: ·)
    else if c.portOffset = p.portOffset + p.portCount then
      some ({ p with portCount := p.portCount + c.portCount } :: ps)
    else if c.portOffset + c.portCount = p.portOffset then
      some ({ p with portOffset := c.portOffset, portCount := p.portCount + c.portCount } :: ps)
    else (mergeInto c ps).map (p :: ·)

def addProtocol (protocols : List XhciProtocol) (c : XhciProtocol) : List XhciProtocol :=
  if c.portCount ≠ 0 then
    match mergeInto c protocols with
    | some merged => merged
    | none => if protocols.length < xhciMaxProtocols then protocols ++ [c] else protocols
  else protocols

def parseEntry (protocols : List XhciProtocol) (e : ExtCap) : List XhciProtocol :=
  if xhciExtCapId e.dw0 = xhciExtCapProtocolId then addProtocol protocols e.protocol else protocols

/-- The walk; the first argument is the number of rounds that `guard` leaves. -/
def protocolLoop (read : ℕ → ℕ) : ℕ → ℕ → List XhciProtocol → List XhciProtocol
  | 0, _, protocols => protocols
  | left + 1, offset, protocols =>
    if offset ≠ 0 then
      let protocols := parseEntry protocols (ExtCap.at read offset)
      let next := xhciExtCapNext (read offset)
      if next = 0 then protocols else protocolLoop read left ((offset + next * 4) % 2 ^ 32) protocols
    else protocols

def xhcihcdParseProtocols (read : ℕ → ℕ) (xECPoff : ℕ) : List XhciProtocol := protocolLoop read 256 xECPoff []

/-- `xhci_protocol_for_port`. -/
def xhciProtocolForPort (protocols : List XhciProtocol) (port : ℕ) : Option XhciProtocol :=
  protocols.find? fun p => port ≥ p.portOffset ∧ port < p.portOffset + p.portCount

/-! ## `xhcihcd_hub_init` -/

def xhciHubAddrBase : ℕ := 0xF0

/-- `xhci_vhub_t`. -/
structure XhciVhub where
  address : ℕ
  major : ℕ
  minor : ℕ
  portOffset : ℕ
  portCount : ℕ
deriving DecidableEq

namespace XhciVhub

def portEnd (h : XhciVhub) : ℕ := h.portOffset + h.portCount

def Has (h : XhciVhub) (port : ℕ) : Prop := h.portOffset ≤ port ∧ port < h.portEnd

instance (h : XhciVhub) (port : ℕ) : Decidable (h.Has port) := inferInstanceAs (Decidable (_ ∧ _))

/-- The hub extended to cover the range of `p` too. -/
def extend (h : XhciVhub) (p : XhciProtocol) : XhciVhub :=
  let lo := if p.portOffset < h.portOffset then p.portOffset else h.portOffset
  let hiA := h.portOffset + h.portCount
  let hiB := p.portOffset + p.portCount
  let hi := if hiA > hiB then hiA else hiB
  { h with portOffset := lo, portCount := hi - lo }

end XhciVhub

/-- The first hub of the protocol's major revision is extended. -/
def extendHub (p : XhciProtocol) : List XhciVhub → Option (List XhciVhub)
  | [] => none
  | h :: hs => if h.major = p.major then some (h.extend p :: hs) else (extendHub p hs).map (h :: ·)

def newHub (hubcount : ℕ) (p : XhciProtocol) : XhciVhub :=
  ⟨(xhciHubAddrBase + hubcount) % 256, p.major, p.minor, p.portOffset, p.portCount⟩

/-- The loop of `xhcihcd_hub_init`; `none` is `USB_ERROR`. -/
def hubLoop : List XhciProtocol → List XhciVhub → Option (List XhciVhub)
  | [], hubs => some hubs
  | p :: ps, hubs =>
    if p.portCount = 0 then hubLoop ps hubs
    else
      match extendHub p hubs with
      | some hubs' => hubLoop ps hubs'
      | none => if hubs.length ≥ xhciMaxRootHubs then none else hubLoop ps (hubs ++ [newHub hubs.length p])

def xhcihcdHubInit (protocols : List XhciProtocol) : Option (List XhciVhub) :=
  match hubLoop protocols [] with
  | none => none
  | some hubs => if hubs.length = 0 then none else some hubs

/-! ## `xhcihcd_hub_enumerate` -/

section Enumerate
variable {σ : Type} (handlePort : ℕ → Prog σ Unit)

/-- The loop over the ports; `port` is a `uint8_t`. -/
def hubEnumerateLoop (hub : XhciVhub) : ℕ → ℕ → Prog σ Unit
  | 0, _ => pure ()
  | left + 1, i => do
    handlePort ((hub.portOffset + i) % 256)
    hubEnumerateLoop hub left (i + 1)

def xhcihcdHubEnumerate (hub : XhciVhub) : Prog σ Unit := hubEnumerateLoop handlePort hub hub.portCount 0

def hubEnumerateAll : List XhciVhub → Prog σ Unit
  | [] => pure ()
  | hub :: hubs => do
    xhcihcdHubEnumerate handlePort hub
    hubEnumerateAll hubs

end Enumerate
end Borgos.Usb
