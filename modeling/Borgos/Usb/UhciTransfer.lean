import Borgos.Usb.UhciQueue
import Borgos.Usb.Xhci

/-! # UHCI transfers

A transfer is a chain of transfer descriptors (TDs), allocated as one array behind a queue head. The controller follows
the 32-bit links; the driver keeps a chain of its own in `tdnext`. The submitting functions build the TDs, wait, and
read the result from what the controller has left in `ctrl`; `uhcihcd_poll_qh_xfer` does that for requests nobody waits
for.
-/
namespace Borgos.Usb
open Borgos.Foundations Borgos.Mem
set_option autoImplicit false

/-! ## Transfer descriptors -/

def tdCsBitstuff : ℕ := 1 <<< 17
def tdCsCrcTimeout : ℕ := 1 <<< 18
def tdCsNak : ℕ := 1 <<< 19
def tdCsBabble : ℕ := 1 <<< 20
def tdCsDatabuffer : ℕ := 1 <<< 21
def tdCsStalled : ℕ := 1 <<< 22
def tdCsActive : ℕ := 1 <<< 23
def tdCsIoc : ℕ := 1 <<< 24

def tokenOut : ℕ := 0xE1
def tokenIn : ℕ := 0x69
def tokenSetup : ℕ := 0x2D

/-- `sizeof(uhci_td_t)`: 24 bytes, aligned to 16. -/
def sizeofUhciTd : ℕ := 32

/-- `uhci_td_t`. -/
structure UhciTd where
  link : ℕ
  ctrl : ℕ
  token : ℕ
  buffer : ℕ
  tdnext : ℕ
deriving DecidableEq

/-- `td[i]`. -/
abbrev TdArray := ℕ → UhciTd

/-- `token` from its fields. -/
def tdToken (maxlen toggle endp address pid : ℕ) : ℕ :=
  (maxlen <<< 21 ||| toggle <<< 19 ||| endp <<< 15 ||| address <<< 8 ||| pid) % 2 ^ 32

namespace UhciTd

def pid (t : UhciTd) : ℕ := t.token % 2 ^ 8

def toggle (t : UhciTd) : ℕ := t.token / 2 ^ 19 % 2

/-- The length of the packet: the field holds it minus 1, and `0x7FF` for an empty packet. -/
def maxBytes (t : UhciTd) : ℕ := (t.token / 2 ^ 21 + 1) % 2 ^ 11

/-- The bytes that were moved, in the same encoding. -/
def actBytes (t : UhciTd) : ℕ := (t.ctrl % 2 ^ 11 + 1) % 2 ^ 11

def ioc (t : UhciTd) : Prop := t.ctrl / 2 ^ 24 % 2 = 1

/-- The controller stops here. -/
def terminates (t : UhciTd) : Prop := t.link % 2 = 1

end UhciTd

/-- `uhci_allocTDs`: `tdcount` descriptors at `td`, where `old` was before. -/
def uhciAllocTDs (td tdcount : ℕ) (old : TdArray) : TdArray := fun i =>
  if i < tdcount then ⟨0, 0, 0, 0, if i + 1 = tdcount then 0 else td + sizeofUhciTd * (i + 1)⟩ else old i

/-! ## `uhcihcd_submit_ctrl_xfer_request` -/

/-- What is read of a control request: the device's address and speed, the setup data and its `bmRequestType`, and the
buffer. -/
structure CtrlXferRequest where
  address : ℕ
  lowSpeed : Bool
  setupData : ℕ
  bmRequestType : ℕ
  xferbuf : ℕ
  xferlen : ℕ

namespace CtrlXferRequest
variable (req : CtrlXferRequest)

def packetSize : ℕ := 8

def tdcount : ℕ := (req.xferlen + (packetSize - 1)) / packetSize + 2

def direction : ℕ := req.bmRequestType >>> 7

/-- The active bit, three retries and the speed. -/
def ctrl : ℕ := if req.lowSpeed then 1 <<< 26 ||| 3 <<< 27 ||| 0x80 <<< 16 else 3 <<< 27 ||| 0x80 <<< 16

def dataPid : ℕ := if req.direction ≠ 0 then tokenIn else tokenOut

def statusPid : ℕ := if req.direction ≠ 0 then tokenOut else tokenIn

/-- A physical address in a 32-bit field. -/
def phys32 (v : ℕ) : ℕ := v2p v % 2 ^ 32

/-- The TD `i` of the data stage, for `t` bytes. -/
def dataTd (td toggle i t : ℕ) (old : UhciTd) : UhciTd :=
  { old with
    link := phys32 (td + sizeofUhciTd * (i + 1))
    ctrl := req.ctrl
    token := tdToken (t - 1) toggle 0 (req.address % 128) req.dataPid
    buffer := phys32 (req.xferbuf + packetSize * (i - 1)) }

/-- `while ((sz > 0) && (i<9))`, where `left` is `9 - i`. -/
def dataLoop (td toggle : ℕ) : ℕ → ℕ → ℕ → TdArray → ℕ × TdArray
  | 0, i, _, tds => (i, tds)
  | left + 1, i, sz, tds =>
    if sz > 0 then
      let t := if sz ≤ packetSize then sz else packetSize
      dataLoop td toggle left (i + 1) (sz - t) (Function.update tds i (req.dataTd td toggle i t (tds i)))
    else (i, tds)

def setupTd (td toggle : ℕ) (old : UhciTd) : UhciTd :=
  { old with
    link := phys32 (td + sizeofUhciTd)
    ctrl := req.ctrl
    token := tdToken 7 toggle 0 (req.address % 128) tokenSetup
    buffer := phys32 req.setupData }

def statusTd (toggle : ℕ) (old : UhciTd) : UhciTd :=
  { old with
    link := 1
    ctrl := req.ctrl ||| tdCsIoc
    token := tdToken 0x7FF toggle 0 (req.address % 128) req.statusPid
    buffer := 0 }

/-- The number of TDs in use and the TDs, as they are queued. -/
def buildChain (td : ℕ) (old : TdArray) : ℕ × TdArray :=
  let tds := uhciAllocTDs td req.tdcount old
  let toggle := 0
  let tds := Function.update tds 0 (req.setupTd td toggle (tds 0))
  let toggle := toggle ^^^ 1
  let (i, tds) := req.dataLoop td toggle 8 1 req.xferlen tds
  let toggle := 1
  (i + 1, Function.update tds i (req.statusTd toggle (tds i)))

end CtrlXferRequest

/-! ## Waiting and the result -/

/-- A wait loop: the number of delays before `done` holds, at most `left` more than `count`. -/
def waitLoop (done : ℕ → Bool) : ℕ → ℕ → ℕ
  | 0, count => count
  | left + 1, count => if done count then count else waitLoop done left (count + 1)

/-- What a submitting function returns, with `req->actual_xferlen` if it has been set. -/
inductive XferResult where
  | ok (actualXferlen : ℕ)
  | error
deriving DecidableEq

/-- `1 + (ctrl & 0x3F)`. -/
def tdActlen (t : UhciTd) : ℕ := 1 + (t.ctrl &&& 0x3F)

/-- `for (t=1; t<tdcount-1; t++) actlen += ..`, in 16 bits. -/
def ctrlActlen (tdcount : ℕ) (tds : TdArray) : ℕ :=
  (List.range' 1 (tdcount - 2)).foldl (fun actlen t => (actlen + tdActlen (tds t)) % 2 ^ 16) 0

/-- `(ctrl & (0xFF<<16)) != 0`: the TD is active or has an error. -/
def tdFailed (t : UhciTd) : Prop := t.ctrl &&& 0xFF <<< 16 ≠ 0

instance (t : UhciTd) : Decidable (tdFailed t) := inferInstanceAs (Decidable (_ ≠ _))

/-- `uhcihcd_submit_ctrl_xfer_request` once the chain has been queued: `usbint k` tells whether the status register has
the interrupt bit after `k` delays, `after` are the TDs as the controller has left them. -/
def uhcihcdCtrlXferResult (req : CtrlXferRequest) (timeout count : ℕ) (usbint : ℕ → Bool) (after : TdArray) :
    XferResult :=
  if waitLoop usbint timeout 0 ≥ timeout then .error
  else if ∃ t < count, tdFailed (after t) then .error
  else .ok (ctrlActlen req.tdcount after)

/-- What is read of a request for an endpoint. -/
structure EndpXferRequest where
  address : ℕ
  lowSpeed : Bool
  bEndpointAddress : ℕ
  wMaxPacketSize : ℕ
  xferbuf : ℕ
  xferlen : ℕ

namespace EndpXferRequest
variable (req : EndpXferRequest)

def tdcount : ℕ := (req.xferlen + (req.wMaxPacketSize - 1)) / req.wMaxPacketSize

def ctrl : ℕ := if req.lowSpeed then 1 <<< 26 ||| 3 <<< 27 ||| 0x80 <<< 16 else 3 <<< 27 ||| 0x80 <<< 16

def pid : ℕ := if req.bEndpointAddress >>> 7 = 1 then tokenIn else tokenOut

/-- The only TD. -/
def xferTd (old : UhciTd) : UhciTd :=
  { old with
    link := 1
    ctrl := req.ctrl
    token := tdToken ((req.xferlen - 1) % 2 ^ 11) 0 (req.bEndpointAddress &&& 0x0F) req.address req.pid
    buffer := CtrlXferRequest.phys32 req.xferbuf }

/-- `None` is the panic of a request that needs more or less than one TD, and the trap of a packet size of 0. -/
def buildChain (td : ℕ) (old : TdArray) : Option TdArray :=
  if req.wMaxPacketSize = 0 ∨ req.tdcount ≠ 1 then none
  else
    let tds := uhciAllocTDs td 1 old
    some (Function.update tds 0 (req.xferTd (tds 0)))

end EndpXferRequest

/-- The delays of `while ((td[0].ctrl & TD_CS_ACTIVE) && ..)`, where `after k` is the TD after `k` delays. -/
def endpDelays (timeout : ℕ) (after : ℕ → UhciTd) : ℕ :=
  waitLoop (fun k => (after k).ctrl &&& tdCsActive = 0) (timeout * 10) 0

/-- `uhcihcd_submit_endp_xfer_request_sync` once the TD has been queued. -/
def uhcihcdEndpXferResult (timeout : ℕ) (after : ℕ → UhciTd) : XferResult :=
  let count := endpDelays timeout after
  if count ≥ timeout then .error
  else if tdFailed (after count) then .error
  else .ok (tdActlen (after count) % 2 ^ 16)

/-! ## `uhcihcd_poll_qh_xfer` -/

/-- `while(tdend->tdnext)`, over the TDs in memory. -/
def lastTd (mem : ℕ → UhciTd) : ℕ → ℕ → Option ℕ
  | 0, _ => none
  | fuel + 1, tdend => if (mem tdend).tdnext ≠ 0 then lastTd mem fuel (mem tdend).tdnext else some tdend

/-- What a poll does about a queue head: nothing, or it completes the request with a status and a length. -/
inductive PollResult where
  | pending
  | complete (status : UsbResult) (actualXferlen : ℕ)
deriving DecidableEq

/-- `none` is a chain without an end. The error bits of the last TD are only reported. -/
def uhcihcdPollQhXfer (mem : ℕ → UhciTd) (fuel tdhead : ℕ) : Option PollResult :=
  if tdhead = 0 then some .pending
  else
    match lastTd mem fuel tdhead with
    | none => none
    | some tdend =>
      if (mem tdend).ctrl &&& tdCsActive = 0 then some (.complete .ok (tdActlen (mem tdend)))
      else some .pending

end Borgos.Usb
