import Borgos.Foundations.Lockstep
import Borgos.Foundations.Monotone
import Borgos.Usb.UhciTransfer

/-! # The memory accesses of the UHCI driver

The driver once more, with a log of every read and write that goes through a queue head or a TD pointer: which object
the pointer belongs to, where it reads or writes, and how many bytes had been requested for that object, if it was
allocated at that time. Addresses of new objects and what the controller writes are parameters of the operations. The
functions that only print in a debug build are left out.
-/
namespace Borgos.Usb.UhciMem
open Borgos.Foundations Borgos.Mem
set_option autoImplicit false

/-- `sizeof(uhci_qh_t)`: 28 bytes, aligned to 16. -/
def sizeofUhciQh : ℕ := 32

structure Access where
  obj : ℕ
  addr : ℕ
  len : ℕ
  size : Option ℕ
deriving DecidableEq

/-- The object is allocated, and the access is inside of the bytes that were requested for it. -/
def Access.Inside (a : Access) : Prop := ∃ n, a.size = some n ∧ a.obj ≤ a.addr ∧ a.addr + a.len ≤ a.obj + n

structure Heap where
  qh : QhMem
  xferReq : ℕ → ℕ
  tdhead : ℕ → ℕ
  td : ℕ → UhciTd
  queue : ℕ → ℕ
  size : ℕ → Option ℕ
  log : List Access

def Heap.Disciplined (s : Heap) : Prop := ∀ a ∈ s.log, a.Inside

/-! ## Accesses -/

def touch (obj addr len : ℕ) : Prog Heap Unit :=
  Prog.modify fun s => { s with log := s.log ++ [⟨obj, addr, len, s.size obj⟩] }

def kmallocAligned (p size : ℕ) : Prog Heap Unit :=
  Prog.modify fun s => { s with size := Function.update s.size p (some size) }

def kfreeAligned (p : ℕ) : Prog Heap Unit := Prog.modify fun s => { s with size := Function.update s.size p none }

def readQh (obj qh offset : ℕ) (field : UhciQh → ℕ) : Prog Heap ℕ := do
  touch obj (qh + offset) 4
  let s ← Prog.get
  pure (field (s.qh qh))

def writeQh (obj qh offset : ℕ) (f : QhMem → QhMem) : Prog Heap Unit := do
  touch obj (qh + offset) 4
  Prog.modify fun s => { s with qh := f s.qh }

def headLink (obj qh : ℕ) : Prog Heap ℕ := readQh obj qh 0 UhciQh.headLink

def elementLink (obj qh : ℕ) : Prog Heap ℕ := readQh obj qh 4 UhciQh.elementLink

def parentQh (obj qh : ℕ) : Prog Heap ℕ := readQh obj qh 24 UhciQh.parentQh

def setHeadLink (obj qh link : ℕ) : Prog Heap Unit := writeQh obj qh 0 fun m => m.setHeadLink qh link

def setElementLink (obj qh link : ℕ) : Prog Heap Unit := writeQh obj qh 4 fun m => m.setElementLink qh link

def setParentQh (obj qh phys : ℕ) : Prog Heap Unit := writeQh obj qh 24 fun m => m.setParentQh qh phys

def xferReq (qh : ℕ) : Prog Heap ℕ := do
  touch qh (qh + 8) 8
  let s ← Prog.get
  pure (s.xferReq qh)

def setXferReq (obj qh req : ℕ) : Prog Heap Unit := do
  touch obj (qh + 8) 8
  Prog.modify fun s => { s with xferReq := Function.update s.xferReq qh req }

def tdhead (qh : ℕ) : Prog Heap ℕ := do
  touch qh (qh + 16) 8
  let s ← Prog.get
  pure (s.tdhead qh)

def setTdhead (qh td : ℕ) : Prog Heap Unit := do
  touch qh (qh + 16) 8
  Prog.modify fun s => { s with tdhead := Function.update s.tdhead qh td }

def tdCtrl (obj td : ℕ) : Prog Heap ℕ := do
  touch obj (td + 4) 4
  let s ← Prog.get
  pure (s.td td).ctrl

def tdNext (obj td : ℕ) : Prog Heap ℕ := do
  touch obj (td + 16) 8
  let s ← Prog.get
  pure (s.td td).tdnext

def setTdnext (obj td next : ℕ) : Prog Heap Unit := do
  touch obj (td + 16) 8
  Prog.modify fun s => { s with td := Function.update s.td td { s.td td with tdnext := next } }

/-- The four words that the controller reads. -/
def writeTd (obj td : ℕ) (t : UhciTd) : Prog Heap Unit := do
  touch obj td 4
  touch obj (td + 4) 4
  touch obj (td + 8) 4
  touch obj (td + 12) 4
  Prog.modify fun s => { s with td := Function.update s.td td { t with tdnext := (s.td td).tdnext } }

/-! ## Objects -/

def uhciAllocQH (qh : ℕ) : Prog Heap Unit := do
  kmallocAligned qh sizeofUhciQh
  setHeadLink qh qh 1
  setElementLink qh qh 1
  setXferReq qh qh 0

def uhciFreeQH (qh : ℕ) : Prog Heap Unit := kfreeAligned qh

def uhciAllocTDs (td tdcount : ℕ) : Prog Heap Unit := do
  kmallocAligned td (sizeofUhciTd * tdcount)
  (List.range tdcount).forM fun i => do
    writeTd td (td + sizeofUhciTd * i) ⟨0, 0, 0, 0, 0⟩
    setTdnext td (td + sizeofUhciTd * i) (td + sizeofUhciTd * (i + 1))
  setTdnext td (td + sizeofUhciTd * (tdcount - 1)) 0

def uhciFreeTDs (td : ℕ) : Prog Heap Unit := kfreeAligned td

/-- The top queue heads are one object, at the first of them. -/
def tops : Prog Heap ℕ := do
  let s ← Prog.get
  pure (s.queue 0)

/-- The rounds of the two loops of `uhcihcd_setup_schedule`. -/
def clearTop (qheadlistptr i : ℕ) : Prog Heap Unit := do
  Prog.modify fun s => { s with queue := Function.update s.queue i (qheadlistptr + sizeofUhciQh * i) }
  setHeadLink qheadlistptr (qheadlistptr + sizeofUhciQh * i) uhciQhT
  setElementLink qheadlistptr (qheadlistptr + sizeofUhciQh * i) uhciQhT
  setXferReq qheadlistptr (qheadlistptr + sizeofUhciQh * i) 0

def linkTop (qheadlistptr i : ℕ) : Prog Heap Unit := do
  let s ← Prog.get
  setHeadLink qheadlistptr (s.queue i) (v2p (s.queue (i + 1)) ||| uhciQhQ)

def uhcihcdSetupSchedule (qheadlistptr : ℕ) : Prog Heap Unit := do
  kmallocAligned qheadlistptr (8 * sizeofUhciQh)
  (List.range qslots).forM (clearTop qheadlistptr)
  (List.range (qslots - 1)).forM (linkTop qheadlistptr)

/-! ## The queues -/

def insertLoop : ℕ → ℕ → Prog Heap ℕ
  | left, curQH => do
    let link ← headLink curQH curQH
    if link ≠ 1 then do
      let link ← headLink curQH curQH
      match left with
      | 0 => Prog.panic "10"
      | left + 1 => insertLoop left (qhOfLink link)
    else pure curQH

def uhcihcdInsertTransferQH (qhTransfer qhTop : ℕ) : Prog Heap Unit := do
  let top ← tops
  let link ← elementLink top qhTop
  if link = 1 then do
    setParentQh qhTransfer qhTransfer (v2p qhTop)
    setElementLink top qhTop (v2p qhTransfer ||| uhciQhQ)
  else do
    let link ← elementLink top qhTop
    let curQH ← insertLoop 11 (qhOfLink link)
    setParentQh qhTransfer qhTransfer (v2p qhTop)
    setHeadLink curQH curQH (v2p qhTransfer ||| uhciQhQ)

def removeLoop (qh : ℕ) : ℕ → ℕ → ℕ → Prog Heap ℕ
  | fuel, prevQH, curQH => do
    if curQH ≠ qh then
      match fuel with
      | 0 => Prog.stuck
      | fuel + 1 => do
        let link ← headLink curQH curQH
        removeLoop qh fuel curQH (qhOfLink link)
    else pure prevQH

def uhcihcdRemoveTransferQH (fuel qh : ℕ) : Prog Heap Unit := do
  let top ← tops
  let parent ← parentQh qh qh
  let qhTop := p2v parent
  let link ← elementLink top qhTop
  let curQH := qhOfLink link
  if curQH = qh then do
    let link ← headLink curQH curQH
    setElementLink top qhTop link
  else do
    let prevQH ← removeLoop qh fuel curQH curQH
    let link ← headLink qh qh
    setHeadLink prevQH prevQH link

/-! ## Submitting -/

/-- What the controller leaves in the `ctrl` words of the TDs and the element links of the queue heads. -/
structure Controller where
  ctrl : ℕ → ℕ
  element : ℕ → ℕ

def Controller.run (c : Controller) : Prog Heap Unit :=
  Prog.modify fun s =>
    { s with
      td := fun a => { s.td a with ctrl := c.ctrl a }
      qh := fun a => { s.qh a with elementLink := c.element a } }

def q128 : ℕ := 0
def q16 : ℕ := 3
def qctrl : ℕ := 9

/-- How every transfer that is waited for ends. -/
def finish (fuel qh td : ℕ) (result : XferResult) : Prog Heap XferResult := do
  uhcihcdRemoveTransferQH fuel qh
  uhciFreeQH qh
  uhciFreeTDs td
  pure result

/-- `for (t=0; t<i; t++) if ((td[t].ctrl & (0xFF<<16)) != 0) ..`. -/
def anyFailed (td : ℕ) : ℕ → ℕ → Prog Heap Bool
  | 0, _ => pure false
  | left + 1, t => do
    let ctrl ← tdCtrl td (td + sizeofUhciTd * t)
    if ctrl &&& 0xFF <<< 16 ≠ 0 then pure true else anyFailed td left (t + 1)

/-- The TDs of a transfer are filled in; all but the first take over its `ctrl`. -/
def fillTds (td count : ℕ) (tds : TdArray) : Prog Heap Unit :=
  (List.range count).forM fun t => do
    (if t ≠ 0 then touch td (td + 4) 4 else pure ())
    writeTd td (td + sizeofUhciTd * t) (tds t)

/-- `usbint` as for `uhcihcdCtrlXferResult`. -/
def submitCtrl (fuel : ℕ) (req : CtrlXferRequest) (qh td timeout : ℕ) (usbint : ℕ → Bool) (c : Controller) :
    Prog Heap XferResult := do
  uhciAllocQH qh
  uhciAllocTDs td req.tdcount
  setHeadLink qh qh 1
  setElementLink qh qh (v2p td)
  setTdhead qh td
  let queued := req.buildChain td fun _ => ⟨0, 0, 0, 0, 0⟩
  fillTds td queued.1 queued.2
  let s ← Prog.get
  uhcihcdInsertTransferQH qh (s.queue qctrl)
  c.run
  if waitLoop usbint timeout 0 ≥ timeout then finish fuel qh td .error
  else do
    let failed ← anyFailed td queued.1 0
    if failed then finish fuel qh td .error
    else do
      let actlen ← (List.range' 1 (req.tdcount - 2)).foldlM (fun actlen t => do
        let ctrl ← tdCtrl td (td + sizeofUhciTd * t)
        pure ((actlen + (1 + (ctrl &&& 0x3F))) % 2 ^ 16)) 0
      finish fuel qh td (.ok actlen)

def endpPanic : String := "uhcihcd_submit_endp_xfer_request_sync cant handle tdcount > 1. Should it do that???"

/-- `after` as for `uhcihcdEndpXferResult`; the loop reads `ctrl` once before each delay and once more at its end. -/
def submitEndpSync (fuel : ℕ) (req : EndpXferRequest) (qh td timeout : ℕ) (after : ℕ → ℕ) (c : Controller) :
    Prog Heap XferResult := do
  uhciAllocQH qh
  if req.wMaxPacketSize = 0 then Prog.stuck
  else if req.tdcount ≠ 1 then Prog.panic endpPanic
  else do
    uhciAllocTDs td 1
    setHeadLink qh qh 1
    setElementLink qh qh (v2p td)
    setTdhead qh td
    writeTd td td (req.xferTd ⟨0, 0, 0, 0, 0⟩)
    let s ← Prog.get
    uhcihcdInsertTransferQH qh (s.queue q16)
    let count := waitLoop (fun k => after k &&& tdCsActive = 0) (timeout * 10) 0
    (List.range (count + 1)).forM fun _ => touch td (td + 4) 4
    c.run
    if count ≥ timeout then finish fuel qh td .error
    else do
      let ctrl ← tdCtrl td td
      if ctrl &&& 0xFF <<< 16 ≠ 0 then finish fuel qh td .error
      else do
        let ctrl ← tdCtrl td td
        finish fuel qh td (.ok ((1 + (ctrl &&& 0x3F)) % 2 ^ 16))

def submitEndp (req : EndpXferRequest) (xferReq qh td : ℕ) : Prog Heap Unit := do
  uhciAllocQH qh
  setHeadLink qh qh 1
  if req.wMaxPacketSize = 0 then Prog.stuck
  else if req.tdcount ≠ 1 then Prog.panic endpPanic
  else do
    uhciAllocTDs td 1
    setElementLink qh qh (v2p td)
    setTdhead qh td
    writeTd td td (req.xferTd ⟨0, 0, 0, 0, 0⟩)
    setXferReq qh qh xferReq
    let s ← Prog.get
    uhcihcdInsertTransferQH qh (s.queue q128)

/-- The requests that drivers make, also from a callback. -/
inductive Submit where
  | ctrl (req : CtrlXferRequest) (qh td timeout : ℕ) (usbint : ℕ → Bool) (c : Controller)
  | endpSync (req : EndpXferRequest) (qh td timeout : ℕ) (after : ℕ → ℕ) (c : Controller)
  | endp (req : EndpXferRequest) (xferReq qh td : ℕ)

def Submit.run (fuel : ℕ) : Submit → Prog Heap Unit
  | .ctrl req qh td timeout usbint c => do
    let _ ← submitCtrl fuel req qh td timeout usbint c
    pure ()
  | .endpSync req qh td timeout after c => do
    let _ ← submitEndpSync fuel req qh td timeout after c
    pure ()
  | .endp req xferReq qh td => submitEndp req xferReq qh td

/-! ## Polling -/

def lastTd (td : ℕ) : ℕ → ℕ → Prog Heap ℕ
  | 0, _ => Prog.stuck
  | fuel + 1, tdend => do
    let next ← tdNext td tdend
    if next ≠ 0 then do
      let next ← tdNext td tdend
      lastTd td fuel next
    else pure tdend

/-- The end of a transfer that is through: the six error bits of the last TD are reported, the transfer is taken down,
and then its length is read. `callback` are the requests that `xfer_cb_func` makes for a request. -/
def completeXfer (fuel qh td tdend req : ℕ) (callback : ℕ → List Submit) : Prog Heap Unit := do
  (List.range 6).forM fun _ => touch td (tdend + 4) 4
  uhcihcdRemoveTransferQH fuel qh
  uhciFreeQH qh
  uhciFreeTDs td
  touch td (tdend + 4) 4
  (callback req).forM (Submit.run fuel)

def uhcihcdPollQhXfer (fuel qh : ℕ) (callback : ℕ → List Submit) : Prog Heap Unit := do
  let req ← xferReq qh
  let td ← tdhead qh
  if td = 0 then pure ()
  else do
    let tdend ← lastTd td fuel td
    let ctrl ← tdCtrl td tdend
    if ctrl &&& tdCsActive = 0 then completeXfer fuel qh td tdend req callback
    else pure ()

/-- `while (qh!=NULL)`. -/
def pollLoop (callback : ℕ → List Submit) : ℕ → ℕ → Prog Heap Unit
  | 0, _ => Prog.stuck
  | fuel + 1, qh => do
    let link ← headLink qh qh
    let qhnext := link &&& uhciQhPtrMask
    uhcihcdPollQhXfer fuel qh callback
    if qhnext > 0 then pollLoop callback fuel (p2v qhnext) else pure ()

def uhcihcdPoll (fuel : ℕ) (callback : ℕ → List Submit) : Prog Heap Unit :=
  (List.range qslots).forM fun i => do
    let s ← Prog.get
    let link ← elementLink (s.queue 0) (s.queue i)
    if link > 8 then do
      let link ← elementLink (s.queue 0) (s.queue i)
      pollLoop callback fuel (qhOfLink link)
    else pure ()

/-! ## Runs -/

/-- `controller` is the controller between two calls of the driver. -/
inductive UhciOp where
  | setup (qheadlistptr : ℕ)
  | submit (request : Submit)
  | poll (callback : ℕ → List Submit)
  | controller (c : Controller)

def UhciOp.run (fuel : ℕ) : UhciOp → Prog Heap Unit
  | .setup qheadlistptr => uhcihcdSetupSchedule qheadlistptr
  | .submit request => request.run fuel
  | .poll callback => uhcihcdPoll fuel callback
  | .controller c => c.run

def runUhciOps (fuel : ℕ) (ops : List UhciOp) : Prog Heap Unit := ops.forM (UhciOp.run fuel)

end Borgos.Usb.UhciMem
