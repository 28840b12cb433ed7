import Borgos.Foundations.Outcome
import Borgos.Usb.Trb

/-! # `xhci_hcd.c`: the event ring

The controller writes events into a page of 256 TRBs and `xhcihcd_process_events` drains it, with no other
agreement than the cycle bit and ERDP. The controller may write between any two steps of the drain loop. The
handlers are parameters over the rest of the driver's state `D`; they have no access to the event ring.
-/
namespace Borgos.Usb
open Borgos.Foundations Borgos.Mem
set_option autoImplicit false

variable {D : Type}

def xhciTrbTransferEvent : BitVec 32 := 32#32

def xhciTrbCmdCompletion : BitVec 32 := 33#32

def xhciTrbPortStatusChange : BitVec 32 := 34#32

def xhciTrbHostController : BitVec 32 := 37#32

/-- `XHCI_ERDP_EHB`. -/
def xhciErdpEhb : ℕ := 2 ^ 3

/-- The handlers of `xhcihcd_process_events`. -/
structure EventHandlers (D : Type) where
  handleTransferEvent : Trb → Prog D Unit
  handleCommandCompletion : Trb → Prog D Unit

/-- Which handler an event goes to. -/
inductive EventKind where
  | transfer
  | commandCompletion
  | portStatusChange
  | hostController
  | other
deriving DecidableEq, Repr

def eventKind (control : BitVec 32) : EventKind :=
  if xhciTrbType control = xhciTrbTransferEvent then .transfer
  else if xhciTrbType control = xhciTrbCmdCompletion then .commandCompletion
  else if xhciTrbType control = xhciTrbPortStatusChange then .portStatusChange
  else if xhciTrbType control = xhciTrbHostController then .hostController
  else .other

/-- The `switch` of the loop, on the control word read before; the handler reads the TRB again. -/
def dispatchEvent (handlers : EventHandlers D) (control : BitVec 32) (trb : Trb) : Prog D Unit :=
  match eventKind control with
  | .transfer => handlers.handleTransferEvent trb
  | .commandCompletion => handlers.handleCommandCompletion trb
  | .portStatusChange => Prog.panic "TODO XHCI_TRB_PORT_STATUS_CHANGE"
  | .hostController => Prog.panic "DEAD"
  | .other => pure ()

/-- Where `xhcihcd_process_events` stands, with its local variables. -/
inductive DrainStage where
  | idle
  | test (consumed : ℕ)
  | dispatch (control : BitVec 32) (consumed : ℕ)
  | advance (consumed : ℕ)
  | finish (consumed : ℕ)
deriving DecidableEq

/-- The driver's part of the event ring, the controller's part, and the rest of the driver. `written` are the
events the controller has written, `dispatched` those given to a handler, each with the handler it went to,
and `released` counts the events before the entry that ERDP points at. -/
structure EventSystem (D : Type) where
  erVirt : ℕ
  trbs : ℕ → Trb
  eventDequeue : ℕ
  eventCycle : Bool
  stage : DrainStage
  erdp : ℕ
  enqueue : ℕ
  pcs : Bool
  writing : Option Trb
  dev : D
  written : List Trb
  dispatched : List (EventKind × Trb)
  released : ℕ

namespace EventSystem

/-- After `xhcihcd_setup`. -/
def start (erVirt : ℕ) (dev : D) : EventSystem D :=
  ⟨erVirt, fun _ => Trb.zero, 0, true, .idle, v2p erVirt, 0, true, none, dev, [], [], 0⟩

/-- `eventring[xhcidev->event_dequeue]`. -/
def current (a : EventSystem D) : Trb := a.trbs a.eventDequeue

/-- The address of entry `i`. -/
def entryAddress (a : EventSystem D) (i : ℕ) : ℕ := (v2p a.erVirt + i * xhciTrbSize) % wordSize

/-! ## `xhcihcd_process_events` -/

/-- The top of the loop: read the control word and compare its cycle bit. -/
def testEntry (a : EventSystem D) (consumed : ℕ) : EventSystem D :=
  { a with stage := if a.current.cycle ≠ a.eventCycle then .finish consumed else .dispatch a.current.control consumed }

def advanceEntry (a : EventSystem D) (consumed : ℕ) : EventSystem D :=
  { a with
    stage := .test (consumed + 1)
    eventDequeue := if a.eventDequeue + 1 ≥ xhciRingTrbs then 0 else a.eventDequeue + 1
    eventCycle := if a.eventDequeue + 1 ≥ xhciRingTrbs then !a.eventCycle else a.eventCycle }

/-- After the loop: ERDP, if anything was consumed. -/
def finishDrain (a : EventSystem D) (consumed : ℕ) : EventSystem D :=
  if consumed ≠ 0 then
    { a with
      stage := .idle
      erdp := a.entryAddress a.eventDequeue ||| xhciErdpEhb
      released := a.dispatched.length }
  else { a with stage := .idle }

/-- The handler has run. -/
def afterDispatch (a : EventSystem D) (control : BitVec 32) (consumed : ℕ) (dev : D) : EventSystem D :=
  { a with
    stage := .advance consumed
    dev := dev
    dispatched := a.dispatched ++ [(eventKind control, a.current.payload)] }

/-! ## The controller -/

/-- The first three words of an event. -/
def writeEvent (a : EventSystem D) (ev : Trb) : EventSystem D :=
  { a with
    trbs := Function.update a.trbs a.enqueue { ev with control := (a.trbs a.enqueue).control }
    writing := some ev }

/-- The control word, with the cycle bit, and the next entry. -/
def commitEvent (a : EventSystem D) (ev : Trb) : EventSystem D :=
  { a with
    trbs := Function.update a.trbs a.enqueue { a.trbs a.enqueue with control := withCycle ev.control a.pcs }
    writing := none
    written := a.written ++ [ev]
    enqueue := if a.enqueue + 1 = 256 then 0 else a.enqueue + 1
    pcs := if a.enqueue + 1 = 256 then !a.pcs else a.pcs }

end EventSystem

/-- A step of the driver. There is none from a handler that panics. -/
inductive DriverStep (handlers : EventHandlers D) (a : EventSystem D) : EventSystem D → Prop
  | enter (h : a.stage = .idle) : DriverStep handlers a { a with stage := .test 0 }
  | test (consumed : ℕ) (h : a.stage = .test consumed) : DriverStep handlers a (a.testEntry consumed)
  | dispatch (control : BitVec 32) (consumed : ℕ) (dev : D) (h : a.stage = .dispatch control consumed)
      (hrun : dispatchEvent handlers control a.current a.dev = .ok () dev) :
      DriverStep handlers a (a.afterDispatch control consumed dev)
  | advance (consumed : ℕ) (h : a.stage = .advance consumed) : DriverStep handlers a (a.advanceEntry consumed)
  | finish (consumed : ℕ) (h : a.stage = .finish consumed) : DriverStep handlers a (a.finishDrain consumed)

/-- A step of the driver or of a controller that stays within the entries ERDP has released. -/
inductive EventStep (handlers : EventHandlers D) (a : EventSystem D) : EventSystem D → Prop
  | driver (b : EventSystem D) (h : DriverStep handlers a b) : EventStep handlers a b
  | write (ev : Trb) (hidle : a.writing = none) (hroom : a.written.length < a.released + 256) :
      EventStep handlers a (a.writeEvent ev)
  | commit (ev : Trb) (h : a.writing = some ev) : EventStep handlers a (a.commitEvent ev)

def EventRun (handlers : EventHandlers D) : EventSystem D → EventSystem D → Prop :=
  Relation.ReflTransGen (EventStep handlers)

end Borgos.Usb
