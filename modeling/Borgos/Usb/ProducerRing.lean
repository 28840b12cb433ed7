import Borgos.Usb.Trb

/-! # `xhci_hcd.c`: producer rings

The command ring and the transfer rings are pages of 256 TRBs, the last of which is a Link TRB back to the
start. `xhcihcd_ring_enqueue` writes the words of a TRB one after the other while the controller may read
the ring at any time, so besides the function itself the model has its stores as separate stages.
-/
namespace Borgos.Usb
open Borgos.Mem
set_option autoImplicit false

/-- A ring at the virtual address `ring`, with `*enqueue_slot` and `*cyclebit` of its owner. -/
structure ProducerRing where
  ring : ℕ
  trbs : ℕ → Trb
  enqueueSlot : ℕ
  cyclebit : Bool

/-- The control word of the Link TRB, before the cycle bit. -/
def linkControl : BitVec 32 := xhciTrbSetType xhciTrbLink ||| xhciTrbTc

/-- `xhcihcd_ring_init`. -/
def xhcihcdRingInit (ring : ℕ) : ℕ → Trb :=
  Function.update (fun _ => Trb.zero) xhciRingUsableTrbs
    ⟨BitVec.ofNat 32 (v2p ring), BitVec.ofNat 32 (v2p ring / 2 ^ 32), 0#32, linkControl⟩

namespace ProducerRing

/-- A ring after `xhcihcd_ring_init`, with enqueue 0 and cycle 1. -/
def init (ring : ℕ) : ProducerRing := ⟨ring, xhcihcdRingInit ring, 0, true⟩

def setTrb (r : ProducerRing) (i : ℕ) (t : Trb) : ProducerRing :=
  { r with trbs := Function.update r.trbs i t }

/-- `ring[*enqueue_slot]`. -/
def slot (r : ProducerRing) : Trb := r.trbs r.enqueueSlot

/-! ## The stores of `xhcihcd_ring_enqueue` -/

def storeParameterLo (r : ProducerRing) (trb : Trb) : ProducerRing :=
  r.setTrb r.enqueueSlot { r.slot with parameterLo := trb.parameterLo }

def storeParameterHi (r : ProducerRing) (trb : Trb) : ProducerRing :=
  r.setTrb r.enqueueSlot { r.slot with parameterHi := trb.parameterHi }

def storeStatus (r : ProducerRing) (trb : Trb) : ProducerRing :=
  r.setTrb r.enqueueSlot { r.slot with status := trb.status }

def storeControl (r : ProducerRing) (trb : Trb) : ProducerRing :=
  r.setTrb r.enqueueSlot { r.slot with control := withCycle trb.control r.cyclebit }

def advance (r : ProducerRing) : ProducerRing := { r with enqueueSlot := r.enqueueSlot + 1 }

/-- The Link TRB with the current cycle. -/
def storeLink (r : ProducerRing) : ProducerRing :=
  r.setTrb xhciRingUsableTrbs { r.trbs xhciRingUsableTrbs with
    control := if r.cyclebit then linkControl ||| xhciTrbCycle else linkControl }

def wrap (r : ProducerRing) : ProducerRing := { r with enqueueSlot := 0, cyclebit := !r.cyclebit }

end ProducerRing

/-- `xhcihcd_ring_enqueue`. -/
def xhcihcdRingEnqueue (r : ProducerRing) (trb : Trb) : ProducerRing :=
  let r := (((r.storeParameterLo trb).storeParameterHi trb).storeStatus trb).storeControl trb
  let r := r.advance
  if r.enqueueSlot ≥ xhciRingUsableTrbs then r.storeLink.wrap else r

/-- Where a call of `xhcihcd_ring_enqueue` stands: the store it makes next. -/
inductive EnqueueStage where
  | idle
  | parameterHi (trb : Trb)
  | status (trb : Trb)
  | control (trb : Trb)
  | advance
  | link
  | wrap
deriving DecidableEq

def enqueueStep : EnqueueStage × ProducerRing → EnqueueStage × ProducerRing
  | (.idle, r) => (.idle, r)
  | (.parameterHi trb, r) => (.status trb, r.storeParameterHi trb)
  | (.status trb, r) => (.control trb, r.storeStatus trb)
  | (.control trb, r) => (.advance, r.storeControl trb)
  | (.advance, r) => (if r.advance.enqueueSlot ≥ xhciRingUsableTrbs then .link else .idle, r.advance)
  | (.link, r) => (.wrap, r.storeLink)
  | (.wrap, r) => (.idle, r.wrap)

/-- The stages, run to their end, are `xhcihcd_ring_enqueue`. -/
theorem enqueueStep_eq (r : ProducerRing) (trb : Trb) :
    enqueueStep^[6] (.parameterHi trb, r.storeParameterLo trb) = (.idle, xhcihcdRingEnqueue r trb) := by
  obtain ⟨x, hx⟩ : ∃ x, x = (((r.storeParameterLo trb).storeParameterHi trb).storeStatus trb).storeControl trb :=
    ⟨_, rfl⟩
  have h3 : enqueueStep^[3] (.parameterHi trb, r.storeParameterLo trb) = (.advance, x) := by
    rw [hx]
    rfl
  have hend : xhcihcdRingEnqueue r trb =
      if x.advance.enqueueSlot ≥ xhciRingUsableTrbs then x.advance.storeLink.wrap else x.advance := by
    rw [hx]
    rfl
  rw [Function.iterate_add_apply enqueueStep 3 3, h3, hend]
  have h1 : enqueueStep (.advance, x) =
      (if x.advance.enqueueSlot ≥ xhciRingUsableTrbs then .link else .idle, x.advance) := rfl
  have h33 : enqueueStep^[3] (.advance, x) = enqueueStep^[2] (enqueueStep (.advance, x)) := rfl
  rw [h33, h1]
  split
  · rfl
  · rfl

/-! ## The controller's side -/

/-- A ring between the driver and the controller. The controller has a dequeue pointer and a cycle state;
`enqueued` are the TRBs passed to `xhcihcd_ring_enqueue` so far, `seen` those the controller has taken. -/
structure TrbSystem where
  producer : ProducerRing
  stage : EnqueueStage
  dequeue : ℕ
  ccs : Bool
  enqueued : List Trb
  seen : List Trb

namespace TrbSystem

def start (ring : ℕ) : TrbSystem := ⟨ProducerRing.init ring, .idle, v2p ring, true, [], []⟩

/-- A call begins with the store of the first word. -/
def call (a : TrbSystem) (trb : Trb) : TrbSystem :=
  { a with
    producer := a.producer.storeParameterLo trb
    stage := .parameterHi trb
    enqueued := a.enqueued ++ [trb] }

/-- The call makes its next store. -/
def produce (a : TrbSystem) : TrbSystem :=
  { a with
    producer := (enqueueStep (a.stage, a.producer)).2
    stage := (enqueueStep (a.stage, a.producer)).1 }

/-- The TRB the dequeue pointer points at. -/
def current (a : TrbSystem) : Trb := a.producer.trbs ((a.dequeue - v2p a.producer.ring) / xhciTrbSize)

/-- One step of the controller: nothing while it does not own the TRB, follow a Link TRB, take any other. -/
def consume (a : TrbSystem) : TrbSystem :=
  if a.current.cycle ≠ a.ccs then a
  else if xhciTrbType a.current.control = xhciTrbLink then
    { a with
      dequeue := a.current.parameter
      ccs := if a.current.control &&& xhciTrbTc ≠ 0#32 then !a.ccs else a.ccs }
  else
    { a with
      dequeue := a.dequeue + xhciTrbSize
      seen := a.seen ++ [a.current] }

end TrbSystem

/-- The driver calls `xhcihcd_ring_enqueue` only while fewer than 255 TRBs are outstanding, and never with a
Link TRB. The Link TRB of a lap is handed over in states with `handover`. -/
inductive TrbStep (handover : TrbSystem → Prop) (a : TrbSystem) : TrbSystem → Prop
  | call (trb : Trb) (hidle : a.stage = .idle) (hlink : xhciTrbType trb.control ≠ xhciTrbLink)
      (hout : a.enqueued.length < a.seen.length + 255) : TrbStep handover a (a.call trb)
  | produce (h : a.stage = .link → handover a) : TrbStep handover a a.produce
  | consume : TrbStep handover a a.consume

def TrbRun (handover : TrbSystem → Prop) : TrbSystem → TrbSystem → Prop :=
  Relation.ReflTransGen (TrbStep handover)

end Borgos.Usb
