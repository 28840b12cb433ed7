import Borgos.Usb.EndpointRing
import Borgos.Usb.EndpointSpec

/-! # The life of an endpoint request

Submits, Configure Endpoint waits, looks of the controller at the rings, transfer events and completion callbacks in any
order. A submit that has to configure its endpoint waits in the middle, and others may run meanwhile.
-/
namespace Borgos.Usb
open Borgos.Foundations Borgos.Mem
set_option autoImplicit false

/-! ## The system -/

/-- The slot and the endpoint of a transfer event. -/
def eventSlot (ev : Trb) : ℕ := (xhciTrbGetSlot ev.control).toNat

def eventDci (ev : Trb) : ℕ := (xhciEvtEpId ev.control).toNat

/-- A Normal TRB with IOC: the controller posts an event for it. -/
def Trb.reports (t : Trb) : Bool := t.type = 1#6 && t.control.getLsbD 5

/-- The driver; of the controller, where it reads the ring of each configured endpoint, the endpoints whose doorbell it
has heard, the number of doorbell writes it has heard, and the transfer events that it has posted and the driver has not
handled; and what is under way: the TRBs of accepted submits whose event has not been handled, each with the number of
its submit and its request; the requests as they were submitted; the submits that wait for Configure Endpoint; the
request whose callback runs; how many submits were accepted, whose events were handled and whose callbacks were
called. -/
structure EndpSystem where
  hc : Xhci
  position : ℕ → ℕ → Option TrPointer
  active : ℕ → ℕ → Bool
  heard : ℕ
  events : List Trb
  outstanding : ℕ → ℕ → List (ℕ × ℕ)
  request : ℕ → XferRequest
  waiting : List (ℕ × ℕ × ℕ)
  callback : Option ℕ
  accepted : ℕ
  processed : List ℕ
  called : List ℕ

namespace EndpSystem

def enqueueTrb (a : EndpSystem) (hc : Xhci) (slot dci r : ℕ) : EndpSystem :=
  { a with
    hc := hc
    outstanding := setCell a.outstanding slot dci (a.outstanding slot dci ++ [(a.accepted, r)])
    request := Function.update a.request a.accepted (a.hc.requests r)
    accepted := a.accepted + 1 }

/-- An event of an endpoint has been handled up to the callback: it was for the oldest TRB of the endpoint. -/
def afterEvent (a : EndpSystem) (hc : Xhci) (slot dci : ℕ) (rest : List Trb) (cb : Option ℕ) : EndpSystem :=
  { a with
    hc := hc
    events := rest
    outstanding := setCell a.outstanding slot dci (a.outstanding slot dci).tail
    callback := cb
    processed := a.processed ++ ((a.outstanding slot dci).take 1).map Prod.fst
    called := if cb = none then a.called else a.called ++ ((a.outstanding slot dci).take 1).map Prod.fst }

/-- The controller looks at a ring. A TRB that it takes and that asks for an event gets `ev`. -/
def look (a : EndpSystem) (slot dci : ℕ) (r : ProducerRing) (p : TrPointer) (ev : Trb) : EndpSystem :=
  { a with
    position := setCell a.position slot dci (some (ringView r p).consume.pointer)
    events := if (ringView r p).consume.seen.any Trb.reports then a.events ++ [ev] else a.events }

/-- The posted events of an endpoint. -/
def posted (a : EndpSystem) (slot dci : ℕ) : List Trb :=
  a.events.filter fun ev => eventSlot ev = slot ∧ eventDci ev = dci

end EndpSystem

inductive EndpStep (a : EndpSystem) : EndpSystem → Prop
  | submitRefused (page : ℕ) (cmd : Trb) (r : ℕ) (hc : Xhci)
      (h : xhcihcdSubmitEndpXferRequest page cmd r a.hc = .ok (.returned .error) hc) : EndpStep a { a with hc := hc }
  | submitAccepted (page : ℕ) (cmd : Trb) (r slot dci : ℕ) (desc : EndpointDescriptor) (hc : Xhci)
      (htarget : xhcihcdSubmitTarget r a.hc = .ok (some (slot, dci, desc)) a.hc)
      (h : xhcihcdSubmitEndpXferRequest page cmd r a.hc = .ok (.returned .ok) hc) :
      EndpStep a (a.enqueueTrb hc slot dci r)
  /-- The endpoint context has the start of the ring. The controller reports each TRB once, so a Configure Endpoint that
  was issued twice does not move it back later. -/
  | submitWaits (page : ℕ) (cmd : Trb) (r slot dci : ℕ) (hc : Xhci) (ep : Endpoint)
      (h : xhcihcdSubmitEndpXferRequest page cmd r a.hc = .ok (.configuring slot dci) hc)
      (hep : hc.eps slot dci = some ep) : EndpStep a
        { a with
          hc := hc
          waiting := (r, slot, dci) :: a.waiting
          position := setCell a.position slot dci (some ⟨v2p ep.ring.ring, true⟩) }
  | resumeRefused (r slot dci : ℕ) (cmdres : UsbResult) (hc : Xhci) (hw : (r, slot, dci) ∈ a.waiting)
      (h : xhcihcdSubmitResume r slot dci cmdres a.hc = .ok .error hc) :
      EndpStep a { a with hc := hc, waiting := a.waiting.erase (r, slot, dci) }
  | resumeAccepted (r slot dci : ℕ) (cmdres : UsbResult) (hc : Xhci) (hw : (r, slot, dci) ∈ a.waiting)
      (h : xhcihcdSubmitResume r slot dci cmdres a.hc = .ok .ok hc) :
      EndpStep a { a.enqueueTrb hc slot dci r with waiting := a.waiting.erase (r, slot, dci) }
  | hear (slot dci : ℕ) (h : a.hc.doorbells[a.heard]? = some (slot, dci)) :
      EndpStep a { a with heard := a.heard + 1, active := setCell a.active slot dci true }
  | look (slot dci : ℕ) (ep : Endpoint) (p : TrPointer) (ev : Trb) (hactive : a.active slot dci = true)
      (hep : a.hc.eps slot dci = some ep) (hpos : a.position slot dci = some p) (hslot : eventSlot ev = slot)
      (hdci : eventDci ev = dci) (hparameter : ev.parameter = p.dequeue % wordSize) :
      EndpStep a (a.look slot dci ep.ring p ev)
  | rest (slot dci : ℕ) (ep : Endpoint) (p : TrPointer) (hep : a.hc.eps slot dci = some ep)
      (hpos : a.position slot dci = some p) (hforeign : (ringView ep.ring p).current.cycle ≠ p.ccs) :
      EndpStep a { a with active := setCell a.active slot dci false }
  | event (ev : Trb) (rest : List Trb) (cb : Option ℕ) (hc : Xhci) (hidle : a.callback = none)
      (hevents : a.events = ev :: rest) (h : xhcihcdTransferComplete ev a.hc = .ok cb hc) :
      EndpStep a (a.afterEvent hc (eventSlot ev) (eventDci ev) rest cb)
  | callbackReturns : EndpStep a { a with callback := none }
  /-- Clients edit their requests, and the rest of the driver leaves the endpoints and the devices in use alone. -/
  | other (hc : Xhci) (heps : hc.eps = a.hc.eps)
      (hdev : ∀ slot, a.hc.devices slot = some true → hc.devices slot = some true)
      (hbells : a.hc.doorbells <+: hc.doorbells) : EndpStep a { a with hc := hc }

def EndpRun : EndpSystem → EndpSystem → Prop := Relation.ReflTransGen EndpStep

/-- No endpoint has been used, and no doorbell is unheard. -/
def EndpSystem.start (hc : Xhci) : EndpSystem where
  hc := hc
  position _ _ := none
  active _ _ := false
  heard := hc.doorbells.length
  events := []
  outstanding _ _ := []
  request := hc.requests
  waiting := []
  callback := none
  accepted := 0
  processed := []
  called := []

/-! ## The invariant -/

structure EndpInv (a : EndpSystem) : Prop where
  ep : ∀ slot dci ep, a.hc.eps slot dci = some ep → ep.req = (a.outstanding slot dci).head?.map Prod.snd ∧
    (ep.configured = false → ep.req = none ∧ ep.halted = false)
  noEp : ∀ slot dci, a.hc.eps slot dci = none → a.outstanding slot dci = []
  single : ∀ slot dci, (a.outstanding slot dci).length ≤ 1
  reach : ∀ slot dci, a.outstanding slot dci ≠ [] → Reachable a.hc slot dci
  waiting : ∀ r slot dci, (r, slot, dci) ∈ a.waiting → Reachable a.hc slot dci ∧ a.hc.eps slot dci ≠ none
  fresh : ∀ slot dci id r, (id, r) ∈ a.outstanding slot dci → id < a.accepted ∧ id ∉ a.processed
  distinct : ∀ slot dci slot' dci' id r r', (id, r) ∈ a.outstanding slot dci → (id, r') ∈ a.outstanding slot' dci' →
    slot = slot' ∧ dci = dci'
  processed : a.processed.Nodup ∧ ∀ id ∈ a.processed, id < a.accepted
  called : a.called.Sublist a.processed

/-- What the invariant says of one endpoint and of the TRBs that are outstanding on it. -/
structure EndpCell (cell : Option Endpoint) (trbs : List (ℕ × ℕ)) : Prop where
  ep : ∀ ep, cell = some ep →
    ep.req = trbs.head?.map Prod.snd ∧ (ep.configured = false → ep.req = none ∧ ep.halted = false)
  noEp : cell = none → trbs = []
  single : trbs.length ≤ 1

theorem EndpCell.ofConfigured {ep : Endpoint} {trbs : List (ℕ × ℕ)} (hreq : ep.req = trbs.head?.map Prod.snd)
    (hconf : ep.configured = true) (hsingle : trbs.length ≤ 1) : EndpCell (some ep) trbs := by
  refine ⟨?_, fun hnone => (Option.some_ne_none _ hnone).elim, hsingle⟩
  intro e he
  rw [← Option.some.inj he]
  refine ⟨hreq, fun hf => ?_⟩
  rw [hconf] at hf
  cases hf

theorem EndpCell.ofIdle {ep : Endpoint} (hreq : ep.req = none) (hhalted : ep.configured = false → ep.halted = false) :
    EndpCell (some ep) [] := by
  refine ⟨?_, fun _ => rfl, Nat.zero_le _⟩
  intro e he
  rw [← Option.some.inj he]
  exact ⟨hreq, fun hf => ⟨hreq, hhalted hf⟩⟩

/-- What the invariant says of the numbers of the submits. -/
structure EndpIds (a : EndpSystem) : Prop where
  fresh : ∀ slot dci id r, (id, r) ∈ a.outstanding slot dci → id < a.accepted ∧ id ∉ a.processed
  distinct : ∀ slot dci slot' dci' id r r', (id, r) ∈ a.outstanding slot dci → (id, r') ∈ a.outstanding slot' dci' →
    slot = slot' ∧ dci = dci'
  processed : a.processed.Nodup ∧ ∀ id ∈ a.processed, id < a.accepted
  called : a.called.Sublist a.processed

theorem EndpInv.start {hc : Xhci} (h : ∀ slot dci, hc.eps slot dci = none) : EndpInv (EndpSystem.start hc) where
  ep slot dci ep hep := by
    rw [show (EndpSystem.start hc).hc.eps slot dci = none from h slot dci] at hep
    cases hep
  noEp _ _ _ := rfl
  single _ _ := Nat.zero_le _
  reach _ _ hne := absurd rfl hne
  waiting _ _ _ hw := absurd hw List.not_mem_nil
  fresh _ _ _ _ hm := absurd hm List.not_mem_nil
  distinct _ _ _ _ _ _ _ hm := absurd hm List.not_mem_nil
  processed := ⟨List.nodup_nil, fun _ hm => absurd hm List.not_mem_nil⟩
  called := List.Sublist.slnil

namespace EndpInv
variable {a : EndpSystem}

theorem Reachable.mono {s s' : Xhci} {slot dci : ℕ} (h : Reachable s slot dci)
    (hdev : ∀ slot, s.devices slot = some true → s'.devices slot = some true) : Reachable s' slot dci :=
  ⟨hdev slot h.device, h.slot, h.dci⟩

theorem cell (h : EndpInv a) (slot dci : ℕ) : EndpCell (a.hc.eps slot dci) (a.outstanding slot dci) :=
  ⟨h.ep slot dci, h.noEp slot dci, h.single slot dci⟩

theorem ofCells (hcells : ∀ slot dci, EndpCell (a.hc.eps slot dci) (a.outstanding slot dci))
    (hreach : ∀ slot dci, a.outstanding slot dci ≠ [] → Reachable a.hc slot dci)
    (hwait : ∀ r slot dci, (r, slot, dci) ∈ a.waiting → Reachable a.hc slot dci ∧ a.hc.eps slot dci ≠ none)
    (hids : EndpIds a) : EndpInv a where
  ep slot dci := (hcells slot dci).ep
  noEp slot dci := (hcells slot dci).noEp
  single slot dci := (hcells slot dci).single
  reach := hreach
  waiting := hwait
  fresh := hids.fresh
  distinct := hids.distinct
  processed := hids.processed
  called := hids.called

/-- The invariant does not see the controller. -/
theorem of_same (h : EndpInv a) {b : EndpSystem} (hhc : b.hc = a.hc) (hout : b.outstanding = a.outstanding)
    (hwait : b.waiting = a.waiting) (haccepted : b.accepted = a.accepted) (hprocessed : b.processed = a.processed)
    (hcalled : b.called = a.called) : EndpInv b := by
  obtain
    ⟨hc, position, active, heard, events, outstanding, request, waiting, callback, accepted, processed, called⟩ := b
  cases hhc
  cases hout
  cases hwait
  cases haccepted
  cases hprocessed
  cases hcalled
  exact ⟨h.ep, h.noEp, h.single, h.reach, h.waiting, h.fresh, h.distinct, h.processed, h.called⟩

/-- A step that leaves the TRBs alone and changes no endpoint but in what the invariant does not see. -/
theorem quiet (h : EndpInv a) {hc : Xhci} (waiting : List (ℕ × ℕ × ℕ))
    (heps : ∀ slot dci ep', hc.eps slot dci = some ep' →
      (∃ ep, a.hc.eps slot dci = some ep ∧ ep'.req = ep.req ∧
        (ep'.configured = false → ep'.req = none ∧ ep'.halted = false)) ∨
      (a.hc.eps slot dci = none ∧ ep'.req = none ∧ (ep'.configured = false → ep'.halted = false)))
    (hkeep : ∀ slot dci, hc.eps slot dci = none → a.hc.eps slot dci = none)
    (hdev : ∀ slot, a.hc.devices slot = some true → hc.devices slot = some true)
    (hwait : ∀ r slot dci, (r, slot, dci) ∈ waiting → (r, slot, dci) ∈ a.waiting ∨
      (Reachable hc slot dci ∧ hc.eps slot dci ≠ none)) :
    EndpInv { a with hc := hc, waiting := waiting } where
  ep slot dci ep' hep := by
    rcases heps slot dci ep' hep with ⟨ep, hold, hreq, hconf⟩ | ⟨hnone, hreq, hconf⟩
    · exact ⟨hreq.trans (h.ep slot dci ep hold).1, hconf⟩
    · refine ⟨?_, fun hc' => ⟨hreq, hconf hc'⟩⟩
      rw [hreq]
      show none = (a.outstanding slot dci).head?.map Prod.snd
      rw [h.noEp slot dci hnone]
      rfl
  noEp slot dci hnone := h.noEp slot dci (hkeep slot dci hnone)
  single := h.single
  reach slot dci hne := Reachable.mono (h.reach slot dci hne) hdev
  waiting r slot dci hw := by
    rcases hwait r slot dci hw with hw | hw
    · obtain ⟨hr, he⟩ := h.waiting r slot dci hw
      exact ⟨Reachable.mono hr hdev, fun e => he (hkeep slot dci e)⟩
    · exact hw
  fresh := h.fresh
  distinct := h.distinct
  processed := h.processed
  called := h.called

/-- A submit that came back with an error changed nothing but an endpoint that was not there. -/
theorem refused (h : EndpInv a) {hc : Xhci} (hdev : hc.devices = a.hc.devices)
    (hsame : ∀ slot dci, hc.eps slot dci = a.hc.eps slot dci ∨
      (a.hc.eps slot dci = none ∧ hc.eps slot dci = some Endpoint.zeroed)) : EndpInv { a with hc := hc } := by
  refine h.quiet a.waiting ?_ ?_ (fun slot hs => by rw [hdev]; exact hs) fun r slot dci hw => Or.inl hw
  · intro slot dci ep' hep
    rcases hsame slot dci with e | ⟨hnone, hz⟩
    · rw [e] at hep
      exact Or.inl ⟨ep', hep, rfl, (h.ep slot dci ep' hep).2⟩
    · rw [hz] at hep
      rw [← Option.some.inj hep]
      exact Or.inr ⟨hnone, rfl, fun _ => rfl⟩
  · intro slot dci hnone
    rcases hsame slot dci with e | ⟨hn, -⟩
    · rw [← e]
      exact hnone
    · exact hn

/-- The endpoint has no request, so nothing is outstanding on it. -/
theorem outstanding_nil (h : EndpInv a) {slot dci : ℕ} {ep : Endpoint} (hep : a.hc.eps slot dci = some ep)
    (hreq : ep.req = none) : a.outstanding slot dci = [] := by
  have hhead := (h.ep slot dci ep hep).1
  rw [hreq] at hhead
  cases hout : a.outstanding slot dci with
  | nil => rfl
  | cons t rest =>
    rw [hout] at hhead
    cases hhead

/-- Nothing is outstanding on an endpoint that is not configured. -/
theorem outstanding_of_unconfigured (h : EndpInv a) {slot dci : ℕ} {ep : Endpoint}
    (hep : a.hc.eps slot dci = some ep ∨ (a.hc.eps slot dci = none ∧ ep = Endpoint.zeroed))
    (hconf : ep.configured = false) :
    a.outstanding slot dci = [] := by
  rcases hep with hep | ⟨hnone, -⟩
  · exact h.outstanding_nil hep ((h.ep slot dci ep hep).2 hconf).1
  · exact h.noEp slot dci hnone

/-- One endpoint changes, with what is outstanding on it. A submit that begins to wait waits for this endpoint. -/
theorem replace (h : EndpInv a) {b : EndpSystem} {slot dci : ℕ} {ep' : Endpoint} (hreach : Reachable a.hc slot dci)
    (hdev : b.hc.devices = a.hc.devices) (heps : b.hc.eps = setCell a.hc.eps slot dci (some ep'))
    (hcell : EndpCell (some ep') (b.outstanding slot dci))
    (helse : ∀ slot' dci', ¬(slot' = slot ∧ dci' = dci) → b.outstanding slot' dci' = a.outstanding slot' dci')
    (hwait : ∀ r slot' dci', (r, slot', dci') ∈ b.waiting → (r, slot', dci') ∈ a.waiting ∨ (slot' = slot ∧ dci' = dci))
    (hids : EndpIds b) : EndpInv b := by
  have hmono : ∀ slot' dci', Reachable a.hc slot' dci' → Reachable b.hc slot' dci' := fun _ _ hr =>
    Reachable.mono hr fun s hs => by rw [hdev]; exact hs
  have hcells : ∀ slot' dci', EndpCell (b.hc.eps slot' dci') (b.outstanding slot' dci') := by
    intro slot' dci'
    rw [heps]
    by_cases hc' : slot' = slot ∧ dci' = dci
    · rw [hc'.1, hc'.2, setCell_self]
      exact hcell
    · rw [setCell_ne _ _ _ _ hc', helse _ _ hc']
      exact h.cell slot' dci'
  refine .ofCells hcells ?_ ?_ hids
  · intro slot' dci' hne
    by_cases hc' : slot' = slot ∧ dci' = dci
    · rw [hc'.1, hc'.2]
      exact hmono _ _ hreach
    · rw [helse _ _ hc'] at hne
      exact hmono _ _ (h.reach slot' dci' hne)
  · intro r slot' dci' hw
    rw [heps, Ne, setCell_some_eq_none]
    rcases hwait r slot' dci' hw with hw | hc'
    · obtain ⟨hr, he⟩ := h.waiting r slot' dci' hw
      exact ⟨hmono _ _ hr, fun hn => he hn.2⟩
    · refine ⟨?_, fun hn => hn.1 hc'⟩
      rw [hc'.1, hc'.2]
      exact hmono _ _ hreach

/-- A request is queued on an endpoint without one. -/
theorem accepted (h : EndpInv a) {hc : Xhci} {slot dci r : ℕ} {ep ep' : Endpoint} (hreach : Reachable a.hc slot dci)
    (hdev : hc.devices = a.hc.devices) (hep : a.hc.eps slot dci = some ep) (hreq : ep.req = none)
    (heps : hc.eps = setCell a.hc.eps slot dci (some ep')) (hreq' : ep'.req = some r) (hconf : ep'.configured = true)
    (waiting : List (ℕ × ℕ × ℕ)) (hwait : ∀ w ∈ waiting, w ∈ a.waiting) :
    EndpInv { a.enqueueTrb hc slot dci r with waiting := waiting } := by
  have hout : (a.enqueueTrb hc slot dci r).outstanding slot dci = [(a.accepted, r)] := by
    refine (setCell_self _ _ _ _).trans ?_
    rw [h.outstanding_nil hep hreq, List.nil_append]
  have helse : ∀ slot' dci', ¬(slot' = slot ∧ dci' = dci) →
      (a.enqueueTrb hc slot dci r).outstanding slot' dci' = a.outstanding slot' dci' :=
    fun slot' dci' hc' => setCell_ne _ _ _ _ hc'
  have hmem : ∀ slot' dci' t, t ∈ (a.enqueueTrb hc slot dci r).outstanding slot' dci' →
      ((slot' = slot ∧ dci' = dci) ∧ t = (a.accepted, r)) ∨ t ∈ a.outstanding slot' dci' := by
    intro slot' dci' t ht
    by_cases hc' : slot' = slot ∧ dci' = dci
    · rw [hc'.1, hc'.2, hout] at ht
      exact Or.inl ⟨hc', List.mem_singleton.mp ht⟩
    · rw [helse _ _ hc'] at ht
      exact Or.inr ht
  have hcell : EndpCell (some ep') ((a.enqueueTrb hc slot dci r).outstanding slot dci) := by
    rw [hout]
    exact .ofConfigured hreq' hconf le_rfl
  refine h.replace hreach hdev heps hcell helse (fun _ _ _ hw => Or.inl (hwait _ hw)) ⟨?_, ?_, ?_, h.called⟩
  · intro slot' dci' id r' hm
    show id < a.accepted + 1 ∧ id ∉ a.processed
    rcases hmem slot' dci' _ hm with ⟨-, e⟩ | hm
    · obtain ⟨rfl, -⟩ := Prod.mk.inj e
      exact ⟨Nat.lt_succ_self _, fun hp => lt_irrefl _ (h.processed.2 _ hp)⟩
    · obtain ⟨hlt, hnp⟩ := h.fresh slot' dci' id r' hm
      exact ⟨hlt.trans (Nat.lt_succ_self _), hnp⟩
  · intro s₁ d₁ s₂ d₂ id r₁ r₂ h₁ h₂
    rcases hmem s₁ d₁ _ h₁ with ⟨hc₁, e⟩ | h₁
    · obtain ⟨rfl, -⟩ := Prod.mk.inj e
      rcases hmem s₂ d₂ _ h₂ with ⟨hc₂, -⟩ | h₂
      · exact ⟨hc₁.1.trans hc₂.1.symm, hc₁.2.trans hc₂.2.symm⟩
      · exact absurd (h.fresh s₂ d₂ _ _ h₂).1 (lt_irrefl _)
    · rcases hmem s₂ d₂ _ h₂ with ⟨-, e⟩ | h₂
      · obtain ⟨rfl, -⟩ := Prod.mk.inj e
        exact absurd (h.fresh s₁ d₁ _ _ h₁).1 (lt_irrefl _)
      · exact h.distinct s₁ d₁ s₂ d₂ id r₁ r₂ h₁ h₂
  · exact ⟨h.processed.1, fun id hid => (h.processed.2 id hid).trans (Nat.lt_succ_self _)⟩

/-- The endpoint of a TRB that is outstanding, and what its event finds there. -/
theorem outstanding_ep (h : EndpInv a) {slot dci id r : ℕ} (hout : (id, r) ∈ a.outstanding slot dci) :
    ∃ ep, a.hc.eps slot dci = some ep ∧ ep.req = some r ∧ a.outstanding slot dci = [(id, r)] := by
  have hone := h.single slot dci
  have hlist : a.outstanding slot dci = [(id, r)] := by
    cases hl : a.outstanding slot dci with
    | nil =>
      rw [hl] at hout
      cases hout
    | cons t rest =>
      rw [hl] at hout hone
      have hrest : rest = [] := List.length_eq_zero_iff.mp (by simpa using hone)
      rw [hrest] at hout ⊢
      rw [List.mem_singleton.mp hout]
  cases hep : a.hc.eps slot dci with
  | none =>
    rw [h.noEp slot dci hep] at hout
    cases hout
  | some ep =>
    refine ⟨ep, rfl, ?_, hlist⟩
    rw [(h.ep slot dci ep hep).1, hlist]
    rfl

theorem configured_of_req (h : EndpInv a) {slot dci r : ℕ} {ep : Endpoint} (hep : a.hc.eps slot dci = some ep)
    (hreq : ep.req = some r) : ep.configured = true := by
  by_contra hnot
  rw [((h.ep slot dci ep hep).2 (by simpa using hnot)).1] at hreq
  cases hreq

theorem event (h : EndpInv a) {slot dci id r : ℕ} {trb : Trb} {cb : Option ℕ} {hc : Xhci}
    (hout : (id, r) ∈ a.outstanding slot dci) (hslot : eventSlot trb = slot) (hdci : eventDci trb = dci)
    (hrun : xhcihcdTransferComplete trb a.hc = .ok cb hc) (rest : List Trb) :
    EndpInv (a.afterEvent hc slot dci rest cb) := by
  obtain ⟨ep, hep, hreq, hlist⟩ := h.outstanding_ep hout
  have hreach := h.reach slot dci (List.ne_nil_of_mem hout)
  rw [transferComplete_spec hslot hdci hreach hep hreq] at hrun
  obtain ⟨-, hhc⟩ := Outcome.ok.inj hrun
  obtain ⟨ep', heps, hreq', hconf'⟩ : ∃ ep' : Endpoint, hc.eps = setCell a.hc.eps slot dci (some ep') ∧
      ep'.req = none ∧ ep'.configured = ep.configured := by
    rw [← hhc]
    exact ⟨_, completeRequest_eps _ _ _ _ _ _ _, rfl, rfl⟩
  have hnil : (a.afterEvent hc slot dci rest cb).outstanding slot dci = [] := by
    refine (setCell_self _ _ _ _).trans ?_
    rw [hlist]
    rfl
  have helse : ∀ slot' dci', ¬(slot' = slot ∧ dci' = dci) →
      (a.afterEvent hc slot dci rest cb).outstanding slot' dci' = a.outstanding slot' dci' :=
    fun slot' dci' hc' => setCell_ne _ _ _ _ hc'
  have hids : ((a.outstanding slot dci).take 1).map Prod.fst = [id] := by
    rw [hlist]
    rfl
  have hmem : ∀ slot' dci' t, t ∈ (a.afterEvent hc slot dci rest cb).outstanding slot' dci' →
      ¬(slot' = slot ∧ dci' = dci) ∧ t ∈ a.outstanding slot' dci' := by
    intro slot' dci' t ht
    by_cases hc' : slot' = slot ∧ dci' = dci
    · rw [hc'.1, hc'.2, hnil] at ht
      cases ht
    · rw [helse _ _ hc'] at ht
      exact ⟨hc', ht⟩
  have hid := h.fresh slot dci id r hout
  have hcell : EndpCell (some ep') ((a.afterEvent hc slot dci rest cb).outstanding slot dci) := by
    rw [hnil]
    exact .ofConfigured hreq' (hconf'.trans (h.configured_of_req hep hreq)) (Nat.zero_le _)
  refine h.replace hreach (by rw [← hhc]; rfl) heps hcell helse (fun _ _ _ hw => Or.inl hw) ⟨?_, ?_, ?_, ?_⟩
  · intro slot' dci' id' r' hm
    obtain ⟨hne, hm⟩ := hmem slot' dci' _ hm
    obtain ⟨hlt, hnp⟩ := h.fresh slot' dci' id' r' hm
    refine ⟨hlt, fun hp => ?_⟩
    have hp : id' ∈ a.processed ++ ((a.outstanding slot dci).take 1).map Prod.fst := hp
    rw [hids] at hp
    rcases List.mem_append.mp hp with hp | hp
    · exact hnp hp
    · have e : id' = id := List.mem_singleton.mp hp
      rw [e] at hm
      exact hne (h.distinct slot' dci' slot dci id r' r hm hout)
  · intro s₁ d₁ s₂ d₂ id' r₁ r₂ h₁ h₂
    exact h.distinct s₁ d₁ s₂ d₂ id' r₁ r₂ (hmem s₁ d₁ _ h₁).2 (hmem s₂ d₂ _ h₂).2
  · show (a.processed ++ ((a.outstanding slot dci).take 1).map Prod.fst).Nodup ∧
      ∀ id' ∈ a.processed ++ ((a.outstanding slot dci).take 1).map Prod.fst, id' < a.accepted
    rw [hids]
    refine ⟨List.nodup_append.mpr ⟨h.processed.1, List.nodup_singleton id, ?_⟩, ?_⟩
    · intro x hx y hy e
      rw [List.mem_singleton.mp hy] at e
      exact hid.2 (e ▸ hx)
    · intro id' hm
      rcases List.mem_append.mp hm with hm | hm
      · exact h.processed.2 id' hm
      · rw [List.mem_singleton.mp hm]
        exact hid.1
  · show (if cb = none then a.called else a.called ++ ((a.outstanding slot dci).take 1).map Prod.fst).Sublist
      (a.processed ++ ((a.outstanding slot dci).take 1).map Prod.fst)
    rw [hids]
    split
    · exact h.called.trans (List.sublist_append_left _ _)
    · exact h.called.append (List.Sublist.refl _)

/-- Configure Endpoint has been issued, on a ring that is new. -/
theorem configuring (h : EndpInv a) {hc : Xhci} {r slot dci v : ℕ} {ep : Endpoint} (hreach : Reachable a.hc slot dci)
    (hdev : hc.devices = a.hc.devices)
    (hep : a.hc.eps slot dci = some ep ∨ (a.hc.eps slot dci = none ∧ ep = Endpoint.zeroed))
    (hconf : ep.configured = false) (heps : hc.eps = setCell a.hc.eps slot dci (some
      { ep with
        ring := ProducerRing.init v
        req := none
        halted := false })) : EndpInv { a with hc := hc, waiting := (r, slot, dci) :: a.waiting } := by
  have hcell : EndpCell (some { ep with ring := ProducerRing.init v, req := none, halted := false })
      (a.outstanding slot dci) := by
    rw [h.outstanding_of_unconfigured hep hconf]
    exact .ofIdle rfl fun _ => rfl
  refine h.replace hreach hdev heps hcell (fun _ _ _ => rfl) ?_ ⟨h.fresh, h.distinct, h.processed, h.called⟩
  intro r' slot' dci' hw
  rcases List.mem_cons.mp hw with e | hw
  · obtain ⟨-, e₂⟩ := Prod.mk.inj e
    exact Or.inr (Prod.mk.inj e₂)
  · exact Or.inl hw

/-- A wait is over. -/
theorem unwait (h : EndpInv a) (w : ℕ × ℕ × ℕ) : EndpInv { a with waiting := a.waiting.erase w } :=
  h.quiet _ (fun slot dci ep he => Or.inl ⟨ep, he, rfl, (h.ep slot dci ep he).2⟩) (fun _ _ hn => hn) (fun _ hs => hs)
    fun _ _ _ hm => Or.inl (List.mem_of_mem_erase hm)

/-- The endpoint has been configured. -/
theorem configured (h : EndpInv a) {slot dci : ℕ} {ep : Endpoint} (hreach : Reachable a.hc slot dci)
    (hep : a.hc.eps slot dci = some ep) :
    EndpInv { a with hc := a.hc.setEp slot dci { ep with configured := true } } :=
  h.replace hreach rfl rfl (.ofConfigured (h.ep slot dci ep hep).1 rfl (h.single slot dci)) (fun _ _ _ => rfl)
    (fun _ _ _ hw => Or.inl hw) ⟨h.fresh, h.distinct, h.processed, h.called⟩

end EndpInv

end Borgos.Usb
