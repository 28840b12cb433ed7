import Borgos.Usb.EndpointRings

/-! # The discipline of the endpoint requests -/
namespace Borgos.Usb
open Borgos.Foundations Borgos.Mem
set_option autoImplicit false

/-! ## Halted endpoints -/

def Halted (s : Xhci) (slot dci : ℕ) : Prop := ∃ ep, s.eps slot dci = some ep ∧ ep.halted = true

/-- An update that keeps the halted flag of the endpoint keeps all of them. -/
theorem Halted.setCell {s s' : Xhci} {slot dci : ℕ} (slot₀ dci₀ : ℕ) {ep' : Endpoint} (h : Halted s slot dci)
    (heps : s'.eps = setCell s.eps slot₀ dci₀ (some ep'))
    (hkeep : ∀ ep, s.eps slot₀ dci₀ = some ep → ep.halted = true → ep'.halted = true) : Halted s' slot dci := by
  obtain ⟨ep, hep, hhalt⟩ := h
  by_cases hc : slot = slot₀ ∧ dci = dci₀
  · refine ⟨ep', ?_, hkeep ep (by rw [← hc.1, ← hc.2]; exact hep) hhalt⟩
    rw [heps, hc.1, hc.2, setCell_self]
  · refine ⟨ep, ?_, hhalt⟩
    rw [heps, setCell_ne _ _ _ _ hc]
    exact hep

theorem EndpStep.halted {a b : EndpSystem} (hok : EndpOk a) (hstep : EndpStep a b) {slot dci : ℕ}
    (hh : Halted a.hc slot dci) : Halted b.hc slot dci := by
  have h := hok.fields
  cases hstep with
  | submitRefused page cmd r hc hrun =>
    cases (submit_spec hrun).1 with
    | refused hsame =>
      obtain ⟨ep, hep, hhalt⟩ := hh
      rcases hsame slot dci with e | ⟨hnone, -⟩
      · exact ⟨ep, e.trans hep, hhalt⟩
      · rw [hnone] at hep
        cases hep
  | submitAccepted page cmd r slot' dci' desc hc htarget hrun =>
    cases (submit_spec hrun).1 with
    | queued slot₀ dci₀ desc' ep hreach htarget' hep hconf hhalt hreq hhc =>
      refine hh.setCell _ _ (by rw [show (a.enqueueTrb hc slot' dci' r).hc = hc from rfl, hhc]; rfl) ?_
      intro ep₀ hep₀ hhalt₀
      rw [hep] at hep₀
      rw [← Option.some.inj hep₀, hhalt] at hhalt₀
      cases hhalt₀
  | submitWaits page cmd r slot' dci' hc ep' hrun hnew =>
    cases (submit_spec hrun).1 with
    | configuring _ _ v desc ep hreach htarget hep hconf heps =>
      refine hh.setCell _ _ heps ?_
      intro ep₀ hep₀ hhalt₀
      rcases hep with hep | ⟨hnone, -⟩
      · rw [hep] at hep₀
        rw [← Option.some.inj hep₀, ((h.ep slot' dci' ep hep).2 hconf).2] at hhalt₀
        cases hhalt₀
      · rw [hnone] at hep₀
        cases hep₀
  | resumeRefused r slot' dci' cmdres hc hw hrun =>
    obtain ⟨ep, hep⟩ := Option.ne_none_iff_exists'.mp (h.waiting r slot' dci' hw).2
    rcases resume_spec hep hrun with ⟨-, rfl⟩ | ⟨-, rfl⟩ | ⟨hf, -⟩
    · exact hh
    · refine hh.setCell _ _ rfl ?_
      intro ep₀ hep₀ hhalt₀
      rw [hep] at hep₀
      rw [← Option.some.inj hep₀] at hhalt₀
      exact hhalt₀
    · cases hf
  | resumeAccepted r slot' dci' cmdres hc hw hrun =>
    obtain ⟨ep, hep⟩ := Option.ne_none_iff_exists'.mp (h.waiting r slot' dci' hw).2
    rcases resume_spec hep hrun with ⟨hf, -⟩ | ⟨hf, -⟩ | ⟨-, hhalt, -, hhc⟩
    · cases hf
    · cases hf
    · refine hh.setCell slot' dci'
        (by
          rw [show (EndpSystem.enqueueTrb a hc slot' dci' r).hc = hc from rfl, hhc]
          exact setEp_setEp a.hc slot' dci' _ _) ?_
      intro ep₀ hep₀ hhalt₀
      rw [hep] at hep₀
      rw [← Option.some.inj hep₀, hhalt] at hhalt₀
      cases hhalt₀
  | hear slot' dci' hbell => exact hh
  | look slot' dci' ep p ev hactive hep hpos hslot hdci hparameter => exact hh
  | rest slot' dci' ep p hep hpos hforeign => exact hh
  | event ev rest cb hc hidle hevents hrun =>
    have hmem : ev ∈ a.events := hevents ▸ List.mem_cons_self
    obtain ⟨ep, id, r, hep, -, -, -, hspec⟩ := hok.event_spec hmem
    rw [hspec] at hrun
    obtain ⟨-, rfl⟩ := Outcome.ok.inj hrun
    refine hh.setCell _ _ (completeRequest_eps _ _ _ _ _ _ _) ?_
    intro ep₀ hep₀ hhalt₀
    rw [hep] at hep₀
    rw [← Option.some.inj hep₀] at hhalt₀
    show (if _ then ep.halted else true) = true
    rw [hhalt₀, ite_self]
  | callbackReturns => exact hh
  | other hc heps hdev hbells =>
    obtain ⟨ep, hep, hhalt⟩ := hh
    refine ⟨ep, ?_, hhalt⟩
    show hc.eps slot dci = some ep
    rw [heps]
    exact hep

theorem EndpRun.halted {a b : EndpSystem} (h : EndpOk a) (hrun : EndpRun a b) {slot dci : ℕ}
    (hh : Halted a.hc slot dci) : Halted b.hc slot dci := by
  induction hrun with
  | refl => exact hh
  | tail hprev hstep ih => exact hstep.halted (EndpRun.ok h hprev) ih

/-! ## The discipline -/

/-- A call changed no `ep->req` and put no TRB on any ring that was there. -/
def Untouched (s s' : Xhci) : Prop :=
  ∀ slot dci, s'.reqOf slot dci = s.reqOf slot dci ∧
    ∀ ep, s.eps slot dci = some ep → ∃ ep', s'.eps slot dci = some ep' ∧ ep'.ring = ep.ring

/-- An accepted submit put one TRB on the ring of its endpoint, the Normal TRB of the request in the free slot with the
cycle of the lap, and then rang the doorbell. -/
structure Enqueues (s s' : Xhci) (r slot dci : ℕ) (ep ep' : Endpoint) : Prop where
  before : s.eps slot dci = some ep ∧ ep.req = none
  after : s'.eps slot dci = some ep' ∧ ep'.req = some r
  trb : NormalFor (s.requests r) (ep'.ring.trbs ep.ring.enqueueSlot)
  cycle : (ep'.ring.trbs ep.ring.enqueueSlot).cycle = ep.ring.cyclebit
  only : ∀ i < 255, i ≠ ep.ring.enqueueSlot → ep'.ring.trbs i = ep.ring.trbs i
  others : ∀ slot' dci', ¬(slot' = slot ∧ dci' = dci) → s'.eps slot' dci' = s.eps slot' dci'
  doorbell : s'.doorbells = s.doorbells ++ [(slot, dci)]

/-- What a controller that looks at the ring of an endpoint finds: nothing while nothing is outstanding, the Normal TRB
of the request and nothing else until it has taken it, and nothing until its event has been handled. -/
inductive OnRing (a : EndpSystem) (slot dci : ℕ) (r : ProducerRing) (p : TrPointer) : Prop
  | free (hout : a.outstanding slot dci = []) (hposted : a.posted slot dci = []) (hring : looksTwice r p = [])
  | unread (id req : ℕ) (x : Trb) (hout : a.outstanding slot dci = [(id, req)]) (hposted : a.posted slot dci = [])
      (hring : looksTwice r p = [x]) (htrb : NormalFor (a.request id) x) (hrung : Rung a slot dci)
  | reported (id req : ℕ) (ev : Trb) (hout : a.outstanding slot dci = [(id, req)]) (hposted : a.posted slot dci = [ev])
      (hring : looksTwice r p = [])

/-- What a posted event does: it is for TRB `id` of request `r` and calls the callback of `r`, which was not called
before for this TRB, with the endpoint free and a length within the request; after an error the endpoint is halted. -/
structure EventOutcome (a : EndpSystem) (ev : Trb) (id r : ℕ) (hc : Xhci) : Prop where
  outstanding : a.outstanding (eventSlot ev) (eventDci ev) = [(id, r)]
  run : xhcihcdTransferComplete ev a.hc = .ok (if (a.hc.requests r).hasCallback then some r else none) hc
  first : id ∉ a.processed ∧ id ∉ a.called
  cleared : hc.reqOf (eventSlot ev) (eventDci ev) = none
  actual : (hc.requests r).actualXferlen ≤ (hc.requests r).xferlen.toNat
  halts : xhciEvtCompCode ev.status ≠ xhciCcSuccess → xhciEvtCompCode ev.status ≠ xhciCcShortPacket →
    Halted hc (eventSlot ev) (eventDci ev)

structure EndpDiscipline (a : EndpSystem) : Prop where
  single : ∀ slot dci, (a.outstanding slot dci).length ≤ 1
  owner : ∀ slot dci, a.hc.reqOf slot dci = (a.outstanding slot dci).head?.map Prod.snd
  ring : ∀ slot dci p, a.position slot dci = some p →
    ∃ ep, a.hc.eps slot dci = some ep ∧ OnRing a slot dci ep.ring p
  unused : ∀ slot dci, a.position slot dci = none → a.outstanding slot dci = [] ∧ a.posted slot dci = []
  once : a.called.Nodup ∧ ∀ id ∈ a.called, id ∈ a.processed
  event : ∀ ev ∈ a.events, ∃ id r hc, EventOutcome a ev id r hc
  accepted : ∀ page cmd r hc, xhcihcdSubmitEndpXferRequest page cmd r a.hc = .ok (.returned .ok) hc →
    ∃ slot dci ep ep', Enqueues a.hc hc r slot dci ep ep'
  refused : ∀ page cmd r hc, xhcihcdSubmitEndpXferRequest page cmd r a.hc = .ok (.returned .error) hc →
    Untouched a.hc hc
  waits : ∀ page cmd r slot dci hc, xhcihcdSubmitEndpXferRequest page cmd r a.hc = .ok (.configuring slot dci) hc →
    ∀ slot' dci', hc.reqOf slot' dci' = a.hc.reqOf slot' dci'
  resumed : ∀ r slot dci cmdres hc, (r, slot, dci) ∈ a.waiting →
    (xhcihcdSubmitResume r slot dci cmdres a.hc = .ok .error hc → Untouched a.hc hc) ∧
    (xhcihcdSubmitResume r slot dci cmdres a.hc = .ok .ok hc → ∃ ep ep', Enqueues a.hc hc r slot dci ep ep')
  halted : ∀ slot dci, Halted a.hc slot dci →
    (∀ page cmd r desc st hc, xhcihcdSubmitTarget r a.hc = .ok (some (slot, dci, desc)) a.hc →
      xhcihcdSubmitEndpXferRequest page cmd r a.hc = .ok st hc → st = .returned .error) ∧
    (∀ r cmdres res hc, (r, slot, dci) ∈ a.waiting →
      xhcihcdSubmitResume r slot dci cmdres a.hc = .ok res hc → res = .error) ∧
    ∀ b, EndpRun a b → Halted b.hc slot dci

namespace EndpInv
variable {a : EndpSystem}

theorem reqOf_eq (h : EndpInv a) (slot dci : ℕ) :
    a.hc.reqOf slot dci = (a.outstanding slot dci).head?.map Prod.snd := by
  unfold Xhci.reqOf
  cases hep : a.hc.eps slot dci with
  | none =>
    rw [h.noEp slot dci hep]
    rfl
  | some ep => exact (h.ep slot dci ep hep).1

theorem untouched_of_same {s s' : Xhci} (hsame : ∀ slot dci, s'.eps slot dci = s.eps slot dci ∨
    (s.eps slot dci = none ∧ s'.eps slot dci = some Endpoint.zeroed)) : Untouched s s' := by
  intro slot dci
  unfold Xhci.reqOf
  rcases hsame slot dci with e | ⟨hnone, hz⟩
  · rw [e]
    exact ⟨rfl, fun ep hep => ⟨ep, hep, rfl⟩⟩
  · rw [hnone, hz]
    exact ⟨rfl, fun ep hep => nomatch hep⟩

theorem refuses (h : EndpInv a) {slot dci : ℕ} (hh : Halted a.hc slot dci) {page : ℕ} {cmd : Trb} {r : ℕ}
    {desc : EndpointDescriptor} {st : SubmitState} {hc : Xhci}
    (htarget : xhcihcdSubmitTarget r a.hc = .ok (some (slot, dci, desc)) a.hc)
    (hrun : xhcihcdSubmitEndpXferRequest page cmd r a.hc = .ok st hc) : st = .returned .error := by
  obtain ⟨ep, hep, hhalt⟩ := hh
  cases (submit_spec hrun).1 with
  | refused _ => rfl
  | queued slot' dci' desc' ep' hreach htarget' hep' hconf hhalt' hreq hhc =>
    rw [htarget] at htarget'
    obtain ⟨rfl, e₂⟩ := Prod.mk.inj (Option.some.inj (Outcome.ok.inj htarget').1)
    obtain ⟨rfl, -⟩ := Prod.mk.inj e₂
    rw [hep] at hep'
    rw [← Option.some.inj hep', hhalt] at hhalt'
    cases hhalt'
  | configuring slot' dci' v desc' ep' hreach htarget' hep' hconf heps =>
    rw [htarget] at htarget'
    obtain ⟨rfl, e₂⟩ := Prod.mk.inj (Option.some.inj (Outcome.ok.inj htarget').1)
    obtain ⟨rfl, -⟩ := Prod.mk.inj e₂
    rw [hep] at hep'
    rcases hep' with hep' | ⟨hnone, -⟩
    · rw [← Option.some.inj hep'] at hconf
      rw [((h.ep slot dci ep hep).2 hconf).2] at hhalt
      cases hhalt
    · cases hnone

end EndpInv

/-- One enqueue on a ring that is ready, seen from outside. -/
theorem ring_enqueued {r : ProducerRing} (hready : RingReady r) (q : XferRequest) :
    NormalFor q ((xhcihcdRingEnqueue r (normalTrb q)).trbs r.enqueueSlot) ∧
    ((xhcihcdRingEnqueue r (normalTrb q)).trbs r.enqueueSlot).cycle = r.cyclebit ∧
    ∀ i < 255, i ≠ r.enqueueSlot → (xhcihcdRingEnqueue r (normalTrb q)).trbs i = r.trbs i := by
  rw [(trbs_enqueued hready.slot (normalTrb q)).1]
  refine ⟨normalFor_of_payload (payload_handedOver r _), cycle_handedOver r _, ?_⟩
  intro i hi hne
  have hslot := hready.slot
  by_cases hlast : r.enqueueSlot = 254
  · have hne255 : i ≠ 255 := Nat.ne_of_lt hi
    have hne254 : i ≠ 254 := by omega
    rw [ringEnqueue_last hlast]
    simp only [Function.update_of_ne hne255, Function.update_of_ne hne254]
  · rw [ringEnqueue_inside (by omega)]
    exact Function.update_of_ne hne _ _

theorem enqueues_queued {s : Xhci} {r slot dci : ℕ} {ep : Endpoint} (hep : s.eps slot dci = some ep)
    (hreq : ep.req = none) (hready : RingReady ep.ring) (ep₁ : Endpoint) (hring : ep₁.ring = ep.ring) (s₁ : Xhci)
    (hsame : s₁.requests = s.requests ∧ s₁.doorbells = s.doorbells)
    (heps : ∀ slot' dci', ¬(slot' = slot ∧ dci' = dci) → s₁.eps slot' dci' = s.eps slot' dci') :
    ∃ ep', Enqueues s (queued s₁ r slot dci ep₁) r slot dci ep ep' := by
  obtain ⟨htrb, hcycle, honly⟩ := ring_enqueued hready (s.requests r)
  refine ⟨{ ep₁ with req := some r, ring := xhcihcdRingEnqueue ep₁.ring (normalTrb (s₁.requests r)) }, ⟨hep, hreq⟩,
    ⟨setCell_self _ _ _ _, rfl⟩, ?_, ?_, ?_, ?_, ?_⟩
  · rw [hring, hsame.1]
    exact htrb
  · rw [hring, hsame.1]
    exact hcycle
  · rw [hring, hsame.1]
    exact honly
  · intro slot' dci' hc'
    exact (setCell_ne _ _ _ _ hc').trans (heps slot' dci' hc')
  · show s₁.doorbells ++ [(slot, dci)] = _
    rw [hsame.2]

namespace EndpOk
variable {a : EndpSystem}

theorem ready_of_configured (h : EndpOk a) {slot dci : ℕ} {ep : Endpoint} (hep : a.hc.eps slot dci = some ep)
    (hpos : a.position slot dci ≠ none) : RingReady ep.ring := by
  obtain ⟨p, hp⟩ := Option.ne_none_iff_exists'.mp hpos
  obtain ⟨ep', hep', hholds⟩ := h.rings.holds slot dci p hp
  rw [hep] at hep'
  rw [Option.some.inj hep']
  exact hholds.ready

theorem onRing (h : EndpOk a) {slot dci : ℕ} {p : TrPointer} (hp : a.position slot dci = some p) :
    ∃ ep, a.hc.eps slot dci = some ep ∧ OnRing a slot dci ep.ring p := by
  obtain ⟨ep, hep, hholds⟩ := h.rings.holds slot dci p hp
  refine ⟨ep, hep, ?_⟩
  cases hholds with
  | empty hout hposted hready hend => exact .free hout hposted (hend.looks hready)
  | unread id req hout hposted hunread hrung =>
    obtain ⟨x, hring, hsame⟩ := hunread.looks (normalTrb_type _)
    exact .unread id req x hout hposted hring (normalFor_of_payload hsame) hrung
  | reported id req ev hout hposted hready hend => exact .reported id req ev hout hposted (hend.looks hready)

theorem eventOutcome (h : EndpOk a) {ev : Trb} (hev : ev ∈ a.events) : ∃ id r hc, EventOutcome a ev id r hc := by
  obtain ⟨ep, id, r, hep, hreq, -, hout, hspec⟩ := h.event_spec hev
  have hfresh := (h.fields.fresh _ _ id r (by rw [hout]; exact List.mem_singleton_self _)).2
  refine ⟨id, r, _, hout, hspec, ⟨hfresh, fun hm => hfresh (h.fields.called.subset hm)⟩, ?_,
    completeRequest_actual _ _ _ _ _ _ _, ?_⟩
  · unfold Xhci.reqOf
    rw [completeRequest_eps, setEp_self]
    rfl
  · intro h1 h2
    refine ⟨_, by rw [completeRequest_eps, setEp_self], ?_⟩
    show (if _ then ep.halted else true) = true
    rw [if_neg fun hc => hc.elim h1 h2]

theorem discipline (hok : EndpOk a) : EndpDiscipline a where
  single := hok.fields.single
  owner := hok.fields.reqOf_eq
  ring _ _ _ hp := hok.onRing hp
  unused slot dci hp := ⟨(hok.rings.unconfigured slot dci hp).1, (hok.rings.unconfigured slot dci hp).2.1⟩
  once := ⟨hok.fields.processed.1.sublist hok.fields.called, fun _ hm => hok.fields.called.subset hm⟩
  event _ hev := hok.eventOutcome hev
  accepted page cmd r hc hrun := by
    cases (submit_spec hrun).1 with
    | queued slot dci desc ep hreach htarget hep hconf hhalt hreq hhc =>
      have hready := hok.ready_of_configured hep (hok.configured_position hep hconf)
      rw [hhc]
      exact ⟨slot, dci, ep, enqueues_queued hep hreq hready ep rfl a.hc ⟨rfl, rfl⟩ fun _ _ _ => rfl⟩
  refused page cmd r hc hrun := by
    cases (submit_spec hrun).1 with
    | refused hsame => exact EndpInv.untouched_of_same hsame
  waits page cmd r slot dci hc hrun slot' dci' := by
    cases (submit_spec hrun).1 with
    | configuring _ _ v desc ep hreach htarget hep hconf heps =>
      unfold Xhci.reqOf
      rw [heps]
      by_cases hc' : slot' = slot ∧ dci' = dci
      · rw [hc'.1, hc'.2, setEp_self]
        rcases hep with hep | ⟨hnone, -⟩
        · rw [hep]
          exact ((hok.fields.ep slot dci ep hep).2 hconf).1.symm
        · rw [hnone]
          rfl
      · rw [setEp_ne _ _ hc']
  resumed r slot dci cmdres hc hw := by
    obtain ⟨ep, hep⟩ := Option.ne_none_iff_exists'.mp (hok.fields.waiting r slot dci hw).2
    constructor
    · intro hrun
      rcases resume_spec hep hrun with ⟨-, rfl⟩ | ⟨-, rfl⟩ | ⟨hf, -⟩
      · exact fun _ _ => ⟨rfl, fun ep hep => ⟨ep, hep, rfl⟩⟩
      · intro slot' dci'
        unfold Xhci.reqOf
        by_cases hc' : slot' = slot ∧ dci' = dci
        · rw [hc'.1, hc'.2, setEp_self, hep]
          refine ⟨rfl, fun ep₀ hep₀ => ⟨_, rfl, ?_⟩⟩
          rw [← Option.some.inj hep₀]
        · rw [setEp_ne _ _ hc']
          exact ⟨rfl, fun ep hep => ⟨ep, hep, rfl⟩⟩
      · cases hf
    · intro hrun
      rcases resume_spec hep hrun with ⟨hf, -⟩ | ⟨hf, -⟩ | ⟨-, -, hreq, rfl⟩
      · cases hf
      · cases hf
      · have hready := hok.ready_of_configured hep (hok.rings.waiting r slot dci hw)
        exact ⟨ep, enqueues_queued hep hreq hready { ep with configured := true } rfl
          (a.hc.setEp slot dci { ep with configured := true }) ⟨rfl, rfl⟩ fun _ _ hc' => setEp_ne _ _ hc'⟩
  halted slot dci hh := by
    refine ⟨fun page cmd r desc st hc ht hrun => hok.fields.refuses hh ht hrun, ?_, fun b hrun => hrun.halted hok hh⟩
    intro r cmdres res hc hw hrun
    obtain ⟨ep, hep, hhalt⟩ := hh
    rcases resume_spec hep hrun with ⟨rfl, -⟩ | ⟨rfl, -⟩ | ⟨-, hf, -⟩
    · rfl
    · rfl
    · rw [hhalt] at hf
      cases hf

end EndpOk

/-- **The life of endpoint requests**, in every interleaving of submits, waits, looks of the controller, events and
callbacks. -/
theorem endpoint_discipline (hc : Xhci) (hfresh : ∀ slot dci, hc.eps slot dci = none) (a : EndpSystem)
    (hrun : EndpRun (EndpSystem.start hc) a) : EndpDiscipline a :=
  (EndpRun.ok (EndpOk.start hfresh) hrun).discipline

/-- The event of the keyboard's first TRB. -/
def keyboardEvent : Trb := ⟨0x300000#32, 0#32, 0x01000000#32, 0x01038001#32⟩

/-- The address of a ring, and whether its first TRB asks for an event. -/
def startOf (ep : Endpoint) : ℕ × Bool :=
  (ep.ring.ring, (ringView ep.ring ⟨v2p ep.ring.ring, true⟩).consume.seen.any Trb.reports)

/-- The first submit of the keyboard, its Configure Endpoint and its event: the driver's functions in turn. -/
theorem keyboard_calls : ∃ hc₁ hc₂ hc₃ ep₁ ep₂,
    xhcihcdSubmitEndpXferRequest 0xFFFF800000300000 Trb.zero 0 keyboardHc = .ok (.configuring 1 3) hc₁ ∧
    xhcihcdSubmitResume 0 1 3 .ok hc₁ = .ok .ok hc₂ ∧ xhcihcdTransferComplete keyboardEvent hc₂ = .ok (some 0) hc₃ ∧
    hc₁.eps 1 3 = some ep₁ ∧ hc₂.eps 1 3 = some ep₂ ∧ hc₂.doorbells = [(0, 0), (1, 3)] ∧
    ep₁.ring.ring = 0xFFFF800000300000 ∧ startOf ep₂ = (0xFFFF800000300000, true) := by
  obtain ⟨hc, hrun⟩ := Outcome.exists_of_value
    (a := ((SubmitState.configuring 1 3, UsbResult.ok, some 0), true))
    (x := (do
      let st ← xhcihcdSubmitEndpXferRequest 0xFFFF800000300000 Trb.zero 0
      let s₁ ← Prog.get
      let res ← xhcihcdSubmitResume 0 1 3 .ok
      let s₂ ← Prog.get
      let cb ← xhcihcdTransferComplete keyboardEvent
      pure ((st, res, cb), decide ((s₁.eps 1 3).map startOf = some (0xFFFF800000300000, false) ∧
        (s₂.eps 1 3).map startOf = some (0xFFFF800000300000, true) ∧ s₂.doorbells = [(0, 0), (1, 3)]))) keyboardHc)
    (by decide +kernel)
  obtain ⟨st, hc₁, hsubmit, hrun⟩ := Prog.bind_ok.mp hrun
  obtain ⟨_, _, hget, hrun⟩ := Prog.bind_ok.mp hrun
  obtain ⟨rfl, rfl⟩ := Outcome.ok.inj hget
  obtain ⟨res, hc₂, hresume, hrun⟩ := Prog.bind_ok.mp hrun
  obtain ⟨_, _, hget, hrun⟩ := Prog.bind_ok.mp hrun
  obtain ⟨rfl, rfl⟩ := Outcome.ok.inj hget
  obtain ⟨cb, hc₃, hcomplete, hrun⟩ := Prog.bind_ok.mp hrun
  obtain ⟨e, -⟩ := Outcome.ok.inj hrun
  obtain ⟨ecalls, estates⟩ := Prod.mk.inj e
  obtain ⟨rfl, e₂⟩ := Prod.mk.inj ecalls
  obtain ⟨rfl, rfl⟩ := Prod.mk.inj e₂
  obtain ⟨h₁, h₂, hbells⟩ := of_decide_eq_true estates
  obtain ⟨ep₁, hep₁, hstart₁⟩ := Option.map_eq_some_iff.mp h₁
  obtain ⟨ep₂, hep₂, hstart₂⟩ := Option.map_eq_some_iff.mp h₂
  exact ⟨hc₁, hc₂, hc₃, ep₁, ep₂, hsubmit, hresume, hcomplete, hep₁, hep₂, hbells, (Prod.mk.inj hstart₁).1, hstart₂⟩

/-- The first submit of the keyboard waits for Configure Endpoint and is accepted; the controller hears the doorbell,
takes the TRB and posts its event; and the callback is called. -/
theorem endpoint_discipline_keyboard : ∃ a, EndpRun (EndpSystem.start keyboardHc) a ∧ a.accepted = 1 ∧ a.called = [0] ∧
    a.outstanding 1 3 = [] ∧ a.hc.reqOf 1 3 = none ∧ EndpDiscipline a := by
  have hfresh : ∀ slot dci, keyboardHc.eps slot dci = none := fun _ _ => rfl
  obtain ⟨hc₁, hc₂, hc₃, ep₁, ep₂, hsubmit, hresume, hcomplete, hep₁, hep₂, hbells, hring₁, hstart⟩ := keyboard_calls
  obtain ⟨hring₂, hreports⟩ := Prod.mk.inj hstart
  obtain ⟨p, hp⟩ : ∃ p : TrPointer, p = ⟨v2p ep₁.ring.ring, true⟩ := ⟨_, rfl⟩
  obtain ⟨a₁, ha₁⟩ : ∃ a₁ : EndpSystem, a₁ = { EndpSystem.start keyboardHc with
      hc := hc₁
      waiting := [(0, 1, 3)]
      position := setCell (fun _ _ => none) 1 3 (some p) } := ⟨_, rfl⟩
  obtain ⟨a₂, ha₂⟩ : ∃ a₂ : EndpSystem, a₂ = { a₁.enqueueTrb hc₂ 1 3 0 with
      waiting := a₁.waiting.erase (0, 1, 3)
      heard := 2
      active := setCell (setCell (fun _ _ => false) 0 0 true) 1 3 true } := ⟨_, rfl⟩
  have hrun₁ : EndpRun (EndpSystem.start keyboardHc) a₁ := by
    rw [ha₁, hp]
    exact Relation.ReflTransGen.single (.submitWaits _ _ 0 1 3 hc₁ ep₁ hsubmit hep₁)
  have hwaiting : (0, 1, 3) ∈ a₁.waiting := by
    rw [ha₁]
    exact List.mem_cons_self
  have hrun₂ : EndpRun (EndpSystem.start keyboardHc) a₂ := by
    have hhc : a₁.hc = hc₁ := by rw [ha₁]
    have hheard : a₁.heard = 0 := by
      rw [ha₁]
      rfl
    have hactive : a₁.active = fun _ _ => false := by
      rw [ha₁]
      rfl
    have hrun := hrun₁.tail (.resumeAccepted 0 1 3 .ok hc₂ hwaiting (by rw [hhc]; exact hresume))
    have hrun := hrun.tail (.hear 0 0 (by show hc₂.doorbells[a₁.heard]? = _; rw [hbells, hheard]; rfl))
    have hrun := hrun.tail (.hear 1 3 (by show hc₂.doorbells[a₁.heard + 1]? = _; rw [hbells, hheard]; rfl))
    have hsame : { a₁.enqueueTrb hc₂ 1 3 0 with
        waiting := a₁.waiting.erase (0, 1, 3)
        heard := a₁.heard + 1 + 1
        active := setCell (setCell a₁.active 0 0 true) 1 3 true } = a₂ := by rw [ha₂, hheard, hactive]
    rw [← hsame]
    exact hrun
  have hpos : a₂.position 1 3 = some p := by
    rw [ha₂, ha₁]
    show setCell (fun _ _ => none) 1 3 (some p) 1 3 = some p
    exact setCell_self _ _ _ _
  have hactive : a₂.active 1 3 = true := by
    rw [ha₂]
    show setCell (setCell (fun _ _ => false) 0 0 true) 1 3 true 1 3 = true
    exact setCell_self _ _ _ _
  have hout : a₂.outstanding 1 3 = [(0, 0)] := by
    rw [ha₂, ha₁]
    show setCell (fun _ _ => ([] : List (ℕ × ℕ))) 1 3 [(0, 0)] 1 3 = [(0, 0)]
    exact setCell_self _ _ _ _
  have hevents : (a₂.look 1 3 ep₂.ring p keyboardEvent).events = [keyboardEvent] := by
    have hany : (ringView ep₂.ring p).consume.seen.any Trb.reports = true := by
      rw [hp, hring₁, ← hring₂]
      exact hreports
    unfold EndpSystem.look
    rw [hany, ha₂, ha₁]
    rfl
  have hrun := hrun₂.tail (.look 1 3 ep₂ p keyboardEvent hactive (by rw [ha₂]; exact hep₂) hpos
    rfl rfl (by rw [hp, hring₁]; decide))
  have hrun : EndpRun (EndpSystem.start keyboardHc)
      ((a₂.look 1 3 ep₂.ring p keyboardEvent).afterEvent hc₃ 1 3 [] (some 0)) :=
    hrun.tail (.event keyboardEvent [] (some 0) hc₃ (by rw [ha₂, ha₁]; rfl) hevents (by rw [ha₂]; exact hcomplete))
  have hdisc := endpoint_discipline keyboardHc hfresh _ hrun
  have hone : (a₂.outstanding 1 3).take 1 = [(0, 0)] := by
    rw [hout]
    rfl
  have houtNow : ((a₂.look 1 3 ep₂.ring p keyboardEvent).afterEvent hc₃ 1 3 [] (some 0)).outstanding 1 3 = [] := by
    show setCell a₂.outstanding 1 3 (a₂.outstanding 1 3).tail 1 3 = []
    rw [setCell_self, hout]
    rfl
  refine ⟨_, hrun, ?_, ?_, houtNow, ?_, hdisc⟩
  · show a₂.accepted = 1
    rw [ha₂, ha₁]
    rfl
  · show a₂.called ++ ((a₂.outstanding 1 3).take 1).map Prod.fst = [0]
    rw [hone, ha₂, ha₁]
    rfl
  · have howner := hdisc.owner 1 3
    rw [houtNow] at howner
    exact howner

end Borgos.Usb
