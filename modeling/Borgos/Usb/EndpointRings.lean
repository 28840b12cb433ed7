import Borgos.Usb.EndpointSystem

/-! # The rings of the endpoints

Whatever is outstanding on an endpoint is one Normal TRB that the controller will find in the ring, or one event that it
has posted. The invariant is kept together with the one of the driver's fields.
-/
namespace Borgos.Usb
open Borgos.Foundations Borgos.Mem
set_option autoImplicit false

/-! ## The TRB of a request -/

/-- A Normal TRB for the buffer of a request, alone in its TD, that interrupts on completion and on short packets. -/
structure NormalFor (q : XferRequest) (t : Trb) : Prop where
  type : t.type = 1#6
  ioc : t.control.getLsbD 5 = true
  isp : t.control.getLsbD 2 = true
  chain : t.control.getLsbD 4 = false
  pointer : t.parameter = v2p q.xferbuf
  length : t.status = q.xferlen.setWidth 32

theorem getLsbD_payload (t : Trb) {i : ℕ} (hi : i ≠ 0) (hlt : i < 32) :
    t.payload.control.getLsbD i = t.control.getLsbD i := by
  show (t.control &&& ~~~xhciTrbCycle).getLsbD i = _
  have hbit : xhciTrbCycle.getLsbD i = false := by
    unfold xhciTrbCycle
    rw [BitVec.getLsbD_one]
    simp [hi]
  rw [BitVec.getLsbD_and, BitVec.getLsbD_not, hbit]
  simp [hlt]

theorem type_eq_of_payload {t t' : Trb} (h : t.payload = t'.payload) : t.type = t'.type := by
  have hcontrol : t.control &&& ~~~xhciTrbCycle = t'.control &&& ~~~xhciTrbCycle := congrArg Trb.control h
  apply BitVec.eq_of_toNat_eq
  rw [← toNat_xhciTrbType, ← toNat_xhciTrbType, ← type_payload, hcontrol, type_payload]

theorem bit_eq_of_payload {t t' : Trb} (h : t.payload = t'.payload) {i : ℕ} (hi : i ≠ 0) (hlt : i < 32) :
    t.control.getLsbD i = t'.control.getLsbD i := by
  rw [← getLsbD_payload t hi hlt, h, getLsbD_payload t' hi hlt]

theorem normalTrb_type (q : XferRequest) : xhciTrbType (normalTrb q).control ≠ xhciTrbLink := by
  show xhciTrbType (xhciTrbSetType 1#32 ||| xhciTrbIoc ||| xhciTrbIsp) ≠ xhciTrbLink
  decide

theorem normalFor_of_payload {q : XferRequest} {t : Trb} (h : t.payload = (normalTrb q).payload) : NormalFor q t where
  type := (type_eq_of_payload h).trans (by
    show (xhciTrbSetType 1#32 ||| xhciTrbIoc ||| xhciTrbIsp).extractLsb' 10 6 = 1#6
    decide)
  ioc := (bit_eq_of_payload h (by decide) (by decide)).trans (by
    show (xhciTrbSetType 1#32 ||| xhciTrbIoc ||| xhciTrbIsp).getLsbD 5 = true
    decide)
  isp := (bit_eq_of_payload h (by decide) (by decide)).trans (by
    show (xhciTrbSetType 1#32 ||| xhciTrbIoc ||| xhciTrbIsp).getLsbD 2 = true
    decide)
  chain := (bit_eq_of_payload h (by decide) (by decide)).trans (by
    show (xhciTrbSetType 1#32 ||| xhciTrbIoc ||| xhciTrbIsp).getLsbD 4 = false
    decide)
  pointer := by
    have hlo : t.payload.parameterLo = (normalTrb q).payload.parameterLo := congrArg Trb.parameterLo h
    have hhi : t.payload.parameterHi = (normalTrb q).payload.parameterHi := congrArg Trb.parameterHi h
    have hlo : t.parameterLo = (normalTrb q).parameterLo := hlo
    have hhi : t.parameterHi = (normalTrb q).parameterHi := hhi
    unfold Trb.parameter
    rw [hlo, hhi]
    exact parameter_split (v2p_lt q.xferbuf) 0#32 0#32
  length := by
    have hstatus : t.status = q.xferlen.setWidth 32 &&& 0x1FFFF#32 := congrArg Trb.status h
    rw [hstatus]
    apply BitVec.eq_of_toNat_eq
    have hmask : (0x1FFFF#32).toNat = 2 ^ 17 - 1 := by decide
    have hlt := q.xferlen.isLt
    rw [BitVec.toNat_and, hmask, Nat.and_two_pow_sub_one_eq_mod, BitVec.toNat_setWidth]
    omega

theorem NormalFor.reports {q : XferRequest} {t : Trb} (h : NormalFor q t) : t.reports = true := by
  unfold Trb.reports
  rw [h.ioc, decide_eq_true h.type]
  rfl

/-! ## The invariant -/

/-- The controller has been told of the endpoint, or it will hear of it. -/
def Rung (a : EndpSystem) (slot dci : ℕ) : Prop := a.active slot dci = true ∨ (slot, dci) ∈ a.hc.doorbells.drop a.heard

/-- What the controller finds on the ring of an endpoint: nothing, the TRB of a request, or nothing after it has posted
the event. -/
inductive RingHolds (a : EndpSystem) (slot dci : ℕ) (r : ProducerRing) (p : TrPointer) : Prop
  | empty (hout : a.outstanding slot dci = []) (hposted : a.posted slot dci = []) (hready : RingReady r)
      (hend : AtEnd r p)
  | unread (id req : ℕ) (hout : a.outstanding slot dci = [(id, req)]) (hposted : a.posted slot dci = [])
      (hunread : Unread r p (normalTrb (a.request id))) (hrung : Rung a slot dci)
  | reported (id req : ℕ) (ev : Trb) (hout : a.outstanding slot dci = [(id, req)])
      (hposted : a.posted slot dci = [ev]) (hready : RingReady r) (hend : AtEnd r p)

structure RingsInv (a : EndpSystem) : Prop where
  holds : ∀ slot dci p, a.position slot dci = some p →
    ∃ ep, a.hc.eps slot dci = some ep ∧ RingHolds a slot dci ep.ring p
  unconfigured : ∀ slot dci, a.position slot dci = none → a.outstanding slot dci = [] ∧ a.posted slot dci = [] ∧
    ∀ ep, a.hc.eps slot dci = some ep → ep.configured = false
  waiting : ∀ r slot dci, (r, slot, dci) ∈ a.waiting → a.position slot dci ≠ none
  heard : a.heard ≤ a.hc.doorbells.length

theorem RingsInv.start {hc : Xhci} (h : ∀ slot dci, hc.eps slot dci = none) : RingsInv (EndpSystem.start hc) where
  holds slot dci p hp := by cases hp
  unconfigured slot dci _ := by
    refine ⟨rfl, rfl, ?_⟩
    intro ep hep
    rw [show (EndpSystem.start hc).hc.eps slot dci = none from h slot dci] at hep
    cases hep
  waiting _ _ _ hw := absurd hw List.not_mem_nil
  heard := le_rfl

namespace RingHolds
variable {a b : EndpSystem} {slot dci : ℕ} {r : ProducerRing} {p : TrPointer}

theorem ready (h : RingHolds a slot dci r p) : RingReady r := by
  cases h with
  | empty hout hposted hready hend => exact hready
  | unread id req hout hposted hunread hrung => exact hunread.ready
  | reported id req ev hout hposted hready hend => exact hready

/-- What is not outstanding has not been posted. -/
theorem free (h : RingHolds a slot dci r p) (hout : a.outstanding slot dci = []) :
    a.posted slot dci = [] ∧ RingReady r ∧ AtEnd r p := by
  cases h with
  | empty _ hposted hready hend => exact ⟨hposted, hready, hend⟩
  | unread id req hout' =>
    rw [hout] at hout'
    cases hout'
  | reported id req ev hout' =>
    rw [hout] at hout'
    cases hout'

/-- A step elsewhere. -/
theorem frame (h : RingHolds a slot dci r p) (hout : b.outstanding slot dci = a.outstanding slot dci)
    (hposted : b.posted slot dci = a.posted slot dci)
    (hrequest : ∀ id req, (id, req) ∈ a.outstanding slot dci → b.request id = a.request id)
    (hrung : Rung a slot dci → Rung b slot dci) : RingHolds b slot dci r p := by
  cases h with
  | empty hout' hposted' hready hend => exact .empty (hout.trans hout') (hposted.trans hposted') hready hend
  | unread id req hout' hposted' hunread hrung' =>
    refine .unread id req (hout.trans hout') (hposted.trans hposted') ?_ (hrung hrung')
    rw [hrequest id req (by rw [hout']; exact List.mem_singleton_self _)]
    exact hunread
  | reported id req ev hout' hposted' hready hend =>
    exact .reported id req ev (hout.trans hout') (hposted.trans hposted') hready hend

end RingHolds

/-- Doorbells are only added. -/
theorem Rung.bells {a : EndpSystem} {hc : Xhci} {slot dci : ℕ} (h : Rung a slot dci)
    (hbells : a.hc.doorbells <+: hc.doorbells) (hheard : a.heard ≤ a.hc.doorbells.length) :
    a.active slot dci = true ∨ (slot, dci) ∈ hc.doorbells.drop a.heard := by
  rcases h with hactive | hmem
  · exact Or.inl hactive
  · right
    obtain ⟨more, hmore⟩ := hbells
    rw [← hmore, List.drop_append_of_le_length hheard]
    exact List.mem_append_left _ hmem

namespace RingsInv
variable {a : EndpSystem}

/-- A step that leaves the TRBs and the controller alone. -/
theorem quiet (h : RingsInv a) {hc : Xhci} (waiting : List (ℕ × ℕ × ℕ))
    (hring : ∀ slot dci ep, a.hc.eps slot dci = some ep → ∃ ep', hc.eps slot dci = some ep' ∧ ep'.ring = ep.ring)
    (hconf : ∀ slot dci ep', a.position slot dci = none → hc.eps slot dci = some ep' →
      (∀ ep, a.hc.eps slot dci = some ep → ep.configured = false) → ep'.configured = false)
    (hwait : ∀ r slot dci, (r, slot, dci) ∈ waiting → a.position slot dci ≠ none)
    (hbells : a.hc.doorbells <+: hc.doorbells) : RingsInv { a with hc := hc, waiting := waiting } where
  holds slot dci p hp := by
    obtain ⟨ep, hep, hholds⟩ := h.holds slot dci p hp
    obtain ⟨ep', hep', hsame⟩ := hring slot dci ep hep
    refine ⟨ep', hep', ?_⟩
    rw [hsame]
    exact hholds.frame rfl rfl (fun _ _ _ => rfl) fun hrung => hrung.bells hbells h.heard
  unconfigured slot dci hp := by
    obtain ⟨hout, hposted, hold⟩ := h.unconfigured slot dci hp
    exact ⟨hout, hposted, fun ep' hep' => hconf slot dci ep' hp hep' hold⟩
  waiting := hwait
  heard := h.heard.trans hbells.length_le

theorem refused (h : RingsInv a) {hc : Xhci} (hbells : a.hc.doorbells <+: hc.doorbells)
    (hsame : ∀ slot dci, hc.eps slot dci = a.hc.eps slot dci ∨
      (a.hc.eps slot dci = none ∧ hc.eps slot dci = some Endpoint.zeroed)) : RingsInv { a with hc := hc } := by
  refine h.quiet a.waiting ?_ ?_ h.waiting hbells
  · intro slot dci ep hep
    rcases hsame slot dci with e | ⟨hnone, -⟩
    · exact ⟨ep, e.trans hep, rfl⟩
    · rw [hnone] at hep
      cases hep
  · intro slot dci ep' _ hep' hold
    rcases hsame slot dci with e | ⟨-, hz⟩
    · exact hold ep' (e.symm.trans hep')
    · rw [hz] at hep'
      rw [← Option.some.inj hep']
      rfl

/-- A request is queued on an endpoint that has been configured. -/
theorem accepted (h : RingsInv a) (hfresh : ∀ slot dci id r, (id, r) ∈ a.outstanding slot dci → id < a.accepted)
    {hc : Xhci} {slot dci r : ℕ} {ep ep' : Endpoint} (hep : a.hc.eps slot dci = some ep)
    (hpos : a.position slot dci ≠ none) (hnil : a.outstanding slot dci = [])
    (heps : hc.eps = setCell a.hc.eps slot dci (some ep'))
    (hring : ep'.ring = xhcihcdRingEnqueue ep.ring (normalTrb (a.hc.requests r)))
    (hbells : hc.doorbells = a.hc.doorbells ++ [(slot, dci)])
    (waiting : List (ℕ × ℕ × ℕ)) (hwait : ∀ w ∈ waiting, w ∈ a.waiting) :
    RingsInv { a.enqueueTrb hc slot dci r with waiting := waiting } := by
  have hout : (a.enqueueTrb hc slot dci r).outstanding = setCell a.outstanding slot dci [(a.accepted, r)] := by
    unfold EndpSystem.enqueueTrb
    rw [hnil]
    rfl
  have hgrow : a.hc.doorbells <+: hc.doorbells := by
    rw [hbells]
    exact List.prefix_append _ _
  refine ⟨?_, ?_, fun r' slot' dci' hw => h.waiting r' slot' dci' (hwait _ hw), h.heard.trans hgrow.length_le⟩
  · intro slot' dci' p hp
    show ∃ e, hc.eps slot' dci' = some e ∧ _
    obtain ⟨e, he, hholds⟩ := h.holds slot' dci' p hp
    rw [heps]
    by_cases hc' : slot' = slot ∧ dci' = dci
    · obtain ⟨rfl, rfl⟩ := hc'
      rw [hep] at he
      cases he
      obtain ⟨hposted, hready, hend⟩ := hholds.free hnil
      refine ⟨ep', setCell_self _ _ _ _, .unread a.accepted r ?_ hposted ?_ ?_⟩
      · show (a.enqueueTrb hc slot' dci' r).outstanding slot' dci' = [(a.accepted, r)]
        rw [hout, setCell_self]
      · have hreq : (a.enqueueTrb hc slot' dci' r).request a.accepted = a.hc.requests r := Function.update_self _ _ _
        rw [hring]
        refine ⟨ep.ring, hready, hend, ?_⟩
        show _ = xhcihcdRingEnqueue ep.ring (normalTrb ((a.enqueueTrb hc slot' dci' r).request a.accepted))
        rw [hreq]
      · right
        show (slot', dci') ∈ hc.doorbells.drop a.heard
        rw [hbells, List.drop_append_of_le_length h.heard]
        exact List.mem_append_right _ (List.mem_singleton_self _)
    · rw [setCell_ne _ _ _ _ hc']
      refine ⟨e, he, hholds.frame ?_ rfl ?_ fun hrung => hrung.bells hgrow h.heard⟩
      · show (a.enqueueTrb hc slot dci r).outstanding slot' dci' = a.outstanding slot' dci'
        rw [hout, setCell_ne _ _ _ _ hc']
      · intro id req hm
        exact Function.update_of_ne (Nat.ne_of_lt (hfresh slot' dci' id req hm)) _ _
  · intro slot' dci' hp
    have hc' : ¬(slot' = slot ∧ dci' = dci) := by
      rintro ⟨rfl, rfl⟩
      exact hpos hp
    obtain ⟨hold, hposted, hconf⟩ := h.unconfigured slot' dci' hp
    refine ⟨?_, hposted, ?_⟩
    · show (a.enqueueTrb hc slot dci r).outstanding slot' dci' = []
      rw [hout, setCell_ne _ _ _ _ hc', hold]
    · intro e he
      have he : hc.eps slot' dci' = some e := he
      rw [heps, setCell_ne _ _ _ _ hc'] at he
      exact hconf e he

/-- Configure Endpoint: the ring is new. -/
theorem configuring (h : RingsInv a) {hc : Xhci} {r slot dci v : ℕ} {ep : Endpoint} (hnil : a.outstanding slot dci = [])
    (heps : hc.eps = setCell a.hc.eps slot dci (some ep)) (hring : ep.ring = ProducerRing.init v)
    (hbells : a.hc.doorbells <+: hc.doorbells) : RingsInv
      { a with
        hc := hc
        waiting := (r, slot, dci) :: a.waiting
        position := setCell a.position slot dci (some ⟨v2p ep.ring.ring, true⟩) } := by
  have hposted : a.posted slot dci = [] := by
    cases hp : a.position slot dci with
    | none => exact (h.unconfigured slot dci hp).2.1
    | some p =>
      obtain ⟨e, -, hholds⟩ := h.holds slot dci p hp
      exact (hholds.free hnil).1
  refine ⟨?_, ?_, ?_, h.heard.trans hbells.length_le⟩
  · intro slot' dci' p hp
    show ∃ e, hc.eps slot' dci' = some e ∧ _
    have hp : setCell a.position slot dci (some ⟨v2p ep.ring.ring, true⟩) slot' dci' = some p := hp
    rw [heps]
    by_cases hc' : slot' = slot ∧ dci' = dci
    · obtain ⟨rfl, rfl⟩ := hc'
      rw [setCell_self] at hp
      have hready : RingReady ep.ring ∧ AtEnd ep.ring ⟨v2p ep.ring.ring, true⟩ := by
        rw [hring]
        exact ⟨ringReady_init v, atEnd_init v⟩
      rw [← Option.some.inj hp]
      exact ⟨ep, setCell_self _ _ _ _, .empty hnil hposted hready.1 hready.2⟩
    · rw [setCell_ne _ _ _ _ hc'] at hp ⊢
      obtain ⟨e, he, hholds⟩ := h.holds slot' dci' p hp
      exact ⟨e, he, hholds.frame rfl rfl (fun _ _ _ => rfl) fun hrung => hrung.bells hbells h.heard⟩
  · intro slot' dci' hp
    obtain ⟨hc', hp⟩ := setCell_some_eq_none.mp hp
    obtain ⟨hout, hposted', hconf⟩ := h.unconfigured slot' dci' hp
    refine ⟨hout, hposted', ?_⟩
    intro e he
    have he : hc.eps slot' dci' = some e := he
    rw [heps, setCell_ne _ _ _ _ hc'] at he
    exact hconf e he
  · intro r' slot' dci' hw hp
    obtain ⟨hc', hp⟩ := setCell_some_eq_none.mp hp
    rcases List.mem_cons.mp hw with e | hw
    · obtain ⟨-, e₂⟩ := Prod.mk.inj e
      exact hc' (Prod.mk.inj e₂)
    · exact h.waiting r' slot' dci' hw hp

/-! ## Steps of the controller -/

theorem hear (h : RingsInv a) {slot dci : ℕ} (hbell : a.hc.doorbells[a.heard]? = some (slot, dci)) :
    RingsInv { a with heard := a.heard + 1, active := setCell a.active slot dci true } := by
  obtain ⟨hlt, hget⟩ := List.getElem?_eq_some_iff.mp hbell
  refine ⟨?_, h.unconfigured, h.waiting, hlt⟩
  intro slot' dci' p hp
  obtain ⟨ep, hep, hholds⟩ := h.holds slot' dci' p hp
  refine ⟨ep, hep, hholds.frame rfl rfl (fun _ _ _ => rfl) ?_⟩
  intro hrung
  show setCell a.active slot dci true slot' dci' = true ∨ (slot', dci') ∈ a.hc.doorbells.drop (a.heard + 1)
  by_cases hc' : slot' = slot ∧ dci' = dci
  · rw [hc'.1, hc'.2, setCell_self]
    exact Or.inl rfl
  · rw [setCell_ne _ _ _ _ hc']
    rcases hrung with hactive | hmem
    · exact Or.inl hactive
    · right
      rw [List.drop_eq_getElem_cons hlt, hget] at hmem
      rcases List.mem_cons.mp hmem with e | hmem
      · obtain ⟨rfl, rfl⟩ := Prod.mk.inj e
        exact absurd ⟨rfl, rfl⟩ hc'
      · exact hmem

theorem posted_append (a : EndpSystem) (slot dci : ℕ) (ev : Trb) :
    (a.events ++ [ev]).filter (fun ev => eventSlot ev = slot ∧ eventDci ev = dci) =
      a.posted slot dci ++ if eventSlot ev = slot ∧ eventDci ev = dci then [ev] else [] := by
  unfold EndpSystem.posted
  rw [List.filter_append]
  congr 1
  by_cases h : eventSlot ev = slot ∧ eventDci ev = dci
  · simp [h]
  · simp [h]

theorem look (h : RingsInv a) {slot dci : ℕ} {ep : Endpoint} {p : TrPointer} {ev : Trb}
    (hep : a.hc.eps slot dci = some ep) (hpos : a.position slot dci = some p) (hslot : eventSlot ev = slot)
    (hdci : eventDci ev = dci) : RingsInv (a.look slot dci ep.ring p ev) := by
  have helse : ∀ slot' dci', ¬(slot' = slot ∧ dci' = dci) →
      (a.look slot dci ep.ring p ev).posted slot' dci' = a.posted slot' dci' := by
    intro slot' dci' hc'
    have hnot : ¬(eventSlot ev = slot' ∧ eventDci ev = dci') := by
      rw [hslot, hdci]
      rintro ⟨rfl, rfl⟩
      exact hc' ⟨rfl, rfl⟩
    show (if _ then a.events ++ [ev] else a.events).filter _ = a.posted slot' dci'
    split
    · rw [posted_append, if_neg hnot, List.append_nil]
    · rfl
  have hquiet : (ringView ep.ring p).consume.seen = [] →
      (a.look slot dci ep.ring p ev).posted slot dci = a.posted slot dci := by
    intro hseen
    show (if (ringView ep.ring p).consume.seen.any Trb.reports then a.events ++ [ev] else a.events).filter _ = _
    rw [hseen]
    rfl
  refine ⟨?_, ?_, ?_, h.heard⟩
  · intro slot' dci' p' hp
    have hp : setCell a.position slot dci (some (ringView ep.ring p).consume.pointer) slot' dci' = some p' := hp
    by_cases hc' : slot' = slot ∧ dci' = dci
    · obtain ⟨rfl, rfl⟩ := hc'
      rw [setCell_self] at hp
      cases hp
      obtain ⟨e, he, hholds⟩ := h.holds slot' dci' p hpos
      rw [hep] at he
      cases he
      refine ⟨ep, hep, ?_⟩
      cases hholds with
      | empty hout hposted hready hend =>
        obtain ⟨hseen, hend'⟩ := hend.consume hready
        exact .empty hout ((hquiet hseen).trans hposted) hready hend'
      | unread id req hout hposted hunread hrung =>
        rcases hunread.consume (normalTrb_type _) with ⟨hseen, r₀, hready, hr, hpointer⟩ | ⟨x, hseen, hsame, hend⟩
        · exact .unread id req hout ((hquiet hseen).trans hposted) ⟨r₀, hready, Or.inl hpointer, hr⟩ hrung
        · refine .reported id req ev hout ?_ hunread.ready hend
          show (if (ringView ep.ring p).consume.seen.any Trb.reports then a.events ++ [ev] else a.events).filter _ =
            [ev]
          rw [hseen, if_pos (by simp [(normalFor_of_payload hsame).reports]), posted_append, hposted,
            if_pos ⟨hslot, hdci⟩]
          rfl
      | reported id req ev' hout hposted hready hend =>
        obtain ⟨hseen, hend'⟩ := hend.consume hready
        exact .reported id req ev' hout ((hquiet hseen).trans hposted) hready hend'
    · rw [setCell_ne _ _ _ _ hc'] at hp
      obtain ⟨e, he, hholds⟩ := h.holds slot' dci' p' hp
      exact ⟨e, he, hholds.frame rfl (helse slot' dci' hc') (fun _ _ _ => rfl) id⟩
  · intro slot' dci' hp
    obtain ⟨hc', hp⟩ := setCell_some_eq_none.mp hp
    obtain ⟨hout, hposted, hconf⟩ := h.unconfigured slot' dci' hp
    exact ⟨hout, (helse slot' dci' hc').trans hposted, hconf⟩
  · intro r' slot' dci' hw hp
    exact h.waiting r' slot' dci' hw (setCell_some_eq_none.mp hp).2

/-- The controller rests only where it finds nothing. -/
theorem rest (h : RingsInv a) {slot dci : ℕ} {ep : Endpoint} {p : TrPointer} (hep : a.hc.eps slot dci = some ep)
    (hpos : a.position slot dci = some p) (hforeign : (ringView ep.ring p).current.cycle ≠ p.ccs) :
    RingsInv { a with active := setCell a.active slot dci false } := by
  refine ⟨?_, h.unconfigured, h.waiting, h.heard⟩
  intro slot' dci' p' hp
  obtain ⟨e, he, hholds⟩ := h.holds slot' dci' p' hp
  refine ⟨e, he, ?_⟩
  by_cases hc' : slot' = slot ∧ dci' = dci
  · obtain ⟨rfl, rfl⟩ := hc'
    rw [hep] at he
    rw [hpos] at hp
    cases he
    cases hp
    cases hholds with
    | empty hout hposted hready hend => exact .empty hout hposted hready hend
    | unread id req hout hposted hunread hrung => exact absurd (hunread.current_cycle) hforeign
    | reported id req ev hout hposted hready hend => exact .reported id req ev hout hposted hready hend
  · refine hholds.frame rfl rfl (fun _ _ _ => rfl) ?_
    rintro (hactive | hmem)
    · left
      show setCell a.active slot dci false slot' dci' = true
      rw [setCell_ne _ _ _ _ hc']
      exact hactive
    · exact Or.inr hmem

/-! ## Events -/

/-- An event that has been posted is for the one TRB of its endpoint. -/
theorem posted_outstanding (h : RingsInv a) {ev : Trb} (hev : ev ∈ a.events) :
    ∃ id req, a.outstanding (eventSlot ev) (eventDci ev) = [(id, req)] ∧
    a.posted (eventSlot ev) (eventDci ev) = [ev] := by
  have hmem : ev ∈ a.posted (eventSlot ev) (eventDci ev) :=
    List.mem_filter.mpr ⟨hev, by simp⟩
  cases hp : a.position (eventSlot ev) (eventDci ev) with
  | none =>
    rw [(h.unconfigured _ _ hp).2.1] at hmem
    cases hmem
  | some p =>
    obtain ⟨ep, -, hholds⟩ := h.holds _ _ p hp
    cases hholds with
    | empty hout hposted hready hend =>
      rw [hposted] at hmem
      cases hmem
    | unread id req hout hposted hunread hrung =>
      rw [hposted] at hmem
      cases hmem
    | reported id req ev' hout hposted hready hend =>
      rw [hposted] at hmem
      rw [List.mem_singleton.mp hmem] at hout ⊢
      rw [List.mem_singleton.mp hmem] at hposted
      exact ⟨id, req, hout, hposted⟩

theorem event (h : RingsInv a) {ev : Trb} {rest : List Trb} {cb : Option ℕ} {hc : Xhci} {ep ep' : Endpoint}
    (hevents : a.events = ev :: rest) (hep : a.hc.eps (eventSlot ev) (eventDci ev) = some ep)
    (heps : hc.eps = setCell a.hc.eps (eventSlot ev) (eventDci ev) (some ep')) (hring : ep'.ring = ep.ring)
    (hbells : hc.doorbells = a.hc.doorbells) (hpos : a.position (eventSlot ev) (eventDci ev) ≠ none) :
    RingsInv (a.afterEvent hc (eventSlot ev) (eventDci ev) rest cb) := by
  have hmem : ev ∈ a.events := hevents ▸ List.mem_cons_self
  obtain ⟨id, req, hout, hposted⟩ := h.posted_outstanding hmem
  have hfilter : ∀ slot dci, a.posted slot dci = (if eventSlot ev = slot ∧ eventDci ev = dci then [ev] else []) ++
      (a.afterEvent hc (eventSlot ev) (eventDci ev) rest cb).posted slot dci := by
    intro slot dci
    show a.events.filter _ = _ ++ rest.filter _
    rw [hevents, List.filter_cons]
    simp only [decide_eq_true_eq]
    split
    · rfl
    · rfl
  have helse : ∀ slot dci, ¬(slot = eventSlot ev ∧ dci = eventDci ev) →
      (a.afterEvent hc (eventSlot ev) (eventDci ev) rest cb).posted slot dci = a.posted slot dci := by
    intro slot dci hc'
    rw [hfilter, if_neg fun e => hc' ⟨e.1.symm, e.2.symm⟩, List.nil_append]
  have hgone : (a.afterEvent hc (eventSlot ev) (eventDci ev) rest cb).posted (eventSlot ev) (eventDci ev) = [] := by
    rw [hfilter, if_pos ⟨rfl, rfl⟩] at hposted
    exact (List.cons.inj hposted).2
  have houtElse : ∀ slot dci, ¬(slot = eventSlot ev ∧ dci = eventDci ev) →
      (a.afterEvent hc (eventSlot ev) (eventDci ev) rest cb).outstanding slot dci = a.outstanding slot dci :=
    fun slot dci hc' => setCell_ne _ _ _ _ hc'
  refine ⟨?_, ?_, h.waiting, by show a.heard ≤ hc.doorbells.length; rw [hbells]; exact h.heard⟩
  · intro slot dci p hp
    show ∃ e, hc.eps slot dci = some e ∧ _
    obtain ⟨e, he, hholds⟩ := h.holds slot dci p hp
    rw [heps]
    by_cases hc' : slot = eventSlot ev ∧ dci = eventDci ev
    · obtain ⟨rfl, rfl⟩ := hc'
      rw [hep] at he
      cases he
      refine ⟨ep', setCell_self _ _ _ _, ?_⟩
      rw [hring]
      have hready : RingReady ep.ring ∧ AtEnd ep.ring p := by
        cases hholds with
        | empty _ _ hready hend => exact ⟨hready, hend⟩
        | unread _ _ _ hposted' =>
          rw [hposted] at hposted'
          cases hposted'
        | reported _ _ _ _ _ hready hend => exact ⟨hready, hend⟩
      refine .empty ?_ hgone hready.1 hready.2
      show setCell a.outstanding _ _ (a.outstanding (eventSlot ev) (eventDci ev)).tail _ _ = []
      rw [setCell_self, hout]
      rfl
    · rw [setCell_ne _ _ _ _ hc']
      refine ⟨e, he, hholds.frame (houtElse slot dci hc') (helse slot dci hc') (fun _ _ _ => rfl) ?_⟩
      rintro (hactive | hmem)
      · exact Or.inl hactive
      · right
        show (slot, dci) ∈ hc.doorbells.drop a.heard
        rw [hbells]
        exact hmem
  · intro slot dci hp
    have hc' : ¬(slot = eventSlot ev ∧ dci = eventDci ev) := by
      rintro ⟨rfl, rfl⟩
      exact hpos hp
    obtain ⟨hold, hposted', hconf⟩ := h.unconfigured slot dci hp
    refine ⟨(houtElse slot dci hc').trans hold, (helse slot dci hc').trans hposted', ?_⟩
    intro e he
    have he : hc.eps slot dci = some e := he
    rw [heps, setCell_ne _ _ _ _ hc'] at he
    exact hconf e he

end RingsInv

/-! ## Runs -/

/-- The invariant of the driver and of the controller. -/
structure EndpOk (a : EndpSystem) : Prop where
  fields : EndpInv a
  rings : RingsInv a

/-- The invariant sees of the waiting submits only that their endpoints are configured. -/
theorem RingsInv.others {a : EndpSystem} (h : RingsInv a) (waiting : List (ℕ × ℕ × ℕ)) (callback : Option ℕ)
    (hwait : ∀ w ∈ waiting, w ∈ a.waiting) : RingsInv { a with waiting := waiting, callback := callback } := by
  refine ⟨?_, h.unconfigured, fun r slot dci hw => h.waiting r slot dci (hwait _ hw), h.heard⟩
  intro slot dci p hp
  obtain ⟨ep, hep, hholds⟩ := h.holds slot dci p hp
  exact ⟨ep, hep, hholds.frame rfl rfl (fun _ _ _ => rfl) id⟩

theorem RingsInv.configured {a : EndpSystem} (h : RingsInv a) {slot dci : ℕ} {ep : Endpoint}
    (hep : a.hc.eps slot dci = some ep) (hpos : a.position slot dci ≠ none) :
    RingsInv { a with hc := a.hc.setEp slot dci { ep with configured := true } } := by
  refine h.quiet a.waiting ?_ ?_ h.waiting List.prefix_rfl
  · intro slot' dci' ep₀ hep₀
    by_cases hc' : slot' = slot ∧ dci' = dci
    · obtain ⟨rfl, rfl⟩ := hc'
      rw [hep] at hep₀
      cases hep₀
      exact ⟨_, setEp_self _ _ _ _, rfl⟩
    · exact ⟨ep₀, (setEp_ne _ _ hc').trans hep₀, rfl⟩
  · intro slot' dci' ep' hnone hep' hold
    have hc' : ¬(slot' = slot ∧ dci' = dci) := by
      rintro ⟨rfl, rfl⟩
      exact hpos hnone
    rw [setEp_ne _ _ hc'] at hep'
    exact hold ep' hep'

namespace EndpOk
variable {a : EndpSystem}

theorem configured_position (h : EndpOk a) {slot dci : ℕ} {ep : Endpoint} (hep : a.hc.eps slot dci = some ep)
    (hconf : ep.configured = true) : a.position slot dci ≠ none := by
  intro hnone
  rw [(h.rings.unconfigured slot dci hnone).2.2 ep hep] at hconf
  cases hconf

/-- A request is queued: the endpoint is as it was, with the request and its TRB. -/
theorem accepted (h : EndpOk a) {slot dci r : ℕ} {ep : Endpoint} (hreach : Reachable a.hc slot dci)
    (hep : a.hc.eps slot dci = some ep) (hreq : ep.req = none) (hconf : ep.configured = true) :
    EndpOk (a.enqueueTrb (queued a.hc r slot dci ep) slot dci r) := by
  have heps : (queued a.hc r slot dci ep).eps = setCell a.hc.eps slot dci (some
      { ep with
        req := some r
        ring := xhcihcdRingEnqueue ep.ring (normalTrb (a.hc.requests r)) }) := rfl
  have hdev : (queued a.hc r slot dci ep).devices = a.hc.devices := rfl
  have hfields := h.fields.accepted hreach hdev hep hreq heps rfl hconf a.waiting fun _ hw => hw
  have hrings := h.rings.accepted (fun slot dci id r hm => (h.fields.fresh slot dci id r hm).1) hep
    (h.configured_position hep hconf) (h.fields.outstanding_nil hep hreq) heps rfl rfl a.waiting fun _ hw => hw
  exact ⟨hfields, hrings⟩

theorem unwait (h : EndpOk a) (w : ℕ × ℕ × ℕ) : EndpOk { a with waiting := a.waiting.erase w } :=
  ⟨h.fields.unwait w, h.rings.others _ a.callback fun _ hw => List.mem_of_mem_erase hw⟩

/-- A submit that waits finds its endpoint, which is then configured. -/
theorem configured (h : EndpOk a) {r slot dci : ℕ} {ep : Endpoint} (hw : (r, slot, dci) ∈ a.waiting)
    (hep : a.hc.eps slot dci = some ep) : EndpOk { a with hc := a.hc.setEp slot dci { ep with configured := true } } :=
  ⟨h.fields.configured (h.fields.waiting r slot dci hw).1 hep,
    h.rings.configured hep (h.rings.waiting r slot dci hw)⟩

/-- The event that is handled finds its request. -/
theorem event_spec (h : EndpOk a) {ev : Trb} (hev : ev ∈ a.events) :
    ∃ ep id r, a.hc.eps (eventSlot ev) (eventDci ev) = some ep ∧ ep.req = some r ∧ ep.configured = true ∧
      a.outstanding (eventSlot ev) (eventDci ev) = [(id, r)] ∧
      xhcihcdTransferComplete ev a.hc = .ok (if (a.hc.requests r).hasCallback then some r else none)
        (completeRequest (xhciEvtCompCode ev.status) (xhciEvtXferLen ev.status) (eventSlot ev)
            (eventDci ev) r ep a.hc) := by
  obtain ⟨id, r, hout, -⟩ := h.rings.posted_outstanding hev
  have hmem : (id, r) ∈ a.outstanding (eventSlot ev) (eventDci ev) := by
    rw [hout]
    exact List.mem_singleton_self _
  obtain ⟨ep, hep, hreq, -⟩ := h.fields.outstanding_ep hmem
  have hreach := h.fields.reach _ _ (List.ne_nil_of_mem hmem)
  have hconf := h.fields.configured_of_req hep hreq
  exact ⟨ep, id, r, hep, hreq, hconf, hout, transferComplete_spec rfl rfl hreach hep hreq⟩

theorem event (h : EndpOk a) {ev : Trb} {rest : List Trb} {cb : Option ℕ} {hc : Xhci} (hevents : a.events = ev :: rest)
    (hrun : xhcihcdTransferComplete ev a.hc = .ok cb hc) :
    EndpOk (a.afterEvent hc (eventSlot ev) (eventDci ev) rest cb) := by
  have hmem : ev ∈ a.events := by
    rw [hevents]
    exact List.mem_cons_self
  obtain ⟨ep, id, r, hep, hreq, hconf, hout, hspec⟩ := h.event_spec hmem
  have hin : (id, r) ∈ a.outstanding (eventSlot ev) (eventDci ev) := by
    rw [hout]
    exact List.mem_singleton_self _
  refine ⟨h.fields.event hin rfl rfl hrun rest, ?_⟩
  rw [hspec] at hrun
  obtain ⟨-, rfl⟩ := Outcome.ok.inj hrun
  exact h.rings.event hevents hep (completeRequest_eps _ _ _ _ _ _ _) rfl rfl (h.configured_position hep hconf)

theorem step {b : EndpSystem} (h : EndpOk a) (hstep : EndpStep a b) : EndpOk b := by
  cases hstep with
  | submitRefused page cmd r hc hrun =>
    obtain ⟨heff, hdev, hbells⟩ := submit_spec hrun
    cases heff with
    | refused hsame => exact ⟨h.fields.refused hdev hsame, h.rings.refused hbells hsame⟩
  | submitAccepted page cmd r slot dci desc hc htarget hrun =>
    cases (submit_spec hrun).1 with
    | queued slot' dci' desc' ep hreach htarget' hep hconf hhalt hreq hhc =>
      rw [htarget] at htarget'
      obtain ⟨rfl, e₂⟩ := Prod.mk.inj (Option.some.inj (Outcome.ok.inj htarget').1)
      obtain ⟨rfl, -⟩ := Prod.mk.inj e₂
      rw [hhc]
      exact h.accepted hreach hep hreq hconf
  | submitWaits page cmd r slot dci hc ep' hrun hnew =>
    obtain ⟨heff, hdev, hbells⟩ := submit_spec hrun
    cases heff with
    | configuring _ _ v desc ep hreach htarget hep hconf heps =>
      have hfields : EndpInv { a with hc := hc, waiting := (r, slot, dci) :: a.waiting } :=
        h.fields.configuring hreach hdev hep hconf heps
      have hcell := hnew
      rw [heps, setEp_self] at hcell
      have hep' := Option.some.inj hcell
      refine ⟨hfields.of_same rfl rfl rfl rfl rfl rfl, ?_⟩
      refine h.rings.configuring (h.fields.outstanding_of_unconfigured hep hconf) (v := v) ?_ ?_ hbells
      · rw [heps, ← hep']
        rfl
      · rw [← hep']
  | resumeRefused r slot dci cmdres hc hw hrun =>
    obtain ⟨ep, hep⟩ := Option.ne_none_iff_exists'.mp (h.fields.waiting r slot dci hw).2
    rcases resume_spec hep hrun with ⟨-, rfl⟩ | ⟨-, rfl⟩ | ⟨hf, -⟩
    · exact h.unwait _
    · exact (h.configured hw hep).unwait _
    · cases hf
  | resumeAccepted r slot dci cmdres hc hw hrun =>
    obtain ⟨ep, hep⟩ := Option.ne_none_iff_exists'.mp (h.fields.waiting r slot dci hw).2
    rcases resume_spec hep hrun with ⟨hf, -⟩ | ⟨hf, -⟩ | ⟨-, hhalt, hreq, rfl⟩
    · cases hf
    · cases hf
    · have hconf := h.configured hw hep
      have hreach := (h.fields.waiting r slot dci hw).1
      exact (hconf.accepted (r := r) ⟨hreach.device, hreach.slot, hreach.dci⟩ (setEp_self _ _ _ _) hreq rfl).unwait _
  | hear slot dci hbell => exact ⟨h.fields.of_same rfl rfl rfl rfl rfl rfl, h.rings.hear hbell⟩
  | look slot dci ep p ev hactive hep hpos hslot hdci hparameter =>
    exact ⟨h.fields.of_same rfl rfl rfl rfl rfl rfl, h.rings.look hep hpos hslot hdci⟩
  | rest slot dci ep p hep hpos hforeign =>
    exact ⟨h.fields.of_same rfl rfl rfl rfl rfl rfl, h.rings.rest hep hpos hforeign⟩
  | event ev rest cb hc hidle hevents hrun => exact h.event hevents hrun
  | callbackReturns =>
    exact ⟨h.fields.of_same rfl rfl rfl rfl rfl rfl, h.rings.others a.waiting none fun _ hw => hw⟩
  | other hc heps hdev hbells =>
    constructor
    · refine h.fields.quiet a.waiting ?_ ?_ hdev fun _ _ _ hw => Or.inl hw
      · intro slot dci ep' he
        rw [heps] at he
        exact Or.inl ⟨ep', he, rfl, (h.fields.ep slot dci ep' he).2⟩
      · intro slot dci hn
        rw [heps] at hn
        exact hn
    · refine h.rings.quiet a.waiting ?_ ?_ h.rings.waiting hbells
      · intro slot dci ep he
        exact ⟨ep, by rw [heps]; exact he, rfl⟩
      · intro slot dci ep' _ he hold
        rw [heps] at he
        exact hold ep' he

end EndpOk

theorem EndpOk.start {hc : Xhci} (h : ∀ slot dci, hc.eps slot dci = none) : EndpOk (EndpSystem.start hc) :=
  ⟨EndpInv.start h, RingsInv.start h⟩

theorem EndpRun.ok {a b : EndpSystem} (h : EndpOk a) (hrun : EndpRun a b) : EndpOk b := by
  induction hrun with
  | refl => exact h
  | tail _ hstep ih => exact ih.step hstep

end Borgos.Usb
