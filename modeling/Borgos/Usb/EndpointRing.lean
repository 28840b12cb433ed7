import Borgos.Usb.ProducerRingLaws

/-! # A transfer ring with one request at a time

An endpoint ring holds at most one Normal TRB that the controller has not taken. The controller then finds that TRB, and
nothing else, wherever the ring wraps: it has followed the Link TRB of a lap before the driver writes it again.
-/
namespace Borgos.Usb
open Borgos.Mem
set_option autoImplicit false

/-- Where the controller reads a transfer ring. -/
structure TrPointer where
  dequeue : ℕ
  ccs : Bool
deriving DecidableEq, Repr

/-- The ring as the controller sees it. -/
def ringView (r : ProducerRing) (p : TrPointer) : TrbSystem := ⟨r, .idle, p.dequeue, p.ccs, [], []⟩

/-- Where a look at the ring has left the controller. -/
def TrbSystem.pointer (a : TrbSystem) : TrPointer := ⟨a.dequeue, a.ccs⟩

/-! ## Stores of the driver -/

/-- Between two calls: the TRBs before the slot have the cycle of this lap, the ones behind it and the Link TRB that of
the lap before. -/
structure RingReady (r : ProducerRing) : Prop where
  slot : r.enqueueSlot < 255
  written : ∀ i < r.enqueueSlot, (r.trbs i).cycle = r.cyclebit
  free : ∀ i < 255, r.enqueueSlot ≤ i → (r.trbs i).cycle = !r.cyclebit
  link : (r.trbs 255).control &&& ~~~xhciTrbCycle = linkControl
  linkCycle : (r.trbs 255).cycle = !r.cyclebit
  target : (r.trbs 255).parameter = v2p r.ring

/-- What is in the ring once the TRB has been enqueued. -/
def handedOver (r : ProducerRing) (trb : Trb) : Trb := { trb with control := withCycle trb.control r.cyclebit }

theorem ringReady_init (ring : ℕ) : RingReady (ProducerRing.init ring) := by
  have hlink : (ProducerRing.init ring).trbs 255 =
      ⟨BitVec.ofNat 32 (v2p ring), BitVec.ofNat 32 (v2p ring / 2 ^ 32), 0#32, linkControl⟩ := by
    show xhcihcdRingInit ring 255 = _
    exact Function.update_self _ _ _
  refine ⟨Nat.zero_lt_succ 254, fun i hi => absurd hi (Nat.not_lt_zero i), ?_, ?_, ?_, ?_⟩
  · intro i hi _
    have hzero : (ProducerRing.init ring).trbs i = Trb.zero := by
      show xhcihcdRingInit ring i = Trb.zero
      exact Function.update_of_ne (Nat.ne_of_lt hi) _ _
    rw [hzero]
    rfl
  · rw [hlink]
    show linkControl &&& ~~~xhciTrbCycle = linkControl
    decide
  · rw [hlink]
    show linkControl.getLsbD 0 = false
    decide
  · rw [hlink, parameter_split (v2p_lt ring)]
    rfl

section Enqueue
variable {r : ProducerRing} {trb : Trb}

theorem trbs_stores (r : ProducerRing) (trb : Trb) :
    (((r.storeParameterLo trb).storeParameterHi trb).storeStatus trb).storeControl trb =
      r.setTrb r.enqueueSlot (handedOver r trb) := by
  simp [ProducerRing.storeParameterLo, ProducerRing.storeParameterHi, ProducerRing.storeStatus,
    ProducerRing.storeControl, ProducerRing.setTrb, ProducerRing.slot, handedOver]

theorem ringEnqueue_inside (h : r.enqueueSlot + 1 < 255) : xhcihcdRingEnqueue r trb =
    { r with
      trbs := Function.update r.trbs r.enqueueSlot (handedOver r trb)
      enqueueSlot := r.enqueueSlot + 1 } := by
  unfold xhcihcdRingEnqueue
  rw [trbs_stores]
  have hroom : ¬ (r.setTrb r.enqueueSlot (handedOver r trb)).advance.enqueueSlot ≥ xhciRingUsableTrbs :=
    Nat.not_le.mpr h
  exact if_neg hroom

theorem ringEnqueue_last (h : r.enqueueSlot = 254) : xhcihcdRingEnqueue r trb =
    { r with
      trbs := Function.update (Function.update r.trbs 254 (handedOver r trb)) 255 { r.trbs 255 with
        control := if r.cyclebit then linkControl ||| xhciTrbCycle else linkControl }
      enqueueSlot := 0
      cyclebit := !r.cyclebit } := by
  unfold xhcihcdRingEnqueue
  rw [trbs_stores, h]
  have hfull : (r.setTrb 254 (handedOver r trb)).advance.enqueueSlot ≥ xhciRingUsableTrbs := by
    show xhciRingUsableTrbs ≤ r.enqueueSlot + 1
    rw [h]
    decide
  refine (if_pos hfull).trans ?_
  have hlink : Function.update r.trbs 254 (handedOver r trb) 255 = r.trbs 255 := Function.update_of_ne (by decide) _ _
  unfold ProducerRing.wrap ProducerRing.storeLink ProducerRing.advance
  have husable : xhciRingUsableTrbs = 255 := rfl
  simp only [ProducerRing.setTrb, husable, hlink]
  rfl

theorem cycle_handedOver (r : ProducerRing) (trb : Trb) : (handedOver r trb).cycle = r.cyclebit := cycle_withCycle _ _

theorem payload_handedOver (r : ProducerRing) (trb : Trb) : (handedOver r trb).payload = trb.payload := by
  unfold Trb.payload handedOver
  simp only [payload_withCycle]

theorem RingReady.enqueue (h : RingReady r) (trb : Trb) : RingReady (xhcihcdRingEnqueue r trb) := by
  have hslot := h.slot
  by_cases hlast : r.enqueueSlot = 254
  · rw [ringEnqueue_last hlast]
    refine ⟨Nat.zero_lt_succ 254, fun i hi => absurd hi (Nat.not_lt_zero i), ?_, ?_, ?_, ?_⟩
    · intro i hi _
      show (Function.update (Function.update r.trbs 254 (handedOver r trb)) 255 _ i).cycle = !!r.cyclebit
      rw [Function.update_of_ne (Nat.ne_of_lt hi), Bool.not_not]
      by_cases hi' : i = 254
      · rw [hi', Function.update_self]
        exact cycle_handedOver r trb
      · rw [Function.update_of_ne hi']
        exact h.written i (by omega)
    · simp only [Function.update_self]
      exact RingInv.link_payload r.cyclebit
    · simp only [Function.update_self, Bool.not_not]
      exact RingInv.link_cycle r.cyclebit
    · simp only [Function.update_self]
      exact h.target
  · have hlink : Function.update r.trbs r.enqueueSlot (handedOver r trb) 255 = r.trbs 255 :=
      Function.update_of_ne (by omega) _ _
    rw [ringEnqueue_inside (by omega)]
    refine ⟨show r.enqueueSlot + 1 < 255 by omega, ?_, ?_, ?_, ?_, ?_⟩
    · intro i hi
      show (Function.update r.trbs r.enqueueSlot (handedOver r trb) i).cycle = r.cyclebit
      rcases Nat.lt_succ_iff_lt_or_eq.mp hi with hlt | rfl
      · rw [Function.update_of_ne (Nat.ne_of_lt hlt)]
        exact h.written i hlt
      · rw [Function.update_self]
        exact cycle_handedOver r trb
    · intro i hi hle
      show (Function.update r.trbs r.enqueueSlot (handedOver r trb) i).cycle = !r.cyclebit
      rw [Function.update_of_ne (Nat.ne_of_gt hle)]
      exact h.free i hi (Nat.le_of_succ_le hle)
    · show (Function.update r.trbs r.enqueueSlot (handedOver r trb) 255).control &&& ~~~xhciTrbCycle = linkControl
      rw [hlink]
      exact h.link
    · show (Function.update r.trbs r.enqueueSlot (handedOver r trb) 255).cycle = !r.cyclebit
      rw [hlink]
      exact h.linkCycle
    · show (Function.update r.trbs r.enqueueSlot (handedOver r trb) 255).parameter = v2p r.ring
      rw [hlink]
      exact h.target

end Enqueue

/-! ## Looks of the controller -/

section Look
variable {r : ProducerRing} {p : TrPointer} {trb : Trb}

/-- The slot of the driver, as the controller points at it. -/
def slotPointer (r : ProducerRing) : TrPointer := ⟨v2p r.ring + 16 * r.enqueueSlot, r.cyclebit⟩

/-- The Link TRB at the end of the lap before. -/
def linkPointer (r : ProducerRing) : TrPointer := ⟨v2p r.ring + 16 * 255, !r.cyclebit⟩

/-- The controller has taken everything: it stands at the slot, or before the Link TRB that leads to it. -/
def AtEnd (r : ProducerRing) (p : TrPointer) : Prop := p = slotPointer r ∨ r.enqueueSlot = 0 ∧ p = linkPointer r

/-- The last TRB enqueued is still to be taken. -/
def Unread (r : ProducerRing) (p : TrPointer) (trb : Trb) : Prop :=
  ∃ r₀, RingReady r₀ ∧ AtEnd r₀ p ∧ r = xhcihcdRingEnqueue r₀ trb

theorem slotPointer_zero (h : r.enqueueSlot = 0) : slotPointer r = ⟨v2p r.ring, r.cyclebit⟩ := by
  unfold slotPointer
  rw [h, Nat.mul_zero, Nat.add_zero]

theorem atEnd_init (ring : ℕ) : AtEnd (ProducerRing.init ring) ⟨v2p (ProducerRing.init ring).ring, true⟩ := by
  left
  rw [slotPointer_zero rfl]
  rfl

theorem Unread.ready (h : Unread r p trb) : RingReady r := by
  obtain ⟨r₀, hready, -, rfl⟩ := h
  exact hready.enqueue trb

theorem current_view (r : ProducerRing) (i : ℕ) (ccs : Bool) :
    (ringView r ⟨v2p r.ring + 16 * i, ccs⟩).current = r.trbs i := by
  unfold TrbSystem.current ringView xhciTrbSize
  rw [Nat.add_sub_cancel_left, Nat.mul_div_cancel_left i (by decide)]

/-- A look at a TRB that the controller does not own. -/
theorem consume_foreign (h : (ringView r p).current.cycle ≠ p.ccs) : (ringView r p).consume = ringView r p := by
  unfold TrbSystem.consume
  exact if_pos h

/-- The Link TRB leads to the first slot and to the other cycle. -/
theorem consume_link (ccs : Bool) (hlink : (r.trbs 255).control &&& ~~~xhciTrbCycle = linkControl)
    (htarget : (r.trbs 255).parameter = v2p r.ring) (hcycle : (r.trbs 255).cycle = ccs) :
    (ringView r ⟨v2p r.ring + 16 * 255, ccs⟩).consume = ringView r ⟨v2p r.ring, !ccs⟩ := by
  have hcurrent := current_view r 255 ccs
  have htype : xhciTrbType (r.trbs 255).control = xhciTrbLink := by
    rw [← type_payload, hlink]
    decide
  have htoggle : (r.trbs 255).control &&& xhciTrbTc ≠ 0#32 := by
    have htc : (r.trbs 255).control.getLsbD 1 = true := by
      have hbit := congrArg (fun x => x.getLsbD 1) hlink
      simpa [xhciTrbCycle, linkControl, xhciTrbSetType, xhciTrbLink, xhciTrbTc] using hbit
    intro hzero
    have hbit := congrArg (fun x => x.getLsbD 1) hzero
    simp only [BitVec.getLsbD_and, htc, Bool.true_and] at hbit
    exact absurd hbit (by decide)
  unfold TrbSystem.consume
  rw [hcurrent]
  refine (if_neg (not_not.mpr hcycle)).trans ((if_pos htype).trans ?_)
  rw [if_pos htoggle, htarget]
  rfl

/-- The Link TRB has been followed. -/
theorem consume_linkPointer {r₀ : ProducerRing} (hready : RingReady r₀) (hlast : r.trbs 255 = r₀.trbs 255)
    (hring : r.ring = r₀.ring) (hzero : r₀.enqueueSlot = 0) :
    (ringView r (linkPointer r₀)).consume = ringView r (slotPointer r₀) := by
  have hlink := consume_link (r := r) (!r₀.cyclebit) (by rw [hlast]; exact hready.link)
    (by rw [hlast, hring]; exact hready.target) (by rw [hlast]; exact hready.linkCycle)
  rw [Bool.not_not, hring] at hlink
  rw [slotPointer_zero hzero]
  exact hlink

theorem AtEnd.consume (h : AtEnd r p) (hready : RingReady r) :
    (ringView r p).consume.seen = [] ∧ AtEnd r (ringView r p).consume.pointer := by
  rcases h with rfl | ⟨hzero, rfl⟩
  · have hforeign : (ringView r (slotPointer r)).current.cycle ≠ r.cyclebit := by
      unfold slotPointer
      rw [current_view, hready.free _ hready.slot le_rfl]
      cases r.cyclebit <;> decide
    rw [consume_foreign hforeign]
    exact ⟨rfl, Or.inl rfl⟩
  · rw [consume_linkPointer hready rfl rfl hzero]
    exact ⟨rfl, Or.inl rfl⟩

/-- The TRB at the slot of a ring is in place after it has been enqueued. -/
theorem trbs_enqueued (hslot : r.enqueueSlot < 255) (trb : Trb) :
    (xhcihcdRingEnqueue r trb).trbs r.enqueueSlot = handedOver r trb ∧ (xhcihcdRingEnqueue r trb).ring = r.ring := by
  by_cases hlast : r.enqueueSlot = 254
  · rw [ringEnqueue_last hlast, hlast]
    refine ⟨?_, rfl⟩
    have hne : (254 : ℕ) ≠ 255 := by decide
    simp only [Function.update_of_ne hne, Function.update_self]
  · rw [ringEnqueue_inside (by omega)]
    exact ⟨Function.update_self _ _ _, rfl⟩

/-- The first TRB of a lap leaves the Link TRB alone. -/
theorem enqueue_link (h : r.enqueueSlot = 0) : (xhcihcdRingEnqueue r trb).trbs 255 = r.trbs 255 := by
  rw [ringEnqueue_inside (by omega)]
  exact Function.update_of_ne (by omega) _ _

/-- The controller takes the TRB at the slot. -/
theorem consume_slotPointer (hready : RingReady r) (hplain : xhciTrbType trb.control ≠ xhciTrbLink) :
    (ringView (xhcihcdRingEnqueue r trb) (slotPointer r)).consume.seen = [handedOver r trb] ∧
      AtEnd (xhcihcdRingEnqueue r trb) (ringView (xhcihcdRingEnqueue r trb) (slotPointer r)).consume.pointer := by
  have hslot := hready.slot
  obtain ⟨hat, hring⟩ := trbs_enqueued hslot trb
  have hcurrent : (ringView (xhcihcdRingEnqueue r trb) (slotPointer r)).current = handedOver r trb := by
    unfold slotPointer
    rw [← hring, current_view, hat]
  have hcycle : ¬ (handedOver r trb).cycle ≠ r.cyclebit := not_not.mpr (cycle_handedOver r trb)
  have htype : xhciTrbType (handedOver r trb).control ≠ xhciTrbLink := by
    rw [handedOver, type_withCycle]
    exact hplain
  have hconsume : (ringView (xhcihcdRingEnqueue r trb) (slotPointer r)).consume =
      { ringView (xhcihcdRingEnqueue r trb) ⟨v2p r.ring + 16 * r.enqueueSlot + 16, r.cyclebit⟩ with
        seen := [handedOver r trb] } := by
    unfold TrbSystem.consume
    rw [hcurrent]
    refine (if_neg hcycle).trans ((if_neg htype).trans ?_)
    unfold ringView slotPointer xhciTrbSize
    rfl
  rw [hconsume]
  refine ⟨rfl, ?_⟩
  unfold AtEnd
  by_cases hlast : r.enqueueSlot = 254
  · right
    rw [ringEnqueue_last hlast]
    refine ⟨rfl, ?_⟩
    unfold linkPointer TrbSystem.pointer ringView
    rw [hlast, Bool.not_not]
  · left
    rw [ringEnqueue_inside (by omega)]
    unfold slotPointer TrbSystem.pointer ringView
    rw [Nat.mul_add, Nat.mul_one, Nat.add_assoc]

/-- A look while a TRB is unread: the controller takes it, or follows the Link TRB before it. -/
theorem Unread.consume (h : Unread r p trb) (hplain : xhciTrbType trb.control ≠ xhciTrbLink) :
    ((ringView r p).consume.seen = [] ∧ ∃ r₀, RingReady r₀ ∧ r = xhcihcdRingEnqueue r₀ trb ∧
      (ringView r p).consume.pointer = slotPointer r₀) ∨
    (∃ x, (ringView r p).consume.seen = [x] ∧ x.payload = trb.payload ∧ AtEnd r (ringView r p).consume.pointer) := by
  obtain ⟨r₀, hready, hend, rfl⟩ := h
  rcases hend with rfl | ⟨hzero, rfl⟩
  · right
    obtain ⟨hseen, hend⟩ := consume_slotPointer hready hplain
    exact ⟨handedOver r₀ trb, hseen, payload_handedOver r₀ trb, hend⟩
  · left
    have hring := (trbs_enqueued hready.slot trb).2
    rw [consume_linkPointer hready (enqueue_link hzero) hring hzero]
    exact ⟨rfl, r₀, hready, rfl, rfl⟩

/-- The controller owns the TRB that it stands at while one is unread. -/
theorem Unread.current_cycle (h : Unread r p trb) : (ringView r p).current.cycle = p.ccs := by
  obtain ⟨r₀, hready, hend, rfl⟩ := h
  obtain ⟨hat, hring⟩ := trbs_enqueued hready.slot trb
  rcases hend with rfl | ⟨hzero, rfl⟩
  · unfold slotPointer
    rw [← hring, current_view, hat]
    exact cycle_handedOver r₀ trb
  · unfold linkPointer
    rw [← hring, current_view, enqueue_link hzero]
    exact hready.linkCycle

/-- The controller looks twice, as it has to where a Link TRB is in the way. -/
def looksTwice (r : ProducerRing) (p : TrPointer) : List Trb := (ringView r p).consume.consume.seen

theorem consume_seen (a : TrbSystem) : a.consume.seen = a.seen ++ (ringView a.producer a.pointer).consume.seen ∧
    a.consume.producer = a.producer := by
  have hcurrent : (ringView a.producer a.pointer).current = a.current := rfl
  unfold TrbSystem.consume
  rw [hcurrent]
  have hccs : (ringView a.producer a.pointer).ccs = a.ccs := rfl
  rw [hccs]
  split
  · exact ⟨(List.append_nil _).symm, rfl⟩
  · split
    · exact ⟨(List.append_nil _).symm, rfl⟩
    · exact ⟨rfl, rfl⟩

theorem looksTwice_eq (r : ProducerRing) (p : TrPointer) : looksTwice r p =
    (ringView r p).consume.seen ++ (ringView r (ringView r p).consume.pointer).consume.seen := by
  unfold looksTwice
  rw [(consume_seen (ringView r p).consume).1, (consume_seen (ringView r p)).2]
  rfl

theorem AtEnd.looks (h : AtEnd r p) (hready : RingReady r) : looksTwice r p = [] := by
  obtain ⟨hseen, hend⟩ := h.consume hready
  rw [looksTwice_eq, hseen, (hend.consume hready).1]
  rfl

/-- The controller takes the TRB that is unread, and no other. -/
theorem Unread.looks (h : Unread r p trb) (hplain : xhciTrbType trb.control ≠ xhciTrbLink) :
    ∃ x, looksTwice r p = [x] ∧ x.payload = trb.payload := by
  have hready := h.ready
  rw [looksTwice_eq]
  rcases h.consume hplain with ⟨hseen, hunread⟩ | ⟨x, hseen, hsame, hend⟩
  · obtain ⟨r₀, hready₀, hr, hpointer⟩ := hunread
    rw [hpointer, hseen, hr, (consume_slotPointer hready₀ hplain).1]
    exact ⟨handedOver r₀ trb, rfl, payload_handedOver r₀ trb⟩
  · exact ⟨x, by rw [hseen, (hend.consume hready).1]; rfl, hsame⟩

end Look

end Borgos.Usb
