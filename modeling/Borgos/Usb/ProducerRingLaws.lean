import Borgos.Foundations.LapRing
import Borgos.Usb.ProducerRing

/-! # What the controller sees of a producer ring

Positions count the ring entries of all laps, Link TRBs included: 256 a lap, of which 255 are TRBs. The
entries between the controller and the driver form a `Lapped` ring. It breaks in one place only: when the
controller has taken the last TRB of a lap and not yet followed its Link TRB, the driver can complete the
next lap and write the Link TRB again.
-/
namespace Borgos.Usb
open Borgos.Foundations Borgos.Mem
set_option autoImplicit false

/-- The entries handed over by a driver in lap `lap`. -/
def handed (stage : EnqueueStage) (slot lap : ℕ) : ℕ :=
  match stage with
  | .idle => 256 * lap + slot
  | .parameterHi _ => 256 * lap + slot
  | .status _ => 256 * lap + slot
  | .control _ => 256 * lap + slot
  | .advance => 256 * lap + slot + 1
  | .link => 256 * lap + 255
  | .wrap => 256 * lap + 256

/-- Position `k` holds the Link TRB, or the TRB enqueued at its turn. -/
def RingEntry (enqueued : List Trb) (k : ℕ) (t : Trb) : Prop :=
  if k % 256 = 255 then t.control &&& ~~~xhciTrbCycle = linkControl
  else ∃ e, enqueued[k - k / 256]? = some e ∧ t.payload = e.payload

/-- What the stores made so far have put into the slot. -/
def Stored (stage : EnqueueStage) (slot : ℕ) (t : Trb) (enqueued : List Trb) (lap : ℕ) : Prop :=
  match stage with
  | .idle => slot < 255 ∧ enqueued.length = 255 * lap + slot
  | .parameterHi trb => slot < 255 ∧ enqueued.length = 255 * lap + slot + 1 ∧
      enqueued[255 * lap + slot]? = some trb ∧ t.parameterLo = trb.parameterLo
  | .status trb => slot < 255 ∧ enqueued.length = 255 * lap + slot + 1 ∧
      enqueued[255 * lap + slot]? = some trb ∧ t.parameterLo = trb.parameterLo ∧ t.parameterHi = trb.parameterHi
  | .control trb => slot < 255 ∧ enqueued.length = 255 * lap + slot + 1 ∧
      enqueued[255 * lap + slot]? = some trb ∧ t.parameterLo = trb.parameterLo ∧ t.parameterHi = trb.parameterHi ∧
      t.status = trb.status
  | .advance => slot < 255 ∧ enqueued.length = 255 * lap + slot + 1
  | .link => slot = 255 ∧ enqueued.length = 255 * lap + 255
  | .wrap => slot = 255 ∧ enqueued.length = 255 * lap + 255

/-- The controller has taken what was enqueued, in order and with the same fields. -/
def TrbSystem.Faithful (a : TrbSystem) : Prop :=
  a.seen.map Trb.payload = (a.enqueued.take a.seen.length).map Trb.payload

/-- What does not depend on the laps. -/
structure RingBasics (a : TrbSystem) : Prop where
  plain : ∀ t ∈ a.enqueued, xhciTrbType t.control ≠ xhciTrbLink
  faithful : a.Faithful
  outstanding : a.enqueued.length ≤ a.seen.length + 255
  target : (a.producer.trbs 255).parameter = v2p a.producer.ring

/-- The driver is in lap `lap` and the controller at position `c`. -/
structure RingInv (a : TrbSystem) (lap c : ℕ) : Prop where
  basics : RingBasics a
  stored : Stored a.stage a.producer.enqueueSlot a.producer.slot a.enqueued lap
  cyclebit : a.producer.cyclebit = decide (lap % 2 = 0)
  ccs : a.ccs = lapPhase 256 c
  dequeue : a.dequeue = v2p a.producer.ring + 16 * (c % 256)
  seen : a.seen.length = c - c / 256
  lapped : Lapped 256 Trb.cycle (RingEntry a.enqueued) a.producer.trbs c (handed a.stage a.producer.enqueueSlot lap)

/-- The controller stands before a Link TRB that has been written again. -/
structure Stalled (a : TrbSystem) : Prop where
  basics : RingBasics a
  stage : a.stage = .idle ∨ a.stage = .wrap
  full : a.enqueued.length = a.seen.length + 255
  lapDone : 255 ≤ a.seen.length
  foreign : a.current.cycle ≠ a.ccs

/-! ## The start -/

theorem RingInv.start (ring : ℕ) : RingInv (TrbSystem.start ring) 0 0 where
  basics := by
    refine ⟨fun t ht => absurd ht List.not_mem_nil, rfl, Nat.zero_le _, ?_⟩
    show ((xhcihcdRingInit ring) 255).parameter = v2p ring
    have h255 : xhcihcdRingInit ring 255 =
        ⟨BitVec.ofNat 32 (v2p ring), BitVec.ofNat 32 (v2p ring / 2 ^ 32), 0#32, linkControl⟩ :=
      Function.update_self _ _ _
    rw [h255, parameter_split (v2p_lt ring)]
  stored := ⟨Nat.zero_lt_succ 254, rfl⟩
  cyclebit := rfl
  ccs := rfl
  dequeue := (Nat.add_zero (v2p ring)).symm
  seen := rfl
  lapped := by
    refine Lapped.start fun i _ => ?_
    show (xhcihcdRingInit ring i).cycle = false
    unfold xhcihcdRingInit
    by_cases hi : i = xhciRingUsableTrbs
    · rw [hi, Function.update_self]
      show linkControl.getLsbD 0 = false
      decide
    · rw [Function.update_of_ne hi]
      rfl

/-! ## Steps of the driver -/

namespace RingInv
variable {a : TrbSystem} {lap c : ℕ}

/-- While a call is under way its slot is free. -/
theorem room (h : RingInv a lap c) (hslot : a.producer.enqueueSlot < 255)
    (hlen : 255 * lap + a.producer.enqueueSlot < a.seen.length + 255) :
    256 * lap + a.producer.enqueueSlot < c + 256 := by
  have hs := h.seen
  omega

/-- Every enqueued TRB keeps its turn. -/
theorem entry_append {enqueued : List Trb} (more : List Trb) {k : ℕ} {t : Trb} (h : RingEntry enqueued k t) :
    RingEntry (enqueued ++ more) k t := by
  unfold RingEntry at h ⊢
  split
  · next hk =>
    rw [if_pos hk] at h
    exact h
  · next hk =>
    rw [if_neg hk] at h
    obtain ⟨e, he, hp⟩ := h
    refine ⟨e, ?_, hp⟩
    rw [List.getElem?_append_left (List.getElem?_eq_some_iff.mp he).1]
    exact he

theorem target_setTrb {r : ProducerRing} {i : ℕ} (hi : i < 255) (x : Trb)
    (h : (r.trbs 255).parameter = v2p r.ring) : ((r.setTrb i x).trbs 255).parameter = v2p (r.setTrb i x).ring := by
  show (Function.update r.trbs i x 255).parameter = v2p r.ring
  rw [Function.update_of_ne (by omega)]
  exact h

/-- A store to the slot that leaves the control word alone is invisible. -/
theorem store (h : RingInv a lap c) {x : Trb} (stage : EnqueueStage) (more : List Trb)
    (hx : x.control = a.producer.slot.control)
    (hpos : handed a.stage a.producer.enqueueSlot lap = 256 * lap + a.producer.enqueueSlot)
    (hpos' : handed stage a.producer.enqueueSlot lap = 256 * lap + a.producer.enqueueSlot)
    (hslot : a.producer.enqueueSlot < 255) (hmore : ∀ t ∈ more, xhciTrbType t.control ≠ xhciTrbLink)
    (hlen : 255 * lap + a.producer.enqueueSlot < a.seen.length + 255)
    (hout : (a.enqueued ++ more).length ≤ a.seen.length + 255) (hseen : a.seen.length ≤ a.enqueued.length)
    (hst : Stored stage a.producer.enqueueSlot x (a.enqueued ++ more) lap) :
    RingInv { a with
      producer := a.producer.setTrb a.producer.enqueueSlot x
      stage := stage
      enqueued := a.enqueued ++ more } lap c where
  basics := by
    refine ⟨?_, ?_, hout, target_setTrb hslot x h.basics.target⟩
    · intro t ht
      rcases List.mem_append.mp ht with ht | ht
      · exact h.basics.plain t ht
      · exact hmore t ht
    · show a.seen.map Trb.payload = ((a.enqueued ++ more).take a.seen.length).map Trb.payload
      rw [List.take_append_of_le_length hseen]
      exact h.basics.faithful
  stored := by
    show Stored stage a.producer.enqueueSlot (Function.update a.producer.trbs a.producer.enqueueSlot x
      a.producer.enqueueSlot) _ lap
    rw [Function.update_self]
    exact hst
  cyclebit := h.cyclebit
  ccs := h.ccs
  dequeue := h.dequeue
  seen := h.seen
  lapped := by
    show Lapped 256 Trb.cycle _ (Function.update a.producer.trbs a.producer.enqueueSlot x) c
      (handed stage a.producer.enqueueSlot lap)
    have hl := h.lapped
    rw [hpos] at hl
    rw [hpos']
    have hmod := lap_slot (n := 256) (i := a.producer.enqueueSlot) (by omega) lap
    have ht := (hl.mono fun k t _ _ hk => entry_append more hk).touch (h.room hslot hlen) (x := x) (by
      rw [hmod]
      unfold Trb.cycle
      rw [hx]
      rfl)
    rw [hmod] at ht
    exact ht

/-- With the control word the TRB is handed over. -/
theorem store_control (h : RingInv a lap c) {trb : Trb} (hstage : a.stage = .control trb) :
    RingInv { a with
      producer := a.producer.storeControl trb
      stage := .advance } lap c := by
  have hst := h.stored
  rw [hstage] at hst
  obtain ⟨hslot, hlen, hget, hlo, hhi, hstat⟩ := hst
  have hl : Lapped 256 Trb.cycle (RingEntry a.enqueued) a.producer.trbs c (256 * lap + a.producer.enqueueSlot) := by
    have hl := h.lapped
    rw [hstage] at hl
    exact hl
  have hmod := lap_slot (n := 256) (i := a.producer.enqueueSlot) (by omega) lap
  have hout := h.basics.outstanding
  obtain ⟨x, hx⟩ : ∃ x : Trb, x = { a.producer.slot with control := withCycle trb.control a.producer.cyclebit } :=
    ⟨_, rfl⟩
  have hpay : x.payload = trb.payload := by
    rw [hx]
    unfold Trb.payload
    simp only [payload_withCycle, hlo, hhi, hstat]
  have hcyc : x.cycle = lapPhase 256 (256 * lap + a.producer.enqueueSlot) := by
    rw [hx, lapPhase_lap (by omega), ← h.cyclebit]
    exact cycle_withCycle _ _
  have hturn : 256 * lap + a.producer.enqueueSlot - (256 * lap + a.producer.enqueueSlot) / 256 =
      255 * lap + a.producer.enqueueSlot := by omega
  have hentry : RingEntry a.enqueued (256 * lap + a.producer.enqueueSlot) x := by
    unfold RingEntry
    rw [hmod, if_neg (by omega), hturn]
    exact ⟨trb, hget, hpay⟩
  have hpush := hl.push (h.room hslot (by omega)) hentry hcyc
  rw [hmod] at hpush
  refine ⟨⟨h.basics.plain, h.basics.faithful, hout, target_setTrb hslot _ h.basics.target⟩, ⟨hslot, hlen⟩,
    h.cyclebit, h.ccs, h.dequeue, h.seen, ?_⟩
  rw [hx] at hpush
  exact hpush

theorem advance (h : RingInv a lap c) (hstage : a.stage = .advance) :
    RingInv { a with
      producer := a.producer.advance
      stage := if a.producer.advance.enqueueSlot ≥ xhciRingUsableTrbs then .link else .idle } lap c := by
  have hst := h.stored
  have hl := h.lapped
  rw [hstage] at hst hl
  obtain ⟨hslot, hlen⟩ := hst
  have hadv : a.producer.advance.enqueueSlot = a.producer.enqueueSlot + 1 := rfl
  have husable : xhciRingUsableTrbs = 255 := rfl
  refine ⟨⟨h.basics.plain, h.basics.faithful, h.basics.outstanding, h.basics.target⟩, ?_, h.cyclebit, h.ccs,
    h.dequeue, h.seen, ?_⟩
  · show Stored (if _ then _ else _) (a.producer.enqueueSlot + 1) _ a.enqueued lap
    rw [hadv, husable]
    split
    · exact ⟨by omega, by omega⟩
    · exact ⟨by omega, by omega⟩
  · show Lapped 256 Trb.cycle _ a.producer.trbs c (handed (if _ then _ else _) (a.producer.enqueueSlot + 1) lap)
    rw [hadv, husable]
    split
    · next hge =>
      have e : a.producer.enqueueSlot = 254 := by omega
      rw [e] at hl
      exact hl
    · exact hl

/-- The Link TRB has the bits of the constant, with either cycle. -/
theorem link_payload (b : Bool) :
    (if b then linkControl ||| xhciTrbCycle else linkControl) &&& ~~~xhciTrbCycle = linkControl := by
  cases b
  · decide
  · decide

theorem link_cycle (b : Bool) : (if b then linkControl ||| xhciTrbCycle else linkControl).getLsbD 0 = b := by
  cases b
  · decide
  · decide

theorem wrap (h : RingInv a lap c) (hstage : a.stage = .wrap) :
    RingInv { a with
      producer := a.producer.wrap
      stage := .idle } (lap + 1) c := by
  have hst := h.stored
  have hl := h.lapped
  rw [hstage] at hst hl
  refine ⟨⟨h.basics.plain, h.basics.faithful, h.basics.outstanding, h.basics.target⟩,
    ⟨Nat.zero_lt_succ 254, hst.2⟩, ?_, h.ccs,
    h.dequeue, h.seen, hl⟩
  show (!a.producer.cyclebit) = decide ((lap + 1) % 2 = 0)
  rw [h.cyclebit]
  rcases Nat.mod_two_eq_zero_or_one lap with e | e
  · have e' : (lap + 1) % 2 = 1 := by omega
    rw [e, e']
    rfl
  · have e' : (lap + 1) % 2 = 0 := by omega
    rw [e, e']
    rfl

/-- Where the controller can be when the Link TRB is due. -/
theorem link_cases (h : RingInv a lap c) (hstage : a.stage = .link) :
    (256 * lap ≤ c ∧ a.ccs = a.producer.cyclebit) ∨ (c + 1 = 256 * lap ∧ a.ccs ≠ a.producer.cyclebit) := by
  have hst := h.stored
  have hl := h.lapped.le
  rw [hstage] at hst hl
  have hl' : c ≤ 256 * lap + 255 := hl
  have hout := h.basics.outstanding
  have hlen := hst.2
  have hs := h.seen
  rw [h.ccs, h.cyclebit]
  unfold lapPhase
  by_cases hc : 256 * lap ≤ c
  · have e : c / 256 = lap := by omega
    rw [e]
    exact Or.inl ⟨hc, rfl⟩
  · have e : c + 1 = 256 * lap := by omega
    have e' : c / 256 + 1 = lap := by omega
    refine Or.inr ⟨e, ?_⟩
    rw [← e', ne_eq, decide_eq_decide]
    omega

theorem storeLink_trbs (r : ProducerRing) : r.storeLink.trbs = Function.update r.trbs 255 { r.trbs 255 with
    control := if r.cyclebit then linkControl ||| xhciTrbCycle else linkControl } := rfl

theorem store_link (h : RingInv a lap c) (hstage : a.stage = .link) (hc : 256 * lap ≤ c) :
    RingInv { a with
      producer := a.producer.storeLink
      stage := .wrap } lap c := by
  have hst := h.stored
  rw [hstage] at hst
  have hl : Lapped 256 Trb.cycle (RingEntry a.enqueued) a.producer.trbs c (256 * lap + 255) := by
    have hl := h.lapped
    rw [hstage] at hl
    exact hl
  have hmod := lap_slot (n := 256) (i := 255) (by omega) lap
  obtain ⟨x, hx⟩ : ∃ x : Trb, x = { a.producer.trbs 255 with
      control := if a.producer.cyclebit then linkControl ||| xhciTrbCycle else linkControl } := ⟨_, rfl⟩
  have hcyc : x.cycle = lapPhase 256 (256 * lap + 255) := by
    rw [hx, lapPhase_lap (by omega), ← h.cyclebit]
    exact link_cycle _
  have hentry : RingEntry a.enqueued (256 * lap + 255) x := by
    unfold RingEntry
    rw [hmod, if_pos rfl, hx]
    exact link_payload _
  have hpush := hl.push (by omega) hentry hcyc
  rw [hmod] at hpush
  have htrbs : a.producer.storeLink.trbs = Function.update a.producer.trbs 255 x := by
    rw [hx, storeLink_trbs]
  refine ⟨⟨h.basics.plain, h.basics.faithful, h.basics.outstanding, ?_⟩, hst, h.cyclebit, h.ccs, h.dequeue, h.seen,
    ?_⟩
  · show (a.producer.storeLink.trbs 255).parameter = v2p a.producer.ring
    rw [htrbs, Function.update_self, hx]
    exact h.basics.target
  · show Lapped 256 Trb.cycle _ a.producer.storeLink.trbs c (256 * lap + 256)
    rw [htrbs]
    exact hpush

/-- The TRB the controller looks at. -/
theorem current_eq (h : RingInv a lap c) : a.current = a.producer.trbs (c % 256) := by
  unfold TrbSystem.current xhciTrbSize
  rw [h.dequeue, Nat.add_sub_cancel_left, Nat.mul_div_cancel_left _ (by decide)]

theorem stall (h : RingInv a lap c) (hstage : a.stage = .link) (hc : c + 1 = 256 * lap)
    (hne : a.ccs ≠ a.producer.cyclebit) :
    Stalled { a with
      producer := a.producer.storeLink
      stage := .wrap } := by
  have hst := h.stored
  rw [hstage] at hst
  have hs := h.seen
  have hlen := hst.2
  have hmod : c % 256 = 255 := by omega
  have htrb : a.producer.storeLink.trbs 255 = { a.producer.trbs 255 with
      control := if a.producer.cyclebit then linkControl ||| xhciTrbCycle else linkControl } := by
    rw [storeLink_trbs, Function.update_self]
  refine ⟨⟨h.basics.plain, h.basics.faithful, h.basics.outstanding, ?_⟩, Or.inr rfl, ?_, ?_, ?_⟩
  · show (a.producer.storeLink.trbs 255).parameter = v2p a.producer.ring
    rw [htrb]
    exact h.basics.target
  · show a.enqueued.length = a.seen.length + 255
    omega
  · show 255 ≤ a.seen.length
    omega
  · show (a.producer.storeLink.trbs ((a.dequeue - v2p a.producer.ring) / xhciTrbSize)).cycle ≠ a.ccs
    unfold xhciTrbSize
    rw [h.dequeue, Nat.add_sub_cancel_left, Nat.mul_div_cancel_left _ (by decide), hmod, htrb]
    show (if a.producer.cyclebit then linkControl ||| xhciTrbCycle else linkControl).getLsbD 0 ≠ a.ccs
    rw [link_cycle]
    exact hne.symm

end RingInv

/-! ## Steps of the controller -/

theorem tc_payload (control : BitVec 32) :
    (control &&& ~~~xhciTrbCycle) &&& xhciTrbTc = control &&& xhciTrbTc := by
  have hmask : ~~~xhciTrbCycle &&& xhciTrbTc = xhciTrbTc := by decide
  rw [BitVec.and_assoc, hmask]

namespace RingInv
variable {a : TrbSystem} {lap c : ℕ}

theorem consume_none (h : RingInv a lap c) (hc : ¬c < handed a.stage a.producer.enqueueSlot lap) : a.consume = a := by
  unfold TrbSystem.consume
  rw [if_pos]
  rw [h.current_eq, h.ccs]
  exact fun e => hc ((h.lapped.owned_iff (by decide)).mp e)

theorem consume_next (h : RingInv a lap c) (hc : c < handed a.stage a.producer.enqueueSlot lap) :
    RingInv a.consume lap (c + 1) := by
  obtain ⟨hentry, hcyc⟩ := h.lapped.unread c le_rfl hc
  have hl := h.lapped.consume hc
  rw [← h.current_eq] at hentry hcyc
  have hs := h.seen
  have howned : ¬a.current.cycle ≠ a.ccs := by
    rw [hcyc, h.ccs]
    exact fun e => e rfl
  unfold RingEntry at hentry
  by_cases hlink : c % 256 = 255
  · rw [if_pos hlink] at hentry
    have htype : xhciTrbType a.current.control = xhciTrbLink := by
      rw [← type_payload, hentry]
      decide
    have htc : a.current.control &&& xhciTrbTc ≠ 0#32 := by
      rw [← tc_payload, hentry]
      decide
    have hparam : a.current.parameter = v2p a.producer.ring := by
      rw [h.current_eq, hlink]
      exact h.basics.target
    unfold TrbSystem.consume
    rw [if_neg howned, if_pos htype, if_pos htc, hparam]
    have hdiv : (c + 1) / 256 = c / 256 + 1 := by omega
    have hfaith : a.seen.map Trb.payload = (a.enqueued.take a.seen.length).map Trb.payload := h.basics.faithful
    refine ⟨⟨h.basics.plain, hfaith, h.basics.outstanding, h.basics.target⟩, h.stored, h.cyclebit, ?_, ?_, ?_,
      hl⟩
    · show (!a.ccs) = lapPhase 256 (c + 1)
      rw [h.ccs]
      unfold lapPhase
      rw [hdiv]
      by_cases hpar : c / 256 % 2 = 0
      · have hpar' : ¬(c / 256 + 1) % 2 = 0 := by omega
        rw [decide_eq_true hpar, decide_eq_false hpar']
        rfl
      · have hpar' : (c / 256 + 1) % 2 = 0 := by omega
        rw [decide_eq_false hpar, decide_eq_true hpar']
        rfl
    · show v2p a.producer.ring = v2p a.producer.ring + 16 * ((c + 1) % 256)
      have hzero : (c + 1) % 256 = 0 := by omega
      rw [hzero, Nat.mul_zero, Nat.add_zero]
    · show a.seen.length = c + 1 - (c + 1) / 256
      omega
  · rw [if_neg hlink] at hentry
    obtain ⟨e, he, hpay⟩ := hentry
    rw [← hs] at he
    have htype : ¬xhciTrbType a.current.control = xhciTrbLink := by
      have hctrl : a.current.control &&& ~~~xhciTrbCycle = e.control &&& ~~~xhciTrbCycle := congrArg Trb.control hpay
      rw [← type_payload, hctrl, type_payload]
      exact h.basics.plain e (List.mem_of_getElem? he)
    unfold TrbSystem.consume
    rw [if_neg howned, if_neg htype]
    have hdiv : (c + 1) / 256 = c / 256 := by omega
    refine ⟨⟨h.basics.plain, ?_, ?_, h.basics.target⟩, h.stored, h.cyclebit, ?_, ?_, ?_, hl⟩
    · show (a.seen ++ [a.current]).map Trb.payload =
        (a.enqueued.take (a.seen ++ [a.current]).length).map Trb.payload
      rw [List.length_append, List.length_singleton, List.take_add_one, he, List.map_append, List.map_append,
        h.basics.faithful]
      simp [hpay]
    · show a.enqueued.length ≤ (a.seen ++ [a.current]).length + 255
      rw [List.length_append]
      exact h.basics.outstanding.trans (by omega)
    · show a.ccs = lapPhase 256 (c + 1)
      rw [h.ccs]
      unfold lapPhase
      rw [hdiv]
    · show a.dequeue + 16 = v2p a.producer.ring + 16 * ((c + 1) % 256)
      rw [h.dequeue]
      omega
    · show (a.seen ++ [a.current]).length = c + 1 - (c + 1) / 256
      rw [List.length_append, List.length_singleton]
      omega

end RingInv

/-! ## Runs -/

namespace RingInv
variable {a : TrbSystem} {lap c : ℕ}

theorem seen_le (h : RingInv a lap c)
    (hpos : handed a.stage a.producer.enqueueSlot lap = 256 * lap + a.producer.enqueueSlot)
    (hslot : a.producer.enqueueSlot < 255) (hlen : 255 * lap + a.producer.enqueueSlot ≤ a.enqueued.length) :
    a.seen.length ≤ a.enqueued.length := by
  have hl := h.lapped.le
  have hs := h.seen
  rw [hpos] at hl
  omega

theorem call (h : RingInv a lap c) (hidle : a.stage = .idle) {trb : Trb}
    (htrb : xhciTrbType trb.control ≠ xhciTrbLink) (hout : a.enqueued.length < a.seen.length + 255) :
    RingInv (a.call trb) lap c := by
  have hst := h.stored
  have hpos : handed a.stage a.producer.enqueueSlot lap = 256 * lap + a.producer.enqueueSlot := by rw [hidle]; rfl
  rw [hidle] at hst
  obtain ⟨hslot, hlen⟩ := hst
  refine h.store _ [trb] rfl hpos rfl hslot ?_ (by omega) ?_ (h.seen_le hpos hslot hlen.ge) ?_
  · intro t ht
    rw [List.mem_singleton.mp ht]
    exact htrb
  · rw [List.length_append, List.length_singleton]
    exact hout
  · refine ⟨hslot, ?_, ?_, rfl⟩
    · rw [List.length_append, List.length_singleton, hlen]
    · rw [← hlen, List.getElem?_concat_length]

/-- One store of the driver. -/
theorem produce (h : RingInv a lap c) : (∃ lap', RingInv a.produce lap' c) ∨
    (a.stage = .link ∧ a.ccs ≠ a.producer.cyclebit ∧ Stalled a.produce) := by
  have hout := h.basics.outstanding
  have hst := h.stored
  unfold TrbSystem.produce
  cases hstage : a.stage with
  | idle =>
    refine Or.inl ⟨lap, ?_⟩
    show RingInv ⟨a.producer, .idle, a.dequeue, a.ccs, a.enqueued, a.seen⟩ lap c
    rw [← hstage]
    exact h
  | parameterHi trb =>
    rw [hstage] at hst
    obtain ⟨hslot, hlen, hget, hlo⟩ := hst
    have hpos : handed a.stage a.producer.enqueueSlot lap = 256 * lap + a.producer.enqueueSlot := by rw [hstage]; rfl
    have hnext := h.store (.status trb) []
      (x := { a.producer.slot with parameterHi := trb.parameterHi }) rfl hpos rfl hslot
      (fun t ht => absurd ht List.not_mem_nil) (by omega) (by rw [List.append_nil]; exact hout)
      (h.seen_le hpos hslot (by omega)) (by rw [List.append_nil]; exact ⟨hslot, hlen, hget, hlo, rfl⟩)
    rw [List.append_nil] at hnext
    exact Or.inl ⟨lap, hnext⟩
  | status trb =>
    rw [hstage] at hst
    obtain ⟨hslot, hlen, hget, hlo, hhi⟩ := hst
    have hpos : handed a.stage a.producer.enqueueSlot lap = 256 * lap + a.producer.enqueueSlot := by rw [hstage]; rfl
    have hnext := h.store (.control trb) []
      (x := { a.producer.slot with status := trb.status }) rfl hpos rfl hslot
      (fun t ht => absurd ht List.not_mem_nil) (by omega) (by rw [List.append_nil]; exact hout)
      (h.seen_le hpos hslot (by omega)) (by rw [List.append_nil]; exact ⟨hslot, hlen, hget, hlo, hhi, rfl⟩)
    rw [List.append_nil] at hnext
    exact Or.inl ⟨lap, hnext⟩
  | control trb => exact Or.inl ⟨lap, h.store_control hstage⟩
  | advance => exact Or.inl ⟨lap, h.advance hstage⟩
  | link =>
    rcases h.link_cases hstage with ⟨hc, -⟩ | ⟨hc, hne⟩
    · exact Or.inl ⟨lap, h.store_link hstage hc⟩
    · exact Or.inr ⟨rfl, hne, h.stall hstage hc hne⟩
  | wrap => exact Or.inl ⟨lap + 1, h.wrap hstage⟩

theorem consume (h : RingInv a lap c) : ∃ c', RingInv a.consume lap c' := by
  by_cases hc : c < handed a.stage a.producer.enqueueSlot lap
  · exact ⟨c + 1, h.consume_next hc⟩
  · rw [h.consume_none hc]
    exact ⟨c, h⟩

end RingInv

namespace Stalled
variable {a : TrbSystem}

theorem consume (h : Stalled a) : a.consume = a := by
  unfold TrbSystem.consume
  rw [if_pos h.foreign]

theorem produce (h : Stalled a) : Stalled a.produce := by
  unfold TrbSystem.produce
  rcases h.stage with hs | hs
  · rw [hs]
    exact ⟨⟨h.basics.plain, h.basics.faithful, h.basics.outstanding, h.basics.target⟩, Or.inl rfl, h.full, h.lapDone,
      h.foreign⟩
  · rw [hs]
    exact ⟨⟨h.basics.plain, h.basics.faithful, h.basics.outstanding, h.basics.target⟩, Or.inl rfl, h.full, h.lapDone,
      h.foreign⟩

end Stalled

theorem TrbRun.inv {handover : TrbSystem → Prop} {ring : ℕ} {a : TrbSystem}
    (hrun : TrbRun handover (TrbSystem.start ring) a) : (∃ lap c, RingInv a lap c) ∨ Stalled a := by
  induction hrun with
  | refl => exact Or.inl ⟨0, 0, RingInv.start ring⟩
  | @tail a b _ hstep ih =>
    cases hstep with
    | call trb hidle hlink hout =>
      rcases ih with ⟨lap, c, h⟩ | h
      · exact Or.inl ⟨lap, c, h.call hidle hlink hout⟩
      · exact absurd h.full (by omega)
    | produce _ =>
      rcases ih with ⟨lap, c, h⟩ | h
      · rcases h.produce with ⟨lap', h'⟩ | ⟨-, -, h'⟩
        · exact Or.inl ⟨lap', c, h'⟩
        · exact Or.inr h'
      · exact Or.inr h.produce
    | consume =>
      rcases ih with ⟨lap, c, h⟩ | h
      · obtain ⟨c', h'⟩ := h.consume
        exact Or.inl ⟨lap, c', h'⟩
      · rw [h.consume]
        exact Or.inr h

/-- The Link TRB is handed over only to a controller that has followed the one of the lap before. -/
def Paced (a : TrbSystem) : Prop := a.ccs = a.producer.cyclebit

theorem TrbRun.paced_inv {ring : ℕ} {a : TrbSystem} (hrun : TrbRun Paced (TrbSystem.start ring) a) :
    ∃ lap c, RingInv a lap c := by
  induction hrun with
  | refl => exact ⟨0, 0, RingInv.start ring⟩
  | @tail a b _ hstep ih =>
    obtain ⟨lap, c, h⟩ := ih
    cases hstep with
    | call trb hidle hlink hout => exact ⟨lap, c, h.call hidle hlink hout⟩
    | produce hpaced =>
      rcases h.produce with ⟨lap', h'⟩ | ⟨hstage, hne, -⟩
      · exact ⟨lap', c, h'⟩
      · exact absurd (hpaced hstage) hne
    | consume =>
      obtain ⟨c', h'⟩ := h.consume
      exact ⟨lap, c', h'⟩

/-! ## Delivery -/

/-- The controller, left alone, takes everything that was enqueued. -/
def TrbSystem.Delivers (a : TrbSystem) : Prop :=
  ∃ n, (TrbSystem.consume^[n] a).seen.map Trb.payload = a.enqueued.map Trb.payload

theorem consume_driver (a : TrbSystem) :
    a.consume.producer = a.producer ∧ a.consume.stage = a.stage ∧ a.consume.enqueued = a.enqueued := by
  unfold TrbSystem.consume
  split
  · exact ⟨rfl, rfl, rfl⟩
  · split
    · exact ⟨rfl, rfl, rfl⟩
    · exact ⟨rfl, rfl, rfl⟩

theorem RingInv.delivers : ∀ (n : ℕ) {a : TrbSystem} {lap c : ℕ}, RingInv a lap c → a.stage = .idle →
    handed a.stage a.producer.enqueueSlot lap = c + n → a.Delivers
  | 0, a, lap, c, h, hidle, hn => by
    refine ⟨0, ?_⟩
    have hst := h.stored
    have hs := h.seen
    rw [hidle] at hst hn
    have hn' : 256 * lap + a.producer.enqueueSlot = c := hn
    have hlen : a.seen.length = a.enqueued.length := by
      have := hst.1
      have := hst.2
      omega
    have hfaith : a.seen.map Trb.payload = (a.enqueued.take a.seen.length).map Trb.payload := h.basics.faithful
    rw [hlen, List.take_length] at hfaith
    exact hfaith
  | n + 1, a, lap, c, h, hidle, hn => by
    obtain ⟨hprod, hstage, henq⟩ := consume_driver a
    obtain ⟨m, hm⟩ := RingInv.delivers n (h.consume_next (by omega)) (hstage.trans hidle)
      (by rw [hprod, hstage, hn]; omega)
    rw [henq] at hm
    exact ⟨m + 1, hm⟩

/-- In every state the controller has seen a part of what was enqueued, in order, and between two calls it
can take the rest. -/
def DeliversExactly (handover : TrbSystem → Prop) : Prop :=
  ∀ ring a, TrbRun handover (TrbSystem.start ring) a → a.Faithful ∧ (a.stage = .idle → a.Delivers)

/-- **A producer ring delivers what was enqueued.** The controller never sees anything but the enqueued TRBs
in their order, over any number of laps; and it sees all of them when no Link TRB is written again before the
controller has followed it. -/
theorem producer_ring_delivers :
    (∀ ring a, TrbRun (fun _ => True) (TrbSystem.start ring) a → a.Faithful) ∧ DeliversExactly Paced := by
  constructor
  · intro ring a hrun
    rcases hrun.inv with ⟨lap, c, h⟩ | h
    · exact h.basics.faithful
    · exact h.basics.faithful
  · intro ring a hrun
    obtain ⟨lap, c, h⟩ := hrun.paced_inv
    refine ⟨h.basics.faithful, fun hidle => ?_⟩
    have hle := h.lapped.le
    exact RingInv.delivers _ h hidle (Nat.add_sub_cancel' hle).symm

/-! ## The stalled ring can be reached -/

def anyHandover (_ : TrbSystem) : Prop := True

theorem produce_iterate (n : ℕ) (a : TrbSystem) : TrbSystem.produce^[n] a = { a with
    producer := (enqueueStep^[n] (a.stage, a.producer)).2
    stage := (enqueueStep^[n] (a.stage, a.producer)).1 } := by
  induction n generalizing a with
  | zero => rfl
  | succ n ih =>
    rw [Function.iterate_succ_apply, ih, Function.iterate_succ_apply]
    rfl

theorem produce_run (n : ℕ) (a : TrbSystem) : TrbRun anyHandover a (TrbSystem.produce^[n] a) := by
  induction n with
  | zero => exact Relation.ReflTransGen.refl
  | succ n ih =>
    rw [Function.iterate_succ_apply']
    exact ih.tail (TrbStep.produce fun _ => trivial)

/-- A No Op command. -/
def noOpCmd : Trb := ⟨0#32, 0#32, 0#32, xhciTrbSetType 23#32⟩

/-- Calls of `xhcihcd_ring_enqueue` with the controller standing still. -/
theorem enqueue_many : ∀ (n : ℕ) (a : TrbSystem), a.stage = .idle → a.enqueued.length + n ≤ a.seen.length + 255 →
    ∃ b, TrbRun anyHandover a b ∧ b.stage = .idle ∧ b.enqueued.length = a.enqueued.length + n ∧ b.seen = a.seen ∧
      b.dequeue = a.dequeue ∧ b.producer.ring = a.producer.ring
  | 0, a, hidle, _ => ⟨a, Relation.ReflTransGen.refl, hidle, rfl, rfl, rfl, rfl⟩
  | n + 1, a, hidle, hlen => by
    obtain ⟨b, hb⟩ : ∃ b, b = TrbSystem.produce^[6] (a.call noOpCmd) := ⟨_, rfl⟩
    have hbeq : b = { a.call noOpCmd with
        producer := xhcihcdRingEnqueue a.producer noOpCmd
        stage := .idle } := by
      rw [hb, produce_iterate]
      have h6 : enqueueStep^[6] ((a.call noOpCmd).stage, (a.call noOpCmd).producer) =
          (.idle, xhcihcdRingEnqueue a.producer noOpCmd) := enqueueStep_eq a.producer noOpCmd
      rw [h6]
    have hring : (xhcihcdRingEnqueue a.producer noOpCmd).ring = a.producer.ring := by
      unfold xhcihcdRingEnqueue
      simp only []
      split
      · rfl
      · rfl
    have hrun : TrbRun anyHandover a b := by
      rw [hb]
      exact Relation.ReflTransGen.head (TrbStep.call noOpCmd hidle (by decide) (by omega)) (produce_run 6 _)
    have hblen : b.enqueued.length = a.enqueued.length + 1 := by
      rw [hbeq]
      exact List.length_append
    have hbseen : b.seen = a.seen := by rw [hbeq]; rfl
    obtain ⟨d, hd, hdidle, hdlen, hdseen, hddeq, hdring⟩ := enqueue_many n b (by rw [hbeq])
      (by rw [hblen, hbseen]; omega)
    refine ⟨d, hrun.trans hd, hdidle, by rw [hdlen, hblen]; omega, hdseen.trans hbseen, ?_, ?_⟩
    · rw [hddeq, hbeq]
      rfl
    · rw [hdring, hbeq]
      exact hring

/-- The controller takes `n` TRBs. -/
theorem consume_many : ∀ (n : ℕ) {a : TrbSystem} {lap c : ℕ}, RingInv a lap c →
    c + n ≤ handed a.stage a.producer.enqueueSlot lap →
    ∃ b, TrbRun anyHandover a b ∧ RingInv b lap (c + n) ∧ b.stage = a.stage ∧ b.enqueued = a.enqueued
  | 0, a, lap, c, h, _ => ⟨a, Relation.ReflTransGen.refl, h, rfl, rfl⟩
  | n + 1, a, lap, c, h, hn => by
    obtain ⟨hprod, hstage, henq⟩ := consume_driver a
    obtain ⟨b, hrun, hb, hbstage, hbenq⟩ := consume_many n (h.consume_next (by omega))
      (by rw [hprod, hstage]; omega)
    refine ⟨b, Relation.ReflTransGen.head TrbStep.consume hrun, ?_, hbstage.trans hstage, hbenq.trans henq⟩
    have e : c + (n + 1) = c + 1 + n := by omega
    rw [e]
    exact hb

/-- Two laps of No Op commands, and the controller takes the first lap but does not follow its Link TRB. -/
theorem producer_ring_stalls : ¬DeliversExactly fun _ => True := by
  intro hall
  obtain ⟨a₁, hrun₁, hidle₁, hlen₁, hseen₁, -⟩ := enqueue_many 255 (TrbSystem.start 0) rfl (by decide)
  have hlen₁' : a₁.enqueued.length = 255 := hlen₁
  have hseen₁' : a₁.seen.length = 0 := by rw [hseen₁]; rfl
  rcases TrbRun.inv hrun₁ with ⟨lap, c, h₁⟩ | h₁
  · have hst₁ := h₁.stored
    have hs₁ := h₁.seen
    rw [hidle₁] at hst₁
    obtain ⟨hslot, henq⟩ := hst₁
    have hhanded : handed a₁.stage a₁.producer.enqueueSlot lap = 256 * lap + a₁.producer.enqueueSlot := by
      rw [hidle₁]
      rfl
    have hc : c = 0 := by omega
    obtain ⟨a₂, hrun₂, h₂, hidle₂, henq₂⟩ := consume_many 255 h₁ (by omega)
    have hs₂ := h₂.seen
    obtain ⟨a₃, hrun₃, hidle₃, hlen₃, hseen₃, hdeq₃, hring₃⟩ := enqueue_many 255 a₂ (hidle₂.trans hidle₁)
      (by rw [henq₂]; omega)
    have hrun : TrbRun anyHandover (TrbSystem.start 0) a₃ := (hrun₁.trans hrun₂).trans hrun₃
    have hlen : a₃.enqueued.length = 510 := by rw [hlen₃, henq₂]; omega
    have hseen : a₃.seen.length = 255 := by rw [hseen₃]; omega
    -- the ring cannot be in order: the driver would be more than a lap ahead
    have hstall : Stalled a₃ := by
      rcases TrbRun.inv hrun with ⟨lap₃, c₃, h₃⟩ | h₃
      · exfalso
        have hst₃ := h₃.stored
        have hs₃ := h₃.seen
        have hroom := h₃.lapped.room
        rw [hidle₃] at hst₃ hroom
        have hroom' : 256 * lap₃ + a₃.producer.enqueueSlot ≤ c₃ + 256 := hroom
        have hd : c₃ % 256 = (c + 255) % 256 := by
          have h := h₃.dequeue
          rw [hdeq₃, hring₃, h₂.dequeue] at h
          have h16 := Nat.add_left_cancel h
          omega
        have := hst₃.1
        have := hst₃.2
        omega
      · exact h₃
    obtain ⟨n, hn⟩ := (hall 0 a₃ hrun).2 hidle₃
    have hfix : TrbSystem.consume^[n] a₃ = a₃ := Function.iterate_fixed hstall.consume n
    rw [hfix] at hn
    have := congrArg List.length hn
    rw [List.length_map, List.length_map] at this
    omega
  · have := h₁.lapDone
    omega

end Borgos.Usb
