import Borgos.Usb.CompletionLaws

/-! # The actual length of a control transfer

`xhcihcd_control_transfer_hw` as a whole: the stages, the wait loop with the interrupts that come during its delays, and
what is read off the event. The controller reports a stage when its TRB asks for it, and the residual of a report is
about that stage alone.
-/
namespace Borgos.Usb
open Borgos.Foundations
set_option autoImplicit false

/-! ## The wait -/

inductive WaitResult where
  | done
  | dead
  | timeout
deriving DecidableEq

/-- `while (dev->xfer_pending && tloops--)`; `interrupts k` is what happens before the test number `k`. -/
def waitTransfer (interrupts : ℕ → Prog Xhci Unit) (slot : ℕ) : ℕ → ℕ → Prog Xhci WaitResult
  | tloops, k => do
    interrupts k
    let s ← Prog.get
    if s.xferPending slot = false then pure .done
    else
      match tloops with
      | 0 => pure .timeout
      | tloops + 1 => if s.hcdstate = .dead then pure .dead else waitTransfer interrupts slot tloops (k + 1)

/-- `xhcihcd_control_transfer_hw`: what it stores in `*actual_length`, if anything, and its result. -/
def xhcihcdControlTransfer (interrupts : ℕ → Prog Xhci Unit) (slot : ℕ) (setup : SetupPacket) (buffer : ℕ)
    (length : BitVec 16) : Prog Xhci (Option ℕ × UsbResult) := do
  Prog.modify (xhcihcdControlTransferHw slot setup buffer length)
  match ← waitTransfer interrupts slot 500 0 with
  | .done => do
    let s ← Prog.get
    pure (some (xhcihcdControlResult s slot length).1, (xhcihcdControlResult s slot length).2)
  | .dead => do
    Prog.modify fun s => xhcihcdControlTimeout s slot
    pure (none, .error)
  | .timeout => do
    Prog.modify fun s => xhcihcdControlTimeout s slot
    pure (none, .error)

/-! ## The controller -/

/-- A TRB that the controller has executed, with the number of bytes it moved for it. -/
structure Stage where
  phys : ℕ
  trb : Trb
  moved : ℕ

namespace Stage

/-- The TRB Transfer Length. -/
def length (st : Stage) : ℕ := (st.trb.status &&& 0x1FFFF#32).toNat

/-- A report is due: the TRB has Interrupt On Completion, or Interrupt On Short Packet and not all was moved. -/
def reports (st : Stage) : Bool :=
  st.trb.control &&& xhciTrbIoc ≠ 0#32 ∨ st.trb.control &&& xhciTrbIsp ≠ 0#32 ∧ st.moved < st.length

/-- The event is a report of the stage, on endpoint 0 of the device in `slot`. -/
structure ReportedBy (st : Stage) (slot : ℕ) (ev : Trb) : Prop where
  pointer : ev.parameter = st.phys
  slot : (xhciTrbGetSlot ev.control).toNat = slot
  ep0 : (xhciEvtEpId ev.control).toNat = xhciDbEp0Target
  code : xhciEvtCompCode ev.status = if st.moved < st.length then xhciCcShortPacket else xhciCcSuccess
  residual : (xhciEvtXferLen ev.status).toNat = st.length - st.moved

end Stage

/-- The stages of a transfer with data, on the ring `r`, when `n` bytes were moved in the data stage. -/
def controlStages (r : ProducerRing) (setup : SetupPacket) (buffer : ℕ) (length : BitVec 16) (n : ℕ) : List Stage :=
  let trt := controlTrt setup buffer length
  let r₁ := xhcihcdRingEnqueue r (setupStage setup trt)
  let r₂ := xhcihcdRingEnqueue r₁ (dataStage buffer length trt)
  [⟨r.enqueueAddress, setupStage setup trt, 8⟩, ⟨r₁.enqueueAddress, dataStage buffer length trt, n⟩,
    ⟨r₂.enqueueAddress, statusStage trt, 0⟩]

/-- The events that the controller writes for the stages. -/
def Answers (slot : ℕ) (stages : List Stage) (events : List Trb) : Prop :=
  List.Forall₂ (fun st ev => st.ReportedBy slot ev) (stages.filter Stage.reports) events

def handleEvents (xferCbFunc : ℕ → Prog Xhci Unit) : List Trb → Prog Xhci Unit
  | [] => pure ()
  | ev :: evs => do
    xhcihcdHandleTransferEvent xferCbFunc ev
    handleEvents xferCbFunc evs

/-- The events are handled before the test number `round` of the wait loop. -/
def interruptAt (xferCbFunc : ℕ → Prog Xhci Unit) (events : List Trb) (round k : ℕ) : Prog Xhci Unit :=
  if k = round then handleEvents xferCbFunc events else pure ()

/-! ## Only the status stage reports -/

section Stages
variable {setup : SetupPacket} {buffer n : ℕ} {length : BitVec 16} {r : ProducerRing} {slot : ℕ} {events : List Trb}

theorem controlTrt_data (setup : SetupPacket) (hb : buffer ≠ 0) (hl : length ≠ 0#16) :
    controlTrt setup buffer length = xhciTrtInData ∨ controlTrt setup buffer length = xhciTrtOutData := by
  unfold controlTrt
  rw [if_pos ⟨hl, hb⟩]
  cases setup.dirIn
  · exact .inr rfl
  · exact .inl rfl

theorem setupStage_silent {trt : BitVec 32} (ht : trt = xhciTrtInData ∨ trt = xhciTrtOutData) (phys moved : ℕ) :
    (Stage.mk phys (setupStage setup trt) moved).reports = false := by
  have hbits : (setupStage setup trt).control &&& xhciTrbIoc = 0#32 ∧
      (setupStage setup trt).control &&& xhciTrbIsp = 0#32 := by
    have hcontrol : (setupStage setup trt).control = xhciTrbSetType 2#32 ||| xhciTrbSetTrt trt ||| xhciTrbIdt := rfl
    rw [hcontrol]
    rcases ht with rfl | rfl
    · decide
    · decide
  simp [Stage.reports, hbits]

theorem dataStage_silent {trt : BitVec 32} (ht : trt = xhciTrtInData ∨ trt = xhciTrtOutData) (phys moved : ℕ) :
    (Stage.mk phys (dataStage buffer length trt) moved).reports = false := by
  have hbits : (dataStage buffer length trt).control &&& xhciTrbIoc = 0#32 ∧
      (dataStage buffer length trt).control &&& xhciTrbIsp = 0#32 := by
    have hcontrol : (dataStage buffer length trt).control =
      if trt = xhciTrtInData then xhciTrbSetType 3#32 ||| xhciTrbDirIn else xhciTrbSetType 3#32 := rfl
    rw [hcontrol]
    rcases ht with rfl | rfl
    · decide
    · decide
  simp [Stage.reports, hbits]

theorem statusStage_reports {trt : BitVec 32} (ht : trt = xhciTrtInData ∨ trt = xhciTrtOutData) (phys moved : ℕ) :
    (Stage.mk phys (statusStage trt) moved).reports = true := by
  have hbits : (statusStage trt).control &&& xhciTrbIoc ≠ 0#32 := by
    rcases ht with rfl | rfl
    · decide
    · decide
  simp [Stage.reports, hbits]

/-- Whatever was moved in the data stage, the one event is a success with residual 0. -/
theorem answers_one (hb : buffer ≠ 0) (hl : length ≠ 0#16)
    (h : Answers slot (controlStages r setup buffer length n) events) :
    ∃ ev, events = [ev] ∧ (xhciTrbGetSlot ev.control).toNat = slot ∧
      (xhciEvtEpId ev.control).toNat = xhciDbEp0Target ∧ xhciEvtCompCode ev.status = xhciCcSuccess ∧
      xhciEvtXferLen ev.status = 0#32 := by
  have ht := controlTrt_data setup hb hl
  unfold Answers controlStages at h
  simp only [List.filter_cons, setupStage_silent ht, dataStage_silent ht, statusStage_reports ht, Bool.false_eq_true,
    if_false, if_true, List.filter_nil] at h
  cases h with
  | cons hev hnil =>
    cases hnil
    have hlen : ∀ trt, (statusStage trt).status = 0#32 := fun _ => rfl
    have hcode := hev.code
    have hres := hev.residual
    simp only [Stage.length, hlen] at hcode hres
    exact ⟨_, rfl, hev.slot, hev.ep0, by simpa using hcode, BitVec.eq_of_toNat_eq (by simpa using hres)⟩

end Stages

/-! ## The run -/

section Run
variable {xferCbFunc : ℕ → Prog Xhci Unit} {slot round : ℕ} {ev : Trb} {s t : Xhci}

/-- The loop waits for the round in which the events come, or gives up before it. -/
theorem waitTransfer_run {events : List Trb} (hlive : s.hcdstate ≠ .dead) (hp : s.xferPending slot = true)
    (hev : handleEvents xferCbFunc events s = .ok () t) (ht : t.xferPending slot = false) (tloops k : ℕ)
    (hk : k ≤ round) :
    waitTransfer (interruptAt xferCbFunc events round) slot tloops k s =
      if round ≤ k + tloops then .ok .done t else .ok .timeout s := by
  induction tloops generalizing k with
  | zero =>
    unfold waitTransfer
    by_cases hround : k = round
    · simp [interruptAt, hround, hev, ht]
    · have hlt : ¬ round ≤ k := by omega
      simp [interruptAt, hround, hp, hlt]
  | succ tloops ih =>
    unfold waitTransfer
    by_cases hround : k = round
    · simp [interruptAt, hround, hev, ht]
    · have hrest := ih (k + 1) (by omega)
      rw [show k + 1 + tloops = k + (tloops + 1) by omega] at hrest
      simp only [interruptAt, if_neg hround, Prog.bind_run, Prog.pure_run, Prog.get_run, Outcome.andThen_ok, hp,
        Bool.true_eq_false, if_false, if_neg hlive]
      exact hrest

/-- The state of the driver after the event of the status stage. -/
theorem handleEvents_one (xferCbFunc : ℕ → Prog Xhci Unit) (hs : slot ≠ 0 ∧ slot ≤ xhciMaxSlotsSupported)
    (hdev : s.devices slot = some true) (hp : s.xferPending slot = true)
    (hslot : (xhciTrbGetSlot ev.control).toNat = slot) (hep : (xhciEvtEpId ev.control).toNat = xhciDbEp0Target) :
    ∃ t, handleEvents xferCbFunc [ev] s = .ok () t ∧ t.xferPending slot = false ∧
      t.xferCode slot = xhciEvtCompCode ev.status ∧ t.xferResidual slot = xhciEvtXferLen ev.status := by
  have hrun : handleEvents xferCbFunc [ev] s = .ok ()
      { s with
        xferCode := Function.update s.xferCode slot (xhciEvtCompCode ev.status)
        xferResidual := Function.update s.xferResidual slot (xhciEvtXferLen ev.status)
        xferPending := Function.update s.xferPending slot false } := by
    simp only [handleEvents, Prog.bind_run, transferEvent_taken hslot hep hs hdev hp, Outcome.andThen_ok,
      Prog.pure_run]
  exact ⟨_, hrun, Function.update_self slot _ _, Function.update_self slot _ _, Function.update_self slot _ _⟩

/-- A device that a control transfer can be sent to: its slot is in use and the controller is not dead. -/
structure Addressable (s : Xhci) (slot : ℕ) : Prop where
  range : slot ≠ 0 ∧ slot ≤ xhciMaxSlotsSupported
  device : s.devices slot = some true
  live : s.hcdstate ≠ .dead

/-- The length asked for is reported, however much was moved. -/
theorem controlTransfer_run (xferCbFunc : ℕ → Prog Xhci Unit) {s : Xhci} {slot : ℕ} (hs : Addressable s slot)
    {setup : SetupPacket} {buffer : ℕ} (hb : buffer ≠ 0) {length : BitVec 16} (hl : length ≠ 0#16) {n : ℕ}
    {events : List Trb} (hev : Answers slot (controlStages (s.ep0Ring slot) setup buffer length n) events)
    (round : ℕ) :
    ∃ t, xhcihcdControlTransfer (interruptAt xferCbFunc events round) slot setup buffer length s =
      .ok (if round ≤ 500 then (some length.toNat, .ok) else (none, .error)) t := by
  obtain ⟨ev, rfl, hslot, hep, hcode, hres⟩ := answers_one hb hl hev
  obtain ⟨s₁, hs₁⟩ : ∃ s₁, xhcihcdControlTransferHw slot setup buffer length s = s₁ := ⟨_, rfl⟩
  have hdev₁ : s₁.devices slot = some true := by
    rw [← hs₁]
    exact hs.device
  have hlive₁ : s₁.hcdstate ≠ .dead := by
    rw [← hs₁]
    exact hs.live
  have hp₁ : s₁.xferPending slot = true := by
    rw [← hs₁]
    exact Function.update_self slot _ _
  obtain ⟨t, ht, hpt, hct, hrt⟩ := handleEvents_one xferCbFunc hs.range hdev₁ hp₁ hslot hep
  have hwait := waitTransfer_run hlive₁ hp₁ ht hpt 500 0 (Nat.zero_le round)
  have hresult : xhcihcdControlResult t slot length = (length.toNat, .ok) := by
    unfold xhcihcdControlResult
    rw [hct, hrt, hcode, hres]
    simp
  rw [Nat.zero_add] at hwait
  unfold xhcihcdControlTransfer
  by_cases hround : round ≤ 500
  · refine ⟨t, ?_⟩
    rw [if_pos hround] at hwait ⊢
    simp only [Prog.bind_run, Prog.modify_run, Outcome.andThen_ok, hs₁, hwait, Prog.get_run, Prog.pure_run, hresult]
  · refine ⟨xhcihcdControlTimeout s₁ slot, ?_⟩
    rw [if_neg hround] at hwait ⊢
    simp only [Prog.bind_run, Prog.modify_run, Outcome.andThen_ok, hs₁, hwait, Prog.pure_run]

/-- With data of length `length`, of which the controller moves `n` bytes before it completes the status stage:
the transfer succeeds with the number of bytes moved exactly when that is all of them and the event comes while the
driver waits. -/
theorem control_length_iff (xferCbFunc : ℕ → Prog Xhci Unit) (s : Xhci) (slot : ℕ) (hs : Addressable s slot)
    (setup : SetupPacket) (buffer : ℕ) (hb : buffer ≠ 0) (length : BitVec 16) (hl : length ≠ 0#16) (n : ℕ)
    (hn : n ≤ length.toNat) (events : List Trb)
    (hev : Answers slot (controlStages (s.ep0Ring slot) setup buffer length n) events) (round : ℕ) :
    (∃ t, xhcihcdControlTransfer (interruptAt xferCbFunc events round) slot setup buffer length s =
      .ok (some n, .ok) t) ↔ n = length.toNat ∧ round ≤ 500 := by
  obtain ⟨t, hrun⟩ := controlTransfer_run xferCbFunc hs hb hl hev round
  rw [hrun]
  by_cases hround : round ≤ 500
  · rw [if_pos hround]
    constructor
    · rintro ⟨t', h⟩
      cases h
      exact ⟨rfl, hround⟩
    · rintro ⟨rfl, -⟩
      exact ⟨t, rfl⟩
  · rw [if_neg hround]
    constructor
    · rintro ⟨t', h⟩
      cases h
    · rintro ⟨-, h⟩
      exact absurd h hround

end Run

/-! ## The keyboard's device descriptor -/

theorem keyboard_addressable : Addressable keyboardHc 1 := ⟨by decide, rfl, by decide⟩

/-- The keyboard's answer, when it moves `n` of the 18 bytes. -/
theorem keyboard_answers (n : ℕ) : ∃ phys, Answers 1 (controlStages (keyboardHc.ep0Ring 1) getDeviceDescriptor
    0xFFFF800000200000 18#16 n) [ep0Success phys] := by
  have ht := controlTrt_data getDeviceDescriptor (show 0xFFFF800000200000 ≠ 0 by norm_num) (show 18#16 ≠ 0#16 by decide)
  unfold Answers controlStages
  simp only [List.filter_cons, setupStage_silent ht, dataStage_silent ht, statusStage_reports ht, Bool.false_eq_true,
    if_false, if_true, List.filter_nil]
  exact ⟨_, .cons ⟨parameter_split (enqueueAddress_lt _) _ _, ep0Success_control.2.1, ep0Success_control.2.2, rfl, rfl⟩
    .nil⟩

theorem control_length_iff_full : ∃ events t,
    Answers 1 (controlStages (keyboardHc.ep0Ring 1) getDeviceDescriptor 0xFFFF800000200000 18#16 18) events ∧
      xhcihcdControlTransfer (interruptAt (fun _ => pure ()) events 3) 1 getDeviceDescriptor 0xFFFF800000200000 18#16
        keyboardHc = .ok (some 18, .ok) t := by
  obtain ⟨phys, hev⟩ := keyboard_answers 18
  obtain ⟨t, ht⟩ := (control_length_iff (fun _ => pure ()) keyboardHc 1 keyboard_addressable getDeviceDescriptor
    0xFFFF800000200000 (by norm_num) 18#16 (by decide) 18 (by decide) _ hev 3).mpr ⟨rfl, by norm_num⟩
  exact ⟨_, t, hev, ht⟩

/-- The keyboard sends 8 of 18 bytes; the driver reports 18. -/
theorem short_transfer_reported_full : ∃ events,
    Answers 1 (controlStages (keyboardHc.ep0Ring 1) getDeviceDescriptor 0xFFFF800000200000 18#16 8) events ∧
      ¬ ∃ t, xhcihcdControlTransfer (interruptAt (fun _ => pure ()) events 3) 1 getDeviceDescriptor
        0xFFFF800000200000 18#16 keyboardHc = .ok (some 8, .ok) t := by
  obtain ⟨phys, hev⟩ := keyboard_answers 8
  obtain ⟨t, ht⟩ := controlTransfer_run (fun _ => pure ()) keyboard_addressable (by norm_num) (by decide) hev 3
  refine ⟨_, hev, ?_⟩
  rintro ⟨t', h⟩
  rw [ht] at h
  have h18 := congrArg Prod.fst (Outcome.ok.inj h).1
  simp at h18

end Borgos.Usb
