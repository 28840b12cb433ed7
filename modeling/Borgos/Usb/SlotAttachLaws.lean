import Borgos.Usb.SlotAttach

/-! # What a failed attach leaves behind

Until Enable Slot has handed out a free slot, a failing attach has changed no table. From then on the slot has a device,
and no exit takes it out again.
-/
namespace Borgos.Usb
open Borgos.Foundations
set_option autoImplicit false

variable {s t u : SlotState} {env : AttachEnv} {slotId : BitVec 32}

/-! ## The tables -/

/-- The tables that the controller and later attaches go by are the same. -/
structure Traceless (s t : SlotState) : Prop where
  devices : t.hc.devices = s.hc.devices
  addressToSlot : t.hc.addressToSlot = s.hc.addressToSlot
  dcbapp : t.dcbapp = s.dcbapp

theorem Traceless.trans (h : Traceless s t) (h' : Traceless t u) : Traceless s u :=
  ⟨h'.devices.trans h.devices, h'.addressToSlot.trans h.addressToSlot, h'.dcbapp.trans h.dcbapp⟩

/-! ## Commands -/

namespace CommandOutcome

def slot : CommandOutcome → Option (BitVec 32)
  | completed _ slotId => some slotId
  | timeout => none

def result : CommandOutcome → UsbResult
  | completed code _ => if code = xhciCcSuccess then .ok else .error
  | timeout => .error

end CommandOutcome

theorem executeCommand_dead (h : s.hc.hcdstate = .dead) (trb : Trb) (o : CommandOutcome) :
    executeCommand trb o s = .panic "HCD IS DEAD\n" s := by
  simp [executeCommand, Prog.zoom, xhcihcdCommandExecute, h]

theorem executeCommand_run (h : s.hc.hcdstate ≠ .dead) (trb : Trb) (o : CommandOutcome) :
    ∃ t, executeCommand trb o s = .ok (o.slot, o.result) t ∧ Traceless s t ∧ t.hc.hcdstate ≠ .dead := by
  obtain ⟨hc, hrun, hdev, haddr, hstate⟩ : ∃ hc, xhcihcdCommandExecute trb s.hc = .ok () hc ∧
      hc.devices = s.hc.devices ∧ hc.addressToSlot = s.hc.addressToSlot ∧ hc.hcdstate = s.hc.hcdstate := by
    have hrun : xhcihcdCommandExecute trb s.hc = .ok () (xhcihcdDoorbell 0 xhciDbCmdTarget
        { s.hc with
          cmdCode := xhciCcInvalid
          cmdTrbPhys := s.hc.cmdRing.enqueueAddress
          cmdSlotId := 0#32
          cmdPending := true
          cmdRing := xhcihcdRingEnqueue s.hc.cmdRing trb }) := by
      rw [xhcihcdCommandExecute, Prog.bind_run, Prog.get_run, Outcome.andThen_ok, if_neg h, Prog.modify_run]
    exact ⟨_, hrun, rfl, rfl, rfl⟩
  have hzoom : Prog.zoom SlotState.hc (fun hc s => { s with hc := hc }) (xhcihcdCommandExecute trb) s =
      .ok () { s with hc := hc } := Prog.zoom_ok.mpr ⟨hc, hrun, rfl⟩
  cases o with
  | timeout =>
    refine ⟨{ s with hc := xhcihcdCommandTimeout hc }, ?_, ⟨hdev, haddr, rfl⟩, ?_⟩
    · simp only [executeCommand, Prog.bind_run, hzoom, Outcome.andThen_ok, Prog.modify_run, Prog.pure_run]
      rfl
    · exact fun e => h (hstate.symm.trans e)
  | completed code slotId =>
    refine ⟨{ s with hc := { hc with cmdCode := code, cmdSlotId := slotId, cmdPending := false } }, ?_,
      ⟨hdev, haddr, rfl⟩, ?_⟩
    · simp only [executeCommand, Prog.bind_run, hzoom, Outcome.andThen_ok, Prog.modify_run, Prog.get_run, Prog.pure_run]
      rfl
    · exact fun e => h (hstate.symm.trans e)

/-! ## The device's structures -/

def AttachPages.Complete (pages : AttachPages) : Prop := pages.devCtx ≠ 0 ∧ pages.inCtx ≠ 0 ∧ pages.ep0Ring ≠ 0

instance (pages : AttachPages) : Decidable pages.Complete := inferInstanceAs (Decidable (_ ∧ _))

theorem allocStructures_run (slot : ℕ) (pages : AttachPages) (s : SlotState) :
    ∃ t, xhciDeviceAllocStructures slot pages s = .ok (if pages.Complete then .ok else .error) t ∧
      Traceless s t ∧ t.hc.hcdstate = s.hc.hcdstate := by
  obtain ⟨s₁, hs₁⟩ : ∃ s₁, s.setDevice slot (fun d => { d with devCtxVirt := pages.devCtx }) = s₁ := ⟨_, rfl⟩
  obtain ⟨s₂, hs₂⟩ : ∃ s₂, s₁.setDevice slot (fun d => { d with inCtxVirt := pages.inCtx }) = s₂ := ⟨_, rfl⟩
  have h₁ : Traceless s s₁ ∧ s₁.hc.hcdstate = s.hc.hcdstate := by
    rw [← hs₁]
    exact ⟨⟨rfl, rfl, rfl⟩, rfl⟩
  have h₂ : Traceless s s₂ ∧ s₂.hc.hcdstate = s.hc.hcdstate := by
    rw [← hs₂]
    exact ⟨h₁.1.trans ⟨rfl, rfl, rfl⟩, h₁.2⟩
  unfold AttachPages.Complete
  by_cases hdev : pages.devCtx = 0
  · refine ⟨s₁, ?_, h₁⟩
    simp only [xhciDeviceAllocStructures, Prog.bind_run, Prog.modify_run, Outcome.andThen_ok, hs₁]
    simp [hdev]
  by_cases hin : pages.inCtx = 0
  · refine ⟨s₂, ?_, h₂⟩
    simp only [xhciDeviceAllocStructures, Prog.bind_run, Prog.modify_run, Outcome.andThen_ok, hs₁, if_neg hdev, hs₂]
    simp [hin]
  obtain ⟨s₃, hs₃⟩ : ∃ s₃ : SlotState, { s₂ with inCtx := Function.update s₂.inCtx slot InputContext.zero } = s₃ :=
    ⟨_, rfl⟩
  have h₃ : Traceless s s₃ ∧ s₃.hc.hcdstate = s.hc.hcdstate := by
    rw [← hs₃]
    exact ⟨h₂.1.trans ⟨rfl, rfl, rfl⟩, h₂.2⟩
  by_cases hring : pages.ep0Ring = 0
  · refine ⟨s₃, ?_, h₃⟩
    simp only [xhciDeviceAllocStructures, Prog.bind_run, Prog.modify_run, Outcome.andThen_ok, hs₁, if_neg hdev, hs₂,
      if_neg hin, hs₃]
    simp [hring]
  · refine ⟨{ s₃ with hc := { s₃.hc with
      ep0Ring := Function.update s₃.hc.ep0Ring slot (ProducerRing.init pages.ep0Ring) } }, ?_,
      h₃.1.trans ⟨rfl, rfl, rfl⟩, h₃.2⟩
    simp only [xhciDeviceAllocStructures, Prog.bind_run, Prog.modify_run, Outcome.andThen_ok, hs₁, if_neg hdev, hs₂,
      if_neg hin, hs₃, if_neg hring, Prog.pure_run]
    simp [hdev, hin, hring]

/-- From the installed device on: an error exit leaves the table of devices as it is. -/
theorem addressSlot_run (h : s.hc.hcdstate ≠ .dead) (rootPort : ℕ) (speed : UsbSpeed) (env : AttachEnv)
    (slotId : BitVec 32) :
    ∃ t, addressSlot rootPort speed env slotId s =
        .ok (if env.pages.Complete ∧ env.addressDevice.result = .ok then .ok else .error) t ∧
      (¬ (env.pages.Complete ∧ env.addressDevice.result = .ok) →
        t.hc.devices = s.hc.devices ∧ t.hc.hcdstate ≠ .dead) := by
  obtain ⟨s₁, halloc, hsame, hstate⟩ := allocStructures_run slotId.toNat env.pages s
  by_cases hpages : env.pages.Complete
  · rw [if_pos hpages] at halloc
    obtain ⟨s₂, hs₂⟩ : ∃ s₂, s₁.giveContexts slotId.toNat rootPort speed = s₂ := ⟨_, rfl⟩
    have hdev₂ : s₂.hc.devices = s.hc.devices := by
      rw [← hs₂]
      exact hsame.devices
    have hlive₂ : s₂.hc.hcdstate ≠ .dead := by
      rw [← hs₂]
      exact fun e => h (hstate.symm.trans e)
    obtain ⟨s₃, hcmd, hsame₃, hlive₃⟩ := executeCommand_run hlive₂
      (addressDeviceTrb (s₂.device slotId.toNat).inCtxVirt slotId) env.addressDevice
    cases hres : env.addressDevice.result with
    | ok =>
      rw [hres] at hcmd
      refine ⟨s₃.putInUse slotId.toNat env.address.toNat, ?_, fun hno => absurd ⟨hpages, rfl⟩ hno⟩
      simp [addressSlot, halloc, hs₂, hcmd, hpages]
    | error =>
      rw [hres] at hcmd
      refine ⟨s₃, ?_, fun _ => ⟨hsame₃.devices.trans hdev₂, hlive₃⟩⟩
      simp [addressSlot, halloc, hs₂, hcmd]
  · rw [if_neg hpages] at halloc
    refine ⟨s₁, ?_, fun _ => ⟨hsame.devices, fun e => h (hstate.symm.trans e)⟩⟩
    simp [addressSlot, halloc, hpages]

/-! ## The whole attach -/

/-- Enable Slot hands out a slot that the driver has a device structure for. -/
def CommandOutcome.Gives (o : CommandOutcome) (slotId : BitVec 32) : Prop :=
  o = .completed xhciCcSuccess slotId ∧ slotId ≠ 0#32 ∧ slotId.toNat ≤ xhciMaxSlotsSupported

/-- The attach fails after it was given a free slot: a page is missing, or Address Device is not successful. -/
def FailsLate (s : SlotState) (env : AttachEnv) : Prop :=
  s.hc.hcdstate ≠ .dead ∧ ∃ slotId, env.enableSlot.Gives slotId ∧ s.hc.devices slotId.toNat = none ∧
    ¬ (env.pages.Complete ∧ env.addressDevice.result = .ok)

/-- Enable Slot gives no usable slot. -/
theorem attach_without_slot (rootPort : ℕ) (speed : UsbSpeed) (h : s.hc.hcdstate ≠ .dead)
    (hno : ∀ slotId, ¬ env.enableSlot.Gives slotId) :
    ∃ t, xhcihcdDeviceAttachInternal rootPort speed env s = .ok .error t ∧ Traceless s t := by
  obtain ⟨t, hcmd, hsame, -⟩ := executeCommand_run h (enableSlotTrb (slotTypeFor s.protocols rootPort)) env.enableSlot
  refine ⟨t, ?_, hsame⟩
  cases he : env.enableSlot with
  | timeout =>
    rw [he, CommandOutcome.slot] at hcmd
    unfold xhcihcdDeviceAttachInternal
    simp only [Prog.bind_run, Prog.get_run, Outcome.andThen_ok, he, hcmd, Option.getD_none, true_or, if_true,
      Prog.pure_run]
  | completed code slotId =>
    rw [he, CommandOutcome.slot, CommandOutcome.result] at hcmd
    unfold xhcihcdDeviceAttachInternal
    simp only [Prog.bind_run, Prog.get_run, Outcome.andThen_ok, he, hcmd, Option.getD_some]
    by_cases hrange : slotId = 0#32 ∨ slotId.toNat > xhciMaxSlotsSupported
    · rw [if_pos hrange, Prog.pure_run]
    · have hcode : code ≠ xhciCcSuccess := by
        rintro rfl
        push Not at hrange
        exact hno slotId ⟨he, hrange.1, hrange.2⟩
      rw [if_neg hrange, if_neg hcode]
      simp

/-- Enable Slot gives a slot. -/
theorem attach_with_slot (rootPort : ℕ) (speed : UsbSpeed) (h : s.hc.hcdstate ≠ .dead)
    (hgive : env.enableSlot.Gives slotId) :
    ∃ s₁, Traceless s s₁ ∧ s₁.hc.hcdstate ≠ .dead ∧ xhcihcdDeviceAttachInternal rootPort speed env s =
      match s₁.hc.devices slotId.toNat with
      | some _ => .panic "xhcidev->devices[slot_id] already has a device" s₁
      | none => addressSlot rootPort speed env slotId (s₁.install slotId.toNat rootPort speed) := by
  obtain ⟨he, h0, hmax⟩ := hgive
  obtain ⟨s₁, hcmd, hsame, hlive⟩ := executeCommand_run h
    (enableSlotTrb (slotTypeFor s.protocols rootPort)) env.enableSlot
  have hslot : env.enableSlot.slot = some slotId := by rw [he, CommandOutcome.slot]
  have hres : env.enableSlot.result = .ok := by rw [he, CommandOutcome.result, if_pos rfl]
  have hrange : ¬ (slotId = 0#32 ∨ slotId.toNat > xhciMaxSlotsSupported) := by
    push Not
    exact ⟨h0, hmax⟩
  rw [hslot, hres] at hcmd
  refine ⟨s₁, hsame, hlive, ?_⟩
  unfold xhcihcdDeviceAttachInternal
  simp only [Prog.bind_run, Prog.get_run, Outcome.andThen_ok, hcmd, Option.getD_some, if_neg hrange, ne_eq,
    not_true_eq_false, if_false]
  cases s₁.hc.devices slotId.toNat with
  | none => rfl
  | some b => rfl

/-- An attach that returns an error leaves no trace exactly when it does not fail late. -/
theorem failed_attach_traceless_iff (s : SlotState) (rootPort : ℕ) (speed : UsbSpeed) (env : AttachEnv) :
    (∀ t, xhcihcdDeviceAttachInternal rootPort speed env s = .ok .error t → Traceless s t) ↔ ¬ FailsLate s env := by
  by_cases hdead : s.hc.hcdstate = .dead
  · have hrun : xhcihcdDeviceAttachInternal rootPort speed env s = .panic "HCD IS DEAD\n" s := by
      simp [xhcihcdDeviceAttachInternal, executeCommand_dead hdead]
    constructor
    · rintro - ⟨hlive, -⟩
      exact hlive hdead
    · intro _ t ht
      rw [hrun] at ht
      cases ht
  by_cases hgive : ∃ slotId, env.enableSlot.Gives slotId
  · obtain ⟨slotId, hgive⟩ := hgive
    obtain ⟨s₁, hsame, hlive₁, hrun⟩ := attach_with_slot rootPort speed hdead hgive
    have hunique : ∀ id, env.enableSlot.Gives id → id = slotId := by
      intro id hid
      exact (CommandOutcome.completed.inj (hid.1.symm.trans hgive.1)).2
    rw [hrun, hsame.devices]
    cases hdev : s.hc.devices slotId.toNat with
    | some b =>
      constructor
      · rintro - ⟨-, id, hid, hnone, -⟩
        rw [hunique id hid, hdev] at hnone
        cases hnone
      · intro _ t ht
        cases ht
    | none =>
      obtain ⟨s₂, hs₂⟩ : ∃ s₂, s₁.install slotId.toNat rootPort speed = s₂ := ⟨_, rfl⟩
      have hlive₂ : s₂.hc.hcdstate ≠ .dead := by
        rw [← hs₂]
        exact hlive₁
      have hinstalled : s₂.hc.devices slotId.toNat = some false := by
        rw [← hs₂]
        exact Function.update_self _ _ _
      obtain ⟨t, haddr, hkept⟩ := addressSlot_run hlive₂ rootPort speed env slotId
      simp only [hs₂, haddr]
      by_cases hgood : env.pages.Complete ∧ env.addressDevice.result = .ok
      · rw [if_pos hgood]
        constructor
        · rintro - ⟨-, -, -, -, hbad⟩
          exact hbad hgood
        · intro _ t' ht'
          cases ht'
      · rw [if_neg hgood]
        constructor
        · intro htrace
          have hdevices := (htrace t rfl).devices
          rw [(hkept hgood).1] at hdevices
          have hslot := congrFun hdevices slotId.toNat
          rw [hinstalled, hdev] at hslot
          cases hslot
        · intro hnot
          exact absurd ⟨hdead, slotId, hgive, hdev, hgood⟩ hnot
  · push Not at hgive
    obtain ⟨t, hrun, hsame⟩ := attach_without_slot rootPort speed hdead hgive
    constructor
    · rintro - ⟨-, slotId, hid, -⟩
      exact hgive slotId hid
    · intro _ t' ht'
      rw [hrun] at ht'
      obtain ⟨-, rfl⟩ := Outcome.ok.inj ht'
      exact hsame

/-! ## A device that does not answer -/

/-- The controller with the keyboard, before anything is attached to slot 2. -/
def oneDevice : SlotState where
  hc := keyboardHc
  protocols := [⟨2, 0, 0, 5, 4⟩, ⟨3, 0, 0, 1, 4⟩]
  dcbapp _ := 0
  device _ := ⟨0, 0, .unknown, 0, 0, 0⟩
  inCtx _ := InputContext.zero

/-- Enable Slot gives slot 2, and Address Device times out. -/
def noAnswer : AttachEnv where
  enableSlot := .completed xhciCcSuccess 2#32
  pages := ⟨0xFFFF800000300000, 0xFFFF800000301000, 0xFFFF800000302000⟩
  addressDevice := .timeout
  address := 0#8

/-- The attach fails and slot 2 keeps its device; the next attach that is given slot 2 panics. -/
theorem unanswered_attach_leaves_device : ∃ t u,
    xhcihcdDeviceAttachInternal 1 .super noAnswer oneDevice = .ok .error t ∧ ¬ Traceless oneDevice t ∧
      xhcihcdDeviceAttachInternal 1 .super noAnswer t = .panic "xhcidev->devices[slot_id] already has a device" u := by
  have hgive : noAnswer.enableSlot.Gives 2#32 := ⟨rfl, by decide, by decide⟩
  obtain ⟨s₁, hsame, hlive, hrun⟩ := attach_with_slot (s := oneDevice) 1 .super (by decide) hgive
  have hfree : s₁.hc.devices (2#32).toNat = none := by
    rw [hsame.devices]
    rfl
  rw [hfree] at hrun
  obtain ⟨t, haddr, hkept⟩ := addressSlot_run (s := s₁.install (2#32).toNat 1 .super) hlive 1 .super noAnswer 2#32
  have hbad : ¬ (noAnswer.pages.Complete ∧ noAnswer.addressDevice.result = .ok) := by decide
  rw [if_neg hbad] at haddr
  have hdev : t.hc.devices (2#32).toNat = some false := by
    rw [(hkept hbad).1]
    simp only [SlotState.install, Function.update_self]
  obtain ⟨u, hsame', -, hagain⟩ := attach_with_slot 1 .super (hkept hbad).2 hgive
  rw [hsame'.devices, hdev] at hagain
  refine ⟨t, u, hrun.trans haddr, ?_, hagain⟩
  intro htrace
  have hslot := congrFun htrace.devices (2#32).toNat
  rw [hdev] at hslot
  cases hslot

end Borgos.Usb
