import Borgos.Foundations.Registers
import Borgos.Usb.Xhci

/-! # `xhci_hcd.c`: resetting the controller and its ports

The operational registers are addressed as the source does, from `reg_op_mmiobase`. They answer with arbitrary
values, so that the loops are judged for every controller.
-/
namespace Borgos.Usb
open Borgos.Foundations Borgos.Foundations.Registers
set_option autoImplicit false

def xhciOpUsbcmd : BitVec 64 := 0x00#64

def xhciOpUsbsts : BitVec 64 := 0x04#64

def xhciOpDnctrl : BitVec 64 := 0x14#64

def xhciOpCrcr : BitVec 64 := 0x18#64

def xhciOpDcbaap : BitVec 64 := 0x30#64

def xhciOpConfig : BitVec 64 := 0x38#64

def xhciOpPortBase : BitVec 32 := 0x400#32

def xhciPortSetSize : BitVec 32 := 0x10#32

def xhciPortPortsc : BitVec 64 := 0x00#64

def xhciCmdRs : BitVec 32 := 1#32 <<< 0

def xhciCmdHcrst : BitVec 32 := 1#32 <<< 1

def xhciStsHch : BitVec 32 := 1#32 <<< 0

def xhciStsCnr : BitVec 32 := 1#32 <<< 11

def xhciPortscPed : BitVec 32 := 1#32 <<< 1

def xhciPortscPr : BitVec 32 := 1#32 <<< 4

def xhciPortscWpr : BitVec 32 := 1#32 <<< 31

/-- `XHCI_PORTSC_CHANGE_MASK`: CSC, PEC, WRC, OCC, PRC, PLC and CEC. -/
def xhciPortscChangeMask : BitVec 32 :=
  1#32 <<< 17 ||| 1#32 <<< 18 ||| 1#32 <<< 19 ||| 1#32 <<< 20 ||| 1#32 <<< 21 ||| 1#32 <<< 22 ||| 1#32 <<< 23

/-- `XHCI_PORTSC_RW1_MASK`: the bits where writing a 1 is an action. -/
def xhciPortscRw1Mask : BitVec 32 := xhciPortscPed ||| xhciPortscPr ||| xhciPortscWpr ||| xhciPortscChangeMask

def usbTrstrcy : ℕ := 10

abbrev Mmio := Registers (BitVec 64)

/-! ## Ports -/

/-- The PORTSC register of a port; the offset is computed in 32 bits. -/
def portscAddress (regOpMmiobase : BitVec 64) (port : BitVec 32) : BitVec 64 :=
  regOpMmiobase + (xhciOpPortBase + (port - 1#32) * xhciPortSetSize).setWidth 64 + xhciPortPortsc

/-- `xhcihcd_port_write_status`. -/
def xhcihcdPortWriteStatus (regOpMmiobase : BitVec 64) (port setBits rw1Bits : BitVec 32) : Prog Mmio UsbResult := do
  let value ← read32 (portscAddress regOpMmiobase port)
  let value := value &&& ~~~xhciPortscRw1Mask
  let value := value ||| setBits &&& ~~~xhciPortscRw1Mask
  let value := value ||| rw1Bits &&& xhciPortscRw1Mask
  write32 (portscAddress regOpMmiobase port) value
  pure .ok

/-- `xhcihcd_port_reset`. -/
def xhcihcdPortReset (regOpMmiobase : BitVec 64) (port : BitVec 32) : Prog Mmio UsbResult := do
  let _ ← xhcihcdPortWriteStatus regOpMmiobase port xhciPortscPr 0#32
  let done ← poll (readTest (portscAddress regOpMmiobase port) fun v => v &&& xhciPortscPr == 1#32) (delay 2) 20
  pure (if done then .ok else .error)

/-- What resetting a port is to do: PORTSC is read and written back with PR set, no other action bit set and the
rest as read; success is reported only after a later read without PR, and an error if PR stays for all twenty polls. -/
def PortResets (regOpMmiobase : BitVec 64) (port : BitVec 32) (s : Mmio) : Prop :=
  ∃ res t v polls, xhcihcdPortReset regOpMmiobase port s = .ok res t ∧
    t.trace = s.trace ++ .read32 (portscAddress regOpMmiobase port) v ::
      .write32 (portscAddress regOpMmiobase port) (v &&& ~~~xhciPortscRw1Mask ||| xhciPortscPr) :: polls ∧
    (res = .ok → ∃ u, .read32 (portscAddress regOpMmiobase port) u ∈ polls ∧ u &&& xhciPortscPr = 0#32) ∧
    ((∀ k < 20, s.next32 (portscAddress regOpMmiobase port) (1 + k) &&& xhciPortscPr ≠ 0#32) → res = .error)

/-- PR as an ordinary bit is masked away. -/
theorem pr_masked (v : BitVec 32) :
    (v &&& ~~~xhciPortscRw1Mask) ||| xhciPortscPr &&& ~~~xhciPortscRw1Mask ||| 0#32 &&& xhciPortscRw1Mask =
      v &&& ~~~xhciPortscRw1Mask := by
  have h : xhciPortscPr &&& ~~~xhciPortscRw1Mask = 0#32 := by decide
  simp [h]

/-- PR is bit 4, so the masked value is never 1. -/
theorem pr_ne_one (v : BitVec 32) : (v &&& xhciPortscPr == 1#32) = false := by
  rw [beq_eq_false_iff_ne]
  intro h
  have hbit := congrArg (fun x => x.getLsbD 0) h
  simp [xhciPortscPr] at hbit

/-- One read, one write that leaves PR alone, one more read, and success. -/
theorem xhcihcdPortReset_run (regOpMmiobase : BitVec 64) (port : BitVec 32) (s : Mmio) :
    xhcihcdPortReset regOpMmiobase port s =
      .ok .ok (((s.after32 (portscAddress regOpMmiobase port)).record (.write32 (portscAddress regOpMmiobase port)
        (s.next32 (portscAddress regOpMmiobase port) 0 &&& ~~~xhciPortscRw1Mask))).after32
          (portscAddress regOpMmiobase port)) := by
  unfold xhcihcdPortReset xhcihcdPortWriteStatus
  simp only [Prog.bind_run, read32_run, Outcome.andThen_ok, write32_run, Prog.pure_run, pr_masked]
  rw [poll_idle 19 (by rw [readTest_run, pr_ne_one])]
  rfl

theorem port_reset_never (regOpMmiobase : BitVec 64) (port : BitVec 32) (s : Mmio) :
    ¬PortResets regOpMmiobase port s := by
  rintro ⟨res, t, v, polls, hrun, htrace, -, -⟩
  rw [xhcihcdPortReset_run] at hrun
  simp only [Outcome.ok.injEq] at hrun
  obtain ⟨-, rfl⟩ := hrun
  simp only [after32_trace, record_trace, List.append_assoc, List.append_cancel_left_eq, List.cons_append,
    List.nil_append, List.cons.injEq, Access.read32.injEq, Access.write32.injEq, true_and] at htrace
  obtain ⟨rfl, hw, -⟩ := htrace
  have hpr := congrArg (fun x => x.getLsbD 4) hw
  simp [xhciPortscPr, xhciPortscRw1Mask] at hpr

/-- A port that stays in reset is reported as reset. -/
theorem busy_port_reported_reset : ¬PortResets 0x20#64 1#32 ⟨fun _ _ => 0x10#32, fun _ _ => 0#64, []⟩ := by
  rintro ⟨res, t, v, polls, hrun, -, -, herror⟩
  rw [xhcihcdPortReset_run] at hrun
  simp only [Outcome.ok.injEq] at hrun
  have h := herror (fun k _ => by simp [xhciPortscPr])
  rw [← hrun.1] at h
  cases h

/-! ## The controller -/

/-- `xhcihcd_halt`. -/
def xhcihcdHalt (regOpMmiobase : BitVec 64) : Prog Mmio UsbResult := do
  let cmd ← read32 (regOpMmiobase + xhciOpUsbcmd)
  write32 (regOpMmiobase + xhciOpUsbcmd) (cmd &&& ~~~xhciCmdRs)
  let done ← poll (readTest (regOpMmiobase + xhciOpUsbsts) fun v => v &&& xhciStsHch == 0#32) (delay 2) 10
  pure (if done then .ok else .error)

/-- The condition of the loop in `xhcihcd_reset`: the second operand is read only if the first one is not 0. -/
def resetBusy (regOpMmiobase : BitVec 64) : Prog Mmio Bool := do
  let a ← read32 (regOpMmiobase + xhciOpUsbsts)
  if a &&& xhciCmdHcrst ≠ 0#32 then do
    let b ← read32 (regOpMmiobase + xhciOpUsbsts)
    pure (b &&& xhciStsCnr != 0#32)
  else pure false

/-- `xhcihcd_reset` up to the line that reports the reset. -/
def xhcihcdResetWait (regOpMmiobase : BitVec 64) : Prog Mmio UsbResult := do
  match ← xhcihcdHalt regOpMmiobase with
  | .error => pure .error
  | .ok => do
    write32 (regOpMmiobase + xhciOpUsbcmd) xhciCmdHcrst
    let done ← poll (resetBusy regOpMmiobase) (delay 2) 50
    pure (if done then .ok else .error)

def expectZero32 (reg : BitVec 64) (msg : String) : Prog Mmio Unit := do
  let v ← read32 reg
  if v ≠ 0#32 then Prog.panic msg else pure ()

def expectZero64 (reg : BitVec 64) (msg : String) : Prog Mmio Unit := do
  let v ← read64 reg
  if v ≠ 0#64 then Prog.panic msg else pure ()

/-- `xhcihcd_reset`. -/
def xhcihcdReset (regOpMmiobase : BitVec 64) : Prog Mmio UsbResult := do
  match ← xhcihcdResetWait regOpMmiobase with
  | .error => pure .error
  | .ok => do
    delay usbTrstrcy
    expectZero32 (regOpMmiobase + xhciOpUsbcmd) "xhci CMD reg should read back as 0 after reset!\n"
    expectZero32 (regOpMmiobase + xhciOpDnctrl) "xhci DNCTRL reg should read back as 0 after reset!\n"
    expectZero32 (regOpMmiobase + xhciOpConfig) "xhci CONFIG reg should read back as 0 after reset!\n"
    expectZero64 (regOpMmiobase + xhciOpCrcr) "xhci CRCR reg should read back as 0 after reset!\n"
    expectZero64 (regOpMmiobase + xhciOpDcbaap) "xhci DCBAAP reg should read back as 0 after reset!\n"
    pure .ok

/-- What the comment in `xhcihcd_reset` demands. The wait reports a reset, and so goes on to the register defaults,
only after it has written HCRST and then read USBCMD without HCRST and USBSTS without CNR. A bit that stays set for
the fifty polls is an error. -/
structure ResetWaits (regOpMmiobase : BitVec 64) (s : Mmio) : Prop where
  both : ∀ t, xhcihcdResetWait regOpMmiobase s = .ok .ok t → ∃ before after,
    t.trace = s.trace ++ before ++ .write32 (regOpMmiobase + xhciOpUsbcmd) xhciCmdHcrst :: after ∧
    (∃ v, .read32 (regOpMmiobase + xhciOpUsbcmd) v ∈ after ∧ v &&& xhciCmdHcrst = 0#32) ∧
    (∃ v, .read32 (regOpMmiobase + xhciOpUsbsts) v ∈ after ∧ v &&& xhciStsCnr = 0#32)
  timeout : ∀ t, xhcihcdHalt regOpMmiobase s = .ok .ok t →
    (∀ k < 50, t.next32 (regOpMmiobase + xhciOpUsbcmd) k &&& xhciCmdHcrst ≠ 0#32) ∨
      (∀ k < 50, t.next32 (regOpMmiobase + xhciOpUsbsts) k &&& xhciStsCnr ≠ 0#32) →
    ∃ u, xhcihcdReset regOpMmiobase s = .ok .error u

/-- The controller does not report that it has halted in ten reads of USBSTS. -/
def NeverHalts (regOpMmiobase : BitVec 64) (s : Mmio) : Prop :=
  ∀ k < 10, s.next32 (regOpMmiobase + xhciOpUsbsts) k &&& xhciStsHch = 0#32

/-- It halts at the `k`-th read, and from then on USBSTS is read by pairs: all fifty times with bit 1 set, which is
HCRST in the other register, and then with CNR set. -/
def StaysBusy (regOpMmiobase : BitVec 64) (s : Mmio) : Prop :=
  ∃ k < 10, s.next32 (regOpMmiobase + xhciOpUsbsts) k &&& xhciStsHch ≠ 0#32 ∧
    (∀ j < k, s.next32 (regOpMmiobase + xhciOpUsbsts) j &&& xhciStsHch = 0#32) ∧
    ∀ j < 50, s.next32 (regOpMmiobase + xhciOpUsbsts) (k + 1 + 2 * j) &&& xhciCmdHcrst ≠ 0#32 ∧
      s.next32 (regOpMmiobase + xhciOpUsbsts) (k + 2 + 2 * j) &&& xhciStsCnr ≠ 0#32

section
variable {regOpMmiobase : BitVec 64}

theorem usbsts_ne_usbcmd (regOpMmiobase : BitVec 64) :
    regOpMmiobase + xhciOpUsbsts ≠ regOpMmiobase + xhciOpUsbcmd := by
  unfold xhciOpUsbsts xhciOpUsbcmd
  bv_omega

/-- The event is not a read of USBCMD. -/
def NotUsbcmd (regOpMmiobase : BitVec 64) (e : Access (BitVec 64)) : Prop :=
  ∀ v, e ≠ .read32 (regOpMmiobase + xhciOpUsbcmd) v

theorem notUsbcmd_usbsts (v : BitVec 32) : NotUsbcmd regOpMmiobase (.read32 (regOpMmiobase + xhciOpUsbsts) v) := by
  intro w h
  simp only [Access.read32.injEq] at h
  exact usbsts_ne_usbcmd regOpMmiobase h.1

theorem notUsbcmd_delay (regOpMmiobase : BitVec 64) (s : Mmio) :
    ∃ s', delay 2 s = .ok () s' ∧ Only (NotUsbcmd regOpMmiobase) s s' :=
  ⟨_, rfl, Only.record (fun v h => by cases h)⟩

/-- A round of the loop returns; it reads USBSTS twice if bit 1 is set. -/
theorem resetBusy_quiet (s : Mmio) :
    ∃ b s', resetBusy regOpMmiobase s = .ok b s' ∧ Only (NotUsbcmd regOpMmiobase) s s' := by
  unfold resetBusy
  simp only [Prog.bind_run, read32_run, Outcome.andThen_ok]
  have hone : Only (NotUsbcmd regOpMmiobase) s (s.after32 (regOpMmiobase + xhciOpUsbsts)) :=
    Only.after32 notUsbcmd_usbsts
  split
  · exact ⟨_, _, rfl, hone.trans (Only.after32 notUsbcmd_usbsts)⟩
  · exact ⟨_, _, rfl, hone⟩

theorem resetBusy_true {s : Mmio} (ha : s.next32 (regOpMmiobase + xhciOpUsbsts) 0 &&& xhciCmdHcrst ≠ 0#32)
    (hb : s.next32 (regOpMmiobase + xhciOpUsbsts) 1 &&& xhciStsCnr ≠ 0#32) :
    resetBusy regOpMmiobase s =
      .ok true ((s.after32 (regOpMmiobase + xhciOpUsbsts)).after32 (regOpMmiobase + xhciOpUsbsts)) := by
  unfold resetBusy
  simp [ha, hb]

theorem resetBusy_false {s : Mmio} (h : ¬(s.next32 (regOpMmiobase + xhciOpUsbsts) 0 &&& xhciCmdHcrst ≠ 0#32 ∧
    s.next32 (regOpMmiobase + xhciOpUsbsts) 1 &&& xhciStsCnr ≠ 0#32)) :
    ∃ t, resetBusy regOpMmiobase s = .ok false t := by
  unfold resetBusy
  by_cases ha : s.next32 (regOpMmiobase + xhciOpUsbsts) 0 &&& xhciCmdHcrst ≠ 0#32
  · have hb : s.next32 (regOpMmiobase + xhciOpUsbsts) 1 &&& xhciStsCnr = 0#32 := by
      by_contra hb
      exact h ⟨ha, hb⟩
    refine ⟨(s.after32 (regOpMmiobase + xhciOpUsbsts)).after32 (regOpMmiobase + xhciOpUsbsts), ?_⟩
    simp [ha, hb]
  · refine ⟨s.after32 (regOpMmiobase + xhciOpUsbsts), ?_⟩
    rw [not_not] at ha
    simp [ha]

/-- The wait loop gives up if and only if USBSTS has bit 1 and then CNR set in every round. -/
theorem resetPoll_timeout (regOpMmiobase : BitVec 64) (n : ℕ) : ∀ s : Mmio, ∃ b t,
    poll (resetBusy regOpMmiobase) (delay 2) (n + 1) s = .ok b t ∧
      (b = false ↔ ∀ j < n + 1, s.next32 (regOpMmiobase + xhciOpUsbsts) (2 * j) &&& xhciCmdHcrst ≠ 0#32 ∧
        s.next32 (regOpMmiobase + xhciOpUsbsts) (2 * j + 1) &&& xhciStsCnr ≠ 0#32) := by
  induction n with
  | zero =>
    intro s
    by_cases h : s.next32 (regOpMmiobase + xhciOpUsbsts) 0 &&& xhciCmdHcrst ≠ 0#32 ∧
        s.next32 (regOpMmiobase + xhciOpUsbsts) 1 &&& xhciStsCnr ≠ 0#32
    · refine ⟨false, _, poll_last (resetBusy_true h.1 h.2), ?_⟩
      simp only [true_iff]
      intro j hj
      obtain rfl : j = 0 := by omega
      exact h
    · obtain ⟨t, ht⟩ := resetBusy_false h
      refine ⟨true, t, poll_idle 0 ht, ?_⟩
      simp only [Bool.true_eq_false, false_iff]
      intro hall
      exact h (hall 0 (by omega))
  | succ n ih =>
    intro s
    by_cases h : s.next32 (regOpMmiobase + xhciOpUsbsts) 0 &&& xhciCmdHcrst ≠ 0#32 ∧
        s.next32 (regOpMmiobase + xhciOpUsbsts) 1 &&& xhciStsCnr ≠ 0#32
    · obtain ⟨b, t, ht, hb⟩ := ih
        (((s.after32 (regOpMmiobase + xhciOpUsbsts)).after32 (regOpMmiobase + xhciOpUsbsts)).record (.delay 2))
      refine ⟨b, t, ?_, ?_⟩
      · rw [poll_busy n (resetBusy_true h.1 h.2) (delay_run 2 _)]
        exact ht
      · rw [hb]
        simp only [record_next32, after32_next32]
        constructor
        · intro hall j hj
          cases j with
          | zero => exact h
          | succ j => exact hall j (by omega)
        · intro hall j hj
          exact hall (j + 1) (by omega)
    · obtain ⟨t, ht⟩ := resetBusy_false h
      refine ⟨true, t, poll_idle (n + 1) ht, ?_⟩
      simp only [Bool.true_eq_false, false_iff]
      intro hall
      exact h (hall 0 (by omega))

theorem first_halt {s : Mmio} (h : ¬NeverHalts regOpMmiobase s) :
    ∃ k < 10, s.next32 (regOpMmiobase + xhciOpUsbsts) k &&& xhciStsHch ≠ 0#32 ∧
      ∀ j < k, s.next32 (regOpMmiobase + xhciOpUsbsts) j &&& xhciStsHch = 0#32 := by
  have hex : ∃ k, k < 10 ∧ s.next32 (regOpMmiobase + xhciOpUsbsts) k &&& xhciStsHch ≠ 0#32 := by
    unfold NeverHalts at h
    push Not at h
    exact h
  refine ⟨Nat.find hex, (Nat.find_spec hex).1, (Nat.find_spec hex).2, ?_⟩
  intro j hj
  by_contra hne
  exact Nat.find_min hex hj ⟨by have := (Nat.find_spec hex).1; omega, hne⟩

/-- With the first read that has HCH known, what is left of the condition is the fifty pairs. -/
theorem busy_pairs {s : Mmio} {k : ℕ} (hk : k < 10)
    (hhch : s.next32 (regOpMmiobase + xhciOpUsbsts) k &&& xhciStsHch ≠ 0#32)
    (hbefore : ∀ j < k, s.next32 (regOpMmiobase + xhciOpUsbsts) j &&& xhciStsHch = 0#32) :
    NeverHalts regOpMmiobase s ∨ StaysBusy regOpMmiobase s ↔
      ∀ j < 50, s.next32 (regOpMmiobase + xhciOpUsbsts) (k + 1 + 2 * j) &&& xhciCmdHcrst ≠ 0#32 ∧
        s.next32 (regOpMmiobase + xhciOpUsbsts) (k + 2 + 2 * j) &&& xhciStsCnr ≠ 0#32 := by
  constructor
  · rintro (hnever | ⟨k', _, hhch', hbefore', hpairs⟩)
    · exact absurd (hnever k hk) hhch
    · obtain rfl : k = k' := by
        rcases Nat.lt_trichotomy k k' with h | h | h
        · exact absurd (hbefore' k h) hhch
        · exact h
        · exact absurd (hbefore k' h) hhch'
      exact hpairs
  · intro hpairs
    exact .inr ⟨k, hk, hhch, hbefore, hpairs⟩

/-- Halting reads USBCMD first and never again. It fails if HCH does not come; otherwise the reads that follow
return what comes after the value with HCH. -/
theorem xhcihcdHalt_spec (regOpMmiobase : BitVec 64) (s : Mmio) :
    ∃ res t rest, xhcihcdHalt regOpMmiobase s = .ok res t ∧
    t.trace = s.trace ++ .read32 (regOpMmiobase + xhciOpUsbcmd) (s.next32 (regOpMmiobase + xhciOpUsbcmd) 0) :: rest ∧
    (∀ e ∈ rest, NotUsbcmd regOpMmiobase e) ∧
    ((res = .error ∧ NeverHalts regOpMmiobase s) ∨
      (res = .ok ∧ ∃ k < 10, s.next32 (regOpMmiobase + xhciOpUsbsts) k &&& xhciStsHch ≠ 0#32 ∧
        (∀ j < k, s.next32 (regOpMmiobase + xhciOpUsbsts) j &&& xhciStsHch = 0#32) ∧
        ∀ j, t.next32 (regOpMmiobase + xhciOpUsbsts) j = s.next32 (regOpMmiobase + xhciOpUsbsts) (k + 1 + j))) := by
  obtain ⟨c, hc⟩ : ∃ c, c = (s.after32 (regOpMmiobase + xhciOpUsbcmd)).record (.write32 (regOpMmiobase + xhciOpUsbcmd)
    (s.next32 (regOpMmiobase + xhciOpUsbcmd) 0 &&& ~~~xhciCmdRs)) := ⟨_, rfl⟩
  have hnext : c.next32 (regOpMmiobase + xhciOpUsbsts) = s.next32 (regOpMmiobase + xhciOpUsbsts) := by
    rw [hc, record_next32, after32_next32_of_ne s (usbsts_ne_usbcmd regOpMmiobase)]
  have hrun : xhcihcdHalt regOpMmiobase s =
      (poll (readTest (regOpMmiobase + xhciOpUsbsts) fun v => v &&& xhciStsHch == 0#32) (delay 2) 10 c).andThen
        fun done => pure (if done then UsbResult.ok else .error) := by
    rw [hc]
    rfl
  obtain ⟨b, t, ht, es, htrace, hes⟩ := poll_ok Only.trans
    (fun s => ⟨_, _, readTest_run (regOpMmiobase + xhciOpUsbsts) (fun v => v &&& xhciStsHch == 0#32) s,
      Only.after32 notUsbcmd_usbsts⟩) (notUsbcmd_delay regOpMmiobase) 9 c
  refine ⟨if b then .ok else .error, t, .write32 (regOpMmiobase + xhciOpUsbcmd)
    (s.next32 (regOpMmiobase + xhciOpUsbcmd) 0 &&& ~~~xhciCmdRs) :: es, ?_, ?_, ?_, ?_⟩
  · rw [hrun, ht]
    rfl
  · rw [htrace, hc]
    simp
  · intro e he
    cases he with
    | head => exact fun v h => by cases h
    | tail _ he => exact hes e he
  · by_cases hnever : NeverHalts regOpMmiobase s
    · left
      obtain ⟨t', ht'⟩ := poll_timeout (regOpMmiobase + xhciOpUsbsts) (fun v => v &&& xhciStsHch == 0#32) 2 9 c
        (fun k hk => by rw [hnext]; simpa using hnever k hk)
      simp only [ht, Outcome.ok.injEq] at ht'
      rw [ht'.1]
      exact ⟨rfl, hnever⟩
    · right
      obtain ⟨k, hk, hhch, hbefore⟩ := first_halt hnever
      obtain ⟨t', ht', hshift⟩ := poll_first (regOpMmiobase + xhciOpUsbsts) (fun v => v &&& xhciStsHch == 0#32) 2 9 k c
        hk (by rw [hnext]; simpa using hhch) (fun j hj => by rw [hnext]; simpa using hbefore j hj)
      simp only [ht, Outcome.ok.injEq] at ht'
      obtain ⟨rfl, rfl⟩ := ht'
      refine ⟨rfl, k, hk, hhch, hbefore, ?_⟩
      intro j
      rw [hshift j, hnext]

/-- The wait as a whole: the result, and a record in which USBCMD is read only at the beginning. -/
theorem xhcihcdResetWait_spec (regOpMmiobase : BitVec 64) (s : Mmio) :
    ∃ res t rest, xhcihcdResetWait regOpMmiobase s = .ok res t ∧
    t.trace = s.trace ++ .read32 (regOpMmiobase + xhciOpUsbcmd) (s.next32 (regOpMmiobase + xhciOpUsbcmd) 0) :: rest ∧
    (∀ e ∈ rest, NotUsbcmd regOpMmiobase e) ∧
    (res = .error ↔ NeverHalts regOpMmiobase s ∨ StaysBusy regOpMmiobase s) := by
  obtain ⟨res, h, rest, hhalt, htrace, hrest, hres⟩ := xhcihcdHalt_spec regOpMmiobase s
  rcases hres with ⟨rfl, hnever⟩ | ⟨rfl, k, hk, hhch, hbefore, hshift⟩
  · refine ⟨.error, h, rest, ?_, htrace, hrest, ?_⟩
    · unfold xhcihcdResetWait
      simp [hhalt]
    · simp [hnever]
  · obtain ⟨w, hw⟩ : ∃ w, w = h.record (.write32 (regOpMmiobase + xhciOpUsbcmd) xhciCmdHcrst) := ⟨_, rfl⟩
    obtain ⟨b, t, ht, hb⟩ := resetPoll_timeout regOpMmiobase 49 w
    obtain ⟨b', t', ht', es, hes, hquiet⟩ := poll_ok Only.trans resetBusy_quiet
      (notUsbcmd_delay regOpMmiobase) 49 w
    simp only [ht, Outcome.ok.injEq] at ht'
    obtain ⟨rfl, rfl⟩ := ht'
    refine ⟨if b then .ok else .error, t, rest ++ .write32 (regOpMmiobase + xhciOpUsbcmd) xhciCmdHcrst :: es, ?_, ?_,
      ?_, ?_⟩
    · unfold xhcihcdResetWait
      simp [hhalt, ← hw, ht]
    · rw [hes, hw, record_trace, htrace]
      simp
    · intro e he
      rcases List.mem_append.mp he with he | he
      · exact hrest e he
      · cases he with
        | head => exact fun v h => by cases h
        | tail _ he => exact hquiet e he
    · have hbool : (if b then UsbResult.ok else .error) = .error ↔ b = false := by cases b <;> simp
      rw [hbool, hb, busy_pairs hk hhch hbefore, hw]
      simp only [record_next32, hshift]
      refine forall_congr' fun j => ?_
      rw [show k + 1 + (2 * j + 1) = k + 2 + 2 * j from by omega]

/-- A wait that ended well has not read USBCMD since HCRST was written. -/
theorem no_usbcmd_after_hcrst {s t : Mmio} {rest before after : List (Access (BitVec 64))} {c : BitVec 32}
    (htrace : t.trace = s.trace ++ .read32 (regOpMmiobase + xhciOpUsbcmd) c :: rest)
    (hrest : ∀ e ∈ rest, NotUsbcmd regOpMmiobase e)
    (hsplit : t.trace = s.trace ++ before ++ .write32 (regOpMmiobase + xhciOpUsbcmd) xhciCmdHcrst :: after)
    (v : BitVec 32) : .read32 (regOpMmiobase + xhciOpUsbcmd) v ∉ after := by
  intro hmem
  rw [htrace, List.append_assoc, List.append_cancel_left_eq] at hsplit
  cases before with
  | nil => simp at hsplit
  | cons e before =>
    simp only [List.cons_append, List.cons.injEq] at hsplit
    refine hrest (.read32 (regOpMmiobase + xhciOpUsbcmd) v) ?_ v rfl
    rw [hsplit.2]
    simp [hmem]

end

theorem reset_waits_iff (regOpMmiobase : BitVec 64) (s : Mmio) :
    ResetWaits regOpMmiobase s ↔ NeverHalts regOpMmiobase s ∨ StaysBusy regOpMmiobase s := by
  obtain ⟨res, t, rest, hrun, htrace, hrest, hres⟩ := xhcihcdResetWait_spec regOpMmiobase s
  rw [← hres]
  constructor
  · intro h
    cases res with
    | error => rfl
    | ok =>
      obtain ⟨before, after, hsplit, ⟨v, hmem, -⟩, -⟩ := h.both t hrun
      exact absurd hmem (no_usbcmd_after_hcrst htrace hrest hsplit v)
  · rintro rfl
    refine ⟨fun t' ht' => ?_, fun _ _ _ => ⟨t, ?_⟩⟩
    · rw [hrun] at ht'
      cases ht'
    · unfold xhcihcdReset
      simp [hrun]

/-- A controller that has halted and is not ready: the first read of the loop already ends it. -/
theorem not_ready_reported_reset : ¬ResetWaits 0x20#64 ⟨fun _ _ => 0x801#32, fun _ _ => 0#64, []⟩ := by
  intro h
  obtain ⟨res, t, rest, hrun, htrace, hrest, hres⟩ :=
    xhcihcdResetWait_spec 0x20#64 ⟨fun _ _ => 0x801#32, fun _ _ => 0#64, []⟩
  cases res with
  | error =>
    rcases hres.mp rfl with hnever | ⟨k, _, _, _, hpairs⟩
    · exact absurd (hnever 0 (by decide)) (by decide)
    · exact absurd (hpairs 0 (by decide)).1 (by simp [xhciCmdHcrst])
  | ok =>
    obtain ⟨before, after, hsplit, ⟨v, hmem, -⟩, -⟩ := h.both t hrun
    exact no_usbcmd_after_hcrst htrace hrest hsplit v hmem

end Borgos.Usb
