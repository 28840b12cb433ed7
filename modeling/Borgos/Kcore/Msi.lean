import Borgos.Foundations.Hoare
import Borgos.Kcore.Irq

/-! # `irq.c`, `xhci_hcd.c`: vectors for message signaled interrupts

A probe takes the first MSI vector whose chain is empty and puts its handler there. Devices are probed one after
another, and drivers register handlers on any vectors in between.
-/
namespace Borgos.Kcore
open Borgos.Foundations Borgos.Arch
set_option autoImplicit false

def msiirqStartvector : ℕ := 64

def msiirqCount : ℕ := 32

/-- A `fn` with its `ctx`. -/
inductive IrqHandler (X : Type) where
  | xhcihcdIrqhandler (priv : ℕ)
  | other (h : X)
deriving DecidableEq

/-- A call of `pci_config_msi_addirq`, with the device by its private data. -/
structure MsiMessage where
  priv : ℕ
  msiirq : Byte

structure MsiState (X : Type) where
  irq : IrqState (IrqHandler X)
  msi : List MsiMessage

/-- What the probe of a controller finds. -/
structure XhciDevice where
  /-- What `kmalloc` returns. -/
  priv : ℕ
  bar0Mem : Bool
  regBase : ℕ
  usbversion : Byte
  capptrMsi : BitVec 32
  capptrMsix : BitVec 32
  hccp1 : BitVec 32

variable {X D : Type}

/-- The loop of `irq_get_free_msi` with its rounds left. -/
def freeMsiFrom (s : IrqState D) : ℕ → ℕ → Byte
  | 0, _ => 0
  | rounds + 1, i =>
    if (s.isrChain (BitVec.ofNat 8 i)).isEmpty then BitVec.ofNat 8 i else freeMsiFrom s rounds (i + 1)

def irqGetFreeMsi (s : IrqState D) : Byte := freeMsiFrom s msiirqCount msiirqStartvector

namespace XhciDevice
variable (dev : XhciDevice)

/-- The branch of the probe for a device with the MSI capability. -/
def setupMsi (s : MsiState X) : MsiState X :=
  let msiirq := irqGetFreeMsi s.irq
  ⟨irqAddIrqHandler msiirq (.xhcihcdIrqhandler dev.priv) s.irq, s.msi ++ [⟨dev.priv, msiirq⟩]⟩

/-- The rest of the probe. Both of its flags are taken with the mask of `AC64`. -/
def readHccparams1 : Prog (MsiState X) ℤ :=
  if dev.hccp1 &&& 1 = 0 then Prog.panic "TODO implement support for 32bit adressing"
  else if dev.hccp1 &&& 1 = 0 then Prog.panic "TODO implement support for 32byte Context Size"
  else pure 0

/-- `pci_enable_device` always succeeds. -/
def xhcihcdPciProbe : Prog (MsiState X) ℤ :=
  if dev.priv = 0 then pure (-12)
  else if dev.bar0Mem = false then Prog.panic "XHCI ONLY SUPPORTS MEMORY BAR"
  else if dev.regBase = 0 then Prog.panic "UNABLE to map reg_base via pci_iomap"
  else if dev.usbversion = 0x30 ∨ dev.usbversion = 0x31 ∨ dev.usbversion = 0x32 then
    if dev.capptrMsi = 0 ∧ dev.capptrMsix = 0 then Prog.panic "This XHCI Controller has no MSI or MSIX support!"
    else if dev.capptrMsi > 0 then do
      Prog.modify dev.setupMsi
      dev.readHccparams1
    else dev.readHccparams1
  else Prog.panic "STRANGE USB VERSION FOR XHCI CONTROLLER"

/-- The probe comes to ask for a vector. -/
structure AsksForVector : Prop where
  priv : dev.priv ≠ 0
  bar0 : dev.bar0Mem = true
  mapped : dev.regBase ≠ 0
  usbversion : dev.usbversion = 0x30 ∨ dev.usbversion = 0x31 ∨ dev.usbversion = 0x32
  capability : dev.capptrMsi > 0

end XhciDevice

/-! ## Runs -/

inductive MsiEvent (X : Type) where
  | probe (dev : XhciDevice)
  | register (isrno : Byte) (h : X)

/-- The result of a probe is ignored, as in `pci_config_driver_init`. -/
def MsiEvent.step : MsiEvent X → Prog (MsiState X) Unit
  | .probe dev => do
    let _ ← dev.xhcihcdPciProbe
    pure ()
  | .register isrno h => Prog.modify fun s => { s with irq := irqAddIrqHandler isrno (.other h) s.irq }

def msiRun : List (MsiEvent X) → Prog (MsiState X) Unit
  | [] => pure ()
  | e :: es => do
    e.step
    msiRun es

/-- After `irq_inithandlers`. -/
def MsiState.boot (ioapicReg : WordStack.Word → Byte → BitVec 32) : MsiState X := ⟨⟨fun _ => [], ioapicReg⟩, []⟩

/-! ## The property and its condition -/

def MsiVector (v : Byte) : Prop := msiirqStartvector ≤ v.toNat ∧ v.toNat < msiirqStartvector + msiirqCount

/-- Some vector is free. -/
def MsiFree (s : IrqState D) : Prop := ∃ v, MsiVector v ∧ s.isrChain v = []

/-- Each device that has programmed its capability has a vector of its own: nothing was chained there before it, and no
device comes there after it. -/
structure VectorsOwn (s : MsiState X) : Prop where
  range : ∀ m ∈ s.msi, MsiVector m.msiirq
  distinct : (s.msi.map MsiMessage.msiirq).Nodup
  first : ∀ m ∈ s.msi, (s.irq.isrChain m.msiirq).getLast? = some (.xhcihcdIrqhandler m.priv)
  alone : ∀ m ∈ s.msi, ∀ priv, .xhcihcdIrqhandler priv ∈ s.irq.isrChain m.msiirq → priv = m.priv
  exceptions : ∀ v priv, v.toNat < irqStartvector → .xhcihcdIrqhandler priv ∉ s.irq.isrChain v

/-- When no vector is free, the probe does not return 0. -/
def ReportsFailure (dev : XhciDevice) (s : MsiState X) : Prop :=
  dev.AsksForVector → ¬ MsiFree s.irq → ∀ code s', dev.xhcihcdPciProbe s = .ok code s' → code ≠ 0

section Statement
variable (ioapicReg : WordStack.Word → Byte → BitVec 32) (es : List (MsiEvent X))

/-- In every state of the run the vectors are the devices' own, and every probe without a free vector fails. -/
def MsiSafe : Prop :=
  (∀ passed s, passed <+: es → (msiRun passed (.boot ioapicReg)).final = some s → VectorsOwn s) ∧
    ∀ passed dev s, passed ++ [.probe dev] <+: es → msiRun passed (.boot ioapicReg) = .ok () s → ReportsFailure dev s

/-- Every probe that asks for a vector finds one. -/
def MsiRoom : Prop :=
  ∀ passed dev s, passed ++ [.probe dev] <+: es → msiRun passed (.boot ioapicReg) = .ok () s → dev.AsksForVector →
    MsiFree s.irq

end Statement

/-! ## One event -/

theorem freeMsiFrom_spec (s : IrqState D) (rounds i : ℕ) :
    (∃ j, i ≤ j ∧ j < i + rounds ∧ freeMsiFrom s rounds i = BitVec.ofNat 8 j ∧ s.isrChain (BitVec.ofNat 8 j) = []) ∨
      freeMsiFrom s rounds i = 0 ∧ ∀ j, i ≤ j → j < i + rounds → s.isrChain (BitVec.ofNat 8 j) ≠ [] := by
  induction rounds generalizing i with
  | zero =>
    right
    exact ⟨rfl, fun j hle hlt => by omega⟩
  | succ rounds ih =>
    rw [freeMsiFrom]
    by_cases hfree : s.isrChain (BitVec.ofNat 8 i) = []
    · left
      exact ⟨i, le_rfl, by omega, by simp [hfree], hfree⟩
    · simp only [List.isEmpty_iff, hfree, if_false]
      rcases ih (i + 1) with ⟨j, hle, hlt, hget, hchain⟩ | ⟨hzero, hall⟩
      · left
        exact ⟨j, by omega, by omega, hget, hchain⟩
      · right
        refine ⟨hzero, fun j hle hlt => ?_⟩
        rcases Nat.lt_or_eq_of_le hle with hgt | rfl
        · exact hall j hgt (by omega)
        · exact hfree

/-- The vector is free, or it is 0 and none is free. -/
theorem irqGetFreeMsi_cases (s : IrqState D) :
    MsiVector (irqGetFreeMsi s) ∧ s.isrChain (irqGetFreeMsi s) = [] ∨ irqGetFreeMsi s = 0 ∧ ¬ MsiFree s := by
  rcases freeMsiFrom_spec s msiirqCount msiirqStartvector with ⟨j, hle, hlt, hget, hchain⟩ | ⟨hzero, hall⟩
  · left
    have hget' : irqGetFreeMsi s = BitVec.ofNat 8 j := hget
    rw [hget']
    refine ⟨?_, hchain⟩
    simp only [msiirqStartvector, msiirqCount] at hle hlt
    simp only [MsiVector, msiirqStartvector, msiirqCount, BitVec.toNat_ofNat]
    omega
  · right
    refine ⟨hzero, ?_⟩
    rintro ⟨v, ⟨hle, hlt⟩, hchain⟩
    apply hall v.toNat hle hlt
    simpa using hchain

theorem irqAddIrqHandler_chain (isrno v : Byte) (h : D) (s : IrqState D) :
    (irqAddIrqHandler isrno h s).isrChain v = if v = isrno then h :: s.isrChain isrno else s.isrChain v := by
  by_cases hv : v = isrno
  · simp [irqAddIrqHandler, hv]
  · simp [irqAddIrqHandler, hv]

namespace XhciDevice
variable {dev : XhciDevice}

theorem readHccparams1_final (dev : XhciDevice) (s : MsiState X) : (dev.readHccparams1 s).final = some s := by
  unfold readHccparams1
  split_ifs
  · rfl
  · rfl

theorem xhcihcdPciProbe_asks (h : dev.AsksForVector) (s : MsiState X) :
    dev.xhcihcdPciProbe s = dev.readHccparams1 (dev.setupMsi s) := by
  have hcap : ¬ (dev.capptrMsi = 0 ∧ dev.capptrMsix = 0) := by
    rintro ⟨hzero, -⟩
    have hpos := h.capability
    rw [hzero] at hpos
    exact absurd hpos (by decide)
  rw [xhcihcdPciProbe, if_neg h.priv, if_neg (by simp [h.bar0]), if_neg h.mapped, if_pos h.usbversion, if_neg hcap,
    if_pos h.capability]
  rfl

theorem xhcihcdPciProbe_other (h : ¬ dev.AsksForVector) (s : MsiState X) : (dev.xhcihcdPciProbe s).final = some s := by
  unfold xhcihcdPciProbe
  by_cases hpriv : dev.priv = 0
  · simp [hpriv]
  · by_cases hbar : dev.bar0Mem = false
    · simp [hpriv, hbar]
    · by_cases hmap : dev.regBase = 0
      · simp [hpriv, hbar, hmap]
      · rw [if_neg hpriv, if_neg hbar, if_neg hmap]
        split_ifs with hversion hcap hmsi
        · rfl
        · exact absurd ⟨hpriv, by simpa using hbar, hmap, hversion, hmsi⟩ h
        · exact dev.readHccparams1_final s
        · rfl

end XhciDevice

theorem step_probe_final (dev : XhciDevice) (s : MsiState X) :
    ((MsiEvent.probe dev).step s).final = (dev.xhcihcdPciProbe s).final := by
  rw [MsiEvent.step, Prog.bind_run]
  cases dev.xhcihcdPciProbe s with
  | ok code t => rfl
  | panic msg t => rfl
  | stuck => rfl

section Step
variable {s t : MsiState X}

theorem VectorsOwn.ne_nil (h : VectorsOwn s) {m : MsiMessage} (hm : m ∈ s.msi) : s.irq.isrChain m.msiirq ≠ [] := by
  intro hnil
  have hfirst := h.first m hm
  rw [hnil] at hfirst
  cases hfirst

theorem VectorsOwn.register (h : VectorsOwn s) (isrno : Byte) (x : X) :
    VectorsOwn { s with irq := irqAddIrqHandler isrno (.other x) s.irq } := by
  refine ⟨h.range, h.distinct, ?_, ?_, ?_⟩
  · intro m hm
    have hfirst := h.first m hm
    simp only [irqAddIrqHandler_chain]
    split_ifs with hv
    · rw [← hv, List.getLast?_cons_of_ne_nil (h.ne_nil hm)]
      exact hfirst
    · exact hfirst
  · intro m hm priv hpriv
    apply h.alone m hm
    simp only [irqAddIrqHandler_chain] at hpriv
    split_ifs at hpriv with hv
    · simpa [hv] using hpriv
    · exact hpriv
  · intro v priv hv hpriv
    apply h.exceptions v priv hv
    simp only [irqAddIrqHandler_chain] at hpriv
    split_ifs at hpriv with hisr
    · simpa [hisr] using hpriv
    · exact hpriv

theorem VectorsOwn.setupMsi (h : VectorsOwn s) (dev : XhciDevice) (hfree : MsiFree s.irq) :
    VectorsOwn (dev.setupMsi s) := by
  obtain ⟨hvector, hempty⟩ := (irqGetFreeMsi_cases s.irq).resolve_right fun hc => hc.2 hfree
  have hold : ∀ m ∈ s.msi, m.msiirq ≠ irqGetFreeMsi s.irq := by
    intro m hm hc
    apply h.ne_nil hm
    rw [hc]
    exact hempty
  have hchain : ∀ v, (dev.setupMsi s).irq.isrChain v =
      if v = irqGetFreeMsi s.irq then [.xhcihcdIrqhandler dev.priv] else s.irq.isrChain v := by
    intro v
    rw [XhciDevice.setupMsi, irqAddIrqHandler_chain, hempty]
  have hmsi : (dev.setupMsi s).msi = s.msi ++ [⟨dev.priv, irqGetFreeMsi s.irq⟩] := rfl
  refine ⟨?_, ?_, ?_, ?_, ?_⟩
  · intro m hm
    rw [hmsi] at hm
    rcases List.mem_append.mp hm with hm | hm
    · exact h.range m hm
    · rw [List.mem_singleton.mp hm]
      exact hvector
  · rw [hmsi, List.map_append, List.map_singleton]
    apply List.Nodup.append h.distinct (List.nodup_singleton _)
    simp only [List.disjoint_singleton, List.mem_map, not_exists, not_and]
    exact hold
  · intro m hm
    rw [hmsi] at hm
    rw [hchain]
    rcases List.mem_append.mp hm with hm | hm
    · rw [if_neg (hold m hm)]
      exact h.first m hm
    · rw [List.mem_singleton.mp hm]
      simp
  · intro m hm priv hpriv
    rw [hmsi] at hm
    rw [hchain] at hpriv
    rcases List.mem_append.mp hm with hm | hm
    · rw [if_neg (hold m hm)] at hpriv
      exact h.alone m hm priv hpriv
    · rw [List.mem_singleton.mp hm] at hpriv ⊢
      simpa using hpriv
  · intro v priv hv hpriv
    rw [hchain] at hpriv
    split_ifs at hpriv with hisr
    · have hlow := hvector.1
      rw [← hisr] at hlow
      simp only [msiirqStartvector, irqStartvector] at hlow hv
      omega
    · exact h.exceptions v priv hv hpriv

/-- An event keeps the vectors the devices' own if its probe finds a free one. -/
theorem VectorsOwn.step (h : VectorsOwn s) {e : MsiEvent X}
    (hroom : ∀ dev, e = .probe dev → dev.AsksForVector → MsiFree s.irq) (hstep : (e.step s).final = some t) :
    VectorsOwn t := by
  cases e with
  | probe dev =>
    rw [step_probe_final] at hstep
    by_cases hasks : dev.AsksForVector
    · rw [XhciDevice.xhcihcdPciProbe_asks hasks, XhciDevice.readHccparams1_final] at hstep
      rw [← Option.some.inj hstep]
      exact h.setupMsi dev (hroom dev rfl hasks)
    · rw [XhciDevice.xhcihcdPciProbe_other hasks] at hstep
      rw [← Option.some.inj hstep]
      exact h
  | register isrno x =>
    rw [MsiEvent.step, Prog.modify_run, Outcome.final_ok] at hstep
    rw [← Option.some.inj hstep]
    exact h.register isrno x

/-- A probe that asks when no vector is free chains its handler on vector 0. -/
theorem zero_chained {dev : XhciDevice} (hasks : dev.AsksForVector) (hnone : ¬ MsiFree s.irq) :
    ∃ t, ((MsiEvent.probe dev).step s).final = some t ∧ .xhcihcdIrqhandler dev.priv ∈ t.irq.isrChain 0 := by
  have hzero := ((irqGetFreeMsi_cases s.irq).resolve_left fun hc => hnone ⟨_, hc⟩).1
  refine ⟨dev.setupMsi s, ?_, ?_⟩
  · rw [step_probe_final, XhciDevice.xhcihcdPciProbe_asks hasks, XhciDevice.readHccparams1_final]
  · rw [XhciDevice.setupMsi, irqAddIrqHandler_chain, hzero, if_pos rfl]
    exact List.mem_cons_self

end Step

/-! ## All events -/

theorem msiRun_snoc (es : List (MsiEvent X)) (e : MsiEvent X) (s : MsiState X) :
    msiRun (es ++ [e]) s = (msiRun es s).andThen fun _ => e.step := by
  induction es generalizing s with
  | nil =>
    rw [List.nil_append, msiRun, msiRun, Prog.bind_run, Prog.pure_run, Outcome.andThen_ok]
    cases e.step s with
    | ok a t => rfl
    | panic msg t => rfl
    | stuck => rfl
  | cons e' es ih =>
    rw [List.cons_append, msiRun, msiRun, Prog.bind_run, Prog.bind_run]
    cases e'.step s with
    | ok a t => exact ih t
    | panic msg t => rfl
    | stuck => rfl

section Run
variable {ioapicReg : WordStack.Word → Byte → BitVec 32} {es : List (MsiEvent X)}

theorem vectorsOwn_boot : VectorsOwn (.boot ioapicReg : MsiState X) := by
  refine ⟨?_, ?_, ?_, ?_, ?_⟩ <;> simp [MsiState.boot]

theorem vectorsOwn_of_room (h : MsiRoom ioapicReg es) (passed : List (MsiEvent X)) (s : MsiState X)
    (hpassed : passed <+: es) (hrun : (msiRun passed (.boot ioapicReg)).final = some s) : VectorsOwn s := by
  induction passed using List.reverseRecOn generalizing s with
  | nil =>
    rw [msiRun, Prog.pure_run, Outcome.final_ok] at hrun
    rw [← Option.some.inj hrun]
    exact vectorsOwn_boot
  | append_singleton passed e ih =>
    have hbefore := (List.prefix_append passed [e]).trans hpassed
    rw [msiRun_snoc] at hrun
    cases hout : msiRun passed (.boot ioapicReg) with
    | ok a u =>
      rw [hout, Outcome.andThen_ok] at hrun
      have hown := ih u hbefore (by rw [hout, Outcome.final_ok])
      refine hown.step ?_ hrun
      rintro dev rfl
      exact h passed dev u hpassed hout
    | panic msg u =>
      rw [hout, Outcome.andThen_panic, Outcome.final_panic] at hrun
      rw [← Option.some.inj hrun]
      exact ih u hbefore (by rw [hout, Outcome.final_panic])
    | stuck =>
      rw [hout, Outcome.andThen_stuck] at hrun
      cases hrun

theorem room_of_safe (h : MsiSafe ioapicReg es) : MsiRoom ioapicReg es := by
  intro passed dev s hpassed hrun hasks
  by_contra hnone
  obtain ⟨t, hstep, hmem⟩ := zero_chained hasks hnone
  have hown := h.1 (passed ++ [.probe dev]) t hpassed (by rw [msiRun_snoc, hrun, Outcome.andThen_ok, hstep])
  exact hown.exceptions 0 dev.priv (by decide) hmem

theorem msi_vectors_own_iff (ioapicReg : WordStack.Word → Byte → BitVec 32) (es : List (MsiEvent X)) :
    MsiSafe ioapicReg es ↔ MsiRoom ioapicReg es := by
  refine ⟨room_of_safe, fun h => ⟨vectorsOwn_of_room h, ?_⟩⟩
  intro passed dev s hpassed hrun hasks hnone
  exact absurd (h passed dev s hpassed hrun hasks) hnone

end Run

/-- Controllers with the MSI capability. -/
def xhciControllers (n : ℕ) : List (MsiEvent Unit) :=
  (List.range n).map fun i => .probe ⟨0x1000 * (i + 1), true, 0x8000, 0x30, 0x90, 0, 1⟩

theorem thirty_third_controller_on_vector_zero : ¬ MsiSafe (fun _ _ => 0) (xhciControllers 33) := by
  intro h
  have hchained : ((msiRun (xhciControllers 33) (.boot fun _ _ => 0)).final.map fun s =>
      decide (.xhcihcdIrqhandler 0x21000 ∈ s.irq.isrChain 0)) = some true := by
    decide +kernel
  obtain ⟨s, hrun, hmem⟩ := Option.map_eq_some_iff.mp hchained
  exact (h.1 _ s List.prefix_rfl hrun).exceptions 0 _ (by decide) (of_decide_eq_true hmem)

end Borgos.Kcore
