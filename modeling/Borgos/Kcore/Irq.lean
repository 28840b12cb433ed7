import Borgos.Arch.Isr

/-! # `irq.c`, `arch_irq.c`, `apic.c`: legacy interrupts

A driver registers its handler for the interrupt line of its device and routes the line to a CPU, as
`rtl8139_pci_probe` does. An asserted line reaches the CPU through the redirection entry of the I/O APIC with the vector
programmed there.
-/
namespace Borgos.Kcore
open Borgos.Foundations WordStack Borgos.Arch
set_option autoImplicit false

abbrev Byte := BitVec 8

structure Ioapic where
  ioapicadr : Word
  globalSysIntrBase : BitVec 32
  pincount : Byte

structure IoapicIrqOverride where
  irqSource : Byte
  flags : BitVec 16

/-- What the MADT has registered, and the local APIC ids of the CPUs. -/
structure ApicConfig where
  ioapics : List Ioapic
  irqSourceOverride : Byte → Option IoapicIrqOverride
  /-- `apic_ioapic_irqoverride_add` stores an entry under its own source. -/
  source : ∀ irq e, irqSourceOverride irq = some e → e.irqSource = irq
  xapicLogicalid : Byte → Byte

/-- The chains of handlers and the registers of all I/O APICs. -/
structure IrqState (D : Type) where
  isrChain : Byte → List D
  ioapicReg : Word → Byte → BitVec 32

variable {D : Type}

/-! ## Registering -/

def irqAddIrqHandler (isrno : Byte) (h : D) (s : IrqState D) : IrqState D :=
  { s with isrChain := Function.update s.isrChain isrno (h :: s.isrChain isrno) }

def apicIoapicGet (cfg : ApicConfig) (irq : Byte) : Option Ioapic :=
  cfg.ioapics.find? fun o =>
    o.globalSysIntrBase ≤ irq.setWidth 32 && irq.setWidth 32 < o.globalSysIntrBase + o.pincount.setWidth 32

def apicIoapicWrite (adr : Word) (index : Byte) (data : BitVec 32) (s : IrqState D) : IrqState D :=
  { s with ioapicReg := Function.update s.ioapicReg adr (Function.update (s.ioapicReg adr) index data) }

def bits64Set (regvalue bitvalue : Word) (firstbit lastbit : ℕ) : Word :=
  let mask : Word := (1 <<< (1 + lastbit - firstbit)) - 1
  (regvalue &&& ~~~(mask <<< firstbit)) ||| ((bitvalue &&& mask) <<< firstbit)

/-- The redirection entry, still masked. -/
def redirectionEntry (vector xapicid : Byte) (polarity : Word) : Word :=
  let e := bits64Set 0 (vector.setWidth 64) 0 7
  let e := bits64Set e 0 8 10
  let e := bits64Set e 0 11 11
  let e := bits64Set e polarity 13 13
  let e := bits64Set e 1 15 15
  let e := bits64Set e 1 16 16
  bits64Set e (xapicid.setWidth 64) 56 63

/-- `1` stands for active low; `none` for the panic on another polarity or trigger mode. -/
def overridePolarity (flags : BitVec 16) : Option Word :=
  let polarity : Option Word := if flags &&& 0x03 = 0x03 then some 1 else if flags &&& 0x03 = 0x01 then some 0 else none
  if (flags >>> 2) &&& 0x03 = 0x03 then polarity else none

/-- The index of the lower half of a redirection entry. -/
def redirectionIndex (pin : Byte) : Byte := 0x10 + 2 * pin

def apicIoapicRouteIrq (cfg : ApicConfig) (irqno xapicid vector : Byte) (s : IrqState D) : Option (IrqState D) :=
  match cfg.irqSourceOverride irqno with
  -- Without an override there is nothing in the function to do.
  | none => some s
  | some ovr => do
    let polarity ← overridePolarity ovr.flags
    let e := redirectionEntry vector xapicid polarity
    let ioapic ← apicIoapicGet cfg ovr.irqSource
    let index := redirectionIndex ovr.irqSource
    let s := apicIoapicWrite ioapic.ioapicadr (index + 1) ((e >>> 32).setWidth 32) s
    let s := apicIoapicWrite ioapic.ioapicadr index (e.setWidth 32) s
    some (apicIoapicWrite ioapic.ioapicadr index ((bits64Set e 0 16 16).setWidth 32) s)

def archIrqRouteIrq (cfg : ApicConfig) (irqno cpuid : Byte) (s : IrqState D) : Option (IrqState D) := do
  let _ ← apicIoapicGet cfg irqno
  apicIoapicRouteIrq cfg irqno (cfg.xapicLogicalid cpuid) (irqno + BitVec.ofNat 8 irqStartvector) s

/-- What `rtl8139_pci_probe` does for a device without MSI. -/
def rtl8139PciProbe (cfg : ApicConfig) (irqLine : Byte) (h : D) (s : IrqState D) : Option (IrqState D) :=
  archIrqRouteIrq cfg irqLine 0 (irqAddIrqHandler irqLine h s)

/-- Any number of drivers, each with its line. -/
def probeAll (cfg : ApicConfig) : List (Byte × D) → IrqState D → Option (IrqState D)
  | [], s => some s
  | (irqLine, h) :: drivers, s => (rtl8139PciProbe cfg irqLine h s).bind (probeAll cfg drivers)

/-! ## Delivery -/

/-- The vector the I/O APIC sends when the input of the line is asserted. The registers leave room for 120 entries. -/
def sentVector (cfg : ApicConfig) (s : IrqState D) (irq : Byte) : Option Byte := do
  let ioapic ← apicIoapicGet cfg irq
  let pin := (irq.setWidth 32 - ioapic.globalSysIntrBase).setWidth 8
  let low := s.ioapicReg ioapic.ioapicadr (redirectionIndex pin)
  if 120 ≤ pin || low.getLsbD 16 then none else some (low.setWidth 8)

inductive IrqEvent (D : Type) where
  | handler (h : D)
  | eoi
deriving DecidableEq

def irqProcessIrq (s : IrqState D) (isrno : Byte) : List (IrqEvent D) := (s.isrChain isrno).map .handler

/-- The `irq` branch of `isr_generic`: the timer's EOI comes first. -/
def isrGenericIrq (s : IrqState D) (isrno : Byte) (irq : ℕ) : List (IrqEvent D) :=
  if irq = 0 then .eoi :: irqProcessIrq s isrno else irqProcessIrq s isrno ++ [.eoi]

/-- An asserted line reaches its own handlers, each once, and no others. -/
def Delivered [DecidableEq D] (cfg : ApicConfig) (s : IrqState D) (drivers : List (Byte × D)) (line : Byte) : Prop :=
  ∃ v irq, sentVector cfg s line = some v ∧ isrStub v.toNat = true ∧ isrBranch v.toNat = .irq irq ∧
    (∀ h, (line, h) ∈ drivers → (isrGenericIrq s v irq).count (.handler h) = 1) ∧
    (∀ line' h, (line', h) ∈ drivers → line' ≠ line → .handler h ∉ isrGenericIrq s v irq) ∧
    (isrGenericIrq s v irq).count .eoi = 1

/-! ## What routing programs -/

theorem bits64Set_low {regvalue bitvalue : Word} {firstbit lastbit : ℕ} (h : 8 ≤ firstbit) :
    (bits64Set regvalue bitvalue firstbit lastbit).setWidth 8 = regvalue.setWidth 8 := by
  ext i hi
  have hlow : i < firstbit := by omega
  simp [bits64Set, hlow]

theorem redirectionEntry_low (vector xapicid : Byte) (polarity : Word) :
    (redirectionEntry vector xapicid polarity).setWidth 8 = vector := by
  unfold redirectionEntry
  simp only [bits64Set_low (show 8 ≤ 56 by norm_num), bits64Set_low (show 8 ≤ 16 by norm_num),
    bits64Set_low (show 8 ≤ 15 by norm_num), bits64Set_low (show 8 ≤ 13 by norm_num),
    bits64Set_low (show 8 ≤ 11 by norm_num), bits64Set_low (show 8 ≤ 8 by norm_num)]
  have hmask : bits64Set 0 (vector.setWidth 64) 0 7 = vector.setWidth 64 &&& 0xFF := by simp [bits64Set]
  rw [hmask, BitVec.setWidth_and, show (0xFF : Word).setWidth 8 = BitVec.allOnes 8 from rfl, BitVec.and_allOnes]
  simp

/-- The lower and the upper halves of the entries lie at even and odd indices. -/
theorem redirectionIndex_ne_succ (p q : Byte) : redirectionIndex p ≠ redirectionIndex q + 1 := by
  unfold redirectionIndex
  bv_omega

/-- The lower halves of the entries hold what they held, or a vector of one of the lines. -/
def Programmed (lines : List Byte) (before after : Word → Byte → BitVec 32) : Prop :=
  ∀ adr pin, after adr (redirectionIndex pin) = before adr (redirectionIndex pin) ∨
    ∃ line ∈ lines, (after adr (redirectionIndex pin)).setWidth 8 = line + BitVec.ofNat 8 irqStartvector

variable {cfg : ApicConfig} {s s' : IrqState D}

theorem apicIoapicWrite_reg (adr adr' : Word) (index index' : Byte) (data : BitVec 32) :
    (apicIoapicWrite adr index data s).ioapicReg adr' index' =
      if adr' = adr ∧ index' = index then data else s.ioapicReg adr' index' := by
  unfold apicIoapicWrite
  by_cases hadr : adr' = adr
  · subst hadr
    by_cases hindex : index' = index
    · simp [hindex]
    · simp [hindex]
  · simp [hadr]

theorem apicIoapicRouteIrq_spec {irqno xapicid vector : Byte}
    (h : apicIoapicRouteIrq cfg irqno xapicid vector s = some s') :
    s'.isrChain = s.isrChain ∧ ∀ adr pin,
      s'.ioapicReg adr (redirectionIndex pin) = s.ioapicReg adr (redirectionIndex pin) ∨
        (s'.ioapicReg adr (redirectionIndex pin)).setWidth 8 = vector := by
  unfold apicIoapicRouteIrq at h
  split at h
  · obtain rfl := Option.some.inj h
    exact ⟨rfl, fun _ _ => .inl rfl⟩
  · rename_i ovr _
    simp only [Option.bind_eq_bind, Option.bind_eq_some_iff] at h
    obtain ⟨polarity, -, ioapic, -, h⟩ := h
    obtain rfl := Option.some.inj h
    refine ⟨rfl, fun adr pin => ?_⟩
    simp only [apicIoapicWrite_reg]
    by_cases hhit : adr = ioapic.ioapicadr ∧ redirectionIndex pin = redirectionIndex ovr.irqSource
    · right
      rw [if_pos hhit, BitVec.setWidth_setWidth_of_le _ (by norm_num), bits64Set_low (by norm_num)]
      exact redirectionEntry_low ..
    · left
      rw [if_neg hhit, if_neg hhit, if_neg fun e => redirectionIndex_ne_succ _ _ e.2]

/-- A probe registers the handler under its line and programs the line's vector, if anything. -/
theorem rtl8139PciProbe_spec {line : Byte} {h : D} (hrun : rtl8139PciProbe cfg line h s = some s') :
    s'.isrChain = Function.update s.isrChain line (h :: s.isrChain line) ∧
      Programmed [line] s.ioapicReg s'.ioapicReg := by
  unfold rtl8139PciProbe archIrqRouteIrq at hrun
  simp only [Option.bind_eq_bind, Option.bind_eq_some_iff] at hrun
  obtain ⟨-, -, hrun⟩ := hrun
  obtain ⟨hchain, hreg⟩ := apicIoapicRouteIrq_spec hrun
  refine ⟨hchain, fun adr pin => ?_⟩
  exact (hreg adr pin).imp_right fun hv => ⟨line, List.mem_singleton_self line, hv⟩

theorem probeAll_spec {drivers : List (Byte × D)} (hrun : probeAll cfg drivers s = some s') :
    (∀ v h, h ∈ s'.isrChain v ↔ (v, h) ∈ drivers ∨ h ∈ s.isrChain v) ∧
      Programmed (drivers.map Prod.fst) s.ioapicReg s'.ioapicReg := by
  induction drivers generalizing s with
  | nil =>
    obtain rfl := Option.some.inj hrun
    exact ⟨by simp, fun _ _ => .inl rfl⟩
  | cons r drivers ih =>
    obtain ⟨s₁, hprobe, hrest⟩ := Option.bind_eq_some_iff.mp hrun
    obtain ⟨hchain, hreg⟩ := rtl8139PciProbe_spec hprobe
    obtain ⟨hchain', hreg'⟩ := ih hrest
    constructor
    · intro v h
      rw [hchain', hchain]
      by_cases hv : v = r.1
      · subst hv
        simp only [Function.update_self, List.mem_cons, Prod.ext_iff, true_and]
        tauto
      · simp only [Function.update_of_ne hv, List.mem_cons, Prod.ext_iff, hv, false_and, false_or]
    · intro adr pin
      rcases hreg' adr pin with hsame | ⟨line, hline, hv⟩
      · rw [hsame]
        exact (hreg adr pin).imp_right fun ⟨line, hline, hv⟩ => ⟨line, by simp_all, hv⟩
      · exact .inr ⟨line, List.mem_cons_of_mem _ hline, hv⟩

/-! ## Nothing is delivered -/

/-- Before the drivers: all entries are masked, and no chain has one of their handlers. -/
structure Booted (s : IrqState D) (drivers : List (Byte × D)) : Prop where
  masked : ∀ adr pin, pin < 120 → (s.ioapicReg adr (redirectionIndex pin)).getLsbD 16 = true
  fresh : ∀ v, ∀ r ∈ drivers, r.2 ∉ s.isrChain v

/-- A vector is sent only if some driver has routed its line with it. -/
theorem sentVector_spec {drivers : List (Byte × D)} {line v : Byte} (hboot : Booted s drivers)
    (hrun : probeAll cfg drivers s = some s') (hsent : sentVector cfg s' line = some v) :
    ∃ r ∈ drivers, v = r.1 + BitVec.ofNat 8 irqStartvector := by
  unfold sentVector at hsent
  simp only [Option.bind_eq_bind, Option.bind_eq_some_iff] at hsent
  obtain ⟨ioapic, -, hsent⟩ := hsent
  split at hsent
  · exact absurd hsent (by simp)
  · rename_i hopen
    simp only [Bool.or_eq_true, decide_eq_true_eq, not_or] at hopen
    obtain rfl := Option.some.inj hsent
    rcases (probeAll_spec hrun).2 ioapic.ioapicadr _ with hsame | ⟨l, hl, hv⟩
    · rw [hsame] at hopen
      exact absurd (hboot.masked _ _ (BitVec.not_le.mp hopen.1)) hopen.2
    · obtain ⟨r, hr, rfl⟩ := List.mem_map.mp hl
      exact ⟨r, hr, hv⟩

theorem mem_isrGenericIrq {v : Byte} {irq : ℕ} {h : D} : .handler h ∈ isrGenericIrq s v irq ↔ h ∈ s.isrChain v := by
  unfold isrGenericIrq irqProcessIrq
  split <;> simp

section Delivery
variable [DecidableEq D] {drivers : List (Byte × D)}

/-- The handlers sit in the chain of the line, not in that of the vector: a line that is delivered is its own vector,
and so another driver's line lies 32 below it. -/
theorem Delivered.line (hboot : Booted s drivers) (hnodup : (drivers.map Prod.snd).Nodup)
    (hrun : probeAll cfg drivers s = some s') {r : Byte × D} (hr : r ∈ drivers) (h : Delivered cfg s' drivers r.1) :
    32 ≤ r.1.toNat ∧ r.1.toNat ≤ 95 ∧ ∃ r' ∈ drivers, r.1 = r'.1 + BitVec.ofNat 8 irqStartvector := by
  obtain ⟨v, irq, hsent, -, hbranch, hown, -⟩ := h
  have hmem : r.2 ∈ s'.isrChain v := by
    rw [← mem_isrGenericIrq, ← List.count_pos_iff, hown r.2 hr]
    exact Nat.one_pos
  have hv : (v, r.2) ∈ drivers := ((probeAll_spec hrun).1 v r.2).mp hmem |>.resolve_right (hboot.fresh v r hr)
  have hline : (v, r.2) = r := List.inj_on_of_nodup_map hnodup hv hr rfl
  obtain rfl : v = r.1 := congrArg Prod.fst hline
  obtain ⟨hlo, hhi, -⟩ := isrBranch_irq hbranch
  exact ⟨hlo, hhi, sentVector_spec hboot hrun hsent⟩

/-- Interrupts are delivered as registered only while no driver has registered. -/
theorem legacy_irq_delivered_iff (hboot : Booted s drivers) (hnodup : (drivers.map Prod.snd).Nodup)
    (hrun : probeAll cfg drivers s = some s') : (∀ r ∈ drivers, Delivered cfg s' drivers r.1) ↔ drivers = [] := by
  constructor
  · intro h
    by_contra hne
    obtain ⟨r, hr⟩ := List.exists_mem_of_ne_nil drivers hne
    have hstep := fun r hr => (h r hr).line hboot hnodup hrun hr
    -- Going down by 32 twice leaves the range of vectors that are dispatched.
    obtain ⟨-, hhi, r₁, hr₁, e₁⟩ := hstep r hr
    obtain ⟨hlo₁, hhi₁, r₂, hr₂, e₂⟩ := hstep r₁ hr₁
    obtain ⟨hlo₂, hhi₂, -⟩ := hstep r₂ hr₂
    have h₁ : r.1.toNat = r₁.1.toNat + 32 := by
      rw [e₁, BitVec.toNat_add, show (BitVec.ofNat 8 irqStartvector).toNat = 32 from rfl, Nat.mod_eq_of_lt (by omega)]
    have h₂ : r₁.1.toNat = r₂.1.toNat + 32 := by
      rw [e₂, BitVec.toNat_add, show (BitVec.ofNat 8 irqStartvector).toNat = 32 from rfl, Nat.mod_eq_of_lt (by omega)]
    omega
  · rintro rfl
    simp

end Delivery

/-- One I/O APIC of 24 pins, and the override of line 11 as active high, level triggered. -/
def q35Apic : ApicConfig where
  ioapics := [⟨0xfec00000, 0, 24⟩]
  irqSourceOverride irq := if irq = 11 then some ⟨11, 0xd⟩ else none
  source := by
    intro irq e h
    split at h
    · rename_i hirq
      rw [hirq, ← Option.some.inj h]
    · exact absurd h (by simp)
  xapicLogicalid := fun _ => 0

def irqReset : IrqState Unit := ⟨fun _ => [], fun _ _ => 0x10000⟩

theorem irqReset_booted (drivers : List (Byte × Unit)) : Booted irqReset drivers where
  masked := fun _ _ _ => show (0x10000#32).getLsbD 16 = true by decide
  fresh := by simp [irqReset]

theorem legacy_irq_delivered_iff_line_eleven : ∃ s', probeAll q35Apic [(11, ())] irqReset = some s' ∧
    ((∀ r ∈ [((11 : Byte), ())], Delivered q35Apic s' [(11, ())] r.1) ↔ [((11 : Byte), ())] = []) := by
  obtain ⟨s', hrun⟩ : ∃ s', probeAll q35Apic [(11, ())] irqReset = some s' :=
    Option.isSome_iff_exists.mp (by decide +kernel)
  exact ⟨s', hrun, legacy_irq_delivered_iff (irqReset_booted _) (by decide) hrun⟩

/-- Line 11 is sent as vector 43, and no handler is called. -/
theorem line_eleven_not_delivered : ∃ s', probeAll q35Apic [(11, ())] irqReset = some s' ∧
    sentVector q35Apic s' 11 = some 43 ∧ isrGenericIrq s' 43 11 = [.eoi] ∧ ¬Delivered q35Apic s' [(11, ())] 11 := by
  obtain ⟨s', hrun, hsent, hevents⟩ : ∃ s', probeAll q35Apic [(11, ())] irqReset = some s' ∧
      sentVector q35Apic s' 11 = some 43 ∧ isrGenericIrq s' 43 11 = [.eoi] := by
    refine ⟨_, rfl, ?_, ?_⟩
    · decide +kernel
    · decide +kernel
  refine ⟨s', hrun, hsent, hevents, fun h => ?_⟩
  have hline := h.line (r := (11, ())) (irqReset_booted _) (by decide) hrun (List.mem_singleton_self _)
  exact absurd hline.1 (by decide)

end Borgos.Kcore
