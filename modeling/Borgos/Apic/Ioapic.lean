import Borgos.Foundations.Outcome
import Borgos.Kcore.Irq

/-! # `apic.c`: I/O APICs and their redirection entries

The registers of an I/O APIC are reached through an index of 8 bits, so a register is an address and an index. Writes
are remembered in their order. `kmalloc` is a parameter that works on the heap and panics when nothing is left of it.
-/
namespace Borgos.Apic
open Borgos.Foundations
open WordStack (Word)
open Borgos.Kcore (Byte bits64Set redirectionEntry redirectionIndex)
set_option autoImplicit false

def ioapicMax : ℕ := 32

structure Ioapic where
  ioapicid : Byte
  ioapicadr : Word
  globalSysIntrBase : BitVec 32
  index : Byte
  version : Byte
  prq : Byte
  pincount : Byte

structure IoapicIrqOverride where
  busSource : Byte
  irqSource : Byte
  flags : BitVec 16
  globalSysIntr : BitVec 32

structure Write where
  adr : Word
  index : Byte
  data : BitVec 32
deriving DecidableEq

abbrev Registers := Word → Byte → BitVec 32

structure ApicState (H : Type) where
  ioapics : ℕ → Option Ioapic
  ioapicCount : ℕ
  irqSourceOverride : Byte → Option IoapicIrqOverride
  regs : Registers
  written : List Write
  heap : H

def bits32Get (value : BitVec 32) (firstbit lastbit : ℕ) : BitVec 32 :=
  (value >>> firstbit) &&& ((1 <<< (1 + lastbit - firstbit)) - 1)

section Functions
variable {H : Type}

def apicInit : Prog (ApicState H) Unit :=
  Prog.modify fun s => { s with ioapicCount := 0, ioapics := fun _ => none }

def apicIoapicRead (adr : Word) (index : Byte) : Prog (ApicState H) (BitVec 32) := do
  let s ← Prog.get
  pure (s.regs adr index)

/-- The registers after one write. -/
def Write.apply (w : Write) (regs : Registers) : Registers :=
  Function.update regs w.adr (Function.update (regs w.adr) w.index w.data)

def apicIoapicWrite (adr : Word) (index : Byte) (data : BitVec 32) : Prog (ApicState H) Unit :=
  Prog.modify fun s =>
    { s with regs := (Write.mk adr index data).apply s.regs, written := s.written ++ [⟨adr, index, data⟩] }

def apicIoapicIrqoverrideGet (irqSource : Byte) : Prog (ApicState H) (Option IoapicIrqOverride) := do
  let s ← Prog.get
  pure (s.irqSourceOverride irqSource)

/-- The comparisons of `apic_ioapic_get`, in 32 bits. -/
def Ioapic.accepts (o : Ioapic) (irq : Byte) : Bool :=
  o.globalSysIntrBase ≤ irq.setWidth 32 && irq.setWidth 32 < o.globalSysIntrBase + o.pincount.setWidth 32

def ApicState.ioapicGet (s : ApicState H) (irq : Byte) : Option Ioapic :=
  ((List.range ioapicMax).filterMap s.ioapics).find? fun o => o.accepts irq

def apicIoapicGet (irq : Byte) : Prog (ApicState H) (Option Ioapic) := do
  let s ← Prog.get
  pure (s.ioapicGet irq)

section Kmalloc
variable (kmalloc : H → Option H)

def callKmalloc : Prog (ApicState H) Unit := fun s =>
  match kmalloc s.heap with
  | some heap => .ok () { s with heap }
  | none => .panic "kmalloc" s

def apicIoapicIrqoverrideAdd (busSource irqSource : Byte) (flags : BitVec 16) (globalSysIntr : BitVec 32) :
    Prog (ApicState H) Unit := do
  let s ← Prog.get
  if (s.irqSourceOverride irqSource).isSome then Prog.panic "DUAL OVERRIDE ENTRIES FOR IRQ"
  else do
    callKmalloc kmalloc
    Prog.modify fun s =>
      { s with
        irqSourceOverride := Function.update s.irqSourceOverride irqSource
          (some ⟨busSource, irqSource, flags, globalSysIntr⟩) }

/-- The search for an I/O APIC of the same id only prints. A store beyond `ioapics` has no meaning. -/
def apicIoapicAdd (ioapicid : Byte) (ioapicadr : Word) (globalSysIntrBase : BitVec 32) : Prog (ApicState H) Unit := do
  callKmalloc kmalloc
  let index ← apicIoapicRead ioapicadr 0x00
  let versionreg ← apicIoapicRead ioapicadr 0x01
  let s ← Prog.get
  if s.ioapicCount < ioapicMax then
    Prog.modify fun s =>
      { s with
        ioapics := Function.update s.ioapics s.ioapicCount (some
          { ioapicid, ioapicadr, globalSysIntrBase
            index := index.setWidth 8
            version := (bits32Get versionreg 0 7).setWidth 8
            prq := (bits32Get versionreg 15 15).setWidth 8
            pincount := (bits32Get versionreg 16 23 + 1).setWidth 8 })
        ioapicCount := s.ioapicCount + 1 }
  else Prog.stuck

end Kmalloc

/-- The check of the override's flags. Only a level trigger and the polarities 1 and 3 are taken. -/
def checkOverride (flags : BitVec 16) : Prog (ApicState H) Word :=
  if flags &&& 0x03 ≠ 0x03 ∧ flags &&& 0x03 ≠ 0x01 then Prog.panic "Unsupported polarity override\n"
  else if (flags >>> 2) &&& 0x03 ≠ 0x03 then Prog.panic "Unsupported trigger mode override\n"
  else pure (if flags &&& 0x03 = 0x03 then 1 else 0)

def apicIoapicRouteIrq (irqno xapicid vector : Byte) : Prog (ApicState H) Unit := do
  let ovr ← apicIoapicIrqoverrideGet irqno
  match ovr with
  -- All of the programming is inside of the branch for an override.
  | none => pure ()
  | some ovr => do
    let polarity ← checkOverride ovr.flags
    let e := redirectionEntry vector xapicid polarity
    let ioapic ← apicIoapicGet ovr.irqSource
    match ioapic with
    | none => Prog.panic "NO I/O APIC found for IRQ. Is APIC supported on this system?\n"
    | some ioapic => do
      apicIoapicWrite ioapic.ioapicadr (redirectionIndex ovr.irqSource + 1) ((e >>> 32).setWidth 32)
      apicIoapicWrite ioapic.ioapicadr (redirectionIndex ovr.irqSource) (e.setWidth 32)
      apicIoapicWrite ioapic.ioapicadr (redirectionIndex ovr.irqSource) ((bits64Set e 0 16 16).setWidth 32)

/-! ## What the interrupt lines see -/

variable {D : Type} {s : ApicState H} {t : Kcore.IrqState D}

def Ioapic.line (o : Ioapic) : Kcore.Ioapic := ⟨o.ioapicadr, o.globalSysIntrBase, o.pincount⟩

def IoapicIrqOverride.line (e : IoapicIrqOverride) : Kcore.IoapicIrqOverride := ⟨e.irqSource, e.flags⟩

/-- The configuration that the routing of `irq.c` reads. -/
def ApicState.config (s : ApicState H) (xapicLogicalid : Byte → Byte)
    (hsource : ∀ irq e, s.irqSourceOverride irq = some e → e.irqSource = irq) : Kcore.ApicConfig where
  ioapics := ((List.range ioapicMax).filterMap s.ioapics).map Ioapic.line
  irqSourceOverride irq := (s.irqSourceOverride irq).map IoapicIrqOverride.line
  source irq e h := by
    obtain ⟨o, ho, rfl⟩ := Option.map_eq_some_iff.mp h
    exact hsource irq o ho
  xapicLogicalid := xapicLogicalid

variable {xapicLogicalid : Byte → Byte} {hsource : ∀ irq e, s.irqSourceOverride irq = some e → e.irqSource = irq}

theorem ioapicGet_config (irq : Byte) :
    Kcore.apicIoapicGet (s.config xapicLogicalid hsource) irq = (s.ioapicGet irq).map Ioapic.line := by
  unfold Kcore.apicIoapicGet ApicState.config ApicState.ioapicGet
  rw [List.find?_map]
  rfl

theorem checkOverride_run (flags : BitVec 16) (s : ApicState H) :
    match Kcore.overridePolarity flags with
    | some polarity => checkOverride flags s = .ok polarity s
    | none => ∃ m, checkOverride flags s = .panic m s := by
  unfold Kcore.overridePolarity checkOverride
  generalize flags &&& 0x03 = p
  generalize (flags >>> 2) &&& 0x03 = q
  by_cases htrigger : q = 0x03
  · by_cases hlow : p = 0x03
    · simp [htrigger, hlow, Prog.pure_run]
    · by_cases hhigh : p = 0x01
      · simp [htrigger, hhigh, Prog.pure_run]
      · simp only [htrigger, hlow, hhigh, if_true, if_false, ne_eq, not_false_eq_true, and_self]
        exact ⟨_, rfl⟩
  · rw [if_neg htrigger]
    by_cases hpolarity : p ≠ 0x03 ∧ p ≠ 0x01
    · rw [if_pos hpolarity]
      exact ⟨_, rfl⟩
    · rw [if_neg hpolarity, if_pos htrigger]
      exact ⟨_, rfl⟩

/-- The two readings of `apic_ioapic_route_irq` agree on the registers. -/
theorem apicIoapicRouteIrq_config (irqno xapicid vector : Byte) (hregs : t.ioapicReg = s.regs) :
    match Kcore.apicIoapicRouteIrq (s.config xapicLogicalid hsource) irqno xapicid vector t with
    | some t' => t'.isrChain = t.isrChain ∧
        ∃ s', apicIoapicRouteIrq irqno xapicid vector s = .ok () s' ∧ t'.ioapicReg = s'.regs
    | none => ∃ m, apicIoapicRouteIrq irqno xapicid vector s = .panic m s := by
  have hovr : (s.config xapicLogicalid hsource).irqSourceOverride irqno =
      (s.irqSourceOverride irqno).map IoapicIrqOverride.line := rfl
  unfold Kcore.apicIoapicRouteIrq apicIoapicRouteIrq apicIoapicIrqoverrideGet apicIoapicGet
  rw [hovr]
  simp only [Prog.bind_run, Prog.get_run, Prog.pure_run, Outcome.andThen_ok]
  cases hget : s.irqSourceOverride irqno with
  | none => exact ⟨rfl, s, rfl, hregs⟩
  | some ovr =>
    have hcheck := checkOverride_run ovr.flags s
    simp only [Option.map_some, IoapicIrqOverride.line, ioapicGet_config]
    cases hpolarity : Kcore.overridePolarity ovr.flags with
    | none =>
      rw [hpolarity] at hcheck
      obtain ⟨m, hcheck⟩ := hcheck
      exact ⟨m, by rw [Prog.bind_run, hcheck]; rfl⟩
    | some polarity =>
      rw [hpolarity] at hcheck
      simp only [Prog.bind_run, hcheck, Outcome.andThen_ok, Prog.get_run, Prog.pure_run]
      cases hioapic : s.ioapicGet ovr.irqSource with
      | none => exact ⟨_, rfl⟩
      | some o =>
        refine ⟨rfl, _, rfl, ?_⟩
        simp only [Kcore.apicIoapicWrite, Ioapic.line, hregs]
        rfl

end Functions
end Borgos.Apic
