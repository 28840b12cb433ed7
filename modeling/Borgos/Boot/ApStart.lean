import Borgos.Acpi.MadtRun
import Mathlib.Logic.Relation

/-! # `hal_start_smp`, `trampoline.S`: the other processors

The boot processor starts the application processors one after the other. It hands each one its parameters in the words
at 0x8008, 0x8010 and 0x8018, which all of them share, and nothing but the order of the accesses keeps one processor
from the parameters of another: a step is one access to what they share, of any processor, or an interprocessor
interrupt that is accepted. The processors are those that `hal_parse_APIC_from_madt` has registered. The delays, the
mode changes of the trampoline and what `hal_ap_init` does to its own processor are left out.
-/
namespace Borgos.Boot
open Borgos.Foundations Borgos.Mem Borgos.Acpi Borgos.Apic
set_option autoImplicit false

/-- What `hal_start_smp` finds, and what the allocators give it for each processor. -/
structure SmpEnv where
  cpuNumcores : ℕ
  /-- `cpu[i].archcpu.xapic_logicalid` -/
  xapicLogicalid : ℕ → ℕ
  /-- `apic_id_cpumap[id]->cpuid`, where the pointer is not null. -/
  cpuidOf : ℕ → Option ℕ
  kernelpagetable : ℕ
  halApInit : ℕ
  stackaddr : ℕ → ℕ
  apstartproc : ℕ → ℕ

/-- Where the boot processor stands. -/
inductive BpPoint where
  | loop (i : ℕ)
  | storeCr3 (i : ℕ)
  | storeStack (i : ℕ)
  | storeEntry (i : ℕ)
  | storeCurrentproc (i : ℕ)
  /-- Before the first write to `LAPIC_ICR_LOW` in `apic_start_ap`. -/
  | initIpi (i : ℕ)
  | initWait (i : ℕ)
  | firstSipi (i : ℕ)
  | firstWait (i : ℕ)
  | secondSipi (i : ℕ)
  | secondWait (i : ℕ)
  /-- Round `n` of the loop that waits for `started`. -/
  | poll (i n : ℕ)
  | panicked (i : ℕ)
  | done
deriving DecidableEq

/-- Where an application processor stands, with the registers it has loaded. -/
inductive ApPoint where
  | halted
  | waitSipi
  /-- In the trampoline, before `param_cr3` is loaded. -/
  | loadCr3
  | loadStack (cr3 : ℕ)
  | loadEntry (cr3 rsp : ℕ)
  /-- In `hal_ap_init`, before `arch_getcpu_cpuid`. -/
  | loadCpuid (cr3 rsp : ℕ)
  | loadCurrentproc (cr3 rsp cpuid : ℕ)
  | storeStarted (cr3 rsp cpuid currentproc : ℕ)
  | running (cr3 rsp cpuid currentproc : ℕ)
  /-- Elsewhere. -/
  | lost
deriving DecidableEq

structure SmpBoot where
  bp : BpPoint
  ap : ℕ → ApPoint
  /-- The interrupt command register, while the delivery is pending: the two words. -/
  icr : Option (ℕ × ℕ)
  paramCr3 : ℕ
  paramStack : ℕ
  paramEntry : ℕ
  currentproc : ℕ → ℕ
  started : ℕ → Bool

def trampoline : ℕ := 0x8000

/-- One access of `hal_start_smp`, `hal_start_ap` and `apic_start_ap`. -/
def bpExec (env : SmpEnv) (s : SmpBoot) : SmpBoot :=
  let destination (i : ℕ) : ℕ := env.xapicLogicalid i <<< 24
  match s.bp with
  | .loop i => { s with bp := if i < env.cpuNumcores then .storeCr3 i else .done }
  | .storeCr3 i => { s with bp := .storeStack i, paramCr3 := env.kernelpagetable }
  | .storeStack i => { s with bp := .storeEntry i, paramStack := (env.stackaddr i + pagesize <<< 4) % wordSize }
  | .storeEntry i => { s with bp := .storeCurrentproc i, paramEntry := env.halApInit }
  | .storeCurrentproc i =>
    { s with bp := .initIpi i, currentproc := Function.update s.currentproc i (env.apstartproc i) }
  | .initIpi i => { s with bp := .initWait i, icr := some (destination i, 0x4500) }
  | .initWait i => { s with bp := if s.icr.isSome then .initWait i else .firstSipi i }
  | .firstSipi i => { s with bp := .firstWait i, icr := some (destination i, 0x4600 ||| 0x08) }
  | .firstWait i => { s with bp := if s.icr.isSome then .firstWait i else .secondSipi i }
  | .secondSipi i => { s with bp := .secondWait i, icr := some (destination i, 0x4600 ||| 0x08) }
  | .secondWait i => { s with bp := if s.icr.isSome then .secondWait i else .poll i 0 }
  | .poll i n =>
    { s with bp := if n < 10 then (if s.started i then .loop (i + 1) else .poll i (n + 1)) else .panicked i }
  | .panicked i => { s with bp := .panicked i }
  | .done => { s with bp := .done }

/-- One access of processor `c`, in the trampoline or in `hal_ap_init`. -/
def apExec (env : SmpEnv) (c : ℕ) (s : SmpBoot) : SmpBoot :=
  let go (pt : ApPoint) : SmpBoot := { s with ap := Function.update s.ap c pt }
  match s.ap c with
  | .loadCr3 => go (.loadStack (s.paramCr3 % 2 ^ 32))
  | .loadStack cr3 => go (.loadEntry cr3 s.paramStack)
  | .loadEntry cr3 rsp =>
    go (if s.paramEntry = env.halApInit then .loadCpuid cr3 ((rsp + (wordSize - 8)) % wordSize) else .lost)
  | .loadCpuid cr3 rsp => go ((env.cpuidOf (env.xapicLogicalid c)).elim .lost (.loadCurrentproc cr3 rsp))
  | .loadCurrentproc cr3 rsp cpuid => go (.storeStarted cr3 rsp cpuid (s.currentproc cpuid))
  | .storeStarted cr3 rsp cpuid p =>
    { s with ap := Function.update s.ap c (.running cr3 rsp cpuid p), started := Function.update s.started cpuid true }
  | .halted | .waitSipi | .running .. | .lost => s

/-- What the interprocessor interrupt in `low` does to the processor that accepts it. -/
def acceptIpi (low : ℕ) (pt : ApPoint) : ApPoint :=
  match low >>> 8 % 8 with
  | 5 => .waitSipi
  | 6 => if pt = .waitSipi then (if low % 256 * 0x1000 = trampoline then .loadCr3 else .lost) else pt
  | _ => pt

def accept (c low : ℕ) (s : SmpBoot) : SmpBoot :=
  { s with icr := none, ap := Function.update s.ap c (acceptIpi low (s.ap c)) }

inductive SmpStep (env : SmpEnv) (s : SmpBoot) : SmpBoot → Prop
  | bp : SmpStep env s (bpExec env s)
  | ap (c : ℕ) (h1 : 1 ≤ c) (hc : c < env.cpuNumcores) : SmpStep env s (apExec env c s)
  | accept (c high low : ℕ) (h1 : 1 ≤ c) (hc : c < env.cpuNumcores) (hicr : s.icr = some (high, low))
      (hdest : high >>> 24 = env.xapicLogicalid c) : SmpStep env s (accept c low s)

/-! ## The invariant -/

/-- Each processor is registered under its own id, and the addresses are ones the allocators give. -/
structure SmpEnv.Right (env : SmpEnv) : Prop where
  cpuid : ∀ i, 1 ≤ i → i < env.cpuNumcores → env.cpuidOf (env.xapicLogicalid i) = some i
  table : ∃ frame, frame < 2 ^ 32 ∧ env.kernelpagetable = p2v frame
  stack : ∀ i, env.stackaddr i + pagesize <<< 4 < wordSize

namespace SmpEnv

/-- The top of the stack of `i`, less the word a call would push. -/
def entryRsp (env : SmpEnv) (i : ℕ) : ℕ := env.stackaddr i + pagesize <<< 4 - 8

/-- What processor `c` has loaded, between the first startup interrupt and the end of `hal_ap_init`. -/
def Launched (env : SmpEnv) (c : ℕ) : ApPoint → Prop
  | .halted | .waitSipi | .lost => False
  | .loadCr3 => True
  | .loadStack cr3 => cr3 = v2p env.kernelpagetable
  | .loadEntry cr3 rsp => cr3 = v2p env.kernelpagetable ∧ rsp = env.stackaddr c + pagesize <<< 4
  | .loadCpuid cr3 rsp => cr3 = v2p env.kernelpagetable ∧ rsp = env.entryRsp c
  | .loadCurrentproc cr3 rsp cpuid => cr3 = v2p env.kernelpagetable ∧ rsp = env.entryRsp c ∧ cpuid = c
  | .storeStarted cr3 rsp cpuid p | .running cr3 rsp cpuid p =>
    cr3 = v2p env.kernelpagetable ∧ rsp = env.entryRsp c ∧ cpuid = c ∧ p = env.apstartproc c

/-- The parameters are those of `i`. -/
structure Params (env : SmpEnv) (i : ℕ) (s : SmpBoot) : Prop where
  cr3 : s.paramCr3 = env.kernelpagetable
  stack : s.paramStack = env.stackaddr i + pagesize <<< 4
  entry : s.paramEntry = env.halApInit
  currentproc : s.currentproc i = env.apstartproc i

end SmpEnv

/-- The processor `hal_start_smp` is at. -/
def BpPoint.current (env : SmpEnv) : BpPoint → ℕ
  | .loop i | .storeCr3 i | .storeStack i | .storeEntry i | .storeCurrentproc i | .initIpi i | .initWait i
  | .firstSipi i | .firstWait i | .secondSipi i | .secondWait i | .poll i _ | .panicked i => i
  | .done => env.cpuNumcores

def ApPoint.hasStarted : ApPoint → Prop
  | .running .. => True
  | _ => False

/-- How far processor `i` is when the boot processor stands at `pt`, and what the parameters are. -/
def Phase (env : SmpEnv) (s : SmpBoot) : BpPoint → Prop
  | .loop i => 1 ≤ i ∧ s.icr = none ∧ (i < env.cpuNumcores → s.ap i = .halted)
  | .storeCr3 i => (1 ≤ i ∧ i < env.cpuNumcores) ∧ s.icr = none ∧ s.ap i = .halted
  | .storeStack i => (1 ≤ i ∧ i < env.cpuNumcores) ∧ s.icr = none ∧ s.ap i = .halted ∧ s.paramCr3 = env.kernelpagetable
  | .storeEntry i =>
      (1 ≤ i ∧ i < env.cpuNumcores) ∧ s.icr = none ∧ s.ap i = .halted ∧ s.paramCr3 = env.kernelpagetable ∧
      s.paramStack = env.stackaddr i + pagesize <<< 4
  | .storeCurrentproc i => (1 ≤ i ∧ i < env.cpuNumcores) ∧ s.icr = none ∧ s.ap i = .halted ∧
      s.paramCr3 = env.kernelpagetable ∧ s.paramStack = env.stackaddr i + pagesize <<< 4 ∧ s.paramEntry = env.halApInit
  | .initIpi i => (1 ≤ i ∧ i < env.cpuNumcores) ∧ env.Params i s ∧ s.icr = none ∧ s.ap i = .halted
  | .initWait i => (1 ≤ i ∧ i < env.cpuNumcores) ∧ env.Params i s ∧
      (s.icr = some (env.xapicLogicalid i <<< 24, 0x4500) ∧ s.ap i = .halted ∨ s.icr = none ∧ s.ap i = .waitSipi)
  | .firstSipi i => (1 ≤ i ∧ i < env.cpuNumcores) ∧ env.Params i s ∧ s.icr = none ∧ s.ap i = .waitSipi
  | .firstWait i => (1 ≤ i ∧ i < env.cpuNumcores) ∧ env.Params i s ∧
      (s.icr = some (env.xapicLogicalid i <<< 24, 0x4600 ||| 0x08) ∧ s.ap i = .waitSipi ∨
        s.icr = none ∧ env.Launched i (s.ap i))
  | .secondSipi i => (1 ≤ i ∧ i < env.cpuNumcores) ∧ env.Params i s ∧ s.icr = none ∧ env.Launched i (s.ap i)
  | .secondWait i => (1 ≤ i ∧ i < env.cpuNumcores) ∧ env.Params i s ∧
      (s.icr = some (env.xapicLogicalid i <<< 24, 0x4600 ||| 0x08) ∨ s.icr = none) ∧ env.Launched i (s.ap i)
  | .poll i _ | .panicked i => (1 ≤ i ∧ i < env.cpuNumcores) ∧ env.Params i s ∧ s.icr = none ∧ env.Launched i (s.ap i)
  | .done => s.icr = none

/-- The processors before the current one run, those after it have not been woken, and `started` says which run. -/
structure SmpBootInv (env : SmpEnv) (s : SmpBoot) : Prop where
  earlier : ∀ c, 1 ≤ c → c < s.bp.current env → env.Launched c (s.ap c) ∧ (s.ap c).hasStarted
  later : ∀ c, s.bp.current env < c → c < env.cpuNumcores → s.ap c = .halted
  started : ∀ c, s.started c = true ↔ (s.ap c).hasStarted
  phase : Phase env s s.bp

section Steps
variable {env : SmpEnv} {s s' : SmpBoot} {c i : ℕ}

/-- The parameter is a virtual address, and its low half the physical one. -/
theorem SmpEnv.Right.cr3 (h : env.Right) : env.kernelpagetable % 2 ^ 32 = v2p env.kernelpagetable := by
  obtain ⟨frame, hframe, htable⟩ := h.table
  rw [htable, v2p_p2v (by omega)]
  unfold p2v kernelUpperHalfOffset wordSize
  omega

theorem SmpEnv.Right.rsp (h : env.Right) (i : ℕ) :
    (env.stackaddr i + pagesize <<< 4 + (wordSize - 8)) % wordSize = env.entryRsp i := by
  have hstack := h.stack i
  unfold SmpEnv.entryRsp
  unfold wordSize pagesize at *
  omega

/-- Two processors do not answer to the same identifier. -/
theorem SmpEnv.Right.xapic_inj (h : env.Right) (hc : 1 ≤ c ∧ c < env.cpuNumcores) (hi : 1 ≤ i ∧ i < env.cpuNumcores)
    (hid : env.xapicLogicalid i = env.xapicLogicalid c) : c = i := by
  refine Option.some.inj ?_
  rw [← h.cpuid c hc.1 hc.2, ← h.cpuid i hi.1 hi.2, hid]

/-- A processor whose parameters these are goes on, or starts. -/
theorem apExec_launched (hright : env.Right) (hc : 1 ≤ c ∧ c < env.cpuNumcores) (hparams : env.Params c s)
    (hlaunched : env.Launched c (s.ap c)) (hstarted : s.started c = true ↔ (s.ap c).hasStarted) :
    ∃ pt, env.Launched c pt ∧
      (¬(s.ap c).hasStarted ∧ ¬pt.hasStarted ∧ apExec env c s = { s with ap := Function.update s.ap c pt } ∨
        pt.hasStarted ∧ apExec env c s =
          { s with ap := Function.update s.ap c pt, started := Function.update s.started c true }) := by
  unfold apExec
  cases hpt : s.ap c with
  | halted =>
    rw [hpt] at hlaunched
    exact hlaunched.elim
  | waitSipi =>
    rw [hpt] at hlaunched
    exact hlaunched.elim
  | lost =>
    rw [hpt] at hlaunched
    exact hlaunched.elim
  | loadCr3 =>
    refine ⟨.loadStack (s.paramCr3 % 2 ^ 32), ?_, .inl ⟨id, id, rfl⟩⟩
    rw [hparams.cr3]
    exact hright.cr3
  | loadStack cr3 =>
    rw [hpt] at hlaunched
    exact ⟨.loadEntry cr3 s.paramStack, ⟨hlaunched, hparams.stack⟩, .inl ⟨id, id, rfl⟩⟩
  | loadEntry cr3 rsp =>
    rw [hpt] at hlaunched
    obtain ⟨hcr3, rfl⟩ := hlaunched
    refine ⟨.loadCpuid cr3 _, ⟨hcr3, hright.rsp c⟩, .inl ⟨id, id, ?_⟩⟩
    simp only [if_pos hparams.entry]
  | loadCpuid cr3 rsp =>
    rw [hpt] at hlaunched
    refine ⟨.loadCurrentproc cr3 rsp c, ⟨hlaunched.1, hlaunched.2, rfl⟩, .inl ⟨id, id, ?_⟩⟩
    simp only [hright.cpuid c hc.1 hc.2, Option.elim_some]
  | loadCurrentproc cr3 rsp cpuid =>
    rw [hpt] at hlaunched
    obtain ⟨hcr3, hrsp, rfl⟩ := hlaunched
    exact ⟨.storeStarted cr3 rsp cpuid _, ⟨hcr3, hrsp, rfl, hparams.currentproc⟩, .inl ⟨id, id, rfl⟩⟩
  | storeStarted cr3 rsp cpuid p =>
    rw [hpt] at hlaunched
    obtain ⟨hcr3, hrsp, rfl, hp⟩ := hlaunched
    exact ⟨.running cr3 rsp cpuid p, ⟨hcr3, hrsp, rfl, hp⟩, .inr ⟨trivial, rfl⟩⟩
  | running cr3 rsp cpuid p =>
    rw [hpt] at hlaunched hstarted
    refine ⟨.running cr3 rsp cpuid p, hlaunched, .inr ⟨trivial, ?_⟩⟩
    have hap : Function.update s.ap c (.running cr3 rsp cpuid p) = s.ap := by rw [← hpt, Function.update_eq_self]
    have hflag : Function.update s.started c true = s.started := by rw [← hstarted.mpr trivial, Function.update_eq_self]
    rw [hap, hflag]

theorem ApPoint.eq_running {pt : ApPoint} (h : pt.hasStarted) : ∃ cr3 rsp cpuid p, pt = .running cr3 rsp cpuid p := by
  cases pt with
  | running cr3 rsp cpuid p => exact ⟨cr3, rsp, cpuid, p, rfl⟩
  | halted => exact h.elim
  | waitSipi => exact h.elim
  | lost => exact h.elim
  | loadCr3 => exact h.elim
  | loadStack cr3 => exact h.elim
  | loadEntry cr3 rsp => exact h.elim
  | loadCpuid cr3 rsp => exact h.elim
  | loadCurrentproc cr3 rsp cpuid => exact h.elim
  | storeStarted cr3 rsp cpuid p => exact h.elim

/-- A processor that has not been woken, or that runs, changes nothing. -/
theorem apExec_idle (h : s.ap c = .halted ∨ s.ap c = .waitSipi ∨ (s.ap c).hasStarted) : apExec env c s = s := by
  unfold apExec
  rcases h with h | h | h
  · rw [h]
  · rw [h]
  · obtain ⟨cr3, rsp, cpuid, p, hpt⟩ := ApPoint.eq_running h
    rw [hpt]

theorem SmpEnv.Params.frame (h : env.Params i s) (hcr3 : s'.paramCr3 = s.paramCr3)
    (hstack : s'.paramStack = s.paramStack) (hentry : s'.paramEntry = s.paramEntry)
    (hproc : s'.currentproc = s.currentproc) : env.Params i s' :=
  ⟨hcr3.trans h.cr3, hstack.trans h.stack, hentry.trans h.entry, (congrFun hproc i).trans h.currentproc⟩

/-- The current processor has not been woken, or the parameters are its own. -/
theorem Phase.current {pt : BpPoint} (h : Phase env s pt) (hcores : pt.current env < env.cpuNumcores) :
    (s.ap (pt.current env) = .halted ∨ s.ap (pt.current env) = .waitSipi) ∨
      env.Launched (pt.current env) (s.ap (pt.current env)) ∧ env.Params (pt.current env) s := by
  cases pt with
  | loop i => exact .inl (.inl (h.2.2 hcores))
  | storeCr3 i => exact .inl (.inl h.2.2)
  | storeStack i => exact .inl (.inl h.2.2.1)
  | storeEntry i => exact .inl (.inl h.2.2.1)
  | storeCurrentproc i => exact .inl (.inl h.2.2.1)
  | initIpi i => exact .inl (.inl h.2.2.2)
  | initWait i => exact .inl (h.2.2.imp And.right And.right)
  | firstSipi i => exact .inl (.inr h.2.2.2)
  | firstWait i => exact h.2.2.imp (fun h => .inr h.2) fun h' => ⟨h'.2, h.2.1⟩
  | secondSipi i => exact .inr ⟨h.2.2.2, h.2.1⟩
  | secondWait i => exact .inr ⟨h.2.2.2, h.2.1⟩
  | poll i n => exact .inr ⟨h.2.2.2, h.2.1⟩
  | panicked i => exact .inr ⟨h.2.2.2, h.2.1⟩
  | done => exact absurd hcores (lt_irrefl env.cpuNumcores)

/-- An interprocessor interrupt is pending only where the boot processor waits for its delivery. -/
theorem Phase.pending {pt : BpPoint} (h : Phase env s pt) (hicr : s.icr ≠ none) :
    (∃ i, pt = .initWait i) ∨ (∃ i, pt = .firstWait i) ∨ ∃ i, pt = .secondWait i := by
  cases pt with
  | initWait i => exact .inl ⟨i, rfl⟩
  | firstWait i => exact .inr (.inl ⟨i, rfl⟩)
  | secondWait i => exact .inr (.inr ⟨i, rfl⟩)
  | loop i => exact absurd h.2.1 hicr
  | storeCr3 i => exact absurd h.2.1 hicr
  | storeStack i => exact absurd h.2.1 hicr
  | storeEntry i => exact absurd h.2.1 hicr
  | storeCurrentproc i => exact absurd h.2.1 hicr
  | initIpi i => exact absurd h.2.2.1 hicr
  | firstSipi i => exact absurd h.2.2.1 hicr
  | secondSipi i => exact absurd h.2.2.1 hicr
  | poll i n => exact absurd h.2.2.1 hicr
  | panicked i => exact absurd h.2.2.1 hicr
  | done => exact absurd h hicr

/-- The phase does not depend on how far a launched processor is. -/
theorem Phase.frame {pt : BpPoint} (h : Phase env s pt) (hicr : s'.icr = s.icr) (hcr3 : s'.paramCr3 = s.paramCr3)
    (hstack : s'.paramStack = s.paramStack) (hentry : s'.paramEntry = s.paramEntry)
    (hproc : s'.currentproc = s.currentproc) (hap : s'.ap (pt.current env) = s.ap (pt.current env) ∨
      env.Launched (pt.current env) (s.ap (pt.current env)) ∧ env.Launched (pt.current env) (s'.ap (pt.current env))) :
    Phase env s' pt := by
  have hparams : ∀ {i}, env.Params i s → env.Params i s' := fun hp => hp.frame hcr3 hstack hentry hproc
  have hhalted : ∀ {a}, pt.current env = a → s.ap a = .halted → s'.ap a = .halted := by
    rintro a rfl ha
    rcases hap with hap | ⟨hlaunched, -⟩
    · exact hap.trans ha
    · rw [ha] at hlaunched
      exact hlaunched.elim
  have hwaits : ∀ {a}, pt.current env = a → s.ap a = .waitSipi → s'.ap a = .waitSipi := by
    rintro a rfl ha
    rcases hap with hap | ⟨hlaunched, -⟩
    · exact hap.trans ha
    · rw [ha] at hlaunched
      exact hlaunched.elim
  have hgoes : ∀ {a}, pt.current env = a → env.Launched a (s.ap a) → env.Launched a (s'.ap a) := by
    rintro a rfl ha
    rcases hap with hap | ⟨-, hlaunched⟩
    · rwa [hap]
    · exact hlaunched
  cases pt with
  | loop i => exact ⟨h.1, hicr.trans h.2.1, fun hi => hhalted rfl (h.2.2 hi)⟩
  | storeCr3 i => exact ⟨h.1, hicr.trans h.2.1, hhalted rfl h.2.2⟩
  | storeStack i => exact ⟨h.1, hicr.trans h.2.1, hhalted rfl h.2.2.1, hcr3.trans h.2.2.2⟩
  | storeEntry i =>
    exact ⟨h.1, hicr.trans h.2.1, hhalted rfl h.2.2.1, hcr3.trans h.2.2.2.1, hstack.trans h.2.2.2.2⟩
  | storeCurrentproc i =>
    exact ⟨h.1, hicr.trans h.2.1, hhalted rfl h.2.2.1, hcr3.trans h.2.2.2.1, hstack.trans h.2.2.2.2.1,
      hentry.trans h.2.2.2.2.2⟩
  | initIpi i => exact ⟨h.1, hparams h.2.1, hicr.trans h.2.2.1, hhalted rfl h.2.2.2⟩
  | initWait i =>
    refine ⟨h.1, hparams h.2.1, h.2.2.imp (fun h => ⟨hicr.trans h.1, hhalted rfl h.2⟩) fun h =>
      ⟨hicr.trans h.1, hwaits rfl h.2⟩⟩
  | firstSipi i => exact ⟨h.1, hparams h.2.1, hicr.trans h.2.2.1, hwaits rfl h.2.2.2⟩
  | firstWait i =>
    exact ⟨h.1, hparams h.2.1, h.2.2.imp (fun h => ⟨hicr.trans h.1, hwaits rfl h.2⟩) fun h =>
      ⟨hicr.trans h.1, hgoes rfl h.2⟩⟩
  | secondSipi i => exact ⟨h.1, hparams h.2.1, hicr.trans h.2.2.1, hgoes rfl h.2.2.2⟩
  | secondWait i => exact ⟨h.1, hparams h.2.1, h.2.2.1.imp hicr.trans hicr.trans, hgoes rfl h.2.2.2⟩
  | poll i n => exact ⟨h.1, hparams h.2.1, hicr.trans h.2.2.1, hgoes rfl h.2.2.2⟩
  | panicked i => exact ⟨h.1, hparams h.2.1, hicr.trans h.2.2.1, hgoes rfl h.2.2.2⟩
  | done => exact hicr.trans h

end Steps

namespace SmpBootInv
variable {env : SmpEnv} {s : SmpBoot}

/-- The boot processor goes on with the same processor. -/
theorem advance (h : SmpBootInv env s) {s' : SmpBoot} (hap : s'.ap = s.ap) (hstarted : s'.started = s.started)
    (hcurrent : s'.bp.current env = s.bp.current env) (hphase : Phase env s' s'.bp) : SmpBootInv env s' where
  earlier c h1 hc := by
    rw [hap]
    exact h.earlier c h1 (hcurrent ▸ hc)
  later c hc := by
    rw [hap]
    exact h.later c (hcurrent ▸ hc)
  started c := by
    rw [hap, hstarted]
    exact h.started c
  phase := hphase

/-- The current processor runs, and the next one is waiting. -/
theorem next (h : SmpBootInv env s) {i n : ℕ} (hbp : s.bp = .poll i n) (hi : s.started i = true) :
    SmpBootInv env { s with bp := .loop (i + 1) } := by
  have hphase := h.phase
  rw [hbp] at hphase
  have hcurrent : s.bp.current env = i := by
    rw [hbp]
    rfl
  refine ⟨fun c h1 hc => ?_, fun c hc => ?_, h.started, Nat.le_add_left 1 i, hphase.2.2.1, ?_⟩
  · rcases Nat.lt_succ_iff_lt_or_eq.mp hc with hlt | rfl
    · exact h.earlier c h1 (hcurrent.symm ▸ hlt)
    · exact ⟨hphase.2.2.2, (h.started c).mp hi⟩
  · exact h.later c (hcurrent.symm ▸ Nat.lt_of_succ_lt hc)
  · exact h.later (i + 1) (hcurrent.symm ▸ Nat.lt_succ_self i)

/-- All processors have been started. -/
theorem finish (h : SmpBootInv env s) {i : ℕ} (hbp : s.bp = .loop i) (hi : ¬i < env.cpuNumcores) :
    SmpBootInv env { s with bp := .done } := by
  have hphase := h.phase
  rw [hbp] at hphase
  have hcurrent : s.bp.current env = i := by
    rw [hbp]
    rfl
  refine ⟨fun c h1 hc => h.earlier c h1 ?_, fun c hc hc' => absurd hc (Nat.lt_asymm hc'), h.started, hphase.2.1⟩
  rw [hcurrent]
  exact lt_of_lt_of_le hc (Nat.not_lt.mp hi)

theorem bp (h : SmpBootInv env s) (hright : env.Right) : SmpBootInv env (bpExec env s) := by
  have hphase := h.phase
  have hstack : ∀ i, (env.stackaddr i + pagesize <<< 4) % wordSize = env.stackaddr i + pagesize <<< 4 :=
    fun i => Nat.mod_eq_of_lt (hright.stack i)
  unfold bpExec
  cases hbp : s.bp with
  | loop i =>
    rw [hbp] at hphase
    dsimp only
    split
    · rename_i hi
      exact h.advance rfl rfl (by rw [hbp]; rfl) ⟨⟨hphase.1, hi⟩, hphase.2.1, hphase.2.2 hi⟩
    · rename_i hi
      exact h.finish hbp hi
  | storeCr3 i =>
    rw [hbp] at hphase
    exact h.advance rfl rfl (by rw [hbp]; rfl) ⟨hphase.1, hphase.2.1, hphase.2.2, rfl⟩
  | storeStack i =>
    rw [hbp] at hphase
    exact h.advance rfl rfl (by rw [hbp]; rfl) ⟨hphase.1, hphase.2.1, hphase.2.2.1, hphase.2.2.2, hstack i⟩
  | storeEntry i =>
    rw [hbp] at hphase
    exact h.advance rfl rfl (by rw [hbp]; rfl)
      ⟨hphase.1, hphase.2.1, hphase.2.2.1, hphase.2.2.2.1, hphase.2.2.2.2, rfl⟩
  | storeCurrentproc i =>
    rw [hbp] at hphase
    obtain ⟨hi, hicr, hap, hcr3, hsp, hentry⟩ := hphase
    exact h.advance rfl rfl (by rw [hbp]; rfl) ⟨hi, ⟨hcr3, hsp, hentry, Function.update_self ..⟩, hicr, hap⟩
  | initIpi i =>
    rw [hbp] at hphase
    exact h.advance rfl rfl (by rw [hbp]; rfl)
      ⟨hphase.1, hphase.2.1.frame rfl rfl rfl rfl, .inl ⟨rfl, hphase.2.2.2⟩⟩
  | initWait i =>
    rw [hbp] at hphase
    obtain ⟨hi, hparams, ⟨hicr, hap⟩ | ⟨hicr, hap⟩⟩ := hphase
    · simp only [hicr, Option.isSome_some, if_true]
      exact h.advance rfl rfl (by rw [hbp]) ⟨hi, hparams.frame rfl rfl rfl rfl, .inl ⟨rfl, hap⟩⟩
    · simp only [hicr, Option.isSome_none, Bool.false_eq_true, if_false]
      exact h.advance rfl rfl (by rw [hbp]; rfl) ⟨hi, hparams.frame rfl rfl rfl rfl, rfl, hap⟩
  | firstSipi i =>
    rw [hbp] at hphase
    exact h.advance rfl rfl (by rw [hbp]; rfl)
      ⟨hphase.1, hphase.2.1.frame rfl rfl rfl rfl, .inl ⟨rfl, hphase.2.2.2⟩⟩
  | firstWait i =>
    rw [hbp] at hphase
    obtain ⟨hi, hparams, ⟨hicr, hap⟩ | ⟨hicr, hap⟩⟩ := hphase
    · simp only [hicr, Option.isSome_some, if_true]
      exact h.advance rfl rfl (by rw [hbp]) ⟨hi, hparams.frame rfl rfl rfl rfl, .inl ⟨rfl, hap⟩⟩
    · simp only [hicr, Option.isSome_none, Bool.false_eq_true, if_false]
      exact h.advance rfl rfl (by rw [hbp]; rfl) ⟨hi, hparams.frame rfl rfl rfl rfl, rfl, hap⟩
  | secondSipi i =>
    rw [hbp] at hphase
    exact h.advance rfl rfl (by rw [hbp]; rfl)
      ⟨hphase.1, hphase.2.1.frame rfl rfl rfl rfl, .inl rfl, hphase.2.2.2⟩
  | secondWait i =>
    rw [hbp] at hphase
    obtain ⟨hi, hparams, hicr | hicr, hap⟩ := hphase
    · simp only [hicr, Option.isSome_some, if_true]
      exact h.advance rfl rfl (by rw [hbp]) ⟨hi, hparams.frame rfl rfl rfl rfl, .inl rfl, hap⟩
    · simp only [hicr, Option.isSome_none, Bool.false_eq_true, if_false]
      exact h.advance rfl rfl (by rw [hbp]; rfl) ⟨hi, hparams.frame rfl rfl rfl rfl, rfl, hap⟩
  | poll i n =>
    rw [hbp] at hphase
    dsimp only
    split
    · split
      · rename_i hi
        exact h.next hbp hi
      · exact h.advance rfl rfl (by rw [hbp]; rfl) ⟨hphase.1, hphase.2.1.frame rfl rfl rfl rfl, hphase.2.2⟩
    · exact h.advance rfl rfl (by rw [hbp]; rfl) ⟨hphase.1, hphase.2.1.frame rfl rfl rfl rfl, hphase.2.2⟩
  | panicked i =>
    rw [hbp] at hphase
    exact h.advance rfl rfl (by rw [hbp]) ⟨hphase.1, hphase.2.1.frame rfl rfl rfl rfl, hphase.2.2⟩
  | done =>
    rw [hbp] at hphase
    exact h.advance rfl rfl (by rw [hbp]) hphase

/-- The current processor is elsewhere, and nothing else has changed. -/
theorem moveCurrent (h : SmpBootInv env s) {s' : SmpBoot} {pt : ApPoint} (hbp : s'.bp = s.bp)
    (hap : s'.ap = Function.update s.ap (s.bp.current env) pt)
    (hself : s'.started (s.bp.current env) = true ↔ pt.hasStarted)
    (hother : ∀ c, c ≠ s.bp.current env → s'.started c = s.started c) (hphase : Phase env s' s.bp) :
    SmpBootInv env s' where
  earlier c h1 hc := by
    rw [hbp] at hc
    rw [hap, Function.update_of_ne hc.ne]
    exact h.earlier c h1 hc
  later c hc hcores := by
    rw [hbp] at hc
    rw [hap, Function.update_of_ne hc.ne']
    exact h.later c hc hcores
  started c := by
    rw [hap]
    by_cases hc : c = s.bp.current env
    · rw [hc, Function.update_self]
      exact hself
    · rw [Function.update_of_ne hc, hother c hc]
      exact h.started c
  phase := hbp ▸ hphase

/-- A step of a processor. -/
theorem ap (h : SmpBootInv env s) (hright : env.Right) {c : ℕ} (hc : 1 ≤ c ∧ c < env.cpuNumcores) :
    SmpBootInv env (apExec env c s) := by
  rcases lt_trichotomy c (s.bp.current env) with hlt | rfl | hgt
  · rwa [apExec_idle (.inr (.inr (h.earlier c hc.1 hlt).2))]
  · rcases h.phase.current hc.2 with (hidle | hidle) | ⟨hlaunched, hparams⟩
    · rwa [apExec_idle (.inl hidle)]
    · rwa [apExec_idle (.inr (.inl hidle))]
    · obtain ⟨pt, hpt, ⟨hbefore, hafter, hexec⟩ | ⟨hafter, hexec⟩⟩ :=
        apExec_launched hright hc hparams hlaunched (h.started _)
      · rw [hexec]
        refine h.moveCurrent rfl rfl ((h.started _).trans (iff_of_false hbefore hafter)) (fun _ _ => rfl)
          (h.phase.frame rfl rfl rfl rfl rfl (.inr ⟨hlaunched, ?_⟩))
        show env.Launched _ (Function.update s.ap _ pt _)
        rwa [Function.update_self]
      · rw [hexec]
        refine h.moveCurrent rfl rfl (iff_of_true (Function.update_self ..) hafter)
          (fun c hc => Function.update_of_ne hc ..)
          (h.phase.frame rfl rfl rfl rfl rfl (.inr ⟨hlaunched, ?_⟩))
        show env.Launched _ (Function.update s.ap _ pt _)
        rwa [Function.update_self]
  · rwa [apExec_idle (.inl (h.later c hgt hc.2))]

/-- An interprocessor interrupt is accepted by the current processor, which is waiting for it or ignores it. -/
theorem accept (h : SmpBootInv env s) (hright : env.Right) {c high low : ℕ} (hc : 1 ≤ c ∧ c < env.cpuNumcores)
    (hicr : s.icr = some (high, low)) (hdest : high >>> 24 = env.xapicLogicalid c) :
    SmpBootInv env (Boot.accept c low s) := by
  have hpending : ∀ {i w}, s.icr = some (env.xapicLogicalid i <<< 24, w) → 1 ≤ i ∧ i < env.cpuNumcores →
      c = i ∧ low = w := by
    intro i w hi hcores
    rw [hicr] at hi
    have hwords := Prod.mk.inj (Option.some.inj hi)
    rw [hwords.1, Nat.shiftLeft_shiftRight] at hdest
    exact ⟨hright.xapic_inj hc hcores hdest, hwords.2⟩
  have hnone : s.icr ≠ none := by
    rw [hicr]
    exact Option.some_ne_none _
  have hphase := h.phase
  rcases h.phase.pending hnone with ⟨i, hbp⟩ | ⟨i, hbp⟩ | ⟨i, hbp⟩
  · rw [hbp] at hphase
    obtain ⟨hi, hparams, ⟨hinit, hap⟩ | ⟨hempty, -⟩⟩ := hphase
    · obtain ⟨rfl, rfl⟩ := hpending hinit hi
      refine @moveCurrent _ _ h _ .waitSipi rfl ?_ ?_ (fun _ _ => rfl) ?_
      · rw [hbp]
        rfl
      · rw [hbp]
        exact (h.started c).trans (by rw [hap]; exact Iff.rfl)
      · rw [hbp]
        exact ⟨hi, hparams.frame rfl rfl rfl rfl, .inr ⟨rfl, Function.update_self ..⟩⟩
    · exact absurd hempty hnone
  · rw [hbp] at hphase
    obtain ⟨hi, hparams, ⟨hsipi, hap⟩ | ⟨hempty, -⟩⟩ := hphase
    · obtain ⟨rfl, rfl⟩ := hpending hsipi hi
      have hstarts : Boot.accept c (0x4600 ||| 0x08) s =
          { s with icr := none, ap := Function.update s.ap c .loadCr3 } := by
        rw [Boot.accept, hap]
        rfl
      rw [hstarts]
      refine @moveCurrent _ _ h _ .loadCr3 rfl ?_ ?_ (fun _ _ => rfl) ?_
      · rw [hbp]
        rfl
      · rw [hbp]
        exact (h.started c).trans (by rw [hap]; exact Iff.rfl)
      · rw [hbp]
        refine ⟨hi, hparams.frame rfl rfl rfl rfl, .inr ⟨rfl, ?_⟩⟩
        show env.Launched c (Function.update s.ap c .loadCr3 c)
        rw [Function.update_self]
        trivial
    · exact absurd hempty hnone
  · rw [hbp] at hphase
    obtain ⟨hi, hparams, hsipi | hempty, hlaunched⟩ := hphase
    · obtain ⟨rfl, rfl⟩ := hpending hsipi hi
      have hignored : Boot.accept c (0x4600 ||| 0x08) s = { s with icr := none } := by
        have hnot : s.ap c ≠ .waitSipi := by
          intro e
          rw [e] at hlaunched
          exact hlaunched
        rw [Boot.accept, show acceptIpi (0x4600 ||| 0x08) (s.ap c) = s.ap c from if_neg hnot, Function.update_eq_self]
      rw [hignored]
      refine h.advance rfl rfl rfl ?_
      rw [hbp]
      exact ⟨hi, hparams.frame rfl rfl rfl rfl, .inr rfl, hlaunched⟩
    · exact absurd hempty hnone

theorem step (h : SmpBootInv env s) (hright : env.Right) {s' : SmpBoot} (hstep : SmpStep env s s') :
    SmpBootInv env s' := by
  cases hstep with
  | bp => exact h.bp hright
  | ap c h1 hc => exact h.ap hright ⟨h1, hc⟩
  | accept c high low h1 hc hicr hdest => exact h.accept hright ⟨h1, hc⟩ hicr hdest

theorem run (h : SmpBootInv env s) (hright : env.Right) {s' : SmpBoot}
    (hrun : Relation.ReflTransGen (SmpStep env) s s') :
    SmpBootInv env s' := by
  induction hrun with
  | refl => exact h
  | tail _ hstep ih => exact ih.step hright hstep

theorem point (h : SmpBootInv env s) {c : ℕ} (hc : 1 ≤ c ∧ c < env.cpuNumcores) :
    (s.ap c = .halted ∨ s.ap c = .waitSipi) ∨ env.Launched c (s.ap c) := by
  rcases lt_trichotomy c (s.bp.current env) with hlt | rfl | hgt
  · exact .inr (h.earlier c hc.1 hlt).1
  · exact (h.phase.current hc.2).imp id And.left
  · exact .inl (.inl (h.later c hgt hc.2))

/-- Only the current processor is between the two. -/
theorem current_of_busy (h : SmpBootInv env s) {c : ℕ} (hc : 1 ≤ c ∧ c < env.cpuNumcores) (hwoken : s.ap c ≠ .halted)
    (hbusy : ¬(s.ap c).hasStarted) : c = s.bp.current env := by
  rcases lt_trichotomy c (s.bp.current env) with hlt | hcur | hgt
  · exact absurd (h.earlier c hc.1 hlt).2 hbusy
  · exact hcur
  · exact absurd (h.later c hgt hc.2) hwoken

end SmpBootInv

/-- When `hal_start_smp` is called. -/
structure SmpStart (s : SmpBoot) : Prop where
  bp : s.bp = .loop 1
  ap : ∀ c, s.ap c = .halted
  icr : s.icr = none
  started : ∀ c, s.started c = false

theorem SmpStart.inv {env : SmpEnv} {s : SmpBoot} (h : SmpStart s) : SmpBootInv env s where
  earlier c h1 hc := by
    rw [h.bp] at hc
    exact absurd h1 (Nat.not_le.mpr hc)
  later c _ _ := h.ap c
  started c := by
    rw [h.started c, h.ap c]
    exact iff_of_false Bool.false_ne_true id
  phase := by
    rw [h.bp]
    exact ⟨le_refl 1, h.icr, fun _ => h.ap 1⟩

/-- Between the first startup interrupt and `hal_ap_init`. -/
def ApPoint.inTrampoline : ApPoint → Prop
  | .loadCr3 | .loadStack _ | .loadEntry _ _ => True
  | _ => False

theorem ApPoint.inTrampoline.busy {pt : ApPoint} (h : pt.inTrampoline) : pt ≠ .halted ∧ ¬pt.hasStarted := by
  constructor
  · rintro rfl
    exact h
  · intro hstarted
    obtain ⟨cr3, rsp, cpuid, p, rfl⟩ := ApPoint.eq_running hstarted
    exact h

/-- What a processor in `hal_ap_init` has found. -/
def ApPoint.found : ApPoint → Option (ℕ × ℕ)
  | .loadCpuid cr3 rsp | .loadCurrentproc cr3 rsp _ | .storeStarted cr3 rsp _ _ | .running cr3 rsp _ _ =>
      some (cr3, rsp)
  | _ => none

theorem SmpEnv.Launched.found {env : SmpEnv} {c cr3 rsp : ℕ} {pt : ApPoint} (h : env.Launched c pt)
    (hfound : pt.found = some (cr3, rsp)) : cr3 = v2p env.kernelpagetable ∧ rsp = env.entryRsp c := by
  cases pt with
  | loadCpuid cr3' rsp' =>
    obtain ⟨rfl, rfl⟩ := Prod.mk.inj (Option.some.inj hfound)
    exact h
  | loadCurrentproc cr3' rsp' cpuid =>
    obtain ⟨rfl, rfl⟩ := Prod.mk.inj (Option.some.inj hfound)
    exact ⟨h.1, h.2.1⟩
  | storeStarted cr3' rsp' cpuid p =>
    obtain ⟨rfl, rfl⟩ := Prod.mk.inj (Option.some.inj hfound)
    exact ⟨h.1, h.2.1⟩
  | running cr3' rsp' cpuid p =>
    obtain ⟨rfl, rfl⟩ := Prod.mk.inj (Option.some.inj hfound)
    exact ⟨h.1, h.2.1⟩
  | halted => cases hfound
  | waitSipi => cases hfound
  | lost => cases hfound
  | loadCr3 => cases hfound
  | loadStack cr3' => cases hfound
  | loadEntry cr3' rsp' => cases hfound

/-- No processor gets the parameters of another: each one enters `hal_ap_init` with the kernel's tables and at the top
of its own stack, and finds its own `cpu_t` and process there. -/
structure StartedSafely (env : SmpEnv) (s : SmpBoot) : Prop where
  entry : ∀ c, 1 ≤ c → c < env.cpuNumcores → ∀ cr3 rsp, (s.ap c).found = some (cr3, rsp) →
    cr3 = v2p env.kernelpagetable ∧ rsp = env.stackaddr c + pagesize <<< 4 - 8
  own : ∀ c, 1 ≤ c → c < env.cpuNumcores → ∀ cr3 rsp cpuid p, s.ap c = .running cr3 rsp cpuid p →
    cpuid = c ∧ p = env.apstartproc c
  notLost : ∀ c, 1 ≤ c → c < env.cpuNumcores → s.ap c ≠ .lost
  oneInTrampoline : ∀ b c, 1 ≤ b ∧ b < env.cpuNumcores → 1 ≤ c ∧ c < env.cpuNumcores → (s.ap b).inTrampoline →
    (s.ap c).inTrampoline → b = c
  flags : ∀ c, s.started c = true ↔ (s.ap c).hasStarted
  /-- `hal_start_smp` returns only when all are running. -/
  all : s.bp = .done → ∀ c, 1 ≤ c → c < env.cpuNumcores → (s.ap c).hasStarted

theorem SmpBootInv.startedSafely {env : SmpEnv} {s : SmpBoot} (h : SmpBootInv env s) : StartedSafely env s where
  entry c h1 hc cr3 rsp hfound := by
    rcases h.point ⟨h1, hc⟩ with (hidle | hidle) | hlaunched
    · rw [hidle] at hfound
      cases hfound
    · rw [hidle] at hfound
      cases hfound
    · exact hlaunched.found hfound
  own c h1 hc cr3 rsp cpuid p hpt := by
    rcases h.point ⟨h1, hc⟩ with (hidle | hidle) | hlaunched
    · rw [hpt] at hidle
      cases hidle
    · rw [hpt] at hidle
      cases hidle
    · rw [hpt] at hlaunched
      exact hlaunched.2.2
  notLost c h1 hc hlost := by
    rcases h.point ⟨h1, hc⟩ with (hidle | hidle) | hlaunched
    · rw [hlost] at hidle
      cases hidle
    · rw [hlost] at hidle
      cases hidle
    · rw [hlost] at hlaunched
      exact hlaunched
  oneInTrampoline b c hb hc hbin hcin := by
    rw [h.current_of_busy hb hbin.busy.1 hbin.busy.2, h.current_of_busy hc hcin.busy.1 hcin.busy.2]
  flags := h.started
  all hdone c h1 hc := by
    refine (h.earlier c h1 ?_).2
    rw [hdone]
    exact hc

/-! ## After the MADT has been read -/

section Madt
variable {H : Type} {t : Memory} {bp : Byte} {kmalloc : H → Option H} {regs : Registers} {heap : H} {fuel : ℕ}

/-- What `hal_start_smp` finds when `hal_parse_APIC_from_madt` has left `m`; the kernel's page table is in frame
`table`. -/
def SmpEnv.ofMadt (m : MadtState H) (table halApInit : ℕ) (stackaddr apstartproc : ℕ → ℕ) : SmpEnv where
  cpuNumcores := m.cpuNumcores
  xapicLogicalid i := (m.cpu i).xapicLogicalid.toNat
  cpuidOf id := (m.apicIdCpumap (BitVec.ofNat 8 id)).map fun slot => (m.cpu slot).cpuid
  kernelpagetable := p2v table
  halApInit
  stackaddr
  apstartproc

theorem SmpEnv.ofMadt_right {m : MadtState H}
    (hparse : halParseApicFromMadt t kmalloc bp fuel (bootState bp regs heap) = .ok () m)
    (hdistinct : DistinctApicids t bp) {table : ℕ} (htable : table < 2 ^ 32) (halApInit : ℕ) {stackaddr : ℕ → ℕ}
    (hstack : ∀ i, stackaddr i + pagesize <<< 4 < wordSize) (apstartproc : ℕ → ℕ) :
    (SmpEnv.ofMadt m table halApInit stackaddr apstartproc).Right where
  cpuid i h1 hi := by
    obtain ⟨hmap, hcpuid⟩ := cpumap_own hparse hdistinct h1 hi
    show (m.apicIdCpumap (BitVec.ofNat 8 (m.cpu i).xapicLogicalid.toNat)).map _ = some i
    rw [BitVec.ofNat_toNat, BitVec.setWidth_eq, hmap, Option.map_some, hcpuid]
  table := ⟨table, htable, rfl⟩
  stack := hstack

/-- **Starting the other processors is safe**, whatever the interleaving, where the MADT names no processor twice and
the page table is one that a processor can load in 32-bit mode. -/
theorem hal_start_smp_safe {m : MadtState H}
    (hparse : halParseApicFromMadt t kmalloc bp fuel (bootState bp regs heap) = .ok () m)
    (hdistinct : DistinctApicids t bp) {table : ℕ} (htable : table < 2 ^ 32) {halApInit : ℕ}
    {stackaddr apstartproc : ℕ → ℕ} (hstack : ∀ i, stackaddr i + pagesize <<< 4 < wordSize) {s u : SmpBoot}
    (hstart : SmpStart s) (hrun : Relation.ReflTransGen
      (SmpStep (SmpEnv.ofMadt m table halApInit stackaddr apstartproc)) s u) :
    StartedSafely (SmpEnv.ofMadt m table halApInit stackaddr apstartproc) u :=
  (hstart.inv.run (SmpEnv.ofMadt_right hparse hdistinct htable halApInit hstack apstartproc) hrun).startedSafely

end Madt

/-! ## A run -/

/-- Who takes the next step. -/
inductive SmpTurn where
  | bp
  | ap (c : ℕ)
  /-- Processor `c` accepts the interrupt that is pending, if it is for it. -/
  | accepts (c : ℕ)

def SmpTurn.exec (env : SmpEnv) (s : SmpBoot) : SmpTurn → SmpBoot
  | .bp => bpExec env s
  | .ap c => if 1 ≤ c ∧ c < env.cpuNumcores then apExec env c s else s
  | .accepts c =>
    match s.icr with
    | some (high, low) =>
      if (1 ≤ c ∧ c < env.cpuNumcores) ∧ high >>> 24 = env.xapicLogicalid c then accept c low s else s
    | none => s

theorem SmpTurn.exec_run (env : SmpEnv) (s : SmpBoot) (turn : SmpTurn) :
    Relation.ReflTransGen (SmpStep env) s (turn.exec env s) := by
  cases turn with
  | bp => exact .single .bp
  | ap c =>
    simp only [SmpTurn.exec]
    split
    · next hc => exact .single (.ap c hc.1 hc.2)
    · exact .refl
  | accepts c =>
    simp only [SmpTurn.exec]
    split
    · next high low hicr =>
      split
      · next hc => exact .single (.accept c high low hc.1.1 hc.1.2 hicr hc.2)
      · exact .refl
    · exact .refl

theorem SmpTurn.exec_turns (env : SmpEnv) (turns : List SmpTurn) (s : SmpBoot) :
    Relation.ReflTransGen (SmpStep env) s (turns.foldl (SmpTurn.exec env) s) := by
  induction turns generalizing s with
  | nil => exact .refl
  | cons turn turns ih => exact (turn.exec_run env s).trans (ih _)

/-- A MADT with the local APICs 0 and 5. -/
def twoCoresTable : Memory := fun i =>
  if i = 4 then 60 else if i = 45 then 8 else if i = 53 then 8 else if i = 55 then 5 else 0

theorem twoCoresTable_distinct : DistinctApicids twoCoresTable 0 := by
  have hreached : ∀ met p, Reached twoCoresTable 0 met p →
      met = [] ∧ p = 44 ∨ met = [44] ∧ p = 52 ∨ met = [44, 52] ∧ p = 60 := by
    intro met p h
    induction h with
    | start => exact .inl ⟨rfl, rfl⟩
    | next _ hin _ ih =>
      rcases ih with ⟨rfl, rfl⟩ | ⟨rfl, rfl⟩ | ⟨rfl, rfl⟩
      · exact .inr (.inl ⟨rfl, rfl⟩)
      · exact .inr (.inr ⟨rfl, rfl⟩)
      · exact absurd hin (by decide)
  intro met p h _
  rcases hreached met p h with ⟨rfl, -⟩ | ⟨rfl, -⟩ | ⟨rfl, -⟩
  · decide
  · decide
  · decide

def twoCoresRun : Outcome (MadtState Unit) Unit :=
  halParseApicFromMadt twoCoresTable some 0 3 (bootState 0 (fun _ _ => 0) ())

/-- What the walk over it leaves. -/
def twoCoresMadt : MadtState Unit :=
  match twoCoresRun with
  | .ok _ m => m
  | _ => bootState 0 (fun _ _ => 0) ()

def twoCores : SmpEnv :=
  .ofMadt twoCoresMadt 0x100000 (p2v 0x200000) (fun _ => p2v 0x400000) fun _ => p2v 0x300000

def twoCoresStart : SmpBoot := ⟨.loop 1, fun _ => .halted, none, 0, 0, 0, fun _ => 0, fun _ => false⟩

/-- The boot processor starts the other one, which accepts three interrupts, the last one in the trampoline. -/
def twoCoresEnd : SmpBoot :=
  ([.bp, .bp, .bp, .bp, .bp, .bp, .accepts 1, .bp, .bp, .accepts 1, .bp, .ap 1, .bp, .accepts 1, .ap 1,
    .bp, .ap 1, .ap 1, .ap 1, .bp, .ap 1, .bp, .bp] : List SmpTurn).foldl (SmpTurn.exec twoCores) twoCoresStart

theorem hal_start_smp_safe_twoCores :
    (twoCoresEnd.started 1 = true ∧ twoCoresEnd.bp = .done) ∧ StartedSafely twoCores twoCoresEnd := by
  have hok : (match twoCoresRun with | .ok _ _ => true | _ => false) = true := by decide +kernel
  have hparse : twoCoresRun = .ok () twoCoresMadt := by
    unfold twoCoresMadt
    generalize twoCoresRun = out at hok ⊢
    cases out with
    | ok _ m => rfl
    | panic _ _ => cases hok
    | stuck => cases hok
  refine ⟨by decide +kernel, hal_start_smp_safe hparse twoCoresTable_distinct (by decide) (fun _ => by decide)
    ⟨rfl, fun _ => rfl, rfl, fun _ => rfl⟩ (SmpTurn.exec_turns twoCores _ _)⟩

end Borgos.Boot
