import Borgos.Arch.ContextLaws

/-! # `isr_inc.S`, `isr.c`: interrupts

The stubs of the vectors, the trapframe they build together with the CPU and `isr_common`, and the branch `isr_generic`
takes. What the exception handlers print before they stop is left out.
-/
namespace Borgos.Arch
open Borgos.Foundations WordStack
set_option autoImplicit false

/-! ## The stubs -/

/-- Exceptions for which the CPU pushes an error code itself. -/
def isrWithErrorcode (i : ℕ) : Bool := i ∈ [8, 10, 11, 12, 13, 14, 17, 21]

/-- `isr_stub_table[i]` is not null, and so `idt_init` sets the IDT entry. -/
def isrStub (i : ℕ) : Bool :=
  isrWithErrorcode i || i ≤ 31 || (32 ≤ i && i ≤ 47) || (64 ≤ i && i ≤ 95) || (128 ≤ i && i ≤ 129)

/-- Up to `jmp isr_common`. -/
def isrStubCode (i : ℕ) : List Instr :=
  if isrWithErrorcode i then [.pushImm (BitVec.ofNat 64 i)] else [.pushImm 0, .pushImm (BitVec.ofNat 64 i)]

/-- The CPU takes an interrupt without an error code in ring 3: it switches to the stack of the TSS, aligns it and
pushes what `iretq` pops. (The selectors it loads are read by nothing below.) -/
def Cpu.interrupted (c : Cpu) (rsp0 : Word) : Cpu :=
  let sp := rsp0 &&& ~~~0xF
  { c with
    rsp := down sp 5
    mem := pushAll c.mem sp [c.ss, c.rsp, c.rflags, c.cs, c.rip] }

/-- From the interrupt to the call of `isr_generic`. -/
def isrEnter (rsp0 : Word) (i : ℕ) (c : Cpu) : Cpu := run (isrStubCode i ++ isrCommon) (c.interrupted rsp0)

/-! ## `isr_generic` -/

def irqStartvector : ℕ := 32

inductive IsrBranch where
  | division | db | nmi | bp | invalidOpcode | df | pagefault | gpf | mc | spurious
  | irq (irq : ℕ)
  | linuxSyscall | borgSyscall | unhandled
deriving DecidableEq

/-- The branch for a vector. -/
def isrBranch (isrno : ℕ) : IsrBranch :=
  if isrno = 0 then .division
  else if isrno = 1 then .db
  else if isrno = 2 then .nmi
  else if isrno = 3 then .bp
  else if isrno = 6 then .invalidOpcode
  else if isrno = 8 then .df
  else if isrno = 14 then .pagefault
  else if isrno = 13 then .gpf
  else if isrno = 18 then .mc
  else if isrno = 0xFF then .spurious
  else if 32 ≤ isrno ∧ isrno ≤ 95 then .irq (isrno - irqStartvector)
  else if isrno = 128 then .linuxSyscall
  else if isrno = 129 then .borgSyscall
  else .unhandled

theorem eq_of_else {c : Prop} [Decidable c] {a b z : IsrBranch} (h : (if c then a else b) = z) (ha : a ≠ z) :
    b = z := by
  by_cases hc : c
  · rw [if_pos hc] at h
    exact absurd h ha
  · rwa [if_neg hc] at h

theorem isrBranch_irq {isrno irq : ℕ} (h : isrBranch isrno = .irq irq) :
    32 ≤ isrno ∧ isrno ≤ 95 ∧ irq = isrno - irqStartvector := by
  unfold isrBranch at h
  iterate 10 replace h := eq_of_else h (by simp)
  by_cases hrange : 32 ≤ isrno ∧ isrno ≤ 95
  · rw [if_pos hrange] at h
    exact ⟨hrange.1, hrange.2, (IsrBranch.irq.inj h).symm⟩
  · rw [if_neg hrange] at h
    iterate 2 replace h := eq_of_else h (by simp)
    exact absurd h (by simp)

/-- `isr_generic` stops unless the trapframe is aligned. -/
def tframeAligned (tframe : Word) : Bool := tframe &&& 0xF == 0

theorem tframeAligned_down (sp : Word) : tframeAligned (down (sp &&& ~~~0xF) 22) = true := by
  have hlow : (down (sp &&& ~~~0xF) 22).setWidth 4 = 0 := by
    rw [down, BitVec.sub_eq_add_neg, BitVec.setWidth_add _ _ (by decide), BitVec.setWidth_and,
      show (~~~0xF : Word).setWidth 4 = 0#4 from rfl, BitVec.and_zero]
    rfl
  apply beq_of_eq
  apply BitVec.eq_of_toNat_eq
  rw [BitVec.toNat_and, show (0xF : Word).toNat = 2 ^ 4 - 1 from rfl, Nat.and_two_pow_sub_one_eq_mod,
    ← BitVec.toNat_setWidth, hlow]
  rfl

/-! ## The trapframe -/

/-- The fields of `trapframe_t`, from its address upwards. -/
def trapframe (c : Cpu) (i : ℕ) : List Word :=
  isrPopped.map c.gpr ++ [BitVec.ofNat 64 i, 0, c.rip, c.cs, c.rflags, c.rsp, c.ss]

theorem isrEnter_rsp {i : ℕ} (hi : isrWithErrorcode i = false) (rsp0 : Word) (c : Cpu) :
    (isrEnter rsp0 i c).rsp = down (rsp0 &&& ~~~0xF) 22 := by
  simp [isrEnter, isrStubCode, hi, isrCommon, Instr.exec, Cpu.pushWord, Cpu.setReg,
    Cpu.interrupted, down_down, isrPushed]

theorem isrEnter_mem {i : ℕ} (hi : isrWithErrorcode i = false) (rsp0 : Word) (c : Cpu) :
    (isrEnter rsp0 i c).mem = pushAll c.mem (rsp0 &&& ~~~0xF) (trapframe c i).reverse := by
  simp [isrEnter, isrStubCode, hi, isrCommon, Instr.exec, Cpu.pushWord, Cpu.setReg,
    Cpu.interrupted, down_down, isrPushed, isrPopped, trapframe, pushAll]

/-- `isr_common` has built the trapframe of the interrupted code. -/
theorem isrEnter_words {i : ℕ} (hi : isrWithErrorcode i = false) (rsp0 : Word) (c : Cpu) :
    wordsAt (isrEnter rsp0 i c).mem (isrEnter rsp0 i c).rsp 22 = trapframe c i := by
  have hlen : (trapframe c i).reverse.length = 22 := rfl
  have hshort : 8 * (trapframe c i).reverse.length < 2 ^ 64 := by
    rw [hlen]
    norm_num
  have hpushed := wordsAt_pushAll c.mem (rsp0 &&& ~~~0xF) hshort
  rw [List.reverse_reverse, hlen] at hpushed
  rw [isrEnter_mem hi, isrEnter_rsp hi, hpushed]

theorem mem_isrPopped (r : Reg) : r ∈ isrPopped := by cases r <;> decide

/-- Handling an interrupt and returning from it changes no register. -/
theorem isrExit_trapframe {c d : Cpu} {i : ℕ} (h : wordsAt d.mem d.rsp 22 = trapframe c i) :
    run isrExit d = { c with cr3 := d.cr3, mem := d.mem } := by
  obtain ⟨hgprs, hrun⟩ := run_isrExit (by rw [List.length_map]) h
  have hgpr : (run isrExit d).gpr = c.gpr := by
    funext r
    exact List.map_inj_left.mp hgprs r (mem_isrPopped r)
  rw [hgpr] at hrun
  exact hrun

end Borgos.Arch
