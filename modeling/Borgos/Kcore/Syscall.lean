import Borgos.Arch.Isr

/-! # `syscall.c`: system calls

A user process enters through vector `0x81`. `syscall_enter` takes the number from the saved `rax`, looks the handler up
and calls it, and `isr_exit` goes back to the process.
-/
namespace Borgos.Kcore
open Borgos.Foundations WordStack Borgos.Arch
set_option autoImplicit false

def borgVector : ℕ := 0x81

def maxsyscall : ℤ := 21

/-- A system call: what it returns and memory after it. It may write anywhere but in its trapframe. -/
structure SyscallFn where
  ret : Word → WordMemory → Word
  mem : Word → WordMemory → WordMemory
  frame : ∀ tf m, ∀ i < 22, mem tf m (up tf i) = m (up tf i)

/-- The only entry that is not null is `SYS_write`. Its handler is declared but not part of the sources. -/
def syscalls (sysWrite : SyscallFn) : List (Option SyscallFn) :=
  List.replicate 16 none ++ [some sysWrite] ++ List.replicate 5 none

/-- `return tf->rax` as an `int`. -/
def cpuSyscallNum (tf : Word) (m : WordMemory) : ℤ := ((m (up tf 14)).setWidth 32).toInt

inductive SyscallEvent where
  | index (i : ℤ)
  | call (n : ℕ) (tf : Word)
deriving DecidableEq

/-- The accesses to the table, the handlers called, and memory on return; `none` stands for a panic. -/
def syscallEnter (sysWrite : SyscallFn) (tf : Word) (m : WordMemory) : List SyscallEvent × Option WordMemory :=
  let num := cpuSyscallNum tf m
  -- The first access is the argument of a log message, before the range check.
  if 0 < num ∧ num ≤ maxsyscall then
    match (syscalls sysWrite)[num.toNat]? with
    -- `ret` is logged and not stored in `tf->rax`.
    | some (some fn) => ([.index num, .index num, .index num, .call num.toNat tf], some (fn.mem tf m))
    | _ => ([.index num, .index num], none)
  else ([.index num], none)

/-- `isr_generic` on `borgVector`. -/
def isrBorgSyscall (sysWrite : SyscallFn) (tf : Word) (m : WordMemory) : List SyscallEvent × Option WordMemory :=
  if tframeAligned tf then syscallEnter sysWrite tf m else ([], none)

example : isrBranch borgVector = .borgSyscall := by decide

/-! ## The contract -/

section Contract
variable (sysWrite : SyscallFn) (rsp0 : Word) (c : Cpu)

/-- The CPU when `isr_generic` is called. -/
def syscallEntry : Cpu := isrEnter rsp0 borgVector c

def syscallRun : List SyscallEvent × Option WordMemory :=
  isrBorgSyscall sysWrite (syscallEntry rsp0 c).rsp (syscallEntry rsp0 c).mem

/-- A call number in the sense of the whole register. -/
def ValidNumber (rax : Word) (n : ℕ) : Prop :=
  rax.toNat = n ∧ 0 < n ∧ (n : ℤ) ≤ maxsyscall ∧ ∃ fn, (syscalls sysWrite)[n]? = some (some fn)

/-- The user's registers after the call of `n`. -/
structure Returned (n : ℕ) (u : Cpu) : Prop where
  rax : ∀ fn, (syscalls sysWrite)[n]? = some (some fn) →
    u.gpr .rax = fn.ret (syscallEntry rsp0 c).rsp (syscallEntry rsp0 c).mem
  gpr : ∀ r, r ≠ .rax → u.gpr r = c.gpr r
  rip : u.rip = c.rip
  rsp : u.rsp = c.rsp
  rflags : u.rflags = c.rflags
  cs : u.cs = c.cs
  ss : u.ss = c.ss

structure SyscallContract : Prop where
  indexed : ∀ i : ℤ, .index i ∈ (syscallRun sysWrite rsp0 c).1 → 0 ≤ i ∧ i < (syscalls sysWrite).length
  called : ∀ n tf, .call n tf ∈ (syscallRun sysWrite rsp0 c).1 →
    ValidNumber sysWrite (c.gpr .rax) n ∧ tf = (syscallEntry rsp0 c).rsp ∧
      (syscallRun sysWrite rsp0 c).1.count (.call n tf) = 1
  returned : ∀ n tf m d, .call n tf ∈ (syscallRun sysWrite rsp0 c).1 → (syscallRun sysWrite rsp0 c).2 = some m →
    ReturnedFromCall { syscallEntry rsp0 c with mem := m } d 22 → Returned sysWrite rsp0 c n (run isrExit d)

/-- The call number as `syscall_enter` sees it. -/
def callNumber : ℤ := ((c.gpr .rax).setWidth 32).toInt

variable {c}

theorem cpuSyscallNum_entry : cpuSyscallNum (syscallEntry rsp0 c).rsp (syscallEntry rsp0 c).mem = callNumber c := by
  have hwords := isrEnter_words (i := borgVector) (by decide) rsp0 c
  have hrax : some ((syscallEntry rsp0 c).mem (up (syscallEntry rsp0 c).rsp 14)) = some (c.gpr .rax) := by
    rw [← getElem?_wordsAt (n := 22) (by norm_num), syscallEntry, hwords]
    rfl
  rw [cpuSyscallNum, Option.some.inj hrax, callNumber]

theorem syscallRun_eq : syscallRun sysWrite rsp0 c =
    syscallEnter sysWrite (syscallEntry rsp0 c).rsp (syscallEntry rsp0 c).mem := by
  have haligned : tframeAligned (syscallEntry rsp0 c).rsp = true := by
    rw [syscallEntry, isrEnter_rsp (by decide)]
    exact tframeAligned_down rsp0
  rw [syscallRun, isrBorgSyscall, if_pos haligned]

/-- Every number but 16 ends in a panic. -/
theorem syscallRun_other (h : callNumber c ≠ 16) :
    (∀ e ∈ (syscallRun sysWrite rsp0 c).1, e = .index (callNumber c)) ∧ (syscallRun sysWrite rsp0 c).2 = none := by
  have hnone : ∀ i : ℤ, 0 < i → i ≤ 21 → i ≠ 16 → (syscalls sysWrite)[i.toNat]? = some none := by
    intro i h0 h21 h16
    interval_cases i <;> first | rfl | exact absurd rfl h16
  rw [syscallRun_eq, syscallEnter, cpuSyscallNum_entry]
  by_cases hrange : 0 < callNumber c ∧ callNumber c ≤ maxsyscall
  · rw [if_pos hrange, hnone _ hrange.1 hrange.2 h]
    simp
  · rw [if_neg hrange]
    simp

theorem syscallRun_write (h : callNumber c = 16) : syscallRun sysWrite rsp0 c =
    ([.index 16, .index 16, .index 16, .call 16 (syscallEntry rsp0 c).rsp],
      some (sysWrite.mem (syscallEntry rsp0 c).rsp (syscallEntry rsp0 c).mem)) := by
  rw [syscallRun_eq, syscallEnter, cpuSyscallNum_entry, h]
  rfl

theorem index_mem : .index (callNumber c) ∈ (syscallRun sysWrite rsp0 c).1 := by
  rw [syscallRun_eq, syscallEnter, cpuSyscallNum_entry]
  split
  · split <;> simp
  · simp

/-- A handler leaves the trapframe alone, and so all registers come back, `rax` included. -/
theorem isrExit_syscall {d : Cpu} {m : WordMemory}
    (hm : ∀ i < 22, m (up (syscallEntry rsp0 c).rsp i) = (syscallEntry rsp0 c).mem (up (syscallEntry rsp0 c).rsp i))
    (hd : ReturnedFromCall { syscallEntry rsp0 c with mem := m } d 22) :
    run isrExit d = { c with cr3 := d.cr3, mem := d.mem } := by
  apply isrExit_trapframe (i := borgVector)
  rw [← isrEnter_words (i := borgVector) (by decide) rsp0 c, hd.rsp]
  apply wordsAt_congr
  intro i hi
  exact (hd.frame i hi).trans (hm i hi)

/-- The contract holds for the numbers inside the table. For the one that is implemented, the upper half of `rax` has to
be zero and the value the handler returns has to be the one that is in `rax` anyway. -/
theorem syscallContract_iff : SyscallContract sysWrite rsp0 c ↔
    0 ≤ callNumber c ∧ callNumber c ≤ maxsyscall ∧
      (callNumber c = 16 →
        c.gpr .rax = 16 ∧ sysWrite.ret (syscallEntry rsp0 c).rsp (syscallEntry rsp0 c).mem = 16) := by
  constructor
  · intro h
    obtain ⟨hnonneg, hlt⟩ := h.indexed _ (index_mem sysWrite rsp0)
    refine ⟨hnonneg, Int.lt_add_one_iff.mp hlt, fun h16 => ?_⟩
    have hrun := syscallRun_write sysWrite rsp0 h16
    have hcall : .call 16 (syscallEntry rsp0 c).rsp ∈ (syscallRun sysWrite rsp0 c).1 := by
      rw [hrun]
      simp
    have hrax : c.gpr .rax = 16 := by
      apply BitVec.eq_of_toNat_eq
      exact (h.called _ _ hcall).1.1
    have hback : ReturnedFromCall
        { syscallEntry rsp0 c with mem := sysWrite.mem (syscallEntry rsp0 c).rsp (syscallEntry rsp0 c).mem }
        { syscallEntry rsp0 c with mem := sysWrite.mem (syscallEntry rsp0 c).rsp (syscallEntry rsp0 c).mem } 22 :=
      ⟨rfl, fun _ _ => rfl⟩
    have hret := (h.returned _ _ _ _ hcall (by rw [hrun]) hback).rax sysWrite rfl
    rw [isrExit_syscall rsp0 (sysWrite.frame _ _) hback] at hret
    exact ⟨hrax, hret.symm.trans hrax⟩
  · rintro ⟨hnonneg, hle, hwrite⟩
    by_cases h16 : callNumber c = 16
    · obtain ⟨hrax, hret⟩ := hwrite h16
      have hrun := syscallRun_write sysWrite rsp0 h16
      constructor
      · intro i hi
        rw [hrun] at hi
        obtain rfl : i = 16 := by simpa using hi
        exact ⟨by norm_num, by simp [syscalls]⟩
      · intro n tf hcall
        rw [hrun] at hcall ⊢
        obtain ⟨rfl, rfl⟩ : n = 16 ∧ tf = (syscallEntry rsp0 c).rsp := by simpa using hcall
        refine ⟨⟨by rw [hrax]; rfl, by norm_num, by decide, sysWrite, rfl⟩, rfl, ?_⟩
        simp
      · intro n tf m d hcall hm hd
        rw [hrun] at hcall hm
        obtain ⟨rfl, rfl⟩ : n = 16 ∧ tf = (syscallEntry rsp0 c).rsp := by simpa using hcall
        obtain rfl := Option.some.inj hm
        rw [isrExit_syscall rsp0 (sysWrite.frame _ _) hd]
        refine ⟨?_, fun _ _ => rfl, rfl, rfl, rfl, rfl, rfl⟩
        intro fn hfn
        obtain rfl : sysWrite = fn := Option.some.inj (Option.some.inj hfn)
        exact hrax.trans hret.symm
    · obtain ⟨hindex, -⟩ := syscallRun_other sysWrite rsp0 h16
      constructor
      · intro i hi
        obtain rfl : i = callNumber c := SyscallEvent.index.inj (hindex _ hi)
        exact ⟨hnonneg, Int.lt_add_one_iff.mpr hle⟩
      · intro n tf hcall
        exact absurd (hindex _ hcall) (by simp)
      · intro n tf m d hcall
        exact absurd (hindex _ hcall) (by simp)

end Contract

/-- A handler that returns a constant. -/
def constantCall (w : Word) : SyscallFn := ⟨fun _ _ => w, fun _ m => m, fun _ _ _ _ => rfl⟩

/-- Number 1000 is looked up in the table of 22 entries. -/
theorem syscall_number_beyond_table :
    ¬SyscallContract (constantCall 0) 0x8000
      ⟨fun _ => 1000, 0x7fffffc000, 0x400000, 0x202, 0, 0x23, 0x1b, fun _ => 0⟩ := by
  intro h
  have hindex := h.indexed 1000 (index_mem (constantCall 0) 0x8000)
  exact absurd hindex.2 (by decide)

end Borgos.Kcore
