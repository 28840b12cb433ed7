import Borgos.Foundations.WordStack

/-! # The instructions of the kernel's assembly files

A CPU in 64-bit mode with the registers the context switch and the interrupt stubs touch. Straight-line code is a list
of instructions. `rip` has a meaning only where control is transferred: `ret` and `iretq` set it, and the other
instructions leave it alone.
-/
namespace Borgos.Arch
open Borgos.Foundations WordStack
set_option autoImplicit false

inductive Reg where
  | rax | rbx | rcx | rdx | rdi | rsi | rbp
  | r8 | r9 | r10 | r11 | r12 | r13 | r14 | r15
deriving DecidableEq

structure Cpu where
  gpr : Reg → Word
  rsp : Word
  rip : Word
  rflags : Word
  cr3 : Word
  cs : Word
  ss : Word
  mem : WordMemory

inductive Instr where
  | push (src : Reg)
  | pushImm (w : Word)
  | pushfq
  | pop (dst : Reg)
  | popfq
  | mov (src dst : Reg)
  | movRsp (dst : Reg)
  /-- `mov %rsp, offset(%base)`. -/
  | storeRsp (offset : Word) (base : Reg)
  /-- `mov offset(%base), %rsp`. -/
  | loadRsp (offset : Word) (base : Reg)
  | load (offset : Word) (base dst : Reg)
  | movCr3 (src : Reg)
  | addRsp (n : Word)
  | ret
  | iretq

namespace Cpu

def setReg (c : Cpu) (r : Reg) (w : Word) : Cpu := { c with gpr := Function.update c.gpr r w }

def pushWord (c : Cpu) (w : Word) : Cpu :=
  { c with
    rsp := down c.rsp 1
    mem := Function.update c.mem (down c.rsp 1) w }

/-- The word on top of the stack is gone. -/
def popped (c : Cpu) : Cpu := { c with rsp := up c.rsp 1 }

def top (c : Cpu) : Word := c.mem c.rsp

end Cpu

def Instr.exec : Instr → Cpu → Cpu
  | .push src, c => c.pushWord (c.gpr src)
  | .pushImm w, c => c.pushWord w
  | .pushfq, c => c.pushWord c.rflags
  | .pop dst, c => c.popped.setReg dst c.top
  | .popfq, c => { c.popped with rflags := c.top }
  | .mov src dst, c => c.setReg dst (c.gpr src)
  | .movRsp dst, c => c.setReg dst c.rsp
  | .storeRsp offset base, c => { c with mem := Function.update c.mem (c.gpr base + offset) c.rsp }
  | .loadRsp offset base, c => { c with rsp := c.mem (c.gpr base + offset) }
  | .load offset base dst, c => c.setReg dst (c.mem (c.gpr base + offset))
  | .movCr3 src, c => { c with cr3 := c.gpr src }
  | .addRsp n, c => { c with rsp := c.rsp + n }
  | .ret, c => { c.popped with rip := c.top }
  | .iretq, c =>
    { c with
      rip := c.mem c.rsp
      cs := c.mem (up c.rsp 1)
      rflags := c.mem (up c.rsp 2)
      rsp := c.mem (up c.rsp 3)
      ss := c.mem (up c.rsp 4) }

def run (code : List Instr) (c : Cpu) : Cpu := code.foldl (fun c i => i.exec c) c

@[simp] theorem run_nil (c : Cpu) : run [] c = c := rfl

@[simp] theorem run_cons (i : Instr) (code : List Instr) (c : Cpu) : run (i :: code) c = run code (i.exec c) := rfl

theorem run_append (code code' : List Instr) (c : Cpu) : run (code ++ code') c = run code' (run code c) :=
  List.foldl_append

/-! ## Runs of pops -/

/-- What a run of pops leaves alone. -/
theorem run_pop_frame (rs : List Reg) (c : Cpu) : run (rs.map .pop) c =
    { c with
      rsp := up c.rsp rs.length
      gpr := (run (rs.map .pop) c).gpr } := by
  induction rs generalizing c with
  | nil => simp
  | cons r rs ih =>
    rw [List.map_cons, run_cons, ih]
    simp only [Instr.exec, Cpu.setReg, Cpu.popped, List.length_cons, up_up, Nat.add_comm]

theorem run_pop_other {rs : List Reg} {r : Reg} (h : r ∉ rs) (c : Cpu) : (run (rs.map .pop) c).gpr r = c.gpr r := by
  induction rs generalizing c with
  | nil => rfl
  | cons q rs ih =>
    rw [List.map_cons, run_cons, ih (fun hr => h (List.mem_cons_of_mem q hr))]
    have hne : r ≠ q := fun e => h (by rw [e]; exact List.mem_cons_self)
    exact Function.update_of_ne hne ..

/-- The registers hold what was on the stack. -/
theorem run_pop {rs : List Reg} (h : rs.Nodup) (c : Cpu) :
    rs.map (run (rs.map .pop) c).gpr = wordsAt c.mem c.rsp rs.length := by
  induction rs generalizing c with
  | nil => rfl
  | cons r rs ih =>
    obtain ⟨hr, hrs⟩ := List.nodup_cons.mp h
    rw [show (r :: rs).map Instr.pop = .pop r :: rs.map .pop from rfl, run_cons, List.map_cons,
      run_pop_other hr, ih hrs]
    simp [Instr.exec, Cpu.setReg, Cpu.popped, Cpu.top, wordsAt]

end Borgos.Arch
