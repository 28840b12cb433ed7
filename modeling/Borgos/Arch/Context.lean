import Mathlib
import Borgos.Arch.Amd64

/-! # `cpu_context_inc.S`, `isr_inc.S`, `arch_proc.c`: contexts

The code that stores a process's registers on its kernel stack and loads another's, and the two functions that build
the first stack frame of a process by hand. Kernel addresses mean the same in every address space, so one memory holds
all stacks and all `archcpu_context` structures. What `archproc_prepare_startinit` does besides (the pages it
allocates and maps, the image it copies) is left out here.
-/
namespace Borgos.Arch
open Borgos.Foundations WordStack
set_option autoImplicit false

/-! ## The assembly code -/

def taskRspOffset : Word := 0

def taskCr3Offset : Word := 8

def taskRsp0Offset : Word := 16

def cpuSwapcontext : List Instr :=
  [.push .rbp, .push .rbx, .push .r12, .push .r13, .push .r14, .push .r15, .pushfq,
    .storeRsp taskRspOffset .rdi,
    .load taskCr3Offset .rsi .rax, .movCr3 .rax, .loadRsp taskRspOffset .rsi,
    .popfq, .pop .r15, .pop .r14, .pop .r13, .pop .r12, .pop .rbx, .pop .rbp, .ret]

/-- Up to `call scheduler_start_kerneltask`. -/
def cpuKerneltaskTrampoline : List Instr := [.mov .r12 .rdi, .mov .r13 .rsi]

/-- The registers `isr_common` pushes. -/
def isrPushed : List Reg :=
  [.rax, .rbx, .rcx, .rdx, .rdi, .rsi, .rbp, .r8, .r9, .r10, .r11, .r12, .r13, .r14, .r15]

/-- Up to `call isr_generic`. -/
def isrCommon : List Instr := isrPushed.map .push ++ [.movRsp .rdi]

/-- The registers `isr_exit` pops. -/
def isrPopped : List Reg :=
  [.r15, .r14, .r13, .r12, .r11, .r10, .r9, .r8, .rbp, .rsi, .rdi, .rdx, .rcx, .rbx, .rax]

def isrExit : List Instr := isrPopped.map .pop ++ [.addRsp 16, .iretq]

/-! ## Processes -/

def v2pWord (v : Word) : Word := v - 0xFFFF800000000000

def gdt64UserDs : Word := 0x18

def gdt64UserCs : Word := 0x20

/-- The fields of `proc_t` the two prepare functions read. -/
structure ProcStacks where
  kstackaddr : Word
  kstacksize : Word
  pgdir : Word
  upgdir : Word
  ustackaddr : Word
  ustackaddrvirt : Word
  ustacksize : Word

/-- The addresses of the two trampolines. -/
structure Trampolines where
  cpuKerneltaskTrampoline : Word
  cpuUsertaskTrampoline : Word

variable (x : Trampolines)

/-- `archproc_prepare_kernelproc_stack`: the frame, from the top. -/
def kernelprocFrame (entry arg : Word) : List Word :=
  [x.cpuKerneltaskTrampoline, 0, 0, entry, arg, 0, 0, 0x002]

/-- `archproc_prepare_startinit`: the frame for `iretq`, the one for `isr_exit`, the one for `cpu_swapcontext`. -/
def startinitFrame (s : ProcStacks) : List Word :=
  [gdt64UserDs ||| 0x03, s.ustackaddr + s.ustacksize, 0x202, gdt64UserCs ||| 0x03, 0x400000] ++
    List.replicate 17 0 ++ [x.cpuUsertaskTrampoline, 0, 0, 0, 0, 0, 0, 0x002]

/-- `archcpu_context` of the process. -/
def setContext (mem : WordMemory) (context sp cr3 rsp0 : Word) : WordMemory :=
  Function.update (Function.update (Function.update mem (context + taskRsp0Offset) rsp0)
    (context + taskCr3Offset) cr3) (context + taskRspOffset) sp

/-- Memory after `proc_alloc`, which clears the structure, and `archproc_prepare_kernelproc_stack`. -/
def archprocPrepareKernelprocStack (mem : WordMemory) (context : Word) (s : ProcStacks) (entry arg : Word) :
    WordMemory :=
  let top := s.kstackaddr + s.kstacksize - 64
  setContext (pushAll mem top (kernelprocFrame x entry arg)) context
    (down top (kernelprocFrame x entry arg).length) (v2pWord s.pgdir) 0

/-- Memory after `archproc_prepare_startinit`, with the stack it allocates for `rsp0` at `rsp0stackaddr`. -/
def archprocPrepareStartinit (mem : WordMemory) (context : Word) (s : ProcStacks) (rsp0stackaddr : Word) :
    WordMemory :=
  let top := s.ustackaddrvirt + s.ustacksize - 64
  setContext (pushAll mem top (startinitFrame x s)) context (down top (startinitFrame x s).length) (v2pWord s.upgdir)
    (rsp0stackaddr + 0x4000)

/-! ## Runs -/

variable {P : Type}

/-- Where each process has its `archcpu_context` and its kernel stacks. -/
structure Tasks (P : Type) where
  context : P → Word
  stack : P → Set Word

structure Tasks.Separate (t : Tasks P) : Prop where
  disjoint : ∀ p q, p ≠ q → Disjoint (t.stack p) (t.stack q)
  outside : ∀ p q, ∀ o ∈ [taskRspOffset, taskCr3Offset, taskRsp0Offset], t.context p + o ∉ t.stack q
  apart : ∀ p q, p ≠ q → ∀ o ∈ [taskRspOffset, taskCr3Offset, taskRsp0Offset],
    ∀ o' ∈ [taskRspOffset, taskCr3Offset, taskRsp0Offset], t.context p + o ≠ t.context q + o'

/-- One CPU, its `tss.rsp0`, the process that runs and those that have been prepared. -/
structure Machine (P : Type) where
  cpu : Cpu
  tssRsp0 : Word
  current : P
  created : Set P

/-- `call cpu_swapcontext` with the addresses of two contexts, and its code up to `ret`. -/
def callSwapcontext (prev new ret : Word) (c : Cpu) : Cpu :=
  run cpuSwapcontext (((c.setReg .rdi prev).setReg .rsi new).pushWord ret)

/-- `scheduler_switch_process`, with the address its call of `cpu_swapcontext` returns to. -/
def Machine.schedulerSwitchProcess (t : Tasks P) (a : Machine P) (q : P) (ret : Word) : Machine P :=
  { a with
    tssRsp0 := a.cpu.mem (t.context q + taskRsp0Offset)
    cpu := callSwapcontext (t.context a.current) (t.context q) ret a.cpu
    current := q }

/-- The running process switches to `q`. The words its call pushes are on its own stack. -/
structure Switches (t : Tasks P) (a : Machine P) (q : P) : Prop where
  current : a.current ∈ a.created
  target : q ∈ a.created
  other : q ≠ a.current
  room : ∀ i < 8, down a.cpu.rsp (i + 1) ∈ t.stack a.current

/-- The words of a frame below `top` are on the stack of `p`. -/
def FrameInside (t : Tasks P) (p : P) (top : Word) (n : ℕ) : Prop := ∀ i < n, down top (i + 1) ∈ t.stack p

inductive CtxStep (t : Tasks P) (a : Machine P) : Machine P → Prop
  /-- The running process changes its registers and its stack. -/
  | own (c : Cpu) (hcr3 : c.cr3 = a.cpu.cr3) (hmem : ∀ w ∉ t.stack a.current, c.mem w = a.cpu.mem w) :
      CtxStep t a { a with cpu := c }
  | switch (q : P) (ret : Word) (h : Switches t a q) : CtxStep t a (a.schedulerSwitchProcess t q ret)
  | kernelproc (p : P) (s : ProcStacks) (entry arg : Word) (hp : p ∉ a.created)
      (hin : FrameInside t p (s.kstackaddr + s.kstacksize - 64) (kernelprocFrame x entry arg).length) :
      CtxStep t a { a with
        cpu := { a.cpu with mem := archprocPrepareKernelprocStack x a.cpu.mem (t.context p) s entry arg }
        created := insert p a.created }
  | startinit (p : P) (s : ProcStacks) (rsp0stackaddr : Word) (hp : p ∉ a.created)
      (hin : FrameInside t p (s.ustackaddrvirt + s.ustacksize - 64) (startinitFrame x s).length) :
      CtxStep t a { a with
        cpu := { a.cpu with mem := archprocPrepareStartinit x a.cpu.mem (t.context p) s rsp0stackaddr }
        created := insert p a.created }

/-- A run during which `p` does not get the CPU. -/
def AwayRun (t : Tasks P) (p : P) : Machine P → Machine P → Prop :=
  Relation.ReflTransGen fun a b => CtxStep x t a b ∧ b.current ≠ p

end Borgos.Arch
