import Borgos.Foundations.Outcome
import Borgos.Kcore.List

/-! # `scheduler.c`, `irq.c`: one CPU, timer driven round robin

The state of one CPU with SMP off: the queues, the descriptors of the processes, the current and the
idle process, the interrupt flag. A process is its address. Without SMP a spinlock is `irq_save` and
`irq_restore`, which count nesting in the descriptor of the current process. Log output, `rsp0`, CR3
and the saved registers are left out; what is left of `cpu_swapcontext` is that the code after it runs
as the process switched to.
-/
namespace Borgos.Kcore
open Borgos.Foundations
set_option autoImplicit false

/-- `enum procstate`. -/
inductive ProcState where
  | UNUSED
  | EMBRYO
  | SLEEPING
  | RUNNABLE
  | RUNNING
  | ZOMBIE
  | KERNELIDLEPROC
deriving DecidableEq, Repr

/-- The fields of `proc_t` the scheduler reads or writes, `plist` apart. -/
structure Proc where
  state : ProcState
  sliceTicks : ℕ
  ncli : ℤ
  intenable : Bool
deriving DecidableEq, Repr

inductive QNode (P : Type) where
  | runnablelist
  | runninglist
  | plist (p : P)
deriving DecidableEq, Repr

structure Sched (P : Type) where
  links : Links (QNode P)
  proc : P → Proc
  currentproc : P
  idleproc : Option P
  ticks : ℕ
  schedulercounter : ℤ
  /-- The interrupt flag. -/
  irqOn : Bool
  /-- How often `cpu_swapcontext` has been called. -/
  switches : ℕ

variable {P : Type} [DecidableEq P]

namespace Sched

def setProc (s : Sched P) (p : P) (f : Proc → Proc) : Sched P :=
  { s with proc := Function.update s.proc p (f (s.proc p)) }

def setState (s : Sched P) (p : P) (state : ProcState) : Sched P := s.setProc p fun x => { x with state }

def listDelProc (s : Sched P) (p : P) : Sched P := { s with links := listDel s.links (.plist p) }

def listAddTailProc (s : Sched P) (p : P) (list : QNode P) : Sched P :=
  { s with links := listAddTail s.links (.plist p) list }

end Sched

/-! ## Interrupt nesting -/

/-- `irq_save`. -/
def irqSave : Prog (Sched P) Unit := do
  let s ← Prog.get
  let irqOn := s.irqOn
  Prog.modify fun s => { s with irqOn := false }
  let s ← Prog.get
  if s.irqOn then Prog.panic "pushcli - didnt stick"
  else do
    if (s.proc s.currentproc).ncli = 0 then
      Prog.modify fun s => s.setProc s.currentproc fun x => { x with intenable := irqOn }
    else pure ()
    Prog.modify fun s => s.setProc s.currentproc fun x => { x with ncli := x.ncli + 1 }
    let s ← Prog.get
    if s.irqOn then Prog.panic "pushcli - changed" else pure ()

/-- `irq_restore`. -/
def irqRestore : Prog (Sched P) Unit := do
  let s ← Prog.get
  if s.irqOn then Prog.panic "popcli - interruptible"
  else do
    Prog.modify fun s => s.setProc s.currentproc fun x => { x with ncli := x.ncli - 1 }
    let s ← Prog.get
    if (s.proc s.currentproc).ncli < 0 then Prog.panic "popcli called 1 more time then pushcli?"
    else if (s.proc s.currentproc).ncli = 0 ∧ (s.proc s.currentproc).intenable then
      Prog.modify fun s => { s with irqOn := true }
    else pure ()

/-- `spinlock`, without SMP. -/
def spinlock : Prog (Sched P) Unit := irqSave

/-- `spinunlock`, without SMP. -/
def spinunlock : Prog (Sched P) Unit := irqRestore

/-! ## The queues -/

/-- `scheduler_init`. `sleepinglist`, which nothing else uses, is left out. -/
def schedulerInit : Prog (Sched P) Unit := do
  Prog.modify fun s => { s with links := initListHead s.links .runnablelist }
  Prog.modify fun s => { s with links := initListHead s.links .runninglist }

/-- `__scheduler_enqueue`. -/
def schedulerEnqueueUnlocked (p : P) : Prog (Sched P) Unit := do
  Prog.modify fun s => s.setState p .RUNNABLE
  Prog.modify fun s => s.listDelProc p
  Prog.modify fun s => s.listAddTailProc p .runnablelist

/-- `scheduler_enqueue`. -/
def schedulerEnqueue (p : P) : Prog (Sched P) Unit := do
  spinlock
  schedulerEnqueueUnlocked p
  spinunlock

/-- `scheduler_dequeue`. -/
def schedulerDequeue : Prog (Sched P) (Option P) := do
  spinlock
  let s ← Prog.get
  if listEmpty s.links .runnablelist then do
    spinunlock
    pure none
  else
    match (s.links .runnablelist).next with
    | some (.plist p) => do
      Prog.modify fun s => s.listDelProc p
      spinunlock
      pure (some p)
    | _ => Prog.stuck

/-- `scheduler_markkernelidle`. -/
def schedulerMarkkernelidle (p : P) : Prog (Sched P) Unit := do
  spinlock
  Prog.modify fun s => s.setState p .KERNELIDLEPROC
  Prog.modify fun s => s.listDelProc p
  spinunlock

/-- `scheduler_markrunning`. -/
def schedulerMarkrunning (p : P) : Prog (Sched P) Unit := do
  spinlock
  Prog.modify fun s => s.setState p .RUNNING
  Prog.modify fun s => s.listDelProc p
  Prog.modify fun s => s.listAddTailProc p .runninglist
  spinunlock

/-! ## `scheduler_schedule` and the timer -/

/-- `scheduler_switch_process`. -/
def schedulerSwitchProcess (newproc : P) : Prog (Sched P) Unit := do
  Prog.modify fun s => s.setProc newproc fun x => { x with sliceTicks := 2 }
  Prog.modify fun s => { s with switches := s.switches + 1 }

/-- `finish_switch`, and the last two lines of `scheduler_schedule`. -/
def finishSwitch : Prog (Sched P) Unit := do
  Prog.modify fun s => { s with schedulercounter := s.schedulercounter - 1 }
  spinunlock

/-- The old process goes back to the queue, unless it is the idle process or no longer running. -/
def schedulerRetire (currentProc : P) : Prog (Sched P) Unit := do
  let s ← Prog.get
  if s.idleproc = some currentProc then schedulerMarkkernelidle currentProc
  else if (s.proc currentProc).state = .RUNNING then schedulerEnqueue currentProc
  else pure ()

/-- The part of `scheduler_schedule` that moves `current_proc` off the CPU and `p` onto it. What comes
after the switch is executed by `p`: in `finish_switch` when it runs for the first time, else at the
end of the call of `scheduler_schedule` in which it was switched away from. Both are the same lines. -/
def schedulerSwitchTo (currentProc p : P) : Prog (Sched P) Unit := do
  schedulerRetire currentProc
  schedulerMarkrunning p
  Prog.modify fun s => { s with currentproc := p }
  schedulerSwitchProcess p
  finishSwitch

/-- `scheduler_schedule`. -/
def schedulerSchedule : Prog (Sched P) Unit := do
  spinlock
  Prog.modify fun s => { s with schedulercounter := s.schedulercounter + 1 }
  let s ← Prog.get
  if s.schedulercounter ≠ 1 then
    Prog.panic "Schedulercounter>1 Should never happpen?? Is spinlock broken?\n"
  else do
    let currentProc := s.currentproc
    if (s.proc currentProc).sliceTicks = 0 then do
      let dequeued ← schedulerDequeue
      match dequeued with
      | some p => schedulerSwitchTo currentProc p
      | none => do
        let s ← Prog.get
        if (s.proc currentProc).state = .RUNNING then finishSwitch
        else
          match s.idleproc with
          | some p => schedulerSwitchTo currentProc p
          | none => Prog.panic "Nothing to switch to!\n"
    else finishSwitch

/-- `irq_cpu_localtimer_tick_cb`. -/
def irqCpuLocaltimerTickCb : Prog (Sched P) Unit := do
  Prog.modify fun s => { s with ticks := (s.ticks + 1) % 2 ^ 64 }
  let s ← Prog.get
  let p := s.currentproc
  if (s.proc p).sliceTicks > 0 then
    Prog.modify fun s => s.setProc p fun x => { x with sliceTicks := x.sliceTicks - 1 }
  else pure ()
  let s ← Prog.get
  if (s.proc p).ncli = 0 then schedulerSchedule else pure ()

/-- The timer interrupt: the gate clears the interrupt flag, and the process that runs when the handler
is done returns with the flag set, through the frame it was interrupted in or the one it was prepared
with. -/
def timerInterrupt : Prog (Sched P) Unit := do
  Prog.modify fun s => { s with irqOn := false }
  irqCpuLocaltimerTickCb
  Prog.modify fun s => { s with irqOn := true }

/-! ## Processes -/

/-- What `proc_alloc` and `archproc_prepare_kernelproc_stack` (or `archproc_prepare_startinit`) leave
in a descriptor. -/
def preparedProc : Proc := ⟨.EMBRYO, 0x0FFFFFFFFFFFFFFF, 1, true⟩

/-- A descriptor for a new process. -/
def procCreate (p : P) (s : Sched P) : Sched P :=
  { s with proc := Function.update s.proc p preparedProc, links := initListHead s.links (.plist p) }

end Borgos.Kcore
