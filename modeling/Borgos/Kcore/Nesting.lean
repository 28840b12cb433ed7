import Borgos.Kcore.SchedulerLaws

/-! # `irq.c`, `scheduler.c`: the timer interrupt step by step

`Scheduler.lean` runs a tick in one go. Here the process that takes the interrupt stands somewhere in the handler and
executes one step at a time, and the timer may tick again whenever the interrupt flag is set. A process that has been
switched away from stands behind `cpu_swapcontext`, and one that has never run stands in `finish_switch`, as the
frame it was prepared with says.
-/
namespace Borgos.Kcore
open Borgos.Foundations
set_option autoImplicit false

variable {P : Type} [DecidableEq P]

/-! ## The handler -/

/-- The functions that lock `schedulerqueuespin`; `p` is the process to switch to. -/
inductive Section (P : Type) where
  | dequeue
  | markkernelidle (p : P)
  | enqueue (p : P)
  | markrunning (p : P)

/-- Where in the handler a process stands. -/
inductive Stage (P : Type) where
  /-- `irq_cpu_localtimer_tick_cb`. -/
  | tick
  /-- `scheduler_schedule`, before its lock. -/
  | schedule
  /-- Before `schedulercounter++`. -/
  | count
  | lock (f : Section P)
  | body (f : Section P)
  | unlock (f : Section P) (r : Option P)
  /-- `scheduler_dequeue` has returned. -/
  | choose (r : Option P)
  /-- Before the old process is put away. -/
  | select (p : P)
  /-- Before `cpu->currentproc = p`. -/
  | switch (p : P)
  /-- Before `schedulercounter--`, in an interrupted process or in one that starts. -/
  | finish (interrupted : Bool)
  /-- Before `spinunlock(&schedulerspin)`. -/
  | release (interrupted : Bool)
  /-- The return from the interrupt. -/
  | iret

/-- What is done under `schedulerqueuespin`. -/
def Section.run : Section P → Prog (Sched P) (Option P)
  | .dequeue => do
    let s ← Prog.get
    if listEmpty s.links .runnablelist then pure none
    else
      match (s.links .runnablelist).next with
      | some (.plist p) => do
        Prog.modify fun s => s.listDelProc p
        pure (some p)
      | _ => Prog.stuck
  | .markkernelidle p => do
    Prog.modify fun s => (s.setState s.currentproc .KERNELIDLEPROC).listDelProc s.currentproc
    pure (some p)
  | .enqueue p => do
    let s ← Prog.get
    schedulerEnqueueUnlocked s.currentproc
    pure (some p)
  | .markrunning p => do
    Prog.modify fun s => ((s.setState p .RUNNING).listDelProc p).listAddTailProc p .runninglist
    pure (some p)

/-- What comes after the section. -/
def Section.next : Section P → Option P → Stage P
  | .dequeue, r => .choose r
  | .markkernelidle p, _ => .lock (.markrunning p)
  | .enqueue p, _ => .lock (.markrunning p)
  | .markrunning p, _ => .switch p

/-- The beginning of `irq_cpu_localtimer_tick_cb`. -/
def tickCount : Prog (Sched P) Unit := do
  Prog.modify fun s => { s with ticks := (s.ticks + 1) % 2 ^ 64 }
  let s ← Prog.get
  if (s.proc s.currentproc).sliceTicks > 0 then
    Prog.modify fun s => s.setProc s.currentproc fun x => { x with sliceTicks := x.sliceTicks - 1 }
  else pure ()

/-- One step of the handler and the stage after it, if it goes on. -/
def Stage.exec : Stage P → Prog (Sched P) (Option (Stage P))
  | .tick => do
    tickCount
    let s ← Prog.get
    pure (some (if (s.proc s.currentproc).ncli = 0 then .schedule else .iret))
  | .schedule => do
    spinlock
    pure (some .count)
  | .count => do
    Prog.modify fun s => { s with schedulercounter := s.schedulercounter + 1 }
    let s ← Prog.get
    if s.schedulercounter ≠ 1 then
      Prog.panic "Schedulercounter>1 Should never happpen?? Is spinlock broken?\n"
    else pure (some (if (s.proc s.currentproc).sliceTicks = 0 then .lock .dequeue else .finish true))
  | .lock f => do
    spinlock
    pure (some (.body f))
  | .body f => do
    let r ← f.run
    pure (some (.unlock f r))
  | .unlock f r => do
    spinunlock
    pure (some (f.next r))
  | .choose (some p) => pure (some (.select p))
  | .choose none => do
    let s ← Prog.get
    if (s.proc s.currentproc).state = .RUNNING then pure (some (.finish true))
    else
      match s.idleproc with
      | some p => pure (some (.select p))
      | none => Prog.panic "Nothing to switch to!\n"
  | .select p => do
    let s ← Prog.get
    pure (some (.lock (
      if s.idleproc = some s.currentproc then .markkernelidle p
      else if (s.proc s.currentproc).state = .RUNNING then .enqueue p
      else .markrunning p)))
  | .switch p => do
    Prog.modify fun s => { s with currentproc := p }
    schedulerSwitchProcess p
    -- where the old process goes on when it is switched to again
    pure (some (.finish true))
  | .finish interrupted => do
    Prog.modify fun s => { s with schedulercounter := s.schedulercounter - 1 }
    pure (some (.release interrupted))
  | .release interrupted => do
    spinunlock
    pure (if interrupted then some .iret else none)
  | .iret => do
    Prog.modify fun s => { s with irqOn := true }
    pure none

/-! ## Runs -/

/-- The kernel with the stages each process stands in, innermost first (none in its own code), and the locks it holds,
innermost first, each with the interrupt flag at the time it was taken. -/
structure Nest (P : Type) where
  sched : Sched P
  frames : P → List (Stage P)
  created : Set P
  held : P → List Bool

/-- The locks of the process after a step: the two locking and the two unlocking stages change them. -/
def Stage.heldAfter (irqOn : Bool) (locks : List Bool) : Stage P → List Bool
  | .schedule => irqOn :: locks
  | .lock _ => irqOn :: locks
  | .unlock _ _ => locks.tail
  | .release _ => locks.tail
  | _ => locks

namespace Nest

def current (m : Nest P) : P := m.sched.currentproc

/-- The current process is in its own code. -/
def Own (m : Nest P) : Prop := m.frames m.current = []

/-- The state and the current process's frames and locks after a step. -/
def after (m : Nest P) (s : Sched P) (frames : List (Stage P)) (locks : List Bool) : Nest P :=
  { m with
    sched := s
    frames := Function.update m.frames m.current frames
    held := Function.update m.held m.current locks }

end Nest

/-- In its own code a process takes and releases locks, in pairs, prepares processes and enqueues them. -/
inductive NestStep (m : Nest P) : Nest P → Prop
  | spinlock (s' : Sched P) (hown : m.Own) (h : spinlock m.sched = .ok () s') :
      NestStep m (m.after s' [] (m.sched.irqOn :: m.held m.current))
  | spinunlock (s' : Sched P) (hown : m.Own) (hheld : m.held m.current ≠ []) (h : spinunlock m.sched = .ok () s') :
      NestStep m (m.after s' [] (m.held m.current).tail)
  | prepare (p : P) (hown : m.Own) (h : p ∉ m.created) :
      NestStep m ⟨procCreate p m.sched, Function.update m.frames p [.finish false], insert p m.created,
        Function.update m.held p [preparedProc.intenable]⟩
  | enqueue (p : P) (s' : Sched P) (hown : m.Own) (hheld : m.held m.current ≠ []) (hp : p ∈ m.created)
      (hother : p ≠ m.current) (h : schedulerEnqueueUnlocked p m.sched = .ok () s') :
      NestStep m { m with sched := s' }
  | idle (hown : m.Own) : NestStep m { m with sched := { m.sched with idleproc := some m.current } }
  /-- `hal_start_cpuinterrupts`. -/
  | startInterrupts (hown : m.Own) (hheld : m.held m.current = []) :
      NestStep m
        { m with sched := { m.sched.setProc m.current fun x => { x with intenable := true } with irqOn := true } }
  /-- The timer ticks; the gate clears the interrupt flag. -/
  | timer (hirq : m.sched.irqOn = true) :
      NestStep m (m.after { m.sched with irqOn := false } (.tick :: m.frames m.current) (m.held m.current))
  | handler (st : Stage P) (rest : List (Stage P)) (next : Option (Stage P)) (s' : Sched P)
      (hframes : m.frames m.current = st :: rest) (h : st.exec m.sched = .ok next s') :
      NestStep m (m.after s' (next.toList ++ rest) (st.heldAfter m.sched.irqOn (m.held m.current)))

def NestRun : Nest P → Nest P → Prop := Relation.ReflTransGen NestStep

/-- The boot process alone, in its own code. -/
def bootNest (s : Sched P) : Nest P := ⟨s, fun _ => [], {s.currentproc}, fun _ => []⟩

end Borgos.Kcore
