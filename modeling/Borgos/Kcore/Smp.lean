import Borgos.Kcore.NestingLaws
import Borgos.Kcore.Spinlock

/-! # `scheduler.c`, `irq.c`: the scheduler with SMP

Any number of CPUs, each in the timer interrupt or in the own code of its current process. A step is one access to a
lock, one store to a list or one access to a descriptor, so another CPU may run between any two of them. A CPU in its
own code enqueues prepared processes. `irq_save` reads `CURRENTCPU` before it clears the interrupt flag, and a process
that goes on another CPU after that would count on the wrong one: own code calls it where the process stays on its CPU
(`SmpCpu.Stays`), and a timer interrupt in between is then one before the call. `kmain` enqueues with interrupts on and
starts no other CPU. Log output, `rsp0` and CR3 are left out.
-/
namespace Borgos.Kcore
open Borgos.Foundations Borgos.Foundations.Intrusive Interleaving
set_option autoImplicit false

/-! ## `list.h`, store by store -/

section Stores
variable {α : Type} [DecidableEq α]

/-- Where in `list_del(entry)` a caller stands, with the pointers it has read. -/
inductive DelPoint (α : Type) where
  | test
  | nextPrev (prev next : Option α)
  | prevNext (prev next : Option α)
  | clearNext
  | clearPrev

def DelPoint.exec (entry : α) (h : Links α) : DelPoint α → Option (DelPoint α) × Links α
  | .test =>
    if (h entry).prev = none ∧ (h entry).next = none then (none, h)
    else (some (.nextPrev (h entry).prev (h entry).next), h)
  | .nextPrev prev next => (some (.prevNext prev next), setPrev h next prev)
  | .prevNext prev next => (some .clearNext, setNext h prev next)
  | .clearNext => (some .clearPrev, setNext h (some entry) none)
  | .clearPrev => (none, setPrev h (some entry) none)

/-- Where in `list_add_tail(newe, head)` a caller stands, with the pointer it has read. -/
inductive AddPoint (α : Type) where
  | read
  | nextPrev (prev : Option α)
  | neweNext (prev : Option α)
  | newePrev (prev : Option α)
  | prevNext (prev : Option α)

def AddPoint.exec (newe head : α) (h : Links α) : AddPoint α → Option (AddPoint α) × Links α
  | .read => (some (.nextPrev (h head).prev), h)
  | .nextPrev prev => (some (.neweNext prev), setPrev h (some head) (some newe))
  | .neweNext prev => (some (.newePrev prev), setNext h (some newe) (some head))
  | .newePrev prev => (some (.prevNext prev), setPrev h (some newe) prev)
  | .prevNext prev => (none, setNext h prev (some newe))

end Stores

/-! ## The scheduler -/

variable {A P : Type} [DecidableEq A] [DecidableEq P]

inductive SchedLock where
  | schedulerspin
  | schedulerqueuespin
deriving DecidableEq

/-- The functions that lock `schedulerqueuespin`. `p` is the process to switch to afterwards; own code enqueues
without one. -/
inductive QueueCall (P : Type) where
  | dequeue
  | markkernelidle (q p : P)
  | enqueue (q : P) (p : Option P)
  | markrunning (p : P)

/-- Where under the lock a caller stands. -/
inductive BodyPoint (P : Type) where
  /-- `list_empty(&runnablelist)` -/
  | empty
  /-- `list_entry(runnablelist.next, ..)` -/
  | first
  | state (q : P) (state : ProcState) (list : Option (QNode P))
  | del (q : P) (list : Option (QNode P)) (w : DelPoint (QNode P))
  | add (q : P) (list : QNode P) (w : AddPoint (QNode P))

def QueueCall.body : QueueCall P → BodyPoint P
  | .dequeue => .empty
  | .markkernelidle q _ => .state q .KERNELIDLEPROC none
  | .enqueue q _ => .state q .RUNNABLE (some .runnablelist)
  | .markrunning p => .state p .RUNNING (some .runninglist)

/-- Where a CPU stands. -/
inductive SmpPoint (P : Type) where
  /-- In the own code of its process. -/
  | own
  /-- `irq_cpu_localtimer_tick_cb` -/
  | tick
  /-- `scheduler_schedule`: `irq_save`, then `cpu_spinlock(&schedulerspin)`. -/
  | schedule
  | spin (pt : SpinPoint)
  /-- Before `schedulercounter++`. -/
  | count
  /-- `irq_save`, then `cpu_spinlock(&schedulerqueuespin)`. -/
  | lock (f : QueueCall P)
  | spinq (f : QueueCall P) (pt : SpinPoint)
  | body (f : QueueCall P) (b : BodyPoint P)
  /-- `cpu_spinunlock(&schedulerqueuespin)`, then `irq_restore`. -/
  | unlock (f : QueueCall P) (r : Option P) (pt : SpinPoint)
  | restoreq (f : QueueCall P) (r : Option P)
  /-- `scheduler_dequeue` has returned. -/
  | choose (r : Option P)
  /-- Before the old process is put away. -/
  | select (p : P)
  /-- Before `cpu->currentproc = p`. -/
  | setcurrent (p : P)
  /-- In `cpu_swapcontext`, before the stack pointer is saved. -/
  | save (prev newproc : P)
  /-- In `cpu_swapcontext`, before the stack pointer is loaded. -/
  | load (newproc : P)
  /-- Before `schedulercounter--`, in an interrupted process or in one that starts. -/
  | finish (interrupted : Bool)
  /-- `cpu_spinunlock(&schedulerspin)`, then `irq_restore`. -/
  | release (interrupted : Bool) (pt : SpinPoint)
  | restore (interrupted : Bool)
  /-- The return from the interrupt. -/
  | iret
  /-- A timer interrupt inside the handler. -/
  | nested

/-- What is left of `cpu_t`, with the process on whose stack the CPU is. -/
structure SmpCpu (P : Type) where
  currentproc : P
  idleproc : Option P
  ticks : ℕ
  irqOn : Bool
  stack : P
  point : SmpPoint P

structure SmpShared (P : Type) where
  lock : SchedLock → LockByte
  links : Links (QNode P)
  proc : P → Proc
  schedulercounter : ℤ
  /-- The saved registers, as long as they say where the process goes on. -/
  context : P → Option (SmpPoint P)
  /-- The processes that are prepared and not enqueued yet. -/
  embryos : Set P

/-- A CPU and what it shares with the others. -/
structure CpuView (P : Type) where
  cpu : SmpCpu P
  shared : SmpShared P

namespace CpuView

/-- The scheduler as the code of this CPU sees it. -/
def sched (v : CpuView P) : Sched P where
  links := v.shared.links
  proc := v.shared.proc
  currentproc := v.cpu.currentproc
  idleproc := v.cpu.idleproc
  ticks := v.cpu.ticks
  schedulercounter := v.shared.schedulercounter
  irqOn := v.cpu.irqOn
  switches := 0

def put (s : Sched P) (v : CpuView P) : CpuView P where
  cpu := { v.cpu with currentproc := s.currentproc, idleproc := s.idleproc, ticks := s.ticks, irqOn := s.irqOn }
  shared := { v.shared with links := s.links, proc := s.proc, schedulercounter := s.schedulercounter }

def setLock (v : CpuView P) (l : SchedLock) (lock : LockByte) : CpuView P :=
  { v with shared := { v.shared with lock := Function.update v.shared.lock l lock } }

def setLinks (v : CpuView P) (links : Links (QNode P)) : CpuView P := { v with shared := { v.shared with links } }

def setState (v : CpuView P) (q : P) (state : ProcState) : CpuView P :=
  { v with shared := { v.shared with
      proc := Function.update v.shared.proc q { v.shared.proc q with state } } }

end CpuView

/-- A function of `Scheduler.lean` or `Nesting.lean` on this CPU. -/
def onCpu {α : Type} (x : Prog (Sched P) α) : Prog (CpuView P) α := Prog.zoom CpuView.sched CpuView.put x

/-- One access of `cpu_spinlock` or `cpu_spinunlock`. -/
def spinAccess (l : SchedLock) (pt : SpinPoint) (done : SmpPoint P) (spinning : SpinPoint → SmpPoint P) :
    Prog (CpuView P) (SmpPoint P) := do
  let v ← Prog.get
  Prog.modify fun v => v.setLock l (pt.exec (v.shared.lock l)).2
  pure ((pt.exec (v.shared.lock l)).1.elim done spinning)

/-- One step under `schedulerqueuespin`. -/
def BodyPoint.exec (f : QueueCall P) : BodyPoint P → Prog (CpuView P) (SmpPoint P)
  | .empty => do
    let v ← Prog.get
    pure (if listEmpty v.shared.links .runnablelist then .unlock f none .test else .body f .first)
  | .first => do
    let v ← Prog.get
    match (v.shared.links .runnablelist).next with
    | some (.plist p) => pure (.body f (.del p none .test))
    | _ => Prog.stuck
  | .state q st list => do
    Prog.modify fun v => v.setState q st
    pure (.body f (.del q list .test))
  | .del q list w => do
    let v ← Prog.get
    Prog.modify fun v => v.setLinks (w.exec (.plist q) v.shared.links).2
    pure (match (w.exec (.plist q) v.shared.links).1, list with
      | some w, list => .body f (.del q list w)
      | none, some list => .body f (.add q list .read)
      | none, none => .unlock f (some q) .test)
  | .add q list w => do
    let v ← Prog.get
    Prog.modify fun v => v.setLinks (w.exec (.plist q) list v.shared.links).2
    pure (match (w.exec (.plist q) list v.shared.links).1 with
      | some w => .body f (.add q list w)
      | none => .unlock f (some q) .test)

/-- What comes after a function that locks `schedulerqueuespin`. -/
def QueueCall.next : QueueCall P → Option P → SmpPoint P
  | .dequeue, r => .choose r
  | .markkernelidle _ p, _ => .lock (.markrunning p)
  | .enqueue _ (some p), _ => .lock (.markrunning p)
  | .enqueue _ none, _ => .own
  | .markrunning p, _ => .setcurrent p

/-- One step of a CPU that is not in its own code. -/
def SmpPoint.exec : SmpPoint P → Prog (CpuView P) (SmpPoint P)
  | .own => pure .own
  | .tick => do
    onCpu tickCount
    let v ← Prog.get
    pure (if (v.shared.proc v.cpu.currentproc).ncli = 0 then .schedule else .iret)
  | .schedule => do
    onCpu irqSave
    pure (.spin .trylock)
  | .spin pt => spinAccess .schedulerspin pt .count .spin
  | .count => do
    Prog.modify fun v => { v with shared := { v.shared with schedulercounter := v.shared.schedulercounter + 1 } }
    let v ← Prog.get
    if v.shared.schedulercounter ≠ 1 then
      Prog.panic "Schedulercounter>1 Should never happpen?? Is spinlock broken?\n"
    else pure (if (v.shared.proc v.cpu.currentproc).sliceTicks = 0 then .lock .dequeue else .finish true)
  | .lock f => do
    onCpu irqSave
    pure (.spinq f .trylock)
  | .spinq f pt => spinAccess .schedulerqueuespin pt (.body f f.body) (.spinq f)
  | .body f b => b.exec f
  | .unlock f r pt => spinAccess .schedulerqueuespin pt (.restoreq f r) (.unlock f r)
  | .restoreq f r => do
    onCpu irqRestore
    pure (f.next r)
  | .choose (some p) => pure (.select p)
  | .choose none => do
    let v ← Prog.get
    if (v.shared.proc v.cpu.currentproc).state = .RUNNING then pure (.finish true)
    else
      match v.cpu.idleproc with
      | some p => pure (.select p)
      | none => Prog.panic "Nothing to switch to!\n"
  | .select p => do
    let v ← Prog.get
    pure (.lock (
      if v.cpu.idleproc = some v.cpu.currentproc then .markkernelidle v.cpu.currentproc p
      else if (v.shared.proc v.cpu.currentproc).state = .RUNNING then .enqueue v.cpu.currentproc (some p)
      else .markrunning p))
  | .setcurrent p => do
    let v ← Prog.get
    Prog.modify fun v => { v with
      cpu := { v.cpu with currentproc := p }
      shared := { v.shared with
        proc := Function.update v.shared.proc p { v.shared.proc p with sliceTicks := 2 } } }
    pure (.save v.cpu.currentproc p)
  | .save prev newproc => do
    Prog.modify fun v => { v with
      shared := { v.shared with context := Function.update v.shared.context prev (some (.finish true)) } }
    pure (.load newproc)
  | .load newproc => do
    let v ← Prog.get
    match v.shared.context newproc with
    | some pt => do
      Prog.modify fun v => { v with
        cpu := { v.cpu with stack := newproc }
        shared := { v.shared with context := Function.update v.shared.context newproc none } }
      pure pt
    | none => Prog.stuck
  | .finish interrupted => do
    Prog.modify fun v => { v with shared := { v.shared with schedulercounter := v.shared.schedulercounter - 1 } }
    pure (.release interrupted .test)
  | .release interrupted pt => spinAccess .schedulerspin pt (.restore interrupted) (.release interrupted)
  | .restore interrupted => do
    onCpu irqRestore
    pure (if interrupted then .iret else .own)
  | .iret => do
    Prog.modify fun v => { v with cpu := { v.cpu with irqOn := true } }
    pure .own
  | .nested => Prog.stuck

/-- The timer ticks; the gate clears the interrupt flag. -/
def SmpPoint.interrupted : SmpPoint P → SmpPoint P
  | .own => .tick
  | _ => .nested

/-- The current process goes on no other CPU: it cannot be interrupted, it is the idle process, or there is none. -/
def SmpCpu.Stays (A : Type) (c : SmpCpu P) : Prop :=
  c.irqOn = false ∨ c.idleproc = some c.currentproc ∨ Subsingleton A

/-- A CPU in its own code enqueues prepared processes and becomes idle, once; the others go on in the handler. -/
inductive SmpMove (a : A) (c : SmpCpu P) (s : SmpShared P) : SmpCpu P → SmpShared P → Prop
  | timer (hirq : c.irqOn = true) : SmpMove a c s { c with irqOn := false, point := c.point.interrupted } s
  /-- `scheduler_enqueue`, up to `irq_save`. -/
  | enqueue (q : P) (v : CpuView P) (hown : c.point = .own) (hstays : c.Stays A) (hq : q ∈ s.embryos)
      (h : onCpu irqSave ⟨c, s⟩ = .ok () v) :
      SmpMove a c s { v.cpu with point := .spinq (.enqueue q none) .trylock }
        { v.shared with embryos := s.embryos \ {q} }
  | idle (hown : c.point = .own) (hstays : c.Stays A) (hnone : c.idleproc = none) :
      SmpMove a c s { c with idleproc := some c.currentproc } s
  /-- `hal_start_cpuinterrupts` -/
  | startInterrupts (hown : c.point = .own) (hstays : c.Stays A) :
      SmpMove a c s { c with irqOn := true }
        { s with proc := Function.update s.proc c.currentproc { s.proc c.currentproc with intenable := true } }
  | handler (next : SmpPoint P) (v : CpuView P) (hown : c.point ≠ .own) (h : c.point.exec ⟨c, s⟩ = .ok next v) :
      SmpMove a c s { v.cpu with point := next } v.shared

end Borgos.Kcore
