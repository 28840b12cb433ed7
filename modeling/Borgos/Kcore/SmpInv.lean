import Borgos.Kcore.Smp

/-! # What holds while several CPUs schedule

Every process has one place: it is some CPU's current process, in the queue, idle, prepared, or in the hands of a CPU
that moves it. A step of one CPU moves only what is its own, and takes processes out of the queue only under
`schedulerspin`; so what a CPU knows stays true while others take steps (`AtPoint.frame`).
-/
namespace Borgos.Kcore
open Borgos.Foundations Borgos.Foundations.Intrusive Interleaving
set_option autoImplicit false

/-! ## A list operation under way -/

section Stores
variable {α : Type} [DecidableEq α] {h₀ h : Links α} {entry newe head : α}

/-- `h` is what the stores up to this point leave of `h₀`. -/
def DelPoint.Fits (entry : α) (h₀ h : Links α) : DelPoint α → Prop
  | .test => h = h₀
  | .nextPrev prev next => ¬((h₀ entry).prev = none ∧ (h₀ entry).next = none) ∧ prev = (h₀ entry).prev ∧
      next = (h₀ entry).next ∧ h = h₀
  | .prevNext prev next => ¬((h₀ entry).prev = none ∧ (h₀ entry).next = none) ∧ prev = (h₀ entry).prev ∧
      next = (h₀ entry).next ∧ h = setPrev h₀ next prev
  | .clearNext => ¬((h₀ entry).prev = none ∧ (h₀ entry).next = none) ∧ h = bridge h₀ (h₀ entry).prev (h₀ entry).next
  | .clearPrev => ¬((h₀ entry).prev = none ∧ (h₀ entry).next = none) ∧
      h = setNext (bridge h₀ (h₀ entry).prev (h₀ entry).next) (some entry) none

/-- A store leads to the next point or completes `list_del`. -/
inductive DelStore (entry : α) (h₀ : Links α) : Option (DelPoint α) × Links α → Prop
  | next (w : DelPoint α) (h : Links α) (hw : w.Fits entry h₀ h) : DelStore entry h₀ (some w, h)
  | done : DelStore entry h₀ (none, listDel h₀ entry)

theorem DelPoint.exec_store {w : DelPoint α} (hw : w.Fits entry h₀ h) : DelStore entry h₀ (w.exec entry h) := by
  cases w with
  | test =>
    obtain rfl : h = h₀ := hw
    by_cases hnull : (h entry).prev = none ∧ (h entry).next = none
    · have hdone : DelPoint.test.exec entry h = (none, listDel h entry) := by
        simp only [DelPoint.exec, listDel, detach, if_pos hnull]
      rw [hdone]
      exact .done
    · have hnext : DelPoint.test.exec entry h = (some (.nextPrev (h entry).prev (h entry).next), h) := by
        simp only [DelPoint.exec, if_neg hnull]
      rw [hnext]
      exact .next _ _ ⟨hnull, rfl, rfl, rfl⟩
  | nextPrev prev next =>
    obtain ⟨hnull, rfl, rfl, rfl⟩ := hw
    exact .next _ _ ⟨hnull, rfl, rfl, rfl⟩
  | prevNext prev next =>
    obtain ⟨hnull, rfl, rfl, rfl⟩ := hw
    exact .next _ _ ⟨hnull, rfl⟩
  | clearNext =>
    obtain ⟨hnull, rfl⟩ := hw
    exact .next _ _ ⟨hnull, rfl⟩
  | clearPrev =>
    obtain ⟨hnull, rfl⟩ := hw
    have hdel : setPrev (setNext (bridge h₀ (h₀ entry).prev (h₀ entry).next) (some entry) none) (some entry) none =
        listDel h₀ entry := by
      unfold listDel detach
      rw [if_neg hnull]
      simp [setPrev, setNext, null]
    show DelStore entry h₀ (none, setPrev _ (some entry) none)
    rw [hdel]
    exact .done

def AddPoint.Fits (newe head : α) (h₀ h : Links α) : AddPoint α → Prop
  | .read => h = h₀
  | .nextPrev prev => prev = (h₀ head).prev ∧ h = h₀
  | .neweNext prev => prev = (h₀ head).prev ∧ h = setPrev h₀ (some head) (some newe)
  | .newePrev prev => prev = (h₀ head).prev ∧
      h = setNext (setPrev h₀ (some head) (some newe)) (some newe) (some head)
  | .prevNext prev => prev = (h₀ head).prev ∧
      h = setPrev (setNext (setPrev h₀ (some head) (some newe)) (some newe) (some head)) (some newe) prev

/-- A store leads to the next point or completes `list_add_tail`. -/
inductive AddStore (newe head : α) (h₀ : Links α) : Option (AddPoint α) × Links α → Prop
  | next (w : AddPoint α) (h : Links α) (hw : w.Fits newe head h₀ h) : AddStore newe head h₀ (some w, h)
  | done : AddStore newe head h₀ (none, listAddTail h₀ newe head)

theorem AddPoint.exec_store {w : AddPoint α} (hw : w.Fits newe head h₀ h) :
    AddStore newe head h₀ (w.exec newe head h) := by
  cases w with
  | read =>
    obtain rfl : h = h₀ := hw
    exact .next _ _ ⟨rfl, rfl⟩
  | nextPrev prev =>
    obtain ⟨rfl, rfl⟩ := hw
    exact .next _ _ ⟨rfl, rfl⟩
  | neweNext prev =>
    obtain ⟨rfl, rfl⟩ := hw
    exact .next _ _ ⟨rfl, rfl⟩
  | newePrev prev =>
    obtain ⟨rfl, rfl⟩ := hw
    exact .next _ _ ⟨rfl, rfl⟩
  | prevNext prev =>
    obtain ⟨rfl, rfl⟩ := hw
    exact .done

end Stores

/-! ## Places -/

variable {A P : Type} [DecidableEq A] [DecidableEq P]

inductive ProcPlace (A : Type) where
  /-- Not created. -/
  | nowhere
  | cpu (a : A)
  | queue
  /-- Put away by the CPU it is the idle process of. -/
  | idle (a : A)
  | embryo
  /-- Out of the queue and on no CPU, in a function of this CPU. -/
  | hand (a : A)
deriving DecidableEq

/-- Where each process is, the two queues, and the links after the last list operation that is complete. -/
structure SmpGhost (A P : Type) where
  place : P → ProcPlace A
  R : List P
  N : List P
  links : Links (QNode P)

def SmpGhost.created (g : SmpGhost A P) : Set P := {p | g.place p ≠ .nowhere}

/-! ## Points -/

/-- The nesting outside a function that locks `schedulerqueuespin`. -/
def QueueCall.outer : QueueCall P → List Bool
  | .enqueue _ none => []
  | _ => [false]

/-- The nesting inside it; own code may have had interrupts on. -/
def QueueCall.locks : QueueCall P → Bool → List Bool
  | .enqueue _ none, b => [b]
  | _, _ => [false, false]

/-- Called from `scheduler_schedule`. -/
def QueueCall.scheduling : QueueCall P → Prop
  | .enqueue _ none => False
  | _ => True

/-- The process in the CPU's hands until the function is done with the queue. -/
def QueueCall.carried : QueueCall P → Option P
  | .dequeue => none
  | .markkernelidle _ p => some p
  | .enqueue _ (some p) => some p
  | .enqueue q none => some q
  | .markrunning p => some p

/-- The process in its hands afterwards. -/
def QueueCall.carriedAfter : QueueCall P → Option P → Option P
  | .dequeue, r => r
  | .enqueue _ none, _ => none
  | f, _ => f.carried

/-- How far a CPU has got with a switch. -/
inductive Phase (P : Type) where
  | run
  /-- The process is being put away. -/
  | leave
  /-- It has been. -/
  | gone
  /-- `p` is current, on the stack of the old process. -/
  | swap (p : P)

def QueueCall.during : QueueCall P → Phase P
  | .dequeue => .run
  | .markkernelidle _ _ => .leave
  | .enqueue _ (some _) => .leave
  | .enqueue _ none => .run
  | .markrunning _ => .gone

def QueueCall.before : QueueCall P → Phase P
  | .markrunning _ => .gone
  | _ => .run

def QueueCall.after : QueueCall P → Phase P
  | .dequeue => .run
  | .enqueue _ none => .run
  | _ => .gone

namespace SmpPoint

/-- What the process on the CPU has locked, innermost first, as `ncli` and `intenable` count it, where own code called
with the interrupt flag `b`. -/
def locks : SmpPoint P → Bool → List Bool
  | .own, _ => []
  | .tick, _ => []
  | .schedule, _ => []
  | .lock f, _ => f.outer
  | .spinq f _, b => f.locks b
  | .body f _, b => f.locks b
  | .unlock f _ _, b => f.locks b
  | .restoreq f _, b => f.locks b
  | .finish interrupted, _ => [!interrupted]
  | .release interrupted _, _ => [!interrupted]
  | .restore interrupted, _ => [!interrupted]
  | .iret, _ => []
  | _, _ => [false]

/-- Between the two calls of the lock functions. -/
def inside : SmpPoint P → SchedLock → Prop
  | .count, .schedulerspin => True
  | .lock f, .schedulerspin => f.scheduling
  | .spinq f _, .schedulerspin => f.scheduling
  | .body f _, .schedulerspin => f.scheduling
  | .unlock f _ _, .schedulerspin => f.scheduling
  | .restoreq f _, .schedulerspin => f.scheduling
  | .choose _, .schedulerspin => True
  | .select _, .schedulerspin => True
  | .setcurrent _, .schedulerspin => True
  | .save _ _, .schedulerspin => True
  | .load _, .schedulerspin => True
  | .finish _, .schedulerspin => True
  | .release _ _, .schedulerspin => True
  | .body _ _, .schedulerqueuespin => True
  | .unlock _ _ _, .schedulerqueuespin => True
  | _, _ => False

/-- `schedulercounter` under `schedulerspin`. -/
def counter : SmpPoint P → ℤ
  | .count => 0
  | .release _ _ => 0
  | _ => 1

def carried : SmpPoint P → Option P
  | .lock f => f.carried
  | .spinq f _ => f.carried
  | .body f _ => f.carried
  | .unlock f r _ => f.carriedAfter r
  | .restoreq f r => f.carriedAfter r
  | .choose r => r
  | .select p => some p
  | .setcurrent p => some p
  | _ => none

/-- The process that is marked as running and not current yet. -/
def marked : SmpPoint P → Option P
  | .unlock (.markrunning p) _ _ => some p
  | .restoreq (.markrunning p) _ => some p
  | .setcurrent p => some p
  | _ => none

def phase : SmpPoint P → Phase P
  | .lock f => f.before
  | .spinq f _ => f.before
  | .body f _ => f.during
  | .unlock f _ _ => f.after
  | .restoreq f _ => f.after
  | .setcurrent _ => .gone
  | .save _ p => .swap p
  | .load p => .swap p
  | _ => .run

end SmpPoint

/-- `ncli` counts the locks, and `intenable` is the flag at the outermost one. -/
structure Counted (proc : P → Proc) (p : P) (locks : List Bool) : Prop where
  ncli : (proc p).ncli = locks.length
  flag : ∀ b, locks.getLast? = some b → (proc p).intenable = b

omit [DecidableEq P] in
theorem Counted.congr {proc proc' : P → Proc} {p : P} {locks : List Bool} (h : Counted proc p locks)
    (hn : (proc' p).ncli = (proc p).ncli) (hf : (proc' p).intenable = (proc p).intenable) : Counted proc' p locks :=
  ⟨hn.trans h.ncli, fun b hb => hf.trans (h.flag b hb)⟩

/-- It counts them for some flag of own code. -/
def Nested (proc : P → Proc) (p : P) (locks : Bool → List Bool) : Prop := ∃ b, Counted proc p (locks b)

omit [DecidableEq P] in
theorem Nested.congr {proc proc' : P → Proc} {p : P} {locks : Bool → List Bool} (h : Nested proc p locks)
    (hn : (proc' p).ncli = (proc p).ncli) (hf : (proc' p).intenable = (proc p).intenable) : Nested proc' p locks := by
  obtain ⟨b, hcounted⟩ := h
  exact ⟨b, hcounted.congr hn hf⟩

/-! ## What a CPU knows -/

/-- The process that is current and the one on whose stack the CPU is. -/
def Phase.Holds (g : SmpGhost A P) (a : A) (c : SmpCpu P) (s : SmpShared P) : Phase P → Prop
  | .run => c.currentproc = c.stack ∧ g.place c.stack = .cpu a ∧ (s.proc c.stack).state = .RUNNING
  | .leave => c.currentproc = c.stack ∧ g.place c.stack = .cpu a
  | .gone => c.currentproc = c.stack ∧ (g.place c.stack = .queue ∨ g.place c.stack = .idle a)
  | .swap p => c.currentproc = p ∧ g.place p = .cpu a ∧ (g.place c.stack = .queue ∨ g.place c.stack = .idle a) ∧
      (s.proc p).state = .RUNNING

/-- The process a call puts away is the CPU's own. -/
def QueueCall.Own (c : SmpCpu P) : QueueCall P → Prop
  | .markkernelidle q _ => q = c.stack ∧ c.idleproc = some q
  | .enqueue q (some _) => q = c.stack ∧ c.idleproc ≠ some q
  | _ => True

/-- What the call does under the lock: which process it moves, and to which list. -/
inductive QueueCall.Moves : QueueCall P → P → Option (QNode P) → Prop
  | markkernelidle (q p : P) : Moves (.markkernelidle q p) q none
  | enqueue (q : P) (p : Option P) : Moves (.enqueue q p) q (some .runnablelist)
  | markrunning (p : P) : Moves (.markrunning p) p (some .runninglist)

/-- The links are those of the ghost, up to the operation under way. -/
inductive BodyPoint.Fits (f : QueueCall P) (g : SmpGhost A P) (links : Links (QNode P)) : BodyPoint P → Prop
  | empty (hf : f = .dequeue) (hlinks : links = g.links) : Fits f g links .empty
  | first (hf : f = .dequeue) (hlinks : links = g.links) (hR : g.R ≠ []) : Fits f g links .first
  | delFirst (q : P) (R : List P) (w : DelPoint (QNode P)) (hf : f = .dequeue) (hR : g.R = q :: R)
      (hw : w.Fits (.plist q) g.links links) : Fits f g links (.del q none w)
  | state (q : P) (st : ProcState) (list : Option (QNode P)) (hf : f.Moves q list)
      (hst : ∀ p, f = .markrunning p → st = .RUNNING) (hlinks : links = g.links) : Fits f g links (.state q st list)
  | del (q : P) (list : Option (QNode P)) (w : DelPoint (QNode P)) (hf : f.Moves q list)
      (hw : w.Fits (.plist q) g.links links) : Fits f g links (.del q list w)
  | add (q : P) (list : QNode P) (w : AddPoint (QNode P)) (hf : f.Moves q (some list)) (hN : q ∉ g.N)
      (hw : w.Fits (.plist q) list g.links links) : Fits f g links (.add q list w)

/-- A call that marks a process has done so once it has begun with the lists. -/
def BodyPoint.marked : QueueCall P → BodyPoint P → Option P
  | .markrunning p, .del _ _ _ => some p
  | .markrunning p, .add _ _ _ => some p
  | _, _ => none

def SmpPoint.Wf (g : SmpGhost A P) (c : SmpCpu P) (s : SmpShared P) : SmpPoint P → Prop
  | .spin pt => pt.locking
  | .lock f => f.Own c
  | .spinq f pt => pt.locking ∧ f.Own c
  | .body f b => f.Own c ∧ b.Fits f g s.links ∧ ∀ p, b.marked f = some p → (s.proc p).state = .RUNNING
  | .unlock _ _ pt => pt.unlocking ∧ s.links = g.links
  | .save prev _ => prev = c.stack
  | .load _ => s.context c.stack = some (.finish true)
  | .release _ pt => pt.unlocking
  | .nested => False
  | _ => True

structure AtPoint (g : SmpGhost A P) (a : A) (c : SmpCpu P) (s : SmpShared P) : Prop where
  irqOn : c.point ≠ .own → c.irqOn = false
  counts : Nested s.proc c.stack c.point.locks
  counter : c.point.inside .schedulerspin → s.schedulercounter = c.point.counter
  phase : c.point.phase.Holds g a c s
  wf : c.point.Wf g c s
  marked : ∀ p, c.point.marked = some p → (s.proc p).state = .RUNNING
  carried : ∀ p, g.place p = .hand a ↔ c.point.carried = some p
  current : ∀ p, g.place p = .cpu a → c.currentproc = p
  idle : ∀ p, g.place p = .idle a → c.idleproc = some p
  idleproc : ∀ p, c.idleproc = some p → g.place p = .cpu a ∨ g.place p = .idle a

omit [DecidableEq A] in
/-- The idle process is not in its CPU's hands. -/
theorem AtPoint.idleproc_off_hand {g : SmpGhost A P} {a : A} {c : SmpCpu P} {s : SmpShared P} {p : P}
    (h : AtPoint g a c s) (hhand : g.place p = .hand a) : c.idleproc ≠ some p := by
  intro hp
  have hplace := h.idleproc p hp
  rw [hhand] at hplace
  rcases hplace with e | e
  · cases e
  · cases e

/-! ## What a step changes -/

/-- Places a step of `a` may empty, and places it may fill. -/
inductive ProcPlace.Owned (a : A) (scheduling : Prop) : ProcPlace A → Prop
  | cpu : Owned a scheduling (.cpu a)
  | hand : Owned a scheduling (.hand a)
  | embryo : Owned a scheduling .embryo
  | queue (h : scheduling) : Owned a scheduling .queue

inductive ProcPlace.Filled (a : A) : ProcPlace A → Prop
  | cpu : Filled a (.cpu a)
  | hand : Filled a (.hand a)
  | idle : Filled a (.idle a)
  | queue : Filled a .queue

structure Changes (a : A) (c : SmpCpu P) (g g' : SmpGhost A P) (s s' : SmpShared P) : Prop where
  place : ∀ q, g'.place q = g.place q ∨
    (g.place q).Owned a (c.point.inside .schedulerspin) ∧ (g'.place q).Filled a
  state : ∀ q, g.place q = .cpu a ∨ g.place q = .hand a ∨ (s'.proc q).state = (s.proc q).state
  counts : ∀ q, q = c.stack ∨ (s'.proc q).ncli = (s.proc q).ncli ∧ (s'.proc q).intenable = (s.proc q).intenable
  counter : c.point.inside .schedulerspin ∨ s'.schedulercounter = s.schedulercounter
  context : c.point.inside .schedulerspin ∨ s'.context = s.context
  links : c.point.inside .schedulerqueuespin ∨
    s'.links = s.links ∧ g'.links = g.links ∧ g'.R = g.R ∧ g'.N = g.N

namespace Changes
variable {a b : A} {c : SmpCpu P} {g g' : SmpGhost A P} {s s' : SmpShared P} {q : P}

omit [DecidableEq A] [DecidableEq P] in
/-- The places of another CPU neither empty nor fill. -/
theorem place_iff (h : Changes a c g g' s s') {pl : ProcPlace A} (hout : ∀ sched, ¬pl.Owned a sched)
    (hin : ¬pl.Filled a) :
    g'.place q = pl ↔ g.place q = pl := by
  rcases h.place q with hsame | ⟨howned, hfilled⟩
  · rw [hsame]
  · constructor
    · intro e
      rw [e] at hfilled
      exact absurd hfilled hin
    · intro e
      rw [e] at howned
      exact absurd howned (hout _)

omit [DecidableEq A] [DecidableEq P] in
theorem cpu_iff (h : Changes a c g g' s s') (hba : b ≠ a) : g'.place q = .cpu b ↔ g.place q = .cpu b :=
  h.place_iff (fun _ ho => by cases ho; exact hba rfl) fun hf => by cases hf; exact hba rfl

omit [DecidableEq A] [DecidableEq P] in
theorem hand_iff (h : Changes a c g g' s s') (hba : b ≠ a) : g'.place q = .hand b ↔ g.place q = .hand b :=
  h.place_iff (fun _ ho => by cases ho; exact hba rfl) fun hf => by cases hf; exact hba rfl

omit [DecidableEq A] [DecidableEq P] in
theorem idle_iff (h : Changes a c g g' s s') (hba : b ≠ a) : g'.place q = .idle b ↔ g.place q = .idle b :=
  h.place_iff (fun _ ho => by cases ho) fun hf => by cases hf; exact hba rfl

omit [DecidableEq A] [DecidableEq P] in
/-- Without `schedulerspin` nothing is taken out of the queue. -/
theorem queue_stays (h : Changes a c g g' s s') (hsched : ¬c.point.inside .schedulerspin) (hq : g.place q = .queue) :
    g'.place q = .queue := by
  rcases h.place q with hsame | ⟨howned, -⟩
  · rw [hsame, hq]
  · rw [hq] at howned
    cases howned with
    | queue hin => exact absurd hin hsched

omit [DecidableEq A] [DecidableEq P] in
theorem state_other (h : Changes a c g g' s s') (hcpu : g.place q ≠ .cpu a) (hhand : g.place q ≠ .hand a) :
    (s'.proc q).state = (s.proc q).state := by
  rcases h.state q with hq | hq | hq
  · exact absurd hq hcpu
  · exact absurd hq hhand
  · exact hq

end Changes

/-! ## Other CPUs -/

omit [DecidableEq P] in
/-- A CPU that puts its process away is under `schedulerspin`. -/
theorem SmpPoint.inside_of_phase {pt : SmpPoint P} (h : pt.phase ≠ .run) : pt.inside .schedulerspin := by
  have hbefore : ∀ f : QueueCall P, f.before ≠ .run → f.scheduling := by
    rintro (_ | _ | ⟨q, _ | p⟩ | _) hf <;> trivial
  have hduring : ∀ f : QueueCall P, f.during ≠ .run → f.scheduling := by
    rintro (_ | _ | ⟨q, _ | p⟩ | _) hf <;> trivial
  have hafter : ∀ f : QueueCall P, f.after ≠ .run → f.scheduling := by
    rintro (_ | _ | ⟨q, _ | p⟩ | _) hf <;> trivial
  cases pt with
  | lock f => exact hbefore f h
  | spinq f w => exact hbefore f h
  | body f b => exact hduring f h
  | unlock f r w => exact hafter f h
  | restoreq f r => exact hafter f h
  | setcurrent p => trivial
  | save q p => trivial
  | load p => trivial
  | _ => exact absurd rfl h

section Frame
variable {a b : A} {c cb : SmpCpu P} {g g' : SmpGhost A P} {s s' : SmpShared P}

omit [DecidableEq A] [DecidableEq P] in
theorem Phase.Holds.frame {ph : Phase P} (h : ph.Holds g b cb s) (hch : Changes a c g g' s s') (hba : b ≠ a)
    (hsched : ph ≠ .run → ¬c.point.inside .schedulerspin) : ph.Holds g' b cb s' := by
  have hstate : ∀ q, g.place q = .cpu b → (s'.proc q).state = (s.proc q).state := fun q hq =>
    hch.state_other (by rw [hq]; exact fun e => hba (ProcPlace.cpu.inj e)) (by rw [hq]; exact fun e => by cases e)
  have hgone : ∀ q, ¬c.point.inside .schedulerspin → g.place q = .queue ∨ g.place q = .idle b →
      g'.place q = .queue ∨ g'.place q = .idle b := by
    intro q hout hq
    rcases hq with hq | hq
    · exact .inl (hch.queue_stays hout hq)
    · exact .inr ((hch.idle_iff hba).mpr hq)
  cases ph with
  | run => exact ⟨h.1, (hch.cpu_iff hba).mpr h.2.1, (hstate _ h.2.1).trans h.2.2⟩
  | leave => exact ⟨h.1, (hch.cpu_iff hba).mpr h.2⟩
  | gone => exact ⟨h.1, hgone _ (hsched (fun e => by cases e)) h.2⟩
  | swap p =>
    exact ⟨h.1, (hch.cpu_iff hba).mpr h.2.1, hgone _ (hsched (fun e => by cases e)) h.2.2.1,
      (hstate _ h.2.1).trans h.2.2.2⟩

omit [DecidableEq A] in
theorem BodyPoint.Fits.frame {f : QueueCall P} {w : BodyPoint P} (h : w.Fits f g s.links) (hlinks : s'.links = s.links)
    (hg : g'.links = g.links) (hR : g'.R = g.R) (hN : g'.N = g.N) : w.Fits f g' s'.links := by
  cases h with
  | empty hf hl => exact .empty hf (by rw [hlinks, hg, hl])
  | first hf hl hne => exact .first hf (by rw [hlinks, hg, hl]) (by rwa [hR])
  | delFirst q R w hf hq hw => exact .delFirst q R w hf (by rwa [hR]) (by rwa [hlinks, hg])
  | state q st list hf hst hl => exact .state q st list hf hst (by rw [hlinks, hg, hl])
  | del q list w hf hw => exact .del q list w hf (by rwa [hlinks, hg])
  | add q list w hf hn hw => exact .add q list w hf (by rwa [hN]) (by rwa [hlinks, hg])

omit [DecidableEq P] in
/-- A marked process is in the CPU's hands. -/
theorem SmpPoint.carried_of_marked {pt : SmpPoint P} {p : P} (h : pt.marked = some p) : pt.carried = some p := by
  cases pt with
  | unlock f r w =>
    cases f with
    | markrunning q => exact h
    | _ => cases h
  | restoreq f r =>
    cases f with
    | markrunning q => exact h
    | _ => cases h
  | setcurrent q => exact h
  | _ => cases h

omit [DecidableEq P] in
theorem BodyPoint.carried_of_marked {f : QueueCall P} {w : BodyPoint P} {p : P} (h : w.marked f = some p) :
    f.carried = some p := by
  cases f with
  | markrunning q =>
    cases w with
    | del q list w => exact h
    | add q list w => exact h
    | _ => cases h
  | _ => cases w <;> cases h

omit [DecidableEq A] in
/-- What a CPU knows stays true while another takes a step. -/
theorem AtPoint.frame (h : AtPoint g b cb s) (hch : Changes a c g g' s s') (hba : b ≠ a) (hstack : cb.stack ≠ c.stack)
    (hsched : cb.point.inside .schedulerspin → ¬c.point.inside .schedulerspin)
    (hqueue : cb.point.inside .schedulerqueuespin → ¬c.point.inside .schedulerqueuespin) : AtPoint g' b cb s' := by
  have hcounts := (hch.counts cb.stack).resolve_left hstack
  have hlinks : cb.point.inside .schedulerqueuespin →
      s'.links = s.links ∧ g'.links = g.links ∧ g'.R = g.R ∧ g'.N = g.N :=
    fun hin => hch.links.resolve_left (hqueue hin)
  have hcarried : ∀ p, cb.point.carried = some p → (s'.proc p).state = (s.proc p).state := by
    intro p hp
    have hplace := (h.carried p).mpr hp
    exact hch.state_other (by rw [hplace]; exact fun e => by cases e)
      (by rw [hplace]; exact fun e => hba (ProcPlace.hand.inj e))
  constructor
  · exact h.irqOn
  · exact h.counts.congr hcounts.1 hcounts.2
  · intro hin
    rw [hch.counter.resolve_left (hsched hin)]
    exact h.counter hin
  · exact h.phase.frame hch hba fun hrun => hsched (SmpPoint.inside_of_phase hrun)
  · have hwf := h.wf
    cases hpt : cb.point with
    | body f w =>
      rw [hpt] at hwf hlinks
      obtain ⟨hl, hg, hR, hN⟩ := hlinks trivial
      refine ⟨hwf.1, hwf.2.1.frame hl hg hR hN, fun p hp => ?_⟩
      have hsame := hcarried p (by rw [hpt]; exact BodyPoint.carried_of_marked hp)
      rw [hsame]
      exact hwf.2.2 p hp
    | unlock f r w =>
      rw [hpt] at hwf hlinks
      obtain ⟨hl, hg, -, -⟩ := hlinks trivial
      exact ⟨hwf.1, by rw [hl, hg]; exact hwf.2⟩
    | load p =>
      rw [hpt] at hwf hsched
      show s'.context cb.stack = _
      rw [hch.context.resolve_left (hsched trivial)]
      exact hwf
    | _ => rwa [hpt] at hwf
  · intro p hp
    rw [hcarried p (SmpPoint.carried_of_marked hp)]
    exact h.marked p hp
  · exact fun p => (hch.hand_iff hba).trans (h.carried p)
  · exact fun p hp => h.current p ((hch.cpu_iff hba).mp hp)
  · exact fun p hp => h.idle p ((hch.idle_iff hba).mp hp)
  · intro p hp
    exact (h.idleproc p hp).imp (hch.cpu_iff hba).mpr (hch.idle_iff hba).mpr

end Frame

/-! ## The invariant -/

def SmpCpu.inside (c : SmpCpu P) (l : SchedLock) : Prop := c.point.inside l

omit [DecidableEq P] in
theorem SmpCpu.inside_at {c : SmpCpu P} {pt : SmpPoint P} (h : c.point = pt) (l : SchedLock) :
    c.inside l ↔ pt.inside l := by
  rw [SmpCpu.inside, h]

def SmpShared.taken (s : SmpShared P) (l : SchedLock) : Prop := s.lock l ≠ spinUnlocked

/-- A process that is on no CPU goes on where its context says. -/
def Suspended (s : SmpShared P) (p : P) : Prop :=
  ∃ interrupted, s.context p = some (.finish interrupted) ∧ Counted s.proc p [!interrupted]

structure SmpInv (g : SmpGhost A P) (x : Config A (SmpCpu P) (SmpShared P)) : Prop where
  exclusive : Exclusive SmpCpu.inside SmpShared.taken x
  point : ∀ a, AtPoint g a (x.thread a) x.shared
  queues : Queues g.links g.created g.R g.N
  runnable : ∀ p, p ∈ g.R ↔ g.place p = .queue
  links : (∀ a, ¬(x.thread a).inside .schedulerqueuespin) → x.shared.links = g.links
  counter : (∀ a, ¬(x.thread a).inside .schedulerspin) → x.shared.schedulercounter = 0
  distinct : ∀ a b, (x.thread a).stack = (x.thread b).stack → a = b
  suspended : ∀ p ∈ g.created, (∃ a, (x.thread a).stack = p) ∨ Suspended x.shared p
  embryos : ∀ p, p ∈ x.shared.embryos ↔ g.place p = .embryo

namespace SmpInv
variable {g g' : SmpGhost A P} {x : Config A (SmpCpu P) (SmpShared P)} {a : A} {c : SmpCpu P} {s : SmpShared P}

/-- A step of `a`: what it knows afterwards, what it has changed, and what all share. -/
theorem move (h : SmpInv g x) (hlocks : ∀ l, Respects SmpCpu.inside SmpShared.taken l (x.thread a) x.shared c s)
    (hch : Changes a (x.thread a) g g' x.shared s) (hpoint : AtPoint g' a c s)
    (hqueues : Queues g'.links g'.created g'.R g'.N) (hrunnable : ∀ p, p ∈ g'.R ↔ g'.place p = .queue)
    (hlinks : (∀ b, b ≠ a → ¬(x.thread b).inside .schedulerqueuespin) → ¬c.inside .schedulerqueuespin →
      s.links = g'.links)
    (hcounter : (∀ b, b ≠ a → ¬(x.thread b).inside .schedulerspin) → ¬c.inside .schedulerspin → s.schedulercounter = 0)
    (hdistinct : ∀ b, b ≠ a → (x.thread b).stack ≠ c.stack)
    (hsuspended : ∀ p ∈ g'.created, c.stack = p ∨ (∃ b, b ≠ a ∧ (x.thread b).stack = p) ∨ Suspended s p)
    (hembryos : ∀ p, p ∈ s.embryos ↔ g'.place p = .embryo) : SmpInv g' (x.move a c s) where
  exclusive := h.exclusive.step hlocks
  point := by
    intro b
    by_cases hba : b = a
    · subst hba
      rwa [x.move_self]
    · rw [x.move_other c s hba, x.move_shared]
      exact (h.point b).frame hch hba (fun e => hba (h.distinct b a e))
        (fun hin => h.exclusive.not_inside hin (Ne.symm hba))
        fun hin => h.exclusive.not_inside hin (Ne.symm hba)
  queues := hqueues
  runnable := hrunnable
  links := by
    intro hnone
    refine hlinks (fun b hba => ?_) ?_
    · have hb := hnone b
      rwa [x.move_other c s hba] at hb
    · have ha := hnone a
      rwa [x.move_self] at ha
  counter := by
    intro hnone
    refine hcounter (fun b hba => ?_) ?_
    · have hb := hnone b
      rwa [x.move_other c s hba] at hb
    · have ha := hnone a
      rwa [x.move_self] at ha
  distinct := by
    intro b b' e
    by_cases hba : b = a
    · by_cases hba' : b' = a
      · rw [hba, hba']
      · rw [hba, x.move_self, x.move_other c s hba'] at e
        exact absurd e.symm (hdistinct b' hba')
    · by_cases hba' : b' = a
      · rw [hba', x.move_self, x.move_other c s hba] at e
        exact absurd e (hdistinct b hba)
      · rw [x.move_other c s hba, x.move_other c s hba'] at e
        exact h.distinct b b' e
  suspended := by
    intro p hp
    rcases hsuspended p hp with hself | ⟨b, hba, hb⟩ | hsus
    · exact .inl ⟨a, by rwa [x.move_self]⟩
    · exact .inl ⟨b, by rwa [x.move_other c s hba]⟩
    · exact .inr hsus
  embryos := hembryos

end SmpInv
end Borgos.Kcore
