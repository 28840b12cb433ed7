import Borgos.Kcore.Scheduler

/-! # What a timer tick does to the queues

`Queues h C R N`: among the processes of `C`, those of `R` are on `runnablelist` and those of `N` on
`runninglist`, in this order, and all others are unlinked. `Ready` is the state between two calls.
`timerInterrupt_spec` describes every outcome of a tick in these terms.
-/
namespace Borgos.Kcore
open Borgos.Foundations Borgos.Foundations.Intrusive
set_option autoImplicit false

variable {P : Type}

/-! ## The queues as lists of processes -/

inductive QueueId where
  | runnable
  | running
deriving DecidableEq

def queueHead : QueueId → QNode P
  | .runnable => .runnablelist
  | .running => .runninglist

def queueLists (R N : List P) : QueueId → List P
  | .runnable => R
  | .running => N

def procNodes (C : Set P) : Set (QNode P) := {n | ∃ p ∈ C, n = .plist p}

def Queues (h : Links (QNode P)) (C : Set P) (R N : List P) : Prop :=
  RingSystem h (procNodes C) queueHead fun i => (queueLists R N i).map QNode.plist

theorem plist_injective : Function.Injective (QNode.plist : P → QNode P) := fun _ _ h => QNode.plist.inj h

theorem mem_map_plist {p : P} {xs : List P} : QNode.plist p ∈ xs.map QNode.plist ↔ p ∈ xs :=
  List.mem_map_of_injective plist_injective

theorem plist_mem_procNodes {C : Set P} {p : P} : QNode.plist p ∈ procNodes C ↔ p ∈ C := by
  constructor
  · intro h
    obtain ⟨q, hq, e⟩ := h
    rw [QNode.plist.inj e]
    exact hq
  · intro h
    exact ⟨p, h, rfl⟩

namespace Queues
variable {h : Links (QNode P)} {C : Set P} {R N : List P} {p : P}

theorem runnable_ring (hq : Queues h C R N) : IsRing h .runnablelist (R.map QNode.plist) :=
  RingSystem.ring hq .runnable

theorem running_ring (hq : Queues h C R N) : IsRing h .runninglist (N.map QNode.plist) :=
  RingSystem.ring hq .running

theorem nodup (hq : Queues h C R N) : R.Nodup := List.Nodup.of_map _ hq.runnable_ring.nodup

theorem nodup_running (hq : Queues h C R N) : N.Nodup := List.Nodup.of_map _ hq.running_ring.nodup

theorem mem_created (hq : Queues h C R N) (hp : p ∈ R) : p ∈ C :=
  plist_mem_procNodes.mp (RingSystem.inside hq .runnable _ (mem_map_plist.mpr hp))

theorem mem_created_running (hq : Queues h C R N) (hp : p ∈ N) : p ∈ C :=
  plist_mem_procNodes.mp (RingSystem.inside hq .running _ (mem_map_plist.mpr hp))

theorem apart (hq : Queues h C R N) (hp : p ∈ R) : p ∉ N := by
  intro hn
  have := RingSystem.apart hq .runnable .running _ (mem_map_plist.mpr hp) (mem_map_plist.mpr hn)
  cases this

theorem not_on (hR : p ∉ R) (hN : p ∉ N) : ∀ i, QNode.plist p ∉ (queueLists R N i).map QNode.plist := by
  intro i hm
  cases i
  · exact hR (mem_map_plist.mp hm)
  · exact hN (mem_map_plist.mp hm)

theorem next_eq (hq : Queues h C (p :: R) N) : (h .runnablelist).next = some (.plist p) := by
  have hring := hq.runnable_ring
  rw [List.map_cons] at hring
  exact hring.next_cons

variable [DecidableEq P]

/-- `list_del` of a process takes it off whatever list it is on. -/
theorem del (hq : Queues h C R N) (hp : p ∈ C) :
    Queues (listDel h (.plist p)) C (R.erase p) (N.erase p) := by
  have hd := RingSystem.detach hq (plist_mem_procNodes.mpr hp)
  have e : (fun i => (queueLists (R.erase p) (N.erase p) i).map QNode.plist) =
      fun i => ((queueLists R N i).map QNode.plist).erase (QNode.plist p) := by
    funext i
    cases i
    · exact List.map_erase plist_injective _
    · exact List.map_erase plist_injective _
  unfold Queues
  rw [e]
  exact hd

/-- `list_add_tail` to `runnablelist`. -/
theorem addRunnable (hq : Queues h C R N) (hp : p ∈ C) (hR : p ∉ R) (hN : p ∉ N) :
    Queues (listAddTail h (.plist p) .runnablelist) C (R ++ [p]) N := by
  have hpush := RingSystem.pushTail hq (i := .runnable) (plist_mem_procNodes.mpr hp) (not_on hR hN)
  have e : (fun i => (queueLists (R ++ [p]) N i).map QNode.plist) = Function.update
      (fun i => (queueLists R N i).map QNode.plist) .runnable (R.map QNode.plist ++ [QNode.plist p]) := by
    funext i
    cases i
    · rw [Function.update_self]
      simp [queueLists]
    · rw [Function.update_of_ne (by decide)]
      rfl
  unfold Queues
  rw [e]
  exact hpush

/-- `list_add_tail` to `runninglist`. -/
theorem addRunning (hq : Queues h C R N) (hp : p ∈ C) (hR : p ∉ R) (hN : p ∉ N) :
    Queues (listAddTail h (.plist p) .runninglist) C R (N ++ [p]) := by
  have hpush := RingSystem.pushTail hq (i := .running) (plist_mem_procNodes.mpr hp) (not_on hR hN)
  have e : (fun i => (queueLists R (N ++ [p]) i).map QNode.plist) = Function.update
      (fun i => (queueLists R N i).map QNode.plist) .running (N.map QNode.plist ++ [QNode.plist p]) := by
    funext i
    cases i
    · rw [Function.update_of_ne (by decide)]
      rfl
    · rw [Function.update_self]
      simp [queueLists]
  unfold Queues
  rw [e]
  exact hpush

/-- Unlinking a process and putting it at the end of `runnablelist`. -/
theorem requeue (hq : Queues h C R N) (hp : p ∈ C) :
    Queues (listAddTail (listDel h (.plist p)) (.plist p) .runnablelist) C (R.erase p ++ [p]) (N.erase p) :=
  (hq.del hp).addRunnable hp hq.nodup.not_mem_erase hq.nodup_running.not_mem_erase

/-- Unlinking a process and putting it at the end of `runninglist`. -/
theorem moveRunning (hq : Queues h C R N) (hp : p ∈ C) :
    Queues (listAddTail (listDel h (.plist p)) (.plist p) .runninglist) C (R.erase p) (N.erase p ++ [p]) :=
  (hq.del hp).addRunning hp hq.nodup.not_mem_erase hq.nodup_running.not_mem_erase

theorem empty_iff (hq : Queues h C R N) : listEmpty h .runnablelist = true ↔ R = [] := by
  unfold listEmpty
  rw [decide_eq_true_iff, hq.runnable_ring.next_eq_head, List.map_eq_nil_iff]

/-- A process nobody has linked yet. -/
theorem create (hq : Queues h C R N) (hp : p ∉ C) :
    Queues (initListHead h (.plist p)) (insert p C) R N := by
  have hne : ∀ i, ∀ n ∈ (queueHead i : QNode P) :: (queueLists R N i).map QNode.plist, n ≠ .plist p := by
    intro i n hn e
    rcases List.mem_cons.mp hn with hn | hn
    · rw [e] at hn
      cases i
      · cases hn
      · cases hn
    · have hin := RingSystem.inside hq i n hn
      rw [e] at hin
      exact hp (plist_mem_procNodes.mp hin)
  have hsame : ∀ n, n ≠ .plist p → initListHead h (.plist p) n = h n :=
    fun n hn => Function.update_of_ne hn ..
  refine ⟨?_, RingSystem.heads hq, ?_, ?_, RingSystem.apart hq, ?_⟩
  · intro i
    exact (RingSystem.ring hq i).congr fun u hu => hsame u (hne i u hu)
  · intro i hm
    obtain ⟨q, -, e⟩ := hm
    cases i
    · cases e
    · cases e
  · intro i n hn
    obtain ⟨q, hq', e⟩ := RingSystem.inside hq i n hn
    exact ⟨q, Set.mem_insert_of_mem p hq', e⟩
  · intro n hn hout
    obtain ⟨q, hq', e⟩ := hn
    subst e
    by_cases hqp : q = p
    · subst hqp
      exact Or.inr (Function.update_self ..)
    · have hC : q ∈ C := Set.mem_of_mem_insert_of_ne hq' hqp
      unfold Loose
      rw [hsame _ fun e => hqp (QNode.plist.inj e)]
      exact RingSystem.loose hq _ (plist_mem_procNodes.mpr hC) hout

end Queues

variable [DecidableEq P]

/-! ## Assignments to descriptors -/

namespace Sched
variable (s : Sched P) (p q : P)

@[simp] theorem setState_state (st : ProcState) :
    ((s.setState p st).proc q).state = if q = p then st else (s.proc q).state := by
  show (Function.update s.proc p _ q).state = _
  by_cases h : q = p
  · subst h
    rw [Function.update_self, if_pos rfl]
  · rw [Function.update_of_ne h, if_neg h]

@[simp] theorem setState_ncli (st : ProcState) : ((s.setState p st).proc q).ncli = (s.proc q).ncli := by
  show (Function.update s.proc p _ q).ncli = _
  by_cases h : q = p
  · subst h
    rw [Function.update_self]
  · rw [Function.update_of_ne h]

/-- An assignment that leaves the state fields alone. -/
theorem setProc_state (f : Proc → Proc) (hf : ∀ x, (f x).state = x.state) :
    ((s.setProc p f).proc q).state = (s.proc q).state := by
  show (Function.update s.proc p _ q).state = _
  by_cases h : q = p
  · subst h
    rw [Function.update_self, hf]
  · rw [Function.update_of_ne h]

/-- An assignment that leaves the nesting counts alone. -/
theorem setProc_ncli (f : Proc → Proc) (hf : ∀ x, (f x).ncli = x.ncli) :
    ((s.setProc p f).proc q).ncli = (s.proc q).ncli := by
  show (Function.update s.proc p _ q).ncli = _
  by_cases h : q = p
  · subst h
    rw [Function.update_self, hf]
  · rw [Function.update_of_ne h]

theorem setProc_self (f : Proc → Proc) : (s.setProc p f).proc p = f (s.proc p) := Function.update_self ..

theorem setProc_ne (f : Proc → Proc) (h : q ≠ p) : (s.setProc p f).proc q = s.proc q :=
  Function.update_of_ne h ..

/-- Two assignments to different fields commute. -/
theorem setProc_comm (f g : Proc → Proc) (h : ∀ x, f (g x) = g (f x)) :
    (s.setProc p f).setProc q g = (s.setProc q g).setProc p f := by
  unfold setProc
  by_cases e : p = q
  · subst e
    simp only [Function.update_self, Function.update_idem, h]
  · simp only [Function.update_of_ne e, Function.update_of_ne (Ne.symm e)]
    rw [Function.update_comm e]

end Sched

/-! ## Critical sections -/

/-- One more level of nesting for the current process. -/
def hold (s : Sched P) : Sched P := s.setProc s.currentproc fun x => { x with ncli := x.ncli + 1 }

/-- Interrupts are off and the current process is in a critical section already. -/
def Held (s : Sched P) : Prop := s.irqOn = false ∧ 0 < (s.proc s.currentproc).ncli

theorem hold_setState (s : Sched P) (p : P) (st : ProcState) : (hold s).setState p st = hold (s.setState p st) :=
  Sched.setProc_comm s s.currentproc p _ _ fun _ => rfl

theorem spinlock_held {s : Sched P} (h : Held s) : spinlock s = .ok () (hold s) := by
  have hne : ¬(s.proc s.currentproc).ncli = 0 := h.2.ne'
  have hoff : { s with irqOn := false } = s := by
    rw [← h.1]
  unfold spinlock irqSave
  simp only [Prog.bind_run, Prog.get_run, Outcome.andThen_ok, Prog.modify_run, hoff]
  simp only [h.1, Bool.false_eq_true, if_false, Prog.bind_run, hne, Outcome.andThen_ok, Prog.modify_run,
    Prog.get_run]
  have hoff' : (s.setProc s.currentproc fun x => { x with ncli := x.ncli + 1 }).irqOn = false := h.1
  simp only [hoff', Bool.false_eq_true, if_false, Prog.pure_run]
  rfl

theorem spinunlock_hold {s : Sched P} (h : Held s) : spinunlock (hold s) = .ok () s := by
  have hback : (hold s).setProc (hold s).currentproc (fun x => { x with ncli := x.ncli - 1 }) = s := by
    show ((s.setProc s.currentproc _).setProc s.currentproc _) = s
    unfold Sched.setProc
    simp only [Function.update_self, Function.update_idem, add_sub_cancel_right, Function.update_eq_self]
  have hneg : ¬(s.proc s.currentproc).ncli < 0 := not_lt.mpr h.2.le
  have hzero : ¬((s.proc s.currentproc).ncli = 0 ∧ (s.proc s.currentproc).intenable = true) :=
    fun hc => h.2.ne' hc.1
  have hoff : (hold s).irqOn = false := h.1
  unfold spinunlock irqRestore
  simp only [Prog.bind_run, Prog.get_run, Outcome.andThen_ok, hoff, Bool.false_eq_true, if_false,
    Prog.modify_run, hback, hneg, hzero, Prog.pure_run]

theorem Held.setState {s : Sched P} (h : Held s) (p : P) (st : ProcState) : Held (s.setState p st) :=
  ⟨h.1, by rw [Sched.setState_ncli]; exact h.2⟩

section Locked
variable {s : Sched P} (p : P)

theorem schedulerEnqueue_held (h : Held s) : schedulerEnqueue p s =
    .ok () (((s.setState p .RUNNABLE).listDelProc p).listAddTailProc p .runnablelist) := by
  have ht : Held (((s.setState p .RUNNABLE).listDelProc p).listAddTailProc p .runnablelist) :=
    h.setState p .RUNNABLE
  unfold schedulerEnqueue schedulerEnqueueUnlocked
  simp only [Prog.bind_run, spinlock_held h, Outcome.andThen_ok, Prog.modify_run, hold_setState]
  exact spinunlock_hold ht

theorem schedulerMarkkernelidle_held (h : Held s) : schedulerMarkkernelidle p s =
    .ok () ((s.setState p .KERNELIDLEPROC).listDelProc p) := by
  have ht : Held ((s.setState p .KERNELIDLEPROC).listDelProc p) := h.setState p .KERNELIDLEPROC
  unfold schedulerMarkkernelidle
  simp only [Prog.bind_run, spinlock_held h, Outcome.andThen_ok, Prog.modify_run, hold_setState]
  exact spinunlock_hold ht

theorem schedulerMarkrunning_held (h : Held s) : schedulerMarkrunning p s =
    .ok () (((s.setState p .RUNNING).listDelProc p).listAddTailProc p .runninglist) := by
  have ht : Held (((s.setState p .RUNNING).listDelProc p).listAddTailProc p .runninglist) :=
    h.setState p .RUNNING
  unfold schedulerMarkrunning
  simp only [Prog.bind_run, spinlock_held h, Outcome.andThen_ok, Prog.modify_run, hold_setState]
  exact spinunlock_hold ht

theorem schedulerDequeue_nil {C : Set P} {N : List P} (h : Held s) (hq : Queues s.links C [] N) :
    schedulerDequeue s = .ok none s := by
  have hempty : listEmpty (hold s).links .runnablelist = true := hq.empty_iff.mpr rfl
  unfold schedulerDequeue
  simp only [Prog.bind_run, spinlock_held h, Outcome.andThen_ok, Prog.get_run, hempty, if_true,
    spinunlock_hold h, Prog.pure_run]

theorem schedulerDequeue_cons {C : Set P} {R N : List P} (h : Held s) (hq : Queues s.links C (p :: R) N) :
    schedulerDequeue s = .ok (some p) (s.listDelProc p) := by
  have hempty : ¬listEmpty (hold s).links .runnablelist = true :=
    fun hc => List.cons_ne_nil p R (hq.empty_iff.mp hc)
  have hnext : ((hold s).links .runnablelist).next = some (.plist p) := hq.next_eq
  have ht : Held (s.listDelProc p) := h
  unfold schedulerDequeue
  simp only [Prog.bind_run, spinlock_held h, Outcome.andThen_ok, Prog.get_run, hempty, Bool.false_eq_true,
    if_false, hnext, Prog.modify_run]
  have hun : spinunlock ((hold s).listDelProc p) = .ok () (s.listDelProc p) := spinunlock_hold ht
  simp only [hun, Outcome.andThen_ok, Prog.pure_run]

end Locked

/-! ## Leaving the CPU and arriving on it -/

/-- What `scheduler_schedule` does with the process it takes off the CPU. -/
def leave (s : Sched P) (c : P) : Sched P :=
  if s.idleproc = some c then (s.setState c .KERNELIDLEPROC).listDelProc c
  else if (s.proc c).state = .RUNNING then
    ((s.setState c .RUNNABLE).listDelProc c).listAddTailProc c .runnablelist
  else s

/-- What it does with the process it puts on the CPU. -/
def arrive (s : Sched P) (p : P) : Sched P :=
  let t := { ((s.setState p .RUNNING).listDelProc p).listAddTailProc p .runninglist with currentproc := p }
  { t.setProc p (fun x => { x with sliceTicks := 2 }) with switches := s.switches + 1 }

/-- The end of the outermost critical section. -/
def leaveSection (s : Sched P) : Sched P :=
  { s.setProc s.currentproc fun x => { x with ncli := x.ncli - 1 } with
    irqOn := (s.proc s.currentproc).intenable }

/-- The end of `scheduler_schedule`. -/
def settle (s : Sched P) : Sched P := leaveSection { s with schedulercounter := s.schedulercounter - 1 }

theorem spinunlock_last {s : Sched P} (hirq : s.irqOn = false) (hn : (s.proc s.currentproc).ncli = 1) :
    spinunlock s = .ok () (leaveSection s) := by
  obtain ⟨u, hu⟩ : ∃ u, u = s.setProc s.currentproc (fun x => { x with ncli := x.ncli - 1 }) := ⟨_, rfl⟩
  have hproc : u.proc u.currentproc = { s.proc s.currentproc with ncli := (s.proc s.currentproc).ncli - 1 } := by
    rw [hu]
    exact Function.update_self ..
  have hzero : (u.proc u.currentproc).ncli = 0 := by
    rw [hproc]
    show (s.proc s.currentproc).ncli - 1 = 0
    rw [hn]
    rfl
  have hint : (u.proc u.currentproc).intenable = (s.proc s.currentproc).intenable := by
    rw [hproc]
  have huirq : u.irqOn = false := by rw [hu]; exact hirq
  have hleave : leaveSection s = { u with irqOn := (s.proc s.currentproc).intenable } := by
    rw [hu]
    rfl
  unfold spinunlock irqRestore
  rw [Prog.bind_run, Prog.get_run, Outcome.andThen_ok, hirq, if_neg Bool.false_ne_true, Prog.bind_run,
    Prog.modify_run, Outcome.andThen_ok, ← hu, Prog.bind_run, Prog.get_run, Outcome.andThen_ok,
    if_neg (by rw [hzero]; decide), hleave]
  cases hen : (s.proc s.currentproc).intenable with
  | true =>
    rw [hen] at hint
    rw [if_pos ⟨hzero, hint⟩, Prog.modify_run]
  | false =>
    rw [hen] at hint
    rw [if_neg (by rw [hint]; simp), Prog.pure_run, ← huirq]

theorem finishSwitch_run {s : Sched P} (hirq : s.irqOn = false) (hn : (s.proc s.currentproc).ncli = 1) :
    finishSwitch s = .ok () (settle s) := by
  unfold finishSwitch
  rw [Prog.bind_run, Prog.modify_run, Outcome.andThen_ok]
  exact spinunlock_last (s := { s with schedulercounter := s.schedulercounter - 1 }) hirq hn

theorem leave_held {s : Sched P} (h : Held s) (c : P) : Held (leave s c) := by
  unfold leave
  split
  · exact h.setState c .KERNELIDLEPROC
  · split
    · exact h.setState c .RUNNABLE
    · exact h

theorem leave_ncli (s : Sched P) (c q : P) : ((leave s c).proc q).ncli = (s.proc q).ncli := by
  unfold leave
  split
  · exact Sched.setState_ncli s c q _
  · split
    · exact Sched.setState_ncli s c q _
    · rfl

theorem arrive_ncli (s : Sched P) (p q : P) : ((arrive s p).proc q).ncli = (s.proc q).ncli := by
  show (Function.update (s.setState p .RUNNING).proc p _ q).ncli = _
  by_cases e : q = p
  · subst e
    rw [Function.update_self]
    exact Sched.setState_ncli s q q _
  · rw [Function.update_of_ne e]
    exact Sched.setState_ncli s p q _

theorem schedulerRetire_held {s : Sched P} (c : P) (h : Held s) : schedulerRetire c s = .ok () (leave s c) := by
  unfold schedulerRetire leave
  rw [Prog.bind_run, Prog.get_run, Outcome.andThen_ok]
  split
  · exact schedulerMarkkernelidle_held c h
  · split
    · exact schedulerEnqueue_held c h
    · rfl

/-- The switch, as one function of the state. -/
theorem schedulerSwitchTo_run {s : Sched P} (h : Held s) (c p : P) (hp : (s.proc p).ncli = 1) :
    schedulerSwitchTo c p s = .ok () (settle (arrive (leave s c) p)) := by
  have hh := leave_held h c
  unfold schedulerSwitchTo
  rw [Prog.bind_run, schedulerRetire_held c h, Outcome.andThen_ok,
    Prog.bind_run, schedulerMarkrunning_held p hh, Outcome.andThen_ok, Prog.bind_run, Prog.modify_run,
    Outcome.andThen_ok]
  unfold schedulerSwitchProcess
  rw [Prog.bind_run, Prog.bind_run, Prog.modify_run, Outcome.andThen_ok, Prog.modify_run, Outcome.andThen_ok]
  refine finishSwitch_run (s := arrive (leave s c) p) hh.1 ?_
  show ((arrive (leave s c) p).proc p).ncli = 1
  rw [arrive_ncli, leave_ncli, hp]

/-! ## The tick -/

/-- The outermost critical section of the current process begins. -/
def enterSection (s : Sched P) : Sched P :=
  { s.setProc s.currentproc fun x => { x with intenable := s.irqOn, ncli := x.ncli + 1 } with irqOn := false }

/-- The state inside `scheduler_schedule`, after its lock. -/
def lockSched (s : Sched P) : Sched P :=
  { enterSection s with schedulercounter := s.schedulercounter + 1 }

theorem spinlock_first {s : Sched P} (hn : (s.proc s.currentproc).ncli = 0) :
    spinlock s = .ok () (enterSection s) := by
  unfold spinlock irqSave enterSection
  simp only [Prog.bind_run, Prog.get_run, Outcome.andThen_ok, Prog.modify_run, Bool.false_eq_true, if_false,
    hn, if_true]
  have hirq : ∀ (f g : Proc → Proc), ((({ s with irqOn := false } : Sched P).setProc s.currentproc f).setProc
      s.currentproc g).irqOn = false := fun _ _ => rfl
  have hcur : ∀ f : Proc → Proc, (({ s with irqOn := false } : Sched P).setProc s.currentproc f).currentproc =
      s.currentproc := fun _ => rfl
  simp only [hcur, hirq, Bool.false_eq_true, if_false, Prog.pure_run]
  unfold Sched.setProc
  simp only [Function.update_self, Function.update_idem]

/-- The state between two calls: the current process is in no critical section, every other process
stopped inside one. -/
structure Ready (s : Sched P) (C : Set P) (R N : List P) : Prop where
  queues : Queues s.links C R N
  current : s.currentproc ∈ C
  ncli : ∀ q ∈ C, (s.proc q).ncli = if q = s.currentproc then 0 else 1
  counter : s.schedulercounter = 0

/-- Nothing a queue or a state field shows has changed. -/
structure SameView (s t : Sched P) : Prop where
  links : t.links = s.links
  currentproc : t.currentproc = s.currentproc
  idleproc : t.idleproc = s.idleproc
  switches : t.switches = s.switches
  state : ∀ q, (t.proc q).state = (s.proc q).state

omit [DecidableEq P] in
theorem SameView.trans {s t u : Sched P} (h : SameView s t) (h' : SameView t u) : SameView s u where
  links := h'.links.trans h.links
  currentproc := h'.currentproc.trans h.currentproc
  idleproc := h'.idleproc.trans h.idleproc
  switches := h'.switches.trans h.switches
  state q := (h'.state q).trans (h.state q)

/-- The beginning of the tick: interrupts off, one tick of the slice used. -/
def countdown (s : Sched P) : Sched P :=
  let t := { s with irqOn := false, ticks := (s.ticks + 1) % 2 ^ 64 }
  if (s.proc s.currentproc).sliceTicks > 0 then
    t.setProc s.currentproc fun x => { x with sliceTicks := x.sliceTicks - 1 }
  else t

theorem countdown_view (s : Sched P) : SameView s (countdown s) := by
  unfold countdown
  simp only
  split
  · exact ⟨rfl, rfl, rfl, rfl, fun q => Sched.setProc_state _ _ q _ fun _ => rfl⟩
  · exact ⟨rfl, rfl, rfl, rfl, fun _ => rfl⟩

theorem countdown_ncli (s : Sched P) (q : P) : ((countdown s).proc q).ncli = (s.proc q).ncli := by
  unfold countdown
  simp only
  split
  · exact Sched.setProc_ncli _ _ q _ fun _ => rfl
  · rfl

theorem countdown_counter (s : Sched P) : (countdown s).schedulercounter = s.schedulercounter := by
  unfold countdown
  simp only
  split
  · rfl
  · rfl

theorem timerInterrupt_eq {s : Sched P} (hn : (s.proc s.currentproc).ncli = 0) :
    timerInterrupt s = (schedulerSchedule (countdown s)).andThen
      fun _ => Prog.modify fun t => { t with irqOn := true } := by
  have hn' : ((countdown s).proc s.currentproc).ncli = 0 := by rw [countdown_ncli, hn]
  unfold timerInterrupt irqCpuLocaltimerTickCb
  unfold countdown at hn' ⊢
  simp only at hn' ⊢
  by_cases hs : (s.proc s.currentproc).sliceTicks > 0
  · rw [if_pos hs] at hn' ⊢
    simp only [Prog.bind_run, Prog.get_run, Outcome.andThen_ok, Prog.modify_run, hs, if_true, hn']
  · rw [if_neg hs] at hn' ⊢
    simp only [Prog.bind_run, Prog.get_run, Outcome.andThen_ok, Prog.modify_run, hs, if_false, hn, if_true]

section Schedule
variable {s : Sched P} {C : Set P} {R N : List P}

theorem lockSched_ncli (s : Sched P) (q : P) : ((lockSched s).proc q).ncli =
    if q = s.currentproc then (s.proc q).ncli + 1 else (s.proc q).ncli := by
  show ((s.setProc s.currentproc fun x => { x with intenable := s.irqOn, ncli := x.ncli + 1 }).proc q).ncli = _
  by_cases h : q = s.currentproc
  · rw [if_pos h, h, Sched.setProc_self]
  · rw [if_neg h, Sched.setProc_ne s _ q _ h]

theorem settle_ncli (s : Sched P) (q : P) : ((settle s).proc q).ncli =
    if q = s.currentproc then (s.proc q).ncli - 1 else (s.proc q).ncli := by
  show ((s.setProc s.currentproc fun x => { x with ncli := x.ncli - 1 }).proc q).ncli = _
  by_cases h : q = s.currentproc
  · rw [if_pos h, h, Sched.setProc_self]
  · rw [if_neg h, Sched.setProc_ne s _ q _ h]

theorem lockSched_held (hn : (s.proc s.currentproc).ncli = 0) : Held (lockSched s) := by
  refine ⟨rfl, ?_⟩
  show 0 < ((lockSched s).proc s.currentproc).ncli
  rw [lockSched_ncli, if_pos rfl, hn]
  decide

theorem lockSched_view (s : Sched P) : SameView s (lockSched s) :=
  ⟨rfl, rfl, rfl, rfl, fun q => Sched.setProc_state s s.currentproc q
    (fun x => { x with intenable := s.irqOn, ncli := x.ncli + 1 }) fun _ => rfl⟩

theorem settle_view (s : Sched P) : SameView s (settle s) :=
  ⟨rfl, rfl, rfl, rfl, fun q => Sched.setProc_state s s.currentproc q
    (fun x => { x with ncli := x.ncli - 1 }) fun _ => rfl⟩

theorem schedulerSchedule_eq (hn : (s.proc s.currentproc).ncli = 0) (hc : s.schedulercounter = 0) :
    schedulerSchedule s = (if ((lockSched s).proc s.currentproc).sliceTicks = 0 then do
        let dequeued ← schedulerDequeue
        match dequeued with
        | some p => schedulerSwitchTo s.currentproc p
        | none => do
          let t ← Prog.get
          if (t.proc s.currentproc).state = .RUNNING then finishSwitch
          else
            match t.idleproc with
            | some p => schedulerSwitchTo s.currentproc p
            | none => Prog.panic "Nothing to switch to!\n"
      else finishSwitch : Prog (Sched P) Unit) (lockSched s) := by
  have hlock : { enterSection s with schedulercounter := (enterSection s).schedulercounter + 1 } = lockSched s := rfl
  have hone : ¬(lockSched s).schedulercounter ≠ 1 := by
    show ¬s.schedulercounter + 1 ≠ 1
    rw [hc]
    decide
  unfold schedulerSchedule
  rw [Prog.bind_run, spinlock_first hn, Outcome.andThen_ok, Prog.bind_run, Prog.modify_run,
    Outcome.andThen_ok, hlock, Prog.bind_run, Prog.get_run, Outcome.andThen_ok, if_neg hone]
  rfl

theorem schedulerSchedule_keep (hn : (s.proc s.currentproc).ncli = 0) (hc : s.schedulercounter = 0)
    (hq : Queues s.links C R N)
    (hkeep : ((lockSched s).proc s.currentproc).sliceTicks ≠ 0 ∨
      R = [] ∧ (s.proc s.currentproc).state = .RUNNING) :
    schedulerSchedule s = .ok () (settle (lockSched s)) := by
  have hh := lockSched_held hn
  have hone : ((lockSched s).proc (lockSched s).currentproc).ncli = 1 := by
    show ((lockSched s).proc s.currentproc).ncli = 1
    rw [lockSched_ncli, if_pos rfl, hn]
    rfl
  have hfin := finishSwitch_run hh.1 hone
  rw [schedulerSchedule_eq hn hc]
  by_cases hz : ((lockSched s).proc s.currentproc).sliceTicks = 0
  · rcases hkeep with hk | ⟨hR, hrun⟩
    · exact absurd hz hk
    · subst hR
      have hst : ((lockSched s).proc s.currentproc).state = .RUNNING := by
        rw [(lockSched_view s).state]
        exact hrun
      rw [if_pos hz, Prog.bind_run, schedulerDequeue_nil hh hq, Outcome.andThen_ok]
      simp only
      rw [Prog.bind_run, Prog.get_run, Outcome.andThen_ok, if_pos hst]
      exact hfin
  · rw [if_neg hz]
    exact hfin

theorem schedulerSchedule_switch {p : P} (hn : (s.proc s.currentproc).ncli = 0) (hc : s.schedulercounter = 0)
    (hq : Queues s.links C (p :: R) N) (hz : ((lockSched s).proc s.currentproc).sliceTicks = 0)
    (hp : ((lockSched s).proc p).ncli = 1) :
    schedulerSchedule s =
      .ok () (settle (arrive (leave ((lockSched s).listDelProc p) s.currentproc) p)) := by
  have hh := lockSched_held hn
  rw [schedulerSchedule_eq hn hc, if_pos hz, Prog.bind_run, schedulerDequeue_cons p hh hq, Outcome.andThen_ok]
  exact schedulerSwitchTo_run (s := (lockSched s).listDelProc p) hh s.currentproc p hp

/-- The queue after a switch from `c` to `p`, where `R` is what `p` was taken from the head of. -/
def afterSwitch (s : Sched P) (c p : P) (R : List P) : List P :=
  if s.idleproc = some c then (R.erase c).erase p
  else if (s.proc c).state = .RUNNING then (R.erase c ++ [c]).erase p
  else R.erase p

/-- The state field of the process that was switched away from. -/
def retiredState (s : Sched P) (c : P) : ProcState :=
  if s.idleproc = some c then .KERNELIDLEPROC
  else if (s.proc c).state = .RUNNING then .RUNNABLE
  else (s.proc c).state

/-- What a switch from the current process to `p` changes, the queues apart. -/
structure Switched (s s' : Sched P) (p : P) : Prop where
  currentproc : s'.currentproc = p
  idleproc : s'.idleproc = s.idleproc
  switches : s'.switches = s.switches + 1
  state : ∀ q, (s'.proc q).state =
    if q = p then .RUNNING else if q = s.currentproc then retiredState s s.currentproc else (s.proc q).state

theorem leave_queues {c : P} (hq : Queues s.links C R N) (hc : c ∈ C) :
    ∃ N', Queues (leave s c).links C (if s.idleproc = some c then R.erase c
      else if (s.proc c).state = .RUNNING then R.erase c ++ [c] else R) N' := by
  unfold leave
  split
  · exact ⟨N.erase c, hq.del hc⟩
  · split
    · exact ⟨N.erase c, hq.requeue hc⟩
    · exact ⟨N, hq⟩

theorem leave_state (s : Sched P) (c q : P) : ((leave s c).proc q).state =
    if q = c then retiredState s c else (s.proc q).state := by
  unfold leave retiredState
  split
  · exact Sched.setState_state s c q _
  · split
    · exact Sched.setState_state s c q _
    · split
      · next e => rw [e]
      · rfl

/-- Leaving touches neither the idle process nor the counters. -/
theorem leave_frame (s : Sched P) (c : P) : (leave s c).idleproc = s.idleproc ∧
    (leave s c).switches = s.switches ∧ (leave s c).schedulercounter = s.schedulercounter := by
  unfold leave
  split
  · exact ⟨rfl, rfl, rfl⟩
  · split
    · exact ⟨rfl, rfl, rfl⟩
    · exact ⟨rfl, rfl, rfl⟩

theorem arrive_queues {p : P} (hq : Queues s.links C R N) (hp : p ∈ C) :
    ∃ N', Queues (arrive s p).links C (R.erase p) N' :=
  ⟨_, hq.moveRunning hp⟩

theorem arrive_state (s : Sched P) (p q : P) : ((arrive s p).proc q).state =
    if q = p then .RUNNING else (s.proc q).state := by
  show (({ ((s.setState p .RUNNING).listDelProc p).listAddTailProc p .runninglist with
    currentproc := p } : Sched P).setProc p (fun x => { x with sliceTicks := 2 }) |>.proc q).state = _
  rw [Sched.setProc_state _ _ _ (fun x => { x with sliceTicks := 2 }) fun _ => rfl]
  exact Sched.setState_state s p q _

end Schedule

/-- **Every outcome of a tick**: nothing happens to the queues, or the head of `runnablelist` takes the
CPU. -/
theorem timerInterrupt_spec {s : Sched P} {C : Set P} {R N : List P} (h : Ready s C R N)
    (hrun : R = [] → (s.proc s.currentproc).state = .RUNNING) :
    (∃ s', timerInterrupt s = .ok () s' ∧ Ready s' C R N ∧ SameView s s') ∨
    ∃ s' p R' N', R = p :: R' ∧ timerInterrupt s = .ok () s' ∧
      Ready s' C (afterSwitch s s.currentproc p R') N' ∧ Switched s s' p := by
  have hn : (s.proc s.currentproc).ncli = 0 := by
    rw [h.ncli _ h.current, if_pos rfl]
  have hview := countdown_view s
  obtain ⟨t, ht⟩ : ∃ t, t = countdown s := ⟨_, rfl⟩
  rw [← ht] at hview
  have htn : ∀ q, (t.proc q).ncli = (s.proc q).ncli := fun q => by rw [ht]; exact countdown_ncli s q
  have htc : t.schedulercounter = 0 := by rw [ht, countdown_counter, h.counter]
  have htq : Queues t.links C R N := by rw [hview.links]; exact h.queues
  have htn0 : (t.proc t.currentproc).ncli = 0 := by rw [htn, hview.currentproc, hn]
  have heq := timerInterrupt_eq hn
  rw [← ht] at heq
  -- all processes are inside a critical section while the scheduler runs
  have hlock : ∀ q ∈ C, ((lockSched t).proc q).ncli = 1 := by
    intro q hq
    rw [lockSched_ncli, htn, h.ncli q hq, hview.currentproc]
    split
    · rfl
    · rfl
  by_cases hkeep : ((lockSched t).proc t.currentproc).sliceTicks ≠ 0 ∨
      R = [] ∧ (t.proc t.currentproc).state = .RUNNING
  · left
    refine ⟨{ settle (lockSched t) with irqOn := true }, ?_, ?_, ?_⟩
    · rw [heq, schedulerSchedule_keep htn0 htc htq hkeep]
      rfl
    · refine ⟨htq, ?_, ?_, ?_⟩
      · show t.currentproc ∈ C
        rw [hview.currentproc]
        exact h.current
      · intro q hq
        show ((settle (lockSched t)).proc q).ncli = if q = t.currentproc then 0 else 1
        rw [settle_ncli, hlock q hq]
        rfl
      · show t.schedulercounter + 1 - 1 = 0
        rw [htc]
        rfl
    · have hv := (hview.trans (lockSched_view t)).trans (settle_view (lockSched t))
      exact ⟨hv.links, hv.currentproc, hv.idleproc, hv.switches, hv.state⟩
  · right
    push Not at hkeep
    obtain ⟨hz, hne⟩ := hkeep
    have hR : R ≠ [] := fun e => hne e (by rw [hview.state, hview.currentproc]; exact hrun e)
    obtain ⟨p, R', rfl⟩ := List.exists_cons_of_ne_nil hR
    have hpC : p ∈ C := htq.mem_created List.mem_cons_self
    obtain ⟨u, hu⟩ : ∃ u, u = (lockSched t).listDelProc p := ⟨_, rfl⟩
    have huview : u.currentproc = s.currentproc ∧ u.idleproc = s.idleproc ∧ u.switches = s.switches ∧
        ∀ q, (u.proc q).state = (s.proc q).state := by
      have hv := hview.trans (lockSched_view t)
      rw [hu]
      exact ⟨hv.currentproc, hv.idleproc, hv.switches, hv.state⟩
    have huq : Queues u.links C R' (N.erase p) := by
      have hd := htq.del hpC
      rw [List.erase_cons_head] at hd
      rw [hu]
      exact hd
    obtain ⟨N₁, hq₁⟩ := leave_queues huq h.current
    obtain ⟨N₂, hq₂⟩ := arrive_queues hq₁ hpC
    have hrunT : timerInterrupt s =
        .ok () { settle (arrive (leave u s.currentproc) p) with irqOn := true } := by
      rw [heq, schedulerSchedule_switch htn0 htc htq hz (hlock p hpC), Outcome.andThen_ok, ← hu,
        hview.currentproc]
      rfl
    refine ⟨_, p, R', N₂, rfl, hrunT, ?_, ?_⟩
    · refine ⟨?_, hpC, ?_, ?_⟩
      · show Queues (arrive (leave u s.currentproc) p).links C _ N₂
        have hafter : afterSwitch s s.currentproc p R' = (if u.idleproc = some s.currentproc then
            R'.erase s.currentproc else if (u.proc s.currentproc).state = .RUNNING then
              R'.erase s.currentproc ++ [s.currentproc] else R').erase p := by
          unfold afterSwitch
          rw [huview.2.1, huview.2.2.2]
          split
          · rfl
          · split
            · rfl
            · rfl
        rw [hafter]
        exact hq₂
      · intro q hq
        show ((settle (arrive (leave u s.currentproc) p)).proc q).ncli = if q = p then 0 else 1
        have hone : ((arrive (leave u s.currentproc) p).proc q).ncli = 1 := by
          rw [arrive_ncli, leave_ncli, hu]
          exact hlock q hq
        rw [settle_ncli, hone]
        rfl
      · show (leave u s.currentproc).schedulercounter - 1 = 0
        rw [(leave_frame u s.currentproc).2.2, hu]
        show t.schedulercounter + 1 - 1 = 0
        rw [htc]
        rfl
    · refine ⟨rfl, ?_, ?_, ?_⟩
      · show (leave u s.currentproc).idleproc = s.idleproc
        rw [(leave_frame u s.currentproc).1, huview.2.1]
      · show (leave u s.currentproc).switches + 1 = s.switches + 1
        rw [(leave_frame u s.currentproc).2.1, huview.2.2.1]
      · intro q
        show ((settle (arrive (leave u s.currentproc) p)).proc q).state = _
        rw [(settle_view _).state, arrive_state, leave_state, huview.2.2.2]
        have hret : retiredState u s.currentproc = retiredState s s.currentproc := by
          unfold retiredState
          rw [huview.2.1, huview.2.2.2]
        rw [hret]

/-- `scheduler_enqueue` of any created process, from outside the scheduler. -/
theorem schedulerEnqueue_spec {s : Sched P} {C : Set P} {R N : List P} (h : Ready s C R N) {q : P} (hq : q ∈ C) :
    ∃ s', schedulerEnqueue q s = .ok () s' ∧ Ready s' C (R.erase q ++ [q]) (N.erase q) ∧
      s'.currentproc = s.currentproc ∧ s'.idleproc = s.idleproc ∧ s'.switches = s.switches ∧
      ∀ x, (s'.proc x).state = if x = q then .RUNNABLE else (s.proc x).state := by
  have hn : (s.proc s.currentproc).ncli = 0 := by
    rw [h.ncli _ h.current, if_pos rfl]
  obtain ⟨t, ht⟩ : ∃ t, t = (((enterSection s).setState q .RUNNABLE).listDelProc q).listAddTailProc q
    .runnablelist := ⟨_, rfl⟩
  have hcur : t.currentproc = s.currentproc := by rw [ht]; rfl
  have htirq : t.irqOn = false := by rw [ht]; rfl
  have htn : ∀ x, (t.proc x).ncli = if x = s.currentproc then (s.proc x).ncli + 1 else (s.proc x).ncli := by
    intro x
    rw [ht]
    show (((enterSection s).setState q .RUNNABLE).proc x).ncli = _
    rw [Sched.setState_ncli]
    exact lockSched_ncli s x
  have hone : (t.proc t.currentproc).ncli = 1 := by
    rw [hcur, htn, if_pos rfl, hn]
    rfl
  have hrun : schedulerEnqueue q s = .ok () (leaveSection t) := by
    unfold schedulerEnqueue schedulerEnqueueUnlocked
    rw [Prog.bind_run, spinlock_first hn, Outcome.andThen_ok, Prog.bind_run, Prog.bind_run, Prog.modify_run,
      Outcome.andThen_ok, Prog.bind_run, Prog.modify_run, Outcome.andThen_ok, Prog.modify_run,
      Outcome.andThen_ok, ← ht]
    exact spinunlock_last htirq hone
  refine ⟨leaveSection t, hrun, ⟨?_, ?_, ?_, ?_⟩, hcur, by rw [ht]; rfl, by rw [ht]; rfl, ?_⟩
  · show Queues t.links C _ _
    rw [ht]
    exact h.queues.requeue hq
  · show t.currentproc ∈ C
    rw [hcur]
    exact h.current
  · intro x hx
    show ((settle { t with schedulercounter := t.schedulercounter + 1 }).proc x).ncli =
      if x = t.currentproc then 0 else 1
    rw [settle_ncli]
    show (if x = t.currentproc then (t.proc x).ncli - 1 else (t.proc x).ncli) = _
    rw [htn, h.ncli x hx, hcur]
    split
    · rfl
    · rfl
  · show t.schedulercounter = 0
    rw [ht]
    exact h.counter
  · intro x
    show ((t.setProc t.currentproc fun y => { y with ncli := y.ncli - 1 }).proc x).state = _
    rw [Sched.setProc_state t t.currentproc x (fun y => { y with ncli := y.ncli - 1 }) fun _ => rfl, ht]
    show (((enterSection s).setState q .RUNNABLE).proc x).state = _
    rw [Sched.setState_state]
    show (if x = q then ProcState.RUNNABLE else ((lockSched s).proc x).state) = _
    rw [(lockSched_view s).state]

theorem procCreate_ne {s : Sched P} {p x : P} (hx : x ≠ p) : (procCreate p s).proc x = s.proc x :=
  Function.update_of_ne hx ..

theorem procCreate_ready {s : Sched P} {C : Set P} {R N : List P} (h : Ready s C R N) {p : P} (hp : p ∉ C) :
    Ready (procCreate p s) (insert p C) R N := by
  have hcur : s.currentproc ≠ p := fun e => hp (e ▸ h.current)
  refine ⟨h.queues.create hp, Set.mem_insert_of_mem p h.current, ?_, h.counter⟩
  intro q hq
  show ((procCreate p s).proc q).ncli = if q = s.currentproc then 0 else 1
  by_cases e : q = p
  · subst e
    rw [if_neg (Ne.symm hcur)]
    show (Function.update s.proc q preparedProc q).ncli = 1
    rw [Function.update_self]
    rfl
  · rw [procCreate_ne e]
    exact h.ncli q (Set.mem_of_mem_insert_of_ne hq e)

end Borgos.Kcore
