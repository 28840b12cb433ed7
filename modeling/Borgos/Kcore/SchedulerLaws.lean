import Borgos.Kcore.SchedulerSpec

/-! # The scheduler over whole runs

A run begins with one running process and empty queues. It ticks, creates processes and enqueues them,
and at one point makes the current process the idle process. `scheduler_discipline` is the invariant of
all states of such a run; `round_robin` is the order in which a queued process gets the CPU.
-/
namespace Borgos.Kcore
open Borgos.Foundations Borgos.Foundations.Intrusive
set_option autoImplicit false

variable {P : Type} [DecidableEq P]

/-! ## Runs -/

/-- The scheduler with the processes created so far and, among them, those not enqueued yet. -/
structure SchedSystem (P : Type) where
  sched : Sched P
  created : Set P
  embryos : Set P

inductive SchedStep (a : SchedSystem P) : SchedSystem P → Prop
  | tick (s' : Sched P) (h : timerInterrupt a.sched = .ok () s') : SchedStep a ⟨s', a.created, a.embryos⟩
  | create (p : P) (h : p ∉ a.created) :
      SchedStep a ⟨procCreate p a.sched, insert p a.created, insert p a.embryos⟩
  | enqueue (p : P) (s' : Sched P) (hp : p ∈ a.embryos) (h : schedulerEnqueue p a.sched = .ok () s') :
      SchedStep a ⟨s', a.created, a.embryos \ {p}⟩
  | idle (h : a.sched.idleproc = none) :
      SchedStep a ⟨{ a.sched with idleproc := some a.sched.currentproc }, a.created, a.embryos⟩

def SchedRun : SchedSystem P → SchedSystem P → Prop := Relation.ReflTransGen SchedStep

/-- After `scheduler_init`, with one process, which is running. -/
structure BootSched (s : Sched P) : Prop where
  runnablelist : s.links .runnablelist = ⟨some .runnablelist, some .runnablelist⟩
  runninglist : s.links .runninglist = ⟨some .runninglist, some .runninglist⟩
  plist : Loose s.links (.plist s.currentproc)
  state : (s.proc s.currentproc).state = .RUNNING
  ncli : (s.proc s.currentproc).ncli = 0
  counter : s.schedulercounter = 0
  idleproc : s.idleproc = none

def bootSystem (s : Sched P) : SchedSystem P := ⟨s, {s.currentproc}, ∅⟩

/-- The processes on `runnablelist`, in order. -/
def Sched.Runnable (s : Sched P) (R : List P) : Prop := IsRing s.links .runnablelist (R.map QNode.plist)

/-- The processes on `runninglist`, in order. -/
def Sched.Running (s : Sched P) (N : List P) : Prop := IsRing s.links .runninglist (N.map QNode.plist)

/-! ## The invariant -/

structure SchedSystem.Inv (a : SchedSystem P) (R N : List P) : Prop where
  ready : Ready a.sched a.created R N
  running : (a.sched.proc a.sched.currentproc).state = .RUNNING
  runnable_iff : ∀ p ∈ a.created, p ∈ R ↔ (a.sched.proc p).state = .RUNNABLE
  embryos : ∀ p ∈ a.embryos, p ∈ a.created ∧ p ≠ a.sched.currentproc ∧ a.sched.idleproc ≠ some p ∧
    (a.sched.proc p).state = .EMBRYO
  kept : ∀ p ∈ a.created, p ∉ a.embryos → p ∈ R ∨ p = a.sched.currentproc ∨ a.sched.idleproc = some p
  idle : ∀ p, a.sched.idleproc = some p → p ∈ a.created

namespace SchedSystem.Inv
variable {a : SchedSystem P} {R N : List P}

theorem current_off (h : a.Inv R N) : a.sched.currentproc ∉ R := by
  intro hm
  have hs := (h.runnable_iff _ h.ready.current).mp hm
  rw [h.running] at hs
  cases hs

/-- A switch from the current process to the head of the queue. -/
theorem switch {p : P} {s' : Sched P} {N' : List P} (h : a.Inv (p :: R) N)
    (hready : Ready s' a.created (afterSwitch a.sched a.sched.currentproc p R) N')
    (hsw : Switched a.sched s' p) :
    SchedSystem.Inv ⟨s', a.created, a.embryos⟩ (afterSwitch a.sched a.sched.currentproc p R) N' := by
  have hnd := List.nodup_cons.mp h.ready.queues.nodup
  have hcp : a.sched.currentproc ≠ p := fun e => h.current_off (e ▸ List.mem_cons_self)
  have hcR : a.sched.currentproc ∉ R := fun hm => h.current_off (List.mem_cons_of_mem p hm)
  have hpC : p ∈ a.created := h.ready.queues.mem_created List.mem_cons_self
  -- the queue loses its head, and the old process goes to the end unless it is the idle process
  have hafter : afterSwitch a.sched a.sched.currentproc p R =
      if a.sched.idleproc = some a.sched.currentproc then R else R ++ [a.sched.currentproc] := by
    unfold afterSwitch
    rw [if_pos h.running, List.erase_of_not_mem hcR, List.erase_of_not_mem hnd.1, List.erase_of_not_mem]
    intro hm
    rcases List.mem_append.mp hm with hm | hm
    · exact hnd.1 hm
    · exact hcp (List.mem_singleton.mp hm).symm
  have hold : ∀ q, q ≠ p → q ≠ a.sched.currentproc →
      ((s'.proc q).state = (a.sched.proc q).state ∧
        (q ∈ afterSwitch a.sched a.sched.currentproc p R ↔ q ∈ p :: R)) := by
    intro q hqp hqc
    constructor
    · rw [hsw.state, if_neg hqp, if_neg hqc]
    · rw [hafter]
      split
      · simp [hqp]
      · simp [hqp, hqc]
  have hpout : p ∉ afterSwitch a.sched a.sched.currentproc p R := by
    rw [hafter]
    split
    · exact hnd.1
    · simp [hnd.1, Ne.symm hcp]
  refine ⟨hready, ?_, ?_, ?_, ?_, ?_⟩
  · show (s'.proc s'.currentproc).state = .RUNNING
    rw [hsw.currentproc, hsw.state, if_pos rfl]
  · intro q hq
    show _ ↔ (s'.proc q).state = .RUNNABLE
    by_cases hqp : q = p
    · subst hqp
      rw [hsw.state, if_pos rfl]
      simp [hpout]
    · by_cases hqc : q = a.sched.currentproc
      · rw [hqc, hsw.state, if_neg hcp, if_pos rfl, hafter]
        unfold retiredState
        rw [if_pos h.running]
        split
        · simp [hcR]
        · simp
      · rw [(hold q hqp hqc).1, (hold q hqp hqc).2]
        exact h.runnable_iff q hq
  · intro q hq
    obtain ⟨hqC, hqc, hqi, hqs⟩ := h.embryos q hq
    have hqp : q ≠ p := by
      intro e
      have hs := (h.runnable_iff q hqC).mp (e ▸ List.mem_cons_self)
      rw [hqs] at hs
      cases hs
    refine ⟨hqC, ?_, ?_, ?_⟩
    · show q ≠ s'.currentproc
      rw [hsw.currentproc]
      exact hqp
    · show s'.idleproc ≠ some q
      rw [hsw.idleproc]
      exact hqi
    · show (s'.proc q).state = .EMBRYO
      rw [(hold q hqp hqc).1]
      exact hqs
  · intro q hq hqe
    show _ ∨ q = s'.currentproc ∨ s'.idleproc = some q
    rw [hsw.currentproc, hsw.idleproc]
    by_cases hqp : q = p
    · exact Or.inr (Or.inl hqp)
    · by_cases hqc : q = a.sched.currentproc
      · rw [hqc, hafter]
        split
        · next e => exact Or.inr (Or.inr e)
        · exact Or.inl (by simp)
      · rw [(hold q hqp hqc).2]
        rcases h.kept q hq hqe with hk | hk | hk
        · exact Or.inl hk
        · exact absurd hk hqc
        · exact Or.inr (Or.inr hk)
  · intro q hq
    refine h.idle q ?_
    rw [← hsw.idleproc]
    exact hq

/-- Every tick returns and keeps the invariant. -/
theorem tick (h : a.Inv R N) : ∃ s' R' N', timerInterrupt a.sched = .ok () s' ∧
    SchedSystem.Inv ⟨s', a.created, a.embryos⟩ R' N' := by
  rcases timerInterrupt_spec h.ready fun _ => h.running with
    ⟨s', hrun, hready, hv⟩ | ⟨s', p, R', N', hR, hrun, hready, hsw⟩
  · refine ⟨s', R, N, hrun, hready, ?_, ?_, ?_, ?_, ?_⟩
    · show (s'.proc s'.currentproc).state = .RUNNING
      rw [hv.currentproc, hv.state]
      exact h.running
    · intro p hp
      show _ ↔ (s'.proc p).state = .RUNNABLE
      rw [hv.state]
      exact h.runnable_iff p hp
    · intro p hp
      show p ∈ a.created ∧ p ≠ s'.currentproc ∧ s'.idleproc ≠ some p ∧ (s'.proc p).state = .EMBRYO
      rw [hv.currentproc, hv.idleproc, hv.state]
      exact h.embryos p hp
    · intro p hp hpe
      show _ ∨ p = s'.currentproc ∨ s'.idleproc = some p
      rw [hv.currentproc, hv.idleproc]
      exact h.kept p hp hpe
    · intro p hp
      refine h.idle p ?_
      rw [← hv.idleproc]
      exact hp
  · subst hR
    exact ⟨s', _, N', hrun, h.switch hready hsw⟩

theorem create (h : a.Inv R N) {p : P} (hp : p ∉ a.created) :
    SchedSystem.Inv ⟨procCreate p a.sched, insert p a.created, insert p a.embryos⟩ R N := by
  have hcur : a.sched.currentproc ≠ p := fun e => hp (e ▸ h.ready.current)
  have hself : (procCreate p a.sched).proc p = preparedProc := Function.update_self ..
  refine ⟨procCreate_ready h.ready hp, ?_, ?_, ?_, ?_, ?_⟩
  · show ((procCreate p a.sched).proc a.sched.currentproc).state = .RUNNING
    rw [procCreate_ne hcur]
    exact h.running
  · intro q hq
    show _ ↔ ((procCreate p a.sched).proc q).state = .RUNNABLE
    by_cases e : q = p
    · subst e
      rw [hself]
      have hR : q ∉ R := fun hm => hp (h.ready.queues.mem_created hm)
      simp [hR, preparedProc]
    · rw [procCreate_ne e]
      exact h.runnable_iff q (Set.mem_of_mem_insert_of_ne hq e)
  · intro q hq
    show q ∈ insert p a.created ∧ q ≠ a.sched.currentproc ∧ a.sched.idleproc ≠ some q ∧
      ((procCreate p a.sched).proc q).state = .EMBRYO
    by_cases e : q = p
    · subst e
      rw [hself]
      exact ⟨Set.mem_insert q _, Ne.symm hcur, fun hi => hp (h.idle q hi), rfl⟩
    · rw [procCreate_ne e]
      obtain ⟨hqC, hrest⟩ := h.embryos q (Set.mem_of_mem_insert_of_ne hq e)
      exact ⟨Set.mem_insert_of_mem p hqC, hrest⟩
  · intro q hq hqe
    have e : q ≠ p := by
      intro e
      rw [e] at hqe
      exact hqe (Set.mem_insert p _)
    exact h.kept q (Set.mem_of_mem_insert_of_ne hq e) fun hm => hqe (Set.mem_insert_of_mem p hm)
  · intro q hq
    exact Set.mem_insert_of_mem p (h.idle q hq)

/-- Enqueueing an embryo returns and keeps the invariant. -/
theorem enqueue (h : a.Inv R N) {p : P} (hp : p ∈ a.embryos) :
    ∃ s' R' N', schedulerEnqueue p a.sched = .ok () s' ∧ SchedSystem.Inv ⟨s', a.created, a.embryos \ {p}⟩ R' N' := by
  obtain ⟨hpC, hpc, hpi, hps⟩ := h.embryos p hp
  obtain ⟨s', hrun, hready, hcur, hidle, -, hstate⟩ := schedulerEnqueue_spec h.ready hpC
  have hpR : p ∉ R := by
    intro hm
    have hs := (h.runnable_iff p hpC).mp hm
    rw [hps] at hs
    cases hs
  rw [List.erase_of_not_mem hpR] at hready
  refine ⟨s', _, _, hrun, hready, ?_, ?_, ?_, ?_, ?_⟩
  · show (s'.proc s'.currentproc).state = .RUNNING
    rw [hcur, hstate, if_neg (Ne.symm hpc)]
    exact h.running
  · intro q hq
    show _ ↔ (s'.proc q).state = .RUNNABLE
    rw [hstate]
    by_cases e : q = p
    · simp [e]
    · rw [if_neg e, List.mem_append, List.mem_singleton, or_iff_left e]
      exact h.runnable_iff q hq
  · intro q hq
    show q ∈ a.created ∧ q ≠ s'.currentproc ∧ s'.idleproc ≠ some q ∧ (s'.proc q).state = .EMBRYO
    have e : q ≠ p := hq.2
    rw [hcur, hidle, hstate, if_neg e]
    exact h.embryos q hq.1
  · intro q hq hqe
    show _ ∨ q = s'.currentproc ∨ s'.idleproc = some q
    rw [hcur, hidle]
    by_cases e : q = p
    · exact Or.inl (by simp [e])
    · rcases h.kept q hq fun hm => hqe ⟨hm, e⟩ with hk | hk
      · exact Or.inl (List.mem_append_left _ hk)
      · exact Or.inr hk
  · intro q hq
    refine h.idle q ?_
    rw [← hidle]
    exact hq

theorem assignIdle (h : a.Inv R N) (hnone : a.sched.idleproc = none) :
    SchedSystem.Inv ⟨{ a.sched with idleproc := some a.sched.currentproc }, a.created, a.embryos⟩ R N := by
  refine ⟨⟨h.ready.queues, h.ready.current, h.ready.ncli, h.ready.counter⟩, h.running, h.runnable_iff, ?_, ?_, ?_⟩
  · intro q hq
    obtain ⟨hqC, hqc, -, hqs⟩ := h.embryos q hq
    exact ⟨hqC, hqc, fun e => hqc (Option.some.inj e).symm, hqs⟩
  · intro q hq hqe
    rcases h.kept q hq hqe with hk | hk | hk
    · exact Or.inl hk
    · exact Or.inr (Or.inl hk)
    · rw [hnone] at hk
      cases hk
  · intro q hq
    rw [← Option.some.inj hq]
    exact h.ready.current

end SchedSystem.Inv

theorem SchedStep.inv {a b : SchedSystem P} {R N : List P} (hstep : SchedStep a b) (h : a.Inv R N) :
    ∃ R' N', b.Inv R' N' := by
  cases hstep with
  | tick s' hrun =>
    obtain ⟨t, R', N', hrun', hinv⟩ := h.tick
    rw [hrun] at hrun'
    rw [(Outcome.ok.inj hrun').2]
    exact ⟨R', N', hinv⟩
  | create p hp => exact ⟨R, N, h.create hp⟩
  | enqueue p s' hp hrun =>
    obtain ⟨t, R', N', hrun', hinv⟩ := h.enqueue hp
    rw [hrun] at hrun'
    rw [(Outcome.ok.inj hrun').2]
    exact ⟨R', N', hinv⟩
  | idle hnone => exact ⟨R, N, h.assignIdle hnone⟩

theorem BootSched.inv {s : Sched P} (h : BootSched s) : (bootSystem s).Inv [] [] := by
  have hring : ∀ n : QNode P, s.links n = ⟨some n, some n⟩ → IsRing s.links n [] := by
    intro n hn
    refine ⟨?_, by simp⟩
    show List.IsChain (Linked s.links) [n, n]
    simp [Linked, hn]
  have hq : Queues s.links {s.currentproc} [] [] := by
    refine ⟨?_, ?_, ?_, ?_, ?_, ?_⟩
    · intro i
      cases i
      · exact hring _ h.runnablelist
      · exact hring _ h.runninglist
    · intro i j e
      cases i
      · cases j
        · rfl
        · cases e
      · cases j
        · cases e
        · rfl
    · intro i hm
      obtain ⟨q, -, e⟩ := hm
      cases i
      · cases e
      · cases e
    · intro i n hn
      cases i
      · cases hn
      · cases hn
    · intro i j n hn
      cases i
      · cases hn
      · cases hn
    · intro n hn _
      obtain ⟨q, hq, e⟩ := hn
      rw [e, Set.mem_singleton_iff.mp hq]
      exact h.plist
  refine ⟨⟨hq, rfl, ?_, h.counter⟩, h.state, ?_, ?_, ?_, ?_⟩
  · intro q hq
    show (s.proc q).ncli = if q = s.currentproc then 0 else 1
    rw [Set.mem_singleton_iff.mp hq, if_pos rfl]
    exact h.ncli
  · intro q hq
    show _ ↔ (s.proc q).state = .RUNNABLE
    rw [Set.mem_singleton_iff.mp hq, h.state]
    simp
  · intro q hq
    exact absurd hq (Set.notMem_empty q)
  · intro q hq _
    exact Or.inr (Or.inl hq)
  · intro q hq
    have hn : s.idleproc = some q := hq
    rw [h.idleproc] at hn
    cases hn

theorem SchedRun.inv {s : Sched P} {a : SchedSystem P} (h : BootSched s) (hrun : SchedRun (bootSystem s) a) :
    ∃ R N, a.Inv R N := by
  induction hrun with
  | refl => exact ⟨[], [], h.inv⟩
  | tail _ hstep ih =>
    obtain ⟨R, N, hinv⟩ := ih
    exact hstep.inv hinv

/-- What holds in every state of a run, `R` and `N` being the two queues. -/
structure Discipline (a : SchedSystem P) (R N : List P) : Prop where
  runnable : a.sched.Runnable R
  running : a.sched.Running N
  created : (∀ p ∈ R, p ∈ a.created) ∧ ∀ p ∈ N, p ∈ a.created
  one_list : R.Nodup ∧ N.Nodup ∧ ∀ p ∈ R, p ∉ N
  runnable_iff : ∀ p ∈ a.created, p ∈ R ↔ (a.sched.proc p).state = .RUNNABLE
  current : (a.sched.proc a.sched.currentproc).state = .RUNNING ∧ a.sched.currentproc ∉ R
  kept : ∀ p ∈ a.created, p ∉ a.embryos → p ∈ R ∨ p = a.sched.currentproc ∨ a.sched.idleproc = some p
  returns : (∃ s', timerInterrupt a.sched = .ok () s') ∧
    ∀ p ∈ a.embryos, ∃ s', schedulerEnqueue p a.sched = .ok () s'

theorem SchedSystem.Inv.discipline {a : SchedSystem P} {R N : List P} (h : a.Inv R N) : Discipline a R N where
  runnable := h.ready.queues.runnable_ring
  running := h.ready.queues.running_ring
  created := ⟨fun _ hp => h.ready.queues.mem_created hp, fun _ hp => h.ready.queues.mem_created_running hp⟩
  one_list := ⟨h.ready.queues.nodup, h.ready.queues.nodup_running, fun _ hp => h.ready.queues.apart hp⟩
  runnable_iff := h.runnable_iff
  current := ⟨h.running, h.current_off⟩
  kept := h.kept
  returns := by
    constructor
    · obtain ⟨s', -, -, hrun, -⟩ := h.tick
      exact ⟨s', hrun⟩
    · intro p hp
      obtain ⟨s', -, -, hrun, -⟩ := h.enqueue hp
      exact ⟨s', hrun⟩

/-- **The queues, the state fields and the current process agree in every state of every run**, and no
process that was enqueued is lost. -/
theorem scheduler_discipline (s : Sched P) (a : SchedSystem P) (h : BootSched s)
    (hrun : SchedRun (bootSystem s) a) : ∃ R N, Discipline a R N := by
  obtain ⟨R, N, hinv⟩ := hrun.inv h
  exact ⟨R, N, hinv.discipline⟩

/-! ## A concrete run -/

/-- Process 0 runs and has used up its slice. -/
def oneProc : Sched ℕ where
  links
    | .runnablelist => ⟨some .runnablelist, some .runnablelist⟩
    | .runninglist => ⟨some .runninglist, some .runninglist⟩
    | .plist _ => null
  proc _ := ⟨.RUNNING, 0, 0, true⟩
  currentproc := 0
  idleproc := none
  ticks := 0
  schedulercounter := 0
  irqOn := true
  switches := 0

theorem oneProc_boot : BootSched oneProc := ⟨rfl, rfl, Or.inl rfl, rfl, rfl, rfl, rfl⟩

/-- Process 1 has been created and is on the queue. -/
def twoProcs : Sched ℕ :=
  match schedulerEnqueue 1 (procCreate 1 oneProc) with
  | .ok _ s => s
  | _ => oneProc

theorem twoProcs_run : SchedRun (bootSystem oneProc) ⟨twoProcs, {1, 0}, {1} \ {1}⟩ := by
  have h1 : SchedStep (bootSystem oneProc) ⟨procCreate 1 oneProc, {1, 0}, {1}⟩ := by
    have hc := SchedStep.create (a := bootSystem oneProc) 1 (by simp [bootSystem, oneProc])
    simpa [bootSystem, oneProc] using hc
  exact (Relation.ReflTransGen.single h1).tail (SchedStep.enqueue 1 twoProcs rfl rfl)

/-- Process 1 is enqueued, and the timer ticks. -/
theorem scheduler_discipline_oneProc : ∃ s' R N, timerInterrupt twoProcs = .ok () s' ∧
    Discipline ⟨s', {1, 0}, {1} \ {1}⟩ R N := by
  obtain ⟨R, N, hinv⟩ := twoProcs_run.inv oneProc_boot
  obtain ⟨s', -, -, htick, -⟩ := hinv.tick
  obtain ⟨R', N', hd⟩ := scheduler_discipline oneProc _ oneProc_boot
    (twoProcs_run.tail (SchedStep.tick s' htick))
  exact ⟨s', R', N', htick, hd⟩

/-! ## Round robin -/

/-- What may happen while `p` waits: ticks, new processes, an idle process, and `scheduler_enqueue` of any
other process that is not on the queue. -/
inductive WaitStep (p : P) (a : SchedSystem P) : SchedSystem P → Prop
  | tick (s' : Sched P) (h : timerInterrupt a.sched = .ok () s') : WaitStep p a ⟨s', a.created, a.embryos⟩
  | create (q : P) (h : q ∉ a.created) :
      WaitStep p a ⟨procCreate q a.sched, insert q a.created, insert q a.embryos⟩
  | enqueue (q : P) (s' : Sched P) (hq : q ∈ a.created) (hne : q ≠ p)
      (hout : ∀ R, a.sched.Runnable R → q ∉ R) (h : schedulerEnqueue q a.sched = .ok () s') :
      WaitStep p a ⟨s', a.created, a.embryos \ {q}⟩
  | idle (h : a.sched.idleproc = none) :
      WaitStep p a ⟨{ a.sched with idleproc := some a.sched.currentproc }, a.created, a.embryos⟩

def WaitRun (p : P) : SchedSystem P → SchedSystem P → Prop := Relation.ReflTransGen (WaitStep p)

/-- Between two steps; the current process may itself be on the queue. -/
structure SchedSystem.Sound (a : SchedSystem P) (R N : List P) : Prop where
  ready : Ready a.sched a.created R N
  running : R = [] → (a.sched.proc a.sched.currentproc).state = .RUNNING

theorem erase_past {pre post : List P} {p y : P} (hpre : y ∉ pre) (hp : y ≠ p) :
    (pre ++ p :: post).erase y = pre ++ p :: post.erase y := by
  rw [List.erase_append_right _ hpre, List.erase_cons_tail (by simpa using Ne.symm hp)]

/-- A switch leaves the order of the processes between the old head and `p` as it is. -/
theorem afterSwitch_past {s : Sched P} {c x p : P} {pre : List P} (post : List P) (hc : c ∉ pre) (hcp : c ≠ p)
    (hx : x ∉ pre) (hxp : x ≠ p) : ∃ post', afterSwitch s c x (pre ++ p :: post) = pre ++ p :: post' := by
  unfold afterSwitch
  rw [erase_past hc hcp]
  split
  · exact ⟨_, erase_past hx hxp⟩
  · split
    · rw [List.append_assoc, List.cons_append]
      exact ⟨_, erase_past hx hxp⟩
    · exact ⟨_, erase_past hx hxp⟩

theorem WaitStep.sound {a b : SchedSystem P} {R N : List P} {p : P} (hstep : WaitStep p a b) (h : a.Sound R N) :
    ∃ R' N', b.Sound R' N' ∧
      ((b.sched.switches = a.sched.switches ∧ b.sched.currentproc = a.sched.currentproc ∧
          ∃ added, R' = R ++ added) ∨
        (b.sched.switches = a.sched.switches + 1 ∧ ∃ R₀, R = b.sched.currentproc :: R₀ ∧
          R' = afterSwitch a.sched a.sched.currentproc b.sched.currentproc R₀)) := by
  cases hstep with
  | tick s' hrun =>
    rcases timerInterrupt_spec h.ready h.running with ⟨t, ht, hready, hv⟩ | ⟨t, x, R₀, N', hR, ht, hready, hsw⟩
    · rw [hrun] at ht
      rw [(Outcome.ok.inj ht).2]
      refine ⟨R, N, ⟨hready, ?_⟩, Or.inl ⟨hv.switches, hv.currentproc, [], (List.append_nil R).symm⟩⟩
      intro e
      show (t.proc t.currentproc).state = .RUNNING
      rw [hv.currentproc, hv.state]
      exact h.running e
    · rw [hrun] at ht
      rw [(Outcome.ok.inj ht).2]
      refine ⟨_, N', ⟨hready, ?_⟩, Or.inr ⟨hsw.switches, R₀, ?_, ?_⟩⟩
      · intro _
        show (t.proc t.currentproc).state = .RUNNING
        rw [hsw.currentproc, hsw.state, if_pos rfl]
      · show R = t.currentproc :: R₀
        rw [hsw.currentproc]
        exact hR
      · show _ = afterSwitch a.sched a.sched.currentproc t.currentproc R₀
        rw [hsw.currentproc]
  | create q hq =>
    have hcur : a.sched.currentproc ≠ q := fun e => hq (e ▸ h.ready.current)
    refine ⟨R, N, ⟨procCreate_ready h.ready hq, ?_⟩, Or.inl ⟨rfl, rfl, [], (List.append_nil R).symm⟩⟩
    intro e
    show ((procCreate q a.sched).proc a.sched.currentproc).state = .RUNNING
    rw [procCreate_ne hcur]
    exact h.running e
  | enqueue q s' hq hne hout hrun =>
    obtain ⟨t, ht, hready, hcur, -, hsw, -⟩ := schedulerEnqueue_spec h.ready hq
    rw [hrun] at ht
    rw [(Outcome.ok.inj ht).2]
    rw [List.erase_of_not_mem (hout R h.ready.queues.runnable_ring)] at hready
    refine ⟨R ++ [q], _, ⟨hready, ?_⟩, Or.inl ⟨hsw, hcur, [q], rfl⟩⟩
    intro e
    exact absurd e (List.concat_ne_nil q R)
  | idle hnone =>
    exact ⟨R, N, ⟨⟨h.ready.queues, h.ready.current, h.ready.ncli, h.ready.counter⟩, h.running⟩,
      Or.inl ⟨rfl, rfl, [], (List.append_nil R).symm⟩⟩

/-- `pre` is ahead of `p` in the queue `R`, and neither `p` nor any of them has the CPU. -/
structure Waits (p : P) (pre : List P) (a : SchedSystem P) (R : List P) : Prop where
  queue : ∃ post, R = pre ++ p :: post
  current : a.sched.currentproc ∉ pre ∧ a.sched.currentproc ≠ p

/-- `start` is the number of switches so far when `pre` was ahead of `p`. -/
structure Turn (p : P) (pre : List P) (start : ℕ) (a : SchedSystem P) (R N : List P) : Prop where
  sound : a.Sound R N
  later : start ≤ a.sched.switches
  waits : a.sched.switches ≤ start + pre.length → Waits p (pre.drop (a.sched.switches - start)) a R

theorem WaitStep.switches {a b : SchedSystem P} {R N : List P} {p : P} (hstep : WaitStep p a b) (h : a.Sound R N) :
    a.sched.switches ≤ b.sched.switches ∧ b.sched.switches ≤ a.sched.switches + 1 := by
  obtain ⟨R', N', -, hs | hs⟩ := hstep.sound h
  · omega
  · omega

/-- The switch that nobody is ahead of `p` at. -/
theorem Turn.arrives {a b : SchedSystem P} {R N pre : List P} {p : P} {start : ℕ} (h : Turn p pre start a R N)
    (hstep : WaitStep p a b) (hlast : a.sched.switches = start + pre.length)
    (hsw : b.sched.switches = a.sched.switches + 1) : b.sched.currentproc = p := by
  obtain ⟨post, hR⟩ := (h.waits hlast.le).queue
  rw [List.drop_of_length_le (by omega), List.nil_append] at hR
  obtain ⟨R', N', -, hs | ⟨-, R₀, hR₀, -⟩⟩ := hstep.sound h.sound
  · omega
  · rw [hR] at hR₀
    exact (List.cons.inj hR₀).1.symm

theorem Turn.step {a b : SchedSystem P} {R N pre : List P} {p : P} {start : ℕ} (h : Turn p pre start a R N)
    (hstep : WaitStep p a b) : ∃ R' N', Turn p pre start b R' N' := by
  obtain ⟨R', N', hsound, hcase⟩ := hstep.sound h.sound
  have hmono := (hstep.switches h.sound).1
  refine ⟨R', N', hsound, h.later.trans hmono, ?_⟩
  intro hb
  obtain ⟨⟨post, hR⟩, hcur, hcurp⟩ := h.waits (hmono.trans hb)
  rcases hcase with ⟨hsw, hc, added, hadd⟩ | ⟨hsw, R₀, hR₀, hafter⟩
  · rw [hsw]
    refine ⟨⟨post ++ added, ?_⟩, ?_⟩
    · rw [hadd, hR, List.append_assoc, List.cons_append]
    · rw [hc]
      exact ⟨hcur, hcurp⟩
  · -- the head of the queue, the first of those ahead of `p`, has got the CPU
    have hlt : a.sched.switches - start < pre.length := by have := h.later; omega
    have hdrop := List.drop_eq_getElem_cons hlt
    have hsub : b.sched.switches - start = a.sched.switches - start + 1 := by have := h.later; omega
    rw [hdrop] at hR hcur
    rw [hR, List.cons_append] at hR₀
    obtain ⟨hx, hR₀⟩ := List.cons.inj hR₀
    have hnd := h.sound.ready.queues.nodup
    rw [hR, List.cons_append, List.nodup_cons, List.mem_append, List.mem_cons] at hnd
    push Not at hnd
    rw [hx] at hnd
    obtain ⟨post', hpost⟩ := afterSwitch_past (s := a.sched) post
      (fun hm => hcur (List.mem_cons_of_mem _ hm)) hcurp hnd.1.1 hnd.1.2.1
    rw [hsub]
    refine ⟨⟨post', ?_⟩, hnd.1.1, hnd.1.2.1⟩
    rw [hafter, ← hR₀]
    exact hpost

theorem WaitRun.turn {a b : SchedSystem P} {R N pre : List P} {p : P} {start : ℕ} (h : Turn p pre start a R N)
    (hrun : WaitRun p a b) : ∃ R' N', Turn p pre start b R' N' := by
  induction hrun with
  | refl => exact ⟨R, N, h⟩
  | tail _ hstep ih =>
    obtain ⟨R', N', hturn⟩ := ih
    exact hturn.step hstep

/-- **Round robin.** Let `p` be number `i` of the queue in a reachable state. As long as at most `i`
switches have happened since, `p` does not have the CPU, and those who were ahead of it and have not
had their turn are still ahead of it, in the same order, with nobody in between. The switch after that
gives the CPU to `p`. -/
theorem round_robin (s : Sched P) (a : SchedSystem P) (h : BootSched s) (hrun : SchedRun (bootSystem s) a)
    (R : List P) (hR : a.sched.Runnable R) (i : ℕ) (p : P) (hp : R[i]? = some p) (b : SchedSystem P)
    (hwait : WaitRun p a b) :
    a.sched.switches ≤ b.sched.switches ∧
    (b.sched.switches ≤ a.sched.switches + i → b.sched.currentproc ≠ p ∧ ∃ post, b.sched.Runnable
      ((R.take i).drop (b.sched.switches - a.sched.switches) ++ p :: post)) ∧
    (∃ s', timerInterrupt b.sched = .ok () s') ∧
    ∀ c, WaitStep p b c → c.sched.switches ≤ b.sched.switches + 1 ∧
      (b.sched.switches = a.sched.switches + i → c.sched.switches = b.sched.switches + 1 →
        c.sched.currentproc = p) := by
  obtain ⟨R₁, N, hinv⟩ := hrun.inv h
  have e : R₁ = R := (List.map_injective_iff.mpr plist_injective)
    (isRing_unique hinv.ready.queues.runnable_ring hR)
  subst e
  obtain ⟨hi, hget⟩ := List.getElem?_eq_some_iff.mp hp
  have hlen : (R₁.take i).length = i := by rw [List.length_take]; omega
  have hturn : Turn p (R₁.take i) a.sched.switches a R₁ N := by
    refine ⟨⟨hinv.ready, fun _ => hinv.running⟩, le_rfl, fun _ => ⟨⟨R₁.drop (i + 1), ?_⟩, ?_, ?_⟩⟩
    · rw [Nat.sub_self, List.drop_zero, ← hget, List.getElem_cons_drop, List.take_append_drop]
    · rw [Nat.sub_self, List.drop_zero]
      exact fun hm => hinv.current_off (List.mem_of_mem_take hm)
    · intro e
      exact hinv.current_off (e ▸ hget ▸ List.getElem_mem hi)
  obtain ⟨R', N', hb⟩ := hwait.turn hturn
  refine ⟨hb.later, ?_, ?_, ?_⟩
  · intro hle
    obtain ⟨⟨post, hR'⟩, -, hcur⟩ := hb.waits (by rw [hlen]; exact hle)
    refine ⟨hcur, post, ?_⟩
    rw [← hR']
    exact hb.sound.ready.queues.runnable_ring
  · rcases timerInterrupt_spec hb.sound.ready hb.sound.running with ⟨s', ht, -⟩ | ⟨s', -, -, -, -, ht, -⟩
    · exact ⟨s', ht⟩
    · exact ⟨s', ht⟩
  · intro c hstep
    refine ⟨(hstep.switches hb.sound).2, ?_⟩
    intro hlast hsw
    exact hb.arrives hstep (by rw [hlen]; exact hlast) hsw

def twoProcsTicked : Sched ℕ :=
  match timerInterrupt twoProcs with
  | .ok _ s => s
  | _ => twoProcs

/-- Process 1 is the first of the queue, so the first switch gives it the CPU. -/
theorem round_robin_twoProcs : timerInterrupt twoProcs = .ok () twoProcsTicked ∧
    twoProcsTicked.switches = twoProcs.switches + 1 ∧ twoProcsTicked.currentproc = 1 := by
  have hR : twoProcs.Runnable [1] := by
    have hnext : (twoProcs.links .runnablelist).next = some (.plist 1) := by decide
    have hprev : (twoProcs.links .runnablelist).prev = some (.plist 1) := by decide
    have hone : twoProcs.links (.plist 1) = ⟨some .runnablelist, some .runnablelist⟩ := by decide
    unfold Sched.Runnable IsRing
    simp [Linked, hnext, hprev, hone]
  have hrr := round_robin oneProc ⟨twoProcs, {1, 0}, {1} \ {1}⟩ oneProc_boot twoProcs_run [1] hR 0 1 rfl _
    Relation.ReflTransGen.refl
  have htick : timerInterrupt twoProcs = .ok () twoProcsTicked := by
    obtain ⟨s', hs'⟩ := hrr.2.2.1
    unfold twoProcsTicked
    rw [hs']
  have hsw : twoProcsTicked.switches = twoProcs.switches + 1 := by decide +kernel
  exact ⟨htick, hsw, (hrr.2.2.2 ⟨twoProcsTicked, {1, 0}, {1} \ {1}⟩ (WaitStep.tick _ htick)).2 rfl hsw⟩

end Borgos.Kcore
