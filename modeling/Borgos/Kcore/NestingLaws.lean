import Borgos.Kcore.Nesting

/-! # Interrupt nesting across context switches

The locks a process holds are counted in its own descriptor, while the interrupt flag belongs to the CPU. What makes
the two agree is that every process that is not running holds exactly one lock, `schedulerspin`, and stands where that
lock is given back; and that the flag is clear wherever the handler stands.
-/
namespace Borgos.Kcore
open Borgos.Foundations Borgos.Foundations.Intrusive
set_option autoImplicit false

variable {P : Type} [DecidableEq P]

/-! ## Locks and counters -/

/-- `ncli` counts the locks, and `intenable` is the flag at the outermost one. -/
structure Counts (s : Sched P) (p : P) (locks : List Bool) : Prop where
  ncli : (s.proc p).ncli = locks.length
  flag : ∀ b, locks.getLast? = some b → (s.proc p).intenable = b

omit [DecidableEq P] in
theorem Counts.congr {s t : Sched P} {p : P} {locks : List Bool} (h : Counts s p locks)
    (hn : (t.proc p).ncli = (s.proc p).ncli) (hf : (t.proc p).intenable = (s.proc p).intenable) : Counts t p locks :=
  ⟨hn.trans h.ncli, fun b hb => hf.trans (h.flag b hb)⟩

/-- What `irq_save` and `irq_restore` leave alone. -/
structure SameBut (s t : Sched P) : Prop where
  view : SameView s t
  counter : t.schedulercounter = s.schedulercounter
  others : ∀ q, q ≠ s.currentproc → t.proc q = s.proc q

theorem sameBut_setProc (s : Sched P) (f : Proc → Proc) (hf : ∀ x, (f x).state = x.state) (irqOn : Bool) :
    SameBut s { s.setProc s.currentproc f with irqOn := irqOn } where
  view := ⟨rfl, rfl, rfl, rfl, fun q => Sched.setProc_state s s.currentproc q f hf⟩
  counter := rfl
  others q hq := Sched.setProc_ne s s.currentproc q f hq

theorem enterSection_proc (s : Sched P) : (enterSection s).proc s.currentproc =
    { s.proc s.currentproc with intenable := s.irqOn, ncli := (s.proc s.currentproc).ncli + 1 } :=
  Sched.setProc_self s s.currentproc fun x => { x with intenable := s.irqOn, ncli := x.ncli + 1 }

theorem hold_proc (s : Sched P) : (hold s).proc s.currentproc =
    { s.proc s.currentproc with ncli := (s.proc s.currentproc).ncli + 1 } :=
  Sched.setProc_self s s.currentproc fun x => { x with ncli := x.ncli + 1 }

theorem leaveSection_proc (s : Sched P) : (leaveSection s).proc s.currentproc =
    { s.proc s.currentproc with ncli := (s.proc s.currentproc).ncli - 1 } :=
  Sched.setProc_self s s.currentproc fun x => { x with ncli := x.ncli - 1 }

/-- `spinlock` always returns, with interrupts off and one lock more. -/
theorem spinlock_counts {s : Sched P} {locks : List Bool} (h : Counts s s.currentproc locks)
    (hmasked : locks ≠ [] → s.irqOn = false) : ∃ t, spinlock s = .ok () t ∧ SameBut s t ∧ t.irqOn = false ∧
      Counts t s.currentproc (s.irqOn :: locks) := by
  cases locks with
  | nil =>
    refine ⟨enterSection s, spinlock_first h.ncli,
      sameBut_setProc s (fun x => { x with intenable := s.irqOn, ncli := x.ncli + 1 }) (fun _ => rfl) false, rfl, ?_,
      ?_⟩
    · rw [enterSection_proc, h.ncli]
      rfl
    · intro b hb
      rw [enterSection_proc]
      exact Option.some.inj hb
  | cons b locks =>
    have hirq := hmasked (List.cons_ne_nil b locks)
    have hheld : Held s := ⟨hirq, by rw [h.ncli]; exact Int.natCast_pos.mpr (Nat.succ_pos _)⟩
    have hsame := sameBut_setProc s (fun x => { x with ncli := x.ncli + 1 }) (fun _ => rfl) s.irqOn
    refine ⟨hold s, spinlock_held hheld, hsame, hirq, ?_, ?_⟩
    · rw [hold_proc, h.ncli]
      rfl
    · intro c hc
      rw [hold_proc]
      rw [List.getLast?_cons_cons] at hc
      exact h.flag c hc

/-- One level of nesting less, of several. -/
theorem spinunlock_inner {s : Sched P} (hirq : s.irqOn = false) (hn : 1 < (s.proc s.currentproc).ncli) :
    spinunlock s = .ok () (s.setProc s.currentproc fun x => { x with ncli := x.ncli - 1 }) := by
  have hheld : Held (s.setProc s.currentproc fun x => { x with ncli := x.ncli - 1 }) := by
    refine ⟨hirq, ?_⟩
    show 0 < ((s.setProc s.currentproc _).proc s.currentproc).ncli
    rw [Sched.setProc_self]
    show 0 < (s.proc s.currentproc).ncli - 1
    omega
  have hback : hold (s.setProc s.currentproc fun x => { x with ncli := x.ncli - 1 }) = s := by
    unfold hold Sched.setProc
    simp only [Function.update_self, Function.update_idem, sub_add_cancel, Function.update_eq_self]
  rw [← spinunlock_hold hheld, hback]

/-- `spinunlock` of a lock that is held returns; the outermost one gives back the flag it found. -/
theorem spinunlock_counts {s : Sched P} {b : Bool} {locks : List Bool} (h : Counts s s.currentproc (b :: locks))
    (hirq : s.irqOn = false) : ∃ t, spinunlock s = .ok () t ∧ SameBut s t ∧ Counts t s.currentproc locks ∧
      t.irqOn = if locks = [] then b else false := by
  cases locks with
  | nil =>
    refine ⟨leaveSection s, spinunlock_last hirq h.ncli,
      sameBut_setProc s (fun x => { x with ncli := x.ncli - 1 }) (fun _ => rfl) _, ⟨?_, ?_⟩, ?_⟩
    · rw [leaveSection_proc, h.ncli]
      rfl
    · intro c hc
      cases hc
    · rw [if_pos rfl]
      exact h.flag b rfl
  | cons c locks =>
    have hone : 1 < (s.proc s.currentproc).ncli := by
      rw [h.ncli, List.length_cons, List.length_cons]
      omega
    refine ⟨_, spinunlock_inner hirq hone,
      sameBut_setProc s (fun x => { x with ncli := x.ncli - 1 }) (fun _ => rfl) s.irqOn, ⟨?_, ?_⟩, ?_⟩
    · rw [Sched.setProc_self]
      show (s.proc s.currentproc).ncli - 1 = _
      rw [h.ncli, List.length_cons]
      omega
    · intro d hd
      rw [Sched.setProc_self]
      refine h.flag d ?_
      rw [List.getLast?_cons_cons]
      exact hd
    · rw [if_neg (List.cons_ne_nil c locks)]
      exact hirq

/-- No lock is taken or given back. -/
def Quiet (s t : Sched P) : Prop :=
  ∀ q, (t.proc q).ncli = (s.proc q).ncli ∧ (t.proc q).intenable = (s.proc q).intenable

theorem quiet_setProc (s : Sched P) (p : P) (f : Proc → Proc)
    (hf : ∀ x, (f x).ncli = x.ncli ∧ (f x).intenable = x.intenable) : Quiet s (s.setProc p f) := by
  intro q
  by_cases h : q = p
  · subst h
    rw [Sched.setProc_self]
    exact hf _
  · rw [Sched.setProc_ne s p q f h]
    exact ⟨rfl, rfl⟩

theorem quiet_setState (s : Sched P) (p : P) (st : ProcState) : Quiet s (s.setState p st) :=
  quiet_setProc s p _ fun _ => ⟨rfl, rfl⟩

/-! ## The invariant -/

def Section.target : Section P → Option P
  | .dequeue => none
  | .markkernelidle p => some p
  | .enqueue p => some p
  | .markrunning p => some p

namespace Stage

/-- `schedulercounter` at a stage. -/
def counter : Stage P → ℤ
  | .tick => 0
  | .schedule => 0
  | .count => 0
  | .release _ => 0
  | .iret => 0
  | _ => 1

/-- The locks of a process at a stage. Only a process that starts may have found the flag set. -/
def Holds (locks : List Bool) : Stage P → Prop
  | .tick => locks = []
  | .schedule => locks = []
  | .iret => locks = []
  | .body _ => locks = [false, false]
  | .unlock _ _ => locks = [false, false]
  | .finish interrupted => ∃ b, locks = [b] ∧ (interrupted = true → b = false)
  | .release interrupted => ∃ b, locks = [b] ∧ (interrupted = true → b = false)
  | _ => locks = [false]

/-- The process that is going to be switched to. -/
def target : Stage P → Option P
  | .lock f => f.target
  | .body f => f.target
  | .unlock .dequeue r => r
  | .unlock f _ => f.target
  | .choose r => r
  | .select p => some p
  | .switch p => some p
  | _ => none

/-- The current process has been put away. -/
def Retired : Stage P → Prop
  | .unlock (.markkernelidle _) _ => True
  | .unlock (.enqueue _) _ => True
  | .lock (.markrunning _) => True
  | .body (.markrunning _) => True
  | .unlock (.markrunning _) _ => True
  | .switch _ => True
  | _ => False

/-- The next process is marked as running. -/
def marked : Stage P → Option P
  | .unlock (.markrunning p) _ => some p
  | .switch p => some p
  | _ => none

end Stage

/-- What holds while the current process stands at `st`. -/
structure AtStage (s : Sched P) (C : Set P) (R : List P) (locks : List Bool) (st : Stage P) : Prop where
  irqOn : s.irqOn = false
  counter : s.schedulercounter = st.counter
  holds : st.Holds locks
  running : ¬st.Retired → s.currentproc ∉ R ∧ (s.proc s.currentproc).state = .RUNNING
  target : ∀ p, st.target = some p → p ∈ C ∧ p ≠ s.currentproc
  marked : ∀ p, st.marked = some p → p ∉ R ∧ (s.proc p).state = .RUNNING

/-- The current process is in its own code or at one stage of the handler. -/
def Place (s : Sched P) (C : Set P) (R : List P) (frames : List (Stage P)) (locks : List Bool) : Prop :=
  (frames = [] ∧ s.schedulercounter = 0 ∧ s.currentproc ∉ R ∧ (s.proc s.currentproc).state = .RUNNING) ∨
    ∃ st, frames = [st] ∧ AtStage s C R locks st

structure Nest.Inv (m : Nest P) (R N : List P) : Prop where
  counts : ∀ p ∈ m.created, Counts m.sched p (m.held p)
  masked : m.held m.current ≠ [] → m.sched.irqOn = false
  queues : Queues m.sched.links m.created R N
  current : m.current ∈ m.created
  suspended : ∀ p ∈ m.created, p ≠ m.current →
    ∃ i, m.frames p = [.finish i] ∧ (Stage.finish (P := P) i).Holds (m.held p)
  place : Place m.sched m.created R (m.frames m.current) (m.held m.current)

namespace Nest.Inv
variable {m : Nest P} {R N : List P}

/-- The current process has moved on, and stays the current process. -/
theorem move (h : m.Inv R N) {s' : Sched P} {frames : List (Stage P)} {locks : List Bool} {R' N' : List P}
    (hcur : s'.currentproc = m.current) (hcounts : Counts s' m.current locks)
    (hothers : ∀ q, q ≠ m.current → (s'.proc q).ncli = (m.sched.proc q).ncli ∧
      (s'.proc q).intenable = (m.sched.proc q).intenable)
    (hmasked : locks ≠ [] → s'.irqOn = false) (hqueues : Queues s'.links m.created R' N')
    (hplace : Place s' m.created R' frames locks) : (m.after s' frames locks).Inv R' N' := by
  have hcurrent : (m.after s' frames locks).current = m.current := hcur
  have hheld : (m.after s' frames locks).held m.current = locks := Function.update_self ..
  have hframes : (m.after s' frames locks).frames m.current = frames := Function.update_self ..
  refine ⟨?_, ?_, hqueues, ?_, ?_, ?_⟩
  · intro p hp
    by_cases hpc : p = m.current
    · rw [hpc, hheld]
      exact hcounts
    · rw [show (m.after s' frames locks).held p = m.held p from Function.update_of_ne hpc ..]
      exact (h.counts p hp).congr (hothers p hpc).1 (hothers p hpc).2
  · rw [hcurrent, hheld]
    exact hmasked
  · rw [hcurrent]
    exact h.current
  · intro p hp hpc
    rw [hcurrent] at hpc
    rw [show (m.after s' frames locks).held p = m.held p from Function.update_of_ne hpc ..,
      show (m.after s' frames locks).frames p = m.frames p from Function.update_of_ne hpc ..]
    exact h.suspended p hp hpc
  · rw [hcurrent, hheld, hframes]
    exact hplace

/-- A step that takes and gives back no lock. -/
theorem quiet (h : m.Inv R N) {s' : Sched P} {frames : List (Stage P)} {R' N' : List P}
    (hcur : s'.currentproc = m.current) (hquiet : Quiet m.sched s')
    (hmasked : m.held m.current ≠ [] → s'.irqOn = false) (hqueues : Queues s'.links m.created R' N')
    (hplace : Place s' m.created R' frames (m.held m.current)) :
    (m.after s' frames (m.held m.current)).Inv R' N' :=
  h.move hcur ((h.counts _ h.current).congr (hquiet _).1 (hquiet _).2) (fun q _ => hquiet q) hmasked hqueues hplace

/-- `spinlock` in the current process. -/
theorem acquire (h : m.Inv R N) (frames : List (Stage P))
    (hplace : ∀ s', SameBut m.sched s' → s'.irqOn = false →
      Place s' m.created R frames (m.sched.irqOn :: m.held m.current)) :
    ∃ s', spinlock m.sched = .ok () s' ∧
      (m.after s' frames (m.sched.irqOn :: m.held m.current)).Inv R N := by
  obtain ⟨s', hrun, hsame, hirq, hcounts⟩ := spinlock_counts (h.counts _ h.current) h.masked
  refine ⟨s', hrun, h.move hsame.view.currentproc hcounts ?_ (fun _ => hirq) ?_ (hplace s' hsame hirq)⟩
  · intro q hq
    rw [hsame.others q hq]
    exact ⟨rfl, rfl⟩
  · rw [hsame.view.links]
    exact h.queues

/-- `spinunlock` in the current process. -/
theorem drop (h : m.Inv R N) {b : Bool} {locks : List Bool} (hheld : m.held m.current = b :: locks)
    (frames : List (Stage P))
    (hplace : ∀ s', SameBut m.sched s' → s'.irqOn = (if locks = [] then b else false) →
      Place s' m.created R frames locks) :
    ∃ s', spinunlock m.sched = .ok () s' ∧ (m.after s' frames (m.held m.current).tail).Inv R N := by
  have hcounts := h.counts _ h.current
  rw [hheld] at hcounts
  have hirq := h.masked (by rw [hheld]; exact List.cons_ne_nil b locks)
  obtain ⟨s', hrun, hsame, hcounts, hirq'⟩ := spinunlock_counts hcounts hirq
  rw [hheld, List.tail_cons]
  refine ⟨s', hrun, h.move hsame.view.currentproc hcounts ?_ ?_ ?_ (hplace s' hsame hirq')⟩
  · intro q hq
    rw [hsame.others q hq]
    exact ⟨rfl, rfl⟩
  · intro hne
    rw [hirq', if_neg hne]
  · rw [hsame.view.links]
    exact h.queues

end Nest.Inv

/-! ## The stages -/

omit [DecidableEq P] in
/-- A step that leaves the queue and the state fields alone. -/
theorem AtStage.next {s s' : Sched P} {C : Set P} {R : List P} {locks locks' : List Bool} {st st' : Stage P}
    (h : AtStage s C R locks st) (hcur : s'.currentproc = s.currentproc)
    (hstate : ∀ q, (s'.proc q).state = (s.proc q).state) (hirq : s'.irqOn = false)
    (hcounter : s'.schedulercounter = st'.counter) (hholds : st'.Holds locks')
    (hretired : st.Retired → st'.Retired) (htarget : ∀ p, st'.target = some p → st.target = some p)
    (hmarked : ∀ p, st'.marked = some p → st.marked = some p) : AtStage s' C R locks' st' where
  irqOn := hirq
  counter := hcounter
  holds := hholds
  running hr := by
    rw [hcur, hstate]
    exact h.running fun hr' => hr (hretired hr')
  target p hp := by
    rw [hcur]
    exact h.target p (htarget p hp)
  marked p hp := by
    rw [hstate]
    exact h.marked p (hmarked p hp)

theorem tickCount_run (s : Sched P) : ∃ t, tickCount s = .ok () t ∧ SameView s t ∧ Quiet s t ∧ t.irqOn = s.irqOn ∧
    t.schedulercounter = s.schedulercounter := by
  unfold tickCount
  simp only [Prog.bind_run, Prog.modify_run, Outcome.andThen_ok, Prog.get_run]
  split
  · refine ⟨_, rfl, ⟨rfl, rfl, rfl, rfl, fun q => ?_⟩, ?_, rfl, rfl⟩
    · exact Sched.setProc_state { s with ticks := (s.ticks + 1) % 2 ^ 64 } s.currentproc q
        (fun x => { x with sliceTicks := x.sliceTicks - 1 }) fun _ => rfl
    · exact quiet_setProc { s with ticks := (s.ticks + 1) % 2 ^ 64 } s.currentproc
        (fun x => { x with sliceTicks := x.sliceTicks - 1 }) fun _ => ⟨rfl, rfl⟩
  · exact ⟨_, rfl, ⟨rfl, rfl, rfl, rfl, fun _ => rfl⟩, fun _ => ⟨rfl, rfl⟩, rfl, rfl⟩

/-- One step of the handler: it returns, and the invariant holds again. -/
def Advances (m : Nest P) (st : Stage P) : Prop :=
  ∃ next s' R' N', st.exec m.sched = .ok next s' ∧
    (m.after s' next.toList (st.heldAfter m.sched.irqOn (m.held m.current))).Inv R' N'

namespace Nest.Inv
variable {m : Nest P} {R N : List P}

/-- A stage that takes and gives back no lock and leaves the queue and the state fields alone. -/
theorem quiet_advances (h : m.Inv R N) {st : Stage P} (hat : AtStage m.sched m.created R (m.held m.current) st)
    (st' : Stage P) {s' : Sched P} (hrun : st.exec m.sched = .ok (some st') s')
    (hheld : st.heldAfter m.sched.irqOn (m.held m.current) = m.held m.current) (hview : SameView m.sched s')
    (hquiet : Quiet m.sched s') (hirq : s'.irqOn = m.sched.irqOn) (hcounter : s'.schedulercounter = st'.counter)
    (hholds : st'.Holds (m.held m.current)) (hretired : st.Retired → st'.Retired)
    (htarget : ∀ p, st'.target = some p → st.target = some p)
    (hmarked : ∀ p, st'.marked = some p → st.marked = some p) : Advances m st := by
  refine ⟨some st', s', R, N, hrun, ?_⟩
  rw [hheld]
  refine h.quiet hview.currentproc hquiet (fun _ => hirq.trans hat.irqOn) (by rw [hview.links]; exact h.queues)
    (.inr ⟨st', rfl, ?_⟩)
  exact hat.next hview.currentproc hview.state (hirq.trans hat.irqOn) hcounter hholds hretired htarget hmarked

theorem tick_advances (h : m.Inv R N) (hat : AtStage m.sched m.created R (m.held m.current) .tick) :
    Advances m .tick := by
  obtain ⟨t, hrun, hview, hquiet, hirq, hcounter⟩ := tickCount_run m.sched
  have hn : (t.proc t.currentproc).ncli = 0 := by
    have hcounts := (h.counts _ h.current).ncli
    rw [show m.held m.current = [] from hat.holds] at hcounts
    rw [(hquiet _).1, hview.currentproc]
    exact hcounts
  refine h.quiet_advances hat .schedule ?_ rfl hview hquiet hirq (hcounter.trans hat.counter) hat.holds
    (fun hr => hr) (fun _ hp => nomatch hp) fun _ hp => nomatch hp
  simp only [Stage.exec, Prog.bind_run, hrun, Outcome.andThen_ok, Prog.get_run, hn, if_true, Prog.pure_run]

theorem count_advances (h : m.Inv R N) (hat : AtStage m.sched m.created R (m.held m.current) .count) :
    Advances m .count := by
  have hholds : m.held m.current = [false] := hat.holds
  have hone : ¬m.sched.schedulercounter + 1 ≠ 1 := by
    rw [hat.counter]
    exact fun hne => hne rfl
  have hview : SameView m.sched { m.sched with schedulercounter := m.sched.schedulercounter + 1 } :=
    ⟨rfl, rfl, rfl, rfl, fun _ => rfl⟩
  by_cases hs : (m.sched.proc m.sched.currentproc).sliceTicks = 0
  · refine h.quiet_advances hat (.lock .dequeue) ?_ rfl hview (fun _ => ⟨rfl, rfl⟩) rfl ?_ hholds
      (fun hr => hr) (fun _ hp => nomatch hp) fun _ hp => nomatch hp
    · simp only [Stage.exec, Prog.bind_run, Prog.modify_run, Outcome.andThen_ok, Prog.get_run, if_neg hone, if_pos hs,
        Prog.pure_run]
    · show m.sched.schedulercounter + 1 = 1
      rw [hat.counter]
      rfl
  · refine h.quiet_advances hat (.finish true) ?_ rfl hview (fun _ => ⟨rfl, rfl⟩) rfl ?_
      ⟨false, hholds, fun _ => rfl⟩ (fun hr => hr) (fun _ hp => nomatch hp) fun _ hp => nomatch hp
    · simp only [Stage.exec, Prog.bind_run, Prog.modify_run, Outcome.andThen_ok, Prog.get_run, if_neg hone, if_neg hs,
        Prog.pure_run]
    · show m.sched.schedulercounter + 1 = 1
      rw [hat.counter]
      rfl

theorem choose_advances (h : m.Inv R N) {r : Option P}
    (hat : AtStage m.sched m.created R (m.held m.current) (.choose r)) : Advances m (.choose r) := by
  have hholds : m.held m.current = [false] := hat.holds
  have hview : SameView m.sched m.sched := ⟨rfl, rfl, rfl, rfl, fun _ => rfl⟩
  cases r with
  | none =>
    refine h.quiet_advances hat (.finish true) ?_ rfl hview (fun _ => ⟨rfl, rfl⟩) rfl hat.counter
      ⟨false, hholds, fun _ => rfl⟩ (fun hr => hr) (fun _ hp => nomatch hp) fun _ hp => nomatch hp
    simp only [Stage.exec, Prog.bind_run, Prog.get_run, Outcome.andThen_ok, if_pos (hat.running fun hr => hr).2,
      Prog.pure_run]
  | some p =>
    exact h.quiet_advances hat (.select p) rfl rfl hview (fun _ => ⟨rfl, rfl⟩) rfl hat.counter hholds
      (fun hr => hr) (fun _ hp => hp) fun _ hp => nomatch hp

theorem select_advances (h : m.Inv R N) {p : P}
    (hat : AtStage m.sched m.created R (m.held m.current) (.select p)) : Advances m (.select p) := by
  have hview : SameView m.sched m.sched := ⟨rfl, rfl, rfl, rfl, fun _ => rfl⟩
  have hrunning := (hat.running fun hr => hr).2
  by_cases hidle : m.sched.idleproc = some m.sched.currentproc
  · refine h.quiet_advances hat (.lock (.markkernelidle p)) ?_ rfl hview (fun _ => ⟨rfl, rfl⟩) rfl hat.counter
      hat.holds (fun hr => hr) (fun _ hp => hp) fun _ hp => nomatch hp
    simp only [Stage.exec, Prog.bind_run, Prog.get_run, Outcome.andThen_ok, if_pos hidle, Prog.pure_run]
  · refine h.quiet_advances hat (.lock (.enqueue p)) ?_ rfl hview (fun _ => ⟨rfl, rfl⟩) rfl hat.counter
      hat.holds (fun hr => hr) (fun _ hp => hp) fun _ hp => nomatch hp
    simp only [Stage.exec, Prog.bind_run, Prog.get_run, Outcome.andThen_ok, if_neg hidle, if_pos hrunning,
      Prog.pure_run]

theorem finish_advances (h : m.Inv R N) {interrupted : Bool}
    (hat : AtStage m.sched m.created R (m.held m.current) (.finish interrupted)) :
    Advances m (.finish interrupted) := by
  refine h.quiet_advances hat (.release interrupted)
    rfl rfl
    ⟨rfl, rfl, rfl, rfl, fun _ => rfl⟩ (fun _ => ⟨rfl, rfl⟩) rfl ?_ hat.holds (fun hr => hr) (fun _ hp => nomatch hp)
    fun _ hp => nomatch hp
  show m.sched.schedulercounter - 1 = 0
  rw [hat.counter]
  rfl

/-- A stage that takes a lock. -/
theorem lock_advances (h : m.Inv R N) {st : Stage P} (hat : AtStage m.sched m.created R (m.held m.current) st)
    (st' : Stage P)
    (hexec : st.exec = (do spinlock; pure (some st') : Prog (Sched P) (Option (Stage P))))
    (hheld : st.heldAfter m.sched.irqOn (m.held m.current) = m.sched.irqOn :: m.held m.current)
    (hcounter : st'.counter = st.counter) (hholds : st'.Holds (false :: m.held m.current))
    (hretired : st.Retired → st'.Retired) (htarget : ∀ p, st'.target = some p → st.target = some p)
    (hmarked : ∀ p, st'.marked = some p → st.marked = some p) : Advances m st := by
  obtain ⟨s', hrun, hinv⟩ := h.acquire [st'] fun s' hsame hirq => .inr ⟨st', rfl, by
    refine hat.next hsame.view.currentproc hsame.view.state hirq ?_ ?_ hretired htarget hmarked
    · rw [hsame.counter, hat.counter, hcounter]
    · rw [hat.irqOn]
      exact hholds⟩
  refine ⟨some st', s', R, N, ?_, ?_⟩
  · rw [hexec]
    simp only [Prog.bind_run, hrun, Outcome.andThen_ok, Prog.pure_run]
  · rw [hheld]
    exact hinv

theorem schedule_advances (h : m.Inv R N) (hat : AtStage m.sched m.created R (m.held m.current) .schedule) :
    Advances m .schedule :=
  h.lock_advances hat .count rfl rfl rfl (by rw [show m.held m.current = [] from hat.holds]; rfl)
    (fun hr => hr) (fun _ hp => nomatch hp) fun _ hp => nomatch hp

theorem section_lock_advances (h : m.Inv R N) (f : Section P)
    (hat : AtStage m.sched m.created R (m.held m.current) (.lock f)) : Advances m (.lock f) := by
  refine h.lock_advances hat (.body f) rfl rfl rfl ?_ ?_ (fun _ hp => hp) fun _ hp => nomatch hp
  · rw [show m.held m.current = [false] from hat.holds]
    rfl
  · cases f with
    | dequeue => exact fun hr => hr
    | markkernelidle p => exact fun hr => hr
    | enqueue p => exact fun hr => hr
    | markrunning p => exact fun hr => hr

theorem section_unlock_advances (h : m.Inv R N) (f : Section P) (r : Option P)
    (hat : AtStage m.sched m.created R (m.held m.current) (.unlock f r)) : Advances m (.unlock f r) := by
  have hheld : m.held m.current = [false, false] := hat.holds
  obtain ⟨s', hrun, hinv⟩ := h.drop hheld [f.next r] fun s' hsame hirq => .inr ⟨f.next r, rfl, by
    rw [if_neg (List.cons_ne_nil _ _)] at hirq
    have hcounter := hsame.counter.trans hat.counter
    cases f with
    | dequeue =>
      exact hat.next hsame.view.currentproc hsame.view.state hirq hcounter rfl (fun hr => hr) (fun _ hp => hp)
        fun _ hp => nomatch hp
    | markkernelidle p =>
      exact hat.next hsame.view.currentproc hsame.view.state hirq hcounter rfl (fun hr => hr) (fun _ hp => hp)
        fun _ hp => nomatch hp
    | enqueue p =>
      exact hat.next hsame.view.currentproc hsame.view.state hirq hcounter rfl (fun hr => hr) (fun _ hp => hp)
        fun _ hp => nomatch hp
    | markrunning p =>
      exact hat.next hsame.view.currentproc hsame.view.state hirq hcounter rfl (fun hr => hr) (fun _ hp => hp)
        fun _ hp => hp⟩
  refine ⟨some (f.next r), s', R, N, ?_, hinv⟩
  simp only [Stage.exec, Prog.bind_run, hrun, Outcome.andThen_ok, Prog.pure_run]

/-- The end of the handler, or the beginning of a process's own code. -/
theorem release_advances (h : m.Inv R N) {interrupted : Bool}
    (hat : AtStage m.sched m.created R (m.held m.current) (.release interrupted)) :
    Advances m (.release interrupted) := by
  obtain ⟨b, hheld, hfound⟩ := hat.holds
  obtain ⟨s', hrun, hinv⟩ := h.drop hheld (if interrupted then [.iret] else []) fun s' hsame hirq => by
    rw [if_pos rfl] at hirq
    cases interrupted with
    | true =>
      rw [hfound rfl] at hirq
      exact .inr ⟨.iret, rfl, hat.next hsame.view.currentproc hsame.view.state hirq
        (hsame.counter.trans hat.counter) rfl
        (fun hr => hr) (fun _ hp => nomatch hp) fun _ hp => nomatch hp⟩
    | false =>
      refine .inl ⟨rfl, hsame.counter.trans hat.counter, ?_⟩
      rw [hsame.view.currentproc, hsame.view.state]
      exact hat.running fun hr => hr
  refine ⟨if interrupted then some .iret else none, s', R, N, ?_, ?_⟩
  · simp only [Stage.exec, Prog.bind_run, hrun, Outcome.andThen_ok, Prog.pure_run]
  · cases interrupted with
    | true => exact hinv
    | false => exact hinv

theorem iret_advances (h : m.Inv R N) (hat : AtStage m.sched m.created R (m.held m.current) .iret) :
    Advances m .iret := by
  have hheld : m.held m.current = [] := hat.holds
  refine ⟨none, { m.sched with irqOn := true }, R, N, rfl, ?_⟩
  exact h.quiet rfl (fun _ => ⟨rfl, rfl⟩) (fun hne => absurd hheld hne) h.queues
    (.inl ⟨rfl, hat.counter, hat.running fun hr => hr⟩)

/-- What is done under `schedulerqueuespin` moves processes between the queues. -/
theorem body_advances (h : m.Inv R N) (f : Section P)
    (hat : AtStage m.sched m.created R (m.held m.current) (.body f)) : Advances m (.body f) := by
  have hirq : m.held m.current ≠ [] → m.sched.irqOn = false := fun _ => hat.irqOn
  cases f with
  | dequeue =>
    obtain ⟨hoff, hrunning⟩ := hat.running fun hr => hr
    cases R with
    | nil =>
      refine h.quiet_advances hat (.unlock .dequeue none) ?_ rfl
        ⟨rfl, rfl, rfl, rfl, fun _ => rfl⟩ (fun _ => ⟨rfl, rfl⟩) rfl hat.counter hat.holds (fun hr => hr)
        (fun _ hp => by cases hp) fun _ hp => by cases hp
      simp only [Stage.exec, Section.run, Prog.bind_run, Prog.get_run, Outcome.andThen_ok,
        h.queues.empty_iff.mpr rfl, if_true, Prog.pure_run]
    | cons p R =>
      have hempty : ¬listEmpty m.sched.links .runnablelist = true :=
        fun hc => List.cons_ne_nil p R (h.queues.empty_iff.mp hc)
      have hp : p ∈ m.created := h.queues.mem_created List.mem_cons_self
      have hqueues := h.queues.del hp
      rw [List.erase_cons_head] at hqueues
      refine ⟨some (.unlock .dequeue (some p)), m.sched.listDelProc p, R, N.erase p, ?_, ?_⟩
      · simp only [Stage.exec, Section.run, Prog.bind_run, Prog.get_run, Outcome.andThen_ok, hempty,
          Bool.false_eq_true, if_false, h.queues.next_eq, Prog.modify_run, Prog.pure_run]
      · refine h.quiet rfl (fun _ => ⟨rfl, rfl⟩) hirq hqueues (.inr ⟨_, rfl, ?_⟩)
        refine ⟨hat.irqOn, hat.counter, hat.holds, fun _ => ?_, ?_, fun _ hp => by cases hp⟩
        · exact ⟨fun hm => hoff (List.mem_cons_of_mem p hm), hrunning⟩
        · intro q hq
          rw [← Option.some.inj hq]
          exact ⟨hp, fun e => hoff (e ▸ List.mem_cons_self)⟩
  | markkernelidle p =>
    refine ⟨some (.unlock (.markkernelidle p) (some p)), _, R.erase m.current, N.erase m.current, rfl, ?_⟩
    refine h.quiet rfl (quiet_setState m.sched m.current .KERNELIDLEPROC) hirq (h.queues.del h.current)
      (.inr ⟨_, rfl, ?_⟩)
    exact ⟨hat.irqOn, hat.counter, hat.holds, fun hr => absurd trivial hr, hat.target, fun _ hp => by cases hp⟩
  | enqueue p =>
    refine ⟨some (.unlock (.enqueue p) (some p)), _, R.erase m.current ++ [m.current], N.erase m.current, rfl, ?_⟩
    refine h.quiet rfl (quiet_setState m.sched m.current .RUNNABLE) hirq (h.queues.requeue h.current)
      (.inr ⟨_, rfl, ?_⟩)
    exact ⟨hat.irqOn, hat.counter, hat.holds, fun hr => absurd trivial hr, hat.target, fun _ hp => by cases hp⟩
  | markrunning p =>
    obtain ⟨hp, hpc⟩ := hat.target p rfl
    refine ⟨some (.unlock (.markrunning p) (some p)), _, R.erase p, N.erase p ++ [p], rfl, ?_⟩
    refine h.quiet rfl (quiet_setState m.sched p .RUNNING) hirq (h.queues.moveRunning hp) (.inr ⟨_, rfl, ?_⟩)
    refine ⟨hat.irqOn, hat.counter, hat.holds, fun hr => absurd trivial hr, hat.target, ?_⟩
    intro q hq
    rw [← Option.some.inj hq]
    refine ⟨h.queues.nodup.not_mem_erase, ?_⟩
    show ((m.sched.setState p .RUNNING).proc p).state = .RUNNING
    rw [Sched.setState_state, if_pos rfl]

/-- The switch: the old process stands where the new one stood. -/
theorem switch_advances (h : m.Inv R N) {p : P}
    (hat : AtStage m.sched m.created R (m.held m.current) (.switch p)) : Advances m (.switch p) := by
  obtain ⟨hp, hpc⟩ := hat.target p rfl
  obtain ⟨hoff, hrunning⟩ := hat.marked p rfl
  obtain ⟨i, hframes, hholds⟩ := h.suspended p hp hpc
  have hheld : m.held m.current = [false] := hat.holds
  have hquiet := quiet_setProc { m.sched with currentproc := p } p (fun x => { x with sliceTicks := 2 })
    fun _ => ⟨rfl, rfl⟩
  refine ⟨some (.finish true), _, R, N, rfl, ?_⟩
  have hother : ∀ q, q ≠ m.current → Function.update m.held m.current (m.held m.current) q = m.held q ∧
      Function.update m.frames m.current [.finish true] q = m.frames q :=
    fun q hq => ⟨Function.update_of_ne hq .., Function.update_of_ne hq ..⟩
  refine ⟨?_, fun _ => hat.irqOn, h.queues, hp, ?_, .inr ⟨.finish i, ?_, ?_⟩⟩
  · intro q hq
    show Counts _ q (Function.update m.held m.current (m.held m.current) q)
    rw [Function.update_eq_self]
    exact (h.counts q hq).congr (hquiet q).1 (hquiet q).2
  · intro q hq hqp
    show ∃ i, Function.update m.frames m.current [.finish true] q = [.finish i] ∧
      (Stage.finish i).Holds (Function.update m.held m.current (m.held m.current) q)
    by_cases hqc : q = m.current
    · rw [hqc, Function.update_self, Function.update_self]
      exact ⟨true, rfl, false, hheld, fun _ => rfl⟩
    · rw [(hother q hqc).1, (hother q hqc).2]
      exact h.suspended q hq hqc
  · exact (hother p hpc).2.trans hframes
  · refine ⟨hat.irqOn, hat.counter, ?_, fun _ => ⟨hoff, ?_⟩, (fun _ hp => nomatch hp), fun _ hp => nomatch hp⟩
    · show (Stage.finish i).Holds (Function.update m.held m.current (m.held m.current) p)
      rw [(hother p hpc).1]
      exact hholds
    · exact (Sched.setProc_state { m.sched with currentproc := p } p p (fun x => { x with sliceTicks := 2 })
        fun _ => rfl).trans hrunning

/-- Wherever in the handler the current process stands, its next step is no panic. -/
theorem advances (h : m.Inv R N) {st : Stage P} (hat : AtStage m.sched m.created R (m.held m.current) st) :
    Advances m st := by
  cases st with
  | tick => exact h.tick_advances hat
  | schedule => exact h.schedule_advances hat
  | count => exact h.count_advances hat
  | lock f => exact h.section_lock_advances f hat
  | body f => exact h.body_advances f hat
  | unlock f r => exact h.section_unlock_advances f r hat
  | choose r => exact h.choose_advances hat
  | select p => exact h.select_advances hat
  | switch p => exact h.switch_advances hat
  | finish interrupted => exact h.finish_advances hat
  | release interrupted => exact h.release_advances hat
  | iret => exact h.iret_advances hat

/-! ## Own code and the timer -/

omit [DecidableEq P] in
theorem own (h : m.Inv R N) (hown : m.Own) : m.sched.schedulercounter = 0 ∧ m.sched.currentproc ∉ R ∧
    (m.sched.proc m.sched.currentproc).state = .RUNNING := by
  rcases h.place with ⟨-, hplace⟩ | ⟨st, hframes, -⟩
  · exact hplace
  · rw [show m.frames m.current = [] from hown] at hframes
    cases hframes

theorem own_lock (h : m.Inv R N) (hown : m.Own) : ∃ s', spinlock m.sched = .ok () s' ∧
    (m.after s' [] (m.sched.irqOn :: m.held m.current)).Inv R N := by
  refine h.acquire [] fun s' hsame _ => .inl ⟨rfl, ?_⟩
  rw [hsame.counter, hsame.view.currentproc, hsame.view.state]
  exact h.own hown

theorem own_unlock (h : m.Inv R N) (hown : m.Own) (hheld : m.held m.current ≠ []) :
    ∃ s', spinunlock m.sched = .ok () s' ∧ (m.after s' [] (m.held m.current).tail).Inv R N := by
  obtain ⟨b, locks, hlocks⟩ := List.exists_cons_of_ne_nil hheld
  refine h.drop hlocks [] fun s' hsame _ => .inl ⟨rfl, ?_⟩
  rw [hsame.counter, hsame.view.currentproc, hsame.view.state]
  exact h.own hown

omit [DecidableEq P] in
/-- With the flag set, the current process holds no lock and is in its own code. -/
theorem interruptible (h : m.Inv R N) (hirq : m.sched.irqOn = true) : m.held m.current = [] ∧ m.Own := by
  constructor
  · by_contra hne
    rw [h.masked hne] at hirq
    cases hirq
  · rcases h.place with ⟨hframes, -⟩ | ⟨st, -, hat⟩
    · exact hframes
    · rw [hat.irqOn] at hirq
      cases hirq

theorem timer (h : m.Inv R N) (hirq : m.sched.irqOn = true) :
    (m.after { m.sched with irqOn := false } (.tick :: m.frames m.current) (m.held m.current)).Inv R N := by
  obtain ⟨hheld, hown⟩ := h.interruptible hirq
  obtain ⟨hcounter, hrunning⟩ := h.own hown
  refine h.quiet rfl (fun _ => ⟨rfl, rfl⟩) (fun _ => rfl) h.queues (.inr ⟨.tick, ?_, ?_⟩)
  · rw [show m.frames m.current = [] from hown]
  · exact ⟨rfl, hcounter, hheld, fun _ => hrunning, (fun _ hp => nomatch hp), fun _ hp => nomatch hp⟩

theorem prepare (h : m.Inv R N) (hown : m.Own) {p : P} (hp : p ∉ m.created) :
    Nest.Inv ⟨procCreate p m.sched, Function.update m.frames p [.finish false], insert p m.created,
      Function.update m.held p [preparedProc.intenable]⟩ R N := by
  have hcp : m.current ≠ p := fun e => hp (e ▸ h.current)
  obtain ⟨hcounter, hoff, hrunning⟩ := h.own hown
  refine ⟨?_, ?_, h.queues.create hp, Set.mem_insert_of_mem p h.current, ?_, .inl ⟨?_, hcounter, hoff, ?_⟩⟩
  · intro q hq
    by_cases hqp : q = p
    · subst hqp
      show Counts _ q (Function.update m.held q _ q)
      rw [Function.update_self]
      refine ⟨?_, fun b hb => ?_⟩
      · show (Function.update m.sched.proc q preparedProc q).ncli = _
        rw [Function.update_self]
        rfl
      · show (Function.update m.sched.proc q preparedProc q).intenable = _
        rw [Function.update_self]
        exact Option.some.inj hb
    · show Counts _ q (Function.update m.held p _ q)
      rw [Function.update_of_ne hqp]
      have hsame := procCreate_ne (s := m.sched) hqp
      exact (h.counts q (Set.mem_of_mem_insert_of_ne hq hqp)).congr (by rw [hsame]) (by rw [hsame])
  · show Function.update m.held p _ m.current ≠ [] → _
    rw [Function.update_of_ne hcp]
    exact h.masked
  · intro q hq hqc
    show ∃ i, Function.update m.frames p _ q = _ ∧ (Stage.finish i).Holds (Function.update m.held p _ q)
    by_cases hqp : q = p
    · subst hqp
      rw [Function.update_self, Function.update_self]
      exact ⟨false, rfl, _, rfl, fun e => nomatch e⟩
    · rw [Function.update_of_ne hqp, Function.update_of_ne hqp]
      exact h.suspended q (Set.mem_of_mem_insert_of_ne hq hqp) hqc
  · exact (Function.update_of_ne hcp ..).trans hown
  · show (Function.update m.sched.proc p preparedProc m.current).state = .RUNNING
    rw [Function.update_of_ne hcp]
    exact hrunning

theorem enqueue (h : m.Inv R N) (hown : m.Own) {p : P} (hp : p ∈ m.created) (hother : p ≠ m.current) {s' : Sched P}
    (hrun : schedulerEnqueueUnlocked p m.sched = .ok () s') :
    Nest.Inv { m with sched := s' } (R.erase p ++ [p]) (N.erase p) := by
  obtain ⟨hcounter, hoff, hrunning⟩ := h.own hown
  have hquiet := quiet_setState m.sched p .RUNNABLE
  cases hrun
  refine ⟨?_, h.masked, h.queues.requeue hp, h.current, h.suspended, .inl ⟨hown, hcounter, ?_, ?_⟩⟩
  · intro q hq
    exact (h.counts q hq).congr (hquiet q).1 (hquiet q).2
  · intro hm
    rcases List.mem_append.mp hm with hm | hm
    · exact hoff (List.mem_of_mem_erase hm)
    · exact hother (List.mem_singleton.mp hm).symm
  · show ((m.sched.setState p .RUNNABLE).proc m.current).state = .RUNNING
    rw [Sched.setState_state, if_neg (Ne.symm hother)]
    exact hrunning

omit [DecidableEq P] in
theorem idle (h : m.Inv R N) : Nest.Inv { m with sched := { m.sched with idleproc := some m.current } } R N := by
  refine ⟨fun p hp => (h.counts p hp).congr rfl rfl, h.masked, h.queues, h.current, h.suspended, ?_⟩
  rcases h.place with hplace | ⟨st, hframes, hat⟩
  · exact .inl hplace
  · exact .inr ⟨st, hframes, hat.irqOn, hat.counter, hat.holds, hat.running, hat.target, hat.marked⟩

theorem startInterrupts (h : m.Inv R N) (hown : m.Own) (hheld : m.held m.current = []) :
    Nest.Inv { m with
      sched := { m.sched.setProc m.current fun x => { x with intenable := true } with irqOn := true } } R N := by
  obtain ⟨hcounter, hoff, hrunning⟩ := h.own hown
  have hsame := sameBut_setProc m.sched (fun x => { x with intenable := true }) (fun _ => rfl) true
  refine ⟨?_, fun hne => absurd hheld hne, h.queues, h.current, h.suspended, .inl ⟨hown, hcounter, hoff, ?_⟩⟩
  · intro q hq
    by_cases hqc : q = m.current
    · subst hqc
      have hcounts := (h.counts _ h.current).ncli
      rw [hheld] at hcounts ⊢
      refine ⟨?_, fun b hb => nomatch hb⟩
      exact (Sched.setProc_ncli m.sched m.current m.current (fun x => { x with intenable := true }) fun _ => rfl).trans
        hcounts
    · have hothers := hsame.others q hqc
      exact (h.counts q hq).congr (congrArg Proc.ncli hothers) (congrArg Proc.intenable hothers)
  · exact (hsame.view.state m.current).trans hrunning

end Nest.Inv

/-! ## Runs -/

theorem NestStep.inv {m m' : Nest P} {R N : List P} (hstep : NestStep m m') (h : m.Inv R N) :
    ∃ R' N', m'.Inv R' N' := by
  cases hstep with
  | spinlock s' hown hrun =>
    obtain ⟨t, hrun', hinv⟩ := h.own_lock hown
    cases hrun.symm.trans hrun'
    exact ⟨R, N, hinv⟩
  | spinunlock s' hown hheld hrun =>
    obtain ⟨t, hrun', hinv⟩ := h.own_unlock hown hheld
    cases hrun.symm.trans hrun'
    exact ⟨R, N, hinv⟩
  | prepare p hown hp => exact ⟨R, N, h.prepare hown hp⟩
  | enqueue p s' hown hheld hp hother hrun => exact ⟨_, _, h.enqueue hown hp hother hrun⟩
  | idle hown => exact ⟨R, N, h.idle⟩
  | startInterrupts hown hheld => exact ⟨R, N, h.startInterrupts hown hheld⟩
  | timer hirq => exact ⟨R, N, h.timer hirq⟩
  | handler st rest next s' hframes hrun =>
    rcases h.place with ⟨hown, -⟩ | ⟨st', hframes', hat⟩
    · rw [hown] at hframes
      cases hframes
    · rw [hframes'] at hframes
      cases hframes
      obtain ⟨next', t, R', N', hrun', hinv⟩ := h.advances hat
      cases hrun.symm.trans hrun'
      rw [List.append_nil]
      exact ⟨R', N', hinv⟩

theorem BootSched.nest {s : Sched P} (h : BootSched s) : (bootNest s).Inv [] [] := by
  refine ⟨?_, fun hne => absurd rfl hne, h.inv.ready.queues, rfl, fun p hp hne => absurd hp hne,
    .inl ⟨rfl, h.counter, (fun hm => nomatch hm), h.state⟩⟩
  intro p hp
  rw [show p = s.currentproc from hp]
  exact ⟨h.ncli, fun b hb => nomatch hb⟩

theorem NestRun.inv {s : Sched P} {m : Nest P} (h : BootSched s) (hrun : NestRun (bootNest s) m) :
    ∃ R N, m.Inv R N := by
  induction hrun with
  | refl => exact ⟨[], [], h.nest⟩
  | tail _ hstep ih =>
    obtain ⟨R, N, hinv⟩ := ih
    exact hstep.inv hinv

/-- What holds in every state of a run. -/
structure NestingDiscipline (m : Nest P) : Prop where
  counts : (m.sched.proc m.current).ncli = (m.held m.current).length
  masked : 0 < (m.sched.proc m.current).ncli → m.sched.irqOn = false
  /-- The outermost unlock gives back the flag as the outermost lock found it. -/
  restores : ∀ b s', m.held m.current = [b] → spinunlock m.sched = .ok () s' → s'.irqOn = b
  suspended : ∀ p ∈ m.created, p ≠ m.current → (m.sched.proc p).ncli = 1 ∧ ∃ b, m.held p = [b]
  counter : m.sched.schedulercounter = 0 ∨ m.sched.schedulercounter = 1
  /-- No step panics, in a process's own code or in the handler. -/
  locks : m.Own → ∃ s', spinlock m.sched = .ok () s'
  unlocks : m.Own → m.held m.current ≠ [] → ∃ s', spinunlock m.sched = .ok () s'
  handler : ∀ st rest, m.frames m.current = st :: rest → ∃ next s', st.exec m.sched = .ok next s'

omit [DecidableEq P] in
theorem Stage.counter_le (st : Stage P) : st.counter = 0 ∨ st.counter = 1 := by
  cases st <;> simp [Stage.counter]

theorem Nest.Inv.discipline {m : Nest P} {R N : List P} (h : m.Inv R N) : NestingDiscipline m where
  counts := (h.counts _ h.current).ncli
  masked hn := by
    refine h.masked fun hheld => ?_
    rw [(h.counts _ h.current).ncli, hheld] at hn
    exact absurd hn (lt_irrefl _)
  restores b s' hheld hrun := by
    have hcounts := h.counts _ h.current
    rw [hheld] at hcounts
    obtain ⟨t, hrun', -, -, hirq⟩ := spinunlock_counts hcounts (h.masked (by rw [hheld]; exact List.cons_ne_nil b []))
    cases hrun.symm.trans hrun'
    exact hirq
  suspended p hp hne := by
    obtain ⟨i, -, b, hheld, -⟩ := h.suspended p hp hne
    refine ⟨?_, b, hheld⟩
    rw [(h.counts p hp).ncli, hheld]
    rfl
  counter := by
    rcases h.place with ⟨-, hcounter, -⟩ | ⟨st, -, hat⟩
    · exact .inl hcounter
    · rw [hat.counter]
      exact st.counter_le
  locks hown := by
    obtain ⟨s', hrun, -⟩ := h.own_lock hown
    exact ⟨s', hrun⟩
  unlocks hown hheld := by
    obtain ⟨s', hrun, -⟩ := h.own_unlock hown hheld
    exact ⟨s', hrun⟩
  handler st rest hframes := by
    rcases h.place with ⟨hown, -⟩ | ⟨st', hframes', hat⟩
    · rw [hown] at hframes
      cases hframes
    · rw [hframes'] at hframes
      cases hframes
      obtain ⟨next, s', -, -, hrun, -⟩ := h.advances hat
      exact ⟨next, s', hrun⟩

/-- **Locks, counters and the interrupt flag agree in every state of every run**, and no step of it panics. -/
theorem nesting_discipline (s : Sched P) (m : Nest P) (h : BootSched s) (hrun : NestRun (bootNest s) m) :
    NestingDiscipline m := by
  obtain ⟨R, N, hinv⟩ := hrun.inv h
  exact hinv.discipline

/-! ## A concrete run -/

/-- The next step of the handler that the current process stands in. -/
def Nest.handle (m : Nest P) : Option (Nest P) :=
  match m.frames m.current with
  | [] => none
  | st :: rest =>
    match st.exec m.sched with
    | .ok next s' => some (m.after s' (next.toList ++ rest) (st.heldAfter m.sched.irqOn (m.held m.current)))
    | _ => none

def Nest.handleTimes : ℕ → Nest P → Option (Nest P)
  | 0, m => some m
  | n + 1, m => m.handle.bind (Nest.handleTimes n)

theorem Nest.handle_step {m m' : Nest P} (h : m.handle = some m') : NestStep m m' := by
  unfold Nest.handle at h
  split at h
  · cases h
  · next st rest hframes =>
    split at h
    · next next s' hexec =>
      cases h
      exact .handler st rest next s' hframes hexec
    · cases h

theorem Nest.handleTimes_run {n : ℕ} {m m' : Nest P} (h : m.handleTimes n = some m') : NestRun m m' := by
  induction n generalizing m with
  | zero =>
    cases h
    exact .refl
  | succ n ih =>
    obtain ⟨m₁, hstep, hrest⟩ := Option.bind_eq_some_iff.mp h
    exact .head (Nest.handle_step hstep) (ih hrest)

/-- The state a command returns in. -/
def stateAfter (x : Prog (Sched ℕ) Unit) (s : Sched ℕ) : Sched ℕ :=
  match x s with
  | .ok _ t => t
  | _ => s

def Nest.locked (m : Nest ℕ) : Nest ℕ :=
  m.after (stateAfter spinlock m.sched) [] (m.sched.irqOn :: m.held m.current)

def Nest.unlocked (m : Nest ℕ) : Nest ℕ := m.after (stateAfter spinunlock m.sched) [] (m.held m.current).tail

def prepared : Nest ℕ where
  sched := procCreate 1 oneProc
  frames := Function.update (fun _ => []) 1 [.finish false]
  created := {1, 0}
  held := Function.update (fun _ => []) 1 [true]

def enqueued : Nest ℕ :=
  { prepared.locked.locked with sched := stateAfter (schedulerEnqueueUnlocked 1) prepared.locked.locked.sched }

def ticked : Nest ℕ :=
  enqueued.unlocked.unlocked.after { enqueued.unlocked.unlocked.sched with irqOn := false } [.tick] []

theorem locked_run : NestRun (bootNest oneProc) prepared.locked.locked := by
  have hprepare : NestStep (bootNest oneProc) prepared := .prepare 1 rfl (by simp [bootNest, oneProc])
  have hfirst : NestStep prepared prepared.locked := .spinlock _ rfl rfl
  have hsecond : NestStep prepared.locked prepared.locked.locked := .spinlock _ rfl rfl
  exact ((Relation.ReflTransGen.single hprepare).tail hfirst).tail hsecond

theorem ticked_run : NestRun prepared.locked.locked ticked := by
  have henqueue : NestStep prepared.locked.locked enqueued :=
    .enqueue 1 _ rfl (List.cons_ne_nil _ _) (Set.mem_insert 1 _) (by decide) rfl
  have hfirst : NestStep enqueued enqueued.unlocked := .spinunlock _ rfl (List.cons_ne_nil _ _) rfl
  have hsecond : NestStep enqueued.unlocked enqueued.unlocked.unlocked := .spinunlock _ rfl (List.cons_ne_nil _ _) rfl
  have htimer : NestStep enqueued.unlocked.unlocked ticked := .timer rfl
  exact (((Relation.ReflTransGen.single henqueue).tail hfirst).tail hsecond).tail htimer

/-- The boot process takes two locks, one inside the other. After it has released them the timer ticks, and process 1
gets the processor. -/
theorem nesting_discipline_two_locks : ∃ m n : Nest ℕ, NestRun (bootNest oneProc) m ∧
    m.held m.current = [false, true] ∧ NestingDiscipline m ∧ NestRun m n ∧
    (n.current = 1 ∧ n.Own ∧ n.held 0 = [false] ∧ n.sched.switches = 1) ∧ NestingDiscipline n := by
  have hview : (ticked.handleTimes 17).map (fun n =>
      (n.current, (n.frames n.current).length, n.held 0, n.sched.switches)) =
      some (1, 0, [false], 1) := by decide +kernel
  obtain ⟨n, hn, hview⟩ := Option.map_eq_some_iff.mp hview
  simp only [Prod.mk.injEq, List.length_eq_zero_iff] at hview
  have hrun := ticked_run.trans (Nest.handleTimes_run hn)
  exact ⟨_, n, locked_run, rfl, nesting_discipline oneProc _ oneProc_boot locked_run, hrun, hview,
    nesting_discipline oneProc _ oneProc_boot (locked_run.trans hrun)⟩

end Borgos.Kcore
