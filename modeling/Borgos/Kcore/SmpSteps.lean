import Borgos.Kcore.SmpInv

/-! # The steps of a CPU that move no process

Most steps leave every process where it is: what is left to show of them is what they do with the locks, the nesting
count and the links.
-/
namespace Borgos.Kcore
open Borgos.Foundations Borgos.Foundations.Intrusive Interleaving
set_option autoImplicit false

variable {A P : Type} [DecidableEq A] [DecidableEq P]

@[simp] theorem CpuView.setState_self (v : CpuView P) (q : P) (st : ProcState) :
    (v.setState q st).shared.proc q = { v.shared.proc q with state := st } :=
  Function.update_self ..

theorem CpuView.setState_ne (v : CpuView P) {p q : P} (st : ProcState) (h : p ≠ q) :
    (v.setState q st).shared.proc p = v.shared.proc p :=
  Function.update_of_ne h ..

/-! ## Steps that move no process -/

/-- What most steps leave alone. -/
structure SameFor (v v' : CpuView P) : Prop where
  currentproc : v'.cpu.currentproc = v.cpu.currentproc
  idleproc : v'.cpu.idleproc = v.cpu.idleproc
  stack : v'.cpu.stack = v.cpu.stack
  context : v'.shared.context = v.shared.context
  embryos : v'.shared.embryos = v.shared.embryos
  state : ∀ q, (v'.shared.proc q).state = (v.shared.proc q).state
  counts : ∀ q, q ≠ v.cpu.currentproc → (v'.shared.proc q).ncli = (v.shared.proc q).ncli ∧
    (v'.shared.proc q).intenable = (v.shared.proc q).intenable

omit [DecidableEq P] in
theorem SameFor.refl (v : CpuView P) : SameFor v v := ⟨rfl, rfl, rfl, rfl, rfl, fun _ => rfl, fun _ _ => ⟨rfl, rfl⟩⟩

omit [DecidableEq P] in
theorem onCpu_run {α : Type} {f : Prog (Sched P) α} {v : CpuView P} {r : α} {t : Sched P} (h : f v.sched = .ok r t) :
    onCpu f v = .ok r (v.put t) := by
  unfold onCpu Prog.zoom
  rw [h]

omit [DecidableEq P] in
theorem SameBut.sameFor {v : CpuView P} {t : Sched P} (h : SameBut v.sched t) : SameFor v (v.put t) where
  currentproc := h.view.currentproc
  idleproc := h.view.idleproc
  stack := rfl
  context := rfl
  embryos := rfl
  state := h.view.state
  counts q hq := by
    have hsame : t.proc q = v.shared.proc q := h.others q hq
    show (t.proc q).ncli = _ ∧ (t.proc q).intenable = _
    rw [hsame]
    exact ⟨rfl, rfl⟩

/-- `irq_save` on one CPU. -/
theorem onCpu_irqSave {v : CpuView P} {locks : List Bool} (h : Counted v.shared.proc v.cpu.currentproc locks)
    (hmasked : locks ≠ [] → v.cpu.irqOn = false) : ∃ v', onCpu irqSave v = .ok () v' ∧ SameFor v v' ∧
      v'.cpu.irqOn = false ∧ v'.shared.lock = v.shared.lock ∧ v'.shared.links = v.shared.links ∧
      v'.shared.schedulercounter = v.shared.schedulercounter ∧
      Counted v'.shared.proc v.cpu.currentproc (v.cpu.irqOn :: locks) := by
  obtain ⟨t, hrun, hsame, hirq, hcounts⟩ := spinlock_counts (s := v.sched) ⟨h.ncli, h.flag⟩ hmasked
  exact ⟨v.put t, onCpu_run hrun, hsame.sameFor, hirq, rfl, hsame.view.links, hsame.counter, hcounts.ncli, hcounts.flag⟩

/-- `irq_restore` on one CPU. -/
theorem onCpu_irqRestore {v : CpuView P} {b : Bool} {locks : List Bool}
    (h : Counted v.shared.proc v.cpu.currentproc (b :: locks)) (hmasked : v.cpu.irqOn = false) :
    ∃ v', onCpu irqRestore v = .ok () v' ∧ SameFor v v' ∧ v'.cpu.irqOn = (if locks = [] then b else false) ∧
      v'.shared.lock = v.shared.lock ∧ v'.shared.links = v.shared.links ∧
      v'.shared.schedulercounter = v.shared.schedulercounter ∧
      Counted v'.shared.proc v.cpu.currentproc locks := by
  obtain ⟨t, hrun, hsame, hcounts, hirq⟩ := spinunlock_counts (s := v.sched) ⟨h.ncli, h.flag⟩ hmasked
  exact ⟨v.put t, onCpu_run hrun, hsame.sameFor, hirq, rfl, hsame.view.links, hsame.counter, hcounts.ncli, hcounts.flag⟩

theorem onCpu_tickCount (v : CpuView P) : ∃ v', onCpu tickCount v = .ok () v' ∧ SameFor v v' ∧
    v'.cpu.irqOn = v.cpu.irqOn ∧ v'.shared.lock = v.shared.lock ∧ v'.shared.links = v.shared.links ∧
    v'.shared.schedulercounter = v.shared.schedulercounter ∧
    ∀ q, (v'.shared.proc q).ncli = (v.shared.proc q).ncli ∧
      (v'.shared.proc q).intenable = (v.shared.proc q).intenable := by
  obtain ⟨t, hrun, hview, hquiet, hirq, hcounter⟩ := tickCount_run v.sched
  exact ⟨v.put t, onCpu_run hrun,
    ⟨hview.currentproc, hview.idleproc, rfl, rfl, rfl, hview.state, fun q _ => hquiet q⟩, hirq, rfl, hview.links,
    hcounter, hquiet⟩

section Same
variable {g : SmpGhost A P} {a : A} {v v' : CpuView P} {next : SmpPoint P}

omit [DecidableEq A] [DecidableEq P] in
theorem Phase.Holds.same {ph : Phase P} (h : ph.Holds g a v.cpu v.shared) (hsame : SameFor v v') :
    ph.Holds g a { v'.cpu with point := next } v'.shared := by
  cases ph with
  | run => simpa only [Phase.Holds, hsame.currentproc, hsame.stack, hsame.state] using h
  | leave => simpa only [Phase.Holds, hsame.currentproc, hsame.stack, hsame.state] using h
  | gone => simpa only [Phase.Holds, hsame.currentproc, hsame.stack, hsame.state] using h
  | swap p => simpa only [Phase.Holds, hsame.currentproc, hsame.stack, hsame.state] using h

omit [DecidableEq A] in
/-- The CPU is at the next point and moves the same process. -/
theorem AtPoint.same (h : AtPoint g a v.cpu v.shared) (hsame : SameFor v v')
    (hirq : next ≠ .own → v'.cpu.irqOn = false) (hcounts : Nested v'.shared.proc v.cpu.stack next.locks)
    (hcounter : next.inside .schedulerspin → v'.shared.schedulercounter = next.counter)
    (hphase : next.phase.Holds g a v.cpu v.shared) (hwf : next.Wf g { v'.cpu with point := next } v'.shared)
    (hmarked : ∀ p, next.marked = some p → (v.shared.proc p).state = .RUNNING)
    (hcarried : next.carried = v.cpu.point.carried) : AtPoint g a { v'.cpu with point := next } v'.shared where
  irqOn := hirq
  counts := by
    show Nested v'.shared.proc v'.cpu.stack next.locks
    rwa [hsame.stack]
  counter := hcounter
  phase := by
    show next.phase.Holds g a _ _
    exact hphase.same hsame
  wf := hwf
  marked p hp := by
    rw [hsame.state]
    exact hmarked p hp
  carried p := by
    show _ ↔ next.carried = some p
    rw [hcarried]
    exact h.carried p
  current p hp := by
    rw [← h.current p hp]
    exact hsame.currentproc
  idle p hp := by
    rw [← h.idle p hp]
    exact hsame.idleproc
  idleproc p hp := h.idleproc p (by rw [← hsame.idleproc]; exact hp)

end Same

namespace SmpInv
variable {g g' : SmpGhost A P} {x : Config A (SmpCpu P) (SmpShared P)} {a : A} {next : SmpPoint P} {v : CpuView P}

/-- Nobody has moved, and the CPU deals with the locks, the counter and the links as it may. -/
theorem quiet (h : SmpInv g x) (hsame : SameFor ⟨x.thread a, x.shared⟩ v)
    (hlocks : ∀ l, Respects SmpCpu.inside SmpShared.taken l (x.thread a) x.shared { v.cpu with point := next } v.shared)
    (hcur : ∀ q, q ≠ (x.thread a).stack → (v.shared.proc q).ncli = (x.shared.proc q).ncli ∧
      (v.shared.proc q).intenable = (x.shared.proc q).intenable)
    (hcounter : (x.thread a).inside .schedulerspin ∨ v.shared.schedulercounter = x.shared.schedulercounter)
    (hcounter' : (x.thread a).inside .schedulerspin → ¬next.inside .schedulerspin → v.shared.schedulercounter = 0)
    (hlinks : (x.thread a).inside .schedulerqueuespin ∨ v.shared.links = x.shared.links)
    (hlinks' : (x.thread a).inside .schedulerqueuespin → ¬next.inside .schedulerqueuespin → v.shared.links = g.links)
    (hpoint : AtPoint g a { v.cpu with point := next } v.shared) :
    SmpInv g (x.move a { v.cpu with point := next } v.shared) := by
  have hstack : ({ v.cpu with point := next } : SmpCpu P).stack = (x.thread a).stack := hsame.stack
  refine h.move hlocks ?_ hpoint h.queues h.runnable ?_ ?_ ?_ ?_ ?_
  · exact ⟨fun _ => .inl rfl, fun q => .inr (.inr (hsame.state q)),
      fun q => (eq_or_ne q _).imp_right (hcur q), hcounter, .inr hsame.context,
      hlinks.imp_right fun hl => ⟨hl, rfl, rfl, rfl⟩⟩
  · intro hothers hout
    rcases hlinks with hin | hl
    · exact hlinks' hin hout
    · by_cases hin : (x.thread a).inside .schedulerqueuespin
      · exact hlinks' hin hout
      · rw [hl]
        refine h.links fun b => ?_
        by_cases hba : b = a
        · rwa [hba]
        · exact hothers b hba
  · intro hothers hout
    rcases hcounter with hin | hc
    · exact hcounter' hin hout
    · by_cases hin : (x.thread a).inside .schedulerspin
      · exact hcounter' hin hout
      · rw [hc]
        refine h.counter fun b => ?_
        by_cases hba : b = a
        · rwa [hba]
        · exact hothers b hba
  · intro b hba
    rw [hstack]
    exact fun e => hba (h.distinct b a e)
  · intro p hp
    rw [hstack]
    rcases h.suspended p hp with ⟨b, hb⟩ | ⟨i, hcontext, hcounted⟩
    · by_cases hba : b = a
      · exact .inl (hba ▸ hb)
      · exact .inr (.inl ⟨b, hba, hb⟩)
    · by_cases hpa : (x.thread a).stack = p
      · exact .inl hpa
      · refine .inr (.inr ⟨i, ?_, hcounted.congr (hcur p (Ne.symm hpa)).1 (hcur p (Ne.symm hpa)).2⟩)
        rw [hsame.context]
        exact hcontext
  · intro p
    rw [hsame.embryos]
    exact h.embryos p

/-- A step that touches no lock and no link, and that does not change the counter either. -/
theorem still (h : SmpInv g x) (hsame : SameFor ⟨x.thread a, x.shared⟩ v)
    (hcurrent : (x.thread a).currentproc = (x.thread a).stack) (hlock : v.shared.lock = x.shared.lock)
    (hinside : ∀ l, next.inside l ↔ (x.thread a).point.inside l)
    (hcounter : v.shared.schedulercounter = x.shared.schedulercounter) (hlinks : v.shared.links = x.shared.links)
    (hpoint : AtPoint g a { v.cpu with point := next } v.shared) :
    SmpInv g (x.move a { v.cpu with point := next } v.shared) := by
  refine h.quiet hsame (fun l => .keep (hinside l) ?_) (fun q hq => hsame.counts q ?_) (.inr hcounter) ?_
    (.inr hlinks) ?_
    hpoint
  · show v.shared.lock l ≠ _ ↔ x.shared.lock l ≠ _
    rw [hlock]
  · show q ≠ (x.thread a).currentproc
    rwa [hcurrent]
  · exact fun hin hout => absurd ((hinside _).mpr hin) hout
  · exact fun hin hout => absurd ((hinside _).mpr hin) hout

end SmpInv

/-! ## The calls under `schedulerqueuespin` -/

omit [DecidableEq P] in
theorem QueueCall.before_ne (f : QueueCall P) (p : P) : f.before ≠ .swap p := by
  rcases f with _ | _ | _ | _ <;> exact fun e => by cases e

omit [DecidableEq A] [DecidableEq P] in
/-- The process is still current when the call begins. -/
theorem QueueCall.during_holds (f : QueueCall P) {g : SmpGhost A P} {a : A} {c : SmpCpu P} {s : SmpShared P}
    (h : f.before.Holds g a c s) : f.during.Holds g a c s := by
  rcases f with _ | _ | ⟨q, _ | p⟩ | _
  · exact h
  · exact ⟨h.1, h.2.1⟩
  · exact h
  · exact ⟨h.1, h.2.1⟩
  · exact h

omit [DecidableEq P] in
/-- `f.Own` speaks of the CPU's stack and idle process. -/
theorem QueueCall.Own.congr {f : QueueCall P} {c c' : SmpCpu P} (h : f.Own c) (hstack : c'.stack = c.stack)
    (hidle : c'.idleproc = c.idleproc) : f.Own c' := by
  rcases f with _ | ⟨q, p⟩ | ⟨q, _ | p⟩ | p
  · trivial
  · exact ⟨h.1.trans hstack.symm, hidle.trans h.2⟩
  · trivial
  · exact ⟨h.1.trans hstack.symm, fun e => h.2 (hidle.symm.trans e)⟩
  · trivial

omit [DecidableEq A] in
/-- The list operations of a call begin with the links of the ghost. -/
theorem QueueCall.body_fits (f : QueueCall P) {g : SmpGhost A P} {links : Links (QNode P)} (h : links = g.links) :
    f.body.Fits f g links := by
  rcases f with _ | ⟨q, p⟩ | ⟨q, p⟩ | p
  · exact .empty rfl h
  · exact .state q _ none (.markkernelidle q p) (fun _ e => by cases e) h
  · exact .state q _ _ (.enqueue q p) (fun _ e => by cases e) h
  · exact .state p _ _ (.markrunning p) (fun _ _ => rfl) h

omit [DecidableEq P] in
/-- A call with interrupts off nests the one lock deeper. -/
theorem QueueCall.locks_outer (f : QueueCall P) : f.locks false = false :: f.outer := by
  rcases f with _ | _ | ⟨q, _ | p⟩ | _ <;> rfl

omit [DecidableEq P] in
theorem QueueCall.body_marked (f : QueueCall P) : f.body.marked f = none := by
  rcases f with _ | _ | _ | _ <;> rfl

/-! ## The points -/

/-- The step of a CPU: it is no panic, and the invariant holds again, of the same processes. -/
def SmpAdvances (g : SmpGhost A P) (x : Config A (SmpCpu P) (SmpShared P)) (a : A) (pt : SmpPoint P) : Prop :=
  ∃ next v g', pt.exec ⟨x.thread a, x.shared⟩ = .ok next v ∧
    SmpInv g' (x.move a { v.cpu with point := next } v.shared) ∧ g'.created = g.created

namespace SmpInv
variable {g g' : SmpGhost A P} {x : Config A (SmpCpu P) (SmpShared P)} {a : A} {pt : SmpPoint P}

omit [DecidableEq A] in
theorem own_run (h : SmpInv g x) (ha : (x.thread a).point = pt) (hphase : pt.phase = .run) :
    (x.thread a).currentproc = (x.thread a).stack ∧ g.place (x.thread a).stack = .cpu a ∧
      (x.shared.proc (x.thread a).stack).state = .RUNNING := by
  have hholds := (h.point a).phase
  rwa [ha, hphase] at hholds

omit [DecidableEq A] in
/-- Only `cpu_swapcontext` runs on another stack than the current process's. -/
theorem current_eq (h : SmpInv g x) (ha : (x.thread a).point = pt) (hphase : ∀ p, pt.phase ≠ .swap p) :
    (x.thread a).currentproc = (x.thread a).stack := by
  have hholds := (h.point a).phase
  rw [ha] at hholds
  cases hp : pt.phase with
  | run => rw [hp] at hholds; exact hholds.1
  | leave => rw [hp] at hholds; exact hholds.1
  | gone => rw [hp] at hholds; exact hholds.1
  | swap p => exact absurd hp (hphase p)

omit [DecidableEq A] in
theorem phase_of (h : SmpInv g x) (ha : (x.thread a).point = pt) : pt.phase.Holds g a (x.thread a) x.shared := by
  rw [← ha]
  exact (h.point a).phase

omit [DecidableEq A] in
theorem irq_off (h : SmpInv g x) (ha : (x.thread a).point = pt) (hown : pt ≠ .own) : (x.thread a).irqOn = false :=
  (h.point a).irqOn (by rw [ha]; exact hown)

omit [DecidableEq A] in
theorem counted (h : SmpInv g x) (ha : (x.thread a).point = pt) :
    Nested x.shared.proc (x.thread a).stack pt.locks := by
  rw [← ha]
  exact (h.point a).counts

omit [DecidableEq A] in
theorem wf (h : SmpInv g x) (ha : (x.thread a).point = pt) : pt.Wf g (x.thread a) x.shared := by
  rw [← ha]
  exact (h.point a).wf

/-- The CPU goes on to a point that stands for the same knowledge. -/
theorem go (h : SmpInv g x) (ha : (x.thread a).point = pt) (next : SmpPoint P) {v : CpuView P}
    (hrun : pt.exec ⟨x.thread a, x.shared⟩ = .ok next v) (hsame : SameFor ⟨x.thread a, x.shared⟩ v)
    (hlock : v.shared.lock = x.shared.lock) (hlinks : v.shared.links = x.shared.links)
    (hcounter : v.shared.schedulercounter = x.shared.schedulercounter) (hirq : next ≠ .own → v.cpu.irqOn = false)
    (hcounts : Nested v.shared.proc (x.thread a).stack next.locks) (hinside : ∀ l, next.inside l ↔ pt.inside l)
    (hcount : pt.inside .schedulerspin → next.counter = pt.counter) (hphase : next.phase = pt.phase)
    (hswap : ∀ p, pt.phase ≠ .swap p) (hcarried : next.carried = pt.carried)
    (hwf : next.Wf g { v.cpu with point := next } v.shared) (hmarked : ∀ p, next.marked = some p → pt.marked = some p) :
    SmpAdvances g x a pt := by
  have hat := h.point a
  refine ⟨next, v, g, hrun, h.still hsame (h.current_eq ha hswap) hlock (fun l => ?_) hcounter hlinks
    (hat.same hsame hirq hcounts (fun hin => ?_) ?_ hwf (fun p hp => ?_) ?_), rfl⟩
  · rw [ha]
    exact hinside l
  · have hin' := (hinside _).mp hin
    rw [hcounter, hat.counter (by rw [ha]; exact hin'), ha]
    exact (hcount hin').symm
  · rw [hphase, ← ha]
    exact hat.phase
  · exact hat.marked p (by rw [ha]; exact hmarked p hp)
  · rw [hcarried, ha]

theorem tick_advances (h : SmpInv g x) (ha : (x.thread a).point = .tick) : SmpAdvances g x a .tick := by
  obtain ⟨v, hrun, hsame, hirq, hlock, hlinks, hcounter, hcounts⟩ := onCpu_tickCount ⟨x.thread a, x.shared⟩
  have hoff : v.cpu.irqOn = false := hirq.trans (h.irq_off ha fun e => by cases e)
  have hcounted := (h.counted ha).congr (hcounts _).1 (hcounts _).2
  have hexec : SmpPoint.tick.exec ⟨x.thread a, x.shared⟩ =
      .ok (if (v.shared.proc v.cpu.currentproc).ncli = 0 then .schedule else .iret) v := by
    simp only [SmpPoint.exec, Prog.bind_run, hrun, Outcome.andThen_ok, Prog.get_run, Prog.pure_run]
  by_cases hncli : (v.shared.proc v.cpu.currentproc).ncli = 0
  · rw [if_pos hncli] at hexec
    exact h.go ha _ hexec hsame hlock hlinks hcounter (fun _ => hoff) hcounted (fun l => by cases l <;> exact Iff.rfl)
      (fun hin => hin.elim) rfl (fun _ e => by cases e) rfl trivial fun _ hp => by cases hp
  · rw [if_neg hncli] at hexec
    exact h.go ha _ hexec hsame hlock hlinks hcounter (fun _ => hoff) hcounted (fun l => by cases l <;> exact Iff.rfl)
      (fun hin => hin.elim) rfl (fun _ e => by cases e) rfl trivial fun _ hp => by cases hp

/-- A call of `spinlock` disables interrupts first. -/
theorem save_advances (h : SmpInv g x) (ha : (x.thread a).point = pt) (hown : pt ≠ .own) (next : SmpPoint P)
    (hexec : pt.exec = (onCpu irqSave >>= fun _ => pure next)) (hlocks : ∀ b, next.locks false = false :: pt.locks b)
    (hinside : ∀ l, next.inside l ↔ pt.inside l) (hcount : pt.inside .schedulerspin → next.counter = pt.counter)
    (hphase : next.phase = pt.phase) (hswap : ∀ p, pt.phase ≠ .swap p) (hcarried : next.carried = pt.carried)
    (hwf : ∀ c s, c.stack = (x.thread a).stack → c.idleproc = (x.thread a).idleproc → next.Wf g c s)
    (hmarked : ∀ p, next.marked = some p → pt.marked = some p) : SmpAdvances g x a pt := by
  have hcurrent := h.current_eq ha hswap
  have hmasked : (x.thread a).irqOn = false := h.irq_off ha hown
  obtain ⟨b, hcounted⟩ := h.counted ha
  rw [← hcurrent] at hcounted
  obtain ⟨v, hrun, hsame, hoff, hlock, hlinks, hcounter, hcounted'⟩ :=
    onCpu_irqSave (v := ⟨x.thread a, x.shared⟩) hcounted fun _ => hmasked
  refine h.go ha next (v := v) ?_ hsame hlock hlinks hcounter (fun _ => hoff) ⟨false, ?_⟩ hinside hcount hphase hswap
    hcarried (hwf _ _ hsame.stack hsame.idleproc) hmarked
  · rw [hexec, Prog.bind_run, hrun, Outcome.andThen_ok, Prog.pure_run]
  · rw [hlocks b, ← hcurrent, ← hmasked]
    exact hcounted'

theorem schedule_advances (h : SmpInv g x) (ha : (x.thread a).point = .schedule) : SmpAdvances g x a .schedule :=
  h.save_advances ha (fun e => by cases e) (.spin .trylock) rfl (fun _ => rfl) (fun l => by cases l <;> exact Iff.rfl)
    (fun hin => hin.elim) rfl (fun _ e => by cases e) rfl (fun _ _ _ _ => .inl rfl) fun _ hp => by cases hp

theorem lock_advances (h : SmpInv g x) {f : QueueCall P} (ha : (x.thread a).point = .lock f) :
    SmpAdvances g x a (.lock f) := by
  refine h.save_advances ha (fun e => by cases e) (.spinq f .trylock) rfl (fun _ => f.locks_outer)
    (fun l => by cases l <;> exact Iff.rfl) (fun _ => rfl) rfl (QueueCall.before_ne f) rfl
      (fun c _ hstack hidle => ⟨.inl rfl, ?_⟩) fun _ hp => by cases hp
  exact QueueCall.Own.congr (h.wf ha) hstack hidle

omit [DecidableEq P] in
theorem sameFor_setLock (v : CpuView P) (l : SchedLock) (lock : LockByte) : SameFor v (v.setLock l lock) :=
  ⟨rfl, rfl, rfl, rfl, rfl, fun _ => rfl, fun _ _ => ⟨rfl, rfl⟩⟩

omit [DecidableEq P] in
theorem taken_setLock_self (v : CpuView P) (l : SchedLock) (lock : LockByte) :
    (v.setLock l lock).shared.taken l ↔ lock ≠ spinUnlocked := by
  show Function.update v.shared.lock l lock l ≠ spinUnlocked ↔ _
  rw [Function.update_self]

omit [DecidableEq P] in
theorem taken_setLock_other (v : CpuView P) {l k : SchedLock} (h : k ≠ l) (lock : LockByte) :
    (v.setLock l lock).shared.taken k ↔ v.shared.taken k := by
  show Function.update v.shared.lock l lock k ≠ spinUnlocked ↔ v.shared.lock k ≠ spinUnlocked
  rw [Function.update_of_ne h]

/-- An access of `cpu_spinlock`: the CPU spins on, or it has the lock and nobody else has it. -/
theorem spin_advances (h : SmpInv g x) (ha : (x.thread a).point = pt) (l : SchedLock) {w : SpinPoint} (hw : w.locking)
    (done : SmpPoint P) (spinning : SpinPoint → SmpPoint P) (hexec : pt.exec = spinAccess l w done spinning)
    (hin : done.inside l) (hother : ∀ k, k ≠ l → (done.inside k ↔ pt.inside k))
    (hspin : ∀ w' k, (spinning w').inside k ↔ pt.inside k)
    (hdone : (∀ b, ¬(x.thread b).inside l) → ∀ lock,
      AtPoint g a { x.thread a with point := done } (CpuView.setLock ⟨x.thread a, x.shared⟩ l lock).shared)
    (hstay : ∀ w', w'.locking → ∀ lock,
      AtPoint g a { x.thread a with point := spinning w' } (CpuView.setLock ⟨x.thread a, x.shared⟩ l lock).shared) :
    SmpAdvances g x a pt := by
  have haccess := w.exec_locking hw (x.shared.lock l)
  have hrun : pt.exec ⟨x.thread a, x.shared⟩ = .ok ((w.exec (x.shared.lock l)).1.elim done spinning)
      (CpuView.setLock ⟨x.thread a, x.shared⟩ l (w.exec (x.shared.lock l)).2) := by
    rw [hexec]
    rfl
  generalize w.exec (x.shared.lock l) = r at haccess hrun
  cases haccess with
  | got hfree =>
    have hnone : ∀ b, ¬(x.thread b).inside l := h.exclusive.free_of_not_taken fun htaken => htaken hfree
    refine ⟨done, _, g, hrun, h.quiet (sameFor_setLock _ _ _) (fun k => ?_) (fun _ _ => ⟨rfl, rfl⟩) (.inr rfl) ?_
      (.inr rfl) ?_ (hdone hnone _), rfl⟩
    · by_cases hk : k = l
      · subst hk
        exact .acquire (fun htaken => htaken hfree) ((taken_setLock_self ..).mpr spinLocked_ne) hin
      · refine .keep ?_ (taken_setLock_other _ hk _)
        show done.inside k ↔ (x.thread a).point.inside k
        rw [ha]
        exact hother k hk
    · intro hsched hout
      by_cases hk : SchedLock.schedulerspin = l
      · exact absurd (hk ▸ hsched) (hnone a)
      · exact absurd ((hother _ hk).mpr (ha ▸ hsched)) hout
    · intro hqueue hout
      by_cases hk : SchedLock.schedulerqueuespin = l
      · exact absurd (hk ▸ hqueue) (hnone a)
      · exact absurd ((hother _ hk).mpr (ha ▸ hqueue)) hout
  | spin w' lock' hw' hsame =>
    refine ⟨spinning w', _, g, hrun, h.quiet (sameFor_setLock _ _ _) (fun k => .keep ?_ ?_)
      (fun _ _ => ⟨rfl, rfl⟩) (.inr rfl)
      ?_ (.inr rfl) ?_ (hstay w' hw' _), rfl⟩
    · show (spinning w').inside k ↔ (x.thread a).point.inside k
      rw [ha]
      exact hspin w' k
    · by_cases hk : k = l
      · subst hk
        exact (taken_setLock_self ..).trans (not_congr hsame)
      · exact taken_setLock_other _ hk _
    · exact fun hsched hout => absurd ((hspin w' _).mpr (ha ▸ hsched)) hout
    · exact fun hqueue hout => absurd ((hspin w' _).mpr (ha ▸ hqueue)) hout

/-- An access of `cpu_spinunlock` of a lock the CPU holds. -/
theorem unspin_advances (h : SmpInv g x) (ha : (x.thread a).point = pt) (l : SchedLock) {w : SpinPoint}
    (hw : w.unlocking) (done : SmpPoint P) (unlocking : SpinPoint → SmpPoint P)
    (hexec : pt.exec = spinAccess l w done unlocking) (hin : pt.inside l) (hout : ¬done.inside l)
    (hother : ∀ k, k ≠ l → (done.inside k ↔ pt.inside k)) (hspin : ∀ w' k, (unlocking w').inside k ↔ pt.inside k)
    (hcounter : l = .schedulerspin → x.shared.schedulercounter = 0)
    (hlinks : l = .schedulerqueuespin → x.shared.links = g.links)
    (hdone : ∀ lock,
      AtPoint g a { x.thread a with point := done } (CpuView.setLock ⟨x.thread a, x.shared⟩ l lock).shared)
    (hstay : ∀ w', w'.unlocking → ∀ lock,
      AtPoint g a { x.thread a with point := unlocking w' } (CpuView.setLock ⟨x.thread a, x.shared⟩ l lock).shared) :
    SmpAdvances g x a pt := by
  have hhere : (x.thread a).inside l := (SmpCpu.inside_at ha l).mpr hin
  have htaken : x.shared.lock l ≠ spinUnlocked := (h.exclusive.taken_iff l).mpr ⟨a, hhere⟩
  have haccess := w.exec_unlocking hw htaken
  have hrun : pt.exec ⟨x.thread a, x.shared⟩ = .ok ((w.exec (x.shared.lock l)).1.elim done unlocking)
      (CpuView.setLock ⟨x.thread a, x.shared⟩ l (w.exec (x.shared.lock l)).2) := by
    rw [hexec]
    rfl
  generalize w.exec (x.shared.lock l) = r at haccess hrun
  cases haccess with
  | test =>
    refine ⟨unlocking .unlock, _, g, hrun, h.quiet (sameFor_setLock _ _ _) (fun k => .keep ?_ ?_)
      (fun _ _ => ⟨rfl, rfl⟩)
      (.inr rfl) ?_ (.inr rfl) ?_ (hstay _ (.inr rfl) _), rfl⟩
    · show (unlocking .unlock).inside k ↔ (x.thread a).point.inside k
      rw [ha]
      exact hspin _ k
    · by_cases hk : k = l
      · subst hk
        exact (taken_setLock_self ..).trans Iff.rfl
      · exact taken_setLock_other _ hk _
    · exact fun hsched hout' => absurd ((hspin _ _).mpr (ha ▸ hsched)) hout'
    · exact fun hqueue hout' => absurd ((hspin _ _).mpr (ha ▸ hqueue)) hout'
  | release =>
    refine ⟨done, _, g, hrun, h.quiet (sameFor_setLock _ _ _) (fun k => ?_) (fun _ _ => ⟨rfl, rfl⟩) (.inr rfl) ?_
      (.inr rfl) ?_ (hdone _), rfl⟩
    · by_cases hk : k = l
      · subst hk
        exact .release hhere hout fun htaken' => (taken_setLock_self ..).mp htaken' rfl
      · refine .keep ?_ (taken_setLock_other _ hk _)
        show done.inside k ↔ (x.thread a).point.inside k
        rw [ha]
        exact hother k hk
    · intro hsched hout'
      by_cases hk : SchedLock.schedulerspin = l
      · exact hcounter hk.symm
      · exact absurd ((hother _ hk).mpr (ha ▸ hsched)) hout'
    · intro hqueue hout'
      by_cases hk : SchedLock.schedulerqueuespin = l
      · exact hlinks hk.symm
      · exact absurd ((hother _ hk).mpr (ha ▸ hqueue)) hout'

omit [DecidableEq A] in
/-- What a CPU knows does not depend on the lock bytes. -/
theorem at_setLock (h : SmpInv g x) (ha : (x.thread a).point = pt) (next : SmpPoint P) (hown : pt ≠ .own)
    (hlocks : next.locks = pt.locks)
    (hcounter : next.inside .schedulerspin → x.shared.schedulercounter = next.counter)
    (hphase : next.phase.Holds g a (x.thread a) x.shared)
    (hwf : ∀ v : CpuView P, v.cpu.stack = (x.thread a).stack → v.cpu.idleproc = (x.thread a).idleproc →
      v.shared.links = x.shared.links → v.shared.proc = x.shared.proc → next.Wf g v.cpu v.shared)
    (hmarked : ∀ p, next.marked = some p → pt.marked = some p ∨ (x.shared.proc p).state = .RUNNING)
    (hcarried : next.carried = pt.carried) (l : SchedLock) (lock : LockByte) :
    AtPoint g a { x.thread a with point := next } (CpuView.setLock ⟨x.thread a, x.shared⟩ l lock).shared := by
  have hat := h.point a
  have hcounts := h.counted ha
  rw [← hlocks] at hcounts
  refine hat.same (sameFor_setLock ⟨x.thread a, x.shared⟩ l lock) (fun _ => h.irq_off ha hown) hcounts hcounter hphase
    (hwf ⟨{ x.thread a with point := next }, (CpuView.setLock ⟨x.thread a, x.shared⟩ l lock).shared⟩ rfl rfl rfl rfl)
    (fun p hp => ?_) (by rw [hcarried, ha])
  rcases hmarked p hp with hm | hs
  · exact hat.marked p (by rw [ha]; exact hm)
  · exact hs

theorem scheduler_spin_advances (h : SmpInv g x) {w : SpinPoint} (ha : (x.thread a).point = .spin w) :
    SmpAdvances g x a (.spin w) := by
  have hphase := h.phase_of ha
  refine h.spin_advances ha .schedulerspin (h.wf ha) .count .spin rfl trivial
    (fun k hk => ?_) (fun w' k => by cases k <;> exact Iff.rfl) (fun hnone => ?_) fun w' hw' => ?_
  · cases k with
    | schedulerspin => exact absurd rfl hk
    | schedulerqueuespin => exact Iff.rfl
  · exact h.at_setLock ha .count (fun e => by cases e) rfl (fun _ => h.counter hnone) hphase (fun _ _ _ _ _ => trivial)
      (fun _ hp => by cases hp) rfl _
  · exact h.at_setLock ha (.spin w') (fun e => by cases e) rfl (fun hin => hin.elim) hphase (fun _ _ _ _ _ => hw')
      (fun _ hp => by cases hp) rfl _

omit [DecidableEq A] in
theorem counter_of_inside (h : SmpInv g x) (ha : (x.thread a).point = pt) (hin : pt.inside .schedulerspin) :
    x.shared.schedulercounter = pt.counter := by
  rw [← ha]
  exact (h.point a).counter (by rw [ha]; exact hin)

theorem spinq_advances (h : SmpInv g x) {f : QueueCall P} {w : SpinPoint} (ha : (x.thread a).point = .spinq f w) :
    SmpAdvances g x a (.spinq f w) := by
  obtain ⟨hw, hown⟩ : w.locking ∧ f.Own (x.thread a) := h.wf ha
  have hcounter : f.scheduling → x.shared.schedulercounter = 1 := h.counter_of_inside ha
  have hphase := h.phase_of ha
  refine h.spin_advances ha .schedulerqueuespin hw (.body f f.body) (.spinq f) rfl trivial
    (fun k hk => ?_) (fun w' k => by cases k <;> exact Iff.rfl) (fun hnone lock => ?_) fun w' hw' lock => ?_
  · cases k with
    | schedulerspin => exact Iff.rfl
    | schedulerqueuespin => exact absurd rfl hk
  · refine h.at_setLock ha (.body f f.body) (fun e => by cases e) rfl hcounter (f.during_holds hphase)
      (fun v hstack hidle hlinks _ => ⟨hown.congr hstack hidle, ?_, fun p hp => ?_⟩) (fun _ hp => by cases hp) rfl _ _
    · exact f.body_fits (hlinks.trans (h.links hnone))
    · rw [f.body_marked] at hp
      cases hp
  · exact h.at_setLock ha (.spinq f w') (fun e => by cases e) rfl hcounter hphase
      (fun v hstack hidle _ _ => ⟨hw', hown.congr hstack hidle⟩) (fun _ hp => by cases hp) rfl _ _

theorem choose_advances (h : SmpInv g x) {r : Option P} (ha : (x.thread a).point = .choose r) :
    SmpAdvances g x a (.choose r) := by
  have hcounted := h.counted ha
  have hoff := h.irq_off ha fun e => by cases e
  cases r with
  | some p =>
    exact h.go ha (.select p) rfl (.refl _) rfl rfl rfl (fun _ => hoff) hcounted (fun l => by cases l <;> exact Iff.rfl)
      (fun _ => rfl) rfl (fun _ e => by cases e) rfl trivial fun _ hp => by cases hp
  | none =>
    obtain ⟨hcurrent, -, hrunning⟩ := h.own_run ha rfl
    have hrun : SmpPoint.exec (.choose none) ⟨x.thread a, x.shared⟩ = .ok (.finish true) ⟨x.thread a, x.shared⟩ := by
      rw [← hcurrent] at hrunning
      simp only [SmpPoint.exec, Prog.bind_run, Prog.get_run, Outcome.andThen_ok, hrunning, if_true, Prog.pure_run]
    exact h.go ha (.finish true) hrun (.refl _) rfl rfl rfl (fun _ => hoff) hcounted
      (fun l => by cases l <;> exact Iff.rfl) (fun _ => rfl) rfl
        (fun _ e => by cases e) rfl trivial fun _ hp => by cases hp

theorem select_advances (h : SmpInv g x) {p : P} (ha : (x.thread a).point = .select p) :
    SmpAdvances g x a (.select p) := by
  have hcounted := h.counted ha
  have hoff := h.irq_off ha fun e => by cases e
  obtain ⟨hcurrent, -, hrunning⟩ := h.own_run ha rfl
  by_cases hidle : (x.thread a).idleproc = some (x.thread a).currentproc
  · have hrun : SmpPoint.exec (.select p) ⟨x.thread a, x.shared⟩ =
        .ok (.lock (.markkernelidle (x.thread a).currentproc p)) ⟨x.thread a, x.shared⟩ := by
      simp only [SmpPoint.exec, Prog.bind_run, Prog.get_run, Outcome.andThen_ok, hidle, if_true, Prog.pure_run]
    exact h.go ha _ hrun (.refl _) rfl rfl rfl (fun _ => hoff) hcounted (fun l => by cases l <;> exact Iff.rfl)
      (fun _ => rfl) rfl (fun _ e => by cases e) rfl ⟨hcurrent, hidle⟩ fun _ hp => by cases hp
  · have hrun : SmpPoint.exec (.select p) ⟨x.thread a, x.shared⟩ =
        .ok (.lock (.enqueue (x.thread a).currentproc (some p))) ⟨x.thread a, x.shared⟩ := by
      rw [← hcurrent] at hrunning
      simp only [SmpPoint.exec, Prog.bind_run, Prog.get_run, Outcome.andThen_ok, hidle, if_false, hrunning, if_true,
        Prog.pure_run]
    exact h.go ha _ hrun (.refl _) rfl rfl rfl (fun _ => hoff) hcounted (fun l => by cases l <;> exact Iff.rfl)
      (fun _ => rfl) rfl (fun _ e => by cases e) rfl ⟨hcurrent, hidle⟩ fun _ hp => by cases hp

theorem iret_advances (h : SmpInv g x) (ha : (x.thread a).point = .iret) : SmpAdvances g x a .iret := by
  have hcounted := h.counted ha
  exact h.go ha .own rfl ⟨rfl, rfl, rfl, rfl, rfl, fun _ => rfl, fun _ _ => ⟨rfl, rfl⟩⟩ rfl rfl rfl
    (fun hne => absurd rfl hne) hcounted (fun l => by cases l <;> exact Iff.rfl) (fun hin => hin.elim) rfl
    (fun _ e => by cases e) rfl trivial fun _ hp => by cases hp

/-- `irq_restore`, at the end of `spinunlock`. -/
theorem restore_go (h : SmpInv g x) (ha : (x.thread a).point = pt) (hown : pt ≠ .own) (next : SmpPoint P)
    {flag : Bool → Bool} {locks : List Bool} (hexec : pt.exec = (onCpu irqRestore >>= fun _ => pure next))
    (hlocks : ∀ b, pt.locks b = flag b :: locks) (hnext : ∀ b, next.locks b = locks)
      (hflag : next ≠ .own → locks = [] → ∀ b, flag b = false)
    (hinside : ∀ l, next.inside l ↔ pt.inside l) (hcount : pt.inside .schedulerspin → next.counter = pt.counter)
    (hphase : next.phase = pt.phase) (hswap : ∀ p, pt.phase ≠ .swap p) (hcarried : next.carried = pt.carried)
    (hwf : ∀ c s, next.Wf g c s) (hmarked : ∀ p, next.marked = some p → pt.marked = some p) : SmpAdvances g x a pt := by
  have hcurrent := h.current_eq ha hswap
  obtain ⟨b, hcounted⟩ := h.counted ha
  rw [hlocks, ← hcurrent] at hcounted
  obtain ⟨v, hrun, hsame, hirq, hlock, hlinks, hcounter, hcounted'⟩ :=
    onCpu_irqRestore (v := ⟨x.thread a, x.shared⟩) hcounted (h.irq_off ha hown)
  refine h.go ha next (v := v) ?_ hsame hlock hlinks hcounter (fun hne => ?_)
    ⟨b, ?_⟩ hinside hcount hphase hswap hcarried
    (hwf _ _) hmarked
  · rw [hexec, Prog.bind_run, hrun, Outcome.andThen_ok, Prog.pure_run]
  · rw [hirq]
    split
    · next hnil => exact hflag hne hnil b
    · rfl
  · rw [hnext, ← hcurrent]
    exact hcounted'

theorem restore_advances (h : SmpInv g x) {i : Bool} (ha : (x.thread a).point = .restore i) :
    SmpAdvances g x a (.restore i) := by
  cases i with
  | true =>
    exact h.restore_go ha (fun e => by cases e) .iret rfl (fun _ => rfl) (fun _ => rfl) (fun _ _ _ => rfl)
      (fun l => by cases l <;> exact Iff.rfl)
      (fun hin => hin.elim) rfl (fun _ e => by cases e) rfl (fun _ _ => trivial) fun _ hp => by cases hp
  | false =>
    exact h.restore_go ha (fun e => by cases e) .own rfl (fun _ => rfl) (fun _ => rfl) (fun hne => absurd rfl hne)
      (fun l => by cases l <;> exact Iff.rfl) (fun hin => hin.elim) rfl (fun _ e => by cases e) rfl (fun _ _ => trivial)
      fun _ hp => by cases hp

theorem restoreq_advances (h : SmpInv g x) {f : QueueCall P} {r : Option P} (ha : (x.thread a).point = .restoreq f r) :
    SmpAdvances g x a (.restoreq f r) := by
  rcases f with _ | ⟨q, p⟩ | ⟨q, _ | p⟩ | p
  · exact h.restore_go ha (fun e => by cases e) (.choose r) rfl (fun _ => rfl) (fun _ => rfl) (fun _ _ _ => rfl)
      (fun l => by cases l <;> exact Iff.rfl) (fun _ => rfl) rfl (fun _ e => by cases e) rfl (fun _ _ => trivial)
      fun _ hp => by cases hp
  · exact h.restore_go ha (fun e => by cases e) (.lock (.markrunning p)) rfl (fun _ => rfl) (fun _ => rfl)
      (fun _ _ _ => rfl)
      (fun l => by cases l <;> exact Iff.rfl) (fun _ => rfl) rfl (fun _ e => by cases e) rfl (fun _ _ => trivial)
      fun _ hp => by cases hp
  · exact h.restore_go ha (fun e => by cases e) .own rfl (fun _ => rfl) (fun _ => rfl) (fun hne => absurd rfl hne)
      (fun l => by cases l <;> exact Iff.rfl) (fun hin => hin.elim) rfl (fun _ e => by cases e) rfl (fun _ _ => trivial)
      fun _ hp => by cases hp
  · exact h.restore_go ha (fun e => by cases e) (.lock (.markrunning p)) rfl (fun _ => rfl) (fun _ => rfl)
      (fun _ _ _ => rfl)
      (fun l => by cases l <;> exact Iff.rfl) (fun _ => rfl) rfl (fun _ e => by cases e) rfl (fun _ _ => trivial)
      fun _ hp => by cases hp
  · exact h.restore_go ha (fun e => by cases e) (.setcurrent p) rfl (fun _ => rfl) (fun _ => rfl) (fun _ _ _ => rfl)
      (fun l => by cases l <;> exact Iff.rfl) (fun _ => rfl) rfl (fun _ e => by cases e) rfl (fun _ _ => trivial)
      fun _ hp => hp

theorem unlock_advances (h : SmpInv g x) {f : QueueCall P} {r : Option P} {w : SpinPoint}
    (ha : (x.thread a).point = .unlock f r w) : SmpAdvances g x a (.unlock f r w) := by
  obtain ⟨hw, hlinks⟩ : w.unlocking ∧ x.shared.links = g.links := h.wf ha
  have hcounter : f.scheduling → x.shared.schedulercounter = 1 := h.counter_of_inside ha
  have hmarked : ∀ p w', (SmpPoint.unlock f r w').marked = some p → (SmpPoint.unlock f r w).marked = some p := by
    rcases f with _ | _ | _ | _ <;> exact fun _ _ hp => hp
  have hphase := h.phase_of ha
  refine h.unspin_advances ha .schedulerqueuespin hw (.restoreq f r) (.unlock f r) rfl trivial id (fun k hk => ?_)
    (fun w' k => by cases k <;> exact Iff.rfl) (fun e => by cases e) (fun _ => hlinks) (fun lock => ?_)
    fun w' hw' lock => ?_
  · cases k with
    | schedulerspin => exact Iff.rfl
    | schedulerqueuespin => exact absurd rfl hk
  · refine h.at_setLock ha (.restoreq f r) (fun e => by cases e) rfl hcounter hphase
      (fun _ _ _ _ _ => trivial) (fun p hp => .inl ?_) rfl _ _
    exact hmarked p w (by rcases f with _ | _ | _ | _ <;> exact hp)
  · exact h.at_setLock ha (.unlock f r w') (fun e => by cases e) rfl hcounter hphase
      (fun v _ _ hl _ => ⟨hw', hl.trans hlinks⟩) (fun p hp => .inl (hmarked p w' hp)) rfl _ _

theorem release_advances (h : SmpInv g x) {i : Bool} {w : SpinPoint} (ha : (x.thread a).point = .release i w) :
    SmpAdvances g x a (.release i w) := by
  have hw : w.unlocking := h.wf ha
  have hcounter : x.shared.schedulercounter = 0 := h.counter_of_inside ha trivial
  have hphase := h.phase_of ha
  refine h.unspin_advances ha .schedulerspin hw (.restore i) (.release i) rfl trivial id (fun k hk => ?_)
    (fun w' k => by cases k <;> exact Iff.rfl) (fun _ => hcounter) (fun e => by cases e) (fun lock => ?_)
    fun w' hw' lock => ?_
  · cases k with
    | schedulerspin => exact absurd rfl hk
    | schedulerqueuespin => exact Iff.rfl
  · exact h.at_setLock ha (.restore i) (fun e => by cases e) rfl (fun hin => hin.elim) hphase
      (fun _ _ _ _ _ => trivial) (fun _ hp => by cases hp) rfl _ _
  · exact h.at_setLock ha (.release i w') (fun e => by cases e) rfl (fun _ => hcounter) hphase
      (fun v _ _ hl _ => hw') (fun _ hp => by cases hp) rfl _ _

/-! ## `schedulercounter` -/

/-- The counter is changed by the CPU that has `schedulerspin`. -/
theorem count_go (h : SmpInv g x) (ha : (x.thread a).point = pt) (hown : pt ≠ .own) (next : SmpPoint P) (n : ℤ)
    (hrun : pt.exec ⟨x.thread a, x.shared⟩ = .ok next ⟨x.thread a, { x.shared with schedulercounter := n }⟩)
    (hin : pt.inside .schedulerspin) (hinside : ∀ l, next.inside l ↔ pt.inside l) (hn : n = next.counter)
    (hlocks : next.locks = pt.locks) (hphase : next.phase = pt.phase) (hcarried : next.carried = pt.carried)
    (hwf : ∀ c s, next.Wf g c s) (hmarked : ∀ p, next.marked ≠ some p) : SmpAdvances g x a pt := by
  have hcounted := h.counted ha
  rw [← hlocks] at hcounted
  have hsame : SameFor ⟨x.thread a, x.shared⟩ ⟨x.thread a, { x.shared with schedulercounter := n }⟩ :=
    ⟨rfl, rfl, rfl, rfl, rfl, fun _ => rfl, fun _ _ => ⟨rfl, rfl⟩⟩
  have hhere := SmpCpu.inside_at ha
  refine ⟨next, _, g, hrun, h.quiet hsame (fun l => .keep ((hinside l).trans (hhere l).symm) Iff.rfl) (fun _ _ => ⟨rfl, rfl⟩)
    (.inl ((hhere _).mpr hin)) ?_ (.inr rfl) ?_ ?_, rfl⟩
  · exact fun _ hout => absurd ((hinside _).mpr hin) hout
  · exact fun hq hout => absurd ((hinside _).mpr ((hhere _).mp hq)) hout
  · exact (h.point a).same hsame (fun _ => h.irq_off ha hown) hcounted (fun _ => hn)
      (by rw [hphase]; exact h.phase_of ha) (hwf _ _) (fun p hp => absurd hp (hmarked p)) (by rw [hcarried, ha])

theorem count_advances (h : SmpInv g x) (ha : (x.thread a).point = .count) : SmpAdvances g x a .count := by
  have hcounter : x.shared.schedulercounter = 0 := h.counter_of_inside ha trivial
  have hexec : SmpPoint.count.exec ⟨x.thread a, x.shared⟩ =
      .ok (if (x.shared.proc (x.thread a).currentproc).sliceTicks = 0 then .lock .dequeue else .finish true)
        ⟨x.thread a, { x.shared with schedulercounter := 1 }⟩ := by
    simp [SmpPoint.exec, hcounter]
  by_cases hslice : (x.shared.proc (x.thread a).currentproc).sliceTicks = 0
  · rw [if_pos hslice] at hexec
    exact h.count_go ha (fun e => by cases e) _ 1 hexec trivial (fun l => by cases l <;> exact Iff.rfl) rfl rfl rfl rfl
      (fun _ _ => trivial) fun _ hp => by cases hp
  · rw [if_neg hslice] at hexec
    exact h.count_go ha (fun e => by cases e) _ 1 hexec trivial (fun l => by cases l <;> exact Iff.rfl) rfl rfl rfl rfl
      (fun _ _ => trivial) fun _ hp => by cases hp

theorem finish_advances (h : SmpInv g x) {i : Bool} (ha : (x.thread a).point = .finish i) :
    SmpAdvances g x a (.finish i) := by
  have hcounter : x.shared.schedulercounter = 1 := h.counter_of_inside ha trivial
  have hexec : SmpPoint.exec (.finish i) ⟨x.thread a, x.shared⟩ =
      .ok (.release i .test) ⟨x.thread a, { x.shared with schedulercounter := 0 }⟩ := by
    simp [SmpPoint.exec, hcounter]
  exact h.count_go ha (fun e => by cases e) _ 0 hexec trivial (fun l => by cases l <;> exact Iff.rfl) rfl rfl rfl rfl
    (fun _ _ => .inl rfl) fun _ hp => by cases hp

/-! ## Under `schedulerqueuespin` -/

omit [DecidableEq A] in
theorem own_place (h : SmpInv g x) {f : QueueCall P} {w : BodyPoint P} (ha : (x.thread a).point = .body f w) :
    f.Own (x.thread a) ∧ w.Fits f g x.shared.links := by
  have hwf := h.wf ha
  exact ⟨hwf.1, hwf.2.1⟩

omit [DecidableEq A] in
/-- What a call moves, it has: it is the CPU's own process or in its hands. -/
theorem moves_place (h : SmpInv g x) {f : QueueCall P} {w : BodyPoint P} (ha : (x.thread a).point = .body f w) {q : P}
    {list : Option (QNode P)} (hq : f.Moves q list) : g.place q = .cpu a ∨ g.place q = .hand a := by
  obtain ⟨hown, -⟩ := h.own_place ha
  have hphase := h.phase_of ha
  have hhand : ∀ p, f.carried = some p → g.place p = .hand a := fun p hp => by
    rw [(h.point a).carried, ha]
    exact hp
  cases hq with
  | markkernelidle => exact .inl (hown.1 ▸ hphase.2)
  | enqueue _ next =>
    cases next with
    | none => exact .inr (hhand q rfl)
    | some p => exact .inl (hown.1 ▸ hphase.2)
  | markrunning => exact .inr (hhand q rfl)

omit [DecidableEq A] in
theorem moves_off (h : SmpInv g x) {f : QueueCall P} {w : BodyPoint P} (ha : (x.thread a).point = .body f w) {q : P}
    {list : Option (QNode P)} (hq : f.Moves q list) : q ∈ g.created ∧ q ∉ g.R := by
  constructor
  · rcases h.moves_place ha hq with hp | hp
    · exact fun e => by rw [hp] at e; cases e
    · exact fun e => by rw [hp] at e; cases e
  · rw [h.runnable]
    rcases h.moves_place ha hq with hp | hp
    · rw [hp]
      exact fun e => by cases e
    · rw [hp]
      exact fun e => by cases e

/-- A step under `schedulerqueuespin` that stays under it. -/
theorem body_go (h : SmpInv g x) {f : QueueCall P} {w : BodyPoint P} (ha : (x.thread a).point = .body f w)
    (next : SmpPoint P) (v : CpuView P) (hrun : SmpPoint.exec (.body f w) ⟨x.thread a, x.shared⟩ = .ok next v)
    (hcpu : v.cpu = x.thread a) (hlock : v.shared.lock = x.shared.lock)
    (hcounter : v.shared.schedulercounter = x.shared.schedulercounter) (hcontext : v.shared.context = x.shared.context)
    (hembryos : v.shared.embryos = x.shared.embryos) (hinside : ∀ l, next.inside l ↔ (SmpPoint.body f w).inside l)
    (hcounts : ∀ q, (v.shared.proc q).ncli = (x.shared.proc q).ncli ∧
      (v.shared.proc q).intenable = (x.shared.proc q).intenable)
    (hstate : ∀ q, g.place q = .cpu a ∨ g.place q = .hand a ∨ (v.shared.proc q).state = (x.shared.proc q).state)
    (hplace : ∀ q, g'.place q = g.place q ∨
      (g.place q).Owned a ((x.thread a).point.inside .schedulerspin) ∧ (g'.place q).Filled a)
    (hpoint : AtPoint g' a { x.thread a with point := next } v.shared) (hqueues : Queues g'.links g'.created g'.R g'.N)
    (hrunnable : ∀ p, p ∈ g'.R ↔ g'.place p = .queue) (hstay : ∀ q, g.place q = .embryo → g'.place q = .embryo) :
    SmpAdvances g x a (.body f w) := by
  have hcreated : g'.created = g.created := by
    ext p
    rcases hplace p with hsame | ⟨howned, hfilled⟩
    · show g'.place p ≠ _ ↔ g.place p ≠ _
      rw [hsame]
    · refine iff_of_true (fun e => ?_) fun e => ?_
      · rw [e] at hfilled
        cases hfilled
      · rw [e] at howned
        cases howned
  have hhere : (x.thread a).inside .schedulerqueuespin := (SmpCpu.inside_at ha _).mpr trivial
  have hsame : ∀ l, next.inside l ↔ (x.thread a).inside l := fun l => (hinside l).trans (SmpCpu.inside_at ha l).symm
  refine ⟨next, v, g', hrun, ?_, hcreated⟩
  rw [hcpu]
  refine h.move (fun l => .keep (hsame l) ?_)
    ⟨hplace, hstate, fun q => .inr (hcounts q), .inr hcounter, .inr hcontext, .inl hhere⟩ hpoint hqueues hrunnable
      ?_ ?_ ?_ ?_ ?_
  · show v.shared.lock l ≠ _ ↔ x.shared.lock l ≠ _
    rw [hlock]
  · exact fun _ hout => absurd ((hsame _).mpr hhere) hout
  · intro hothers hout
    rw [hcounter]
    refine h.counter fun b => ?_
    by_cases hba : b = a
    · rw [hba]
      exact fun hin => hout ((hsame _).mpr hin)
    · exact hothers b hba
  · exact fun b hba e => hba (h.distinct b a e)
  · intro p hp
    rcases h.suspended p (hcreated ▸ hp) with ⟨b, hb⟩ | ⟨i, hc, hcounted⟩
    · by_cases hba : b = a
      · exact .inl (hba ▸ hb)
      · exact .inr (.inl ⟨b, hba, hb⟩)
    · exact .inr (.inr ⟨i, by rw [hcontext]; exact hc, hcounted.congr (hcounts p).1 (hcounts p).2⟩)
  · intro p
    rw [hembryos, h.embryos]
    refine ⟨hstay p, fun e => ?_⟩
    rcases hplace p with hsame' | ⟨-, hfilled⟩
    · rwa [← hsame']
    · rw [e] at hfilled
      cases hfilled

/-- A step under `schedulerqueuespin` that moves no process: the next store, or the next line. -/
theorem body_stay (h : SmpInv g x) {f : QueueCall P} {w : BodyPoint P} (ha : (x.thread a).point = .body f w)
    (next : SmpPoint P) (v : CpuView P) (hrun : SmpPoint.exec (.body f w) ⟨x.thread a, x.shared⟩ = .ok next v)
    (hcpu : v.cpu = x.thread a) (hlock : v.shared.lock = x.shared.lock)
    (hcounter : v.shared.schedulercounter = x.shared.schedulercounter) (hcontext : v.shared.context = x.shared.context)
    (hembryos : v.shared.embryos = x.shared.embryos) (hinside : ∀ l, next.inside l ↔ (SmpPoint.body f w).inside l)
    (hcount : next.counter = 1) (hlocks : next.locks = (SmpPoint.body f w).locks)
    (hcarried : next.carried = f.carried)
    (hcounts : ∀ q, (v.shared.proc q).ncli = (x.shared.proc q).ncli ∧
      (v.shared.proc q).intenable = (x.shared.proc q).intenable)
    (hstate : ∀ q, g.place q = .cpu a ∨ g.place q = .hand a ∨ (v.shared.proc q).state = (x.shared.proc q).state)
    (hphase : next.phase.Holds g a (x.thread a) v.shared)
    (hwf : next.Wf g { x.thread a with point := next } v.shared) (hmarked : ∀ p, next.marked ≠ some p) :
    SmpAdvances g x a (.body f w) := by
  have hat := h.point a
  have hcounted := (h.counted ha).congr (hcounts _).1 (hcounts _).2
  rw [← hlocks] at hcounted
  refine h.body_go ha next v hrun hcpu hlock hcounter hcontext hembryos hinside hcounts hstate (fun _ => .inl rfl) ?_
    h.queues h.runnable fun _ hq => hq
  refine ⟨fun _ => h.irq_off ha (fun e => by cases e), hcounted, fun hin => ?_, ?_, hwf,
    fun p hp => absurd hp (hmarked p), fun p => ?_, hat.current, hat.idle, hat.idleproc⟩
  · rw [hcounter, h.counter_of_inside ha ((hinside _).mp hin)]
    exact hcount.symm
  · exact hphase
  · show _ ↔ next.carried = some p
    rw [hcarried, hat.carried, ha]
    exact Iff.rfl

theorem empty_advances (h : SmpInv g x) {f : QueueCall P} (ha : (x.thread a).point = .body f .empty) :
    SmpAdvances g x a (.body f .empty) := by
  obtain ⟨-, hfits⟩ := h.own_place ha
  have hphase := h.phase_of ha
  cases hfits with
  | empty hf hlinks =>
    subst hf
    have hexec : SmpPoint.exec (.body .dequeue .empty) ⟨x.thread a, x.shared⟩ =
        .ok (if listEmpty x.shared.links .runnablelist then .unlock .dequeue none .test else .body .dequeue .first)
          ⟨x.thread a, x.shared⟩ := rfl
    by_cases hempty : listEmpty x.shared.links .runnablelist = true
    · rw [if_pos hempty] at hexec
      exact h.body_stay ha _ _ hexec rfl rfl rfl rfl rfl (fun l => by cases l <;> exact Iff.rfl) rfl rfl rfl
        (fun _ => ⟨rfl, rfl⟩) (fun _ => .inr (.inr rfl)) hphase ⟨.inl rfl, hlinks⟩ fun _ hp => by cases hp
    · rw [if_neg hempty] at hexec
      have hR : g.R ≠ [] := fun e => hempty (by rw [hlinks]; exact h.queues.empty_iff.mpr e)
      exact h.body_stay ha _ _ hexec rfl rfl rfl rfl rfl (fun l => by cases l <;> exact Iff.rfl) rfl rfl rfl
        (fun _ => ⟨rfl, rfl⟩) (fun _ => .inr (.inr rfl)) hphase ⟨trivial, .first rfl hlinks hR, fun _ hp => by cases hp⟩
        fun _ hp => by cases hp

theorem first_advances (h : SmpInv g x) {f : QueueCall P} (ha : (x.thread a).point = .body f .first) :
    SmpAdvances g x a (.body f .first) := by
  obtain ⟨-, hfits⟩ := h.own_place ha
  have hphase := h.phase_of ha
  cases hfits with
  | first hf hlinks hR =>
    subst hf
    obtain ⟨q, R, hR⟩ := List.exists_cons_of_ne_nil hR
    have hnext : (x.shared.links .runnablelist).next = some (.plist q) := by
      have hqueues := h.queues
      rw [hR] at hqueues
      rw [hlinks]
      exact hqueues.next_eq
    have hexec : SmpPoint.exec (.body .dequeue .first) ⟨x.thread a, x.shared⟩ =
        .ok (.body .dequeue (.del q none .test)) ⟨x.thread a, x.shared⟩ := by
      simp only [SmpPoint.exec, BodyPoint.exec, Prog.bind_run, Prog.get_run, Outcome.andThen_ok, hnext, Prog.pure_run]
    exact h.body_stay ha _ _ hexec rfl rfl rfl rfl rfl (fun l => by cases l <;> exact Iff.rfl) rfl rfl rfl
      (fun _ => ⟨rfl, rfl⟩) (fun _ => .inr (.inr rfl)) hphase
      ⟨trivial, .delFirst q R .test rfl hR hlinks, fun _ hp => by cases hp⟩ fun _ hp => by cases hp

theorem state_advances (h : SmpInv g x) {f : QueueCall P} {q : P} {st : ProcState} {list : Option (QNode P)}
    (ha : (x.thread a).point = .body f (.state q st list)) : SmpAdvances g x a (.body f (.state q st list)) := by
  obtain ⟨hown, hfits⟩ := h.own_place ha
  have hphase := h.phase_of ha
  cases hfits with
  | state _ _ _ hf hst hlinks =>
    have hplace := h.moves_place ha hf
    have hproc : ∀ p, ((CpuView.setState ⟨x.thread a, x.shared⟩ q st).shared.proc p).ncli = (x.shared.proc p).ncli ∧
        ((CpuView.setState ⟨x.thread a, x.shared⟩ q st).shared.proc p).intenable = (x.shared.proc p).intenable := by
      intro p
      by_cases hpq : p = q
      · subst hpq
        rw [CpuView.setState_self]
        exact ⟨rfl, rfl⟩
      · rw [CpuView.setState_ne _ st hpq]
        exact ⟨rfl, rfl⟩
    have hother : ∀ p, p ≠ q → (CpuView.setState ⟨x.thread a, x.shared⟩ q st).shared.proc p = x.shared.proc p :=
      fun p hpq => CpuView.setState_ne _ st hpq
    refine h.body_stay ha (.body f (.del q list .test))
      (CpuView.setState ⟨x.thread a, x.shared⟩ q st) rfl rfl rfl rfl rfl
      rfl (fun l => by cases l <;> exact Iff.rfl) rfl rfl rfl hproc (fun p => ?_) ?_
        ⟨hown, .del q list .test hf hlinks, ?_⟩
      fun _ hp => by cases hp
    · by_cases hpq : p = q
      · rw [hpq]
        exact hplace.imp_right .inl
      · exact .inr (.inr (congrArg Proc.state (hother p hpq)))
    · -- the state of a process that is enqueued from own code is not the CPU's own
      cases hf with
      | markkernelidle => exact hphase
      | markrunning => exact hphase
      | enqueue _ next =>
        cases next with
        | some p => exact hphase
        | none =>
          have hhand : g.place q = .hand a := by
            rw [(h.point a).carried, ha]
            rfl
          have hne : (x.thread a).stack ≠ q := by
            intro e
            have hcpu := hphase.2.1
            rw [e, hhand] at hcpu
            cases hcpu
          refine ⟨hphase.1, hphase.2.1, ?_⟩
          rw [hother _ hne]
          exact hphase.2.2
    · intro p hp
      cases hf with
      | markkernelidle => cases hp
      | enqueue => cases hp
      | markrunning =>
        obtain rfl : q = p := Option.some.inj hp
        rw [CpuView.setState_self]
        exact hst q rfl

/-- A list operation goes on with the next store. -/
theorem store_advances (h : SmpInv g x) {f : QueueCall P} {w w' : BodyPoint P} (ha : (x.thread a).point = .body f w)
    {links : Links (QNode P)} (hrun : SmpPoint.exec (.body f w) ⟨x.thread a, x.shared⟩ =
      .ok (.body f w') (CpuView.setLinks ⟨x.thread a, x.shared⟩ links)) (hfits : w'.Fits f g links)
    (hmarked : w'.marked f = w.marked f) : SmpAdvances g x a (.body f w) := by
  obtain ⟨hown, -, hstate⟩ := h.wf ha
  have hphase := h.phase_of ha
  refine h.body_stay ha _ _ hrun rfl rfl rfl rfl rfl (fun l => by cases l <;> exact Iff.rfl) rfl rfl rfl
    (fun _ => ⟨rfl, rfl⟩) (fun _ => .inr (.inr rfl)) hphase ⟨hown, hfits, fun p hp => hstate p ?_⟩
    fun _ hp => by cases hp
  rwa [← hmarked]

/-- The last store of a list operation: the processes move. -/
theorem body_done (h : SmpInv g x) {f : QueueCall P} {w : BodyPoint P} (ha : (x.thread a).point = .body f w)
    (next : SmpPoint P) (g' : SmpGhost A P)
    (hrun : SmpPoint.exec (.body f w) ⟨x.thread a, x.shared⟩ =
      .ok next (CpuView.setLinks ⟨x.thread a, x.shared⟩ g'.links))
    (hinside : ∀ l, next.inside l ↔ (SmpPoint.body f w).inside l) (hcount : next.counter = 1)
    (hlocks : next.locks = (SmpPoint.body f w).locks)
    (hplace : ∀ q, g'.place q = g.place q ∨
      (g.place q).Owned a ((x.thread a).point.inside .schedulerspin) ∧ (g'.place q).Filled a)
    (hphase : next.phase.Holds g' a (x.thread a) x.shared)
    (hwf : next.Wf g' { x.thread a with point := next } { x.shared with links := g'.links })
    (hmarked : ∀ p, next.marked = some p → (x.shared.proc p).state = .RUNNING)
    (hcarried : ∀ p, g'.place p = .hand a ↔ next.carried = some p)
    (hcurrent : ∀ p, g'.place p = .cpu a → (x.thread a).currentproc = p)
    (hidle : ∀ p, g'.place p = .idle a → (x.thread a).idleproc = some p)
    (hidleproc : ∀ p, (x.thread a).idleproc = some p → g'.place p = .cpu a ∨ g'.place p = .idle a)
    (hqueues : Queues g'.links g'.created g'.R g'.N) (hrunnable : ∀ p, p ∈ g'.R ↔ g'.place p = .queue)
    (hstay : ∀ q, g.place q = .embryo → g'.place q = .embryo) : SmpAdvances g x a (.body f w) := by
  have hcounted := h.counted ha
  rw [← hlocks] at hcounted
  refine h.body_go ha next _ hrun rfl rfl rfl rfl rfl hinside (fun _ => ⟨rfl, rfl⟩) (fun _ => .inr (.inr rfl)) hplace ?_
    hqueues hrunnable hstay
  refine ⟨fun _ => h.irq_off ha (fun e => by cases e), hcounted, fun hin => ?_, hphase, hwf, hmarked,
    hcarried, hcurrent, hidle, hidleproc⟩
  have hcounter := h.counter_of_inside ha ((hinside _).mp hin)
  exact hcounter.trans hcount.symm

/-- No process has moved yet when a call has unlinked the one it is about to link in. -/
theorem unlinked_advances (h : SmpInv g x) {f : QueueCall P} {w : BodyPoint P} (ha : (x.thread a).point = .body f w)
    {q : P} {list : QNode P} (hf : f.Moves q (some list))
    (hmarked : BodyPoint.marked f (.add q list .read) = w.marked f)
      (hrun : SmpPoint.exec (.body f w) ⟨x.thread a, x.shared⟩ =
      .ok (.body f (.add q list .read)) (CpuView.setLinks ⟨x.thread a, x.shared⟩ (listDel g.links (.plist q)))) :
    SmpAdvances g x a (.body f w) := by
  obtain ⟨hown, -, hstate⟩ := h.wf ha
  obtain ⟨hcreated, hR⟩ := h.moves_off ha hf
  have hqueues := h.queues.del hcreated
  rw [List.erase_of_not_mem hR] at hqueues
  have hat := h.point a
  have hphase := h.phase_of ha
  refine h.body_done ha _ ⟨g.place, g.R, g.N.erase q, listDel g.links (.plist q)⟩ hrun
    (fun l => by cases l <;> exact Iff.rfl) rfl rfl (fun _ => .inl rfl) hphase
    ⟨hown, .add q list .read hf h.queues.nodup_running.not_mem_erase rfl, fun p hp => ?_⟩ (fun _ hp => by cases hp)
    (fun p => ?_) hat.current hat.idle hat.idleproc hqueues h.runnable fun _ hp => hp
  · rw [hmarked] at hp
    exact hstate p hp
  · have hcarried := hat.carried p
    rwa [ha] at hcarried

/-- A process is put on the running list, and stays in the CPU's hands. -/
theorem marked_advances (h : SmpInv g x) {p : P} {w : AddPoint (QNode P)}
    (ha : (x.thread a).point = .body (.markrunning p) (.add p .runninglist w)) (hN : p ∉ g.N)
    (hrun : SmpPoint.exec (.body (.markrunning p) (.add p .runninglist w)) ⟨x.thread a, x.shared⟩ =
      .ok (.unlock (.markrunning p) (some p) .test)
        (CpuView.setLinks ⟨x.thread a, x.shared⟩ (listAddTail g.links (.plist p) .runninglist))) :
    SmpAdvances g x a (.body (.markrunning p) (.add p .runninglist w)) := by
  obtain ⟨-, -, hstate⟩ := h.wf ha
  obtain ⟨hcreated, hR⟩ := h.moves_off ha (.markrunning p)
  have hat := h.point a
  refine h.body_done ha _ ⟨g.place, g.R, g.N ++ [p], listAddTail g.links (.plist p) .runninglist⟩ hrun
    (fun l => by cases l <;> exact Iff.rfl) rfl rfl (fun _ => .inl rfl) (h.phase_of ha) ⟨.inl rfl, rfl⟩
    (fun q hq => hstate q hq) (fun q => ?_) hat.current hat.idle hat.idleproc
    (h.queues.addRunning hcreated hR hN) h.runnable
    fun _ hp => hp
  have hcarried := hat.carried q
  rwa [ha] at hcarried

end SmpInv

end Borgos.Kcore
