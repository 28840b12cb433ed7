import Borgos.Kcore.SmpSteps

/-! # The scheduler with SMP is safe

Every step of every CPU keeps the invariant, and no step panics or hangs: so a process is never on two CPUs, never
switched to before its registers are saved, and never lost.
-/
namespace Borgos.Kcore
open Borgos.Foundations Borgos.Foundations.Intrusive Interleaving
set_option autoImplicit false

variable {A P : Type} [DecidableEq A] [DecidableEq P]

/-! ## Processes that move -/

/-- `q` at another place. -/
def SmpGhost.put (g : SmpGhost A P) (q : P) (pl : ProcPlace A) (R N : List P) (links : Links (QNode P)) :
    SmpGhost A P :=
  ⟨Function.update g.place q pl, R, N, links⟩

section Put
variable (g : SmpGhost A P) (q : P) (pl : ProcPlace A) (R N : List P) (links : Links (QNode P))

omit [DecidableEq A] in
@[simp] theorem SmpGhost.put_self : (g.put q pl R N links).place q = pl := Function.update_self ..

omit [DecidableEq A] in
theorem SmpGhost.put_ne {p : P} (h : p ≠ q) : (g.put q pl R N links).place p = g.place p := Function.update_of_ne h ..

omit [DecidableEq A] in
theorem SmpGhost.put_created (hq : q ∈ g.created) (hpl : pl ≠ .nowhere) :
    (g.put q pl R N links).created = g.created := by
  ext p
  by_cases hpq : p = q
  · subst hpq
    exact ⟨fun _ => hq, fun _ => by rw [SmpGhost.created, Set.mem_ofPred_eq, SmpGhost.put_self]; exact hpl⟩
  · rw [SmpGhost.created, Set.mem_ofPred_eq, SmpGhost.put_ne _ _ _ _ _ _ hpq]
    exact Iff.rfl

omit [DecidableEq A] in
/-- A place that is neither the old nor the new one of `q`. -/
theorem SmpGhost.put_iff {p : P} {pl' : ProcPlace A} (hold : g.place q ≠ pl') (hnew : pl ≠ pl') :
    (g.put q pl R N links).place p = pl' ↔ g.place p = pl' := by
  by_cases hpq : p = q
  · subst hpq
    rw [SmpGhost.put_self]
    exact ⟨fun e => absurd e hnew, fun e => absurd e hold⟩
  · rw [SmpGhost.put_ne _ _ _ _ _ _ hpq]

omit [DecidableEq A] in
/-- Only `q` moves, from a place that may be emptied to one that may be filled. -/
theorem SmpGhost.put_moves {a : A} {scheduling : Prop} (howned : (g.place q).Owned a scheduling) (hfilled : pl.Filled a)
    (p : P) : (g.put q pl R N links).place p = g.place p ∨
      (g.place p).Owned a scheduling ∧ ((g.put q pl R N links).place p).Filled a := by
  by_cases hpq : p = q
  · subst hpq
    rw [SmpGhost.put_self]
    exact .inr ⟨howned, hfilled⟩
  · exact .inl (SmpGhost.put_ne _ _ _ _ _ _ hpq)

end Put

namespace SmpInv
variable {g : SmpGhost A P} {x : Config A (SmpCpu P) (SmpShared P)} {a : A}

/-- `scheduler_dequeue` has unlinked the head of the queue. -/
theorem dequeued_advances (h : SmpInv g x) {q : P} {R : List P} {w : DelPoint (QNode P)}
    (ha : (x.thread a).point = .body .dequeue (.del q none w)) (hR : g.R = q :: R)
    (hrun : SmpPoint.exec (.body .dequeue (.del q none w)) ⟨x.thread a, x.shared⟩ =
      .ok (.unlock .dequeue (some q) .test) (CpuView.setLinks ⟨x.thread a, x.shared⟩ (listDel g.links (.plist q)))) :
    SmpAdvances g x a (.body .dequeue (.del q none w)) := by
  have hat := h.point a
  have hqueue : g.place q = .queue := (h.runnable q).mp (by rw [hR]; exact List.mem_cons_self)
  have hcreated : q ∈ g.created := fun e => by rw [hqueue] at e; cases e
  have hnodup := h.queues.nodup
  rw [hR] at hnodup
  have hqueues := h.queues.del hcreated
  rw [hR, List.erase_cons_head] at hqueues
  obtain ⟨hcurrent, hcpu, hrunning⟩ := h.own_run ha rfl
  have hne : ∀ pl : ProcPlace A, pl ≠ .queue → pl ≠ .hand a → ∀ p,
      (g.put q (.hand a) R (g.N.erase q) (listDel g.links (.plist q))).place p = pl ↔ g.place p = pl :=
    fun pl hold hnew p => SmpGhost.put_iff _ _ _ _ _ _ (by rw [hqueue]; exact Ne.symm hold) (Ne.symm hnew)
  refine h.body_done ha _ (g.put q (.hand a) R (g.N.erase q) (listDel g.links (.plist q))) hrun
    (fun l => by cases l <;> exact Iff.rfl) rfl rfl (fun p => ?_) ⟨hcurrent, ?_, hrunning⟩ ⟨.inl rfl, rfl⟩
    (fun _ hp => by cases hp) (fun p => ?_) (fun p hp => ?_) (fun p hp => ?_) (fun p hp => ?_) ?_
    (fun p => ?_) fun p hp => ?_
  · refine SmpGhost.put_moves _ _ _ _ _ _ ?_ .hand p
    rw [hqueue, ha]
    exact .queue trivial
  · rwa [hne (.cpu a) nofun nofun]
  · by_cases hpq : p = q
    · subst hpq
      rw [SmpGhost.put_self]
      exact iff_of_true rfl rfl
    · rw [SmpGhost.put_ne _ _ _ _ _ _ hpq, hat.carried, ha]
      exact iff_of_false (fun e => by cases e) fun e => hpq (Option.some.inj e).symm
  · rw [hne (.cpu a) nofun nofun] at hp
    exact hat.current p hp
  · rw [hne (.idle a) nofun nofun] at hp
    exact hat.idle p hp
  · rw [hne (.cpu a) nofun nofun,
      hne (.idle a) nofun nofun]
    exact hat.idleproc p hp
  · rw [SmpGhost.put_created _ _ _ _ _ _ hcreated fun e => by cases e]
    exact hqueues
  · show p ∈ R ↔ _
    by_cases hpq : p = q
    · subst hpq
      rw [SmpGhost.put_self]
      exact iff_of_false (List.nodup_cons.mp hnodup).1 fun e => by cases e
    · rw [SmpGhost.put_ne _ _ _ _ _ _ hpq, ← h.runnable, hR, List.mem_cons]
      exact ⟨.inr, fun hp => hp.resolve_left hpq⟩
  · rwa [hne .embryo nofun nofun]

/-- `scheduler_markkernelidle` has unlinked the idle process. -/
theorem idled_advances (h : SmpInv g x) {q p : P} {w : DelPoint (QNode P)}
    (ha : (x.thread a).point = .body (.markkernelidle q p) (.del q none w))
    (hrun : SmpPoint.exec (.body (.markkernelidle q p) (.del q none w)) ⟨x.thread a, x.shared⟩ =
      .ok (.unlock (.markkernelidle q p) (some q) .test)
        (CpuView.setLinks ⟨x.thread a, x.shared⟩ (listDel g.links (.plist q)))) :
    SmpAdvances g x a (.body (.markkernelidle q p) (.del q none w)) := by
  have hat := h.point a
  obtain ⟨⟨hq, hidle⟩, -⟩ := h.own_place ha
  obtain ⟨hcurrent, hcpu⟩ := h.phase_of ha
  obtain ⟨hcreated, hR⟩ := h.moves_off ha (.markkernelidle q p)
  rw [← hq] at hcurrent hcpu
  have hqueues := h.queues.del hcreated
  rw [List.erase_of_not_mem hR] at hqueues
  have hne : ∀ pl : ProcPlace A, pl ≠ .cpu a → pl ≠ .idle a → ∀ p',
      (g.put q (.idle a) g.R (g.N.erase q) (listDel g.links (.plist q))).place p' = pl ↔ g.place p' = pl :=
    fun pl hold hnew p' => SmpGhost.put_iff _ _ _ _ _ _ (by rw [hcpu]; exact Ne.symm hold) (Ne.symm hnew)
  have hcarried := hat.carried
  rw [ha] at hcarried
  refine h.body_done ha _ (g.put q (.idle a) g.R (g.N.erase q) (listDel g.links (.plist q))) hrun
    (fun l => by cases l <;> exact Iff.rfl) rfl rfl (fun p' => ?_) ⟨hcurrent.trans hq, .inr ?_⟩ ⟨.inl rfl, rfl⟩
    (fun _ hp => by cases hp) (fun p' => ?_) (fun p' hp => ?_) (fun p' hp => ?_) (fun p' hp => ?_) ?_ (fun p' => ?_)
    fun p' hp => ?_
  · exact SmpGhost.put_moves _ _ _ _ _ _ (hcpu ▸ .cpu) .idle p'
  · rw [← hq, SmpGhost.put_self]
  · rw [hne (.hand a) nofun nofun]
    exact hcarried p'
  · by_cases hpq : p' = q
    · rw [hpq]
      exact hcurrent
    · rw [SmpGhost.put_ne _ _ _ _ _ _ hpq] at hp
      exact hat.current p' hp
  · by_cases hpq : p' = q
    · rw [hpq]
      exact hidle
    · rw [SmpGhost.put_ne _ _ _ _ _ _ hpq] at hp
      exact hat.idle p' hp
  · obtain rfl : q = p' := Option.some.inj (hidle.symm.trans hp)
    rw [SmpGhost.put_self]
    exact .inr rfl
  · rw [SmpGhost.put_created _ _ _ _ _ _ hcreated fun e => by cases e]
    exact hqueues
  · rw [hne .queue nofun nofun]
    exact h.runnable p'
  · rwa [hne .embryo nofun nofun]

/-- `scheduler_enqueue` has linked a process in. -/
theorem enqueued_advances (h : SmpInv g x) {q : P} {p : Option P} {w : AddPoint (QNode P)}
    (ha : (x.thread a).point = .body (.enqueue q p) (.add q .runnablelist w)) (hN : q ∉ g.N)
    (hrun : SmpPoint.exec (.body (.enqueue q p) (.add q .runnablelist w)) ⟨x.thread a, x.shared⟩ =
      .ok (.unlock (.enqueue q p) (some q) .test)
        (CpuView.setLinks ⟨x.thread a, x.shared⟩ (listAddTail g.links (.plist q) .runnablelist))) :
    SmpAdvances g x a (.body (.enqueue q p) (.add q .runnablelist w)) := by
  have hat := h.point a
  have hphase := h.phase_of ha
  obtain ⟨hown, -⟩ := h.own_place ha
  obtain ⟨hcreated, hR⟩ := h.moves_off ha (.enqueue q p)
  have hfrom := h.moves_place ha (.enqueue q p)
  have hne : ∀ pl : ProcPlace A, pl ≠ .cpu a → pl ≠ .hand a → pl ≠ .queue → ∀ p',
      (g.put q .queue (g.R ++ [q]) g.N (listAddTail g.links (.plist q) .runnablelist)).place p' = pl ↔
      g.place p' = pl := by
    intro pl hcpu hhand hqueue p'
    refine SmpGhost.put_iff _ _ _ _ _ _ (fun e => ?_) (Ne.symm hqueue)
    rcases hfrom with hf | hf
    · exact hcpu (e.symm.trans hf)
    · exact hhand (e.symm.trans hf)
  refine h.body_done ha _ (g.put q .queue (g.R ++ [q]) g.N (listAddTail g.links (.plist q) .runnablelist)) hrun
    (fun l => by cases l <;> exact Iff.rfl) rfl rfl (fun p' => ?_) ?_ ⟨.inl rfl, rfl⟩ (fun _ hp => ?_) (fun p' => ?_)
    (fun p' hp => ?_) (fun p' hp => ?_) (fun p' hp => ?_) ?_ (fun p' => ?_) fun p' hp => ?_
  · refine SmpGhost.put_moves _ _ _ _ _ _ ?_ .queue p'
    rcases hfrom with hf | hf
    · rw [hf]
      exact .cpu
    · rw [hf]
      exact .hand
  · cases p with
    | some p =>
      refine ⟨hphase.1, .inl ?_⟩
      rw [← hown.1, SmpGhost.put_self]
    | none =>
      have hhand : g.place q = .hand a := by
        rw [hat.carried, ha]
        rfl
      refine ⟨hphase.1, ?_, hphase.2.2⟩
      rw [SmpGhost.put_iff _ _ _ _ _ _ (by rw [hhand]; exact fun e => by cases e) fun e => by cases e]
      exact hphase.2.1
  · cases hp
  · by_cases hpq : p' = q
    · subst hpq
      rw [SmpGhost.put_self]
      cases p with
      | none => exact iff_of_false (fun e => by cases e) fun e => by cases e
      | some p =>
        refine iff_of_false (fun e => by cases e) fun e => ?_
        -- the process to switch to is in the CPU's hands, the one it puts away is not
        have hhand : g.place p' = .hand a := by
          rw [hat.carried, ha]
          exact e
        have hcpu := hphase.2
        rw [← hown.1, hhand] at hcpu
        cases hcpu
    · rw [SmpGhost.put_ne _ _ _ _ _ _ hpq, hat.carried, ha]
      cases p with
      | none => exact iff_of_false (fun e => hpq (Option.some.inj e).symm) fun e => by cases e
      | some p => exact Iff.rfl
  · by_cases hpq : p' = q
    · subst hpq
      rw [SmpGhost.put_self] at hp
      cases hp
    · rw [SmpGhost.put_ne _ _ _ _ _ _ hpq] at hp
      exact hat.current p' hp
  · rw [hne (.idle a) nofun nofun nofun] at hp
    exact hat.idle p' hp
  · have hpq : p' ≠ q := by
      rintro rfl
      cases p with
      | some p => exact hown.2 hp
      | none =>
        have hhand : g.place p' = .hand a := by
          rw [hat.carried, ha]
          rfl
        exact hat.idleproc_off_hand hhand hp
    rw [SmpGhost.put_ne _ _ _ _ _ _ hpq]
    exact hat.idleproc p' hp
  · rw [SmpGhost.put_created _ _ _ _ _ _ hcreated fun e => by cases e]
    exact h.queues.addRunnable hcreated hR hN
  · show p' ∈ g.R ++ [q] ↔ _
    by_cases hpq : p' = q
    · subst hpq
      rw [SmpGhost.put_self]
      exact iff_of_true (List.mem_append_right _ List.mem_cons_self) rfl
    · rw [SmpGhost.put_ne _ _ _ _ _ _ hpq, ← h.runnable]
      simp [hpq]
  · rwa [hne .embryo nofun nofun nofun]

theorem del_advances (h : SmpInv g x) {f : QueueCall P} {q : P} {list : Option (QNode P)} {w : DelPoint (QNode P)}
    (ha : (x.thread a).point = .body f (.del q list w)) : SmpAdvances g x a (.body f (.del q list w)) := by
  obtain ⟨-, hfits⟩ := h.own_place ha
  cases hfits with
  | delFirst _ R _ hf hR hw =>
    subst hf
    have hstore := w.exec_store hw
    generalize hexec : w.exec (.plist q) x.shared.links = r at hstore
    cases hstore with
    | next w' links hw' =>
      refine h.store_advances ha ?_ (.delFirst q R w' rfl hR hw') rfl
      simp [SmpPoint.exec, BodyPoint.exec, hexec]
    | done =>
      refine h.dequeued_advances ha hR ?_
      simp [SmpPoint.exec, BodyPoint.exec, hexec]
  | del _ _ _ hf hw =>
    have hstore := w.exec_store hw
    generalize hexec : w.exec (.plist q) x.shared.links = r at hstore
    cases hstore with
    | next w' links hw' =>
      refine h.store_advances ha ?_ (.del q list w' hf hw') ?_
      · simp [SmpPoint.exec, BodyPoint.exec, hexec]
      · cases hf <;> rfl
    | done =>
      cases list with
      | some list =>
        refine h.unlinked_advances ha hf ?_ ?_
        · cases hf <;> rfl
        · simp [SmpPoint.exec, BodyPoint.exec, hexec]
      | none =>
        cases hf with
        | markkernelidle _ p =>
          refine h.idled_advances ha ?_
          simp [SmpPoint.exec, BodyPoint.exec, hexec]

theorem add_advances (h : SmpInv g x) {f : QueueCall P} {q : P} {list : QNode P} {w : AddPoint (QNode P)}
    (ha : (x.thread a).point = .body f (.add q list w)) : SmpAdvances g x a (.body f (.add q list w)) := by
  obtain ⟨-, hfits⟩ := h.own_place ha
  cases hfits with
  | add _ _ _ hf hN hw =>
    have hstore := w.exec_store hw
    generalize hexec : w.exec (.plist q) list x.shared.links = r at hstore
    cases hstore with
    | next w' links hw' =>
      refine h.store_advances ha ?_ (.add q list w' hf hN hw') ?_
      · simp [SmpPoint.exec, BodyPoint.exec, hexec]
      · cases hf <;> rfl
    | done =>
      cases hf with
      | enqueue _ p =>
        refine h.enqueued_advances ha hN ?_
        simp [SmpPoint.exec, BodyPoint.exec, hexec]
      | markrunning =>
        refine h.marked_advances ha hN ?_
        simp [SmpPoint.exec, BodyPoint.exec, hexec]

theorem body_advances (h : SmpInv g x) {f : QueueCall P} {w : BodyPoint P} (ha : (x.thread a).point = .body f w) :
    SmpAdvances g x a (.body f w) := by
  cases w with
  | empty => exact h.empty_advances ha
  | first => exact h.first_advances ha
  | state q st list => exact h.state_advances ha
  | del q list w => exact h.del_advances ha
  | add q list w => exact h.add_advances ha

/-! ## The switch -/

/-- A step outside `schedulerqueuespin` that keeps the locks. -/
theorem switch_go (h : SmpInv g x) {g' : SmpGhost A P} {c : SmpCpu P} {s : SmpShared P}
    (hinside : ∀ l, c.inside l ↔ (x.thread a).inside l) (hout : ¬(x.thread a).inside .schedulerqueuespin)
    (hlock : s.lock = x.shared.lock) (hlinks : s.links = x.shared.links)
    (hcounter : s.schedulercounter = x.shared.schedulercounter) (hg : g'.links = g.links ∧ g'.R = g.R ∧ g'.N = g.N)
    (hcreated : g'.created = g.created) (hqueue : ∀ p, g'.place p = .queue ↔ g.place p = .queue)
    (hch : Changes a (x.thread a) g g' x.shared s) (hpoint : AtPoint g' a c s)
    (hdistinct : ∀ b, b ≠ a → (x.thread b).stack ≠ c.stack)
    (hsuspended : ∀ p ∈ g.created, c.stack = p ∨ (∃ b, b ≠ a ∧ (x.thread b).stack = p) ∨ Suspended s p)
    (hembryos : ∀ p, p ∈ s.embryos ↔ g'.place p = .embryo) : SmpInv g' (x.move a c s) := by
  obtain ⟨hgl, hR, hN⟩ := hg
  refine h.move (fun l => .keep (hinside l) ?_) hch hpoint ?_ (fun p => ?_) ?_ ?_ hdistinct ?_ hembryos
  · show s.lock l ≠ _ ↔ x.shared.lock l ≠ _
    rw [hlock]
  · rw [hgl, hR, hN, hcreated]
    exact h.queues
  · rw [hR, hqueue]
    exact h.runnable p
  · intro hothers _
    rw [hlinks, hgl]
    refine h.links fun b => ?_
    by_cases hba : b = a
    · rwa [hba]
    · exact hothers b hba
  · intro hothers hsched
    rw [hcounter]
    refine h.counter fun b => ?_
    by_cases hba : b = a
    · rw [hba]
      exact fun hin => hsched ((hinside _).mpr hin)
    · exact hothers b hba
  · rwa [hcreated]

/-- A process that is on no stack goes on where its context says, whatever happens to others. -/
theorem suspended_or (h : SmpInv g x) {p : P} (hp : p ∈ g.created) :
    (x.thread a).stack = p ∨ (∃ b, b ≠ a ∧ (x.thread b).stack = p) ∨ Suspended x.shared p := by
  rcases h.suspended p hp with ⟨b, hb⟩ | hsus
  · by_cases hba : b = a
    · exact .inl (hba ▸ hb)
    · exact .inr (.inl ⟨b, hba, hb⟩)
  · exact .inr (.inr hsus)

theorem setcurrent_advances (h : SmpInv g x) {p : P} (ha : (x.thread a).point = .setcurrent p) :
    SmpAdvances g x a (.setcurrent p) := by
  have hat := h.point a
  obtain ⟨hcurrent, hgone⟩ := h.phase_of ha
  have hhand : g.place p = .hand a := by
    rw [hat.carried, ha]
    rfl
  have hcreated : p ∈ g.created := fun e => by rw [hhand] at e; cases e
  have hne : ∀ pl : ProcPlace A, pl ≠ .hand a → pl ≠ .cpu a → ∀ q,
      (g.put p (.cpu a) g.R g.N g.links).place q = pl ↔ g.place q = pl :=
    fun pl hold hnew q => SmpGhost.put_iff _ _ _ _ _ _ (by rw [hhand]; exact Ne.symm hold) (Ne.symm hnew)
  have hproc : ∀ q, (Function.update x.shared.proc p { x.shared.proc p with sliceTicks := 2 } q).state =
      (x.shared.proc q).state ∧
      (Function.update x.shared.proc p { x.shared.proc p with sliceTicks := 2 } q).ncli = (x.shared.proc q).ncli ∧
      (Function.update x.shared.proc p { x.shared.proc p with sliceTicks := 2 } q).intenable =
        (x.shared.proc q).intenable := by
    intro q
    by_cases hqp : q = p
    · subst hqp
      rw [Function.update_self]
      exact ⟨rfl, rfl, rfl⟩
    · rw [Function.update_of_ne hqp]
      exact ⟨rfl, rfl, rfl⟩
  have hhere := SmpCpu.inside_at ha
  have hcounted := h.counted ha
  have hcounter : x.shared.schedulercounter = 1 := h.counter_of_inside ha trivial
  refine ⟨_, _, g.put p (.cpu a) g.R g.N g.links, rfl,
    h.switch_go (fun l => ?_) (fun hin => (hhere _).mp hin) rfl rfl rfl
    ⟨rfl, rfl, rfl⟩ (SmpGhost.put_created _ _ _ _ _ _ hcreated (fun e => by cases e))
    (hne .queue (fun e => by cases e) (fun e => by cases e)) ?_ ?_
    (fun b hba e => hba (h.distinct b a e)) (fun q hq => ?_) (fun q => ?_),
    SmpGhost.put_created _ _ _ _ _ _ hcreated (fun e => by cases e)⟩
  · rw [hhere]
    cases l <;> exact Iff.rfl
  · exact ⟨SmpGhost.put_moves _ _ _ _ _ _ (hhand ▸ .hand) .cpu, fun q => .inr (.inr (hproc q).1),
      fun q => .inr (hproc q).2, .inr rfl, .inr rfl, .inr ⟨rfl, rfl, rfl, rfl⟩⟩
  · refine ⟨fun _ => h.irq_off ha (fun e => by cases e), hcounted.congr (hproc _).2.1 (hproc _).2.2, fun _ => hcounter,
      ⟨rfl, SmpGhost.put_self .., ?_, ?_⟩, hcurrent, (fun _ hq => by cases hq),
      fun q => ?_, fun q hq => ?_, fun q hq => ?_, fun q hq => ?_⟩
    · exact hgone.imp (hne .queue (fun e => by cases e) (fun e => by cases e) _).mpr
        (hne (.idle a) (fun e => by cases e) (fun e => by cases e) _).mpr
    · exact (hproc p).1.trans (hat.marked p (by rw [ha]; rfl))
    · by_cases hqp : q = p
      · subst hqp
        rw [SmpGhost.put_self]
        exact iff_of_false (fun e => by cases e) fun e => by cases e
      · rw [SmpGhost.put_ne _ _ _ _ _ _ hqp, hat.carried, ha]
        exact iff_of_false (fun e => hqp (Option.some.inj e).symm) fun e => by cases e
    · by_cases hqp : q = p
      · exact hqp.symm
      · rw [SmpGhost.put_ne _ _ _ _ _ _ hqp] at hq
        have hold := hat.current q hq
        rw [← hold, hcurrent] at hq
        rcases hgone with hg | hg
        · rw [hq] at hg
          cases hg
        · rw [hq] at hg
          cases hg
    · exact hat.idle q ((hne (.idle a) (fun e => by cases e) (fun e => by cases e) q).mp hq)
    · have hqp : q ≠ p := by
        rintro rfl
        exact hat.idleproc_off_hand hhand hq
      rw [SmpGhost.put_ne _ _ _ _ _ _ hqp]
      exact hat.idleproc q hq
  · rcases h.suspended_or (a := a) hq with hq | hq | ⟨i, hcontext, hcounted⟩
    · exact .inl hq
    · exact .inr (.inl hq)
    · exact .inr (.inr ⟨i, hcontext, hcounted.congr (hproc q).2.1 (hproc q).2.2⟩)
  · rw [hne .embryo (fun e => by cases e) (fun e => by cases e)]
    exact h.embryos q

theorem save_context_advances (h : SmpInv g x) {prev p : P} (ha : (x.thread a).point = .save prev p) :
    SmpAdvances g x a (.save prev p) := by
  have hat := h.point a
  have hprev : prev = (x.thread a).stack := h.wf ha
  have hhere := SmpCpu.inside_at ha
  have hcarried := hat.carried
  rw [ha] at hcarried
  have hcounted := h.counted ha
  have hcounter : x.shared.schedulercounter = 1 := h.counter_of_inside ha trivial
  have hphase := h.phase_of ha
  refine ⟨_, _, g, rfl, h.switch_go (fun l => ?_) (fun hin => (hhere _).mp hin) rfl rfl rfl ⟨rfl, rfl, rfl⟩ rfl
    (fun _ => Iff.rfl) ⟨fun _ => .inl rfl, fun _ => .inr (.inr rfl), fun _ => .inr ⟨rfl, rfl⟩, .inr rfl,
      .inl ((hhere _).mpr trivial), .inr ⟨rfl, rfl, rfl, rfl⟩⟩ ?_ (fun b hba e => hba (h.distinct b a e))
        (fun q hq => ?_)
    h.embryos, rfl⟩
  · rw [hhere]
    cases l <;> exact Iff.rfl
  · refine ⟨fun _ => h.irq_off ha (fun e => by cases e), hcounted, fun _ => hcounter, hphase, ?_,
      (fun _ hq => by cases hq), hcarried, hat.current, hat.idle, hat.idleproc⟩
    show Function.update x.shared.context prev _ _ = _
    rw [hprev]
    exact Function.update_self ..
  · rcases h.suspended_or (a := a) hq with hq | hq | ⟨i, hcontext, hcounted⟩
    · exact .inl hq
    · exact .inr (.inl hq)
    · by_cases hqp : q = prev
      · exact .inl (hprev.symm.trans hqp.symm)
      · refine .inr (.inr ⟨i, ?_, hcounted⟩)
        show Function.update x.shared.context prev _ q = _
        rw [Function.update_of_ne hqp]
        exact hcontext

omit [DecidableEq A] in
/-- The process a CPU is about to load is on no stack. -/
theorem off_stacks (h : SmpInv g x) {p : P} (ha : (x.thread a).point = .load p) (b : A) : (x.thread b).stack ≠ p := by
  intro e
  obtain ⟨-, hcpu, hgone, -⟩ := h.phase_of ha
  have hb := (h.point b).phase
  have hswitched : g.place (x.thread b).stack = .queue ∨ g.place (x.thread b).stack = .idle b → False := by
    rw [e, hcpu]
    rintro (hq | hq)
    · cases hq
    · cases hq
  have hother : g.place (x.thread b).stack ≠ .cpu b := by
    intro hq
    rw [e, hcpu] at hq
    obtain rfl : a = b := ProcPlace.cpu.inj hq
    exact hswitched hgone
  cases hphase : (x.thread b).point.phase with
  | run => rw [hphase] at hb; exact hother hb.2.1
  | leave => rw [hphase] at hb; exact hother hb.2
  | gone => rw [hphase] at hb; exact hswitched hb.2
  | swap q => rw [hphase] at hb; exact hswitched hb.2.2.1

theorem load_advances (h : SmpInv g x) {p : P} (ha : (x.thread a).point = .load p) : SmpAdvances g x a (.load p) := by
  have hat := h.point a
  obtain ⟨hcurrent, hcpu, -, hrunning⟩ := h.phase_of ha
  have hsaved : x.shared.context (x.thread a).stack = some (.finish true) := h.wf ha
  have hcreated : p ∈ g.created := fun e => by rw [hcpu] at e; cases e
  obtain ⟨i, hcontext, hcounted⟩ : Suspended x.shared p := by
    rcases h.suspended p hcreated with ⟨b, hb⟩ | hsus
    · exact absurd hb (h.off_stacks ha b)
    · exact hsus
  have hrun : SmpPoint.exec (.load p) ⟨x.thread a, x.shared⟩ = .ok (.finish i) ⟨{ x.thread a with stack := p },
      { x.shared with context := Function.update x.shared.context p none }⟩ := by
    simp only [SmpPoint.exec, Prog.bind_run, Prog.get_run, Outcome.andThen_ok, hcontext, Prog.modify_run, Prog.pure_run]
  have hhere := SmpCpu.inside_at ha
  have hcarried := hat.carried
  rw [ha] at hcarried
  have hcounter : x.shared.schedulercounter = 1 := h.counter_of_inside ha trivial
  refine ⟨_, _, g, hrun, h.switch_go (fun l => ?_) (fun hin => (hhere _).mp hin) rfl rfl rfl ⟨rfl, rfl, rfl⟩ rfl
    (fun _ => Iff.rfl) ⟨fun _ => .inl rfl, fun _ => .inr (.inr rfl), fun _ => .inr ⟨rfl, rfl⟩, .inr rfl,
      .inl ((hhere _).mpr trivial), .inr ⟨rfl, rfl, rfl, rfl⟩⟩ ?_ (fun b _ => h.off_stacks ha b)
        (fun q hq => ?_) h.embryos,
    rfl⟩
  · rw [hhere]
    cases l <;> exact Iff.rfl
  · exact ⟨fun _ => h.irq_off ha (fun e => by cases e), ⟨i, hcounted⟩, fun _ => hcounter,
      ⟨hcurrent, hcpu, hrunning⟩, trivial, (fun _ hq => by cases hq), hcarried, hat.current, hat.idle, hat.idleproc⟩
  · by_cases hqp : q = p
    · exact .inl hqp.symm
    · have hkeep : Function.update x.shared.context p none q = x.shared.context q := Function.update_of_ne hqp ..
      rcases h.suspended_or (a := a) hq with hq | hq | ⟨j, hcontext', hcounted'⟩
      · subst hq
        obtain ⟨_, hself⟩ := h.counted ha
        exact .inr (.inr ⟨true, hkeep.trans hsaved, hself⟩)
      · exact .inr (.inl hq)
      · exact .inr (.inr ⟨j, hkeep.trans hcontext', hcounted'⟩)

/-- Wherever a CPU stands, its next step is no panic. -/
theorem advances (h : SmpInv g x) {pt : SmpPoint P} (ha : (x.thread a).point = pt) (hown : pt ≠ .own) :
    SmpAdvances g x a pt := by
  cases pt with
  | own => exact absurd rfl hown
  | tick => exact h.tick_advances ha
  | schedule => exact h.schedule_advances ha
  | spin w => exact h.scheduler_spin_advances ha
  | count => exact h.count_advances ha
  | lock f => exact h.lock_advances ha
  | spinq f w => exact h.spinq_advances ha
  | body f w => exact h.body_advances ha
  | unlock f r w => exact h.unlock_advances ha
  | restoreq f r => exact h.restoreq_advances ha
  | choose r => exact h.choose_advances ha
  | select p => exact h.select_advances ha
  | setcurrent p => exact h.setcurrent_advances ha
  | save prev p => exact h.save_context_advances ha
  | load p => exact h.load_advances ha
  | finish i => exact h.finish_advances ha
  | release i w => exact h.release_advances ha
  | restore i => exact h.restore_advances ha
  | iret => exact h.iret_advances ha
  | nested => exact (h.wf ha).elim

/-! ## Own code and the timer -/

/-- The timer ticks in own code only. -/
theorem timer (h : SmpInv g x) (hirq : (x.thread a).irqOn = true) :
    SmpInv g (x.move a { x.thread a with irqOn := false, point := (x.thread a).point.interrupted } x.shared) := by
  have hat := h.point a
  have hown : (x.thread a).point = .own := by
    by_contra hne
    rw [hat.irqOn hne] at hirq
    cases hirq
  obtain ⟨hcurrent, -⟩ := h.own_run hown rfl
  have hsame : SameFor ⟨x.thread a, x.shared⟩ ⟨{ x.thread a with irqOn := false }, x.shared⟩ :=
    ⟨rfl, rfl, rfl, rfl, rfl, fun _ => rfl, fun _ _ => ⟨rfl, rfl⟩⟩
  have hcounted := h.counted hown
  have hphase := h.phase_of hown
  rw [hown]
  refine h.still (v := ⟨{ x.thread a with irqOn := false }, x.shared⟩) hsame hcurrent rfl (fun l => ?_) rfl rfl
    (hat.same hsame (fun _ => rfl) hcounted (fun hin => hin.elim) hphase trivial (fun _ hp => by cases hp) ?_)
  · rw [hown]
    cases l <;> exact Iff.rfl
  · show none = (x.thread a).point.carried
    rw [hown]
    rfl

theorem startInterrupts (h : SmpInv g x) (hown : (x.thread a).point = .own) :
    SmpInv g (x.move a { x.thread a with irqOn := true } { x.shared with
      proc := Function.update x.shared.proc (x.thread a).currentproc
        { x.shared.proc (x.thread a).currentproc with intenable := true } }) := by
  have hat := h.point a
  obtain ⟨hcurrent, -⟩ := h.own_run hown rfl
  obtain ⟨proc, hproc⟩ : ∃ proc, proc = Function.update x.shared.proc (x.thread a).currentproc
    { x.shared.proc (x.thread a).currentproc with intenable := true } := ⟨_, rfl⟩
  have hother : ∀ q, q ≠ (x.thread a).currentproc → proc q = x.shared.proc q := fun q hq => by
    rw [hproc]
    exact Function.update_of_ne hq ..
  have hfields : ∀ q, (proc q).state = (x.shared.proc q).state ∧ (proc q).ncli = (x.shared.proc q).ncli := by
    intro q
    by_cases hq : q = (x.thread a).currentproc
    · rw [hproc, hq, Function.update_self]
      exact ⟨rfl, rfl⟩
    · rw [hother q hq]
      exact ⟨rfl, rfl⟩
  have hsame : SameFor ⟨x.thread a, x.shared⟩ ⟨{ x.thread a with irqOn := true }, { x.shared with proc := proc }⟩ :=
    ⟨rfl, rfl, rfl, rfl, rfl, fun q => (hfields q).1, fun q hq => by
      show (proc q).ncli = _ ∧ (proc q).intenable = _
      rw [hother q hq]
      exact ⟨rfl, rfl⟩⟩
  have hcounted : Nested proc (x.thread a).stack (SmpPoint.own : SmpPoint P).locks := by
    obtain ⟨b, hncli, -⟩ := h.counted hown
    exact ⟨b, (hfields _).2.trans hncli, fun _ hb => by cases hb⟩
  have hphase := h.phase_of hown
  rw [← hproc]
  have hstep := h.still (v := ⟨{ x.thread a with irqOn := true }, { x.shared with proc := proc }⟩) hsame hcurrent
    rfl (fun l => by rw [hown]) rfl rfl
    (hat.same hsame (fun hne => absurd rfl hne) hcounted (fun hin => hin.elim) hphase trivial (fun _ hp => by cases hp)
      (by rw [hown]))
  have hpoint : ({ x.thread a with irqOn := true, point := .own } : SmpCpu P) = { x.thread a with irqOn := true } := by
    rw [← hown]
  rwa [← hpoint]

/-- The current process becomes the idle process. -/
theorem becomeIdle (h : SmpInv g x) (hown : (x.thread a).point = .own) (hnone : (x.thread a).idleproc = none) :
    SmpInv g (x.move a { x.thread a with idleproc := some (x.thread a).currentproc } x.shared) := by
  have hat := h.point a
  obtain ⟨hcurrent, hcpu, -⟩ := h.own_run hown rfl
  have hwf : (SmpPoint.own : SmpPoint P).Wf g { x.thread a with idleproc := some (x.thread a).currentproc } x.shared :=
    trivial
  refine h.switch_go (fun l => Iff.rfl) (fun hin => ?_) rfl rfl rfl ⟨rfl, rfl, rfl⟩ rfl (fun _ => Iff.rfl)
    ⟨fun _ => .inl rfl, fun _ => .inr (.inr rfl), fun _ => .inr ⟨rfl, rfl⟩, .inr rfl, .inr rfl,
      .inr ⟨rfl, rfl, rfl, rfl⟩⟩
    ⟨hat.irqOn, hat.counts, hat.counter, hat.phase, ?_, hat.marked, hat.carried, hat.current, fun p hp => ?_,
      fun p hp => ?_⟩
    (fun b hba e => hba (h.distinct b a e)) (fun p hp => h.suspended_or hp) h.embryos
  · have hin' : (SmpPoint.own : SmpPoint P).inside .schedulerqueuespin := hown ▸ hin
    exact hin'.elim
  · rw [← hown] at hwf
    exact hwf
  · have hidle := hat.idle p hp
    rw [hnone] at hidle
    cases hidle
  · obtain rfl : (x.thread a).currentproc = p := Option.some.inj hp
    rw [hcurrent]
    exact .inl hcpu

omit [DecidableEq A] in
/-- `irq_save` in own code. -/
theorem own_save (h : SmpInv g x) (hown : (x.thread a).point = .own) :
    ∃ v, onCpu irqSave ⟨x.thread a, x.shared⟩ = .ok () v ∧
    SameFor ⟨x.thread a, x.shared⟩ v ∧ v.cpu.irqOn = false ∧ v.shared.lock = x.shared.lock ∧
    v.shared.links = x.shared.links ∧ v.shared.schedulercounter = x.shared.schedulercounter ∧
    Counted v.shared.proc (x.thread a).stack [(x.thread a).irqOn] := by
  obtain ⟨hcurrent, -⟩ := h.own_run hown rfl
  obtain ⟨b, hcounted⟩ := h.counted hown
  rw [← hcurrent] at hcounted ⊢
  exact onCpu_irqSave (v := ⟨x.thread a, x.shared⟩) hcounted fun hne => absurd rfl hne

/-- Own code begins to enqueue a prepared process. -/
theorem enqueue (h : SmpInv g x) (hown : (x.thread a).point = .own) {q : P} (hq : q ∈ x.shared.embryos) {v : CpuView P}
    (hsave : onCpu irqSave ⟨x.thread a, x.shared⟩ = .ok () v) :
    ∃ g', SmpInv g' (x.move a { v.cpu with point := .spinq (.enqueue q none) .trylock }
      { v.shared with embryos := x.shared.embryos \ {q} }) ∧ g'.created = g.created := by
  obtain ⟨v', hrun, hsame, hoff, hlock, hlinks, hcounter, hcounted⟩ := h.own_save hown
  obtain rfl : v = v' := (Outcome.ok.inj (hsave.symm.trans hrun)).2
  have hat := h.point a
  have hembryo : g.place q = .embryo := (h.embryos q).mp hq
  have hcreated : q ∈ g.created := fun e => by rw [hembryo] at e; cases e
  have hne : ∀ pl : ProcPlace A, pl ≠ .embryo → pl ≠ .hand a → ∀ p,
      (g.put q (.hand a) g.R g.N g.links).place p = pl ↔ g.place p = pl :=
    fun pl hold hnew p => SmpGhost.put_iff _ _ _ _ _ _ (by rw [hembryo]; exact Ne.symm hold) (Ne.symm hnew)
  have hhere := SmpCpu.inside_at hown
  obtain ⟨hcurrent, hcpu, hrunning⟩ := h.own_run hown rfl
  have hother : ∀ p, p ≠ (x.thread a).stack → (v.shared.proc p).ncli = (x.shared.proc p).ncli ∧
      (v.shared.proc p).intenable = (x.shared.proc p).intenable := fun p hp => hsame.counts p (by
    show p ≠ (x.thread a).currentproc
    rwa [hcurrent])
  refine ⟨g.put q (.hand a) g.R g.N g.links, h.switch_go (fun l => ?_)
    (fun hin => (hhere _).mp hin) hlock hlinks hcounter
    ⟨rfl, rfl, rfl⟩ (SmpGhost.put_created _ _ _ _ _ _ hcreated (fun e => by cases e))
    (hne .queue (fun e => by cases e) (fun e => by cases e)) ?_ ?_
    (fun b hba e => hba (h.distinct b a (e.trans hsame.stack))) (fun p hp => ?_) (fun p => ?_),
    SmpGhost.put_created _ _ _ _ _ _ hcreated (fun e => by cases e)⟩
  · rw [hhere]
    cases l <;> exact Iff.rfl
  · exact ⟨SmpGhost.put_moves _ _ _ _ _ _ (hembryo ▸ .embryo) .hand, fun p => .inr (.inr (hsame.state p)),
      fun p => (eq_or_ne p _).imp_right (hother p), .inr hcounter, .inr hsame.context, .inr ⟨hlinks, rfl, rfl, rfl⟩⟩
  · have hstack : v.cpu.stack = (x.thread a).stack := hsame.stack
    have hcurrent' : v.cpu.currentproc = (x.thread a).currentproc := hsame.currentproc
    have hidle' : v.cpu.idleproc = (x.thread a).idleproc := hsame.idleproc
    refine ⟨fun _ => hoff, ⟨(x.thread a).irqOn, ?_⟩, fun hin => hin.elim, ⟨?_, ?_, ?_⟩, ⟨.inl rfl, trivial⟩,
      (fun _ hp => by cases hp), fun p => ?_, fun p hp => ?_, fun p hp => ?_, fun p hp => ?_⟩
    · show Counted v.shared.proc v.cpu.stack _
      rw [hstack]
      exact hcounted
    · exact hcurrent'.trans (hcurrent.trans hstack.symm)
    · show (g.put q (.hand a) g.R g.N g.links).place v.cpu.stack = .cpu a
      rw [hstack, hne (.cpu a) nofun nofun]
      exact hcpu
    · show (v.shared.proc v.cpu.stack).state = .RUNNING
      rw [hstack]
      exact (hsame.state _).trans hrunning
    · by_cases hpq : p = q
      · subst hpq
        rw [SmpGhost.put_self]
        exact iff_of_true rfl rfl
      · rw [SmpGhost.put_ne _ _ _ _ _ _ hpq, hat.carried, hown]
        exact iff_of_false (fun e => by cases e) fun e => hpq (Option.some.inj e).symm
    · rw [hne (.cpu a) nofun nofun] at hp
      exact hcurrent'.trans (hat.current p hp)
    · rw [hne (.idle a) nofun nofun] at hp
      exact hidle'.trans (hat.idle p hp)
    · rw [hne (.cpu a) nofun nofun, hne (.idle a) nofun nofun]
      exact hat.idleproc p (hidle'.symm.trans hp)
  · show v.cpu.stack = p ∨ _ ∨ Suspended _ p
    rw [show v.cpu.stack = (x.thread a).stack from hsame.stack]
    rcases h.suspended_or (a := a) hp with hp | hp | ⟨i, hcontext, hcounted'⟩
    · exact .inl hp
    · exact .inr (.inl hp)
    · by_cases hpa : (x.thread a).stack = p
      · exact .inl hpa
      · refine .inr (.inr ⟨i, ?_, hcounted'.congr (hother p (Ne.symm hpa)).1 (hother p (Ne.symm hpa)).2⟩)
        show v.shared.context p = _
        rw [show v.shared.context = x.shared.context from hsame.context]
        exact hcontext
  · show p ∈ x.shared.embryos \ {q} ↔ _
    by_cases hpq : p = q
    · subst hpq
      rw [SmpGhost.put_self]
      exact iff_of_false (fun hp => hp.2 rfl) (fun e => by cases e)
    · rw [SmpGhost.put_ne _ _ _ _ _ _ hpq, ← h.embryos]
      exact ⟨fun hp => hp.1, fun hp => ⟨hp, hpq⟩⟩

/-! ## Runs -/

theorem step (h : SmpInv g x) {c : SmpCpu P} {s : SmpShared P} (hmove : SmpMove a (x.thread a) x.shared c s) :
    ∃ g', SmpInv g' (x.move a c s) ∧ g'.created = g.created := by
  cases hmove with
  | timer hirq => exact ⟨g, h.timer hirq, rfl⟩
  | enqueue q v hown _ hq hsave => exact h.enqueue hown hq hsave
  | idle hown _ hnone => exact ⟨g, h.becomeIdle hown hnone, rfl⟩
  | startInterrupts hown _ => exact ⟨g, h.startInterrupts hown, rfl⟩
  | handler next v hown hrun =>
    obtain ⟨next', v', g', hrun', hinv, hcreated⟩ := h.advances rfl hown
    obtain ⟨rfl, rfl⟩ := Outcome.ok.inj (hrun.symm.trans hrun')
    exact ⟨g', hinv, hcreated⟩

theorem run (h : SmpInv g x) {y : Config A (SmpCpu P) (SmpShared P)} (hrun : Run SmpMove x y) :
    ∃ g', SmpInv g' y ∧ g'.created = g.created := by
  refine hrun.invariant (I := fun z => ∃ g', SmpInv g' z ∧ g'.created = g.created) ?_ ⟨g, h, rfl⟩
  rintro z b c s ⟨g', hz, hcreated⟩ hmove
  obtain ⟨g'', hz', hcreated'⟩ := hz.step hmove
  exact ⟨g'', hz', hcreated'.trans hcreated⟩

omit [DecidableEq A] in
/-- Where a CPU's current process is. -/
theorem place_current (h : SmpInv g x) (a : A) : g.place (x.thread a).currentproc = .cpu a ∨
    (x.thread a).inside .schedulerspin ∧
      (g.place (x.thread a).currentproc = .queue ∨ g.place (x.thread a).currentproc = .idle a) := by
  have hholds := (h.point a).phase
  cases hphase : (x.thread a).point.phase with
  | run =>
    rw [hphase] at hholds
    exact .inl (by rw [hholds.1]; exact hholds.2.1)
  | leave =>
    rw [hphase] at hholds
    exact .inl (by rw [hholds.1]; exact hholds.2)
  | gone =>
    rw [hphase] at hholds
    exact .inr ⟨SmpPoint.inside_of_phase (by rw [hphase]; exact nofun), by rw [hholds.1]; exact hholds.2⟩
  | swap p =>
    rw [hphase] at hholds
    exact .inl (by rw [hholds.1]; exact hholds.2.1)

omit [DecidableEq A] in
theorem currents_distinct (h : SmpInv g x) {a b : A} (hab : (x.thread a).currentproc = (x.thread b).currentproc) :
    a = b := by
  rcases h.place_current a with ha | ⟨hina, ha⟩
  · rcases h.place_current b with hb | ⟨-, hb⟩
    · rw [← hab, ha] at hb
      exact ProcPlace.cpu.inj hb
    · rw [← hab, ha] at hb
      rcases hb with hb | hb
      · cases hb
      · cases hb
  · rcases h.place_current b with hb | ⟨hinb, -⟩
    · rw [hab, hb] at ha
      rcases ha with ha | ha
      · cases ha
      · cases ha
    · exact h.exclusive.unique _ a b hina hinb

end SmpInv

/-! ## Starts -/

/-- All CPUs in the own code of their processes, the others in the queue or prepared. -/
structure SmpStart (x : Config A (SmpCpu P) (SmpShared P)) (C : Set P) (R : List P) : Prop where
  own : ∀ a, (x.thread a).point = .own
  stack : ∀ a, (x.thread a).stack = (x.thread a).currentproc
  idleproc : ∀ a, (x.thread a).idleproc = none
  running : ∀ a, (x.shared.proc (x.thread a).currentproc).state = .RUNNING
  ncli : ∀ a, (x.shared.proc (x.thread a).currentproc).ncli = 0
  distinct : ∀ a b, (x.thread a).currentproc = (x.thread b).currentproc → a = b
  lock : ∀ l, x.shared.lock l = spinUnlocked
  counter : x.shared.schedulercounter = 0
  queues : Queues x.shared.links C R []
  created : ∀ p, p ∈ C ↔ (∃ a, (x.thread a).currentproc = p) ∨ p ∈ R ∨ p ∈ x.shared.embryos
  waiting : ∀ p, p ∈ R ∨ p ∈ x.shared.embryos → (∀ a, (x.thread a).currentproc ≠ p) ∧ Suspended x.shared p
  prepared : ∀ p ∈ R, p ∉ x.shared.embryos

open Classical in
/-- Where each process is at the start. -/
noncomputable def startPlace (x : Config A (SmpCpu P) (SmpShared P)) (R : List P) (p : P) : ProcPlace A :=
  if h : ∃ a, (x.thread a).currentproc = p then .cpu h.choose
  else if p ∈ R then .queue
  else if p ∈ x.shared.embryos then .embryo
  else .nowhere

namespace SmpStart
variable {x : Config A (SmpCpu P) (SmpShared P)} {C : Set P} {R : List P}

omit [DecidableEq A] in
theorem place_current (h : SmpStart x C R) (a : A) : startPlace x R (x.thread a).currentproc = .cpu a := by
  have hex : ∃ b, (x.thread b).currentproc = (x.thread a).currentproc := ⟨a, rfl⟩
  rw [startPlace, dif_pos hex, h.distinct _ a hex.choose_spec]

omit [DecidableEq A] in
theorem place_other {p : P} (hp : ∀ a, (x.thread a).currentproc ≠ p) :
    startPlace x R p =
      if p ∈ R then .queue else open Classical in if p ∈ x.shared.embryos then .embryo else .nowhere := by
  rw [startPlace, dif_neg fun ⟨a, ha⟩ => hp a ha]

omit [DecidableEq A] in
/-- Every process is a current process, in the queue, prepared or not there. -/
theorem place_cases (h : SmpStart x C R) (p : P) :
    (∃ a, (x.thread a).currentproc = p ∧ startPlace x R p = .cpu a) ∨
    (∀ a, (x.thread a).currentproc ≠ p) ∧ (p ∈ R ∧ startPlace x R p = .queue ∨
      p ∉ R ∧ p ∈ x.shared.embryos ∧ startPlace x R p = .embryo ∨
      p ∉ R ∧ p ∉ x.shared.embryos ∧ startPlace x R p = .nowhere) := by
  by_cases hcur : ∃ a, (x.thread a).currentproc = p
  · obtain ⟨a, rfl⟩ := hcur
    exact .inl ⟨a, rfl, h.place_current a⟩
  · have hout : ∀ a, (x.thread a).currentproc ≠ p := fun a ha => hcur ⟨a, ha⟩
    refine .inr ⟨hout, ?_⟩
    rw [place_other hout]
    by_cases hR : p ∈ R
    · exact .inl ⟨hR, if_pos hR⟩
    · rw [if_neg hR]
      by_cases hE : p ∈ x.shared.embryos
      · exact .inr (.inl ⟨hR, hE, if_pos hE⟩)
      · exact .inr (.inr ⟨hR, hE, if_neg hE⟩)

omit [DecidableEq A] in
theorem inv (h : SmpStart x C R) : ∃ g : SmpGhost A P, SmpInv g x ∧ g.created = C := by
  have hcreated : ∀ p, startPlace x R p ≠ .nowhere ↔ p ∈ C := by
    intro p
    rw [h.created]
    rcases h.place_cases p with ⟨a, ha, hpl⟩ | ⟨hout, ⟨hR, hpl⟩ | ⟨hR, hE, hpl⟩ | ⟨hR, hE, hpl⟩⟩
    · exact iff_of_true (by rw [hpl]; exact nofun) (.inl ⟨a, ha⟩)
    · exact iff_of_true (by rw [hpl]; exact nofun) (.inr (.inl hR))
    · exact iff_of_true (by rw [hpl]; exact nofun) (.inr (.inr hE))
    · exact iff_of_false (fun hne => hne hpl) fun hin => hin.elim (fun ⟨a, ha⟩ => hout a ha) fun hin => hin.elim hR hE
  have hset : (⟨startPlace x R, R, [], x.shared.links⟩ : SmpGhost A P).created = C := Set.ext hcreated
  have hnone : ∀ l a, ¬(x.thread a).inside l := by
    intro l a hin
    have hin' : (SmpPoint.own : SmpPoint P).inside l := h.own a ▸ hin
    exact hin'.elim
  refine ⟨⟨startPlace x R, R, [], x.shared.links⟩, ?_, hset⟩
  constructor
  · exact ⟨fun l a b ha _ => absurd ha (hnone l a),
      fun l => ⟨fun htaken => absurd (h.lock l) htaken, fun ⟨a, ha⟩ => absurd ha (hnone l a)⟩⟩
  · intro a
    have hlocks : (x.thread a).point.locks false = [] := by
      rw [h.own a]
      rfl
    have hnotin : ∀ pl : ProcPlace A, (∀ b, pl ≠ .cpu b) → pl ≠ .queue → pl ≠ .embryo → pl ≠ .nowhere →
        ∀ p, startPlace x R p ≠ pl := by
      intro pl hcpu hqueue hembryo hnowhere p
      rcases h.place_cases p with ⟨b, -, hpl⟩ | ⟨-, ⟨-, hpl⟩ | ⟨-, -, hpl⟩ | ⟨-, -, hpl⟩⟩
      · rw [hpl]
        exact Ne.symm (hcpu b)
      · rw [hpl]
        exact Ne.symm hqueue
      · rw [hpl]
        exact Ne.symm hembryo
      · rw [hpl]
        exact Ne.symm hnowhere
    refine ⟨fun hne => absurd (h.own a) hne, ?_, fun hin => absurd hin (hnone _ a), ?_, ?_, fun p hp => ?_, fun p => ?_,
      fun p hp => ?_, fun p hp => ?_, fun p hp => ?_⟩
    · refine ⟨false, ?_⟩
      rw [hlocks, h.stack]
      exact ⟨h.ncli a, fun b hb => nomatch hb⟩
    · rw [h.own a]
      exact ⟨(h.stack a).symm, by rw [h.stack]; exact h.place_current a, by rw [h.stack]; exact h.running a⟩
    · rw [h.own a]
      trivial
    · rw [h.own a] at hp
      cases hp
    · rw [h.own a]
      exact iff_of_false (hnotin (.hand a) (fun _ => nofun) nofun nofun nofun p) nofun
    · rcases h.place_cases p with ⟨b, hb, hpl⟩ | ⟨-, ⟨-, hpl⟩ | ⟨-, -, hpl⟩ | ⟨-, -, hpl⟩⟩
      · obtain rfl : b = a := ProcPlace.cpu.inj (hpl.symm.trans hp)
        exact hb
      · cases hpl.symm.trans hp
      · cases hpl.symm.trans hp
      · cases hpl.symm.trans hp
    · exact absurd hp (hnotin (.idle a) (fun _ => nofun) nofun nofun nofun p)
    · rw [h.idleproc a] at hp
      cases hp
  · show Queues x.shared.links _ R []
    rw [hset]
    exact h.queues
  · intro p
    show p ∈ R ↔ startPlace x R p = .queue
    rcases h.place_cases p with ⟨a, ha, hpl⟩ | ⟨-, ⟨hR, hpl⟩ | ⟨hR, -, hpl⟩ | ⟨hR, -, hpl⟩⟩
    · refine iff_of_false (fun hR => (h.waiting p (.inl hR)).1 a ha) ?_
      rw [hpl]
      exact nofun
    · exact iff_of_true hR hpl
    · exact iff_of_false hR (by rw [hpl]; exact nofun)
    · exact iff_of_false hR (by rw [hpl]; exact nofun)
  · exact fun _ => rfl
  · exact fun _ => h.counter
  · intro a b e
    rw [h.stack, h.stack] at e
    exact h.distinct a b e
  · intro p hp
    rcases h.place_cases p with ⟨a, ha, -⟩ | ⟨-, ⟨hR, -⟩ | ⟨-, hE, -⟩ | ⟨-, -, hpl⟩⟩
    · exact .inl ⟨a, by rw [h.stack, ha]⟩
    · exact .inr (h.waiting p (.inl hR)).2
    · exact .inr (h.waiting p (.inr hE)).2
    · exact absurd hpl hp
  · intro p
    show p ∈ x.shared.embryos ↔ startPlace x R p = .embryo
    rcases h.place_cases p with ⟨a, ha, hpl⟩ | ⟨-, ⟨hR, hpl⟩ | ⟨-, hE, hpl⟩ | ⟨-, hE, hpl⟩⟩
    · refine iff_of_false (fun hE => (h.waiting p (.inr hE)).1 a ha) ?_
      rw [hpl]
      exact nofun
    · exact iff_of_false (h.prepared p hR) (by rw [hpl]; exact nofun)
    · exact iff_of_true hE hpl
    · exact iff_of_false hE (by rw [hpl]; exact nofun)

end SmpStart

/-! ## Every run -/

/-- In the endless loop of `cpu_spinunlock`. -/
def SmpPoint.Hangs : SmpPoint P → Prop
  | .unlock _ _ .hang => True
  | .release _ .hang => True
  | _ => False

/-- What holds in every state of a run with the processes `C`. -/
structure SmpDiscipline (C : Set P) (x : Config A (SmpCpu P) (SmpShared P)) : Prop where
  /-- No process is on two CPUs. -/
  distinct : ∀ a b, (x.thread a).stack = (x.thread b).stack → a = b
  current : ∀ a b, (x.thread a).currentproc = (x.thread b).currentproc → a = b
  exclusive : ∀ l a b, (x.thread a).inside l → (x.thread b).inside l → a = b
  /-- No step panics, hangs or switches to a process whose registers are not saved. -/
  progress : ∀ a, (x.thread a).point ≠ .own → ∃ next v, (x.thread a).point.exec ⟨x.thread a, x.shared⟩ = .ok next v
  enqueues : ∀ a, (x.thread a).point = .own → ∃ v, onCpu irqSave ⟨x.thread a, x.shared⟩ = .ok () v
  hangs : ∀ a, ¬(x.thread a).point.Hangs
  saved : ∀ p ∈ C, (∀ a, (x.thread a).stack ≠ p) → ∃ interrupted, x.shared.context p = some (.finish interrupted)
  /-- The queue is whole whenever its lock is free, and no process is lost. -/
  queue : (∀ a, ¬(x.thread a).inside .schedulerqueuespin) → ∃ R N, Queues x.shared.links C R N ∧
    (∀ p ∈ R, ∀ a, (x.thread a).currentproc = p → (x.thread a).inside .schedulerspin) ∧
    ∀ p ∈ C, p ∈ R ∨ (∃ a, (x.thread a).currentproc = p) ∨ (∃ a, (x.thread a).idleproc = some p) ∨
      p ∈ x.shared.embryos ∨ ∃ a, (x.thread a).point.carried = some p

theorem SmpInv.discipline {g : SmpGhost A P} {x : Config A (SmpCpu P) (SmpShared P)} (h : SmpInv g x) :
    SmpDiscipline g.created x where
  distinct := h.distinct
  current a b := h.currents_distinct
  exclusive := h.exclusive.unique
  progress a hown := by
    obtain ⟨next, v, -, hrun, -⟩ := h.advances rfl hown
    exact ⟨next, v, hrun⟩
  enqueues a hown := by
    obtain ⟨v, hrun, -⟩ := h.own_save hown
    exact ⟨v, hrun⟩
  hangs a hhang := by
    have hnot : ¬SpinPoint.hang.unlocking := by
      rintro (e | e)
      · cases e
      · cases e
    cases hpt : (x.thread a).point with
    | unlock f r w =>
      rw [hpt] at hhang
      cases w with
      | hang => exact hnot (h.wf hpt).1
      | _ => exact hhang
    | release i w =>
      rw [hpt] at hhang
      cases w with
      | hang => exact hnot (h.wf hpt)
      | _ => exact hhang
    | _ =>
      rw [hpt] at hhang
      exact hhang
  saved p hp hout := by
    rcases h.suspended p hp with ⟨a, ha⟩ | ⟨i, hcontext, -⟩
    · exact absurd ha (hout a)
    · exact ⟨i, hcontext⟩
  queue hfree := by
    refine ⟨g.R, g.N, ?_, fun p hR a ha => ?_, fun p hp => ?_⟩
    · rw [h.links hfree]
      exact h.queues
    · rw [h.runnable, ← ha] at hR
      rcases h.place_current a with hcpu | ⟨hin, -⟩
      · rw [hcpu] at hR
        cases hR
      · exact hin
    · cases hpl : g.place p with
      | nowhere => exact absurd hpl hp
      | cpu a => exact .inr (.inl ⟨a, (h.point a).current p hpl⟩)
      | queue => exact .inl ((h.runnable p).mpr hpl)
      | idle a => exact .inr (.inr (.inl ⟨a, (h.point a).idle p hpl⟩))
      | embryo => exact .inr (.inr (.inr (.inl ((h.embryos p).mpr hpl))))
      | hand a => exact .inr (.inr (.inr (.inr ⟨a, ((h.point a).carried p).mp hpl⟩)))

/-- **The scheduler is safe on any number of CPUs**, in whatever order they take their steps. -/
theorem smp_discipline {x y : Config A (SmpCpu P) (SmpShared P)} {C : Set P} {R : List P} (hstart : SmpStart x C R)
    (hrun : Run SmpMove x y) : SmpDiscipline C y := by
  obtain ⟨g, hinv, rfl⟩ := hstart.inv
  obtain ⟨g', hinv', hcreated⟩ := hinv.run hrun
  rw [← hcreated]
  exact hinv'.discipline

/-- The next step of a CPU that enqueues nothing: from its own code it starts the interrupts, or the timer ticks. -/
def smpExec (c : SmpCpu P) (s : SmpShared P) : SmpCpu P × SmpShared P :=
  match c.point with
  | .own =>
    if c.irqOn then ({ c with irqOn := false, point := .tick }, s)
    else ({ c with irqOn := true }, { s with
      proc := Function.update s.proc c.currentproc { s.proc c.currentproc with intenable := true } })
  | pt =>
    match pt.exec ⟨c, s⟩ with
    | .ok next v => ({ v.cpu with point := next }, v.shared)
    | _ => (c, s)

theorem SmpInv.exec_move {g : SmpGhost A P} {x : Config A (SmpCpu P) (SmpShared P)} (h : SmpInv g x) (a : A) :
    SmpMove a (x.thread a) x.shared (smpExec (x.thread a) x.shared).1 (smpExec (x.thread a) x.shared).2 := by
  by_cases hown : (x.thread a).point = .own
  · by_cases hirq : (x.thread a).irqOn = true
    · have htimer := SmpMove.timer (a := a) (s := x.shared) hirq
      rw [hown] at htimer
      simpa [smpExec, hown, hirq, SmpPoint.interrupted] using htimer
    · have hstart := SmpMove.startInterrupts (a := a) (s := x.shared) hown (.inl (eq_false_of_ne_true hirq))
      simpa [smpExec, hown, hirq] using hstart
  · obtain ⟨next, v, -, hrun, -⟩ := h.advances rfl hown
    have hexec : smpExec (x.thread a) x.shared = ({ v.cpu with point := next }, v.shared) := by
      unfold smpExec
      split
      · next hpt => exact absurd hpt hown
      · rw [hrun]
    rw [hexec]
    exact .handler next v hown hrun

/-- The CPUs can take their steps in every order. -/
theorem SmpInv.follow {g : SmpGhost A P} {x : Config A (SmpCpu P) (SmpShared P)} (h : SmpInv g x) (schedule : List A) :
    Run SmpMove x (x.follow (fun _ => smpExec) schedule) := by
  refine .of_follow_invariant (I := fun y => ∃ g', SmpInv g' y) ?_ ?_ schedule ⟨g, h⟩
  · rintro y a c s ⟨g', hy⟩ hmove
    obtain ⟨g'', hy', -⟩ := hy.step hmove
    exact ⟨g'', hy'⟩
  · rintro y a ⟨g', hy⟩
    exact hy.exec_move a

/-- CPU `b` runs process 0 or 1, the second with interrupts off, and process 2 is prepared. -/
def smpTrio : Config Bool (SmpCpu ℕ) (SmpShared ℕ) where
  thread b := ⟨b.toNat, none, 0, !b, b.toNat, .own⟩
  shared := ⟨fun _ => spinUnlocked, fun n => ⟨some n, some n⟩,
    fun p => if p = 2 then ⟨.EMBRYO, 0, 1, true⟩ else ⟨.RUNNING, 0, 0, true⟩, 0,
    fun p => if p = 2 then some (.finish false) else none, {2}⟩

theorem smpTrio_start : SmpStart smpTrio {0, 1, 2} [] where
  own _ := rfl
  stack _ := rfl
  idleproc _ := rfl
  running := by decide
  ncli := by decide
  distinct := by decide
  lock _ := rfl
  counter := rfl
  queues := by
    have hring : ∀ n : QNode ℕ, IsRing (fun n => ⟨some n, some n⟩) n [] := fun n =>
      ⟨List.isChain_cons_cons.mpr ⟨⟨rfl, rfl⟩, List.isChain_singleton _⟩, List.nodup_singleton n⟩
    refine ⟨fun i => ?_, fun i j e => ?_, ?_, ?_, ?_, fun _ _ _ => .inr rfl⟩
    · cases i <;> exact hring _
    · cases i <;> cases j <;> first | rfl | cases e
    · rintro i ⟨p, -, e⟩
      cases i <;> cases e
    · intro i n hn
      cases i <;> cases hn
    · intro i j n hn
      cases i <;> cases hn
  created p := by
    constructor
    · rintro (rfl | rfl | rfl)
      · exact .inl ⟨false, rfl⟩
      · exact .inl ⟨true, rfl⟩
      · exact .inr (.inr rfl)
    · rintro (⟨b, rfl⟩ | hp | rfl)
      · cases b
        · exact .inl rfl
        · exact .inr (.inl rfl)
      · cases hp
      · exact .inr (.inr rfl)
  waiting p hp := by
    obtain rfl : p = 2 := hp.resolve_left List.not_mem_nil
    exact ⟨by decide, false, rfl, rfl, fun b hb => Option.some.inj hb⟩
  prepared p hp := nomatch hp

/-- CPU `true` has called `irq_save` in order to enqueue process 2. -/
def smpTrioSaved : CpuView ℕ :=
  CpuView.put (enterSection (CpuView.sched ⟨smpTrio.thread true, smpTrio.shared⟩)) ⟨smpTrio.thread true, smpTrio.shared⟩

def smpTrioEnqueue : Config Bool (SmpCpu ℕ) (SmpShared ℕ) :=
  smpTrio.move true { smpTrioSaved.cpu with point := .spinq (.enqueue 2 none) .trylock }
    { smpTrioSaved.shared with embryos := smpTrio.shared.embryos \ {2} }

/-- CPU `true` puts process 2 into the queue, starts its interrupts and switches to it at the next tick, while the other
CPU ticks too and spins. -/
def smpTrioSwitched : Config Bool (SmpCpu ℕ) (SmpShared ℕ) := smpTrioEnqueue.follow (fun _ => smpExec)
  (List.replicate 30 true ++ List.replicate 4 false ++ List.replicate 40 true)

theorem smp_discipline_trio : (smpTrioSwitched.thread true).stack = 2 ∧ SmpDiscipline {0, 1, 2} smpTrioSwitched := by
  obtain ⟨g, hinv, -⟩ := smpTrio_start.inv
  have hmove : SmpMove true (smpTrio.thread true) smpTrio.shared _ _ :=
    .enqueue 2 smpTrioSaved rfl (.inl rfl) rfl (onCpu_run (spinlock_first rfl))
  obtain ⟨g', hinv', -⟩ := hinv.step hmove
  have hrun : Run SmpMove smpTrio smpTrioSwitched := .head (.of true _ _ hmove) (hinv'.follow _)
  exact ⟨by decide +kernel, smp_discipline smpTrio_start hrun⟩

end Borgos.Kcore
