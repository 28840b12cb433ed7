import Borgos.Foundations.History
import Borgos.Kcore.Proc
import Borgos.Kcore.Spinlock

/-! # `proc.c`: process identifiers with SMP

Any number of calls of `proc_newpid` at the same time, each access to the lock and to the table a step of its own.
Whatever the interleaving, the calls get the identifiers they would get one after the other in some order. Log output
is left out.
-/
namespace Borgos.Kcore
open Borgos.Foundations Interleaving
set_option autoImplicit false

/-- Where a call of `proc_newpid` stands. -/
inductive NewpidPoint where
  | start
  /-- In `cpu_spinlock`. -/
  | lock (pt : SpinPoint)
  /-- At the loop condition, and the test of the entry. -/
  | test (i : ℕ)
  | store (i : ℕ)
  /-- In `cpu_spinunlock`. -/
  | unlock (pid : ℕ) (pt : SpinPoint)
  /-- At `if (pid>0)`. -/
  | check (pid : ℕ)
  | returned (pid : ℕ)
  | panicked

/-- `proctablespin`, `ptable.proc` and the `pid` of each process. -/
structure PidState where
  proctablespin : LockByte
  proc : ℕ → ℕ
  pid : ℕ → ℕ

/-- One step of `proc_newpid(p)`. -/
def NewpidPoint.exec (p : ℕ) (s : PidState) : NewpidPoint → NewpidPoint × PidState
  | .start => (.lock .trylock, s)
  | .lock pt =>
    ((pt.exec s.proctablespin).1.elim (.test 1) .lock, { s with proctablespin := (pt.exec s.proctablespin).2 })
  | .test i =>
    if i < maxproc then
      if s.proc i = 0 then (.store i, s) else (.test (i + 1), s)
    else (.unlock 0 .test, s)
  | .store i => (.unlock i .test, { s with proc := Function.update s.proc i p })
  | .unlock pid pt =>
    ((pt.exec s.proctablespin).1.elim (.check pid) (.unlock pid),
      { s with proctablespin := (pt.exec s.proctablespin).2 })
  | .check pid =>
    if 0 < pid then (.returned pid, { s with pid := Function.update s.pid p pid }) else (.panicked, s)
  | .returned pid => (.returned pid, s)
  | .panicked => (.panicked, s)

theorem NewpidPoint.exec_test_free {p : ℕ} {s : PidState} {i : ℕ} (hi : i < maxproc) (hfree : s.proc i = 0) :
    NewpidPoint.exec p s (.test i) = (.store i, s) := by simp [NewpidPoint.exec, hi, hfree]

theorem NewpidPoint.exec_test_used {p : ℕ} {s : PidState} {i : ℕ} (hi : i < maxproc) (hused : s.proc i ≠ 0) :
    NewpidPoint.exec p s (.test i) = (.test (i + 1), s) := by simp [NewpidPoint.exec, hi, hused]

theorem NewpidPoint.exec_test_end {p : ℕ} {s : PidState} {i : ℕ} (hi : ¬i < maxproc) :
    NewpidPoint.exec p s (.test i) = (.unlock 0 .test, s) := by simp [NewpidPoint.exec, hi]

theorem NewpidPoint.exec_check_pos {p : ℕ} {s : PidState} {pid : ℕ} (h : 0 < pid) :
    NewpidPoint.exec p s (.check pid) = (.returned pid, { s with pid := Function.update s.pid p pid }) := by
  simp [NewpidPoint.exec, h]

variable {A : Type} [DecidableEq A] (arg : A → ℕ)

inductive NewpidMove (a : A) (l : NewpidPoint) (s : PidState) : NewpidPoint → PidState → Prop
  | exec : NewpidMove a l s (l.exec (arg a) s).1 (l.exec (arg a) s).2

/-! ## One call alone -/

/-- The table after a call, and the identifier it gets: 0 when there is none. -/
def assignPid (proc : ℕ → ℕ) (a : A) : (ℕ → ℕ) × ℕ :=
  match freePid proc with
  | some i => (Function.update proc i (arg a), i)
  | none => (proc, 0)

omit [DecidableEq A] in
/-- `procNewpid`, which runs a call in one go, does the same. -/
theorem procNewpid_assignPid {ρ : Type} {a : A} {pid : ℕ} {s s' : Kernel ρ} (h : procNewpid (arg a) s = .ok pid s') :
    (assignPid arg s.ptable a) = (s'.ptable, pid) := by
  unfold procNewpid at h
  obtain ⟨_, _, hget, h⟩ := Prog.bind_ok.mp h
  obtain ⟨rfl, rfl⟩ := Outcome.ok.inj hget
  unfold assignPid
  cases hfree : freePid s.ptable with
  | none =>
    simp only [hfree] at h
    exact absurd h Prog.panic_ne_ok
  | some i =>
    simp only [hfree] at h
    obtain ⟨_, s₁, h₁, h⟩ := Prog.bind_ok.mp h
    obtain ⟨-, rfl⟩ := Outcome.ok.inj h₁
    obtain ⟨_, s₂, h₂, h⟩ := Prog.bind_ok.mp h
    obtain ⟨-, rfl⟩ := Outcome.ok.inj h₂
    obtain ⟨rfl, rfl⟩ := Outcome.ok.inj h
    rfl

/-- No entry from 1 up to `i` is 0. -/
def ScannedTo (proc : ℕ → ℕ) (i : ℕ) : Prop := ∀ j, 1 ≤ j → j < i → proc j ≠ 0

theorem ScannedTo.succ {proc : ℕ → ℕ} {i : ℕ} (h : ScannedTo proc i) (hi : proc i ≠ 0) : ScannedTo proc (i + 1) := by
  intro j hj hji
  rcases Nat.lt_succ_iff_lt_or_eq.mp hji with hlt | rfl
  · exact h j hj hlt
  · exact hi

theorem freePid_of_scanned {proc : ℕ → ℕ} {i : ℕ} (h : ScannedTo proc i) (h1 : 1 ≤ i) (hi : i < maxproc)
    (hfree : proc i = 0) : freePid proc = some i := by
  unfold freePid
  rw [List.find?_eq_some_iff_append]
  refine ⟨by simpa using hfree, List.range' 1 (i - 1), List.range' (i + 1) (maxproc - 1 - i), ?_, ?_⟩
  · have hsplit : List.range' 1 (i - 1) ++ List.range' (1 + 1 * (i - 1)) (maxproc - i) =
        List.range' 1 (maxproc - 1) := by
      rw [List.range'_append, show i - 1 + (maxproc - i) = maxproc - 1 by omega]
    rw [← hsplit, show maxproc - i = maxproc - 1 - i + 1 by omega, List.range'_succ,
      show 1 + 1 * (i - 1) = i by omega]
  · intro j hj
    rw [List.mem_range'_1] at hj
    simpa using h j hj.1 (by omega)

theorem freePid_of_full {proc : ℕ → ℕ} {i : ℕ} (h : ScannedTo proc i) (hi : maxproc ≤ i) : freePid proc = none := by
  unfold freePid
  rw [List.find?_eq_none]
  intro j hj
  rw [List.mem_range'_1] at hj
  simpa using h j hj.1 (by unfold maxproc at *; omega)

theorem freePid_some {proc : ℕ → ℕ} {i : ℕ} (h : freePid proc = some i) : 1 ≤ i ∧ i < maxproc ∧ proc i = 0 := by
  unfold freePid at h
  have hfree : decide (proc i = 0) = true := List.find?_some (p := fun i => decide (proc i = 0)) h
  have hmem := List.mem_of_find?_eq_some h
  rw [List.mem_range'_1] at hmem
  exact ⟨hmem.1, by unfold maxproc at *; omega, of_decide_eq_true hfree⟩

section Sequential
variable {arg}

omit [DecidableEq A] in
theorem assignPid_some {proc : ℕ → ℕ} {a : A} (h : (assignPid arg proc a).2 ≠ 0) :
    freePid proc = some (assignPid arg proc a).2 ∧
      (assignPid arg proc a).1 = Function.update proc (assignPid arg proc a).2 (arg a) := by
  unfold assignPid at *
  cases hfree : freePid proc with
  | none =>
    rw [hfree] at h
    exact absurd rfl h
  | some i => exact ⟨rfl, rfl⟩

omit [DecidableEq A] in
/-- The answer 0 is given only when the table is full. -/
theorem assignPid_zero {proc : ℕ → ℕ} {a : A} (h : (assignPid arg proc a).2 = 0) : freePid proc = none := by
  unfold assignPid at h
  cases hfree : freePid proc with
  | none => rfl
  | some i =>
    rw [hfree] at h
    have hpos := (freePid_some hfree).1
    simp only at h
    omega

omit [DecidableEq A] in
/-- A call leaves the entries that are in use. -/
theorem assignPid_keeps {proc : ℕ → ℕ} {j : ℕ} (hj : proc j ≠ 0) (a : A) : (assignPid arg proc a).1 j = proc j := by
  unfold assignPid
  cases hfree : freePid proc with
  | none => rfl
  | some i =>
    have hne : j ≠ i := by
      rintro rfl
      exact hj (freePid_some hfree).2.2
    exact Function.update_of_ne hne ..

omit [DecidableEq A] in
theorem serve_assignPid_keeps {proc : ℕ → ℕ} {j : ℕ} (hj : proc j ≠ 0) (order : List A) :
    serve (assignPid arg) proc order j = proc j := by
  induction order generalizing proc with
  | nil => rfl
  | cons a order ih =>
    have hkeep : (assignPid arg proc a).1 j = proc j := assignPid_keeps hj a
    calc serve (assignPid arg) (assignPid arg proc a).1 order j
      _ = (assignPid arg proc a).1 j := ih (by rwa [hkeep])
      _ = proc j := hkeep

end Sequential

/-! ## The invariant -/

/-- Between the two calls of the lock functions. -/
def NewpidPoint.inside : NewpidPoint → Unit → Prop
  | .test _, _ => True
  | .store _, _ => True
  | .unlock _ _, _ => True
  | _, _ => False

def tableTaken (s : PidState) (_ : Unit) : Prop := s.proctablespin ≠ spinUnlocked

/-- The identifier a call has chosen, 0 for none. -/
def NewpidPoint.answer : NewpidPoint → Option ℕ
  | .unlock pid _ => some pid
  | .check pid => some pid
  | .returned pid => some pid
  | .panicked => some 0
  | _ => none

/-- What a call has found out about the table, and what it has stored. -/
def NewpidPoint.Fits (p : ℕ) (s : PidState) : NewpidPoint → Prop
  | .lock pt => pt.locking
  | .test i => 1 ≤ i ∧ ScannedTo s.proc i
  | .store i => 1 ≤ i ∧ i < maxproc ∧ s.proc i = 0 ∧ ScannedTo s.proc i
  | .unlock _ pt => pt.unlocking
  | .returned pid => 0 < pid ∧ s.pid p = pid
  | _ => True

structure NewpidInv (proc₀ : ℕ → ℕ) (order : List A) (x : Config A NewpidPoint PidState) : Prop where
  exclusive : Exclusive NewpidPoint.inside tableTaken x
  fits : ∀ a, (x.thread a).Fits (arg a) x.shared
  history : History (assignPid arg) proc₀ (fun a => (x.thread a).answer) x.shared.proc order

namespace NewpidInv
variable {arg} {proc₀ : ℕ → ℕ} {order : List A} {x : Config A NewpidPoint PidState} {a : A} {l : NewpidPoint}
  {s : PidState}

/-- A step that changes neither the table nor what the call has chosen. -/
theorem quiet (h : NewpidInv arg proc₀ order x)
    (hlock : Respects NewpidPoint.inside tableTaken () (x.thread a) x.shared l s) (hproc : s.proc = x.shared.proc)
    (hpid : s.pid = x.shared.pid) (hanswer : l.answer = (x.thread a).answer) (hfits : l.Fits (arg a) s) :
    NewpidInv arg proc₀ order (x.move a l s) where
  exclusive := h.exclusive.step fun _ => hlock
  fits := by
    intro b
    by_cases hba : b = a
    · subst hba
      rwa [x.move_self]
    · have hb := h.fits b
      rw [x.move_other l s hba]
      cases hpt : x.thread b with
      | start => trivial
      | lock pt => rwa [hpt] at hb
      | test i =>
        rw [hpt] at hb
        simpa only [NewpidPoint.Fits, Config.move_shared, hproc] using hb
      | store i =>
        rw [hpt] at hb
        simpa only [NewpidPoint.Fits, Config.move_shared, hproc] using hb
      | unlock pid pt => rwa [hpt] at hb
      | check pid => trivial
      | returned pid =>
        rw [hpt] at hb
        simpa only [NewpidPoint.Fits, Config.move_shared, hpid] using hb
      | panicked => trivial
  history := by
    rw [x.move_shared, hproc]
    refine h.history.congr fun b => ?_
    by_cases hba : b = a
    · subst hba
      rw [x.move_self, hanswer]
    · rw [x.move_other l s hba]

omit [DecidableEq A] in
/-- What the others know does not depend on the table, while `a` is inside. -/
theorem others_fit (h : NewpidInv arg proc₀ order x) (ha : (x.thread a).inside ()) {b : A} (hba : b ≠ a)
    (hpid : s.pid = x.shared.pid) : (x.thread b).Fits (arg b) s := by
  have hout := h.exclusive.not_inside ha hba
  have hb := h.fits b
  cases hpt : x.thread b with
  | start => trivial
  | lock pt => rwa [hpt] at hb
  | test i =>
    rw [hpt] at hout
    exact absurd trivial hout
  | store i =>
    rw [hpt] at hout
    exact absurd trivial hout
  | unlock pid pt =>
    rw [hpt] at hout
    exact absurd trivial hout
  | check pid => trivial
  | returned pid =>
    rw [hpt] at hb
    simpa only [NewpidPoint.Fits, hpid] using hb
  | panicked => trivial

/-- The step that chooses: the call is the next in the order. -/
theorem choose (h : NewpidInv arg proc₀ order x) (ha : (x.thread a).inside ()) (hnone : (x.thread a).answer = none)
    {pid : ℕ} (hspin : s.proctablespin = x.shared.proctablespin) (hpid : s.pid = x.shared.pid)
    (hassign : assignPid arg x.shared.proc a = (s.proc, pid)) :
    NewpidInv arg proc₀ (order ++ [a]) (x.move a (.unlock pid .test) s) where
  exclusive := h.exclusive.step fun _ => .keep ⟨fun _ => ha, fun _ => trivial⟩ (by rw [tableTaken, tableTaken, hspin])
  fits := by
    intro b
    by_cases hba : b = a
    · subst hba
      rw [x.move_self]
      exact .inl rfl
    · rw [x.move_other _ _ hba]
      exact h.others_fit ha hba hpid
  history := by
    obtain ⟨answer', hanswer⟩ : ∃ answer' : A → Option ℕ, answer' =
      fun b => ((x.move a (.unlock pid .test) s).thread b).answer := ⟨_, rfl⟩
    have hother : ∀ b, b ≠ a → answer' b = (x.thread b).answer := by
      intro b hba
      rw [hanswer]
      exact congrArg NewpidPoint.answer (x.move_other _ _ hba)
    have hself : answer' a = some (assignPid arg x.shared.proc a).2 := by
      rw [hanswer, hassign]
      exact congrArg NewpidPoint.answer (x.move_self ..)
    have hnext := h.history.next hnone hother hself
    rwa [hassign, hanswer] at hnext

theorem start (h : NewpidInv arg proc₀ order x) (ha : x.thread a = .start) :
    NewpidInv arg proc₀ order (x.move a (.lock .trylock) x.shared) := by
  refine h.quiet (.keep ?_ Iff.rfl) rfl rfl (by rw [ha]; rfl) (.inl rfl)
  rw [ha]
  exact Iff.rfl

theorem lock (h : NewpidInv arg proc₀ order x) {pt : SpinPoint} (ha : x.thread a = .lock pt) :
    NewpidInv arg proc₀ order (x.move a ((pt.exec x.shared.proctablespin).1.elim (.test 1) .lock)
      { x.shared with proctablespin := (pt.exec x.shared.proctablespin).2 }) := by
  have hlocking : pt.locking := by
    have hfits := h.fits a
    rwa [ha] at hfits
  generalize hexec : pt.exec x.shared.proctablespin = r
  have haccess : LockAccess x.shared.proctablespin r := hexec ▸ pt.exec_locking hlocking _
  cases haccess with
  | got hfree =>
    refine h.quiet (.acquire (fun htaken => htaken hfree) spinLocked_ne trivial) rfl rfl (by rw [ha]; rfl) ?_
    exact ⟨le_refl 1, fun j hj hj1 => absurd hj (Nat.not_le.mpr hj1)⟩
  | spin pt' lock' hpt' hsame =>
    refine h.quiet (.keep ?_ (not_congr hsame)) rfl rfl (by rw [ha]; rfl) hpt'
    rw [ha]
    exact Iff.rfl

theorem test (h : NewpidInv arg proc₀ order x) {i : ℕ} (ha : x.thread a = .test i) :
    ∃ order', order <+: order' ∧ NewpidInv arg proc₀ order' (x.move a (NewpidPoint.exec (arg a) x.shared (.test i)).1
      (NewpidPoint.exec (arg a) x.shared (.test i)).2) := by
  obtain ⟨h1, hscan⟩ : 1 ≤ i ∧ ScannedTo x.shared.proc i := by
    have hfits := h.fits a
    rwa [ha] at hfits
  have hin : (x.thread a).inside () := by
    rw [ha]
    trivial
  have hanswer : (x.thread a).answer = none := by
    rw [ha]
    rfl
  by_cases hi : i < maxproc
  · by_cases hfree : x.shared.proc i = 0
    · rw [NewpidPoint.exec_test_free hi hfree]
      exact ⟨order, List.prefix_rfl, h.quiet (.keep ⟨fun _ => hin, fun _ => trivial⟩ Iff.rfl) rfl rfl hanswer.symm
        ⟨h1, hi, hfree, hscan⟩⟩
    · rw [NewpidPoint.exec_test_used hi hfree]
      exact ⟨order, List.prefix_rfl, h.quiet (.keep ⟨fun _ => hin, fun _ => trivial⟩ Iff.rfl) rfl rfl hanswer.symm
        ⟨Nat.le_succ_of_le h1, hscan.succ hfree⟩⟩
  · rw [NewpidPoint.exec_test_end hi]
    refine ⟨order ++ [a], List.prefix_append _ _, h.choose hin hanswer rfl rfl ?_⟩
    rw [assignPid, freePid_of_full hscan (Nat.not_lt.mp hi)]

theorem store (h : NewpidInv arg proc₀ order x) {i : ℕ} (ha : x.thread a = .store i) :
    NewpidInv arg proc₀ (order ++ [a]) (x.move a (.unlock i .test)
      { x.shared with proc := Function.update x.shared.proc i (arg a) }) := by
  obtain ⟨h1, hi, hfree, hscan⟩ : 1 ≤ i ∧ i < maxproc ∧ x.shared.proc i = 0 ∧ ScannedTo x.shared.proc i := by
    have hfits := h.fits a
    rwa [ha] at hfits
  have hin : (x.thread a).inside () := by
    rw [ha]
    trivial
  refine h.choose hin (by rw [ha]; rfl) rfl rfl ?_
  rw [assignPid, freePid_of_scanned hscan h1 hi hfree]

theorem unlock (h : NewpidInv arg proc₀ order x) {pid : ℕ} {pt : SpinPoint} (ha : x.thread a = .unlock pid pt) :
    NewpidInv arg proc₀ order (x.move a ((pt.exec x.shared.proctablespin).1.elim (.check pid) (.unlock pid))
      { x.shared with proctablespin := (pt.exec x.shared.proctablespin).2 }) := by
  have hunlocking : pt.unlocking := by
    have hfits := h.fits a
    rwa [ha] at hfits
  have hin : (x.thread a).inside () := by
    rw [ha]
    trivial
  have htaken : x.shared.proctablespin ≠ spinUnlocked := (h.exclusive.taken_iff ()).mpr ⟨a, hin⟩
  generalize hexec : pt.exec x.shared.proctablespin = r
  have haccess : UnlockAccess x.shared.proctablespin r := hexec ▸ pt.exec_unlocking hunlocking htaken
  cases haccess with
  | test => exact h.quiet (.keep ⟨fun _ => hin, fun _ => trivial⟩ Iff.rfl) rfl rfl (by rw [ha]; rfl) (.inr rfl)
  | release =>
    exact h.quiet (.release hin (fun hout => hout) (fun htaken' => htaken' rfl)) rfl rfl (by rw [ha]; rfl) trivial

/-- `p->pid = pid`. -/
theorem check (h : NewpidInv arg proc₀ order x) (harg : Function.Injective arg) {pid : ℕ}
    (ha : x.thread a = .check pid) :
    NewpidInv arg proc₀ order (x.move a (NewpidPoint.exec (arg a) x.shared (.check pid)).1
      (NewpidPoint.exec (arg a) x.shared (.check pid)).2) := by
  by_cases hpid : 0 < pid
  · rw [NewpidPoint.exec_check_pos hpid]
    constructor
    · refine h.exclusive.step fun _ => .keep ?_ Iff.rfl
      rw [ha]
      exact Iff.rfl
    · intro b
      by_cases hba : b = a
      · subst hba
        rw [x.move_self]
        exact ⟨hpid, Function.update_self ..⟩
      · have hb := h.fits b
        rw [x.move_other _ _ hba]
        cases hpt : x.thread b with
        | start => trivial
        | lock pt => rwa [hpt] at hb
        | test i => rwa [hpt] at hb
        | store i => rwa [hpt] at hb
        | unlock pid pt => rwa [hpt] at hb
        | check pid => trivial
        | returned pid' =>
          rw [hpt] at hb
          have hother : Function.update x.shared.pid (arg a) pid (arg b) = x.shared.pid (arg b) :=
            Function.update_of_ne (fun e => hba (harg e)) ..
          exact ⟨hb.1, hother.trans hb.2⟩
        | panicked => trivial
    · refine h.history.congr fun b => ?_
      by_cases hba : b = a
      · subst hba
        rw [x.move_self, ha]
        rfl
      · rw [x.move_other _ _ hba]
  · obtain rfl : pid = 0 := Nat.eq_zero_of_not_pos hpid
    refine h.quiet (.keep ?_ Iff.rfl) rfl rfl (by rw [ha]; rfl) trivial
    rw [ha]
    exact Iff.rfl

/-- A call that is over stays where it is. -/
theorem finished (h : NewpidInv arg proc₀ order x) : NewpidInv arg proc₀ order (x.move a (x.thread a) x.shared) := by
  have hsame : x.move a (x.thread a) x.shared = x := by
    rw [Config.move, Function.update_eq_self]
  rwa [hsame]

/-- The order grows at its end. -/
theorem step (h : NewpidInv arg proc₀ order x) (harg : Function.Injective arg)
    (hmove : NewpidMove arg a (x.thread a) x.shared l s) :
    ∃ order', order <+: order' ∧ NewpidInv arg proc₀ order' (x.move a l s) := by
  obtain ⟨⟩ := hmove
  cases ha : x.thread a with
  | start => exact ⟨order, List.prefix_rfl, h.start ha⟩
  | lock pt => exact ⟨order, List.prefix_rfl, h.lock ha⟩
  | test i => exact h.test ha
  | store i => exact ⟨order ++ [a], List.prefix_append _ _, h.store ha⟩
  | unlock pid pt => exact ⟨order, List.prefix_rfl, h.unlock ha⟩
  | check pid => exact ⟨order, List.prefix_rfl, h.check harg ha⟩
  | returned pid =>
    have hsame' := h.finished (a := a)
    rw [ha] at hsame'
    exact ⟨order, List.prefix_rfl, hsame'⟩
  | panicked =>
    have hsame' := h.finished (a := a)
    rw [ha] at hsame'
    exact ⟨order, List.prefix_rfl, hsame'⟩

theorem run (h : NewpidInv arg proc₀ order x) (harg : Function.Injective arg) {y : Config A NewpidPoint PidState}
    (hrun : Run (NewpidMove arg) x y) : ∃ order', order <+: order' ∧ NewpidInv arg proc₀ order' y := by
  refine hrun.invariant (I := fun z => ∃ order', order <+: order' ∧ NewpidInv arg proc₀ order' z) ?_
    ⟨order, List.prefix_rfl, h⟩
  rintro z b l s ⟨order', hpre, hz⟩ hmove
  obtain ⟨order'', hpre', hz'⟩ := hz.step harg hmove
  exact ⟨order'', hpre.trans hpre', hz'⟩

end NewpidInv

/-- No call has begun, and the lock is free. -/
structure NewpidStart (x : Config A NewpidPoint PidState) : Prop where
  thread : ∀ a, x.thread a = .start
  lock : x.shared.proctablespin = spinUnlocked

omit [DecidableEq A] in
theorem NewpidStart.inv {x : Config A NewpidPoint PidState} (h : NewpidStart x) : NewpidInv arg x.shared.proc [] x where
  exclusive := by
    have hnone : ∀ k a, ¬(x.thread a).inside k := fun k a => by
      rw [h.thread a]
      exact id
    exact ⟨fun k a _ ha _ => absurd ha (hnone k a),
      fun k => ⟨fun htaken => absurd h.lock htaken, fun ⟨a, ha⟩ => absurd ha (hnone k a)⟩⟩
  fits a := by
    rw [h.thread a]
    trivial
  history := .nil _ _ fun a => by
    rw [h.thread a]
    rfl

section Answers
variable {arg} {proc₀ proc : ℕ → ℕ} {order : List A} {answer : A → Option ℕ}

omit [DecidableEq A] in
/-- An identifier was free before, and stands for the caller's process from then on. -/
theorem pid_assigned (h : History (assignPid arg) proc₀ answer proc order) (harg : ∀ a, arg a ≠ 0) {a : A} {pid : ℕ}
    (ha : answer a = some pid) (hpid : pid ≠ 0) :
    1 ≤ pid ∧ pid < maxproc ∧ proc₀ pid = 0 ∧ proc pid = arg a := by
  obtain ⟨pre, post, horder⟩ := List.append_of_mem ((h.mem_iff a).mpr (by rw [ha]; exact Option.some_ne_none pid))
  obtain rfl : pid = (assignPid arg (serve (assignPid arg) proc₀ pre) a).2 :=
    Option.some.inj (ha.symm.trans (h.answers pre a post horder))
  obtain ⟨hfree, hafter⟩ := assignPid_some hpid
  obtain ⟨h1, hmax, hzero⟩ := freePid_some hfree
  refine ⟨h1, hmax, ?_, ?_⟩
  · by_contra hused
    rw [serve_assignPid_keeps hused] at hzero
    exact hused hzero
  · have hstored := congrFun hafter (assignPid arg (serve (assignPid arg) proc₀ pre) a).2
    rw [Function.update_self] at hstored
    have hobject := h.object
    rw [horder, serve_append] at hobject
    rw [← hobject]
    exact (serve_assignPid_keeps (fun hzero' => harg a (hstored.symm.trans hzero')) post).trans hstored

omit [DecidableEq A] in
/-- A call that gets none finds the table full, and full it stays. -/
theorem pid_refused (h : History (assignPid arg) proc₀ answer proc order) {a : A} (ha : answer a = some 0) {i : ℕ}
    (h1 : 1 ≤ i) (hi : i < maxproc) : proc i ≠ 0 := by
  obtain ⟨pre, post, horder⟩ := List.append_of_mem ((h.mem_iff a).mpr (by rw [ha]; exact Option.some_ne_none 0))
  have hzero : (assignPid arg (serve (assignPid arg) proc₀ pre) a).2 = 0 :=
    Option.some.inj ((h.answers pre a post horder).symm.trans ha)
  have hnone := assignPid_zero hzero
  have hsame : (assignPid arg (serve (assignPid arg) proc₀ pre) a).1 = serve (assignPid arg) proc₀ pre := by
    rw [assignPid, hnone]
  have hused : serve (assignPid arg) proc₀ pre i ≠ 0 := by
    unfold freePid at hnone
    rw [List.find?_eq_none] at hnone
    simpa using hnone i (List.mem_range'_1.mpr ⟨h1, by unfold maxproc at *; omega⟩)
  have hobject := h.object
  rw [horder, serve_append] at hobject
  rw [← hobject]
  show serve (assignPid arg) (assignPid arg (serve (assignPid arg) proc₀ pre) a).1 post i ≠ 0
  rw [hsame, serve_assignPid_keeps hused]
  exact hused

end Answers

/-- Calls of `proc_newpid` at the same time, on different processes: in some order of the calls that have chosen, each
has chosen what it would choose alone, and the table is what they leave one after the other. The calls that have chosen
up to some moment of the run come first in it. So the identifiers are different, and `panic` is called only with a full
table. -/
theorem newpid_serializable {x m y : Config A NewpidPoint PidState} (hinj : Function.Injective arg)
    (hne : ∀ a, arg a ≠ 0) (hstart : NewpidStart x) (hrun : Run (NewpidMove arg) x m)
    (hrun' : Run (NewpidMove arg) m y) :
    (∃ early order, early <+: order ∧
      History (assignPid arg) x.shared.proc (fun a => (m.thread a).answer) m.shared.proc early ∧
      History (assignPid arg) x.shared.proc (fun a => (y.thread a).answer) y.shared.proc order) ∧
    (∀ a pid, y.thread a = .returned pid → 1 ≤ pid ∧ pid < maxproc ∧ x.shared.proc pid = 0 ∧
      y.shared.proc pid = arg a ∧ y.shared.pid (arg a) = pid) ∧
    (∀ a b pid, y.thread a = .returned pid → y.thread b = .returned pid → a = b) ∧
    ∀ a, y.thread a = .panicked → ∀ i, 1 ≤ i → i < maxproc → y.shared.proc i ≠ 0 := by
  obtain ⟨early, -, hinv'⟩ := (hstart.inv arg).run hinj hrun
  obtain ⟨order, hpre, hinv⟩ := hinv'.run hinj hrun'
  have hgot : ∀ a pid, y.thread a = .returned pid → 1 ≤ pid ∧ pid < maxproc ∧ x.shared.proc pid = 0 ∧
      y.shared.proc pid = arg a ∧ y.shared.pid (arg a) = pid := by
    intro a pid ha
    have hfits := hinv.fits a
    rw [ha] at hfits
    obtain ⟨h1, hmax, hfree, htable⟩ := pid_assigned hinv.history hne (a := a)
      ((congrArg NewpidPoint.answer ha).trans rfl)
      (Nat.pos_iff_ne_zero.mp hfits.1)
    exact ⟨h1, hmax, hfree, htable, hfits.2⟩
  refine ⟨⟨early, order, hpre, hinv'.history, hinv.history⟩, hgot, ?_, ?_⟩
  · intro a b pid ha hb
    obtain ⟨-, -, -, htable, -⟩ := hgot a pid ha
    obtain ⟨-, -, -, htable', -⟩ := hgot b pid hb
    exact hinj (htable.symm.trans htable')
  · intro a ha i h1 hi
    exact pid_refused hinv.history (a := a) (by rw [ha]; rfl) h1 hi

/-! ## Two calls -/

/-- Calls for the processes 1 and 2, and an empty table. -/
def newpidPair : Config Bool NewpidPoint PidState := ⟨fun _ => .start, ⟨spinUnlocked, fun _ => 0, fun _ => 0⟩⟩

def newpidArg (b : Bool) : ℕ := if b then 1 else 2

def newpidExec (b : Bool) (l : NewpidPoint) (s : PidState) : NewpidPoint × PidState := l.exec (newpidArg b) s

/-- The first call takes the lock and stores its process, while the second finds the lock taken. -/
def newpidMid : Config Bool NewpidPoint PidState :=
  newpidPair.follow newpidExec [true, true, false, false, true, false, true, false]

/-- The first call returns, and then the second has its turn. -/
def newpidEnd : Config Bool NewpidPoint PidState :=
  newpidMid.follow newpidExec ([true, true, true] ++ List.replicate 9 false)

theorem newpid_serializable_pair :
    newpidEnd.thread true = .returned 1 ∧ newpidEnd.thread false = .returned 2 ∧
    (∃ early order, early <+: order ∧
      History (assignPid newpidArg) newpidPair.shared.proc (fun a => (newpidMid.thread a).answer) newpidMid.shared.proc
        early ∧
      History (assignPid newpidArg) newpidPair.shared.proc (fun a => (newpidEnd.thread a).answer) newpidEnd.shared.proc
        order) ∧
    (∀ a pid, newpidEnd.thread a = .returned pid → 1 ≤ pid ∧ pid < maxproc ∧ newpidPair.shared.proc pid = 0 ∧
      newpidEnd.shared.proc pid = newpidArg a ∧ newpidEnd.shared.pid (newpidArg a) = pid) ∧
    (∀ a b pid, newpidEnd.thread a = .returned pid → newpidEnd.thread b = .returned pid → a = b) ∧
    ∀ a, newpidEnd.thread a = .panicked → ∀ i, 1 ≤ i → i < maxproc → newpidEnd.shared.proc i ≠ 0 :=
  ⟨rfl, rfl, newpid_serializable newpidArg (by decide) (by decide) ⟨fun _ => rfl, rfl⟩
    (.of_follow (fun _ _ _ => .exec) _ _) (.of_follow (fun _ _ _ => .exec) _ _)⟩

end Borgos.Kcore
