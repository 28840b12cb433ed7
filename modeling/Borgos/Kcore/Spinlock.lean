import Borgos.Foundations.Interleaving
import Mathlib.Data.BitVec

/-! # `cpu_spinlock.h`: spinlocks with SMP

The two functions access by access. A caller stands between two accesses to the lock byte, and other callers may run
there. The calls of `irq_save` and `irq_restore` around them concern the caller's own CPU and are left out, and so is
log output.
-/
namespace Borgos.Kcore
open Borgos.Foundations Interleaving
set_option autoImplicit false

abbrev LockByte := BitVec 8

/-- `SPIN_LOCKED` -/
def spinLocked : LockByte := 1

/-- `SPIN_UNLOCKED` -/
def spinUnlocked : LockByte := 0

/-- `_cpu_trylock`: the old value, and the lock after the exchange. -/
def cpuTrylock (lock newval : LockByte) : LockByte × LockByte := (lock, newval)

/-- Where in `cpu_spinlock` or `cpu_spinunlock` a caller stands. -/
inductive SpinPoint where
  /-- Before the first `_cpu_trylock`. -/
  | trylock
  /-- In the loop, before the lock is read. -/
  | read
  /-- In the loop, before `_cpu_trylock`. -/
  | retry
  /-- At the test in `cpu_spinunlock`. -/
  | test
  /-- In the endless loop after it. -/
  | hang
  /-- Before `_cpu_trylock` in `cpu_spinunlock`. -/
  | unlock
deriving DecidableEq

/-- After a `_cpu_trylock` of `cpu_spinlock`: back to the caller or to the loop. -/
def afterTrylock (ret : LockByte) : Option SpinPoint := if ret = spinUnlocked then none else some .read

/-- One access: where the caller stands after it (nowhere, when the function returns), and the lock. -/
def SpinPoint.exec (lock : LockByte) : SpinPoint → Option SpinPoint × LockByte
  | .trylock => (afterTrylock (cpuTrylock lock spinLocked).1, (cpuTrylock lock spinLocked).2)
  | .read => (some (if lock = spinLocked then .read else .retry), lock)
  | .retry => (afterTrylock (cpuTrylock lock spinLocked).1, (cpuTrylock lock spinLocked).2)
  | .test => (some (if lock = spinUnlocked then .hang else .unlock), lock)
  | .hang => (some .hang, lock)
  | .unlock => (none, (cpuTrylock lock spinUnlocked).2)

/-- The points of `cpu_spinlock`. -/
def SpinPoint.locking (pt : SpinPoint) : Prop := pt = .trylock ∨ pt = .read ∨ pt = .retry

/-- The points of `cpu_spinunlock` but the endless loop. -/
def SpinPoint.unlocking (pt : SpinPoint) : Prop := pt = .test ∨ pt = .unlock

theorem spinLocked_ne : spinLocked ≠ spinUnlocked := by decide

/-- `cpu_spinlock` returns when it has found the lock free; until then it leaves a free lock free. -/
inductive LockAccess (lock : LockByte) : Option SpinPoint × LockByte → Prop
  | got (hfree : lock = spinUnlocked) : LockAccess lock (none, spinLocked)
  | spin (pt : SpinPoint) (lock' : LockByte) (hpt : pt.locking) (hsame : lock' = spinUnlocked ↔ lock = spinUnlocked) :
      LockAccess lock (some pt, lock')

theorem LockAccess.of_trylock (lock : LockByte) :
    LockAccess lock (afterTrylock (cpuTrylock lock spinLocked).1, (cpuTrylock lock spinLocked).2) := by
  unfold afterTrylock cpuTrylock
  by_cases hlock : lock = spinUnlocked
  · rw [if_pos hlock]
    exact .got hlock
  · rw [if_neg hlock]
    exact .spin .read spinLocked (.inr (.inl rfl)) (iff_of_false spinLocked_ne hlock)

theorem SpinPoint.exec_locking {pt : SpinPoint} (h : pt.locking) (lock : LockByte) :
    LockAccess lock (pt.exec lock) := by
  rcases h with rfl | rfl | rfl
  · exact .of_trylock lock
  · by_cases hlock : lock = spinLocked
    · rw [show SpinPoint.read.exec lock = (some .read, lock) by simp [SpinPoint.exec, hlock]]
      exact .spin .read lock (.inr (.inl rfl)) Iff.rfl
    · rw [show SpinPoint.read.exec lock = (some .retry, lock) by simp [SpinPoint.exec, hlock]]
      exact .spin .retry lock (.inr (.inr rfl)) Iff.rfl
  · exact .of_trylock lock

/-- `cpu_spinunlock` of a lock that is taken. -/
inductive UnlockAccess (lock : LockByte) : Option SpinPoint × LockByte → Prop
  | test : UnlockAccess lock (some .unlock, lock)
  | release : UnlockAccess lock (none, spinUnlocked)

theorem SpinPoint.exec_unlocking {pt : SpinPoint} (h : pt.unlocking) {lock : LockByte} (htaken : lock ≠ spinUnlocked) :
    UnlockAccess lock (pt.exec lock) := by
  rcases h with rfl | rfl
  · rw [show SpinPoint.test.exec lock = (some .unlock, lock) by simp [SpinPoint.exec, htaken]]
    exact .test
  · exact .release

/-! ## Callers that lock and unlock -/

variable {A K D : Type} [DecidableEq A] [DecidableEq K]

/-- A caller: the function it is in, with the lock it was called for, and the locks it holds. -/
structure SpinThread (K : Type) where
  call : Option (K × SpinPoint)
  held : Set K

/-- The lock bytes, and the data under each lock. -/
structure SpinShared (K D : Type) where
  lock : K → LockByte
  data : K → D

def SpinShared.setLock (s : SpinShared K D) (k : K) (lock : LockByte) : SpinShared K D :=
  { s with lock := Function.update s.lock k lock }

/-- What a caller holds after an access. -/
def heldAfter (k : K) (next : Option SpinPoint) (pt : SpinPoint) (held : Set K) : Set K :=
  match next with
  | some _ => held
  | none => if pt = .unlock then held \ {k} else insert k held

/-- A caller locks anything, unlocks what it holds and changes what it has locked. -/
inductive SpinMove (a : A) (l : SpinThread K) (s : SpinShared K D) : SpinThread K → SpinShared K D → Prop
  | spinlock (k : K) (hown : l.call = none) : SpinMove a l s { l with call := some (k, .trylock) } s
  | spinunlock (k : K) (hown : l.call = none) (hheld : k ∈ l.held) :
      SpinMove a l s { l with call := some (k, .test) } s
  | write (k : K) (d : D) (hown : l.call = none) (hheld : k ∈ l.held) :
      SpinMove a l s l { s with data := Function.update s.data k d }
  | access (k : K) (pt : SpinPoint) (hcall : l.call = some (k, pt)) :
      SpinMove a l s
        ⟨(pt.exec (s.lock k)).1.map fun next => (k, next), heldAfter k (pt.exec (s.lock k)).1 pt l.held⟩
        (s.setLock k (pt.exec (s.lock k)).2)

def holds (l : SpinThread K) (k : K) : Prop := k ∈ l.held

def lockTaken (s : SpinShared K D) (k : K) : Prop := s.lock k ≠ spinUnlocked

theorem lockTaken_setLock_self (s : SpinShared K D) (k : K) (lock : LockByte) :
    lockTaken (s.setLock k lock) k ↔ lock ≠ spinUnlocked := by
  show Function.update s.lock k lock k ≠ spinUnlocked ↔ _
  rw [Function.update_self]

theorem lockTaken_setLock_other (s : SpinShared K D) {j k : K} (h : j ≠ k) (lock : LockByte) :
    lockTaken (s.setLock k lock) j ↔ lockTaken s j := by
  show Function.update s.lock k lock j ≠ spinUnlocked ↔ s.lock j ≠ spinUnlocked
  rw [Function.update_of_ne h]

/-- A caller in `cpu_spinunlock` holds the lock and is not in the endless loop. -/
def Disciplined (l : SpinThread K) : Prop :=
  ∀ k pt, l.call = some (k, pt) → pt.locking ∨ pt.unlocking ∧ k ∈ l.held

structure SpinInv (x : Config A (SpinThread K) (SpinShared K D)) : Prop where
  exclusive : Exclusive holds lockTaken x
  disciplined : ∀ a, Disciplined (x.thread a)

namespace SpinInv
variable {x : Config A (SpinThread K) (SpinShared K D)} {a : A} {l : SpinThread K} {s : SpinShared K D}

omit [DecidableEq K] in
/-- Only the caller's own discipline is to be shown. -/
theorem of_step (h : SpinInv x) (hexclusive : ∀ k, Respects holds lockTaken k (x.thread a) x.shared l s)
    (hdisciplined : Disciplined l) : SpinInv (x.move a l s) where
  exclusive := h.exclusive.step hexclusive
  disciplined := by
    intro b
    by_cases hba : b = a
    · subst hba
      rwa [x.move_self]
    · rw [x.move_other l s hba]
      exact h.disciplined b

/-- An access to `k` respects the other locks. -/
theorem respects_other {k j : K} (hjk : j ≠ k) {l' : SpinThread K} {lock' : LockByte}
    (hheld : j ∈ l'.held ↔ j ∈ l.held) :
    Respects holds lockTaken j l s l' (s.setLock k lock') :=
  .keep hheld (lockTaken_setLock_other s hjk lock')

theorem access (h : SpinInv x) {k : K} {pt : SpinPoint} (hcall : (x.thread a).call = some (k, pt)) :
    SpinInv (x.move a
      ⟨(pt.exec (x.shared.lock k)).1.map fun next => (k, next),
        heldAfter k (pt.exec (x.shared.lock k)).1 pt (x.thread a).held⟩
      (x.shared.setLock k (pt.exec (x.shared.lock k)).2)) := by
  rcases h.disciplined a k pt hcall with hlocking | ⟨hunlocking, hheld⟩
  · have hne : pt ≠ .unlock := by
      rcases hlocking with rfl | rfl | rfl <;> decide
    generalize hexec : pt.exec (x.shared.lock k) = r
    have haccess : LockAccess (x.shared.lock k) r := hexec ▸ pt.exec_locking hlocking _
    cases haccess with
    | got hfree =>
      refine h.of_step (fun j => ?_) (fun j pt' hcall' => by cases hcall')
      by_cases hjk : j = k
      · subst hjk
        refine .acquire (fun htaken => htaken hfree) ?_ ?_
        · exact (lockTaken_setLock_self ..).mpr spinLocked_ne
        · rw [holds, heldAfter, if_neg hne]
          exact Set.mem_insert j _
      · refine respects_other hjk ?_
        rw [heldAfter, if_neg hne]
        exact ⟨fun hj => Set.mem_of_mem_insert_of_ne hj hjk, fun hj => Set.mem_insert_of_mem k hj⟩
    | spin pt' lock' hpt' hsame =>
      refine h.of_step (fun j => ?_) ?_
      · by_cases hjk : j = k
        · subst hjk
          exact .keep Iff.rfl ((lockTaken_setLock_self ..).trans (not_congr hsame))
        · exact respects_other hjk Iff.rfl
      · intro j q hq
        obtain ⟨-, rfl⟩ := Prod.mk.inj (Option.some.inj hq)
        exact .inl hpt'
  · have htaken : x.shared.lock k ≠ spinUnlocked := (h.exclusive.taken_iff k).mpr ⟨a, hheld⟩
    generalize hexec : pt.exec (x.shared.lock k) = r
    have haccess : UnlockAccess (x.shared.lock k) r := hexec ▸ pt.exec_unlocking hunlocking htaken
    cases haccess with
    | test =>
      refine h.of_step (fun j => ?_) ?_
      · have hsame : x.shared.setLock k (x.shared.lock k) = x.shared := by
          rw [SpinShared.setLock, Function.update_eq_self]
        exact .keep Iff.rfl (by rw [hsame])
      · intro j q hq
        obtain ⟨rfl, rfl⟩ := Prod.mk.inj (Option.some.inj hq)
        exact .inr ⟨.inr rfl, hheld⟩
    | release =>
      have hpt : pt = .unlock := by
        rcases hunlocking with rfl | rfl
        · rw [SpinPoint.exec] at hexec
          cases hexec
        · rfl
      refine h.of_step (fun j => ?_) (fun j pt' hcall' => by cases hcall')
      by_cases hjk : j = k
      · subst hjk
        refine .release hheld ?_ ?_
        · rw [holds, heldAfter, if_pos hpt]
          exact fun hj => hj.2 rfl
        · exact fun htaken' => (lockTaken_setLock_self ..).mp htaken' rfl
      · refine respects_other hjk ?_
        rw [heldAfter, if_pos hpt]
        exact ⟨fun hj => hj.1, fun hj => ⟨hj, hjk⟩⟩

theorem step (h : SpinInv x) (hmove : SpinMove a (x.thread a) x.shared l s) : SpinInv (x.move a l s) := by
  cases hmove with
  | spinlock k hown =>
    refine h.of_step (fun _ => .keep Iff.rfl Iff.rfl) ?_
    intro j pt hcall
    obtain ⟨-, rfl⟩ := Prod.mk.inj (Option.some.inj hcall)
    exact .inl (.inl rfl)
  | spinunlock k hown hheld =>
    refine h.of_step (fun _ => .keep Iff.rfl Iff.rfl) ?_
    intro j pt hcall
    obtain ⟨rfl, rfl⟩ := Prod.mk.inj (Option.some.inj hcall)
    exact .inr ⟨.inl rfl, hheld⟩
  | write k d hown hheld => exact h.of_step (fun _ => .keep Iff.rfl Iff.rfl) (h.disciplined a)
  | access k pt hcall => exact h.access hcall

theorem run {y : Config A (SpinThread K) (SpinShared K D)} (h : SpinInv x) (hrun : Run SpinMove x y) : SpinInv y :=
  hrun.invariant (fun _ _ _ _ hz hmove => hz.step hmove) h

/-- While `a` holds a lock the steps of the others leave its data alone. -/
theorem data_of_others (h : SpinInv x) {y : Config A (SpinThread K) (SpinShared K D)} {k : K}
    (ha : k ∈ (x.thread a).held) (hrun : Run (Moves.except SpinMove a) x y) : y.shared.data k = x.shared.data k := by
  have hboth := hrun.invariant
    (I := fun z => SpinInv z ∧ k ∈ (z.thread a).held ∧ z.shared.data k = x.shared.data k) ?_ ⟨h, ha, rfl⟩
  · exact hboth.2.2
  · rintro z b l s ⟨hz, hza, hdata⟩ ⟨hba, hmove⟩
    refine ⟨hz.step hmove, by rwa [z.move_other l s (Ne.symm hba)], ?_⟩
    rw [z.move_shared, ← hdata]
    cases hmove with
    | spinlock j hown => rfl
    | spinunlock j hown hheld => rfl
    | write j d hown hheld =>
      have hne : k ≠ j := by
        rintro rfl
        exact hz.exclusive.not_inside hza hba hheld
      exact Function.update_of_ne hne ..
    | access j pt hcall => rfl

end SpinInv

/-- Nobody holds a lock, and all locks are free. -/
structure AllUnlocked (x : Config A (SpinThread K) (SpinShared K D)) : Prop where
  thread : ∀ a, x.thread a = ⟨none, ∅⟩
  lock : ∀ k, x.shared.lock k = spinUnlocked

omit [DecidableEq A] [DecidableEq K] in
theorem AllUnlocked.inv {x : Config A (SpinThread K) (SpinShared K D)} (h : AllUnlocked x) : SpinInv x where
  exclusive := by
    have hnone : ∀ k a, ¬holds (x.thread a) k := fun k a => by
      rw [h.thread a]
      exact Set.notMem_empty k
    exact ⟨fun k a _ ha _ => absurd ha (hnone k a),
      fun k => ⟨fun htaken => absurd (h.lock k) htaken, fun ⟨a, ha⟩ => absurd ha (hnone k a)⟩⟩
  disciplined := by
    intro a k pt hcall
    rw [h.thread a] at hcall
    cases hcall

/-- Spinlocks exclude: at most one caller holds a lock, the lock is free exactly while nobody does, no unlock ends in
the endless loop, and the data under a lock is its holder's alone. -/
theorem spinlock_excludes {x y : Config A (SpinThread K) (SpinShared K D)} (hstart : AllUnlocked x)
    (hrun : Run SpinMove x y) :
    (∀ k a b, k ∈ (y.thread a).held → k ∈ (y.thread b).held → a = b) ∧
    (∀ k, y.shared.lock k = spinUnlocked ↔ ∀ a, k ∉ (y.thread a).held) ∧
    (∀ k a, (y.thread a).call ≠ some (k, .hang)) ∧
    ∀ k a z, k ∈ (y.thread a).held → Run (Moves.except SpinMove a) y z → z.shared.data k = y.shared.data k := by
  have hinv := hstart.inv.run hrun
  refine ⟨hinv.exclusive.unique, fun k => ?_, fun k a hcall => ?_,
    fun k a z ha hothers => hinv.data_of_others ha hothers⟩
  · rw [← not_iff_not, not_forall]
    simp only [not_not]
    exact hinv.exclusive.taken_iff k
  · rcases hinv.disciplined a k .hang hcall with h | h
    · rcases h with h | h | h <;> cases h
    · rcases h.1 with h | h <;> cases h

/-- Two callers and two locks, all free. -/
def unlockedPair : Config Bool (SpinThread Bool) (SpinShared Bool ℕ) :=
  ⟨fun _ => ⟨none, ∅⟩, ⟨fun _ => spinUnlocked, fun _ => 0⟩⟩

/-- A caller has taken the first lock. -/
def lockedPair : Config Bool (SpinThread Bool) (SpinShared Bool ℕ) :=
  (unlockedPair.move true ⟨some (false, .trylock), ∅⟩ unlockedPair.shared).move true
    ⟨none, heldAfter false none .trylock ∅⟩ (unlockedPair.shared.setLock false spinLocked)

theorem unlockedPair_run : Run SpinMove unlockedPair lockedPair := by
  have hcall : Step SpinMove unlockedPair
      (unlockedPair.move true ⟨some (false, .trylock), ∅⟩ unlockedPair.shared) :=
    .of true _ _ (.spinlock false rfl)
  exact (Relation.ReflTransGen.single hcall).tail (.of true _ _ (.access false .trylock rfl))

theorem spinlock_excludes_pair :
    (∀ k a b, k ∈ (lockedPair.thread a).held → k ∈ (lockedPair.thread b).held → a = b) ∧
    (∀ k, lockedPair.shared.lock k = spinUnlocked ↔ ∀ a, k ∉ (lockedPair.thread a).held) ∧
    (∀ k a, (lockedPair.thread a).call ≠ some (k, .hang)) ∧
    ∀ k a z, k ∈ (lockedPair.thread a).held → Run (Moves.except SpinMove a) lockedPair z →
      z.shared.data k = lockedPair.shared.data k :=
  spinlock_excludes ⟨fun _ => rfl, fun _ => rfl⟩ unlockedPair_run

end Borgos.Kcore
