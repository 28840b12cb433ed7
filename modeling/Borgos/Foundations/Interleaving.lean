import Mathlib.Logic.Function.Basic
import Mathlib.Logic.Relation
import Mathlib.Tactic

/-! # Threads that share a state

Any number of threads, each with a state of its own, and one state they share. A step is one atomic access of one
thread, and a run is any interleaving of steps. `Exclusive` is what a lock is for: at most one thread is inside, and
the lock is taken exactly while one is. It only has to be checked step by step and lock by lock (`Respects`).
-/
namespace Borgos.Foundations.Interleaving
set_option autoImplicit false

structure Config (A L σ : Type) where
  thread : A → L
  shared : σ

/-- What each thread can do: its own state and the shared one before and after a step. -/
abbrev Moves (A L σ : Type) := A → L → σ → L → σ → Prop

variable {A L σ K : Type} [DecidableEq A]

/-- The configuration after a step of `a`. -/
def Config.move (x : Config A L σ) (a : A) (l : L) (s : σ) : Config A L σ := ⟨Function.update x.thread a l, s⟩

@[simp] theorem Config.move_self (x : Config A L σ) (a : A) (l : L) (s : σ) : (x.move a l s).thread a = l :=
  Function.update_self ..

@[simp] theorem Config.move_shared (x : Config A L σ) (a : A) (l : L) (s : σ) : (x.move a l s).shared = s := rfl

theorem Config.move_other (x : Config A L σ) {a b : A} (l : L) (s : σ) (h : b ≠ a) :
    (x.move a l s).thread b = x.thread b :=
  Function.update_of_ne h ..

inductive Step (moves : Moves A L σ) (x : Config A L σ) : Config A L σ → Prop
  | of (a : A) (l : L) (s : σ) (h : moves a (x.thread a) x.shared l s) : Step moves x (x.move a l s)

def Run (moves : Moves A L σ) : Config A L σ → Config A L σ → Prop := Relation.ReflTransGen (Step moves)

/-- The steps of all threads but `a`. -/
def Moves.except (moves : Moves A L σ) (a : A) : Moves A L σ := fun b l s l' s' => b ≠ a ∧ moves b l s l' s'

section Runs
variable {moves : Moves A L σ} {x y : Config A L σ}

/-- What every step preserves holds at the end of a run. -/
theorem Run.invariant (h : Run moves x y) {I : Config A L σ → Prop}
    (hI : ∀ x a l s, I x → moves a (x.thread a) x.shared l s → I (x.move a l s)) (hx : I x) : I y := by
  induction h with
  | refl => exact hx
  | tail _ hstep ih =>
    obtain ⟨a, l, s, hmove⟩ := hstep
    exact hI _ a l s ih hmove

/-- The configuration after the threads in `schedule` have taken one step each, where `exec` is what a thread does
next. -/
def Config.follow (exec : A → L → σ → L × σ) (schedule : List A) (x : Config A L σ) : Config A L σ :=
  schedule.foldl (fun x a => x.move a (exec a (x.thread a) x.shared).1 (exec a (x.thread a) x.shared).2) x

/-- A schedule can be followed as long as every state reached lets each thread take its step. -/
theorem Run.of_follow_invariant {exec : A → L → σ → L × σ} {I : Config A L σ → Prop}
    (hI : ∀ x a l s, I x → moves a (x.thread a) x.shared l s → I (x.move a l s))
    (h : ∀ x a, I x → moves a (x.thread a) x.shared (exec a (x.thread a) x.shared).1 (exec a (x.thread a) x.shared).2)
    (schedule : List A) (hx : I x) : Run moves x (x.follow exec schedule) := by
  induction schedule generalizing x with
  | nil => exact .refl
  | cons a schedule ih => exact .head (.of a _ _ (h x a hx)) (ih (hI x a _ _ hx (h x a hx)))

theorem Run.of_follow {exec : A → L → σ → L × σ} (h : ∀ a l s, moves a l s (exec a l s).1 (exec a l s).2)
    (schedule : List A) (x : Config A L σ) : Run moves x (x.follow exec schedule) :=
  .of_follow_invariant (I := fun _ => True) (fun _ _ _ _ _ _ => trivial) (fun _ _ _ => h ..) schedule trivial

end Runs

/-! ## Locks -/

/-- At most one thread is inside each lock, and the lock is taken exactly while one is. -/
structure Exclusive (inside : L → K → Prop) (taken : σ → K → Prop) (x : Config A L σ) : Prop where
  unique : ∀ k a b, inside (x.thread a) k → inside (x.thread b) k → a = b
  taken_iff : ∀ k, taken x.shared k ↔ ∃ a, inside (x.thread a) k

/-- How a step may deal with lock `k`. -/
inductive Respects (inside : L → K → Prop) (taken : σ → K → Prop) (k : K) (l : L) (s : σ) (l' : L) (s' : σ) : Prop
  | acquire (hfree : ¬taken s k) (htaken : taken s' k) (hin : inside l' k)
  | release (hin : inside l k) (hout : ¬inside l' k) (hfree : ¬taken s' k)
  | keep (hin : inside l' k ↔ inside l k) (htaken : taken s' k ↔ taken s k)

namespace Exclusive
variable {inside : L → K → Prop} {taken : σ → K → Prop} {x : Config A L σ} {a b : A} {k : K} {l : L} {s : σ}

omit [DecidableEq A] in
theorem not_inside (h : Exclusive inside taken x) (ha : inside (x.thread a) k) (hab : b ≠ a) : ¬inside (x.thread b) k :=
  fun hb => hab (h.unique k b a hb ha)

omit [DecidableEq A] in
theorem free_of_not_taken (h : Exclusive inside taken x) (hk : ¬taken x.shared k) (a : A) : ¬inside (x.thread a) k :=
  fun ha => hk ((h.taken_iff k).mpr ⟨a, ha⟩)

theorem only_inside (hother : ∀ b, b ≠ a → ¬inside (x.thread b) k) (hb : inside ((x.move a l s).thread b) k) :
    b = a := by
  by_contra hne
  rw [x.move_other l s hne] at hb
  exact hother b hne hb

theorem step (h : Exclusive inside taken x) (hk : ∀ k, Respects inside taken k (x.thread a) x.shared l s) :
    Exclusive inside taken (x.move a l s) where
  unique := by
    intro k b c hb hc
    cases hk k with
    | acquire hfree _ _ =>
      have hother : ∀ b, b ≠ a → ¬inside (x.thread b) k := fun b _ => h.free_of_not_taken hfree b
      rw [only_inside hother hb, only_inside hother hc]
    | release hin hout _ =>
      have hnone : ∀ b, ¬inside ((x.move a l s).thread b) k := by
        intro b hb
        by_cases hba : b = a
        · subst hba
          rw [x.move_self] at hb
          exact hout hb
        · rw [x.move_other l s hba] at hb
          exact h.not_inside hin hba hb
      exact absurd hb (hnone b)
    | keep hin _ =>
      have hsame : ∀ b, inside ((x.move a l s).thread b) k → inside (x.thread b) k := by
        intro b hb
        by_cases hba : b = a
        · subst hba
          rw [x.move_self] at hb
          exact hin.mp hb
        · rwa [x.move_other l s hba] at hb
      exact h.unique k b c (hsame b hb) (hsame c hc)
  taken_iff := by
    intro k
    cases hk k with
    | acquire _ htaken hin => exact ⟨fun _ => ⟨a, by rwa [x.move_self]⟩, fun _ => htaken⟩
    | release hin hout hfree =>
      constructor
      · exact fun htaken => absurd htaken hfree
      · rintro ⟨b, hb⟩
        by_cases hba : b = a
        · subst hba
          rw [x.move_self] at hb
          exact absurd hb hout
        · rw [x.move_other l s hba] at hb
          exact absurd hb (h.not_inside hin hba)
    | keep hin htaken =>
      rw [x.move_shared, htaken, h.taken_iff k]
      constructor
      · rintro ⟨b, hb⟩
        by_cases hba : b = a
        · subst hba
          exact ⟨b, by rw [x.move_self]; exact hin.mpr hb⟩
        · exact ⟨b, by rwa [x.move_other l s hba]⟩
      · rintro ⟨b, hb⟩
        by_cases hba : b = a
        · subst hba
          rw [x.move_self] at hb
          exact ⟨b, hin.mp hb⟩
        · rw [x.move_other l s hba] at hb
          exact ⟨b, hb⟩

end Exclusive
end Borgos.Foundations.Interleaving
