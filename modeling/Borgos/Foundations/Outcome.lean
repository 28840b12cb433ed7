import Mathlib.Tactic

/-! # Programs with one state, panics and dead ends

A `Prog σ α` is a deterministic command over the state `σ`. It returns a value, or it panics with a
message in the state the panic left behind, or it is stuck: control never comes back (a loop without
an end, a step with no defined meaning). Nothing after a panic or a dead end is executed.

The two rules proofs use are `bind_run` (run the first command, then the second) and `bind_ok`
(a composition that returned has an intermediate state).
-/
namespace Borgos.Foundations
set_option autoImplicit false

/-- The result of running a command from one state. -/
inductive Outcome (σ α : Type) where
  | ok (a : α) (s : σ)
  | panic (msg : String) (s : σ)
  | stuck

/-- A command over the state `σ` with result `α`. -/
def Prog (σ α : Type) := σ → Outcome σ α

namespace Outcome
variable {σ α β : Type}

/-- Continue with `f` after a command that returned. -/
def andThen (x : Outcome σ α) (f : α → Prog σ β) : Outcome σ β :=
  match x with
  | ok a s => f a s
  | panic m s => panic m s
  | stuck => stuck

@[simp] theorem andThen_ok (a : α) (s : σ) (f : α → Prog σ β) : (ok a s).andThen f = f a s := rfl

@[simp] theorem andThen_panic (m : String) (s : σ) (f : α → Prog σ β) :
    (panic m s : Outcome σ α).andThen f = panic m s := rfl

@[simp] theorem andThen_stuck (f : α → Prog σ β) : (stuck : Outcome σ α).andThen f = stuck := rfl

theorem andThen_eq_ok {x : Outcome σ α} {f : α → Prog σ β} {b : β} {t : σ} :
    x.andThen f = ok b t ↔ ∃ a s, x = ok a s ∧ f a s = ok b t := by
  cases x with
  | ok a s =>
    constructor
    · intro h
      exact ⟨a, s, rfl, h⟩
    · rintro ⟨a', s', he, h⟩
      cases he
      exact h
  | panic m s => simp
  | stuck => simp

/-- The value of a command that returned. -/
def value : Outcome σ α → Option α
  | ok a _ => some a
  | panic _ _ => none
  | stuck => none

theorem exists_of_value {x : Outcome σ α} {a : α} (h : x.value = some a) : ∃ s, x = ok a s := by
  cases x with
  | ok b s =>
    rw [Option.some.inj h]
    exact ⟨s, rfl⟩
  | panic m s => cases h
  | stuck => cases h

end Outcome

namespace Prog
variable {σ τ α β : Type}

instance : Monad (Prog σ) where
  pure a := fun s => .ok a s
  bind x f := fun s => (x s).andThen f

/-- The current state. -/
def get : Prog σ σ := fun s => .ok s s

/-- Replace the state by its image under `f`. -/
def modify (f : σ → σ) : Prog σ Unit := fun s => .ok () (f s)

/-- `PANIC(msg)`: report and never return. -/
def panic (msg : String) : Prog σ α := fun s => .panic msg s

/-- No result: an endless loop or an undefined step. -/
def stuck : Prog σ α := fun _ => .stuck

/-- Run a command on one component of a larger state. -/
def zoom (view : τ → σ) (put : σ → τ → τ) (x : Prog σ α) : Prog τ α := fun t =>
  match x (view t) with
  | .ok a s => .ok a (put s t)
  | .panic m s => .panic m (put s t)
  | .stuck => .stuck

@[simp] theorem pure_run (a : α) (s : σ) : (pure a : Prog σ α) s = .ok a s := rfl

@[simp] theorem bind_run (x : Prog σ α) (f : α → Prog σ β) (s : σ) :
    (x >>= f) s = (x s).andThen f := rfl

@[simp] theorem get_run (s : σ) : (get : Prog σ σ) s = .ok s s := rfl

@[simp] theorem modify_run (f : σ → σ) (s : σ) : (modify f : Prog σ Unit) s = .ok () (f s) := rfl

@[simp] theorem panic_run (m : String) (s : σ) : (panic m : Prog σ α) s = .panic m s := rfl

@[simp] theorem stuck_run (s : σ) : (stuck : Prog σ α) s = .stuck := rfl

theorem panic_ne_ok {m : String} {s t : σ} {a : α} (h : (panic m : Prog σ α) s = .ok a t) : False := by
  cases h

theorem bind_ok {x : Prog σ α} {f : α → Prog σ β} {s t : σ} {b : β} :
    (x >>= f) s = .ok b t ↔ ∃ a s', x s = .ok a s' ∧ f a s' = .ok b t :=
  Outcome.andThen_eq_ok

theorem zoom_ok {view : τ → σ} {put : σ → τ → τ} {x : Prog σ α} {t t' : τ} {a : α} :
    zoom view put x t = .ok a t' ↔ ∃ s, x (view t) = .ok a s ∧ t' = put s t := by
  unfold zoom
  cases h : x (view t) with
  | ok b s =>
    simp only [Outcome.ok.injEq]
    constructor
    · rintro ⟨rfl, rfl⟩
      exact ⟨s, ⟨rfl, rfl⟩, rfl⟩
    · rintro ⟨s', ⟨rfl, rfl⟩, rfl⟩
      exact ⟨rfl, rfl⟩
  | panic m s => simp
  | stuck => simp

end Prog
end Borgos.Foundations
