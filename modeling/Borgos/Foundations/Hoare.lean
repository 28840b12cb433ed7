import Borgos.Foundations.Outcome

/-! # Safety of programs

`x.Safe s Q`: run from `s`, the command panics or returns with `Q`, and it is never stuck. Where a command models an
access out of bounds as stuck, this is memory safety. The rules follow the structure of the program.
-/
namespace Borgos.Foundations
set_option autoImplicit false

variable {σ α β : Type}

def Prog.Safe (x : Prog σ α) (s : σ) (Q : α → σ → Prop) : Prop :=
  match x s with
  | .ok a t => Q a t
  | .panic _ _ => True
  | .stuck => False

namespace Prog.Safe
variable {x : Prog σ α} {f : α → Prog σ β} {s : σ} {Q : α → σ → Prop} {P : β → σ → Prop}

theorem iff_panic_or : x.Safe s Q ↔ (∃ m t, x s = .panic m t) ∨ ∃ a t, x s = .ok a t ∧ Q a t := by
  unfold Prog.Safe
  cases x s with
  | ok a t => simp
  | panic m t => simp
  | stuck => simp

theorem of_ok {a : α} {t : σ} (h : x s = .ok a t) (hQ : Q a t) : x.Safe s Q := by
  unfold Prog.Safe
  rw [h]
  exact hQ

theorem bind (h : x.Safe s Q) (hf : ∀ a t, Q a t → (f a).Safe t P) : (x >>= f).Safe s P := by
  unfold Prog.Safe at h ⊢
  rw [Prog.bind_run]
  cases hx : x s with
  | ok a t =>
    rw [hx] at h
    exact hf a t h
  | panic m t => trivial
  | stuck =>
    rw [hx] at h
    exact h

theorem pure {a : α} (h : Q a s) : (Pure.pure a : Prog σ α).Safe s Q := h

theorem panic (m : String) : (Prog.panic m : Prog σ α).Safe s Q := trivial

end Prog.Safe

/-! ## The state a run ends in -/

/-- The last state of a run, also of one that panicked. -/
def Outcome.final : Outcome σ α → Option σ
  | .ok _ s => some s
  | .panic _ s => some s
  | .stuck => none

@[simp] theorem Outcome.final_ok (a : α) (s : σ) : (Outcome.ok a s).final = some s := rfl

@[simp] theorem Outcome.final_panic (m : String) (s : σ) : (Outcome.panic m s : Outcome σ α).final = some s := rfl

end Borgos.Foundations
