import Borgos.Foundations.Outcome

/-! # Two commands in lockstep

`Lockstep R x y`: both commands return the same value, in states related by `R`, or both panic, or
neither comes back. A run of one command then tells what the other one does.
-/
namespace Borgos.Foundations
set_option autoImplicit false

variable {σ τ α β : Type}

inductive Lockstep (R : σ → τ → Prop) : Outcome σ α → Outcome τ α → Prop
  | ok (a : α) {s : σ} {t : τ} (h : R s t) : Lockstep R (.ok a s) (.ok a t)
  | panic (m : String) (s : σ) (t : τ) : Lockstep R (.panic m s) (.panic m t)
  | stuck : Lockstep R .stuck .stuck

namespace Lockstep
variable {R : σ → τ → Prop} {s : σ} {t : τ}

theorem bind {Q : σ → τ → Prop} {x : Prog σ α} {y : Prog τ α} {f : α → Prog σ β} {g : α → Prog τ β}
    (h : Lockstep Q (x s) (y t)) (hrest : ∀ a s' t', Q s' t' → Lockstep R (f a s') (g a t')) :
    Lockstep R ((x >>= f) s) ((y >>= g) t) := by
  rw [Prog.bind_run, Prog.bind_run]
  generalize x s = u at h
  generalize y t = v at h
  cases h with
  | ok a hR => exact hrest a _ _ hR
  | panic m s' t' => exact panic m s' t'
  | stuck => exact stuck

/-- Both take the same branch. -/
theorem ite {p q : Prop} [Decidable p] [Decidable q] (hpq : p ↔ q) {x x' : Prog σ α} {y y' : Prog τ α}
    (hpos : p → Lockstep R (x s) (y t)) (hneg : ¬p → Lockstep R (x' s) (y' t)) :
    Lockstep R ((if p then x else x') s) ((if q then y else y') t) := by
  by_cases hp : p
  · rw [if_pos hp, if_pos (hpq.mp hp)]
    exact hpos hp
  · rw [if_neg hp, if_neg fun hq => hp (hpq.mpr hq)]
    exact hneg hp

/-- The rest may use that the first command returned. -/
theorem bind_ok {Q : σ → τ → Prop} {x : Prog σ α} {y : Prog τ α} {f : α → Prog σ β} {g : α → Prog τ β}
    (h : Lockstep Q (x s) (y t)) (hrest : ∀ a s' t', x s = .ok a s' → Q s' t' → Lockstep R (f a s') (g a t')) :
    Lockstep R ((x >>= f) s) ((y >>= g) t) := by
  rw [Prog.bind_run, Prog.bind_run]
  generalize hu : x s = u at h hrest
  generalize y t = v at h
  cases h with
  | ok a hQ => exact hrest a _ _ rfl hQ
  | panic m s' t' => exact panic m s' t'
  | stuck => exact stuck

/-- Two commands on parts of the states. -/
theorem zoom {υ : Type} {S : υ → υ → Prop} {x y : Prog υ α} {view : σ → υ} {put : υ → σ → σ} {view' : τ → υ}
    {put' : υ → τ → τ} (h : Lockstep S (x (view s)) (y (view' t))) (hput : ∀ u v, S u v → R (put u s) (put' v t)) :
    Lockstep R (Prog.zoom view put x s) (Prog.zoom view' put' y t) := by
  unfold Prog.zoom
  generalize x (view s) = u at h
  generalize y (view' t) = v at h
  cases h with
  | ok a hS => exact ok a (hput _ _ hS)
  | panic m u v => exact panic m _ _
  | stuck => exact stuck

theorem refl (x : Outcome σ α) : Lockstep Eq x x := by
  cases x with
  | ok a s => exact ok a rfl
  | panic m s => exact panic m s s
  | stuck => exact stuck

/-- The second command returned, so the first one did. -/
theorem left_ok {x : Outcome σ α} {a : α} (h : Lockstep R x (.ok a t)) : ∃ s, x = .ok a s ∧ R s t := by
  cases h with
  | ok _ hR => exact ⟨_, rfl, hR⟩

end Lockstep
end Borgos.Foundations
