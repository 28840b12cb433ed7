import Mathlib.Tactic

/-! # Counted loops

`upTo n body` runs `body` for 0, 1, up to `n - 1`. A pass that has no result leaves the whole loop without one. The rule
is the one of an invariant that depends on the counter.
-/
namespace Borgos.Foundations
set_option autoImplicit false

variable {σ : Type}

def upTo : ℕ → (ℕ → σ → Option σ) → σ → Option σ
  | 0, _, s => some s
  | n + 1, body, s => (upTo n body s).bind (body n)

@[simp] theorem upTo_zero (body : ℕ → σ → Option σ) (s : σ) : upTo 0 body s = some s := rfl

theorem upTo_succ (n : ℕ) (body : ℕ → σ → Option σ) (s : σ) : upTo (n + 1) body s = (upTo n body s).bind (body n) := rfl

/-- Each pass takes the invariant to the next value of the counter. -/
theorem upTo_invariant (n : ℕ) (body : ℕ → σ → Option σ) (s : σ) (I : ℕ → σ → Prop) (h : I 0 s)
    (step : ∀ i < n, ∀ s, I i s → ∃ s', body i s = some s' ∧ I (i + 1) s') :
    ∃ s', upTo n body s = some s' ∧ I n s' := by
  induction n with
  | zero => exact ⟨s, rfl, h⟩
  | succ n ih =>
    obtain ⟨t, ht, hI⟩ := ih fun i hi => step i (Nat.lt_succ_of_lt hi)
    obtain ⟨s', hs', hI'⟩ := step n (Nat.lt_succ_self n) t hI
    exact ⟨s', by rw [upTo_succ, ht, Option.bind_some, hs'], hI'⟩

/-- A first pass without a result. -/
theorem upTo_none {body : ℕ → σ → Option σ} {s : σ} (h : body 0 s = none) (n : ℕ) : upTo (n + 1) body s = none := by
  induction n with
  | zero => exact h
  | succ n ih => rw [upTo_succ, ih, Option.bind_none]

end Borgos.Foundations
