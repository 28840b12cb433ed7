import Mathlib.Tactic

/-! # Walks along a function

A walk goes from `x` to `f x`, to `f (f x)` and so on, until it comes to a value with the property `P`. In a finite type
it either gets there or comes back to a value it has been at.
-/
namespace Borgos.Foundations
set_option autoImplicit false

variable {α : Type} {f : α → α} {P : α → Prop} {x y : α}

/-- The walk with a bound on its steps. -/
def walkUntil (f : α → α) (P : α → Prop) [DecidablePred P] : ℕ → α → Option α
  | 0, _ => none
  | fuel + 1, x => if P x then some x else walkUntil f P fuel (f x)

/-- `y` is the first value with the property. -/
def FirstAt (f : α → α) (P : α → Prop) (x y : α) : Prop := ∃ n, f^[n] x = y ∧ P y ∧ ∀ m, m < n → ¬ P (f^[m] x)

/-- The walk is at a value for the second time, and has met no value with the property. -/
def ComesBack (f : α → α) (P : α → Prop) (x : α) : Prop :=
  ∃ i j, i < j ∧ f^[i] x = f^[j] x ∧ ∀ m, m < j → ¬ P (f^[m] x)

theorem exists_firstAt_iff : (∃ y, FirstAt f P x y) ↔ ∃ n, P (f^[n] x) := by
  classical
  constructor
  · rintro ⟨y, n, rfl, hP, -⟩
    exact ⟨n, hP⟩
  · intro h
    exact ⟨_, Nat.find h, rfl, Nat.find_spec h, fun m hm => Nat.find_min h hm⟩

theorem FirstAt.unique {z : α} (hy : FirstAt f P x y) (hz : FirstAt f P x z) : y = z := by
  obtain ⟨n, rfl, hn, hbefore⟩ := hy
  obtain ⟨m, rfl, hm, hbefore'⟩ := hz
  rcases Nat.lt_trichotomy n m with hlt | rfl | hgt
  · exact absurd hn (hbefore' n hlt)
  · rfl
  · exact absurd hm (hbefore m hgt)

section Walk
variable [DecidablePred P]

theorem walkUntil_add {n : ℕ} (fuel : ℕ) (h : ∀ m, m < n → ¬ P (f^[m] x)) :
    walkUntil f P (fuel + n) x = walkUntil f P fuel (f^[n] x) := by
  induction n generalizing x with
  | zero => rfl
  | succ n ih =>
    have hfirst : ¬ P x := h 0 (Nat.succ_pos n)
    rw [← Nat.add_assoc, walkUntil, if_neg hfirst, Function.iterate_succ_apply]
    apply ih
    intro m hm
    rw [← Function.iterate_succ_apply]
    exact h (m + 1) (by omega)

theorem firstAt_of_walkUntil {fuel : ℕ} (h : walkUntil f P fuel x = some y) : FirstAt f P x y := by
  induction fuel generalizing x with
  | zero => cases h
  | succ fuel ih =>
    rw [walkUntil] at h
    split_ifs at h with hP
    · obtain rfl := Option.some.inj h
      exact ⟨0, rfl, hP, fun m hm => absurd hm (Nat.not_lt_zero m)⟩
    · obtain ⟨n, hy, hPy, hbefore⟩ := ih h
      refine ⟨n + 1, hy, hPy, ?_⟩
      intro m hm
      cases m with
      | zero => exact hP
      | succ m => exact hbefore m (by omega)

theorem exists_walkUntil_iff : (∃ fuel, walkUntil f P fuel x = some y) ↔ FirstAt f P x y := by
  constructor
  · rintro ⟨fuel, h⟩
    exact firstAt_of_walkUntil h
  · rintro ⟨n, rfl, hP, hbefore⟩
    refine ⟨1 + n, ?_⟩
    rw [walkUntil_add 1 hbefore, walkUntil, if_pos hP]

end Walk

/-! ## Coming back -/

theorem iterate_add_of_eq {i j : ℕ} (h : f^[i] x = f^[j] x) (t : ℕ) : f^[t + i] x = f^[t + j] x := by
  rw [Function.iterate_add_apply, Function.iterate_add_apply, h]

/-- A walk that has come back goes round. -/
theorem ComesBack.never (h : ComesBack f P x) (n : ℕ) : ¬ P (f^[n] x) := by
  obtain ⟨i, j, hij, heq, hbefore⟩ := h
  induction n using Nat.strong_induction_on with
  | _ n ih =>
    by_cases hn : n < j
    · exact hbefore n hn
    · have hback := iterate_add_of_eq heq (n - j)
      rw [Nat.sub_add_cancel (Nat.le_of_not_lt hn)] at hback
      rw [← hback]
      exact ih _ (by omega)

theorem comesBack_of_never [Finite α] (h : ∀ n, ¬ P (f^[n] x)) : ComesBack f P x := by
  obtain ⟨i, j, hne, heq⟩ := Finite.exists_ne_map_eq_of_infinite fun n => f^[n] x
  rcases Nat.lt_or_gt_of_ne hne with hlt | hgt
  · exact ⟨i, j, hlt, heq, fun m _ => h m⟩
  · exact ⟨j, i, hgt, heq.symm, fun m _ => h m⟩

/-- In a finite type a walk that does not come back gets there. -/
theorem exists_firstAt_iff_not_comesBack [Finite α] : (∃ y, FirstAt f P x y) ↔ ¬ ComesBack f P x := by
  rw [exists_firstAt_iff]
  constructor
  · rintro ⟨n, hn⟩ h
    exact h.never n hn
  · intro h
    by_contra hnever
    exact h (comesBack_of_never fun n hn => hnever ⟨n, hn⟩)

end Borgos.Foundations
