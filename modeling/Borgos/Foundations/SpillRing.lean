import Mathlib.Tactic

/-! # A ring whose records may spill over its end

Records follow one another around a ring of `U` cells. A record that starts before the end of the ring is stored in
one piece and runs past the end; the next one starts where it would have ended in the ring. Positions are counted
without wrapping, and the offset of a record is its position modulo `U`.
-/
namespace Borgos.Foundations.SpillRing
set_option autoImplicit false

variable {α : Type} {span : α → ℕ} {U A W P Q lp lq : ℕ}

/-- Two records less than a lap apart share no cell, also where one of them spills. -/
theorem disjoint_of_lap (hnext : P + lp ≤ Q) (hlap : Q + lq ≤ P + U) (hlq : 0 < lq) :
    P % U + lp ≤ Q % U ∨ Q % U + lq ≤ P % U := by
  obtain ⟨d, rfl⟩ := Nat.exists_eq_add_of_le (Nat.le_of_add_right_le hnext)
  have hU : 0 < U := by omega
  have hP := Nat.mod_lt P hU
  have hmod : (P + d) % U = (P % U + d) % U := by rw [Nat.mod_add_mod]
  rcases Nat.lt_or_ge (P % U + d) U with hlt | hge
  · rw [hmod, Nat.mod_eq_of_lt hlt]
    omega
  · have hwrap : P % U + d - U < U := by omega
    have hQ : (P + d) % U = P % U + d - U := by rw [hmod, Nat.mod_eq_sub_mod hge, Nat.mod_eq_of_lt hwrap]
    rw [hQ]
    omega

/-- The records lie one after the other from position `A` to position `W`, each with its offset. -/
def Laid (span : α → ℕ) (U : ℕ) : ℕ → List (ℕ × α) → ℕ → Prop
  | A, [], W => A = W
  | A, (o, x) :: rest, W => o = A % U ∧ Laid span U (A + span x) rest W

namespace Laid
variable {rs : List (ℕ × α)} {o : ℕ} {x : α}

theorem le (h : Laid span U A rs W) : A ≤ W := by
  induction rs generalizing A with
  | nil => exact Nat.le_of_eq h
  | cons r rest ih => exact Nat.le_trans (Nat.le_add_right _ _) (ih h.2)

/-- A record is appended at the end. -/
theorem push (h : Laid span U A rs W) (x : α) : Laid span U A (rs ++ [(W % U, x)]) (W + span x) := by
  induction rs generalizing A with
  | nil =>
    rw [show A = W from h]
    exact ⟨rfl, rfl⟩
  | cons r rest ih => exact ⟨h.1, ih h.2⟩

/-- Where a record lies. -/
theorem position (h : Laid span U A rs W) (hmem : (o, x) ∈ rs) : ∃ P, A ≤ P ∧ P + span x ≤ W ∧ o = P % U := by
  induction rs generalizing A with
  | nil => exact absurd hmem List.not_mem_nil
  | cons r rest ih =>
    rcases List.mem_cons.mp hmem with rfl | hrest
    · exact ⟨A, le_rfl, h.2.le, h.1⟩
    · obtain ⟨P, hA, hW, ho⟩ := ih h.2 hrest
      exact ⟨P, Nat.le_trans (Nat.le_add_right _ _) hA, hW, ho⟩

theorem sum_spans (h : Laid span U A rs W) : A + (rs.map fun r => span r.2).sum = W := by
  induction rs generalizing A with
  | nil => exact h
  | cons r rest ih =>
    rw [List.map_cons, List.sum_cons, ← Nat.add_assoc]
    exact ih h.2

/-- A record that fits behind the others shares no cell with them. -/
theorem disjoint_next (h : Laid span U A rs W) (hmem : (o, x) ∈ rs) {y : α} (hy : 0 < span y)
    (hroom : W + span y ≤ A + U) : o + span x ≤ W % U ∨ W % U + span y ≤ o := by
  obtain ⟨P, hA, hW, rfl⟩ := h.position hmem
  exact disjoint_of_lap hW (by omega) hy

end Laid
end Borgos.Foundations.SpillRing
