import Borgos.Foundations.FlatMemory

/-! # Reversing in place

The first and the last cell of a range are swapped, and then the next ones inwards, until the positions meet.
-/
namespace Borgos.Foundations.FlatMemory
set_option autoImplicit false

variable {β : Type}

/-- Two cells are swapped. -/
def swapCells (m : ℕ → β) (i j : ℕ) : ℕ → β := Function.update (Function.update m i (m j)) j (m i)

def reverseInPlace (m : ℕ → β) (lo hi : ℕ) : ℕ → β :=
  if lo < hi then reverseInPlace (swapCells m lo hi) (lo + 1) (hi - 1) else m
termination_by hi - lo

section Reversal
variable {m : ℕ → β} {lo hi i : ℕ}

theorem swapCells_left (h : lo ≠ hi) : swapCells m lo hi lo = m hi := by
  simp [swapCells, h]

theorem swapCells_right : swapCells m lo hi hi = m lo := by
  simp [swapCells]

theorem swapCells_of_ne (hlo : i ≠ lo) (hhi : i ≠ hi) : swapCells m lo hi i = m i := by
  simp [swapCells, hlo, hhi]

/-- Inside of the range each cell holds what its mirror image held, and outside nothing changes. -/
theorem reverseInPlace_apply (m : ℕ → β) (lo hi i : ℕ) :
    reverseInPlace m lo hi i = if lo ≤ i ∧ i ≤ hi then m (lo + hi - i) else m i := by
  fun_induction reverseInPlace m lo hi with
  | case1 m lo hi h ih =>
    rw [ih]
    by_cases hlo : i = lo
    · subst hlo
      rw [if_neg (by omega), if_pos (by omega), swapCells_left (Nat.ne_of_lt h), Nat.add_sub_cancel_left]
    · by_cases hhi : i = hi
      · subst hhi
        rw [if_neg (by omega), if_pos (by omega), swapCells_right, Nat.add_sub_cancel]
      · by_cases hin : lo ≤ i ∧ i ≤ hi
        · have hmirror : lo + 1 + (hi - 1) - i = lo + hi - i := by omega
          rw [if_pos (by omega), if_pos hin, hmirror, swapCells_of_ne (by omega) (by omega)]
        · rw [if_neg (by omega), if_neg hin, swapCells_of_ne hlo hhi]
  | case2 m lo hi h =>
    split_ifs with hin
    · have hmirror : lo + hi - i = i := by omega
      rw [hmirror]
    · rfl

/-- A range of cells is reversed. -/
theorem load_reverseInPlace (m : ℕ → β) (lo n : ℕ) :
    load (reverseInPlace m lo (lo + n - 1)) lo n = (load m lo n).reverse := by
  refine List.ext_getElem (by simp) fun i h₁ h₂ => ?_
  have hi : i < n := by simpa using h₁
  rw [getElem_load, reverseInPlace_apply, if_pos (by omega), List.getElem_reverse, getElem_load, length_load]
  congr 1
  omega

theorem reverseInPlace_outside (h : i < lo ∨ hi < i) : reverseInPlace m lo hi i = m i := by
  rw [reverseInPlace_apply, if_neg (by omega)]

end Reversal
end Borgos.Foundations.FlatMemory
