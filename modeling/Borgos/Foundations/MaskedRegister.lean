import Mathlib.Tactic

/-! # Registers of which only some bits can be written

`masked mask old v` is what a register holds after a write of `v`: the bits of the mask are those of `v`, the others
stay. `highBits w k` is the mask of the bits `k` and up.
-/
namespace Borgos.Foundations
set_option autoImplicit false

variable {w : ℕ}

def masked (mask old v : BitVec w) : BitVec w := (old &&& ~~~mask) ||| (v &&& mask)

def highBits (w k : ℕ) : BitVec w := BitVec.allOnes w <<< k

theorem getLsbD_masked (mask old v : BitVec w) (i : ℕ) :
    (masked mask old v).getLsbD i = if mask.getLsbD i then v.getLsbD i else old.getLsbD i := by
  by_cases hi : i < w
  · simp only [masked, BitVec.getLsbD_or, BitVec.getLsbD_and, BitVec.getLsbD_not, hi, decide_true, Bool.true_and]
    cases mask.getLsbD i <;> simp
  · simp [masked, BitVec.getLsbD_of_ge _ i (Nat.le_of_not_lt hi)]

/-- A value written back is there again, whatever was written in between. -/
theorem masked_restore (mask old v : BitVec w) : masked mask (masked mask old v) old = old := by
  apply BitVec.eq_of_getLsbD_eq
  intro i _
  simp only [getLsbD_masked]
  split_ifs
  · rfl
  · rfl

theorem getLsbD_highBits (w k i : ℕ) : (highBits w k).getLsbD i = (decide (i < w) && decide (k ≤ i)) := by
  simp only [highBits, BitVec.getLsbD_shiftLeft, BitVec.getLsbD_allOnes]
  by_cases hk : k ≤ i
  · have hsub : i < w → i - k < w := by omega
    by_cases hi : i < w
    · simp [hi, hk, hsub hi]
    · simp [hi]
  · simp [hk, Nat.lt_of_not_le hk]

/-- The size of an area is read off the mask of its address bits. -/
theorem not_highBits_add_one (w k : ℕ) : ~~~(highBits w k) + 1 = BitVec.twoPow w k := by
  show ~~~(highBits w k) + 1#w = _
  rw [← BitVec.neg_eq_not_add, highBits, BitVec.shiftLeft_eq_mul_twoPow, ← BitVec.neg_one_eq_allOnes,
    BitVec.neg_mul, BitVec.neg_neg, BitVec.one_mul]

/-- The bits below `k` of a multiple of `2 ^ k` are 0. -/
theorem getLsbD_of_dvd {x : BitVec w} {k i : ℕ} (h : 2 ^ k ∣ x.toNat) (hi : i < k) : x.getLsbD i = false := by
  obtain ⟨c, hc⟩ := h
  rw [BitVec.getLsbD, hc, Nat.testBit_two_pow_mul]
  simp [hi]

end Borgos.Foundations
