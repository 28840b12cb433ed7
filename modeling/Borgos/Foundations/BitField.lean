import Borgos.Foundations.MaskedRegister

/-! # Bit-fields

A bit-field is a range of the bits of a word. Where a list of assignments covers all bits, the word before does not
matter.
-/
namespace Borgos.Foundations
set_option autoImplicit false

structure BitField where
  pos : ℕ
  width : ℕ

namespace BitField
variable {w : ℕ}

def mask (w : ℕ) (f : BitField) : BitVec w := BitVec.ofNat w ((2 ^ f.width - 1) * 2 ^ f.pos)

/-- The word with another value in the field. -/
def set (f : BitField) (x : BitVec w) (v : ℕ) : BitVec w := masked (f.mask w) x (BitVec.ofNat w v <<< f.pos)

def get (f : BitField) (x : BitVec w) : ℕ := x.toNat / 2 ^ f.pos % 2 ^ f.width

/-- Assignments, one after the other. -/
def setAll (l : List (BitField × ℕ)) (x : BitVec w) : BitVec w := l.foldl (fun x a => a.1.set x a.2) x

theorem setAll_cons (a : BitField × ℕ) (l : List (BitField × ℕ)) (x : BitVec w) :
    setAll (a :: l) x = setAll l (a.1.set x a.2) := rfl

/-- Every bit is in some field. -/
def Cover (w : ℕ) (fs : List BitField) : Prop := ∀ i < w, ∃ f ∈ fs, (f.mask w).getLsbD i = true

instance (w : ℕ) (fs : List BitField) : Decidable (Cover w fs) := inferInstanceAs (Decidable (∀ i < w, ∃ f ∈ fs, _))

theorem getLsbD_setAll (l : List (BitField × ℕ)) {i : ℕ} : ∀ x y : BitVec w,
    (∃ f ∈ l.map Prod.fst, (f.mask w).getLsbD i = true) ∨ x.getLsbD i = y.getLsbD i →
    (setAll l x).getLsbD i = (setAll l y).getLsbD i := by
  induction l with
  | nil =>
    intro x y h
    exact h.resolve_left (by simp)
  | cons a l ih =>
    intro x y h
    apply ih
    by_cases hbit : (a.1.mask w).getLsbD i = true
    · refine .inr ?_
      simp only [set, getLsbD_masked, hbit, if_true]
    · refine h.imp ?_ ?_
      · rintro ⟨f, hf, hfbit⟩
        rcases List.mem_cons.mp hf with rfl | hmem
        · exact absurd hfbit hbit
        · exact ⟨f, hmem, hfbit⟩
      · intro hxy
        simp only [set, getLsbD_masked, if_neg hbit, hxy]

theorem setAll_of_cover {l : List (BitField × ℕ)} (h : Cover w (l.map Prod.fst)) (x y : BitVec w) :
    setAll l x = setAll l y := by
  apply BitVec.eq_of_getLsbD_eq
  intro i hi
  exact getLsbD_setAll l x y (.inl (h i hi))

theorem getLsbD_mask (f : BitField) (i : ℕ) :
    (f.mask w).getLsbD i = (decide (i < w) && decide (f.pos ≤ i ∧ i < f.pos + f.width)) := by
  unfold mask
  rw [BitVec.getLsbD_ofNat, Nat.testBit_mul_two_pow, Nat.testBit_two_pow_sub_one, ← Bool.decide_and]
  congr 1
  exact decide_eq_decide.mpr (by omega)

theorem testBit_get (f : BitField) (x : BitVec w) (i : ℕ) :
    (f.get x).testBit i = (decide (i < f.width) && x.getLsbD (f.pos + i)) := by
  unfold get
  rw [Nat.testBit_mod_two_pow, Nat.testBit_div_two_pow, Nat.add_comm, BitVec.testBit_toNat]

@[simp] theorem get_set_self (f : BitField) (h : f.pos + f.width ≤ w) (x : BitVec w) (v : ℕ) :
    f.get (f.set x v) = v % 2 ^ f.width := by
  apply Nat.eq_of_testBit_eq
  intro i
  rw [testBit_get, Nat.testBit_mod_two_pow]
  by_cases hi : i < f.width
  · have hbit : (f.mask w).getLsbD (f.pos + i) = true := by
      rw [getLsbD_mask, Bool.and_eq_true, decide_eq_true_iff, decide_eq_true_iff]
      omega
    rw [set, getLsbD_masked, if_pos hbit, BitVec.getLsbD_shiftLeft, BitVec.getLsbD_ofNat, Nat.add_sub_cancel_left]
    have hin : f.pos + i < w ∧ i < w ∧ ¬ f.pos + i < f.pos := by omega
    simp [hi, hin.1, hin.2.1]
  · simp [hi]

/-- Fields that share no bit. -/
def Apart (f g : BitField) : Prop := f.pos + f.width ≤ g.pos ∨ g.pos + g.width ≤ f.pos

instance : DecidableRel Apart := fun f g => inferInstanceAs
    (Decidable (f.pos + f.width ≤ g.pos ∨ g.pos + g.width ≤ f.pos))

theorem get_set_other {f g : BitField} (h : Apart f g) (x : BitVec w) (v : ℕ) : f.get (g.set x v) = f.get x := by
  unfold Apart at h
  apply Nat.eq_of_testBit_eq
  intro i
  rw [testBit_get, testBit_get]
  by_cases hi : i < f.width
  · have hbit : (g.mask w).getLsbD (f.pos + i) = false := by
      rw [getLsbD_mask, Bool.and_eq_false_iff, decide_eq_false_iff_not, decide_eq_false_iff_not]
      omega
    rw [set, getLsbD_masked, hbit, if_neg (by decide)]
  · simp [hi]

theorem get_setAll_other {f : BitField} {l : List (BitField × ℕ)} (h : ∀ g ∈ l.map Prod.fst, Apart f g) :
    ∀ x : BitVec w, f.get (setAll l x) = f.get x := by
  induction l with
  | nil => exact fun x => rfl
  | cons a l ih =>
    intro x
    rw [List.map_cons, List.forall_mem_cons] at h
    rw [setAll_cons, ih h.2, get_set_other h.1]

/-- Where no two fields overlap, each keeps what it was assigned. -/
theorem get_setAll {l : List (BitField × ℕ)} (h : (l.map Prod.fst).Pairwise Apart)
    (hin : ∀ f ∈ l.map Prod.fst, f.pos + f.width ≤ w) :
    ∀ x : BitVec w, ∀ a ∈ l, a.1.get (setAll l x) = a.2 % 2 ^ a.1.width := by
  induction l with
  | nil => exact fun x a ha => absurd ha List.not_mem_nil
  | cons b l ih =>
    intro x a ha
    rw [List.map_cons, List.pairwise_cons] at h
    rw [List.map_cons, List.forall_mem_cons] at hin
    rw [setAll_cons]
    rcases List.mem_cons.mp ha with rfl | hl
    · rw [get_setAll_other h.1, get_set_self _ hin.1]
    · exact ih h.2 hin.2 _ a hl

end BitField
end Borgos.Foundations
