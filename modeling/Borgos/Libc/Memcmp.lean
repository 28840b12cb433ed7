import Mathlib.Tactic

/-! # `mem.c`: `memcmp`

The difference of two bytes is kept in a `signed char`. It has the right sign as long as it fits in there.
-/
namespace Borgos.Libc
set_option autoImplicit false

/-- `*su1 - *su2`, in a `signed char`. -/
def byteDiff (x y : BitVec 8) : BitVec 8 := BitVec.ofInt 8 ((x.toNat : ℤ) - y.toNat)

/-- The loop with `i` bytes behind it; `res` is what the last round left. -/
def memcmpFrom (cs ct : ℕ → BitVec 8) : ℕ → ℕ → BitVec 8 → BitVec 8
  | 0, _, res => res
  | count + 1, i, _ =>
    if byteDiff (cs i) (ct i) ≠ 0 then byteDiff (cs i) (ct i)
    else memcmpFrom cs ct count (i + 1) (byteDiff (cs i) (ct i))

def memcmp (cs ct : ℕ → BitVec 8) (count : ℕ) : ℤ := (memcmpFrom cs ct count 0 0).toInt

/-! ## Byte strings in order -/

section Order
variable {a b c : ℕ → BitVec 8} {count i : ℕ}

def Same (a b : ℕ → BitVec 8) (count : ℕ) : Prop := ∀ i < count, a i = b i

/-- The strings differ first in byte `i`. -/
structure FirstDiff (a b : ℕ → BitVec 8) (count i : ℕ) : Prop where
  lt : i < count
  same : ∀ j < i, a j = b j
  differ : a i ≠ b i

/-- `a` comes first: its byte is the smaller one where they differ first. -/
def Before (a b : ℕ → BitVec 8) (count : ℕ) : Prop := ∃ i, FirstDiff a b count i ∧ a i < b i

theorem FirstDiff.symm (h : FirstDiff a b count i) : FirstDiff b a count i :=
  ⟨h.lt, fun j hj => (h.same j hj).symm, h.differ.symm⟩

theorem FirstDiff.unique {j : ℕ} (hi : FirstDiff a b count i) (hj : FirstDiff a b count j) : i = j := by
  rcases Nat.lt_trichotomy i j with hlt | heq | hgt
  · exact absurd (hj.same i hlt) hi.differ
  · exact heq
  · exact absurd (hi.same j hgt) hj.differ

theorem FirstDiff.before_iff (h : FirstDiff a b count i) : Before a b count ↔ a i < b i := by
  constructor
  · rintro ⟨j, hj, hlt⟩
    rwa [h.unique hj]
  · intro hlt
    exact ⟨i, h, hlt⟩

theorem same_or_firstDiff (a b : ℕ → BitVec 8) (count : ℕ) : Same a b count ∨ ∃ i, FirstDiff a b count i := by
  induction count with
  | zero => exact .inl fun i hi => absurd hi (Nat.not_lt_zero i)
  | succ count ih =>
    rcases ih with hsame | ⟨i, hi⟩
    · by_cases hlast : a count = b count
      · left
        intro i hi
        rcases Nat.lt_or_eq_of_le (Nat.le_of_lt_succ hi) with hlt | rfl
        · exact hsame i hlt
        · exact hlast
      · exact .inr ⟨count, Nat.lt_succ_self count, hsame, hlast⟩
    · exact .inr ⟨i, Nat.lt_succ_of_lt hi.lt, hi.same, hi.differ⟩

theorem Before.trans (hab : Before a b count) (hbc : Before b c count) : Before a c count := by
  obtain ⟨i, hi, hlt⟩ := hab
  obtain ⟨k, hk, hlt'⟩ := hbc
  rcases Nat.lt_trichotomy i k with hik | rfl | hki
  · have heq : b i = c i := hk.same i hik
    refine ⟨i, ⟨hi.lt, ?_, ?_⟩, heq ▸ hlt⟩
    · intro j hj
      rw [hi.same j hj, hk.same j (hj.trans hik)]
    · rw [← heq]
      exact hi.differ
  · have hlt'' : a i < c i := BitVec.lt_trans hlt hlt'
    refine ⟨i, ⟨hi.lt, ?_, BitVec.ne_of_lt hlt''⟩, hlt''⟩
    intro j hj
    rw [hi.same j hj, hk.same j hj]
  · have heq : a k = b k := hi.same k hki
    refine ⟨k, ⟨hk.lt, ?_, ?_⟩, heq ▸ hlt'⟩
    · intro j hj
      rw [hi.same j (hj.trans hki), hk.same j hj]
    · rw [heq]
      exact hk.differ

theorem Before.congr (h : Before c a count) (hsame : Same a b count) : Before c b count := by
  obtain ⟨i, hi, hlt⟩ := h
  refine ⟨i, ⟨hi.lt, ?_, ?_⟩, hsame i hi.lt ▸ hlt⟩
  · intro j hj
    rw [hi.same j hj, hsame j (hj.trans hi.lt)]
  · rw [← hsame i hi.lt]
    exact hi.differ

/-- One of two strings comes first, or they are the same. -/
theorem before_trichotomy (a b : ℕ → BitVec 8) (count : ℕ) : Before a b count ∨ Same a b count ∨ Before b a count := by
  rcases same_or_firstDiff a b count with hsame | ⟨i, hi⟩
  · exact .inr (.inl hsame)
  · rcases Nat.lt_or_gt_of_ne (fun hc => hi.differ (BitVec.eq_of_toNat_eq hc)) with hlt | hgt
    · exact .inl ⟨i, hi, hlt⟩
    · exact .inr (.inr ⟨i, hi.symm, hgt⟩)

/-- "Not after" is transitive. -/
theorem not_before_trans (hab : ¬ Before b a count) (hbc : ¬ Before c b count) : ¬ Before c a count := by
  intro hca
  rcases before_trichotomy a b count with hlt | hsame | hgt
  · exact hbc (hca.trans hlt)
  · exact hbc (hca.congr hsame)
  · exact hab hgt

end Order

/-! ## The value -/

section Value
variable {a b : ℕ → BitVec 8} {count i : ℕ}

theorem toInt_byteDiff (x y : BitVec 8) : (byteDiff x y).toInt = ((x.toNat : ℤ) - y.toNat).bmod 256 := by
  rw [byteDiff, BitVec.toInt_ofInt]

theorem toInt_byteDiff_cases (x y : BitVec 8) : (byteDiff x y).toInt = (x.toNat : ℤ) - y.toNat ∨
    (127 < (x.toNat : ℤ) - y.toNat ∧ (byteDiff x y).toInt = (x.toNat : ℤ) - y.toNat - 256) ∨
    ((x.toNat : ℤ) - y.toNat < -128 ∧ (byteDiff x y).toInt = (x.toNat : ℤ) - y.toNat + 256) := by
  have hx := x.isLt
  have hy := y.isLt
  rw [toInt_byteDiff, Int.bmod_def]
  split_ifs with h <;> omega

theorem byteDiff_eq_zero_iff {x y : BitVec 8} : byteDiff x y = 0 ↔ x = y := by
  have hx := x.isLt
  have hy := y.isLt
  constructor
  · intro h
    have hzero : (byteDiff x y).toInt = 0 := by
      rw [h]
      rfl
    apply BitVec.eq_of_toNat_eq
    rcases toInt_byteDiff_cases x y with heq | ⟨_, heq⟩ | ⟨_, heq⟩ <;> omega
  · rintro rfl
    simp [byteDiff]

theorem memcmpFrom_same (count : ℕ) : ∀ i, (∀ j, i ≤ j → j < i + count → a j = b j) → memcmpFrom a b count i 0 = 0 := by
  induction count with
  | zero => exact fun i _ => rfl
  | succ count ih =>
    intro i hsame
    have hzero : byteDiff (a i) (b i) = 0 := byteDiff_eq_zero_iff.mpr (hsame i le_rfl (by omega))
    rw [memcmpFrom, if_neg (by simp [hzero]), hzero]
    exact ih (i + 1) fun j hle hlt => hsame j (by omega) (by omega)

theorem memcmpFrom_differ {k : ℕ} (hdiffer : a k ≠ b k) (count : ℕ) : ∀ i res, i ≤ k → k < i + count →
    (∀ j, i ≤ j → j < k → a j = b j) → memcmpFrom a b count i res = byteDiff (a k) (b k) := by
  induction count with
  | zero =>
    intro i res hle hlt
    omega
  | succ count ih =>
    intro i res hle hlt hsame
    rcases Nat.lt_or_eq_of_le hle with hik | rfl
    · have hzero : byteDiff (a i) (b i) = 0 := byteDiff_eq_zero_iff.mpr (hsame i le_rfl hik)
      rw [memcmpFrom, if_neg (by simp [hzero])]
      exact ih (i + 1) _ hik (by omega) fun j hle hlt => hsame j (by omega) hlt
    · rw [memcmpFrom, if_pos]
      exact fun hc => hdiffer (byteDiff_eq_zero_iff.mp hc)

theorem memcmp_same (h : Same a b count) : memcmp a b count = 0 := by
  rw [memcmp, memcmpFrom_same count 0 fun j _ hlt => h j (by omega)]
  rfl

theorem memcmp_firstDiff (h : FirstDiff a b count i) : memcmp a b count = (byteDiff (a i) (b i)).toInt := by
  rw [memcmp, memcmpFrom_differ h.differ count 0 0 (Nat.zero_le i) (by have := h.lt; omega) fun j _ hlt => h.same j hlt]

theorem memcmp_eq_zero_iff : memcmp a b count = 0 ↔ Same a b count := by
  refine ⟨?_, memcmp_same⟩
  intro h
  rcases same_or_firstDiff a b count with hsame | ⟨i, hi⟩
  · exact hsame
  · rw [memcmp_firstDiff hi] at h
    have hzero : byteDiff (a i) (b i) = 0 := BitVec.eq_of_toInt_eq (by rw [h]; rfl)
    exact absurd (byteDiff_eq_zero_iff.mp hzero) hi.differ

end Value

/-! ## The order of `memcmp` -/

/-- The result says which of the strings comes first. -/
structure Ordered (a b : ℕ → BitVec 8) (count : ℕ) : Prop where
  zero : memcmp a b count = 0 ↔ Same a b count
  neg : memcmp a b count < 0 ↔ Before a b count
  pos : 0 < memcmp a b count ↔ Before b a count

/-- The results for the strings of `S` are those of an order. -/
structure OrderOn (S : Set (ℕ → BitVec 8)) (count : ℕ) : Prop where
  ordered : ∀ a ∈ S, ∀ b ∈ S, Ordered a b count
  opposite : ∀ a ∈ S, ∀ b ∈ S, memcmp a b count < 0 ↔ 0 < memcmp b a count
  trans : ∀ a ∈ S, ∀ b ∈ S, ∀ c ∈ S, memcmp a b count ≤ 0 → memcmp b c count ≤ 0 → memcmp a c count ≤ 0

/-- The first bytes that differ, if any, differ by what a `signed char` can hold. -/
def Narrow (a b : ℕ → BitVec 8) (count : ℕ) : Prop :=
  ∀ i, FirstDiff a b count i → -128 ≤ ((a i).toNat : ℤ) - (b i).toNat ∧ ((a i).toNat : ℤ) - (b i).toNat ≤ 127

section Right
variable {a b c : ℕ → BitVec 8} {count : ℕ}

theorem ordered_iff_narrow : Ordered a b count ↔ Narrow a b count := by
  constructor
  · intro h i hi
    have hneg := h.neg
    have hpos := h.pos
    rw [memcmp_firstDiff hi] at hneg hpos
    rw [hi.before_iff, BitVec.lt_def] at hneg
    rw [hi.symm.before_iff, BitVec.lt_def] at hpos
    have hx := (a i).isLt
    have hy := (b i).isLt
    rcases toInt_byteDiff_cases (a i) (b i) with heq | ⟨hbig, heq⟩ | ⟨hbig, heq⟩
    · have hlow := BitVec.le_toInt (byteDiff (a i) (b i))
      have hhigh := BitVec.toInt_lt (x := byteDiff (a i) (b i))
      omega
    · omega
    · omega
  · intro h
    rcases same_or_firstDiff a b count with hsame | ⟨i, hi⟩
    · have hzero := memcmp_same hsame
      have hnot : ¬ Before a b count := fun ⟨j, hj, _⟩ => hj.differ (hsame j hj.lt)
      have hnot' : ¬ Before b a count := fun ⟨j, hj, _⟩ => hj.differ (hsame j hj.lt).symm
      exact ⟨memcmp_eq_zero_iff, by simp [hzero, hnot], by simp [hzero, hnot']⟩
    · obtain ⟨hlow, hhigh⟩ := h i hi
      refine ⟨memcmp_eq_zero_iff, ?_, ?_⟩
      · rw [memcmp_firstDiff hi, hi.before_iff, BitVec.lt_def]
        rcases toInt_byteDiff_cases (a i) (b i) with heq | ⟨hbig, heq⟩ | ⟨hbig, heq⟩ <;> omega
      · rw [memcmp_firstDiff hi, hi.symm.before_iff, BitVec.lt_def]
        rcases toInt_byteDiff_cases (a i) (b i) with heq | ⟨hbig, heq⟩ | ⟨hbig, heq⟩ <;> omega

theorem Ordered.nonpos_iff (h : Ordered a b count) : memcmp a b count ≤ 0 ↔ ¬ Before b a count := by
  rw [← not_lt, h.pos]

end Right

/-- **The order of `memcmp`.** Two strings are put in order if and only if the first bytes that differ do so by what a
`signed char` can hold; and it is an order on just the sets of strings all pairs of which are so. -/
theorem memcmp_orders_iff (a b : ℕ → BitVec 8) (count : ℕ) (S : Set (ℕ → BitVec 8)) :
    (Ordered a b count ↔ Narrow a b count) ∧ (OrderOn S count ↔ ∀ a ∈ S, ∀ b ∈ S, Narrow a b count) := by
  refine ⟨ordered_iff_narrow, ?_, ?_⟩
  · intro h a ha b hb
    exact ordered_iff_narrow.mp (h.ordered a ha b hb)
  · intro h
    have hordered : ∀ a ∈ S, ∀ b ∈ S, Ordered a b count := fun a ha b hb => ordered_iff_narrow.mpr (h a ha b hb)
    refine ⟨hordered, ?_, ?_⟩
    · intro a ha b hb
      rw [(hordered a ha b hb).neg, (hordered b hb a ha).pos]
    · intro a ha b hb c hc hab hbc
      rw [(hordered a ha b hb).nonpos_iff] at hab
      rw [(hordered b hb c hc).nonpos_iff] at hbc
      rw [(hordered a ha c hc).nonpos_iff]
      exact not_before_trans hab hbc

/-- The byte 128 counts as smaller than the byte 0. -/
theorem byte_128_before_byte_0 : ¬ Ordered (fun _ => 0x80) (fun _ => 0) 1 := by
  intro h
  obtain ⟨i, hi, hlt⟩ := h.neg.mp (by decide)
  have hlt' : (0x80 : BitVec 8) < 0 := hlt
  exact absurd hlt' (by decide)

end Borgos.Libc
