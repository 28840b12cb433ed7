import Borgos.Apic.Ioapic
import Borgos.Foundations.MaskedRegister
import Borgos.Kcore.Irq

/-! # `bits.c`: the bit-field accessors

A shift by the width of its operand or more is undefined. The mask of a field is made with a shift of 64 bits, also for
the registers of 32 bits.
-/
namespace Borgos.Kcore.Bits
open Borgos.Foundations
set_option autoImplicit false

section Accessors
variable {w : ℕ}

/-- `x << n` -/
def shl (x : BitVec w) (n : ℕ) : Option (BitVec w) := if n < w then some (x <<< n) else none

/-- `x >> n` -/
def shr (x : BitVec w) (n : ℕ) : Option (BitVec w) := if n < w then some (x >>> n) else none

/-- `(1ULL << numbits) - 1` in a variable of `w` bits. -/
def fieldMask (w numbits : ℕ) : Option (BitVec w) := do
  let bit ← shl (1 : BitVec 64) numbits
  some ((bit - 1).setWidth w)

def bitsGet (value : BitVec w) (firstbit lastbit : ℕ) : Option (BitVec w) := do
  let mask ← fieldMask w (1 + lastbit - firstbit)
  let shifted ← shr value firstbit
  some (shifted &&& mask)

def bitsSet (regvalue bitvalue : BitVec w) (firstbit lastbit : ℕ) : Option (BitVec w) := do
  let mask ← fieldMask w (1 + lastbit - firstbit)
  let shiftedMask ← shl mask firstbit
  let shiftedNewValue ← shl (bitvalue &&& mask) firstbit
  some ((regvalue &&& ~~~shiftedMask) ||| shiftedNewValue)

end Accessors

def bits32Get (value : BitVec 32) (firstbit lastbit : ℕ) : Option (BitVec 32) := bitsGet value firstbit lastbit

def bits32Set (regvalue bitvalue : BitVec 32) (firstbit lastbit : ℕ) : Option (BitVec 32) :=
  bitsSet regvalue bitvalue firstbit lastbit

def bits64Get (value : BitVec 64) (firstbit lastbit : ℕ) : Option (BitVec 64) := bitsGet value firstbit lastbit

def bits64Set (regvalue bitvalue : BitVec 64) (firstbit lastbit : ℕ) : Option (BitVec 64) :=
  bitsSet regvalue bitvalue firstbit lastbit

/-! ## Fields -/

structure Field (w : ℕ) where
  first : ℕ
  last : ℕ
  first_le : first ≤ last
  last_lt : last < w

namespace Field
variable {w : ℕ}

def width (f : Field w) : ℕ := 1 + f.last - f.first

def get (f : Field w) (r : BitVec w) : Option (BitVec w) := bitsGet r f.first f.last

def set (f : Field w) (r v : BitVec w) : Option (BitVec w) := bitsSet r v f.first f.last

def Disjoint (f g : Field w) : Prop := f.last < g.first ∨ g.last < f.first

/-- The accessors of the field do what they are for, and no shift in them is undefined. -/
structure Right (f : Field w) : Prop where
  defined : ∀ r, (f.get r).isSome
  set_get : ∀ r v, ∃ r', f.set r v = some r' ∧ ∃ x, f.get r' = some x ∧ x.toNat = v.toNat % 2 ^ (f.last - f.first + 1)
  outside : ∀ r v r', f.set r v = some r' → ∀ i, i < f.first ∨ f.last < i → r'.getLsbD i = r.getLsbD i
  set_set : ∀ r u v r', f.set r u = some r' → f.set r' v = f.set r v
  comm : ∀ g : Field w, f.Disjoint g → ∀ r u v, (f.set r u).bind (g.set · v) = (g.set r v).bind (f.set · u)

end Field

/-! ## The mask -/

section Mask
variable {w : ℕ}

theorem one_shl_sub_one (n : ℕ) : (1 : BitVec 64) <<< n - 1 = ~~~(highBits 64 n) := by
  have htwo : (1 : BitVec 64) <<< n = BitVec.twoPow 64 n := rfl
  rw [htwo, ← not_highBits_add_one]
  exact BitVec.add_sub_cancel _ _

theorem setWidth_lowBits {n : ℕ} (hw : w ≤ 64) :
    (~~~(highBits 64 n)).setWidth w = ~~~(highBits w n) := by
  apply BitVec.eq_of_getLsbD_eq
  intro i hi
  have hi' : i < 64 := hi.trans_le hw
  rw [BitVec.getLsbD_setWidth, BitVec.getLsbD_not, BitVec.getLsbD_not, getLsbD_highBits, getLsbD_highBits]
  simp only [hi, hi', decide_true, Bool.true_and]

theorem fieldMask_eq {n : ℕ} (hw : w ≤ 64) (hn : n < 64) : fieldMask w n = some (~~~(highBits w n)) := by
  have hshl : shl (1 : BitVec 64) n = some ((1 : BitVec 64) <<< n) := if_pos hn
  unfold fieldMask
  rw [hshl, Option.bind_eq_bind, Option.bind_some, one_shl_sub_one, setWidth_lowBits hw]

end Mask

/-! ## The accessors of a field -/

namespace Field
variable {w : ℕ} (f g : Field w)

/-- The bits of the field. -/
def mask : BitVec w := (~~~(highBits w f.width)) <<< f.first

theorem getLsbD_mask {i : ℕ} : f.mask.getLsbD i = (decide (f.first ≤ i) && decide (i ≤ f.last)) := by
  have hle := f.first_le
  have hlt := f.last_lt
  simp only [mask, width, BitVec.getLsbD_shiftLeft, BitVec.getLsbD_not, getLsbD_highBits]
  by_cases hin : f.first ≤ i ∧ i ≤ f.last
  · have hi : i < w := by omega
    have hnot : ¬ i < f.first := by omega
    have hsub : i - f.first < w := by omega
    have hwidth : ¬ 1 + f.last - f.first ≤ i - f.first := by omega
    simp [hin.1, hin.2, hi, hnot, hsub, hwidth]
  · by_cases hfirst : f.first ≤ i
    · have hlast : ¬ i ≤ f.last := fun hc => hin ⟨hfirst, hc⟩
      have hwidth : 1 + f.last - f.first ≤ i - f.first := by omega
      simp only [hfirst, hlast, decide_true, decide_false, Bool.true_and, hwidth, Bool.and_true]
      cases decide (i - f.first < w) <;> simp
    · have hlt' : i < f.first := Nat.lt_of_not_le hfirst
      simp [hfirst, hlt']

section Narrow
variable {f g}

theorem set_eq (hw : w ≤ 64) (hwidth : f.width < 64) (r v : BitVec w) :
    f.set r v = some (masked f.mask r (v <<< f.first)) := by
  have hfirst : f.first < w := f.first_le.trans_lt f.last_lt
  have hshl : ∀ x : BitVec w, shl x f.first = some (x <<< f.first) := fun x => if_pos hfirst
  unfold set bitsSet
  rw [show 1 + f.last - f.first = f.width from rfl, fieldMask_eq hw hwidth]
  simp only [Option.bind_eq_bind, Option.bind_some, hshl, masked, mask, BitVec.shiftLeft_and_distrib]

theorem get_eq (hw : w ≤ 64) (hwidth : f.width < 64) (r : BitVec w) :
    f.get r = some (r >>> f.first &&& ~~~(highBits w f.width)) := by
  have hfirst : f.first < w := f.first_le.trans_lt f.last_lt
  have hshr : shr r f.first = some (r >>> f.first) := if_pos hfirst
  unfold get bitsGet
  rw [show 1 + f.last - f.first = f.width from rfl, fieldMask_eq hw hwidth, hshr]
  rfl

/-- The bits of the field are those of the value. -/
theorem getLsbD_set (r v : BitVec w) (i : ℕ) : (masked f.mask r (v <<< f.first)).getLsbD i =
    if f.first ≤ i ∧ i ≤ f.last then v.getLsbD (i - f.first) else r.getLsbD i := by
  have hlt := f.last_lt
  rw [getLsbD_masked, getLsbD_mask, BitVec.getLsbD_shiftLeft]
  by_cases hin : f.first ≤ i ∧ i ≤ f.last
  · have hi : i < w := by omega
    simp [hin, hi]
  · rw [if_neg hin, if_neg]
    simpa using hin

theorem get_masked (r v : BitVec w) :
    masked f.mask r (v <<< f.first) >>> f.first &&& ~~~(highBits w f.width) = v &&& ~~~(highBits w f.width) := by
  have hle := f.first_le
  apply BitVec.eq_of_getLsbD_eq
  intro i hi
  simp only [BitVec.getLsbD_and, BitVec.getLsbD_ushiftRight, getLsbD_set, BitVec.getLsbD_not, getLsbD_highBits, hi,
    decide_true, Bool.true_and]
  by_cases hin : i < f.width
  · have hfield : f.first ≤ f.first + i ∧ f.first + i ≤ f.last := by
      unfold width at hin
      omega
    rw [if_pos hfield, Nat.add_sub_cancel_left]
  · simp [Nat.le_of_not_lt hin]

theorem toNat_and_lowBits (v : BitVec w) {n : ℕ} (hn : n ≤ w) : (v &&& ~~~(highBits w n)).toNat = v.toNat % 2 ^ n := by
  apply Nat.eq_of_testBit_eq
  intro i
  rw [Nat.testBit_mod_two_pow, ← BitVec.getLsbD, BitVec.getLsbD_and, BitVec.getLsbD_not, getLsbD_highBits,
    ← BitVec.getLsbD]
  by_cases hi : i < n
  · simp [hi, hi.trans_le hn]
  · simp [hi, Nat.le_of_not_lt hi]

theorem right_of_narrow (hw : w ≤ 64) (hwidth : f.width < 64) : f.Right where
  defined r := by
    rw [get_eq hw hwidth]
    rfl
  set_get r v := by
    have hle : f.width ≤ w := by
      have hlt := f.last_lt
      unfold width
      omega
    have hpow : f.last - f.first + 1 = f.width := by
      have hfirst := f.first_le
      unfold width
      omega
    refine ⟨_, set_eq hw hwidth r v, _, get_eq hw hwidth _, ?_⟩
    rw [get_masked, toNat_and_lowBits v hle, hpow]
  outside r v r' hset i hi := by
    rw [set_eq hw hwidth] at hset
    rw [← Option.some.inj hset, getLsbD_set, if_neg (by omega)]
  set_set r u v r' hset := by
    rw [set_eq hw hwidth] at hset
    rw [← Option.some.inj hset, set_eq hw hwidth, set_eq hw hwidth]
    apply congrArg some
    apply BitVec.eq_of_getLsbD_eq
    intro i _
    simp only [getLsbD_set]
    split_ifs
    · rfl
    · rfl
  comm g hdisjoint r u v := by
    have hg : g.width < 64 := by
      have hf := f.first_le
      have hfw := f.last_lt
      have hgw := g.last_lt
      unfold Disjoint at hdisjoint
      unfold width at hwidth ⊢
      omega
    simp only [set_eq hw hwidth, set_eq hw hg, Option.bind_some]
    apply congrArg some
    apply BitVec.eq_of_getLsbD_eq
    intro i _
    unfold Disjoint at hdisjoint
    simp only [getLsbD_set]
    split_ifs with hf hg'
    · omega
    · rfl
    · rfl
    · rfl

end Narrow
end Field

/-- **The bit-field accessors** are right for every field of a register of 32 bits, and for every field of one of 64
bits but the whole register. -/
theorem bit_fields_right_iff (f : Field 32) (g : Field 64) : f.Right ∧ (g.Right ↔ ¬ (g.first = 0 ∧ g.last = 63)) := by
  refine ⟨?_, ?_, ?_⟩
  · have hlt := f.last_lt
    apply Field.right_of_narrow (by decide)
    unfold Field.width
    omega
  · rintro hright ⟨hfirst, hlast⟩
    have hdefined := hright.defined 0
    unfold Field.get at hdefined
    rw [hfirst, hlast] at hdefined
    exact absurd hdefined (by decide)
  · intro hnot
    have hle := g.first_le
    have hlt := g.last_lt
    apply Field.right_of_narrow le_rfl
    unfold Field.width
    omega

/-- All 64 bits. -/
def wholeRegister : Field 64 := ⟨0, 63, by decide, by decide⟩

theorem whole_register_undefined : ¬ wholeRegister.Right := by
  intro hright
  exact absurd (hright.defined 0) (by decide)

/-! ## The users -/

theorem natCast_one_shl (w n : ℕ) : ((1 <<< n : ℕ) : BitVec w) = BitVec.twoPow w n := by
  apply BitVec.eq_of_toNat_eq
  rw [BitVec.toNat_twoPow, Nat.one_shiftLeft]
  exact BitVec.toNat_ofNat _ _

theorem natCast_one_shl_sub_one (w n : ℕ) : ((1 <<< n : ℕ) : BitVec w) - 1 = ~~~(highBits w n) := by
  rw [natCast_one_shl, ← not_highBits_add_one]
  exact BitVec.add_sub_cancel _ _

/-- The redirection entries are put together with defined shifts. -/
theorem bits64Set_irq (f : Field 64) (hwidth : f.width < 64) (r v : BitVec 64) :
    bits64Set r v f.first f.last = some (Kcore.bits64Set r v f.first f.last) := by
  have hset : bits64Set r v f.first f.last = some _ := Field.set_eq le_rfl hwidth r v
  rw [hset]
  unfold Kcore.bits64Set
  rw [show (1 + f.last - f.first) = f.width from rfl]
  simp only [masked, Field.mask, BitVec.shiftLeft_and_distrib, natCast_one_shl_sub_one]

theorem bits32Get_apic (f : Field 32) (r : BitVec 32) :
    bits32Get r f.first f.last = some (Apic.bits32Get r f.first f.last) := by
  have hwidth : f.width < 64 := by
    have hlt := f.last_lt
    unfold Field.width
    omega
  have hget : bits32Get r f.first f.last = some _ := Field.get_eq (by decide) hwidth r
  rw [hget]
  unfold Apic.bits32Get
  rw [show (1 + f.last - f.first) = f.width from rfl, natCast_one_shl_sub_one]

end Borgos.Kcore.Bits
