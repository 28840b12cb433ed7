import Borgos.Apic.Ioapic
import Borgos.Foundations.MaskedRegister
import Borgos.Foundations.Orbit

/-! # `pci_config.cpp`: the list of capabilities

The configuration space as bytes; the device has the address of its registers. The loop takes a bound on its rounds.
-/
namespace Borgos.Pci
open Borgos.Foundations
open Borgos.Apic (bits32Get)
set_option autoImplicit false

abbrev ConfigBytes := ℕ → BitVec 8

/-- `pci_config_read32`: the bytes from an offset on, the least significant first. -/
def configRead32 (c : ConfigBytes) (offsett : ℕ) : BitVec 32 :=
  (c offsett).setWidth 32 ||| (c (offsett + 1)).setWidth 32 <<< 8 ||| (c (offsett + 2)).setWidth 32 <<< 16 |||
    (c (offsett + 3)).setWidth 32 <<< 24

/-- The loop over the list from `capptr` on. -/
def capabilityLoop (c : ConfigBytes) (id : BitVec 8) : ℕ → BitVec 32 → Option (BitVec 32)
  | 0, _ => none
  | fuel + 1, capptr =>
    if capptr > 0 then
      let rawdata := configRead32 c capptr.toNat
      let cid := bits32Get rawdata 0 7
      if cid = id.setWidth 32 then some capptr else capabilityLoop c id fuel (bits32Get rawdata 8 15)
    else some 0

def pciConfigGetCapabillityPtr (c : ConfigBytes) (id : BitVec 8) (fuel : ℕ) : Option (BitVec 32) :=
  let rawdata := configRead32 c 0x04
  let status : BitVec 16 := (rawdata >>> 16).setWidth 16
  let hascap := bits32Get (status.setWidth 32) 4 4
  if hascap = 0 then some 0
  else
    let rawdata := configRead32 c 0x34
    capabilityLoop c id fuel (bits32Get rawdata 0 7)

/-! ## The list -/

section List
variable (c : ConfigBytes) (id : BitVec 8)

/-- The bit of the status register that says there is a list. -/
def HasList : Prop := (c 0x06).getLsbD 4 = true

/-- The pointer to the capability behind the one at `p`. -/
def nextCapability (p : BitVec 8) : BitVec 8 := c (p.toNat + 1)

/-- The `n`-th pointer of the list. -/
def capability (n : ℕ) : BitVec 8 := (nextCapability c)^[n] (c 0x34)

/-- The `n`-th capability of the list is the first one with the id. -/
def FirstWithId (n : ℕ) : Prop :=
  (∀ m, m ≤ n → capability c m ≠ 0) ∧ c (capability c n).toNat = id ∧ ∀ m, m < n → c (capability c m).toNat ≠ id

/-- The function returns, and what it returns is the first capability with the id, if the list has one. -/
def CapabilityRight : Prop :=
  ∃ fuel r, pciConfigGetCapabillityPtr c id fuel = some r ∧
    (r ≠ 0 ↔ HasList c ∧ ∃ n, (∀ m, m ≤ n → capability c m ≠ 0) ∧ c (capability c n).toNat = id) ∧
    (HasList c → ∀ n, FirstWithId c id n → r = (capability c n).setWidth 32)

/-- The list comes back to one of its capabilities, before a zero pointer and before a capability with the id. -/
def ListComesBack : Prop :=
  ∃ i j, i < j ∧ capability c i = capability c j ∧
    ∀ m, m < j → capability c m ≠ 0 ∧ c (capability c m).toNat ≠ id

/-- Where the loop ends. -/
def Ends (p : BitVec 8) : Prop := p = 0 ∨ c p.toNat = id

instance : DecidablePred (Ends c id) := fun _ => inferInstanceAs (Decidable (_ ∨ _))

end List

/-! ## The fields of a register -/

section Fields
variable (c : ConfigBytes)

/-- The bits of a byte of a register. -/
theorem configRead32_getLsbD (offsett n i : ℕ) (hn : n < 4) (hi : i < 8) :
    (configRead32 c offsett).getLsbD (8 * n + i) = (c (offsett + n)).getLsbD i := by
  simp only [configRead32, BitVec.getLsbD_or, BitVec.getLsbD_shiftLeft, BitVec.getLsbD_setWidth]
  have hhigh : ∀ (x : BitVec 8) (j : ℕ), 8 ≤ j → x.getLsbD j = false := fun x j hj => BitVec.getLsbD_of_ge x j hj
  interval_cases n
  · have h32 : i < 32 := by omega
    have h16 : i < 16 := by omega
    have h24 : i < 24 := by omega
    simp [hi, h32, h16, h24]
  · have hsub : 8 + i - 8 = i := by omega
    simp [hsub, show 8 + i < 32 by omega, show 8 + i < 16 by omega, show 8 + i < 24 by omega,
      show i < 32 by omega]
  · simp [hhigh _ (16 + i) (by omega), hhigh _ (16 + i - 8) (by omega), show 16 + i < 32 by omega,
      show 16 + i < 24 by omega, show i < 32 by omega]
  · simp [hhigh _ (24 + i) (by omega), hhigh _ (24 + i - 8) (by omega), hhigh _ (24 + i - 16) (by omega),
      show 24 + i < 32 by omega, show i < 32 by omega]

/-- A byte of a register. -/
theorem bits32Get_byte (offsett n : ℕ) (hn : n < 4) :
    bits32Get (configRead32 c offsett) (8 * n) (8 * n + 7) = (c (offsett + n)).setWidth 32 := by
  have hmask : ((1 <<< (1 + (8 * n + 7) - 8 * n) : ℕ) : BitVec 32) - 1 = ~~~(highBits 32 8) := by
    rw [show 1 + (8 * n + 7) - 8 * n = 8 by omega]
    decide
  apply BitVec.eq_of_getLsbD_eq
  intro i hi
  rw [bits32Get, hmask, BitVec.getLsbD_and, BitVec.getLsbD_ushiftRight, BitVec.getLsbD_not, getLsbD_highBits,
    BitVec.getLsbD_setWidth]
  by_cases hlow : i < 8
  · rw [configRead32_getLsbD c offsett n i hn hlow]
    simp [hi, hlow]
  · simp [hi, Nat.le_of_not_lt hlow]

theorem hasList_iff :
    bits32Get ((((configRead32 c 0x04) >>> 16).setWidth 16 : BitVec 16).setWidth 32) 4 4 = 0 ↔ ¬ HasList c := by
  have hbit : ((((configRead32 c 0x04) >>> 16).setWidth 16 : BitVec 16).setWidth 32).getLsbD 4 =
      (c 0x06).getLsbD 4 := by
    rw [BitVec.getLsbD_setWidth, BitVec.getLsbD_setWidth, BitVec.getLsbD_ushiftRight]
    exact configRead32_getLsbD c 0x04 2 4 (by decide) (by decide)
  rw [HasList, ← hbit]
  generalize ((((configRead32 c 0x04) >>> 16).setWidth 16 : BitVec 16).setWidth 32) = status
  have hmask : ((1 <<< (1 + 4 - 4) : ℕ) : BitVec 32) - 1 = 1 := by decide
  rw [bits32Get, hmask]
  constructor
  · intro hzero hset
    have hlow := congrArg (fun x : BitVec 32 => x.getLsbD 0) hzero
    simp at hlow hset
    rw [hset] at hlow
    cases hlow
  · intro hclear
    apply BitVec.eq_of_getLsbD_eq
    intro i hi
    rw [BitVec.getLsbD_and, BitVec.getLsbD_ushiftRight]
    cases i with
    | zero => simpa using hclear
    | succ i => simp

end Fields

/-! ## The loop as a walk -/

section Search
variable {c : ConfigBytes} {id : BitVec 8}

theorem setWidth32_inj {x y : BitVec 8} : x.setWidth 32 = y.setWidth 32 ↔ x = y := by
  constructor
  · intro h
    have hnat := congrArg BitVec.toNat h
    have hx := x.isLt
    have hy := y.isLt
    simp only [BitVec.toNat_setWidth] at hnat
    exact BitVec.eq_of_toNat_eq (by omega)
  · rintro rfl
    rfl

theorem capabilityLoop_eq (fuel : ℕ) (p : BitVec 8) :
    capabilityLoop c id fuel (p.setWidth 32) =
      (walkUntil (nextCapability c) (Ends c id) fuel p).map (BitVec.setWidth 32) := by
  induction fuel generalizing p with
  | zero => rfl
  | succ fuel ih =>
    have hoffset : (p.setWidth 32).toNat = p.toNat := by
      have hp := p.isLt
      rw [BitVec.toNat_setWidth]
      omega
    have hid : bits32Get (configRead32 c p.toNat) 0 7 = (c p.toNat).setWidth 32 :=
      bits32Get_byte c p.toNat 0 (by decide)
    have hnext : bits32Get (configRead32 c p.toNat) 8 15 = (nextCapability c p).setWidth 32 :=
      bits32Get_byte c p.toNat 1 (by decide)
    rw [capabilityLoop, walkUntil]
    by_cases hzero : p = 0
    · have hend : Ends c id 0 := .inl rfl
      rw [hzero, if_pos hend]
      rfl
    · have hpos : p.setWidth 32 > 0 := by
        rw [gt_iff_lt, BitVec.lt_def, hoffset]
        exact Nat.pos_of_ne_zero fun hc => hzero (BitVec.eq_of_toNat_eq hc)
      simp only [hoffset, hid, hnext, setWidth32_inj]
      rw [if_pos hpos]
      by_cases hfound : c p.toNat = id
      · have hend : Ends c id p := .inr hfound
        rw [if_pos hfound, if_pos hend]
        rfl
      · have hgo : ¬ Ends c id p := by
          rintro (hc | hc)
          · exact hzero hc
          · exact hfound hc
        rw [if_neg hfound, if_neg hgo]
        exact ih _

theorem getCapability_none (h : ¬ HasList c) (fuel : ℕ) : pciConfigGetCapabillityPtr c id fuel = some 0 := by
  rw [pciConfigGetCapabillityPtr]
  exact if_pos ((hasList_iff c).mpr h)

theorem getCapability_list (h : HasList c) (fuel : ℕ) : pciConfigGetCapabillityPtr c id fuel =
    (walkUntil (nextCapability c) (Ends c id) fuel (c 0x34)).map (BitVec.setWidth 32) := by
  have hstart : bits32Get (configRead32 c 0x34) 0 7 = (c 0x34).setWidth 32 := bits32Get_byte c 0x34 0 (by decide)
  rw [pciConfigGetCapabillityPtr]
  refine (if_neg fun hc => (hasList_iff c).mp hc h).trans ?_
  dsimp only
  rw [hstart, capabilityLoop_eq]

/-- The first capability with the id is where the walk ends. -/
theorem firstAt_of_firstWithId {n : ℕ} (h : FirstWithId c id n) :
    FirstAt (nextCapability c) (Ends c id) (c 0x34) (capability c n) := by
  obtain ⟨hpos, hid, hbefore⟩ := h
  refine ⟨n, rfl, .inr hid, ?_⟩
  rintro m hm (hc | hc)
  · exact hpos m (by omega) hc
  · exact hbefore m hm hc

/-- The walk ends elsewhere than at 0 exactly where the list has a capability with the id. -/
theorem firstAt_ne_zero_iff {p : BitVec 8} (h : FirstAt (nextCapability c) (Ends c id) (c 0x34) p) :
    p ≠ 0 ↔ ∃ n, (∀ m, m ≤ n → capability c m ≠ 0) ∧ c (capability c n).toNat = id := by
  obtain ⟨n, hn, hend, hbefore⟩ := h
  have hn' : capability c n = p := hn
  have hgo : ∀ m, m < n → capability c m ≠ 0 ∧ c (capability c m).toNat ≠ id :=
    fun m hm => ⟨fun hc => hbefore m hm (.inl hc), fun hc => hbefore m hm (.inr hc)⟩
  constructor
  · intro hne
    refine ⟨n, ?_, ?_⟩
    · intro m hm
      rcases Nat.lt_or_eq_of_le hm with hlt | rfl
      · exact (hgo m hlt).1
      · rw [hn']
        exact hne
    · rw [hn']
      exact hend.resolve_left hne
  · rintro ⟨k, hpos, hid⟩ hzero
    rcases Nat.lt_or_ge k n with hlt | hge
    · exact (hgo k hlt).2 hid
    · exact hpos n hge (hn'.trans hzero)

theorem listComesBack_iff : ListComesBack c id ↔ ComesBack (nextCapability c) (Ends c id) (c 0x34) := by
  simp only [ListComesBack, ComesBack, capability, Ends, not_or]

instance finite_byte : Finite (BitVec 8) := Finite.of_injective BitVec.toFin fun _ _ h => BitVec.eq_of_toFin_eq h

theorem capability_right_iff (c : ConfigBytes) (id : BitVec 8) :
    CapabilityRight c id ↔ (HasList c → ¬ ListComesBack c id) := by
  rw [listComesBack_iff, ← exists_firstAt_iff_not_comesBack]
  by_cases hlist : HasList c
  · constructor
    · rintro ⟨fuel, r, hrun, -⟩ -
      rw [getCapability_list hlist] at hrun
      obtain ⟨p, hp, -⟩ := Option.map_eq_some_iff.mp hrun
      exact ⟨p, firstAt_of_walkUntil hp⟩
    · intro h
      obtain ⟨p, hp⟩ := h hlist
      obtain ⟨fuel, hfuel⟩ := exists_walkUntil_iff.mpr hp
      refine ⟨fuel, p.setWidth 32, ?_, ?_, ?_⟩
      · rw [getCapability_list hlist, hfuel, Option.map_some]
      · have hzero : p.setWidth 32 ≠ 0 ↔ p ≠ 0 := not_congr (setWidth32_inj (y := 0))
        rw [hzero, firstAt_ne_zero_iff hp]
        simp [hlist]
      · intro _ n hn
        rw [hp.unique (firstAt_of_firstWithId hn)]
  · constructor
    · intro _ hc
      exact absurd hc hlist
    · intro _
      refine ⟨0, 0, getCapability_none hlist 0, ?_, ?_⟩
      · simp [hlist]
      · intro hc
        exact absurd hc hlist

end Search

/-- A capability at 0x40 that is its own next one. -/
def selfReference : ConfigBytes := fun o => if o = 0x06 then 0x10 else if o = 0x34 ∨ o = 0x41 then 0x40 else 0

/-- The function does not return for the id of MSI. -/
theorem self_reference_not_right : ¬ CapabilityRight selfReference 5 := by
  rintro ⟨fuel, r, hrun, -⟩
  have hlist : HasList selfReference := by
    unfold HasList
    decide
  have hback : ComesBack (nextCapability selfReference) (Ends selfReference 5) (selfReference 0x34) := by
    refine ⟨0, 1, by decide, by decide, fun m hm => ?_⟩
    obtain rfl : m = 0 := by omega
    decide
  rw [getCapability_list hlist] at hrun
  obtain ⟨p, hp, -⟩ := Option.map_eq_some_iff.mp hrun
  obtain ⟨n, rfl, hend, -⟩ := firstAt_of_walkUntil hp
  exact hback.never n hend

end Borgos.Pci
