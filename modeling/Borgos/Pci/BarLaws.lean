import Borgos.Pci.Bars

/-! # Which base address registers are reported right

Every write to a register is taken back, so that each BAR is parsed as if it were the only one.
-/
namespace Borgos.Pci
open Borgos.Foundations Borgos.Mmu
open Borgos.Mem (p2v wordSize pagesize)
set_option autoImplicit false

/-! ## Writing and taking back -/

namespace BarState
variable (s : BarState)

def write (offsett : ℕ) (data : BitVec 32) : BarState :=
  { s with reg := Function.update s.reg offsett (masked (s.writable offsett) (s.reg offsett) data) }

@[simp] theorem write_writable (offsett : ℕ) (data : BitVec 32) : (s.write offsett data).writable = s.writable := rfl

@[simp] theorem write_bar (offsett : ℕ) (data : BitVec 32) : (s.write offsett data).bar = s.bar := rfl

@[simp] theorem write_reg_self (offsett : ℕ) (data : BitVec 32) :
    (s.write offsett data).reg offsett = masked (s.writable offsett) (s.reg offsett) data := by
  simp [write]

@[simp] theorem write_reg_of_ne {offsett o : ℕ} (data : BitVec 32) (h : o ≠ offsett) :
    (s.write offsett data).reg o = s.reg o := by
  simp [write, h]

theorem ext_reg {s t : BarState} (hw : t.writable = s.writable) (hb : t.bar = s.bar) (h : ∀ o, t.reg o = s.reg o) :
    t = s := by
  obtain ⟨reg, writable, bar⟩ := s
  obtain ⟨reg', writable', bar'⟩ := t
  simp only at hw hb h
  rw [hw, hb, funext h]

theorem write_restore (offsett : ℕ) (data : BitVec 32) : (s.write offsett data).write offsett (s.reg offsett) = s := by
  apply ext_reg
  · rfl
  · rfl
  · intro o
    by_cases ho : o = offsett
    · rw [ho, write_reg_self, write_writable, write_reg_self, masked_restore]
    · simp [ho]

/-- Two registers are written and taken back in the same order. -/
theorem write_restore_pair {o₁ o₂ : ℕ} (hne : o₁ ≠ o₂) (data₁ data₂ : BitVec 32) :
    (((s.write o₁ data₁).write o₂ data₂).write o₁ (s.reg o₁)).write o₂ (s.reg o₂) = s := by
  apply ext_reg
  · rfl
  · rfl
  · intro o
    by_cases h₂ : o = o₂
    · rw [h₂]
      simp [hne.symm, masked_restore]
    · by_cases h₁ : o = o₁
      · rw [h₁]
        simp [hne, masked_restore]
      · simp [h₁, h₂]

end BarState

@[simp] theorem pciConfigRead32_run (offsett : ℕ) (s : BarState) :
    pciConfigRead32 offsett s = .ok (s.reg offsett) s := rfl

@[simp] theorem pciConfigWrite32_run (offsett : ℕ) (data : BitVec 32) (s : BarState) :
    pciConfigWrite32 offsett data s = .ok () (s.write offsett data) := rfl

/-! ## One round -/

/-- The size that is read back from a register of 32 bits. -/
def sizeBack32 (writable value : BitVec 32) : BitVec 32 := ~~~(masked writable value 0xFFFFFFFF &&& ~~~0xF) + 1

/-- The mask that is read back from two registers. -/
def maskBack64 (low high : BarRegister) : BitVec 64 :=
  ((masked high.writable high.value 0xFFFFFFFF).setWidth 64 <<< 32) +
    (masked low.writable low.value 0xFFFFFFF0 &&& ~~~0xF).setWidth 64

/-- The address in two registers. -/
def base64 (low high : BitVec 32) : BitVec 64 := ((high.setWidth 64 <<< 32) + low.setWidth 64) &&& ~~~0xF

def BarState.register (s : BarState) (offsett : ℕ) : BarRegister := ⟨s.reg offsett, s.writable offsett⟩

theorem parseMem32_run (offsett : ℕ) (s : BarState) : parseMem32 offsett (s.reg offsett) s =
    .ok ((s.reg offsett &&& ~~~0xF).setWidth 64, sizeBack32 (s.writable offsett) (s.reg offsett)) s := by
  simp [parseMem32, sizeBack32, BarState.write_restore]

theorem parseMem64_run (offsett : ℕ) (s : BarState) : parseMem64 offsett (s.reg offsett) s =
    .ok (base64 (s.reg offsett) (s.reg (offsett + 4)),
      (~~~(maskBack64 (s.register offsett) (s.register (offsett + 4))) + 1).setWidth 32) s := by
  have hne : offsett ≠ offsett + 4 := by omega
  have hback := s.write_restore_pair hne 0xFFFFFFF0 0xFFFFFFFF
  simpa [parseMem64, base64, maskBack64, BarState.register] using hback

/-- What a round reports for the registers at an offset. -/
def barOf (s : BarState) (offsett : ℕ) : PciBar :=
  let bardata := s.reg offsett
  if bardata &&& 0x01 ≠ 0 then ⟨(bardata &&& ~~~0b11).setWidth 64, 0, .io, .unknown, false⟩
  else if bardata = 0 then ⟨0, 0, .unknown, .unknown, false⟩
  else if (bardata &&& 0x06) >>> 1 = 0 then
    ⟨(bardata &&& ~~~0xF).setWidth 64, (sizeBack32 (s.writable offsett) bardata).setWidth 64, .mem, .w32,
      decide (bardata &&& 0b1000 ≠ 0)⟩
  else if (bardata &&& 0x06) >>> 1 = 2 then
    ⟨base64 bardata (s.reg (offsett + 4)),
      ((~~~(maskBack64 (s.register offsett) (s.register (offsett + 4))) + 1).setWidth 32).setWidth 64, .mem, .w64,
      decide (bardata &&& 0b1000 ≠ 0)⟩
  else ⟨0, 0, .mem, .unknown, decide (bardata &&& 0b1000 ≠ 0)⟩

theorem parseBar_run (baridx : ℕ) (s : BarState) : parseBar baridx s = .ok (barOf s (baroffsett baridx)) s := by
  unfold parseBar barOf
  simp only [Prog.bind_run, pciConfigRead32_run, Outcome.andThen_ok]
  split_ifs
  · rfl
  · rfl
  · rw [Prog.bind_run, parseMem32_run, Outcome.andThen_ok]
    rfl
  · rw [Prog.bind_run, parseMem64_run, Outcome.andThen_ok]
    rfl
  · rfl

/-- The loop reports its registers one by one and leaves them as they are. -/
theorem parseBarsFrom_run (rounds baridx : ℕ) (s : BarState) : ∃ bar,
    parseBarsFrom rounds baridx s = .ok () { s with bar } ∧
    (∀ i, baridx ≤ i → i < baridx + rounds → bar i = barOf s (baroffsett i)) ∧
    ∀ i, i < baridx ∨ baridx + rounds ≤ i → bar i = s.bar i := by
  induction rounds generalizing baridx s with
  | zero => exact ⟨s.bar, rfl, fun i hle hlt => by omega, fun _ _ => rfl⟩
  | succ rounds ih =>
    obtain ⟨bar, hrun, hin, hout⟩ := ih (baridx + 1)
      { s with bar := Function.update s.bar baridx (barOf s (baroffsett baridx)) }
    refine ⟨bar, ?_, ?_, ?_⟩
    · rw [parseBarsFrom, Prog.bind_run, parseBar_run, Outcome.andThen_ok, Prog.bind_run, Prog.modify_run,
        Outcome.andThen_ok]
      exact hrun
    · intro i hle hlt
      rcases Nat.lt_or_eq_of_le hle with hgt | rfl
      · exact hin i hgt (by omega)
      · rw [hout _ (.inl (by omega))]
        simp
    · intro i hi
      rw [hout i (by omega)]
      have hne : i ≠ baridx := by omega
      simp [hne]

theorem pciConfigParseBars_run (s : BarState) : ∃ bar, pciConfigParseBars maxBars s = .ok () { s with bar } ∧
    ∀ i, i < maxBars → bar i = barOf s (baroffsett i) := by
  obtain ⟨bar, hrun, hin, -⟩ := parseBarsFrom_run maxBars 0 s
  exact ⟨bar, hrun, fun i hi => hin i (Nat.zero_le i) (by omega)⟩

/-! ## The registers of a memory BAR -/

theorem not_nibble32 : ~~~(0xF : BitVec 32) = highBits 32 4 := by decide

theorem not_nibble64 : ~~~(0xF : BitVec 64) = highBits 64 4 := by decide

theorem nibble32_getLsbD (i : ℕ) : (0xF : BitVec 32).getLsbD i = decide (i < 4) := by
  rw [show (0xF : BitVec 32) = ~~~(highBits 32 4) by decide, BitVec.getLsbD_not, getLsbD_highBits]
  by_cases hi : i < 32
  · by_cases hlow : i < 4
    · simp [hi, hlow, Nat.not_le.mpr hlow]
    · simp [hi, hlow, Nat.le_of_not_lt hlow]
  · have hlow : ¬ i < 4 := by omega
    simp [hi, hlow]

/-- The bits of a register that the code looks at are in its lowest four. -/
theorem and_of_nibble {x n m : BitVec 32} (h : x &&& 0xF = n) (hm : 0xF &&& m = m) : x &&& m = n &&& m := by
  rw [← h, BitVec.and_assoc, hm]

namespace MemBar

theorem flags_getLsbD {w : ℕ} (m : MemBar w) (i : ℕ) : m.flags.getLsbD i = (m.prefetchable && decide (i = 3)) := by
  unfold flags
  cases m.prefetchable with
  | false => simp
  | true =>
    rw [if_pos rfl, show (0b1000 : BitVec 32) = BitVec.twoPow 32 3 from rfl, BitVec.getLsbD_twoPow]
    by_cases hi : i = 3
    · simp [hi]
    · simp [hi, Ne.symm hi]

theorem addr_getLsbD {w : ℕ} (m : MemBar w) {i : ℕ} (hi : i < m.k) : m.addr.getLsbD i = false :=
  getLsbD_of_dvd m.aligned hi

section Width32
variable (m : MemBar 32)

theorem nibble : (m.addr ||| m.flags) &&& 0xF = m.flags := by
  have hk := m.four_le
  apply BitVec.eq_of_getLsbD_eq
  intro i _
  rw [BitVec.getLsbD_and, BitVec.getLsbD_or, nibble32_getLsbD, flags_getLsbD]
  by_cases hi : i < 4
  · simp [m.addr_getLsbD (show i < m.k by omega), hi]
  · have hne : i ≠ 3 := by omega
    simp [hi, hne]

theorem base : (m.addr ||| m.flags) &&& ~~~0xF = m.addr := by
  have hk := m.four_le
  apply BitVec.eq_of_getLsbD_eq
  intro i hi
  rw [BitVec.getLsbD_and, BitVec.getLsbD_or, flags_getLsbD, not_nibble32, getLsbD_highBits]
  by_cases hlow : 4 ≤ i
  · have hne : i ≠ 3 := by omega
    simp [hi, hlow, hne]
  · simp [hlow, m.addr_getLsbD (show i < m.k by omega)]

theorem sizeBack32_eq : sizeBack32 (highBits 32 m.k) (m.addr ||| m.flags) = BitVec.twoPow 32 m.k := by
  have hk := m.four_le
  rw [sizeBack32, ← not_highBits_add_one]
  congr 2
  apply BitVec.eq_of_getLsbD_eq
  intro i hi
  rw [BitVec.getLsbD_and, getLsbD_masked, not_nibble32, getLsbD_highBits, getLsbD_highBits, BitVec.getLsbD_or,
    flags_getLsbD, show (0xFFFFFFFF : BitVec 32) = BitVec.allOnes 32 from rfl, BitVec.getLsbD_allOnes]
  by_cases hhigh : m.k ≤ i
  · have hlow : 4 ≤ i := by omega
    simp [hi, hhigh, hlow]
  · by_cases hlow : 4 ≤ i
    · have hne : i ≠ 3 := by omega
      rw [m.addr_getLsbD (Nat.lt_of_not_le hhigh)]
      simp [hi, hhigh, hlow, hne]
    · simp [hi, hhigh, hlow]

end Width32

section Width64
variable (m : MemBar 64)

def low : BarRegister := ⟨m.addr.setWidth 32 ||| 0b100 ||| m.flags, (highBits 64 m.k).setWidth 32⟩

def high : BarRegister := ⟨(m.addr >>> 32).setWidth 32, (highBits 64 m.k >>> 32).setWidth 32⟩

theorem type64_getLsbD (i : ℕ) : (0b100 : BitVec 32).getLsbD i = decide (i = 2) := by
  rw [show (0b100 : BitVec 32) = BitVec.twoPow 32 2 from rfl, BitVec.getLsbD_twoPow]
  by_cases hi : i = 2
  · simp [hi]
  · simp [hi, Ne.symm hi]

theorem nibble_low : m.low.value &&& 0xF = 0b100 ||| m.flags := by
  have hk := m.four_le
  apply BitVec.eq_of_getLsbD_eq
  intro i _
  rw [low, BitVec.getLsbD_and, BitVec.getLsbD_or, BitVec.getLsbD_or, BitVec.getLsbD_or, nibble32_getLsbD, flags_getLsbD,
    type64_getLsbD, BitVec.getLsbD_setWidth]
  by_cases hi : i < 4
  · simp [m.addr_getLsbD (show i < m.k by omega), hi]
  · have hne : i ≠ 3 := by omega
    have hne2 : i ≠ 2 := by omega
    simp [hi, hne, hne2]

/-- Two halves put together by addition have the bits of both. -/
theorem halves_getLsbD (high low : BitVec 32) (i : ℕ) :
    ((high.setWidth 64 <<< 32) + low.setWidth 64 : BitVec 64).getLsbD i =
      if i < 32 then low.getLsbD i else decide (i < 64) && high.getLsbD (i - 32) := by
  have hdisjoint : (high.setWidth 64 <<< 32) &&& low.setWidth 64 = 0 := by
    apply BitVec.eq_of_getLsbD_eq
    intro j hj
    simp only [BitVec.getLsbD_and, BitVec.getLsbD_shiftLeft, BitVec.getLsbD_setWidth]
    by_cases hlow : j < 32
    · simp [hlow]
    · simp [BitVec.getLsbD_of_ge low j (Nat.le_of_not_lt hlow)]
  rw [BitVec.add_eq_or_of_and_eq_zero _ _ hdisjoint]
  simp only [BitVec.getLsbD_or, BitVec.getLsbD_shiftLeft, BitVec.getLsbD_setWidth]
  by_cases hlow : i < 32
  · have h64 : i < 64 := by omega
    simp [hlow, h64]
  · by_cases h64 : i < 64
    · have hsub : i - 32 < 64 := by omega
      simp [hlow, h64, hsub, BitVec.getLsbD_of_ge low i (Nat.le_of_not_lt hlow)]
    · simp [hlow, h64]

theorem base64_eq : base64 m.low.value m.high.value = m.addr := by
  have hk := m.four_le
  apply BitVec.eq_of_getLsbD_eq
  intro i hi
  rw [base64, BitVec.getLsbD_and, halves_getLsbD, not_nibble64, getLsbD_highBits, low, high]
  simp only [BitVec.getLsbD_or, BitVec.getLsbD_setWidth, BitVec.getLsbD_ushiftRight, type64_getLsbD, flags_getLsbD]
  by_cases hlow : 4 ≤ i
  · by_cases hhalf : i < 32
    · have hne : i ≠ 3 := by omega
      have hne2 : i ≠ 2 := by omega
      simp [hi, hlow, hhalf, hne, hne2]
    · have hsub : i - 32 < 32 := by omega
      have hadd : 32 + (i - 32) = i := by omega
      simp [hi, hlow, hhalf, hsub, hadd]
  · simp [hlow, m.addr_getLsbD (show i < m.k by omega)]

theorem maskBack64_eq : maskBack64 m.low m.high = highBits 64 m.k := by
  have hk := m.four_le
  apply BitVec.eq_of_getLsbD_eq
  intro i hi
  rw [maskBack64, halves_getLsbD, BitVec.getLsbD_and, getLsbD_masked, getLsbD_masked, not_nibble32, getLsbD_highBits,
    getLsbD_highBits, show (0xFFFFFFF0 : BitVec 32) = highBits 32 4 from rfl, getLsbD_highBits,
    show (0xFFFFFFFF : BitVec 32) = BitVec.allOnes 32 from rfl, BitVec.getLsbD_allOnes, low, high]
  simp only [BitVec.getLsbD_or, BitVec.getLsbD_setWidth, BitVec.getLsbD_ushiftRight, type64_getLsbD, flags_getLsbD,
    getLsbD_highBits]
  by_cases hhalf : i < 32
  · by_cases hhigh : m.k ≤ i
    · have hlow : 4 ≤ i := by omega
      simp [hi, hhalf, hhigh, hlow]
    · by_cases hlow : 4 ≤ i
      · have hne : i ≠ 3 := by omega
        have hne2 : i ≠ 2 := by omega
        rw [m.addr_getLsbD (Nat.lt_of_not_le hhigh)]
        simp [hi, hhalf, hhigh, hlow, hne, hne2]
      · simp [hhalf, hhigh, hlow]
  · have hsub : i - 32 < 32 := by omega
    have hadd : 32 + (i - 32) = i := by omega
    by_cases hhigh : m.k ≤ i
    · simp [hi, hhalf, hhigh, hsub, hadd]
    · rw [hadd, m.addr_getLsbD (Nat.lt_of_not_le hhigh)]
      simp [hi, hhalf, hhigh, hsub]

end Width64
end MemBar
end Borgos.Pci
