import Borgos.Mmu.DeviceRegion
import Borgos.Pci.BarLaws

/-! # The BARs that are reported, and what `pci_iomap` makes of them -/
namespace Borgos.Pci
open Borgos.Foundations Borgos.Mmu
open Borgos.Mem (p2v wordSize pagesize)
set_option autoImplicit false

/-! ## The property -/

/-- Frame `f` holds a byte of `[addr, addr + size)`. -/
def InRegion (addr size f : ℕ) : Prop := addr < (f + 1) * pagesize ∧ f * pagesize < addr + size

/-- `pci_iomap` maps the pages of `[addr, addr + size)` into the direct map of the kernel's table `k`, and no others. -/
def IomapExact (pcibar : PciBar) (addr size : ℕ) : Prop :=
  ∀ (ρ : Type) (alloc : Prog ρ ℕ) (Good : ρ → Set ℕ → Prop) (k : ℕ) (s s' : Tables ρ) (adr : ℕ), FreshPages alloc Good →
    s.kernelpagetable = tablePtr k →
    (∃ roots place used, k ∈ roots ∧ Space s.mem roots place used ∧ Good s.phys used) →
    pciIomap alloc pcibar s = .ok adr s' →
      adr = p2v addr ∧
      (∀ f v, InRegion addr size f → vpn v = vpn (p2v (f * pagesize)) →
        hardwareWalk s'.mem k v = some ⟨f, pteflagsOf mmuDevice⟩) ∧
      ∀ v, (∀ f, InRegion addr size f → vpn v ≠ vpn (p2v (f * pagesize))) →
        hardwareWalk s'.mem k v = hardwareWalk s.mem k v

structure Reports {w : ℕ} (bar : PciBar) (m : MemBar w) (width : BarWidth) : Prop where
  addr : bar.addr.toNat = m.addr.toNat
  size : bar.size.toNat = 2 ^ m.k
  bartype : bar.bartype = .mem
  barwidth : bar.barwidth = width
  prefetchable : bar.prefetchable = m.prefetchable
  iomap : IomapExact bar m.addr.toNat (2 ^ m.k)

/-- What is to be reported for the BAR with its first register at index `i`. -/
def Bar.Right (bar : ℕ → PciBar) (i : ℕ) : Bar → Prop
  | .unused => True
  | .io _ _ _ => True
  | .mem32 m => m.addr ≠ 0 → Reports (bar i) m .w32
  | .mem64 m => (m.addr ≠ 0 → Reports (bar i) m .w64) ∧ (bar (i + 1)).bartype = .unknown

def BarsRight (c : Type0Space) : Prop :=
  ∃ s', pciConfigParseBars maxBars c.state = .ok () s' ∧
    (∀ i, i < maxBars → s'.reg (baroffsett i) = c.state.reg (baroffsett i)) ∧
    ∀ i b, (i, b) ∈ barsFrom 0 c.bars → b.Right s'.bar i

/-! ## Where the registers of a BAR are -/

theorem exists_mem_barsFrom {j : ℕ} {bars : List Bar} {b : Bar} (h : b ∈ bars) : ∃ i, (i, b) ∈ barsFrom j bars := by
  induction bars generalizing j with
  | nil => exact absurd h List.not_mem_nil
  | cons b' bars ih =>
    rcases List.mem_cons.mp h with rfl | h
    · exact ⟨j, List.mem_cons_self⟩
    · obtain ⟨i, hi⟩ := @ih (j + b'.registers.length) h
      exact ⟨i, List.mem_cons_of_mem _ hi⟩

theorem barsFrom_registers {i j : ℕ} {bars : List Bar} {b : Bar} (h : (i, b) ∈ barsFrom j bars) :
    b ∈ bars ∧ j ≤ i ∧ ∀ n r, b.registers[n]? = some r → (bars.flatMap Bar.registers)[i - j + n]? = some r := by
  induction bars generalizing j with
  | nil => exact absurd h List.not_mem_nil
  | cons b' bars ih =>
    rw [barsFrom] at h
    rcases List.mem_cons.mp h with heq | h
    · obtain ⟨rfl, rfl⟩ := Prod.mk.inj heq
      refine ⟨List.mem_cons_self, le_rfl, fun n r hr => ?_⟩
      rw [List.flatMap_cons, Nat.sub_self, Nat.zero_add,
        List.getElem?_append_left (List.getElem?_eq_some_iff.mp hr).1, hr]
    · obtain ⟨hmem, hle, hget⟩ := ih h
      refine ⟨List.mem_cons_of_mem _ hmem, by omega, fun n r hr => ?_⟩
      have hoffset : i - j + n - b'.registers.length = i - (j + b'.registers.length) + n := by omega
      rw [List.flatMap_cons, List.getElem?_append_right (by omega), hoffset, hget n r hr]

theorem Type0Space.register {c : Type0Space} {i n : ℕ} {b : Bar} {r : BarRegister} (h : (i, b) ∈ barsFrom 0 c.bars)
    (hr : b.registers[n]? = some r) : i + n < maxBars ∧ c.state.register (baroffsett (i + n)) = r := by
  obtain ⟨-, -, hget⟩ := barsFrom_registers h
  have hsome := hget n r hr
  rw [Nat.sub_zero] at hsome
  have hlt := (List.getElem?_eq_some_iff.mp hsome).1
  rw [c.count] at hlt
  obtain ⟨hvalue, hwritable⟩ := c.holds _ _ hsome
  exact ⟨hlt, by rw [BarState.register, hvalue, hwritable]⟩

/-! ## What is reported for a memory BAR -/

section Report
variable {s : BarState} {offsett : ℕ}

theorem barOf_unknown_iff (s : BarState) (offsett : ℕ) : (barOf s offsett).bartype = .unknown ↔ s.reg offsett = 0 := by
  unfold barOf
  by_cases hzero : s.reg offsett = 0
  · simp [hzero]
  · simp only [hzero, if_false, iff_false]
    split_ifs <;> simp

theorem prefetchable_flags {w : ℕ} (m : MemBar w) : decide (m.flags &&& 0b1000 ≠ 0) = m.prefetchable := by
  unfold MemBar.flags
  cases m.prefetchable <;> decide

theorem barOf_mem32 (m : MemBar 32) (h : s.register offsett = ⟨m.addr ||| m.flags, highBits 32 m.k⟩)
    (hne : m.addr ≠ 0) :
    barOf s offsett = ⟨m.addr.setWidth 64, (BitVec.twoPow 32 m.k).setWidth 64, .mem, .w32, m.prefetchable⟩ := by
  obtain ⟨hvalue, hwritable⟩ := BarRegister.mk.inj h
  have hnibble := m.nibble
  have hone : (m.addr ||| m.flags) &&& 0x01 = 0 := by
    rw [and_of_nibble hnibble (by decide), MemBar.flags]
    cases m.prefetchable <;> decide
  have hzero : m.addr ||| m.flags ≠ 0 := by
    intro hc
    apply hne
    rw [← m.base, hc]
    decide
  have htype : ((m.addr ||| m.flags) &&& 0x06) >>> 1 = 0 := by
    rw [and_of_nibble hnibble (by decide), MemBar.flags]
    cases m.prefetchable <;> decide
  have hprefetch : decide ((m.addr ||| m.flags) &&& 0b1000 ≠ 0) = m.prefetchable := by
    rw [and_of_nibble hnibble (by decide)]
    exact prefetchable_flags m
  unfold barOf
  rw [hvalue, hwritable]
  dsimp only
  rw [if_neg (not_not.mpr hone), if_neg hzero, if_pos htype, m.base, m.sizeBack32_eq, hprefetch]

theorem barOf_mem64 (m : MemBar 64) (hlow : s.register offsett = m.low) (hhigh : s.register (offsett + 4) = m.high) :
    barOf s offsett =
      ⟨m.addr, ((BitVec.twoPow 64 m.k).setWidth 32).setWidth 64, .mem, .w64, m.prefetchable⟩ := by
  have hnibble := m.nibble_low
  have hvalue : s.reg offsett = m.low.value := congrArg BarRegister.value hlow
  have hupper : s.reg (offsett + 4) = m.high.value := congrArg BarRegister.value hhigh
  have hone : m.low.value &&& 0x01 = 0 := by
    rw [and_of_nibble hnibble (by decide), MemBar.flags]
    cases m.prefetchable <;> decide
  have htype : (m.low.value &&& 0x06) >>> 1 = 2 := by
    rw [and_of_nibble hnibble (by decide), MemBar.flags]
    cases m.prefetchable <;> decide
  have hzero : m.low.value ≠ 0 := by
    intro hc
    rw [hc] at htype
    exact absurd htype (by decide)
  have hprefetch : decide (m.low.value &&& 0b1000 ≠ 0) = m.prefetchable := by
    rw [and_of_nibble hnibble (by decide), MemBar.flags]
    cases m.prefetchable <;> decide
  unfold barOf
  rw [hvalue, hlow, hhigh, hupper]
  dsimp only
  rw [if_neg (not_not.mpr hone), if_neg hzero, htype, if_neg (by decide), if_pos rfl, m.base64_eq, m.maskBack64_eq,
    not_highBits_add_one, hprefetch]

end Report

/-! ## What is mapped -/

/-- An area that is aligned to its size and starts below `2 ^ n` ends there at the latest. -/
theorem MemBar.end_le {w n : ℕ} (m : MemBar w) (hk : m.k ≤ n) (hlt : m.addr.toNat < 2 ^ n) :
    m.addr.toNat + 2 ^ m.k ≤ 2 ^ n := by
  obtain ⟨c, hc⟩ := m.aligned
  obtain ⟨d, hd⟩ := pow_dvd_pow 2 hk
  rw [hc, hd] at hlt ⊢
  have hcd : c < d := Nat.lt_of_mul_lt_mul_left hlt
  calc 2 ^ m.k * c + 2 ^ m.k = 2 ^ m.k * (c + 1) := by ring
    _ ≤ 2 ^ m.k * d := Nat.mul_le_mul_left _ hcd

theorem MemBar.k_lt {w n : ℕ} (m : MemBar w) (hne : m.addr ≠ 0) (hlt : m.addr.toNat < 2 ^ n) : m.k < n := by
  have hpos : 0 < m.addr.toNat := by
    rw [Nat.pos_iff_ne_zero]
    intro hc
    exact hne (BitVec.eq_of_toNat_eq hc)
  have hle := Nat.le_of_dvd hpos m.aligned
  exact (Nat.pow_lt_pow_iff_right (by decide)).mp (hle.trans_lt hlt)

theorem iomapExact {bar : PciBar} {a size : ℕ} (haddr : bar.addr.toNat = a) (hsize : bar.size.toNat = size)
    (hpos : 0 < size) (hlow : a + size ≤ 2 ^ 43) : IomapExact bar a size := by
  intro ρ alloc Good k s s' adr hA hker ⟨roots, place, used, hk, hsp, hg⟩ hrun
  have hend : (bar.addr + bar.size - 1).toNat = a + size - 1 := by
    have hone : (1 : BitVec 64).toNat = 1 := rfl
    rw [BitVec.toNat_sub, BitVec.toNat_add, haddr, hsize, hone]
    omega
  obtain ⟨_, t, hregion, hret⟩ := Prog.bind_ok.mp hrun
  obtain ⟨hadr, hs'⟩ := Outcome.ok.inj hret
  rw [haddr] at hregion hadr
  rw [hend] at hregion
  rw [hs'] at hregion
  have hloop := device_region_loop (Nat.div_le_div_right (by omega)) (by omega) hregion
  have hlast : (a + size - 1) / pagesize < 2 ^ 31 := by
    unfold pagesize
    omega
  have hframes : ∀ f, InRegion a size f ↔ a / pagesize ≤ f ∧ f ≤ (a + size - 1) / pagesize := by
    intro f
    unfold InRegion pagesize
    omega
  refine ⟨hadr.symm, ?_, ?_⟩
  · intro f v hf hv
    exact device_frames_mapped hA hk hker ⟨place, used, hsp, hg⟩ hlast hloop ((hframes f).mp hf) hv
  · intro v hv
    exact device_frames_only hA hk hker ⟨place, used, hsp, hg⟩ hlast hloop fun f h1 h2 =>
      hv f ((hframes f).mpr ⟨h1, h2⟩)

/-! ## Which BARs are right -/

theorem reports_mem32 {s : BarState} {offsett : ℕ} (m : MemBar 32)
    (h : s.register offsett = ⟨m.addr ||| m.flags, highBits 32 m.k⟩) (hne : m.addr ≠ 0) :
    Reports (barOf s offsett) m .w32 := by
  have hk := m.lt
  have hpow : 2 ^ m.k < 2 ^ 32 := Nat.pow_lt_pow_right (by decide) hk
  have haddr : (m.addr.setWidth 64).toNat = m.addr.toNat := by
    rw [BitVec.toNat_setWidth]
    exact Nat.mod_eq_of_lt (by have := m.addr.isLt; omega)
  have hsize : ((BitVec.twoPow 32 m.k).setWidth 64).toNat = 2 ^ m.k := by
    rw [BitVec.toNat_setWidth, BitVec.toNat_twoPow, Nat.mod_eq_of_lt hpow, Nat.mod_eq_of_lt (hpow.trans (by decide))]
  have hend := m.end_le (le_of_lt hk) m.addr.isLt
  rw [barOf_mem32 m h hne]
  exact ⟨haddr, hsize, rfl, rfl, rfl, iomapExact haddr hsize (by positivity) (by omega)⟩

theorem reports_mem64 {s : BarState} {offsett : ℕ} (m : MemBar 64) (hlow : s.register offsett = m.low)
    (hhigh : s.register (offsett + 4) = m.high) (hne : m.addr ≠ 0) (hlt : m.addr.toNat < 2 ^ 32) :
    Reports (barOf s offsett) m .w64 := by
  have hk := m.k_lt hne hlt
  have hpow : 2 ^ m.k < 2 ^ 32 := Nat.pow_lt_pow_right (by decide) hk
  have hsize : (((BitVec.twoPow 64 m.k).setWidth 32).setWidth 64).toNat = 2 ^ m.k := by
    have hpow64 : 2 ^ m.k < 2 ^ 64 := hpow.trans (by decide)
    rw [BitVec.toNat_setWidth, BitVec.toNat_setWidth, BitVec.toNat_twoPow, Nat.mod_eq_of_lt hpow64,
      Nat.mod_eq_of_lt hpow, Nat.mod_eq_of_lt hpow64]
  have hend := m.end_le (le_of_lt hk) hlt
  rw [barOf_mem64 m hlow hhigh]
  exact ⟨rfl, hsize, rfl, rfl, rfl, iomapExact rfl hsize (by positivity) (by omega)⟩

/-- The upper register of a BAR is 0 where its address fits in the lower one. -/
theorem MemBar.high_zero_iff (m : MemBar 64) : m.high.value = 0 ↔ m.addr.toNat < 2 ^ 32 := by
  have hlt := m.addr.isLt
  have hzero : (0 : BitVec 32).toNat = 0 := rfl
  rw [← BitVec.toNat_inj, high, BitVec.toNat_setWidth, BitVec.toNat_ushiftRight, Nat.shiftRight_eq_div_pow, hzero]
  omega

theorem bars_right_iff (c : Type0Space) : BarsRight c ↔ ∀ m, .mem64 m ∈ c.bars → m.addr.toNat < 2 ^ 32 := by
  obtain ⟨bar, hrun, hbar⟩ := pciConfigParseBars_run c.state
  constructor
  · rintro ⟨s', hrun', -, hright⟩ m hm
    obtain ⟨-, rfl⟩ := Outcome.ok.inj (hrun.symm.trans hrun')
    obtain ⟨i, hi⟩ := @exists_mem_barsFrom 0 _ _ hm
    obtain ⟨hlt, hhigh⟩ := c.register hi (show (Bar.mem64 m).registers[1]? = some m.high from rfl)
    have hunknown : (bar (i + 1)).bartype = .unknown := (hright i _ hi).2
    rw [hbar _ hlt, barOf_unknown_iff] at hunknown
    rw [← m.high_zero_iff, ← congrArg BarRegister.value hhigh]
    exact hunknown
  · intro hall
    refine ⟨_, hrun, fun _ _ => rfl, fun i b hi => ?_⟩
    show b.Right bar i
    cases b with
    | unused => trivial
    | io value writable hio => trivial
    | mem32 m =>
      obtain ⟨hlt, hreg⟩ := c.register hi (show (Bar.mem32 m).registers[0]? = some _ from rfl)
      intro hne
      rw [hbar i hlt]
      exact reports_mem32 m hreg hne
    | mem64 m =>
      obtain ⟨hlt, hlow⟩ := c.register hi (show (Bar.mem64 m).registers[0]? = some m.low from rfl)
      obtain ⟨hlt', hhigh⟩ := c.register hi (show (Bar.mem64 m).registers[1]? = some m.high from rfl)
      have hbelow := hall m (barsFrom_registers hi).1
      refine ⟨fun hne => ?_, ?_⟩
      · rw [hbar i hlt]
        have hnext : baroffsett (i + 1) = baroffsett i + 4 := by
          unfold baroffsett
          omega
        exact reports_mem64 m hlow (hnext ▸ hhigh) hne hbelow
      · rw [hbar _ hlt', barOf_unknown_iff]
        exact (congrArg BarRegister.value hhigh).trans (m.high_zero_iff.mpr hbelow)

/-- A BAR of 16 KiB at 32 GiB, as firmware places it for a controller, and no others. -/
def highBar : MemBar 64 := ⟨14, 0x800000000, false, by decide, by decide, by decide⟩

def highSpace : Type0Space where
  state := {
    reg := fun o => if o = 0x10 then 0x4 else if o = 0x14 then 0x8 else 0
    writable := fun o => if o = 0x10 then 0xFFFFC000 else if o = 0x14 then 0xFFFFFFFF else 0
    bar := fun _ => ⟨0, 0, .unknown, .unknown, false⟩ }
  bars := [.mem64 highBar, .unused, .unused, .unused, .unused]
  count := by decide
  holds := by
    intro i r hr
    have hi : i < 6 := (List.getElem?_eq_some_iff.mp hr).1
    interval_cases i <;> (obtain rfl := Option.some.inj hr; decide)

/-- The upper half is reported as a memory BAR. -/
theorem upper_half_reported : ¬ BarsRight highSpace := by
  rintro ⟨s', hrun, -, hright⟩
  obtain ⟨bar, hrun', hbar⟩ := pciConfigParseBars_run highSpace.state
  obtain ⟨-, rfl⟩ := Outcome.ok.inj (hrun'.symm.trans hrun)
  have hunknown : (bar 1).bartype = .unknown := (hright 0 (.mem64 highBar) List.mem_cons_self).2
  rw [hbar 1 (by decide)] at hunknown
  revert hunknown
  decide

end Borgos.Pci
