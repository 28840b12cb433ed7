import Borgos.Apic.Ioapic

/-! # Which redirection entry is programmed

The interrupt of a line is the override's global interrupt, or the line itself. Its entry belongs to the I/O APIC that
covers it, at its distance from the base there.
-/
namespace Borgos.Apic
open Borgos.Foundations
open WordStack (Word)
open Borgos.Kcore (Byte bits64Set bits64Set_low redirectionEntry redirectionEntry_low redirectionIndex)
set_option autoImplicit false

section Spec
variable {H : Type}

/-- The registers after a list of writes. -/
def regsAfter (regs : Registers) (ws : List Write) : Registers := ws.foldl (fun r w => w.apply r) regs

def Registered (s : ApicState H) (o : Ioapic) : Prop := ∃ i < ioapicMax, s.ioapics i = some o

/-- The global interrupt `g` is one of the pins. -/
def Ioapic.Covers (o : Ioapic) (g : ℕ) : Prop :=
  o.globalSysIntrBase.toNat ≤ g ∧ g < o.globalSysIntrBase.toNat + o.pincount.toNat

def globalInterrupt (s : ApicState H) (irq : Byte) : ℕ :=
  match s.irqSourceOverride irq with
  | some ovr => ovr.globalSysIntr.toNat
  | none => irq.toNat

def activeLow (s : ApicState H) (irq : Byte) : Bool :=
  match s.irqSourceOverride irq with
  | some ovr => ovr.flags &&& 0x03 ≠ 0x01
  | none => true

def levelTriggered (s : ApicState H) (irq : Byte) : Bool :=
  match s.irqSourceOverride irq with
  | some ovr => (ovr.flags >>> 2) &&& 0x03 ≠ 0x01
  | none => true

/-- The index of the lower half of the entry. -/
def Ioapic.entryOf (o : Ioapic) (g : ℕ) : ℕ := 0x10 + 2 * (g - o.globalSysIntrBase.toNat)

/-- The register with a number is there, and has a value. -/
def regAt (regs : Registers) (adr : Word) (n : ℕ) : BitVec 32 := regs adr (BitVec.ofNat 8 n)

structure EntryRight (regs : Registers) (adr : Word) (n : ℕ) (vector dest : Byte) (low level : Bool) : Prop where
  room : n + 1 < 256
  vector : (regAt regs adr n).setWidth 8 = vector
  polarity : (regAt regs adr n).getLsbD 13 = low
  trigger : (regAt regs adr n).getLsbD 15 = level
  unmasked : (regAt regs adr n).getLsbD 16 = false
  destination : (regAt regs adr (n + 1) >>> 24).setWidth 8 = dest

/-- A write to the register with a number is among the writes. -/
def Wrote (ws : List Write) (adr : Word) (n : ℕ) : Prop := ∃ w ∈ ws, w.adr = adr ∧ w.index.toNat = n

/-- What has been done from `s` to `s'` for the entry of `o`. -/
structure RoutedAt (s s' : ApicState H) (irq dest vector : Byte) (o : Ioapic) : Prop where
  entry : EntryRight s'.regs o.ioapicadr (o.entryOf (globalInterrupt s irq)) vector dest (activeLow s irq)
    (levelTriggered s irq)
  others : ∀ o', Registered s o' → ∀ i : Byte, 0x10 ≤ i.toNat →
    ¬ (o'.ioapicadr = o.ioapicadr ∧ (i.toNat = o.entryOf (globalInterrupt s irq) ∨
      i.toNat = o.entryOf (globalInterrupt s irq) + 1)) → s'.regs o'.ioapicadr i = s.regs o'.ioapicadr i
  masked : ∀ ws, s'.written = s.written ++ ws → ∀ k,
    ¬ (Wrote (ws.take k) o.ioapicadr (o.entryOf (globalInterrupt s irq)) ↔
        Wrote (ws.take k) o.ioapicadr (o.entryOf (globalInterrupt s irq) + 1)) →
      (regAt (regsAfter s.regs (ws.take k)) o.ioapicadr (o.entryOf (globalInterrupt s irq))).getLsbD 16 = true

def RoutedRight (s s' : ApicState H) (irq dest vector : Byte) : Prop :=
  ∃ o, Registered s o ∧ o.Covers (globalInterrupt s irq) ∧ RoutedAt s s' irq dest vector o

/-- The entry that the code writes is that of `o`, and it was masked. -/
def Direct (s : ApicState H) (irq : Byte) (o : Ioapic) : Prop :=
  ∃ ovr c, s.irqSourceOverride irq = some ovr ∧ s.ioapicGet ovr.irqSource = some c ∧ c.ioapicadr = o.ioapicadr ∧
    (redirectionIndex ovr.irqSource).toNat = o.entryOf (globalInterrupt s irq) ∧
    (regAt s.regs o.ioapicadr (o.entryOf (globalInterrupt s irq))).getLsbD 16 = true

/-- The last value of the lower half, and the value of the upper half. -/
def routedLow (vector dest : Byte) (polarity : Word) : BitVec 32 :=
  (bits64Set (redirectionEntry vector dest polarity) 0 16 16).setWidth 32

def routedHigh (vector dest : Byte) (polarity : Word) : BitVec 32 :=
  (redirectionEntry vector dest polarity >>> 32).setWidth 32

/-- `1` for active low. -/
def polarityOf (flags : BitVec 16) : Word := if flags &&& 0x03 = 0x03 then 1 else 0

/-- The entry of `o` was as asked for before, and the entry that the code writes, another one, keeps its value. -/
structure Already (s : ApicState H) (irq dest vector : Byte) (o : Ioapic) : Prop where
  entry : EntryRight s.regs o.ioapicadr (o.entryOf (globalInterrupt s irq)) vector dest (activeLow s irq)
    (levelTriggered s irq)
  kept : ∀ ovr c, s.irqSourceOverride irq = some ovr → s.ioapicGet ovr.irqSource = some c →
    ¬ (c.ioapicadr = o.ioapicadr ∧ (redirectionIndex ovr.irqSource).toNat = o.entryOf (globalInterrupt s irq)) ∧
    (0x10 ≤ (redirectionIndex ovr.irqSource).toNat →
      s.regs c.ioapicadr (redirectionIndex ovr.irqSource) = routedLow vector dest (polarityOf ovr.flags) ∧
      s.regs c.ioapicadr (redirectionIndex ovr.irqSource + 1) = routedHigh vector dest (polarityOf ovr.flags))

end Spec

/-! ## The values -/

section Values
variable (vector dest : Byte) (polarity : Word)

theorem routedLow_vector : (routedLow vector dest polarity).setWidth 8 = vector := by
  unfold routedLow
  rw [BitVec.setWidth_setWidth_of_le _ (by norm_num), bits64Set_low (by norm_num)]
  exact redirectionEntry_low ..

theorem routedLow_polarity : (routedLow vector dest polarity).getLsbD 13 = polarity.getLsbD 0 := by
  simp [routedLow, redirectionEntry, bits64Set]

theorem routedLow_trigger : (routedLow vector dest polarity).getLsbD 15 = true := by
  simp [routedLow, redirectionEntry, bits64Set]

theorem routedLow_unmasked : (routedLow vector dest polarity).getLsbD 16 = false := by
  simp [routedLow, redirectionEntry, bits64Set]

theorem routedHigh_destination : (routedHigh vector dest polarity >>> 24).setWidth 8 = dest := by
  ext i hi
  simp only [routedHigh, redirectionEntry, bits64Set]
  interval_cases i <;> simp

end Values

/-! ## Registers -/

theorem apply_at (w : Write) (regs : Registers) (adr : Word) (i : Byte) :
    w.apply regs adr i = if adr = w.adr ∧ i = w.index then w.data else regs adr i := by
  unfold Write.apply
  by_cases hadr : adr = w.adr
  · subst hadr
    by_cases hindex : i = w.index
    · simp [hindex]
    · simp [hindex]
  · simp [hadr]

theorem redirectionIndex_toNat (irq : Byte) : (redirectionIndex irq).toNat = (0x10 + 2 * irq.toNat) % 256 := by
  simp [redirectionIndex, BitVec.toNat_add, BitVec.toNat_mul]

theorem redirectionIndex_succ (irq : Byte) : (redirectionIndex irq + 1).toNat = (redirectionIndex irq).toNat + 1 := by
  have h := redirectionIndex_toNat irq
  rw [BitVec.toNat_add]
  have hone : (1 : Byte).toNat = 1 := rfl
  rw [hone]
  omega

section Run
variable {H : Type} {s s' : ApicState H} {irq dest vector : Byte}

/-- The writes for an override. -/
def routeWrites (c : Ioapic) (ovr : IoapicIrqOverride) (dest vector : Byte) : List Write :=
  [⟨c.ioapicadr, redirectionIndex ovr.irqSource + 1, routedHigh vector dest (polarityOf ovr.flags)⟩,
   ⟨c.ioapicadr, redirectionIndex ovr.irqSource, (redirectionEntry vector dest (polarityOf ovr.flags)).setWidth 32⟩,
   ⟨c.ioapicadr, redirectionIndex ovr.irqSource, routedLow vector dest (polarityOf ovr.flags)⟩]

theorem checkOverride_ok {flags : BitVec 16} {polarity : Word} {t : ApicState H}
    (h : (checkOverride flags : Prog (ApicState H) Word) s = .ok polarity t) :
    t = s ∧ polarity = polarityOf flags ∧ (flags &&& 0x03 = 0x03 ∨ flags &&& 0x03 = 0x01) ∧
      (flags >>> 2) &&& 0x03 = 0x03 := by
  unfold checkOverride at h
  split at h
  · cases h
  · next hpolarity =>
    split at h
    · cases h
    · next htrigger =>
      obtain ⟨rfl, rfl⟩ := Outcome.ok.inj h
      refine ⟨rfl, rfl, ?_, not_not.mp htrigger⟩
      by_cases hlow : flags &&& 0x03 = 0x03
      · exact .inl hlow
      · exact .inr (not_not.mp fun hhigh => hpolarity ⟨hlow, hhigh⟩)

theorem route_none (hovr : s.irqSourceOverride irq = none) (hrun : apicIoapicRouteIrq irq dest vector s = .ok () s') :
    s' = s := by
  unfold apicIoapicRouteIrq apicIoapicIrqoverrideGet at hrun
  simp only [Prog.bind_run, Prog.get_run, Outcome.andThen_ok, Prog.pure_run, hovr] at hrun
  exact (Outcome.ok.inj hrun).2.symm

theorem route_some {ovr : IoapicIrqOverride} (hovr : s.irqSourceOverride irq = some ovr)
    (hrun : apicIoapicRouteIrq irq dest vector s = .ok () s') :
    ∃ c, s.ioapicGet ovr.irqSource = some c ∧ s'.regs = regsAfter s.regs (routeWrites c ovr dest vector) ∧
      s'.written = s.written ++ routeWrites c ovr dest vector ∧
      (ovr.flags &&& 0x03 = 0x03 ∨ ovr.flags &&& 0x03 = 0x01) ∧ (ovr.flags >>> 2) &&& 0x03 = 0x03 := by
  unfold apicIoapicRouteIrq apicIoapicIrqoverrideGet at hrun
  simp only [Prog.bind_run, Prog.get_run, Outcome.andThen_ok, Prog.pure_run, hovr] at hrun
  obtain ⟨polarity, t, hcheck, hrun⟩ := Outcome.andThen_eq_ok.mp hrun
  obtain ⟨rfl, rfl, hflags⟩ := checkOverride_ok hcheck
  unfold apicIoapicGet at hrun
  simp only [Prog.bind_run, Prog.get_run, Outcome.andThen_ok, Prog.pure_run] at hrun
  cases hget : t.ioapicGet ovr.irqSource with
  | none =>
    rw [hget] at hrun
    cases hrun
  | some c =>
    rw [hget] at hrun
    simp only [apicIoapicWrite, Prog.bind_run, Prog.modify_run, Outcome.andThen_ok] at hrun
    obtain ⟨-, rfl⟩ := Outcome.ok.inj hrun
    refine ⟨c, rfl, rfl, ?_, hflags⟩
    simp [routeWrites, routedHigh, routedLow]

/-- The registers behind the writes. -/
theorem regsAfter_route (c : Ioapic) (ovr : IoapicIrqOverride) (regs : Registers) (adr : Word) (i : Byte) :
    regsAfter regs (routeWrites c ovr dest vector) adr i =
      if adr = c.ioapicadr ∧ i = redirectionIndex ovr.irqSource then routedLow vector dest (polarityOf ovr.flags)
      else if adr = c.ioapicadr ∧ i = redirectionIndex ovr.irqSource + 1 then
        routedHigh vector dest (polarityOf ovr.flags)
      else regs adr i := by
  simp only [regsAfter, routeWrites, List.foldl_cons, List.foldl_nil, apply_at]
  split_ifs <;> rfl

theorem redirectionIndex_succ_ne (irq : Byte) : redirectionIndex irq + 1 ≠ redirectionIndex irq := by
  intro heq
  have hnat := congrArg BitVec.toNat heq
  rw [redirectionIndex_succ] at hnat
  omega

theorem regsAfter_route_low (c : Ioapic) (ovr : IoapicIrqOverride) (regs : Registers) :
    regsAfter regs (routeWrites c ovr dest vector) c.ioapicadr (redirectionIndex ovr.irqSource) =
      routedLow vector dest (polarityOf ovr.flags) := by
  rw [regsAfter_route, if_pos ⟨rfl, rfl⟩]

theorem regsAfter_route_high (c : Ioapic) (ovr : IoapicIrqOverride) (regs : Registers) :
    regsAfter regs (routeWrites c ovr dest vector) c.ioapicadr (redirectionIndex ovr.irqSource + 1) =
      routedHigh vector dest (polarityOf ovr.flags) := by
  rw [regsAfter_route, if_neg fun h => redirectionIndex_succ_ne ovr.irqSource h.2, if_pos ⟨rfl, rfl⟩]

theorem entryOf_even (o : Ioapic) (g : ℕ) : o.entryOf g % 2 = 0 := by
  unfold Ioapic.entryOf
  omega

theorem redirectionIndex_even (irq : Byte) : (redirectionIndex irq).toNat % 2 = 0 := by
  rw [redirectionIndex_toNat]
  omega

/-- The flags that are taken ask for what the value has. -/
theorem flags_asked {ovr : IoapicIrqOverride} (hovr : s.irqSourceOverride irq = some ovr)
    (hpolarity : ovr.flags &&& 0x03 = 0x03 ∨ ovr.flags &&& 0x03 = 0x01) (htrigger : (ovr.flags >>> 2) &&& 0x03 = 0x03) :
    (polarityOf ovr.flags).getLsbD 0 = activeLow s irq ∧ true = levelTriggered s irq := by
  unfold polarityOf activeLow levelTriggered
  rw [hovr]
  dsimp only
  rw [htrigger]
  refine ⟨?_, by decide⟩
  rcases hpolarity with hlow | hhigh
  · rw [hlow]
    decide
  · rw [hhigh]
    decide

theorem wrote_cons {w : Write} {ws : List Write} {adr : Word} {n : ℕ} :
    Wrote (w :: ws) adr n ↔ (w.adr = adr ∧ w.index.toNat = n) ∨ Wrote ws adr n := by
  simp [Wrote]

theorem not_wrote_nil {adr : Word} {n : ℕ} : ¬ Wrote [] adr n := by
  simp [Wrote]

/-- Only the two halves matter. -/
theorem EntryRight.congr {regs regs' : Registers} {adr : Word} {n : ℕ} {low level : Bool}
    (h : EntryRight regs adr n vector dest low level) (hlow : regAt regs adr n = regAt regs' adr n)
    (hhigh : regAt regs adr (n + 1) = regAt regs' adr (n + 1)) : EntryRight regs' adr n vector dest low level := by
  obtain ⟨hroom, hvector, hpolarity, htrigger, hunmasked, hdest⟩ := h
  rw [hlow] at hvector hpolarity htrigger hunmasked
  rw [hhigh] at hdest
  exact ⟨hroom, hvector, hpolarity, htrigger, hunmasked, hdest⟩

section Direct
variable {o c : Ioapic} {ovr : IoapicIrqOverride} {n : ℕ}

/-- Where the entry with index `n` is the one that is written: the upper half comes first. -/
theorem half_written (hadr : c.ioapicadr = o.ioapicadr) (hindex : (redirectionIndex ovr.irqSource).toNat = n)
    (regs : Registers) :
    (∀ k, ¬ (Wrote ((routeWrites c ovr dest vector).take k) o.ioapicadr n ↔
        Wrote ((routeWrites c ovr dest vector).take k) o.ioapicadr (n + 1)) →
      (regAt (regsAfter regs ((routeWrites c ovr dest vector).take k)) o.ioapicadr n).getLsbD 16 = true) ↔
    (regAt regs o.ioapicadr n).getLsbD 16 = true := by
  have hsucc := redirectionIndex_succ ovr.irqSource
  rw [hindex] at hsucc
  have hother : ¬ (o.ioapicadr = c.ioapicadr ∧ BitVec.ofNat 8 n = redirectionIndex ovr.irqSource + 1) := by
    rintro ⟨-, h⟩
    have hnat := congrArg BitVec.toNat h
    rw [hsucc, ← hindex, BitVec.ofNat_toNat, BitVec.setWidth_eq] at hnat
    omega
  have hfirst : regAt (regsAfter regs ((routeWrites c ovr dest vector).take 1)) o.ioapicadr n =
      regAt regs o.ioapicadr n := by
    simp only [routeWrites, List.take_succ_cons, List.take_zero, regsAfter, List.foldl_cons, List.foldl_nil,
      regAt, apply_at]
    rw [if_neg hother]
  constructor
  · intro h
    rw [← hfirst]
    apply h 1
    simp only [routeWrites, List.take_succ_cons, List.take_zero, wrote_cons, hsucc, hadr]
    simp [not_wrote_nil]
  · intro h k hk
    match k with
    | 0 => exact absurd (iff_of_false not_wrote_nil not_wrote_nil) hk
    | 1 => rwa [hfirst]
    | k + 2 =>
      apply absurd _ hk
      apply iff_of_true
      · simp only [routeWrites, List.take_succ_cons, wrote_cons]
        exact .inr (.inl ⟨hadr, hindex⟩)
      · simp only [routeWrites, List.take_succ_cons, wrote_cons]
        exact .inl ⟨hadr, hsucc⟩

/-- The entry with index `n` is the one that is written: it becomes the right one. -/
theorem own_entry (hadr : c.ioapicadr = o.ioapicadr) (hindex : (redirectionIndex ovr.irqSource).toNat = n)
    {low level : Bool} (hpol : (polarityOf ovr.flags).getLsbD 0 = low) (htrig : true = level) (regs : Registers) :
    EntryRight (regsAfter regs (routeWrites c ovr dest vector)) o.ioapicadr n vector dest low level := by
  have hsucc := redirectionIndex_succ ovr.irqSource
  have hlt := (redirectionIndex ovr.irqSource + 1).isLt
  have hlow : regAt (regsAfter regs (routeWrites c ovr dest vector)) o.ioapicadr n =
      routedLow vector dest (polarityOf ovr.flags) := by
    unfold regAt
    rw [← hindex, BitVec.ofNat_toNat, BitVec.setWidth_eq, ← hadr]
    exact regsAfter_route_low c ovr regs
  have hhigh : regAt (regsAfter regs (routeWrites c ovr dest vector)) o.ioapicadr (n + 1) =
      routedHigh vector dest (polarityOf ovr.flags) := by
    unfold regAt
    rw [← hindex, ← hsucc, BitVec.ofNat_toNat, BitVec.setWidth_eq, ← hadr]
    exact regsAfter_route_high c ovr regs
  refine ⟨by omega, ?_, ?_, ?_, ?_, ?_⟩
  · rw [hlow, routedLow_vector]
  · rw [hlow, routedLow_polarity, hpol]
  · rw [hlow, routedLow_trigger, htrig]
  · rw [hlow, routedLow_unmasked]
  · rw [hhigh, routedHigh_destination]

/-- The entry with index `n` is another one: it keeps its value. -/
theorem other_entry (hn : n % 2 = 0) (hroom : n + 1 < 256)
    (hne : ¬ (c.ioapicadr = o.ioapicadr ∧ (redirectionIndex ovr.irqSource).toNat = n)) (regs : Registers) :
    regAt (regsAfter regs (routeWrites c ovr dest vector)) o.ioapicadr n = regAt regs o.ioapicadr n ∧
      regAt (regsAfter regs (routeWrites c ovr dest vector)) o.ioapicadr (n + 1) = regAt regs o.ioapicadr (n + 1) := by
  have heven := redirectionIndex_even ovr.irqSource
  have hsucc := redirectionIndex_succ ovr.irqSource
  have hlow : (BitVec.ofNat 8 n).toNat = n := by
    rw [BitVec.toNat_ofNat]
    omega
  have hhigh : (BitVec.ofNat 8 (n + 1)).toNat = n + 1 := by
    rw [BitVec.toNat_ofNat]
    omega
  unfold regAt
  rw [regsAfter_route, regsAfter_route, if_neg, if_neg, if_neg, if_neg]
  · exact ⟨rfl, rfl⟩
  · rintro ⟨hadr, h⟩
    have hnat := congrArg BitVec.toNat h
    exact hne ⟨hadr.symm, by omega⟩
  · rintro ⟨-, h⟩
    have hnat := congrArg BitVec.toNat h
    omega
  · rintro ⟨-, h⟩
    have hnat := congrArg BitVec.toNat h
    omega
  · rintro ⟨hadr, h⟩
    have hnat := congrArg BitVec.toNat h
    exact hne ⟨hadr.symm, by omega⟩

theorem not_wrote_other (hn : n % 2 = 0)
    (hne : ¬ (c.ioapicadr = o.ioapicadr ∧ (redirectionIndex ovr.irqSource).toNat = n)) (k : ℕ) :
    ¬ Wrote ((routeWrites c ovr dest vector).take k) o.ioapicadr n ∧
      ¬ Wrote ((routeWrites c ovr dest vector).take k) o.ioapicadr (n + 1) := by
  have heven := redirectionIndex_even ovr.irqSource
  have hsucc := redirectionIndex_succ ovr.irqSource
  have hall : ∀ w ∈ (routeWrites c ovr dest vector).take k, w.adr = c.ioapicadr ∧
      (w.index = redirectionIndex ovr.irqSource ∨ w.index = redirectionIndex ovr.irqSource + 1) := by
    intro w hw
    have hmem := List.mem_of_mem_take hw
    simp only [routeWrites, List.mem_cons, List.not_mem_nil, or_false] at hmem
    rcases hmem with rfl | rfl | rfl
    · exact ⟨rfl, .inr rfl⟩
    · exact ⟨rfl, .inl rfl⟩
    · exact ⟨rfl, .inl rfl⟩
  constructor
  · rintro ⟨w, hw, hadr, hindex⟩
    obtain ⟨hc, h | h⟩ := hall w hw
    · exact hne ⟨hc.symm.trans hadr, by rw [← h]; exact hindex⟩
    · rw [h] at hindex
      omega
  · rintro ⟨w, hw, hadr, hindex⟩
    obtain ⟨hc, h | h⟩ := hall w hw
    · rw [h] at hindex
      omega
    · rw [h] at hindex
      exact hne ⟨hc.symm.trans hadr, by omega⟩

end Direct

/-! ## The condition -/

theorem mem_of_ioapicGet {o : Ioapic} (h : s.ioapicGet irq = some o) : Registered s o := by
  obtain ⟨i, hi, hio⟩ := List.mem_filterMap.mp (List.mem_of_find?_eq_some h)
  exact ⟨i, List.mem_range.mp hi, hio⟩

theorem written_eq {ws ws' : List Write} (h : s'.written = s.written ++ ws) (h' : s'.written = s.written ++ ws') :
    ws' = ws := by
  rw [h] at h'
  exact (List.append_cancel_left h').symm

/-- Without an override nothing is written. -/
theorem routedAt_none (hovr : s.irqSourceOverride irq = none) (o : Ioapic) :
    RoutedAt s s irq dest vector o ↔ Direct s irq o ∨ Already s irq dest vector o := by
  constructor
  · intro h
    refine .inr ⟨h.entry, ?_⟩
    intro ovr c hsome
    rw [hovr] at hsome
    cases hsome
  · rintro (⟨ovr, c, hsome, -⟩ | h)
    · rw [hovr] at hsome
      cases hsome
    · refine ⟨h.entry, fun _ _ _ _ _ => rfl, ?_⟩
      intro ws hws k hk
      have hnil : ws = [] := written_eq (List.append_nil _).symm hws
      rw [hnil, List.take_nil] at hk
      exact absurd (iff_of_false not_wrote_nil not_wrote_nil) hk

theorem routedAt_some {ovr : IoapicIrqOverride} {c : Ioapic} (hovr : s.irqSourceOverride irq = some ovr)
    (hget : s.ioapicGet ovr.irqSource = some c) (hregs : s'.regs = regsAfter s.regs (routeWrites c ovr dest vector))
    (hwritten : s'.written = s.written ++ routeWrites c ovr dest vector)
    (hpolarity : ovr.flags &&& 0x03 = 0x03 ∨ ovr.flags &&& 0x03 = 0x01) (htrigger : (ovr.flags >>> 2) &&& 0x03 = 0x03)
    (o : Ioapic) : RoutedAt s s' irq dest vector o ↔ Direct s irq o ∨ Already s irq dest vector o := by
  have hneven := entryOf_even o (globalInterrupt s irq)
  have heven := redirectionIndex_even ovr.irqSource
  have hsucc := redirectionIndex_succ ovr.irqSource
  by_cases hown : c.ioapicadr = o.ioapicadr ∧
      (redirectionIndex ovr.irqSource).toNat = o.entryOf (globalInterrupt s irq)
  · obtain ⟨hadr, hindex⟩ := hown
    have hhalf := @half_written dest vector o c ovr _ hadr hindex s.regs
    constructor
    · intro h
      exact .inl ⟨ovr, c, hovr, hget, hadr, hindex, hhalf.mp (h.masked _ hwritten)⟩
    · rintro (⟨ovr', c', hovr', hget', -, -, hmasked⟩ | h)
      · obtain ⟨hpol, htrig⟩ := flags_asked hovr hpolarity htrigger
        refine ⟨?_, ?_, ?_⟩
        · rw [hregs]
          exact own_entry hadr hindex hpol htrig s.regs
        · intro o' _ i _ hother
          rw [hregs, regsAfter_route, if_neg, if_neg]
          · rintro ⟨ho', rfl⟩
            exact hother ⟨ho'.trans hadr, .inr (by omega)⟩
          · rintro ⟨ho', rfl⟩
            exact hother ⟨ho'.trans hadr, .inl hindex⟩
        · intro ws hws
          rw [written_eq hwritten hws]
          exact hhalf.mpr hmasked
      · exact absurd ⟨hadr, hindex⟩ (h.kept ovr c hovr hget).1
  · have hkeep : ∀ room : o.entryOf (globalInterrupt s irq) + 1 < 256,
        regAt s'.regs o.ioapicadr (o.entryOf (globalInterrupt s irq)) =
            regAt s.regs o.ioapicadr (o.entryOf (globalInterrupt s irq)) ∧
          regAt s'.regs o.ioapicadr (o.entryOf (globalInterrupt s irq) + 1) =
            regAt s.regs o.ioapicadr (o.entryOf (globalInterrupt s irq) + 1) := by
      intro hroom
      rw [hregs]
      exact other_entry hneven hroom hown s.regs
    have hsame : EntryRight s'.regs o.ioapicadr (o.entryOf (globalInterrupt s irq)) vector dest (activeLow s irq)
        (levelTriggered s irq) ↔ EntryRight s.regs o.ioapicadr (o.entryOf (globalInterrupt s irq)) vector dest
        (activeLow s irq) (levelTriggered s irq) := by
      constructor
      · intro h
        exact h.congr (hkeep h.room).1 (hkeep h.room).2
      · intro h
        exact h.congr (hkeep h.room).1.symm (hkeep h.room).2.symm
    constructor
    · intro h
      refine .inr ⟨hsame.mp h.entry, ?_⟩
      intro ovr' c' hovr' hget'
      obtain rfl := Option.some.inj (hovr.symm.trans hovr')
      obtain rfl := Option.some.inj (hget.symm.trans hget')
      refine ⟨hown, ?_⟩
      intro h16
      have hreg := mem_of_ioapicGet hget
      have hfirst := h.others c hreg (redirectionIndex ovr.irqSource) h16 (by
        rintro ⟨hadr, hi | hi⟩
        · exact hown ⟨hadr, hi⟩
        · omega)
      have hsecond := h.others c hreg (redirectionIndex ovr.irqSource + 1) (by omega) (by
        rintro ⟨hadr, hi | hi⟩
        · omega
        · exact hown ⟨hadr, by omega⟩)
      rw [hregs, regsAfter_route_low] at hfirst
      rw [hregs, regsAfter_route_high] at hsecond
      exact ⟨hfirst.symm, hsecond.symm⟩
    · rintro (⟨ovr', c', hovr', hget', hadr, hindex, -⟩ | h)
      · obtain rfl := Option.some.inj (hovr.symm.trans hovr')
        obtain rfl := Option.some.inj (hget.symm.trans hget')
        exact absurd ⟨hadr, hindex⟩ hown
      · refine ⟨hsame.mpr h.entry, ?_, ?_⟩
        · intro o' _ i h16 _
          obtain ⟨-, hkept⟩ := h.kept ovr c hovr hget
          rw [hregs, regsAfter_route]
          split
          · next hfirst =>
            rw [hfirst.1, hfirst.2]
            rw [hfirst.2] at h16
            exact (hkept h16).1.symm
          · split
            · next hsecond =>
              rw [hsecond.1, hsecond.2]
              rw [hsecond.2] at h16
              exact (hkept (by omega)).2.symm
            · rfl
        · intro ws hws k hk
          rw [written_eq hwritten hws] at hk
          obtain ⟨h1, h2⟩ := @not_wrote_other dest vector o c ovr _ hneven hown k
          exact absurd (iff_of_false h1 h2) hk

/-- The right entry is programmed exactly when the code's own entry is the right one and was masked, or nothing had to
be done and nothing is. -/
theorem route_right_iff {H : Type} (s s' : ApicState H) (irq dest vector : Byte)
    (hrun : apicIoapicRouteIrq irq dest vector s = .ok () s') :
    RoutedRight s s' irq dest vector ↔ ∃ o, Registered s o ∧ o.Covers (globalInterrupt s irq) ∧
      (Direct s irq o ∨ Already s irq dest vector o) := by
  have hat : ∀ o, RoutedAt s s' irq dest vector o ↔ Direct s irq o ∨ Already s irq dest vector o := by
    intro o
    cases hovr : s.irqSourceOverride irq with
    | none =>
      rw [route_none hovr hrun]
      exact routedAt_none hovr o
    | some ovr =>
      obtain ⟨c, hget, hregs, hwritten, hpolarity, htrigger⟩ := route_some hovr hrun
      exact routedAt_some hovr hget hregs hwritten hpolarity htrigger o
  unfold RoutedRight
  simp only [hat]

end Run

/-- I/O APICs of 24 pins after a reset: all entries are masked. -/
def resetRegs : Registers := fun _ i => if i = 1 then 0x00170020 else 0x10000

def noIoapics : ApicState Unit := ⟨fun _ => none, 0, fun _ => none, resetRegs, [], ()⟩

/-- One I/O APIC with the base 0, and line 11 overridden as active high. -/
def registerQ35 : Prog (ApicState Unit) Unit := do
  apicIoapicAdd some 0 0xfec00000 0
  apicIoapicIrqoverrideAdd some 0 11 0xd 11

def q35Ioapic : Ioapic := ⟨0, 0xfec00000, 0, 0, 0x20, 0, 24⟩

theorem route_right_iff_line_eleven : ∃ s s', registerQ35 noIoapics = .ok () s ∧
    apicIoapicRouteIrq 11 0 43 s = .ok () s' ∧ RoutedRight s s' 11 0 43 := by
  obtain ⟨s, hs, s', hrun, hreg, hregs, hovr, hget⟩ : ∃ s, registerQ35 noIoapics = .ok () s ∧
      ∃ s', apicIoapicRouteIrq 11 0 43 s = .ok () s' ∧ s.ioapics 0 = some q35Ioapic ∧ s.regs = resetRegs ∧
        s.irqSourceOverride 11 = some ⟨0, 11, 0xd, 11⟩ ∧ s.ioapicGet 11 = some q35Ioapic :=
    ⟨_, rfl, _, rfl, rfl, rfl, rfl, rfl⟩
  have hg : globalInterrupt s 11 = 11 := by
    unfold globalInterrupt
    rw [hovr]
    rfl
  refine ⟨s, s', hs, hrun, (route_right_iff s s' 11 0 43 hrun).mpr ⟨q35Ioapic, ⟨0, by decide, hreg⟩, ?_, .inl ?_⟩⟩
  · rw [hg]
    exact ⟨by decide, by decide⟩
  · refine ⟨_, _, hovr, hget, rfl, ?_, ?_⟩
    · rw [hg]
      decide
    · rw [hg, hregs]
      decide

/-- Line 4 has no override: its entry stays masked. -/
theorem line_four_not_routed : ∃ s s', registerQ35 noIoapics = .ok () s ∧
    apicIoapicRouteIrq 4 0 36 s = .ok () s' ∧ ¬ RoutedRight s s' 4 0 36 := by
  obtain ⟨s, hs, s', hrun, hregs⟩ : ∃ s, registerQ35 noIoapics = .ok () s ∧
      ∃ s', apicIoapicRouteIrq 4 0 36 s = .ok () s' ∧ s'.regs = resetRegs := ⟨_, rfl, _, rfl, rfl⟩
  refine ⟨s, s', hs, hrun, ?_⟩
  rintro ⟨o, -, -, h⟩
  have hunmasked := h.entry.unmasked
  have hroom := h.entry.room
  have hindex : (BitVec.ofNat 8 (o.entryOf (globalInterrupt s 4))).toNat = o.entryOf (globalInterrupt s 4) := by
    rw [BitVec.toNat_ofNat]
    omega
  have hone : BitVec.ofNat 8 (o.entryOf (globalInterrupt s 4)) ≠ 1 := by
    intro hc
    rw [hc] at hindex
    unfold Ioapic.entryOf at hindex
    have hval : (1 : Byte).toNat = 1 := rfl
    omega
  unfold regAt at hunmasked
  rw [hregs, resetRegs, if_neg hone] at hunmasked
  exact absurd hunmasked (by decide)

end Borgos.Apic
