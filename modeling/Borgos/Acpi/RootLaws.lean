import Borgos.Acpi.Tables
import Borgos.Boot.RelocationLaws
import Borgos.Foundations.Monotone

/-! # Which root table `acpi_tables_init` chooses

The choice as a function of the two addresses and the memory, and what is left in `acpi_info` for it.
-/
namespace Borgos.Acpi
open Borgos.Foundations Borgos.Mem Borgos.Mmu FlatMemory
open Borgos.Boot (Byte Memory u32 u64)
set_option autoImplicit false

/-- The structure that is used, and whether its XSDT address is. -/
def chosen (mem : Memory) (uefiXsdpAdr uefiRsdpAdr : ℕ) : Option (ℕ × Bool) :=
  if uefiXsdpAdr ≠ 0 then
    if p2v uefiXsdpAdr = 0 then none
    else if rsdpValid mem (p2v uefiXsdpAdr) then some (p2v uefiXsdpAdr, true)
    else if uefiRsdpAdr ≠ 0 ∧ rsdpValid mem (p2v uefiRsdpAdr) then some (p2v uefiRsdpAdr, false)
    else none
  else if uefiRsdpAdr ≠ 0 then
    if p2v uefiRsdpAdr ≠ 0 ∧ rsdpValid mem (p2v uefiRsdpAdr) then some (p2v uefiRsdpAdr, false) else none
  else (scanBios mem).bind fun r => if rsdpValid mem r then some (r, false) else none

/-- The address of the root table. -/
def rootAdr (mem : Memory) (r : ℕ) (extended : Bool) : ℕ :=
  if extended then p2v (xsdtAddress mem r) else p2v (rsdtAddress mem r)

theorem rootAdr_true (mem : Memory) (r : ℕ) : rootAdr mem r true = p2v (xsdtAddress mem r) := if_pos rfl

theorem rootAdr_false (mem : Memory) (r : ℕ) : rootAdr mem r false = p2v (rsdtAddress mem r) := if_neg (by decide)

section Runs
variable {ρ : Type} {mem : Memory} {alloc : Prog ρ ℕ} {memmap : List MemmapEntry} {t : Tables ρ} {x r : ℕ}
  {i : AcpiInfo}

theorem scanBios_ne_zero {a : ℕ} (h : scanBios mem = some a) : a ≠ 0 := by
  unfold scanBios at h
  have hmem := List.mem_of_find?_eq_some h
  obtain ⟨i, -, rfl⟩ := List.mem_map.mp hmem
  have hstart : p2v 0xE0000 ≠ 0 := by decide
  omega

/-- The mapping of the root table, and the entries behind its header. -/
def finish (mem : Memory) (alloc : Prog ρ ℕ) (memmap : List MemmapEntry) : Prog (AcpiState ρ) Unit := do
  let s ← Prog.get
  mapAcpiMem alloc memmap (v2p s.acpiInfo.sdtadr)
  countEntries mem

section Functions

theorem findRsdp_xsdp (h : i.uefiXsdpAdr ≠ 0) :
    (acpiFindRsdp mem : Prog (AcpiState ρ) ℕ) ⟨t, i⟩ = .ok (p2v i.uefiXsdpAdr) ⟨t, { i with version := 2 }⟩ := by
  unfold acpiFindRsdp
  rw [Prog.bind_run, Prog.get_run, Outcome.andThen_ok]
  dsimp only
  rw [if_pos h]
  rfl

theorem findRsdp_rsdp (hx : i.uefiXsdpAdr = 0) (h : i.uefiRsdpAdr ≠ 0) :
    (acpiFindRsdp mem : Prog (AcpiState ρ) ℕ) ⟨t, i⟩ = .ok (p2v i.uefiRsdpAdr) ⟨t, { i with version := 1 }⟩ := by
  unfold acpiFindRsdp
  rw [Prog.bind_run, Prog.get_run, Outcome.andThen_ok]
  dsimp only
  rw [if_neg (not_not.mpr hx), if_pos h]
  rfl

theorem findRsdp_bios (hx : i.uefiXsdpAdr = 0) (hr : i.uefiRsdpAdr = 0) {a : ℕ} (h : scanBios mem = some a) :
    (acpiFindRsdp mem : Prog (AcpiState ρ) ℕ) ⟨t, i⟩ = .ok a ⟨t, { i with version := 0 }⟩ := by
  unfold acpiFindRsdp
  rw [Prog.bind_run, Prog.get_run, Outcome.andThen_ok]
  dsimp only
  rw [if_neg (not_not.mpr hx), if_neg (not_not.mpr hr), h]
  rfl

theorem findRsdp_none (hx : i.uefiXsdpAdr = 0) (hr : i.uefiRsdpAdr = 0) (h : scanBios mem = none) :
    (acpiFindRsdp mem : Prog (AcpiState ρ) ℕ) ⟨t, i⟩ = .ok 0 ⟨t, i⟩ := by
  unfold acpiFindRsdp
  rw [Prog.bind_run, Prog.get_run, Outcome.andThen_ok]
  dsimp only
  rw [if_neg (not_not.mpr hx), if_neg (not_not.mpr hr), h]
  rfl

theorem tryXsdp_other {rsdp : ℕ} (h : i.version ≠ 2) :
    (tryXsdp mem rsdp : Prog (AcpiState ρ) ℕ) ⟨t, i⟩ = .ok rsdp ⟨t, i⟩ := by
  unfold tryXsdp
  rw [Prog.bind_run, Prog.get_run, Outcome.andThen_ok]
  dsimp only
  rw [if_neg h]
  rfl

theorem tryXsdp_valid {rsdp : ℕ} (h : i.version = 2) (hvalid : rsdpValid mem rsdp = true) :
    (tryXsdp mem rsdp : Prog (AcpiState ρ) ℕ) ⟨t, i⟩ =
      .ok rsdp ⟨t, { i with version := 2, sdtptrsize := 8, sdtadr := p2v (xsdtAddress mem rsdp) }⟩ := by
  unfold tryXsdp
  rw [Prog.bind_run, Prog.get_run, Outcome.andThen_ok]
  dsimp only
  rw [if_pos h, if_neg (not_not.mpr hvalid)]
  rfl

theorem tryXsdp_revert {rsdp : ℕ} (h : i.version = 2) (hvalid : rsdpValid mem rsdp ≠ true) (hr : i.uefiRsdpAdr ≠ 0) :
    (tryXsdp mem rsdp : Prog (AcpiState ρ) ℕ) ⟨t, i⟩ = .ok (p2v i.uefiRsdpAdr) ⟨t, { i with version := 1 }⟩ := by
  unfold tryXsdp
  rw [Prog.bind_run, Prog.get_run, Outcome.andThen_ok]
  dsimp only
  rw [if_pos h, if_pos hvalid, if_pos hr]
  rfl

theorem tryXsdp_invalid {rsdp : ℕ} (h : i.version = 2) (hvalid : rsdpValid mem rsdp ≠ true) (hr : i.uefiRsdpAdr = 0) :
    (tryXsdp mem rsdp : Prog (AcpiState ρ) ℕ) ⟨t, i⟩ = .ok rsdp ⟨t, i⟩ := by
  unfold tryXsdp
  rw [Prog.bind_run, Prog.get_run, Outcome.andThen_ok]
  dsimp only
  rw [if_pos h, if_pos hvalid, if_neg (not_not.mpr hr)]
  rfl

theorem useRsdp_other {version rsdp : ℕ} {msg : String} (h : i.version ≠ version) :
    (useRsdp mem version rsdp msg : Prog (AcpiState ρ) Unit) ⟨t, i⟩ = .ok () ⟨t, i⟩ := by
  unfold useRsdp
  rw [Prog.bind_run, Prog.get_run, Outcome.andThen_ok]
  dsimp only
  rw [if_neg h]
  rfl

theorem useRsdp_valid {version rsdp : ℕ} {msg : String} (h : i.version = version) (hvalid : rsdpValid mem rsdp = true) :
    (useRsdp mem version rsdp msg : Prog (AcpiState ρ) Unit) ⟨t, i⟩ =
      .ok () ⟨t, { i with version := 1, sdtptrsize := 4, sdtadr := p2v (rsdtAddress mem rsdp) }⟩ := by
  unfold useRsdp
  rw [Prog.bind_run, Prog.get_run, Outcome.andThen_ok]
  dsimp only
  rw [if_pos h, if_neg (not_not.mpr hvalid)]
  rfl

theorem useRsdp_invalid {version rsdp : ℕ} {msg : String} (h : i.version = version)
    (hvalid : rsdpValid mem rsdp ≠ true) :
    (useRsdp mem version rsdp msg : Prog (AcpiState ρ) Unit) ⟨t, i⟩ = .panic msg ⟨t, i⟩ := by
  unfold useRsdp
  rw [Prog.bind_run, Prog.get_run, Outcome.andThen_ok]
  dsimp only
  rw [if_pos h, if_pos hvalid]
  rfl

/-- The phases one after the other. -/
theorem selectRoot_of {rsdp rsdp' : ℕ} {i₁ i₂ i₃ i₄ : AcpiInfo} (hne : rsdp ≠ 0)
    (hfind : (acpiFindRsdp mem : Prog (AcpiState ρ) ℕ) ⟨t, i⟩ = .ok rsdp ⟨t, i₁⟩)
    (htry : (tryXsdp mem rsdp : Prog (AcpiState ρ) ℕ) ⟨t, i₁⟩ = .ok rsdp' ⟨t, i₂⟩)
    (hone : (useRsdp mem 1 rsdp' "RSDP not valid\n" : Prog (AcpiState ρ) Unit) ⟨t, i₂⟩ = .ok () ⟨t, i₃⟩)
    (hzero : (useRsdp mem 0 rsdp' "RSDP (from scan) not valid\n" : Prog (AcpiState ρ) Unit) ⟨t, i₃⟩ = .ok () ⟨t, i₄⟩) :
    acpiSelectRoot mem alloc memmap ⟨t, i⟩ = finish mem alloc memmap ⟨t, i₄⟩ := by
  unfold acpiSelectRoot
  rw [Prog.bind_run, hfind, Outcome.andThen_ok, if_neg hne, Prog.bind_run, htry, Outcome.andThen_ok,
    Prog.bind_run, hone, Outcome.andThen_ok, Prog.bind_run, hzero, Outcome.andThen_ok]
  rfl

end Functions

/-- `acpi_info` before the root table is looked at. -/
def chosenInfo (mem : Memory) (x r p : ℕ) : Bool → AcpiInfo
  | true => { startInfo x r with version := 2, sdtptrsize := 8, sdtadr := p2v (xsdtAddress mem p) }
  | false => { startInfo x r with version := 1, sdtptrsize := 4, sdtadr := p2v (rsdtAddress mem p) }

theorem selectRoot_some {p : ℕ} {extended : Bool} (h : chosen mem x r = some (p, extended)) :
    acpiSelectRoot mem alloc memmap ⟨t, startInfo x r⟩ =
      finish mem alloc memmap ⟨t, chosenInfo mem x r p extended⟩ := by
  unfold chosen at h
  by_cases hx : x ≠ 0
  · rw [if_pos hx] at h
    by_cases hzero : p2v x = 0
    · rw [if_pos hzero] at h
      cases h
    · rw [if_neg hzero] at h
      by_cases hvalid : rsdpValid mem (p2v x) = true
      · rw [if_pos hvalid] at h
        obtain ⟨rfl, rfl⟩ := Prod.mk.inj (Option.some.inj h)
        exact selectRoot_of hzero (findRsdp_xsdp hx) (tryXsdp_valid rfl hvalid)
          (useRsdp_other (Nat.succ_ne_self 1)) (useRsdp_other (Nat.succ_ne_zero 1))
      · rw [if_neg hvalid] at h
        by_cases hr : r ≠ 0 ∧ rsdpValid mem (p2v r) = true
        · rw [if_pos hr] at h
          obtain ⟨rfl, rfl⟩ := Prod.mk.inj (Option.some.inj h)
          exact selectRoot_of hzero (findRsdp_xsdp hx) (tryXsdp_revert rfl hvalid hr.1) (useRsdp_valid rfl hr.2)
            (useRsdp_other Nat.one_ne_zero)
        · rw [if_neg hr] at h
          cases h
  · rw [if_neg hx] at h
    rw [not_not] at hx
    by_cases hr : r ≠ 0
    · rw [if_pos hr] at h
      by_cases hvalid : p2v r ≠ 0 ∧ rsdpValid mem (p2v r) = true
      · rw [if_pos hvalid] at h
        obtain ⟨rfl, rfl⟩ := Prod.mk.inj (Option.some.inj h)
        exact selectRoot_of hvalid.1 (findRsdp_rsdp hx hr) (tryXsdp_other (Nat.succ_ne_self 1).symm)
          (useRsdp_valid rfl hvalid.2) (useRsdp_other Nat.one_ne_zero)
      · rw [if_neg hvalid] at h
        cases h
    · rw [if_neg hr] at h
      rw [not_not] at hr
      obtain ⟨a, ha, h⟩ := Option.bind_eq_some_iff.mp h
      by_cases hvalid : rsdpValid mem a = true
      · rw [if_pos hvalid] at h
        obtain ⟨rfl, rfl⟩ := Prod.mk.inj (Option.some.inj h)
        exact selectRoot_of (scanBios_ne_zero ha) (findRsdp_bios hx hr ha) (tryXsdp_other (Nat.succ_ne_zero 1).symm)
          (useRsdp_other Nat.zero_ne_one) (useRsdp_valid rfl hvalid)
      · rw [if_neg hvalid] at h
        cases h

theorem selectRoot_no_pointer (hfind : (acpiFindRsdp mem : Prog (AcpiState ρ) ℕ) ⟨t, startInfo x r⟩ = .ok 0 ⟨t, i⟩) :
    acpiSelectRoot mem alloc memmap ⟨t, startInfo x r⟩ = .panic "Unable to find RSDP" ⟨t, i⟩ := by
  unfold acpiSelectRoot
  rw [Prog.bind_run, hfind, Outcome.andThen_ok, if_pos rfl]
  rfl

/-- The structure that is left is not valid. -/
theorem selectRoot_invalid {rsdp rsdp' : ℕ} {i₁ i₂ : AcpiInfo} (hne : rsdp ≠ 0)
    (hfind : (acpiFindRsdp mem : Prog (AcpiState ρ) ℕ) ⟨t, startInfo x r⟩ = .ok rsdp ⟨t, i₁⟩)
    (htry : (tryXsdp mem rsdp : Prog (AcpiState ρ) ℕ) ⟨t, i₁⟩ = .ok rsdp' ⟨t, i₂⟩)
    (hversion : i₂.version = 1 ∨ i₂.version = 0) (hinvalid : rsdpValid mem rsdp' ≠ true) :
    ∃ msg s', acpiSelectRoot mem alloc memmap ⟨t, startInfo x r⟩ = .panic msg s' := by
  unfold acpiSelectRoot
  rw [Prog.bind_run, hfind, Outcome.andThen_ok, if_neg hne, Prog.bind_run, htry, Outcome.andThen_ok, Prog.bind_run]
  rcases hversion with hone | hzero
  · rw [useRsdp_invalid hone hinvalid]
    exact ⟨_, _, rfl⟩
  · have hother : i₂.version ≠ 1 := by omega
    rw [useRsdp_other hother, Outcome.andThen_ok, Prog.bind_run, useRsdp_invalid hzero hinvalid]
    exact ⟨_, _, rfl⟩

/-- Without a choice the function panics, or it goes on without a root table. -/
theorem selectRoot_none (h : chosen mem x r = none) :
    (∃ msg s', acpiSelectRoot mem alloc memmap ⟨t, startInfo x r⟩ = .panic msg s') ∨
      acpiSelectRoot mem alloc memmap ⟨t, startInfo x r⟩ =
        finish mem alloc memmap ⟨t, { startInfo x r with version := 2 }⟩ := by
  unfold chosen at h
  by_cases hx : x ≠ 0
  · rw [if_pos hx] at h
    by_cases hzero : p2v x = 0
    · left
      have hfind := @findRsdp_xsdp ρ mem t (startInfo x r) hx
      have hadr : p2v (startInfo x r).uefiXsdpAdr = 0 := hzero
      rw [hadr] at hfind
      exact ⟨_, _, selectRoot_no_pointer hfind⟩
    · rw [if_neg hzero] at h
      by_cases hvalid : rsdpValid mem (p2v x) = true
      · rw [if_pos hvalid] at h
        cases h
      · rw [if_neg hvalid] at h
        by_cases hr : r ≠ 0
        · left
          have hinvalid : rsdpValid mem (p2v r) ≠ true := by
            intro hc
            rw [if_pos ⟨hr, hc⟩] at h
            cases h
          exact selectRoot_invalid hzero (findRsdp_xsdp hx) (tryXsdp_revert rfl hvalid hr) (.inl rfl) hinvalid
        · right
          exact selectRoot_of hzero (findRsdp_xsdp hx) (tryXsdp_invalid rfl hvalid (not_not.mp hr))
            (useRsdp_other (Nat.succ_ne_self 1)) (useRsdp_other (Nat.succ_ne_zero 1))
  · rw [if_neg hx] at h
    rw [not_not] at hx
    left
    by_cases hr : r ≠ 0
    · rw [if_pos hr] at h
      by_cases hzero : p2v r = 0
      · have hfind := @findRsdp_rsdp ρ mem t (startInfo x r) hx hr
        have hadr : p2v (startInfo x r).uefiRsdpAdr = 0 := hzero
        rw [hadr] at hfind
        exact ⟨_, _, selectRoot_no_pointer hfind⟩
      · have hinvalid : rsdpValid mem (p2v r) ≠ true := by
          intro hc
          rw [if_pos ⟨hzero, hc⟩] at h
          cases h
        exact selectRoot_invalid hzero (findRsdp_rsdp hx hr) (tryXsdp_other (Nat.succ_ne_self 1).symm)
          (.inl rfl) hinvalid
    · rw [if_neg hr] at h
      rw [not_not] at hr
      cases hscan : scanBios mem with
      | none => exact ⟨_, _, selectRoot_no_pointer (findRsdp_none hx hr hscan)⟩
      | some a =>
        rw [hscan, Option.bind_some] at h
        have hinvalid : rsdpValid mem a ≠ true := by
          intro hc
          rw [if_pos hc] at h
          cases h
        exact selectRoot_invalid (scanBios_ne_zero hscan) (findRsdp_bios hx hr hscan)
          (tryXsdp_other (Nat.succ_ne_zero 1).symm) (.inr rfl) hinvalid

/-! ## The end of the selection -/

/-- The mapping leaves `acpi_info` alone. -/
theorem mapAcpiMem_ok {adr : ℕ} {s s' : AcpiState ρ} (h : mapAcpiMem alloc memmap adr s = .ok () s') :
    s'.acpiInfo = s.acpiInfo := by
  obtain ⟨tables, -, rfl⟩ := Prog.zoom_ok.mp h
  rfl

theorem mapAcpiMem_nil {adr : ℕ} {s : AcpiState ρ} : mapAcpiMem alloc [] adr s = .ok () s := rfl

/-- `acpi_info` with the entries counted. -/
def counted (mem : Memory) (i : AcpiInfo) : AcpiInfo :=
  { i with
    entrycount := (sdtLength mem i.sdtadr + wordSize - sizeofSdt) % wordSize / if i.version ≥ 2 then 8 else 4
    entries := (i.sdtadr + sizeofSdt) % wordSize }

theorem finish_ok {s' : AcpiState ρ} (h : finish mem alloc memmap ⟨t, i⟩ = .ok () s') :
    s'.acpiInfo = counted mem i := by
  unfold finish at h
  rw [Prog.bind_run, Prog.get_run, Outcome.andThen_ok] at h
  obtain ⟨_, s₁, hmap, hcount⟩ := Prog.bind_ok.mp h
  have hinfo := mapAcpiMem_ok hmap
  obtain ⟨-, rfl⟩ := Outcome.ok.inj hcount
  dsimp only at hinfo ⊢
  rw [hinfo]
  rfl

theorem finish_nil : finish mem alloc [] ⟨t, i⟩ = .ok () ⟨t, counted mem i⟩ := rfl

/-! ## The entries -/

theorem memmapEntries_no_root {s : AcpiState ρ} (h : s.acpiInfo.sdtadr = 0) :
    acpiMemmapAcpiEntries mem alloc memmap s = .panic "SDT root not set" s := by
  unfold acpiMemmapAcpiEntries
  rw [Prog.bind_run, Prog.get_run, Outcome.andThen_ok, if_pos h]
  rfl

theorem memmapLoop_nil {s : AcpiState ρ} (hsize : s.acpiInfo.sdtptrsize = 4 ∨ s.acpiInfo.sdtptrsize = 8) {n i : ℕ} :
    acpiMemmapLoop mem alloc [] n i s = .ok () s := by
  induction n generalizing i with
  | zero => rfl
  | succ n ih =>
    obtain ⟨sdt, hsdt⟩ : ∃ sdt, (acpiGetSdt mem s.acpiInfo.entries s.acpiInfo.sdtptrsize i : Prog (AcpiState ρ) ℕ) s =
        .ok sdt s := by
      unfold acpiGetSdt
      rcases hsize with hsize | hsize
      · exact ⟨_, by rw [if_pos hsize, Prog.pure_run]⟩
      · exact ⟨_, by rw [if_neg (by omega), if_pos hsize, Prog.pure_run]⟩
    rw [acpiMemmapLoop, Prog.bind_run, Prog.get_run, Outcome.andThen_ok, Prog.bind_run, hsdt, Outcome.andThen_ok,
      Prog.bind_run, mapAcpiMem_nil, Outcome.andThen_ok]
    exact ih

/-- Without a memory map to search, nothing in the loop over the entries panics. -/
theorem memmapEntries_nil {s : AcpiState ρ} (hroot : s.acpiInfo.sdtadr ≠ 0)
    (hsize : s.acpiInfo.sdtptrsize = 4 ∨ s.acpiInfo.sdtptrsize = 8) {msg : String} {s' : AcpiState ρ} :
    acpiMemmapAcpiEntries mem alloc [] s ≠ .panic msg s' := by
  intro h
  unfold acpiMemmapAcpiEntries at h
  rw [Prog.bind_run, Prog.get_run, Outcome.andThen_ok, if_neg hroot] at h
  split at h
  · rw [memmapLoop_nil hsize] at h
    cases h
  · rw [Prog.bind_run, memmapLoop_nil hsize, Outcome.andThen_ok, Prog.stuck_run] at h
    cases h

theorem memmapLoop_info {n i : ℕ} {s s' : AcpiState ρ} (h : acpiMemmapLoop mem alloc memmap n i s = .ok () s') :
    s'.acpiInfo = s.acpiInfo := by
  induction n generalizing i s with
  | zero =>
    obtain ⟨-, rfl⟩ := Outcome.ok.inj h
    rfl
  | succ n ih =>
    rw [acpiMemmapLoop, Prog.bind_run, Prog.get_run, Outcome.andThen_ok] at h
    obtain ⟨sdt, s₁, hsdt, h⟩ := Prog.bind_ok.mp h
    obtain ⟨_, s₂, hmap, h⟩ := Prog.bind_ok.mp h
    rw [ih h, mapAcpiMem_ok hmap]
    unfold acpiGetSdt at hsdt
    split at hsdt
    · rw [(Outcome.ok.inj hsdt).2]
    · split at hsdt
      · rw [(Outcome.ok.inj hsdt).2]
      · cases hsdt

/-- The loop over the entries does not store to `acpi_info`. -/
theorem memmapEntries_info {s s' : AcpiState ρ} (h : acpiMemmapAcpiEntries mem alloc memmap s = .ok () s') :
    s'.acpiInfo = s.acpiInfo := by
  unfold acpiMemmapAcpiEntries at h
  rw [Prog.bind_run, Prog.get_run, Outcome.andThen_ok] at h
  split at h
  · cases h
  · split at h
    · exact memmapLoop_info h
    · obtain ⟨_, _, -, hstuck⟩ := Prog.bind_ok.mp h
      cases hstuck

end Runs

/-! ## What is left in `acpi_info` -/

/-- The structures that are looked at. -/
def RootPointer (mem : Memory) (uefiXsdpAdr uefiRsdpAdr p : ℕ) : Prop :=
  uefiXsdpAdr ≠ 0 ∧ p = p2v uefiXsdpAdr ∨ uefiRsdpAdr ≠ 0 ∧ p = p2v uefiRsdpAdr ∨ scanBios mem = some p

/-- The root table comes from a valid structure, the XSDT only from one of revision 2, whose address was checksummed,
and the entries end where the table does. -/
structure RootRight (mem : Memory) (uefiXsdpAdr uefiRsdpAdr : ℕ) (i : AcpiInfo) : Prop where
  source : (i.sdtptrsize = 8 ∧ uefiXsdpAdr ≠ 0 ∧ rsdpValid mem (p2v uefiXsdpAdr) = true ∧
      2 ≤ revision mem (p2v uefiXsdpAdr) ∧ i.sdtadr = p2v (xsdtAddress mem (p2v uefiXsdpAdr))) ∨
    (i.sdtptrsize = 4 ∧ ∃ p, RootPointer mem uefiXsdpAdr uefiRsdpAdr p ∧ rsdpValid mem p = true ∧
      i.sdtadr = p2v (rsdtAddress mem p))
  entries : i.entries = (i.sdtadr + sizeofSdt) % wordSize
  within : sizeofSdt + i.entrycount * i.sdtptrsize ≤ sdtLength mem i.sdtadr

/-- Whatever the page tables, the allocator and the memory map are: `acpi_tables_init` panics, or what it has stored in
`acpi_info` is right. -/
def SelectionRight (mem : Memory) (uefiXsdpAdr uefiRsdpAdr : ℕ) : Prop :=
  ∀ (ρ : Type) (alloc : Prog ρ ℕ) (memmap : List MemmapEntry) (t : Tables ρ) (s' : AcpiState ρ),
    acpiSelectRoot mem alloc memmap ⟨t, startInfo uefiXsdpAdr uefiRsdpAdr⟩ = .ok () s' →
      (∃ msg s'', acpiMemmapAcpiEntries mem alloc memmap s' = .panic msg s'') ∨
        RootRight mem uefiXsdpAdr uefiRsdpAdr s'.acpiInfo

section Choice
variable {mem : Memory} {x r p : ℕ} {extended : Bool}

theorem chosen_true (h : chosen mem x r = some (p, true)) : x ≠ 0 ∧ p = p2v x ∧ rsdpValid mem p = true := by
  unfold chosen at h
  split at h
  · next hx =>
    split at h
    · simp at h
    · split at h
      · next hvalid =>
        obtain ⟨rfl, -⟩ := Prod.mk.inj (Option.some.inj h)
        exact ⟨hx, rfl, hvalid⟩
      · split at h
        · simp at h
        · simp at h
  · split at h
    · split at h
      · simp at h
      · simp at h
    · obtain ⟨a, -, h⟩ := Option.bind_eq_some_iff.mp h
      split at h
      · simp at h
      · simp at h

theorem chosen_false (h : chosen mem x r = some (p, false)) : RootPointer mem x r p ∧ rsdpValid mem p = true := by
  unfold chosen at h
  split at h
  · split at h
    · simp at h
    · split at h
      · simp at h
      · split at h
        · next hr =>
          obtain ⟨rfl, -⟩ := Prod.mk.inj (Option.some.inj h)
          exact ⟨.inr (.inl ⟨hr.1, rfl⟩), hr.2⟩
        · simp at h
  · split at h
    · next hr =>
      split at h
      · next hvalid =>
        obtain ⟨rfl, -⟩ := Prod.mk.inj (Option.some.inj h)
        exact ⟨.inr (.inl ⟨hr, rfl⟩), hvalid.2⟩
      · simp at h
    · obtain ⟨a, ha, h⟩ := Option.bind_eq_some_iff.mp h
      split at h
      · next hvalid =>
        obtain ⟨rfl, -⟩ := Prod.mk.inj (Option.some.inj h)
        exact ⟨.inr (.inr ha), hvalid⟩
      · simp at h

end Choice

/-- A count of entries of `size` bytes, computed from a length in 64 bits, is one that fits only where the header
does. -/
theorem entries_fit_iff {len size : ℕ} (hlen : len < 2 ^ 32) (hsize : size = 4 ∨ size = 8) :
    sizeofSdt + (len + wordSize - sizeofSdt) % wordSize / size * size ≤ len ↔ sizeofSdt ≤ len := by
  unfold sizeofSdt wordSize
  rcases hsize with rfl | rfl
  · omega
  · omega

/-- The size of an entry of the root table. -/
def ptrSize (extended : Bool) : ℕ := if extended then 8 else 4

/-- The fields that are left for a choice. -/
structure LeftFor (mem : Memory) (p : ℕ) (extended : Bool) (i : AcpiInfo) : Prop where
  sdtadr : i.sdtadr = rootAdr mem p extended
  sdtptrsize : i.sdtptrsize = ptrSize extended
  entries : i.entries = (i.sdtadr + sizeofSdt) % wordSize
  entrycount : i.entrycount = (sdtLength mem i.sdtadr + wordSize - sizeofSdt) % wordSize / ptrSize extended

theorem counted_leftFor (mem : Memory) (x r p : ℕ) (extended : Bool) :
    LeftFor mem p extended (counted mem (chosenInfo mem x r p extended)) := by
  have hversion : (if (chosenInfo mem x r p extended).version ≥ 2 then 8 else 4) = ptrSize extended := by
    cases extended with
    | true => rfl
    | false => rfl
  refine ⟨?_, ?_, rfl, ?_⟩
  · show (chosenInfo mem x r p extended).sdtadr = _
    cases extended with
    | true => simp only [chosenInfo, rootAdr, if_true]
    | false => simp only [chosenInfo, rootAdr, Bool.false_eq_true, if_false]
  · show (chosenInfo mem x r p extended).sdtptrsize = _
    cases extended with
    | true => simp only [chosenInfo, ptrSize, if_true]
    | false => simp only [chosenInfo, ptrSize, Bool.false_eq_true, if_false]
  · rw [← hversion]
    rfl

section Left
variable {mem : Memory} {x r p : ℕ} {extended : Bool} {i : AcpiInfo}

theorem ptrSize_cases : ptrSize extended = 4 ∨ ptrSize extended = 8 := by
  cases extended with
  | true => exact .inr rfl
  | false => exact .inl rfl

theorem LeftFor.within_iff (h : LeftFor mem p extended i) :
    sizeofSdt + i.entrycount * i.sdtptrsize ≤ sdtLength mem i.sdtadr ↔
      sizeofSdt ≤ sdtLength mem (rootAdr mem p extended) := by
  have hlen : sdtLength mem i.sdtadr < 2 ^ 32 := Boot.u32_lt mem _
  rw [h.entrycount, h.sdtptrsize, entries_fit_iff hlen ptrSize_cases, h.sdtadr]

/-- What is left is right exactly when the revision and the length are. -/
theorem LeftFor.right_iff (h : LeftFor mem p extended i) (hchosen : chosen mem x r = some (p, extended)) :
    RootRight mem x r i ↔ (extended = true → 2 ≤ revision mem p) ∧
    sizeofSdt ≤ sdtLength mem (rootAdr mem p extended) := by
  constructor
  · rintro ⟨hsource, -, hwithin⟩
    refine ⟨?_, h.within_iff.mp hwithin⟩
    rintro rfl
    obtain ⟨-, hp, -⟩ := chosen_true hchosen
    have hsize : i.sdtptrsize = 8 := h.sdtptrsize
    rcases hsource with ⟨-, -, -, hrev, -⟩ | ⟨hfour, -⟩
    · rwa [hp]
    · omega
  · rintro ⟨hrev, hfit⟩
    refine ⟨?_, h.entries, h.within_iff.mpr hfit⟩
    cases extended with
    | true =>
      obtain ⟨hx, hp, hvalid⟩ := chosen_true hchosen
      have hadr := h.sdtadr
      rw [rootAdr_true, hp] at hadr
      rw [hp] at hvalid hrev
      have hsize : i.sdtptrsize = 8 := h.sdtptrsize
      exact .inl ⟨hsize, hx, hvalid, hrev rfl, hadr⟩
    | false =>
      obtain ⟨hpointer, hvalid⟩ := chosen_false hchosen
      have hadr := h.sdtadr
      rw [rootAdr_false] at hadr
      have hsize : i.sdtptrsize = 4 := h.sdtptrsize
      exact .inr ⟨hsize, p, hpointer, hvalid, hadr⟩

end Left

/-- What a run that returns has left. -/
theorem SelectionRight.tablesInit {mem : Memory} {x r : ℕ} (h : SelectionRight mem x r) {ρ : Type} {alloc : Prog ρ ℕ}
    {memmap : List MemmapEntry} {t : Tables ρ} {s' : AcpiState ρ}
    (hrun : acpiTablesInit mem alloc memmap ⟨t, startInfo x r⟩ = .ok () s') : RootRight mem x r s'.acpiInfo := by
  obtain ⟨_, s₁, hselect, hentries⟩ := Prog.bind_ok.mp hrun
  rw [memmapEntries_info hentries]
  rcases h ρ alloc memmap t s₁ hselect with ⟨msg, s₂, hpanic⟩ | hright
  · rw [hpanic] at hentries
    cases hentries
  · exact hright

/-- Without a memory map the choice is followed to its end. -/
theorem SelectionRight.choice {mem : Memory} {x r p : ℕ} {extended : Bool} (h : SelectionRight mem x r)
    (hchosen : chosen mem x r = some (p, extended)) (hroot : rootAdr mem p extended ≠ 0) :
    (extended = true → 2 ≤ revision mem p) ∧ sizeofSdt ≤ sdtLength mem (rootAdr mem p extended) := by
  have hleft := counted_leftFor mem x r p extended
  have hrun := @selectRoot_some Unit mem (pure 0) [] ⟨fun _ _ => 0, 0, ()⟩ x r p extended hchosen
  rw [finish_nil] at hrun
  generalize counted mem (chosenInfo mem x r p extended) = i at hleft hrun
  rcases h Unit _ _ _ _ hrun with ⟨msg, s'', hpanic⟩ | hright
  · have hne : i.sdtadr ≠ 0 := by rwa [hleft.sdtadr]
    have hsize : i.sdtptrsize = 4 ∨ i.sdtptrsize = 8 := by
      rw [hleft.sdtptrsize]
      exact ptrSize_cases
    exact absurd hpanic (memmapEntries_nil hne hsize)
  · exact (hleft.right_iff hchosen).mp hright

theorem root_selection_right_iff (mem : Memory) (uefiXsdpAdr uefiRsdpAdr : ℕ) :
    SelectionRight mem uefiXsdpAdr uefiRsdpAdr ↔
      ∀ p extended, chosen mem uefiXsdpAdr uefiRsdpAdr = some (p, extended) → rootAdr mem p extended ≠ 0 →
        (extended = true → 2 ≤ revision mem p) ∧ sizeofSdt ≤ sdtLength mem (rootAdr mem p extended) := by
  constructor
  · intro h p extended
    exact h.choice
  · intro h ρ alloc memmap t s' hrun
    cases hchosen : chosen mem uefiXsdpAdr uefiRsdpAdr with
    | none =>
      left
      rcases @selectRoot_none ρ mem alloc memmap t _ _ hchosen with ⟨msg, s₁, hpanic⟩ | hgo
      · rw [hpanic] at hrun
        cases hrun
      · rw [hgo] at hrun
        have hzero : s'.acpiInfo.sdtadr = 0 := by
          rw [finish_ok hrun]
          rfl
        exact ⟨_, _, memmapEntries_no_root hzero⟩
    | some c =>
      obtain ⟨p, extended⟩ := c
      have hleft := counted_leftFor mem uefiXsdpAdr uefiRsdpAdr p extended
      rw [selectRoot_some hchosen] at hrun
      rw [← finish_ok hrun] at hleft
      by_cases hroot : rootAdr mem p extended = 0
      · exact .inl ⟨_, _, memmapEntries_no_root (hleft.sdtadr.trans hroot)⟩
      · exact .inr ((hleft.right_iff hchosen).mpr (h p extended hchosen hroot))

/-- A structure of revision 0 at 0x1000, with a root table behind it. -/
def oldXsdp : List Byte :=
  rsdPtr ++ [0xE1] ++ List.replicate 11 0 ++ [36, 0, 0, 0] ++ [0x24, 0x10, 0, 0, 0, 0, 0, 0] ++ List.replicate 4 0 ++
    [0x58, 0x53, 0x44, 0x54] ++ [36, 0, 0, 0]

def oldXsdpMemory : Memory := fun a => oldXsdp.getD (a - p2v 0x1000) 0

/-- The address of the XSDT is used although no checksum covers it. -/
theorem unchecked_xsdt_used : ¬ SelectionRight oldXsdpMemory 0x1000 0 := by
  intro h
  have hchosen : chosen oldXsdpMemory 0x1000 0 = some (p2v 0x1000, true) := by decide +kernel
  have hroot : rootAdr oldXsdpMemory (p2v 0x1000) true ≠ 0 := by decide +kernel
  have hrev : ¬ 2 ≤ revision oldXsdpMemory (p2v 0x1000) := by decide +kernel
  exact hrev ((h.choice hchosen hroot).1 rfl)

end Borgos.Acpi
