import Borgos.Mmu.DeviceRegion

/-! # `acpi.c`: mapping the memory of a table

`acpi_map_acpi_mem` looks for the boot memory entry around an address and maps its pages as device memory.
-/
namespace Borgos.Acpi
open Borgos.Foundations Borgos.Mem Borgos.Mmu
set_option autoImplicit false

variable {ρ : Type}

/-- The types of entry that are mapped. -/
def IsAcpiType (type : BootMemType) : Prop := type = .RESERVED ∨ type = .ACPI_RECLAIMABLE ∨ type = .NVS

instance (type : BootMemType) : Decidable (IsAcpiType type) := inferInstanceAs (Decidable (_ ∨ _ ∨ _))

/-- `acpi_map_acpi_mem` from an entry of the memory map on. -/
def acpiMapAcpiMem (pageAllocPagesVirt : Prog ρ ℕ) (adrPhys : ℕ) : List MemmapEntry → Prog (Tables ρ) Unit
  | [] => pure ()
  | ptr :: rest =>
    if adrPhys > ptr.addr ∧ adrPhys < ptr.endAddr then
      if IsAcpiType ptr.type then
        mmuMapDeviceRegion pageAllocPagesVirt (pagealignDown ptr.addr) ptr.endAddr
      else acpiMapAcpiMem pageAllocPagesVirt adrPhys rest
    else acpiMapAcpiMem pageAllocPagesVirt adrPhys rest

/-- The entries have no address in common. -/
def Apart (e₁ e₂ : MemmapEntry) : Prop := e₁.addr + e₁.size ≤ e₂.addr ∨ e₂.addr + e₂.size ≤ e₁.addr

/-- Frame `f` holds a byte of the entry. -/
def OverlapsFrame (e : MemmapEntry) (f : ℕ) : Prop := e.addr < (f + 1) * pagesize ∧ f * pagesize < e.addr + e.size

/-- Each page of the entry is found at its address in the direct map. -/
def EntryMapped (mem : ℕ → ℕ → ℕ) (k : ℕ) (e : MemmapEntry) : Prop :=
  ∀ f, OverlapsFrame e f → ∃ flags, hardwareWalk mem k (p2v (f * pagesize)) = some ⟨f, flags⟩

/-- The empty entry at address 0: its last byte is computed to be the last byte of all. -/
def IsBlank (e : MemmapEntry) : Prop := e.addr = 0 ∧ e.size = 0 ∧ IsAcpiType e.type

/-! ## The search -/

section Search
variable {alloc : Prog ρ ℕ} {adr : ℕ} {e : MemmapEntry} {before after : List MemmapEntry}

theorem endAddr_of_inside (hadr : e.addr ≤ adr ∧ adr < e.addr + e.size) (hlow : e.addr + e.size ≤ 2 ^ 43) :
    e.endAddr = e.addr + e.size - 1 := by
  unfold MemmapEntry.endAddr wordSize
  omega

/-- An entry that the comparison accepts contains the address, or it is the empty entry at 0. -/
theorem inside_of_accepted (h : e.addr < adr ∧ adr < e.endAddr) :
    e.addr + e.size > adr ∨ e.addr = 0 ∧ e.size = 0 := by
  have haddr := e.addr_lt
  have hsize := e.size_lt
  unfold MemmapEntry.endAddr wordSize at h
  omega

theorem not_accepted {x : MemmapEntry} (hx : Apart x e) (hadr : e.addr ≤ adr ∧ adr < e.addr + e.size)
    (hblank : ¬ IsBlank x) : ¬ (adr > x.addr ∧ adr < x.endAddr) ∨ ¬ IsAcpiType x.type := by
  by_cases htype : IsAcpiType x.type
  · left
    intro hacc
    rcases inside_of_accepted hacc with hin | ⟨haddr, hsize⟩
    · unfold Apart at hx
      omega
    · exact hblank ⟨haddr, hsize, htype⟩
  · exact .inr htype

/-- Entries that are passed over. -/
theorem search_skip {x : MemmapEntry} {l : List MemmapEntry}
    (h : ¬ (adr > x.addr ∧ adr < x.endAddr) ∨ ¬ IsAcpiType x.type) :
    acpiMapAcpiMem alloc adr (x :: l) = acpiMapAcpiMem alloc adr l := by
  rw [acpiMapAcpiMem]
  rcases h with h | h
  · rw [if_neg h]
  · rw [if_neg h, ite_self]

/-- The region of the empty entry at 0 has no round. -/
theorem blank_region {x : MemmapEntry} (hblank : IsBlank x) (s : Tables ρ) :
    mmuMapDeviceRegion alloc (pagealignDown x.addr) x.endAddr s = .ok () s := by
  obtain ⟨haddr, hsize, -⟩ := hblank
  have hstart : toInt (phys2pfn (pagealignDown x.addr)) = 0 := by
    rw [haddr]
    decide
  have hend : toInt (phys2pfn x.endAddr) = -1 := by
    unfold MemmapEntry.endAddr
    rw [haddr, hsize]
    decide
  unfold mmuMapDeviceRegion
  rw [hstart, hend]
  rfl

theorem search_blank {x : MemmapEntry} {l : List MemmapEntry} (hblank : IsBlank x) (hpos : 0 < adr)
    (hlow : adr < 2 ^ 43) (s : Tables ρ) : acpiMapAcpiMem alloc adr (x :: l) s = .ok () s := by
  have hacc : adr > x.addr ∧ adr < x.endAddr := by
    unfold MemmapEntry.endAddr wordSize
    rw [hblank.1, hblank.2.1]
    omega
  rw [acpiMapAcpiMem, if_pos hacc, if_pos hblank.2.2]
  exact blank_region hblank s

/-- Nothing is mapped when every entry is another one, or is not accepted. -/
theorem search_none {l : List MemmapEntry} (hadr : e.addr ≤ adr ∧ adr < e.addr + e.size) (hlow : adr < 2 ^ 43)
    (h : ∀ x ∈ l, Apart x e ∨ ¬ (adr > x.addr ∧ adr < x.endAddr)) (s : Tables ρ) :
    acpiMapAcpiMem alloc adr l s = .ok () s := by
  induction l with
  | nil => rfl
  | cons x l ih =>
    have hrest := ih fun y hy => h y (List.mem_cons_of_mem x hy)
    rcases h x List.mem_cons_self with hx | hx
    · by_cases hblank : IsBlank x
      · rcases Nat.eq_zero_or_pos adr with hzero | hpos
        · rw [search_skip (.inl (by omega))]
          exact hrest
        · exact search_blank hblank hpos hlow s
      · rw [search_skip (not_accepted hx hadr hblank)]
        exact hrest
    · rw [search_skip (.inl hx)]
      exact hrest

theorem search_to {l : List MemmapEntry} (hadr : e.addr ≤ adr ∧ adr < e.addr + e.size)
    (h : ∀ x ∈ before, Apart x e ∧ ¬ IsBlank x) :
    acpiMapAcpiMem alloc adr (before ++ l) = acpiMapAcpiMem alloc adr l := by
  induction before with
  | nil => rfl
  | cons x xs ih =>
    obtain ⟨hx, hblank⟩ := h x List.mem_cons_self
    rw [List.cons_append, search_skip (not_accepted hx hadr hblank), ih fun y hy => h y (List.mem_cons_of_mem x hy)]

theorem search_blanked {l : List MemmapEntry} (hadr : e.addr ≤ adr ∧ adr < e.addr + e.size) (hpos : 0 < adr)
    (hlow : adr < 2 ^ 43) (h : ∀ x ∈ before, Apart x e) (hblank : ∃ x ∈ before, IsBlank x) (s : Tables ρ) :
    acpiMapAcpiMem alloc adr (before ++ l) s = .ok () s := by
  induction before with
  | nil =>
    obtain ⟨x, hx, -⟩ := hblank
    exact absurd hx List.not_mem_nil
  | cons x xs ih =>
    rw [List.cons_append]
    by_cases hx : IsBlank x
    · exact search_blank hx hpos hlow s
    · rw [search_skip (not_accepted (h x List.mem_cons_self) hadr hx)]
      apply ih fun y hy => h y (List.mem_cons_of_mem x hy)
      obtain ⟨y, hy, hyb⟩ := hblank
      rcases List.mem_cons.mp hy with rfl | hy
      · exact absurd hyb hx
      · exact ⟨y, hy, hyb⟩

end Search

/-! ## The region -/

section Region
variable {alloc : Prog ρ ℕ} {Good : ρ → Set ℕ → Prop} {roots : Set ℕ} {k : ℕ} {s s' : Tables ρ}

/-- `mmu_map_device_region` on the bounds that `acpi_map_acpi_mem` computes. -/
theorem region_mapped (hA : FreshPages alloc Good) (hk : k ∈ roots) (hker : s.kernelpagetable = tablePtr k)
    (h : ∃ place used, Space s.mem roots place used ∧ Good s.phys used) {e : MemmapEntry} (hpos : 0 < e.size)
    (hlow : e.addr + e.size ≤ 2 ^ 43)
    (hrun : mmuMapDeviceRegion alloc (pagealignDown e.addr) e.endAddr s = .ok () s') : EntryMapped s'.mem k e := by
  have hend : e.endAddr = e.addr + e.size - 1 := endAddr_of_inside ⟨le_refl e.addr, by omega⟩ hlow
  have hfirst : pagealignDown e.addr / pagesize = e.addr / pagesize := by
    unfold pagealignDown
    exact Nat.mul_div_cancel _ (by decide)
  have hloop := device_region_loop (by rw [hfirst]; exact Nat.div_le_div_right (by omega)) (by omega) hrun
  rw [hfirst] at hloop
  intro f hf
  unfold OverlapsFrame pagesize at hf
  refine ⟨_, device_frames_mapped hA hk hker h ?_ hloop ?_ rfl⟩
  · unfold pagesize
    omega
  · unfold pagesize
    omega

end Region

/-! ## What is mapped -/

theorem acpi_entry_mapped_iff {ρ : Type} (alloc : Prog ρ ℕ) (Good : ρ → Set ℕ → Prop) (hA : FreshPages alloc Good)
    (s : Tables ρ) (used : Set ℕ) (hg : Good s.phys used) (a : TableSystem ρ) (hrun : TableRun alloc ⟨s, ∅⟩ a) (k : ℕ)
    (hk : k ∈ a.roots) (hker : a.tables.kernelpagetable = tablePtr k) (before after : List MemmapEntry)
    (e : MemmapEntry) (hapart : (before ++ e :: after).Pairwise Apart) (htype : IsAcpiType e.type)
    (hlow : e.addr + e.size ≤ 2 ^ 43) (adr : ℕ) (hadr : e.addr ≤ adr ∧ adr < e.addr + e.size) :
    (∀ s', acpiMapAcpiMem alloc adr (before ++ e :: after) a.tables = .ok () s' → EntryMapped s'.mem k e) ↔
      EntryMapped a.tables.mem k e ∨
        e.addr < adr ∧ adr + 1 < e.addr + e.size ∧ ∀ x ∈ before, ¬ IsBlank x := by
  have hadr43 : adr < 2 ^ 43 := by omega
  have hend := endAddr_of_inside hadr hlow
  obtain ⟨-, hafter, hbefore⟩ := List.pairwise_append.mp hapart
  have hapart_before : ∀ x ∈ before, Apart x e := fun x hx => hbefore x hx e List.mem_cons_self
  have hapart_after : ∀ x ∈ after, Apart x e := fun x hx => ((List.pairwise_cons.mp hafter).1 x hx).symm
  by_cases hinner : e.addr < adr ∧ adr + 1 < e.addr + e.size
  · by_cases hblank : ∃ x ∈ before, IsBlank x
    · have hnothing : acpiMapAcpiMem alloc adr (before ++ e :: after) a.tables = .ok () a.tables :=
        search_blanked hadr (by omega) hadr43 hapart_before hblank a.tables
      constructor
      · intro h
        exact .inl (h _ hnothing)
      · rintro (h | ⟨-, -, hno⟩) s' hs'
        · rw [hnothing] at hs'
          rwa [← (Outcome.ok.inj hs').2]
        · obtain ⟨x, hx, hxb⟩ := hblank
          exact absurd hxb (hno x hx)
    · have hno : ∀ x ∈ before, ¬ IsBlank x := fun x hx hxb => hblank ⟨x, hx, hxb⟩
      constructor
      · intro _
        exact .inr ⟨hinner.1, hinner.2, hno⟩
      · intro _ s' hs'
        rw [search_to hadr fun x hx => ⟨hapart_before x hx, hno x hx⟩, acpiMapAcpiMem,
          if_pos ⟨hinner.1, by omega⟩, if_pos htype] at hs'
        obtain ⟨place, used', hsp, hg'⟩ := hrun.space hA hg
        exact region_mapped hA hk hker ⟨place, used', hsp, hg'⟩ (by omega) hlow hs'
  · have hnothing : acpiMapAcpiMem alloc adr (before ++ e :: after) a.tables = .ok () a.tables := by
      apply search_none hadr hadr43
      intro x hx
      rcases List.mem_append.mp hx with hx | hx
      · exact .inl (hapart_before x hx)
      · rcases List.mem_cons.mp hx with rfl | hx
        · exact .inr (by omega)
        · exact .inl (hapart_after x hx)
    constructor
    · intro h
      exact .inl (h _ hnothing)
    · rintro (h | ⟨h1, h2, -⟩) s' hs'
      · rw [hnothing] at hs'
        rwa [← (Outcome.ok.inj hs').2]
      · exact absurd ⟨h1, h2⟩ hinner

/-- The kernel's first table, in frame 16. -/
def firstTable : Tables ℕ := ⟨fun _ _ => 0, tablePtr 16, 16⟩

/-- The tables of a machine whose firmware keeps its ACPI tables behind 127 MiB. -/
def firmwareEntry : MemmapEntry := ⟨0x7fe0800, 0x2000, .ACPI_RECLAIMABLE, by decide, by decide⟩

def lowMemory : MemmapEntry := ⟨0x100000, 0x7ee0000, .FREE, by decide, by decide⟩

theorem first_init {tbl : ℕ} {s : Tables ℕ} (h : pagetableInit nextFrame firstTable = .ok tbl s) :
    tbl = tablePtr 16 ∧ s.kernelpagetable = tablePtr 16 := by
  obtain ⟨s₁, hrun⟩ := Outcome.exists_of_value (x := pagetableInit nextFrame firstTable) (a := tablePtr 16)
    (by decide +kernel)
  have hg : ∀ f ∈ (∅ : Set ℕ), f < firstTable.phys := fun f hf => absurd hf (Set.notMem_empty f)
  obtain ⟨-, -, -, -, -, -, hker⟩ := pagetableAlloc_spec nextFrame_fresh hg h
  rw [h] at hrun
  exact ⟨(Outcome.ok.inj hrun).1, hker⟩

theorem acpi_entry_mapped_iff_inner : ∃ s s', pagetableInit nextFrame firstTable = .ok (tablePtr 16) s ∧
    acpiMapAcpiMem nextFrame 0x7fe0900 [lowMemory, firmwareEntry] s = .ok () s' ∧
    EntryMapped s'.mem 16 firmwareEntry := by
  obtain ⟨s', hrun⟩ := Outcome.exists_of_value (x := (pagetableInit nextFrame >>= fun _ =>
    acpiMapAcpiMem nextFrame 0x7fe0900 [lowMemory, firmwareEntry]) firstTable) (a := ()) (by decide +kernel)
  obtain ⟨tbl, s, hinit, hmap⟩ := Prog.bind_ok.mp hrun
  have hg : ∀ f ∈ (∅ : Set ℕ), f < firstTable.phys := fun f hf => absurd hf (Set.notMem_empty f)
  obtain ⟨htbl, hker⟩ := first_init hinit
  subst htbl
  have hroot : frameOf (tablePtr 16) = 16 := by decide
  have hmapped := (acpi_entry_mapped_iff nextFrame _ nextFrame_fresh firstTable ∅ hg _
    (Relation.ReflTransGen.single (TableStep.init _ s hinit)) 16 (by simp [hroot]) hker [lowMemory] [] firmwareEntry
    (by simp [Apart, lowMemory, firmwareEntry]) (.inr (.inl rfl)) (by decide) 0x7fe0900 (by decide)).mpr
    (.inr ⟨by decide, by decide, by simp [IsBlank, lowMemory]⟩)
  exact ⟨s, s', hinit, hmap, hmapped s' hmap⟩

/-- The first byte of an entry: nothing is mapped. -/
theorem first_byte_not_mapped : ∃ s s', pagetableInit nextFrame firstTable = .ok (tablePtr 16) s ∧
    acpiMapAcpiMem nextFrame 0x7fe0800 [lowMemory, firmwareEntry] s = .ok () s' ∧
    ¬ EntryMapped s'.mem 16 firmwareEntry := by
  obtain ⟨s₁, hrun⟩ := Outcome.exists_of_value (x := (do
    let _ ← pagetableInit nextFrame
    acpiMapAcpiMem nextFrame 0x7fe0800 [lowMemory, firmwareEntry]
    let s ← Prog.get
    pure (hardwareWalk s.mem 16 (p2v (0x7fe0 * pagesize))) : Prog (Tables ℕ) (Option Translation)) firstTable)
    (a := none) (by decide +kernel)
  obtain ⟨tbl, s, hinit, hrun⟩ := Prog.bind_ok.mp hrun
  obtain ⟨_, s', hmap, hrun⟩ := Prog.bind_ok.mp hrun
  obtain ⟨hval, -⟩ := Outcome.ok.inj hrun
  obtain ⟨htbl, -⟩ := first_init hinit
  subst htbl
  refine ⟨s, s', hinit, hmap, ?_⟩
  intro h
  obtain ⟨flags, hwalk⟩ := h 0x7fe0 ⟨by decide, by decide⟩
  have hnone : hardwareWalk s'.mem 16 (p2v (0x7fe0 * pagesize)) = none := hval
  rw [hnone] at hwalk
  cases hwalk

end Borgos.Acpi
