import Mathlib.Data.Nat.Bitwise
import Borgos.Mmu.TableSpec

/-! # `mmu_map_page` over all table trees

Trees are built by `pagetable_init`, `mmu_init_user_pagetable` and `mmu_map_page`, in any order. In every
tree reached so, mapping a page installs its translation and no other.
-/
namespace Borgos.Mmu
open Borgos.Foundations Borgos.Mem
set_option autoImplicit false

variable {ρ : Type}

/-- Memory and the frames of the level-4 tables. -/
structure TableSystem (ρ : Type) where
  tables : Tables ρ
  roots : Set ℕ

/-- The virtual address of a frame. -/
def tablePtr (f : ℕ) : ℕ := p2v (f * 2 ^ 12)

section Runs
variable (alloc : Prog ρ ℕ)

inductive TableStep (a : TableSystem ρ) : TableSystem ρ → Prop
  | init (tbl : ℕ) (s' : Tables ρ) (h : pagetableInit alloc a.tables = .ok tbl s') :
      TableStep a ⟨s', insert (frameOf tbl) a.roots⟩
  | user (k u : ℕ) (s' : Tables ρ) (hk : k ∈ a.roots) (hu : u ∈ a.roots)
      (h : mmuInitUserPagetable (tablePtr k) (tablePtr u) a.tables = .ok () s') : TableStep a ⟨s', a.roots⟩
  | map (r paddr vaddr flags : ℕ) (s' : Tables ρ) (hr : r ∈ a.roots)
      (h : mmuMapPage alloc (tablePtr r) paddr vaddr flags a.tables = .ok () s') : TableStep a ⟨s', a.roots⟩

def TableRun : TableSystem ρ → TableSystem ρ → Prop := Relation.ReflTransGen (TableStep alloc)

variable {alloc} {Good : ρ → Set ℕ → Prop}

theorem TableStep.space (hA : FreshPages alloc Good) {a b : TableSystem ρ} (hstep : TableStep alloc a b)
    (h : ∃ place used, Space a.tables.mem a.roots place used ∧ Good a.tables.phys used) :
    ∃ place used, Space b.tables.mem b.roots place used ∧ Good b.tables.phys used := by
  obtain ⟨place, used, hsp, hg⟩ := h
  cases hstep with
  | init tbl s' hrun =>
    obtain ⟨f, hf, -, htbl, hsp', hg', -⟩ := pagetableInit_spec hA hsp hg hrun
    rw [htbl, frameOf_p2v hf]
    exact ⟨place, insert f used, hsp', hg'⟩
  | user k u s' hk hu hrun =>
    obtain ⟨hsp', hphys, -⟩ := mmuInitUserPagetable_spec hsp hk hu hrun
    exact ⟨place, used, hsp', by rw [hphys]; exact hg⟩
  | map r paddr vaddr flags s' hr hrun =>
    obtain ⟨place', used', hsp', hg', -⟩ := mmuMapPage_spec hA hsp hg hr hrun
    exact ⟨place', used', hsp', hg'⟩

theorem TableRun.space (hA : FreshPages alloc Good) {s : Tables ρ} {used : Set ℕ} (hg : Good s.phys used)
    {a : TableSystem ρ} (hrun : TableRun alloc ⟨s, ∅⟩ a) :
    ∃ place used, Space a.tables.mem a.roots place used ∧ Good a.tables.phys used := by
  induction hrun with
  | refl => exact ⟨fun _ => none, used, Space.noTables used, hg⟩
  | tail _ hstep ih => exact hstep.space hA ih

end Runs

/-- PRESENT, WRITABLE and ACCESSED; with `MMU_DEVICE` also PCD and PWT, with `MMU_USER` also US. -/
def leafFlags (flags : ℕ) : ℕ :=
  1 + 2 + 32 + (if flags.testBit 0 then 16 + 8 else 0) + if flags.testBit 1 then 4 else 0

theorem pteflagsOf_eq (flags : ℕ) : pteflagsOf flags = leafFlags flags := by
  have h0 : flags &&& mmuDevice ≠ 0 ↔ flags.testBit 0 = true := by
    unfold mmuDevice
    rw [Nat.and_one_is_mod, Nat.testBit_zero]
    simp
  have h1 : flags &&& mmuUser ≠ 0 ↔ flags.testBit 1 = true := by
    have hu : mmuUser = 2 ^ 1 := rfl
    rw [hu, Nat.and_two_pow]
    cases flags.testBit 1 <;> simp
  unfold pteflagsOf leafFlags
  simp only [h0, h1]
  split
  · split
    · rfl
    · rfl
  · split
    · rfl
    · rfl

/-- **`mmu_map_page` installs exactly one translation**, in every tree that can be built. -/
theorem map_installs_one (alloc : Prog ρ ℕ) (Good : ρ → Set ℕ → Prop) (hA : FreshPages alloc Good) (s : Tables ρ)
    (used : Set ℕ) (hg : Good s.phys used) (a : TableSystem ρ) (hrun : TableRun alloc ⟨s, ∅⟩ a) (pt : ℕ)
    (hpt : pt ∈ a.roots) (paddr vaddr flags : ℕ) (hp : paddr < 2 ^ 48) (s' : Tables ρ)
    (h : mmuMapPage alloc (tablePtr pt) paddr vaddr flags a.tables = .ok () s') :
    (∀ v, vpn v = vpn vaddr → hardwareWalk s'.mem pt v = some ⟨phys2pfn paddr, leafFlags flags⟩) ∧
    ∀ v, vpn v ≠ vpn vaddr → hardwareWalk s'.mem pt v = hardwareWalk a.tables.mem pt v := by
  obtain ⟨place, used', hsp, hg'⟩ := hrun.space hA hg
  obtain ⟨-, -, -, -, hmap, -⟩ := mmuMapPage_spec hA hsp hg' hpt h
  constructor
  · intro v hv
    have hframe : paddr / 2 ^ 12 % 2 ^ 36 = phys2pfn paddr := by
      unfold phys2pfn pagesize
      omega
    rw [hmap.here v hv, hframe, pteflagsOf_eq]
  · intro v hv
    exact hmap.elsewhere pt hpt v (Or.inl hv)

/-! ## An allocator that counts -/

/-- Frame after frame, up to `2^36`. -/
def nextFrame : Prog ℕ ℕ := fun n => if n < 2 ^ 36 then .ok (tablePtr n) (n + 1) else .panic "Out of memory \n" n

theorem nextFrame_fresh : FreshPages nextFrame fun n used => ∀ f ∈ used, f < n where
  fresh := by
    intro n n' used tbl hg hrun
    unfold nextFrame at hrun
    split at hrun
    · next hlt =>
      obtain ⟨e1, e2⟩ := Outcome.ok.inj hrun
      refine ⟨n, hlt, fun hm => lt_irrefl n (hg n hm), e1.symm, ?_⟩
      intro f hf
      rw [← e2]
      rcases Set.mem_insert_iff.mp hf with rfl | hf
      · exact Nat.lt_succ_self f
      · exact (hg f hf).trans (Nat.lt_succ_self n)
    · cases hrun

/-- No table yet, frame 16 is the next. -/
def noTables : Tables ℕ := ⟨fun _ _ => 0, 0, 16⟩

/-- The program page at `0x400000`, mapped in the first table. -/
theorem map_installs_one_firstTable : ∃ tbl s s', pagetableInit nextFrame noTables = .ok tbl s ∧
    mmuMapPage nextFrame tbl 0x1234000 0x400000 mmuUser s = .ok () s' ∧
    hardwareWalk s'.mem (frameOf tbl) 0x400123 = some ⟨0x1234, 39⟩ ∧ hardwareWalk s'.mem (frameOf tbl) 0x401000 =
      hardwareWalk s.mem (frameOf tbl) 0x401000 := by
  obtain ⟨s', hrun⟩ := Outcome.exists_of_value (x := (pagetableInit nextFrame >>= fun tbl =>
    mmuMapPage nextFrame tbl 0x1234000 0x400000 mmuUser) noTables) (a := ()) (by decide +kernel)
  obtain ⟨tbl, s, hinit, hmap⟩ := Prog.bind_ok.mp hrun
  have hg : ∀ f ∈ (∅ : Set ℕ), f < noTables.phys := fun f hf => absurd hf (Set.notMem_empty f)
  obtain ⟨f, hf, -, htbl, -⟩ := pagetableAlloc_spec nextFrame_fresh hg hinit
  have hroot : frameOf tbl = f := by rw [htbl, frameOf_p2v hf]
  have hptr : tbl = tablePtr (frameOf tbl) := by rw [hroot]; exact htbl
  have hmap' := hmap
  rw [hptr] at hmap'
  obtain ⟨hhere, helse⟩ := map_installs_one nextFrame _ nextFrame_fresh noTables ∅ hg _
    (Relation.ReflTransGen.single (TableStep.init tbl s hinit)) (frameOf tbl) (Set.mem_insert _ _) 0x1234000 0x400000
    mmuUser (by decide) s' hmap'
  exact ⟨tbl, s, s', hinit, hmap, hhere 0x400123 (by decide), helse 0x401000 (by decide)⟩

end Borgos.Mmu
