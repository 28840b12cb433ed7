import Borgos.Mem.Phys
import Borgos.Mmu.Blocks

/-! # `mmu_init_kernel_pagetable`

The first table maps every frame of the FREE entries of the boot memory map twice, at its physical address and in
the direct map. The frame numbers are `int`s. Log output and the CR3 switch are left out.
-/
namespace Borgos.Mem

/-- `int pfnstart = PHYS2PFN(ptr->addr)`. -/
def MemmapEntry.pfnstart (e : MemmapEntry) : ℤ := toInt (phys2pfn e.addr)

/-- `int pfnend = PHYS2PFN(ptr->addr + ptr->size-1)`. -/
def MemmapEntry.pfnend (e : MemmapEntry) : ℤ := toInt (phys2pfn e.endAddr)

end Borgos.Mem

namespace Borgos.Mmu
open Borgos.Foundations Borgos.Mem
set_option autoImplicit false

variable {ρ : Type}

section Model
variable (pageAllocPagesVirt : Prog ρ ℕ)

/-- The loop over the frames of an entry, `n` of them from `pfn` on. -/
def mmuMapFrames : ℕ → ℤ → Prog (Tables ρ) Unit
  | 0, _ => pure ()
  | n + 1, pfn => do
    let s ← Prog.get
    mmuMapPage pageAllocPagesVirt s.kernelpagetable (pfnPhys pfn) (pfnPhys pfn) 0
    let s ← Prog.get
    mmuMapPage pageAllocPagesVirt s.kernelpagetable (pfnPhys pfn) (pfnVirt pfn) 0
    mmuMapFrames n (pfn + 1)

/-- One entry of the boot memory map. -/
def mmuMapEntry (e : MemmapEntry) : Prog (Tables ρ) Unit :=
  if e.type = .FREE then
    if e.addr ≠ pagealignDown e.addr then Prog.panic "This Area does not start on exact page\n"
    else do
      mmuMapFrames pageAllocPagesVirt (rounds e.pfnstart e.pfnend) e.pfnstart
      leaveLoop e.pfnend
  else pure ()

/-- `mmu_init_kernel_pagetable_mem`. -/
def mmuInitKernelPagetableMem : List MemmapEntry → Prog (Tables ρ) Unit
  | [] => pure ()
  | e :: es => do
    mmuMapEntry pageAllocPagesVirt e
    mmuInitKernelPagetableMem es

/-- `mmu_init_kernel_pagetable`. -/
def mmuInitKernelPagetable (memmap : List MemmapEntry) : Prog (Tables ρ) Unit := do
  let tbl ← pagetableInit pageAllocPagesVirt
  Prog.modify fun s => { s with kernelpagetable := tbl }
  mmuInitKernelPagetableMem pageAllocPagesVirt memmap

end Model

/-! ## Calls on one table -/

section Histories
variable {alloc : Prog ρ ℕ} {Good : ρ → Set ℕ → Prop} {a b : TableSystem ρ} {calls : List TableCall}

/-- What a call puts at address `v` of table `r`. -/
def TableCall.leafAt (r v : ℕ) : TableCall → Option Translation
  | .map r' paddr vaddr flags =>
    if r' = r ∧ vpn v = vpn vaddr then some ⟨paddr / 2 ^ 12 % 2 ^ 36, pteflagsOf flags⟩ else none
  | _ => none

/-- The call is a mapping in `k`. -/
def TableCall.MapsIn (k : ℕ) (call : TableCall) : Prop := ∃ paddr vaddr flags, call = .map k paddr vaddr flags

/-- What the mappings in `k`, and no other calls, lead to. -/
structure MappedIn (a b : TableSystem ρ) (calls : List TableCall) (k : ℕ) : Prop where
  roots : b.roots = a.roots
  kernel : b.tables.kernelpagetable = a.tables.kernelpagetable
  slots : ∀ paddr vaddr flags, TableCall.map k paddr vaddr flags ∈ calls → lvl4idx vaddr = 0 ∨ lvl4idx vaddr = 256
  cells : ∀ r ∈ a.roots, ∀ i, i ≠ 0 → i ≠ 256 → b.tables.mem r i = a.tables.mem r i
  fixed : entryP (a.tables.mem k 256) = 1 → ∀ r ∈ a.roots, b.tables.mem r 256 = a.tables.mem r 256
  apart : ∀ r ∈ a.roots, r ≠ k → b.tables.mem r = a.tables.mem r
  walk : ∀ v t, (∀ call ∈ calls, call.leafAt k v = none ∨ call.leafAt k v = some t) →
    hardwareWalk b.tables.mem k v =
      if ∃ call ∈ calls, call.leafAt k v = some t then some t else hardwareWalk a.tables.mem k v

theorem TableHistory.mappedIn (hA : FreshPages alloc Good) {k : ℕ} (hk : k ∈ a.roots)
    (hist : TableHistory alloc a calls b) (hcalls : ∀ call ∈ calls, call.MapsIn k)
    (h : ∃ place used, Space a.tables.mem a.roots place used ∧ Good a.tables.phys used) : MappedIn a b calls k := by
  induction hist with
  | nil =>
    refine ⟨rfl, rfl, ?_, fun _ _ _ _ _ => rfl, fun _ _ _ => rfl, fun _ _ _ => rfl, ?_⟩
    · intro paddr vaddr flags hm
      exact absurd hm List.not_mem_nil
    · intro v t _
      rw [if_neg]
      rintro ⟨call, hm, -⟩
      exact absurd hm List.not_mem_nil
  | @snoc calls b c call hist hcall ih =>
    have ih := ih fun x hx => hcalls x (List.mem_append_left _ hx)
    obtain ⟨place, used, hsp, hg⟩ := hist.space hA h
    obtain ⟨paddr, vaddr, flags, rfl⟩ := hcalls call (List.mem_append_right _ List.mem_cons_self)
    obtain ⟨hr, hroots, hrun⟩ := hcall
    obtain ⟨-, -, -, -, hm, hslot, -⟩ := mmuMapPage_spec hA hsp hg hr hrun
    have hin : ∀ r ∈ a.roots, r ∈ b.roots := by
      intro r hr
      rw [ih.roots]
      exact hr
    refine ⟨hroots.trans ih.roots, hm.kernel.trans ih.kernel, ?_, ?_, ?_, ?_, ?_⟩
    · intro paddr' vaddr' flags' hmem
      rcases List.mem_append.mp hmem with hmem | hmem
      · exact ih.slots paddr' vaddr' flags' hmem
      · have hlast := TableCall.map.inj (List.mem_singleton.mp hmem)
        rw [hlast.2.2.1]
        exact hslot
    · intro r hra i h0 h256
      rw [hm.cells r (hin r hra) i, ih.cells r hra i h0 h256]
      rintro ⟨-, hi, -⟩
      omega
    · intro hpres r hra
      have hk256 := ih.fixed hpres k hk
      rw [hm.cells r (hin r hra) 256, ih.fixed hpres r hra]
      rintro ⟨-, hi, habs⟩
      rw [← hi, hk256, hpres] at habs
      cases habs
    · intro r hra hne
      rw [← ih.apart r hra hne]
      funext i
      exact hm.cells r (hin r hra) i fun hc => hne hc.1
    · intro v t hagree
      have hagree' : ∀ x ∈ calls, x.leafAt k v = none ∨ x.leafAt k v = some t :=
        fun x hx => hagree x (List.mem_append_left _ hx)
      have hlast := hagree _ (List.mem_append_right _ List.mem_cons_self)
      by_cases hv : vpn v = vpn vaddr
      · have hleaf : TableCall.leafAt k v (.map k paddr vaddr flags) =
            some ⟨paddr / 2 ^ 12 % 2 ^ 36, pteflagsOf flags⟩ := by
          simp [TableCall.leafAt, hv]
        rw [hleaf] at hlast
        have ht : some t = some ⟨paddr / 2 ^ 12 % 2 ^ 36, pteflagsOf flags⟩ := by
          rcases hlast with hnone | hsome
          · cases hnone
          · exact hsome.symm
        rw [hm.here v hv, if_pos ⟨_, List.mem_append_right _ List.mem_cons_self, hleaf.trans ht.symm⟩, ht]
      · have hleaf : TableCall.leafAt k v (.map k paddr vaddr flags) = none := by
          simp [TableCall.leafAt, hv]
        rw [hm.elsewhere k hr v (Or.inl hv), ih.walk v t hagree']
        apply if_congr _ rfl rfl
        simp [List.mem_append, or_and_right, exists_or, hleaf]

/-- The calls of `mmu_map_page` for `n` frames from `pfn` on. -/
def frameCalls (k : ℕ) : ℕ → ℤ → List TableCall
  | 0, _ => []
  | n + 1, pfn =>
      [.map k (pfnPhys pfn) (pfnPhys pfn) 0, .map k (pfnPhys pfn) (pfnVirt pfn) 0] ++ frameCalls k n (pfn + 1)

def entryCalls (k : ℕ) (e : MemmapEntry) : List TableCall :=
  if e.type = .FREE then frameCalls k (rounds e.pfnstart e.pfnend) e.pfnstart else []

def deviceCalls (k : ℕ) : ℕ → ℤ → List TableCall
  | 0, _ => []
  | n + 1, pfn => .map k (pfnPhys pfn) (pfnVirt pfn) mmuDevice :: deviceCalls k n (pfn + 1)

/-- The first of `n + 1` frames, or one of the others. -/
theorem exists_frame_succ {n : ℕ} {pfn : ℤ} (P : ℤ → Prop) : (P pfn ∨ ∃ f, pfn + 1 ≤ f ∧ f < pfn + 1 + n ∧ P f) ↔
    ∃ f, pfn ≤ f ∧ f < pfn + (n + 1 : ℕ) ∧ P f := by
  constructor
  · rintro (h | ⟨f, h1, h2, h⟩)
    · exact ⟨pfn, le_refl pfn, by omega, h⟩
    · exact ⟨f, by omega, by omega, h⟩
  · rintro ⟨f, h1, h2, h⟩
    rcases Int.lt_or_eq_of_le h1 with hlt | rfl
    · exact .inr ⟨f, by omega, by omega, h⟩
    · exact .inl h

theorem mem_frameCalls {k n : ℕ} {pfn : ℤ} {call : TableCall} : call ∈ frameCalls k n pfn ↔ ∃ f, pfn ≤ f ∧ f < pfn + n ∧
    (call = .map k (pfnPhys f) (pfnPhys f) 0 ∨ call = .map k (pfnPhys f) (pfnVirt f) 0) := by
  induction n generalizing pfn with
  | zero =>
    simp only [frameCalls, List.not_mem_nil, false_iff, not_exists]
    intro f
    omega
  | succ n ih =>
    rw [frameCalls, List.mem_append, ih]
    simp only [List.mem_cons, List.not_mem_nil, or_false]
    exact exists_frame_succ fun f => call = .map k (pfnPhys f) (pfnPhys f) 0 ∨ call = .map k (pfnPhys f) (pfnVirt f) 0

theorem deviceCalls_mapsIn {k n : ℕ} {pfn : ℤ} : ∀ call ∈ deviceCalls k n pfn, call.MapsIn k := by
  induction n generalizing pfn with
  | zero => simp [deviceCalls]
  | succ n ih =>
    simp only [deviceCalls, List.mem_cons, forall_eq_or_imp]
    exact ⟨⟨_, _, _, rfl⟩, ih⟩

theorem entryCalls_mapsIn {k : ℕ} {memmap : List MemmapEntry} :
    ∀ call ∈ memmap.flatMap (entryCalls k), call.MapsIn k := by
  intro call hm
  obtain ⟨e, -, hm⟩ := List.mem_flatMap.mp hm
  unfold entryCalls at hm
  split at hm
  · obtain ⟨f, -, -, rfl | rfl⟩ := mem_frameCalls.mp hm
    · exact ⟨_, _, _, rfl⟩
    · exact ⟨_, _, _, rfl⟩
  · exact absurd hm List.not_mem_nil

/-- The calls lead from `s` to `s'`, and the kernel's table is still `k`. -/
def KernelHistory (alloc : Prog ρ ℕ) (k : ℕ) (roots : Set ℕ) (s : Tables ρ) (calls : List TableCall) (s' : Tables ρ) :
    Prop := TableHistory alloc ⟨s, roots⟩ calls ⟨s', roots⟩ ∧ s'.kernelpagetable = tablePtr k

theorem leaveLoop_ok {pfnend : ℤ} {s s' : Tables ρ} (hrun : leaveLoop pfnend s = .ok () s') : s' = s := by
  unfold leaveLoop at hrun
  split at hrun
  · cases hrun
  · exact (Outcome.ok.inj hrun).2.symm

section Loops
variable {k : ℕ} {roots : Set ℕ} (hA : FreshPages alloc Good) (hk : k ∈ roots)
include hA hk

/-- One call on the kernel's table. -/
theorem KernelHistory.map {s s' : Tables ρ} {paddr vaddr flags : ℕ} (hker : s.kernelpagetable = tablePtr k)
    (h : ∃ place used, Space s.mem roots place used ∧ Good s.phys used)
    (hrun : mmuMapPage alloc s.kernelpagetable paddr vaddr flags s = .ok () s') :
    KernelHistory alloc k roots s [.map k paddr vaddr flags] s' ∧
      ∃ place used, Space s'.mem roots place used ∧ Good s'.phys used := by
  rw [hker] at hrun
  obtain ⟨place, used, hsp, hg⟩ := h
  obtain ⟨place', used', hsp', hg', hm, -⟩ := mmuMapPage_spec hA hsp hg hk hrun
  refine ⟨⟨TableHistory.single ⟨hk, rfl, hrun⟩, ?_⟩, place', used', hsp', hg'⟩
  rw [hm.kernel]
  exact hker

theorem mmuMapFrames_history {n : ℕ} {pfn : ℤ} {s s' : Tables ρ} (hker : s.kernelpagetable = tablePtr k)
    (h : ∃ place used, Space s.mem roots place used ∧ Good s.phys used)
    (hrun : mmuMapFrames alloc n pfn s = .ok () s') : KernelHistory alloc k roots s (frameCalls k n pfn) s' := by
  induction n generalizing pfn s with
  | zero =>
    obtain ⟨-, rfl⟩ := Outcome.ok.inj hrun
    exact ⟨TableHistory.nil, hker⟩
  | succ n ih =>
    unfold mmuMapFrames at hrun
    obtain ⟨_, _, hget, hrun⟩ := Prog.bind_ok.mp hrun
    obtain ⟨rfl, rfl⟩ := Outcome.ok.inj hget
    obtain ⟨_, s₁, h₁, hrun⟩ := Prog.bind_ok.mp hrun
    obtain ⟨_, _, hget, hrun⟩ := Prog.bind_ok.mp hrun
    obtain ⟨rfl, rfl⟩ := Outcome.ok.inj hget
    obtain ⟨_, s₂, h₂, hrun⟩ := Prog.bind_ok.mp hrun
    obtain ⟨⟨hist₁, hker₁⟩, hsp₁⟩ := KernelHistory.map hA hk hker h h₁
    obtain ⟨⟨hist₂, hker₂⟩, hsp₂⟩ := KernelHistory.map hA hk hker₁ hsp₁ h₂
    obtain ⟨hist, hker'⟩ := ih hker₂ hsp₂ hrun
    exact ⟨(hist₁.trans hist₂).trans hist, hker'⟩

theorem mmuMapDeviceLoop_history {n : ℕ} {pfn : ℤ} {s s' : Tables ρ} (hker : s.kernelpagetable = tablePtr k)
    (h : ∃ place used, Space s.mem roots place used ∧ Good s.phys used)
    (hrun : mmuMapDeviceLoop alloc n pfn s = .ok () s') : KernelHistory alloc k roots s (deviceCalls k n pfn) s' := by
  induction n generalizing pfn s with
  | zero =>
    obtain ⟨-, rfl⟩ := Outcome.ok.inj hrun
    exact ⟨TableHistory.nil, hker⟩
  | succ n ih =>
    unfold mmuMapDeviceLoop at hrun
    obtain ⟨_, _, hget, hrun⟩ := Prog.bind_ok.mp hrun
    obtain ⟨rfl, rfl⟩ := Outcome.ok.inj hget
    obtain ⟨_, s₁, h₁, hrun⟩ := Prog.bind_ok.mp hrun
    obtain ⟨⟨hist₁, hker₁⟩, hsp₁⟩ := KernelHistory.map hA hk hker h h₁
    obtain ⟨hist, hker'⟩ := ih hker₁ hsp₁ hrun
    exact ⟨hist₁.trans hist, hker'⟩

/-- `mmu_map_device_region`. -/
theorem mmuMapDeviceRegion_history {adrstart adrend : ℕ} {s s' : Tables ρ} (hker : s.kernelpagetable = tablePtr k)
    (h : ∃ place used, Space s.mem roots place used ∧ Good s.phys used)
    (hrun : mmuMapDeviceRegion alloc adrstart adrend s = .ok () s') :
    ∃ calls, (∀ call ∈ calls, call.MapsIn k) ∧ KernelHistory alloc k roots s calls s' := by
  obtain ⟨_, s₁, h₁, hrun⟩ := Prog.bind_ok.mp hrun
  rw [leaveLoop_ok hrun]
  exact ⟨_, deviceCalls_mapsIn, mmuMapDeviceLoop_history hA hk hker h h₁⟩

theorem mmuMapEntry_history {e : MemmapEntry} {s s' : Tables ρ} (hker : s.kernelpagetable = tablePtr k)
    (h : ∃ place used, Space s.mem roots place used ∧ Good s.phys used)
    (hrun : mmuMapEntry alloc e s = .ok () s') : KernelHistory alloc k roots s (entryCalls k e) s' := by
  unfold mmuMapEntry at hrun
  unfold entryCalls
  by_cases hfree : e.type = .FREE
  · rw [if_pos hfree] at hrun ⊢
    by_cases halign : e.addr ≠ pagealignDown e.addr
    · rw [if_pos halign] at hrun
      exact absurd hrun Prog.panic_ne_ok
    · rw [if_neg halign] at hrun
      obtain ⟨_, s₁, h₁, hrun⟩ := Prog.bind_ok.mp hrun
      rw [leaveLoop_ok hrun]
      exact mmuMapFrames_history hA hk hker h h₁
  · rw [if_neg hfree] at hrun ⊢
    obtain ⟨-, rfl⟩ := Outcome.ok.inj hrun
    exact ⟨TableHistory.nil, hker⟩

theorem mmuInitKernelPagetableMem_history {memmap : List MemmapEntry} {s s' : Tables ρ}
    (hker : s.kernelpagetable = tablePtr k) (h : ∃ place used, Space s.mem roots place used ∧ Good s.phys used)
    (hrun : mmuInitKernelPagetableMem alloc memmap s = .ok () s') :
    KernelHistory alloc k roots s (memmap.flatMap (entryCalls k)) s' := by
  induction memmap generalizing s with
  | nil =>
    obtain ⟨-, rfl⟩ := Outcome.ok.inj hrun
    exact ⟨TableHistory.nil, hker⟩
  | cons e es ih =>
    obtain ⟨_, s₁, h₁, hrun⟩ := Prog.bind_ok.mp hrun
    obtain ⟨hist₁, hker₁⟩ := mmuMapEntry_history hA hk hker h h₁
    obtain ⟨hist, hker'⟩ := ih hker₁ (hist₁.space hA h) hrun
    exact ⟨hist₁.trans hist, hker'⟩

end Loops

/-- `s'` is what `mmu_init_kernel_pagetable` leaves: table `k` was empty in `s`, and the calls have been made. -/
structure KernelTable (alloc : Prog ρ ℕ) (Good : ρ → Set ℕ → Prop) (memmap : List MemmapEntry) (k : ℕ)
    (s s' : Tables ρ) : Prop where
  kernel : s'.kernelpagetable = tablePtr k
  empty : ∀ i, s.mem k i = 0
  start : ∃ place used, Space s.mem {k} place used ∧ Good s.phys used
  history : TableHistory alloc ⟨s, {k}⟩ (memmap.flatMap (entryCalls k)) ⟨s', {k}⟩

theorem mmuInitKernelPagetable_run (hA : FreshPages alloc Good) {memmap : List MemmapEntry} {s₀ s' : Tables ρ}
    {used : Set ℕ} (hg : Good s₀.phys used) (hrun : mmuInitKernelPagetable alloc memmap s₀ = .ok () s') :
    ∃ k s, k < 2 ^ 36 ∧ k ∉ used ∧ (∀ f ∈ used, s.mem f = s₀.mem f) ∧ Good s.phys (insert k used) ∧
      KernelTable alloc Good memmap k s s' := by
  obtain ⟨tbl, s₁, h₁, hrun⟩ := Prog.bind_ok.mp hrun
  obtain ⟨_, s₂, h₂, hrun⟩ := Prog.bind_ok.mp hrun
  obtain ⟨-, rfl⟩ := Outcome.ok.inj h₂
  obtain ⟨f, hf, hout, htbl, hgood, hmem, -⟩ := pagetableAlloc_spec hA hg h₁
  have hsp : Space s₁.mem {f} (fun _ => none) (insert f used) := by
    rw [hmem, ← insert_empty_eq]
    exact (Space.noTables used).newRoot hf hout
  have hstart : ∃ place used, Space s₁.mem {f} place used ∧ Good s₁.phys used := ⟨_, _, hsp, hgood⟩
  obtain ⟨s₂, hs₂⟩ : ∃ s₂, s₂ = { s₁ with kernelpagetable := tbl } := ⟨_, rfl⟩
  have hmem₂ : s₂.mem = s₁.mem := by rw [hs₂]
  have hphys₂ : s₂.phys = s₁.phys := by rw [hs₂]
  have hker₂ : s₂.kernelpagetable = tablePtr f := by rw [hs₂, htbl]; rfl
  beta_reduce at hrun
  rw [← hs₂] at hrun
  rw [← hmem₂, ← hphys₂] at hstart
  rw [← hphys₂] at hgood
  obtain ⟨hist, hker⟩ := mmuInitKernelPagetableMem_history hA (Set.mem_singleton f) hker₂ hstart hrun
  refine ⟨f, s₂, hf, hout, ?_, hgood, hker, ?_, hstart, hist⟩
  · intro g hg'
    have hgf : g ≠ f := fun e => hout (e ▸ hg')
    rw [hmem₂, hmem, Function.update_of_ne hgf]
  · intro i
    rw [hmem₂, hmem, Function.update_self]

end Histories

end Borgos.Mmu
