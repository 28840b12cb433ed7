import Borgos.Kcore.Proc
import Borgos.Mmu.KernelTable

/-! # What `proc_create_userproc` leaves

`Layout Good roots D t`: the tables of `t` are a forest with the level-4 tables `roots`, and the frames `D` are out for
something else. `procCreateUserproc_spec` gives the layout after a process has been created, what has not changed, and
what is in the new table.
-/
namespace Borgos.Mmu
open Borgos.Foundations Borgos.Mem
set_option autoImplicit false

variable {ρ : Type}

/-- The tables are laid out apart from the data. -/
def Layout (Good : ρ → Set ℕ → Prop) (roots D : Set ℕ) (t : Tables ρ) : Prop :=
  ∃ place used, Space t.mem roots place used ∧ Apart Good D t.phys used

/-- From `t` to `t'` the data and the translations stay. -/
structure Spares (roots D : Set ℕ) (t t' : Tables ρ) : Prop where
  data : ∀ d ∈ D, t'.mem d = t.mem d
  cells : ∀ r ∈ roots, t'.mem r = t.mem r
  walks : ∀ r ∈ roots, ∀ v, hardwareWalk t'.mem r v = hardwareWalk t.mem r v
  kernel : t'.kernelpagetable = t.kernelpagetable

theorem Spares.trans {roots D : Set ℕ} {t₁ t₂ t₃ : Tables ρ} (h : Spares roots D t₁ t₂) (h' : Spares roots D t₂ t₃) :
    Spares roots D t₁ t₃ where
  data d hd := (h'.data d hd).trans (h.data d hd)
  cells r hr := (h'.cells r hr).trans (h.cells r hr)
  walks r hr v := (h'.walks r hr v).trans (h.walks r hr v)
  kernel := h'.kernel.trans h.kernel

theorem Spares.mono {roots roots' D D' : Set ℕ} {t t' : Tables ρ} (h : Spares roots D t t') (hr : roots' ⊆ roots)
    (hD : D' ⊆ D) : Spares roots' D' t t' :=
  ⟨fun d hd => h.data d (hD hd), fun r hm => h.cells r (hr hm), fun r hm => h.walks r (hr hm), h.kernel⟩

section Layouts
variable {alloc : ℕ → Prog ρ ℕ} {Good : ρ → Set ℕ → Prop} {roots D : Set ℕ} {t t' : Tables ρ}

theorem Layout.root_lt (h : Layout Good roots D t) {r : ℕ} (hr : r ∈ roots) : r < 2 ^ 36 := by
  obtain ⟨place, used, hsp, -⟩ := h
  exact (hsp.used r (Or.inl hr)).2

/-- Memory that changes outside of the tables. -/
theorem Layout.write (h : Layout Good roots D t) {mem : ℕ → ℕ → ℕ} (hmem : ∀ f, f ∉ D → mem f = t.mem f) :
    Layout Good roots D { t with mem } ∧ Spares roots ∅ t { t with mem } := by
  obtain ⟨place, used, hsp, hg⟩ := h
  have hsame : ∀ f ∈ used, mem f = t.mem f := fun f hf => hmem f (Set.disjoint_left.mp hg.2 hf)
  refine ⟨⟨place, used, hsp.congr hsame, hg⟩, ⟨?_, ?_, ?_, rfl⟩⟩
  · intro d hd
    exact absurd hd (Set.notMem_empty d)
  · intro r hr
    exact hsame r (hsp.used r (Or.inl hr)).1
  · intro r hr v
    exact hsp.hardwareWalk_congr hsame hr v

theorem clearFrames_off {mem : ℕ → ℕ → ℕ} {b : Block} {f : ℕ} (hf : f ∉ b.frames) :
    Kcore.clearFrames mem b f = mem f := by
  unfold Kcore.clearFrames
  rw [if_neg hf]

/-- A block that is allocated and cleared. -/
theorem Layout.block (hB : FreshBlocks alloc Good) (h : Layout Good roots D t) {order f : ℕ} {phys : ρ}
    (hk : order ≤ allocbuddyMaxorder) (hrun : alloc order t.phys = .ok f phys)
    (ht' : t' = ⟨Kcore.clearFrames t.mem ⟨f, order⟩, t.kernelpagetable, phys⟩) :
    f + 2 ^ order ≤ 2 ^ 36 ∧ Disjoint D (Block.frames ⟨f, order⟩) ∧ Disjoint roots (Block.frames ⟨f, order⟩) ∧
      Layout Good roots (D ∪ Block.frames ⟨f, order⟩) t' ∧ Spares roots D t t' := by
  obtain ⟨place, used, hsp, hg⟩ := h
  obtain ⟨hlt, hdisj, hgood⟩ := hB.fresh hk hg.1 hrun
  obtain ⟨huB, hDB⟩ := Set.disjoint_union_left.mp hdisj
  have hsame : ∀ f' ∈ used, t'.mem f' = t.mem f' := by
    intro f' hf'
    rw [ht']
    exact clearFrames_off (Set.disjoint_left.mp huB hf')
  have hroots : ∀ r ∈ roots, r ∈ used := fun r hr => (hsp.used r (Or.inl hr)).1
  refine ⟨hlt, hDB, huB.mono_left hroots, ⟨place, used, hsp.congr hsame, ?_, ?_⟩, ⟨?_, ?_, ?_, ?_⟩⟩
  · rw [← Set.union_assoc, ht']
    exact hgood
  · exact Set.disjoint_union_right.mpr ⟨hg.2, huB⟩
  · intro d hd
    rw [ht']
    exact clearFrames_off (Set.disjoint_left.mp hDB hd)
  · intro r hr
    exact hsame r (hroots r hr)
  · intro r hr v
    exact hsp.hardwareWalk_congr hsame hr v
  · rw [ht']

/-- A frame of the data is cleared and becomes a level-4 table. -/
theorem Layout.newRoot {u : ℕ} (h : Layout Good roots (D ∪ {u}) t) (hu : u < 2 ^ 36) (hout : u ∉ D)
    (ht' : t' = { t with mem := Function.update t.mem u fun _ => 0 }) :
    Layout Good (insert u roots) D t' ∧ Spares roots D t t' := by
  obtain ⟨place, used, hsp, hg⟩ := h
  have huo : u ∉ used := fun hm => Set.disjoint_left.mp hg.2 hm (Or.inr rfl)
  have hmem : t'.mem = Function.update t.mem u fun _ => 0 := by rw [ht']
  have hphys : t'.phys = t.phys := by rw [ht']
  have hother : ∀ f, f ≠ u → t'.mem f = t.mem f := by
    intro f hf
    rw [hmem, Function.update_of_ne hf]
  have hsame : ∀ f ∈ used, t'.mem f = t.mem f := fun f hf => hother f fun e => huo (e ▸ hf)
  refine ⟨⟨place, insert u used, ?_, ?_, ?_⟩, ⟨?_, ?_, ?_, ?_⟩⟩
  · rw [hmem]
    exact hsp.newRoot hu huo
  · rw [hphys, Set.insert_union, ← Set.union_insert, Set.insert_eq, Set.union_comm {u} D]
    exact hg.1
  · rw [Set.disjoint_insert_left]
    exact ⟨hout, hg.2.mono_right Set.subset_union_left⟩
  · intro d hd
    exact hother d fun e => hout (e ▸ hd)
  · intro r hr
    exact hsame r (hsp.used r (Or.inl hr)).1
  · intro r hr v
    exact hsp.hardwareWalk_congr hsame hr v
  · rw [ht']

/-- One level-4 table less to look at. -/
theorem Space.dropRoot {mem : ℕ → ℕ → ℕ} {used : Set ℕ} {place : ℕ → Option (Option ℕ × List ℕ)}
    (h : Space mem roots place used) {u : ℕ} (hu : u ∈ roots) : Space mem (roots \ {u}) place (used \ {u}) where
  forest :=
    ⟨fun r hr => h.forest.root_place r hr.1, fun r hr => h.forest.root_child r hr.1, h.forest.inner_child⟩
  used x hx := by
    have hx' : x ∈ roots ∨ place x ≠ none := hx.imp_left fun hm => hm.1
    refine ⟨⟨(h.used x hx').1, ?_⟩, (h.used x hx').2⟩
    rintro rfl
    rcases hx with hx | hx
    · exact hx.2 rfl
    · exact hx (h.forest.root_place x hu)
  inner x i hx := h.inner x i (hx.imp_left fun hm => hm.1)
  clean := h.clean

/-- `mmu_init_user_pagetable` for a new table. -/
theorem Layout.copy (h : Layout Good roots D t) {k u : ℕ} (hk : k ∈ roots) (hu : u ∈ roots) (hku : k ≠ u)
    (hrun : mmuInitUserPagetable (tablePtr k) (tablePtr u) t = .ok () t') :
    Layout Good roots D t' ∧ Spares (roots \ {u}) D t t' ∧ Copied k u t t' (List.range' 256 256) := by
  obtain ⟨place, used, hsp, hg⟩ := h
  obtain ⟨hsp', hphys, hker, hcopied⟩ := mmuInitUserPagetable_spec hsp hk hu hrun
  have hc := hcopied hku
  have huD : u ∉ D := Set.disjoint_left.mp hg.2 (hsp.used u (Or.inl hu)).1
  refine ⟨⟨place, used, hsp', ?_⟩, ⟨?_, ?_, ?_, hker⟩, hc⟩
  · rw [hphys]
    exact hg
  · intro d hd
    exact hc.others d fun e => huD (e ▸ hd)
  · intro r hr
    exact hc.others r fun e => hr.2 e
  · intro r hr v
    exact (hsp.dropRoot hu).hardwareWalk_congr (fun f hf => hc.others f fun e => hf.2 e) hr v

end Layouts

/-! ## Ranges of user pages -/

section Ranges
variable {alloc : Prog ρ ℕ} {Good : ρ → Set ℕ → Prop} {roots D : Set ℕ} {t t' : Tables ρ}

/-- `mmu_map_range` when it returns. -/
theorem mmuMapRange_ok (hA : FreshPages alloc Good) {r paddr vaddr bytes flags : ℕ} (hr : r ∈ roots)
    (h : ∃ place used, Space t.mem roots place used ∧ Good t.phys used) (hp : paddr < wordSize)
    (hrun : mmuMapRange alloc (tablePtr r) paddr vaddr bytes flags t = .ok () t') :
    RangeMapped alloc roots t t' r paddr vaddr flags (rangePages vaddr ((vaddr + bytes) % wordSize)) := by
  obtain ⟨place, used, hsp, hg⟩ := h
  obtain ⟨n, hn⟩ : ∃ n, n = rangePages vaddr ((vaddr + bytes) % wordSize) := ⟨_, rfl⟩
  rw [← hn]
  rcases mmuMapRange_run hA flags hr hsp hg hp hn with ⟨s', -, -, hok, -, -, hrange⟩ | ⟨j, hj, s, heq, hfail⟩
  · rw [hrun] at hok
    rw [(Outcome.ok.inj hok).2]
    exact hrange
  · rw [hrun] at heq
    exact absurd heq.symm (hfail t')

theorem rangeCalls_mapsIn (r paddr vaddr flags n : ℕ) : ∀ call ∈ rangeCalls r paddr vaddr flags n, call.MapsIn r := by
  intro call hm
  obtain ⟨j, -, rfl⟩ := List.mem_map.mp hm
  exact ⟨_, _, _, rfl⟩

/-- A range in the lower half of table `u`, as the other tables and the data see it. -/
theorem Layout.range (hA : FreshPages alloc Good) (h : Layout Good roots D t) {u paddr vaddr flags n : ℕ}
    (hu : u ∈ roots) (hlow : ∀ j < n, lvl4idx (rangeVaddr vaddr j) < 256)
    (hrange : RangeMapped alloc roots t t' u paddr vaddr flags n) :
    Layout Good roots D t' ∧ Spares (roots \ {u}) D t t' := by
  have hin := hrange.history.mappedIn (hA.apart D) hu (rangeCalls_mapsIn _ _ _ _ _) h
  refine ⟨hrange.history.space (hA.apart D) h, ⟨hrange.history.data hA h, ?_, ?_, hin.kernel⟩⟩
  · intro r hr
    exact hin.apart r hr.1 fun e => hr.2 e
  · intro r hr v
    apply hrange.elsewhere r hr.1 v
    intro j hj
    exact Or.inr ⟨hlow j hj, fun e => hr.2 e⟩

end Ranges

/-! ## Tables that only user pages are mapped in -/

/-- In the lower half, the entries of levels 4, 3 and 2 that are present are open to user mode. -/
def UserOnly (mem : ℕ → ℕ → ℕ) (r : ℕ) : Prop :=
  ∀ p i, p.length < 3 → LowerHalf (p ++ [i]) → lookup entryChild entryUser mem r p i ≠ some false

section UserOnly
variable {alloc : Prog ρ ℕ} {Good : ρ → Set ℕ → Prop} {roots used D : Set ℕ} {place : ℕ → Option (Option ℕ × List ℕ)}
  {t t' : Tables ρ} {mem : ℕ → ℕ → ℕ}

theorem userOnly_of_empty {r : ℕ} (h : ∀ i < 256, mem r i = 0) : UserOnly mem r := by
  intro p i _ hlow
  have hlookup : lookup entryChild entryUser mem r p i = none := by
    unfold lookup
    cases p with
    | nil => simp [h i (hlow i rfl), entryUser_zero]
    | cons j p => simp [walk_cons, h j (hlow j rfl), entryChild_zero]
  rw [hlookup]
  simp

theorem TableHistory.userOnly (hA : FreshPages alloc Good) {a b : TableSystem ρ} {calls : List TableCall} {u : ℕ}
    (hist : TableHistory alloc a calls b)
    (hcalls : ∀ call ∈ calls, ∃ paddr vaddr flags, call = .map u paddr vaddr flags ∧ isUser flags = true)
    (h : ∃ place used, Space a.tables.mem a.roots place used ∧ Good a.tables.phys used)
    (hall : UserOnly a.tables.mem u) : UserOnly b.tables.mem u := by
  induction hist with
  | nil => exact hall
  | @snoc calls b c call hist hcall ih =>
    have ih := ih fun x hx => hcalls x (List.mem_append_left _ hx)
    obtain ⟨place, used, hsp, hg⟩ := hist.space hA h
    obtain ⟨paddr, vaddr, flags, rfl, huser⟩ := hcalls call (List.mem_append_right _ List.mem_cons_self)
    obtain ⟨hr, -, hrun⟩ := hcall
    intro p i hp hlow
    rw [mmuMapPage_levels hA hsp hg hr hrun u hr p i hp hlow, huser]
    split
    · simp
    · exact ih p i hp hlow

theorem RangeMapped.userOnly (hA : FreshPages alloc Good) {u paddr vaddr n : ℕ}
    (hrange : RangeMapped alloc roots t t' u paddr vaddr mmuUser n)
    (h : ∃ place used, Space t.mem roots place used ∧ Good t.phys used) (hall : UserOnly t.mem u) :
    UserOnly t'.mem u := by
  refine hrange.history.userOnly hA ?_ h hall
  intro call hm
  obtain ⟨j, -, rfl⟩ := List.mem_map.mp hm
  exact ⟨_, _, _, rfl, rfl⟩

end UserOnly

end Borgos.Mmu

namespace Borgos.Kcore
open Borgos.Foundations Borgos.Mem Borgos.Mmu
set_option autoImplicit false

variable {ρ : Type} {alloc : ℕ → Prog ρ ℕ} {kmalloc : Prog ρ ℕ} {Good : ρ → Set ℕ → Prop} {s s' : Kernel ρ}

/-! ## Runs -/

theorem onTables_ok {α : Type} {x : Prog (Tables ρ) α} {a : α} :
    onTables x s = .ok a s' ↔ ∃ t, x s.tables = .ok a t ∧ s' = { s with tables := t } := Prog.zoom_ok

theorem pageAllocPages_run {order f : ℕ} (h : pageAllocPages alloc order s = .ok f s') :
    ∃ phys, alloc order s.tables.phys = .ok f phys ∧ s' =
      { s with tables := ⟨clearFrames s.tables.mem ⟨f, order⟩, s.tables.kernelpagetable, phys⟩ } := by
  unfold pageAllocPages at h
  obtain ⟨pfn, s₁, h₁, h⟩ := Prog.bind_ok.mp h
  obtain ⟨t, ht, rfl⟩ := onTables_ok.mp h₁
  obtain ⟨phys, hp, rfl⟩ := Prog.zoom_ok.mp ht
  obtain ⟨_, s₂, h₂, h⟩ := Prog.bind_ok.mp h
  obtain ⟨-, rfl⟩ := Outcome.ok.inj h₂
  obtain ⟨rfl, rfl⟩ := Outcome.ok.inj h
  exact ⟨phys, hp, rfl⟩

theorem procAlloc_run {p : ℕ} (h : procAlloc kmalloc s = .ok p s') : ∃ phys, kmalloc s.tables.phys = .ok p phys ∧
    s'.tables = { s.tables with phys } := by
  unfold procAlloc at h
  obtain ⟨q, s₁, h₁, h⟩ := Prog.bind_ok.mp h
  obtain ⟨t, ht, rfl⟩ := onTables_ok.mp h₁
  obtain ⟨phys, hp, rfl⟩ := Prog.zoom_ok.mp ht
  by_cases hz : q = 0
  · rw [if_pos hz] at h
    exact absurd h Prog.panic_ne_ok
  · rw [if_neg hz] at h
    obtain ⟨_, s₂, h₂, h⟩ := Prog.bind_ok.mp h
    obtain ⟨-, rfl⟩ := Outcome.ok.inj h₂
    obtain ⟨rfl, rfl⟩ := Outcome.ok.inj h
    exact ⟨phys, hp, rfl⟩

theorem procNewpid_run {p pid : ℕ} (h : procNewpid p s = .ok pid s') : s'.tables = s.tables := by
  unfold procNewpid at h
  obtain ⟨_, _, hget, h⟩ := Prog.bind_ok.mp h
  obtain ⟨rfl, rfl⟩ := Outcome.ok.inj hget
  cases hfree : freePid s.ptable with
  | none =>
    simp only [hfree] at h
    exact absurd h Prog.panic_ne_ok
  | some i =>
    simp only [hfree] at h
    obtain ⟨_, s₁, h₁, h⟩ := Prog.bind_ok.mp h
    obtain ⟨-, rfl⟩ := Outcome.ok.inj h₁
    obtain ⟨_, s₂, h₂, h⟩ := Prog.bind_ok.mp h
    obtain ⟨-, rfl⟩ := Outcome.ok.inj h₂
    obtain ⟨-, rfl⟩ := Outcome.ok.inj h
    rfl

/-- The tables after each part of `proc_create_userproc`. -/
structure CreateRun (alloc : ℕ → Prog ρ ℕ) (kmalloc : Prog ρ ℕ) (s s' : Kernel ρ) (p kst u ust : ℕ)
    (t₀ t₁ t₂ t₃ t₄ t₅ : Tables ρ) : Prop where
  proc : ∃ phys, kmalloc s.tables.phys = .ok p phys ∧ t₀ = { s.tables with phys }
  kstack : ∃ phys, alloc 2 t₀.phys = .ok kst phys ∧ t₁ = ⟨clearFrames t₀.mem ⟨kst, 2⟩, t₀.kernelpagetable, phys⟩
  pgdir : ∃ phys, alloc 0 t₁.phys = .ok u phys ∧ t₂ = ⟨clearFrames t₁.mem ⟨u, 0⟩, t₁.kernelpagetable, phys⟩
  clear : t₃ = t₂.clearPage (pfn2virt u)
  copy : mmuInitUserPagetable t₁.kernelpagetable (pfn2virt u) t₃ = .ok () t₄
  ustack : ∃ phys, alloc 2 t₄.phys = .ok ust phys ∧ t₅ = ⟨clearFrames t₄.mem ⟨ust, 2⟩, t₄.kernelpagetable, phys⟩
  map : mmuMapRange (allocPageVirt alloc) (pfn2virt u) (v2p (pfn2virt ust)) (ustacktop - pagesize * 2 ^ 2)
    (pagesize * 2 ^ 2) mmuUser t₅ = .ok () s'.tables
  kstackaddr : (s'.proc p).kstackaddr = pfn2virt kst
  kstacksize : (s'.proc p).kstacksize = pagesize * 2 ^ 2
  upgdir : (s'.proc p).upgdir = pfn2virt u
  ustackaddrvirt : (s'.proc p).ustackaddrvirt = pfn2virt ust
  ustackaddr : (s'.proc p).ustackaddr = ustacktop - pagesize * 2 ^ 2
  ustacksize : (s'.proc p).ustacksize = pagesize * 2 ^ 2

theorem procCreateUserproc_run {name : List Char} {p : ℕ} (h : procCreateUserproc alloc kmalloc name s = .ok p s') :
    ∃ kst u ust t₀ t₁ t₂ t₃ t₄ t₅, CreateRun alloc kmalloc s s' p kst u ust t₀ t₁ t₂ t₃ t₄ t₅ := by
  unfold procCreateUserproc at h
  obtain ⟨q, a₀, h₀, h⟩ := Prog.bind_ok.mp h
  obtain ⟨pid, a₁, h₁, h⟩ := Prog.bind_ok.mp h
  obtain ⟨kst, a₂, h₂, h⟩ := Prog.bind_ok.mp h
  obtain ⟨_, _, hget, h⟩ := Prog.bind_ok.mp h
  obtain ⟨rfl, rfl⟩ := Outcome.ok.inj hget
  obtain ⟨_, a₃, h₃, h⟩ := Prog.bind_ok.mp h
  obtain ⟨-, rfl⟩ := Outcome.ok.inj h₃
  obtain ⟨u, a₄, h₄, h⟩ := Prog.bind_ok.mp h
  obtain ⟨_, a₅, h₅, h⟩ := Prog.bind_ok.mp h
  obtain ⟨-, rfl⟩ := Outcome.ok.inj h₅
  obtain ⟨_, _, hget, h⟩ := Prog.bind_ok.mp h
  obtain ⟨rfl, rfl⟩ := Outcome.ok.inj hget
  obtain ⟨_, a₆, h₆, h⟩ := Prog.bind_ok.mp h
  obtain ⟨_, a₇, h₇, h⟩ := Prog.bind_ok.mp h
  obtain ⟨ust, a₈, h₈, h⟩ := Prog.bind_ok.mp h
  obtain ⟨_, a₉, h₉, h⟩ := Prog.bind_ok.mp h
  obtain ⟨-, rfl⟩ := Outcome.ok.inj h₉
  obtain ⟨_, _, hget, h⟩ := Prog.bind_ok.mp h
  obtain ⟨rfl, rfl⟩ := Outcome.ok.inj hget
  obtain ⟨_, a₁₀, h₁₀, h⟩ := Prog.bind_ok.mp h
  obtain ⟨rfl, rfl⟩ := Outcome.ok.inj h
  obtain ⟨phys₀, hk, ht₀⟩ := procAlloc_run h₀
  have ht₁ := procNewpid_run h₁
  obtain ⟨phys₂, halloc₂, rfl⟩ := pageAllocPages_run h₂
  obtain ⟨phys₄, halloc₄, rfl⟩ := pageAllocPages_run h₄
  obtain ⟨x₆, hx₆, rfl⟩ := onTables_ok.mp h₆
  obtain ⟨x₇, hx₇, rfl⟩ := onTables_ok.mp h₇
  obtain ⟨phys₈, halloc₈, rfl⟩ := pageAllocPages_run h₈
  obtain ⟨x₁₀, hx₁₀, rfl⟩ := onTables_ok.mp h₁₀
  obtain ⟨-, rfl⟩ := Outcome.ok.inj hx₆
  rw [ht₀] at ht₁
  simp only [Function.update_self] at hx₇ hx₁₀
  refine ⟨kst, u, ust, _, _, _, _, x₇, _, ⟨⟨phys₀, hk, ht₁⟩, ⟨phys₂, halloc₂, rfl⟩, ⟨phys₄, halloc₄, rfl⟩, ?_, hx₇,
    ⟨phys₈, halloc₈, rfl⟩, hx₁₀, ?_, ?_, ?_, ?_, ?_, ?_⟩⟩
  all_goals simp only [Function.update_self]

/-! ## The new process -/

/-- `kmalloc` keeps to frames that are not out. -/
def KmallocFresh (kmalloc : Prog ρ ℕ) (Good : ρ → Set ℕ → Prop) : Prop :=
  ∀ phys phys' p used, Good phys used → kmalloc phys = .ok p phys' → Good phys' used

/-- The frames of a stack. -/
def stackFrames (pfn : ℕ) : Set ℕ := Block.frames ⟨pfn, 2⟩

/-- The lowest address of a user stack. -/
def ustackBase : ℕ := ustacktop - pagesize * 2 ^ 2

/-- A process with its kernel stack in `kst`, its level-4 table in `u` and its user stack in `ust`. -/
structure Created (Good : ρ → Set ℕ → Prop) (roots D : Set ℕ) (s s' : Kernel ρ) (k p kst u ust : ℕ) : Prop where
  bounds : u < 2 ^ 36 ∧ kst + 2 ^ 2 ≤ 2 ^ 36 ∧ ust + 2 ^ 2 ≤ 2 ^ 36
  fresh : u ∉ roots
  layout : Layout Good (insert u roots) (D ∪ stackFrames kst ∪ stackFrames ust) s'.tables
  spares : Spares roots D s.tables s'.tables
  kstack_apart : Disjoint D (stackFrames kst)
  ustack_apart : Disjoint (D ∪ stackFrames kst) (stackFrames ust)
  shared : entryP (s.tables.mem k 256) = 1 → ∀ i, 256 ≤ i → i < 512 → s'.tables.mem u i = s.tables.mem k i
  stack : ∀ i < pagesize * 2 ^ 2,
    Mmu.translate s'.tables.mem u (ustackBase + i) = some (ust * pagesize + i, leafFlags mmuUser)
  blank : ∀ v, lvl4idx v < 256 → (∀ i < pagesize * 2 ^ 2, vpn v ≠ vpn (ustackBase + i)) →
    Mmu.translate s'.tables.mem u v = none
  userOnly : UserOnly s'.tables.mem u
  kstackaddr : (s'.proc p).kstackaddr = pfn2virt kst
  kstacksize : (s'.proc p).kstacksize = pagesize * 2 ^ 2
  upgdir : (s'.proc p).upgdir = tablePtr u
  ustackaddrvirt : (s'.proc p).ustackaddrvirt = pfn2virt ust
  ustackaddr : (s'.proc p).ustackaddr = ustackBase
  ustacksize : (s'.proc p).ustacksize = pagesize * 2 ^ 2

theorem pfn2virt_tablePtr {f : ℕ} (hf : f < 2 ^ 36) : pfn2virt f = tablePtr f := pfn2virt_eq hf

theorem v2p_pfn2virt {f : ℕ} (hf : f < 2 ^ 36) : v2p (pfn2virt f) = f * pagesize := by
  rw [pfn2virt_eq hf, v2p_p2v (by omega)]
  rfl

theorem ustackBase_eq : ustackBase = 2 ^ 39 - 2 ^ 14 := by
  unfold ustackBase ustacktop pagesize
  omega

/-- The pages of a range of user memory that ends below 512 GiB. -/
theorem userRange_pages {vaddr bytes : ℕ} (h : vaddr + bytes ≤ 2 ^ 39) :
    rangePages vaddr ((vaddr + bytes) % wordSize) = (bytes + (pagesize - 1)) / pagesize ∧
      ∀ j < (bytes + (pagesize - 1)) / pagesize, lvl4idx (rangeVaddr vaddr j) < 256 := by
  constructor
  · rw [Nat.mod_eq_of_lt (by unfold wordSize; omega)]
    unfold rangePages
    rw [Nat.add_sub_cancel_left]
  · intro j hj
    unfold pagesize at hj
    unfold lvl4idx rangeVaddr pagesize
    omega

theorem procCreateUserproc_spec (hB : FreshBlocks alloc Good) (hK : KmallocFresh kmalloc Good) {roots D : Set ℕ}
    (h : Layout Good roots D s.tables) {k : ℕ} (hk : k ∈ roots) (hker : s.tables.kernelpagetable = tablePtr k)
    {name : List Char} {p : ℕ} (hrun : procCreateUserproc alloc kmalloc name s = .ok p s') :
    ∃ kst u ust, Created Good roots D s s' k p kst u ust := by
  obtain ⟨kst, u, ust, t₀, t₁, t₂, t₃, t₄, t₅, hr⟩ := procCreateUserproc_run hrun
  -- the descriptor
  obtain ⟨phys₀, hkm, ht₀⟩ := hr.proc
  have hL₀ : Layout Good roots D t₀ := by
    obtain ⟨place, used, hsp, hg⟩ := h
    rw [ht₀]
    exact ⟨place, used, hsp, hK _ _ _ _ hg.1 hkm, hg.2⟩
  have hS₀ : Spares roots D s.tables t₀ := by
    rw [ht₀]
    exact ⟨fun _ _ => rfl, fun _ _ => rfl, fun _ _ _ => rfl, rfl⟩
  -- the kernel stack and the page of the level-4 table
  obtain ⟨phys₁, halloc₁, ht₁⟩ := hr.kstack
  obtain ⟨hkst, hDK, -, hL₁, hS₁⟩ := hL₀.block hB (by decide) halloc₁ ht₁
  obtain ⟨phys₂, halloc₂, ht₂⟩ := hr.pgdir
  obtain ⟨hu, hDKu, hRu, hL₂, hS₂⟩ := hL₁.block hB (by decide) halloc₂ ht₂
  rw [frames_zero] at hDKu hRu hL₂
  have hu36 : u < 2 ^ 36 := by omega
  have huD : u ∉ D ∪ Block.frames ⟨kst, 2⟩ := Set.disjoint_singleton_right.mp hDKu
  have huR : u ∉ roots := Set.disjoint_singleton_right.mp hRu
  have hptr : pfn2virt u = tablePtr u := pfn2virt_tablePtr hu36
  have ht₃ : t₃ = { t₂ with mem := Function.update t₂.mem u fun _ => 0 } := by
    rw [hr.clear, hptr]
    unfold Tables.clearPage tablePtr
    rw [frameOf_p2v hu36]
  obtain ⟨hL₃, hS₃⟩ := hL₂.newRoot hu36 huD ht₃
  -- the upper half
  have hku : k ≠ u := fun e => huR (e ▸ hk)
  have hker₁ : t₁.kernelpagetable = tablePtr k := (hS₁.kernel.trans hS₀.kernel).trans hker
  have hcopy := hr.copy
  rw [hker₁, hptr] at hcopy
  obtain ⟨hL₄, hS₄, hcop⟩ := hL₃.copy (Set.mem_insert_of_mem u hk) (Set.mem_insert u roots) hku hcopy
  -- the user stack
  obtain ⟨phys₅, halloc₅, ht₅⟩ := hr.ustack
  obtain ⟨hust, hDU, -, hL₅, hS₅⟩ := hL₄.block hB (by decide) halloc₅ ht₅
  have hust36 : ust < 2 ^ 36 := by omega
  have hmap := hr.map
  rw [hptr, v2p_pfn2virt hust36] at hmap
  have hbase : ustacktop - pagesize * 2 ^ 2 = ustackBase := rfl
  rw [hbase] at hmap
  have htop : ustackBase + pagesize * 2 ^ 2 ≤ 2 ^ 39 := by
    rw [ustackBase_eq]
    unfold pagesize
    omega
  obtain ⟨hpages, hlow⟩ := userRange_pages htop
  have hA := hB.pages
  have hpw : ust * pagesize < wordSize := by
    unfold pagesize wordSize
    omega
  have hrange := mmuMapRange_ok (hA.apart _) (Set.mem_insert u roots) hL₅ hpw hmap
  rw [hpages] at hrange
  obtain ⟨hL₆, hS₆⟩ := hL₅.range hA (Set.mem_insert u roots) hlow hrange
  have hcount : (pagesize * 2 ^ 2 + (pagesize - 1)) / pagesize = (pagesize * 2 ^ 2 + (pagesize - 1)) / pagesize := rfl
  have hexact := hrange.exact (Set.mem_insert u roots) hcount (Dvd.intro_left ust rfl)
    (by rw [ustackBase_eq]; unfold pagesize; omega) (by unfold wordSize; omega) (by unfold pagesize; omega)
  -- what is below the level-4 table before the stack is mapped
  have hcell : ∀ i, t₅.mem u i = t₄.mem u i := by
    intro i
    rw [hS₅.cells u (Set.mem_insert u roots)]
  have hzero : ∀ i, i < 256 → t₅.mem u i = 0 := by
    intro i hi
    have hout : ¬(i ∈ List.range' 256 256 ∧ 0 < t₃.mem k i) := by
      rintro ⟨hm, -⟩
      have := (List.mem_range'_1.mp hm).1
      omega
    rw [hcell, hcop.cells i, if_neg hout, ht₃]
    exact congrFun (Function.update_self u _ t₂.mem) i
  have hroots : roots ⊆ insert u roots \ {u} := fun r hm => ⟨Set.mem_insert_of_mem u hm, fun e => huR (e ▸ hm)⟩
  have hD₁ : D ⊆ D ∪ Block.frames ⟨kst, 2⟩ := Set.subset_union_left
  have hS₃₀ : Spares roots D s.tables t₃ :=
    (hS₀.trans hS₁).trans ((hS₂.mono le_rfl hD₁).trans (hS₃.mono le_rfl hD₁))
  have hin := hrange.history.mappedIn (hA.apart _) (Set.mem_insert u roots) (rangeCalls_mapsIn _ _ _ _ _) hL₅
  refine ⟨kst, u, ust, ⟨⟨hu36, hkst, hust⟩, huR, hL₆, ?_, hDK, hDU, ?_, hexact.inside, ?_, ?_, hr.kstackaddr,
    hr.kstacksize, hr.upgdir.trans hptr, hr.ustackaddrvirt, hr.ustackaddr, hr.ustacksize⟩⟩
  · have hS₄₀ := hS₃₀.trans (hS₄.mono hroots hD₁)
    have hS₅₀ := hS₄₀.trans (hS₅.mono (Set.subset_insert u roots) hD₁)
    exact hS₅₀.trans (hS₆.mono hroots (hD₁.trans Set.subset_union_left))
  · intro hpres i hi hlt
    have hcopied : ∀ i, 256 ≤ i → i < 512 → t₅.mem u i = s.tables.mem k i := by
      intro i hi hlt
      have hkrow : t₃.mem k = s.tables.mem k := hS₃₀.cells k hk
      rw [hcell, hcop.cells i, hkrow]
      by_cases hpos : 0 < s.tables.mem k i
      · rw [if_pos ⟨List.mem_range'_1.mpr ⟨hi, hlt⟩, hpos⟩]
      · rw [if_neg fun hc => hpos hc.2, ht₃]
        have hz : s.tables.mem k i = 0 := by omega
        rw [hz]
        exact congrFun (Function.update_self u _ t₂.mem) i
    rw [← hcopied i hi hlt]
    by_cases h256 : i = 256
    · rw [h256]
      apply hin.fixed _ u (Set.mem_insert u roots)
      show entryP (t₅.mem u 256) = 1
      rw [hcopied 256 le_rfl (by omega)]
      exact hpres
    · exact hin.cells u (Set.mem_insert u roots) i (by omega) h256
  · intro v hv hne
    have habsent : entryP (t₅.mem u (lvl4idx v)) = 0 := by
      rw [hzero _ hv]
      rfl
    rw [hexact.outside v hne]
    unfold Mmu.translate hardwareWalk
    simp [habsent]
  · exact hrange.userOnly (hA.apart _) hL₅ (userOnly_of_empty hzero)

end Borgos.Kcore
