import Borgos.Kcore.ProcSpec
import Borgos.Mmu.BuddyFrames

/-! # The kernel's half of every address space

A user table gets the upper level-4 entries of the kernel's table once, when its process is created. Later mappings in
the upper half are seen through it as well, because `mmu_map_page` makes no level-4 entry above index 256 and entry 256
is there from the start: what changes is below it, in tables all level-4 tables share.
-/
namespace Borgos.Kcore
open Borgos.Foundations Borgos.Mem Borgos.Mmu
set_option autoImplicit false

variable {ρ : Type}

/-- The kernel, and the frames of the level-4 tables of its user processes, the last one first. -/
structure KernelSystem (ρ : Type) where
  kernel : Kernel ρ
  users : List ℕ

section Steps
variable (alloc : ℕ → Prog ρ ℕ) (kmalloc : Prog ρ ℕ)

/-- A call that maps lower-half addresses in the user table `u`. -/
inductive UserMap (u : ℕ) (s s' : Kernel ρ) : Prop
  | page (paddr vaddr flags : ℕ) (hlow : lvl4idx vaddr < 256)
      (h : onTables (mmuMapPage (allocPageVirt alloc) (tablePtr u) paddr vaddr flags) s = .ok () s')
  | range (paddr vaddr bytes flags : ℕ) (hp : paddr < wordSize) (hlow : ∀ i < bytes, lvl4idx (vaddr + i) < 256)
      (h : onTables (mmuMapRange (allocPageVirt alloc) (tablePtr u) paddr vaddr bytes flags) s = .ok () s')

inductive KernelStep (a : KernelSystem ρ) : KernelSystem ρ → Prop
  | create (name : List Char) (p : ℕ) (s' : Kernel ρ)
      (h : procCreateUserproc alloc kmalloc name a.kernel = .ok p s') :
      KernelStep a ⟨s', frameOf (s'.proc p).upgdir :: a.users⟩
  | userMap (u : ℕ) (s' : Kernel ρ) (hu : u ∈ a.users) (h : UserMap alloc u a.kernel s') : KernelStep a ⟨s', a.users⟩
  | kernelPage (paddr vaddr flags : ℕ) (s' : Kernel ρ)
      (h : onTables (mmuMapKernelpage (allocPageVirt alloc) paddr vaddr flags) a.kernel = .ok () s') :
      KernelStep a ⟨s', a.users⟩
  | deviceRegion (adrstart adrend : ℕ) (s' : Kernel ρ)
      (h : onTables (mmuMapDeviceRegion (allocPageVirt alloc) adrstart adrend) a.kernel = .ok () s') :
      KernelStep a ⟨s', a.users⟩

def KernelRun : KernelSystem ρ → KernelSystem ρ → Prop := Relation.ReflTransGen (KernelStep alloc kmalloc)

end Steps

/-! ## The invariant -/

/-- All level-4 tables. -/
def level4 (k : ℕ) (a : KernelSystem ρ) : Set ℕ := {r | r ∈ k :: a.users}

/-- The kernel's table is `k`, all user tables have its upper half, and the frames `D` are no tables. -/
structure Coherent (Good : ρ → Set ℕ → Prop) (D : Set ℕ) (k : ℕ) (a : KernelSystem ρ) : Prop where
  kernel : a.kernel.tables.kernelpagetable = tablePtr k
  nodup : (k :: a.users).Nodup
  layout : Layout Good (level4 k a) D a.kernel.tables
  present : entryP (a.kernel.tables.mem k 256) = 1
  shared : ∀ u ∈ a.users, ∀ i, 256 ≤ i → i < 512 → a.kernel.tables.mem u i = a.kernel.tables.mem k i

section Invariant
variable {alloc : ℕ → Prog ρ ℕ} {kmalloc : Prog ρ ℕ} {Good : ρ → Set ℕ → Prop} {D : Set ℕ} {k : ℕ}
  {a b : KernelSystem ρ}

theorem Coherent.mem_kernel (_ : Coherent Good D k a) : k ∈ level4 k a := List.mem_cons_self

theorem Coherent.mem_user (_ : Coherent Good D k a) {u : ℕ} (hu : u ∈ a.users) : u ∈ level4 k a :=
  List.mem_cons_of_mem k hu

theorem Coherent.present_at (h : Coherent Good D k a) {r : ℕ} (hr : r ∈ level4 k a) :
    entryP (a.kernel.tables.mem r 256) = 1 := by
  rcases List.mem_cons.mp hr with rfl | hu
  · exact h.present
  · rw [h.shared r hu 256 le_rfl (by omega)]
    exact h.present

/-- An upper-half address goes the same way from every level-4 table. -/
theorem Coherent.walk (h : Coherent Good D k a) {u : ℕ} (hu : u ∈ a.users) {v : ℕ} (hv : 256 ≤ lvl4idx v) :
    hardwareWalk a.kernel.tables.mem u v = hardwareWalk a.kernel.tables.mem k v := by
  have hlt : lvl4idx v < 512 := Nat.mod_lt _ (by decide)
  unfold hardwareWalk
  rw [h.shared u hu _ hv hlt]

theorem Coherent.entries (h : Coherent Good D k a) {u : ℕ} (hu : u ∈ a.users) {v : ℕ} (hv : 256 ≤ lvl4idx v) :
    walkEntries a.kernel.tables.mem u v = walkEntries a.kernel.tables.mem k v := by
  have hlt : lvl4idx v < 512 := Nat.mod_lt _ (by decide)
  unfold walkEntries
  rw [h.shared u hu _ hv hlt]

/-- Mappings in one table. -/
theorem Coherent.mapped (hA : FreshPages (allocPageVirt alloc) Good) (h : Coherent Good D k a) {r : ℕ}
    (hr : r ∈ level4 k a) {calls : List TableCall} {t : Tables ρ} (hcalls : ∀ call ∈ calls, call.MapsIn r)
    (hist : TableHistory (allocPageVirt alloc) ⟨a.kernel.tables, level4 k a⟩ calls ⟨t, level4 k a⟩) :
    Coherent Good D k ⟨{ a.kernel with tables := t }, a.users⟩ := by
  have hin := hist.mappedIn (hA.apart D) hr hcalls h.layout
  have hcell : ∀ x ∈ level4 k a, ∀ i, 256 ≤ i → t.mem x i = a.kernel.tables.mem x i := by
    intro x hx i hi
    by_cases h256 : i = 256
    · rw [h256]
      exact hin.fixed (h.present_at hr) x hx
    · exact hin.cells x hx i (by omega) h256
  refine ⟨hin.kernel.trans h.kernel, h.nodup, hist.space (hA.apart D) h.layout, ?_, ?_⟩
  · show entryP (t.mem k 256) = 1
    rw [hcell k h.mem_kernel 256 le_rfl]
    exact h.present
  · intro u hu i hi hlt
    show t.mem u i = t.mem k i
    rw [hcell u (h.mem_user hu) i hi, hcell k h.mem_kernel i hi]
    exact h.shared u hu i hi hlt

/-- The calls a `UserMap` makes, and what it leaves alone. -/
theorem UserMap.spec (hA : FreshPages (allocPageVirt alloc) Good) {u : ℕ} {s s' : Kernel ρ} {roots : Set ℕ}
    (h : Layout Good roots D s.tables) (hu : u ∈ roots) (hstep : UserMap alloc u s s') :
    ∃ t calls, s' = { s with tables := t } ∧ (∀ call ∈ calls, call.MapsIn u) ∧
      TableHistory (allocPageVirt alloc) ⟨s.tables, roots⟩ calls ⟨t, roots⟩ ∧
      ∀ r ∈ roots, r ≠ u → ∀ v, hardwareWalk t.mem r v = hardwareWalk s.tables.mem r v := by
  cases hstep with
  | page paddr vaddr flags hlow hrun =>
    obtain ⟨t, ht, rfl⟩ := onTables_ok.mp hrun
    obtain ⟨place, used, hsp, hg⟩ := h
    obtain ⟨-, -, -, -, hm, -⟩ := mmuMapPage_spec (hA.apart D) hsp hg hu ht
    refine ⟨t, [.map u paddr vaddr flags], rfl, ?_, TableHistory.single ⟨hu, rfl, ht⟩, ?_⟩
    · intro call hcall
      exact ⟨_, _, _, List.mem_singleton.mp hcall⟩
    · intro r hr hne v
      exact hm.elsewhere r hr v (Or.inr ⟨hlow, hne⟩)
  | range paddr vaddr bytes flags hp hlow hrun =>
    obtain ⟨t, ht, rfl⟩ := onTables_ok.mp hrun
    have hrange := mmuMapRange_ok (hA.apart D) hu h hp ht
    refine ⟨t, _, rfl, rangeCalls_mapsIn _ _ _ _ _, hrange.history, ?_⟩
    intro r hr hne v
    apply hrange.elsewhere r hr v
    intro j hj
    refine Or.inr ⟨?_, hne⟩
    have hend : (vaddr + bytes) % wordSize ≤ vaddr + bytes := Nat.mod_le _ _
    have hj' : j * pagesize < bytes := by
      unfold rangePages pagesize at hj
      unfold pagesize
      omega
    exact hlow _ hj'

/-- One step keeps the halves together. -/
theorem KernelStep.coherent (hB : FreshBlocks alloc Good) (hK : KmallocFresh kmalloc Good)
    (hstep : KernelStep alloc kmalloc a b) (h : Coherent Good D k a) : Coherent Good D k b := by
  have hA := hB.pages
  cases hstep with
  | create name p s' hrun =>
    obtain ⟨kst, u, ust, hc⟩ := procCreateUserproc_spec hB hK h.layout h.mem_kernel h.kernel hrun
    have hframe : frameOf (s'.proc p).upgdir = u := by
      rw [hc.upgdir]
      exact frameOf_p2v hc.bounds.1
    have hfresh : u ≠ k ∧ u ∉ a.users := by
      refine ⟨fun e => hc.fresh ?_, fun hu => hc.fresh (h.mem_user hu)⟩
      rw [e]
      exact h.mem_kernel
    rw [hframe]
    have hroots : insert u (level4 k a) = level4 k ⟨s', u :: a.users⟩ := by
      ext r
      simp only [level4, Set.mem_insert_iff, Set.mem_ofPred_eq, List.mem_cons]
      tauto
    refine ⟨hc.spares.kernel.trans h.kernel, ?_, ?_, ?_, ?_⟩
    · have hnd := h.nodup
      simp only [List.nodup_cons, List.mem_cons, not_or] at hnd ⊢
      exact ⟨⟨fun e => hfresh.1 e.symm, hnd.1⟩, hfresh.2, hnd.2⟩
    · rw [← hroots]
      obtain ⟨place, used, hsp, hg⟩ := hc.layout
      -- the stacks are nothing to the tables
      refine ⟨place, used ∪ (stackFrames kst ∪ stackFrames ust), hsp.mono Set.subset_union_left, ?_, ?_⟩
      · rw [Set.union_assoc, Set.union_comm _ D, ← Set.union_assoc D]
        exact hg.1
      · obtain ⟨hD, -⟩ := Set.disjoint_union_right.mp (Set.disjoint_union_right.mp hg.2).1
        obtain ⟨hU, -⟩ := Set.disjoint_union_left.mp hc.ustack_apart
        exact Set.disjoint_union_left.mpr ⟨hD, Set.disjoint_union_left.mpr ⟨hc.kstack_apart.symm, hU.symm⟩⟩
    · show entryP (s'.tables.mem k 256) = 1
      rw [hc.spares.cells k h.mem_kernel]
      exact h.present
    · intro x hx i hi hlt
      show s'.tables.mem x i = s'.tables.mem k i
      rw [hc.spares.cells k h.mem_kernel]
      rcases List.mem_cons.mp hx with rfl | hx
      · exact hc.shared h.present i hi hlt
      · rw [hc.spares.cells x (h.mem_user hx)]
        exact h.shared x hx i hi hlt
  | userMap u s' hu hmap =>
    obtain ⟨t, calls, rfl, hcalls, hist, -⟩ := hmap.spec hA h.layout (h.mem_user hu)
    exact h.mapped hA (h.mem_user hu) hcalls hist
  | kernelPage paddr vaddr flags s' hrun =>
    obtain ⟨t, ht, rfl⟩ := onTables_ok.mp hrun
    obtain ⟨_, _, hget, ht⟩ := Prog.bind_ok.mp ht
    obtain ⟨rfl, rfl⟩ := Outcome.ok.inj hget
    obtain ⟨⟨hist, -⟩, -⟩ := KernelHistory.map (hA.apart D) h.mem_kernel h.kernel h.layout ht
    refine h.mapped hA h.mem_kernel ?_ hist
    intro call hcall
    exact ⟨_, _, _, List.mem_singleton.mp hcall⟩
  | deviceRegion adrstart adrend s' hrun =>
    obtain ⟨t, ht, rfl⟩ := onTables_ok.mp hrun
    obtain ⟨calls, hcalls, hist, -⟩ := mmuMapDeviceRegion_history (hA.apart D) h.mem_kernel h.kernel h.layout ht
    exact h.mapped hA h.mem_kernel hcalls hist

theorem KernelRun.coherent (hB : FreshBlocks alloc Good) (hK : KmallocFresh kmalloc Good)
    (hrun : KernelRun alloc kmalloc a b) (h : Coherent Good D k a) : Coherent Good D k b := by
  induction hrun with
  | refl => exact h
  | tail _ hstep ih => exact hstep.coherent hB hK ih

/-- After `mmu_init_kernel_pagetable`, when it has mapped an upper-half page. -/
theorem coherent_init (hA : FreshPages (allocPageVirt alloc) Good) {memmap : List MemmapEntry} {s₀ : Tables ρ}
    {used : Set ℕ} (hg : Apart Good D s₀.phys used) {s : Kernel ρ}
    (hinit : mmuInitKernelPagetable (allocPageVirt alloc) memmap s₀ = .ok () s.tables) {v : ℕ} (hv : 256 ≤ lvl4idx v)
    (hmapped : hardwareWalk s.tables.mem (frameOf s.tables.kernelpagetable) v ≠ none) :
    ∃ k, k < 2 ^ 36 ∧ Coherent Good D k ⟨s, []⟩ := by
  have hA := hA.apart D
  obtain ⟨k, s₁, hk, -, -, -, htable⟩ := mmuInitKernelPagetable_run hA hg hinit
  have hroot : level4 k ⟨s, []⟩ = {k} := by
    ext r
    simp [level4]
  have hframe : frameOf s.tables.kernelpagetable = k := by
    rw [htable.kernel]
    exact frameOf_p2v hk
  rw [hframe] at hmapped
  have hin := htable.history.mappedIn hA (Set.mem_singleton k) entryCalls_mapsIn htable.start
  have hpres : entryP (s.tables.mem k (lvl4idx v)) = 1 := by
    rcases entryP_cases (s.tables.mem k (lvl4idx v)) with h0 | h1
    · exact absurd (by simp [hardwareWalk, h0]) hmapped
    · exact h1
  -- the other entries of the upper half are as empty as they were
  have hslot : lvl4idx v = 256 := by
    by_contra hne
    have hsame : s.tables.mem k (lvl4idx v) = s₁.mem k (lvl4idx v) :=
      hin.cells k (Set.mem_singleton k) _ (by omega) hne
    rw [hsame, htable.empty] at hpres
    cases hpres
  rw [hslot] at hpres
  refine ⟨k, hk, ⟨htable.kernel, List.nodup_singleton k, ?_, hpres, ?_⟩⟩
  · rw [hroot]
    exact htable.history.space hA htable.start
  · intro u hu
    exact absurd hu List.not_mem_nil

end Invariant

/-! ## Every run -/

/-- What holds in a state: the level-4 tables are different frames, upper-half addresses go the same way from each of
them, and neither a lower-half mapping in a user table nor the creation of a process changes a translation of another
table. -/
structure Separated (alloc : ℕ → Prog ρ ℕ) (kmalloc : Prog ρ ℕ) (k : ℕ) (a : KernelSystem ρ) : Prop where
  kernel : a.kernel.tables.kernelpagetable = tablePtr k
  nodup : (k :: a.users).Nodup
  upper : ∀ u ∈ a.users, ∀ v, 256 ≤ lvl4idx v →
    hardwareWalk a.kernel.tables.mem u v = hardwareWalk a.kernel.tables.mem k v ∧
      walkEntries a.kernel.tables.mem u v = walkEntries a.kernel.tables.mem k v
  mapped : ∀ u ∈ a.users, ∀ s', UserMap alloc u a.kernel s' → ∀ r ∈ k :: a.users, r ≠ u → ∀ v,
    hardwareWalk s'.tables.mem r v = hardwareWalk a.kernel.tables.mem r v
  created : ∀ name p s', procCreateUserproc alloc kmalloc name a.kernel = .ok p s' → ∀ r ∈ k :: a.users, ∀ v,
    hardwareWalk s'.tables.mem r v = hardwareWalk a.kernel.tables.mem r v

theorem Coherent.separated {alloc : ℕ → Prog ρ ℕ} {kmalloc : Prog ρ ℕ} {Good : ρ → Set ℕ → Prop} {k : ℕ}
    {D : Set ℕ} {a : KernelSystem ρ} (hB : FreshBlocks alloc Good) (hK : KmallocFresh kmalloc Good)
    (h : Coherent Good D k a) : Separated alloc kmalloc k a where
  kernel := h.kernel
  nodup := h.nodup
  upper u hu v hv := ⟨h.walk hu hv, h.entries hu hv⟩
  mapped u hu s' hmap r hr hne v := by
    obtain ⟨t, -, rfl, -, -, hother⟩ := hmap.spec hB.pages h.layout (h.mem_user hu)
    exact hother r hr hne v
  created name p s' hrun r hr v := by
    obtain ⟨kst, u, ust, hc⟩ := procCreateUserproc_spec hB hK h.layout h.mem_kernel h.kernel hrun
    exact hc.spares.walks r hr v

/-- **One kernel half, and user halves that are apart**, in every state that processes being created, user pages being
mapped and kernel pages being mapped can lead to, in any order. -/
theorem kernel_half_coherent (alloc : ℕ → Prog ρ ℕ) (kmalloc : Prog ρ ℕ) (Good : ρ → Set ℕ → Prop)
    (hB : FreshBlocks alloc Good) (hK : KmallocFresh kmalloc Good) (memmap : List MemmapEntry) (s₀ : Tables ρ)
    (used : Set ℕ) (hg : Good s₀.phys used) (s : Kernel ρ)
    (hinit : mmuInitKernelPagetable (allocPageVirt alloc) memmap s₀ = .ok () s.tables) (v₀ : ℕ)
    (hv₀ : 256 ≤ lvl4idx v₀) (hmapped : hardwareWalk s.tables.mem (frameOf s.tables.kernelpagetable) v₀ ≠ none)
    (a : KernelSystem ρ) (hrun : KernelRun alloc kmalloc ⟨s, []⟩ a) :
    Separated alloc kmalloc (frameOf s.tables.kernelpagetable) a := by
  have hg' : Apart Good ∅ s₀.phys used := by
    refine ⟨?_, Set.disjoint_empty used⟩
    rw [Set.union_empty]
    exact hg
  obtain ⟨k, hk, hstart⟩ := coherent_init hB.pages hg' hinit hv₀ hmapped
  have hframe : frameOf s.tables.kernelpagetable = k := by
    rw [hstart.kernel]
    exact frameOf_p2v hk
  rw [hframe]
  exact (hrun.coherent hB hK hstart).separated hB hK

/-- The buddy allocator and `kmalloc` are allocators of this kind, in every state they can be in. -/
theorem kernel_allocators_fresh {a₀ : Arena} {s₀ : Phys} {released : List Block} {L : Lists} (h : a₀.Inv s₀ released L)
    (size : ℕ) :
    FreshBlocks (fun k => onPhys (Mem.pageAllocPages 0 k)) (fun s used => OffLists a₀ s.phys used) ∧
      KmallocFresh (Mem.kmalloc slabPage size 0) (fun s used => OffLists a₀ s.phys used) :=
  ⟨slab_fresh h, fun _ _ _ _ hg hrun => slab_kmalloc_keeps h hg hrun⟩

/-! ## Allocators that count -/

/-- Block after block, up to frame `2^36`. -/
def nextBlock (order : ℕ) : Prog ℕ ℕ := fun n =>
  if n + 2 ^ order ≤ 2 ^ 36 then .ok n (n + 2 ^ order) else .panic "Out of memory \n" n

theorem nextBlock_fresh : FreshBlocks nextBlock fun n used => ∀ f ∈ used, f < n where
  fresh := by
    intro n n' used order f _ hg hrun
    unfold nextBlock at hrun
    split at hrun
    · next hle =>
      obtain ⟨rfl, rfl⟩ := Outcome.ok.inj hrun
      refine ⟨hle, ?_, ?_⟩
      · rw [Set.disjoint_left]
        intro g hgu hgb
        have := hg g hgu
        have := (Block.mem_frames.mp hgb).1
        dsimp only at this
        omega
      · intro g hg'
        rcases hg' with hgu | hgb
        · exact (hg g hgu).trans_le (Nat.le_add_right _ _)
        · exact (Block.mem_frames.mp hgb).2
    · cases hrun

/-- A page for each object. -/
def nextObject : Prog ℕ ℕ := fun n => .ok (tablePtr n) (n + 1)

theorem nextObject_fresh : KmallocFresh nextObject fun n used => ∀ f ∈ used, f < n := by
  intro n n' p used hg hrun f hf
  obtain ⟨-, rfl⟩ := Outcome.ok.inj hrun
  exact (hg f hf).trans (Nat.lt_succ_self n)

/-- One free frame, at 4 KiB. -/
def oneFrame : List MemmapEntry := [⟨0x1000, 0x1000, .FREE, by norm_num, by norm_num⟩]

def bootKernel (t : Tables ℕ) : Kernel ℕ := ⟨t, fun _ => 0, fun _ => ProcT.zero⟩

/-- Two processes, and then a device page of the kernel. -/
theorem kernel_half_coherent_twoProcs : ∃ s a,
    mmuInitKernelPagetable (allocPageVirt nextBlock) oneFrame noTables = .ok () s.tables ∧
    hardwareWalk s.tables.mem (frameOf s.tables.kernelpagetable) (pfn2virt 1) ≠ none ∧
    KernelRun nextBlock nextObject ⟨s, []⟩ a ∧ a.users.length = 2 ∧
    Separated nextBlock nextObject (frameOf s.tables.kernelpagetable) a := by
  obtain ⟨b, hrun⟩ := Outcome.exists_of_value (x := (do
    onTables (mmuInitKernelPagetable (allocPageVirt nextBlock) oneFrame)
    let s ← Prog.get
    let _ ← procCreateUserproc nextBlock nextObject ['I', 'N', 'I', 'T']
    let _ ← procCreateUserproc nextBlock nextObject ['S', 'H']
    onTables (mmuMapKernelpage (allocPageVirt nextBlock) 0xFEE00000 (p2v 0xFEE00000) mmuDevice)
    pure (hardwareWalk s.tables.mem (frameOf s.tables.kernelpagetable) (pfn2virt 1)) :
      Prog (Kernel ℕ) (Option Translation)) (bootKernel noTables)) (a := some ⟨1, leafFlags 0⟩) (by decide +kernel)
  obtain ⟨_, s, hinit, hrun⟩ := Prog.bind_ok.mp hrun
  obtain ⟨_, _, hget, hrun⟩ := Prog.bind_ok.mp hrun
  obtain ⟨rfl, rfl⟩ := Outcome.ok.inj hget
  obtain ⟨p, s₁, h₁, hrun⟩ := Prog.bind_ok.mp hrun
  obtain ⟨q, s₂, h₂, hrun⟩ := Prog.bind_ok.mp hrun
  obtain ⟨_, s₃, h₃, hrun⟩ := Prog.bind_ok.mp hrun
  obtain ⟨hval, -⟩ := Outcome.ok.inj hrun
  obtain ⟨t, ht, hs⟩ := onTables_ok.mp hinit
  have hst : s.tables = t := by rw [hs]
  rw [← hst] at ht
  have hg : ∀ f ∈ (∅ : Set ℕ), f < noTables.phys := fun f hf => absurd hf (Set.notMem_empty f)
  have hmapped : hardwareWalk s.tables.mem (frameOf s.tables.kernelpagetable) (pfn2virt 1) ≠ none := by
    rw [hval]
    simp
  have hstep₁ : KernelStep nextBlock nextObject ⟨s, []⟩ ⟨s₁, [frameOf (s₁.proc p).upgdir]⟩ :=
    KernelStep.create _ p s₁ h₁
  have hstep₂ : KernelStep nextBlock nextObject ⟨s₁, [frameOf (s₁.proc p).upgdir]⟩
      ⟨s₂, [frameOf (s₂.proc q).upgdir, frameOf (s₁.proc p).upgdir]⟩ := KernelStep.create _ q s₂ h₂
  have hstep₃ : KernelStep nextBlock nextObject ⟨s₂, [frameOf (s₂.proc q).upgdir, frameOf (s₁.proc p).upgdir]⟩
      ⟨s₃, [frameOf (s₂.proc q).upgdir, frameOf (s₁.proc p).upgdir]⟩ := KernelStep.kernelPage _ _ _ s₃ h₃
  have hreach := ((Relation.ReflTransGen.single hstep₁).tail hstep₂).tail hstep₃
  exact ⟨s, _, ht, hmapped, hreach, rfl, kernel_half_coherent nextBlock nextObject _ nextBlock_fresh nextObject_fresh
    oneFrame noTables ∅ hg s ht (pfn2virt 1) (by decide) hmapped _ hreach⟩

end Borgos.Kcore
