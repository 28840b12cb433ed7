import Borgos.Foundations.Dyadic
import Borgos.Mmu.RangeLaws

/-! # Frames that are not tables

The page allocator also gives out blocks of frames for stacks and programs. `Apart Good D` is `Good` with the
frames `D` set aside: no table is ever made from one of them, and no call on tables changes what they hold.
-/
namespace Borgos.Mmu
open Borgos.Foundations Borgos.Mem
set_option autoImplicit false

variable {ρ : Type}

/-- The tables use `used`, the frames `D` are out for something else. -/
def Apart (Good : ρ → Set ℕ → Prop) (D : Set ℕ) (phys : ρ) (used : Set ℕ) : Prop :=
  Good phys (used ∪ D) ∧ Disjoint used D

theorem FreshPages.apart {alloc : Prog ρ ℕ} {Good : ρ → Set ℕ → Prop} (hA : FreshPages alloc Good) (D : Set ℕ) :
    FreshPages alloc (Apart Good D) where
  fresh := by
    intro phys phys' used tbl hg hrun
    obtain ⟨f, hf, hout, htbl, hgood⟩ := hA.fresh hg.1 hrun
    refine ⟨f, hf, fun hm => hout (Or.inl hm), htbl, ?_, ?_⟩
    · rw [Set.insert_union]
      exact hgood
    · rw [Set.disjoint_insert_left]
      exact ⟨fun hm => hout (Or.inr hm), hg.2⟩

/-! ## What calls on tables leave alone -/

section Data
variable {alloc : Prog ρ ℕ} {Good : ρ → Set ℕ → Prop} {roots used D : Set ℕ}
  {place : ℕ → Option (Option ℕ × List ℕ)} {s s' : Tables ρ}

theorem Space.not_data (h : Space s.mem roots place used) (hd : Disjoint used D) {t : ℕ}
    (ht : t ∈ roots ∨ place t ≠ none) {d : ℕ} (hmem : d ∈ D) : d ≠ t := by
  intro e
  rw [e] at hmem
  exact Set.disjoint_left.mp hd (h.used t ht).1 hmem

theorem getsubtable_data (hA : FreshPages alloc Good) (hg : Apart Good D s.phys used) {t idx flags tbl : ℕ}
    (ht : t < 2 ^ 36) (hflags : flags < 2 ^ 12) (hout : ∀ d ∈ D, d ≠ t)
    (hrun : pagetableWalkGetsubtable alloc (p2v (t * 2 ^ 12)) idx flags s = .ok tbl s') :
    ∀ d ∈ D, s'.mem d = s.mem d := by
  intro d hd
  rcases getsubtable_run (hA.apart D) hg ht hflags hrun with ⟨-, hs, -⟩ | ⟨-, f, -, -, -, hgood, hstate, -⟩
  · rw [hs]
  · have hdf : d ≠ f := by
      intro e
      rw [e] at hd
      exact Set.disjoint_left.mp hgood.2 (Set.mem_insert f used) hd
    rw [hstate, setCell_row _ _ _ _ (hout d hd), Function.update_of_ne hdf]

theorem getlvl1table_data (hA : FreshPages alloc Good) (h : Space s.mem roots place used)
    (hg : Apart Good D s.phys used) {r vaddr flags tbl : ℕ} (hr : r ∈ roots) (hflags : flags < 2 ^ 7)
    (hodd : flags % 2 = 1) (hrun : pagetableWalkGetlvl1table alloc (p2v (r * 2 ^ 12)) vaddr flags s = .ok tbl s') :
    ∀ d ∈ D, s'.mem d = s.mem d := by
  refine getlvl1table_keeps (I := fun u => ∀ d ∈ D, u.mem d = s.mem d) (hA.apart D) h hg hr hflags hodd ?_ hrun
    fun _ _ => rfl
  intro u u' p used t idx tbl o q hsp hgood ht hslot hrun hold d hd
  have hplace : t ∈ roots ∨ p t ≠ none := by
    rcases hslot with ⟨ht, -⟩ | ⟨_, hp, -⟩
    · exact Or.inl ht
    · exact Or.inr (by rw [hp]; exact Option.some_ne_none _)
  rw [getsubtable_data hA hgood ht (by omega) (fun x hx => hsp.not_data hgood.2 hplace hx) hrun d hd]
  exact hold d hd

theorem mmuMapPage_data (hA : FreshPages alloc Good) (h : Space s.mem roots place used)
    (hg : Apart Good D s.phys used) {r paddr vaddr flags : ℕ} (hr : r ∈ roots)
    (hrun : mmuMapPage alloc (p2v (r * 2 ^ 12)) paddr vaddr flags s = .ok () s') : ∀ d ∈ D, s'.mem d = s.mem d := by
  intro d hd
  obtain ⟨-, s₁, place', used', t, hrun₁, hsp, hgood, -, hpl, -, -, hmem, -⟩ := mmuMapPage_run (hA.apart D) h hg hr hrun
  have hdt : d ≠ t := hsp.not_data hgood.2 (Or.inr (by rw [hpl]; simp)) hd
  rw [hmem, setCell_row _ _ _ _ hdt]
  exact getlvl1table_data hA h hg hr (dircreateflagsOf_spec flags).1 (dircreateflagsOf_spec flags).2 hrun₁ d hd

theorem copyEntries_data {k u d : ℕ} (hu : u < 2 ^ 36) (hd : d ≠ u) (is : List ℕ) (s : Tables ρ) :
    (is.foldl (fun s i => mmuCopyEntry (p2v (k * 2 ^ 12)) (p2v (u * 2 ^ 12)) i s) s).mem d = s.mem d := by
  induction is generalizing s with
  | nil => rfl
  | cons i is ih =>
    rw [List.foldl_cons, ih]
    unfold mmuCopyEntry Tables.setEntry
    split
    · rw [frameOf_p2v hu]
      exact setCell_row _ _ _ _ hd
    · rfl

end Data

section Histories
variable {alloc : Prog ρ ℕ} {Good : ρ → Set ℕ → Prop} {a b : TableSystem ρ} {calls : List TableCall}

theorem TableHistory.space (hA : FreshPages alloc Good) (hist : TableHistory alloc a calls b)
    (h : ∃ place used, Space a.tables.mem a.roots place used ∧ Good a.tables.phys used) :
    ∃ place used, Space b.tables.mem b.roots place used ∧ Good b.tables.phys used := by
  induction hist with
  | nil => exact h
  | snoc call _ hcall ih => exact hcall.step.space hA ih

theorem TableHistory.data (hA : FreshPages alloc Good) {D : Set ℕ} (hist : TableHistory alloc a calls b)
    (h : ∃ place used, Space a.tables.mem a.roots place used ∧ Apart Good D a.tables.phys used) :
    ∀ d ∈ D, b.tables.mem d = a.tables.mem d := by
  induction hist with
  | nil => exact fun _ _ => rfl
  | @snoc calls b c call hist hcall ih =>
    intro d hd
    obtain ⟨place, used, hsp, hg⟩ := hist.space (hA.apart D) h
    rw [← ih d hd]
    cases call with
    | init =>
      obtain ⟨tbl, hrun, -⟩ := hcall
      obtain ⟨f, -, -, -, hgood, hmem, -⟩ := pagetableAlloc_spec (hA.apart D) hg hrun
      have hdf : d ≠ f := by
        intro e
        rw [e] at hd
        exact Set.disjoint_left.mp hgood.2 (Set.mem_insert f used) hd
      rw [hmem, Function.update_of_ne hdf]
    | user k u =>
      obtain ⟨-, hu, -, hrun⟩ := hcall
      obtain ⟨-, e⟩ := Outcome.ok.inj hrun
      beta_reduce at e
      rw [← e]
      unfold tablePtr
      exact copyEntries_data (hsp.used u (Or.inl hu)).2 (hsp.not_data hg.2 (Or.inl hu) hd) _ b.tables
    | map r paddr vaddr flags =>
      obtain ⟨hr, -, hrun⟩ := hcall
      exact mmuMapPage_data hA hsp hg hr hrun d hd

end Histories

/-! ## Memory that is not a table -/

section Memory
variable {mem mem' : ℕ → ℕ → ℕ} {roots used used' : Set ℕ} {place : ℕ → Option (Option ℕ × List ℕ)}

theorem Space.mono (h : Space mem roots place used) (hsub : used ⊆ used') : Space mem roots place used' :=
  ⟨h.forest, fun t ht => ⟨hsub (h.used t ht).1, (h.used t ht).2⟩, h.inner, h.clean⟩

/-- The tables are what they were. -/
theorem Space.congr (h : Space mem roots place used) (heq : ∀ f ∈ used, mem' f = mem f) :
    Space mem' roots place used := by
  have hroot : ∀ r ∈ roots, mem' r = mem r := fun r hr => heq r (h.used r (Or.inl hr)).1
  have htable : ∀ t x, place t = some x → mem' t = mem t :=
    fun t x ht => heq t (h.used t (Or.inr (by rw [ht]; simp))).1
  refine ⟨⟨h.forest.root_place, ?_, ?_⟩, h.used, ?_, ?_⟩
  · intro r hr i u hu
    rw [hroot r hr] at hu
    exact h.forest.root_child r hr i u hu
  · intro t o p ht hlen i u hu
    rw [htable t _ ht] at hu
    exact h.forest.inner_child t o p ht hlen i u hu
  · intro t i ht
    have hsame : mem' t = mem t := by
      rcases ht with hr | ⟨o, p, hp, -⟩
      · exact hroot t hr
      · exact htable t _ hp
    rw [hsame]
    exact h.inner t i ht
  · intro t o p i ht hlen
    rw [htable t _ ht]
    exact h.clean t o p i ht hlen

theorem Space.lookup_congr (h : Space mem roots place used) (heq : ∀ f ∈ used, mem' f = mem f) {L : Type}
    (leaf : ℕ → Option L) {r : ℕ} (hr : r ∈ roots) (path : List ℕ) (hlen : path.length ≤ 3) (i : ℕ) :
    lookup entryChild leaf mem' r path i = lookup entryChild leaf mem r path i := by
  have htable : ∀ q, q.length ≤ 3 → ∀ t, walk entryChild mem r q = some t → mem' t = mem t := by
    intro q hq t hw
    rcases h.forest.walk_cases hr hq hw with ⟨-, e⟩ | ⟨o, ho⟩
    · rw [e]
      exact heq r (h.used r (Or.inl hr)).1
    · exact heq t (h.used t (Or.inr (by rw [ho]; simp))).1
  have hwalk : ∀ q, q.length ≤ 3 → walk entryChild mem' r q = walk entryChild mem r q := by
    intro q
    induction q using List.reverseRecOn with
    | nil =>
      intro _
      rfl
    | append_singleton q j ih =>
      intro hq
      rw [List.length_append, List.length_singleton] at hq
      rw [walk_concat, walk_concat, ih (by omega)]
      apply Option.bind_congr
      intro t ht
      rw [htable q (by omega) t ht]
  unfold lookup
  rw [hwalk path hlen]
  apply Option.bind_congr
  intro t ht
  rw [htable path hlen t ht]

theorem Space.hardwareWalk_congr (h : Space mem roots place used) (heq : ∀ f ∈ used, mem' f = mem f) {r : ℕ}
    (hr : r ∈ roots) (v : ℕ) : hardwareWalk mem' r v = hardwareWalk mem r v := by
  rw [(h.congr heq).hardwareWalk_eq hr, h.hardwareWalk_eq hr, h.lookup_congr heq entryLeaf hr _ (pathOf_length v).le]

end Memory

/-! ## The page allocator with blocks -/

/-- A call for a block gives frames that are not out, below `2^36`. -/
structure FreshBlocks (alloc : ℕ → Prog ρ ℕ) (Good : ρ → Set ℕ → Prop) : Prop where
  fresh : ∀ {phys phys' : ρ} {used : Set ℕ} {k f : ℕ}, k ≤ allocbuddyMaxorder → Good phys used →
    alloc k phys = .ok f phys' → f + 2 ^ k ≤ 2 ^ 36 ∧ Disjoint used (Block.frames ⟨f, k⟩) ∧
      Good phys' (used ∪ Block.frames ⟨f, k⟩)

/-- `page_alloc_pages_virt(0, 0)`. -/
def allocPageVirt (alloc : ℕ → Prog ρ ℕ) : Prog ρ ℕ := do
  let pfn ← alloc 0
  pure (pfn2virt pfn)

theorem pfn2virt_eq {f : ℕ} (hf : f < 2 ^ 36) : pfn2virt f = p2v (f * 2 ^ 12) := by
  unfold pfn2virt pfn2phys pagesize wordSize
  rw [Nat.mod_eq_of_lt (by omega), show (4096 : ℕ) = 2 ^ 12 from rfl]

theorem frames_zero (f : ℕ) : Block.frames ⟨f, 0⟩ = {f} := by
  ext g
  rw [Block.mem_frames, Set.mem_singleton_iff]
  simp only [pow_zero]
  omega

theorem FreshBlocks.pages {alloc : ℕ → Prog ρ ℕ} {Good : ρ → Set ℕ → Prop} (hB : FreshBlocks alloc Good) :
    FreshPages (allocPageVirt alloc) Good where
  fresh := by
    intro phys phys' used tbl hg hrun
    obtain ⟨f, t, hf, hrun⟩ := Prog.bind_ok.mp hrun
    obtain ⟨rfl, rfl⟩ := Outcome.ok.inj hrun
    obtain ⟨hlt, hout, hgood⟩ := hB.fresh (Nat.zero_le _) hg hf
    rw [frames_zero] at hout hgood
    have hf36 : f < 2 ^ 36 := by omega
    refine ⟨f, hf36, Set.disjoint_singleton_right.mp hout, pfn2virt_eq hf36, ?_⟩
    rw [← Set.union_singleton]
    exact hgood

end Borgos.Mmu
