import Borgos.Mmu.Pagetable

/-! # What `mmu_map_page` does to every translation

`Space mem roots place used`: the tables form a `Forest` of depth 3. A table of level 3 for the lower
half belongs to one root, the tables for the upper half may belong to all. `mmuMapPage_spec` says what
one call does to the translations of all roots.
-/
namespace Borgos.Mmu
open Borgos.Foundations Borgos.Mem
set_option autoImplicit false

/-! ## Entries -/

theorem and_baseMask (e : ℕ) : e &&& 0x0000FFFFFFFFF000 = entryBase e * 2 ^ 12 := by
  have hmask : (0x0000FFFFFFFFF000 : ℕ) = (2 ^ 36 - 1) * 2 ^ 12 := by norm_num
  unfold entryBase
  rw [hmask]
  apply Nat.eq_of_testBit_eq
  intro i
  rw [Nat.testBit_and, Nat.testBit_mul_two_pow, Nat.testBit_mul_two_pow, Nat.testBit_two_pow_sub_one,
    Nat.testBit_mod_two_pow, Nat.testBit_div_two_pow]
  by_cases h : 12 ≤ i
  · rw [Nat.sub_add_cancel h]
    cases e.testBit i <;> simp
  · simp [h]

theorem subtblentrySetrawflags_eq (e : ℕ) {flags : ℕ} (h : flags < 2 ^ 12) :
    subtblentrySetrawflags e flags = entryBase e * 2 ^ 12 + flags := by
  unfold subtblentrySetrawflags
  rw [and_baseMask, Nat.mul_comm, Nat.two_pow_add_eq_or_of_lt h]

theorem entryBase_setbase (e base : ℕ) : entryBase (entrySetbase e base) = base / 2 ^ 12 % 2 ^ 36 := by
  unfold entryBase entrySetbase
  omega

/-- An entry built from a frame number and flags. -/
theorem entryBase_mk {f flags : ℕ} (hf : f < 2 ^ 36) (h : flags < 2 ^ 12) : entryBase (f * 2 ^ 12 + flags) = f := by
  unfold entryBase
  omega

theorem entryFlags_mk {f flags : ℕ} (hf : f < 2 ^ 36) (h : flags < 2 ^ 12) :
    entryFlags (f * 2 ^ 12 + flags) = flags := by
  unfold entryFlags
  omega

theorem entryP_mk (f flags : ℕ) : entryP (f * 2 ^ 12 + flags) = flags % 2 := by
  unfold entryP
  omega

theorem entryPs_mk (f flags : ℕ) : entryPs (f * 2 ^ 12 + flags) = flags / 2 ^ 7 % 2 := by
  unfold entryPs
  omega

/-- The leaf entry of `mmu_map_page` over an entry with no other bits set. -/
theorem pte_eq {e paddr flags : ℕ} (he : entryFlags e < 2 ^ 9) (hf : flags < 2 ^ 9) :
    pteSetrawflags (entrySetbase e paddr) flags = paddr / 2 ^ 12 % 2 ^ 36 * 2 ^ 12 + flags := by
  unfold entryFlags at he
  unfold pteSetrawflags entrySetbase
  omega

theorem pteflagsOf_spec (flags : ℕ) : pteflagsOf flags < 2 ^ 9 ∧ pteflagsOf flags % 2 = 1 := by
  unfold pteflagsOf
  split
  · split
    · decide
    · decide
  · split
    · decide
    · decide

theorem dircreateflagsOf_spec (flags : ℕ) :
    dircreateflagsOf flags < 2 ^ 7 ∧ dircreateflagsOf flags % 2 = 1 := by
  unfold dircreateflagsOf
  split
  · decide
  · decide

theorem frameOf_p2v {f : ℕ} (h : f < 2 ^ 36) : frameOf (p2v (f * 2 ^ 12)) = f := by
  unfold frameOf phys2pfn pagesize
  rw [v2p_p2v (by omega)]
  omega

/-! ## Address spaces -/

def entryChild (e : ℕ) : Option ℕ := if entryP e = 1 then some (entryBase e) else none

def entryLeaf (e : ℕ) : Option Translation := if entryP e = 1 then some ⟨entryBase e, entryFlags e⟩ else none

/-- Lower-half tables have one owner, upper-half tables are common to all roots. -/
def owner (root i : ℕ) : Option ℕ := if i < 256 then some root else none

/-- The indices of levels 4, 3 and 2. -/
def pathOf (vaddr : ℕ) : List ℕ := [lvl4idx vaddr, lvl3idx vaddr, lvl2idx vaddr]

/-- The page of an address, 36 bits. -/
def vpn (vaddr : ℕ) : ℕ := vaddr / 2 ^ 12 % 2 ^ 36

/-- The table of an entry of level 4, 3 or 2. -/
def Inner (roots : Set ℕ) (place : ℕ → Option (Option ℕ × List ℕ)) (t : ℕ) : Prop :=
  t ∈ roots ∨ ∃ o p, place t = some (o, p) ∧ p.length < 3

structure Space (mem : ℕ → ℕ → ℕ) (roots : Set ℕ) (place : ℕ → Option (Option ℕ × List ℕ)) (used : Set ℕ) : Prop where
  forest : Forest entryChild owner 3 mem roots place
  used : ∀ t, t ∈ roots ∨ place t ≠ none → t ∈ used ∧ t < 2 ^ 36
  inner : ∀ t i, Inner roots place t → entryPs (mem t i) = 0
  clean : ∀ t o p i, place t = some (o, p) → p.length = 3 → entryFlags (mem t i) < 2 ^ 9

theorem pathOf_length (v : ℕ) : (pathOf v).length = 3 := rfl

/-- A page is determined by its four indices. -/
theorem vpn_eq_iff (v w : ℕ) : vpn v = vpn w ↔ pathOf v = pathOf w ∧ lvl1idx v = lvl1idx w := by
  unfold pathOf vpn lvl1idx lvl2idx lvl3idx lvl4idx
  simp only [List.cons.injEq, and_true]
  omega

theorem entryP_cases (e : ℕ) : entryP e = 0 ∨ entryP e = 1 := by
  unfold entryP
  omega

/-- Without large pages the processor's walk is a lookup. -/
theorem Space.hardwareWalk_eq {mem : ℕ → ℕ → ℕ} {roots used : Set ℕ} {place : ℕ → Option (Option ℕ × List ℕ)}
    (h : Space mem roots place used) {r : ℕ} (hr : r ∈ roots) (v : ℕ) :
    hardwareWalk mem r v = lookup entryChild entryLeaf mem r (pathOf v) (lvl1idx v) := by
  unfold hardwareWalk lookup pathOf
  obtain ⟨e4, he4⟩ : ∃ e4, e4 = mem r (lvl4idx v) := ⟨_, rfl⟩
  have hw4 : walk entryChild mem r [lvl4idx v] = entryChild e4 := by rw [he4]; rfl
  have hsplit : walk entryChild mem r [lvl4idx v, lvl3idx v, lvl2idx v] =
      ((entryChild e4).bind fun t => entryChild (mem t (lvl3idx v))).bind
        fun t => entryChild (mem t (lvl2idx v)) := by
    rw [he4]
    rfl
  simp only [← he4, hsplit]
  rcases entryP_cases e4 with h4 | h4
  · simp [h4, entryChild]
  · have hc4 : entryChild e4 = some (entryBase e4) := by simp [entryChild, h4]
    have hp4 : place (entryBase e4) = some (owner r (lvl4idx v), [lvl4idx v]) :=
      h.forest.root_child r hr _ _ (by rw [← he4]; exact hc4)
    obtain ⟨e3, he3⟩ : ∃ e3, e3 = mem (entryBase e4) (lvl3idx v) := ⟨_, rfl⟩
    have hps3 : entryPs e3 = 0 := by
      rw [he3]
      exact h.inner _ _ (Or.inr ⟨_, _, hp4, by simp⟩)
    simp only [h4, hc4, ← he3, Option.bind_some, hps3]
    rcases entryP_cases e3 with h3 | h3
    · simp [h3, entryChild]
    · have hc3 : entryChild e3 = some (entryBase e3) := by simp [entryChild, h3]
      have hp3 : place (entryBase e3) = some (owner r (lvl4idx v), [lvl4idx v] ++ [lvl3idx v]) :=
        h.forest.inner_child _ _ _ hp4 (by simp) _ _ (by rw [← he3]; exact hc3)
      obtain ⟨e2, he2⟩ : ∃ e2, e2 = mem (entryBase e3) (lvl2idx v) := ⟨_, rfl⟩
      have hps2 : entryPs e2 = 0 := by
        rw [he2]
        exact h.inner _ _ (Or.inr ⟨_, _, hp3, by simp⟩)
      simp only [h3, hc3, ← he2, Option.bind_some, hps2]
      rcases entryP_cases e2 with h2 | h2
      · simp [h2, entryChild]
      · have hc2 : entryChild e2 = some (entryBase e2) := by simp [entryChild, h2]
        simp only [h2, hc2, Option.bind_some, entryLeaf]
        rcases entryP_cases (mem (entryBase e2) (lvl1idx v)) with h1 | h1
        · simp [h1]
        · simp [h1]

/-! ## The page allocator -/

variable {ρ : Type}

/-- `Good phys used`: in state `phys` the pages `used` are out. A call gives a page that is not, below
`2^48`. -/
structure FreshPages (alloc : Prog ρ ℕ) (Good : ρ → Set ℕ → Prop) : Prop where
  fresh : ∀ {phys phys' : ρ} {used : Set ℕ} {tbl : ℕ}, Good phys used → alloc phys = .ok tbl phys' →
    ∃ f, f < 2 ^ 36 ∧ f ∉ used ∧ tbl = p2v (f * 2 ^ 12) ∧ Good phys' (insert f used)

section Specs
variable {alloc : Prog ρ ℕ} {Good : ρ → Set ℕ → Prop} {roots used : Set ℕ}
  {place : ℕ → Option (Option ℕ × List ℕ)} {s s' : Tables ρ}

theorem pagetableAlloc_spec (hA : FreshPages alloc Good) (hg : Good s.phys used) {tbl : ℕ}
    (h : pagetableAlloc alloc s = .ok tbl s') : ∃ f, f < 2 ^ 36 ∧ f ∉ used ∧ tbl = p2v (f * 2 ^ 12) ∧
      Good s'.phys (insert f used) ∧ s'.mem = Function.update s.mem f (fun _ => 0) ∧
      s'.kernelpagetable = s.kernelpagetable := by
  unfold pagetableAlloc allocTable at h
  obtain ⟨t, s₁, h₁, h⟩ := Prog.bind_ok.mp h
  obtain ⟨phys, hrun, rfl⟩ := Prog.zoom_ok.mp h₁
  obtain ⟨f, hf, hout, htbl, hgood⟩ := hA.fresh hg hrun
  by_cases hz : t = 0
  · rw [if_pos hz] at h
    exact absurd h Prog.panic_ne_ok
  · rw [if_neg hz] at h
    obtain ⟨_, s₂, h₂, h⟩ := Prog.bind_ok.mp h
    obtain ⟨-, e₂⟩ := Outcome.ok.inj h₂
    obtain ⟨e₁, e₃⟩ := Outcome.ok.inj h
    rw [← e₁, ← e₃, ← e₂]
    refine ⟨f, hf, hout, htbl, hgood, ?_, rfl⟩
    show Function.update s.mem (frameOf t) _ = _
    rw [htbl, frameOf_p2v hf]

/-- What the making of tables keeps: lookups, walks that arrived, places. -/
structure Grows (roots : Set ℕ) (s s' : Tables ρ) (place place' : ℕ → Option (Option ℕ × List ℕ)) : Prop where
  lookup : ∀ r ∈ roots, ∀ path, path.length = 3 → ∀ j,
    lookup entryChild entryLeaf s'.mem r path j = lookup entryChild entryLeaf s.mem r path j
  walk : ∀ r ∈ roots, ∀ path, path.length ≤ 3 → ∀ u,
    walk entryChild s.mem r path = some u → walk entryChild s'.mem r path = some u
  place : ∀ t x, place t = some x → place' t = some x
  kernel : s'.kernelpagetable = s.kernelpagetable

theorem Grows.refl (roots : Set ℕ) (s : Tables ρ) (place : ℕ → Option (Option ℕ × List ℕ)) :
    Grows roots s s place place :=
  ⟨fun _ _ _ _ _ => rfl, fun _ _ _ _ _ h => h, fun _ _ h => h, rfl⟩

theorem Grows.trans {s₁ s₂ s₃ : Tables ρ} {p₁ p₂ p₃ : ℕ → Option (Option ℕ × List ℕ)}
    (h : Grows roots s₁ s₂ p₁ p₂) (h' : Grows roots s₂ s₃ p₂ p₃) : Grows roots s₁ s₃ p₁ p₃ where
  lookup r hr path hlen j := (h'.lookup r hr path hlen j).trans (h.lookup r hr path hlen j)
  walk r hr path hlen u hu := h'.walk r hr path hlen u (h.walk r hr path hlen u hu)
  place t x hx := h'.place t x (h.place t x hx)
  kernel := h'.kernel.trans h.kernel

theorem entryChild_zero : entryChild 0 = none := rfl

theorem entryChild_absent {e : ℕ} (h : entryP e ≠ 1) : entryChild e = none := if_neg h

/-- The entry of a new table. -/
theorem entryChild_mk {f flags : ℕ} (hf : f < 2 ^ 36) (hflags : flags < 2 ^ 12) (hodd : flags % 2 = 1) :
    entryChild (f * 2 ^ 12 + flags) = some f := by
  unfold entryChild
  rw [entryP_mk, if_pos hodd, entryBase_mk hf hflags]

theorem entryLeaf_zero : entryLeaf 0 = none := rfl

theorem Space.place_none (h : Space s.mem roots place used) {f : ℕ} (hf : f ∉ used) : f ∉ roots ∧ place f = none := by
  constructor
  · exact fun hr => hf (h.used f (Or.inl hr)).1
  · by_contra hne
    exact hf (h.used f (Or.inr hne)).1

/-- `pagetable_walk_getsubtable` finds the entry present, or links a new empty table. -/
theorem getsubtable_run (hA : FreshPages alloc Good) (hg : Good s.phys used) {t idx flags tbl : ℕ} (ht : t < 2 ^ 36)
    (hflags : flags < 2 ^ 12) (hrun : pagetableWalkGetsubtable alloc (p2v (t * 2 ^ 12)) idx flags s = .ok tbl s') :
    (entryP (s.mem t idx) = 1 ∧ s' = s ∧ tbl = subtblentryGetbase (s.mem t idx)) ∨
    (entryP (s.mem t idx) = 0 ∧ ∃ f, f < 2 ^ 36 ∧ f ∉ used ∧ tbl = p2v (f * 2 ^ 12) ∧ Good s'.phys (insert f used) ∧
      s'.mem = setCell (Function.update s.mem f fun _ => 0) t idx (f * 2 ^ 12 + flags) ∧
      s'.kernelpagetable = s.kernelpagetable) := by
  unfold pagetableWalkGetsubtable at hrun
  by_cases hidx : idx > 512
  · rw [if_pos hidx] at hrun
    exact absurd hrun Prog.panic_ne_ok
  rw [if_neg hidx] at hrun
  obtain ⟨_, s₁, h₁, hrun⟩ := Prog.bind_ok.mp hrun
  obtain ⟨_, _, hget, hrun⟩ := Prog.bind_ok.mp hrun
  obtain ⟨rfl, rfl⟩ := Outcome.ok.inj hget
  obtain ⟨rfl, rfl⟩ := Outcome.ok.inj hrun
  have hframe := frameOf_p2v ht
  unfold pagetableEnsureSubtable at h₁
  obtain ⟨_, _, hget, h₁⟩ := Prog.bind_ok.mp h₁
  obtain ⟨rfl, rfl⟩ := Outcome.ok.inj hget
  unfold Tables.entry at h₁ ⊢
  rw [hframe] at h₁ ⊢
  rcases entryP_cases (s.mem t idx) with hp | hp
  · rw [if_pos hp] at h₁
    obtain ⟨new, s₂, halloc, h₁⟩ := Prog.bind_ok.mp h₁
    obtain ⟨f, hf, hout, htbl, hgood, hmem, hker⟩ := pagetableAlloc_spec hA hg halloc
    obtain ⟨_, s₃, h₃, h₁⟩ := Prog.bind_ok.mp h₁
    obtain ⟨-, rfl⟩ := Outcome.ok.inj h₃
    obtain ⟨-, rfl⟩ := Outcome.ok.inj h₁
    have hstate : ((s₂.setEntry (p2v (t * 2 ^ 12)) idx fun e => entrySetbase e (v2p new)).setEntry
        (p2v (t * 2 ^ 12)) idx fun e => subtblentrySetrawflags e flags).mem =
        setCell (Function.update s.mem f fun _ => 0) t idx (f * 2 ^ 12 + flags) := by
      unfold Tables.setEntry Tables.entry
      simp only [hframe, setCell_self, hmem]
      rw [htbl, v2p_p2v (by omega), subtblentrySetrawflags_eq _ hflags, entryBase_setbase]
      have hdiv : f * 2 ^ 12 / 2 ^ 12 % 2 ^ 36 = f := by omega
      rw [hdiv]
      unfold setCell
      rw [Function.update_self, Function.update_idem, Function.update_idem]
    refine Or.inr ⟨hp, f, hf, hout, ?_, hgood, hstate, hker⟩
    unfold subtblentryGetbase
    rw [hstate, setCell_self, entryBase_mk hf hflags]
  · rw [if_neg (by omega)] at h₁
    obtain ⟨-, rfl⟩ := Outcome.ok.inj h₁
    exact Or.inl ⟨hp, rfl, rfl⟩

/-- `pagetable_walk_getsubtable` on a table of level 4, 3 or 2. -/
theorem getsubtable_spec (hA : FreshPages alloc Good) (h : Space s.mem roots place used) (hg : Good s.phys used)
    {t idx flags tbl : ℕ} {o : Option ℕ} {q : List ℕ} (ht : t < 2 ^ 36)
    (hslot : Forest.Slot owner 3 roots place t idx o q) (hflags : flags < 2 ^ 7) (hodd : flags % 2 = 1)
    (hrun : pagetableWalkGetsubtable alloc (p2v (t * 2 ^ 12)) idx flags s = .ok tbl s') :
    ∃ place' used' u, u < 2 ^ 36 ∧ tbl = p2v (u * 2 ^ 12) ∧ Space s'.mem roots place' used' ∧ Good s'.phys used' ∧
      Grows roots s s' place place' ∧ place' u = some (o, q) ∧ entryChild (s'.mem t idx) = some u ∧
      (∀ r ∈ roots, ∀ i, ¬(r = t ∧ i = idx ∧ entryP (s.mem t idx) = 0) → s'.mem r i = s.mem r i) := by
  have hf12 : flags < 2 ^ 12 := by omega
  rcases getsubtable_run hA hg ht hf12 hrun with ⟨hp, hs, htbl⟩ | ⟨hp, f, hf, hout, htbl, hgood, hstate, hker⟩
  · -- present: nothing changes
    have hchild : entryChild (s.mem t idx) = some (entryBase (s.mem t idx)) := by
      unfold entryChild
      rw [if_pos hp]
    have hplace := h.forest.child_place hslot hchild
    rw [hs]
    refine ⟨place, used, entryBase (s.mem t idx), ?_, htbl, h, hg, Grows.refl roots s place, hplace, hchild,
      fun _ _ _ _ => rfl⟩
    unfold entryBase
    exact Nat.mod_lt _ (by positivity)
  · -- not present: a new table
    obtain ⟨hnr, hnp⟩ := h.place_none hout
    obtain ⟨e, he⟩ : ∃ e, e = f * 2 ^ 12 + flags := ⟨_, rfl⟩
    rw [← he] at hstate
    have hchild : entryChild e = some f := by
      rw [he]
      exact entryChild_mk hf hf12 hodd
    have hps : entryPs e = 0 := by
      rw [he, entryPs_mk]
      omega
    have hnone : entryChild (s.mem t idx) = none := entryChild_absent (by omega)
    have htf : t ≠ f := hslot.ne hnr hnp
    have hrow : ∀ u, u ≠ f → ∀ i, ¬(u = t ∧ i = idx) →
        setCell (Function.update s.mem f fun _ => 0) t idx e u i = s.mem u i := by
      intro u hu i hi
      rw [setCell_ne _ _ _ _ hi, Function.update_of_ne hu]
    have hblank : ∀ i, setCell (Function.update s.mem f fun _ => 0) t idx e f i = 0 := by
      intro i
      rw [setCell_row _ _ _ _ (Ne.symm htf), Function.update_self]
    have hkeep : ∀ u x, place u = some x → Function.update place f (some (o, q)) u = some x := by
      intro u x hu
      rw [Function.update_of_ne (by intro e'; rw [e', hnp] at hu; cases hu)]
      exact hu
    have hcell : setCell (Function.update s.mem f fun _ => 0) t idx e t idx = e := setCell_self ..
    rw [hstate, hcell]
    refine ⟨Function.update place f (some (o, q)), insert f used, f, hf, htbl, ⟨?_, ?_, ?_, ?_⟩, hgood,
      ⟨?_, ?_, hkeep, hker⟩, Function.update_self .., hchild, ?_⟩
    · exact h.forest.link hslot hnr hnp (fun _ => entryChild_zero) hchild
    · intro u hu
      by_cases huf : u = f
      · rw [huf]
        exact ⟨Set.mem_insert f used, hf⟩
      · rw [Function.update_of_ne huf] at hu
        obtain ⟨hin, hlt⟩ := h.used u hu
        exact ⟨Set.mem_insert_of_mem f hin, hlt⟩
    · intro u i hu
      by_cases huf : u = f
      · rw [huf, hblank]
        rfl
      · by_cases hc : u = t ∧ i = idx
        · rw [hc.1, hc.2, setCell_self]
          exact hps
        · rw [hrow u huf i hc]
          refine h.inner u i ?_
          rcases hu with hu | ⟨o', p, hp', hlen⟩
          · exact Or.inl hu
          · rw [Function.update_of_ne huf] at hp'
            exact Or.inr ⟨o', p, hp', hlen⟩
    · intro u o' p i hu hlen
      by_cases huf : u = f
      · rw [huf, hblank]
        decide
      · rw [Function.update_of_ne huf] at hu
        have hut : u ≠ t := by
          intro e'
          rcases hslot with ⟨hr, -⟩ | ⟨p', hp', hlen', -⟩
          · rw [e', h.forest.root_place t hr] at hu
            cases hu
          · rw [e', hp'] at hu
            rw [← (Prod.mk.inj (Option.some.inj hu)).2] at hlen
            omega
        rw [hrow u huf i fun hc => hut hc.1]
        exact h.clean u o' p i hu hlen
    · intro r hr path hlen j
      rw [hstate]
      exact h.forest.lookup_link hslot hnr hnp (fun _ => entryChild_zero) (fun _ => entryLeaf_zero) hnone hchild hr
        path hlen j
    · intro r hr path hlen u hu
      rw [hstate]
      exact h.forest.walk_link_some hslot hnr hnp (fun _ => entryChild_zero) hnone hchild hr path hlen hu
    · intro r hr i hne
      refine hrow r ?_ i fun hc => hne ⟨hc.1, hc.2, hp⟩
      intro e'
      exact hnr (e' ▸ hr)

/-- `pagetable_walk_getlvl1table` from a root. -/
theorem getlvl1table_spec (hA : FreshPages alloc Good) (h : Space s.mem roots place used) (hg : Good s.phys used)
    {r vaddr flags tbl : ℕ} (hr : r ∈ roots) (hflags : flags < 2 ^ 7) (hodd : flags % 2 = 1)
    (hrun : pagetableWalkGetlvl1table alloc (p2v (r * 2 ^ 12)) vaddr flags s = .ok tbl s') :
    ∃ place' used' t, t < 2 ^ 36 ∧ tbl = p2v (t * 2 ^ 12) ∧ Space s'.mem roots place' used' ∧ Good s'.phys used' ∧
      Grows roots s s' place place' ∧ place' t = some (owner r (lvl4idx vaddr), pathOf vaddr) ∧
      walk entryChild s'.mem r (pathOf vaddr) = some t ∧
      (∀ r' ∈ roots, ∀ i, ¬(r' = r ∧ i = lvl4idx vaddr ∧ entryP (s.mem r (lvl4idx vaddr)) = 0) →
        s'.mem r' i = s.mem r' i) := by
  unfold pagetableWalkGetlvl1table at hrun
  obtain ⟨tbl₃, s₃, h₃, hrun⟩ := Prog.bind_ok.mp hrun
  obtain ⟨tbl₂, s₂, h₂, h₁⟩ := Prog.bind_ok.mp hrun
  have hrlt := (h.used r (Or.inl hr)).2
  obtain ⟨p₃, u₃, t₃, ht₃, htbl₃, hsp₃, hg₃, hgr₃, hpl₃, hc₃, hcell₃⟩ := getsubtable_spec hA h hg hrlt
    (Or.inl ⟨hr, rfl, rfl, by decide⟩) hflags hodd h₃
  rw [htbl₃] at h₂
  obtain ⟨p₂, u₂, t₂, ht₂, htbl₂, hsp₂, hg₂, hgr₂, hpl₂, hc₂, hcell₂⟩ := getsubtable_spec hA hsp₃ hg₃ ht₃
    (Or.inr ⟨_, hpl₃, by simp, rfl⟩) hflags hodd h₂
  rw [htbl₂] at h₁
  obtain ⟨p₁, u₁, t₁, ht₁, htbl₁, hsp₁, hg₁, hgr₁, hpl₁, hc₁, hcell₁⟩ := getsubtable_spec hA hsp₂ hg₂ ht₂
    (Or.inr ⟨_, hpl₂, by simp, rfl⟩) hflags hodd h₁
  have hw₃ : walk entryChild s₃.mem r [lvl4idx vaddr] = some t₃ := hc₃
  have hw₂ : walk entryChild s₂.mem r ([lvl4idx vaddr] ++ [lvl3idx vaddr]) = some t₂ := by
    rw [walk_concat, hgr₂.walk r hr _ (by simp) _ hw₃, Option.bind_some]
    exact hc₂
  have hw₁ : walk entryChild s'.mem r (([lvl4idx vaddr] ++ [lvl3idx vaddr]) ++ [lvl2idx vaddr]) = some t₁ := by
    rw [walk_concat, hgr₁.walk r hr _ (by simp) _ hw₂, Option.bind_some]
    exact hc₁
  have hnr : ∀ {place₀ : ℕ → Option (Option ℕ × List ℕ)} {mem : ℕ → ℕ → ℕ} {used₀ : Set ℕ} {t : ℕ}
      {x : Option ℕ × List ℕ}, Space mem roots place₀ used₀ → place₀ t = some x → ∀ r' ∈ roots, r' ≠ t := by
    intro place₀ mem used₀ t x hsp hx r' hr' e
    rw [← e, hsp.forest.root_place r' hr'] at hx
    cases hx
  refine ⟨p₁, u₁, t₁, ht₁, htbl₁, hsp₁, hg₁, (hgr₃.trans hgr₂).trans hgr₁, hpl₁, hw₁, ?_⟩
  intro r' hr' i hne
  rw [hcell₁ r' hr' i fun e => hnr hsp₂ hpl₂ r' hr' e.1, hcell₂ r' hr' i fun e => hnr hsp₃ hpl₃ r' hr' e.1]
  exact hcell₃ r' hr' i hne

/-- What each call of `pagetable_walk_getsubtable` keeps, `pagetable_walk_getlvl1table` keeps. -/
theorem getlvl1table_keeps {I : Tables ρ → Prop} (hA : FreshPages alloc Good) (h : Space s.mem roots place used)
    (hg : Good s.phys used) {r vaddr flags tbl : ℕ} (hr : r ∈ roots) (hflags : flags < 2 ^ 7) (hodd : flags % 2 = 1)
    (hkeeps : ∀ {u u' : Tables ρ} {p : ℕ → Option (Option ℕ × List ℕ)} {used : Set ℕ} {t idx tbl : ℕ} {o : Option ℕ}
      {q : List ℕ}, Space u.mem roots p used → Good u.phys used → t < 2 ^ 36 → Forest.Slot owner 3 roots p t idx o q →
      pagetableWalkGetsubtable alloc (p2v (t * 2 ^ 12)) idx flags u = .ok tbl u' → I u → I u')
    (hrun : pagetableWalkGetlvl1table alloc (p2v (r * 2 ^ 12)) vaddr flags s = .ok tbl s') (hI : I s) : I s' := by
  unfold pagetableWalkGetlvl1table at hrun
  obtain ⟨tbl₃, s₃, h₃, hrun⟩ := Prog.bind_ok.mp hrun
  obtain ⟨tbl₂, s₂, h₂, h₁⟩ := Prog.bind_ok.mp hrun
  have hrlt := (h.used r (Or.inl hr)).2
  have hslot₃ : Forest.Slot owner 3 roots place r (lvl4idx vaddr) (owner r (lvl4idx vaddr)) [lvl4idx vaddr] :=
    Or.inl ⟨hr, rfl, rfl, by decide⟩
  obtain ⟨p₃, u₃, t₃, ht₃, htbl₃, hsp₃, hg₃, -, hpl₃, -⟩ := getsubtable_spec hA h hg hrlt hslot₃ hflags hodd h₃
  rw [htbl₃] at h₂
  have hslot₂ : Forest.Slot owner 3 roots p₃ t₃ (lvl3idx vaddr) (owner r (lvl4idx vaddr))
      ([lvl4idx vaddr] ++ [lvl3idx vaddr]) := Or.inr ⟨_, hpl₃, by simp, rfl⟩
  obtain ⟨p₂, u₂, t₂, ht₂, htbl₂, hsp₂, hg₂, -, hpl₂, -⟩ := getsubtable_spec hA hsp₃ hg₃ ht₃ hslot₂ hflags hodd h₂
  rw [htbl₂] at h₁
  have hslot₁ : Forest.Slot owner 3 roots p₂ t₂ (lvl2idx vaddr) (owner r (lvl4idx vaddr))
      ([lvl4idx vaddr] ++ [lvl3idx vaddr] ++ [lvl2idx vaddr]) := Or.inr ⟨_, hpl₂, by simp, rfl⟩
  have hI₃ := hkeeps h hg hrlt hslot₃ h₃ hI
  have hI₂ := hkeeps hsp₃ hg₃ ht₃ hslot₂ h₂ hI₃
  exact hkeeps hsp₂ hg₂ ht₂ hslot₁ h₁ hI₂

/-- What one call of `mmu_map_page` on root `r` does. -/
structure Mapped (roots : Set ℕ) (s s' : Tables ρ) (r paddr vaddr flags : ℕ) : Prop where
  here : ∀ v, vpn v = vpn vaddr → hardwareWalk s'.mem r v = some ⟨paddr / 2 ^ 12 % 2 ^ 36, pteflagsOf flags⟩
  elsewhere : ∀ r' ∈ roots, ∀ v, vpn v ≠ vpn vaddr ∨ (lvl4idx vaddr < 256 ∧ r' ≠ r) →
    hardwareWalk s'.mem r' v = hardwareWalk s.mem r' v
  cells : ∀ r' ∈ roots, ∀ i, ¬(r' = r ∧ i = lvl4idx vaddr ∧ entryP (s.mem r (lvl4idx vaddr)) = 0) →
    s'.mem r' i = s.mem r' i
  kernel : s'.kernelpagetable = s.kernelpagetable

/-- The root entry on the way to the page is present afterwards. -/
theorem walk_head_present {mem : ℕ → ℕ → ℕ} {r i t : ℕ} {path : List ℕ}
    (h : walk entryChild mem r (i :: path) = some t) : entryP (mem r i) = 1 := by
  rcases entryP_cases (mem r i) with h0 | h1
  · rw [walk_cons, entryChild_absent (by omega)] at h
    cases h
  · exact h1

/-- `mmu_map_page` finds the table of level 1 and sets one entry of it. -/
theorem mmuMapPage_run (hA : FreshPages alloc Good) (h : Space s.mem roots place used) (hg : Good s.phys used)
    {r paddr vaddr flags : ℕ} (hr : r ∈ roots) (hrun : mmuMapPage alloc (p2v (r * 2 ^ 12)) paddr vaddr flags s =
      .ok () s') : (lvl4idx vaddr = 0 ∨ lvl4idx vaddr = 256) ∧ ∃ s₁ place' used' t,
      pagetableWalkGetlvl1table alloc (p2v (r * 2 ^ 12)) vaddr (dircreateflagsOf flags) s = .ok (p2v (t * 2 ^ 12)) s₁ ∧
      Space s₁.mem roots place' used' ∧ Good s₁.phys used' ∧ Grows roots s s₁ place place' ∧
      place' t = some (owner r (lvl4idx vaddr), pathOf vaddr) ∧ walk entryChild s₁.mem r (pathOf vaddr) = some t ∧
      (∀ r' ∈ roots, ∀ i, ¬(r' = r ∧ i = lvl4idx vaddr ∧ entryP (s.mem r (lvl4idx vaddr)) = 0) →
        s₁.mem r' i = s.mem r' i) ∧
      s'.mem = setCell s₁.mem t (lvl1idx vaddr) (paddr / 2 ^ 12 % 2 ^ 36 * 2 ^ 12 + pteflagsOf flags) ∧
      s'.phys = s₁.phys ∧ s'.kernelpagetable = s₁.kernelpagetable := by
  unfold mmuMapPage at hrun
  by_cases h256 : lvl4idx vaddr > 256
  · rw [if_pos h256] at hrun
    exact absurd hrun Prog.panic_ne_ok
  rw [if_neg h256] at hrun
  by_cases hlow : lvl4idx vaddr > 0 ∧ lvl4idx vaddr < 256
  · rw [if_pos hlow] at hrun
    exact absurd hrun Prog.panic_ne_ok
  rw [if_neg hlow] at hrun
  obtain ⟨tbl, s₁, h₁, hrun⟩ := Prog.bind_ok.mp hrun
  obtain ⟨_, s₂, h₂, hrun⟩ := Prog.bind_ok.mp hrun
  obtain ⟨-, e₂⟩ := Outcome.ok.inj h₂
  obtain ⟨-, e₃⟩ := Outcome.ok.inj hrun
  rw [← e₂] at e₃
  have hfl := pteflagsOf_spec flags
  obtain ⟨place', used', t, ht, htbl, hsp, hgood, hgr, hpl, hw, hcell⟩ := getlvl1table_spec hA h hg hr
    (dircreateflagsOf_spec flags).1 (dircreateflagsOf_spec flags).2 h₁
  have hclean := hsp.clean t _ _ (lvl1idx vaddr) hpl rfl
  rw [htbl] at h₁
  refine ⟨by omega, s₁, place', used', t, h₁, hsp, hgood, hgr, hpl, hw, hcell, ?_, ?_, ?_⟩
  · rw [← e₃]
    unfold Tables.setEntry Tables.entry
    simp only [htbl, frameOf_p2v ht, setCell_self]
    rw [pte_eq hclean hfl.1]
    unfold setCell
    rw [Function.update_self, Function.update_idem, Function.update_idem]
  · rw [← e₃]
    rfl
  · rw [← e₃]
    rfl

/-- **`mmu_map_page` installs one translation** and changes no other, in this root or any other one;
only a root that shares the upper half sees an upper-half page appear. -/
theorem mmuMapPage_spec (hA : FreshPages alloc Good) (h : Space s.mem roots place used) (hg : Good s.phys used)
    {r paddr vaddr flags : ℕ} (hr : r ∈ roots) (hrun : mmuMapPage alloc (p2v (r * 2 ^ 12)) paddr vaddr flags s =
      .ok () s') : ∃ place' used', Space s'.mem roots place' used' ∧ Good s'.phys used' ∧
      Mapped roots s s' r paddr vaddr flags ∧ (lvl4idx vaddr = 0 ∨ lvl4idx vaddr = 256) ∧
      entryP (s'.mem r (lvl4idx vaddr)) = 1 := by
  obtain ⟨hlvl4, s₁, place', used', t, -, hsp, hgood, hgr, hpl, hw, hcell, hmem, hphys, hker⟩ :=
    mmuMapPage_run hA h hg hr hrun
  have hfl := pteflagsOf_spec flags
  obtain ⟨e, he⟩ : ∃ e, e = paddr / 2 ^ 12 % 2 ^ 36 * 2 ^ 12 + pteflagsOf flags := ⟨_, rfl⟩
  rw [← he] at hmem
  have hframe : paddr / 2 ^ 12 % 2 ^ 36 < 2 ^ 36 := Nat.mod_lt _ (by positivity)
  have hf12 : pteflagsOf flags < 2 ^ 12 := by have := hfl.1; omega
  have hleaf : entryLeaf e = some ⟨paddr / 2 ^ 12 % 2 ^ 36, pteflagsOf flags⟩ := by
    unfold entryLeaf
    rw [he, entryP_mk, if_pos hfl.2, entryBase_mk hframe hf12, entryFlags_mk hframe hf12]
  have htroot : ∀ r' ∈ roots, r' ≠ t := by
    intro r' hr' e'
    rw [← e', hsp.forest.root_place r' hr'] at hpl
    cases hpl
  have hforest := hsp.forest.store (i := lvl1idx vaddr) (e := e) hpl rfl
  have hspace : Space s'.mem roots place' used' := by
    rw [hmem]
    refine ⟨hforest, hsp.used, ?_, ?_⟩
    · intro u i hu
      have hut : u ≠ t := by
        rcases hu with hu | ⟨o, p, hp', hlen⟩
        · exact htroot u hu
        · intro e'
          rw [e', hpl] at hp'
          rw [← (Prod.mk.inj (Option.some.inj hp')).2, pathOf_length] at hlen
          omega
      rw [setCell_row _ _ _ _ hut]
      exact hsp.inner u i hu
    · intro u o p i hu hlen
      by_cases hc : u = t ∧ i = lvl1idx vaddr
      · rw [hc.1, hc.2, setCell_self, he, entryFlags_mk hframe hf12]
        exact hfl.1
      · rw [setCell_ne _ _ _ _ hc]
        exact hsp.clean u o p i hu hlen
  have hcells : ∀ r' ∈ roots, ∀ i, s'.mem r' i = s₁.mem r' i := by
    intro r' hr' i
    rw [hmem, setCell_row _ _ _ _ (htroot r' hr')]
  refine ⟨place', used', hspace, by rw [hphys]; exact hgood, ⟨?_, ?_, ?_, hker.trans hgr.kernel⟩, hlvl4, ?_⟩
  · intro v hv
    obtain ⟨hpath, hidx⟩ := (vpn_eq_iff v vaddr).mp hv
    rw [hspace.hardwareWalk_eq hr, hmem, hpath, hidx,
      hsp.forest.lookup_store_self hpl rfl hr _ (pathOf_length vaddr).le hw, hleaf]
  · intro r' hr' v hne
    rw [hspace.hardwareWalk_eq hr', h.hardwareWalk_eq hr', hmem,
      hsp.forest.lookup_store hpl rfl hr' _ (pathOf_length v).le, hgr.lookup r' hr' _ (pathOf_length v)]
    -- a walk that arrives at this table takes the same path, below the same owner
    by_contra hc
    push Not at hc
    obtain ⟨hwv, hidx⟩ := hc
    have hplv := hsp.forest.walk_place hr' (lvl4idx v) [lvl3idx v, lvl2idx v] (by simp) hwv
    rw [hpl] at hplv
    obtain ⟨hown, hpath⟩ := Prod.mk.inj (Option.some.inj hplv)
    rcases hne with hne | ⟨hl, hrr⟩
    · exact hne ((vpn_eq_iff v vaddr).mpr ⟨hpath.symm, hidx⟩)
    · have h4 : lvl4idx vaddr = lvl4idx v := (List.cons.inj hpath).1
      unfold owner at hown
      rw [← h4, if_pos hl, if_pos hl] at hown
      exact hrr (Option.some.inj hown).symm
  · intro r' hr' i hne
    rw [hcells r' hr']
    exact hcell r' hr' i hne
  · rw [hcells r hr]
    exact walk_head_present hw

/-! ## New roots -/

/-- No tables at all. -/
theorem Space.noTables {mem : ℕ → ℕ → ℕ} (used : Set ℕ) : Space mem ∅ (fun _ => none) used where
  forest := by
    refine ⟨?_, ?_, ?_⟩
    · exact fun r hr => absurd hr (Set.notMem_empty r)
    · exact fun r hr => absurd hr (Set.notMem_empty r)
    · intro t o p ht
      cases ht
  used t ht := by
    rcases ht with ht | ht
    · exact absurd ht (Set.notMem_empty t)
    · exact absurd rfl ht
  inner t i ht := by
    rcases ht with ht | ⟨o, p, ht, -⟩
    · exact absurd ht (Set.notMem_empty t)
    · cases ht
  clean t o p i ht := by cases ht

/-- A cleared frame becomes a root. -/
theorem Space.newRoot {mem : ℕ → ℕ → ℕ} (h : Space mem roots place used) {f : ℕ} (hf : f < 2 ^ 36) (hout : f ∉ used) :
    Space (Function.update mem f fun _ => 0) (insert f roots) place (insert f used) := by
  have hnr : f ∉ roots := fun hr => hout (h.used f (Or.inl hr)).1
  have hnp : place f = none := by
    by_contra hne
    exact hout (h.used f (Or.inr hne)).1
  refine ⟨h.forest.newRoot hnr hnp fun _ => entryChild_zero, ?_, ?_, ?_⟩
  · intro t ht
    by_cases htf : t = f
    · rw [htf]
      exact ⟨Set.mem_insert f used, hf⟩
    · have ht' : t ∈ roots ∨ place t ≠ none := ht.imp_left fun hm => Set.mem_of_mem_insert_of_ne hm htf
      exact ⟨Set.mem_insert_of_mem f (h.used t ht').1, (h.used t ht').2⟩
  · intro t i ht
    by_cases htf : t = f
    · rw [htf, Function.update_self]
      rfl
    · rw [Function.update_of_ne htf]
      exact h.inner t i (ht.imp_left fun hm => Set.mem_of_mem_insert_of_ne hm htf)
  · intro t o p i ht hlen
    have htf : t ≠ f := by
      intro e
      rw [e, hnp] at ht
      cases ht
    rw [Function.update_of_ne htf]
    exact h.clean t o p i ht hlen

theorem pagetableInit_spec (hA : FreshPages alloc Good) (h : Space s.mem roots place used) (hg : Good s.phys used)
    {tbl : ℕ} (hrun : pagetableInit alloc s = .ok tbl s') :
    ∃ f, f < 2 ^ 36 ∧ f ∉ roots ∧ tbl = p2v (f * 2 ^ 12) ∧ Space s'.mem (insert f roots) place (insert f used) ∧
      Good s'.phys (insert f used) ∧ s'.kernelpagetable = s.kernelpagetable ∧ (∀ i, s'.mem f i = 0) ∧
      (∀ r ∈ roots, ∀ i, s'.mem r i = s.mem r i) ∧
      ∀ r ∈ roots, ∀ v, hardwareWalk s'.mem r v = hardwareWalk s.mem r v := by
  obtain ⟨f, hf, hout, htbl, hgood, hmem, hker⟩ := pagetableAlloc_spec hA hg hrun
  obtain ⟨hnr, hnp⟩ := h.place_none hout
  have hself : ∀ i, s'.mem f i = 0 := by
    intro i
    rw [hmem, Function.update_self]
  have hrow : ∀ t, t ≠ f → ∀ i, s'.mem t i = s.mem t i := by
    intro t ht i
    rw [hmem, Function.update_of_ne ht]
  have hspace : Space s'.mem (insert f roots) place (insert f used) := by
    rw [hmem]
    exact h.newRoot hf hout
  refine ⟨f, hf, hnr, htbl, hspace, hgood, hker, hself, ?_, ?_⟩
  · intro r hr i
    exact hrow r (fun e => hnr (e ▸ hr)) i
  · intro r hr v
    rw [hspace.hardwareWalk_eq (Set.mem_insert_of_mem f hr), h.hardwareWalk_eq hr, hmem,
      h.forest.lookup_newRoot hnr hnp hr _ (pathOf_length v).le]

/-- `mmu_init_user_pagetable` after some rounds: `u` has the entries of `k` where these are not 0. -/
structure Copied (k u : ℕ) (s s' : Tables ρ) (is : List ℕ) : Prop where
  cells : ∀ i, s'.mem u i = if i ∈ is ∧ 0 < s.mem k i then s.mem k i else s.mem u i
  others : ∀ t, t ≠ u → s'.mem t = s.mem t

theorem Space.share (h : Space s.mem roots place used) {k u i : ℕ} (hk : k ∈ roots) (hu : u ∈ roots)
    (hi : 256 ≤ i) : Space (setCell s.mem u i (s.mem k i)) roots place used := by
  have hown : owner u i = owner k i := by
    unfold owner
    rw [if_neg (by omega), if_neg (by omega)]
  refine ⟨h.forest.share hk hu hown, h.used, ?_, ?_⟩
  · intro t j ht
    by_cases hc : t = u ∧ j = i
    · rw [hc.1, hc.2, setCell_self]
      exact h.inner k i (Or.inl hk)
    · rw [setCell_ne _ _ _ _ hc]
      exact h.inner t j ht
  · intro t o p j ht hlen
    have htu : t ≠ u := by
      intro e
      rw [e, h.forest.root_place u hu] at ht
      cases ht
    rw [setCell_row _ _ _ _ htu]
    exact h.clean t o p j ht hlen

theorem mmuCopyEntry_mem (s : Tables ρ) {k u i : ℕ} (hk : k < 2 ^ 36) (hu : u < 2 ^ 36) :
    (mmuCopyEntry (p2v (k * 2 ^ 12)) (p2v (u * 2 ^ 12)) i s).mem =
      if 0 < s.mem k i then setCell s.mem u i (s.mem k i) else s.mem := by
  unfold mmuCopyEntry Tables.setEntry Tables.entry
  rw [frameOf_p2v hk, frameOf_p2v hu]
  split
  · rfl
  · rfl

/-- The rounds of `mmu_init_user_pagetable`, by induction on the indices that are left. -/
theorem copyEntries_spec {k u : ℕ} (hk : k ∈ roots) (hu : u ∈ roots) : ∀ (is : List ℕ) (s : Tables ρ),
    Space s.mem roots place used → (∀ i ∈ is, 256 ≤ i) → is.Nodup →
    ∃ s', is.foldl (fun s i => mmuCopyEntry (p2v (k * 2 ^ 12)) (p2v (u * 2 ^ 12)) i s) s = s' ∧
      Space s'.mem roots place used ∧ s'.phys = s.phys ∧ s'.kernelpagetable = s.kernelpagetable ∧
      (k ≠ u → Copied k u s s' is)
  | [], s, h, _, _ => by
    refine ⟨s, rfl, h, rfl, rfl, fun _ => ⟨?_, fun _ _ => rfl⟩⟩
    intro i
    rw [if_neg fun hc => List.not_mem_nil hc.1]
  | j :: is, s, h, hge, hnd => by
    have hklt := (h.used k (Or.inl hk)).2
    have hult := (h.used u (Or.inl hu)).2
    obtain ⟨t, ht⟩ : ∃ t, t = mmuCopyEntry (p2v (k * 2 ^ 12)) (p2v (u * 2 ^ 12)) j s := ⟨_, rfl⟩
    have htmem := mmuCopyEntry_mem s (i := j) hklt hult
    rw [← ht] at htmem
    have htrest : t.phys = s.phys ∧ t.kernelpagetable = s.kernelpagetable := by
      rw [ht]
      unfold mmuCopyEntry
      split
      · exact ⟨rfl, rfl⟩
      · exact ⟨rfl, rfl⟩
    have hsp : Space t.mem roots place used := by
      rw [htmem]
      split
      · exact h.share hk hu (hge j List.mem_cons_self)
      · exact h
    have hnd' := List.nodup_cons.mp hnd
    obtain ⟨s', hrun, hsp', hphys, hker, hcopy⟩ := copyEntries_spec hk hu is t hsp
      (fun i hi => hge i (List.mem_cons_of_mem j hi)) hnd'.2
    refine ⟨s', ?_, hsp', hphys.trans htrest.1, hker.trans htrest.2, ?_⟩
    · rw [List.foldl_cons, ← ht]
      exact hrun
    · intro hku
      have hc := hcopy hku
      have hkrow : t.mem k = s.mem k := by
        rw [htmem]
        split
        · exact setCell_row _ _ _ _ hku
        · rfl
      refine ⟨?_, ?_⟩
      · intro i
        rw [hc.cells i, hkrow]
        by_cases hij : i = j
        · subst hij
          rw [if_neg fun hm => hnd'.1 hm.1, htmem]
          by_cases hpos : 0 < s.mem k i
          · rw [if_pos hpos, if_pos ⟨List.mem_cons_self, hpos⟩, setCell_self]
          · rw [if_neg hpos, if_neg fun hm => hpos hm.2]
        · have hmem : (i ∈ j :: is ∧ 0 < s.mem k i) ↔ (i ∈ is ∧ 0 < s.mem k i) := by
            rw [List.mem_cons, or_iff_right hij]
          have hui : t.mem u i = s.mem u i := by
            rw [htmem]
            split
            · exact setCell_ne _ _ _ _ fun hm => hij hm.2
            · rfl
          simp only [hmem, hui]
      · intro x hx
        rw [hc.others x hx, htmem]
        split
        · exact setCell_row _ _ _ _ hx
        · rfl

theorem mmuInitUserPagetable_spec (h : Space s.mem roots place used) {k u : ℕ} (hk : k ∈ roots) (hu : u ∈ roots)
    (hrun : mmuInitUserPagetable (p2v (k * 2 ^ 12)) (p2v (u * 2 ^ 12)) s = .ok () s') :
    Space s'.mem roots place used ∧ s'.phys = s.phys ∧ s'.kernelpagetable = s.kernelpagetable ∧
      (k ≠ u → Copied k u s s' (List.range' 256 256)) := by
  obtain ⟨-, e⟩ := Outcome.ok.inj hrun
  obtain ⟨t, ht, hspec⟩ := copyEntries_spec hk hu (List.range' 256 256) s h
    (fun i hi => (List.mem_range'_1.mp hi).1) List.nodup_range'
  have hst : t = s' := ht.symm.trans e
  rw [hst] at hspec
  exact hspec

end Specs

end Borgos.Mmu
