import Borgos.Mmu.UserWalk

/-! # `mmu_map_range`

The loop maps page after page, up to the last one that begins below the end of the range. A range that
does not fail lies below one entry of level 4, so no page is mapped twice.
-/
namespace Borgos.Mmu
open Borgos.Foundations Borgos.Mem
set_option autoImplicit false

variable {ρ : Type} {alloc : Prog ρ ℕ} {Good : ρ → Set ℕ → Prop}

theorem TableHistory.trans {a b c : TableSystem ρ} {xs ys : List TableCall} (h : TableHistory alloc a xs b)
    (h' : TableHistory alloc b ys c) : TableHistory alloc a (xs ++ ys) c := by
  induction h' with
  | nil =>
    rw [List.append_nil]
    exact h
  | snoc call _ hcall ih =>
    rw [← List.append_assoc]
    exact TableHistory.snoc call ih hcall

theorem TableHistory.single {a b : TableSystem ρ} {call : TableCall} (h : call.Runs alloc a b) :
    TableHistory alloc a [call] b := TableHistory.snoc call TableHistory.nil h

theorem TableHistory.eq_of_nil {a b : TableSystem ρ} (h : TableHistory alloc a [] b) : b = a := by
  generalize hxs : ([] : List TableCall) = xs at h
  cases h with
  | nil => rfl
  | snoc call _ _ => exact absurd hxs.symm (List.append_ne_nil_of_right_ne_nil _ (List.cons_ne_nil call []))

/-- The `j`-th page of a range. -/
def rangePaddr (paddr j : ℕ) : ℕ := (paddr + j * pagesize) % wordSize

def rangeVaddr (vaddr j : ℕ) : ℕ := vaddr + j * pagesize

/-- The number of pages that begin in the range. -/
def rangePages (vaddr vaddrEnd : ℕ) : ℕ := (vaddrEnd - vaddr + (pagesize - 1)) / pagesize

/-- The calls that map the first `n` pages of a range. -/
def rangeCalls (r paddr vaddr flags n : ℕ) : List TableCall :=
  (List.range n).map fun j => .map r (rangePaddr paddr j) (rangeVaddr vaddr j) flags

theorem rangePaddr_succ (paddr j : ℕ) : rangePaddr ((paddr + pagesize) % wordSize) j = rangePaddr paddr (j + 1) := by
  unfold rangePaddr
  rw [Nat.mod_add_mod, Nat.add_mul, Nat.one_mul, Nat.add_assoc, Nat.add_comm pagesize]

theorem rangeVaddr_succ (vaddr j : ℕ) : rangeVaddr (vaddr + pagesize) j = rangeVaddr vaddr (j + 1) := by
  unfold rangeVaddr
  rw [Nat.add_mul, Nat.one_mul]
  omega

theorem rangeCalls_succ (r paddr vaddr flags n : ℕ) : rangeCalls r paddr vaddr flags (n + 1) =
    [.map r (rangePaddr paddr 0) (rangeVaddr vaddr 0) flags] ++
      rangeCalls r ((paddr + pagesize) % wordSize) (vaddr + pagesize) flags n := by
  unfold rangeCalls
  rw [List.range_succ_eq_map, List.map_cons, List.map_map, List.singleton_append]
  refine congrArg (List.cons _) (List.map_congr_left ?_)
  intro j _
  rw [Function.comp_apply, rangePaddr_succ, rangeVaddr_succ]

/-- `s'` is `s` after the first `n` pages of a range have been mapped in table `r`. -/
structure RangeMapped (alloc : Prog ρ ℕ) (roots : Set ℕ) (s s' : Tables ρ) (r paddr vaddr flags n : ℕ) : Prop where
  history : TableHistory alloc ⟨s, roots⟩ (rangeCalls r paddr vaddr flags n) ⟨s', roots⟩
  slots : ∀ j < n, lvl4idx (rangeVaddr vaddr j) = 0 ∨ lvl4idx (rangeVaddr vaddr j) = 256
  here : ∀ j < n, ∀ v, vpn v = vpn (rangeVaddr vaddr j) →
    hardwareWalk s'.mem r v = some ⟨rangePaddr paddr j / 2 ^ 12 % 2 ^ 36, pteflagsOf flags⟩
  elsewhere : ∀ r' ∈ roots, ∀ v,
    (∀ j < n, vpn v ≠ vpn (rangeVaddr vaddr j) ∨ (lvl4idx (rangeVaddr vaddr j) < 256 ∧ r' ≠ r)) →
    hardwareWalk s'.mem r' v = hardwareWalk s.mem r' v

/-- A page 512 GiB further on has another index on level 4, which `mmu_map_page` refuses. -/
theorem vpn_apart {vaddr n : ℕ} (hslots : ∀ j < n, lvl4idx (rangeVaddr vaddr j) = 0 ∨
    lvl4idx (rangeVaddr vaddr j) = 256) {j : ℕ} (hpos : 0 < j) (hj : j < n) : vpn vaddr ≠ vpn (rangeVaddr vaddr j) := by
  intro e
  have hlong : 2 ^ 36 ≤ j := by
    unfold vpn rangeVaddr pagesize at e
    omega
  have h0 := hslots 0 (by omega)
  have hnext := hslots (2 ^ 27) (by omega)
  unfold lvl4idx rangeVaddr pagesize at h0 hnext
  omega

/-- A page that `mmu_map_page` accepts is not the last one of the address space. -/
theorem next_page {vaddr : ℕ} (hv : vaddr < wordSize) (h : lvl4idx vaddr = 0 ∨ lvl4idx vaddr = 256) :
    (vaddr + pagesize) % wordSize = vaddr + pagesize := by
  unfold wordSize at *
  unfold lvl4idx at h
  unfold pagesize
  omega

/-- One page, and then the pages after it. -/
theorem RangeMapped.cons {roots : Set ℕ} {s s₁ s' : Tables ρ} {r paddr vaddr flags n : ℕ} (hr : r ∈ roots)
    (hp : paddr < wordSize) (hrun : mmuMapPage alloc (tablePtr r) paddr vaddr flags s = .ok () s₁)
    (hm : Mapped roots s s₁ r paddr vaddr flags) (hslot : lvl4idx vaddr = 0 ∨ lvl4idx vaddr = 256)
    (h : RangeMapped alloc roots s₁ s' r ((paddr + pagesize) % wordSize) (vaddr + pagesize) flags n) :
    RangeMapped alloc roots s s' r paddr vaddr flags (n + 1) := by
  have hv0 : rangeVaddr vaddr 0 = vaddr := by simp [rangeVaddr]
  have hp0 : rangePaddr paddr 0 = paddr := by
    unfold rangePaddr
    rw [Nat.zero_mul, Nat.add_zero, Nat.mod_eq_of_lt hp]
  have hslots : ∀ j < n + 1, lvl4idx (rangeVaddr vaddr j) = 0 ∨ lvl4idx (rangeVaddr vaddr j) = 256 := by
    intro j hj
    cases j with
    | zero => rwa [hv0]
    | succ j =>
      rw [← rangeVaddr_succ]
      exact h.slots j (by omega)
  refine ⟨?_, hslots, ?_, ?_⟩
  · have hfirst : TableHistory alloc ⟨s, roots⟩ [.map r paddr vaddr flags] ⟨s₁, roots⟩ :=
      TableHistory.single ⟨hr, rfl, hrun⟩
    rw [rangeCalls_succ, hv0, hp0]
    exact hfirst.trans h.history
  · intro j hj v hv
    cases j with
    | zero =>
      -- the pages after it are other ones
      rw [hv0] at hv
      rw [hp0, ← hm.here v hv]
      apply h.elsewhere r hr v
      intro j hj
      left
      rw [hv, rangeVaddr_succ]
      exact vpn_apart hslots (by omega) (by omega)
    | succ j =>
      rw [← rangePaddr_succ]
      rw [← rangeVaddr_succ] at hv
      exact h.here j (by omega) v hv
  · intro r' hr' v hne
    rw [h.elsewhere r' hr' v, hm.elsewhere r' hr' v]
    · have h0 := hne 0 (by omega)
      rwa [hv0] at h0
    · intro j hj
      rw [rangeVaddr_succ]
      exact hne (j + 1) (by omega)

/-- What a loop of `mmu_map_range` does that has `n` pages left. -/
theorem mmuMapRangeLoop_run (hA : FreshPages alloc Good) {roots : Set ℕ} {r flags vaddrEnd : ℕ} (hr : r ∈ roots)
    (hend : vaddrEnd < wordSize) : ∀ (n fuel paddr vaddr : ℕ) (s : Tables ρ) (place : ℕ → Option (Option ℕ × List ℕ))
      (used : Set ℕ), n < fuel → paddr < wordSize → Space s.mem roots place used → Good s.phys used →
      vaddrEnd ≤ rangeVaddr vaddr n → (∀ j < n, rangeVaddr vaddr j < vaddrEnd) →
    (∃ s' place' used', mmuMapRangeLoop alloc (tablePtr r) vaddrEnd flags fuel paddr vaddr s = .ok () s' ∧
      Space s'.mem roots place' used' ∧ Good s'.phys used' ∧ RangeMapped alloc roots s s' r paddr vaddr flags n) ∨
    ∃ j < n, ∃ t, mmuMapRangeLoop alloc (tablePtr r) vaddrEnd flags fuel paddr vaddr s =
        mmuMapPage alloc (tablePtr r) (rangePaddr paddr j) (rangeVaddr vaddr j) flags t ∧
      ∀ s', mmuMapPage alloc (tablePtr r) (rangePaddr paddr j) (rangeVaddr vaddr j) flags t ≠ .ok () s' := by
  intro n
  induction n with
  | zero =>
    intro fuel paddr vaddr s place used hfuel _ h hg hlast _
    obtain ⟨fuel, rfl⟩ : ∃ k, fuel = k + 1 := ⟨fuel - 1, by omega⟩
    unfold rangeVaddr at hlast
    refine Or.inl ⟨s, place, used, ?_, h, hg, TableHistory.nil, ?_, ?_, ?_⟩
    · unfold mmuMapRangeLoop
      rw [if_neg (by omega)]
      rfl
    · intro j hj
      omega
    · intro j hj
      omega
    · intro _ _ _ _
      rfl
  | succ n ih =>
    intro fuel paddr vaddr s place used hfuel hp h hg hlast hbelow
    obtain ⟨fuel, rfl⟩ : ∃ k, fuel = k + 1 := ⟨fuel - 1, by omega⟩
    have hv : vaddr < vaddrEnd := by
      have h0 := hbelow 0 (by omega)
      unfold rangeVaddr at h0
      omega
    have hv0 : rangeVaddr vaddr 0 = vaddr := by simp [rangeVaddr]
    have hp0 : rangePaddr paddr 0 = paddr := by
      unfold rangePaddr
      rw [Nat.zero_mul, Nat.add_zero, Nat.mod_eq_of_lt hp]
    have hword : 0 < wordSize := by omega
    unfold mmuMapRangeLoop
    rw [if_pos hv, Prog.bind_run]
    cases hmap : mmuMapPage alloc (tablePtr r) paddr vaddr flags s with
    | panic m t =>
      right
      refine ⟨0, by omega, s, ?_⟩
      rw [hv0, hp0, hmap, Outcome.andThen_panic]
      exact ⟨rfl, fun _ e => by cases e⟩
    | stuck =>
      right
      refine ⟨0, by omega, s, ?_⟩
      rw [hv0, hp0, hmap, Outcome.andThen_stuck]
      exact ⟨rfl, fun _ e => by cases e⟩
    | ok u s₁ =>
      obtain ⟨place₁, used₁, h₁, hg₁, hm, hslot, -⟩ := mmuMapPage_spec hA h hg hr hmap
      rw [Outcome.andThen_ok, next_page (hv.trans hend) hslot]
      have hlast' : vaddrEnd ≤ rangeVaddr (vaddr + pagesize) n := by rwa [rangeVaddr_succ]
      have hbelow' : ∀ j < n, rangeVaddr (vaddr + pagesize) j < vaddrEnd := by
        intro j hj
        rw [rangeVaddr_succ]
        exact hbelow (j + 1) (by omega)
      rcases ih fuel ((paddr + pagesize) % wordSize) (vaddr + pagesize) s₁ place₁ used₁ (by omega)
        (Nat.mod_lt _ hword) h₁ hg₁ hlast' hbelow'
        with ⟨s', place', used', hrun, hsp, hgood, hrange⟩ | ⟨j, hj, t, hrun, hfail⟩
      · exact Or.inl ⟨s', place', used', hrun, hsp, hgood, RangeMapped.cons hr hp hmap hm hslot hrange⟩
      · right
        rw [rangePaddr_succ, rangeVaddr_succ] at hrun hfail
        exact ⟨j + 1, by omega, t, hrun, hfail⟩

/-- `mmu_map_range` maps the pages that begin in the range, or fails as one of the calls of `mmu_map_page` does. -/
theorem mmuMapRange_run (hA : FreshPages alloc Good) {roots used : Set ℕ} {place : ℕ → Option (Option ℕ × List ℕ)}
    {s : Tables ρ} {r paddr vaddr bytes n : ℕ} (flags : ℕ) (hr : r ∈ roots) (h : Space s.mem roots place used)
    (hg : Good s.phys used) (hp : paddr < wordSize) (hn : n = rangePages vaddr ((vaddr + bytes) % wordSize)) :
    (∃ s' place' used', mmuMapRange alloc (tablePtr r) paddr vaddr bytes flags s = .ok () s' ∧
      Space s'.mem roots place' used' ∧ Good s'.phys used' ∧ RangeMapped alloc roots s s' r paddr vaddr flags n) ∨
    ∃ j < n, ∃ t, mmuMapRange alloc (tablePtr r) paddr vaddr bytes flags s =
        mmuMapPage alloc (tablePtr r) (rangePaddr paddr j) (rangeVaddr vaddr j) flags t ∧
      ∀ s', mmuMapPage alloc (tablePtr r) (rangePaddr paddr j) (rangeVaddr vaddr j) flags t ≠ .ok () s' := by
  obtain ⟨vaddrEnd, hve⟩ : ∃ e, e = (vaddr + bytes) % wordSize := ⟨_, rfl⟩
  have hend : vaddrEnd < wordSize := by
    rw [hve]
    exact Nat.mod_lt _ (by unfold wordSize; norm_num)
  unfold mmuMapRange
  rw [← hve] at hn ⊢
  refine mmuMapRangeLoop_run hA hr hend n rangeFuel paddr vaddr s place used ?_ hp h hg ?_ ?_
  · rw [hn]
    unfold rangePages pagesize rangeFuel
    unfold wordSize at hend
    omega
  · rw [hn]
    unfold rangeVaddr rangePages pagesize
    omega
  · intro j hj
    rw [hn] at hj
    unfold rangePages pagesize at hj
    unfold rangeVaddr pagesize
    omega

/-! ## Exactly the range -/

/-- The physical address a virtual one stands for, and the flags of its leaf. -/
def translate (mem : ℕ → ℕ → ℕ) (root vaddr : ℕ) : Option (ℕ × ℕ) :=
  (hardwareWalk mem root vaddr).map fun t => (t.frame * pagesize + vaddr % pagesize, t.flags)

/-- Bits 47 to 63 are equal. -/
def Canonical (vaddr : ℕ) : Prop := vaddr < 2 ^ 47 ∨ 2 ^ 64 - 2 ^ 47 ≤ vaddr ∧ vaddr < 2 ^ 64

/-- Every byte of the range is mapped, and every other page is as it was. Pages are told apart by bits 12
to 47, which is all a walk looks at; canonical addresses have no others. -/
structure RangeExact (mem mem' : ℕ → ℕ → ℕ) (root paddr vaddr bytes flags : ℕ) : Prop where
  inside : ∀ i < bytes, translate mem' root (vaddr + i) = some (paddr + i, leafFlags flags)
  outside : ∀ v, (∀ i < bytes, vpn v ≠ vpn (vaddr + i)) → translate mem' root v = translate mem root v
  canonical : Canonical vaddr → ∀ v, Canonical v →
    v < vaddr ∨ vaddr + (bytes + (pagesize - 1)) / pagesize * pagesize ≤ v →
    translate mem' root v = translate mem root v

/-- A range that does not fail stays in the half it begins in. -/
theorem vpn_outside {vaddr v n j : ℕ} (hva : pagesize ∣ vaddr)
    (hslots : ∀ j < n, lvl4idx (rangeVaddr vaddr j) = 0 ∨ lvl4idx (rangeVaddr vaddr j) = 256) (hj : j < n)
    (hlt : rangeVaddr vaddr j < wordSize) (hc : Canonical vaddr) (hcv : Canonical v)
    (hout : v < vaddr ∨ vaddr + n * pagesize ≤ v) : vpn v ≠ vpn (rangeVaddr vaddr j) := by
  intro e
  obtain ⟨k, rfl⟩ := hva
  have hsame : v / 2 ^ 12 = k + j := by
    have hcw : Canonical (rangeVaddr (pagesize * k) j) := by
      rcases hc with hlow | hhigh
      · left
        by_contra hcross
        -- the first page of the next entry of level 4 would have been mapped
        have h0 := hslots 0 (by omega)
        unfold rangeVaddr pagesize lvl4idx at *
        have hnext := hslots (2 ^ 27 - k) (by omega)
        omega
      · right
        unfold rangeVaddr wordSize at *
        omega
    unfold Canonical vpn rangeVaddr pagesize at *
    omega
  unfold pagesize at hout
  have hdiv := Nat.div_add_mod v (2 ^ 12)
  have hmod := Nat.mod_lt v (show 0 < 2 ^ 12 by decide)
  rcases hout with hlow | hhigh
  · omega
  · have hle : j + 1 ≤ n := hj
    omega

theorem RangeMapped.exact {roots : Set ℕ} {s s' : Tables ρ} {r paddr vaddr bytes flags n : ℕ} (hr : r ∈ roots)
    (h : RangeMapped alloc roots s s' r paddr vaddr flags n) (hn : n = (bytes + (pagesize - 1)) / pagesize)
    (hpa : pagesize ∣ paddr) (hva : pagesize ∣ vaddr) (hv : vaddr + bytes < wordSize) (hp : paddr + bytes ≤ 2 ^ 48) :
    RangeExact s.mem s'.mem r paddr vaddr bytes flags := by
  have hpage : ∀ i < bytes, i / pagesize < n := by
    intro i hi
    rw [hn]
    unfold pagesize
    omega
  have hsame : ∀ i, vpn (vaddr + i) = vpn (rangeVaddr vaddr (i / pagesize)) := by
    intro i
    obtain ⟨k, rfl⟩ := hva
    unfold vpn rangeVaddr pagesize
    omega
  have hbelow : ∀ j < n, rangeVaddr vaddr j < wordSize := by
    intro j hj
    rw [hn] at hj
    unfold rangeVaddr pagesize at *
    omega
  have hother : ∀ v, (∀ j < n, vpn v ≠ vpn (rangeVaddr vaddr j)) → translate s'.mem r v = translate s.mem r v := by
    intro v hne
    unfold translate
    rw [h.elsewhere r hr v fun j hj => Or.inl (hne j hj)]
  refine ⟨?_, ?_, ?_⟩
  · intro i hi
    have hwalk := h.here _ (hpage i hi) (vaddr + i) (hsame i)
    have hframe : rangePaddr paddr (i / pagesize) / 2 ^ 12 % 2 ^ 36 * pagesize + (vaddr + i) % pagesize =
        paddr + i := by
      obtain ⟨k, rfl⟩ := hva
      obtain ⟨l, rfl⟩ := hpa
      have hsmall : rangePaddr (pagesize * l) (i / pagesize) = pagesize * l + i / pagesize * pagesize := by
        unfold rangePaddr wordSize pagesize at *
        omega
      rw [hsmall]
      unfold pagesize at *
      omega
    unfold translate
    rw [hwalk, Option.map_some, hframe, pteflagsOf_eq]
  · intro v hne
    apply hother
    intro j hj
    have hji : j * pagesize < bytes := by
      rw [hn] at hj
      unfold pagesize at *
      omega
    have hne' := hne (j * pagesize) hji
    unfold rangeVaddr
    exact hne'
  · intro hc v hcv hout
    rw [← hn] at hout
    apply hother
    intro j hj
    exact vpn_outside hva h.slots hj (hbelow j hj) hc hcv hout

/-- **`mmu_map_range` maps exactly the range**, in every tree that can be built, or fails as one of the
calls of `mmu_map_page` for the range's pages does. Physical addresses are below `2^48`, as entries hold
36 bits of a frame number. -/
theorem map_range_exact (alloc : Prog ρ ℕ) (Good : ρ → Set ℕ → Prop) (hA : FreshPages alloc Good) (s : Tables ρ)
    (used : Set ℕ) (hg : Good s.phys used) (a : TableSystem ρ) (hrun : TableRun alloc ⟨s, ∅⟩ a) (pt : ℕ)
    (hpt : pt ∈ a.roots) (paddr vaddr bytes flags : ℕ) (hpa : pagesize ∣ paddr) (hva : pagesize ∣ vaddr)
    (hv : vaddr + bytes < wordSize) (hp : paddr + bytes ≤ 2 ^ 48) :
    (∃ s', mmuMapRange alloc (tablePtr pt) paddr vaddr bytes flags a.tables = .ok () s' ∧
      RangeExact a.tables.mem s'.mem pt paddr vaddr bytes flags ∧ (bytes = 0 → s' = a.tables)) ∨
    ∃ p v t, vaddr ≤ v ∧ v < vaddr + bytes ∧
      mmuMapRange alloc (tablePtr pt) paddr vaddr bytes flags a.tables = mmuMapPage alloc (tablePtr pt) p v flags t ∧
      ∀ s', mmuMapPage alloc (tablePtr pt) p v flags t ≠ .ok () s' := by
  obtain ⟨place, used', hsp, hg'⟩ := hrun.space hA hg
  have hpw : paddr < wordSize := by
    unfold wordSize
    omega
  have hpages : rangePages vaddr ((vaddr + bytes) % wordSize) = (bytes + (pagesize - 1)) / pagesize := by
    rw [Nat.mod_eq_of_lt hv]
    unfold rangePages
    rw [Nat.add_sub_cancel_left]
  rcases mmuMapRange_run hA flags hpt hsp hg' hpw hpages.symm with
    ⟨s', place', used₁, hok, -, -, hrange⟩ | ⟨j, hj, t, heq, hfail⟩
  · refine Or.inl ⟨s', hok, hrange.exact hpt rfl hpa hva hv hp, ?_⟩
    intro hzero
    have hhist := hrange.history
    rw [hzero] at hhist
    exact congrArg TableSystem.tables hhist.eq_of_nil
  · refine Or.inr ⟨_, _, t, ?_, ?_, heq, hfail⟩
    · exact Nat.le_add_right _ _
    · unfold rangeVaddr pagesize at *
      omega

/-- Ten thousand bytes of the program, from `0x400000` on in the first table. -/
theorem map_range_exact_program : ∃ tbl s s', pagetableInit nextFrame noTables = .ok tbl s ∧
    mmuMapRange nextFrame tbl 0x1234000 0x400000 10000 mmuUser s = .ok () s' ∧
    RangeExact s.mem s'.mem (frameOf tbl) 0x1234000 0x400000 10000 mmuUser := by
  obtain ⟨s', hrun⟩ := Outcome.exists_of_value (x := (pagetableInit nextFrame >>= fun tbl =>
    mmuMapRange nextFrame tbl 0x1234000 0x400000 10000 mmuUser) noTables) (a := ()) (by decide +kernel)
  obtain ⟨tbl, s, hinit, hmap⟩ := Prog.bind_ok.mp hrun
  have hg : ∀ f ∈ (∅ : Set ℕ), f < noTables.phys := fun f hf => absurd hf (Set.notMem_empty f)
  obtain ⟨f, hf, -, htbl, -⟩ := pagetableAlloc_spec nextFrame_fresh hg hinit
  have hroot : frameOf tbl = f := by rw [htbl, frameOf_p2v hf]
  have hptr : tablePtr (frameOf tbl) = tbl := by
    rw [hroot]
    exact htbl.symm
  have hexact := map_range_exact nextFrame _ nextFrame_fresh noTables ∅ hg _
    (Relation.ReflTransGen.single (TableStep.init tbl s hinit)) (frameOf tbl) (Set.mem_insert _ _) 0x1234000 0x400000
    10000 mmuUser (by decide) (by decide) (by decide) (by decide)
  rw [hptr] at hexact
  rcases hexact with ⟨t, hok, hrange, -⟩ | ⟨p, v, t, -, -, heq, hfail⟩
  · rw [hmap] at hok
    rw [← (Outcome.ok.inj hok).2] at hrange
    exact ⟨tbl, s, s', hinit, hmap, hrange⟩
  · rw [hmap] at heq
    exact absurd heq.symm (hfail s')

/-- The frame number of `2^48` has more than 36 bits and is cut off. -/
theorem wide_paddr_cut : ∃ tbl s s', pagetableInit nextFrame noTables = .ok tbl s ∧
    mmuMapRange nextFrame tbl (2 ^ 48) 0x400000 4096 mmuUser s = .ok () s' ∧
    translate s'.mem (frameOf tbl) 0x400000 ≠ some (2 ^ 48, leafFlags mmuUser) := by
  obtain ⟨s₁, hrun⟩ := Outcome.exists_of_value (x := (do
    let tbl ← pagetableInit nextFrame
    mmuMapRange nextFrame tbl (2 ^ 48) 0x400000 4096 mmuUser
    let s ← Prog.get
    pure (translate s.mem (frameOf tbl) 0x400000) : Prog (Tables ℕ) (Option (ℕ × ℕ))) noTables)
    (a := some (0, leafFlags mmuUser)) (by decide +kernel)
  obtain ⟨tbl, s, hinit, hrun⟩ := Prog.bind_ok.mp hrun
  obtain ⟨_, s', hmap, hrun⟩ := Prog.bind_ok.mp hrun
  obtain ⟨hval, -⟩ := Outcome.ok.inj hrun
  refine ⟨tbl, s, s', hinit, hmap, ?_⟩
  have htr : translate s'.mem (frameOf tbl) 0x400000 = some (0, leafFlags mmuUser) := hval
  rw [htr]
  decide

end Borgos.Mmu
