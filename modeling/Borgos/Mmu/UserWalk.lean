import Borgos.Mmu.TableLaws

/-! # Who may use a page

User mode reaches a page when the U/S bit is set on all four levels of its walk. `mmu_map_page` sets it in
the leaf and in the tables it makes, and leaves the entries it finds as they are. So the entries of
levels 4, 3 and 2 keep the bit they got from the first mapping below them.
-/
namespace Borgos.Mmu
open Borgos.Foundations Borgos.Mem
set_option autoImplicit false

/-- The U/S bit of an entry. -/
def entryUs (e : ℕ) : ℕ := e / 2 ^ 2 % 2

/-- The entries on the four levels of an address's walk. -/
def walkEntries (mem : ℕ → ℕ → ℕ) (root vaddr : ℕ) : List ℕ :=
  let e4 := mem root (lvl4idx vaddr)
  let e3 := mem (entryBase e4) (lvl3idx vaddr)
  let e2 := mem (entryBase e3) (lvl2idx vaddr)
  let e1 := mem (entryBase e2) (lvl1idx vaddr)
  [e4, e3, e2, e1]

/-- Present and open to user mode on all four levels. -/
def UserWalk (mem : ℕ → ℕ → ℕ) (root vaddr : ℕ) : Prop :=
  ∀ e ∈ walkEntries mem root vaddr, entryP e = 1 ∧ entryUs e = 1

instance (mem : ℕ → ℕ → ℕ) (root vaddr : ℕ) : Decidable (UserWalk mem root vaddr) :=
  inferInstanceAs (Decidable (∀ e ∈ walkEntries mem root vaddr, entryP e = 1 ∧ entryUs e = 1))

/-- `flags & MMU_USER`. -/
def isUser (flags : ℕ) : Bool := decide (flags &&& mmuUser ≠ 0)

/-- Whether an entry that is present is open to user mode. -/
def entryUser (e : ℕ) : Option Bool := if entryP e = 1 then some (decide (entryUs e = 1)) else none

theorem entryUser_zero : entryUser 0 = none := rfl

theorem entryUser_isSome {e : ℕ} (h : entryP e = 1) : entryUser e ≠ none := by
  unfold entryUser
  rw [if_pos h]
  exact Option.some_ne_none _

theorem entryUser_eq_none {e : ℕ} (h : entryP e = 0) : entryUser e = none := by
  unfold entryUser
  rw [if_neg (by omega)]

theorem entryUser_eq_true {e : ℕ} : entryUser e = some true ↔ entryP e = 1 ∧ entryUs e = 1 := by
  unfold entryUser
  split
  · simp [*]
  · simp [*]

theorem entryUser_dir (f flags : ℕ) : entryUser (f * 2 ^ 12 + dircreateflagsOf flags) = some (isUser flags) := by
  have hp : entryP (f * 2 ^ 12 + dircreateflagsOf flags) = 1 := by
    rw [entryP_mk]
    exact (dircreateflagsOf_spec flags).2
  have hus : entryUs (f * 2 ^ 12 + dircreateflagsOf flags) = if flags &&& mmuUser ≠ 0 then 1 else 0 := by
    have hdir : dircreateflagsOf flags = if flags &&& mmuUser ≠ 0 then 39 else 35 := by
      unfold dircreateflagsOf
      split
      · rfl
      · rfl
    unfold entryUs
    rw [hdir]
    split
    · omega
    · omega
  unfold entryUser isUser
  rw [if_pos hp, hus]
  split
  · simp [*]
  · simp [*]

theorem pteflagsOf_us (flags : ℕ) (h : flags &&& mmuUser ≠ 0) : pteflagsOf flags / 2 ^ 2 % 2 = 1 := by
  unfold pteflagsOf
  rw [if_pos h]
  split
  · decide
  · decide

/-! ## What one call does to the upper levels -/

variable {ρ : Type}

/-- The index sequence begins in the lower half. -/
def LowerHalf (q : List ℕ) : Prop := ∀ x, q.head? = some x → x < 256

section Levels
variable {alloc : Prog ρ ℕ} {Good : ρ → Set ℕ → Prop} {roots used : Set ℕ}
  {place : ℕ → Option (Option ℕ × List ℕ)} {s s' : Tables ρ}

/-- In the lower half a table is reached from one root and on one path. -/
theorem Space.walk_unique (h : Space s.mem roots place used) {r r' t : ℕ} (hr : r ∈ roots) (hr' : r' ∈ roots)
    {p p' : List ℕ} (hp : p.length ≤ 3) (hp' : p'.length ≤ 3) (hlow : LowerHalf p')
    (hw : walk entryChild s.mem r p = some t) (hw' : walk entryChild s.mem r' p' = some t) : r' = r ∧ p' = p := by
  cases p' with
  | nil =>
    have ht : r' = t := Option.some.inj hw'
    rcases h.forest.walk_cases hr hp hw with ⟨e, ht'⟩ | ⟨o, ho⟩
    · exact ⟨ht.trans ht', e.symm⟩
    · rw [← ht, h.forest.root_place r' hr'] at ho
      cases ho
  | cons j q =>
    have hplace := h.forest.walk_place hr' j q hp' hw'
    cases p with
    | nil =>
      have ht : r = t := Option.some.inj hw
      rw [← ht, h.forest.root_place r hr] at hplace
      cases hplace
    | cons i q' =>
      rw [h.forest.walk_place hr i q' hp hw] at hplace
      obtain ⟨hown, hpath⟩ := Prod.mk.inj (Option.some.inj hplace)
      have hj : j < 256 := hlow j rfl
      unfold owner at hown
      rw [(List.cons.inj hpath).1, if_pos hj, if_pos hj] at hown
      exact ⟨(Option.some.inj hown).symm, hpath.symm⟩

/-- `pagetable_walk_getsubtable` gives the U/S bit to an entry that was not present. -/
theorem getsubtable_levels (hA : FreshPages alloc Good) (h : Space s.mem roots place used) (hg : Good s.phys used)
    {t idx flags tbl r : ℕ} {o : Option ℕ} {q : List ℕ} (ht : t < 2 ^ 36)
    (hslot : Forest.Slot owner 3 roots place t idx o (q ++ [idx])) (hr : r ∈ roots) (hq : q.length ≤ 3)
    (hwalk : walk entryChild s.mem r q = some t)
    (hrun : pagetableWalkGetsubtable alloc (p2v (t * 2 ^ 12)) idx (dircreateflagsOf flags) s = .ok tbl s') :
    ∀ r' ∈ roots, ∀ p i, p.length ≤ 3 → LowerHalf (p ++ [i]) → lookup entryChild entryUser s'.mem r' p i =
      if r' = r ∧ p ++ [i] = q ++ [idx] ∧ lookup entryChild entryUser s.mem r' p i = none then some (isUser flags)
      else lookup entryChild entryUser s.mem r' p i := by
  intro r' hr' p i hp hlow
  have hfl := dircreateflagsOf_spec flags
  have hcell : ∀ {x}, r' = r ∧ p ++ [i] = q ++ [idx] → entryUser (s.mem t idx) = x →
      lookup entryChild entryUser s.mem r' p i = x := by
    intro x hc hx
    obtain ⟨rfl, hpq⟩ := hc
    obtain ⟨rfl, hi⟩ := List.append_inj' hpq rfl
    unfold lookup
    rw [hwalk, Option.bind_some, (List.cons.inj hi).1, hx]
  rcases getsubtable_run hA hg ht (by omega) hrun with ⟨hpres, hs, -⟩ | ⟨habs, f, hf, hout, -, -, hstate, -⟩
  · rw [hs, if_neg]
    intro hc
    exact entryUser_isSome hpres ((hcell ⟨hc.1, hc.2.1⟩ rfl).symm.trans hc.2.2)
  · obtain ⟨hnr, hnp⟩ := h.place_none hout
    have hnone : entryChild (s.mem t idx) = none := entryChild_absent (by omega)
    have hchild := entryChild_mk hf (by omega) hfl.2
    rw [hstate, h.forest.lookup_link_cell hslot hnr hnp (fun _ => entryChild_zero)
      (fun _ => entryUser_zero) hnone hchild
      hr' p hp i, entryUser_dir]
    refine if_congr ?_ rfl rfl
    constructor
    · intro hc
      have hlow' : LowerHalf p := by
        intro x hx
        apply hlow
        cases p with
        | nil => cases hx
        | cons j p => exact hx
      obtain ⟨hrr, hpq⟩ := h.walk_unique hr hr' hq hp hlow' hwalk hc.1
      have hpath : p ++ [i] = q ++ [idx] := by rw [hpq, hc.2]
      exact ⟨hrr, hpath, hcell ⟨hrr, hpath⟩ (entryUser_eq_none habs)⟩
    · intro hc
      obtain ⟨hpq, hi⟩ := List.append_inj' hc.2.1 rfl
      rw [hc.1, hpq]
      exact ⟨hwalk, (List.cons.inj hi).1⟩

theorem prefix_three {a b c : ℕ} {q : List ℕ} (hq : q ≠ []) :
    q <+: [a, b, c] ↔ q = [a] ∨ q = [a, b] ∨ q = [a, b, c] := by
  simp only [List.prefix_cons_iff, List.prefix_nil, hq, false_or]
  constructor
  · rintro ⟨t, rfl, ht⟩
    rcases ht with rfl | ⟨t', rfl, ht'⟩
    · simp
    · rcases ht' with rfl | ⟨t'', rfl, rfl⟩ <;> simp
  · rintro (rfl | rfl | rfl) <;> simp

/-- `pagetable_walk_getlvl1table` gives the U/S bit to the entries on the path that were not present. -/
theorem getlvl1table_levels (hA : FreshPages alloc Good) (h : Space s.mem roots place used) (hg : Good s.phys used)
    {r vaddr flags tbl : ℕ} (hr : r ∈ roots)
    (hrun : pagetableWalkGetlvl1table alloc (p2v (r * 2 ^ 12)) vaddr (dircreateflagsOf flags) s = .ok tbl s') :
    ∀ r' ∈ roots, ∀ p i, p.length ≤ 3 → LowerHalf (p ++ [i]) → lookup entryChild entryUser s'.mem r' p i =
      if r' = r ∧ p ++ [i] <+: pathOf vaddr ∧ lookup entryChild entryUser s.mem r' p i = none then some (isUser flags)
      else lookup entryChild entryUser s.mem r' p i := by
  intro r' hr' p i hp hlow
  have hfl := dircreateflagsOf_spec flags
  unfold pagetableWalkGetlvl1table at hrun
  obtain ⟨tbl₃, s₃, h₃, hrun⟩ := Prog.bind_ok.mp hrun
  obtain ⟨tbl₂, s₂, h₂, h₁⟩ := Prog.bind_ok.mp hrun
  have hrlt := (h.used r (Or.inl hr)).2
  have hslot₃ : Forest.Slot owner 3 roots place r (lvl4idx vaddr) (owner r (lvl4idx vaddr)) ([] ++ [lvl4idx vaddr]) :=
    Or.inl ⟨hr, rfl, rfl, by decide⟩
  have hlev₃ := getsubtable_levels hA h hg hrlt hslot₃ hr (by simp) rfl h₃ r' hr' p i hp hlow
  obtain ⟨p₃, u₃, t₃, ht₃, htbl₃, hsp₃, hg₃, hgr₃, hpl₃, hc₃, -⟩ := getsubtable_spec hA h hg hrlt hslot₃ hfl.1 hfl.2 h₃
  rw [htbl₃] at h₂
  have hw₃ : walk entryChild s₃.mem r [lvl4idx vaddr] = some t₃ := hc₃
  have hslot₂ : Forest.Slot owner 3 roots p₃ t₃ (lvl3idx vaddr) (owner r (lvl4idx vaddr))
      ([lvl4idx vaddr] ++ [lvl3idx vaddr]) := Or.inr ⟨_, hpl₃, by simp, rfl⟩
  have hlev₂ := getsubtable_levels hA hsp₃ hg₃ ht₃ hslot₂ hr (by simp) hw₃ h₂ r' hr' p i hp hlow
  obtain ⟨p₂, u₂, t₂, ht₂, htbl₂, hsp₂, hg₂, hgr₂, hpl₂, hc₂, -⟩ :=
    getsubtable_spec hA hsp₃ hg₃ ht₃ hslot₂ hfl.1 hfl.2 h₂
  rw [htbl₂] at h₁
  have hw₂ : walk entryChild s₂.mem r ([lvl4idx vaddr] ++ [lvl3idx vaddr]) = some t₂ := by
    rw [walk_concat, hgr₂.walk r hr _ (by simp) _ hw₃, Option.bind_some]
    exact hc₂
  have hslot₁ : Forest.Slot owner 3 roots p₂ t₂ (lvl2idx vaddr) (owner r (lvl4idx vaddr))
      ([lvl4idx vaddr] ++ [lvl3idx vaddr] ++ [lvl2idx vaddr]) := Or.inr ⟨_, hpl₂, by simp, rfl⟩
  have hlev₁ := getsubtable_levels hA hsp₂ hg₂ ht₂ hslot₁ hr (by simp) hw₂ h₁ r' hr' p i hp hlow
  -- the three paths have different lengths, so at most one of the three entries is this one
  have hne : p ++ [i] ≠ [] := List.append_ne_nil_of_right_ne_nil p (List.cons_ne_nil i [])
  rw [hlev₁, hlev₂, hlev₃]
  simp only [pathOf, prefix_three hne, List.nil_append, List.cons_append]
  generalize lookup entryChild entryUser s.mem r' p i = l
  by_cases hrr : r' = r
  · by_cases h1 : p ++ [i] = [lvl4idx vaddr]
    · simp [h1, hrr]
    · by_cases h2 : p ++ [i] = [lvl4idx vaddr, lvl3idx vaddr]
      · simp [h2, hrr]
      · simp [h1, h2, hrr]
  · simp [hrr]

/-- `mmu_map_page` gives the U/S bit to the entries of levels 4, 3 and 2 that it makes. -/
theorem mmuMapPage_levels (hA : FreshPages alloc Good) (h : Space s.mem roots place used) (hg : Good s.phys used)
    {r paddr vaddr flags : ℕ} (hr : r ∈ roots)
    (hrun : mmuMapPage alloc (p2v (r * 2 ^ 12)) paddr vaddr flags s = .ok () s') :
    ∀ r' ∈ roots, ∀ p i, p.length < 3 → LowerHalf (p ++ [i]) → lookup entryChild entryUser s'.mem r' p i =
      if r' = r ∧ p ++ [i] <+: pathOf vaddr ∧ lookup entryChild entryUser s.mem r' p i = none then some (isUser flags)
      else lookup entryChild entryUser s.mem r' p i := by
  intro r' hr' p i hp hlow
  obtain ⟨-, s₁, place', used', t, hrun₁, hsp, -, -, hpl, -, -, hmem, -⟩ := mmuMapPage_run hA h hg hr hrun
  rw [← getlvl1table_levels hA h hg hr hrun₁ r' hr' p i hp.le hlow, hmem]
  apply hsp.forest.lookup_store hpl rfl hr' p hp.le
  left
  intro hw
  exact hsp.forest.walk_ne_of_length hr' hp.le hw hpl (by rw [pathOf_length]; omega) rfl

end Levels

/-! ## Histories -/

/-- One call that works on page tables. -/
inductive TableCall where
  | init
  | user (k u : ℕ)
  | map (r paddr vaddr flags : ℕ)
deriving DecidableEq, Repr

section Histories
variable (alloc : Prog ρ ℕ)

def TableCall.Runs : TableCall → TableSystem ρ → TableSystem ρ → Prop
  | .init, a, b => ∃ tbl, pagetableInit alloc a.tables = .ok tbl b.tables ∧ b.roots = insert (frameOf tbl) a.roots
  | .user k u, a, b => k ∈ a.roots ∧ u ∈ a.roots ∧ b.roots = a.roots ∧
      mmuInitUserPagetable (tablePtr k) (tablePtr u) a.tables = .ok () b.tables
  | .map r paddr vaddr flags, a, b => r ∈ a.roots ∧ b.roots = a.roots ∧
      mmuMapPage alloc (tablePtr r) paddr vaddr flags a.tables = .ok () b.tables

/-- The calls `calls`, one after the other, lead from `a` to `b`. -/
inductive TableHistory (a : TableSystem ρ) : List TableCall → TableSystem ρ → Prop
  | nil : TableHistory a [] a
  | snoc {calls : List TableCall} {b c : TableSystem ρ} (call : TableCall) (hist : TableHistory a calls b)
      (h : call.Runs alloc b c) : TableHistory a (calls ++ [call]) c

/-- Whether a call maps something below the index sequence `q` of table `r`, and then for whom. -/
def TableCall.below (r : ℕ) (q : List ℕ) : TableCall → Option Bool
  | .init => none
  | .user _ _ => none
  | .map r' _ vaddr flags => if r = r' ∧ q <+: pathOf vaddr then some (isUser flags) else none

/-- For whom the first mapping below `q` in table `r` was made. -/
def firstUser (calls : List TableCall) (r : ℕ) (q : List ℕ) : Option Bool := calls.findSome? (TableCall.below r q)

theorem firstUser_snoc (calls : List TableCall) (call : TableCall) (r : ℕ) (q : List ℕ) :
    firstUser (calls ++ [call]) r q = (firstUser calls r q).or (call.below r q) := by
  unfold firstUser
  rw [List.findSome?_append]
  congr 1
  simp only [List.findSome?_cons, List.findSome?_nil]
  cases call.below r q <;> rfl

variable {alloc}

theorem TableCall.Runs.step {call : TableCall} {a b : TableSystem ρ} (h : call.Runs alloc a b) :
    TableStep alloc a b := by
  obtain ⟨s, roots⟩ := b
  cases call with
  | init =>
    obtain ⟨tbl, hrun, rfl⟩ := h
    exact TableStep.init tbl s hrun
  | user k u =>
    obtain ⟨hk, hu, rfl, hrun⟩ := h
    exact TableStep.user k u s hk hu hrun
  | map r paddr vaddr flags =>
    obtain ⟨hr, rfl, hrun⟩ := h
    exact TableStep.map r paddr vaddr flags s hr hrun

theorem TableHistory.run {a b : TableSystem ρ} {calls : List TableCall} (h : TableHistory alloc a calls b) :
    TableRun alloc a b := by
  induction h with
  | nil => exact Relation.ReflTransGen.refl
  | snoc call _ hcall ih => exact ih.tail hcall.step

/-- The entries of levels 4, 3 and 2 in the lower half have the bit of the first mapping below them, and only
roots are mapped in. -/
structure FirstUser (calls : List TableCall) (a : TableSystem ρ) : Prop where
  bit : ∀ r ∈ a.roots, ∀ p i, p.length < 3 → LowerHalf (p ++ [i]) →
    lookup entryChild entryUser a.tables.mem r p i = firstUser calls r (p ++ [i])
  known : ∀ r q, firstUser calls r q ≠ none → r ∈ a.roots

/-- Copying the upper half leaves the lower half as it is. -/
theorem copyEntries_levels {roots used : Set ℕ} {place : ℕ → Option (Option ℕ × List ℕ)} {k u : ℕ} (hk : k ∈ roots)
    (hu : u ∈ roots) {r : ℕ} (hr : r ∈ roots) {p : List ℕ} {i : ℕ} (hp : p.length < 3) (hlow : LowerHalf (p ++ [i])) :
    ∀ (is : List ℕ) (s : Tables ρ), Space s.mem roots place used → (∀ j ∈ is, 256 ≤ j) →
      lookup entryChild entryUser
        (is.foldl (fun s j => mmuCopyEntry (p2v (k * 2 ^ 12)) (p2v (u * 2 ^ 12)) j s) s).mem r p i =
      lookup entryChild entryUser s.mem r p i := by
  intro is
  induction is with
  | nil =>
    intro s _ _
    rfl
  | cons j is ih =>
    intro s h hge
    have hj : 256 ≤ j := hge j List.mem_cons_self
    have hmem := mmuCopyEntry_mem s (i := j) (h.used k (Or.inl hk)).2 (h.used u (Or.inl hu)).2
    have hsp : Space (mmuCopyEntry (p2v (k * 2 ^ 12)) (p2v (u * 2 ^ 12)) j s).mem roots place used := by
      rw [hmem]
      split
      · exact h.share hk hu hj
      · exact h
    rw [List.foldl_cons, ih _ hsp fun x hx => hge x (List.mem_cons_of_mem j hx), hmem]
    split
    · apply h.forest.lookup_rootCell hu hr p hp.le
      intro hhead
      exact absurd (hlow j hhead) (by omega)
    · rfl

theorem TableHistory.firstUser {Good : ρ → Set ℕ → Prop} (hA : FreshPages alloc Good) {s : Tables ρ} {used : Set ℕ}
    (hg : Good s.phys used) {calls : List TableCall} {a : TableSystem ρ}
    (hist : TableHistory alloc ⟨s, ∅⟩ calls a) : FirstUser calls a := by
  induction hist with
  | nil =>
    constructor
    · intro r hr
      exact absurd hr (Set.notMem_empty r)
    · intro r q hne
      exact absurd rfl hne
  | @snoc calls b c call hist hcall ih =>
    obtain ⟨place, used', hsp, hgood⟩ := hist.run.space hA hg
    cases call with
    | init =>
      obtain ⟨tbl, hrun, hroots⟩ := hcall
      obtain ⟨f, hf, hout, htbl, hgood', hmem, -⟩ := pagetableAlloc_spec hA hgood hrun
      obtain ⟨hnr, hnp⟩ := hsp.place_none hout
      rw [htbl, frameOf_p2v hf] at hroots
      constructor
      · intro r hr p i hp hlow
        rw [firstUser_snoc, TableCall.below, Option.or_none]
        rw [hroots] at hr
        rcases Set.mem_insert_iff.mp hr with rfl | hr
        · -- the new table is empty, and nothing was mapped in it
          have hnone : Mmu.firstUser calls r (p ++ [i]) = none := by
            by_contra hne
            exact hnr (ih.known r _ hne)
          have hzero : ∀ j, c.tables.mem r j = 0 := by
            intro j
            rw [hmem, Function.update_self]
          rw [hnone]
          apply lookup_empty
          · intro j
            rw [hzero, entryChild_zero]
          · intro j
            rw [hzero, entryUser_zero]
        · rw [hmem, hsp.forest.lookup_newRoot hnr hnp hr p hp.le]
          exact ih.bit r hr p i hp hlow
      · intro r q hne
        rw [firstUser_snoc, TableCall.below, Option.or_none] at hne
        rw [hroots]
        exact Set.mem_insert_of_mem f (ih.known r q hne)
    | user k u =>
      obtain ⟨hk, hu, hroots, hrun⟩ := hcall
      obtain ⟨-, e⟩ := Outcome.ok.inj hrun
      constructor
      · intro r hr p i hp hlow
        rw [firstUser_snoc, TableCall.below, Option.or_none, ← e]
        rw [hroots] at hr
        refine (copyEntries_levels hk hu hr hp hlow (List.range' 256 256) b.tables hsp ?_).trans
          (ih.bit r hr p i hp hlow)
        intro j hj
        exact (List.mem_range'_1.mp hj).1
      · intro r q hne
        rw [firstUser_snoc, TableCall.below, Option.or_none] at hne
        rw [hroots]
        exact ih.known r q hne
    | map r₀ paddr vaddr flags =>
      obtain ⟨hr₀, hroots, hrun⟩ := hcall
      constructor
      · intro r hr p i hp hlow
        rw [hroots] at hr
        rw [mmuMapPage_levels hA hsp hgood hr₀ hrun r hr p i hp hlow, ih.bit r hr p i hp hlow, firstUser_snoc]
        unfold TableCall.below
        cases Mmu.firstUser calls r (p ++ [i]) with
        | none => simp
        | some x => simp
      · intro r q hne
        rw [hroots]
        by_cases hr : r = r₀
        · rw [hr]
          exact hr₀
        · rw [firstUser_snoc, TableCall.below, if_neg fun hc => hr hc.1, Option.or_none] at hne
          exact ih.known r q hne

theorem TableHistory.snoc_inv {a c : TableSystem ρ} {calls : List TableCall} {call : TableCall}
    (h : TableHistory alloc a (calls ++ [call]) c) : ∃ b, TableHistory alloc a calls b ∧ call.Runs alloc b c := by
  generalize hxs : calls ++ [call] = xs at h
  cases h with
  | nil => exact absurd hxs (List.append_ne_nil_of_right_ne_nil calls (List.cons_ne_nil call []))
  | snoc call' hist hcall =>
    obtain ⟨rfl, hc⟩ := List.append_inj' hxs rfl
    rw [← (List.cons.inj hc).1] at hcall
    exact ⟨_, hist, hcall⟩

end Histories

/-! ## The four levels -/

/-- A walk is open to user mode when the entry found on each level is. -/
theorem userWalk_iff (mem : ℕ → ℕ → ℕ) (r vaddr : ℕ) : UserWalk mem r vaddr ↔
    lookup entryChild entryUser mem r [] (lvl4idx vaddr) = some true ∧
    lookup entryChild entryUser mem r [lvl4idx vaddr] (lvl3idx vaddr) = some true ∧
    lookup entryChild entryUser mem r [lvl4idx vaddr, lvl3idx vaddr] (lvl2idx vaddr) = some true ∧
    lookup entryChild entryUser mem r (pathOf vaddr) (lvl1idx vaddr) = some true := by
  have hopen : ∀ e, entryUser e = some true → entryChild e = some (entryBase e) := by
    intro e he
    unfold entryChild
    rw [if_pos (entryUser_eq_true.mp he).1]
  unfold UserWalk walkEntries lookup pathOf
  simp only [walk_cons, walk_nil, Option.bind_some, List.mem_cons, List.not_mem_nil, or_false, forall_eq_or_imp,
    forall_eq, ← entryUser_eq_true]
  -- an entry that is open to user mode leads on to the table of the next level
  refine and_congr_right fun h4 => ?_
  rw [hopen _ h4]
  simp only [Option.bind_some]
  refine and_congr_right fun h3 => ?_
  rw [hopen _ h3]
  simp only [Option.bind_some]
  refine and_congr_right fun h2 => ?_
  rw [hopen _ h2]
  simp only [Option.bind_some]

/-- **Who may use a mapped page.** After a lower-half page has been mapped with `MMU_USER`, its walk is open
to user mode exactly when in each of its regions (512 GiB, 1 GiB, 2 MiB) the first mapping in this table, if
there was one, was made with `MMU_USER` too. -/
theorem user_walk_iff_first_user (alloc : Prog ρ ℕ) (Good : ρ → Set ℕ → Prop) (hA : FreshPages alloc Good)
    (s : Tables ρ) (used : Set ℕ) (hg : Good s.phys used) (calls : List TableCall) (r paddr vaddr flags : ℕ)
    (a : TableSystem ρ) (hist : TableHistory alloc ⟨s, ∅⟩ (calls ++ [.map r paddr vaddr flags]) a)
    (hlow : lvl4idx vaddr < 256) (huser : flags &&& mmuUser ≠ 0) : UserWalk a.tables.mem r vaddr ↔
      ∀ q, q ≠ [] → q <+: pathOf vaddr → firstUser calls r q ≠ some false := by
  have hfirst := hist.firstUser hA hg
  obtain ⟨b, hist', hr, hroots, hrun⟩ := hist.snoc_inv
  obtain ⟨place, used', hsp, hgood⟩ := hist'.run.space hA hg
  have hra : r ∈ a.roots := by
    rw [hroots]
    exact hr
  have hleaf : lookup entryChild entryUser a.tables.mem r (pathOf vaddr) (lvl1idx vaddr) = some true := by
    obtain ⟨-, s₁, place', used₁, t, -, hsp₁, -, -, hpl, hw, -, hmem, -⟩ := mmuMapPage_run hA hsp hgood hr hrun
    rw [hmem, hsp₁.forest.lookup_store_self hpl rfl hr _ (pathOf_length vaddr).le hw, entryUser_eq_true, entryP_mk]
    have hus := pteflagsOf_us flags huser
    refine ⟨(pteflagsOf_spec flags).2, ?_⟩
    unfold entryUs
    omega
  have hbit : ∀ p i, p.length < 3 → p ++ [i] <+: pathOf vaddr →
      (lookup entryChild entryUser a.tables.mem r p i = some true ↔ firstUser calls r (p ++ [i]) ≠ some false) := by
    intro p i hp hpre
    have hhalf : LowerHalf (p ++ [i]) := by
      intro x hx
      obtain ⟨rest, hrest⟩ := hpre
      have hx' : (pathOf vaddr).head? = some x := by
        rw [← hrest, List.head?_append, hx]
        rfl
      rw [← Option.some.inj hx']
      exact hlow
    have hmine : TableCall.below r (p ++ [i]) (.map r paddr vaddr flags) = some true := by
      simp [TableCall.below, isUser, hpre, huser]
    rw [hfirst.bit r hra p i hp hhalf, firstUser_snoc, hmine]
    cases firstUser calls r (p ++ [i]) with
    | none => simp
    | some x => cases x <;> simp
  have hq4 : [lvl4idx vaddr] <+: pathOf vaddr := ⟨[lvl3idx vaddr, lvl2idx vaddr], rfl⟩
  have hq3 : [lvl4idx vaddr, lvl3idx vaddr] <+: pathOf vaddr := ⟨[lvl2idx vaddr], rfl⟩
  rw [userWalk_iff, hbit [] _ (by simp) hq4, hbit [lvl4idx vaddr] _ (by simp) hq3,
    hbit [lvl4idx vaddr, lvl3idx vaddr] _ (by simp) (List.prefix_refl _)]
  constructor
  · intro h q hne hpre
    rcases (prefix_three hne).mp hpre with rfl | rfl | rfl
    · exact h.1
    · exact h.2.1
    · exact h.2.2.1
  · intro h
    exact ⟨h _ (List.cons_ne_nil _ _) hq4, h _ (List.cons_ne_nil _ _) hq3,
      h _ (List.cons_ne_nil _ _) (List.prefix_refl _), hleaf⟩

/-- The program page at `0x400000` in a new table. -/
theorem user_walk_iff_first_user_program : ∃ r a, TableHistory nextFrame ⟨noTables, ∅⟩
    [.init, .map r 0x1234000 0x400000 mmuUser] a ∧ UserWalk a.tables.mem r 0x400000 := by
  obtain ⟨s', hrun⟩ := Outcome.exists_of_value (x := (pagetableInit nextFrame >>= fun tbl =>
    mmuMapPage nextFrame tbl 0x1234000 0x400000 mmuUser) noTables) (a := ()) (by decide +kernel)
  obtain ⟨tbl, s, hinit, hmap⟩ := Prog.bind_ok.mp hrun
  have hg : ∀ f ∈ (∅ : Set ℕ), f < noTables.phys := fun f hf => absurd hf (Set.notMem_empty f)
  obtain ⟨f, hf, -, htbl, -⟩ := pagetableAlloc_spec nextFrame_fresh hg hinit
  rw [htbl] at hinit hmap
  have hist : TableHistory nextFrame ⟨noTables, ∅⟩ ([.init] ++ [.map f 0x1234000 0x400000 mmuUser])
      ⟨s', insert f ∅⟩ := by
    have hfirst : TableHistory nextFrame ⟨noTables, ∅⟩ ([] ++ [.init]) ⟨s, insert f ∅⟩ := by
      refine TableHistory.snoc _ TableHistory.nil ⟨_, hinit, ?_⟩
      rw [frameOf_p2v hf]
    exact TableHistory.snoc _ hfirst ⟨Set.mem_insert f ∅, rfl, hmap⟩
  refine ⟨f, _, hist, ?_⟩
  refine (user_walk_iff_first_user nextFrame _ nextFrame_fresh noTables ∅ hg [.init] f _ _ _ _ hist (by decide)
    (by decide)).mpr ?_
  intro q _ _
  simp [firstUser, TableCall.below]

/-- A kernel page first, then a user page in the same region: user mode cannot use it. -/
theorem kernel_page_first : ∃ tbl s₁ s₂ s₃, pagetableInit nextFrame noTables = .ok tbl s₁ ∧
    mmuMapPage nextFrame tbl 0x1000 0x1000 0 s₁ = .ok () s₂ ∧
    mmuMapPage nextFrame tbl 0x1234000 0x400000 mmuUser s₂ = .ok () s₃ ∧
    ¬UserWalk s₃.mem (frameOf tbl) 0x400000 := by
  obtain ⟨s₄, hrun⟩ := Outcome.exists_of_value (x := (do
    let tbl ← pagetableInit nextFrame
    mmuMapPage nextFrame tbl 0x1000 0x1000 0
    mmuMapPage nextFrame tbl 0x1234000 0x400000 mmuUser
    let s ← Prog.get
    pure (decide (UserWalk s.mem (frameOf tbl) 0x400000)) : Prog (Tables ℕ) Bool) noTables) (a := false)
    (by decide +kernel)
  obtain ⟨tbl, s₁, hinit, hrun⟩ := Prog.bind_ok.mp hrun
  obtain ⟨_, s₂, hkernel, hrun⟩ := Prog.bind_ok.mp hrun
  obtain ⟨_, s₃, huser, hrun⟩ := Prog.bind_ok.mp hrun
  obtain ⟨hno, -⟩ := Outcome.ok.inj hrun
  exact ⟨tbl, s₁, s₂, s₃, hinit, hkernel, huser, of_decide_eq_false hno⟩

end Borgos.Mmu
