import Mathlib.Tactic

/-! # Forests of tables

Tables `F` have cells with index `I` and contents `E`; `child e` is the table a cell refers to. From a
root a path of indices leads through `depth` tables to a last one, whose cells are the leaves. Several
roots may refer to the same table.

`Forest` records for every table that is not a root its place: the path that leads to it, and an owner
that depends on the root and the first index only. From the place it follows which paths can lead to a
table, so changing a cell changes what is found on these paths and on no others.
-/
namespace Borgos.Foundations
set_option autoImplicit false

variable {F I E L O : Type}

section Walk
variable (child : E → Option F) (leaf : E → Option L)

/-- The table at the end of a path. -/
def walk (mem : F → I → E) (r : F) (path : List I) : Option F :=
  path.foldl (fun t i => t.bind fun t => child (mem t i)) (some r)

/-- The leaf found under index `i` of the table at the end of a path. -/
def lookup (mem : F → I → E) (r : F) (path : List I) (i : I) : Option L :=
  (walk child mem r path).bind fun t => leaf (mem t i)

variable {child leaf}

@[simp] theorem walk_nil (mem : F → I → E) (r : F) : walk child mem r [] = some r := rfl

theorem walk_concat (mem : F → I → E) (r : F) (path : List I) (i : I) :
    walk child mem r (path ++ [i]) = (walk child mem r path).bind fun t => child (mem t i) := by
  unfold walk
  rw [List.foldl_append]
  rfl

theorem walk_cons (mem : F → I → E) (r : F) (i : I) (path : List I) :
    walk child mem r (i :: path) = (child (mem r i)).bind fun t => walk child mem t path := by
  induction path using List.reverseRecOn with
  | nil => simp [walk]
  | append_singleton path j ih =>
    rw [← List.cons_append, walk_concat, ih, Option.bind_assoc]
    simp only [walk_concat]

/-- Nothing is found below an empty table. -/
theorem lookup_empty {mem : F → I → E} {r : F} (hchild : ∀ i, child (mem r i) = none)
    (hleaf : ∀ i, leaf (mem r i) = none) (path : List I) (i : I) : lookup child leaf mem r path i = none := by
  unfold lookup
  cases path with
  | nil => rw [walk_nil, Option.bind_some, hleaf]
  | cons j path => rw [walk_cons, hchild, Option.bind_none, Option.bind_none]

variable [DecidableEq F] [DecidableEq I]

def setCell (mem : F → I → E) (t : F) (i : I) (e : E) : F → I → E :=
  Function.update mem t (Function.update (mem t) i e)

theorem setCell_self (mem : F → I → E) (t : F) (i : I) (e : E) : setCell mem t i e t i = e := by
  unfold setCell
  rw [Function.update_self, Function.update_self]

theorem setCell_ne (mem : F → I → E) (t : F) (i : I) (e : E) {u : F} {j : I} (h : ¬(u = t ∧ j = i)) :
    setCell mem t i e u j = mem u j := by
  unfold setCell
  by_cases hu : u = t
  · subst hu
    rw [Function.update_self, Function.update_of_ne fun e => h ⟨rfl, e⟩]
  · rw [Function.update_of_ne hu]

theorem setCell_some_eq_none {mem : F → I → Option E} {t u : F} {i j : I} {e : E} :
    setCell mem t i (some e) u j = none ↔ ¬(u = t ∧ j = i) ∧ mem u j = none := by
  by_cases h : u = t ∧ j = i
  · rw [h.1, h.2, setCell_self]
    simp
  · rw [setCell_ne _ _ _ _ h]
    simp [h]

theorem setCell_row (mem : F → I → E) (t : F) (i : I) (e : E) {u : F} (h : u ≠ t) :
    setCell mem t i e u = mem u := by
  unfold setCell
  rw [Function.update_of_ne h]

end Walk

structure Forest (child : E → Option F) (own : F → I → O) (depth : ℕ) (mem : F → I → E) (roots : Set F)
    (place : F → Option (O × List I)) : Prop where
  root_place : ∀ r ∈ roots, place r = none
  root_child : ∀ r ∈ roots, ∀ i u, child (mem r i) = some u → place u = some (own r i, [i])
  inner_child : ∀ t o p, place t = some (o, p) → p.length < depth → ∀ i u, child (mem t i) = some u →
    place u = some (o, p ++ [i])

namespace Forest
variable {child : E → Option F} {leaf : E → Option L} {own : F → I → O} {depth : ℕ} {mem : F → I → E}
  {roots : Set F} {place : F → Option (O × List I)} {r t : F} {o : O} {p : List I}

theorem walk_place (h : Forest child own depth mem roots place) (hr : r ∈ roots) (i : I) (q : List I)
    (hlen : (i :: q).length ≤ depth) (hw : walk child mem r (i :: q) = some t) :
    place t = some (own r i, i :: q) := by
  induction q using List.reverseRecOn generalizing t with
  | nil => exact h.root_child r hr i t hw
  | append_singleton q j ih =>
    rw [← List.cons_append, walk_concat] at hw
    obtain ⟨u, hu, hc⟩ := Option.bind_eq_some_iff.mp hw
    rw [← List.cons_append, List.length_append, List.length_singleton] at hlen
    exact h.inner_child u _ _ (ih (by omega) hu) (by omega) j t hc

/-- What a walk can arrive at. -/
theorem walk_cases (h : Forest child own depth mem roots place) (hr : r ∈ roots) {path : List I}
    (hlen : path.length ≤ depth) (hw : walk child mem r path = some t) :
    (path = [] ∧ t = r) ∨ ∃ o, place t = some (o, path) := by
  cases path with
  | nil => exact Or.inl ⟨rfl, (Option.some.inj hw).symm⟩
  | cons i q => exact Or.inr ⟨_, h.walk_place hr i q hlen hw⟩

theorem walk_ne (h : Forest child own depth mem roots place) (hr : r ∈ roots) {path : List I}
    (hlen : path.length ≤ depth) (hw : walk child mem r path = some t) {x : F} (hx : x ∉ roots)
    (hplace : place x = none) : t ≠ x := by
  intro e
  rcases h.walk_cases hr hlen hw with ⟨-, e'⟩ | ⟨o, ho⟩
  · rw [← e, e'] at hx
    exact hx hr
  · rw [e, hplace] at ho
    cases ho

/-- The length of the path is determined by the table. -/
theorem walk_ne_of_length (h : Forest child own depth mem roots place) (hr : r ∈ roots) {path : List I}
    (hlen : path.length ≤ depth) (hw : walk child mem r path = some t) {x : F} (hx : place x = some (o, p))
    (hne : path.length ≠ p.length) : t ≠ x := by
  intro e
  rcases h.walk_cases hr hlen hw with ⟨-, e'⟩ | ⟨o', ho⟩
  · rw [← e, e', h.root_place r hr] at hx
    cases hx
  · rw [e, hx] at ho
    rw [(Prod.mk.inj (Option.some.inj ho)).2] at hne
    exact hne rfl

/-! ## Changing a leaf -/

variable [DecidableEq F] [DecidableEq I]

section Store
variable {i : I} {e : E}

theorem store (h : Forest child own depth mem roots place) (ht : place t = some (o, p)) (hp : p.length = depth) :
    Forest child own depth (setCell mem t i e) roots place where
  root_place := h.root_place
  root_child r hr j u hu := by
    have hrt : r ≠ t := by
      intro e'
      rw [← e', h.root_place r hr] at ht
      cases ht
    rw [setCell_row _ _ _ _ hrt] at hu
    exact h.root_child r hr j u hu
  inner_child u o' q hu hq j v hv := by
    have hut : u ≠ t := by
      intro e'
      rw [e', ht] at hu
      rw [← (Prod.mk.inj (Option.some.inj hu)).2] at hq
      omega
    rw [setCell_row _ _ _ _ hut] at hv
    exact h.inner_child u o' q hu hq j v hv

theorem walk_store (h : Forest child own depth mem roots place) (ht : place t = some (o, p)) (hp : p.length = depth)
    (hr : r ∈ roots) (path : List I) (hlen : path.length ≤ depth) :
    walk child (setCell mem t i e) r path = walk child mem r path := by
  induction path using List.reverseRecOn with
  | nil => rfl
  | append_singleton q j ih =>
    rw [List.length_append, List.length_singleton] at hlen
    rw [walk_concat, walk_concat, ih (by omega)]
    refine Option.bind_congr fun u hu => ?_
    have hut : u ≠ t := h.walk_ne_of_length hr (by omega) hu ht (by omega)
    rw [setCell_row _ _ _ _ hut]

theorem lookup_store (h : Forest child own depth mem roots place) (ht : place t = some (o, p))
    (hp : p.length = depth) (hr : r ∈ roots) (path : List I) (hlen : path.length ≤ depth) (j : I)
    (hne : walk child mem r path ≠ some t ∨ j ≠ i) :
    lookup child leaf (setCell mem t i e) r path j = lookup child leaf mem r path j := by
  unfold lookup
  rw [h.walk_store ht hp hr path hlen]
  refine Option.bind_congr fun u hu => ?_
  rw [setCell_ne]
  intro e'
  rcases hne with hne | hne
  · rw [e'.1] at hu
    exact hne hu
  · exact hne e'.2

theorem lookup_store_self (h : Forest child own depth mem roots place) (ht : place t = some (o, p))
    (hp : p.length = depth) (hr : r ∈ roots) (path : List I) (hlen : path.length ≤ depth)
    (hw : walk child mem r path = some t) :
    lookup child leaf (setCell mem t i e) r path i = leaf e := by
  unfold lookup
  rw [h.walk_store ht hp hr path hlen, hw, Option.bind_some, setCell_self]

end Store

/-! ## A new table -/

/-- The place of what cell `i` of `t` refers to. -/
def Slot (own : F → I → O) (depth : ℕ) (roots : Set F) (place : F → Option (O × List I)) (t : F) (i : I) (o : O)
    (q : List I) : Prop :=
  (t ∈ roots ∧ o = own t i ∧ q = [i] ∧ 0 < depth) ∨ ∃ p, place t = some (o, p) ∧ p.length < depth ∧ q = p ++ [i]

section Link
variable {i : I} {e : E} {q : List I} {new : F} {blank : I → E}

omit [DecidableEq F] [DecidableEq I] in
theorem child_place (h : Forest child own depth mem roots place) (hslot : Slot own depth roots place t i o q) {u : F}
    (hu : child (mem t i) = some u) : place u = some (o, q) := by
  rcases hslot with ⟨hr, rfl, rfl, -⟩ | ⟨p, hp, hlen, rfl⟩
  · exact h.root_child t hr i u hu
  · exact h.inner_child t o p hp hlen i u hu

omit [DecidableEq F] [DecidableEq I] in
theorem Slot.ne (hslot : Slot own depth roots place t i o q) (hnew : new ∉ roots) (hplace : place new = none) :
    t ≠ new := by
  intro e'
  rcases hslot with ⟨hr, -⟩ | ⟨p, hp, -⟩
  · exact hnew (e' ▸ hr)
  · rw [e', hplace] at hp
    cases hp

theorem link (h : Forest child own depth mem roots place) (hslot : Slot own depth roots place t i o q)
    (hnew : new ∉ roots) (hplace : place new = none) (hblank : ∀ j, child (blank j) = none)
    (he : child e = some new) :
    Forest child own depth (setCell (Function.update mem new blank) t i e) roots
      (Function.update place new (some (o, q))) := by
  have htn := hslot.ne hnew hplace
  -- the old places are kept, and no old cell refers to the new table
  have hkeep : ∀ u x, place u = some x → Function.update place new (some (o, q)) u = some x := by
    intro u x hu
    have hne : u ≠ new := by
      intro e'
      rw [e', hplace] at hu
      cases hu
    rw [Function.update_of_ne hne]
    exact hu
  refine ⟨?_, ?_, ?_⟩
  · intro r hr
    have hrn : r ≠ new := fun e' => hnew (e' ▸ hr)
    rw [Function.update_of_ne hrn]
    exact h.root_place r hr
  · intro r hr j u hu
    have hrn : r ≠ new := fun e' => hnew (e' ▸ hr)
    by_cases hc : r = t ∧ j = i
    · obtain ⟨rfl, rfl⟩ := hc
      rw [setCell_self, he] at hu
      rw [← Option.some.inj hu, Function.update_self]
      rcases hslot with ⟨-, rfl, rfl, -⟩ | ⟨p, hp, -⟩
      · rfl
      · rw [h.root_place r hr] at hp
        cases hp
    · rw [setCell_ne _ _ _ _ hc, Function.update_of_ne hrn] at hu
      exact hkeep u _ (h.root_child r hr j u hu)
  · intro u o' p hu hlen j v hv
    by_cases hun : u = new
    · rw [hun, setCell_row _ _ _ _ (Ne.symm htn), Function.update_self, hblank] at hv
      cases hv
    · rw [Function.update_of_ne hun] at hu
      by_cases hc : u = t ∧ j = i
      · obtain ⟨rfl, rfl⟩ := hc
        rw [setCell_self, he] at hv
        rw [← Option.some.inj hv, Function.update_self]
        rcases hslot with ⟨hr, -⟩ | ⟨p', hp', -, rfl⟩
        · rw [h.root_place u hr] at hu
          cases hu
        · rw [hp'] at hu
          obtain ⟨rfl, rfl⟩ := Prod.mk.inj (Option.some.inj hu)
          rfl
      · rw [setCell_ne _ _ _ _ hc, Function.update_of_ne hun] at hv
        exact hkeep v _ (h.inner_child u o' p hu hlen j v hv)

/-- A walk is as before, or it used to stop at the new cell and now arrives at the new table. -/
theorem walk_link (h : Forest child own depth mem roots place) (hslot : Slot own depth roots place t i o q)
    (hnew : new ∉ roots) (hplace : place new = none) (hblank : ∀ j, child (blank j) = none)
    (hnone : child (mem t i) = none) (he : child e = some new) (hr : r ∈ roots) (path : List I)
    (hlen : path.length ≤ depth) :
    walk child (setCell (Function.update mem new blank) t i e) r path = walk child mem r path ∨
      (walk child mem r path = none ∧
        walk child (setCell (Function.update mem new blank) t i e) r path = some new) := by
  have htn := hslot.ne hnew hplace
  induction path using List.reverseRecOn with
  | nil => exact Or.inl rfl
  | append_singleton path j ih =>
    rw [List.length_append, List.length_singleton] at hlen
    rw [walk_concat, walk_concat]
    rcases ih (by omega) with heq | ⟨hn, hs⟩
    · rw [heq]
      cases hw : walk child mem r path with
      | none => exact Or.inl rfl
      | some u =>
        have hun := h.walk_ne hr (by omega) hw hnew hplace
        simp only [Option.bind_some]
        by_cases hc : u = t ∧ j = i
        · obtain ⟨rfl, rfl⟩ := hc
          rw [setCell_self]
          exact Or.inr ⟨hnone, he⟩
        · rw [setCell_ne _ _ _ _ hc, Function.update_of_ne hun]
          exact Or.inl rfl
    · rw [hn, hs, Option.bind_none, Option.bind_some, setCell_row _ _ _ _ (Ne.symm htn), Function.update_self,
        hblank]
      exact Or.inl rfl

theorem walk_link_some (h : Forest child own depth mem roots place) (hslot : Slot own depth roots place t i o q)
    (hnew : new ∉ roots) (hplace : place new = none) (hblank : ∀ j, child (blank j) = none)
    (hnone : child (mem t i) = none) (he : child e = some new) (hr : r ∈ roots) (path : List I)
    (hlen : path.length ≤ depth) {u : F} (hw : walk child mem r path = some u) :
    walk child (setCell (Function.update mem new blank) t i e) r path = some u := by
  rcases h.walk_link hslot hnew hplace hblank hnone he hr path hlen with heq | ⟨hn, -⟩
  · rw [heq, hw]
  · rw [hn] at hw
    cases hw

/-- A new table changes what is found in the cell that refers to it, and nothing else. -/
theorem lookup_link_cell (h : Forest child own depth mem roots place) (hslot : Slot own depth roots place t i o q)
    (hnew : new ∉ roots) (hplace : place new = none) (hblank : ∀ j, child (blank j) = none)
    (hempty : ∀ j, leaf (blank j) = none) (hnone : child (mem t i) = none) (he : child e = some new)
    (hr : r ∈ roots) (path : List I) (hlen : path.length ≤ depth) (j : I) :
    lookup child leaf (setCell (Function.update mem new blank) t i e) r path j =
      if walk child mem r path = some t ∧ j = i then leaf e else lookup child leaf mem r path j := by
  have htn := hslot.ne hnew hplace
  unfold lookup
  rcases h.walk_link hslot hnew hplace hblank hnone he hr path hlen with heq | ⟨hn, hs⟩
  · rw [heq]
    cases hw : walk child mem r path with
    | none => simp
    | some u =>
      have hun := h.walk_ne hr hlen hw hnew hplace
      by_cases hc : u = t ∧ j = i
      · obtain ⟨rfl, rfl⟩ := hc
        simp [setCell_self]
      · rw [Option.bind_some, setCell_ne _ _ _ _ hc, Function.update_of_ne hun, Option.bind_some]
        rw [if_neg fun hc' => hc ⟨Option.some.inj hc'.1, hc'.2⟩]
  · rw [hn, hs, Option.bind_none, Option.bind_some, setCell_row _ _ _ _ (Ne.symm htn), Function.update_self, hempty]
    simp

/-- A new table changes no leaf. -/
theorem lookup_link (h : Forest child own depth mem roots place) (hslot : Slot own depth roots place t i o q)
    (hnew : new ∉ roots) (hplace : place new = none) (hblank : ∀ j, child (blank j) = none)
    (hempty : ∀ j, leaf (blank j) = none) (hnone : child (mem t i) = none) (he : child e = some new)
    (hr : r ∈ roots) (path : List I) (hlen : path.length = depth) (j : I) :
    lookup child leaf (setCell (Function.update mem new blank) t i e) r path j = lookup child leaf mem r path j := by
  rw [h.lookup_link_cell hslot hnew hplace hblank hempty hnone he hr path hlen.le, if_neg]
  -- the table of the new cell is not a last one
  intro hc
  rcases hslot with ⟨hrt, -, -, hpos⟩ | ⟨p, hp, hplen, -⟩
  · rcases h.walk_cases hr hlen.le hc.1 with ⟨hnil, -⟩ | ⟨o', ho'⟩
    · rw [hnil] at hlen
      exact absurd hlen hpos.ne
    · rw [h.root_place t hrt] at ho'
      cases ho'
  · exact h.walk_ne_of_length hr hlen.le hc.1 hp (by omega) rfl

end Link

/-! ## Roots -/

section Roots
variable {new : F} {blank : I → E}

omit [DecidableEq I] in
theorem newRoot (h : Forest child own depth mem roots place) (hnew : new ∉ roots) (hplace : place new = none)
    (hblank : ∀ j, child (blank j) = none) :
    Forest child own depth (Function.update mem new blank) (insert new roots) place where
  root_place r hr := by
    rcases Set.mem_insert_iff.mp hr with rfl | hr
    · exact hplace
    · exact h.root_place r hr
  root_child r hr i u hu := by
    rcases Set.mem_insert_iff.mp hr with rfl | hr
    · rw [Function.update_self, hblank] at hu
      cases hu
    · have hrn : r ≠ new := fun e' => hnew (e' ▸ hr)
      rw [Function.update_of_ne hrn] at hu
      exact h.root_child r hr i u hu
  inner_child t o p ht hlen i u hu := by
    have htn : t ≠ new := by
      intro e'
      rw [e', hplace] at ht
      cases ht
    rw [Function.update_of_ne htn] at hu
    exact h.inner_child t o p ht hlen i u hu

omit [DecidableEq I] in
theorem walk_newRoot (h : Forest child own depth mem roots place) (hnew : new ∉ roots) (hplace : place new = none)
    (hr : r ∈ roots) (path : List I) (hlen : path.length ≤ depth) :
    walk child (Function.update mem new blank) r path = walk child mem r path := by
  induction path using List.reverseRecOn with
  | nil => rfl
  | append_singleton q j ih =>
    rw [List.length_append, List.length_singleton] at hlen
    rw [walk_concat, walk_concat, ih (by omega)]
    refine Option.bind_congr fun u hu => ?_
    rw [Function.update_of_ne (h.walk_ne hr (by omega) hu hnew hplace)]

omit [DecidableEq I] in
theorem lookup_newRoot (h : Forest child own depth mem roots place) (hnew : new ∉ roots) (hplace : place new = none)
    (hr : r ∈ roots) (path : List I) (hlen : path.length ≤ depth) (j : I) :
    lookup child leaf (Function.update mem new blank) r path j = lookup child leaf mem r path j := by
  unfold lookup
  rw [h.walk_newRoot hnew hplace hr path hlen]
  refine Option.bind_congr fun u hu => ?_
  rw [Function.update_of_ne (h.walk_ne hr hlen hu hnew hplace)]

/-- A root takes over a cell of another root, where both have the same owner. -/
theorem share (h : Forest child own depth mem roots place) {k u : F} (hk : k ∈ roots) (hu : u ∈ roots) {i : I}
    (hown : own u i = own k i) : Forest child own depth (setCell mem u i (mem k i)) roots place where
  root_place := h.root_place
  root_child r hr j v hv := by
    by_cases hc : r = u ∧ j = i
    · obtain ⟨rfl, rfl⟩ := hc
      rw [setCell_self] at hv
      rw [hown]
      exact h.root_child k hk j v hv
    · rw [setCell_ne _ _ _ _ hc] at hv
      exact h.root_child r hr j v hv
  inner_child t o p ht hlen j v hv := by
    have htu : t ≠ u := by
      intro e'
      rw [e', h.root_place u hu] at ht
      cases ht
    rw [setCell_row _ _ _ _ htu] at hv
    exact h.inner_child t o p ht hlen j v hv

/-- A cell of a root is passed by the paths that begin with its index only. -/
theorem walk_rootCell (h : Forest child own depth mem roots place) {k : F} (hk : k ∈ roots) {i : I} {e : E}
    (hr : r ∈ roots) {j : I} (hj : j ≠ i) (q : List I) (hlen : (j :: q).length ≤ depth) :
    walk child (setCell mem k i e) r (j :: q) = walk child mem r (j :: q) := by
  induction q using List.reverseRecOn with
  | nil =>
    show child (setCell mem k i e r j) = child (mem r j)
    rw [setCell_ne _ _ _ _ fun hc => hj hc.2]
  | append_singleton q x ih =>
    rw [← List.cons_append, List.length_append, List.length_singleton] at hlen
    rw [← List.cons_append, walk_concat, walk_concat, ih (by omega)]
    apply Option.bind_congr
    intro u hu
    have hplace := h.walk_place hr j q (by omega) hu
    have huk : u ≠ k := by
      intro e'
      rw [e', h.root_place k hk] at hplace
      cases hplace
    rw [setCell_row _ _ _ _ huk]

theorem lookup_rootCell (h : Forest child own depth mem roots place) {k : F} (hk : k ∈ roots) {i : I} {e : E}
    (hr : r ∈ roots) (path : List I) (hlen : path.length ≤ depth) (x : I) (hne : (path ++ [x]).head? ≠ some i) :
    lookup child leaf (setCell mem k i e) r path x = lookup child leaf mem r path x := by
  unfold lookup
  cases path with
  | nil =>
    have hx : x ≠ i := fun e' => hne (by rw [e']; rfl)
    rw [walk_nil, walk_nil, Option.bind_some, Option.bind_some, setCell_ne _ _ _ _ fun hc => hx hc.2]
  | cons j q =>
    have hj : j ≠ i := fun e' => hne (by rw [e']; rfl)
    rw [h.walk_rootCell hk hr hj q hlen]
    apply Option.bind_congr
    intro u hu
    have hplace := h.walk_place hr j q hlen hu
    have huk : u ≠ k := by
      intro e'
      rw [e', h.root_place k hk] at hplace
      cases hplace
    rw [setCell_row _ _ _ _ huk]

end Roots

end Forest
end Borgos.Foundations
