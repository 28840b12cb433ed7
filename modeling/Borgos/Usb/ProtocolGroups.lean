import Borgos.Usb.RootHub

/-! # How declared ranges are grouped

A capability joins the group that was started first among those of its major revision that its range is adjacent to;
otherwise it starts a group. For disjoint ranges the table of `xhcihcd_parse_protocols` is these groups, as long as
there are not more of them than it has entries.
-/
namespace Borgos.Usb
set_option autoImplicit false

variable {c c' e : XhciProtocol} {T T' cs : List XhciProtocol} {i port : ℕ}

/-! ## Adjacent ranges -/

/-- The same major revision, and one range ends where the other one starts. -/
def Joins (e c : XhciProtocol) : Prop :=
  e.major = c.major ∧ (c.portOffset = e.portEnd ∨ c.portEnd = e.portOffset)

instance (e c : XhciProtocol) : Decidable (Joins e c) := inferInstanceAs (Decidable (_ ∧ _))

def Apart (c c' : XhciProtocol) : Prop := ∀ port, c.Has port → ¬ c'.Has port

/-- `e` after it has taken in the range of `c`. -/
def absorb (e c : XhciProtocol) : XhciProtocol :=
  if c.portOffset = e.portEnd then { e with portCount := e.portCount + c.portCount }
  else { e with portOffset := c.portOffset, portCount := e.portCount + c.portCount }

theorem absorb_major (e c : XhciProtocol) : (absorb e c).major = e.major := by
  unfold absorb
  split <;> rfl

theorem absorb_slotType (e c : XhciProtocol) : (absorb e c).slotType = e.slotType := by
  unfold absorb
  split <;> rfl

theorem absorb_has (h : Joins e c) : (absorb e c).Has port ↔ e.Has port ∨ c.Has port := by
  unfold absorb XhciProtocol.Has
  obtain ⟨-, hlow | hhigh⟩ := h
  · rw [if_pos hlow]
    unfold XhciProtocol.portEnd at *
    constructor
    · intro hp
      simp only at hp
      omega
    · intro hp
      simp only
      omega
  · unfold XhciProtocol.portEnd at *
    split
    · constructor
      · intro hp
        simp only at hp
        omega
      · intro hp
        simp only
        omega
    · constructor
      · intro hp
        simp only at hp
        omega
      · intro hp
        simp only
        omega

/-- The loop takes the first entry that joins. -/
theorem mergeInto_spec (c : XhciProtocol) (T : List XhciProtocol) :
    (mergeInto c T = none ∧ ∀ e ∈ T, ¬ Joins e c) ∨
      ∃ i e, T[i]? = some e ∧ Joins e c ∧ (∀ j < i, ∀ e', T[j]? = some e' → ¬ Joins e' c) ∧
        mergeInto c T = some (T.set i (absorb e c)) := by
  induction T with
  | nil => exact .inl ⟨rfl, by simp⟩
  | cons p ps ih =>
    by_cases hj : Joins p c
    · refine .inr ⟨0, p, rfl, hj, by omega, ?_⟩
      obtain ⟨hmajor, hadj⟩ := hj
      unfold mergeInto absorb
      unfold XhciProtocol.portEnd at hadj ⊢
      rw [if_neg (not_not.mpr hmajor)]
      by_cases hlow : c.portOffset = p.portOffset + p.portCount
      · rw [if_pos hlow, if_pos hlow]
        rfl
      · have hhigh := hadj.resolve_left hlow
        rw [if_neg hlow, if_pos hhigh, if_neg hlow]
        rfl
    · have hskip : mergeInto c (p :: ps) = (mergeInto c ps).map (p :: ·) := by
        unfold Joins at hj
        by_cases hmajor : p.major = c.major
        · have hlow : ¬ c.portOffset = p.portOffset + p.portCount := fun h => hj ⟨hmajor, .inl h⟩
          have hhigh : ¬ c.portOffset + c.portCount = p.portOffset := fun h => hj ⟨hmajor, .inr h⟩
          rw [mergeInto, if_neg (not_not.mpr hmajor), if_neg hlow, if_neg hhigh]
        · rw [mergeInto, if_pos hmajor]
      rw [hskip]
      rcases ih with ⟨hnone, hno⟩ | ⟨i, e, hi, he, hfirst, hsome⟩
      · refine .inl ⟨by rw [hnone, Option.map_none], ?_⟩
        intro e he
        rcases List.mem_cons.mp he with rfl | he
        · exact hj
        · exact hno e he
      · refine .inr ⟨i + 1, e, by simpa using hi, he, ?_, by rw [hsome, Option.map_some, List.set_cons_succ]⟩
        intro j hji e' he'
        cases j with
        | zero =>
          simp only [List.getElem?_cons_zero, Option.some.injEq] at he'
          exact he' ▸ hj
        | succ j => exact hfirst j (by omega) e' (by simpa using he')

/-! ## Groups -/

/-- The capabilities so far, each with the number of its group. -/
structure Grouping where
  members : List (XhciProtocol × ℕ)
  count : ℕ

namespace Grouping

/-- The groups that a range is adjacent to. -/
def joined (G : Grouping) (c : XhciProtocol) : List ℕ := (G.members.filter fun m => Joins m.1 c).map Prod.snd

def add (G : Grouping) (c : XhciProtocol) : Grouping :=
  match (G.joined c).min? with
  | some g => ⟨G.members ++ [(c, g)], G.count⟩
  | none => ⟨G.members ++ [(c, G.count)], G.count + 1⟩

theorem mem_joined {G : Grouping} {g : ℕ} : g ∈ G.joined c ↔ ∃ c', (c', g) ∈ G.members ∧ Joins c' c := by
  unfold joined
  simp

theorem count_le_add (G : Grouping) (c : XhciProtocol) : G.count ≤ (G.add c).count := by
  unfold add
  split
  · exact le_rfl
  · exact Nat.le_succ _

theorem count_le_foldl (G : Grouping) (cs : List XhciProtocol) : G.count ≤ (cs.foldl add G).count := by
  induction cs generalizing G with
  | nil => exact le_rfl
  | cons c cs ih => exact (G.count_le_add c).trans (ih _)

theorem members_add (G : Grouping) (c : XhciProtocol) : ∃ g, (G.add c).members = G.members ++ [(c, g)] := by
  unfold add
  split
  · exact ⟨_, rfl⟩
  · exact ⟨_, rfl⟩

/-- The members are the capabilities, each one once. -/
theorem members_fst (G : Grouping) (cs : List XhciProtocol) :
    (cs.foldl add G).members.map Prod.fst = G.members.map Prod.fst ++ cs := by
  induction cs generalizing G with
  | nil => simp
  | cons c cs ih =>
    obtain ⟨g, hg⟩ := G.members_add c
    rw [List.foldl_cons, ih, hg]
    simp

end Grouping

/-- The groups of the capabilities `cs`. -/
def grouping (cs : List XhciProtocol) : Grouping := cs.foldl Grouping.add ⟨[], 0⟩

variable {G : Grouping}

/-- The entries of the table are the groups. -/
structure Describes (G : Grouping) (T : List XhciProtocol) : Prop where
  count : T.length = G.count
  ports : ∀ (i : ℕ) (e : XhciProtocol), T[i]? = some e → ∀ port, e.Has port ↔ ∃ c, (c, i) ∈ G.members ∧ c.Has port
  major : ∀ (c : XhciProtocol) (i : ℕ), (c, i) ∈ G.members → ∃ e, T[i]? = some e ∧ e.major = c.major
  starter : ∀ (i : ℕ) (e : XhciProtocol), T[i]? = some e → ∃ c, (c, i) ∈ G.members ∧ c.slotType = e.slotType
  nonempty : ∀ (i : ℕ) (e : XhciProtocol), T[i]? = some e → 0 < e.portCount

/-- An entry is adjacent to a new range exactly when a member of its group is. -/
theorem Describes.joins_iff (h : Describes G T) (hi : T[i]? = some e) (hpos : 0 < c.portCount)
    (hmem : ∀ m ∈ G.members, 0 < m.1.portCount ∧ Apart m.1 c) :
    Joins e c ↔ ∃ c', (c', i) ∈ G.members ∧ Joins c' c := by
  have hepos := h.nonempty i e hi
  have hmajor : ∀ c', (c', i) ∈ G.members → e.major = c'.major := by
    intro c' hc'
    obtain ⟨e', he', hm⟩ := h.major c' i hc'
    obtain rfl : e = e' := Option.some.inj (hi.symm.trans he')
    exact hm
  constructor
  · rintro ⟨hm, hlow | hhigh⟩
    · -- the member that has the entry's last port ends where the range starts
      have hlast : e.Has (e.portEnd - 1) := by
        unfold XhciProtocol.Has XhciProtocol.portEnd
        omega
      obtain ⟨c', hc', hhas⟩ := (h.ports i e hi _).mp hlast
      refine ⟨c', hc', (hmajor c' hc').symm.trans hm, .inl ?_⟩
      have hnot : ¬ c'.Has c.portOffset := fun hp => (hmem _ hc').2 _ hp ⟨le_rfl, by unfold XhciProtocol.portEnd; omega⟩
      unfold XhciProtocol.Has XhciProtocol.portEnd at *
      omega
    · have hfirst : e.Has e.portOffset := by
        unfold XhciProtocol.Has XhciProtocol.portEnd
        omega
      obtain ⟨c', hc', hhas⟩ := (h.ports i e hi _).mp hfirst
      refine ⟨c', hc', (hmajor c' hc').symm.trans hm, .inr ?_⟩
      have hnot : ¬ c'.Has (c.portEnd - 1) := fun hp => (hmem _ hc').2 _ hp (by
        unfold XhciProtocol.Has XhciProtocol.portEnd at *
        omega)
      unfold XhciProtocol.Has XhciProtocol.portEnd at *
      omega
  · rintro ⟨c', hc', hm, hadj⟩
    have hcpos := (hmem _ hc').1
    have hsub : ∀ port, c'.Has port → e.Has port := fun port hp => (h.ports i e hi port).mpr ⟨c', hc', hp⟩
    have hnot : ∀ port, c.Has port → ¬ e.Has port := by
      intro port hp he
      obtain ⟨c'', hc'', hp''⟩ := (h.ports i e hi port).mp he
      exact (hmem _ hc'').2 port hp'' hp
    refine ⟨(hmajor c' hc').trans hm, ?_⟩
    rcases hadj with hlow | hhigh
    · have h₁ := hsub (c'.portEnd - 1) (by unfold XhciProtocol.Has XhciProtocol.portEnd; simp only at hcpos; omega)
      have h₂ := hnot c.portOffset (by unfold XhciProtocol.Has XhciProtocol.portEnd; omega)
      simp only at hcpos
      left
      unfold XhciProtocol.Has XhciProtocol.portEnd at *
      omega
    · have h₁ := hsub c'.portOffset (by unfold XhciProtocol.Has XhciProtocol.portEnd; simp only at hcpos; omega)
      have h₂ := hnot (c.portEnd - 1) (by unfold XhciProtocol.Has XhciProtocol.portEnd; omega)
      simp only at hcpos
      right
      unfold XhciProtocol.Has XhciProtocol.portEnd at *
      omega

/-- The group that a range joins is the entry that `mergeInto` takes. -/
theorem Describes.min_joined (h : Describes G T) (hpos : 0 < c.portCount)
    (hmem : ∀ m ∈ G.members, 0 < m.1.portCount ∧ Apart m.1 c) (hi : T[i]? = some e) (he : Joins e c)
    (hfirst : ∀ j < i, ∀ e', T[j]? = some e' → ¬ Joins e' c) : (G.joined c).min? = some i := by
  rw [List.min?_eq_some_iff]
  refine ⟨Grouping.mem_joined.mpr ((h.joins_iff hi hpos hmem).mp he), ?_⟩
  intro g hg
  obtain ⟨c', hc', hj⟩ := Grouping.mem_joined.mp hg
  obtain ⟨e', he', -⟩ := h.major c' g hc'
  by_contra hlt
  exact hfirst g (by omega) e' he' ((h.joins_iff he' hpos hmem).mpr ⟨c', hc', hj⟩)

theorem Describes.joined_nil (h : Describes G T) (hpos : 0 < c.portCount)
    (hmem : ∀ m ∈ G.members, 0 < m.1.portCount ∧ Apart m.1 c) (hno : ∀ e ∈ T, ¬ Joins e c) :
    (G.joined c).min? = none := by
  rw [List.min?_eq_none_iff, List.eq_nil_iff_forall_not_mem]
  intro g hg
  obtain ⟨c', hc', hj⟩ := Grouping.mem_joined.mp hg
  obtain ⟨e', he', -⟩ := h.major c' g hc'
  exact hno e' (List.mem_of_getElem? he') ((h.joins_iff he' hpos hmem).mpr ⟨c', hc', hj⟩)

/-- A range is taken into the entry of its group. -/
theorem Describes.absorbed (h : Describes G T) (hi : T[i]? = some e) (he : Joins e c) :
    Describes ⟨G.members ++ [(c, i)], G.count⟩ (T.set i (absorb e c)) := by
  have hlt : i < T.length := (List.getElem?_eq_some_iff.mp hi).1
  have hset : ∀ j e', (T.set i (absorb e c))[j]? = some e' →
      j = i ∧ e' = absorb e c ∨ j ≠ i ∧ T[j]? = some e' := by
    intro j e' he'
    by_cases hji : j = i
    · rw [hji, List.getElem?_set_self hlt] at he'
      exact .inl ⟨hji, (Option.some.inj he').symm⟩
    · rw [List.getElem?_set_ne (Ne.symm hji)] at he'
      exact .inr ⟨hji, he'⟩
  refine ⟨?_, ?_, ?_, ?_, ?_⟩
  · rw [List.length_set, h.count]
  · intro j e' he' port
    rcases hset j e' he' with ⟨rfl, rfl⟩ | ⟨hji, hj⟩
    · rw [absorb_has he, h.ports j e hi port]
      simp only [List.mem_append, List.mem_singleton, Prod.mk.injEq, and_true]
      constructor
      · rintro (⟨c', hc', hp⟩ | hp)
        · exact ⟨c', .inl hc', hp⟩
        · exact ⟨c, .inr rfl, hp⟩
      · rintro ⟨c', hc' | rfl, hp⟩
        · exact .inl ⟨c', hc', hp⟩
        · exact .inr hp
    · rw [h.ports j e' hj port]
      simp [hji]
  · intro c' j hc'
    have hset' : ∀ e', T[j]? = some e' →
        ∃ e'', (T.set i (absorb e c))[j]? = some e'' ∧ e''.major = e'.major := by
      intro e' he'
      by_cases hij : i = j
      · subst hij
        obtain rfl : e = e' := Option.some.inj (hi.symm.trans he')
        exact ⟨_, List.getElem?_set_self hlt, absorb_major e c⟩
      · exact ⟨e', by rw [List.getElem?_set_ne hij, he'], rfl⟩
    rcases List.mem_append.mp hc' with hc' | hc'
    · obtain ⟨e', he', hm⟩ := h.major c' j hc'
      obtain ⟨e'', he'', hm'⟩ := hset' e' he'
      exact ⟨e'', he'', hm'.trans hm⟩
    · obtain ⟨rfl, rfl⟩ := Prod.mk.inj (List.mem_singleton.mp hc')
      obtain ⟨e'', he'', hm'⟩ := hset' e hi
      exact ⟨e'', he'', hm'.trans he.1⟩
  · intro j e' he'
    rcases hset j e' he' with ⟨rfl, rfl⟩ | ⟨-, hj⟩
    · obtain ⟨c', hc', hs⟩ := h.starter j e hi
      exact ⟨c', List.mem_append_left _ hc', by rw [hs, absorb_slotType]⟩
    · obtain ⟨c', hc', hs⟩ := h.starter j e' hj
      exact ⟨c', List.mem_append_left _ hc', hs⟩
  · intro j e' he'
    rcases hset j e' he' with ⟨rfl, rfl⟩ | ⟨-, hj⟩
    · have hpos := h.nonempty j e hi
      unfold absorb
      split
      · simp only
        omega
      · simp only
        omega
    · exact h.nonempty j e' hj

/-- A range starts a group of its own. -/
theorem Describes.append (h : Describes G T) (hpos : 0 < c.portCount) :
    Describes ⟨G.members ++ [(c, G.count)], G.count + 1⟩ (T ++ [c]) := by
  have hget : ∀ j e', (T ++ [c])[j]? = some e' → T[j]? = some e' ∨ j = G.count ∧ e' = c := by
    intro j e' he'
    rcases Nat.lt_or_ge j T.length with hj | hj
    · rw [List.getElem?_append_left hj] at he'
      exact .inl he'
    · rw [List.getElem?_append_right hj, List.getElem?_singleton] at he'
      split at he'
      · rename_i h0
        exact .inr ⟨by rw [← h.count]; omega, (Option.some.inj he').symm⟩
      · exact absurd he' (by simp)
  have hold : ∀ j e', T[j]? = some e' → j ≠ G.count := by
    intro j e' he'
    have hj := (List.getElem?_eq_some_iff.mp he').1
    rw [h.count] at hj
    omega
  have hnew : ∀ c', (c', G.count) ∉ G.members := by
    intro c' hc'
    obtain ⟨e', he', -⟩ := h.major c' _ hc'
    exact hold _ e' he' rfl
  have hnext : (T ++ [c])[G.count]? = some c := by
    rw [← h.count]
    simp
  refine ⟨by simp [h.count], ?_, ?_, ?_, ?_⟩
  · intro j e' he' port
    rcases hget j e' he' with hj | ⟨rfl, rfl⟩
    · rw [h.ports j e' hj port]
      simp [hold j e' hj]
    · simp [hnew]
  · intro c' j hc'
    rcases List.mem_append.mp hc' with hc' | hc'
    · obtain ⟨e', he', hm⟩ := h.major c' j hc'
      refine ⟨e', ?_, hm⟩
      rw [List.getElem?_append_left (List.getElem?_eq_some_iff.mp he').1, he']
    · obtain ⟨rfl, rfl⟩ := Prod.mk.inj (List.mem_singleton.mp hc')
      exact ⟨_, hnext, rfl⟩
  · intro j e' he'
    rcases hget j e' he' with hj | ⟨rfl, rfl⟩
    · obtain ⟨c', hc', hs⟩ := h.starter j e' hj
      exact ⟨c', List.mem_append_left _ hc', hs⟩
    · exact ⟨_, List.mem_append_right _ (List.mem_singleton.mpr rfl), rfl⟩
  · intro j e' he'
    rcases hget j e' he' with hj | ⟨-, rfl⟩
    · exact h.nonempty j e' hj
    · exact hpos

/-- One capability: the table follows the groups while there is room, and drops the range when there is none. -/
theorem addProtocol_step (h : Describes G T) (hpos : 0 < c.portCount)
    (hmem : ∀ m ∈ G.members, 0 < m.1.portCount ∧ Apart m.1 c) :
    if (G.add c).count ≤ xhciMaxProtocols then Describes (G.add c) (addProtocol T c) else
      G.count ≤ xhciMaxProtocols → addProtocol T c = T := by
  unfold addProtocol Grouping.add
  rw [if_pos hpos.ne']
  rcases mergeInto_spec c T with ⟨hnone, hno⟩ | ⟨i, e, hi, he, hfirst, hsome⟩
  · rw [hnone, h.joined_nil hpos hmem hno]
    simp only
    split
    · rename_i hroom
      rw [if_pos (by rw [h.count]; omega)]
      exact h.append hpos
    · rename_i hfull
      intro hle
      rw [if_neg (by rw [h.count]; omega)]
  · rw [hsome, h.min_joined hpos hmem hi he hfirst]
    simp only
    split
    · exact h.absorbed hi he
    · rename_i hfull
      exact fun hle => absurd hle hfull

/-! ## The whole chain -/

theorem Apart.symm (h : Apart c c') : Apart c' c := fun port hc' hc => h port hc hc'

/-- The members are not empty and apart from what is still to come. -/
def Grouping.Before (G : Grouping) (cs : List XhciProtocol) : Prop :=
  ∀ m ∈ G.members, 0 < m.1.portCount ∧ ∀ c ∈ cs, Apart m.1 c

theorem Grouping.Before.add (h : G.Before (c :: cs)) (hpos : 0 < c.portCount) (hap : ∀ c' ∈ cs, Apart c c') :
    (G.add c).Before cs := by
  obtain ⟨g, hg⟩ := G.members_add c
  intro m hm
  rw [hg] at hm
  rcases List.mem_append.mp hm with hm | hm
  · exact ⟨(h m hm).1, fun c' hc' => (h m hm).2 c' (List.mem_cons_of_mem c hc')⟩
  · rw [List.mem_singleton.mp hm]
    exact ⟨hpos, hap⟩

theorem foldl_describes (cs : List XhciProtocol) (h : Describes G T) (hbefore : G.Before cs)
    (hpos : ∀ c ∈ cs, 0 < c.portCount) (hap : cs.Pairwise Apart)
    (hroom : (cs.foldl Grouping.add G).count ≤ xhciMaxProtocols) :
    Describes (cs.foldl Grouping.add G) (cs.foldl addProtocol T) := by
  induction cs generalizing G T with
  | nil => exact h
  | cons c cs ih =>
    have hc := hpos c List.mem_cons_self
    obtain ⟨hhead, htail⟩ := List.pairwise_cons.mp hap
    have hstep := addProtocol_step h hc fun m hm => ⟨(hbefore m hm).1, (hbefore m hm).2 c List.mem_cons_self⟩
    rw [if_pos ((Grouping.count_le_foldl (G.add c) cs).trans hroom)] at hstep
    exact ih hstep (hbefore.add hc hhead) (fun c' hc' => hpos c' (List.mem_cons_of_mem c hc')) htail hroom

/-- No port comes into the table from elsewhere. -/
theorem addProtocol_ports (he : e ∈ addProtocol T c) (hp : e.Has port) :
    (∃ e' ∈ T, e'.Has port) ∨ c.Has port := by
  unfold addProtocol at he
  split at he
  · rcases mergeInto_spec c T with ⟨hnone, -⟩ | ⟨i, e₀, hi, hj, -, hsome⟩
    · rw [hnone] at he
      simp only at he
      split at he
      · rcases List.mem_append.mp he with he | he
        · exact .inl ⟨e, he, hp⟩
        · exact .inr (List.mem_singleton.mp he ▸ hp)
      · exact .inl ⟨e, he, hp⟩
    · rw [hsome] at he
      simp only at he
      rcases List.mem_or_eq_of_mem_set he with he | rfl
      · exact .inl ⟨e, he, hp⟩
      · rcases (absorb_has hj).mp hp with hp | hp
        · exact .inl ⟨e₀, List.mem_of_getElem? hi, hp⟩
        · exact .inr hp
  · exact .inl ⟨e, he, hp⟩

theorem foldl_ports (cs : List XhciProtocol) (he : e ∈ cs.foldl addProtocol T) (hp : e.Has port) :
    (∃ e' ∈ T, e'.Has port) ∨ ∃ c ∈ cs, c.Has port := by
  induction cs generalizing T with
  | nil => exact .inl ⟨e, he, hp⟩
  | cons c cs ih =>
    rcases ih he with ⟨e', he', hp'⟩ | ⟨c', hc', hp'⟩
    · rcases addProtocol_ports he' hp' with h | h
      · exact .inl h
      · exact .inr ⟨c, List.mem_cons_self, h⟩
    · exact .inr ⟨c', List.mem_cons_of_mem c hc', hp'⟩

/-- With more groups than entries, some range is in no entry. -/
theorem foldl_drops (cs : List XhciProtocol) (h : Describes G T) (hbefore : G.Before cs)
    (hpos : ∀ c ∈ cs, 0 < c.portCount) (hap : cs.Pairwise Apart) (hcount : G.count ≤ xhciMaxProtocols)
    (hfull : xhciMaxProtocols < (cs.foldl Grouping.add G).count) :
    ∃ c ∈ cs, ∀ e ∈ cs.foldl addProtocol T, Apart c e := by
  induction cs generalizing G T with
  | nil => exact absurd hcount (by simpa using hfull)
  | cons c cs ih =>
    have hc := hpos c List.mem_cons_self
    obtain ⟨hhead, htail⟩ := List.pairwise_cons.mp hap
    have hstep := addProtocol_step h hc fun m hm => ⟨(hbefore m hm).1, (hbefore m hm).2 c List.mem_cons_self⟩
    by_cases hroom : (G.add c).count ≤ xhciMaxProtocols
    · rw [if_pos hroom] at hstep
      obtain ⟨c', hc', hout⟩ := ih hstep (hbefore.add hc hhead)
        (fun c' hc' => hpos c' (List.mem_cons_of_mem c hc')) htail hroom hfull
      exact ⟨c', List.mem_cons_of_mem c hc', hout⟩
    · -- the range of `c` is dropped, and nothing that follows has its ports
      rw [if_neg hroom] at hstep
      refine ⟨c, List.mem_cons_self, ?_⟩
      intro e he port hp hpe
      rw [List.foldl_cons, hstep hcount] at he
      rcases foldl_ports cs he hpe with ⟨e', he', hp'⟩ | ⟨c', hc', hp'⟩
      · obtain ⟨i, hi⟩ := List.mem_iff_getElem?.mp he'
        obtain ⟨c'', hc'', hp''⟩ := (h.ports i e' hi port).mp hp'
        exact (hbefore _ hc'').2 c List.mem_cons_self port hp'' hp
      · exact hhead c' hc' port hp hp'

theorem describes_nil : Describes ⟨[], 0⟩ [] := ⟨rfl, by simp, by simp, by simp, by simp⟩

end Borgos.Usb
