import Borgos.Foundations.IntrusiveRing

/-! # Several rings over one heap of nodes

`RingSystem h D hd L`: head `hd i` carries the list `L i` of nodes of `D`, no node is on two lists,
and every other node of `D` is loose, that is, null or linked to itself. Detaching a node is erasing
it from every list, so it may be applied to a node whose whereabouts are unknown; linking a node in
needs that it is on no list.
-/
namespace Borgos.Foundations
open Intrusive
set_option autoImplicit false

variable {α ι : Type} [DecidableEq α]

namespace Intrusive

/-- On no ring: null, or linked to itself. -/
def Loose (h : Links α) (x : α) : Prop := h x = null ∨ h x = ⟨some x, some x⟩

theorem detach_ne (h : Links α) (x y : α) (hy : y ≠ x) (hp : some y ≠ (h x).prev)
    (hn : some y ≠ (h x).next) : detach h x y = h y := by
  unfold detach
  split
  · rfl
  · rw [Function.update_of_ne hy, bridge_ne h y _ _ hp hn]

theorem detach_self (h : Links α) (x : α) : detach h x x = null := by
  unfold detach
  split
  · next hnull =>
    obtain ⟨hp, hn⟩ := hnull
    cases hx : h x with
    | mk n p =>
      rw [hx] at hp hn
      simp only at hp hn
      rw [hp, hn]
      rfl
  · exact Function.update_self ..

theorem detach_loose (h : Links α) (x y : α) (hx : Loose h x) (hy : y ≠ x) : detach h x y = h y := by
  have hsy : some y ≠ some x := fun e => hy (Option.some.inj e)
  rcases hx with hx | hx
  · exact detach_ne h x y hy (by rw [hx]; simp [null]) (by rw [hx]; simp [null])
  · exact detach_ne h x y hy (by rw [hx]; exact hsy) (by rw [hx]; exact hsy)

end Intrusive

structure RingSystem (h : Links α) (D : Set α) (hd : ι → α) (L : ι → List α) : Prop where
  ring : ∀ i, IsRing h (hd i) (L i)
  heads : ∀ i j, hd i = hd j → i = j
  outside : ∀ i, hd i ∉ D
  inside : ∀ i, ∀ x ∈ L i, x ∈ D
  apart : ∀ i j, ∀ x ∈ L i, x ∈ L j → i = j
  loose : ∀ x ∈ D, (∀ i, x ∉ L i) → Loose h x

namespace RingSystem
variable {h : Links α} {D : Set α} {hd : ι → α} {L : ι → List α}

omit [DecidableEq α] in
/-- A node of one ring is not a node of another. -/
theorem nodes_apart (hs : RingSystem h D hd L) {i j : ι} {x : α} (hij : j ≠ i)
    (hx : x ∈ hd i :: L i) : x ∉ hd j :: L j := by
  intro hx'
  rcases List.mem_cons.mp hx with e | hxi
  · subst e
    rcases List.mem_cons.mp hx' with e' | hxj
    · exact hij (hs.heads j i e'.symm)
    · exact hs.outside i (hs.inside j _ hxj)
  · rcases List.mem_cons.mp hx' with e' | hxj
    · subst e'
      exact hs.outside j (hs.inside i _ hxi)
    · exact hij (hs.apart j i x hxj hxi)

theorem erase_off (hs : RingSystem h D hd L) {i j : ι} {x : α} (hx : x ∈ L i) (hij : j ≠ i) :
    (L j).erase x = L j :=
  List.erase_of_not_mem fun hxj => hij (hs.apart j i x hxj hx)

/-- Detaching a node of `D` erases it from whatever list it is on. -/
theorem detach (hs : RingSystem h D hd L) {x : α} (hxD : x ∈ D) :
    RingSystem (Intrusive.detach h x) D hd (fun i => (L i).erase x) := by
  have hsub : ∀ i, ∀ y ∈ (L i).erase x, y ∈ L i := fun i y hy => List.mem_of_mem_erase hy
  have hgone : ∀ i, x ∉ (L i).erase x := fun i => (hs.ring i).nodup.not_mem_erase
  -- the ring part and the untouched nodes differ by whether `x` is on a list
  have key : (∀ i, IsRing (Intrusive.detach h x) (hd i) ((L i).erase x)) ∧
      ∀ y ∈ D, y ≠ x → (∀ i, y ∉ L i) → Intrusive.detach h x y = h y := by
    by_cases hx : ∃ i, x ∈ L i
    · obtain ⟨i, hxi⟩ := hx
      obtain ⟨l, r, hlr⟩ := List.append_of_mem hxi
      have hxl : x ∉ l := by
        have hnd := (hs.ring i).nodup
        rw [hlr] at hnd
        intro hm
        exact (List.nodup_append'.mp hnd).2.2 hm List.mem_cons_self
      have herase : (L i).erase x = l ++ r := by
        rw [hlr, List.erase_append_right _ hxl, List.erase_cons_head]
      have hring := hs.ring i
      rw [hlr] at hring
      obtain ⟨l', a, b, r', hl, hr⟩ := split_at (hd i) l r
      obtain ⟨-, hax, hxb, -⟩ := hring.neighbours hl hr
      have ha : a ∈ hd i :: L i := by
        have : a ∈ hd i :: l := by rw [hl]; simp
        rw [hlr]
        simp only [List.mem_cons, List.mem_append] at this ⊢
        tauto
      have hb : b ∈ hd i :: L i := by
        have : b ∈ r ++ [hd i] := by rw [hr]; simp
        rw [hlr]
        simp only [List.mem_cons, List.mem_append, List.not_mem_nil, or_false] at this ⊢
        tauto
      have hsame : ∀ y, y ∉ hd i :: L i → Intrusive.detach h x y = h y := by
        intro y hy
        refine detach_ne h x y ?_ ?_ ?_
        · intro e
          exact hy (e ▸ List.mem_cons_of_mem _ hxi)
        · rw [hax.2]
          intro e
          exact hy (Option.some.inj e ▸ ha)
        · rw [hxb.1]
          intro e
          exact hy (Option.some.inj e ▸ hb)
      refine ⟨?_, ?_⟩
      · intro j
        by_cases hji : j = i
        · subst hji
          rw [herase]
          exact hring.delete
        · rw [hs.erase_off hxi hji]
          refine (hs.ring j).congr fun u hu => hsame u ?_
          exact hs.nodes_apart (Ne.symm hji) hu
      · intro y hyD _ hy
        refine hsame y fun hm => ?_
        rcases List.mem_cons.mp hm with e | hm
        · exact hs.outside i (e ▸ hyD)
        · exact hy i hm
    · have hno : ∀ i, x ∉ L i := fun i hi => hx ⟨i, hi⟩
      have hlo := hs.loose x hxD hno
      refine ⟨?_, fun y _ hyx _ => detach_loose h x y hlo hyx⟩
      intro i
      rw [List.erase_of_not_mem (hno i)]
      refine (hs.ring i).congr fun u hu => detach_loose h x u hlo ?_
      intro e
      rcases List.mem_cons.mp hu with e' | hu
      · exact hs.outside i (by rw [← e', e]; exact hxD)
      · exact hno i (e ▸ hu)
  refine ⟨key.1, hs.heads, hs.outside, fun i y hy => hs.inside i y (hsub i y hy), ?_, ?_⟩
  · intro i j y hi hj
    exact hs.apart i j y (hsub i y hi) (hsub j y hj)
  · intro y hyD hy
    by_cases hyx : y = x
    · subst hyx
      exact Or.inl (detach_self h y)
    · have hyL : ∀ i, y ∉ L i := fun i hm => hy i ((List.mem_erase_of_ne hyx).mpr hm)
      have e := key.2 y hyD hyx hyL
      unfold Loose
      rw [e]
      exact hs.loose y hyD hyL

variable [DecidableEq ι]

/-- Linking a node that is on no list between two neighbours of ring `i`. -/
theorem insert (hs : RingSystem h D hd L) {i : ι} {x a b : α} {l r l' r' : List α} (hxD : x ∈ D)
    (hx : ∀ j, x ∉ L j) (hLi : L i = l ++ r) (hl : hd i :: l = l' ++ [a]) (hr : r ++ [hd i] = b :: r') :
    RingSystem (insertBetween h x (some a) (some b)) D hd (Function.update L i (l ++ x :: r)) := by
  have hxnode : ∀ j, x ∉ hd j :: L j := by
    intro j hm
    rcases List.mem_cons.mp hm with e | hm
    · exact hs.outside j (e ▸ hxD)
    · exact hx j hm
  have ha : a ∈ hd i :: L i := by
    have : a ∈ hd i :: l := by rw [hl]; simp
    rw [hLi]
    simp only [List.mem_cons, List.mem_append] at this ⊢
    tauto
  have hb : b ∈ hd i :: L i := by
    have : b ∈ r ++ [hd i] := by rw [hr]; simp
    rw [hLi]
    simp only [List.mem_cons, List.mem_append, List.not_mem_nil, or_false] at this ⊢
    tauto
  have hsame : ∀ y, y ≠ x → y ∉ hd i :: L i → insertBetween h x (some a) (some b) y = h y := by
    intro y hyx hy
    refine insertBetween_ne h x y _ _ hyx ?_ ?_
    · intro e
      exact hy (Option.some.inj e ▸ ha)
    · intro e
      exact hy (Option.some.inj e ▸ hb)
  have hmem : ∀ j, ∀ y ∈ Function.update L i (l ++ x :: r) j, (y = x ∧ j = i) ∨ y ∈ L j := by
    intro j y hy
    by_cases hji : j = i
    · subst hji
      rw [Function.update_self] at hy
      rw [hLi]
      simp only [List.mem_append, List.mem_cons] at hy ⊢
      tauto
    · rw [Function.update_of_ne hji] at hy
      exact Or.inr hy
  refine ⟨?_, hs.heads, hs.outside, ?_, ?_, ?_⟩
  · intro j
    by_cases hji : j = i
    · subst hji
      rw [Function.update_self]
      have hring := hs.ring j
      rw [hLi] at hring
      exact hring.insert hl hr (by rw [← hLi]; exact hxnode j)
    · rw [Function.update_of_ne hji]
      refine (hs.ring j).congr fun u hu => hsame u ?_ (hs.nodes_apart (Ne.symm hji) hu)
      intro e
      exact hxnode j (e ▸ hu)
  · intro j y hy
    rcases hmem j y hy with ⟨e, -⟩ | hy
    · exact e ▸ hxD
    · exact hs.inside j y hy
  · intro j k y hj hk
    rcases hmem j y hj with ⟨e, ej⟩ | hj'
    · rcases hmem k y hk with ⟨-, ek⟩ | hk'
      · rw [ej, ek]
      · exact absurd (e ▸ hk') (hx k)
    · rcases hmem k y hk with ⟨e, -⟩ | hk'
      · exact absurd (e ▸ hj') (hx j)
      · exact hs.apart j k y hj' hk'
  · intro y hyD hy
    have hyx : y ≠ x := by
      intro e
      refine hy i ?_
      rw [Function.update_self, e]
      simp
    have hyL : ∀ j, y ∉ L j := by
      intro j hm
      by_cases hji : j = i
      · subst hji
        refine hy j ?_
        rw [Function.update_self]
        rw [hLi] at hm
        simp only [List.mem_append, List.mem_cons] at hm ⊢
        tauto
      · exact hy j (by rw [Function.update_of_ne hji]; exact hm)
    have e := hsame y hyx fun hm => by
      rcases List.mem_cons.mp hm with e | hm
      · exact hs.outside i (e ▸ hyD)
      · exact hyL i hm
    unfold Loose
    rw [e]
    exact hs.loose y hyD hyL

/-- Linking a node in right after head `i`. -/
theorem push (hs : RingSystem h D hd L) {i : ι} {x : α} (hxD : x ∈ D) (hx : ∀ j, x ∉ L j) :
    RingSystem (insertBetween h x (some (hd i)) (h (hd i)).next) D hd (Function.update L i (x :: L i)) := by
  obtain ⟨b, r', hr⟩ : ∃ b r', L i ++ [hd i] = b :: r' := List.exists_cons_of_ne_nil (by simp)
  rw [(hs.ring i).head_next hr]
  have hL : L i = [] ++ L i := rfl
  have hl : [hd i] = [] ++ [hd i] := rfl
  exact hs.insert hxD hx hL hl hr

/-- Linking a node in right before head `i`. -/
theorem pushTail (hs : RingSystem h D hd L) {i : ι} {x : α} (hxD : x ∈ D) (hx : ∀ j, x ∉ L j) :
    RingSystem (insertBetween h x (h (hd i)).prev (some (hd i))) D hd
      (Function.update L i (L i ++ [x])) := by
  obtain ⟨l', a, -, -, hl, -⟩ := split_at (hd i) (L i) []
  rw [(hs.ring i).head_prev hl]
  have hr : [] ++ [hd i] = hd i :: [] := rfl
  exact hs.insert hxD hx (List.append_nil _).symm hl hr

end RingSystem
end Borgos.Foundations
