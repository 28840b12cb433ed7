import Borgos.Mem.Page

/-! # The free lists as sets of blocks

`Buddy s L`: the free lists of the state are the lists `L`; every block on them has the order its list
says, is aligned, lies below `PFN_MAX` in one zone, has use count 0 throughout, and shares no frame
with another block of the zone. The lemmas below say what the pointer operations of `page.c` and the
assignments to order fields do to it; the recursions of the allocator are proved from them alone.
-/
namespace Borgos.Mem
open Borgos.Foundations Borgos.Kcore Borgos.Foundations.Intrusive
set_option autoImplicit false

/-- Frame numbers by zone and order. -/
abbrev Lists := Zone → ℕ → List ℕ

namespace Lists

def set (L : Lists) (z : Zone) (k : ℕ) (xs : List ℕ) : Lists :=
  fun z' k' => if z' = z ∧ k' = k then xs else L z' k'

def erase (L : Lists) (p : ℕ) : Lists := fun z k => (L z k).erase p

/-- The free blocks of a zone. -/
def free (L : Lists) (z : Zone) : Set Block := {b | b.head ∈ L z b.order}

theorem mem_free {L : Lists} {z : Zone} {b : Block} : b ∈ L.free z ↔ b.head ∈ L z b.order := Iff.rfl

theorem free_congr {L L' : Lists} {z : Zone} (h : L' z = L z) : L'.free z = L.free z := by
  ext b
  rw [mem_free, mem_free, h]

theorem set_self (L : Lists) (z : Zone) (k : ℕ) (xs : List ℕ) : L.set z k xs z k = xs := by
  simp [set]

theorem set_zone (L : Lists) {z z' : Zone} (k : ℕ) (xs : List ℕ) (h : z' ≠ z) :
    L.set z k xs z' = L z' := by
  funext k'
  simp [set, h]

theorem set_order (L : Lists) (z z' : Zone) {k k' : ℕ} (xs : List ℕ) (h : k' ≠ k) :
    L.set z k xs z' k' = L z' k' := by
  simp [set, h]

theorem free_push (L : Lists) (z : Zone) (k p : ℕ) :
    (L.set z k (p :: L z k)).free z = insert ⟨p, k⟩ (L.free z) := by
  ext b
  rw [mem_free, Set.mem_insert_iff, mem_free]
  by_cases hk : b.order = k
  · rw [hk, set_self, List.mem_cons]
    constructor
    · intro h
      rcases h with h | h
      · exact Or.inl (Block.eq_of_fields h hk)
      · exact Or.inr h
    · intro h
      rcases h with h | h
      · exact Or.inl (by rw [h])
      · exact Or.inr h
  · rw [set_order L z z _ hk]
    constructor
    · exact Or.inr
    · intro h
      rcases h with h | h
      · exact absurd (by rw [h]) hk
      · exact h

theorem free_set_zone (L : Lists) {z z' : Zone} (k : ℕ) (xs : List ℕ) (h : z' ≠ z) :
    (L.set z k xs).free z' = L.free z' := by
  ext b
  rw [mem_free, mem_free, set_zone L k xs h]

end Lists

/-- The head of the free list with index `(zone, order)`. -/
def freelistHead (i : Zone × Fin 7) : Node := .freelist i.1 i.2.val

/-- The list nodes of the descriptors of the array. -/
def frameNodes (s : Phys) : Set Node := {n | ∃ p, p ≤ s.pfnMax ∧ n = .page p}

/-- The rings that represent `L`. -/
def Represents (s : Phys) (L : Lists) : Prop :=
  RingSystem s.links (frameNodes s) freelistHead (fun i => (L i.1 i.2.val).map Node.page)

structure Buddy (s : Phys) (L : Lists) : Prop where
  rings : Represents s L
  bound : ∀ z k, allocbuddyMaxorder < k → L z k = []
  tiled : ∀ z, Tiled allocbuddyMaxorder (L.free z)
  order : ∀ z k, ∀ p ∈ L z k, (s.pageframemap p).order = k
  frame_le : ∀ z, ∀ b ∈ L.free z, ∀ f ∈ b.frames, f ≤ s.pfnMax
  frame_zone : ∀ z, ∀ b ∈ L.free z, ∀ f ∈ b.frames, (s.pageframemap f).zone = some z
  frame_use : ∀ z, ∀ b ∈ L.free z, ∀ f ∈ b.frames, (s.pageframemap f).usecount = 0

theorem page_injective : Function.Injective Node.page := fun _ _ h => Node.page.inj h

theorem mem_map_page {p : ℕ} {xs : List ℕ} : Node.page p ∈ xs.map Node.page ↔ p ∈ xs :=
  List.mem_map_of_injective page_injective

theorem page_mem_frameNodes {s : Phys} {p : ℕ} : Node.page p ∈ frameNodes s ↔ p ≤ s.pfnMax := by
  constructor
  · intro h
    obtain ⟨q, hq, e⟩ := h
    rw [Node.page.inj e]
    exact hq
  · intro h
    exact ⟨p, h, rfl⟩

theorem Represents.ring {s : Phys} {L : Lists} (h : Represents s L) (z : Zone) {k : ℕ}
    (hk : k ≤ allocbuddyMaxorder) : IsRing s.links (.freelist z k) ((L z k).map Node.page) :=
  RingSystem.ring h (z, ⟨k, by unfold allocbuddyMaxorder at hk; omega⟩)

theorem Represents.listDelPage {s : Phys} {L : Lists} (h : Represents s L) {p : ℕ} (hp : p ≤ s.pfnMax) :
    Represents (s.listDelPage p) (L.erase p) := by
  have hd := RingSystem.detach h (page_mem_frameNodes.mpr hp)
  have e : (fun i : Zone × Fin 7 => (L.erase p i.1 i.2.val).map Node.page) =
      fun i => ((L i.1 i.2.val).map Node.page).erase (Node.page p) := by
    funext i
    exact List.map_erase page_injective _
  unfold Represents
  rw [e]
  exact hd

theorem Represents.listAddPage {s : Phys} {L : Lists} (h : Represents s L) {p k : ℕ} (z : Zone)
    (hp : p ≤ s.pfnMax) (hk : k ≤ allocbuddyMaxorder) (hfree : ∀ z k, p ∉ L z k) :
    Represents (s.listAddPage p z k) (L.set z k (p :: L z k)) := by
  have hk7 : k < 7 := by unfold allocbuddyMaxorder at hk; omega
  have hx : ∀ i : Zone × Fin 7, Node.page p ∉ (L i.1 i.2.val).map Node.page :=
    fun i hm => hfree i.1 i.2.val (mem_map_page.mp hm)
  have hpush := RingSystem.push h (i := (z, ⟨k, hk7⟩)) (page_mem_frameNodes.mpr hp) hx
  have e : (fun i : Zone × Fin 7 => (L.set z k (p :: L z k) i.1 i.2.val).map Node.page) =
      Function.update (fun i : Zone × Fin 7 => (L i.1 i.2.val).map Node.page) (z, ⟨k, hk7⟩)
        (Node.page p :: (L z k).map Node.page) := by
    funext i
    by_cases hi : i = (z, ⟨k, hk7⟩)
    · subst hi
      rw [Function.update_self, Lists.set_self, List.map_cons]
    · rw [Function.update_of_ne hi]
      have hne : ¬(i.1 = z ∧ i.2.val = k) := by
        intro hc
        exact hi (Prod.ext hc.1 (Fin.ext hc.2))
      simp only [Lists.set, hne, if_false]
  unfold Represents
  rw [e]
  exact hpush

/-! ## Blocks outside the lists -/

/-- The block `⟨p, k⟩` of zone `z` is in nobody's list: its frames are free frames of the zone that no
listed block covers, and its head carries the order. -/
structure InHand (s : Phys) (L : Lists) (z : Zone) (p k : ℕ) : Prop where
  order_le : k ≤ allocbuddyMaxorder
  aligned : 2 ^ k ∣ p
  order : (s.pageframemap p).order = k
  frame_le : ∀ f ∈ (⟨p, k⟩ : Block).frames, f ≤ s.pfnMax
  frame_zone : ∀ f ∈ (⟨p, k⟩ : Block).frames, (s.pageframemap f).zone = some z
  frame_use : ∀ f ∈ (⟨p, k⟩ : Block).frames, (s.pageframemap f).usecount = 0
  apart : ∀ f ∈ (⟨p, k⟩ : Block).frames, f ∉ covered (L.free z)

namespace Buddy
variable {s : Phys} {L : Lists} {z : Zone} {p k : ℕ}

/-- A frame of zone `z` that no block of the zone covers is on no list at all. -/
theorem not_listed (h : Buddy s L) {f : ℕ} (hz : (s.pageframemap f).zone = some z)
    (hf : f ∉ covered (L.free z)) : ∀ z' k', f ∉ L z' k' := by
  intro z' k' hm
  have hb : (⟨f, k'⟩ : Block) ∈ L.free z' := hm
  have hz' := h.frame_zone z' _ hb f (Block.head_mem ⟨f, k'⟩)
  rw [hz] at hz'
  cases Option.some.inj hz'
  exact hf ⟨_, hb, Block.head_mem ⟨f, k'⟩⟩

theorem inHand_not_listed (h : Buddy s L) (hb : InHand s L z p k) : ∀ z' k', p ∉ L z' k' :=
  h.not_listed (hb.frame_zone p (Block.head_mem ⟨p, k⟩)) (hb.apart p (Block.head_mem ⟨p, k⟩))

theorem nodup (h : Buddy s L) (z : Zone) (k : ℕ) : (L z k).Nodup := by
  by_cases hk : k ≤ allocbuddyMaxorder
  · exact List.Nodup.of_map _ (h.rings.ring z hk).nodup
  · rw [h.bound z k (by omega)]
    exact List.nodup_nil

theorem mem_erase (h : Buddy s L) {b : Block} :
    b ∈ (L.erase p).free z ↔ b ∈ L.free z ∧ b.head ≠ p := by
  rw [Lists.mem_free, Lists.mem_free]
  unfold Lists.erase
  rw [(h.nodup z b.order).mem_erase_iff]
  tauto

theorem free_erase_of_mem (h : Buddy s L) (hp : p ∈ L z k) :
    (L.erase p).free z = L.free z \ {⟨p, k⟩} := by
  ext b
  rw [h.mem_erase, Set.mem_sdiff, Set.mem_singleton_iff]
  constructor
  · intro hb
    refine ⟨hb.1, fun e => hb.2 ?_⟩
    rw [e]
  · intro hb
    refine ⟨hb.1, fun e => hb.2 ?_⟩
    -- a zone has only one block with a given head
    have hpb : p ∈ b.frames := e ▸ b.head_mem
    exact (h.tiled z).disjoint b hb.1 ⟨p, k⟩ hp p hpb (Block.head_mem ⟨p, k⟩)

theorem erase_of_not_listed (hp : ∀ z k, p ∉ L z k) : L.erase p = L := by
  funext z k
  exact List.erase_of_not_mem (hp z k)

theorem free_erase_zone (h : Buddy s L) (hp : p ∈ L z k) {z' : Zone} (hz : z' ≠ z) :
    L.erase p z' = L z' := by
  funext k'
  refine List.erase_of_not_mem fun hm => hz ?_
  have h1 := h.frame_zone z ⟨p, k⟩ hp p (Block.head_mem ⟨p, k⟩)
  have h2 := h.frame_zone z' ⟨p, k'⟩ hm p (Block.head_mem ⟨p, k'⟩)
  rw [h1] at h2
  exact (Option.some.inj h2).symm

/-- `list_del` of any descriptor. -/
theorem listDelPage (h : Buddy s L) (hp : p ≤ s.pfnMax) : Buddy (s.listDelPage p) (L.erase p) where
  rings := h.rings.listDelPage hp
  bound z k hk := by
    unfold Lists.erase
    rw [h.bound z k hk]
    rfl
  tiled z := (h.tiled z).mono fun b hb => (h.mem_erase.mp hb).1
  order z k q hq := h.order z k q (List.mem_of_mem_erase hq)
  frame_le z b hb := h.frame_le z b (h.mem_erase.mp hb).1
  frame_zone z b hb := h.frame_zone z b (h.mem_erase.mp hb).1
  frame_use z b hb := h.frame_use z b (h.mem_erase.mp hb).1

/-- Assigning the order field of a descriptor that is on no list. -/
theorem setOrder (h : Buddy s L) (hp : ∀ z k, p ∉ L z k) (o : ℤ) : Buddy (s.setOrder p o) L where
  rings := h.rings
  bound := h.bound
  tiled := h.tiled
  order z k q hq := by
    have hne : q ≠ p := fun e => hp z k (e ▸ hq)
    show (Function.update s.pageframemap p _ q).order = k
    rw [Function.update_of_ne hne]
    exact h.order z k q hq
  frame_le := h.frame_le
  frame_zone z b hb f hf := by
    show (Function.update s.pageframemap p _ f).zone = some z
    by_cases hfp : f = p
    · subst hfp
      rw [Function.update_self]
      exact h.frame_zone z b hb f hf
    · rw [Function.update_of_ne hfp]
      exact h.frame_zone z b hb f hf
  frame_use z b hb f hf := by
    show (Function.update s.pageframemap p _ f).usecount = 0
    by_cases hfp : f = p
    · subst hfp
      rw [Function.update_self]
      exact h.frame_use z b hb f hf
    · rw [Function.update_of_ne hfp]
      exact h.frame_use z b hb f hf

/-- `list_add` of a block in hand to the list of its order. -/
theorem listAddPage (h : Buddy s L) (hb : InHand s L z p k) :
    Buddy (s.listAddPage p z k) (L.set z k (p :: L z k)) where
  rings := h.rings.listAddPage z (hb.frame_le p (Block.head_mem ⟨p, k⟩)) hb.order_le (h.inHand_not_listed hb)
  bound z' k' hk := by
    have hne : k' ≠ k := by
      have := hb.order_le
      omega
    rw [Lists.set_order L z z' _ hne]
    exact h.bound z' k' hk
  tiled z' := by
    by_cases hz : z' = z
    · subst hz
      rw [Lists.free_push]
      exact (h.tiled z').insert hb.order_le hb.aligned hb.apart
    · rw [Lists.free_set_zone L k _ hz]
      exact h.tiled z'
  order z' k' q hq := by
    show (s.pageframemap q).order = k'
    by_cases hzk : z' = z ∧ k' = k
    · obtain ⟨rfl, rfl⟩ := hzk
      rw [Lists.set_self] at hq
      rcases List.mem_cons.mp hq with e | hq
      · rw [e]
        exact hb.order
      · exact h.order z' k' q hq
    · simp only [Lists.set, hzk, if_false] at hq
      exact h.order z' k' q hq
  frame_le z' b hm f hf := by
    by_cases hz : z' = z
    · subst hz
      rw [Lists.free_push] at hm
      rcases hm with e | hm
      · subst e
        exact hb.frame_le f hf
      · exact h.frame_le z' b hm f hf
    · rw [Lists.free_set_zone L k _ hz] at hm
      exact h.frame_le z' b hm f hf
  frame_zone z' b hm f hf := by
    show (s.pageframemap f).zone = some z'
    by_cases hz : z' = z
    · subst hz
      rw [Lists.free_push] at hm
      rcases hm with e | hm
      · subst e
        exact hb.frame_zone f hf
      · exact h.frame_zone z' b hm f hf
    · rw [Lists.free_set_zone L k _ hz] at hm
      exact h.frame_zone z' b hm f hf
  frame_use z' b hm f hf := by
    show (s.pageframemap f).usecount = 0
    by_cases hz : z' = z
    · subst hz
      rw [Lists.free_push] at hm
      rcases hm with e | hm
      · subst e
        exact hb.frame_use f hf
      · exact h.frame_use z' b hm f hf
    · rw [Lists.free_set_zone L k _ hz] at hm
      exact h.frame_use z' b hm f hf

/-- Assigning use counts of descriptors no listed block covers. -/
theorem setUsecount (h : Buddy s L) (hp : ∀ z, p ∉ covered (L.free z)) (n : ℕ) :
    Buddy (s.setUsecount p n) L where
  rings := h.rings
  bound := h.bound
  tiled := h.tiled
  order z k q hq := by
    have hne : q ≠ p := fun e => hp z ⟨⟨q, k⟩, hq, e ▸ Block.head_mem ⟨q, k⟩⟩
    show (Function.update s.pageframemap p _ q).order = k
    rw [Function.update_of_ne hne]
    exact h.order z k q hq
  frame_le := h.frame_le
  frame_zone z b hb f hf := by
    have hne : f ≠ p := fun e => hp z ⟨b, hb, e ▸ hf⟩
    show (Function.update s.pageframemap p _ f).zone = some z
    rw [Function.update_of_ne hne]
    exact h.frame_zone z b hb f hf
  frame_use z b hb f hf := by
    have hne : f ≠ p := fun e => hp z ⟨b, hb, e ▸ hf⟩
    show (Function.update s.pageframemap p _ f).usecount = 0
    rw [Function.update_of_ne hne]
    exact h.frame_use z b hb f hf

/-- The computed free list is the represented one. -/
theorem freelist_eq (h : Buddy s L) (hk : k ≤ allocbuddyMaxorder) : s.freelist z k = L z k := by
  have hring := h.rings.ring z hk
  have hnd := h.nodup z k
  have hle : (L z k).length ≤ s.pfnMax + 1 := by
    have hsub : L z k ⊆ List.range (s.pfnMax + 1) := by
      intro q hq
      have := h.frame_le z ⟨q, k⟩ hq q (Block.head_mem ⟨q, k⟩)
      exact List.mem_range.mpr (by omega)
    have := (hnd.subperm hsub).length_le
    rwa [List.length_range] at this
  unfold Phys.freelist
  rw [listEntries_ring hring _ (by rw [List.length_map]; omega)]
  rw [List.filterMap_map]
  exact List.filterMap_some

end Buddy
end Borgos.Mem
