import Borgos.Mem.FreeLists

/-! # What the recursions of `page.c` do to the free blocks

One theorem for each of `_addToBuddyFreeList`, `_findFreePageInBuddy`, `_alloc_pages_byorder` and
`page_free_page_pfn`, in terms of the represented lists. Each says which frames are covered
afterwards, that the free blocks of every zone are again coalesced, and, through `SameBut`, which
descriptor fields may have changed.
-/
namespace Borgos.Mem
open Borgos.Foundations Borgos.Kcore Borgos.Foundations.Intrusive
set_option autoImplicit false

/-- Only order fields of `A` and use counts of `U` may differ. -/
structure SameBut (A U : Set ℕ) (s s' : Phys) : Prop where
  pfnMax : s'.pfnMax = s.pfnMax
  zone : ∀ f, (s'.pageframemap f).zone = (s.pageframemap f).zone
  memsegment : ∀ f, (s'.pageframemap f).memsegment = (s.pageframemap f).memsegment
  order : ∀ f, f ∉ A → (s'.pageframemap f).order = (s.pageframemap f).order
  use : ∀ f, f ∉ U → (s'.pageframemap f).usecount = (s.pageframemap f).usecount

namespace SameBut
variable {A B U V : Set ℕ} {s t u : Phys}

theorem refl (s : Phys) : SameBut A U s s := ⟨rfl, fun _ => rfl, fun _ => rfl, fun _ _ => rfl, fun _ _ => rfl⟩

theorem mono (h : SameBut A U s t) (hA : A ⊆ B) (hU : U ⊆ V) : SameBut B V s t where
  pfnMax := h.pfnMax
  zone := h.zone
  memsegment := h.memsegment
  order f hf := h.order f fun hm => hf (hA hm)
  use f hf := h.use f fun hm => hf (hU hm)

theorem trans (h : SameBut A U s t) (h' : SameBut A U t u) : SameBut A U s u where
  pfnMax := h'.pfnMax.trans h.pfnMax
  zone f := (h'.zone f).trans (h.zone f)
  memsegment f := (h'.memsegment f).trans (h.memsegment f)
  order f hf := (h'.order f hf).trans (h.order f hf)
  use f hf := (h'.use f hf).trans (h.use f hf)

theorem links (s : Phys) (h : Links Node) : SameBut A U s { s with links := h } := by
  exact ⟨rfl, fun _ => rfl, fun _ => rfl, fun _ _ => rfl, fun _ _ => rfl⟩

theorem setOrder (s : Phys) {p : ℕ} (o : ℤ) (hp : p ∈ A) : SameBut A U s (s.setOrder p o) := by
  have hne : ∀ f, f ≠ p → (s.setOrder p o).pageframemap f = s.pageframemap f :=
    fun f hf => Function.update_of_ne hf ..
  have hself : (s.setOrder p o).pageframemap p = { s.pageframemap p with order := o } :=
    Function.update_self ..
  refine ⟨rfl, fun f => ?_, fun f => ?_, fun f hf => ?_, fun f _ => ?_⟩
  · by_cases e : f = p
    · rw [e, hself]
    · rw [hne f e]
  · by_cases e : f = p
    · rw [e, hself]
    · rw [hne f e]
  · rw [hne f fun e => hf (e ▸ hp)]
  · by_cases e : f = p
    · rw [e, hself]
    · rw [hne f e]

theorem setUsecount (s : Phys) {p : ℕ} (n : ℕ) (hp : p ∈ U) : SameBut A U s (s.setUsecount p n) := by
  have hne : ∀ f, f ≠ p → (s.setUsecount p n).pageframemap f = s.pageframemap f :=
    fun f hf => Function.update_of_ne hf ..
  have hself : (s.setUsecount p n).pageframemap p = { s.pageframemap p with usecount := n } :=
    Function.update_self ..
  refine ⟨rfl, fun f => ?_, fun f => ?_, fun f _ => ?_, fun f hf => ?_⟩
  · by_cases e : f = p
    · rw [e, hself]
    · rw [hne f e]
  · by_cases e : f = p
    · rw [e, hself]
    · rw [hne f e]
  · by_cases e : f = p
    · rw [e, hself]
    · rw [hne f e]
  · rw [hne f fun e => hf (e ▸ hp)]

end SameBut

@[simp] theorem setOrder_order (s : Phys) (p : ℕ) (o : ℤ) : ((s.setOrder p o).pageframemap p).order = o := by
  show (Function.update s.pageframemap p _ p).order = o
  rw [Function.update_self]

theorem setOrder_order_ne (s : Phys) {p q : ℕ} (o : ℤ) (h : q ≠ p) :
    ((s.setOrder p o).pageframemap q).order = (s.pageframemap q).order := by
  show (Function.update s.pageframemap p _ q).order = _
  rw [Function.update_of_ne h]

@[simp] theorem setUsecount_usecount (s : Phys) (p n : ℕ) :
    ((s.setUsecount p n).pageframemap p).usecount = n := by
  show (Function.update s.pageframemap p _ p).usecount = n
  rw [Function.update_self]

@[simp] theorem setUsecount_order (s : Phys) (p n q : ℕ) :
    ((s.setUsecount p n).pageframemap q).order = (s.pageframemap q).order :=
  (SameBut.setUsecount s n (Set.mem_singleton p) : SameBut ∅ {p} s _).order q (Set.notMem_empty q)

/-- All zones are coalesced. -/
def AllCoalesced (L : Lists) : Prop := ∀ z, Coalesced allocbuddyMaxorder (L.free z)

/-! ## `_addToBuddyFreeList` -/

section Add
variable {s : Phys} {L : Lists} {z : Zone} {p k : ℕ}

theorem InHand.congr {s' : Phys} {A : Set ℕ} (hb : InHand s L z p k) (hs : SameBut A ∅ s s')
    (ho : (s'.pageframemap p).order = k) : InHand s' L z p k where
  order_le := hb.order_le
  aligned := hb.aligned
  order := ho
  frame_le f hf := by
    rw [hs.pfnMax]
    exact hb.frame_le f hf
  frame_zone f hf := by
    rw [hs.zone]
    exact hb.frame_zone f hf
  frame_use f hf := by
    rw [hs.use f (Set.notMem_empty f)]
    exact hb.frame_use f hf
  apart := hb.apart

/-- A block in hand and a listed block of the same order that together are an aligned block. -/
theorem Buddy.merge {s' : Phys} {A : Set ℕ} {q r : ℕ} (h : Buddy s L) (hb : InHand s L z p k)
    (hq : q ∈ L z k) (hk : k < allocbuddyMaxorder) (hr : 2 ^ (k + 1) ∣ r)
    (hu : ∀ f, f ∈ (⟨r, k + 1⟩ : Block).frames ↔ f ∈ (⟨p, k⟩ : Block).frames ∨ f ∈ (⟨q, k⟩ : Block).frames)
    (hs : SameBut A ∅ s s') (ho : (s'.pageframemap r).order = ((k + 1 : ℕ) : ℤ)) :
    InHand s' (L.erase q) z r (k + 1) := by
  have hqb : (⟨q, k⟩ : Block) ∈ L.free z := hq
  refine ⟨hk, hr, ho, ?_, ?_, ?_, ?_⟩
  · intro f hf
    rw [hs.pfnMax]
    rcases (hu f).mp hf with hf | hf
    · exact hb.frame_le f hf
    · exact h.frame_le z _ hqb f hf
  · intro f hf
    rw [hs.zone]
    rcases (hu f).mp hf with hf | hf
    · exact hb.frame_zone f hf
    · exact h.frame_zone z _ hqb f hf
  · intro f hf
    rw [hs.use f (Set.notMem_empty f)]
    rcases (hu f).mp hf with hf | hf
    · exact hb.frame_use f hf
    · exact h.frame_use z _ hqb f hf
  · intro f hf hc
    rw [h.free_erase_of_mem hq] at hc
    obtain ⟨c, ⟨hc, hcq⟩, hfc⟩ := hc
    rcases (hu f).mp hf with hf | hf
    · exact hb.apart f hf ⟨c, hc, hfc⟩
    · exact hcq ((h.tiled z).disjoint c hc ⟨q, k⟩ hqb f hfc hf)

/-- The search for the buddy finds it exactly when it is listed. -/
theorem Buddy.find_buddy (h : Buddy s L) (hk : k ≤ allocbuddyMaxorder) (q : ℕ) :
    listForEachFind s.links (.freelist z k) (fun n => n = Node.page q) (s.pfnMax + 2) =
      some (if q ∈ L z k then some (Node.page q) else none) := by
  have hlen : ((L z k).map Node.page).length < s.pfnMax + 2 := by
    rw [List.length_map]
    have hsub : L z k ⊆ List.range (s.pfnMax + 1) := by
      intro f hf
      have := h.frame_le z ⟨f, k⟩ hf f (Block.head_mem ⟨f, k⟩)
      exact List.mem_range.mpr (by omega)
    have := ((h.nodup z k).subperm hsub).length_le
    rw [List.length_range] at this
    omega
  unfold listForEachFind
  rw [(h.rings.ring z hk).find_eq _ _ hlen]
  congr 1
  split
  · next hq =>
    cases hfind : ((L z k).map Node.page).find? (fun n => n = Node.page q) with
    | none =>
      rw [List.find?_eq_none] at hfind
      exact absurd (by simp) (hfind _ (mem_map_page.mpr hq))
    | some n =>
      have := List.find?_some hfind
      simp only [decide_eq_true_eq] at this
      rw [this]
  · next hq =>
    rw [List.find?_eq_none]
    intro n hn
    simp only [decide_eq_true_eq]
    intro e
    exact hq (mem_map_page.mp (e ▸ hn))

/-- What releasing the block `⟨p, k⟩` of zone `z` does. -/
structure Released (s : Phys) (L : Lists) (z : Zone) (p k : ℕ) (s' : Phys) (L' : Lists) : Prop where
  buddy : Buddy s' L'
  coalesced : AllCoalesced L'
  elsewhere : ∀ z', z' ≠ z → L' z' = L z'
  covers : covered (L'.free z) = covered (L.free z) ∪ (⟨p, k⟩ : Block).frames
  same : SameBut (covered (L.free z) ∪ (⟨p, k⟩ : Block).frames) ∅ s s'

/-- The block is put on the list of its order when it has no buddy there. -/
theorem Buddy.release (h : Buddy s L) (hc : AllCoalesced L) (hb : InHand s L z p k)
    (hbud : k < allocbuddyMaxorder → Block.buddyHead p k ∉ L z k) :
    Released s L z p k (s.listAddPage p z k) (L.set z k (p :: L z k)) where
  buddy := h.listAddPage hb
  coalesced z' := by
    by_cases hz : z' = z
    · subst hz
      rw [Lists.free_push]
      exact (hc z').insert hb.order_le hb.aligned hb.apart hbud
    · rw [Lists.free_set_zone L k _ hz]
      exact hc z'
  elsewhere z' hz := Lists.set_zone L k _ hz
  covers := by
    rw [Lists.free_push]
    ext f
    constructor
    · intro hf
      obtain ⟨b, hb, hf⟩ := hf
      rcases hb with e | hb
      · exact Or.inr (e ▸ hf)
      · exact Or.inl ⟨b, hb, hf⟩
    · intro hf
      rcases hf with ⟨b, hb, hf⟩ | hf
      · exact ⟨b, Or.inr hb, hf⟩
      · exact ⟨_, Or.inl rfl, hf⟩
  same := SameBut.links s _

/-- Releasing the merged block from a state without the buddy releases the block. -/
theorem Released.of_merge {s₁ s' : Phys} {L' : Lists} {q r : ℕ} (h : Buddy s L) (hq : q ∈ L z k)
    (hu : ∀ f, f ∈ (⟨r, k + 1⟩ : Block).frames ↔ f ∈ (⟨p, k⟩ : Block).frames ∨ f ∈ (⟨q, k⟩ : Block).frames)
    (hs : SameBut (covered (L.free z) ∪ (⟨p, k⟩ : Block).frames) ∅ s s₁)
    (hr : Released s₁ (L.erase q) z r (k + 1) s' L') : Released s L z p k s' L' := by
  have hcov : covered ((L.erase q).free z) ∪ (⟨r, k + 1⟩ : Block).frames =
      covered (L.free z) ∪ (⟨p, k⟩ : Block).frames := by
    rw [h.free_erase_of_mem hq]
    ext f
    constructor
    · intro hf
      rcases hf with ⟨b, hb, hf⟩ | hf
      · exact Or.inl ⟨b, hb.1, hf⟩
      · rcases (hu f).mp hf with hf | hf
        · exact Or.inr hf
        · exact Or.inl ⟨⟨q, k⟩, hq, hf⟩
    · intro hf
      rcases hf with ⟨b, hb, hf⟩ | hf
      · by_cases e : b = ⟨q, k⟩
        · exact Or.inr ((hu f).mpr (Or.inr (e ▸ hf)))
        · exact Or.inl ⟨b, ⟨hb, e⟩, hf⟩
      · exact Or.inr ((hu f).mpr (Or.inl hf))
  refine ⟨hr.buddy, hr.coalesced, ?_, ?_, ?_⟩
  · intro z' hz
    rw [hr.elsewhere z' hz, h.free_erase_zone hq hz]
  · rw [hr.covers, hcov]
  · exact hs.trans (hcov ▸ hr.same)

theorem AllCoalesced.erase (h : Buddy s L) (hc : AllCoalesced L) (q : ℕ) : AllCoalesced (L.erase q) :=
  fun z => (hc z).mono fun _ hb => (h.mem_erase.mp hb).1

end Add

/-- `_addToBuddyFreeList` returns, and releases the block it is given. -/
theorem addToBuddyFreeList_spec : ∀ (fuel : ℕ) (s : Phys) (L : Lists) (z : Zone) (p k : ℕ),
    allocbuddyMaxorder < k + fuel → Buddy s L → AllCoalesced L → InHand s L z p k →
    ∃ s' L', addToBuddyFreeList fuel p k s = .ok () s' ∧ Released s L z p k s' L'
  | 0, s, L, z, p, k, hf, _, _, hb => by
    have := hb.order_le
    omega
  | fuel + 1, s, L, z, p, k, hf, h, hc, hb => by
    have hhead := Block.head_mem ⟨p, k⟩
    have hzone := hb.frame_zone p hhead
    have hle := hb.frame_le p hhead
    have hnot := h.inHand_not_listed hb
    have hko : ¬k > allocbuddyMaxorder := by
      have := hb.order_le
      omega
    -- unlinking a page that is on no list changes no list
    have h1 : Buddy (s.listDelPage p) L := by
      have := h.listDelPage hle
      rwa [Buddy.erase_of_not_listed hnot] at this
    have hs1 : SameBut ∅ ∅ s (s.listDelPage p) := SameBut.links s _
    have hb1 : InHand (s.listDelPage p) L z p k := hb.congr hs1 hb.order
    have hplain : (k < allocbuddyMaxorder → Block.buddyHead p k ∉ L z k) →
        ∃ L', Released s L z p k ((s.listDelPage p).listAddPage p z k) L' := by
      intro hbud
      have hr := h1.release hc hb1 hbud
      exact ⟨_, hr.buddy, hr.coalesced, hr.elsewhere, hr.covers, (SameBut.links s _).trans hr.same⟩
    by_cases hmax : k ≥ allocbuddyMaxorder
    · obtain ⟨L', hr⟩ := hplain fun hlt => absurd hlt (by omega)
      refine ⟨_, L', ?_, hr⟩
      simp only [addToBuddyFreeList, Prog.bind_run, Prog.get_run, Outcome.andThen_ok, hzone, hko, hmax,
        if_true, if_false, Prog.modify_run]
    have hk : k < allocbuddyMaxorder := by omega
    by_cases huse : ((s.listDelPage p).pageframemap (Block.buddyHead p k)).usecount > 0
    · -- a page in use is on no list
      have hbud : Block.buddyHead p k ∉ L z k := by
        intro hm
        have hzero := h1.frame_use z ⟨Block.buddyHead p k, k⟩ hm _ (Block.head_mem ⟨Block.buddyHead p k, k⟩)
        exact absurd hzero huse.ne'
      obtain ⟨L', hr⟩ := hplain fun _ => hbud
      refine ⟨_, L', ?_, hr⟩
      unfold Block.buddyHead at huse
      simp only [addToBuddyFreeList, Prog.bind_run, Prog.get_run, Outcome.andThen_ok, hzone, hko, hmax,
        huse, if_true, if_false, Prog.modify_run]
    have hfind := h1.find_buddy (z := z) hb.order_le (Block.buddyHead p k)
    by_cases hq : Block.buddyHead p k ∈ L z k
    swap
    · obtain ⟨L', hr⟩ := hplain fun _ => hq
      refine ⟨_, L', ?_, hr⟩
      rw [if_neg hq] at hfind
      unfold Block.buddyHead at huse hfind
      simp only [addToBuddyFreeList, Prog.bind_run, Prog.get_run, Outcome.andThen_ok, hzone, hko, hmax,
        huse, if_false, Prog.modify_run, hfind]
    rw [if_pos hq] at hfind
    -- the buddy is listed: unlink it and release the merged block
    have hqle : Block.buddyHead p k ≤ (s.listDelPage p).pfnMax :=
      h1.frame_le z ⟨Block.buddyHead p k, k⟩ hq _ (Block.head_mem ⟨Block.buddyHead p k, k⟩)
    have h2 := h1.listDelPage hqle
    have hc2 := AllCoalesced.erase h1 hc (Block.buddyHead p k)
    have hp2 : ∀ z' k', p ∉ L.erase (Block.buddyHead p k) z' k' :=
      fun z' k' hm => hnot z' k' (List.mem_of_mem_erase hm)
    have hq2 : ∀ z' k', Block.buddyHead p k ∉ L.erase (Block.buddyHead p k) z' k' :=
      fun z' k' => (h1.nodup z' k').not_mem_erase
    have hqp : Block.buddyHead p k ≠ p := fun e => hnot z k (e ▸ hq)
    have hpA : p ∈ covered (L.free z) ∪ (⟨p, k⟩ : Block).frames := Or.inr hhead
    have hqA : Block.buddyHead p k ∈ covered (L.free z) ∪ (⟨p, k⟩ : Block).frames :=
      Or.inl ⟨⟨Block.buddyHead p k, k⟩, hq, Block.head_mem ⟨Block.buddyHead p k, k⟩⟩
    have horder : ∀ o, o ∈ L z k → ((s.listDelPage p).pageframemap o).order = k := h1.order z k
    rcases Block.aligned_rest hb.aligned with hrest | hrest
    · -- the lower half: the block itself grows
      obtain ⟨q, hqe⟩ : ∃ q, q = Block.buddyHead p k := ⟨_, rfl⟩
      have hqv : q = p + 2 ^ k := hqe.trans (Block.buddyHead_left hrest)
      rw [← hqe] at hq h2 hc2 hp2 hq2 hqp hqA hfind huse
      have hu : ∀ f, f ∈ (⟨p, k + 1⟩ : Block).frames ↔
          f ∈ (⟨p, k⟩ : Block).frames ∨ f ∈ (⟨q, k⟩ : Block).frames := by
        intro f
        rw [hqv]
        exact Block.parent_frames_left
      have hsame : SameBut (covered (L.free z) ∪ (⟨p, k⟩ : Block).frames) ∅ s
          ((((s.listDelPage p).listDelPage q).setOrder p ((k : ℤ) + 1)).setOrder q (-1)) :=
        ((SameBut.links s _).trans (SameBut.setOrder _ _ hpA)).trans (SameBut.setOrder _ _ hqA)
      have h4 := (h2.setOrder hp2 ((k : ℤ) + 1)).setOrder hq2 (-1)
      have hb4 := h.merge hb hq hk (Block.left_dvd hrest) hu hsame (by
        rw [setOrder_order_ne _ _ (Ne.symm hqp), setOrder_order]
        push_cast
        rfl)
      obtain ⟨s', L', hrun, hrel⟩ := addToBuddyFreeList_spec fuel _ _ z p (k + 1) (by omega) h4 hc2 hb4
      refine ⟨s', L', ?_, Released.of_merge h hq hu hsame hrel⟩
      have hor : (((s.listDelPage p).listDelPage q).pageframemap p).order = k := hb.order
      simp only [addToBuddyFreeList, Prog.bind_run, Prog.get_run, Outcome.andThen_ok, hzone, hko, hmax,
        hrest, if_true, ← hqv, huse, if_false, Prog.modify_run, hfind, hor]
      exact hrun
    · -- the upper half: the buddy takes the block in
      obtain ⟨q, hqe⟩ : ∃ q, q = Block.buddyHead p k := ⟨_, rfl⟩
      have hqv : q = p - 2 ^ k := hqe.trans (Block.buddyHead_right hrest)
      have hple := Block.rest_le hrest
      have hne : ¬2 ^ k = 0 := (Nat.two_pow_pos k).ne'
      rw [← hqe] at hq h2 hc2 hp2 hq2 hqp hqA hfind huse
      have hpv : p = q + 2 ^ k := by omega
      have hu : ∀ f, f ∈ (⟨q, k + 1⟩ : Block).frames ↔
          f ∈ (⟨p, k⟩ : Block).frames ∨ f ∈ (⟨q, k⟩ : Block).frames := by
        intro f
        rw [Block.parent_frames_left, ← hpv]
        exact Or.comm
      have hsame : SameBut (covered (L.free z) ∪ (⟨p, k⟩ : Block).frames) ∅ s
          ((((s.listDelPage p).listDelPage q).setOrder q ((k : ℤ) + 1)).setOrder p (-1)) :=
        ((SameBut.links s _).trans (SameBut.setOrder _ _ hqA)).trans (SameBut.setOrder _ _ hpA)
      have h4 := (h2.setOrder hq2 ((k : ℤ) + 1)).setOrder hp2 (-1)
      have hdvd : 2 ^ (k + 1) ∣ q := hqv ▸ Block.right_dvd hrest
      have hb4 := h.merge hb hq hk hdvd hu hsame (by
        rw [setOrder_order_ne _ _ hqp, setOrder_order]
        push_cast
        rfl)
      obtain ⟨s', L', hrun, hrel⟩ := addToBuddyFreeList_spec fuel _ _ z q (k + 1) (by omega) h4 hc2 hb4
      refine ⟨s', L', ?_, Released.of_merge h hq hu hsame hrel⟩
      have hor : (((s.listDelPage p).listDelPage q).pageframemap q).order = k := horder q hq
      simp only [addToBuddyFreeList, Prog.bind_run, Prog.get_run, Outcome.andThen_ok, hzone, hko, hmax,
        hrest, hne, ← hqv, huse, if_false, Prog.modify_run, hfind, hor]
      exact hrun

/-! ## `_findFreePageInBuddy` -/

/-- The search from order `k` meets `q` at the head of the list of order `j`, after empty lists. -/
structure Lists.First (L : Lists) (z : Zone) (k j q : ℕ) : Prop where
  le : k ≤ j
  empty : ∀ i, k ≤ i → i < j → L z i = []
  head : (L z j).head? = some q

namespace Lists
variable {L : Lists} {z : Zone} {k j q : ℕ}

theorem First.mem (h : L.First z k j q) : q ∈ L z j := List.mem_of_head? h.head

theorem First.succ (h : L.First z k j q) (hlt : k < j) : L.First z (k + 1) j q :=
  ⟨hlt, fun i hi => h.empty i (by omega), h.head⟩

theorem first_self {xs : List ℕ} (h : L z k = q :: xs) : L.First z k k q :=
  ⟨le_refl k, fun i hi hlt => absurd hlt (by omega), by rw [h]; rfl⟩

/-- Either every list from order `k` on is empty or the search meets a block. -/
theorem exhausted_or_first {N : ℕ} (L : Lists) (z : Zone) (hN : ∀ i, N < i → L z i = []) :
    ∀ d k, N < k + d → (∀ i, k ≤ i → L z i = []) ∨ ∃ j q, L.First z k j q
  | 0, k, hd => Or.inl fun i hi => hN i (by omega)
  | d + 1, k, hd => by
    cases hk : L z k with
    | cons q xs => exact Or.inr ⟨k, q, first_self hk⟩
    | nil =>
      rcases exhausted_or_first L z hN d (k + 1) (by omega) with h | ⟨j, q, h⟩
      · left
        intro i hi
        by_cases e : i = k
        · rw [e, hk]
        · exact h i (by omega)
      · right
        refine ⟨j, q, ?_, ?_, h.head⟩
        · have := h.le
          omega
        · intro i hi hlt
          by_cases e : i = k
          · rw [e, hk]
          · exact h.empty i (by omega) hlt

end Lists

section Find
variable {s : Phys} {L : Lists} {z : Zone} {k j q : ℕ}

theorem Buddy.listEmpty_iff (h : Buddy s L) (hk : k ≤ allocbuddyMaxorder) :
    listEmpty s.links (.freelist z k) = true ↔ L z k = [] := by
  unfold listEmpty
  rw [decide_eq_true_iff, (h.rings.ring z hk).next_eq_head, List.map_eq_nil_iff]

theorem Buddy.first_le (h : Buddy s L) (hf : L.First z k j q) : j ≤ allocbuddyMaxorder :=
  (h.tiled z).order_le ⟨q, j⟩ hf.mem

/-- Nothing left: the recursion runs past the last order. -/
theorem findFreePageInBuddy_exhausted (h : Buddy s L) : ∀ fuel k, allocbuddyMaxorder + 1 < k + fuel →
    k ≤ allocbuddyMaxorder + 1 → (∀ i, k ≤ i → L z i = []) →
    findFreePageInBuddy z fuel k s = .panic "order > MAXORDER\n" s
  | 0, k, hf, hk, _ => by omega
  | fuel + 1, k, hf, hk, he => by
    by_cases hgt : k > allocbuddyMaxorder
    · simp only [findFreePageInBuddy, hgt, if_true, Prog.panic_run]
    · have hempty := (h.listEmpty_iff (z := z) (k := k) (by omega)).mpr (he k (le_refl k))
      have ih := findFreePageInBuddy_exhausted h fuel (k + 1) (by omega) (by omega)
        fun i hi => he i (by omega)
      simp only [findFreePageInBuddy, hgt, if_false, Prog.bind_run, Prog.get_run, Outcome.andThen_ok,
        hempty, if_true, ih, Outcome.andThen_panic]

/-- A block found at the order asked for. -/
theorem findFreePageInBuddy_head (h : Buddy s L) (hf : L.First z k k q) (fuel : ℕ) :
    findFreePageInBuddy z (fuel + 1) k s = .ok (q : ℤ) s := by
  have hk := h.first_le hf
  have hgt : ¬k > allocbuddyMaxorder := by omega
  obtain ⟨xs, hxs⟩ : ∃ xs, L z k = q :: xs := List.head?_eq_some_iff.mp hf.head
  have hempty : ¬listEmpty s.links (.freelist z k) = true := by
    rw [h.listEmpty_iff hk, hxs]
    exact List.cons_ne_nil q xs
  have hring := h.rings.ring z hk
  rw [hxs, List.map_cons] at hring
  simp only [findFreePageInBuddy, hgt, if_false, Prog.bind_run, Prog.get_run, Outcome.andThen_ok,
    hempty, Bool.false_eq_true, hring.next_cons, Prog.pure_run]

/-- The index 0 that comes back from a higher order is taken for a failure. -/
theorem findFreePageInBuddy_zero (h : Buddy s L) : ∀ fuel k, j < k + fuel → k < j → L.First z k j 0 →
    findFreePageInBuddy z fuel k s = .ok (-1) s
  | 0, k, hf, hk, _ => by omega
  | fuel + 1, k, hf, hk, hfirst => by
    have hj := h.first_le hfirst
    have hgt : ¬k > allocbuddyMaxorder := by omega
    have hempty := (h.listEmpty_iff (z := z) (k := k) (by omega)).mpr (hfirst.empty k (le_refl k) hk)
    have hnext : ∃ i : ℤ, ¬i > 0 ∧ findFreePageInBuddy z fuel (k + 1) s = .ok i s := by
      by_cases e : k + 1 = j
      · obtain ⟨d, rfl⟩ : ∃ d, fuel = d + 1 := ⟨fuel - 1, by omega⟩
        refine ⟨((0 : ℕ) : ℤ), by decide, ?_⟩
        exact findFreePageInBuddy_head h (e ▸ hfirst.succ hk) d
      · exact ⟨-1, by decide, findFreePageInBuddy_zero h fuel (k + 1) (by omega) (by omega) (hfirst.succ hk)⟩
    obtain ⟨i, hi, hrun⟩ := hnext
    simp only [findFreePageInBuddy, hgt, if_false, Prog.bind_run, Prog.get_run, Outcome.andThen_ok,
      hempty, if_true, hrun, hi, Prog.pure_run]

/-- What the search leaves behind: `⟨q, k⟩` is listed, and without it the zone is coalesced. -/
structure Found (s : Phys) (L : Lists) (z : Zone) (k q : ℕ) (s' : Phys) (L' : Lists) : Prop where
  buddy : Buddy s' L'
  listed : q ∈ L' z k
  rest : Coalesced allocbuddyMaxorder (L'.free z \ {⟨q, k⟩})
  elsewhere : ∀ z', z' ≠ z → L' z' = L z'
  covers : covered (L'.free z) = covered (L.free z)
  same : SameBut (covered (L.free z)) ∅ s s'

/-- Splitting a listed block of the next order. -/
theorem Found.split {s₁ : Phys} {L₁ : Lists} (h : Found s L z (k + 1) q s₁ L₁) :
    ∃ L', Found s L z k q (((((s₁.listDelPage q).setOrder q k).listAddPage q z k).setOrder
      (q + 2 ^ k) k).listAddPage (q + 2 ^ k) z k) L' := by
  have hb := h.buddy
  have hq := h.listed
  have hmem : (⟨q, k + 1⟩ : Block) ∈ L₁.free z := hq
  have hle : k + 1 ≤ allocbuddyMaxorder := (hb.tiled z).order_le _ hmem
  have hal : 2 ^ (k + 1) ∣ q := (hb.tiled z).aligned _ hmem
  have hsub : ∀ f, f ∈ (⟨q, k⟩ : Block).frames ∨ f ∈ (⟨q + 2 ^ k, k⟩ : Block).frames →
      f ∈ (⟨q, k + 1⟩ : Block).frames := fun f hf => Block.parent_frames_left.mpr hf
  have hpow := Nat.two_pow_pos k
  have hfree : (L₁.erase q).free z = L₁.free z \ {⟨q, k + 1⟩} := hb.free_erase_of_mem hq
  have hgone : ∀ f ∈ (⟨q, k + 1⟩ : Block).frames, f ∉ covered (L₁.free z \ {⟨q, k + 1⟩}) := by
    intro f hf hc
    obtain ⟨c, hc, hfc⟩ := hc
    exact hc.2 ((hb.tiled z).disjoint c hc.1 _ hmem f hfc hf)
  have hqA : q ∈ covered (L₁.free z) := ⟨_, hmem, Block.head_mem ⟨q, k + 1⟩⟩
  have huA : q + 2 ^ k ∈ covered (L₁.free z) :=
    ⟨_, hmem, hsub _ (Or.inr (Block.head_mem ⟨q + 2 ^ k, k⟩))⟩
  -- unlink the block, give it the smaller order and list its lower half
  have h2 := hb.listDelPage (hb.frame_le z _ hmem q (Block.head_mem ⟨q, k + 1⟩))
  have hq2 : ∀ z' k', q ∉ L₁.erase q z' k' := fun z' k' => (hb.nodup z' k').not_mem_erase
  have h3 := h2.setOrder hq2 k
  have hs3 : SameBut (covered (L₁.free z)) ∅ s₁ ((s₁.listDelPage q).setOrder q k) :=
    (SameBut.links s₁ _).trans (SameBut.setOrder _ _ hqA)
  have hin3 : InHand ((s₁.listDelPage q).setOrder q k) (L₁.erase q) z q k := by
    refine ⟨by omega, Block.dvd_of_succ hal, setOrder_order _ _ _, ?_, ?_, ?_, ?_⟩
    · intro f hf
      rw [hs3.pfnMax]
      exact hb.frame_le z _ hmem f (hsub f (Or.inl hf))
    · intro f hf
      rw [hs3.zone]
      exact hb.frame_zone z _ hmem f (hsub f (Or.inl hf))
    · intro f hf
      rw [hs3.use f (Set.notMem_empty f)]
      exact hb.frame_use z _ hmem f (hsub f (Or.inl hf))
    · intro f hf
      rw [hfree]
      exact hgone f (hsub f (Or.inl hf))
  have h4 := h3.listAddPage hin3
  have hs4 : SameBut (covered (L₁.free z)) ∅ s₁ (((s₁.listDelPage q).setOrder q k).listAddPage q z k) :=
    hs3.trans (SameBut.links _ _)
  have hfree4 : ((L₁.erase q).set z k (q :: L₁.erase q z k)).free z =
      insert ⟨q, k⟩ (L₁.free z \ {⟨q, k + 1⟩}) := by
    rw [Lists.free_push, hfree]
  have hupper : ∀ f ∈ (⟨q + 2 ^ k, k⟩ : Block).frames,
      f ∉ covered (insert ⟨q, k⟩ (L₁.free z \ {⟨q, k + 1⟩})) := by
    intro f hf hc
    obtain ⟨c, hc, hfc⟩ := hc
    rcases hc with e | hc
    · subst e
      rw [Block.mem_frames] at hf hfc
      simp only at hf hfc
      omega
    · exact hgone f (hsub f (Or.inr hf)) ⟨c, hc, hfc⟩
  -- then its upper half
  have hu4 : ∀ z' k', q + 2 ^ k ∉ (L₁.erase q).set z k (q :: L₁.erase q z k) z' k' := by
    refine h4.not_listed (z := z) ?_ ?_
    · rw [hs4.zone]
      exact hb.frame_zone z _ hmem _ (hsub _ (Or.inr (Block.head_mem ⟨q + 2 ^ k, k⟩)))
    · rw [hfree4]
      exact hupper _ (Block.head_mem ⟨q + 2 ^ k, k⟩)
  have h5 := h4.setOrder hu4 k
  have hs5 := hs4.trans (SameBut.setOrder _ (k : ℤ) huA)
  have hin5 : InHand ((((s₁.listDelPage q).setOrder q k).listAddPage q z k).setOrder (q + 2 ^ k) k)
      ((L₁.erase q).set z k (q :: L₁.erase q z k)) z (q + 2 ^ k) k := by
    refine ⟨by omega, dvd_add (Block.dvd_of_succ hal) (dvd_refl _), setOrder_order _ _ _, ?_, ?_, ?_, ?_⟩
    · intro f hf
      rw [hs5.pfnMax]
      exact hb.frame_le z _ hmem f (hsub f (Or.inr hf))
    · intro f hf
      rw [hs5.zone]
      exact hb.frame_zone z _ hmem f (hsub f (Or.inr hf))
    · intro f hf
      rw [hs5.use f (Set.notMem_empty f)]
      exact hb.frame_use z _ hmem f (hsub f (Or.inr hf))
    · intro f hf
      rw [hfree4]
      exact hupper f hf
  have h6 := h5.listAddPage hin5
  refine ⟨_, h6, ?_, ?_, ?_, ?_, ?_⟩
  · rw [Lists.set_self, Lists.set_self]
    simp
  · rw [Lists.free_push, hfree4]
    have hbud : (⟨q + 2 ^ k, k⟩ : Block).buddy = ⟨q, k⟩ := by
      refine Block.eq_of_fields ?_ rfl
      show Block.buddyHead (q + 2 ^ k) k = q
      rw [Block.buddyHead_right (Block.upper_rest hal)]
      omega
    have hins := h.rest.insert (b := ⟨q + 2 ^ k, k⟩) (by simp only; omega) hin5.aligned
      (fun f hf => hgone f (hsub f (Or.inr hf))) (by
        intro _ hm
        rw [hbud] at hm
        exact hgone q (Block.head_mem ⟨q, k + 1⟩) ⟨_, hm, Block.head_mem ⟨q, k⟩⟩)
    refine hins.mono fun c hc => ?_
    rcases hc with ⟨hc | hc | hc, hne⟩
    · exact Or.inl hc
    · exact absurd hc hne
    · exact Or.inr hc
  · intro z' hz
    rw [Lists.set_zone _ _ _ hz, Lists.set_zone _ _ _ hz, hb.free_erase_zone hq hz, h.elsewhere z' hz]
  · rw [Lists.free_push, hfree4, ← h.covers]
    ext f
    constructor
    · intro hf
      obtain ⟨c, hc, hfc⟩ := hf
      rcases hc with e | e | hc
      · exact ⟨_, hmem, hsub f (Or.inr (e ▸ hfc))⟩
      · exact ⟨_, hmem, hsub f (Or.inl (e ▸ hfc))⟩
      · exact ⟨c, hc.1, hfc⟩
    · intro hf
      obtain ⟨c, hc, hfc⟩ := hf
      by_cases e : c = ⟨q, k + 1⟩
      · subst e
        rcases Block.parent_frames_left.mp hfc with hf | hf
        · exact ⟨_, Or.inr (Or.inl rfl), hf⟩
        · exact ⟨_, Or.inl rfl, hf⟩
      · exact ⟨c, Or.inr (Or.inr ⟨hc, e⟩), hfc⟩
  · rw [h.covers] at hs5
    exact h.same.trans (hs5.trans (SameBut.links _ _))

/-- The search succeeds when the block it meets need not be split, or does not start at frame 0. -/
theorem findFreePageInBuddy_spec (h : Buddy s L) (hc : AllCoalesced L) : ∀ fuel k, j < k + fuel →
    L.First z k j q → k = j ∨ 0 < q →
    ∃ s' L', findFreePageInBuddy z fuel k s = .ok (q : ℤ) s' ∧ Found s L z k q s' L'
  | 0, k, hf, hfirst, _ => by
    have := hfirst.le
    omega
  | fuel + 1, k, hf, hfirst, hor => by
    by_cases hkj : k = j
    · subst hkj
      refine ⟨s, L, findFreePageInBuddy_head h hfirst fuel, h, hfirst.mem, ?_, fun _ _ => rfl, rfl,
        SameBut.refl s⟩
      exact (hc z).mono Set.sdiff_subset
    · have hlt : k < j := lt_of_le_of_ne hfirst.le hkj
      have hq : 0 < q := by
        rcases hor with e | hq
        · exact absurd e hkj
        · exact hq
      have hj := h.first_le hfirst
      have hgt : ¬k > allocbuddyMaxorder := by omega
      have hempty := (h.listEmpty_iff (z := z) (k := k) (by omega)).mpr (hfirst.empty k (le_refl k) hlt)
      obtain ⟨s₁, L₁, hrun, hfound⟩ := findFreePageInBuddy_spec h hc fuel (k + 1) (by omega)
        (hfirst.succ hlt) (Or.inr hq)
      obtain ⟨L', hsplit⟩ := hfound.split
      refine ⟨_, L', ?_, hsplit⟩
      have hpos : (q : ℤ) > 0 := by omega
      simp only [findFreePageInBuddy, hgt, if_false, Prog.bind_run, Prog.get_run, Outcome.andThen_ok,
        hempty, if_true, hrun, hpos, Prog.modify_run, Prog.pure_run, Int.toNat_natCast]

end Find

/-! ## `_alloc_pages_byorder` and `page_free_page_pfn` -/

/-- What handing out `⟨q, k⟩` from zone `z` does. -/
structure Taken (s : Phys) (L : Lists) (z : Zone) (k q : ℕ) (s' : Phys) (L' : Lists) : Prop where
  buddy : Buddy s' L'
  coalesced : AllCoalesced L'
  elsewhere : ∀ z', z' ≠ z → L' z' = L z'
  inside : (⟨q, k⟩ : Block).frames ⊆ covered (L.free z)
  covers : covered (L'.free z) = covered (L.free z) \ (⟨q, k⟩ : Block).frames
  order_le : k ≤ allocbuddyMaxorder
  aligned : 2 ^ k ∣ q
  order : (s'.pageframemap q).order = k
  used : (s'.pageframemap q).usecount = 1
  same : SameBut (covered (L.free z)) {q} s s'

section Alloc
variable {s : Phys} {L : Lists} {flags k j q : ℕ}

theorem Found.taken {z : Zone} {s₁ : Phys} {L₁ : Lists} (hc : AllCoalesced L) (h : Found s L z k q s₁ L₁)
    (n : ℕ) (hn : n = 1) : Taken s L z k q ((s₁.listDelPage q).setUsecount q n) (L₁.erase q) := by
  have hmem : (⟨q, k⟩ : Block) ∈ L₁.free z := h.listed
  have hhead := Block.head_mem ⟨q, k⟩
  have hfree := h.buddy.free_erase_of_mem h.listed
  have hz : ∀ z', z' ≠ z → L₁.erase q z' = L z' := fun z' hz => by
    rw [h.buddy.free_erase_zone h.listed hz, h.elsewhere z' hz]
  have h2 := h.buddy.listDelPage (h.buddy.frame_le z _ hmem q hhead)
  have hnot : ∀ z', q ∉ covered ((L₁.erase q).free z') := by
    intro z' hc
    obtain ⟨c, hc, hqc⟩ := hc
    have hcz := h2.frame_zone z' c hc q hqc
    have hqz := h.buddy.frame_zone z _ hmem q hhead
    have e : z' = z := Option.some.inj (hcz.symm.trans hqz)
    subst e
    rw [hfree] at hc
    exact hc.2 ((h.buddy.tiled z').disjoint c hc.1 _ hmem q hqc hhead)
  refine ⟨h2.setUsecount hnot n, ?_, hz, ?_, ?_, ?_, ?_, ?_, ?_, ?_⟩
  · intro z'
    by_cases e : z' = z
    · rw [e, hfree]
      exact h.rest
    · rw [Lists.free_congr (hz z' e)]
      exact hc z'
  · intro f hf
    rw [← h.covers]
    exact ⟨_, hmem, hf⟩
  · rw [hfree, ← h.covers]
    ext f
    constructor
    · intro hf
      obtain ⟨c, hc, hfc⟩ := hf
      exact ⟨⟨c, hc.1, hfc⟩, fun hfq => hc.2 ((h.buddy.tiled z).disjoint c hc.1 _ hmem f hfc hfq)⟩
    · intro hf
      obtain ⟨⟨c, hc, hfc⟩, hfq⟩ := hf
      refine ⟨c, ⟨hc, fun e => hfq ?_⟩, hfc⟩
      rw [Set.mem_singleton_iff.mp e] at hfc
      exact hfc
  · exact (h.buddy.tiled z).order_le _ hmem
  · exact (h.buddy.tiled z).aligned _ hmem
  · show (Function.update s₁.pageframemap q _ q).order = k
    rw [Function.update_self]
    exact h.buddy.order z k q h.listed
  · rw [setUsecount_usecount, hn]
  · refine (h.same.mono subset_rfl (Set.empty_subset _)).trans ?_
    exact (SameBut.links s₁ _).trans (SameBut.setUsecount _ _ (Set.mem_singleton q))

theorem allocPagesByorder_spec (h : Buddy s L) (hc : AllCoalesced L)
    (hf : L.First (zoneOfFlags flags) k j q) (hor : k = j ∨ 0 < q) :
    ∃ s' L', allocPagesByorder flags k s = .ok q s' ∧ Taken s L (zoneOfFlags flags) k q s' L' := by
  have hj := h.first_le hf
  obtain ⟨s₁, L₁, hrun, hfound⟩ := findFreePageInBuddy_spec h hc (allocbuddyMaxorder + 2) k (by omega) hf hor
  have huse : (s₁.pageframemap q).usecount = 0 :=
    hfound.buddy.frame_use _ ⟨q, k⟩ hfound.listed q (Block.head_mem ⟨q, k⟩)
  refine ⟨_, _, ?_, hfound.taken hc (((s₁.pageframemap q).usecount + 1) % 2 ^ 32) (by rw [huse]; norm_num)⟩
  have hne : ¬(q : ℤ) = -1 := by omega
  simp only [allocPagesByorder, Prog.bind_run, hrun, Outcome.andThen_ok, hne, if_false, Prog.modify_run,
    Prog.pure_run, Int.toNat_natCast, -Nat.reducePow]
  rfl

/-- No block, or one that starts at frame 0 and would have to be split: the allocation panics. -/
theorem allocPagesByorder_fails (h : Buddy s L) (hk : k ≤ allocbuddyMaxorder)
    (hno : ∀ j q, L.First (zoneOfFlags flags) k j q → k ≠ j ∧ q = 0) :
    ∃ m, allocPagesByorder flags k s = .panic m s := by
  rcases Lists.exhausted_or_first L (zoneOfFlags flags) (h.bound _) (allocbuddyMaxorder + 1) k (by omega)
    with he | ⟨j, q, hf⟩
  · have hx := findFreePageInBuddy_exhausted h (allocbuddyMaxorder + 2) k (by omega) (by omega) he
    refine ⟨"order > MAXORDER\n", ?_⟩
    simp only [allocPagesByorder, Prog.bind_run, hx, Outcome.andThen_panic]
  · have hj := h.first_le hf
    obtain ⟨hkj, rfl⟩ := hno j q hf
    have hle := hf.le
    have hx := findFreePageInBuddy_zero h (allocbuddyMaxorder + 2) k (by omega) (by omega) hf
    refine ⟨"Out of memory \n", ?_⟩
    simp only [allocPagesByorder, Prog.bind_run, hx, Outcome.andThen_ok, if_true, Prog.panic_run]

/-- An allocation that returns has met a block the search can use, and has taken it. -/
theorem allocPagesByorder_inv (h : Buddy s L) (hc : AllCoalesced L) (hk : k ≤ allocbuddyMaxorder) {s' : Phys}
    (hrun : allocPagesByorder flags k s = .ok q s') :
    ∃ L' j, L.First (zoneOfFlags flags) k j q ∧ (k = j ∨ 0 < q) ∧
      Taken s L (zoneOfFlags flags) k q s' L' := by
  by_cases hno : ∀ j q, L.First (zoneOfFlags flags) k j q → k ≠ j ∧ q = 0
  · obtain ⟨m, hm⟩ := allocPagesByorder_fails h hk hno
    rw [hm] at hrun
    cases hrun
  · push Not at hno
    obtain ⟨j, p, hf, hp⟩ := hno
    have hor : k = j ∨ 0 < p := by
      by_cases hkj : k = j
      · exact Or.inl hkj
      · exact Or.inr (Nat.pos_of_ne_zero (hp hkj))
    obtain ⟨t, L', hrun', ht⟩ := allocPagesByorder_spec h hc hf hor
    rw [hrun'] at hrun
    cases hrun
    exact ⟨L', j, hf, hor, ht⟩

end Alloc

section Free
variable {s : Phys} {L : Lists} {z : Zone} {p k : ℕ}

theorem pageFreePagePfn_one (hone : (s.pageframemap p).usecount = 1) (hord : (s.pageframemap p).order = k) :
    pageFreePagePfn p s = addToBuddyFreeList (allocbuddyMaxorder + 2) p k (s.setUsecount p 0) := by
  have hdec : ((s.pageframemap p).usecount + 2 ^ 32 - 1) % 2 ^ 32 = 0 := by
    rw [hone]
    norm_num
  have hneg : ¬(k : ℤ) < 0 := by omega
  unfold pageFreePagePfn
  rw [Prog.bind_run, Prog.get_run, Outcome.andThen_ok]
  simp only [hdec]
  rw [Prog.bind_run, Prog.modify_run, Outcome.andThen_ok]
  simp only [hord, if_true, hneg, if_false, Int.toNat_natCast]

/-- Freeing a page that is used once releases its block. -/
theorem pageFreePagePfn_spec (h : Buddy s L) (hc : AllCoalesced L) (hone : (s.pageframemap p).usecount = 1)
    (hb : InHand (s.setUsecount p 0) L z p k) :
    ∃ s' L', pageFreePagePfn p s = .ok () s' ∧ Released (s.setUsecount p 0) L z p k s' L' := by
  have hhead := Block.head_mem ⟨p, k⟩
  have hset : ∀ f, ((s.setUsecount p 0).pageframemap f).zone = (s.pageframemap f).zone :=
    (SameBut.setUsecount s 0 (Set.mem_singleton p) : SameBut ∅ {p} s _).zone
  have hpz : (s.pageframemap p).zone = some z := (hset p).symm.trans (hb.frame_zone p hhead)
  have hnot : ∀ z', p ∉ covered (L.free z') := by
    intro z' hc'
    obtain ⟨c, hc', hpc⟩ := hc'
    have hcz := h.frame_zone z' c hc' p hpc
    have e : z' = z := Option.some.inj (hcz.symm.trans hpz)
    subst e
    exact hb.apart p hhead ⟨c, hc', hpc⟩
  have hord : (s.pageframemap p).order = k :=
    ((SameBut.setUsecount s 0 (Set.mem_singleton p) : SameBut ∅ {p} s _).order p
      (Set.notMem_empty p)).symm.trans hb.order
  obtain ⟨s', L', hrun, hrel⟩ := addToBuddyFreeList_spec (allocbuddyMaxorder + 2) _ L z p k (by omega)
    (h.setUsecount hnot 0) hc hb
  exact ⟨s', L', (pageFreePagePfn_one hone hord).trans hrun, hrel⟩

/-- Freeing a page that is not used exactly once panics before any list is touched. -/
theorem pageFreePagePfn_panics (hne : (s.pageframemap p).usecount ≠ 1)
    (hlt : (s.pageframemap p).usecount < 2 ^ 32) :
    ∃ m t, pageFreePagePfn p s = .panic m t ∧ t.links = s.links := by
  have hdec : ¬((s.pageframemap p).usecount + 2 ^ 32 - 1) % 2 ^ 32 = 0 := by omega
  refine ⟨freeUsedMessage, s.setUsecount p (((s.pageframemap p).usecount + 2 ^ 32 - 1) % 2 ^ 32), ?_, rfl⟩
  unfold pageFreePagePfn
  rw [Prog.bind_run, Prog.get_run, Outcome.andThen_ok, Prog.bind_run, Prog.modify_run, Outcome.andThen_ok,
    if_neg hdec, Prog.panic_run]

end Free

end Borgos.Mem
