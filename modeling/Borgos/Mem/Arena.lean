import Borgos.Mem.BootSpec

/-! # The allocator in use

An `Arena` is the allocator's state together with the blocks that are out: each as its head and the
order its descriptor held when it was handed out. A step is one call of `page_alloc_page`,
`page_alloc_pages`, `page_alloc_pages_virt`, or of `page_free_page_pfn` on the head of a block that is
out. `Arena.Inv` holds after `phys_init` and survives every step.
-/
namespace Borgos.Mem
open Borgos.Foundations Borgos.Kcore Borgos.Foundations.Intrusive
set_option autoImplicit false

structure Arena where
  phys : Phys
  held : List Block

/-- The block a descriptor stands for. -/
def Phys.blockAt (s : Phys) (pfn : ℕ) : Block := ⟨pfn, (s.pageframemap pfn).order.toNat⟩

/-- The free blocks of a zone, read off its lists. -/
def Phys.freeBlocks (s : Phys) (z : Zone) : Set Block :=
  {b | b.order ≤ allocbuddyMaxorder ∧ b.head ∈ s.freelist z b.order}

inductive ArenaStep (a : Arena) : Arena → Prop
  | allocPage (flags pfn : ℕ) (s' : Phys) (h : pageAllocPage flags a.phys = .ok pfn s') :
    ArenaStep a ⟨s', s'.blockAt pfn :: a.held⟩
  | allocPages (flags order pfn : ℕ) (s' : Phys) (ho : order ≤ allocbuddyMaxorder)
    (h : pageAllocPages flags order a.phys = .ok pfn s') : ArenaStep a ⟨s', s'.blockAt pfn :: a.held⟩
  | allocPagesVirt (flags order va : ℕ) (s' : Phys) (ho : order ≤ allocbuddyMaxorder)
    (h : pageAllocPagesVirt flags order a.phys = .ok va s') :
    ArenaStep a ⟨s', s'.blockAt (phys2pfn (v2p va)) :: a.held⟩
  | freePagePfn (b : Block) (s' : Phys) (hb : b ∈ a.held) (h : pageFreePagePfn b.head a.phys = .ok () s') :
    ArenaStep a ⟨s', a.held.erase b⟩

/-- Any number of calls, none of which panics. -/
abbrev ArenaRun : Arena → Arena → Prop := Relation.ReflTransGen ArenaStep

/-- `s₀` is the state `phys_init` left, `released` the blocks it released. -/
structure Arena.Inv (s₀ : Phys) (released : List Block) (a : Arena) (L : Lists) : Prop where
  buddy : Buddy a.phys L
  coalesced : AllCoalesced L
  cap : a.phys.pfnMax ≤ maxpgdPfn
  same : SameBut Set.univ Set.univ s₀ a.phys
  order : ∀ b ∈ a.held, (a.phys.pageframemap b.head).order = b.order
  order_le : ∀ b ∈ a.held, b.order ≤ allocbuddyMaxorder
  aligned : ∀ b ∈ a.held, b.Aligned
  zone : ∀ b ∈ a.held, ∃ z, ∀ f ∈ b.frames, f ≤ a.phys.pfnMax ∧ (a.phys.pageframemap f).zone = some z
  head_use : ∀ b ∈ a.held, (a.phys.pageframemap b.head).usecount = 1
  tail_use : ∀ b ∈ a.held, ∀ f ∈ b.frames, f ≠ b.head → (a.phys.pageframemap f).usecount = 0
  apart : ∀ b ∈ a.held, ∀ f ∈ b.frames, ∀ z, f ∉ covered (L.free z)
  disjoint : a.held.Pairwise fun b c => ∀ f ∈ b.frames, f ∉ c.frames
  covers : ∀ f, ((∃ z, f ∈ covered (L.free z)) ∨ ∃ b ∈ a.held, f ∈ b.frames) ↔
    ∃ b ∈ released, f ∈ b.frames
  use : ∀ f, f ≤ a.phys.pfnMax → (∀ b ∈ a.held, f ≠ b.head) →
    (a.phys.pageframemap f).usecount ≠ 1 ∧ (a.phys.pageframemap f).usecount < 2 ^ 32

namespace Arena.Inv
variable {s₀ : Phys} {released : List Block} {a : Arena} {L : Lists}

/-- A frame lies in blocks of at most one zone. -/
theorem zone_unique (h : a.Inv s₀ released L) {z z' : Zone} {f : ℕ} (hf : f ∈ covered (L.free z))
    (hf' : f ∈ covered (L.free z')) : z = z' := by
  obtain ⟨b, hb, hfb⟩ := hf
  obtain ⟨c, hc, hfc⟩ := hf'
  have h1 := h.buddy.frame_zone z b hb f hfb
  have h2 := h.buddy.frame_zone z' c hc f hfc
  exact Option.some.inj (h1.symm.trans h2)

/-- The free frames of a zone: released, in the zone, and not out. -/
theorem mem_covered (h : a.Inv s₀ released L) (z : Zone) (f : ℕ) :
    f ∈ covered (L.free z) ↔ (∃ b ∈ released, f ∈ b.frames) ∧ (∀ b ∈ a.held, f ∉ b.frames) ∧
      (s₀.pageframemap f).zone = some z := by
  constructor
  · intro hf
    refine ⟨(h.covers f).mp (Or.inl ⟨z, hf⟩), fun b hb hfb => h.apart b hb f hfb z hf, ?_⟩
    obtain ⟨b, hb, hfb⟩ := hf
    rw [← h.same.zone]
    exact h.buddy.frame_zone z b hb f hfb
  · intro hf
    obtain ⟨hrel, hout, hz⟩ := hf
    rcases (h.covers f).mpr hrel with ⟨z', hz'⟩ | ⟨b, hb, hfb⟩
    · obtain ⟨b, hb, hfb⟩ := hz'
      have hz'' := h.buddy.frame_zone z' b hb f hfb
      rw [h.same.zone, hz] at hz''
      rw [Option.some.inj hz'']
      exact ⟨b, hb, hfb⟩
    · exact absurd hfb (hout b hb)

/-- Handing out a block. -/
theorem take (h : a.Inv s₀ released L) {z : Zone} {k q : ℕ} {s' : Phys} {L' : Lists}
    (ht : Taken a.phys L z k q s' L') : Arena.Inv s₀ released ⟨s', ⟨q, k⟩ :: a.held⟩ L' := by
  have hin : ∀ f ∈ (⟨q, k⟩ : Block).frames, f ≤ a.phys.pfnMax ∧
      (a.phys.pageframemap f).zone = some z ∧ (a.phys.pageframemap f).usecount = 0 := by
    intro f hf
    obtain ⟨b, hb, hfb⟩ := ht.inside hf
    exact ⟨h.buddy.frame_le z b hb f hfb, h.buddy.frame_zone z b hb f hfb, h.buddy.frame_use z b hb f hfb⟩
  have hsub : ∀ z' f, f ∈ covered (L'.free z') → f ∈ covered (L.free z') ∧ f ∉ (⟨q, k⟩ : Block).frames := by
    intro z' f hf
    by_cases e : z' = z
    · subst e
      rw [ht.covers] at hf
      exact hf
    · rw [Lists.free_congr (ht.elsewhere z' e)] at hf
      exact ⟨hf, fun hfq => e (h.zone_unique hf (ht.inside hfq))⟩
  have hheld : ∀ c ∈ a.held, ∀ f ∈ c.frames, f ∉ (⟨q, k⟩ : Block).frames :=
    fun c hc f hf hfq => h.apart c hc f hf z (ht.inside hfq)
  have hhead := Block.head_mem ⟨q, k⟩
  have hneq : ∀ f, f ∉ (⟨q, k⟩ : Block).frames → (s'.pageframemap f).usecount = (a.phys.pageframemap f).usecount :=
    fun f hf => ht.same.use f fun e => hf (Set.mem_singleton_iff.mp e ▸ hhead)
  refine ⟨ht.buddy, ht.coalesced, ?_, ?_, ?_, ?_, ?_, ?_, ?_, ?_, ?_, ?_, ?_, ?_⟩
  · rw [ht.same.pfnMax]
    exact h.cap
  · exact h.same.trans (ht.same.mono (Set.subset_univ _) (Set.subset_univ _))
  · intro c hc
    rcases List.mem_cons.mp hc with e | hc
    · subst e
      exact ht.order
    · rw [ht.same.order c.head (h.apart c hc c.head c.head_mem z)]
      exact h.order c hc
  · intro c hc
    rcases List.mem_cons.mp hc with e | hc
    · subst e
      exact ht.order_le
    · exact h.order_le c hc
  · intro c hc
    rcases List.mem_cons.mp hc with e | hc
    · subst e
      exact ht.aligned
    · exact h.aligned c hc
  · intro c hc
    rcases List.mem_cons.mp hc with e | hc
    · subst e
      refine ⟨z, fun f hf => ?_⟩
      rw [ht.same.pfnMax, ht.same.zone]
      exact ⟨(hin f hf).1, (hin f hf).2.1⟩
    · obtain ⟨z', hz'⟩ := h.zone c hc
      refine ⟨z', fun f hf => ?_⟩
      rw [ht.same.pfnMax, ht.same.zone]
      exact hz' f hf
  · intro c hc
    rcases List.mem_cons.mp hc with e | hc
    · subst e
      exact ht.used
    · rw [hneq c.head (hheld c hc c.head c.head_mem)]
      exact h.head_use c hc
  · intro c hc f hf hne
    rcases List.mem_cons.mp hc with e | hc
    · subst e
      rw [ht.same.use f hne]
      exact (hin f hf).2.2
    · rw [hneq f (hheld c hc f hf)]
      exact h.tail_use c hc f hf hne
  · intro c hc f hf z' hcov
    rcases List.mem_cons.mp hc with e | hc
    · subst e
      exact (hsub z' f hcov).2 hf
    · exact h.apart c hc f hf z' (hsub z' f hcov).1
  · exact List.pairwise_cons.mpr ⟨fun c hc f hf hfc => hheld c hc f hfc hf, h.disjoint⟩
  · intro f
    rw [← h.covers]
    constructor
    · intro hf
      rcases hf with ⟨z', hf⟩ | ⟨c, hc, hfc⟩
      · exact Or.inl ⟨z', (hsub z' f hf).1⟩
      · rcases List.mem_cons.mp hc with e | hc
        · subst e
          exact Or.inl ⟨z, ht.inside hfc⟩
        · exact Or.inr ⟨c, hc, hfc⟩
    · intro hf
      rcases hf with ⟨z', hf⟩ | ⟨c, hc, hfc⟩
      · by_cases hq : f ∈ (⟨q, k⟩ : Block).frames
        · exact Or.inr ⟨_, List.mem_cons_self, hq⟩
        · refine Or.inl ⟨z', ?_⟩
          by_cases e : z' = z
          · subst e
            rw [ht.covers]
            exact ⟨hf, hq⟩
          · rw [Lists.free_congr (ht.elsewhere z' e)]
            exact hf
      · exact Or.inr ⟨c, List.mem_cons_of_mem _ hc, hfc⟩
  · intro f hf hne
    have hfq : f ≠ q := hne ⟨q, k⟩ List.mem_cons_self
    rw [ht.same.use f hfq]
    exact h.use f (ht.same.pfnMax ▸ hf) fun c hc => hne c (List.mem_cons_of_mem _ hc)

/-- Freeing a block that is out always succeeds. -/
theorem give (h : a.Inv s₀ released L) {b : Block} (hb : b ∈ a.held) :
    ∃ s' L', pageFreePagePfn b.head a.phys = .ok () s' ∧ Arena.Inv s₀ released ⟨s', a.held.erase b⟩ L' := by
  obtain ⟨z, hz⟩ := h.zone b hb
  have hsame0 : SameBut ∅ {b.head} a.phys (a.phys.setUsecount b.head 0) :=
    SameBut.setUsecount a.phys 0 (Set.mem_singleton b.head)
  have hin : InHand (a.phys.setUsecount b.head 0) L z b.head b.order := by
    refine ⟨h.order_le b hb, h.aligned b hb, ?_, fun f hf => (hz f hf).1, ?_, ?_,
      fun f hf => h.apart b hb f hf z⟩
    · rw [setUsecount_order]
      exact h.order b hb
    · intro f hf
      rw [hsame0.zone]
      exact (hz f hf).2
    · intro f hf
      by_cases e : f = b.head
      · rw [e, setUsecount_usecount]
      · rw [hsame0.use f e]
        exact h.tail_use b hb f hf e
  obtain ⟨s', L', hrun, hr⟩ := pageFreePagePfn_spec h.buddy h.coalesced (h.head_use b hb) hin
  -- the other blocks are out of reach of the release
  have hpair := (List.perm_cons_erase hb).pairwise_iff (R := fun b c : Block => ∀ f ∈ b.frames, f ∉ c.frames)
    (fun hd f hf hf' => hd f hf' hf)
  have hdis := List.pairwise_cons.mp (hpair.mp h.disjoint)
  have hother : ∀ c ∈ a.held.erase b, c ∈ a.held ∧ ∀ f ∈ c.frames, f ∉ b.frames :=
    fun c hc => ⟨List.mem_of_mem_erase hc, fun f hf hfb => hdis.1 c hc f hfb hf⟩
  have hcov : ∀ z' f, f ∈ covered (L'.free z') ↔ f ∈ covered (L.free z') ∨ (z' = z ∧ f ∈ b.frames) := by
    intro z' f
    by_cases e : z' = z
    · subst e
      rw [hr.covers, Set.mem_union]
      simp
    · rw [Lists.free_congr (hr.elsewhere z' e)]
      simp [e]
  have huse : ∀ f, f ≠ b.head → (s'.pageframemap f).usecount = (a.phys.pageframemap f).usecount := by
    intro f hf
    rw [hr.same.use f (Set.notMem_empty f), hsame0.use f hf]
  have hmax : s'.pfnMax = a.phys.pfnMax := hr.same.pfnMax
  have hzone : ∀ f, (s'.pageframemap f).zone = (a.phys.pageframemap f).zone :=
    fun f => (hr.same.zone f).trans (hsame0.zone f)
  have hne : ∀ c ∈ a.held.erase b, ∀ f ∈ c.frames, f ≠ b.head :=
    fun c hc f hf e => (hother c hc).2 f hf (e ▸ b.head_mem)
  refine ⟨s', L', hrun, hr.buddy, hr.coalesced, ?_, ?_, ?_, ?_, ?_, ?_, ?_, ?_, ?_, hdis.2, ?_, ?_⟩
  · rw [hmax]
    exact h.cap
  · exact (h.same.trans (hsame0.mono (Set.subset_univ _) (Set.subset_univ _))).trans
      (hr.same.mono (Set.subset_univ _) (Set.subset_univ _))
  · intro c hc
    have hout : c.head ∉ covered (L.free z) ∪ (⟨b.head, b.order⟩ : Block).frames := by
      intro hm
      rcases hm with hm | hm
      · exact h.apart c (hother c hc).1 c.head c.head_mem z hm
      · exact (hother c hc).2 c.head c.head_mem hm
    show (s'.pageframemap c.head).order = c.order
    rw [hr.same.order c.head hout, setUsecount_order]
    exact h.order c (hother c hc).1
  · intro c hc
    exact h.order_le c (hother c hc).1
  · intro c hc
    exact h.aligned c (hother c hc).1
  · intro c hc
    obtain ⟨z', hz'⟩ := h.zone c (hother c hc).1
    refine ⟨z', fun f hf => ?_⟩
    show f ≤ s'.pfnMax ∧ (s'.pageframemap f).zone = some z'
    rw [hmax, hzone]
    exact hz' f hf
  · intro c hc
    show (s'.pageframemap c.head).usecount = 1
    rw [huse c.head (hne c hc c.head c.head_mem)]
    exact h.head_use c (hother c hc).1
  · intro c hc f hf hfc
    show (s'.pageframemap f).usecount = 0
    rw [huse f (hne c hc f hf)]
    exact h.tail_use c (hother c hc).1 f hf hfc
  · intro c hc f hf z' hm
    rcases (hcov z' f).mp hm with hm | ⟨-, hm⟩
    · exact h.apart c (hother c hc).1 f hf z' hm
    · exact (hother c hc).2 f hf hm
  · intro f
    rw [← h.covers]
    constructor
    · intro hf
      rcases hf with ⟨z', hf⟩ | ⟨c, hc, hfc⟩
      · rcases (hcov z' f).mp hf with hf | ⟨-, hf⟩
        · exact Or.inl ⟨z', hf⟩
        · exact Or.inr ⟨b, hb, hf⟩
      · exact Or.inr ⟨c, (hother c hc).1, hfc⟩
    · intro hf
      rcases hf with ⟨z', hf⟩ | ⟨c, hc, hfc⟩
      · exact Or.inl ⟨z', (hcov z' f).mpr (Or.inl hf)⟩
      · by_cases e : c = b
        · exact Or.inl ⟨z, (hcov z f).mpr (Or.inr ⟨rfl, e ▸ hfc⟩)⟩
        · exact Or.inr ⟨c, (List.mem_erase_of_ne e).mpr hc, hfc⟩
  · intro f hf hfree
    show (s'.pageframemap f).usecount ≠ 1 ∧ (s'.pageframemap f).usecount < 2 ^ 32
    by_cases e : f = b.head
    · rw [e, hr.same.use _ (Set.notMem_empty _), setUsecount_usecount]
      norm_num
    · rw [huse f e]
      refine h.use f (hmax ▸ hf) fun c hc => ?_
      by_cases ec : c = b
      · rw [ec]
        exact e
      · exact hfree c ((List.mem_erase_of_ne ec).mpr hc)

end Arena.Inv

/-! ## Runs -/

theorem BootState.inv {released : List Block} {s : Phys} {L : Lists} (h : BootState released s L)
    (hcap : s.pfnMax ≤ maxpgdPfn) : Arena.Inv s released ⟨s, []⟩ L where
  buddy := h.buddy
  coalesced := h.coalesced
  cap := hcap
  same := SameBut.refl s
  order b hb := absurd hb List.not_mem_nil
  order_le b hb := absurd hb List.not_mem_nil
  aligned b hb := absurd hb List.not_mem_nil
  zone b hb := absurd hb List.not_mem_nil
  head_use b hb := absurd hb List.not_mem_nil
  tail_use b hb := absurd hb List.not_mem_nil
  apart b hb := absurd hb List.not_mem_nil
  disjoint := List.Pairwise.nil
  covers f := by
    rw [h.released]
    constructor
    · intro hf
      rcases hf with ⟨z, hf⟩ | ⟨b, hb, -⟩
      · exact ((h.covers z f).mp hf).1
      · exact absurd hb List.not_mem_nil
    · intro hf
      obtain ⟨z, hz⟩ := h.zoned f hf.1
      exact Or.inl ⟨z, (h.covers z f).mpr ⟨hf, hz⟩⟩
  use f hf _ := by
    have hm := h.marks f hf
    unfold bootUsecounts at hm
    simp only [List.mem_cons, List.not_mem_nil, or_false] at hm
    show (s.pageframemap f).usecount ≠ 1 ∧ (s.pageframemap f).usecount < 2 ^ 32
    omega

/-- The state `phys_init` leaves. -/
theorem physInit_inv {b : BootInfo} {s₀ s : Phys} {released : List Block}
    (h : physInit b s₀ = .ok released s) : ∃ L, Arena.Inv s released ⟨s, []⟩ L := by
  obtain ⟨n, m, t, L, hlay, hboot⟩ := physInit_spec b s₀ s released h
  refine ⟨L, hboot.inv ?_⟩
  rw [hlay.same.pfnMax, hlay.pagemap.pfnMax]
  exact Nat.min_le_right _ _

theorem pfn_of_virt {q : ℕ} (hq : q ≤ maxpgdPfn) : phys2pfn (v2p (pfn2virt q)) = q := by
  unfold pfn2virt
  have hlt : pfn2phys q < 2 ^ 64 := Nat.mod_lt _ (by unfold wordSize; norm_num)
  rw [v2p_p2v hlt]
  unfold phys2pfn pfn2phys pagesize wordSize
  unfold maxpgdPfn at hq
  omega

theorem Taken.blockAt {s s' : Phys} {L L' : Lists} {z : Zone} {k q : ℕ} (h : Taken s L z k q s' L') :
    s'.blockAt q = ⟨q, k⟩ := by
  unfold Phys.blockAt
  rw [h.order, Int.toNat_natCast]

/-- An allocation in any reachable state. -/
theorem Arena.Inv.alloc {s₀ : Phys} {released : List Block} {a : Arena} {L : Lists}
    (h : a.Inv s₀ released L) {flags k q : ℕ} {s' : Phys} (hk : k ≤ allocbuddyMaxorder)
    (hrun : allocPagesByorder flags k a.phys = .ok q s') :
    ∃ L', s'.blockAt q = ⟨q, k⟩ ∧ q ≤ maxpgdPfn ∧ Taken a.phys L (zoneOfFlags flags) k q s' L' ∧
      Arena.Inv s₀ released ⟨s', s'.blockAt q :: a.held⟩ L' := by
  obtain ⟨L', j, -, -, ht⟩ := allocPagesByorder_inv h.buddy h.coalesced hk hrun
  refine ⟨L', ht.blockAt, ?_, ht, ?_⟩
  · obtain ⟨b, hb, hqb⟩ := ht.inside (Block.head_mem ⟨q, k⟩)
    exact (h.buddy.frame_le _ b hb q hqb).trans h.cap
  · rw [ht.blockAt]
    exact h.take ht

theorem ArenaStep.inv {s₀ : Phys} {released : List Block} {a a' : Arena} {L : Lists}
    (h : a.Inv s₀ released L) (hstep : ArenaStep a a') : ∃ L', a'.Inv s₀ released L' := by
  cases hstep with
  | allocPage flags pfn s' hrun =>
    obtain ⟨L', -, -, -, hi⟩ := h.alloc (Nat.zero_le _) hrun
    exact ⟨L', hi⟩
  | allocPages flags order pfn s' ho hrun =>
    obtain ⟨L', -, -, -, hi⟩ := h.alloc ho hrun
    exact ⟨L', hi⟩
  | allocPagesVirt flags order va s' ho hrun =>
    obtain ⟨q, t, hq, hva⟩ := Prog.bind_ok.mp hrun
    obtain ⟨e1, e2⟩ := Outcome.ok.inj hva
    subst e1 e2
    obtain ⟨L', -, hle, -, hi⟩ := h.alloc ho hq
    rw [pfn_of_virt hle]
    exact ⟨L', hi⟩
  | freePagePfn b s' hb hrun =>
    obtain ⟨t, L', hrun', hi⟩ := h.give hb
    rw [hrun'] at hrun
    cases hrun
    exact ⟨L', hi⟩

theorem ArenaRun.inv {s₀ : Phys} {released : List Block} {a a' : Arena} {L : Lists}
    (h : a.Inv s₀ released L) (hrun : ArenaRun a a') : ∃ L', a'.Inv s₀ released L' := by
  induction hrun with
  | refl => exact ⟨L, h⟩
  | tail _ hstep ih =>
    obtain ⟨L', h'⟩ := ih
    exact hstep.inv h'

/-- Every state reached after `phys_init`. -/
theorem arena_inv {b : BootInfo} {s₀ s : Phys} {released : List Block} {a : Arena}
    (h : physInit b s₀ = .ok released s) (hrun : ArenaRun ⟨s, []⟩ a) : ∃ L, a.Inv s released L := by
  obtain ⟨L, hL⟩ := physInit_inv h
  exact ArenaRun.inv hL hrun

/-- The blocks read off the lists are the represented ones. -/
theorem Buddy.freeBlocks_eq {s : Phys} {L : Lists} (h : Buddy s L) (z : Zone) : s.freeBlocks z = L.free z := by
  ext b
  constructor
  · intro hb
    have hm := hb.2
    rwa [h.freelist_eq hb.1] at hm
  · intro hb
    have hle := (h.tiled z).order_le b hb
    refine ⟨hle, ?_⟩
    rw [h.freelist_eq hle]
    exact hb

/-! ## The partition of the released frames -/

structure Partition (released : List Block) (a : Arena) : Prop where
  ring : ∀ z k, k ≤ allocbuddyMaxorder →
    IsRing a.phys.links (.freelist z k) ((a.phys.freelist z k).map Node.page)
  once : ∀ z k, k ≤ allocbuddyMaxorder → (a.phys.freelist z k).Nodup
  block : ∀ z k, k ≤ allocbuddyMaxorder → ∀ p ∈ a.phys.freelist z k,
    (a.phys.pageframemap p).order = k ∧ 2 ^ k ∣ p ∧
      ∀ f ∈ (⟨p, k⟩ : Block).frames, (a.phys.pageframemap f).zone = some z
  one_list : ∀ z k z' k' p, k ≤ allocbuddyMaxorder → k' ≤ allocbuddyMaxorder →
    p ∈ a.phys.freelist z k → p ∈ a.phys.freelist z' k' → z = z' ∧ k = k'
  free_disjoint : ∀ z z', ∀ b ∈ a.phys.freeBlocks z, ∀ c ∈ a.phys.freeBlocks z',
    ¬Disjoint b.frames c.frames → z = z' ∧ b = c
  held_disjoint : a.held.Pairwise fun b c => Disjoint b.frames c.frames
  apart : ∀ z, ∀ b ∈ a.phys.freeBlocks z, ∀ c ∈ a.held, Disjoint b.frames c.frames
  exact : (⋃ z, covered (a.phys.freeBlocks z)) ∪ covered {b | b ∈ a.held} = covered {b | b ∈ released}
  guarded : ∀ p, p ≤ a.phys.pfnMax → (∀ b ∈ a.held, p ≠ b.head) →
    ∃ m t, pageFreePagePfn p a.phys = .panic m t ∧ t.links = a.phys.links

theorem Arena.Inv.partition {s₀ : Phys} {released : List Block} {a : Arena} {L : Lists}
    (h : a.Inv s₀ released L) : Partition released a where
  ring z k hk := by
    rw [h.buddy.freelist_eq hk]
    exact h.buddy.rings.ring z hk
  once z k hk := by
    rw [h.buddy.freelist_eq hk]
    exact h.buddy.nodup z k
  block z k hk p hp := by
    rw [h.buddy.freelist_eq hk] at hp
    exact ⟨h.buddy.order z k p hp, (h.buddy.tiled z).aligned ⟨p, k⟩ hp, h.buddy.frame_zone z ⟨p, k⟩ hp⟩
  one_list z k z' k' p hk hk' hp hp' := by
    rw [h.buddy.freelist_eq hk] at hp
    rw [h.buddy.freelist_eq hk'] at hp'
    have hz : z = z' := h.zone_unique ⟨⟨p, k⟩, hp, Block.head_mem ⟨p, k⟩⟩ ⟨⟨p, k'⟩, hp', Block.head_mem ⟨p, k'⟩⟩
    subst hz
    have e := (h.buddy.tiled z).disjoint ⟨p, k⟩ hp ⟨p, k'⟩ hp' p (Block.head_mem ⟨p, k⟩) (Block.head_mem ⟨p, k'⟩)
    exact ⟨rfl, (Block.mk.inj e).2⟩
  free_disjoint z z' b hb c hc hne := by
    rw [h.buddy.freeBlocks_eq] at hb hc
    obtain ⟨f, hfb, hfc⟩ := Set.not_disjoint_iff.mp hne
    have hz : z = z' := h.zone_unique ⟨b, hb, hfb⟩ ⟨c, hc, hfc⟩
    subst hz
    exact ⟨rfl, (h.buddy.tiled z).disjoint b hb c hc f hfb hfc⟩
  held_disjoint := h.disjoint.imp fun hd => Set.disjoint_left.mpr fun f hf => hd f hf
  apart z b hb c hc := by
    rw [h.buddy.freeBlocks_eq] at hb
    exact Set.disjoint_left.mpr fun f hfb hfc => h.apart c hc f hfc z ⟨b, hb, hfb⟩
  exact := by
    ext f
    rw [Set.mem_union, Set.mem_iUnion]
    refine Iff.trans (or_congr (exists_congr fun z => ?_) Iff.rfl) (h.covers f)
    rw [h.buddy.freeBlocks_eq]
  guarded p hp hne := by
    obtain ⟨h1, h2⟩ := h.use p hp hne
    exact pageFreePagePfn_panics h1 h2

/-- A zone without frame 0 serves a request for one page as long as it has a free frame. -/
theorem Arena.Inv.alloc_page {s₀ : Phys} {released : List Block} {a : Arena} {L : Lists}
    (h : a.Inv s₀ released L) {flags f : ℕ} (hf : f ∈ covered (L.free (zoneOfFlags flags)))
    (h0 : (s₀.pageframemap 0).zone ≠ some (zoneOfFlags flags)) :
    ∃ q s', allocPagesByorder flags 0 a.phys = .ok q s' := by
  rcases Lists.exhausted_or_first L (zoneOfFlags flags) (h.buddy.bound _) (allocbuddyMaxorder + 1) 0
    (by omega) with he | ⟨j, q, hfirst⟩
  · obtain ⟨b, hb, -⟩ := hf
    have hm : b.head ∈ L (zoneOfFlags flags) b.order := hb
    rw [he b.order (Nat.zero_le _)] at hm
    exact absurd hm List.not_mem_nil
  · have hq : 0 < q := by
      refine Nat.pos_of_ne_zero fun e => h0 ?_
      have hz := h.buddy.frame_zone _ ⟨q, j⟩ hfirst.mem q (Block.head_mem ⟨q, j⟩)
      rwa [h.same.zone, e] at hz
    obtain ⟨s', L', hrun, -⟩ := allocPagesByorder_spec h.buddy h.coalesced hfirst (Or.inr hq)
    exact ⟨q, s', hrun⟩

theorem twoBanks_alloc {released : List Block} {s : Phys} (h : physInit twoBanks powerOn = .ok released s) :
    ∃ q s', allocPagesByorder 0 0 s = .ok q s' := by
  obtain ⟨L, hboot, hmax, hframes⟩ := twoBanks_covers h
  have hinv : Arena.Inv s released ⟨s, []⟩ L := hboot.inv (by rw [hmax]; decide)
  have hf : 512 ∈ covered (L.free (zoneOfFlags 0)) := by
    refine (hboot.covers _ 512).mpr ⟨⟨by rw [hmax]; decide, ?_⟩, ?_⟩
    · exact (hframes 512 (by decide)).1.mpr (by decide)
    · exact (hframes 512 (by decide)).2
  refine hinv.alloc_page hf ?_
  rw [(hframes 0 (by decide)).2]
  decide

/-- **In every state reached from `phys_init` the free blocks and the blocks that are out partition the
frames released at boot**, the lists are well formed, and freeing anything but the head of a block that
is out panics with the lists untouched. -/
theorem buddy_partition (b : BootInfo) (s₀ s : Phys) (released : List Block) (a : Arena)
    (h : physInit b s₀ = .ok released s) (hrun : ArenaRun ⟨s, []⟩ a) : Partition released a := by
  obtain ⟨L, hL⟩ := arena_inv h hrun
  exact hL.partition

/-- The two banks after one page has been taken. -/
theorem buddy_partition_twoBanks : ∃ released s q s', physInit twoBanks powerOn = .ok released s ∧
    pageAllocPage 0 s = .ok q s' ∧ Partition released ⟨s', [s'.blockAt q]⟩ := by
  obtain ⟨released, s, h⟩ := twoBanks_returns
  obtain ⟨q, s', hrun⟩ := twoBanks_alloc h
  exact ⟨released, s, q, s', h, hrun, buddy_partition twoBanks powerOn s released _ h
    (Relation.ReflTransGen.single (ArenaStep.allocPage 0 q s' hrun))⟩

end Borgos.Mem
