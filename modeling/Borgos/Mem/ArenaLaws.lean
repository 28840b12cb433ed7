import Borgos.Mem.Arena

/-! # Completeness and reversibility of the allocator

When an allocation succeeds, in terms of the free lists; and, because the free blocks of every
reachable state are the coalesced cover of its free frames, that the free blocks depend only on which
blocks are out.
-/
namespace Borgos.Mem
open Borgos.Foundations Borgos.Kcore Borgos.Foundations.Intrusive
set_option autoImplicit false

/-! ## When an allocation succeeds -/

/-- The request would be met by splitting a block that starts at frame 0. -/
def SplitsFrameZero (s : Phys) (z : Zone) (k : ℕ) : Prop :=
  ∃ j, k < j ∧ j ≤ allocbuddyMaxorder ∧ (∀ i, k ≤ i → i < j → s.freelist z i = []) ∧
    (s.freelist z j).head? = some 0

/-- What a request for a block of order `k` of the zone asks for. -/
def Serves (flags k : ℕ) (s : Phys) : Prop :=
  ∃ pfn s', allocPagesByorder flags k s = .ok pfn s' ∧ (s'.pageframemap pfn).order = k ∧
    ∃ c ∈ s.freeBlocks (zoneOfFlags flags), (⟨pfn, k⟩ : Block).frames ⊆ c.frames

theorem Buddy.first_freelist {s : Phys} {L : Lists} (h : Buddy s L) {z : Zone} {k j q : ℕ} :
    L.First z k j q ↔ k ≤ j ∧ j ≤ allocbuddyMaxorder ∧ (∀ i, k ≤ i → i < j → s.freelist z i = []) ∧
      (s.freelist z j).head? = some q := by
  constructor
  · intro hf
    have hj := h.first_le hf
    refine ⟨hf.le, hj, fun i hi hlt => ?_, ?_⟩
    · rw [h.freelist_eq (by omega)]
      exact hf.empty i hi hlt
    · rw [h.freelist_eq hj]
      exact hf.head
  · intro hf
    obtain ⟨hle, hj, hempty, hhead⟩ := hf
    refine ⟨hle, fun i hi hlt => ?_, ?_⟩
    · rw [← h.freelist_eq (s := s) (by omega)]
      exact hempty i hi hlt
    · rw [← h.freelist_eq hj]
      exact hhead

/-- **A request that the zone's free blocks can meet is met exactly when it does not come down to
splitting a block that starts at frame 0.** -/
theorem alloc_serves_iff (b : BootInfo) (s₀ s : Phys) (released : List Block) (a : Arena) (flags k : ℕ)
    (h : physInit b s₀ = .ok released s) (hrun : ArenaRun ⟨s, []⟩ a)
    (hfree : ∃ j, k ≤ j ∧ j ≤ allocbuddyMaxorder ∧ a.phys.freelist (zoneOfFlags flags) j ≠ []) :
    Serves flags k a.phys ↔ ¬SplitsFrameZero a.phys (zoneOfFlags flags) k := by
  obtain ⟨L, hL⟩ := arena_inv h hrun
  have hk : k ≤ allocbuddyMaxorder := by
    obtain ⟨j, h1, h2, -⟩ := hfree
    omega
  constructor
  · intro hserves hzero
    obtain ⟨j, hkj, hj, hempty, hhead⟩ := hzero
    obtain ⟨pfn, s', hok, -⟩ := hserves
    have hfirst : L.First (zoneOfFlags flags) k j 0 :=
      hL.buddy.first_freelist.mpr ⟨hkj.le, hj, hempty, hhead⟩
    obtain ⟨m, hm⟩ := allocPagesByorder_fails hL.buddy hk fun j' q' hf' => by
      -- the search meets only one block
      have hjj : j' = j := by
        rcases Nat.lt_trichotomy j' j with hlt | e | hgt
        · have hmem := hf'.mem
          rw [hfirst.empty j' hf'.le hlt] at hmem
          exact absurd hmem List.not_mem_nil
        · exact e
        · have hmem := hfirst.mem
          rw [hf'.empty j hfirst.le hgt] at hmem
          exact absurd hmem List.not_mem_nil
      subst hjj
      exact ⟨by omega, Option.some.inj (hf'.head.symm.trans hfirst.head)⟩
    rw [hm] at hok
    cases hok
  · intro hzero
    rcases Lists.exhausted_or_first L (zoneOfFlags flags) (hL.buddy.bound _) (allocbuddyMaxorder + 1) k
      (by omega) with he | ⟨j, q, hfirst⟩
    · obtain ⟨j, hkj, hj, hne⟩ := hfree
      rw [hL.buddy.freelist_eq hj] at hne
      exact absurd (he j hkj) hne
    · have hor : k = j ∨ 0 < q := by
        by_cases e : k = j
        · exact Or.inl e
        · refine Or.inr (Nat.pos_of_ne_zero fun e0 => hzero ?_)
          obtain ⟨hle, hj, hempty, hhead⟩ := hL.buddy.first_freelist.mp (e0 ▸ hfirst)
          exact ⟨j, lt_of_le_of_ne hle e, hj, hempty, hhead⟩
      obtain ⟨s', L', hok, ht⟩ := allocPagesByorder_spec hL.buddy hL.coalesced hfirst hor
      refine ⟨q, s', hok, ht.order, ⟨q, j⟩, ?_, ?_⟩
      · rw [hL.buddy.freeBlocks_eq]
        exact hfirst.mem
      · exact Block.nested ht.aligned ((hL.buddy.tiled _).aligned _ hfirst.mem) hfirst.le
          (Block.head_mem ⟨q, k⟩) (Block.head_mem ⟨q, j⟩)

/-- The second bank of `twoBanks` serves a request for a page. -/
theorem twoBanks_serves : ∃ released s, physInit twoBanks powerOn = .ok released s ∧ Serves 0 0 s := by
  obtain ⟨released, s, h⟩ := twoBanks_returns
  obtain ⟨q, s', hok⟩ := twoBanks_alloc h
  obtain ⟨L, hboot, hmax, hframes⟩ := twoBanks_covers h
  obtain ⟨L', j, hfirst, -, -⟩ := allocPagesByorder_inv hboot.buddy hboot.coalesced (Nat.zero_le _) hok
  obtain ⟨hle, hj, hempty, hhead⟩ := hboot.buddy.first_freelist.mp hfirst
  have hne : s.freelist (zoneOfFlags 0) j ≠ [] := by
    intro e
    rw [e] at hhead
    cases hhead
  refine ⟨released, s, h, (alloc_serves_iff twoBanks powerOn s released ⟨s, []⟩ 0 0 h
    Relation.ReflTransGen.refl ⟨j, hle, hj, hne⟩).mpr ?_⟩
  -- frame 0 belongs to the other zone
  intro hzero
  obtain ⟨i, -, hi, -, hhead0⟩ := hzero
  have hm : 0 ∈ s.freelist (zoneOfFlags 0) i := List.mem_of_head? hhead0
  rw [hboot.buddy.freelist_eq hi] at hm
  have hz := hboot.buddy.frame_zone _ ⟨0, i⟩ hm 0 (Block.head_mem ⟨0, i⟩)
  rw [(hframes 0 (by decide)).2] at hz
  revert hz
  decide

/-- In `twoBanks` the only free block of the DMA zone is the whole first bank. -/
theorem twoBanks_dma {released : List Block} {s : Phys} {L : Lists} (hboot : BootState released s L)
    (hmax : s.pfnMax = 767) (hframes : ∀ f, f ≤ 767 →
      ((s.pageframemap f).usecount = 0 ↔ f < 64 ∨ 328 ≤ f) ∧
      (s.pageframemap f).zone = some (if f < 256 then .DMA16 else .NORMAL)) :
    L.free .DMA16 = {⟨0, 6⟩} := by
  have hone : Coalesced allocbuddyMaxorder {(⟨0, 6⟩ : Block)} := by
    refine ⟨⟨?_, ?_, ?_⟩, ?_⟩
    · intro b hb
      rw [Set.mem_singleton_iff.mp hb]
      decide
    · intro b hb
      rw [Set.mem_singleton_iff.mp hb]
      exact dvd_zero _
    · intro b hb c hc _ _ _
      rw [Set.mem_singleton_iff.mp hb, Set.mem_singleton_iff.mp hc]
    · intro b hb hlt
      rw [Set.mem_singleton_iff.mp hb] at hlt
      exact absurd hlt (by decide)
  refine (hboot.coalesced .DMA16).unique hone ?_
  ext f
  rw [hboot.covers]
  have hblock : f ∈ covered {(⟨0, 6⟩ : Block)} ↔ f < 64 := by
    constructor
    · intro hf
      obtain ⟨b, hb, hf⟩ := hf
      rw [Set.mem_singleton_iff.mp hb, Block.mem_frames] at hf
      exact hf.2
    · intro hf
      exact ⟨_, rfl, Block.mem_frames.mpr ⟨Nat.zero_le f, hf⟩⟩
  rw [hblock]
  unfold Releasable
  rw [hmax]
  constructor
  · intro hf
    have hu := (hframes f hf.1.1).1.mp hf.1.2
    by_contra hge
    have hz := (hframes f hf.1.1).2.symm.trans hf.2
    rw [if_neg (by omega)] at hz
    cases hz
  · intro hf
    refine ⟨⟨by omega, (hframes f (by omega)).1.mpr (Or.inl hf)⟩, ?_⟩
    rw [(hframes f (by omega)).2, if_pos (by omega)]

/-- The first bank is free as one block of 64 frames from frame 0, and a request for one of its pages
runs out of memory. -/
theorem twoBanks_frame_zero_unserved : ∃ released s, physInit twoBanks powerOn = .ok released s ∧
    s.freelist (zoneOfFlags gfpDma16) 6 = [0] ∧ ¬Serves gfpDma16 0 s ∧
    allocPagesByorder gfpDma16 0 s = .panic "Out of memory \n" s := by
  obtain ⟨released, s, h⟩ := twoBanks_returns
  obtain ⟨L, hboot, hmax, hframes⟩ := twoBanks_covers h
  have hfree := twoBanks_dma hboot hmax hframes
  have hmem : ∀ p k, p ∈ L .DMA16 k ↔ p = 0 ∧ k = 6 := by
    intro p k
    have hb : (⟨p, k⟩ : Block) ∈ L.free .DMA16 ↔ (⟨p, k⟩ : Block) = ⟨0, 6⟩ := by
      rw [hfree, Set.mem_singleton_iff]
    rw [Block.mk.injEq] at hb
    exact hb
  have hempty : ∀ i, i < 6 → L .DMA16 i = [] := by
    intro i hi
    refine List.eq_nil_iff_forall_not_mem.mpr fun p hp => ?_
    have := ((hmem p i).mp hp).2
    omega
  have hsix : L .DMA16 6 = [0] := by
    have hperm : (L .DMA16 6).Perm [0] := by
      refine (List.perm_ext_iff_of_nodup (hboot.buddy.nodup .DMA16 6) (List.nodup_singleton 0)).mpr ?_
      intro p
      rw [hmem, List.mem_singleton]
      simp
    exact List.perm_singleton.mp hperm
  have hfirst : L.First .DMA16 0 6 0 :=
    ⟨by decide, fun i _ hi => hempty i hi, by rw [hsix]; rfl⟩
  have hfind := findFreePageInBuddy_zero hboot.buddy (allocbuddyMaxorder + 2) 0 (by decide) (by decide) hfirst
  have hpanic : allocPagesByorder gfpDma16 0 s = .panic "Out of memory \n" s := by
    have hz : zoneOfFlags gfpDma16 = .DMA16 := by decide
    unfold allocPagesByorder
    rw [hz, Prog.bind_run, hfind, Outcome.andThen_ok, if_pos rfl, Prog.panic_run]
  refine ⟨released, s, h, ?_, ?_, hpanic⟩
  · have hz : zoneOfFlags gfpDma16 = .DMA16 := by decide
    rw [hz, hboot.buddy.freelist_eq (by decide), hsix]
  · intro hserves
    obtain ⟨pfn, s', hok, -⟩ := hserves
    rw [hpanic] at hok
    cases hok

/-! ## The free blocks depend only on what is out -/

/-- Two reachable states with the same frames out have the same free blocks. -/
theorem Arena.Inv.free_eq {s₀ : Phys} {released : List Block} {a a' : Arena} {L L' : Lists}
    (h : a.Inv s₀ released L) (h' : a'.Inv s₀ released L')
    (hout : ∀ f, (∃ b ∈ a.held, f ∈ b.frames) ↔ ∃ b ∈ a'.held, f ∈ b.frames) (z : Zone) :
    L.free z = L'.free z := by
  refine (h.coalesced z).unique (h'.coalesced z) ?_
  ext f
  rw [h.mem_covered, h'.mem_covered]
  have hno : (∀ b ∈ a.held, f ∉ b.frames) ↔ ∀ b ∈ a'.held, f ∉ b.frames := by
    constructor
    · intro hn b hb hf
      obtain ⟨c, hc, hfc⟩ := (hout f).mpr ⟨b, hb, hf⟩
      exact hn c hc hfc
    · intro hn b hb hf
      obtain ⟨c, hc, hfc⟩ := (hout f).mp ⟨b, hb, hf⟩
      exact hn c hc hfc
  rw [hno]

/-- The same pages are on the same lists. -/
def SameFree (s t : Phys) : Prop :=
  ∀ z k, k ≤ allocbuddyMaxorder → ∀ p, p ∈ s.freelist z k ↔ p ∈ t.freelist z k

theorem SameFree.of_free {s t : Phys} {L L' : Lists} (h : Buddy s L) (h' : Buddy t L')
    (he : ∀ z, L.free z = L'.free z) : SameFree s t := by
  intro z k hk p
  rw [h.freelist_eq hk, h'.freelist_eq hk]
  have hb : (⟨p, k⟩ : Block) ∈ L.free z ↔ (⟨p, k⟩ : Block) ∈ L'.free z := by rw [he z]
  exact hb

/-- `page_free_page_pfn` on the heads of a list of blocks, in order. -/
def freePages : List Block → Prog Phys Unit
  | [] => pure ()
  | b :: bs => do
    pageFreePagePfn b.head
    freePages bs

/-- Freeing everything that is out, in any order, succeeds. -/
theorem Arena.Inv.freePages {s₀ : Phys} {released : List Block} : ∀ (bs : List Block) (a : Arena) (L : Lists),
    a.Inv s₀ released L → bs.Perm a.held →
    ∃ s' L', Mem.freePages bs a.phys = .ok () s' ∧ Arena.Inv s₀ released ⟨s', []⟩ L'
  | [], a, L, h, hp => by
    refine ⟨a.phys, L, rfl, ?_⟩
    have hnil : a.held = [] := List.nil_perm.mp hp
    rwa [← hnil]
  | b :: bs, a, L, h, hp => by
    have hb : b ∈ a.held := hp.subset List.mem_cons_self
    obtain ⟨s₁, L₁, hrun, h₁⟩ := h.give hb
    have hp₁ : bs.Perm (a.held.erase b) := by
      have := hp.erase b
      rwa [List.erase_cons_head] at this
    obtain ⟨s', L', hrest, h'⟩ := Arena.Inv.freePages bs _ L₁ h₁ hp₁
    exact ⟨s', L', Prog.bind_ok.mpr ⟨(), s₁, hrun, hrest⟩, h'⟩

/-- **In every reachable state no two buddies are both free; freeing what was just allocated restores
the free blocks; freeing everything that is out, in any order, restores those of `phys_init`.** -/
theorem buddy_coalescing (b : BootInfo) (s₀ s : Phys) (released : List Block) (a : Arena)
    (h : physInit b s₀ = .ok released s) (hrun : ArenaRun ⟨s, []⟩ a) :
    (∀ z k p q, k < allocbuddyMaxorder → p ∈ a.phys.freelist z k → q ∈ a.phys.freelist z k →
      q ≠ p ^^^ 2 ^ k) ∧
    (∀ flags k pfn s₁, k ≤ allocbuddyMaxorder → allocPagesByorder flags k a.phys = .ok pfn s₁ →
      ∃ s₂, pageFreePagePfn pfn s₁ = .ok () s₂ ∧ SameFree s₂ a.phys) ∧
    ∀ bs : List Block, bs.Perm a.held → ∃ s', freePages bs a.phys = .ok () s' ∧ SameFree s' s := by
  obtain ⟨L, hL⟩ := arena_inv h hrun
  obtain ⟨L₀, hL₀⟩ := physInit_inv h
  refine ⟨?_, ?_, ?_⟩
  · intro z k p q hk hp hq e
    rw [hL.buddy.freelist_eq hk.le] at hp hq
    have hal : 2 ^ k ∣ p := (hL.buddy.tiled z).aligned ⟨p, k⟩ hp
    refine (hL.coalesced z).maximal ⟨p, k⟩ hp hk ?_
    show Block.buddyHead p k ∈ L z k
    rw [Block.buddyHead_eq_xor hal, ← e]
    exact hq
  · intro flags k pfn s₁ hk hok
    obtain ⟨L₁, hat, -, -, h₁⟩ := hL.alloc hk hok
    rw [hat] at h₁
    obtain ⟨s₂, L₂, hfreed, h₂⟩ := h₁.give List.mem_cons_self
    refine ⟨s₂, hfreed, SameFree.of_free h₂.buddy hL.buddy (h₂.free_eq hL fun f => ?_)⟩
    rw [List.erase_cons_head]
  · intro bs hp
    obtain ⟨s', L', hfreed, h'⟩ := Arena.Inv.freePages bs a L hL hp
    exact ⟨s', hfreed, SameFree.of_free h'.buddy hL₀.buddy (h'.free_eq hL₀ fun f => Iff.rfl)⟩

/-- A page taken from the second bank of `twoBanks` and given back. -/
theorem buddy_coalescing_twoBanks : ∃ released s q s₁ s₂, physInit twoBanks powerOn = .ok released s ∧
    allocPagesByorder 0 0 s = .ok q s₁ ∧ pageFreePagePfn q s₁ = .ok () s₂ ∧ SameFree s₂ s := by
  obtain ⟨released, s, h⟩ := twoBanks_returns
  obtain ⟨q, s₁, hrun⟩ := twoBanks_alloc h
  obtain ⟨-, hundo, -⟩ := buddy_coalescing twoBanks powerOn s released ⟨s, []⟩ h Relation.ReflTransGen.refl
  obtain ⟨s₂, hfreed, hsame⟩ := hundo 0 0 q s₁ (Nat.zero_le _) hrun
  exact ⟨released, s, q, s₁, s₂, h, hrun, hfreed, hsame⟩

end Borgos.Mem
