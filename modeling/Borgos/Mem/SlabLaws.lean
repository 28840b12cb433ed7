import Borgos.Mem.SlabSteps

/-! # `kmalloc` and `kfree` over whole runs

A run begins after `kmalloc_init` and consists of `kmalloc` calls and of `kfree` calls on live pointers.
Whenever `page_alloc_page` returns, the page it returns is cleared and apart from the pages held; it may
fail. `slab_discipline` is the invariant of every such run, and says that `kmalloc` fails only when
`page_alloc_page` does.
-/
namespace Borgos.Mem
open Borgos.Foundations
set_option autoImplicit false

variable {ρ : Type}

/-! ## `kmalloc_init` -/

def noSizes : SizeDescriptor := ⟨0, 0, 0, 0, 0, 0, 0, 0, 0, 0⟩

theorem kmallocCheck_run {s : Slab ρ} {z : Zone} (hs : SizesOk s) (hg : ∀ c, (s.zoneslabs z c).gfporder = 0) :
    ∀ m c, c + m = slabsizecount → kmallocCheck z (m + 1) c s = .ok () s
  | 0, c, hm => by
    have hz : (s.zoneslabs z c).size = 0 := by rw [hs.size, if_neg (by omega)]
    unfold kmallocCheck
    rw [Prog.bind_run, Prog.get_run, Outcome.andThen_ok]
    simp only [hz, if_true, Prog.pure_run]
  | m + 1, c, hm => by
    have hc : c < slabsizecount := by omega
    have g := geometry hc
    have hsize : (s.zoneslabs z c).size = blockSize c := by rw [hs.size, if_pos hc]
    have hne : ¬blockSize c = 0 := by have := g.room; omega
    have hfits : ¬(blockCount c * blockSize c % 2 ^ 32 + pageHdrSize > pagesize * 2 ^ 0 % 2 ^ 32) := by
      have hf := g.fits
      have hmod : blockCount c * blockSize c % 2 ^ 32 ≤ blockCount c * blockSize c := Nat.mod_le _ _
      unfold pagesize at *
      omega
    unfold kmallocCheck
    rw [Prog.bind_run, Prog.get_run, Outcome.andThen_ok]
    simp only [hsize, hs.nblocks z c hc, hg, hne, hfits, if_false]
    exact kmallocCheck_run hs hg m (c + 1) (by omega)

/-- `kmalloc_init` returns, with an empty slab. -/
theorem kmallocInit_spec {s : Slab ρ} (hz : ∀ z c, s.zoneslabs z c = noSizes) :
    ∃ s', kmallocInit s = .ok () s' ∧ s'.phys = s.phys ∧ SlabInv s' [] [] (fun _ => []) fun _ _ => [] := by
  obtain ⟨t, ht⟩ : ∃ t, t = { s with zoneslabs := fun z i => if i < slabsizecount then
    { s.zoneslabs z i with size := (calcSize i).1, nblocks := (calcSize i).2 } else s.zoneslabs z i } := ⟨_, rfl⟩
  have hget : ∀ z c, t.zoneslabs z c = if c < slabsizecount then
      { noSizes with size := blockSize c, nblocks := blockCount c } else noSizes := by
    intro z c
    rw [ht]
    show (if c < slabsizecount then _ else _) = _
    rw [hz]
    rfl
  have hledger : ∀ z c, (t.zoneslabs z c).firstfree = 0 ∧ (t.zoneslabs z c).gfporder = 0 ∧
      (t.zoneslabs z c).nfree = 0 ∧ (t.zoneslabs z c).ntotal = 0 ∧ (t.zoneslabs z c).nbytesmalloced = 0 := by
    intro z c
    rw [hget]
    split
    · exact ⟨rfl, rfl, rfl, rfl, rfl⟩
    · exact ⟨rfl, rfl, rfl, rfl, rfl⟩
  have hsizes : SizesOk t := by
    constructor
    · intro z c
      rw [hget]
      split
      · rfl
      · rfl
    · intro z c hc
      rw [hget, if_pos hc]
  have hcheck : ∀ z, kmallocCheck z (slabsizecount + 1) 0 t = .ok () t := fun z =>
    kmallocCheck_run hsizes (fun c => (hledger z c).2.1) slabsizecount 0 (Nat.zero_add _)
  refine ⟨t, ?_, by rw [ht], hsizes, ?_, List.nodup_nil, ?_, ?_, ?_⟩
  · unfold kmallocInit kmallocCalcSizes
    rw [Prog.bind_run, Prog.modify_run, Outcome.andThen_ok, ← ht, Prog.bind_run, hcheck, Outcome.andThen_ok,
      Prog.bind_run, hcheck, Outcome.andThen_ok, Prog.bind_run, hcheck, Outcome.andThen_ok, Prog.bind_run, hcheck,
      Outcome.andThen_ok, hcheck]
  · intro pg hpg
    exact absurd hpg List.not_mem_nil
  · intro pg hpg
    exact absurd hpg List.not_mem_nil
  · intro b hb
    exact absurd hb List.not_mem_nil
  · intro z c
    obtain ⟨h1, -, h3, h4, h5⟩ := hledger z c
    refine ⟨h1, List.nodup_nil, ?_, h3, h4, h5⟩
    intro x
    simp

/-! ## `kmalloc` -/

theorem getOrderFrom_spec {s : Slab ρ} (hs : SizesOk s) (z : Zone) {n : ℕ} (hn : n ≤ blockSize 7) :
    ∀ m c, c + m = 7 → ∃ k, getOrderFrom (s.zoneslabs z) n (m + 2) c = some k ∧ k < slabsizecount ∧
    n ≤ blockSize k := by
  intro m
  induction m with
  | zero =>
    intro c hc
    have hc7 : c = 7 := by omega
    subst hc7
    have hsize : (s.zoneslabs z 7).size = blockSize 7 := by rw [hs.size, if_pos (by decide)]
    refine ⟨7, ?_, by decide, hn⟩
    unfold getOrderFrom
    rw [hsize, if_neg (by decide), if_pos hn]
  | succ m ih =>
    intro c hc
    have hlt : c < slabsizecount := by unfold slabsizecount; omega
    have hsize : (s.zoneslabs z c).size = blockSize c := by rw [hs.size, if_pos hlt]
    have hne : ¬blockSize c = 0 := by have := (geometry hlt).room; omega
    by_cases hle : n ≤ blockSize c
    · refine ⟨c, ?_, hlt, hle⟩
      unfold getOrderFrom
      rw [hsize, if_neg hne, if_pos hle]
    · obtain ⟨k, hk, hrest⟩ := ih (c + 1) (by omega)
      refine ⟨k, ?_, hrest⟩
      unfold getOrderFrom
      rw [hsize, if_neg hne, if_neg hle]
      exact hk

theorem getOrder_spec {s : Slab ρ} (hs : SizesOk s) (z : Zone) {size : ℕ}
    (h : size + memblockHdrSize ≤ blockSize 7) : ∃ c, getOrder (s.zoneslabs z) (size % 2 ^ 32) = some c ∧
      c < slabsizecount ∧ size + memblockHdrSize ≤ blockSize c := by
  have hlt : size + memblockHdrSize < 2 ^ 32 := lt_of_le_of_lt h (by decide)
  have e : add32 (size % 2 ^ 32) memblockHdrSize = size + memblockHdrSize := by
    unfold add32
    omega
  unfold getOrder
  rw [e]
  exact getOrderFrom_spec hs z h 7 0 rfl

/-- The allocator, the pages it holds and the blocks that are out. -/
structure SlabSystem (ρ : Type) where
  slab : Slab ρ
  pages : List HeldPage
  live : List LiveBlock

section Source
variable (pageAllocPage : ℕ → Prog (Slab ρ) ℕ)

/-- After `kmalloc(size, flags)` has returned `ptr`: one more live block, and one more page when the class
had none with a free block. -/
def SlabSystem.afterKmalloc (a : SlabSystem ρ) (size flags ptr : ℕ) (s' : Slab ρ) : SlabSystem ρ :=
  let zone := zoneOfFlags flags
  let order := (getOrder (a.slab.zoneslabs zone) size).getD 0
  { slab := s'
    pages := if (a.slab.zoneslabs zone order).firstfree = 0 then
        match pageAllocPage flags a.slab with
        | .ok page _ => ⟨page, zone, order⟩ :: a.pages
        | _ => a.pages
      else a.pages
    live := ⟨ptr - memblockHdrSize, size, zone, order⟩ :: a.live }

/-- A request the allocator is meant for. -/
def Served (size flags : ℕ) : Prop := (flags = 0 ∨ flags = gfpDma16) ∧ size + memblockHdrSize ≤ blockSize 7

/-- If `page_alloc_page` returns now, then a cleared page that is not held. -/
def SlabSystem.Supplied (a : SlabSystem ρ) (flags : ℕ) : Prop :=
  ∀ page t, pageAllocPage flags a.slab = .ok page t → FreshPage a.slab a.pages page t

inductive SlabStep (a : SlabSystem ρ) : SlabSystem ρ → Prop
  | kmalloc (size flags ptr : ℕ) (s' : Slab ρ) (hserved : Served size flags) (hfresh : a.Supplied pageAllocPage flags)
      (h : kmalloc pageAllocPage size flags a.slab = .ok ptr s') :
      SlabStep a (a.afterKmalloc pageAllocPage size flags ptr s')
  | kfree (b : LiveBlock) (s' : Slab ρ) (hb : b ∈ a.live) (h : kfree b.ptr a.slab = .ok () s') :
      SlabStep a ⟨s', a.pages, a.live.erase b⟩

def SlabRun : SlabSystem ρ → SlabSystem ρ → Prop := Relation.ReflTransGen (SlabStep pageAllocPage)

variable {pageAllocPage}

variable (pageAllocPage) in
theorem kmalloc_eq {a : SlabSystem ρ} (hs : SizesOk a.slab) {size flags : ℕ} (h : Served size flags) :
    ∃ c < slabsizecount, (getOrder (a.slab.zoneslabs (zoneOfFlags flags)) size).getD 0 = c ∧
      size + memblockHdrSize ≤ blockSize c ∧ flags = zoneGfp (zoneOfFlags flags) ∧
      (zoneOfFlags flags = .NORMAL ∨ zoneOfFlags flags = .DMA16) ∧
      kmalloc pageAllocPage size flags a.slab =
        kmallocTries pageAllocPage (zoneOfFlags flags) c size flags maxGetFreePageTries a.slab := by
  obtain ⟨c, hc, hlt, hfits⟩ := getOrder_spec hs (zoneOfFlags flags) h.2
  have hmod : size % 2 ^ 32 = size := by
    refine Nat.mod_eq_of_lt (lt_of_le_of_lt (Nat.le_add_right size memblockHdrSize) ?_)
    exact lt_of_le_of_lt h.2 (by decide)
  have hflags : flags = zoneGfp (zoneOfFlags flags) ∧ (zoneOfFlags flags = .NORMAL ∨ zoneOfFlags flags = .DMA16) ∧
      flags &&& gfpDma32 = 0 := by
    rcases h.1 with e | e
    · rw [e]
      decide
    · rw [e]
      decide
  refine ⟨c, hlt, ?_, hfits, hflags.1, hflags.2.1, ?_⟩
  · rw [hmod] at hc
    rw [hc, Option.getD_some]
  · unfold kmalloc
    rw [if_neg (not_not.mpr hflags.2.2), Prog.bind_run, Prog.get_run, Outcome.andThen_ok]
    simp only [hc]

/-- **`kmalloc` succeeds and keeps the invariant, or fails because no page could be had.** -/
theorem kmalloc_spec {a : SlabSystem ρ} {chain : ℕ → List ℕ} {cls : Zone → ℕ → List ℕ}
    (h : SlabInv a.slab a.pages a.live chain cls) {size flags : ℕ} (hserved : Served size flags)
    (hfresh : a.Supplied pageAllocPage flags) :
    (∃ ptr s' chain' cls', kmalloc pageAllocPage size flags a.slab = .ok ptr s' ∧
      SlabInv (a.afterKmalloc pageAllocPage size flags ptr s').slab
        (a.afterKmalloc pageAllocPage size flags ptr s').pages
        (a.afterKmalloc pageAllocPage size flags ptr s').live chain' cls') ∨
    (∃ m t, kmalloc pageAllocPage size flags a.slab = .panic m t ∧ pageAllocPage flags a.slab = .panic m t) ∨
    kmalloc pageAllocPage size flags a.slab = .stuck ∧ pageAllocPage flags a.slab = .stuck := by
  obtain ⟨c, hc, horder, hfits, hgfp, hzone, heq⟩ := kmalloc_eq pageAllocPage h.sizes hserved
  rw [heq]
  obtain ⟨z, hz⟩ : ∃ z, z = zoneOfFlags flags := ⟨_, rfl⟩
  rw [← hz] at horder hgfp hzone ⊢
  unfold SlabSystem.afterKmalloc
  simp only [← hz, horder]
  unfold maxGetFreePageTries kmallocTries
  rw [Prog.bind_run, Prog.get_run, Outcome.andThen_ok]
  by_cases hfirst : (a.slab.zoneslabs z c).firstfree = 0
  · -- the class has no page with a free block
    rw [if_neg (not_not.mpr hfirst), Prog.bind_run, if_pos hfirst]
    cases hsrc : pageAllocPage flags a.slab with
    | ok page t =>
      left
      obtain ⟨s₁, chain₁, cls₁, hrun₁, hff, hinv₁⟩ := h.grow hsrc (hfresh page t hsrc) hzone hc
      have hpos : page ≠ 0 := (hfresh page t hsrc).pos.ne'
      obtain ⟨s', x, chain', cls', hrun, hinv⟩ := hinv₁.take (z := z) (c := c) hff hpos hfits
      rw [← hgfp] at hrun
      refine ⟨x + memblockHdrSize, s', chain', cls', ?_, ?_⟩
      · rw [hrun₁, Outcome.andThen_ok]
        unfold kmallocTries
        rw [Prog.bind_run, Prog.get_run, Outcome.andThen_ok, hff, if_pos hpos]
        exact hrun
      · rw [Nat.add_sub_cancel]
        exact hinv
    | panic m t =>
      right
      left
      refine ⟨m, t, ?_, rfl⟩
      unfold kmallocNewPage
      rw [Prog.bind_run, hsrc, Outcome.andThen_panic, Outcome.andThen_panic]
    | stuck =>
      right
      right
      refine ⟨?_, rfl⟩
      unfold kmallocNewPage
      rw [Prog.bind_run, hsrc, Outcome.andThen_stuck, Outcome.andThen_stuck]
  · left
    obtain ⟨s', x, chain', cls', hrun, hinv⟩ := h.take rfl hfirst hfits
    rw [← hgfp] at hrun
    refine ⟨x + memblockHdrSize, s', chain', cls', ?_, ?_⟩
    · rw [if_pos hfirst]
      exact hrun
    · rw [if_neg hfirst, Nat.add_sub_cancel]
      exact hinv

theorem SlabStep.inv {a b : SlabSystem ρ} {chain : ℕ → List ℕ} {cls : Zone → ℕ → List ℕ}
    (hstep : SlabStep pageAllocPage a b) (h : SlabInv a.slab a.pages a.live chain cls) :
    ∃ chain' cls', SlabInv b.slab b.pages b.live chain' cls' := by
  cases hstep with
  | kmalloc size flags ptr s' hserved hfresh hrun =>
    rcases kmalloc_spec h hserved hfresh with ⟨ptr', t, chain', cls', hrun', hinv⟩ | ⟨m, t, hp, -⟩ | ⟨hst, -⟩
    · rw [hrun] at hrun'
      obtain ⟨e1, e2⟩ := Outcome.ok.inj hrun'
      rw [e1, e2]
      exact ⟨chain', cls', hinv⟩
    · rw [hrun] at hp
      cases hp
    · rw [hrun] at hst
      cases hst
  | kfree b s' hb hrun =>
    obtain ⟨t, chain', cls', hrun', hinv, -⟩ := h.give hb
    rw [hrun] at hrun'
    rw [(Outcome.ok.inj hrun').2]
    exact ⟨chain', cls', hinv⟩

theorem SlabRun.inv {s : Slab ρ} {a : SlabSystem ρ} (h : SlabInv s [] [] (fun _ => []) fun _ _ => [])
    (hrun : SlabRun pageAllocPage ⟨s, [], []⟩ a) : ∃ chain cls, SlabInv a.slab a.pages a.live chain cls := by
  induction hrun with
  | refl => exact ⟨_, _, h⟩
  | tail _ hstep ih =>
    obtain ⟨chain, cls, hinv⟩ := ih
    exact hstep.inv hinv

/-! ## The result -/

variable (pageAllocPage)

/-- What holds in every state of a run. -/
structure SlabDiscipline (a : SlabSystem ρ) : Prop where
  aligned : ∀ b ∈ a.live, 16 ∣ b.ptr
  inside : ∀ b ∈ a.live, ∃ pg ∈ a.pages, pg.zone = b.zone ∧ pg.order = b.order ∧
    pg.addr + pageHdrSize ≤ b.block ∧ b.ptr + b.size ≤ b.block + blockSize b.order ∧
    b.block + blockSize b.order ≤ pg.addr + pagesize
  disjoint : a.live.Pairwise fun b c => Disjoint b.extent c.extent
  chain : ∀ pg ∈ a.pages, ∃ xs, Chained (fun x => (a.slab.blockHdr x).next) 0 (a.slab.pageHdr pg.addr).firstfree xs ∧
    xs.length = (a.slab.pageHdr pg.addr).nfree ∧ xs.Nodup ∧
    (∀ x ∈ xs, x ∈ pg.blocks ∧ (a.slab.blockHdr x).flags &&& memblockFree ≠ 0 ∧ ∀ b ∈ a.live, b.block ≠ x) ∧
    ∀ x ∈ pg.blocks, x ∈ xs ∨ ∃ b ∈ a.live, b.block = x
  listed : ∀ z c, ∃ ps, Chained (fun x => (a.slab.pageHdr x).next) 0 (a.slab.zoneslabs z c).firstfree ps ∧
    ps.Nodup ∧ ∀ x, x ∈ ps ↔ ∃ pg ∈ a.pages, pg.addr = x ∧ pg.zone = z ∧ pg.order = c ∧ 0 < (a.slab.pageHdr x).nfree
  counters : ∀ z c,
    (a.slab.zoneslabs z c).nfree = pageSum a.pages (fun pg => (a.slab.pageHdr pg.addr).nfree) z c % 2 ^ 32 ∧
    (a.slab.zoneslabs z c).ntotal = pageSum a.pages (fun pg => pg.blocks.length) z c % 2 ^ 32 ∧
    (a.slab.zoneslabs z c).nbytesmalloced = liveBytes a.live z c % 2 ^ 32
  kfree : ∀ b ∈ a.live, ∃ s', kfree b.ptr a.slab = .ok () s' ∧ ∃ pg ∈ a.pages, pg.zone = b.zone ∧
    pg.order = b.order ∧ b.block ∈ pg.blocks ∧ (s'.pageHdr pg.addr).firstfree = b.block
  kmalloc : ∀ size flags, Served size flags → a.Supplied pageAllocPage flags →
    (∃ ptr s', kmalloc pageAllocPage size flags a.slab = .ok ptr s') ∨
    (∃ m t, kmalloc pageAllocPage size flags a.slab = .panic m t ∧ pageAllocPage flags a.slab = .panic m t) ∨
    kmalloc pageAllocPage size flags a.slab = .stuck ∧ pageAllocPage flags a.slab = .stuck

variable {pageAllocPage}

namespace SlabInv
variable {s : Slab ρ} {pages : List HeldPage} {live : List LiveBlock} {chain : ℕ → List ℕ}
  {cls : Zone → ℕ → List ℕ}

/-- Two live blocks with different addresses do not overlap. -/
theorem extent_disjoint (h : SlabInv s pages live chain cls) {b c : LiveBlock} (hb : b ∈ live) (hc : c ∈ live)
    (hne : b.block < c.block) : Disjoint b.extent c.extent := by
  obtain ⟨p, hp, -, hpo, -, -, hpb⟩ := h.live_mem hb
  obtain ⟨q, hq, -, -, -, -, hqb⟩ := h.live_mem hc
  refine Set.disjoint_left.mpr ?_
  intro x hxb hxc
  have hbx : x < b.block + blockSize b.order := hxb.2
  have hcx : c.block ≤ x := hxc.1
  by_cases hpq : p = q
  · subst hpq
    have hs := HeldPage.spaced hpb hqb hne
    rw [hpo] at hs
    omega
  · -- different pages
    have hin := (h.placed p hp).inside hpb
    have hin' := (h.placed q hq).inside hqb
    rw [hpo] at hin
    have hpa := (h.placed p hp).aligned
    have hqa := (h.placed q hq).aligned
    have haddr : p.addr ≠ q.addr := fun e => hpq (h.page_unique hq hp e)
    obtain ⟨i, hi⟩ := hpa
    obtain ⟨j, hj⟩ := hqa
    unfold pagesize pageHdrSize at *
    omega

/-- The list of live blocks names no block twice. -/
theorem live_pairwise (h : SlabInv s pages live chain cls) : live.Pairwise fun b c => b.block ≠ c.block := by
  rw [List.pairwise_iff_getElem]
  intro i j hi hj hij e
  obtain ⟨pg, hpg, -, -, haddr, -⟩ := h.live_mem (List.getElem_mem hi)
  have hnd := (List.nodup_append.mp (h.split_nodup hpg)).2.1
  unfold HeldPage.liveIn at hnd
  -- both would be in the page's list of live blocks
  have hsub : [live[i], live[j]].Sublist live := by
    have h1 : [live[i]].Sublist (live.take j) := List.singleton_sublist.mpr
      (List.mem_take_iff_getElem.mpr ⟨i, by omega, rfl⟩)
    have h2 : [live[j]].Sublist (live.drop j) := List.singleton_sublist.mpr
      (List.mem_drop_iff_getElem.mpr ⟨0, by omega, by simp⟩)
    have h3 := h1.append h2
    rw [List.take_append_drop] at h3
    exact h3
  have hfil := (hsub.filter fun b => decide (pagealignDown b.block = pg.addr)).map LiveBlock.block
  have hi' : pagealignDown live[i].block = pg.addr := haddr.symm
  have hj' : pagealignDown live[j].block = pg.addr := by rw [← e]; exact haddr.symm
  rw [List.filter_cons_of_pos (by simpa using hi'), List.filter_cons_of_pos (by simpa using hj')] at hfil
  have hnd2 := hnd.sublist hfil
  simp [e] at hnd2

theorem discipline {a : SlabSystem ρ} (h : SlabInv a.slab a.pages a.live chain cls) :
    SlabDiscipline pageAllocPage a where
  aligned b hb := by
    obtain ⟨pg, hpg, -, -, -, -, hblk⟩ := h.live_mem hb
    exact Nat.dvd_add ((h.placed pg hpg).block_aligned hblk) (by decide)
  inside b hb := by
    obtain ⟨pg, hpg, hz, hc, -, -, hblk⟩ := h.live_mem hb
    have hin := (h.placed pg hpg).inside hblk
    have hfits := (h.liveOk b hb).fits
    rw [hc] at hin
    refine ⟨pg, hpg, hz, hc, hin.1, ?_, hin.2⟩
    unfold LiveBlock.ptr
    omega
  disjoint := by
    have hmem := List.Pairwise.and_mem.mp h.live_pairwise
    refine hmem.imp ?_
    intro b c hbc
    rcases Nat.lt_or_gt_of_ne hbc.2.2 with hlt | hgt
    · exact h.extent_disjoint hbc.1 hbc.2.1 hlt
    · exact (h.extent_disjoint hbc.2.1 hbc.1 hgt).symm
  chain pg hpg := by
    have hok := h.pageOk pg hpg
    refine ⟨chain pg.addr, hok.chained, hok.nfree.symm, (List.nodup_append.mp (h.split_nodup hpg)).1, ?_, ?_⟩
    · intro x hx
      exact ⟨h.chain_mem hpg hx, (zoneFlags (h.placed pg hpg).zone (hok.flags x hx)).1,
        fun b hb => h.chain_not_live hpg hx hb⟩
    · intro x hx
      rcases List.mem_append.mp (hok.split.symm.subset hx) with hm | hm
      · exact Or.inl hm
      · obtain ⟨b, hb, e⟩ := List.mem_map.mp hm
        exact Or.inr ⟨b, (List.mem_filter.mp hb).1, e⟩
  listed z c := by
    have hcls := h.classOk z c
    refine ⟨cls z c, hcls.chained, hcls.nodup, ?_⟩
    intro x
    refine (hcls.mem x).trans (exists_congr fun pg => and_congr_right fun hpg => and_congr_right fun hx =>
      and_congr_right fun _ => and_congr_right fun _ => ?_)
    rw [← hx, (h.pageOk pg hpg).nfree, List.length_pos_iff]
  counters z c := by
    have hcls := h.classOk z c
    have hfree : pageSum a.pages (fun pg => (a.slab.pageHdr pg.addr).nfree) z c =
        pageSum a.pages (fun pg => (chain pg.addr).length) z c := by
      unfold pageSum
      congr 1
      refine List.map_congr_left fun pg hpg => ?_
      simp only [(h.pageOk pg hpg).nfree]
    have htotal : (fun pg : HeldPage => pg.blocks.length) = fun pg => blockCount pg.order := by
      funext pg
      exact pg.length_blocks
    rw [hfree, htotal]
    exact ⟨hcls.nfree, hcls.ntotal, hcls.nbytes⟩
  kfree b hb := by
    obtain ⟨s', -, -, hrun, -, hfirst⟩ := h.give hb
    obtain ⟨pg, hpg, hz, hc, haddr, -, hblk⟩ := h.live_mem hb
    rw [← haddr] at hfirst
    exact ⟨s', hrun, pg, hpg, hz, hc, hblk, hfirst⟩
  kmalloc size flags hserved hfresh := by
    rcases kmalloc_spec h hserved hfresh with ⟨ptr, s', -, -, hrun, -⟩ | hfail
    · exact Or.inl ⟨ptr, s', hrun⟩
    · exact Or.inr hfail

end SlabInv

variable (pageAllocPage)

/-- **The slab invariant.** In every state of every run after `kmalloc_init` chains, lists, counters and
live blocks agree; `kfree` of a live pointer gives its block back to the page, zone and class it came
from; and `kmalloc` fails only when it needs a page and `page_alloc_page` fails. -/
theorem slab_discipline (s₀ s : Slab ρ) (a : SlabSystem ρ) (hzero : ∀ z c, s₀.zoneslabs z c = noSizes)
    (hinit : kmallocInit s₀ = .ok () s) (hrun : SlabRun pageAllocPage ⟨s, [], []⟩ a) :
    SlabDiscipline pageAllocPage a := by
  obtain ⟨s', hinit', -, hinv⟩ := kmallocInit_spec hzero
  rw [hinit] at hinit'
  rw [← (Outcome.ok.inj hinit').2] at hinv
  obtain ⟨chain, cls, h⟩ := hrun.inv hinv
  exact h.discipline

end Source

/-- Pages in the order of their addresses, the next one being `phys`. -/
def nextPage (_flags : ℕ) : Prog (Slab ℕ) ℕ := fun s =>
  .ok s.phys { s with
    pageHdr := fun x => if pagealignDown x = s.phys then ⟨0, 0, 0, 0⟩ else s.pageHdr x
    blockHdr := fun x => if pagealignDown x = s.phys then ⟨0, 0⟩ else s.blockHdr x
    phys := s.phys + pagesize }

/-- Nothing allocated, and the first page will be the one at `0x10000`. -/
def emptySlab : Slab ℕ := ⟨fun _ _ => noSizes, fun _ => ⟨0, 0, 0, 0⟩, fun _ => ⟨0, 0⟩, 0x10000⟩

/-- The next page is one. -/
def SlabSystem.NextFree (a : SlabSystem ℕ) : Prop :=
  pagesize ∣ a.slab.phys ∧ 0 < a.slab.phys ∧ a.slab.phys + pagesize ≤ wordSize ∧ ∀ pg ∈ a.pages, pg.addr ≠ a.slab.phys

instance (a : SlabSystem ℕ) : Decidable a.NextFree := by
  unfold SlabSystem.NextFree
  infer_instance

instance (size flags : ℕ) : Decidable (Served size flags) := by
  unfold Served
  infer_instance

theorem SlabSystem.NextFree.supplied {a : SlabSystem ℕ} (h : a.NextFree) (flags : ℕ) : a.Supplied nextPage flags := by
  intro page t hrun
  obtain ⟨rfl, rfl⟩ := Outcome.ok.inj hrun
  refine ⟨h.1, h.2.1, h.2.2.1, h.2.2.2, rfl, ?_, ?_, ?_⟩
  · intro x hx
    exact if_neg hx
  · intro x hx
    exact if_neg hx
  · intro x hx
    exact ⟨if_pos hx, if_pos hx⟩

inductive SlabCall where
  | kmalloc (size flags : ℕ)
  | kfree (ptr : ℕ)

/-- The system after a call, if it returns. -/
def SlabSystem.call (a : SlabSystem ℕ) : SlabCall → Option (SlabSystem ℕ)
  | .kmalloc size flags =>
    if Served size flags ∧ a.NextFree then
      match kmalloc nextPage size flags a.slab with
      | .ok ptr s' => some (a.afterKmalloc nextPage size flags ptr s')
      | _ => none
    else none
  | .kfree ptr =>
    match a.live.find? fun b => b.ptr = ptr with
    | some b =>
      match kfree b.ptr a.slab with
      | .ok _ s' => some ⟨s', a.pages, a.live.erase b⟩
      | _ => none
    | none => none

theorem SlabSystem.call_step {a b : SlabSystem ℕ} {c : SlabCall} (h : a.call c = some b) : SlabStep nextPage a b := by
  unfold SlabSystem.call at h
  split at h
  · split at h
    · next size flags hok =>
      split at h
      · next ptr s' hrun =>
        cases h
        exact .kmalloc size flags ptr s' hok.1 (hok.2.supplied flags) hrun
      · cases h
    · cases h
  · split at h
    · next b' hfind =>
      split at h
      · next s' hrun =>
        cases h
        exact .kfree b' s' (List.mem_of_find?_eq_some hfind) hrun
      · cases h
    · cases h

theorem SlabSystem.calls_run {cs : List SlabCall} {a b : SlabSystem ℕ} (h : cs.foldlM SlabSystem.call a = some b) :
    SlabRun nextPage a b := by
  induction cs generalizing a with
  | nil =>
    cases h
    exact .refl
  | cons c cs ih =>
    rw [List.foldlM_cons] at h
    obtain ⟨a', hcall, hrest⟩ := Option.bind_eq_some_iff.mp h
    exact .head (SlabSystem.call_step hcall) (ih hrest)

/-- Two blocks of one class and one of another zone; the first one is freed and handed out again. -/
def someCalls : List SlabCall := [.kmalloc 100 0, .kmalloc 90 0, .kmalloc 3000 gfpDma16, .kfree 0x10030, .kmalloc 80 0]

theorem slab_discipline_emptySlab : ∃ s a, kmallocInit emptySlab = .ok () s ∧ SlabRun nextPage ⟨s, [], []⟩ a ∧
    a.pages.map HeldPage.addr = [0x11000, 0x10000] ∧ a.live.map LiveBlock.ptr = [0x10030, 0x11030, 0x100B0] ∧
    SlabDiscipline nextPage a := by
  obtain ⟨s, hs, -⟩ := kmallocInit_spec (s := emptySlab) fun _ _ => rfl
  have hview : (match kmallocInit emptySlab with
      | .ok _ s =>
          (someCalls.foldlM SlabSystem.call ⟨s, [], []⟩).map fun a =>
            (a.pages.map HeldPage.addr, a.live.map LiveBlock.ptr)
      | _ => none) = some ([0x11000, 0x10000], [0x10030, 0x11030, 0x100B0]) := by decide +kernel
  rw [hs] at hview
  obtain ⟨a, ha, hview⟩ := Option.map_eq_some_iff.mp hview
  have hrun := SlabSystem.calls_run ha
  exact ⟨s, a, hs, hrun, congrArg Prod.fst hview, congrArg Prod.snd hview,
    slab_discipline nextPage emptySlab s a (fun _ _ => rfl) hs hrun⟩

end Borgos.Mem
