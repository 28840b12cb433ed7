import Borgos.Foundations.Lockstep
import Borgos.Mem.SlabLaws

/-! # Requests of any size

`kmalloc` takes any `size_t` and any flags. What was asked for is kept in the headers, where it decides
nothing but the accounts. So a slab that has served arbitrary requests is followed by one that has
served requests for 0 bytes with the plain flags of their zones, and the slab invariant holds there.
-/
namespace Borgos.Mem
open Borgos.Foundations
set_option autoImplicit false

variable {ρ : Type}

/-! ## The bits that decide -/

/-- `GFP_DMA16`, `GFP_DMA32` and `MEMBLOCK_FREE`. -/
def SameBits (f g : ℕ) : Prop :=
  f.testBit 0 = g.testBit 0 ∧ f.testBit 1 = g.testBit 1 ∧ f.testBit 15 = g.testBit 15

theorem and_two_pow_ne {f i : ℕ} : f &&& 2 ^ i ≠ 0 ↔ f.testBit i = true := by
  rw [Nat.and_two_pow]
  cases f.testBit i <;> simp

theorem and_memblockFree {f : ℕ} : f &&& memblockFree ≠ 0 ↔ f.testBit 15 = true := and_two_pow_ne (i := 15)

theorem and_gfpDma32 {f : ℕ} : f &&& gfpDma32 ≠ 0 ↔ f.testBit 1 = true := and_two_pow_ne (i := 1)

theorem zoneOfFlags_eq (f : ℕ) : zoneOfFlags f = if f.testBit 0 = true then .DMA16 else .NORMAL := by
  unfold zoneOfFlags
  simp only [show f &&& gfpDma16 ≠ 0 ↔ f.testBit 0 = true from and_two_pow_ne (i := 0)]

theorem testBit_notMemblockFree (f : ℕ) : (f &&& notMemblockFree).testBit 15 = false := by
  rw [Nat.testBit_and]
  simp [show notMemblockFree.testBit 15 = false from rfl]

namespace SameBits
variable {f g : ℕ}

theorem free (h : SameBits f g) : f &&& memblockFree ≠ 0 ↔ g &&& memblockFree ≠ 0 := by
  rw [and_memblockFree, and_memblockFree, h.2.2]

theorem dma32 (h : SameBits f g) : f &&& gfpDma32 ≠ 0 ↔ g &&& gfpDma32 ≠ 0 := by
  rw [and_gfpDma32, and_gfpDma32, h.2.1]

theorem zone (h : SameBits f g) : zoneOfFlags f = zoneOfFlags g := by
  rw [zoneOfFlags_eq, zoneOfFlags_eq, h.1]

theorem setFree (h : SameBits f g) : SameBits (f ||| memblockFree) (g ||| memblockFree) := by
  unfold SameBits at *
  simp only [Nat.testBit_or, h, and_self]

/-- The flags of a block that is handed out. -/
theorem request (h : SameBits f g) {flags flags' : ℕ} (h0 : flags.testBit 0 = flags'.testBit 0)
    (h1 : flags.testBit 1 = flags'.testBit 1) :
    SameBits ((f ||| flags) &&& notMemblockFree) ((g ||| flags') &&& notMemblockFree) := by
  refine ⟨?_, ?_, ?_⟩
  · simp only [Nat.testBit_and, Nat.testBit_or, h.1, h0]
  · simp only [Nat.testBit_and, Nat.testBit_or, h.2.1, h1]
  · rw [testBit_notMemblockFree, testBit_notMemblockFree]

end SameBits

/-! ## A slab and its follower -/

/-- `t` has the same lists and tables as `s`. What was requested may differ. -/
structure Follows (s t : Slab ρ) : Prop where
  pageHdr : s.pageHdr = t.pageHdr
  firstfree : ∀ z c, (s.zoneslabs z c).firstfree = (t.zoneslabs z c).firstfree
  size : ∀ z c, (s.zoneslabs z c).size = (t.zoneslabs z c).size
  nblocks : ∀ z c, (s.zoneslabs z c).nblocks = (t.zoneslabs z c).nblocks
  flags : ∀ x, SameBits (s.blockHdr x).flags (t.blockHdr x).flags
  next : ∀ x, (t.blockHdr x).flags.testBit 15 = true → (s.blockHdr x).bh = (t.blockHdr x).bh

namespace Follows
variable {s t : Slab ρ}

theorem setPageHdr (h : Follows s t) (page : ℕ) {f g : PageHdr → PageHdr}
    (hfg : f (t.pageHdr page) = g (t.pageHdr page)) : Follows (s.setPageHdr page f) (t.setPageHdr page g) where
  pageHdr := by simp only [Slab.setPageHdr_pageHdr, h.pageHdr, hfg]
  firstfree := h.firstfree
  size := h.size
  nblocks := h.nblocks
  flags := h.flags
  next := h.next

theorem setSizes (h : Follows s t) (z : Zone) (c : ℕ) {f g : SizeDescriptor → SizeDescriptor}
    (hfirst : (f (s.zoneslabs z c)).firstfree = (g (t.zoneslabs z c)).firstfree)
    (hsize : (f (s.zoneslabs z c)).size = (g (t.zoneslabs z c)).size)
    (hcount : (f (s.zoneslabs z c)).nblocks = (g (t.zoneslabs z c)).nblocks) :
    Follows (s.setSizes z c f) (t.setSizes z c g) where
  pageHdr := h.pageHdr
  firstfree z' c' := by
    rw [Slab.setSizes_get, Slab.setSizes_get]
    split
    · exact hfirst
    · exact h.firstfree z' c'
  size z' c' := by
    rw [Slab.setSizes_get, Slab.setSizes_get]
    split
    · exact hsize
    · exact h.size z' c'
  nblocks z' c' := by
    rw [Slab.setSizes_get, Slab.setSizes_get]
    split
    · exact hcount
    · exact h.nblocks z' c'
  flags := h.flags
  next := h.next

theorem setBlockHdr (h : Follows s t) (block : ℕ) {f g : MemblockHdr → MemblockHdr}
    (hflags : SameBits (f (s.blockHdr block)).flags (g (t.blockHdr block)).flags)
    (hnext : (g (t.blockHdr block)).flags.testBit 15 = true →
      (f (s.blockHdr block)).bh = (g (t.blockHdr block)).bh) :
    Follows (s.setBlockHdr block f) (t.setBlockHdr block g) where
  pageHdr := h.pageHdr
  firstfree := h.firstfree
  size := h.size
  nblocks := h.nblocks
  flags x := by
    by_cases hx : x = block
    · subst hx
      simpa only [Slab.setBlockHdr_blockHdr, Function.update_self] using hflags
    · simpa only [Slab.setBlockHdr_blockHdr, Function.update_of_ne hx] using h.flags x
  next x := by
    by_cases hx : x = block
    · subst hx
      simpa only [Slab.setBlockHdr_blockHdr, Function.update_self] using hnext
    · simpa only [Slab.setBlockHdr_blockHdr, Function.update_of_ne hx] using h.next x

end Follows

/-! ## The parts in lockstep -/

theorem kmallocUnlinkFull_lockstep {s t : Slab ρ} (h : Follows s t) (z : Zone) (c page : ℕ) :
    Lockstep Follows (kmallocUnlinkFull z c page s) (kmallocUnlinkFull z c page t) := by
  rw [kmallocUnlinkFull_run, kmallocUnlinkFull_run, h.pageHdr]
  apply Lockstep.ok
  split
  · exact (h.setSizes z c rfl (h.size z c) (h.nblocks z c)).setPageHdr page rfl
  · exact h

theorem kmallocFromPage_lockstep {s t : Slab ρ} (h : Follows s t) (z : Zone) (c page size size' : ℕ)
    {flags flags' : ℕ} (h0 : flags.testBit 0 = flags'.testBit 0) (h1 : flags.testBit 1 = flags'.testBit 1) :
    Lockstep Follows (kmallocFromPage z c size flags page s) (kmallocFromPage z c size' flags' page t) := by
  unfold kmallocFromPage
  simp only [Prog.bind_run, Prog.get_run, Outcome.andThen_ok, h.pageHdr]
  generalize hblock : (t.pageHdr page).firstfree = block
  apply Lockstep.ite (h.flags block).free
  · intro hfree
    have hnext : (s.blockHdr block).bh = (t.blockHdr block).bh :=
      h.next block (and_memblockFree.mp ((h.flags block).free.mp hfree))
    simp only [Prog.bind_run, Prog.modify_run, Outcome.andThen_ok]
    have hpage := (h.setPageHdr page (f := fun h => { h with firstfree := (s.blockHdr block).next })
      (g := fun h => { h with firstfree := (t.blockHdr block).next })
      (by simp only [MemblockHdr.next, hnext])).setPageHdr page (f := fun h => { h with nfree := dec16 h.nfree })
      (g := fun h => { h with nfree := dec16 h.nfree }) rfl
    apply Lockstep.bind (kmallocUnlinkFull_lockstep hpage z c page)
    intro _ u v huv
    simp only [Prog.bind_run, Prog.modify_run, Outcome.andThen_ok, Prog.pure_run]
    apply Lockstep.ok
    simp only [Slab.setSizes_setSizes, Slab.setBlockHdr_setBlockHdr]
    -- the block is no longer free, so its size may differ
    refine (huv.setSizes z c (huv.firstfree z c) (huv.size z c) (huv.nblocks z c)).setBlockHdr block ?_ ?_
    · exact (huv.flags block).request h0 h1
    · intro hbit
      have hused : ((((v.blockHdr block).flags ||| flags') &&& notMemblockFree)).testBit 15 = true := hbit
      rw [testBit_notMemblockFree] at hused
      cases hused
  · intro _
    exact Lockstep.panic _ s t

/-- A free block gets a successor. -/
theorem Follows.setFree {s t : Slab ρ} (h : Follows s t) (block next : ℕ) :
    Follows (s.setBlockHdr block fun b => ({ b with flags := b.flags ||| memblockFree } : MemblockHdr).setNext next)
      (t.setBlockHdr block fun b => ({ b with flags := b.flags ||| memblockFree } : MemblockHdr).setNext next) :=
  h.setBlockHdr block (h.flags block).setFree fun _ => rfl

theorem kmallocInitBlocks_lockstep (blocksize : ℕ) : ∀ (n p : ℕ) {s t : Slab ρ}, Follows s t →
    Lockstep Follows (kmallocInitBlocks blocksize n p s) (kmallocInitBlocks blocksize n p t) := by
  intro n
  induction n with
  | zero =>
    intro p s t h
    unfold kmallocInitBlocks
    exact Lockstep.ok p h
  | succ n ih =>
    intro p s t h
    unfold kmallocInitBlocks
    simp only [Prog.bind_run, Prog.modify_run, Prog.get_run, Outcome.andThen_ok, Slab.setBlockHdr_setBlockHdr,
      Slab.setBlockHdr_blockHdr, Function.update_self]
    exact ih _ (h.setFree p _)

/-- A new page is set up after `page_alloc_page` has returned. -/
theorem kmallocNewPage_source {pageAllocPage : ℕ → Prog (Slab ρ) ℕ} {s u : Slab ρ} {flags page : ℕ}
    (hsrc : pageAllocPage flags s = .ok page u) (z : Zone) (c : ℕ) :
    kmallocNewPage pageAllocPage z c flags s = kmallocNewPage (fun _ => pure page) z c 0 u := by
  unfold kmallocNewPage
  simp only [Prog.bind_run, hsrc, Prog.pure_run]

theorem kmallocNewPage_lockstep {s t : Slab ρ} (h : Follows s t) (z : Zone) (c page : ℕ) :
    Lockstep Follows (kmallocNewPage (fun _ => pure page) z c 0 s) (kmallocNewPage (fun _ => pure page) z c 0 t) := by
  unfold kmallocNewPage
  simp only [Prog.bind_run, Prog.pure_run, Outcome.andThen_ok]
  apply Lockstep.ite Iff.rfl
  · intro _
    exact Lockstep.panic _ s t
  · intro _
    simp only [Prog.bind_run, Prog.modify_run, Prog.get_run, Outcome.andThen_ok, Slab.setSizes_setSizes,
      Slab.setSizes_get, and_self, if_true, h.size z c, h.nblocks z c]
    have hsizes := h.setSizes z c
      (f := fun d => { d with
        npages := add32 d.npages 1, ntotal := add32 d.ntotal d.nblocks, nfree := add32 d.nfree d.nblocks })
      (g := fun d => { d with
        npages := add32 d.npages 1, ntotal := add32 d.ntotal d.nblocks, nfree := add32 d.nfree d.nblocks })
      (h.firstfree z c) (h.size z c) (h.nblocks z c)
    apply Lockstep.bind (kmallocInitBlocks_lockstep _ _ _ hsizes)
    intro last u v huv
    simp only [Prog.bind_run, Prog.modify_run, Outcome.andThen_ok]
    apply Lockstep.ok
    simp only [Slab.setBlockHdr_setBlockHdr, Slab.setPageHdr_setPageHdr, Slab.setPageHdr_zoneslabs,
      Slab.setBlockHdr_zoneslabs]
    have hblocks := huv.setFree last 0
    exact (hblocks.setPageHdr page (by simp only [huv.firstfree z c])).setSizes z c rfl (huv.size z c) (huv.nblocks z c)

theorem kfreeRelink_lockstep {s t : Slab ρ} (h : Follows s t) (z : Zone) (c page : ℕ) :
    Lockstep Follows (kfreeRelink z c page s) (kfreeRelink z c page t) := by
  unfold kfreeRelink
  simp only [Prog.bind_run, Prog.get_run, Outcome.andThen_ok, h.pageHdr]
  apply Lockstep.ite Iff.rfl
  · intro _
    apply Lockstep.ite Iff.rfl
    · intro _
      exact Lockstep.ok () h
    · intro _
      simp only [Prog.bind_run, Prog.modify_run, Outcome.andThen_ok]
      apply Lockstep.ok
      exact (h.setPageHdr page (by simp only [h.firstfree z c])).setSizes z c rfl (h.size z c) (h.nblocks z c)
  · intro _
    exact Lockstep.ok () h

theorem kfree_lockstep {s t : Slab ρ} (h : Follows s t) (ptr : ℕ) : Lockstep Follows (kfree ptr s) (kfree ptr t) := by
  obtain ⟨p, hp⟩ : ∃ p, (ptr + wordSize - memblockHdrSize) % wordSize = p := ⟨_, rfl⟩
  unfold kfree
  simp only [Prog.bind_run, Prog.get_run, Outcome.andThen_ok, h.pageHdr, hp]
  apply Lockstep.ite (h.flags p).free
  · intro _
    exact Lockstep.panic _ s t
  · intro _
    rw [(h.flags p).zone]
    apply Lockstep.ite (h.flags p).dma32
    · intro _
      exact Lockstep.panic _ s t
    · intro _
      simp only [Prog.bind_run, Prog.modify_run, Outcome.andThen_ok, Slab.setBlockHdr_setBlockHdr,
        Slab.setBlockHdr_pageHdr, Slab.setPageHdr_setPageHdr, h.pageHdr]
      have hblock := (h.setFree p (t.pageHdr (pagealignDown p)).firstfree).setPageHdr (pagealignDown p)
        (f := fun h => { h with firstfree := p, nfree := inc16 h.nfree })
        (g := fun h => { h with firstfree := p, nfree := inc16 h.nfree }) rfl
      apply Lockstep.bind (kfreeRelink_lockstep hblock _ _ _)
      intro _ u v huv
      simp only [Prog.bind_run, Prog.modify_run, Outcome.andThen_ok, Slab.setSizes_setSizes]
      apply Lockstep.ok
      exact huv.setSizes _ _ (huv.firstfree _ _) (huv.size _ _) (huv.nblocks _ _)

/-! ## Which class serves a request -/

theorem getOrderFrom_some {s : Slab ρ} (hs : SizesOk s) (z : Zone) {n k : ℕ} :
    ∀ m c, getOrderFrom (s.zoneslabs z) n m c = some k → k < slabsizecount ∧ n ≤ blockSize k := by
  intro m
  induction m with
  | zero =>
    intro c h
    cases h
  | succ m ih =>
    intro c h
    unfold getOrderFrom at h
    rw [hs.size] at h
    by_cases hc : c < slabsizecount
    · rw [if_pos hc] at h
      split at h
      · cases h
      · split at h
        · next hle =>
          cases h
          exact ⟨hc, hle⟩
        · exact ih (c + 1) h
    · rw [if_neg hc, if_pos rfl] at h
      cases h

/-- `get_order` sees the size and the header modulo `2^32`. -/
theorem getOrder_size (sizes : ℕ → SizeDescriptor) (size : ℕ) :
    getOrder sizes (size % 2 ^ 32) = getOrder sizes size ∧
      getOrder sizes size = getOrderFrom sizes ((size + memblockHdrSize) % 2 ^ 32) (slabsizecount + 1) 0 := by
  have e : add32 (size % 2 ^ 32) memblockHdrSize = add32 size memblockHdrSize := by
    unfold add32
    omega
  unfold getOrder
  rw [e]
  exact ⟨rfl, rfl⟩

theorem getOrder_some {s : Slab ρ} (hs : SizesOk s) {z : Zone} {size c : ℕ}
    (h : getOrder (s.zoneslabs z) size = some c) :
    c < slabsizecount ∧ (size + memblockHdrSize) % 2 ^ 32 ≤ blockSize c := by
  rw [(getOrder_size _ size).2] at h
  exact getOrderFrom_some hs z _ _ h

theorem getOrder_none {s : Slab ρ} (hs : SizesOk s) {z : Zone} {size : ℕ}
    (h : blockSize 7 < (size + memblockHdrSize) % 2 ^ 32) : getOrder (s.zoneslabs z) size = none := by
  cases e : getOrder (s.zoneslabs z) size with
  | none => rfl
  | some c =>
    obtain ⟨hc, hle⟩ := getOrder_some hs e
    have hsmall := (geometry hc).small
    have h7 : blockSize 7 = 4064 := by decide
    omega

theorem getOrder_exists {s : Slab ρ} (hs : SizesOk s) (z : Zone) {size : ℕ}
    (h : (size + memblockHdrSize) % 2 ^ 32 ≤ blockSize 7) : ∃ c, getOrder (s.zoneslabs z) size = some c := by
  obtain ⟨c, hc, -⟩ := getOrderFrom_spec hs z h 7 0 rfl
  exact ⟨c, (getOrder_size _ size).2.trans hc⟩

/-! ## The follower of a system -/

def LiveBlock.unsized (b : LiveBlock) : LiveBlock := { b with size := 0 }

/-- The slab invariant holds but for the sizes asked for and the flags that decide nothing. -/
def Followed (a : SlabSystem ρ) : Prop :=
  ∃ t chain cls, Follows a.slab t ∧ SlabInv t a.pages (a.live.map LiveBlock.unsized) chain cls

theorem Followed.sizesOk {a : SlabSystem ρ} (h : Followed a) : SizesOk a.slab := by
  obtain ⟨t, chain, cls, hfol, hinv⟩ := h
  constructor
  · intro z c
    rw [hfol.size]
    exact hinv.sizes.size z c
  · intro z c hc
    rw [hfol.nblocks]
    exact hinv.sizes.nblocks z c hc

theorem SlabInv.perm {s : Slab ρ} {pages : List HeldPage} {live live' : List LiveBlock} {chain : ℕ → List ℕ}
    {cls : Zone → ℕ → List ℕ} (h : SlabInv s pages live chain cls) (hperm : live'.Perm live) :
    SlabInv s pages live' chain cls where
  sizes := h.sizes
  placed := h.placed
  distinct := h.distinct
  pageOk pg hpg := (h.pageOk pg hpg).congr rfl (fun _ _ => rfl) ((hperm.filter _).map _)
  liveOk b hb := h.liveOk b (hperm.subset hb)
  classOk z c := (h.classOk z c).congr rfl (fun _ _ => rfl) (fun _ => Iff.rfl) rfl rfl (hperm.map _).sum_eq

theorem map_unsized_erase {live : List LiveBlock} {b : LiveBlock} (hb : b ∈ live) :
    ((live.erase b).map LiveBlock.unsized).Perm ((live.map LiveBlock.unsized).erase b.unsized) := by
  have hleft := (List.perm_cons_erase hb).map LiveBlock.unsized
  have hright := List.perm_cons_erase (List.mem_map_of_mem (f := LiveBlock.unsized) hb)
  rw [List.map_cons] at hleft
  exact (hleft.symm.trans hright).cons_inv

theorem followed_kfree {a : SlabSystem ρ} (h : Followed a) {b : LiveBlock} (hb : b ∈ a.live) {s' : Slab ρ}
    (hrun : kfree b.ptr a.slab = .ok () s') : Followed ⟨s', a.pages, a.live.erase b⟩ := by
  obtain ⟨t, chain, cls, hfol, hinv⟩ := h
  obtain ⟨t', chain', cls', hrun', hinv', -⟩ := hinv.give (List.mem_map_of_mem (f := LiveBlock.unsized) hb)
  have hlock := kfree_lockstep hfol b.ptr
  rw [show kfree b.ptr t = .ok () t' from hrun', hrun] at hlock
  obtain ⟨u, hu, hfol'⟩ := hlock.left_ok
  rw [← (Outcome.ok.inj hu).2] at hfol'
  exact ⟨t', chain', cls', hfol', hinv'.perm (map_unsized_erase hb)⟩

theorem Followed.kfree_returns {a : SlabSystem ρ} (h : Followed a) {b : LiveBlock} (hb : b ∈ a.live) :
    ∃ s', kfree b.ptr a.slab = .ok () s' := by
  obtain ⟨t, chain, cls, hfol, hinv⟩ := h
  obtain ⟨t', chain', cls', hrun, -⟩ := hinv.give (List.mem_map_of_mem (f := LiveBlock.unsized) hb)
  have hlock := kfree_lockstep hfol b.ptr
  rw [show kfree b.ptr t = .ok () t' from hrun] at hlock
  obtain ⟨s', hs', -⟩ := hlock.left_ok
  exact ⟨s', hs'⟩

/-- The first page of a class gives a block to a request of any size. -/
theorem followed_take {s t : Slab ρ} {pages : List HeldPage} {live : List LiveBlock} {chain : ℕ → List ℕ}
    {cls : Zone → ℕ → List ℕ} (hfol : Follows s t) (hinv : SlabInv t pages live chain cls) {flags c : ℕ}
    (hdma : flags &&& gfpDma32 = 0) (hc : c < slabsizecount) (size : ℕ)
    (hpos : (s.zoneslabs (zoneOfFlags flags) c).firstfree ≠ 0) :
    ∃ x s' t' chain' cls', kmallocFromPage (zoneOfFlags flags) c size flags
        (s.zoneslabs (zoneOfFlags flags) c).firstfree s = .ok (x + memblockHdrSize) s' ∧ Follows s' t' ∧
      SlabInv t' pages (⟨x, 0, zoneOfFlags flags, c⟩ :: live) chain' cls' := by
  obtain ⟨z, hz⟩ : ∃ z, zoneOfFlags flags = z := ⟨_, rfl⟩
  rw [hz, hfol.firstfree] at hpos ⊢
  have hroom := (geometry hc).room
  obtain ⟨t', x, chain', cls', hrun, hinv'⟩ := hinv.take (z := z) (c := c) rfl hpos
    (by unfold memblockHdrSize; omega : 0 + memblockHdrSize ≤ blockSize c)
  have hbits : flags.testBit 0 = (zoneGfp z).testBit 0 ∧ flags.testBit 1 = (zoneGfp z).testBit 1 := by
    have h1 : flags.testBit 1 = false := by
      by_contra hne
      exact and_gfpDma32.mpr (by simpa using hne) hdma
    rw [zoneOfFlags_eq] at hz
    rw [h1]
    cases h0 : flags.testBit 0 with
    | true =>
      rw [h0, if_pos rfl] at hz
      rw [← hz]
      decide
    | false =>
      rw [h0, if_neg (by decide)] at hz
      rw [← hz]
      decide
  have hlock := kmallocFromPage_lockstep hfol z c (t.zoneslabs z c).firstfree size 0 hbits.1 hbits.2
  rw [hrun] at hlock
  obtain ⟨s', hs', hfol'⟩ := hlock.left_ok
  exact ⟨x, s', t', chain', cls', hs', hfol', hinv'⟩

/-- A page source that has `page` ready, in the state `v`. -/
def readyPage (page : ℕ) (v : Slab ρ) (_flags : ℕ) : Prog (Slab ρ) ℕ := fun _ => .ok page v

theorem readyPage_run (page : ℕ) (v t : Slab ρ) : readyPage page v 0 t = .ok page v := rfl

/-- A class gets a new page, whatever the flags. -/
theorem followed_grow {pageAllocPage : ℕ → Prog (Slab ρ) ℕ} {s t u : Slab ρ} {pages : List HeldPage}
    {live : List LiveBlock} {chain : ℕ → List ℕ} {cls : Zone → ℕ → List ℕ} (hfol : Follows s t)
    (hinv : SlabInv t pages live chain cls) {flags page c : ℕ} (hsrc : pageAllocPage flags s = .ok page u)
    (hf : FreshPage s pages page u) {z : Zone} (hz : z = .NORMAL ∨ z = .DMA16) (hc : c < slabsizecount) :
    ∃ s' t' chain' cls', kmallocNewPage pageAllocPage z c flags s = .ok () s' ∧ Follows s' t' ∧
      (s'.zoneslabs z c).firstfree = page ∧ SlabInv t' (⟨page, z, c⟩ :: pages) live chain' cls' := by
  obtain ⟨v, hv⟩ : ∃ v : Slab ρ, v = { t with
    pageHdr := fun x => if pagealignDown x = page then ⟨0, 0, 0, 0⟩ else t.pageHdr x
    blockHdr := fun x => if pagealignDown x = page then ⟨0, 0⟩ else t.blockHdr x } := ⟨_, rfl⟩
  have hvf : FreshPage t pages page v := by
    rw [hv]
    refine ⟨hf.aligned, hf.pos, hf.below, hf.apart, rfl, ?_, ?_, ?_⟩
    · intro x hx
      exact if_neg hx
    · intro x hx
      exact if_neg hx
    · intro x hx
      exact ⟨if_pos hx, if_pos hx⟩
  have hblock : ∀ x, (u.blockHdr x = v.blockHdr x) ∨ u.blockHdr x = s.blockHdr x ∧ v.blockHdr x = t.blockHdr x := by
    intro x
    by_cases hx : pagealignDown x = page
    · left
      rw [(hf.zero x hx).1, (hvf.zero x hx).1]
    · right
      exact ⟨hf.blockHdr x hx, hvf.blockHdr x hx⟩
  have huv : Follows u v := by
    refine ⟨?_, ?_, ?_, ?_, ?_, ?_⟩
    · funext x
      by_cases hx : pagealignDown x = page
      · rw [(hf.zero x hx).2, (hvf.zero x hx).2]
      · rw [hf.pageHdr x hx, hvf.pageHdr x hx, hfol.pageHdr]
    · rw [hf.zoneslabs, hvf.zoneslabs]
      exact hfol.firstfree
    · rw [hf.zoneslabs, hvf.zoneslabs]
      exact hfol.size
    · rw [hf.zoneslabs, hvf.zoneslabs]
      exact hfol.nblocks
    · intro x
      rcases hblock x with e | ⟨e, e'⟩
      · rw [e]
        exact ⟨rfl, rfl, rfl⟩
      · rw [e, e']
        exact hfol.flags x
    · intro x
      rcases hblock x with e | ⟨e, e'⟩
      · rw [e]
        exact fun _ => rfl
      · rw [e, e']
        exact hfol.next x
  obtain ⟨t', chain', cls', hrun, hff, hinv'⟩ := hinv.grow (readyPage_run page v t) hvf hz hc
  have hlock := kmallocNewPage_lockstep huv z c page
  rw [← kmallocNewPage_source hsrc, ← kmallocNewPage_source (readyPage_run page v t), hrun] at hlock
  obtain ⟨s', hs', hfol'⟩ := hlock.left_ok
  exact ⟨s', t', chain', cls', hs', hfol', (hfol'.firstfree z c).trans hff, hinv'⟩

/-! ## Any request -/

section Source
variable {pageAllocPage : ℕ → Prog (Slab ρ) ℕ}

/-- The pointer `kmalloc` returned is right behind the header of a block of its class. -/
def FromClass (a : SlabSystem ρ) (x c : ℕ) : Prop := ∃ pg ∈ a.pages, pg.order = c ∧ x ∈ pg.blocks

/-- A request for which there is a class is served, or no page could be had. -/
theorem followed_kmalloc {a : SlabSystem ρ} (h : Followed a) {size flags c : ℕ} (hdma : flags &&& gfpDma32 = 0)
    (horder : getOrder (a.slab.zoneslabs (zoneOfFlags flags)) size = some c)
    (hfresh : a.Supplied pageAllocPage flags) :
    (∃ x s', kmalloc pageAllocPage size flags a.slab = .ok (x + memblockHdrSize) s' ∧
      Followed (a.afterKmalloc pageAllocPage size flags (x + memblockHdrSize) s') ∧
      FromClass (a.afterKmalloc pageAllocPage size flags (x + memblockHdrSize) s') x c) ∨
    (∃ m t, kmalloc pageAllocPage size flags a.slab = .panic m t ∧ pageAllocPage flags a.slab = .panic m t) ∨
    kmalloc pageAllocPage size flags a.slab = .stuck ∧ pageAllocPage flags a.slab = .stuck := by
  have hc := (getOrder_some h.sizesOk horder).1
  obtain ⟨t, chain, cls, hfol, hinv⟩ := h
  have hzone : zoneOfFlags flags = .NORMAL ∨ zoneOfFlags flags = .DMA16 := by
    rw [zoneOfFlags_eq]
    split
    · exact Or.inr rfl
    · exact Or.inl rfl
  have heq : kmalloc pageAllocPage size flags a.slab =
      kmallocTries pageAllocPage (zoneOfFlags flags) c size flags maxGetFreePageTries a.slab := by
    unfold kmalloc
    rw [if_neg (not_not.mpr hdma), Prog.bind_run, Prog.get_run, Outcome.andThen_ok]
    simp only [(getOrder_size _ size).1, horder]
  -- a live block of the follower, and where it is
  have hserved : ∀ {x : ℕ} {pages : List HeldPage} {s' t' : Slab ρ} {chain' : ℕ → List ℕ} {cls' : Zone → ℕ → List ℕ},
      Follows s' t' → SlabInv t' pages (⟨x, 0, zoneOfFlags flags, c⟩ :: a.live.map LiveBlock.unsized) chain' cls' →
      Followed ⟨s', pages, ⟨x, size, zoneOfFlags flags, c⟩ :: a.live⟩ ∧
        FromClass ⟨s', pages, ⟨x, size, zoneOfFlags flags, c⟩ :: a.live⟩ x c := by
    intro x pages s' t' chain' cls' hf hi
    refine ⟨⟨t', chain', cls', hf, hi⟩, ?_⟩
    obtain ⟨pg, hpg, -, ho, -, -, hblk⟩ := hi.live_mem List.mem_cons_self
    exact ⟨pg, hpg, ho, hblk⟩
  rw [heq]
  unfold SlabSystem.afterKmalloc
  simp only [horder, Option.getD_some, Nat.add_sub_cancel]
  unfold maxGetFreePageTries kmallocTries
  rw [Prog.bind_run, Prog.get_run, Outcome.andThen_ok]
  by_cases hfirst : (a.slab.zoneslabs (zoneOfFlags flags) c).firstfree = 0
  · rw [if_neg (not_not.mpr hfirst), Prog.bind_run, if_pos hfirst]
    cases hsrc : pageAllocPage flags a.slab with
    | ok page u =>
      left
      have hf := hfresh page u hsrc
      obtain ⟨s₁, t₁, chain₁, cls₁, hrun₁, hfol₁, hff, hinv₁⟩ := followed_grow hfol hinv hsrc hf hzone hc
      have hpos : page ≠ 0 := hf.pos.ne'
      obtain ⟨x, s', t', chain', cls', hrun, hfol', hinv'⟩ := followed_take hfol₁ hinv₁ hdma hc size (hff ▸ hpos)
      refine ⟨x, s', ?_, hserved hfol' hinv'⟩
      rw [hrun₁, Outcome.andThen_ok]
      unfold kmallocTries
      rw [Prog.bind_run, Prog.get_run, Outcome.andThen_ok, if_pos (hff ▸ hpos)]
      exact hrun
    | panic m u =>
      right
      left
      refine ⟨m, u, ?_, rfl⟩
      unfold kmallocNewPage
      rw [Prog.bind_run, hsrc, Outcome.andThen_panic, Outcome.andThen_panic]
    | stuck =>
      right
      right
      refine ⟨?_, rfl⟩
      unfold kmallocNewPage
      rw [Prog.bind_run, hsrc, Outcome.andThen_stuck, Outcome.andThen_stuck]
  · left
    obtain ⟨x, s', t', chain', cls', hrun, hfol', hinv'⟩ := followed_take hfol hinv hdma hc size hfirst
    rw [if_pos hfirst, if_neg hfirst]
    exact ⟨x, s', hrun, hserved hfol' hinv'⟩

/-- Requests for which there is no class, and those for `DMA32` memory, end in a panic. -/
theorem kmalloc_refused (pageAllocPage : ℕ → Prog (Slab ρ) ℕ) {a : SlabSystem ρ} (size flags : ℕ)
    (h : flags &&& gfpDma32 ≠ 0 ∨
    getOrder (a.slab.zoneslabs (zoneOfFlags flags)) size = none) :
    ∃ m, kmalloc pageAllocPage size flags a.slab = .panic m a.slab := by
  unfold kmalloc
  by_cases hdma : flags &&& gfpDma32 ≠ 0
  · rw [if_pos hdma]
    exact ⟨_, rfl⟩
  · rw [if_neg hdma, Prog.bind_run, Prog.get_run, Outcome.andThen_ok]
    simp only [(getOrder_size _ size).1, h.resolve_left hdma]
    exact ⟨_, rfl⟩

/-- What a call of `kmalloc` that returned has done. -/
theorem followed_ok {a : SlabSystem ρ} (h : Followed a) {size flags ptr : ℕ} {s' : Slab ρ}
    (hfresh : a.Supplied pageAllocPage flags) (hrun : kmalloc pageAllocPage size flags a.slab = .ok ptr s') :
    Followed (a.afterKmalloc pageAllocPage size flags ptr s') ∧ memblockHdrSize ≤ ptr ∧
      ∃ c, getOrder (a.slab.zoneslabs (zoneOfFlags flags)) size = some c := by
  have hdma : flags &&& gfpDma32 = 0 := by
    by_contra hne
    obtain ⟨m, hp⟩ := kmalloc_refused pageAllocPage (a := a) size flags (Or.inl hne)
    rw [hrun] at hp
    cases hp
  cases horder : getOrder (a.slab.zoneslabs (zoneOfFlags flags)) size with
  | none =>
    obtain ⟨m, hp⟩ := kmalloc_refused pageAllocPage (a := a) size flags (Or.inr horder)
    rw [hrun] at hp
    cases hp
  | some c =>
    rcases followed_kmalloc h hdma horder hfresh with ⟨x, t, hrun', hfol, -⟩ | ⟨m, t, hp, -⟩ | ⟨hst, -⟩
    · rw [hrun] at hrun'
      obtain ⟨rfl, rfl⟩ := Outcome.ok.inj hrun'
      exact ⟨hfol, Nat.le_add_left _ _, c, rfl⟩
    · rw [hrun] at hp
      cases hp
    · rw [hrun] at hst
      cases hst

variable (pageAllocPage)

/-- Calls of `kmalloc` with any size and any flags, and of `kfree` with live pointers. -/
inductive RequestStep (a : SlabSystem ρ) : SlabSystem ρ → Prop
  | kmalloc (size flags ptr : ℕ) (s' : Slab ρ) (hfresh : a.Supplied pageAllocPage flags)
      (h : kmalloc pageAllocPage size flags a.slab = .ok ptr s') :
      RequestStep a (a.afterKmalloc pageAllocPage size flags ptr s')
  | kfree (b : LiveBlock) (s' : Slab ρ) (hb : b ∈ a.live) (h : kfree b.ptr a.slab = .ok () s') :
      RequestStep a ⟨s', a.pages, a.live.erase b⟩

def RequestRun : SlabSystem ρ → SlabSystem ρ → Prop := Relation.ReflTransGen (RequestStep pageAllocPage)

variable {pageAllocPage}

theorem RequestStep.followed {a b : SlabSystem ρ} (hstep : RequestStep pageAllocPage a b) (h : Followed a) :
    Followed b := by
  cases hstep with
  | kmalloc size flags ptr s' hfresh hrun => exact (followed_ok h hfresh hrun).1
  | kfree b s' hb hrun => exact followed_kfree h hb hrun

theorem RequestRun.followed {a b : SlabSystem ρ} (hrun : RequestRun pageAllocPage a b) (h : Followed a) :
    Followed b := by
  induction hrun with
  | refl => exact h
  | tail _ hstep ih => exact hstep.followed ih

/-! ## Is the block large enough? -/

/-- `ptr` is right behind the header of a block that has `size` bytes from there on. -/
def HasRoom (pages : List HeldPage) (ptr size : ℕ) : Prop :=
  ∃ pg ∈ pages, ∃ x ∈ pg.blocks, ptr = x + memblockHdrSize ∧ ptr + size ≤ x + blockSize pg.order ∧
    ptr + size ≤ pg.addr + pagesize ∧ ∀ y ∈ pg.blocks, y ≠ x → y + memblockHdrSize ≤ ptr ∨ ptr + size ≤ y

variable (pageAllocPage) in
/-- What `kmalloc(size, flags)` does now is right. -/
def Adequate (a : SlabSystem ρ) (size flags : ℕ) : Prop :=
  match kmalloc pageAllocPage size flags a.slab with
  | .ok ptr s' => HasRoom (a.afterKmalloc pageAllocPage size flags ptr s').pages ptr size
  | .panic _ _ => True
  | .stuck => pageAllocPage flags a.slab = .stuck

theorem Followed.hasRoom {a : SlabSystem ρ} (h : Followed a) {x c size : ℕ} (hx : FromClass a x c)
    (hsize : size + memblockHdrSize ≤ blockSize c) : HasRoom a.pages (x + memblockHdrSize) size := by
  obtain ⟨t, chain, cls, -, hinv⟩ := h
  obtain ⟨pg, hpg, rfl, hblk⟩ := hx
  have hin := (hinv.placed pg hpg).inside hblk
  refine ⟨pg, hpg, x, hblk, rfl, by omega, by omega, ?_⟩
  intro y hy hne
  have hroom := (geometry (hinv.placed pg hpg).order).room
  rcases Nat.lt_or_gt_of_ne hne with hlt | hgt
  · have hs := HeldPage.spaced hy hblk hlt
    left
    unfold memblockHdrSize
    omega
  · have hs := HeldPage.spaced hblk hy hgt
    right
    omega

/-- No class has a block of four gigabytes. -/
theorem Followed.not_hasRoom {a : SlabSystem ρ} (h : Followed a) {ptr size : ℕ}
    (hsize : 2 ^ 32 ≤ size + memblockHdrSize) : ¬HasRoom a.pages ptr size := by
  intro hroom
  obtain ⟨t, chain, cls, -, hinv⟩ := h
  obtain ⟨pg, hpg, x, -, hptr, hend, -⟩ := hroom
  have hsmall := (geometry (hinv.placed pg hpg).order).small
  omega

theorem followed_init {s₀ s : Slab ρ} (hzero : ∀ z c, s₀.zoneslabs z c = noSizes) (hinit : kmallocInit s₀ = .ok () s) :
    Followed (⟨s, [], []⟩ : SlabSystem ρ) := by
  obtain ⟨s', hinit', -, hinv⟩ := kmallocInit_spec hzero
  rw [hinit] at hinit'
  rw [← (Outcome.ok.inj hinit').2] at hinv
  exact ⟨s, _, _, ⟨rfl, fun _ _ => rfl, fun _ _ => rfl, fun _ _ => rfl, fun _ => ⟨rfl, rfl, rfl⟩, fun _ _ => rfl⟩, hinv⟩

theorem adequate_of_lt {a : SlabSystem ρ} (h : Followed a) {size flags : ℕ} (hfresh : a.Supplied pageAllocPage flags)
    (hsize : size + memblockHdrSize < 2 ^ 32) : Adequate pageAllocPage a size flags := by
  unfold Adequate
  by_cases hrefused : flags &&& gfpDma32 ≠ 0 ∨ getOrder (a.slab.zoneslabs (zoneOfFlags flags)) size = none
  · obtain ⟨m, hp⟩ := kmalloc_refused pageAllocPage size flags hrefused
    rw [hp]
    trivial
  · push Not at hrefused
    obtain ⟨c, hc⟩ := Option.ne_none_iff_exists'.mp hrefused.2
    rcases followed_kmalloc h hrefused.1 hc hfresh with ⟨x, s', hrun, hfol, hx⟩ | ⟨m, t, hp, -⟩ | ⟨hst, hsrc⟩
    · rw [hrun]
      have hle := (getOrder_some h.sizesOk hc).2
      rw [Nat.mod_eq_of_lt hsize] at hle
      exact hfol.hasRoom hx hle
    · rw [hp]
      trivial
    · rw [hst]
      exact hsrc

theorem not_adequate {a : SlabSystem ρ} (h : Followed a) {size flags : ℕ} (hdma : flags &&& gfpDma32 = 0)
    (hmod : (size + memblockHdrSize) % 2 ^ 32 ≤ blockSize 7) (hsize : 2 ^ 32 ≤ size + memblockHdrSize)
    (hfresh : a.Supplied pageAllocPage flags) {page : ℕ} {u : Slab ρ} (hsrc : pageAllocPage flags a.slab = .ok page u) :
    ¬Adequate pageAllocPage a size flags := by
  obtain ⟨c, hc⟩ := getOrder_exists h.sizesOk (zoneOfFlags flags) hmod
  rcases followed_kmalloc h hdma hc hfresh with ⟨x, s', hrun, hfol, -⟩ | ⟨m, t, -, hp⟩ | ⟨-, hst⟩
  · intro had
    unfold Adequate at had
    rw [hrun] at had
    exact hfol.not_hasRoom hsize had
  · rw [hsrc] at hp
    cases hp
  · rw [hsrc] at hst
    cases hst

end Source

/-- Whatever was requested and freed before, `kmalloc(size, flags)` returns a block with room for `size`
bytes or panics. -/
def KmallocAdequate (size flags : ℕ) : Prop :=
  ∀ (ρ : Type) (pageAllocPage : ℕ → Prog (Slab ρ) ℕ) (s₀ s : Slab ρ) (a : SlabSystem ρ),
    (∀ z c, s₀.zoneslabs z c = noSizes) → kmallocInit s₀ = .ok () s → RequestRun pageAllocPage ⟨s, [], []⟩ a →
    a.Supplied pageAllocPage flags → Adequate pageAllocPage a size flags

/-- The first request after `kmalloc_init` gets a page that is not held. -/
theorem supplied_nextPage {s : Slab ℕ} (hpage : s.phys = 0x10000) (flags : ℕ) :
    SlabSystem.Supplied nextPage ⟨s, [], []⟩ flags := by
  apply SlabSystem.NextFree.supplied
  unfold SlabSystem.NextFree
  rw [hpage]
  exact ⟨by decide, by decide, by decide, List.forall_mem_nil _⟩

theorem not_kmallocAdequate {size flags : ℕ} (hdma : flags &&& gfpDma32 = 0)
    (hmod : (size + memblockHdrSize) % 2 ^ 32 ≤ blockSize 7) (hsize : 2 ^ 32 ≤ size + memblockHdrSize) :
    ¬KmallocAdequate size flags := by
  intro h
  obtain ⟨s, hs, hphys, -⟩ := kmallocInit_spec (s := emptySlab) fun _ _ => rfl
  have hfresh := supplied_nextPage hphys flags
  have hfol := followed_init (fun _ _ => rfl) hs
  exact not_adequate hfol hdma hmod hsize hfresh rfl
    (h ℕ nextPage emptySlab s ⟨s, [], []⟩ (fun _ _ => rfl) hs Relation.ReflTransGen.refl hfresh)

/-- **Adequacy of `kmalloc`.** The block is large enough, or `kmalloc` panics, for exactly those requests
whose size and header together do not wrap around in 32 bits or wrap around to a size no class has. -/
theorem kmalloc_adequate_iff (size flags : ℕ) : KmallocAdequate size flags ↔
    size + memblockHdrSize < 2 ^ 32 ∨ blockSize 7 < (size + memblockHdrSize) % 2 ^ 32 ∨ flags &&& gfpDma32 ≠ 0 := by
  constructor
  · intro h
    by_contra hc
    push Not at hc
    exact not_kmallocAdequate hc.2.2 hc.2.1 hc.1 h
  · intro hcond ρ pageAllocPage s₀ s a hzero hinit hrun hfresh
    have hfol := hrun.followed (followed_init hzero hinit)
    have hrefused : ∀ m, kmalloc pageAllocPage size flags a.slab = .panic m a.slab →
        Adequate pageAllocPage a size flags := by
      intro m hp
      unfold Adequate
      rw [hp]
      trivial
    rcases hcond with hlt | hlarge | hdma
    · exact adequate_of_lt hfol hfresh hlt
    · obtain ⟨m, hp⟩ := kmalloc_refused pageAllocPage size flags (Or.inr (getOrder_none hfol.sizesOk hlarge))
      exact hrefused m hp
    · obtain ⟨m, hp⟩ := kmalloc_refused pageAllocPage (a := a) size flags (Or.inl hdma)
      exact hrefused m hp

/-- There is no class for a request of more than `maxKmalloc` bytes. -/
theorem kmalloc_large (pageAllocPage : ℕ → Prog (Slab ρ) ℕ) {a : SlabSystem ρ} (h : Followed a) {size : ℕ} (flags : ℕ)
    (hlarge : maxKmalloc < size) (hlt : size + 16 < 2 ^ 32) :
    ∃ m, kmalloc pageAllocPage size flags a.slab = .panic m a.slab := by
  apply kmalloc_refused pageAllocPage size flags
  right
  apply getOrder_none h.sizesOk
  have hheader : memblockHdrSize = 16 := rfl
  have hblock : blockSize 7 = 4064 := by decide
  rw [hheader, hblock, Nat.mod_eq_of_lt hlt]
  unfold maxKmalloc at hlarge
  omega

/-- The slab allocator serves requests as its callers rely on. -/
def Followed.service {a : SlabSystem ρ} (h : Followed a) (pageAllocPage : ℕ → Prog (Slab ρ) ℕ) (flags : ℕ) :
    KmallocService where
  result n :=
    match kmalloc pageAllocPage n flags a.slab with
    | .ok p _ => if p = 0 then .null else .block
    | _ => .panic
  large n hlarge hlt := by
    obtain ⟨m, hp⟩ := kmalloc_large pageAllocPage h flags hlarge hlt
    rw [hp]

/-- Four gigabytes are served from the smallest class. -/
theorem four_gigabytes_not_adequate : ¬KmallocAdequate (2 ^ 32) 0 := by
  apply not_kmallocAdequate
  · decide
  · decide
  · decide

end Borgos.Mem
