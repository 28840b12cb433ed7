import Borgos.Mem.SlabInv

/-! # What the parts of `kmalloc` and `kfree` do

Each part as one assignment to the headers it touches, then what it does to the invariant.
-/
namespace Borgos.Mem
open Borgos.Foundations
set_option autoImplicit false

variable {ρ : Type}

/-! ## Assignments -/

namespace Slab
variable (s : Slab ρ)

@[simp] theorem setSizes_pageHdr (z : Zone) (c : ℕ) (f : SizeDescriptor → SizeDescriptor) :
    (s.setSizes z c f).pageHdr = s.pageHdr := rfl

@[simp] theorem setSizes_blockHdr (z : Zone) (c : ℕ) (f : SizeDescriptor → SizeDescriptor) :
    (s.setSizes z c f).blockHdr = s.blockHdr := rfl

@[simp] theorem setPageHdr_zoneslabs (page : ℕ) (f : PageHdr → PageHdr) :
    (s.setPageHdr page f).zoneslabs = s.zoneslabs := rfl

@[simp] theorem setPageHdr_blockHdr (page : ℕ) (f : PageHdr → PageHdr) :
    (s.setPageHdr page f).blockHdr = s.blockHdr := rfl

@[simp] theorem setPageHdr_pageHdr (page : ℕ) (f : PageHdr → PageHdr) :
    (s.setPageHdr page f).pageHdr = Function.update s.pageHdr page (f (s.pageHdr page)) := rfl

@[simp] theorem setBlockHdr_zoneslabs (block : ℕ) (f : MemblockHdr → MemblockHdr) :
    (s.setBlockHdr block f).zoneslabs = s.zoneslabs := rfl

@[simp] theorem setBlockHdr_pageHdr (block : ℕ) (f : MemblockHdr → MemblockHdr) :
    (s.setBlockHdr block f).pageHdr = s.pageHdr := rfl

@[simp] theorem setBlockHdr_blockHdr (block : ℕ) (f : MemblockHdr → MemblockHdr) :
    (s.setBlockHdr block f).blockHdr = Function.update s.blockHdr block (f (s.blockHdr block)) := rfl

theorem setSizes_get (z z' : Zone) (c c' : ℕ) (f : SizeDescriptor → SizeDescriptor) :
    (s.setSizes z c f).zoneslabs z' c' = if z' = z ∧ c' = c then f (s.zoneslabs z c) else s.zoneslabs z' c' := by
  unfold setSizes
  by_cases hz : z' = z
  · subst hz
    by_cases hc : c' = c
    · subst hc
      simp
    · simp [hc]
  · simp [hz]

theorem setSizes_setSizes (z : Zone) (c : ℕ) (f g : SizeDescriptor → SizeDescriptor) :
    (s.setSizes z c f).setSizes z c g = s.setSizes z c fun d => g (f d) := by
  unfold setSizes
  congr 1
  funext z'
  by_cases hz : z' = z
  · simp [hz]
  · simp [hz]

theorem setPageHdr_setPageHdr (page : ℕ) (f g : PageHdr → PageHdr) :
    (s.setPageHdr page f).setPageHdr page g = s.setPageHdr page fun h => g (f h) := by
  unfold setPageHdr
  simp

theorem setBlockHdr_setBlockHdr (block : ℕ) (f g : MemblockHdr → MemblockHdr) :
    (s.setBlockHdr block f).setBlockHdr block g = s.setBlockHdr block fun b => g (f b) := by
  unfold setBlockHdr
  simp

end Slab

/-- The part of a size descriptor that the invariant speaks about. -/
structure Ledger where
  firstfree : ℕ
  size : ℕ
  nblocks : ℕ
  nbytesmalloced : ℕ
  ntotal : ℕ
  nfree : ℕ

def SizeDescriptor.ledger (d : SizeDescriptor) : Ledger :=
  ⟨d.firstfree, d.size, d.nblocks, d.nbytesmalloced, d.ntotal, d.nfree⟩

/-- `s'` is `s` with one page header and the descriptor of one class replaced, and the block headers
`blocks`. -/
structure Assigned (s s' : Slab ρ) (z : Zone) (c page : ℕ) (h : PageHdr) (d : Ledger)
    (blocks : ℕ → MemblockHdr) : Prop where
  pageHdr : s'.pageHdr = Function.update s.pageHdr page h
  blockHdr : s'.blockHdr = blocks
  sizes : ∀ z' c', (s'.zoneslabs z' c').ledger = if z' = z ∧ c' = c then d else (s.zoneslabs z' c').ledger

/-! ## The parts as assignments -/

theorem kmallocUnlinkFull_run (s : Slab ρ) (z : Zone) (c page : ℕ) : kmallocUnlinkFull z c page s = .ok ()
    (if (s.pageHdr page).nfree = 0 then
      (s.setSizes z c fun d => { d with firstfree := (s.pageHdr page).next }).setPageHdr page
        fun h => { h with next := 0 }
    else s) := by
  unfold kmallocUnlinkFull
  rw [Prog.bind_run, Prog.get_run, Outcome.andThen_ok]
  split
  · rw [Prog.bind_run, Prog.modify_run, Outcome.andThen_ok, Prog.modify_run]
  · rw [Prog.pure_run]

theorem kmallocFromPage_run {s : Slab ρ} (z : Zone) (c size flags page : ℕ) {block n : ℕ}
    (hblock : (s.pageHdr page).firstfree = block) (hfree : (s.blockHdr block).flags &&& memblockFree ≠ 0)
    (hn : (s.pageHdr page).nfree = n + 1) (hsmall : n + 1 < 2 ^ 16) :
    ∃ s', kmallocFromPage z c size flags page s = .ok ((block + memblockHdrSize) % wordSize) s' ∧
      Assigned s s' z c page
        ⟨if n = 0 then 0 else (s.pageHdr page).next, (s.blockHdr block).next, (s.pageHdr page).order, n⟩
        { (s.zoneslabs z c).ledger with
          firstfree := if n = 0 then (s.pageHdr page).next else (s.zoneslabs z c).firstfree
          nbytesmalloced := add32 (s.zoneslabs z c).nbytesmalloced size
          nfree := sub32 (s.zoneslabs z c).nfree 1 }
        (Function.update s.blockHdr block (MemblockHdr.setSize
          ⟨((s.blockHdr block).flags ||| flags) &&& notMemblockFree, (s.blockHdr block).bh⟩ size)) := by
  have hdec : dec16 (s.pageHdr page).nfree = n := by
    unfold dec16
    omega
  obtain ⟨t, ht⟩ : ∃ t, t = s.setPageHdr page fun h =>
      ⟨h.next, (s.blockHdr block).next, h.order, dec16 h.nfree⟩ := ⟨_, rfl⟩
  have htpage : t.pageHdr page = ⟨(s.pageHdr page).next, (s.blockHdr block).next, (s.pageHdr page).order, n⟩ := by
    rw [ht, Slab.setPageHdr_pageHdr, Function.update_self, hdec]
  have htzero : (t.pageHdr page).nfree = n := by rw [htpage]
  have htnext : (t.pageHdr page).next = (s.pageHdr page).next := by rw [htpage]
  obtain ⟨u, hu⟩ : ∃ u, u = (if (t.pageHdr page).nfree = 0 then
      (t.setSizes z c fun d => { d with firstfree := (t.pageHdr page).next }).setPageHdr page
        fun h => { h with next := 0 }
    else t) := ⟨_, rfl⟩
  rw [htzero, htnext] at hu
  have hupage : u.pageHdr = Function.update s.pageHdr page
      ⟨if n = 0 then 0 else (s.pageHdr page).next, (s.blockHdr block).next, (s.pageHdr page).order, n⟩ := by
    rw [hu]
    split
    · rw [Slab.setPageHdr_pageHdr, Slab.setSizes_pageHdr, htpage, ht, Slab.setPageHdr_pageHdr,
        Function.update_idem]
    · rw [← htpage, ht, Slab.setPageHdr_pageHdr, Function.update_self]
  have husizes : ∀ z' c', (u.zoneslabs z' c').ledger = if z' = z ∧ c' = c then { (s.zoneslabs z c).ledger with
      firstfree := if n = 0 then (s.pageHdr page).next else (s.zoneslabs z c).firstfree }
      else (s.zoneslabs z' c').ledger := by
    intro z' c'
    rw [hu]
    split
    · rw [Slab.setPageHdr_zoneslabs, Slab.setSizes_get, ht, Slab.setPageHdr_zoneslabs]
      split
      · rfl
      · rfl
    · rw [ht, Slab.setPageHdr_zoneslabs]
      split
      · next e =>
        rw [e.1, e.2]
        rfl
      · rfl
  have hublock : u.blockHdr = s.blockHdr := by
    rw [hu]
    split
    · rw [Slab.setPageHdr_blockHdr, Slab.setSizes_blockHdr, ht, Slab.setPageHdr_blockHdr]
    · rw [ht, Slab.setPageHdr_blockHdr]
  obtain ⟨G, hG⟩ : ∃ G : SizeDescriptor → SizeDescriptor, G = fun d => { d with
      nmallocs := add32 d.nmallocs 1
      nbytesmalloced := add32 d.nbytesmalloced size
      nfree := sub32 d.nfree 1 } := ⟨_, rfl⟩
  obtain ⟨v, hv⟩ : ∃ v, v = (u.setSizes z c G).setBlockHdr block fun b =>
        (MemblockHdr.mk ((b.flags ||| flags) &&& notMemblockFree) b.bh).setSize size := ⟨_, rfl⟩
  refine ⟨v, ?_, ?_, ?_, ?_⟩
  · unfold kmallocFromPage
    rw [Prog.bind_run, Prog.get_run, Outcome.andThen_ok, hblock, if_pos hfree, Prog.bind_run, Prog.modify_run,
      Outcome.andThen_ok, Prog.bind_run, Prog.modify_run, Outcome.andThen_ok, Slab.setPageHdr_setPageHdr, ← ht,
      Prog.bind_run, kmallocUnlinkFull_run, Outcome.andThen_ok, htzero, htnext, ← hu, Prog.bind_run,
      Prog.modify_run, Outcome.andThen_ok, Prog.bind_run, Prog.modify_run, Outcome.andThen_ok, Prog.bind_run,
      Prog.modify_run, Outcome.andThen_ok, Slab.setSizes_setSizes, Slab.setSizes_setSizes, ← hG, Prog.bind_run,
      Prog.modify_run, Outcome.andThen_ok, Prog.bind_run, Prog.modify_run, Outcome.andThen_ok,
      Slab.setBlockHdr_setBlockHdr, Prog.pure_run, hv]
  · rw [hv, Slab.setBlockHdr_pageHdr, Slab.setSizes_pageHdr]
    exact hupage
  · rw [hv, Slab.setBlockHdr_blockHdr, Slab.setSizes_blockHdr, hublock]
  · intro z' c'
    rw [hv, Slab.setBlockHdr_zoneslabs, Slab.setSizes_get]
    have hd := husizes z c
    rw [if_pos ⟨rfl, rfl⟩] at hd
    split
    · rw [hG]
      simp only [SizeDescriptor.ledger, Ledger.mk.injEq] at hd ⊢
      refine ⟨hd.1, hd.2.1, hd.2.2.1, ?_, hd.2.2.2.2.1, ?_⟩
      · rw [hd.2.2.2.1]
      · rw [hd.2.2.2.2.2]
    · next e => rw [husizes, if_neg e]

/-- The loop over the blocks of a new page, `n` of them from `p` on. -/
theorem kmallocInitBlocks_spec {bs : ℕ} (hbs : 0 < bs) : ∀ (n p : ℕ) (s : Slab ρ), p + n * bs < wordSize →
    ∃ s', kmallocInitBlocks bs n p s = .ok (p + n * bs) s' ∧ s'.pageHdr = s.pageHdr ∧
      s'.zoneslabs = s.zoneslabs ∧
      (∀ i < n, s'.blockHdr (p + i * bs) = ⟨(s.blockHdr (p + i * bs)).flags ||| memblockFree, p + (i + 1) * bs⟩) ∧
      ∀ x, (∀ i < n, x ≠ p + i * bs) → s'.blockHdr x = s.blockHdr x
  | 0, p, s, _ => by
    refine ⟨s, ?_, rfl, rfl, fun i hi => absurd hi (Nat.not_lt_zero i), fun _ _ => rfl⟩
    unfold kmallocInitBlocks
    rw [Prog.pure_run, Nat.zero_mul, Nat.add_zero]
  | n + 1, p, s, hlt => by
    have hsplit : (n + 1) * bs = bs + n * bs := by rw [Nat.add_mul, Nat.one_mul, Nat.add_comm]
    have hnext : (p + bs) % wordSize = p + bs := Nat.mod_eq_of_lt (by omega)
    obtain ⟨t, ht⟩ : ∃ t, t = s.setBlockHdr p fun b => ⟨b.flags ||| memblockFree, p + bs⟩ := ⟨_, rfl⟩
    have htp : t.blockHdr p = ⟨(s.blockHdr p).flags ||| memblockFree, p + bs⟩ := by
      rw [ht, Slab.setBlockHdr_blockHdr, Function.update_self]
    have htne : ∀ x, x ≠ p → t.blockHdr x = s.blockHdr x := by
      intro x hx
      rw [ht, Slab.setBlockHdr_blockHdr, Function.update_of_ne hx]
    obtain ⟨s', hrun, hpage, hzone, hset, hkeep⟩ := kmallocInitBlocks_spec hbs n (p + bs) t (by omega)
    have hrest : ∀ i < n, p + bs + i * bs ≠ p := fun i _ => by omega
    refine ⟨s', ?_, ?_, ?_, ?_, ?_⟩
    · unfold kmallocInitBlocks
      rw [Prog.bind_run, Prog.modify_run, Outcome.andThen_ok, Prog.bind_run, Prog.modify_run,
        Outcome.andThen_ok, Slab.setBlockHdr_setBlockHdr]
      have hstate : (s.setBlockHdr p fun b => MemblockHdr.setNext { b with flags := b.flags ||| memblockFree }
          ((p + bs) % wordSize)) = t := by
        rw [ht, hnext]
        rfl
      rw [hstate, Prog.bind_run, Prog.get_run, Outcome.andThen_ok, htp]
      show kmallocInitBlocks bs n (p + bs) t = _
      rw [hrun, hsplit, Nat.add_assoc]
    · rw [hpage, ht, Slab.setBlockHdr_pageHdr]
    · rw [hzone, ht, Slab.setBlockHdr_zoneslabs]
    · intro i hi
      cases i with
      | zero =>
        rw [Nat.zero_mul, Nat.add_zero, hkeep p (fun i hi => Ne.symm (hrest i hi)), htp, Nat.zero_add, Nat.one_mul]
      | succ j =>
        have e : p + (j + 1) * bs = p + bs + j * bs := by rw [Nat.add_mul, Nat.one_mul]; omega
        have e' : p + (j + 1 + 1) * bs = p + bs + (j + 1) * bs := by rw [Nat.add_mul (j + 1), Nat.one_mul]; omega
        rw [e, e', hset j (by omega), htne _ (hrest j (by omega))]
    · intro x hx
      have hxp : x ≠ p := by
        have h0 := hx 0 (by omega)
        rwa [Nat.zero_mul, Nat.add_zero] at h0
      rw [hkeep x ?_, htne x hxp]
      intro i hi e
      refine hx (i + 1) (by omega) ?_
      rw [Nat.add_mul, Nat.one_mul]
      omega

theorem kmallocNewPage_run {pageAllocPage : ℕ → Prog (Slab ρ) ℕ} {s t : Slab ρ} {z : Zone} {c flags page : ℕ}
    (hsrc : pageAllocPage flags s = .ok page t) (hpos : 0 < page) {bs nb : ℕ} (hbs : 0 < bs) (hnb : 0 < nb)
    (hsize : (t.zoneslabs z c).size = bs) (hcount : (t.zoneslabs z c).nblocks = nb)
    (hroom : page + pageHdrSize + nb * bs ≤ wordSize) :
    ∃ s' blocks, kmallocNewPage pageAllocPage z c flags s = .ok () s' ∧
      Assigned t s' z c page ⟨(t.zoneslabs z c).firstfree, page + pageHdrSize, c % 2 ^ 16, nb % 2 ^ 16⟩
        { (t.zoneslabs z c).ledger with
          firstfree := page
          ntotal := add32 (t.zoneslabs z c).ntotal nb
          nfree := add32 (t.zoneslabs z c).nfree nb } blocks ∧
      (∀ i < nb, blocks (page + pageHdrSize + i * bs) =
        ⟨(t.blockHdr (page + pageHdrSize + i * bs)).flags ||| memblockFree,
          if i + 1 = nb then 0 else page + pageHdrSize + (i + 1) * bs⟩) ∧
      ∀ x, (∀ i < nb, x ≠ page + pageHdrSize + i * bs) → blocks x = t.blockHdr x := by
  obtain ⟨first, hfirst⟩ : ∃ first, first = page + pageHdrSize := ⟨_, rfl⟩
  obtain ⟨m, rfl⟩ : ∃ m, nb = m + 1 := ⟨nb - 1, by omega⟩
  rw [← hfirst] at hroom ⊢
  have hmul : (m + 1) * bs = m * bs + bs := by rw [Nat.add_mul, Nat.one_mul]
  have hmod : (page + pageHdrSize) % wordSize = first := by
    rw [hfirst]
    exact Nat.mod_eq_of_lt (by omega)
  obtain ⟨G, hG⟩ : ∃ G : SizeDescriptor → SizeDescriptor, G = fun d => { d with
      npages := add32 d.npages 1
      ntotal := add32 d.ntotal d.nblocks
      nfree := add32 d.nfree d.nblocks } := ⟨_, rfl⟩
  obtain ⟨u, hu⟩ : ∃ u, u = t.setSizes z c G := ⟨_, rfl⟩
  have huzc : u.zoneslabs z c = G (t.zoneslabs z c) := by
    rw [hu, Slab.setSizes_get, if_pos ⟨rfl, rfl⟩]
  have husize : (u.zoneslabs z c).size = bs := by rw [huzc, hG]; exact hsize
  have hucount : (u.zoneslabs z c).nblocks = m + 1 := by rw [huzc, hG]; exact hcount
  have hufirst : (u.zoneslabs z c).firstfree = (t.zoneslabs z c).firstfree := by rw [huzc, hG]
  obtain ⟨v, hrun, hvpage, hvzone, hvset, hvkeep⟩ := kmallocInitBlocks_spec hbs m first u (by omega)
  obtain ⟨last, hlast⟩ : ∃ last, last = first + m * bs := ⟨_, rfl⟩
  rw [← hlast] at hrun
  obtain ⟨w, hw⟩ : ∃ w, w = v.setBlockHdr last fun b => ⟨b.flags ||| memblockFree, 0⟩ := ⟨_, rfl⟩
  obtain ⟨x, hx⟩ : ∃ x, x = (w.setPageHdr page fun _ => ⟨(t.zoneslabs z c).firstfree, first, c % 2 ^ 16,
    (m + 1) % 2 ^ 16⟩).setSizes z c fun d => { d with firstfree := page } := ⟨_, rfl⟩
  have hwzone : w.zoneslabs = u.zoneslabs := by rw [hw, Slab.setBlockHdr_zoneslabs, hvzone]
  have hwpage : w.pageHdr = t.pageHdr := by
    rw [hw, Slab.setBlockHdr_pageHdr, hvpage, hu, Slab.setSizes_pageHdr]
  have hublock : u.blockHdr = t.blockHdr := by rw [hu, Slab.setSizes_blockHdr]
  refine ⟨x, w.blockHdr, ?_, ⟨?_, ?_, ?_⟩, ?_, ?_⟩
  · have hne : page ≠ 0 := hpos.ne'
    unfold kmallocNewPage
    rw [Prog.bind_run, hsrc, Outcome.andThen_ok, if_neg hne, Prog.bind_run, Prog.modify_run, Outcome.andThen_ok,
      Prog.bind_run, Prog.modify_run, Outcome.andThen_ok, Prog.bind_run, Prog.modify_run, Outcome.andThen_ok,
      Slab.setSizes_setSizes, Slab.setSizes_setSizes, ← hG, ← hu, Prog.bind_run, Prog.get_run,
      Outcome.andThen_ok]
    simp only [husize, hucount, hmod, Nat.add_sub_cancel]
    rw [Prog.bind_run, hrun, Outcome.andThen_ok, Prog.bind_run, Prog.modify_run, Outcome.andThen_ok,
      Prog.bind_run, Prog.modify_run, Outcome.andThen_ok, Slab.setBlockHdr_setBlockHdr]
    have hstate :
        (v.setBlockHdr last fun b => MemblockHdr.setNext { b with flags := b.flags ||| memblockFree } 0) = w := by
      rw [hw]
      rfl
    rw [hstate, Prog.bind_run, Prog.modify_run, Outcome.andThen_ok, Prog.bind_run, Prog.modify_run,
      Outcome.andThen_ok, Prog.bind_run, Prog.modify_run, Outcome.andThen_ok, Prog.bind_run, Prog.modify_run,
      Outcome.andThen_ok, Prog.modify_run]
    simp only [Slab.setPageHdr_setPageHdr, Slab.setPageHdr_zoneslabs, hwzone, hufirst, hx]
  · rw [hx, Slab.setSizes_pageHdr, Slab.setPageHdr_pageHdr, hwpage]
  · rw [hx, Slab.setSizes_blockHdr, Slab.setPageHdr_blockHdr]
  · intro z' c'
    rw [hx, Slab.setSizes_get, Slab.setPageHdr_zoneslabs, hwzone]
    split
    · rw [huzc, hG]
      simp only [SizeDescriptor.ledger, hcount]
    · next e => rw [hu, Slab.setSizes_get, if_neg e]
  · intro i hi
    rw [hw, Slab.setBlockHdr_blockHdr]
    by_cases him : i = m
    · have e : first + i * bs = last := by rw [hlast, him]
      have hfree : ∀ j < m, last ≠ first + j * bs := by
        intro j hj hc
        have hj' : (j + 1) * bs ≤ m * bs := Nat.mul_le_mul_right _ hj
        rw [Nat.add_mul, Nat.one_mul] at hj'
        omega
      rw [e, Function.update_self, hvkeep last hfree, hublock, if_pos (by omega)]
    · have e : first + i * bs ≠ last := by
        have hj' : (i + 1) * bs ≤ m * bs := Nat.mul_le_mul_right _ (by omega)
        rw [Nat.add_mul, Nat.one_mul] at hj'
        omega
      rw [Function.update_of_ne e, hvset i (by omega), hublock, if_neg (by omega)]
  · intro y hy
    have hylast : y ≠ last := by rw [hlast]; exact hy m (by omega)
    rw [hw, Slab.setBlockHdr_blockHdr, Function.update_of_ne hylast, hvkeep y (fun i hi => hy i (by omega)), hublock]

theorem kfreeRelink_run {s : Slab ρ} (z : Zone) (c page : ℕ)
    (hfull : (s.pageHdr page).nfree = 1 → (s.pageHdr page).next = 0) : kfreeRelink z c page s = .ok ()
    (if (s.pageHdr page).nfree = 1 then
      (s.setPageHdr page fun h => { h with next := (s.zoneslabs z c).firstfree }).setSizes z c
        fun d => { d with firstfree := page }
    else s) := by
  unfold kfreeRelink
  rw [Prog.bind_run, Prog.get_run, Outcome.andThen_ok]
  split
  · next h1 =>
    rw [if_neg (not_not.mpr (hfull h1)), Prog.bind_run, Prog.modify_run, Outcome.andThen_ok, Prog.modify_run]
  · rw [Prog.pure_run]

theorem kfree_run {s : Slab ρ} {z : Zone} {c page block n : ℕ} (hlt : block + memblockHdrSize < wordSize)
    (hused : (s.blockHdr block).flags &&& memblockFree = 0) (hdma : (s.blockHdr block).flags &&& gfpDma32 = 0)
    (hz : zoneOfFlags (s.blockHdr block).flags = z) (hpage : pagealignDown block = page)
    (hc : (s.pageHdr page).order = c) (hn : (s.pageHdr page).nfree = n) (hsmall : n + 1 < 2 ^ 16)
    (hfull : n = 0 → (s.pageHdr page).next = 0) :
    ∃ s', kfree (block + memblockHdrSize) s = .ok () s' ∧
      Assigned s s' z c page
        ⟨if n = 0 then (s.zoneslabs z c).firstfree else (s.pageHdr page).next, block, c, n + 1⟩
        { (s.zoneslabs z c).ledger with
          firstfree := if n = 0 then page else (s.zoneslabs z c).firstfree
          nbytesmalloced := sub32 (s.zoneslabs z c).nbytesmalloced (s.blockHdr block).size
          nfree := add32 (s.zoneslabs z c).nfree 1 }
        (Function.update s.blockHdr block
          ⟨(s.blockHdr block).flags ||| memblockFree, (s.pageHdr page).firstfree⟩) := by
  have hp : (block + memblockHdrSize + wordSize - memblockHdrSize) % wordSize = block := by
    have e : block + memblockHdrSize + wordSize - memblockHdrSize = block + wordSize := by omega
    rw [e, Nat.add_mod_right]
    exact Nat.mod_eq_of_lt (by omega)
  have hinc : inc16 (s.pageHdr page).nfree = n + 1 := by
    unfold inc16
    rw [hn]
    exact Nat.mod_eq_of_lt hsmall
  obtain ⟨t, ht⟩ : ∃ t, t = (s.setBlockHdr block fun b =>
    ⟨b.flags ||| memblockFree, (s.pageHdr page).firstfree⟩).setPageHdr
    page fun h => ⟨h.next, block, h.order, inc16 h.nfree⟩ := ⟨_, rfl⟩
  have htpage : t.pageHdr page = ⟨(s.pageHdr page).next, block, c, n + 1⟩ := by
    rw [ht, Slab.setPageHdr_pageHdr, Function.update_self, Slab.setBlockHdr_pageHdr, hinc, hc]
  have htone : (t.pageHdr page).nfree = n + 1 := by rw [htpage]
  have htnext : (t.pageHdr page).next = (s.pageHdr page).next := by rw [htpage]
  have htzone : t.zoneslabs = s.zoneslabs := by
    rw [ht, Slab.setPageHdr_zoneslabs, Slab.setBlockHdr_zoneslabs]
  obtain ⟨u, hu⟩ : ∃ u, u = (if (t.pageHdr page).nfree = 1 then
      (t.setPageHdr page fun h => { h with next := (t.zoneslabs z c).firstfree }).setSizes z c
        fun d => { d with firstfree := page }
    else t) := ⟨_, rfl⟩
  have hrelink : kfreeRelink z c page t = .ok () u := by
    rw [hu]
    refine kfreeRelink_run z c page ?_
    intro h1
    rw [htnext]
    exact hfull (by rw [htone] at h1; omega)
  have hone : (t.pageHdr page).nfree = 1 ↔ n = 0 := by rw [htone]; omega
  rw [htzone] at hu
  have hupage : u.pageHdr = Function.update s.pageHdr page
      ⟨if n = 0 then (s.zoneslabs z c).firstfree else (s.pageHdr page).next, block, c, n + 1⟩ := by
    rw [hu]
    split
    · next h1 =>
      rw [if_pos (hone.mp h1), Slab.setSizes_pageHdr, Slab.setPageHdr_pageHdr, htpage, ht, Slab.setPageHdr_pageHdr,
        Function.update_idem, Slab.setBlockHdr_pageHdr]
    · next h1 =>
      rw [if_neg (fun e => h1 (hone.mpr e)), ← htpage, ht, Slab.setPageHdr_pageHdr, Function.update_self,
        Slab.setBlockHdr_pageHdr]
  have husizes : ∀ z' c', (u.zoneslabs z' c').ledger = if z' = z ∧ c' = c then { (s.zoneslabs z c).ledger with
      firstfree := if n = 0 then page else (s.zoneslabs z c).firstfree }
      else (s.zoneslabs z' c').ledger := by
    intro z' c'
    rw [hu]
    split
    · next h1 =>
      rw [if_pos (hone.mp h1), Slab.setSizes_get, Slab.setPageHdr_zoneslabs, htzone]
      split
      · rfl
      · rfl
    · next h1 =>
      rw [if_neg (fun e => h1 (hone.mpr e)), htzone]
      split
      · next e =>
        rw [e.1, e.2]
        rfl
      · rfl
  have hublock : u.blockHdr = Function.update s.blockHdr block
      ⟨(s.blockHdr block).flags ||| memblockFree, (s.pageHdr page).firstfree⟩ := by
    have htblock : t.blockHdr = Function.update s.blockHdr block
        ⟨(s.blockHdr block).flags ||| memblockFree, (s.pageHdr page).firstfree⟩ := by
      rw [ht, Slab.setPageHdr_blockHdr, Slab.setBlockHdr_blockHdr]
    rw [hu]
    split
    · rw [Slab.setSizes_blockHdr, Slab.setPageHdr_blockHdr, htblock]
    · exact htblock
  obtain ⟨G, hG⟩ : ∃ G : SizeDescriptor → SizeDescriptor, G = fun d => { d with
      nfrees := add32 d.nfrees 1
      nbytesmalloced := sub32 d.nbytesmalloced (s.blockHdr block).size
      nfree := add32 d.nfree 1 } := ⟨_, rfl⟩
  refine ⟨u.setSizes z c G, ?_, ?_, ?_, ?_⟩
  · unfold kfree
    rw [Prog.bind_run, Prog.get_run, Outcome.andThen_ok]
    simp only [hp]
    rw [if_neg (not_not.mpr hused), if_neg (not_not.mpr hdma), hz, hpage, hc, Prog.bind_run, Prog.modify_run,
      Outcome.andThen_ok, Prog.bind_run, Prog.modify_run, Outcome.andThen_ok, Prog.bind_run, Prog.modify_run,
      Outcome.andThen_ok, Prog.bind_run, Prog.modify_run, Outcome.andThen_ok]
    simp only [Slab.setBlockHdr_setBlockHdr, Slab.setBlockHdr_pageHdr, Slab.setPageHdr_setPageHdr]
    have hstate : ((s.setBlockHdr block fun b => MemblockHdr.setNext { b with flags := b.flags ||| memblockFree }
        (s.pageHdr page).firstfree).setPageHdr page fun h => ⟨h.next, block, h.order, inc16 h.nfree⟩) = t := by
      rw [ht]
      rfl
    rw [hstate, Prog.bind_run, hrelink, Outcome.andThen_ok, Prog.bind_run, Prog.modify_run, Outcome.andThen_ok,
      Prog.bind_run, Prog.modify_run, Outcome.andThen_ok, Prog.modify_run, Slab.setSizes_setSizes,
      Slab.setSizes_setSizes, hG]
  · rw [Slab.setSizes_pageHdr]
    exact hupage
  · rw [Slab.setSizes_blockHdr, hublock]
  · intro z' c'
    rw [Slab.setSizes_get]
    have hd := husizes z c
    rw [if_pos ⟨rfl, rfl⟩] at hd
    split
    · rw [hG]
      simp only [SizeDescriptor.ledger, Ledger.mk.injEq] at hd ⊢
      refine ⟨hd.1, hd.2.1, hd.2.2.1, ?_, hd.2.2.2.2.1, ?_⟩
      · rw [hd.2.2.2.1]
      · rw [hd.2.2.2.2.2]
    · next e => rw [husizes, if_neg e]

end Borgos.Mem
