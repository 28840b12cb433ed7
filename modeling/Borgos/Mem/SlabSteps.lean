import Borgos.Mem.SlabSpec

/-! # The slab invariant under `kmalloc` and `kfree` -/
namespace Borgos.Mem
open Borgos.Foundations
set_option autoImplicit false

variable {ρ : Type}

/-! ## Counters -/

theorem add32_mod (x b : ℕ) : add32 (x % 2 ^ 32) b = (x + b) % 2 ^ 32 := by
  unfold add32
  omega

theorem sub32_mod {x y b : ℕ} (h : x = y + b) : sub32 (x % 2 ^ 32) b = y % 2 ^ 32 := by
  unfold sub32
  omega

theorem MemblockHdr.setSize_size (b : MemblockHdr) {size : ℕ} (h : size < 2 ^ 32) : (b.setSize size).size = size := by
  unfold MemblockHdr.setSize MemblockHdr.size
  simp only
  omega

theorem pageSum_update {pages : List HeldPage} (hd : (pages.map HeldPage.addr).Nodup) {pg : HeldPage}
    (hpg : pg ∈ pages) (chain : ℕ → List ℕ) (xs : List ℕ) (z : Zone) (c : ℕ) :
    pageSum pages (fun q => (Function.update chain pg.addr xs q.addr).length) z c +
        (if pg.zone = z ∧ pg.order = c then (chain pg.addr).length else 0) =
      pageSum pages (fun q => (chain q.addr).length) z c + if pg.zone = z ∧ pg.order = c then xs.length else 0 := by
  have hchange := pageSum_change hd hpg (fun q => (chain q.addr).length)
    (fun q => (Function.update chain pg.addr xs q.addr).length)
    (fun q _ hne => by rw [Function.update_of_ne hne]) z c
  simp only [Function.update_self] at hchange
  exact hchange

/-! ## What an assignment leaves alone -/

namespace Assigned
variable {s s' : Slab ρ} {z : Zone} {c page : ℕ} {h : PageHdr} {d : Ledger} {blocks : ℕ → MemblockHdr}

theorem pageHdr_self (ha : Assigned s s' z c page h d blocks) : s'.pageHdr page = h := by
  rw [ha.pageHdr, Function.update_self]

theorem pageHdr_ne (ha : Assigned s s' z c page h d blocks) {q : ℕ} (hq : q ≠ page) :
    s'.pageHdr q = s.pageHdr q := by
  rw [ha.pageHdr, Function.update_of_ne hq]

theorem sizesOk (ha : Assigned s s' z c page h d blocks) (hs : SizesOk s) (hsize : d.size = (s.zoneslabs z c).size)
    (hcount : d.nblocks = (s.zoneslabs z c).nblocks) : SizesOk s' where
  size z' c' := by
    have e : (s'.zoneslabs z' c').size = (s.zoneslabs z' c').size := by
      have hl := congrArg Ledger.size (ha.sizes z' c')
      split at hl
      · next hzc =>
        rw [hzc.1, hzc.2] at hl ⊢
        exact hl.trans hsize
      · exact hl
    rw [e]
    exact hs.size z' c'
  nblocks z' c' hc := by
    have e : (s'.zoneslabs z' c').nblocks = (s.zoneslabs z' c').nblocks := by
      have hl := congrArg Ledger.nblocks (ha.sizes z' c')
      split at hl
      · next hzc =>
        rw [hzc.1, hzc.2] at hl ⊢
        exact hl.trans hcount
      · exact hl
    rw [e]
    exact hs.nblocks z' c' hc

/-- The descriptor of the class. -/
theorem ledger_self (ha : Assigned s s' z c page h d blocks) : (s'.zoneslabs z c).ledger = d := by
  rw [ha.sizes, if_pos ⟨rfl, rfl⟩]

theorem ledger_ne (ha : Assigned s s' z c page h d blocks) {z' : Zone} {c' : ℕ} (hne : ¬(z' = z ∧ c' = c)) :
    (s'.zoneslabs z' c').ledger = (s.zoneslabs z' c').ledger := by
  rw [ha.sizes, if_neg hne]

end Assigned

/-- A class none of whose pages or blocks is touched. -/
theorem ClassOk.congr {s s' : Slab ρ} {pages pages' : List HeldPage} {live live' : List LiveBlock}
    {chain chain' : ℕ → List ℕ} {z : Zone} {c : ℕ} {ps : List ℕ} (h : ClassOk s pages live chain z c ps)
    (hl : (s'.zoneslabs z c).ledger = (s.zoneslabs z c).ledger)
    (hnext : ∀ x ∈ ps, (s'.pageHdr x).next = (s.pageHdr x).next)
    (hmem : ∀ x, (∃ pg ∈ pages', pg.addr = x ∧ pg.zone = z ∧ pg.order = c ∧ chain' x ≠ []) ↔
      ∃ pg ∈ pages, pg.addr = x ∧ pg.zone = z ∧ pg.order = c ∧ chain x ≠ [])
    (hfree : pageSum pages' (fun pg => (chain' pg.addr).length) z c =
      pageSum pages (fun pg => (chain pg.addr).length) z c)
    (htotal : pageSum pages' (fun pg => blockCount pg.order) z c = pageSum pages (fun pg => blockCount pg.order) z c)
    (hbytes : liveBytes live' z c = liveBytes live z c) : ClassOk s' pages' live' chain' z c ps where
  chained := by
    have e : (s'.zoneslabs z c).firstfree = (s.zoneslabs z c).firstfree := congrArg Ledger.firstfree hl
    rw [e]
    exact h.chained.congr hnext
  nodup := h.nodup
  mem x := (h.mem x).trans (hmem x).symm
  nfree := by
    rw [hfree, ← h.nfree]
    exact congrArg Ledger.nfree hl
  ntotal := by
    rw [htotal, ← h.ntotal]
    exact congrArg Ledger.ntotal hl
  nbytes := by
    rw [hbytes, ← h.nbytes]
    exact congrArg Ledger.nbytesmalloced hl

theorem zoneFlags {z : Zone} (hz : z = .NORMAL ∨ z = .DMA16) {f : ℕ}
    (hf : f = memblockFree ∨ f = memblockFree ||| zoneGfp z) :
    f &&& memblockFree ≠ 0 ∧ (f ||| zoneGfp z) &&& notMemblockFree = zoneGfp z := by
  rcases hz with rfl | rfl
  · rcases hf with rfl | rfl
    · decide
    · decide
  · rcases hf with rfl | rfl
    · decide
    · decide

/-- The first free block of a page goes out. -/
theorem PageOk.pop {s s' : Slab ρ} {live : List LiveBlock} {pg : HeldPage} {b : LiveBlock} {tl : List ℕ}
    (h : PageOk s live pg (b.block :: tl)) (hout : b.block ∉ tl) (hpage : pagealignDown b.block = pg.addr) {next : ℕ}
    (hhdr : s'.pageHdr pg.addr = ⟨next, (s.blockHdr b.block).next, (s.pageHdr pg.addr).order, tl.length⟩)
    (hnext : tl = [] → next = 0) (hblocks : ∀ y, y ≠ b.block → s'.blockHdr y = s.blockHdr y) :
    PageOk s' (b :: live) pg tl where
  order := by
    rw [hhdr]
    exact h.order
  nfree := by rw [hhdr]
  chained := by
    rw [hhdr]
    refine h.chained.2.2.congr fun y hy => ?_
    rw [hblocks y fun e => hout (e ▸ hy)]
  split := by
    have hl : pg.liveIn (b :: live) = b.block :: pg.liveIn live := by
      unfold HeldPage.liveIn
      rw [List.filter_cons_of_pos (by simpa using hpage), List.map_cons]
    rw [hl]
    exact List.perm_middle.trans h.split
  flags y hy := by
    rw [hblocks y fun e => hout (e ▸ hy)]
    exact h.flags y (List.mem_cons_of_mem _ hy)
  full e := by
    rw [hhdr]
    exact hnext e

/-- A block comes back to its page. -/
theorem PageOk.push {s s' : Slab ρ} {live live' : List LiveBlock} {pg : HeldPage} {x : ℕ} {xs : List ℕ}
    (h : PageOk s live pg xs) (hx : x ≠ 0) (hout : x ∉ xs) (hsplit : (x :: xs ++ pg.liveIn live').Perm pg.blocks)
    {next : ℕ} (hhdr : s'.pageHdr pg.addr = ⟨next, x, pg.order, xs.length + 1⟩)
    (hblock : s'.blockHdr x = ⟨memblockFree ||| zoneGfp pg.zone, (s.pageHdr pg.addr).firstfree⟩)
    (hblocks : ∀ y, y ≠ x → s'.blockHdr y = s.blockHdr y) : PageOk s' live' pg (x :: xs) where
  order := by rw [hhdr]
  nfree := by rw [hhdr, List.length_cons]
  chained := by
    rw [hhdr]
    refine h.chained.push hx hout ?_ ?_
    · rw [hblock]
      rfl
    · intro y _ hy
      rw [hblocks y hy]
  split := hsplit
  flags y hy := by
    rcases List.mem_cons.mp hy with rfl | hy
    · right
      rw [hblock]
    · rw [hblocks y fun e => hout (e ▸ hy)]
      exact h.flags y hy
  full e := absurd e (List.cons_ne_nil _ _)

namespace SlabInv
variable {s : Slab ρ} {pages : List HeldPage} {live : List LiveBlock} {chain : ℕ → List ℕ}
  {cls : Zone → ℕ → List ℕ}

/-- The classes other than the one of a page whose chain changes. -/
theorem classOk_other (h : SlabInv s pages live chain cls) {s' : Slab ρ} {live' : List LiveBlock} {pg : HeldPage}
    (hpg : pg ∈ pages) {hd : PageHdr} {d : Ledger} {blocks : ℕ → MemblockHdr}
    (ha : Assigned s s' pg.zone pg.order pg.addr hd d blocks) (xs : List ℕ) {z : Zone} {c : ℕ}
    (hzc : ¬(z = pg.zone ∧ c = pg.order)) (hbytes : liveBytes live' z c = liveBytes live z c) :
    ClassOk s' pages live' (Function.update chain pg.addr xs) z c (cls z c) := by
  have hzc' : ¬(pg.zone = z ∧ pg.order = c) := fun e => hzc ⟨e.1.symm, e.2.symm⟩
  have hpgout : pg.addr ∉ cls z c := by
    intro hm
    obtain ⟨q, hq, hqa, hqz, hqc, -⟩ := ((h.classOk z c).mem pg.addr).mp hm
    rw [h.page_unique hpg hq hqa] at hqz hqc
    exact hzc' ⟨hqz, hqc⟩
  have hsum := pageSum_update h.distinct hpg chain xs z c
  rw [if_neg hzc', if_neg hzc', Nat.add_zero, Nat.add_zero] at hsum
  refine (h.classOk z c).congr (ha.ledger_ne hzc) ?_ ?_ hsum rfl hbytes
  · intro y hy
    rw [ha.pageHdr_ne fun e => hpgout (e ▸ hy)]
  · intro y
    refine exists_congr fun q => and_congr_right fun hq => and_congr_right fun hqa => and_congr_right fun hqz =>
      and_congr_right fun hqc => ?_
    have hy : y ≠ pg.addr := by
      intro e
      rw [h.page_unique hpg hq (hqa.trans e)] at hqz hqc
      exact hzc' ⟨hqz, hqc⟩
    rw [Function.update_of_ne hy]

/-- The list of a class after the chain of one of its pages has changed. -/
theorem mem_class (h : SlabInv s pages live chain cls) {pg : HeldPage} (hpg : pg ∈ pages) (xs : List ℕ) {ps : List ℕ}
    (hself : pg.addr ∈ ps ↔ xs ≠ []) (hother : ∀ y, y ≠ pg.addr → (y ∈ ps ↔ y ∈ cls pg.zone pg.order)) (y : ℕ) :
    y ∈ ps ↔ ∃ q ∈ pages, q.addr = y ∧ q.zone = pg.zone ∧ q.order = pg.order ∧
      Function.update chain pg.addr xs y ≠ [] := by
  by_cases hy : y = pg.addr
  · subst hy
    rw [Function.update_self, hself]
    exact ⟨fun hne => ⟨pg, hpg, rfl, rfl, rfl, hne⟩, fun ⟨_, _, _, _, _, hne⟩ => hne⟩
  · rw [Function.update_of_ne hy, hother y hy]
    exact (h.classOk pg.zone pg.order).mem y

/-- A class whose first page gives up a block; the page leaves the list when it was its last one. -/
theorem classOk_pop (h : SlabInv s pages live chain cls) {s' : Slab ρ} {pg : HeldPage} (hpg : pg ∈ pages) {x : ℕ}
    {tl rest : List ℕ} (hxs : chain pg.addr = x :: tl) (hps : cls pg.zone pg.order = pg.addr :: rest) {size : ℕ}
    {hd : PageHdr} (hnext : hd.next = if tl.length = 0 then 0 else (s.pageHdr pg.addr).next) {blocks : ℕ → MemblockHdr}
    (ha : Assigned s s' pg.zone pg.order pg.addr hd
      { (s.zoneslabs pg.zone pg.order).ledger with
        firstfree := if tl.length = 0 then (s.pageHdr pg.addr).next else (s.zoneslabs pg.zone pg.order).firstfree
        nbytesmalloced := add32 (s.zoneslabs pg.zone pg.order).nbytesmalloced size
        nfree := sub32 (s.zoneslabs pg.zone pg.order).nfree 1 } blocks) :
    ClassOk s' pages (⟨x, size, pg.zone, pg.order⟩ :: live) (Function.update chain pg.addr tl) pg.zone pg.order
      (if tl = [] then rest else pg.addr :: rest) := by
  have hcls := h.classOk pg.zone pg.order
  have hl := ha.ledger_self
  have hnodup := hcls.nodup
  rw [hps, List.nodup_cons] at hnodup
  have hchained := hcls.chained
  rw [hps] at hchained
  obtain ⟨hfirst, hpos, hrest⟩ := hchained
  have hrest' : Chained (fun y => (s'.pageHdr y).next) 0 (s.pageHdr pg.addr).next rest := by
    refine hrest.congr fun y hy => ?_
    rw [ha.pageHdr_ne fun e => hnodup.1 (e ▸ hy)]
  have hsum := pageSum_update h.distinct hpg chain tl pg.zone pg.order
  rw [if_pos ⟨rfl, rfl⟩, if_pos ⟨rfl, rfl⟩, hxs, List.length_cons] at hsum
  refine ⟨?_, ?_, h.mem_class hpg tl ?_ ?_, ?_, ?_, ?_⟩
  · rw [show (s'.zoneslabs pg.zone pg.order).firstfree = if tl.length = 0 then (s.pageHdr pg.addr).next else
      (s.zoneslabs pg.zone pg.order).firstfree from congrArg Ledger.firstfree hl]
    by_cases ht : tl = []
    · rw [if_pos (List.length_eq_zero_iff.mpr ht), if_pos ht]
      exact hrest'
    · have hne := mt List.length_eq_zero_iff.mp ht
      rw [if_neg hne, if_neg ht, hfirst]
      refine ⟨rfl, hpos, ?_⟩
      rw [if_neg hne] at hnext
      simp only [ha.pageHdr_self, hnext]
      exact hrest'
  · split
    · exact hnodup.2
    · exact List.nodup_cons.mpr hnodup
  · split
    · next ht => exact iff_of_false hnodup.1 fun hne => hne ht
    · next ht => exact iff_of_true List.mem_cons_self ht
  · intro y hy
    rw [hps, List.mem_cons, or_iff_right hy]
    split
    · exact Iff.rfl
    · rw [List.mem_cons, or_iff_right hy]
  · have e : (s'.zoneslabs pg.zone pg.order).nfree = sub32 (s.zoneslabs pg.zone pg.order).nfree 1 :=
      congrArg Ledger.nfree hl
    rw [e, hcls.nfree]
    exact sub32_mod (by omega)
  · have e : (s'.zoneslabs pg.zone pg.order).ntotal = (s.zoneslabs pg.zone pg.order).ntotal :=
      congrArg Ledger.ntotal hl
    rw [e]
    exact hcls.ntotal
  · have e : (s'.zoneslabs pg.zone pg.order).nbytesmalloced =
        add32 (s.zoneslabs pg.zone pg.order).nbytesmalloced size := congrArg Ledger.nbytesmalloced hl
    rw [e, hcls.nbytes, add32_mod]
    unfold liveBytes
    rw [List.map_cons, List.sum_cons, if_pos ⟨rfl, rfl⟩, Nat.add_comm]

/-- A class one of whose pages gets a block back; a page that had none joins the list. -/
theorem classOk_push (h : SlabInv s pages live chain cls) {s' : Slab ρ} {pg : HeldPage} (hpg : pg ∈ pages)
    (hpos : pg.addr ≠ 0) {b : LiveBlock} (hb : b ∈ live) (hz : pg.zone = b.zone) (hc : pg.order = b.order)
    {hd : PageHdr} {n : ℕ} (hn : n = (chain pg.addr).length)
    (hnext : hd.next = if n = 0 then (s.zoneslabs pg.zone pg.order).firstfree else (s.pageHdr pg.addr).next)
    {blocks : ℕ → MemblockHdr}
    (ha : Assigned s s' pg.zone pg.order pg.addr hd
      { (s.zoneslabs pg.zone pg.order).ledger with
        firstfree := if n = 0 then pg.addr else (s.zoneslabs pg.zone pg.order).firstfree
        nbytesmalloced := sub32 (s.zoneslabs pg.zone pg.order).nbytesmalloced b.size
        nfree := add32 (s.zoneslabs pg.zone pg.order).nfree 1 } blocks) :
    ClassOk s' pages (live.erase b) (Function.update chain pg.addr (b.block :: chain pg.addr)) pg.zone pg.order
      (if chain pg.addr = [] then pg.addr :: cls pg.zone pg.order else cls pg.zone pg.order) := by
  have hcls := h.classOk pg.zone pg.order
  have hl := ha.ledger_self
  have hzero : n = 0 ↔ chain pg.addr = [] := by rw [hn, List.length_eq_zero_iff]
  have hin : pg.addr ∈ cls pg.zone pg.order ↔ chain pg.addr ≠ [] := by
    rw [hcls.mem]
    exact ⟨fun ⟨_, _, _, _, _, hne⟩ => hne, fun hne => ⟨pg, hpg, rfl, rfl, rfl, hne⟩⟩
  have hsum := pageSum_update h.distinct hpg chain (b.block :: chain pg.addr) pg.zone pg.order
  rw [if_pos ⟨rfl, rfl⟩, if_pos ⟨rfl, rfl⟩, List.length_cons] at hsum
  have hbytes :=
    List.sum_map_erase (fun q : LiveBlock => if q.zone = pg.zone ∧ q.order = pg.order then q.size else 0) hb
  rw [if_pos ⟨hz.symm, hc.symm⟩] at hbytes
  refine ⟨?_, ?_, h.mem_class hpg _ (iff_of_true ?_ (List.cons_ne_nil _ _)) ?_, ?_, ?_, ?_⟩
  · rw [show (s'.zoneslabs pg.zone pg.order).firstfree = if n = 0 then pg.addr else
      (s.zoneslabs pg.zone pg.order).firstfree from congrArg Ledger.firstfree hl]
    by_cases ht : chain pg.addr = []
    · rw [if_pos (hzero.mpr ht)] at hnext ⊢
      rw [if_pos ht]
      refine hcls.chained.push hpos (fun hm => hin.mp hm ht) ?_ ?_
      · rw [ha.pageHdr_self, hnext]
      · intro y _ hy
        rw [ha.pageHdr_ne hy]
    · have hne := mt hzero.mp ht
      rw [if_neg hne] at hnext ⊢
      rw [if_neg ht]
      refine hcls.chained.congr fun y _ => ?_
      by_cases hy : y = pg.addr
      · rw [hy, ha.pageHdr_self, hnext]
      · rw [ha.pageHdr_ne hy]
  · split
    · next ht => exact List.nodup_cons.mpr ⟨fun hm => hin.mp hm ht, hcls.nodup⟩
    · exact hcls.nodup
  · split
    · exact List.mem_cons_self
    · next ht => exact hin.mpr ht
  · intro y hy
    split
    · rw [List.mem_cons, or_iff_right hy]
    · exact Iff.rfl
  · have e : (s'.zoneslabs pg.zone pg.order).nfree = add32 (s.zoneslabs pg.zone pg.order).nfree 1 :=
      congrArg Ledger.nfree hl
    rw [e, hcls.nfree, add32_mod]
    congr 1
    omega
  · have e : (s'.zoneslabs pg.zone pg.order).ntotal = (s.zoneslabs pg.zone pg.order).ntotal :=
      congrArg Ledger.ntotal hl
    rw [e]
    exact hcls.ntotal
  · have e : (s'.zoneslabs pg.zone pg.order).nbytesmalloced =
        sub32 (s.zoneslabs pg.zone pg.order).nbytesmalloced b.size := congrArg Ledger.nbytesmalloced hl
    rw [e, hcls.nbytes]
    refine sub32_mod ?_
    unfold liveBytes
    omega

/-- The first page of a class gives up its first free block. -/
theorem take (h : SlabInv s pages live chain cls) {z : Zone} {c size page : ℕ}
    (hfirst : (s.zoneslabs z c).firstfree = page) (hpos : page ≠ 0) (hsize : size + memblockHdrSize ≤ blockSize c) :
    ∃ s' x chain' cls', kmallocFromPage z c size (zoneGfp z) page s = .ok (x + memblockHdrSize) s' ∧
      SlabInv s' pages (⟨x, size, z, c⟩ :: live) chain' cls' := by
  have hch := (h.classOk z c).chained
  rw [hfirst] at hch
  obtain ⟨rest, hps, -⟩ := hch.eq_cons hpos
  obtain ⟨pg, hpg, rfl, rfl, rfl, hne⟩ := ((h.classOk z c).mem page).mp (hps ▸ List.mem_cons_self)
  obtain ⟨x, tl, hxs⟩ := List.exists_cons_of_ne_nil hne
  have hok := h.pageOk pg hpg
  have hpl := h.placed pg hpg
  have hxmem : x ∈ chain pg.addr := by rw [hxs]; exact List.mem_cons_self
  have hxpage := h.chain_page hpg hxmem
  have hflags := zoneFlags hpl.zone (hok.flags x hxmem)
  have hlen := h.chain_length hpg
  have hnd := h.split_nodup hpg
  rw [hxs] at hok hlen hnd
  rw [List.length_cons] at hlen
  obtain ⟨s', hrun, ha⟩ := kmallocFromPage_run pg.zone pg.order size (zoneGfp pg.zone) pg.addr hok.chained.1 hflags.1
    hok.nfree (by omega)
  have hin := hpl.inside (h.chain_mem hpg hxmem)
  have hroom := (geometry hpl.order).room
  have hxlt : (x + memblockHdrSize) % wordSize = x + memblockHdrSize := by
    refine Nat.mod_eq_of_lt ?_
    have := hpl.below
    unfold memblockHdrSize
    omega
  rw [hxlt] at hrun
  rw [hflags.2] at ha
  have hb32 : size < 2 ^ 32 := by
    have := (geometry hpl.order).small
    unfold memblockHdrSize at hsize
    omega
  have hxtl : x ∉ tl := by
    rw [List.cons_append, List.nodup_cons] at hnd
    exact fun hm => hnd.1 (List.mem_append_left _ hm)
  have hblock_ne : ∀ y, y ≠ x → s'.blockHdr y = s.blockHdr y := by
    intro y hy
    rw [ha.blockHdr, Function.update_of_ne hy]
  -- the chain of the page loses its head; when it was the last one the page leaves the list
  refine ⟨s', x, Function.update chain pg.addr tl,
    fun z' c' => if z' = pg.zone ∧ c' = pg.order then if tl = [] then rest else pg.addr :: rest else cls z' c',
    hrun, ha.sizesOk h.sizes rfl rfl, h.placed, h.distinct, ?_, ?_, ?_⟩
  · intro q hq
    by_cases hqa : q.addr = pg.addr
    · obtain rfl := h.page_unique hpg hq hqa
      rw [Function.update_self]
      exact hok.pop (b := ⟨x, size, q.zone, q.order⟩) hxtl hxpage ha.pageHdr_self
        (fun e => if_pos (List.length_eq_zero_iff.mpr e)) hblock_ne
    · rw [Function.update_of_ne hqa]
      refine (h.pageOk q hq).congr (ha.pageHdr_ne hqa) ?_ ?_
      · intro y hy
        exact hblock_ne y fun e => h.addr_ne hpg hq hqa hxmem (e ▸ hy)
      · unfold HeldPage.liveIn
        rw [List.filter_cons_of_neg (by simpa [hxpage] using Ne.symm hqa)]
  · intro b hb
    rcases List.mem_cons.mp hb with rfl | hb
    · refine ⟨⟨pg, hpg, hxpage.symm, rfl, rfl⟩, hsize, ?_, ?_⟩
      · rw [ha.blockHdr, Function.update_self]
        rfl
      · rw [ha.blockHdr, Function.update_self]
        exact MemblockHdr.setSize_size _ hb32
    · exact (h.liveOk b hb).congr (fun _ hq => hq) (hblock_ne _ (h.chain_not_live hpg hxmem hb))
  · intro z' c'
    by_cases hzc : z' = pg.zone ∧ c' = pg.order
    · rw [if_pos hzc, hzc.1, hzc.2]
      exact h.classOk_pop hpg hxs hps rfl ha
    · rw [if_neg hzc]
      refine h.classOk_other hpg ha tl hzc ?_
      unfold liveBytes
      rw [List.map_cons, List.sum_cons, if_neg (fun e => hzc ⟨e.1.symm, e.2.symm⟩), Nat.zero_add]

theorem liveIn_erase {b : LiveBlock} (hb : b ∈ live) {pg : HeldPage} (hpage : pagealignDown b.block = pg.addr) :
    (b.block :: pg.liveIn (live.erase b)).Perm (pg.liveIn live) := by
  have hperm := ((List.perm_cons_erase hb).filter fun b => decide (pagealignDown b.block = pg.addr)).map
    LiveBlock.block
  rw [List.filter_cons_of_pos (by simpa using hpage), List.map_cons] at hperm
  exact hperm.symm

theorem liveIn_erase_ne {b : LiveBlock} (hb : b ∈ live) {pg : HeldPage} (hpage : pagealignDown b.block ≠ pg.addr) :
    (pg.liveIn (live.erase b)).Perm (pg.liveIn live) := by
  have hperm := ((List.perm_cons_erase hb).filter fun b => decide (pagealignDown b.block = pg.addr)).map
    LiveBlock.block
  rw [List.filter_cons_of_neg (by simpa using hpage)] at hperm
  exact hperm.symm

/-- A live block goes back to its page. -/
theorem give (h : SlabInv s pages live chain cls) {b : LiveBlock} (hb : b ∈ live) :
    ∃ s' chain' cls', kfree b.ptr s = .ok () s' ∧ SlabInv s' pages (live.erase b) chain' cls' ∧
      (s'.pageHdr (pagealignDown b.block)).firstfree = b.block := by
  obtain ⟨pg, hpg, hz, hc, haddr, hin, hblk⟩ := h.live_mem hb
  have hok := h.pageOk pg hpg
  have hpl := h.placed pg hpg
  have hlive := h.liveOk b hb
  have hflags : (s.blockHdr b.block).flags &&& memblockFree = 0 ∧ (s.blockHdr b.block).flags &&& gfpDma32 = 0 ∧
      zoneOfFlags (s.blockHdr b.block).flags = pg.zone ∧
      ((s.blockHdr b.block).flags ||| memblockFree) = memblockFree ||| zoneGfp pg.zone := by
    rw [hlive.flags, ← hz]
    rcases hpl.zone with e | e
    · rw [e]
      decide
    · rw [e]
      decide
  have hlen := h.chain_length hpg
  have hinside := hpl.inside hblk
  have hroom := (geometry hpl.order).room
  have hlt : b.block + memblockHdrSize < wordSize := by
    have := hpl.below
    unfold memblockHdrSize
    omega
  obtain ⟨s', hrun, ha⟩ := kfree_run hlt hflags.1 hflags.2.1 hflags.2.2.1 haddr.symm hok.order hok.nfree (by omega)
    fun e => hok.full (List.length_eq_zero_iff.mp e)
  rw [hlive.size, hflags.2.2.2] at ha
  have hbnd : b.block ∉ chain pg.addr := fun hm => h.chain_not_live hpg hm hb rfl
  have hblock_ne : ∀ y, y ≠ b.block → s'.blockHdr y = s.blockHdr y := by
    intro y hy
    rw [ha.blockHdr, Function.update_of_ne hy]
  have hsplit : (b.block :: chain pg.addr ++ pg.liveIn (live.erase b)).Perm pg.blocks := by
    rw [List.cons_append]
    refine List.perm_middle.symm.trans ?_
    exact ((liveIn_erase hb haddr.symm).append_left _).trans hok.split
  have hblk0 : b.block ≠ 0 := by
    unfold pageHdrSize at hinside
    omega
  refine ⟨s', Function.update chain pg.addr (b.block :: chain pg.addr), fun z c =>
    if z = pg.zone ∧ c = pg.order then
      if chain pg.addr = [] then pg.addr :: cls pg.zone pg.order else cls pg.zone pg.order
    else cls z c, hrun, ⟨ha.sizesOk h.sizes rfl rfl, h.placed, h.distinct, ?_, ?_, ?_⟩, ?_⟩
  · intro q hq
    by_cases hqa : q.addr = pg.addr
    · obtain rfl := h.page_unique hpg hq hqa
      rw [Function.update_self]
      refine hok.push hblk0 hbnd hsplit ha.pageHdr_self ?_ hblock_ne
      rw [ha.blockHdr, Function.update_self]
    · rw [Function.update_of_ne hqa]
      refine (h.pageOk q hq).congr (ha.pageHdr_ne hqa) ?_ (liveIn_erase_ne hb ?_)
      · intro y hy
        exact hblock_ne y fun e => h.chain_not_live hq hy hb e.symm
      · rw [← haddr]
        exact Ne.symm hqa
  · intro e he
    refine (h.liveOk e (List.mem_of_mem_erase he)).congr (fun _ hq => hq) (hblock_ne _ ?_)
    -- a second live block at this address would be on the page twice
    intro heq
    have hnd := hsplit.nodup_iff.mpr hpl.blocks_nodup
    rw [List.cons_append, List.nodup_cons] at hnd
    refine hnd.1 (List.mem_append_right _ ?_)
    refine List.mem_map.mpr ⟨e, List.mem_filter.mpr ⟨he, decide_eq_true ?_⟩, heq⟩
    rw [heq]
    exact haddr.symm
  · intro z c
    by_cases hzc : z = pg.zone ∧ c = pg.order
    · rw [if_pos hzc, hzc.1, hzc.2]
      exact h.classOk_push hpg hpl.pos.ne' hb hz hc rfl rfl ha
    · rw [if_neg hzc]
      refine h.classOk_other hpg ha _ hzc ?_
      have hsum := List.sum_map_erase (fun q : LiveBlock => if q.zone = z ∧ q.order = c then q.size else 0) hb
      rw [if_neg (fun e => hzc ⟨by rw [hz]; exact e.1.symm, by rw [hc]; exact e.2.symm⟩)] at hsum
      unfold liveBytes
      omega
  · rw [← haddr, ha.pageHdr_self]

end SlabInv

/-! ## A new page -/

/-- `page` is a cleared page that is not held; nothing else has changed between `s` and `t`. -/
structure FreshPage (s : Slab ρ) (pages : List HeldPage) (page : ℕ) (t : Slab ρ) : Prop where
  aligned : pagesize ∣ page
  pos : 0 < page
  below : page + pagesize ≤ wordSize
  apart : ∀ pg ∈ pages, pg.addr ≠ page
  zoneslabs : t.zoneslabs = s.zoneslabs
  pageHdr : ∀ x, pagealignDown x ≠ page → t.pageHdr x = s.pageHdr x
  blockHdr : ∀ x, pagealignDown x ≠ page → t.blockHdr x = s.blockHdr x
  zero : ∀ x, pagealignDown x = page → t.blockHdr x = ⟨0, 0⟩ ∧ t.pageHdr x = ⟨0, 0, 0, 0⟩

theorem pagealignDown_of_dvd {a : ℕ} (h : pagesize ∣ a) : pagealignDown a = a := by
  obtain ⟨k, hk⟩ := h
  unfold pagealignDown pagesize at *
  omega

theorem FreshPage.inv {s t : Slab ρ} {pages : List HeldPage} {live : List LiveBlock} {chain : ℕ → List ℕ}
    {cls : Zone → ℕ → List ℕ} {page : ℕ} (hf : FreshPage s pages page t) (h : SlabInv s pages live chain cls) :
    SlabInv t pages live chain cls := by
  have hpage : ∀ pg ∈ pages, t.pageHdr pg.addr = s.pageHdr pg.addr := by
    intro pg hpg
    refine hf.pageHdr _ ?_
    rw [pagealignDown_of_dvd (h.placed pg hpg).aligned]
    exact hf.apart pg hpg
  refine ⟨⟨?_, ?_⟩, h.placed, h.distinct, ?_, ?_, ?_⟩
  · rw [hf.zoneslabs]
    exact h.sizes.size
  · rw [hf.zoneslabs]
    exact h.sizes.nblocks
  · intro pg hpg
    refine (h.pageOk pg hpg).congr (hpage pg hpg) ?_ (List.Perm.refl _)
    intro x hx
    refine hf.blockHdr x ?_
    rw [h.chain_page hpg hx]
    exact hf.apart pg hpg
  · intro b hb
    obtain ⟨pg, hpg, -, -, haddr, -⟩ := h.live_mem hb
    refine (h.liveOk b hb).congr (fun _ hq => hq) (hf.blockHdr _ ?_)
    rw [← haddr]
    exact hf.apart pg hpg
  · intro z c
    refine (h.classOk z c).congr (by rw [hf.zoneslabs]) ?_ (fun _ => Iff.rfl) rfl rfl rfl
    intro x hx
    obtain ⟨pg, hpg, rfl, -⟩ := ((h.classOk z c).mem x).mp hx
    rw [hpage pg hpg]

/-- Equally spaced nodes, each linked to the next one. -/
theorem chained_spaced (next : ℕ → ℕ) (first step : ℕ) {n : ℕ} (hpos : 0 < first)
    (hnext : ∀ i < n, next (first + i * step) = if i + 1 = n then 0 else first + (i + 1) * step) :
    ∀ m k, k + m = n → Chained next 0 (if k = n then 0 else first + k * step)
      ((List.range' k m).map fun i => first + i * step)
  | 0, k, hk => by
    have e : k = n := by omega
    rw [if_pos e]
    rfl
  | m + 1, k, hk => by
    have hkn : k ≠ n := by omega
    rw [if_neg hkn, List.range'_succ, List.map_cons]
    refine ⟨rfl, by omega, ?_⟩
    rw [hnext k (by omega)]
    exact chained_spaced next first step hpos hnext m (k + 1) (by omega)

/-- A new page: all its blocks are free. -/
theorem PageOk.fresh {s : Slab ρ} {live : List LiveBlock} {pg : HeldPage} (hpl : pg.Placed)
    (hnone : pg.liveIn live = []) {next : ℕ}
    (hhdr : s.pageHdr pg.addr = ⟨next, pg.addr + pageHdrSize, pg.order, blockCount pg.order⟩)
    (hblocks : ∀ i < blockCount pg.order, s.blockHdr (pg.addr + pageHdrSize + i * blockSize pg.order) =
      ⟨memblockFree, if i + 1 = blockCount pg.order then 0 else
        pg.addr + pageHdrSize + (i + 1) * blockSize pg.order⟩) : PageOk s live pg pg.blocks where
  order := by rw [hhdr]
  nfree := by rw [hhdr, HeldPage.length_blocks]
  chained := by
    have hsome := (geometry hpl.order).some
    have hch := chained_spaced (fun x => (s.blockHdr x).next) (pg.addr + pageHdrSize) (blockSize pg.order)
      (n := blockCount pg.order) (by have := hpl.pos; omega)
      (fun i hi => by
        rw [hblocks i hi]
        rfl) (blockCount pg.order) 0 (Nat.zero_add _)
    rw [if_neg hsome.ne, Nat.zero_mul, Nat.add_zero, ← List.range_eq_range'] at hch
    rw [hhdr]
    exact hch
  split := by rw [hnone, List.append_nil]
  flags x hx := by
    obtain ⟨i, hi, rfl⟩ := HeldPage.mem_blocks.mp hx
    left
    rw [hblocks i hi]
  full e := by
    have hlen := HeldPage.length_blocks pg
    rw [e] at hlen
    exact absurd hlen (geometry hpl.order).some.ne

section NewPage
variable {pages : List HeldPage} {chain : ℕ → List ℕ} {pg : HeldPage}

theorem pageSum_cons (f : HeldPage → ℕ) (z : Zone) (c : ℕ) : pageSum (pg :: pages) f z c =
    (if pg.zone = z ∧ pg.order = c then f pg else 0) + pageSum pages f z c := by
  unfold pageSum
  rw [List.map_cons, List.sum_cons]

theorem pageSum_chains (hout : ∀ q ∈ pages, q.addr ≠ pg.addr) (xs : List ℕ) (z : Zone) (c : ℕ) :
    pageSum (pg :: pages) (fun q => (Function.update chain pg.addr xs q.addr).length) z c =
      (if pg.zone = z ∧ pg.order = c then xs.length else 0) + pageSum pages (fun q => (chain q.addr).length) z c := by
  rw [pageSum_cons, Function.update_self]
  congr 1
  unfold pageSum
  congr 1
  refine List.map_congr_left fun q hq => ?_
  simp only [Function.update_of_ne (hout q hq)]

/-- A new page changes nothing about the others. -/
theorem mem_cons_page {xs : List ℕ} {x : ℕ} (hx : x ≠ pg.addr) (z : Zone) (c : ℕ) :
    (∃ q ∈ pg :: pages, q.addr = x ∧ q.zone = z ∧ q.order = c ∧ Function.update chain pg.addr xs x ≠ []) ↔
      ∃ q ∈ pages, q.addr = x ∧ q.zone = z ∧ q.order = c ∧ chain x ≠ [] := by
  rw [Function.update_of_ne hx, List.exists_mem_cons_iff]
  exact or_iff_right fun hpg => hx hpg.1.symm

end NewPage

namespace SlabInv
variable {s t : Slab ρ} {pages : List HeldPage} {live : List LiveBlock} {chain : ℕ → List ℕ}
  {cls : Zone → ℕ → List ℕ}

theorem not_listed (h : SlabInv t pages live chain cls) {pg : HeldPage} (hout : ∀ q ∈ pages, q.addr ≠ pg.addr)
    (z : Zone) (c : ℕ) : pg.addr ∉ cls z c := by
  intro hm
  obtain ⟨q, hq, hqa, -⟩ := ((h.classOk z c).mem pg.addr).mp hm
  exact hout q hq hqa

/-- The class that gets a new page. -/
theorem classOk_grow (h : SlabInv t pages live chain cls) {s' : Slab ρ} {pg : HeldPage} (hpl : pg.Placed)
    (hout : ∀ q ∈ pages, q.addr ≠ pg.addr) {hd : PageHdr} (hnext : hd.next = (t.zoneslabs pg.zone pg.order).firstfree)
    {blocks : ℕ → MemblockHdr}
    (ha : Assigned t s' pg.zone pg.order pg.addr hd
      { (t.zoneslabs pg.zone pg.order).ledger with
        firstfree := pg.addr
        ntotal := add32 (t.zoneslabs pg.zone pg.order).ntotal (blockCount pg.order)
        nfree := add32 (t.zoneslabs pg.zone pg.order).nfree (blockCount pg.order) } blocks) :
    ClassOk s' (pg :: pages) live (Function.update chain pg.addr pg.blocks) pg.zone pg.order
      (pg.addr :: cls pg.zone pg.order) := by
  have hcls := h.classOk pg.zone pg.order
  have hl := ha.ledger_self
  have hnew := h.not_listed hout pg.zone pg.order
  refine ⟨?_, List.nodup_cons.mpr ⟨hnew, hcls.nodup⟩, ?_, ?_, ?_, ?_⟩
  · rw [show (s'.zoneslabs pg.zone pg.order).firstfree = pg.addr from congrArg Ledger.firstfree hl]
    refine hcls.chained.push hpl.pos.ne' hnew ?_ ?_
    · rw [ha.pageHdr_self, hnext]
    · intro y _ hy
      rw [ha.pageHdr_ne hy]
  · intro x
    by_cases hx : x = pg.addr
    · subst hx
      refine iff_of_true List.mem_cons_self ⟨pg, List.mem_cons_self, rfl, rfl, rfl, ?_⟩
      rw [Function.update_self]
      intro e
      have hlen := HeldPage.length_blocks pg
      rw [e] at hlen
      exact absurd hlen (geometry hpl.order).some.ne
    · rw [List.mem_cons, or_iff_right hx]
      exact (hcls.mem x).trans (mem_cons_page hx pg.zone pg.order).symm
  · have e : (s'.zoneslabs pg.zone pg.order).nfree =
        add32 (t.zoneslabs pg.zone pg.order).nfree (blockCount pg.order) := congrArg Ledger.nfree hl
    rw [e, hcls.nfree, add32_mod, pageSum_chains hout, if_pos ⟨rfl, rfl⟩, HeldPage.length_blocks, Nat.add_comm]
  · have e : (s'.zoneslabs pg.zone pg.order).ntotal =
        add32 (t.zoneslabs pg.zone pg.order).ntotal (blockCount pg.order) := congrArg Ledger.ntotal hl
    rw [e, hcls.ntotal, add32_mod, pageSum_cons, if_pos ⟨rfl, rfl⟩, Nat.add_comm]
  · have e : (s'.zoneslabs pg.zone pg.order).nbytesmalloced = (t.zoneslabs pg.zone pg.order).nbytesmalloced :=
      congrArg Ledger.nbytesmalloced hl
    rw [e]
    exact hcls.nbytes

/-- The classes that do not get the new page. -/
theorem classOk_grow_other (h : SlabInv t pages live chain cls) {s' : Slab ρ} {pg : HeldPage}
    (hout : ∀ q ∈ pages, q.addr ≠ pg.addr) {hd : PageHdr} {d : Ledger} {blocks : ℕ → MemblockHdr}
    (ha : Assigned t s' pg.zone pg.order pg.addr hd d blocks) (xs : List ℕ) {z : Zone} {c : ℕ}
    (hzc : ¬(z = pg.zone ∧ c = pg.order)) :
    ClassOk s' (pg :: pages) live (Function.update chain pg.addr xs) z c (cls z c) := by
  have hzc' : ¬(pg.zone = z ∧ pg.order = c) := fun e => hzc ⟨e.1.symm, e.2.symm⟩
  refine (h.classOk z c).congr (ha.ledger_ne hzc) ?_ ?_ ?_ ?_ rfl
  · intro x hx
    rw [ha.pageHdr_ne fun e => h.not_listed hout z c (e ▸ hx)]
  · intro x
    by_cases hx : x = pg.addr
    · subst hx
      refine iff_of_false ?_ fun ⟨q, hq, hqa, _⟩ => hout q hq hqa
      rintro ⟨q, hq, hqa, hqz, hqc, -⟩
      rcases List.mem_cons.mp hq with rfl | hq
      · exact hzc' ⟨hqz, hqc⟩
      · exact hout q hq hqa
    · exact mem_cons_page hx z c
  · rw [pageSum_chains hout, if_neg hzc', Nat.zero_add]
  · rw [pageSum_cons, if_neg hzc', Nat.zero_add]

/-- A class gets a new page. -/
theorem grow (h : SlabInv s pages live chain cls) {pageAllocPage : ℕ → Prog (Slab ρ) ℕ} {flags page : ℕ}
    (hsrc : pageAllocPage flags s = .ok page t) (hf : FreshPage s pages page t) {z : Zone} {c : ℕ}
    (hz : z = .NORMAL ∨ z = .DMA16) (hc : c < slabsizecount) :
    ∃ s' chain' cls', kmallocNewPage pageAllocPage z c flags s = .ok () s' ∧
      (s'.zoneslabs z c).firstfree = page ∧ SlabInv s' (⟨page, z, c⟩ :: pages) live chain' cls' := by
  have ht := hf.inv h
  have g := geometry hc
  obtain ⟨pg, rfl, rfl, rfl⟩ : ∃ pg : HeldPage, pg.addr = page ∧ pg.zone = z ∧ pg.order = c :=
    ⟨⟨page, z, c⟩, rfl, rfl, rfl⟩
  have hpl : pg.Placed := ⟨hf.aligned, hf.pos, hf.below, hc, hz⟩
  have hsize : (t.zoneslabs pg.zone pg.order).size = blockSize pg.order := by rw [ht.sizes.size, if_pos hc]
  have hbs : 0 < blockSize pg.order := by have := g.room; omega
  obtain ⟨s', blocks, hrun, ha, hset, hkeep⟩ := kmallocNewPage_run hsrc hf.pos hbs g.some hsize
    (ht.sizes.nblocks pg.zone pg.order hc) (by have := g.fits; have := hf.below; omega)
  have horder : pg.order % 2 ^ 16 = pg.order := Nat.mod_eq_of_lt (hc.trans (by decide))
  have hcount : blockCount pg.order % 2 ^ 16 = blockCount pg.order := Nat.mod_eq_of_lt (g.few.trans_lt (by decide))
  rw [horder, hcount] at ha
  have hother : ∀ x, pagealignDown x ≠ pg.addr → s'.blockHdr x = t.blockHdr x := by
    intro x hx
    rw [ha.blockHdr]
    refine hkeep x fun i hi e => hx ?_
    exact hpl.pagealignDown_eq (HeldPage.mem_blocks.mpr ⟨i, hi, e⟩)
  have hnone : pg.liveIn live = [] := by
    unfold HeldPage.liveIn
    rw [List.map_eq_nil_iff, List.filter_eq_nil_iff]
    intro b hb
    obtain ⟨q, hq, -, -, haddr, -⟩ := ht.live_mem hb
    simp only [decide_eq_true_eq]
    rw [← haddr]
    exact hf.apart q hq
  refine ⟨s', Function.update chain pg.addr pg.blocks,
    fun z' c' => if z' = pg.zone ∧ c' = pg.order then pg.addr :: cls z' c' else cls z' c',
    hrun, congrArg Ledger.firstfree ha.ledger_self, ha.sizesOk ht.sizes rfl rfl, ?_, ?_, ?_, ?_, ?_⟩
  · intro q hq
    rcases List.mem_cons.mp hq with rfl | hq
    · exact hpl
    · exact h.placed q hq
  · rw [List.map_cons, List.nodup_cons]
    refine ⟨fun hm => ?_, h.distinct⟩
    obtain ⟨q, hq, e⟩ := List.mem_map.mp hm
    exact hf.apart q hq e
  · intro q hq
    rcases List.mem_cons.mp hq with rfl | hq
    · rw [Function.update_self]
      refine PageOk.fresh hpl hnone ha.pageHdr_self fun i hi => ?_
      have hblock := HeldPage.mem_blocks.mpr ⟨i, hi, rfl⟩
      rw [ha.blockHdr, hset i hi, (hf.zero _ (hpl.pagealignDown_eq hblock)).1]
      rfl
    · have hne := hf.apart q hq
      rw [Function.update_of_ne hne]
      refine (ht.pageOk q hq).congr (ha.pageHdr_ne hne) ?_ (List.Perm.refl _)
      intro x hx
      refine hother x ?_
      rw [ht.chain_page hq hx]
      exact hne
  · intro b hb
    obtain ⟨q, hq, -, -, haddr, -⟩ := ht.live_mem hb
    refine (ht.liveOk b hb).congr (fun _ hq => List.mem_cons_of_mem _ hq) (hother _ ?_)
    rw [← haddr]
    exact hf.apart q hq
  · intro z' c'
    by_cases hzc : z' = pg.zone ∧ c' = pg.order
    · rw [if_pos hzc, hzc.1, hzc.2]
      exact ht.classOk_grow hpl hf.apart rfl ha
    · rw [if_neg hzc]
      exact ht.classOk_grow_other hf.apart ha _ hzc

end SlabInv

end Borgos.Mem
