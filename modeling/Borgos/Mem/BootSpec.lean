import Borgos.Mem.BuddySpec
import Borgos.Mem.PagemapSpec

/-! # What `phys_init` leaves on the free lists

`phys_freepages_low` walks the frames upwards and releases the longest aligned run it can from each
free frame it meets. Its invariant, `Releasing t p`, says that the free blocks cover exactly the free
frames below `p` and that nothing from `p` on has been touched. `BootState` is what holds when
`phys_init` returns.
-/
namespace Borgos.Mem
open Borgos.Foundations Borgos.Kcore Borgos.Foundations.Intrusive
set_option autoImplicit false

/-! ## `_testordertofree` -/

theorem isAlignedToOrder_dvd {pfn k : ℕ} (hpfn : pfn < 2 ^ 52) (h : isAlignedToOrder pfn k > 0) :
    2 ^ k ∣ pfn := by
  unfold isAlignedToOrder at h
  simp only at h
  split at h
  · next hmask =>
    have hphys : pfn2phys pfn = pfn * 2 ^ 12 := by
      unfold pfn2phys pagesize wordSize
      omega
    have hsize : pagesize * 2 ^ k = 2 ^ (k + 12) := by
      rw [pow_add, mul_comm]
      rfl
    rw [hphys, hsize, Nat.and_two_pow_sub_one_eq_mod] at hmask
    have hdvd := Nat.dvd_of_mod_eq_zero hmask
    rw [pow_add] at hdvd
    exact Nat.dvd_of_mul_dvd_mul_right (by norm_num) hdvd
  · omega

/-- The frames the scan has passed. -/
theorem testordertofreeScan_spec (s : Phys) (pfn maxPgdPfn : ℕ) : ∀ fuel p f, p ≤ f →
    f < testordertofreeScan s pfn maxPgdPfn fuel p →
    f ≤ s.pfnMax ∧ (s.pageframemap f).zone = (s.pageframemap pfn).zone ∧ (s.pageframemap f).usecount = 0
  | 0, p, f, hpf, hf => by
    unfold testordertofreeScan at hf
    omega
  | fuel + 1, p, f, hpf, hf => by
    unfold testordertofreeScan at hf
    split at hf
    · next hin =>
      split at hf
      · omega
      · next hz =>
        split at hf
        · omega
        · split at hf
          · omega
          · next hu =>
            split at hf
            · omega
            · split at hf
              · omega
              · by_cases e : p = f
                · subst e
                  refine ⟨hin.1, ?_, by omega⟩
                  by_contra hne
                  exact hz fun e' => hne e'.symm
                · exact testordertofreeScan_spec s pfn maxPgdPfn fuel (p + 1) f (by omega) hf
    · omega

/-- The order found is one the run of free frames from `pfn` has room and alignment for. -/
theorem testordertofree_spec (s : Phys) (pfn maxPgdPfn : ℕ) (hpfn : pfn < 2 ^ 52) :
    testordertofree s pfn maxPgdPfn ≤ allocbuddyMaxorder ∧ 2 ^ testordertofree s pfn maxPgdPfn ∣ pfn ∧
    (testordertofree s pfn maxPgdPfn = 0 ∨ ∀ f ∈ (⟨pfn, testordertofree s pfn maxPgdPfn⟩ : Block).frames,
      f ≤ s.pfnMax ∧ (s.pageframemap f).zone = (s.pageframemap pfn).zone ∧
        (s.pageframemap f).usecount = 0) := by
  have hscan := testordertofreeScan_spec s pfn maxPgdPfn (2 ^ allocbuddyMaxorder) pfn
  have key : ∀ k, k ≤ allocbuddyMaxorder →
      testordertofreeScan s pfn maxPgdPfn (2 ^ allocbuddyMaxorder) pfn - pfn ≥ 2 ^ k ∧
        isAlignedToOrder pfn k > 0 →
      k ≤ allocbuddyMaxorder ∧ 2 ^ k ∣ pfn ∧ (k = 0 ∨ ∀ f ∈ (⟨pfn, k⟩ : Block).frames,
        f ≤ s.pfnMax ∧ (s.pageframemap f).zone = (s.pageframemap pfn).zone ∧
          (s.pageframemap f).usecount = 0) := by
    intro k hk h
    refine ⟨hk, isAlignedToOrder_dvd hpfn h.2, Or.inr fun f hf => ?_⟩
    rw [Block.mem_frames] at hf
    simp only at hf
    exact hscan f hf.1 (by omega)
  unfold testordertofree
  simp only
  split
  · next h => exact key 6 (by decide) h
  · split
    · next h => exact key 5 (by decide) h
    · split
      · next h => exact key 4 (by decide) h
      · split
        · next h => exact key 3 (by decide) h
        · split
          · next h => exact key 2 (by decide) h
          · split
            · next h => exact key 1 (by decide) h
            · exact ⟨Nat.zero_le _, one_dvd _, Or.inl rfl⟩

/-! ## `phys_freepages_low` -/

/-- A descriptor of the array with use count 0. -/
def Releasable (t : Phys) (f : ℕ) : Prop := f ≤ t.pfnMax ∧ (t.pageframemap f).usecount = 0

/-- The descriptors as `phys_pagemap_init` leaves them. -/
structure Untouched (t : Phys) : Prop where
  cap : t.pfnMax ≤ maxbootpgdPfn
  order : ∀ f, f ≤ t.pfnMax → (t.pageframemap f).order = 0
  zoned : ∀ f, f ≤ t.pfnMax → ∃ z, (t.pageframemap f).zone = some z

structure Releasing (t : Phys) (p : ℕ) (s : Phys) (L : Lists) : Prop where
  buddy : Buddy s L
  coalesced : AllCoalesced L
  covers : ∀ z f, f ∈ covered (L.free z) ↔ f < p ∧ Releasable t f ∧ (t.pageframemap f).zone = some z
  same : SameBut {f | f < p} ∅ t s

/-- One released block. -/
theorem Releasing.step {t s : Phys} {p : ℕ} {L : Lists} (ht : Untouched t) (h : Releasing t p s L)
    (hp : p ≤ s.pfnMax) (hfree : (s.pageframemap p).usecount = 0) :
    ∃ s' L', (do
        Prog.modify fun s => s.setOrder p (testordertofree s p maxbootpgdPfn)
        Prog.modify fun s => s.setUsecount p 1
        pageFreePagePfn p : Prog Phys Unit) s = .ok () s' ∧
      Releasing t (p + 2 ^ testordertofree s p maxbootpgdPfn) s' L' ∧
      ∀ f ∈ (⟨p, testordertofree s p maxbootpgdPfn⟩ : Block).frames, Releasable t f := by
  have hmax : s.pfnMax = t.pfnMax := h.same.pfnMax
  have hcap : p < 2 ^ 52 := by
    have := ht.cap
    unfold maxbootpgdPfn at this
    omega
  obtain ⟨hk, hal, hrun⟩ := testordertofree_spec s p maxbootpgdPfn hcap
  obtain ⟨k, hke⟩ : ∃ k, k = testordertofree s p maxbootpgdPfn := ⟨_, rfl⟩
  rw [← hke] at hk hal hrun ⊢
  obtain ⟨z, hz⟩ := ht.zoned p (hmax ▸ hp)
  have hzs : (s.pageframemap p).zone = some z := (h.same.zone p).trans hz
  -- the frames of the block are free frames of the zone of `p`
  have hblock : ∀ f ∈ (⟨p, k⟩ : Block).frames, f ≤ s.pfnMax ∧ (s.pageframemap f).zone = some z ∧
      (s.pageframemap f).usecount = 0 := by
    intro f hf
    rcases hrun with e | hrun
    · subst e
      have : f = p := by
        rw [Block.mem_frames] at hf
        simp only [pow_zero] at hf
        omega
      rw [this]
      exact ⟨hp, hzs, hfree⟩
    · rw [← hzs]
      exact hrun f hf
  have hrel : ∀ f ∈ (⟨p, k⟩ : Block).frames, Releasable t f := by
    intro f hf
    refine ⟨hmax ▸ (hblock f hf).1, ?_⟩
    rw [← h.same.use f (Set.notMem_empty f)]
    exact (hblock f hf).2.2
  have hout : ∀ z', ∀ f ∈ (⟨p, k⟩ : Block).frames, f ∉ covered (L.free z') := by
    intro z' f hf hc
    have := ((h.covers z' f).mp hc).1
    rw [Block.mem_frames] at hf
    simp only at hf
    omega
  have hhead := Block.head_mem ⟨p, k⟩
  have hnot : ∀ z' k', p ∉ L z' k' :=
    fun z' k' hm => hout z' p hhead ⟨⟨p, k'⟩, hm, Block.head_mem ⟨p, k'⟩⟩
  have h1 := (h.buddy.setOrder hnot k).setUsecount (fun z' => hout z' p hhead) 1
  have hone : (((s.setOrder p k).setUsecount p 1).pageframemap p).usecount = 1 := setUsecount_usecount _ _ _
  -- lowering the use count again leaves only the order changed
  have hback : SameBut {p} ∅ s (((s.setOrder p k).setUsecount p 1).setUsecount p 0) := by
    have hs : SameBut {p} {p} s (((s.setOrder p k).setUsecount p 1).setUsecount p 0) :=
      ((SameBut.setOrder s k (Set.mem_singleton p)).trans
        (SameBut.setUsecount _ 1 (Set.mem_singleton p))).trans
          (SameBut.setUsecount _ 0 (Set.mem_singleton p))
    refine ⟨hs.pfnMax, hs.zone, hs.memsegment, hs.order, fun f _ => ?_⟩
    by_cases e : f = p
    · rw [e, setUsecount_usecount, hfree]
    · exact hs.use f e
  have hin : InHand (((s.setOrder p k).setUsecount p 1).setUsecount p 0) L z p k := by
    refine ⟨hk, hal, ?_, ?_, ?_, ?_, hout z⟩
    · rw [setUsecount_order, setUsecount_order, setOrder_order]
    · intro f hf
      rw [hback.pfnMax]
      exact (hblock f hf).1
    · intro f hf
      rw [hback.zone]
      exact (hblock f hf).2.1
    · intro f hf
      rw [hback.use f (Set.notMem_empty f)]
      exact (hblock f hf).2.2
  obtain ⟨s', L', hfreed, hdone⟩ := pageFreePagePfn_spec h1 h.coalesced hone hin
  refine ⟨s', L', ?_, ⟨hdone.buddy, hdone.coalesced, ?_, ?_⟩, hrel⟩
  · rw [Prog.bind_run, Prog.modify_run, Outcome.andThen_ok, Prog.bind_run, Prog.modify_run,
      Outcome.andThen_ok, ← hke]
    exact hfreed
  · intro z' f
    by_cases e : z' = z
    · subst e
      rw [hdone.covers, Set.mem_union, h.covers]
      constructor
      · intro hf
        rcases hf with ⟨hlt, hf⟩ | hf
        · exact ⟨by omega, hf⟩
        · have hfz : (t.pageframemap f).zone = some z' := (h.same.zone f).symm.trans (hblock f hf).2.1
          have hlt := (Block.mem_frames.mp hf).2
          exact ⟨hlt, hrel f hf, hfz⟩
      · intro hf
        by_cases hlt : f < p
        · exact Or.inl ⟨hlt, hf.2⟩
        · exact Or.inr (Block.mem_frames.mpr ⟨by simp only; omega, hf.1⟩)
    · rw [Lists.free_congr (hdone.elsewhere z' e), h.covers]
      constructor
      · intro hf
        exact ⟨by omega, hf.2⟩
      · intro hf
        refine ⟨?_, hf.2⟩
        by_contra hlt
        have hb : f ∈ (⟨p, k⟩ : Block).frames := Block.mem_frames.mpr ⟨by simp only; omega, hf.1⟩
        have hfz : (t.pageframemap f).zone = some z := (h.same.zone f).symm.trans (hblock f hb).2.1
        exact e (Option.some.inj (hf.2.2.symm.trans hfz))
  · have hpow := Nat.two_pow_pos k
    have hA : SameBut {f | f < p + 2 ^ k} ∅ s s' := by
      refine (hback.mono ?_ subset_rfl).trans (hdone.same.mono ?_ subset_rfl)
      · intro f hf
        rw [Set.mem_singleton_iff.mp hf]
        show p < p + 2 ^ k
        omega
      · intro f hf
        rcases hf with hf | hf
        · have := ((h.covers z f).mp hf).1
          show f < p + 2 ^ k
          omega
        · exact (Block.mem_frames.mp hf).2
    refine (h.same.mono ?_ subset_rfl).trans hA
    intro f hf
    have hlt : f < p := hf
    show f < p + 2 ^ k
    omega

/-- The loop releases exactly the free frames from `p` on. -/
theorem physFreepagesLowFrom_spec {t : Phys} (ht : Untouched t) : ∀ (fuel p : ℕ) (s : Phys) (L : Lists),
    Releasing t p s L → t.pfnMax < p + fuel →
    ∃ released s' L' p', physFreepagesLowFrom fuel p s = .ok released s' ∧ Releasing t p' s' L' ∧
      t.pfnMax < p' ∧
      ∀ f, (∃ b ∈ released, f ∈ b.frames) ↔ p ≤ f ∧ Releasable t f
  | 0, p, s, L, h, hf => by
    have hmax : s.pfnMax = t.pfnMax := h.same.pfnMax
    have hno : ¬(p ≤ s.pfnMax ∧ p ≤ maxbootpgdPfn) := by omega
    refine ⟨[], s, L, p, ?_, h, by omega, fun f => ?_⟩
    · simp only [physFreepagesLowFrom, Prog.bind_run, Prog.get_run, Outcome.andThen_ok, hno, if_false,
        Prog.pure_run]
    · simp only [List.not_mem_nil, false_and, exists_false, false_iff]
      intro hf'
      have := hf'.2.1
      omega
  | fuel + 1, p, s, L, h, hf => by
    have hmax : s.pfnMax = t.pfnMax := h.same.pfnMax
    have hcap := ht.cap
    by_cases hp : p ≤ s.pfnMax
    · have hin : p ≤ s.pfnMax ∧ p ≤ maxbootpgdPfn := ⟨hp, by omega⟩
      have hord : (s.pageframemap p).order < 1 := by
        rw [h.same.order p (by show ¬p < p; omega), ht.order p (by omega)]
        decide
      by_cases hu : (s.pageframemap p).usecount < 1
      · obtain ⟨s₁, L₁, hrun, hrel, hblock⟩ := h.step ht hp (by omega)
        obtain ⟨k, hke⟩ : ∃ k, k = testordertofree s p maxbootpgdPfn := ⟨_, rfl⟩
        rw [← hke] at hrel hblock
        have hpow := Nat.two_pow_pos k
        obtain ⟨released, s', L', p', hloop, hdone, hp', hset⟩ :=
          physFreepagesLowFrom_spec ht fuel (p + 2 ^ k) s₁ L₁ hrel (by omega)
        refine ⟨⟨p, k⟩ :: released, s', L', p', ?_, hdone, hp', fun f => ?_⟩
        · have hnext : p + (2 ^ k - 1) + 1 = p + 2 ^ k := by omega
          rw [Prog.bind_run, Prog.modify_run, Outcome.andThen_ok, Prog.bind_run, Prog.modify_run,
            Outcome.andThen_ok, ← hke] at hrun
          unfold physFreepagesLowFrom
          rw [Prog.bind_run, Prog.get_run, Outcome.andThen_ok, if_pos hin, if_pos ⟨hord, hu⟩, ← hke]
          rw [Prog.bind_run, Prog.modify_run, Outcome.andThen_ok, Prog.bind_run, Prog.modify_run,
            Outcome.andThen_ok, Prog.bind_run, hrun, Outcome.andThen_ok, hnext, Prog.bind_run, hloop,
            Outcome.andThen_ok, Prog.pure_run]
        · simp only [List.mem_cons, exists_eq_or_imp, hset]
          constructor
          · intro hf'
            rcases hf' with hf' | hf'
            · exact ⟨(Block.mem_frames.mp hf').1, hblock f hf'⟩
            · exact ⟨by omega, hf'.2⟩
          · intro hf'
            by_cases hlt : f < p + 2 ^ k
            · exact Or.inl (Block.mem_frames.mpr ⟨hf'.1, hlt⟩)
            · exact Or.inr ⟨by omega, hf'.2⟩
      · -- a frame in use is stepped over
        have hnot : ¬Releasable t p := by
          intro hr
          have := h.same.use p (Set.notMem_empty p)
          have := hr.2
          omega
        have hrel : Releasing t (p + 1) s L := by
          refine ⟨h.buddy, h.coalesced, fun z f => ?_, h.same.mono ?_ subset_rfl⟩
          · rw [h.covers]
            constructor
            · intro hf'
              exact ⟨by omega, hf'.2⟩
            · intro hf'
              refine ⟨?_, hf'.2⟩
              by_contra hlt
              have e : f = p := by omega
              exact hnot (e ▸ hf'.2.1)
          · intro f hf'
            have hlt : f < p := hf'
            show f < p + 1
            omega
        obtain ⟨released, s', L', p', hloop, hdone, hp', hset⟩ :=
          physFreepagesLowFrom_spec ht fuel (p + 1) s L hrel (by omega)
        refine ⟨released, s', L', p', ?_, hdone, hp', fun f => ?_⟩
        · simp only [physFreepagesLowFrom, Prog.bind_run, Prog.get_run, Outcome.andThen_ok, hin, and_self,
            if_true, hu, and_false, if_false, hloop]
        · rw [hset]
          constructor
          · intro hf'
            exact ⟨by omega, hf'.2⟩
          · intro hf'
            refine ⟨?_, hf'.2⟩
            by_contra hlt
            have e : f = p := by omega
            exact hnot (e ▸ hf'.2)
    · have hno : ¬(p ≤ s.pfnMax ∧ p ≤ maxbootpgdPfn) := fun hc => hp hc.1
      refine ⟨[], s, L, p, ?_, h, by omega, fun f => ?_⟩
      · simp only [physFreepagesLowFrom, Prog.bind_run, Prog.get_run, Outcome.andThen_ok, hno, if_false,
          Prog.pure_run]
      · simp only [List.not_mem_nil, false_and, exists_false, false_iff]
        intro hf'
        have := hf'.2.1
        omega

/-! ## `phys_init` -/

theorem initListHead_fold : ∀ (l : List Node) (h : Links Node) (n : Node),
    (n ∈ l → l.foldl initListHead h n = ⟨some n, some n⟩) ∧ (n ∉ l → l.foldl initListHead h n = h n)
  | [], h, n => by simp
  | m :: l, h, n => by
    obtain ⟨h1, h2⟩ := initListHead_fold l (initListHead h m) n
    rw [List.foldl_cons]
    by_cases hl : n ∈ l
    · exact ⟨fun _ => h1 hl, fun hn => absurd (List.mem_cons_of_mem m hl) hn⟩
    · rw [h2 hl]
      by_cases e : n = m
      · subst e
        exact ⟨fun _ => Function.update_self .., fun hn => absurd List.mem_cons_self hn⟩
      · refine ⟨fun hn => ?_, fun _ => Function.update_of_ne e ..⟩
        rcases List.mem_cons.mp hn with e' | hl'
        · exact absurd e' e
        · exact absurd hl' hl

/-- Every free list is empty. -/
theorem physInitMemoryzones_head (s : Phys) (z : Zone) {k : ℕ} (hk : k ≤ allocbuddyMaxorder) :
    (physInitMemoryzones s).links (.freelist z k) = ⟨some (.freelist z k), some (.freelist z k)⟩ := by
  refine (initListHead_fold _ _ _).1 (List.mem_flatMap.mpr ⟨z, ?_, ?_⟩)
  · cases z <;> simp
  · exact List.mem_map.mpr ⟨k, List.mem_range.mpr (by omega), rfl⟩

/-- The state with all lists empty and all descriptors unlinked. -/
theorem Buddy.empty (t : Phys)
    (hheads : ∀ z k, k ≤ allocbuddyMaxorder →
      t.links (.freelist z k) = ⟨some (.freelist z k), some (.freelist z k)⟩)
    (halone : ∀ f, f ≤ t.pfnMax → t.links (.page f) = ⟨some (.page f), some (.page f)⟩) :
    Buddy t fun _ _ => [] := by
  have hfree : ∀ z (b : Block), b ∉ Lists.free (fun _ _ => []) z := fun z b => List.not_mem_nil
  refine ⟨⟨?_, ?_, ?_, ?_, ?_, ?_⟩, fun _ _ _ => rfl, fun z => ⟨?_, ?_, ?_⟩, ?_, ?_, ?_, ?_⟩
  · intro i
    have hi := hheads i.1 i.2.val (by have := i.2.isLt; unfold allocbuddyMaxorder; omega)
    refine ⟨List.isChain_cons_cons.mpr ⟨⟨?_, ?_⟩, List.isChain_singleton _⟩, ?_⟩
    · show (t.links (.freelist i.1 i.2.val)).next = _
      rw [hi]
      rfl
    · show (t.links (.freelist i.1 i.2.val)).prev = _
      rw [hi]
      rfl
    · exact List.nodup_singleton _
  · intro i j e
    have h1 := (Node.freelist.inj e).1
    have h2 := (Node.freelist.inj e).2
    exact Prod.ext h1 (Fin.ext h2)
  · intro i hm
    obtain ⟨p, -, e⟩ := hm
    cases e
  · intro i x hx
    exact absurd hx List.not_mem_nil
  · intro i j x hx
    exact absurd hx List.not_mem_nil
  · intro x hx _
    obtain ⟨p, hp, rfl⟩ := hx
    exact Or.inr (halone p hp)
  · intro b hb
    exact absurd hb (hfree z b)
  · intro b hb
    exact absurd hb (hfree z b)
  · intro b hb
    exact absurd hb (hfree z b)
  · intro z k p hp
    exact absurd hp List.not_mem_nil
  · intro z b hb
    exact absurd hb (hfree z b)
  · intro z b hb
    exact absurd hb (hfree z b)
  · intro z b hb
    exact absurd hb (hfree z b)

/-- What holds when `phys_init` has returned the list of blocks it released. -/
structure BootState (released : List Block) (s : Phys) (L : Lists) : Prop where
  buddy : Buddy s L
  coalesced : AllCoalesced L
  covers : ∀ z f, f ∈ covered (L.free z) ↔ Releasable s f ∧ (s.pageframemap f).zone = some z
  released : ∀ f, (∃ b ∈ released, f ∈ b.frames) ↔ Releasable s f
  zoned : ∀ f, f ≤ s.pfnMax → ∃ z, (s.pageframemap f).zone = some z
  marks : ∀ f, f ≤ s.pfnMax → (s.pageframemap f).usecount ∈ bootUsecounts

/-- The descriptors `phys_init` leaves are those of `phys_pagemap_init` up to order fields. -/
structure BootLayout (b : BootInfo) (s₀ s : Phys) (largestnormal top : MemmapEntry) (t : Phys) : Prop where
  chosen : b.memmap.foldl chooseEntry (none, none) = (some largestnormal, some top)
  pagemap : PagemapDone b ((setLimits largestnormal top s₀).pfnMax + 1)
    (setLimits largestnormal top (physInitMemoryzones s₀)) t
  same : SameBut Set.univ ∅ t s

/-- From the descriptors to the free lists. -/
theorem physFreepagesLow_spec {b : BootInfo} {s₀ t : Phys} {n m : MemmapEntry} {pfnCount : ℕ}
    (h : PagemapDone b pfnCount (setLimits n m (physInitMemoryzones s₀)) t) :
    ∃ released s L, physFreepagesLow t = .ok released s ∧ BootState released s L ∧
      SameBut Set.univ ∅ t s := by
  have ht : Untouched t := by
    refine ⟨?_, fun f hf => h.order f (h.pfnMax ▸ hf), fun f hf => ⟨_, h.zone f (h.pfnMax ▸ hf)⟩⟩
    rw [h.pfnMax]
    exact Nat.min_le_right _ _
  have hbuddy : Buddy t fun _ _ => [] := by
    refine Buddy.empty t ?_ fun f hf => h.alone f (h.pfnMax ▸ hf)
    intro z k hk
    rw [h.heads]
    exact physInitMemoryzones_head s₀ z hk
  have hno : ∀ z (c : Block), c ∉ Lists.free (fun _ _ => []) z := fun z c => List.not_mem_nil
  have hstart : Releasing t 0 t fun _ _ => [] := by
    refine ⟨hbuddy, fun z => ⟨hbuddy.tiled z, fun c hc => absurd hc (hno z c)⟩, ?_, SameBut.refl t⟩
    intro z f
    constructor
    · intro hf
      obtain ⟨c, hc, -⟩ := hf
      exact absurd hc (hno z c)
    · intro hf
      exact absurd hf.1 (Nat.not_lt_zero f)
  obtain ⟨released, s, L, p, hrun, hdone, hp, hset⟩ :=
    physFreepagesLowFrom_spec ht (t.pfnMax + 1) 0 t _ hstart (by omega)
  have hrel : ∀ f, Releasable t f ↔ Releasable s f := by
    intro f
    unfold Releasable
    rw [hdone.same.pfnMax, hdone.same.use f (Set.notMem_empty f)]
  refine ⟨released, s, L, ?_, ⟨hdone.buddy, hdone.coalesced, ?_, ?_, ?_, ?_⟩,
    hdone.same.mono (fun _ _ => trivial) subset_rfl⟩
  · simp only [physFreepagesLow, Prog.bind_run, Prog.get_run, Outcome.andThen_ok, hrun]
  · intro z f
    rw [hdone.covers, ← hrel, hdone.same.zone]
    constructor
    · exact fun hf => hf.2
    · intro hf
      have := hf.1.1
      exact ⟨by omega, hf⟩
  · intro f
    rw [hset, ← hrel]
    exact ⟨fun hf => hf.2, fun hf => ⟨Nat.zero_le f, hf⟩⟩
  · intro f hf
    rw [hdone.same.zone]
    exact ht.zoned f (hdone.same.pfnMax ▸ hf)
  · intro f hf
    rw [hdone.same.use f (Set.notMem_empty f)]
    rw [hdone.same.pfnMax, h.pfnMax] at hf
    exact h.marks f hf

/-- What `phys_init` has done when it returns. -/
theorem physInit_spec (b : BootInfo) (s₀ s : Phys) (released : List Block)
    (h : physInit b s₀ = .ok released s) :
    ∃ n m t L, BootLayout b s₀ s n m t ∧ BootState released s L := by
  unfold physInit at h
  rw [Prog.bind_run, Prog.modify_run, Outcome.andThen_ok] at h
  obtain ⟨chosen, hchoose⟩ : ∃ c, b.memmap.foldl chooseEntry (none, none) = c := ⟨_, rfl⟩
  rw [hchoose] at h
  obtain ⟨normal, highest⟩ := chosen
  cases normal with
  | none => cases h
  | some n =>
    cases highest with
    | none => cases h
    | some m =>
      simp only at h
      rw [Prog.bind_run, Prog.modify_run, Outcome.andThen_ok, Prog.bind_run, Prog.get_run,
        Outcome.andThen_ok] at h
      obtain ⟨_, t, hinit, hlow⟩ := Prog.bind_ok.mp h
      have hdone := physPagemapInit_spec b _ _ t hinit
      obtain ⟨released', s', L, hrun, hboot, hsame⟩ := physFreepagesLow_spec hdone
      rw [hrun] at hlow
      cases hlow
      exact ⟨n, m, t, L, ⟨hchoose, hdone, hsame⟩, hboot⟩

/-- `phys_init` returns when the map has an entry to use and the counter of no entry wraps. -/
theorem physInit_returns (b : BootInfo) (s₀ : Phys) {n m : MemmapEntry}
    (hchoose : b.memmap.foldl chooseEntry (none, none) = (some n, some m))
    (hwalk : ∀ e ∈ b.memmap, e.Walkable) : ∃ released s, physInit b s₀ = .ok released s := by
  obtain ⟨t, ht⟩ := physPagemapInit_returns b ((setLimits n m (physInitMemoryzones s₀)).pfnMax + 1)
    (setLimits n m (physInitMemoryzones s₀)) hwalk
  obtain ⟨released, s, L, hrun, -⟩ := physFreepagesLow_spec (physPagemapInit_spec b _ _ t ht)
  refine ⟨released, s, ?_⟩
  unfold physInit
  rw [Prog.bind_run, Prog.modify_run, Outcome.andThen_ok, hchoose]
  simp only
  rw [Prog.bind_run, Prog.modify_run, Outcome.andThen_ok, Prog.bind_run, Prog.get_run,
    Outcome.andThen_ok]
  exact Prog.bind_ok.mpr ⟨(), t, ht, hrun⟩

/-! ## A map with two banks

64 free frames from frame 0 and 512 from 1 MiB, the kernel image and the boot heap at the start of the
second bank. -/

def lowBank : MemmapEntry := ⟨0, 0x40000, .FREE, by norm_num, by norm_num⟩

def highBank : MemmapEntry := ⟨0x100000, 0x200000, .FREE, by norm_num, by norm_num⟩

def twoBanks : BootInfo := ⟨[lowBank, highBank], 0x100000, 0x13ffff⟩

/-- Memory at power-on, with the boot heap right after the kernel image. -/
def powerOn : Phys := ⟨fun _ => ⟨0, 0, none, 0⟩, fun _ => null, 0, 0, 0, ⟨0x140000, 0x140000, 0x100000⟩⟩

theorem lowBank_end : lowBank.endAddr = 0x3ffff := by
  norm_num [MemmapEntry.endAddr, lowBank, wordSize]

theorem highBank_end : highBank.endAddr = 0x2fffff := by
  norm_num [MemmapEntry.endAddr, highBank, wordSize]

theorem twoBanks_chosen : twoBanks.memmap.foldl chooseEntry (none, none) = (some highBank, some highBank) := by
  rfl

theorem twoBanks_walkable : ∀ e ∈ twoBanks.memmap, e.Walkable := by
  intro e he
  simp only [twoBanks, List.mem_cons, List.not_mem_nil, or_false] at he
  unfold MemmapEntry.Walkable
  rcases he with e | e
  · subst e
    rw [lowBank_end]
    norm_num [wordSize, pagesize, lowBank]
  · subst e
    rw [highBank_end]
    norm_num [wordSize, pagesize, highBank]

theorem twoBanks_returns : ∃ released s, physInit twoBanks powerOn = .ok released s :=
  physInit_returns twoBanks powerOn twoBanks_chosen twoBanks_walkable

theorem mem_lowBank_walked {f : ℕ} : f ∈ lowBank.walked ↔ f < 64 := by
  unfold MemmapEntry.walked
  rw [lowBank_end]
  show (∃ i, 0 + pagesize * i < 0x3ffff ∧ framePfn (0 + pagesize * i) = f) ↔ f < 64
  constructor
  · intro h
    obtain ⟨i, hi, rfl⟩ := h
    rw [framePfn_of_lt (by omega)]
    unfold pagesize at hi ⊢
    omega
  · intro h
    refine ⟨f, by unfold pagesize; omega, ?_⟩
    rw [framePfn_of_lt (by unfold pagesize; omega)]
    unfold pagesize
    omega

theorem mem_highBank_walked {f : ℕ} : f ∈ highBank.walked ↔ 256 ≤ f ∧ f < 768 := by
  unfold MemmapEntry.walked
  rw [highBank_end]
  show (∃ i, 0x100000 + pagesize * i < 0x2fffff ∧ framePfn (0x100000 + pagesize * i) = f) ↔ 256 ≤ f ∧ f < 768
  constructor
  · intro h
    obtain ⟨i, hi, rfl⟩ := h
    rw [framePfn_of_lt (by omega)]
    unfold pagesize at hi ⊢
    omega
  · intro h
    refine ⟨f - 256, by unfold pagesize; omega, ?_⟩
    rw [framePfn_of_lt (by unfold pagesize; omega)]
    unfold pagesize
    omega

/-- What `phys_init` makes of the two banks. -/
theorem twoBanks_covers {released : List Block} {s : Phys} (h : physInit twoBanks powerOn = .ok released s) :
    ∃ L, BootState released s L ∧ s.pfnMax = 767 ∧ ∀ f, f ≤ 767 →
      ((s.pageframemap f).usecount = 0 ↔ f < 64 ∨ 328 ≤ f) ∧
      (s.pageframemap f).zone = some (if f < 256 then .DMA16 else .NORMAL) := by
  obtain ⟨n, m, t, L, hlay, hboot⟩ := physInit_spec twoBanks powerOn s released h
  have hnm := hlay.chosen.symm.trans twoBanks_chosen
  obtain ⟨hn, hm⟩ := Prod.mk.inj hnm
  cases Option.some.inj hn
  cases Option.some.inj hm
  have hlim : (setLimits highBank highBank (physInitMemoryzones powerOn)).pfnMax = 767 ∧
      (setLimits highBank highBank (physInitMemoryzones powerOn)).pfnNormalMin = 256 ∧
      (setLimits highBank highBank (physInitMemoryzones powerOn)).pfnNormalMax = 767 := by
    unfold setLimits
    simp only [highBank_end]
    norm_num [pagealignDown, pagealignUp, pagesize, maxpgdPfn, highBank, wordSize]
  have hmax : t.pfnMax = 767 := hlay.pagemap.pfnMax.trans hlim.1
  refine ⟨L, hboot, hlay.same.pfnMax.trans hmax, fun f hf => ⟨?_, ?_⟩⟩
  · rw [hlay.same.use f (Set.notMem_empty f), hlay.pagemap.use f (by rw [hlim.1]; exact hf)]
    have hfree : f ∈ freeWalked twoBanks.memmap ↔ f < 64 ∨ 256 ≤ f := by
      have h1 : lowBank.type = .FREE ∧ phys2pfn lowBank.addr < maxpgdPfn := ⟨rfl, by decide⟩
      have h2 : highBank.type = .FREE ∧ phys2pfn highBank.addr < maxpgdPfn := ⟨rfl, by decide⟩
      simp only [freeWalked, twoBanks, List.mem_cons, List.not_mem_nil, or_false, Set.mem_ofPred_eq,
        exists_eq_or_imp, exists_eq_left, h1, h2, true_and, mem_lowBank_walked, mem_highBank_walked]
      omega
    have hres : f ∉ reservedWalked twoBanks.memmap := by
      intro hm
      obtain ⟨e, he, ht, -⟩ := hm
      simp only [twoBanks, List.mem_cons, List.not_mem_nil, or_false] at he
      rcases he with e | e <;> subst e <;> cases ht
    have hkeep : (reserveOf twoBanks (setLimits highBank highBank (physInitMemoryzones powerOn))
        ((setLimits highBank highBank powerOn).pfnMax + 1)).Keeps f ↔ 256 ≤ f ∧ f ≤ 327 := by
      have hmax : (setLimits highBank highBank powerOn).pfnMax = 767 := hlim.1
      unfold reserveOf Reserve.Keeps bootmemTop
      rw [hmax]
      norm_num [phys2pfn, pagesize, twoBanks, setLimits, physInitMemoryzones, powerOn, sizeofPage, wordSize]
      omega
    constructor
    · intro he
      have := hfree.mp he.free
      have := mt hkeep.mpr he.unkept
      omega
    · intro hf'
      refine ⟨hfree.mpr (by omega), mt hkeep.mp (by omega), hres⟩
  · rw [hlay.same.zone, hlay.pagemap.zone f (by rw [hlim.1]; exact hf)]
    unfold physZoneForPfn pfnDma16Max
    rw [hlim.1, hlim.2.1, hlim.2.2]
    by_cases hlow : f < 256
    · rw [if_neg (by omega), if_neg (by omega), if_pos (by omega), if_pos hlow]
    · rw [if_pos (by omega), if_neg hlow]

end Borgos.Mem
