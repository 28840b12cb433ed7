import Borgos.Mem.Phys

/-! # What `phys_pagemap_init` leaves in the descriptors

Each pass over the memory map marks the frames its loops walk through: `Marked W g` says that the
frames of `W` got the use counts `g` prescribes and nothing else changed. `PagemapDone` collects what
holds after both passes; its field `use` characterises the frames left with use count 0.
-/
namespace Borgos.Mem
open Borgos.Foundations Borgos.Kcore
set_option autoImplicit false

/-! ## One loop over an entry -/

namespace MemmapEntry

/-- The frames the loop `for (p=addr; p<end; p+=PAGESIZE)` computes for an entry. -/
def walked (e : MemmapEntry) : Set ℕ :=
  {f | ∃ i, e.addr + pagesize * i < e.endAddr ∧ framePfn (e.addr + pagesize * i) = f}

/-- The counter of that loop comes to an end. -/
def Walkable (e : MemmapEntry) : Prop :=
  ¬(e.addr < e.endAddr ∧ wordSize - pagesize + e.addr % pagesize < e.endAddr)

end MemmapEntry

/-- Below `2^43` the frame number fits an `int`. -/
theorem framePfn_of_lt {p : ℕ} (h : p < 2 ^ 43) : framePfn p = p / pagesize := by
  have hlt : phys2pfn p < 2 ^ 31 := by
    unfold phys2pfn pagesize
    omega
  unfold framePfn
  rw [toInt_of_lt hlt, toSize_ofNat (by omega)]
  rfl

/-- Frames of `W` have the use count `g` gives, where it gives one; nothing else has changed. -/
structure Marked (W : Set ℕ) (g : ℕ → Option ℕ) (s t : Phys) : Prop where
  links : t.links = s.links
  pfnMax : t.pfnMax = s.pfnMax
  bootmeminfo : t.bootmeminfo = s.bootmeminfo
  zone : ∀ f, (t.pageframemap f).zone = (s.pageframemap f).zone
  order : ∀ f, (t.pageframemap f).order = (s.pageframemap f).order
  hit : ∀ f ∈ W, f ≤ s.pfnMax → ∀ u, g f = some u → (t.pageframemap f).usecount = u
  miss : ∀ f, f ∉ W ∨ g f = none → (t.pageframemap f).usecount = (s.pageframemap f).usecount

namespace Marked
variable {W V : Set ℕ} {g : ℕ → Option ℕ} {s t u : Phys}

theorem none (s : Phys) : Marked ∅ g s s where
  links := rfl
  pfnMax := rfl
  bootmeminfo := rfl
  zone _ := rfl
  order _ := rfl
  hit f hf := absurd hf (Set.notMem_empty f)
  miss _ _ := rfl

theorem union (h : Marked W g s t) (h' : Marked V g t u) : Marked (W ∪ V) g s u where
  links := h'.links.trans h.links
  pfnMax := h'.pfnMax.trans h.pfnMax
  bootmeminfo := h'.bootmeminfo.trans h.bootmeminfo
  zone f := (h'.zone f).trans (h.zone f)
  order f := (h'.order f).trans (h.order f)
  hit f hf hle n hn := by
    by_cases hV : f ∈ V
    · exact h'.hit f hV (by rw [h.pfnMax]; exact hle) n hn
    · rw [h'.miss f (Or.inl hV)]
      rcases hf with hW | hV'
      · exact h.hit f hW hle n hn
      · exact absurd hV' hV
  miss f hf := by
    rcases hf with hf | hn
    · rw [h'.miss f (Or.inl fun hm => hf (Or.inr hm)), h.miss f (Or.inl fun hm => hf (Or.inl hm))]
    · rw [h'.miss f (Or.inr hn), h.miss f (Or.inr hn)]

theorem congr (h : Marked W g s t) (e : W = V) : Marked V g s t := e ▸ h

end Marked

/-- The common form of the three loop bodies. -/
def markWith (g : ℕ → Option ℕ) (mapentryidx p : ℕ) (s : Phys) : Phys :=
  if framePfn p ≤ s.pfnMax then
    match g (framePfn p) with
    | none => s
    | some u => markFrame s (framePfn p) u mapentryidx
  else s

theorem markWith_marked (g : ℕ → Option ℕ) (mapentryidx p : ℕ) (s : Phys) :
    Marked {framePfn p} g s (markWith g mapentryidx p s) := by
  unfold markWith
  split
  · next hle =>
    cases hg : g (framePfn p) with
    | none =>
      refine ⟨rfl, rfl, rfl, fun _ => rfl, fun _ => rfl, fun f hf _ u hu => ?_, fun _ _ => rfl⟩
      rw [Set.mem_singleton_iff.mp hf, hg] at hu
      cases hu
    | some n =>
      have hne : ∀ f, f ≠ framePfn p →
          (markFrame s (framePfn p) n mapentryidx).pageframemap f = s.pageframemap f :=
        fun f hf => Function.update_of_ne hf ..
      have hself : (markFrame s (framePfn p) n mapentryidx).pageframemap (framePfn p) =
          { s.pageframemap (framePfn p) with usecount := n, memsegment := mapentryidx } :=
        Function.update_self ..
      refine ⟨rfl, rfl, rfl, fun f => ?_, fun f => ?_, fun f hf _ u hu => ?_, fun f hf => ?_⟩
      · by_cases e : f = framePfn p
        · rw [e, hself]
        · rw [hne f e]
      · by_cases e : f = framePfn p
        · rw [e, hself]
        · rw [hne f e]
      · rw [Set.mem_singleton_iff.mp hf] at hu ⊢
        rw [hself]
        exact Option.some.inj (hg.symm.trans hu)
      · have e : f ≠ framePfn p := by
          intro e
          subst e
          rcases hf with hf | hf
          · exact hf rfl
          · rw [hg] at hf
            cases hf
        rw [hne f e]
  · next hle =>
    refine ⟨rfl, rfl, rfl, fun _ => rfl, fun _ => rfl, fun f hf hf' => ?_, fun _ _ => rfl⟩
    rw [Set.mem_singleton_iff.mp hf] at hf'
    exact absurd hf' hle

/-- A loop over addresses marks the frames of the addresses. -/
theorem markWith_fold (g : ℕ → Option ℕ) (mapentryidx : ℕ) : ∀ (l : List ℕ) (s : Phys),
    Marked {f | ∃ p ∈ l, framePfn p = f} g s (l.foldl (fun s p => markWith g mapentryidx p s) s)
  | [], s => by
    refine (Marked.none s).congr ?_
    ext f
    simp
  | p :: l, s => by
    refine ((markWith_marked g mapentryidx p s).union (markWith_fold g mapentryidx l _)).congr ?_
    ext f
    simp only [Set.mem_union, Set.mem_singleton_iff, Set.mem_ofPred_eq, List.mem_cons, exists_eq_or_imp]
    exact or_congr_left eq_comm

/-- `forPages` returns exactly for a walkable entry, and then it marks the frames walked. -/
theorem forPages_run (e : MemmapEntry) (body : ℕ → Phys → Phys) (s t : Phys)
    (h : forPages e.addr e.endAddr body s = .ok () t) :
    e.Walkable ∧ t = ((List.range ((e.endAddr - e.addr + pagesize - 1) / pagesize)).map
      fun i => e.addr + pagesize * i).foldl (fun s p => body p s) s := by
  unfold forPages at h
  split at h
  · cases h
  · next hw =>
    refine ⟨hw, ?_⟩
    rw [Prog.modify_run] at h
    rw [List.foldl_map]
    exact (Outcome.ok.inj h).2.symm

theorem forPages_walkable (e : MemmapEntry) (body : ℕ → Phys → Phys) (s : Phys) (h : e.Walkable) :
    ∃ t, forPages e.addr e.endAddr body s = .ok () t := by
  unfold forPages
  rw [if_neg h]
  exact ⟨_, rfl⟩

theorem mem_walked_iff (e : MemmapEntry) (f : ℕ) :
    (∃ p ∈ (List.range ((e.endAddr - e.addr + pagesize - 1) / pagesize)).map fun i => e.addr + pagesize * i,
      framePfn p = f) ↔ f ∈ e.walked := by
  have hcount : ∀ i, i < (e.endAddr - e.addr + pagesize - 1) / pagesize ↔
      e.addr + pagesize * i < e.endAddr := by
    intro i
    unfold pagesize
    omega
  constructor
  · intro h
    obtain ⟨p, hp, hf⟩ := h
    obtain ⟨i, hi, rfl⟩ := List.mem_map.mp hp
    exact ⟨i, (hcount i).mp (List.mem_range.mp hi), hf⟩
  · intro h
    obtain ⟨i, hi, hf⟩ := h
    exact ⟨_, List.mem_map.mpr ⟨i, List.mem_range.mpr ((hcount i).mpr hi), rfl⟩, hf⟩

theorem forPages_marked (e : MemmapEntry) (g : ℕ → Option ℕ) (mapentryidx : ℕ) (s t : Phys)
    (h : forPages e.addr e.endAddr (markWith g mapentryidx) s = .ok () t) : Marked e.walked g s t := by
  rw [(forPages_run e _ s t h).2]
  refine (markWith_fold g mapentryidx _ s).congr ?_
  ext f
  exact mem_walked_iff e f

/-! ## The two passes -/

/-- A frame of the kernel image or of the boot heap. -/
def Reserve.Keeps (r : Reserve) (f : ℕ) : Prop :=
  (f ≥ r.pfnKernelMin ∧ f ≤ r.pfnKernelMax) ∨ (f ≥ r.pfnBootmemMin ∧ f ≤ r.pfnBootmemMax)

namespace Reserve
variable (r : Reserve)

/-- The use counts of the first pass. -/
def freeMark (f : ℕ) : Option ℕ :=
  if f ≥ r.pfnKernelMin ∧ f ≤ r.pfnKernelMax then none
  else if f ≥ r.pfnBootmemMin ∧ f ≤ r.pfnBootmemMax then none
  else some 0

/-- The use counts of the second pass on a FREE entry. -/
def keepMark (f : ℕ) : Option ℕ :=
  if f ≥ r.pfnKernelMin ∧ f ≤ r.pfnKernelMax then some 999
  else if f ≥ r.pfnBootmemMin ∧ f ≤ r.pfnBootmemMax then some 998
  else none

theorem freeMark_eq (f : ℕ) : (r.freeMark f = some 0 ∧ ¬r.Keeps f) ∨ (r.freeMark f = none ∧ r.Keeps f) := by
  unfold freeMark Keeps
  split
  · next h => exact Or.inr ⟨rfl, Or.inl h⟩
  · next h =>
    split
    · next h' => exact Or.inr ⟨rfl, Or.inr h'⟩
    · next h' => exact Or.inl ⟨rfl, by tauto⟩

theorem keepMark_eq (f : ℕ) : (r.keepMark f = none ∧ ¬r.Keeps f) ∨
    ((r.keepMark f = some 998 ∨ r.keepMark f = some 999) ∧ r.Keeps f) := by
  unfold keepMark Keeps
  split
  · next h => exact Or.inr ⟨Or.inr rfl, Or.inl h⟩
  · next h =>
    split
    · next h' => exact Or.inr ⟨Or.inl rfl, Or.inr h'⟩
    · next h' => exact Or.inl ⟨rfl, by tauto⟩

end Reserve

theorem markFreeBody_eq (r : Reserve) (mapentryidx : ℕ) :
    markFreeBody r mapentryidx = markWith r.freeMark mapentryidx := by
  funext p s
  by_cases hk : framePfn p ≥ r.pfnKernelMin ∧ framePfn p ≤ r.pfnKernelMax
  · have hm : r.freeMark (framePfn p) = none := if_pos hk
    simp only [markFreeBody, markWith, hm, hk, and_self, if_true]
  · by_cases hb : framePfn p ≥ r.pfnBootmemMin ∧ framePfn p ≤ r.pfnBootmemMax
    · have hm : r.freeMark (framePfn p) = none := (if_neg hk).trans (if_pos hb)
      simp only [markFreeBody, markWith, hm, hk, if_false, hb, and_self, if_true]
    · have hm : r.freeMark (framePfn p) = some 0 := (if_neg hk).trans (if_neg hb)
      simp only [markFreeBody, markWith, hm, hk, hb, if_false]

theorem markReservedFreeBody_eq (r : Reserve) (mapentryidx : ℕ) :
    markReservedFreeBody r mapentryidx = markWith r.keepMark mapentryidx := by
  funext p s
  by_cases hk : framePfn p ≥ r.pfnKernelMin ∧ framePfn p ≤ r.pfnKernelMax
  · have hm : r.keepMark (framePfn p) = some 999 := if_pos hk
    simp only [markReservedFreeBody, markWith, hm, hk, and_self, if_true]
  · by_cases hb : framePfn p ≥ r.pfnBootmemMin ∧ framePfn p ≤ r.pfnBootmemMax
    · have hm : r.keepMark (framePfn p) = some 998 := (if_neg hk).trans (if_pos hb)
      simp only [markReservedFreeBody, markWith, hm, hk, if_false, hb, and_self, if_true]
    · have hm : r.keepMark (framePfn p) = none := (if_neg hk).trans (if_neg hb)
      simp only [markReservedFreeBody, markWith, hm, hk, hb, if_false]

theorem markReservedBody_eq (mapentryidx : ℕ) :
    markReservedBody mapentryidx = markWith (fun _ => some 888) mapentryidx := by
  rfl

/-- The frames the first pass exposes. -/
def freeWalked (es : List MemmapEntry) : Set ℕ :=
  {f | ∃ e ∈ es, e.type = .FREE ∧ phys2pfn e.addr < maxpgdPfn ∧ f ∈ e.walked}

/-- The frames RESERVED entries walk through. -/
def reservedWalked (es : List MemmapEntry) : Set ℕ := {f | ∃ e ∈ es, e.type = .RESERVED ∧ f ∈ e.walked}

theorem reservedWalked_cons (e : MemmapEntry) (es : List MemmapEntry) :
    reservedWalked (e :: es) = reservedWalked [e] ∪ reservedWalked es := by
  ext f
  simp [reservedWalked]

/-- The use counts the marking passes write or find. -/
def bootUsecounts : List ℕ := [0, 444, 888, 998, 999]

theorem markFreeEntry_marked (r : Reserve) (idx : ℕ) (e : MemmapEntry) (s t : Phys)
    (h : markFreeEntry r idx e s = .ok () t) : Marked (freeWalked [e]) r.freeMark s t := by
  unfold markFreeEntry at h
  by_cases hw : e.type = .FREE ∧ phys2pfn e.addr < maxpgdPfn
  · rw [if_pos hw.1, if_pos hw.2, markFreeBody_eq] at h
    refine (forPages_marked e _ idx s t h).congr ?_
    ext f
    simp [freeWalked, hw.1, hw.2]
  · have hst : t = s := by
      split at h
      · next hfree =>
        rw [if_neg fun hlt => hw ⟨hfree, hlt⟩] at h
        exact (Outcome.ok.inj h).2.symm
      · exact (Outcome.ok.inj h).2.symm
    subst hst
    refine (Marked.none t).congr ?_
    ext f
    simp only [freeWalked, List.mem_singleton, exists_eq_left, Set.mem_ofPred_eq, Set.mem_empty_iff_false,
      false_iff]
    intro hm
    exact hw ⟨hm.1, hm.2.1⟩

/-- The first pass. -/
theorem markFree_marked (r : Reserve) : ∀ (es : List MemmapEntry) (idx : ℕ) (s t : Phys),
    forEntries (markFreeEntry r) idx es s = .ok () t → Marked (freeWalked es) r.freeMark s t
  | [], idx, s, t, h => by
    cases (Outcome.ok.inj h).2
    refine (Marked.none s).congr ?_
    ext f
    simp [freeWalked]
  | e :: es, idx, s, t, h => by
    obtain ⟨_, u, hu, ht⟩ := Prog.bind_ok.mp h
    refine ((markFreeEntry_marked r idx e s u hu).union (markFree_marked r es (idx + 1) u t ht)).congr ?_
    ext f
    simp [freeWalked]

/-- What the second pass over some entries does to a state in which no kept frame has use count 0. -/
structure Guarded (r : Reserve) (es : List MemmapEntry) (s t : Phys) : Prop where
  links : t.links = s.links
  pfnMax : t.pfnMax = s.pfnMax
  bootmeminfo : t.bootmeminfo = s.bootmeminfo
  zone : ∀ f, (t.pageframemap f).zone = (s.pageframemap f).zone
  order : ∀ f, (t.pageframemap f).order = (s.pageframemap f).order
  use : ∀ f, f ≤ s.pfnMax → ((t.pageframemap f).usecount = 0 ↔
    (s.pageframemap f).usecount = 0 ∧ f ∉ reservedWalked es)
  marks : ∀ f, f ≤ s.pfnMax → (s.pageframemap f).usecount ∈ bootUsecounts →
    (t.pageframemap f).usecount ∈ bootUsecounts

theorem Guarded.trans {r : Reserve} {e : MemmapEntry} {es : List MemmapEntry} {s t u : Phys}
    (h : Guarded r [e] s t) (h' : Guarded r es t u) : Guarded r (e :: es) s u where
  links := h'.links.trans h.links
  pfnMax := h'.pfnMax.trans h.pfnMax
  bootmeminfo := h'.bootmeminfo.trans h.bootmeminfo
  zone f := (h'.zone f).trans (h.zone f)
  order f := (h'.order f).trans (h.order f)
  use f hf := by
    rw [h'.use f (by rw [h.pfnMax]; exact hf), h.use f hf, reservedWalked_cons e es, Set.mem_union, not_or,
      and_assoc]
  marks f hf hm := h'.marks f (by rw [h.pfnMax]; exact hf) (h.marks f hf hm)

/-- A loop that writes only non-zero use counts. -/
theorem Marked.guarded {r : Reserve} {e : MemmapEntry} {g : ℕ → Option ℕ} {s t : Phys}
    (h : Marked e.walked g s t) (hg : ∀ f u, g f = some u → u ∈ bootUsecounts ∧ u ≠ 0)
    (hz : ∀ f, f ≤ s.pfnMax → (s.pageframemap f).usecount = 0 → f ∈ e.walked →
      (g f = Option.none ↔ e.type ≠ .RESERVED)) : Guarded r [e] s t where
  links := h.links
  pfnMax := h.pfnMax
  bootmeminfo := h.bootmeminfo
  zone := h.zone
  order := h.order
  use f hf := by
    have hres : f ∈ reservedWalked [e] ↔ e.type = .RESERVED ∧ f ∈ e.walked := by
      simp [reservedWalked]
    rw [hres]
    by_cases hw : f ∈ e.walked
    · cases hgf : g f with
      | none =>
        rw [h.miss f (Or.inr hgf)]
        constructor
        · intro h0
          exact ⟨h0, fun hm => (hz f hf h0 hw).mp hgf hm.1⟩
        · exact fun h0 => h0.1
      | some u =>
        rw [h.hit f hw hf u hgf]
        constructor
        · intro h0
          exact absurd h0 (hg f u hgf).2
        · intro h0
          by_cases hr : e.type = .RESERVED
          · exact absurd ⟨hr, hw⟩ h0.2
          · have := (hz f hf h0.1 hw).mpr hr
            rw [hgf] at this
            cases this
    · rw [h.miss f (Or.inl hw)]
      constructor
      · intro h0
        exact ⟨h0, fun hm => hw hm.2⟩
      · exact fun h0 => h0.1
  marks f hf hm := by
    by_cases hw : f ∈ e.walked
    · cases hgf : g f with
      | none => rwa [h.miss f (Or.inr hgf)]
      | some u =>
        rw [h.hit f hw hf u hgf]
        exact (hg f u hgf).1
    · rwa [h.miss f (Or.inl hw)]

theorem markReservedEntry_guarded (r : Reserve) (idx : ℕ) (e : MemmapEntry) (s t : Phys)
    (hk : ∀ f, f ≤ s.pfnMax → (s.pageframemap f).usecount = 0 → ¬r.Keeps f)
    (h : markReservedEntry r idx e s = .ok () t) : Guarded r [e] s t := by
  unfold markReservedEntry at h
  have hplain : e.type ≠ .RESERVED → t = s → Guarded r [e] s t := by
    intro hne hst
    subst hst
    refine ⟨rfl, rfl, rfl, fun _ => rfl, fun _ => rfl, fun f _ => ?_, fun _ _ hm => hm⟩
    simp [reservedWalked, hne]
  cases ht : e.type with
  | FREE =>
    rw [ht] at h
    simp only [markReservedFreeBody_eq] at h
    refine (forPages_marked e _ idx s t h).guarded ?_ ?_
    · intro f u hu
      rcases r.keepMark_eq f with ⟨hn, -⟩ | ⟨hn | hn, -⟩
      · rw [hn] at hu
        cases hu
      · rw [hn] at hu
        cases hu
        decide
      · rw [hn] at hu
        cases hu
        decide
    · intro f hf h0 _
      rcases r.keepMark_eq f with ⟨hn, -⟩ | ⟨-, hkeep⟩
      · simp [hn, ht]
      · exact absurd hkeep (hk f hf h0)
  | RESERVED =>
    rw [ht] at h
    simp only [markReservedBody_eq] at h
    refine (forPages_marked e _ idx s t h).guarded ?_ ?_
    · intro f u hu
      cases hu
      decide
    · intro f _ _ _
      simp [ht]
  | ACPI_RECLAIMABLE =>
    rw [ht] at h
    exact hplain (by rw [ht]; decide) (Outcome.ok.inj h).2.symm
  | NVS =>
    rw [ht] at h
    exact hplain (by rw [ht]; decide) (Outcome.ok.inj h).2.symm
  | UNKNOWN =>
    rw [ht] at h
    exact hplain (by rw [ht]; decide) (Outcome.ok.inj h).2.symm

/-- The second pass. -/
theorem markReserved_guarded (r : Reserve) : ∀ (es : List MemmapEntry) (idx : ℕ) (s t : Phys),
    (∀ f, f ≤ s.pfnMax → (s.pageframemap f).usecount = 0 → ¬r.Keeps f) →
    forEntries (markReservedEntry r) idx es s = .ok () t → Guarded r es s t
  | [], idx, s, t, _, h => by
    cases (Outcome.ok.inj h).2
    refine ⟨rfl, rfl, rfl, fun _ => rfl, fun _ => rfl, fun f _ => ?_, fun _ _ hm => hm⟩
    simp [reservedWalked]
  | e :: es, idx, s, t, hk, h => by
    obtain ⟨_, u, hu, ht⟩ := Prog.bind_ok.mp h
    have h1 := markReservedEntry_guarded r idx e s u hk hu
    refine h1.trans (markReserved_guarded r es (idx + 1) u t ?_ ht)
    intro f hf h0
    rw [h1.pfnMax] at hf
    exact hk f hf ((h1.use f hf).mp h0).1

/-! ## The whole function -/

/-- `page_init` over a list of frames. -/
theorem initFrame_fold : ∀ (l : List ℕ) (s : Phys), let t := l.foldl (fun s p => initFrame p s) s
    t.pfnMax = s.pfnMax ∧ t.pfnNormalMin = s.pfnNormalMin ∧ t.pfnNormalMax = s.pfnNormalMax ∧
    t.bootmeminfo = s.bootmeminfo ∧
    (∀ f, (f ∈ l → t.pageframemap f = { pageInit with zone := some (physZoneForPfn s f) }) ∧
      (f ∉ l → t.pageframemap f = s.pageframemap f)) ∧
    (∀ n, (∀ f ∈ l, n ≠ .page f) → t.links n = s.links n) ∧
    ∀ f ∈ l, t.links (.page f) = ⟨some (.page f), some (.page f)⟩
  | [], s => by simp
  | p :: l, s => by
    obtain ⟨h1, h2, h3, h4, h5, h6, h7⟩ := initFrame_fold l (initFrame p s)
    have hself : (initFrame p s).pageframemap p = { pageInit with zone := some (physZoneForPfn s p) } :=
      Function.update_self ..
    have hne : ∀ f, f ≠ p → (initFrame p s).pageframemap f = s.pageframemap f :=
      fun f hf => Function.update_of_ne hf ..
    have hzone : ∀ f, physZoneForPfn (initFrame p s) f = physZoneForPfn s f := fun f => rfl
    refine ⟨h1, h2, h3, h4, fun f => ⟨fun hf => ?_, fun hf => ?_⟩, fun n hn => ?_, fun f hf => ?_⟩
    · by_cases hl : f ∈ l
      · rw [List.foldl_cons, (h5 f).1 hl, hzone]
      · rcases List.mem_cons.mp hf with e | hl'
        · subst e
          rw [List.foldl_cons, (h5 f).2 hl, hself]
        · exact absurd hl' hl
    · have hl : f ∉ l := fun hm => hf (List.mem_cons_of_mem p hm)
      have hp : f ≠ p := fun e => hf (e ▸ List.mem_cons_self)
      rw [List.foldl_cons, (h5 f).2 hl, hne f hp]
    · rw [List.foldl_cons, h6 n fun f hf => hn f (List.mem_cons_of_mem p hf)]
      exact Function.update_of_ne (hn p List.mem_cons_self) ..
    · rw [List.foldl_cons]
      by_cases hl : f ∈ l
      · exact h7 f hl
      · rcases List.mem_cons.mp hf with e | hl'
        · subst e
          have hno : ∀ g ∈ l, Node.page f ≠ .page g := fun g hg e => hl (by rw [Node.page.inj e]; exact hg)
          rw [h6 _ hno]
          exact Function.update_self ..
        · exact absurd hl' hl

/-- Assigning one use count to a list of frames. -/
theorem setUsecount_fold (n : ℕ) : ∀ (l : List ℕ) (s : Phys), let t := l.foldl (fun s p => s.setUsecount p n) s
    t.links = s.links ∧ t.pfnMax = s.pfnMax ∧ t.bootmeminfo = s.bootmeminfo ∧
    ∀ f, (t.pageframemap f).zone = (s.pageframemap f).zone ∧
      (t.pageframemap f).order = (s.pageframemap f).order ∧
      (f ∈ l → (t.pageframemap f).usecount = n) ∧
      (f ∉ l → (t.pageframemap f).usecount = (s.pageframemap f).usecount)
  | [], s => by simp
  | p :: l, s => by
    obtain ⟨h1, h2, h3, h4⟩ := setUsecount_fold n l (s.setUsecount p n)
    have hself : (s.setUsecount p n).pageframemap p = { s.pageframemap p with usecount := n } :=
      Function.update_self ..
    have hne : ∀ f, f ≠ p → (s.setUsecount p n).pageframemap f = s.pageframemap f :=
      fun f hf => Function.update_of_ne hf ..
    refine ⟨h1, h2, h3, fun f => ?_⟩
    obtain ⟨hz, ho, hin, hout⟩ := h4 f
    rw [List.foldl_cons]
    by_cases e : f = p
    · subst e
      rw [hz, ho, hself]
      refine ⟨rfl, rfl, fun _ => ?_, fun hf => absurd List.mem_cons_self hf⟩
      by_cases hl : f ∈ l
      · exact hin hl
      · rw [hout hl, hself]
    · rw [hz, ho, hne f e]
      refine ⟨rfl, rfl, fun hf => ?_, fun hf => ?_⟩
      · rcases List.mem_cons.mp hf with e' | hl
        · exact absurd e' e
        · exact hin hl
      · rw [hout fun hm => hf (List.mem_cons_of_mem p hm), hne f e]

/-- The top of the boot heap after the descriptors have been allocated from it. -/
def bootmemTop (s : Phys) (pfnCount : ℕ) : ℕ :=
  ((s.bootmeminfo.heaptop + pagesize - 1) % wordSize / pagesize * pagesize +
    pfnCount * sizeofPage % wordSize) % wordSize

/-- The frames `phys_pagemap_init` keeps, from its inputs. -/
def reserveOf (b : BootInfo) (s : Phys) (pfnCount : ℕ) : Reserve :=
  ⟨phys2pfn b.bootimageStart, phys2pfn b.bootimageEnd, phys2pfn s.bootmeminfo.addr,
    phys2pfn (bootmemTop s pfnCount)⟩

/-- A frame the map calls free and no reservation the code makes covers. -/
structure Exposed (b : BootInfo) (r : Reserve) (f : ℕ) : Prop where
  free : f ∈ freeWalked b.memmap
  unkept : ¬r.Keeps f
  unreserved : f ∉ reservedWalked b.memmap

structure PagemapDone (b : BootInfo) (pfnCount : ℕ) (s t : Phys) : Prop where
  pfnMax : t.pfnMax = s.pfnMax
  heaptop : t.bootmeminfo = { s.bootmeminfo with heaptop := (bootmemTop s pfnCount + 1) % wordSize }
  heads : ∀ z k, t.links (.freelist z k) = s.links (.freelist z k)
  alone : ∀ f, f ≤ s.pfnMax → t.links (.page f) = ⟨some (.page f), some (.page f)⟩
  zone : ∀ f, f ≤ s.pfnMax → (t.pageframemap f).zone = some (physZoneForPfn s f)
  order : ∀ f, f ≤ s.pfnMax → (t.pageframemap f).order = 0
  use : ∀ f, f ≤ s.pfnMax → ((t.pageframemap f).usecount = 0 ↔ Exposed b (reserveOf b s pfnCount) f)
  marks : ∀ f, f ≤ s.pfnMax → (t.pageframemap f).usecount ∈ bootUsecounts

theorem mem_range_iff {lo hi f : ℕ} : f ∈ List.range' lo (hi + 1 - lo) ↔ lo ≤ f ∧ f ≤ hi := by
  rw [List.mem_range'_1]
  omega

/-- The heap with another top. -/
def withHeaptop (s : Phys) (top : ℕ) : Phys :=
  { s with bootmeminfo := { s.bootmeminfo with heaptop := top } }

/-- The state before the two passes. -/
def pagemapCleared (b : BootInfo) (pfnCount : ℕ) (s : Phys) : Phys :=
  forRange (phys2pfn b.bootimageStart) (phys2pfn b.bootimageEnd) (fun p s => s.setUsecount p 999)
    (withHeaptop (forRange 0 s.pfnMax initFrame (withHeaptop s (bootmemTop s pfnCount)))
      ((bootmemTop s pfnCount + 1) % wordSize))

theorem bootmemTop_lt (s : Phys) (pfnCount : ℕ) : bootmemTop s pfnCount < wordSize :=
  Nat.mod_lt _ (by unfold wordSize; norm_num)

theorem bootmemAllocVirt_run (s : Phys) (pfnCount : ℕ) :
    bootmemAllocVirt (pfnCount * sizeofPage % wordSize) pagesize s =
      .ok (p2v ((s.bootmeminfo.heaptop + pagesize - 1) % wordSize / pagesize * pagesize))
        (withHeaptop s (bootmemTop s pfnCount)) := rfl

theorem bootmemAllocPhys_one (s : Phys) (h : s.bootmeminfo.heaptop < wordSize) :
    bootmemAllocPhys 1 1 s =
      .ok s.bootmeminfo.heaptop (withHeaptop s ((s.bootmeminfo.heaptop + 1) % wordSize)) := by
  have e : (s.bootmeminfo.heaptop + 1 - 1) % wordSize / 1 * 1 = s.bootmeminfo.heaptop := by
    rw [Nat.div_one, mul_one, Nat.add_sub_cancel, Nat.mod_eq_of_lt h]
  unfold bootmemAllocPhys withHeaptop
  rw [Prog.bind_run, Prog.get_run, Outcome.andThen_ok, e]
  rfl

theorem physPagemapInit_eq (b : BootInfo) (pfnCount : ℕ) (s : Phys) :
    physPagemapInit b pfnCount s = (forEntries (markFreeEntry (reserveOf b s pfnCount)) 0 b.memmap >>=
      fun _ => forEntries (markReservedEntry (reserveOf b s pfnCount)) 0 b.memmap)
        (pagemapCleared b pfnCount s) := by
  obtain ⟨u, hu⟩ : ∃ u, u = forRange 0 s.pfnMax initFrame (withHeaptop s (bootmemTop s pfnCount)) := ⟨_, rfl⟩
  have hboot : u.bootmeminfo = { s.bootmeminfo with heaptop := bootmemTop s pfnCount } := by
    rw [hu]
    exact (initFrame_fold _ _).2.2.2.1
  have hone := bootmemAllocPhys_one u (by rw [hboot]; exact bootmemTop_lt s pfnCount)
  unfold physPagemapInit
  rw [Prog.bind_run, bootmemAllocVirt_run, Outcome.andThen_ok, Prog.bind_run, Prog.modify_run,
    Outcome.andThen_ok]
  have hmax : (withHeaptop s (bootmemTop s pfnCount)).pfnMax = s.pfnMax := rfl
  rw [hmax, ← hu, Prog.bind_run, hone, Outcome.andThen_ok, Prog.bind_run, Prog.get_run, Outcome.andThen_ok,
    Prog.bind_run, Prog.modify_run, Outcome.andThen_ok]
  have hcleared : pagemapCleared b pfnCount s = forRange (phys2pfn b.bootimageStart)
      (phys2pfn b.bootimageEnd) (fun p s => s.setUsecount p 999)
      (withHeaptop u ((u.bootmeminfo.heaptop + 1) % wordSize)) := by
    unfold pagemapCleared
    rw [← hu]
    unfold withHeaptop
    rw [hboot]
  rw [hcleared]
  unfold withHeaptop reserveOf
  rw [hboot]

/-- What `phys_pagemap_init` has done when it returns. -/
theorem physPagemapInit_spec (b : BootInfo) (pfnCount : ℕ) (s t : Phys)
    (h : physPagemapInit b pfnCount s = .ok () t) : PagemapDone b pfnCount s t := by
  rw [physPagemapInit_eq] at h
  obtain ⟨_, u, hfree, hres⟩ := Prog.bind_ok.mp h
  obtain ⟨hmax, -, -, hboot, hpage, hlink, hself⟩ := initFrame_fold (List.range' 0 (s.pfnMax + 1 - 0))
    (withHeaptop s (bootmemTop s pfnCount))
  obtain ⟨klinks, kmax, kboot, kpage⟩ := setUsecount_fold 999
    (List.range' (phys2pfn b.bootimageStart) (phys2pfn b.bootimageEnd + 1 - phys2pfn b.bootimageStart))
    (withHeaptop (forRange 0 s.pfnMax initFrame (withHeaptop s (bootmemTop s pfnCount)))
      ((bootmemTop s pfnCount + 1) % wordSize))
  have hcmax : (pagemapCleared b pfnCount s).pfnMax = s.pfnMax := kmax.trans hmax
  have hpage' : ∀ f, f ≤ s.pfnMax →
      (withHeaptop (forRange 0 s.pfnMax initFrame (withHeaptop s (bootmemTop s pfnCount)))
        ((bootmemTop s pfnCount + 1) % wordSize)).pageframemap f =
          { pageInit with zone := some (physZoneForPfn s f) } :=
    fun f hf => (hpage f).1 (mem_range_iff.mpr ⟨Nat.zero_le f, hf⟩)
  -- the use counts before the passes
  have hinit : ∀ f, f ≤ s.pfnMax → ((pagemapCleared b pfnCount s).pageframemap f).usecount = 444 ∨
      ((pagemapCleared b pfnCount s).pageframemap f).usecount = 999 := by
    intro f hf
    by_cases hk : f ∈ List.range' (phys2pfn b.bootimageStart)
        (phys2pfn b.bootimageEnd + 1 - phys2pfn b.bootimageStart)
    · exact Or.inr ((kpage f).2.2.1 hk)
    · refine Or.inl (((kpage f).2.2.2 hk).trans ?_)
      rw [hpage' f hf]
      rfl
  have h1 := markFree_marked _ _ _ _ _ hfree
  have hkeep : ∀ f, f ≤ u.pfnMax → (u.pageframemap f).usecount = 0 →
      ¬(reserveOf b s pfnCount).Keeps f ∧ f ∈ freeWalked b.memmap := by
    intro f hf h0
    rw [h1.pfnMax, hcmax] at hf
    have hnz : ((pagemapCleared b pfnCount s).pageframemap f).usecount ≠ 0 := by
      rcases hinit f hf with e | e <;> omega
    have hw : f ∈ freeWalked b.memmap := by
      by_contra hw
      exact hnz ((h1.miss f (Or.inl hw)).symm.trans h0)
    rcases (reserveOf b s pfnCount).freeMark_eq f with ⟨-, hk⟩ | ⟨hn, -⟩
    · exact ⟨hk, hw⟩
    · exact absurd ((h1.miss f (Or.inr hn)).symm.trans h0) hnz
  have h2 := markReserved_guarded _ _ _ _ _ (fun f hf h0 => (hkeep f hf h0).1) hres
  have humax : u.pfnMax = s.pfnMax := h1.pfnMax.trans hcmax
  refine ⟨h2.pfnMax.trans humax, ?_, ?_, ?_, ?_, ?_, ?_, ?_⟩
  · rw [h2.bootmeminfo, h1.bootmeminfo]
    refine kboot.trans ?_
    unfold withHeaptop forRange at *
    rw [hboot]
  · intro z k
    rw [h2.links, h1.links]
    refine (congrFun klinks _).trans (hlink _ fun f _ e => ?_)
    cases e
  · intro f hf
    rw [h2.links, h1.links]
    exact (congrFun klinks _).trans (hself f (mem_range_iff.mpr ⟨Nat.zero_le f, hf⟩))
  · intro f hf
    rw [h2.zone, h1.zone]
    refine (kpage f).1.trans ?_
    rw [hpage' f hf]
  · intro f hf
    rw [h2.order, h1.order]
    refine (kpage f).2.1.trans ?_
    rw [hpage' f hf]
    rfl
  · intro f hf
    have hfu : f ≤ u.pfnMax := humax ▸ hf
    rw [h2.use f hfu]
    constructor
    · intro h0
      exact ⟨(hkeep f hfu h0.1).2, (hkeep f hfu h0.1).1, h0.2⟩
    · intro he
      refine ⟨?_, he.unreserved⟩
      rcases (reserveOf b s pfnCount).freeMark_eq f with ⟨hm, -⟩ | ⟨-, hk⟩
      · exact h1.hit f he.free (by rw [hcmax]; exact hf) 0 hm
      · exact absurd hk he.unkept
  · intro f hf
    refine h2.marks f (humax ▸ hf) ?_
    rcases (reserveOf b s pfnCount).freeMark_eq f with ⟨hm, -⟩ | ⟨hn, -⟩
    · by_cases hw : f ∈ freeWalked b.memmap
      · rw [h1.hit f hw (by rw [hcmax]; exact hf) 0 hm]
        decide
      · rw [h1.miss f (Or.inl hw)]
        rcases hinit f hf with e | e <;> rw [e] <;> decide
    · rw [h1.miss f (Or.inr hn)]
      rcases hinit f hf with e | e <;> rw [e] <;> decide

/-! ## The loops end -/

theorem forEntries_returns (body : ℕ → MemmapEntry → Prog Phys Unit) : ∀ (es : List MemmapEntry) (idx : ℕ)
    (s : Phys), (∀ e ∈ es, ∀ idx s, ∃ t, body idx e s = .ok () t) → ∃ t, forEntries body idx es s = .ok () t
  | [], idx, s, _ => ⟨s, rfl⟩
  | e :: es, idx, s, h => by
    obtain ⟨u, hu⟩ := h e List.mem_cons_self idx s
    obtain ⟨t, ht⟩ := forEntries_returns body es (idx + 1) u fun e' he' =>
      h e' (List.mem_cons_of_mem e he')
    exact ⟨t, Prog.bind_ok.mpr ⟨(), u, hu, ht⟩⟩

/-- `phys_pagemap_init` returns when the counter of no entry wraps. -/
theorem physPagemapInit_returns (b : BootInfo) (pfnCount : ℕ) (s : Phys)
    (h : ∀ e ∈ b.memmap, e.Walkable) : ∃ t, physPagemapInit b pfnCount s = .ok () t := by
  rw [physPagemapInit_eq]
  obtain ⟨u, hu⟩ := forEntries_returns (markFreeEntry (reserveOf b s pfnCount)) b.memmap 0
    (pagemapCleared b pfnCount s) (by
      intro e he idx s
      unfold markFreeEntry
      split
      · split
        · exact forPages_walkable e _ s (h e he)
        · exact ⟨s, rfl⟩
      · exact ⟨s, rfl⟩)
  obtain ⟨t, ht⟩ := forEntries_returns (markReservedEntry (reserveOf b s pfnCount)) b.memmap 0 u (by
      intro e he idx s
      unfold markReservedEntry
      cases e.type with
      | FREE => exact forPages_walkable e _ s (h e he)
      | RESERVED => exact forPages_walkable e _ s (h e he)
      | ACPI_RECLAIMABLE => exact ⟨s, rfl⟩
      | NVS => exact ⟨s, rfl⟩
      | UNKNOWN => exact ⟨s, rfl⟩)
  exact ⟨t, Prog.bind_ok.mpr ⟨(), u, hu, ht⟩⟩

end Borgos.Mem
