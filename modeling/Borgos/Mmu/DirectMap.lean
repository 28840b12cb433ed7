import Borgos.Mem.FrameSafety
import Borgos.Mmu.TableReturns

/-! # The direct map

`phys.c` and `mmu.c` both go through the boot memory map. The first marks the frames of FREE entries page by page,
with the page's own address; the second maps the frames between two `int`s. So the kernel can reach every frame it
allocates when the frames of the first are among those of the second.
-/
namespace Borgos.Mmu
open Borgos.Foundations Borgos.Mem
set_option autoImplicit false

variable {ρ : Type}

/-! ## Entries everywhere in a tree -/

def entryPresent (e : ℕ) : Option ℕ := if entryP e = 1 then some e else none

theorem entryPresent_zero : entryPresent 0 = none := rfl

/-- Every entry that is present in a tree satisfies `Q`. -/
def Everywhere (Q : ℕ → Prop) (mem : ℕ → ℕ → ℕ) (roots : Set ℕ) : Prop :=
  ∀ r ∈ roots, ∀ p i e, p.length ≤ 3 → lookup entryChild entryPresent mem r p i = some e → Q e

/-- The entries `mmu_map_page` writes satisfy `Q`. -/
structure Written (Q : ℕ → Prop) : Prop where
  dir : ∀ f flags, Q (f * 2 ^ 12 + dircreateflagsOf flags)
  leaf : ∀ f flags, Q (f * 2 ^ 12 + pteflagsOf flags)

theorem entryPresent_some {e x : ℕ} (h : entryPresent e = some x) : x = e := by
  unfold entryPresent at h
  split at h
  · exact (Option.some.inj h).symm
  · cases h

section Everywhere
variable {alloc : Prog ρ ℕ} {Good : ρ → Set ℕ → Prop} {roots used : Set ℕ}
  {place : ℕ → Option (Option ℕ × List ℕ)} {s s' : Tables ρ} {Q : ℕ → Prop}

theorem getsubtable_everywhere (hQ : Written Q) (hA : FreshPages alloc Good) (h : Space s.mem roots place used)
    (hg : Good s.phys used) {t idx flags tbl : ℕ} {o : Option ℕ} {q : List ℕ} (ht : t < 2 ^ 36)
    (hslot : Forest.Slot owner 3 roots place t idx o q)
    (hrun : pagetableWalkGetsubtable alloc (p2v (t * 2 ^ 12)) idx (dircreateflagsOf flags) s = .ok tbl s')
    (hall : Everywhere Q s.mem roots) : Everywhere Q s'.mem roots := by
  have hfl := dircreateflagsOf_spec flags
  rcases getsubtable_run hA hg ht (by omega) hrun with ⟨-, hs, -⟩ | ⟨habs, f, hf, hout, -, -, hstate, -⟩
  · rw [hs]
    exact hall
  · intro r hr p i e hp hlook
    obtain ⟨hnr, hnp⟩ := h.place_none hout
    have hnone : entryChild (s.mem t idx) = none := entryChild_absent (by omega)
    have hchild := entryChild_mk hf (by omega) hfl.2
    rw [hstate, h.forest.lookup_link_cell hslot hnr hnp (fun _ => entryChild_zero) (fun _ => entryPresent_zero) hnone
      hchild hr p hp i] at hlook
    split at hlook
    · rw [entryPresent_some hlook]
      exact hQ.dir f flags
    · exact hall r hr p i e hp hlook

theorem mmuMapPage_everywhere (hQ : Written Q) (hA : FreshPages alloc Good) (h : Space s.mem roots place used)
    (hg : Good s.phys used) {r paddr vaddr flags : ℕ} (hr : r ∈ roots)
    (hrun : mmuMapPage alloc (p2v (r * 2 ^ 12)) paddr vaddr flags s = .ok () s') (hall : Everywhere Q s.mem roots) :
    Everywhere Q s'.mem roots := by
  have hfl := dircreateflagsOf_spec flags
  obtain ⟨-, s₁, place', used', t, hrun₁, hsp, -, -, hpl, -, -, hmem, -⟩ := mmuMapPage_run hA h hg hr hrun
  have hdir : Everywhere Q s₁.mem roots := getlvl1table_keeps hA h hg hr hfl.1 hfl.2
    (fun hsp hg ht hslot hrun hall => getsubtable_everywhere hQ hA hsp hg ht hslot hrun hall) hrun₁ hall
  intro r' hr' p i e hp hlook
  rw [hmem] at hlook
  by_cases hcell : walk entryChild s₁.mem r' p = some t ∧ i = lvl1idx vaddr
  · rw [hcell.2, hsp.forest.lookup_store_self hpl rfl hr' p hp hcell.1] at hlook
    rw [entryPresent_some hlook]
    exact hQ.leaf _ flags
  · rw [hsp.forest.lookup_store hpl rfl hr' p hp i (not_and_or.mp hcell)] at hlook
    exact hdir r' hr' p i e hp hlook

theorem TableHistory.everywhere (hQ : Written Q) (hA : FreshPages alloc Good) {a b : TableSystem ρ}
    {calls : List TableCall} {k : ℕ} (hist : TableHistory alloc a calls b) (hcalls : ∀ call ∈ calls, call.MapsIn k)
    (h : ∃ place used, Space a.tables.mem a.roots place used ∧ Good a.tables.phys used)
    (hall : Everywhere Q a.tables.mem a.roots) : Everywhere Q b.tables.mem b.roots := by
  induction hist with
  | nil => exact hall
  | @snoc calls b c call hist hcall ih =>
    have ih := ih fun x hx => hcalls x (List.mem_append_left _ hx)
    obtain ⟨place, used, hsp, hg⟩ := hist.space hA h
    obtain ⟨paddr, vaddr, flags, rfl⟩ := hcalls call (List.mem_append_right _ List.mem_cons_self)
    obtain ⟨hr, hroots, hrun⟩ := hcall
    rw [hroots]
    exact mmuMapPage_everywhere hQ hA hsp hg hr hrun ih

/-- The entries of a walk that arrives are present, and they are entries of the tree. -/
theorem Space.walkEntries_found (h : Space s.mem roots place used) {r : ℕ} (hr : r ∈ roots) {v : ℕ} {t : Translation}
    (hw : hardwareWalk s.mem r v = some t) : ∀ e ∈ walkEntries s.mem r v, entryP e = 1 ∧
      ∃ p i, p.length ≤ 3 ∧ lookup entryChild entryPresent s.mem r p i = some e := by
  rw [h.hardwareWalk_eq hr] at hw
  have hpresent : ∀ {e : ℕ}, entryP e = 1 → entryPresent e = some e ∧ entryChild e = some (entryBase e) := by
    intro e he
    simp [entryPresent, entryChild, he]
  unfold lookup pathOf at hw
  simp only [walk_cons, walk_nil] at hw
  unfold walkEntries
  obtain ⟨e4, he4⟩ : ∃ e, e = s.mem r (lvl4idx v) := ⟨_, rfl⟩
  simp only [← he4] at hw ⊢
  by_cases h4 : entryP e4 = 1
  swap
  · rw [entryChild_absent h4] at hw
    cases hw
  obtain ⟨e3, he3⟩ : ∃ e, e = s.mem (entryBase e4) (lvl3idx v) := ⟨_, rfl⟩
  simp only [(hpresent h4).2, Option.bind_some, ← he3] at hw
  simp only [← he3]
  by_cases h3 : entryP e3 = 1
  swap
  · rw [entryChild_absent h3] at hw
    cases hw
  obtain ⟨e2, he2⟩ : ∃ e, e = s.mem (entryBase e3) (lvl2idx v) := ⟨_, rfl⟩
  simp only [(hpresent h3).2, Option.bind_some, ← he2] at hw
  simp only [← he2]
  by_cases h2 : entryP e2 = 1
  swap
  · rw [entryChild_absent h2] at hw
    cases hw
  obtain ⟨e1, he1⟩ : ∃ e, e = s.mem (entryBase e2) (lvl1idx v) := ⟨_, rfl⟩
  simp only [(hpresent h2).2, Option.bind_some, ← he1] at hw
  simp only [← he1]
  have h1 : entryP e1 = 1 := by
    by_contra hne
    simp [entryLeaf, hne] at hw
  intro e he
  simp only [List.mem_cons, List.not_mem_nil, or_false] at he
  unfold lookup
  rcases he with rfl | rfl | rfl | rfl
  · refine ⟨h4, [], lvl4idx v, by simp, ?_⟩
    simp [← he4, hpresent h4]
  · refine ⟨h3, [lvl4idx v], lvl3idx v, by simp, ?_⟩
    simp [walk_cons, ← he4, hpresent h4, ← he3, hpresent h3]
  · refine ⟨h2, [lvl4idx v, lvl3idx v], lvl2idx v, by simp, ?_⟩
    simp [walk_cons, ← he4, hpresent h4, ← he3, hpresent h3, ← he2, hpresent h2]
  · refine ⟨h1, pathOf v, lvl1idx v, (pathOf_length v).le, ?_⟩
    simp [pathOf, walk_cons, ← he4, hpresent h4, ← he3, hpresent h3, ← he2, hpresent h2, ← he1, hpresent h1]

end Everywhere

/-! ## Writable pages -/

/-- The R/W bit of an entry. -/
def entryRw (e : ℕ) : ℕ := e / 2 % 2

/-- Present and writable on all four levels. -/
def WritableWalk (mem : ℕ → ℕ → ℕ) (root vaddr : ℕ) : Prop :=
  ∀ e ∈ walkEntries mem root vaddr, entryP e = 1 ∧ entryRw e = 1

theorem written_writable : Written fun e => entryRw e = 1 where
  dir f flags := by
    have hbit : dircreateflagsOf flags / 2 % 2 = 1 := by
      unfold dircreateflagsOf
      split
      · decide
      · decide
    unfold entryRw
    omega
  leaf f flags := by
    have hbit : pteflagsOf flags / 2 % 2 = 1 := by
      unfold pteflagsOf
      split
      · split
        · decide
        · decide
      · split
        · decide
        · decide
    unfold entryRw
    omega

/-! ## Where a frame is in the direct map -/

theorem toInt_range (n : ℕ) : -2 ^ 31 ≤ toInt n ∧ toInt n < 2 ^ 31 := by
  unfold toInt
  split
  · omega
  · omega

theorem pfnPhys_ofNat {f : ℕ} (hf : f < 2 ^ 36) : pfnPhys f = f * 2 ^ 12 := by
  unfold pfnPhys
  rw [toSize_ofNat (by omega)]
  unfold pagesize wordSize
  omega

theorem pfnVirt_ofNat {f : ℕ} (hf : f < 2 ^ 36) : pfnVirt f = pfn2virt f := by
  unfold pfnVirt
  rw [pfnPhys_ofNat hf, pfn2virt_eq hf]

/-- The page of a frame. -/
theorem vpn_pfn2virt {f : ℕ} (hf : f < 2 ^ 35) : vpn (pfn2virt f) = 2 ^ 35 + f := by
  rw [pfn2virt_eq (by omega)]
  unfold vpn p2v kernelUpperHalfOffset wordSize
  omega

/-- A byte of a frame. -/
theorem vpn_pfn2virt_add {f o : ℕ} (hf : f < 2 ^ 35) (ho : o < pagesize) :
    vpn (pfn2virt f + o) = vpn (pfn2virt f) ∧ (pfn2virt f + o) % pagesize = o := by
  rw [pfn2virt_eq (by omega)]
  unfold vpn p2v kernelUpperHalfOffset wordSize
  unfold pagesize at *
  omega

/-- The frames `mmu_map_page` accepts at their physical address are those below 512 GiB. -/
theorem pfn_of_slot {f : ℤ} (hlow : -2 ^ 31 ≤ f) (hhigh : f < 2 ^ 31)
    (h : lvl4idx (pfnPhys f) = 0 ∨ lvl4idx (pfnPhys f) = 256) : ∃ g : ℕ, f = g ∧ g < 2 ^ 27 := by
  have hsize : (toSize f : ℤ) = f % 2 ^ 64 := by
    unfold toSize
    omega
  unfold lvl4idx pfnPhys pagesize wordSize at h
  refine ⟨f.toNat, ?_, ?_⟩
  · omega
  · omega

/-- `mmu.c` maps the frame: it lies between the ends of a FREE entry, as `int`s. -/
def Swept (memmap : List MemmapEntry) (f : ℕ) : Prop :=
  ∃ e ∈ memmap, e.type = .FREE ∧ e.pfnstart ≤ f ∧ (f : ℤ) ≤ e.pfnend

theorem mem_entryCalls {k : ℕ} {memmap : List MemmapEntry} {call : TableCall} :
    call ∈ memmap.flatMap (entryCalls k) ↔ ∃ f : ℤ, (∃ e ∈ memmap, e.type = .FREE ∧ e.pfnstart ≤ f ∧ f ≤ e.pfnend) ∧
      (call = .map k (pfnPhys f) (pfnPhys f) 0 ∨ call = .map k (pfnPhys f) (pfnVirt f) 0) := by
  rw [List.mem_flatMap]
  constructor
  · rintro ⟨e, he, hm⟩
    unfold entryCalls at hm
    split at hm
    · next hfree =>
      obtain ⟨f, h1, h2, hcall⟩ := mem_frameCalls.mp hm
      unfold rounds at h2
      exact ⟨f, ⟨e, he, hfree, h1, by omega⟩, hcall⟩
    · exact absurd hm List.not_mem_nil
  · rintro ⟨f, ⟨e, he, hfree, h1, h2⟩, hcall⟩
    refine ⟨e, he, ?_⟩
    unfold entryCalls
    rw [if_pos hfree, mem_frameCalls]
    refine ⟨f, h1, ?_, hcall⟩
    unfold rounds
    omega

section Table
variable {alloc : Prog ρ ℕ} {Good : ρ → Set ℕ → Prop} {memmap : List MemmapEntry} {k : ℕ} {s s' : Tables ρ}

theorem hardwareWalk_empty {mem : ℕ → ℕ → ℕ} {r : ℕ} (h : ∀ i, mem r i = 0) (v : ℕ) : hardwareWalk mem r v = none := by
  simp [hardwareWalk, h, entryP]

theorem KernelTable.mappedIn (hA : FreshPages alloc Good) (h : KernelTable alloc Good memmap k s s') :
    MappedIn ⟨s, {k}⟩ ⟨s', {k}⟩ (memmap.flatMap (entryCalls k)) k :=
  h.history.mappedIn hA (Set.mem_singleton k) entryCalls_mapsIn h.start

/-- A page of the direct map. -/
theorem KernelTable.walk (hA : FreshPages alloc Good) (h : KernelTable alloc Good memmap k s s') {f : ℕ}
    (hf : f < 2 ^ 27) {v : ℕ} (hv : vpn v = vpn (pfn2virt f)) :
    (Swept memmap f → hardwareWalk s'.mem k v = some ⟨f, pteflagsOf 0⟩) ∧
      (¬Swept memmap f → hardwareWalk s'.mem k v = none) := by
  have hmap := h.mappedIn hA
  have hbound : ∀ g : ℤ, (∃ e ∈ memmap, e.type = .FREE ∧ e.pfnstart ≤ g ∧ g ≤ e.pfnend) → ∃ n : ℕ, g = n ∧
      n < 2 ^ 27 := by
    intro g hg
    have hslot := hmap.slots _ _ _ (mem_entryCalls.mpr ⟨g, hg, Or.inl rfl⟩)
    obtain ⟨e, -, -, hlow, hhigh⟩ := hg
    have hs := toInt_range (phys2pfn e.addr)
    have he := toInt_range (phys2pfn e.endAddr)
    unfold MemmapEntry.pfnstart at hlow
    unfold MemmapEntry.pfnend at hhigh
    exact pfn_of_slot (by omega) (by omega) hslot
  rw [vpn_pfn2virt (by omega)] at hv
  have hphys : ∀ n : ℕ, n < 2 ^ 27 → TableCall.leafAt k v (.map k (pfnPhys n) (pfnPhys n) 0) = none := by
    intro n hn
    have hne : vpn v ≠ vpn (pfnPhys n) := by
      rw [hv, pfnPhys_ofNat (by omega)]
      unfold vpn
      omega
    simp [TableCall.leafAt, hne]
  have hvirt : ∀ n : ℕ, n < 2 ^ 27 → TableCall.leafAt k v (.map k (pfnPhys n) (pfnVirt n) 0) =
      if n = f then some ⟨f, pteflagsOf 0⟩ else none := by
    intro n hn
    unfold TableCall.leafAt
    dsimp only
    rw [hv, pfnVirt_ofNat (by omega), vpn_pfn2virt (by omega), pfnPhys_ofNat (by omega)]
    by_cases hnf : n = f
    · rw [if_pos ⟨rfl, by omega⟩, if_pos hnf, hnf]
      have hframe : f * 2 ^ 12 / 2 ^ 12 % 2 ^ 36 = f := by omega
      rw [hframe]
    · rw [if_neg (by omega), if_neg hnf]
  have hcalls : ∀ call ∈ memmap.flatMap (entryCalls k), call.leafAt k v = none ∨
      (call.leafAt k v = some ⟨f, pteflagsOf 0⟩ ∧ Swept memmap f) := by
    intro call hm
    obtain ⟨g, hg, hcall⟩ := mem_entryCalls.mp hm
    obtain ⟨n, rfl, hn⟩ := hbound g hg
    rcases hcall with rfl | rfl
    · exact Or.inl (hphys n hn)
    · rw [hvirt n hn]
      by_cases hnf : n = f
      · rw [if_pos hnf]
        exact Or.inr ⟨rfl, hnf ▸ hg⟩
      · rw [if_neg hnf]
        exact Or.inl rfl
  have hwalk := hmap.walk v ⟨f, pteflagsOf 0⟩ fun call hm => (hcalls call hm).imp_right And.left
  constructor
  · intro hswept
    rw [hwalk, if_pos]
    refine ⟨_, mem_entryCalls.mpr ⟨f, hswept, Or.inr rfl⟩, ?_⟩
    rw [hvirt f hf, if_pos rfl]
  · intro hswept
    rw [hwalk, if_neg]
    · exact hardwareWalk_empty h.empty v
    · rintro ⟨call, hm, hleaf⟩
      rcases hcalls call hm with hnone | ⟨-, hc⟩
      · rw [hnone] at hleaf
        cases hleaf
      · exact hswept hc

theorem KernelTable.writable (hA : FreshPages alloc Good) (h : KernelTable alloc Good memmap k s s') {v : ℕ}
    {t : Translation} (hw : hardwareWalk s'.mem k v = some t) : WritableWalk s'.mem k v := by
  have hempty : Everywhere (fun e => entryRw e = 1) s.mem {k} := by
    intro r hr p i e _ hlook
    rw [Set.mem_singleton_iff.mp hr, lookup_empty] at hlook
    · cases hlook
    · intro j
      rw [h.empty]
      rfl
    · intro j
      rw [h.empty]
      rfl
  have hall := h.history.everywhere written_writable hA entryCalls_mapsIn h.start hempty
  obtain ⟨place, used, hsp, -⟩ := h.history.space hA h.start
  intro e he
  obtain ⟨hp, p, i, hlen, hlook⟩ := hsp.walkEntries_found (Set.mem_singleton k) hw e he
  exact ⟨hp, hall k (Set.mem_singleton k) p i e hlen hlook⟩

end Table

/-! ## The two walks over the memory map -/

/-- `phys.c` makes the frame available: it finds it in a FREE entry, and nothing keeps it. -/
def BootExposed (b : BootInfo) (p₀ : Phys) (f : ℕ) : Prop :=
  ∃ n m, b.memmap.foldl chooseEntry (none, none) = (some n, some m) ∧
    f ≤ (setLimits n m p₀).pfnMax ∧
    Exposed b (reserveOf b (setLimits n m p₀) ((setLimits n m p₀).pfnMax + 1)) f

theorem physInit_released {b : BootInfo} {p₀ p : Phys} {released : List Block}
    (h : physInit b p₀ = .ok released p) (f : ℕ) : (∃ c ∈ released, f ∈ c.frames) ↔ BootExposed b p₀ f := by
  obtain ⟨n, m, t, L, hlay, hboot⟩ := physInit_spec b p₀ p released h
  have hpm := hlay.pagemap
  rw [hboot.released]
  unfold Releasable
  rw [hlay.same.pfnMax, hlay.same.use f (Set.notMem_empty f), hpm.pfnMax]
  constructor
  · rintro ⟨hle, huse⟩
    exact ⟨n, m, hlay.chosen, hle, (hpm.use f hle).mp huse⟩
  · rintro ⟨n', m', hchosen, hle, hexp⟩
    rw [hlay.chosen] at hchosen
    obtain ⟨hn, hm⟩ := Prod.mk.inj hchosen
    rw [← Option.some.inj hn, ← Option.some.inj hm] at hle hexp
    exact ⟨hle, (hpm.use f hle).mpr hexp⟩

theorem BootExposed.le {b : BootInfo} {p₀ : Phys} {f : ℕ} (h : BootExposed b p₀ f) : f ≤ maxpgdPfn := by
  obtain ⟨n, m, -, hle, -⟩ := h
  exact hle.trans (Nat.min_le_right _ _)

/-- Entries that end below frame `2^31` are the same to both walks. -/
theorem swept_of_short {b : BootInfo} {p₀ : Phys}
    (hshort : ∀ e ∈ b.memmap, e.type = .FREE → phys2pfn e.addr < maxpgdPfn → phys2pfn e.endAddr < 2 ^ 31) :
    ∀ f, BootExposed b p₀ f → Swept b.memmap f := by
  intro f hexp
  have hle := hexp.le
  obtain ⟨-, -, -, -, ⟨e, he, hfree, hlow, i, hi, hframe⟩, -, -⟩ := hexp
  have hend := hshort e he hfree hlow
  refine ⟨e, he, hfree, ?_⟩
  unfold MemmapEntry.pfnstart MemmapEntry.pfnend
  have hpage : phys2pfn (e.addr + pagesize * i) ≤ phys2pfn e.endAddr := Nat.div_le_div_right hi.le
  have hstart : phys2pfn e.addr ≤ phys2pfn (e.addr + pagesize * i) := Nat.div_le_div_right (Nat.le_add_right _ _)
  unfold framePfn at hframe
  rw [toInt_of_lt (by omega), toSize_ofNat (by omega)] at hframe
  rw [toInt_of_lt (by omega), toInt_of_lt hend]
  omega

/-! ## Every available frame is mapped -/

/-- A frame on a free list, or one that is out. -/
def InArena (phys : Phys) (held : List Block) (f : ℕ) : Prop :=
  (∃ z, f ∈ covered (phys.freeBlocks z)) ∨ ∃ c ∈ held, f ∈ c.frames

/-- Every frame of the allocator is at its place in the direct map, writable, and has that page to itself. -/
structure DirectMapped (t : Tables Phys) (held : List Block) : Prop where
  mapped : ∀ f, InArena t.phys held f → ∀ o < pagesize,
    translate t.mem (frameOf t.kernelpagetable) (pfn2virt f + o) = some (pfn2phys f + o, leafFlags 0) ∧
      WritableWalk t.mem (frameOf t.kernelpagetable) (pfn2virt f + o)
  distinct : ∀ f g, InArena t.phys held f → InArena t.phys held g → vpn (pfn2virt f) = vpn (pfn2virt g) → f = g

section Boot
variable {b : BootInfo} {p₀ p : Phys} {released : List Block} {mem : ℕ → ℕ → ℕ} {kernelpagetable : ℕ} {t : Tables Phys}

/-- What the two functions leave, in terms of the table and the allocator. -/
theorem boot_run (hphys : physInit b p₀ = .ok released p)
    (hmmu : mmuInitKernelPagetable (pageAllocPagesVirt 0 0) b.memmap ⟨mem, kernelpagetable, p⟩ = .ok () t) :
    ∃ held k s, ArenaRun ⟨p, []⟩ ⟨t.phys, held⟩ ∧ (∀ f, InArena t.phys held f ↔ BootExposed b p₀ f) ∧
      frameOf t.kernelpagetable = k ∧ FreshPages (pageAllocPagesVirt 0 0) (OffLists ⟨p, []⟩) ∧
      KernelTable (pageAllocPagesVirt 0 0) (OffLists ⟨p, []⟩) b.memmap k s t := by
  obtain ⟨L, hinv⟩ := physInit_inv hphys
  have hA : FreshPages (pageAllocPagesVirt 0 0) (OffLists ⟨p, []⟩) := (buddy_fresh hinv).pages
  have hstart : OffLists ⟨p, []⟩ p ∅ :=
    ⟨[], Relation.ReflTransGen.refl, fun f hf => absurd hf (Set.notMem_empty f)⟩
  obtain ⟨k, s, hk, -, -, -, htable⟩ := mmuInitKernelPagetable_run hA hstart hmmu
  obtain ⟨-, -, -, held, hrun, -⟩ := htable.history.space hA htable.start
  obtain ⟨L', hinv'⟩ := ArenaRun.inv hinv hrun
  refine ⟨held, k, s, hrun, ?_, ?_, hA, htable⟩
  · intro f
    rw [← physInit_released hphys, ← hinv'.covers f]
    unfold InArena
    simp only [hinv'.buddy.freeBlocks_eq]
  · rw [htable.kernel]
    exact frameOf_p2v hk

end Boot

/-- **The direct map covers the allocator exactly when every frame `phys.c` makes available is one `mmu.c` maps.** -/
theorem direct_map_iff (b : BootInfo) (p₀ p : Phys) (released : List Block) (mem : ℕ → ℕ → ℕ) (kernelpagetable : ℕ)
    (t : Tables Phys) (hphys : physInit b p₀ = .ok released p)
    (hmmu : mmuInitKernelPagetable (pageAllocPagesVirt 0 0) b.memmap ⟨mem, kernelpagetable, p⟩ = .ok () t) :
    ∃ held, ArenaRun ⟨p, []⟩ ⟨t.phys, held⟩ ∧
      (DirectMapped t held ↔ ∀ f, BootExposed b p₀ f → Swept b.memmap f) := by
  obtain ⟨held, k, s, hrun, harena, hk, hA, htable⟩ := boot_run hphys hmmu
  have hsmall : ∀ f, InArena t.phys held f → f < 2 ^ 27 := by
    intro f hf
    have hle := ((harena f).mp hf).le
    unfold maxpgdPfn at hle
    omega
  refine ⟨held, hrun, ?_, ?_⟩
  · intro h f hexp
    have hf := (harena f).mpr hexp
    obtain ⟨htrans, -⟩ := h.mapped f hf 0 (by decide)
    by_contra hswept
    rw [Nat.add_zero, hk] at htrans
    unfold translate at htrans
    rw [(htable.walk hA (hsmall f hf) rfl).2 hswept] at htrans
    cases htrans
  · intro h
    refine ⟨?_, ?_⟩
    · intro f hf o ho
      have hlt := hsmall f hf
      obtain ⟨hpage, hoff⟩ := vpn_pfn2virt_add (f := f) (by omega) ho
      have hwalk := (htable.walk hA hlt hpage).1 (h f ((harena f).mp hf))
      rw [hk]
      refine ⟨?_, htable.writable hA hwalk⟩
      have hphysf : pfn2phys f = f * pagesize := by
        unfold pfn2phys pagesize wordSize
        omega
      unfold translate
      rw [hwalk, Option.map_some, hoff, hphysf, pteflagsOf_eq]
    · intro f g hf hg hsame
      have hfl := hsmall f hf
      have hgl := hsmall g hg
      rw [vpn_pfn2virt (by omega), vpn_pfn2virt (by omega)] at hsame
      omega

/-! ## Eight terabytes -/

/-- The megabyte with the kernel image. -/
def imageBank : MemmapEntry := ⟨0x100000, 0x100000, .FREE, highBank.addr_lt, highBank.addr_lt⟩

/-- Free memory from 2 MiB on, up to frame `2^31 + 511`. -/
def hugeBank : MemmapEntry := ⟨0x200000, 2 ^ 43, .FREE, highBank.size_lt, by norm_num⟩

def hugeMap : BootInfo := ⟨[imageBank, hugeBank], 0x100000, 0x13ffff⟩

theorem hugeBank_end : hugeBank.endAddr = 2 ^ 43 + 0x1fffff := by
  norm_num [MemmapEntry.endAddr, hugeBank, wordSize]

/-- As `int`s the last frame comes before the first. -/
theorem hugeBank_ends : hugeBank.pfnstart = 512 ∧ hugeBank.pfnend = -2 ^ 31 + 511 := by
  unfold MemmapEntry.pfnstart MemmapEntry.pfnend
  rw [hugeBank_end]
  constructor
  · rfl
  · norm_num [toInt, phys2pfn, pagesize]

theorem imageBank_ends : imageBank.pfnstart = 256 ∧ imageBank.pfnend = 511 := by
  have hend : imageBank.endAddr = 0x1fffff := by norm_num [MemmapEntry.endAddr, imageBank, wordSize]
  unfold MemmapEntry.pfnstart MemmapEntry.pfnend
  rw [hend]
  constructor
  · rfl
  · norm_num [toInt, phys2pfn, pagesize]

theorem hugeMap_chosen : hugeMap.memmap.foldl chooseEntry (none, none) = (some hugeBank, some hugeBank) := rfl

theorem hugeMap_walkable : ∀ e ∈ hugeMap.memmap, e.Walkable := by
  intro e he
  unfold MemmapEntry.Walkable
  rcases List.mem_cons.mp he with rfl | he
  · norm_num [MemmapEntry.endAddr, wordSize, pagesize, imageBank]
  · rw [List.mem_singleton.mp he, hugeBank_end]
    norm_num [wordSize, pagesize, hugeBank]

theorem hugeMap_limits : (setLimits hugeBank hugeBank powerOn).pfnMax = 1048575 ∧
    (setLimits hugeBank hugeBank powerOn).pfnNormalMin = 512 ∧
    (setLimits hugeBank hugeBank powerOn).pfnNormalMax = 2 ^ 31 + 511 := by
  unfold setLimits
  simp only [hugeBank_end]
  norm_num [pagealignDown, pagealignUp, pagesize, maxpgdPfn, hugeBank, wordSize]

/-- 2048 frames from `2^16` on are free. -/
theorem hugeMap_exposes {i : ℕ} (hi : i < 2048) : BootExposed hugeMap powerOn (65536 + i) := by
  refine ⟨hugeBank, hugeBank, hugeMap_chosen, ?_, ⟨?_, ?_, ?_⟩⟩
  · rw [hugeMap_limits.1]
    omega
  · refine ⟨hugeBank, by simp [hugeMap], rfl, by decide, 65024 + i, ?_, ?_⟩
    · rw [hugeBank_end]
      show 0x200000 + pagesize * (65024 + i) < 2 ^ 43 + 0x1fffff
      unfold pagesize
      omega
    · show framePfn (0x200000 + pagesize * (65024 + i)) = 65536 + i
      rw [framePfn_of_lt (by unfold pagesize; omega)]
      unfold pagesize
      omega
  · unfold reserveOf Reserve.Keeps bootmemTop
    rw [hugeMap_limits.1]
    norm_num [phys2pfn, pagesize, hugeMap, setLimits, powerOn, sizeofPage, wordSize]
    omega
  · rintro ⟨e, he, hty, -⟩
    rcases List.mem_cons.mp he with rfl | he
    · cases hty
    · rw [List.mem_singleton.mp he] at hty
      cases hty

/-- The allocator has a page for each of 2048 requests. -/
theorem hugeMap_serves {released : List Block} {p : Phys} (h : physInit hugeMap powerOn = .ok released p) :
    ServesPages (pageAllocPagesVirt 0 0) (PagesLeft ⟨p, []⟩ 2048) := by
  obtain ⟨n, m, t, L, hlay, hboot⟩ := physInit_spec hugeMap powerOn p released h
  obtain ⟨hn, hm⟩ := Prod.mk.inj (hlay.chosen.symm.trans hugeMap_chosen)
  rw [Option.some.inj hn, Option.some.inj hm] at hlay
  have hcap : p.pfnMax ≤ maxpgdPfn := by
    rw [hlay.same.pfnMax, hlay.pagemap.pfnMax.trans hugeMap_limits.1]
    decide
  have hinv : Arena.Inv p released ⟨p, []⟩ L := hboot.inv hcap
  have hmin : (setLimits hugeBank hugeBank (physInitMemoryzones powerOn)).pfnNormalMin = 512 := hugeMap_limits.2.1
  have hnmax : (setLimits hugeBank hugeBank (physInitMemoryzones powerOn)).pfnNormalMax = 2 ^ 31 + 511 :=
    hugeMap_limits.2.2
  have hzone : ∀ f, f ≤ 1048575 → 512 ≤ f → (p.pageframemap f).zone = some .NORMAL := by
    intro f hf hlow
    rw [hlay.same.zone, hlay.pagemap.zone f (hf.trans hugeMap_limits.1.ge)]
    unfold physZoneForPfn
    rw [hmin, hnmax, if_pos ⟨hlow, by omega⟩]
  have hzero : (p.pageframemap 0).zone = some .DMA16 := by
    rw [hlay.same.zone, hlay.pagemap.zone 0 (Nat.zero_le _)]
    unfold physZoneForPfn
    rw [hmin, hnmax, if_neg (by decide), if_neg (by decide), if_pos (Nat.zero_le _)]
  refine pagesLeft_serves 65536 hinv (fun i hi => ⟨(physInit_released h _).mpr (hugeMap_exposes hi), ?_⟩) ?_
  · exact hzone _ (by omega) (by omega)
  · rw [hzero]
    decide

/-- `mmu_init_kernel_pagetable` maps the megabyte of the image, and nothing of the huge entry. -/
theorem hugeMap_returns : ∃ released p t, physInit hugeMap powerOn = .ok released p ∧
    mmuInitKernelPagetable (pageAllocPagesVirt 0 0) hugeMap.memmap ⟨fun _ _ => 0, 0, p⟩ = .ok () t := by
  obtain ⟨released, p, hphys⟩ := physInit_returns hugeMap powerOn hugeMap_chosen hugeMap_walkable
  have hA := hugeMap_serves hphys
  have himage : ReturnsWith (PagesLeft ⟨p, []⟩ 2048) 1536 (mmuMapEntry (pageAllocPagesVirt 0 0) imageBank) := by
    have hfree : imageBank.type = .FREE := rfl
    unfold mmuMapEntry
    rw [if_pos hfree, imageBank_ends.1, imageBank_ends.2, if_neg (by decide)]
    exact (mmuMapFrames_returns hA 256 256 (by decide)).bind (n := 0) fun _ => ReturnsWith.pure ()
  have hhuge : ReturnsWith (PagesLeft ⟨p, []⟩ 2048) 0 (mmuMapEntry (pageAllocPagesVirt 0 0) hugeBank) := by
    have hfree : hugeBank.type = .FREE := rfl
    unfold mmuMapEntry
    rw [if_pos hfree, hugeBank_ends.1, hugeBank_ends.2, if_neg (by decide)]
    exact (ReturnsWith.pure ()).bind (n := 0) fun _ => ReturnsWith.pure ()
  have hmem : ReturnsWith (PagesLeft ⟨p, []⟩ 2048) 1536
      (mmuInitKernelPagetableMem (pageAllocPagesVirt 0 0) hugeMap.memmap) :=
    himage.bind (n := 0) fun _ => hhuge.bind (n := 0) fun _ => ReturnsWith.pure ()
  obtain ⟨_, t, hrun, -⟩ := mmuInitKernelPagetable_returns hA hmem 0 ⟨fun _ _ => 0, 0, p⟩
    ⟨[], Relation.ReflTransGen.refl, by decide, List.forall_mem_nil _⟩
  exact ⟨released, p, t, hphys, hrun⟩

/-- Both functions return, and the iff says that the direct map has a hole. -/
theorem direct_map_iff_hugeMap : ∃ released p t held, physInit hugeMap powerOn = .ok released p ∧
    mmuInitKernelPagetable (pageAllocPagesVirt 0 0) hugeMap.memmap ⟨fun _ _ => 0, 0, p⟩ = .ok () t ∧
    ArenaRun ⟨p, []⟩ ⟨t.phys, held⟩ ∧
    (DirectMapped t held ↔ ∀ f, BootExposed hugeMap powerOn f → Swept hugeMap.memmap f) := by
  obtain ⟨released, p, t, hphys, hmmu⟩ := hugeMap_returns
  obtain ⟨held, hrun, hiff⟩ := direct_map_iff hugeMap powerOn p released _ _ t hphys hmmu
  exact ⟨released, p, t, held, hphys, hmmu, hrun, hiff⟩

/-- The kernel image is mapped, so the kernel runs on after the CR3 switch. Frame `2^16` belongs to the allocator, and
its page in the direct map is not mapped. -/
theorem eight_terabytes_unmapped : ∃ released p t held, physInit hugeMap powerOn = .ok released p ∧
    mmuInitKernelPagetable (pageAllocPagesVirt 0 0) hugeMap.memmap ⟨fun _ _ => 0, 0, p⟩ = .ok () t ∧
    (∀ f, phys2pfn hugeMap.bootimageStart ≤ f → f ≤ phys2pfn hugeMap.bootimageEnd →
      translate t.mem (frameOf t.kernelpagetable) (pfn2virt f) = some (pfn2phys f, leafFlags 0)) ∧
    ArenaRun ⟨p, []⟩ ⟨t.phys, held⟩ ∧ InArena t.phys held 65536 ∧
    translate t.mem (frameOf t.kernelpagetable) (pfn2virt 65536) = none ∧ ¬DirectMapped t held := by
  obtain ⟨released, p, t, hphys, hmmu⟩ := hugeMap_returns
  obtain ⟨held, k, s, hrun, harena, hk, hA, htable⟩ := boot_run hphys hmmu
  have hin := (harena 65536).mpr (hugeMap_exposes (i := 0) (by decide))
  have hout : ¬Swept hugeMap.memmap 65536 := by
    rintro ⟨e, he, -, -, hlast⟩
    rcases List.mem_cons.mp he with rfl | he
    · rw [imageBank_ends.2] at hlast
      omega
    · rw [List.mem_singleton.mp he, hugeBank_ends.2] at hlast
      omega
  have hnone : translate t.mem (frameOf t.kernelpagetable) (pfn2virt 65536) = none := by
    unfold translate
    rw [hk, (htable.walk hA (f := 65536) (by decide) rfl).2 hout]
    rfl
  refine ⟨released, p, t, held, hphys, hmmu, ?_, hrun, hin, hnone, ?_⟩
  · intro f hlow hhigh
    have hlow : 256 ≤ f := hlow
    have hhigh : f ≤ 319 := hhigh
    have hswept : Swept hugeMap.memmap f := by
      refine ⟨imageBank, List.mem_cons_self, rfl, ?_, ?_⟩
      · rw [imageBank_ends.1]
        omega
      · rw [imageBank_ends.2]
        omega
    have hoff := (vpn_pfn2virt_add (f := f) (o := 0) (by omega) (by norm_num [pagesize])).2
    rw [Nat.add_zero] at hoff
    have hphysf : pfn2phys f = f * pagesize := by
      unfold pfn2phys pagesize wordSize
      omega
    unfold translate
    rw [hk, (htable.walk hA (f := f) (by omega) rfl).1 hswept, Option.map_some, hoff, hphysf, pteflagsOf_eq,
      Nat.add_zero]
  · intro h
    obtain ⟨htrans, -⟩ := h.mapped 65536 hin 0 (by decide)
    rw [Nat.add_zero, hnone] at htrans
    cases htrans

end Borgos.Mmu
