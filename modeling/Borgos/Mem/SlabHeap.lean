import Borgos.Mem.Adequacy
import Borgos.Mem.AlignedAlloc

/-! # The slab allocator as its callers see it

A caller knows which bytes are in use: those of the blocks that are out, and `other` ones that are in no page of the
allocator. It relies on `HeapServes`, which `kmalloc` and `kfree` keep to in every state they reach.
-/
namespace Borgos.Mem
open Borgos.Foundations
set_option autoImplicit false

variable {ρ : Type} {other : Set ℕ}

/-- `held p` is the number of bytes of the block at `p`, if one is out there. -/
def bytesInUse (other : Set ℕ) (held : ℕ → Option ℕ) : Set ℕ :=
  other ∪ {x | ∃ p n, held p = some n ∧ x ∈ Set.Ico p (p + n)}

/-- A request for less than 64 KiB that returns gives a block that is large enough and overlaps nothing in use; what is
out can be freed; neither changes a byte in use. -/
structure HeapServes (kmalloc : ℕ → ℕ → Prog (Heap ρ) ℕ) (kfree : ℕ → Prog (Heap ρ) Unit) (held : ρ → ℕ → Option ℕ)
    (other : Set ℕ) : Prop where
  serves : ∀ {n flags h p h'}, n < 2 ^ 16 → kmalloc n flags h = .ok p h' → p ≠ 0 ∧ held h.alloc p = none ∧ ∃ m, n ≤ m ∧
    Disjoint (Set.Ico p (p + m)) (bytesInUse other (held h.alloc)) ∧
    held h'.alloc = Function.update (held h.alloc) p (some m) ∧
    ∀ x ∈ bytesInUse other (held h.alloc), h'.mem x = h.mem x
  frees : ∀ {p n h}, held h.alloc p = some n → ∃ h', kfree p h = .ok () h' ∧
    held h'.alloc = Function.update (held h.alloc) p none ∧
    ∀ x ∈ bytesInUse other (held h'.alloc), h'.mem x = h.mem x

theorem bytesInUse_mono (other : Set ℕ) {held held' : ℕ → Option ℕ} (h : ∀ p n, held p = some n → held' p = some n) :
    bytesInUse other held ⊆ bytesInUse other held' := by
  apply Set.union_subset_union_right
  rintro x ⟨p, n, hp, hx⟩
  exact ⟨p, n, h p n hp, hx⟩

/-- A new block is none of those that were out. -/
theorem HeapServes.kept {kmalloc : ℕ → ℕ → Prog (Heap ρ) ℕ} {kfree : ℕ → Prog (Heap ρ) Unit}
    {held : ρ → ℕ → Option ℕ} (hserve : HeapServes kmalloc kfree held other) {n flags p q m : ℕ} {h h' : Heap ρ}
    (hn : n < 2 ^ 16) (hrun : kmalloc n flags h = .ok p h') (hq : held h.alloc q = some m) :
    held h'.alloc q = some m ∧ q ≠ p := by
  obtain ⟨-, hnone, k, -, -, hheld, -⟩ := hserve.serves hn hrun
  have hne : q ≠ p := by
    rintro rfl
    rw [hnone] at hq
    cases hq
  rw [hheld, Function.update_of_ne hne]
  exact ⟨hq, hne⟩

theorem HeapServes.out {kmalloc : ℕ → ℕ → Prog (Heap ρ) ℕ} {kfree : ℕ → Prog (Heap ρ) Unit}
    {held : ρ → ℕ → Option ℕ} (hserve : HeapServes kmalloc kfree held other) {n flags p : ℕ} {h h' : Heap ρ}
    (hn : n < 2 ^ 16) (hrun : kmalloc n flags h = .ok p h') : ∃ m, held h'.alloc p = some m := by
  obtain ⟨-, -, k, -, -, hheld, -⟩ := hserve.serves hn hrun
  exact ⟨k, by rw [hheld, Function.update_self]⟩

/-! ## Pages and blocks -/

/-- The bytes behind the header. -/
def LiveBlock.room (b : LiveBlock) : ℕ := blockSize b.order - memblockHdrSize

def HeldPage.bytes (pg : HeldPage) : Set ℕ := Set.Ico pg.addr (pg.addr + pagesize)

/-- The block that is out at `p`. -/
def SlabSystem.held (a : SlabSystem ρ) (p : ℕ) : Option ℕ := (a.live.find? fun b => b.ptr = p).map LiveBlock.room

/-- The bytes of the page and block headers. -/
def SlabSystem.headers (a : SlabSystem ρ) : Set ℕ :=
  {x | ∃ pg ∈ a.pages, x ∈ Set.Ico pg.addr (pg.addr + pageHdrSize) ∨
    ∃ y ∈ pg.blocks, x ∈ Set.Ico y (y + memblockHdrSize)}

/-- The bytes of the pages that `b` has and `a` has not. -/
def SlabSystem.newPages (a b : SlabSystem ρ) : Set ℕ := {x | ∃ pg ∈ b.pages, pg ∉ a.pages ∧ x ∈ pg.bytes}

namespace Followed
variable {a : SlabSystem ρ} {b c : LiveBlock} {pg : HeldPage} {x p n : ℕ}

theorem placed (h : Followed a) (hpg : pg ∈ a.pages) : pg.Placed := by
  obtain ⟨t, chain, cls, -, hinv⟩ := h
  exact hinv.placed pg hpg

theorem nodup (h : Followed a) : (a.live.map LiveBlock.block).Nodup := by
  obtain ⟨t, chain, cls, -, hinv⟩ := h
  have hpair := List.pairwise_map.mpr hinv.live_pairwise
  rwa [List.map_map] at hpair

theorem home (h : Followed a) (hb : b ∈ a.live) : ∃ pg ∈ a.pages, pg.order = b.order ∧ b.block ∈ pg.blocks := by
  obtain ⟨t, chain, cls, -, hinv⟩ := h
  obtain ⟨pg, hpg, -, horder, -, -, hblk⟩ := hinv.live_mem (List.mem_map_of_mem (f := LiveBlock.unsized) hb)
  exact ⟨pg, hpg, horder, hblk⟩

/-- A byte is in one page at most. -/
theorem page_eq (h : Followed a) {q : HeldPage} (hpg : pg ∈ a.pages) (hq : q ∈ a.pages) (hx : x ∈ pg.bytes)
    (hxq : x ∈ q.bytes) : pg = q := by
  obtain ⟨i, hi⟩ := (h.placed hpg).aligned
  obtain ⟨j, hj⟩ := (h.placed hq).aligned
  obtain ⟨t, chain, cls, -, hinv⟩ := h
  refine hinv.page_unique hq hpg ?_
  unfold HeldPage.bytes at hx hxq
  rw [Set.mem_Ico] at hx hxq
  unfold pagesize at *
  omega

theorem block_bytes (h : Followed a) (hpg : pg ∈ a.pages) (hblk : x ∈ pg.blocks) :
    Set.Ico x (x + blockSize pg.order) ⊆ pg.bytes := by
  have hin := (h.placed hpg).inside hblk
  exact Set.Ico_subset_Ico (by omega) hin.2

theorem mem_eq (h : Followed a) (hb : b ∈ a.live) (hc : c ∈ a.live) (hptr : b.ptr = c.ptr) : b = c := by
  apply List.inj_on_of_nodup_map h.nodup hb hc
  unfold LiveBlock.ptr at hptr
  omega

theorem find_ptr (h : Followed a) (hb : b ∈ a.live) : (a.live.find? fun c => c.ptr = b.ptr) = some b := by
  cases hfind : a.live.find? fun c => c.ptr = b.ptr with
  | none =>
    have hne := List.find?_eq_none.mp hfind b hb
    simp at hne
  | some c =>
    have hc : c.ptr = b.ptr := by simpa using List.find?_some hfind
    rw [h.mem_eq (List.mem_of_find?_eq_some hfind) hb hc]

theorem held_eq_some (h : Followed a) : a.held p = some n ↔ ∃ b ∈ a.live, b.ptr = p ∧ b.room = n := by
  unfold SlabSystem.held
  rw [Option.map_eq_some_iff]
  constructor
  · rintro ⟨b, hfind, hroom⟩
    exact ⟨b, List.mem_of_find?_eq_some hfind, by simpa using List.find?_some hfind, hroom⟩
  · rintro ⟨b, hb, rfl, hroom⟩
    exact ⟨b, h.find_ptr hb, hroom⟩

theorem mem_bytesInUse (h : Followed a) :
    x ∈ bytesInUse other a.held ↔ x ∈ other ∨ ∃ b ∈ a.live, x ∈ Set.Ico b.ptr (b.ptr + b.room) := by
  apply or_congr Iff.rfl
  constructor
  · rintro ⟨p, n, hp, hx⟩
    obtain ⟨b, hb, rfl, rfl⟩ := h.held_eq_some.mp hp
    exact ⟨b, hb, hx⟩
  · rintro ⟨b, hb, hx⟩
    exact ⟨b.ptr, b.room, h.held_eq_some.mpr ⟨b, hb, rfl, rfl⟩, hx⟩

/-- A byte of a live block is behind the header. -/
theorem mem_room (h : Followed a) (hb : b ∈ a.live) (hx : x ∈ Set.Ico b.ptr (b.ptr + b.room)) :
    b.block + memblockHdrSize ≤ x ∧ x < b.block + blockSize b.order := by
  obtain ⟨pg, hpg, horder, -⟩ := h.home hb
  have hroom := (geometry (h.placed hpg).order).room
  rw [horder] at hroom
  rw [Set.mem_Ico] at hx
  unfold LiveBlock.ptr LiveBlock.room memblockHdrSize at *
  omega

/-- The rooms of two blocks do not overlap. -/
theorem rooms_disjoint (h : Followed a) (hb : b ∈ a.live) (hc : c ∈ a.live) (hne : b.block ≠ c.block) :
    Disjoint (Set.Ico b.ptr (b.ptr + b.room)) (Set.Ico c.ptr (c.ptr + c.room)) := by
  have hextent : Disjoint b.extent c.extent := by
    obtain ⟨t, chain, cls, -, hinv⟩ := h
    have hb' := List.mem_map_of_mem (f := LiveBlock.unsized) hb
    have hc' := List.mem_map_of_mem (f := LiveBlock.unsized) hc
    rcases Nat.lt_or_gt_of_ne hne with hlt | hgt
    · exact hinv.extent_disjoint (b := b.unsized) (c := c.unsized) hb' hc' hlt
    · exact (hinv.extent_disjoint (b := c.unsized) (c := b.unsized) hc' hb' hgt).symm
  refine hextent.mono (fun x hx => ?_) fun x hx => ?_
  · have hin := h.mem_room hb hx
    exact ⟨by omega, hin.2⟩
  · have hin := h.mem_room hc hx
    exact ⟨by omega, hin.2⟩

/-- No header lies in the room of a live block. -/
theorem room_not_header (h : Followed a) (hb : b ∈ a.live) (hx : x ∈ Set.Ico b.ptr (b.ptr + b.room)) :
    x ∉ a.headers := by
  rintro ⟨q, hq, hheader⟩
  obtain ⟨pg, hpg, horder, hblk⟩ := h.home hb
  have hroom := (geometry (h.placed hpg).order).room
  have hin := (h.placed hpg).inside hblk
  have hbyte := h.mem_room hb hx
  rw [← horder] at hbyte
  have hpage : x ∈ pg.bytes := h.block_bytes hpg hblk ⟨by omega, hbyte.2⟩
  have hqpage : x ∈ q.bytes := by
    rcases hheader with hx | ⟨y, hy, hx⟩
    · rw [Set.mem_Ico] at hx
      exact ⟨hx.1, by unfold pageHdrSize pagesize at *; omega⟩
    · have hroomq := (geometry (h.placed hq).order).room
      rw [Set.mem_Ico] at hx
      exact h.block_bytes hq hy ⟨hx.1, by unfold memblockHdrSize at *; omega⟩
  obtain rfl := h.page_eq hpg hq hpage hqpage
  rcases hheader with hx | ⟨y, hy, hx⟩
  · rw [Set.mem_Ico] at hx
    omega
  · rw [Set.mem_Ico] at hx
    rcases Nat.lt_trichotomy y b.block with hlt | heq | hgt
    · have hspaced := HeldPage.spaced hy hblk hlt
      unfold memblockHdrSize at *
      omega
    · omega
    · have hspaced := HeldPage.spaced hblk hy hgt
      omega

theorem room_page (h : Followed a) (hb : b ∈ a.live) (hx : x ∈ Set.Ico b.ptr (b.ptr + b.room)) :
    ∃ pg ∈ a.pages, x ∈ pg.bytes := by
  obtain ⟨pg, hpg, horder, hblk⟩ := h.home hb
  have hin := h.mem_room hb hx
  rw [← horder] at hin
  exact ⟨pg, hpg, h.block_bytes hpg hblk ⟨by omega, hin.2⟩⟩

theorem header_page (h : Followed a) (hx : x ∈ a.headers) : ∃ pg ∈ a.pages, x ∈ pg.bytes := by
  obtain ⟨pg, hpg, hx | ⟨y, hy, hx⟩⟩ := hx
  · rw [Set.mem_Ico] at hx
    exact ⟨pg, hpg, hx.1, by unfold pageHdrSize pagesize at *; omega⟩
  · have hroom := (geometry (h.placed hpg).order).room
    rw [Set.mem_Ico] at hx
    exact ⟨pg, hpg, h.block_bytes hpg hy ⟨hx.1, by unfold memblockHdrSize at *; omega⟩⟩

end Followed

/-! ## The allocator on bytes -/

/-- A slab allocator that keeps its invariant and has no page with one of the `other` bytes. -/
structure SlabHeap (ρ : Type) (other : Set ℕ) where
  system : SlabSystem ρ
  followed : Followed system
  apart : ∀ pg ∈ system.pages, Disjoint pg.bytes other

/-- After `kmalloc_init`. -/
def SlabHeap.start {s₀ s : Slab ρ} (hzero : ∀ z c, s₀.zoneslabs z c = noSizes) (hinit : kmallocInit s₀ = .ok () s) :
    SlabHeap ρ other :=
  ⟨⟨s, [], []⟩, followed_init hzero hinit, List.forall_mem_nil _⟩

section Service
variable (pageAllocPage : ℕ → Prog (Slab ρ) ℕ)

/-- If `page_alloc_page` returns now, then a cleared page that is nobody's. -/
def SlabHeap.Supplied (a : SlabHeap ρ other) (flags : ℕ) : Prop :=
  a.system.Supplied pageAllocPage flags ∧
    ∀ page t, pageAllocPage flags a.system.slab = .ok page t → Disjoint (Set.Ico page (page + pagesize)) other

variable {pageAllocPage} in
def SlabHeap.afterKmalloc (a : SlabHeap ρ other) {size flags ptr : ℕ} {s' : Slab ρ}
    (hfresh : a.Supplied pageAllocPage flags) (hrun : kmalloc pageAllocPage size flags a.system.slab = .ok ptr s') :
    SlabHeap ρ other where
  system := a.system.afterKmalloc pageAllocPage size flags ptr s'
  followed := (followed_ok a.followed hfresh.1 hrun).1
  apart := by
    unfold SlabSystem.afterKmalloc
    dsimp only
    split
    · split
      · next page t hsrc => exact List.forall_mem_cons.mpr ⟨hfresh.2 page t hsrc, a.apart⟩
      · exact a.apart
    · exact a.apart

def SlabHeap.afterKfree (a : SlabHeap ρ other) {b : LiveBlock} {s' : Slab ρ} (hb : b ∈ a.system.live)
    (hrun : kfree b.ptr a.system.slab = .ok () s') : SlabHeap ρ other where
  system := ⟨s', a.system.pages, a.system.live.erase b⟩
  followed := followed_kfree a.followed hb hrun
  apart := a.apart

/-- What the allocator writes between `a` and `b`, `bytes` being the values. -/
noncomputable def written (bytes : Slab ρ → ℕ → ℕ) (a b : SlabSystem ρ) (mem : ℕ → ℕ) : ℕ → ℕ := by
  classical
  exact fun x => if x ∈ b.headers ∪ a.newPages b then bytes b.slab x else mem x

theorem written_of_not_mem {bytes : Slab ρ → ℕ → ℕ} {a b : SlabSystem ρ} {mem : ℕ → ℕ} {x : ℕ} (hx : x ∉ b.headers)
    (hnew : x ∉ a.newPages b) : written bytes a b mem x = mem x := by
  unfold written
  exact if_neg fun h => h.elim hx hnew

/-- `kmalloc`, as long as `page_alloc_page` has pages that are nobody's. -/
noncomputable def slabKmalloc (bytes : Slab ρ → ℕ → ℕ) (size flags : ℕ) : Prog (Heap (SlabHeap ρ other)) ℕ := by
  classical
  exact fun h =>
    if hfresh : h.alloc.Supplied pageAllocPage flags then
      match hrun : kmalloc pageAllocPage size flags h.alloc.system.slab with
      | .ok p _ =>
        let a := h.alloc.afterKmalloc hfresh hrun
        .ok p ⟨written bytes h.alloc.system a.system h.mem, a⟩
      | .panic m _ => .panic m h
      | .stuck => .stuck
    else .stuck

/-- `kfree` of a block that is out. -/
noncomputable def slabKfree (bytes : Slab ρ → ℕ → ℕ) (p : ℕ) : Prog (Heap (SlabHeap ρ other)) Unit := fun h =>
  match hb : h.alloc.system.live.find? fun b => b.ptr = p with
  | some b =>
    match hrun : kfree b.ptr h.alloc.system.slab with
    | .ok _ _ =>
      let a := h.alloc.afterKfree (List.mem_of_find?_eq_some hb) hrun
      .ok () ⟨written bytes h.alloc.system a.system h.mem, a⟩
    | .panic m _ => .panic m h
    | .stuck => .stuck
  | none => .stuck

variable {pageAllocPage} {bytes : Slab ρ → ℕ → ℕ} {h h' : Heap (SlabHeap ρ other)} {size flags p : ℕ}

theorem slabKmalloc_ok (hok : slabKmalloc pageAllocPage bytes size flags h = .ok p h') :
    ∃ (hfresh : h.alloc.Supplied pageAllocPage flags) (s' : Slab ρ)
      (hrun : kmalloc pageAllocPage size flags h.alloc.system.slab = .ok p s'),
      h'.alloc = h.alloc.afterKmalloc hfresh hrun ∧
        h'.mem = written bytes h.alloc.system (h.alloc.afterKmalloc hfresh hrun).system h.mem := by
  unfold slabKmalloc at hok
  split at hok
  · next hfresh =>
    split at hok
    · next q s' hrun =>
      obtain ⟨rfl, rfl⟩ := Outcome.ok.inj hok
      exact ⟨hfresh, s', hrun, rfl, rfl⟩
    · cases hok
    · cases hok
  · cases hok

/-- A size for which there is no class. -/
theorem slabKmalloc_large (hlarge : maxKmalloc < size) (hlt : size + 16 < 2 ^ 32) :
    slabKmalloc pageAllocPage bytes size flags h ≠ .ok p h' := by
  intro hok
  obtain ⟨-, s', hrun, -⟩ := slabKmalloc_ok hok
  obtain ⟨m, hpanic⟩ := kmalloc_large pageAllocPage h.alloc.followed flags hlarge hlt
  rw [hrun] at hpanic
  cases hpanic

/-- A new page is none of the pages that are held. -/
theorem held_not_new {a : SlabHeap ρ other} {s' : Slab ρ} (hfresh : a.Supplied pageAllocPage flags)
    (hrun : kmalloc pageAllocPage size flags a.system.slab = .ok p s') {x : ℕ}
    (hx : x ∈ other ∨ ∃ pg ∈ a.system.pages, x ∈ pg.bytes) :
    x ∉ a.system.newPages (a.afterKmalloc hfresh hrun).system := by
  rintro ⟨q, hq, hnew, hxq⟩
  rcases hx with hx | ⟨pg, hpg, hx⟩
  · exact Set.disjoint_left.mp ((a.afterKmalloc hfresh hrun).apart q hq) hxq hx
  · have hkeeps : pg ∈ (a.afterKmalloc hfresh hrun).system.pages := by
      unfold SlabHeap.afterKmalloc SlabSystem.afterKmalloc
      dsimp only
      split
      · split
        · exact List.mem_cons_of_mem _ hpg
        · exact hpg
      · exact hpg
    rw [(a.afterKmalloc hfresh hrun).followed.page_eq hq hkeeps hxq hx] at hnew
    exact hnew hpg

/-- What is in use is no header. -/
theorem SlabHeap.inUse_not_header (a : SlabHeap ρ other) {x : ℕ} (hx : x ∈ bytesInUse other a.system.held) :
    x ∉ a.system.headers := by
  intro hheader
  rcases a.followed.mem_bytesInUse.mp hx with hx | ⟨b, hb, hx⟩
  · obtain ⟨pg, hpg, hxp⟩ := a.followed.header_page hheader
    exact Set.disjoint_left.mp (a.apart pg hpg) hxp hx
  · exact a.followed.room_not_header hb hx hheader

theorem SlabHeap.inUse_page (a : SlabHeap ρ other) {x : ℕ} (hx : x ∈ bytesInUse other a.system.held) :
    x ∈ other ∨ ∃ pg ∈ a.system.pages, x ∈ pg.bytes := by
  rcases a.followed.mem_bytesInUse.mp hx with hx | ⟨b, hb, hx⟩
  · exact .inl hx
  · exact .inr (a.followed.room_page hb hx)

/-- The block `kmalloc` returned, and the other ones. -/
theorem held_afterKmalloc {a : SlabHeap ρ other} {s' : Slab ρ} (hfresh : a.Supplied pageAllocPage flags)
    (hrun : kmalloc pageAllocPage size flags a.system.slab = .ok p s') (hsize : size < 2 ^ 16) :
    ∃ b, (a.afterKmalloc hfresh hrun).system.live = b :: a.system.live ∧ b.ptr = p ∧ size ≤ b.room := by
  obtain ⟨hfol, hptr, c, hc⟩ := followed_ok a.followed hfresh.1 hrun
  refine ⟨_, rfl, Nat.sub_add_cancel hptr, ?_⟩
  have hle := (getOrder_some a.followed.sizesOk hc).2
  rw [Nat.mod_eq_of_lt (by unfold memblockHdrSize; omega)] at hle
  unfold LiveBlock.room
  rw [hc, Option.getD_some]
  exact Nat.le_sub_of_add_le hle

section Taken
variable {a a' : SlabHeap ρ other} {b : LiveBlock} (hlive : a'.system.live = b :: a.system.live)
include hlive

theorem taken_ne {c : LiveBlock} (hc : c ∈ a.system.live) : b.block ≠ c.block := by
  have hnodup := a'.followed.nodup
  rw [hlive, List.map_cons, List.nodup_cons] at hnodup
  exact fun heq => hnodup.1 (List.mem_map.mpr ⟨c, hc, heq.symm⟩)

theorem taken_new : a.system.held b.ptr = none := by
  cases hget : a.system.held b.ptr with
  | none => rfl
  | some m =>
    obtain ⟨c, hc, hptr, -⟩ := a.followed.held_eq_some.mp hget
    unfold LiveBlock.ptr at hptr
    exact absurd (by omega) (taken_ne hlive hc)

theorem taken_held : a'.system.held = Function.update a.system.held b.ptr (some b.room) := by
  funext q
  unfold SlabSystem.held
  rw [hlive, List.find?_cons]
  by_cases hq : b.ptr = q
  · subst hq
    simp
  · rw [Function.update_of_ne (Ne.symm hq)]
    simp [hq]

theorem taken_grows : bytesInUse other a.system.held ⊆ bytesInUse other a'.system.held := by
  apply bytesInUse_mono other
  intro q m hq
  rw [taken_held hlive, Function.update_of_ne (by rintro rfl; rw [taken_new hlive] at hq; cases hq), hq]

theorem taken_apart : Disjoint (Set.Ico b.ptr (b.ptr + b.room)) (bytesInUse other a.system.held) := by
  have hb : b ∈ a'.system.live := hlive ▸ List.mem_cons_self
  rw [Set.disjoint_left]
  intro x hx hin
  rcases a.followed.mem_bytesInUse.mp hin with hx' | ⟨c, hc, hx'⟩
  · obtain ⟨pg, hpg, hxp⟩ := a'.followed.room_page hb hx
    exact Set.disjoint_left.mp (a'.apart pg hpg) hxp hx'
  · have hc' : c ∈ a'.system.live := hlive ▸ List.mem_cons_of_mem _ hc
    exact Set.disjoint_left.mp (a'.followed.rooms_disjoint hb hc' (taken_ne hlive hc)) hx hx'

end Taken

theorem held_afterKfree (a : SlabHeap ρ other) {b : LiveBlock} {s' : Slab ρ} (hb : b ∈ a.system.live)
    (hrun : kfree b.ptr a.system.slab = .ok () s') :
    (a.afterKfree hb hrun).system.held = Function.update a.system.held b.ptr none := by
  funext q
  apply Option.ext
  intro m
  rw [(a.afterKfree hb hrun).followed.held_eq_some]
  by_cases hq : q = b.ptr
  · subst hq
    rw [Function.update_self]
    refine iff_of_false ?_ (by simp)
    rintro ⟨c, hc, hptr, -⟩
    obtain rfl := a.followed.mem_eq (List.mem_of_mem_erase hc) hb hptr
    exact (List.Nodup.of_map _ a.followed.nodup).not_mem_erase hc
  · rw [Function.update_of_ne hq, a.followed.held_eq_some]
    refine exists_congr fun c => and_congr_left fun hc => List.mem_erase_of_ne ?_
    rintro rfl
    exact hq hc.1.symm

theorem slabKfree_run {b : LiveBlock} {s' : Slab ρ} (hb : b ∈ h.alloc.system.live)
    (hrun : kfree b.ptr h.alloc.system.slab = .ok () s') : slabKfree bytes b.ptr h =
      .ok () ⟨written bytes h.alloc.system (h.alloc.afterKfree hb hrun).system h.mem, h.alloc.afterKfree hb hrun⟩ := by
  have hfound := h.alloc.followed.find_ptr hb
  unfold slabKfree
  split
  · next c hfind =>
    obtain rfl : b = c := Option.some.inj (hfound.symm.trans hfind)
    split
    · next u t hrun' =>
      obtain ⟨-, rfl⟩ := Outcome.ok.inj (hrun.symm.trans hrun')
      rfl
    · next m t hrun' => cases hrun.symm.trans hrun'
    · next hrun' => cases hrun.symm.trans hrun'
  · next hfind => cases hfound.symm.trans hfind

/-- **The slab allocator serves.** -/
theorem slab_serves (pageAllocPage : ℕ → Prog (Slab ρ) ℕ) (bytes : Slab ρ → ℕ → ℕ) (other : Set ℕ) :
    HeapServes (slabKmalloc pageAllocPage bytes) (slabKfree bytes)
      (fun a : SlabHeap ρ other => a.system.held) other where
  serves {n flags h p h'} hn hok := by
    obtain ⟨hfresh, s', hrun, halloc, hmem⟩ := slabKmalloc_ok hok
    obtain ⟨b, hlive, rfl, hroom⟩ := held_afterKmalloc hfresh hrun hn
    rw [halloc, hmem]
    refine ⟨?_, taken_new hlive, b.room, hroom, taken_apart hlive, taken_held hlive, ?_⟩
    · unfold LiveBlock.ptr memblockHdrSize
      omega
    · intro x hx
      exact written_of_not_mem (SlabHeap.inUse_not_header _ (taken_grows hlive hx))
        (held_not_new hfresh hrun (h.alloc.inUse_page hx))
  frees {p n h} hp := by
    obtain ⟨b, hb, rfl, -⟩ := h.alloc.followed.held_eq_some.mp hp
    obtain ⟨s', hrun⟩ := h.alloc.followed.kfree_returns hb
    refine ⟨_, slabKfree_run hb hrun, held_afterKfree h.alloc hb hrun, ?_⟩
    intro x hx
    refine written_of_not_mem ((h.alloc.afterKfree hb hrun).inUse_not_header hx) ?_
    rintro ⟨q, hq, hnew, -⟩
    exact hnew hq

end Service

end Borgos.Mem
