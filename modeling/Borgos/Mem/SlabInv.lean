import Borgos.Foundations.Chain
import Borgos.Mem.Kmalloc

/-! # The slab invariant

`SlabInv s pages live chain cls`: `pages` are the pages `kmalloc` has got so far, each with the zone and
the class it was got for, `live` the blocks that are out. The free blocks of a page are chained in the
order `chain`, the pages of a class that have a free block in the order `cls`. Every block of a page is
either on its chain or out.
-/
namespace Borgos.Mem
open Borgos.Foundations
set_option autoImplicit false

/-! ## Geometry -/

structure HeldPage where
  addr : ℕ
  zone : Zone
  order : ℕ
deriving DecidableEq, Repr

structure LiveBlock where
  block : ℕ
  size : ℕ
  zone : Zone
  order : ℕ
deriving DecidableEq, Repr

def blockSize (order : ℕ) : ℕ := (calcSize order).1

def blockCount (order : ℕ) : ℕ := (calcSize order).2

/-- The addresses of the block headers of a page. -/
def HeldPage.blocks (pg : HeldPage) : List ℕ :=
  (List.range (blockCount pg.order)).map fun i => pg.addr + pageHdrSize + i * blockSize pg.order

/-- The blocks of a page that are out. -/
def HeldPage.liveIn (pg : HeldPage) (live : List LiveBlock) : List ℕ :=
  (live.filter fun b => pagealignDown b.block = pg.addr).map LiveBlock.block

/-- The pointer `kmalloc` returned for the block. -/
def LiveBlock.ptr (b : LiveBlock) : ℕ := b.block + memblockHdrSize

/-- The bytes of a block, with its header. -/
def LiveBlock.extent (b : LiveBlock) : Set ℕ := {x | b.block ≤ x ∧ x < b.block + blockSize b.order}

structure Geometry (order : ℕ) : Prop where
  aligned : 16 ∣ blockSize order
  room : 32 ≤ blockSize order
  small : blockSize order ≤ 4064
  some : 0 < blockCount order
  few : blockCount order ≤ 127
  fits : pageHdrSize + blockCount order * blockSize order ≤ pagesize

theorem geometry {order : ℕ} (h : order < slabsizecount) : Geometry order := by
  unfold slabsizecount at h
  interval_cases order
  all_goals exact ⟨by decide, by decide, by decide, by decide, by decide, by decide⟩

/-- A page where pages may be. -/
structure HeldPage.Placed (pg : HeldPage) : Prop where
  aligned : pagesize ∣ pg.addr
  pos : 0 < pg.addr
  below : pg.addr + pagesize ≤ wordSize
  order : pg.order < slabsizecount
  zone : pg.zone = .NORMAL ∨ pg.zone = .DMA16

theorem HeldPage.mem_blocks {pg : HeldPage} {x : ℕ} : x ∈ pg.blocks ↔
    ∃ i < blockCount pg.order, x = pg.addr + pageHdrSize + i * blockSize pg.order := by
  unfold HeldPage.blocks
  rw [List.mem_map]
  constructor
  · intro h
    obtain ⟨i, hi, e⟩ := h
    exact ⟨i, List.mem_range.mp hi, e.symm⟩
  · intro h
    obtain ⟨i, hi, e⟩ := h
    exact ⟨i, List.mem_range.mpr hi, e.symm⟩

theorem HeldPage.length_blocks (pg : HeldPage) : pg.blocks.length = blockCount pg.order := by
  unfold HeldPage.blocks
  rw [List.length_map, List.length_range]

/-- Two blocks of a page do not overlap. -/
theorem HeldPage.spaced {pg : HeldPage} {x y : ℕ} (hx : x ∈ pg.blocks) (hy : y ∈ pg.blocks) (hlt : x < y) :
    x + blockSize pg.order ≤ y := by
  obtain ⟨i, hi, rfl⟩ := HeldPage.mem_blocks.mp hx
  obtain ⟨j, hj, rfl⟩ := HeldPage.mem_blocks.mp hy
  have hij : i < j := by
    by_contra hc
    have hmul : j * blockSize pg.order ≤ i * blockSize pg.order := Nat.mul_le_mul_right _ (by omega)
    omega
  have hmul : (i + 1) * blockSize pg.order ≤ j * blockSize pg.order := Nat.mul_le_mul_right _ hij
  rw [Nat.add_mul, Nat.one_mul] at hmul
  omega

namespace HeldPage.Placed
variable {pg : HeldPage} {x : ℕ}

/-- A block lies inside its page, behind the page header. -/
theorem inside (h : pg.Placed) (hx : x ∈ pg.blocks) :
    pg.addr + pageHdrSize ≤ x ∧ x + blockSize pg.order ≤ pg.addr + pagesize := by
  obtain ⟨i, hi, rfl⟩ := HeldPage.mem_blocks.mp hx
  have g := (geometry h.order).fits
  have hmul : (i + 1) * blockSize pg.order ≤ blockCount pg.order * blockSize pg.order :=
    Nat.mul_le_mul_right _ hi
  rw [Nat.add_mul, Nat.one_mul] at hmul
  omega

theorem pagealignDown_eq (h : pg.Placed) (hx : x ∈ pg.blocks) : pagealignDown x = pg.addr := by
  have hin := h.inside hx
  have hroom := (geometry h.order).room
  obtain ⟨k, hk⟩ := h.aligned
  unfold pagealignDown pageHdrSize pagesize at *
  omega

theorem block_aligned (h : pg.Placed) (hx : x ∈ pg.blocks) : 16 ∣ x := by
  obtain ⟨i, hi, rfl⟩ := HeldPage.mem_blocks.mp hx
  have ha : 16 ∣ pg.addr := Dvd.dvd.trans (by decide) h.aligned
  exact Nat.dvd_add (Nat.dvd_add ha (by decide)) (Dvd.dvd.mul_left (geometry h.order).aligned i)

theorem blocks_nodup (h : pg.Placed) : pg.blocks.Nodup := by
  have hroom := (geometry h.order).room
  refine List.Nodup.map ?_ List.nodup_range
  intro i j e
  have hmul : i * blockSize pg.order = j * blockSize pg.order := by
    simp only at e
    omega
  exact Nat.eq_of_mul_eq_mul_right (by omega) hmul

end HeldPage.Placed

/-! ## The invariant -/

/-- What `flags` of a live block of the zone holds. -/
def zoneGfp : Zone → ℕ
  | .DMA16 => gfpDma16
  | _ => 0

/-- The number of blocks, given by `f`, of the pages of one class. -/
def pageSum (pages : List HeldPage) (f : HeldPage → ℕ) (z : Zone) (c : ℕ) : ℕ :=
  (pages.map fun pg => if pg.zone = z ∧ pg.order = c then f pg else 0).sum

/-- The bytes requested by the live blocks of one class. -/
def liveBytes (live : List LiveBlock) (z : Zone) (c : ℕ) : ℕ :=
  (live.map fun b => if b.zone = z ∧ b.order = c then b.size else 0).sum

variable {ρ : Type}

structure PageOk (s : Slab ρ) (live : List LiveBlock) (pg : HeldPage) (xs : List ℕ) : Prop where
  order : (s.pageHdr pg.addr).order = pg.order
  nfree : (s.pageHdr pg.addr).nfree = xs.length
  chained : Chained (fun x => (s.blockHdr x).next) 0 (s.pageHdr pg.addr).firstfree xs
  split : (xs ++ pg.liveIn live).Perm pg.blocks
  flags : ∀ x ∈ xs, (s.blockHdr x).flags = memblockFree ∨
    (s.blockHdr x).flags = memblockFree ||| zoneGfp pg.zone
  full : xs = [] → (s.pageHdr pg.addr).next = 0

structure LiveOk (s : Slab ρ) (pages : List HeldPage) (b : LiveBlock) : Prop where
  home : ∃ pg ∈ pages, pg.addr = pagealignDown b.block ∧ pg.zone = b.zone ∧ pg.order = b.order
  fits : b.size + memblockHdrSize ≤ blockSize b.order
  flags : (s.blockHdr b.block).flags = zoneGfp b.zone
  size : (s.blockHdr b.block).size = b.size

structure ClassOk (s : Slab ρ) (pages : List HeldPage) (live : List LiveBlock) (chain : ℕ → List ℕ) (z : Zone)
    (c : ℕ) (ps : List ℕ) : Prop where
  chained : Chained (fun x => (s.pageHdr x).next) 0 (s.zoneslabs z c).firstfree ps
  nodup : ps.Nodup
  mem : ∀ x, x ∈ ps ↔ ∃ pg ∈ pages, pg.addr = x ∧ pg.zone = z ∧ pg.order = c ∧ chain x ≠ []
  nfree : (s.zoneslabs z c).nfree = pageSum pages (fun pg => (chain pg.addr).length) z c % 2 ^ 32
  ntotal : (s.zoneslabs z c).ntotal = pageSum pages (fun pg => blockCount pg.order) z c % 2 ^ 32
  nbytes : (s.zoneslabs z c).nbytesmalloced = liveBytes live z c % 2 ^ 32

/-- The table of classes, as `kmalloc_init` leaves it. -/
structure SizesOk (s : Slab ρ) : Prop where
  size : ∀ z c, (s.zoneslabs z c).size = if c < slabsizecount then blockSize c else 0
  nblocks : ∀ z c, c < slabsizecount → (s.zoneslabs z c).nblocks = blockCount c

structure SlabInv (s : Slab ρ) (pages : List HeldPage) (live : List LiveBlock) (chain : ℕ → List ℕ)
    (cls : Zone → ℕ → List ℕ) : Prop where
  sizes : SizesOk s
  placed : ∀ pg ∈ pages, pg.Placed
  distinct : (pages.map HeldPage.addr).Nodup
  pageOk : ∀ pg ∈ pages, PageOk s live pg (chain pg.addr)
  liveOk : ∀ b ∈ live, LiveOk s pages b
  classOk : ∀ z c, ClassOk s pages live chain z c (cls z c)

/-! ## Frames -/

theorem PageOk.congr {s s' : Slab ρ} {live live' : List LiveBlock} {pg : HeldPage} {xs : List ℕ}
    (h : PageOk s live pg xs) (hp : s'.pageHdr pg.addr = s.pageHdr pg.addr)
    (hb : ∀ x ∈ xs, s'.blockHdr x = s.blockHdr x) (hl : (pg.liveIn live').Perm (pg.liveIn live)) :
    PageOk s' live' pg xs where
  order := by rw [hp]; exact h.order
  nfree := by rw [hp]; exact h.nfree
  chained := by
    rw [hp]
    exact h.chained.congr fun x hx => by rw [hb x hx]
  split := (hl.append_left xs).trans h.split
  flags x hx := by rw [hb x hx]; exact h.flags x hx
  full := by rw [hp]; exact h.full

theorem LiveOk.congr {s s' : Slab ρ} {pages pages' : List HeldPage} {b : LiveBlock} (h : LiveOk s pages b)
    (hsub : ∀ pg ∈ pages, pg ∈ pages') (hb : s'.blockHdr b.block = s.blockHdr b.block) : LiveOk s' pages' b where
  home := by
    obtain ⟨pg, hpg, hrest⟩ := h.home
    exact ⟨pg, hsub pg hpg, hrest⟩
  fits := h.fits
  flags := by rw [hb]; exact h.flags
  size := by rw [hb]; exact h.size

/-- One page's share changes. -/
theorem pageSum_change {pages : List HeldPage} (hd : (pages.map HeldPage.addr).Nodup) {pg : HeldPage}
    (hpg : pg ∈ pages) (f g : HeldPage → ℕ) (hsame : ∀ q ∈ pages, q.addr ≠ pg.addr → g q = f q) (z : Zone) (c : ℕ) :
    pageSum pages g z c + (if pg.zone = z ∧ pg.order = c then f pg else 0) =
      pageSum pages f z c + (if pg.zone = z ∧ pg.order = c then g pg else 0) := by
  unfold pageSum
  rw [← List.sum_map_erase _ hpg, ← List.sum_map_erase (f := fun q => if q.zone = z ∧ q.order = c then f q else 0) hpg]
  have hrest : ((pages.erase pg).map fun q => if q.zone = z ∧ q.order = c then g q else 0) =
      (pages.erase pg).map fun q => if q.zone = z ∧ q.order = c then f q else 0 := by
    refine List.map_congr_left fun q hq => ?_
    have hqne : q.addr ≠ pg.addr := by
      intro e
      have hq' := List.mem_of_mem_erase hq
      have hqp : q = pg := List.inj_on_of_nodup_map hd hq' hpg e
      rw [hqp] at hq
      exact (List.Nodup.of_map _ hd).not_mem_erase hq
    rw [hsame q (List.mem_of_mem_erase hq) hqne]
  rw [hrest]
  omega

/-! ## Where things are -/

namespace SlabInv
variable {s : Slab ρ} {pages : List HeldPage} {live : List LiveBlock} {chain : ℕ → List ℕ}
  {cls : Zone → ℕ → List ℕ} {pg : HeldPage} {x : ℕ} {b : LiveBlock}

theorem page_unique (h : SlabInv s pages live chain cls) {q : HeldPage} (hpg : pg ∈ pages) (hq : q ∈ pages)
    (e : q.addr = pg.addr) : q = pg := List.inj_on_of_nodup_map h.distinct hq hpg e

theorem chain_mem (h : SlabInv s pages live chain cls) (hpg : pg ∈ pages) (hx : x ∈ chain pg.addr) :
    x ∈ pg.blocks := (h.pageOk pg hpg).split.subset (List.mem_append_left _ hx)

theorem chain_page (h : SlabInv s pages live chain cls) (hpg : pg ∈ pages) (hx : x ∈ chain pg.addr) :
    pagealignDown x = pg.addr := (h.placed pg hpg).pagealignDown_eq (h.chain_mem hpg hx)

theorem live_mem (h : SlabInv s pages live chain cls) (hb : b ∈ live) : ∃ pg ∈ pages, pg.zone = b.zone ∧
    pg.order = b.order ∧ pg.addr = pagealignDown b.block ∧ b.block ∈ pg.liveIn live ∧ b.block ∈ pg.blocks := by
  obtain ⟨pg, hpg, haddr, hz, hc⟩ := (h.liveOk b hb).home
  have hin : b.block ∈ pg.liveIn live :=
    List.mem_map.mpr ⟨b, List.mem_filter.mpr ⟨hb, decide_eq_true haddr.symm⟩, rfl⟩
  exact ⟨pg, hpg, hz, hc, haddr, hin, (h.pageOk pg hpg).split.subset (List.mem_append_right _ hin)⟩

theorem split_nodup (h : SlabInv s pages live chain cls) (hpg : pg ∈ pages) :
    (chain pg.addr ++ pg.liveIn live).Nodup :=
  (h.pageOk pg hpg).split.nodup_iff.mpr (h.placed pg hpg).blocks_nodup

/-- A block on a chain is not out. -/
theorem chain_not_live (h : SlabInv s pages live chain cls) (hpg : pg ∈ pages) (hx : x ∈ chain pg.addr)
    (hb : b ∈ live) : b.block ≠ x := by
  intro e
  obtain ⟨q, hq, -, -, haddr, hin, -⟩ := h.live_mem hb
  have hqp : q = pg := by
    refine h.page_unique hpg hq ?_
    rw [haddr, e]
    exact h.chain_page hpg hx
  subst hqp
  rw [e] at hin
  exact (List.nodup_append.mp (h.split_nodup hq)).2.2 x hx x hin rfl

theorem chain_length (h : SlabInv s pages live chain cls) (hpg : pg ∈ pages) : (chain pg.addr).length ≤ 127 := by
  have hlen := (h.pageOk pg hpg).split.length_eq
  rw [List.length_append, HeldPage.length_blocks] at hlen
  have := (geometry (h.placed pg hpg).order).few
  omega

theorem addr_ne (h : SlabInv s pages live chain cls) (hpg : pg ∈ pages) {q : HeldPage} (hq : q ∈ pages)
    (hne : q.addr ≠ pg.addr) (hx : x ∈ chain pg.addr) : x ∉ chain q.addr := by
  intro hxq
  exact hne ((h.chain_page hq hxq).symm.trans (h.chain_page hpg hx))

end SlabInv

end Borgos.Mem
