import Borgos.Boot.Multiboot2
import Borgos.Mem.AlignedAlloc

/-! # `bootmem.c`: the boot heap

Three allocators move `heaptop` up. None of them looks at `maxsize`, and none of them fails: as long as every block, put
at `heaptop` rounded up to its alignment, ends below 2^64, the blocks are disjoint, and they are parts of the area as
long as they end inside of it.
-/
namespace Borgos.Boot
open Borgos.Foundations Borgos.Mem
set_option autoImplicit false

def bootmemAlloc (size : ℕ) : Prog BootmemInfo ℕ := do
  let s ← Prog.get
  let ptr := s.heaptop
  Prog.modify fun s => { s with heaptop := (s.heaptop + size) % wordSize }
  pure (p2v ptr)

def bootmemAllocPhys (size align : ℕ) : Prog BootmemInfo ℕ := do
  let s ← Prog.get
  let ptr := andNot ((s.heaptop + align - 1) % wordSize) (align - 1)
  Prog.modify fun s => { s with heaptop := (ptr + size) % wordSize }
  pure ptr

def bootmemAllocVirt (size align : ℕ) : Prog BootmemInfo ℕ := do
  let s ← Prog.get
  let ptr := andNot ((s.heaptop + align - 1) % wordSize) (align - 1)
  Prog.modify fun s => { s with heaptop := (ptr + size) % wordSize }
  pure (p2v ptr)

/-! ## Sequences of calls -/

inductive BootmemCall where
  | alloc (size : ℕ)
  | allocPhys (size align : ℕ)
  | allocVirt (size align : ℕ)

namespace BootmemCall

def run : BootmemCall → Prog BootmemInfo ℕ
  | alloc size => bootmemAlloc size
  | allocPhys size align => bootmemAllocPhys size align
  | allocVirt size align => bootmemAllocVirt size align

def size : BootmemCall → ℕ
  | alloc size => size
  | allocPhys size _ => size
  | allocVirt size _ => size

/-- `bootmem_alloc` does not align. -/
def align : BootmemCall → ℕ
  | alloc _ => 1
  | allocPhys _ align => align
  | allocVirt _ align => align

/-- The physical address of the block behind the pointer `ret`. -/
def start : BootmemCall → ℕ → ℕ
  | alloc _, ret => v2p ret
  | allocPhys _ _, ret => ret
  | allocVirt _ _, ret => v2p ret

/-- A `size_t` and a power of two. -/
def Valid (c : BootmemCall) : Prop := c.size < wordSize ∧ ∃ k < 64, c.align = 2 ^ k

end BootmemCall

/-- A call with its result and `heaptop` before and after it. -/
structure Served where
  call : BootmemCall
  ret : ℕ
  before : ℕ
  after : ℕ

def Served.block (x : Served) : Set ℕ := Set.Ico (x.call.start x.ret) (x.call.start x.ret + x.call.size)

def serve : List BootmemCall → Prog BootmemInfo (List Served)
  | [] => pure []
  | c :: cs => do
    let s ← Prog.get
    let ret ← c.run
    let t ← Prog.get
    let rest ← serve cs
    pure (⟨c, ret, s.heaptop, t.heaptop⟩ :: rest)

/-- The block lies in the area. -/
def Served.Inside (b : BootmemInfo) (x : Served) : Prop :=
  b.addr ≤ x.call.start x.ret ∧ x.call.start x.ret + x.call.size ≤ b.addr + b.maxsize

/-- What the calls served from `b` on should have given. The offset of the upper half is a multiple of `2 ^ 47`, so a
virtual address can have this alignment and no larger one. -/
structure Disciplined (b : BootmemInfo) (served : List Served) : Prop where
  aligned : ∀ x ∈ served, x.call.align ∣ x.call.start x.ret ∧ (x.call.align ≤ 2 ^ 47 → x.call.align ∣ x.ret)
  fresh : ∀ x ∈ served, Disjoint x.block (Set.Iio b.heaptop)
  disjoint : served.Pairwise fun x y => Disjoint x.block y.block
  rising : ∀ x ∈ served, x.before ≤ x.after

/-- The next multiple of `align`. -/
def roundUp (x align : ℕ) : ℕ := (x + align - 1) / align * align

/-- `heaptop` after a block of the call, placed at the next multiple of its alignment. -/
def topAfter (heaptop : ℕ) (c : BootmemCall) : ℕ := roundUp heaptop c.align + c.size

/-- The blocks of all calls, placed one after the other from `heaptop` on, end at `limit` at most. -/
def AllFit (limit : ℕ) : ℕ → List BootmemCall → Prop
  | _, [] => True
  | heaptop, c :: cs => topAfter heaptop c ≤ limit ∧ AllFit limit (topAfter heaptop c) cs

/-! ## One call -/

theorem le_roundUp {x align : ℕ} (h : 0 < align) : x ≤ roundUp x align := by
  unfold roundUp
  have hdiv := Nat.div_add_mod (x + align - 1) align
  have hmod := Nat.mod_lt (x + align - 1) h
  rw [Nat.mul_comm] at hdiv
  omega

theorem roundUp_one (x : ℕ) : roundUp x 1 = x := by
  unfold roundUp
  omega

theorem dvd_roundUp (x align : ℕ) : align ∣ roundUp x align := Dvd.intro_left _ rfl

/-- Where the rounded address is a 64-bit number, so is the sum it is computed from. -/
theorem roundUp_word {x k : ℕ} (hk : k < 64) (h : roundUp x (2 ^ k) < wordSize) :
    andNot ((x + 2 ^ k - 1) % wordSize) (2 ^ k - 1) = roundUp x (2 ^ k) := by
  have hsplit : wordSize = 2 ^ (64 - k) * 2 ^ k := by
    unfold wordSize
    rw [← pow_add, Nat.sub_add_cancel hk.le]
  have hsum : x + 2 ^ k - 1 < wordSize := by
    unfold roundUp at h
    rw [hsplit] at h ⊢
    exact Nat.lt_mul_of_div_lt (Nat.lt_of_mul_lt_mul_right h) (Nat.two_pow_pos k)
  rw [Nat.mod_eq_of_lt hsum, andNot_two_pow hsum hk, roundUp]

theorem dvd_p2v {p k : ℕ} (hp : 2 ^ k ∣ p) (hk : 2 ^ k ≤ 2 ^ 47) : 2 ^ k ∣ p2v p := by
  have hle : k ≤ 47 := (Nat.pow_le_pow_iff_right (by decide)).mp hk
  have hword : 2 ^ k ∣ wordSize := pow_dvd_pow 2 (by omega)
  have hoffset : 2 ^ k ∣ kernelUpperHalfOffset :=
    (pow_dvd_pow 2 hle).trans (by unfold kernelUpperHalfOffset; decide)
  exact (Nat.dvd_mod_iff hword).mpr (Nat.dvd_add hp hoffset)

variable {b : BootmemInfo} {c : BootmemCall}

/-- A call whose block ends below `2 ^ 64` gets the block at the rounded `heaptop`. -/
theorem BootmemCall.run_fits (hc : c.Valid) (hfit : topAfter b.heaptop c < wordSize) :
    ∃ ret, c.run b = .ok ret { b with heaptop := topAfter b.heaptop c } ∧
      c.start ret = roundUp b.heaptop c.align ∧ (c.align ≤ 2 ^ 47 → c.align ∣ ret) := by
  obtain ⟨hsize, k, hk, halign⟩ := hc
  have hptr : roundUp b.heaptop c.align < wordSize := lt_of_le_of_lt (Nat.le_add_right _ _) hfit
  cases c with
  | alloc size =>
    simp only [topAfter, BootmemCall.align, BootmemCall.size, roundUp_one] at hfit hptr ⊢
    refine ⟨p2v b.heaptop, ?_, v2p_p2v hptr, fun _ => one_dvd _⟩
    simp only [run, bootmemAlloc, Prog.bind_run, Prog.get_run, Prog.modify_run, Outcome.andThen_ok, Prog.pure_run,
      Nat.mod_eq_of_lt hfit]
  | allocPhys size align =>
    simp only [topAfter, BootmemCall.align, BootmemCall.size] at halign hfit hptr ⊢
    subst halign
    refine ⟨roundUp b.heaptop (2 ^ k), ?_, rfl, fun _ => dvd_roundUp _ _⟩
    simp only [run, bootmemAllocPhys, Prog.bind_run, Prog.get_run, Prog.modify_run, Outcome.andThen_ok, Prog.pure_run,
      roundUp_word hk hptr, Nat.mod_eq_of_lt hfit]
  | allocVirt size align =>
    simp only [topAfter, BootmemCall.align, BootmemCall.size] at halign hfit hptr ⊢
    subst halign
    refine ⟨p2v (roundUp b.heaptop (2 ^ k)), ?_, v2p_p2v hptr, fun hle => dvd_p2v (dvd_roundUp _ _) hle⟩
    simp only [run, bootmemAllocVirt, Prog.bind_run, Prog.get_run, Prog.modify_run, Outcome.andThen_ok, Prog.pure_run,
      roundUp_word hk hptr, Nat.mod_eq_of_lt hfit]

/-! ## Runs -/

/-- Every run whose blocks end below `2 ^ 64` keeps the discipline, and the blocks lie in the area exactly if they fit.
No call panics, so one whose block does not fit gets it all the same. -/
theorem bootmem_discipline {calls : List BootmemCall} (hlow : b.addr ≤ b.heaptop) (hvalid : ∀ c ∈ calls, c.Valid)
    (hwrap : AllFit (wordSize - 1) b.heaptop calls) :
    ∃ served t, serve calls b = .ok served t ∧ Disciplined b served ∧
      ((∀ x ∈ served, x.Inside b) ↔ AllFit (b.addr + b.maxsize) b.heaptop calls) ∧ b.heaptop ≤ t.heaptop ∧
      t.addr = b.addr ∧ t.maxsize = b.maxsize := by
  -- the blocks lie one above the other, so those of the later calls lie above the new `heaptop`
  induction calls generalizing b with
  | nil =>
    exact ⟨[], b, rfl, ⟨List.forall_mem_nil _, List.forall_mem_nil _, .nil, List.forall_mem_nil _⟩,
      iff_of_true (List.forall_mem_nil _) trivial, le_rfl, rfl, rfl⟩
  | cons c cs ih =>
    obtain ⟨hlast, hrest⟩ := hwrap
    have hword : topAfter b.heaptop c < wordSize := Nat.lt_of_le_pred (by decide) hlast
    obtain ⟨hc, hcs⟩ := List.forall_mem_cons.mp hvalid
    obtain ⟨ret, hrun, hstart, halign⟩ := BootmemCall.run_fits hc hword
    have hpos : 0 < c.align := by
      obtain ⟨-, k, -, hk⟩ := hc
      rw [hk]
      exact Nat.two_pow_pos k
    have hup : b.heaptop ≤ roundUp b.heaptop c.align := le_roundUp hpos
    have htop : b.heaptop ≤ topAfter b.heaptop c := hup.trans (Nat.le_add_right _ _)
    obtain ⟨served, t, hserve, hd, hin, hle, haddr, hmax⟩ :=
      ih (b := { b with heaptop := topAfter b.heaptop c }) (hlow.trans htop) hcs hrest
    refine ⟨⟨c, ret, b.heaptop, topAfter b.heaptop c⟩ :: served, t, ?_, ?_, ?_, htop.trans hle, haddr, hmax⟩
    · simp only [serve, Prog.bind_run, Prog.get_run, Outcome.andThen_ok, hrun, hserve, Prog.pure_run]
    · have hblock : (⟨c, ret, b.heaptop, topAfter b.heaptop c⟩ : Served).block =
          Set.Ico (roundUp b.heaptop c.align) (topAfter b.heaptop c) := by
        rw [Served.block, hstart, topAfter]
      refine ⟨?_, ?_, ?_, ?_⟩
      · refine List.forall_mem_cons.mpr ⟨⟨?_, halign⟩, hd.aligned⟩
        rw [hstart]
        exact dvd_roundUp _ _
      · refine List.forall_mem_cons.mpr ⟨?_, fun x hx => ?_⟩
        · rw [hblock]
          exact Set.disjoint_left.mpr fun i hi hlt => absurd (hup.trans hi.1) (not_le.mpr hlt)
        · exact (hd.fresh x hx).mono_right (Set.Iio_subset_Iio htop)
      · refine List.pairwise_cons.mpr ⟨fun y hy => ?_, hd.disjoint⟩
        rw [hblock]
        exact ((hd.fresh y hy).mono_right fun i hi => hi.2).symm
      · exact List.forall_mem_cons.mpr ⟨htop, hd.rising⟩
    · refine List.forall_mem_cons.trans (and_congr ?_ hin)
      show b.addr ≤ c.start ret ∧ c.start ret + c.size ≤ _ ↔ topAfter b.heaptop c ≤ _
      rw [hstart]
      exact and_iff_right (hlow.trans hup)

theorem bootmem_discipline_page : ∃ served t,
    serve [.alloc 8, .allocPhys 16 4096, .allocVirt 8 16] ⟨0x1000000, 0x1000100, 0x10000⟩ = .ok served t ∧
      Disciplined ⟨0x1000000, 0x1000100, 0x10000⟩ served ∧
      ∀ x ∈ served, x.Inside ⟨0x1000000, 0x1000100, 0x10000⟩ := by
  have hvalid : ∀ c ∈ [BootmemCall.alloc 8, .allocPhys 16 4096, .allocVirt 8 16], c.Valid := by
    simp only [List.forall_mem_cons, List.not_mem_nil, false_implies, implies_true, and_true]
    exact ⟨⟨by decide, 0, by decide, rfl⟩, ⟨by decide, 12, by decide, rfl⟩, ⟨by decide, 4, by decide, rfl⟩⟩
  obtain ⟨served, t, hserve, hd, hin, -⟩ := bootmem_discipline (b := ⟨0x1000000, 0x1000100, 0x10000⟩) (by decide) hvalid
    ⟨by decide, by decide, by decide, trivial⟩
  exact ⟨served, t, hserve, hd, hin.mpr ⟨by decide, by decide, by decide, trivial⟩⟩

/-- Two pages asked of an area of one page; almost all of the address space; and a virtual address aligned to `2 ^
48`. -/
theorem bootmem_alloc_beyond_area :
    ((BootmemCall.alloc 0x2000).Valid ∧ ∃ served t, serve [.alloc 0x2000] ⟨0x1000000, 0x1000000, 0x1000⟩ =
      .ok served t ∧
      ¬∀ x ∈ served, x.Inside ⟨0x1000000, 0x1000000, 0x1000⟩) ∧
    ((BootmemCall.alloc (wordSize - 1)).Valid ∧
      ∃ served t, serve [.alloc (wordSize - 1)] ⟨0x1000000, 0x1000000, 0x1000⟩ = .ok served t ∧
      ¬∀ x ∈ served, x.before ≤ x.after) ∧
    (BootmemCall.allocVirt 8 (2 ^ 48)).Valid ∧
      ∃ served t, serve [.allocVirt 8 (2 ^ 48)] ⟨0x1000000, 0x1000000, 0x1000⟩ = .ok served t ∧
      ¬∀ x ∈ served, x.call.align ∣ x.ret := by
  refine ⟨⟨⟨by decide, 0, by decide, rfl⟩, _, _, rfl, fun h => ?_⟩,
    ⟨⟨by decide, 0, by decide, rfl⟩, _, _, rfl, fun h => ?_⟩, ⟨by decide, 48, by decide, rfl⟩, _, _, rfl, fun h => ?_⟩
  · have hinside := (h _ List.mem_cons_self).2
    revert hinside
    decide
  · have hrising := h _ List.mem_cons_self
    revert hrising
    decide
  · have haligned := h _ List.mem_cons_self
    revert haligned
    decide

end Borgos.Boot
