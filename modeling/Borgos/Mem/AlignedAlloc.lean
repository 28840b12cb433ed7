import Borgos.Foundations.LittleEndian
import Borgos.Mem.Kmalloc

/-! # `kmalloc_aligned` and `kfree_aligned`

A block with room for the data, for shifting it to a multiple of `alignment` and for the original pointer,
which is kept in the eight bytes before the data. `kmalloc` and `kfree` are parameters; memory is a
function from addresses to bytes.
-/
namespace Borgos.Mem
open Borgos.Foundations Borgos.Foundations.FlatMemory
set_option autoImplicit false

variable {ρ : Type}

/-- Memory, and what the allocator keeps for itself. -/
structure Heap (ρ : Type) where
  mem : ℕ → ℕ
  alloc : ρ

/-- `sizeof(void*)`. -/
def pointerSize : ℕ := 8

/-- `a & ~(uintptr_t)b`. -/
def andNot (a b : ℕ) : ℕ := a &&& (wordSize - (b + 1))

section Allocator
variable (kmalloc : ℕ → ℕ → Prog (Heap ρ) ℕ) (kfree : ℕ → Prog (Heap ρ) Unit)

/-- `kmalloc_aligned`. -/
def kmallocAligned (size alignment flags : ℕ) : Prog (Heap ρ) ℕ := do
  if alignment = 0 ∨ alignment &&& (alignment - 1) ≠ 0 then pure 0
  else do
    let totalSize := (size + alignment - 1 + pointerSize) % wordSize
    let raw ← kmalloc totalSize flags
    if raw = 0 then pure 0
    else do
      let rawAddr := (raw + pointerSize) % wordSize
      let alignedAddr := andNot ((rawAddr + alignment - 1) % wordSize) (alignment - 1)
      Prog.modify fun h => { h with
        mem := storeNat h.mem ((alignedAddr + wordSize - pointerSize) % wordSize) pointerSize raw }
      pure alignedAddr

/-- `kfree_aligned`. -/
def kfreeAligned (ptr : ℕ) : Prog (Heap ρ) Unit := do
  if ptr = 0 then pure ()
  else do
    let h ← Prog.get
    kfree (loadNat h.mem ((ptr + wordSize - pointerSize) % wordSize) pointerSize)

/-- `kmalloc` panics or returns a block, in the state `h` of `len h raw` bytes from `raw` on, that has room for the
bytes asked for. A pointer past the block's end is still a pointer. -/
def GivesBlocks (len : Heap ρ → ℕ → ℕ) : Prop := ∀ n flags h raw h', kmalloc n flags h = .ok raw h' →
  raw ≠ 0 ∧ n ≤ len h' raw ∧ raw + len h' raw < wordSize

/-- What a call of `kmalloc_aligned` that returned `p` has to have done. -/
structure AlignedBlock (len : Heap ρ → ℕ → ℕ) (size alignment flags : ℕ) (h : Heap ρ) (p : ℕ) (h' : Heap ρ) :
    Prop where
  aligned : alignment ∣ p
  block : ∃ n raw t, kmalloc n flags h = .ok raw t ∧ pointerSize ≤ p ∧
    h' = { t with mem := storeNat t.mem (p - pointerSize) pointerSize raw } ∧
    Set.Ico (p - pointerSize) p ⊆ Set.Ico raw (raw + len t raw) ∧
    Set.Ico p (p + size) ⊆ Set.Ico raw (raw + len t raw) ∧
    Disjoint (Set.Ico (p - pointerSize) p) (Set.Ico p (p + size)) ∧
    ∀ mem, (∀ x, x ∉ Set.Ico p (p + size) → mem x = h'.mem x) → ∀ kfree,
      kfreeAligned kfree p { h' with mem := mem } = kfree raw { h' with mem := mem }

end Allocator

/-- With every `kmalloc` that gives blocks, `kmalloc_aligned` gives aligned blocks. -/
def AlignedServed (size alignment flags : ℕ) : Prop :=
  ∀ (ρ : Type) (kmalloc : ℕ → ℕ → Prog (Heap ρ) ℕ) (len : Heap ρ → ℕ → ℕ), GivesBlocks kmalloc len →
    ∀ h p h', kmallocAligned kmalloc size alignment flags h = .ok p h' →
      AlignedBlock kmalloc len size alignment flags h p h'

/-! ## Rounding up -/

theorem andNot_two_pow {x k : ℕ} (hx : x < wordSize) (hk : k < 64) : andNot x (2 ^ k - 1) = x / 2 ^ k * 2 ^ k := by
  have hpos : 0 < 2 ^ k := Nat.two_pow_pos k
  have hlt : 2 ^ k - 1 < 2 ^ 64 := lt_of_lt_of_le (Nat.sub_lt hpos Nat.one_pos) (Nat.pow_le_pow_right (by decide) hk.le)
  apply Nat.eq_of_testBit_eq
  intro i
  unfold andNot wordSize at *
  rw [Nat.testBit_and, Nat.testBit_two_pow_sub_succ hlt, Nat.testBit_two_pow_sub_one, Nat.testBit_mul_two_pow,
    Nat.testBit_div_two_pow]
  by_cases hi : k ≤ i
  · by_cases h64 : i < 64
    · simp [hi, h64, Nat.not_lt.mpr hi]
    · have hbit : x.testBit i = false := Nat.testBit_lt_two_pow
        (lt_of_lt_of_le hx (Nat.pow_le_pow_right (by decide) (by omega)))
      simp [hi, hbit]
  · simp [hi, Nat.lt_of_not_le hi]

/-- The code's check lets every power of two through. -/
theorem two_pow_and_pred (k : ℕ) : 2 ^ k &&& (2 ^ k - 1) = 0 := by
  rw [Nat.and_two_pow_sub_one_eq_mod, Nat.mod_self]

theorem roundUp_bounds (x : ℕ) {a : ℕ} (ha : 0 < a) :
    x ≤ (x + a - 1) / a * a ∧ (x + a - 1) / a * a ≤ x + a - 1 := by
  have hdiv := Nat.div_add_mod (x + a - 1) a
  have hlt := Nat.mod_lt (x + a - 1) ha
  rw [Nat.mul_comm] at hdiv
  omega

/-! ## The two calls -/

section Runs
variable {kmalloc : ℕ → ℕ → Prog (Heap ρ) ℕ} {size k flags p : ℕ} {h h' : Heap ρ}

/-- A call that returned has got a block and has written the pointer before the aligned address. -/
theorem kmallocAligned_run (hrun : kmallocAligned kmalloc size (2 ^ k) flags h = .ok p h') :
    ∃ raw t, kmalloc ((size + 2 ^ k - 1 + pointerSize) % wordSize) flags h = .ok raw t ∧ (raw ≠ 0 →
      p = andNot (((raw + pointerSize) % wordSize + 2 ^ k - 1) % wordSize) (2 ^ k - 1) ∧
      h' = { t with mem := storeNat t.mem ((p + wordSize - pointerSize) % wordSize) pointerSize raw }) := by
  have hpow : ¬(2 ^ k = 0 ∨ 2 ^ k &&& (2 ^ k - 1) ≠ 0) := by
    rw [two_pow_and_pred]
    have hpos := Nat.two_pow_pos k
    omega
  unfold kmallocAligned at hrun
  rw [if_neg hpow] at hrun
  obtain ⟨raw, t, hraw, hrest⟩ := Prog.bind_ok.mp hrun
  refine ⟨raw, t, hraw, ?_⟩
  intro hne
  rw [if_neg hne, Prog.bind_run, Prog.modify_run, Outcome.andThen_ok, Prog.pure_run] at hrest
  obtain ⟨hp, hh⟩ := Outcome.ok.inj hrest
  rw [← hp, ← hh]
  exact ⟨rfl, rfl⟩

/-- The address before `p`, as the code computes it. -/
theorem slot_eq {p : ℕ} (hlow : pointerSize ≤ p) (hlt : p < wordSize) :
    (p + wordSize - pointerSize) % wordSize = p - pointerSize := by
  have e : p + wordSize - pointerSize = p - pointerSize + wordSize := by omega
  rw [e, Nat.add_mod_right]
  exact Nat.mod_eq_of_lt (by omega)

/-- The slot survives what the caller does to its own bytes. -/
theorem kfreeAligned_run {raw : ℕ} (hlow : pointerSize ≤ p) (hlt : p < wordSize) (hraw : raw < wordSize)
    (hh : h' = { h with mem := storeNat h.mem (p - pointerSize) pointerSize raw }) {mem : ℕ → ℕ}
    (hsame : ∀ x, x ∉ Set.Ico p (p + size) → mem x = h'.mem x) (kfree : ℕ → Prog (Heap ρ) Unit) :
    kfreeAligned kfree p { h' with mem := mem } = kfree raw { h' with mem := mem } := by
  have hne : p ≠ 0 := by
    unfold pointerSize at hlow
    omega
  have hload : loadNat mem (p - pointerSize) pointerSize = raw := by
    apply loadNat_storeNat (m := h.mem)
    · intro i hi
      rw [hsame, hh]
      intro hin
      have hle := (Set.mem_Ico.mp hin).1
      omega
    · exact hraw
  unfold kfreeAligned
  rw [if_neg hne, Prog.bind_run, Prog.get_run, Outcome.andThen_ok, slot_eq hlow hlt, hload]

/-- As long as the total does not wrap around, the data and the slot are inside the block. -/
theorem alignedBlock_of_lt {len : Heap ρ → ℕ → ℕ} (hblocks : GivesBlocks kmalloc len) (hk : k < 64)
    (htotal : size + 2 ^ k + 7 < wordSize) (hrun : kmallocAligned kmalloc size (2 ^ k) flags h = .ok p h') :
    AlignedBlock kmalloc len size (2 ^ k) flags h p h' := by
  obtain ⟨raw, t, hraw, hrest⟩ := kmallocAligned_run hrun
  obtain ⟨hne, hlen, hend⟩ := hblocks _ _ _ _ _ hraw
  obtain ⟨hp, hh⟩ := hrest hne
  have hpos : 0 < 2 ^ k := Nat.two_pow_pos k
  rw [Nat.mod_eq_of_lt (by unfold pointerSize; omega)] at hlen
  -- nothing wraps around inside the block
  have hin : raw + pointerSize + 2 ^ k - 1 < wordSize := by omega
  rw [Nat.mod_eq_of_lt (show raw + pointerSize < wordSize by omega), Nat.mod_eq_of_lt hin, andNot_two_pow hin hk] at hp
  obtain ⟨hlow, hhigh⟩ := roundUp_bounds (raw + pointerSize) hpos
  rw [← hp] at hlow hhigh
  have hplow : pointerSize ≤ p := by omega
  have hplt : p < wordSize := by omega
  rw [slot_eq hplow hplt] at hh
  refine ⟨?_, _, raw, t, hraw, hplow, hh, ?_, ?_, ?_, ?_⟩
  · rw [hp]
    exact Nat.dvd_mul_left _ _
  · exact Set.Ico_subset_Ico (by omega) (by omega)
  · exact Set.Ico_subset_Ico (by omega) (by omega)
  · exact Set.Ico_disjoint_Ico_same
  · intro mem hsame kfree
    exact kfreeAligned_run hplow hplt (by omega) hh hsame kfree

end Runs

/-! ## When the total wraps around -/

/-- Every block begins at 16 and has the size asked for. -/
def fixedKmalloc (n _flags : ℕ) : Prog (Heap ℕ) ℕ := fun h =>
  if 16 + n < wordSize then .ok 16 { h with alloc := n } else .panic "kmalloc of large page" h

theorem fixedKmalloc_givesBlocks : GivesBlocks fixedKmalloc fun h _ => h.alloc := by
  intro n flags h raw h' hrun
  unfold fixedKmalloc at hrun
  split at hrun
  · next hlt =>
    obtain ⟨rfl, rfl⟩ := Outcome.ok.inj hrun
    exact ⟨by decide, le_refl n, hlt⟩
  · cases hrun

theorem kmallocAligned_fixed (flags : ℕ) (h : Heap ℕ) {size k n : ℕ} (hk : k < 64)
    (hn : (size + 2 ^ k - 1 + pointerSize) % wordSize = n) (hlt : 16 + n < wordSize) :
    ∃ p h', kmallocAligned fixedKmalloc size (2 ^ k) flags h = .ok p h' ∧ h'.alloc = n ∧ 24 ≤ p := by
  have hpos : 0 < 2 ^ k := Nat.two_pow_pos k
  have hle : 2 ^ k ≤ 2 ^ 63 := Nat.pow_le_pow_right (by decide) (by omega)
  have hpow : ¬(2 ^ k = 0 ∨ 2 ^ k &&& (2 ^ k - 1) ≠ 0) := by
    rw [two_pow_and_pred]
    omega
  have hin : 16 + pointerSize + 2 ^ k - 1 < wordSize := by
    unfold pointerSize wordSize
    omega
  have hrun : fixedKmalloc n flags h = .ok 16 { h with alloc := n } := if_pos hlt
  obtain ⟨p, hp⟩ : ∃ p, (16 + pointerSize + 2 ^ k - 1) / 2 ^ k * 2 ^ k = p := ⟨_, rfl⟩
  refine ⟨p, ⟨storeNat h.mem ((p + wordSize - pointerSize) % wordSize) pointerSize 16, n⟩, ?_, rfl,
    hp ▸ (roundUp_bounds (16 + pointerSize) hpos).1⟩
  unfold kmallocAligned
  rw [if_neg hpow, Prog.bind_run, hn, hrun, Outcome.andThen_ok, if_neg (by decide), Prog.bind_run, Prog.modify_run,
    Outcome.andThen_ok, Nat.mod_eq_of_lt (show 16 + pointerSize < wordSize by decide), Nat.mod_eq_of_lt hin,
    andNot_two_pow hin hk, Prog.pure_run, hp]

theorem not_alignedServed {size k flags : ℕ} (hk : k < 64) (hsize : size < wordSize)
    (htotal : wordSize ≤ size + 2 ^ k + 7) : ¬AlignedServed size (2 ^ k) flags := by
  intro hserved
  have hpos : 0 < 2 ^ k := Nat.two_pow_pos k
  have hle : 2 ^ k ≤ 2 ^ 63 := Nat.pow_le_pow_right (by decide) (by omega)
  have hn : (size + 2 ^ k - 1 + pointerSize) % wordSize = size + 2 ^ k + 7 - wordSize := by
    unfold pointerSize wordSize at *
    omega
  have hword : 2 ^ k + 32 < wordSize := by
    unfold wordSize
    omega
  have hlt : 16 + (size + 2 ^ k + 7 - wordSize) < wordSize := by omega
  obtain ⟨p, h', hrun, halloc, hlow⟩ := kmallocAligned_fixed flags ⟨fun _ => 0, 0⟩ hk hn hlt
  obtain ⟨-, n, raw, t, hraw, -, hh, -, hdata, -, -⟩ := hserved ℕ fixedKmalloc _ fixedKmalloc_givesBlocks _ p h' hrun
  unfold fixedKmalloc at hraw
  split at hraw
  · obtain ⟨rfl, rfl⟩ := Outcome.ok.inj hraw
    rw [hh] at halloc
    -- the last byte of the data would have to be in a block that ends below it
    have hlast : p + size - 1 ∈ Set.Ico p (p + size) := Set.mem_Ico.mpr ⟨by omega, by omega⟩
    have hend := (Set.mem_Ico.mp (hdata hlast)).2
    simp only at halloc hend
    omega
  · cases hraw

/-- **Aligned allocation.** Aligned blocks are given for exactly those requests whose total does not wrap
around. -/
theorem kmalloc_aligned_served_iff (size k flags : ℕ) (hsize : size < wordSize) (hk : k < 64) :
    AlignedServed size (2 ^ k) flags ↔ size + 2 ^ k + 7 < wordSize := by
  constructor
  · intro hserved
    by_contra htotal
    exact not_alignedServed hk hsize (Nat.le_of_not_lt htotal) hserved
  · intro htotal ρ kmalloc len hblocks h p h' hrun
    exact alignedBlock_of_lt hblocks hk htotal hrun

/-- A hundred bytes at a multiple of 64. -/
theorem kmalloc_aligned_served_iff_hundred : GivesBlocks fixedKmalloc (fun h _ => h.alloc) ∧
    ∃ p h', kmallocAligned fixedKmalloc 100 (2 ^ 6) 0 ⟨fun _ => 0, 0⟩ = .ok p h' ∧
      AlignedBlock fixedKmalloc (fun h _ => h.alloc) 100 (2 ^ 6) 0 ⟨fun _ => 0, 0⟩ p h' := by
  refine ⟨fixedKmalloc_givesBlocks, ?_⟩
  have hn : (100 + 2 ^ 6 - 1 + pointerSize) % wordSize = 171 := by decide
  obtain ⟨p, h', hrun, -⟩ := kmallocAligned_fixed 0 ⟨fun _ => 0, 0⟩ (by decide) hn (by decide)
  have hserved := (kmalloc_aligned_served_iff 100 6 0 (by decide) (by decide)).mpr (by decide)
  exact ⟨p, h', hrun, hserved ℕ fixedKmalloc _ fixedKmalloc_givesBlocks _ p h' hrun⟩

/-- With the size eight bytes below `2^64`, seven bytes are asked for. -/
theorem wrapped_total_not_served : ¬AlignedServed (2 ^ 64 - 8) (2 ^ 3) 0 := by
  apply not_alignedServed
  · decide
  · decide
  · decide

end Borgos.Mem
