import Mathlib

/-! # `mm.h`, `mconfig.h`: page arithmetic and configuration

Addresses and `size_t` values are natural numbers below `2^64`; every operation that can leave the
range is reduced explicitly. `PFN_OFFSET` and `PFN_MIN` are 0 on this platform and stay 0.
-/
namespace Borgos.Mem
set_option autoImplicit false

def wordSize : ℕ := 2 ^ 64

def pageshift : ℕ := 12

def pagesize : ℕ := 4096

/-- `KERNEL_UPPER_HALF_OFFSET`. -/
def kernelUpperHalfOffset : ℕ := 0xFFFF800000000000

/-- `P2V`. -/
def p2v (p : ℕ) : ℕ := (p + kernelUpperHalfOffset) % wordSize

/-- `V2P`. -/
def v2p (v : ℕ) : ℕ := (v + (wordSize - kernelUpperHalfOffset)) % wordSize

def pagealignUp (base : ℕ) : ℕ := (base + pagesize - 1) % wordSize / pagesize * pagesize

def pagealignDown (base : ℕ) : ℕ := base / pagesize * pagesize

/-- `PHYS2PFN`. -/
def phys2pfn (v : ℕ) : ℕ := v / pagesize

/-- `PFN2PHYS` of a non-negative frame number. -/
def pfn2phys (p : ℕ) : ℕ := p * pagesize % wordSize

/-- `PFN2VIRT`, `PAGE2VIRT`. -/
def pfn2virt (p : ℕ) : ℕ := p2v (pfn2phys p)

/-- The value an `int` gets from a wider unsigned value. -/
def toInt (n : ℕ) : ℤ := if n % 2 ^ 32 < 2 ^ 31 then (n % 2 ^ 32 : ℕ) else (n % 2 ^ 32 : ℕ) - 2 ^ 32

/-- The value a `size_t` gets from an `int`. -/
def toSize (i : ℤ) : ℕ := (i % 2 ^ 64).toNat

/-- `ALLOCBUDDY_MAXORDER`. -/
def allocbuddyMaxorder : ℕ := 6

/-- `MAXBOOTPGD_PFN`: the last frame boot.S maps. -/
def maxbootpgdPfn : ℕ := 1048575

/-- `MAXPGD_PFN`. -/
def maxpgdPfn : ℕ := 1048575

def gfpDma16 : ℕ := 0x01

def gfpDma32 : ℕ := 0x02

/-- The largest request that `get_order` finds a class for: the blocks of the last class have 4064 bytes, 16 of them for
the header. -/
def maxKmalloc : ℕ := 4048

/-- What a call of `kmalloc` ends in. -/
inductive KmallocResult where
  | block
  | null
  | panic
deriving DecidableEq

/-- How `kmalloc` serves requests of each size. There is no class for the larger ones. -/
structure KmallocService where
  result : ℕ → KmallocResult
  large : ∀ n, maxKmalloc < n → n + 16 < 2 ^ 32 → result n = .panic

/-- A served request was not too large. -/
theorem KmallocService.le_of_served (memory : KmallocService) {n : ℕ} (hn : n + 16 < 2 ^ 32)
    (h : memory.result n ≠ .panic) : n ≤ maxKmalloc := by
  by_contra hlarge
  exact h (memory.large n (Nat.lt_of_not_le hlarge) hn)

/-- A memory that serves every request it has a class for. -/
def KmallocService.ample : KmallocService where
  result n := if n ≤ maxKmalloc then .block else .panic
  large _ hlarge _ := if_neg (Nat.not_le.mpr hlarge)

theorem toInt_of_lt {n : ℕ} (h : n < 2 ^ 31) : toInt n = n := by
  unfold toInt
  rw [Nat.mod_eq_of_lt (by omega), if_pos h]

theorem toSize_ofNat {n : ℕ} (h : n < 2 ^ 64) : toSize (n : ℤ) = n := by
  unfold toSize
  omega

theorem v2p_p2v {p : ℕ} (h : p < 2 ^ 64) : v2p (p2v p) = p := by
  unfold v2p p2v wordSize kernelUpperHalfOffset
  omega

theorem p2v_v2p {v : ℕ} (h : v < 2 ^ 64) : p2v (v2p v) = v := by
  unfold v2p p2v wordSize kernelUpperHalfOffset
  omega

/-- The direct map keeps distances. -/
theorem p2v_add {p k : ℕ} (h : p + k < 2 ^ 47) : p2v (p + k) = p2v p + k := by
  unfold p2v wordSize kernelUpperHalfOffset
  omega

theorem v2p_p2v_add {p k : ℕ} (h : p + k < 2 ^ 47) : v2p (p2v p + k) = p + k := by
  rw [← p2v_add h, v2p_p2v (by omega)]

end Borgos.Mem
