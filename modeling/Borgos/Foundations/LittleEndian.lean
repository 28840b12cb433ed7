import Borgos.Foundations.FlatMemory

/-! # Numbers in a byte memory

A number of `n` bytes is kept with its least significant byte first.
-/
namespace Borgos.Foundations.FlatMemory
set_option autoImplicit false

variable {m m' : ℕ → ℕ} {a n : ℕ}

/-- The `n` bytes of `v`. -/
def bytesOf (n v : ℕ) : List ℕ := (List.range n).map fun i => v / 256 ^ i % 256

def loadNat (m : ℕ → ℕ) (a n : ℕ) : ℕ := Nat.ofDigits 256 (load m a n)

def storeNat (m : ℕ → ℕ) (a n v : ℕ) : ℕ → ℕ := store m a (bytesOf n v)

@[simp] theorem length_bytesOf (n v : ℕ) : (bytesOf n v).length = n := by simp [bytesOf]

theorem ofDigits_bytesOf (n v : ℕ) : Nat.ofDigits 256 (bytesOf n v) = v % 256 ^ n := by
  induction n with
  | zero => simp [bytesOf, Nat.mod_one]
  | succ n ih =>
    have hlast : bytesOf (n + 1) v = bytesOf n v ++ [v / 256 ^ n % 256] := by
      simp [bytesOf, List.range_succ]
    rw [hlast, Nat.ofDigits_append, ih, length_bytesOf, Nat.ofDigits_singleton, Nat.mod_pow_succ]

/-- What was stored is read back, whatever has changed elsewhere since. -/
theorem loadNat_storeNat {v : ℕ} (hsame : ∀ i < n, m' (a + i) = storeNat m a n v (a + i)) (hv : v < 256 ^ n) :
    loadNat m' a n = v := by
  have hload : load m' a n = load (store m a (bytesOf n v)) a (bytesOf n v).length := by
    rw [length_bytesOf]
    exact load_eq_load.mpr hsame
  unfold loadNat
  rw [hload, load_store_self, ofDigits_bytesOf]
  exact Nat.mod_eq_of_lt hv

theorem loadNat_congr {b : ℕ} (h : ∀ i < n, m (a + i) = m' (b + i)) : loadNat m a n = loadNat m' b n := by
  unfold loadNat
  rw [load_eq_load.mpr h]

theorem storeNat_outside {v p : ℕ} (h : p < a ∨ a + n ≤ p) : storeNat m a n v p = m p :=
  store_outside (by rwa [length_bytesOf])

@[simp] theorem loadNat_storeNat_self (m : ℕ → ℕ) (a : ℕ) {v : ℕ} (hv : v < 256 ^ n) :
    loadNat (storeNat m a n v) a n = v :=
  loadNat_storeNat (fun _ _ => rfl) hv

theorem loadNat_storeNat_other {b k v : ℕ} (h : a + n ≤ b ∨ b + k ≤ a) :
    loadNat (storeNat m b k v) a n = loadNat m a n :=
  loadNat_congr fun i hi => storeNat_outside (by omega)

theorem loadNat_clear (h : ∀ i < n, m (a + i) = 0) : loadNat m a n = 0 := by
  have hload : load m a n = List.replicate n 0 := by
    refine List.ext_getElem (by simp) ?_
    intro i hi _
    rw [length_load] at hi
    rw [getElem_load, List.getElem_replicate, h i hi]
  unfold loadNat
  rw [hload, Nat.ofDigits_replicate_zero]

end Borgos.Foundations.FlatMemory
