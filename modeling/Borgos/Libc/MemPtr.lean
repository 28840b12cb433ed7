import Borgos.Libc.Mem

/-! # `mem.c`: `memcpy` with 64-bit pointers

Pointers wrap around. On ranges that do not, the loops are those of the flat memory.
-/
namespace Borgos.Libc
open Borgos.Foundations FlatMemory
set_option autoImplicit false

abbrev Ptr := BitVec 64

section Pointers
variable {β : Type}

def copyForwardPtr (m : Ptr → β) (d s : Ptr) : ℕ → Ptr → β
  | 0 => m
  | n + 1 => copyForwardPtr (Function.update m d (m s)) (d + 1) (s + 1) n

def copyBackwardPtr (m : Ptr → β) (d s : Ptr) : ℕ → Ptr → β
  | 0 => m
  | n + 1 => copyBackwardPtr (Function.update m (d - 1) (m (s - 1))) (d - 1) (s - 1) n

/-- The memory after `memcpy(dst, src, n)`. -/
def memcpyPtr (m : Ptr → β) (dst src n : Ptr) : Ptr → β :=
  if src < dst ∧ src + n > dst then copyBackwardPtr m (dst + n) (src + n) n.toNat else copyForwardPtr m dst src n.toNat

/-! ## The flat memory -/

variable {mp : Ptr → β} {mf : ℕ → β}

/-- The memory at numbered addresses. -/
def flat (m : Ptr → β) : ℕ → β := fun k => m (BitVec.ofNat 64 k)

theorem flat_toNat (m : Ptr → β) (a : Ptr) : flat m a.toNat = m a := by
  simp [flat]

theorem toNat_ptr {a : ℕ} (h : a < 2 ^ 64) : (BitVec.ofNat 64 a).toNat = a := by
  rw [BitVec.toNat_ofNat]
  exact Nat.mod_eq_of_lt h

/-- One byte is copied. -/
theorem agree_update (h : ∀ a : Ptr, mp a = mf a.toNat) {d s : ℕ} (hd : d < 2 ^ 64) (hs : s < 2 ^ 64) (a : Ptr) :
    Function.update mp (BitVec.ofNat 64 d) (mp (BitVec.ofNat 64 s)) a = Function.update mf d (mf s) a.toNat := by
  by_cases ha : a = BitVec.ofNat 64 d
  · subst ha
    rw [Function.update_self, toNat_ptr hd, Function.update_self, h, toNat_ptr hs]
  · have hne : a.toNat ≠ d := by
      intro hc
      apply ha
      rw [← hc, BitVec.ofNat_toNat, BitVec.setWidth_eq]
    rw [Function.update_of_ne ha, Function.update_of_ne hne, h]

theorem ofNat_succ (a : ℕ) : BitVec.ofNat 64 a + 1 = BitVec.ofNat 64 (a + 1) := (BitVec.ofNat_add a 1).symm

theorem ofNat_pred (a : ℕ) : BitVec.ofNat 64 (a + 1) - 1 = BitVec.ofNat 64 a := by
  rw [← ofNat_succ]
  exact BitVec.add_sub_cancel _ _

theorem copyForwardPtr_eq (n : ℕ) : ∀ {mp : Ptr → β} {mf : ℕ → β} (_ : ∀ a : Ptr, mp a = mf a.toNat) {d s : ℕ},
    d + n ≤ 2 ^ 64 → s + n ≤ 2 ^ 64 → ∀ a : Ptr,
    copyForwardPtr mp (BitVec.ofNat 64 d) (BitVec.ofNat 64 s) n a = copyForward mf d s n a.toNat := by
  induction n with
  | zero =>
    intro mp mf h d s _ _ a
    exact h a
  | succ n ih =>
    intro mp mf h d s hd hs a
    rw [copyForwardPtr, copyForward, ofNat_succ, ofNat_succ]
    exact ih (agree_update h (by omega) (by omega)) (by omega) (by omega) a

theorem copyBackwardPtr_eq (n : ℕ) : ∀ {mp : Ptr → β} {mf : ℕ → β} (_ : ∀ a : Ptr, mp a = mf a.toNat) {d s : ℕ},
    d + n ≤ 2 ^ 64 → s + n ≤ 2 ^ 64 → ∀ a : Ptr,
    copyBackwardPtr mp (BitVec.ofNat 64 (d + n)) (BitVec.ofNat 64 (s + n)) n a =
      copyBackward mf (d + n) (s + n) n a.toNat := by
  induction n with
  | zero =>
    intro mp mf h d s _ _ a
    exact h a
  | succ n ih =>
    intro mp mf h d s hd hs a
    rw [copyBackwardPtr, copyBackward, ← Nat.add_assoc, ← Nat.add_assoc, ofNat_pred, ofNat_pred]
    exact ih (agree_update h (by omega) (by omega)) (by omega) (by omega) a

theorem toNat_add_of_le {a n : Ptr} (h : a.toNat + n.toNat < 2 ^ 64) : (a + n).toNat = a.toNat + n.toNat := by
  rw [BitVec.toNat_add]
  exact Nat.mod_eq_of_lt h

/-- A source that ends at the top of the address space is not overlapped from below, so that the comparison with its
wrapped end takes the right direction there too. -/
theorem backward_iff {dst src n : Ptr} (hsrc : src.toNat + n.toNat ≤ 2 ^ 64) (hdst : dst.toNat + n.toNat ≤ 2 ^ 64) :
    (src < dst ∧ src + n > dst) ↔ (src.toNat < dst.toNat ∧ src.toNat + n.toNat > dst.toNat) := by
  rcases Nat.lt_or_eq_of_le hsrc with hlt | heq
  · rw [gt_iff_lt, BitVec.lt_def, BitVec.lt_def, toNat_add_of_le hlt]
  · have hzero : src + n = 0 := by
      apply BitVec.eq_of_toNat_eq
      rw [BitVec.toNat_add, heq]
      rfl
    constructor
    · rintro ⟨-, hgt⟩
      rw [hzero] at hgt
      exact absurd hgt (BitVec.not_lt_zero)
    · rintro ⟨hlt, hgt⟩
      omega

theorem memcpyPtr_eq (m : Ptr → β) {dst src n : Ptr} (hsrc : src.toNat + n.toNat ≤ 2 ^ 64)
    (hdst : dst.toNat + n.toNat ≤ 2 ^ 64) (a : Ptr) :
    memcpyPtr m dst src n a = move (flat m) dst.toNat src.toNat n.toNat a.toNat := by
  have h : ∀ a : Ptr, m a = flat m a.toNat := fun a => (flat_toNat m a).symm
  have hd : BitVec.ofNat 64 dst.toNat = dst := by rw [BitVec.ofNat_toNat, BitVec.setWidth_eq]
  have hs : BitVec.ofNat 64 src.toNat = src := by rw [BitVec.ofNat_toNat, BitVec.setWidth_eq]
  have hn : BitVec.ofNat 64 n.toNat = n := by rw [BitVec.ofNat_toNat, BitVec.setWidth_eq]
  rw [← memcpy_eq_move]
  unfold memcpyPtr memcpy
  by_cases hback : src.toNat < dst.toNat ∧ src.toNat + n.toNat > dst.toNat
  · rw [if_pos ((backward_iff hsrc hdst).mpr hback), if_pos hback]
    have hcopy := copyBackwardPtr_eq n.toNat h hdst hsrc a
    rwa [BitVec.ofNat_add, BitVec.ofNat_add, hd, hs, hn] at hcopy
  · rw [if_neg (fun hc => hback ((backward_iff hsrc hdst).mp hc)), if_neg hback]
    have hcopy := copyForwardPtr_eq n.toNat h hdst hsrc a
    rwa [hd, hs] at hcopy

/-- **`memcpy` for any overlap.** Ranges that do not wrap around: the destination has what the source had, and nothing
else has changed. -/
theorem memcpy_any_overlap (m : Ptr → β) (dst src n : Ptr) (hsrc : src.toNat + n.toNat ≤ 2 ^ 64)
    (hdst : dst.toNat + n.toNat ≤ 2 ^ 64) :
    (∀ i : Ptr, i < n → memcpyPtr m dst src n (dst + i) = m (src + i)) ∧
    ∀ a : Ptr, a < dst ∨ dst.toNat + n.toNat ≤ a.toNat → memcpyPtr m dst src n a = m a := by
  constructor
  · intro i hi
    have hi' : i.toNat < n.toNat := hi
    have hdi : (dst + i).toNat = dst.toNat + i.toNat := toNat_add_of_le (by omega)
    have hsi : (src + i).toNat = src.toNat + i.toNat := toNat_add_of_le (by omega)
    rw [memcpyPtr_eq m hsrc hdst, hdi, move_inside hi', ← hsi, flat_toNat]
  · intro a ha
    have hout : a.toNat < dst.toNat ∨ dst.toNat + n.toNat ≤ a.toNat := ha
    rw [memcpyPtr_eq m hsrc hdst, move_outside hout, flat_toNat]

end Pointers

/-- Within a screen, to a lower address. -/
theorem memcpy_any_overlap_scroll :
    memcpyPtr (fun a => a.setWidth 8) (0x1000 : Ptr) 0x1100 0x2000 (0x1000 + 0xfff) = (0xff : BitVec 8) :=
  (memcpy_any_overlap (fun a => a.setWidth 8) 0x1000 0x1100 0x2000 (by decide) (by decide)).1 0xfff (by decide)

end Borgos.Libc
