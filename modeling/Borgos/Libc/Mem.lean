import Borgos.Foundations.FlatMemory

/-! # `mem.c`: `memset` and `memcpy`

`memcpy` copies backwards when the destination starts inside the source, and forwards otherwise, so that it moves a
range whatever the overlap.
-/
namespace Borgos.Libc
open Borgos.Foundations FlatMemory
set_option autoImplicit false

variable {β : Type}

/-- `*temp++ = c`, `n` times. -/
def memset (m : ℕ → β) (temp : ℕ) (c : β) : ℕ → ℕ → β
  | 0 => m
  | n + 1 => memset (Function.update m temp c) (temp + 1) c n

/-- `*d++ = *s++`, `n` times. -/
def copyForward (m : ℕ → β) (d s : ℕ) : ℕ → ℕ → β
  | 0 => m
  | n + 1 => copyForward (Function.update m d (m s)) (d + 1) (s + 1) n

/-- `*--d = *--s`, `n` times. -/
def copyBackward (m : ℕ → β) (d s : ℕ) : ℕ → ℕ → β
  | 0 => m
  | n + 1 => copyBackward (Function.update m (d - 1) (m (s - 1))) (d - 1) (s - 1) n

def memcpy (m : ℕ → β) (dst src n : ℕ) : ℕ → β :=
  if src < dst ∧ src + n > dst then copyBackward m (dst + n) (src + n) n else copyForward m dst src n

theorem memset_apply (c : β) (n : ℕ) :
    ∀ (m : ℕ → β) (d i : ℕ), memset m d c n i = if d ≤ i ∧ i < d + n then c else m i := by
  induction n with
  | zero =>
    intro m d i
    rw [if_neg (by omega)]
    rfl
  | succ n ih =>
    intro m d i
    rw [memset, ih]
    by_cases hi : i = d
    · subst hi
      rw [if_neg (by omega), if_pos (by omega), Function.update_self]
    · rw [Function.update_of_ne hi]
      split_ifs <;> first | rfl | omega

theorem copyForward_eq (m : ℕ → β) (d s n : ℕ) (h : d ≤ s ∨ s + n ≤ d) : copyForward m d s n = move m d s n := by
  induction n generalizing m d s with
  | zero =>
    funext i
    rw [move_outside (by omega)]
    rfl
  | succ n ih =>
    rw [copyForward, ih _ _ _ (by omega)]
    funext i
    rcases Nat.lt_trichotomy i d with hlt | rfl | hgt
    · rw [move_outside (by omega), move_outside (by omega), Function.update_of_ne (by omega)]
    · rw [move_outside (by omega), Function.update_self]
      exact (move_inside (i := 0) (Nat.succ_pos n)).symm
    · obtain ⟨j, rfl⟩ : ∃ j, i = d + 1 + j := ⟨i - (d + 1), by omega⟩
      rcases Nat.lt_or_ge j n with hj | hj
      · rw [move_inside hj, Function.update_of_ne (by omega), Nat.add_assoc d 1 j, move_inside (by omega),
          Nat.add_assoc s 1 j]
      · rw [move_outside (by omega), move_outside (by omega), Function.update_of_ne (by omega)]

theorem copyBackward_eq (m : ℕ → β) (d s n : ℕ) (h : s ≤ d) : copyBackward m (d + n) (s + n) n = move m d s n := by
  induction n generalizing m with
  | zero =>
    funext i
    rw [move_outside (by omega)]
    rfl
  | succ n ih =>
    rw [copyBackward, show d + (n + 1) - 1 = d + n from rfl, show s + (n + 1) - 1 = s + n from rfl, ih]
    funext i
    rcases Nat.lt_or_ge i d with hlt | hge
    · rw [move_outside (by omega), move_outside (by omega), Function.update_of_ne (by omega)]
    · obtain ⟨j, rfl⟩ := Nat.exists_eq_add_of_le hge
      rcases Nat.lt_trichotomy j n with hj | rfl | hj
      · rw [move_inside hj, move_inside (by omega), Function.update_of_ne (by omega)]
      · rw [move_outside (by omega), Function.update_self, move_inside (Nat.lt_succ_self j)]
      · rw [move_outside (by omega), move_outside (by omega), Function.update_of_ne (by omega)]

theorem memcpy_eq_move (m : ℕ → β) (dst src n : ℕ) : memcpy m dst src n = move m dst src n := by
  unfold memcpy
  split_ifs with h
  · exact copyBackward_eq m dst src n (Nat.le_of_lt h.1)
  · exact copyForward_eq m dst src n (by omega)

end Borgos.Libc
