import Borgos.Foundations.FlatMemory

/-! # Stores that are longer than their place

`ChangesOnly m m' a n` says that the cells outside of the `n` cells from `a` on are the same. A store of more than `n`
cells has this only where the cells behind already hold what it stores there. In a row of such stores, in ascending
order, each is repaired by the next one.
-/
namespace Borgos.Foundations.FlatMemory
set_option autoImplicit false

variable {β : Type} {m m' : ℕ → β} {a n : ℕ} {xs : List β}

def ChangesOnly (m m' : ℕ → β) (a n : ℕ) : Prop := ∀ p, p < a ∨ a + n ≤ p → m' p = m p

/-- Exactly where the store spills nothing new. -/
theorem changesOnly_store_iff (h : n ≤ xs.length) :
    ChangesOnly m (store m a xs) a n ↔ load m (a + n) (xs.length - n) = xs.drop n := by
  constructor
  · intro hsame
    refine List.ext_getElem (by simp) ?_
    intro i hi hi'
    rw [length_load] at hi
    have hin : n + i < xs.length := by omega
    have hcell := hsame (a + (n + i)) (.inr (by omega))
    rw [store_at hin] at hcell
    rw [getElem_load, Nat.add_assoc, ← hcell, List.getElem_drop]
  · intro hload p hp
    by_cases hin : a + n ≤ p ∧ p < a + xs.length
    · obtain ⟨i, rfl⟩ := Nat.exists_eq_add_of_le hin.1
      have hi : i < (load m (a + n) (xs.length - n)).length := by
        rw [length_load]
        omega
      have hcell : m (a + n + i) = (load m (a + n) (xs.length - n))[i] := (getElem_load hi).symm
      rw [hcell, Nat.add_assoc, store_at (by omega), List.getElem_of_eq hload, List.getElem_drop]
    · exact store_outside (by omega)

/-- A part of what has been stored. -/
theorem load_store_part {i j : ℕ} (h : i + j ≤ xs.length) : load (store m a xs) (a + i) j = (xs.drop i).take j := by
  rw [← load_drop_take h, load_store_self]

/-- The last of two stores in one place. -/
theorem store_store {ys : List β} (h : xs.length = ys.length) : store (store m a xs) a ys = store m a ys := by
  funext p
  by_cases hin : a ≤ p ∧ p < a + ys.length
  · obtain ⟨i, rfl⟩ := Nat.exists_eq_add_of_le hin.1
    rw [store_at (by omega), store_at (by omega)]
  · rw [store_outside (by omega), store_outside (by omega), store_outside (by omega)]

theorem store_comm {b : ℕ} {ys : List β} (h : a + xs.length ≤ b) :
    store (store m b ys) a xs = store (store m a xs) b ys := by
  funext p
  by_cases hin : a ≤ p ∧ p < a + xs.length
  · obtain ⟨i, rfl⟩ := Nat.exists_eq_add_of_le hin.1
    rw [store_at (by omega), store_outside (by omega), store_at (by omega)]
  · rw [store_outside (by omega)]
    by_cases hin' : b ≤ p ∧ p < b + ys.length
    · obtain ⟨i, rfl⟩ := Nat.exists_eq_add_of_le hin'.1
      rw [store_at (by omega), store_at (by omega)]
    · rw [store_outside (by omega), store_outside (by omega), store_outside (by omega)]

/-- A store inside of another one. -/
theorem store_inside (before after : List β) {old new : List β} (h : old.length = new.length) :
    store (store m a (before ++ old ++ after)) (a + before.length) new = store m a (before ++ new ++ after) := by
  rw [store_append, store_append, store_append, store_append, store_comm (by simp [h]; omega), store_store h,
    List.length_append, List.length_append, h]

/-- The same cells from `a` on, `n` times, one after the other by `stride`. -/
def storeRow (m : ℕ → β) (a stride : ℕ) (xs : List β) : ℕ → ℕ → β
  | 0 => m
  | n + 1 => store (storeRow m a stride xs n) (a + n * stride) xs

variable {stride : ℕ}

theorem storeRow_behind {p : ℕ} (h : p < a ∨ a + n * stride + xs.length ≤ p + stride) :
    storeRow m a stride xs n p = m p := by
  induction n with
  | zero => rfl
  | succ n ih =>
    rw [Nat.add_mul, Nat.one_mul] at h
    rw [storeRow, store_outside (by omega), ih (by omega)]

/-- Each is whole in its place: what is stored behind it begins there. -/
theorem load_storeRow (h : stride ≤ xs.length) {i : ℕ} (hi : i < n) :
    load (storeRow m a stride xs n) (a + i * stride) stride = xs.take stride := by
  induction n with
  | zero => exact absurd hi (Nat.not_lt_zero i)
  | succ n ih =>
    rw [storeRow]
    rcases Nat.lt_succ_iff_lt_or_eq.mp hi with hlt | rfl
    · have hplace : (i + 1) * stride ≤ n * stride := Nat.mul_le_mul_right stride hlt
      rw [Nat.add_mul, Nat.one_mul] at hplace
      rw [load_store_of_disjoint (.inl (by omega)), ih hlt]
    · exact load_store_part (i := 0) (by omega)

end Borgos.Foundations.FlatMemory
