import Mathlib.Tactic

/-! # Flat memories

A memory is a function from addresses to cells. Ranges are read as lists, so that "the same bytes" is an equality
of lists; the frame rules say which reads a write leaves alone.
-/
namespace Borgos.Foundations.FlatMemory
set_option autoImplicit false

variable {β : Type} {m m' : ℕ → β} {a b n k : ℕ} {xs : List β}

/-- The `n` cells from `a` on. -/
def load (m : ℕ → β) (a n : ℕ) : List β := (List.range n).map fun i => m (a + i)

/-- The cells `xs` are written from `a` on. -/
def store (m : ℕ → β) (a : ℕ) (xs : List β) : ℕ → β := fun i =>
  if a ≤ i then xs[i - a]?.getD (m i) else m i

@[simp] theorem length_load : (load m a n).length = n := by
  rw [load, List.length_map, List.length_range]

@[simp] theorem getElem_load {i : ℕ} (h : i < (load m a n).length) : (load m a n)[i] = m (a + i) := by
  simp [load]

theorem load_eq_load : load m a n = load m' b n ↔ ∀ i < n, m (a + i) = m' (b + i) := by
  unfold load
  constructor
  · intro h i hi
    exact List.map_inj_left.mp h i (List.mem_range.mpr hi)
  · intro h
    exact List.map_congr_left fun i hi => h i (List.mem_range.mp hi)

theorem load_add : load m a (n + k) = load m a n ++ load m (a + n) k := by
  unfold load
  rw [List.range_add, List.map_append, List.map_map]
  refine congrArg _ (List.map_congr_left fun i _ => ?_)
  rw [Function.comp_apply, Nat.add_assoc]

/-- A range of a range. -/
theorem load_drop_take {i j : ℕ} (h : i + j ≤ n) : ((load m a n).drop i).take j = load m (a + i) j := by
  obtain ⟨r, rfl⟩ := Nat.exists_eq_add_of_le h
  rw [load_add, load_add, List.append_assoc, List.drop_append_of_le_length (by rw [length_load]),
    List.drop_of_length_le (by rw [length_load]), List.nil_append,
    List.take_append_of_le_length (by rw [length_load]), List.take_of_length_le (by rw [length_load])]

theorem store_at {i : ℕ} (h : i < xs.length) : store m a xs (a + i) = xs[i] := by
  unfold store
  rw [if_pos (Nat.le_add_right a i), Nat.add_sub_cancel_left, List.getElem?_eq_getElem h, Option.getD_some]

theorem store_outside {i : ℕ} (h : i < a ∨ a + xs.length ≤ i) : store m a xs i = m i := by
  unfold store
  split
  · rw [List.getElem?_eq_none (by omega), Option.getD_none]
  · rfl

@[simp] theorem store_nil : store m a [] = m := by
  funext i
  simp [store]

/-- The first cell is written, and then the others. -/
theorem store_cons (x : β) (xs : List β) : store m a (x :: xs) = store (Function.update m a x) (a + 1) xs := by
  funext i
  by_cases hlt : i < a
  · rw [store_outside (.inl hlt), store_outside (.inl (Nat.lt_succ_of_lt hlt)),
      Function.update_of_ne (Nat.ne_of_lt hlt)]
  · obtain ⟨k, rfl⟩ := Nat.exists_eq_add_of_le (Nat.le_of_not_lt hlt)
    cases k with
    | zero => simp [store]
    | succ k =>
      have hsub : a + (k + 1) - (a + 1) = k := by omega
      simp [store, hsub]

theorem store_append (xs ys : List β) : store m a (xs ++ ys) = store (store m a xs) (a + xs.length) ys := by
  induction xs generalizing m a with
  | nil => simp
  | cons x xs ih =>
      rw [List.cons_append, store_cons, ih, store_cons, List.length_cons, Nat.add_right_comm, Nat.add_assoc]

@[simp] theorem load_store_self : load (store m a xs) a xs.length = xs := by
  refine List.ext_getElem length_load fun i h₁ h₂ => ?_
  rw [getElem_load, store_at h₂]

theorem load_store_of_disjoint (h : b + n ≤ a ∨ a + xs.length ≤ b) : load (store m a xs) b n = load m b n := by
  refine load_eq_load.mpr fun i hi => store_outside ?_
  rcases h with h | h
  · exact .inl (by omega)
  · exact .inr (by omega)

/-- Equal ranges have equal parts. -/
theorem load_part (h : load m a n = load m' b n) {i j : ℕ} (hij : i + j ≤ n) :
    load m (a + i) j = load m' (b + i) j := by
  rw [← load_drop_take hij, h, load_drop_take hij]

/-! ## Moving a range -/

/-- The `n` cells from `src` on are moved to `dst`, with overlaps allowed. -/
def move (m : ℕ → β) (dst src n : ℕ) : ℕ → β := fun i =>
  if dst ≤ i ∧ i < dst + n then m (src + (i - dst)) else m i

variable {dst src : ℕ}

theorem move_inside {i : ℕ} (hi : i < n) : move m dst src n (dst + i) = m (src + i) := by
  unfold move
  rw [if_pos ⟨Nat.le_add_right _ _, Nat.add_lt_add_left hi _⟩, Nat.add_sub_cancel_left]

theorem move_outside {i : ℕ} (h : i < dst ∨ dst + n ≤ i) : move m dst src n i = m i := by
  unfold move
  rw [if_neg (by omega)]

@[simp] theorem load_move_self : load (move m dst src n) dst n = load m src n :=
  load_eq_load.mpr fun _ hi => move_inside hi

end Borgos.Foundations.FlatMemory
