import Mathlib.Tactic

/-! # Null-terminated chains

`Chained next null p xs`: following `next` from `p` visits `xs` and then reaches `null`. The rules say
what a chain becomes when its head is taken off, when a node is put in front of it, and when links
change elsewhere.
-/
namespace Borgos.Foundations
set_option autoImplicit false

variable {α : Type}

def Chained (next : α → α) (null : α) : α → List α → Prop
  | p, [] => p = null
  | p, x :: xs => p = x ∧ x ≠ null ∧ Chained next null (next x) xs

namespace Chained
variable {next next' : α → α} {null p x : α} {xs : List α}

theorem congr (h : Chained next null p xs) (hsame : ∀ x ∈ xs, next' x = next x) : Chained next' null p xs := by
  induction xs generalizing p with
  | nil => exact h
  | cons x xs ih =>
    obtain ⟨hp, hx, ht⟩ := h
    refine ⟨hp, hx, ?_⟩
    rw [hsame x List.mem_cons_self]
    exact ih ht fun y hy => hsame y (List.mem_cons_of_mem x hy)

theorem eq_cons (h : Chained next null p xs) (hp : p ≠ null) : ∃ tl, xs = p :: tl ∧ Chained next null (next p) tl := by
  cases xs with
  | nil => exact absurd h hp
  | cons x xs =>
    obtain ⟨rfl, -, ht⟩ := h
    exact ⟨xs, rfl, ht⟩

theorem head_ne_null (h : Chained next null p (xs ++ [x])) : p ≠ null := by
  cases xs with
  | nil =>
    rw [h.1]
    exact h.2.1
  | cons y ys =>
    rw [h.1]
    exact h.2.1

theorem push (h : Chained next null p xs) (hx : x ≠ null) (hout : x ∉ xs) (hnew : next' x = p)
    (hsame : ∀ y ∈ xs, y ≠ x → next' y = next y) : Chained next' null x (x :: xs) := by
  refine ⟨rfl, hx, ?_⟩
  rw [hnew]
  exact h.congr fun y hy => hsame y hy fun e => hout (e ▸ hy)

/-- What follows a node of a chain is a chain. -/
theorem after {ys : List α} (h : Chained next null p (xs ++ x :: ys)) : Chained next null (next x) ys := by
  induction xs generalizing p with
  | nil => exact h.2.2
  | cons z zs ih => exact ih h.2.2

/-- The last node of a chain is linked to a new one. -/
theorem concat {y : α} (h : Chained next null p (xs ++ [y])) (hx : x ≠ null) (hlink : next' y = x)
    (hend : next' x = null) (hsame : ∀ z ∈ xs, next' z = next z) : Chained next' null p (xs ++ [y, x]) := by
  induction xs generalizing p with
  | nil =>
    obtain ⟨hp, hy, -⟩ := h
    exact ⟨hp, hy, hlink, hx, hend⟩
  | cons z zs ih =>
    obtain ⟨hp, hz, ht⟩ := h
    refine ⟨hp, hz, ?_⟩
    rw [hsame z List.mem_cons_self]
    exact ih ht fun w hw => hsame w (List.mem_cons_of_mem z hw)

/-- The node before `x` takes over the link of `x`. -/
theorem unlink {y : α} {ys : List α} (h : Chained next null p (xs ++ y :: x :: ys)) (hlink : next' y = next x)
    (hsame : ∀ z ∈ xs ++ ys, next' z = next z) : Chained next' null p (xs ++ y :: ys) := by
  induction xs generalizing p with
  | nil =>
    obtain ⟨hp, hy, hyx, -, ht⟩ := h
    refine ⟨hp, hy, ?_⟩
    rw [hlink]
    exact ht.congr hsame
  | cons z zs ih =>
    obtain ⟨hp, hz, ht⟩ := h
    refine ⟨hp, hz, ?_⟩
    rw [hsame z List.mem_cons_self]
    exact ih ht fun w hw => hsame w (List.mem_cons_of_mem z hw)

end Chained
end Borgos.Foundations
