import Borgos.Foundations.RingSystem

/-! # `list.h`: the kernel's intrusive lists

The functions of `include/list.h` over any type of nodes. A node's address stands for the address of
its embedded `struct list_head`; `list_entry` is the passage from a node back to the structure it is
embedded in, so it has no counterpart here.
-/
namespace Borgos.Kcore
open Borgos.Foundations
set_option autoImplicit false

variable {α : Type} [DecidableEq α]

/-- `INIT_LIST_HEAD`. -/
def initListHead (h : Links α) (list : α) : Links α :=
  Function.update h list ⟨some list, some list⟩

/-- `list_empty`. -/
def listEmpty (h : Links α) (head : α) : Bool := (h head).next = some head

/-- `list_add`: right after the head. -/
def listAdd (h : Links α) (newe head : α) : Links α :=
  Intrusive.insertBetween h newe (some head) (h head).next

/-- `list_add_tail`: right before the head. -/
def listAddTail (h : Links α) (newe head : α) : Links α :=
  Intrusive.insertBetween h newe (h head).prev (some head)

/-- `list_del`. -/
def listDel (h : Links α) (entry : α) : Links α := Intrusive.detach h entry

/-- `list_for_each` with a test that leaves the loop; `none` when the walk never gets back to the
head. -/
def listForEachFind (h : Links α) (head : α) (test : α → Bool) (fuel : ℕ) : Option (Option α) :=
  Intrusive.find h head test fuel (h head).next

/-- The entries a whole `list_for_each` visits, in order. -/
def listEntries (h : Links α) (head : α) : ℕ → Option α → List α
  | 0, _ => []
  | _ + 1, none => []
  | fuel + 1, some pos => if pos = head then [] else pos :: listEntries h head fuel (h pos).next

theorem listEntries_chain (h : Links α) (head : α) : ∀ (xs : List α) (a : α) (fuel : ℕ),
    List.IsChain (Intrusive.Linked h) (a :: (xs ++ [head])) → head ∉ xs → xs.length < fuel →
    listEntries h head fuel (h a).next = xs
  | [], a, fuel + 1, hc, _, _ => by
    have hn : (h a).next = some head := (List.isChain_cons_cons.mp hc).1.1
    simp [listEntries, hn]
  | x :: xs, a, fuel + 1, hc, hh, hf => by
    have hc' := List.isChain_cons_cons.mp hc
    have hx : x ≠ head := by
      intro e
      subst e
      exact hh List.mem_cons_self
    rw [hc'.1.1]
    simp only [listEntries, hx, if_false]
    rw [listEntries_chain h head xs x fuel hc'.2 (fun hm => hh (List.mem_cons_of_mem x hm))
      (by simp only [List.length_cons] at hf; omega)]

theorem listEntries_ring {h : Links α} {head : α} {xs : List α} (hring : Intrusive.IsRing h head xs)
    (fuel : ℕ) (hf : xs.length < fuel) : listEntries h head fuel (h head).next = xs :=
  listEntries_chain h head xs head fuel hring.1 (List.nodup_cons.mp hring.2).1 hf

/-- The links determine the list. -/
theorem isRing_unique {h : Links α} {head : α} {xs ys : List α} (hx : Intrusive.IsRing h head xs)
    (hy : Intrusive.IsRing h head ys) : xs = ys := by
  have ex := listEntries_ring hx (xs.length + ys.length + 1) (by omega)
  have ey := listEntries_ring hy (xs.length + ys.length + 1) (by omega)
  exact ex.symm.trans ey

end Borgos.Kcore
