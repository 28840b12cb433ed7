import Mathlib.Tactic

/-! # Concurrent operations and a sequential order of them

`op t a` is what operation `a` does to the object `t` when nothing else happens: the object after it, and its answer.
`History op t₀ answer t order` says that the operations that have been answered got the answers they get when they are
executed one after the other in `order`, from `t₀`, and that `t` is the object this leaves.
-/
namespace Borgos.Foundations
set_option autoImplicit false

variable {T A R : Type}

/-- The object after the operations in order. -/
def serve (op : T → A → T × R) (t : T) (order : List A) : T := order.foldl (fun t a => (op t a).1) t

theorem serve_concat (op : T → A → T × R) (t : T) (order : List A) (a : A) :
    serve op t (order ++ [a]) = (op (serve op t order) a).1 := by
  rw [serve, List.foldl_append]
  rfl

theorem serve_append (op : T → A → T × R) (t : T) (order order' : List A) :
    serve op t (order ++ order') = serve op (serve op t order) order' :=
  List.foldl_append

structure History (op : T → A → T × R) (t₀ : T) (answer : A → Option R) (t : T) (order : List A) : Prop where
  nodup : order.Nodup
  mem_iff : ∀ a, a ∈ order ↔ answer a ≠ none
  object : serve op t₀ order = t
  answers : ∀ pre a post, order = pre ++ a :: post → answer a = some (op (serve op t₀ pre) a).2

namespace History
variable {op : T → A → T × R} {t₀ t : T} {answer answer' : A → Option R} {order : List A}

theorem nil (op : T → A → T × R) (t₀ : T) (h : ∀ a, answer a = none) : History op t₀ answer t₀ [] where
  nodup := List.nodup_nil
  mem_iff a := by simp [h a]
  object := rfl
  answers pre a post e := by simp at e

theorem congr (h : History op t₀ answer t order) (hsame : ∀ a, answer' a = answer a) :
    History op t₀ answer' t order := by
  have e : answer' = answer := funext hsame
  rwa [e]

/-- One more operation, on the object the others have left. -/
theorem next {a : A} (h : History op t₀ answer t order) (hnone : answer a = none)
    (hother : ∀ b, b ≠ a → answer' b = answer b) (ha : answer' a = some (op t a).2) :
    History op t₀ answer' (op t a).1 (order ++ [a]) := by
  have hnotin : a ∉ order := fun hin => (h.mem_iff a).mp hin hnone
  constructor
  · exact List.nodup_append.mpr ⟨h.nodup, List.nodup_singleton a, fun b hb c hc => by
      rw [List.mem_singleton.mp hc]
      rintro rfl
      exact hnotin hb⟩
  · intro b
    by_cases hba : b = a
    · subst hba
      simp [ha]
    · rw [hother b hba, ← h.mem_iff b]
      simp [hba]
  · rw [serve_concat, h.object]
  · intro pre b post e
    rcases List.eq_nil_or_concat post with rfl | ⟨post, c, rfl⟩
    · obtain ⟨hpre, hab⟩ := List.append_inj' e rfl
      obtain rfl : a = b := List.singleton_inj.mp hab
      rw [ha, ← hpre, h.object]
    · rw [List.concat_eq_append, ← List.cons_append, ← List.append_assoc] at e
      obtain ⟨hpre, -⟩ := List.append_inj' e rfl
      have hba : b ≠ a := by
        rintro rfl
        exact hnotin (hpre ▸ List.mem_append_right pre List.mem_cons_self)
      rw [hother b hba]
      exact h.answers pre b post hpre

end History
end Borgos.Foundations
