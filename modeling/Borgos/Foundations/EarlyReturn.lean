import Mathlib.Tactic

/-! # Function bodies with `return`

A statement of a function body ends, or it returns from the function, or it has no meaning. What follows a `return` is
not executed. `forEach` is a loop over a list.
-/
namespace Borgos.Foundations
set_option autoImplicit false

inductive Exit (ρ σ α : Type) where
  | next (a : α) (s : σ)
  | ret (r : ρ) (s : σ)
  | fault

/-- A part of the body of a function that returns a `ρ`. -/
def Body (ρ σ α : Type) := σ → Exit ρ σ α

namespace Exit
variable {ρ σ α β : Type}

def andThen (x : Exit ρ σ α) (f : α → Body ρ σ β) : Exit ρ σ β :=
  match x with
  | next a s => f a s
  | ret r s => ret r s
  | fault => fault

@[simp] theorem andThen_next (a : α) (s : σ) (f : α → Body ρ σ β) : (next a s : Exit ρ σ α).andThen f = f a s := rfl

@[simp] theorem andThen_ret (r : ρ) (s : σ) (f : α → Body ρ σ β) : (ret r s : Exit ρ σ α).andThen f = ret r s := rfl

@[simp] theorem andThen_fault (f : α → Body ρ σ β) : (fault : Exit ρ σ α).andThen f = fault := rfl

end Exit

namespace Body
variable {ρ σ α β γ : Type}

instance : Monad (Body ρ σ) where
  pure a := fun s => .next a s
  bind x f := fun s => (x s).andThen f

def get : Body ρ σ σ := fun s => .next s s

def modify (f : σ → σ) : Body ρ σ Unit := fun s => .next () (f s)

/-- `return r` -/
def leave (r : ρ) : Body ρ σ α := fun s => .ret r s

def fault : Body ρ σ α := fun _ => .fault

/-- A value that may be missing. -/
def need : Option α → Body ρ σ α
  | some a => pure a
  | none => fault

def forEach (f : α → Body ρ σ Unit) : List α → Body ρ σ Unit
  | [] => pure ()
  | a :: l => f a >>= fun _ => forEach f l

@[simp] theorem pure_run (a : α) (s : σ) : (pure a : Body ρ σ α) s = .next a s := rfl

@[simp] theorem bind_run (x : Body ρ σ α) (f : α → Body ρ σ β) (s : σ) : (x >>= f) s = (x s).andThen f := rfl

@[simp] theorem get_run (s : σ) : (get : Body ρ σ σ) s = .next s s := rfl

@[simp] theorem modify_run (f : σ → σ) (s : σ) : (modify f : Body ρ σ Unit) s = .next () (f s) := rfl

@[simp] theorem leave_run (r : ρ) (s : σ) : (leave r : Body ρ σ α) s = .ret r s := rfl

@[simp] theorem need_some (a : α) : (need (some a) : Body ρ σ α) = pure a := rfl

@[simp] theorem pure_bind (a : α) (f : α → Body ρ σ β) : (pure a >>= f) = f a := rfl

@[simp] theorem bind_pure_unit (x : Body ρ σ Unit) : (x >>= fun _ => pure ()) = x := by
  funext s
  rw [bind_run]
  cases x s with
  | next a t => rfl
  | ret r t => rfl
  | fault => rfl

theorem bind_assoc (x : Body ρ σ α) (f : α → Body ρ σ β) (g : β → Body ρ σ γ) :
    ((x >>= f) >>= g) = x >>= fun a => f a >>= g := by
  funext s
  simp only [bind_run]
  cases x s with
  | next a t => rfl
  | ret r t => rfl
  | fault => rfl

/-! ## Loops -/

section Loops
variable (f : α → Body ρ σ Unit)

@[simp] theorem forEach_nil : forEach f [] = pure () := rfl

theorem forEach_cons (a : α) (l : List α) : forEach f (a :: l) = f a >>= fun _ => forEach f l := rfl

/-- Two loops, one after the other, are a loop over both lists. -/
theorem forEach_append (l l' : List α) : forEach f (l ++ l') = forEach f l >>= fun _ => forEach f l' := by
  induction l with
  | nil => rfl
  | cons a l ih => rw [List.cons_append, forEach_cons, ih, forEach_cons, bind_assoc]

end Loops
end Body
end Borgos.Foundations
