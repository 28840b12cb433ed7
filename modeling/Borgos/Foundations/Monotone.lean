import Borgos.Foundations.Hoare

/-! # Programs that only move a state forward

`x.Within R`: whatever state `x` starts in, the state it ends in, also by a panic, is related to it by `R`. For a
reflexive and transitive `R` this follows the structure of the program. A property that `R` carries along, once
established by one command of a program, then holds at its end.
-/
namespace Borgos.Foundations
set_option autoImplicit false

variable {σ α β : Type}

def Prog.Within (R : σ → σ → Prop) (x : Prog σ α) : Prop := ∀ s t, (x s).final = some t → R s t

/-- Every state that `x` ends in from `s` has the property `P`. -/
def Prog.Ends (x : Prog σ α) (s : σ) (P : σ → Prop) : Prop := ∀ t, (x s).final = some t → P t

/-- A run always returns. -/
def Prog.Returns (x : Prog σ α) : Prop := ∀ s, ∃ a t, x s = .ok a t

theorem Outcome.final_andThen {x : Outcome σ α} {f : α → Prog σ β} {t : σ} (h : (x.andThen f).final = some t) :
    ∃ s, x.final = some s ∧ (s = t ∨ ∃ a, x = .ok a s ∧ (f a s).final = some t) := by
  cases x with
  | ok a s => exact ⟨s, rfl, Or.inr ⟨a, rfl, h⟩⟩
  | panic m s => exact ⟨s, rfl, Or.inl (by simpa using h)⟩
  | stuck => cases h

/-! ## Staying within a relation -/

namespace Prog.Within
variable {R : σ → σ → Prop}

theorem modify {f : σ → σ} (hf : ∀ s, R s (f s)) : (Prog.modify f).Within R := by
  intro s t h
  cases h
  exact hf s

theorem stuck : (Prog.stuck : Prog σ α).Within R := by
  intro s t h
  cases h

section Refl
variable [Std.Refl R]

theorem get : (Prog.get : Prog σ σ).Within R := by
  intro s t h
  cases h
  exact Std.Refl.refl s

theorem pure (a : α) : (Pure.pure a : Prog σ α).Within R := by
  intro s t h
  cases h
  exact Std.Refl.refl s

theorem panic (m : String) : (Prog.panic m : Prog σ α).Within R := by
  intro s t h
  cases h
  exact Std.Refl.refl s

end Refl

theorem bind [IsTrans σ R] {x : Prog σ α} {f : α → Prog σ β} (hx : x.Within R) (hf : ∀ a, (f a).Within R) :
    (x >>= f).Within R := by
  intro s t h
  rw [Prog.bind_run] at h
  obtain ⟨u, hu, rfl | ⟨a, -, ha⟩⟩ := Outcome.final_andThen h
  · exact hx s u hu
  · exact IsTrans.trans s u t (hx s u hu) (hf a u t ha)

section Loops
variable [Std.Refl R] [IsTrans σ R]

theorem forM {f : α → Prog σ PUnit} (hf : ∀ a, (f a).Within R) (l : List α) : (l.forM f).Within R := by
  induction l with
  | nil => exact pure _
  | cons a l ih => exact bind (hf a) fun _ => ih

theorem foldlM {f : β → α → Prog σ β} (hf : ∀ b a, (f b a).Within R) (l : List α) (b : β) :
    (l.foldlM f b).Within R := by
  induction l generalizing b with
  | nil => exact pure _
  | cons a l ih => exact bind (hf b a) fun b => ih b

end Loops

theorem ite {p : Prop} [Decidable p] {x y : Prog σ α} (hx : x.Within R) (hy : y.Within R) :
    (if p then x else y).Within R := by
  split
  · exact hx
  · exact hy

end Prog.Within

/-! ## What holds at the end -/

namespace Prog.Ends
variable {R : σ → σ → Prop} {P Q : σ → Prop} {s : σ}

/-- The first command establishes `P`, and the rest carries it along. -/
theorem bind {x : Prog σ α} {f : α → Prog σ β} (hx : x.Ends s P) (hf : ∀ a, (f a).Within R)
    (hP : ∀ s t, R s t → P s → P t) : (x >>= f).Ends s P := by
  intro t h
  rw [Prog.bind_run] at h
  obtain ⟨u, hu, rfl | ⟨a, -, ha⟩⟩ := Outcome.final_andThen h
  · exact hx u hu
  · exact hP u t (hf a u t ha) (hx u hu)

/-- The first command returns, and the rest establishes `P`. -/
theorem bind_right {x : Prog σ α} {f : α → Prog σ β} (hx : x.Returns) (hf : ∀ a t, x s = .ok a t → (f a).Ends t P) :
    (x >>= f).Ends s P := by
  intro t h
  obtain ⟨a, u, hu⟩ := hx s
  rw [Prog.bind_run, hu] at h
  exact hf a u hu t h

/-- One round of a loop establishes `P`. -/
theorem forM [Std.Refl R] [IsTrans σ R] {f : α → Prog σ PUnit} {l : List α} {i : α} (hi : i ∈ l)
    (hret : ∀ a, (f a).Returns) (hf : ∀ a, (f a).Within R) (hQ : ∀ s t, R s t → Q s → Q t)
    (hP : ∀ s t, R s t → P s → P t) (hround : ∀ s, Q s → (f i).Ends s P) (hs : Q s) : (l.forM f).Ends s P := by
  induction l generalizing s with
  | nil => exact absurd hi List.not_mem_nil
  | cons a l ih =>
    rcases List.mem_cons.mp hi with rfl | hi
    · exact Ends.bind (hround s hs) (fun _ => Within.forM hf l) hP
    · refine Ends.bind_right (f := fun _ => l.forM f) (hret a) fun u t ht => ?_
      exact ih hi (hQ s t (hf a s t (by rw [ht]; rfl)) hs)

end Prog.Ends

/-! ## Returning -/

namespace Prog.Returns

theorem pure (a : α) : (Pure.pure a : Prog σ α).Returns := fun s => ⟨a, s, rfl⟩

theorem get : (Prog.get : Prog σ σ).Returns := fun s => ⟨s, s, rfl⟩

theorem modify (f : σ → σ) : (Prog.modify f).Returns := fun s => ⟨(), f s, rfl⟩

theorem bind {x : Prog σ α} {f : α → Prog σ β} (hx : x.Returns) (hf : ∀ a, (f a).Returns) : (x >>= f).Returns := by
  intro s
  obtain ⟨a, t, ht⟩ := hx s
  obtain ⟨b, u, hu⟩ := hf a t
  refine ⟨b, u, ?_⟩
  rw [Prog.bind_run, ht]
  exact hu

theorem forM {f : α → Prog σ PUnit} (hf : ∀ a, (f a).Returns) (l : List α) : (l.forM f).Returns := by
  induction l with
  | nil => exact pure _
  | cons a l ih => exact bind (hf a) fun _ => ih

end Prog.Returns
end Borgos.Foundations
