import Mathlib.Tactic
import Borgos.Foundations.Outcome

/-! # Device registers that answer as they like

A register has no contents here: reading it returns the next value of a sequence that belongs to it, whatever was
written before. A statement for all sequences is a statement for every behaviour of the device. Every access
is recorded, oldest first, so that "only after it has read" can be said of the record.

`poll` is the bounded waiting loop of drivers, counting down before each pause. `poll_ok` carries a transitive
relation over the rounds.
-/
namespace Borgos.Foundations
set_option autoImplicit false

inductive Access (ρ : Type) where
  | read32 (r : ρ) (v : BitVec 32)
  | read64 (r : ρ) (v : BitVec 64)
  | write32 (r : ρ) (v : BitVec 32)
  | delay (ms : ℕ)

/-- The values the registers are going to return, and what has happened so far. -/
structure Registers (ρ : Type) where
  next32 : ρ → ℕ → BitVec 32
  next64 : ρ → ℕ → BitVec 64
  trace : List (Access ρ)

namespace Registers
variable {ρ : Type}

def record (s : Registers ρ) (e : Access ρ) : Registers ρ := { s with trace := s.trace ++ [e] }

def write32 (r : ρ) (v : BitVec 32) : Prog (Registers ρ) Unit := Prog.modify fun s => s.record (.write32 r v)

def delay (ms : ℕ) : Prog (Registers ρ) Unit := Prog.modify fun s => s.record (.delay ms)

@[simp] theorem write32_run (r : ρ) (v : BitVec 32) (s : Registers ρ) :
    write32 r v s = .ok () (s.record (.write32 r v)) := rfl

@[simp] theorem delay_run (ms : ℕ) (s : Registers ρ) : delay ms s = .ok () (s.record (.delay ms)) := rfl

@[simp] theorem record_trace (s : Registers ρ) (e : Access ρ) : (s.record e).trace = s.trace ++ [e] := rfl

@[simp] theorem record_next32 (s : Registers ρ) (e : Access ρ) : (s.record e).next32 = s.next32 := rfl

/-- Between two states only events with `P` happened. -/
def Only (P : Access ρ → Prop) (s s' : Registers ρ) : Prop := ∃ es, s'.trace = s.trace ++ es ∧ ∀ e ∈ es, P e

theorem Only.trans {P : Access ρ → Prop} {s s' s'' : Registers ρ} (h : Only P s s') (h' : Only P s' s'') :
    Only P s s'' := by
  obtain ⟨es, he, hP⟩ := h
  obtain ⟨fs, hf, hQ⟩ := h'
  refine ⟨es ++ fs, by rw [hf, he, List.append_assoc], ?_⟩
  intro e hmem
  rcases List.mem_append.mp hmem with h | h
  · exact hP e h
  · exact hQ e h

theorem Only.record {P : Access ρ → Prop} {s : Registers ρ} {e : Access ρ} (h : P e) : Only P s (s.record e) :=
  ⟨[e], rfl, by simpa using h⟩

variable [DecidableEq ρ]

/-- The state after one 32-bit read. -/
def after32 (s : Registers ρ) (r : ρ) : Registers ρ :=
  { s.record (.read32 r (s.next32 r 0)) with
    next32 := Function.update s.next32 r fun k => s.next32 r (k + 1) }

def read32 (r : ρ) : Prog (Registers ρ) (BitVec 32) := fun s => .ok (s.next32 r 0) (s.after32 r)

def read64 (r : ρ) : Prog (Registers ρ) (BitVec 64) := fun s =>
  .ok (s.next64 r 0)
    { s.record (.read64 r (s.next64 r 0)) with
      next64 := Function.update s.next64 r fun k => s.next64 r (k + 1) }

/-- Read a register once and test the value. -/
def readTest (r : ρ) (test : BitVec 32 → Bool) : Prog (Registers ρ) Bool := do
  let v ← read32 r
  pure (test v)

@[simp] theorem read32_run (r : ρ) (s : Registers ρ) : read32 r s = .ok (s.next32 r 0) (s.after32 r) := rfl

@[simp] theorem readTest_run (r : ρ) (test : BitVec 32 → Bool) (s : Registers ρ) :
    readTest r test s = .ok (test (s.next32 r 0)) (s.after32 r) := rfl

@[simp] theorem after32_trace (s : Registers ρ) (r : ρ) :
    (s.after32 r).trace = s.trace ++ [.read32 r (s.next32 r 0)] := rfl

@[simp] theorem after32_next32 (s : Registers ρ) (r : ρ) (k : ℕ) :
    (s.after32 r).next32 r k = s.next32 r (k + 1) := by
  simp [after32]

theorem after32_next32_of_ne (s : Registers ρ) {r r' : ρ} (h : r' ≠ r) : (s.after32 r).next32 r' = s.next32 r' := by
  simp [after32, h]

theorem Only.after32 {P : Access ρ → Prop} {s : Registers ρ} {r : ρ} (h : ∀ v, P (.read32 r v)) :
    Only P s (s.after32 r) :=
  ⟨[.read32 r (s.next32 r 0)], rfl, by simpa using h _⟩

end Registers

/-! ## Waiting loops -/

variable {σ : Type}

/-- `while (busy) { if (--timeout == 0) return; pause }`, `false` when the count has run out. No caller starts
from 0, where the count would go on below it. -/
def poll (busy : Prog σ Bool) (pause : Prog σ Unit) : ℕ → Prog σ Bool
  | 0 => Prog.stuck
  | n + 1 => do
    if ← busy then
      if n = 0 then pure false
      else do
        pause
        poll busy pause n
    else pure true

section
variable {busy : Prog σ Bool} {pause : Prog σ Unit}

theorem poll_idle {s s' : σ} (n : ℕ) (h : busy s = .ok false s') : poll busy pause (n + 1) s = .ok true s' := by
  simp [poll, h]

theorem poll_last {s s' : σ} (h : busy s = .ok true s') : poll busy pause 1 s = .ok false s' := by
  simp [poll, h]

theorem poll_busy {s s' s'' : σ} (n : ℕ) (h : busy s = .ok true s') (hp : pause s' = .ok () s'') :
    poll busy pause (n + 2) s = poll busy pause (n + 1) s'' := by
  rw [poll]
  simp [h, hp]

/-- A loop whose rounds return does return, and what every round and every pause respects, the loop does. -/
theorem poll_ok {R : σ → σ → Prop} (htrans : ∀ {a b c}, R a b → R b c → R a c)
    (hbusy : ∀ s, ∃ b s', busy s = .ok b s' ∧ R s s') (hpause : ∀ s, ∃ s', pause s = .ok () s' ∧ R s s') (n : ℕ) :
    ∀ s, ∃ b s', poll busy pause (n + 1) s = .ok b s' ∧ R s s' := by
  induction n with
  | zero =>
    intro s
    obtain ⟨b, s', hb, hR⟩ := hbusy s
    cases b with
    | false => exact ⟨true, s', poll_idle 0 hb, hR⟩
    | true => exact ⟨false, s', poll_last hb, hR⟩
  | succ n ih =>
    intro s
    obtain ⟨b, s', hb, hR⟩ := hbusy s
    cases b with
    | false => exact ⟨true, s', poll_idle (n + 1) hb, hR⟩
    | true =>
      obtain ⟨s'', hp, hR'⟩ := hpause s'
      obtain ⟨b, t, ht, hR''⟩ := ih s''
      exact ⟨b, t, by rw [poll_busy n hb hp, ht], htrans (htrans hR hR') hR''⟩

end

namespace Registers
variable {ρ : Type} [DecidableEq ρ] (r : ρ) (test : BitVec 32 → Bool) (ms : ℕ)

/-- The wait gives up if the test holds of all the values it may look at. -/
theorem poll_timeout (n : ℕ) : ∀ s : Registers ρ, (∀ k < n + 1, test (s.next32 r k) = true) →
    ∃ s', poll (readTest r test) (delay ms) (n + 1) s = .ok false s' := by
  induction n with
  | zero =>
    intro s h
    refine ⟨s.after32 r, poll_last ?_⟩
    rw [readTest_run, h 0 (by omega)]
  | succ n ih =>
    intro s h
    have hb : readTest r test s = .ok true (s.after32 r) := by rw [readTest_run, h 0 (by omega)]
    rw [poll_busy n hb (delay_run ms _)]
    apply ih
    intro k hk
    simp only [record_next32, after32_next32]
    exact h (k + 1) (by omega)

/-- It ends with the first value that fails the test, and the reads after it return the values after that one. -/
theorem poll_first (n : ℕ) : ∀ (k : ℕ) (s : Registers ρ), k < n + 1 → test (s.next32 r k) = false →
    (∀ j < k, test (s.next32 r j) = true) →
    ∃ s', poll (readTest r test) (delay ms) (n + 1) s = .ok true s' ∧
      ∀ j, s'.next32 r j = s.next32 r (k + 1 + j) := by
  induction n with
  | zero =>
    intro k s hk hf _
    obtain rfl : k = 0 := by omega
    refine ⟨s.after32 r, poll_idle 0 (by rw [readTest_run, hf]), ?_⟩
    intro j
    rw [after32_next32, show j + 1 = 0 + 1 + j from by omega]
  | succ n ih =>
    intro k s hk hf hbefore
    cases k with
    | zero =>
      refine ⟨s.after32 r, poll_idle (n + 1) (by rw [readTest_run, hf]), ?_⟩
      intro j
      rw [after32_next32, show j + 1 = 0 + 1 + j from by omega]
    | succ k =>
      have hb : readTest r test s = .ok true (s.after32 r) := by rw [readTest_run, hbefore 0 (by omega)]
      rw [poll_busy n hb (delay_run ms _)]
      obtain ⟨s', hs', hnext⟩ := ih k ((s.after32 r).record (.delay ms)) (by omega) (by simpa using hf)
        (fun j hj => by simpa using hbefore (j + 1) (by omega))
      refine ⟨s', hs', ?_⟩
      intro j
      rw [hnext j, record_next32, after32_next32, show k + 1 + j + 1 = k + 1 + 1 + j from by omega]

end Registers
end Borgos.Foundations
