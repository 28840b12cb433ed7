import Mathlib.Tactic

/-! # Rings with a phase bit

A producer and a consumer share `n` cells. Position `k` lies in cell `k % n`, and the phase bit of the
cell tells whether position `k` has been written: it is compared with the parity of the lap of `k`, so
nobody has to clear a cell. This is sound as long as the producer stays within one lap of the consumer.
-/
namespace Borgos.Foundations
set_option autoImplicit false

/-- The bit that marks the lap of position `k`; the first lap has `true`. -/
def lapPhase (n k : ℕ) : Bool := decide (k / n % 2 = 0)

theorem lapPhase_zero (n : ℕ) : lapPhase n 0 = true := by
  unfold lapPhase
  rw [Nat.zero_div]
  rfl

theorem lapPhase_add {n : ℕ} (hn : 0 < n) (k : ℕ) : lapPhase n (k + n) = !lapPhase n k := by
  unfold lapPhase
  rw [Nat.add_div_right k hn]
  rcases Nat.mod_two_eq_zero_or_one (k / n) with h | h
  · have h' : (k / n).succ % 2 = 1 := by omega
    simp [h, h']
  · have h' : (k / n).succ % 2 = 0 := by omega
    simp [h, h']

theorem lapPhase_lap {n i : ℕ} (hi : i < n) (l : ℕ) : lapPhase n (n * l + i) = decide (l % 2 = 0) := by
  unfold lapPhase
  rw [Nat.mul_add_div (by omega), Nat.div_eq_of_lt hi, Nat.add_zero]

theorem lap_slot {n i : ℕ} (hi : i < n) (l : ℕ) : (n * l + i) % n = i := by
  rw [Nat.mul_add_mod, Nat.mod_eq_of_lt hi]

theorem lapPhase_succ {n k : ℕ} (hn : 0 < n) :
    lapPhase n (k + 1) = if k % n + 1 = n then !lapPhase n k else lapPhase n k := by
  have hk := Nat.div_add_mod k n
  have hlt := Nat.mod_lt k hn
  obtain ⟨q, hq⟩ : ∃ q, q = k / n := ⟨_, rfl⟩
  obtain ⟨r, hr⟩ : ∃ r, r = k % n := ⟨_, rfl⟩
  rw [← hq, ← hr] at hk
  rw [← hr] at hlt ⊢
  split
  · next hlast =>
    have e : k + 1 = n * q + n := by omega
    rw [e, lapPhase_add hn, ← hk, ← Nat.add_zero (n * q), lapPhase_lap hn, Nat.add_zero, lapPhase_lap hlt]
  · next hlast =>
    rw [← hk, Nat.add_assoc, lapPhase_lap (by omega), lapPhase_lap hlt]

theorem slot_succ {n k : ℕ} (hn : 0 < n) : (k + 1) % n = if k % n + 1 = n then 0 else k % n + 1 := by
  have hlt := Nat.mod_lt k hn
  rw [← Nat.mod_add_mod]
  split
  · next h => rw [h, Nat.mod_self]
  · next h => exact Nat.mod_eq_of_lt (by omega)

/-- Two positions less than a lap apart are in different cells. -/
theorem slot_ne {n j k : ℕ} (hjk : j < k) (hkn : k < j + n) : j % n ≠ k % n := by
  intro e
  have hd := Nat.sub_mod_eq_zero_of_mod_eq e.symm
  rw [Nat.mod_eq_of_lt (by omega)] at hd
  omega

variable {C : Type}

/-- The cells hold the positions from `c` to `p`, and no cell pretends to hold a later one. -/
structure Lapped (n : ℕ) (bit : C → Bool) (Entry : ℕ → C → Prop) (cell : ℕ → C) (c p : ℕ) : Prop where
  le : c ≤ p
  room : p ≤ c + n
  unread : ∀ k, c ≤ k → k < p → Entry k (cell (k % n)) ∧ bit (cell (k % n)) = lapPhase n k
  stale : ∀ k, p ≤ k → k < p + n → bit (cell (k % n)) ≠ lapPhase n k

namespace Lapped
variable {n c p : ℕ} {bit : C → Bool} {Entry Entry' : ℕ → C → Prop} {cell : ℕ → C}

theorem start (hzero : ∀ i < n, bit (cell i) = false) : Lapped n bit Entry cell 0 0 where
  le := le_rfl
  room := Nat.zero_le _
  unread := fun k _ hk => absurd hk (Nat.not_lt_zero k)
  stale := by
    intro k _ hk
    rw [Nat.zero_add] at hk
    have hphase : lapPhase n k = true := by
      unfold lapPhase
      rw [Nat.div_eq_of_lt hk]
      rfl
    rw [Nat.mod_eq_of_lt hk, hzero k hk, hphase]
    exact Bool.false_ne_true

/-- The consumer's test is right. -/
theorem owned_iff (h : Lapped n bit Entry cell c p) (hn : 0 < n) : bit (cell (c % n)) = lapPhase n c ↔ c < p := by
  constructor
  · intro hb
    by_contra hc
    have e : c = p := le_antisymm h.le (not_lt.mp hc)
    exact h.stale c e.ge (by omega) hb
  · intro hc
    exact (h.unread c le_rfl hc).2

theorem consume (h : Lapped n bit Entry cell c p) (hc : c < p) : Lapped n bit Entry cell (c + 1) p where
  le := hc
  room := h.room.trans (by omega)
  unread := fun k hk hkp => h.unread k (by omega) hkp
  stale := h.stale

theorem mono (h : Lapped n bit Entry cell c p) (hE : ∀ k x, c ≤ k → k < p → Entry k x → Entry' k x) :
    Lapped n bit Entry' cell c p where
  le := h.le
  room := h.room
  unread := fun k hk hkp => ⟨hE k _ hk hkp (h.unread k hk hkp).1, (h.unread k hk hkp).2⟩
  stale := h.stale

/-- The producer may change the next cell while its bit stays the same. -/
theorem touch (h : Lapped n bit Entry cell c p) (hroom : p < c + n) {x : C} (hx : bit x = bit (cell (p % n))) :
    Lapped n bit Entry (Function.update cell (p % n) x) c p where
  le := h.le
  room := h.room
  unread := by
    intro k hk hkp
    rw [Function.update_of_ne (slot_ne hkp (by omega))]
    exact h.unread k hk hkp
  stale := by
    intro k hk hkp
    by_cases e : k = p
    · rw [e, Function.update_self, hx]
      exact h.stale p le_rfl (by omega)
    · rw [Function.update_of_ne (slot_ne (lt_of_le_of_ne hk (Ne.symm e)) hkp).symm]
      exact h.stale k hk hkp

/-- With the right bit the next cell is handed over. -/
theorem push (h : Lapped n bit Entry cell c p) (hroom : p < c + n) {x : C} (hE : Entry p x)
    (hx : bit x = lapPhase n p) : Lapped n bit Entry (Function.update cell (p % n) x) c (p + 1) where
  le := h.le.trans (Nat.le_succ p)
  room := hroom
  unread := by
    intro k hk hkp
    by_cases e : k = p
    · rw [e, Function.update_self]
      exact ⟨hE, hx⟩
    · rw [Function.update_of_ne (slot_ne (by omega) (by omega))]
      exact h.unread k hk (by omega)
  stale := by
    intro k hk hkp
    by_cases e : k = p + n
    · rw [e, Nat.add_mod_right, Function.update_self, hx, lapPhase_add (by omega)]
      cases lapPhase n p
      · exact Bool.false_ne_true
      · exact Bool.false_ne_true.symm
    · rw [Function.update_of_ne (slot_ne (by omega) (by omega)).symm]
      exact h.stale k (by omega) (by omega)

end Lapped
end Borgos.Foundations
