import Mathlib.Tactic

/-! # Numerals of fixed length

Reading a numeral digit by digit, the most significant one first, and writing a number with a given number of digits.
Several digits may stand for the same value, as upper and lower case letters do; which one is written may depend on the
position.
-/
namespace Borgos.Foundations.Positional
set_option autoImplicit false

variable {α : Type} (base : ℕ) (val : α → Option ℕ)

/-- The value of the digits after those already read; `none` if one of them is no digit. -/
def read : ℕ → List α → Option ℕ
  | v, [] => some v
  | v, a :: as => (val a).bind fun d => read (v * base + d) as

/-- The last `n` digits of `v`. -/
def write (digit : ℕ → ℕ → α) : ℕ → ℕ → List α
  | 0, _ => []
  | n + 1, v => digit n (v / base ^ n % base) :: write digit n v

@[simp] theorem length_write (digit : ℕ → ℕ → α) (n v : ℕ) : (write base digit n v).length = n := by
  induction n with
  | zero => rfl
  | succ n ih => rw [write, List.length_cons, ih]

variable {base val}

/-- Only the choices below `n` and the last `n` digits matter. -/
theorem write_congr {digit digit' : ℕ → ℕ → α} {n v v' : ℕ} (hdigit : ∀ i < n, digit i = digit' i)
    (hv : v % base ^ n = v' % base ^ n) : write base digit n v = write base digit' n v' := by
  induction n with
  | zero => rfl
  | succ n ih =>
    have hpow : base ^ (n + 1) = base ^ n * base := pow_succ base n
    have hhead : v / base ^ n % base = v' / base ^ n % base := by
      rw [← Nat.mod_mul_right_div_self, ← Nat.mod_mul_right_div_self, ← hpow, hv]
    have htail : v % base ^ n = v' % base ^ n := by
      rw [← Nat.mod_mul_right_mod v (base ^ n) base, ← Nat.mod_mul_right_mod v' (base ^ n) base, ← hpow, hv]
    rw [write, write, hhead, hdigit n (Nat.lt_succ_self n), ih (fun i hi => hdigit i (Nat.lt_succ_of_lt hi)) htail]

/-- Reading undoes writing. -/
theorem read_write {digit : ℕ → ℕ → α} (hbase : 0 < base) (hdigit : ∀ i, ∀ d < base, val (digit i d) = some d)
    (n u v : ℕ) : read base val u (write base digit n v) = some (u * base ^ n + v % base ^ n) := by
  induction n generalizing u with
  | zero => simp [write, read, Nat.mod_one]
  | succ n ih =>
    rw [write, read, hdigit n _ (Nat.mod_lt _ hbase), Option.bind_some, ih, Nat.mod_pow_succ]
    congr 1
    ring

/-- Whatever can be read is a numeral. -/
theorem exists_write {κ : Type} [Inhabited κ] {digit : κ → ℕ → α}
    (hval : ∀ a d, val a = some d → d < base ∧ ∃ k, a = digit k d) {as : List α} {u w : ℕ}
    (h : read base val u as = some w) :
    ∃ (choice : ℕ → κ) (v : ℕ), v < base ^ as.length ∧ w = u * base ^ as.length + v ∧
      as = write base (fun i => digit (choice i)) as.length v := by
  induction as generalizing u with
  | nil => exact ⟨fun _ => default, 0, by simp, by simpa [read] using h.symm, rfl⟩
  | cons a as ih =>
    obtain ⟨d, ha, hrest⟩ := Option.bind_eq_some_iff.mp h
    obtain ⟨hd, k, rfl⟩ := hval a d ha
    obtain ⟨choice, v, hv, rfl, has⟩ := ih hrest
    have hpos : 0 < base ^ as.length := Nat.pos_of_ne_zero fun e => by omega
    have hdiv : (d * base ^ as.length + v) / base ^ as.length = d := by
      rw [Nat.mul_comm, Nat.mul_add_div hpos, Nat.div_eq_of_lt hv, Nat.add_zero]
    refine ⟨Function.update choice as.length k, d * base ^ as.length + v, ?_, ?_, ?_⟩
    · calc d * base ^ as.length + v < d * base ^ as.length + base ^ as.length := Nat.add_lt_add_left hv _
        _ = (d + 1) * base ^ as.length := by ring
        _ ≤ base * base ^ as.length := Nat.mul_le_mul_right _ hd
        _ = base ^ (digit k d :: as).length := by rw [List.length_cons, pow_succ, Nat.mul_comm]
    · rw [List.length_cons, pow_succ]
      ring
    · rw [List.length_cons, write, hdiv, Nat.mod_eq_of_lt hd, Function.update_self]
      congr 1
      rw [has, length_write]
      apply write_congr
      · intro i hi
        rw [Function.update_of_ne hi.ne]
      · rw [Nat.mul_comm, Nat.mul_add_mod]

end Borgos.Foundations.Positional
