import Mathlib.Tactic

/-! # Numerals

The digits of a number, most significant first. `pushDigits` makes them from the last one on, in a buffer with so much
room.
-/
namespace Borgos.Foundations.Numeral
set_option autoImplicit false

variable {base n : ℕ}

/-- One digit 0 for the number 0. -/
def numeral (base n : ℕ) : List ℕ := if n = 0 then [0] else (Nat.digits base n).reverse

def value (base : ℕ) (l : List ℕ) : ℕ := l.foldl (fun acc d => acc * base + d) 0

theorem numeral_zero (base : ℕ) : numeral base 0 = [0] := rfl

theorem numeral_of_pos (h : n ≠ 0) : numeral base n = (Nat.digits base n).reverse := if_neg h

theorem foldl_eq_ofDigits (base : ℕ) (l : List ℕ) (acc : ℕ) :
    l.foldl (fun acc d => acc * base + d) acc = acc * base ^ l.length + Nat.ofDigits base l.reverse := by
  induction l generalizing acc with
  | nil => simp
  | cons d l ih =>
    rw [List.foldl_cons, ih, List.reverse_cons, Nat.ofDigits_append, Nat.ofDigits_singleton, List.length_reverse,
      List.length_cons]
    ring

theorem value_numeral (base n : ℕ) : value base (numeral base n) = n := by
  by_cases h : n = 0
  · subst h
    simp [value, numeral]
  · rw [value, numeral_of_pos h, foldl_eq_ofDigits, List.reverse_reverse, Nat.ofDigits_digits]
    simp

theorem lt_of_mem_numeral (hbase : 2 ≤ base) {d : ℕ} (hd : d ∈ numeral base n) : d < base := by
  by_cases h : n = 0
  · subst h
    rw [numeral_zero, List.mem_singleton] at hd
    omega
  · rw [numeral_of_pos h, List.mem_reverse] at hd
    exact Nat.digits_lt_base hbase hd

theorem numeral_ne_nil (base n : ℕ) : numeral base n ≠ [] := by
  by_cases h : n = 0
  · simp [numeral, h]
  · rw [numeral_of_pos h, Ne, List.reverse_eq_nil_iff]
    exact Nat.digits_ne_nil_iff_ne_zero.mpr h

theorem head_numeral (h : n ≠ 0) : (numeral base n).head? ≠ some 0 := by
  rw [numeral_of_pos h, List.head?_reverse, List.getLast?_eq_getLast_of_ne_nil (Nat.digits_ne_nil_iff_ne_zero.mpr h)]
  intro hc
  exact Nat.getLast_digit_ne_zero base h (Option.some.inj hc)

theorem length_numeral_le (hbase : 2 ≤ base) {k : ℕ} (hk : 0 < k) (h : n < base ^ k) : (numeral base n).length ≤ k := by
  by_cases hn : n = 0
  · subst hn
    exact hk
  · rw [numeral_of_pos hn, List.length_reverse]
    exact (Nat.digits_length_le_iff hbase n).mpr h

theorem lt_pow_length_numeral (hbase : 2 ≤ base) (n : ℕ) : n < base ^ (numeral base n).length := by
  by_cases hn : n = 0
  · subst hn
    rw [numeral_zero, List.length_singleton, pow_one]
    exact Nat.zero_lt_of_lt hbase
  · rw [numeral_of_pos hn, List.length_reverse]
    exact Nat.lt_base_pow_length_digits hbase

/-- The digits of the quotient, then the last digit. -/
theorem digits_reverse_succ (hbase : 2 ≤ base) (hn : n ≠ 0) :
    (Nat.digits base n).reverse = (Nat.digits base (n / base)).reverse ++ [n % base] := by
  rw [Nat.digits_eq_cons_digits_div hbase hn, List.reverse_cons]

/-- The numeral of the quotient, if there is one, and the last digit. -/
theorem numeral_step (hbase : 2 ≤ base) (n : ℕ) :
    numeral base n = (if n / base = 0 then [] else numeral base (n / base)) ++ [n % base] := by
  by_cases h : n = 0
  · subst h
    simp [numeral_zero]
  · rw [numeral_of_pos h, digits_reverse_succ hbase h]
    split_ifs with hq
    · rw [hq, Nat.digits_zero]
      rfl
    · rw [numeral_of_pos hq]

/-! ## Making them -/

section Push
variable {α : Type}

/-- `digit` makes the last digit of a number, `next` takes it off. -/
def pushDigits (digit : ℕ → α) (next : ℕ → ℕ) : ℕ → ℕ → List α → Option (List α)
  | _, 0, text => some text
  | 0, _ + 1, _ => none
  | room + 1, n + 1, text => pushDigits digit next room (next (n + 1)) (digit (n + 1) :: text)

theorem pushDigits_eq {digit : ℕ → α} {next : ℕ → ℕ} {char : ℕ → α} (hbase : 2 ≤ base)
    (hdigit : ∀ n, digit n = char (n % base)) (hnext : ∀ n, next n = n / base) (room : ℕ) :
    ∀ (n : ℕ) (text : List α), (Nat.digits base n).length ≤ room →
      pushDigits digit next room n text = some ((Nat.digits base n).reverse.map char ++ text) := by
  induction room with
  | zero =>
    intro n text hlen
    have hn : n = 0 := Nat.digits_eq_nil_iff_eq_zero.mp (List.length_eq_zero_iff.mp (Nat.le_zero.mp hlen))
    subst hn
    simp [pushDigits]
  | succ room ih =>
    intro n text hlen
    rcases Nat.eq_zero_or_pos n with rfl | hpos
    · simp [pushDigits]
    · have hn : n ≠ 0 := Nat.ne_of_gt hpos
      obtain ⟨m, rfl⟩ := Nat.exists_eq_succ_of_ne_zero hn
      rw [Nat.digits_eq_cons_digits_div hbase hn, List.length_cons] at hlen
      have hrest := ih ((m + 1) / base) (char ((m + 1) % base) :: text) (Nat.le_of_succ_le_succ hlen)
      rw [pushDigits, hdigit, hnext, hrest, digits_reverse_succ hbase hn, List.map_append, List.append_assoc]
      rfl

end Push
end Borgos.Foundations.Numeral
