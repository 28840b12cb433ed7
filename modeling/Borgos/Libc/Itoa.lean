import Borgos.Foundations.Numeral

/-! # `doprnt.c`: `_itoa`

The digits are put into a buffer of 66 characters from its end on and copied from there. Writing before the buffer or
behind the destination has no result.
-/
namespace Borgos.Libc
open Borgos.Foundations Numeral
set_option autoImplicit false

/-- `sizeof(buf)` -/
def itoaBufsize : ℕ := 66

/-- `'0' + d`, as a `char`. -/
def plainDigit (d : ℕ) : BitVec 8 := 0x30 + BitVec.ofNat 8 d

/-- `if (*dest > '9') *dest += 'A' - '9' - 1` -/
def letterDigit (d : ℕ) : BitVec 8 := if 0x39 < plainDigit d then plainDigit d + (0x41 - 0x39 - 1) else plainDigit d

/-- One of the five loops: the digits of `value` in front of the NUL. -/
def itoaLoop (digit : ℕ → BitVec 8) (next : ℕ → ℕ) (value : ℕ) : Option (List (BitVec 8)) :=
  pushDigits digit next (itoaBufsize - 1) value [0]

def itoaLoop16 : ℕ → Option (List (BitVec 8)) :=
  itoaLoop (fun value => letterDigit (value &&& 0xF)) fun value => value >>> 4

def itoaLoop10 : ℕ → Option (List (BitVec 8)) := itoaLoop (fun value => plainDigit (value % 10)) fun value => value / 10

def itoaLoop8 : ℕ → Option (List (BitVec 8)) :=
  itoaLoop (fun value => plainDigit (value &&& 7)) fun value => value >>> 3

def itoaLoop2 : ℕ → Option (List (BitVec 8)) :=
  itoaLoop (fun value => plainDigit (value &&& 1)) fun value => value >>> 1

def itoaLoopGeneral (radix : ℕ) : ℕ → Option (List (BitVec 8)) :=
  itoaLoop (fun value => letterDigit (value % radix)) fun value => value / radix

def itoaDigits (radix value : ℕ) : Option (List (BitVec 8)) :=
  match radix with
  | 16 => itoaLoop16 value
  | 10 => itoaLoop10 value
  | 8 => itoaLoop8 value
  | 2 => itoaLoop2 value
  | radix => itoaLoopGeneral radix value

/-- `memcpy` into the destination, which has `size` characters. -/
def copyOut (size : ℕ) (text : List (BitVec 8)) : Option (List (BitVec 8)) :=
  if text.length ≤ size then some text else none

/-- What `_itoa(value, str, radix)` stores from `str` on; `str` has `size` characters. -/
def itoa (size : ℕ) (value : BitVec 64) (radix : ℕ) : Option (List (BitVec 8)) :=
  if value = 0 then copyOut size [0x30, 0]
  else (itoaDigits radix value.toNat).bind (copyOut size)

/-! ## The loops -/

section Loops
variable {radix : ℕ}

theorem letterDigit_of_lt {d : ℕ} (h : d < 10) : letterDigit d = plainDigit d := by
  interval_cases d <;> rfl

theorem itoaLoop_eq {digit : ℕ → BitVec 8} {next : ℕ → ℕ} (hradix : 2 ≤ radix)
    (hdigit : ∀ n, digit n = letterDigit (n % radix)) (hnext : ∀ n, next n = n / radix) {n : ℕ} (hn : n ≠ 0)
    (hlt : n < 2 ^ 64) : itoaLoop digit next n = some ((numeral radix n).map letterDigit ++ [0]) := by
  have hpow : n < radix ^ 64 := hlt.trans_le (Nat.pow_le_pow_left hradix 64)
  have hlen : (Nat.digits radix n).length ≤ itoaBufsize - 1 :=
    ((Nat.digits_length_le_iff hradix n).mpr hpow).trans (by decide)
  rw [itoaLoop, pushDigits_eq hradix hdigit hnext (itoaBufsize - 1) n [0] hlen, numeral_of_pos hn]

/-- The loops for a power of two. -/
theorem and_shift_eq (k : ℕ) : (∀ n : ℕ, n &&& (2 ^ k - 1) = n % 2 ^ k) ∧ ∀ n : ℕ, n >>> k = n / 2 ^ k :=
  ⟨fun n => Nat.and_two_pow_sub_one_eq_mod n k, fun n => Nat.shiftRight_eq_div_pow n k⟩

theorem itoaDigits_eq (hradix : 2 ≤ radix) {n : ℕ} (hn : n ≠ 0) (hlt : n < 2 ^ 64) :
    itoaDigits radix n = some ((numeral radix n).map letterDigit ++ [0]) := by
  unfold itoaDigits
  split
  · exact itoaLoop_eq hradix (fun n => congrArg letterDigit ((and_shift_eq 4).1 n)) (and_shift_eq 4).2 hn hlt
  · exact itoaLoop_eq hradix (fun n => (letterDigit_of_lt (Nat.mod_lt n (by decide))).symm) (fun _ => rfl) hn hlt
  · refine itoaLoop_eq hradix (fun n => ?_) (and_shift_eq 3).2 hn hlt
    have hmod : n &&& 7 = n % 8 := (and_shift_eq 3).1 n
    rw [hmod]
    exact (letterDigit_of_lt (show n % 8 < 10 by omega)).symm
  · refine itoaLoop_eq hradix (fun n => ?_) (and_shift_eq 1).2 hn hlt
    have hmod : n &&& 1 = n % 2 := (and_shift_eq 1).1 n
    rw [hmod]
    exact (letterDigit_of_lt (show n % 2 < 10 by omega)).symm
  · exact itoaLoop_eq hradix (fun _ => rfl) (fun _ => rfl) hn hlt

/-- The loops for 2, 8, 10 and 16 do what the general one does. -/
theorem itoaDigits_eq_general (hradix : 2 ≤ radix) {n : ℕ} (hn : n ≠ 0) (hlt : n < 2 ^ 64) :
    itoaDigits radix n = itoaLoopGeneral radix n := by
  have hgeneral : itoaLoopGeneral radix n = _ := itoaLoop_eq hradix (fun _ => rfl) (fun _ => rfl) hn hlt
  rw [itoaDigits_eq hradix hn hlt, hgeneral]

end Loops

/-! ## The numeral -/

/-- The characters of a numeral. -/
def numeralText (radix value : ℕ) : List (BitVec 8) := (numeral radix value).map letterDigit

theorem length_numeralText (radix value : ℕ) : (numeralText radix value).length = (numeral radix value).length :=
  List.length_map _

theorem itoa_eq {size radix : ℕ} (hradix : 2 ≤ radix) (value : BitVec 64)
    (hsize : (numeralText radix value.toNat).length < size) :
    itoa size value radix = some (numeralText radix value.toNat ++ [0]) := by
  have hfits : (numeralText radix value.toNat ++ [0]).length ≤ size := by
    simpa using hsize
  unfold itoa
  by_cases hzero : value = 0
  · subst hzero
    rw [if_pos rfl]
    exact if_pos hfits
  · have hn : value.toNat ≠ 0 := fun h => hzero (BitVec.eq_of_toNat_eq h)
    rw [if_neg hzero, itoaDigits_eq hradix hn value.isLt, Option.bind_some]
    exact if_pos hfits

theorem mem_numeralText {radix value : ℕ} (hradix : 2 ≤ radix) {c : BitVec 8} (hc : c ∈ numeralText radix value) :
    ∃ d < radix, c = letterDigit d := by
  obtain ⟨d, hd, rfl⟩ := List.mem_map.mp hc
  exact ⟨d, lt_of_mem_numeral hradix hd, rfl⟩

/-- The digits up to radix 36. -/
def alphabet : List (BitVec 8) :=
  ['0', '1', '2', '3', '4', '5', '6', '7', '8', '9',
    'A', 'B', 'C', 'D', 'E', 'F', 'G', 'H', 'I', 'J', 'K', 'L', 'M',
    'N', 'O', 'P', 'Q', 'R', 'S', 'T', 'U', 'V', 'W', 'X', 'Y', 'Z'].map fun c => BitVec.ofNat 8 c.toNat

/-- The value of a character, if it is a digit. -/
def digitValue (c : BitVec 8) : Option ℕ := alphabet.idxOf? c

theorem alphabet_letterDigit {d : ℕ} (h : d < 36) : alphabet[d]? = some (letterDigit d) := by
  interval_cases d <;> rfl

theorem digitValue_letterDigit {d : ℕ} (h : d < 36) : digitValue (letterDigit d) = some d := by
  interval_cases d <;> decide

/-- The canonical numeral of `value`: nothing but digits, no leading zero, and it reads back as `value`. -/
structure Canonical (radix value : ℕ) (text : List (BitVec 8)) : Prop where
  digits : ∀ c ∈ text, c ∈ alphabet.take radix
  ne_nil : text ≠ []
  leading : value ≠ 0 → text.head? ≠ some 0x30
  zero : value = 0 → text = [0x30]
  reads : (text.mapM digitValue).map (Numeral.value radix) = some value

theorem mapM_digitValue {l : List ℕ} (h : ∀ d ∈ l, d < 36) : (l.map letterDigit).mapM digitValue = some l := by
  induction l with
  | nil => rfl
  | cons d l ih =>
    have hrest := ih fun e he => h e (List.mem_cons_of_mem d he)
    rw [List.map_cons, List.mapM_cons, digitValue_letterDigit (h d List.mem_cons_self), hrest]
    rfl

theorem numeralText_canonical {radix : ℕ} (hradix : 2 ≤ radix) (hmax : radix ≤ 36) (value : ℕ) :
    Canonical radix value (numeralText radix value) where
  digits c hc := by
    obtain ⟨d, hlt, rfl⟩ := mem_numeralText hradix hc
    refine List.mem_of_getElem? (i := d) ?_
    rw [List.getElem?_take_of_lt hlt, alphabet_letterDigit (hlt.trans_le hmax)]
  ne_nil h := numeral_ne_nil radix value (List.map_eq_nil_iff.mp h)
  leading hvalue h := by
    rw [numeralText, List.head?_map, Option.map_eq_some_iff] at h
    obtain ⟨d, hhead, hchar⟩ := h
    have hlt : d < radix := lt_of_mem_numeral hradix (List.mem_of_mem_head? hhead)
    have hd : some d = some 0 := by
      rw [← digitValue_letterDigit (hlt.trans_le hmax), hchar]
      decide
    rw [Option.some.inj hd] at hhead
    exact head_numeral hvalue hhead
  zero h := by
    rw [h]
    rfl
  reads := by
    rw [numeralText, mapM_digitValue fun d hd => (lt_of_mem_numeral hradix hd).trans_le hmax, Option.map_some,
      value_numeral]

/-- **`_itoa` writes the canonical numeral**, by whichever loop, and within its buffers. -/
theorem itoa_canonical (value : BitVec 64) (radix : ℕ) (hradix : 2 ≤ radix) (hmax : radix ≤ 36) :
    ∃ text, itoa 67 value radix = some (text ++ [0]) ∧ Canonical radix value.toNat text ∧
      (value ≠ 0 → itoaLoopGeneral radix value.toNat = some (text ++ [0])) := by
  have hpow : value.toNat < radix ^ 64 := value.isLt.trans_le (Nat.pow_le_pow_left hradix 64)
  have hlen : (numeralText radix value.toNat).length < 67 := by
    have hle := length_numeral_le hradix (by decide) hpow
    rw [length_numeralText]
    omega
  refine ⟨numeralText radix value.toNat, itoa_eq hradix value hlen, numeralText_canonical hradix hmax value.toNat, ?_⟩
  intro hvalue
  have hn : value.toNat ≠ 0 := fun h => hvalue (BitVec.eq_of_toNat_eq h)
  exact itoaLoop_eq hradix (fun _ => rfl) (fun _ => rfl) hn value.isLt

theorem itoa_canonical_hex : ∃ text, itoa 67 0xBEEF 16 = some (text ++ [0]) ∧ Canonical 16 0xBEEF text ∧
    ((0xBEEF : BitVec 64) ≠ 0 → itoaLoopGeneral 16 0xBEEF = some (text ++ [0])) :=
  itoa_canonical 0xBEEF 16 (by decide) (by decide)

/-- The largest value has 64 digits in radix 2. -/
example : (numeralText 2 (2 ^ 64 - 1)).length = 64 := by
  decide +kernel

end Borgos.Libc
