import Borgos.Libc.DoprntScan

/-! # The fields of C99

What `printf` outputs for a specification, with upper-case digits, and where `_doprnt` does the same.
-/
namespace Borgos.Libc
open Borgos.Foundations Numeral
set_option autoImplicit false

/-! ## The reference -/

/-- A number to be printed. -/
structure Number where
  neg : Bool
  base : ℕ
  magnitude : ℕ
deriving DecidableEq

namespace Number

def digits (n : Number) : List Byte := numeralText n.base n.magnitude

def sign (n : Number) : List Byte := if n.neg then [ch '-'] else []

/-- The number of characters, without a prefix. -/
def length (n : Number) : ℕ := n.sign.length + n.digits.length

end Number

/-- The bits of the type that a length modifier names. -/
def ValueSize.bits : ValueSize → ℕ
  | shortShort => 8
  | short => 16
  | normal => 32
  | long => 64

section Reference
variable (a : Arguments) (ap : ℕ) (p : Spec)

/-- The number that is converted, with the argument as a signed and as an unsigned one. -/
def Conv.number (signed : ℤ) (unsigned : ℕ) : Conv → Number
  | d => ⟨decide (signed < 0), 10, signed.natAbs⟩
  | i => ⟨decide (signed < 0), 10, signed.natAbs⟩
  | u => ⟨false, 10, unsigned⟩
  | x => ⟨false, 16, unsigned⟩
  | s => ⟨false, 10, unsigned⟩

/-- The argument as its type has it. -/
def Spec.c99Number (arg : BitVec 64) : Number :=
  p.conv.number (arg.setWidth p.size.bits).toInt (arg.setWidth p.size.bits).toNat

/-- The width, where there is no argument below that of `-(2^31 - 1)`. -/
def Width.c99 (star : ℤ) : Width → ℕ
  | none => 0
  | literal w _ => w
  | Width.star => star.natAbs

def Spec.leftjust (star : ℤ) : Bool := decide (.minus ∈ p.flags) || Width.negative star p.width

def Spec.zeroFlag : Bool := decide (.zero ∈ p.flags)

/-- A conversion to hexadecimal digits in its alternative form. -/
def Spec.alternative : Bool := decide (p.conv = .x) && decide (.hash ∈ p.flags)

/-- Blanks before the head, or behind the digits, or zeroes between them. -/
def c99Layout (left zero : Bool) (w : ℕ) (head body : List Byte) : List Byte :=
  if left then head ++ (body ++ List.replicate (w - (head.length + body.length)) (ch ' '))
  else if zero then head ++ (List.replicate (w - (head.length + body.length)) (ch '0') ++ body)
  else List.replicate (w - (head.length + body.length)) (ch ' ') ++ (head ++ body)

def hexPrefix : List Byte := [ch '0', ch 'x']

def stringArg (arg : BitVec 64) : List Byte := if arg = 0 then nullText else (a.strings arg).chars

/-- What C99 prescribes for a specification, its arguments from slot `ap` on. -/
def Spec.c99Field : List Byte :=
  let star := intArg (a.args ap)
  let arg := a.args (ap + p.starArgs)
  if p.conv = .s then c99Layout (p.leftjust star) false (p.width.c99 star) [] (stringArg a arg)
  else
    let n := p.c99Number arg
    let head := if p.alternative && decide (n.magnitude ≠ 0) then hexPrefix else n.sign
    c99Layout (p.leftjust star) p.zeroFlag (p.width.c99 star) head n.digits

/-- The argument as `_doprnt` has it. -/
def Spec.wholeNumber (arg : BitVec 64) : Number :=
  p.conv.number (signedValue p.size arg) (unsignedValue p.size arg).toNat

/-- A field without a prefix that `_doprnt` lays out as C99 does: not a left-justified one that needs blanks. -/
def PlainRight (left : Bool) (w len : ℕ) : Prop := left = false ∨ w ≤ len

/-- The same with the prefix `0x`, which `_doprnt` does not count and puts before blanks. -/
def PrefixRight (left : Bool) (w len : ℕ) : Prop := w ≤ len ∨ (left = true ∧ w ≤ len + 2)

/-- A string: one that is not padded with blanks on its right, and not with zeroes. -/
def StringRight (left zero : Bool) (w len : ℕ) : Prop := IsInt len ∧ (w ≤ len ∨ (left = false ∧ zero = false))

/-- Where the field is the one of C99. An `h` or `hh` argument is one of its type. -/
def Spec.FieldRight : Prop :=
  let star := intArg (a.args ap)
  let arg := a.args (ap + p.starArgs)
  if p.conv = .s then StringRight (p.leftjust star) p.zeroFlag (p.width.c99 star) (stringArg a arg).length
  else
    let n := p.wholeNumber arg
    n = p.c99Number arg ∧
      if p.alternative then n.magnitude ≠ 0 ∧ PrefixRight (p.leftjust star) (p.width.c99 star) n.length
      else PlainRight (p.leftjust star) (p.width.c99 star) n.length

end Reference

/-! ## Layouts -/

/-- The layout of `_doprnt`. -/
def fieldLayout (left zero : Bool) (w : ℕ) (front sign body : List Byte) : List Byte :=
  front ++
    if left then sign ++ body
    else if zero then sign ++ (List.replicate (w - (sign.length + body.length)) (ch '0') ++ body)
    else List.replicate (w - (sign.length + body.length)) (ch ' ') ++ (sign ++ body)

section Layouts
variable {left zero : Bool} {w k : ℕ} {head body : List Byte}

theorem pad_right_iff {c : Byte} (l : List Byte) : l = l ++ List.replicate k c ↔ k = 0 := by
  simp

/-- Two paddings are the same one only where there is none. -/
theorem pad_left_iff {c d : Byte} (hne : c ≠ d) (l : List Byte) :
    List.replicate k c ++ l = List.replicate k d ++ l ↔ k = 0 := by
  cases k with
  | zero => simp
  | succ k => simp [List.replicate_succ, hne]

theorem plain_layout_iff : fieldLayout left zero w [] head body = c99Layout left zero w head body ↔
    PlainRight left w (head.length + body.length) := by
  unfold fieldLayout c99Layout PlainRight
  rw [List.nil_append]
  cases left with
  | true =>
    simp only [if_true]
    rw [← List.append_assoc, pad_right_iff, Nat.sub_eq_zero_iff_le]
    simp
  | false => simp

theorem string_layout_iff : fieldLayout left zero w [] [] body = c99Layout left false w [] body ↔
    w ≤ body.length ∨ (left = false ∧ zero = false) := by
  unfold fieldLayout c99Layout
  cases left with
  | true => simp [Nat.sub_eq_zero_iff_le]
  | false =>
    cases zero with
    | true =>
      have hne : ch '0' ≠ ch ' ' := by decide
      simp only [List.nil_append, List.length_nil, Nat.zero_add, if_true, Bool.false_eq_true, if_false]
      rw [pad_left_iff hne, Nat.sub_eq_zero_iff_le]
      simp
    | false => simp

theorem length_fieldLayout (front sign : List Byte) : (fieldLayout left zero w front sign body).length =
    front.length + if left then sign.length + body.length else max w (sign.length + body.length) := by
  unfold fieldLayout
  cases left with
  | true => simp
  | false =>
    cases zero with
    | true =>
      simp
      omega
    | false =>
      simp
      omega

theorem length_c99Layout : (c99Layout left zero w head body).length = max w (head.length + body.length) := by
  unfold c99Layout
  cases left with
  | true =>
    simp
    omega
  | false =>
    cases zero with
    | true =>
      simp
      omega
    | false =>
      simp
      omega

theorem prefix_layout_iff : fieldLayout left zero w hexPrefix [] body = c99Layout left zero w hexPrefix body ↔
    PrefixRight left w body.length := by
  have hprefix : hexPrefix.length = 2 := rfl
  constructor
  · intro h
    have hlen := congrArg List.length h
    rw [length_fieldLayout, length_c99Layout, hprefix] at hlen
    unfold PrefixRight
    cases left with
    | true =>
      simp at hlen ⊢
      omega
    | false =>
      simp at hlen ⊢
      omega
  · intro h
    have hpad : w - (hexPrefix.length + body.length) = 0 := by
      rcases h with h | ⟨-, h⟩
      · omega
      · omega
    unfold fieldLayout c99Layout
    rw [hpad]
    cases left with
    | true => simp
    | false =>
      have hle : w ≤ body.length := by
        simpa [PrefixRight] using h
      have hpad' : w - body.length = 0 := Nat.sub_eq_zero_of_le hle
      cases zero <;> simp [hpad']

end Layouts

/-! ## Reading a field -/

/-- The digits in a text. -/
def digitsIn (l : List Byte) : List ℕ := l.filterMap digitValue

theorem digitsIn_append (l l' : List Byte) : digitsIn (l ++ l') = digitsIn l ++ digitsIn l' := by
  simp [digitsIn]

theorem digitsIn_blanks (k : ℕ) : digitsIn (List.replicate k (ch ' ')) = [] := by
  have hblank : digitValue (ch ' ') = none := by decide
  simp [digitsIn, hblank]

theorem digitsIn_zeroes (k : ℕ) : digitsIn (List.replicate k (ch '0')) = List.replicate k 0 := by
  have hzero : digitValue (ch '0') = some 0 := by decide
  simp [digitsIn, hzero]

/-- A text without a sign whose digits are zeroes. -/
structure Filler (l : List Byte) : Prop where
  sign : ch '-' ∉ l
  digits : ∃ k, digitsIn l = List.replicate k 0

theorem filler_blanks (k : ℕ) : Filler (List.replicate k (ch ' ')) where
  sign := by simp [ch]
  digits := ⟨0, digitsIn_blanks k⟩

theorem filler_zeroes (k : ℕ) : Filler (List.replicate k (ch '0')) where
  sign := by simp [ch]
  digits := ⟨k, digitsIn_zeroes k⟩

theorem filler_nil : Filler [] := filler_blanks 0

theorem filler_hexPrefix : Filler hexPrefix where
  sign := by decide
  digits := ⟨1, rfl⟩

/-- A text that shows the number: leading zeroes do not count. -/
structure Shows (n : Number) (l : List Byte) : Prop where
  sign : ch '-' ∈ l ↔ n.neg = true
  magnitude : ∃ k, digitsIn l = List.replicate k 0 ++ numeral n.base n.magnitude

theorem value_zeroes (base k : ℕ) (l : List ℕ) : value base (List.replicate k 0 ++ l) = value base l := by
  induction k with
  | zero => rfl
  | succ k ih =>
    rw [List.replicate_succ, List.cons_append, value, List.foldl_cons]
    simpa [value] using ih

namespace Shows
variable {n n' : Number} {l f : List Byte}

/-- A text shows one number of a base. -/
theorem unique (h : Shows n l) (h' : Shows n' l) (hbase : n.base = n'.base) : n = n' := by
  obtain ⟨k, hk⟩ := h.magnitude
  obtain ⟨k', hk'⟩ := h'.magnitude
  have hvalue := congrArg (value n.base) (hk.symm.trans hk')
  rw [value_zeroes, value_zeroes, value_numeral, hbase, value_numeral] at hvalue
  have hneg : n.neg = n'.neg := Bool.eq_iff_iff.mpr (h.sign.symm.trans h'.sign)
  cases n
  cases n'
  simp_all

theorem filler_append (hf : Filler f) (h : Shows n l) : Shows n (f ++ l) where
  sign := by simp [hf.sign, h.sign]
  magnitude := by
    obtain ⟨j, hj⟩ := hf.digits
    obtain ⟨k, hk⟩ := h.magnitude
    refine ⟨j + k, ?_⟩
    rw [digitsIn_append, hj, hk, List.replicate_add, List.append_assoc]

theorem append_blanks (h : Shows n l) (k : ℕ) : Shows n (l ++ List.replicate k (ch ' ')) where
  sign := by
    have hblank := (filler_blanks k).sign
    simp only [List.mem_append, hblank, or_false, h.sign]
  magnitude := by
    rw [digitsIn_append, digitsIn_blanks, List.append_nil]
    exact h.magnitude

end Shows

section Showing
variable {n : Number} (left zero : Bool) (w : ℕ) {front : List Byte}

theorem digitsIn_digits (hbase : 2 ≤ n.base) (hmax : n.base ≤ 36) : digitsIn n.digits = numeral n.base n.magnitude := by
  have hread : (n.digits.filterMap digitValue) = (numeral n.base n.magnitude).filterMap some := by
    rw [Number.digits, numeralText, List.filterMap_map]
    exact List.filterMap_congr fun d hd => digitValue_letterDigit ((lt_of_mem_numeral hbase hd).trans_le hmax)
  rw [digitsIn, hread, List.filterMap_some]

theorem minus_not_mem_digits (hbase : 2 ≤ n.base) (hmax : n.base ≤ 36) : ch '-' ∉ n.digits := by
  intro hmem
  obtain ⟨d, hd, hchar⟩ := mem_numeralText hbase hmem
  have hlt : d < 36 := hd.trans_le hmax
  interval_cases d <;> exact absurd hchar (by decide)

/-- The sign, zeroes and the digits. -/
theorem shows_padded (hbase : 2 ≤ n.base) (hmax : n.base ≤ 36) (k : ℕ) :
    Shows n (n.sign ++ (List.replicate k (ch '0') ++ n.digits)) where
  sign := by
    have hdigits := minus_not_mem_digits hbase hmax
    have hzeroes := (filler_zeroes k).sign
    have hsign : ch '-' ∈ n.sign ↔ n.neg = true := by
      unfold Number.sign
      cases n.neg <;> simp
    simp only [List.mem_append, hdigits, hzeroes, or_false, hsign]
  magnitude := by
    have hsign : digitsIn n.sign = [] := by
      unfold Number.sign
      cases n.neg <;> rfl
    exact ⟨k, by rw [digitsIn_append, digitsIn_append, hsign, digitsIn_zeroes, digitsIn_digits hbase hmax]; rfl⟩

theorem shows_number (hbase : 2 ≤ n.base) (hmax : n.base ≤ 36) : Shows n (n.sign ++ n.digits) :=
  shows_padded hbase hmax 0

theorem shows_fieldLayout (hbase : 2 ≤ n.base) (hmax : n.base ≤ 36) (hfront : Filler front) :
    Shows n (fieldLayout left zero w front n.sign n.digits) := by
  apply Shows.filler_append hfront
  split_ifs
  · exact shows_number hbase hmax
  · exact shows_padded hbase hmax _
  · exact (shows_number hbase hmax).filler_append (filler_blanks _)

theorem shows_c99Layout (hbase : 2 ≤ n.base) (hmax : n.base ≤ 36) (hfront : Filler front) :
    Shows n (c99Layout left zero w (front ++ n.sign) n.digits) := by
  unfold c99Layout
  split_ifs
  · rw [← List.append_assoc, List.append_assoc front]
    exact ((shows_number hbase hmax).filler_append hfront).append_blanks _
  · rw [List.append_assoc]
    exact (shows_padded hbase hmax _).filler_append hfront
  · rw [List.append_assoc]
    exact ((shows_number hbase hmax).filler_append hfront).filler_append (filler_blanks _)

end Showing
end Borgos.Libc
