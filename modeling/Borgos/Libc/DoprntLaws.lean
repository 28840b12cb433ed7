import Borgos.Libc.Doprnt

/-! # What `_doprnt` outputs

A format is a list of segments: characters, specifications, and stray `%`. Each adds characters of its own to the
output, which go to the output function one after another.
-/
namespace Borgos.Libc
open Borgos.Foundations Numeral
set_option autoImplicit false

/-! ## Specifications -/

inductive Flag where
  | minus
  | hash
  | zero
deriving DecidableEq

inductive Width where
  | none
  | literal (w : ℕ) (pos : 0 < w)
  | star
deriving DecidableEq

inductive Conv where
  | d
  | i
  | u
  | x
  | s
deriving DecidableEq

def Flag.char : Flag → Byte
  | minus => ch '-'
  | hash => ch '#'
  | zero => ch '0'

def Width.text : Width → List Byte
  | none => []
  | literal w _ => numeralText 10 w
  | star => [ch '*']

def ValueSize.text : ValueSize → List Byte
  | shortShort => [ch 'h', ch 'h']
  | short => [ch 'h']
  | normal => []
  | long => [ch 'l']

def Conv.char : Conv → Byte
  | d => ch 'd'
  | i => ch 'i'
  | u => ch 'u'
  | x => ch 'x'
  | s => ch 's'

structure Spec where
  flags : List Flag
  width : Width
  size : ValueSize
  conv : Conv
deriving DecidableEq

namespace Spec
variable (p : Spec)

/-- The specification, without its `%`. -/
def text : List Byte := p.flags.map Flag.char ++ (p.width.text ++ (p.size.text ++ [p.conv.char]))

def starArgs : ℕ := if p.width = .star then 1 else 0

def argsUsed : ℕ := p.starArgs + 1

end Spec

/-- Numbers that are an `int`. -/
def IsInt (n : ℕ) : Prop := n < 2147483648

instance (n : ℕ) : Decidable (IsInt n) := inferInstanceAs (Decidable (_ < _))

theorem int32_of_isInt {n : ℕ} (h : IsInt n) : int32 n = n := by
  unfold IsInt at h
  simp only [int32, Int.bmod_def]
  omega

/-- A slot read as an `int`. -/
def intArg (arg : BitVec 64) : ℤ := (arg.setWidth 32).toInt

/-! ## What a specification is scanned as -/

section Sections
variable (a : Arguments) (ap : ℕ) (p : Spec)

def Flag.apply (s : Section) : Flag → Section
  | minus => { s with leftjust := true }
  | hash => { s with hashtype := true }
  | zero => { s with padChar := ch '0' }

def flagsSection (l : List Flag) (s : Section) : Section := l.foldl Flag.apply s

def Width.apply (star : ℤ) (s : Section) : Width → Section
  | none => { s with fmin := 0 }
  | literal w _ => { s with fmin := int32 w }
  | Width.star => if star < 0 then { s with fmin := int32 (-star), leftjust := true } else { s with fmin := star }

def blankPadded (s : Section) : Section := if s.leftjust then { s with padChar := ch ' ' } else s

def Spec.scanned (star : ℤ) : Section :=
  { blankPadded (Width.apply star (flagsSection p.flags Section.start) p.width) with valueSize := p.size }

/-- The width, as an `int`. -/
def Width.value (star : ℤ) : Width → ℤ
  | none => 0
  | literal w _ => int32 w
  | Width.star => if star < 0 then int32 (-star) else star

/-- A negative width asks for left-justification. -/
def Width.negative (star : ℤ) (width : Width) : Bool := decide (width = Width.star ∧ star < 0)

theorem Width.apply_star (star : ℤ) (s : Section) : Width.apply star s Width.star =
    { s with fmin := Width.value star Width.star, leftjust := s.leftjust || Width.negative star Width.star } := by
  by_cases h : star < 0
  · simp [Width.apply, Width.value, Width.negative, h]
  · simp [Width.apply, Width.value, Width.negative, h]

theorem Width.apply_literal (star : ℤ) (s : Section) (w : ℕ) (pos : 0 < w) : Width.apply star s (literal w pos) =
    { s with fmin := int32 w, leftjust := s.leftjust || Width.negative star (literal w pos) } := by
  simp [Width.apply, Width.negative]

theorem Width.apply_eq (star : ℤ) (s : Section) (width : Width) : Width.apply star s width =
    { s with fmin := Width.value star width, leftjust := s.leftjust || Width.negative star width } := by
  cases width with
  | none => simp [Width.apply, Width.value, Width.negative]
  | literal w pos => exact Width.apply_literal star s w pos
  | star => exact Width.apply_star star s

theorem flagsSection_eq (l : List Flag) : ∀ s : Section, flagsSection l s =
    { s with
      leftjust := s.leftjust || decide (.minus ∈ l)
      hashtype := s.hashtype || decide (.hash ∈ l)
      padChar := if .zero ∈ l then ch '0' else s.padChar } := by
  induction l with
  | nil => simp [flagsSection]
  | cons f l ih =>
    intro s
    rw [flagsSection, List.foldl_cons]
    refine (ih _).trans ?_
    cases f <;> simp [Flag.apply]

/-- What is scanned, field by field. -/
theorem Spec.scanned_eq (p : Spec) (star : ℤ) : p.scanned star =
    { leftjust := decide (.minus ∈ p.flags) || Width.negative star p.width
      hashtype := decide (.hash ∈ p.flags)
      padChar := if decide (.minus ∈ p.flags) || Width.negative star p.width then ch ' '
        else if .zero ∈ p.flags then ch '0' else ch ' '
      fmin := Width.value star p.width
      valueSize := p.size } := by
  unfold Spec.scanned blankPadded
  rw [Width.apply_eq, flagsSection_eq]
  simp only [Section.start, Bool.false_or]
  split_ifs
  · rfl
  · rfl
  · rfl

/-- The digits of a number, as the local buffer holds them. -/
def digitsOf (value : BitVec 64) (base : ℕ) : List Byte := numeralText base value.toNat

def signedConversion (n : ℤ) : Conversion :=
  ⟨decide (n < 0), false, digitsOf (if n < 0 then -BitVec.ofInt 64 n else BitVec.ofInt 64 n) 10⟩

def signedValue (valueSize : ValueSize) (arg : BitVec 64) : ℤ := if valueSize = .long then arg.toInt else intArg arg

def unsignedValue (valueSize : ValueSize) (arg : BitVec 64) : BitVec 64 :=
  if valueSize = .long then arg else (arg.setWidth 32).setWidth 64

def Spec.conversion (arg : BitVec 64) : Conversion :=
  match p.conv with
  | .s => ⟨false, false, if arg = 0 then nullText else (a.strings arg).chars⟩
  | .d => signedConversion (signedValue p.size arg)
  | .i => signedConversion (signedValue p.size arg)
  | .u => ⟨false, false, digitsOf (unsignedValue p.size arg) 10⟩
  | .x => ⟨false, decide (.hash ∈ p.flags), digitsOf (unsignedValue p.size arg) 16⟩

end Sections

/-! ## The characters of a field -/

def lenPadding (s : Section) (cv : Conversion) : ℤ :=
  if int32 (int32 cv.str.length + if cv.sign then 1 else 0) < s.fmin then
    int32 (s.fmin - int32 (int32 cv.str.length + if cv.sign then 1 else 0))
  else 0

def zeroPadded (s : Section) : Bool := !s.leftjust && s.padChar = ch '0'

def fieldText (s : Section) (cv : Conversion) : List Byte :=
  (if cv.hasPrefix then [ch '0', ch 'x'] else []) ++
  ((if !s.leftjust then List.replicate (if zeroPadded s then 0 else lenPadding s cv).toNat s.padChar else []) ++
  ((if cv.sign then [ch '-'] else []) ++
  (List.replicate (if zeroPadded s then lenPadding s cv else 0).toNat (ch '0') ++
  cv.str.take (int32 cv.str.length).toNat)))

/-- The characters of the sign and the digits. -/
def Conversion.length (cv : Conversion) : ℕ := cv.str.length + if cv.sign then 1 else 0

theorem lenPadding_eq {s : Section} {cv : Conversion} (hlen : IsInt cv.length) {w : ℕ} (hw : IsInt w)
    (hfmin : s.fmin = w) :
    lenPadding s cv = (w - cv.length : ℕ) := by
  have hstr : IsInt cv.str.length := Nat.lt_of_le_of_lt (Nat.le_add_right _ _) hlen
  have hsum : (cv.str.length : ℤ) + (if cv.sign then 1 else 0) = (cv.length : ℕ) := by
    unfold Conversion.length
    push_cast
    rfl
  unfold lenPadding
  rw [int32_of_isInt hstr, hsum, int32_of_isInt hlen, hfmin]
  split_ifs with h
  · have hle : cv.length ≤ w := by omega
    rw [← Nat.cast_sub hle]
    exact int32_of_isInt (Nat.lt_of_le_of_lt (Nat.sub_le _ _) hw)
  · rw [Nat.sub_eq_zero_of_le (by omega)]
    rfl

/-- The field, where no `int` of it wraps around. -/
theorem fieldText_eq {s : Section} {cv : Conversion} (hlen : IsInt cv.length) {w : ℕ} (hw : IsInt w)
    (hfmin : s.fmin = w) :
    fieldText s cv = (if cv.hasPrefix then [ch '0', ch 'x'] else []) ++
      ((if !s.leftjust then List.replicate (if zeroPadded s then 0 else w - cv.length) s.padChar else []) ++
      ((if cv.sign then [ch '-'] else []) ++
      (List.replicate (if zeroPadded s then w - cv.length else 0) (ch '0') ++ cv.str))) := by
  have hstr : IsInt cv.str.length := Nat.lt_of_le_of_lt (Nat.le_add_right _ _) hlen
  unfold fieldText
  rw [lenPadding_eq hlen hw hfmin, int32_of_isInt hstr, Int.toNat_natCast, List.take_length]
  split_ifs <;> rfl

section Output
variable {ω : Type} {caller : Caller ω}

theorem putChars_append (l l' : List Byte) :
    putChars caller (l ++ l') = putChars caller l >>= fun _ => putChars caller l' :=
  Body.forEach_append (putChar caller) l l'

theorem putChars_singleton (c : Byte) : putChars caller [c] = putChar caller c := Body.bind_pure_unit (putChar caller c)

/-- An output that is skipped outputs nothing. -/
theorem skip_eq {α : Type} (b : Bool) (l : List Byte) (f : Unit → DoprntBody ω α) :
    (if b then putChars caller l >>= f else f ()) = putChars caller (if b then l else []) >>= f := by
  cases b with
  | true => rfl
  | false => rfl

/-- The output loops are one loop over the field. -/
theorem outputField_eq (s : Section) (cv : Conversion) :
    outputField caller s cv = putChars caller (fieldText s cv) := by
  unfold outputField
  simp only [← putChars_singleton, putTimes]
  unfold fieldText
  rw [putChars_append, putChars_append, putChars_append, putChars_append]
  simp only [skip_eq]
  rfl

/-- The calls of the output function for a list of characters: the value that `_doprnt` returns, with `count` calls made
before, and the state after them. -/
def callPutc (caller : Caller ω) : List Byte → ℤ → ω → ℤ × ω
  | [], count, out => (count, out)
  | c :: l, count, out =>
    if (caller.putcFunc c.toInt out).1 < 0 then caller.putcFunc c.toInt out
    else callPutc caller l (int32 (count + 1)) (caller.putcFunc c.toInt out).2

/-- The characters are output, or a value below 0 is returned. -/
theorem putChars_cases (l : List Byte) : ∀ s : DoprntState ω,
    (∃ t, putChars caller l s = .next () t ∧ t.ap = s.ap ∧
      ∀ l', callPutc caller (l ++ l') s.charcount s.out = callPutc caller l' t.charcount t.out) ∨
    ∃ r t, putChars caller l s = .ret r t ∧ ∀ l', callPutc caller (l ++ l') s.charcount s.out = (r, t.out) := by
  induction l with
  | nil => exact fun s => .inl ⟨s, rfl, rfl, fun l' => rfl⟩
  | cons c l ih =>
    intro s
    have hcons : putChars caller (c :: l) s = (putChar caller c s).andThen fun _ => putChars caller l := rfl
    obtain ⟨r, hr⟩ : ∃ r, r = caller.putcFunc c.toInt s.out := ⟨_, rfl⟩
    by_cases hneg : r.1 < 0
    · right
      have hput : putChar caller c s = .ret r.1 { s with out := r.2 } := by
        simp [putChar, ← hr, hneg]
      refine ⟨r.1, { s with out := r.2 }, by rw [hcons, hput, Exit.andThen_ret], ?_⟩
      intro l'
      rw [List.cons_append, callPutc, ← hr, if_pos hneg]
    · have hput : putChar caller c s = .next () { s with out := r.2, charcount := int32 (s.charcount + 1) } := by
        simp [putChar, ← hr, hneg]
      have hcall : ∀ l', callPutc caller (c :: l ++ l') s.charcount s.out =
          callPutc caller (l ++ l') (int32 (s.charcount + 1)) r.2 := by
        intro l'
        rw [List.cons_append, callPutc, ← hr, if_neg hneg]
      rw [hcons, hput, Exit.andThen_next]
      rcases ih { s with out := r.2, charcount := int32 (s.charcount + 1) } with ⟨t, ht, hap, hl⟩ | ⟨r', t, ht, hl⟩
      · exact .inl ⟨t, ht, hap, fun l' => (hcall l').trans (hl l')⟩
      · exact .inr ⟨r', t, ht, fun l' => (hcall l').trans (hl l')⟩

end Output

/-! ## Scanning a specification -/

/-- A character that ends the flags and the width. -/
def Plain (c : Byte) : Prop := c ≠ ch '-' ∧ c ≠ ch '#' ∧ c ≠ ch '0' ∧ c ≠ ch '*' ∧ isDecimal c = false

instance (c : Byte) : Decidable (Plain c) := inferInstanceAs (Decidable (_ ∧ _))

section Scanning
variable {rest : List Byte}

theorem scanFlags_map (l : List Flag) : ∀ s : Section,
    scanFlags (l.map Flag.char ++ rest) s = scanFlags rest (flagsSection l s) := by
  induction l with
  | nil => exact fun s => rfl
  | cons f l ih =>
    intro s
    have hstep : scanFlags (f.char :: (l.map Flag.char ++ rest)) s =
        scanFlags (l.map Flag.char ++ rest) (Flag.apply s f) := by
      cases f with
      | minus => rfl
      | hash => rfl
      | zero => rfl
    rw [List.map_cons, List.cons_append, hstep, ih]
    rfl

theorem scanFlags_stop {c : Byte} (hminus : c ≠ ch '-') (hhash : c ≠ ch '#') (hzero : c ≠ ch '0') (s : Section) :
    scanFlags (c :: rest) s = some (s, c :: rest) := by
  rw [scanFlags, if_neg hminus, if_neg hhash, if_neg hzero]

theorem int32_step (m : ℤ) (d : ℤ) : int32 (int32 m * 10 + d) = int32 (m * 10 + d) := by
  simp only [int32, Int.bmod_def]
  omega

theorem scanWidth_map (rest : List Byte) (l : List ℕ) : ∀ m : ℕ, (∀ d ∈ l, d < 10) →
    scanWidth (l.map letterDigit ++ rest) (int32 m) =
      scanWidth rest (int32 (l.foldl (fun acc d => acc * 10 + d) m : ℕ)) := by
  induction l with
  | nil => exact fun m _ => rfl
  | cons d l ih =>
    intro m hl
    have hd : d < 10 := hl d List.mem_cons_self
    have hdecimal : isDecimal (letterDigit d) = true := by
      interval_cases d <;> rfl
    have hvalue : (letterDigit d).toNat = 0x30 + d := by
      interval_cases d <;> rfl
    rw [List.map_cons, List.cons_append, scanWidth, if_pos hdecimal, hvalue, List.foldl_cons]
    have hfmin : int32 (int32 m * 10 + (((0x30 + d : ℕ) : ℤ) - 0x30)) = int32 ((m * 10 + d : ℕ) : ℤ) := by
      rw [int32_step]
      congr 1
      push_cast
      ring
    rw [hfmin]
    exact ih (m * 10 + d) fun e he => hl e (List.mem_cons_of_mem d he)

theorem scanWidth_stop {c : Byte} (h : isDecimal c = false) (fmin : ℤ) :
    scanWidth (c :: rest) fmin = some (fmin, c :: rest) := by
  rw [scanWidth, h]
  rfl

theorem scanWidth_numeral (w : ℕ) {c : Byte} (h : isDecimal c = false) :
    scanWidth (numeralText 10 w ++ c :: rest) 0 = some (int32 w, c :: rest) := by
  have hscan := scanWidth_map (c :: rest) (numeral 10 w) 0 fun d hd => lt_of_mem_numeral (by decide) hd
  have hvalue : (numeral 10 w).foldl (fun acc d => acc * 10 + d) 0 = w := value_numeral 10 w
  rw [hvalue, scanWidth_stop h] at hscan
  exact hscan

theorem scanSize_text (size : ValueSize) (conv : Conv) :
    scanSize (size.text ++ conv.char :: rest) = some (size, conv.char :: rest) := by
  cases size <;> cases conv <;> rfl

/-- What follows the width is the length modifier or the conversion specifier. -/
theorem head_plain (rest : List Byte) (size : ValueSize) (conv : Conv) :
    ∃ c t, size.text ++ conv.char :: rest = c :: t ∧ Plain c := by
  cases size with
  | shortShort => exact ⟨ch 'h', ch 'h' :: conv.char :: rest, rfl, by decide⟩
  | short => exact ⟨ch 'h', conv.char :: rest, rfl, by decide⟩
  | normal => exact ⟨conv.char, rest, rfl, by cases conv <;> decide⟩
  | long => exact ⟨ch 'l', conv.char :: rest, rfl, by decide⟩

/-- A width begins with a digit that is not 0. -/
theorem head_literal {w : ℕ} (h : 0 < w) : ∃ d t, numeralText 10 w = letterDigit d :: t ∧ 0 < d ∧ d < 10 := by
  obtain ⟨d, l, hl⟩ := List.exists_cons_of_ne_nil (numeral_ne_nil 10 w)
  have hlt : d < 10 := lt_of_mem_numeral (n := w) (by decide) (by rw [hl]; exact List.mem_cons_self)
  have hhead : (numeral 10 w).head? ≠ some 0 := head_numeral (Nat.ne_of_gt h)
  refine ⟨d, l.map letterDigit, by rw [numeralText, hl, List.map_cons], ?_, hlt⟩
  apply Nat.pos_of_ne_zero
  rintro rfl
  rw [hl] at hhead
  exact hhead rfl

end Scanning
end Borgos.Libc
