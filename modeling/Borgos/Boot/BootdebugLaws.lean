import Borgos.Boot.Bootdebug
import Borgos.Libc.FieldRight

/-! # The two formatters

`bootdebug_printf` and `_doprnt` on integers.
-/
namespace Borgos.Boot
open Borgos.Foundations FlatMemory Numeral Libc
set_option autoImplicit false

/-! ## `bootdebug_itoa` -/

section Itoa
variable {divisor : ℕ}

/-- The loop stores the digits, the last one first. -/
theorem divideLoop_eq (hdivisor : 2 ≤ divisor) (room : ℕ) : ∀ (ud : ℕ) (buf : ℕ → Byte) (p : ℕ),
    (numeral divisor ud).length ≤ room →
    divideLoop divisor room ud buf p = some (store buf p ((numeral divisor ud).reverse.map remainderChar),
      p + (numeral divisor ud).length) := by
  induction room with
  | zero =>
    intro ud buf p hlen
    exact absurd (List.length_eq_zero_iff.mp (Nat.le_zero.mp hlen)) (numeral_ne_nil divisor ud)
  | succ room ih =>
    intro ud buf p hlen
    rw [divideLoop, numeral_step hdivisor]
    rw [numeral_step hdivisor] at hlen
    by_cases hq : ud / divisor = 0
    · simp [hq, store_cons]
    · rw [if_neg hq, List.length_append] at hlen
      have hrun := ih (ud / divisor) (Function.update buf p (remainderChar (ud % divisor))) (p + 1)
        (Nat.le_of_succ_le_succ hlen)
      simp only [ne_eq, hq, not_false_eq_true, if_true, if_false]
      rw [hrun]
      simp [store_cons]
      omega

/-- The text of the digits. -/
def lowerText (divisor n : ℕ) : List Byte := (numeral divisor n).map remainderChar

theorem length_lowerText (n : ℕ) : (lowerText divisor n).length = (numeral divisor n).length := List.length_map _

theorem divideAndReverse_eq (hdivisor : 2 ≤ divisor) {ud : ℕ} (hud : ud < 2 ^ 64) (buf : ℕ → Byte) {start : ℕ}
    (hstart : start ≤ 1) : ∃ buf', divideAndReverse divisor ud buf start = some buf' ∧
      load buf' start ((lowerText divisor ud).length + 1) = lowerText divisor ud ++ [0] ∧
      ∀ i < start, buf' i = buf i := by
  have hlen : (numeral divisor ud).length ≤ 64 :=
    length_numeral_le hdivisor (by decide) (hud.trans_le (Nat.pow_le_pow_left hdivisor 64))
  have hroom : (numeral divisor ud).length ≤ bootdebugBufsize - start := by
    unfold bootdebugBufsize
    omega
  have hnul : start + (numeral divisor ud).length < bootdebugBufsize := by
    unfold bootdebugBufsize
    omega
  obtain ⟨ds, hds⟩ : ∃ ds, ds = (numeral divisor ud).reverse.map remainderChar := ⟨_, rfl⟩
  have hdslen : ds.length = (numeral divisor ud).length := by
    simp [hds]
  have htext : ds.reverse = lowerText divisor ud := by
    simp [hds, lowerText]
  refine ⟨reverseInPlace (Function.update (store buf start ds) (start + ds.length) 0) start (start + ds.length - 1), ?_,
    ?_, ?_⟩
  · simp only [divideAndReverse, divideLoop_eq hdivisor _ ud buf start hroom, Option.bind_eq_bind,
      Option.bind_some, hnul, if_true, ← hds, hdslen]
  · rw [← htext, List.length_reverse, load_add, load_reverseInPlace]
    congr 1
    · congr 1
      have hframe : load (Function.update (store buf start ds) (start + ds.length) 0) start ds.length =
          load (store buf start ds) start ds.length := by
        rw [load_eq_load]
        intro i hi
        exact Function.update_of_ne (by omega) _ _
      rw [hframe, load_store_self]
    · have hpos : 0 < ds.length := by
        rw [hdslen]
        exact List.length_pos_of_ne_nil (numeral_ne_nil divisor ud)
      have hlast : reverseInPlace (Function.update (store buf start ds) (start + ds.length) 0) start
        (start + ds.length - 1)
          (start + ds.length) = 0 := by
        rw [reverseInPlace_outside (.inr (by omega)), Function.update_self]
      simp only [load, List.range_one, List.map_cons, List.map_nil, Nat.add_zero, hlast]
  · intro i hi
    rw [reverseInPlace_outside (.inl hi), Function.update_of_ne (by omega), store_outside (.inl hi)]

theorem remainderChar_ne_nul {r : ℕ} (h : r < 16) : remainderChar r ≠ 0 := by
  interval_cases r <;> decide

theorem nul_not_mem_lowerText (hdivisor : 2 ≤ divisor) (hmax : divisor ≤ 16) (n : ℕ) : 0 ∉ lowerText divisor n := by
  rw [lowerText, List.mem_map]
  rintro ⟨r, hr, hnul⟩
  exact remainderChar_ne_nul ((lt_of_mem_numeral hdivisor hr).trans_le hmax) hnul

theorem bufString_eq {buf : ℕ → Byte} {text : List Byte} (hload : load buf 0 (text.length + 1) = text ++ [0])
    (htext : 0 ∉ text) (hlen : text.length < bootdebugBufsize) : bufString buf = some text := by
  obtain ⟨k, hk⟩ := Nat.exists_eq_add_of_lt hlen
  have hall : load buf 0 bootdebugBufsize = text ++ 0 :: load buf (0 + (text.length + 1)) k := by
    rw [hk, Nat.add_right_comm, load_add, hload, List.append_assoc]
    rfl
  have hchars : ∀ c ∈ text, decide (c ≠ 0) = true := by
    intro c hc
    rw [decide_eq_true_eq]
    rintro rfl
    exact htext hc
  unfold bufString
  rw [hall, if_pos (by simp), List.takeWhile_append_of_pos hchars]
  simp

/-- What `bootdebug_itoa` leaves in the buffer. -/
def debugText (base : Byte) (d : BitVec 64) : List Byte :=
  if base = ch 'd' ∧ d.toInt < 0 then ch '-' :: lowerText 10 (-d).toNat
  else lowerText (if base = ch 'x' then 16 else 10) d.toNat

theorem length_lowerText_le (hdivisor : 2 ≤ divisor) {n : ℕ} (hn : n < 2 ^ 64) : (lowerText divisor n).length ≤ 64 := by
  rw [length_lowerText]
  exact length_numeral_le hdivisor (by decide) (hn.trans_le (Nat.pow_le_pow_left hdivisor 64))

theorem bootdebugItoa_eq (buf : ℕ → Byte) (base : Byte) (d : BitVec 64) :
    ∃ buf', bootdebugItoa buf base d = some buf' ∧ bufString buf' = some (debugText base d) := by
  unfold bootdebugItoa debugText
  by_cases hneg : base = ch 'd' ∧ d.toInt < 0
  · have hten : 2 ≤ 10 := by decide
    have hlen := length_lowerText_le hten (-d).isLt
    obtain ⟨buf', hrun, hload, hframe⟩ :=
      divideAndReverse_eq hten (-d).isLt (Function.update buf 0 (ch '-')) (le_refl 1)
    have hsign : load buf' 0 1 = [ch '-'] := by
      simp [load, hframe 0 Nat.one_pos]
    rw [if_pos hneg, if_pos hneg]
    refine ⟨buf', hrun, bufString_eq ?_ ?_ ?_⟩
    · rw [List.length_cons, Nat.add_comm (lowerText 10 (-d).toNat).length, Nat.add_assoc, load_add, hsign, hload]
      rfl
    · rw [List.mem_cons]
      rintro (h | h)
      · exact absurd h (by decide)
      · exact nul_not_mem_lowerText (by decide) (by decide) _ h
    · rw [List.length_cons]
      unfold bootdebugBufsize
      omega
  · have hplain : ∀ divisor, 2 ≤ divisor → divisor ≤ 16 →
        ∃ buf', divideAndReverse divisor d.toNat buf 0 = some buf' ∧
        bufString buf' = some (lowerText divisor d.toNat) := by
      intro divisor hdivisor hmax
      have hlen := length_lowerText_le hdivisor d.isLt
      obtain ⟨buf', hrun, hload, -⟩ := divideAndReverse_eq hdivisor d.isLt buf (Nat.zero_le 1)
      refine ⟨buf', hrun, bufString_eq hload (nul_not_mem_lowerText hdivisor hmax _) ?_⟩
      unfold bootdebugBufsize
      omega
    rw [if_neg hneg, if_neg hneg]
    split_ifs
    · exact hplain 16 (by decide) (by decide)
    · exact hplain 10 (by decide) (by decide)

end Itoa
/-! ## One conversion -/

/-- `%`, a 0 or none, a digit and the conversion. -/
def digitFormat (lead : Bool) (w : Fin 10) (conv : Conv) : CString where
  chars := ch '%' :: ((if lead then [ch '0'] else []) ++ [plainDigit w, conv.char])
  noNul := by
    revert w
    cases lead <;> cases conv <;> decide

/-- The conversions that `bootdebug_printf` has for integers. -/
def Conv.Integer (conv : Conv) : Prop := conv = .d ∨ conv = .u ∨ conv = .x

section Printf
variable (a : DebugArguments) (lead : Bool) (w : Fin 10) {conv : Conv}

theorem debugConvert_integer (hconv : Conv.Integer conv) (pad0 : Bool) (pad : ℕ) (s : DebugState) :
    ∃ buf, debugConvert a conv.char pad0 pad s = some ⟨s.ap + 1, s.arg, buf,
      s.out ++ padString pad0 pad (debugText conv.char (((a.args s.ap).setWidth 32).signExtend 64))⟩ := by
  obtain ⟨buf, hrun, hstr⟩ := bootdebugItoa_eq s.buf conv.char (((a.args s.ap).setWidth 32).signExtend 64)
  have hc : conv.char ≠ ch 'c' := by
    rcases hconv with rfl | rfl | rfl <;> decide
  have hinteger : conv.char = ch 'd' ∨ conv.char = ch 'u' ∨ conv.char = ch 'x' := by
    rcases hconv with rfl | rfl | rfl <;> decide
  refine ⟨buf, ?_⟩
  unfold debugConvert
  rw [if_neg hc, if_pos hinteger]
  simp only [hrun, hstr, Option.bind_eq_bind, Option.bind_some]

section Steps
variable {a} (fuel : ℕ) {c d : Byte} {t : List Byte} {s : DebugState}

/-- A 0, a digit and the conversion. -/
theorem debugLoop_zero_digit (hd : isDecimal d = true) : debugLoop a (fuel + 1) (ch '%' :: ch '0' :: d :: c :: t) s =
    (debugConvert a c true (d.toNat - 0x30) s).bind fun s => debugLoop a fuel t s := by
  have hpercent : ch '%' ≠ 0 := by decide
  rw [debugLoop]
  simp only [nextChar, Option.bind_eq_bind, Option.bind_some, hpercent, if_false, ne_eq, not_true_eq_false,
    decide_true, if_true, hd]

/-- A digit that is not 0, and the conversion. -/
theorem debugLoop_digit (hd : isDecimal d = true) (hne : d ≠ ch '0') :
    debugLoop a (fuel + 1) (ch '%' :: d :: c :: t) s =
    (debugConvert a c false (d.toNat - 0x30) s).bind fun s => debugLoop a fuel t s := by
  have hpercent : ch '%' ≠ 0 := by decide
  rw [debugLoop]
  simp only [nextChar, Option.bind_eq_bind, Option.bind_some, hpercent, if_false, ne_eq, not_true_eq_false,
    decide_false, if_true, hd, hne, Bool.false_eq_true]

/-- A 0 and the conversion. -/
theorem debugLoop_zero (hc : isDecimal c = false) : debugLoop a (fuel + 1) (ch '%' :: ch '0' :: c :: t) s =
    (debugConvert a c true 0 s).bind fun s => debugLoop a fuel t s := by
  have hpercent : ch '%' ≠ 0 := by decide
  rw [debugLoop]
  simp only [nextChar, Option.bind_eq_bind, Option.bind_some, hpercent, if_false, ne_eq, not_true_eq_false,
    decide_true, if_true, hc, Bool.false_eq_true]

end Steps

/-- The digit is read as the width, and a 0 before it or in its place as the padding. -/
theorem debugLoop_digitFormat (fuel : ℕ) (conv : Conv) (s : DebugState) :
    debugLoop a (fuel + 2) ((digitFormat lead w conv).chars ++ [0]) s =
      debugConvert a conv.char (lead || w = 0) w s := by
  have hend : ∀ x : Option DebugState, (x.bind fun s => debugLoop a (fuel + 1) [0] s) = x := by
    intro x
    cases x <;> rfl
  have hdigit : ∀ w : Fin 10, isDecimal (plainDigit w) = true ∧ (plainDigit w).toNat - 0x30 = w ∧
      (plainDigit w = ch '0' ↔ w = 0) := by decide
  obtain ⟨hisdecimal, hvalue, hiff⟩ := hdigit w
  cases lead with
  | true => exact (debugLoop_zero_digit (fuel + 1) hisdecimal).trans ((hend _).trans (by rw [hvalue]; rfl))
  | false =>
    by_cases hw : w = 0
    · subst hw
      have hdecimal : isDecimal conv.char = false := by
        cases conv <;> rfl
      exact (debugLoop_zero (fuel + 1) hdecimal).trans (hend _)
    · have hne : plainDigit w ≠ ch '0' := fun h => hw (hiff.mp h)
      refine (debugLoop_digit (fuel + 1) hisdecimal hne).trans ((hend _).trans ?_)
      rw [hvalue, Bool.false_or, decide_eq_false hw]

/-- What `bootdebug_printf` sends for one conversion. -/
theorem bootdebugPrintf_eq (hconv : Conv.Integer conv) {fuel : ℕ} (hfuel : 1 < fuel) (buf : ℕ → Byte) :
    bootdebugPrintf a fuel (digitFormat lead w conv) buf =
      some (padString (lead || w = 0) w (debugText conv.char (((a.args 0).setWidth 32).signExtend 64))) := by
  obtain ⟨k, rfl⟩ := Nat.exists_eq_add_of_lt hfuel
  obtain ⟨buf', hrun⟩ := debugConvert_integer a hconv (lead || w = 0) w ⟨0, 0, buf, []⟩
  rw [bootdebugPrintf, show 1 + k + 1 = k + 2 by ring, debugLoop_digitFormat, hrun]
  rfl

end Printf

/-! ## `_doprnt` on the same format -/

section Doprnt
variable (a : Arguments) (lead : Bool) (w : Fin 10) {conv : Conv}

/-- The specification as `_doprnt` has it: a 0 is a flag. -/
def digitSpec (conv : Conv) : Spec :=
  if h : 0 < w.val then ⟨if lead then [.zero] else [], .literal w h, .normal, conv⟩
  else ⟨if lead then [.zero, .zero] else [.zero], .none, .normal, conv⟩

theorem digitSpec_of_pos (conv : Conv) (h : 0 < w.val) :
    digitSpec lead w conv = ⟨if lead then [.zero] else [], .literal w h, .normal, conv⟩ := dif_pos h

theorem digitSpec_of_zero (conv : Conv) : digitSpec lead 0 conv =
    ⟨if lead then [.zero, .zero] else [.zero], .none, .normal, conv⟩ :=
  rfl

theorem numeralText_digit : numeralText 10 w = [plainDigit w] := by
  rw [numeralText, numeral_step (by decide), Nat.div_eq_of_lt w.isLt, Nat.mod_eq_of_lt w.isLt]
  simp [letterDigit_of_lt w.isLt]

theorem digitSpec_format (conv : Conv) : (digitSpec lead w conv).format = digitFormat lead w conv := by
  have htext : (digitSpec lead w conv).text = (if lead then [ch '0'] else []) ++ [plainDigit w, conv.char] := by
    by_cases hw : w = 0
    · subst hw
      rw [digitSpec_of_zero]
      cases lead <;> rfl
    · have hpos : 0 < w.val := Nat.pos_of_ne_zero fun h => hw (Fin.ext h)
      rw [digitSpec_of_pos lead w conv hpos]
      cases lead <;> simp [Spec.text, Width.text, ValueSize.text, Flag.char, numeralText_digit]
  simp only [Spec.format, digitFormat, htext]

theorem digitSpec_fields (conv : Conv) (star : ℤ) :
    (digitSpec lead w conv).conv = conv ∧ (digitSpec lead w conv).size = .normal ∧
    (digitSpec lead w conv).width.c99 star = w ∧ (digitSpec lead w conv).leftjust star = false ∧
    (digitSpec lead w conv).zeroFlag = (lead || w = 0) ∧ (digitSpec lead w conv).alternative = false ∧
    (digitSpec lead w conv).starArgs = 0 := by
  by_cases hw : w = 0
  · subst hw
    rw [digitSpec_of_zero]
    cases lead <;> simp [Width.c99, Spec.leftjust, Width.negative, Spec.zeroFlag, Spec.alternative, Spec.starArgs]
  · have hpos : 0 < w.val := Nat.pos_of_ne_zero fun h => hw (Fin.ext h)
    rw [digitSpec_of_pos lead w conv hpos]
    cases lead <;> simp [Width.c99, Spec.leftjust, Width.negative, Spec.zeroFlag, Spec.alternative, Spec.starArgs, hw]

theorem digitSpec_widthInt (conv : Conv) (ap : ℕ) : (digitSpec lead w conv).WidthInt a ap := by
  by_cases hw : w = 0
  · subst hw
    rw [digitSpec_of_zero]
    constructor
    · intro v pos h
      cases h
    · intro h
      cases h
  · have hpos : 0 < w.val := Nat.pos_of_ne_zero fun h => hw (Fin.ext h)
    rw [digitSpec_of_pos lead w conv hpos]
    constructor
    · intro v pos h
      cases h
      exact w.isLt.trans (by norm_num)
    · intro h
      cases h

/-- What `_doprnt` emits for it. -/
theorem emitted_digitFormat (hconv : conv ≠ .s) {fuel : ℕ} (hfuel : 4 < fuel) {n : Number}
    (hn : n = conv.number (intArg (a.args 0)) ((a.args 0).setWidth 32).toNat) :
    emitted a (digitFormat lead w conv) fuel = some (fieldLayout false (lead || w = 0) w [] n.sign n.digits) := by
  obtain ⟨hc, hsize, hwidth, hleft, hzero, halternative, hstar⟩ := digitSpec_fields lead w conv (intArg (a.args 0))
  have hlen : (digitSpec lead w conv).format.chars.length < fuel := by
    rw [digitSpec_format]
    cases lead <;> simp [digitFormat] <;> omega
  have hnumber : n = (digitSpec lead w conv).wholeNumber (a.args (0 + (digitSpec lead w conv).starArgs)) := by
    have hunsigned : (unsignedValue .normal (a.args 0)).toNat = ((a.args 0).setWidth 32).toNat := by
      have hlt : ((a.args 0).setWidth 32).toNat < 2 ^ 64 := ((a.args 0).setWidth 32).isLt.trans (by norm_num)
      simp only [unsignedValue, reduceCtorEq, if_false]
      rw [BitVec.toNat_setWidth, Nat.mod_eq_of_lt hlt]
    rw [hn, hstar, Spec.wholeNumber, hc, hsize, hunsigned]
    rfl
  have hchars := chars_number (digitSpec_widthInt a lead w conv 0) (by rw [hc]; exact hconv) hnumber
  rw [hleft, hzero, hwidth, halternative] at hchars
  rw [← digitSpec_format, emitted_scan a (format_scan (digitSpec lead w conv)) hlen]
  simp only [List.nil_append, output, Segment.chars, hchars, List.append_nil, Bool.false_eq_true, if_false]

end Doprnt

/-! ## The agreement -/

/-- A character with upper-case letters. -/
def upperCase (c : Byte) : Byte := if ch 'a' ≤ c ∧ c ≤ ch 'z' then c - 0x20 else c

theorem upperCase_remainderChar {r : ℕ} (h : r < 16) : upperCase (remainderChar r) = letterDigit r := by
  interval_cases r <;> rfl

theorem upperCase_letterDigit {r : ℕ} (h : r < 36) : upperCase (letterDigit r) = letterDigit r := by
  interval_cases r <;> rfl

theorem map_upperCase_lowerText {divisor : ℕ} (hdivisor : 2 ≤ divisor) (hmax : divisor ≤ 16) (n : ℕ) :
    (lowerText divisor n).map upperCase = numeralText divisor n := by
  rw [lowerText, List.map_map, numeralText]
  apply List.map_congr_left
  intro r hr
  exact upperCase_remainderChar ((lt_of_mem_numeral hdivisor hr).trans_le hmax)

theorem map_upperCase_numeralText {radix : ℕ} (hradix : 2 ≤ radix) (hmax : radix ≤ 36) (n : ℕ) :
    (numeralText radix n).map upperCase = numeralText radix n := by
  rw [numeralText, List.map_map]
  apply List.map_congr_left
  intro r hr
  exact upperCase_letterDigit ((lt_of_mem_numeral hradix hr).trans_le hmax)

/-- The formatters output the same characters for an integer, up to the case of letters. -/
def FormattersAgree (a : DebugArguments) (lead : Bool) (w : Fin 10) (conv : Conv) (fuel : ℕ) (buf : ℕ → Byte) : Prop :=
  ∃ l l', bootdebugPrintf a fuel (digitFormat lead w conv) buf = some l ∧
    emitted a.toArguments (digitFormat lead w conv) fuel = some l' ∧ l.map upperCase = l'.map upperCase

section Agreement
variable (a : DebugArguments) (lead : Bool) (w : Fin 10) {conv : Conv}

/-- The number that `bootdebug_printf` prints: an unsigned one is extended by its sign. -/
def debugNumber (conv : Conv) (arg : BitVec 64) : Number :=
  conv.number (intArg arg) ((arg.setWidth 32).signExtend 64).toNat

theorem debugText_eq (hconv : Conv.Integer conv) (arg : BitVec 64) :
    (debugText conv.char ((arg.setWidth 32).signExtend 64)).map upperCase =
      (debugNumber conv arg).sign ++ (debugNumber conv arg).digits := by
  have hten := map_upperCase_lowerText (show 2 ≤ 10 by decide) (by decide)
  have hsixteen := map_upperCase_lowerText (show 2 ≤ 16 by decide) (by decide)
  unfold debugText
  rcases hconv with rfl | rfl | rfl
  · obtain ⟨hlow, hhigh⟩ := intArg_range arg
    have hextend : (arg.setWidth 32).signExtend 64 = BitVec.ofInt 64 (intArg arg) := rfl
    have hint : (BitVec.ofInt 64 (intArg arg)).toInt = intArg arg := by
      rw [← hextend, BitVec.toInt_signExtend_of_le (by decide)]
      rfl
    have habs := toNat_natAbs (show -9223372036854775808 ≤ intArg arg by omega) (by omega)
    have hbase : Conv.d.char ≠ ch 'x' := by decide
    have hd : Conv.d.char = ch 'd' := rfl
    rw [hextend, hint, if_neg hbase]
    simp only [hd, true_and]
    by_cases hneg : intArg arg < 0
    · rw [if_pos hneg] at habs
      rw [if_pos hneg, habs, List.map_cons, hten]
      simp [debugNumber, Conv.number, Number.sign, Number.digits, hneg]
      rfl
    · rw [if_neg hneg] at habs
      rw [if_neg hneg, habs, hten]
      simp [debugNumber, Conv.number, Number.sign, Number.digits, hneg]
  · have hd : Conv.u.char ≠ ch 'd' := by decide
    have hx : Conv.u.char ≠ ch 'x' := by decide
    rw [if_neg (fun h => hd h.1), if_neg hx, hten]
    rfl
  · have hd : Conv.x.char ≠ ch 'd' := by decide
    have hx : Conv.x.char = ch 'x' := rfl
    rw [if_neg (fun h => hd h.1), if_pos hx, hsixteen]
    rfl

/-- The padded text, where there are no zeroes before a sign. -/
theorem fieldLayout_eq_padded {zero : Bool} {w : ℕ} {sign digits : List Byte} (h : zero = true → sign = [] ∨ w = 0) :
    fieldLayout false zero w [] sign digits =
      List.replicate (w - (sign.length + digits.length)) (if zero then ch '0' else ch ' ') ++ (sign ++ digits) := by
  unfold fieldLayout
  cases zero with
  | false => simp
  | true =>
    rcases h rfl with rfl | rfl
    · simp
    · simp

theorem map_upperCase_number {n : Number} (hbase : 2 ≤ n.base) (hmax : n.base ≤ 36) :
    (n.sign ++ n.digits).map upperCase = n.sign ++ n.digits := by
  have hsign : n.sign.map upperCase = n.sign := by
    unfold Number.sign
    cases n.neg <;> rfl
  rw [List.map_append, hsign, Number.digits, map_upperCase_numeralText hbase hmax]

theorem map_upperCase_pad (k : ℕ) (zero : Bool) :
    (List.replicate k (if zero then ch '0' else ch ' ')).map upperCase =
      List.replicate k (if zero then ch '0' else ch ' ') := by
  rw [List.map_replicate]
  cases zero <;> rfl

/-- What both send, in terms of the two numbers. -/
theorem formatters_agree_numbers (hconv : Conv.Integer conv) {fuel : ℕ} (hfuel : 4 < fuel) (buf : ℕ → Byte)
    {m n : Number} (hm : m = debugNumber conv (a.args 0))
    (hn : n = conv.number (intArg (a.args 0)) ((a.args 0).setWidth 32).toNat)
      (hlead : (lead || decide (w = 0)) = true → n.sign = [] ∨ w.val = 0) :
    FormattersAgree a lead w conv fuel buf ↔
      List.replicate (w - m.length) (if lead || decide (w = 0) then ch '0' else ch ' ') ++ (m.sign ++ m.digits) =
        List.replicate (w - n.length) (if lead || decide (w = 0) then ch '0' else ch ' ') ++ (n.sign ++ n.digits) := by
  have hdebug := bootdebugPrintf_eq a lead w hconv (Nat.lt_of_le_of_lt (by norm_num) hfuel) buf
  have hs : conv ≠ .s := by
    rintro rfl
    rcases hconv with h | h | h <;> cases h
  have hdoprnt := emitted_digitFormat a.toArguments lead w hs hfuel hn
  have hbase := number_base (intArg (a.args 0)) ((a.args 0).setWidth 32).toNat conv
  rw [← hn] at hbase
  have htext := debugText_eq hconv (a.args 0)
  rw [← hm] at htext
  have hlen : (debugText conv.char (((a.args 0).setWidth 32).signExtend 64)).length = m.length := by
    rw [← List.length_map upperCase, htext, List.length_append]
    rfl
  have hleft :
      (padString (lead || decide (w = 0)) w (debugText conv.char (((a.args 0).setWidth 32).signExtend 64))).map upperCase =
      List.replicate (w - m.length) (if lead || decide (w = 0) then ch '0' else ch ' ') ++ (m.sign ++ m.digits) := by
    rw [padString, List.map_append, map_upperCase_pad, htext, hlen]
  have hright : (fieldLayout false (lead || decide (w = 0)) w [] n.sign n.digits).map upperCase =
      List.replicate (w - n.length) (if lead || decide (w = 0) then ch '0' else ch ' ') ++ (n.sign ++ n.digits) := by
    rw [fieldLayout_eq_padded hlead, List.map_append, map_upperCase_pad, map_upperCase_number hbase.1 hbase.2]
    rfl
  rw [← hleft, ← hright, FormattersAgree, hdebug, hdoprnt]
  simp

/-- The sign extension, as a number. -/
theorem toNat_signExtend (arg : BitVec 64) : ((arg.setWidth 32).signExtend 64).toNat =
    if intArg arg < 0 then 18446744069414584320 + (arg.setWidth 32).toNat else (arg.setWidth 32).toNat := by
  have hextend : (arg.setWidth 32).signExtend 64 = BitVec.ofInt 64 (intArg arg) := rfl
  have hlt := (arg.setWidth 32).isLt
  rw [hextend, BitVec.toNat_ofInt, intArg, BitVec.toInt_eq_toNat_cond]
  split_ifs <;> omega

/-- An unsigned number from 2^31 on has more digits than `_doprnt` prints of it. -/
theorem length_debugNumber (hconv : conv = .u ∨ conv = .x) {arg : BitVec 64} (hneg : intArg arg < 0) :
    10 < (debugNumber conv arg).length ∧ (conv.number (intArg arg) (arg.setWidth 32).toNat).length ≤ 10 := by
  have hextend := toNat_signExtend arg
  rw [if_pos hneg] at hextend
  have hlt := (arg.setWidth 32).isLt
  have hlong : ∀ base, 2 ≤ base → base ≤ 16 →
      10 < (numeralText base ((arg.setWidth 32).signExtend 64).toNat).length := by
    intro base hbase hmax
    rw [length_numeralText, hextend]
    by_contra hle
    have hpow := lt_pow_length_numeral hbase (18446744069414584320 + (arg.setWidth 32).toNat)
    have hten := Nat.pow_le_pow_right (Nat.zero_lt_of_lt hbase) (Nat.le_of_not_lt hle)
    have hsixteen : base ^ 10 ≤ 16 ^ 10 := Nat.pow_le_pow_left hmax 10
    norm_num at hsixteen
    omega
  have hshort : ∀ base, 10 ≤ base → (numeralText base (arg.setWidth 32).toNat).length ≤ 10 := by
    intro base hbase
    have hten : 10 ^ 10 ≤ base ^ 10 := Nat.pow_le_pow_left hbase 10
    norm_num at hten
    rw [length_numeralText]
    exact length_numeral_le (Nat.le_trans (by decide) hbase) (by decide) (by omega)
  rcases hconv with rfl | rfl
  · have hu := hlong 10 (by decide) (by decide)
    have hu' := hshort 10 (by decide)
    simpa [Number.length, Number.sign, Number.digits, debugNumber, Conv.number] using ⟨hu, hu'⟩
  · have hx := hlong 16 (by decide) (by decide)
    have hx' := hshort 16 (by decide)
    simpa [Number.length, Number.sign, Number.digits, debugNumber, Conv.number] using ⟨hx, hx'⟩

theorem not_formatters_agree (hconv : conv = .u ∨ conv = .x) (hneg : intArg (a.args 0) < 0) {fuel : ℕ}
    (hfuel : 4 < fuel) (buf : ℕ → Byte) : ¬ FormattersAgree a lead w conv fuel buf := by
  intro h
  have hsign : (conv.number (intArg (a.args 0)) ((a.args 0).setWidth 32).toNat).sign = [] := by
    rcases hconv with rfl | rfl <;> rfl
  rw [formatters_agree_numbers a lead w (.inr hconv) hfuel buf rfl rfl fun _ => .inl hsign] at h
  obtain ⟨hlong, hshort⟩ := length_debugNumber hconv hneg
  have hlen := congrArg List.length h
  have hw := w.isLt
  simp only [List.length_append, List.length_replicate] at hlen
  unfold Number.length at hlong hshort hlen
  omega

/-- **`bootdebug_printf` and `_doprnt` agree on an integer exactly where it is not an unsigned one from 2^31 on.** -/
theorem formatters_agree_iff (hconv : Conv.Integer conv) (hlead : conv = .d → lead = true → 0 ≤ intArg (a.args 0))
    {fuel : ℕ} (hfuel : 4 < fuel) (buf : ℕ → Byte) :
    FormattersAgree a lead w conv fuel buf ↔ conv = .d ∨ 0 ≤ intArg (a.args 0) := by
  constructor
  · intro h
    by_contra hnot
    rw [not_or, Int.not_le] at hnot
    exact not_formatters_agree a lead w (hconv.resolve_left hnot.1) hnot.2 hfuel buf h
  · intro h
    obtain ⟨n, hn⟩ : ∃ n, n = conv.number (intArg (a.args 0)) ((a.args 0).setWidth 32).toNat := ⟨_, rfl⟩
    have hsign : (lead || decide (w = 0)) = true → n.sign = [] ∨ w.val = 0 := by
      intro hzero
      rw [Bool.or_eq_true, decide_eq_true_eq] at hzero
      rcases hzero with hz | rfl
      · left
        rw [hn]
        rcases hconv with rfl | rfl | rfl
        · exact sign_of_not_neg (decide_eq_false (Int.not_lt.mpr (hlead rfl hz)))
        · rfl
        · rfl
      · exact .inr rfl
    have hsame : debugNumber conv (a.args 0) = n := by
      rw [hn, debugNumber]
      rcases h with rfl | h
      · rfl
      · rw [toNat_signExtend, if_neg (Int.not_lt.mpr h)]
    rw [formatters_agree_numbers a lead w hconv hfuel buf rfl hn hsign, hsame]

end Agreement

/-- One argument, and nothing on the stack. -/
def oneArg (arg : BitVec 64) : DebugArguments := ⟨⟨fun _ => arg, zeroArgs.strings⟩, fun _ => 0⟩

theorem formatters_agree_padded : 0 ≤ intArg ((oneArg 0xBEEF).args 0) ∧
    FormattersAgree (oneArg 0xBEEF) true 8 .x 5 fun _ => 0 := by
  have hpos : 0 ≤ intArg ((oneArg 0xBEEF).args 0) := by decide
  refine ⟨hpos, ?_⟩
  exact (formatters_agree_iff (oneArg 0xBEEF) true 8 (.inr (.inr rfl)) (fun h => by cases h) (by decide) fun _ => 0).mpr
    (.inr hpos)

/-- `%8x` of `0x80000000`: one prints `ffffffff80000000`. -/
theorem sign_extended_differs : ¬ ∀ (a : DebugArguments) (lead : Bool) (w : Fin 10) (conv : Conv) (fuel : ℕ)
    (buf : ℕ → Byte), Conv.Integer conv → (conv = .d → lead = true → 0 ≤ intArg (a.args 0)) → 4 < fuel →
    FormattersAgree a lead w conv fuel buf := by
  intro h
  have hagree := h (oneArg 0x80000000) false 8 .x 5 (fun _ => 0) (.inr (.inr rfl)) (fun h => by cases h) (by decide)
  have hneg : intArg ((oneArg 0x80000000).args 0) < 0 := by decide
  exact not_formatters_agree (oneArg 0x80000000) false 8 (.inr rfl) hneg (by decide) (fun _ => 0) hagree

end Borgos.Boot
