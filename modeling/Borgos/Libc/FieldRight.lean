import Borgos.Libc.Fields

/-! # Which fields of `_doprnt` are those of C99 -/
namespace Borgos.Libc
open Borgos.Foundations Numeral
set_option autoImplicit false

/-! ## The field of `_doprnt` -/

section Fields
variable (a : Arguments) (ap : ℕ) (p : Spec)

/-- A width in digits is below 2^31, one by an argument above -2^31. -/
def Spec.WidthInt : Prop :=
  (∀ w pos, p.width = .literal w pos → IsInt w) ∧ (p.width = .star → -2147483648 < intArg (a.args ap))

variable {a ap p}

theorem Width.value_star {n : ℤ} (hlow : -2147483648 < n) (hhigh : n < 2147483648) :
    IsInt n.natAbs ∧ Width.value n .star = (n.natAbs : ℕ) := by
  have hint : IsInt n.natAbs := by
    unfold IsInt
    omega
  refine ⟨hint, ?_⟩
  unfold Width.value
  split_ifs with hneg
  · have habs : -n = (n.natAbs : ℕ) := (Int.ofNat_natAbs_of_nonpos hneg.le).symm
    rw [habs, int32_of_isInt hint]
  · exact (Int.natAbs_of_nonneg (Int.not_lt.mp hneg)).symm

theorem intArg_lt (arg : BitVec 64) : intArg arg < 2147483648 := by
  have hpow : (2147483648 : ℤ) = 2 ^ (32 - 1) := by norm_num
  rw [hpow]
  exact BitVec.toInt_lt

theorem Width.value_eq (hwidth : p.WidthInt a ap) :
    IsInt (p.width.c99 (intArg (a.args ap))) ∧
    p.width.value (intArg (a.args ap)) = (p.width.c99 (intArg (a.args ap)) : ℕ) := by
  obtain ⟨hliteral, hstar⟩ := hwidth
  cases hp : p.width with
  | none => exact ⟨Nat.succ_pos _, rfl⟩
  | literal w pos => exact ⟨hliteral w pos hp, int32_of_isInt (hliteral w pos hp)⟩
  | star => exact Width.value_star (hstar hp) (intArg_lt _)

theorem fieldText_scanned (hwidth : p.WidthInt a ap) {cv : Conversion} (hlen : IsInt cv.length) :
    fieldText (p.scanned (intArg (a.args ap))) cv =
      fieldLayout (p.leftjust (intArg (a.args ap))) p.zeroFlag (p.width.c99 (intArg (a.args ap)))
        (if cv.hasPrefix then hexPrefix else []) (if cv.sign then [ch '-'] else []) cv.str := by
  obtain ⟨hint, hvalue⟩ := Width.value_eq hwidth
  have hlength : (if cv.sign then [ch '-'] else []).length + cv.str.length = cv.length := by
    unfold Conversion.length
    cases cv.sign
    · simp
    · simp
      omega
  rw [fieldText_eq hlen hint (by rw [Spec.scanned_eq]; exact hvalue), Spec.scanned_eq]
  unfold fieldLayout zeroPadded Spec.leftjust Spec.zeroFlag hexPrefix
  rw [hlength]
  by_cases hleft : (decide (Flag.minus ∈ p.flags) || Width.negative (intArg (a.args ap)) p.width) = true
  · simp [hleft]
  · by_cases hzero : Flag.zero ∈ p.flags
    · simp [hleft, hzero]
    · simp [hleft, hzero, ch]

/-! ## Numbers -/

/-- The magnitude of a `long`, by negation in 64 bits. -/
theorem toNat_natAbs {n : ℤ} (hlow : -9223372036854775808 ≤ n) (hhigh : n < 9223372036854775808) :
    (if n < 0 then -BitVec.ofInt 64 n else BitVec.ofInt 64 n).toNat = n.natAbs := by
  split_ifs with hneg
  · rw [← BitVec.ofInt_neg, BitVec.toNat_ofInt]
    omega
  · rw [BitVec.toNat_ofInt]
    omega

theorem intArg_range (arg : BitVec 64) : -2147483648 ≤ intArg arg ∧ intArg arg < 2147483648 := by
  refine ⟨?_, intArg_lt arg⟩
  have hlow : -2 ^ (32 - 1) ≤ intArg arg := BitVec.le_toInt (arg.setWidth 32)
  norm_num at hlow
  exact hlow

theorem signedValue_range (size : ValueSize) (arg : BitVec 64) :
    -9223372036854775808 ≤ signedValue size arg ∧ signedValue size arg < 9223372036854775808 := by
  unfold signedValue
  split_ifs
  · exact ⟨BitVec.le_toInt arg, BitVec.toInt_lt⟩
  · obtain ⟨hlow, hhigh⟩ := intArg_range arg
    constructor <;> omega

/-- What an integer conversion makes of its argument. -/
theorem conversion_number (hconv : p.conv ≠ .s) (arg : BitVec 64) :
    p.conversion a arg = ⟨(p.wholeNumber arg).neg, p.alternative, (p.wholeNumber arg).digits⟩ := by
  obtain ⟨hlow, hhigh⟩ := signedValue_range p.size arg
  have hsigned : signedConversion (signedValue p.size arg) =
      ⟨decide (signedValue p.size arg < 0), false, numeralText 10 (signedValue p.size arg).natAbs⟩ := by
    rw [signedConversion, digitsOf, toNat_natAbs hlow hhigh]
  unfold Spec.conversion Spec.wholeNumber Spec.alternative
  cases hp : p.conv with
  | d => simp [hsigned, Conv.number, Number.digits]
  | i => simp [hsigned, Conv.number, Number.digits]
  | u => simp [Conv.number, Number.digits, digitsOf]
  | x => simp [Conv.number, Number.digits, digitsOf]
  | s => exact absurd hp hconv

theorem number_base (signed : ℤ) (unsigned : ℕ) (conv : Conv) :
    2 ≤ (conv.number signed unsigned).base ∧ (conv.number signed unsigned).base ≤ 36 := by
  cases conv <;> simp [Conv.number]

theorem number_base_eq (signed signed' : ℤ) (unsigned unsigned' : ℕ) (conv : Conv) :
    (conv.number signed unsigned).base = (conv.number signed' unsigned').base := by
  cases conv <;> rfl

theorem number_magnitude {signed : ℤ} {unsigned : ℕ} (hsigned : signed.natAbs < 2 ^ 64) (hunsigned : unsigned < 2 ^ 64)
    (conv : Conv) : (conv.number signed unsigned).magnitude < 2 ^ 64 := by
  cases conv with
  | d => exact hsigned
  | i => exact hsigned
  | u => exact hunsigned
  | x => exact hunsigned
  | s => exact hunsigned

theorem wholeNumber_length (arg : BitVec 64) : IsInt (p.wholeNumber arg).length := by
  obtain ⟨hlow, hhigh⟩ := signedValue_range p.size arg
  obtain ⟨hbase, -⟩ := number_base (signedValue p.size arg) (unsignedValue p.size arg).toNat p.conv
  have hmagnitude : (p.wholeNumber arg).magnitude < 2 ^ 64 :=
    number_magnitude (by omega) (unsignedValue p.size arg).isLt p.conv
  have hdigits : (p.wholeNumber arg).digits.length ≤ 64 := by
    rw [Number.digits, length_numeralText]
    exact length_numeral_le hbase (by decide) (hmagnitude.trans_le (Nat.pow_le_pow_left hbase 64))
  have hsign : (p.wholeNumber arg).sign.length ≤ 1 := by
    unfold Number.sign
    split_ifs
    · exact le_rfl
    · exact Nat.zero_le 1
  unfold IsInt Number.length
  omega

/-! ## The fields compared -/

theorem chars_number (hwidth : p.WidthInt a ap) (hconv : p.conv ≠ .s) {n : Number}
    (hn : n = p.wholeNumber (a.args (ap + p.starArgs))) :
    p.chars a ap = fieldLayout (p.leftjust (intArg (a.args ap))) p.zeroFlag (p.width.c99 (intArg (a.args ap)))
      (if p.alternative then hexPrefix else []) n.sign n.digits := by
  have hlen : Conversion.length ⟨n.neg, p.alternative, n.digits⟩ = n.length := by
    unfold Conversion.length Number.length Number.sign
    cases n.neg
    · simp
    · simp
      omega
  have hint : IsInt n.length := by
    rw [hn]
    exact wholeNumber_length _
  rw [Spec.chars, conversion_number hconv, ← hn, fieldText_scanned hwidth (by rw [hlen]; exact hint)]
  rfl

theorem conversion_string (hconv : p.conv = .s) (arg : BitVec 64) :
    p.conversion a arg = ⟨false, false, stringArg a arg⟩ := by
  unfold Spec.conversion
  rw [hconv]
  rfl

theorem chars_string (hwidth : p.WidthInt a ap) (hconv : p.conv = .s) {str : List Byte}
    (hstr : str = stringArg a (a.args (ap + p.starArgs))) (hlen : IsInt str.length) :
    p.chars a ap =
      fieldLayout (p.leftjust (intArg (a.args ap))) p.zeroFlag (p.width.c99 (intArg (a.args ap))) [] [] str := by
  rw [Spec.chars, conversion_string hconv, ← hstr, fieldText_scanned hwidth (by simpa [Conversion.length] using hlen)]
  simp

theorem int32_range (x : ℤ) : -2147483648 ≤ int32 x ∧ int32 x < 2147483648 := by
  simp only [int32, Int.bmod_def]
  split_ifs
  · omega
  · omega

/-- Padding and string are an `int` together. -/
theorem lenPadding_add_lt {s : Section} {str : List Byte} {w : ℕ} (hw : IsInt w) (hfmin : s.fmin = w) :
    (lenPadding s ⟨false, false, str⟩).toNat + (int32 str.length).toNat < 2147483648 := by
  obtain ⟨r, hr⟩ : ∃ r, r = int32 str.length := ⟨_, rfl⟩
  obtain ⟨hlow, hhigh⟩ : -2147483648 ≤ r ∧ r < 2147483648 := by
    rw [hr]
    exact int32_range _
  have hsame : ∀ x : ℤ, 0 ≤ x → x < 2147483648 → int32 x = x := by
    intro x hx hlt
    obtain ⟨n, rfl⟩ := Int.eq_ofNat_of_zero_le hx
    exact int32_of_isInt (Int.ofNat_lt.mp hlt)
  have hnonpadding : int32 (r + if (false : Bool) = true then 1 else 0) = r := by
    simp only [Bool.false_eq_true, if_false, Int.add_zero]
    rw [hr]
    simp only [int32, Int.bmod_bmod]
  unfold IsInt at hw
  unfold lenPadding
  simp only
  rw [← hr, hnonpadding, hfmin]
  split_ifs with h
  · by_cases hneg : r < 0
    · have hpad := (int32_range (w - r)).2
      omega
    · rw [hsame (w - r) (by omega) (by omega)]
      omega
  · omega

theorem length_fieldText_le (s : Section) (str : List Byte) : (fieldText s ⟨false, false, str⟩).length ≤
    (lenPadding s ⟨false, false, str⟩).toNat + (int32 str.length).toNat := by
  have hstr := Nat.min_le_left (int32 str.length).toNat str.length
  unfold fieldText
  simp only [List.length_append, List.length_take]
  obtain ⟨k, hk⟩ : ∃ k, k = lenPadding s ⟨false, false, str⟩ := ⟨_, rfl⟩
  rw [← hk]
  cases zeroPadded s with
  | true => cases s.leftjust <;> simp
  | false => cases s.leftjust <;> simp

/-- A string whose length is no `int` is never output whole. -/
theorem chars_string_long (hwidth : p.WidthInt a ap) (hconv : p.conv = .s) {str : List Byte}
    (hstr : str = stringArg a (a.args (ap + p.starArgs))) (hlen : ¬ IsInt str.length) :
    (p.chars a ap).length < str.length := by
  obtain ⟨hint, hvalue⟩ := Width.value_eq hwidth
  have hfmin : (p.scanned (intArg (a.args ap))).fmin = (p.width.c99 (intArg (a.args ap)) : ℕ) := by
    rw [Spec.scanned_eq]
    exact hvalue
  rw [Spec.chars, conversion_string hconv, ← hstr]
  calc (fieldText (p.scanned (intArg (a.args ap))) ⟨false, false, str⟩).length
      ≤ _ := length_fieldText_le _ str
    _ < 2147483648 := lenPadding_add_lt hint hfmin
    _ ≤ str.length := Nat.le_of_not_lt hlen

theorem string_right_iff (hwidth : p.WidthInt a ap) (hconv : p.conv = .s) :
    p.chars a ap = p.c99Field a ap ↔ p.FieldRight a ap := by
  obtain ⟨str, hstr⟩ : ∃ str, str = stringArg a (a.args (ap + p.starArgs)) := ⟨_, rfl⟩
  have hfield : p.c99Field a ap =
      c99Layout (p.leftjust (intArg (a.args ap))) false (p.width.c99 (intArg (a.args ap))) [] str := by
    simp only [Spec.c99Field, hconv, if_true, hstr]
  have hright : p.FieldRight a ap ↔
      StringRight (p.leftjust (intArg (a.args ap))) p.zeroFlag (p.width.c99 (intArg (a.args ap))) str.length := by
    simp only [Spec.FieldRight, hconv, if_true, hstr]
  rw [hright, hfield]
  by_cases hlen : IsInt str.length
  · rw [chars_string hwidth hconv hstr hlen, string_layout_iff]
    exact ⟨fun h => ⟨hlen, h⟩, fun h => h.2⟩
  · have hshort := chars_string_long hwidth hconv hstr hlen
    constructor
    · intro h
      rw [h, length_c99Layout] at hshort
      simp at hshort
    · intro h
      exact absurd h.1 hlen

theorem x_not_mem_digits {n : Number} (hbase : 2 ≤ n.base) (hmax : n.base ≤ 36) : ch 'x' ∉ n.digits := by
  intro hmem
  obtain ⟨d, hd, hchar⟩ := mem_numeralText hbase hmem
  have hlt : d < 36 := hd.trans_le hmax
  interval_cases d <;> exact absurd hchar (by decide)

/-- There is no `0x` before a zero. -/
theorem prefix_zero_ne {n : Number} (hbase : 2 ≤ n.base) (hmax : n.base ≤ 36) (left zero left' zero' : Bool) (w w' : ℕ)
    (sign : List Byte) :
    fieldLayout left zero w hexPrefix sign n.digits ≠ c99Layout left' zero' w' n.sign n.digits := by
  intro h
  have hx : ch 'x' ∈ fieldLayout left zero w hexPrefix sign n.digits := by
    apply List.mem_append_left
    decide
  have hdigits := x_not_mem_digits hbase hmax
  have hsign : ch 'x' ∉ n.sign := by
    unfold Number.sign
    cases n.neg <;> decide
  have hblank : ch 'x' ≠ ch ' ' := by decide
  have hzero : ch 'x' ≠ ch '0' := by decide
  rw [h] at hx
  unfold c99Layout at hx
  split_ifs at hx
  · simp [hdigits, hsign, hblank] at hx
  · simp [hdigits, hsign, hzero] at hx
  · simp [hdigits, hsign, hblank] at hx

theorem sign_of_not_neg {n : Number} (h : n.neg = false) : n.sign = [] := by
  unfold Number.sign
  rw [h]
  rfl

/-- A number of its type: what the layouts differ in. -/
theorem layout_right_iff {n : Number} (hbase : 2 ≤ n.base) (hmax : n.base ≤ 36) {alternative left zero : Bool} {w : ℕ}
    (hsign : alternative = true → n.neg = false) :
    fieldLayout left zero w (if alternative then hexPrefix else []) n.sign n.digits =
        c99Layout left zero w (if alternative && decide (n.magnitude ≠ 0) then hexPrefix else n.sign) n.digits ↔
      if alternative then n.magnitude ≠ 0 ∧ PrefixRight left w n.length else PlainRight left w n.length := by
  cases alternative with
  | false =>
    simp only [Bool.false_and, Bool.false_eq_true, if_false]
    exact plain_layout_iff
  | true =>
    have hnil : n.sign = [] := sign_of_not_neg (hsign rfl)
    have hlength : n.length = n.digits.length := by
      unfold Number.length
      rw [hnil]
      exact Nat.zero_add _
    by_cases hzero : n.magnitude = 0
    · have hne := prefix_zero_ne hbase hmax left zero left zero w w n.sign
      simp [hzero, hne]
    · simp only [hzero, hnil, hlength, Bool.true_and, ne_eq, not_false_eq_true, decide_true, if_true, true_and]
      exact prefix_layout_iff

/-- Fields that are equal are those of one number. -/
theorem layout_number_eq {n m : Number} (hbase : 2 ≤ n.base) (hmax : n.base ≤ 36) (hsame : n.base = m.base)
    {alternative left zero : Bool} {w : ℕ} (hsign : alternative = true → m.neg = false)
    (h : fieldLayout left zero w (if alternative then hexPrefix else []) n.sign n.digits =
      c99Layout left zero w (if alternative && decide (m.magnitude ≠ 0) then hexPrefix else m.sign) m.digits) :
    n = m := by
  have hfront : ∀ b : Bool, Filler (if b then hexPrefix else []) := by
    intro b
    cases b with
    | true => exact filler_hexPrefix
    | false => exact filler_nil
  have hshows := shows_fieldLayout left zero w hbase hmax (hfront alternative)
  rw [h] at hshows
  have hhead : (if alternative && decide (m.magnitude ≠ 0) then hexPrefix else m.sign) =
      (if alternative && decide (m.magnitude ≠ 0) then hexPrefix else []) ++ m.sign := by
    split_ifs with hb
    · rw [Bool.and_eq_true] at hb
      rw [sign_of_not_neg (hsign hb.1), List.append_nil]
    · rfl
  rw [hhead] at hshows
  refine hshows.unique (shows_c99Layout left zero w ?_ ?_ (hfront _)) hsame
  · rw [← hsame]
    exact hbase
  · rw [← hsame]
    exact hmax

theorem number_right_iff (hwidth : p.WidthInt a ap) (hconv : p.conv ≠ .s) :
    p.chars a ap = p.c99Field a ap ↔ p.FieldRight a ap := by
  obtain ⟨n, hn⟩ : ∃ n, n = p.wholeNumber (a.args (ap + p.starArgs)) := ⟨_, rfl⟩
  obtain ⟨m, hm⟩ : ∃ m, m = p.c99Number (a.args (ap + p.starArgs)) := ⟨_, rfl⟩
  have hbase : 2 ≤ n.base ∧ n.base ≤ 36 := by
    rw [hn]
    exact number_base _ _ _
  have hbase' : 2 ≤ m.base ∧ m.base ≤ 36 := by
    rw [hm]
    exact number_base _ _ _
  have hsame : n.base = m.base := by
    rw [hn, hm]
    exact number_base_eq _ _ _ _ _
  have hsign : ∀ k : Number, k = n ∨ k = m → p.alternative = true → k.neg = false := by
    intro k hk hx
    have hconv' : p.conv = .x := by
      simp only [Spec.alternative, Bool.and_eq_true, decide_eq_true_eq] at hx
      exact hx.1
    rcases hk with rfl | rfl
    · rw [hn, Spec.wholeNumber, hconv']
      rfl
    · rw [hm, Spec.c99Number, hconv']
      rfl
  have hfield : p.c99Field a ap =
      c99Layout (p.leftjust (intArg (a.args ap))) p.zeroFlag (p.width.c99 (intArg (a.args ap)))
      (if p.alternative && decide (m.magnitude ≠ 0) then hexPrefix else m.sign) m.digits := by
    simp only [Spec.c99Field, hconv, if_false, hm]
  have hright : p.FieldRight a ap ↔ n = m ∧
      if p.alternative then
        n.magnitude ≠ 0 ∧ PrefixRight (p.leftjust (intArg (a.args ap))) (p.width.c99 (intArg (a.args ap))) n.length
      else PlainRight (p.leftjust (intArg (a.args ap))) (p.width.c99 (intArg (a.args ap))) n.length := by
    simp only [Spec.FieldRight, hconv, if_false, hn, hm]
  rw [hright, hfield, chars_number hwidth hconv hn]
  constructor
  · intro h
    have heq : n = m := layout_number_eq hbase.1 hbase.2 hsame (hsign m (.inr rfl)) h
    rw [← heq] at h
    exact ⟨heq, (layout_right_iff hbase.1 hbase.2 (hsign n (.inl rfl))).mp h⟩
  · rintro ⟨rfl, h⟩
    exact (layout_right_iff hbase.1 hbase.2 (hsign n (.inl rfl))).mpr h

theorem chars_right_iff (hwidth : p.WidthInt a ap) : p.chars a ap = p.c99Field a ap ↔ p.FieldRight a ap := by
  by_cases hconv : p.conv = .s
  · exact string_right_iff hwidth hconv
  · exact number_right_iff hwidth hconv

end Fields

/-! ## The characters emitted -/

section Emitted
variable (a : Arguments)

/-- An output function that keeps what it gets. -/
def collect (c : ℤ) (out : List Byte) : ℤ × List Byte := (0, out ++ [BitVec.ofInt 8 c])

/-- The characters that `_doprnt` emits for a format. -/
def emitted (format : CString) (fuel : ℕ) : Option (List Byte) := (doprnt ⟨a, collect⟩ fuel format []).map Prod.snd

theorem after_collect (l : List Byte) : ∀ out : List Byte, Accepts ⟨a, collect⟩ l out ∧
    after ⟨a, collect⟩ l out = out ++ l := by
  induction l with
  | nil => exact fun out => ⟨trivial, (List.append_nil out).symm⟩
  | cons c l ih =>
    intro out
    have hcall : collect c.toInt out = (0, out ++ [c]) := by
      simp [collect]
    obtain ⟨haccepts, hafter⟩ := ih (out ++ [c])
    constructor
    · exact ⟨by simp [hcall], by simpa [hcall] using haccepts⟩
    · rw [after, List.foldl_cons, List.append_cons]
      simp only [hcall]
      exact hafter

theorem emitted_scan {format : CString} {segs : List Segment} (h : Scan (format.chars ++ [0]) segs) {fuel : ℕ}
    (hfuel : format.chars.length < fuel) : emitted a format fuel = some (output a 0 segs) := by
  obtain ⟨haccepts, hafter⟩ := after_collect a (output a 0 segs) []
  rw [emitted, doprnt_scan h hfuel, callPutc_run haccepts, hafter]
  rfl

/-- The arguments that the segments take. -/
def argsTaken (segs : List Segment) : ℕ := (segs.map Segment.argsUsed).sum

theorem output_append (segs segs' : List Segment) : ∀ ap,
    output a ap (segs ++ segs') = output a ap segs ++ output a (ap + argsTaken segs) segs' := by
  induction segs with
  | nil => exact fun ap => rfl
  | cons g segs ih =>
    intro ap
    have htaken : ap + argsTaken (g :: segs) = ap + g.argsUsed + argsTaken segs := by
      simp [argsTaken]
      ring
    rw [List.cons_append, output, ih, output, htaken, List.append_assoc]

/-- The field of a specification in a format is the one of C99. -/
def EmitsC99 (format : CString) (fuel : ℕ) (before : List Segment) (p : Spec) (behind : List Segment) : Prop :=
  emitted a format fuel = some (output a 0 before ++
    (p.c99Field a (argsTaken before) ++ output a (argsTaken before + p.argsUsed) behind))

/-- **The fields of C99 are emitted exactly where `FieldRight` says so.** -/
theorem emits_c99_iff (format : CString) (fuel : ℕ) (before : List Segment) (p : Spec) (behind : List Segment)
    (hscan : Scan (format.chars ++ [0]) (before ++ .spec p :: behind)) (hfuel : format.chars.length < fuel)
    (hwidth : p.WidthInt a (argsTaken before)) :
    EmitsC99 a format fuel before p behind ↔ p.FieldRight a (argsTaken before) := by
  rw [← chars_right_iff hwidth, EmitsC99, emitted_scan a hscan hfuel, output_append, Option.some.injEq,
    List.append_cancel_left_eq, Nat.zero_add]
  exact List.append_left_inj _

end Emitted

/-- `%5d` -/
def rightField : Spec := ⟨[], .literal 5 (by decide), .normal, .d⟩

/-- `%-5d` -/
def leftField : Spec := ⟨[.minus], .literal 5 (by decide), .normal, .d⟩

/-- A format that is one specification. -/
def Spec.format (p : Spec) : CString where
  chars := ch '%' :: p.text
  noNul := by
    have htext : 0#8 ∉ p.text := nul_not_mem_text p
    have hpercent : 0#8 ≠ ch '%' := by decide
    simp [htext, hpercent]

def fortyTwo : Arguments := ⟨fun _ => 42, zeroArgs.strings⟩

theorem format_scan (p : Spec) : Scan (p.format.chars ++ [0]) ([] ++ [.spec p]) := .spec p (.nul [])

theorem emits_c99_right_justified : rightField.FieldRight fortyTwo 0 ∧
    EmitsC99 fortyTwo rightField.format 4 [] rightField [] ∧
    rightField.c99Field fortyTwo 0 = [ch ' ', ch ' ', ch ' ', ch '4', ch '2'] := by
  have hright : rightField.FieldRight fortyTwo 0 := ⟨by decide +kernel, .inl rfl⟩
  refine ⟨hright, ?_, by decide +kernel⟩
  exact (emits_c99_iff fortyTwo rightField.format 4 [] rightField [] (format_scan rightField) (by decide +kernel)
    ⟨fun w pos h => by cases h; decide, fun h => by cases h⟩).mpr hright

/-- `%-5d` of 42 is emitted without the blanks behind it. -/
theorem left_justified_not_padded : ¬ ∀ (a : Arguments) (format : CString) (fuel : ℕ) (before : List Segment) (p : Spec)
    (behind : List Segment), Scan (format.chars ++ [0]) (before ++ .spec p :: behind) → format.chars.length < fuel →
    p.WidthInt a (argsTaken before) → EmitsC99 a format fuel before p behind := by
  intro h
  have hwidth : leftField.WidthInt fortyTwo (argsTaken []) := ⟨fun w pos h => by cases h; decide, fun h => by cases h⟩
  have hemits := h fortyTwo leftField.format 5 [] leftField [] (format_scan leftField) (by decide +kernel) hwidth
  have hrun : emitted fortyTwo leftField.format 5 = some [ch '4', ch '2'] := by decide +kernel
  have hfield : leftField.c99Field fortyTwo 0 = [ch '4', ch '2', ch ' ', ch ' ', ch ' '] := by decide +kernel
  rw [EmitsC99, hrun, show argsTaken [] = 0 from rfl, hfield] at hemits
  exact absurd hemits (by decide)

end Borgos.Libc
