import Borgos.Libc.DoprntLaws

/-! # The run of `_doprnt` over a format

A format is cut into segments in one way, and the run outputs what the segments add.
-/
namespace Borgos.Libc
open Borgos.Foundations Numeral
set_option autoImplicit false

section Sections
variable {ω : Type} {caller : Caller ω} {rest : List Byte} {st : DoprntState ω}

def argAt (caller : Caller ω) (ap : ℕ) : ℤ := intArg (caller.args ap)

theorem vaInt_run : vaInt caller st = .next (argAt caller st.ap) { st with ap := st.ap + 1 } := rfl

theorem parseWidth_none (s : Section) {c : Byte} (hstar : c ≠ ch '*') (hdecimal : isDecimal c = false) :
    parseWidth caller s (c :: rest) st = .next (Width.apply (argAt caller st.ap) s .none, c :: rest) st := by
  have hscan : scanWidth (c :: rest) 0 = some (0, c :: rest) := scanWidth_stop hdecimal 0
  simp [parseWidth, peek, hstar, hscan, Width.apply]

theorem parseWidth_literal (s : Section) {w : ℕ} (pos : 0 < w) {c : Byte} (hdecimal : isDecimal c = false) :
    parseWidth caller s (numeralText 10 w ++ c :: rest) st =
      .next (Width.apply (argAt caller st.ap) s (.literal w pos), c :: rest) st := by
  obtain ⟨d, t, htext, hpos, hlt⟩ := head_literal pos
  have hscan : scanWidth (letterDigit d :: (t ++ c :: rest)) 0 = some (int32 w, c :: rest) := by
    rw [← List.cons_append, ← htext]
    exact scanWidth_numeral w hdecimal
  have hd : letterDigit d ≠ ch '*' := by
    interval_cases d <;> decide
  simp [parseWidth, htext, peek, hd, hscan, Width.apply]

theorem parseWidth_star (s : Section) : parseWidth caller s (ch '*' :: rest) st =
    .next (Width.apply (argAt caller st.ap) s .star, rest) { st with ap := st.ap + 1 } := by
  by_cases hneg : argAt caller st.ap < 0
  · simp [parseWidth, peek, Width.apply, vaInt_run, hneg]
  · simp [parseWidth, peek, Width.apply, vaInt_run, hneg]

theorem parseWidth_text (s : Section) (width : Width) {c : Byte} (hc : Plain c) :
    parseWidth caller s (width.text ++ c :: rest) st =
      .next (Width.apply (argAt caller st.ap) s width, c :: rest)
        { st with ap := st.ap + if width = .star then 1 else 0 } := by
  obtain ⟨-, -, -, hstar, hdecimal⟩ := hc
  cases width with
  | none => exact parseWidth_none s hstar hdecimal
  | literal w pos => exact parseWidth_literal s pos hdecimal
  | star => exact parseWidth_star s

theorem scanFlags_text (rest : List Byte) (p : Spec) :
    ∃ c t, p.width.text ++ (p.size.text ++ p.conv.char :: rest) = c :: t ∧
    c ≠ ch '-' ∧ c ≠ ch '#' ∧ c ≠ ch '0' := by
  obtain ⟨c, t, htail, hc⟩ := head_plain rest p.size p.conv
  cases hwidth : p.width with
  | none => exact ⟨c, t, by rw [htail]; rfl, hc.1, hc.2.1, hc.2.2.1⟩
  | literal w pos =>
    obtain ⟨d, l, htext, hpos, hlt⟩ := head_literal pos
    refine ⟨letterDigit d, l ++ (p.size.text ++ p.conv.char :: rest), by rw [Width.text, htext, List.cons_append], ?_⟩
    interval_cases d <;> decide
  | star => exact ⟨ch '*', p.size.text ++ p.conv.char :: rest, rfl, by decide⟩

theorem parseSection_text (p : Spec) :
    parseSection caller (p.text ++ rest) st =
      .next (p.scanned (argAt caller st.ap), p.conv.char :: rest) { st with ap := st.ap + p.starArgs } := by
  obtain ⟨c, t, htail, hc⟩ := head_plain rest p.size p.conv
  obtain ⟨f, l, hhead, hminus, hhash, hzero⟩ := scanFlags_text rest p
  have htext : p.text ++ rest = p.flags.map Flag.char ++ (p.width.text ++ (p.size.text ++ p.conv.char :: rest)) := by
    simp [Spec.text]
  have hflags : scanFlags (p.text ++ rest) Section.start =
      some (flagsSection p.flags Section.start, p.width.text ++ (p.size.text ++ p.conv.char :: rest)) := by
    rw [htext, scanFlags_map, hhead, scanFlags_stop hminus hhash hzero]
  unfold parseSection
  rw [hflags, Body.need_some, Body.pure_bind]
  simp only
  rw [Body.bind_run, htail, parseWidth_text _ _ hc, Exit.andThen_next, ← htail]
  simp only
  rw [scanSize_text, Body.need_some, Body.pure_bind]
  rfl

theorem numericStr_run (value : BitVec 64) {base : ℕ} (hbase : 2 ≤ base) (hmax : base ≤ 36) :
    (numericStr value base : DoprntBody ω (List Byte)) = pure (digitsOf value base) := by
  have hpow : value.toNat < base ^ 64 := value.isLt.trans_le (Nat.pow_le_pow_left hbase 64)
  have hlen : (numeralText base value.toNat).length < 67 := by
    have hle := length_numeral_le hbase (by decide) hpow
    rw [length_numeralText]
    omega
  have hdigits : ∀ c ∈ numeralText base value.toNat, decide (c ≠ 0) = true := by
    intro c hc
    obtain ⟨d, hd, rfl⟩ := mem_numeralText hbase hc
    have hlt : d < 36 := hd.trans_le hmax
    interval_cases d <;> rfl
  unfold numericStr
  rw [itoa_eq hbase value hlen, Body.need_some, Body.pure_bind, List.takeWhile_append_of_pos hdigits]
  simp [digitsOf]

theorem signedArg_run (size : ValueSize) :
    signedArg caller size st = .next (signedValue size (caller.args st.ap)) { st with ap := st.ap + 1 } := by
  unfold signedArg signedValue
  split_ifs
  · rfl
  · rfl

theorem unsignedArg_run (size : ValueSize) :
    unsignedArg caller size st = .next (unsignedValue size (caller.args st.ap)) { st with ap := st.ap + 1 } := rfl

theorem convert_conv (p : Spec) (star : ℤ) (hhash : (p.scanned star).hashtype = decide (.hash ∈ p.flags)) :
    convert caller (p.scanned star) p.conv.char st =
      .next (some (p.conversion caller.toArguments (caller.args st.ap))) { st with ap := st.ap + 1 } := by
  have hsize : (p.scanned star).valueSize = p.size := rfl
  unfold convert Spec.conversion
  rw [hsize, hhash]
  cases p.conv with
  | s => rfl
  | d => simp [Conv.char, ch, signedArg_run, numericStr_run, signedConversion]
  | i => simp [Conv.char, ch, signedArg_run, numericStr_run, signedConversion]
  | u => simp [Conv.char, ch, unsignedArg_run, numericStr_run]
  | x => simp [Conv.char, ch, unsignedArg_run, numericStr_run]

theorem scanned_hashtype (p : Spec) (star : ℤ) : (p.scanned star).hashtype = decide (.hash ∈ p.flags) := by
  rw [Spec.scanned_eq]

/-- The characters that a specification adds to the output, with its arguments from slot `ap` on. -/
def Spec.chars (a : Arguments) (ap : ℕ) (p : Spec) : List Byte :=
  fieldText (p.scanned (intArg (a.args ap))) (p.conversion a (a.args (ap + p.starArgs)))

theorem doSection_text (p : Spec) : doSection caller (p.text ++ rest) st =
    (putChars caller (p.chars caller.toArguments st.ap) { st with ap := st.ap + p.argsUsed }).andThen
      fun _ => pure (some rest) := by
  unfold doSection
  rw [Body.bind_run, parseSection_text, Exit.andThen_next]
  simp only [peek, Body.pure_bind]
  rw [Body.bind_run, convert_conv p _ (scanned_hashtype p _), Exit.andThen_next]
  simp only [List.tail_cons, outputField_eq]
  rfl

end Sections

/-! ## What is not a specification -/

section Stray
variable {ω : Type} {caller : Caller ω} {st : DoprntState ω} {arr : List Byte}

def isFlag (c : Byte) : Bool := c = ch '-' || c = ch '#' || c = ch '0'

/-- The arguments that are taken before it turns out that there is no specification: one for a `*`. -/
def strayArgs (arr : List Byte) : ℕ := if (arr.dropWhile isFlag).head? = some (ch '*') then 1 else 0

theorem scanFlags_any (h : 0 ∈ arr) : ∃ l c t, arr = List.map Flag.char l ++ c :: t ∧ 0 ∈ c :: t ∧ c ≠ ch '0' ∧
    arr.dropWhile isFlag = c :: t ∧ ∀ s, scanFlags arr s = some (flagsSection l s, c :: t) := by
  induction arr with
  | nil => exact absurd h List.not_mem_nil
  | cons c arr ih =>
    by_cases hflag : ∃ f : Flag, f.char = c
    · obtain ⟨f, rfl⟩ := hflag
      have hne : (0 : Byte) ≠ f.char := by
        cases f <;> decide
      have hrest : 0 ∈ arr := (List.mem_cons.mp h).resolve_left hne
      obtain ⟨l, c, t, harr, hzero, hc, hdrop, hscan⟩ := ih hrest
      refine ⟨f :: l, c, t, by rw [harr]; rfl, hzero, hc, ?_, ?_⟩
      · have hf : isFlag f.char = true := by
          cases f <;> rfl
        rw [List.dropWhile_cons_of_pos hf, hdrop]
      · intro s
        have hstep : scanFlags (f.char :: arr) s = scanFlags arr (Flag.apply s f) := by
          cases f <;> rfl
        rw [hstep, hscan]
        rfl
    · have hminus : c ≠ ch '-' := fun hc => hflag ⟨.minus, hc.symm⟩
      have hhash : c ≠ ch '#' := fun hc => hflag ⟨.hash, hc.symm⟩
      have hzero : c ≠ ch '0' := fun hc => hflag ⟨.zero, hc.symm⟩
      refine ⟨[], c, arr, rfl, h, hzero, ?_, fun s => scanFlags_stop hminus hhash hzero s⟩
      rw [List.dropWhile_cons_of_neg]
      simp [isFlag, hminus, hhash, hzero]

/-- Digits, and what follows them. -/
theorem digits_any (h : 0 ∈ arr) : ∃ (l : List ℕ) (c : Byte) (t : List Byte), arr = l.map letterDigit ++ c :: t ∧
    0 ∈ c :: t ∧ (∀ d ∈ l, d < 10) ∧ isDecimal c = false := by
  induction arr with
  | nil => exact absurd h List.not_mem_nil
  | cons c arr ih =>
    by_cases hdecimal : isDecimal c = true
    · have hne : (0 : Byte) ≠ c := by
        rintro rfl
        exact absurd hdecimal (by decide)
      obtain ⟨l, c', t, harr, hzero, hl, hc'⟩ := ih ((List.mem_cons.mp h).resolve_left hne)
      have hbounds : ch '0' ≤ c ∧ c ≤ ch '9' := by simpa [isDecimal] using hdecimal
      have hlow : 0x30 ≤ c.toNat := hbounds.1
      have hhigh : c.toNat ≤ 0x39 := hbounds.2
      have hdigit : letterDigit (c.toNat - 0x30) = c := by
        have hlt : c.toNat - 0x30 < 10 := by omega
        rw [letterDigit_of_lt hlt]
        apply BitVec.eq_of_toNat_eq
        rw [plainDigit, BitVec.toNat_add, BitVec.toNat_ofNat]
        simp only [BitVec.reduceToNat]
        omega
      refine ⟨(c.toNat - 0x30) :: l, c', t, by rw [List.map_cons, hdigit, List.cons_append, harr], hzero, ?_, hc'⟩
      intro d hd
      rcases List.mem_cons.mp hd with rfl | hd
      · omega
      · exact hl d hd
    · exact ⟨[], c, arr, rfl, h, by simp, by simpa using hdecimal⟩

/-- A list of digits that does not begin with 0 is a numeral. -/
theorem numeral_of_digits {l : List ℕ} (hl : ∀ d ∈ l, d < 10) (hhead : l.head? ≠ some 0) (hne : l ≠ []) :
    ∃ w > 0, numeral 10 w = l := by
  have hreverse : l.reverse ≠ [] := by simpa using hne
  have hlast : l.reverse.getLast hreverse ≠ 0 := by
    intro hc
    apply hhead
    rw [← hc, ← List.getLast?_eq_getLast_of_ne_nil, List.getLast?_reverse]
  have hdigits : Nat.digits 10 (Nat.ofDigits 10 l.reverse) = l.reverse := by
    apply Nat.digits_ofDigits 10 (by decide)
    · intro d hd
      exact hl d (List.mem_reverse.mp hd)
    · intro h
      exact hlast
  have hpos : Nat.ofDigits 10 l.reverse ≠ 0 := by
    intro hc
    rw [hc, Nat.digits_zero] at hdigits
    exact hreverse hdigits.symm
  refine ⟨Nat.ofDigits 10 l.reverse, Nat.pos_of_ne_zero hpos, ?_⟩
  rw [numeral_of_pos hpos, hdigits, List.reverse_reverse]

theorem parseWidth_any {c : Byte} {t : List Byte} (h : 0 ∈ c :: t) (hc : c ≠ ch '0') :
    ∃ width c' t', c :: t = Width.text width ++ c' :: t' ∧ 0 ∈ c' :: t' ∧ ∀ s, parseWidth caller s (c :: t) st =
      .next (Width.apply (argAt caller st.ap) s width, c' :: t')
        { st with ap := st.ap + if c = ch '*' then 1 else 0 } := by
  by_cases hstar : c = ch '*'
  · subst hstar
    have ht : 0 ∈ t := (List.mem_cons.mp h).resolve_left (by decide)
    obtain ⟨c', t', rfl⟩ := List.exists_cons_of_ne_nil (List.ne_nil_of_mem ht)
    exact ⟨.star, c', t', rfl, ht, fun s => parseWidth_star s⟩
  · obtain ⟨l, c', t', htext, hzero, hl, hc'⟩ := digits_any h
    rw [if_neg hstar]
    rcases Decidable.em (l = []) with rfl | hne
    · obtain ⟨rfl, rfl⟩ := List.cons.inj htext
      exact ⟨.none, c, t, rfl, hzero, fun s => parseWidth_none s hstar hc'⟩
    · have hhead : l.head? ≠ some 0 := by
        obtain ⟨d, l', rfl⟩ := List.exists_cons_of_ne_nil hne
        intro hzero
        obtain rfl := Option.some.inj hzero
        exact hc (List.cons.inj htext).1
      obtain ⟨w, pos, hw⟩ := numeral_of_digits hl hhead hne
      have hnumeral : c :: t = numeralText 10 w ++ c' :: t' := by
        rw [htext, numeralText, hw]
      refine ⟨.literal w pos, c', t', hnumeral, hzero, ?_⟩
      intro s
      rw [hnumeral]
      exact parseWidth_literal s pos hc'

theorem scanSize_any (h : 0 ∈ arr) : ∃ size c t, arr = ValueSize.text size ++ c :: t ∧ 0 ∈ c :: t ∧
    scanSize arr = some (size, c :: t) := by
  obtain ⟨c, t, rfl⟩ := List.exists_cons_of_ne_nil (List.ne_nil_of_mem h)
  by_cases hlong : c = ch 'l'
  · subst hlong
    have ht : 0 ∈ t := (List.mem_cons.mp h).resolve_left (by decide)
    obtain ⟨c', t', rfl⟩ := List.exists_cons_of_ne_nil (List.ne_nil_of_mem ht)
    exact ⟨.long, c', t', rfl, ht, rfl⟩
  · by_cases hshort : c = ch 'h'
    · subst hshort
      have ht : 0 ∈ t := (List.mem_cons.mp h).resolve_left (by decide)
      obtain ⟨c', t', rfl⟩ := List.exists_cons_of_ne_nil (List.ne_nil_of_mem ht)
      by_cases hagain : c' = ch 'h'
      · subst hagain
        have ht' : 0 ∈ t' := (List.mem_cons.mp ht).resolve_left (by decide)
        obtain ⟨c', t', rfl⟩ := List.exists_cons_of_ne_nil (List.ne_nil_of_mem ht')
        exact ⟨.shortShort, c', t', rfl, ht', rfl⟩
      · refine ⟨.short, c', t', rfl, ht, ?_⟩
        have hne : ch 'h' ≠ ch 'l' := by decide
        simp [scanSize, hne, hagain]
    · refine ⟨.normal, c, t, rfl, h, ?_⟩
      simp [scanSize, hlong, hshort]

theorem convert_other {c : Byte} (h : ∀ conv : Conv, conv.char ≠ c) (s : Section) :
    convert caller s c st = .next none st := by
  have hs : c ≠ ch 's' := (h .s).symm
  have hd : ¬ (c = ch 'i' ∨ c = ch 'd') := by
    rintro (hc | hc)
    · exact h .i hc.symm
    · exact h .d hc.symm
  have hu : c ≠ ch 'u' := (h .u).symm
  have hx : c ≠ ch 'x' := (h .x).symm
  rw [convert, if_neg hs, if_neg hd, if_neg hu, if_neg hx]
  rfl

/-- The scan of what does not begin with a specification comes back with nothing but an argument gone. -/
theorem doSection_stray (h : 0 ∈ arr) (hnot : ∀ (p : Spec) (t : List Byte), arr ≠ p.text ++ t) :
    doSection caller arr st = .next none { st with ap := st.ap + strayArgs arr } := by
  obtain ⟨flags, c, t, hflags, hzero, hc, hdrop, hscan⟩ := scanFlags_any h
  obtain ⟨width, c', t', hwidth, hzero', hparse⟩ := parseWidth_any hzero hc
  obtain ⟨size, c'', t'', hsize, -, hscan'⟩ := scanSize_any hzero'
  have hother : ∀ conv : Conv, conv.char ≠ c'' := by
    rintro conv rfl
    apply hnot ⟨flags, width, size, conv⟩ t''
    rw [hflags, hwidth, hsize]
    simp [Spec.text]
  have hstray : strayArgs arr = if c = ch '*' then 1 else 0 := by
    rw [strayArgs, hdrop]
    simp
  have hsection : ∃ s, parseSection caller arr st = .next (s, c'' :: t'') { st with ap := st.ap + strayArgs arr } := by
    unfold parseSection
    rw [hscan, Body.need_some, Body.pure_bind]
    simp only
    rw [Body.bind_run, hparse, Exit.andThen_next, hstray]
    simp only
    rw [hscan', Body.need_some, Body.pure_bind]
    exact ⟨_, rfl⟩
  obtain ⟨s, hsection⟩ := hsection
  unfold doSection
  rw [Body.bind_run, hsection, Exit.andThen_next]
  simp only [peek, Body.pure_bind]
  rw [Body.bind_run, convert_other hother, Exit.andThen_next]
  rfl

end Stray
end Borgos.Libc
