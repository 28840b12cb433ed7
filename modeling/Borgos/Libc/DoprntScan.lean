import Borgos.Foundations.FlatMemory
import Borgos.Libc.DoprntRun

/-! # The contract of `_doprnt` and `sprintf`

The array of a format is cut into segments, and the characters that they add are what the output function is called
with.
-/
namespace Borgos.Libc
open Borgos.Foundations Numeral FlatMemory
set_option autoImplicit false

/-! ## Segments -/

inductive Segment where
  | text (c : Byte)
  | spec (p : Spec)
  | stray (args : ℕ)

namespace Segment

def argsUsed : Segment → ℕ
  | text _ => 0
  | spec p => p.argsUsed
  | stray k => k

def chars (a : Arguments) (ap : ℕ) : Segment → List Byte
  | text c => [c]
  | spec p => p.chars a ap
  | stray _ => [ch '%']

end Segment

/-- The characters of the segments, with the arguments from slot `ap` on. -/
def output (a : Arguments) : ℕ → List Segment → List Byte
  | _, [] => []
  | ap, g :: segs => g.chars a ap ++ output a (ap + g.argsUsed) segs

/-- The segments of the array of a format, up to its NUL. A `%` is a stray one where neither another `%` nor a
specification follows; what follows it is scanned as if the `%` were not there. -/
inductive Scan : List Byte → List Segment → Prop
  | nul (rest : List Byte) : Scan (0 :: rest) []
  | text {c : Byte} {rest : List Byte} {segs : List Segment} (hnul : c ≠ 0) (hpercent : c ≠ ch '%')
      (h : Scan rest segs) :
      Scan (c :: rest) (.text c :: segs)
  | percent {rest : List Byte} {segs : List Segment} (h : Scan rest segs) :
      Scan (ch '%' :: ch '%' :: rest) (.text (ch '%') :: segs)
  | spec (p : Spec) {rest : List Byte} {segs : List Segment} (h : Scan rest segs) :
      Scan (ch '%' :: (p.text ++ rest)) (.spec p :: segs)
  | stray {rest : List Byte} {segs : List Segment} (hpercent : rest.head? ≠ some (ch '%'))
      (hnot : ∀ (p : Spec) (t : List Byte), rest ≠ p.text ++ t) (h : Scan rest segs) :
      Scan (ch '%' :: rest) (.stray (strayArgs rest) :: segs)

section Texts
variable {arr : List Byte} {segs : List Segment}

/-- The characters of a specification end no format and begin none. -/
theorem text_char (p : Spec) : ∀ c ∈ p.text, c ≠ 0 ∧ c ≠ ch '%' := by
  intro c hc
  simp only [Spec.text, List.mem_append, List.mem_map, List.mem_singleton] at hc
  rcases hc with ⟨f, -, rfl⟩ | hwidth | hsize | rfl
  · cases f <;> decide
  · cases hp : p.width with
    | none => simp [hp, Width.text] at hwidth
    | literal w pos =>
      rw [hp] at hwidth
      obtain ⟨d, hd, rfl⟩ := mem_numeralText (by decide) hwidth
      interval_cases d <;> decide
    | star =>
      rw [hp, Width.text, List.mem_singleton] at hwidth
      subst hwidth
      decide
  · cases hp : p.size <;> simp [hp, ValueSize.text] at hsize <;> subst hsize <;> decide
  · cases p.conv <;> decide

theorem nul_not_mem_text (p : Spec) : 0 ∉ p.text := fun h => (text_char p 0 h).1 rfl

theorem text_ne_nil (p : Spec) : p.text ≠ [] := by
  simp [Spec.text]

theorem text_head (p : Spec) (t : List Byte) : (p.text ++ t).head? ≠ some (ch '%') := by
  obtain ⟨c, l, hl⟩ := List.exists_cons_of_ne_nil (text_ne_nil p)
  rw [hl, List.cons_append, List.head?_cons]
  intro hc
  apply (text_char p c (by simp [hl])).2
  exact Option.some.inj hc

theorem Scan.nul_mem (h : Scan arr segs) : 0 ∈ arr := by
  induction h with
  | nul rest => exact List.mem_cons_self
  | text hnul hpercent h ih => exact List.mem_cons_of_mem _ ih
  | percent h ih => exact List.mem_cons_of_mem _ (List.mem_cons_of_mem _ ih)
  | spec p h ih => exact List.mem_cons_of_mem _ (List.mem_append_right _ ih)
  | stray hpercent hnot h ih => exact List.mem_cons_of_mem _ ih

/-- Every array with a NUL has its segments, by induction on its length. -/
theorem exists_scan (n : ℕ) : ∀ arr : List Byte, arr.length ≤ n → 0 ∈ arr → ∃ segs, Scan arr segs := by
  induction n with
  | zero =>
    intro arr hlen hzero
    rw [List.length_eq_zero_iff.mp (Nat.le_zero.mp hlen)] at hzero
    exact absurd hzero List.not_mem_nil
  | succ n ih =>
    intro arr hlen hzero
    obtain ⟨c, rest, rfl⟩ := List.exists_cons_of_ne_nil (List.ne_nil_of_mem hzero)
    have hlen' : rest.length ≤ n := Nat.le_of_succ_le_succ hlen
    by_cases hnul : c = 0
    · subst hnul
      exact ⟨[], .nul rest⟩
    · have hrest : 0 ∈ rest := (List.mem_cons.mp hzero).resolve_left (Ne.symm hnul)
      by_cases hpercent : c = ch '%'
      · subst hpercent
        by_cases hhead : rest.head? = some (ch '%')
        · obtain ⟨rest', rfl⟩ := List.head?_eq_some_iff.mp hhead
          have hrest' : 0 ∈ rest' := (List.mem_cons.mp hrest).resolve_left (by decide)
          obtain ⟨segs, h⟩ := ih rest' (Nat.le_of_succ_le hlen') hrest'
          exact ⟨_, .percent h⟩
        · by_cases hspec : ∃ (p : Spec) (t : List Byte), rest = p.text ++ t
          · obtain ⟨p, t, rfl⟩ := hspec
            have ht : 0 ∈ t := (List.mem_append.mp hrest).resolve_left (nul_not_mem_text p)
            rw [List.length_append] at hlen'
            obtain ⟨segs, h⟩ := ih t (by omega) ht
            exact ⟨_, .spec p h⟩
          · obtain ⟨segs, h⟩ := ih rest hlen' hrest
            exact ⟨_, .stray hhead (fun p t heq => hspec ⟨p, t, heq⟩) h⟩
      · obtain ⟨segs, h⟩ := ih rest hlen' hrest
        exact ⟨_, .text hnul hpercent h⟩

end Texts

/-! ## The run -/

section Run
variable {ω : Type} {caller : Caller ω} {arr : List Byte} {segs : List Segment}

/-- Characters, and then something that outputs `l'`. -/
theorem finish_putChars {l l' : List Byte} {st : DoprntState ω} {k : DoprntBody ω Unit}
    (hk : ∀ t : DoprntState ω, t.ap = st.ap → finish (k t) = some (callPutc caller l' t.charcount t.out)) :
    finish ((putChars caller l st).andThen fun _ => k) = some (callPutc caller (l ++ l') st.charcount st.out) := by
  rcases putChars_cases l st with ⟨t, ht, hap, hl⟩ | ⟨r, t, ht, hl⟩
  · rw [ht, Exit.andThen_next, hk t hap, hl]
  · rw [ht, hl]
    rfl

theorem doprntLoop_text (fuel : ℕ) {c : Byte} (rest : List Byte) (hnul : c ≠ 0) (hpercent : c ≠ ch '%') :
    doprntLoop caller (fuel + 1) (c :: rest) = putChars caller [c] >>= fun _ => doprntLoop caller fuel rest := by
  rw [doprntLoop, peek, Body.pure_bind, if_neg hnul, if_neg hpercent, putChars_singleton]
  rfl

theorem doprntLoop_percent (fuel : ℕ) (rest : List Byte) : doprntLoop caller (fuel + 1) (ch '%' :: ch '%' :: rest) =
    putChars caller [ch '%'] >>= fun _ => doprntLoop caller fuel rest := by
  rw [putChars_singleton]
  rfl

theorem doprntLoop_section (fuel : ℕ) {rest : List Byte} (hne : rest ≠ []) (hpercent : rest.head? ≠ some (ch '%')) :
    doprntLoop caller (fuel + 1) (ch '%' :: rest) = doSection caller rest >>= fun next =>
      match next with
      | some rest' => doprntLoop caller fuel rest'
      | none => putChars caller [ch '%'] >>= fun _ => doprntLoop caller fuel rest := by
  obtain ⟨c, t, rfl⟩ := List.exists_cons_of_ne_nil hne
  have hc : c ≠ ch '%' := fun h => hpercent (congrArg some h)
  have hstep : doprntLoop caller (fuel + 1) (ch '%' :: c :: t) = (if c ≠ ch '%' then
      doSection caller (c :: t) >>= fun next =>
        match next with
        | some rest' => doprntLoop caller fuel rest'
        | none => putChar caller (ch '%') >>= fun _ => doprntLoop caller fuel (c :: t)
      else putChar caller c >>= fun _ => doprntLoop caller fuel t) := rfl
  rw [hstep, if_pos hc, putChars_singleton]

theorem exists_fuel {α : Type} {c : α} {l : List α} {fuel : ℕ} (h : (c :: l).length ≤ fuel) :
    ∃ k, fuel = k + 1 ∧ l.length ≤ k := by
  cases fuel with
  | zero => simp at h
  | succ k => exact ⟨k, rfl, Nat.le_of_succ_le_succ h⟩

/-- The loop outputs the characters of the segments; the format gets shorter with each of them. -/
theorem doprntLoop_scan (h : Scan arr segs) : ∀ fuel, arr.length ≤ fuel → ∀ st : DoprntState ω,
    finish (doprntLoop caller fuel arr st) =
      some (callPutc caller (output caller.toArguments st.ap segs) st.charcount st.out) := by
  induction h with
  | nul rest =>
    intro fuel hfuel st
    obtain ⟨fuel, rfl, -⟩ := exists_fuel hfuel
    rfl
  | @text c rest segs hnul hpercent h ih =>
    intro fuel hfuel st
    obtain ⟨fuel, rfl, hlen⟩ := exists_fuel hfuel
    rw [doprntLoop_text fuel rest hnul hpercent, Body.bind_run]
    refine finish_putChars fun t hap => ?_
    rw [ih fuel hlen, hap]
    rfl
  | @percent rest segs h ih =>
    intro fuel hfuel st
    obtain ⟨fuel, rfl, hlen⟩ := exists_fuel hfuel
    rw [doprntLoop_percent, Body.bind_run]
    refine finish_putChars fun t hap => ?_
    rw [ih fuel (Nat.le_of_succ_le hlen), hap]
    rfl
  | @spec p rest segs h ih =>
    intro fuel hfuel st
    obtain ⟨fuel, rfl, hlen⟩ := exists_fuel hfuel
    rw [List.length_append] at hlen
    rw [doprntLoop_section fuel (by simp [text_ne_nil]) (text_head p rest), Body.bind_run, doSection_text]
    have hrun : ∀ x : Exit ℤ (DoprntState ω) Unit, ∀ f : Option (List Byte) → DoprntBody ω Unit,
        (x.andThen fun _ => pure (some rest)).andThen f = x.andThen fun _ => f (some rest) := by
      intro x f
      cases x <;> rfl
    rw [hrun]
    refine finish_putChars fun t hap => ?_
    rw [ih fuel (Nat.le_of_add_left_le hlen), hap]
    rfl
  | @stray rest segs hpercent hnot h ih =>
    intro fuel hfuel st
    obtain ⟨fuel, rfl, hlen⟩ := exists_fuel hfuel
    rw [doprntLoop_section fuel (List.ne_nil_of_mem h.nul_mem) hpercent, Body.bind_run, doSection_stray h.nul_mem hnot,
      Exit.andThen_next]
    simp only
    rw [Body.bind_run]
    refine finish_putChars fun t hap => ?_
    rw [ih fuel hlen, hap]
    rfl

end Run

/-! ## The contract -/

section Contracts
variable {ω : Type} (caller : Caller ω)

/-- The state of the output function after the characters of `l`. -/
def after (l : List Byte) (out : ω) : ω := l.foldl (fun out c => (caller.putcFunc c.toInt out).2) out

/-- The output function returns no negative value for the characters of `l`. -/
def Accepts : List Byte → ω → Prop
  | [], _ => True
  | c :: l, out => 0 ≤ (caller.putcFunc c.toInt out).1 ∧ Accepts l (caller.putcFunc c.toInt out).2

/-- What a run for the characters `l` returns and does: the first negative value, or, where the number of calls is one
that `Counts`, this number. -/
structure Contract (Counts : ℕ → Prop) (l : List Byte) (out : ω) (r : ℤ × ω) : Prop where
  stopped : ∀ l₁ c l₂, l = l₁ ++ c :: l₂ → Accepts caller l₁ out →
    (caller.putcFunc c.toInt (after caller l₁ out)).1 < 0 → r = caller.putcFunc c.toInt (after caller l₁ out)
  all : Accepts caller l out → r.2 = after caller l out
  count : Accepts caller l out → Counts l.length → r.1 = l.length

variable {caller}

theorem callPutc_accepts (l : List Byte) : ∀ (n : ℕ) (out : ω), Accepts caller l out →
    callPutc caller l (int32 n) out = (int32 (n + l.length : ℕ), after caller l out) := by
  induction l with
  | nil => exact fun n out _ => rfl
  | cons c l ih =>
    intro n out h
    have hcount : int32 (int32 n + 1) = int32 (n + 1 : ℕ) := by
      simp only [int32, Int.bmod_def]
      push_cast
      omega
    rw [callPutc, if_neg (Int.not_lt.mpr h.1), hcount, ih (n + 1) _ h.2, List.length_cons]
    have hlen : n + 1 + l.length = n + (l.length + 1) := by ring
    rw [hlen]
    rfl

theorem callPutc_stopped {l₁ : List Byte} {c : Byte} (l₂ : List Byte) : ∀ (count : ℤ) (out : ω), Accepts caller l₁ out →
    (caller.putcFunc c.toInt (after caller l₁ out)).1 < 0 →
    callPutc caller (l₁ ++ c :: l₂) count out = caller.putcFunc c.toInt (after caller l₁ out) := by
  induction l₁ with
  | nil => exact fun count out _ hneg => if_pos hneg
  | cons c' l₁ ih =>
    intro count out h hneg
    rw [List.cons_append, callPutc, if_neg (Int.not_lt.mpr h.1)]
    exact ih _ _ h.2 hneg

theorem callPutc_run {l : List Byte} {out : ω} (h : Accepts caller l out) :
    callPutc caller l 0 out = (int32 l.length, after caller l out) := by
  have hrun := callPutc_accepts l 0 out h
  rw [int32_of_isInt (show IsInt 0 by decide), Nat.zero_add] at hrun
  exact hrun

theorem callPutc_contract (l : List Byte) (out : ω) : Contract caller IsInt l out (callPutc caller l 0 out) where
  stopped := by
    rintro l₁ c l₂ rfl h hneg
    exact callPutc_stopped l₂ 0 out h hneg
  all := by
    intro h
    rw [callPutc_run h]
  count := by
    intro h hlen
    rw [callPutc_run h, int32_of_isInt hlen]

theorem doprnt_scan {format : CString} {segs : List Segment} (h : Scan (format.chars ++ [0]) segs) {fuel : ℕ}
    (hfuel : format.chars.length < fuel) (out : ω) :
    doprnt caller fuel format out = some (callPutc caller (output caller.toArguments 0 segs) 0 out) := by
  apply doprntLoop_scan h fuel
  simpa using hfuel

end Contracts

/-! ## `sprintf` -/

section Sprintf
variable (a : Arguments)

theorem after_sprntfCb (l : List Byte) : ∀ (mem : ℕ → Byte) (s : ℕ), Accepts ⟨a, sprntfCb⟩ l ⟨mem, s⟩ ∧
    after ⟨a, sprntfCb⟩ l ⟨mem, s⟩ = ⟨store mem s l, s + l.length⟩ := by
  induction l with
  | nil =>
    intro mem s
    exact ⟨trivial, by rw [store_nil]; rfl⟩
  | cons c l ih =>
    intro mem s
    have hcall : sprntfCb c.toInt ⟨mem, s⟩ = ((c.toNat : ℤ), ⟨Function.update mem s c, s + 1⟩) := by
      simp [sprntfCb]
    obtain ⟨haccepts, hafter⟩ := ih (Function.update mem s c) (s + 1)
    constructor
    · refine ⟨?_, ?_⟩
      · simp [hcall]
      · simpa [hcall] using haccepts
    · rw [after, List.foldl_cons]
      simp only [hcall]
      rw [store_cons, List.length_cons, show s + (l.length + 1) = s + 1 + l.length by ring]
      exact hafter

theorem sprintf_scan {format : CString} {segs : List Segment} (h : Scan (format.chars ++ [0]) segs) {fuel : ℕ}
    (hfuel : format.chars.length < fuel) (mem : ℕ → Byte) (str : ℕ) :
    sprintf a fuel mem str format = some (int32 (output a 0 segs).length, store mem str (output a 0 segs ++ [0])) := by
  obtain ⟨haccepts, hafter⟩ := after_sprntfCb a (output a 0 segs) mem str
  have hzero : ∀ (m : ℕ → Byte) (s : ℕ), Function.update m s 0 = store m s [0] := by
    intro m s
    rw [store_cons, store_nil]
  have hlen : ((str + (output a 0 segs).length : ℕ) : ℤ) - str = (output a 0 segs).length := by
    push_cast
    ring
  unfold sprintf
  rw [doprnt_scan h hfuel, callPutc_run haccepts, hafter, Option.map_some, hlen, hzero, store_append]

end Sprintf

section Formats
variable (a : Arguments) (format : CString)

/-- What `_doprnt` and `sprintf` do with the format, cut into `segs`. -/
structure Prints (Counts : ℕ → Prop) (segs : List Segment) (fuel : ℕ) : Prop where
  doprnt : ∀ {ω : Type} (putcFunc : ℤ → ω → ℤ × ω) (out : ω), ∃ r, doprnt ⟨a, putcFunc⟩ fuel format out = some r ∧
    Contract ⟨a, putcFunc⟩ Counts (output a 0 segs) out r
  sprintf : ∀ (mem : ℕ → Byte) (str : ℕ), ∃ n : ℤ,
    sprintf a fuel mem str format = some (n, store mem str (output a 0 segs ++ [0])) ∧
    (Counts (output a 0 segs).length → n = (output a 0 segs).length)

/-- The format has its segments, and with any of its cuts the run is the same. -/
def PrintsScanned (Counts : ℕ → Prop) : Prop :=
  (∃ segs, Scan (format.chars ++ [0]) segs) ∧
  ∀ segs, Scan (format.chars ++ [0]) segs → ∀ fuel, format.chars.length < fuel → Prints a format Counts segs fuel

theorem doprnt_contract : PrintsScanned a format IsInt := by
  constructor
  · exact exists_scan (format.chars ++ [0]).length (format.chars ++ [0]) le_rfl (by simp)
  · intro segs h fuel hfuel
    constructor
    · intro ω putcFunc out
      exact ⟨_, doprnt_scan h hfuel out, callPutc_contract (output a 0 segs) out⟩
    · intro mem str
      exact ⟨_, sprintf_scan a h hfuel mem str, fun hlen => int32_of_isInt hlen⟩

end Formats

/-! ## A count that is no `int` -/

section Wide
variable {w : ℕ}

def decimalField (pos : 0 < w) : Spec := ⟨[], .literal w pos, .normal, .d⟩

/-- `%wd%wd` -/
def twoFields (pos : 0 < w) : CString where
  chars := ch '%' :: ((decimalField pos).text ++ ch '%' :: (decimalField pos).text)
  noNul := by
    have htext : 0#8 ∉ (decimalField pos).text := nul_not_mem_text (decimalField pos)
    have hpercent : 0#8 ≠ ch '%' := by decide
    simp [htext, hpercent]

def zeroArgs : Arguments := ⟨fun _ => 0, fun _ => ⟨[], List.not_mem_nil⟩⟩

theorem twoFields_scan (pos : 0 < w) :
    Scan ((twoFields pos).chars ++ [0]) [.spec (decimalField pos), .spec (decimalField pos)] := by
  have hchars : (twoFields pos).chars ++ [0] =
      ch '%' :: ((decimalField pos).text ++ ch '%' :: ((decimalField pos).text ++ [0])) := by
    simp [twoFields]
  rw [hchars]
  exact .spec (decimalField pos) (.spec (decimalField pos) (.nul []))

theorem decimalField_length (pos : 0 < w) (hw : IsInt w) (ap : ℕ) :
    ((decimalField pos).chars zeroArgs ap).length = w := by
  have hscanned : (decimalField pos).scanned (intArg 0) = ⟨false, false, ch ' ', w, .normal⟩ := by
    rw [Spec.scanned_eq]
    simp [decimalField, Width.negative, Width.value, int32_of_isInt hw]
  have hconversion : (decimalField pos).conversion zeroArgs 0 = ⟨false, false, [ch '0']⟩ := rfl
  have hchars : (decimalField pos).chars zeroArgs ap =
      fieldText ((decimalField pos).scanned (intArg 0)) ((decimalField pos).conversion zeroArgs 0) := rfl
  have hblank : zeroPadded ⟨false, false, ch ' ', w, .normal⟩ = false := by
    simp [zeroPadded, ch]
  rw [hchars, hscanned, hconversion, fieldText_eq (by decide) hw rfl, hblank]
  simp only [Conversion.length, List.length_append, List.length_cons, List.length_replicate]
  simp
  omega

end Wide

/-- Two fields, each as wide as can be, are more characters than an `int` counts. -/
theorem two_wide_fields_not_counted : ¬ ∀ (a : Arguments) (format : CString), PrintsScanned a format fun _ => True := by
  intro h
  have hpos : 0 < 2147483647 := by norm_num
  have hint : IsInt 2147483647 := by norm_num [IsInt]
  have hscan := twoFields_scan hpos
  have hfuel := Nat.lt_succ_self (twoFields hpos).chars.length
  have hprints := (h zeroArgs (twoFields hpos)).2 _ hscan _ hfuel
  obtain ⟨r, hr, hcontract⟩ := hprints.doprnt (fun _ u => (0, u)) ()
  have haccepts : ∀ l : List Byte, Accepts ⟨zeroArgs, fun _ u => (0, u)⟩ l () := by
    intro l
    induction l with
    | nil => trivial
    | cons c l ih => exact ⟨le_rfl, ih⟩
  obtain ⟨text, htext⟩ : ∃ text, text = output zeroArgs 0 [.spec (decimalField hpos), .spec (decimalField hpos)] :=
    ⟨_, rfl⟩
  have hlen : text.length = 4294967294 := by
    rw [htext, output, List.length_append, output, List.length_append, output, List.length_nil]
    have hfield := decimalField_length hpos hint
    simp only [Segment.chars, hfield]
  have hrun := (doprnt_scan hscan hfuel ()).symm.trans hr
  rw [← htext] at hcontract hrun
  rw [callPutc_run (haccepts text), Option.some.injEq] at hrun
  have hcount := hcontract.count (haccepts text) trivial
  rw [← hrun, hlen] at hcount
  norm_num [int32, Int.bmod_def] at hcount

end Borgos.Libc
