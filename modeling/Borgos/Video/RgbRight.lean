import Borgos.Libc.FieldRight
import Borgos.Video.RgbConsole

/-! # Where the RGB console is a scrolling terminal -/
namespace Borgos.Video
open Borgos.Foundations Libc
set_option autoImplicit false

/-! ## Characters -/

section Characters
variable {i : FbInfo} {s : Fb Byte} {t : Text Byte} {b : Byte}

/-- The functions have the bytes of a pixel right, or there is but one cell, which is always blank. -/
def FbInfo.Draws (i : FbInfo) : Prop := i.bytespp = i.pixelBytes ∨ i.rows * i.cols = 1

/-- What a byte is to the terminal. -/
def byteInput (b : Byte) : Option Byte := if b = 0x0A then none else some b

def RgbShows (i : FbInfo) (s : Fb Byte) (t : Text Byte) : Prop :=
  Shows i.rows i.cols 0x20 s.currow s.curcol (CellShows i s.mem) t

theorem fbRgbInit_run (i : FbInfo) (mem : ℕ → Byte) : ∃ s, fbRgbInitDefaultVga ⟨i, mem⟩ = some s ∧ RgbKept i s ∧
    s.currow = 0 ∧ s.curcol = 0 ∧ s.mem = memset mem 0 clearbyte i.cleared := by
  obtain ⟨s, hs⟩ : ∃ s : Fb Byte, s =
      ⟨{ i with
          fbbytespp := i.fbpitch / i.fbwidth % 256
          fbfgrgbcol := 0x00FFFDD0
          fbbgrgbcol := 0x00333333
          textrows := i.fbheight / 16
          textcols := i.fbwidth / 8
          curcolor := 0x09 }, mem⟩ := ⟨_, rfl⟩
  have hk : RgbKept i s := by
    rw [hs]
    exact ⟨rfl, rfl, rfl, rfl, rfl, rfl, rfl, rfl⟩
  have hrun : fbRgbInitDefaultVga ⟨i, mem⟩ = fbRgbCls s := by
    rw [hs]
    rfl
  have hmem : s.mem = mem := by
    rw [hs]
  rw [hrun, fbRgbCls_run hk, ← hmem]
  exact ⟨_, rfl, hk.move _ 0 0, rfl, rfl, rfl⟩

/-- `D` is what was displayed before the newline; where there is only one row, it does not matter. -/
theorem fbRgbNewline_shows (hm : RgbMode i) (hreach : i.Reaches) (hk : RgbKept i s) {col : ℕ} {D : ℕ → ℕ → Byte → Prop}
    (hs : Shows i.rows i.cols 0x20 s.currow col D t)
    (hD : i.rows = 1 ∨ ∀ r c x, c < i.cols → D r c x → CellShows i s.mem r c x) :
    ∃ s', fbRgbNewline s = some s' ∧ RgbKept i s' ∧ RgbShows i s' t.newline := by
  obtain ⟨hpos, hrows, -⟩ := hm.rows_bounds
  have hheight := hm.height_le
  have hrow : s.currow < i.rows := by
    rw [hs.row_eq]
    exact Text.cursor_lt hpos t
  have hnext : uint32 (s.currow + 1) = s.currow + 1 := uint32_of_lt (by omega)
  have hk1 : RgbKept i { s with currow := s.currow + 1, curcol := 0 } := hk.move s.mem (s.currow + 1) 0
  unfold fbRgbNewline
  rw [hnext]
  by_cases hlast : s.textrows ≤ s.currow + 1
  · have hlast' : s.currow + 1 = i.rows := by
      rw [hk.textrows] at hlast
      omega
    refine ⟨_, (if_pos hlast).trans (fbRgbScroll_run hm hk1), hk1.move _ _ _, ?_⟩
    apply hs.scroll hlast'
    · intro r hr c hc x hx
      have hshows := hD.resolve_left (by omega) (r + 1) c x hc hx
      exact scrolled_up hm hreach hr hc hshows
    · intro c hc
      exact scrolled_blank hm hreach hc
  · refine ⟨_, if_neg hlast, hk1, ?_⟩
    rw [hk.textrows] at hlast
    apply hs.newline (by omega)
    intro r hr c hc x hx
    exact hD.resolve_left (by omega) r c x hc hx

/-- What a character displays, and where it matters that it is right. -/
theorem fbRgbPutcharat_shows (hm : RgbMode i) (hreach : i.Reaches) (hdraws : i.Draws) (hk : RgbKept i s)
    (hb : b.toNat < 128) {r c : ℕ} (hr : r < i.rows) (hc : c < i.cols) :
    ∃ (m : ℕ → Byte) (D : ℕ → ℕ → Byte → Prop), fbRgbPutcharat s b.toInt s.fbfgrgbcol r c = some { s with mem := m } ∧
      D r c b ∧
      (∀ r' < i.rows, ∀ c' < i.cols, r' ≠ r ∨ c' ≠ c → ∀ x, CellShows i s.mem r' c' x → D r' c' x) ∧
      (i.rows * i.cols = 1 ∨ ∀ r c x, c < i.cols → D r c x → CellShows i m r c x) := by
  rcases hdraws with hbytes | hone
  · obtain ⟨m, hrun, hnew, hold⟩ := glyph_shows hm hreach hbytes hk hb hr hc
    exact ⟨m, CellShows i m, hrun, hnew, fun r' _ c' hc' hne x hx => hold r' c' x hc' hne hx, .inr fun r c x _ hx => hx⟩
  · obtain ⟨m, hrun, -⟩ := glyph_invariant hm hk hb hr hc (fun _ _ _ => True) trivial (fun _ _ _ _ _ _ => trivial)
      fun _ _ _ _ => trivial
    exact ⟨m, fun _ _ _ => True, hrun, trivial, fun _ _ _ _ _ _ _ => trivial, .inl hone⟩

theorem fbRgbPutchar_shows (hm : RgbMode i) (hreach : i.Reaches) (hdraws : i.Draws) (hk : RgbKept i s)
    (hs : RgbShows i s t) (hroom : t.last.length < i.cols) (hb : b.toNat < 128) :
    ∃ s', fbRgbPutchar s b.toInt = some s' ∧ RgbKept i s' ∧ RgbShows i s' (t.next i.cols (byteInput b)) := by
  obtain ⟨hpos, hrows, -⟩ := hm.rows_bounds
  obtain ⟨-, hcols⟩ := hm.cols_bounds
  have hheight := hm.height_le
  have hwidth := hm.width_le
  have hnl : b.toInt = 0x0A ↔ b = 0x0A := by
    rw [toInt_of_lt hb]
    constructor
    · intro h
      apply BitVec.eq_of_toNat_eq
      exact Int.ofNat_inj.mp h
    · rintro rfl
      rfl
  unfold fbRgbPutchar byteInput
  by_cases hnewline : b = 0x0A
  · rw [if_pos (hnl.mpr hnewline), if_pos hnewline]
    exact fbRgbNewline_shows hm hreach hk hs (.inr fun r c x _ hx => hx)
  · have hrow : s.currow < i.rows := by
      rw [hs.row_eq]
      exact Text.cursor_lt hpos t
    have hcol : s.curcol < i.cols := by
      rw [hs.col_eq]
      exact hroom
    have hnext : uint32 (s.curcol + 1) = s.curcol + 1 := uint32_of_lt (by omega)
    obtain ⟨m, D, hrun, hnew, hold, hD⟩ := fbRgbPutcharat_shows hm hreach hdraws hk hb hrow hcol
    have hput : Shows i.rows i.cols 0x20 s.currow (s.curcol + 1) D (t.put b) := hs.put hnew hold
    have hfull : s.textcols ≤ s.curcol + 1 ↔ i.cols ≤ (t.put b).last.length := by
      rw [hk.textcols, hput.col_eq]
    have hk' : RgbKept i { s with mem := m, curcol := s.curcol + 1 } := hk.move m s.currow (s.curcol + 1)
    rw [if_neg fun h => hnewline (hnl.mp h), if_neg hnewline, hrun]
    simp only [Option.bind_eq_bind, Option.bind_some, hnext, Text.next, hfull]
    split_ifs with hwrap
    · apply fbRgbNewline_shows hm hreach hk' hput
      rcases hD with hone | hD
      · exact .inl (Nat.eq_one_of_mul_eq_one_right hone)
      · exact .inr hD
    · refine ⟨_, rfl, hk', hput.row_eq, hput.col_eq, ?_⟩
      intro r hr c hc
      have hmany : ¬ i.rows * i.cols = 1 := by
        intro hone
        have hcol1 : i.cols = 1 := Nat.eq_one_of_mul_eq_one_left hone
        rw [← hput.col_eq] at hwrap
        omega
      exact hD.resolve_left hmany r c _ hc (hput.cells r hr c hc)

/-- A byte from 0x80 on is looked up in front of the font. -/
theorem fbRgbPutchar_negative (s : Fb Byte) (hb : 128 ≤ b.toNat) : fbRgbPutchar s b.toInt = none := by
  have hneg := toInt_negative hb
  have hglyph : ∀ rgb row col, fbRgbPutcharat s b.toInt rgb row col = none := by
    intro rgb row col
    apply upTo_none
    rw [fontRow_negative hb]
    rfl
  unfold fbRgbPutchar
  rw [if_neg (by omega), hglyph]
  rfl

end Characters

/-! ## Strings -/

section Strings
variable (a : Arguments) {i : FbInfo}

/-- The bytes of a string, one after the other. -/
def putBytes (l : List Byte) (s : Fb Byte) : Option (Fb Byte) := l.foldlM (fun s b => fbRgbPutchar s b.toInt) s

theorem putBytes_append (l l' : List Byte) (s : Fb Byte) : putBytes (l ++ l') s = (putBytes l s).bind (putBytes l') :=
  List.foldlM_append

theorem after_kconsolePutc (l : List Byte) : ∀ fb : Option (Fb Byte), Accepts ⟨a, kconsolePutc⟩ l fb ∧
    after ⟨a, kconsolePutc⟩ l fb = fb.bind (putBytes l) := by
  induction l with
  | nil => exact fun fb => ⟨trivial, (Option.bind_fun_some fb).symm⟩
  | cons b l ih =>
    intro fb
    obtain ⟨haccepts, hafter⟩ := ih (fb.bind fun s => fbRgbPutchar s b.toInt)
    refine ⟨⟨le_rfl, haccepts⟩, ?_⟩
    have hstep : after ⟨a, kconsolePutc⟩ (b :: l) fb =
      after ⟨a, kconsolePutc⟩ l (fb.bind fun s => fbRgbPutchar s b.toInt) := rfl
    rw [hstep, hafter, Option.bind_assoc]
    rfl

def percentS : CString := ⟨[ch '%', ch 's'], by decide⟩

/-- The bytes of the string that is the first argument. -/
def printed (a : Arguments) : List Byte := stringArg a (a.args 0)

theorem kprintf_run (hlen : IsInt (printed a).length) (s : Fb Byte) :
    kprintf a percentS s = putBytes (printed a) s := by
  obtain ⟨p, hp⟩ : ∃ p : Spec, p = ⟨[], .none, .normal, .s⟩ := ⟨_, rfl⟩
  have hformat : percentS.chars = p.format.chars := by
    rw [hp]
    rfl
  have hscan : Scan (percentS.chars ++ [0]) [.spec p] := by
    rw [hformat]
    exact format_scan p
  have hwidth : p.WidthInt a 0 := by
    constructor
    · intro w pos h
      rw [hp] at h
      cases h
    · intro h
      rw [hp] at h
      cases h
  have houtput : output a 0 [.spec p] = printed a := by
    have hchars := chars_string hwidth (by rw [hp])
      (show printed a = stringArg a (a.args (0 + p.starArgs)) by rw [hp]; rfl) hlen
    simp only [output, Segment.chars, List.append_nil, hchars]
    rw [hp]
    simp [fieldLayout, Spec.leftjust, Spec.zeroFlag, Width.negative, Width.c99]
  obtain ⟨haccepts, hafter⟩ := after_kconsolePutc a (printed a) (some s)
  have hfuel : percentS.chars.length < percentS.length + 1 := Nat.lt_succ_self _
  unfold kprintf
  rw [doprnt_scan hscan hfuel, houtput, callPutc_run haccepts, hafter]
  rfl

/-- The strings of several calls are one. -/
theorem kprintf_calls (calls : List Arguments) (hlen : ∀ a ∈ calls, IsInt (printed a).length) :
    ∀ s : Fb Byte, calls.foldlM (fun s a => kprintf a percentS s) s = putBytes (calls.flatMap printed) s := by
  induction calls with
  | nil => exact fun s => rfl
  | cons a calls ih =>
    intro s
    have ih' := ih fun a' ha' => hlen a' (List.mem_cons_of_mem a ha')
    rw [List.foldlM_cons, kprintf_run a (hlen a List.mem_cons_self), List.flatMap_cons, putBytes_append]
    congr 1
    exact funext ih'

theorem putBytes_negative (l : List Byte) (h : ∃ b ∈ l, 128 ≤ b.toNat) : ∀ s, putBytes l s = none := by
  induction l with
  | nil =>
    obtain ⟨b, hmem, -⟩ := h
    exact absurd hmem List.not_mem_nil
  | cons b l ih =>
    intro s
    obtain ⟨b', hmem, hb'⟩ := h
    rw [putBytes, List.foldlM_cons]
    rcases List.mem_cons.mp hmem with rfl | hmem
    · rw [fbRgbPutchar_negative s hb']
      rfl
    · refine Option.bind_eq_none_iff.mpr fun s' hs' => ?_
      exact ih ⟨b', hmem, hb'⟩ s'

end Strings

/-! ## The console -/

section Console
variable (i : FbInfo) (mem : ℕ → Byte) (calls : List Arguments)

/-- The initialisation, and calls of `kprintf` with `%s`. -/
def rgbRun : Option (Fb Byte) :=
  (fbRgbInitDefaultVga ⟨i, mem⟩).bind fun s => calls.foldlM (fun s a => kprintf a percentS s) s

/-- All strings have a length that is an `int`. -/
def StringsInt : Prop := ∀ a ∈ calls, IsInt (printed a).length

/-- No access is out of bounds, and after the last character the screen shows the text. -/
def RgbRight : Prop :=
  ∃ s, rgbRun i mem calls = some s ∧ (calls.flatMap printed ≠ [] → ∀ r < i.rows, ∀ c < i.cols,
    CellShows i s.mem r c ((Text.ofInputs i.cols ((calls.flatMap printed).map byteInput)).cell i.rows 0x20 r c))

variable {i mem calls}

theorem rgbRun_init (hlen : StringsInt calls) : ∃ s₀, RgbKept i s₀ ∧ s₀.currow = 0 ∧ s₀.curcol = 0 ∧
    s₀.mem = memset mem 0 clearbyte i.cleared ∧ rgbRun i mem calls = putBytes (calls.flatMap printed) s₀ := by
  obtain ⟨s₀, hinit, hk, hrow, hcol, hmem⟩ := fbRgbInit_run i mem
  refine ⟨s₀, hk, hrow, hcol, hmem, ?_⟩
  rw [rgbRun, hinit, Option.bind_some, kprintf_calls calls hlen]

theorem cleared_blank (hreach : i.Reaches) {r c : ℕ} (hr : r < i.rows) (hc : c < i.cols) :
    CellShows i (memset mem 0 clearbyte i.cleared) r c 0x20 := by
  apply blank_shows
  intro y hy x hx j hj
  have hin := pixelAt_cleared hreach (show 16 * r + y < 16 * i.rows by omega) (show 8 * c + x < 8 * i.cols by omega)
  rw [memset_apply, if_pos (by omega)]

theorem rgb_right (hm : RgbMode i) (hreach : i.Reaches) (hdraws : i.Draws) (hlen : StringsInt calls)
    (hbytes : ∀ b ∈ calls.flatMap printed, b.toNat < 128) : RgbRight i mem calls := by
  obtain ⟨hcols, -⟩ := hm.cols_bounds
  obtain ⟨s₀, hk, hrow, hcol, hmem, hrgb⟩ := rgbRun_init (i := i) hlen
  have hrun := shows_run (w := i.cols) (fun (s : Fb Byte) (b : Byte) => fbRgbPutchar s b.toInt) byteInput
    (fun s t => RgbKept i s ∧ RgbShows i s t ∧ t.last.length < i.cols) (calls.flatMap printed) ?_ s₀ Text.empty ?_
  · obtain ⟨s, hs, -, hshows, -⟩ := hrun
    exact ⟨s, hrgb.trans hs, fun _ => hshows.cells⟩
  · rintro b hb s t ⟨hk, hshows, hroom⟩
    obtain ⟨s', hstep, hk', hshows'⟩ := fbRgbPutchar_shows hm hreach hdraws hk hshows hroom (hbytes b hb)
    exact ⟨s', hstep, hk', hshows', Text.length_last_next hcols _⟩
  · refine ⟨hk, ?_, hcols⟩
    rw [RgbShows, hrow, hcol, hmem]
    apply shows_empty
    intro r hr c hc
    exact cleared_blank hreach hr hc

theorem not_rgbRight_negative (hlen : StringsInt calls) (h : ∃ b ∈ calls.flatMap printed, 128 ≤ b.toNat) :
    ¬ RgbRight i mem calls := by
  rintro ⟨s, hs, -⟩
  obtain ⟨s₀, -, -, -, -, hrgb⟩ := rgbRun_init (i := i) hlen
  rw [hrgb, putBytes_negative _ h] at hs
  cases hs

end Console

/-! ## Modes in which it is not right -/

section Necessary
variable {i : FbInfo} {s : Fb Byte}

/-- A call that prints a string. -/
def stringCall (text : CString) : Arguments := ⟨fun _ => 1, fun _ => text⟩

theorem flatMap_stringCall (text : CString) : [stringCall text].flatMap printed = text.chars := List.append_nil _

theorem stringsInt_stringCall {text : CString} (h : IsInt text.chars.length) : StringsInt [stringCall text] := by
  intro a ha
  rw [List.mem_singleton.mp ha]
  exact h

def newlineText : CString := ⟨[0x0A], by decide⟩

/-- A newline at the top leaves alone what has not been cleared. -/
theorem fbRgbNewline_outside (hm : RgbMode i) (hk : RgbKept i s) (hrow : s.currow = 0)
    (hzero : ∀ p, i.cleared ≤ p → s.mem p = 0) {s' : Fb Byte} (hrun : fbRgbNewline s = some s') :
    ∀ p, i.cleared ≤ p → s'.mem p = 0 := by
  obtain ⟨hpos, -, -⟩ := hm.rows_bounds
  have hnext : uint32 (s.currow + 1) = 1 := by
    rw [hrow]
    exact uint32_of_lt (by decide)
  unfold fbRgbNewline at hrun
  rw [hnext] at hrun
  by_cases hlast : s.textrows ≤ 1
  · have hone : i.rows = 1 := by
      rw [hk.textrows] at hlast
      omega
    have hscroll := (if_pos hlast).symm.trans hrun
    rw [fbRgbScroll_run hm (hk.move s.mem 1 0)] at hscroll
    obtain rfl := Option.some.inj hscroll
    intro p hp
    obtain ⟨hstart, hset⟩ := one_row hone
    show i.scrolled s.mem p = 0
    rw [scrolled_apply, hstart, hset, if_neg (by omega)]
    split_ifs with hcopy
    · exact hzero _ (by omega)
    · exact hzero p hp
  · have hkept := (if_neg hlast).symm.trans hrun
    obtain rfl := Option.some.inj hkept
    exact hzero

/-- A pixel of a character is not black. -/
theorem glyphColour_red (b : Byte) (y x : ℕ) : colourByte (glyphColour b y x) 2 ≠ 0 := by
  unfold glyphColour
  split_ifs <;> decide

theorem reaches_of_right (hm : RgbMode i) (h : RgbRight i (fun _ => 0) [stringCall newlineText]) : i.Reaches := by
  obtain ⟨hrows, -, -⟩ := hm.rows_bounds
  obtain ⟨hcols, -⟩ := hm.cols_bounds
  have hlen : StringsInt [stringCall newlineText] := stringsInt_stringCall (by decide)
  obtain ⟨s, hs, hscreen⟩ := h
  obtain ⟨s₀, hk, hrow, -, hmem, hrgb⟩ := rgbRun_init (i := i) hlen
  have hrun : fbRgbNewline s₀ = some s := by
    rw [hrgb, flatMap_stringCall] at hs
    have hsingle : putBytes newlineText.chars s₀ = (fbRgbNewline s₀).bind some := rfl
    rwa [hsingle, Option.bind_fun_some] at hs
  have hzero := fbRgbNewline_outside hm hk hrow (by
    intro p hp
    rw [hmem, memset_apply, if_neg (by omega)]) hrun
  by_contra hnot
  have hpixel := hscreen (by rw [flatMap_stringCall]; exact List.cons_ne_nil _ _) (i.rows - 1) (by omega)
    (i.cols - 1) (by omega)
    15 (by decide) 7 (by decide) 2 (by decide)
  have hlastrow : 16 * (i.rows - 1) + 15 = 16 * i.rows - 1 := by omega
  have hlastcol : 8 * (i.cols - 1) + 7 = 8 * i.cols - 1 := by omega
  rw [hlastrow, hlastcol, hzero _ (Nat.le_of_not_lt hnot)] at hpixel
  exact glyphColour_red _ _ _ hpixel.symm

def vText : CString := ⟨[0x56], by decide⟩

theorem glyphColour_full {b : Byte} {y x j : ℕ} (hj : j < 3) (h : colourByte (glyphColour b y x) j = 0xFF) :
    j = 2 ∧ glyphColour b y x = 0x00FFFDD0 := by
  unfold glyphColour at h ⊢
  split_ifs at h ⊢ with hbit
  · interval_cases j
    · exact absurd h (by decide)
    · exact absurd h (by decide)
    · exact ⟨rfl, rfl⟩
  · interval_cases j <;> exact absurd h (by decide)

/-- Where a pixel of a character stores a byte 0xFF. -/
theorem pixelDrawn_full {m : ℕ → Byte} {row col y x p : ℕ} {b : Byte}
    (h : pixelDrawn i m row col (glyphColour b y x) p = 0xFF) :
    m p = 0xFF ∨ p = i.pixelPtr row col + 2 ∧ glyphColour b y x = 0x00FFFDD0 := by
  have h0 : colourByte (glyphColour b y x) 0 ≠ 0xFF := fun h => absurd (glyphColour_full (by decide) h).1 (by decide)
  have h1 : colourByte (glyphColour b y x) 1 ≠ 0xFF := fun h => absurd (glyphColour_full (by decide) h).1 (by decide)
  unfold pixelDrawn at h
  split_ifs at h with hone hfour
  · rw [Function.update_apply] at h
    split_ifs at h
    · exact absurd h h0
    · exact .inl h
  · unfold drawn at h
    simp only [Function.update_apply] at h
    split_ifs at h with hred hgreen hblue
    · exact .inr ⟨hred, (glyphColour_full (by decide) h).2⟩
    · exact absurd h h1
    · exact absurd h h0
    · exact .inl h
  · exact .inl h

/-- The bottom of a V is a single pixel. -/
theorem v_bottom {x : ℕ} (hx : x < 8) : glyphColour 0x56 11 x = 0x00FFFDD0 ↔ x = 3 := by
  have hfont : vgaG8x16Font ((0x56 : Byte).toNat * 16 + 11) = 0x10 := by decide +kernel
  unfold glyphColour
  rw [hfont]
  interval_cases x <;> decide

/-- Where there is a second cell, nothing scrolls at the first character. -/
theorem first_stays {b : Byte} (hk : RgbKept i s) (hrow : s.currow = 0) (hcol : s.curcol = 0)
    (hmany : 2 ≤ i.rows ∨ 2 ≤ i.cols) (hnl : b.toInt ≠ 0x0A) {m : ℕ → Byte}
    (hglyph : fbRgbPutcharat s b.toInt s.fbfgrgbcol 0 0 = some { s with mem := m }) {s' : Fb Byte}
    (hrun : fbRgbPutchar s b.toInt = some s') : s'.mem = m := by
  obtain ⟨t, ht⟩ : ∃ t : Fb Byte, t = { s with mem := m, curcol := uint32 (s.curcol + 1) } := ⟨_, rfl⟩
  have hstep : fbRgbPutchar s b.toInt = if t.textcols ≤ t.curcol then fbRgbNewline t else some t := by
    unfold fbRgbPutchar
    rw [if_neg hnl, hrow, hcol, hglyph, ht]
    rfl
  have hmem : t.mem = m := by rw [ht]
  have hkt : RgbKept i t := by
    rw [ht]
    exact hk.move m _ _
  have hnext : t.curcol = 1 := by
    rw [ht, hcol]
    exact uint32_of_lt (by decide)
  have hdown : uint32 (t.currow + 1) = 1 := by
    rw [ht, hrow]
    exact uint32_of_lt (by decide)
  rw [hstep] at hrun
  split_ifs at hrun with hwrap
  · have hnot : ¬ t.textrows ≤ 1 := by
      rw [hkt.textcols, hnext] at hwrap
      rw [hkt.textrows]
      omega
    unfold fbRgbNewline at hrun
    rw [hdown] at hrun
    have hstays := (if_neg hnot).symm.trans hrun
    obtain rfl := Option.some.inj hstays
    exact hmem
  · obtain rfl := Option.some.inj hrun
    exact hmem

/-- What the display of a V leaves where it is the first character. -/
theorem v_drawn (hm : RgbMode i) (hk : RgbKept i s) (hrow : s.currow = 0) (hcol : s.curcol = 0)
    (hmany : 2 ≤ i.rows ∨ 2 ≤ i.cols) {s' : Fb Byte} (hrun : putBytes vText.chars s = some s') {p : ℕ}
    (hp : s'.mem p = 0xFF) :
    s.mem p = 0xFF ∨ ∃ y < 16, ∃ x < 8, glyphColour 0x56 y x = 0x00FFFDD0 ∧ p = i.pixelPtr y x + 2 := by
  obtain ⟨hrows, -, -⟩ := hm.rows_bounds
  obtain ⟨hcols, -⟩ := hm.cols_bounds
  have hdrawn := glyph_invariant hm hk (show (0x56 : Byte).toNat < 128 by decide) hrows hcols
    (fun _ _ m => ∀ p, m p = 0xFF → s.mem p = 0xFF ∨ ∃ y < 16, ∃ x < 8, glyphColour 0x56 y x = 0x00FFFDD0 ∧
      p = i.pixelPtr y x + 2) (fun p h => .inl h) ?_ fun _ _ _ h => h
  · obtain ⟨m, hglyph, hfull⟩ := hdrawn
    have hsingle : putBytes vText.chars s = (fbRgbPutchar s (0x56 : Byte).toInt).bind some := rfl
    rw [hsingle, Option.bind_fun_some] at hrun
    rw [first_stays hk hrow hcol hmany (by decide) hglyph hrun] at hp
    exact hfull p hp
  · intro y hy x hx m hI p hp
    rcases pixelDrawn_full hp with hold | ⟨hpos, hfg⟩
    · exact hI p hold
    · refine .inr ⟨y, hy, x, hx, hfg, ?_⟩
      simpa using hpos

theorem v_cell {h w : ℕ} (hrows : 0 < h) (hmany : 2 ≤ h ∨ 2 ≤ w) :
    (Text.ofInputs w (vText.chars.map byteInput)).cell h 0x20 0 0 = 0x56 := by
  have hcell : ((Text.empty : Text Byte).put 0x56).cell h 0x20 0 0 = 0x56 := by
    have htop : (Text.empty : Text Byte).top h + 0 = 0 := by
      simp [Text.top, Text.rows, Text.empty]
      omega
    rw [Text.cell_put, if_pos ⟨htop, rfl⟩]
  have htext : Text.ofInputs w (vText.chars.map byteInput) = (Text.empty : Text Byte).next w (some 0x56) := rfl
  rw [htext, Text.next]
  split_ifs with hfull
  · have hone : w ≤ 1 := hfull
    have hcursor : ((Text.empty : Text Byte).put 0x56).cursor h = 0 := Nat.zero_sub _
    rw [Text.cell_newline_below (by omega), hcell]
  · exact hcell

theorem draws_of_right (hm : RgbMode i) (hreach : i.Reaches) {mem : ℕ → Byte} (h : RgbRight i mem [stringCall vText]) :
    i.Draws := by
  obtain ⟨hrows, -, -⟩ := hm.rows_bounds
  obtain ⟨hcols, -⟩ := hm.cols_bounds
  obtain ⟨s, hs, hscreen⟩ := h
  obtain ⟨s₀, hk, hrow, hcol, hmem, hrgb⟩ := rgbRun_init (i := i)
    (stringsInt_stringCall (show IsInt vText.chars.length by decide))
  rw [hrgb, flatMap_stringCall] at hs
  rw [flatMap_stringCall] at hscreen
  by_contra hnot
  obtain ⟨hbytes, hmore⟩ := not_or.mp hnot
  have hmany : 2 ≤ i.rows ∨ 2 ≤ i.cols := by
    by_contra hfew
    have hrow1 : i.rows = 1 := by omega
    have hcol1 : i.cols = 1 := by omega
    exact hmore (by rw [hrow1, hcol1])
  have hshows := hscreen (List.cons_ne_nil _ _) 0 hrows 0 hcols 11 (by decide) 3 (by decide) 2 (by decide)
  have hbottom : glyphColour 0x56 11 3 = 0x00FFFDD0 := (v_bottom (by decide)).mpr rfl
  rw [v_cell hrows hmany, hbottom] at hshows
  have hin := pixelAt_cleared hreach (show 16 * 0 + 11 < 16 * i.rows by omega) (show 8 * 0 + 3 < 8 * i.cols by omega)
  rcases v_drawn hm hk hrow hcol hmany hs hshows with hbefore | ⟨y, hy, x, hx, hfg, hpos⟩
  · rw [hmem, memset_apply, if_pos (by omega)] at hbefore
    exact absurd hbefore (by decide)
  · have hoff := hm.col_lt_pitch hm.pixelBytes_mul_le (show 3 < 8 * i.cols by omega)
    have hoff' := hm.col_lt_pitch (RgbMode.bytespp_mul_le i) (show x < 8 * i.cols by omega)
    have hnowrap := row_no_wrap hm hreach (show y < 16 * i.rows by omega)
    unfold FbInfo.pixelAt FbInfo.pixelPtr at hpos
    rw [hnowrap, Nat.add_assoc, Nat.add_assoc, Nat.mul_zero, Nat.zero_add, Nat.zero_add] at hpos
    obtain ⟨rfl, hcoleq⟩ := cell_inj hoff hoff' hpos
    obtain rfl := (v_bottom hx).mp hfg
    exact hbytes (by omega)

end Necessary

/-- **The RGB console is a scrolling terminal for bytes below 0x80, in exactly the modes whose sizes `fb.c` gets
right.** -/
theorem rgb_console_iff (i : FbInfo) (hm : RgbMode i) :
    ((∀ mem calls, StringsInt calls → (∀ b ∈ calls.flatMap printed, b.toNat < 128) → RgbRight i mem calls) ↔
      i.Reaches ∧ i.Draws) ∧
    ∀ mem calls, StringsInt calls → (∃ b ∈ calls.flatMap printed, 128 ≤ b.toNat) → ¬ RgbRight i mem calls := by
  constructor
  · constructor
    · intro h
      have hascii : ∀ text : CString, (∀ b ∈ text.chars, b.toNat < 128) →
          ∀ b ∈ [stringCall text].flatMap printed, b.toNat < 128 := by
        intro text htext
        rw [flatMap_stringCall]
        exact htext
      have hreach := reaches_of_right hm (h _ _ (stringsInt_stringCall (by decide)) (hascii newlineText (by decide)))
      exact ⟨hreach, draws_of_right hm hreach (h (fun _ => 0) _ (stringsInt_stringCall (by decide))
        (hascii vText (by decide)))⟩
    · rintro ⟨hreach, hdraws⟩ mem calls hlen hbytes
      exact rgb_right hm hreach hdraws hlen hbytes
  · intro mem calls hlen hbytes
    exact not_rgbRight_negative hlen hbytes

/-- 1024 by 768 pixels of 32 bits. -/
def xga : FbInfo := ⟨4096, 1024, 768, 32, 0, 0, 0, 0, 0, 0, 0, 0⟩

theorem xga_mode : RgbMode xga := by
  constructor <;> decide

theorem rgb_console_xga : (xga.Reaches ∧ xga.Draws) ∧
    (∀ mem calls, StringsInt calls → (∀ b ∈ calls.flatMap printed, b.toNat < 128) → RgbRight xga mem calls) ∧
    ∀ mem calls, StringsInt calls → (∃ b ∈ calls.flatMap printed, 128 ≤ b.toNat) → ¬ RgbRight xga mem calls := by
  have hreach : xga.Reaches := by
    norm_num [FbInfo.Reaches, FbInfo.pixelAt, FbInfo.rows, FbInfo.cols, FbInfo.pixelBytes, FbInfo.cleared, xga, uint32]
  have hsizes : xga.Reaches ∧ xga.Draws := ⟨hreach, .inl (by decide)⟩
  exact ⟨hsizes, (rgb_console_iff xga xga_mode).1.mpr hsizes, (rgb_console_iff xga xga_mode).2⟩

/-- The letter e with an acute accent. -/
def accentText : CString := ⟨[0xE9], by decide⟩

theorem accent_not_drawn : ¬ ∀ i : FbInfo, RgbMode i → ∀ mem calls, StringsInt calls → RgbRight i mem calls := by
  intro h
  have hlen : StringsInt [stringCall accentText] := stringsInt_stringCall (by decide)
  apply not_rgbRight_negative hlen ?_ (h xga xga_mode (fun _ => 0) _ hlen)
  rw [flatMap_stringCall]
  exact ⟨0xE9, List.mem_cons_self, by decide⟩

end Borgos.Video
