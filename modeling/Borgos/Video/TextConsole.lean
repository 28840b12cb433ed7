import Borgos.Foundations.Terminal
import Borgos.Video.Fb

/-! # The text console is a scrolling terminal -/
namespace Borgos.Video
open Borgos.Foundations Libc
set_option autoImplicit false

/-! ## Cells -/

section Cells
variable {s : Fb (BitVec 16)}

/-- A mode whose cells are counted in a `uint32_t`. -/
structure TextMode (s : Fb (BitVec 16)) : Prop where
  width_pos : 0 < s.fbwidth
  height_pos : 0 < s.fbheight
  fits : s.fbwidth * s.fbheight < 4294967296

theorem uint32_of_lt {n : ℕ} (h : n < 4294967296) : uint32 n = n := by
  unfold uint32
  exact Nat.mod_eq_of_lt h

theorem uint32_le (n : ℕ) : uint32 n ≤ n := by
  unfold uint32
  exact Nat.mod_le n 4294967296

theorem uint32_lt (n : ℕ) : uint32 n < 4294967296 := by
  unfold uint32
  exact Nat.mod_lt n (by decide)

theorem uint32Sub_of_le {a b : ℕ} (hle : b ≤ a) (hlt : a < 4294967296) : uint32Sub a b = a - b := by
  unfold uint32Sub
  omega

theorem TextMode.height_lt (hm : TextMode s) : s.fbheight < 4294967296 :=
  Nat.lt_of_le_of_lt (Nat.le_mul_of_pos_left _ hm.width_pos) hm.fits

theorem TextMode.width_lt (hm : TextMode s) : s.fbwidth < 4294967296 :=
  Nat.lt_of_le_of_lt (Nat.le_mul_of_pos_right _ hm.height_pos) hm.fits

/-- The cells of the rows follow one another. -/
theorem cell_lt {w h r c : ℕ} (hr : r < h) (hc : c < w) : r * w + c < w * h := by
  calc r * w + c < (r + 1) * w := by
        rw [Nat.add_mul, Nat.one_mul]
        exact Nat.add_lt_add_left hc _
    _ ≤ h * w := Nat.mul_le_mul_right w hr
    _ = w * h := Nat.mul_comm h w

theorem cell_inj {w r r' c c' : ℕ} (hc : c < w) (hc' : c' < w) (h : r * w + c = r' * w + c') : r = r' ∧ c = c' := by
  have hdiv : ∀ r c, c < w → (r * w + c) / w = r ∧ (r * w + c) % w = c := by
    intro r c hc
    have hw : 0 < w := Nat.zero_lt_of_lt hc
    rw [Nat.add_comm, Nat.add_mul_div_right _ _ hw, Nat.add_mul_mod_self_right, Nat.div_eq_of_lt hc,
      Nat.mod_eq_of_lt hc]
    exact ⟨Nat.zero_add r, rfl⟩
  have hleft := hdiv r c hc
  rw [h] at hleft
  have hright := hdiv r' c' hc'
  exact ⟨hleft.1.symm.trans hright.1, hleft.2.symm.trans hright.2⟩

theorem fbTextPutcharat_run (hm : TextMode s) (c : ℤ) (color : BitVec 8) {row col : ℕ} (hr : row < s.fbheight)
    (hc : col < s.fbwidth) : fbTextPutcharat s c color row col =
      some { s with mem := Function.update s.mem (row * s.fbwidth + col) (egaEntry (BitVec.ofInt 8 c) color) } := by
  have hpos := cell_lt hr hc
  unfold fbTextPutcharat storeCell
  rw [uint32_of_lt (hpos.trans hm.fits), if_pos hpos]

/-- A blank cell in the current colour. -/
def blankCell (s : Fb (BitVec 16)) : BitVec 16 := egaEntry 0x20 (s.curcolor.setWidth 8)

theorem fbTextBlankat_run (hm : TextMode s) {row col : ℕ} (hr : row < s.fbheight) (hc : col < s.fbwidth) :
    fbTextBlankat s row col = some { s with mem := Function.update s.mem (row * s.fbwidth + col) (blankCell s) } :=
  fbTextPutcharat_run hm 0x20 (s.curcolor.setWidth 8) hr hc

theorem TextMode.withMem (hm : TextMode s) (m : ℕ → BitVec 16) : TextMode { s with mem := m } :=
  ⟨hm.width_pos, hm.height_pos, hm.fits⟩

/-- A row of blanks. -/
theorem blankRow_run (hm : TextMode s) {row : ℕ} (hr : row < s.fbheight) :
    ∃ m, upTo s.fbwidth (fun c s => fbTextBlankat s row c) s = some { s with mem := m } ∧
      (∀ c < s.fbwidth, m (row * s.fbwidth + c) = blankCell s) ∧
      ∀ i, (∀ c < s.fbwidth, i ≠ row * s.fbwidth + c) → m i = s.mem i := by
  have hloop := upTo_invariant s.fbwidth (fun c s => fbTextBlankat s row c) s
    (fun k t => ∃ m, t = { s with mem := m } ∧ (∀ c < k, m (row * s.fbwidth + c) = blankCell s) ∧
      ∀ i, (∀ c < s.fbwidth, i ≠ row * s.fbwidth + c) → m i = s.mem i) ?_ ?_
  · obtain ⟨t, hrun, m, rfl, hblank, hkeep⟩ := hloop
    exact ⟨m, hrun, hblank, hkeep⟩
  · exact ⟨s.mem, rfl, fun c hc => absurd hc (Nat.not_lt_zero c), fun i _ => rfl⟩
  · rintro k hk t ⟨m, rfl, hblank, hkeep⟩
    refine ⟨_, fbTextBlankat_run (hm.withMem m) hr hk, _, rfl, ?_, ?_⟩
    · intro c hc
      rcases Nat.lt_succ_iff_lt_or_eq.mp hc with hlt | rfl
      · have hne : row * s.fbwidth + c ≠ row * s.fbwidth + k := by omega
        exact (Function.update_of_ne hne _ _).trans (hblank c hlt)
      · exact Function.update_self _ _ _
    · intro i hi
      exact (Function.update_of_ne (hi k hk) _ _).trans (hkeep i hi)

/-- `fb_text_cls`: nothing but blanks. -/
theorem fbTextCls_run (hm : TextMode s) : ∃ m, fbTextCls s = some { s with mem := m, currow := 0, curcol := 0 } ∧
    (∀ r < s.fbheight, ∀ c < s.fbwidth, m (r * s.fbwidth + c) = blankCell s) ∧
    ∀ i, s.fbwidth * s.fbheight ≤ i → m i = s.mem i := by
  have hloop := upTo_invariant s.fbheight (fun r s => upTo s.fbwidth (fun c s => fbTextBlankat s r c) s) s
    (fun k t => ∃ m, t = { s with mem := m } ∧ (∀ r < k, ∀ c < s.fbwidth, m (r * s.fbwidth + c) = blankCell s) ∧
      ∀ i, s.fbwidth * s.fbheight ≤ i → m i = s.mem i) ?_ ?_
  · obtain ⟨t, hrun, m, rfl, hblank, hkeep⟩ := hloop
    refine ⟨m, ?_, hblank, hkeep⟩
    simp only [fbTextCls, hrun, Option.bind_eq_bind, Option.bind_some]
  · exact ⟨s.mem, rfl, fun r hr => absurd hr (Nat.not_lt_zero r), fun i _ => rfl⟩
  · rintro k hk t ⟨m, rfl, hblank, hkeep⟩
    obtain ⟨m', hrun, hblank', hkeep'⟩ := blankRow_run (hm.withMem m) hk
    refine ⟨_, hrun, m', rfl, ?_, ?_⟩
    · intro r hr c hc
      rcases Nat.lt_succ_iff_lt_or_eq.mp hr with hlt | rfl
      · refine (hkeep' _ ?_).trans (hblank r hlt c hc)
        intro c' hc' heq
        exact Nat.ne_of_lt hlt (cell_inj hc hc' heq).1
      · exact hblank' c hc
    · intro i hi
      refine (hkeep' i ?_).trans (hkeep i hi)
      intro c hc heq
      exact absurd (cell_lt hk hc) (Nat.not_lt.mpr (heq ▸ hi))

theorem fbTextCopy_run (hm : TextMode s) {idx : ℕ} (h : idx < (s.fbheight - 1) * s.fbwidth) :
    fbTextCopy s idx s.fbwidth = some { s with mem := Function.update s.mem idx (s.mem (idx + s.fbwidth)) } := by
  have hsize : (s.fbheight - 1) * s.fbwidth + s.fbwidth = s.fbwidth * s.fbheight := by
    obtain ⟨k, hk⟩ := Nat.exists_eq_succ_of_ne_zero (Nat.ne_of_gt hm.height_pos)
    rw [hk, Nat.succ_sub_one, Nat.mul_succ, Nat.mul_comm]
  have hload : idx + s.fbwidth < s.fbwidth * s.fbheight := by omega
  have hstore : idx < s.fbwidth * s.fbheight := by omega
  unfold fbTextCopy loadCell storeCell
  simp only [uint32_of_lt (hload.trans hm.fits), hload, hstore, if_true, Option.bind_eq_bind, Option.bind_some]

/-- The copy in place: a cell is overwritten after it has been copied. -/
theorem copyLoop_run (hm : TextMode s) : ∃ m,
    upTo ((s.fbheight - 1) * s.fbwidth) (fun idx t => fbTextCopy t idx s.fbwidth) s = some { s with mem := m } ∧
      (∀ i < (s.fbheight - 1) * s.fbwidth, m i = s.mem (i + s.fbwidth)) ∧
      ∀ i, (s.fbheight - 1) * s.fbwidth ≤ i → m i = s.mem i := by
  have hloop := upTo_invariant ((s.fbheight - 1) * s.fbwidth) (fun idx t => fbTextCopy t idx s.fbwidth) s
    (fun k t => ∃ m, t = { s with mem := m } ∧ (∀ i < k, m i = s.mem (i + s.fbwidth)) ∧ ∀ i, k ≤ i → m i = s.mem i)
    ?_ ?_
  · obtain ⟨t, hrun, m, rfl, hcopied, hkeep⟩ := hloop
    exact ⟨m, hrun, hcopied, hkeep⟩
  · exact ⟨s.mem, rfl, fun i hi => absurd hi (Nat.not_lt_zero i), fun i _ => rfl⟩
  · rintro k hk t ⟨m, rfl, hcopied, hkeep⟩
    refine ⟨_, fbTextCopy_run (hm.withMem m) hk, _, rfl, ?_, ?_⟩
    · intro i hi
      rcases Nat.lt_succ_iff_lt_or_eq.mp hi with hlt | rfl
      · exact (Function.update_of_ne (Nat.ne_of_lt hlt) _ _).trans (hcopied i hlt)
      · exact (Function.update_self _ _ _).trans (hkeep _ (Nat.le_add_right i _))
    · intro i hi
      exact (Function.update_of_ne (Nat.ne_of_gt hi) _ _).trans (hkeep i (Nat.le_of_succ_le hi))

/-- `fb_text_scroll`: the rows move up, and the last one is blank. -/
theorem fbTextScroll_run (hm : TextMode s) :
    ∃ m, fbTextScroll s = some { s with mem := m, currow := s.fbheight - 1, curcol := 0 } ∧
      (∀ r, r + 1 < s.fbheight → ∀ c < s.fbwidth, m (r * s.fbwidth + c) = s.mem ((r + 1) * s.fbwidth + c)) ∧
      (∀ c < s.fbwidth, m ((s.fbheight - 1) * s.fbwidth + c) = blankCell s) ∧
      ∀ i, s.fbwidth * s.fbheight ≤ i → m i = s.mem i := by
  have hone : uint32Sub s.fbheight 1 = s.fbheight - 1 := uint32Sub_of_le hm.height_pos hm.height_lt
  have hlast : s.fbheight - 1 < s.fbheight := Nat.sub_lt hm.height_pos Nat.one_pos
  have hsize : (s.fbheight - 1) * s.fbwidth < 4294967296 := by
    refine Nat.lt_of_le_of_lt ?_ hm.fits
    rw [Nat.mul_comm]
    exact Nat.mul_le_mul_left _ (Nat.sub_le _ 1)
  obtain ⟨m, hcopy, hcopied, hkeep⟩ := copyLoop_run hm
  obtain ⟨m', hblank, hblanks, hkeep'⟩ := blankRow_run (hm.withMem m) hlast
  refine ⟨m', ?_, ?_, hblanks, ?_⟩
  · have hblank' : upTo s.fbwidth (fun c t => fbTextBlankat t (s.fbheight - 1) c) { s with mem := m } =
        some { s with mem := m' } := hblank
    simp only [fbTextScroll, hone, uint32_of_lt hsize, hcopy, hblank', Option.bind_eq_bind, Option.bind_some]
  · intro r hr c hc
    have hidx : r * s.fbwidth + c < (s.fbheight - 1) * s.fbwidth := by
      have hlt := cell_lt (show r < s.fbheight - 1 by omega) hc
      rwa [Nat.mul_comm s.fbwidth] at hlt
    have hne : ∀ c' < s.fbwidth, r * s.fbwidth + c ≠ (s.fbheight - 1) * s.fbwidth + c' := by
      intro c' hc'
      omega
    rw [hkeep' _ hne]
    refine (hcopied _ hidx).trans ?_
    rw [Nat.add_mul, Nat.one_mul, Nat.add_right_comm]
  · intro i hi
    have hne : ∀ c < s.fbwidth, i ≠ (s.fbheight - 1) * s.fbwidth + c := by
      intro c hc heq
      exact absurd (cell_lt hlast hc) (Nat.not_lt.mpr (heq ▸ hi))
    refine (hkeep' i hne).trans (hkeep i ?_)
    refine Nat.le_trans ?_ hi
    rw [Nat.mul_comm]
    exact Nat.mul_le_mul_left _ (Nat.sub_le _ 1)

end Cells

/-! ## The terminal -/

section Terminal
variable {s₀ s : Fb (BitVec 16)} {t : Text ℤ} {col : ℕ}

/-- The character, in the current colour, is in the cell of the row and the column. -/
def TextDisplays (s : Fb (BitVec 16)) (r c : ℕ) (a : ℤ) : Prop :=
  s.mem (r * s.fbwidth + c) = egaEntry (BitVec.ofInt 8 a) (s.curcolor.setWidth 8)

/-- What the functions leave alone: the mode, the colour and the memory behind the cells. -/
structure TextKept (s₀ s : Fb (BitVec 16)) : Prop where
  width_eq : s.fbwidth = s₀.fbwidth
  height_eq : s.fbheight = s₀.fbheight
  color_eq : s.curcolor = s₀.curcolor
  outside : ∀ i, s₀.fbwidth * s₀.fbheight ≤ i → s.mem i = s₀.mem i

theorem TextKept.trans {s₁ s₂ : Fb (BitVec 16)} (h : TextKept s₀ s₁) (h' : TextKept s₁ s₂) : TextKept s₀ s₂ where
  width_eq := h'.width_eq.trans h.width_eq
  height_eq := h'.height_eq.trans h.height_eq
  color_eq := h'.color_eq.trans h.color_eq
  outside i hi := by
    refine (h'.outside i ?_).trans (h.outside i hi)
    rw [h.width_eq, h.height_eq]
    exact hi

theorem TextKept.mode (h : TextKept s₀ s) (hm : TextMode s₀) : TextMode s := by
  obtain ⟨hwidth, hheight, hfits⟩ := hm
  constructor
  · rw [h.width_eq]
    exact hwidth
  · rw [h.height_eq]
    exact hheight
  · rw [h.width_eq, h.height_eq]
    exact hfits

/-- The console shows the text, with its position at the end of it. -/
def TextShows (s : Fb (BitVec 16)) (t : Text ℤ) : Prop :=
  Shows s.fbheight s.fbwidth 0x20 s.currow s.curcol (TextDisplays s) t

theorem fbTextNewline_shows (hm : TextMode s)
    (hs : Shows s.fbheight s.fbwidth 0x20 s.currow col (TextDisplays s) t) :
    ∃ s', fbTextNewline s = some s' ∧ TextKept s s' ∧ TextShows s' t.newline := by
  have hrow : s.currow < s.fbheight := by
    rw [hs.row_eq]
    exact Text.cursor_lt hm.height_pos t
  have hnext : uint32 (s.currow + 1) = s.currow + 1 := uint32_of_lt (Nat.lt_of_le_of_lt hrow hm.height_lt)
  unfold fbTextNewline
  simp only [hnext]
  split_ifs with hlast
  · have hm' : TextMode { s with currow := s.currow + 1, curcol := 0 } := ⟨hm.width_pos, hm.height_pos, hm.fits⟩
    obtain ⟨m, hrun, hup, hblank, hkeep⟩ := fbTextScroll_run hm'
    refine ⟨_, hrun, ⟨rfl, rfl, rfl, hkeep⟩, ?_⟩
    apply hs.scroll hlast
    · intro r hr c hc x hx
      exact (hup r hr c hc).trans hx
    · exact hblank
  · refine ⟨_, rfl, ⟨rfl, rfl, rfl, fun i _ => rfl⟩, ?_⟩
    apply hs.newline (by omega)
    intro r hr c hc x hx
    exact hx

/-- What a character passed to `fb_text_putchar` is to the terminal. -/
def textInput (c : ℤ) : Option ℤ := if c = 0x0A then none else some c

theorem fbTextPutchar_shows (hm : TextMode s) (hs : TextShows s t) (hroom : t.last.length < s.fbwidth) (c : ℤ) :
    ∃ s', fbTextPutchar s c = some s' ∧ TextKept s s' ∧ TextShows s' (t.next s.fbwidth (textInput c)) := by
  unfold fbTextPutchar textInput
  by_cases hnl : c = 0x0A
  · rw [if_pos hnl, if_pos hnl]
    exact fbTextNewline_shows hm hs
  · have hrow : s.currow < s.fbheight := by
      rw [hs.row_eq]
      exact Text.cursor_lt hm.height_pos t
    have hcol : s.curcol < s.fbwidth := by
      rw [hs.col_eq]
      exact hroom
    have hnext : uint32 (s.curcol + 1) = s.curcol + 1 := uint32_of_lt (Nat.lt_of_le_of_lt hcol hm.width_lt)
    obtain ⟨m, hmem⟩ : ∃ m, m = Function.update s.mem (s.currow * s.fbwidth + s.curcol)
        (egaEntry (BitVec.ofInt 8 c) (s.curcolor.setWidth 8)) := ⟨_, rfl⟩
    have hkept : TextKept s { s with mem := m, curcol := s.curcol + 1 } := by
      refine ⟨rfl, rfl, rfl, ?_⟩
      intro i hi
      have hne : i ≠ s.currow * s.fbwidth + s.curcol := Nat.ne_of_gt (Nat.lt_of_lt_of_le (cell_lt hrow hcol) hi)
      rw [hmem]
      exact Function.update_of_ne hne _ _
    have hput : TextShows { s with mem := m, curcol := s.curcol + 1 } (t.put c) := by
      apply Shows.put hs
      · rw [TextDisplays, hmem]
        exact Function.update_self _ _ _
      · intro r hr c' hc' hne x hx
        have hcell : r * s.fbwidth + c' ≠ s.currow * s.fbwidth + s.curcol := by
          intro heq
          obtain ⟨hreq, hceq⟩ := cell_inj hc' hcol heq
          exact hne.elim (fun h => h hreq) fun h => h hceq
        rw [TextDisplays, hmem]
        exact (Function.update_of_ne hcell _ _).trans hx
    have hfull : s.fbwidth ≤ s.curcol + 1 ↔ s.fbwidth ≤ (t.put c).last.length := by
      have hcoleq : s.curcol + 1 = (t.put c).last.length := hput.col_eq
      rw [hcoleq]
    rw [if_neg hnl, if_neg hnl, fbTextPutcharat_run hm c (s.curcolor.setWidth 8) hrow hcol, ← hmem]
    simp only [Option.bind_eq_bind, Option.bind_some, hnext, Text.next, hfull]
    split_ifs with hwrap
    · have hm' : TextMode { s with mem := m, curcol := s.curcol + 1 } := ⟨hm.width_pos, hm.height_pos, hm.fits⟩
      obtain ⟨s', hrun, hkept', hshows⟩ := fbTextNewline_shows hm' hput
      exact ⟨s', hrun, hkept.trans hkept', hshows⟩
    · exact ⟨_, rfl, hkept, hput⟩

/-- A cell of the adapter: the character is its low byte, the colour its high byte. -/
structure CellOf (v : BitVec 16) (a : ℤ) (color : BitVec 8) : Prop where
  character : v.extractLsb' 0 8 = BitVec.ofInt 8 a
  colour : v.extractLsb' 8 8 = color

theorem cellOf_egaEntry (a : ℤ) (color : BitVec 8) : CellOf (egaEntry (BitVec.ofInt 8 a) color) a color := by
  unfold egaEntry
  constructor
  · apply BitVec.eq_of_getLsbD_eq
    intro i hi
    have hfit : i < 16 := by omega
    simp [hi, hfit]
  · apply BitVec.eq_of_getLsbD_eq
    intro i hi
    have hfit : 8 + i < 16 := by omega
    simp [hi, hfit]

/-- What holds after each character: the position is in the screen, nothing but its cells is written, and the screen is
the last rows of the text. -/
structure TextRight (s₀ s : Fb (BitVec 16)) (t : Text ℤ) : Prop where
  currow_lt : s.currow < s₀.fbheight
  curcol_lt : s.curcol < s₀.fbwidth
  outside : ∀ i, s₀.fbwidth * s₀.fbheight ≤ i → s.mem i = s₀.mem i
  screen : ∀ r < s₀.fbheight, ∀ c < s₀.fbwidth,
    CellOf (s.mem (r * s₀.fbwidth + c)) (t.cell s₀.fbheight 0x20 r c) (s₀.curcolor.setWidth 8)
  currow_eq : s.currow = t.cursor s₀.fbheight
  curcol_eq : s.curcol = t.last.length

theorem TextShows.right (h : TextShows s t) (hheight : 0 < s₀.fbheight) (hkept : TextKept s₀ s)
    (hroom : t.last.length < s₀.fbwidth) : TextRight s₀ s t := by
  unfold TextShows TextDisplays at h
  rw [hkept.width_eq, hkept.height_eq, hkept.color_eq] at h
  refine ⟨?_, ?_, hkept.outside, ?_, h.row_eq, h.col_eq⟩
  · rw [h.row_eq]
    exact Text.cursor_lt hheight t
  · rw [h.col_eq]
    exact hroom
  · intro r hr c hc
    rw [h.cells r hr c hc]
    exact cellOf_egaEntry _ _

/-- **The text console is a scrolling terminal.** -/
theorem text_console (s : Fb (BitVec 16)) (hwidth : 1 ≤ s.fbwidth) (hheight : 1 ≤ s.fbheight)
    (hfits : s.fbwidth * s.fbheight < 4294967296) (cs : List ℤ) :
    ∃ s', (fbTextCls s).bind (fun s => cs.foldlM fbTextPutchar s) = some s' ∧
      TextRight s s' (Text.ofInputs s.fbwidth (cs.map textInput)) := by
  have hm : TextMode s := ⟨hwidth, hheight, hfits⟩
  obtain ⟨m, hcls, hblank, hkeep⟩ := fbTextCls_run hm
  have hrun := shows_run (w := s.fbwidth) fbTextPutchar textInput
    (fun s' t => TextKept s s' ∧ TextShows s' t ∧ t.last.length < s.fbwidth) cs ?_
    { s with mem := m, currow := 0, curcol := 0 } Text.empty ?_
  · obtain ⟨s', hrun, hkept, hshows, hroom⟩ := hrun
    refine ⟨s', by rw [hcls, Option.bind_some, hrun], hshows.right hheight hkept hroom⟩
  · rintro c - s' t ⟨hkept, hshows, hroom⟩
    obtain ⟨s'', hstep, hkept', hshows'⟩ := fbTextPutchar_shows (hkept.mode hm) hshows
      (by rw [hkept.width_eq]; exact hroom) c
    rw [hkept.width_eq] at hshows'
    exact ⟨s'', hstep, hkept.trans hkept', hshows', Text.length_last_next hwidth _⟩
  · refine ⟨⟨rfl, rfl, rfl, hkeep⟩, ?_, hwidth⟩
    apply shows_empty
    exact hblank

end Terminal

/-- The 80 columns and 25 rows of EGA, light grey on black. -/
def egaText : Fb (BitVec 16) :=
  ⟨⟨160, 80, 25, 16, 0, 0, 0x07, 0, 0, 0, 0, 0⟩, fun _ => 0⟩

theorem text_console_ega : ∃ s', (fbTextCls egaText).bind (fun s => [0x41, 0x0A, 0x42].foldlM fbTextPutchar s) =
    some s' ∧
    TextRight egaText s' (Text.ofInputs egaText.fbwidth ([0x41, 0x0A, 0x42].map textInput)) :=
  text_console egaText (by decide) (by decide) (by decide) [0x41, 0x0A, 0x42]

end Borgos.Video
