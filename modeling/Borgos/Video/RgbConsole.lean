import Borgos.Video.TextConsole

/-! # Pixels, glyphs and scrolling of the RGB console -/
namespace Borgos.Video
open Borgos.Foundations Libc
set_option autoImplicit false

/-! ## The mode -/

/-- A mode for `fb_rgb_init_default_vga`. -/
structure RgbMode (i : FbInfo) : Prop where
  width_ge : 8 ≤ i.fbwidth
  width_le : i.fbwidth ≤ 65535
  height_ge : 16 ≤ i.fbheight
  height_le : i.fbheight ≤ 65535
  bpp : i.fbbpp = 24 ∨ i.fbbpp = 32
  pitch_ge : i.fbwidth * (i.fbbpp / 8) ≤ i.fbpitch
  pitch_lt : i.fbpitch < 4294967296

namespace FbInfo
variable (i : FbInfo)

/-- The bytes of a pixel. -/
def pixelBytes : ℕ := i.fbbpp / 8

/-- The bytes of a pixel, as `fb_rgb_init_default_vga` has them. -/
def bytespp : ℕ := i.fbpitch / i.fbwidth % 256

def rows : ℕ := i.fbheight / 16

def cols : ℕ := i.fbwidth / 8

/-- Where a pixel is in the frame buffer. -/
def pixelAt (row col : ℕ) : ℕ := row * i.fbpitch + col * i.pixelBytes

/-- The bytes that `fb_rgb_cls` clears. -/
def cleared : ℕ := uint32 (i.fbheight * i.fbpitch)

end FbInfo

/-- The functions leave everything alone but the position and the memory. -/
structure RgbKept (i : FbInfo) (s : Fb Byte) : Prop where
  fbpitch : s.fbpitch = i.fbpitch
  fbwidth : s.fbwidth = i.fbwidth
  fbheight : s.fbheight = i.fbheight
  fbbytespp : s.fbbytespp = i.bytespp
  fbfgrgbcol : s.fbfgrgbcol = 0x00FFFDD0
  fbbgrgbcol : s.fbbgrgbcol = 0x00333333
  textrows : s.textrows = i.rows
  textcols : s.textcols = i.cols

theorem RgbKept.move {i : FbInfo} {s : Fb Byte} (h : RgbKept i s) (m : ℕ → Byte) (row col : ℕ) :
    RgbKept i { s with mem := m, currow := row, curcol := col } :=
  ⟨h.fbpitch, h.fbwidth, h.fbheight, h.fbbytespp, h.fbfgrgbcol, h.fbbgrgbcol, h.textrows, h.textcols⟩

theorem RgbKept.withMem {i : FbInfo} {s : Fb Byte} (h : RgbKept i s) (m : ℕ → Byte) : RgbKept i { s with mem := m } :=
  h.move m s.currow s.curcol

namespace RgbMode
variable {i : FbInfo}

theorem pixelBytes_eq (hm : RgbMode i) : i.pixelBytes = 3 ∨ i.pixelBytes = 4 := by
  unfold FbInfo.pixelBytes
  rcases hm.bpp with h | h
  · exact .inl (by rw [h])
  · exact .inr (by rw [h])

theorem three_width_le (hm : RgbMode i) : 3 * i.fbwidth ≤ i.fbpitch := by
  refine Nat.le_trans ?_ hm.pitch_ge
  rw [Nat.mul_comm]
  apply Nat.mul_le_mul_left
  rcases hm.pixelBytes_eq with h | h
  · exact Nat.le_of_eq h.symm
  · exact Nat.le_trans (by decide) (Nat.le_of_eq h.symm)

theorem rows_bounds (hm : RgbMode i) : 0 < i.rows ∧ 16 * i.rows ≤ i.fbheight ∧ i.fbheight < 16 * i.rows + 16 := by
  have hheight := hm.height_ge
  unfold FbInfo.rows
  omega

theorem cols_bounds (hm : RgbMode i) : 0 < i.cols ∧ 8 * i.cols ≤ i.fbwidth := by
  have hwidth := hm.width_ge
  unfold FbInfo.cols
  omega

/-- A row of the text is within a row of pixels, with either number of bytes. -/
theorem col_lt_pitch (hm : RgbMode i) {b col : ℕ} (hb : b * i.fbwidth ≤ i.fbpitch) (hcol : col < 8 * i.cols) :
    col * b + 2 < i.fbpitch := by
  have hthree := hm.three_width_le
  have hwidth := hm.width_ge
  obtain ⟨-, hcols⟩ := hm.cols_bounds
  have hle : col + 1 ≤ i.fbwidth := by omega
  have hmul : (col + 1) * b ≤ b * i.fbwidth := by
    rw [Nat.mul_comm b]
    exact Nat.mul_le_mul_right b hle
  rw [Nat.add_mul, Nat.one_mul] at hmul
  rcases Nat.lt_or_ge b 3 with hlt | hge
  · have hsmall : col * b ≤ col * 2 := Nat.mul_le_mul_left col (Nat.le_of_lt_succ hlt)
    omega
  · omega

theorem bytespp_mul_le (i : FbInfo) : i.bytespp * i.fbwidth ≤ i.fbpitch :=
  Nat.le_trans (Nat.mul_le_mul_right _ (Nat.mod_le _ _)) (Nat.div_mul_le_self _ _)

theorem pixelBytes_mul_le (hm : RgbMode i) : i.pixelBytes * i.fbwidth ≤ i.fbpitch := by
  rw [Nat.mul_comm]
  exact hm.pitch_ge

/-- Within a row of pixels, and within the frame buffer. -/
theorem row_lt_size {row off : ℕ} (hm : RgbMode i) (hrow : row < 16 * i.rows) (hoff : off < i.fbpitch) :
    row * i.fbpitch + off < i.fbpitch * i.fbheight := by
  obtain ⟨-, hle, -⟩ := hm.rows_bounds
  exact cell_lt (Nat.lt_of_lt_of_le hrow hle) hoff

end RgbMode

/-! ## Pixels -/

/-- The bytes of a colour: blue, green, red. -/
def colourByte (rgb : BitVec 32) (j : ℕ) : Byte := (rgb >>> (8 * j)).setWidth 8

def PixelShows (m : ℕ → Byte) (pos : ℕ) (rgb : BitVec 32) : Prop := ∀ j < 3, m (pos + j) = colourByte rgb j

section Pixels
variable {i : FbInfo} {s : Fb Byte}

/-- The memory after the bytes of a colour have been stored. -/
def drawn (m : ℕ → Byte) (pos : ℕ) (rgb : BitVec 32) : ℕ → Byte :=
  Function.update (Function.update (Function.update m pos (colourByte rgb 0)) (pos + 1) (colourByte rgb 1)) (pos + 2)
    (colourByte rgb 2)

theorem drawn_shows (m : ℕ → Byte) (pos : ℕ) (rgb : BitVec 32) : PixelShows (drawn m pos rgb) pos rgb := by
  intro j hj
  unfold drawn
  interval_cases j <;> simp

theorem drawn_of_ne (m : ℕ → Byte) {pos p : ℕ} (rgb : BitVec 32) (h : ∀ j < 3, p ≠ pos + j) :
    drawn m pos rgb p = m p := by
  have h0 : p ≠ pos := h 0 (by decide)
  unfold drawn
  rw [Function.update_of_ne (h 2 (by decide)), Function.update_of_ne (h 1 (by decide)), Function.update_of_ne h0]

/-- The address that `fb_rgb_setpixel` computes. -/
def FbInfo.pixelPtr (i : FbInfo) (row col : ℕ) : ℕ := uint32 (row * i.fbpitch) + col * i.bytespp

theorem pixelPtr_lt (hm : RgbMode i) {row col : ℕ} (hrow : row < 16 * i.rows) (hcol : col < 8 * i.cols) :
    i.pixelPtr row col + 2 < i.fbpitch * i.fbheight := by
  have hoff := hm.col_lt_pitch (RgbMode.bytespp_mul_le i) hcol
  have hsize := hm.row_lt_size hrow hoff
  have hwrap : uint32 (row * i.fbpitch) ≤ row * i.fbpitch := uint32_le _
  unfold FbInfo.pixelPtr
  omega

/-- What `fb_rgb_setpixel` stores, by the bytes of a pixel. -/
def pixelDrawn (i : FbInfo) (m : ℕ → Byte) (row col : ℕ) (rgb : BitVec 32) : ℕ → Byte :=
  if i.bytespp = 1 then Function.update m (i.pixelPtr row col) (colourByte rgb 0)
  else if i.bytespp = 3 ∨ i.bytespp = 4 then drawn m (i.pixelPtr row col) rgb
  else m

theorem fbRgbSetpixel_run (hm : RgbMode i) (hk : RgbKept i s) {row col : ℕ} (rgb : BitVec 32) (hrow : row < 16 * i.rows)
    (hcol : col < 8 * i.cols) :
    fbRgbSetpixel s row col rgb = some { s with mem := pixelDrawn i s.mem row col rgb } := by
  obtain ⟨-, hrows, -⟩ := hm.rows_bounds
  obtain ⟨-, hcols⟩ := hm.cols_bounds
  have hheight := hm.height_le
  have hwidth := hm.width_le
  have hrow16 : uint16 row = row := Nat.mod_eq_of_lt (by omega)
  have hcol16 : uint16 col = col := Nat.mod_eq_of_lt (by omega)
  have hlt := pixelPtr_lt hm hrow hcol
  have hptr : uint32 (uint16 row * s.fbpitch) + uint16 col * s.fbbytespp = i.pixelPtr row col := by
    rw [hrow16, hcol16, hk.fbpitch, hk.fbbytespp]
    rfl
  have hstore : ∀ (m : ℕ → Byte) (pos : ℕ) (v : Byte), pos < i.fbpitch * i.fbheight →
      storeByte { s with mem := m } pos v = some { s with mem := Function.update m pos v } := by
    intro m pos v hpos
    unfold storeByte
    rw [if_pos (by rw [hk.fbpitch, hk.fbheight]; exact hpos)]
  have h0 := hstore s.mem (i.pixelPtr row col) (rgb.setWidth 8) (by omega)
  have hbyte : rgb.setWidth 8 = colourByte rgb 0 := by
    simp [colourByte]
  unfold fbRgbSetpixel pixelDrawn
  rw [hptr, hk.fbbytespp]
  split_ifs with hone hfour
  · rw [← hbyte]
    exact h0
  · have h1 := hstore (Function.update s.mem (i.pixelPtr row col) (rgb.setWidth 8)) (i.pixelPtr row col + 1)
      ((rgb >>> 8).setWidth 8) (by omega)
    have h2 :=
      hstore (Function.update (Function.update s.mem (i.pixelPtr row col) (rgb.setWidth 8)) (i.pixelPtr row col + 1)
      ((rgb >>> 8).setWidth 8)) (i.pixelPtr row col + 2) ((rgb >>> 16).setWidth 8) (by omega)
    simp only [Option.bind_eq_bind]
    rw [h0, Option.bind_some, h1, Option.bind_some, h2, hbyte]
    rfl
  · rfl

end Pixels

/-! ## Glyphs -/

/-- The colour of a pixel of a character: in a row of the glyph the leftmost pixel is the highest bit. -/
def glyphColour (b : Byte) (y x : ℕ) : BitVec 32 :=
  if (vgaG8x16Font (b.toNat * 16 + y)).getMsbD x then 0x00FFFDD0 else 0x00333333

section Glyphs
variable {i : FbInfo} {s : Fb Byte} {b : Byte}

theorem fontBit_eq_zero (pxls : Byte) {x : ℕ} (hx : x < 8) : fontBit pxls x = 0 ↔ pxls.getMsbD x = false := by
  revert pxls
  interval_cases x <;> decide

theorem toInt_of_lt (hb : b.toNat < 128) : b.toInt = b.toNat := by
  rw [BitVec.toInt_eq_toNat_cond, if_pos (by omega)]

theorem fontRow_run (hb : b.toNat < 128) {y : ℕ} (hy : y < 16) :
    fontRow b.toInt y = some (vgaG8x16Font (b.toNat * 16 + y)) := by
  have hindex : b.toInt * fontheight + y = ((b.toNat * 16 + y : ℕ) : ℤ) := by
    rw [toInt_of_lt hb]
    unfold fontheight
    push_cast
    ring
  unfold fontRow
  rw [hindex, if_pos (by omega), Int.toNat_natCast]

/-- A byte from 0x80 on is a negative `int`. -/
theorem toInt_negative (hb : 128 ≤ b.toNat) : b.toInt < 0 := by
  have hlt := b.isLt
  rw [BitVec.toInt_eq_toNat_cond, if_neg (by omega)]
  omega

/-- It is in front of the font. -/
theorem fontRow_negative (hb : 128 ≤ b.toNat) : fontRow b.toInt 0 = none := by
  have hneg := toInt_negative hb
  unfold fontRow fontheight
  rw [if_neg (by omega)]

/-- What holds of the memory while the pixels of a character are drawn, row by row. -/
theorem glyph_invariant (hm : RgbMode i) (hk : RgbKept i s) (hb : b.toNat < 128) {r c : ℕ} (hr : r < i.rows)
    (hc : c < i.cols) (I : ℕ → ℕ → (ℕ → Byte) → Prop) (hstart : I 0 0 s.mem)
    (hpixel : ∀ y < 16, ∀ x < 8, ∀ m, I y x m → I y (x + 1)
    (pixelDrawn i m (16 * r + y) (8 * c + x) (glyphColour b y x))) (hrow : ∀ y < 16, ∀ m, I y 8 m → I (y + 1) 0 m) :
    ∃ m, fbRgbPutcharat s b.toInt s.fbfgrgbcol r c = some { s with mem := m } ∧ I 16 0 m := by
  obtain ⟨-, hrows, -⟩ := hm.rows_bounds
  obtain ⟨-, hcols⟩ := hm.cols_bounds
  have hheight := hm.height_le
  have hwidth := hm.width_le
  have hloop := upTo_invariant fontheight (fun fr s' => do
    let pxls ← fontRow b.toInt fr
    upTo 8 (fun bitidx s' => fbRgbSetpixel s' (uint32 (r * fontheight + fr)) (uint32 (c * 8 + bitidx))
      (if fontBit pxls bitidx = 0 then s.fbbgrgbcol else s.fbfgrgbcol)) s') s
    (fun y t => ∃ m, t = { s with mem := m } ∧ I y 0 m) ⟨s.mem, rfl, hstart⟩ ?_
  · obtain ⟨t, hrun, m, rfl, hI⟩ := hloop
    exact ⟨m, hrun, hI⟩
  · rintro y hy t ⟨m, rfl, hI⟩
    have hy16 : y < 16 := hy
    have hinner :=
      upTo_invariant 8 (fun bitidx s' => fbRgbSetpixel s' (uint32 (r * fontheight + y)) (uint32 (c * 8 + bitidx))
      (if fontBit (vgaG8x16Font (b.toNat * 16 + y)) bitidx = 0 then s.fbbgrgbcol else s.fbfgrgbcol)) { s with mem := m }
      (fun x t => ∃ m, t = { s with mem := m } ∧ I y x m) ⟨m, rfl, hI⟩ ?_
    · obtain ⟨t, hrun, m', rfl, hI'⟩ := hinner
      refine ⟨_, ?_, m', rfl, hrow y hy16 m' hI'⟩
      simp only [fontRow_run hb hy16, Option.bind_eq_bind, Option.bind_some]
      exact hrun
    · rintro x hx t ⟨m', rfl, hI'⟩
      have hrow32 : uint32 (r * fontheight + y) = 16 * r + y := by
        unfold fontheight
        rw [uint32_of_lt (by omega), Nat.mul_comm]
      have hcol32 : uint32 (c * 8 + x) = 8 * c + x := by
        rw [uint32_of_lt (by omega), Nat.mul_comm]
      have hcolour : (if fontBit (vgaG8x16Font (b.toNat * 16 + y)) x = 0 then s.fbbgrgbcol else s.fbfgrgbcol) =
          glyphColour b y x := by
        rw [hk.fbbgrgbcol, hk.fbfgrgbcol, glyphColour]
        by_cases hbit : (vgaG8x16Font (b.toNat * 16 + y)).getMsbD x = true
        · have hset : ¬fontBit (vgaG8x16Font (b.toNat * 16 + y)) x = 0 := by
            rw [fontBit_eq_zero _ hx, hbit]
            decide
          rw [if_neg hset, if_pos hbit]
        · rw [if_pos ((fontBit_eq_zero _ hx).mpr (eq_false_of_ne_true hbit)), if_neg hbit]
      have hset := fbRgbSetpixel_run hm (hk.withMem m') (glyphColour b y x) (show 16 * r + y < 16 * i.rows by omega)
        (show 8 * c + x < 8 * i.cols by omega)
      refine ⟨_, ?_, _, rfl, hpixel y hy16 x hx m' hI'⟩
      rw [hrow32, hcol32, hcolour]
      exact hset

end Glyphs

/-! ## Cells of the text -/

/-- The cell of the text shows the byte. -/
def CellShows (i : FbInfo) (m : ℕ → Byte) (r c : ℕ) (b : Byte) : Prop :=
  ∀ y < 16, ∀ x < 8, PixelShows m (i.pixelAt (16 * r + y) (8 * c + x)) (glyphColour b y x)

/-- What `fb_rgb_cls` clears, in a `uint32_t`, reaches beyond the last pixel of the text. -/
def FbInfo.Reaches (i : FbInfo) : Prop := i.pixelAt (16 * i.rows - 1) (8 * i.cols - 1) + 2 < i.cleared

section TextCells
variable {i : FbInfo} {s : Fb Byte} {b : Byte}

/-- The bytes of the pixels are apart from one another. -/
theorem pixel_inj (hm : RgbMode i) {row row' col col' j j' : ℕ} (hcol : col < 8 * i.cols)
    (hcol' : col' < 8 * i.cols) (hj : j < 3) (hj' : j' < 3) (h : i.pixelAt row col + j = i.pixelAt row' col' + j') :
    row = row' ∧ col = col' ∧ j = j' := by
  have hoff := hm.col_lt_pitch hm.pixelBytes_mul_le hcol
  have hoff' := hm.col_lt_pitch hm.pixelBytes_mul_le hcol'
  have hbytes : 3 ≤ i.pixelBytes := by
    rcases hm.pixelBytes_eq with h | h <;> omega
  unfold FbInfo.pixelAt at h
  rw [Nat.add_assoc, Nat.add_assoc] at h
  obtain ⟨hrow, hin⟩ := cell_inj (by omega) (by omega) h
  obtain ⟨hcoleq, hjeq⟩ := cell_inj (by omega) (by omega) hin
  exact ⟨hrow, hcoleq, hjeq⟩

theorem pixelAt_le {row col : ℕ} (hrow : row < 16 * i.rows) (hcol : col < 8 * i.cols) :
    i.pixelAt row col ≤ i.pixelAt (16 * i.rows - 1) (8 * i.cols - 1) := by
  apply Nat.add_le_add
  · exact Nat.mul_le_mul_right _ (Nat.le_pred_of_lt hrow)
  · exact Nat.mul_le_mul_right _ (Nat.le_pred_of_lt hcol)

/-- The pixels of the text are among the bytes that are cleared. -/
theorem pixelAt_cleared (hreach : i.Reaches) {row col : ℕ} (hrow : row < 16 * i.rows) (hcol : col < 8 * i.cols) :
    i.pixelAt row col + 2 < i.cleared :=
  Nat.lt_of_le_of_lt (Nat.add_le_add_right (pixelAt_le hrow hcol) 2) hreach

theorem cleared_lt (i : FbInfo) : i.cleared < 4294967296 := uint32_lt _

theorem row_no_wrap (hm : RgbMode i) (hreach : i.Reaches) {row : ℕ} (hrow : row < 16 * i.rows) :
    uint32 (row * i.fbpitch) = row * i.fbpitch := by
  obtain ⟨hcols, -⟩ := hm.cols_bounds
  have hlt := pixelAt_cleared hreach hrow (show 0 < 8 * i.cols by omega)
  have hmax := cleared_lt i
  unfold FbInfo.pixelAt at hlt
  exact uint32_of_lt (by omega)

theorem pixelPtr_eq (hm : RgbMode i) (hreach : i.Reaches) (hbytes : i.bytespp = i.pixelBytes) {row : ℕ}
    (hrow : row < 16 * i.rows) (col : ℕ) : i.pixelPtr row col = i.pixelAt row col := by
  unfold FbInfo.pixelPtr FbInfo.pixelAt
  rw [row_no_wrap hm hreach hrow, hbytes]

theorem pixelDrawn_eq (hm : RgbMode i) (hreach : i.Reaches) (hbytes : i.bytespp = i.pixelBytes) (m : ℕ → Byte) {row : ℕ}
    (hrow : row < 16 * i.rows) (col : ℕ) (rgb : BitVec 32) :
    pixelDrawn i m row col rgb = drawn m (i.pixelAt row col) rgb := by
  have hfour := hm.pixelBytes_eq
  have hone : i.bytespp ≠ 1 := by
    rw [hbytes]
    omega
  unfold pixelDrawn
  rw [if_neg hone, if_pos (by rw [hbytes]; exact hfour), pixelPtr_eq hm hreach hbytes hrow]

/-- A character is drawn in its cell, and in no other one. -/
theorem glyph_shows (hm : RgbMode i) (hreach : i.Reaches) (hbytes : i.bytespp = i.pixelBytes) (hk : RgbKept i s)
    (hb : b.toNat < 128) {r c : ℕ} (hr : r < i.rows) (hc : c < i.cols) :
    ∃ m, fbRgbPutcharat s b.toInt s.fbfgrgbcol r c = some { s with mem := m } ∧ CellShows i m r c b ∧
      ∀ r' c' b', c' < i.cols → r' ≠ r ∨ c' ≠ c → CellShows i s.mem r' c' b' → CellShows i m r' c' b' := by
  have hrun := glyph_invariant hm hk hb hr hc
    (fun y x m => (∀ y' < 16, ∀ x' < 8, y' < y ∨ y' = y ∧ x' < x →
        PixelShows m (i.pixelAt (16 * r + y') (8 * c + x')) (glyphColour b y' x')) ∧
      ∀ p, (∀ y' < 16, ∀ x' < 8, ∀ j < 3, p ≠ i.pixelAt (16 * r + y') (8 * c + x') + j) → m p = s.mem p)
    ⟨fun y' _ x' _ h => by omega, fun p _ => rfl⟩ ?_ ?_
  · obtain ⟨m, hrun, hshows, hkeep⟩ := hrun
    refine ⟨m, hrun, fun y hy x hx => hshows y hy x hx (.inl hy), ?_⟩
    intro r' c' b' hc' hne hold y hy x hx j hj
    rw [hkeep _ ?_]
    · exact hold y hy x hx j hj
    · intro y' hy' x' hx' j' hj' heq
      obtain ⟨hrow, hcol, -⟩ := pixel_inj hm (by omega) (by omega) hj hj' heq
      omega
  · rintro y hy x hx m ⟨hshows, hkeep⟩
    rw [pixelDrawn_eq hm hreach hbytes m (by omega)]
    constructor
    · intro y' hy' x' hx' hbefore
      by_cases hsame : y' = y ∧ x' = x
      · obtain ⟨rfl, rfl⟩ := hsame
        exact drawn_shows m _ _
      · intro j hj
        rw [drawn_of_ne]
        · exact hshows y' hy' x' hx' (by omega) j hj
        · intro j' hj' heq
          obtain ⟨hrow, hcol, -⟩ := pixel_inj hm (by omega) (by omega) hj hj' heq
          omega
    · intro p hp
      rw [drawn_of_ne m _ (hp y hy x hx)]
      exact hkeep p hp
  · rintro y hy m ⟨hshows, hkeep⟩
    refine ⟨?_, hkeep⟩
    intro y' hy' x' hx' hbefore
    exact hshows y' hy' x' hx' (by omega)

/-- The pixels of a blank are those of cleared bytes. -/
theorem blank_shows {m : ℕ → Byte} {r c : ℕ}
    (h : ∀ y < 16, ∀ x < 8, ∀ j < 3, m (i.pixelAt (16 * r + y) (8 * c + x) + j) = clearbyte) :
    CellShows i m r c 0x20 := by
  intro y hy x hx j hj
  have hbyte : colourByte (glyphColour 0x20 y x) j = clearbyte := by
    have hfont : vgaG8x16Font ((0x20 : Byte).toNat * 16 + y) = 0 := by
      interval_cases y <;> decide +kernel
    have hcolour : glyphColour 0x20 y x = 0x00333333 := by
      rw [glyphColour, hfont, if_neg (by simp)]
    rw [hcolour]
    interval_cases j <;> decide
  rw [h y hy x hx j hj, hbyte]

end TextCells

/-! ## Clearing and scrolling -/

namespace FbInfo
variable (i : FbInfo)

def copyfrom : ℕ := uint32 (i.fbpitch * 16)

def copysize : ℕ := uint32 ((i.fbheight - 16) * i.fbpitch)

/-- Where the last row of the text begins. -/
def clearstart : ℕ := uint32 ((i.rows - 1) * 16 * i.fbpitch)

def setsize : ℕ := uint32 ((i.fbheight - (i.rows - 1) * 16) * i.fbpitch)

/-- The memory after the rows have moved up. -/
def scrolled (m : ℕ → Byte) : ℕ → Byte :=
  memset (memcpy m 0 i.copyfrom i.copysize) i.clearstart clearbyte i.setsize

end FbInfo

section Scrolling
variable {i : FbInfo} {s : Fb Byte} {m : ℕ → Byte}

theorem scrolled_apply (i : FbInfo) (m : ℕ → Byte) (p : ℕ) : i.scrolled m p =
    if i.clearstart ≤ p ∧ p < i.clearstart + i.setsize then clearbyte
    else if p < i.copysize then m (i.copyfrom + p) else m p := by
  unfold FbInfo.scrolled
  rw [memset_apply, memcpy_eq_move]
  split_ifs with hset hcopy
  · rfl
  · have hin : FlatMemory.move m 0 i.copyfrom i.copysize (0 + p) = m (i.copyfrom + p) := FlatMemory.move_inside hcopy
    rwa [Nat.zero_add] at hin
  · exact FlatMemory.move_outside (.inr (by omega))

theorem clearBytes_run (hk : RgbKept i s) {pos size : ℕ} (h : pos + size ≤ i.fbpitch * i.fbheight) :
    clearBytes s pos size = some { s with mem := memset s.mem pos clearbyte size } := by
  unfold clearBytes
  rw [if_pos (by rw [hk.fbpitch, hk.fbheight]; exact h)]

theorem copyBytes_run (hk : RgbKept i s) {dst src size : ℕ} (hdst : dst + size ≤ i.fbpitch * i.fbheight)
    (hsrc : src + size ≤ i.fbpitch * i.fbheight) :
    copyBytes s dst src size = some { s with mem := memcpy s.mem dst src size } := by
  unfold copyBytes
  rw [if_pos (by rw [hk.fbpitch, hk.fbheight]; exact ⟨hdst, hsrc⟩)]

theorem fbRgbCls_run (hk : RgbKept i s) :
    fbRgbCls s = some { s with mem := memset s.mem 0 clearbyte i.cleared, currow := 0, curcol := 0 } := by
  have hcleared : uint32 (s.fbheight * s.fbpitch) = i.cleared := by
    rw [hk.fbheight, hk.fbpitch]
    rfl
  have hsize : 0 + i.cleared ≤ i.fbpitch * i.fbheight := by
    rw [Nat.zero_add, Nat.mul_comm]
    exact uint32_le _
  unfold fbRgbCls
  rw [hcleared, clearBytes_run hk hsize]
  rfl

theorem fbRgbScroll_run (hm : RgbMode i) (hk : RgbKept i s) :
    fbRgbScroll s = some { s with mem := i.scrolled s.mem, currow := i.rows - 1, curcol := 0 } := by
  obtain ⟨hpos, hrows, -⟩ := hm.rows_bounds
  have hge := hm.height_ge
  have hle := hm.height_le
  have hfrom : uint32 (s.fbpitch * fontheight) = i.copyfrom := by
    rw [hk.fbpitch]
    rfl
  have hcopy : uint32 (uint32Sub s.fbheight fontheight * s.fbpitch) = i.copysize := by
    have hfont : fontheight ≤ i.fbheight := hge
    rw [hk.fbheight, hk.fbpitch, uint32Sub_of_le hfont (by omega)]
    rfl
  have hlast : uint32Sub s.textrows 1 = i.rows - 1 := by
    rw [hk.textrows, uint32Sub_of_le hpos (by omega)]
  have hmul : uint32 ((i.rows - 1) * fontheight) = (i.rows - 1) * 16 := uint32_of_lt (by unfold fontheight; omega)
  have hstart : uint32 ((i.rows - 1) * 16 * s.fbpitch) = i.clearstart := by
    rw [hk.fbpitch]
    rfl
  have hset : uint32 (uint32Sub s.fbheight ((i.rows - 1) * 16) * s.fbpitch) = i.setsize := by
    rw [hk.fbheight, hk.fbpitch, uint32Sub_of_le (by omega) (by omega)]
    rfl
  have hfromle : i.copyfrom ≤ i.fbpitch * 16 := uint32_le _
  have hcopyle : i.copysize ≤ (i.fbheight - 16) * i.fbpitch := uint32_le _
  have hstartle : i.clearstart ≤ (i.rows - 1) * 16 * i.fbpitch := uint32_le _
  have hsetle : i.setsize ≤ (i.fbheight - (i.rows - 1) * 16) * i.fbpitch := uint32_le _
  have hcopied : i.fbpitch * 16 + (i.fbheight - 16) * i.fbpitch = i.fbpitch * i.fbheight := by
    rw [Nat.mul_comm (i.fbheight - 16), ← Nat.mul_add, Nat.add_sub_cancel' hge]
  have hset' : (i.rows - 1) * 16 * i.fbpitch + (i.fbheight - (i.rows - 1) * 16) * i.fbpitch =
      i.fbpitch * i.fbheight := by
    rw [← Nat.add_mul, Nat.add_sub_cancel' (by omega), Nat.mul_comm]
  have hcopyrun : copyBytes s 0 (uint32 (s.fbpitch * fontheight))
    (uint32 (uint32Sub s.fbheight fontheight * s.fbpitch)) =
      some { s with mem := memcpy s.mem 0 i.copyfrom i.copysize } := by
    rw [hfrom, hcopy]
    exact copyBytes_run hk (by omega) (by omega)
  have hclearrun : clearBytes { s with mem := memcpy s.mem 0 i.copyfrom i.copysize }
      (uint32 (uint32 (uint32Sub s.textrows 1 * fontheight) * s.fbpitch))
      (uint32 (uint32Sub s.fbheight (uint32 (uint32Sub s.textrows 1 * fontheight)) * s.fbpitch)) =
      some { s with mem := i.scrolled s.mem } := by
    rw [hlast, hmul, hstart, hset]
    exact clearBytes_run (hk.withMem _) (by omega)
  unfold fbRgbScroll
  rw [hcopyrun]
  refine Option.bind_eq_some_iff.mpr ⟨_, rfl, ?_⟩
  refine Option.bind_eq_some_iff.mpr ⟨_, hclearrun, ?_⟩
  rw [hlast]

/-- Where there is one row of the text, all is cleared. -/
theorem one_row (hone : i.rows = 1) : i.clearstart = 0 ∧ i.setsize = i.cleared := by
  unfold FbInfo.clearstart FbInfo.setsize FbInfo.cleared
  rw [hone, Nat.sub_self, Nat.zero_mul, Nat.sub_zero]
  exact ⟨uint32_of_lt (by decide), rfl⟩

/-- Where there is a second row of the text, no size wraps around. -/
theorem size_lt (hm : RgbMode i) (hreach : i.Reaches) (hrows : 2 ≤ i.rows) : i.fbheight * i.fbpitch < 4294967296 := by
  obtain ⟨-, -, hheight⟩ := hm.rows_bounds
  by_contra hnot
  have hcleared : i.cleared + 4294967296 ≤ i.fbheight * i.fbpitch := by
    unfold FbInfo.cleared uint32
    omega
  have hmax := cleared_lt i
  have hlast : (16 * i.rows - 1) * i.fbpitch < i.cleared := by
    unfold FbInfo.Reaches FbInfo.pixelAt at hreach
    omega
  have htop : i.fbheight * i.fbpitch ≤ (16 * i.rows - 1 + 16) * i.fbpitch := Nat.mul_le_mul_right _ (by omega)
  have hsixteen : 16 * i.fbpitch ≤ (16 * i.rows - 1) * i.fbpitch := Nat.mul_le_mul_right _ (by omega)
  rw [Nat.add_mul] at htop
  omega

/-- The pixels of the last row are cleared. -/
theorem scrolled_blank (hm : RgbMode i) (hreach : i.Reaches) {c : ℕ} (hc : c < i.cols) :
    CellShows i (i.scrolled m) (i.rows - 1) c 0x20 := by
  obtain ⟨hpos, hrows, -⟩ := hm.rows_bounds
  apply blank_shows
  intro y hy x hx j hj
  have hreached := pixelAt_cleared hreach (show 16 * (i.rows - 1) + y < 16 * i.rows by omega)
    (show 8 * c + x < 8 * i.cols by omega)
  have hbelow : (i.rows - 1) * 16 * i.fbpitch ≤ i.pixelAt (16 * (i.rows - 1) + y) (8 * c + x) := by
    unfold FbInfo.pixelAt
    refine Nat.le_trans (Nat.mul_le_mul_right i.fbpitch ?_) (Nat.le_add_right _ _)
    omega
  rw [scrolled_apply, if_pos]
  rcases Nat.lt_or_ge i.rows 2 with hone | htwo
  · obtain ⟨hstart, hset⟩ := one_row (show i.rows = 1 by omega)
    rw [hstart, hset]
    omega
  · have hsize := size_lt hm hreach htwo
    have hsum : (i.rows - 1) * 16 * i.fbpitch + (i.fbheight - (i.rows - 1) * 16) * i.fbpitch =
        i.fbheight * i.fbpitch := by
      rw [← Nat.add_mul, Nat.add_sub_cancel' (by omega)]
    have hstart : i.clearstart = (i.rows - 1) * 16 * i.fbpitch := uint32_of_lt (by omega)
    have hset : i.setsize = (i.fbheight - (i.rows - 1) * 16) * i.fbpitch := uint32_of_lt (by omega)
    have hcleared : i.cleared = i.fbheight * i.fbpitch := uint32_of_lt hsize
    rw [hstart, hset]
    omega

/-- The pixels of the other rows are those of the row below. -/
theorem scrolled_up (hm : RgbMode i) (hreach : i.Reaches) {r c : ℕ} (hr : r + 1 < i.rows) (hc : c < i.cols) {b : Byte}
    (h : CellShows i m (r + 1) c b) : CellShows i (i.scrolled m) r c b := by
  obtain ⟨hpos, hrows, -⟩ := hm.rows_bounds
  have hge := hm.height_ge
  have hsize := size_lt hm hreach (by omega)
  have hle : (i.rows - 1) * 16 * i.fbpitch ≤ i.fbheight * i.fbpitch := Nat.mul_le_mul_right _ (by omega)
  have hfromle : i.fbpitch * 16 ≤ i.fbheight * i.fbpitch := by
    rw [Nat.mul_comm]
    exact Nat.mul_le_mul_right _ hge
  have hcopyle : (i.fbheight - 16) * i.fbpitch ≤ i.fbheight * i.fbpitch := Nat.mul_le_mul_right _ (Nat.sub_le _ _)
  have hstart : i.clearstart = (i.rows - 1) * 16 * i.fbpitch := uint32_of_lt (by omega)
  have hfrom : i.copyfrom = i.fbpitch * 16 := uint32_of_lt (by omega)
  have hcopy : i.copysize = (i.fbheight - 16) * i.fbpitch := uint32_of_lt (by omega)
  intro y hy x hx j hj
  have hoff := hm.col_lt_pitch hm.pixelBytes_mul_le (show 8 * c + x < 8 * i.cols by omega)
  have hbefore : i.pixelAt (16 * r + y) (8 * c + x) + j < (16 * r + y + 1) * i.fbpitch := by
    unfold FbInfo.pixelAt
    rw [Nat.add_mul (16 * r + y) 1, Nat.one_mul]
    omega
  have habove : (16 * r + y + 1) * i.fbpitch ≤ (i.rows - 1) * 16 * i.fbpitch := Nat.mul_le_mul_right _ (by omega)
  have hinside : (16 * r + y + 1) * i.fbpitch ≤ (i.fbheight - 16) * i.fbpitch := Nat.mul_le_mul_right _ (by omega)
  rw [scrolled_apply, hstart, hcopy, hfrom, if_neg (by omega), if_pos (by omega), ← h y hy x hx j hj]
  congr 1
  unfold FbInfo.pixelAt
  ring

end Scrolling
end Borgos.Video
