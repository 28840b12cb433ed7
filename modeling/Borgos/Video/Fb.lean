import Borgos.Foundations.CountedLoop
import Borgos.Libc.Doprnt
import Borgos.Libc.Mem
import Borgos.Video.Font

/-! # `fb.c`

A frame buffer is its `fb_info` and the memory from `fbaddr` on: 16-bit cells for text, bytes otherwise. An access
outside of it, or outside of the font, has no result. A `uint32_t` wraps around.
-/
namespace Borgos.Video
open Borgos.Foundations Libc
set_option autoImplicit false

@[irreducible] def uint32 (n : ℕ) : ℕ := n % 4294967296

/-- A difference of two `uint32_t`. -/
@[irreducible] def uint32Sub (a b : ℕ) : ℕ := (a + (4294967296 - b)) % 4294967296

def uint16 (n : ℕ) : ℕ := n % 65536

structure FbInfo where
  fbpitch : ℕ
  fbwidth : ℕ
  fbheight : ℕ
  fbbpp : ℕ
  currow : ℕ
  curcol : ℕ
  curcolor : BitVec 32
  fbbytespp : ℕ
  fbfgrgbcol : BitVec 32
  fbbgrgbcol : BitVec 32
  textrows : ℕ
  textcols : ℕ

structure Fb (β : Type) extends FbInfo where
  mem : ℕ → β

/-! ## Text -/

/-- `ega_entry` -/
def egaEntry (uc color : BitVec 8) : BitVec 16 := uc.setWidth 16 ||| (color.setWidth 16 <<< 8)

section Text
variable (s : Fb (BitVec 16))

def loadCell (pos : ℕ) : Option (BitVec 16) := if pos < s.fbwidth * s.fbheight then some (s.mem pos) else none

def storeCell (pos : ℕ) (v : BitVec 16) : Option (Fb (BitVec 16)) :=
  if pos < s.fbwidth * s.fbheight then some { s with mem := Function.update s.mem pos v } else none

def fbTextPutcharat (c : ℤ) (color : BitVec 8) (row col : ℕ) : Option (Fb (BitVec 16)) :=
  storeCell s (uint32 (row * s.fbwidth + col)) (egaEntry (BitVec.ofInt 8 c) color)

/-- A blank in the current colour. -/
def fbTextBlankat (row col : ℕ) : Option (Fb (BitVec 16)) := fbTextPutcharat s 0x20 (s.curcolor.setWidth 8) row col

def fbTextCls : Option (Fb (BitVec 16)) := do
  let s ← upTo s.fbheight (fun r s => upTo s.fbwidth (fun c s => fbTextBlankat s r c) s) s
  some { s with currow := 0, curcol := 0 }

/-- `fbbuf[idx] = fbbuf[idx + linesize]` -/
def fbTextCopy (idx linesize : ℕ) : Option (Fb (BitVec 16)) := do
  let v ← loadCell s (uint32 (idx + linesize))
  storeCell s idx v

def fbTextScroll : Option (Fb (BitVec 16)) := do
  let linesize := s.fbwidth
  let lastrow := uint32Sub s.fbheight 1
  let cpysize := uint32 (lastrow * s.fbwidth)
  let s ← upTo cpysize (fun idx s => fbTextCopy s idx linesize) s
  let s ← upTo linesize (fun c s => fbTextBlankat s lastrow c) s
  some { s with currow := lastrow, curcol := 0 }

/-- A newline, given or forced. -/
def fbTextNewline : Option (Fb (BitVec 16)) :=
  let s := { s with currow := uint32 (s.currow + 1), curcol := 0 }
  if s.currow = s.fbheight then fbTextScroll s else some s

def fbTextPutchar (c : ℤ) : Option (Fb (BitVec 16)) :=
  if c = 0x0A then fbTextNewline s
  else do
    let s ← fbTextPutcharat s c (s.curcolor.setWidth 8) s.currow s.curcol
    let s := { s with curcol := uint32 (s.curcol + 1) }
    if s.fbwidth ≤ s.curcol then fbTextNewline s else some s

end Text

/-! ## RGB -/

section Rgb
variable (s : Fb Byte)

def storeByte (pos : ℕ) (v : Byte) : Option (Fb Byte) :=
  if pos < s.fbpitch * s.fbheight then some { s with mem := Function.update s.mem pos v } else none

def clearbyte : Byte := 0x33

/-- `memset` within the frame buffer. -/
def clearBytes (pos size : ℕ) : Option (Fb Byte) :=
  if pos + size ≤ s.fbpitch * s.fbheight then some { s with mem := memset s.mem pos clearbyte size } else none

/-- `memcpy` within the frame buffer. -/
def copyBytes (dst src size : ℕ) : Option (Fb Byte) :=
  if dst + size ≤ s.fbpitch * s.fbheight ∧ src + size ≤ s.fbpitch * s.fbheight then
    some { s with mem := memcpy s.mem dst src size }
  else none

def fbRgbSetpixel (row col : ℕ) (rgb : BitVec 32) : Option (Fb Byte) :=
  let pxlptr := uint32 (uint16 row * s.fbpitch) + uint16 col * s.fbbytespp
  if s.fbbytespp = 1 then storeByte s pxlptr (rgb.setWidth 8)
  else if s.fbbytespp = 3 ∨ s.fbbytespp = 4 then do
    let s ← storeByte s pxlptr (rgb.setWidth 8)
    let s ← storeByte s (pxlptr + 1) ((rgb >>> 8).setWidth 8)
    storeByte s (pxlptr + 2) ((rgb >>> 16).setWidth 8)
  else some s

def fbRgbCls : Option (Fb Byte) := do
  let s ← clearBytes s 0 (uint32 (s.fbheight * s.fbpitch))
  some { s with currow := 0, curcol := 0 }

def fontheight : ℕ := 16

def fbRgbScroll : Option (Fb Byte) := do
  let s ← copyBytes s 0 (uint32 (s.fbpitch * fontheight)) (uint32 (uint32Sub s.fbheight fontheight * s.fbpitch))
  let rows := uint32 (uint32Sub s.textrows 1 * fontheight)
  let s ← clearBytes s (uint32 (rows * s.fbpitch)) (uint32 (uint32Sub s.fbheight rows * s.fbpitch))
  some { s with currow := uint32Sub s.textrows 1, curcol := 0 }

/-- `vga_g_8x16_font[c * fontheight + fr]` -/
def fontRow (c : ℤ) (fr : ℕ) : Option Byte :=
  if 0 ≤ c * fontheight + fr ∧ c * fontheight + fr < 4096 then some (vgaG8x16Font (c * fontheight + fr).toNat) else none

/-- `pxls & (1 << (7 - bitidx))` -/
def fontBit (pxls : Byte) (bitidx : ℕ) : Byte := pxls &&& (1#8 <<< (7 - bitidx))

def fbRgbPutcharat (c : ℤ) (rgb : BitVec 32) (row col : ℕ) : Option (Fb Byte) :=
  let background := s.fbbgrgbcol
  upTo fontheight (fun fr s => do
    let pxls ← fontRow c fr
    upTo 8 (fun bitidx s =>
      fbRgbSetpixel s (uint32 (row * fontheight + fr)) (uint32 (col * 8 + bitidx))
        (if fontBit pxls bitidx = 0 then background else rgb)) s) s

/-- A newline, given or forced. -/
def fbRgbNewline : Option (Fb Byte) :=
  let s := { s with currow := uint32 (s.currow + 1), curcol := 0 }
  if s.textrows ≤ s.currow then fbRgbScroll s else some s

def fbRgbPutchar (c : ℤ) : Option (Fb Byte) :=
  if c = 0x0A then fbRgbNewline s
  else do
    let s ← fbRgbPutcharat s c s.fbfgrgbcol s.currow s.curcol
    let s := { s with curcol := uint32 (s.curcol + 1) }
    if s.textcols ≤ s.curcol then fbRgbNewline s else some s

def fbRgbInitDefaultVga : Option (Fb Byte) :=
  fbRgbCls { s with
    fbbytespp := s.fbpitch / s.fbwidth % 256
    fbfgrgbcol := 0x00FFFDD0
    fbbgrgbcol := 0x00333333
    textrows := s.fbheight / 16
    textcols := s.fbwidth / 8
    curcolor := 0x09 }

end Rgb

/-! ## `kconsole.c` -/

/-- `kconsole_putc` for the registered frame buffer; without one, an access had no result. -/
def kconsolePutc (c : ℤ) (fb : Option (Fb Byte)) : ℤ × Option (Fb Byte) := (0, fb.bind fun s => fbRgbPutchar s c)

/-- The frame buffer after `kprintf`. -/
def kprintf (a : Arguments) (format : CString) (s : Fb Byte) : Option (Fb Byte) :=
  (doprnt ⟨a, kconsolePutc⟩ (format.length + 1) format (some s)).bind Prod.snd

end Borgos.Video
