import Borgos.Foundations.Positional

/-! # `cpio.c`: the initial ram disk

`cpio_debug` walks over an archive in the newc format and prints its entries. A buffer is the list of its bytes, and a
pointer into it is an offset. Sizes are `uint32_t`; offsets are pointers and do not wrap.
-/
namespace Borgos.Fs
open Borgos.Foundations
set_option autoImplicit false

abbrev Byte := BitVec 8

def cpioHdrSize : ℕ := 110

/-- `ALIGN4`, on `uint32_t`. -/
def align4 (x : ℕ) : ℕ := (x + 3) % 2 ^ 32 / 4 * 4

def hexval (c : Byte) : Option ℕ :=
  if 0x30 ≤ c.toNat ∧ c.toNat ≤ 0x39 then some (c.toNat - 0x30)
  else if 0x61 ≤ c.toNat ∧ c.toNat ≤ 0x66 then some (c.toNat - 0x61 + 10)
  else if 0x41 ≤ c.toNat ∧ c.toNat ≤ 0x46 then some (c.toNat - 0x41 + 10)
  else none

/-- Eight digits; `v << 4 | d` is `v * 16 + d`, and they fit in `uint32_t`. -/
def hex8 (s : List Byte) : Option ℕ := Positional.read 16 hexval 0 s

/-- `TRAILER!!!` -/
def trailerName : List Byte := [0x54, 0x52, 0x41, 0x49, 0x4c, 0x45, 0x52, 0x21, 0x21, 0x21]

def nameIsTrailer (name : List Byte) (namesz : ℕ) : Bool := namesz == 11 && name.take 11 == trailerName ++ [0]

/-- The bytes of a field of `cpio_newc_header`. -/
def field (h : List Byte) (offset size : ℕ) : List Byte := (h.drop offset).take size

structure CpioSizes where
  namesz : ℕ
  filesz : ℕ
  mode : ℕ
deriving DecidableEq

/-- The magic number and the three fields that are read. -/
def cpioHeader (h : List Byte) : Option CpioSizes :=
  if field h 0 5 = [0x30, 0x37, 0x30, 0x37, 0x30] ∧ (field h 5 1 = [0x31] ∨ field h 5 1 = [0x32]) then do
    let namesz ← hex8 (field h 94 8)
    let filesz ← hex8 (field h 54 8)
    let mode ← hex8 (field h 14 8)
    some ⟨namesz, filesz, mode⟩
  else none

inductive CpioTyp where
  | fil | katalog | symlink | annat
deriving DecidableEq

def cpioTyp (mode : ℕ) : CpioTyp :=
  if mode &&& 0o170000 = 0o100000 then .fil
  else if mode &&& 0o170000 = 0o040000 then .katalog
  else if mode &&& 0o170000 = 0o120000 then .symlink
  else .annat

/-- What is known about an entry when its line is printed. The name is a C string. -/
structure CpioLine where
  sizes : CpioSizes
  typ : CpioTyp
  name : List Byte
deriving DecidableEq

inductive CpioStep where
  | fail
  | stop
  | trailer
  | entry (line : CpioLine) (p : ℕ)
deriving DecidableEq

/-- The body of the loop at `p`. -/
def cpioStep (b : List Byte) (p : ℕ) : CpioStep :=
  if p + cpioHdrSize ≤ b.length then
    match cpioHeader (b.drop p) with
    | none => .fail
    | some z =>
      let name := b.drop (p + cpioHdrSize)
      let data := p + align4 (cpioHdrSize + z.namesz)
      if b.length < data ∨ b.length < data + z.filesz then .fail
      else if nameIsTrailer name z.namesz then .trailer
      else .entry ⟨z, cpioTyp z.mode, name.takeWhile (· ≠ 0)⟩ (data + align4 z.filesz)
  else .stop

/-- How the walk ends: `return -1`, or the lines printed and whether the trailer has been reached. -/
inductive CpioResult where
  | error
  | done (lines : List CpioLine) (trailer : Bool)
deriving DecidableEq

/-- Rounding can leave `p` where it is, so the loop takes fuel. -/
def cpioLoop (b : List Byte) : ℕ → ℕ → List CpioLine → Option CpioResult
  | 0, _, _ => none
  | fuel + 1, p, lines =>
    match cpioStep b p with
    | .fail => some .error
    | .stop => some (.done lines false)
    | .trailer => some (.done lines true)
    | .entry line p' => cpioLoop b fuel p' (lines ++ [line])

def cpioDebug (b : List Byte) (fuel : ℕ) : Option CpioResult := cpioLoop b fuel 0 []

def CpioResult.ret : CpioResult → ℤ
  | .error => -1
  | .done lines _ => lines.length

/-! ## The format -/

/-- A digit in upper or lower case. -/
def hexDigit (upper : Bool) (d : ℕ) : Byte :=
  if d < 10 then BitVec.ofNat 8 (0x30 + d) else BitVec.ofNat 8 (if upper then 0x41 + (d - 10) else 0x61 + (d - 10))

/-- Eight hexadecimal digits, each in its own case. -/
def HexField (s : List Byte) (v : ℕ) : Prop :=
  v < 16 ^ 8 ∧ ∃ upper : ℕ → Bool, s = Positional.write 16 (fun i => hexDigit (upper i)) 8 v

/-- Magic `070701` or `070702`, and the sizes in hexadecimal. -/
structure NewcHeader (hdr : List Byte) (z : CpioSizes) : Prop where
  length : hdr.length = cpioHdrSize
  magic : field hdr 0 5 = [0x30, 0x37, 0x30, 0x37, 0x30]
  version : field hdr 5 1 = [0x31] ∨ field hdr 5 1 = [0x32]
  mode : HexField (field hdr 14 8) z.mode
  filesize : HexField (field hdr 54 8) z.filesz
  namesize : HexField (field hdr 94 8) z.namesz

/-- The bytes missing to a multiple of four. -/
def padding (n : ℕ) : ℕ := (4 - n % 4) % 4

/-- An entry: header, name field, data, and the padding after the last two. -/
def NewcEntry (bytes name data : List Byte) (mode : ℕ) : Prop :=
  ∃ hdr pad pad', bytes = hdr ++ name ++ pad ++ data ++ pad' ∧ NewcHeader hdr ⟨name.length, data.length, mode⟩ ∧
    pad.length = padding (cpioHdrSize + name.length) ∧ pad'.length = padding data.length

/-- A file to be stored. Its name is not that of the trailer and holds no NUL. -/
structure CpioFile where
  name : List Byte
  mode : ℕ
  data : List Byte
  nul : 0 ∉ name
  trailer : name ≠ trailerName

/-- `bytes` is an encoding of the file. -/
def Encodes (bytes : List Byte) (f : CpioFile) : Prop := NewcEntry bytes (f.name ++ [0]) f.data f.mode

def EncodesTrailer (bytes : List Byte) : Prop := ∃ mode, NewcEntry bytes (trailerName ++ [0]) [] mode

/-- What should be printed for the file. -/
def CpioFile.line (f : CpioFile) : CpioLine :=
  ⟨⟨f.name.length + 1, f.data.length, f.mode⟩, cpioTyp f.mode, f.name⟩

/-- A well-formed entry with the sizes that were read; its name ends in NUL. -/
def WellFormed (bytes : List Byte) (line : CpioLine) : Prop :=
  ∃ name data, NewcEntry bytes name data line.sizes.mode ∧ name.length = line.sizes.namesz ∧
    data.length = line.sizes.filesz ∧ name.getLast? = some 0

/-- The buffer is the concatenation of the entries that were printed and less than a header. -/
def Decomposes (b : List Byte) (lines : List CpioLine) : Prop :=
  ∃ blocks tail, b = blocks.flatten ++ tail ∧ List.Forall₂ WellFormed blocks lines ∧ tail.length < cpioHdrSize

end Borgos.Fs
