import Borgos.Foundations.Reversal
import Borgos.Libc.Doprnt

/-! # `bootdebug.c`: `bootdebug_printf`

The characters go to the serial port, one after another. To read on behind the NUL of the format or to write behind the
buffer has no result.
-/
namespace Borgos.Boot
open Borgos.Foundations FlatMemory Libc
set_option autoImplicit false

/-- `sizeof(buf)` -/
def bootdebugBufsize : ℕ := 200

/-- `(remainder < 10) ? remainder + '0' : remainder + 'a' - 10` -/
def remainderChar (remainder : ℕ) : Byte :=
  BitVec.ofNat 8 (if remainder < 10 then remainder + 0x30 else remainder + 0x61 - 10)

/-- The `do`/`while` loop, with `room` characters left in the buffer: the buffer and `p` behind the digits. -/
def divideLoop (divisor : ℕ) : ℕ → ℕ → (ℕ → Byte) → ℕ → Option ((ℕ → Byte) × ℕ)
  | 0, _, _, _ => none
  | room + 1, ud, buf, p =>
    let buf := Function.update buf p (remainderChar (ud % divisor))
    if ud / divisor ≠ 0 then divideLoop divisor room (ud / divisor) buf (p + 1) else some (buf, p + 1)

/-- The digits, the NUL and the reversal, from `start` on. -/
def divideAndReverse (divisor ud : ℕ) (buf : ℕ → Byte) (start : ℕ) : Option (ℕ → Byte) := do
  let (buf, p) ← divideLoop divisor (bootdebugBufsize - start) ud buf start
  if p < bootdebugBufsize then some (reverseInPlace (Function.update buf p 0) start (p - 1)) else none

def bootdebugItoa (buf : ℕ → Byte) (base : Byte) (d : BitVec 64) : Option (ℕ → Byte) :=
  if base = ch 'd' ∧ d.toInt < 0 then divideAndReverse 10 (-d).toNat (Function.update buf 0 (ch '-')) 1
  else if base = ch 'x' then divideAndReverse 16 d.toNat buf 0
  else divideAndReverse 10 d.toNat buf 0

/-- The string in the buffer. -/
def bufString (buf : ℕ → Byte) : Option (List Byte) :=
  if 0 ∈ load buf 0 bootdebugBufsize then some ((load buf 0 bootdebugBufsize).takeWhile (· ≠ 0)) else none

/-- `stack` is the low byte of each word that `arg` walks over. -/
structure DebugArguments extends Arguments where
  stack : ℕ → Byte

structure DebugState where
  ap : ℕ
  arg : ℕ
  buf : ℕ → Byte
  out : List Byte

/-- `string:` -/
def padString (pad0 : Bool) (pad : ℕ) (str : List Byte) : List Byte :=
  List.replicate (pad - str.length) (if pad0 then ch '0' else ch ' ') ++ str

def debugNullText : List Byte := [ch '(', ch 'n', ch 'u', ch 'l', ch 'l', ch ')']

section Printf
variable (a : DebugArguments)

/-- The switch on the conversion. -/
def debugConvert (c : Byte) (pad0 : Bool) (pad : ℕ) (s : DebugState) : Option DebugState :=
  if c = ch 'c' then some { s with ap := s.ap + 1, out := s.out ++ [(a.strings (a.args s.ap)).get 0] }
  else if c = ch 'd' ∨ c = ch 'u' ∨ c = ch 'x' then do
    let integer : BitVec 32 := (a.args s.ap).setWidth 32
    let buf ← bootdebugItoa s.buf c (integer.signExtend 64)
    let str ← bufString buf
    some { s with ap := s.ap + 1, buf := buf, out := s.out ++ padString pad0 pad str }
  else if c = ch 's' then
    let p := a.args s.ap
    let str := if p = 0 then debugNullText else (a.strings p).chars
    some { s with ap := s.ap + 1, out := s.out ++ padString pad0 pad str }
  else some { s with arg := s.arg + 1, out := s.out ++ [a.stack s.arg] }

/-- `c = *format++` -/
def nextChar : List Byte → Option (Byte × List Byte)
  | [] => none
  | c :: format => some (c, format)

def debugLoop : ℕ → List Byte → DebugState → Option DebugState
  | 0, _, _ => none
  | fuel + 1, format, s => do
    let (c, format) ← nextChar format
    if c = 0 then some s
    else if c ≠ ch '%' then debugLoop fuel format { s with out := s.out ++ [c] }
    else do
      let (c, format) ← nextChar format
      let pad0 : Bool := c = ch '0'
      let (c, format) ← if pad0 then nextChar format else some (c, format)
      let pad := if isDecimal c then c.toNat - 0x30 else 0
      let (c, format) ← if isDecimal c then nextChar format else some (c, format)
      let s ← debugConvert a c pad0 pad s
      debugLoop fuel format s

/-- What `bootdebug_printf` sends to the port; the buffer is not initialised. -/
def bootdebugPrintf (fuel : ℕ) (format : CString) (buf : ℕ → Byte) : Option (List Byte) :=
  (debugLoop a fuel (format.chars ++ [0]) ⟨0, 0, buf, []⟩).map DebugState.out

end Printf
end Borgos.Boot
