import Borgos.Foundations.EarlyReturn
import Borgos.Libc.Itoa
import Borgos.Libc.Str

/-! # `doprnt.c`: `_doprnt`

A format is the characters of an array from the current one on, its NUL included; to read on behind the NUL has no
meaning. Each argument takes one slot of 64 bits. An `int` wraps around.
-/
namespace Borgos.Libc
open Borgos.Foundations
set_option autoImplicit false

def ch (c : Char) : Byte := BitVec.ofNat 8 c.toNat

/-- The value of an `int` expression. -/
def int32 (x : ℤ) : ℤ := x.bmod 4294967296

inductive ValueSize where
  | shortShort
  | short
  | normal
  | long
deriving DecidableEq

/-- The arguments, and the strings that pointers among them point to. -/
structure Arguments where
  args : ℕ → BitVec 64
  strings : BitVec 64 → CString

/-- What the caller of `_doprnt` supplies; `ω` is the state of the output function. -/
structure Caller (ω : Type) extends Arguments where
  putcFunc : ℤ → ω → ℤ × ω

structure DoprntState (ω : Type) where
  ap : ℕ
  charcount : ℤ
  out : ω

/-- The local variables that a specification sets. -/
structure Section where
  leftjust : Bool
  hashtype : Bool
  padChar : Byte
  fmin : ℤ
  valueSize : ValueSize
deriving DecidableEq

def Section.start : Section := ⟨false, false, ch ' ', 0, .normal⟩

/-- `hashtype` is 3 where there is a prefix `0x`. -/
structure Conversion where
  sign : Bool
  hasPrefix : Bool
  str : List Byte

/-! ## Scanning -/

/-- The flags. -/
def scanFlags : List Byte → Section → Option (Section × List Byte)
  | [], _ => none
  | c :: fmt, s =>
    if c = ch '-' then scanFlags fmt { s with leftjust := true }
    else if c = ch '#' then scanFlags fmt { s with hashtype := true }
    else if c = ch '0' then scanFlags fmt { s with padChar := ch '0' }
    else some (s, c :: fmt)

def isDecimal (c : Byte) : Bool := ch '0' ≤ c && c ≤ ch '9'

def scanWidth : List Byte → ℤ → Option (ℤ × List Byte)
  | [], _ => none
  | c :: fmt, fmin =>
    if isDecimal c then scanWidth fmt (int32 (fmin * 10 + (c.toNat - 0x30)))
    else some (fmin, c :: fmt)

/-- The length modifier. -/
def scanSize : List Byte → Option (ValueSize × List Byte)
  | [] => none
  | c :: fmt =>
    if c = ch 'l' then some (.long, fmt)
    else if c = ch 'h' then
      match fmt with
      | [] => none
      | c' :: fmt' => if c' = ch 'h' then some (.shortShort, fmt') else some (.short, c' :: fmt')
    else some (.normal, c :: fmt)

section Functions
variable {ω : Type} (caller : Caller ω)

abbrev DoprntBody (ω α : Type) := Body ℤ (DoprntState ω) α

/-- `*fmt` -/
def peek : List Byte → DoprntBody ω Byte
  | [] => Body.fault
  | c :: _ => pure c

/-- `va_arg`, the whole slot. -/
def vaArg : DoprntBody ω (BitVec 64) := do
  let s ← Body.get
  Body.modify fun s => { s with ap := s.ap + 1 }
  pure (caller.args s.ap)

/-- `va_arg(ap, int)` -/
def vaInt : DoprntBody ω ℤ := do
  let arg ← vaArg caller
  pure (arg.setWidth 32).toInt

/-- The second field: a width in digits or by an argument. -/
def parseWidth (s : Section) (fmt : List Byte) : DoprntBody ω (Section × List Byte) := do
  let c ← peek fmt
  if c = ch '*' then do
    let fmin ← vaInt caller
    if fmin < 0 then pure ({ s with fmin := int32 (-fmin), leftjust := true }, fmt.tail)
    else pure ({ s with fmin := fmin }, fmt.tail)
  else do
    let (fmin, fmt) ← Body.need (scanWidth fmt 0)
    pure ({ s with fmin := fmin }, fmt)

/-- From behind the `%` to the conversion specifier. -/
def parseSection (fmt : List Byte) : DoprntBody ω (Section × List Byte) := do
  let (s, fmt) ← Body.need (scanFlags fmt Section.start)
  let (s, fmt) ← parseWidth caller s fmt
  let s := if s.leftjust then { s with padChar := ch ' ' } else s
  let (valueSize, fmt) ← Body.need (scanSize fmt)
  pure ({ s with valueSize := valueSize }, fmt)

/-! ## Converting -/

/-- `_itoa` into the local buffer, and the string there. -/
def numericStr (value : BitVec 64) (base : ℕ) : DoprntBody ω (List Byte) := do
  let stored ← Body.need (itoa 67 value base)
  pure (stored.takeWhile (· ≠ 0))

def signedArg (valueSize : ValueSize) : DoprntBody ω ℤ :=
  if valueSize = .long then do
    let arg ← vaArg caller
    pure arg.toInt
  else vaInt caller

def unsignedArg (valueSize : ValueSize) : DoprntBody ω (BitVec 64) := do
  let arg ← vaArg caller
  pure (if valueSize = .long then arg else (arg.setWidth 32).setWidth 64)

def nullText : List Byte := [ch '(', ch 'N', ch 'U', ch 'L', ch 'L', ch ')']

/-- The switch on the conversion specifier; `none` is its default case. -/
def convert (s : Section) (c : Byte) : DoprntBody ω (Option Conversion) :=
  if c = ch 's' then do
    let ptr ← vaArg caller
    pure (some ⟨false, false, if ptr = 0 then nullText else (caller.strings ptr).chars⟩)
  else if c = ch 'i' ∨ c = ch 'd' then do
    let longArg ← signedArg caller s.valueSize
    let ulongArg := BitVec.ofInt 64 longArg
    let str ← numericStr (if longArg < 0 then -ulongArg else ulongArg) 10
    pure (some ⟨decide (longArg < 0), false, str⟩)
  else if c = ch 'u' then do
    let ulongArg ← unsignedArg caller s.valueSize
    let str ← numericStr ulongArg 10
    pure (some ⟨false, false, str⟩)
  else if c = ch 'x' then do
    let ulongArg ← unsignedArg caller s.valueSize
    let str ← numericStr ulongArg 16
    pure (some ⟨false, s.hashtype, str⟩)
  else pure none

/-! ## Output -/

/-- A call of the output function. A negative value is returned at once. -/
def putChar (c : Byte) : DoprntBody ω Unit := do
  let s ← Body.get
  let (ret, out) := caller.putcFunc c.toInt s.out
  Body.modify fun s => { s with out := out }
  if ret < 0 then Body.leave ret
  else Body.modify fun s => { s with charcount := int32 (s.charcount + 1) }

def putChars (l : List Byte) : DoprntBody ω Unit := Body.forEach (putChar caller) l

/-- The character `n` times. -/
def putTimes (n : ℤ) (c : Byte) : DoprntBody ω Unit := putChars caller (List.replicate n.toNat c)

/-- The field: prefix, blanks, sign, zeroes and digits. -/
def outputField (s : Section) (cv : Conversion) : DoprntBody ω Unit := do
  let lenStr := int32 cv.str.length
  let lenNonpadding := int32 (lenStr + if cv.sign then 1 else 0)
  let lenPadding := if lenNonpadding < s.fmin then int32 (s.fmin - lenNonpadding) else 0
  let zeroes : Bool := !s.leftjust && s.padChar = ch '0'
  let numZeroes := if zeroes then lenPadding else 0
  let lenPadding := if zeroes then 0 else lenPadding
  if cv.hasPrefix then putChars caller [ch '0', ch 'x']
  if !s.leftjust then putTimes caller lenPadding s.padChar
  if cv.sign then putChar caller (ch '-')
  putTimes caller numZeroes (ch '0')
  putChars caller (cv.str.take lenStr.toNat)

/-! ## The loop -/

/-- A specification, from behind the `%`. `none`: it is not one, and the `%` is a literal. -/
def doSection (fmt : List Byte) : DoprntBody ω (Option (List Byte)) := do
  let (s, fmt) ← parseSection caller fmt
  let c ← peek fmt
  let cv ← convert caller s c
  match cv with
  | none => pure none
  | some cv => do
    outputField caller s cv
    pure (some fmt.tail)

def doprntLoop : ℕ → List Byte → DoprntBody ω Unit
  | 0, _ => Body.fault
  | fuel + 1, fmt => do
    let c ← peek fmt
    if c = 0 then pure ()
    else if c = ch '%' then do
      let c' ← peek fmt.tail
      if c' ≠ ch '%' then do
        let rest ← doSection caller fmt.tail
        match rest with
        | some rest => doprntLoop fuel rest
        | none => do
          putChar caller c
          doprntLoop fuel fmt.tail
      else do
        putChar caller c'
        doprntLoop fuel fmt.tail.tail
    else do
      putChar caller c
      doprntLoop fuel fmt.tail

/-- `return charcount` at the end of the loop. -/
def finish : Exit ℤ (DoprntState ω) Unit → Option (ℤ × ω)
  | .next _ s => some (s.charcount, s.out)
  | .ret r s => some (r, s.out)
  | .fault => none

/-- The value that `_doprnt` returns and the state of the output function after it. -/
def doprnt (fuel : ℕ) (format : CString) (out : ω) : Option (ℤ × ω) :=
  finish (doprntLoop caller fuel (format.chars ++ [0]) ⟨0, 0, out⟩)

end Functions

/-! ## `sprintf.c` -/

/-- The memory, and where the next character goes. -/
structure Sprintf where
  mem : ℕ → Byte
  s : ℕ

/-- `sprntf_cb` -/
def sprntfCb (c : ℤ) (b : Sprintf) : ℤ × Sprintf :=
  ((BitVec.ofInt 8 c).toNat, ⟨Function.update b.mem b.s (BitVec.ofInt 8 c), b.s + 1⟩)

/-- The value that `sprintf` returns and the memory after it. -/
def sprintf (a : Arguments) (fuel : ℕ) (mem : ℕ → Byte) (str : ℕ) (format : CString) : Option (ℤ × (ℕ → Byte)) :=
  (doprnt ⟨a, sprntfCb⟩ fuel format ⟨mem, str⟩).map fun r =>
    (int32 ((r.2.s : ℤ) - str), Function.update r.2.mem r.2.s 0)

end Borgos.Libc
