import Mathlib.Tactic
import Borgos.Foundations.Forest

/-! # Bytes of a memory of words

A memory is kept as rows of 64-bit words. `byteAt` and `putByte` read and write single bytes of it, with `size` bytes
to a row. As far as bytes go, a `putByte` is a point update.
-/
namespace Borgos.Foundations.WordBytes
open Borgos.Foundations
set_option autoImplicit false

/-- Digit `k` of a number in base 256. -/
def digit (w k : ℕ) : ℕ := w / 256 ^ k % 256

def setDigit (w k b : ℕ) : ℕ := w / 256 ^ (k + 1) * 256 ^ (k + 1) + b * 256 ^ k + w % 256 ^ k

variable (size : ℕ)

/-- The byte at address `a`. -/
def byteAt (mem : ℕ → ℕ → ℕ) (a : ℕ) : ℕ := digit (mem (a / size) (a % size / 8)) (a % size % 8)

def putByte (mem : ℕ → ℕ → ℕ) (a b : ℕ) : ℕ → ℕ → ℕ :=
  setCell mem (a / size) (a % size / 8) (setDigit (mem (a / size) (a % size / 8)) (a % size % 8) b)

variable {size} {mem : ℕ → ℕ → ℕ}

end Borgos.Foundations.WordBytes
