import Blockad.Lib.Bytes

/-!
# `Blockad.Lib.Strtol`: `strtol` in base 10

`strtol` skips white space, reads an optional sign and then the longest run of decimal
digits. It stores where it stopped, clamps what does not fit a 64-bit `long`, and reports
that through `errno`. When there is no digit, nothing is converted and the end pointer is
the start of the string.
-/

set_option autoImplicit false

namespace Bytes

/-- `LONG_MAX` of a 64-bit `long`. -/
def longMax : Int := 0x7FFFFFFFFFFFFFFF

/-- `LONG_MIN` of a 64-bit `long`. -/
def longMin : Int := -0x8000000000000000

/-- What one call of `strtol` reports. -/
structure Strtol where
  /-- The result. -/
  value : Int
  /-- The string from the end pointer on. -/
  rest : Bytes
  /-- The end pointer has moved: some digit was read. -/
  converted : Bool
  /-- `errno` is `ERANGE`. -/
  erange : Bool
  deriving DecidableEq, Repr

/-- The number that a run of decimal digits spells. -/
def digitsValue (ds : Bytes) : Nat := ds.foldl (fun v c => 10 * v + (c - chr '0').toNat) 0

/-- The optional sign: whether it is a minus, and what follows it. -/
def sign : Bytes → Bool × Bytes
  | [] => (false, [])
  | c :: s =>
    if c == chr '-' then (true, s)
    else if c == chr '+' then (false, s)
    else (false, c :: s)

/-- `strtol(s, &end, 10)` on a NUL-terminated string. -/
def strtol (s : Bytes) : Strtol :=
  let signed := sign (s.dropWhile isSpace)
  let digits := signed.2.takeWhile isDigit
  if digits.isEmpty then ⟨0, s, false, false⟩
  else
    let n : Int := if signed.1 then -digitsValue digits else digitsValue digits
    let rest := signed.2.dropWhile isDigit
    if longMax < n then ⟨longMax, rest, true, true⟩
    else if n < longMin then ⟨longMin, rest, true, true⟩
    else ⟨n, rest, true, false⟩

example : strtol (lit " +12/min") = ⟨12, lit "/min", true, false⟩ := by decide

end Bytes
