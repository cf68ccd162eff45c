import StoragePolicy.Text.Case
import StoragePolicy.Number.Natural

/-!
# Reading doubles

A decimal is a sign, digits with at most one point among or beside them, and an exponent at will.
Its value is rounded once to the nearest double. The words `inf`, `infinity` and `nan` are read in
any case.

## Main definitions

* `Decimal`: A sign, a whole number and a power of ten.
* `Decimal.ofText?`: Reads the written form.
* `Decimal.toDouble`: The nearest double.
* `readDouble`: Reads a double, the named values included.
-/

namespace StoragePolicy

namespace Number

/-- The number `digits * 10 ^ exponent`, negated if `negative`. -/
structure Decimal where
  negative : Bool
  digits : Nat
  exponent : Int
  deriving Repr, DecidableEq

/-- The double that is not a number. -/
def notANumber : Float := 0.0 / 0.0

/-- The positive infinity. -/
def infinity : Float := 1.0 / 0.0

/-- Negates a double if asked to. -/
def signed (negative : Bool) (x : Float) : Float := if negative then -x else x

/-- The nearest double. A decimal point beyond place 310 lies above all finite doubles, and one
    before place -330 below half the smallest, whatever the digits are, so that no power of ten
    outside this range is ever computed. -/
def Decimal.toDouble (d : Decimal) : Float :=
  let place : Int := (Nat.toDigits 10 d.digits).length + d.exponent
  if d.digits = 0 then signed d.negative 0.0
  else if 310 < place then signed d.negative infinity
  else if place < -330 then signed d.negative 0.0
  else signed d.negative (Float.ofScientific d.digits (d.exponent < 0) d.exponent.natAbs)

/-- Splits off a sign; no sign counts as plus. -/
def takeSign : List Char → Bool × List Char
  | '-' :: rest => (true, rest)
  | '+' :: rest => (false, rest)
  | other => (false, other)

/-- Reads what may follow the digits: nothing, or `e`, a sign at will and one or more digits. -/
def readExponent : List Char → Option Int
  | [] => some 0
  | c :: rest =>
    if c = 'e' || c = 'E' then
      let (negative, digits) := takeSign rest
      if digits.isEmpty || !digits.all Char.isDigit then none
      else
        let n : Int := digitsValue digits
        some (if negative then -n else n)
    else none

/-- Reads the unsigned part of a decimal: digits, a point at will and more digits, of which there
    is at least one on one of the two sides, and an exponent at will. -/
def Decimal.ofDigits? (negative : Bool) (text : List Char) : Option Decimal :=
  let whole := text.takeWhile Char.isDigit
  let rest := text.dropWhile Char.isDigit
  let (fraction, rest) := match rest with
    | '.' :: more => (more.takeWhile Char.isDigit, more.dropWhile Char.isDigit)
    | other => ([], other)
  if whole.isEmpty && fraction.isEmpty then none
  else
    (readExponent rest).map fun e =>
      { negative := negative, digits := digitsValue (whole ++ fraction),
        exponent := e - fraction.length }

/-- Reads the written form of a decimal, sign included. -/
def Decimal.ofText? (text : List Char) : Option Decimal :=
  let (negative, rest) := takeSign text
  Decimal.ofDigits? negative rest

/-- Reads a double: a decimal, or one of the words for the values that no decimal has. -/
def readDouble (text : List Char) : Option Float :=
  let (negative, rest) := takeSign text
  if Text.isKeyword "nan" rest then some notANumber
  else if Text.isKeyword "inf" rest || Text.isKeyword "infinity" rest then
    some (signed negative infinity)
  else (Decimal.ofText? text).map Decimal.toDouble

end Number

end StoragePolicy
