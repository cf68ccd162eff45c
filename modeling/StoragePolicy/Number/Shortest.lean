import StoragePolicy.Number.Binary64
import StoragePolicy.Number.Natural

/-!
# The shortest decimal of a double

A double is written with the fewest decimal digits that read back as the same double; of several
decimals with that many digits the nearest to the exact value is taken, and of two equally near
the larger.

The decimals that read back form an interval around the exact value, which reaches half way to the
two neighbouring doubles. All comparisons are made between whole numbers: the value and the ends
of the interval are multiples of a quarter of the last binary place, and a decimal is a whole
number times a power of ten.

## Main definitions

* `Interval`: The value and the ends of the interval, over a common denominator.
* `Interval.onGrid?`: The decimal nearest to the value, among the multiples of a power of ten.
* `shortest`: The digits and the power of ten of the shortest decimal.
* `plain`: The positional notation of a number of this form.
* `writeDouble`: A double in positional notation, never with an exponent.
-/

namespace StoragePolicy

namespace Number

-- Powers of natural numbers are those of the core library, whatever else is imported later.
attribute [local instance (high)] instPowNat

/-- A value between the ends of an interval, all three over the denominator `unit`; `closed` says
    that the ends belong to the interval. -/
structure Interval where
  low : Nat
  value : Nat
  high : Nat
  unit : Nat
  closed : Bool

/-- The interval of the reals that round to `mantissa * 2 ^ exponent`. The lower neighbour of a
    power of two is only half as far away, except among the smallest numbers. An end rounds to
    the neighbour with the even mantissa. -/
def Interval.around (mantissa : Nat) (exponent : Int) : Interval :=
  let below := if mantissa = 2 ^ (52 : Nat) && -1074 < exponent then 1 else 2
  let scale : Nat := 2 ^ (exponent - 2).toNat
  { low := (4 * mantissa - below) * scale
    value := 4 * mantissa * scale
    high := (4 * mantissa + 2) * scale
    unit := 2 ^ (2 - exponent).toNat
    closed := mantissa % 2 = 0 }

/-- Whether `n * 10 ^ place` lies in the interval. -/
def Interval.holds (i : Interval) (n : Nat) (place : Int) : Bool :=
  let point := n * 10 ^ place.toNat * i.unit
  let scale := 10 ^ (-place).toNat
  if i.closed then i.low * scale ≤ point && point ≤ i.high * scale
  else i.low * scale < point && point < i.high * scale

/-- The whole part of the value over `10 ^ place`, and whether the next multiple is at least as
    near as this one. -/
def Interval.locate (i : Interval) (place : Int) : Nat × Bool :=
  let dividend := i.value * 10 ^ (-place).toNat
  let divisor := i.unit * 10 ^ place.toNat
  (dividend / divisor, divisor ≤ 2 * (dividend % divisor))

/-- The multiple of `10 ^ place` that reads back as the value and is nearest to it, if one of the
    two neighbours of the value on this grid reads back; of two equally near the larger. -/
def Interval.onGrid? (i : Interval) (place : Int) : Option Nat :=
  let (n, upper) := i.locate place
  let (near, far) := if upper then (n + 1, n) else (n, n + 1)
  if i.holds near place then some near
  else if i.holds far place then some far
  else none

/-- The place of the leading digit of the value, as a power of ten. -/
def Interval.leadingPlace (i : Interval) : Int :=
  if i.unit ≤ i.value then ((Nat.toDigits 10 (i.value / i.unit)).length : Int) - 1
  else
    let t := (Nat.toDigits 10 (i.unit / i.value)).length - 1
    if i.unit ≤ i.value * 10 ^ t then -(t : Int) else -((t : Int) + 1)

/-- Moves trailing zeros of a positive number into the power of ten. -/
def dropZeros : Nat → Nat → Int → Nat × Int
  | 0, n, place => (n, place)
  | fuel + 1, n, place => if n % 10 = 0 then dropZeros fuel (n / 10) (place + 1) else (n, place)

/-- The digits and the power of ten of the shortest decimal of `mantissa * 2 ^ exponent`, which
    must not be zero. Seventeen digits always suffice. -/
def shortest (mantissa : Nat) (exponent : Int) : Nat × Int :=
  let i := Interval.around mantissa exponent
  let top := i.leadingPlace
  let found := (List.range 17).findSome? fun (count : Nat) =>
    let place := top - count
    (i.onGrid? place).map fun n => (n, place)
  match found with
  | some (n, place) => dropZeros 20 n place
  | none => (i.locate (top - 16)).1 |> fun n => (n, top - 16)

/-- The positional notation of `n * 10 ^ place`: zeros are added up to the units place, and a
    point stands only before a fraction. -/
def plain (n : Nat) (place : Int) : List Char :=
  let digits := Nat.toDigits 10 n
  if 0 ≤ place then digits ++ List.replicate place.toNat '0'
  else
    let places := (-place).toNat
    if places < digits.length then
      digits.take (digits.length - places) ++ '.' :: digits.drop (digits.length - places)
    else '0' :: '.' :: (List.replicate (places - digits.length) '0' ++ digits)

/-- Writes a minus sign in front of a negative number. -/
def withSign (negative : Bool) (text : List Char) : List Char :=
  if negative then '-' :: text else text

/-- A double in positional notation with the fewest digits that read back as the same double.
    The sign of zero is kept, and of what is not a number it is not written. -/
def writeDouble (x : Float) : String :=
  String.ofList <| match exact x with
    | .notANumber => "NaN".toList
    | .infinite negative => withSign negative "inf".toList
    | .finite negative 0 _ => withSign negative ['0']
    | .finite negative m e =>
      let (n, place) := shortest m e
      withSign negative (plain n place)

end Number

end StoragePolicy
