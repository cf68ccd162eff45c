import StoragePolicy.Time.Calendar
import StoragePolicy.Number.Natural
import StoragePolicy.Text.Blank
import StoragePolicy.Text.Case

/-!
# Instants

An instant is a number of seconds since the beginning of 1970 and a fraction in nanoseconds, which
reaches a whole second more during a leap second. It is written in the form of RFC 3339, in UTC.

## Main definitions

* `Instant`: The instant.
* `Instant.text`: Its written form.
* `Instant.read?`: Reads the written form, with any offset from UTC.
-/

namespace StoragePolicy

namespace Time

-- Powers of natural numbers are those of the core library, whatever else is imported later.
attribute [local instance (high)] instPowNat

/-- An instant: seconds since 1970 and nanoseconds. In a leap second the nanoseconds go on to just
    below two thousand million. -/
structure Instant where
  seconds : Int
  nanos : Nat
  deriving Repr, DecidableEq

/-- The last second that can be held, at the end of the year 262142. -/
def lastSecond : Int := 8210266876799

/-- The first second that can be held, at the beginning of the year -262143. -/
def firstSecond : Int := -8334601228800

/-- A number with leading zeros, up to the given width. -/
def padded (width n : Nat) : List Char :=
  let digits := Nat.toDigits 10 n
  List.replicate (width - digits.length) '0' ++ digits

namespace Instant

/-- A year has four digits, or a sign and at least four digits outside the range of those. -/
def yearText (year : Int) : List Char :=
  if 0 ≤ year && year ≤ 9999 then padded 4 year.natAbs
  else (if year < 0 then '-' else '+') :: padded 4 year.natAbs

/-- A fraction of a second, with three, six or nine digits, as few as it needs. -/
def fractionText (nanos : Nat) : List Char :=
  if nanos = 0 then []
  else if nanos % 1000000 = 0 then '.' :: padded 3 (nanos / 1000000)
  else if nanos % 1000 = 0 then '.' :: padded 6 (nanos / 1000)
  else '.' :: padded 9 nanos

/-- The written form of an instant, in UTC. A leap second is written as second 60. -/
def text (i : Instant) : String :=
  let date := Date.ofDays (i.seconds / 86400)
  let time := (i.seconds % 86400).toNat
  let leap := if 1000000000 ≤ i.nanos then 1 else 0
  String.ofList <|
    yearText date.year ++ '-' :: padded 2 date.month ++ '-' :: padded 2 date.day ++
    'T' :: padded 2 (time / 3600) ++ ':' :: padded 2 (time / 60 % 60) ++
    ':' :: padded 2 (time % 60 + leap) ++ fractionText (i.nanos % 1000000000) ++ ['Z']

/-- Takes one or more digits, at most as many as given, after blanks; gives their value. -/
def takeNumber (most : Nat) (text : List Char) : Option (Nat × List Char) :=
  let text := Text.trimStart text
  let digits := (text.takeWhile Char.isDigit).take most
  if digits.isEmpty then none
  else some (Number.digitsValue digits, text.drop digits.length)

/-- Takes a character, after blanks. -/
def takeMark (mark : Char) (text : List Char) : Option (List Char) :=
  match Text.trimStart text with
  | c :: rest => if c = mark then some rest else none
  | [] => none

/-- Takes a year: four digits at most, or any number of digits after a sign. -/
def takeYear (text : List Char) : Option (Int × List Char) :=
  match Text.trimStart text with
  | '-' :: rest =>
    if (rest.head?.map Char.isDigit).getD false then
      (takeNumber rest.length rest).map fun r => (-(r.1 : Int), r.2)
    else none
  | '+' :: rest =>
    if (rest.head?.map Char.isDigit).getD false then
      (takeNumber rest.length rest).map fun r => ((r.1 : Int), r.2)
    else none
  | other => (takeNumber 4 other).map fun r => ((r.1 : Int), r.2)

/-- Takes a fraction of a second, if there is one; gives nanoseconds. Digits beyond the ninth are
    dropped. -/
def takeFraction (text : List Char) : Option (Nat × List Char) :=
  match text with
  | '.' :: rest =>
    let digits := rest.takeWhile Char.isDigit
    if digits.isEmpty then none
    else
      let kept := digits.take 9
      some (Number.digitsValue kept * 10 ^ (9 - kept.length), rest.dropWhile Char.isDigit)
  | other => some (0, other)

/-- Two digits and their value. -/
def takePair (text : List Char) : Option (Nat × List Char) :=
  match text with
  | a :: b :: rest =>
    if a.isDigit && b.isDigit then some (Number.digitsValue [a, b], rest) else none
  | _ => none

/-- Takes an offset from UTC, in seconds: `Z`, `UTC`, or a sign, two digits for the hours, colons
    or blanks at will, and two digits for the minutes. -/
def takeOffset (text : List Char) : Option (Int × List Char) :=
  let text := Text.trimStart text
  if Text.isKeyword "UTC" (text.take 3) then some (0, text.drop 3)
  else
    match text with
    | c :: rest =>
      if c = 'Z' || c = 'z' then some (0, rest)
      -- The third sign is the minus sign of Unicode.
      else if c = '+' || c = '-' || c = '\u2212' then do
        let (hours, rest) ← takePair rest
        let (minutes, rest) ← takePair (rest.dropWhile fun c => c = ':' || Text.isBlank c)
        if 60 ≤ minutes then none
        else
          let offset : Int := hours * 3600 + minutes * 60
          return (if c = '+' then offset else -offset, rest)
      else none
    | [] => none

/-- Reads an instant: a date, `T` or a blank, a time with a fraction at will, and an offset from
    UTC. Blanks are allowed around the numbers, and leading zeros may be missing. -/
def read? (text : List Char) : Option Instant := do
  let (year, rest) ← takeYear text
  let (month, rest) ← takeNumber 2 (← takeMark '-' rest)
  let (day, rest) ← takeNumber 2 (← takeMark '-' rest)
  let rest ← match rest with
    | c :: rest => if c = 'T' || c = 't' || c = ' ' then some rest else none
    | [] => none
  let (hour, rest) ← takeNumber 2 rest
  let (minute, rest) ← takeNumber 2 (← takeMark ':' rest)
  let (second, rest) ← takeNumber 2 (← takeMark ':' rest)
  let (nanos, rest) ← takeFraction rest
  let (offset, rest) ← takeOffset rest
  let date : Date := { year, month, day }
  if !Text.allBlank rest || !date.isValid || 24 ≤ hour || 60 ≤ minute || 61 ≤ second ||
      86400 ≤ offset || offset ≤ -86400 then none
  else
    let leap := second = 60
    let time : Int := hour * 3600 + minute * 60 + (if leap then 59 else second)
    let seconds := date.toDays * 86400 + time - offset
    if seconds < firstSecond || lastSecond < seconds then none
    else return { seconds, nanos := if leap then nanos + 1000000000 else nanos }

end Instant

end Time

end StoragePolicy
