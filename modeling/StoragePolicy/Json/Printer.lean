import StoragePolicy.Json.Basic
import StoragePolicy.Number.Shortest

/-!
# Writing JSON

Values are written without blanks, members in their order. In strings only the quote, the
backslash and the control characters are escaped.

## Main definitions

* `Json.writeString`: The written form of a string.
* `Json.writeNumeral`: The written form of a number.
* `Json.write`: The written form of a value.
-/

namespace StoragePolicy

namespace Json

/-- A hexadecimal digit, in lower case. -/
def hexDigit (n : Nat) : Char := Nat.digitChar n

/-- The written form of one character of a string. -/
def escape (c : Char) : List Char :=
  if c = '"' then ['\\', '"']
  else if c = '\\' then ['\\', '\\']
  else if c = '\n' then ['\\', 'n']
  else if c = '\r' then ['\\', 'r']
  else if c = '\t' then ['\\', 't']
  else if c = '\x08' then ['\\', 'b']
  else if c = '\x0c' then ['\\', 'f']
  else if c.toNat < 0x20 then
    ['\\', 'u', '0', '0', hexDigit (c.toNat / 16), hexDigit (c.toNat % 16)]
  else [c]

/-- The written form of a string, quotes included. -/
def writeString (s : String) : List Char := '"' :: (s.toList.flatMap escape ++ ['"'])

/-- A finite double that is `n * 10 ^ place`. From 1e-5 to below 1e16 it is written in positional
    notation, with a fraction of at least one digit; outside with an exponent. -/
def writeFloating (negative : Bool) (n : Nat) (place : Int) : List Char :=
  let digits := Nat.toDigits 10 n
  let point : Int := digits.length + place
  let text :=
    if 0 ≤ place && point ≤ 16 then Number.plain n place ++ ['.', '0']
    else if -5 < point && point ≤ 16 then Number.plain n place
    else
      let fraction := digits.drop 1
      let mantissa := digits.take 1 ++ (if fraction.isEmpty then [] else '.' :: fraction)
      let power := point - 1
      mantissa ++ 'e' :: Number.withSign (power < 0) (Nat.toDigits 10 power.natAbs)
  Number.withSign negative text

/-- The written form of a number. A double that is not finite has none and is written as null. -/
def writeNumeral : Numeral → List Char
  | .natural n => Nat.toDigits 10 n
  | .negative n => '-' :: Nat.toDigits 10 n
  | .double x =>
    match Number.exact x with
    | .notANumber | .infinite _ => "null".toList
    | .finite negative 0 _ => Number.withSign negative "0.0".toList
    | .finite negative m e =>
      let (n, place) := Number.shortest m e
      writeFloating negative n place

mutual

/-- The written form of a value. -/
def write : Json → List Char
  | .null => "null".toList
  | .bool true => "true".toList
  | .bool false => "false".toList
  | .number value => writeNumeral value
  | .string value => writeString value
  | .array items => '[' :: (writeItems items ++ [']'])
  | .object members => '\x7b' :: (writeMembers members ++ ['\x7d'])

/-- The written items of an array, with commas between them. -/
def writeItems : List Json → List Char
  | [] => []
  | [item] => write item
  | item :: rest => write item ++ ',' :: writeItems rest

/-- The written members of an object, with commas between them. -/
def writeMembers : List (String × Json) → List Char
  | [] => []
  | [(name, value)] => writeString name ++ ':' :: write value
  | (name, value) :: rest => writeString name ++ ':' :: (write value ++ ',' :: writeMembers rest)

end

/-- The written form of a value, as a text. -/
def toText (value : Json) : String := String.ofList (write value)

end Json

end StoragePolicy
