import StoragePolicy.Json.Basic
import StoragePolicy.Text.Hex

/-!
# Reading JSON

A text is first read into a `Reading`: a JSON value as far as the text goes, with a mark where it
stops being JSON. What is then made of it depends on what is expected there, and whoever expects
something meets the faults in the order of the text, be they marks or values of the wrong kind.
Two faults are faults only to a reader who needs the value: half a surrogate pair in a string, and
a number beyond the range of doubles.

## Main definitions

* `Reading`: A JSON value as read, faults included.
* `scanString`, `scanNumber`, `scanValue`: Read one value and give the rest of the text.
* `Reading.ofText`: The reading of a whole text.
-/

namespace StoragePolicy

/-- A JSON value as read from a text. -/
inductive Reading where
  | null
  | bool (value : Bool)
  /-- A number; nothing if it is beyond the range of doubles. -/
  | number (value : Option Numeral)
  /-- A string; nothing if it holds half a surrogate pair. -/
  | string (value : Option String)
  | array (items : List Reading)
  | object (members : List (String × Reading))
  /-- The place where the text stops being JSON. -/
  | broken
  deriving Repr, Inhabited

namespace Reading

-- Powers of natural numbers are those of the core library, whatever else is imported later.
attribute [local instance (high)] instPowNat

/-- Skips the four characters JSON takes for blank. -/
def skipBlank (text : List Char) : List Char :=
  text.dropWhile fun c => c = ' ' || c = '\n' || c = '\t' || c = '\r'

/-- The value of four hexadecimal digits. -/
def hexQuad? (a b c d : Char) : Option Nat := do
  let a ← Text.hexValue? a
  let b ← Text.hexValue? b
  let c ← Text.hexValue? c
  let d ← Text.hexValue? d
  return ((a * 16 + b) * 16 + c) * 16 + d

/-- A string while it is read: its characters so far, last first; the first half of a surrogate
    pair that still waits for the second; and whether some half has stayed alone. -/
structure Partial where
  chars : List Char := []
  half : Option Nat := none
  alone : Bool := false

/-- Adds a character; a waiting half stays alone. -/
def Partial.char (p : Partial) (c : Char) : Partial :=
  ⟨c :: p.chars, none, p.alone || p.half.isSome⟩

/-- Adds an escaped code unit, which may complete a surrogate pair or begin one. -/
def Partial.unit (p : Partial) (u : Nat) : Partial :=
  if 0xDC00 ≤ u && u < 0xE000 then
    match p.half with
    | some lead => ⟨Char.ofNat (0x10000 + (lead - 0xD800) * 0x400 + (u - 0xDC00)) :: p.chars,
        none, p.alone⟩
    | none => ⟨p.chars, none, true⟩
  else if 0xD800 ≤ u && u < 0xDC00 then ⟨p.chars, some u, p.alone || p.half.isSome⟩
  else p.char (Char.ofNat u)

/-- The string read, unless some half of a pair stayed alone. -/
def Partial.finish (p : Partial) : Option String :=
  if p.alone || p.half.isSome then none else some (String.ofList p.chars.reverse)

/-- The character a one-letter escape stands for. -/
def unescape? (c : Char) : Option Char :=
  if c = '"' || c = '\\' || c = '/' then some c
  else if c = 'b' then some '\x08'
  else if c = 'f' then some '\x0c'
  else if c = 'n' then some '\n'
  else if c = 'r' then some '\r'
  else if c = 't' then some '\t'
  else none

/-- Reads a string whose opening quote has been read. Control characters and unknown escapes are
    not allowed in it. -/
def scanString (p : Partial) : List Char → Option (Option String × List Char)
  | [] => none
  | '"' :: rest => some (p.finish, rest)
  | '\\' :: 'u' :: a :: b :: c :: d :: rest =>
    match hexQuad? a b c d with
    | some u => scanString (p.unit u) rest
    | none => none
  | '\\' :: c :: rest =>
    match unescape? c with
    | some e => scanString (p.char e) rest
    | none => none
  -- A backslash that is left is the last character.
  | c :: rest => if c.toNat < 0x20 || c = '\\' then none else scanString (p.char c) rest

/-- Takes further digits into a number as long as it stays below 2^64; gives the number, the
    count of the digits taken and the digits left. -/
def takeDigits (n count : Nat) : List Char → Nat × Nat × List Char
  | [] => (n, count, [])
  | c :: rest =>
    let m := 10 * n + Number.digitValue c
    if m ≤ Number.maxWord then takeDigits m (count + 1) rest else (n, count, c :: rest)

/-- Ten to a power of at most 308, as a double. -/
def tenTo (power : Nat) : Float := Float.ofScientific 1 false power

/-- The double for `n * 10 ^ power`, computed with one rounding per operation; nothing if it is
    too large. Powers below -308 are reached in two divisions. -/
def scaled? (n : Nat) (power : Int) : Option Float :=
  let x := Number.Decimal.toDouble ⟨false, n, 0⟩
  if 0 ≤ power then
    if n = 0 then some 0.0
    else if 308 < power then none
    else
      let y := x * tenTo power.toNat
      if y = Number.infinity then none else some y
  else if -308 ≤ power then some (x / tenTo power.natAbs)
  else if -616 ≤ power then some (x / tenTo 308 / tenTo (power + 308).natAbs)
  else some 0.0

/-- The numeral for the parts of a number: sign, whole digits, digits after the point and power
    of ten. Digits that no longer fit below 2^64 count by their place only, or not at all after
    the point. -/
def numeralOf? (negative : Bool) (whole : List Char) (fraction : Option (List Char))
    (power : Option Int) : Option Numeral :=
  let (n, _, left) := takeDigits 0 0 whole
  match fraction, power, left with
  | none, none, [] =>
    if !negative then some (.natural n)
    -- Minus zero is a double, and so is what lies below the least number of 64 bits.
    else if n = 0 || 2 ^ (63 : Nat) < n then
      some (.double (Number.signed true (Number.Decimal.toDouble ⟨false, n, 0⟩)))
    else some (.negative n)
  | _, _, _ =>
    let (m, count, _) := takeDigits n 0 (fraction.getD [])
    let shift : Int := (left.length : Int) - count + power.getD 0
    (scaled? m shift).map fun x => .double (Number.signed negative x)

/-- Reads the exponent of a number, if there is one. A mark without digits is an error. -/
def scanExponent (text : List Char) : Option (Option Int × List Char) :=
  match text with
  | c :: rest =>
    if c = 'e' || c = 'E' then
      let (negative, rest) := Number.takeSign rest
      let digits := rest.takeWhile Char.isDigit
      if digits.isEmpty then none
      else
        let n : Int := Number.digitsValue digits
        some (some (if negative then -n else n), rest.dropWhile Char.isDigit)
    else some (none, text)
  | [] => some (none, text)

/-- Reads the digits after a point, if there is one. A point without digits is an error. -/
def scanFraction (text : List Char) : Option (Option (List Char) × List Char) :=
  match text with
  | '.' :: rest =>
    let digits := rest.takeWhile Char.isDigit
    if digits.isEmpty then none else some (some digits, rest.dropWhile Char.isDigit)
  | _ => some (none, text)

/-- Reads a number: a minus sign at will, digits of which the first is not a superfluous zero, and
    a fraction and an exponent at will. -/
def scanNumber (text : List Char) : Option (Option Numeral × List Char) := do
  let (negative, rest) := match text with
    | '-' :: rest => (true, rest)
    | other => (false, other)
  let whole := rest.takeWhile Char.isDigit
  let rest := rest.dropWhile Char.isDigit
  if whole.isEmpty || (whole.head? = some '0' && 1 < whole.length) then none
  else
    let (fraction, rest) ← scanFraction rest
    let (power, rest) ← scanExponent rest
    return (numeralOf? negative whole fraction power, rest)

/-- Reads a literal word. -/
def scanWord (word : String) (value : Reading) (text : List Char) : Reading × List Char :=
  if word.toList.isPrefixOf text then (value, text.drop word.length) else (.broken, [])

mutual

/-- Reads a value. After a fault nothing more is read, so that the rest is empty. -/
def scanValue : Nat → List Char → Reading × List Char
  | 0, _ => (.broken, [])
  | fuel + 1, text =>
    match skipBlank text with
    | [] => (.broken, [])
    | 'n' :: rest => scanWord "ull" .null rest
    | 't' :: rest => scanWord "rue" (.bool true) rest
    | 'f' :: rest => scanWord "alse" (.bool false) rest
    | '"' :: rest =>
      match scanString {} rest with
      | some (value, rest) => (.string value, rest)
      | none => (.broken, [])
    | '[' :: rest =>
      match skipBlank rest with
      | ']' :: rest => (.array [], rest)
      | _ =>
        let (items, rest) := scanItems fuel rest
        (.array items, rest)
    | '\x7b' :: rest =>
      match skipBlank rest with
      | '\x7d' :: rest => (.object [], rest)
      | _ =>
        let (members, rest) := scanMembers fuel rest
        (.object members, rest)
    | c :: rest =>
      if c = '-' || c.isDigit then
        match scanNumber (c :: rest) with
        | some (value, rest) => (.number value, rest)
        | none => (.broken, [])
      else (.broken, [])

/-- Reads one or more items up to the closing bracket. -/
def scanItems : Nat → List Char → List Reading × List Char
  | 0, _ => ([.broken], [])
  | fuel + 1, text =>
    let (item, rest) := scanValue fuel text
    match skipBlank rest with
    | ']' :: rest => ([item], rest)
    | ',' :: rest =>
      let (items, rest) := scanItems fuel rest
      (item :: items, rest)
    | _ => ([item, .broken], [])

/-- Reads one or more members up to the closing brace. A name that cannot be read is given as a
    broken member without name. -/
def scanMembers : Nat → List Char → List (String × Reading) × List Char
  | 0, _ => ([("", .broken)], [])
  | fuel + 1, text =>
    match skipBlank text with
    | '"' :: rest =>
      match scanString {} rest with
      | some (some name, rest) =>
        match skipBlank rest with
        | ':' :: rest =>
          let (value, rest) := scanValue fuel rest
          match skipBlank rest with
          | '\x7d' :: rest => ([(name, value)], rest)
          | ',' :: rest =>
            let (members, rest) := scanMembers fuel rest
            ((name, value) :: members, rest)
          | _ => ([(name, value), ("", .broken)], [])
        | _ => ([(name, .broken)], [])
      | _ => ([("", .broken)], [])
    | _ => ([("", .broken)], [])

end

/-- The reading of a whole text, and whether nothing but blanks follows the value. Every step of
    the reader takes a character, so that twice the length bounds their nesting. -/
def ofText (text : List Char) : Reading × Bool :=
  let (value, rest) := scanValue (2 * text.length + 2) text
  (value, (skipBlank rest).isEmpty)

end Reading

end StoragePolicy
