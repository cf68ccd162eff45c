import StoragePolicy.Json.Reading
import StoragePolicy.Dict

/-!
# Decoding JSON

A decoder makes a value of a domain type out of a reading. It looks at the reading from left to
right and stops at the first fault, which is either a place where the text is not JSON or a value
that does not fit. Records are given as objects, in which unknown members are skipped and known
ones may occur only once, or as arrays of their fields in order.

## Main definitions

* `DecodeFault`, `Decoder`: The two faults, and the type of decoders.
* `Decoder.string`, `Decoder.natural`, `Decoder.list`, …: Decoders for the plain kinds of data.
* `Decoder.fields`: The fields of a record.
* `Json.ofReading`, `Json.ofText?`: JSON values of any kind.
* `Decoder.text?`, `Decoder.leading?`: Decode a whole text, or the value it begins with.
-/

namespace StoragePolicy

/-- Why a text does not give a value. -/
inductive DecodeFault where
  /-- The text is not JSON. -/
  | syntaxFault
  /-- The text is JSON up to a value that does not fit. -/
  | dataFault
  deriving Repr, DecidableEq

/-- Makes a value out of a reading. -/
abbrev Decoder (α : Type) := Reading → Except DecodeFault α

namespace Decoder

/-- The fault of a value of the wrong kind. The wrong value itself is still read to its end if it
    is a string or a number, and may be no JSON. -/
def refuse {α : Type} : Decoder α
  | .broken | .string none | .number none => .error .syntaxFault
  | _ => .error .dataFault

/-- A string. -/
def string : Decoder String
  | .string (some s) => .ok s
  | r => refuse r

/-- A natural number that can be held. -/
def natural : Decoder Nat
  | .number (some (.natural n)) => if n ≤ Number.maxWord then .ok n else .error .dataFault
  | r => refuse r

/-- A number of any kind, as a double. -/
def double : Decoder Float
  | .number (some n) => .ok n.toDouble
  | r => refuse r

/-- A truth value. -/
def bool : Decoder Bool
  | .bool b => .ok b
  | r => refuse r

/-- Null, or a value of the given kind. -/
def option {α : Type} (d : Decoder α) : Decoder (Option α)
  | .null => .ok none
  | r => (d r).map some

/-- An array of values of one kind. -/
def list {α : Type} (d : Decoder α) : Decoder (List α)
  | .array items => items.mapM d
  | r => refuse r

/-- One of a set of names. A name may also be given as the only member of an object, with the
    value null. -/
def oneOf {α : Type} (ofName? : String → Option α) : Decoder α
  | .string (some s) =>
    match ofName? s with
    | some a => .ok a
    | none => .error .dataFault
  | .object [(s, value)] =>
    match ofName? s, value with
    | some a, .null => .ok a
    | some _, other => refuse other
    | none, _ => if s.isEmpty then refuse value else .error .dataFault
  | r => refuse r

/-- A dictionary from names to values of one kind; of two members with one name the last counts. -/
def dict {α : Type} (d : Decoder α) : Decoder (Dict String α)
  | .object members =>
    (members.mapM fun m => (d m.2).map fun a => (m.1, a)).map Dict.ofList
  | r => refuse r

mutual

/-- Reads over a value of which nothing is needed. -/
def skip : Reading → Except DecodeFault Unit
  | .broken => .error .syntaxFault
  | .array items => skipItems items
  | .object members => skipMembers members
  | _ => .ok ()

/-- Reads over the items of an array. -/
def skipItems : List Reading → Except DecodeFault Unit
  | [] => .ok ()
  | item :: rest => do
    skip item
    skipItems rest

/-- Reads over the members of an object. -/
def skipMembers : List (String × Reading) → Except DecodeFault Unit
  | [] => .ok ()
  | (_, value) :: rest => do
    skip value
    skipMembers rest

end

/-- A field of a record: its name, and what is accepted as its value. -/
structure Field where
  name : String
  accept : Reading → Except DecodeFault Unit

/-- The field of the given name whose value a decoder reads. -/
def field {α : Type} (name : String) (d : Decoder α) : Field :=
  ⟨name, fun r => (d r).map fun _ => ()⟩

/-- The members of an object that are fields of a record, in order. -/
def knownMembers (known : List Field) :
    List String → List (String × Reading) → Except DecodeFault (List (String × Reading))
  | _, [] => .ok []
  | seen, (name, value) :: rest =>
    match known.find? fun f => f.name = name with
    | none => do
      skip value
      knownMembers known seen rest
    | some f =>
      if seen.contains name then .error .dataFault
      else do
        f.accept value
        let others ← knownMembers known (name :: seen) rest
        return (name, value) :: others

/-- The items of an array that are fields of a record, with their names. -/
def knownItems : List Field → List Reading → Except DecodeFault (List (String × Reading))
  | _, [] => .ok []
  | [], _ :: _ => .error .syntaxFault
  | f :: known, item :: rest => do
    f.accept item
    let others ← knownItems known rest
    return (f.name, item) :: others

/-- The fields of a record that a reading gives, with their names. -/
def fields (known : List Field) : Decoder (List (String × Reading))
  | .object members => knownMembers known [] members
  | .array items => knownItems known items
  | r => refuse r

/-- The value of a field that must be given. -/
def required {α : Type} (name : String) (d : Decoder α) (given : List (String × Reading)) :
    Except DecodeFault α :=
  match given.lookup name with
  | some value => d value
  | none => .error .dataFault

/-- The value of a field, or a default if it is not given. -/
def withDefault {α : Type} (name : String) (default : α) (d : Decoder α)
    (given : List (String × Reading)) : Except DecodeFault α :=
  match given.lookup name with
  | some value => d value
  | none => .ok default

/-- The greatest depth to which arrays and objects may be nested where their content is needed. -/
def maxDepth : Nat := 127

/-- Decodes a whole text. What follows the value is looked at last. -/
def text? {α : Type} (d : Decoder α) (text : List Char) : Except DecodeFault α :=
  let (reading, complete) := Reading.ofText text
  match d reading with
  | .error fault => .error fault
  | .ok a => if complete then .ok a else .error .syntaxFault

/-- Decodes the value at the beginning of a text. What follows it is not looked at. -/
def leading? {α : Type} (d : Decoder α) (text : List Char) : Except DecodeFault α :=
  d (Reading.ofText text).1

end Decoder

namespace Json

mutual

/-- The JSON value of a reading, to the given depth of nesting. Of two members with one name the
    last counts. -/
def ofReading : Nat → Reading → Except DecodeFault Json
  | _, .null => .ok .null
  | _, .bool b => .ok (.bool b)
  | _, .number (some n) => .ok (.number n)
  | _, .string (some s) => .ok (.string s)
  | depth, .array items =>
    if depth = 0 then .error .syntaxFault
    else (ofItems (depth - 1) items).map Json.array
  | depth, .object members =>
    if depth = 0 then .error .syntaxFault
    else (ofMembers (depth - 1) members).map fun ms => .object (mergeMembers [] ms)
  | _, .number none | _, .string none | _, .broken => .error .syntaxFault

/-- The JSON values of a list of readings. -/
def ofItems : Nat → List Reading → Except DecodeFault (List Json)
  | _, [] => .ok []
  | depth, item :: rest => do
    let value ← ofReading depth item
    let values ← ofItems depth rest
    return value :: values

/-- The members of an object as JSON values. -/
def ofMembers : Nat → List (String × Reading) → Except DecodeFault (List (String × Json))
  | _, [] => .ok []
  | depth, (name, item) :: rest => do
    let value ← ofReading depth item
    let values ← ofMembers depth rest
    return (name, value) :: values

end

/-- A JSON value of any kind. -/
def decode : Decoder Json := ofReading Decoder.maxDepth

/-- The members of an object. -/
def decodeMembers : Decoder (List (String × Json)) := fun r =>
  match r with
  | .object _ => do
    match ← decode r with
    | .object members => return members
    | _ => .error .dataFault
  | r => Decoder.refuse r

/-- The JSON value of a text. -/
def ofText? (text : List Char) : Option Json := (Decoder.text? decode text).toOption

mutual

/-- A JSON value as a reading without faults. -/
def toReading : Json → Reading
  | .null => .null
  | .bool b => .bool b
  | .number n => .number (some n)
  | .string s => .string (some s)
  | .array items => .array (toReadings items)
  | .object members => .object (toReadingMembers members)

/-- JSON values as readings. -/
def toReadings : List Json → List Reading
  | [] => []
  | item :: rest => toReading item :: toReadings rest

/-- The members of an object as readings. -/
def toReadingMembers : List (String × Json) → List (String × Reading)
  | [] => []
  | (name, item) :: rest => (name, toReading item) :: toReadingMembers rest

end

/-- Decodes a JSON value, if it fits. -/
def decodeAs? {α : Type} (d : Decoder α) (value : Json) : Option α := (d value.toReading).toOption

end Json

end StoragePolicy
