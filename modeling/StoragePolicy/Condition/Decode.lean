import StoragePolicy.Condition.Basic
import StoragePolicy.Json.Decode

/-!
# Conditions as JSON

A condition is an object with a member `type` that says which kind it is. It may also be given as
an array, with the kind first and the other parts in order.

## Main definitions

* `Condition.ofJson?`: Decodes a condition.
* `Condition.decode`: The decoder of conditions.
-/

namespace StoragePolicy

namespace Condition

/-- Decodes the name of a comparison, which may also be the only member of an object. -/
def comparisonOfJson? : Json → Option Comparison
  | .string s => Comparison.ofName? s
  | .object [(s, .null)] => Comparison.ofName? s
  | .object [(s, .object [])] => Comparison.ofName? s
  | _ => none

/-- Decodes a comparison from its parts. -/
def compareOfParts? (metric op threshold : Option Json) : Option Condition := do
  match ← metric, ← threshold with
  | .string m, .number n => return .compare m (← comparisonOfJson? (← op)) n.toDouble
  | _, _ => none

mutual

/-- Decodes a condition. -/
def ofJson? : Json → Option Condition
  | .object members =>
    match Json.find? "type" members with
    | some (.string kind) =>
      if kind = "compare" then
        compareOfParts? (Json.find? "metric" members) (Json.find? "op" members)
          (Json.find? "value" members)
      else if kind = "all" then (ofMembers? members).map Condition.all
      else if kind = "any" then (ofMembers? members).map Condition.any
      else none
    | _ => none
  -- The short form gives the parts in their order, without their names.
  | .array (.string kind :: parts) =>
    if kind = "compare" then
      match parts with
      | [metric, op, threshold] => compareOfParts? (some metric) (some op) (some threshold)
      | _ => none
    else if kind = "all" then (ofOnly? parts).map Condition.all
    else if kind = "any" then (ofOnly? parts).map Condition.any
    else none
  | _ => none

/-- Decodes the conditions an object of kind `all` or `any` joins. -/
def ofMembers? : List (String × Json) → Option (List Condition)
  | [] => none
  | (name, value) :: rest =>
    if name = "conditions" then
      match value with
      | .array items => ofJsons? items
      | _ => none
    else ofMembers? rest

/-- Decodes the conditions that an array of kind `all` or `any` joins: its only part. -/
def ofOnly? : List Json → Option (List Condition)
  | [.array items] => ofJsons? items
  | _ => none

/-- Decodes a list of conditions. -/
def ofJsons? : List Json → Option (List Condition)
  | [] => some []
  | item :: rest => do
    let c ← ofJson? item
    let cs ← ofJsons? rest
    return c :: cs

end

/-- The decoder of conditions. The whole value is read before its kind is looked at. -/
def decode : Decoder Condition := fun r => do
  match ofJson? (← Json.decode r) with
  | some c => return c
  | none => .error .dataFault

end Condition

end StoragePolicy
