import StoragePolicy.Json.Decode

/-!
# The catalog

Definitions that policies refer to: filters with their attributes, named groups of object types,
and service level objectives.

## Main definitions

* `FilterSpec`: A filter.
* `ObjectType`: A named group of extensions.
* `Slo`: A service level objective of a filter on a target.
-/

namespace StoragePolicy

/-- A filter that can be installed, with its attributes. -/
structure FilterSpec where
  name : String
  attributes : Dict String String

namespace FilterSpec

/-- A filter as JSON. -/
def toJson (f : FilterSpec) : Json :=
  .object [("name", .string f.name),
    ("attributes", .object (f.attributes.entries.map fun e => (e.1, .string e.2)))]

/-- The decoder of filters. -/
def decode : Decoder FilterSpec := fun r => do
  let given ← Decoder.fields
    [Decoder.field "name" Decoder.string,
     Decoder.field "attributes" (Decoder.dict Decoder.string)] r
  return { name := ← Decoder.required "name" Decoder.string given
           attributes :=
             ← Decoder.withDefault "attributes" Dict.empty (Decoder.dict Decoder.string) given }

end FilterSpec

/-- A named group of extensions. -/
structure ObjectType where
  name : String
  extensions : List String
  deriving Repr, DecidableEq

namespace ObjectType

/-- An object type as JSON. -/
def toJson (t : ObjectType) : Json :=
  .object [("name", .string t.name), ("types_list", .array (t.extensions.map Json.string))]

/-- The decoder of object types. -/
def decode : Decoder ObjectType := fun r => do
  let given ← Decoder.fields
    [Decoder.field "name" Decoder.string,
     Decoder.field "types_list" (Decoder.list Decoder.string)] r
  return { name := ← Decoder.required "name" Decoder.string given
           extensions := ← Decoder.required "types_list" (Decoder.list Decoder.string) given }

end ObjectType

/-- A service level objective: the value that a filter has to reach on a target. -/
structure Slo where
  filter : String
  name : String
  target : String
  value : String
  deriving Repr, DecidableEq

namespace Slo

/-- What the key of every objective begins with. -/
def keyStem : String := "SLO:"

/-- The key under which an objective is stored. -/
def storeKey (filter name target : String) : String :=
  keyStem ++ filter ++ ":" ++ name ++ ":" ++ target

/-- An objective as JSON. -/
def toJson (s : Slo) : Json :=
  .object [("dsl_filter", .string s.filter), ("slo_name", .string s.name),
    ("target", .string s.target), ("value", .string s.value)]

/-- The decoder of objectives. -/
def decode : Decoder Slo := fun r => do
  let given ← Decoder.fields
    [Decoder.field "dsl_filter" Decoder.string, Decoder.field "slo_name" Decoder.string,
     Decoder.field "target" Decoder.string, Decoder.field "value" Decoder.string] r
  return { filter := ← Decoder.required "dsl_filter" Decoder.string given
           name := ← Decoder.required "slo_name" Decoder.string given
           target := ← Decoder.required "target" Decoder.string given
           value := ← Decoder.required "value" Decoder.string given }

end Slo

end StoragePolicy
