import StoragePolicy.Json.Decode
import StoragePolicy.Json.Printer

/-!
# Object filters

A policy may be narrowed to objects of a named type and to objects of a certain size.

## Main definitions

* `ObjectSize`: A bound on the size of objects, with its comparison as written.
* `ObjectFilter`: The objects a policy applies to.
-/

namespace StoragePolicy

/-- A bound on the size of objects. -/
structure ObjectSize where
  operand : String
  value : Nat
  deriving Repr, DecidableEq

namespace ObjectSize

/-- The readable form of a bound. -/
def text (size : ObjectSize) : String := size.operand ++ " " ++ Number.writeNatural size.value

/-- A bound as JSON. -/
def toJson (size : ObjectSize) : Json :=
  .object [("operand", .string size.operand), ("value", .natural size.value)]

/-- The decoder of bounds. -/
def decode : Decoder ObjectSize := fun r => do
  let given ← Decoder.fields
    [Decoder.field "operand" Decoder.string, Decoder.field "value" Decoder.natural] r
  return { operand := ← Decoder.required "operand" Decoder.string given
           value := ← Decoder.required "value" Decoder.natural given }

end ObjectSize

/-- The objects a policy applies to: those of a type, those of a size, or both. -/
structure ObjectFilter where
  objectType : Option String := none
  objectSize : Option ObjectSize := none
  deriving Repr, DecidableEq, Inhabited

namespace ObjectFilter

/-- An object filter as JSON. -/
def toJson (filter : ObjectFilter) : Json :=
  .object [("object_type", Json.ofOption Json.string filter.objectType),
    ("object_size", Json.ofOption ObjectSize.toJson filter.objectSize)]

/-- The decoder of object filters. -/
def decode : Decoder ObjectFilter := fun r => do
  let given ← Decoder.fields
    [Decoder.field "object_type" (Decoder.option Decoder.string),
     Decoder.field "object_size" (Decoder.option ObjectSize.decode)] r
  return { objectType :=
             ← Decoder.withDefault "object_type" none (Decoder.option Decoder.string) given
           objectSize :=
             ← Decoder.withDefault "object_size" none (Decoder.option ObjectSize.decode) given }

end ObjectFilter

end StoragePolicy
