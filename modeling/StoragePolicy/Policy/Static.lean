import StoragePolicy.ObjectFilter

/-!
# Static policies

A static policy is a filter in the pipeline of a target. Its entry is stored as JSON text.

## Main definitions

* `StaticEntry`: The stored entry.
* `StaticEntry.toJson`, `StaticEntry.decode`: Its JSON form.
* `StaticView`: An entry together with its target, as it is listed.
-/

namespace StoragePolicy

/-- A filter in the pipeline of a target. Pipelines run in ascending execution order. -/
structure StaticEntry where
  policyId : Nat
  filterName : String
  objectType : Option String := none
  objectSize : Option ObjectSize := none
  server : Option String := none
  reverse : Option String := none
  executionOrder : Nat
  params : String := ""
  callable : Bool := false
  deriving Repr, DecidableEq

namespace StaticEntry

/-- The members of an entry as JSON, in the order in which they are stored. -/
def jsonMembers (e : StaticEntry) : List (String × Json) :=
  [("policy_id", .natural e.policyId), ("filter_name", .string e.filterName),
   ("object_type", Json.ofOption Json.string e.objectType),
   ("object_size", Json.ofOption ObjectSize.toJson e.objectSize),
   ("execution_server", Json.ofOption Json.string e.server),
   ("reverse", Json.ofOption Json.string e.reverse),
   ("execution_order", .natural e.executionOrder), ("params", .string e.params),
   ("callable", .bool e.callable)]

/-- An entry as JSON. -/
def toJson (e : StaticEntry) : Json := .object e.jsonMembers

/-- The text under which an entry is stored. -/
def toText (e : StaticEntry) : String := e.toJson.toText

/-- The fields of an entry. -/
def known : List Decoder.Field :=
  [Decoder.field "policy_id" Decoder.natural, Decoder.field "filter_name" Decoder.string,
   Decoder.field "object_type" (Decoder.option Decoder.string),
   Decoder.field "object_size" (Decoder.option ObjectSize.decode),
   Decoder.field "execution_server" (Decoder.option Decoder.string),
   Decoder.field "reverse" (Decoder.option Decoder.string),
   Decoder.field "execution_order" Decoder.natural, Decoder.field "params" Decoder.string,
   Decoder.field "callable" Decoder.bool]

/-- The entry with the given fields. -/
def ofFields (given : List (String × Reading)) : Except DecodeFault StaticEntry := do
  return {
    policyId := ← Decoder.required "policy_id" Decoder.natural given
    filterName := ← Decoder.required "filter_name" Decoder.string given
    objectType := ← Decoder.withDefault "object_type" none (Decoder.option Decoder.string) given
    objectSize :=
      ← Decoder.withDefault "object_size" none (Decoder.option ObjectSize.decode) given
    server := ← Decoder.withDefault "execution_server" none (Decoder.option Decoder.string) given
    reverse := ← Decoder.withDefault "reverse" none (Decoder.option Decoder.string) given
    executionOrder := ← Decoder.required "execution_order" Decoder.natural given
    params := ← Decoder.withDefault "params" "" Decoder.string given
    callable := ← Decoder.withDefault "callable" false Decoder.bool given }

/-- The decoder of entries. -/
def decode : Decoder StaticEntry := fun r => do ofFields (← Decoder.fields known r)

/-- The entry stored under a text, if it is one. -/
def ofText? (text : String) : Option StaticEntry := (Decoder.text? decode text.toList).toOption

/-- The entry with the members of a patch put over its stored members, as far as that is an
    entry again. -/
def ofMembers? (members : List (String × Json)) : Option StaticEntry :=
  Json.decodeAs? decode (.object members)

end StaticEntry

/-- A static policy as it is listed: its entry, with the id and the target under which it is
    stored. -/
structure StaticView where
  id : Nat
  targetId : String
  targetName : String
  entry : StaticEntry
  deriving Repr, DecidableEq

namespace StaticView

/-- A view as JSON. -/
def toJson (v : StaticView) : Json :=
  .object ([("id", .natural v.id), ("target_id", .string v.targetId),
    ("target_name", .string v.targetName)] ++ v.entry.jsonMembers)

/-- The decoder of views, which are given as objects only. -/
def decode : Decoder StaticView := fun r => do
  match r with
  | .object _ =>
    let known := [Decoder.field "id" Decoder.natural, Decoder.field "target_id" Decoder.string,
      Decoder.field "target_name" Decoder.string] ++ StaticEntry.known
    let given ← Decoder.fields known r
    return { id := ← Decoder.required "id" Decoder.natural given
             targetId := ← Decoder.required "target_id" Decoder.string given
             targetName := ← Decoder.required "target_name" Decoder.string given
             entry := ← StaticEntry.ofFields given }
  | r => Decoder.refuse r

end StaticView

end StoragePolicy
