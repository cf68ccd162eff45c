import StoragePolicy.Rule.Basic
import StoragePolicy.Text.Pieces

/-!
# Targets

A policy applies to a tenant or to one container of a tenant. The tenant has an id and a display
name. A target is stored as two texts, its id and its name, in which a slash separates the
container.

## Main definitions

* `Target`: A tenant, and at will one of its containers.
* `Target.id`, `Target.name`, `Target.text`: The written forms.
* `Target.ofStored`: Rebuilds a target from its stored id and name.
-/

namespace StoragePolicy

/-- A tenant, or one container of a tenant. -/
structure Target where
  tenantId : String
  tenantName : String
  container : Option String := none
  deriving Repr, DecidableEq, Inhabited

namespace Target

/-- A tenant part and the container behind it. -/
def withContainer (tenant : String) : Option String → String
  | some container => tenant ++ "/" ++ container
  | none => tenant

/-- The key of the target's pipeline: the tenant id, and the container behind a slash. -/
def id (t : Target) : String := withContainer t.tenantId t.container

/-- The readable counterpart of the id. -/
def name (t : Target) : String := withContainer t.tenantName t.container

/-- The readable form of a target: its name and its id. -/
def text (t : Target) : String := t.name ++ ":" ++ t.id

/-- Splits a text at its first slash; without a slash there is no container. -/
def splitSlash (text : String) : String × Option String :=
  match Text.cutFirst (· = '/') text.toList with
  | some (tenant, container) => (String.ofList tenant, some (String.ofList container))
  | none => (text, none)

/-- Rebuilds a target from its stored id and name. The container is taken from the id. -/
def ofStored (targetId targetName : String) : Target :=
  let (tenantId, container) := splitSlash targetId
  { tenantId, tenantName := (splitSlash targetName).1, container }

/-- A target as JSON; without a container there is no such member. -/
def toJson (t : Target) : Json :=
  .object ([("tenant_id", .string t.tenantId), ("tenant_name", .string t.tenantName)] ++
    (match t.container with
      | some container => [("container", .string container)]
      | none => []))

/-- The decoder of targets. -/
def decode : Decoder Target := fun r => do
  let given ← Decoder.fields
    [Decoder.field "tenant_id" Decoder.string, Decoder.field "tenant_name" Decoder.string,
     Decoder.field "container" (Decoder.option Decoder.string)] r
  return { tenantId := ← Decoder.required "tenant_id" Decoder.string given
           tenantName := ← Decoder.required "tenant_name" Decoder.string given
           container := ← Decoder.withDefault "container" none (Decoder.option Decoder.string)
             given }

end Target

end StoragePolicy
