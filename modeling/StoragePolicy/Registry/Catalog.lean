import StoragePolicy.Registry.Static
import StoragePolicy.Catalog

/-!
# The registry of policies: filters, object types and objectives

A filter is a hash of its attributes and its name, an object type is a list of extensions, and an
objective is a text. An object type always has extensions: a list without items does not exist.

## Main definitions

* `Registry.putFilter`, `Registry.getFilter`: Filters.
* `Registry.createObjectType` and its neighbours: Object types.
* `Registry.putSlo` and its neighbours: Objectives.
-/

namespace StoragePolicy

namespace Registry

/-- The key of a filter. -/
def filterKey (name : String) : String := "filter:" ++ name

/-- Stores the attributes of a filter and its name. Attributes stored before are kept. -/
def putFilter (filter : FilterSpec) : Registry Unit :=
  let fields := filter.attributes.entries ++ [("name", filter.name)]
  ask (.apply (fields.map fun f => .setField (filterKey filter.name) f.1 f.2))

/-- The filter of a name, if there is one. -/
def getFilter (name : String) : Registry (Option FilterSpec) := do
  let fields : Dict String String ← ask (.getFields (filterKey name))
  if fields.isEmpty then return none
  else return some { name, attributes := fields.erase "name" }

/-- The filter of a name. -/
def requireFilter (name : String) : Registry FilterSpec := do
  match ← getFilter name with
  | some filter => return filter
  | none => throw (.unknownFilter name)

/-- What the key of every object type begins with. -/
def objectTypeStem : String := "object_type:"

/-- The key of an object type. -/
def objectTypeKey (name : String) : String := objectTypeStem ++ name

/-- The object types under some keys. -/
def objectTypesOf : List String → Registry (List ObjectType)
  | [] => pure []
  | key :: rest => do
    let extensions : List String ← ask (.getItems key)
    let others ← objectTypesOf rest
    return { name := dropStem objectTypeStem key, extensions } :: others

/-- All object types, in the order of their names. -/
def listObjectTypes : Registry (List ObjectType) := do
  let keys : List String ← ask (.keys objectTypeStem)
  objectTypesOf keys

/-- The object type of a name, if there is one. -/
def getObjectType (name : String) : Registry (Option ObjectType) := do
  let extensions : List String ← ask (.getItems (objectTypeKey name))
  if extensions.isEmpty then return none else return some { name, extensions }

/-- An object type must have a name that is not blank, and extensions. -/
def checkObjectType (t : ObjectType) : Except EngineError Unit :=
  if Text.allBlank t.name.toList then .error .objectTypeWithoutName
  else if t.extensions.isEmpty then .error .noExtensions
  else .ok ()

/-- Stores an object type whose name is new. -/
def createObjectType (t : ObjectType) : Registry Unit := do
  ofExcept (checkObjectType t)
  let existed : Bool ← ask (.contains (objectTypeKey t.name))
  if existed then throw (.objectTypeExists t.name)
  change (.append (objectTypeKey t.name) t.extensions)

/-- Gives an object type other extensions. -/
def replaceObjectType (t : ObjectType) : Registry Unit := do
  ofExcept (checkObjectType t)
  let key := objectTypeKey t.name
  let existed : Bool ← ask (.contains key)
  if !existed then throw (.unknownObjectType t.name)
  ask (.apply [.delete key, .append key t.extensions])

/-- Deletes an object type. -/
def deleteObjectType (name : String) : Registry Unit := do
  let existed : Bool ← ask (.contains (objectTypeKey name))
  if !existed then throw (.unknownObjectType name)
  change (.delete (objectTypeKey name))

/-- Takes one extension out of an object type. -/
def removeExtension (name extension : String) : Registry Unit := do
  let extensions : List String ← ask (.getItems (objectTypeKey name))
  if !extensions.contains extension then throw (.unknownExtension extension name)
  change (.removeItem (objectTypeKey name) extension)

/-- The parts of the key of an objective: filter, name and target. The target may hold further
    colons. -/
def sloParts? (key : String) : Option (String × String × String) := do
  let (filter, rest) ← Text.cutFirst (· = ':') (key.toList.drop Slo.keyStem.length)
  let (name, target) ← Text.cutFirst (· = ':') rest
  return (String.ofList filter, String.ofList name, String.ofList target)

/-- The objectives under some keys. A key that is none of an objective is passed over. -/
def slosOf : List String → Registry (List Slo)
  | [] => pure []
  | key :: rest =>
    match sloParts? key with
    | none => slosOf rest
    | some (filter, name, target) => do
      let stored : Option String ← ask (.get key)
      let others ← slosOf rest
      match stored with
      | some value => return { filter, name, target, value } :: others
      | none => return others

/-- All objectives, in the order of their keys. -/
def listSlos : Registry (List Slo) := do
  let keys : List String ← ask (.keys Slo.keyStem)
  slosOf keys

/-- Stores an objective. -/
def putSlo (slo : Slo) : Registry Unit :=
  change (.set (Slo.storeKey slo.filter slo.name slo.target) slo.value)

/-- An objective, if there is one. -/
def getSlo (filter name target : String) : Registry (Option Slo) := do
  let stored : Option String ← ask (.get (Slo.storeKey filter name target))
  return stored.map fun value => { filter, name, target, value }

/-- Deletes an objective. Tells whether there was one. -/
def deleteSlo (filter name target : String) : Registry Bool := do
  let key := Slo.storeKey filter name target
  let existed : Bool ← ask (.contains key)
  change (.delete key)
  return existed

end Registry

end StoragePolicy
