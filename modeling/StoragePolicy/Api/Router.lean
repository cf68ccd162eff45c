import StoragePolicy.Api.Operation
import StoragePolicy.Http.MediaType

/-!
# The HTTP interface: reading requests

A request is read from left to right: its path, then what the path holds, then its body. The first
fault is answered. Only then are the keys in the path taken apart.

## Main definitions

* `Api.Route`: The paths of the interface.
* `Api.Refusal`: Why a request is not understood.
* `Api.read`: The operation that a request asks for.
* `Api.handle`: Answers a request.
-/

namespace StoragePolicy

namespace Api

/-- A path of the interface, with the parts of it that are free, as they are written. -/
inductive Route where
  | health
  | policies
  | staticPolicies
  | staticPolicy (key : String)
  | dynamicPolicies
  | dynamicPolicy (id : String)
  | respawn (id : String)
  | metrics
  | objectTypes
  | objectType (name : String)
  | extension (name item : String)
  | slos
  | slo (path : String)
  deriving Repr, DecidableEq

/-- The path of some segments. A free part is never empty; the last part of some paths takes all
    segments that are left. -/
def Route.ofSegments? : List String → Option Route
  | ["health"] => some .health
  | ["policies"] => some .policies
  | ["policies", "static"] => some .staticPolicies
  | "policies" :: "static" :: rest => tail rest .staticPolicy
  | ["policies", "dynamic"] => some .dynamicPolicies
  | ["policies", "dynamic", id] => if id.isEmpty then none else some (.dynamicPolicy id)
  | ["policies", "dynamic", id, "respawn"] => if id.isEmpty then none else some (.respawn id)
  | ["metrics"] => some .metrics
  | ["object_types"] => some .objectTypes
  | ["object_types", name] => if name.isEmpty then none else some (.objectType name)
  | ["object_types", name, item] =>
    if name.isEmpty || item.isEmpty then none else some (.extension name item)
  | ["slos"] => some .slos
  | "slos" :: rest => tail rest .slo
  | _ => none
where
  /-- The path whose last part takes some segments. -/
  tail (rest : List String) (route : String → Route) : Option Route :=
    let text := "/".intercalate rest
    if text.isEmpty then none else some (route text)

/-- Why a request is not understood. -/
inductive Refusal where
  | unknownPath
  /-- The path is known, but not with this method. -/
  | otherMethod
  /-- The bytes that a part of the path stands for are no text. -/
  | undecodablePath
  | notAnId
  | repeatedTarget
  | bodyTooLarge
  /-- The body is not said to be JSON. -/
  | otherMediaType
  | malformedBody (fault : DecodeFault)
  | engine (error : EngineError)
  deriving Repr, DecidableEq

/-- The response to a request that is not understood. -/
def Refusal.response : Refusal → Http.Response
  | .unknownPath => { status := 404 }
  | .otherMethod => { status := 405 }
  | .undecodablePath | .notAnId | .repeatedTarget => { status := 400 }
  | .bodyTooLarge => { status := 413 }
  | .otherMediaType => { status := 415 }
  | .malformedBody .syntaxFault => { status := 400 }
  | .malformedBody .dataFault => { status := 422 }
  | .engine e => errorResponse e

/-- The text that a part of the path stands for. -/
def decodePart (part : String) : Except Refusal String :=
  match Text.decodePercent? part.toList with
  | some text => .ok text
  | none => .error .undecodablePath

/-- The id that a part of the path stands for. -/
def decodeId (part : String) : Except Refusal Nat := do
  let text ← decodePart part
  match Number.readNatural text.toList with
  | some id => return id
  | none => .error .notAnId

/-- The greatest length of a body, in bytes. -/
def maxBody : Nat := 2097152

/-- The body of a request. -/
def bodyText (r : Http.Request) : Except Refusal String :=
  if maxBody < r.body.utf8ByteSize then .error .bodyTooLarge else .ok r.body

/-- The body of a request as JSON. It must be said to be JSON, and it must begin with a value that
    fits. -/
def bodyJson {α : Type} (d : Decoder α) (r : Http.Request) : Except Refusal α := do
  if (r.contentType.bind fun t => Http.MediaType.ofText? t.toList).any Http.MediaType.isJson then
    let text ← bodyText r
    (Decoder.leading? d text.toList).mapError .malformedBody
  else .error .otherMediaType

/-- The target in the query, if there is one. -/
def queryTarget (r : Http.Request) : Except Refusal (Option String) :=
  match r.query.filter fun field => field.1 = "target" with
  | [] => .ok none
  | [field] => .ok (some field.2)
  | _ => .error .repeatedTarget

/-- The target and the id in the key of a static policy, between which the last colon stands. -/
def entryKey (text : String) : Except Refusal (String × Nat) :=
  let key := text.toList.dropWhile (· = '/')
  let parts := do
    let (target, id) ← Text.cutLast (· = ':') key
    let id ← Number.readNatural id
    if target.isEmpty then none else some (String.ofList target, id)
  match parts with
  | some parts => .ok parts
  | none => .error (.engine (.notAnEntryKey (String.ofList key)))

/-- The filter, the name and the target in the path of an objective. The target may hold further
    slashes. -/
def sloPath (text : String) : Except Refusal (String × String × String) :=
  let parts := do
    let (filter, rest) ← Text.cutFirst (· = '/') (text.toList.dropWhile (· = '/'))
    let (name, target) ← Text.cutFirst (· = '/') rest
    if filter.isEmpty || name.isEmpty || target.isEmpty then none
    else some (String.ofList filter, String.ofList name, String.ofList target)
  match parts with
  | some parts => .ok parts
  | none => .error (.engine (.notASloPath text))

/-- The operation that a method asks for on a path. -/
def readRoute (r : Http.Request) : Route → Http.Method → Except Refusal Operation
  | .health, .get => .ok .health
  | .policies, .post => return .deploy (← bodyText r)
  | .staticPolicies, .get => return .listStatic (← queryTarget r)
  | .staticPolicy key, .get => do
    let (target, id) ← entryKey (← decodePart key)
    return .readEntry target id
  | .staticPolicy key, .put => do
    let key ← decodePart key
    let patch ← bodyJson Json.decodeMembers r
    let (target, id) ← entryKey key
    return .updateEntry target id patch
  | .staticPolicy key, .delete => do
    let (target, id) ← entryKey (← decodePart key)
    return .deleteEntry target id
  | .dynamicPolicies, .get => .ok .listDynamic
  | .dynamicPolicy id, .get => return .readRecord (← decodeId id)
  | .dynamicPolicy id, .delete => return .removePolicy (← decodeId id)
  | .respawn id, .post => return .respawn (← decodeId id)
  | .metrics, .post => return .ingest (← bodyText r)
  | .objectTypes, .get => .ok .listObjectTypes
  | .objectTypes, .post => return .createObjectType (← bodyJson ObjectType.decode r)
  | .objectType name, .get => return .readObjectType (← decodePart name)
  | .objectType name, .put => do
    let name ← decodePart name
    return .replaceObjectType { name, extensions := ← bodyJson (Decoder.list Decoder.string) r }
  | .objectType name, .delete => return .deleteObjectType (← decodePart name)
  | .extension name item, .delete =>
    return .removeExtension (← decodePart name) (← decodePart item)
  | .slos, .get => .ok .listSlos
  | .slos, .post => return .putSlo (← bodyJson Slo.decode r)
  | .slo path, .get => do
    let (filter, name, target) ← sloPath (← decodePart path)
    return .readSlo filter name target
  | .slo path, .delete => do
    let (filter, name, target) ← sloPath (← decodePart path)
    return .deleteSlo filter name target
  | _, _ => .error .otherMethod

/-- The operation that a request asks for. Asking for the head is asking for the whole. -/
def read (r : Http.Request) : Except Refusal Operation :=
  match r.segments.bind fun segments => Route.ofSegments? (segments.map String.ofList) with
  | none => .error .unknownPath
  | some route => readRoute r route (if r.method = .head then .get else r.method)

/-- Answers a request. To the method for the head the status alone is sent. -/
def handle (directory : Directory) (settings : Engine.Settings) (r : Http.Request) :
    Program Engine.interface Http.Response := do
  let response ←
    match read r with
    | .ok operation => perform directory settings operation
    | .error refusal => pure refusal.response
  return if r.method = .head then { response with body := none } else response

end Api

end StoragePolicy
