import StoragePolicy.Command.Basic
import StoragePolicy.Http.Basic
import StoragePolicy.Url.Parser
import StoragePolicy.Policy.Static
import StoragePolicy.Policy.Record

/-!
# The command line: requests and reports

Every command makes one request to the engine and reports what came back. What can be seen to be
wrong beforehand is refused without a request.

## Main definitions

* `CommandError`: Why a command failed.
* `Command.request`: The request of a command.
* `Command.Request.received`: What the engine receives of it.
* `Command.report`: What a command prints in the end.
-/

namespace StoragePolicy

/-- Why a command failed. -/
inductive CommandError where
  | http (reason : String)
  /-- The engine refused. -/
  | engine (status : Nat) (reason : String)
  /-- The rules could not be read. -/
  | io (reason : String)
  /-- The command was refused without a request. -/
  | validation (reason : String)
  deriving Repr, DecidableEq

/-- The wording of an error. -/
def CommandError.message : CommandError → String
  | .http reason => "HTTP request failed: " ++ reason
  | .engine status reason => "engine returned " ++ Http.statusText status ++ ": " ++ reason
  | .io reason => "could not read rules: " ++ reason
  | .validation reason => reason

namespace Command

/-- A request of the command line to the engine. -/
structure Request where
  method : Http.Method
  url : Url
  contentType : Option String := none
  body : String := ""

/-- The path with the query, as it is sent. -/
def Request.resource (r : Request) : String :=
  r.url.path.text ++ r.url.query.elim "" fun q => "?" ++ q

/-- The request as the engine receives it. -/
def Request.received (r : Request) : Http.Request :=
  { method := r.method, resource := r.resource, contentType := r.contentType, body := r.body }

/-- What came back: the status and the text of the body. -/
structure Reply where
  status : Nat
  body : String

/-- What a command prints, and whether it counts as a success. -/
structure Report where
  lines : List String
  success : Bool := true
  deriving Repr, DecidableEq

/-- The address of the engine when none is given. -/
def defaultEngine : String := "http://127.0.0.1:9000"

/-- Reads the address of the engine. -/
def readEngine (address : String) : Except CommandError Url :=
  (Url.parse address).mapError fun fault => .validation ("invalid engine URL: " ++ fault.message)

/-- A place at the engine. -/
def place (engine : Url) (path : String) : Except CommandError Url :=
  (engine.join path).mapError fun fault => .validation ("invalid path: " ++ fault.message)

/-- The request of a command. For a deployment the rules are given as they were read, or with the
    reason why they could not be read. -/
def request (engine : Url) (rules : Except String String) :
    Command → Except CommandError Request
  | .deploy _ => do
    let rules ← rules.mapError .io
    return { method := .post, url := ← place engine "/policies", contentType := some "text/plain",
             body := rules }
  | .listStatic => return { method := .get, url := ← place engine "/policies/static" }
  | .listDynamic => return { method := .get, url := ← place engine "/policies/dynamic" }
  | .deleteStatic key => do
    if !key.toList.contains ':' then
      throw (.validation ("`" ++ key ++ "` must look like <target>:<policy id>"))
    return { method := .delete, url := ← place engine ("/policies/static/" ++ key) }
  | .deleteDynamic id =>
    return { method := .delete,
             url := ← place engine ("/policies/dynamic/" ++ Number.writeNatural id) }
  | .pushMetric line =>
    return { method := .post, url := ← place engine "/metrics", contentType := some "text/plain",
             body := line }
  | .health => return { method := .get, url := ← place engine "/health" }

/-- The error in a reply. The engine describes it by a wording and a code. -/
def engineError (reply : Reply) : CommandError :=
  let described := do
    let body ← Json.ofText? reply.body.toList
    match body.member? "message", body.member? "code" with
    | some (.string message), some (.string code) => some (message ++ " (" ++ code ++ ")")
    | _, _ => none
  .engine reply.status (described.getD reply.body)

/-- Whether a status means success. -/
def isSuccess (status : Nat) : Bool := 200 ≤ status && status < 300

/-- The decoded body of a reply. -/
def decodeBody {α : Type} (d : Decoder α) (reply : Reply) : Except CommandError α :=
  (Decoder.text? d reply.body.toList).mapError fun _ => .http "error decoding response body"

/-- The decoded body of a reply that means success. -/
def expectBody {α : Type} (d : Decoder α) (reply : Reply) : Except CommandError α :=
  if isSuccess reply.status then decodeBody d reply else .error (engineError reply)

/-- Blanks behind a text, up to the given width. -/
def padEnd (width : Nat) (text : String) : String :=
  text ++ String.ofList (List.replicate (width - text.length) ' ')

/-- Blanks before a text, up to the given width. -/
def padStart (width : Nat) (text : String) : String :=
  String.ofList (List.replicate (width - text.length) ' ') ++ text

/-- The text of a member of an object. -/
def stringMember? (name : String) (value : Json) : Option String :=
  match value.member? name with
  | some (.string text) => some text
  | _ => none

/-- The items of a member of an object. -/
def itemsOf (name : String) (value : Json) : List Json :=
  match value.member? name with
  | some (.array items) => items
  | _ => []

/-- The lines about one failed action of a deployment. -/
def failureLine (failure : Json) : String :=
  "    failed " ++ (stringMember? "target_id" failure).getD "?" ++ ": " ++
    (((failure.member? "error").bind (stringMember? "message")).getD "")

/-- The lines about one rule of a deployment. -/
def ruleReport (line : Json) : List String :=
  let policies := ", ".intercalate ((itemsOf "policies" line).map Json.toText)
  ["  " ++ (stringMember? "rule" line).getD "?"] ++
    (if policies.isEmpty then [] else ["    policies: " ++ policies]) ++
    (match (line.member? "error").bind (Json.member? "message") with
      | some (.string message) => ["    error: " ++ message]
      | some _ => ["    error: "]
      | none => []) ++
    (itemsOf "failures" line).map failureLine

/-- The headline of a deployment. -/
def deployHeadline (status : Nat) : String :=
  let text :=
    if status = 207 then "⚠ Rules partially deployed"
    else if isSuccess status then "✔ Rules deployed"
    else "✖ Deployment rejected"
  text ++ " (" ++ Http.statusText status ++ ")"

/-- The line about a static policy. -/
def staticLine (v : StaticView) : String :=
  "  " ++ padStart 4 (Number.writeNatural v.id) ++ "  " ++
    padEnd 24 (v.targetName ++ " (" ++ v.targetId ++ ")") ++ " " ++
    padEnd 16 v.entry.filterName ++ " order=" ++ Number.writeNatural v.entry.executionOrder ++
    " params=" ++ (if v.entry.params.isEmpty then "-" else v.entry.params)

/-- How a dynamic policy is doing. An alive policy without a monitor is stalled. -/
def stateName (v : RecordView) : String :=
  if !v.record.alive then "retired" else if v.running then "running" else "stalled"

/-- The line about a dynamic policy. -/
def dynamicLine (v : RecordView) : String :=
  "  " ++ padStart 4 (Number.writeNatural v.record.id) ++ "  " ++ padEnd 10 (stateName v) ++ " " ++
    v.record.targetName ++ " WHEN " ++ v.record.conditionText ++ " DO " ++ v.record.filterName ++
    (if v.record.transient then " TRANSIENT" else "")

/-- A list under a headline, or a remark that there is nothing. -/
def listing {α : Type} (headline remark : String) (line : α → String) (items : List α) :
    Report :=
  { lines := if items.isEmpty then [remark] else headline :: items.map line }

/-- What a command prints in the end. -/
def report (engine : String) (reply : Reply) : Command → Except CommandError Report
  | .deploy _ => do
    let body ← decodeBody Json.decode reply
    return { lines := deployHeadline reply.status :: (itemsOf "lines" body).flatMap ruleReport
             success := reply.status = 201 }
  | .listStatic => do
    let views ← expectBody (Decoder.list StaticView.decode) reply
    return listing "Static policies" "No static policies." staticLine views
  | .listDynamic => do
    let views ← expectBody (Decoder.list RecordView.decode) reply
    return listing "Dynamic policies" "No dynamic policies." dynamicLine views
  | .deleteStatic key =>
    if isSuccess reply.status then return { lines := ["✔ Static policy deleted: " ++ key] }
    else .error (engineError reply)
  | .deleteDynamic id =>
    if isSuccess reply.status then
      return { lines := ["✔ Dynamic policy deleted: " ++ Number.writeNatural id] }
    else .error (engineError reply)
  | .pushMetric _ => do
    let body ← expectBody Json.decode reply
    let delivered := match body.member? "delivered" with
      | some (.number (.natural n)) => n
      | _ => 0
    return { lines := ["✔ Metric accepted, delivered to " ++ Number.writeNatural delivered ++
      " monitor(s)"] }
  | .health => do
    let body ← expectBody Json.decode reply
    return { lines := ["engine at " ++ engine ++ ": " ++
      (stringMember? "status" body).getD "unknown"] }

end Command

end StoragePolicy
