import StoragePolicy.Text.Pieces
import StoragePolicy.Text.Percent
import StoragePolicy.Json.Basic
import StoragePolicy.Http.Status

/-!
# HTTP requests and responses

## Main definitions

* `Http.Method`: The methods.
* `Http.Request`: A request: its method, the path with its query, the type of its body, and the
  body.
* `Http.Response`: A status and at will a JSON value.
* `Http.Request.segments`, `Http.Request.query`: The parts of the path and of the query.
-/

namespace StoragePolicy

namespace Http

/-- The methods that some path of the interface knows, and the others. -/
inductive Method where
  | get
  | head
  | post
  | put
  | delete
  | other (name : String)
  deriving Repr, DecidableEq

namespace Method

/-- Reads the name of a method. -/
def ofName (name : String) : Method :=
  if name = "GET" then .get
  else if name = "HEAD" then .head
  else if name = "POST" then .post
  else if name = "PUT" then .put
  else if name = "DELETE" then .delete
  else .other name

/-- The name of a method. -/
def name : Method → String
  | .get => "GET"
  | .head => "HEAD"
  | .post => "POST"
  | .put => "PUT"
  | .delete => "DELETE"
  | .other name => name

end Method

/-- A request. -/
structure Request where
  method : Method
  /-- The path, at will with a query. -/
  resource : String
  contentType : Option String := none
  body : String := ""

/-- A response. A response without a JSON value is empty or holds a remark for people. -/
structure Response where
  status : Nat
  body : Option Json := none

/-- A response with a JSON value. -/
def Response.json (status : Nat) (value : Json) : Response := { status, body := some value }

namespace Request

/-- What stands before a mark, and what behind it. -/
def cutAt (mark : Char) (text : List Char) : List Char × List Char :=
  (Text.cutFirst (· = mark) text).getD (text, [])

/-- The path and the query. What follows a number sign is not sent. -/
def parts (r : Request) : List Char × List Char := cutAt '?' (cutAt '#' r.resource.toList).1

/-- The segments of the path, as they are written. -/
def segments (r : Request) : Option (List (List Char)) :=
  match r.parts.1 with
  | '/' :: rest => some (Text.splitWhere (· = '/') rest)
  | _ => none

/-- The fields of the query, in their order. -/
def query (r : Request) : List (String × String) :=
  ((Text.splitWhere (· = '&') r.parts.2).filter fun field => !field.isEmpty).map fun field =>
    let (name, value) := cutAt '=' field
    (Text.decodeForm name, Text.decodeForm value)

end Request

end Http

end StoragePolicy
