import StoragePolicy.Url.Parser
import StoragePolicy.Error
import StoragePolicy.Catalog
import StoragePolicy.Policy.Static
import StoragePolicy.Target
import StoragePolicy.Http.Basic

/-!
# The filter service

The storage side can be reached over HTTP. A filter is installed by a request to
`filters/{target}/deploy/{filter}` below the address of the service and removed by one to
`filters/{target}/undeploy/{filter}`; the body says all about the filter and the policy. A token
travels with every request.

## Main definitions

* `FilterService`: The address and the token.
* `FilterService.ofText`: Reads the address.
* `FilterService.installRequest`, `FilterService.uninstallRequest`: The requests.
* `FilterService.outcome`: What a status means.
-/

namespace StoragePolicy

/-- A service that installs filters over HTTP. The path of its address ends with a slash. -/
structure FilterService where
  address : Url
  token : Option String := none

/-- A request to the filter service. -/
structure FilterRequest where
  method : Http.Method := .put
  url : Url
  token : Option String
  body : Json

namespace FilterService

/-- The service at an address. -/
def ofText (address : String) (token : Option String) : Except InstallerError FilterService :=
  match Url.parse address with
  | .ok url => .ok { address := url.asDirectory, token }
  | .error fault => .error (.invalidUrl address fault.message)

/-- The place of a request: what to do with a filter of a target. -/
def place (s : FilterService) (target : Target) (verb filterName : String) :
    Except InstallerError Url :=
  let path := "filters/" ++ Text.encodeForm target.id ++ "/" ++ verb ++ "/" ++
    Text.encodeForm filterName
  match s.address.join path with
  | .ok url => .ok url
  | .error fault => .error (.invalidUrl (s.address.text ++ path) fault.message)

/-- The request that installs a filter. -/
def installRequest (s : FilterService) (target : Target) (filter : FilterSpec)
    (entry : StaticEntry) : Except InstallerError FilterRequest := do
  let url ← s.place target "deploy" filter.name
  return { url, token := s.token,
           body := .object [("filter", filter.toJson), ("policy", entry.toJson)] }

/-- The request that removes a filter. -/
def uninstallRequest (s : FilterService) (target : Target) (filter : FilterSpec) :
    Except InstallerError FilterRequest := do
  let url ← s.place target "undeploy" filter.name
  return { url, token := s.token, body := .object [("filter", filter.toJson)] }

/-- What the status of the answer means for a filter. -/
def outcome (filterName : String) (status : Nat) : Except InstallerError Unit :=
  if status = 404 then .error (.filterNotFound filterName)
  else if 200 ≤ status && status < 300 then .ok ()
  else .error (.unexpectedStatus (Http.statusText status))

end FilterService

end StoragePolicy
