import StoragePolicy.Url.Basic
import StoragePolicy.Text.Case

/-!
# Reading URLs

Blanks and control characters around a URL do not count, nor do tabs and line ends inside. A scheme
with a host takes a backslash for a slash. Characters that may not stand where they stand are
escaped, and the host is put in lower case.

## Main definitions

* `Url.parse`: Reads a URL.
* `Url.join`: Puts another path into a URL.
-/

namespace StoragePolicy

namespace Url

/-- A text without what does not count in it. -/
def clean (text : List Char) : List Char :=
  let outer := fun c : Char => c.toNat ≤ 0x20
  (Text.dropEndWhile outer (text.dropWhile outer)).filter fun c =>
    c != '\t' && c != '\n' && c != '\r'

/-- Cuts a text at a mark; what follows it may be missing. -/
def cutAt (mark : Char) (text : List Char) : List Char × Option (List Char) :=
  match Text.cutFirst (· = mark) text with
  | some (before, after) => (before, some after)
  | none => (text, none)

/-- The scheme at the beginning of a text, in lower case, and the rest. -/
def takeScheme (text : List Char) : Option (String × List Char) :=
  match Text.cutFirst (· = ':') text with
  | some (first :: more, rest) =>
    if first.isAlpha && more.all fun c => c.isAlphanum || c = '+' || c = '-' || c = '.' then
      some (String.ofList (Text.lower (first :: more)), rest)
    else none
  | _ => none

/-- Reads a port number. The usual port number of the scheme is left out. -/
def readPort (scheme : String) (text : List Char) : Except UrlFault (Option Nat) :=
  if text.isEmpty then .ok none
  else if !text.all Char.isDigit then .error .invalidPort
  else
    let portNumber := Number.digitsValue text
    if 65535 < portNumber then .error .invalidPort
    else if hostSchemes.lookup scheme = some (some portNumber) then .ok none
    else .ok (some portNumber)

/-- Whether a character may not stand in the host of a scheme with a host. -/
def isForbidden (c : Char) : Bool :=
  c.toNat ≤ 0x20 || 0x7E < c.toNat || "#/:<>?@[\\]^|%".toList.contains c

/-- Reads a host. Between brackets stands a number for a network address. -/
def readHost (scheme : String) (text : List Char) : Except UrlFault String :=
  if isHostScheme scheme then
    match text with
    | [] => if scheme = "file" then .ok "" else .error .emptyHost
    | '[' :: _ => .ok (String.ofList (Text.lower text))
    | _ =>
      match Text.decodePercent? text with
      | none => .error .invalidHost
      | some host =>
        if host.toList.any isForbidden then .error .invalidHost
        else .ok (String.ofList (Text.lower host.toList))
  else .ok (escape "" text)

/-- The host and the port number in a text. A colon between brackets belongs to the host. -/
def splitPort (text : List Char) : List Char × List Char :=
  match text with
  | '[' :: _ =>
    match Text.cutFirst (· = ']') text with
    | some (host, ':' :: portNumber) => (host ++ [']'], portNumber)
    | some (host, rest) => (host ++ [']'], rest)
    | none => (text, [])
  | _ => (Text.cutFirst (· = ':') text).getD (text, [])

/-- Reads the user of an authority; an empty password is left out. -/
def readUser (text : List Char) : String :=
  let (name, password) := cutAt ':' text
  let password := password.getD []
  escape userEscapes name ++ (if password.isEmpty then "" else ":" ++ escape userEscapes password)

/-- Reads an authority: the host first, then the port number. -/
def readAuthority (scheme : String) (text : List Char) : Except UrlFault Authority := do
  let (user, place) := (Text.cutLast (· = '@') text).getD ([], text)
  let (host, portNumber) := splitPort place
  let host ← readHost scheme host
  let portNumber ← readPort scheme portNumber
  return { user := readUser user, host, portNumber }

/-- Whether a character separates the segments of the path of a scheme. -/
def isSlash (scheme : String) (c : Char) : Bool := c = '/' || (c = '\\' && isHostScheme scheme)

/-- The escaped segments of a path that begins behind a slash. -/
def segmentsOf (scheme : String) (text : List Char) : List String :=
  (Text.splitWhere (isSlash scheme) text).map (escape pathEscapes)

/-- The path behind an authority. -/
def readPath (scheme : String) (text : List Char) : UrlPath :=
  match text with
  | [] => .segments (if isHostScheme scheme then [""] else [])
  | c :: rest =>
    .segments (resolveDots [] (segmentsOf scheme (if isSlash scheme c then rest else c :: rest)))

/-- The authority and the path behind a scheme. -/
def readHierarchy (scheme : String) (text : List Char) :
    Except UrlFault (Option Authority × UrlPath) := do
  let slashes := text.takeWhile (isSlash scheme)
  if isHostScheme scheme && scheme != "file" || 2 ≤ slashes.length then
    -- A scheme with hosts takes all slashes in front of one, and the others take two.
    let text :=
      if isHostScheme scheme && scheme != "file" then text.drop slashes.length else text.drop 2
    let place := text.takeWhile fun c => !isSlash scheme c
    let authority ← readAuthority scheme place
    return (some authority, readPath scheme (text.drop place.length))
  else if isHostScheme scheme then return (some { host := "" }, readPath scheme text)
  else if slashes.isEmpty then return (none, .rootless (escape "" text))
  else return (none, readPath scheme text)

/-- Reads a URL. -/
def parse (input : String) : Except UrlFault Url := do
  match takeScheme (clean input.toList) with
  | none => .error .relativeWithoutBase
  | some (scheme, rest) =>
    let (rest, fragment) := cutAt '#' rest
    let (rest, query) := cutAt '?' rest
    let (authority, path) ← readHierarchy scheme rest
    return { scheme, authority, path, query := query.map (escape (queryEscapes scheme)),
             fragment := fragment.map (escape fragmentEscapes) }

/-- Puts another path into a URL: one that begins with a slash in place of its path, another one in
    place of its last segment. -/
def join (base : Url) (reference : String) : Except UrlFault Url :=
  match base.path with
  | .rootless _ => .error .rootlessBase
  | .segments items =>
    let (rest, fragment) := cutAt '#' (clean reference.toList)
    let (rest, query) := cutAt '?' rest
    let path :=
      match rest with
      | [] => items
      | c :: rest' =>
        if isSlash base.scheme c then resolveDots [] (segmentsOf base.scheme rest')
        else resolveDots items.dropLast.reverse (segmentsOf base.scheme rest)
    .ok { base with
          path := .segments path
          -- The query is that of the base only if nothing stands before the fragment.
          query := if rest.isEmpty && query.isNone then base.query
            else query.map (escape (queryEscapes base.scheme))
          fragment := fragment.map (escape fragmentEscapes) }

/-- A URL whose path ends with a slash. -/
def asDirectory (u : Url) : Url :=
  match u.path with
  | .segments items =>
    if items.getLast? = some "" then u else { u with path := .segments (items ++ [""]) }
  | .rootless text =>
    if text.toList.getLast? = some '/' then u
    else { u with path := .rootless (if text.isEmpty then "%2F" else text ++ "/") }

end Url

end StoragePolicy
