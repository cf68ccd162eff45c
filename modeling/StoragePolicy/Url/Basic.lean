import StoragePolicy.Text.Percent
import StoragePolicy.Text.Pieces
import StoragePolicy.Number.Natural

/-!
# URLs

A URL has a scheme, at will an authority (a host with a port number and a user), a path, a query and
a fragment. The path is a list of segments, or a text without structure where neither an authority
nor a slash begins it.

## Main definitions

* `Url`: The parts of a URL.
* `Url.text`: Its written form.
* `Url.escape`: Escapes what may not stand in a part.
* `Url.resolveDots`: Removes the segments `.` and `..`.
-/

namespace StoragePolicy

/-- The host of a URL, with a port number and with the escaped user in front. -/
structure Authority where
  user : String := ""
  host : String
  portNumber : Option Nat := none
  deriving Repr, DecidableEq

/-- The path of a URL. -/
inductive UrlPath where
  | segments (items : List String)
  /-- A path without structure. No other path can be put in its place. -/
  | rootless (text : String)
  deriving Repr, DecidableEq

/-- The written form of a path. -/
def UrlPath.text : UrlPath → String
  | .segments items => String.join (items.map fun s => "/" ++ s)
  | .rootless text => text

/-- A URL. -/
structure Url where
  scheme : String
  authority : Option Authority := none
  path : UrlPath
  query : Option String := none
  fragment : Option String := none
  deriving Repr, DecidableEq

/-- Why a text is no URL. -/
inductive UrlFault where
  | relativeWithoutBase
  | emptyHost
  | invalidHost
  | invalidPort
  /-- The URL in whose place another path is to be put has a path without structure. -/
  | rootlessBase
  deriving Repr, DecidableEq

/-- The wording of a fault. -/
def UrlFault.message : UrlFault → String
  | .relativeWithoutBase => "relative URL without a base"
  | .emptyHost => "empty host"
  | .invalidHost => "invalid international domain name"
  | .invalidPort => "invalid port number"
  | .rootlessBase => "relative URL with a cannot-be-a-base base"

namespace Url

/-- The written form of an authority. -/
def authorityText (a : Authority) : String :=
  (if a.user.isEmpty then "" else a.user ++ "@") ++ a.host ++
    (a.portNumber.elim "" fun portNumber => ":" ++ Number.writeNatural portNumber)

/-- The written form of a URL. -/
def text (u : Url) : String :=
  u.scheme ++ ":" ++ (u.authority.elim "" fun a => "//" ++ authorityText a) ++ u.path.text ++
    (u.query.elim "" fun q => "?" ++ q) ++ (u.fragment.elim "" fun f => "#" ++ f)

/-- Escapes the control characters, the characters beyond ASCII and some others. -/
def escape (others : String) (text : List Char) : String :=
  String.ofList (text.flatMap fun c =>
    if c.toNat < 0x20 || 0x7E < c.toNat || others.toList.contains c then
      (String.utf8EncodeChar c).flatMap Text.escapeByte
    else [c])

/-- What is escaped in the segments of a path. -/
def pathEscapes : String := " \"#<>?\x60\x7b\x7d"

/-- What is escaped in the name of a user. -/
def userEscapes : String := pathEscapes ++ "/:;=@[\\]^|"

/-- What is escaped in a fragment. -/
def fragmentEscapes : String := " \"<>\x60"

/-- The schemes whose URLs always have a host, with their usual port numbers. -/
def hostSchemes : List (String × Option Nat) :=
  [("http", some 80), ("https", some 443), ("ws", some 80), ("wss", some 443), ("ftp", some 21),
   ("file", none)]

/-- Whether the URLs of a scheme always have a host. -/
def isHostScheme (scheme : String) : Bool := hostSchemes.any fun s => s.1 = scheme

/-- What is escaped in a query. -/
def queryEscapes (scheme : String) : String :=
  if isHostScheme scheme then " \"#<>'" else " \"#<>"

/-- Whether a segment stands for the directory itself. -/
def isDot (segment : String) : Bool := [".", "%2e", "%2E"].contains segment

/-- Whether a segment stands for the directory above. -/
def isDoubleDot (segment : String) : Bool :=
  ["..", ".%2e", ".%2E", "%2e.", "%2E.", "%2e%2e", "%2e%2E", "%2E%2e", "%2E%2E"].contains segment

/-- Removes the segments `.` and `..` behind the segments `done`, the last of which stands first. A
    path that ends in one of them names a directory and ends in an empty segment. -/
def resolveDots : List String → List String → List String
  | done, [] => done.reverse
  | done, [segment] =>
    if isDoubleDot segment then ("" :: done.drop 1).reverse
    else if isDot segment then ("" :: done).reverse
    else (segment :: done).reverse
  | done, segment :: rest =>
    if isDoubleDot segment then resolveDots (done.drop 1) rest
    else if isDot segment then resolveDots done rest
    else resolveDots (segment :: done) rest

end Url

end StoragePolicy
