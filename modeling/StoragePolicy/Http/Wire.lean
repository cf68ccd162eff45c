import StoragePolicy.Http.Basic
import StoragePolicy.Text.Case

/-!
# HTTP messages

A message is a first line, lines of headers, an empty line and a body. The body of a response is
all that follows, or is cut into chunks, each behind its length.

## Main definitions

* `Http.Message`: A request to be sent to a host.
* `Http.Message.bytes`: Its written form.
* `Http.readResponse?`: The status and the body of a response.
-/

namespace StoragePolicy

namespace Http

/-- A request to be sent to a host. The connection ends with the response. -/
structure Message where
  method : Method
  host : String
  resource : String
  contentType : Option String := none
  body : String := ""

/-- The written form of a request. -/
def Message.bytes (m : Message) : List UInt8 :=
  let body := Text.bytesOf m.body.toList
  let head := [m.method.name ++ " " ++ m.resource ++ " HTTP/1.1", "Host: " ++ m.host,
      "Connection: close", "Content-Length: " ++ Number.writeNatural body.length] ++
    m.contentType.toList.map fun t => "Content-Type: " ++ t
  Text.bytesOf ("\r\n".intercalate (head ++ ["", ""])).toList ++ body

/-- The line at the beginning of some bytes, without its end, and what follows it. -/
def takeLine (bytes : List UInt8) : Option (List Char × List UInt8) :=
  (Text.cutFirst (· = 0x0A) bytes).map fun sides =>
    ((Text.ofBytesLossy sides.1).filter (· != '\r'), sides.2)

/-- The lines up to the first empty one, and what follows it. -/
def takeHead : Nat → List UInt8 → Option (List (List Char) × List UInt8)
  | 0, _ => none
  | fuel + 1, bytes => do
    let (line, rest) ← takeLine bytes
    if line.isEmpty then return ([], rest)
    else
      let (lines, rest) ← takeHead fuel rest
      return (line :: lines, rest)

/-- The value of a hexadecimal number, up to the first character that is no digit. -/
def hexNumber (text : List Char) : Nat :=
  (text.takeWhile fun c => (Text.hexValue? c).isSome).foldl
    (fun n c => 16 * n + (Text.hexValue? c).getD 0) 0

/-- Puts the chunks of a body together. The last chunk is empty. -/
def joinChunks : Nat → List UInt8 → List UInt8
  | 0, _ => []
  | fuel + 1, bytes =>
    match takeLine bytes with
    | none => []
    | some (line, rest) =>
      let size := hexNumber line
      if size = 0 then [] else rest.take size ++ joinChunks fuel ((rest.drop size).drop 2)

/-- Whether a header says that the body is cut into chunks. -/
def isChunked (header : List Char) : Bool :=
  Text.isKeyword "transfer-encoding:chunked" (header.filter (· != ' '))

/-- The status and the body of a response. -/
def readResponse? (bytes : List UInt8) : Option (Nat × String) := do
  let (lines, rest) ← takeHead (bytes.length + 1) bytes
  match lines with
  | first :: headers =>
    let code := ((first.dropWhile (· != ' ')).drop 1).takeWhile Char.isDigit
    let status ← Number.readNatural code
    let body := if headers.any isChunked then joinChunks (rest.length + 1) rest else rest
    return (status, String.ofList (Text.ofBytesLossy body))
  | [] => none

end Http

end StoragePolicy
