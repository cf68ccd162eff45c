import StoragePolicy.Command.Client
import StoragePolicy.Http.Wire
import Std.Async.DNS
import Std.Async.TCP

/-!
# The command line

Reads the words of the command line, sends the request of the command to the engine and prints
what came back. The outcome is a success, a failure of the command, or a fault of usage.
-/

namespace StoragePolicy

namespace Command

/-- The name of the variable that may hold the address of the engine. -/
def engineVariable : String := "CRYSTAL_ENGINE_URL"

/-- What is said about words that are no command. -/
def UsageFault.message : UsageFault → String
  | .missingSubcommand => "a command is missing"
  | .invalidSubcommand => "there is no such command"
  | .missingArgument => "an argument is missing"
  | .unknownArgument => "an argument is not expected"
  | .invalidArgument => "an argument is not an id"
  | .missingValue => "an option has no value"
  | .repeatedOption => "an option is repeated"
  | .help => "commands: deploy <file>, list static|dynamic, delete static <target>:<id>, " ++
      "delete dynamic <id>, push-metric <line>, health"

/-- Receives bytes until the other side ends the connection. -/
partial def receiveAll (socket : Std.Async.TCP.Socket.Client) (received : ByteArray) :
    Std.Async.Async ByteArray := do
  match ← socket.recv? 65536 with
  | some bytes => receiveAll socket (received ++ bytes)
  | none => return received

/-- Sends bytes to a place and receives what it answers. -/
def exchange (host : String) (portNumber : UInt16) (bytes : List UInt8) :
    Std.Async.Async ByteArray := do
  let addresses ← Std.Async.DNS.getAddrInfo host ""
  match addresses[0]? with
  | none => throw (IO.userError ("no address for " ++ host))
  | some address => do
    let place : Std.Net.SocketAddress := match address with
      | .v4 address => .v4 ⟨address, portNumber⟩
      | .v6 address => .v6 ⟨address, portNumber⟩
    let socket ← Std.Async.TCP.Socket.Client.mk
    socket.connect place
    socket.send bytes.toByteArray
    receiveAll socket ByteArray.empty

/-- Makes a request to the engine. -/
def send (r : Request) : IO (Except CommandError Reply) := do
  let fault := fun (reason : String) => Except.error
    (CommandError.http ("error sending request for url (" ++ r.url.text ++ "): " ++ reason))
  match r.url.authority with
  | none => return fault "the URL has no host"
  | some authority => do
    let message : Http.Message :=
      { method := r.method, host := Url.authorityText { authority with user := "" }
        resource := r.resource, contentType := r.contentType, body := r.body }
    try
      let portNumber := (authority.portNumber.getD 80).toUInt16
      let answer ← (exchange authority.host portNumber message.bytes).block
      match Http.readResponse? answer.toList with
      | some (status, body) => return .ok { status, body }
      | none => return fault "the answer is no response"
    catch e => return fault (toString e)

/-- Reads the rules that a command is about. -/
def readRules : Command → IO (Except String String)
  | .deploy source => do
    try
      if source = "-" then return .ok (← (← IO.getStdin).readToEnd)
      else return .ok (← IO.FS.readFile source)
    catch e => return .error (toString e)
  | _ => return .ok ""

/-- Carries out a command. -/
def perform (engine : String) (c : Command) : IO (Except CommandError Report) := do
  match readEngine engine with
  | .error e => return .error e
  | .ok url =>
    match request url (← readRules c) c with
    | .error e => return .error e
    | .ok r =>
      match ← send r with
      | .error e => return .error e
      | .ok reply => return report engine reply c

end Command

end StoragePolicy

open StoragePolicy in
/-- The command line. -/
def main (words : List String) : IO UInt32 := do
  match Command.parse words with
  | .error fault => do
    IO.eprintln ("error: " ++ fault.message)
    return 2
  | .ok invocation => do
    let default := (← IO.getEnv Command.engineVariable).getD Command.defaultEngine
    match ← Command.perform (invocation.engine.getD default) invocation.command with
    | .error e => do
      IO.eprintln ("error: " ++ e.message)
      return 1
    | .ok report => do
      report.lines.forM IO.println
      return if report.success then 0 else 1
