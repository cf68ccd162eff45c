import StoragePolicy.Number.Natural

/-!
# The command line: its words

The words of the command line are read from left to right. The option `--engine` may stand
anywhere; a word that begins with a dash is an option, unless a word `--` has come before.

## Main definitions

* `Command`: What can be asked for.
* `Command.UsageFault`: Why words are no command.
* `Command.parse`: Reads the words.
-/

namespace StoragePolicy

/-- What can be asked for on the command line. -/
inductive Command where
  /-- Deploys the rules in a file, or those on standard input if the file is `-`. -/
  | deploy (source : String)
  | listStatic
  | listDynamic
  | deleteStatic (key : String)
  | deleteDynamic (id : Nat)
  | pushMetric (line : String)
  | health
  deriving Repr, DecidableEq

namespace Command

/-- Why words are no command. -/
inductive UsageFault where
  | missingSubcommand
  | invalidSubcommand
  | missingArgument
  | unknownArgument
  /-- An argument that has to be an id is none. -/
  | invalidArgument
  /-- An option without its value. -/
  | missingValue
  | repeatedOption
  /-- The words ask for help. -/
  | help
  deriving Repr, DecidableEq

/-- A command, and the address of the engine if it is given. -/
structure Invocation where
  command : Command
  engine : Option String := none
  deriving Repr, DecidableEq

/-- The commands without their argument. -/
inductive Verb where
  | deploy
  | listStatic
  | listDynamic
  | deleteStatic
  | deleteDynamic
  | pushMetric
  | health
  deriving Repr, DecidableEq

/-- Whether a command takes an argument. -/
def Verb.takesArgument : Verb → Bool
  | .deploy | .deleteStatic | .deleteDynamic | .pushMetric => true
  | .listStatic | .listDynamic | .health => false

/-- How much of the name of a command has been read. -/
inductive Level where
  | root
  | list
  | delete
  | verb (v : Verb)
  deriving Repr, DecidableEq

/-- What a word means that goes on with the name of a command. -/
def Level.next? (level : Level) (word : String) : Option Level :=
  match level with
  | .root =>
    [("deploy", Level.verb .deploy), ("list", .list), ("delete", .delete),
     ("push-metric", .verb .pushMetric), ("health", .verb .health)].lookup word
  | .list => [("static", Level.verb .listStatic), ("dynamic", .verb .listDynamic)].lookup word
  | .delete => [("static", Level.verb .deleteStatic), ("dynamic", .verb .deleteDynamic)].lookup word
  | .verb _ => none

/-- What has been read of the words. -/
structure Progress where
  level : Level := .root
  argument : Option String := none
  engine : Option String := none
  /-- Whether no further word is an option. -/
  plain : Bool := false
  deriving Repr, DecidableEq

namespace Progress

/-- Reads a word that is no option: a part of the name of the command, or its argument. -/
def readPlain (p : Progress) (word : String) : Except UsageFault Progress :=
  match p.level with
  | .verb v =>
    if v.takesArgument && p.argument.isNone then .ok { p with argument := some word }
    else .error .unknownArgument
  | level =>
    match level.next? word with
    | some next => if p.plain then .error .unknownArgument else .ok { p with level := next }
    | none => .error (if word = "help" && !p.plain then .help else .invalidSubcommand)

/-- Takes in the address of the engine, which may be given once. -/
def setEngine (p : Progress) (address : String) : Except UsageFault Progress :=
  if p.engine.isSome then .error .repeatedOption else .ok { p with engine := some address }

/-- Whether a word looks like an option. -/
def isOption (word : String) : Bool :=
  match word.toList with
  | '-' :: _ :: _ => true
  | _ => false

/-- The command that the words read so far ask for. -/
def finish (p : Progress) : Except UsageFault Invocation :=
  match p.level, p.argument with
  | .verb .deploy, some source => .ok { command := .deploy source, engine := p.engine }
  | .verb .deleteStatic, some key => .ok { command := .deleteStatic key, engine := p.engine }
  | .verb .deleteDynamic, some id =>
    match Number.readNatural id.toList with
    | some id => .ok { command := .deleteDynamic id, engine := p.engine }
    | none => .error .invalidArgument
  | .verb .pushMetric, some line => .ok { command := .pushMetric line, engine := p.engine }
  | .verb .listStatic, _ => .ok { command := .listStatic, engine := p.engine }
  | .verb .listDynamic, _ => .ok { command := .listDynamic, engine := p.engine }
  | .verb .health, _ => .ok { command := .health, engine := p.engine }
  | .verb _, none => .error .missingArgument
  | _, _ => .error .missingSubcommand

/-- Reads words one after the other. -/
def readAll (p : Progress) : List String → Except UsageFault Progress
  | [] => .ok p
  | word :: rest =>
    if p.plain || !isOption word then
      match p.readPlain word with
      | .ok p => readAll p rest
      | .error fault => .error fault
    -- Behind two dashes no word is an option.
    else if word = "--" then readAll { p with plain := true } rest
    else if word = "--engine" then
      match rest with
      | value :: rest =>
        if isOption value then .error .missingValue
        else
          match p.setEngine value with
          | .ok p => readAll p rest
          | .error fault => .error fault
      | [] => .error .missingValue
    else if "--engine=".toList.isPrefixOf word.toList then
      match p.setEngine (String.ofList (word.toList.drop "--engine=".length)) with
      | .ok p => readAll p rest
      | .error fault => .error fault
    else .error (if word = "--help" || word = "-h" then .help else .unknownArgument)

end Progress

/-- Reads the words of the command line. -/
def parse (words : List String) : Except UsageFault Invocation := do
  let p ← Progress.readAll {} words
  p.finish

end Command

end StoragePolicy
