import StoragePolicy.Engine.Basic

/-!
# Configuration

The configuration is read from named variables, whose names share a stem. A variable that is
missing or blank leaves its default. Words are read in any case.

## Main definitions

* `Config`: The configuration.
* `ConfigError`: Why variables give none.
* `Config.ofLookup`: Reads the variables.
* `Config.settings`: The settings of the engine in it.
-/

namespace StoragePolicy

/-- What kind of deployment this is. -/
inductive Environment where
  | development
  | staging
  | production
  deriving Repr, DecidableEq

namespace Environment

/-- The name of an environment. -/
def name : Environment → String
  | .development => "development"
  | .staging => "staging"
  | .production => "production"

/-- Reads an environment; every unknown word means development. -/
def ofWord (word : String) : Environment :=
  if word = "production" || word = "prod" then .production
  else if word = "staging" || word = "stage" then .staging
  else .development

end Environment

/-- The layout of log lines. -/
inductive LogFormat where
  | full
  | compact
  deriving Repr, DecidableEq

namespace LogFormat

/-- The name of a layout. -/
def name : LogFormat → String
  | .full => "full"
  | .compact => "compact"

/-- Reads a layout. -/
def ofWord? (word : String) : Option LogFormat :=
  if word = "full" then some .full else if word = "compact" then some .compact else none

end LogFormat

namespace Engine.Retirement

/-- The name of what becomes of retired records. -/
def name : Retirement → String
  | .markInactive => "mark_inactive"
  | .delete => "delete"

/-- Reads what becomes of retired records. -/
def ofWord? (word : String) : Option Retirement :=
  if word = "mark_inactive" || word = "inactive" then some .markInactive
  else if word = "delete" then some .delete
  else none

end Engine.Retirement

/-- The configuration of the engine and its tools. -/
structure Config where
  databaseUrl : Option String := none
  environment : Environment := .development
  nodeName : String := "crystal-node"
  httpBind : String := "0.0.0.0:9000"
  metricsBind : Option String := none
  filterApiUrl : Option String := none
  authToken : Option String := none
  retirement : Engine.Retirement := .markInactive
  aliveAfterFire : Bool := true
  logLevel : String := "info"
  logFormat : LogFormat := .full
  deriving Repr, DecidableEq

/-- Why variables give no configuration: one has a value that is none of its words. -/
inductive ConfigError where
  | invalidVariable (key value : String)
  deriving Repr, DecidableEq

/-- The wording of an error. -/
def ConfigError.message : ConfigError → String
  | .invalidVariable key value =>
    "invalid value for environment variable " ++ key ++ ": " ++ value

namespace Config

/-- Reads a switch. -/
def readSwitch? (word : String) : Option Bool :=
  if ["1", "true", "yes", "on"].contains word then some true
  else if ["0", "false", "no", "off"].contains word then some false
  else none

/-- A value in lower case. -/
def asWord (value : String) : String := String.ofList (Text.lower value.toList)

/-- The value of a variable, if it is there and not blank. -/
def filled (lookup : String → Option String) (key : String) : Option String :=
  (lookup key).filter fun value => !Text.allBlank value.toList

/-- The value of a variable that is one of some words, or its default. -/
def choice {α : Type} (lookup : String → Option String) (key : String) (read? : String → Option α)
    (default : α) : Except ConfigError α :=
  match filled lookup key with
  | none => .ok default
  | some value =>
    match read? (asWord value) with
    | some a => .ok a
    | none => .error (.invalidVariable key value)

/-- Reads the configuration from the variables whose names begin with `stem`. The URL of the
    database is also looked for under its name alone. -/
def ofLookup (stem : String) (lookup : String → Option String) : Except ConfigError Config := do
  let value := fun name => filled lookup (stem ++ name)
  let retirement ← choice lookup (stem ++ "TRANSIENT_RETIREMENT") Engine.Retirement.ofWord?
    .markInactive
  let aliveAfterFire ← choice lookup (stem ++ "PERSISTENT_ALIVE_AFTER_FIRE") readSwitch? true
  let logFormat ← choice lookup (stem ++ "LOG_FORMAT") LogFormat.ofWord? .full
  return {
    databaseUrl := (value "DATABASE_URL").or (filled lookup "DATABASE_URL")
    environment := (value "ENV").elim .development fun v => Environment.ofWord (asWord v)
    nodeName := (value "NODE_NAME").getD "crystal-node"
    httpBind := (value "HTTP_BIND").getD "0.0.0.0:9000"
    metricsBind := value "METRICS_BIND"
    filterApiUrl := value "FILTER_API_URL"
    authToken := value "AUTH_TOKEN"
    retirement
    aliveAfterFire
    logLevel := (value "LOG_LEVEL").getD "info"
    logFormat }

/-- Whether this is a production deployment. -/
def isProduction (c : Config) : Bool := c.environment = .production

/-- The settings of the engine. -/
def settings (c : Config) : Engine.Settings :=
  { nodeName := c.nodeName, retirement := c.retirement, aliveAfterFire := c.aliveAfterFire }

end Config

end StoragePolicy
