import StoragePolicy.Sample.Basic
import StoragePolicy.Number.Binary64
import StoragePolicy.Json.Decode
import StoragePolicy.Text.Blank

/-!
# Reading metric lines

A metric line is a JSON object or a line of the form

`PUTVAL host*tenant*metric/type … time:value`

in which `PUTVAL` may be written in two words. The metric is cut at its first slash and freed of one
ending `_tenant`. The time is `N` for the time of arrival, or a number of seconds since 1970.

## Main definitions

* `Sample.Fault`, `Sample.ParseError`: Why a line is not a sample.
* `Sample.readPutval`: Reads a line of the second form.
* `Sample.parse`: Reads a line.
-/

namespace StoragePolicy

namespace Sample

/-- Why a line of words is not a sample. -/
inductive Fault where
  | putvalExpected
  | missingWords
  | noTenant
  | noMetric
  | noColon
  | notANumber
  | invalidTime
  deriving Repr, DecidableEq

/-- The wording of a fault. -/
def Fault.message : Fault → String
  | .putvalExpected => "expected PUTVAL"
  | .missingWords => "missing identifier or value"
  | .noTenant => "identifier has no tenant"
  | .noMetric => "identifier has no metric"
  | .noColon => "value must be <timestamp>:<value>"
  | .notANumber => "value is not a number"
  | .invalidTime => "invalid timestamp"

/-- Why a line is not a sample: the line of words with its fault, or a JSON text that is none. -/
inductive ParseError where
  | line (text : String) (fault : Fault)
  | json
  deriving Repr, DecidableEq

/-- The wording of an error. -/
def ParseError.message : ParseError → String
  | .line text fault => fault.message ++ ": `" ++ text ++ "`"
  | .json => "the line is not a JSON sample"

/-- The instant a number of seconds since 1970 stands for. The fraction is taken off the number
    first, and its thousand million parts are rounded to the nearest. -/
def instantOf? (seconds : Float) : Option Time.Instant :=
  match Number.exact seconds with
  | .finite negative m e =>
    if negative && m ≠ 0 then none
    else
      let whole := Number.floorOf m e
      if Time.lastSecond < whole then none
      else
        let fraction := seconds - Float.ofScientific whole false 0
        match Number.exact (fraction * 1e9) with
        -- The parts may be rounded up to a whole second, and then the last of them counts.
        | .finite _ m e => some ⟨whole, min (Number.nearestOf m e) 999999999⟩
        | _ => none
  | _ => none

/-- Reads the time of a sample. -/
def readTime (text : List Char) : Option Timestamp :=
  if text = ['N'] then some .onArrival
  else (Number.readDouble text).bind fun seconds => (instantOf? seconds).map Timestamp.at

/-- The ending that marks a metric as one of a tenant. -/
def tenantEnding : List Char := "_tenant".toList

/-- The name of a metric: what stands before the first slash, without one ending `_tenant`. -/
def metricName (text : List Char) : List Char :=
  let stem := text.takeWhile (· ≠ '/')
  (Text.dropTail? tenantEnding stem).getD stem

/-- The tenant and the metric named in an identifier. -/
def readIdentifier (identifier : List Char) : Except Fault (List Char × List Char) :=
  match Text.splitWhere (· = '*') identifier with
  | _ :: tenant :: metric :: _ =>
    if tenant.isEmpty then .error .noTenant
    else
      let name := metricName metric
      if name.isEmpty then .error .noMetric else .ok (tenant, name)
  | _ => .error .noTenant

/-- The time and the value in a data word; the value is looked at first. -/
def readData (data : List Char) : Except Fault (Timestamp × Float) :=
  match Text.cutFirst (· = ':') data with
  | none => .error .noColon
  | some (time, value) =>
    match Number.readDouble value with
    | none => .error .notANumber
    | some value =>
      match readTime time with
      | none => .error .invalidTime
      | some timestamp => .ok (timestamp, value)

/-- What follows the command in a line of words. -/
def dropCommand : List (List Char) → Option (List (List Char))
  | first :: rest =>
    if first = "PUTVAL".toList then some rest
    else
      match rest with
      | second :: rest =>
        if first = "PUT".toList && second = "VAL".toList then some rest else none
      | [] => none
  | [] => none

/-- Reads a line of words. The words between the identifier and the data word are free. -/
def readPutval (words : List (List Char)) : Except Fault Sample :=
  match dropCommand words with
  | none => .error .putvalExpected
  | some (identifier :: data :: rest) => do
    let (tenant, metric) ← readIdentifier identifier
    let (timestamp, value) ← readData ((data :: rest).getLast (List.cons_ne_nil _ _))
    return { tenantId := String.ofList tenant, metric := String.ofList metric, timestamp, value }
  | some _ => .error .missingWords

/-- The decoder of instants. -/
def decodeInstant : Decoder Time.Instant := fun r => do
  match Time.Instant.read? (← Decoder.string r).toList with
  | some instant => return instant
  | none => .error .dataFault

/-- The decoder of samples. -/
def decode : Decoder Sample := fun r => do
  let given ← Decoder.fields
    [Decoder.field "tenant_id" Decoder.string, Decoder.field "metric_name" Decoder.string,
     Decoder.field "timestamp" (Decoder.option decodeInstant),
     Decoder.field "value" Decoder.double] r
  let time ← Decoder.withDefault "timestamp" none (Decoder.option decodeInstant) given
  return { tenantId := ← Decoder.required "tenant_id" Decoder.string given
           metric := ← Decoder.required "metric_name" Decoder.string given
           timestamp := time.elim .onArrival Timestamp.at
           value := ← Decoder.required "value" Decoder.double given }

/-- Reads a metric line. -/
def parse (line : String) : Except ParseError Sample :=
  let trimmed := Text.trim line.toList
  if trimmed.head? = some '\x7b' then
    (Decoder.text? decode trimmed).mapError fun _ => .json
  else (readPutval (Text.words trimmed)).mapError (.line (String.ofList trimmed))

end Sample

end StoragePolicy
