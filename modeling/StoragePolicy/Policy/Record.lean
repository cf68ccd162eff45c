import StoragePolicy.Target

/-!
# Dynamic policies

A dynamic policy waits for its condition. Its record is stored as a hash of text fields, from which
the policy can be taken up again after a restart. A record that is not alive is kept for auditing.

## Main definitions

* `PolicyRecord`: The record.
* `PolicyRecord.toFields`, `PolicyRecord.ofFields`: The stored form.
* `RecordError`: Why fields are not a record.
* `PolicyRecord.toJson`, `PolicyRecord.decode`: The JSON form.
-/

namespace StoragePolicy

/-- The stored state of a dynamic policy. `actionIndex` is the place of its action among those of
    the rule. -/
structure PolicyRecord where
  id : Nat
  ruleText : String
  targetName : String
  targetId : String
  filterName : String
  verb : String
  actionIndex : Nat
  conditionText : String
  objectType : Option String := none
  objectSize : Option ObjectSize := none
  transient : Bool
  dispatchLocation : String
  alive : Bool
  deriving Repr, DecidableEq

/-- Why stored fields are not a record. -/
inductive RecordError where
  | missingField (name : String)
  | invalidField (name value : String)
  deriving Repr, DecidableEq

/-- The wording of an error. -/
def RecordError.message : RecordError → String
  | .missingField name => "missing field `" ++ name ++ "` in policy record"
  | .invalidField name value => "invalid value for `" ++ name ++ "`: " ++ value

namespace PolicyRecord

/-- What the key of every record begins with. -/
def keyStem : String := "policy:"

/-- The key under which the record of an id is stored. -/
def storeKey (id : Nat) : String := keyStem ++ Number.writeNatural id

/-- The target of a record. -/
def target (r : PolicyRecord) : Target := Target.ofStored r.targetId r.targetName

/-- The text of a flag. -/
def flagText (flag : Bool) : String := if flag then "true" else "false"

/-- The stored fields of a record. An absent object type or size is stored as the empty text. -/
def toFields (r : PolicyRecord) : List (String × String) :=
  [("id", Number.writeNatural r.id), ("raw_rule_text", r.ruleText),
   ("target_name", r.targetName), ("target_id", r.targetId), ("filter_name", r.filterName),
   ("action", r.verb), ("action_index", Number.writeNatural r.actionIndex),
   ("condition_text", r.conditionText), ("object_type", r.objectType.getD ""),
   ("object_size", match r.objectSize with
     | some size => size.toJson.toText
     | none => ""),
   ("transient", flagText r.transient), ("dispatch_location", r.dispatchLocation),
   ("alive", flagText r.alive)]

/-- A field that must be present. -/
def present (fields : Dict String String) (name : String) : Except RecordError String :=
  match fields.get? name with
  | some value => .ok value
  | none => .error (.missingField name)

/-- A field that holds a number. -/
def numberField (fields : Dict String String) (name : String) : Except RecordError Nat := do
  let value ← present fields name
  match Number.readNatural value.toList with
  | some n => return n
  | none => .error (.invalidField name value)

/-- Reads a flag: `true`, `1`, `false` or `0`, the words in any case. -/
def readFlag (value : String) : Option Bool :=
  if Text.isKeyword "true" value.toList || value = "1" then some true
  else if Text.isKeyword "false" value.toList || value = "0" then some false
  else none

/-- A field that holds a flag. -/
def flagField (fields : Dict String String) (name : String) : Except RecordError Bool := do
  let value ← present fields name
  match readFlag value with
  | some flag => return flag
  | none => .error (.invalidField name value)

/-- A field that may be absent; the empty text counts as absent. -/
def filled (fields : Dict String String) (name : String) : Option String :=
  (fields.get? name).filter fun value => !value.isEmpty

/-- The object size, if there is one. -/
def sizeField (fields : Dict String String) : Except RecordError (Option ObjectSize) :=
  match filled fields "object_size" with
  | none => .ok none
  | some value =>
    match Decoder.text? ObjectSize.decode value.toList with
    | .ok size => .ok (some size)
    | .error _ => .error (.invalidField "object_size" value)

/-- Rebuilds a record from its stored fields. The numbers are looked at first, then the object
    size, then the other fields in their order. -/
def ofFields (fields : Dict String String) : Except RecordError PolicyRecord := do
  let id ← numberField fields "id"
  let actionIndex ← numberField fields "action_index"
  let objectSize ← sizeField fields
  let ruleText ← present fields "raw_rule_text"
  let targetName ← present fields "target_name"
  let targetId ← present fields "target_id"
  let filterName ← present fields "filter_name"
  let verb ← present fields "action"
  let conditionText ← present fields "condition_text"
  let transient ← flagField fields "transient"
  let alive ← flagField fields "alive"
  return { id, ruleText, targetName, targetId, filterName, verb, actionIndex, conditionText,
           objectType := filled fields "object_type", objectSize, transient,
           dispatchLocation := (fields.get? "dispatch_location").getD "", alive }

/-- The members of a record as JSON. -/
def jsonMembers (r : PolicyRecord) : List (String × Json) :=
  [("id", .natural r.id), ("raw_rule_text", .string r.ruleText),
   ("target_name", .string r.targetName), ("target_id", .string r.targetId),
   ("filter_name", .string r.filterName), ("action", .string r.verb),
   ("action_index", .natural r.actionIndex), ("condition_text", .string r.conditionText),
   ("object_type", Json.ofOption Json.string r.objectType),
   ("object_size", Json.ofOption ObjectSize.toJson r.objectSize),
   ("transient", .bool r.transient), ("dispatch_location", .string r.dispatchLocation),
   ("alive", .bool r.alive)]

/-- A record as JSON. -/
def toJson (r : PolicyRecord) : Json := .object r.jsonMembers

/-- The fields of a record in JSON. -/
def known : List Decoder.Field :=
  [Decoder.field "id" Decoder.natural, Decoder.field "raw_rule_text" Decoder.string,
   Decoder.field "target_name" Decoder.string, Decoder.field "target_id" Decoder.string,
   Decoder.field "filter_name" Decoder.string, Decoder.field "action" Decoder.string,
   Decoder.field "action_index" Decoder.natural, Decoder.field "condition_text" Decoder.string,
   Decoder.field "object_type" (Decoder.option Decoder.string),
   Decoder.field "object_size" (Decoder.option ObjectSize.decode),
   Decoder.field "transient" Decoder.bool, Decoder.field "dispatch_location" Decoder.string,
   Decoder.field "alive" Decoder.bool]

/-- The record with the given fields. -/
def ofGiven (given : List (String × Reading)) : Except DecodeFault PolicyRecord := do
  return {
    id := ← Decoder.required "id" Decoder.natural given
    ruleText := ← Decoder.required "raw_rule_text" Decoder.string given
    targetName := ← Decoder.required "target_name" Decoder.string given
    targetId := ← Decoder.required "target_id" Decoder.string given
    filterName := ← Decoder.required "filter_name" Decoder.string given
    verb := ← Decoder.required "action" Decoder.string given
    actionIndex := ← Decoder.required "action_index" Decoder.natural given
    conditionText := ← Decoder.required "condition_text" Decoder.string given
    objectType := ← Decoder.withDefault "object_type" none (Decoder.option Decoder.string) given
    objectSize :=
      ← Decoder.withDefault "object_size" none (Decoder.option ObjectSize.decode) given
    transient := ← Decoder.required "transient" Decoder.bool given
    dispatchLocation := ← Decoder.required "dispatch_location" Decoder.string given
    alive := ← Decoder.required "alive" Decoder.bool given }

/-- The decoder of records. -/
def decode : Decoder PolicyRecord := fun r => do ofGiven (← Decoder.fields known r)

end PolicyRecord

/-- A record as it is listed, with the state of its monitor. -/
structure RecordView where
  record : PolicyRecord
  running : Bool
  deriving Repr, DecidableEq

namespace RecordView

/-- A view as JSON. -/
def toJson (v : RecordView) : Json :=
  .object (v.record.jsonMembers ++ [("running", .bool v.running)])

/-- The decoder of views, which are given as objects only. -/
def decode : Decoder RecordView := fun r => do
  match r with
  | .object _ =>
    let given ← Decoder.fields (PolicyRecord.known ++ [Decoder.field "running" Decoder.bool]) r
    return { record := ← PolicyRecord.ofGiven given
             running := ← Decoder.required "running" Decoder.bool given }
  | r => Decoder.refuse r

end RecordView

end StoragePolicy
