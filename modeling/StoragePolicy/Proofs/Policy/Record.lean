import StoragePolicy.Policy.Record
import StoragePolicy.Proofs.Json.RoundTrip
import StoragePolicy.Proofs.Policy.Target
import StoragePolicy.Proofs.Store.View

/-!
# Records survive being stored

A record is stored as a hash of texts and decoded again by the reload. What is decoded is the record
that was stored, as long as its numbers can be held and its object type is not the empty text, which
stands for none. A mark of the record as alive or not changes one field of the hash, and the hash is
then that of the record with the mark.

## Main definitions

* `PolicyRecord.Storable`: Records that survive being stored.
* `PolicyRecord.marked`: A record marked as alive or not.
* `PolicyRecord.hash`: The hash of a record.

## Theorems

* `ofFields_hash`: A storable record is decoded as it was stored.
* `hash_insert_alive`: Marking a record marks its hash.
-/

namespace StoragePolicy

/-- The decoder of bounds reads back what was written. -/
theorem ObjectSize.decode_toJson (size : ObjectSize) (h : size.value ≤ Number.maxWord) :
    ObjectSize.decode size.toJson.toReading = .ok size := by
  simp [toJson, Json.toReading, Json.toReadingMembers, Json.natural, decode, Decoder.fields,
    Decoder.knownMembers, Decoder.field, Decoder.string, Decoder.natural, h, Decoder.required,
    List.lookup_cons, Except.map, bind, Except.bind, pure, Except.pure]

theorem ObjectSize.whole_toJson (size : ObjectSize) (h : size.value ≤ Number.maxWord) :
    size.toJson.Whole := by
  simpa [ObjectSize.toJson, Json.Whole, Json.WholeMembers, Json.natural] using h

namespace PolicyRecord

/-- Records that survive being stored: their numbers can be held, and their object type is not
    the empty text. -/
structure Storable (r : PolicyRecord) : Prop where
  id : r.id ≤ Number.maxWord
  actionIndex : r.actionIndex ≤ Number.maxWord
  objectType : r.objectType ≠ some ""
  objectSize : ∀ size, r.objectSize = some size → size.value ≤ Number.maxWord

/-- A record marked as alive or not. -/
def marked (r : PolicyRecord) (alive : Bool) : PolicyRecord := { r with alive }

theorem storable_marked (r : PolicyRecord) (alive : Bool) (h : r.Storable) :
    (r.marked alive).Storable :=
  ⟨h.id, h.actionIndex, h.objectType, h.objectSize⟩

/-- The hash as which a record is stored. -/
def hash (r : PolicyRecord) : Dict String String := Dict.ofList r.toFields

theorem present_hash (r : PolicyRecord) (name value : String)
    (h : (r.toFields.reverse.find? fun e => e.1 = name).map Prod.snd = some value) :
    present r.hash name = .ok value := by
  rw [present, hash, Dict.get?_ofList, h]

theorem numberField_hash (r : PolicyRecord) (name : String) (n : Nat) (hle : n ≤ Number.maxWord)
    (h : (r.toFields.reverse.find? fun e => e.1 = name).map Prod.snd =
      some (Number.writeNatural n)) : numberField r.hash name = .ok n := by
  rw [numberField, present_hash r name _ h]
  simp only [bind, Except.bind, Number.readNatural_writeNatural n hle]
  rfl

theorem readFlag_flagText (flag : Bool) : readFlag (flagText flag) = some flag := by
  cases flag <;> decide

theorem flagField_hash (r : PolicyRecord) (name : String) (flag : Bool)
    (h : (r.toFields.reverse.find? fun e => e.1 = name).map Prod.snd = some (flagText flag)) :
    flagField r.hash name = .ok flag := by
  rw [flagField, present_hash r name _ h]
  simp only [bind, Except.bind, readFlag_flagText flag]
  rfl

/-- The written form of a bound is not the empty text, which stands for no bound. -/
theorem sizeField_hash (r : PolicyRecord)
    (hsize : ∀ size, r.objectSize = some size → size.value ≤ Number.maxWord) :
    sizeField r.hash = .ok r.objectSize := by
  have hget : r.hash.get? "object_size" =
      some ((r.objectSize.map fun size => size.toJson.toText).getD "") := by
    rw [hash, Dict.get?_ofList]
    cases hobject : r.objectSize <;> simp only [toFields, hobject] <;> rfl
  cases hobject : r.objectSize with
  | none =>
    rw [hobject] at hget
    rw [sizeField, filled, hget]
    rfl
  | some size =>
    rw [hobject, Option.map_some, Option.getD_some] at hget
    have hfilled : size.toJson.toText.isEmpty = false := by
      rw [← Bool.not_eq_true, String.isEmpty_iff, ← String.toList_eq_nil_iff, Json.toText,
        String.toList_ofList]
      exact List.cons_ne_nil _ _
    rw [sizeField, filled, hget]
    simp only [Option.filter, hfilled, Bool.not_false, if_true]
    rw [Decoder.text?_toText _ _ (size.whole_toJson (hsize size hobject)),
      size.decode_toJson (hsize size hobject)]

theorem filled_objectType (r : PolicyRecord) (h : r.objectType ≠ some "") :
    filled r.hash "object_type" = r.objectType := by
  have hget : r.hash.get? "object_type" = some (r.objectType.getD "") := by
    rw [hash, Dict.get?_ofList]
    rfl
  rw [filled, hget]
  cases htype : r.objectType with
  | none => rfl
  | some name =>
    have hname : name.isEmpty = false := by
      rw [← Bool.not_eq_true, String.isEmpty_iff]
      intro hempty
      exact h (by rw [htype, hempty])
    simp [Option.filter, hname]

/-- A record is decoded as it was stored. -/
theorem ofFields_hash (r : PolicyRecord) (h : r.Storable) : ofFields r.hash = .ok r := by
  have hdispatch : r.hash.get? "dispatch_location" = some r.dispatchLocation := by
    rw [hash, Dict.get?_ofList]
    rfl
  simp only [ofFields, numberField_hash r "id" r.id h.id rfl,
    numberField_hash r "action_index" r.actionIndex h.actionIndex rfl,
    sizeField_hash r h.objectSize, present_hash r "raw_rule_text" r.ruleText rfl,
    present_hash r "target_name" r.targetName rfl, present_hash r "target_id" r.targetId rfl,
    present_hash r "filter_name" r.filterName rfl, present_hash r "action" r.verb rfl,
    present_hash r "condition_text" r.conditionText rfl,
    flagField_hash r "transient" r.transient rfl, flagField_hash r "alive" r.alive rfl,
    filled_objectType r h.objectType, hdispatch, bind, Except.bind, pure, Except.pure,
    Option.getD_some]

/-- Marking a record marks its hash. -/
theorem hash_insert_alive (r : PolicyRecord) (alive : Bool) :
    r.hash.insert "alive" (flagText alive) = (r.marked alive).hash := by
  refine Dict.ext_get? _ _ fun name => ?_
  rw [Dict.get?_insert, hash, hash, Dict.get?_ofList, Dict.get?_ofList]
  simp only [toFields, marked, List.reverse_cons, List.reverse_nil, List.nil_append,
    List.cons_append, List.find?_cons]
  by_cases hname : name = "alive"
  · subst hname
    rfl
  · have halive : decide ("alive" = name) = false := by simpa using Ne.symm hname
    rw [if_neg hname, halive]

/-- The fields of one record all take the place of those of another. -/
theorem insertAll_hash (r old : PolicyRecord) : old.hash.insertAll r.toFields = r.hash := by
  have hnames : old.toFields.map Prod.fst = r.toFields.map Prod.fst := rfl
  refine Dict.ext_get? _ _ fun name => ?_
  rw [Dict.get?_insertAll, hash, hash, Dict.get?_ofList, Dict.get?_ofList]
  cases hfound : r.toFields.reverse.find? fun e => e.1 = name with
  | some e => rfl
  | none =>
    have hnone : (old.toFields.reverse.find? fun e => e.1 = name) = none := by
      simp only [List.find?_eq_none, List.mem_reverse, decide_eq_true_eq] at hfound ⊢
      intro e he hname
      have hmem : name ∈ r.toFields.map Prod.fst := by
        rw [← hnames, ← hname]
        exact List.mem_map_of_mem he
      rcases List.mem_map.mp hmem with ⟨e', he', hname'⟩
      exact hfound e' he' hname'
    rw [hnone]
    rfl

theorem isEmpty_hash (r : PolicyRecord) : r.hash.isEmpty = false :=
  Dict.isEmpty_eq_false_of_get? _ "id" (Number.writeNatural r.id) (by
    rw [hash, Dict.get?_ofList]
    rfl)

theorem contains_hash_alive (r : PolicyRecord) : r.hash.contains "alive" = true := by
  rw [Dict.contains_iff]
  refine ⟨flagText r.alive, ?_⟩
  rw [hash, Dict.get?_ofList]
  rfl

end PolicyRecord

end StoragePolicy
