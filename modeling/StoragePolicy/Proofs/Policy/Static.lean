import StoragePolicy.Policy.Static
import StoragePolicy.Proofs.Outcome
import StoragePolicy.Proofs.Policy.Record

/-!
# Entries of pipelines are read back

An entry is stored as JSON text, and it is read back if its numbers can be held. An update puts the
members of a patch over the stored ones and decodes the result, and the numbers of what has been
decoded can be held. So what it stores is an entry that is read back again.

## Main definitions

* `StaticEntry.Storable`: Entries whose numbers can be held.

## Theorems

* `ofText?_toText`: An entry is read back from its text.
* `storable_of_decode`: An entry that has been decoded can be stored.
* `StaticView.decode_toReading`: What is listed is read back.
-/

namespace StoragePolicy

/-! ### What a decoder reads -/

namespace Decoder

theorem natural_le (r : Reading) (n : Nat) (h : natural r = .ok n) : n ≤ Number.maxWord := by
  unfold natural at h
  split at h
  · split at h
    · cases h
      assumption
    · exact nomatch h
  · unfold refuse at h
    split at h
    · exact nomatch h
    · exact nomatch h
    · exact nomatch h
    · exact nomatch h

theorem of_required {α : Type} (name : String) (d : Decoder α) (given : List (String × Reading))
    (a : α) (h : required name d given = .ok a) :
    ∃ r, given.lookup name = some r ∧ d r = .ok a := by
  rw [required] at h
  split at h
  · rename_i r hr
    exact ⟨r, hr, h⟩
  · cases h

theorem of_withDefault {α : Type} (name : String) (default : α) (d : Decoder α)
    (given : List (String × Reading)) (a : α) (h : withDefault name default d given = .ok a) :
    a = default ∨ ∃ r, given.lookup name = some r ∧ d r = .ok a := by
  rw [withDefault] at h
  split at h
  · rename_i r hr
    exact Or.inr ⟨r, hr, h⟩
  · cases h
    exact Or.inl rfl

theorem of_option {α : Type} (d : Decoder α) (r : Reading) (a : α)
    (h : option d r = .ok (some a)) : d r = .ok a := by
  unfold option at h
  split at h
  · exact nomatch h
  · rcases (Outcome.map_eq_ok _ _ _).mp h with ⟨a', hread, heq⟩
    cases heq
    exact hread

end Decoder

/-! ### Entries -/

/-- A bound on sizes that has been decoded can be held. -/
theorem ObjectSize.value_le (r : Reading) (size : ObjectSize) (hread : decode r = .ok size) :
    size.value ≤ Number.maxWord := by
  rcases (Outcome.bind_eq_ok _ _ _).mp hread with ⟨given, -, hrest⟩
  rcases (Outcome.bind_eq_ok _ _ _).mp hrest with ⟨operand, -, hrest⟩
  rcases (Outcome.bind_eq_ok _ _ _).mp hrest with ⟨n, hn, hrest⟩
  cases hrest
  rcases Decoder.of_required _ _ _ _ hn with ⟨part, -, hnatural⟩
  exact Decoder.natural_le part n hnatural

/-- A text that may be missing is read back. -/
theorem Decoder.option_string (text : Option String) :
    Decoder.option Decoder.string (Json.ofOption Json.string text).toReading = .ok text := by
  cases text <;> rfl

/-- A bound on sizes that may be missing is read back if it can be held. -/
theorem Decoder.option_objectSize (size : Option ObjectSize)
    (h : ∀ bound, size = some bound → bound.value ≤ Number.maxWord) :
    Decoder.option ObjectSize.decode (Json.ofOption ObjectSize.toJson size).toReading =
      .ok size := by
  cases size with
  | none => rfl
  | some bound => exact congrArg (Except.map some) (ObjectSize.decode_toJson bound (h bound rfl))

namespace StaticEntry

/-- Entries whose numbers can be held. -/
structure Storable (e : StaticEntry) : Prop where
  policyId : e.policyId ≤ Number.maxWord
  executionOrder : e.executionOrder ≤ Number.maxWord
  objectSize : ∀ size, e.objectSize = some size → size.value ≤ Number.maxWord

theorem whole_toJson (e : StaticEntry) (h : e.Storable) : e.toJson.Whole := by
  have hoption : ∀ text : Option String, (Json.ofOption Json.string text).Whole := by
    intro text
    cases text <;> trivial
  have hsize : (Json.ofOption ObjectSize.toJson e.objectSize).Whole := by
    cases hsize : e.objectSize with
    | none => trivial
    | some size => exact ⟨trivial, h.objectSize size hsize, trivial⟩
  exact ⟨h.policyId, trivial, hoption _, hsize, hoption _, hoption _, h.executionOrder, trivial,
    trivial, trivial⟩

theorem decode_toReading (e : StaticEntry) (h : e.Storable) :
    decode e.toJson.toReading = .ok e := by
  rcases e with ⟨id, name, type, size, server, reverse, order, params, callable⟩
  have hid : id ≤ Number.maxWord := h.policyId
  have horder : order ≤ Number.maxWord := h.executionOrder
  have hsize := Decoder.option_objectSize size h.objectSize
  simp [toJson, jsonMembers, Json.toReading, Json.toReadingMembers, Json.natural, decode, known,
    ofFields, Decoder.fields, Decoder.knownMembers, Decoder.field, Decoder.string, Decoder.natural,
    Decoder.bool, hid, horder, hsize, Decoder.option_string, Decoder.required,
    Decoder.withDefault, List.lookup_cons, Except.map, bind, Except.bind, pure, Except.pure]

/-- An entry is read back from its text. -/
theorem ofText?_toText (e : StaticEntry) (h : e.Storable) : ofText? e.toText = some e := by
  rw [ofText?, toText, Decoder.text?_toText decode e.toJson (whole_toJson e h),
    decode_toReading e h]
  rfl

/-- An entry that has been decoded can be stored. -/
theorem storable_of_decode (r : Reading) (e : StaticEntry) (hread : decode r = .ok e) :
    e.Storable := by
  rcases (Outcome.bind_eq_ok _ _ _).mp hread with ⟨given, -, hrest⟩
  rcases (Outcome.bind_eq_ok _ _ _).mp hrest with ⟨id, hid, hrest⟩
  rcases (Outcome.bind_eq_ok _ _ _).mp hrest with ⟨name, -, hrest⟩
  rcases (Outcome.bind_eq_ok _ _ _).mp hrest with ⟨type, -, hrest⟩
  rcases (Outcome.bind_eq_ok _ _ _).mp hrest with ⟨size, hsize, hrest⟩
  rcases (Outcome.bind_eq_ok _ _ _).mp hrest with ⟨server, -, hrest⟩
  rcases (Outcome.bind_eq_ok _ _ _).mp hrest with ⟨reverse, -, hrest⟩
  rcases (Outcome.bind_eq_ok _ _ _).mp hrest with ⟨order, horder, hrest⟩
  rcases (Outcome.bind_eq_ok _ _ _).mp hrest with ⟨params, -, hrest⟩
  rcases (Outcome.bind_eq_ok _ _ _).mp hrest with ⟨callable, -, hrest⟩
  cases hrest
  -- Only numbers have bounds. The other fields can be stored whatever they are.
  have hnatural : ∀ name n, Decoder.required name Decoder.natural given = .ok n →
      n ≤ Number.maxWord := by
    intro name n hn
    rcases Decoder.of_required _ _ _ _ hn with ⟨part, -, hpart⟩
    exact Decoder.natural_le part n hpart
  refine ⟨hnatural _ _ hid, hnatural _ _ horder, ?_⟩
  rintro bound rfl
  rcases Decoder.of_withDefault _ _ _ _ _ hsize with hnone | ⟨part, -, hoption⟩
  · exact nomatch hnone
  · exact ObjectSize.value_le part bound (Decoder.of_option _ _ _ hoption)

theorem storable_of_ofMembers? (members : List (String × Json)) (e : StaticEntry)
    (hread : ofMembers? members = some e) : e.Storable := by
  rw [ofMembers?, Json.decodeAs?] at hread
  refine storable_of_decode (Json.object members).toReading e ?_
  generalize decode (Json.object members).toReading = result at hread
  cases result with
  | ok a =>
    cases hread
    rfl
  | error fault => exact nomatch hread

end StaticEntry

/-! ### What is listed -/

namespace StaticView

theorem whole_toJson (v : StaticView) (hid : v.id ≤ Number.maxWord) (h : v.entry.Storable) :
    v.toJson.Whole := ⟨hid, trivial, trivial, StaticEntry.whole_toJson v.entry h⟩

/-- What is listed is read back if its numbers can be held. -/
theorem decode_toReading (v : StaticView) (hid : v.id ≤ Number.maxWord) (h : v.entry.Storable) :
    decode v.toJson.toReading = .ok v := by
  rcases v with ⟨number, targetId, targetName, e⟩
  rcases e with ⟨id, name, type, size, server, reverse, order, params, callable⟩
  have hnumber : number ≤ Number.maxWord := hid
  have hid : id ≤ Number.maxWord := h.policyId
  have horder : order ≤ Number.maxWord := h.executionOrder
  have hsize := Decoder.option_objectSize size h.objectSize
  simp [toJson, StaticEntry.jsonMembers, Json.toReading, Json.toReadingMembers, Json.natural,
    decode, StaticEntry.known, StaticEntry.ofFields, Decoder.fields, Decoder.knownMembers,
    Decoder.field, Decoder.string, Decoder.natural, Decoder.bool, hnumber, hid, horder, hsize,
    Decoder.option_string, Decoder.required, Decoder.withDefault, List.lookup_cons, Except.map,
    bind, Except.bind, pure, Except.pure]

end StaticView

end StoragePolicy
