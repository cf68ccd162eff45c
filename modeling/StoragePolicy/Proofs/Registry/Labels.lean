import StoragePolicy.Proofs.Policy.Fields
import StoragePolicy.Proofs.Registry.Pipelines

/-!
# Entries that carry the ids they stand under

An entry of a pipeline stands under the name of an id and carries an id itself. A filter is taken
out of a pipeline by the second: the entries of the filter are found by what they are, and then the
fields of the ids they carry are deleted. That takes out just these entries as long as every entry
carries the id it stands under.

No call that stores an entry breaks that. Only an update may, if its patch names another id.

## Main definitions

* `Store.Labelled`: Every entry carries the id it stands under.
* `Registry.KeepsId`: Patches that leave the id of an entry as it is.
* `Store.entryAt?`: The entry under a name.
* `Store.TakenOut`: What remains of a pipeline without a filter.

## Theorems

* `policyId_of_toText`: The text of an entry determines its id.
* `patchedEntry_eq`: What a patch makes of an entry.
* `policyId_patchedEntry`, `labelled_updateStatic`: Patches that keep ids keep entries labelled.
* `takenOut_deleteMatching`: A filter is taken out of a labelled pipeline.
-/

namespace StoragePolicy

open Registry

/-! ### Patches -/

namespace Json

theorem find?_mergeMembers (members patch : List (String × Json)) (name : String) (value : Json)
    (hmembers : find? name members = some value)
    (hpatch : ∀ other, (name, other) ∈ patch → other = value) :
    find? name (mergeMembers members patch) = some value := by
  induction patch generalizing members with
  | nil => exact hmembers
  | cons m rest ih =>
    refine ih (setMember members m.1 m.2) ?_ fun other hother =>
      hpatch other (List.mem_cons_of_mem _ hother)
    rw [find?_setMember]
    split
    · rename_i hname
      subst hname
      exact congrArg some (hpatch m.2 List.mem_cons_self)
    · exact hmembers

end Json

namespace StaticEntry

/-- The members of an entry are read back one by one. -/
theorem decodeMembers_toReading (e : StaticEntry) :
    Json.decodeMembers e.toJson.toReading = .ok e.jsonMembers := by
  rcases e with ⟨id, name, type, size, server, reverse, order, params, callable⟩
  cases type <;> cases size <;> cases server <;> cases reverse <;>
    simp [toJson, jsonMembers, Json.ofOption, Json.natural, ObjectSize.toJson, Json.toReading,
      Json.toReadingMembers, Json.decodeMembers, Json.decode, Json.ofReading, Json.ofMembers,
      Json.mergeMembers, Json.setMember, Decoder.maxDepth, Except.map, bind, Except.bind, pure,
      Except.pure]

/-- The text of an entry has the members of that entry. -/
theorem decodeMembers_toText (e : StaticEntry) (he : e.Storable) :
    Decoder.text? Json.decodeMembers e.toText.toList = .ok e.jsonMembers := by
  rw [toText, Decoder.text?_toText _ _ (whole_toJson e he), decodeMembers_toReading]

/-- The text of an entry determines its id. -/
theorem policyId_of_toText (e e' : StaticEntry) (h : e.toText = e'.toText) :
    e.policyId = e'.policyId := by
  have hwritten : ∀ e : StaticEntry, ∃ rest, e.toText.toList =
      '\x7b' :: (Json.writeString "policy_id" ++
        ':' :: (Nat.toDigits 10 e.policyId ++ ',' :: rest)) := by
    intro e
    rw [toText, Json.toText, String.toList_ofList, toJson, jsonMembers, Json.write,
      Reading.writeMembers_cons]
    simp only [Json.natural, Json.write, Json.writeNumeral, List.isEmpty_cons, Bool.false_eq_true,
      if_false, List.append_assoc, List.cons_append]
    exact ⟨_, rfl⟩
  rcases hwritten e with ⟨rest, hrest⟩
  rcases hwritten e' with ⟨rest', hrest'⟩
  rw [h, hrest', List.cons.injEq, List.append_cancel_left_eq, List.cons.injEq] at hrest
  have htaken := congrArg (List.takeWhile Char.isDigit) hrest.2.2
  have hends : ∀ rest, Reading.Ends (',' :: rest) := fun rest =>
    Reading.ends_cons ',' rest (Or.inl rfl)
  rw [(Reading.takeWhile_digits _ _ (Number.all_isDigit_toDigits _) (hends rest)).1,
    (Reading.takeWhile_digits _ _ (Number.all_isDigit_toDigits _) (hends rest')).1] at htaken
  rw [← Number.digitsValue_toDigits e.policyId, ← htaken, Number.digitsValue_toDigits]

/-- An entry that is decoded has the id that is given. -/
theorem policyId_of_ofMembers? (members : List (String × Json)) (id : Nat)
    (hid : Json.find? "policy_id" members = some (.natural id)) (e : StaticEntry)
    (h : ofMembers? members = some e) : e.policyId = id := by
  rw [ofMembers?, Json.decodeAs?] at h
  generalize hread : decode (Json.object members).toReading = result at h
  cases result with
  | error fault => cases h
  | ok entry =>
    cases h
    rcases (Outcome.bind_eq_ok _ _ _).mp hread with ⟨given, hgiven, hfields⟩
    have hnumber := ((ofFields_eq_ok given e).mp hfields).policyId
    have hlookup := Decoder.lookup_knownMembers known "policy_id"
      ⟨Decoder.field "policy_id" Decoder.natural, List.mem_cons_self, rfl⟩ _ [] given hgiven
    rw [Json.lookup_toReadingMembers, hid] at hlookup
    rw [hlookup] at hnumber
    have hbound : Decoder.natural (.number (some (.natural id))) = .ok e.policyId := hnumber
    rw [Decoder.natural] at hbound
    split at hbound
    · cases hbound
      rfl
    · cases hbound

end StaticEntry

namespace Registry

/-- Patches that leave the id of an entry as it is: they name it, if at all, as it was. -/
def KeepsId (id : Nat) (patch : List (String × Json)) : Prop :=
  ∀ value, ("policy_id", value) ∈ patch → value = .natural id

/-- A patch is put over the members of an entry, and what comes of it may be no entry. -/
theorem patchedEntry_eq (key : String) (e : StaticEntry) (he : e.Storable)
    (patch : List (String × Json)) :
    patchedEntry key e.toText patch =
      (StaticEntry.ofMembers? (Json.mergeMembers e.jsonMembers patch)).elim
        (.error .notAnEntry) .ok := by
  simp only [patchedEntry, e.decodeMembers_toText he]
  cases StaticEntry.ofMembers? (Json.mergeMembers e.jsonMembers patch) <;> rfl

theorem patchedEntry_toText (key : String) (e : StaticEntry) (he : e.Storable)
    (patch : List (String × Json)) (patched : StaticEntry) :
    patchedEntry key e.toText patch = .ok patched ↔
      StaticEntry.ofMembers? (Json.mergeMembers e.jsonMembers patch) = some patched := by
  rw [patchedEntry_eq key e he patch]
  cases StaticEntry.ofMembers? (Json.mergeMembers e.jsonMembers patch) <;> simp

theorem policyId_patchedEntry (key : String) (e : StaticEntry) (he : e.Storable)
    (patch : List (String × Json)) (hpatch : KeepsId e.policyId patch) (patched : StaticEntry)
    (h : patchedEntry key e.toText patch = .ok patched) : patched.policyId = e.policyId := by
  rw [patchedEntry_toText key e he patch] at h
  refine StaticEntry.policyId_of_ofMembers? _ _ ?_ _ h
  exact Json.find?_mergeMembers _ _ _ _ rfl hpatch

end Registry

/-! ### Labels -/

/-- A text is that of an entry which carries the id of a name. -/
def StaticEntry.Labelled (name text : String) : Prop :=
  ∃ e : StaticEntry, text = e.toText ∧ name = Number.writeNatural e.policyId

namespace Store

/-- Every entry in a pipeline carries the id it stands under. -/
def Labelled (d : Store) : Prop := d.Fitting StaticEntry.Labelled

/-- The entry under a name in the pipeline of a target. -/
def entryAt? (d : Store) (targetId name : String) : Option StaticEntry :=
  (d.field? (pipelineKey targetId) name).bind StaticEntry.ofText?

theorem entryAt?_of_hashAt (d : Store) (targetId name : String) (fields : Dict String String)
    (hfields : d.hashAt (pipelineKey targetId) = .ok fields) (e : StaticEntry) (he : e.Storable)
    (hname : fields.get? name = some e.toText) : d.entryAt? targetId name = some e := by
  rw [entryAt?, field?_of_hashAt d _ name fields hfields, hname, Option.bind_some,
    StaticEntry.ofText?_toText e he]

/-- Entries are read back from their texts in order. -/
theorem eq_of_texts (entries : List StaticEntry) (hentries : ∀ e ∈ entries, e.Storable)
    (others : List StaticEntry)
    (hread : List.Forall₂ (fun text e => StaticEntry.ofText? text = some e)
      (entries.map StaticEntry.toText) others) : others = entries := by
  induction entries generalizing others with
  | nil =>
    cases hread
    rfl
  | cons e rest ih =>
    rw [List.map_cons] at hread
    rcases hread with _ | ⟨hfirst, hrest⟩
    rw [StaticEntry.ofText?_toText e (hentries e List.mem_cons_self)] at hfirst
    cases hfirst
    rw [ih (fun e he => hentries e (List.mem_cons_of_mem _ he)) _ hrest]

/-- A filter has been taken out of the pipeline of a target: its entries are gone, and all others
    are as they were. The ids given are those under which its entries stood, each once. -/
structure TakenOut (before after : Store) (targetId filterName : String) (ids : List Nat) :
    Prop where
  left : ∀ name, after.entryAt? targetId name =
    (before.entryAt? targetId name).filter fun e => e.filterName ≠ filterName
  stood : ∀ name, (∃ id ∈ ids, name = Number.writeNatural id) ↔
    ∃ e, before.entryAt? targetId name = some e ∧ e.filterName = filterName
  once : ids.Nodup
  others : ∀ other, other ≠ targetId →
    after.get? (pipelineKey other) = before.get? (pipelineKey other)

section Labelled

variable (d : Store) (hd : d.Legible) (hlabelled : d.Labelled)

include hd hlabelled

/-- What stands in a pipeline is an entry, and carries the id it stands under. -/
theorem entry_of_field? (targetId name text : String)
    (htext : d.field? (pipelineKey targetId) name = some text) :
    ∃ e : StaticEntry, e.Storable ∧ text = e.toText ∧ StaticEntry.ofText? text = some e ∧
      name = Number.writeNatural e.policyId := by
  rcases hd targetId name text htext with ⟨e, he, rfl⟩
  rcases hlabelled targetId name _ htext with ⟨e', htext', rfl⟩
  refine ⟨e, he, rfl, StaticEntry.ofText?_toText e he, ?_⟩
  rw [StaticEntry.policyId_of_toText e e' htext']

/-- An update whose patch keeps the id of its entry keeps the pipeline labelled. -/
theorem labelled_updateStatic (targetId : String) (hhash : d.HashAt (pipelineKey targetId))
    (id : Nat) (patch : List (String × Json)) (hpatch : KeepsId id patch) :
    (on (updateStatic targetId id patch) d).2.Labelled := by
  rcases hhash with ⟨fields, hfields⟩
  rw [on_updateStatic targetId id patch d fields hfields]
  cases hget : fields.get? (Number.writeNatural id) with
  | none => exact hlabelled
  | some text =>
    have htext : d.field? (pipelineKey targetId) (Number.writeNatural id) = some text :=
      (field?_of_hashAt d _ _ fields hfields).trans hget
    rcases entry_of_field? d hd hlabelled targetId _ text htext with ⟨e, he, rfl, -, hid⟩
    have hsame : id = e.policyId := Number.writeNatural_inj _ _ hid
    subst hsame
    dsimp only
    cases hpatched : patchedEntry (pipelineKey targetId) e.toText patch with
    | error fault => exact hlabelled
    | ok patched =>
      -- The patched entry takes the place of the old one, whose id it keeps.
      refine fitting_putHash _ d hlabelled _ fields hfields _ fun name text hname => ?_
      rw [Dict.get?_insert] at hname
      split at hname
      · rename_i heq
        cases hname
        refine Or.inr ⟨patched, rfl, ?_⟩
        rw [heq, policyId_patchedEntry _ e he patch hpatch patched hpatched]
      · exact Or.inl hname

/-- The entries that are read from a pipeline carry the names of its fields, in their order. -/
theorem keys_of_entries (targetId : String) (fields : Dict String String)
    (hfields : d.hashAt (pipelineKey targetId) = .ok fields) (entries : List StaticEntry)
    (hread : List.Forall₂ (fun text e => StaticEntry.ofText? text = some e) fields.values entries) :
    fields.keys = entries.map fun e => Number.writeNatural e.policyId := by
  have hlabels : ∀ field ∈ fields.entries, ∀ e, StaticEntry.ofText? field.2 = some e →
      field.1 = Number.writeNatural e.policyId := by
    rintro ⟨name, text⟩ hmem e he
    have htext := (field?_of_hashAt d _ name fields hfields).trans
      ((Dict.mem_entries_iff fields name text).mp hmem)
    rcases entry_of_field? d hd hlabelled targetId name text htext with ⟨e', -, -, he', hname⟩
    rw [he'] at he
    cases he
    exact hname
  rw [Dict.values] at hread
  rw [Dict.keys]
  -- From here on the fields are a list of pairs, on which the induction is.
  generalize fields.entries = stored at hread hlabels
  induction stored generalizing entries with
  | nil =>
    cases hread
    rfl
  | cons field rest ih =>
    rcases hread with _ | ⟨hfirst, hothers⟩
    rw [List.map_cons, List.map_cons, hlabels field List.mem_cons_self _ hfirst,
      ih _ hothers fun field hfield => hlabels field (List.mem_cons_of_mem _ hfield)]

/-- The entries that are read from a pipeline are those that stand in it. -/
theorem mem_entries_iff (targetId : String) (fields : Dict String String)
    (hfields : d.hashAt (pipelineKey targetId) = .ok fields) (entries : List StaticEntry)
    (hread : List.Forall₂ (fun text e => StaticEntry.ofText? text = some e) fields.values entries)
    (name : String) (e : StaticEntry) :
    d.entryAt? targetId name = some e ↔ e ∈ entries ∧ name = Number.writeNatural e.policyId := by
  have htexts : fields.values.map StaticEntry.ofText? = entries.map some :=
    hread.rec rfl fun hfirst _ hrest => by rw [List.map_cons, List.map_cons, hfirst, hrest]
  have hentry : e ∈ entries ↔ ∃ text ∈ fields.values, StaticEntry.ofText? text = some e := by
    have hmem : some e ∈ entries.map some ↔ e ∈ entries := by simp
    rw [← hmem, ← htexts, List.mem_map]
  have hfield := fun name => field?_of_hashAt d (pipelineKey targetId) name fields hfields
  rw [entryAt?, Option.bind_eq_some_iff, hentry]
  constructor
  · rintro ⟨text, htext, he⟩
    rcases entry_of_field? d hd hlabelled targetId name text htext with ⟨e', -, -, he', hname⟩
    rw [he'] at he
    cases he
    rw [hfield, ← Dict.mem_entries_iff] at htext
    exact ⟨⟨text, List.mem_map_of_mem htext, he'⟩, hname⟩
  · rintro ⟨⟨text, hmem, he⟩, hname⟩
    rcases List.mem_map.mp hmem with ⟨⟨stored, text⟩, hstored, rfl⟩
    rw [Dict.mem_entries_iff, ← hfield] at hstored
    rcases entry_of_field? d hd hlabelled targetId stored text hstored with ⟨e', -, -, he', hlabel⟩
    rw [he'] at he
    cases he
    exact ⟨text, by rw [hname, ← hlabel]; exact hstored, he'⟩

/-- A filter is taken out of a labelled pipeline. -/
theorem takenOut_deleteMatching (n : Nat) (h : d.Ledger n) (targetId filterName : String) :
    ∃ ids, (on (deleteMatching targetId filterName) d).1 = .ok ids ∧
      d.TakenOut (on (deleteMatching targetId filterName) d).2 targetId filterName ids := by
  rcases h.pipelines targetId with ⟨fields, hfields⟩
  rcases on_deleteMatching d n h hd targetId filterName fields hfields with
    ⟨entries, ids, hread, hids, hdone, hafter⟩
  have hmem := mem_entries_iff d hd hlabelled targetId fields hfields entries hread
  have hsorted : (inOrder StaticEntry.executionOrder entries).Perm entries :=
    List.mergeSort_perm _ _
  -- The ids that are given are those of the entries that carry the filter, in whatever order.
  have hstood : ∀ name, (∃ id ∈ ids, name = Number.writeNatural id) ↔
      ∃ e, d.entryAt? targetId name = some e ∧ e.filterName = filterName := by
    intro name
    simp only [hids, List.mem_map, List.mem_filter, hsorted.mem_iff, decide_eq_true_eq, hmem]
    constructor
    · rintro ⟨_, ⟨e, ⟨he, hfilter⟩, rfl⟩, hname⟩
      exact ⟨e, ⟨he, hname⟩, hfilter⟩
    · rintro ⟨e, ⟨he, hname⟩, hfilter⟩
      exact ⟨_, ⟨e, ⟨he, hfilter⟩, rfl⟩, hname⟩
  refine ⟨ids, hdone, fun name => ?_, hstood, ?_, fun other hother => ?_⟩
  · have hfield := field?_of_hashAt _ _ name _ hafter
    rw [Dict.get?_eraseAll Number.writeNatural,
      ← field?_of_hashAt d _ name fields hfields] at hfield
    rw [entryAt?, hfield]
    split
    · rename_i hname
      rcases (hstood name).mp hname with ⟨e, he, hfilter⟩
      rw [he, Option.filter_some, if_neg (by simpa using hfilter)]
      rfl
    · rename_i hname
      have hother : ∀ e, d.entryAt? targetId name = some e → e.filterName ≠ filterName :=
        fun e he hfilter => hname ((hstood name).mpr ⟨e, he, hfilter⟩)
      change d.entryAt? targetId name = _
      cases he : d.entryAt? targetId name with
      | none => rfl
      | some e => rw [Option.filter_some, if_pos (by simpa using hother e he)]
  · have hkeys := keys_of_entries d hd hlabelled targetId fields hfields entries hread
    have hnodup : (entries.map StaticEntry.policyId).Nodup := by
      have hnames := fields.nodup_keys
      rw [hkeys, ← Function.comp_def Number.writeNatural, ← List.map_map] at hnames
      exact List.Pairwise.of_map _ (fun _ _ hne heq => hne (congrArg _ heq)) hnames
    rw [hids]
    refine List.Nodup.sublist (List.filter_sublist.map _) ?_
    exact (hsorted.map _).nodup_iff.mpr hnodup
  · refine get?_on _ _ (makes_deleteMatching _ targetId filterName ?_ ?_ ?_) d
    · exact List.not_mem_nil
    · intro name hmem
      exact hother (append_right_inj _ _ _ (List.mem_singleton.mp hmem))
    · intro hmem
      exact pipelineKey_ne_counterKey other (List.mem_singleton.mp hmem)

end Labelled

end Store

end StoragePolicy
