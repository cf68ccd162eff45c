import StoragePolicy.Proofs.Policy.Fields
import StoragePolicy.Proofs.Registry.Labels

/-!
# Updates one after the other

An update reads a stored text, puts the members of its patch over those of the text, decodes the
result as an entry and stores the text of that entry. Names that no entry has are dropped on the
way, missing fields are written out, and values that can be given in several forms are stored in
one. Nevertheless the next update finds what this one was asked for: fields are decoded one by one,
and the text of an entry gives each of them again.

So two updates are one update with the later patch over the earlier one, the same update may be made
any number of times, and updates of different fields may be made in any order.

## Main definitions

* `Store.Beside`: Stores that agree but for one entry.

## Theorems

* `patchedEntry_eq_ok`: What a patch makes of a stored text, field by field.
* `patchedEntry_mergeMembers`, `patchedEntry_again`, `patchedEntry_comm`: The same of two patches.
* `find?_patchedEntry`: Fields that a patch does not name stay.
* `on_updateStatic_eq_ok`, `store_of_updateStatic_error`: What becomes of the store.
* `updateStatic_composes`: What updates do, one after the other.
-/

namespace StoragePolicy

open Registry

/-- What has been put last under a key is all that counts. -/
theorem Dict.insert_insert {κ ν : Type} [SortKey κ] (d : Dict κ ν) (key : κ) (first second : ν) :
    (d.insert key first).insert key second = d.insert key second := by
  refine Dict.ext_get? _ _ fun other => ?_
  simp only [Dict.get?_insert]
  split <;> rfl

namespace StaticEntry

/-- Over members stands what a patch has found last. -/
theorem among_mergeMembers (members patch : List (String × Json)) :
    among (Json.mergeMembers members patch) =
      fun name => (among patch.reverse name).or (among members name) := by
  funext name
  rw [among, Json.find?_merged, Option.map_or]
  rfl

theorem among_eq_none (members : List (String × Json)) (name : String)
    (h : name ∉ members.map Prod.fst) : among members name = none := by
  rw [among, (Json.find?_eq_none_iff members name).mpr fun value hmem =>
    h (List.mem_map_of_mem hmem)]
  rfl

end StaticEntry

namespace Registry

/-! ### Two patches -/

section Patches

variable (key : String)

/-- A patch makes an entry of the members of a text if each field can be decoded. -/
theorem patchedEntry_eq_ok (text : String) (patch : List (String × Json)) (e : StaticEntry) :
    patchedEntry key text patch = .ok e ↔
      ∃ members, Decoder.text? Json.decodeMembers text.toList = .ok members ∧
        e.Given fun name => (StaticEntry.among patch.reverse name).or
          (StaticEntry.among members name) := by
  rw [patchedEntry]
  cases hmembers : Decoder.text? Json.decodeMembers text.toList with
  | error fault => simp
  | ok members =>
    have hdistinct := Json.distinct_mergeMembers members patch
      (Json.distinct_of_decodeMembers _ members (Decoder.ok_of_text? _ _ members hmembers))
    have hgiven := StaticEntry.ofMembers?_eq_some _ hdistinct e
    rw [StaticEntry.among_mergeMembers] at hgiven
    dsimp only
    cases hpatched : StaticEntry.ofMembers? (Json.mergeMembers members patch) with
    | none => simp_all
    | some patched => simp_all

variable {key}

/-- What a patch has made has the fields of the patch and of what stood there before. -/
theorem given_of_patchedEntry (text : String) (members patch : List (String × Json))
    (hmembers : Decoder.text? Json.decodeMembers text.toList = .ok members) (e : StaticEntry)
    (h : patchedEntry key text patch = .ok e) :
    e.Given fun name => (StaticEntry.among patch.reverse name).or
      (StaticEntry.among members name) := by
  rcases (patchedEntry_eq_ok key text patch e).mp h with ⟨members', hmembers', hgiven⟩
  rw [hmembers] at hmembers'
  cases hmembers'
  exact hgiven

/-- A second patch is put over the entry that the first has made. -/
theorem given_of_patchedEntry_twice (text : String) (p q : List (String × Json))
    (e₁ e₂ : StaticEntry) (h₁ : patchedEntry key text p = .ok e₁)
    (h₂ : patchedEntry key e₁.toText q = .ok e₂) :
    ∃ members, Decoder.text? Json.decodeMembers text.toList = .ok members ∧
      e₂.Given fun name => (StaticEntry.among q.reverse name).or
        ((StaticEntry.among p.reverse name).or (StaticEntry.among members name)) := by
  have hstorable := storable_patchedEntry key text p e₁ h₁
  rcases (patchedEntry_eq_ok key text p e₁).mp h₁ with ⟨members, hmembers, hgiven⟩
  exact ⟨members, hmembers, StaticEntry.given_of_over _ _ _ e₁ e₂ hgiven
    (StaticEntry.given_jsonMembers e₁ hstorable)
    (given_of_patchedEntry _ _ q (e₁.decodeMembers_toText hstorable) e₂ h₂)⟩

/-- Two patches one after the other do what the second over the first does. -/
theorem patchedEntry_mergeMembers (text : String) (p q : List (String × Json))
    (hp : Json.Distinct p) (e₁ e₂ : StaticEntry) (h₁ : patchedEntry key text p = .ok e₁)
    (h₂ : patchedEntry key e₁.toText q = .ok e₂) :
    patchedEntry key text (Json.mergeMembers p q) = .ok e₂ := by
  rcases given_of_patchedEntry_twice text p q e₁ e₂ h₁ h₂ with ⟨members, hmembers, hgiven⟩
  refine (patchedEntry_eq_ok key text _ e₂).mpr ⟨members, hmembers, ?_⟩
  have hfound : ∀ name, StaticEntry.among (Json.mergeMembers p q).reverse name =
      (StaticEntry.among q.reverse name).or (StaticEntry.among p.reverse name) := by
    intro name
    simp only [StaticEntry.among, Json.find?_reverse _ (Json.distinct_mergeMembers p q hp),
      Json.find?_merged, Json.find?_reverse p hp, Option.map_or]
  simp only [hfound, Option.or_assoc]
  exact hgiven

/-- A patch that is put over what it has made changes nothing. -/
theorem patchedEntry_again (text : String) (patch : List (String × Json)) (e : StaticEntry)
    (h : patchedEntry key text patch = .ok e) : patchedEntry key e.toText patch = .ok e := by
  have hstorable := storable_patchedEntry key text patch e h
  rcases (patchedEntry_eq_ok key text patch e).mp h with ⟨members, hmembers, hgiven⟩
  refine (patchedEntry_eq_ok key _ patch e).mpr
    ⟨e.jsonMembers, e.decodeMembers_toText hstorable, ?_⟩
  refine StaticEntry.given_of_over _ _ _ e e (StaticEntry.given_jsonMembers e hstorable) hgiven ?_
  simp only [← Option.or_assoc, Option.or_self]
  exact hgiven

/-- Patches of different fields make the same entry in either order. -/
theorem patchedEntry_comm (text : String) (p q : List (String × Json))
    (hdisjoint : ∀ name ∈ p.map Prod.fst, name ∉ q.map Prod.fst) (e₁ e₂ e₃ e₄ : StaticEntry)
    (h₁ : patchedEntry key text p = .ok e₁) (h₂ : patchedEntry key e₁.toText q = .ok e₂)
    (h₃ : patchedEntry key text q = .ok e₃) (h₄ : patchedEntry key e₃.toText p = .ok e₄) :
    e₂ = e₄ := by
  rcases given_of_patchedEntry_twice text p q e₁ e₂ h₁ h₂ with ⟨members, hmembers, hgiven⟩
  rcases given_of_patchedEntry_twice text q p e₃ e₄ h₃ h₄ with ⟨members', hmembers', hgiven'⟩
  rw [hmembers] at hmembers'
  cases hmembers'
  refine StaticEntry.given_unique _ e₂ e₄ hgiven ?_
  refine StaticEntry.given_congr _ _ e₄ (fun f _ => ?_) hgiven'
  have hnone : ∀ (patch : List (String × Json)) name, name ∉ patch.map Prod.fst →
      StaticEntry.among patch.reverse name = none := fun patch name hname =>
    StaticEntry.among_eq_none _ name (by rwa [List.map_reverse, List.mem_reverse])
  by_cases hname : f.name ∈ p.map Prod.fst
  · rw [hnone q f.name (hdisjoint f.name hname), Option.none_or, Option.none_or]
  · rw [hnone p f.name hname, Option.none_or, Option.none_or]

/-- A field that a patch does not name is as it was. -/
theorem find?_patchedEntry (text : String) (patch : List (String × Json)) (e e' : StaticEntry)
    (hold : StaticEntry.ofText? text = some e) (h : patchedEntry key text patch = .ok e')
    (name : String) (hname : name ∉ patch.map Prod.fst) :
    Json.find? name e'.jsonMembers = Json.find? name e.jsonMembers := by
  rcases (patchedEntry_eq_ok key text patch e').mp h with ⟨members, hmembers, hgiven⟩
  refine StaticEntry.find?_jsonMembers_congr _ _ e' e hgiven
    (StaticEntry.given_of_text text members e hmembers hold) name ?_
  rw [StaticEntry.among_eq_none _ name (by rwa [List.map_reverse, List.mem_reverse]),
    Option.none_or]

end Patches

/-! ### What becomes of the store -/

section Store

variable (targetId : String) (id : Nat)

/-- What is read of an entry depends on the hash of its pipeline alone. -/
theorem on_getStatic_hashAt (d : Store) (fields : Dict String String)
    (hfields : d.hashAt (pipelineKey targetId) = .ok fields) :
    on (getStatic targetId id) d =
      ((fields.get? (Number.writeNatural id)).mapM (readEntry (pipelineKey targetId)), d) := by
  have hask := on_ask_getField d _ (Number.writeNatural id) fields hfields
  exact (on_bind_ok _ _ d d _ hask).trans (on_ofExcept _ d)

/-- A pipeline that is no hash is not updated. -/
theorem on_updateStatic_of_error (patch : List (String × Json)) (d : Store) (e : StoreError)
    (h : d.hashAt (pipelineKey targetId) = .error e) :
    on (updateStatic targetId id patch) d = (.error (.store e), d) := by
  have hask : on (ask (.getField (pipelineKey targetId) (Number.writeNatural id))) d =
      (.error (.store e), d) := by
    rw [on_ask, Store.exec, h]
    rfl
  exact on_bind_error _ _ d d _ hask

/-- An update that succeeds stores the text of the patched entry. -/
theorem on_updateStatic_eq_ok (patch : List (String × Json)) (d d' : Store) (e : StaticEntry) :
    on (updateStatic targetId id patch) d = (.ok e, d') ↔
      ∃ fields text, d.hashAt (pipelineKey targetId) = .ok fields ∧
        fields.get? (Number.writeNatural id) = some text ∧
        patchedEntry (pipelineKey targetId) text patch = .ok e ∧
        d' = d.putHash (pipelineKey targetId)
          (fields.insert (Number.writeNatural id) e.toText) := by
  cases hfields : d.hashAt (pipelineKey targetId) with
  | error fault =>
    rw [on_updateStatic_of_error targetId id patch d fault hfields]
    simp
  | ok fields =>
    rw [on_updateStatic targetId id patch d fields hfields]
    constructor
    · intro h
      split at h
      · cases h
      · rename_i text htext
        split at h
        · cases h
        · rename_i patched hpatched
          cases h
          exact ⟨fields, text, rfl, htext, hpatched, rfl⟩
    · rintro ⟨_, text, ⟨⟩, htext, hpatched, rfl⟩
      simp only [htext, hpatched]

/-- An update that fails changes nothing. -/
theorem store_of_updateStatic_error (patch : List (String × Json)) (d d' : Store)
    (fault : EngineError) (h : on (updateStatic targetId id patch) d = (.error fault, d')) :
    d' = d := by
  cases hfields : d.hashAt (pipelineKey targetId) with
  | error e =>
    rw [on_updateStatic_of_error targetId id patch d e hfields] at h
    cases h
    rfl
  | ok fields =>
    rw [on_updateStatic targetId id patch d fields hfields] at h
    split at h
    · cases h
      rfl
    · split at h
      · cases h
        rfl
      · cases h

/-- An update after another one is made to the entry that the first has stored. -/
theorem on_updateStatic_after (p q : List (String × Json)) (d d₁ d₂ : Store)
    (e₁ e₂ : StaticEntry) (h₁ : on (updateStatic targetId id p) d = (.ok e₁, d₁))
    (h₂ : on (updateStatic targetId id q) d₁ = (.ok e₂, d₂)) :
    ∃ fields text, d.hashAt (pipelineKey targetId) = .ok fields ∧
      fields.get? (Number.writeNatural id) = some text ∧
      patchedEntry (pipelineKey targetId) text p = .ok e₁ ∧
      patchedEntry (pipelineKey targetId) e₁.toText q = .ok e₂ ∧
      d₂ = d.putHash (pipelineKey targetId)
        (fields.insert (Number.writeNatural id) e₂.toText) := by
  rcases (on_updateStatic_eq_ok targetId id p d d₁ e₁).mp h₁ with
    ⟨fields, text, hfields, htext, hfirst, rfl⟩
  rcases (on_updateStatic_eq_ok targetId id q _ d₂ e₂).mp h₂ with
    ⟨fields', text', hfields', htext', hsecond, rfl⟩
  rw [Store.hashAt_putHash, if_pos rfl] at hfields'
  cases hfields'
  rw [Dict.get?_insert, if_pos rfl] at htext'
  cases htext'
  refine ⟨fields, text, hfields, htext, hfirst, hsecond, ?_⟩
  rw [Store.putHash_putHash, Dict.insert_insert]

end Store

end Registry

/-- Stores that agree but for one entry. -/
structure Store.Beside (targetId : String) (id : Nat) (before after : Store) : Prop where
  keys : ∀ key, key ≠ pipelineKey targetId → after.get? key = before.get? key
  fields : ∀ name, name ≠ Number.writeNatural id →
    after.field? (pipelineKey targetId) name = before.field? (pipelineKey targetId) name
  counter : after.get? counterKey = before.get? counterKey

namespace Registry

/-- No update touches anything but its entry. -/
theorem beside_updateStatic (targetId : String) (id : Nat) (patch : List (String × Json))
    (d : Store) : Store.Beside targetId id d (on (updateStatic targetId id patch) d).2 := by
  rcases hrun : on (updateStatic targetId id patch) d with ⟨result, d'⟩
  cases result with
  | error fault =>
    rw [store_of_updateStatic_error targetId id patch d d' fault hrun]
    exact ⟨fun _ _ => rfl, fun _ _ => rfl, rfl⟩
  | ok e =>
    rcases (on_updateStatic_eq_ok targetId id patch d d' e).mp hrun with
      ⟨fields, text, hfields, -, -, rfl⟩
    have hkeys : ∀ key, key ≠ pipelineKey targetId →
        (d.putHash (pipelineKey targetId)
          (fields.insert (Number.writeNatural id) e.toText)).get? key = d.get? key := by
      intro key hkey
      rw [Store.get?_putHash, if_neg hkey]
    refine ⟨hkeys, fun name hname => ?_, hkeys _ (pipelineKey_ne_counterKey targetId).symm⟩
    rw [Store.field?_putHash, if_pos rfl, Dict.get?_insert, if_neg hname,
      Store.field?_of_hashAt d _ name fields hfields]

/-- Updates of one entry, with patches each of which is an object. Two that succeed one after the
    other do what the second over the first does at once; the same update again changes nothing;
    and patches of different fields that succeed in either order give the same in both. An update
    that succeeds leaves every field as it was that its patch does not name, and returns the entry
    that is then read. One that fails changes nothing, and none touches anything but its entry. -/
theorem updateStatic_composes (d : Store) (targetId : String) (id : Nat)
    (p q : List (String × Json)) (hp : Json.Distinct p) :
    (∀ e₁ d₁ e₂ d₂, on (updateStatic targetId id p) d = (.ok e₁, d₁) →
      on (updateStatic targetId id q) d₁ = (.ok e₂, d₂) →
      on (updateStatic targetId id (Json.mergeMembers p q)) d = (.ok e₂, d₂)) ∧
    (∀ e₁ d₁, on (updateStatic targetId id p) d = (.ok e₁, d₁) →
      on (updateStatic targetId id p) d₁ = (.ok e₁, d₁)) ∧
    ((∀ name ∈ p.map Prod.fst, name ∉ q.map Prod.fst) →
      ∀ e₁ d₁ e₂ d₂ e₃ d₃ e₄ d₄, on (updateStatic targetId id p) d = (.ok e₁, d₁) →
        on (updateStatic targetId id q) d₁ = (.ok e₂, d₂) →
        on (updateStatic targetId id q) d = (.ok e₃, d₃) →
        on (updateStatic targetId id p) d₃ = (.ok e₄, d₄) → e₂ = e₄ ∧ d₂ = d₄) ∧
    (∀ e₁ d₁, on (updateStatic targetId id p) d = (.ok e₁, d₁) →
      on (getStatic targetId id) d₁ = (.ok (some e₁), d₁) ∧
      ∀ e, on (getStatic targetId id) d = (.ok (some e), d) → ∀ name, name ∉ p.map Prod.fst →
        Json.find? name e₁.jsonMembers = Json.find? name e.jsonMembers) ∧
    (∀ fault d₁, on (updateStatic targetId id p) d = (.error fault, d₁) → d₁ = d) ∧
    Store.Beside targetId id d (on (updateStatic targetId id p) d).2 := by
  refine ⟨fun e₁ d₁ e₂ d₂ h₁ h₂ => ?_, fun e₁ d₁ h₁ => ?_,
    fun hdisjoint e₁ d₁ e₂ d₂ e₃ d₃ e₄ d₄ h₁ h₂ h₃ h₄ => ?_, fun e₁ d₁ h₁ => ⟨?_, ?_⟩,
    fun fault d₁ h => store_of_updateStatic_error targetId id p d d₁ fault h,
    beside_updateStatic targetId id p d⟩
  · rcases on_updateStatic_after targetId id p q d d₁ d₂ e₁ e₂ h₁ h₂ with
      ⟨fields, text, hfields, htext, hfirst, hsecond, hstore⟩
    exact (on_updateStatic_eq_ok targetId id _ d d₂ e₂).mpr ⟨fields, text, hfields, htext,
      patchedEntry_mergeMembers text p q hp e₁ e₂ hfirst hsecond, hstore⟩
  · rcases (on_updateStatic_eq_ok targetId id p d d₁ e₁).mp h₁ with
      ⟨fields, text, hfields, htext, hpatched, rfl⟩
    refine (on_updateStatic_eq_ok targetId id p _ _ e₁).mpr
      ⟨fields.insert (Number.writeNatural id) e₁.toText, e₁.toText, ?_, ?_,
        patchedEntry_again text p e₁ hpatched, ?_⟩
    · rw [Store.hashAt_putHash, if_pos rfl]
    · rw [Dict.get?_insert, if_pos rfl]
    · rw [Store.putHash_putHash, Dict.insert_insert]
  · rcases on_updateStatic_after targetId id p q d d₁ d₂ e₁ e₂ h₁ h₂ with
      ⟨fields, text, hfields, htext, hfirst, hsecond, hstore⟩
    rcases on_updateStatic_after targetId id q p d d₃ d₄ e₃ e₄ h₃ h₄ with
      ⟨fields', text', hfields', htext', hthird, hfourth, hstore'⟩
    -- Both orders begin with the same entry.
    rw [hfields] at hfields'
    cases hfields'
    rw [htext] at htext'
    cases htext'
    have hsame := patchedEntry_comm text p q hdisjoint e₁ e₂ e₃ e₄ hfirst hsecond hthird hfourth
    exact ⟨hsame, by rw [hstore, hstore', hsame]⟩
  · rcases (on_updateStatic_eq_ok targetId id p d d₁ e₁).mp h₁ with
      ⟨fields, text, hfields, htext, hpatched, rfl⟩
    have hread := StaticEntry.ofText?_toText e₁ (storable_patchedEntry _ text p e₁ hpatched)
    rw [on_getStatic_hashAt targetId id _ (fields.insert (Number.writeNatural id) e₁.toText)
      (by rw [Store.hashAt_putHash, if_pos rfl]), Dict.get?_insert, if_pos rfl]
    simp [readEntry, hread]
  · intro e hold name hname
    rcases (on_updateStatic_eq_ok targetId id p d d₁ e₁).mp h₁ with
      ⟨fields, text, hfields, htext, hpatched, -⟩
    rw [on_getStatic_hashAt targetId id d fields hfields, htext] at hold
    refine find?_patchedEntry text p e e₁ ?_ hpatched name hname
    cases hread : StaticEntry.ofText? text with
    | none => simp [readEntry, hread] at hold
    | some stored => simpa [readEntry, hread] using hold

/-- An entry as it is put into a pipeline, and the pipeline with that entry alone. -/
def fresh : StaticEntry := { policyId := 1, filterName := "compress", executionOrder := 1 }

def freshHash : Dict String String := Dict.empty.insert (Number.writeNatural 1) fresh.toText

/-- A patch with a name that no entry has, and what it makes of the entry. -/
def orderPatch : List (String × Json) :=
  [("execution_order", .natural 5), ("params", .string "level=9"), ("note", .null)]

def reordered : StaticEntry :=
  { policyId := 1, filterName := "compress", executionOrder := 5, params := "level=9" }

/-- A patch with a bound on sizes that is given as an array, and what it makes of that. -/
def sizePatch : List (String × Json) :=
  [("object_size", .array [.string ">", .natural 1024]), ("params", .string "level=1")]

def resized : StaticEntry :=
  { policyId := 1, filterName := "compress", objectSize := some ⟨">", 1024⟩, executionOrder := 5,
    params := "level=1" }

/-- Two updates that both name the parameters. -/
theorem updateStatic_composes_fresh :
    Json.Distinct orderPatch ∧ ∃ d d₁ d₂, on (getStatic "t1" 1) d = (.ok (some fresh), d) ∧
      on (updateStatic "t1" 1 orderPatch) d = (.ok reordered, d₁) ∧
      on (updateStatic "t1" 1 sizePatch) d₁ = (.ok resized, d₂) ∧
      on (updateStatic "t1" 1 (Json.mergeMembers orderPatch sizePatch)) d = (.ok resized, d₂) := by
  have hdistinct : Json.Distinct orderPatch := by
    simp [Json.Distinct, orderPatch]
  have hfresh : fresh.Storable := ⟨by decide, by decide, fun _ hsize => by cases hsize⟩
  have hreordered : reordered.Storable := ⟨by decide, by decide, fun _ hsize => by cases hsize⟩
  have hfirst : patchedEntry (pipelineKey "t1") fresh.toText orderPatch = .ok reordered :=
    (patchedEntry_toText _ fresh hfresh orderPatch reordered).mpr (by decide +kernel)
  have hsecond : patchedEntry (pipelineKey "t1") reordered.toText sizePatch = .ok resized :=
    (patchedEntry_toText _ reordered hreordered sizePatch resized).mpr (by decide +kernel)
  -- What has just been put is found.
  have hhash := fun fields : Dict String String =>
    (Store.hashAt_putHash Dict.empty (pipelineKey "t1") (pipelineKey "t1") fields).trans
      (if_pos rfl)
  have hfield := fun (fields : Dict String String) (text : String) =>
    (Dict.get?_insert fields (Number.writeNatural 1) (Number.writeNatural 1) text).trans
      (if_pos rfl)
  have h₁ := (on_updateStatic_eq_ok "t1" 1 orderPatch
    (Store.putHash Dict.empty (pipelineKey "t1") freshHash) _ reordered).mpr
      ⟨_, _, hhash _, hfield _ _, hfirst, rfl⟩
  rw [Store.putHash_putHash] at h₁
  have h₂ := (on_updateStatic_eq_ok "t1" 1 sizePatch _ _ resized).mpr
    ⟨_, _, hhash (freshHash.insert _ reordered.toText), hfield _ _, hsecond, rfl⟩
  refine ⟨hdistinct, _, _, _, ?_, h₁, h₂,
    (updateStatic_composes _ "t1" 1 orderPatch sizePatch hdistinct).1 _ _ _ _ h₁ h₂⟩
  rw [on_getStatic_hashAt "t1" 1 _ freshHash (hhash _), freshHash, hfield]
  simp [readEntry, StaticEntry.ofText?_toText fresh hfresh]

end Registry

end StoragePolicy
