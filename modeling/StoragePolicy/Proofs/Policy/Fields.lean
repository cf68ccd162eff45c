import StoragePolicy.Proofs.Json.Members
import StoragePolicy.Proofs.Policy.Static

/-!
# Entries field by field

An entry is decoded field by field: each field is found by its name and read on its own, or has a
default if it is not given. So what an entry is decoded from can be exchanged field by field too.
Under a patch may stand any members that give the same entry, be they as they have been stored, with
unknown names, missing fields and values in another form, or as the entry itself is written.

## Main definitions

* `Decoder.part`: The value of a field that may be missing.
* `StaticEntry.Given`: What is found under the names of fields gives an entry.

## Theorems

* `ofFields_eq_ok`, `ofMembers?_eq_some`: Entries are decoded field by field.
* `given_of_over`: What stands under a patch may be exchanged.
* `find?_jsonMembers_congr`: Fields that are found alike are alike.
* `given_of_text`: The members of a stored text give its entry.
-/

namespace StoragePolicy

namespace Decoder

/-- The value of a field: what is read of it, or what stands for it if it is missing. -/
def part {α : Type} (missing : Except DecodeFault α) (d : Decoder α) :
    Option Reading → Except DecodeFault α
  | some r => d r
  | none => missing

theorem required_eq_part {α : Type} (name : String) (d : Decoder α)
    (given : List (String × Reading)) :
    required name d given = part (.error .dataFault) d (given.lookup name) := by
  rw [required]
  cases given.lookup name <;> rfl

theorem withDefault_eq_part {α : Type} (name : String) (default : α) (d : Decoder α)
    (given : List (String × Reading)) :
    withDefault name default d given = part (.ok default) d (given.lookup name) := by
  rw [withDefault]
  cases given.lookup name <;> rfl

variable {α : Type} {missing : Except DecodeFault α} {d : Decoder α}

/-- Under a patch may stand whatever is read alike. -/
theorem part_of_over {patch under other : Option Reading} {a b : α}
    (hunder : part missing d under = .ok a) (hother : part missing d other = .ok a)
    (hpatched : part missing d (patch.or other) = .ok b) :
    part missing d (patch.or under) = .ok b := by
  cases patch with
  | some r => exact hpatched
  | none =>
    rw [Option.none_or] at hpatched ⊢
    rwa [hunder, ← hother]

/-- What is decoded of a text is decoded of its reading. -/
theorem ok_of_text? (d : Decoder α) (text : List Char) (a : α) (h : text? d text = .ok a) :
    d (Reading.ofText text).1 = .ok a := by
  rw [text?] at h
  dsimp only at h
  split at h
  · cases h
  · rename_i hread
    split at h
    · cases h
      exact hread
    · cases h

/-- What is found alike is read alike. -/
theorem part_congr {found other : Option Reading} {a b : α} (hfound : found = other)
    (h : part missing d found = .ok a) (h' : part missing d other = .ok b) : a = b := by
  rw [hfound, h'] at h
  exact (Except.ok.inj h).symm

/-- What is read of a value has been accepted. -/
theorem accept_of_part {name : String} {found : Option Reading} {a : α}
    (h : part missing d found = .ok a) {r : Reading} (hfound : found = some r) :
    (field name d).accept r = .ok () := by
  subst hfound
  exact (Outcome.map_eq_ok _ _ _).mpr ⟨a, h, rfl⟩

/-- What is read of a reading is read of a value that is made of it. -/
theorem part_of_rel (hd : Steady d) {found found' : Option Reading}
    (hrel : Option.Rel Json.Made found found') {a : α} (h : part missing d found = .ok a) :
    part missing d found' = .ok a := by
  cases hrel with
  | none => exact h
  | some hmade => exact hd _ _ a hmade h

end Decoder

namespace ObjectSize

/-- A bound is read of a value as of what it was made of. -/
theorem steady_decode : Decoder.Steady decode := by
  intro r r' size hmade hread
  rcases (Outcome.bind_eq_ok _ _ _).mp hread with ⟨given, hgiven, hrest⟩
  rcases (Outcome.bind_eq_ok _ _ _).mp hrest with ⟨operand, hoperand, hrest⟩
  rcases (Outcome.bind_eq_ok _ _ _).mp hrest with ⟨value, hvalue, hsize⟩
  have hknown : ∀ f ∈ [Decoder.field "operand" Decoder.string,
      Decoder.field "value" Decoder.natural], f.Steady := by
    simp [Decoder.steady_field, Decoder.steady_string, Decoder.steady_natural]
  rcases Decoder.fields_of_made _ hknown r r' hmade given hgiven with ⟨given', hgiven', hrel⟩
  rw [Decoder.required_eq_part] at hoperand hvalue
  have hoperand' := Decoder.part_of_rel Decoder.steady_string
    (hrel (Decoder.field "operand" Decoder.string) (by simp)) hoperand
  have hvalue' := Decoder.part_of_rel Decoder.steady_natural
    (hrel (Decoder.field "value" Decoder.natural) (by simp)) hvalue
  refine (Outcome.bind_eq_ok _ _ _).mpr ⟨given', hgiven', ?_⟩
  rw [Decoder.required_eq_part, Decoder.required_eq_part]
  exact (Outcome.bind_eq_ok _ _ _).mpr ⟨operand, hoperand',
    (Outcome.bind_eq_ok _ _ _).mpr ⟨value, hvalue', hsize⟩⟩

end ObjectSize

namespace StaticEntry

/-- What is found under the names of its fields gives an entry. -/
structure Given (found : String → Option Reading) (e : StaticEntry) : Prop where
  policyId : Decoder.part (.error .dataFault) Decoder.natural (found "policy_id") = .ok e.policyId
  filterName :
    Decoder.part (.error .dataFault) Decoder.string (found "filter_name") = .ok e.filterName
  objectType :
    Decoder.part (.ok none) (Decoder.option Decoder.string) (found "object_type") = .ok e.objectType
  objectSize :
    Decoder.part (.ok none) (Decoder.option ObjectSize.decode) (found "object_size") =
      .ok e.objectSize
  server :
    Decoder.part (.ok none) (Decoder.option Decoder.string) (found "execution_server") =
      .ok e.server
  reverse :
    Decoder.part (.ok none) (Decoder.option Decoder.string) (found "reverse") = .ok e.reverse
  executionOrder :
    Decoder.part (.error .dataFault) Decoder.natural (found "execution_order") =
      .ok e.executionOrder
  params : Decoder.part (.ok "") Decoder.string (found "params") = .ok e.params
  callable : Decoder.part (.ok false) Decoder.bool (found "callable") = .ok e.callable

/-- An entry is decoded field by field. -/
theorem ofFields_eq_ok (given : List (String × Reading)) (e : StaticEntry) :
    ofFields given = .ok e ↔ e.Given fun name => given.lookup name := by
  rw [ofFields]
  simp only [Decoder.required_eq_part, Decoder.withDefault_eq_part]
  constructor
  · intro h
    rcases (Outcome.bind_eq_ok _ _ _).mp h with ⟨id, hid, hrest⟩
    rcases (Outcome.bind_eq_ok _ _ _).mp hrest with ⟨name, hname, hrest⟩
    rcases (Outcome.bind_eq_ok _ _ _).mp hrest with ⟨type, htype, hrest⟩
    rcases (Outcome.bind_eq_ok _ _ _).mp hrest with ⟨size, hsize, hrest⟩
    rcases (Outcome.bind_eq_ok _ _ _).mp hrest with ⟨server, hserver, hrest⟩
    rcases (Outcome.bind_eq_ok _ _ _).mp hrest with ⟨reverse, hreverse, hrest⟩
    rcases (Outcome.bind_eq_ok _ _ _).mp hrest with ⟨order, horder, hrest⟩
    rcases (Outcome.bind_eq_ok _ _ _).mp hrest with ⟨params, hparams, hrest⟩
    rcases (Outcome.bind_eq_ok _ _ _).mp hrest with ⟨callable, hcallable, hrest⟩
    cases hrest
    exact ⟨hid, hname, htype, hsize, hserver, hreverse, horder, hparams, hcallable⟩
  · rintro ⟨hid, hname, htype, hsize, hserver, hreverse, horder, hparams, hcallable⟩
    rw [hid, hname, htype, hsize, hserver, hreverse, horder, hparams, hcallable]
    rfl

/-- The names of fields are all that matters. -/
theorem given_congr (found other : String → Option Reading) (e : StaticEntry)
    (h : ∀ f ∈ known, found f.name = other f.name) (hfound : e.Given found) : e.Given other := by
  simp only [known, List.forall_mem_cons, Decoder.field, List.not_mem_nil, false_implies,
    implies_true, and_true] at h
  rcases h with ⟨hid, hname, htype, hsize, hserver, hreverse, horder, hparams, hcallable⟩
  rcases hfound with ⟨gid, gname, gtype, gsize, gserver, greverse, gorder, gparams, gcallable⟩
  exact ⟨hid ▸ gid, hname ▸ gname, htype ▸ gtype, hsize ▸ gsize, hserver ▸ gserver,
    hreverse ▸ greverse, horder ▸ gorder, hparams ▸ gparams, hcallable ▸ gcallable⟩

/-- What gives an entry has been accepted for its fields. -/
theorem accept_of_given (found : String → Option Reading) (e : StaticEntry) (h : e.Given found)
    (f : Decoder.Field) (hf : f ∈ known) (r : Reading) (hr : found f.name = some r) :
    f.accept r = .ok () := by
  simp only [known, List.mem_cons, List.not_mem_nil, or_false] at hf
  rcases hf with rfl | rfl | rfl | rfl | rfl | rfl | rfl | rfl | rfl
  · exact Decoder.accept_of_part h.policyId hr
  · exact Decoder.accept_of_part h.filterName hr
  · exact Decoder.accept_of_part h.objectType hr
  · exact Decoder.accept_of_part h.objectSize hr
  · exact Decoder.accept_of_part h.server hr
  · exact Decoder.accept_of_part h.reverse hr
  · exact Decoder.accept_of_part h.executionOrder hr
  · exact Decoder.accept_of_part h.params hr
  · exact Decoder.accept_of_part h.callable hr

/-- What is found among members. -/
def among (members : List (String × Json)) (name : String) : Option Reading :=
  (Json.find? name members).map Json.toReading

/-- The members of an object give an entry if each field does. -/
theorem ofMembers?_eq_some (members : List (String × Json)) (h : Json.Distinct members)
    (e : StaticEntry) : ofMembers? members = some e ↔ e.Given (among members) := by
  -- The names under which fields are looked up are known, so that each finds its member.
  have hlookup : ∀ given, Decoder.knownMembers known [] (Json.toReadingMembers members) =
      .ok given → ∀ f ∈ known, given.lookup f.name = among members f.name := by
    intro given hgiven f hf
    rw [Decoder.lookup_knownMembers known f.name ⟨f, hf, rfl⟩ _ [] given hgiven,
      Json.lookup_toReadingMembers]
    rfl
  have hdecode : ofMembers? members = some e ↔
      decode (Json.object members).toReading = .ok e := by
    rw [ofMembers?, Json.decodeAs?]
    cases decode (Json.object members).toReading <;> simp [Except.toOption]
  rw [hdecode]
  constructor
  · intro hread
    rcases (Outcome.bind_eq_ok _ _ _).mp hread with ⟨given, hgiven, hfields⟩
    exact given_congr _ _ e (hlookup given hgiven) ((ofFields_eq_ok given e).mp hfields)
  · intro hgiven
    have haccepted : ∀ name f value, known.find? (fun f => f.name = name) = some f →
        (name, value) ∈ members → f.accept value.toReading = .ok () := by
      intro name f value hfind hmem
      have hname : f.name = name := by simpa using List.find?_some hfind
      refine accept_of_given _ e hgiven f (List.mem_of_find?_eq_some hfind) _ ?_
      rw [among, hname, (Json.find?_eq_some_iff members h name value).mpr hmem, Option.map_some]
    rcases Decoder.knownMembers_of_accepted known members h [] (by simp) haccepted with
      ⟨given, hknown⟩
    refine (Outcome.bind_eq_ok _ _ _).mpr ⟨given, hknown, (ofFields_eq_ok given e).mpr ?_⟩
    exact given_congr _ _ e (fun f hf => (hlookup given hknown f hf).symm) hgiven

theorem given_unique (found : String → Option Reading) (e e' : StaticEntry) (h : e.Given found)
    (h' : e'.Given found) : e = e' := by
  rcases e with ⟨id, name, type, size, server, reverse, order, params, callable⟩
  rcases e' with ⟨id', name', type', size', server', reverse', order', params', callable'⟩
  simp only [StaticEntry.mk.injEq]
  exact ⟨Decoder.part_congr rfl h.policyId h'.policyId,
    Decoder.part_congr rfl h.filterName h'.filterName,
    Decoder.part_congr rfl h.objectType h'.objectType,
    Decoder.part_congr rfl h.objectSize h'.objectSize,
    Decoder.part_congr rfl h.server h'.server,
    Decoder.part_congr rfl h.reverse h'.reverse,
    Decoder.part_congr rfl h.executionOrder h'.executionOrder,
    Decoder.part_congr rfl h.params h'.params,
    Decoder.part_congr rfl h.callable h'.callable⟩

/-- What stands under a patch may be exchanged for anything that gives the same entry. -/
theorem given_of_over (patch under other : String → Option Reading) (e e' : StaticEntry)
    (hunder : e.Given under) (hother : e.Given other)
    (hpatched : e'.Given fun name => (patch name).or (other name)) :
    e'.Given fun name => (patch name).or (under name) where
  policyId := Decoder.part_of_over hunder.policyId hother.policyId hpatched.policyId
  filterName := Decoder.part_of_over hunder.filterName hother.filterName hpatched.filterName
  objectType := Decoder.part_of_over hunder.objectType hother.objectType hpatched.objectType
  objectSize := Decoder.part_of_over hunder.objectSize hother.objectSize hpatched.objectSize
  server := Decoder.part_of_over hunder.server hother.server hpatched.server
  reverse := Decoder.part_of_over hunder.reverse hother.reverse hpatched.reverse
  executionOrder :=
    Decoder.part_of_over hunder.executionOrder hother.executionOrder hpatched.executionOrder
  params := Decoder.part_of_over hunder.params hother.params hpatched.params
  callable := Decoder.part_of_over hunder.callable hother.callable hpatched.callable

/-- Fields that are found alike are alike. -/
theorem find?_jsonMembers_congr (found other : String → Option Reading) (e e' : StaticEntry)
    (h : e.Given found) (h' : e'.Given other) (name : String) (hname : found name = other name) :
    Json.find? name e.jsonMembers = Json.find? name e'.jsonMembers := by
  refine Json.find?_congr _ _ name (.cons ⟨rfl, ?_⟩ <| .cons ⟨rfl, ?_⟩ <| .cons ⟨rfl, ?_⟩ <|
    .cons ⟨rfl, ?_⟩ <| .cons ⟨rfl, ?_⟩ <| .cons ⟨rfl, ?_⟩ <| .cons ⟨rfl, ?_⟩ <|
    .cons ⟨rfl, ?_⟩ <| .cons ⟨rfl, ?_⟩ .nil)
  all_goals
    dsimp only
    intro heq
    subst heq
  · exact congrArg Json.natural (Decoder.part_congr hname h.policyId h'.policyId)
  · exact congrArg Json.string (Decoder.part_congr hname h.filterName h'.filterName)
  · exact congrArg _ (Decoder.part_congr hname h.objectType h'.objectType)
  · exact congrArg _ (Decoder.part_congr hname h.objectSize h'.objectSize)
  · exact congrArg _ (Decoder.part_congr hname h.server h'.server)
  · exact congrArg _ (Decoder.part_congr hname h.reverse h'.reverse)
  · exact congrArg Json.natural (Decoder.part_congr hname h.executionOrder h'.executionOrder)
  · exact congrArg Json.string (Decoder.part_congr hname h.params h'.params)
  · exact congrArg Json.bool (Decoder.part_congr hname h.callable h'.callable)

/-- The members of an entry give it. -/
theorem given_jsonMembers (e : StaticEntry) (h : e.Storable) : e.Given (among e.jsonMembers) := by
  refine (ofMembers?_eq_some e.jsonMembers ?_ e).mp ?_
  · simp [Json.Distinct, jsonMembers]
  · rw [ofMembers?, Json.decodeAs?]
    exact congrArg Except.toOption (decode_toReading e h)

theorem steady_known : ∀ f ∈ known, f.Steady := by
  simp [known, Decoder.steady_field, Decoder.steady_natural, Decoder.steady_string,
    Decoder.steady_bool, Decoder.steady_option, ObjectSize.steady_decode]

/-- What is found may be exchanged for what is made of it. -/
theorem given_of_rel (found found' : String → Option Reading) (e : StaticEntry)
    (hrel : ∀ f ∈ known, Option.Rel Json.Made (found f.name) (found' f.name))
    (h : e.Given found) : e.Given found' := by
  simp only [known, List.forall_mem_cons, Decoder.field, List.not_mem_nil, false_implies,
    implies_true, and_true] at hrel
  rcases hrel with ⟨hid, hname, htype, hsize, hserver, hreverse, horder, hparams, hcallable⟩
  exact {
    policyId := Decoder.part_of_rel Decoder.steady_natural hid h.policyId
    filterName := Decoder.part_of_rel Decoder.steady_string hname h.filterName
    objectType :=
      Decoder.part_of_rel (Decoder.steady_option _ Decoder.steady_string) htype h.objectType
    objectSize :=
      Decoder.part_of_rel (Decoder.steady_option _ ObjectSize.steady_decode) hsize h.objectSize
    server := Decoder.part_of_rel (Decoder.steady_option _ Decoder.steady_string) hserver h.server
    reverse :=
      Decoder.part_of_rel (Decoder.steady_option _ Decoder.steady_string) hreverse h.reverse
    executionOrder := Decoder.part_of_rel Decoder.steady_natural horder h.executionOrder
    params := Decoder.part_of_rel Decoder.steady_string hparams h.params
    callable := Decoder.part_of_rel Decoder.steady_bool hcallable h.callable }

/-- What has been stored may be any object that reads as an entry. Its members give that entry. -/
theorem given_of_text (text : String) (members : List (String × Json)) (e : StaticEntry)
    (hmembers : Decoder.text? Json.decodeMembers text.toList = .ok members)
    (htext : ofText? text = some e) : e.Given (among members) := by
  -- The members and the entry come from the same text, but by different decoders.
  have hmade : ∀ r, Json.decodeMembers r = .ok members →
      Json.Made r (Json.object members).toReading := by
    intro r hr
    rcases Json.object_of_decodeMembers r members hr with ⟨parts, given, rfl, hgiven, rfl⟩
    refine ⟨Decoder.maxDepth, _, ?_, rfl⟩
    rw [Json.ofReading, if_neg (by decide), hgiven]
    rfl
  have hentry : Decoder.text? decode text.toList = .ok e := by
    rw [ofText?] at htext
    cases hread : Decoder.text? decode text.toList with
    | error fault =>
      rw [hread] at htext
      cases htext
    | ok other =>
      rw [hread] at htext
      cases htext
      rfl
  rcases (Outcome.bind_eq_ok _ _ _).mp (Decoder.ok_of_text? decode _ e hentry) with
    ⟨given, hgiven, hfields⟩
  rcases Decoder.fields_of_made known steady_known _ _
    (hmade _ (Decoder.ok_of_text? Json.decodeMembers _ members hmembers)) given hgiven with
    ⟨given', hgiven', hrel⟩
  refine given_congr _ _ e (fun f hf => ?_)
    (given_of_rel _ (fun name => given'.lookup name) e hrel ((ofFields_eq_ok given e).mp hfields))
  rw [Decoder.lookup_knownMembers known f.name ⟨f, hf, rfl⟩ _ [] given' hgiven',
    Json.lookup_toReadingMembers]
  rfl

end StaticEntry

end StoragePolicy
