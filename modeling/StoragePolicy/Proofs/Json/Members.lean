import Mathlib.Data.List.Nodup
import StoragePolicy.Json.Decode
import StoragePolicy.Proofs.Outcome

/-!
# Members of objects

An object has at most one member of each name, and so have the members of one object over those of
another. What a record is decoded from is found by name, whatever the order of the members and
whatever unknown members stand between them. So records can be compared field by field.

## Main definitions

* `Json.Distinct`: Members no two of which have one name.
* `Json.Made`: A reading and the one of the value that is made of it.
* `Decoder.Steady`: Decoders that read the same from the value as from what it was made of.

## Theorems

* `find?_merged`: What is found in members over others.
* `distinct_mergeMembers`, `distinct_of_decodeMembers`: Objects have distinct members.
* `knownMembers_cons_eq_ok`: What is done with the first member of an object.
* `lookup_knownMembers`, `knownMembers_of_accepted`: What a record finds of an object.
* `fields_of_made`: A record finds the same in the value as in what it was made of.
-/

namespace StoragePolicy

namespace Json

/-! ### Members by name -/

/-- Members no two of which have one name, as those of an object. -/
def Distinct (members : List (String × Json)) : Prop := (members.map Prod.fst).Nodup

theorem find?_nil (name : String) : find? name [] = none := rfl

theorem find?_cons (m : String × Json) (rest : List (String × Json)) (name : String) :
    find? name (m :: rest) = if m.1 = name then some m.2 else find? name rest := by
  by_cases h : m.1 = name <;> simp [find?, h]

theorem find?_append (members others : List (String × Json)) (name : String) :
    find? name (members ++ others) = (find? name members).or (find? name others) := by
  rw [find?, List.find?_append, Option.map_or]
  rfl

theorem find?_eq_some_iff (members : List (String × Json)) (h : Distinct members) (name : String)
    (value : Json) : find? name members = some value ↔ (name, value) ∈ members := by
  induction members with
  | nil => simp [find?]
  | cons m rest ih =>
    have hrest := List.nodup_cons.mp h
    rw [find?_cons, List.mem_cons]
    split
    · rename_i hname
      subst hname
      have hnot : (m.1, value) ∉ rest := fun hmem =>
        hrest.1 (List.mem_map.mpr ⟨_, hmem, rfl⟩)
      simp [hnot, Prod.ext_iff, eq_comm]
    · rename_i hname
      rw [ih hrest.2]
      simp [Prod.ext_iff, Ne.symm hname]

theorem find?_eq_none_iff (members : List (String × Json)) (name : String) :
    find? name members = none ↔ ∀ value, (name, value) ∉ members := by
  simp only [find?, Option.map_eq_none_iff, List.find?_eq_none, decide_eq_true_eq, Prod.forall]
  exact ⟨fun h value hmem => h name value hmem rfl, fun h other value hmem hname =>
    h value (hname ▸ hmem)⟩

theorem distinct_reverse (members : List (String × Json)) (h : Distinct members) :
    Distinct members.reverse := by
  rw [Distinct, List.map_reverse, List.nodup_reverse]
  exact h

theorem find?_reverse (members : List (String × Json)) (h : Distinct members) (name : String) :
    find? name members.reverse = find? name members := by
  refine Option.ext fun value => ?_
  rw [find?_eq_some_iff _ (distinct_reverse members h), find?_eq_some_iff _ h, List.mem_reverse]

/-- What is found under a name depends on the members of that name alone. -/
theorem find?_congr (members others : List (String × Json)) (name : String)
    (h : List.Forall₂ (fun m m' => m.1 = m'.1 ∧ (m.1 = name → m.2 = m'.2)) members others) :
    find? name members = find? name others := by
  induction h with
  | nil => rfl
  | @cons m m' rest rest' hfirst hrest ih =>
    rw [find?_cons, find?_cons, ← hfirst.1]
    split
    · rename_i hname
      rw [hfirst.2 hname]
    · exact ih

/-! ### Members over others -/

theorem map_fst_setMember (members : List (String × Json)) (name : String) (value : Json) :
    (setMember members name value).map Prod.fst =
      if name ∈ members.map Prod.fst then members.map Prod.fst
      else members.map Prod.fst ++ [name] := by
  induction members with
  | nil => rfl
  | cons m rest ih =>
    rw [setMember]
    by_cases hname : m.1 = name
    · simp [hname]
    · rw [if_neg hname, List.map_cons, ih]
      by_cases hmem : name ∈ rest.map Prod.fst
      · rw [if_pos hmem, List.map_cons, if_pos (List.mem_cons_of_mem _ hmem)]
      · rw [if_neg hmem, List.map_cons, if_neg, List.cons_append]
        exact fun h => (List.mem_cons.mp h).elim (Ne.symm hname) hmem

theorem distinct_setMember (members : List (String × Json)) (h : Distinct members) (name : String)
    (value : Json) : Distinct (setMember members name value) := by
  rw [Distinct, map_fst_setMember]
  split
  · exact h
  · rename_i hname
    exact List.nodup_append.mpr ⟨h, List.nodup_singleton name, fun a ha b hb heq =>
      hname (List.mem_singleton.mp hb ▸ heq ▸ ha)⟩

/-- Members of an object stay distinct whatever is put over them. -/
theorem distinct_mergeMembers (members patch : List (String × Json)) (h : Distinct members) :
    Distinct (mergeMembers members patch) := by
  induction patch generalizing members with
  | nil => exact h
  | cons m rest ih => exact ih _ (distinct_setMember members h m.1 m.2)

/-- What is put over members is found first, and of two with one name the last. -/
theorem find?_merged (members patch : List (String × Json)) (name : String) :
    find? name (mergeMembers members patch) =
      (find? name patch.reverse).or (find? name members) := by
  induction patch generalizing members with
  | nil => rfl
  | cons m rest ih =>
    have hstep := ih (setMember members m.1 m.2)
    rw [find?_setMember] at hstep
    rw [List.reverse_cons, find?_append, Option.or_assoc, find?_cons]
    refine hstep.trans (congrArg _ ?_)
    by_cases hname : name = m.1
    · rw [if_pos hname, if_pos hname.symm]
      rfl
    · rw [if_neg hname, if_neg (Ne.symm hname)]
      rfl

/-- The members that are decoded are those of an object. -/
theorem object_of_decodeMembers (r : Reading) (members : List (String × Json))
    (h : decodeMembers r = .ok members) :
    ∃ parts given, r = .object parts ∧ ofMembers (Decoder.maxDepth - 1) parts = .ok given ∧
      members = mergeMembers [] given := by
  cases r with
  | object parts =>
    rw [decodeMembers, decode, ofReading, if_neg (by decide)] at h
    cases hparts : ofMembers (Decoder.maxDepth - 1) parts with
    | error fault =>
      rw [hparts] at h
      cases h
    | ok given =>
      rw [hparts] at h
      cases h
      exact ⟨parts, given, rfl, hparts, rfl⟩
  | number n => cases n <;> exact nomatch h
  | string s => cases s <;> exact nomatch h
  | _ => exact nomatch h

theorem distinct_of_decodeMembers (r : Reading) (members : List (String × Json))
    (h : decodeMembers r = .ok members) : Distinct members := by
  rcases object_of_decodeMembers r members h with ⟨parts, given, -, -, rfl⟩
  exact distinct_mergeMembers [] given List.nodup_nil

theorem lookup_toReadingMembers (members : List (String × Json)) (name : String) :
    (toReadingMembers members).lookup name = (find? name members).map toReading := by
  induction members with
  | nil => rfl
  | cons m rest ih =>
    rcases m with ⟨other, value⟩
    rw [toReadingMembers, List.lookup_cons, ih]
    by_cases hname : other = name
    · simp [find?, hname]
    · have hne : (name == other) = false := by simpa using Ne.symm hname
      simp [find?, hname, hne]

end Json

/-! ### Fields among members -/

namespace Decoder

/-- What is done with the first member: one of no field is read over, and one of a field is accepted
    and kept if it is the first of its name. -/
theorem knownMembers_cons_eq_ok (known : List Field) (name : String) (value : Reading)
    (rest : List (String × Reading)) (seen : List String) (given : List (String × Reading)) :
    knownMembers known seen ((name, value) :: rest) = .ok given ↔
      ((known.find? fun f => f.name = name) = none ∧ skip value = .ok () ∧
        knownMembers known seen rest = .ok given) ∨
      ∃ f, (known.find? fun f => f.name = name) = some f ∧ name ∉ seen ∧
        f.accept value = .ok () ∧ ∃ others, knownMembers known (name :: seen) rest = .ok others ∧
          given = (name, value) :: others := by
  rw [knownMembers]
  cases hfind : known.find? fun f => f.name = name with
  | none =>
    dsimp only
    rw [Outcome.bind_eq_ok]
    constructor
    · rintro ⟨⟨⟩, hskip, hrest⟩
      exact Or.inl ⟨rfl, hskip, hrest⟩
    · rintro (⟨-, hskip, hrest⟩ | ⟨g, hg, -⟩)
      · exact ⟨(), hskip, hrest⟩
      · exact nomatch hg
  | some f =>
    by_cases hseen : name ∈ seen
    · simp [hseen]
    · dsimp only
      rw [if_neg (by simpa using hseen), Outcome.bind_eq_ok]
      constructor
      · rintro ⟨⟨⟩, haccepted, hrest⟩
        rcases (Outcome.bind_eq_ok _ _ _).mp hrest with ⟨others, hothers, hgiven⟩
        exact Or.inr ⟨f, rfl, hseen, haccepted, others, hothers, (Except.ok.inj hgiven).symm⟩
      · rintro (⟨hnone, -⟩ | ⟨g, hg, -, haccepted, others, hothers, rfl⟩)
        · exact nomatch hnone
        · cases hg
          exact ⟨(), haccepted, (Outcome.bind_eq_ok _ _ _).mpr ⟨others, hothers, rfl⟩⟩

/-- A member of no field has the name of none. -/
theorem beq_eq_false_of_find? (known : List Field) (name : String) (f : Field) (hf : f ∈ known)
    (h : (known.find? fun f => f.name = name) = none) : (f.name == name) = false := by
  simpa using List.find?_eq_none.mp h f hf

/-- What is known of an object is found where it stood. -/
theorem lookup_knownMembers (known : List Field) (name : String)
    (hknown : ∃ f ∈ known, f.name = name) (members : List (String × Reading)) (seen : List String)
    (given : List (String × Reading)) (h : knownMembers known seen members = .ok given) :
    given.lookup name = members.lookup name := by
  induction members generalizing seen given with
  | nil =>
    cases h
    rfl
  | cons m rest ih =>
    rcases m with ⟨other, value⟩
    rcases (knownMembers_cons_eq_ok known other value rest seen given).mp h with
      ⟨hnone, -, hrest⟩ | ⟨-, -, -, -, others, hothers, rfl⟩
    · rcases hknown with ⟨f, hf, rfl⟩
      rw [ih seen given hrest, List.lookup_cons, beq_eq_false_of_find? known other f hf hnone]
    · rw [List.lookup_cons, List.lookup_cons, ih _ others hothers]

mutual

/-- What has been made of a value can be read over. -/
theorem skip_toReading : ∀ value : Json, skip value.toReading = .ok ()
  | .null | .bool _ | .number _ | .string _ => rfl
  | .array items => skipItems_toReadings items
  | .object members => skipMembers_toReadingMembers members

theorem skipItems_toReadings : ∀ items : List Json, skipItems (Json.toReadings items) = .ok ()
  | [] => rfl
  | item :: rest => (Outcome.bind_eq_ok _ _ _).mpr
      ⟨(), skip_toReading item, skipItems_toReadings rest⟩

theorem skipMembers_toReadingMembers : ∀ members : List (String × Json),
    skipMembers (Json.toReadingMembers members) = .ok ()
  | [] => rfl
  | (_, value) :: rest => (Outcome.bind_eq_ok _ _ _).mpr
      ⟨(), skip_toReading value, skipMembers_toReadingMembers rest⟩

end

/-- An object gives a record its fields if each is accepted. -/
theorem knownMembers_of_accepted (known : List Field) (members : List (String × Json))
    (hdistinct : Json.Distinct members) (seen : List String)
    (hseen : ∀ name ∈ seen, name ∉ members.map Prod.fst)
    (haccepted : ∀ name f value, known.find? (fun f => f.name = name) = some f →
      (name, value) ∈ members → f.accept value.toReading = .ok ()) :
    ∃ given, knownMembers known seen (Json.toReadingMembers members) = .ok given := by
  induction members generalizing seen with
  | nil => exact ⟨[], rfl⟩
  | cons m rest ih =>
    rcases m with ⟨name, value⟩
    have hparts := List.nodup_cons.mp hdistinct
    have hrest := fun name f value hfind hmem =>
      haccepted name f value hfind (List.mem_cons_of_mem _ hmem)
    have hseenRest : ∀ other ∈ seen, other ∉ rest.map Prod.fst := fun other hother hmem =>
      hseen other hother (List.mem_cons_of_mem _ hmem)
    rw [Json.toReadingMembers]
    cases hfind : known.find? fun f => f.name = name with
    | none =>
      rcases ih hparts.2 seen hseenRest hrest with ⟨given, hgiven⟩
      exact ⟨given, (knownMembers_cons_eq_ok _ _ _ _ _ _).mpr
        (Or.inl ⟨hfind, skip_toReading value, hgiven⟩)⟩
    | some f =>
      -- Names do not repeat, so that this member is the first of its name.
      have hnew : name ∉ seen := fun hmem => hseen name hmem List.mem_cons_self
      have hsame : ∀ other ∈ name :: seen, other ∉ rest.map Prod.fst :=
        List.forall_mem_cons.mpr ⟨hparts.1, hseenRest⟩
      rcases ih hparts.2 (name :: seen) hsame hrest with ⟨given, hgiven⟩
      exact ⟨(name, value.toReading) :: given, (knownMembers_cons_eq_ok _ _ _ _ _ _).mpr
        (Or.inr ⟨f, hfind, hnew, haccepted name f value hfind List.mem_cons_self, given, hgiven,
          rfl⟩)⟩

end Decoder

/-! ### Readings and values -/

namespace Json

/-- A reading, and that of the value that is made of it. -/
def Made (r r' : Reading) : Prop :=
  ∃ depth value, ofReading depth r = .ok value ∧ r' = value.toReading

theorem made_items (depth : Nat) (items : List Reading) (values : List Json)
    (h : ofItems depth items = .ok values) : List.Forall₂ Made items (toReadings values) := by
  induction items generalizing values with
  | nil =>
    cases h
    exact .nil
  | cons item rest ih =>
    rcases (Outcome.bind_eq_ok _ _ _).mp h with ⟨value, hvalue, hrest⟩
    rcases (Outcome.bind_eq_ok _ _ _).mp hrest with ⟨others, hothers, hvalues⟩
    cases hvalues
    exact .cons ⟨depth, value, hvalue, rfl⟩ (ih others hothers)

theorem made_members (depth : Nat) (parts : List (String × Reading))
    (given : List (String × Json)) (h : ofMembers depth parts = .ok given) :
    List.Forall₂ (fun x y => x.1 = y.1 ∧ Made x.2 y.2.toReading) parts given := by
  induction parts generalizing given with
  | nil =>
    cases h
    exact .nil
  | cons part rest ih =>
    rcases (Outcome.bind_eq_ok _ _ _).mp h with ⟨value, hvalue, hrest⟩
    rcases (Outcome.bind_eq_ok _ _ _).mp hrest with ⟨others, hothers, hvalues⟩
    cases hvalues
    exact .cons ⟨rfl, depth, value, hvalue, rfl⟩ (ih others hothers)

/-- Readings without content of their own. -/
def Plain : Reading → Prop
  | .array _ | .object _ => False
  | _ => True

/-- A value is read as what it was made of, but for the content of arrays and objects. -/
theorem made_cases (r r' : Reading) (h : Made r r') :
    (r' = r ∧ Plain r) ∨
    (∃ items items', r = .array items ∧ r' = .array items' ∧ List.Forall₂ Made items items') ∨
    ∃ parts given, r = .object parts ∧ r' = .object (toReadingMembers (mergeMembers [] given)) ∧
      List.Forall₂ (fun x y => x.1 = y.1 ∧ Made x.2 y.2.toReading) parts given := by
  rcases h with ⟨depth, value, hvalue, rfl⟩
  cases r with
  | array items =>
    rw [ofReading] at hvalue
    split at hvalue
    · cases hvalue
    · rcases (Outcome.map_eq_ok _ _ _).mp hvalue with ⟨values, hvalues, rfl⟩
      exact Or.inr (Or.inl ⟨items, _, rfl, rfl, made_items _ items values hvalues⟩)
  | object parts =>
    rw [ofReading] at hvalue
    split at hvalue
    · cases hvalue
    · rcases (Outcome.map_eq_ok _ _ _).mp hvalue with ⟨given, hgiven, rfl⟩
      exact Or.inr (Or.inr ⟨parts, given, rfl, rfl, made_members _ parts given hgiven⟩)
  -- What is left reads as it was, if it is made into a value at all.
  | number n =>
    cases n <;> cases hvalue
    exact Or.inl ⟨rfl, trivial⟩
  | string s =>
    cases s <;> cases hvalue
    exact Or.inl ⟨rfl, trivial⟩
  | broken => cases hvalue
  | _ =>
    cases hvalue
    exact Or.inl ⟨rfl, trivial⟩

end Json

namespace Decoder

/-- Decoders that read the same from a value as from what it was made of. -/
def Steady {α : Type} (d : Decoder α) : Prop :=
  ∀ r r' a, Json.Made r r' → d r = .ok a → d r' = .ok a

/-- Fields that accept a value if they have accepted what it was made of. -/
def Field.Steady (f : Field) : Prop :=
  ∀ r r', Json.Made r r' → f.accept r = .ok () → f.accept r' = .ok ()

theorem steady_field {α : Type} (name : String) (d : Decoder α) (h : Steady d) :
    (field name d).Steady := by
  intro r r' hmade haccepted
  rcases (Outcome.map_eq_ok _ _ _).mp haccepted with ⟨a, ha, -⟩
  exact (Outcome.map_eq_ok _ _ _).mpr ⟨a, h r r' a hmade ha, rfl⟩

/-- What reads neither arrays nor objects is steady. -/
theorem steady_of_plain {α : Type} (d : Decoder α) (harray : ∀ items a, d (.array items) ≠ .ok a)
    (hobject : ∀ parts a, d (.object parts) ≠ .ok a) : Steady d := by
  intro r r' a hmade hread
  rcases Json.made_cases r r' hmade with ⟨rfl, -⟩ | ⟨items, -, rfl, -, -⟩ |
    ⟨parts, -, rfl, -, -⟩
  · exact hread
  · exact absurd hread (harray items a)
  · exact absurd hread (hobject parts a)

theorem steady_string : Steady string :=
  steady_of_plain string (fun _ _ h => nomatch h) fun _ _ h => nomatch h

theorem steady_natural : Steady natural :=
  steady_of_plain natural (fun _ _ h => nomatch h) fun _ _ h => nomatch h

theorem steady_bool : Steady bool :=
  steady_of_plain bool (fun _ _ h => nomatch h) fun _ _ h => nomatch h

/-- Null is made of null alone. -/
theorem steady_option {α : Type} (d : Decoder α) (h : Steady d) : Steady (option d) := by
  intro r r' a hmade hread
  rcases Json.made_cases r r' hmade with ⟨rfl, -⟩ | ⟨items, items', rfl, rfl, -⟩ |
    ⟨parts, given, rfl, rfl, -⟩
  · exact hread
  all_goals
    rcases (Outcome.map_eq_ok _ _ _).mp hread with ⟨b, hb, hab⟩
    exact (Outcome.map_eq_ok _ _ _).mpr ⟨b, h _ _ b hmade hb, hab⟩

theorem rel_lookup (given given' : List (String × Reading))
    (h : List.Forall₂ (fun x y => x.1 = y.1 ∧ Json.Made x.2 y.2) given given') (name : String) :
    Option.Rel Json.Made (given.lookup name) (given'.lookup name) := by
  induction h with
  | nil => exact .none
  | @cons x y rest rest' hfirst hrest ih =>
    rw [show x = (x.1, x.2) from rfl, show y = (y.1, y.2) from rfl, List.lookup_cons,
      List.lookup_cons, ← hfirst.1]
    split
    · exact .some hfirst.2
    · exact ih

/-- The items of an array are made one by one. -/
theorem knownItems_of_made (known : List Field) (hknown : ∀ f ∈ known, f.Steady)
    (items items' : List Reading) (hitems : List.Forall₂ Json.Made items items')
    (given : List (String × Reading)) (h : knownItems known items = .ok given) :
    ∃ given', knownItems known items' = .ok given' ∧
      List.Forall₂ (fun x y => x.1 = y.1 ∧ Json.Made x.2 y.2) given given' := by
  induction hitems generalizing known given with
  | nil =>
    rw [knownItems] at h
    cases h
    exact ⟨[], by rw [knownItems], .nil⟩
  | @cons item item' rest rest' hitem hrest ih =>
    cases known with
    | nil => exact nomatch h
    | cons f known =>
      rcases (Outcome.bind_eq_ok _ _ _).mp h with ⟨⟨⟩, haccepted, hbind⟩
      rcases (Outcome.bind_eq_ok _ _ _).mp hbind with ⟨others, hothers, hgiven⟩
      cases hgiven
      rcases ih known (fun g hg => hknown g (List.mem_cons_of_mem _ hg)) others hothers with
        ⟨others', hothers', hmade⟩
      refine ⟨(f.name, item') :: others', ?_, .cons ⟨rfl, hitem⟩ hmade⟩
      rw [knownItems, hknown f List.mem_cons_self item item' hitem haccepted, hothers']
      rfl

section Members

variable (known : List Field)

/-- A field that has been seen does not occur again. -/
theorem lookup_eq_none_of_seen (parts : List (String × Reading)) (seen : List String)
    (given : List (String × Reading)) (h : knownMembers known seen parts = .ok given)
    (f : Field) (hf : f ∈ known) (hseen : f.name ∈ seen) : parts.lookup f.name = none := by
  induction parts generalizing seen given with
  | nil => rfl
  | cons part rest ih =>
    rcases part with ⟨name, value⟩
    rw [List.lookup_cons]
    rcases (knownMembers_cons_eq_ok known name value rest seen given).mp h with
      ⟨hnone, -, hrest⟩ | ⟨-, -, hnew, -, others, hothers, -⟩
    · rw [beq_eq_false_of_find? known name f hf hnone]
      exact ih seen given hrest hseen
    · have hne : (f.name == name) = false := by
        rw [beq_eq_false_iff_ne]
        rintro rfl
        exact hnew hseen
      rw [hne]
      exact ih _ others hothers (List.mem_cons_of_mem _ hseen)

/-- The fields of an object have been accepted. -/
theorem accepted_of_knownMembers (parts : List (String × Reading)) (seen : List String)
    (given : List (String × Reading)) (h : knownMembers known seen parts = .ok given)
    (name : String) (f : Field) (hf : known.find? (fun f => f.name = name) = some f) (r : Reading)
    (hr : parts.lookup name = some r) : f.accept r = .ok () := by
  induction parts generalizing seen given with
  | nil => cases hr
  | cons part rest ih =>
    rcases part with ⟨other, value⟩
    rw [List.lookup_cons] at hr
    rcases (knownMembers_cons_eq_ok known other value rest seen given).mp h with
      ⟨hnone, -, hrest⟩ | ⟨g, hfind, -, haccepted, others, hothers, -⟩
    · split at hr
      · rename_i heq
        rw [← beq_iff_eq.mp heq, hf] at hnone
        cases hnone
      · exact ih seen given hrest hr
    · split at hr
      · rename_i heq
        cases hr
        rw [← beq_iff_eq.mp heq, hf] at hfind
        cases hfind
        exact haccepted
      · exact ih _ others hothers hr

/-- A field of an object occurs once, so that the first and the last of its name are one. -/
theorem rel_lookup_reverse (parts : List (String × Reading)) (made : List (String × Json))
    (hmade : List.Forall₂ (fun x y => x.1 = y.1 ∧ Json.Made x.2 y.2.toReading) parts made)
    (seen : List String) (given : List (String × Reading))
    (h : knownMembers known seen parts = .ok given) (f : Field) (hf : f ∈ known) :
    Option.Rel Json.Made (parts.lookup f.name)
      ((Json.find? f.name made.reverse).map Json.toReading) := by
  induction hmade generalizing seen given with
  | nil => exact .none
  | @cons part m rest others hfirst hrest ih =>
    rcases part with ⟨name, value⟩
    rcases m with ⟨name', value'⟩
    rcases hfirst with ⟨hnames, hvalue⟩
    dsimp only at hnames hvalue
    subst hnames
    rw [List.lookup_cons, List.reverse_cons, Json.find?_append, Json.find?_cons]
    obtain ⟨seen', given', hknown, hsame⟩ : ∃ seen' given',
        knownMembers known seen' rest = .ok given' ∧ (f.name = name → f.name ∈ seen') := by
      rcases (knownMembers_cons_eq_ok known name value rest seen given).mp h with
        ⟨hnone, -, hrest⟩ | ⟨-, -, -, -, others, hothers, -⟩
      · refine ⟨seen, given, hrest, fun hname => ?_⟩
        exact absurd (decide_eq_true hname) (List.find?_eq_none.mp hnone f hf)
      · exact ⟨_, others, hothers, fun hname => by rw [hname]; exact List.mem_cons_self⟩
    -- If the first member is of the field, no later one is, which the induction says of the others.
    have hothers := ih seen' given' hknown
    by_cases hname : f.name = name
    · rw [lookup_eq_none_of_seen known rest seen' given' hknown f hf (hsame hname)] at hothers
      cases hfind : Json.find? f.name others.reverse with
      | some held =>
        rw [hfind] at hothers
        exact nomatch hothers
      | none =>
        rw [beq_iff_eq.mpr hname, if_pos hname.symm]
        exact .some hvalue
    · rw [beq_eq_false_iff_ne.mpr hname, if_neg (Ne.symm hname), Json.find?_nil, Option.or_none]
      exact hothers

/-- A record has fields only if it is given as an object or an array. -/
theorem fields_ne_ok_of_plain (r : Reading) (hr : Json.Plain r) (given : List (String × Reading)) :
    fields known r ≠ .ok given := by
  intro h
  cases r with
  | array items => exact hr
  | object parts => exact hr
  | number n => cases n <;> exact nomatch h
  | string s => cases s <;> exact nomatch h
  | _ => exact nomatch h

/-- A record finds the same fields in a value as in what it was made of. -/
theorem fields_of_made (hknown : ∀ f ∈ known, f.Steady) (r r' : Reading) (h : Json.Made r r')
    (given : List (String × Reading)) (hgiven : fields known r = .ok given) :
    ∃ given', fields known r' = .ok given' ∧
      ∀ f ∈ known, Option.Rel Json.Made (given.lookup f.name) (given'.lookup f.name) := by
  rcases Json.made_cases r r' h with ⟨rfl, hplain⟩ | ⟨items, items', rfl, rfl, hitems⟩ |
    ⟨parts, made, rfl, rfl, hmade⟩
  · exact absurd hgiven (fields_ne_ok_of_plain known r' hplain given)
  · rcases knownItems_of_made known hknown items items' hitems given hgiven with
      ⟨given', hgiven', hrel⟩
    exact ⟨given', hgiven', fun f _ => rel_lookup given given' hrel f.name⟩
  · have hfound := fun f hf => rel_lookup_reverse known parts made hmade [] given hgiven f hf
    have hdistinct := Json.distinct_mergeMembers [] made List.nodup_nil
    have hmerged : ∀ name, Json.find? name (Json.mergeMembers [] made) =
        Json.find? name made.reverse := fun name => by
      rw [Json.find?_merged, Json.find?_nil, Option.or_none]
    -- A merged member is the last of its name, and so the one that has been accepted.
    have haccepted : ∀ name f value, known.find? (fun f => f.name = name) = some f →
        (name, value) ∈ Json.mergeMembers [] made → f.accept value.toReading = .ok () := by
      intro name f value hfind hmem
      have hf := List.mem_of_find?_eq_some hfind
      have hname : f.name = name := by simpa using List.find?_some hfind
      subst hname
      have hvalue := (Json.find?_eq_some_iff _ hdistinct _ _).mpr hmem
      have hrel := hfound f hf
      rw [← hmerged, hvalue] at hrel
      cases hlookup : parts.lookup f.name with
      | none =>
        rw [hlookup] at hrel
        exact nomatch hrel
      | some r =>
        rw [hlookup] at hrel
        cases hrel with
        | some hvalue =>
          exact hknown f hf r _ hvalue
            (accepted_of_knownMembers known parts [] given hgiven f.name f hfind r hlookup)
    rcases knownMembers_of_accepted known _ hdistinct [] (by simp) haccepted with
      ⟨given', hgiven'⟩
    refine ⟨given', hgiven', fun f hf => ?_⟩
    rw [lookup_knownMembers known f.name ⟨f, hf, rfl⟩ _ [] given hgiven,
      lookup_knownMembers known f.name ⟨f, hf, rfl⟩ _ [] given' hgiven',
      Json.lookup_toReadingMembers, hmerged]
    exact hfound f hf

end Members

end Decoder

end StoragePolicy
