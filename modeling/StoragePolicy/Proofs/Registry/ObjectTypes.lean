import Mathlib.Data.List.Sort
import StoragePolicy.Registry.Catalog
import StoragePolicy.Proofs.Registry.Refinement
import StoragePolicy.Proofs.Registry.Scan
import StoragePolicy.Proofs.Store.Lists

/-!
# Object types as a table

That there is an object type is not written down anywhere: there is one as long as the list under
its key has items, since a list without items does not exist. So an object type disappears with its
last extension, and its name is free again. Seen from outside the registry keeps a finite table in
which every name has a list that is not empty, and every request is answered from the table: it is
refused where the table says so and has no effect then, and else it makes one change to the table.

## Main definitions

* `ObjectType.Table`: A finite table of lists of extensions.
* `ObjectType.Request`: What can be asked for, and the program that does it.
* `Request.refusal`, `Request.refusalCode`: Which requests are refused, and how.
* `Request.outcome`: What a request answers from a table, and what it makes of it.
* `Store.Keeps`: A store that keeps a table under the keys of object types.

## Theorems

* `exists_keeps`: A store keeps a table if there is nothing but lists under these keys.
* `on_program`: One request is answered from the table, and the store keeps what becomes of it.
* `answered_of_run`: The same for a request after any number of others.
-/

namespace StoragePolicy

open Registry

namespace ObjectType

/-- A finite table of lists of extensions. -/
abbrev Table := Dict String (List String)

/-- What can be asked for. -/
inductive Request where
  | list
  | get (name : String)
  | create (t : ObjectType)
  | replace (t : ObjectType)
  | delete (name : String)
  | removeItem (name extension : String)
  deriving Repr, DecidableEq

namespace Request

/-- What a request is answered with if it is not refused. -/
def Answer : Request → Type
  | .list => List ObjectType
  | .get _ => Option ObjectType
  | .create _ | .replace _ | .delete _ | .removeItem _ _ => Unit

/-- Carries a request out. -/
def program : (r : Request) → Registry r.Answer
  | .list => listObjectTypes
  | .get name => getObjectType name
  | .create t => createObjectType t
  | .replace t => replaceObjectType t
  | .delete name => deleteObjectType name
  | .removeItem name extension => removeExtension name extension

/-- Which requests are refused, by what the table holds, and the error that is given. -/
def refusal (m : Table) : Request → Option EngineError
  | .list | .get _ => none
  | .create t =>
    if Text.allBlank t.name.toList then some .objectTypeWithoutName
    else if t.extensions = [] then some .noExtensions
    else if m.contains t.name then some (.objectTypeExists t.name)
    else none
  | .replace t =>
    if Text.allBlank t.name.toList then some .objectTypeWithoutName
    else if t.extensions = [] then some .noExtensions
    else if m.contains t.name then none
    else some (.unknownObjectType t.name)
  | .delete name => if m.contains name then none else some (.unknownObjectType name)
  | .removeItem name extension =>
    if extension ∈ (m.get? name).getD [] then none else some (.unknownExtension extension name)

/-- The codes of the errors. -/
def refusalCode (m : Table) : Request → Option String
  | .list | .get _ => none
  | .create t =>
    if Text.allBlank t.name.toList = true ∨ t.extensions = [] then some "invalid_request"
    else if m.contains t.name then some "already_exists"
    else none
  | .replace t =>
    if Text.allBlank t.name.toList = true ∨ t.extensions = [] then some "invalid_request"
    else if m.contains t.name then none
    else some "not_found"
  | .delete name => if m.contains name then none else some "not_found"
  | .removeItem name extension =>
    if extension ∈ (m.get? name).getD [] then none else some "not_found"

/-- What is seen of a table: all its lines, one of them, or nothing. -/
def shown (m : Table) : (r : Request) → r.Answer
  | .list => m.entries.map fun line => ⟨line.1, line.2⟩
  | .get name => (m.get? name).map fun extensions => ⟨name, extensions⟩
  | .create _ | .replace _ | .delete _ | .removeItem _ _ => ()

/-- What becomes of a table. The first of the items that are equal to an extension is taken out, and
    a list of which nothing is left takes its line with it. -/
def changed (m : Table) : Request → Table
  | .list | .get _ => m
  | .create t | .replace t => m.insert t.name t.extensions
  | .delete name => m.erase name
  | .removeItem name extension =>
    let left := ((m.get? name).getD []).erase extension
    m.set name (if left = [] then none else some left)

/-- What a request answers from a table, and what it makes of it. -/
def outcome (m : Table) (r : Request) : Except EngineError r.Answer × Table :=
  match r.refusal m with
  | some e => (.error e, m)
  | none => (.ok (r.shown m), r.changed m)

/-- The two ways of telling a refusal agree. -/
theorem refusalCode_eq (m : Table) (r : Request) :
    r.refusalCode m = (r.refusal m).map EngineError.code := by
  cases r with
  | list | get name => rfl
  | create t | replace t =>
    simp only [refusalCode, refusal]
    by_cases hblank : Text.allBlank t.name.toList = true
    · rw [if_pos (Or.inl hblank), if_pos hblank]
      rfl
    · by_cases hempty : t.extensions = []
      · rw [if_pos (Or.inr hempty), if_neg hblank, if_pos hempty]
        rfl
      · rw [if_neg (not_or.mpr ⟨hblank, hempty⟩), if_neg hblank, if_neg hempty]
        split <;> rfl
  | delete name | removeItem name extension =>
    simp only [refusalCode, refusal]
    split <;> rfl

end Request

/-- A store after some requests, be they refused or not. -/
def makeAll (s : Store) (requests : List Request) : Store :=
  requests.foldl (fun s r => (on r.program s).2) s

/-- What has become of a table. -/
def tableAfter (m : Table) (requests : List Request) : Table :=
  requests.foldl (fun m r => (r.outcome m).2) m

/-- The code of the error that a request has ended in. -/
def errorCode? {α : Type} : Except EngineError α → Option String
  | .ok _ => none
  | .error e => some e.code

theorem errorCode?_outcome (m : Table) (r : Request) :
    errorCode? (r.outcome m).1 = (r.refusal m).map EngineError.code := by
  rw [Request.outcome]
  cases r.refusal m <;> rfl

end ObjectType

namespace Store

open ObjectType

/-- The table is what stands under the keys of object types: a list for each line. -/
structure Keeps (s : Store) (m : Table) : Prop where
  value (name : String) : s.get? (objectTypeKey name) = (m.get? name).map .list
  nonempty (name : String) (extensions : List String) (h : m.get? name = some extensions) :
    extensions ≠ []

/-- A request is answered from the table, and the store keeps what becomes of it; other keys are
    left alone, and if the request is refused all of them are. -/
def Serves (s : Store) (m : Table) (r : ObjectType.Request) : Prop :=
  ∃ t, on r.program s = ((r.outcome m).1, t) ∧ t.Keeps (r.outcome m).2 ∧
    (∀ key, (∀ name, key ≠ objectTypeKey name) → t.get? key = s.get? key) ∧
    ((r.refusal m).isSome = true → t = s)

/-- What the check of an object type can come to. -/
theorem checkObjectType_cases (o : ObjectType) :
    Text.allBlank o.name.toList = true ∧ checkObjectType o = .error .objectTypeWithoutName ∨
      ¬ Text.allBlank o.name.toList = true ∧ o.extensions = [] ∧
        checkObjectType o = .error .noExtensions ∨
      ¬ Text.allBlank o.name.toList = true ∧ o.extensions ≠ [] ∧ checkObjectType o = .ok () := by
  rw [checkObjectType]
  by_cases hblank : Text.allBlank o.name.toList = true
  · exact Or.inl ⟨hblank, if_pos hblank⟩
  · rw [if_neg hblank]
    cases hextensions : o.extensions with
    | nil => exact Or.inr (Or.inl ⟨hblank, rfl, rfl⟩)
    | cons _ _ => exact Or.inr (Or.inr ⟨hblank, List.cons_ne_nil _ _, rfl⟩)

theorem objectTypeKey_inj (a b : String) (h : objectTypeKey a = objectTypeKey b) : a = b :=
  append_right_inj _ _ _ h

/-- The lists under some keys are a table, since there are finitely many. -/
theorem exists_table (s : Store) (keys : List String) : ∃ m : Table, ∀ name extensions,
    m.get? name = some extensions ↔ objectTypeKey name ∈ keys ∧
      s.get? (objectTypeKey name) = some (.list extensions) := by
  induction keys with
  | nil => exact ⟨Dict.empty, by simp⟩
  | cons key rest ih =>
    rcases ih with ⟨m, hm⟩
    by_cases hkey : ∃ name extensions, key = objectTypeKey name ∧
        s.get? key = some (.list extensions)
    · rcases hkey with ⟨name, extensions, rfl, hget⟩
      refine ⟨m.insert name extensions, fun other items => ?_⟩
      rw [Dict.get?_insert, List.mem_cons]
      by_cases hother : other = name
      · rw [if_pos hother, hother, hget]
        simp
      · rw [if_neg hother, hm, or_iff_right fun heq => hother (objectTypeKey_inj _ _ heq)]
    · -- Under this key there is nothing that the table would have a line for.
      refine ⟨m, fun name extensions => (hm name extensions).trans ?_⟩
      rw [List.mem_cons]
      refine and_congr_left fun hget => (or_iff_right fun heq => hkey ?_).symm
      exact ⟨name, extensions, heq.symm, heq ▸ hget⟩

/-- A store keeps a table if nothing but lists that are not empty stands under these keys. -/
theorem exists_keeps (s : Store) (h : ∀ name value, s.get? (objectTypeKey name) = some value →
    ∃ extensions, extensions ≠ [] ∧ value = .list extensions) : ∃ m : Table, s.Keeps m := by
  rcases exists_table s s.keys with ⟨m, hm⟩
  have hvalue : ∀ name extensions, m.get? name = some extensions ↔
      s.get? (objectTypeKey name) = some (.list extensions) := by
    intro name extensions
    rw [hm, Dict.mem_keys_iff]
    exact and_iff_right_of_imp fun hget => by rw [hget]; rfl
  refine ⟨m, fun name => ?_, fun name extensions hget => ?_⟩
  · cases hget : s.get? (objectTypeKey name) with
    | none =>
      cases hline : m.get? name with
      | none => rfl
      | some extensions =>
        rw [(hvalue name extensions).mp hline] at hget
        exact nomatch hget
    | some value =>
      rcases h name value hget with ⟨extensions, -, rfl⟩
      rw [(hvalue name extensions).mpr hget]
      rfl
  · rcases h name _ ((hvalue name extensions).mp hget) with ⟨items, hitems, heq⟩
    cases heq
    exact hitems

section Keeps

variable (s : Store) (m : Table) (h : s.Keeps m)

include h

theorem contains_keeps (name : String) :
    Dict.contains s (objectTypeKey name) = m.contains name := by
  rw [Dict.contains, Dict.contains, h.value, Option.isSome_map]

theorem listAt_keeps (name : String) :
    s.listAt (objectTypeKey name) = .ok ((m.get? name).getD []) := by
  rw [listAt, h.value]
  cases m.get? name <;> rfl

/-- A list is put under one key. -/
theorem keeps_putList (name : String) (extensions : List String) :
    (s.putList (objectTypeKey name) extensions).Keeps
      (m.set name (if extensions = [] then none else some extensions)) where
  value other := by
    rw [get?_putList, Dict.get?_set]
    by_cases hother : other = name
    · subst hother
      rw [if_pos rfl, if_pos rfl]
      cases extensions <;> rfl
    · rw [if_neg hother, if_neg fun heq => hother (objectTypeKey_inj _ _ heq), h.value]
  nonempty other left hleft := by
    rw [Dict.get?_set] at hleft
    by_cases hother : other = name
    · rw [if_pos hother] at hleft
      by_cases hempty : extensions = []
      · rw [if_pos hempty] at hleft
        exact nomatch hleft
      · rw [if_neg hempty, Option.some.injEq] at hleft
        exact hleft ▸ hempty
    · rw [if_neg hother] at hleft
      exact h.nonempty other left hleft

/-- The keys of the object types are those of the lines, in the order of the names. -/
theorem keysUnder_keeps : s.keysUnder objectTypeStem = m.keys.map objectTypeKey := by
  have hstem : ∀ key ∈ s.keysUnder objectTypeStem,
      key = objectTypeKey (dropStem objectTypeStem key) := by
    intro key hkey
    rcases (mem_keysUnder_iff s _ key).mp hkey with ⟨name, rfl, -⟩
    rw [dropStem_append]
    rfl
  have hkeys : s.keysUnder objectTypeStem =
      ((s.keysUnder objectTypeStem).map (dropStem objectTypeStem)).map objectTypeKey := by
    rw [List.map_map]
    exact (List.map_id _).symm.trans (List.map_congr_left hstem)
  have hsorted : (s.keysUnder objectTypeStem).Pairwise fun a b => a < b :=
    (List.pairwise_map.mpr s.ascending).filter _
  rw [hkeys] at hsorted ⊢
  -- Both lists ascend, and so they are the same if they have the same names.
  refine congrArg _ (List.Pairwise.eq_of_mem_iff (r := fun a b : String => a < b) ?_
    (List.pairwise_map.mpr m.ascending) fun name => ?_)
  · exact (List.pairwise_map.mp hsorted).imp fun hlt => lt_of_append_lt objectTypeStem _ _ hlt
  · rw [List.mem_map, Dict.mem_keys_iff]
    have hline : (s.get? (objectTypeKey name)).isSome = (m.get? name).isSome := by
      rw [h.value, Option.isSome_map]
    constructor
    · rintro ⟨key, hkey, rfl⟩
      rcases (mem_keysUnder_iff s _ key).mp hkey with ⟨name, rfl, hget⟩
      rw [dropStem_append] at hline ⊢
      exact hline.symm.trans hget
    · intro hget
      exact ⟨objectTypeKey name, (mem_keysUnder_iff s _ _).mpr ⟨name, rfl, hline.trans hget⟩,
        dropStem_append _ _⟩

theorem on_objectTypesOf (names : List String) :
    on (objectTypesOf (names.map objectTypeKey)) s =
      (.ok (names.map fun name => ⟨name, (m.get? name).getD []⟩), s) := by
  induction names with
  | nil => rfl
  | cons name rest ih =>
    have hitems := on_ask_ok (.getItems (objectTypeKey name)) s _ (listAt_keeps s m h name)
    refine (on_bind_ok _ _ _ _ _ hitems).trans ((on_bind_ok _ _ _ _ _ ih).trans ?_)
    rw [objectTypeKey, dropStem_append]
    rfl

/-- All lines are listed, in the order of their names. -/
theorem on_listObjectTypes :
    on listObjectTypes s = (.ok (m.entries.map fun line => ⟨line.1, line.2⟩), s) := by
  have hkeys : on (ask (.keys objectTypeStem)) s = (.ok (m.keys.map objectTypeKey), s) := by
    rw [← keysUnder_keeps s m h, ← scanKeys_eq_keysUnder]
    rfl
  refine (on_bind_ok _ _ _ _ _ hkeys).trans ((on_objectTypesOf s m h m.keys).trans ?_)
  rw [Dict.keys, List.map_map]
  refine congrArg (fun types => (Except.ok types, s)) (List.map_congr_left fun line hline => ?_)
  rw [Function.comp, (Dict.mem_entries_iff m line.1 line.2).mp hline]
  rfl

theorem serves_of_refused (r : ObjectType.Request) (e : EngineError)
    (hrefusal : r.refusal m = some e) (hon : on r.program s = (.error e, s)) : s.Serves m r := by
  refine ⟨s, ?_, ?_, fun _ _ => rfl, fun _ => rfl⟩
  · rw [hon, ObjectType.Request.outcome, hrefusal]
  · rw [ObjectType.Request.outcome, hrefusal]
    exact h

theorem serves_of_read (r : ObjectType.Request) (hrefusal : r.refusal m = none)
    (hchanged : r.changed m = m) (hon : on r.program s = (.ok (r.shown m), s)) : s.Serves m r := by
  refine ⟨s, ?_, ?_, fun _ _ => rfl, fun _ => rfl⟩
  · rw [hon, ObjectType.Request.outcome, hrefusal]
  · rw [ObjectType.Request.outcome, hrefusal, hchanged]
    exact h

theorem serves_of_put (r : ObjectType.Request) (name : String) (extensions : List String)
    (hrefusal : r.refusal m = none)
    (hchanged : r.changed m = m.set name (if extensions = [] then none else some extensions))
    (hon : on r.program s = (.ok (r.shown m), s.putList (objectTypeKey name) extensions)) :
    s.Serves m r := by
  refine ⟨s.putList (objectTypeKey name) extensions, ?_, ?_,
    fun key hkey => get?_putList_of_ne s _ key _ (hkey name), ?_⟩
  · rw [hon, ObjectType.Request.outcome, hrefusal]
  · rw [ObjectType.Request.outcome, hrefusal, hchanged]
    exact keeps_putList s m h name extensions
  · rw [hrefusal]
    exact fun hnone => nomatch hnone

theorem serves_get (name : String) : s.Serves m (.get name) := by
  refine serves_of_read s m h _ rfl rfl ?_
  have hitems := on_ask_ok (.getItems (objectTypeKey name)) s _ (listAt_keeps s m h name)
  refine (on_bind_ok _ _ _ _ _ hitems).trans ?_
  rw [ObjectType.Request.shown]
  cases hline : m.get? name with
  | none => rfl
  | some extensions =>
    rw [Option.getD_some, if_neg fun hempty => h.nonempty name extensions hline
      (List.isEmpty_iff.mp hempty)]
    rfl

omit h in
theorem on_check_error {α : Type} (o : ObjectType) (e : EngineError) (f : Unit → Registry α)
    (hcheck : checkObjectType o = .error e) :
    on (Registry.ofExcept (checkObjectType o) >>= f) s = (.error e, s) :=
  on_bind_error _ _ _ _ _ (by rw [on_ofExcept, hcheck])

omit h in
theorem on_check_ok {α : Type} (o : ObjectType) (f : Unit → Registry α)
    (hcheck : checkObjectType o = .ok ()) :
    on (Registry.ofExcept (checkObjectType o) >>= f) s = on (f ()) s :=
  on_bind_ok _ _ _ _ _ (by rw [on_ofExcept, hcheck])

theorem on_contains (name : String) :
    on (ask (.contains (objectTypeKey name))) s = (.ok (m.contains name), s) :=
  on_ask_ok _ s _ (congrArg Except.ok (contains_keeps s m h name))

/-- An object type is created if it passes the check and there is none of its name. -/
theorem serves_create (o : ObjectType) : s.Serves m (.create o) := by
  have hcontains := on_contains s m h o.name
  rcases checkObjectType_cases o with ⟨hblank, hcheck⟩ | ⟨hblank, hempty, hcheck⟩ |
    ⟨hblank, hempty, hcheck⟩
  · exact serves_of_refused s m h _ _ (if_pos hblank) (on_check_error s o _ _ hcheck)
  · exact serves_of_refused s m h _ _ ((if_neg hblank).trans (if_pos hempty))
      (on_check_error s o _ _ hcheck)
  · have hrefusal : ObjectType.Request.refusal m (.create o) =
        if m.contains o.name then some (.objectTypeExists o.name) else none :=
      (if_neg hblank).trans (if_neg hempty)
    cases hline : m.contains o.name with
    | true =>
      rw [hline] at hcontains hrefusal
      exact serves_of_refused s m h _ _ hrefusal
        ((on_check_ok s o _ hcheck).trans (on_bind_ok _ _ _ _ _ hcontains))
    | false =>
      rw [hline] at hcontains hrefusal
      have hnone : m.get? o.name = none := Option.not_isSome_iff_eq_none.mp (by
        rw [← Dict.contains, hline]
        exact Bool.false_ne_true)
      have happend := mutate_append s (objectTypeKey o.name) [] o.extensions hempty
        (by rw [listAt_keeps s m h, hnone]; rfl)
      refine serves_of_put s m h _ o.name o.extensions hrefusal ?_ ?_
      · rw [if_neg hempty]
        rfl
      · exact (on_check_ok s o _ hcheck).trans
          ((on_bind_ok _ _ _ _ _ hcontains).trans (on_change _ _ _ happend))

/-- An object type is replaced if the new one passes the check and there is one of its name. The old
    list is taken away and the new one appended to nothing. -/
theorem serves_replace (o : ObjectType) : s.Serves m (.replace o) := by
  have hcontains := on_contains s m h o.name
  rcases checkObjectType_cases o with ⟨hblank, hcheck⟩ | ⟨hblank, hempty, hcheck⟩ |
    ⟨hblank, hempty, hcheck⟩
  · exact serves_of_refused s m h _ _ (if_pos hblank) (on_check_error s o _ _ hcheck)
  · exact serves_of_refused s m h _ _ ((if_neg hblank).trans (if_pos hempty))
      (on_check_error s o _ _ hcheck)
  · have hrefusal : ObjectType.Request.refusal m (.replace o) =
        if m.contains o.name then none else some (.unknownObjectType o.name) :=
      (if_neg hblank).trans (if_neg hempty)
    cases hline : m.contains o.name with
    | true =>
      rw [hline] at hcontains hrefusal
      -- Both changes are one call, so that nobody sees the store without the object type.
      have happend := mutate_append (s.putList (objectTypeKey o.name) []) (objectTypeKey o.name) []
        o.extensions hempty (listAt_putList s _ [])
      rw [putList_putList] at happend
      have hbatch := applyBatch_of_mutateAll s _ _
        ((mutateAll_cons_ok s _ _ _ (mutate_delete s (objectTypeKey o.name))).trans
          (mutateAll_cons_ok _ _ _ [] happend))
      have hon : on (ask (.apply [.delete (objectTypeKey o.name),
          .append (objectTypeKey o.name) o.extensions])) s =
            (.ok (), s.putList (objectTypeKey o.name) ([] ++ o.extensions)) := by
        rw [on_ask, exec, hbatch]
        rfl
      refine serves_of_put s m h _ o.name o.extensions hrefusal ?_ ?_
      · rw [if_neg hempty]
        rfl
      · exact (on_check_ok s o _ hcheck).trans ((on_bind_ok _ _ _ _ _ hcontains).trans hon)
    | false =>
      rw [hline] at hcontains hrefusal
      exact serves_of_refused s m h _ _ hrefusal
        ((on_check_ok s o _ hcheck).trans (on_bind_ok _ _ _ _ _ hcontains))

/-- An object type is deleted if there is one. -/
theorem serves_delete (name : String) : s.Serves m (.delete name) := by
  have hcontains := on_contains s m h name
  cases hline : m.contains name with
  | true =>
    rw [hline] at hcontains
    exact serves_of_put s m h _ name [] (if_pos hline) rfl
      ((on_bind_ok _ _ _ _ _ hcontains).trans (on_change _ _ _ (mutate_delete s _)))
  | false =>
    rw [hline] at hcontains
    exact serves_of_refused s m h _ _ (if_neg (by rw [hline]; exact Bool.false_ne_true))
      (on_bind_ok _ _ _ _ _ hcontains)

/-- An extension is taken out if it is there, and the object type with the last one. -/
theorem serves_removeItem (name extension : String) :
    s.Serves m (.removeItem name extension) := by
  have hlist := listAt_keeps s m h name
  have hitems := on_ask_ok (.getItems (objectTypeKey name)) s _ hlist
  by_cases hmem : extension ∈ (m.get? name).getD []
  · have hremove := mutate_removeItem s _ extension _ hlist
    refine serves_of_put s m h _ name _ (if_pos hmem) rfl ?_
    refine (on_bind_ok _ _ _ _ _ hitems).trans ?_
    rw [List.contains_iff_mem.mpr hmem]
    exact on_change _ _ _ hremove
  · refine serves_of_refused s m h _ _ (if_neg hmem) ((on_bind_ok _ _ _ _ _ hitems).trans ?_)
    rw [Bool.eq_false_iff.mpr fun hcontains => hmem (List.contains_iff_mem.mp hcontains)]
    rfl

/-- Every request is answered from the table. -/
theorem serves (r : ObjectType.Request) : s.Serves m r := by
  cases r with
  | list => exact serves_of_read s m h _ rfl rfl (on_listObjectTypes s m h)
  | get name => exact serves_get s m h name
  | create o => exact serves_create s m h o
  | replace o => exact serves_replace s m h o
  | delete name => exact serves_delete s m h name
  | removeItem name extension => exact serves_removeItem s m h name extension

/-- What a store and a table have become after some requests. -/
theorem keeps_makeAll (requests : List ObjectType.Request) :
    (ObjectType.makeAll s requests).Keeps (ObjectType.tableAfter m requests) ∧
      ∀ key, (∀ name, key ≠ objectTypeKey name) →
        (ObjectType.makeAll s requests).get? key = s.get? key := by
  induction requests generalizing s m with
  | nil => exact ⟨h, fun _ _ => rfl⟩
  | cons r rest ih =>
    rcases serves s m h r with ⟨t, hon, ht, hothers, -⟩
    have hstep : ObjectType.makeAll s (r :: rest) = ObjectType.makeAll t rest := by
      rw [ObjectType.makeAll, List.foldl_cons, hon]
      rfl
    rcases ih t _ ht with ⟨hkeeps, hrest⟩
    rw [hstep]
    exact ⟨hkeeps, fun key hkey => (hrest key hkey).trans (hothers key hkey)⟩

end Keeps

/-- Any store in which nothing but lists that are not empty stands under the keys of object types
    behaves as a table, whatever is asked for, refused or not: after any requests the next one gets
    the answer of the table, with the error and its code if it is refused. A refused request has no
    effect, and none has one on other keys. -/
theorem answered_of_run (s : Store)
    (h : ∀ name value, s.get? (objectTypeKey name) = some value →
      ∃ extensions, extensions ≠ [] ∧ value = .list extensions) :
    ∃ m : Table, s.Keeps m ∧ ∀ requests : List ObjectType.Request,
      (makeAll s requests).Keeps (tableAfter m requests) ∧
      (∀ key, (∀ name, key ≠ objectTypeKey name) →
        (makeAll s requests).get? key = s.get? key) ∧
      ∀ r : ObjectType.Request,
        (on r.program (makeAll s requests)).1 = (r.outcome (tableAfter m requests)).1 ∧
        errorCode? (on r.program (makeAll s requests)).1 = r.refusalCode (tableAfter m requests) ∧
        ((r.refusalCode (tableAfter m requests)).isSome = true →
          (on r.program (makeAll s requests)).2 = makeAll s requests) := by
  rcases exists_keeps s h with ⟨m, hm⟩
  refine ⟨m, hm, fun requests => ?_⟩
  rcases keeps_makeAll s m hm requests with ⟨hkeeps, hothers⟩
  refine ⟨hkeeps, hothers, fun r => ?_⟩
  rcases serves _ _ hkeeps r with ⟨t, hon, -, -, hsame⟩
  rw [ObjectType.Request.refusalCode_eq, Option.isSome_map, hon]
  exact ⟨rfl, errorCode?_outcome _ r, hsame⟩

/-- A store in which there is one object type. -/
def documents : Store := putList Dict.empty (objectTypeKey "DOCS") ["pdf", "docx", "pdf"]

theorem answered_of_run_documents :
    (∀ name value, documents.get? (objectTypeKey name) = some value →
      ∃ extensions, extensions ≠ [] ∧ value = .list extensions) ∧
      errorCode? (on (createObjectType ⟨"DOCS", ["txt"]⟩) documents).1 = some "already_exists" ∧
      (on (createObjectType ⟨"DOCS", ["txt"]⟩) documents).2 = documents := by
  have hlists : ∀ name value, documents.get? (objectTypeKey name) = some value →
      ∃ extensions, extensions ≠ [] ∧ value = .list extensions := by
    intro name value hget
    rw [documents, get?_putList] at hget
    by_cases hname : objectTypeKey name = objectTypeKey "DOCS"
    · rw [if_pos hname] at hget
      cases hget
      exact ⟨_, List.cons_ne_nil _ _, rfl⟩
    · rw [if_neg hname] at hget
      exact nomatch hget
  rcases answered_of_run documents hlists with ⟨m, hm, hrun⟩
  have hvalue := hm.value "DOCS"
  rw [documents, get?_putList, if_pos rfl] at hvalue
  rcases Option.map_eq_some_iff.mp hvalue.symm with ⟨extensions, hline, -⟩
  have hcode : ObjectType.Request.refusalCode m (.create ⟨"DOCS", ["txt"]⟩) =
      some "already_exists" := by
    have hfit : ¬ (Text.allBlank "DOCS".toList = true ∨ ["txt"] = []) := by decide
    rw [ObjectType.Request.refusalCode, if_neg hfit, Dict.contains, hline]
    rfl
  rcases (hrun []).2.2 (.create ⟨"DOCS", ["txt"]⟩) with ⟨-, hanswer, hsame⟩
  exact ⟨hlists, hanswer.trans hcode, hsame (by rw [tableAfter, List.foldl_nil, hcode]; rfl)⟩

end Store

end StoragePolicy
