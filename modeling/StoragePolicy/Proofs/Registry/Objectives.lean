import StoragePolicy.Registry.Catalog
import StoragePolicy.Proofs.Text.Pieces
import StoragePolicy.Proofs.Registry.Scan

/-!
# Objectives by what they are about

An objective is about a filter, a name and a target, and the key under which it is stored puts the
three texts into one, with a colon behind each of the first two. Any text may be a filter or a name,
one with a colon, too, and then the key reads as that of another subject: the filter of a key ends
at its first colon and the name at its second. So what the registry keeps is a table whose lines are
the subjects that keys read as. A subject whose filter and name have no colon is what its own key
reads as, and as long as there are no others, the table has one line for each subject.

## Main definitions

* `Slo.Subject`: What an objective is about.
* `Slo.Subject.asRead`: What the key of a subject reads as.
* `Slo.Change`, `Slo.latest`: Putting and deleting objectives, and what is left of each.
* `Store.Tabulates`: What a registry answers that keeps a table of objectives.

## Theorems

* `asRead_eq_self_iff`: A subject is read back from its key if no colon is in the wrong place.
* `tabulates_of_lists`: A store that lists a table is answered from like that table.
* `tabulates_of_run`: What is answered after any number of changes.
-/

namespace StoragePolicy

namespace Slo

/-- What an objective is about. -/
structure Subject where
  filter : String
  name : String
  target : String
  deriving Repr, DecidableEq

/-- What an objective is about. -/
def subject (o : Slo) : Subject := ⟨o.filter, o.name, o.target⟩

namespace Subject

/-- The objective of a subject with a value. -/
def withValue (u : Subject) (value : String) : Slo := ⟨u.filter, u.name, u.target, value⟩

@[simp] theorem subject_withValue (u : Subject) (value : String) :
    (u.withValue value).subject = u := rfl

/-- The key under which the objective of a subject is stored. -/
def key (u : Subject) : String := storeKey u.filter u.name u.target

/-- Filter and name hold no colon. -/
def Plain (u : Subject) : Prop := ':' ∉ u.filter.toList ∧ ':' ∉ u.name.toList

instance (u : Subject) : Decidable u.Plain := inferInstanceAs (Decidable (_ ∧ _))

/-- What the key of a subject reads as. -/
def asRead (u : Subject) : Subject :=
  match Registry.sloParts? u.key with
  | some (filter, name, target) => ⟨filter, name, target⟩
  | none => u

theorem toList_key (u : Subject) : u.key.toList =
    keyStem.toList ++ (u.filter.toList ++ ':' :: (u.name.toList ++ ':' :: u.target.toList)) := by
  simp [key, storeKey, String.toList_append]

/-- A subject whose filter and name hold no colon is read back from its key. -/
theorem sloParts?_of_plain (u : Subject) (h : u.Plain) :
    Registry.sloParts? u.key = some (u.filter, u.name, u.target) := by
  have hfree : ∀ text : String, ':' ∉ text.toList →
      ∀ c ∈ text.toList, decide (c = ':') = false := by
    intro text hcolon c hc
    exact decide_eq_false fun heq => hcolon (heq ▸ hc)
  have hfilter := Text.cutFirst_append (· = ':') u.filter.toList
    (u.name.toList ++ ':' :: u.target.toList) ':' (hfree _ h.1) (decide_eq_true rfl)
  have hname := Text.cutFirst_append (· = ':') u.name.toList u.target.toList ':' (hfree _ h.2)
    (decide_eq_true rfl)
  rw [Registry.sloParts?, toList_key, ← String.length_toList, List.drop_left, hfilter]
  simp only [Option.bind_eq_bind, Option.bind_some, hname, Option.pure_def, String.ofList_toList]

/-- The key of a subject is that of one whose filter and name hold no colon. -/
theorem exists_plain (u : Subject) : ∃ v : Subject, v.Plain ∧ v.key = u.key := by
  -- Of the colons of a key two are left over when none is in filter and name.
  have hcount :
      2 ≤ (u.filter.toList ++ ':' :: (u.name.toList ++ ':' :: u.target.toList)).count ':' := by
    simp only [List.count_append, List.count_cons_self]
    omega
  have hkey := toList_key u
  generalize u.filter.toList ++ ':' :: (u.name.toList ++ ':' :: u.target.toList) = parts
    at hcount hkey
  rcases List.eq_append_cons_of_mem (List.count_pos_iff.mp (by omega : 0 < parts.count ':')) with
    ⟨filter, rest, rfl, hfilter⟩
  rw [List.count_append, List.count_cons_self, List.count_eq_zero.mpr hfilter] at hcount
  rcases List.eq_append_cons_of_mem (List.count_pos_iff.mp (by omega : 0 < rest.count ':')) with
    ⟨name, target, rfl, hname⟩
  refine ⟨⟨String.ofList filter, String.ofList name, String.ofList target⟩, ?_, ?_⟩
  · simp only [Plain, String.toList_ofList]
    exact ⟨hfilter, hname⟩
  · rw [← String.toList_inj, toList_key, hkey]
    simp only [String.toList_ofList]

/-- What a key reads as is the one subject of that key whose filter and name hold no colon. -/
theorem asRead_eq_iff (u v : Subject) : u.asRead = v ↔ v.Plain ∧ v.key = u.key := by
  have hread : ∀ w : Subject, w.Plain → w.key = u.key → u.asRead = w := by
    intro w hw hkey
    rw [asRead, ← hkey, sloParts?_of_plain w hw]
  rcases exists_plain u with ⟨w, hw, hkey⟩
  constructor
  · rintro rfl
    rw [hread w hw hkey]
    exact ⟨hw, hkey⟩
  · rintro ⟨hv, hvkey⟩
    exact hread v hv hvkey

theorem plain_asRead (u : Subject) : u.asRead.Plain := ((asRead_eq_iff u _).mp rfl).1

theorem key_asRead (u : Subject) : u.asRead.key = u.key := ((asRead_eq_iff u _).mp rfl).2

/-- A subject is read back from its key if no colon is in the wrong place. -/
theorem asRead_eq_self_iff (u : Subject) : u.asRead = u ↔ u.Plain := by
  rw [asRead_eq_iff]
  exact and_iff_left rfl

/-- Two subjects have one key if their keys read as the same subject. -/
theorem key_eq_iff (u v : Subject) : u.key = v.key ↔ u.asRead = v.asRead := by
  rw [asRead_eq_iff, key_asRead, eq_comm]
  exact (and_iff_right (plain_asRead v)).symm

end Subject

/-- A change to the objectives: one is put, or that of a subject is deleted. -/
inductive Change where
  | put (o : Slo)
  | delete (u : Subject)
  deriving Repr, DecidableEq

namespace Change

/-- What a change is about. -/
def subject : Change → Subject
  | .put o => o.subject
  | .delete u => u

/-- The change that a store sees, which knows subjects by their keys alone. -/
def asRead : Change → Change
  | .put o => .put (o.subject.asRead.withValue o.value)
  | .delete u => .delete u.asRead

/-- What a change does to a table of values. -/
def on (held : Subject → Option String) (u : Subject) : Change → Option String
  | .put o => if u = o.subject then some o.value else held u
  | .delete v => if u = v then none else held u

/-- Makes a change. -/
def program : Change → Registry Unit
  | .put o => Registry.putSlo o
  | .delete u => discard (Registry.deleteSlo u.filter u.name u.target)

theorem asRead_eq_self (c : Change) (h : c.subject.Plain) : c.asRead = c := by
  cases c with
  | put o => rw [asRead, (Subject.asRead_eq_self_iff o.subject).mpr h]; rfl
  | delete u => rw [asRead, (Subject.asRead_eq_self_iff u).mpr h]

end Change

/-- The value put last for a subject and not deleted since. -/
def latest (changes : List Change) : Subject → Option String :=
  changes.foldl (fun held c u => c.on held u) fun _ => none

/-- Makes changes, one after the other. -/
def makeAll : List Change → Registry Unit
  | [] => pure ()
  | c :: rest => do
    c.program
    makeAll rest

end Slo

namespace Store

open Slo

/-- The registry answers from a table of objectives: with the value of a subject, with whether there
    was one to delete, and with every line of the table once. -/
structure Tabulates (s : Store) (held : Subject → Option String) : Prop where
  get (u : Subject) : (Registry.on (Registry.getSlo u.filter u.name u.target) s).1 =
    .ok ((held u.asRead).map u.withValue)
  delete (u : Subject) : (Registry.on (Registry.deleteSlo u.filter u.name u.target) s).1 =
    .ok (held u.asRead).isSome
  list : ∃ slos, (Registry.on Registry.listSlos s).1 = .ok slos ∧
    (slos.map Slo.subject).Nodup ∧ ∀ o, o ∈ slos ↔ held o.subject = some o.value

/-- What stands under the keys of objectives is a table of them. -/
structure Lists (s : Store) (held : Subject → Option String) : Prop where
  value (u : Subject) : s.get? u.key = (held u.asRead).map .scalar
  plain (u : Subject) (text : String) (h : held u = some text) : u.Plain
  keys (key : String) (h : key ∈ s.keysUnder keyStem) : ∃ u : Subject, key = u.key

theorem key_mem_keysUnder_iff (s : Store) (u : Subject) :
    u.key ∈ s.keysUnder keyStem ↔ (s.get? u.key).isSome = true := by
  have hkey : u.key = keyStem ++ (u.filter ++ ":" ++ u.name ++ ":" ++ u.target) := by
    simp only [Subject.key, storeKey, String.append_assoc]
  rw [mem_keysUnder_iff]
  exact ⟨fun ⟨_, _, hget⟩ => hget, fun hget => ⟨_, hkey, hget⟩⟩

theorem lists_of_none (s : Store) (h : s.keysUnder keyStem = []) : s.Lists fun _ => none where
  value u := by
    have hnot : u.key ∉ s.keysUnder keyStem := by
      rw [h]
      exact List.not_mem_nil
    rw [key_mem_keysUnder_iff] at hnot
    exact Option.not_isSome_iff_eq_none.mp hnot
  plain u text h := nomatch h
  keys key hkey := by
    rw [h] at hkey
    exact absurd hkey List.not_mem_nil

theorem on_deleteSlo (s : Store) (u : Subject) :
    Registry.on (Registry.deleteSlo u.filter u.name u.target) s =
      (.ok (Dict.contains s u.key), s.erase u.key) := by
  rw [Registry.deleteSlo]
  refine (Registry.on_bind_ok _ _ _ _ _ (Registry.on_ask_ok (.contains u.key) s _ rfl)).trans ?_
  exact Registry.on_bind_ok _ _ _ _ _ (Registry.on_change _ s _ rfl)

section Lists

variable (s : Store) (held : Subject → Option String) (h : s.Lists held)

include h

/-- A change to the value of one subject. -/
theorem lists_set (u : Subject) (value : Option String) (t : Store)
    (ht : ∀ key, t.get? key = if key = u.key then value.map .scalar else s.get? key) :
    t.Lists fun v => if v = u.asRead then value else held v where
  value v := by
    rw [ht]
    by_cases hkey : v.key = u.key
    · rw [if_pos hkey, if_pos ((Subject.key_eq_iff v u).mp hkey)]
    · rw [if_neg hkey, if_neg fun heq => hkey ((Subject.key_eq_iff v u).mpr heq), h.value]
  plain v text hv := by
    by_cases hread : v = u.asRead
    · rw [hread]
      exact Subject.plain_asRead u
    · rw [if_neg hread] at hv
      exact h.plain v text hv
  keys key hkey := by
    rcases (mem_keysUnder_iff t _ _).mp hkey with ⟨rest, rfl, hget⟩
    rw [ht] at hget
    by_cases heq : keyStem ++ rest = u.key
    · exact ⟨u, heq⟩
    · rw [if_neg heq] at hget
      exact h.keys _ ((mem_keysUnder_iff s _ _).mpr ⟨rest, rfl, hget⟩)

/-- A change is made, and to the table it is the change as the store sees it. -/
theorem lists_change (c : Change) : ∃ t, Registry.on c.program s = (.ok (), t) ∧
    t.Lists fun u => c.asRead.on held u := by
  cases c with
  | put o =>
    refine ⟨s.insert o.subject.key (.scalar o.value), Registry.on_change _ s _ rfl, ?_⟩
    simp only [Change.asRead, Change.on, Subject.subject_withValue]
    exact lists_set s held h o.subject (some o.value) _ fun key => Dict.get?_insert s _ key _
  | delete u =>
    refine ⟨s.erase u.key, ?_, ?_⟩
    · rw [Change.program, Registry.on_discard, on_deleteSlo]
      rfl
    · simp only [Change.asRead, Change.on]
      exact lists_set s held h u none _ fun key => Dict.get?_erase s _ key

theorem on_get (u : Subject) :
    Registry.on (Registry.ask (.get u.key)) s = (.ok (held u.asRead), s) := by
  refine Registry.on_ask_ok (.get u.key) s (held u.asRead) ?_
  simp only [exec, scalarAt, h.value]
  cases held u.asRead <;> rfl

/-- Every objective that is read under a key is a line of the table. -/
theorem on_slosOf (keys : List String) (hkeys : ∀ key ∈ keys, key ∈ s.keysUnder keyStem) :
    ∃ slos, Registry.on (Registry.slosOf keys) s = (.ok slos, s) ∧
      slos.map (fun o => o.subject.key) = keys ∧
      ∀ o ∈ slos, held o.subject = some o.value := by
  induction keys with
  | nil => exact ⟨[], rfl, rfl, fun o ho => absurd ho List.not_mem_nil⟩
  | cons key rest ih =>
    rcases ih fun other hother => hkeys other (List.mem_cons_of_mem _ hother) with
      ⟨slos, hrest, hmap, hheld⟩
    -- A key that is listed belongs to a subject, which can be read from it.
    rcases h.keys key (hkeys key List.mem_cons_self) with ⟨u, rfl⟩
    have hsome := (key_mem_keysUnder_iff s u).mp (hkeys _ List.mem_cons_self)
    have hread := Subject.sloParts?_of_plain u.asRead (Subject.plain_asRead u)
    rw [Subject.key_asRead] at hread
    have hvalue := h.value u
    rcases Option.isSome_iff_exists.mp hsome with ⟨stored, hstored⟩
    rw [hstored] at hvalue
    rcases Option.map_eq_some_iff.mp hvalue.symm with ⟨text, htext, -⟩
    refine ⟨u.asRead.withValue text :: slos, ?_, ?_, ?_⟩
    · rw [Registry.slosOf, hread]
      refine (Registry.on_bind_ok _ _ _ _ _ (on_get s held h u)).trans ?_
      rw [htext]
      exact Registry.on_bind_ok _ _ _ _ _ hrest
    · rw [List.map_cons, hmap]
      exact congrArg (· :: rest) (Subject.key_asRead u)
    · intro o ho
      rcases List.mem_cons.mp ho with rfl | ho
      · exact htext
      · exact hheld o ho

/-- The list of all objectives has every line of the table once. -/
theorem on_listSlos : ∃ slos, Registry.on Registry.listSlos s = (.ok slos, s) ∧
    (slos.map Slo.subject).Nodup ∧ ∀ o, o ∈ slos ↔ held o.subject = some o.value := by
  rcases on_slosOf s held h _ fun _ hkey => hkey with ⟨slos, hon, hmap, hheld⟩
  refine ⟨slos, ?_, ?_, fun o => ⟨hheld o, fun ho => ?_⟩⟩
  · refine (Registry.on_bind_ok _ _ _ _ _ (Registry.on_ask_ok (.keys keyStem) s _ rfl)).trans ?_
    rw [scanKeys_eq_keysUnder]
    exact hon
  · have hnodup : (s.keysUnder keyStem).Nodup := (Dict.nodup_keys s).filter _
    rw [← hmap] at hnodup
    exact (List.pairwise_map.mp hnodup).map _ fun a b hne heq => hne (congrArg Subject.key heq)
  · have hplain := h.plain _ _ ho
    have hget : s.get? o.subject.key = some (.scalar o.value) := by
      rw [h.value, (Subject.asRead_eq_self_iff _).mpr hplain, ho]
      rfl
    have hmem : o.subject.key ∈ s.keysUnder keyStem := by
      rw [key_mem_keysUnder_iff, hget]
      rfl
    rw [← hmap, List.mem_map] at hmem
    rcases hmem with ⟨other, hother, hkey⟩
    -- Both are lines of the table, so both subjects are what the one key reads as.
    have hsubject : other.subject = o.subject := by
      rw [Subject.key_eq_iff, (Subject.asRead_eq_self_iff _).mpr hplain,
        (Subject.asRead_eq_self_iff _).mpr (h.plain _ _ (hheld other hother))] at hkey
      exact hkey
    have hvalue := hheld other hother
    rw [hsubject, ho, Option.some.injEq] at hvalue
    cases other
    cases o
    cases hsubject
    cases hvalue
    exact hother

/-- A store that lists a table is answered from like that table. -/
theorem tabulates_of_lists : s.Tabulates held where
  get u := congrArg Prod.fst (Registry.on_bind_ok _ _ _ _ _ (on_get s held h u))
  delete u := by
    have hcontains : Dict.contains s u.key = (held u.asRead).isSome := by
      rw [Dict.contains, h.value, Option.isSome_map]
    rw [← hcontains, on_deleteSlo]
  list := by
    rcases on_listSlos s held h with ⟨slos, hon, hslos⟩
    exact ⟨slos, congrArg Prod.fst hon, hslos⟩

/-- All changes are made, and to the table they are the changes as the store sees them. -/
theorem lists_makeAll (changes : List Change) : ∃ t,
    Registry.on (makeAll changes) s = (.ok (), t) ∧
      t.Lists ((changes.map Change.asRead).foldl (fun held c u => c.on held u) held) := by
  induction changes generalizing s held with
  | nil => exact ⟨s, rfl, h⟩
  | cons c rest ih =>
    rcases lists_change s held h c with ⟨s', hon, hs'⟩
    rcases ih s' _ hs' with ⟨t, hrest, ht⟩
    exact ⟨t, (Registry.on_bind_ok _ _ _ _ _ hon).trans hrest, ht⟩

end Lists

/-- Objectives can be put and deleted in any order, and the registry answers from the table of what
    is left, in which each subject counts as what its key reads as. That is the subject itself if
    neither filter nor name holds a colon. -/
theorem tabulates_of_run (s : Store) (hnone : s.keysUnder keyStem = []) (changes : List Change) :
    ∃ t, Registry.on (makeAll changes) s = (.ok (), t) ∧
      t.Tabulates (latest (changes.map Change.asRead)) ∧
      ((∀ c ∈ changes, c.subject.Plain) → t.Tabulates (latest changes)) ∧
      ∀ u : Subject, u.asRead = u ↔ u.Plain := by
  rcases lists_makeAll s _ (lists_of_none s hnone) changes with ⟨t, hon, ht⟩
  have htable := tabulates_of_lists t _ ht
  refine ⟨t, hon, htable, fun hplain => ?_, Subject.asRead_eq_self_iff⟩
  have hchanges : changes.map Change.asRead = changes :=
    (List.map_congr_left (g := id) fun c hc => Change.asRead_eq_self c (hplain c hc)).trans
      (List.map_id changes)
  rwa [hchanges] at htable

/-- An objective is put, another one is put twice and the first is deleted. -/
def threePuts : List Change :=
  [.put ⟨"bandwidth", "put_bw", "t1/photos:raw", "50"⟩, .put ⟨"cache", "hits", "t2", "10"⟩,
    .put ⟨"cache", "hits", "t2", "20"⟩, .delete ⟨"bandwidth", "put_bw", "t1/photos:raw"⟩]

theorem tabulates_of_run_three_puts : Store.keysUnder Dict.empty keyStem = [] ∧
    (∀ c ∈ threePuts, c.subject.Plain) ∧
    ∃ t, Registry.on (makeAll threePuts) Dict.empty = (.ok (), t) ∧
      (Registry.on (Registry.getSlo "cache" "hits" "t2") t).1 =
        .ok (some ⟨"cache", "hits", "t2", "20"⟩) ∧
      (Registry.on (Registry.deleteSlo "bandwidth" "put_bw" "t1/photos:raw") t).1 = .ok false := by
  have hplain : ∀ c ∈ threePuts, c.subject.Plain := by decide
  rcases tabulates_of_run Dict.empty rfl threePuts with ⟨t, hon, -, htable, hread⟩
  have hget := (htable hplain).get ⟨"cache", "hits", "t2"⟩
  have hdelete := (htable hplain).delete ⟨"bandwidth", "put_bw", "t1/photos:raw"⟩
  rw [(hread _).mpr (by decide)] at hget hdelete
  exact ⟨rfl, hplain, t, hon, hget, hdelete⟩

/-- An objective of the filter `a:b` is put and nothing else. Asked for the filter `a` and the name
    `b` the registry finds it, and it lists it as one of those. -/
theorem found_of_other_subject :
    let changes : List Change := [.put ⟨"a:b", "c", "d", "1"⟩]
    let t := (Registry.on (makeAll changes) Dict.empty).2
    latest changes ⟨"a", "b", "c:d"⟩ = none ∧
      (Registry.on (Registry.getSlo "a" "b" "c:d") t).1 = .ok (some ⟨"a", "b", "c:d", "1"⟩) ∧
      (Registry.on Registry.listSlos t).1 = .ok [⟨"a", "b", "c:d", "1"⟩] := by
  exact ⟨rfl, rfl, rfl⟩

end Store

end StoragePolicy
