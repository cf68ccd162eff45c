import Mathlib.Data.List.Sort
import StoragePolicy.Engine.Policies
import StoragePolicy.Proofs.Registry.Callers
import StoragePolicy.Proofs.Registry.Labels
import StoragePolicy.Proofs.Registry.Scan

/-!
# The list of all entries

All entries are listed at once, in the order of their execution, and of equal ones in the order of
their targets and names. The deletion of an entry takes it out of that list, and all others stay
where they are. Nothing in the list tells under which name an entry stands: it shows the id that
the entry carries.

## Main definitions

* `Store.listed`: The entries that are listed.

## Theorems

* `mem_listed_iff`: All entries are listed.
* `on_listStatic_none`: The list of all entries of legible pipelines.
* `listed_erase`: Taking an entry out of its pipeline takes it out of the list.
* `on_deleteStatic`, `field?_deleteStatic`, `get?_deleteStatic`: What a deletion does.
-/

namespace StoragePolicy

open Registry

/-- The entries of a dictionary stand around each of them. -/
theorem Dict.entries_erase {κ ν : Type} [SortKey κ] (d : Dict κ ν) (key : κ) (value : ν)
    (h : d.get? key = some value) :
    ∃ first last, d.entries = first ++ (key, value) :: last ∧
      (d.erase key).entries = first ++ last := by
  rcases List.append_of_mem ((mem_entries_iff d key value).mpr h) with ⟨first, last, hsplit⟩
  refine ⟨first, last, hsplit, ?_⟩
  have hascending := d.ascending
  rw [hsplit, List.pairwise_append, List.pairwise_cons] at hascending
  have hother : ∀ other : κ × ν, other ∈ first ++ last → other.1 ≠ key := by
    rintro other hmem rfl
    rcases List.mem_append.mp hmem with hfirst | hlast
    · exact SortKey.irrefl _ (hascending.2.2 other hfirst (other.1, value) List.mem_cons_self)
    · exact SortKey.irrefl _ (hascending.2.1.1 other hlast)
  change d.entries.filter (fun e => !decide (e.1 = key)) = first ++ last
  rw [hsplit, List.filter_append, List.filter_cons_of_neg (by simp), ← List.filter_append]
  exact List.filter_eq_self.mpr fun other hmem => by simpa using hother other hmem

namespace Store

/-! ### The list -/

/-- The entries in the hash under a key, in the order of their names. -/
def entriesUnder (d : Store) (key : String) : List StaticEntry :=
  match d.get? key with
  | some (.hash fields) => fields.values.filterMap StaticEntry.ofText?
  | _ => []

/-- The entries in the hash under a key, each with the target to which the key belongs. -/
def placedUnder (d : Store) (key : String) : List (String × StaticEntry) :=
  (d.entriesUnder key).map fun e => (dropStem pipelineStem key, e)

/-- All entries, each with its target, in the order of the targets. -/
def placed (d : Store) : List (String × StaticEntry) :=
  (d.keysUnder pipelineStem).flatMap d.placedUnder

/-- The entries that are listed: all of them, in execution order. -/
def listed (d : Store) : List (String × StaticEntry) :=
  inOrder (fun e => e.2.executionOrder) d.placed

theorem entriesUnder_of_hashAt (d : Store) (key : String) (fields : Dict String String)
    (hfields : d.hashAt key = .ok fields) :
    d.entriesUnder key = fields.values.filterMap StaticEntry.ofText? := by
  rw [hashAt] at hfields
  rw [entriesUnder]
  cases hget : d.get? key with
  | none =>
    rw [hget] at hfields
    cases hfields
    rfl
  | some value =>
    rw [hget] at hfields
    cases value with
    | hash given =>
      cases hfields
      rfl
    | scalar text => cases hfields
    | list items => cases hfields

theorem placedUnder_congr (s t : Store) (key : String) (h : s.get? key = t.get? key) :
    s.placedUnder key = t.placedUnder key := by
  rw [placedUnder, placedUnder, entriesUnder, entriesUnder, h]

theorem isSome_of_placedUnder (d : Store) (key : String) (h : d.placedUnder key ≠ []) :
    (d.get? key).isSome = true := by
  cases hget : d.get? key with
  | none =>
    rw [placedUnder, entriesUnder, hget] at h
    exact absurd rfl h
  | some value => rfl

theorem ascending_keysUnder (d : Store) (stem : String) :
    (d.keysUnder stem).Pairwise fun a b => a < b :=
  (List.pairwise_map.mpr d.ascending).filter _

/-- All entries of all pipelines are listed, whatever the names are under which they stand. -/
theorem mem_listed_iff (d : Store) (targetId : String) (e : StaticEntry) :
    (targetId, e) ∈ d.listed ↔ ∃ name, d.entryAt? targetId name = some e := by
  have hunder : e ∈ d.entriesUnder (pipelineKey targetId) ↔
      ∃ name, d.entryAt? targetId name = some e := by
    rw [entriesUnder]
    split
    · rename_i fields hget
      have hfield : ∀ name, d.field? (pipelineKey targetId) name = fields.get? name := by
        intro name
        rw [field?, hget]
      rw [List.mem_filterMap]
      constructor
      · rintro ⟨text, htext, hread⟩
        rcases List.mem_map.mp htext with ⟨⟨name, text⟩, hmem, rfl⟩
        refine ⟨name, Option.bind_eq_some_iff.mpr ⟨text, ?_, hread⟩⟩
        rw [hfield]
        exact (Dict.mem_entries_iff fields name text).mp hmem
      · rintro ⟨name, hentry⟩
        rcases Option.bind_eq_some_iff.mp hentry with ⟨text, htext, hread⟩
        rw [hfield] at htext
        exact ⟨text, List.mem_map_of_mem ((Dict.mem_entries_iff fields name text).mpr htext),
          hread⟩
    · rename_i hother
      simp [entryAt?, field?_of_not_hash d _ _ hother]
  -- The key of a pipeline tells the target with which its entries are listed.
  rw [← hunder, listed, (perm_inOrder _ _).mem_iff, placed, List.mem_flatMap]
  constructor
  · rintro ⟨key, hkey, hplaced⟩
    rcases List.mem_map.mp hplaced with ⟨e', he', heq⟩
    rcases (mem_keysUnder_iff d _ key).mp hkey with ⟨other, rfl, -⟩
    rw [dropStem_append] at heq
    cases heq
    exact he'
  · intro he
    have hplaced : (targetId, e) ∈ d.placedUnder (pipelineKey targetId) := by
      rw [placedUnder, pipelineKey, dropStem_append]
      exact List.mem_map_of_mem he
    have hsome := isSome_of_placedUnder d _ (List.ne_nil_of_mem hplaced)
    exact ⟨_, (mem_keysUnder_iff d _ _).mpr ⟨targetId, rfl, hsome⟩, hplaced⟩

/-- What is listed of legible pipelines can be held. -/
theorem storable_of_mem_listed (d : Store) (hd : d.Legible) (targetId : String) (e : StaticEntry)
    (he : (targetId, e) ∈ d.listed) : e.Storable := by
  rcases (mem_listed_iff d targetId e).mp he with ⟨name, hentry⟩
  rcases Option.bind_eq_some_iff.mp hentry with ⟨text, htext, hread⟩
  rcases hd targetId name text htext with ⟨stored, hstored, rfl⟩
  rw [StaticEntry.ofText?_toText stored hstored, Option.some.injEq] at hread
  rwa [← hread]

theorem flatMap_filter_of_ne_nil {α : Type} (part : String → List α) (keys : List String) :
    (keys.filter fun key => !(part key).isEmpty).flatMap part = keys.flatMap part := by
  induction keys with
  | nil => rfl
  | cons key rest ih =>
    rw [List.flatMap_cons, ← ih, List.filter_cons]
    cases hpart : part key with
    | nil => simp
    | cons a more => simp [hpart]

/-- Keys under which there is nothing may be left out. -/
theorem flatMap_eq_of_ascending {α : Type} (part : String → List α) (xs ys : List String)
    (hxs : xs.Pairwise fun a b => a < b) (hys : ys.Pairwise fun a b => a < b)
    (h : ∀ key, part key ≠ [] → (key ∈ xs ↔ key ∈ ys)) : xs.flatMap part = ys.flatMap part := by
  -- A key with an empty part may be left out. The keys that remain are the same in both lists.
  rw [← flatMap_filter_of_ne_nil part xs, ← flatMap_filter_of_ne_nil part ys]
  have : Std.Irrefl fun a b : String => a < b := ⟨String.lt_irrefl⟩
  have : Std.Antisymm fun a b : String => a < b :=
    ⟨fun a b hab hba => absurd (String.lt_trans hab hba) (String.lt_irrefl a)⟩
  refine congrArg _ ((hxs.filter _).eq_of_mem_iff (hys.filter _) fun key => ?_)
  rw [List.mem_filter, List.mem_filter]
  constructor
  · rintro ⟨hmem, hpart⟩
    exact ⟨(h key (by simpa using hpart)).mp hmem, hpart⟩
  · rintro ⟨hmem, hpart⟩
    exact ⟨(h key (by simpa using hpart)).mpr hmem, hpart⟩

section Erase

variable (d after : Store) (targetId name : String) (fields : Dict String String)
  (hfields : d.hashAt (pipelineKey targetId) = .ok fields)
  (herased : after.hashAt (pipelineKey targetId) = .ok (fields.erase name))
  (hothers : ∀ other, other ≠ targetId →
    after.get? (pipelineKey other) = d.get? (pipelineKey other))

include hfields herased

/-- Without the text under its name an entry is missing among those of its target. -/
theorem placedUnder_erase (text : String) (e : StaticEntry) (htext : fields.get? name = some text)
    (he : StaticEntry.ofText? text = some e) :
    ∃ first last, d.placedUnder (pipelineKey targetId) = first ++ (targetId, e) :: last ∧
      after.placedUnder (pipelineKey targetId) = first ++ last := by
  rcases fields.entries_erase name text htext with ⟨first, last, hentries, hleft⟩
  rw [placedUnder, placedUnder, entriesUnder_of_hashAt d _ _ hfields,
    entriesUnder_of_hashAt after _ _ herased, Dict.values, Dict.values, hentries, hleft,
    pipelineKey, dropStem_append]
  refine ⟨((first.map Prod.snd).filterMap StaticEntry.ofText?).map fun e => (targetId, e),
    ((last.map Prod.snd).filterMap StaticEntry.ofText?).map fun e => (targetId, e), ?_, ?_⟩
  · rw [List.map_append, List.map_cons, List.filterMap_append, List.filterMap_cons_some he,
      List.map_append, List.map_cons]
  · rw [List.map_append, List.filterMap_append, List.map_append]

include hothers

/-- Taking an entry out of its pipeline takes it out of the list, in which all others keep their
    places. -/
theorem listed_erase (text : String) (e : StaticEntry) (htext : fields.get? name = some text)
    (he : StaticEntry.ofText? text = some e) :
    ∃ first last, d.listed = first ++ (targetId, e) :: last ∧ after.listed = first ++ last := by
  have hget : (d.get? (pipelineKey targetId)).isSome = true := by
    rcases placedUnder_erase d after targetId name fields hfields herased text e htext he with
      ⟨first, last, hplaced, -⟩
    exact isSome_of_placedUnder d _ (by rw [hplaced]; simp)
  have hmem : pipelineKey targetId ∈ d.keysUnder pipelineStem :=
    (mem_keysUnder_iff d _ _).mpr ⟨targetId, rfl, hget⟩
  have hsame : ∀ key ∈ d.keysUnder pipelineStem, key ≠ pipelineKey targetId →
      after.placedUnder key = d.placedUnder key := by
    intro key hkey hne
    rcases (mem_keysUnder_iff d _ key).mp hkey with ⟨other, rfl, -⟩
    exact placedUnder_congr after d _ (hothers other fun heq => hne (by rw [heq]; rfl))
  -- The pipeline may have disappeared with its last entry; it is looked for all the same.
  have hafter : after.placed = (d.keysUnder pipelineStem).flatMap after.placedUnder := by
    refine flatMap_eq_of_ascending _ _ _ (ascending_keysUnder after _) (ascending_keysUnder d _)
      fun key hpart => ?_
    rw [mem_keysUnder_iff, mem_keysUnder_iff]
    constructor
    · rintro ⟨other, rfl, hsome⟩
      refine ⟨other, rfl, ?_⟩
      by_cases hother : other = targetId
      · rw [hother]
        exact hget
      · exact (congrArg Option.isSome (hothers other hother)).symm.trans hsome
    · rintro ⟨other, rfl, -⟩
      exact ⟨other, rfl, isSome_of_placedUnder after _ hpart⟩
  rcases List.append_of_mem hmem with ⟨before, behind, hkeys⟩
  have hnodup : (d.keysUnder pipelineStem).Nodup := (Dict.nodup_keys d).filter _
  have hpart : ∀ keys : List String, (∀ key ∈ keys, key ∈ d.keysUnder pipelineStem ∧
      key ≠ pipelineKey targetId) → keys.flatMap after.placedUnder = keys.flatMap d.placedUnder :=
    fun keys hall => List.flatMap_congr fun key hkey =>
      hsame key (hall key hkey).1 (hall key hkey).2
  rw [hkeys, List.nodup_append, List.nodup_cons] at hnodup
  have hbefore := hpart before fun key hkey => ⟨by rw [hkeys]; exact List.mem_append_left _ hkey,
    hnodup.2.2 key hkey _ List.mem_cons_self⟩
  have hbehind := hpart behind fun key hkey => ⟨by rw [hkeys]; simp [hkey], by
    rintro rfl
    exact hnodup.2.1.1 hkey⟩
  rcases placedUnder_erase d after targetId name fields hfields herased text e htext he with
    ⟨first, last, hplaced, hleft⟩
  rw [listed, listed, hafter, placed, hkeys, List.flatMap_append, List.flatMap_append,
    List.flatMap_cons, List.flatMap_cons, hbefore, hbehind, hplaced, hleft]
  rcases inOrder_append_cons (fun e : String × StaticEntry => e.2.executionOrder)
    (before.flatMap d.placedUnder ++ first) (last ++ behind.flatMap d.placedUnder) (targetId, e)
    with ⟨front, back, hwith, hwithout⟩
  refine ⟨front, back, ?_, ?_⟩
  · rw [← hwith]
    simp only [List.append_assoc, List.cons_append]
  · rw [← hwithout]
    simp only [List.append_assoc]

end Erase

end Store

namespace Registry

variable (d : Store)

/-! ### Listing -/

theorem eq_filterMap_of_read (texts : List String) (entries : List StaticEntry)
    (h : List.Forall₂ (fun text e => StaticEntry.ofText? text = some e) texts entries) :
    entries = texts.filterMap StaticEntry.ofText? := by
  induction h with
  | nil => rfl
  | cons hfirst _ ih => rw [List.filterMap_cons_some hfirst, ← ih]

/-- The entries of pipelines are read one pipeline after the other. -/
theorem on_entriesOfAll_keys (h : ∀ targetId, d.HashAt (pipelineKey targetId)) (hd : d.Legible)
    (keys : List String) (hkeys : ∀ key ∈ keys, ∃ targetId, key = pipelineKey targetId) :
    on (entriesOfAll (keys.map (dropStem pipelineStem))) d = (.ok (keys.flatMap fun key =>
      inOrder (fun e => e.2.executionOrder) (d.placedUnder key)), d) := by
  induction keys with
  | nil => rfl
  | cons key rest ih =>
    rcases hkeys key List.mem_cons_self with ⟨targetId, rfl⟩
    rcases h targetId with ⟨fields, hfields⟩
    rcases on_entriesOf d hd targetId fields hfields with ⟨entries, hread, hentries⟩
    have hplaced : d.placedUnder (pipelineKey targetId) =
        entries.map fun e => (targetId, e) := by
      rw [Store.placedUnder, Store.entriesUnder_of_hashAt d _ fields hfields,
        ← eq_filterMap_of_read _ _ hread, pipelineKey, Store.dropStem_append]
    have hstem : dropStem pipelineStem (pipelineKey targetId) = targetId :=
      Store.dropStem_append _ _
    rw [List.map_cons, hstem, entriesOfAll, on_bind_ok _ _ d d _ hentries,
      on_bind_ok _ _ d d _ (ih fun other hother => hkeys other (List.mem_cons_of_mem _ hother)),
      List.flatMap_cons, hplaced,
      ← map_inOrder (fun e : String × StaticEntry => e.2.executionOrder) fun e => (targetId, e)]
    rfl

/-- The list of all entries of legible pipelines. -/
theorem on_listStatic_none (h : ∀ targetId, d.HashAt (pipelineKey targetId)) (hd : d.Legible) :
    on (listStatic none) d = (.ok d.listed, d) := by
  have hkeys : on (ask (.keys pipelineStem)) d = (.ok (d.keysUnder pipelineStem), d) := by
    rw [← Store.scanKeys_eq_keysUnder]
    rfl
  refine (on_bind_ok _ _ d d _ hkeys).trans ?_
  refine (on_bind_ok _ _ d d _ (on_entriesOfAll_keys d h hd _ fun key hkey => ?_)).trans ?_
  · rcases (Store.mem_keysUnder_iff d _ key).mp hkey with ⟨targetId, rfl, -⟩
    exact ⟨targetId, rfl⟩
  · rw [inOrder_flatMap]
    rfl

/-! ### Deleting -/

/-- The end of a deletion gives its answer and leaves the pipelines alone. -/
theorem on_reset_then (n : Nat) (h : d.Ledger n) (targetId : String) (found : Bool) :
    (on (do discard resetIfVacant; pure found : Registry Bool) d).1 = .ok found ∧
      (on (do discard resetIfVacant; pure found : Registry Bool) d).2.hashAt
        (pipelineKey targetId) = d.hashAt (pipelineKey targetId) := by
  rcases on_resetIfVacant d n h.counts with ⟨done, hdone⟩
  have hdiscard : on (discard resetIfVacant) d = (.ok (), (on resetIfVacant d).2) := by
    rw [on_discard, hdone]
    rfl
  refine ⟨?_, Store.hashAt_congr _ _ _ (get?_on _ _ (makes_reset_then _ found ?_) d)⟩
  · rw [on_bind_ok _ _ d _ () hdiscard]
    rfl
  · simp [Store.Call.changed, pipelineKey_ne_counterKey]

/-- A deletion takes the text of a name out of the pipeline, and tells whether there was one. -/
theorem on_deleteStatic (n : Nat) (h : d.Ledger n) (targetId : String) (id : Nat)
    (fields : Dict String String) (hfields : d.hashAt (pipelineKey targetId) = .ok fields) :
    (on (deleteStatic targetId id) d).1 = .ok (fields.get? (Number.writeNatural id)).isSome ∧
      (on (deleteStatic targetId id) d).2.hashAt (pipelineKey targetId) =
        .ok (fields.erase (Number.writeNatural id)) := by
  have hask := on_ask_getField d _ (Number.writeNatural id) fields hfields
  have hstep := fun f : Option String → Registry Bool => on_bind_ok _ f d d _ hask
  rw [deleteStatic, hstep]
  cases hget : fields.get? (Number.writeNatural id) with
  | none =>
    rw [Dict.erase_of_get?_eq_none _ _ hget, ← hfields]
    exact on_reset_then d n h targetId false
  | some text =>
    have hmutate := Store.mutate_deleteField d _ (Number.writeNatural id) fields hfields
    have hledger := (Store.ledger_deleteEntry d n targetId (Number.writeNatural id) h).1
    rw [Store.exec, Store.applyBatch_single d _ _ hmutate] at hledger
    have hleft : (d.putHash (pipelineKey targetId)
        (fields.erase (Number.writeNatural id))).hashAt (pipelineKey targetId) =
          .ok (fields.erase (Number.writeNatural id)) := by
      rw [Store.hashAt_putHash, if_pos rfl]
    rw [← hleft]
    simp only [Option.isSome_some, if_true]
    rw [on_bind_ok _ _ d _ () (on_change _ d _ hmutate)]
    exact on_reset_then _ n hledger targetId true

/-- A deletion changes nothing but the pipeline of its target and the counter. -/
theorem get?_deleteStatic (targetId : String) (id : Nat) (key : String)
    (hcounter : key ≠ counterKey) (hpipeline : key ≠ pipelineKey targetId) :
    (on (deleteStatic targetId id) d).2.get? key = d.get? key := by
  refine get?_on _ _ (makes_deleteStatic _ targetId id ?_ ?_ ?_) d
  · exact List.not_mem_nil
  · exact fun hmem => hpipeline (List.mem_singleton.mp hmem)
  · exact fun hmem => hcounter (List.mem_singleton.mp hmem)

/-- A deletion leaves all other fields of pipelines alone. -/
theorem field?_deleteStatic (n : Nat) (h : d.Ledger n) (targetId other name : String) (id : Nat)
    (hne : ¬ (other = targetId ∧ name = Number.writeNatural id)) :
    (on (deleteStatic targetId id) d).2.field? (pipelineKey other) name =
      d.field? (pipelineKey other) name := by
  by_cases hother : other = targetId
  · subst hother
    rcases h.pipelines other with ⟨fields, hfields⟩
    rw [Store.field?_of_hashAt _ _ name _ (on_deleteStatic d n h other id fields hfields).2,
      Store.field?_of_hashAt d _ name fields hfields, Dict.get?_erase,
      if_neg fun hname => hne ⟨rfl, hname⟩]
  · refine Store.field?_congr _ _ _ _ (get?_deleteStatic d targetId id _
      (pipelineKey_ne_counterKey other) fun heq => hother (append_right_inj _ _ _ heq))

end Registry

end StoragePolicy
