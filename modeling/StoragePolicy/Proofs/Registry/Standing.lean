import StoragePolicy.Proofs.Registry.Listing

/-!
# Where the listed entries stand

Every entry stands in a place: in the pipeline of a target, under a name. The list of all entries
has one element for each place, and the list of one target is what the list of all has of it. That
the two agree where entries have the same execution order is not plain, since a list of all is put
together from lists that have been sorted before, but sorting is stable.

As long as every entry stands under the name of its execution order, and no name is used in two
pipelines, no two entries have the same execution order, and the list ascends strictly.

## Main definitions

* `Store.standing`: The entries with the places in which they stand.
* `Store.Enumerates`: Lists with one element for each place.
* `StaticEntry.NamedBy`: Texts of entries that stand under the name of one of their numbers.

## Theorems

* `mem_standing_iff`, `nodup_standing`: There is one entry in each place.
* `enumerates_listed`: The list of all entries has one element for each place.
* `filter_listed`, `on_listStatic_some`: The list of one target is a part of it.
* `distinct_listed`: When no two entries of a target have the same number.
* `ascends_listed`: When the list ascends strictly.
-/

namespace StoragePolicy

open Registry

namespace Store

/-! ### Places -/

/-- The entries in the hash under a key, each with the target and the name under which it stands. -/
def standingUnder (d : Store) (key : String) : List ((String × String) × StaticEntry) :=
  match d.get? key with
  | some (.hash fields) => fields.entries.filterMap fun f =>
      (StaticEntry.ofText? f.2).map fun e => ((dropStem pipelineStem key, f.1), e)
  | _ => []

/-- All entries, each with the place in which it stands, in the order of the places. -/
def standing (d : Store) : List ((String × String) × StaticEntry) :=
  (d.keysUnder pipelineStem).flatMap d.standingUnder

/-- An entry that stands somewhere as it is listed. -/
def shown (m : (String × String) × StaticEntry) : String × StaticEntry := (m.1.1, m.2)

theorem placedUnder_eq_map (d : Store) (key : String) :
    d.placedUnder key = (d.standingUnder key).map shown := by
  rw [placedUnder, entriesUnder, standingUnder]
  cases d.get? key with
  | none => rfl
  | some value =>
    cases value with
    | hash fields =>
      dsimp only
      rw [Dict.values, List.filterMap_map, List.map_filterMap, List.map_filterMap]
      refine congrArg (fun f => fields.entries.filterMap f) (funext fun f => ?_)
      rw [Option.map_map, Function.comp_apply]
      rfl
    | scalar text => rfl
    | list items => rfl

theorem placed_eq_map (d : Store) : d.placed = d.standing.map shown := by
  rw [placed, standing, List.map_flatMap]
  exact congrArg (fun f => (d.keysUnder pipelineStem).flatMap f)
    (funext fun key => placedUnder_eq_map d key)

/-- What is listed stands somewhere, and what stands somewhere is listed once. -/
theorem listed_eq_map (d : Store) :
    d.listed = (inOrder (fun m => m.2.executionOrder) d.standing).map shown := by
  rw [listed, placed_eq_map, ← map_inOrder]
  rfl

/-- What stands in the hash of a target. -/
theorem mem_standingUnder_iff (d : Store) (targetId : String)
    (m : (String × String) × StaticEntry) : m ∈ d.standingUnder (pipelineKey targetId) ↔
      m.1.1 = targetId ∧ d.entryAt? targetId m.1.2 = some m.2 := by
  rcases m with ⟨⟨other, stored⟩, e⟩
  rw [standingUnder, pipelineKey, dropStem_append, ← pipelineKey]
  split
  · rename_i fields hget
    have hfield : d.field? (pipelineKey targetId) stored = fields.get? stored := by
      rw [field?, hget]
    rw [List.mem_filterMap]
    dsimp only
    rw [entryAt?, hfield]
    constructor
    · rintro ⟨⟨name, text⟩, hmem, hread⟩
      rcases Option.map_eq_some_iff.mp hread with ⟨e', he', heq⟩
      cases heq
      exact ⟨rfl, Option.bind_eq_some_iff.mpr
        ⟨text, (Dict.mem_entries_iff fields name text).mp hmem, he'⟩⟩
    · rintro ⟨rfl, hentry⟩
      rcases Option.bind_eq_some_iff.mp hentry with ⟨text, htext, he⟩
      refine ⟨(stored, text), (Dict.mem_entries_iff fields stored text).mpr htext, ?_⟩
      rw [he]
      rfl
  -- What is no hash has no entries.
  · rename_i hother
    simp [entryAt?, field?_of_not_hash d _ _ hother]

/-- What stands in a place. -/
theorem mem_standing_iff (d : Store) (m : (String × String) × StaticEntry) :
    m ∈ d.standing ↔ d.entryAt? m.1.1 m.1.2 = some m.2 := by
  rw [standing, List.mem_flatMap]
  constructor
  · rintro ⟨key, hkey, hmem⟩
    rcases (mem_keysUnder_iff d _ key).mp hkey with ⟨targetId, rfl, -⟩
    rcases (mem_standingUnder_iff d targetId m).mp hmem with ⟨rfl, hentry⟩
    exact hentry
  · intro hentry
    have hmem := (mem_standingUnder_iff d m.1.1 m).mpr ⟨rfl, hentry⟩
    have hsome : (d.get? (pipelineKey m.1.1)).isSome = true := by
      refine isSome_of_placedUnder d _ ?_
      rw [placedUnder_eq_map]
      exact List.ne_nil_of_mem (List.mem_map_of_mem hmem)
    exact ⟨_, (mem_keysUnder_iff d _ _).mpr ⟨m.1.1, rfl, hsome⟩, hmem⟩

/-- No two entries of a target have one name. -/
theorem nodup_standingUnder (d : Store) (key : String) :
    ((d.standingUnder key).map Prod.fst).Nodup := by
  rw [standingUnder]
  split
  · rename_i fields hget
    have hnames : fields.entries.Pairwise fun f g => f.1 ≠ g.1 :=
      List.pairwise_map.mp fields.nodup_keys
    rw [List.Nodup, List.pairwise_map, List.pairwise_filterMap]
    refine hnames.imp fun {f g} hne m hm m' hm' heq => ?_
    rcases Option.map_eq_some_iff.mp hm with ⟨e, -, rfl⟩
    rcases Option.map_eq_some_iff.mp hm' with ⟨e', -, rfl⟩
    exact hne (congrArg Prod.snd heq)
  · exact List.nodup_nil

/-- No two entries stand in one place. -/
theorem nodup_standing (d : Store) : (d.standing.map Prod.fst).Nodup := by
  have hkeys : (d.keysUnder pipelineStem).Nodup := (Dict.nodup_keys d).filter _
  rw [standing, List.map_flatMap, List.nodup_flatMap]
  refine ⟨fun key _ => nodup_standingUnder d key, ?_⟩
  refine hkeys.imp_of_mem fun {key other} hkey hother hne place hplace hplace' => hne ?_
  rcases (mem_keysUnder_iff d _ key).mp hkey with ⟨targetId, rfl, -⟩
  rcases (mem_keysUnder_iff d _ other).mp hother with ⟨targetId', rfl, -⟩
  rcases List.mem_map.mp hplace with ⟨m, hm, rfl⟩
  rcases List.mem_map.mp hplace' with ⟨m', hm', heq⟩
  have htarget := ((mem_standingUnder_iff d targetId m).mp hm).1
  have htarget' := ((mem_standingUnder_iff d targetId' m').mp hm').1
  rw [← htarget, ← htarget', heq]

/-! ### The lists -/

/-- Lists with one element for each place in which an entry stands: the entry in that place, with
    its target. -/
structure Enumerates (d : Store) (listed : List (String × StaticEntry))
    (places : List (String × String)) : Prop where
  once : places.Nodup
  stored : ∀ targetId name, (targetId, name) ∈ places ↔
    (d.field? (pipelineKey targetId) name).isSome = true
  entries : List.Forall₂ (fun place e => e.1 = place.1 ∧ d.entryAt? place.1 place.2 = some e.2)
    places listed

/-- The places of the listed entries, in the order of the list. -/
def listedPlaces (d : Store) : List (String × String) :=
  (inOrder (fun m => m.2.executionOrder) d.standing).map Prod.fst

/-- In legible pipelines there is an entry in every place. -/
theorem entryAt?_of_legible (d : Store) (hd : d.Legible) (targetId name : String) :
    (d.entryAt? targetId name).isSome = (d.field? (pipelineKey targetId) name).isSome := by
  cases htext : d.field? (pipelineKey targetId) name with
  | none =>
    rw [entryAt?, htext]
    rfl
  | some text =>
    rcases hd targetId name text htext with ⟨e, he, rfl⟩
    rw [entryAt?, htext, Option.bind_some, StaticEntry.ofText?_toText e he]
    rfl

/-- The list of all entries has one element for each place. -/
theorem enumerates_listed (d : Store) (hd : d.Legible) : d.Enumerates d.listed d.listedPlaces where
  once := by
    have hperm := (perm_inOrder (fun m => m.2.executionOrder) d.standing).map Prod.fst
    exact hperm.nodup_iff.mpr (nodup_standing d)
  stored := by
    intro targetId name
    rw [← entryAt?_of_legible d hd, Option.isSome_iff_exists, listedPlaces, List.mem_map]
    simp only [(perm_inOrder _ d.standing).mem_iff, mem_standing_iff]
    constructor
    · rintro ⟨⟨place, e⟩, he, rfl⟩
      exact ⟨e, he⟩
    · rintro ⟨e, he⟩
      exact ⟨((targetId, name), e), he, rfl⟩
  entries := by
    rw [listed_eq_map, listedPlaces, List.forall₂_map_left_iff, List.forall₂_map_right_iff,
      List.forall₂_same]
    intro m hm
    exact ⟨rfl, (mem_standing_iff d m).mp ((perm_inOrder _ d.standing).mem_iff.mp hm)⟩

theorem pairwise_listed (d : Store) :
    d.listed.Pairwise fun a b => a.2.executionOrder ≤ b.2.executionOrder :=
  pairwise_inOrder (fun e : String × StaticEntry => e.2.executionOrder) d.placed

/-- What stands in the pipeline of a target is what is listed of it. -/
theorem filter_placed (d : Store) (targetId : String) :
    d.placed.filter (fun e => e.1 = targetId) = d.placedUnder (pipelineKey targetId) := by
  have hunder : ∀ key ∈ d.keysUnder pipelineStem,
      (d.placedUnder key).filter (fun e => e.1 = targetId) =
        if key = pipelineKey targetId then d.placedUnder (pipelineKey targetId) else [] := by
    intro key hkey
    rcases (mem_keysUnder_iff d _ key).mp hkey with ⟨other, rfl, -⟩
    -- What stands in a pipeline belongs to the target that its key names.
    have hplaced : ∀ e ∈ d.placedUnder (pipelineKey other), e.1 = other := by
      intro e he
      rw [placedUnder_eq_map] at he
      rcases List.mem_map.mp he with ⟨m, hm, rfl⟩
      exact ((mem_standingUnder_iff d other m).mp hm).1
    split
    · rename_i heq
      have hother : other = targetId := append_right_inj _ _ _ heq
      subst hother
      exact List.filter_eq_self.mpr fun e he => decide_eq_true (hplaced e he)
    · rename_i hne
      refine List.filter_eq_nil_iff.mpr fun e he htarget => hne ?_
      rw [← hplaced e he, of_decide_eq_true htarget]
      rfl
  -- The target may have no pipeline, and then both sides are empty.
  rw [placed, List.filter_flatMap, List.flatMap_congr hunder,
    flatMap_eq_of_ascending _ _ [pipelineKey targetId] (ascending_keysUnder d _)
      (List.pairwise_singleton _ _) fun key hpart => ?_, List.flatMap_singleton, if_pos rfl]
  split at hpart
  · rename_i heq
    have hmem := (mem_keysUnder_iff d pipelineStem key).mpr
      ⟨targetId, heq, isSome_of_placedUnder d key (heq ▸ hpart)⟩
    simp [heq ▸ hmem, heq]
  · exact absurd rfl hpart

/-- The list of one target is what the list of all has of it. -/
theorem filter_listed (d : Store) (targetId : String) :
    d.listed.filter (fun e => e.1 = targetId) =
      inOrder (fun e => e.2.executionOrder) (d.placedUnder (pipelineKey targetId)) := by
  rw [listed, filter_inOrder_comm, filter_placed]

end Store

/-- The list of one target, as far as its pipeline is legible. -/
theorem Registry.on_listStatic_some (d : Store) (h : ∀ targetId, d.HashAt (pipelineKey targetId))
    (hd : d.Legible) (targetId : String) : on (listStatic (some targetId)) d =
      (.ok (d.listed.filter fun e => e.1 = targetId), d) := by
  have hentries := on_entriesOfAll_keys d h hd [pipelineKey targetId]
    fun key hkey => ⟨targetId, List.mem_singleton.mp hkey⟩
  rw [List.map_singleton, pipelineKey, Store.dropStem_append, ← pipelineKey, List.flatMap_singleton,
    ← Store.filter_listed] at hentries
  refine (on_bind_ok _ _ d d _ hentries).trans ?_
  have hsorted := (Store.pairwise_listed d).filter fun e => decide (e.1 = targetId)
  rw [on_pure, inOrder_of_pairwise _ _ hsorted]

/-! ### Entries under a number of theirs -/

/-- A text is that of an entry which stands under the name of one of its numbers. -/
def StaticEntry.NamedBy (number : StaticEntry → Nat) (name text : String) : Prop :=
  ∃ e : StaticEntry, e.Storable ∧ text = e.toText ∧ name = Number.writeNatural (number e)

namespace Store

section NamedBy

variable (number : StaticEntry → Nat) (d : Store) (h : d.Fitting (StaticEntry.NamedBy number))

include h

/-- What stands under the name of a number has this number. -/
theorem name_of_namedBy (targetId name : String) (e : StaticEntry)
    (he : d.entryAt? targetId name = some e) : name = Number.writeNatural (number e) := by
  rcases Option.bind_eq_some_iff.mp he with ⟨text, htext, hread⟩
  rcases h targetId name text htext with ⟨e', he', rfl, hname⟩
  rw [StaticEntry.ofText?_toText e' he', Option.some.injEq] at hread
  rw [hname, hread]

/-- No two entries of a target have the same number. -/
theorem distinct_listed :
    d.listed.Pairwise fun a b => (a.1, number a.2) ≠ (b.1, number b.2) := by
  have hperm := perm_inOrder (fun m => m.2.executionOrder) d.standing
  have hplaces : (inOrder (fun m => m.2.executionOrder) d.standing).Pairwise
      fun m m' => m.1 ≠ m'.1 :=
    List.pairwise_map.mp ((hperm.map Prod.fst).nodup_iff.mpr (nodup_standing d))
  have hname : ∀ m ∈ inOrder (fun m => m.2.executionOrder) d.standing,
      m.1 = (m.1.1, Number.writeNatural (number m.2)) := by
    intro m hm
    have hentry := (mem_standing_iff d m).mp (hperm.mem_iff.mp hm)
    rw [← name_of_namedBy number d h m.1.1 m.1.2 m.2 hentry]
  rw [listed_eq_map, List.pairwise_map]
  refine hplaces.imp_of_mem fun {m m'} hm hm' hne heq => hne ?_
  rw [hname m hm, hname m' hm']
  rw [shown, shown, Prod.mk.injEq] at heq
  rw [heq.1, heq.2]

end NamedBy

/-- The list ascends strictly if every entry stands under the name of its execution order. No name
    is used twice, not even in two pipelines. -/
theorem ascends_listed (d : Store) (n : Nat) (hledger : d.Ledger n)
    (h : d.Fitting (StaticEntry.NamedBy StaticEntry.executionOrder)) :
    d.listed.Pairwise fun a b => a.2.executionOrder < b.2.executionOrder := by
  have hplace : ∀ e ∈ d.listed,
      d.Holds (Number.writeNatural e.2.executionOrder) (.entry e.1) := by
    rintro ⟨targetId, e⟩ he
    rcases (mem_listed_iff d targetId e).mp he with ⟨name, hentry⟩
    rw [← name_of_namedBy _ d h targetId name e hentry]
    rcases Option.bind_eq_some_iff.mp hentry with ⟨text, htext, -⟩
    rw [Holds, htext]
    rfl
  have hdistinct := distinct_listed StaticEntry.executionOrder d h
  refine ((pairwise_listed d).and hdistinct).imp_of_mem fun {a b} ha hb hboth => ?_
  refine Nat.lt_of_le_of_ne hboth.1 fun hsame => hboth.2 ?_
  have htargets := hledger.unique _ _ _ (hplace a ha) (hsame ▸ hplace b hb)
  rw [Place.entry.inj htargets, hsame]

end Store

end StoragePolicy
