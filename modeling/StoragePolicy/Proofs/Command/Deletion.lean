import StoragePolicy.Proofs.Command.Addressing
import StoragePolicy.Proofs.Engine.Uninstalled
import StoragePolicy.Proofs.Registry.Listing

/-!
# Deleting what is listed

The list of the static policies shows the target and the id of each. Here it is said when these are
enough to delete it on the command line: its target must be addressable, and it must stand under
the id that it is listed with. Then it is taken out of the list, and all else stays. Otherwise it
stays, and it may be another policy that goes.

## Main definitions

* `Session.listing`: The static policies that are listed.
* `Session.Stands`: Policies that stand under the ids that they are listed with.
* `Session.Dropped`: What is left without a policy.

## Theorems

* `dropped_deleteEntry`: What the deletion of an entry leaves.
* `field?_of_delete`: What is not asked for is not deleted.
* `shown_of_listing`: What is listed is what the command line shows.
* `dropped_iff_addressable`: When a listed policy is deleted on the command line.
* `stands_of_run`: All that is listed stands under its id, as long as no update has changed an id.
* `dropped_other_of_mark`: The words for one policy may delete another.
-/

namespace StoragePolicy

open Registry

/-! ### What is listed -/

/-- How an entry of a target is listed. -/
def StaticView.ofEntry (names : Dict String String) (e : String × StaticEntry) : StaticView :=
  { id := e.2.policyId, targetId := e.1, targetName := Tenants.displayName names e.1, entry := e.2 }

theorem Registry.looks_names (directory : Directory) :
    directory.names.run.Makes Store.Call.Looks :=
  makes_names _ directory Directory.namesKey_not_own

/-- The static policies are listed with the names that the directory knows. -/
theorem Engine.on_listStatic (directory : Directory) (d : Store) (n : Nat) (h : d.Ledger n)
    (hd : d.Legible) : on (Engine.listStatic directory none) d =
      ((on directory.names d).1.map fun names => d.listed.map (StaticView.ofEntry names), d) := by
  have hsame := on_looks _ (looks_names directory) d
  rcases hnames : on directory.names d with ⟨result, d'⟩
  rw [hnames] at hsame
  subst hsame
  cases result with
  | error e =>
    rw [Engine.listStatic, on_bind, hnames]
    rfl
  | ok names =>
    rw [Engine.listStatic, on_bind_ok _ _ _ _ _ hnames,
      on_bind_ok _ _ _ _ _ (on_listStatic_none _ h.pipelines hd)]
    rfl

namespace Session

/-- The static policies that are listed. -/
def listing (directory : Directory) (s : Session) : Except EngineError (List StaticView) :=
  (s.run (Engine.ofRegistry (Engine.listStatic directory none)).run).1

/-- Policies that stand under the ids that they are listed with. -/
def Stands (s : Session) (v : StaticView) : Prop :=
  s.store.entryAt? v.targetId (Number.writeNatural v.id) = some v.entry

/-- What is left without a policy: it is missing in the list and in its pipeline, and everything
    else is as it was, up to the counter of the ids. -/
structure Dropped (directory : Directory) (before after : Session) (v : StaticView) : Prop where
  stood : before.Stands v
  gone : after.store.field? (pipelineKey v.targetId) (Number.writeNatural v.id) = none
  listing : ∀ views, before.listing directory = .ok views → ∃ first last,
    views = first ++ v :: last ∧ after.listing directory = .ok (first ++ last)
  fields : ∀ targetId name, ¬ (targetId = v.targetId ∧ name = Number.writeNatural v.id) →
    after.store.field? (pipelineKey targetId) name =
      before.store.field? (pipelineKey targetId) name
  others : ∀ key, key ≠ counterKey → key ≠ pipelineKey v.targetId →
    after.store.get? key = before.store.get? key
  monitors : after.monitors = before.monitors
  storage : after.storage = before.storage

theorem listing_eq (directory : Directory) (s : Session) (hopen : s.Open) (n : Nat)
    (h : s.store.Ledger n) (hd : s.store.Legible) : s.listing directory =
      (on directory.names s.store).1.map fun names =>
        s.store.listed.map (StaticView.ofEntry names) := by
  rw [listing, run_ofRegistry s _ hopen, Engine.on_listStatic directory s.store n h hd]

/-- What is listed is an entry with the name of its target. -/
theorem exists_of_mem_listing (directory : Directory) (s : Session) (hopen : s.Open) (n : Nat)
    (h : s.store.Ledger n) (hd : s.store.Legible) (views : List StaticView)
    (hviews : s.listing directory = .ok views) (v : StaticView) (hv : v ∈ views) :
    ∃ names, (on directory.names s.store).1 = .ok names ∧
      (v.targetId, v.entry) ∈ s.store.listed ∧ v = StaticView.ofEntry names (v.targetId, v.entry) := by
  rw [listing_eq directory s hopen n h hd, Outcome.map_eq_ok] at hviews
  rcases hviews with ⟨names, hnames, rfl⟩
  rcases List.mem_map.mp hv with ⟨e, he, rfl⟩
  exact ⟨names, hnames, he, rfl⟩

end Session

/-! ### What is asked for by a deletion -/

namespace Api

/-- The operations that can be asked for by a deletion. -/
def Operation.Deletes : Operation → Prop
  | .deleteEntry _ _ | .removePolicy _ | .deleteObjectType _ | .removeExtension _ _
  | .deleteSlo _ _ _ => True
  | _ => False

theorem deletes_of_read (r : Http.Request) (hmethod : r.method = .delete) (operation : Operation)
    (h : read r = .ok operation) : operation.Deletes := by
  rw [read, hmethod] at h
  split at h
  · cases h
  · rename_i route _
    -- Of each kind of route what a deletion is read as is known before its parts are.
    change readRoute r route .delete = .ok operation at h
    cases route with
    | staticPolicy key =>
      rcases (Outcome.bind_eq_ok _ _ _).mp h with ⟨text, -, h⟩
      rcases (Outcome.bind_eq_ok _ _ _).mp h with ⟨parts, -, h⟩
      cases h
      trivial
    | dynamicPolicy text =>
      rcases (Outcome.bind_eq_ok _ _ _).mp h with ⟨id, -, h⟩
      cases h
      trivial
    | objectType name =>
      rcases (Outcome.bind_eq_ok _ _ _).mp h with ⟨name, -, h⟩
      cases h
      trivial
    | extension name item =>
      rcases (Outcome.bind_eq_ok _ _ _).mp h with ⟨name, -, h⟩
      rcases (Outcome.bind_eq_ok _ _ _).mp h with ⟨item, -, h⟩
      cases h
      trivial
    | slo path =>
      rcases (Outcome.bind_eq_ok _ _ _).mp h with ⟨text, -, h⟩
      rcases (Outcome.bind_eq_ok _ _ _).mp h with ⟨parts, -, h⟩
      cases h
      trivial
    | _ => cases h

end Api

/-- Calls that leave what stands under a key alone. -/
def Engine.Call.Spares (key : String) : Engine.Call → Prop
  | .store c => key ∉ c.changed
  | _ => True

theorem Session.get?_run_of_spares {α : Type} (key : String) (p : Program Engine.interface α)
    (hp : p.Makes (Engine.Call.Spares key)) (s : Session) :
    (s.run p).2.store.get? key = s.store.get? key := by
  refine run_invariant (Engine.Call.Spares key) (fun t => t.store.get? key = s.store.get? key) ?_ p
    hp s rfl
  intro c t hc ht
  cases c with
  | store c => exact (get?_exec_store c t key hc).trans ht
  | _ => exact ht

namespace Engine

theorem spares_ofRegistry {α : Type} (key : String) (p : Registry α)
    (hp : p.run.Makes fun c : Store.Call => key ∉ c.changed) :
    (ofRegistry p).run.Makes (Call.Spares key) :=
  makes_ofRegistry _ p hp

/-- The removal of a dynamic policy leaves the pipelines alone. -/
theorem spares_remove (id : Nat) (targetId : String) :
    (remove id).run.Makes (Call.Spares (pipelineKey targetId)) := by
  have hdetach : (detach id).Makes (Call.Spares (pipelineKey targetId)) := by
    refine makes_after _ _ _ (makes_ask _ _ trivial) fun taken => ?_
    cases taken with
    | none => exact makes_done _ _
    | some handle => exact ⟨trivial, fun _ => ⟨trivial, fun _ => trivial⟩⟩
  refine makes_then _ _ _ (makes_lift _ _ hdetach) fun _ => ?_
  refine makes_then _ _ _ (spares_ofRegistry _ _ (makes_deleteDynamic _ id ?_ ?_ ?_))
    fun _ => makes_done _ _
  · exact List.not_mem_nil
  · exact fun hmem => recordKey_ne_pipelineKey _ targetId (List.mem_singleton.mp hmem).symm
  · exact fun hmem => pipelineKey_ne_counterKey targetId (List.mem_singleton.mp hmem)

end Engine

namespace Api

theorem makes_respond {α : Type} (kind : Engine.Call → Prop) (success : α → Http.Response)
    (p : Engine α) (hp : p.run.Makes kind) : (respond success p).Makes kind := by
  refine Engine.makes_after kind p.run _ hp fun result => ?_
  cases result with
  | ok a => exact Engine.makes_done kind _
  | error e => exact Engine.makes_done kind _

/-- No deletion but that of an entry touches a pipeline. -/
theorem spares_perform (directory : Directory) (settings : Engine.Settings)
    (operation : Operation) (hdeletes : operation.Deletes)
    (hentry : ∀ targetId id, operation ≠ .deleteEntry targetId id) (targetId : String) :
    (perform directory settings operation).Makes (Engine.Call.Spares (pipelineKey targetId)) := by
  -- The keys of the catalog differ from that of a pipeline in their stems.
  have hobjectType : ∀ name, pipelineKey targetId ≠ objectTypeKey name := by
    intro name heq
    have hchars := congrArg String.toList heq
    simp [pipelineKey, pipelineStem, objectTypeKey, objectTypeStem] at hchars
  have hslo : ∀ filter name target, pipelineKey targetId ≠ Slo.storeKey filter name target := by
    intro filter name target heq
    have hchars := congrArg String.toList heq
    simp [pipelineKey, pipelineStem, Slo.storeKey, Slo.keyStem] at hchars
  cases operation with
  | deleteEntry targetId id => exact absurd rfl (hentry targetId id)
  | removePolicy id => exact makes_respond _ _ _ (Engine.spares_remove id targetId)
  | deleteObjectType name =>
    refine makes_respond _ _ _ (Engine.spares_ofRegistry _ _ ?_)
    refine makes_bind _ _ _ (makes_ask _ _ List.not_mem_nil) fun existed => ?_
    have hdelete : (change (.delete (objectTypeKey name))).run.Makes
        fun c : Store.Call => pipelineKey targetId ∉ c.changed :=
      makes_ask _ _ fun hmem => hobjectType name (List.mem_singleton.mp hmem)
    cases existed with
    | false => exact makes_bind _ _ _ (makes_throw _ _) fun _ => hdelete
    | true => exact hdelete
  | removeExtension name extension =>
    refine makes_respond _ _ _ (Engine.spares_ofRegistry _ _ ?_)
    refine makes_bind _ _ _ (makes_ask _ _ List.not_mem_nil) fun extensions => ?_
    have hremove : (change (.removeItem (objectTypeKey name) extension)).run.Makes
        fun c : Store.Call => pipelineKey targetId ∉ c.changed :=
      makes_ask _ _ fun hmem => hobjectType name (List.mem_singleton.mp hmem)
    dsimp only
    -- Whether or not the list has the extension, nothing is written but the object type.
    split
    · exact makes_bind _ _ _ (makes_throw _ _) fun _ => hremove
    · exact hremove
  | deleteSlo filter name target =>
    refine makes_respond _ _ _ (Engine.spares_ofRegistry _ _ ?_)
    refine makes_bind _ _ _ ?_ fun existed => ?_
    · refine makes_bind _ _ _ (makes_ask _ _ List.not_mem_nil) fun existed => ?_
      refine makes_bind _ _ _ (makes_ask _ _ fun hmem => ?_) fun _ => makes_pure _ _
      exact hslo filter name target (List.mem_singleton.mp hmem)
    · cases existed with
      | false => exact makes_throw _ _
      | true => exact makes_pure _ _
  | _ => exact hdeletes.elim

end Api

/-! ### What a deletion does -/

/-- The deletion of an entry is refused if there is none. -/
theorem Engine.on_deleteEntry (d : Store) (n : Nat) (h : d.Ledger n) (targetId : String) (id : Nat) :
    on (Engine.deleteEntry targetId id) d =
      (if (d.field? (pipelineKey targetId) (Number.writeNatural id)).isSome then .ok ()
        else .error (.unknownEntry targetId id), (on (deleteStatic targetId id) d).2) := by
  rcases h.pipelines targetId with ⟨fields, hfields⟩
  have hfound := (on_deleteStatic d n h targetId id fields hfields).1
  rw [← Store.field?_of_hashAt d _ _ fields hfields] at hfound
  rw [Engine.deleteEntry, on_bind]
  generalize on (deleteStatic targetId id) d = outcome at hfound
  rcases outcome with ⟨result, d'⟩
  dsimp only at hfound
  rw [hfound]
  cases (d.field? (pipelineKey targetId) (Number.writeNatural id)).isSome <;> rfl

namespace Session

section Delete

variable (directory : Directory) (settings : Engine.Settings) (s : Session) (hopen : s.Open) (n : Nat)
  (hledger : s.store.Ledger n) (hlegible : s.store.Legible)

/-- A request that is understood is carried out. -/
theorem run_handle (r : Http.Request) (hmethod : r.method ≠ .head) (operation : Api.Operation)
    (hread : Api.read r = .ok operation) : s.run (Api.handle directory settings r) =
      s.run (Api.perform directory settings operation) := by
  rw [Api.handle, hread, run_bind]
  simp only [if_neg hmethod]
  rfl

include hopen hledger

/-- The deletion of an entry is answered by whether there is one. -/
theorem run_deleteEntry (targetId : String) (id : Nat) :
    s.run (Api.perform directory settings (.deleteEntry targetId id)) =
      (if (s.store.field? (pipelineKey targetId) (Number.writeNatural id)).isSome
        then { status := 204 } else Api.errorResponse (.unknownEntry targetId id),
        s.withStore (on (deleteStatic targetId id) s.store).2) := by
  have hrun := run_ofRegistry s (Engine.deleteEntry targetId id) hopen
  rw [Engine.on_deleteEntry s.store n hledger] at hrun
  rw [Api.perform, Api.acknowledging, Api.respond, run_bind, hrun]
  cases (s.store.field? (pipelineKey targetId) (Number.writeNatural id)).isSome <;> rfl

/-- What is not asked for is not deleted. -/
theorem field?_of_delete (r : Http.Request) (hmethod : r.method = .delete) (targetId : String)
    (id : Nat) (hread : Api.read r ≠ .ok (.deleteEntry targetId id)) :
    (s.run (Api.handle directory settings r)).2.store.field? (pipelineKey targetId)
        (Number.writeNatural id) =
      s.store.field? (pipelineKey targetId) (Number.writeNatural id) := by
  cases hoperation : Api.read r with
  | error refusal =>
    rw [Api.handle, hoperation, run_bind]
    rfl
  | ok operation =>
    rw [run_handle directory settings s r (by simp [hmethod]) operation hoperation]
    have hdeletes := Api.deletes_of_read r hmethod operation hoperation
    -- Another entry stands in another field, and no other deletion touches a pipeline.
    by_cases hentry : ∃ other id, operation = .deleteEntry other id
    · rcases hentry with ⟨other, id', rfl⟩
      rw [run_deleteEntry directory settings s hopen n hledger, store_withStore]
      refine field?_deleteStatic s.store n hledger other targetId _ id' ?_
      rintro ⟨rfl, hid⟩
      rw [Number.writeNatural_inj _ _ hid] at hread
      exact hread hoperation
    · refine Store.field?_congr _ _ _ _ (get?_run_of_spares _ _ ?_ s)
      exact Api.spares_perform directory settings operation hdeletes
        (fun other id' heq => hentry ⟨other, id', heq⟩) targetId

include hlegible

/-- All entries are listed if the names of the tenants can be read. -/
theorem exists_listing (names : Dict String String)
    (hnames : (on directory.names s.store).1 = .ok names) (targetId name : String)
    (e : StaticEntry) (hentry : s.store.entryAt? targetId name = some e) :
    ∃ views, s.listing directory = .ok views ∧ StaticView.ofEntry names (targetId, e) ∈ views := by
  refine ⟨s.store.listed.map (StaticView.ofEntry names), ?_, List.mem_map_of_mem ?_⟩
  · rw [listing_eq directory s hopen n hledger hlegible, hnames]
    rfl
  · exact (Store.mem_listed_iff s.store targetId e).mpr ⟨name, hentry⟩

/-- The ids and entries that are listed can be held. -/
theorem storable_of_listing (views : List StaticView) (hviews : s.listing directory = .ok views)
    (v : StaticView) (hv : v ∈ views) : v.id ≤ Number.maxWord ∧ v.entry.Storable := by
  rcases exists_of_mem_listing directory s hopen n hledger hlegible views hviews v hv with
    ⟨names, -, hlisted, hview⟩
  have hstorable := Store.storable_of_mem_listed s.store hlegible _ _ hlisted
  have hid : v.id = v.entry.policyId := congrArg StaticView.id hview
  exact ⟨by rw [hid]; exact hstorable.policyId, hstorable⟩

/-- In labelled pipelines all that is listed stands under its id. -/
theorem stands_of_labelled (hlabelled : s.store.Labelled) (views : List StaticView)
    (hviews : s.listing directory = .ok views) (v : StaticView) (hv : v ∈ views) : s.Stands v := by
  rcases exists_of_mem_listing directory s hopen n hledger hlegible views hviews v hv with
    ⟨names, -, hlisted, hview⟩
  rcases (Store.mem_listed_iff s.store v.targetId v.entry).mp hlisted with ⟨name, hentry⟩
  rcases Option.bind_eq_some_iff.mp hentry with ⟨text, htext, hread⟩
  rcases Store.entry_of_field? s.store hlegible hlabelled v.targetId name text htext with
    ⟨e, -, -, he, rfl⟩
  rw [hread, Option.some.injEq] at he
  have hid : v.id = v.entry.policyId := congrArg StaticView.id hview
  rw [← he] at hentry
  rw [Stands, hid]
  exact hentry

/-- The deletion of a listed policy that stands under its id takes it out of the list, and leaves
    everything else. -/
theorem dropped_deleteEntry (views : List StaticView) (hviews : s.listing directory = .ok views)
    (v : StaticView) (hv : v ∈ views) (hstands : s.Stands v) :
    (s.run (Api.perform directory settings (.deleteEntry v.targetId v.id))).1 = { status := 204 } ∧
      s.Dropped directory
        (s.run (Api.perform directory settings (.deleteEntry v.targetId v.id))).2 v := by
  rcases exists_of_mem_listing directory s hopen n hledger hlegible views hviews v hv with
    ⟨names, hnames, -, hview⟩
  rcases Option.bind_eq_some_iff.mp hstands with ⟨text, htext, hentry⟩
  rcases hledger.pipelines v.targetId with ⟨fields, hfields⟩
  have hget : fields.get? (Number.writeNatural v.id) = some text := by
    rw [← Store.field?_of_hashAt s.store _ _ fields hfields]
    exact htext
  -- The program writes one field of one pipeline. What is listed otherwise is read from the same
  -- fields before and after.
  have herased := (on_deleteStatic s.store n hledger v.targetId v.id fields hfields).2
  rcases passes_idle _ (idle_deleteStatic v.targetId v.id) s.store n hledger hlegible with
    ⟨⟨m, -, hledger'⟩, hlegible', -, hcatalog⟩
  have hothers : ∀ other, other ≠ v.targetId →
      (on (deleteStatic v.targetId v.id) s.store).2.get? (pipelineKey other) =
        s.store.get? (pipelineKey other) := fun other hother =>
    get?_deleteStatic s.store v.targetId v.id _ (pipelineKey_ne_counterKey other)
      fun heq => hother (append_right_inj _ _ _ heq)
  rw [run_deleteEntry directory settings s hopen n hledger, htext]
  refine ⟨rfl, hstands, ?_, fun views' hviews' => ?_, fun targetId name hne => ?_,
    fun key hcounter hpipeline => ?_, rfl, rfl⟩
  · rw [store_withStore, Store.field?_of_hashAt _ _ _ _ herased, Dict.get?_erase, if_pos rfl]
  -- The listing is that of before without the one view: cut it at the entry that is taken out.
  · rcases Store.listed_erase s.store _ v.targetId _ fields hfields herased hothers text v.entry
      hget hentry with ⟨first, last, hlisted, hleft⟩
    have hbefore : s.listing directory = .ok (first.map (StaticView.ofEntry names) ++
        v :: last.map (StaticView.ofEntry names)) := by
      rw [listing_eq directory s hopen n hledger hlegible, hnames, hlisted]
      simp only [Except.map, List.map_append, List.map_cons, ← hview]
    rw [hbefore] at hviews'
    cases hviews'
    refine ⟨_, _, rfl, ?_⟩
    rw [listing_eq directory _ (open_withStore s _ hopen) m hledger' hlegible', store_withStore,
      on_looks_congr _ (looks_names directory) s.store _ hcatalog, hnames, hleft]
    simp only [Except.map, List.map_append]
  · exact field?_deleteStatic s.store n hledger v.targetId targetId name v.id hne
  · exact get?_deleteStatic s.store v.targetId v.id key hcounter hpipeline

end Delete

end Session

namespace Command

/-! ### The list on the command line -/

theorem join_static (engine : Url) (items : List String) (hpath : engine.path = .segments items) :
    engine.join "/policies/static" = .ok { engine with
      path := .segments ["policies", "static"], query := none, fragment := none } := by
  rw [Url.join, hpath]
  rfl

/-- The command line asks for the list of all static policies. -/
theorem reads_listStatic (engine : Url) (items : List String)
    (hpath : engine.path = .segments items) :
    ∃ r, received? engine ["list", "static"] = some r ∧ r.method = .get ∧
      Api.read r = .ok (.listStatic none) := by
  refine ⟨{ method := .get, resource := "/policies/static" }, ?_, rfl, rfl⟩
  have hparse : parse ["list", "static"] = .ok { command := .listStatic } := rfl
  rw [received?, hparse]
  change ((request engine (.ok "") .listStatic).toOption.bind fun r => some r.received) = _
  rw [request, place, join_static engine items hpath]
  rfl

/-- What is listed is what the command line shows. -/
theorem shown_of_listing (directory : Directory) (settings : Engine.Settings) (s : Session)
    (hopen : s.Open) (n : Nat) (hledger : s.store.Ledger n) (hlegible : s.store.Legible)
    (address : String) (engine : Url) (items : List String) (hpath : engine.path = .segments items)
    (views : List StaticView) (hviews : s.listing directory = .ok views) :
    ∃ r answer, received? engine ["list", "static"] = some r ∧
      s.run (Api.handle directory settings r) = (.json 200 answer, s) ∧
      report address { status := 200, body := answer.toText } .listStatic =
        .ok (listing "Static policies" "No static policies." staticLine views) := by
  rcases reads_listStatic engine items hpath with ⟨r, hr, hmethod, hread⟩
  refine ⟨r, Api.listJson StaticView.toJson views, hr, ?_, ?_⟩
  · have hlist := Session.run_ofRegistry s (Engine.listStatic directory none) hopen
    rw [← Prod.eta (s.run _)] at hlist
    have hanswer : (s.run (Engine.ofRegistry (Engine.listStatic directory none)).run).1 =
      .ok views := hviews
    rw [hanswer, Engine.on_listStatic directory s.store n hledger hlegible] at hlist
    have hsame := congrArg Prod.snd hlist
    dsimp only at hsame
    rw [Session.withStore_store] at hsame
    rw [Session.run_handle directory settings s r (by simp [hmethod]) _ hread, Api.perform,
      Api.showing, Api.respond, Session.run_bind, hanswer, hsame]
    rfl
  -- What is shown is what has been read back, so each view has to survive the way through its
  -- text.
  · have hstored := Session.storable_of_listing directory s hopen n hledger hlegible views hviews
    have hdecode : Decoder.text? (Decoder.list StaticView.decode)
        (Api.listJson StaticView.toJson views).toText.toList = .ok views := by
      rw [Api.listJson, Decoder.text?_toText _ _ (Json.whole_array _ _ fun v hv =>
        StaticView.whole_toJson v (hstored v hv).1 (hstored v hv).2)]
      exact Decoder.list_toReading _ _ _ fun v hv =>
        StaticView.decode_toReading v (hstored v hv).1 (hstored v hv).2
    have hsuccess : isSuccess 200 = true := rfl
    rw [report, expectBody, if_pos hsuccess, decodeBody, hdecode]
    rfl

/-! ### Deletions on the command line -/

/-- Whatever has been asked of the engine: a static policy that is listed is deleted by its target
    and its id, and nothing else, exactly if the target is addressable and the policy stands under
    this id. -/
theorem dropped_iff_addressable (directory : Directory) (settings : Engine.Settings) (s : Session)
    (hfresh : s.Fresh) (hdirectory : directory.Slashless s.store)
    (operations : List Session.Operation)
    (heffort : (s.performAll directory settings operations).effort < Number.maxWord)
    (address : String) (engine : Url) (hengine : readEngine address = .ok engine)
    (hhost : Url.isHostScheme engine.scheme = true) (views : List StaticView)
    (hviews : (s.performAll directory settings operations).listing directory = .ok views)
    (v : StaticView) (hv : v ∈ views) :
    (∃ r, received? engine (deletion (entryKey v.targetId v.id)) = some r ∧
      ((s.performAll directory settings operations).run
        (Api.handle directory settings r)).1 = { status := 204 } ∧
      (s.performAll directory settings operations).Dropped directory
        ((s.performAll directory settings operations).run
          (Api.handle directory settings r)).2 v) ↔
      Addressable v.targetId ∧ (s.performAll directory settings operations).Stands v := by
  have hbegin := Session.orderly_of_fresh directory settings s hfresh hdirectory
  have hcounted :=
    (Session.orderly_performAll directory settings false s hbegin operations heffort).counted
  generalize s.performAll directory settings operations = u at *
  rcases hcounted.bound with ⟨n, -, hledger⟩
  have hopen := hcounted.unrefused
  have hlegible := hcounted.legible
  rw [readEngine, Outcome.mapError_eq_ok] at hengine
  rcases Url.segments_of_parse address engine hengine hhost with ⟨items, hpath⟩
  constructor
  · rintro ⟨r, hr, -, hdropped⟩
    refine ⟨?_, hdropped.stood⟩
    have hmethod : r.method = .delete := by
      rcases received_deleteStatic engine items hpath v.targetId v.id
        (head_of_received engine v.targetId v.id r hr) with ⟨r', hr', hmethod, -⟩
      rw [hr, Option.some.injEq] at hr'
      rw [hr']
      exact hmethod
    refine addressable_of_reads engine items hpath v.targetId v.id hhost r hr ?_
    by_contra hread
    -- Otherwise the entry would still be there.
    have hfield := Session.field?_of_delete directory settings u hopen n hledger r hmethod
      v.targetId v.id hread
    rcases Option.bind_eq_some_iff.mp hdropped.stood with ⟨text, htext, -⟩
    rw [hdropped.gone, htext] at hfield
    exact nomatch hfield
  · rintro ⟨haddressable, hstands⟩
    have hid := (Session.storable_of_listing directory u hopen n hledger hlegible views hviews v
      hv).1
    rcases reads_of_addressable engine items hpath v.targetId v.id hid haddressable with
      ⟨r, hr, hmethod, hread⟩
    rcases Session.dropped_deleteEntry directory settings u hopen n hledger hlegible views hviews v
      hv hstands with ⟨hresponse, hdropped⟩
    refine ⟨r, hr, ?_⟩
    rw [Session.run_handle directory settings u r (by simp [hmethod]) _ hread]
    exact ⟨hresponse, hdropped⟩

/-- In every session whose updates keep ids all that is listed stands under its id. -/
theorem stands_of_run (directory : Directory) (settings : Engine.Settings) (s : Session)
    (hfresh : s.Fresh) (hdirectory : directory.Slashless s.store)
    (operations : List Session.Operation)
    (hkeeps : ∀ operation ∈ operations, operation.KeepsIds)
    (heffort : (s.performAll directory settings operations).effort < Number.maxWord)
    (views : List StaticView)
    (hviews : (s.performAll directory settings operations).listing directory = .ok views)
    (v : StaticView) (hv : v ∈ views) : (s.performAll directory settings operations).Stands v := by
  have hbegin := Session.orderly_of_fresh directory settings s hfresh hdirectory
  have hcounted :=
    (Session.orderly_performAll directory settings false s hbegin operations heffort).counted
  have hlabelled := Session.labelled_performAll directory settings false s hbegin operations hkeeps
    heffort (Session.labelled_of_fresh s hfresh)
  rcases hcounted.bound with ⟨n, -, hledger⟩
  exact Session.stands_of_labelled directory _ hcounted.unrefused n hledger hcounted.legible
    hlabelled views hviews v hv

/-! ### Containers with marks in their names -/

instance : DecidableEq Http.Request := fun a b =>
  decidable_of_iff (a.method = b.method ∧ a.resource = b.resource ∧
      a.contentType = b.contentType ∧ a.body = b.body)
    ⟨fun h => by cases a; cases b; cases h.1; cases h.2.1; cases h.2.2.1; cases h.2.2.2; rfl,
      fun h => h ▸ ⟨rfl, rfl, rfl, rfl⟩⟩

/-- The engine at its usual address. -/
def usualEngine : Url where
  scheme := "http"
  authority := some { host := "127.0.0.1", portNumber := some 9000 }
  path := .segments [""]

/-- What is stored alone in the pipeline of its target is listed, and stands under its id. -/
theorem listed_of_stored (operations : List Session.Operation)
    (heffort : (Session.withCompress.performAll Session.alice {} operations).effort <
      Number.maxWord) (v : StaticView) (hstorable : v.entry.Storable)
    (hstored : (Session.withCompress.performAll Session.alice {} operations).store.hashAt
      (pipelineKey v.targetId) = .ok (Dict.ofList [(Number.writeNatural v.id, v.entry.toText)]))
    (hview : StaticView.ofEntry (Dict.ofList [("t1", "alice")]) (v.targetId, v.entry) = v) :
    (Session.withCompress.performAll Session.alice {} operations).Counted ∧
      (Session.withCompress.performAll Session.alice {} operations).Stands v ∧
      ∃ views, (Session.withCompress.performAll Session.alice {} operations).listing
        Session.alice = .ok views ∧ v ∈ views := by
  have hcounted := (Session.orderly_performAll Session.alice {} false Session.withCompress
    (Session.orderly_of_fresh Session.alice {} _ Session.fresh_withCompress
      (Session.slashless_alice _)) operations heffort).counted
  have hstands := Store.entryAt?_of_hashAt _ v.targetId (Number.writeNatural v.id) _ hstored v.entry
    hstorable (by simp [Dict.get?_ofList])
  rcases hcounted.bound with ⟨n, -, hledger⟩
  rcases Session.exists_listing Session.alice _ hcounted.unrefused n hledger hcounted.legible
    (Dict.ofList [("t1", "alice")]) rfl v.targetId _ v.entry hstands with ⟨views, hviews, hmem⟩
  rw [hview] at hmem
  exact ⟨hcounted, hstands, views, hviews, hmem⟩

/-- A container whose name has characters that are escaped in a path. -/
def oddContainer : List Session.Operation :=
  [.deploy "CONTAINER alice/a\"b|%4é:7 DO SET compress"]

/-- The policy that is listed for it. -/
def oddView : StaticView where
  id := 1
  targetId := "t1/a\"b|%4é:7"
  targetName := "alice/a\"b|%4é:7"
  entry := Session.plainEntry 1 "compress" 1

theorem stored_oddContainer :
    (Session.withCompress.performAll Session.alice {} oddContainer).store.hashAt
      (pipelineKey oddView.targetId) =
        .ok (Dict.ofList [(Number.writeNatural oddView.id, oddView.entry.toText)]) ∧
      (Session.withCompress.performAll Session.alice {} oddContainer).effort < Number.maxWord := by
  have hstored : (Session.withCompress.performAll Session.alice {} oddContainer).store.hashAt
      (pipelineKey oddView.targetId) =
        .ok (Dict.ofList [(Number.writeNatural oddView.id, oddView.entry.toText)]) ∧
      (Session.withCompress.performAll Session.alice {} oddContainer).effort = 1 := by
    decide +kernel
  refine ⟨hstored.1, ?_⟩
  rw [hstored.2]
  decide

/-- The policy is deleted by its target and its id. -/
theorem dropped_odd_container :
    ∃ views, (Session.withCompress.performAll Session.alice {} oddContainer).listing
        Session.alice = .ok views ∧ oddView ∈ views ∧
      ∃ r, received? usualEngine (deletion (entryKey oddView.targetId oddView.id)) = some r ∧
        ((Session.withCompress.performAll Session.alice {} oddContainer).run
          (Api.handle Session.alice {} r)).1 = { status := 204 } ∧
        (Session.withCompress.performAll Session.alice {} oddContainer).Dropped Session.alice
          ((Session.withCompress.performAll Session.alice {} oddContainer).run
            (Api.handle Session.alice {} r)).2 oddView := by
  rcases stored_oddContainer with ⟨hstored, heffort⟩
  have hengine : readEngine defaultEngine = .ok usualEngine := by decide +kernel
  have haddressable : Addressable oddView.targetId := by decide +kernel
  rcases listed_of_stored oddContainer heffort oddView
    (Session.storable_plainEntry 1 "compress" 1 (by decide) (by decide)) hstored
    (by decide +kernel) with ⟨-, hstands, views, hviews, hmem⟩
  refine ⟨views, hviews, hmem, ?_⟩
  exact (dropped_iff_addressable Session.alice {} Session.withCompress Session.fresh_withCompress
    (Session.slashless_alice _) oddContainer heffort defaultEngine usualEngine hengine (by decide)
    views hviews oddView hmem).mpr ⟨haddressable, hstands⟩

/-- Two containers, of which the second has the name of the first with more behind it. -/
def twoContainers : List Session.Operation :=
  [.deploy "CONTAINER alice/b DO SET compress\nCONTAINER alice/b:1?c DO SET compress"]

/-- The policies that are listed for them. -/
def firstView : StaticView where
  id := 1
  targetId := "t1/b"
  targetName := "alice/b"
  entry := Session.plainEntry 1 "compress" 1

def secondView : StaticView where
  id := 2
  targetId := "t1/b:1?c"
  targetName := "alice/b:1?c"
  entry := Session.plainEntry 2 "compress" 2

/-- The words that are meant for the second policy delete the first one, since the question mark
    ends the path, and the answer is the same as if the second one had been deleted. -/
theorem dropped_other_of_mark :
    readEngine defaultEngine = .ok usualEngine ∧
      ∃ views, (Session.withCompress.performAll Session.alice {} twoContainers).listing
        Session.alice = .ok views ∧ secondView ∈ views ∧
      ∃ r, received? usualEngine (deletion (entryKey secondView.targetId secondView.id)) = some r ∧
        ((Session.withCompress.performAll Session.alice {} twoContainers).run
          (Api.handle Session.alice {} r)).1 = { status := 204 } ∧
        (Session.withCompress.performAll Session.alice {} twoContainers).Dropped Session.alice
          ((Session.withCompress.performAll Session.alice {} twoContainers).run
            (Api.handle Session.alice {} r)).2 firstView ∧
        ¬ (Session.withCompress.performAll Session.alice {} twoContainers).Dropped Session.alice
          ((Session.withCompress.performAll Session.alice {} twoContainers).run
            (Api.handle Session.alice {} r)).2 secondView := by
  have hstored : ((Session.withCompress.performAll Session.alice {} twoContainers).store.hashAt
      (pipelineKey firstView.targetId) =
        .ok (Dict.ofList [(Number.writeNatural firstView.id, firstView.entry.toText)]) ∧
      (Session.withCompress.performAll Session.alice {} twoContainers).store.hashAt
        (pipelineKey secondView.targetId) =
        .ok (Dict.ofList [(Number.writeNatural secondView.id, secondView.entry.toText)])) ∧
      (Session.withCompress.performAll Session.alice {} twoContainers).effort = 2 := by
    decide +kernel
  have heffort : (Session.withCompress.performAll Session.alice {} twoContainers).effort <
      Number.maxWord := by
    rw [hstored.2]
    decide
  rcases listed_of_stored twoContainers heffort firstView
    (Session.storable_plainEntry 1 "compress" 1 (by decide) (by decide)) hstored.1.1
    (by decide +kernel) with ⟨hcounted, hfirst, views, hviews, hmem⟩
  rcases listed_of_stored twoContainers heffort secondView
    (Session.storable_plainEntry 2 "compress" 2 (by decide) (by decide)) hstored.1.2
    (by decide +kernel) with ⟨-, hsecond, views', hviews', hmem'⟩
  rw [hviews, Except.ok.injEq] at hviews'
  subst hviews'
  generalize Session.withCompress.performAll Session.alice {} twoContainers = u at *
  rcases hcounted.bound with ⟨n, -, hledger⟩
  rcases Session.dropped_deleteEntry Session.alice {} u hcounted.unrefused n hledger
    hcounted.legible views hviews firstView hmem hfirst with ⟨hanswer, hdropped⟩
  have hreceived : received? usualEngine
      (deletion (entryKey secondView.targetId secondView.id)) =
        some { method := .delete, resource := "/policies/static/t1/b:1?c:2" } := by
    decide +kernel
  have hread := (read_eq_deleteEntry_iff
    { method := .delete, resource := "/policies/static/t1/b:1?c:2" } rfl
    ["policies", "static", "t1", "b:1"] (by decide +kernel) firstView.targetId firstView.id).mpr
    ⟨["t1", "b:1"], "t1/b:1", rfl, by decide, by decide +kernel, by decide +kernel⟩
  refine ⟨by decide +kernel, views, hviews, hmem', _, hreceived, ?_⟩
  rw [Session.run_handle Session.alice {} u _ (by simp) _ hread]
  refine ⟨hanswer, hdropped, fun hother => ?_⟩
  -- The second policy still stands where it stood.
  have hfield := hdropped.fields secondView.targetId (Number.writeNatural secondView.id) (by decide)
  rcases Option.bind_eq_some_iff.mp hsecond with ⟨text, htext, -⟩
  rw [hother.gone, htext] at hfield
  exact nomatch hfield

end Command

end StoragePolicy
