import StoragePolicy.Proofs.Condition.RoundTrip
import StoragePolicy.Proofs.Directory
import StoragePolicy.Proofs.Engine.Calls
import StoragePolicy.Proofs.Rule.Parsed
import StoragePolicy.Proofs.Text.Pieces

/-!
# Creating policies

Deploying a dynamic rule takes an id for each of its targets and actions, stores a record under it,
and starts a monitor. None of the three can fail on a sound session: the id is new, so that nothing
stands under its key and no monitor runs for it, and the condition that is stored as a text is read
back. What the record says about the monitor is what it was started with, because the text of the
rule is read again as the same rule, and the target is rebuilt from its id and name.

## Main definitions

* `Tenants.Slashless`, `Directory.Slashless`: Tenants whose ids and names have no slash.
* `Rule.Fits`: A target and an action of a rule, with the place of the action.
* `Session.created`: The session after a policy has been created.

## Theorems

* `describes_newRecord`: A new record describes the monitor that is started for it.
* `run_deployPairs_cons`: A target and an action become a policy under the next id.
* `path_deployPairs`: Deploying a rule on its targets creates one policy after the other.
* `reaches_deploy`: Deploying a text passes and creates.
-/

namespace StoragePolicy

open Registry

/-! ### Targets of a rule -/

/-- Tenants whose ids and names have no slash. -/
def Tenants.Slashless (names : Dict String String) : Prop :=
  ∀ id name, names.get? id = some name → Target.Slashless id ∧ Target.Slashless name

/-- A directory all of whose tenants have no slash in their ids and names. -/
def Directory.Slashless (d : Store) : Directory → Prop
  | .fixed tenants => Tenants.Slashless tenants.names
  | .stored => ∀ names, d.hashAt Directory.namesKey = .ok names → Tenants.Slashless names

namespace Tenants

theorem slashless_of_resolveAll (t : Tenants) (h : Slashless t.names) (targets : List RuleTarget)
    (resolved : List Target) (hall : t.resolveAll targets = .ok resolved) (target : Target)
    (hmem : target ∈ resolved) :
    Target.Slashless target.tenantId ∧ Target.Slashless target.tenantName := by
  rcases (t.resolution_resolveAll targets).meant resolved hall target hmem with
    ⟨declared, -, hmeans⟩
  rcases hmeans.named with ⟨text, -, hnamed⟩
  exact h _ _ (get?_of_named t _ _ _ hnamed)

end Tenants

namespace Directory

theorem namesKey_not_own : ¬ Own namesKey := by
  rintro (h | h | ⟨targetId, h⟩ | ⟨name, h⟩)
  · exact absurd h (by decide)
  · exact absurd h (by decide)
  · have hchars := congrArg String.toList h
    simp [namesKey, pipelineKey, pipelineStem] at hchars
  · have hchars := congrArg String.toList h
    simp [namesKey, PolicyRecord.keyStem] at hchars

theorem slashless_of_sameCatalog (directory : Directory) (d d' : Store)
    (h : directory.Slashless d) (hsame : d.SameCatalog d') : directory.Slashless d' := by
  cases directory with
  | fixed tenants => exact h
  | stored =>
    intro names hnames
    rw [Store.hashAt_congr d' d _ (hsame _ namesKey_not_own)] at hnames
    exact h names hnames

/-- The targets of a rule that is checked have no slash in the ids and names of their tenants. -/
theorem slashless_of_check (directory : Directory) (d : Store) (h : directory.Slashless d)
    (rule : Rule) (targets : List Target)
    (hcheck : (on (Engine.check directory rule) d).1 = .ok targets) (target : Target)
    (hmem : target ∈ targets) :
    Target.Slashless target.tenantId ∧ Target.Slashless target.tenantName := by
  rcases on_bind_eq_ok _ _ _ _ hcheck with ⟨resolved, hresolved, hrest⟩
  rcases on_bind_eq_ok _ _ _ _ hrest with ⟨-, -, hpure⟩
  cases hpure
  rcases on_bind_eq_ok _ _ _ _ hresolved with ⟨tenants, hread, hall⟩
  refine Tenants.slashless_of_resolveAll tenants ?_ _ _ hall target hmem
  rcases on_bind_eq_ok _ _ _ _ hread with ⟨names, hnames, hrest⟩
  rcases on_bind_eq_ok _ _ _ _ hrest with ⟨enabled, -, hpure⟩
  cases hpure
  cases directory with
  | fixed tenants =>
    cases hnames
    exact h
  | stored => exact h names ((Outcome.mapError_eq_ok _ _ _).mp hnames)

end Directory

/-! ### New records -/

/-- A target and an action of a rule, with the place of the action. -/
structure Rule.Fits (rule : Rule) (pair : Target × FilterAction × Nat) : Prop where
  action : rule.actions[pair.2.2]? = some pair.2.1
  tenantId : Target.Slashless pair.1.tenantId
  tenantName : Target.Slashless pair.1.tenantName

namespace Engine

section NewRecord

variable (settings : Settings) (line : String) (rule : Rule) (hrule : Rule.parse line = .ok rule)
  (pair : Target × FilterAction × Nat) (id : Nat)

/-- The record that is stored for a target and an action. -/
def recordOf (conditionText : String) : PolicyRecord :=
  newRecord settings id line conditionText rule pair.1 pair.2.1 pair.2.2

include hrule

/-- A new record can be stored. -/
theorem storable_newRecord (conditionText : String) (hid : id ≤ Number.maxWord)
    (hindex : pair.2.2 ≤ Number.maxWord) :
    (recordOf settings line rule pair id conditionText).Storable where
  id := hid
  actionIndex := hindex
  objectType := by
    intro hempty
    have htype : rule.objectFilter.bind (fun f => f.objectType) = some "" := hempty
    rcases Option.bind_eq_some_iff.mp htype with ⟨filter, hfilter, hname⟩
    exact (Rule.objectFilter_of_parse line rule filter hrule hfilter).objectType hname
  objectSize := by
    intro size hsize
    have hbind : rule.objectFilter.bind (fun f => f.objectSize) = some size := hsize
    rcases Option.bind_eq_some_iff.mp hbind with ⟨filter, hfilter, hvalue⟩
    exact (Rule.objectFilter_of_parse line rule filter hrule hfilter).objectSize size hvalue

omit settings pair id in
/-- The condition of a rule can be read back from its text. -/
theorem parse_conditionText (conditionText : String)
    (hcondition : rule.conditionText = some conditionText) :
    ∃ condition, Condition.parse conditionText = .ok condition := by
  rcases Option.map_eq_some_iff.mp hcondition with ⟨c, hc, rfl⟩
  rcases Rule.condition_of_parse line rule c hrule hc with ⟨text, htext⟩
  exact Condition.parse_text_isOk text c htext

/-- A new record describes the monitor that is started for it: its condition is read back, and its
    rule is read again with the action where it was. -/
theorem describes_newRecord (htrim : Text.trim line.toList = line.toList)
    (conditionText : String) (hcondition : rule.conditionText = some conditionText)
    (hpair : rule.Fits pair) :
    ∃ condition, (recordOf settings line rule pair id conditionText).Describes
      ⟨pair.1, pair.2.1, rule.objectFilter⟩ condition := by
  rcases parse_conditionText line rule hrule conditionText hcondition with ⟨condition, hread⟩
  refine ⟨condition, ?_, hread⟩
  have htext : (recordOf settings line rule pair id conditionText).ruleText = line := by
    rw [recordOf, newRecord, htrim, String.ofList_toList]
  have haction : recordedAction? rule (recordOf settings line rule pair id conditionText) =
      some pair.2.1 := by
    have hget : rule.actions[(recordOf settings line rule pair id conditionText).actionIndex]? =
        some pair.2.1 := hpair.action
    rw [recordedAction?, hget]
    simp [Option.filter, recordOf, newRecord]
  have htarget : (recordOf settings line rule pair id conditionText).target = pair.1 :=
    Target.ofStored_id_name pair.1 hpair.tenantId hpair.tenantName
  simp only [recordedBinding, htext, hrule, haction, htarget]

end NewRecord

/-- The pairs of a rule are its targets with its actions, and the place of an action does not exceed
    that of its pair. -/
theorem place_pairs (rule : Rule) (targets : List Target) (k : Nat)
    (pair : Target × FilterAction × Nat) (h : (pairs rule targets)[k]? = some pair) :
    pair.1 ∈ targets ∧ rule.actions[pair.2.2]? = some pair.2.1 ∧ pair.2.2 ≤ k := by
  induction targets generalizing k with
  | nil => exact nomatch h
  | cons target rest ih =>
    have hcons : pairs rule (target :: rest) =
        rule.actions.zipIdx.map (fun action => (target, action)) ++ pairs rule rest := rfl
    rw [hcons, List.getElem?_append] at h
    split at h
    · rw [List.getElem?_map, List.getElem?_zipIdx, Option.map_map, Option.map_eq_some_iff] at h
      rcases h with ⟨action, haction, rfl⟩
      exact ⟨List.mem_cons_self, by simpa using haction, by simp⟩
    · rcases ih _ h with ⟨htarget, haction, hindex⟩
      exact ⟨List.mem_cons_of_mem _ htarget, haction, by omega⟩

/-- The pairs of a rule fit it. -/
theorem fits_pairs (rule : Rule) (targets : List Target)
    (htargets : ∀ target ∈ targets,
      Target.Slashless target.tenantId ∧ Target.Slashless target.tenantName) (k : Nat)
    (pair : Target × FilterAction × Nat) (h : (pairs rule targets)[k]? = some pair) :
    rule.Fits pair ∧ pair.2.2 ≤ k := by
  rcases place_pairs rule targets k pair h with ⟨htarget, haction, hindex⟩
  have hslash := htargets pair.1 htarget
  exact ⟨⟨haction, hslash.1, hslash.2⟩, hindex⟩

end Engine

/-! ### Creating a policy -/

namespace Store

/-- The store after a record has been stored under a new id. -/
def withRecord (d : Store) (r : PolicyRecord) : Store :=
  ((d.exec nextIdCall).2.exec (.apply (recordChanges r))).2

section WithRecord

variable (d : Store) (n : Nat) (h : d.Ledger n) (r : PolicyRecord)

theorem sameCatalog_withRecord : d.SameCatalog (d.withRecord r) := by
  intro key hkey
  rw [withRecord, get?_exec _ _ key, get?_exec _ _ key]
  · simp only [Call.changed, List.mem_cons, List.not_mem_nil, or_false]
    rintro (rfl | rfl)
    · exact hkey (Or.inl rfl)
    · exact hkey (Or.inr (Or.inl rfl))
  · intro hmem
    rcases changed_recordChanges r key hmem with rfl | rfl
    · exact hkey (Or.inr (Or.inr (Or.inr ⟨_, rfl⟩)))
    · exact hkey (Or.inr (Or.inl rfl))

include h

/-- Nothing stands under the key of an id that has not been taken. -/
theorem get?_of_fresh (id : Nat) (hid : n < id) : d.get? (PolicyRecord.storeKey id) = none := by
  cases hget : d.get? (PolicyRecord.storeKey id) with
  | none => rfl
  | some value =>
    have hheld : d.Holds (Number.writeNatural id) .record := by
      rw [Holds, ← PolicyRecord.storeKey, hget]
      rfl
    rcases h.bounded _ _ hheld with ⟨id', heq, -, hle⟩
    have hid' := Number.writeNatural_inj _ _ heq
    omega

theorem record?_of_fresh (id : Nat) (hid : n < id) : d.record? id = none :=
  recordAt_of_get?_eq_none d _ (get?_of_fresh d n h id hid)

variable (hroom : n < Number.maxWord) (hid : r.id = n + 1)

include hroom hid

/-- Storing a record under the next id is not refused, and changes one line of the table. -/
theorem on_putNew : on (putDynamic r) (d.exec nextIdCall).2 = (.ok (), d.withRecord r) ∧
    (d.withRecord r).Ledger (n + 1) ∧ d.Refiled (d.withRecord r) r.id (some r) := by
  rcases on_nextId d n h hroom with ⟨-, hledger, hheld⟩
  -- To take an id changes no record, and the id is fresh, so that there is nothing under the key.
  have hsame : d.SameRecords (d.exec nextIdCall).2 := by
    intro name
    refine get?_exec d nextIdCall _ ?_
    simp [Call.changed, recordKey_ne_counterKey, recordKey_ne_reservationKey]
  have hnone : (d.exec nextIdCall).2.get? (PolicyRecord.storeKey r.id) = none := by
    rw [PolicyRecord.storeKey, hsame, ← PolicyRecord.storeKey, hid]
    exact get?_of_fresh d n h (n + 1) (Nat.lt_succ_self n)
  rcases hledger.reservations with ⟨reserved, hreserved⟩
  have hfields : (d.exec nextIdCall).2.hashAt (PolicyRecord.storeKey r.id) =
      .ok Dict.empty := by
    rw [hashAt, hnone]
  have hexec := exec_putDynamic _ r Dict.empty reserved hfields hreserved
  -- The ledger counts the record as the use of the id that has just been taken.
  have huse : (Use.putDynamic r).call (n + 1) = some (.apply (recordChanges r)) := by
    rw [Use.call, ← hid]
  refine ⟨?_, (ledger_exec_use _ _ _ _ _ hledger hheld huse).1, ?_⟩
  · exact on_ask_ok (.apply (recordChanges r)) _ () (by rw [hexec])
  · rw [withRecord, hexec, Dict.insertAll_empty]
    refine refiled_of_sameRecords _ _ _ _ _ hsame ?_
    refine refiled_sameRecords _ _ _ _ _ (refiled_putHash _ r) ?_
    exact sameRecords_putHash _ _ _ fun name => recordKey_ne_reservationKey name

end WithRecord

end Store

namespace Session

/-- The session after a policy has been created. -/
def created (s : Session) (r : PolicyRecord) (binding : MonitorBinding) (condition : Condition) :
    Session :=
  (s.withStore (s.store.withRecord r)).withMonitors
    (s.monitors.started r.id condition binding)

theorem effort_created (s : Session) (r : PolicyRecord) (binding : MonitorBinding)
    (condition : Condition) : (s.created r binding condition).effort = s.effort + 1 := rfl

/-- A record that the store takes is stored. -/
theorem run_storeRecord (s : Session) (r : PolicyRecord) (d : Store) (hs : s.Open)
    (hput : on (putDynamic r) s.store = (.ok (), d)) :
    s.run (Engine.storeRecord r).run = (.ok (), s.withStore d) := by
  have hattempt := run_attempt s (Engine.ofRegistry (putDynamic r))
  rw [run_ofRegistry s _ hs, hput] at hattempt
  rw [Engine.storeRecord, run_bind_ok s _ _ _ _ hattempt]
  rfl

/-- The deeds of a deployment. -/
def Grows : Deed → Prop
  | .pass | .create _ => True
  | _ => False

/-- The first pair of a deployment becomes a policy under the next id, whatever the rule, if no
    monitor runs under that id and the text of the condition can be read. -/
theorem run_deployPairs_start (settings : Engine.Settings) (line : String) (rule : Rule)
    (conditionText : String) (s : Session) (hs : s.Open) (n : Nat) (hledger : s.store.Ledger n)
    (hroom : n < Number.maxWord) (condition : Condition)
    (hparse : Condition.parse conditionText = .ok condition)
    (hlive : s.monitors.isLive (n + 1) = false) (pair : Target × FilterAction × Nat)
    (rest : List (Target × FilterAction × Nat)) (done : Engine.Deployment) :
    s.run (Engine.deployPairs settings line conditionText rule (pair :: rest) done).run =
      (s.created (Engine.recordOf settings line rule pair (n + 1) conditionText)
        ⟨pair.1, pair.2.1, rule.objectFilter⟩ condition).run
        (Engine.deployPairs settings line conditionText rule rest
          { done with policies := done.policies ++ [n + 1] }).run := by
  generalize hr : Engine.recordOf settings line rule pair (n + 1) conditionText = r
  have hid : r.id = n + 1 := by
    rw [← hr]
    rfl
  have htext : r.conditionText = conditionText := by
    rw [← hr]
    rfl
  have hput := (Store.on_putNew s.store n hledger r hroom hid).1
  -- Take the id, store the record, start the monitor.
  have hnext := run_ofRegistry s nextId hs
  rw [(on_nextId s.store n hledger hroom).1] at hnext
  have hstore := run_storeRecord (s.withStore (s.store.exec nextIdCall).2) r _ hs hput
  have hspawn := run_attempt ((s.withStore (s.store.exec nextIdCall).2).withStore
    (s.store.withRecord r)) (Engine.spawn r ⟨pair.1, pair.2.1, rule.objectFilter⟩)
  rw [run_spawn ((s.withStore (s.store.exec nextIdCall).2).withStore (s.store.withRecord r)) r _
    condition (hid ▸ hlive) (htext ▸ hparse)] at hspawn
  rw [Engine.deployPairs, run_bind_ok _ _ _ _ _ hnext]
  dsimp only
  have hrecord : Engine.newRecord settings (n + 1) line conditionText rule pair.1 pair.2.1
      pair.2.2 = r := hr
  rw [hrecord, run_bind_ok _ _ _ _ _ hstore, run_bind_ok _ _ _ _ _ hspawn]
  rfl

section Deploy

variable (settings : Engine.Settings) (line : String) (rule : Rule)
  (hrule : Rule.parse line = .ok rule) (htrim : Text.trim line.toList = line.toList)

section Pairs

variable (conditionText : String) (hcondition : rule.conditionText = some conditionText)

include hrule htrim hcondition

/-- The first pair of a deployment becomes a policy under the next id. -/
theorem run_deployPairs_cons (s : Session) (hs : s.Sound) (n : Nat) (hn : n ≤ s.effort)
    (hledger : s.store.Ledger n) (hroom : n < Number.maxWord)
    (pair : Target × FilterAction × Nat) (hpair : rule.Fits pair)
    (hindex : pair.2.2 ≤ Number.maxWord) (rest : List (Target × FilterAction × Nat))
    (done : Engine.Deployment) :
    ∃ condition, Condition.parse conditionText = .ok condition ∧
      (s.created (Engine.recordOf settings line rule pair (n + 1) conditionText)
        ⟨pair.1, pair.2.1, rule.objectFilter⟩ condition).Counted ∧
      Does (.create (Engine.recordOf settings line rule pair (n + 1) conditionText)) s
        (s.created (Engine.recordOf settings line rule pair (n + 1) conditionText)
          ⟨pair.1, pair.2.1, rule.objectFilter⟩ condition) ∧
      s.run (Engine.deployPairs settings line conditionText rule (pair :: rest) done).run =
        (s.created (Engine.recordOf settings line rule pair (n + 1) conditionText)
          ⟨pair.1, pair.2.1, rule.objectFilter⟩ condition).run
          (Engine.deployPairs settings line conditionText rule rest
            { done with policies := done.policies ++ [n + 1] }).run := by
  have hstorable := Engine.storable_newRecord settings line rule hrule pair (n + 1) conditionText
    (by omega) hindex
  rcases Engine.describes_newRecord settings line rule hrule pair (n + 1) htrim conditionText
    hcondition hpair with ⟨condition, hdescribes⟩
  have hparse : Condition.parse conditionText = .ok condition := hdescribes.condition
  refine ⟨condition, hparse, ?_⟩
  -- From here on the record has a name. What is used of it is its id and that it is alive.
  generalize hr : Engine.recordOf settings line rule pair (n + 1) conditionText = r at *
  have hid : r.id = n + 1 := by
    rw [← hr]
    rfl
  have halive : r.alive = true := by
    rw [← hr]
    rfl
  -- Nothing is filed under a fresh id, so that no monitor is live under it either.
  have hnone : s.store.record? r.id = none :=
    Store.record?_of_fresh s.store n hledger r.id (by omega)
  have hlive := not_isLive_of_record?_eq_none s hs r.id hnone
  rcases Store.on_putNew s.store n hledger r hroom hid with ⟨-, hafter, hrefiled⟩
  have hdoes : Does (.create r) s (s.created r ⟨pair.1, pair.2.1, rule.objectFilter⟩ condition) :=
    ⟨Store.sameCatalog_withRecord s.store r, hnone, hstorable, halive, hrefiled, _, condition,
      hdescribes, rfl⟩
  have hlegible : (s.store.withRecord r).Legible :=
    Store.legible_exec _ _ (tidy_putDynamic r) (Store.legible_exec _ _ tidy_nextId hs.legible)
  have hcounted := counted_of_effect s _ hs _ hdoes.effect hs.unrefused hlegible
    ⟨n + 1, by rw [effort_created]; omega, hafter⟩
  refine ⟨hcounted, hdoes, ?_⟩
  rw [← hr]
  exact run_deployPairs_start settings line rule conditionText s hs.unrefused n hledger hroom
    condition hparse (hid ▸ hlive) pair rest done

/-- Deploying a rule on its targets creates one policy after the other, which counts as effort. -/
theorem path_deployPairs (pairs : List (Target × FilterAction × Nat)) (done : Engine.Deployment)
    (s : Session) (hs : s.Counted)
    (hpairs : ∀ k pair, pairs[k]? = some pair → rule.Fits pair ∧ pair.2.2 ≤ s.effort + k)
    (heffort : (s.run (Engine.deployPairs settings line conditionText rule pairs
      done).run).2.effort < Number.maxWord) :
    (s.run (Engine.deployPairs settings line conditionText rule pairs done).run).2.Counted ∧
      Path Grows s
        (s.run (Engine.deployPairs settings line conditionText rule pairs done).run).2 ∧
      s.effort + pairs.length ≤
        (s.run (Engine.deployPairs settings line conditionText rule pairs done).run).2.effort := by
  induction pairs generalizing done s with
  | nil => exact ⟨hs, .refl s, Nat.le_refl _⟩
  | cons pair rest ih =>
    have hle := effort_run (Engine.deployPairs settings line conditionText rule (pair :: rest)
      done).run s
    rcases hs.bound with ⟨n, hn, hledger⟩
    rcases hpairs 0 pair rfl with ⟨hfits, hindex⟩
    rcases run_deployPairs_cons settings line rule hrule htrim conditionText hcondition s hs.toSound
      n hn hledger (by omega) pair hfits (by omega) rest done with
      ⟨condition, -, ht, hdoes, hrun⟩
    rw [hrun] at heffort ⊢
    -- Each pair takes one id, so that the bound on the places moves along with the effort.
    have hrest : ∀ k pair, rest[k]? = some pair → rule.Fits pair ∧ pair.2.2 ≤ s.effort + 1 + k := by
      intro k other hother
      have hsame := hpairs (k + 1) other hother
      exact ⟨hsame.1, by omega⟩
    rcases ih _ _ ht hrest heffort with ⟨hcounted, hpath, hlength⟩
    refine ⟨hcounted, .step (.create _) s _ _ trivial hdoes ht.toSound hpath, ?_⟩
    rw [effort_created] at hlength
    rw [List.length_cons]
    omega

end Pairs

variable (directory : Directory)

include hrule htrim

theorem reaches_deployDynamic (s : Session) (targets : List Target)
    (htargets : ∀ target ∈ targets,
      Target.Slashless target.tenantId ∧ Target.Slashless target.tenantName) :
    Reaches Grows s (s.run (Engine.deployDynamic settings line rule targets).run).2 := by
  refine ⟨effort_run _ s, fun heffort hs => ?_⟩
  rw [Engine.deployDynamic] at heffort ⊢
  cases hcondition : rule.conditionText with
  | none => exact ⟨hs, .refl s⟩
  | some conditionText =>
    rw [hcondition] at heffort
    rcases path_deployPairs settings line rule hrule htrim conditionText hcondition _ _ s hs
      (fun k pair hpair => by
        rcases Engine.fits_pairs rule targets htargets k pair hpair with ⟨hfits, hindex⟩
        exact ⟨hfits, by omega⟩) heffort with ⟨hcounted, hpath, -⟩
    exact ⟨hcounted, hpath⟩

theorem reaches_deployRule (s : Session) (hdirectory : directory.Slashless s.store) :
    Reaches Grows s (s.run (Engine.deployRule directory settings line rule)).2 := by
  refine ⟨effort_run _ s, fun heffort hs => ?_⟩
  have hcheck := run_ofRegistry s (Engine.check directory rule) hs.unrefused
  -- The check takes no id and files nothing.
  have hfirst : Reaches Grows s (s.withStore (on (Engine.check directory rule) s.store).2) := by
    have hworks := works_ofRegistry_idle Grows trivial _ (idle_check directory rule) s
    rw [hcheck] at hworks
    exact hworks
  rw [Engine.deployRule, run_bind, hcheck] at heffort ⊢
  dsimp only at heffort ⊢
  cases hresult : (on (Engine.check directory rule) s.store).1 with
  | error e =>
    rw [hresult] at heffort
    exact hfirst.path heffort hs
  | ok targets =>
    rw [hresult] at heffort
    dsimp only at heffort ⊢
    refine (reaches_trans _ _ _ hfirst ?_).path heffort hs
    split
    · rw [run_bind]
      -- What is deployed on are targets that the check has resolved.
      have htargets := Directory.slashless_of_check directory s.store hdirectory rule targets
        hresult
      have hdynamic := reaches_deployDynamic settings line rule hrule htrim
        (s.withStore (on (Engine.check directory rule) s.store).2) targets htargets
      cases ((s.withStore (on (Engine.check directory rule) s.store).2).run
        (Engine.deployDynamic settings line rule targets).run).1 with
      | ok done => exact hdynamic
      | error e => exact hdynamic
    · exact works_deployStatic Grows trivial rule.objectFilter
        (fun filter hfilter => Rule.objectFilter_of_parse line rule filter hrule hfilter) _ _ _

omit hrule in
theorem reaches_deployLine (s : Session) (hdirectory : directory.Slashless s.store) :
    Reaches Grows s (s.run (Engine.deployLine directory settings line)).2 := by
  rw [Engine.deployLine]
  cases hparse : Rule.parse line with
  | error e => exact reaches_refl s
  | ok rule =>
    dsimp only
    rw [run_bind]
    exact reaches_deployRule settings line rule hparse htrim directory s hdirectory

end Deploy

/-- The catalog is the same after any deeds. -/
theorem catalog_of_path (kind : Deed → Prop) (s t : Session) (h : Path kind s t) :
    s.store.SameCatalog t.store := by
  induction h with
  | refl s => exact fun _ _ => rfl
  | step deed s t u hkind hdoes hsound hrest ih =>
    exact fun key hkey => (ih key hkey).trans (hdoes.catalog key hkey)

theorem reaches_deployLines (directory : Directory) (settings : Engine.Settings)
    (lines : List String) (hlines : ∀ line ∈ lines, Text.trim line.toList = line.toList)
    (s : Session) (hdirectory : directory.Slashless s.store) :
    Reaches Grows s (s.run (Engine.deployLines directory settings lines)).2 := by
  induction lines generalizing s with
  | nil => exact reaches_refl s
  | cons line rest ih =>
    refine ⟨effort_run _ s, fun heffort hs => ?_⟩
    have hfirst := reaches_deployLine settings line (hlines line List.mem_cons_self) directory s
      hdirectory
    rw [Engine.deployLines, run_bind] at heffort ⊢
    rw [run_bind] at heffort ⊢
    generalize (s.run (Engine.deployLine directory settings line)).2 = t at *
    have hlast := effort_run (Engine.deployLines directory settings rest) t
    rw [run_pure] at heffort ⊢
    -- The directory has not changed when the other lines are deployed.
    rcases hfirst.path (Nat.lt_of_le_of_lt hlast heffort) hs with ⟨ht, hpath⟩
    have hrest := ih (fun other hother => hlines other (List.mem_cons_of_mem _ hother)) t
      (Directory.slashless_of_sameCatalog directory _ _ hdirectory
        (catalog_of_path Grows s t hpath))
    exact (reaches_trans _ _ _ hfirst hrest).path heffort hs

theorem trim_of_mem_ruleLines (text line : String) (h : line ∈ Engine.ruleLines text) :
    Text.trim line.toList = line.toList := by
  rcases List.mem_filterMap.mp h with ⟨chars, hchars, hline⟩
  rcases List.mem_map.mp hchars with ⟨raw, -, rfl⟩
  split at hline
  · exact nomatch hline
  · cases hline
    rw [String.toList_ofList]
    exact Text.trim_trim raw

/-- Deploying a text passes and creates. -/
theorem reaches_deploy (directory : Directory) (settings : Engine.Settings) (text : String)
    (s : Session) (hdirectory : directory.Slashless s.store) :
    Reaches Grows s (s.run (Engine.deploy directory settings text)).2 := by
  rw [Engine.deploy, run_bind]
  exact reaches_deployLines directory settings _ (trim_of_mem_ruleLines text) s hdirectory

end Session

end StoragePolicy
