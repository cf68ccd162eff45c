import StoragePolicy.Proofs.Engine.Rejection

/-!
# What a deployment comes to

The deployment of a dynamic rule whose targets and filters are known cannot fail. It takes one id
after the other, target by target and for each target action by action, so that the action in place
`j` on the target in place `i` gets the id `last + 1 + i * m + j`, where `last` is the last id taken
before and `m` the number of actions. Nothing else changes but the counter: every reservation ends
when its record is stored, and the storage side hears nothing until a monitor fires.

This holds in every state that a session reaches, also after the counter has been set back, because
no id beyond the counter is in use.

## Main definitions

* `Store.lastId`: The last id that has been taken.
* `Engine.newIds`: The ids that follow it.
* `Session.Grown`: What some pairs of targets and actions come to, one after the other.
* `Session.Deployed`: What a rule comes to, by targets and actions.

## Theorems

* `getElem?_pairs`: The pairs of a rule stand row by row.
* `grown_cons`: What the first pair comes to, and the others after it.
* `run_deployPairs`: The pairs of a rule become policies.
* `deployed_of_run`: A dynamic rule becomes policies in every state that a session reaches.
-/

namespace StoragePolicy

open Registry

/-! ### What a rule is checked against is there -/

namespace Registry

/-- The filters of a rule pass the check if they are known. -/
theorem on_checkFilters (d : Store) (actions : List FilterAction)
    (hknown : ∀ action ∈ actions, ∃ filter,
      (on (getFilter action.filterName) d).1 = .ok (some filter)) :
    on (Engine.checkFilters actions) d = (.ok (), d) := by
  induction actions with
  | nil => rfl
  | cons action rest ih =>
    rcases hknown action List.mem_cons_self with ⟨filter, hfilter⟩
    have hlook := on_looks _ (makes_requireFilter _ action.filterName
      (Session.not_own_filterKey _)) d
    have hrequire := on_requireFilter action.filterName d filter hfilter
    have hfirst : on (discard (requireFilter action.filterName)) d = (.ok (), d) := by
      rw [on_discard, hrequire, hlook]
      rfl
    rw [Engine.checkFilters, on_bind_ok _ _ d d () hfirst]
    exact ih fun other hother => hknown other (List.mem_cons_of_mem _ hother)

/-- A rule passes the check if its targets are found and its filters are known. -/
theorem on_check (directory : Directory) (rule : Rule) (d : Store) (targets : List Target)
    (htargets : (on (directory.resolveAll rule.targets) d).1 = .ok targets)
    (hfilters : ∀ action ∈ rule.actions, ∃ filter,
      (on (getFilter action.filterName) d).1 = .ok (some filter)) :
    on (Engine.check directory rule) d = (.ok targets, d) := by
  have hresolved := on_looks _ (makes_resolveAll _ directory Directory.namesKey_not_own
    Directory.enabledKey_not_own rule.targets) d
  rw [Engine.check, on_bind_ok _ _ d d targets (Prod.ext htargets hresolved),
    on_bind_ok _ _ d d () (on_checkFilters d rule.actions hfilters), on_pure]

/-- Filters that have been looked up are known. -/
theorem known_of_checkFilters (d : Store) (actions : List FilterAction)
    (h : (on (Engine.checkFilters actions) d).1 = .ok ()) (action : FilterAction)
    (hmem : action ∈ actions) :
    ∃ filter, (on (getFilter action.filterName) d).1 = .ok (some filter) := by
  induction actions with
  | nil => exact absurd hmem List.not_mem_nil
  | cons first rest ih =>
    have hlook := on_looks _ (makes_requireFilter _ first.filterName
      (Session.not_own_filterKey _)) d
    rcases on_bind_eq_ok _ _ _ _ h with ⟨⟨⟩, hfirst, hrest⟩
    rw [on_discard] at hfirst hrest
    rw [hlook] at hrest
    rcases List.mem_cons.mp hmem with rfl | hmem
    · rcases (Outcome.map_eq_ok _ _ _).mp hfirst with ⟨filter, hfound, -⟩
      rcases on_bind_eq_ok _ _ _ _ hfound with ⟨found, hget, hknown⟩
      cases found with
      | some known => exact ⟨known, hget⟩
      | none => exact nomatch hknown
    · exact ih hrest hmem

/-- A rule that has passed the check has its targets and its filters. -/
theorem found_of_check (directory : Directory) (rule : Rule) (d : Store) (targets : List Target)
    (h : (on (Engine.check directory rule) d).1 = .ok targets) :
    (on (directory.resolveAll rule.targets) d).1 = .ok targets ∧
      ∀ action ∈ rule.actions, ∃ filter,
        (on (getFilter action.filterName) d).1 = .ok (some filter) := by
  have hstay := on_looks _ (makes_resolveAll _ directory Directory.namesKey_not_own
    Directory.enabledKey_not_own rule.targets) d
  rcases on_bind_eq_ok _ _ _ _ h with ⟨resolved, hresolved, hrest⟩
  rcases on_bind_eq_ok _ _ _ _ hrest with ⟨⟨⟩, hchecked, hpure⟩
  cases hpure
  rw [hstay] at hchecked
  exact ⟨hresolved, known_of_checkFilters d rule.actions hchecked⟩

end Registry

/-! ### Ids and pairs -/

/-- The last id that has been taken, and zero if there is no counter. -/
def Store.lastId (d : Store) : Nat :=
  match d.scalarAt counterKey with
  | .ok (some text) => (Number.readNatural text.toList).getD 0
  | _ => 0

/-- The last id is what the ledger says. -/
theorem Store.lastId_of_ledger (d : Store) (n : Nat) (h : d.Ledger n) : d.lastId = n := by
  rcases h.counts with ⟨hle, hget | ⟨hget, hzero⟩⟩
  · simp only [lastId, scalarAt, hget, Number.readNatural_writeNatural n hle, Option.getD_some]
  · simp only [lastId, scalarAt, hget, hzero]

namespace Engine

/-- The ids that follow the last one. -/
def newIds (last count : Nat) : List Nat := (List.range count).map fun k => last + 1 + k

theorem mem_newIds_iff (last count id : Nat) :
    id ∈ newIds last count ↔ last < id ∧ id ≤ last + count := by
  simp only [newIds, List.mem_map, List.mem_range]
  constructor
  · rintro ⟨k, hk, rfl⟩
    omega
  · rintro ⟨hlt, hle⟩
    exact ⟨id - (last + 1), by omega, by omega⟩

/-- New ids that are laid out in rows. -/
theorem mem_newIds_of_place (last i j rows columns : Nat) (hi : i < rows) (hj : j < columns) :
    last + 1 + i * columns + j ∈ newIds last (rows * columns) := by
  have hrow : (i + 1) * columns ≤ rows * columns := Nat.mul_le_mul_right _ hi
  rw [Nat.succ_mul] at hrow
  exact (mem_newIds_iff _ _ _).mpr (by omega)

theorem newIds_succ (last count : Nat) :
    newIds last (count + 1) = (last + 1) :: newIds (last + 1) count := by
  simp only [newIds, List.range_succ_eq_map, List.map_cons, List.map_map, Nat.add_zero]
  refine congrArg (List.cons (last + 1)) (List.map_congr_left fun k _ => ?_)
  simp only [Function.comp_apply]
  omega

/-- The report of a text with one dynamic rule: new policies, no failures and no error. -/
def DeployReport.deployed (line : String) (policies : List Nat) : DeployReport where
  lines := [{ rule := line, isDynamic := true, done := { policies, failures := [] },
              error := none }]

theorem length_pairs (rule : Rule) (targets : List Target) :
    (pairs rule targets).length = targets.length * rule.actions.length := by
  simp [pairs, List.length_flatMap]

/-- The pairs of a rule stand row by row, one row for each target. -/
theorem getElem?_pairs (rule : Rule) (targets : List Target) (i j : Nat) (target : Target)
    (action : FilterAction) (hi : targets[i]? = some target)
    (hj : rule.actions[j]? = some action) :
    (pairs rule targets)[i * rule.actions.length + j]? = some (target, action, j) := by
  have hlt : j < rule.actions.length := (List.getElem?_eq_some_iff.mp hj).1
  -- The induction is on the targets, each of which takes as many places as there are actions.
  induction targets generalizing i with
  | nil => exact nomatch hi
  | cons first rest ih =>
    have hcons : pairs rule (first :: rest) =
        rule.actions.zipIdx.map (fun action => (first, action)) ++ pairs rule rest := rfl
    have hrow : (rule.actions.zipIdx.map fun action => (first, action)).length =
        rule.actions.length := by simp
    rw [hcons]
    cases i with
    | zero =>
      cases hi
      rw [Nat.zero_mul, Nat.zero_add, List.getElem?_append_left (by omega), List.getElem?_map,
        List.getElem?_zipIdx, hj]
      simp
    | succ i =>
      have hplace : (i + 1) * rule.actions.length + j - rule.actions.length =
          i * rule.actions.length + j := by
        rw [Nat.succ_mul]
        omega
      rw [List.getElem?_append_right (by rw [hrow, Nat.succ_mul]; omega), hrow, hplace]
      exact ih i hi

end Engine

/-! ### A record and its reservation -/

namespace Store

variable (d : Store) (r : PolicyRecord)

/-- Storing a record under the next id concerns the counter, the reservations and the record. -/
theorem get?_withRecord (key : String) (hcounter : key ≠ counterKey)
    (hreservations : key ≠ reservationKey) (hrecord : key ≠ PolicyRecord.storeKey r.id) :
    (d.withRecord r).get? key = d.get? key := by
  rw [withRecord, get?_exec _ _ key, get?_exec _ _ key]
  · simp only [Call.changed, List.mem_cons, List.not_mem_nil, or_false, not_or]
    exact ⟨hcounter, hreservations⟩
  · intro hmem
    rcases changed_recordChanges r key hmem with rfl | rfl
    · exact hrecord rfl
    · exact hreservations rfl

/-- The reservation of the next id ends when its record is stored, and the others stay. -/
theorem hashAt_withRecord (n : Nat) (h : d.Ledger n) (hroom : n < Number.maxWord)
    (hid : r.id = n + 1) :
    (d.withRecord r).hashAt reservationKey = d.hashAt reservationKey := by
  rcases h.reservations with ⟨reserved, hreserved⟩
  have hnext := congrArg Prod.snd (exec_nextId d n reserved h.counts hroom hreserved)
  have hafter : (d.exec nextIdCall).2.hashAt reservationKey =
      .ok (reserved.insert (Number.writeNatural (n + 1)) "") := by
    rw [hnext, withNextId, hashAt_putHash, if_pos rfl]
  have hfields : (d.exec nextIdCall).2.hashAt (PolicyRecord.storeKey r.id) =
      .ok Dict.empty := by
    have hget : (d.exec nextIdCall).2.get? (PolicyRecord.storeKey r.id) = none := by
      rw [get?_exec, hid]
      · exact get?_of_fresh d n h (n + 1) (Nat.lt_succ_self n)
      · simp [Call.changed, PolicyRecord.storeKey, recordKey_ne_counterKey,
          recordKey_ne_reservationKey]
    rw [hashAt, hget]
  -- No id beyond the counter has been reserved.
  have hnone : reserved.get? (Number.writeNatural (n + 1)) = none := by
    cases hget : reserved.get? (Number.writeNatural (n + 1)) with
    | none => rfl
    | some value =>
      have hheld : d.Holds (Number.writeNatural (n + 1)) .reserved := by
        rw [Holds, field?_of_hashAt d _ _ reserved hreserved, hget]
        rfl
      rcases h.bounded _ _ hheld with ⟨id, heq, -, hle⟩
      have hsame := Number.writeNatural_inj _ _ heq
      omega
  rw [withRecord, exec_putDynamic _ r Dict.empty _ hfields hafter, hashAt_putHash, if_pos rfl,
    hreserved]
  refine congrArg Except.ok (Dict.ext_get? _ _ fun name => ?_)
  rw [Dict.get?_erase, Dict.get?_insert, hid]
  by_cases hname : name = Number.writeNatural (n + 1)
  · rw [if_pos hname, hname, hnone]
  · rw [if_neg hname, if_neg hname]

end Store

namespace Session

/-! ### Policies one after the other -/

/-- What some pairs of targets and actions come to, if `n` was the last id taken: a record and a
    live monitor for each, and nothing else but the counter has changed. -/
structure Grown (settings : Engine.Settings) (line : String) (rule : Rule) (conditionText : String)
    (pairs : List (Target × FilterAction × Nat)) (n : Nat) (s t : Session) : Prop where
  counted : t.Counted
  ledger : t.store.Ledger (n + pairs.length)
  records : ∀ k pair, pairs[k]? = some pair → t.store.record? (n + 1 + k) =
    some (Engine.recordOf settings line rule pair (n + 1 + k) conditionText)
  others : ∀ key, key ≠ counterKey → key ≠ reservationKey →
    (∀ k, k < pairs.length → key ≠ PolicyRecord.storeKey (n + 1 + k)) →
    t.store.get? key = s.store.get? key
  reservations : t.store.hashAt reservationKey = s.store.hashAt reservationKey
  live : ∀ id, t.monitors.live.get? id =
    if n < id ∧ id ≤ n + pairs.length then some (s.monitors.nextSerial + (id - (n + 1)))
    else s.monitors.live.get? id
  tasks : ∀ serial, serial < s.monitors.nextSerial →
    t.monitors.tasks.get? serial = s.monitors.tasks.get? serial
  storage : t.storage = s.storage

/-- The first of some new policies takes the next id and the next serial number, and those after it
    follow. -/
theorem live_of_created (s t : Session) (r : PolicyRecord) (binding : MonitorBinding)
    (condition : Condition) (n count : Nat) (hid : r.id = n + 1)
    (hrest : ∀ id, t.monitors.live.get? id =
      if n + 1 < id ∧ id ≤ n + 1 + count then
        some ((s.created r binding condition).monitors.nextSerial + (id - (n + 1 + 1)))
      else (s.created r binding condition).monitors.live.get? id) (id : Nat) :
    t.monitors.live.get? id =
      if n < id ∧ id ≤ n + (count + 1) then some (s.monitors.nextSerial + (id - (n + 1)))
      else s.monitors.live.get? id := by
  have hserial : (s.created r binding condition).monitors.nextSerial =
      s.monitors.nextSerial + 1 := rfl
  have hstarted : (s.created r binding condition).monitors.live.get? id =
      if id = n + 1 then some s.monitors.nextSerial else s.monitors.live.get? id := by
    rw [← hid]
    exact MonitorTable.live_started s.monitors r.id condition binding id
  rw [hrest, hserial, hstarted]
  by_cases hfirst : id = n + 1
  · rw [if_neg (by omega), if_pos hfirst, if_pos (by omega), hfirst, Nat.sub_self, Nat.add_zero]
  · by_cases hnew : n + 1 < id ∧ id ≤ n + 1 + count
    · rw [if_pos hnew, if_pos (by omega)]
      refine congrArg some ?_
      omega
    · rw [if_neg hnew, if_neg hfirst, if_neg (by omega)]

section Deploy

variable (settings : Engine.Settings) (line : String) (rule : Rule) (conditionText : String)

/-- What stands under the ids that are not new is as before. -/
theorem record?_of_grown (pairs : List (Target × FilterAction × Nat)) (n : Nat) (s t : Session)
    (hgrown : Grown settings line rule conditionText pairs n s t) (id : Nat)
    (hid : id ∉ Engine.newIds n pairs.length) : t.store.record? id = s.store.record? id := by
  have hget := hgrown.others (PolicyRecord.storeKey id) (recordKey_ne_counterKey _)
    (recordKey_ne_reservationKey _) fun k hk heq => by
      have hsame := Number.writeNatural_inj _ _ (append_right_inj _ _ _ heq)
      exact hid ((Engine.mem_newIds_iff _ _ _).mpr (by omega))
  rw [PolicyRecord.storeKey] at hget
  rw [Store.record?, Store.record?, Store.recordAt, Store.recordAt, hget]

theorem grown_nil (n : Nat) (s : Session) (hs : s.Counted) (hledger : s.store.Ledger n) :
    Grown settings line rule conditionText [] n s s where
  counted := hs
  ledger := hledger
  records := fun _ _ hpair => nomatch hpair
  others := fun _ _ _ _ => rfl
  reservations := rfl
  live := fun id => (if_neg (by simp only [List.length_nil]; omega)).symm
  tasks := fun _ _ => rfl
  storage := rfl

/-- What the first pair comes to, and the others after it. -/
theorem grown_cons (pair : Target × FilterAction × Nat)
    (rest : List (Target × FilterAction × Nat)) (n : Nat) (s t : Session) (hs : s.Sound)
    (hledger : s.store.Ledger n) (hroom : n < Number.maxWord) (binding : MonitorBinding)
    (condition : Condition)
    (hdoes : Does (.create (Engine.recordOf settings line rule pair (n + 1) conditionText)) s
      (s.created (Engine.recordOf settings line rule pair (n + 1) conditionText) binding condition))
    (hrest : Grown settings line rule conditionText rest (n + 1)
      (s.created (Engine.recordOf settings line rule pair (n + 1) conditionText) binding condition)
      t) : Grown settings line rule conditionText (pair :: rest) n s t := by
  have hid : (Engine.recordOf settings line rule pair (n + 1) conditionText).id = n + 1 := rfl
  refine ⟨hrest.counted, ?_, fun k other hother => ?_,
    fun key hcounter hreservations hrecords => ?_, ?_,
    live_of_created s t _ binding condition n rest.length hid hrest.live,
    fun serial hserial => ?_, hrest.storage⟩
  · have hafter := hrest.ledger
    rw [List.length_cons]
    have hcount : n + 1 + rest.length = n + (rest.length + 1) := by omega
    rw [← hcount]
    exact hafter
  -- The first id is not among those of the others, and the place of every other moves up by one.
  · cases k with
    | zero =>
      cases hother
      have hfirst := record?_of_effect s _ hs _ hdoes.effect (n + 1)
      dsimp only [Deed.recordAfter] at hfirst
      rw [if_pos hid.symm] at hfirst
      rw [Nat.add_zero, record?_of_grown settings line rule conditionText rest (n + 1) _ t hrest
        (n + 1) fun h => absurd ((Engine.mem_newIds_iff _ _ _).mp h).1 (Nat.lt_irrefl _), hfirst]
    | succ k =>
      have hplace : n + 1 + (k + 1) = n + 1 + 1 + k := by omega
      rw [hplace]
      exact hrest.records k other hother
  -- What the others leave alone are the keys of the pairs from the second one on.
  · have hlater := hrest.others key hcounter hreservations fun k hk => by
      have hk' := hrecords (k + 1) (by rw [List.length_cons]; omega)
      have hplace : n + 1 + (k + 1) = n + 1 + 1 + k := by omega
      rw [← hplace]
      exact hk'
    have hown := hrecords 0 (by rw [List.length_cons]; omega)
    exact hlater.trans (Store.get?_withRecord s.store _ key hcounter hreservations hown)
  · exact hrest.reservations.trans (Store.hashAt_withRecord s.store _ n hledger hroom rfl)
  -- The first task takes the next serial number, so that a task with a lesser one stays as it is.
  · have hafter := hrest.tasks serial (Nat.lt_succ_of_lt hserial)
    have hstarted : (s.created (Engine.recordOf settings line rule pair (n + 1) conditionText)
        binding condition).monitors.tasks.get? serial = s.monitors.tasks.get? serial :=
      (Dict.get?_insert _ _ _ _).trans (if_neg (Nat.ne_of_lt hserial))
    exact hafter.trans hstarted

variable (hrule : Rule.parse line = .ok rule) (htrim : Text.trim line.toList = line.toList)
  (hcondition : rule.conditionText = some conditionText)

include hrule htrim hcondition

/-- The pairs of a rule become policies under the ids that follow the last one. -/
theorem run_deployPairs (pairs : List (Target × FilterAction × Nat)) (done : Engine.Deployment)
    (n : Nat) (s : Session) (hs : s.Counted) (hledger : s.store.Ledger n) (hn : n ≤ s.effort)
    (hroom : n + pairs.length ≤ Number.maxWord)
    (hpairs : ∀ pair ∈ pairs, rule.Fits pair ∧ pair.2.2 ≤ Number.maxWord) :
    ∃ t, s.run (Engine.deployPairs settings line conditionText rule pairs done).run =
        (.ok { done with policies := done.policies ++ Engine.newIds n pairs.length }, t) ∧
      Grown settings line rule conditionText pairs n s t := by
  induction pairs generalizing done n s with
  | nil =>
    refine ⟨s, ?_, grown_nil settings line rule conditionText n s hs hledger⟩
    simp only [List.length_nil, Engine.newIds, List.range_zero, List.map_nil, List.append_nil]
    rfl
  | cons pair rest ih =>
    rw [List.length_cons] at hroom ⊢
    rcases hpairs pair List.mem_cons_self with ⟨hfits, hindex⟩
    rcases run_deployPairs_cons settings line rule hrule htrim conditionText hcondition s hs.toSound
      n hn hledger (by omega) pair hfits hindex rest done with
      ⟨condition, -, hcounted, hdoes, hrun⟩
    have hnext : (s.created (Engine.recordOf settings line rule pair (n + 1) conditionText)
        ⟨pair.1, pair.2.1, rule.objectFilter⟩ condition).store.Ledger (n + 1) :=
      (Store.on_putNew s.store n hledger _ (by omega) rfl).2.1
    -- The rest starts from what the first pair has left, where its id is the last one.
    rcases ih { done with policies := done.policies ++ [n + 1] } (n + 1) _ hcounted hnext
      (Nat.succ_le_succ hn) (by omega)
      (fun other hother => hpairs other (List.mem_cons_of_mem _ hother)) with ⟨t, hlater, hgrown⟩
    refine ⟨t, ?_, grown_cons settings line rule conditionText pair rest n s t hs.toSound hledger
      (by omega) _ condition hdoes hgrown⟩
    rw [hrun, hlater, Engine.newIds_succ, List.append_assoc]
    rfl

omit htrim in
/-- What becomes of a line whose rule passes the check is what becomes of its pairs. -/
theorem run_deployLine_checked (directory : Directory) (targets : List Target) (s : Session)
    (hs : s.Open)
    (hcheck : on (Engine.check directory rule) s.store = (.ok targets, s.store)) :
    s.run (Engine.deployLine directory settings line) =
      (match (s.run (Engine.deployPairs settings line conditionText rule
            (Engine.pairs rule targets) {}).run).1 with
        | .ok done => { rule := line, isDynamic := true, done }
        | .error e => { rule := line, isDynamic := true, error := some e },
        (s.run (Engine.deployPairs settings line conditionText rule
          (Engine.pairs rule targets) {}).run).2) := by
  rcases Option.map_eq_some_iff.mp hcondition with ⟨condition, hwhen, -⟩
  have hdynamic : rule.isDynamic = true := by rw [Rule.isDynamic, hwhen]; rfl
  have hchecked := run_ofRegistry s (Engine.check directory rule) hs
  rw [hcheck, withStore_store] at hchecked
  rw [Engine.deployLine, hrule]
  dsimp only
  rw [run_bind, Engine.deployRule, run_bind, hchecked]
  dsimp only
  rw [if_pos hdynamic, run_bind, Engine.deployDynamic, hcondition]
  dsimp only
  generalize s.run (Engine.deployPairs settings line conditionText rule
    (Engine.pairs rule targets) {}).run = outcome
  rcases outcome with ⟨result, t⟩
  rw [hdynamic]
  cases result <;> rfl

/-- The whole rule becomes policies, if it passes the check. -/
theorem run_deployLine_dynamic (directory : Directory) (targets : List Target) (s : Session)
    (n : Nat) (hs : s.Counted) (hledger : s.store.Ledger n) (hn : n ≤ s.effort)
    (hroom : n + targets.length * rule.actions.length ≤ Number.maxWord)
    (hcheck : on (Engine.check directory rule) s.store = (.ok targets, s.store))
    (htargets : ∀ target ∈ targets,
      Target.Slashless target.tenantId ∧ Target.Slashless target.tenantName) :
    ∃ t, s.run (Engine.deployLine directory settings line) =
        ({ rule := line, isDynamic := true,
           done := ⟨Engine.newIds n (targets.length * rule.actions.length), []⟩ }, t) ∧
      Grown settings line rule conditionText (Engine.pairs rule targets) n s t := by
  have hlength := Engine.length_pairs rule targets
  rcases run_deployPairs settings line rule conditionText hrule htrim hcondition
    (Engine.pairs rule targets) {} n s hs hledger hn (by omega) (fun pair hpair => by
      rcases List.mem_iff_getElem?.mp hpair with ⟨k, hk⟩
      have hlt := (List.getElem?_eq_some_iff.mp hk).1
      rcases Engine.fits_pairs rule targets htargets k pair hk with ⟨hfits, hindex⟩
      exact ⟨hfits, by omega⟩) with ⟨t, hrun, hgrown⟩
  refine ⟨t, ?_, hgrown⟩
  rw [run_deployLine_checked settings line rule conditionText hrule hcondition directory targets s
    hs.unrefused hcheck, hrun, hlength]
  rfl

end Deploy

/-! ### Rules -/

/-- What the deployment of a dynamic rule comes to, by its targets and its actions: a record and a
    live monitor under one new id for each, and nothing else but the counter has changed. -/
structure Deployed (line : String) (rule : Rule) (targets : List Target) (s t : Session)
    (report : Engine.DeployReport) : Prop where
  distinct : (targets.map Target.id).Nodup
  report : report = .deployed line
    (Engine.newIds s.store.lastId (targets.length * rule.actions.length))
  recorded : ∀ i j target action, targets[i]? = some target → rule.actions[j]? = some action →
    ∃ r, t.store.record? (s.store.lastId + 1 + i * rule.actions.length + j) = some r ∧
      r.id = s.store.lastId + 1 + i * rule.actions.length + j ∧ r.alive = true ∧
      r.targetId = target.id ∧ r.targetName = target.name ∧
      r.filterName = action.filterName ∧ r.verb = action.verb.keyword ∧ r.actionIndex = j ∧
      r.transient = action.transient ∧ r.ruleText = line ∧
      rule.conditionText = some r.conditionText ∧ r.objectType = rule.objectType ∧
      r.objectSize = rule.objectSize
  joined : ∀ id, (t.monitors.isLive id = true ∧ s.monitors.isLive id = false) ↔
    id ∈ Engine.newIds s.store.lastId (targets.length * rule.actions.length)
  kept : ∀ id, s.monitors.isLive id = true →
    t.monitors.live.get? id = s.monitors.live.get? id
  observed : ∀ i j target, targets[i]? = some target → j < rule.actions.length → ∀ tenantId,
    ((t.monitors.fanout.observers tenantId).map Prod.fst).count
      (s.store.lastId + 1 + i * rule.actions.length + j) =
        if tenantId = target.tenantId then 1 else 0
  observers : ∀ tenantId id serial,
    id ∉ Engine.newIds s.store.lastId (targets.length * rule.actions.length) →
    ((id, serial) ∈ t.monitors.fanout.observers tenantId ↔
      (id, serial) ∈ s.monitors.fanout.observers tenantId)
  counter : t.store.lastId = s.store.lastId + targets.length * rule.actions.length
  reservations : t.store.hashAt reservationKey = s.store.hashAt reservationKey
  entries : ∀ targetId, t.store.get? (pipelineKey targetId) = s.store.get? (pipelineKey targetId)
  others : ∀ key, key ≠ counterKey → key ≠ reservationKey →
    (∀ id ∈ Engine.newIds s.store.lastId (targets.length * rule.actions.length),
      key ≠ PolicyRecord.storeKey id) → t.store.get? key = s.store.get? key
  storage : t.storage = s.storage

/-- A new id was not live before. -/
theorem live_of_mem_newIds (s : Session) (hs : s.Sound) (n count : Nat)
    (hledger : s.store.Ledger n) (id : Nat) (hid : id ∈ Engine.newIds n count) :
    s.monitors.live.get? id = none := by
  have hlt := ((Engine.mem_newIds_iff _ _ _).mp hid).1
  refine (MonitorTable.isLive_eq_false_iff _ id).mp ?_
  exact not_isLive_of_record?_eq_none s hs id (Store.record?_of_fresh s.store n hledger id hlt)

/-- A live policy is observed once by the tenant of its record, and by no other. -/
theorem count_observers (s : Session) (h : s.Sound) (tenantId : String) (id serial : Nat)
    (r : PolicyRecord) (hlive : s.monitors.live.get? id = some serial)
    (hrecord : s.store.record? id = some r) :
    ((s.monitors.fanout.observers tenantId).map Prod.fst).count id =
      if tenantId = r.target.tenantId then 1 else 0 := by
  have hmem : id ∈ (s.monitors.fanout.observers tenantId).map Prod.fst ↔
      tenantId = r.target.tenantId := by
    rw [List.mem_map]
    constructor
    · rintro ⟨⟨other, serial'⟩, hobserver, rfl⟩
      rcases ((mem_observers_iff s h _ _ _).mp hobserver).2 with ⟨r', hr', htarget⟩
      rw [hrecord] at hr'
      cases hr'
      exact htarget.symm
    · rintro rfl
      exact ⟨(id, serial), (mem_observers_iff s h _ _ _).mpr ⟨hlive, r, hrecord, rfl⟩, rfl⟩
  split
  · rename_i heq
    exact List.count_eq_one_of_mem (h.tables.once tenantId) (hmem.mpr heq)
  · rename_i hne
    exact List.count_eq_zero_of_not_mem fun hobserver => hne (hmem.mp hobserver)

section Rules

variable (settings : Engine.Settings) (line : String) (rule : Rule) (conditionText : String)
  (targets : List Target) (n : Nat) (s t : Session) (hs : s.Sound) (hledger : s.store.Ledger n)
  (hgrown : Grown settings line rule conditionText (Engine.pairs rule targets) n s t)

include hgrown

/-- The live monitors are the new ones and those that were live before. -/
theorem live_of_grown (id : Nat) : t.monitors.live.get? id =
    if id ∈ Engine.newIds n (targets.length * rule.actions.length) then
      some (s.monitors.nextSerial + (id - (n + 1)))
    else s.monitors.live.get? id := by
  rw [hgrown.live, Engine.length_pairs]
  by_cases hid : id ∈ Engine.newIds n (targets.length * rule.actions.length)
  · rw [if_pos hid, if_pos ((Engine.mem_newIds_iff _ _ _).mp hid)]
  · rw [if_neg hid, if_neg fun h => hid ((Engine.mem_newIds_iff _ _ _).mpr h)]

/-- The action `j` of a rule on its target `i` becomes the policy at this place. -/
theorem record?_of_pair (i j : Nat) (target : Target) (action : FilterAction)
    (hi : targets[i]? = some target) (hj : rule.actions[j]? = some action) :
    t.store.record? (n + 1 + i * rule.actions.length + j) = some (Engine.recordOf settings line
      rule (target, action, j) (n + 1 + i * rule.actions.length + j) conditionText) := by
  have hrecord := hgrown.records _ _ (Engine.getElem?_pairs rule targets i j target action hi hj)
  rw [← Nat.add_assoc] at hrecord
  exact hrecord

/-- Each new policy is observed once by the tenant of its target. -/
theorem observed_of_grown
    (htargets : ∀ target ∈ targets,
      Target.Slashless target.tenantId ∧ Target.Slashless target.tenantName) (i j : Nat)
    (target : Target) (hi : targets[i]? = some target) (hj : j < rule.actions.length)
    (tenantId : String) :
    ((t.monitors.fanout.observers tenantId).map Prod.fst).count
      (n + 1 + i * rule.actions.length + j) = if tenantId = target.tenantId then 1 else 0 := by
  have hrecord := record?_of_pair settings line rule conditionText targets n s t hgrown i j target
    rule.actions[j] hi (List.getElem?_eq_getElem hj)
  have hslash := htargets target (List.mem_of_getElem? hi)
  have htenant : (Engine.recordOf settings line rule (target, rule.actions[j], j)
      (n + 1 + i * rule.actions.length + j) conditionText).target = target :=
    Target.ofStored_id_name target hslash.1 hslash.2
  have hnew := Engine.mem_newIds_of_place n i j targets.length rule.actions.length
    (List.getElem?_eq_some_iff.mp hi).1 hj
  generalize n + 1 + i * rule.actions.length + j = id at *
  have hlive := live_of_grown settings line rule conditionText targets n s t hgrown id
  rw [if_pos hnew] at hlive
  rw [count_observers t hgrown.counted.toSound tenantId id _ _ hlive hrecord, htenant]

include hs hledger

variable (hresolved : (targets.map Target.id).Nodup)
  (htargets : ∀ target ∈ targets,
    Target.Slashless target.tenantId ∧ Target.Slashless target.tenantName)

include hresolved htargets

/-- What pairs come to is what their rule comes to. -/
theorem deployed_of_grown (hcondition : rule.conditionText = some conditionText)
    (htrim : Text.trim line.toList = line.toList) :
    Deployed line rule targets s t
      (.deployed line (Engine.newIds n (targets.length * rule.actions.length))) := by
  have hlast := Store.lastId_of_ledger s.store n hledger
  refine ⟨hresolved, ?_, ?_, fun id => ?_, fun id hlive => ?_, ?_, ?_, ?_, hgrown.reservations, ?_,
    ?_, hgrown.storage⟩
  · rw [hlast]
  · intro i j target action hi hj
    rw [hlast]
    refine ⟨_, record?_of_pair settings line rule conditionText targets n s t hgrown i j target
      action hi hj, rfl, rfl, rfl, rfl, rfl, rfl, rfl, rfl, ?_, hcondition, rfl, rfl⟩
    simp only [Engine.recordOf, Engine.newRecord, htrim, String.ofList_toList]
  -- What is live under a new id is new, since nothing was live under it before.
  · rw [hlast, MonitorTable.isLive_iff, MonitorTable.isLive_eq_false_iff]
    simp only [live_of_grown settings line rule conditionText targets n s t hgrown id]
    by_cases hid : id ∈ Engine.newIds n (targets.length * rule.actions.length)
    · rw [if_pos hid]
      exact ⟨fun _ => hid, fun _ => ⟨⟨_, rfl⟩,
        live_of_mem_newIds s hs n _ hledger id hid⟩⟩
    · rw [if_neg hid]
      constructor
      · rintro ⟨⟨serial, hserial⟩, hnone⟩
        rw [hserial] at hnone
        cases hnone
      · exact fun h => absurd h hid
  · rw [live_of_grown settings line rule conditionText targets n s t hgrown id]
    refine if_neg fun hid => ?_
    rcases (MonitorTable.isLive_iff _ id).mp hlive with ⟨serial, hserial⟩
    rw [live_of_mem_newIds s hs n _ hledger id hid] at hserial
    cases hserial
  · intro i j target hi hj tenantId
    rw [hlast]
    exact observed_of_grown settings line rule conditionText targets n s t hgrown htargets i j
      target hi hj tenantId
  · intro tenantId id serial hid
    rw [hlast] at hid
    rw [mem_observers_iff t hgrown.counted.toSound, mem_observers_iff s hs,
      live_of_grown settings line rule conditionText targets n s t hgrown id, if_neg hid,
      record?_of_grown settings line rule conditionText _ n s t hgrown id
        (by rw [Engine.length_pairs]; exact hid)]
  · rw [hlast, Store.lastId_of_ledger t.store _ hgrown.ledger, Engine.length_pairs]
  · intro targetId
    exact hgrown.others _ (pipelineKey_ne_counterKey targetId)
      (pipelineKey_ne_reservationKey targetId)
      fun k _ heq => recordKey_ne_pipelineKey _ targetId heq.symm
  · intro key hcounter hreservations hids
    rw [hlast] at hids
    refine hgrown.others key hcounter hreservations fun k hk => ?_
    rw [Engine.length_pairs] at hk
    exact hids _ ((Engine.mem_newIds_iff _ _ _).mpr (by omega))

end Rules

/-- The targets of a rule that is checked differ in their ids. -/
theorem nodup_of_resolveAll (directory : Directory) (targets : List RuleTarget)
    (d : Store) (resolved : List Target)
    (h : (on (directory.resolveAll targets) d).1 = .ok resolved) :
    (resolved.map Target.id).Nodup := by
  rcases on_bind_eq_ok _ _ _ _ h with ⟨tenants, -, hall⟩
  rcases (Outcome.map_eq_ok _ _ _).mp hall with ⟨found, -, rfl⟩
  exact Tenants.nodup_distinct [] found

/-- A rule with two targets and two actions, one of them transient. -/
def twoByTwo : String :=
  "TENANT alice, CONTAINER alice/photos WHEN put_bw > 100 " ++
    "DO SET compress, DELETE compress TRANSIENT TO OBJECT_TYPE=docs"

/-- The targets of that rule. -/
def aliceAndPhotos : List Target :=
  [{ tenantId := "t1", tenantName := "alice" },
    { tenantId := "t1", tenantName := "alice", container := some "photos" }]

end Session

end StoragePolicy
