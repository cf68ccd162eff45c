import StoragePolicy.Proofs.Condition.Grouping
import StoragePolicy.Proofs.Engine.Deployed
import StoragePolicy.Proofs.Engine.Renewal

/-!
# The monitors that a rule starts

A rule need not come from a text: it may be given as it is, with a condition of any shape. Its
monitors are started from the written form of the condition all the same, so that they watch for
what is read back from it. No monitor fails to start, since a condition that is well formed can
always be read back; but a monitor watches for what the rule says only where no grouping is lost.

## Main definitions

* `Session.Started`: What some pairs of targets and actions come to, one monitor for each.

## Theorems

* `started_cons`: What the first pair comes to, and the others after it.
* `run_deployPairs_started`: Every pair gets its monitor.
* `judged_of_run`: What the monitors of a rule judge by.
-/

namespace StoragePolicy

open Registry

namespace Session

/-- What some pairs of targets and actions come to, if `n` was the last id taken: a live monitor of
    one condition for each, under the ids that follow. -/
structure Started (rule : Rule) (condition : Condition)
    (pairs : List (Target × FilterAction × Nat)) (n : Nat) (s t : Session) : Prop where
  live : ∀ id, t.monitors.live.get? id =
    if n < id ∧ id ≤ n + pairs.length then some (s.monitors.nextSerial + (id - (n + 1)))
    else s.monitors.live.get? id
  tasks : ∀ k pair, pairs[k]? = some pair → ∃ task,
    t.monitors.tasks.get? (s.monitors.nextSerial + k) = some task ∧
      task.binding = ⟨pair.1, pair.2.1, rule.objectFilter⟩ ∧ task.monitor.condition = condition
  others : ∀ serial, serial < s.monitors.nextSerial →
    t.monitors.tasks.get? serial = s.monitors.tasks.get? serial

section Deploy

variable (settings : Engine.Settings) (line : String) (rule : Rule) (conditionText : String)
  (condition : Condition)

/-- What the first pair comes to, and the others after it. -/
theorem started_cons (pair : Target × FilterAction × Nat)
    (rest : List (Target × FilterAction × Nat)) (n : Nat) (s t : Session) (r : PolicyRecord)
    (hid : r.id = n + 1)
    (hrest : Started rule condition rest (n + 1)
      (s.created r ⟨pair.1, pair.2.1, rule.objectFilter⟩ condition) t) :
    Started rule condition (pair :: rest) n s t := by
  have htask : ∀ serial, (s.created r ⟨pair.1, pair.2.1, rule.objectFilter⟩
      condition).monitors.tasks.get? serial =
        if serial = s.monitors.nextSerial then
          some (s.monitors.newTask r.id condition ⟨pair.1, pair.2.1, rule.objectFilter⟩)
        else s.monitors.tasks.get? serial :=
    fun serial => Dict.get?_insert _ _ _ _
  refine ⟨live_of_created s t r _ condition n rest.length hid hrest.live,
    fun k other hother => ?_, fun serial hlt => ?_⟩
  · cases k with
    | zero =>
      cases hother
      -- The tasks that are started later have greater serial numbers.
      have hfirst := hrest.others s.monitors.nextSerial (Nat.lt_succ_self _)
      rw [htask, if_pos rfl] at hfirst
      exact ⟨_, hfirst, rfl, rfl⟩
    | succ k =>
      have hplace : s.monitors.nextSerial + (k + 1) = s.monitors.nextSerial + 1 + k := by omega
      rw [hplace]
      exact hrest.tasks k other hother
  · rw [hrest.others serial (Nat.lt_succ_of_lt hlt), htask, if_neg (Nat.ne_of_lt hlt)]

variable (hparse : Condition.parse conditionText = .ok condition)

include hparse

/-- Every pair gets its monitor, if the text of the condition can be read and no monitor runs under
    the ids that follow the last one. -/
theorem run_deployPairs_started (pairs : List (Target × FilterAction × Nat))
    (done : Engine.Deployment) (n : Nat) (s : Session) (hs : s.Open) (hledger : s.store.Ledger n)
    (hroom : n + pairs.length ≤ Number.maxWord)
    (hfresh : ∀ id ∈ Engine.newIds n pairs.length, s.monitors.isLive id = false) :
    ∃ t, s.run (Engine.deployPairs settings line conditionText rule pairs done).run =
        (.ok { done with policies := done.policies ++ Engine.newIds n pairs.length }, t) ∧
      Started rule condition pairs n s t := by
  induction pairs generalizing done n s with
  | nil =>
    refine ⟨s, ?_, fun id => (if_neg (by simp only [List.length_nil]; omega)).symm,
      fun _ _ hpair => (nomatch hpair), fun _ _ => rfl⟩
    simp only [List.length_nil, Engine.newIds, List.range_zero, List.map_nil, List.append_nil]
    rfl
  | cons pair rest ih =>
    rw [List.length_cons] at hroom hfresh ⊢
    have hlive : s.monitors.isLive (n + 1) = false :=
      hfresh (n + 1) ((Engine.mem_newIds_iff _ _ _).mpr (by omega))
    have hrun := run_deployPairs_start settings line rule conditionText s hs n hledger (by omega)
      condition hparse hlive pair rest done
    generalize hr : Engine.recordOf settings line rule pair (n + 1) conditionText = r at hrun
    have hid : r.id = n + 1 := by
      rw [← hr]
      rfl
    have hnext : (s.created r ⟨pair.1, pair.2.1, rule.objectFilter⟩ condition).store.Ledger
        (n + 1) := (Store.on_putNew s.store n hledger r (by omega) hid).2.1
    -- The task of the first pair is live under an id before those of the others.
    have hlater : ∀ id ∈ Engine.newIds (n + 1) rest.length,
        (s.created r ⟨pair.1, pair.2.1, rule.objectFilter⟩ condition).monitors.isLive id =
          false := by
      intro id hmem
      have hbounds := (Engine.mem_newIds_iff _ _ _).mp hmem
      have hold := hfresh id ((Engine.mem_newIds_iff _ _ _).mpr (by omega))
      rw [MonitorTable.isLive_eq_false_iff] at hold ⊢
      have hstarted := MonitorTable.live_started s.monitors r.id condition
        ⟨pair.1, pair.2.1, rule.objectFilter⟩ id
      rw [if_neg (by omega), hold] at hstarted
      exact hstarted
    rcases ih { done with policies := done.policies ++ [n + 1] } (n + 1)
      (s.created r ⟨pair.1, pair.2.1, rule.objectFilter⟩ condition) hs hnext (by omega) hlater with
      ⟨t, hrest, hstarted⟩
    refine ⟨t, ?_, started_cons rule condition pair rest n s t r hid hstarted⟩
    rw [hrun, hrest, Engine.newIds_succ, List.append_assoc]
    rfl

end Deploy

/-- A rule that is given with a well-formed condition gets a monitor for each of its targets and
    actions, under the ids that follow the last one, if these are new. The monitors judge by the
    alternatives that the condition is written as. That is to judge by the condition itself, if it
    joins no alternatives by "all". -/
theorem judged_of_run (settings : Engine.Settings) (line : String) (rule : Rule)
    (condition : Condition) (targets : List Target) (s : Session) (n : Nat) (hs : s.Open)
    (hledger : s.store.Ledger n)
    (hroom : n + targets.length * rule.actions.length ≤ Number.maxWord)
    (hfresh : ∀ id ∈ Engine.newIds n (targets.length * rule.actions.length),
      s.monitors.isLive id = false)
    (hcondition : rule.condition = some condition) (hformed : condition.WellFormed) :
    ∃ t, s.run (Engine.deployDynamic settings line rule targets).run =
        (.ok ⟨Engine.newIds n (targets.length * rule.actions.length), []⟩, t) ∧
      (∀ id, (t.monitors.isLive id = true ∧ s.monitors.isLive id = false) ↔
        id ∈ Engine.newIds n (targets.length * rule.actions.length)) ∧
      ∀ k pair, (Engine.pairs rule targets)[k]? = some pair → ∃ task,
        t.monitors.liveTask? (n + 1 + k) = some task ∧
          task.binding = ⟨pair.1, pair.2.1, rule.objectFilter⟩ ∧
          (∀ values, task.monitor.condition.holds values = condition.holdsAsWritten values) ∧
          (condition.Ungrouped →
            ∀ values, task.monitor.condition.holds values = condition.holds values) := by
  have htext : rule.conditionText = some condition.text := by
    rw [Rule.conditionText, hcondition]
    rfl
  have hlength := Engine.length_pairs rule targets
  rw [← hlength] at hroom hfresh ⊢
  rcases run_deployPairs_started settings line rule condition.text _
    (Condition.parse_text_of_wellFormed condition hformed) (Engine.pairs rule targets) {} n s hs
    hledger hroom hfresh with ⟨t, hrun, hstarted⟩
  refine ⟨t, ?_, fun id => ?_, fun k pair hpair => ?_⟩
  · rw [Engine.deployDynamic, htext]
    exact hrun
  · rw [Engine.mem_newIds_iff, MonitorTable.isLive_iff, hstarted.live]
    by_cases hid : n < id ∧ id ≤ n + (Engine.pairs rule targets).length
    · rw [if_pos hid]
      exact ⟨fun _ => hid, fun _ => ⟨⟨_, rfl⟩, hfresh id ((Engine.mem_newIds_iff _ _ _).mpr hid)⟩⟩
    · rw [if_neg hid, ← MonitorTable.isLive_iff]
      refine ⟨fun hlive => ?_, fun h => absurd h hid⟩
      rw [hlive.1] at hlive
      cases hlive.2
  · rcases hstarted.tasks k pair hpair with ⟨task, htask, hbinding, hwatched⟩
    have hlt := (List.getElem?_eq_some_iff.mp hpair).1
    have hlive := hstarted.live (n + 1 + k)
    rw [if_pos (by omega), Nat.add_sub_cancel_left] at hlive
    -- The monitor watches the condition that is read back from the text, which has the
    -- alternatives as they are written.
    have hwritten : ∀ values,
        task.monitor.condition.holds values = condition.holdsAsWritten values := by
      intro values
      rw [hwatched]
      exact Condition.holds_ofAtoms values condition
    refine ⟨task, ?_, hbinding, hwritten, fun hungrouped values => ?_⟩
    · rw [MonitorTable.liveTask?, hlive, Option.bind_some, htask]
    · rw [hwritten]
      exact (Condition.holdsAsWritten_of_ungrouped values condition hformed hungrouped).symm

/-- A rule that is given with a condition. -/
def whenever (condition : Condition) : Rule where
  targets := [⟨.tenant, "alice"⟩]
  condition := some condition
  actions := [⟨.set, "compress", none, none, false, false⟩,
    ⟨.delete, "compress", none, none, true, false⟩]

/-- The target of that rule. -/
def toAlice : Target := { tenantId := "t1", tenantName := "alice" }

/-- A condition of four levels that loses no grouping: something else is joined by "all" in one of
    its alternatives. -/
def nested : Condition :=
  .any [.compare "a" .greaterThan 1,
    .all [.compare "b" .lessThan 2, .any [.all [.compare "c" .equals 3, .compare "a" .notEquals 4]]]]

/-- A condition that joins alternatives by "all". -/
def grouped : Condition :=
  .all [.any [.compare "a" .greaterThan 1, .compare "b" .greaterThan 1],
    .compare "c" .greaterThan 1]

theorem proper_letter (name : String) (hname : name ∈ ["a", "b", "c"]) (op : Comparison)
    (threshold : Float) : (⟨name, op, threshold⟩ : Condition.Atom).Proper := by
  have hletters : ∀ name ∈ ["a", "b", "c"], Condition.Token.Proper (.word name.toList) ∧
      Text.isKeyword "AND" name.toList = false ∧ Text.isKeyword "OR" name.toList = false := by
    simp only [List.forall_mem_cons]
    refine ⟨⟨?_, by decide, by decide⟩, ⟨?_, by decide, by decide⟩, ⟨?_, by decide, by decide⟩,
      fun _ h => absurd h List.not_mem_nil⟩
    all_goals exact Condition.Token.proper_of_all _ (by decide) (by decide)
  rcases hletters name hname with ⟨hword, hand, hor⟩
  exact ⟨hword, hand, hor⟩

theorem wellFormed_nested : nested.WellFormed := by
  have hproper := fun name hname => proper_letter name hname
  refine ⟨by simp, hproper "a" (by simp) _ _, ⟨by simp, hproper "b" (by simp) _ _,
    ⟨by simp, ⟨by simp, hproper "c" (by simp) _ _, hproper "a" (by simp) _ _, trivial⟩, trivial⟩,
    trivial⟩, trivial⟩

theorem judged_of_run_nested : withCompress.store.Ledger 0 ∧ nested.WellFormed ∧
    nested.Ungrouped ∧
    ∃ t, withCompress.run (Engine.deployDynamic {} "" (whenever nested) [toAlice]).run =
        (.ok ⟨[1, 2], []⟩, t) ∧
      ∃ task, t.monitors.liveTask? 2 = some task ∧
        ∀ values, task.monitor.condition.holds values = nested.holds values := by
  have hledger := Store.ledger_of_vacant withCompress.store fresh_withCompress.vacant
  have hungrouped : nested.Ungrouped := by
    refine ⟨trivial, ⟨⟨trivial, ⟨⟨⟨trivial, trivial, trivial⟩, Or.inr ?_⟩, trivial⟩, trivial⟩,
      Or.inr ?_⟩, trivial⟩
    · simp [Condition.alternatives]
    · simp [Condition.alternatives, Condition.alternativesIn, Condition.gluedIn, Condition.glue]
  rcases judged_of_run {} "" (whenever nested) nested [toAlice] withCompress 0 rfl hledger
    (by decide) (fun _ _ => rfl) rfl wellFormed_nested with ⟨t, hrun, -, htasks⟩
  rcases htasks 1 (toAlice, ⟨.delete, "compress", none, none, true, false⟩, 1) rfl with
    ⟨task, hlive, -, -, hjudged⟩
  exact ⟨hledger, wellFormed_nested, hungrouped, t, hrun, task, hlive, hjudged hungrouped⟩

/-- The monitor of a rule whose condition joins alternatives by "all" fires where the condition does
    not hold. -/
theorem judged_otherwise :
    grouped.WellFormed ∧
      ((withCompress.run (Engine.deployDynamic {} "" (whenever grouped)
        [toAlice]).run).2.monitors.liveTask? 1).map (fun task =>
          task.monitor.condition.holds (Dict.ofList [("a", 2)])) = some true ∧
      grouped.holds (Dict.ofList [("a", 2)]) = false := by
  refine ⟨?_, by decide +kernel⟩
  have hproper := fun name hname => proper_letter name hname
  exact ⟨by simp, ⟨by simp, hproper "a" (by simp) _ _, hproper "b" (by simp) _ _, trivial⟩,
    hproper "c" (by simp) _ _, trivial⟩

end Session

end StoragePolicy
