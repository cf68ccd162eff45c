import StoragePolicy.Engine.Deploy

/-!
# Properties that are closed under sequences

Of the programs of the engine a few things are shown: which calls they make, by which deeds they
run, what they do with the ids they take. Each is said of a program if it is said of its parts. So
how a deployment and a turn of a monitor are put together is gone through here once, for any
property that is closed under sequences. What remains for each of them is to look at the parts: the
check of a rule, an action, the pairs of a dynamic rule, and what follows an action of a monitor.

A property is given for every type of result, since the parts of a program give other results than
the whole.

## Main definitions

* `Engine.Compositional`: The properties that a program has if its parts have them.

## Theorems

* `holds_deployStatic`: Actions, one after the other.
* `holds_deployLine`, `holds_deploy`: The deployment of a line and of a text.
* `holds_turn`: What a monitor does with one sample.
-/

namespace StoragePolicy

namespace Engine

/-- A property of programs that holds of a program that does nothing, and of a sequence if it holds
    of its parts. -/
structure Compositional (P : ∀ α : Type, Program interface α → Prop) : Prop where
  done : ∀ {α : Type} (a : α), P α (.done a)
  bind : ∀ {α β : Type} (p : Program interface α) (f : α → Program interface β), P α p →
    (∀ a, P β (f a)) → P β (p >>= f)

namespace Compositional

variable {P : ∀ α : Type, Program interface α → Prop} (h : Compositional P)

include h

/-- Whether or not an action fails, what is done next is to deploy the rest or to end. -/
theorem holds_deployStatic (objectFilter : Option ObjectFilter)
    (hdispatch : ∀ target action, P _ (dispatch target action objectFilter).run)
    (pairs : List (Target × FilterAction × Nat)) (done : Deployment) :
    P _ (deployStatic objectFilter pairs done) := by
  induction pairs generalizing done with
  | nil => exact h.done _
  | cons pair rest ih =>
    rcases pair with ⟨target, action, index⟩
    refine h.bind _ _ (hdispatch target action) fun outcome => ?_
    match outcome with
    | .ok (.installed id) => exact ih _
    | .ok (.uninstalled removed) => exact ih _
    | .error e =>
      dsimp only
      split
      · exact h.done _
      · exact ih _

section Deploy

variable (directory : Directory) (settings : Settings)

/-- A line is read and checked before anything else is done, so that its pairs and actions are those
    of a rule. -/
theorem holds_deployLine (line : String)
    (hcheck : ∀ rule, P _ (ofRegistry (check directory rule)).run)
    (hpairs : ∀ rule conditionText targets, Rule.parse line = .ok rule →
      rule.conditionText = some conditionText →
      P _ (deployPairs settings line conditionText rule (pairs rule targets) {}).run)
    (hdispatch : ∀ rule target action, Rule.parse line = .ok rule →
      P _ (dispatch target action rule.objectFilter).run) :
    P _ (deployLine directory settings line) := by
  rw [deployLine]
  cases hrule : Rule.parse line with
  | error e => exact h.done _
  | ok rule =>
    refine h.bind _ _ ?_ fun _ => h.done _
    refine h.bind _ _ (hcheck rule) fun checked => ?_
    cases checked with
    | error e => exact h.done _
    | ok targets =>
      dsimp only
      split
      · refine h.bind _ _ ?_ fun outcome => ?_
        · rw [deployDynamic]
          cases hcondition : rule.conditionText with
          | none => exact h.done _
          | some conditionText => exact hpairs rule conditionText targets hrule hcondition
        · cases outcome with
          | ok done => exact h.done _
          | error e => exact h.done _
      · exact h.holds_deployStatic _ (fun target action => hdispatch rule target action hrule) _ _

variable (hline : ∀ line, P _ (deployLine directory settings line))

include hline

theorem holds_deployLines (lines : List String) :
    P _ (deployLines directory settings lines) := by
  induction lines with
  | nil => exact h.done _
  | cons line rest ih =>
    exact h.bind _ _ (hline line) fun report => h.bind _ _ ih fun reports => h.done _

theorem holds_deploy (text : String) : P _ (deploy directory settings text) :=
  h.bind _ _ (h.holds_deployLines directory settings hline _) fun _ => h.done _

end Deploy

/-- A monitor that fires takes its action and asks again whether it was told to stop, before it
    does what follows. -/
theorem holds_turn (settings : Settings) (handle : MonitorHandle) (binding : MonitorBinding)
    (hhalted : P _ (ask (.isHalted handle.serial)))
    (hdispatch : P _ (dispatch binding.target binding.action binding.objectFilter).run)
    (hretire : P _ (retire settings handle.policyId))
    (hafter : P _ (afterPersistentFire settings handle.policyId)) (m : Monitor)
    (sample : Sample) : P _ (turn settings handle binding m sample) := by
  refine h.bind _ _ hhalted fun halted => ?_
  cases halted with
  | true => exact h.done _
  | false =>
    simp only [Bool.false_eq_true, if_false]
    rcases m.observe sample.metric sample.value with ⟨fires, m'⟩
    cases fires with
    | false => exact h.done _
    | true =>
      dsimp only
      refine h.bind _ _ hdispatch fun outcome => ?_
      rcases m'.conclude outcome.isOk with ⟨verdict, m''⟩
      cases verdict with
      | retire =>
        -- A monitor that has spent its firings asks once more before it retires.
        refine h.bind _ _ hhalted fun halted => ?_
        cases halted with
        | true => exact h.done _
        | false => exact h.bind _ _ hretire fun _ => h.done _
      | goOn =>
        cases outcome.isOk with
        | false => exact h.done _
        | true => exact h.bind _ _ hafter fun _ => h.done _

end Compositional

end Engine

end StoragePolicy
