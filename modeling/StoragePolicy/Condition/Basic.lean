import StoragePolicy.Condition.Comparison
import StoragePolicy.Number.Shortest
import StoragePolicy.Dict

/-!
# Metric conditions

A condition is a tree of comparisons joined by "all" and "any". It is judged on the latest known
values of the metrics: a metric without a value satisfies no comparison.

## Main definitions

* `Condition`: The tree.
* `Condition.holds`: Its truth on given metric values.
* `Condition.occurrences`, `Condition.metrics`, `Condition.references`: The metrics it names.
* `Condition.text`: Its written form, which leaves out all grouping.

## Theorems

* `holds_congr`: Truth depends on the referenced metrics alone.
-/

namespace StoragePolicy

/-- The latest known value of each metric. -/
abbrev MetricValues := Dict String Float

/-- A condition on metric values. -/
inductive Condition where
  /-- The value of `metric` stands in the relation `op` to `threshold`. -/
  | compare (metric : String) (op : Comparison) (threshold : Float)
  /-- All of the conditions hold. -/
  | all (conditions : List Condition)
  /-- At least one of the conditions holds. -/
  | any (conditions : List Condition)
  deriving Repr, Inhabited

namespace Condition

mutual

/-- Whether a condition holds on the known values. -/
def holds (values : MetricValues) : Condition → Bool
  | .compare metric op threshold =>
    match values.get? metric with
    | some actual => op.compare actual threshold
    | none => false
  | .all conditions => holdAll values conditions
  | .any conditions => holdAny values conditions

/-- Whether every condition of a list holds. -/
def holdAll (values : MetricValues) : List Condition → Bool
  | [] => true
  | c :: rest => holds values c && holdAll values rest

/-- Whether some condition of a list holds. -/
def holdAny (values : MetricValues) : List Condition → Bool
  | [] => false
  | c :: rest => holds values c || holdAny values rest

end

mutual

/-- The metrics a condition names, from left to right, as often as it names them. -/
def occurrences : Condition → List String
  | .compare metric _ _ => [metric]
  | .all conditions => occurrencesIn conditions
  | .any conditions => occurrencesIn conditions

/-- The metrics the conditions of a list name. -/
def occurrencesIn : List Condition → List String
  | [] => []
  | c :: rest => occurrences c ++ occurrencesIn rest

end

/-- The metrics a condition names, each once, in ascending order. -/
def metrics (c : Condition) : List String :=
  (c.occurrences.foldl (fun names metric => names.insert metric ()) (Dict.empty (ν := Unit))).keys

/-- Whether a condition names a metric. -/
def references (c : Condition) (metric : String) : Bool := c.occurrences.contains metric

mutual

/-- The written form of a condition. Grouping is not written. -/
def text : Condition → String
  | .compare metric op threshold =>
    metric ++ " " ++ op.symbol ++ " " ++ Number.writeDouble threshold
  | .all conditions => joined " AND " conditions
  | .any conditions => joined " OR " conditions

/-- The written forms of a list of conditions, with a separator between them. -/
def joined (separator : String) : List Condition → String
  | [] => ""
  | [c] => text c
  | c :: rest => text c ++ separator ++ joined separator rest

end

mutual

/-- Truth depends on the values of the referenced metrics alone. -/
theorem holds_congr (values others : MetricValues) (c : Condition)
    (h : ∀ metric ∈ c.occurrences, values.get? metric = others.get? metric) :
    c.holds values = c.holds others := by
  cases c with
  | compare metric op threshold =>
    simp only [occurrences, List.mem_singleton, forall_eq] at h
    simp only [holds, h]
  | all conditions =>
    simp only [holds]
    exact (holds_congr_list values others conditions h).1
  | any conditions =>
    simp only [holds]
    exact (holds_congr_list values others conditions h).2

/-- The same for the conditions of a list, joined either way. -/
theorem holds_congr_list (values others : MetricValues) (cs : List Condition)
    (h : ∀ metric ∈ occurrencesIn cs, values.get? metric = others.get? metric) :
    holdAll values cs = holdAll others cs ∧ holdAny values cs = holdAny others cs := by
  cases cs with
  | nil => exact ⟨rfl, rfl⟩
  | cons c rest =>
    simp only [occurrencesIn, List.mem_append] at h
    have hc := holds_congr values others c fun m hm => h m (Or.inl hm)
    have hr := holds_congr_list values others rest fun m hm => h m (Or.inr hm)
    simp only [holdAll, holdAny, hc, hr.1, hr.2, and_self]

end

end Condition

end StoragePolicy
