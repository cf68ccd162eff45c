import StoragePolicy.Proofs.Monitor.Edges
import StoragePolicy.Proofs.Store.View

/-!
# What the truth of a condition rests on

A condition is built of comparisons without any negation, and a metric without a value satisfies no
comparison. So to get to know more can make a condition true but never false, however deep its tree
is. Only a value that takes the place of another one can. And what it does not name has no part in
it: the metrics that it is told to name, those that it lists and those that its truth depends on are
found by three walks over the same tree.

A monitor lives by both. It passes over samples of other metrics, and it is armed again where its
condition fails to hold. So it is armed again by a sample only if the sample changes a value that
was known, and one that has fired rests until then, or until an action fails.

## Main definitions

* `Dict.Within`: One dictionary keeps every value of another.
* `Monitor.replaces`: An event that changes a value which a monitor knows.
* `Monitor.undisturbed`: Events none of which does.
* `Condition.Grounded`: What the truth of a condition rests on.

## Theorems

* `mem_metrics_iff`: The metrics that are named are those that are listed.
* `holds_of_within`: A condition that holds does so as well where more is known.
* `latest_step_within`: What is known is forgotten by a change alone.
* `holds_after`, `armed_after`: A condition and a monitor while nothing is changed.
* `grounded`: What the truth of every condition rests on.
-/

namespace StoragePolicy

/-- The larger dictionary keeps every value of this one. -/
def Dict.Within {κ ν : Type} [SortKey κ] (d larger : Dict κ ν) : Prop :=
  ∀ key value, d.get? key = some value → larger.get? key = some value

namespace Dict

variable {κ ν : Type} [SortKey κ]

theorem within_refl (d : Dict κ ν) : d.Within d := fun _ _ hget => hget

/-- A value may be given to a key that has none, and to one that has the same. -/
theorem within_insert (d : Dict κ ν) (key : κ) (value : ν)
    (h : ∀ known, d.get? key = some known → known = value) : d.Within (d.insert key value) := by
  intro other known hget
  rw [get?_insert]
  split
  · -- The key had this value before, so it is the one that is given.
    rename_i hkey
    rw [hkey] at hget
    rw [h known hget]
  · exact hget

end Dict

namespace Condition

/-! ### The metrics -/

theorem references_iff (c : Condition) (metric : String) :
    c.references metric = true ↔ metric ∈ c.occurrences := by
  rw [references, List.contains_iff_mem]

/-- Metrics are listed if they have been or if they occur. -/
theorem get?_gathered (names : List String) (gathered : Dict String Unit) (metric : String) :
    ((names.foldl (fun d name => d.insert name ()) gathered).get? metric).isSome = true ↔
      (gathered.get? metric).isSome = true ∨ metric ∈ names := by
  induction names generalizing gathered with
  | nil => simp
  | cons name rest ih =>
    rw [List.foldl_cons, ih, Dict.get?_insert, List.mem_cons]
    by_cases hname : metric = name
    · simp [hname]
    · simp [hname]

/-- The metrics that are named are those that are listed. -/
theorem mem_metrics_iff (c : Condition) (metric : String) :
    metric ∈ c.metrics ↔ c.references metric = true := by
  rw [metrics, Dict.mem_keys_iff, get?_gathered, references_iff]
  simp

/-! ### The truth -/

mutual

/-- A condition that holds does so as well where more is known: a comparison that is satisfied has a
    value, which is kept, and of what is joined the same parts hold. -/
theorem holds_of_within (values others : MetricValues) (c : Condition)
    (h : values.Within others) (hc : c.holds values = true) : c.holds others = true := by
  cases c with
  | compare metric op threshold =>
    simp only [holds] at hc ⊢
    cases hget : values.get? metric with
    | none =>
      -- The comparison would not be satisfied.
      rw [hget] at hc
      exact nomatch hc
    | some actual =>
      rw [hget] at hc
      rw [h metric actual hget]
      exact hc
  | all conditions =>
    rw [holds] at hc ⊢
    exact holdAll_of_within values others conditions h hc
  | any conditions =>
    rw [holds] at hc ⊢
    exact holdAny_of_within values others conditions h hc

theorem holdAll_of_within (values others : MetricValues) (cs : List Condition)
    (h : values.Within others) (hall : holdAll values cs = true) : holdAll others cs = true := by
  cases cs with
  | nil => rfl
  | cons c rest =>
    rw [holdAll, Bool.and_eq_true] at hall ⊢
    exact ⟨holds_of_within values others c h hall.1,
      holdAll_of_within values others rest h hall.2⟩

theorem holdAny_of_within (values others : MetricValues) (cs : List Condition)
    (h : values.Within others) (hany : holdAny values cs = true) : holdAny others cs = true := by
  cases cs with
  | nil => exact hany
  | cons c rest =>
    rw [holdAny, Bool.or_eq_true] at hany ⊢
    exact hany.imp (holds_of_within values others c h) (holdAny_of_within values others rest h)

end

end Condition

namespace Monitor

/-! ### A monitor that learns -/

/-- Whether an event changes a value that a monitor knows: a sample that it takes in, of a metric
    that has another value so far. -/
def replaces (m : Monitor) : MonitorEvent → Bool
  | .sample x =>
    !m.stopped && m.condition.references x.metric &&
      (m.latest.get? x.metric).any fun known => decide (known ≠ x.value)
  | .concluded _ => false
  | .stop => false

/-- Whether none of some events changes a value that a monitor knows by then. -/
def undisturbed : Monitor → List MonitorEvent → Bool
  | _, [] => true
  | m, e :: rest => !m.replaces e && undisturbed (m.step e).2 rest

section Step

variable (m : Monitor)

/-- A first value changes none. -/
theorem replaces_of_get?_eq_none (x : Sample) (h : m.latest.get? x.metric = none) :
    m.replaces (.sample x) = false := by
  rw [replaces, h]
  exact Bool.and_false _

variable (e : MonitorEvent) (h : m.replaces e = false)

include h

/-- What is known is forgotten by a change alone. -/
theorem latest_step_within : m.latest.Within (m.step e).2.latest := by
  cases e with
  | sample x =>
    rw [step]
    cases hignored : m.stopped || !m.condition.references x.metric with
    | true =>
      rw [m.observe_of_ignored _ _ hignored]
      exact Dict.within_refl _
    | false =>
      rw [m.observe_of_heeded _ _ hignored]
      refine Dict.within_insert _ _ _ fun known hknown => ?_
      -- The sample is taken in, so it can only repeat what is known.
      rw [Bool.or_eq_false_iff, Bool.not_eq_false'] at hignored
      rw [replaces, hignored.1, hignored.2, hknown] at h
      simpa using h
  | concluded dispatched =>
    rw [step, (m.conclude_snd dispatched).2.2.1]
    exact Dict.within_refl _
  | stop => exact Dict.within_refl _

/-- A condition that holds goes on to hold. -/
theorem holds_step (hholds : m.holds = true) : (m.step e).2.holds = true := by
  rw [holds, (m.step_snd e).2.1]
  exact Condition.holds_of_within _ _ m.condition (m.latest_step_within e h) hholds

/-- A monitor whose condition holds is armed again by the failure of an action alone. -/
theorem armed_step (hholds : m.holds = true) (hfails : e ≠ .concluded false)
    (harmed : m.armed = false) : (m.step e).2.armed = false := by
  cases e with
  | sample x =>
    have hgoes := m.holds_step _ h hholds
    rw [step] at hgoes ⊢
    cases hignored : m.stopped || !m.condition.references x.metric with
    | true =>
      rw [m.observe_of_ignored _ _ hignored]
      exact harmed
    | false =>
      -- What the flag becomes is whether the condition fails to hold with the sample.
      rw [m.observe_of_heeded _ _ hignored] at hgoes ⊢
      rw [holds] at hgoes
      exact congrArg not hgoes
  | concluded dispatched =>
    cases dispatched with
    | false => exact absurd rfl hfails
    | true =>
      -- Success leaves the flag, and may stop the monitor.
      rw [step, (m.conclude_snd true).2.2.2.1, harmed]
      rfl
  | stop => exact harmed

end Step

section Run

variable (m : Monitor) (events : List MonitorEvent) (h : m.undisturbed events = true)
  (hholds : m.holds = true)

include h hholds

/-- By induction on the events, each of which finds the condition true. -/
theorem holds_after : (m.after events).holds = true := by
  induction events generalizing m with
  | nil => exact hholds
  | cons e rest ih =>
    rw [undisturbed, Bool.and_eq_true, Bool.not_eq_true'] at h
    exact ih (m.step e).2 h.2 (m.holds_step e h.1 hholds)

/-- The same for the flag of a monitor that has fired. -/
theorem armed_after (hfails : .concluded false ∉ events) (harmed : m.armed = false) :
    (m.after events).armed = false := by
  induction events generalizing m with
  | nil => exact harmed
  | cons e rest ih =>
    rw [undisturbed, Bool.and_eq_true, Bool.not_eq_true'] at h
    rw [List.mem_cons, not_or] at hfails
    exact ih (m.step e).2 h.2 (m.holds_step e h.1 hholds) hfails.2
      (m.armed_step e h.1 hholds (Ne.symm hfails.1) harmed)

end Run

end Monitor

namespace Condition

/-- What the truth of a condition rests on. -/
structure Grounded (c : Condition) : Prop where
  /-- The metrics that it is told to name are those that it lists. -/
  named : ∀ metric, c.references metric = true ↔ metric ∈ c.metrics
  /-- Its truth depends on the values of these metrics alone. -/
  depends : ∀ values others : MetricValues,
    (∀ metric, c.references metric = true → values.get? metric = others.get? metric) →
      c.holds values = c.holds others
  /-- Where it holds, it does so as well if more is known. -/
  grows : ∀ values others : MetricValues, values.Within others →
    c.holds values = true → c.holds others = true
  /-- The first value of a metric does not make the condition of a monitor false, nor is the monitor
      armed again by it. -/
  learns : ∀ (m : Monitor) (x : Sample), m.condition = c → m.latest.get? x.metric = none →
    m.holds = true → (m.observe x.metric x.value).2.holds = true ∧
      ((m.observe x.metric x.value).2.armed = true → m.armed = true)
  /-- It goes on to hold for a monitor until a value that is known gets changed, and until then a
      monitor that has fired is not armed again unless an action fails. -/
  lasts : ∀ (m : Monitor) (events : List MonitorEvent), m.condition = c →
    m.undisturbed events = true → m.holds = true → (m.after events).holds = true ∧
      (.concluded false ∉ events → m.armed = false → (m.after events).armed = false)

/-- What the truth of every condition rests on. -/
theorem grounded (c : Condition) : c.Grounded where
  named metric := (c.mem_metrics_iff metric).symm
  depends values others h := holds_congr values others c fun metric hmetric =>
    h metric ((c.references_iff metric).mpr hmetric)
  grows values others h := holds_of_within values others c h
  learns m x _ hnone hholds := by
    have hreplaces := m.replaces_of_get?_eq_none x hnone
    refine ⟨m.holds_step (.sample x) hreplaces hholds, fun hagain => ?_⟩
    -- Were it armed only now, then for the condition having failed to hold.
    by_contra harmed
    have hrests := m.armed_step (.sample x) hreplaces hholds (fun heq => nomatch heq)
      (Bool.eq_false_of_not_eq_true harmed)
    exact nomatch hagain.symm.trans hrests
  lasts m events _ hundisturbed hholds :=
    ⟨m.holds_after events hundisturbed hholds, m.armed_after events hundisturbed hholds⟩

/-- A condition of two alternatives, with joins of nothing in them. -/
def guarded : Condition :=
  .any [.all [.compare "put_bw" .greaterThan 1, .all []],
    .all [.compare "get_bw" .lessThan 5, .any []]]

/-- What happens to a monitor of it that has fired: its action succeeds, the other metric gets its
    first value, a metric without a part in it gets two, and what is known is said again. -/
def quiet : List MonitorEvent :=
  [.concluded true, .sample ⟨"t1", "get_bw", .onArrival, 9⟩,
    .sample ⟨"t1", "slowdown", .onArrival, 1⟩, .sample ⟨"t1", "slowdown", .onArrival, 2⟩,
    .sample ⟨"t1", "put_bw", .onArrival, 2⟩]

/-- The monitor when it has just fired. -/
def fired : Monitor :=
  Monitor.after { kind := .persistent, condition := guarded }
    [.sample ⟨"t1", "put_bw", .onArrival, 2⟩]

/-- Neither another metric nor a first value makes the condition false, and the monitor rests until
    a value that it knows is changed. -/
theorem grounded_guarded :
    guarded.metrics = ["get_bw", "put_bw"] ∧
      guarded.holds (Dict.ofList [("put_bw", 2)]) = true ∧
      guarded.holds (Dict.ofList [("put_bw", 2), ("slowdown", 9)]) = true ∧
      guarded.holds (Dict.ofList [("put_bw", 2), ("get_bw", 9)]) = true ∧
      fired.undisturbed quiet = true ∧ (fired.after quiet).holds = true ∧
      (fired.after quiet).armed = false ∧
      (fired.after (quiet ++ [.sample ⟨"t1", "put_bw", .onArrival, 0⟩])).holds = false := by
  have hgrounded := grounded guarded
  have hholds : guarded.holds (Dict.ofList [("put_bw", 2)]) = true := by decide +kernel
  have hquiet : fired.undisturbed quiet = true := by decide +kernel
  have hlasts := hgrounded.lasts fired quiet rfl hquiet (by decide +kernel)
  -- The one condition is judged on more and more, and then a monitor of it is.
  refine ⟨by decide +kernel, hholds, ?_, ?_, hquiet, hlasts.1,
    hlasts.2 (by simp [quiet]) (by decide +kernel), by decide +kernel⟩
  · refine (hgrounded.depends _ _ fun metric hmetric => ?_).symm.trans hholds
    rw [references_iff, guarded] at hmetric
    simp only [occurrences, occurrencesIn, List.append_nil, List.cons_append, List.nil_append,
      List.mem_cons, List.not_mem_nil, or_false] at hmetric
    rcases hmetric with rfl | rfl <;> decide +kernel
  · exact hgrounded.grows _ _ (Dict.within_insert _ _ _ fun known hknown => nomatch hknown) hholds

end Condition

end StoragePolicy
