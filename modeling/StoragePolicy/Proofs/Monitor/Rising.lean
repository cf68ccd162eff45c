import StoragePolicy.Monitor.Basic
import StoragePolicy.Proofs.Condition.RoundTrip

/-!
# When a monitor fires

A monitor keeps the latest values of the metrics of its condition, and whether the condition has
failed to hold since it last fired. That is all it needs to know: as long as its actions succeed, it
fires exactly at those samples at which its condition comes to hold. What it keeps is compared here
with all the samples it has been given, so that what it does can be told from the samples alone.

A condition that has been read does not hold before there are any samples, since it has comparisons.
A monitor begins armed, which says just that.

## Main definitions

* `Condition.latest`: The latest values in some samples.
* `Condition.RisesAt`: A condition comes to hold at a sample.
* `Condition.firings`: The samples that a monitor reads, and at which of them it fires.
* `Monitor.Tracks`: A monitor knows what it has to know of the samples.

## Theorems

* `observe_of_tracks`: A monitor fires if its condition comes to hold, and goes on to know.
* `holds_empty_of_parse`: Without samples no condition holds that has been read.
* `firings_append`: Samples may be read in parts.
* `fires_iff`: A monitor fires at the samples at which its condition rises, and a transient one at
  the first of them only.
-/

namespace StoragePolicy

namespace Condition

/-- The latest value of each metric in some samples. -/
def latest (samples : List Sample) : MetricValues :=
  samples.foldl (fun values x => values.insert x.metric x.value) Dict.empty

/-- A condition comes to hold at the sample in a place: the sample is of one of its metrics, and the
    condition holds on the latest values with this sample and does not without it. -/
def RisesAt (c : Condition) (samples : List Sample) (i : Nat) : Prop :=
  ∃ x, samples[i]? = some x ∧ c.references x.metric = true ∧
    c.holds (latest (samples.take (i + 1))) = true ∧ c.holds (latest (samples.take i)) = false

/-- Whether a condition comes to hold at a sample that follows others. -/
def rises (c : Condition) (before : List Sample) (x : Sample) : Bool :=
  c.references x.metric && c.holds (latest (before ++ [x])) && !c.holds (latest before)

/-- The samples that a monitor of a condition reads after others, each with whether the monitor
    fires. A transient monitor reads none after it has fired. -/
def firings (c : Condition) (transient : Bool) : List Sample → List Sample → List (Sample × Bool)
  | _, [] => []
  | before, x :: rest =>
    (x, c.rises before x) ::
      if transient && c.rises before x then [] else firings c transient (before ++ [x]) rest

/-- Whether a monitor is done with its samples for having fired. -/
def spent (c : Condition) (transient : Bool) (before samples : List Sample) : Bool :=
  transient && (firings c transient before samples).any Prod.snd

theorem latest_append (before : List Sample) (x : Sample) :
    latest (before ++ [x]) = (latest before).insert x.metric x.value := by
  rw [latest, List.foldl_append]
  rfl

/-- A sample of a metric that a condition does not name has no part in whether it holds. -/
theorem holds_latest_of_not_references (c : Condition) (before : List Sample) (x : Sample)
    (h : c.references x.metric = false) :
    c.holds (latest (before ++ [x])) = c.holds (latest before) := by
  refine holds_congr _ _ c fun metric hmetric => ?_
  rw [latest_append, Dict.get?_insert, if_neg]
  rintro rfl
  rw [references, List.contains_eq_mem, decide_eq_false_iff_not] at h
  exact h hmetric

/-! ### Without samples -/

theorem holds_join_all (values : MetricValues) (conditions : List Condition) :
    (join .all conditions).holds values = holdAll values conditions := by
  unfold join
  split
  · simp [holdAll]
  · rw [holds]

theorem holds_join_any (values : MetricValues) (conditions : List Condition) :
    (join .any conditions).holds values = holdAny values conditions := by
  unfold join
  split
  · simp [holdAny]
  · rw [holds]

/-- Without samples no condition holds that has been read: every alternative begins with a
    comparison. -/
theorem holds_empty_of_parse (text : String) (c : Condition) (h : parse text = .ok c) :
    c.holds (latest []) = false := by
  rcases isRead_of_parse text c h with ⟨alternatives, -, hproper, rfl⟩
  rw [ofAtoms, holds_join_any]
  have hne : ∀ atoms ∈ alternatives, atoms ≠ [] := fun atoms hatoms => (hproper atoms hatoms).1
  clear h hproper
  induction alternatives with
  | nil => rfl
  | cons atoms rest ih =>
    rw [List.map_cons, holdAny, holds_join_all, ih fun a ha => hne a (List.mem_cons_of_mem _ ha)]
    cases atoms with
    | nil => exact absurd rfl (hne [] List.mem_cons_self)
    | cons a others => rfl

/-! ### What is read in parts -/

section Firings

variable (c : Condition) (transient : Bool)

theorem spent_cons (before : List Sample) (x : Sample) (rest : List Sample) :
    spent c transient before (x :: rest) =
      (transient && c.rises before x || spent c transient (before ++ [x]) rest) := by
  rw [spent, spent, firings]
  cases transient with
  | false => rfl
  | true => cases c.rises before x <;> rfl

/-- Samples may be read in parts, and once a transient monitor has fired the other parts are not
    read. -/
theorem firings_append (before first second : List Sample) :
    firings c transient before (first ++ second) = firings c transient before first ++
      if spent c transient before first then [] else
        firings c transient (before ++ first) second := by
  induction first generalizing before with
  | nil => simp [firings, spent]
  | cons x rest ih =>
    rw [List.cons_append, firings, firings, spent_cons]
    cases hfires : (transient && c.rises before x) with
    | true => rfl
    | false =>
      rw [Bool.false_or, if_neg (by simp), if_neg (by simp), ih, List.append_assoc]
      rfl

/-- A part of the samples after which a monitor is spent leaves it spent. -/
theorem spent_append (before first second : List Sample) :
    spent c transient before (first ++ second) =
      (spent c transient before first || spent c transient (before ++ first) second) := by
  cases hspent : spent c transient before first with
  | true =>
    have hfirings := firings_append c transient before first second
    rw [hspent, if_pos rfl, List.append_nil] at hfirings
    rw [spent, hfirings, ← spent, hspent, Bool.true_or]
  | false =>
    have hfirings := firings_append c transient before first second
    rw [hspent, if_neg (by simp)] at hfirings
    rw [spent, hfirings, List.any_append, Bool.and_or_distrib_left, ← spent, ← spent, hspent]

/-- A monitor reads the samples one after the other. -/
theorem prefix_firings (before samples : List Sample) :
    (firings c transient before samples).map Prod.fst <+: samples := by
  induction samples generalizing before with
  | nil => exact List.prefix_refl _
  | cons x rest ih =>
    rw [firings, List.map_cons]
    refine List.cons_prefix_cons.mpr ⟨rfl, ?_⟩
    split
    · exact List.nil_prefix
    · exact ih _

theorem risesAt_append (before samples : List Sample) (x : Sample) :
    RisesAt c (before ++ x :: samples) before.length ↔ c.rises before x = true := by
  have hplace : (before ++ x :: samples)[before.length]? = some x := by simp
  have htake : (before ++ x :: samples).take (before.length + 1) = before ++ [x] := by
    rw [List.take_add_one, hplace, List.take_left]
    rfl
  rw [RisesAt, htake, List.take_left, hplace]
  simp [rises, and_assoc]

/-- A monitor fires at the samples at which its condition rises, and a transient one at the first of
    them only. -/
theorem fires_iff_from (before samples : List Sample) (i : Nat) :
    (∃ x, (firings c transient before samples)[i]? = some (x, true)) ↔
      RisesAt c (before ++ samples) (before.length + i) ∧
        (transient = true → ∀ j < i, ¬ RisesAt c (before ++ samples) (before.length + j)) := by
  induction samples generalizing before i with
  | nil =>
    have hnone : ¬ RisesAt c before (before.length + i) := by
      rintro ⟨x, hx, -⟩
      simp at hx
    rw [List.append_nil]
    simp [firings, hnone]
  | cons x rest ih =>
    have hfirst := risesAt_append c before rest x
    cases i with
    | zero =>
      rw [Nat.add_zero, hfirst, firings]
      simp
    | succ i =>
      -- What follows the first sample is what is read after one more.
      have hshift : ∀ k, RisesAt c (before ++ x :: rest) (before.length + (k + 1)) ↔
          RisesAt c ((before ++ [x]) ++ rest) ((before ++ [x]).length + k) := by
        intro k
        rw [List.append_assoc, List.singleton_append, List.length_append, List.length_singleton,
          Nat.add_assoc, Nat.add_comm 1 k]
      have hlater : (∀ j < i + 1, ¬ RisesAt c (before ++ x :: rest) (before.length + j)) ↔
          ¬ c.rises before x = true ∧
            ∀ j < i, ¬ RisesAt c ((before ++ [x]) ++ rest) ((before ++ [x]).length + j) := by
        constructor
        · intro h
          refine ⟨fun hrises => h 0 (Nat.succ_pos i) (hfirst.mpr hrises), fun j hj hrises => ?_⟩
          exact h (j + 1) (Nat.succ_lt_succ hj) ((hshift j).mpr hrises)
        · rintro ⟨hx, h⟩ j hj
          cases j with
          | zero => exact fun hrises => hx (hfirst.mp hrises)
          | succ j => exact fun hrises => h j (Nat.lt_of_succ_lt_succ hj) ((hshift j).mp hrises)
      rw [hshift, hlater, firings, List.getElem?_cons_succ]
      cases transient with
      | false =>
        rw [Bool.false_and, if_neg (by simp), ih]
        simp
      | true =>
        cases hrises : c.rises before x with
        | true => simp
        | false =>
          rw [Bool.and_false, if_neg (by simp), ih]
          simp

/-- The same for the samples from the beginning. -/
theorem fires_iff (samples : List Sample) (i : Nat) :
    (∃ x, (firings c transient [] samples)[i]? = some (x, true)) ↔
      RisesAt c samples i ∧ (transient = true → ∀ j < i, ¬ RisesAt c samples j) := by
  have h := fires_iff_from c transient [] samples i
  simp only [List.nil_append, List.length_nil, Nat.zero_add] at h
  exact h

/-- A monitor is spent if it is transient and its condition has risen. -/
theorem spent_iff (samples : List Sample) :
    spent c transient [] samples = true ↔ transient = true ∧ ∃ i, RisesAt c samples i := by
  rw [spent, Bool.and_eq_true, List.any_eq_true]
  refine and_congr_right fun htransient => ?_
  constructor
  · rintro ⟨⟨x, fires⟩, hmem, hfires⟩
    rcases List.mem_iff_getElem?.mp hmem with ⟨i, hi⟩
    cases (show fires = true from hfires)
    exact ⟨i, ((fires_iff c transient samples i).mp ⟨x, hi⟩).1⟩
  · rintro ⟨i, hi⟩
    -- The first rise is one at which the monitor fires.
    induction i using Nat.strongRecOn with
    | _ i ih =>
      by_cases hfirst : ∀ j < i, ¬ RisesAt c samples j
      · rcases (fires_iff c transient samples i).mpr ⟨hi, fun _ => hfirst⟩ with ⟨x, hx⟩
        exact ⟨(x, true), List.mem_of_getElem? hx, rfl⟩
      · simp only [not_forall, not_not] at hfirst
        rcases hfirst with ⟨j, hj, hrises⟩
        exact ih j hj hrises

end Firings

end Condition

/-! ### What a monitor knows -/

namespace Monitor

/-- A monitor that has been given some samples knows the latest values of its metrics, and whether
    its condition holds. -/
structure Tracks (m : Monitor) (c : Condition) (samples : List Sample) : Prop where
  condition : m.condition = c
  latest : ∀ metric ∈ c.occurrences,
    m.latest.get? metric = (Condition.latest samples).get? metric
  armed : m.armed = !c.holds (Condition.latest samples)
  stopped : m.stopped = false

/-- A monitor fires if its condition comes to hold, and knows about the sample then. -/
theorem observe_of_tracks (m : Monitor) (c : Condition) (before : List Sample) (x : Sample)
    (h : m.Tracks c before) :
    (m.observe x.metric x.value).1 = c.rises before x ∧
      (m.observe x.metric x.value).2.Tracks c (before ++ [x]) := by
  -- A sample of a metric that the condition does not name is stored nowhere and changes no truth.
  cases hreferences : c.references x.metric with
  | false =>
    have hsame := Condition.holds_latest_of_not_references c before x hreferences
    rw [observe_of_not_references m _ _ (by rw [h.condition, hreferences])]
    refine ⟨by rw [Condition.rises, hreferences]; rfl, h.condition, fun metric hmetric => ?_,
      by rw [hsame]; exact h.armed, h.stopped⟩
    rw [Condition.latest_append, Dict.get?_insert, if_neg, h.latest metric hmetric]
    rintro rfl
    rw [Condition.references, List.contains_eq_mem, decide_eq_false_iff_not] at hreferences
    exact hreferences hmetric
  | true =>
    have hlatest : ∀ metric ∈ c.occurrences, (m.latest.insert x.metric x.value).get? metric =
        (Condition.latest (before ++ [x])).get? metric := by
      intro metric hmetric
      rw [Condition.latest_append, Dict.get?_insert, Dict.get?_insert, h.latest metric hmetric]
    have hholds : ({ m with latest := m.latest.insert x.metric x.value } : Monitor).holds =
        c.holds (Condition.latest (before ++ [x])) := by
      rw [holds, h.condition]
      exact Condition.holds_congr _ _ c hlatest
    have hheeds : (m.stopped || !m.condition.references x.metric) = false := by
      rw [h.stopped, h.condition, hreferences]
      rfl
    rw [observe, if_neg (by rw [hheeds]; simp)]
    dsimp only
    rw [hholds, Condition.rises, hreferences]
    cases hafter : c.holds (Condition.latest (before ++ [x])) with
    | true =>
      rw [if_pos rfl]
      refine ⟨by simp [h.armed], h.condition, hlatest, by simp [hafter], h.stopped⟩
    | false =>
      rw [if_neg (by simp)]
      exact ⟨by simp, h.condition, hlatest, by simp [hafter], h.stopped⟩

/-- A new monitor knows that its condition does not hold. -/
theorem tracks_new (kind : MonitorKind) (c : Condition)
    (h : c.holds (Condition.latest []) = false) :
    ({ kind, condition := c } : Monitor).Tracks c [] where
  condition := rfl
  latest := fun _ _ => rfl
  armed := by rw [h]; rfl
  stopped := rfl

end Monitor

end StoragePolicy
