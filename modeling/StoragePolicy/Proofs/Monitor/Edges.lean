import StoragePolicy.Proofs.Monitor.Rising

/-!
# A monitor over a whole history

A monitor remembers the latest values of its metrics and one flag. The flag is set when the
condition fails to hold and when an action fails, and cleared when the monitor fires; in between
there are samples that do not matter to the monitor, and it may be stopped at any time. What comes
of all this is told here from the events alone: the monitor fires at those of the samples that
matter at which its condition comes to hold, or holds still although its action has just failed.

A sample matters if the condition names its metric and nothing has stopped the monitor before. Which
samples those are can be read off the events, since only a call to stop and, for a transient
monitor, an action that has succeeded stop it. The other samples may be left out.

Nothing is asked of the condition. One that holds without any samples is no exception, since
the monitor begins armed and does not look at its condition before the first sample that matters.

## Main definitions

* `MonitorEvent`: What can happen to a monitor.
* `MonitorEvent.sift`: The events without the samples that do not matter.
* `Monitor.after`: A monitor after some events.
* `Monitor.answered`: Every firing is followed by the end of its action.
* `Monitor.notices`: What comes of the samples that matter.
* `Monitor.Judged`: The flag of a monitor, told from the samples before.
* `Monitor.DetectsEdges`: When a monitor fires, told from the events alone.

## Theorems

* `stopped_after`: A monitor has stopped if one of the events stops it.
* `latest_after`: A monitor knows the latest values in the samples that matter.
* `notices_sift`: The other samples may be left out.
* `judged_notices`: Its flag is what the samples before say.
* `detectsEdges_of_answered`: A monitor fires where its condition comes to hold, and again after a
  failure.
-/

namespace StoragePolicy

/-- What can happen to a monitor. -/
inductive MonitorEvent where
  /-- It is given a sample. -/
  | sample (x : Sample)
  /-- The action for a firing has ended. -/
  | concluded (dispatched : Bool)
  /-- It is stopped. -/
  | stop

namespace MonitorEvent

/-- Whether an event stops a monitor of a kind. -/
def halts (kind : MonitorKind) : MonitorEvent → Bool
  | .sample _ => false
  | .concluded dispatched => dispatched && kind == .transient
  | .stop => true

/-- The sample that is given. -/
def sample? : MonitorEvent → Option Sample
  | .sample x => some x
  | .concluded _ => none
  | .stop => none

/-- How an action has ended. -/
def dispatched? : MonitorEvent → Option Bool
  | .sample _ => none
  | .concluded dispatched => some dispatched
  | .stop => none

/-- Whether the next action to end fails. -/
def failsNext (events : List MonitorEvent) : Bool :=
  events.findSome? dispatched? == some false

section Relevant

variable (c : Condition) (kind : MonitorKind)

/-- The events without the samples that do not matter to a monitor: those of metrics that its
    condition does not name, and all those that come when it has stopped. -/
def sift : Bool → List MonitorEvent → List MonitorEvent
  | _, [] => []
  | stopped, .sample x :: rest =>
    if stopped || !c.references x.metric then sift stopped rest
    else .sample x :: sift stopped rest
  | stopped, .concluded dispatched :: rest =>
    .concluded dispatched :: sift (stopped || (concluded dispatched).halts kind) rest
  | _, .stop :: rest => .stop :: sift true rest

/-- The samples that matter to a new monitor. -/
def relevant (events : List MonitorEvent) : List Sample :=
  (sift c kind false events).filterMap sample?

/-- Leaving out samples leaves the ends of the actions. -/
theorem failsNext_sift (stopped : Bool) (events : List MonitorEvent) :
    failsNext (sift c kind stopped events) = failsNext events := by
  -- A sample says nothing of an end, so it makes no difference whether it stands there.
  have hsample : ∀ (x : Sample) (rest : List MonitorEvent),
      failsNext (.sample x :: rest) = failsNext rest := fun _ _ => rfl
  induction events generalizing stopped with
  | nil => rfl
  | cons e rest ih =>
    cases e with
    | sample x =>
      rw [sift, hsample]
      split
      · exact ih stopped
      · rw [hsample, ih stopped]
    | concluded dispatched => rfl
    | stop => exact ih true

end Relevant

end MonitorEvent

/-- What comes of a sample that matters to a monitor: whether it fires, and whether the action for
    that firing fails. -/
structure Notice where
  sample : Sample
  fired : Bool
  failed : Bool
  deriving DecidableEq

namespace Monitor

open MonitorEvent (sift relevant failsNext)

/-- Takes in an event. Tells whether the monitor fires. -/
def step (m : Monitor) : MonitorEvent → Bool × Monitor
  | .sample x => m.observe x.metric x.value
  | .concluded dispatched => (false, (m.conclude dispatched).2)
  | .stop => (false, m.stop)

/-- A monitor after some events. -/
def after (m : Monitor) (events : List MonitorEvent) : Monitor :=
  events.foldl (fun m e => (m.step e).2) m

/-- Whether every firing is followed by the end of its action before the next sample, and nothing
    else ends. It may be stopped in between, and the last action need not have ended. -/
def answered : Monitor → Bool → List MonitorEvent → Bool
  | _, _, [] => true
  | m, waiting, .sample x :: rest =>
    !waiting && answered (m.observe x.metric x.value).2 (m.observe x.metric x.value).1 rest
  | m, waiting, .concluded dispatched :: rest =>
    waiting && answered (m.conclude dispatched).2 false rest
  | m, waiting, .stop :: rest => answered m.stop waiting rest

/-- What comes of the samples that matter. -/
def notices : Monitor → List MonitorEvent → List Notice
  | _, [] => []
  | m, .sample x :: rest =>
    let (fires, next) := m.observe x.metric x.value
    if m.stopped || !m.condition.references x.metric then notices next rest
    else ⟨x, fires, fires && failsNext rest⟩ :: notices next rest
  | m, .concluded dispatched :: rest => notices (m.conclude dispatched).2 rest
  | m, .stop :: rest => notices m.stop rest

/-! ### One event -/

section Step

variable (m : Monitor)

theorem conclude_snd (dispatched : Bool) :
    (m.conclude dispatched).2.kind = m.kind ∧
      (m.conclude dispatched).2.condition = m.condition ∧
      (m.conclude dispatched).2.latest = m.latest ∧
      (m.conclude dispatched).2.armed = (m.armed || !dispatched) ∧
      (m.conclude dispatched).2.stopped =
        (m.stopped || (MonitorEvent.concluded dispatched).halts m.kind) := by
  unfold conclude
  cases dispatched with
  | false => simp [MonitorEvent.halts]
  | true => cases hkind : m.kind <;> simp [MonitorEvent.halts, stop, hkind]

/-- A sample that does not matter changes nothing. -/
theorem observe_of_ignored (metric : String) (value : Float)
    (h : (m.stopped || !m.condition.references metric) = true) :
    m.observe metric value = (false, m) := by
  unfold observe
  rw [if_pos h]

/-- A sample that matters is taken in. The monitor fires if it was armed and its condition holds,
    and is armed then if its condition does not. -/
theorem observe_of_heeded (metric : String) (value : Float)
    (h : (m.stopped || !m.condition.references metric) = false) :
    m.observe metric value =
      (m.armed && m.condition.holds (m.latest.insert metric value),
        { m with
          latest := m.latest.insert metric value,
          armed := !m.condition.holds (m.latest.insert metric value) }) := by
  unfold observe
  rw [if_neg (by rw [h]; exact Bool.false_ne_true)]
  dsimp only
  split
  · rename_i hholds
    dsimp only [holds] at hholds
    rw [hholds, Bool.and_true]
    rfl
  · rename_i hfails
    dsimp only [holds] at hfails
    rw [Bool.eq_false_of_not_eq_true hfails, Bool.and_false]
    rfl

/-- A monitor keeps its kind and its condition, and is stopped by the events that stop it. -/
theorem step_snd (e : MonitorEvent) :
    (m.step e).2.kind = m.kind ∧ (m.step e).2.condition = m.condition ∧
      (m.step e).2.stopped = (m.stopped || e.halts m.kind) := by
  cases e with
  | sample x =>
    simp only [step, MonitorEvent.halts, Bool.or_false]
    cases hignored : m.stopped || !m.condition.references x.metric with
    | true => rw [m.observe_of_ignored _ _ hignored]; exact ⟨rfl, rfl, rfl⟩
    | false => rw [m.observe_of_heeded _ _ hignored]; exact ⟨rfl, rfl, rfl⟩
  | concluded dispatched =>
    have hconclude := m.conclude_snd dispatched
    exact ⟨hconclude.1, hconclude.2.1, hconclude.2.2.2.2⟩
  | stop => simp [step, stop, MonitorEvent.halts]

end Step

/-! ### What the events say of the state -/

section After

variable (m : Monitor) (events : List MonitorEvent)

/-- A monitor keeps its kind and its condition, and has stopped if one of the events stops it. -/
theorem after_fixed :
    (m.after events).kind = m.kind ∧ (m.after events).condition = m.condition ∧
      (m.after events).stopped = (m.stopped || events.any (MonitorEvent.halts m.kind)) := by
  induction events generalizing m with
  | nil => exact ⟨rfl, rfl, by rw [List.any_nil, Bool.or_false]; rfl⟩
  | cons e rest ih =>
    have hstep := m.step_snd e
    have hrest := ih (m.step e).2
    rw [hstep.1, hstep.2.1, hstep.2.2] at hrest
    rw [List.any_cons, ← Bool.or_assoc]
    exact hrest

/-- The samples that matter to a monitor are those that are left when the events are sifted. -/
theorem map_sample_notices :
    (m.notices events).map Notice.sample =
      (sift m.condition m.kind m.stopped events).filterMap MonitorEvent.sample? := by
  induction events generalizing m with
  | nil => rfl
  | cons e rest ih =>
    have hstep := m.step_snd e
    have hrest := ih (m.step e).2
    rw [hstep.1, hstep.2.1, hstep.2.2] at hrest
    -- Both lists leave out the samples after the stop and those of metrics that do not matter.
    cases e with
    | sample x =>
      simp only [MonitorEvent.halts, Bool.or_false] at hrest
      rw [notices, sift]
      dsimp only
      cases m.stopped || !m.condition.references x.metric with
      | true => rw [if_pos rfl, if_pos rfl]; exact hrest
      | false =>
        rw [if_neg Bool.false_ne_true, if_neg Bool.false_ne_true, List.map_cons]
        exact congrArg (x :: ·) hrest
    | concluded dispatched => exact hrest
    | stop =>
      simp only [MonitorEvent.halts, Bool.or_true] at hrest
      exact hrest

/-- A monitor that knows the latest values in some samples goes on to know those in the samples that
    matter to it. -/
theorem latest_after (before : List Sample) (h : m.latest = Condition.latest before) :
    (m.after events).latest =
      Condition.latest (before ++ (m.notices events).map Notice.sample) := by
  induction events generalizing m before with
  | nil => rw [notices, List.map_nil, List.append_nil]; exact h
  | cons e rest ih =>
    cases e with
    | sample x =>
      rw [notices]
      dsimp only
      change ((m.observe x.metric x.value).2.after rest).latest = _
      cases hignored : m.stopped || !m.condition.references x.metric with
      | true =>
        rw [if_pos rfl, m.observe_of_ignored _ _ hignored]
        exact ih m before h
      | false =>
        -- The sample is the last of those before the rest.
        have hlatest :
            (m.observe x.metric x.value).2.latest = Condition.latest (before ++ [x]) := by
          rw [m.observe_of_heeded _ _ hignored, Condition.latest_append, ← h]
        rw [if_neg Bool.false_ne_true, ih _ _ hlatest, List.append_assoc]
        rfl
    | concluded dispatched =>
      exact ih (m.conclude dispatched).2 before ((m.conclude_snd dispatched).2.2.1.trans h)
    | stop => exact ih m.stop before h

/-- The samples that do not matter may be left out. -/
theorem notices_sift :
    m.notices (sift m.condition m.kind m.stopped events) = m.notices events := by
  induction events generalizing m with
  | nil => rfl
  | cons e rest ih =>
    have hstep := m.step_snd e
    have hrest := ih (m.step e).2
    rw [hstep.1, hstep.2.1, hstep.2.2] at hrest
    cases e with
    | sample x =>
      simp only [MonitorEvent.halts, Bool.or_false] at hrest
      rw [sift, notices]
      dsimp only
      -- A sample that is left out is one that the monitor ignores.
      cases hignored : m.stopped || !m.condition.references x.metric with
      | true =>
        rw [if_pos rfl, if_pos rfl, m.observe_of_ignored _ _ hignored]
        simp only [step, m.observe_of_ignored _ _ hignored] at hrest
        exact hrest
      | false =>
        rw [if_neg Bool.false_ne_true, if_neg Bool.false_ne_true, notices]
        dsimp only
        rw [hignored, if_neg Bool.false_ne_true, MonitorEvent.failsNext_sift]
        exact congrArg _ hrest
    | concluded dispatched => exact hrest
    | stop =>
      simp only [MonitorEvent.halts, Bool.or_true] at hrest
      exact hrest

/-- A monitor that fires has been given a sample that matters. -/
theorem heeds_of_fires (e : MonitorEvent) (h : (m.step e).1 = true) :
    ∃ x, e = .sample x ∧ m.condition.references x.metric = true ∧ m.stopped = false := by
  cases e with
  | sample x =>
    cases hignored : m.stopped || !m.condition.references x.metric with
    | true =>
      rw [step, m.observe_of_ignored _ _ hignored] at h
      exact nomatch h
    | false =>
      rw [Bool.or_eq_false_iff, Bool.not_eq_false'] at hignored
      exact ⟨x, rfl, hignored.2, hignored.1⟩
  | concluded dispatched => exact nomatch h
  | stop => exact nomatch h

end After

/-! ### The flag -/

/-- At every sample that matters a monitor fires if it is armed and its condition holds on the
    samples up to there. It is armed at the next one if its condition does not hold, or if it has
    fired and its action fails. -/
def Judged (c : Condition) : List Sample → Bool → List Notice → Prop
  | _, _, [] => True
  | before, armed, n :: rest =>
    n.fired = (armed && c.holds (Condition.latest (before ++ [n.sample]))) ∧
      Judged c (before ++ [n.sample])
        (!c.holds (Condition.latest (before ++ [n.sample])) || n.fired && n.failed) rest

/-- The flag of a monitor is what the samples before say. While an action has not ended the flag is
    not set; it is the end that decides whether it is at the next sample. -/
theorem judged_notices (m : Monitor) (waiting : Bool) (events : List MonitorEvent)
    (before : List Sample) (hanswered : m.answered waiting events = true)
    (hlatest : m.latest = Condition.latest before)
    (hwaiting : waiting = true → m.armed = false) :
    Judged m.condition before (m.armed || waiting && failsNext events) (m.notices events) := by
  induction events generalizing m waiting before with
  | nil => exact trivial
  | cons e rest ih =>
    cases e with
    | sample x =>
      rw [answered, Bool.and_eq_true, Bool.not_eq_true'] at hanswered
      rcases hanswered with ⟨hnot, hanswered⟩
      rw [hnot, Bool.false_and, Bool.or_false, notices]
      dsimp only
      cases hignored : m.stopped || !m.condition.references x.metric with
      | true =>
        rw [m.observe_of_ignored _ _ hignored] at hanswered ⊢
        have hrest := ih m false before hanswered hlatest (fun h => nomatch h)
        rw [Bool.false_and, Bool.or_false] at hrest
        rw [if_pos rfl]
        exact hrest
      | false =>
        rw [m.observe_of_heeded _ _ hignored, hlatest, ← Condition.latest_append] at hanswered ⊢
        rw [if_neg Bool.false_ne_true]
        have hcleared : (m.armed && m.condition.holds (Condition.latest (before ++ [x]))) = true →
            (!m.condition.holds (Condition.latest (before ++ [x]))) = false := by
          intro hfires
          rw [(Bool.and_eq_true_iff.mp hfires).2]
          rfl
        have hrest := ih _ _ (before ++ [x]) hanswered rfl hcleared
        refine ⟨rfl, ?_⟩
        dsimp only at hrest ⊢
        rw [← Bool.and_assoc, Bool.and_self]
        exact hrest
    | concluded dispatched =>
      rw [answered, Bool.and_eq_true] at hanswered
      rcases hanswered with ⟨rfl, hanswered⟩
      have hconclude := m.conclude_snd dispatched
      have hrest := ih (m.conclude dispatched).2 false before hanswered
        (hconclude.2.2.1.trans hlatest) (fun h => nomatch h)
      rw [hconclude.2.1, hconclude.2.2.2.1] at hrest
      -- The action has ended, and whether it has failed is what the flag becomes.
      have hfails : failsNext (.concluded dispatched :: rest) = !dispatched := by
        cases dispatched <;> rfl
      rw [hfails, Bool.true_and]
      rw [Bool.false_and, Bool.or_false] at hrest
      exact hrest
    | stop => exact ih m.stop waiting before hanswered hlatest hwaiting

section Index

variable {c : Condition}

/-- What the flag is at the first sample that matters. -/
theorem Judged.head {before : List Sample} {armed : Bool} {notices : List Notice} {n : Notice}
    (h : Judged c before armed notices) (hn : notices[0]? = some n) :
    n.fired = (armed && c.holds (Condition.latest
      (before ++ (notices.map Notice.sample).take 1))) := by
  cases notices with
  | nil => exact nomatch hn
  | cons first rest =>
    cases hn
    exact h.1

/-- What the flag is at each of the others, told from the one before it. -/
theorem Judged.succ {before : List Sample} {armed : Bool} {notices : List Notice} {k : Nat}
    {p n : Notice} (h : Judged c before armed notices) (hp : notices[k]? = some p)
    (hn : notices[k + 1]? = some n) :
    n.fired = ((!c.holds (Condition.latest (before ++ (notices.map Notice.sample).take (k + 1))) ||
        p.fired && p.failed) &&
      c.holds (Condition.latest (before ++ (notices.map Notice.sample).take (k + 2)))) := by
  induction k generalizing before armed notices with
  | zero =>
    cases notices with
    | nil => exact nomatch hp
    | cons first rest =>
      cases hp
      rw [h.2.head hn, List.append_assoc]
      rfl
  | succ k ih =>
    cases notices with
    | nil => exact nomatch hp
    | cons first rest =>
      rw [ih h.2 hp hn, List.append_assoc, List.append_assoc]
      rfl

end Index

/-! ### From the beginning -/

/-- When a monitor fires that begins with some events, told from the events alone. -/
structure DetectsEdges (kind : MonitorKind) (c : Condition) (events : List MonitorEvent) :
    Prop where
  /-- It has stopped from the first event on that stops it. -/
  stopped : ∀ i, (after { kind, condition := c } (events.take i)).stopped =
    (events.take i).any (MonitorEvent.halts kind)
  /-- Its condition holds if it does on the latest values in the samples that matter. -/
  holds : ∀ i, (after { kind, condition := c } (events.take i)).holds =
    c.holds (Condition.latest (relevant c kind (events.take i)))
  /-- The samples that matter are those of metrics of the condition before it has stopped. -/
  samples : (notices { kind, condition := c } events).map Notice.sample = relevant c kind events
  /-- It fires at one of them if its condition holds then, and did not hold after the one before, or
      the monitor fired there and its action failed. -/
  fires : ∀ k n, (notices { kind, condition := c } events)[k]? = some n →
    (n.fired = true ↔
      c.holds (Condition.latest ((relevant c kind events).take (k + 1))) = true ∧
        (k = 0 ∨ c.holds (Condition.latest ((relevant c kind events).take k)) = false ∨
          ∃ p, (notices { kind, condition := c } events)[k - 1]? = some p ∧
            p.fired = true ∧ p.failed = true))
  /-- It fires at no other event, and not once it has stopped. -/
  heeds : ∀ i e, events[i]? = some e →
    (step (after { kind, condition := c } (events.take i)) e).1 = true →
      ∃ x, e = .sample x ∧ c.references x.metric = true ∧
        (events.take i).any (MonitorEvent.halts kind) = false
  /-- The samples that do not matter may be left out. -/
  sifted : notices { kind, condition := c } (sift c kind false events) =
    notices { kind, condition := c } events

/-- A monitor whose firings are followed by the ends of their actions fires where its condition
    comes to hold, and again after a failure. -/
theorem detectsEdges_of_answered (kind : MonitorKind) (c : Condition) (events : List MonitorEvent)
    (h : answered { kind, condition := c } false events = true) :
    DetectsEdges kind c events where
  stopped := fun i => by
    rw [(after_fixed _ _).2.2]
    rfl
  holds := fun i => by
    have hlatest := latest_after { kind, condition := c } (events.take i) [] rfl
    rw [map_sample_notices, List.nil_append] at hlatest
    rw [Monitor.holds, (after_fixed _ _).2.1, hlatest]
    rfl
  samples := map_sample_notices { kind, condition := c } events
  fires := fun k n hn => by
    have hsamples := map_sample_notices { kind, condition := c } events
    have hjudged :=
      judged_notices { kind, condition := c } false events [] h rfl
        fun h => absurd h Bool.false_ne_true
    cases k with
    | zero =>
      have hfired := hjudged.head hn
      rw [hsamples, List.nil_append] at hfired
      rw [hfired]
      simp [relevant]
    | succ k =>
      -- There is a sample before it, since there are as many notices.
      have hlt : k < (notices { kind, condition := c } events).length :=
        Nat.lt_of_succ_lt (List.getElem?_eq_some_iff.mp hn).1
      have hp := List.getElem?_eq_getElem hlt
      have hfired := hjudged.succ hp hn
      rw [hsamples, List.nil_append, List.nil_append] at hfired
      rw [hfired, Nat.add_sub_cancel, hp]
      simp [relevant, and_comm]
  heeds := fun i e he hfires => by
    rcases heeds_of_fires _ e hfires with ⟨x, rfl, hreferences, hstopped⟩
    rw [(after_fixed _ _).2.1] at hreferences
    rw [(after_fixed _ _).2.2] at hstopped
    exact ⟨x, rfl, hreferences, hstopped⟩
  sifted := notices_sift { kind, condition := c } events

/-- The history of a monitor whose first action fails, and whose second one succeeds. -/
def retried : List MonitorEvent :=
  [.sample ⟨"t1", "put_bw", .onArrival, 2⟩, .concluded false,
    .sample ⟨"t1", "get_bw", .onArrival, 0⟩, .sample ⟨"t1", "put_bw", .onArrival, 3⟩,
    .concluded true, .sample ⟨"t1", "put_bw", .onArrival, 0⟩,
    .sample ⟨"t1", "put_bw", .onArrival, 2⟩]

/-- A transient monitor fires again after its action has failed although its condition has held all
    the while, and not once its action has succeeded. -/
theorem detectsEdges_of_answered_retried :
    answered { kind := .transient, condition := .compare "put_bw" .greaterThan 1 } false retried =
        true ∧
      notices { kind := .transient, condition := .compare "put_bw" .greaterThan 1 } retried =
        [⟨⟨"t1", "put_bw", .onArrival, 2⟩, true, true⟩,
          ⟨⟨"t1", "put_bw", .onArrival, 3⟩, true, false⟩] ∧
      DetectsEdges .transient (.compare "put_bw" .greaterThan 1) retried :=
  ⟨by decide +kernel, by decide +kernel, detectsEdges_of_answered _ _ _ (by decide +kernel)⟩

end Monitor

end StoragePolicy
