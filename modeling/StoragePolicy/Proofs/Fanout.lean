import Mathlib.Data.List.Induction
import StoragePolicy.Fanout
import StoragePolicy.Proofs.Store.View
import StoragePolicy.Sample.Basic

/-!
# The fan-out as one list

The fan-out keeps the observers of each tenant in a group of their own, and a tenant whose last
observer is detached loses its group. Seen from outside it is one list of attachments in the order
in which they were made. A detachment takes out of the list what was attached before under its
tenant and its id, and a sample goes to those that stand in the list under its own tenant.

Observers may do what they like with a sample, and what they do may depend on all that was done
before, by other observers, too. Who is called does not depend on it, because the observers of a
sample are settled before the first of them is called.

## Main definitions

* `Fanout.Call`, `Fanout.Answer`, `Fanout.exec`: The calls to a fan-out and what they answer.
* `Fanout.run`: A fan-out after any calls.
* `Fanout.standing`: The attachments that are left after some calls.
* `Fanout.Answered`: What a call has to answer after others.
* `Fanout.Apart`: Observers that leave alone what belongs to other tenants.

## Theorems

* `standing_append`: Later calls only take attachments out, and add theirs behind.
* `holds_run`: The groups are the list of attachments, cut up by tenants.
* `deliverTo_eq`: What becomes of a sample is what its observers do with it, one after the other.
* `deliveries_of_run`: Every call answers from the list, and from the calls for its own tenant.
-/

namespace StoragePolicy

namespace Fanout

variable {α σ : Type}

/-- An observer as it was attached. -/
structure Attachment (α : Type) where
  tenantId : String
  id : Nat
  observer : α

/-- A call to a fan-out. -/
inductive Call (α : Type) where
  | attach (a : Attachment α)
  | detach (tenantId : String) (id : Nat)
  | notify (sample : Sample)

/-- What a call has brought about: whether an observer was detached, or which observers were called
    with a sample and what they did with it, in order, and how many are said to have accepted it. -/
inductive Answer (α : Type) where
  | attached
  | detached (removed : Bool)
  | notified (calls : List (α × Receipt)) (accepted : Nat)

/-- The tenant that a call is for. -/
def Call.tenantId : Call α → String
  | .attach a => a.tenantId
  | .detach tenantId _ => tenantId
  | .notify sample => sample.tenantId

/-- Hands something to an observer, and writes down that it was called and what it did. -/
def recording (receive : α → σ → Receipt × σ) (observer : α) (s : List (α × Receipt) × σ) :
    Receipt × List (α × Receipt) × σ :=
  ((receive observer s.2).1, s.1 ++ [(observer, (receive observer s.2).1)],
    (receive observer s.2).2)

/-- What a call answers, and what it does to the fan-out and to what the observers share. -/
def exec (receive : Sample → α → σ → Receipt × σ) :
    Call α → Fanout α × σ → Answer α × Fanout α × σ
  | .attach a, (f, s) => (.attached, f.attach a.tenantId a.id a.observer, s)
  | .detach tenantId id, (f, s) =>
    (.detached (f.detach tenantId id).1, (f.detach tenantId id).2, s)
  | .notify sample, (f, s) =>
    (.notified (f.deliver sample.tenantId (recording (receive sample)) ([], s)).2.1
        (f.deliver sample.tenantId (receive sample) s).1,
      f, (f.deliver sample.tenantId (receive sample) s).2)

/-- A new fan-out after some calls, and what the observers share then. -/
def run (receive : Sample → α → σ → Receipt × σ) (s : σ) (calls : List (Call α)) : Fanout α × σ :=
  calls.foldl (fun state c => (exec receive c state).2) ({}, s)

/-- Whether a call detaches an observer that was attached so. -/
def Call.detaches (a : Attachment α) : Call α → Bool
  | .detach tenantId id => decide (tenantId = a.tenantId ∧ id = a.id)
  | _ => false

/-- The attachments that are left after some calls, in the order in which they were made: those
    behind which there is no detachment of their tenant and id. -/
def standing : List (Call α) → List (Attachment α)
  | [] => []
  | .attach a :: later =>
    if later.any (Call.detaches a) then standing later else a :: standing later
  | _ :: later => standing later

/-- The attachments of a tenant that are left. -/
def standingOf (calls : List (Call α)) (tenantId : String) : List (Attachment α) :=
  (standing calls).filter fun a => a.tenantId = tenantId

/-- What a call has to answer after others. A detachment tells whether there was something to
    detach. A sample is handed to the observers of its tenant that are left, and those that accepted
    it are counted. -/
def Answered (before : List (Call α)) : Call α → Answer α → Prop
  | .attach _, answer => answer = .attached
  | .detach tenantId id, answer => ∃ removed, answer = .detached removed ∧
      (removed = true ↔ ∃ a ∈ standing before, a.tenantId = tenantId ∧ a.id = id)
  | .notify sample, answer => ∃ calls,
      answer = .notified calls (calls.countP fun c => c.2 = .accepted) ∧
      calls.map Prod.fst = (standingOf before sample.tenantId).map Attachment.observer

/-- What an answer tells of the fan-out, whatever the observers did. -/
def Answer.heard : Answer α → Option Bool × List α
  | .attached => (none, [])
  | .detached removed => (some removed, [])
  | .notified calls _ => (none, calls.map Prod.fst)

/-- Observers that leave alone what belongs to other tenants: each tenant has something that is seen
    and changed with the samples of this tenant alone. -/
structure Apart {τ : Type} (receive : Sample → α → σ → Receipt × σ) (view : String → σ → τ) :
    Prop where
  others : ∀ sample observer s tenantId, tenantId ≠ sample.tenantId →
    view tenantId (receive sample observer s).2 = view tenantId s
  receipt : ∀ sample observer s s', view sample.tenantId s = view sample.tenantId s' →
    (receive sample observer s).1 = (receive sample observer s').1
  own : ∀ sample observer s s', view sample.tenantId s = view sample.tenantId s' →
    view sample.tenantId (receive sample observer s).2 =
      view sample.tenantId (receive sample observer s').2

/-! ### What is left after some calls -/

/-- Later calls take attachments out of the list, and put theirs behind it. -/
theorem standing_append (before after : List (Call α)) :
    standing (before ++ after) =
      (standing before).filter (fun a => !after.any (Call.detaches a)) ++ standing after := by
  induction before with
  | nil => rfl
  | cons c rest ih =>
    cases c with
    | attach a =>
      rw [List.cons_append, standing, standing, ih, List.any_append]
      cases hrest : rest.any (Call.detaches a) with
      | true => rfl
      | false =>
        cases hafter : after.any (Call.detaches a) <;> simp [hafter]
    | detach tenantId id => exact ih
    | notify sample => exact ih

theorem standing_attach (before : List (Call α)) (a : Attachment α) :
    standing (before ++ [.attach a]) = standing before ++ [a] := by
  rw [standing_append]
  simp [standing, Call.detaches]

theorem standing_detach (before : List (Call α)) (tenantId : String) (id : Nat) :
    standing (before ++ [.detach tenantId id]) =
      (standing before).filter fun a => !decide (tenantId = a.tenantId ∧ id = a.id) := by
  rw [standing_append]
  simp [standing, Call.detaches]

theorem standing_notify (before : List (Call α)) (sample : Sample) :
    standing (before ++ [.notify sample]) = standing before := by
  rw [standing_append]
  simp [standing, Call.detaches]

/-- What is left of a tenant comes from the calls for this tenant. -/
theorem standingOf_filter (calls : List (Call α)) (tenantId : String) :
    standingOf (calls.filter fun c => c.tenantId = tenantId) tenantId =
      standingOf calls tenantId := by
  induction calls with
  | nil => rfl
  | cons c rest ih =>
    -- To detach another tenant takes nothing away from this one.
    have hothers : ∀ a : Attachment α, a.tenantId = tenantId →
        (rest.filter fun c => c.tenantId = tenantId).any (Call.detaches a) =
          rest.any (Call.detaches a) := by
      intro a ha
      rw [List.any_filter]
      refine congrArg rest.any (funext fun c => ?_)
      cases c with
      | detach other id =>
        simp only [Call.tenantId, Call.detaches, ha]
        by_cases hother : other = tenantId <;> simp [hother]
      | attach a => simp [Call.detaches]
      | notify sample => simp [Call.detaches]
    unfold standingOf at ih ⊢
    by_cases hc : c.tenantId = tenantId
    · rw [List.filter_cons_of_pos (by simpa using hc)]
      cases c with
      | attach a =>
        rw [standing, standing, hothers a hc]
        split
        · exact ih
        · rw [List.filter_cons, List.filter_cons, ih]
      | detach other id => exact ih
      | notify sample => exact ih
    · rw [List.filter_cons_of_neg (by simpa using hc), ih]
      cases c with
      | attach a =>
        rw [standing]
        have ha : ¬ a.tenantId = tenantId := hc
        split
        · rfl
        · rw [List.filter_cons_of_neg (by simpa using ha)]
      | detach other id => rfl
      | notify sample => rfl

/-! ### The groups -/

/-- The groups of a fan-out are a list of attachments, cut up by tenants. -/
def Holds (f : Fanout α) (held : List (Attachment α)) : Prop :=
  ∀ tenantId, f.groups.get? tenantId =
    group ((held.filter fun a => a.tenantId = tenantId).map fun a => (a.id, a.observer))

theorem observers_of_holds (f : Fanout α) (held : List (Attachment α)) (h : f.Holds held)
    (tenantId : String) : f.observers tenantId =
      (held.filter fun a => a.tenantId = tenantId).map fun a => (a.id, a.observer) := by
  rw [observers, h, getD_group]

theorem group_append (observers : List (Nat × α)) (o : Nat × α) :
    group (observers ++ [o]) = some (observers ++ [o]) := by
  rw [group, if_neg (by simp)]

theorem holds_attach (f : Fanout α) (held : List (Attachment α)) (h : f.Holds held)
    (a : Attachment α) : (f.attach a.tenantId a.id a.observer).Holds (held ++ [a]) := by
  intro tenantId
  rw [attach, Dict.get?_insert, List.filter_append]
  by_cases htenant : tenantId = a.tenantId
  · subst htenant
    rw [if_pos rfl, observers_of_holds f held h, List.filter_cons_of_pos (by simp),
      List.filter_nil, List.map_append, List.map_singleton, group_append]
  · rw [if_neg htenant, h, List.filter_cons_of_neg (by simpa using Ne.symm htenant),
      List.filter_nil, List.append_nil]

theorem holds_detach (f : Fanout α) (held : List (Attachment α)) (h : f.Holds held)
    (tenantId : String) (id : Nat) : (f.detach tenantId id).2.Holds
      (held.filter fun a => !decide (tenantId = a.tenantId ∧ id = a.id)) := by
  intro other
  simp only [detach, Dict.get?_set]
  by_cases hother : other = tenantId
  · subst hother
    rw [if_pos rfl, observers_of_holds f held h, List.filter_map, List.filter_filter,
      List.filter_filter]
    refine congrArg group (congrArg (List.map _) (List.filter_congr fun a _ => ?_))
    -- Of the attachments of this tenant only those of the id are taken out.
    by_cases ha : a.tenantId = other <;> simp [ha, eq_comm]
  · rw [if_neg hother, h, List.filter_filter]
    refine congrArg group (congrArg (List.map _) (List.filter_congr fun a _ => ?_))
    by_cases ha : a.tenantId = other
    · have hne : ¬ tenantId = other := Ne.symm hother
      simp [ha, hne]
    · simp [ha]

section Run

variable (receive : Sample → α → σ → Receipt × σ) (s : σ)

theorem run_append (before : List (Call α)) (c : Call α) :
    run receive s (before ++ [c]) = (exec receive c (run receive s before)).2 := by
  rw [run, List.foldl_append]
  rfl

/-- The groups are the list of the attachments that are left, cut up by tenants. -/
theorem holds_run (calls : List (Call α)) : (run receive s calls).1.Holds (standing calls) := by
  -- The last call is what the fan-out sees last, so the induction is on what came before it.
  induction calls using List.reverseRecOn with
  | nil => exact fun _ => rfl
  | append_singleton before c ih =>
    rw [run_append]
    cases c with
    | attach a =>
      rw [standing_attach]
      exact holds_attach _ _ ih a
    | detach tenantId id =>
      rw [standing_detach]
      exact holds_detach _ _ ih tenantId id
    | notify sample =>
      rw [standing_notify]
      exact ih

theorem observers_run (calls : List (Call α)) (tenantId : String) :
    (run receive s calls).1.observers tenantId =
      (standingOf calls tenantId).map fun a => (a.id, a.observer) :=
  observers_of_holds _ _ (holds_run receive s calls) tenantId

/-- The observers of a tenant come from the calls for this tenant. -/
theorem observers_run_filter (calls : List (Call α)) (tenantId : String) :
    (run receive s (calls.filter fun c => c.tenantId = tenantId)).1.observers tenantId =
      (run receive s calls).1.observers tenantId := by
  rw [observers_run, observers_run, standingOf_filter]

end Run

/-! ### Deliveries -/

/-- What observers do with something that is handed to them one after the other. -/
def receipts (receive : α → σ → Receipt × σ) : List α → σ → List (α × Receipt)
  | [], _ => []
  | observer :: rest, s =>
    (observer, (receive observer s).1) :: receipts receive rest (receive observer s).2

/-- What they leave behind. -/
def handed (receive : α → σ → Receipt × σ) (observers : List α) (s : σ) : σ :=
  observers.foldl (fun s observer => (receive observer s).2) s

theorem map_fst_receipts (receive : α → σ → Receipt × σ) (observers : List α) (s : σ) :
    (receipts receive observers s).map Prod.fst = observers := by
  induction observers generalizing s with
  | nil => rfl
  | cons observer rest ih => rw [receipts, List.map_cons, ih]

/-- What becomes of a sample is what its observers do with it, one after the other: one that refuses
    it or fails on it is passed over. -/
theorem deliverTo_eq (receive : α → σ → Receipt × σ) (observers : List (Nat × α)) (s : σ) :
    deliverTo receive observers s =
      ((receipts receive (observers.map Prod.snd) s).countP fun c => c.2 = .accepted,
        handed receive (observers.map Prod.snd) s) := by
  induction observers generalizing s with
  | nil => rfl
  | cons o rest ih =>
    rcases o with ⟨id, observer⟩
    simp only [deliverTo, ih, List.map_cons, receipts, List.countP_cons]
    by_cases haccepted : (receive observer s).1 = .accepted <;> simp [haccepted, handed]

/-- Every observer is called once, in order, and what it did is written down. -/
theorem deliverTo_recording (receive : α → σ → Receipt × σ) (observers : List (Nat × α))
    (noted : List (α × Receipt)) (s : σ) :
    (deliverTo (recording receive) observers (noted, s)).2.1 =
      noted ++ receipts receive (observers.map Prod.snd) s := by
  induction observers generalizing noted s with
  | nil => exact (List.append_nil noted).symm
  | cons o rest ih =>
    rcases o with ⟨id, observer⟩
    have hrest := ih (noted ++ [(observer, (receive observer s).1)]) (receive observer s).2
    rw [List.append_assoc] at hrest
    exact hrest

theorem exec_notify (receive : Sample → α → σ → Receipt × σ) (sample : Sample) (f : Fanout α)
    (s : σ) : exec receive (.notify sample) (f, s) =
      let calls := receipts (receive sample) ((f.observers sample.tenantId).map Prod.snd) s
      (.notified calls (calls.countP fun c => c.2 = .accepted), f,
        handed (receive sample) ((f.observers sample.tenantId).map Prod.snd) s) := by
  have hnoted := deliverTo_recording (receive sample) (f.observers sample.tenantId) [] s
  rw [List.nil_append] at hnoted
  rw [exec, deliver, deliver, hnoted, deliverTo_eq]

/-- Something was detached if an observer of the id was there. -/
theorem detach_fst (f : Fanout α) (tenantId : String) (id : Nat) :
    (f.detach tenantId id).1 = true ↔ ∃ o ∈ f.observers tenantId, o.1 = id := by
  simp only [detach, bne_iff_ne]
  rw [ne_comm, ← Nat.lt_iff_le_and_ne.trans (and_iff_right (List.length_filter_le _ _)),
    List.length_filter_lt_length_iff_exists]
  simp

section Run

variable (receive : Sample → α → σ → Receipt × σ) (s : σ)

/-- Every call answers from the list of the attachments that are left. -/
theorem answered_run (before : List (Call α)) (c : Call α) :
    Answered before c (exec receive c (run receive s before)).1 := by
  have hobservers := observers_run receive s before
  generalize run receive s before = state at hobservers
  rcases state with ⟨f, now⟩
  cases c with
  | attach a => rfl
  -- A detachment succeeds if one of the attachments that are left carries the id.
  | detach tenantId id =>
    refine ⟨_, rfl, (detach_fst f tenantId id).trans ?_⟩
    simp only [hobservers, standingOf, List.mem_map, List.mem_filter, decide_eq_true_eq]
    constructor
    · rintro ⟨o, ⟨a, ⟨ha, htenant⟩, rfl⟩, hid⟩
      exact ⟨a, ha, htenant, hid⟩
    · rintro ⟨a, ha, htenant, hid⟩
      exact ⟨_, ⟨a, ⟨ha, htenant⟩, rfl⟩, hid⟩
  | notify sample =>
    rw [exec_notify]
    refine ⟨_, rfl, ?_⟩
    rw [map_fst_receipts, hobservers, List.map_map]
    rfl

/-- A tenant has a group exactly if it has observers. -/
theorem contains_groups_iff (calls : List (Call α)) (tenantId : String) :
    (run receive s calls).1.groups.contains tenantId = true ↔ standingOf calls tenantId ≠ [] := by
  rw [Dict.contains, holds_run receive s calls, group, standingOf]
  cases (standing calls).filter fun a => a.tenantId = tenantId <;> simp

/-- What is heard of a call depends on the observers of its tenant. -/
theorem heard_exec (c : Call α) (f f' : Fanout α) (s s' : σ)
    (h : f.observers c.tenantId = f'.observers c.tenantId) :
    (exec receive c (f, s)).1.heard = (exec receive c (f', s')).1.heard := by
  cases c with
  | attach a => rfl
  | detach tenantId id =>
    have hsame : (f.detach tenantId id).1 = (f'.detach tenantId id).1 := by
      rw [Bool.eq_iff_iff, detach_fst, detach_fst]
      exact iff_of_eq (congrArg (fun observers => ∃ o ∈ observers, o.1 = id) h)
    simp only [exec, Answer.heard, hsame]
  | notify sample =>
    simp only [Call.tenantId] at h
    simp only [exec_notify, Answer.heard, map_fst_receipts, h]

/-! ### Observers that leave other tenants alone -/

section Apart

variable {τ : Type} (view : String → σ → τ) (h : Apart receive view) (sample : Sample)

include h

/-- What observers do with a sample depends on what belongs to its tenant. -/
theorem receipts_of_apart (observers : List α) (s s' : σ)
    (hview : view sample.tenantId s = view sample.tenantId s') :
    receipts (receive sample) observers s = receipts (receive sample) observers s' ∧
      view sample.tenantId (handed (receive sample) observers s) =
        view sample.tenantId (handed (receive sample) observers s') := by
  induction observers generalizing s s' with
  | nil => exact ⟨rfl, hview⟩
  | cons observer rest ih =>
    rcases ih _ _ (h.own sample observer s s' hview) with ⟨hreceipts, hafter⟩
    refine ⟨?_, hafter⟩
    rw [receipts, receipts, h.receipt sample observer s s' hview, hreceipts]

theorem view_handed (observers : List α) (s : σ) (tenantId : String)
    (htenant : tenantId ≠ sample.tenantId) :
    view tenantId (handed (receive sample) observers s) = view tenantId s := by
  induction observers generalizing s with
  | nil => rfl
  | cons observer rest ih => exact (ih _).trans (h.others sample observer s tenantId htenant)

omit sample

/-- What belongs to a tenant comes from the calls for this tenant. -/
theorem view_run (calls : List (Call α)) (tenantId : String) :
    view tenantId (run receive s calls).2 =
      view tenantId (run receive s (calls.filter fun c => c.tenantId = tenantId)).2 := by
  -- The induction is on the end of the calls, since a call meets what all calls before it have
  -- left.
  induction calls using List.reverseRecOn with
  | nil => rfl
  | append_singleton before c ih =>
    have hfiltered := observers_run_filter receive s before tenantId
    rw [List.filter_append, run_append]
    by_cases hc : c.tenantId = tenantId
    · rw [List.filter_cons_of_pos (by simpa using hc), List.filter_nil, run_append]
      cases c with
      | attach a => exact ih
      | detach other id => exact ih
      | notify sample =>
        simp only [Call.tenantId] at hc
        subst hc
        -- Of the two states only what they agree on is used from here: what the tenant has
        -- attached and what it has been shown.
        generalize run receive s before = state at ih hfiltered
        generalize run receive s (before.filter fun c => c.tenantId = sample.tenantId) = state'
          at ih hfiltered
        rcases state with ⟨f, now⟩
        rcases state' with ⟨f', now'⟩
        rw [exec_notify, exec_notify, hfiltered]
        exact (receipts_of_apart receive view h sample _ _ _ ih).2
    · rw [List.filter_cons_of_neg (by simpa using hc), List.filter_nil, List.append_nil, ← ih]
      cases c with
      | attach a => rfl
      | detach other id => rfl
      | notify sample =>
        generalize run receive s before = state
        rcases state with ⟨f, now⟩
        rw [exec_notify]
        exact view_handed receive view h sample _ _ _ (Ne.symm hc)

/-- The whole answer to a call comes from the calls for its tenant. -/
theorem exec_of_apart (calls : List (Call α)) (c : Call α) :
    (exec receive c (run receive s calls)).1 =
      (exec receive c (run receive s (calls.filter fun d => d.tenantId = c.tenantId))).1 := by
  have hview := view_run receive s view h calls c.tenantId
  have hfiltered := observers_run_filter receive s calls c.tenantId
  -- Of the two states only what they agree on is used from here.
  generalize run receive s calls = state at hview hfiltered
  generalize run receive s (calls.filter fun d => d.tenantId = c.tenantId) = state'
    at hview hfiltered
  rcases state with ⟨f, now⟩
  rcases state' with ⟨f', now'⟩
  cases c with
  | attach a => rfl
  | detach tenantId id =>
    have hheard := heard_exec receive (.detach tenantId id) f f' now now' hfiltered.symm
    simp only [exec, Answer.heard, Prod.mk.injEq, Option.some.injEq, and_true] at hheard
    simp only [exec, hheard]
  | notify sample =>
    simp only [Call.tenantId] at hview hfiltered
    simp only [exec_notify, hfiltered, (receipts_of_apart receive view h sample _ _ _ hview).1]

end Apart

/-- After any calls to a new fan-out, whatever the observers do, every call answers from the list of
    the attachments that are left, and a tenant without any has no group. Who is called with a
    sample and what is detached does not depend on calls for other tenants; nor does what the
    observers do with it and how many accept it, unless they themselves meddle with what belongs to
    other tenants. -/
theorem deliveries_of_run (before : List (Call α)) :
    (∀ c, Answered before c (exec receive c (run receive s before)).1) ∧
      (∀ tenantId, (run receive s before).1.groups.contains tenantId = true ↔
        standingOf before tenantId ≠ []) ∧
      (∀ c : Call α, (exec receive c (run receive s before)).1.heard =
        (exec receive c (run receive s (before.filter fun d => d.tenantId = c.tenantId))).1.heard) ∧
      ∀ (τ : Type) (view : String → σ → τ), Apart receive view → ∀ c : Call α,
        (exec receive c (run receive s before)).1 =
          (exec receive c (run receive s (before.filter fun d => d.tenantId = c.tenantId))).1 := by
  refine ⟨answered_run receive s before, contains_groups_iff receive s before, fun c => ?_,
    fun τ view h c => exec_of_apart receive s view h before c⟩
  exact heard_exec receive c _ _ _ _ (observers_run_filter receive s before c.tenantId).symm

/-- Observers that always do the same with a sample, and note the tenant of it. -/
def steadfast (sample : Sample) (receipt : Receipt) (seen : List String) :
    Receipt × List String :=
  (receipt, seen ++ [sample.tenantId])

theorem apart_steadfast : Apart steadfast fun tenantId seen => seen.count tenantId where
  others := by
    intro sample receipt seen tenantId hne
    simp only [steadfast, List.count_append]
    rw [List.count_singleton, if_neg (by simpa using Ne.symm hne), Nat.add_zero]
  receipt := fun _ _ _ _ _ => rfl
  own := by
    intro sample receipt seen seen' hsame
    simp only [steadfast, List.count_append, hsame]

/-- One observer fails, one is attached twice, and one of another tenant has come and gone. -/
def deliveries : List (Call Receipt) :=
  [.attach ⟨"t1", 1, .accepted⟩, .attach ⟨"t1", 2, .failed⟩, .attach ⟨"t2", 1, .refused⟩,
    .attach ⟨"t1", 1, .accepted⟩, .detach "t2" 1]

theorem deliveries_of_run_one_fails : Apart steadfast (fun tenantId seen => seen.count tenantId) ∧
    ∀ c : Call Receipt, (exec steadfast c (run steadfast [] deliveries)).1 =
      (exec steadfast c (run steadfast []
        (deliveries.filter fun d => d.tenantId = c.tenantId))).1 :=
  ⟨apart_steadfast, (deliveries_of_run steadfast [] deliveries).2.2.2 Nat _ apart_steadfast⟩

end Run

end Fanout

end StoragePolicy
