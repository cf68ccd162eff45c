import StoragePolicy.Proofs.Engine.Custody
import StoragePolicy.Proofs.Engine.Operations
import StoragePolicy.Proofs.Registry.Scan

/-!
# Starting, removing and deploying at the same time

Policies are deployed, removed and started again by several who work at the same time, call by call.
A monitor is started for a record that has been read or stored in an earlier call, and nothing keeps
the record from being deleted meanwhile. So a policy may end up with a live monitor and without a
record.

That happens only if one has the record in hand while another is in the course of removing the
policy. Otherwise every live policy has its record in the end. Monitors and observers are never
doubled, whatever the order of the calls.

## Main definitions

* `Crew`: A session with programs that work on it.
* `Crew.step`, `Crew.run`: One call, and a schedule of calls.
* `Crew.Clash`: One has the record of a policy in hand while another removes the policy.
* `Crew.Kept`: What holds of a policy as long as there was no clash.

## Theorems

* `records_exec`, `plausible_exec`: What an allowed call does to the records, and what it replies.
* `orderly_step`, `kept_step`: What every call keeps.
* `recorded_of_run`: When all have returned.
* `not_forall_recorded`: A respawn may start a monitor after its record has been deleted.
-/

namespace StoragePolicy

open Registry

/-! ### Records -/

namespace Store

/-- What can be read as a record is that of the id it stands under. -/
theorem record_of_read (d : Store) (h : d.Filed) (name : String) (fields : Dict String String)
    (hfields : d.hashAt (PolicyRecord.keyStem ++ name) = .ok fields) (r : PolicyRecord)
    (hread : PolicyRecord.ofFields fields = .ok r) :
    name = Number.writeNatural r.id ∧ d.record? r.id = some r := by
  rw [hashAt] at hfields
  cases hget : d.get? (PolicyRecord.keyStem ++ name) with
  | none =>
    -- Where nothing stands, no record is read.
    rw [hget] at hfields
    cases hfields
    rw [PolicyRecord.ofFields, PolicyRecord.numberField, PolicyRecord.present,
      Dict.get?_empty] at hread
    cases hread
  | some value =>
    rcases h name value hget with ⟨r', hstorable, hname, rfl⟩
    rw [hget] at hfields
    have hsame : r'.hash = fields := Except.ok.inj hfields
    rw [← hsame, PolicyRecord.ofFields_hash r' hstorable] at hread
    have hr : r' = r := Except.ok.inj hread
    subst hr
    refine ⟨hname, recordAt_of_get? d _ r' hstorable ?_⟩
    rw [← hname, hget]

/-- A whole record takes the line of its id, or is refused and changes nothing. -/
theorem exec_file (d : Store) (h : d.Filed) (r : PolicyRecord) :
    (d.exec (.apply (recordChanges r))).1 = .ok () ∧
        d.Refiled (d.exec (.apply (recordChanges r))).2 r.id (some r) ∨
      (∃ e, (d.exec (.apply (recordChanges r))).1 = .error e) ∧
        d.SameRecords (d.exec (.apply (recordChanges r))).2 := by
  have hfields : r.toFields ≠ [] := List.cons_ne_nil _ _
  -- The fields are put in any case, and the reservation is no record.
  have hput : d.mutateAll (r.toFields.map fun f =>
      .setField (PolicyRecord.storeKey r.id) f.1 f.2) =
        (d.putHash (PolicyRecord.storeKey r.id) r.hash, none) := by
    rw [mutateAll_setFields d _ _ _ hfields (hashAt_storeKey d h r.id)]
    cases d.record? r.id with
    | none => rfl
    | some old => rw [Option.map_some, Option.getD_some, PolicyRecord.insertAll_hash]
  have hall : d.mutateAll (recordChanges r) =
      (d.putHash (PolicyRecord.storeKey r.id) r.hash).mutateAll [release r.id] :=
    mutateAll_append_ok d _ _ _ hput
  have hrelease : (d.putHash (PolicyRecord.storeKey r.id) r.hash).SameRecords
      ((d.putHash (PolicyRecord.storeKey r.id) r.hash).mutateAll [release r.id]).1 := by
    intro name
    refine get?_mutateAll _ _ _ fun m hm => ?_
    rw [List.mem_singleton.mp hm]
    exact recordKey_ne_reservationKey name
  rw [exec]
  rcases applyBatch_cases d (recordChanges r) with ⟨t, hm, hdone⟩ | ⟨t, e, -, hrefused⟩
  · rw [← hall, hm] at hrelease
    rw [hdone]
    exact Or.inl ⟨rfl, refiled_sameRecords _ _ _ _ _ (refiled_putHash d r) hrelease⟩
  · rw [hrefused]
    exact Or.inr ⟨⟨e, rfl⟩, fun name => rfl⟩

end Store

namespace Session

open Engine (Custody)

/-- One record is replaced, and the others stay. -/
theorem records_of_refiled (s : Session) (g : Custody) (hfiled : s.store.Filed) (d : Store)
    (id : Nat) (record : Option PolicyRecord) (hd : s.store.Refiled d id record)
    (hrecord : ∀ r, record = some r → r.Storable ∧ r.id = id)
    (hpresent : (s.store.record? id).isSome = true →
      record.isSome = true ∨ g.removing = some id) :
    d.Filed ∧ ∀ other, (s.store.record? other).isSome = true →
      (d.record? other).isSome = true ∨ g.removing = some other := by
  refine ⟨Store.filed_refiled s.store hfiled d id record hd hrecord, fun other hother => ?_⟩
  rw [Store.record?_refiled s.store d id other record hd fun r hr => (hrecord r hr).1]
  by_cases hid : other = id
  · rw [if_pos hid, hid]
    exact hpresent (hid ▸ hother)
  · rw [if_neg hid]
    exact Or.inl hother

/-- No call that is allowed makes a record unreadable, and the only record that may be lost is that
    of a policy which is being removed. -/
theorem records_exec (c : Engine.Call) (s : Session) (g : Custody) (hallows : g.Allows c)
    (hfiled : s.store.Filed) :
    (exec c s).2.store.Filed ∧ ∀ id, (s.store.record? id).isSome = true →
      ((exec c s).2.store.record? id).isSome = true ∨ g.removing = some id := by
  have hsame : ∀ d : Store, s.store.SameRecords d → d.Filed ∧ ∀ id,
      (s.store.record? id).isSome = true → (d.record? id).isSome = true ∨ g.removing = some id := by
    intro d hd
    refine ⟨Store.filed_sameRecords s.store hfiled d hd, fun id hid => Or.inl ?_⟩
    rw [Store.record?_sameRecords s.store d hd]
    exact hid
  have hrefiled := records_of_refiled s g hfiled
  have hself := hsame s.store (Store.sameRecords_refl _)
  -- A call leaves all records as they are, or replaces one of them.
  cases hallows with
  | aside c hc => exact hsame _ (samePolicies_exec c s hc).records
  | mark id alive =>
    rcases exec_store_cases (.updateField (PolicyRecord.storeKey id) "alive"
      (PolicyRecord.flagText alive)) s with ⟨e, heq⟩ | heq
    · rw [heq]
      exact hself
    · rw [heq]
      refine hrefiled _ id _ (on_setAlive s.store hfiled id alive).2 ?_ ?_
      · intro r hr
        rcases Option.map_eq_some_iff.mp hr with ⟨old, hold, rfl⟩
        rcases Store.get?_of_record? s.store hfiled id old hold with ⟨-, hid, hstorable⟩
        exact ⟨PolicyRecord.storable_marked old alive hstorable, hid⟩
      · intro hpresent
        rw [Option.isSome_map]
        exact Or.inl hpresent
  | file r hr =>
    rcases exec_store_cases (.apply (recordChanges r)) s with ⟨e, heq⟩ | heq
    · rw [heq]
      exact hself
    · rw [heq]
      rcases Store.exec_file s.store hfiled r with ⟨-, hd⟩ | ⟨-, hd⟩
      · refine hrefiled _ r.id _ hd (fun r' hr' => ?_) fun _ => Or.inl rfl
        cases hr'
        exact ⟨hr, rfl⟩
      · exact hsame _ hd
  | erase id hremoving =>
    rcases exec_store_cases (.apply [.delete (PolicyRecord.storeKey id)]) s with ⟨e, heq⟩ | heq
    · rw [heq]
      exact hself
    · rw [heq]
      exact hrefiled _ id none (Store.refiled_erase s.store id) (fun _ hr => nomatch hr)
        fun _ => Or.inr hremoving
  | launch id condition binding h => exact hself
  | take id h => exact hself
  | halt handle h => exact hself
  | unsubscribe handle h => exact hself

/-- A number that is counted up can be held. -/
theorem le_of_increment (d d' : Store) (key : String) (n : Nat)
    (h : d.increment key = .ok (n, d')) : n ≤ Number.maxWord := by
  have hmod : ∀ m, m % (Number.maxWord + 1) ≤ Number.maxWord := fun m =>
    Nat.le_of_lt_succ (Nat.mod_lt m (Nat.succ_pos _))
  rw [Store.increment] at h
  rcases (Outcome.bind_eq_ok _ _ _).mp h with ⟨stored, -, hnext⟩
  cases stored with
  | none =>
    cases hnext
    exact hmod _
  | some text =>
    dsimp only at hnext
    split at hnext
    · cases hnext
      exact hmod _
    · cases hnext

/-- What is replied to a call could be. -/
theorem plausible_exec (c : Engine.Call) (s : Session) (due : Duty → Prop)
    (hfiled : s.store.Filed) (htended : s.monitors.Tended due) :
    c.Plausible (exec c s).1 := by
  cases c with
  | store c =>
    rcases exec_store_cases c s with ⟨e, heq⟩ | heq
    · rw [heq]
      cases c <;> exact trivial
    · rw [heq]
      cases c with
      | getFields key =>
        cases hfields : s.store.hashAt key with
        | error e =>
          simp only [Store.exec, hfields]
          exact trivial
        | ok fields =>
          simp only [Store.exec, hfields]
          -- What is read there as a record is that of the id in the key.
          intro name r hkey hread
          rw [hkey] at hfields ⊢
          rw [(Store.record_of_read s.store hfiled name fields hfields r hread).1,
            PolicyRecord.storeKey]
      | keys stem =>
        simp only [Store.exec, Store.scanKeys_eq_keysUnder]
        refine ⟨(Dict.nodup_keys s.store).filter _, fun key hkey => ?_⟩
        rcases (Store.mem_keysUnder_iff s.store stem key).mp hkey with ⟨name, hname, -⟩
        exact ⟨name, hname⟩
      | incrementReserving counter reservations =>
        simp only [Store.exec, Store.incrementReserving]
        split
        · exact trivial
        · split
          · exact trivial
          · rename_i n d hinc
            split
            · exact trivial
            · exact le_of_increment s.store d counter n hinc
      | _ => exact trivial
  | take id =>
    change Engine.Call.Plausible (.take id) (s.monitors.take id).1
    cases hlive : s.monitors.live.get? id with
    | none =>
      rw [MonitorTable.take_of_not_isLive _ id ((MonitorTable.isLive_eq_false_iff _ id).mpr hlive)]
      exact trivial
    | some serial =>
      rcases htended.live id serial hlive with ⟨handle, hhandle, hid⟩
      simp only [MonitorTable.take, hlive, hhandle]
      exact hid
  | _ => exact trivial

end Session

/-! ### What a program has in hand after a call -/

namespace Engine

/-- A call by which a record has been read or stored under a key. -/
def Call.Shows (key : String) : (c : Call) → c.Reply → Prop
  | .store (.getFields k), .ok fields => k = key ∧ ∃ r, PolicyRecord.ofFields fields = .ok r
  | .store (.apply (.setField k _ _ :: _)), .ok () => k = key
  | _, _ => False

namespace Custody

variable (g : Custody) (c : Call) (reply : c.Reply)

theorem mem_letGo (id : Nat) (key : String) (h : key ∈ (g.letGo id).inHand) : key ∈ g.inHand :=
  (List.mem_filter.mp h).1

/-- What is in hand was so, or has just been read or stored. -/
theorem mem_note (key : String) (h : key ∈ (g.note c reply).inHand) :
    key ∈ g.inHand ∨ c.Shows key reply := by
  unfold note at h
  -- There is a case for each kind of call. Only a record that is read or filed comes into hand.
  split at h
  · split at h
    · rename_i r hread
      rcases List.mem_cons.mp h with rfl | h
      · exact Or.inr ⟨rfl, r, hread⟩
      · exact Or.inl h
    · exact Or.inl h
  · rcases List.mem_cons.mp h with rfl | h
    · exact Or.inr rfl
    · exact Or.inl h
  · exact Or.inl h
  · exact Or.inl h
  · exact Or.inl h
  · exact Or.inl (g.mem_letGo _ key h)
  · exact Or.inl (g.mem_letGo _ key h)
  · exact Or.inl h
  · exact Or.inl h
  · split at h <;> exact Or.inl h
  · exact Or.inl h
  · exact Or.inl h

/-- What is being removed was so, or has just been taken off the live ones. -/
theorem removing_note (id : Nat) (h : (g.note c reply).removing = some id) :
    g.removing = some id ∨ c = .take id := by
  unfold note at h
  split at h
  · split at h <;> exact Or.inl h
  · exact Or.inl h
  · exact nomatch h
  · exact Or.inl h
  · exact nomatch h
  · exact Or.inl h
  · exact Or.inl h
  · cases h
    exact Or.inr rfl
  · cases h
    exact Or.inr rfl
  · split at h <;> exact Or.inl h
  · exact Or.inl h
  · exact Or.inl h

/-- Calls that neither take nor stop monitors change nothing of what is owed. -/
theorem duty_note (h : match c with
    | .take _ | .halt _ | .unsubscribe _ _ => False
    | _ => True) : (g.note c reply).duty = g.duty := by
  unfold note
  split
  · split <;> rfl
  · rfl
  · rfl
  · rfl
  · rfl
  · rfl
  · rfl
  · exact absurd h not_false
  · exact absurd h not_false
  · exact absurd h not_false
  · exact absurd h not_false
  · rfl

end Custody

end Engine

namespace Session

/-- What has been read or stored as a record is there. -/
theorem record_of_shows (c : Engine.Call) (s : Session) (g : Engine.Custody)
    (hallows : g.Allows c) (hfiled : s.store.Filed) (id : Nat)
    (h : c.Shows (PolicyRecord.storeKey id) (exec c s).1) :
    ((exec c s).2.store.record? id).isSome = true := by
  cases hallows with
  | aside c hc =>
    cases c with
    | store c =>
      cases c with
      | getFields key =>
        rcases exec_store_cases (.getFields key) s with ⟨e, heq⟩ | heq
        · rw [heq] at h
          exact absurd h not_false
        · rw [heq] at h
          cases hfields : s.store.hashAt key with
          | error e =>
            simp only [Store.exec, hfields] at h
            exact absurd h not_false
          | ok fields =>
            simp only [Store.exec, hfields] at h
            rcases h with ⟨rfl, r, hread⟩
            rcases Store.record_of_read s.store hfiled (Number.writeNatural id) fields hfields r
              hread with ⟨hname, hr⟩
            rw [← Number.writeNatural_inj _ _ hname] at hr
            rw [heq]
            exact Option.isSome_iff_exists.mpr ⟨r, hr⟩
      | apply changes =>
        -- What is set elsewhere does not stand under the key of a record.
        rcases changes with _ | ⟨m, rest⟩
        · exact absurd h not_false
        · cases m with
          | setField key name value =>
            generalize (exec (.store (.apply (.setField key name value :: rest))) s).1 = reply at h
            cases reply with
            | error e => exact absurd h not_false
            | ok a =>
              refine absurd ?_ (hc (Number.writeNatural id))
              have hown : key = PolicyRecord.storeKey id := h
              rw [← PolicyRecord.storeKey, ← hown]
              exact List.mem_cons_self
          | _ => exact absurd h not_false
      | _ => exact absurd h not_false
    | _ => exact absurd h not_false
  | file r hr =>
    rcases exec_store_cases (.apply (recordChanges r)) s with ⟨e, heq⟩ | heq
    · rw [heq] at h
      exact absurd h not_false
    · rw [heq] at h ⊢
      rcases Store.exec_file s.store hfiled r with ⟨hok, hd⟩ | ⟨⟨e, herror⟩, -⟩
      · rw [hok] at h
        have hid : PolicyRecord.storeKey r.id = PolicyRecord.storeKey id := h
        rw [store_withStore, Store.record?_refiled s.store _ r.id id _ hd fun r' hr' => by
          cases hr'; exact hr, if_pos (storeKey_inj _ _ hid).symm]
        rfl
      · rw [herror] at h
        exact absurd h not_false
  | _ => exact absurd h not_false

/-- What is live after an allowed call was so before, or has just been started. -/
theorem isLive_of_exec (c : Engine.Call) (s : Session) (g : Engine.Custody)
    (hallows : g.Allows c) (id : Nat) (h : (exec c s).2.monitors.isLive id = true) :
    c ≠ .take id ∧ (s.monitors.isLive id = true ∨ PolicyRecord.storeKey id ∈ g.inHand) := by
  cases hallows with
  | aside c hc =>
    refine ⟨fun heq => ?_, Or.inl ?_⟩
    · rw [heq] at hc
      exact hc
    · rw [(samePolicies_exec c s hc).monitors] at h
      exact h
  | mark id' alive => exact ⟨(fun heq => by cases heq), Or.inl h⟩
  | file r hr => exact ⟨(fun heq => by cases heq), Or.inl h⟩
  | erase id' hremoving => exact ⟨(fun heq => by cases heq), Or.inl h⟩
  | launch id' condition binding hkey =>
    refine ⟨(fun heq => by cases heq), ?_⟩
    -- Nothing is started while a monitor is live. If none is, the allowance says that the key is
    -- in hand.
    cases hlive : s.monitors.isLive id' with
    | true =>
      simp only [exec, MonitorTable.launch, hlive, if_true] at h
      exact Or.inl h
    | false =>
      simp only [exec, MonitorTable.launch_of_not_isLive _ _ _ _ hlive] at h
      rcases MonitorTable.isLive_started _ _ _ _ id h with rfl | hold
      · exact Or.inr hkey
      · exact Or.inl hold
  | take id' hduty =>
    have hold := MonitorTable.isLive_take s.monitors id' id h
    exact ⟨fun heq => hold.1 (by cases heq; rfl), Or.inl hold.2⟩
  | halt handle hduty => exact ⟨(fun heq => by cases heq), Or.inl h⟩
  | unsubscribe handle hduty => exact ⟨(fun heq => by cases heq), Or.inl h⟩

/-- What an allowed call makes of what is owed: the caller then owes what it has in hand. -/
theorem tended_exec (c : Engine.Call) (s : Session) (g : Engine.Custody) (hallows : g.Allows c)
    (due due' : Duty → Prop) (h : s.monitors.Tended due)
    (hold : ∀ d, due d → d = g.duty ∨ due' d) (hnew : due' (g.note c (exec c s).1).duty) :
    (exec c s).2.monitors.Tended due' := by
  -- A call that takes and stops nothing leaves what is owed as it is.
  have hsame : (g.note c (exec c s).1).duty = g.duty → ∀ d, d ≠ .none → due d → due' d := by
    intro hduty d _ hd
    rcases hold d hd with rfl | hd
    · rw [← hduty]
      exact hnew
    · exact hd
  cases hallows with
  | aside c hc =>
    rw [(samePolicies_exec c s hc).monitors]
    refine MonitorTable.tended_mono _ due due' h (hsame (g.duty_note c _ ?_))
    cases c <;> first | exact hc | exact trivial
  | mark id alive => exact MonitorTable.tended_mono _ due due' h (hsame (g.duty_note _ _ trivial))
  | file r hr => exact MonitorTable.tended_mono _ due due' h (hsame (g.duty_note _ _ trivial))
  | erase id hremoving =>
    exact MonitorTable.tended_mono _ due due' h (hsame (g.duty_note _ _ trivial))
  | launch id condition binding hkey =>
    have hdue := MonitorTable.tended_mono _ due due' h (hsame (g.duty_note _ _ trivial))
    cases hlive : s.monitors.isLive id with
    | true =>
      simp only [exec, MonitorTable.launch, hlive, if_true]
      exact hdue
    | false =>
      simp only [exec, MonitorTable.launch_of_not_isLive _ _ _ _ hlive]
      exact MonitorTable.tended_started _ due' hdue id condition binding hlive
  | take id hduty =>
    refine MonitorTable.tended_take s.monitors due due' h id (fun d hd hdue => ?_) ?_
    · rcases hold d hdue with heq | hdue
      · exact absurd (heq.trans hduty) hd
      · exact hdue
    · intro handle hhandle
      have hreply : (exec (.take id) s).1 = some handle := hhandle
      rw [hreply] at hnew
      exact hnew
  | halt handle hduty =>
    refine MonitorTable.tended_halt s.monitors due due' h handle (fun d _ hdue => ?_) ?_
    · rw [← hduty]
      exact hold d hdue
    · simp only [Engine.Custody.note, hduty] at hnew
      exact hnew
  | unsubscribe handle hduty =>
    refine MonitorTable.tended_unsubscribe s.monitors due due' h handle fun d _ hdue => ?_
    rw [← hduty]
    exact hold d hdue

end Session

/-! ### Crews -/

/-- One who works: what is left of a program, and what it has in hand. -/
structure Worker where
  rest : Program Engine.interface Unit
  custody : Engine.Custody := {}

/-- The program has come to its end. -/
def Worker.Returned (w : Worker) : Prop := w.rest = .done ()

instance (w : Worker) : Decidable w.Returned :=
  match h : w.rest with
  | .done () => isTrue h
  | .call _ _ => isFalse fun hdone => nomatch h.symm.trans hdone

/-- A session with some who work on it. -/
structure Crew where
  session : Session
  workers : List Worker

namespace Crew

/-- One makes the next call of its program, if it has one. -/
def step (x : Crew) (i : Nat) : Crew :=
  match x.workers[i]? with
  | some ⟨.call c next, g⟩ =>
    { session := (Session.exec c x.session).2
      workers := x.workers.set i
        ⟨next (Session.exec c x.session).1, g.note c (Session.exec c x.session).1⟩ }
  | _ => x

/-- A schedule of calls, given by who makes them. -/
def run (x : Crew) (schedule : List Nat) : Crew := schedule.foldl step x

/-- Some operations, before the first call of any. -/
def start (directory : Directory) (settings : Engine.Settings) (s : Session)
    (operations : List Session.Operation) : Crew :=
  { session := s
    workers := operations.map fun operation => { rest := operation.program directory settings } }

/-- One has the record of a policy in hand, and may still start its monitor, while another is in the
    course of removing the policy. -/
def Clash (id : Nat) (x : Crew) : Prop :=
  (∃ w ∈ x.workers, ¬ w.Returned ∧ PolicyRecord.storeKey id ∈ w.custody.inHand) ∧
    ∃ w ∈ x.workers, w.custody.removing = some id

instance (id : Nat) (x : Crew) : Decidable (x.Clash id) :=
  inferInstanceAs (Decidable ((∃ w ∈ x.workers, ¬ w.Returned ∧
    PolicyRecord.storeKey id ∈ w.custody.inHand) ∧ ∃ w ∈ x.workers, w.custody.removing = some id))

/-- What is owed by any of those who work. -/
def Due (x : Crew) (d : Duty) : Prop := ∃ w ∈ x.workers, w.custody.duty = d

/-- Records can be read, those who work keep to what they may do, and whatever is not live is owed
    by one of them. -/
structure Orderly (x : Crew) : Prop where
  filed : x.session.store.Filed
  obeys : ∀ w ∈ x.workers, Engine.Obeys (fun _ g => g.Free) w.rest w.custody
  tended : x.session.monitors.Tended x.Due

/-- Whoever may start the monitor of a policy finds its record there; and if the policy is live,
    then it has a record and nobody removes it. -/
structure Kept (id : Nat) (x : Crew) : Prop where
  inHand : ∀ w ∈ x.workers, ¬ w.Returned → PolicyRecord.storeKey id ∈ w.custody.inHand →
    (x.session.store.record? id).isSome = true
  live : x.session.monitors.isLive id = true → (x.session.store.record? id).isSome = true ∧
    ∀ w ∈ x.workers, w.custody.removing ≠ some id

/-- A step is a call of one of those who work, or none. -/
theorem step_cases (x : Crew) (i : Nat) : x.step i = x ∨
    ∃ c next g, x.workers[i]? = some ⟨.call c next, g⟩ ∧
      x.step i =
        { session := (Session.exec c x.session).2
          workers := x.workers.set i
            ⟨next (Session.exec c x.session).1, g.note c (Session.exec c x.session).1⟩ } := by
  rw [step]
  split
  · rename_i c next g hget
    exact Or.inr ⟨c, next, g, hget, rfl⟩
  · exact Or.inl rfl

/-- What one owed is still owed, unless it is the one that has been replaced. -/
theorem due_set (workers : List Worker) (i : Nat) (w w' : Worker) (hget : workers[i]? = some w)
    (d : Duty) (h : ∃ v ∈ workers, v.custody.duty = d) :
    d = w.custody.duty ∨ ∃ v ∈ workers.set i w', v.custody.duty = d := by
  rcases h with ⟨v, hv, rfl⟩
  rcases List.mem_iff_getElem?.mp hv with ⟨j, hj⟩
  by_cases hij : i = j
  · rw [← hij, hget] at hj
    cases hj
    exact Or.inl rfl
  · refine Or.inr ⟨v, List.mem_iff_getElem?.mpr ⟨j, ?_⟩, rfl⟩
    rw [List.getElem?_set_ne hij, hj]

theorem mem_set_self (workers : List Worker) (i : Nat) (w w' : Worker)
    (hget : workers[i]? = some w) : w' ∈ workers.set i w' := by
  refine List.mem_iff_getElem?.mpr ⟨i, ?_⟩
  rw [List.getElem?_set_self']
  simp [hget]

section Step

variable (x : Crew) (h : x.Orderly)

include h

/-- Every call is allowed, and keeps the crew in order. -/
theorem orderly_step (i : Nat) : (x.step i).Orderly := by
  rcases step_cases x i with heq | ⟨c, next, g, hget, heq⟩
  · rw [heq]
    exact h
  · rcases h.obeys _ (List.mem_of_getElem? hget) with ⟨hallows, hrest⟩
    rw [heq]
    refine ⟨(Session.records_exec c x.session g hallows h.filed).1, fun w hw => ?_, ?_⟩
    · rcases List.mem_or_eq_of_mem_set hw with hold | rfl
      · exact h.obeys w hold
      · exact hrest _ (Session.plausible_exec c x.session x.Due h.filed h.tended)
    · refine Session.tended_exec c x.session g hallows x.Due _ h.tended ?_ ?_
      · exact fun d hd => due_set x.workers i _ _ hget d hd
      · exact ⟨_, mem_set_self x.workers i _ _ hget, rfl⟩

/-- Without a clash, a call leaves a record to every live policy. -/
theorem kept_step (id i : Nat) (hclash : ¬ x.Clash id) (hkept : x.Kept id) :
    (x.step i).Kept id := by
  rcases step_cases x i with heq | ⟨c, next, g, hget, heq⟩
  · rw [heq]
    exact hkept
  · have hmem := List.mem_of_getElem? hget
    have hallows := (h.obeys _ hmem).1
    have hrecords := (Session.records_exec c x.session g hallows h.filed).2 id
    have hcalls : ¬ (⟨.call c next, g⟩ : Worker).Returned := fun hdone => nomatch hdone
    -- A record that somebody has in hand is not lost, since nobody removes the policy.
    have hheld : ∀ w ∈ x.workers, ¬ w.Returned → PolicyRecord.storeKey id ∈ w.custody.inHand →
        ((Session.exec c x.session).2.store.record? id).isSome = true ∧
          ∀ v ∈ x.workers, v.custody.removing ≠ some id := by
      intro w hw hreturned hkey
      have hnone : ∀ v ∈ x.workers, v.custody.removing ≠ some id := fun v hv hremoving =>
        hclash ⟨⟨w, hw, hreturned, hkey⟩, v, hv, hremoving⟩
      refine ⟨?_, hnone⟩
      rcases hrecords (hkept.inHand w hw hreturned hkey) with hpresent | hremoving
      · exact hpresent
      · exact absurd hremoving (hnone _ hmem)
    rw [heq]
    refine ⟨fun w hw hreturned hkey => ?_, fun hlive => ?_⟩
    · rcases List.mem_or_eq_of_mem_set hw with hold | rfl
      · exact (hheld w hold hreturned hkey).1
      · rcases g.mem_note c _ _ hkey with hkey | hshows
        · exact (hheld _ hmem hcalls hkey).1
        · exact Session.record_of_shows c x.session g hallows h.filed id hshows
    · -- What is live was so before, or has been started just now for a record in hand.
      rcases Session.isLive_of_exec c x.session g hallows id hlive with ⟨htake, hcause⟩
      have hbefore : ((Session.exec c x.session).2.store.record? id).isSome = true ∧
          ∀ v ∈ x.workers, v.custody.removing ≠ some id := by
        rcases hcause with hlive | hkey
        · rcases hkept.live hlive with ⟨hpresent, hnone⟩
          exact ⟨(hrecords hpresent).resolve_right (hnone _ hmem), hnone⟩
        · exact hheld _ hmem hcalls hkey
      -- Nor has anybody begun to remove it, since it would not be live then.
      refine ⟨hbefore.1, fun w hw hremoving => ?_⟩
      rcases List.mem_or_eq_of_mem_set hw with hold | rfl
      · exact hbefore.2 w hold hremoving
      · rcases g.removing_note c _ id hremoving with hremoving | heq
        · exact hbefore.2 _ hmem hremoving
        · exact htake heq

end Step

/-! ### Schedules -/

/-- Operations that deploy, remove and start policies. The rules of a text have no more actions than
    can be numbered. -/
def Manages : Session.Operation → Prop
  | .deploy text => Engine.Numbered text
  | .deleteDynamic _ | .respawn _ | .reload => True
  | _ => False

theorem obeys_program (directory : Directory) (settings : Engine.Settings)
    (operation : Session.Operation) (h : Manages operation) :
    Engine.Obeys (fun _ g => g.Free) (operation.program directory settings) {} := by
  have hfree : ({} : Engine.Custody).Free := ⟨rfl, rfl⟩
  cases operation with
  | deploy text => exact Engine.obeys_deploy directory settings text h _ hfree
  | deleteDynamic id => exact Engine.obeys_remove id _ hfree
  | respawn id => exact Engine.obeys_respawn id _ hfree
  | reload => exact Engine.obeys_reload _ hfree
  | _ => exact absurd h not_false

theorem orderly_run (schedule : List Nat) (x : Crew) (h : x.Orderly) :
    (x.run schedule).Orderly := by
  induction schedule generalizing x with
  | nil => exact h
  | cons i rest ih => exact ih _ (orderly_step x h i)

/-- A policy is kept by a schedule in the course of which there is no clash. -/
theorem kept_run (id : Nat) (schedule : List Nat) (x : Crew) (h : x.Orderly) (hkept : x.Kept id)
    (hclash : ∀ k, ¬ (x.run (schedule.take k)).Clash id) : (x.run schedule).Kept id := by
  induction schedule generalizing x with
  | nil => exact hkept
  | cons i rest ih =>
    refine ih _ (orderly_step x h i) (kept_step x h id i (hclash 0) hkept) fun k => ?_
    exact hclash (k + 1)

section Start

variable (directory : Directory) (settings : Engine.Settings) (s : Session)
  (operations : List Session.Operation)

theorem orderly_start (hfiled : s.store.Filed) (htable : s.monitors.Consistent)
    (hmanages : ∀ operation ∈ operations, Manages operation) :
    (start directory settings s operations).Orderly := by
  refine ⟨hfiled, fun w hw => ?_, MonitorTable.tended_of_consistent _ _ htable⟩
  rcases List.mem_map.mp hw with ⟨operation, hoperation, rfl⟩
  exact obeys_program directory settings operation (hmanages operation hoperation)

theorem kept_start (id : Nat) (hrecorded : s.monitors.isLive id = true →
    (s.store.record? id).isSome = true) : (start directory settings s operations).Kept id := by
  refine ⟨fun w hw _ hkey => ?_, fun hlive => ⟨hrecorded hlive, fun w hw hremoving => ?_⟩⟩
  · rcases List.mem_map.mp hw with ⟨operation, -, rfl⟩
    exact absurd hkey List.not_mem_nil
  · rcases List.mem_map.mp hw with ⟨operation, -, rfl⟩
    exact nomatch hremoving

end Start

/-- Policies are deployed, removed and started again by any number of operations at the same time,
    in any order of all their calls. When all have returned, no policy has two monitors or two
    observers, and every live policy has its record, but for those of which one had the record in
    hand while another removed the policy. -/
theorem recorded_of_run (directory : Directory) (settings : Engine.Settings) (s : Session)
    (hfiled : s.store.Filed) (htable : s.monitors.Consistent)
    (hrecorded : ∀ id, s.monitors.isLive id = true → (s.store.record? id).isSome = true)
    (operations : List Session.Operation)
    (hmanages : ∀ operation ∈ operations, Manages operation) (schedule : List Nat)
    (hreturned : ∀ w ∈ ((start directory settings s operations).run schedule).workers,
      w.Returned) :
    let x := (start directory settings s operations).run schedule
    x.session.monitors.Exclusive ∧ ∀ id, x.session.monitors.isLive id = true →
      (x.session.store.record? id).isSome = true ∨
        ∃ k, ((start directory settings s operations).run (schedule.take k)).Clash id := by
  intro x
  have hbegin := orderly_start directory settings s operations hfiled htable hmanages
  have hend := orderly_run schedule _ hbegin
  refine ⟨MonitorTable.exclusive_of_tended _ x.Due hend.tended ?_, fun id hlive => ?_⟩
  · -- Who has returned owes nothing.
    rintro d ⟨w, hw, rfl⟩
    have hdone := hend.obeys w hw
    rw [hreturned w hw] at hdone
    exact hdone.duty
  · by_cases hclash : ∃ k, ((start directory settings s operations).run (schedule.take k)).Clash id
    · exact Or.inr hclash
    · left
      have hkept := kept_run id schedule _ hbegin
        (kept_start directory settings s operations id (hrecorded id)) fun k hk => hclash ⟨k, hk⟩
      exact (hkept.live hlive).1

/-! ### A respawn and a removal -/

open Session (tenantAlice deleteCompress withTwoFilters fresh_withTwoFilters alice)

/-- The record of a policy that has no monitor. -/
def lapsedRecord : PolicyRecord :=
  Engine.newRecord {} 1 "TENANT alice WHEN put_bw > 1 DO DELETE compress" "put_bw > 1"
    { targets := [⟨.tenant, "alice"⟩], actions := [deleteCompress] } tenantAlice deleteCompress 0

/-- The store with the first id taken, without a record. -/
def numbered : Store := withTwoFilters.store.insert counterKey (.scalar "1")

/-- A policy has been deployed, and then all monitors have been stopped. -/
def lapsed : Session where
  backend := { data := numbered.putHash (PolicyRecord.storeKey 1) lapsedRecord.hash }

theorem filed_lapsed : lapsed.store.Filed := by
  have hvacant : ∀ name, numbered.get? (PolicyRecord.keyStem ++ name) = none := by
    intro name
    rw [numbered, Dict.get?_insert, if_neg (recordKey_ne_counterKey name)]
    exact fresh_withTwoFilters.vacant _ (Or.inr (Or.inr (Or.inr ⟨name, rfl⟩)))
  have hfiled : numbered.Filed := by
    intro name value hvalue
    rw [hvacant] at hvalue
    exact nomatch hvalue
  refine Store.filed_refiled numbered hfiled _ 1 (some lapsedRecord)
    (Store.refiled_putHash numbered lapsedRecord) fun r hr => ?_
  cases hr
  exact ⟨⟨by decide, by decide, (fun h => nomatch h), fun _ h => nomatch h⟩, rfl⟩

/-- The policy is started again, another one is removed, and a filter is set. -/
def errands : List Session.Operation :=
  [.respawn 1, .deleteDynamic 2, .deploy "TENANT alice DO SET compress"]

/-- The calls of these in turn. -/
def inTurn : List Nat := [0, 1, 2, 0, 1, 2, 2, 1, 0, 2, 2, 2]

theorem manages_errands : ∀ operation ∈ errands, Manages operation := by
  have hnumbered : Engine.Numbered "TENANT alice DO SET compress" := by
    have hlines : Engine.ruleLines "TENANT alice DO SET compress" =
        ["TENANT alice DO SET compress"] := by decide +kernel
    have hone : (Rule.parse "TENANT alice DO SET compress").toOption.map
        (fun rule => rule.actions.length) = some 1 := by decide +kernel
    intro line hline rule hrule
    rw [hlines, List.mem_singleton] at hline
    rw [hline] at hrule
    rw [hrule] at hone
    have hlength : rule.actions.length = 1 := Option.some.inj hone
    rw [hlength]
    decide
  intro operation hoperation
  simp only [errands, List.mem_cons, List.not_mem_nil, or_false] at hoperation
  rcases hoperation with rfl | rfl | rfl
  · trivial
  · trivial
  · exact hnumbered

/-- All return, and the policy has its monitor and its record. -/
theorem recorded_of_run_in_turn :
    let x := (start alice {} lapsed errands).run inTurn
    (∀ w ∈ x.workers, w.Returned) ∧ x.session.monitors.isLive 1 = true ∧
      x.session.monitors.Exclusive ∧ ((x.session.store.record? 1).isSome = true ∨
        ∃ k, ((start alice {} lapsed errands).run (inTurn.take k)).Clash 1) := by
  have hreturned : ∀ w ∈ ((start alice {} lapsed errands).run inTurn).workers, w.Returned := by
    decide +kernel
  have hlive : ((start alice {} lapsed errands).run inTurn).session.monitors.isLive 1 = true := by
    decide +kernel
  have hrun := recorded_of_run alice {} lapsed filed_lapsed MonitorTable.consistent_empty
    (fun id hid => nomatch hid) errands manages_errands inTurn hreturned
  exact ⟨hreturned, hlive, hrun.1, hrun.2 1 hlive⟩

/-- A policy is started again and removed. The record is read, then the policy is removed, and then
    the monitor is started. Both have returned, and there is a live monitor without a record. -/
theorem not_forall_recorded :
    let x := (start alice {} lapsed [.respawn 1, .deleteDynamic 1]).run [0, 0, 1, 1, 1, 1, 0]
    (∀ w ∈ x.workers, w.Returned) ∧ x.session.monitors.isLive 1 = true ∧
      x.session.store.record? 1 = none ∧
      ((start alice {} lapsed [.respawn 1, .deleteDynamic 1]).run [0, 0, 1]).Clash 1 := by
  decide +kernel

end Crew

end StoragePolicy
