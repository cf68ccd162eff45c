import StoragePolicy.Proofs.Engine.Completion
import StoragePolicy.Proofs.Engine.Creating
import StoragePolicy.Proofs.Monitor.Duties
import StoragePolicy.Proofs.Registry.InOrder

/-!
# What a program has in hand

A monitor is started for a record that has been read or stored in an earlier call, and a record is
deleted by a later call than the one that takes the policy off the live ones. So between its calls a
program has something in hand: records for which it may start a monitor, a policy whose record it is
about to delete, a monitor that it has still to stop. What that is can be told from its calls and
from what was replied to them.

Whether a program may make a call depends on what it has in hand. That every operation keeps to this
is shown here for all replies that could be given, without running it.

## Main definitions

* `Engine.Custody`: What a program has in hand.
* `Engine.Custody.note`: What it has in hand after a call.
* `Engine.Custody.Allows`: The calls that it may make then.
* `Engine.Call.Plausible`: The replies that could be given to a call.
* `Engine.Obeys`: Programs that make such calls only.

## Theorems

* `obeys_bind` and its neighbours: Programs put together.
* `free_note`: Calls that concern no policy leave a program with nothing to do.
* `obeys_deploy`, `obeys_remove`, `obeys_respawn`, `obeys_reload`: The operations obey.
-/

namespace StoragePolicy

open Registry

namespace Engine

/-- What a program has in hand. -/
structure Custody where
  /-- The keys of the records that it has read or stored, and for which it may still start a
      monitor. -/
  inHand : List String := []
  /-- The policy that it removes. It does so from taking the policy off the live ones until it has
      deleted the record, or has found none. -/
  removing : Option Nat := none
  duty : Duty := .none

namespace Custody

/-- The record of an id is not in hand any more. -/
def letGo (g : Custody) (id : Nat) : Custody :=
  { g with inHand := g.inHand.filter fun key => key ≠ PolicyRecord.storeKey id }

/-- What a program has in hand after a call and its reply. -/
def note : (c : Call) → c.Reply → Custody → Custody
  | .store (.getFields key), .ok fields, g =>
    match PolicyRecord.ofFields fields with
    | .ok _ => { g with inHand := key :: g.inHand }
    | .error _ => g
  | .store (.apply (.setField key _ _ :: _)), .ok (), g => { g with inHand := key :: g.inHand }
  | .store (.apply (.delete _ :: _)), _, g => { g with removing := none }
  | .store (.contains _), .ok true, g => g
  | .store (.contains _), _, g => { g with removing := none }
  | .isLive id, true, g => g.letGo id
  | .launch id _ _, _, g => g.letGo id
  | .take id, some handle, g => { g with removing := some id, duty := .halt handle }
  | .take id, none, g => { g with removing := some id }
  | .halt _, _, g =>
    match g.duty with
    | .halt handle => { g with duty := .detach handle }
    | _ => g
  | .unsubscribe _ _, _, g => { g with duty := .none }
  | _, _, g => g

/-- The calls that a program may make with something in hand. -/
inductive Allows (g : Custody) : Call → Prop where
  | aside (c : Call) (hc : c.Aside) : Allows g c
  | mark (id : Nat) (alive : Bool) :
    Allows g
      (.store (.updateField (PolicyRecord.storeKey id) "alive" (PolicyRecord.flagText alive)))
  | file (r : PolicyRecord) (hr : r.Storable) : Allows g (.store (.apply (recordChanges r)))
  | erase (id : Nat) (h : g.removing = some id) :
    Allows g (.store (.apply [.delete (PolicyRecord.storeKey id)]))
  | launch (id : Nat) (condition : Condition) (binding : MonitorBinding)
    (h : PolicyRecord.storeKey id ∈ g.inHand) : Allows g (.launch id condition binding)
  | take (id : Nat) (h : g.duty = .none) : Allows g (.take id)
  | halt (handle : MonitorHandle) (h : g.duty = .halt handle) : Allows g (.halt handle.serial)
  | unsubscribe (handle : MonitorHandle) (h : g.duty = .detach handle) :
    Allows g (.unsubscribe handle.target.tenantId handle.policyId)

/-- All records in hand but that of one id are in hand afterwards. -/
def Retains (g : Custody) (id : Nat) (g' : Custody) : Prop :=
  ∀ other, other ≠ id → PolicyRecord.storeKey other ∈ g.inHand →
    PolicyRecord.storeKey other ∈ g'.inHand

theorem retains_letGo (g : Custody) (id : Nat) : g.Retains id (g.letGo id) := by
  intro other hother hkey
  refine List.mem_filter.mpr ⟨hkey, decide_eq_true ?_⟩
  exact fun heq => hother (storeKey_inj other id heq)

/-- Nothing is being removed, and no monitor has still to be stopped. -/
structure Free (g : Custody) : Prop where
  removing : g.removing = none
  duty : g.duty = .none

end Custody

/-- The replies that could be given to a call: ids can be held, keys are found once and as asked
    for, records stand under the keys of their ids, and so do the handles of live monitors. -/
def Call.Plausible : (c : Call) → c.Reply → Prop
  | .store (.incrementReserving _ _), .ok (n : Nat) => n ≤ Number.maxWord
  | .store (.keys stem), .ok (keys : List String) =>
    keys.Nodup ∧ ∀ key ∈ keys, ∃ name, key = stem ++ name
  | .store (.getFields key), .ok fields =>
    ∀ name r, key = PolicyRecord.keyStem ++ name → PolicyRecord.ofFields fields = .ok r →
      key = PolicyRecord.storeKey r.id
  | .take id, some handle => handle.policyId = id
  | _, _ => True

/-- Programs that make only calls which they may make with what they have in hand, and of which
    something holds when they have come to their end. -/
def Obeys {α : Type} (post : α → Custody → Prop) : Program interface α → Custody → Prop
  | .done a, g => post a g
  | .call c next, g =>
    g.Allows c ∧ ∀ reply, c.Plausible reply → Obeys post (next reply) (g.note c reply)

/-- Programs that obey and leave nothing to do, and of which something holds if they have ended in a
    value. -/
def Leaves {α : Type} (post : α → Custody → Prop) (p : Engine α) (g : Custody) : Prop :=
  Obeys (fun result g' => g'.Free ∧ ∀ a, result = .ok a → post a g') p.run g

/-! ### Programs put together -/

section Parts

variable {α β : Type}

theorem obeys_mono (post post' : α → Custody → Prop) (h : ∀ a g, post a g → post' a g)
    (p : Program interface α) (g : Custody) (hp : Obeys post p g) : Obeys post' p g := by
  induction p generalizing g with
  | done a => exact h a g hp
  | call c next ih => exact ⟨hp.1, fun reply hreply => ih reply _ (hp.2 reply hreply)⟩

theorem obeys_bind (middle : α → Custody → Prop) (post : β → Custody → Prop)
    (p : Program interface α) (f : α → Program interface β) (g : Custody)
    (first : Obeys middle p g) (rest : ∀ a g', middle a g' → Obeys post (f a) g') :
    Obeys post (p >>= f) g := by
  induction p generalizing g with
  | done a => exact rest a g first
  | call c next ih => exact ⟨first.1, fun reply hreply => ih reply _ (first.2 reply hreply)⟩

theorem leaves_pure (post : α → Custody → Prop) (a : α) (g : Custody) (h : g.Free)
    (ha : post a g) : Leaves post (pure a) g :=
  ⟨h, fun _ heq => by cases heq; exact ha⟩

theorem leaves_throw (post : α → Custody → Prop) (e : EngineError) (g : Custody) (h : g.Free) :
    Leaves post (throw e : Engine α) g :=
  ⟨h, fun _ heq => nomatch heq⟩

/-- The second program is run only if the first ends in a value. -/
theorem leaves_then (middle : α → Custody → Prop) (post : β → Custody → Prop) (p : Engine α)
    (f : α → Engine β) (g : Custody) (first : Leaves middle p g)
    (rest : ∀ a g', g'.Free → middle a g' → Leaves post (f a) g') : Leaves post (p >>= f) g := by
  refine obeys_bind _ _ p.run _ g first fun result g' h => ?_
  cases result with
  | ok a => exact rest a g' h.1 (h.2 a rfl)
  | error e => exact ⟨h.1, fun _ heq => nomatch heq⟩

theorem leaves_lift (post : α → Custody → Prop) (p : Program interface α) (g : Custody)
    (hp : Obeys (fun a g' => g'.Free ∧ post a g') p g) :
    Leaves post (ExceptT.lift p : Engine α) g :=
  obeys_bind _ _ p (fun a => pure (Except.ok a : Except EngineError α)) g hp fun a g' h =>
    ⟨h.1, fun _ heq => by cases heq; exact h.2⟩

theorem leaves_attempt (post : α → Custody → Prop) (p : Engine α) (g : Custody)
    (hp : Leaves post p g) :
    Leaves (fun result g' => ∀ a, result = .ok a → post a g') (attempt p) g :=
  leaves_lift _ p.run g hp

theorem leaves_discard (post : α → Custody → Prop) (p : Engine α) (g : Custody)
    (hp : Leaves post p g) : Leaves (fun _ _ => True) (discard p) g :=
  leaves_then post _ p _ g hp fun _ g' h _ => leaves_pure _ () g' h trivial

/-- A program whose value is not used. -/
theorem obeys_discard (post : Custody → Prop) (p : Engine α) (g : Custody)
    (hp : Obeys (fun _ g' => post g') p.run g) :
    Obeys (fun _ g' => post g') (discard p : Engine Unit).run g := by
  refine obeys_bind _ _ p.run _ g hp fun result g' h => ?_
  cases result with
  | ok a => exact h
  | error e => exact h

/-- A program of which nothing is known but that it has nothing to do in the end. -/
theorem obeys_of_leaves (post : α → Custody → Prop) (p : Engine α) (g : Custody)
    (hp : Leaves post p g) : Obeys (fun _ g' => g'.Free) (discard p.run) g :=
  obeys_bind _ _ p.run _ g hp fun _ _ h => h.1

end Parts

/-- One program over the store after another. -/
theorem ofRegistry_bind (p : Registry α) (f : α → Registry β) :
    ofRegistry (p >>= f) = ofRegistry p >>= fun a => ofRegistry (f a) := by
  have hembed : ∀ q : Program Store.interface (Except EngineError α),
      (q >>= ExceptT.bindCont f).embed (fun c => ask (.store c)) =
        q.embed (fun c => ask (.store c)) >>=
          ExceptT.bindCont (m := Program interface) fun a => ofRegistry (f a) := by
    intro q
    induction q with
    | done result => cases result <;> rfl
    | call c next ih => exact congrArg (Program.call (I := interface) (.store c)) (funext ih)
  exact hembed p.run

/-! ### Calls that concern no policy -/

theorem free_note (c : Call) (hc : c.Aside) (reply : c.Reply) (g : Custody) (h : g.Free) :
    (g.note c reply).Free := by
  unfold Custody.note
  split
  · split
    · exact ⟨h.removing, h.duty⟩
    · exact h
  · exact ⟨h.removing, h.duty⟩
  · exact ⟨rfl, h.duty⟩
  · exact h
  · exact ⟨rfl, h.duty⟩
  · exact ⟨h.removing, h.duty⟩
  · exact absurd hc not_false
  · exact absurd hc not_false
  · exact absurd hc not_false
  · exact absurd hc not_false
  · exact absurd hc not_false
  · exact h

/-- Programs that concern no policy obey, and leave nothing to do. -/
theorem obeys_aside {α : Type} (p : Program interface α) (hp : p.Makes Call.Aside) (g : Custody)
    (h : g.Free) : Obeys (fun _ g' => g'.Free) p g := by
  induction p generalizing g with
  | done a => exact h
  | call c next ih =>
    exact ⟨.aside c hp.1, fun reply _ => ih reply (hp.2 reply) _ (free_note c hp.1 reply g h)⟩

theorem leaves_aside {α : Type} (p : Engine α) (hp : p.run.Makes Call.Aside) (g : Custody)
    (h : g.Free) : Leaves (fun _ _ => True) p g :=
  obeys_mono _ _ (fun _ _ h' => ⟨h', fun _ _ => trivial⟩) p.run g (obeys_aside p.run hp g h)

/-! ### Deploying -/

theorem aside_nextId : (ofRegistry nextId).run.Makes Call.Aside := by
  refine makes_ofRegistry Call.Aside nextId (makes_ask _ _ fun name => ?_)
  simp [Store.Call.changed, recordKey_ne_counterKey, recordKey_ne_reservationKey]

theorem leaves_nextId (g : Custody) (h : g.Free) :
    Leaves (fun n _ => n ≤ Number.maxWord) (ofRegistry nextId) g := by
  refine ⟨.aside _ aside_nextId.1, fun reply hreply => ?_⟩
  cases reply with
  | ok n => exact ⟨h, fun _ heq => by cases heq; exact hreply⟩
  | error e => exact ⟨h, fun _ heq => nomatch heq⟩

/-- A record that has been stored is in hand. -/
theorem leaves_storeRecord (r : PolicyRecord) (hr : r.Storable) (g : Custody) (h : g.Free) :
    Leaves (fun _ g' => PolicyRecord.storeKey r.id ∈ g'.inHand) (storeRecord r) g := by
  have hput : Leaves (fun _ g' => PolicyRecord.storeKey r.id ∈ g'.inHand)
      (ofRegistry (putDynamic r)) g := by
    refine ⟨.file r hr, fun reply hreply => ?_⟩
    cases reply with
    | ok _ => exact ⟨⟨h.removing, h.duty⟩, fun _ _ => List.mem_cons_self⟩
    | error e => exact ⟨h, fun _ heq => nomatch heq⟩
  have hrelease : (ofRegistry (releaseId r.id)).run.Makes Call.Aside := by
    refine makes_ofRegistry Call.Aside (releaseId r.id) ?_
    refine Registry.makes_bind _ _ _ (makes_ask _ _ fun name => ?_) fun _ => ?_
    · simp [Store.Call.changed, Mutation.key, release, recordKey_ne_reservationKey]
    · refine Registry.makes_discard _ _ (makes_resetIfVacant _ fun name => ?_)
      simp [Store.Call.changed, recordKey_ne_counterKey]
  refine leaves_then _ _ _ _ g (leaves_attempt _ _ g hput) fun outcome g' h' houtcome => ?_
  cases outcome with
  | ok a => exact leaves_pure _ _ g' h' (houtcome a rfl)
  | error e =>
    -- The id is given back, and the deployment goes no further.
    refine leaves_then _ _ _ _ g' (leaves_discard _ _ g' (leaves_attempt _ _ g'
      (leaves_aside _ hrelease g' h'))) fun _ g'' h'' _ => ?_
    exact leaves_throw _ e g'' h''

/-- The monitor of a record in hand may be started. Other records are in hand as before. -/
theorem obeys_spawn (r : PolicyRecord) (binding : MonitorBinding) (g : Custody) (h : g.Free)
    (hr : PolicyRecord.storeKey r.id ∈ g.inHand) :
    Obeys (fun _ g' => g'.Free ∧ g.Retains r.id g') (spawn r binding).run g := by
  rw [spawn]
  cases Condition.parse r.conditionText with
  | error fault => exact ⟨h, fun _ _ hkey => hkey⟩
  | ok condition =>
    refine ⟨.launch r.id condition binding hr, fun reply hreply => ?_⟩
    cases reply with
    | none => exact ⟨⟨h.removing, h.duty⟩, g.retains_letGo r.id⟩
    | some handle => exact ⟨⟨h.removing, h.duty⟩, g.retains_letGo r.id⟩

section Deploy

variable (directory : Directory) (settings : Settings)

theorem leaves_deployPairs (line conditionText : String) (rule : Rule)
    (hrule : Rule.parse line = .ok rule) (pairs : List (Target × FilterAction × Nat))
    (hpairs : ∀ pair ∈ pairs, pair.2.2 ≤ Number.maxWord) (done : Deployment) (g : Custody)
    (h : g.Free) :
    Leaves (fun _ _ => True) (deployPairs settings line conditionText rule pairs done) g := by
  induction pairs generalizing done g with
  | nil => exact leaves_pure _ _ g h trivial
  | cons pair rest ih =>
    rcases pair with ⟨target, action, index⟩
    have hrest := fun pair hpair => hpairs pair (List.mem_cons_of_mem _ hpair)
    refine leaves_then _ _ _ _ g (leaves_nextId g h) fun id g₁ h₁ hid => ?_
    have hstorable := storable_newRecord settings line rule hrule (target, action, index) id
      conditionText hid (hpairs _ List.mem_cons_self)
    refine leaves_then _ _ _ _ g₁ (leaves_storeRecord _ hstorable g₁ h₁) fun _ g₂ h₂ hr => ?_
    refine leaves_then _ _ _ _ g₂ (leaves_lift _ _ g₂ (obeys_spawn _ _ g₂ h₂ hr))
      fun outcome g₃ h₃ _ => ?_
    cases outcome with
    | ok handle => exact ih hrest _ g₃ h₃
    | error e => exact ih hrest _ g₃ h₃

theorem aside_deployStatic (objectFilter : Option ObjectFilter)
    (pairs : List (Target × FilterAction × Nat)) (done : Deployment) :
    (deployStatic objectFilter pairs done).Makes Call.Aside :=
  (compositional_makes Call.Aside).holds_deployStatic objectFilter
    (fun target action => aside_dispatch target action objectFilter) pairs done

theorem place_of_mem_pairs (rule : Rule) (targets : List Target)
    (pair : Target × FilterAction × Nat) (h : pair ∈ pairs rule targets) :
    pair.2.2 < rule.actions.length := by
  rcases List.mem_flatMap.mp h with ⟨target, -, htarget⟩
  rcases List.mem_map.mp htarget with ⟨⟨action, index⟩, haction, rfl⟩
  exact (List.mem_zipIdx' haction).1

/-- The rules of a text have no more actions than can be numbered. -/
def Numbered (text : String) : Prop :=
  ∀ line ∈ ruleLines text, ∀ rule, Rule.parse line = .ok rule →
    rule.actions.length ≤ Number.maxWord

theorem obeys_deployRule (line : String) (rule : Rule) (hrule : Rule.parse line = .ok rule)
    (hactions : rule.actions.length ≤ Number.maxWord) (g : Custody) (h : g.Free) :
    Obeys (fun _ g' => g'.Free) (deployRule directory settings line rule) g := by
  have hcheck := obeys_aside _ (aside_idle _ (idle_check directory rule)) g h
  refine obeys_bind _ _ _ _ g hcheck fun checked g₁ h₁ => ?_
  cases checked with
  | error e => exact h₁
  | ok targets =>
    dsimp only
    -- Only a dynamic rule takes keys in hand. The actions of a static one write no record.
    split
    · have hdynamic : Leaves (fun _ _ => True) (deployDynamic settings line rule targets) g₁ := by
        rw [deployDynamic]
        cases rule.conditionText with
        | none => exact leaves_throw _ _ g₁ h₁
        | some conditionText =>
          refine leaves_deployPairs settings line conditionText rule hrule _ ?_ _ g₁ h₁
          intro pair hpair
          exact Nat.le_of_lt (Nat.lt_of_lt_of_le (place_of_mem_pairs rule targets pair hpair)
            hactions)
      refine obeys_bind _ _ _ _ g₁ hdynamic fun outcome g₂ h₂ => ?_
      cases outcome with
      | ok done => exact h₂.1
      | error e => exact h₂.1
    · exact obeys_aside _ (aside_deployStatic _ _ _) g₁ h₁

theorem obeys_deployLine (line : String)
    (hline : ∀ rule, Rule.parse line = .ok rule → rule.actions.length ≤ Number.maxWord)
    (g : Custody) (h : g.Free) :
    Obeys (fun _ g' => g'.Free) (deployLine directory settings line) g := by
  rw [deployLine]
  cases hparse : Rule.parse line with
  | error e => exact h
  | ok rule =>
    exact obeys_bind _ _ _ _ g
      (obeys_deployRule directory settings line rule hparse (hline rule hparse) g h)
      fun _ _ h' => h'

theorem obeys_deployLines (lines : List String)
    (hlines : ∀ line ∈ lines, ∀ rule, Rule.parse line = .ok rule →
      rule.actions.length ≤ Number.maxWord) (g : Custody) (h : g.Free) :
    Obeys (fun _ g' => g'.Free) (deployLines directory settings lines) g := by
  induction lines generalizing g with
  | nil => exact h
  | cons line rest ih =>
    have hline := obeys_deployLine directory settings line (hlines line List.mem_cons_self) g h
    refine obeys_bind _ _ _ _ g hline fun report g₁ h₁ => ?_
    have hrest := ih (fun other hother => hlines other (List.mem_cons_of_mem _ hother)) g₁ h₁
    exact obeys_bind _ _ _ _ g₁ hrest fun _ _ h' => h'

theorem obeys_deploy (text : String) (htext : Numbered text) (g : Custody) (h : g.Free) :
    Obeys (fun _ g' => g'.Free) (discard (deploy directory settings text)) g := by
  refine obeys_bind _ _ _ _ g ?_ fun _ _ h' => h'
  exact obeys_bind _ _ _ _ g (obeys_deployLines directory settings _ htext g h) fun _ _ h' => h'

end Deploy

/-! ### Removing -/

/-- A policy that has been taken off the live ones is stopped and detached, and then its record has
    still to be deleted. -/
theorem obeys_detach (id : Nat) (g : Custody) (h : g.Free) :
    Obeys (fun _ g' => g'.removing = some id ∧ g'.duty = .none) (detach id) g := by
  refine ⟨.take id h.duty, fun reply hreply => ?_⟩
  cases reply with
  | none => exact ⟨rfl, h.duty⟩
  | some handle =>
    have hid : handle.policyId = id := hreply
    refine ⟨.halt handle rfl, fun _ _ => ⟨?_, fun _ _ => ⟨rfl, rfl⟩⟩⟩
    rw [← hid]
    exact .unsubscribe handle rfl

theorem leaves_deleteDynamic (id : Nat) (g : Custody) (hremoving : g.removing = some id)
    (hduty : g.duty = .none) : Leaves (fun _ _ => True) (ofRegistry (deleteDynamic id)) g := by
  -- The counter is set back in any case.
  have hreset : ∀ (existed : Bool) (g' : Custody), g'.Free →
      Leaves (fun _ _ => True) (ofRegistry (do
        discard resetIfVacant
        return existed : Registry Bool)) g' := by
    intro existed g' h'
    refine leaves_aside _ (makes_ofRegistry Call.Aside _ ?_) g' h'
    refine Registry.makes_bind _ _ _ (Registry.makes_discard _ _ (makes_resetIfVacant _ ?_))
      fun _ => Registry.makes_pure _ _
    intro name
    simp [Store.Call.changed, recordKey_ne_counterKey]
  refine ⟨.aside _ fun name => List.not_mem_nil, fun reply hreply => ?_⟩
  cases reply with
  | error e => exact ⟨⟨rfl, hduty⟩, fun _ heq => by cases heq⟩
  | ok existed =>
    cases (existed : Bool) with
    | false => exact hreset false _ ⟨rfl, hduty⟩
    | true =>
      refine ⟨.erase id hremoving, fun reply hreply => ?_⟩
      cases reply with
      | error e => exact ⟨⟨rfl, hduty⟩, fun _ heq => by cases heq⟩
      | ok a => exact hreset true _ ⟨rfl, hduty⟩

theorem obeys_remove (id : Nat) (g : Custody) (h : g.Free) :
    Obeys (fun _ g' => g'.Free) (discard (remove id).run) g := by
  have hdetach : Obeys (fun result g' => (∃ had, result = .ok had) ∧ g'.removing = some id ∧
      g'.duty = .none) (ExceptT.lift (detach id) : Engine Bool).run g :=
    obeys_bind _ _ (detach id) _ g (obeys_detach id g h) fun had _ h' => ⟨⟨had, rfl⟩, h'⟩
  have hremove : Leaves (fun _ _ => True) (remove id) g := by
    refine obeys_bind _ _ _ _ g hdetach fun result g₁ h₁ => ?_
    rcases h₁ with ⟨⟨had, rfl⟩, hremoving, hduty⟩
    exact leaves_then _ _ _ _ g₁ (leaves_deleteDynamic id g₁ hremoving hduty) fun _ g₂ h₂ _ =>
      leaves_pure _ _ g₂ h₂ trivial
  exact obeys_of_leaves _ _ g hremove

/-! ### Starting monitors again -/

theorem obeys_spawnRecorded (r : PolicyRecord) (g : Custody) (h : g.Free)
    (hr : PolicyRecord.storeKey r.id ∈ g.inHand) :
    Obeys (fun _ g' => g'.Free ∧ g.Retains r.id g') (spawnRecorded r).run g := by
  rw [spawnRecorded]
  cases recordedBinding r with
  | error fault => exact ⟨h, fun _ _ hkey => hkey⟩
  | ok binding => exact obeys_discard _ _ g (obeys_spawn r binding g h hr)

theorem leaves_setAlive (id : Nat) (alive : Bool) (g : Custody) (h : g.Free) :
    Leaves (fun _ _ => True) (ofRegistry (setAlive id alive)) g := by
  refine ⟨.mark id alive, fun reply _ => ?_⟩
  cases reply with
  | ok marked => exact ⟨h, fun _ _ => trivial⟩
  | error e => exact ⟨h, fun _ heq => nomatch heq⟩

/-- A record that has been read is in hand. -/
theorem leaves_getDynamic (id : Nat) (g : Custody) (h : g.Free) :
    Leaves (fun stored g' => ∀ r, stored = some r → PolicyRecord.storeKey r.id ∈ g'.inHand)
      (ofRegistry (getDynamic id)) g := by
  refine ⟨.aside _ fun name => List.not_mem_nil, fun reply hreply => ?_⟩
  match reply with
  | .error e => exact ⟨h, fun _ heq => nomatch heq⟩
  | .ok fields =>
    have hkey := hreply (Number.writeNatural id)
    change Leaves _ (ofRegistry (if fields.isEmpty then return none else do
      let record ← Registry.ofExcept ((PolicyRecord.ofFields fields).mapError .undecodableRecord)
      return some record)) (match PolicyRecord.ofFields fields with
        | .ok _ => { g with inHand := PolicyRecord.storeKey id :: g.inHand }
        | .error _ => g)
    cases hread : PolicyRecord.ofFields fields with
    | error e => split <;> exact ⟨h, fun _ heq => by cases heq <;> exact fun _ hr => nomatch hr⟩
    | ok r =>
      -- A record stands under the key of its own id.
      have hid : PolicyRecord.storeKey id = PolicyRecord.storeKey r.id := hkey r rfl hread
      split
      · exact ⟨⟨h.removing, h.duty⟩, fun _ heq => by cases heq; exact fun _ hr => nomatch hr⟩
      · refine ⟨⟨h.removing, h.duty⟩, fun _ heq => ?_⟩
        cases heq
        intro r' hr'
        cases hr'
        rw [← hid]
        exact List.mem_cons_self

theorem obeys_respawn (id : Nat) (g : Custody) (h : g.Free) :
    Obeys (fun _ g' => g'.Free) (discard (respawn id).run) g := by
  refine obeys_of_leaves (fun _ _ => True) _ g ?_
  refine ⟨.aside _ trivial, fun live _ => ?_⟩
  match live with
  | true => exact leaves_throw _ _ _ ⟨h.removing, h.duty⟩
  | false =>
    refine leaves_then _ _ _ _ g (leaves_getDynamic id g h) fun stored g₁ h₁ hstored => ?_
    cases stored with
    | none => exact leaves_throw _ _ g₁ h₁
    | some r =>
      have hspawn : Leaves (fun _ _ => True) (spawnRecorded r) g₁ :=
        obeys_mono _ _ (fun _ _ h' => ⟨h'.1, fun _ _ => trivial⟩) _ g₁
          (obeys_spawnRecorded r g₁ h₁ (hstored r rfl))
      refine leaves_then _ _ _ _ g₁ hspawn fun _ g₂ h₂ _ => ?_
      cases r.alive with
      | true => exact leaves_pure _ _ g₂ h₂ trivial
      | false => exact leaves_discard _ _ g₂ (leaves_setAlive id true g₂ h₂)

/-- Records in hand with different ids. -/
def Holds (records : List PolicyRecord) (g : Custody) : Prop :=
  (records.map PolicyRecord.id).Nodup ∧ ∀ r ∈ records, PolicyRecord.storeKey r.id ∈ g.inHand

theorem leaves_reloadRecords (records : List PolicyRecord) (report : ReloadReport) (g : Custody)
    (h : g.Free) (hholds : Holds records g) :
    Leaves (fun _ _ => True) (reloadRecords records report) g := by
  induction records generalizing report g with
  | nil => exact leaves_pure _ _ g h trivial
  | cons r rest ih =>
    rcases List.nodup_cons.mp hholds.1 with ⟨hfirst, hnodup⟩
    -- Whatever becomes of the first record, the others stay in hand.
    have hrest : ∀ g' : Custody, g.Retains r.id g' → Holds rest g' := by
      intro g' hretains
      refine ⟨hnodup, fun other hother => hretains other.id (fun heq => hfirst ?_) ?_⟩
      · rw [← heq]
        exact List.mem_map_of_mem hother
      · exact hholds.2 other (List.mem_cons_of_mem r hother)
    refine ⟨.aside _ trivial, fun live _ => ?_⟩
    match live with
    | true => exact ih _ _ ⟨h.removing, h.duty⟩ (hrest _ (g.retains_letGo r.id))
    | false =>
      have hspawn := obeys_spawnRecorded r g h (hholds.2 r List.mem_cons_self)
      refine leaves_then _ _ _ _ g (leaves_lift _ _ g hspawn) fun outcome g₁ h₁ hretains => ?_
      cases outcome with
      | ok _ => exact ih _ g₁ h₁ (hrest g₁ hretains)
      | error e => exact ih _ g₁ h₁ (hrest g₁ hretains)

theorem leaves_scanKeys (keys : List String) (hkeys : keys.Nodup)
    (hstem : ∀ key ∈ keys, ∃ name, key = PolicyRecord.keyStem ++ name) (g : Custody)
    (h : g.Free) :
    Leaves (fun scan g' => Holds scan.records g' ∧
      (∀ r ∈ scan.records, PolicyRecord.storeKey r.id ∈ keys) ∧ ∀ key ∈ g.inHand, key ∈ g'.inHand)
      (ofRegistry (scanKeys keys)) g := by
  induction keys generalizing g with
  | nil =>
    refine ⟨h, fun _ heq => ?_⟩
    cases heq
    have hnone : ∀ r : PolicyRecord, r ∉ ({} : Scan).records := fun _ => List.not_mem_nil
    exact ⟨⟨List.nodup_nil, fun r hr => absurd hr (hnone r)⟩, fun r hr => absurd hr (hnone r),
      fun _ hkey => hkey⟩
  | cons key rest ih =>
    rcases List.nodup_cons.mp hkeys with ⟨hfirst, hnodup⟩
    have hrest := ih hnodup fun other hother => hstem other (List.mem_cons_of_mem key hother)
    refine ⟨.aside _ fun name => List.not_mem_nil, fun reply hreply => ?_⟩
    match reply with
    | .error e => exact ⟨h, fun _ heq => nomatch heq⟩
    | .ok fields =>
      -- The key is in hand as soon as the hash is read, although the record is listed only after
      -- the remaining keys have been read.
      change Leaves _ (ofRegistry (do
        let scan ← scanKeys rest
        match PolicyRecord.ofFields fields with
        | .ok record => return { scan with records := record :: scan.records }
        | .error e => return { scan with undecodable := (key, e) :: scan.undecodable }))
        (match PolicyRecord.ofFields fields with
        | .ok _ => { g with inHand := key :: g.inHand }
        | .error _ => g)
      rw [ofRegistry_bind]
      cases hread : PolicyRecord.ofFields fields with
      | error e =>
        refine leaves_then _ _ _ _ g (hrest g h) fun scan g₁ h₁ hscan => ⟨h₁, fun _ heq => ?_⟩
        cases heq
        exact ⟨hscan.1, fun r hr => List.mem_cons_of_mem key (hscan.2.1 r hr), hscan.2.2⟩
      | ok record =>
        rcases hstem key List.mem_cons_self with ⟨name, hname⟩
        have hid : key = PolicyRecord.storeKey record.id := hreply name record hname hread
        refine leaves_then _ _ _ _ _ (hrest _ ⟨h.removing, h.duty⟩) fun scan g₁ h₁ hscan =>
          ⟨h₁, fun _ heq => ?_⟩
        cases heq
        rcases hscan with ⟨⟨hids, hin⟩, hmem, hkept⟩
        refine ⟨⟨List.nodup_cons.mpr ⟨fun hother => ?_, hids⟩, ?_⟩, ?_, fun other hother =>
          hkept other (List.mem_cons_of_mem key hother)⟩
        · -- Another record of the same id would stand under the same key.
          rcases List.mem_map.mp hother with ⟨r, hr, hsame⟩
          apply hfirst
          rw [hid, ← hsame]
          exact hmem r hr
        · intro r hr
          rcases List.mem_cons.mp hr with rfl | hr
          · rw [← hid]
            exact hkept key List.mem_cons_self
          · exact hin r hr
        · intro r hr
          rcases List.mem_cons.mp hr with rfl | hr
          · rw [← hid]
            exact List.mem_cons_self
          · exact List.mem_cons_of_mem key (hmem r hr)

theorem leaves_scanDynamic (g : Custody) (h : g.Free) :
    Leaves (fun scan g' => Holds scan.records g') (ofRegistry scanDynamic) g := by
  refine ⟨.aside _ fun name => List.not_mem_nil, fun reply hreply => ?_⟩
  match reply with
  | .error e => exact ⟨h, fun _ heq => nomatch heq⟩
  | .ok keys =>
    change Leaves _ (ofRegistry (do
      let scan ← scanKeys keys
      return { scan with records := inOrder PolicyRecord.id scan.records })) g
    rw [ofRegistry_bind]
    refine leaves_then _ _ _ _ g (leaves_scanKeys keys hreply.1 hreply.2 g h)
      fun scan g₁ h₁ hscan => ⟨h₁, fun _ heq => ?_⟩
    cases heq
    have hperm := perm_inOrder PolicyRecord.id scan.records
    refine ⟨(hperm.map PolicyRecord.id).nodup_iff.mpr hscan.1.1, fun r hr => ?_⟩
    exact hscan.1.2 r (hperm.mem_iff.mp hr)

theorem obeys_reload (g : Custody) (h : g.Free) :
    Obeys (fun _ g' => g'.Free) (discard reload.run) g := by
  refine obeys_of_leaves (fun _ _ => True) _ g ?_
  refine leaves_then _ _ _ _ g (leaves_scanDynamic g h) fun scan g₁ h₁ hholds => ?_
  refine leaves_reloadRecords _ _ g₁ h₁ ⟨?_, fun r hr => hholds.2 r (List.mem_filter.mp hr).1⟩
  exact hholds.1.sublist (List.filter_sublist.map _)

end Engine

end StoragePolicy
