import StoragePolicy.Registry.Dynamic
import StoragePolicy.Proofs.Registry.Pipelines

/-!
# Requests to the registry

What is said of the registry as a whole is said of every request that can be made to it about ids,
entries and records. So the requests are data here, each with the type of its answer, as the calls
to the store are.

## Main definitions

* `Request`, `Request.Answer`: The requests and the types of their answers.
* `Request.program`: The program that serves a request.
* `Request.Elsewhere`: Requests that store nothing under an id in a pipeline, and delete nothing
  there by that id.
* `Store.Call.Leaves`: Calls that leave a field of a hash alone, or at most take it away.

## Theorems

* `peek_exec`: Such a call leaves the field as it is, or takes it away.
* `leaves_program`: Requests elsewhere make only such calls.
-/

namespace StoragePolicy

open Registry

/-- A request to the registry about ids, entries and records. -/
inductive Request where
  | nextId
  | releaseId (id : Nat)
  | resetIfVacant
  | putStatic (targetId : String) (id : Nat) (entry : StaticEntry)
  | getStatic (targetId : String) (id : Nat)
  | updateStatic (targetId : String) (id : Nat) (patch : List (String × Json))
  | deleteStatic (targetId : String) (id : Nat)
  | deleteMatching (targetId filterName : String)
  /-- The entries of one target or of all. -/
  | listStatic (targetId : Option String)
  | putDynamic (record : PolicyRecord)
  | getDynamic (id : Nat)
  | setAlive (id : Nat) (alive : Bool)
  | deleteDynamic (id : Nat)
  | listDynamic

namespace Request

/-- The type of the answer to a request. -/
def Answer : Request → Type
  | .nextId => Nat
  | .releaseId _ => Unit
  | .resetIfVacant => Bool
  | .putStatic _ _ _ => Unit
  | .getStatic _ _ => Option StaticEntry
  | .updateStatic _ _ _ => StaticEntry
  | .deleteStatic _ _ => Bool
  | .deleteMatching _ _ => List Nat
  | .listStatic _ => List (String × StaticEntry)
  | .putDynamic _ => Unit
  | .getDynamic _ => Option PolicyRecord
  | .setAlive _ _ => Bool
  | .deleteDynamic _ => Bool
  | .listDynamic => List PolicyRecord

/-- The program that serves a request. -/
def program : (r : Request) → Registry r.Answer
  | .nextId => Registry.nextId
  | .releaseId id => Registry.releaseId id
  | .resetIfVacant => Registry.resetIfVacant
  | .putStatic targetId id entry => Registry.putStatic targetId id entry
  | .getStatic targetId id => Registry.getStatic targetId id
  | .updateStatic targetId id patch => Registry.updateStatic targetId id patch
  | .deleteStatic targetId id => Registry.deleteStatic targetId id
  | .deleteMatching targetId filterName => Registry.deleteMatching targetId filterName
  | .listStatic targetId => Registry.listStatic targetId
  | .putDynamic record => Registry.putDynamic record
  | .getDynamic id => Registry.getDynamic id
  | .setAlive id alive => Registry.setAlive id alive
  | .deleteDynamic id => Registry.deleteDynamic id
  | .listDynamic => Registry.listDynamic

/-- Requests that are not about an id in the pipeline of a target. One to take out a filter is about
    no id in particular. -/
def Elsewhere (targetId : String) (id : Nat) : Request → Prop
  | .putStatic other otherId _ | .updateStatic other otherId _ | .deleteStatic other otherId =>
    other = targetId → otherId ≠ id
  | _ => True

end Request

/-! ### Calls that leave a field alone -/

/-- Changes that leave a field of a hash as it is; if it is `erasable` they may take it away. -/
def Mutation.Leaves (erasable : Prop) (key name : String) : Mutation → Prop
  | .setField other field _ => other = key → field ≠ name
  | .deleteField other field => erasable ∨ (other = key → field ≠ name)
  | m => m.key ≠ key

/-- Calls that leave a field of a hash as it is; if it is `erasable` they may take it away. -/
def Store.Call.Leaves (erasable : Prop) (key name : String) : Store.Call → Prop
  | .apply changes => ∀ m ∈ changes, m.Leaves erasable key name
  | c => key ∉ c.changed

namespace Store

/-- What is found where a field of a hash is looked for. -/
def peek (s : Store) (key name : String) : Except StoreError (Option String) :=
  (s.hashAt key).map fun fields => fields.get? name

theorem peek_congr (s t : Store) (key name : String) (h : t.get? key = s.get? key) :
    t.peek key name = s.peek key name := by
  rw [peek, peek, hashAt_congr t s key h]

theorem peek_putHash (s : Store) (key name : String) (fields : Dict String String) :
    (s.putHash key fields).peek key name = .ok (fields.get? name) := by
  rw [peek, hashAt_putHash, if_pos rfl]
  rfl

theorem peek_of_hashAt (s : Store) (key name : String) (fields : Dict String String)
    (h : s.hashAt key = .ok fields) : s.peek key name = .ok (fields.get? name) := by
  rw [peek, h]
  rfl

/-- The hash in which a field has been found or not. -/
theorem hashAt_of_peek (s : Store) (key name : String) (stored : Option String)
    (h : s.peek key name = .ok stored) :
    ∃ fields, s.hashAt key = .ok fields ∧ fields.get? name = stored :=
  (Outcome.map_eq_ok _ _ _).mp h

/-- A field is found as before, or it was to be found and has been taken away. -/
def Kept (erasable : Prop) (key name : String) (s t : Store) : Prop :=
  t.peek key name = s.peek key name ∨
    erasable ∧ (∃ stored, s.peek key name = .ok stored) ∧ t.peek key name = .ok none

section Leaves

variable (erasable : Prop) (key name : String)

theorem kept_trans (s t u : Store) (h : Kept erasable key name s t)
    (h' : Kept erasable key name t u) : Kept erasable key name s u := by
  rcases h' with hsame | ⟨herasable, ⟨stored, hstored⟩, hnone⟩
  · rcases h with h | ⟨herasable, hfound, hnone⟩
    · exact Or.inl (hsame.trans h)
    · exact Or.inr ⟨herasable, hfound, hsame.trans hnone⟩
  · refine Or.inr ⟨herasable, ?_, hnone⟩
    rcases h with h | ⟨-, hfound, -⟩
    · exact ⟨stored, h.symm.trans hstored⟩
    · exact hfound

theorem kept_mutate (s t : Store) (m : Mutation) (hm : m.Leaves erasable key name)
    (h : s.mutate m = .ok t) : Kept erasable key name s t := by
  have hother : m.key ≠ key → Kept erasable key name s t := fun hne =>
    Or.inl (peek_congr s t key name (get?_mutate s t m key h (Ne.symm hne)))
  cases m with
  | set other value => exact hother hm
  | delete other => exact hother hm
  | append other values => exact hother hm
  | removeItem other value => exact hother hm
  | setField other field value =>
    by_cases hkey : other = key
    · subst hkey
      rcases (Outcome.bind_eq_ok _ _ _).mp h with ⟨fields, hfields, ht⟩
      cases ht
      refine Or.inl ?_
      rw [peek_putHash, peek_of_hashAt s other name fields hfields, Dict.get?_insert,
        if_neg (Ne.symm (hm rfl))]
    · exact hother hkey
  | deleteField other field =>
    by_cases hkey : other = key
    · subst hkey
      rcases (Outcome.bind_eq_ok _ _ _).mp h with ⟨fields, hfields, ht⟩
      cases ht
      by_cases hname : name = field
      · -- Only a field that is erasable may be the one that is deleted.
        have herasable : erasable := hm.resolve_right fun hne => hne rfl hname.symm
        refine Or.inr ⟨herasable, ⟨_, peek_of_hashAt s other name fields hfields⟩, ?_⟩
        rw [peek_putHash, Dict.get?_erase, if_pos hname]
      · refine Or.inl ?_
        rw [peek_putHash, peek_of_hashAt s other name fields hfields, Dict.get?_erase,
          if_neg hname]
    · exact hother hkey

/-- A call that leaves a field alone leaves it as it is, or takes it away if that is allowed. -/
theorem peek_exec (s : Store) (c : Call) (hc : c.Leaves erasable key name) :
    Kept erasable key name s (s.exec c).2 := by
  have hother : key ∉ c.changed → Kept erasable key name s (s.exec c).2 := fun hne =>
    Or.inl (peek_congr s _ key name (get?_exec s c key hne))
  cases c with
  | apply changes =>
    refine applyBatch_invariant (Kept erasable key name s) s changes ?_ (Or.inl rfl)
    intro m hm t u hmutate hkept
    exact kept_trans erasable key name s t u hkept
      (kept_mutate erasable key name t u m (hc m hm) hmutate)
  | _ => exact hother hc

end Leaves

end Store

/-! ### Requests that leave an entry alone -/

namespace Registry

section Leaves

variable (erasable : Prop) (targetId : String) (id : Nat)

theorem leaves_nextId : Store.Call.Leaves erasable (pipelineKey targetId) (Number.writeNatural id)
    (.incrementReserving counterKey reservationKey) := by
  intro hmem
  rcases List.mem_cons.mp hmem with h | hmem
  · exact pipelineKey_ne_counterKey targetId h
  · exact pipelineKey_ne_reservationKey targetId (List.mem_singleton.mp hmem)

theorem leaves_reset : Store.Call.Leaves erasable (pipelineKey targetId) (Number.writeNatural id)
    (.resetIfVacant counterKey idStems) :=
  fun hmem => pipelineKey_ne_counterKey targetId (List.mem_singleton.mp hmem)

theorem leaves_release (otherId : Nat) :
    (release otherId).Leaves erasable (pipelineKey targetId) (Number.writeNatural id) :=
  Or.inr fun heq => absurd heq.symm (pipelineKey_ne_reservationKey targetId)

/-- A pipeline in which another field is meant, or another pipeline. -/
theorem elsewhere_field (other : String) (otherId : Nat) (h : other = targetId → otherId ≠ id) :
    pipelineKey other = pipelineKey targetId →
      Number.writeNatural otherId ≠ Number.writeNatural id := by
  intro hkey hname
  exact h (append_right_inj _ _ _ hkey) (Number.writeNatural_inj _ _ hname)

theorem leaves_entriesOf (other : String) : (entriesOf other).run.Makes
    (Store.Call.Leaves erasable (pipelineKey targetId) (Number.writeNatural id)) :=
  makes_entriesOf _ other List.not_mem_nil

theorem leaves_entriesOfAll (targets : List String) : (entriesOfAll targets).run.Makes
    (Store.Call.Leaves erasable (pipelineKey targetId) (Number.writeNatural id)) := by
  induction targets with
  | nil => exact makes_pure _ _
  | cons other rest ih =>
    refine makes_bind _ _ _ (leaves_entriesOf erasable targetId id other) fun entries => ?_
    exact makes_bind _ _ _ ih fun others => makes_pure _ _

theorem leaves_scanKeys (keys : List String) : (scanKeys keys).run.Makes
    (Store.Call.Leaves erasable (pipelineKey targetId) (Number.writeNatural id)) := by
  induction keys with
  | nil => exact makes_pure _ _
  | cons key rest ih =>
    refine makes_bind _ _ _ (makes_ask _ _ List.not_mem_nil) fun fields => ?_
    refine makes_bind _ _ _ ih fun scan => ?_
    split <;> exact makes_pure _ _

theorem leaves_updateStatic (other : String) (otherId : Nat) (patch : List (String × Json))
    (h : other = targetId → otherId ≠ id) : (updateStatic other otherId patch).run.Makes
      (Store.Call.Leaves erasable (pipelineKey targetId) (Number.writeNatural id)) := by
  refine makes_updateStatic _ other otherId patch List.not_mem_nil fun text m hm => ?_
  rw [List.mem_singleton.mp hm]
  exact elsewhere_field targetId id other otherId h

theorem leaves_listStatic (other : Option String) : (listStatic other).run.Makes
    (Store.Call.Leaves erasable (pipelineKey targetId) (Number.writeNatural id)) := by
  have hlist : ∀ targets : List String, (do
      let listed ← entriesOfAll targets
      return inOrder (fun e => e.2.executionOrder) listed :
        Registry (List (String × StaticEntry))).run.Makes
      (Store.Call.Leaves erasable (pipelineKey targetId) (Number.writeNatural id)) :=
    fun targets => makes_bind _ _ _ (leaves_entriesOfAll erasable targetId id targets)
      fun _ => makes_pure _ _
  cases other with
  | some other => exact hlist [other]
  | none =>
    exact makes_bind _ _ _ (makes_ask _ _ List.not_mem_nil) fun keys =>
      hlist (keys.map (dropStem pipelineStem))

theorem leaves_putDynamic (record : PolicyRecord) : (putDynamic record).run.Makes
    (Store.Call.Leaves erasable (pipelineKey targetId) (Number.writeNatural id)) := by
  refine makes_ask _ _ fun m hm => ?_
  rcases List.mem_append.mp hm with hm | hm
  · rcases List.mem_map.mp hm with ⟨field, -, rfl⟩
    exact fun hkey => absurd hkey (recordKey_ne_pipelineKey _ targetId)
  · rw [List.mem_singleton.mp hm]
    exact leaves_release erasable targetId id record.id

theorem leaves_listDynamic : listDynamic.run.Makes
    (Store.Call.Leaves erasable (pipelineKey targetId) (Number.writeNatural id)) := by
  refine makes_bind _ _ _ (makes_bind _ _ _ (makes_ask _ _ List.not_mem_nil) fun keys => ?_)
    fun _ => makes_pure _ _
  exact makes_bind _ _ _ (leaves_scanKeys erasable targetId id keys) fun _ => makes_pure _ _

/-- Requests elsewhere leave an entry as it is. One that takes a filter out of the pipeline of the
    entry may take the entry away. -/
theorem leaves_program (r : Request) (hr : r.Elsewhere targetId id)
    (hmatching : erasable ∨ ∀ filterName, r ≠ .deleteMatching targetId filterName) :
    (discard r.program).run.Makes
      (Store.Call.Leaves erasable (pipelineKey targetId) (Number.writeNatural id)) := by
  refine makes_discard _ _ ?_
  cases r with
  | nextId => exact makes_ask _ _ (leaves_nextId erasable targetId id)
  | releaseId otherId =>
    refine makes_bind _ _ _ (makes_ask _ _ fun m hm => ?_) fun _ =>
      makes_discard _ _ (makes_resetIfVacant _ (leaves_reset erasable targetId id))
    rw [List.mem_singleton.mp hm]
    exact leaves_release erasable targetId id otherId
  | resetIfVacant => exact makes_resetIfVacant _ (leaves_reset erasable targetId id)
  | putStatic other otherId entry =>
    refine makes_ask _ _ fun m hm => ?_
    rcases List.mem_cons.mp hm with rfl | hm
    · exact elsewhere_field targetId id other otherId hr
    · rw [List.mem_singleton.mp hm]
      exact leaves_release erasable targetId id otherId
  | getStatic other otherId =>
    exact makes_bind _ _ _ (makes_ask _ _ List.not_mem_nil) fun _ => makes_ofExcept _ _
  | updateStatic other otherId patch =>
    exact leaves_updateStatic erasable targetId id other otherId patch hr
  | deleteStatic other otherId =>
    refine makes_deleteStatic _ other otherId List.not_mem_nil (fun m hm => ?_)
      (leaves_reset erasable targetId id)
    rw [List.mem_singleton.mp hm]
    exact Or.inr (elsewhere_field targetId id other otherId hr)
  | deleteMatching other filterName =>
    -- Which ids go with a filter is not known, so in the same pipeline this must be allowed.
    refine makes_deleteMatching _ other filterName List.not_mem_nil (fun name m hm => ?_)
      (leaves_reset erasable targetId id)
    rw [List.mem_singleton.mp hm]
    refine hmatching.imp (fun h => h) fun hne hkey => ?_
    exact absurd (congrArg (Request.deleteMatching · filterName) (append_right_inj _ _ _ hkey))
      (hne filterName)
  | listStatic other => exact leaves_listStatic erasable targetId id other
  | putDynamic record => exact leaves_putDynamic erasable targetId id record
  | getDynamic otherId =>
    refine makes_bind _ _ _ (makes_ask _ _ List.not_mem_nil) fun fields => ?_
    split
    · exact makes_pure _ _
    · exact makes_bind _ _ _ (makes_ofExcept _ _) fun _ => makes_pure _ _
  | setAlive otherId alive =>
    refine makes_ask _ _ fun hmem => ?_
    exact recordKey_ne_pipelineKey _ targetId (List.mem_singleton.mp hmem).symm
  | deleteDynamic otherId =>
    refine makes_deleteDynamic _ otherId List.not_mem_nil (fun m hm => ?_)
      (leaves_reset erasable targetId id)
    rw [List.mem_singleton.mp hm]
    exact recordKey_ne_pipelineKey _ targetId
  | listDynamic => exact leaves_listDynamic erasable targetId id

end Leaves

end Registry

end StoragePolicy
