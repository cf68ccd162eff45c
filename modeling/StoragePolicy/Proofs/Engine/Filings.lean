import StoragePolicy.Proofs.Engine.Calls
import StoragePolicy.Proofs.Registry.Vacancy

/-!
# What a program files

Entries and records are fields of hashes, and what creates them are changes that set such fields. A
change may be refused, and what a program does after that is not seen from its calls alone. So a
program has filed something if it has made a call that sets fields and the call was accepted. What
one call has set belongs together: it is one entry or one record.

What has been filed is all that is found in the end and was not there before; an entry that has
been put over one of the same id counts as filed as well. Nothing of this depends on what the store
holds or refuses.

Whether a program gives an account of what it has filed can be told from its calls and from what is
replied to them. No session has to be run for it, and the replies need not fit together.

## Main definitions

* `Placed`, `Filing`: A field that has been set, and those that one call has set.
* `Engine.Call.filings`, `Session.filings`: What a call and a program have filed.
* `Engine.Accounts`: What a program ends in, and what it has filed by then.

## Theorems

* `accounts_run`: An account holds in every run.
* `accounts_bind`, `accounts_then`, `accounts_silent`: Programs put together.
* `field?_exec`, `filed_of_found`: What is found was there before, or has been filed.
-/

namespace StoragePolicy

open Registry

/-- A field of a hash that has been set. -/
structure Placed where
  key : String
  name : String
  value : String
  deriving Repr, DecidableEq

/-- The fields that one call has set. -/
abbrev Filing := List Placed

/-- A field has been set by one of some calls. -/
def Filing.Covers (filed : List Filing) (key name : String) : Prop :=
  ∃ x ∈ filed, ∃ value, ⟨key, name, value⟩ ∈ x

/-- The field that a change sets. -/
def Mutation.placed? : Mutation → Option Placed
  | .setField key name value => some ⟨key, name, value⟩
  | _ => none

namespace Engine

/-- What a call has filed: the fields that its changes set, if there are any and they have been
    accepted. Marks on records that exist are not counted, and neither are reservations. -/
def Call.filings : (c : Call) → c.Reply → List Filing
  | .store (.apply changes), .ok _ =>
    [changes.filterMap Mutation.placed?].filter fun x => !x.isEmpty
  | _, _ => []

/-- Calls that file nothing, whatever is replied to them. -/
def Call.Silent (c : Call) : Prop := ∀ reply, c.filings reply = []

/-- What holds of the end of a program and of all that has been filed by then, whatever is replied
    to its calls. -/
def Accounts {α : Type} (post : α → List Filing → Prop) :
    Program interface α → List Filing → Prop
  | .done a, filed => post a filed
  | .call c next, filed => ∀ reply, Accounts post (next reply) (filed ++ c.filings reply)

end Engine

/-- What a program files in a session. -/
def Session.filings {α : Type} (s : Session) : Program Engine.interface α → List Filing
  | .done _ => []
  | .call c next => c.filings (exec c s).1 ++ filings (exec c s).2 (next (exec c s).1)

namespace Engine

section Parts

variable {α β : Type}

/-- An account holds in every run. -/
theorem accounts_run (post : α → List Filing → Prop) (p : Program interface α)
    (filed : List Filing) (h : Accounts post p filed) (s : Session) :
    post (s.run p).1 (filed ++ s.filings p) := by
  induction p generalizing filed s with
  | done a =>
    rw [Session.filings, List.append_nil]
    exact h
  | call c next ih =>
    rw [Session.filings, ← List.append_assoc]
    exact ih _ _ (h _) _

theorem accounts_mono (post post' : α → List Filing → Prop)
    (hpost : ∀ a filed, post a filed → post' a filed) (p : Program interface α)
    (filed : List Filing) (h : Accounts post p filed) : Accounts post' p filed := by
  induction p generalizing filed with
  | done a => exact hpost a filed h
  | call c next ih => exact fun reply => ih reply _ (h reply)

theorem accounts_bind (middle : α → List Filing → Prop) (post : β → List Filing → Prop)
    (p : Program interface α) (f : α → Program interface β) (filed : List Filing)
    (first : Accounts middle p filed)
    (rest : ∀ a filed', middle a filed' → Accounts post (f a) filed') :
    Accounts post (p >>= f) filed := by
  induction p generalizing filed with
  | done a => exact rest a filed first
  | call c next ih => exact fun reply => ih reply _ (first reply)

/-- The second program is run only if the first ends in a value. -/
theorem accounts_then (middle : Except EngineError α → List Filing → Prop)
    (post : Except EngineError β → List Filing → Prop) (p : Engine α) (f : α → Engine β)
    (filed : List Filing) (first : Accounts middle p.run filed)
    (hok : ∀ a filed', middle (.ok a) filed' → Accounts post (f a).run filed')
    (herror : ∀ e filed', middle (.error e) filed' → post (.error e) filed') :
    Accounts post (p >>= f).run filed := by
  refine accounts_bind middle post p.run _ filed first fun result filed' h => ?_
  cases result with
  | ok a => exact hok a filed' h
  | error e => exact herror e filed' h

/-- Calls that file nothing leave what has been filed as it is. -/
theorem accounts_silent (p : Program interface α) (hp : p.Makes Call.Silent)
    (filed : List Filing) : Accounts (fun _ filed' => filed' = filed) p filed := by
  induction p with
  | done a => exact rfl
  | call c next ih =>
    intro reply
    rw [hp.1 reply, List.append_nil]
    exact ih reply (hp.2 reply)

/-- What one program files after another. -/
theorem filings_bind (s : Session) (p : Program interface α) (f : α → Program interface β) :
    s.filings (p >>= f) = s.filings p ++ (s.run p).2.filings (f (s.run p).1) := by
  induction p generalizing s with
  | done a => exact (List.nil_append _).symm
  | call c next ih =>
    have hrest := ih (Session.exec c s).1 (Session.exec c s).2
    change c.filings (Session.exec c s).1 ++ (Session.exec c s).2.filings
      (next (Session.exec c s).1 >>= f) = _
    rw [hrest, Session.filings, List.append_assoc]
    rfl

theorem filings_of_silent (s : Session) (p : Program interface α) (hp : p.Makes Call.Silent) :
    s.filings p = [] := accounts_run _ p [] (accounts_silent p hp []) s

/-- What an attempt comes to is a value in either case. -/
theorem accounts_attempt (post : Except EngineError α → List Filing → Prop) (p : Engine α)
    (filed : List Filing) (h : Accounts post p.run filed) :
    Accounts (fun outcome filed' => ∃ result, outcome = .ok result ∧ post result filed')
      (attempt p).run filed :=
  accounts_bind post _ p.run _ filed h fun result _ hresult => ⟨result, rfl, hresult⟩

end Parts

/-! ### Calls that file nothing -/

/-- Calls that take or give back ids, read, delete or mark file nothing. -/
theorem silent_of_quiet (c : Call) (h : c.Quiet) : c.Silent := by
  intro reply
  cases c with
  | store c =>
    cases c with
    | apply changes =>
      rcases Store.sparing_apply changes h with ⟨targetId, name, rfl⟩ | ⟨id, rfl⟩
      · cases reply <;> rfl
      · cases reply <;> rfl
    | _ => rfl
  | _ => rfl

theorem silent_program {α : Type} (p : Program interface α) (hp : p.Makes Call.Quiet) :
    p.Makes Call.Silent := Program.makes_mono _ _ p hp silent_of_quiet

theorem silent_releaseId (id : Nat) : (ofRegistry (releaseId id)).run.Makes Call.Silent := by
  refine makes_ofRegistry Call.Silent (releaseId id) ?_
  refine Registry.makes_bind _ _ _ (makes_ask _ _ fun reply => by cases reply <;> rfl) fun _ => ?_
  exact Registry.makes_discard _ _ (makes_resetIfVacant _ fun _ => rfl)

end Engine

/-! ### Nothing else is found -/

namespace Store

/-- What puts no hash under a key puts no field there. -/
theorem field?_insert (d : Store) (key other name : String) (value : StoreValue)
    (h : ∀ fields, value ≠ .hash fields)
    (hfound : (field? (d.insert key value) other name).isSome = true) :
    (d.field? other name).isSome = true := by
  rw [field?, Dict.get?_insert] at hfound
  by_cases hkey : other = key
  · rw [if_pos hkey] at hfound
    cases value with
    | hash fields => exact absurd rfl (h fields)
    | scalar text => cases hfound
    | list items => cases hfound
  · rw [if_neg hkey] at hfound
    exact hfound

theorem field?_erase (d : Store) (key other name : String)
    (hfound : (field? (d.erase key) other name).isSome = true) :
    (d.field? other name).isSome = true := by
  rw [field?, Dict.get?_erase] at hfound
  by_cases hkey : other = key
  · rw [if_pos hkey] at hfound
    cases hfound
  · rw [if_neg hkey] at hfound
    exact hfound

theorem field?_putList (d : Store) (key other name : String) (items : List String)
    (hfound : ((d.putList key items).field? other name).isSome = true) :
    (d.field? other name).isSome = true := by
  unfold putList at hfound
  split at hfound
  · exact field?_erase d key other name hfound
  · exact field?_insert d key other name _ (by simp) hfound

/-- A field that is found after a change was there before, or the change has set it. -/
theorem field?_mutate (d d' : Store) (m : Mutation) (key name : String) (h : d.mutate m = .ok d')
    (hfound : (d'.field? key name).isSome = true) :
    (d.field? key name).isSome = true ∨ ∃ value, m.placed? = some ⟨key, name, value⟩ := by
  -- Only a change that sets a field can place one. Where another field of the same hash is found,
  -- it was there before.
  cases m with
  | set other value =>
    cases h
    exact Or.inl (field?_insert d other key name _ (by simp) hfound)
  | delete other =>
    cases h
    exact Or.inl (field?_erase d other key name hfound)
  | setField other field value =>
    rcases (Outcome.bind_eq_ok _ _ _).mp h with ⟨fields, hfields, hput⟩
    cases hput
    rw [field?_putHash] at hfound
    by_cases hkey : key = other
    · rw [if_pos hkey, Dict.get?_insert] at hfound
      by_cases hname : name = field
      · exact Or.inr ⟨value, by rw [hkey, hname]; rfl⟩
      · rw [if_neg hname] at hfound
        rw [hkey, field?_of_hashAt d other name fields hfields]
        exact Or.inl hfound
    · rw [if_neg hkey] at hfound
      exact Or.inl hfound
  | deleteField other field =>
    rcases (Outcome.bind_eq_ok _ _ _).mp h with ⟨fields, hfields, hput⟩
    cases hput
    rw [field?_putHash] at hfound
    by_cases hkey : key = other
    · rw [if_pos hkey, Dict.get?_erase] at hfound
      by_cases hname : name = field
      · rw [if_pos hname] at hfound
        cases hfound
      · rw [if_neg hname] at hfound
        rw [hkey, field?_of_hashAt d other name fields hfields]
        exact Or.inl hfound
    · rw [if_neg hkey] at hfound
      exact Or.inl hfound
  | append other values =>
    rw [mutate] at h
    split at h
    · cases h
      exact Or.inl hfound
    · rcases (Outcome.bind_eq_ok _ _ _).mp h with ⟨items, -, hput⟩
      cases hput
      exact Or.inl (field?_putList d other key name _ hfound)
  | removeItem other value =>
    rcases (Outcome.bind_eq_ok _ _ _).mp h with ⟨items, -, hput⟩
    cases hput
    exact Or.inl (field?_putList d other key name _ hfound)

theorem field?_mutateAll (d d' : Store) (changes : List Mutation) (key name : String)
    (h : d.mutateAll changes = (d', none)) (hfound : (d'.field? key name).isSome = true) :
    (d.field? key name).isSome = true ∨
      ∃ value, ⟨key, name, value⟩ ∈ changes.filterMap Mutation.placed? := by
  induction changes generalizing d with
  | nil =>
    cases h
    exact Or.inl hfound
  | cons m rest ih =>
    rw [mutateAll] at h
    cases hm : d.mutate m with
    | error e =>
      rw [hm] at h
      cases h
    | ok middle =>
      rw [hm] at h
      rcases ih middle h with hbefore | ⟨value, hvalue⟩
      · rcases field?_mutate d middle m key name hm hbefore with hfirst | ⟨value, hvalue⟩
        · exact Or.inl hfirst
        · exact Or.inr ⟨value, List.mem_filterMap.mpr ⟨m, List.mem_cons_self, hvalue⟩⟩
      · rcases List.mem_filterMap.mp hvalue with ⟨m', hm', hfiling⟩
        exact Or.inr ⟨value, List.mem_filterMap.mpr ⟨m', List.mem_cons_of_mem m hm', hfiling⟩⟩

/-- A batch that is refused is undone, so that the same holds of it. -/
theorem field?_apply (d : Store) (changes : List Mutation) (key name : String)
    (hfound : ((d.exec (.apply changes)).2.field? key name).isSome = true) :
    (d.field? key name).isSome = true ∨
      Filing.Covers ((Engine.Call.store (.apply changes)).filings (d.exec (.apply changes)).1) key
        name := by
  rw [exec] at hfound ⊢
  rcases applyBatch_cases d changes with ⟨d', hall, hdone⟩ | ⟨d', e, -, hrefused⟩
  · rw [hdone] at hfound ⊢
    rcases field?_mutateAll d d' changes key name hall hfound with hbefore | ⟨value, hvalue⟩
    · exact Or.inl hbefore
    · refine Or.inr ⟨_, List.mem_filter.mpr ⟨List.mem_cons_self, ?_⟩, value, hvalue⟩
      rw [List.isEmpty_eq_false_iff_exists_mem.mpr ⟨_, hvalue⟩]
      rfl
  · rw [hrefused] at hfound
    exact Or.inl hfound

/-- Only a field that is there is updated. -/
theorem field?_updateField (d : Store) (other field value key name : String)
    (hfound : ((d.updateField other field value).2.field? key name).isSome = true) :
    (d.field? key name).isSome = true := by
  unfold updateField at hfound
  split at hfound
  · exact hfound
  · rename_i fields hfields
    split at hfound
    · rename_i hcontains
      rw [field?_putHash] at hfound
      by_cases hkey : key = other
      · rw [hkey, field?_of_hashAt d other name fields hfields]
        rw [if_pos hkey, Dict.get?_insert] at hfound
        by_cases hname : name = field
        · rw [hname]
          exact hcontains
        · rw [if_neg hname] at hfound
          exact hfound
      · rw [if_neg hkey] at hfound
        exact hfound
    · exact hfound

/-- A field that is found after a call was there before, or it has been filed. -/
theorem field?_exec (d : Store) (c : Call) (key name : String) (hc : c.Usual)
    (hcounter : key ≠ counterKey) (hreserved : key ≠ reservationKey)
    (hfound : ((d.exec c).2.field? key name).isSome = true) :
    (d.field? key name).isSome = true ∨
      Filing.Covers ((Engine.Call.store c).filings (d.exec c).1) key name := by
  have hkept : key ∉ c.changed → (d.field? key name).isSome = true := by
    intro hmem
    rw [field?_congr _ d key name (get?_exec d c key hmem)] at hfound
    exact hfound
  -- Besides batches only the calls that take ids and set the counter back put anything new, and
  -- they change no pipeline and no record.
  cases hc with
  | sparing c h =>
    cases c with
    | apply changes => exact field?_apply d changes key name hfound
    | updateField other field value =>
      exact Or.inl (field?_updateField d other field value key name hfound)
    | increment counter => exact False.elim h
    | incrementReserving counter reservations => exact False.elim h
    | resetIfVacant counter stems =>
      refine Or.inl (hkept fun hmem => hcounter ?_)
      rw [List.mem_singleton.mp hmem]
      exact h.1
    | _ => exact Or.inl hfound
  | nextId =>
    refine Or.inl (hkept fun hmem => ?_)
    rcases List.mem_cons.mp hmem with h | h
    · exact hcounter h
    · exact hreserved (List.mem_singleton.mp h)
  | putStatic targetId e => exact field?_apply d _ key name hfound
  | putDynamic r => exact field?_apply d _ key name hfound
  | release id => exact field?_apply d _ key name hfound

end Store

/-- A field of a pipeline or of a record that is found after a program was there before, or it has
    been filed. -/
theorem Session.filed_of_found {α : Type} (p : Program Engine.interface α)
    (hp : p.Makes Engine.Call.Usual) (s : Session) (key name : String)
    (hcounter : key ≠ counterKey) (hreserved : key ≠ reservationKey)
    (hfound : ((s.run p).2.store.field? key name).isSome = true) :
    (s.store.field? key name).isSome = true ∨ Filing.Covers (s.filings p) key name := by
  induction p generalizing s with
  | done a => exact Or.inl hfound
  | call c next ih =>
    have hrun : s.run (.call c next) = (exec c s).2.run (next (exec c s).1) := rfl
    rw [hrun] at hfound
    rcases ih _ (hp.2 _) _ hfound with hbefore | ⟨x, hx, hcovers⟩
    · -- The field was there after the first call.
      cases c with
      | store c =>
        rw [exec, Backend.exec] at hbefore
        rw [filings, exec, Backend.exec]
        cases hrefusal : s.backend.refusal c with
        | some e =>
          rw [hrefusal] at hbefore
          exact Or.inl hbefore
        | none =>
          rw [hrefusal] at hbefore
          rcases Store.field?_exec s.store c key name hp.1 hcounter hreserved hbefore with
            hfirst | ⟨x, hx, hcovers⟩
          · exact Or.inl hfirst
          · exact Or.inr ⟨x, List.mem_append_left _ hx, hcovers⟩
      | _ => exact Or.inl hbefore
    · exact Or.inr ⟨x, List.mem_append_right _ hx, hcovers⟩

end StoragePolicy
