import StoragePolicy.Registry.Basic
import StoragePolicy.Proofs.Outcome
import StoragePolicy.Proofs.Store.View

/-!
# What a call leaves alone

A call changes no key but those it is about, be it accepted or refused. So a program of which it is
known which calls it can make, whatever is replied to it, leaves every other key alone.

## Main definitions

* `Store.Call.changed`: The keys that a call may change.
* `Program.Makes`: Programs that make calls of one kind only.
* `Registry.on`: Runs a program on a store that refuses nothing.

## Theorems

* `mutate_cases`: What one change does to the value under its key.
* `mutateAll_invariant`: What every change of a batch keeps.
* `get?_exec`: A call leaves every other key alone.
* `makes_bind` and its neighbours: What programs put together can make.
* `on_invariant`: What every call of a kind keeps, a program of such calls keeps.
-/

namespace StoragePolicy

/-- The keys that a call may change. -/
def Store.Call.changed : Store.Call → List String
  | .get _ | .getField _ _ | .getFields _ | .getItems _ | .contains _ | .keys _ => []
  | .increment key | .resetIfVacant key _ | .updateField key _ _ => [key]
  | .incrementReserving counter reservations => [counter, reservations]
  | .apply changes => changes.map Mutation.key

/-- Programs all of whose calls are of one kind, whatever is replied to them. -/
def Program.Makes {I : Interface} {α : Type} (kind : I.Call → Prop) : Program I α → Prop
  | .done _ => True
  | .call c next => kind c ∧ ∀ reply, (next reply).Makes kind

namespace Store

theorem get?_putList_of_ne (s : Store) (key other : String) (items : List String)
    (h : other ≠ key) : (s.putList key items).get? other = s.get? other := by
  rw [putList]
  split
  · rw [Dict.get?_erase, if_neg h]
  · rw [Dict.get?_insert, if_neg h]

/-- A change puts a value under its key or takes it away, or there is nothing to append. -/
theorem mutate_cases (s t : Store) (m : Mutation) (h : s.mutate m = .ok t) :
    t = s ∨ t = s.erase m.key ∨ (∃ text, t = s.insert m.key (.scalar text)) ∨
      (∃ fields, t = s.putHash m.key fields) ∨ ∃ items, t = s.putList m.key items := by
  cases m with
  | set key value =>
    cases h
    exact Or.inr (Or.inr (Or.inl ⟨value, rfl⟩))
  | delete key =>
    cases h
    exact Or.inr (Or.inl rfl)
  | setField key name value | deleteField key name =>
    rcases (Outcome.bind_eq_ok _ _ _).mp h with ⟨fields, -, ht⟩
    cases ht
    exact Or.inr (Or.inr (Or.inr (Or.inl ⟨_, rfl⟩)))
  | append key values =>
    rw [mutate] at h
    split at h
    · cases h
      exact Or.inl rfl
    · rcases (Outcome.bind_eq_ok _ _ _).mp h with ⟨items, -, ht⟩
      cases ht
      exact Or.inr (Or.inr (Or.inr (Or.inr ⟨_, rfl⟩)))
  | removeItem key value =>
    rcases (Outcome.bind_eq_ok _ _ _).mp h with ⟨items, -, ht⟩
    cases ht
    exact Or.inr (Or.inr (Or.inr (Or.inr ⟨_, rfl⟩)))

theorem get?_mutate (s t : Store) (m : Mutation) (key : String) (h : s.mutate m = .ok t)
    (hne : key ≠ m.key) : t.get? key = s.get? key := by
  rcases mutate_cases s t m h with rfl | rfl | ⟨text, rfl⟩ | ⟨fields, rfl⟩ | ⟨items, rfl⟩
  · rfl
  · rw [Dict.get?_erase, if_neg hne]
  · rw [Dict.get?_insert, if_neg hne]
  · rw [get?_putHash, if_neg hne]
  · exact get?_putList_of_ne s m.key key items hne

/-- A counter that counts on is written as a number. -/
theorem insert_of_increment (s t : Store) (counter : String) (n : Nat)
    (h : s.increment counter = .ok (n, t)) : ∃ text, t = s.insert counter (.scalar text) := by
  rw [increment] at h
  rcases (Outcome.bind_eq_ok _ _ _).mp h with ⟨stored, -, hnext⟩
  cases stored with
  | none =>
    cases hnext
    exact ⟨_, rfl⟩
  | some text =>
    dsimp only at hnext
    split at hnext
    · cases hnext
      exact ⟨_, rfl⟩
    · exact nomatch hnext

theorem get?_increment (s t : Store) (counter key : String) (n : Nat)
    (h : s.increment counter = .ok (n, t)) (hne : key ≠ counter) : t.get? key = s.get? key := by
  rcases insert_of_increment s t counter n h with ⟨text, rfl⟩
  rw [Dict.get?_insert, if_neg hne]

/-- What every change of a batch keeps, they keep up to the first that is refused. -/
theorem mutateAll_invariant (P : Store → Prop) (s : Store) (changes : List Mutation)
    (hstep : ∀ m ∈ changes, ∀ t u : Store, t.mutate m = .ok u → P t → P u) (h : P s) :
    P (s.mutateAll changes).1 := by
  induction changes generalizing s with
  | nil => exact h
  | cons m rest ih =>
    rw [mutateAll]
    cases hm : s.mutate m with
    | error e => exact h
    | ok t =>
      exact ih t (fun other hother => hstep other (List.mem_cons_of_mem m hother))
        (hstep m List.mem_cons_self s t hm h)

theorem get?_mutateAll (s : Store) (changes : List Mutation) (key : String)
    (hne : ∀ m ∈ changes, key ≠ m.key) : (s.mutateAll changes).1.get? key = s.get? key :=
  mutateAll_invariant (fun t => t.get? key = s.get? key) s changes
    (fun m hm t u hmutate hsame => (get?_mutate t u m key hmutate (hne m hm)).trans hsame) rfl

theorem get?_restore (s : Store) (saved : List (String × Option StoreValue)) (key : String)
    (hne : ∀ e ∈ saved, key ≠ e.1) : (s.restore saved).get? key = s.get? key := by
  induction saved generalizing s with
  | nil => rfl
  | cons e rest ih =>
    have hrest := ih (s.set e.1 e.2) fun e' he' => hne e' (List.mem_cons_of_mem e he')
    rw [restore, List.foldl_cons, ← restore, hrest, Dict.get?_set,
      if_neg (hne e List.mem_cons_self)]

/-- A call leaves every key alone that it is not about. -/
theorem get?_exec (s : Store) (c : Call) (key : String) (h : key ∉ c.changed) :
    (s.exec c).2.get? key = s.get? key := by
  cases c with
  | get k => rfl
  | getField k name => rfl
  | getFields k => rfl
  | getItems k => rfl
  | contains k => rfl
  | keys stem => rfl
  | increment k =>
    have hk : key ≠ k := by simpa [Call.changed] using h
    simp only [exec]
    split
    · rename_i n t hinc
      exact get?_increment s t k key n hinc hk
    · rfl
  | incrementReserving k r =>
    have hk : key ≠ k ∧ key ≠ r := by simpa [Call.changed] using h
    simp only [exec, incrementReserving]
    split
    · rfl
    · split
      · rfl
      · rename_i n t hinc
        split
        · exact get?_increment s t k key n hinc hk.1
        · rename_i t' hset
          rw [get?_mutate _ _ _ key hset hk.2, get?_increment s t k key n hinc hk.1]
  | resetIfVacant k stems =>
    have hk : key ≠ k := by simpa [Call.changed] using h
    simp only [exec, resetIfVacant]
    split
    · rfl
    · split
      · rfl
      · rw [Dict.get?_insert, if_neg hk]
      · rfl
  | updateField k name value =>
    have hk : key ≠ k := by simpa [Call.changed] using h
    simp only [exec, updateField]
    split
    · rfl
    · split
      · rw [get?_putHash, if_neg hk]
      · rfl
  | apply changes =>
    have hk : ∀ m ∈ changes, key ≠ m.key := by
      intro m hm heq
      exact h (by rw [Call.changed, heq]; exact List.mem_map_of_mem hm)
    have hall := get?_mutateAll s changes key hk
    simp only [exec, applyBatch]
    split
    · rename_i t hm
      rw [hm] at hall
      exact hall
    · -- A batch that fails is undone, which writes to the keys of its changes only.
      rename_i t e hm
      rw [hm] at hall
      rw [get?_restore _ _ key, hall]
      intro entry hentry
      rcases List.mem_map.mp hentry with ⟨m, hm', rfl⟩
      exact hk m hm'

end Store

/-! ### What programs can make -/

namespace Program

variable {I : Interface} {α β σ : Type} (kind : I.Call → Prop)

theorem makes_bind (p : Program I α) (f : α → Program I β) (hp : p.Makes kind)
    (hf : ∀ a, (f a).Makes kind) : (p.bind f).Makes kind := by
  induction p with
  | done a => exact hf a
  | call c next ih => exact ⟨hp.1, fun reply => ih reply (hp.2 reply)⟩

theorem makes_mono (other : I.Call → Prop) (p : Program I α) (hp : p.Makes kind)
    (h : ∀ c, kind c → other c) : p.Makes other := by
  induction p with
  | done a => trivial
  | call c next ih => exact ⟨h c hp.1, fun reply => ih reply (hp.2 reply)⟩

/-- What every call of a kind keeps, a program of such calls keeps. -/
theorem run_invariant (exec : (c : I.Call) → σ → I.Reply c × σ) (inv : σ → Prop)
    (hstep : ∀ c s, kind c → inv s → inv (exec c s).2) (p : Program I α) (hp : p.Makes kind)
    (s : σ) (hs : inv s) : inv (p.run exec s).2 := by
  induction p generalizing s with
  | done a => exact hs
  | call c next ih => exact ih _ (hp.2 _) _ (hstep c s hp.1 hs)

end Program

namespace Registry

variable {α β : Type} (kind : Store.Call → Prop)

theorem makes_ask (c : Store.Call) (hc : kind c) : (ask c).run.Makes kind :=
  ⟨hc, fun _ => trivial⟩

theorem makes_pure (a : α) : (pure a : Registry α).run.Makes kind := trivial

theorem makes_ofExcept (result : Except EngineError α) : (ofExcept result).run.Makes kind := trivial

theorem makes_throw (e : EngineError) : (throw e : Registry α).run.Makes kind := trivial

theorem makes_bind (p : Registry α) (f : α → Registry β) (hp : p.run.Makes kind)
    (hf : ∀ a, (f a).run.Makes kind) : (p >>= f).run.Makes kind := by
  refine Program.makes_bind kind p.run _ hp ?_
  intro result
  cases result with
  | ok a => exact hf a
  | error e => trivial

theorem makes_discard (p : Registry α) (hp : p.run.Makes kind) :
    (discard p).run.Makes kind := by
  refine Program.makes_bind kind p.run _ hp ?_
  intro result
  cases result <;> trivial

/-! ### Running on a store that refuses nothing -/

/-- What a program ends in on a store that refuses nothing, and what it makes of the store. -/
def on (p : Registry α) (d : Store) : Except EngineError α × Store :=
  Program.run (fun c d => d.exec c) p.run d

theorem on_pure (a : α) (d : Store) : on (pure a) d = (.ok a, d) := rfl

theorem on_ofExcept (result : Except EngineError α) (d : Store) :
    on (ofExcept result) d = (result, d) := rfl

theorem on_ask (c : Store.Call) (d : Store) :
    on (ask c) d = (Except.mapError .store (d.exec c).1, (d.exec c).2) := rfl

theorem on_ask_ok (c : Store.Call) (d : Store) (a : c.Answer) (h : (d.exec c).1 = .ok a) :
    on (ask c) d = (.ok a, (d.exec c).2) := by
  rw [on_ask, h]
  rfl

theorem on_ask_getField (d : Store) (key name : String) (fields : Dict String String)
    (hfields : d.hashAt key = .ok fields) :
    on (ask (.getField key name)) d = (.ok (fields.get? name), d) := by
  refine on_ask_ok (.getField key name) d _ ?_
  rw [Store.exec, hfields]
  rfl

/-- A change that is not refused is made. -/
theorem on_change (m : Mutation) (d d' : Store) (h : d.mutate m = .ok d') :
    on (change m) d = (.ok (), d') := by
  have hon : on (change m) d =
      (Except.mapError .store (d.applyBatch [m]).1, (d.applyBatch [m]).2) := rfl
  rw [hon, Store.applyBatch_single d d' m h]
  rfl

theorem on_bind (p : Registry α) (f : α → Registry β) (d : Store) :
    on (p >>= f) d = match on p d with
      | (.ok a, d') => on (f a) d'
      | (.error e, d') => (.error e, d') := by
  have h : on (p >>= f) d = Program.run (fun c d => d.exec c)
      (p.run.bind (ExceptT.bindCont f)) d := rfl
  rw [h, Program.run_bind, ← on]
  generalize on p d = outcome
  rcases outcome with ⟨result, d'⟩
  cases result <;> rfl

theorem on_bind_ok (p : Registry α) (f : α → Registry β) (d d' : Store) (a : α)
    (h : on p d = (.ok a, d')) : on (p >>= f) d = on (f a) d' := by
  rw [on_bind, h]

theorem on_bind_error (p : Registry α) (f : α → Registry β) (d d' : Store) (e : EngineError)
    (h : on p d = (.error e, d')) : on (p >>= f) d = (.error e, d') := by
  rw [on_bind, h]

/-- A chain that ends in a value has ended in a value so far. -/
theorem on_bind_eq_ok (p : Registry α) (f : α → Registry β) (d : Store) (b : β)
    (h : (on (p >>= f) d).1 = .ok b) :
    ∃ a, (on p d).1 = .ok a ∧ (on (f a) (on p d).2).1 = .ok b := by
  rw [on_bind] at h
  generalize on p d = outcome at h
  rcases outcome with ⟨result, d'⟩
  cases result with
  | ok a => exact ⟨a, rfl, h⟩
  | error e => exact nomatch h

theorem on_discard (p : Registry α) (d : Store) :
    on (discard p) d = ((on p d).1.map fun _ => (), (on p d).2) := by
  have h : on (discard p) d = on (p >>= fun _ => pure ()) d := rfl
  rw [h, on_bind]
  rcases on p d with ⟨result, d'⟩
  cases result <;> rfl

/-- What every call of a kind keeps, a program of such calls keeps. -/
theorem on_invariant (inv : Store → Prop)
    (hstep : ∀ c d, kind c → inv d → inv (d.exec c).2) (p : Registry α) (hp : p.run.Makes kind)
    (d : Store) (hd : inv d) : inv (on p d).2 :=
  Program.run_invariant kind _ inv hstep p.run hp d hd

/-- A program leaves every key alone that none of its calls is about. -/
theorem get?_on (p : Registry α) (key : String)
    (hp : p.run.Makes fun c : Store.Call => key ∉ c.changed) (d : Store) :
    (on p d).2.get? key = d.get? key := by
  refine on_invariant (fun c => key ∉ c.changed) (fun d' => d'.get? key = d.get? key) ?_ p hp d rfl
  intro c d' hc hd'
  rw [Store.get?_exec d' c key hc, hd']

end Registry

end StoragePolicy
